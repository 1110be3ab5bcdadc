import OpenClaw.Lib.Trace

/-!
# Scripts under `set -e`

A shell that runs under `set -e` ends at the first command that fails, unless the failure is that of a condition or of any
but the last command of an `&&`/`||` list. `ShScript.exec` turns such a script into a program of its simple commands.

- `ShScript.oks`, `ShScript.goes`: which commands have succeeded when a script succeeds, and when the shell goes on after it,
  as a list of alternatives.
- `exec_explains`, `goes_of_exec`: what they say of every run; `failed_of_exec`: no script fails by itself.
- `ShScript.withTrap`: a script with an `EXIT` trap.
-/

namespace Errexit

open Atomic

variable {C : Type}

/-- Simple commands, each of which succeeds or fails. -/
abbrev Cmds (C : Type) : Sig := ⟨C, fun _ => Bool⟩

inductive ShScript (C : Type)
  | run (c : C)
  /-- `true` and `false` -/
  | const (ok : Bool)
  | exit (ok : Bool)
  /-- `a; b` -/
  | seq (a b : ShScript C)
  /-- `a && b` -/
  | and (a b : ShScript C)
  /-- `a || b` -/
  | or (a b : ShScript C)
  /-- `if c; then a; else b; fi` -/
  | ite (c a b : ShScript C)
  /-- A loop that tries `a` at most `n` times, with `b` after each failure, and runs `c` when none succeeded. -/
  | tries (n : ℕ) (a b c : ShScript C)

/-- How a script ends: its status, or the shell has ended with a status. -/
inductive Ending
  | ok
  | failed
  | exited (ok : Bool)
deriving DecidableEq

namespace Ending

/-- The status of a command; a failure that is not ignored ends the shell. -/
def of (ignored ok : Bool) : Ending := if ok then .ok else if ignored then .failed else .exited false

def exits : Ending → Bool
  | .exited _ => true
  | _ => false

/-- The exit status of a shell whose last command ended so. -/
def status : Ending → Bool
  | .ok => true
  | .failed => false
  | .exited r => r

end Ending

namespace ShScript

/-- The rounds of a loop. -/
def rounds (a b c : Prog (Cmds C) Ending) : ℕ → Prog (Cmds C) Ending
  | 0 => c
  | n + 1 => do
    let e ← a
    if e = .failed then do
      let e' ← b
      if e'.exits then pure e' else rounds a b c n
    else pure e

/-- The commands that a script runs; `ignored` says that a failure of it does not end the shell. -/
def exec : ShScript C → (ignored : Bool) → Prog (Cmds C) Ending
  | .run c, ignored => do
    let ok ← (Prog.lift c : Prog (Cmds C) Bool)
    pure (.of ignored ok)
  | .const ok, ignored => pure (.of ignored ok)
  | .exit ok, _ => pure (.exited ok)
  | .seq a b, ignored => do
    let e ← a.exec ignored
    if e.exits then pure e else b.exec ignored
  | .and a b, ignored => do
    let e ← a.exec true
    if e = .ok then b.exec ignored else pure e
  | .or a b, ignored => do
    let e ← a.exec true
    if e = .failed then b.exec ignored else pure e
  | .ite c a b, ignored => do
    let e ← c.exec true
    if e.exits then pure e else if e = .ok then a.exec ignored else b.exec ignored
  | .tries n a b c, ignored => rounds (a.exec true) (b.exec ignored) (c.exec ignored) n

/-- The script, and the trap with its exit status; the status of the shell. -/
def withTrap (s : ShScript C) (trap : Bool → ShScript C) : Prog (Cmds C) Bool := do
  let e ← s.exec false
  let _ ← (trap e.status).exec false
  pure e.status

/-- The simple commands of a script. -/
def commands : ShScript C → List C
  | .run c => [c]
  | .const _ | .exit _ => []
  | .seq a b | .and a b | .or a b => a.commands ++ b.commands
  | .ite c a b => c.commands ++ a.commands ++ b.commands
  | .tries _ a b c => a.commands ++ b.commands ++ c.commands

/-- One of each pair of alternatives. -/
def either (xs ys : List (List C)) : List (List C) := xs.flatMap fun x => ys.map fun y => x ++ y

/-- Which commands have succeeded when the script succeeds: one of each list. -/
def oks : ShScript C → List (List C)
  | .run c => [[c]]
  | .const ok => if ok then [] else [[]]
  | .exit _ => [[]]
  | .seq _ b => b.oks
  | .and a b => a.oks ++ b.oks
  | .or a b => either a.oks b.oks
  | .ite _ a b => either a.oks b.oks
  | .tries n a _ c => if n = 0 then c.oks else either a.oks c.oks

/-- Which commands have succeeded when the shell goes on after the script: one of each list. -/
def goes : ShScript C → List (List C)
  | .run c => [[c]]
  | .const ok => if ok then [] else [[]]
  | .exit _ => [[]]
  | .seq a b => a.goes ++ b.goes
  | .and _ _ => []
  | .or a b => either a.oks b.goes
  | .ite _ a b => either a.goes b.goes
  | .tries n a _ c => if n = 0 then c.goes else either a.oks c.goes

/-- The script succeeds when none of its commands fails. -/
def sound : ShScript C → Bool
  | .run _ => true
  | .const ok => ok
  | .exit _ => false
  | .seq a b | .and a b => a.sound && b.sound
  | .or a _ => a.sound
  | .ite c a _ => c.sound && a.sound
  | .tries n a _ c => if n = 0 then c.sound else a.sound

/-- The script says `exit 0` nowhere. -/
def noExitOk : ShScript C → Bool
  | .run _ | .const _ => true
  | .exit ok => !ok
  | .seq a b | .and a b | .or a b => a.noExitOk && b.noExitOk
  | .ite c a b | .tries _ a b c => c.noExitOk && a.noExitOk && b.noExitOk

end ShScript

/-- One command of each list has succeeded. -/
def Succeeded (xs : List (List C)) (l : List (Answered (Cmds C))) : Prop := ∀ x ∈ xs, ∃ c ∈ x, ⟨c, true⟩ ∈ l

section Succeeded

variable {xs ys : List (List C)} {l l' : List (Answered (Cmds C))}

theorem Succeeded.mono (h : Succeeded xs l) (hl : ∀ a ∈ l, a ∈ l') : Succeeded xs l' := by
  intro x hx
  obtain ⟨c, hc, hm⟩ := h x hx
  exact ⟨c, hc, hl _ hm⟩

theorem Succeeded.left (h : Succeeded xs l) (l' : List (Answered (Cmds C))) : Succeeded xs (l ++ l') :=
  h.mono fun _ => List.mem_append_left _

theorem Succeeded.right (h : Succeeded xs l) (l' : List (Answered (Cmds C))) : Succeeded xs (l' ++ l) :=
  h.mono fun _ => List.mem_append_right _

theorem Succeeded.append (hx : Succeeded xs l) (hy : Succeeded ys l) : Succeeded (xs ++ ys) l := by
  intro x hm
  rcases List.mem_append.1 hm with hm | hm
  · exact hx x hm
  · exact hy x hm

theorem Succeeded.either_left (h : Succeeded xs l) : Succeeded (ShScript.either xs ys) l := by
  intro z hz
  obtain ⟨x, hx, hz⟩ := List.mem_flatMap.1 hz
  obtain ⟨y, -, rfl⟩ := List.mem_map.1 hz
  obtain ⟨c, hc, hm⟩ := h x hx
  exact ⟨c, List.mem_append_left _ hc, hm⟩

theorem Succeeded.either_right (h : Succeeded ys l) : Succeeded (ShScript.either xs ys) l := by
  intro z hz
  obtain ⟨x, -, hz⟩ := List.mem_flatMap.1 hz
  obtain ⟨y, hy, rfl⟩ := List.mem_map.1 hz
  obtain ⟨c, hc, hm⟩ := h y hy
  exact ⟨c, List.mem_append_right _ hc, hm⟩

end Succeeded

/-! ## What a run says about the commands -/

/-- What the end of a script says about the commands that were run. -/
structure Explains (oks goes : List (List C)) (ignored : Bool) (l : List (Answered (Cmds C))) (e : Ending) : Prop where
  ok : e = .ok → Succeeded oks l
  goes : ignored = false → e.exits = false → Succeeded goes l

namespace Explains

variable {xs ys xs' ys' : List (List C)} {ignored : Bool} {l l' : List (Answered (Cmds C))} {e : Ending}

/-- The shell has ended. -/
theorem of_exits (he : e.exits = true) : Explains xs ys ignored l e := by
  constructor
  · rintro rfl
    cases he
  · intro _ h
    rw [he] at h
    cases h

theorem append (h : Explains xs ys ignored l e) (l' : List (Answered (Cmds C))) :
    Explains xs ys ignored (l' ++ l) e :=
  ⟨fun he => (h.ok he).right l', fun hi he => (h.goes hi he).right l'⟩

theorem either_right (h : Explains xs ys ignored l e) :
    Explains (ShScript.either xs' xs) (ShScript.either ys' ys) ignored l e :=
  ⟨fun he => (h.ok he).either_right, fun hi he => (h.goes hi he).either_right⟩

theorem either_left (h : Explains xs ys ignored l e) :
    Explains (ShScript.either xs xs') (ShScript.either ys ys') ignored l e :=
  ⟨fun he => (h.ok he).either_left, fun hi he => (h.goes hi he).either_left⟩

/-- A part that succeeded settles the alternatives. -/
theorem of_ok (h : Succeeded xs l) : Explains (ShScript.either xs xs') (ShScript.either xs ys) ignored l .ok :=
  ⟨fun _ => h.either_left, fun _ _ => h.either_left⟩

end Explains

section Runs

/-- Whatever the commands answer. -/
abbrev anyStatus (C : Type) : Sem (Cmds C) Unit := Sem.free (Cmds C)

theorem rounds_explains {a b c : Prog (Cmds C) Ending} {xs ys zs : List (List C)} {ignored : Bool}
    (ha : a.wpt (anyStatus C) (fun l e _ => e = .ok → Succeeded xs l) ())
    (hc : c.wpt (anyStatus C) (fun l e _ => Explains ys zs ignored l e) ()) (n : ℕ) :
    (ShScript.rounds a b c n).wpt (anyStatus C) (fun l e _ => Explains (if n = 0 then ys else ShScript.either xs ys)
      (if n = 0 then zs else ShScript.either xs zs) ignored l e) () := by
  induction n with
  | zero => exact hc
  | succ n ih =>
    rw [ShScript.rounds, Prog.wpt_bind]
    refine Prog.wpt_mono (fun l e _ he => ?_) ha
    split
    · rw [Prog.wpt_bind]
      refine Prog.wpt_mono (fun l' e' _ _ => ?_) (Prog.wpt_of_wp (p := b) (Q := fun _ _ => True) ?_)
      · split
        · rename_i hx
          exact Explains.of_exits hx
        · refine Prog.wpt_mono (fun l'' e'' _ h => ?_) ih
          have h' := (h.append l').append l
          by_cases hn : n = 0
          · simp only [hn, if_true] at h'
            simpa using h'.either_right
          · simp only [hn, if_false] at h'
            simpa using h'
      · exact Prog.wp_iff_runs.2 fun _ _ _ => trivial
    · show Explains _ _ ignored (l ++ []) e
      rw [List.append_nil]
      cases e with
      | ok => simpa using Explains.of_ok (he rfl)
      | exited => exact Explains.of_exits rfl
      | failed => contradiction

/-- **What the end of a script says**, whatever its commands answer. -/
theorem exec_explains (s : ShScript C) (ignored : Bool) :
    (s.exec ignored).wpt (anyStatus C) (fun l e _ => Explains s.oks s.goes ignored l e) () := by
  induction s generalizing ignored with
  | run c =>
    rintro ok ⟨⟩ -
    show Explains [[c]] [[c]] ignored [⟨c, ok⟩] (.of ignored ok)
    have hdone : ok = true → Succeeded [[c]] [(⟨c, ok⟩ : Answered (Cmds C))] := by
      rintro rfl x hx
      obtain rfl := List.mem_singleton.1 hx
      exact ⟨c, List.mem_singleton_self c, List.mem_singleton_self _⟩
    refine ⟨fun he => hdone ?_, fun hi he => hdone ?_⟩
    · cases ok with
      | true => rfl
      | false => cases ignored <;> cases he
    · subst hi
      cases ok with
      | true => rfl
      | false => cases he
  | const ok =>
    show Explains (if ok then [] else [[]]) (if ok then [] else [[]]) ignored [] (.of ignored ok)
    cases ok with
    | true => exact ⟨fun _ x hx => absurd hx List.not_mem_nil, fun _ _ x hx => absurd hx List.not_mem_nil⟩
    | false =>
      constructor
      · cases ignored <;> exact fun h => (by cases h)
      · rintro rfl h
        cases h
  | exit ok => exact Explains.of_exits rfl
  | seq a b iha ihb =>
    rw [ShScript.exec, Prog.wpt_bind]
    refine Prog.wpt_mono (fun l e _ h => ?_) (iha ignored)
    split
    · rename_i hx
      exact Explains.of_exits hx
    · rename_i hx
      refine Prog.wpt_mono (fun l' e' _ h' => ?_) (ihb ignored)
      refine ⟨fun he => (h'.ok he).right l, fun hi he => ?_⟩
      exact ((h.goes hi (Bool.not_eq_true _ ▸ hx)).left l').append ((h'.goes hi he).right l)
  | and a b iha ihb =>
    rw [ShScript.exec, Prog.wpt_bind]
    refine Prog.wpt_mono (fun l e _ h => ?_) (iha true)
    split
    · rename_i hx
      refine Prog.wpt_mono (fun l' e' _ h' => ?_) (ihb ignored)
      exact ⟨fun he => ((h.ok hx).left l').append ((h'.ok he).right l), fun _ _ x hx => absurd hx List.not_mem_nil⟩
    · rename_i hx
      exact ⟨fun he => absurd he hx, fun _ _ x hx => absurd hx List.not_mem_nil⟩
  | or a b iha ihb =>
    rw [ShScript.exec, Prog.wpt_bind]
    refine Prog.wpt_mono (fun l e _ h => ?_) (iha true)
    split
    · exact Prog.wpt_mono (fun l' e' _ h' => (h'.append l).either_right) (ihb ignored)
    · show Explains _ _ ignored (l ++ []) e
      rw [List.append_nil]
      cases e with
      | ok => exact Explains.of_ok (h.ok rfl)
      | exited => exact Explains.of_exits rfl
      | failed => contradiction
  | ite c a b ihc iha ihb =>
    rw [ShScript.exec, Prog.wpt_bind]
    refine Prog.wpt_mono (fun l e _ _ => ?_) (ihc true)
    split
    · rename_i hx
      exact Explains.of_exits hx
    · split
      · exact Prog.wpt_mono (fun l' e' _ h' => (h'.append l).either_left) (iha ignored)
      · exact Prog.wpt_mono (fun l' e' _ h' => (h'.append l).either_right) (ihb ignored)
  | tries n a b c iha _ ihc =>
    exact rounds_explains (Prog.wpt_mono (fun _ _ _ h => h.ok) (iha true)) (ihc ignored) n

/-- **Where the shell goes on**, no mandatory command has failed. -/
theorem goes_of_exec {s : ShScript C} {l : List (Answered (Cmds C))} {e : Ending} (h : (s.exec false).Plays l e)
    (he : e.exits = false) : Succeeded s.goes l := (Prog.plays_of_wpt (exec_explains s false) h).goes rfl he

/-! ## Failures -/

/-- After a part that has seen a failure nothing is left to show. -/
theorem wpt_failed {p : Prog (Cmds C) Ending} {l : List (Answered (Cmds C))} (hl : ¬ ∀ x ∈ l, x.2 = true) :
    p.wpt (anyStatus C) (fun l' e _ => (∀ x ∈ l ++ l', x.2 = true) → e = .ok) () :=
  Prog.wpt_mono (fun _ _ _ _ hall => absurd (fun x hx => hall x (List.mem_append_left _ hx)) hl)
    (Prog.wpt_of_wp (Q := fun _ _ => True) (Prog.wp_iff_runs.2 fun _ _ _ => trivial))

/-- After a part that succeeded. -/
theorem wpt_passed {p : Prog (Cmds C) Ending} {l : List (Answered (Cmds C))}
    (hp : p.wpt (anyStatus C) (fun l e _ => (∀ x ∈ l, x.2 = true) → e = .ok) ()) :
    p.wpt (anyStatus C) (fun l' e _ => (∀ x ∈ l ++ l', x.2 = true) → e = .ok) () :=
  Prog.wpt_mono (fun _ _ _ h hall => h fun x hx => hall x (List.mem_append_right _ hx)) hp

theorem sound_wpt {s : ShScript C} (hs : s.sound = true) (ignored : Bool) :
    (s.exec ignored).wpt (anyStatus C) (fun l e _ => (∀ x ∈ l, x.2 = true) → e = .ok) () := by
  induction s generalizing ignored with
  | run c =>
    rintro ok ⟨⟩ - hall
    obtain rfl : ok = true := hall _ (List.mem_singleton_self _)
    rfl
  | const ok =>
    obtain rfl : ok = true := hs
    exact fun _ => rfl
  | exit ok => cases hs
  | seq a b iha ihb | and a b iha ihb =>
    obtain ⟨ha, hb⟩ : a.sound = true ∧ b.sound = true := by simpa [ShScript.sound] using hs
    rw [ShScript.exec, Prog.wpt_bind]
    refine Prog.wpt_mono (fun l e _ h => ?_) (iha ha _)
    by_cases hl : ∀ x ∈ l, x.2 = true
    · rw [h hl]
      exact wpt_passed (ihb hb _)
    · exact wpt_failed hl
  | or a b iha =>
    rw [ShScript.exec, Prog.wpt_bind]
    refine Prog.wpt_mono (fun l e _ h => ?_) (iha hs _)
    by_cases hl : ∀ x ∈ l, x.2 = true
    · rw [h hl]
      exact fun _ => rfl
    · exact wpt_failed hl
  | ite c a b ihc iha =>
    obtain ⟨hc, ha⟩ : c.sound = true ∧ a.sound = true := by simpa [ShScript.sound] using hs
    rw [ShScript.exec, Prog.wpt_bind]
    refine Prog.wpt_mono (fun l e _ h => ?_) (ihc hc _)
    by_cases hl : ∀ x ∈ l, x.2 = true
    · rw [h hl]
      exact wpt_passed (iha ha _)
    · exact wpt_failed hl
  | tries n a b c iha _ ihc =>
    cases n with
    | zero => exact ihc hs _
    | succ n =>
      show (ShScript.rounds _ _ _ (n + 1)).wpt _ _ _
      rw [ShScript.rounds, Prog.wpt_bind]
      refine Prog.wpt_mono (fun l e _ h => ?_) (iha hs _)
      by_cases hl : ∀ x ∈ l, x.2 = true
      · rw [h hl]
        exact fun _ => rfl
      · exact wpt_failed hl

/-- **A script that did not succeed** has seen a command fail. -/
theorem failed_of_exec {s : ShScript C} (hs : s.sound = true) {ignored : Bool} {l : List (Answered (Cmds C))} {e : Ending}
    (h : (s.exec ignored).Plays l e) (he : e ≠ .ok) : ∃ x ∈ l, x.2 = false := by
  by_contra hno
  push Not at hno
  exact he (Prog.plays_of_wpt (sound_wpt hs ignored) h fun x hx => by simpa using hno x hx)

/-- What `exec` may end with. -/
theorem Ending.of_ne_exited_true {ignored ok : Bool} : Ending.of ignored ok ≠ .exited true := by
  cases ok <;> cases ignored <;> decide

theorem rounds_noExit {a b c : Prog (Cmds C) Ending}
    (ha : a.wpt (anyStatus C) (fun _ e _ => e ≠ .exited true) ())
    (hb : b.wpt (anyStatus C) (fun _ e _ => e ≠ .exited true) ())
    (hc : c.wpt (anyStatus C) (fun _ e _ => e ≠ .exited true) ()) (n : ℕ) :
    (ShScript.rounds a b c n).wpt (anyStatus C) (fun _ e _ => e ≠ .exited true) () := by
  induction n with
  | zero => exact hc
  | succ n ih =>
    rw [ShScript.rounds, Prog.wpt_bind]
    refine Prog.wpt_mono (fun l e _ he => ?_) ha
    split
    · rw [Prog.wpt_bind]
      refine Prog.wpt_mono (fun l' e' _ he' => ?_) hb
      split
      · exact he'
      · exact ih
    · exact he

/-- A shell that ends without `exit 0` ends with a failure. -/
theorem noExit_wpt {s : ShScript C} (hs : s.noExitOk = true) (ignored : Bool) :
    (s.exec ignored).wpt (anyStatus C) (fun _ e _ => e ≠ .exited true) () := by
  induction s generalizing ignored with
  | run c => exact fun _ _ _ => Ending.of_ne_exited_true
  | const ok => exact Ending.of_ne_exited_true
  | exit ok =>
    cases ok with
    | true => cases hs
    | false => exact fun h => (by cases h)
  | seq a b iha ihb | and a b iha ihb | or a b iha ihb =>
    obtain ⟨ha, hb⟩ : a.noExitOk = true ∧ b.noExitOk = true := by simpa [ShScript.noExitOk] using hs
    rw [ShScript.exec, Prog.wpt_bind]
    refine Prog.wpt_mono (fun l e _ he => ?_) (iha ha _)
    split
    · first | exact he | exact ihb hb _
    · first | exact he | exact ihb hb _
  | ite c a b ihc iha ihb =>
    obtain ⟨⟨hc, ha⟩, hb⟩ : (c.noExitOk = true ∧ a.noExitOk = true) ∧ b.noExitOk = true := by
      simpa [ShScript.noExitOk] using hs
    rw [ShScript.exec, Prog.wpt_bind]
    refine Prog.wpt_mono (fun l e _ he => ?_) (ihc hc _)
    split
    · exact he
    · split
      · exact iha ha _
      · exact ihb hb _
  | tries n a b c iha ihb ihc =>
    obtain ⟨⟨hc, ha⟩, hb⟩ : (c.noExitOk = true ∧ a.noExitOk = true) ∧ b.noExitOk = true := by
      simpa [ShScript.noExitOk] using hs
    exact rounds_noExit (iha ha _) (ihb hb _) (ihc hc _) n

theorem status_of_exits {s : ShScript C} (hs : s.noExitOk = true) {ignored : Bool} {l : List (Answered (Cmds C))}
    {e : Ending} (h : (s.exec ignored).Plays l e) (he : e.exits = true) : e.status = false := by
  have hne := Prog.plays_of_wpt (noExit_wpt hs ignored) h
  cases e with
  | exited r =>
    cases r with
    | true => exact absurd rfl hne
    | false => rfl
  | _ => cases he

/-! ## The commands of a script -/

theorem rounds_all {P : C → Prop} {a b c : Prog (Cmds C) Ending} (ha : a.All P) (hb : b.All P) (hc : c.All P) (n : ℕ) :
    (ShScript.rounds a b c n).All P := by
  induction n with
  | zero => exact hc
  | succ n ih =>
    refine ha.bind fun e => ?_
    split
    · refine hb.bind fun e' => ?_
      split
      · trivial
      · exact ih
    · trivial

theorem exec_all {P : C → Prop} {s : ShScript C} (h : ∀ c ∈ s.commands, P c) (ignored : Bool) :
    (s.exec ignored).All P := by
  induction s generalizing ignored with
  | run c => exact ⟨h c List.mem_cons_self, fun _ => trivial⟩
  | const | exit => trivial
  | seq a b iha ihb | and a b iha ihb | or a b iha ihb =>
    refine (iha (fun c hc => h c (List.mem_append_left _ hc)) _).bind fun e => ?_
    split
    · first | trivial | exact ihb (fun c hc => h c (List.mem_append_right _ hc)) _
    · first | trivial | exact ihb (fun c hc => h c (List.mem_append_right _ hc)) _
  | ite c a b ihc iha ihb =>
    refine (ihc (fun x hx => h x (List.mem_append_left _ (List.mem_append_left _ hx))) _).bind fun e => ?_
    split
    · trivial
    · split
      · exact iha (fun x hx => h x (List.mem_append_left _ (List.mem_append_right _ hx))) _
      · exact ihb (fun x hx => h x (List.mem_append_right _ hx)) _
  | tries n a b c iha ihb ihc =>
    exact rounds_all (iha (fun x hx => h x (List.mem_append_left _ (List.mem_append_left _ hx))) _)
      (ihb (fun x hx => h x (List.mem_append_left _ (List.mem_append_right _ hx))) _)
      (ihc (fun x hx => h x (List.mem_append_right _ hx)) _) n

/-- A run of a script runs its commands. -/
theorem commands_of_exec {s : ShScript C} {ignored : Bool} {l : List (Answered (Cmds C))} {e : Ending}
    (h : (s.exec ignored).Plays l e) : ∀ x ∈ l, x.1 ∈ s.commands :=
  Prog.plays_all (exec_all (fun _ hc => hc) ignored) h

end Runs

end Errexit
