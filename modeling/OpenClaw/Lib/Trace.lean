import OpenClaw.Lib.Prog

/-!
# Runs with their calls

`Prog.Traces E p w l a w'` is a run of `p` alone with the list `l` of the calls it made and the answers it got.
`Prog.wpt` is the weakest precondition over such runs; it is computed along the program like `Prog.wp`.

- `wpt_iff_traces`: `wpt` speaks about exactly the runs.
- `Prog.Stops E p w l w'` is a part of such a run: the program was killed, or it returned. `Prog.always` speaks about
  the parts of all runs (`always_iff_stops`).
- `Prog.Keeps E I p`: every part of a run keeps `I`.
- `Prog.Plays p l a`: the program alone, given the answers in `l`, returns `a`; every run plays its own list
  (`wpt_plays`), and what holds under any answers (`Sem.free`) holds of every list played (`plays_of_wpt`).
-/

namespace Atomic

variable {S : Sig} {W α β : Type}

/-- Any answer to any call. -/
def Sem.free (S : Sig) : Sem S Unit := ⟨fun _ _ _ _ => True⟩

/-- A call with its answer. -/
abbrev Answered (S : Sig) := (c : S.Call) × S.Ans c

namespace Prog

/-- `p` run alone from `w` makes the calls `l` and returns `a` in the world `w'`. -/
inductive Traces (E : Sem S W) : Prog S α → W → List (Answered S) → α → W → Prop
  | ret (a : α) (w : W) : Traces E (.ret a) w [] a w
  | call {c : S.Call} {k : S.Ans c → Prog S α} {r : S.Ans c} {w w₁ w₂ : W} {l : List (Answered S)} {a : α} :
      E.step c r w w₁ → Traces E (k r) w₁ l a w₂ → Traces E (.call c k) w (⟨c, r⟩ :: l) a w₂

/-- Every complete run from `w` ends in `Q`, which may look at the calls that were made. -/
def wpt (E : Sem S W) : Prog S α → (List (Answered S) → α → W → Prop) → W → Prop
  | .ret a, Q, w => Q [] a w
  | .call c k, Q, w => ∀ r w', E.step c r w w' → (k r).wpt E (fun l => Q (⟨c, r⟩ :: l)) w'

variable {E : Sem S W}

theorem wpt_mono {p : Prog S α} {Q Q' : List (Answered S) → α → W → Prop} (h : ∀ l a w, Q l a w → Q' l a w) :
    ∀ {w : W}, p.wpt E Q w → p.wpt E Q' w := by
  induction p generalizing Q Q' with
  | ret a => exact h [] a _
  | call c k ih => exact fun hw r w' hs => ih r (fun l => h (⟨c, r⟩ :: l)) (hw r w' hs)

theorem wpt_bind (p : Prog S α) (f : α → Prog S β) (Q : List (Answered S) → β → W → Prop) (w : W) :
    (p >>= f).wpt E Q w ↔ p.wpt E (fun l a w' => (f a).wpt E (fun l' => Q (l ++ l')) w') w := by
  induction p generalizing Q w with
  | ret a => exact Iff.rfl
  | call c k ih =>
    simp only [call_bind, wpt]
    exact forall_congr' fun r => forall_congr' fun w' => imp_congr_right fun _ => ih r _ w'

theorem wpt_and {p : Prog S α} {Q Q' : List (Answered S) → α → W → Prop} :
    ∀ {w : W}, p.wpt E Q w → p.wpt E Q' w → p.wpt E (fun l a w => Q l a w ∧ Q' l a w) w := by
  induction p generalizing Q Q' with
  | ret a => exact fun h h' => ⟨h, h'⟩
  | call c k ih => exact fun h h' r w' hs => ih r (h r w' hs) (h' r w' hs)

/-- A postcondition that does not look at the calls. -/
theorem wpt_iff_wp {p : Prog S α} {Q : α → W → Prop} {w : W} : p.wpt E (fun _ => Q) w ↔ p.wp E Q w := by
  induction p generalizing w with
  | ret a => exact Iff.rfl
  | call c k ih => exact forall_congr' fun r => forall_congr' fun w' => imp_congr_right fun _ => ih r

/-- What holds whatever the calls were. -/
theorem wpt_of_wp {p : Prog S α} {Q : α → W → Prop} {w : W} (h : p.wp E Q w) : p.wpt E (fun _ => Q) w :=
  wpt_iff_wp.2 h

theorem wpt_iff_traces {p : Prog S α} {Q : List (Answered S) → α → W → Prop} {w : W} :
    p.wpt E Q w ↔ ∀ l a w', Traces E p w l a w' → Q l a w' := by
  constructor
  · intro h l a w' hr
    induction hr generalizing Q with
    | ret a w => exact h
    | call hs _ ih => exact ih (h _ _ hs)
  · intro h
    induction p generalizing Q w with
    | ret a => exact h [] a w (.ret a w)
    | call c k ih => exact fun r w' hs => ih r fun l a w'' hr => h _ a w'' (.call hs hr)

theorem Traces.runs {p : Prog S α} {w w' : W} {l : List (Answered S)} {a : α} (h : Traces E p w l a w') :
    Runs E p w a w' := by
  induction h with
  | ret a w => exact .ret a w
  | call hs _ ih => exact .call hs ih

theorem Traces.mono {E' : Sem S W} (hE : ∀ c r w w', E.step c r w w' → E'.step c r w w') {p : Prog S α} {w w' : W}
    {l : List (Answered S)} {a : α} (h : Traces E p w l a w') : Traces E' p w l a w' := by
  induction h with
  | ret a w => exact .ret a w
  | call hs _ ih => exact .call (hE _ _ _ _ hs) ih

theorem Traces.of_restrict {ok : (c : S.Call) → S.Ans c → W → Prop} {p : Prog S α} {w w' : W} {l : List (Answered S)}
    {a : α} (h : Traces (E.restrict ok) p w l a w') : Traces E p w l a w' :=
  Traces.mono (E := E.restrict ok) (fun _ _ _ _ hs => And.right hs) h

/-- The program, given the answers of `l`, makes the calls of `l` and returns `a`. -/
inductive Plays : Prog S α → List (Answered S) → α → Prop
  | ret (a : α) : Plays (.ret a) [] a
  | call {c : S.Call} {k : S.Ans c → Prog S α} {r : S.Ans c} {l : List (Answered S)} {a : α} :
      Plays (k r) l a → Plays (.call c k) (⟨c, r⟩ :: l) a

theorem plays_ret {a b : α} {l : List (Answered S)} : Plays (.ret a) l b ↔ l = [] ∧ a = b := by
  constructor
  · intro h
    cases h
    exact ⟨rfl, rfl⟩
  · rintro ⟨rfl, rfl⟩
    exact .ret _

theorem plays_call {c : S.Call} {k : S.Ans c → Prog S α} {l : List (Answered S)} {a : α} :
    Plays (.call c k) l a ↔ ∃ r l', l = ⟨c, r⟩ :: l' ∧ Plays (k r) l' a := by
  constructor
  · intro h
    cases h with
    | call h => exact ⟨_, _, rfl, h⟩
  · rintro ⟨r, l', rfl, h⟩
    exact .call h

/-- What a program plays is decided by the answers: the same calls with the same answers end at the same place. -/
theorem Plays.unique {p : Prog S α} {l l' m m' : List (Answered S)} {a a' : α} (h : Plays p l a) (h' : Plays p l' a')
    (he : l ++ m = l' ++ m') : l = l' ∧ a = a' := by
  induction h generalizing l' with
  | ret a =>
    obtain ⟨rfl, rfl⟩ := plays_ret.1 h'
    exact ⟨rfl, rfl⟩
  | call _ ih =>
    obtain ⟨r, l₁, rfl, h₁⟩ := plays_call.1 h'
    simp only [List.cons_append, List.cons.injEq] at he
    obtain ⟨hr, he⟩ := he
    cases hr
    obtain ⟨rfl, rfl⟩ := ih h₁ he
    exact ⟨rfl, rfl⟩

/-- Every call that was made is one the program may make. -/
theorem wpt_all {P : S.Call → Prop} {p : Prog S α} (hp : p.All P) (w : W) :
    p.wpt E (fun l _ _ => ∀ x ∈ l, P x.1) w := by
  induction p generalizing w with
  | ret a => exact fun x h => absurd h List.not_mem_nil
  | call c k ih =>
    intro r w' _
    refine wpt_mono ?_ (ih r (hp.2 r) w')
    intro l a w'' h
    exact List.forall_mem_cons.2 ⟨hp.1, h⟩

theorem Gives.wpt {P : S.Call → Prop} {R : α → Prop} {p : Prog S α} (hp : p.Gives P R) (w : W) :
    p.wpt E (fun _ a _ => R a) w := by
  induction p generalizing w with
  | ret a => exact hp
  | call c k ih => exact fun r w' _ => ih r (hp.2 r) w'

theorem wpt_plays (p : Prog S α) (w : W) : p.wpt E (fun l a _ => Plays p l a) w := by
  induction p generalizing w with
  | ret a => exact .ret a
  | call c k ih => exact fun r w' _ => wpt_mono (fun _ _ _ h => .call h) (ih r w')

theorem Plays.traces {p : Prog S α} {l : List (Answered S)} {a : α} (h : Plays p l a) :
    Traces (Sem.free S) p () l a () := by
  induction h with
  | ret a => exact .ret a ()
  | call _ ih => exact .call trivial ih

/-- What holds whatever the calls are answered holds of everything the program plays. -/
theorem plays_of_wpt {p : Prog S α} {Q : List (Answered S) → α → Unit → Prop} (h : p.wpt (Sem.free S) Q ()) {l : List (Answered S)}
    {a : α} (hp : Plays p l a) : Q l a () := wpt_iff_traces.1 h l a () hp.traces

theorem Traces.plays {p : Prog S α} {w w' : W} {l : List (Answered S)} {a : α} (h : Traces E p w l a w') :
    Plays p l a := wpt_iff_traces.1 (wpt_plays p w) l a w' h

theorem plays_all {P : S.Call → Prop} {p : Prog S α} (hp : p.All P) {l : List (Answered S)} {a : α} (h : Plays p l a) :
    ∀ x ∈ l, P x.1 := plays_of_wpt (wpt_all hp ()) h

/-- The calls and the result, when `f` answers. -/
def answered (f : (c : S.Call) → S.Ans c) : Prog S α → List (Answered S) × α
  | .ret a => ([], a)
  | .call c k => (⟨c, f c⟩ :: ((k (f c)).answered f).1, ((k (f c)).answered f).2)

theorem plays_answered (f : (c : S.Call) → S.Ans c) (p : Prog S α) : Plays p (p.answered f).1 (p.answered f).2 := by
  induction p with
  | ret a => exact .ret a
  | call c k ih => exact .call (ih (f c))

/-! ## Parts of runs -/

/-- `p` started in `w` has made the calls `l`, which led to `w'`; it may be killed there. -/
inductive Stops (E : Sem S W) : Prog S α → W → List (Answered S) → W → Prop
  | here (p : Prog S α) (w : W) : Stops E p w [] w
  | call {c : S.Call} {k : S.Ans c → Prog S α} {r : S.Ans c} {w w₁ w₂ : W} {l : List (Answered S)} :
      E.step c r w w₁ → Stops E (k r) w₁ l w₂ → Stops E (.call c k) w (⟨c, r⟩ :: l) w₂

/-- Every part of every run from `w` ends in `Q`. -/
def always (E : Sem S W) : Prog S α → (List (Answered S) → W → Prop) → W → Prop
  | .ret _, Q, w => Q [] w
  | .call c k, Q, w => Q [] w ∧ ∀ r w', E.step c r w w' → (k r).always E (fun l => Q (⟨c, r⟩ :: l)) w'

theorem Traces.stops {p : Prog S α} {w w' : W} {l : List (Answered S)} {a : α} (h : Traces E p w l a w') :
    Stops E p w l w' := by
  induction h with
  | ret a w => exact .here _ w
  | call hs _ ih => exact .call hs ih

theorem Stops.mono {E' : Sem S W} (hE : ∀ c r w w', E.step c r w w' → E'.step c r w w') {p : Prog S α} {w w' : W}
    {l : List (Answered S)} (h : Stops E p w l w') : Stops E' p w l w' := by
  induction h with
  | here p w => exact .here p w
  | call hs _ ih => exact .call (hE _ _ _ _ hs) ih

theorem always_nil {p : Prog S α} {Q : List (Answered S) → W → Prop} {w : W} (h : p.always E Q w) : Q [] w := by
  cases p with
  | ret a => exact h
  | call c k => exact h.1

theorem always_mono {p : Prog S α} {Q Q' : List (Answered S) → W → Prop} (h : ∀ l w, Q l w → Q' l w) :
    ∀ {w : W}, p.always E Q w → p.always E Q' w := by
  induction p generalizing Q Q' with
  | ret a => exact h [] _
  | call c k ih =>
    intro w hw
    exact ⟨h [] w hw.1, fun r w' hs => ih r (fun l => h (⟨c, r⟩ :: l)) (hw.2 r w' hs)⟩

/-- `always` speaks about exactly the parts of the runs. -/
theorem always_iff_stops {p : Prog S α} {Q : List (Answered S) → W → Prop} {w : W} :
    p.always E Q w ↔ ∀ l w', Stops E p w l w' → Q l w' := by
  constructor
  · intro h l w' hr
    induction hr generalizing Q with
    | here p w => exact always_nil h
    | call hs _ ih => exact ih (h.2 _ _ hs)
  · intro h
    induction p generalizing Q w with
    | ret a => exact h [] w (.here _ w)
    | call c k ih =>
      exact ⟨h [] w (.here _ w), fun r w' hs => ih r fun l w'' hr => h _ w'' (.call hs hr)⟩

/-- **Frame rule for parts of runs.** What every call of `P` keeps of the calls so far and the world, holds throughout a
program of such calls, and whatever follows it starts there. -/
theorem Gives.always_bind {P : S.Call → Prop} {R : α → Prop} {I Q : List (Answered S) → W → Prop}
    (hP : ∀ c r l w w', P c → I l w → E.step c r w w' → I (l ++ [⟨c, r⟩]) w') (hQ : ∀ l w, I l w → Q l w)
    {p : Prog S α} {f : α → Prog S β} (hp : p.Gives P R) : ∀ {l : List (Answered S)} {w : W}, I l w →
      (∀ a l w', R a → I l w' → (f a).always E (fun l' => Q (l ++ l')) w') →
        (p >>= f).always E (fun l' => Q (l ++ l')) w := by
  induction p with
  | ret a => exact fun h hf => hf a _ _ hp h
  | call c k ih =>
    intro l w h hf
    refine ⟨by simpa using hQ l w h, fun r w' hs => ?_⟩
    have hrest := ih r (hp.2 r) (hP c r l w w' hp.1 h hs) hf
    exact always_mono (fun l' w'' h' => by simpa using h') hrest

/-! ## What every part of a run keeps -/

/-- The program keeps `I`, which speaks about the calls so far and the world. -/
def Keeps (E : Sem S W) (I : List (Answered S) → W → Prop) (p : Prog S α) : Prop :=
  ∀ l w, I l w → p.always E (fun l' w' => I (l ++ l') w') w

section Keeps

variable {I : List (Answered S) → W → Prop}

theorem Keeps.ret (a : α) : Keeps E I (.ret a : Prog S α) := by
  intro l w h
  show I (l ++ []) w
  rwa [List.append_nil]

/-- One call, whose answer satisfies `A`. -/
theorem Keeps.call {c : S.Call} {k : S.Ans c → Prog S α} {A : S.Ans c → Prop}
    (hI : ∀ r l w w', I l w → E.step c r w w' → A r ∧ I (l ++ [⟨c, r⟩]) w') (hk : ∀ r, A r → Keeps E I (k r)) :
    Keeps E I (.call c k) := by
  intro l w h
  refine ⟨by simpa using h, fun r w' hs => ?_⟩
  obtain ⟨hA, h'⟩ := hI r l w w' h hs
  exact always_mono (fun l' w'' h'' => by simpa using h'') (hk r hA _ w' h')

/-- A part of calls that keep `I`. -/
theorem Keeps.bind {P : S.Call → Prop} {R : α → Prop}
    (hP : ∀ c r l w w', P c → I l w → E.step c r w w' → I (l ++ [⟨c, r⟩]) w') {p : Prog S α} {f : α → Prog S β}
    (hp : p.Gives P R) (hf : ∀ a, R a → Keeps E I (f a)) : Keeps E I (p >>= f) := by
  intro l w h
  exact hp.always_bind hP (fun _ _ h => h) h fun a l' w' ha h' => hf a ha l' w' h'

theorem Keeps.stops {p : Prog S α} (hp : Keeps E I p) {l l' : List (Answered S)} {w w' : W} (h : I l w)
    (hs : Stops E p w l' w') : I (l ++ l') w' := always_iff_stops.1 (hp l w h) l' w' hs

end Keeps

end Prog

end Atomic
