import OpenClaw.Lib.Simulate
import OpenClaw.Lib.Trace

/-!
# Jobs run one after the other

In a sequential run each job is run alone, to its end, before the next one starts. The condition on the calls of a job
may look at the world the job was started in.

- `Rounds E body ok w₀ w`: some sequence of jobs leads from `w₀` to `w`.
- `Rounds.inv`: what every job keeps, given as a `Prog.wp`, holds after every sequence.
- `Oracle.alone`, `Oracle.rounds`: the same by evaluation.
-/

namespace Atomic

variable {S : Sig} {W J α H : Type}

/-- The worlds reached from `w₀` by jobs run one after the other. -/
inductive Rounds (E : Sem S W) (body : J → Prog S α) (ok : W → J → (c : S.Call) → S.Ans c → W → Prop) (w₀ : W) :
    W → Prop
  | refl : Rounds E body ok w₀ w₀
  | round {w w' : W} {a : α} (j : J) : Rounds E body ok w₀ w → (body j).Runs (E.restrict (ok w j)) w a w' →
      Rounds E body ok w₀ w'

/-- **Invariants of sequential runs.** -/
theorem Rounds.inv {E : Sem S W} {body : J → Prog S α} {ok : W → J → (c : S.Call) → S.Ans c → W → Prop} {w₀ w : W}
    {I : W → Prop} (h₀ : I w₀) (hs : ∀ w j, I w → (body j).wp (E.restrict (ok w j)) (fun _ => I) w)
    (h : Rounds E body ok w₀ w) : I w := by
  induction h with
  | refl => exact h₀
  | round j _ hr ih => exact Prog.wp_iff_runs.1 (hs _ j ih) _ _ hr

namespace Oracle

variable {E : Sem S W} (O : Oracle E H)

/-- The program run alone, one hint for each call, with its calls and answers; `none` when a call is impossible, fails
the check, or hints are missing or left over. -/
def alone (chk : (c : S.Call) → S.Ans c → W → Bool) : Prog S α → List H → W → Option (List (Answered S) × α × W)
  | .ret a, [], w => some ([], a, w)
  | .call c k, h :: hs, w =>
    match O.exec c h w with
    | none => none
    | some (r, w') => if chk c r w then (alone chk (k r) hs w').map fun x => (⟨c, r⟩ :: x.1, x.2) else none
  | _, _, _ => none

theorem alone_sound {O : Oracle E H} {chk : (c : S.Call) → S.Ans c → W → Bool}
    {ok : (c : S.Call) → S.Ans c → W → Prop} (hchk : ∀ c r w, chk c r w = true → ok c r w) {p : Prog S α} :
    ∀ {hs : List H} {w w' : W} {l : List (Answered S)} {a : α}, O.alone chk p hs w = some (l, a, w') →
      p.Traces (E.restrict ok) w l a w' := by
  induction p with
  | ret a =>
    intro hs w w' l b h
    cases hs with
    | nil =>
      simp only [alone, Option.some.injEq, Prod.mk.injEq] at h
      obtain ⟨rfl, rfl, rfl⟩ := h
      exact .ret _ _
    | cons => cases h
  | call c k ih =>
    intro hs w w' l b h
    cases hs with
    | nil => cases h
    | cons x xs =>
      rw [alone] at h
      split at h
      · cases h
      · rename_i r w₁ he
        split at h
        · rename_i hc
          simp only [Option.map_eq_some_iff, Prod.mk.injEq] at h
          obtain ⟨⟨l', b', w₂⟩, hx, rfl, rfl, rfl⟩ := h
          exact .call ⟨hchk _ _ _ hc, O.sound he⟩ (ih r hx)
        · cases h

/-- The jobs run in order, each with its hints. -/
def rounds (body : J → Prog S α) (chk : W → J → (c : S.Call) → S.Ans c → W → Bool) : List (J × List H) → W → Option W
  | [], w => some w
  | (j, hs) :: js, w =>
    match O.alone (chk w j) (body j) hs w with
    | none => none
    | some x => rounds body chk js x.2.2

theorem rounds_sound {O : Oracle E H} {body : J → Prog S α} {chk : W → J → (c : S.Call) → S.Ans c → W → Bool}
    {ok : W → J → (c : S.Call) → S.Ans c → W → Prop} (hchk : ∀ w₀ j c r w, chk w₀ j c r w = true → ok w₀ j c r w)
    {w₀ : W} {js : List (J × List H)} : ∀ {w w' : W}, Rounds E body ok w₀ w → O.rounds body chk js w = some w' →
      Rounds E body ok w₀ w' := by
  induction js with
  | nil =>
    intro w w' hr h
    exact Option.some.inj h ▸ hr
  | cons x js ih =>
    obtain ⟨j, hs⟩ := x
    intro w w' hr h
    rw [rounds] at h
    split at h
    · cases h
    · rename_i x he
      exact ih (.round j hr (alone_sound (hchk w j) he).runs) h

/-- **Existence by evaluation**, for sequential runs. -/
theorem exists_rounds {O : Oracle E H} {body : J → Prog S α} {chk : W → J → (c : S.Call) → S.Ans c → W → Bool}
    {ok : W → J → (c : S.Call) → S.Ans c → W → Prop} (hchk : ∀ w₀ j c r w, chk w₀ j c r w = true → ok w₀ j c r w)
    {w₀ : W} {js : List (J × List H)} {P : W → Bool} (h : (O.rounds body chk js w₀).any P = true) :
    ∃ w, Rounds E body ok w₀ w ∧ P w = true := by
  obtain ⟨w, hw, hP⟩ := (Option.any_eq_true _ _).1 h
  exact ⟨w, rounds_sound hchk .refl hw, hP⟩

end Oracle

end Atomic
