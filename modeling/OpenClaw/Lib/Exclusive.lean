import Mathlib.Tactic.Common

/-!
# One owner

Owners hold things (`H o k`), and what is held is spoken for (`B k`). Things have one owner (`Owned`) as long as what
changes hands is passed on by its owner (`Owned.pass`) or was held by nobody (`Owned.take`).
-/

namespace Exclusive

variable {O K : Type} {H H' : O → K → Prop} {B B' G : K → Prop} {a b : O}

/-- What is held is spoken for, and has one owner. -/
structure Owned (H : O → K → Prop) (B : K → Prop) : Prop where
  spoken : ∀ o k, H o k → B k
  unique : ∀ o o' k, H o k → H o' k → o = o'

/-- **What is held afterwards** was held by the same owner before, or has a sole owner now. -/
theorem Owned.step (hI : Owned H B) (hB : ∀ k, B k → B' k)
    (h : ∀ o k, H' o k → H o k ∨ B' k ∧ ∀ o', H' o' k → o' = o) : Owned H' B' := by
  refine ⟨fun o k ho => ?_, fun o o' k ho ho' => ?_⟩
  · rcases h o k ho with hold | hnew
    · exact hB k (hI.spoken o k hold)
    · exact hnew.1
  · rcases h o k ho with hold | hnew
    · rcases h o' k ho' with hold' | hnew
      · exact hI.unique o o' k hold hold'
      · exact hnew.2 o ho
    · exact (hnew.2 o' ho').symm

/-- Nothing new is held. -/
theorem Owned.keep (hI : Owned H B) (hB : ∀ k, B k → B' k) (h : ∀ o k, H' o k → H o k) : Owned H' B' :=
  hI.step hB fun o k ho => .inl (h o k ho)

/-- `b` takes what nobody held. -/
theorem Owned.take (hI : Owned H B) (hB : ∀ k, B k → B' k) (hG : ∀ k, G k → B' k ∧ ∀ o, ¬ H o k)
    (h : ∀ o k, H' o k → H o k ∨ o = b ∧ G k) : Owned H' B' := by
  refine hI.step hB fun o k ho => ?_
  rcases h o k ho with hold | ⟨rfl, hk⟩
  · exact .inl hold
  · refine .inr ⟨(hG k hk).1, fun o' ho' => ?_⟩
    rcases h o' k ho' with hold | ⟨rfl, -⟩
    · exact absurd hold ((hG k hk).2 o')
    · rfl

/-- `a` passes on to `b`. -/
theorem Owned.pass (hI : Owned H B) (hB : ∀ k, B k → B' k) (ha : ∀ k, G k → H a k ∧ ¬ H' a k)
    (h : ∀ o k, H' o k → H o k ∨ o = b ∧ G k) : Owned H' B' := by
  refine hI.step hB fun o k ho => ?_
  rcases h o k ho with hold | ⟨rfl, hk⟩
  · exact .inl hold
  · refine .inr ⟨hB k (hI.spoken a k (ha k hk).1), fun o' ho' => ?_⟩
    rcases h o' k ho' with hold | ⟨rfl, -⟩
    · obtain rfl := hI.unique o' a k hold (ha k hk).1
      exact absurd ho' (ha k hk).2
    · rfl

end Exclusive
