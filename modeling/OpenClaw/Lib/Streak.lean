import Mathlib.Order.Nat

/-!
# Streaks

How many members of a sequence in a row, up to a place, have a property.

- `le_streak_iff`: a streak of length `k` is a window of `k` members that ends there.
-/

namespace Streak

variable (p : ℕ → Prop) [DecidablePred p]

/-- How many members right before the place `i` have the property. -/
def streak : ℕ → ℕ
  | 0 => 0
  | i + 1 => if p i then streak i + 1 else 0

variable {p} {i k : ℕ}

@[simp] theorem streak_zero : streak p 0 = 0 := rfl

theorem streak_succ_of (h : p i) : streak p (i + 1) = streak p i + 1 := if_pos h

theorem streak_succ_of_not (h : ¬ p i) : streak p (i + 1) = 0 := if_neg h

theorem streak_le : streak p i ≤ i := by
  induction i with
  | zero => exact le_refl 0
  | succ i ih =>
    by_cases h : p i
    · rw [streak_succ_of h]
      omega
    · rw [streak_succ_of_not h]
      omega

/-- **Windows.** The streak before `a + k` has length `k` at least when the last `k` members have the property. -/
theorem le_streak_iff {a : ℕ} : k ≤ streak p (a + k) ↔ ∀ j < k, p (a + j) := by
  induction k with
  | zero => simp
  | succ k ih =>
    rw [← Nat.add_assoc]
    by_cases h : p (a + k)
    · rw [streak_succ_of h]
      constructor
      · intro hk j hj
        rcases Nat.lt_succ_iff_lt_or_eq.1 hj with hj | rfl
        · exact ih.1 (by omega) j hj
        · exact h
      · intro hall
        have hk := ih.2 fun j hj => hall j (by omega)
        omega
    · rw [streak_succ_of_not h]
      constructor
      · intro hk
        omega
      · intro hall
        exact absurd (hall k (by omega)) h

/-- A streak that is long enough is a window. -/
theorem window_of_le_streak (h : k ≤ streak p i) : ∃ a, a + k = i ∧ ∀ j < k, p (a + j) := by
  have hk : k ≤ i := h.trans streak_le
  obtain ⟨a, rfl⟩ : ∃ a, i = a + k := ⟨i - k, by omega⟩
  exact ⟨a, rfl, le_streak_iff.1 h⟩

end Streak
