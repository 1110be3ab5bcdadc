import OpenClaw.Lib.Interleave

/-!
# What the processes still owe

A process that has made the first of two writes owes the second. `Owed due l n`: the amounts `due` of the local states
`l` add up to `n`. Only finitely many processes have started, one step changes the state of one of them (`Owed.update`),
and when none is left with anything to do nothing is owed (`Owed.settled`).
-/

namespace Atomic

variable {ι G : Type} {due : G → Int} {l : ι → Option G} {n : Int}

/-- What one process owes. -/
def dueOf (due : G → Int) (g : Option G) : Int := g.elim 0 due

@[simp] theorem dueOf_none : dueOf due none = 0 := rfl

@[simp] theorem dueOf_some (g : G) : dueOf due (some g) = due g := rfl

/-- The started processes owe `n` altogether. -/
def Owed (due : G → Int) (l : ι → Option G) (n : Int) : Prop :=
  ∃ s : Finset ι, (∀ i, i ∉ s → l i = none) ∧ n = ∑ i ∈ s, dueOf due (l i)

theorem Owed.start : Owed due (fun _ : ι => none) 0 := ⟨∅, fun _ _ => rfl, rfl⟩

/-- **One process moves.** -/
theorem Owed.update [DecidableEq ι] (h : Owed due l n) (i : ι) (g : Option G) :
    Owed due (Function.update l i g) (n - dueOf due (l i) + dueOf due g) := by
  obtain ⟨s, hs, hn⟩ := h
  -- A process outside `s` has not started, so `s` may be taken with `i`.
  have hsum : n = ∑ j ∈ insert i s, dueOf due (l j) := by
    by_cases hi : i ∈ s
    · rw [Finset.insert_eq_of_mem hi]
      exact hn
    · rw [Finset.sum_insert hi, hs i hi, dueOf_none, zero_add]
      exact hn
  refine ⟨insert i s, fun j hj => ?_, ?_⟩
  · rw [Finset.mem_insert, not_or] at hj
    rw [Function.update_of_ne hj.1]
    exact hs j hj.2
  · have hmem : i ∈ insert i s := Finset.mem_insert_self i s
    have hrest : ∑ j ∈ (insert i s).erase i, dueOf due (Function.update l i g j) =
        ∑ j ∈ (insert i s).erase i, dueOf due (l j) := by
      refine Finset.sum_congr rfl fun j hj => ?_
      rw [Function.update_of_ne (Finset.ne_of_mem_erase hj)]
    rw [hsum, ← Finset.add_sum_erase _ _ hmem, ← Finset.add_sum_erase _ _ hmem, hrest, Function.update_self]
    omega

/-- Nobody owes anything any more. -/
theorem Owed.settled (h : Owed due l n) (hd : ∀ i g, l i = some g → due g = 0) : n = 0 := by
  obtain ⟨s, -, rfl⟩ := h
  refine Finset.sum_eq_zero fun i _ => ?_
  cases hi : l i with
  | none => rfl
  | some g => exact hd i g hi

end Atomic
