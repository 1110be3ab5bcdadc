import Mathlib.Data.List.Sort

/-!
# Sorting

What `List.insertionSort` says about a list and about its parts, for a total transitive relation `r`.

- `insertionSort_of_perm`: the sorted list depends on the members only, when `r` tells them apart.
- `filter_insertionSort`: the members of a kind are sorted as they stand in the sorted list.
- `head?_insertionSort_desc`: sorting by a key, greatest first, puts the first of the greatest members at the head.
-/

namespace Sorting

variable {α : Type*} (r : α → α → Prop) [DecidableRel r]

/-- What comes before every member is inserted at the head. -/
theorem orderedInsert_of_forall {a : α} {l : List α} (h : ∀ b ∈ l, r a b) : l.orderedInsert r a = a :: l := by
  cases l with
  | nil => rfl
  | cons b l => exact List.orderedInsert_cons_of_le r l (h b List.mem_cons_self)

variable [IsTrans α r]

/-- An inserted element is selected, or leaves no trace. -/
theorem filter_orderedInsert (p : α → Bool) (a : α) {l : List α} (hl : l.Pairwise r) :
    (l.orderedInsert r a).filter p = if p a then (l.filter p).orderedInsert r a else l.filter p := by
  induction l with
  | nil => by_cases ha : p a <;> simp [ha]
  | cons b l ih =>
    have ih := ih hl.of_cons
    by_cases hab : r a b
    · have hle : ∀ x ∈ (b :: l).filter p, r a x := by
        intro x hx
        rcases List.mem_cons.1 (List.mem_of_mem_filter hx) with rfl | hx
        · exact hab
        · exact IsTrans.trans _ _ _ hab (List.rel_of_pairwise_cons hl hx)
      rw [List.orderedInsert_cons_of_le r l hab, orderedInsert_of_forall r hle, List.filter_cons]
    · rw [List.orderedInsert_of_not_le r l hab]
      by_cases hb : p b
      · simp only [List.filter_cons_of_pos hb, ih, List.orderedInsert_of_not_le r _ hab]
        split <;> rfl
      · simp only [List.filter_cons_of_neg hb, ih]

variable [Std.Total r]

/-- A part of a list is sorted as it stands in the sorted list. -/
theorem filter_insertionSort (p : α → Bool) (l : List α) :
    (l.insertionSort r).filter p = (l.filter p).insertionSort r := by
  induction l with
  | nil => rfl
  | cons a l ih =>
    rw [List.insertionSort_cons, filter_orderedInsert r p a (List.pairwise_insertionSort r l), ih]
    by_cases ha : p a
    · rw [if_pos ha, List.filter_cons_of_pos ha, List.insertionSort_cons]
    · rw [if_neg ha, List.filter_cons_of_neg ha]

/-- Two orders of the same members are sorted alike, when no two members are equal in the order. -/
theorem insertionSort_of_perm {l l' : List α} (hp : l.Perm l') (hanti : ∀ a ∈ l, ∀ b ∈ l, r a b → r b a → a = b) :
    l.insertionSort r = l'.insertionSort r := by
  have hsorted : (l.insertionSort r).Perm (l'.insertionSort r) :=
    (List.perm_insertionSort r l).trans (hp.trans (List.perm_insertionSort r l').symm)
  refine hsorted.eq_of_pairwise ?_ (List.pairwise_insertionSort r l) (List.pairwise_insertionSort r l')
  intro a b ha hb
  exact hanti a ((List.mem_insertionSort r).1 ha) b (hp.mem_iff.2 ((List.mem_insertionSort r).1 hb))

/-! ## The greatest member -/

section Greatest

variable {β : Type*} [LinearOrder β] (f : α → β)

/-- The first of the members with the greatest key. -/
def firstMax : List α → Option α
  | [] => none
  | a :: l =>
    match firstMax l with
    | none => some a
    | some b => if f a < f b then some b else some a

theorem firstMax_spec {l : List α} {a : α} (h : firstMax f l = some a) : a ∈ l ∧ ∀ b ∈ l, f b ≤ f a := by
  induction l generalizing a with
  | nil => cases h
  | cons x l ih =>
    unfold firstMax at h
    split at h
    · rename_i hl
      obtain rfl := Option.some.inj h
      cases l with
      | nil => simp
      | cons y l =>
        unfold firstMax at hl
        split at hl
        · cases hl
        · split at hl <;> cases hl
    · rename_i b hl
      obtain ⟨hb, hmax⟩ := ih hl
      split at h
      · rename_i hlt
        obtain rfl := Option.some.inj h
        refine ⟨List.mem_cons_of_mem _ hb, fun y hy => ?_⟩
        rcases List.mem_cons.1 hy with rfl | hy
        · exact le_of_lt hlt
        · exact hmax y hy
      · rename_i hlt
        obtain rfl := Option.some.inj h
        refine ⟨List.mem_cons_self, fun y hy => ?_⟩
        rcases List.mem_cons.1 hy with rfl | hy
        · exact le_refl _
        · exact (hmax y hy).trans (not_lt.1 hlt)

theorem firstMax_eq_none {l : List α} : firstMax f l = none ↔ l = [] := by
  cases l with
  | nil => simp [firstMax]
  | cons a l =>
    unfold firstMax
    split
    · simp
    · split <;> simp

/-- Sorted by the key, greatest first, and stably. -/
theorem head?_insertionSort_desc (l : List α) : (l.insertionSort fun a b => f b ≤ f a).head? = firstMax f l := by
  induction l with
  | nil => rfl
  | cons a l ih =>
    rw [List.insertionSort_cons, firstMax, ← ih]
    cases l.insertionSort fun a b => f b ≤ f a with
    | nil => rfl
    | cons b s =>
      by_cases hab : f b ≤ f a
      · rw [List.orderedInsert_cons_of_le (fun a b => f b ≤ f a) s hab]
        simp [not_lt.2 hab]
      · rw [List.orderedInsert_of_not_le (fun a b => f b ≤ f a) s hab]
        simp [not_le.1 hab]

end Greatest

end Sorting
