import Mathlib

/-!
# Keyed tables

A table is a list of rows no two of which have the same key (`Table.nodup`), so a key reads at most one row
(`get`). `put` replaces the row with the new row's key or appends it, `erase` removes one. The order of the rows means
nothing; a scan is any arrangement of the rows that pass a filter.

A sequence of writes (`putAll`) overwrites nothing exactly when all the keys differ (`appends_iff_nodup`).

Sums over the rows (`total`) are kept up to date by the difference a `put` makes (`total_put`): this is what a counter
maintained beside the table has to follow.
-/

namespace Keyed

/-- Rows with pairwise distinct keys. -/
structure Table (κ ρ : Type) (key : ρ → κ) where
  rows : List ρ
  nodup : (rows.map key).Nodup

namespace Table

variable {κ ρ : Type} {key : ρ → κ} [DecidableEq κ]

/-- The table without rows. -/
def empty : Table κ ρ key := ⟨[], List.nodup_nil⟩

/-- The table of one row. -/
def single (r : ρ) : Table κ ρ key := ⟨[r], List.nodup_singleton _⟩

/-- The row with key `k`. -/
def get (t : Table κ ρ key) (k : κ) : Option ρ := t.rows.find? fun r => key r = k

theorem mem_of_get {t : Table κ ρ key} {k : κ} {r : ρ} (h : t.get k = some r) : r ∈ t.rows := List.mem_of_find?_eq_some h

theorem key_of_get {t : Table κ ρ key} {k : κ} {r : ρ} (h : t.get k = some r) : key r = k := by
  simpa using List.find?_some h

theorem find_of_nodup {rows : List ρ} (hn : (rows.map key).Nodup) {r : ρ} (h : r ∈ rows) :
    rows.find? (fun x => key x = key r) = some r := by
  induction rows with
  | nil => cases h
  | cons x xs ih =>
    rw [List.map_cons, List.nodup_cons] at hn
    rcases List.mem_cons.1 h with rfl | h
    · simp
    · have hne : key x ≠ key r := fun e => hn.1 (e ▸ List.mem_map_of_mem h)
      rw [List.find?_cons_of_neg (by simpa using hne)]
      exact ih hn.2 h

theorem get_of_mem {t : Table κ ρ key} {r : ρ} (h : r ∈ t.rows) : t.get (key r) = some r := find_of_nodup t.nodup h

theorem eq_of_key {t : Table κ ρ key} {r r' : ρ} (hr : r ∈ t.rows) (hr' : r' ∈ t.rows) (h : key r = key r') : r = r' :=
  Option.some.inj ((get_of_mem hr).symm.trans (h ▸ get_of_mem hr'))

theorem get_eq_some {t : Table κ ρ key} {k : κ} {r : ρ} : t.get k = some r ↔ r ∈ t.rows ∧ key r = k :=
  ⟨fun h => ⟨mem_of_get h, key_of_get h⟩, fun ⟨h, e⟩ => e ▸ get_of_mem h⟩

theorem get_eq_none {t : Table κ ρ key} {k : κ} : t.get k = none ↔ ∀ r ∈ t.rows, key r ≠ k := by
  simp [get, List.find?_eq_none]

/-- The table without the row with key `k`. -/
def erase (t : Table κ ρ key) (k : κ) : Table κ ρ key where
  rows := t.rows.filter fun x => key x ≠ k
  nodup := t.nodup.sublist ((List.filter_sublist).map key)

variable (key) in
/-- The rows with the one of `r`'s key replaced by `r`. -/
def replace (rows : List ρ) (r : ρ) : List ρ := rows.map fun x => if key x = key r then r else x

theorem map_key_replace (rows : List ρ) (r : ρ) : (replace key rows r).map key = rows.map key := by
  rw [replace, List.map_map]
  refine List.map_congr_left fun x _ => ?_
  by_cases h : key x = key r <;> simp [h]

theorem nodup_append {t : Table κ ρ key} {r : ρ} (h : t.get (key r) = none) : ((t.rows ++ [r]).map key).Nodup := by
  rw [List.map_append, List.nodup_append]
  refine ⟨t.nodup, by simp, fun a ha b hb => ?_⟩
  obtain ⟨x, hx, rfl⟩ := List.mem_map.1 ha
  simp only [List.map_cons, List.map_nil, List.mem_singleton] at hb
  exact hb ▸ get_eq_none.1 h x hx

/-- Write a row: over the row with its key, or as a new one. -/
def put (t : Table κ ρ key) (r : ρ) : Table κ ρ key :=
  if h : t.get (key r) = none then ⟨t.rows ++ [r], nodup_append h⟩
  else ⟨replace key t.rows r, by rw [map_key_replace]; exact t.nodup⟩

theorem mem_put {t : Table κ ρ key} {r x : ρ} : x ∈ (t.put r).rows ↔ x = r ∨ x ∈ t.rows ∧ key x ≠ key r := by
  unfold put
  split
  · rename_i h
    simp only [List.mem_append, List.mem_singleton]
    exact ⟨fun hx => hx.elim (fun hx => .inr ⟨hx, get_eq_none.1 h x hx⟩) .inl, fun hx => hx.elim .inr fun hx => .inl hx.1⟩
  · rename_i h
    simp only [replace, List.mem_map]
    constructor
    · rintro ⟨y, hy, rfl⟩
      by_cases e : key y = key r
      · simp [e]
      · simp [e, hy]
    · rintro (rfl | ⟨hx, hne⟩)
      · obtain ⟨y, hy⟩ := Option.ne_none_iff_exists'.1 h
        exact ⟨y, mem_of_get hy, by simp [key_of_get hy]⟩
      · exact ⟨x, hx, by simp [hne]⟩

@[simp] theorem get_put_self (t : Table κ ρ key) (r : ρ) : (t.put r).get (key r) = some r :=
  get_eq_some.2 ⟨mem_put.2 (.inl rfl), rfl⟩

theorem get_put_ne (t : Table κ ρ key) {r : ρ} {k : κ} (h : k ≠ key r) : (t.put r).get k = t.get k := by
  cases hg : t.get k with
  | none =>
    refine get_eq_none.2 fun x hx => ?_
    rcases mem_put.1 hx with rfl | ⟨hx, _⟩
    · exact h.symm
    · exact get_eq_none.1 hg x hx
  | some x =>
    have hx := get_eq_some.1 hg
    exact get_eq_some.2 ⟨mem_put.2 (.inr ⟨hx.1, hx.2 ▸ h⟩), hx.2⟩

theorem get_put (t : Table κ ρ key) (r : ρ) (k : κ) : (t.put r).get k = if k = key r then some r else t.get k := by
  split
  · rename_i h; rw [h, get_put_self]
  · rename_i h; exact get_put_ne t h

theorem mem_erase {t : Table κ ρ key} {k : κ} {x : ρ} : x ∈ (t.erase k).rows ↔ x ∈ t.rows ∧ key x ≠ k := by
  simp [erase]

theorem get_erase (t : Table κ ρ key) (k k' : κ) : (t.erase k).get k' = if k' = k then none else t.get k' := by
  split
  · rename_i h
    exact get_eq_none.2 fun x hx => h ▸ (mem_erase.1 hx).2
  · rename_i h
    cases hg : t.get k' with
    | none => exact get_eq_none.2 fun x hx => get_eq_none.1 hg x (mem_erase.1 hx).1
    | some x =>
      have hx := get_eq_some.1 hg
      exact get_eq_some.2 ⟨mem_erase.2 ⟨hx.1, hx.2 ▸ h⟩, hx.2⟩

/-! ## Sequences of writes -/

/-- The rows written one after the other. -/
def putAll (t : Table κ ρ key) (rs : List ρ) : Table κ ρ key := rs.foldl put t

/-- No write replaces a row that is there. -/
def Appends (t : Table κ ρ key) (rs : List ρ) : Prop :=
  ∀ pre r post, rs = pre ++ r :: post → ∀ x ∈ (t.putAll pre).rows, key x ≠ key r

theorem put_of_fresh {t : Table κ ρ key} {r : ρ} (h : t.get (key r) = none) : (t.put r).rows = t.rows ++ [r] := by
  unfold put
  rw [dif_pos h]

theorem appends_cons {t : Table κ ρ key} {r : ρ} {rs : List ρ} :
    t.Appends (r :: rs) ↔ t.get (key r) = none ∧ (t.put r).Appends rs := by
  constructor
  · intro h
    refine ⟨get_eq_none.2 fun x hx => h [] r rs rfl x hx, fun pre r' post he => ?_⟩
    exact h (r :: pre) r' post (by rw [he, List.cons_append])
  · intro h pre r' post he
    obtain ⟨hfresh, hrest⟩ := h
    cases pre with
    | nil =>
      obtain ⟨rfl, rfl⟩ := List.cons.inj he
      exact get_eq_none.1 hfresh
    | cons p pre =>
      obtain ⟨rfl, rfl⟩ := List.cons.inj he
      exact hrest pre r' post rfl

/-- **Nothing is overwritten** exactly when the keys of the rows and of the writes are all different. -/
theorem appends_iff_nodup {rs : List ρ} : ∀ {t : Table κ ρ key},
    t.Appends rs ↔ (t.rows.map key ++ rs.map key).Nodup := by
  induction rs with
  | nil => exact fun {t} => ⟨fun _ => by simpa using t.nodup, fun _ pre r post h => by simp at h⟩
  | cons r rs ih =>
    intro t
    rw [appends_cons]
    by_cases h : t.get (key r) = none
    · have hkeys : (t.put r).rows.map key = t.rows.map key ++ [key r] := by rw [put_of_fresh h]; simp
      rw [ih, hkeys, List.append_assoc]
      simp [h]
    · obtain ⟨x, hx⟩ := Option.ne_none_iff_exists'.1 h
      have hmem : key r ∈ t.rows.map key := key_of_get hx ▸ List.mem_map_of_mem (mem_of_get hx)
      refine ⟨fun h' => absurd h'.1 h, fun hn => ?_⟩
      rw [List.nodup_append] at hn
      exact absurd rfl (hn.2.2 _ hmem (key r) (by simp))

/-- Then every write is still there in the end. -/
theorem Appends.mem {rs : List ρ} : ∀ {t : Table κ ρ key}, t.Appends rs → ∀ r, r ∈ t.rows ∨ r ∈ rs →
    r ∈ (t.putAll rs).rows := by
  induction rs with
  | nil => exact fun _ r hr => hr.elim id fun h => absurd h List.not_mem_nil
  | cons r rs ih =>
    intro t h x hx
    obtain ⟨hfresh, hrest⟩ := appends_cons.1 h
    refine ih hrest x ?_
    rw [put_of_fresh hfresh]
    rcases hx with hx | hx
    · exact .inl (List.mem_append_left _ hx)
    · rcases List.mem_cons.1 hx with rfl | hx
      · exact .inl (by simp)
      · exact .inr hx

/-! ## Sums over the rows -/

/-- The sum of `f` over the rows. -/
def total (f : ρ → Int) (t : Table κ ρ key) : Int := (t.rows.map f).sum

/-- What the row with key `k` adds to the sum. -/
def part (f : ρ → Int) (t : Table κ ρ key) (k : κ) : Int := (t.get k).elim 0 f

theorem sum_replace {f : ρ → Int} {rows : List ρ} (hn : (rows.map key).Nodup) {r old : ρ}
    (h : rows.find? (fun x => key x = key r) = some old) :
    ((replace key rows r).map f).sum = (rows.map f).sum - f old + f r := by
  induction rows with
  | nil => simp at h
  | cons x xs ih =>
    rw [List.map_cons, List.nodup_cons] at hn
    by_cases e : key x = key r
    · rw [List.find?_cons_of_pos (by simpa using e)] at h
      obtain rfl := Option.some.inj h
      have hxs : replace key xs r = xs := by
        conv_rhs => rw [← List.map_id xs]
        refine List.map_congr_left fun y hy => ?_
        have : key y ≠ key r := fun e' => hn.1 (e.trans e'.symm ▸ List.mem_map_of_mem hy)
        simp [this]
      rw [replace, List.map_cons, if_pos e, List.map_cons, List.sum_cons, List.map_cons, List.sum_cons]
      rw [replace] at hxs
      rw [hxs]; omega
    · rw [List.find?_cons_of_neg (by simpa using e)] at h
      have := ih hn.2 h
      rw [replace, List.map_cons, if_neg e, List.map_cons, List.sum_cons, List.map_cons, List.sum_cons]
      rw [replace] at this
      omega

theorem total_put (f : ρ → Int) (t : Table κ ρ key) (r : ρ) :
    (t.put r).total f = t.total f - t.part f (key r) + f r := by
  unfold put part
  split
  · rename_i h; simp [total, h]
  · rename_i h
    obtain ⟨old, hold⟩ := Option.ne_none_iff_exists'.1 h
    simp only [total, hold, Option.elim_some]
    exact sum_replace t.nodup hold

omit [DecidableEq κ] in
theorem total_eq_zero {f : ρ → Int} {t : Table κ ρ key} (h : ∀ r ∈ t.rows, f r = 0) : t.total f = 0 := by
  unfold total
  rw [List.map_congr_left h]
  simp

end Table

end Keyed
