import Mathlib

/-!
# Paging by a cursor

Rows are kept newest first, in strictly descending order of a key (`Newest`). A client asks for a page without a cursor,
passes the key of the page's last row as the next cursor, and stops at the first empty page (`walk`). A server whose
pages are leading segments of the rows strictly below the cursor, empty only when no row remains (`Serves`), is read
completely: the walk ends, its pages together are the rows (`walk_complete`).
-/

namespace Cursor

variable {κ ρ : Type} [LinearOrder κ]

/-- Rows in strictly descending order of their keys. -/
def Newest (key : ρ → κ) (rows : List ρ) : Prop := rows.Pairwise fun x y => key y < key x

/-- The rows a client with cursor `c` has not seen. -/
def below (key : ρ → κ) (rows : List ρ) : Option κ → List ρ
  | none => rows
  | some k => rows.filter fun r => key r < k

/-- The pages of a client with their cursors, or `none` when it has not finished within `n` requests. -/
def walk (key : ρ → κ) (page : Option κ → List ρ) : ℕ → Option κ → Option (List (Option κ × List ρ))
  | 0, _ => none
  | n + 1, c =>
    match (page c).getLast? with
    | none => some []
    | some r => (walk key page n (some (key r))).map ((c, page c) :: ·)

/-- The rows of the pages, in the order the client sees them. -/
def seen (pages : List (Option κ × List ρ)) : List ρ := pages.flatMap Prod.snd

variable {key : ρ → κ} {rows : List ρ}

/-! ## The rows below a cursor -/

theorem mem_below {c : Option κ} {r : ρ} : r ∈ below key rows c ↔ r ∈ rows ∧ ∀ k, c = some k → key r < k := by
  cases c with
  | none => simp [below]
  | some k => simp [below]

theorem Newest.below (h : Newest key rows) (c : Option κ) : Newest key (below key rows c) := by
  cases c with
  | none => exact h
  | some k => exact h.sublist List.filter_sublist

/-- Below a lower cursor, the rows of the higher cursor count no more than all rows do. -/
theorem below_below {c : Option κ} {k : κ} (hk : ∀ k', c = some k' → k < k') :
    below key rows (some k) = (below key rows c).filter fun r => key r < k := by
  cases c with
  | none => rfl
  | some k' =>
    have hlt : k < k' := hk k' rfl
    simp only [below, List.filter_filter]
    refine List.filter_congr fun r _ => ?_
    by_cases hr : key r < k
    · simp [hr, hr.trans hlt]
    · simp [hr]

/-- What stands behind a row in descending order is what lies below it. -/
theorem filter_behind {p rest : List ρ} {r : ρ} (h : Newest key (p ++ r :: rest)) :
    ((p ++ r :: rest).filter fun x => key x < key r) = rest := by
  rw [Newest, List.pairwise_append, List.pairwise_cons] at h
  obtain ⟨-, ⟨hr, -⟩, hp⟩ := h
  have h₁ : (p.filter fun x => key x < key r) = [] := by
    refine List.filter_eq_nil_iff.2 fun x hx => ?_
    simpa using (hp x hx r (by simp)).le
  have h₂ : (rest.filter fun x => key x < key r) = rest :=
    List.filter_eq_self.2 fun x hx => by simpa using hr x hx
  simp [List.filter_append, h₁, h₂]

/-! ## Servers that are read completely -/

/-- Below every cursor a client can have, `page` returns a leading segment, empty only at the end. -/
structure Serves (key : ρ → κ) (rows : List ρ) (page : Option κ → List ρ) : Prop where
  newest : Newest key rows
  leading : ∀ c, (∀ k, c = some k → ∃ r ∈ rows, key r = k) → page c <+: below key rows c
  progress : ∀ c, (∀ k, c = some k → ∃ r ∈ rows, key r = k) → page c = [] → below key rows c = []

variable {page : Option κ → List ρ}

/-- After a page that ends in `r`, the rows below `r` are what the page left. -/
theorem Serves.rest (h : Serves key rows page) {c : Option κ} (hc : ∀ k, c = some k → ∃ r ∈ rows, key r = k) {r : ρ}
    (hr : (page c).getLast? = some r) :
    r ∈ rows ∧ below key rows c = page c ++ below key rows (some (key r)) := by
  obtain ⟨rest, hrest⟩ := h.leading c hc
  obtain ⟨p, hp⟩ := List.getLast?_eq_some_iff.1 hr
  have hsplit : below key rows c = p ++ r :: rest := by rw [← hrest, hp]; simp
  have hmem : r ∈ below key rows c := by rw [hsplit]; simp
  have hlow : ∀ k', c = some k' → key r < k' := (mem_below.1 hmem).2
  have hnew : Newest key (p ++ r :: rest) := hsplit ▸ h.newest.below c
  refine ⟨(mem_below.1 hmem).1, ?_⟩
  rw [below_below hlow, hsplit, filter_behind hnew, hp]
  simp

/-- **Completeness.** Read below its cursors, a server hands out every row once and the client finishes. -/
theorem walk_complete (h : Serves key rows page) (n : ℕ) (c : Option κ)
    (hc : ∀ k, c = some k → ∃ r ∈ rows, key r = k) (hn : (below key rows c).length < n) :
    ∃ pages, walk key page n c = some pages ∧ seen pages = below key rows c ∧
      ∀ p ∈ pages, ∀ r ∈ p.2, ∀ k, p.1 = some k → key r < k := by
  induction n generalizing c with
  | zero => omega
  | succ n ih =>
    rw [walk]
    cases hr : (page c).getLast? with
    | none =>
      have hnil : page c = [] := List.getLast?_eq_none_iff.1 hr
      exact ⟨[], rfl, (h.progress c hc hnil).symm, by simp⟩
    | some r =>
      obtain ⟨hmem, hrest⟩ := h.rest hc hr
      have hpos : 0 < (page c).length := List.length_pos_of_mem (List.mem_of_getLast? hr)
      have hlen : (below key rows (some (key r))).length < n := by
        have hl := congrArg List.length hrest
        rw [List.length_append] at hl
        omega
      have hc' : ∀ k, some (key r) = some k → ∃ r ∈ rows, key r = k := by
        intro k hk
        exact ⟨r, hmem, Option.some.inj hk⟩
      obtain ⟨pages, hw, hs, hlt⟩ := ih (some (key r)) hc' hlen
      refine ⟨(c, page c) :: pages, by simp [hw], by rw [hrest, ← hs]; simp [seen], ?_⟩
      intro p hp x hx k hk
      rcases List.mem_cons.1 hp with rfl | hp
      · have hx' : x ∈ below key rows c := by rw [hrest]; exact List.mem_append_left _ hx
        exact (mem_below.1 hx').2 k hk
      · exact hlt p hp x hx k hk

omit [LinearOrder κ] in
/-- A page that holds its own cursor is one of the walk's pages as soon as the walk gets there. -/
theorem walk_second {n : ℕ} {r : ρ} {pages : List (Option κ × List ρ)} (hw : walk key page n none = some pages)
    (hr : (page none).getLast? = some r) (hne : page (some (key r)) ≠ []) :
    (some (key r), page (some (key r))) ∈ pages := by
  cases n with
  | zero => simp [walk] at hw
  | succ n =>
    rw [walk, hr] at hw
    obtain ⟨ps, hps, rfl⟩ := Option.map_eq_some_iff.1 hw
    cases n with
    | zero => simp [walk] at hps
    | succ n =>
      obtain ⟨x, hx⟩ := Option.ne_none_iff_exists'.1 (mt List.getLast?_eq_none_iff.1 hne)
      rw [walk, hx] at hps
      obtain ⟨ps', -, rfl⟩ := Option.map_eq_some_iff.1 hps
      simp

end Cursor
