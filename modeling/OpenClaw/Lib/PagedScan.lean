import OpenClaw.Lib.Prog

/-!
# Scans in pages

A table is read page by page: each page has the rows between two places in a fixed order of the keys, and the next one
starts where it ends. Others may write between the pages, so the answer need not be the contents of the table at any one
time.

- `Page`: what one page may be; `scanAll`: the loop.
- `scanAll_rule`: no row comes twice, and each key is read at one moment of the scan.
- `scanAll_ends`: a scan of a table with finitely many keys ends.
-/

namespace PagedScan

open Atomic

variable {κ ρ : Type} (pos : κ → ℕ) (key : ρ → κ)

/-- Behind the place where a page starts. -/
def After (start : Option κ) (k : κ) : Prop := ∀ s, start = some s → pos s < pos k

/-- The rows that pass the filter, from a place up to the last row that was looked at; without one, up to the end. -/
structure Page (rows : List ρ) (f : ρ → Bool) (start : Option κ) (items : List ρ) (last : Option κ) : Prop where
  sorted : items.Pairwise fun x y => pos (key x) < pos (key y)
  mem : ∀ x, x ∈ items ↔ x ∈ rows ∧ f x = true ∧ After pos start (key x) ∧ ∀ l, last = some l → pos (key x) ≤ pos l
  moves : ∀ l, last = some l → After pos start l ∧ l ∈ rows.map key

/-- A request for a page. -/
structure PageCall (κ ρ : Type) where
  filter : ρ → Bool
  start : Option κ

/-- A page and its last key, or an exception. -/
abbrev Pages (κ ρ : Type) : Sig := ⟨PageCall κ ρ, fun _ => Option (List ρ × Option κ)⟩

abbrev page (f : ρ → Bool) (start : Option κ) : Prog (Pages κ ρ) (Option (List ρ × Option κ)) :=
  @Prog.lift (Pages κ ρ) ⟨f, start⟩

@[simp] theorem page_bind {β : Type} (f : ρ → Bool) (start : Option κ)
    (k : Option (List ρ × Option κ) → Prog (Pages κ ρ) β) :
    (page f start >>= k) = @Prog.call (Pages κ ρ) β ⟨f, start⟩ k := rfl

/-- How a scan ends. -/
inductive ScanEnd (ρ : Type)
  | rows (items : List ρ)
  | raised
  /-- Out of passes. -/
  | unfinished

/-- The rows of an earlier page come first. -/
def ScanEnd.prepend (items : List ρ) : ScanEnd ρ → ScanEnd ρ
  | .rows rest => .rows (items ++ rest)
  | .raised => .raised
  | .unfinished => .unfinished

/-- The loop over the pages, with a bound on its passes. -/
def scanAll (f : ρ → Bool) : ℕ → Option κ → Prog (Pages κ ρ) (ScanEnd ρ)
  | 0, _ => pure .unfinished
  | n + 1, start => do
    let resp ← page f start
    match resp with
    | none => pure .raised
    | some (items, none) => pure (.rows items)
    | some (items, some last) => do
      let rest ← scanAll f n (some last)
      pure (rest.prepend items)

/-- A page is read at one moment. -/
def pageStep (T : ℕ → List ρ) (c : PageCall κ ρ) (r : Option (List ρ × Option κ)) (i i' : ℕ) : Prop :=
  ∃ j, i ≤ j ∧ j ≤ i' ∧ ∀ items last, r = some (items, last) → Page pos key (T j) c.filter c.start items last

/-- The pages of a table whose rows change with the time. -/
def sem (T : ℕ → List ρ) : Sem (Pages κ ρ) ℕ := ⟨fun c r i i' => pageStep pos key T c r i i'⟩

section Rules

variable {pos} {key} {T : ℕ → List ρ} {f : ρ → Bool} {s : Option κ} {n i : ℕ}

/-- What the rows of a scan from a place on are. -/
structure Scanned (pos : κ → ℕ) (key : ρ → κ) (T : ℕ → List ρ) (f : ρ → Bool) (s : Option κ) (items : List ρ)
    (i i' : ℕ) : Prop where
  sorted : items.Pairwise fun x y => pos (key x) < pos (key y)
  after : ∀ x ∈ items, After pos s (key x)
  /-- Each key is read at one moment. -/
  moment : ∀ k, After pos s k → ∃ j, i ≤ j ∧ j ≤ i' ∧ ∀ x, key x = k → (x ∈ items ↔ x ∈ T j ∧ f x = true)

/-- A page and the scan behind it. -/
theorem Scanned.append {items rest : List ρ} {l : κ} {i j i₁ i' : ℕ} (hp : Page pos key (T j) f s items (some l))
    (hij : i ≤ j) (hj : j ≤ i₁) (hi : i₁ ≤ i') (h : Scanned pos key T f (some l) rest i₁ i') :
    Scanned pos key T f s (items ++ rest) i i' := by
  have hbefore : ∀ x ∈ items, pos (key x) ≤ pos l := fun x hx => ((hp.mem x).1 hx).2.2.2 l rfl
  have hbehind : ∀ x ∈ rest, pos l < pos (key x) := fun x hx => h.after x hx l rfl
  refine ⟨List.pairwise_append.2 ⟨hp.sorted, h.sorted, fun x hx y hy => ?_⟩, fun x hx => ?_, fun k hk => ?_⟩
  · exact (hbefore x hx).trans_lt (hbehind y hy)
  · rcases List.mem_append.1 hx with hx | hx
    · exact ((hp.mem x).1 hx).2.2.1
    · intro l' hl'
      exact ((hp.moves l rfl).1 l' hl').trans (hbehind x hx)
  · by_cases hkl : pos k ≤ pos l
    · refine ⟨j, hij, hj.trans hi, fun x hx => ?_⟩
      subst hx
      have hno : x ∉ rest := fun hm => absurd (hbehind x hm) (by omega)
      rw [List.mem_append, or_iff_left hno, hp.mem]
      constructor
      · exact fun hm => ⟨hm.1, hm.2.1⟩
      · rintro ⟨hm, hf⟩
        refine ⟨hm, hf, hk, fun l' hl' => ?_⟩
        obtain rfl := Option.some.inj hl'
        exact hkl
    · obtain ⟨j', hj', hj'', hmem⟩ := h.moment k fun l' hl' => by
        obtain rfl := Option.some.inj hl'
        omega
      refine ⟨j', by omega, hj'', fun x hx => ?_⟩
      subst hx
      have hno : x ∉ items := fun hm => hkl (hbefore x hm)
      rw [List.mem_append, or_iff_right hno]
      exact hmem x rfl

/-- A page that is the last one. -/
theorem Page.scanned {items : List ρ} {j i' : ℕ} (hp : Page pos key (T j) f s items none) (hij : i ≤ j)
    (hj : j ≤ i') : Scanned pos key T f s items i i' := by
  refine ⟨hp.sorted, fun x hx => ((hp.mem x).1 hx).2.2.1, fun k hk => ⟨j, hij, hj, fun x hx => ?_⟩⟩
  subst hx
  rw [hp.mem]
  constructor
  · exact fun hm => ⟨hm.1, hm.2.1⟩
  · rintro ⟨hm, hf⟩
    exact ⟨hm, hf, hk, fun l hl => by cases hl⟩

/-- **Each key is read at one moment of the scan.** -/
theorem scanAll_rule : (scanAll f n s).wp (sem pos key T) (fun r i' => i ≤ i' ∧
    ∀ items, r = .rows items → Scanned pos key T f s items i i') i := by
  induction n generalizing s i with
  | zero => exact ⟨Nat.le_refl i, fun items h => by cases h⟩
  | succ n ih =>
    simp only [scanAll, page_bind, Prog.pure_eq]
    rintro resp i₁ ⟨j, hij, hj, hpage⟩
    rcases resp with _ | ⟨items, _ | last⟩
    · exact ⟨hij.trans hj, fun items h => by cases h⟩
    · refine ⟨hij.trans hj, fun items' h => ?_⟩
      obtain rfl := ScanEnd.rows.inj h
      exact (hpage _ _ rfl).scanned hij hj
    · refine (Prog.wp_bind ..).2 (Prog.wp_mono ?_ (ih (s := some last) (i := i₁)))
      rintro rest i' ⟨hi, hrest⟩
      refine ⟨(hij.trans hj).trans hi, fun items' h => ?_⟩
      cases rest with
      | rows rest =>
        obtain rfl := ScanEnd.rows.inj h
        exact (hrest rest rfl).append (hpage _ _ rfl) hij hj hi
      | raised => cases h
      | unfinished => cases h

/-- The keys behind a place, of those that are ever in the table. -/
noncomputable def left (pos : κ → ℕ) (K : Finset κ) (s : Option κ) : Finset κ := by
  classical exact K.filter (After pos s)

theorem left_lt {K : Finset κ} {l : κ} (hl : l ∈ K) (ha : After pos s l) :
    (left pos K (some l)).card < (left pos K s).card := by
  classical
  refine Finset.card_lt_card (Finset.ssubset_iff_subset_ne.2 ⟨fun k hk => ?_, fun he => ?_⟩)
  · obtain ⟨hk, hafter⟩ := Finset.mem_filter.1 hk
    exact Finset.mem_filter.2 ⟨hk, fun l' hl' => (ha l' hl').trans (hafter l rfl)⟩
  · have hmem : l ∈ left pos K s := Finset.mem_filter.2 ⟨hl, ha⟩
    rw [← he] at hmem
    exact absurd ((Finset.mem_filter.1 hmem).2 l rfl) (lt_irrefl _)

/-- **A scan ends** within as many pages as there are keys, and one. -/
theorem scanAll_ends {K : Finset κ} (hK : ∀ j, ∀ k ∈ (T j).map key, k ∈ K) (hn : (left pos K s).card < n) :
    (scanAll f n s).wp (sem pos key T) (fun r _ => r ≠ .unfinished) i := by
  induction n generalizing s i with
  | zero => omega
  | succ n ih =>
    simp only [scanAll, page_bind, Prog.pure_eq]
    rintro resp i₁ ⟨j, hij, hj, hpage⟩
    rcases resp with _ | ⟨items, _ | last⟩
    · exact fun h => by cases h
    · exact fun h => by cases h
    · obtain ⟨hafter, hmem⟩ := (hpage _ _ rfl).moves last rfl
      have hlt : (left pos K (some last)).card < (left pos K s).card := left_lt (hK j last hmem) hafter
      refine (Prog.wp_bind ..).2 (Prog.wp_mono ?_ (ih (s := some last) (i := i₁) (by omega)))
      intro rest _ hne h
      cases rest with
      | rows rest => cases h
      | raised => cases h
      | unfinished => exact hne rfl

end Rules

end PagedScan
