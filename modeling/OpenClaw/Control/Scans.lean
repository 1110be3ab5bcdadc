import OpenClaw.Control.Execute
import OpenClaw.Lib.PagedScan

/-!
# Scans of the tables

`scan_all` follows `LastEvaluatedKey` until there is none. Programs here get the rows of a scan in one step; this is what
the loop gives them while others write.

- `scan_all_rows`: no row comes twice, each id is read at one moment, and a scan during which the table does not change
  gives what the one step gives.
- `scan_torn`: a scan during which it does may give more running tenants than there ever were.
-/

namespace OpenClaw

open Keyed Atomic PagedScan

/-- `scan_all(tenants_table)`, with a bound on its pages. -/
def scanAllTenants (f : TenantFilter) (n : ℕ) : Prog (Pages TenantId TenantRow) (ScanEnd TenantRow) :=
  scanAll f.holds n none

/-- `scan_all(hosts_table)`. -/
def scanAllHosts (f : HostFilter) (n : ℕ) : Prog (Pages HostId HostRow) (ScanEnd HostRow) := scanAll f.holds n none

section Tables

variable {κ ρ : Type} {pos : κ → ℕ} {key : ρ → κ} {T : ℕ → Table κ ρ key} {f : ρ → Bool} {items : List ρ}
  {n i i' : ℕ}

/-- The rows of a table as it was between two moments: each key at most once, and as it was at one of them. -/
structure ReadsEach (T : ℕ → Table κ ρ key) (f : ρ → Bool) (items : List ρ) (i i' : ℕ) : Prop where
  nodup : (items.map key).Nodup
  moment : ∀ k, ∃ j, i ≤ j ∧ j ≤ i' ∧ ∀ x, key x = k → (x ∈ items ↔ x ∈ (T j).rows ∧ f x = true)

theorem readsEach_of_scanned (h : Scanned pos key (fun j => (T j).rows) f none items i i') : ReadsEach T f items i i' := by
  have hafter : ∀ k, After pos none k := fun k s hs => by cases hs
  refine ⟨List.pairwise_map.2 (h.sorted.imp fun hlt he => ?_), fun k => h.moment k (hafter k)⟩
  rw [he] at hlt
  exact lt_irrefl _ hlt

/-- While the table stays as it is, the scan gives its rows. -/
theorem ReadsEach.perm (h : ReadsEach T f items i i') (hsame : ∀ j, i ≤ j → j ≤ i' → T j = T i) :
    items.Perm ((T i).rows.filter f) := by
  have hitems : items.Nodup := List.Nodup.of_map key h.nodup
  have hrows : ((T i).rows.filter f).Nodup := (List.Nodup.of_map key (T i).nodup).filter _
  refine (List.perm_ext_iff_of_nodup hitems hrows).2 fun x => ?_
  obtain ⟨j, hij, hj, hmem⟩ := h.moment (key x)
  rw [hmem x rfl, hsame j hij hj, List.mem_filter]

/-- **The loop over the pages of a table.** -/
theorem scanAll_table : (scanAll f n none).wp (sem pos key fun j => (T j).rows)
    (fun r i' => ∀ items, r = .rows items → ReadsEach T f items i i') i :=
  Prog.wp_mono (fun _ _ h items he => readsEach_of_scanned (h.2 items he)) scanAll_rule

theorem scanAll_table_ends {K : Finset κ} (hK : ∀ j, ∀ x ∈ (T j).rows, key x ∈ K) (hn : K.card < n) :
    (scanAll f n none).wp (sem pos key fun j => (T j).rows) (fun r _ => r ≠ .unfinished) i := by
  refine scanAll_ends (K := K) (fun j k hk => ?_) ?_
  · obtain ⟨x, hx, rfl⟩ := List.mem_map.1 hk
    exact hK j x hx
  · classical exact (Finset.card_le_card (Finset.filter_subset _ _)).trans_lt hn

end Tables

/-- **`scan_all`.** For any order of the keys and whatever others write between the pages, no row of the answer comes
twice, and each id is answered as it was at one moment of the scan. If the table does not change, the answer is one the
programs may get in one step; and with finitely many ids the loop ends. -/
theorem scan_all_rows (pos : String → ℕ) (W : ℕ → World) :
    (∀ f n i items i', (scanAllTenants f n).Runs (sem pos TenantRow.id fun j => (W j).tenants.rows) i (.rows items) i' →
      ReadsEach (fun j => (W j).tenants) f.holds items i i' ∧
        ((∀ j, i ≤ j → j ≤ i' → (W j).tenants = (W i).tenants) → World.step (.scanTenants f) items (W i) (W i))) ∧
    (∀ f n i items i', (scanAllHosts f n).Runs (sem pos HostRow.instanceId fun j => (W j).hosts.rows) i (.rows items) i' →
      ReadsEach (fun j => (W j).hosts) f.holds items i i' ∧
        ((∀ j, i ≤ j → j ≤ i' → (W j).hosts = (W i).hosts) → World.step (.scanHosts f) items (W i) (W i))) ∧
    (∀ f n i i', ∀ K : Finset String, (∀ j, ∀ t ∈ (W j).tenants.rows, t.id ∈ K) → K.card < n →
      ¬ (scanAllTenants f n).Runs (sem pos TenantRow.id fun j => (W j).tenants.rows) i .unfinished i') ∧
    ∀ f n i i', ∀ K : Finset String, (∀ j, ∀ h ∈ (W j).hosts.rows, h.instanceId ∈ K) → K.card < n →
      ¬ (scanAllHosts f n).Runs (sem pos HostRow.instanceId fun j => (W j).hosts.rows) i .unfinished i' := by
  refine ⟨fun f n i items i' h => ?_, fun f n i items i' h => ?_, fun f n i i' K hK hn h => ?_,
    fun f n i i' K hK hn h => ?_⟩
  · have hreads := Prog.wp_iff_runs.1 (scanAll_table (T := fun j => (W j).tenants)) _ _ h items rfl
    exact ⟨hreads, fun hsame => ⟨hreads.perm hsame, rfl⟩⟩
  · have hreads := Prog.wp_iff_runs.1 (scanAll_table (T := fun j => (W j).hosts)) _ _ h items rfl
    exact ⟨hreads, fun hsame => ⟨hreads.perm hsame, rfl⟩⟩
  · exact Prog.wp_iff_runs.1 (scanAll_table_ends (T := fun j => (W j).tenants) hK hn) _ _ h rfl
  · exact Prog.wp_iff_runs.1 (scanAll_table_ends (T := fun j => (W j).hosts) hK hn) _ _ h rfl

/-! ## A torn scan -/

section Torn

/-- Two tenants, of which one runs: first the one, then the other. -/
def swapped (j : ℕ) : World where
  tenants := ⟨[{ runningTenant "a-0000" "i-1" 1 with status := if j = 0 then .running else .stopped },
    { runningTenant "b-0000" "i-1" 2 with status := if j = 0 then .stopped else .running }],
    show ["a-0000", "b-0000"].Nodup by decide⟩
  hosts := .empty

def swappedPos (id : String) : ℕ := if id = "a-0000" then 0 else 1

/-- The scan looks at one tenant before they change places, and at the other after that. -/
theorem swapped_scan : (scanAllTenants (.status .running) 2).Runs
    (sem swappedPos TenantRow.id fun j => (swapped j).tenants.rows) 0
    (.rows [runningTenant "a-0000" "i-1" 1, runningTenant "b-0000" "i-1" 2]) 1 := by
  have hfirst : Page swappedPos TenantRow.id (swapped 0).tenants.rows (TenantFilter.status .running).holds none
      [runningTenant "a-0000" "i-1" 1] (some "a-0000") := by
    refine ⟨List.pairwise_singleton _ _, fun x => ?_, fun l hl => ?_⟩
    · constructor
      · intro hx
        obtain rfl := List.mem_singleton.1 hx
        exact ⟨List.mem_cons_self, rfl, fun s hs => (by cases hs), fun l hl => (by cases hl; decide)⟩
      · rintro ⟨hx, hf, -, -⟩
        rcases List.mem_cons.1 hx with rfl | hx
        · exact List.mem_cons_self
        · obtain rfl := List.mem_singleton.1 hx
          exact absurd hf (by decide)
    · obtain rfl := Option.some.inj hl
      exact ⟨fun s hs => (by cases hs), by decide⟩
  have hsecond : Page swappedPos TenantRow.id (swapped 1).tenants.rows (TenantFilter.status .running).holds
      (some "a-0000") [runningTenant "b-0000" "i-1" 2] none := by
    refine ⟨List.pairwise_singleton _ _, fun x => ?_, fun l hl => (by cases hl)⟩
    constructor
    · intro hx
      obtain rfl := List.mem_singleton.1 hx
      exact ⟨List.mem_cons_of_mem _ List.mem_cons_self, rfl, fun s hs => (by cases hs; decide),
        fun l hl => (by cases hl)⟩
    · rintro ⟨hx, hf, -, -⟩
      rcases List.mem_cons.1 hx with rfl | hx
      · exact absurd hf (by decide)
      · exact hx
  have hlast : (scanAll (TenantFilter.status .running).holds 1 (some "a-0000")).Runs
      (sem swappedPos TenantRow.id fun j => (swapped j).tenants.rows) 1 (.rows [runningTenant "b-0000" "i-1" 2]) 1 := by
    refine .call (r := some ([runningTenant "b-0000" "i-1" 2], none)) ⟨1, Nat.le_refl 1, Nat.le_refl 1, ?_⟩ (.ret ..)
    intro items last he
    obtain ⟨rfl, rfl⟩ := Prod.mk.inj (Option.some.inj he)
    exact hsecond
  have hstep : (sem swappedPos TenantRow.id fun j => (swapped j).tenants.rows).step
      ⟨(TenantFilter.status .running).holds, none⟩ (some ([runningTenant "a-0000" "i-1" 1], some "a-0000")) 0 1 := by
    refine ⟨0, Nat.le_refl 0, Nat.zero_le 1, fun items last he => ?_⟩
    obtain ⟨rfl, rfl⟩ := Prod.mk.inj (Option.some.inj he)
    exact hfirst
  have hrest := hlast.bind (f := fun rest => .ret (rest.prepend [runningTenant "a-0000" "i-1" 1])) (.ret ..)
  exact .call hstep hrest

/-- **Both are found running**, each as it was at one moment, though at no moment both were. -/
theorem scan_torn :
    ReadsEach (fun j => (swapped j).tenants) (TenantFilter.status .running).holds
      [runningTenant "a-0000" "i-1" 1, runningTenant "b-0000" "i-1" 2] 0 1 ∧
    ∀ j, ¬ World.step (.scanTenants (.status .running))
      [runningTenant "a-0000" "i-1" 1, runningTenant "b-0000" "i-1" 2] (swapped j) (swapped j) := by
  refine ⟨((scan_all_rows swappedPos swapped).1 _ _ _ _ _ swapped_scan).1, fun j h => ?_⟩
  have hlen := h.1.length_eq
  by_cases hj : j = 0
  · subst hj
    exact absurd hlen (by decide)
  · have hother : (swapped j).tenants = (swapped 1).tenants := by simp [swapped, hj]
    rw [hother] at hlen
    exact absurd hlen (by decide)

end Torn

end OpenClaw
