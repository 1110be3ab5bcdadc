import OpenClaw.Control.Execute
import OpenClaw.Control.Frame
import OpenClaw.Lib.Sequence

/-!
# Host counters as books

A host's counters (`HostRow.count`) are books about its tenants: they should show what its non-deleted tenants hold
(`World.held`). `Books w f` says how far each host is off, `f`; a write to either table changes `f` by a known amount
(`Books.putHost`, `Books.putTenant`), and an operation is fine when it ends as far off as it began.

- `updHost_rule`, `updTenant_rule`, `condTenant_rule`, `quiet_rule`: the rule of each call, for programs whose
  DynamoDB writes succeed and which respect `Call.respects`.
-/

namespace OpenClaw

open Keyed Atomic

/-! ## What is counted -/

inductive Res
  | vcpu
  | memMb
  | vmCount

def Res.pick (v m n : Int) : Res → Int
  | .vcpu => v
  | .memMb => m
  | .vmCount => n

/-- Amounts for each host. -/
abbrev Amounts := HostId → Res → Int

/-- An amount at one host. -/
def atHost (h : HostId) (a : Res → Int) : Amounts := fun h' ρ => if h' = h then a ρ else 0

/-- What a tenant holds, and where. -/
def TenantRow.holding (t : TenantRow) : Amounts := fun h ρ =>
  if t.status ≠ .deleted ∧ t.hostId = some h then ρ.pick t.vcpu t.memMb 1 else 0

/-- The counters of a host, an absent one read as `0`. -/
def HostRow.count (x : HostRow) (ρ : Res) : Int :=
  ρ.pick (x.usedVcpu.getD 0) (x.usedMemMb.getD 0) (x.vmCount.getD 0)

/-- What an update adds to the counters. -/
def HostUpdate.adds : HostUpdate → Res → Int
  | .reserve v m, ρ | .book v m _, ρ | .bump v m, ρ => ρ.pick v m 1
  | .release v m, ρ | .unbook v m, ρ => ρ.pick (-v) (-m) (-1)
  | .addVcpu v, ρ => ρ.pick v 0 0
  | .incNext, _ | .status _, _ | .idleSince _, _ => 0

theorem HostUpdate.count_apply {u : HostUpdate} {x x' : HostRow} (h : u.apply x = some x') (ρ : Res) :
    x'.count ρ = x.count ρ + u.adds ρ := by
  cases u
  case reserve v m =>
    obtain ⟨_, _, _, _, hv, hm, hc, -, rfl⟩ := reserve_eq_some.1 h
    cases ρ <;> simp [HostRow.count, HostUpdate.adds, Res.pick, hv, hm, hc]
  case release v m =>
    obtain ⟨_, _, _, hv, hm, hc, rfl⟩ := release_eq_some.1 h
    cases ρ <;> simp [HostRow.count, HostUpdate.adds, Res.pick, hv, hm, hc, Int.sub_eq_add_neg]
  case book v m next =>
    obtain ⟨_, _, _, hv, hm, hc, rfl⟩ := book_eq_some.1 h
    cases ρ <;> simp [HostRow.count, HostUpdate.adds, Res.pick, hv, hm, hc]
  case addVcpu v =>
    obtain ⟨_, hv, rfl⟩ := addVcpu_eq_some.1 h
    cases ρ <;> simp [HostRow.count, HostUpdate.adds, Res.pick, hv]
  all_goals
    obtain rfl := Option.some.inj h
    cases ρ <;> simp [HostRow.count, HostUpdate.adds, Res.pick, Int.sub_eq_add_neg]

namespace World

def booked (w : World) (h : HostId) (ρ : Res) : Int := (w.hosts.get h).elim 0 fun x => x.count ρ

def held (w : World) (h : HostId) (ρ : Res) : Int := w.tenants.total fun t => t.holding h ρ

theorem count_hostRow (w : World) (h : HostId) (ρ : Res) : (w.hostRow h).count ρ = w.booked h ρ := by
  unfold hostRow booked HostRow.orNew
  cases w.hosts.get h with
  | some x => rfl
  | none => cases ρ <;> rfl

theorem booked_putHost {w : World} {x : HostRow} {a : Res → Int}
    (hx : ∀ ρ, x.count ρ = (w.hostRow x.instanceId).count ρ + a ρ) (h : HostId) (ρ : Res) :
    (w.putHost x).booked h ρ = w.booked h ρ + atHost x.instanceId a h ρ := by
  show ((w.hosts.put x).get h).elim 0 _ = _
  rw [Table.get_put]
  by_cases e : h = x.instanceId
  · rw [if_pos e, Option.elim_some, hx, count_hostRow, ← e, atHost, if_pos rfl]
  · rw [if_neg e, atHost, if_neg e, Int.add_zero]
    rfl

end World

/-- A pending tenant has no host, and a migrating one migrates away from its host. -/
structure TenantRow.Coherent (t : TenantRow) : Prop where
  pending : t.status = .pending → t.hostId = none
  migrating : t.status = .migrating → t.hostId.isSome = true ∧ t.migrationSource = t.hostId

/-- The hosts are off by `f`; the row that remembers failovers is no host. -/
structure Books (w : World) (f : Amounts) : Prop where
  rows : ∀ t ∈ w.tenants.rows, t.Coherent
  off : ∀ h ρ, h ≠ azStateId → w.booked h ρ = w.held h ρ + f h ρ

namespace Books

variable {w w' : World} {f g : Amounts}

theorem congr (hB : Books w f) (h : ∀ h ρ, f h ρ = g h ρ) : Books w g :=
  ⟨hB.rows, fun a ρ ha => h a ρ ▸ hB.off a ρ ha⟩

/-- Only the two tables matter. -/
theorem of_eq (hB : Books w f) (ht : w'.tenants = w.tenants) (hh : w'.hosts = w.hosts) : Books w' f := by
  refine ⟨ht ▸ hB.rows, fun h ρ hne => ?_⟩
  have := hB.off h ρ hne
  rwa [World.booked, World.held, hh, ht]

theorem putHost (hB : Books w f) {x : HostRow} {a : Res → Int}
    (hx : ∀ ρ, x.count ρ = (w.hostRow x.instanceId).count ρ + a ρ) :
    Books (w.putHost x) fun h ρ => f h ρ + atHost x.instanceId a h ρ := by
  refine ⟨hB.rows, fun h ρ hne => ?_⟩
  rw [World.booked_putHost hx, hB.off h ρ hne, Int.add_assoc]
  rfl

theorem putHost_same (hB : Books w f) {x : HostRow} (hx : ∀ ρ, x.count ρ = (w.hostRow x.instanceId).count ρ) :
    Books (w.putHost x) f := by
  have h := @Books.putHost w f hB x 0 fun ρ => (hx ρ).trans (Int.add_zero _).symm
  exact h.congr fun h ρ => by simp [atHost]

/-- A new row: nothing was held under its key before. -/
theorem putTenant (hB : Books w f) {t : TenantRow} (ht : t.Coherent)
    (ho : ∀ old, w.tenants.get t.id = some old → ∀ h ρ, old.holding h ρ = 0) :
    Books (w.putTenant t) fun h ρ => f h ρ - t.holding h ρ := by
  refine ⟨fun r hr => ?_, fun h ρ hne => ?_⟩
  · rcases Table.mem_put.1 hr with rfl | ⟨hr, -⟩
    · exact ht
    · exact hB.rows r hr
  · have hoff := hB.off h ρ hne
    have hpart : w.tenants.part (fun t => t.holding h ρ) t.id = 0 := by
      unfold Table.part
      cases hg : w.tenants.get t.id with
      | none => rfl
      | some old => exact ho old hg h ρ
    show w.booked h ρ = (w.tenants.put t).total _ + _
    rw [Table.total_put, hpart, hoff]
    show w.held h ρ + _ = w.held h ρ - 0 + _ + _
    omega

/-- A row that is there is changed. -/
theorem updTenant (hB : Books w f) {t t' : TenantRow} (hg : w.tenants.get t'.id = some t) (ht : t'.Coherent) :
    Books (w.putTenant t') fun h ρ => f h ρ + (t.holding h ρ - t'.holding h ρ) := by
  refine ⟨fun r hr => ?_, fun h ρ hne => ?_⟩
  · rcases Table.mem_put.1 hr with rfl | ⟨hr, -⟩
    · exact ht
    · exact hB.rows r hr
  · have hoff := hB.off h ρ hne
    show w.booked h ρ = (w.tenants.put t').total _ + _
    rw [Table.total_put, Table.part, hg, hoff]
    show w.held h ρ + _ = w.held h ρ - t.holding h ρ + _ + _
    omega

theorem coherent (hB : Books w f) {id : TenantId} {t : TenantRow} (hg : w.tenants.get id = some t) : t.Coherent :=
  hB.rows t (Table.mem_of_get hg)

end Books

/-! ## Calls that respect the books -/

/-- The DynamoDB write went through, if it is one. -/
def Call.written : (c : Call) → c.Ans → Bool
  | .putTenant _, r | .updTenant _ _, r | .putHost _, r | .deleteHost _, r => r
  | .condTenant _ _ _, r | .raiseNext _ _, r => r ≠ .failed
  | .updHost _ _, r => r.isSome
  | .reserveHost _ _ _ _, r => r ≠ .failed
  | .incNext _, r => r.isSome
  | _, _ => true

/-- The tenant counts on a host. -/
def TenantRow.placed (t : TenantRow) : Bool := t.status ≠ .deleted && t.hostId.isSome

/-- The update is not the flip of a failover and does not revive a deleted tenant that has a host. -/
def TenantUpdate.respects (u : TenantUpdate) (t : TenantRow) : Bool :=
  (match u with
   | .failedOver _ _ _ => false
   | _ => true) && (t.status ≠ .deleted || !(u.apply t).placed)

/-- No new row replaces one that counts on a host, no failover flips ownership, and no deleted tenant is revived. -/
def Call.respects : Call → World → Bool
  | .putTenant t, w => (w.tenants.get t.id).all fun old => !old.placed
  | .updTenant id u, w | .condTenant id _ u, w => (w.tenants.get id).all u.respects
  | _, _ => true

theorem TenantRow.holding_eq_zero {t : TenantRow} (h : t.placed = false) (a : HostId) (ρ : Res) :
    t.holding a ρ = 0 := by
  refine if_neg fun ⟨hs, he⟩ => ?_
  simp [TenantRow.placed, hs, he] at h

/-- A status with no condition on the row, in which the tenant counts. -/
def TenantStatus.plain (s : TenantStatus) : Bool := s ≠ .deleted && s ≠ .pending && s ≠ .migrating

/-- Changes that keep size and place, and the status or make it a plain one. -/
structure Mild (t t' : TenantRow) : Prop where
  vcpu : t'.vcpu = t.vcpu
  memMb : t'.memMb = t.memMb
  hostId : t'.hostId = t.hostId
  status : t'.status = t.status ∧ t'.migrationSource = t.migrationSource ∨
    t'.status.plain = true

namespace Mild

variable {t t' : TenantRow}

theorem coherent (h : Mild t t') (ht : t.Coherent) : t'.Coherent := by
  rcases h.status with ⟨hs, hm⟩ | hp
  · exact ⟨fun e => h.hostId ▸ ht.pending (hs ▸ e), fun e => h.hostId ▸ hm ▸ ht.migrating (hs ▸ e)⟩
  · exact ⟨fun e => by simp [TenantStatus.plain, e] at hp, fun e => by simp [TenantStatus.plain, e] at hp⟩

theorem holding (h : Mild t t') (hr : t.status = .deleted → t'.placed = false) (a : HostId) (ρ : Res) :
    t'.holding a ρ = t.holding a ρ := by
  simp only [TenantRow.holding, h.vcpu, h.memMb, h.hostId]
  refine if_congr (and_congr_left fun he => ?_) rfl rfl
  rcases h.status with ⟨hs, -⟩ | hp
  · rw [hs]
  · have hd : t'.status ≠ .deleted := fun e => by simp [TenantStatus.plain, e] at hp
    refine iff_of_true hd fun e => ?_
    have := hr e
    simp [TenantRow.placed, h.hostId, he, hd] at this

end Mild

theorem TenantUpdate.respects_deleted {u : TenantUpdate} {t : TenantRow} (h : u.respects t = true)
    (hd : t.status = .deleted) : (u.apply t).placed = false := by
  simpa [TenantUpdate.respects, hd] using (Bool.and_eq_true_iff.1 h).2

/-! ## The rule of each call -/

section Rules

variable {ok : (c : Call) → c.Ans → World → Prop} {α β : Type} {w : World} {f : Amounts} {Q : α → World → Prop}

theorem quiet_rule {p : CtlProg β} (hp : p.All Call.quiet) {k : β → CtlProg α}
    (hk : ∀ b w', w'.tenants = w.tenants → w'.hosts = w.hosts → (k b).wp (ctl.restrict ok) Q w') :
    (p >>= k).wp (ctl.restrict ok) Q w := by
  rw [Prog.wp_bind]
  exact Prog.wp_mono (fun b w' h => hk b w' h.1 h.2) (Sem.wp_restrict (wp_quiet hp))

theorem quiet_call {c : Call} (hc : c.quiet) {k : c.Ans → CtlProg α}
    (hk : ∀ r w', w'.tenants = w.tenants → w'.hosts = w.hosts → (k r).wp (ctl.restrict ok) Q w') :
    (@Prog.call Ctl α c k).wp (ctl.restrict ok) Q w := fun r w' hs =>
  hk r w' (step_quiet hc hs.2).1 (step_quiet hc hs.2).2

variable (hok : ∀ c r w, ok c r w → c.written r = true ∧ c.respects w = true)

include hok

theorem updHost_rule {id : HostId} {u : HostUpdate} {k : Option HostRow → CtlProg α} (hB : Books w f)
    (hk : ∀ x w', w'.tenants = w.tenants → Books w' (fun h ρ => f h ρ + atHost id u.adds h ρ) →
      (k (some x)).wp (ctl.restrict ok) Q w') :
    (@Prog.call Ctl α (.updHost id u) k).wp (ctl.restrict ok) Q w := by
  rintro r w' ⟨hw, hs⟩
  obtain ⟨x, rfl⟩ : ∃ x, r = some x := Option.isSome_iff_exists.1 (hok _ _ _ hw).1
  obtain ⟨hu, rfl⟩ := hs
  have hid : x.instanceId = id := (HostUpdate.apply_id hu).trans (World.hostRow_id w id)
  refine hk x _ rfl ?_
  have := hB.putHost (x := x) fun ρ => by
    rw [hid]
    exact HostUpdate.count_apply hu ρ
  exact hid ▸ this

theorem reserveHost_rule {id : HostId} {c : ReserveCond} {v m : Int} {k : ReserveAns → CtlProg α} (hB : Books w f)
    (hn : ∀ n w', Books w' (fun h ρ => f h ρ + atHost id (Res.pick v m 1) h ρ) → w'.tenants = w.tenants →
      (k (.next n)).wp (ctl.restrict ok) Q w')
    (hr : (k .refused).wp (ctl.restrict ok) Q w) :
    (@Prog.call Ctl α (.reserveHost id c v m) k).wp (ctl.restrict ok) Q w := by
  rintro r w' ⟨hw, hs⟩
  cases r with
  | failed => simpa [Call.written] using (hok _ _ _ hw).1
  | refused => exact hs.2 ▸ hr
  | next n =>
    obtain ⟨x, x', hx, -, hu, -, rfl⟩ := hs
    obtain rfl : x'.instanceId = id := (HostUpdate.apply_id hu).trans (Table.key_of_get hx)
    refine hn n _ (hB.putHost fun ρ => ?_) rfl
    have hrow : w.hostRow x'.instanceId = x := by rw [World.hostRow, hx]; rfl
    rw [hrow]
    exact HostUpdate.count_apply hu ρ

omit hok in
theorem raiseNext_rule {id : HostId} {n : Int} {k : CondAns → CtlProg α} (hB : Books w f)
    (hk : ∀ r w', w'.tenants = w.tenants → Books w' f → (k r).wp (ctl.restrict ok) Q w') :
    (@Prog.call Ctl α (.raiseNext id n) k).wp (ctl.restrict ok) Q w := by
  rintro r w' ⟨-, hs⟩
  cases r with
  | failed => exact hs ▸ hk _ _ rfl hB
  | refused => exact hs.2 ▸ hk _ _ rfl hB
  | done =>
    obtain ⟨-, rfl⟩ := hs
    refine hk _ _ rfl (hB.putHost_same fun ρ => ?_)
    show _ = (w.hostRow (w.hostRow id).instanceId).count ρ
    rw [w.hostRow_id]
    rfl

omit hok in
theorem incNext_rule {id : HostId} {k : Option (Option Int) → CtlProg α} (hB : Books w f)
    (hk : ∀ r w', Books w' f → (k r).wp (ctl.restrict ok) Q w') :
    (@Prog.call Ctl α (.incNext id) k).wp (ctl.restrict ok) Q w := by
  rintro r w' ⟨-, hs⟩
  cases r with
  | none => exact hs ▸ hk _ _ hB
  | some old =>
    obtain ⟨-, x, hu, rfl⟩ := hs
    have hid : x.instanceId = id := (HostUpdate.apply_id hu).trans (World.hostRow_id w id)
    refine hk _ _ (hB.putHost_same fun ρ => ?_)
    rw [hid, HostUpdate.count_apply hu ρ]
    exact Int.add_zero _

omit hok in
/-- The record of failovers is not on the books. -/
theorem putAzState_rule {azs : List (Az × Time)} {k : Bool → CtlProg α} (hB : Books w f)
    (hk : ∀ r w', Books w' f → (k r).wp (ctl.restrict ok) Q w') :
    (@Prog.call Ctl α (.putHost { instanceId := azStateId, azLastFailover := azs }) k).wp (ctl.restrict ok) Q w := by
  rintro r w' ⟨-, hs⟩
  rcases hs.eq_or with rfl | rfl
  · refine hk _ _ ⟨hB.rows, fun h ρ hne => ?_⟩
    have hoff := hB.off h ρ hne
    rwa [World.booked, World.putHost_hosts, Table.get_put_ne _ hne]
  · exact hk _ _ hB

theorem putTenant_rule {t : TenantRow} {k : Bool → CtlProg α} (hB : Books w f) (ht : t.Coherent)
    (hk : ∀ w', w'.tenants = w.tenants.put t → Books w' (fun h ρ => f h ρ - t.holding h ρ) →
      (k true).wp (ctl.restrict ok) Q w') :
    (@Prog.call Ctl α (.putTenant t) k).wp (ctl.restrict ok) Q w := by
  rintro r w' ⟨hw, hs⟩
  obtain ⟨rfl, hr⟩ : r = true ∧ _ := hok _ _ _ hw
  obtain rfl : w' = w.putTenant t := hs
  refine hk _ rfl (hB.putTenant ht fun old hold => TenantRow.holding_eq_zero ?_)
  simpa [Call.respects, hold] using hr

theorem updTenant_rule {id : TenantId} {u : TenantUpdate} {k : Bool → CtlProg α} (hB : Books w f)
    (hk : ∀ t w', w.tenants.get id = some t → u.respects t = true → (u.apply t).Coherent ∧
      (w'.tenants = w.tenants.put (u.apply t) →
        Books w' (fun h ρ => f h ρ + (t.holding h ρ - (u.apply t).holding h ρ)) →
        (k true).wp (ctl.restrict ok) Q w')) :
    (@Prog.call Ctl α (.updTenant id u) k).wp (ctl.restrict ok) Q w := by
  rintro r w' ⟨hw, t, ht, hs⟩
  obtain ⟨rfl, hr⟩ : r = true ∧ _ := hok _ _ _ hw
  obtain rfl : w' = w.putTenant (u.apply t) := hs
  obtain ⟨hc, hk⟩ := hk t _ ht (by simpa [Call.respects, ht] using hr)
  refine hk rfl (hB.updTenant ?_ hc)
  rw [TenantUpdate.apply_id, Table.key_of_get ht, ht]

theorem mild_rule {id : TenantId} {u : TenantUpdate} (hu : ∀ t, Mild t (u.apply t)) {k : Bool → CtlProg α}
    (hB : Books w f) (hk : ∀ w', Books w' f → (k true).wp (ctl.restrict ok) Q w') :
    (@Prog.call Ctl α (.updTenant id u) k).wp (ctl.restrict ok) Q w := by
  refine updTenant_rule hok hB fun t w' ht hr => ⟨(hu t).coherent (hB.coherent ht), fun _ hB' => hk w' ?_⟩
  refine hB'.congr fun h ρ => ?_
  rw [(hu t).holding (TenantUpdate.respects_deleted hr)]
  omega

theorem condTenant_rule {id : TenantId} {c : TenantCond} {u : TenantUpdate} (hu : ∀ t, Mild t (u.apply t))
    {k : CondAns → CtlProg α} (hB : Books w f)
    (hk : ∀ r w', r ≠ .failed → Books w' f → (k r).wp (ctl.restrict ok) Q w') :
    (@Prog.call Ctl α (.condTenant id c u) k).wp (ctl.restrict ok) Q w := by
  rintro r w' ⟨hw, t, ht, hs⟩
  obtain ⟨hwr, hr⟩ := hok _ _ _ hw
  cases r with
  | failed => simp [Call.written] at hwr
  | refused => exact hk _ _ (by rintro ⟨⟩) (hs.2 ▸ hB)
  | done =>
    have hre : u.respects t = true := by simpa [Call.respects, ht] using hr
    have hB' := @Books.updTenant w f hB t (u.apply t) (by rw [TenantUpdate.apply_id, Table.key_of_get ht, ht])
      ((hu t).coherent (hB.coherent ht))
    refine hk _ _ (by rintro ⟨⟩) (hs.2 ▸ hB'.congr fun h ρ => ?_)
    rw [(hu t).holding (TenantUpdate.respects_deleted hre)]
    omega

end Rules

end OpenClaw
