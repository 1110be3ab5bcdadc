import OpenClaw.Control.Log

/-!
# Rows and their updates

- `TenantRow.Shaped`: the fields that the status of a row speaks about are there.
- `TenantUpdate.shapely`, `TenantUpdate.shapelyIf`: the updates that keep rows so (`TenantUpdate.shapely.apply`).
- `Call.places`: the host on which a call places a tenant.
-/

namespace OpenClaw

open Keyed Atomic

variable (cfg : Config)

/-! ## Rows -/

/-- What the phase of a migration needs. -/
def TenantRow.atPhase (t : TenantRow) : MigrationPhase → Prop
  | .snapshot => t.migrationSnapCmd.isSome
  | .restore => t.migrationRestoreCmd.isSome
  | .other _ => False

/-- The whole context that the migrate action stores, for a move to another host. -/
def TenantRow.UnderWay (t : TenantRow) : Prop :=
  t.migrationPhase.isSome ∧ t.migrationTarget.isSome ∧ t.migrationTargetVmNum.isSome ∧ t.migrationSource.isSome ∧
    t.migrationMode.isSome ∧ t.migrationStartedAt.isSome ∧ t.migrationSnapshotUri.isSome ∧
    t.migrationTarget ≠ t.migrationSource

/-- The fields that the status of a row speaks about are there. -/
structure TenantRow.Shaped (t : TenantRow) : Prop where
  numbered : t.hostId.isSome = t.vmNum.isSome
  waiting : t.status = .pending → t.hostId = none
  phase : ∀ p, t.migrationPhase = some p → t.atPhase p
  migrating : t.status = .migrating → t.UnderWay
  failover : t.status = .failoverQueued ∨ t.status = .failoverRecovering →
    t.previousHostId.isSome ∧ t.failoverFromAz.isSome ∧ t.failoverAt.isSome

/-- A status that no update writes without its fields. -/
def TenantStatus.bare : TenantStatus → Bool
  | .pending | .migrating | .failoverQueued | .failoverRecovering => false
  | _ => true

/-- The texts of the three branches of the sweep that need a row without its context. -/
def StrandedReason (reason : String) : Prop :=
  reason = "snapshot phase but no migration_snap_cmd" ∨ reason = "restore phase but no migration_restore_cmd" ∨
    "unknown migration_phase".toList <+: reason.toList

/-- An update without a condition. -/
def TenantUpdate.shapely : TenantUpdate → Prop
  | .status s | .failoverEnded s _ => s.bare = true
  | .migrate ctx => ctx.target ≠ ctx.source
  | .rollback reason _ => ¬ StrandedReason reason
  | .failoverClaim _ _ _ _ | .workerClaim _ => False
  | _ => True

/-- An update under a condition. -/
def TenantUpdate.shapelyIf (c : TenantCond) : TenantUpdate → Prop
  | .failoverClaim s src _ _ => s ≠ .pending ∧ s ≠ .migrating ∧ (c = .hostIs src ∨ c = .hostIsRunning src)
  | .workerClaim _ => c = .inFailover
  | .failoverEnded s _ => s.bare = true
  | _ => False

theorem TenantRow.Shaped.status {t : TenantRow} (h : t.Shaped) {s : TenantStatus} (hs : s.bare = true) :
    ({ t with status := s } : TenantRow).Shaped := by
  refine ⟨h.numbered, fun e => ?_, h.phase, fun e => ?_, fun e => ?_⟩
  · obtain rfl : s = .pending := e
    cases hs
  · obtain rfl : s = .migrating := e
    cases hs
  · have hcase : s = .failoverQueued ∨ s = .failoverRecovering := e
    rcases hcase with rfl | rfl <;> cases hs

/-- **Updates keep rows shaped.** -/
theorem TenantUpdate.shapely.apply {u : TenantUpdate} (hu : u.shapely) {t : TenantRow} (h : t.Shaped) :
    (u.apply t).Shaped := by
  cases u with
  | status s => exact h.status hu
  | failoverEnded s e =>
    exact ⟨h.numbered, (h.status hu).waiting, h.phase, (h.status hu).migrating, (h.status hu).failover⟩
  | reset rv => exact ⟨h.numbered, by rintro ⟨⟩, h.phase, by rintro ⟨⟩, by rintro (h | h) <;> cases h⟩
  | assign => exact ⟨rfl, by rintro ⟨⟩, h.phase, by rintro ⟨⟩, by rintro (h | h) <;> cases h⟩
  | vcpu | dataDisk => exact ⟨h.numbered, h.waiting, h.phase, h.migrating, h.failover⟩
  | migrate ctx =>
    refine ⟨h.numbered, by rintro ⟨⟩, fun p hp => ?_, fun _ => ?_, by rintro (h | h) <;> cases h⟩
    · obtain rfl := Option.some.inj hp
      rfl
    · exact ⟨rfl, rfl, rfl, rfl, rfl, rfl, rfl, fun e => hu (Option.some.inj e)⟩
  | rollback reason now =>
    exact ⟨h.numbered, by rintro ⟨⟩, by rintro p ⟨⟩, by rintro ⟨⟩, by rintro (h | h) <;> cases h⟩
  | restoreFired cmd now =>
    refine ⟨h.numbered, h.waiting, fun p hp => ?_, fun e => ?_, h.failover⟩
    · obtain rfl := Option.some.inj hp
      rfl
    · exact ⟨rfl, (h.migrating e).2⟩
  | migrated => exact ⟨rfl, by rintro ⟨⟩, by rintro p ⟨⟩, by rintro ⟨⟩, by rintro (h | h) <;> cases h⟩
  | failedOver => exact ⟨rfl, by rintro ⟨⟩, h.phase, by rintro ⟨⟩, by rintro (h | h) <;> cases h⟩
  | failoverClaim => exact hu.elim
  | workerClaim => exact hu.elim

theorem TenantUpdate.shapelyIf.apply {c : TenantCond} {u : TenantUpdate} (hu : u.shapelyIf c) {t : TenantRow}
    (h : t.Shaped) (hc : c.holds t = true) : (u.apply t).Shaped := by
  cases u with
  | failoverClaim s src az now =>
    obtain ⟨hp, hm, hcond⟩ := hu
    refine ⟨h.numbered, fun e => absurd e hp, h.phase, fun e => absurd e hm, fun _ => ⟨?_, rfl, rfl⟩⟩
    rcases hcond with rfl | rfl
    · simp only [TenantCond.holds, Bool.and_eq_true, decide_eq_true_eq] at hc
      exact hc.2 ▸ hc.1
    · simp only [TenantCond.holds, Bool.and_eq_true, decide_eq_true_eq] at hc
      exact hc.1.2 ▸ hc.1.1
  | workerClaim now =>
    obtain rfl : c = .inFailover := hu
    have hold : t.status = .failoverQueued ∨ t.status = .failoverRecovering := by
      simpa [TenantCond.holds] using hc
    obtain ⟨hprev, haz, -⟩ := h.failover hold
    exact ⟨h.numbered, by rintro ⟨⟩, h.phase, by rintro ⟨⟩, fun _ => ⟨hprev, haz, rfl⟩⟩
  | failoverEnded s e => exact TenantUpdate.shapely.apply (u := .failoverEnded s e) hu h
  | _ => exact hu.elim

theorem creatingRow_shaped (r : CreateRequest) (tid : TenantId) (key : String) (now : Time) (host : HostRow) (n : Int) :
    (creatingRow cfg r tid key now host n).Shaped :=
  ⟨rfl, by rintro ⟨⟩, by rintro p ⟨⟩, by rintro ⟨⟩, by rintro (h | h) <;> cases h⟩

theorem pendingRow_shaped (r : CreateRequest) (tid : TenantId) (key : String) (now : Time) :
    (pendingRow r tid key now).Shaped :=
  ⟨rfl, fun _ => rfl, by rintro p ⟨⟩, by rintro ⟨⟩, by rintro (h | h) <;> cases h⟩

/-- The host and number an update writes into a tenant's row. -/
def TenantUpdate.movesTo : TenantUpdate → Option (HostId × Int)
  | .assign h n _ _ _ _ => some (h, n)
  | .migrated h n _ => some (h, n)
  | .failedOver h n _ => some (h, n)
  | _ => none

theorem TenantUpdate.apply_of_movesTo {u : TenantUpdate} {h : HostId} {n : Int} (hu : u.movesTo = some (h, n))
    (t : TenantRow) : (u.apply t).hostId = some h ∧ (u.apply t).vmNum = some n := by
  cases u <;> simp only [TenantUpdate.movesTo, Option.some.injEq, Prod.mk.injEq, reduceCtorEq] at hu
  all_goals
    obtain ⟨rfl, rfl⟩ := hu
    exact ⟨rfl, rfl⟩

theorem TenantUpdate.apply_of_movesTo_none {u : TenantUpdate} (hu : u.movesTo = none) (t : TenantRow) :
    (u.apply t).hostId = t.hostId ∧ (u.apply t).vmNum = t.vmNum := by
  cases u <;> first | exact ⟨rfl, rfl⟩ | cases hu

/-! ## Calls -/

/-- The host takes no tenants. -/
def HostRow.closed (h : HostRow) : Bool := h.status = some .draining || h.status = some .deleted

/-- What the call writes keeps rows shaped. -/
def Call.shapely : Call → Prop
  | .putTenant t => t.Shaped
  | .updTenant _ u => u.shapely
  | .condTenant _ c u => u.shapelyIf c
  | _ => True

/-- The host that the update gives the tenant, or plans to. The two updates that end a move, `.migrated` and `.failedOver`,
are left out: the host they write was chosen when the move began. -/
def TenantUpdate.chooses : TenantUpdate → Option HostId
  | .assign h _ _ _ _ _ => some h
  | .migrate ctx => some ctx.target
  | _ => none

/-- The host on which the call places a tenant: by a reservation, by the row, as the target of a migration, or by the
first launch. -/
def Call.places : Call → Option HostId
  | .reserveHost h _ _ _ => some h
  | .putTenant t => t.hostId
  | .updTenant _ u => u.chooses
  | .ssmSend h (.and (.launchVm _ _ _ _ _ _ _) (.dnatAdd _ _)) => h
  | _ => none

/-- The call keeps rows shaped and places no tenant. -/
def Call.tame (c : Call) : Prop := c.shapely ∧ c.places = none

/-- The call takes no id and writes no new row. -/
def Call.nameless : Call → Prop
  | .genId _ | .putTenant _ => False
  | _ => True

/-- The call takes no number from a counter, and passes none on. -/
def Call.uncounted : Call → Prop
  | .incNext _ | .sqsSend _ | .deleteHost _ => False
  | .putHost h => h.instanceId = azStateId
  | .updHost _ .incNext => False
  | _ => True

/-- The call writes no tenant, sends hosts nothing, marks none idle, neither names nor places anybody, and leaves the
numbers alone. -/
structure Call.Bland (c : Call) : Prop where
  tenants : c.writesTenants = false
  mute : c.mute
  awake : c.awake
  places : c.places = none
  nameless : c.nameless
  uncounted : c.uncounted

theorem Call.Bland.tame {c : Call} (h : c.Bland) : c.tame := by
  obtain ⟨hw, hm, -, hr, -, -⟩ := h
  cases c <;> first | exact ⟨trivial, hr⟩ | exact hm.elim | cases hw

theorem Call.plain.bland {c : Call} (h : c.plain) : c.Bland := by
  cases c <;> first | exact ⟨rfl, trivial, trivial, rfl, trivial, trivial⟩ | exact h.elim

/-! ## Reasons -/

theorem operator_not_stranded : ¬ StrandedReason "cancelled by operator" := by
  unfold StrandedReason
  decide

/-- The reason is cut to 500 characters. -/
def cutReason (reason : String) : String := String.ofList (reason.toList.take 500)

theorem watchdogReason_not_stranded (t : TenantRow) (phase : MigrationPhase) (now : Time) :
    ¬ StrandedReason (cutReason (watchdogReason t phase now)) := by
  obtain ⟨rest, hrest⟩ : ∃ rest, (watchdogReason t phase now).toList = 'w' :: rest := by
    unfold watchdogReason
    rw [String.append_assoc, String.append_assoc, String.append_assoc, String.toList_append]
    exact ⟨_, rfl⟩
  have hhead : (cutReason (watchdogReason t phase now)).toList.head? = some 'w' := by
    rw [cutReason, hrest, String.toList_ofList, List.take_succ_cons, List.head?_cons]
  rintro (h | h | h)
  · rw [h] at hhead
    exact absurd hhead (by decide)
  · rw [h] at hhead
    exact absurd hhead (by decide)
  · obtain ⟨rest, hrest⟩ := h
    rw [← hrest] at hhead
    exact absurd hhead (by simp)

end OpenClaw
