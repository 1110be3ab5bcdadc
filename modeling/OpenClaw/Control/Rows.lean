import OpenClaw.Lib.Table

/-!
# Table rows and the updates of the control plane

The rows of the `tenants` and `hosts` tables, with an attribute that may be absent as an `Option`, and every
`UpdateExpression` the Lambdas send as one constructor of `TenantUpdate` or `HostUpdate`. `apply` is what DynamoDB does
with the expression: arithmetic on an absent attribute is a `ValidationException` (`none`), and an update of a key
without a row creates one.
-/

namespace OpenClaw

open Keyed

abbrev TenantId := String
abbrev HostId := String
abbrev Az := String
/-- Microseconds since the epoch. -/
abbrev Time := Int
/-- Minutes in microseconds. -/
def minutes (n : Int) : Time := n * 60000000

/-- An SSM CommandId. -/
abbrev CommandId := Nat

/-- Python's order on strings: code point by code point. -/
def strLe : List Char → List Char → Bool
  | [], _ => true
  | _ :: _, [] => false
  | a :: as, b :: bs => a.toNat < b.toNat || (a.toNat = b.toNat && strLe as bs)

/-- `strLe` is the order of the strings. -/
theorem strLe_iff_not_lt : ∀ {s t : List Char}, strLe s t = true ↔ ¬ t < s
  | [], t => by simp [strLe]
  | _ :: _, [] => by simp [strLe]
  | x :: s, y :: t => by
    have he : x.toNat = y.toNat ↔ x = y := ⟨fun h => Char.toNat_inj.1 h, fun h => h ▸ rfl⟩
    have hlt : x.toNat < y.toNat ↔ x < y := Iff.rfl
    rw [List.cons_lt_cons_iff]
    simp only [strLe, Bool.or_eq_true, Bool.and_eq_true, decide_eq_true_eq, strLe_iff_not_lt, he, hlt, not_or, not_and]
    rcases lt_trichotomy x y with h | rfl | h
    · simp [h, h.le, h.ne']
    · simp
    · simp [h, h.ne', not_lt_of_gt h]

/-! ## Configuration -/

inductive RoutingMode
  | perTenant
  | hostTg
deriving DecidableEq

inductive BalloonMigrateMode
  | cold
  | live
  | reject
deriving DecidableEq

/-- The environment of the Lambdas. -/
structure Config where
  cpuOvercommitRatio : ℚ := 1
  memOvercommitRatio : ℚ := 1
  /-- The floating-point product of an integer and a ratio; its rounding is left open. -/
  mul : Int → ℚ → ℚ := fun n q => n * q
  /-- `0` is no ceiling. -/
  maxVmsPerHost : Int := 0
  hostPickTopK : Int := 8
  hostReserveAttempts : Int := 3
  vmSubnetPrefix : String := "172.16"
  vmPortBase : Int := 18789
  routingMode : RoutingMode := .perTenant
  albListenerArn : Bool := true
  publicBaseUrl : Bool := true
  perTenantPriorityMin : Nat := 10
  perTenantPriorityMax : Nat := 499
  vmDataDiskMb : Int := 2048
  assetsBucket : String := ""
  balloonEnabled : Bool := false
  balloonMigrateMode : BalloonMigrateMode := .cold
  migrationWatchdogMinutes : Int := 15
  azUnhealthyThresholdMinutes : Int := 10
  azCooldownMinutes : Int := 30
  failoverQueueUrl : Bool := false
  failoverWatchdogMinutes : Int := 30
  quotasEnabled : Bool := false
  quotasMaxVcpu : Int := 0
  quotasMaxMemMb : Int := 0
  quotasMaxDataDiskMb : Int := 0
  idleTimeoutMinutes : Int := 30
  /-- The day and the `HH:MM` of a time in a zone, from the time-zone database; `none` for an unknown zone. -/
  localTime : String → Time → Option (String × String) := fun _ _ => none

/-- Python's `int()` of a float: truncation toward zero. -/
def pyInt (q : ℚ) : Int := q.num.tdiv q.den

/-- `int(int(total) * ratio)` for the CPU ratio. -/
def Config.allocVcpu (cfg : Config) (total : Int) : Int := pyInt (cfg.mul total cfg.cpuOvercommitRatio)

/-- `int(int(total) * ratio)` for the memory ratio. -/
def Config.allocMem (cfg : Config) (total : Int) : Int := pyInt (cfg.mul total cfg.memOvercommitRatio)

/-! ## Tenants -/

inductive TenantStatus
  | pending
  | creating
  | running
  | stopped
  | paused
  | migrating
  | failoverQueued
  | failoverRecovering
  | failoverBlocked
  | failoverFailed
  | failoverFailedPartial
  | deleted
  | failed
deriving DecidableEq

inductive MigrationMode
  | live
  | cold
deriving DecidableEq

inductive MigrationPhase
  | snapshot
  | restore
  /-- A nonempty phase that no code writes. -/
  | other (p : String)
deriving DecidableEq

inductive OnExpiry
  | stop
  | delete
deriving DecidableEq

structure Schedule where
  start : String
  stop : String
  timezone : String
  days : List String

structure TenantRow where
  id : TenantId
  name : String := ""
  status : TenantStatus
  vcpu : Int
  memMb : Int
  hostId : Option HostId := none
  vmNum : Option Int := none
  guestIp : Option String := none
  hostPort : Option Int := none
  dataDiskMb : Option Int := none
  rootfsVersion : Option String := none
  configTemplate : String := ""
  restoreBackupKey : String := ""
  tags : List (String × String) := []
  skills : Option (List String) := none
  group : Option String := none
  cloneFrom : Option TenantId := none
  schedule : Option Schedule := none
  expiresAt : Option Time := none
  onExpiry : Option OnExpiry := none
  createdAt : Option Time := none
  creationStartedAt : Option Time := none
  updatedAt : Option Time := none
  migrationTarget : Option HostId := none
  migrationTargetVmNum : Option Int := none
  migrationSource : Option HostId := none
  migrationSnapCmd : Option CommandId := none
  migrationRestoreCmd : Option CommandId := none
  migrationPhase : Option MigrationPhase := none
  migrationMode : Option MigrationMode := none
  migrationStartedAt : Option Time := none
  migrationSnapshotUri : Option String := none
  migrationFailed : Option String := none
  previousHostId : Option HostId := none
  failoverFromAz : Option Az := none
  failoverAt : Option Time := none
  failoverError : Option String := none
  restoredFrom : Option String := none

/-- `REMOVE migration_target, …, migration_snapshot_uri`: the asynchronous context of a migration. -/
def TenantRow.clearMigration (t : TenantRow) : TenantRow :=
  { t with
    migrationTarget := none, migrationTargetVmNum := none, migrationSource := none, migrationSnapCmd := none,
    migrationRestoreCmd := none, migrationPhase := none, migrationMode := none, migrationStartedAt := none,
    migrationSnapshotUri := none }

/-- What the migrate action stores for the sweep. -/
structure MigrationContext where
  target : HostId
  targetVmNum : Int
  source : HostId
  snapCmd : CommandId
  mode : MigrationMode
  startedAt : Time
  uri : String

inductive TenantUpdate
  /-- `SET #s = :s[, updated_at = :t]`. -/
  | status (s : TenantStatus)
  /-- The reset action: status `running` and the host's `rootfs_version`. -/
  | reset (rootfsVersion : String)
  /-- `process_pending`: the host assignment of a pending tenant. -/
  | assign (host : HostId) (vmNum : Int) (guestIp : String) (hostPort : Int) (rootfsVersion : String) (now : Time)
  /-- `tenant_resize`. -/
  | vcpu (v : Int)
  /-- `resize-disk`. -/
  | dataDisk (mb : Int)
  /-- The migrate action. -/
  | migrate (ctx : MigrationContext)
  /-- `_rollback_migration` and cancel-migration. -/
  | rollback (reason : String) (now : Time)
  /-- The sweep: snapshot done, restore fired. -/
  | restoreFired (cmd : CommandId) (now : Time)
  /-- The sweep: ownership moves to the target. -/
  | migrated (host : HostId) (vmNum : Int) (now : Time)
  /-- The two claims of AZ failover: `failover_recovering` (synchronous) and `failover_queued`. -/
  | failoverClaim (s : TenantStatus) (source : Option HostId) (az : Az) (now : Time)
  /-- The worker's claim. -/
  | workerClaim (now : Time)
  /-- Failover that ended without a move. -/
  | failoverEnded (s : TenantStatus) (error : String)
  /-- `_execute_failover`: ownership moves to the target. -/
  | failedOver (host : HostId) (vmNum : Int) (backup : String)

/-- What a tenants-table update leaves of the row. -/
def TenantUpdate.apply : TenantUpdate → TenantRow → TenantRow
  | .status s, t => { t with status := s }
  | .reset rv, t => { t with status := .running, rootfsVersion := some rv }
  | .assign h n ip port rv now, t =>
    { t with
      status := .creating, hostId := some h, vmNum := some n, guestIp := some ip, hostPort := some port,
      rootfsVersion := some rv, creationStartedAt := some now, updatedAt := some now }
  | .vcpu v, t => { t with vcpu := v }
  | .dataDisk mb, t => { t with dataDiskMb := some mb }
  | .migrate ctx, t =>
    { t with
      status := .migrating, migrationTarget := some ctx.target, migrationTargetVmNum := some ctx.targetVmNum,
      migrationSource := some ctx.source, migrationSnapCmd := some ctx.snapCmd, migrationPhase := some .snapshot,
      migrationMode := some ctx.mode, migrationStartedAt := some ctx.startedAt,
      migrationSnapshotUri := some ctx.uri, updatedAt := some ctx.startedAt, migrationFailed := none }
  | .rollback reason now, t =>
    { t.clearMigration with status := .running, migrationFailed := some reason, updatedAt := some now }
  | .restoreFired cmd now, t =>
    { t with migrationPhase := some .restore, migrationRestoreCmd := some cmd, updatedAt := some now }
  | .migrated h n now, t =>
    { t.clearMigration with
      hostId := some h, vmNum := some n, status := .running, migrationFailed := none, updatedAt := some now }
  | .failoverClaim s src az now, t =>
    { t with status := s, previousHostId := src, failoverFromAz := some az, failoverAt := some now }
  | .workerClaim now, t => { t with status := .failoverRecovering, failoverAt := some now }
  | .failoverEnded s e, t => { t with status := s, failoverError := some e }
  | .failedOver h n b, t =>
    { t with hostId := some h, vmNum := some n, status := .running, restoredFrom := some b }

@[simp] theorem TenantUpdate.apply_id (u : TenantUpdate) (t : TenantRow) : (u.apply t).id = t.id := by
  cases u <;> rfl

/-! ## Hosts -/

inductive HostStatus
  | active
  | idle
  | draining
  | deleted
deriving DecidableEq

structure HostRow where
  instanceId : HostId
  status : Option HostStatus := none
  privateIp : Option String := none
  az : Option Az := none
  totalVcpu : Option Int := none
  totalMemMb : Option Int := none
  usedVcpu : Option Int := none
  usedMemMb : Option Int := none
  vmCount : Option Int := none
  nextVmNum : Option Int := none
  idleSince : Option Time := none
  rootfsVersion : Option String := none
  lastHealthCheck : Option Time := none
  lastSeen : Option Time := none
  azLastFailover : List (Az × Time) := []

inductive HostUpdate
  /-- `_reserve_host_slot`. -/
  | reserve (v m : Int)
  /-- `_release_host_slot`, and the counters of `delete_tenant`. -/
  | release (v m : Int)
  /-- `process_pending`: book, and set `next_vm_num` to an absolute value. -/
  | book (v m next : Int)
  /-- The sweep: the counters of the source after a move. -/
  | unbook (v m : Int)
  /-- `_bump_target_counters`, first write. -/
  | bump (v m : Int)
  /-- `_reserve_target_vm_num`. -/
  | incNext
  /-- `tenant_resize`. -/
  | addVcpu (v : Int)
  | status (s : HostStatus)
  | idleSince (now : Time)

/-- What a hosts-table update leaves of the row; `none` if an operand is absent. -/
def HostUpdate.apply : HostUpdate → HostRow → Option HostRow
  | .reserve v m, h => do
    let uv ← h.usedVcpu; let um ← h.usedMemMb; let c ← h.vmCount; let n ← h.nextVmNum
    some { h with
      usedVcpu := some (uv + v), usedMemMb := some (um + m), vmCount := some (c + 1), nextVmNum := some (n + 1),
      status := some .active, idleSince := none }
  | .release v m, h => do
    let uv ← h.usedVcpu; let um ← h.usedMemMb; let c ← h.vmCount
    some { h with usedVcpu := some (uv - v), usedMemMb := some (um - m), vmCount := some (c - 1) }
  | .book v m next, h => do
    let uv ← h.usedVcpu; let um ← h.usedMemMb; let c ← h.vmCount
    some { h with
      usedVcpu := some (uv + v), usedMemMb := some (um + m), vmCount := some (c + 1), nextVmNum := some next }
  | .unbook v m, h =>
    some { h with
      usedVcpu := some (h.usedVcpu.getD 0 - v), usedMemMb := some (h.usedMemMb.getD 0 - m),
      vmCount := some (h.vmCount.getD 0 - 1) }
  | .bump v m, h =>
    some { h with
      vmCount := some (h.vmCount.getD 0 + 1), usedVcpu := some (h.usedVcpu.getD 0 + v),
      usedMemMb := some (h.usedMemMb.getD 0 + m) }
  | .incNext, h => some { h with nextVmNum := some (h.nextVmNum.getD 1 + 1) }
  | .addVcpu v, h => do
    let uv ← h.usedVcpu
    some { h with usedVcpu := some (uv + v) }
  | .status s, h => some { h with status := some s }
  | .idleSince now, h => some { h with idleSince := some now }

/-- The row an update of `id` reads: the stored one, or only the key. -/
def HostRow.orNew (id : HostId) (h : Option HostRow) : HostRow := h.getD { instanceId := id }

theorem HostUpdate.reserve_eq_some {v m : Int} {h h' : HostRow} :
    (HostUpdate.reserve v m).apply h = some h' ↔ ∃ uv um c n, h.usedVcpu = some uv ∧ h.usedMemMb = some um ∧
      h.vmCount = some c ∧ h.nextVmNum = some n ∧
      h' = { h with
        usedVcpu := some (uv + v), usedMemMb := some (um + m), vmCount := some (c + 1), nextVmNum := some (n + 1),
        status := some .active, idleSince := none } := by
  simp only [HostUpdate.apply, Option.bind_eq_bind, Option.bind_eq_some_iff, Option.some.injEq]
  constructor
  · rintro ⟨uv, hv, um, hm, c, hc, n, hn, rfl⟩
    exact ⟨uv, um, c, n, hv, hm, hc, hn, rfl⟩
  · rintro ⟨uv, um, c, n, hv, hm, hc, hn, rfl⟩
    exact ⟨uv, hv, um, hm, c, hc, n, hn, rfl⟩

theorem HostUpdate.release_eq_some {v m : Int} {h h' : HostRow} :
    (HostUpdate.release v m).apply h = some h' ↔ ∃ uv um c, h.usedVcpu = some uv ∧ h.usedMemMb = some um ∧
      h.vmCount = some c ∧
      h' = { h with usedVcpu := some (uv - v), usedMemMb := some (um - m), vmCount := some (c - 1) } := by
  simp only [HostUpdate.apply, Option.bind_eq_bind, Option.bind_eq_some_iff, Option.some.injEq]
  constructor
  · rintro ⟨uv, hv, um, hm, c, hc, rfl⟩
    exact ⟨uv, um, c, hv, hm, hc, rfl⟩
  · rintro ⟨uv, um, c, hv, hm, hc, rfl⟩
    exact ⟨uv, hv, um, hm, c, hc, rfl⟩

theorem HostUpdate.book_eq_some {v m next : Int} {h h' : HostRow} :
    (HostUpdate.book v m next).apply h = some h' ↔ ∃ uv um c, h.usedVcpu = some uv ∧ h.usedMemMb = some um ∧
      h.vmCount = some c ∧
      h' = { h with
        usedVcpu := some (uv + v), usedMemMb := some (um + m), vmCount := some (c + 1), nextVmNum := some next } := by
  simp only [HostUpdate.apply, Option.bind_eq_bind, Option.bind_eq_some_iff, Option.some.injEq]
  constructor
  · rintro ⟨uv, hv, um, hm, c, hc, rfl⟩
    exact ⟨uv, um, c, hv, hm, hc, rfl⟩
  · rintro ⟨uv, um, c, hv, hm, hc, rfl⟩
    exact ⟨uv, hv, um, hm, c, hc, rfl⟩

theorem HostUpdate.addVcpu_eq_some {v : Int} {h h' : HostRow} :
    (HostUpdate.addVcpu v).apply h = some h' ↔
      ∃ uv, h.usedVcpu = some uv ∧ h' = { h with usedVcpu := some (uv + v) } := by
  simp only [HostUpdate.apply, Option.bind_eq_bind, Option.bind_eq_some_iff, Option.some.injEq]
  exact exists_congr fun _ => and_congr_right fun _ => eq_comm

theorem HostUpdate.apply_id {u : HostUpdate} {h h' : HostRow} (hu : u.apply h = some h') :
    h'.instanceId = h.instanceId := by
  cases u
  case reserve => obtain ⟨_, _, _, _, -, -, -, -, rfl⟩ := reserve_eq_some.1 hu; rfl
  case release => obtain ⟨_, _, _, -, -, -, rfl⟩ := release_eq_some.1 hu; rfl
  case book => obtain ⟨_, _, _, -, -, -, rfl⟩ := book_eq_some.1 hu; rfl
  case addVcpu => obtain ⟨_, -, rfl⟩ := addVcpu_eq_some.1 hu; rfl
  all_goals
    obtain rfl := Option.some.inj hu
    rfl

/-- The condition of `_reserve_host_slot`, as DynamoDB evaluates it: a comparison with an absent attribute fails. -/
structure ReserveCond where
  maxUsedV : Int
  maxUsedM : Int
  maxVm : Option Int

def ReserveCond.holds (c : ReserveCond) (h : HostRow) : Bool :=
  h.usedVcpu.any (· ≤ c.maxUsedV) && h.usedMemMb.any (· ≤ c.maxUsedM) &&
    (match c.maxVm with
     | none => true
     | some n => h.vmCount.any (· < n))

theorem ReserveCond.holds_iff {c : ReserveCond} {h : HostRow} : c.holds h = true ↔
    (∃ u, h.usedVcpu = some u ∧ u ≤ c.maxUsedV) ∧ (∃ u, h.usedMemMb = some u ∧ u ≤ c.maxUsedM) ∧
      ∀ n, c.maxVm = some n → ∃ k, h.vmCount = some k ∧ k < n := by
  rw [ReserveCond.holds, Bool.and_eq_true, Bool.and_eq_true, Option.any_eq_true, Option.any_eq_true, and_assoc]
  refine and_congr (by simp) (and_congr (by simp) ?_)
  cases c.maxVm with
  | none => simp
  | some n => simp [Option.any_eq_true]

abbrev TenantsTable := Table TenantId TenantRow TenantRow.id
abbrev HostsTable := Table HostId HostRow HostRow.instanceId

end OpenClaw
