import OpenClaw.Control.Actions

/-!
# The migration sweep

`_advance_migration` drives one migration one step per tick, on a copy of the row that the sweep scanned. Its exits are
a completed move (`completeMove`), a rollback (`rollbackMigration`), or nothing yet.
-/

namespace OpenClaw

open Atomic

variable (cfg : Config)

/-- `_bump_target_counters`: book the tenant on the target, raise `next_vm_num` past its number; failures are
tolerated. -/
def bumpTargetCounters (target : HostId) (vmNum vcpu memMb : Int) : CtlProg Unit := do
  let _ ← req (.updHost target (.bump vcpu memMb))
  let _ ← req (.raiseNext target (vmNum + 1))
  pure ()

/-- `_rollback_migration`; `false` when the write raised. -/
def rollbackMigration (t : TenantRow) (reason : String) : CtlProg Bool :=
  let write : CtlProg Bool := do
    let now ← req .now
    req (.updTenant t.id (.rollback (String.ofList (reason.toList.take 500)) now))
  if t.migrationMode = some .cold then
    -- The source VM was stopped: launch it again from its data volume.
    match t.migrationSource.or t.hostId with
    | none => write
    | some src => do
      let _ ← req (.ssmSend (some src) (relaunchCmd t))
      write
  else write

/-- The watchdog: the migration was started more than `MIGRATION_WATCHDOG_MINUTES` ago. -/
def overdue (t : TenantRow) (now : Time) : Bool :=
  t.migrationStartedAt.any fun st => minutes cfg.migrationWatchdogMinutes < now - st

def MigrationPhase.name : MigrationPhase → String
  | .snapshot => "snapshot"
  | .restore => "restore"
  | .other p => p

/-- `watchdog: stuck in <phase> for <minutes>min`. -/
def watchdogReason (t : TenantRow) (phase : MigrationPhase) (now : Time) : String :=
  "watchdog: stuck in " ++ phase.name ++ " for " ++
    toString ((now - t.migrationStartedAt.getD now).tdiv (minutes 1)) ++ "min"

/-- Phase `snapshot`: poll the snapshot command and fire the restore on the target. -/
def advanceSnapshot (t : TenantRow) : CtlProg Unit :=
  match t.migrationSnapCmd with
  | none => do
    let _ ← rollbackMigration t "snapshot phase but no migration_snap_cmd"
    pure ()
  | some cmd => do
    let (done, ok) ← req (.ssmPoll cmd t.migrationSource)
    if done then
      if ok then do
        let restore ← req (.ssmSend t.migrationTarget (.migrateVm (t.migrationMode.getD .live).restoreVerb t.id
          (t.migrationTargetVmNum.getD 1) (t.migrationSnapshotUri.getD "")))
        match restore with
        | none => do
          let _ ← rollbackMigration t "failed to submit restore SSM command"
          pure ()
        | some cmd => do
          let now ← req .now
          let _ ← req (.updTenant t.id (.restoreFired cmd now))
          pure ()
      else do
        let _ ← rollbackMigration t "snapshot command failed on source host"
        pure ()
    else pure ()

/-- Every gate passed: ownership, then the counters, then the old VM. -/
def completeMove (t : TenantRow) (target : HostId) : CtlProg Unit := do
  let now ← req .now
  let ok ← req (.updTenant t.id (.migrated target (t.migrationTargetVmNum.getD 1) now))
  if ok then
    match t.migrationSource with
    | none => bumpTargetCounters target (t.migrationTargetVmNum.getD 1) t.vcpu t.memMb
    | some src => do
      let _ ← req (.updHost src (.unbook t.vcpu t.memMb))
      bumpTargetCounters target (t.migrationTargetVmNum.getD 1) t.vcpu t.memMb
      let _ ← req (.ssmSend (some src) (.seq (.stopVm t.id (t.vmNum.getD 1)) (.removeTenantConf t.id)))
      pure ()
  else pure ()

/-- The last gate: the dashboard through the public path. -/
def verifyAndMove (t : TenantRow) (target : HostId) : CtlProg Unit :=
  if cfg.publicBaseUrl then do
    let ok ← req (.verifyDashboard t.id)
    if ok then completeMove t target
    else do
      let _ ← rollbackMigration t "dashboard not reachable via ALB after restore"
      pure ()
  else completeMove t target

/-- Phase `restore`: poll the restore command, repoint the route, verify, move. -/
def advanceRestore (t : TenantRow) : CtlProg Unit :=
  match t.migrationRestoreCmd with
  | none => do
    let _ ← rollbackMigration t "restore phase but no migration_restore_cmd"
    pure ()
  | some cmd => do
    let (done, ok) ← req (.ssmPoll cmd t.migrationTarget)
    if done then
      if ok then
        match t.migrationTarget with
        -- A read with an empty key raises.
        | none => pure ()
        | some target => do
          let host ← req (.getHost target)
          if cfg.routingMode = .hostTg then do
            let _ ← req (.ssmSend (some target) (.removePeerConf t.id))
            verifyAndMove cfg t target
          else
            if (host.bind HostRow.privateIp).getD "" = "" then do
              let ok ← rollbackMigration t "target host has no private_ip"
              -- This rollback is inside the `try` of the repoint, whose handler rolls back.
              if ok then pure ()
              else do
                let _ ← rollbackMigration t "ALB repoint failed"
                pure ()
            else do
              let ok ← repointAlbRule cfg t.id target ((host.bind HostRow.privateIp).getD "")
              if ok then verifyAndMove cfg t target
              else do
                let _ ← rollbackMigration t "ALB repoint failed"
                pure ()
      else do
        let _ ← rollbackMigration t "restore command failed on target host"
        pure ()
    else pure ()

/-- One step for the phase the row is in. -/
def advancePhase (t : TenantRow) : MigrationPhase → CtlProg Unit
  | .snapshot => advanceSnapshot t
  | .restore => advanceRestore cfg t
  | .other p => do
    let _ ← rollbackMigration t ("unknown migration_phase: '" ++ p ++ "'")
    pure ()

/-- `_advance_migration`. -/
def advanceMigration (t : TenantRow) (now : Time) : CtlProg Unit :=
  match t.migrationPhase with
  | none => pure ()
  | some phase =>
    if overdue cfg t now then do
      let ok ← rollbackMigration t (watchdogReason t phase now)
      -- The rollback is inside a `try` whose handler passes, so a failed write goes on with the phase.
      if ok then pure () else advancePhase cfg t phase
    else advancePhase cfg t phase

/-- The loop over the scanned rows. -/
def advanceAll (now : Time) : List TenantRow → CtlProg Unit
  | [] => pure ()
  | t :: ts =>
    if t.status ≠ .migrating ∨ t.migrationPhase = none then advanceAll now ts
    else do
      advanceMigration cfg t now
      advanceAll now ts

/-- The sweep of one invocation of the health check. -/
def migrationSweep (now : Time) : CtlProg Unit := do
  let migrating ← req (.scanTenants (.status .migrating))
  advanceAll cfg now migrating

end OpenClaw
