import OpenClaw.Control.Create

/-!
# Tenant actions and host operations of the API

`delete_tenant`, `tenant_action` with each of its actions, `tenant_resize`, `drain_host`, the host registration calls
and the cleanup after a host was terminated.
-/

namespace OpenClaw

open Atomic

variable (cfg : Config)

/-! ## delete_tenant -/

/-- The counters of `delete_tenant`, and `idle_since` when the host is empty. -/
def releaseDeleted (t : TenantRow) (host : HostId) : CtlProg Bool := do
  let h ← req (.updHost host (.release t.vcpu t.memMb))
  match h with
  | none => pure false
  | some h =>
    if h.vmCount = some 0 then do
      let now ← req .now
      let h' ← req (.updHost host (.idleSince now))
      pure h'.isSome
    else pure true

def markDeleted (tid : TenantId) : CtlProg Resp := do
  let ok ← req (.updTenant tid (.status .deleted))
  pure (if ok then 200 else 500)

def deleteTenant (tid : TenantId) (keepData : Bool) : CtlProg Resp := do
  let item ← req (.getTenant tid)
  match item with
  | none => pure 404
  | some t =>
    if t.status = .deleted then pure 200
    else
      match t.hostId with
      | none => do
        let ok ← removeAlbRule cfg tid
        if ok then markDeleted tid else pure 500
      | some h => do
        let _ ← req (.ssmRun h (.stopVm tid (t.vmNum.getD 1)))
        let _ ← req (.ssmRun h (.removeVmJson tid))
        let ok ← removeAlbRule cfg tid
        if ok then do
          let _ ← req (.ssmRun h (.dnatDel t.hostPort t.guestIp))
          if keepData then do
            let ok ← releaseDeleted t h
            if ok then markDeleted tid else pure 500
          else do
            let _ ← req (.ssmRun h (.removeVmDir tid))
            let ok ← releaseDeleted t h
            if ok then markDeleted tid else pure 500
        else pure 500

/-! ## tenant_action -/

/-- cancel-migration: check the row that was read, then write. -/
def cancelMigration (t : TenantRow) : CtlProg Resp :=
  if t.status ≠ .migrating then pure 409
  else do
    let now ← req .now
    let ok ← req (.updTenant t.id (.rollback "cancelled by operator" now))
    pure (if ok then 200 else 500)

/-- `tenant_resize`: hot-add vCPUs; the row is read again. -/
def tenantResize (tid : TenantId) (newVcpu : Int) : CtlProg Resp := do
  let item ← req (.getTenant tid)
  match item with
  | none => pure 404
  | some t =>
    if t.status ≠ .running then pure 400
    else if newVcpu ≤ t.vcpu then pure 400
    else if overQuota cfg newVcpu t.memMb (t.dataDiskMb.getD 0) then pure 400
    else
      match t.hostId with
      | none => pure 400
      | some host => do
        let h ← req (.getHost host)
        match h with
        | none => pure 400
        | some h =>
          match h.totalVcpu, h.usedVcpu with
          | some total, some used =>
            if cfg.allocVcpu total - used < newVcpu - t.vcpu then pure 400
            else do
              let ok ← req (.ssmRun host (.machineConfig tid newVcpu t.memMb))
              if ok then do
                let ok ← req (.updTenant tid (.vcpu newVcpu))
                if ok then do
                  let h ← req (.updHost host (.addVcpu (newVcpu - t.vcpu)))
                  pure (if h.isSome then 200 else 500)
                else pure 500
              else pure 502
          | _, _ => pure 500

/-- resize-disk: the row follows only a script that succeeded. `VM_DATA_DISK_MB` is the default size. -/
def resizeDisk (defaultMb : Int) (t : TenantRow) (newSize : Int) : CtlProg Resp :=
  if newSize ≤ t.dataDiskMb.getD defaultMb then pure 400
  else if 1024 * 1024 < newSize then pure 400
  else
    match t.hostId with
    | none => pure 400
    | some h => do
      let ok ← req (.ssmRun h (.resizeDisk t.id (t.vmNum.getD 1) newSize))
      if ok then do
        let ok ← req (.updTenant t.id (.dataDisk newSize))
        pure (if ok then 200 else 500)
      else pure 502

/-- The strategy of a migration, `none` when balloon mode rejects it. -/
def migrateMode : Option MigrationMode :=
  if cfg.balloonEnabled then
    match cfg.balloonMigrateMode with
    | .reject => none
    | .cold => some .cold
    | .live => some .live
  else some .live

/-- `s3://<bucket>/migrations/<tid>`. -/
def snapshotUri (tid : TenantId) : String := "s3://" ++ cfg.assetsBucket ++ "/migrations/" ++ tid

/-- The verb that empties the source. -/
def MigrationMode.sourceVerb : MigrationMode → MigrateVerb
  | .live => .snapshot
  | .cold => .coldDump

/-- The verb that fills the target. -/
def MigrationMode.restoreVerb : MigrationMode → MigrateVerb
  | .live => .restore
  | .cold => .coldRestore

/-- migrate from the capacity check on: fire the snapshot and store the context for the sweep. -/
def startMigration (t : TenantRow) (mode : MigrationMode) (target : HostRow) : CtlProg Resp := do
  -- Read from the row of the capacity check; nothing is booked on the target.
  let targetVmNum := target.nextVmNum.getD 1
  let now ← req .now
  let cmd ← req (.ssmSend t.hostId (.migrateVm mode.sourceVerb t.id (t.vmNum.getD 1) (snapshotUri cfg t.id)))
  match cmd, t.hostId with
  | some cmd, some source => do
    let ok ← req (.updTenant t.id (.migrate
      { target := target.instanceId, targetVmNum := targetVmNum, source := source, snapCmd := cmd, mode := mode,
        startedAt := now, uri := snapshotUri cfg t.id }))
    pure (if ok then 202 else 500)
  | _, _ => pure 502

/-- migrate. -/
def migrate (t : TenantRow) (targetHostId : HostId) : CtlProg Resp :=
  match migrateMode cfg with
  | none => pure 409
  | some mode =>
    if targetHostId = "" then pure 400
    else if t.hostId = some targetHostId then pure 400
    else do
      let target ← req (.getHost targetHostId)
      match target with
      | none => pure 404
      | some target =>
        if target.status = some .draining ∨ target.status = some .deleted then pure 409
        else if hostFits cfg target t.vcpu t.memMb then startMigration cfg t mode target
        else pure 409

/-- The actions that only run a command on the host and then write the status. -/
inductive SimpleAction
  | restart
  | stop
  | start
  | reset
  | pause
  | resume
deriving DecidableEq

/-- `cmd && dnat` when the row has an address to forward to. -/
def withDnat (t : TenantRow) (dnat : Option Int → Option String → HostCmd) (cmd : HostCmd) : HostCmd :=
  if t.guestIp.isSome ∧ t.hostPort.isSome then .and cmd (dnat t.hostPort t.guestIp) else cmd

/-- `launch-vm.sh <tid> <vm_num> <vcpu> <mem_mb>`: no template and no restore key. -/
def relaunchCmd (t : TenantRow) : HostCmd := .launchVm t.id (t.vmNum.getD 1) t.vcpu t.memMb "" "" []

def SimpleAction.cmd (t : TenantRow) : SimpleAction → HostCmd
  | .restart => withDnat t .dnatAdd (.and (.and (.stopVm t.id (t.vmNum.getD 1)) (.sleep 2)) (relaunchCmd t))
  | .stop => withDnat t .dnatDel (.stopVm t.id (t.vmNum.getD 1))
  | .start => withDnat t .dnatAdd (relaunchCmd t)
  | .reset => withDnat t .dnatAdd
      (.and (.and (.and (.stopVm t.id (t.vmNum.getD 1)) (.removeOverlay t.id)) (.sleep 2)) (relaunchCmd t))
  | .pause => .vmState t.id true
  | .resume => .vmState t.id false

def SimpleAction.newStatus : SimpleAction → TenantStatus
  | .restart | .start | .reset | .resume => .running
  | .stop => .stopped
  | .pause => .paused

/-- The status is written whether or not the command succeeded. -/
def simpleAction (a : SimpleAction) (t : TenantRow) : CtlProg Resp :=
  match t.hostId with
  | none => pure 500
  | some h => do
    let _ ← req (.ssmRun h (a.cmd t))
    if a = .reset then do
      let host ← req (.getHost h)
      let ok ← req (.updTenant t.id (.reset ((host.bind HostRow.rootfsVersion).getD "")))
      pure (if ok then 200 else 500)
    else do
      let ok ← req (.updTenant t.id (.status a.newStatus))
      pure (if ok then 200 else 500)

inductive TenantAction
  | cancelMigration
  | resize (vcpu : Int)
  | resizeDisk (sizeMb : Int)
  | migrate (target : HostId)
  | simple (a : SimpleAction)

def tenantAction (tid : TenantId) (a : TenantAction) : CtlProg Resp := do
  let item ← req (.getTenant tid)
  match item with
  | none => pure 404
  | some t =>
    match a with
    | .cancelMigration => cancelMigration t
    | .resize v => tenantResize cfg tid v
    | .resizeDisk mb => resizeDisk cfg.vmDataDiskMb t mb
    | .migrate target => migrate cfg t target
    | .simple a => simpleAction a t

/-! ## batch_tenants -/

/-- The batch actions that write a row; `backup` only invokes another Lambda. -/
inductive BatchAction
  | stop
  | start
  | delete

/-- The tenants of a batch: ids, or the rows that are not deleted and carry a tag. -/
inductive BatchTarget
  | ids (ids : List TenantId)
  | filter (tag : Option (String × String))

/-- `_resolve_filter`. -/
def resolveFilter (tag : Option (String × String)) : CtlProg (List TenantId) := do
  let items ← req (.scanTenants .all)
  pure ((items.filter fun t => t.status ≠ .deleted && tag.all fun kv => t.tags.lookup kv.1 = some kv.2).map TenantRow.id)

/-- One tenant of a batch. -/
def batchOne (tid : TenantId) : BatchAction → CtlProg Resp
  | .delete => deleteTenant cfg tid true
  | .stop => tenantAction cfg tid (.simple .stop)
  | .start => tenantAction cfg tid (.simple .start)

/-- The loop of `batch_tenants`: the ids that succeeded and those that failed. -/
def batchAll (a : BatchAction) : List TenantId → CtlProg (List TenantId × List TenantId)
  | [] => pure ([], [])
  | tid :: tids => do
    let item ← req (.getTenant tid)
    let code ← match item with
      | none => pure 404
      | some _ => batchOne cfg tid a
    let r ← batchAll a tids
    pure (if code < 400 then (tid :: r.1, r.2) else (r.1, tid :: r.2))

def batchTenants (a : BatchAction) (target : BatchTarget) : CtlProg (List TenantId × List TenantId) := do
  let ids ← match target with
    | .ids ids => pure ids
    | .filter tag => resolveFilter tag
  batchAll cfg a ids

/-! ## Hosts -/

/-- `register_host`, after EC2 was asked for the instance. -/
def registerHost (host : HostId) (ip : String) (az : Az) (totalVcpu totalMemMb : Int) : CtlProg Resp := do
  let now ← req .now
  let ok ← req (.putHost
    { instanceId := host, status := some .active, privateIp := some ip, az := some az, totalVcpu := some totalVcpu,
      totalMemMb := some totalMemMb, usedVcpu := some 0, usedMemMb := some 0, vmCount := some 0, nextVmNum := some 1,
      idleSince := some now })
  pure (if ok then 201 else 500)

/-- `deregister_host`; the termination it asks for comes back as `cleanupTerminatedHost`. -/
def deregisterHost (host : HostId) : CtlProg Resp := do
  let h ← req (.updHost host (.status .draining))
  pure (if h.isSome then 200 else 500)

/-- The loop of `drain_host`: how many migrations were started. -/
def drainAll (host : HostId) : List TenantRow → CtlProg Nat
  | [] => pure 0
  | t :: ts => do
    let target ← findHost cfg t.vcpu t.memMb
    match target with
    | none => drainAll host ts
    | some target =>
      if target.instanceId = host then drainAll host ts
      else do
        let r ← tenantAction cfg t.id (.migrate target.instanceId)
        let n ← drainAll host ts
        pure (if r = 202 then n + 1 else n)

def drainHost (host : HostId) : CtlProg Resp := do
  let h ← req (.getHost host)
  match h with
  | none => pure 404
  | some _ => do
    let tenants ← req (.scanTenants (.hostRunning host))
    let h ← req (.updHost host (.status .draining))
    match h with
    | none => pure 500
    | some _ => do
      let started ← drainAll cfg host tenants
      pure (if 0 < started ∨ tenants.isEmpty then 202 else 409)

/-- The loop of `cleanup_terminated_host`; `false` on an exception. -/
def reapTenants : List TenantRow → CtlProg Bool
  | [] => pure true
  | t :: ts => do
    let ok ← removeAlbRule cfg t.id
    if ok then do
      let ok ← req (.updTenant t.id (.status .deleted))
      if ok then reapTenants ts else pure false
    else pure false

/-- `cleanup_terminated_host`: delete the host's tenants, its target group and its row. -/
def cleanupTerminatedHost (host : HostId) : CtlProg Unit := do
  let tenants ← req (.scanTenants (.hostNotDeleted host))
  let ok ← reapTenants cfg tenants
  if ok then do
    removeHostTg cfg host
    let _ ← req (.deleteHost host)
    pure ()
  else pure ()

end OpenClaw
