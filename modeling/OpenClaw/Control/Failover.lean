import OpenClaw.Control.Sweep

/-!
# Failover of an availability zone

Detection of dead zones, the choice of a target host, and the two ways a tenant is moved: in the detector itself
(`failoverTenantToHost`) or through a queue and the worker (`enqueueFailover`, `processRecord`). Both end in
`executeFailover`. The detector works on rows it scanned and keeps its own tallies in them (`HostRow` values in memory).
-/

namespace OpenClaw

open Atomic

variable (cfg : Config)

/-! ## Detection -/

/-- `is_host_unhealthy`. -/
def isHostUnhealthy (h : HostRow) (now : Time) (thresholdMinutes : Int) : Bool :=
  if h.status = some .deleted then true
  else
    match h.lastHealthCheck.or h.lastSeen with
    | none => true
    | some last => minutes thresholdMinutes ≤ now - last

structure Outage where
  az : Az
  hostIds : List HostId

/-- The hosts of a zone. -/
def hostsOfAz (hosts : List HostRow) (az : Az) : List HostRow := hosts.filter fun h => h.az = some az

/-- `detect_unhealthy_azs`: the zones that have hosts, all of them unhealthy, in the order they are met. -/
def detectUnhealthyAzs (hosts : List HostRow) (now : Time) (thresholdMinutes : Int) : List Outage :=
  ((hosts.filterMap HostRow.az).filter (· ≠ "")).eraseDups.filterMap fun az =>
    if (hostsOfAz hosts az).all fun h => isHostUnhealthy h now thresholdMinutes then
      some ⟨az, (hostsOfAz hosts az).map HostRow.instanceId⟩
    else none

/-- `pick_target_host`. -/
def pickTargetHost (hosts : List HostRow) (now : Time) (excludeAzs : List Az) (vcpu mem : Int) : Option HostRow :=
  (rankHosts cfg (hosts.filter fun h => !excludeAzs.contains (h.az.getD "") &&
    !isHostUnhealthy h now cfg.azUnhealthyThresholdMinutes && h.status ≠ some .deleted) vcpu mem).head?

/-- `should_skip_az_for_cooldown`. -/
def shouldSkipAzForCooldown (azState : List (Az × Time)) (az : Az) (now : Time) : Bool :=
  match azState.lookup az with
  | none => false
  | some last => now - last < minutes cfg.azCooldownMinutes

/-! ## Moving one tenant -/

/-- What became of one affected tenant. -/
inductive FailoverOutcome
  | moved
  | failed
  | blocked
  | queued
deriving DecidableEq

/-- Why `_execute_failover` gave up. -/
inductive FailoverError
  | exception
  | vmNotVerified
  | noPrivateIp
  | albRepointFailed
  | dashboardNotReachable
deriving DecidableEq

/-- The VM is up on the target, but traffic could not be moved. -/
def FailoverError.isPartial : FailoverError → Bool
  | .exception | .vmNotVerified => false
  | .noPrivateIp | .albRepointFailed | .dashboardNotReachable => true

def FailoverError.text : FailoverError → String
  | .exception => "exception"
  | .vmNotVerified => "VM verify gate failed"
  | .noPrivateIp => "no private_ip"
  | .albRepointFailed => "ALB repoint failed"
  | .dashboardNotReachable => "dashboard not reachable"

/-- The `except` of `_execute_failover`. -/
def failoverFailed (tid : TenantId) (e : FailoverError) : CtlProg Bool := do
  let _ ← req (.updTenant tid (.failoverEnded (if e.isPartial then .failoverFailedPartial else .failoverFailed) e.text))
  pure false

/-- Step 8: flip the ownership, book the target. The source's counters are left as they are. -/
def failoverFlip (t : TenantRow) (target : HostRow) (backup : String) (vmNum vcpu memMb : Int) : CtlProg Bool := do
  let ok ← req (.updTenant t.id (.failedOver target.instanceId vmNum backup))
  if ok then do
    bumpTargetCounters target.instanceId vmNum vcpu memMb
    pure true
  else failoverFailed t.id .exception

/-- Steps 6 to 8: the public path, the source's nginx conf, the flip. -/
def failoverVerify (t : TenantRow) (target : HostRow) (backup : String) (vmNum vcpu memMb : Int) : CtlProg Bool :=
  let flip : CtlProg Bool :=
    match t.hostId.or t.previousHostId with
    | none => failoverFlip t target backup vmNum vcpu memMb
    | some src => do
      let _ ← req (.ssmSend (some src) (.removeTenantConf t.id))
      failoverFlip t target backup vmNum vcpu memMb
  if cfg.publicBaseUrl then do
    let ok ← req (.verifyDashboard t.id)
    if ok then flip else failoverFailed t.id .dashboardNotReachable
  else flip

/-- Step 5: the route. -/
def failoverRepoint (t : TenantRow) (target : HostRow) (backup : String) (vmNum vcpu memMb : Int) : CtlProg Bool :=
  if cfg.albListenerArn && cfg.routingMode ≠ .hostTg then
    if target.privateIp.getD "" = "" then failoverFailed t.id .noPrivateIp
    else do
      let ok ← repointAlbRule cfg t.id target.instanceId (target.privateIp.getD "")
      if ok then failoverVerify cfg t target backup vmNum vcpu memMb else failoverFailed t.id .albRepointFailed
  else failoverVerify cfg t target backup vmNum vcpu memMb

/-- `n or d`. -/
def orDefault (n d : Int) : Int := if n = 0 then d else n

/-- `_execute_failover`: launch, gates, route, flip. -/
def executeFailover (t : TenantRow) (target : HostRow) (backup : String) (vmNum : Int) : CtlProg Bool := do
  let cmd ← req (.ssmSend (some target.instanceId)
    (.launchVm t.id vmNum (orDefault t.vcpu 2) (orDefault t.memMb 4096) t.configTemplate backup []))
  match cmd with
  | none => failoverFailed t.id .exception
  | some cmd => do
    -- A failed command is overruled by the verify gate: the agent may have salvaged the launch.
    let _ ← req (.ssmWait cmd target.instanceId)
    let gate : CtlProg Bool := do
      let up ← req (.verifyVm target.instanceId t.id)
      if up then failoverRepoint cfg t target backup vmNum (orDefault t.vcpu 2) (orDefault t.memMb 4096)
      else failoverFailed t.id .vmNotVerified
    if cfg.routingMode = .hostTg then do
      let _ ← req (.ssmSend (some target.instanceId) (.removePeerConf t.id))
      gate
    else gate

/-- `_find_latest_backup_key(…) if ASSETS_BUCKET else None`; an empty key is no key. -/
def latestBackupKey (tid : TenantId) : CtlProg (Option String) :=
  if cfg.assetsBucket = "" then pure none
  else do
    let key ← req (.latestBackup tid)
    pure (key.filter fun k => k ≠ "")

/-- No backup: refuse to fail over. -/
def blockFailover (tid : TenantId) : CtlProg FailoverOutcome := do
  let _ ← req (.updTenant tid (.failoverEnded .failoverBlocked "no_backup_available"))
  pure .blocked

/-- `_failover_tenant_to_host`; `none` is an exception. -/
def failoverTenantToHost (t : TenantRow) (target : HostRow) (az : Az) (now : Time) :
    CtlProg (Option FailoverOutcome) := do
  let backup ← latestBackupKey cfg t.id
  match backup with
  | none => do
    let r ← blockFailover t.id
    pure (some r)
  | some backup => do
    let r ← req (.condTenant t.id (.hostIs t.hostId) (.failoverClaim .failoverRecovering t.hostId az now))
    match r with
    | .failed => pure none
    | .refused => pure (some .failed)
    | .done => do
      -- The number comes from the scanned row, with the detector's own increments.
      let ok ← executeFailover cfg t target backup (orDefault (target.nextVmNum.getD 0) 1)
      pure (some (if ok then .moved else .failed))

/-- `_reserve_target_vm_num`; `1` on an error. -/
def reserveTargetVmNum (target : HostId) : CtlProg Int := do
  let old ← req (.incNext target)
  pure ((old.getD none).getD 1)

/-- `_enqueue_failover`; `none` is an exception. -/
def enqueueFailover (t : TenantRow) (target : HostRow) (az : Az) (now : Time) : CtlProg (Option FailoverOutcome) := do
  let backup ← latestBackupKey cfg t.id
  match backup with
  | none => do
    let r ← blockFailover t.id
    pure (some r)
  | some backup => do
    let r ← req (.condTenant t.id (.hostIsRunning t.hostId) (.failoverClaim .failoverQueued t.hostId az now))
    match r with
    | .failed => pure none
    | .refused => pure (some .failed)
    | .done => do
      let vmNum ← reserveTargetVmNum target.instanceId
      let ok ← req (.sqsSend
        { tenantId := t.id, sourceAz := az, sourceHostId := t.hostId, targetHostId := target.instanceId,
          targetVmNum := vmNum, backupKey := backup, queuedAt := now })
      pure (some (if ok then .queued else .failed))

/-! ## The detector -/

/-- Change the row of one host in the list in memory. -/
def tally (hosts : List HostRow) (id : HostId) (f : HostRow → HostRow) : List HostRow :=
  hosts.map fun h => if h.instanceId = id then f h else h

/-- After a tenant was queued. -/
def tallyQueued (vcpu : Int) (h : HostRow) : HostRow :=
  { h with vmCount := some (h.vmCount.getD 0 + 1), usedVcpu := some (h.usedVcpu.getD 0 + orDefault vcpu 1) }

/-- After a synchronous attempt that touched the host. -/
def tallyAttempt (moved : Bool) (h : HostRow) : HostRow :=
  { h with
    vmCount := if moved then some (h.vmCount.getD 0 + 1) else h.vmCount
    nextVmNum := some (orDefault (h.nextVmNum.getD 0) 1 + 1) }

/-- The loop over the affected tenants of one outage, with the hosts in memory; `none` is an exception. -/
def failoverAll (az : Az) (exclude : List Az) (now : Time) : List TenantRow → List HostRow → CtlProg (Option (List HostRow))
  | [], hosts => pure (some hosts)
  | t :: ts, hosts =>
    match pickTargetHost cfg hosts now exclude (orDefault t.vcpu 1) (orDefault t.memMb 4096) with
    | none => failoverAll az exclude now ts hosts
    | some target =>
      if cfg.failoverQueueUrl then do
        let out ← enqueueFailover cfg t target az now
        match out with
        | none => pure none
        | some o => do
          let hosts := if o = .queued then tally hosts target.instanceId (tallyQueued t.vcpu) else hosts
          failoverAll az exclude now ts hosts
      else do
        let out ← failoverTenantToHost cfg t target az now
        match out with
        | none => pure none
        | some o => do
          let hosts := if o = .blocked then hosts else tally hosts target.instanceId (tallyAttempt (o = .moved))
          failoverAll az exclude now ts hosts

/-- The record that remembers when each zone was last handled. -/
def azStateId : HostId := "__az_failover_state__"

/-- The loop over the outages. -/
def handleOutages (tenants : List TenantRow) (force exclude : List Az) (now : Time) :
    List Outage → List HostRow → List (Az × Time) → CtlProg Unit
  | [], _, _ => pure ()
  | o :: os, hosts, azState =>
    if !force.contains o.az && shouldSkipAzForCooldown cfg azState o.az now then
      handleOutages tenants force exclude now os hosts azState
    else do
      let azState := (o.az, now) :: azState.filter fun e => e.1 ≠ o.az
      let _ ← req (.putHost { instanceId := azStateId, azLastFailover := azState })
      let affected := tenants.filter fun t => t.hostId.any o.hostIds.contains
      let r ← failoverAll cfg o.az exclude now affected hosts
      match r with
      | none => pure ()
      | some hosts => handleOutages tenants force exclude now os hosts azState

/-- `_check_and_handle_az_failover` on the tenants the watchdog scanned. -/
def checkAndHandleAzFailover (now : Time) (tenants : List TenantRow) (force : List Az) : CtlProg Unit := do
  let scanned ← req (.scanHosts .all)
  let hosts := scanned.filter fun h => h.status ≠ some .deleted
  let detected := detectUnhealthyAzs hosts now cfg.azUnhealthyThresholdMinutes
  let forced := force.filter fun az => !(detected.map Outage.az).contains az
  let outages := detected ++ forced.map fun az => ⟨az, (hostsOfAz hosts az).map HostRow.instanceId⟩
  if outages.isEmpty then pure ()
  else do
    let state ← req (.getHost azStateId)
    let healthy := hosts.filter fun h => h.az.getD "" ≠ "" && !force.contains (h.az.getD "") &&
      !isHostUnhealthy h now cfg.azUnhealthyThresholdMinutes
    if healthy.isEmpty then pure ()
    else do
      let azState := (state.map HostRow.azLastFailover).getD []
      handleOutages cfg tenants force (outages.map Outage.az ++ force) now outages hosts azState

/-- The AZ part of one invocation of the health check. -/
def azFailover (force : List Az) : CtlProg Unit := do
  let tenants ← req (.scanTenants (.status .running))
  let now ← req .now
  checkAndHandleAzFailover cfg now tenants force

/-- The loop of `_sweep_stuck_failovers`. -/
def reapStuck (now : Time) : List TenantRow → CtlProg Unit
  | [] => pure ()
  | t :: ts =>
    if t.failoverAt.any fun at' => now - at' < minutes cfg.failoverWatchdogMinutes then reapStuck now ts
    else do
      let _ ← req (.condTenant t.id .inFailover (.failoverEnded .failoverFailed
        ("watchdog: stuck > " ++ toString cfg.failoverWatchdogMinutes ++ "min")))
      reapStuck now ts

/-- `_sweep_stuck_failovers`. -/
def sweepStuckFailovers (now : Time) : CtlProg Unit := do
  let stuck ← req (.scanTenants .inFailover)
  reapStuck cfg now stuck

/-! ## The worker -/

/-- `_claim`; `none` is an exception. -/
def claim (tid : TenantId) (now : Time) : CtlProg (Option Bool) := do
  let r ← req (.condTenant tid .inFailover (.workerClaim now))
  pure (match r with
    | .done => some true
    | .refused => some false
    | .failed => none)

/-- `_process_record`. -/
def processRecord (job : FailoverJob) (now : Time) : CtlProg Unit := do
  let item ← req (.getTenant job.tenantId)
  match item with
  | none => pure ()
  | some t => do
    let held ← claim job.tenantId now
    match held with
    | some true => do
      let host ← req (.getHost job.targetHostId)
      match host with
      | none => do
        let _ ← req (.updTenant job.tenantId (.failoverEnded .failoverFailed
          ("target host " ++ job.targetHostId ++ " not found at execution")))
        pure ()
      | some host => do
        let _ ← executeFailover cfg t host job.backupKey job.targetVmNum
        pure ()
    | _ => pure ()

end OpenClaw
