import OpenClaw.Control.Calls

/-!
# The scaler

One tick stops or deletes the tenants past their `expires_at`, starts and stops scheduled tenants, and keeps the status
of hosts in step with their `vm_count`. Unlike `delete_tenant`, the `delete` of a TTL only writes the status. `false` is
an exception that ends the tick.
-/

namespace OpenClaw

open Atomic

variable (cfg : Config)

/-! ## TTL -/

/-- The loop of `_process_ttl_expirations`; a failed status write is only logged. -/
def expireAll (now : Time) : List TenantRow → CtlProg Unit
  | [] => pure ()
  | t :: ts =>
    if t.status = .stopped ∨ t.status = .deleted ∨ t.status = .failed then expireAll now ts
    else if t.expiresAt.all fun e => now < e then expireAll now ts
    else
      match t.onExpiry.getD .stop with
      | .stop => do
        let stop : CtlProg Unit := do
          let _ ← req (.updTenant t.id (.status .stopped))
          expireAll now ts
        match t.hostId with
        | none => stop
        | some h => do
          let _ ← req (.ssmSend (some h) (.stopVm t.id (t.vmNum.getD 1)))
          stop
      | .delete => do
        let _ ← req (.updTenant t.id (.status .deleted))
        expireAll now ts

/-- `_process_ttl_expirations`. -/
def processTtlExpirations : CtlProg Unit := do
  let items ← req (.scanTenants .expires)
  let now ← req .now
  expireAll now items

/-! ## Schedules -/

def schedDayNames : List String := ["Mon", "Tue", "Wed", "Thu", "Fri", "Sat", "Sun"]

/-- `_schedule_should_run`: inside the window, which may go past midnight. -/
def scheduleShouldRun (s : Schedule) (now : Time) : Bool :=
  match cfg.localTime s.timezone now with
  | none => true
  | some (day, cur) =>
    if !(if s.days.isEmpty then schedDayNames else s.days).contains day then false
    else if strLe s.start.toList s.stop.toList then
      strLe s.start.toList cur.toList && !strLe s.stop.toList cur.toList
    else strLe s.start.toList cur.toList || !strLe s.stop.toList cur.toList

/-- Send the command of a scheduled start or stop, then write the status. -/
def scheduleAction (t : TenantRow) (host : HostId) (cmd : HostCmd) (s : TenantStatus) : CtlProg Bool := do
  let sent ← req (.ssmSend (some host) cmd)
  match sent with
  | none => pure false
  | some _ => req (.updTenant t.id (.status s))

/-- What the schedule of one scanned row asks for. -/
def reconcileSchedule (now : Time) (t : TenantRow) : CtlProg Bool :=
  match t.schedule, t.hostId with
  | some s, some host =>
    if scheduleShouldRun cfg s now = true ∧ t.status = .stopped then
      scheduleAction t host (.launchVm t.id (t.vmNum.getD 1) t.vcpu t.memMb "" "" []) .running
    else if scheduleShouldRun cfg s now = false ∧ t.status = .running then
      scheduleAction t host (.stopVm t.id (t.vmNum.getD 1)) .stopped
    else pure true
  | _, _ => pure true

/-- The loop of `_reconcile_schedules`. -/
def reconcileAll (now : Time) : List TenantRow → CtlProg Bool
  | [] => pure true
  | t :: ts => do
    let ok ← reconcileSchedule cfg now t
    if ok then reconcileAll now ts else pure false

/-- `_reconcile_schedules`. -/
def reconcileSchedules : CtlProg Bool := do
  let items ← req (.scanTenants .all)
  let now ← req .now
  reconcileAll cfg now items

/-! ## Hosts -/

/-- One host of the handler's loop. Whether an idle host is terminated is up to the ASG; nothing is written for it. -/
def reconcileHost (now : Time) (h : HostRow) : CtlProg Bool :=
  if 0 < h.vmCount.getD 0 then
    if h.status = some .idle then do
      let r ← req (.updHost h.instanceId (.status .active))
      pure r.isSome
    else pure true
  else if h.status = some .active then
    match h.idleSince with
    | none => do
      let r ← req (.updHost h.instanceId (.idleSince now))
      pure r.isSome
    | some since =>
      if minutes cfg.idleTimeoutMinutes ≤ now - since then do
        let r ← req (.updHost h.instanceId (.status .idle))
        pure r.isSome
      else pure true
  else pure true

/-- The handler's loop over the hosts. -/
def reconcileHosts (now : Time) : List HostRow → CtlProg Bool
  | [] => pure true
  | h :: hs => do
    let ok ← reconcileHost cfg now h
    if ok then reconcileHosts now hs else pure false

/-- `lambda_handler` of the scaler. -/
def scalerTick : CtlProg Bool := do
  processTtlExpirations
  let ok ← reconcileSchedules cfg
  if ok then do
    let now ← req .now
    let hosts ← req (.scanHosts .notDeleted)
    reconcileHosts cfg now hosts
  else pure false

end OpenClaw
