import OpenClaw.Control.Placement
import OpenClaw.Control.Routing

/-!
# Creating tenants

`create_tenant` and `process_pending`. A request is taken after the validators of `domains/common.py`, so every
field of `CreateRequest` is well formed; the checks on the quota, the clone source and the preferred host are part of
the program. Programs of the API return the HTTP status, 500 for an exception nobody catches.
-/

namespace OpenClaw

open Atomic

variable (cfg : Config)

abbrev Resp := Nat

structure CreateRequest where
  name : String
  vcpu : Int
  memMb : Int
  dataDiskMb : Int
  configTemplate : String := ""
  /-- `restore_from`: a tenant and perhaps the timestamp of one of its backups. -/
  restoreFrom : Option (TenantId × Option String) := none
  cloneFrom : Option TenantId := none
  preferredHostId : HostId := ""
  skills : Option (List String) := none
  group : Option String := none
  tags : List (String × String) := []
  schedule : Option Schedule := none
  expiresAt : Option Time := none
  onExpiry : Option OnExpiry := none

/-- `_check_quota`: `true` when the size is over the quota; a maximum of `0` is no maximum. -/
def overQuota (vcpu memMb dataDiskMb : Int) : Bool :=
  cfg.quotasEnabled && ((cfg.quotasMaxVcpu ≠ 0 && cfg.quotasMaxVcpu < vcpu) ||
    (cfg.quotasMaxMemMb ≠ 0 && cfg.quotasMaxMemMb < memMb) ||
    (cfg.quotasMaxDataDiskMb ≠ 0 && cfg.quotasMaxDataDiskMb < dataDiskMb))

def guestIpOf (vmNum : Int) : String := cfg.vmSubnetPrefix ++ "." ++ toString vmNum ++ ".2"

def hostPortOf (vmNum : Int) : Int := cfg.vmPortBase + vmNum - 1

/-- `sorted(set(names))` without the empty name. -/
def sortedNames (names : List String) : List String :=
  (names.filter (· ≠ "")).dedup.insertionSort (· ≤ ·)

/-- `_resolve_effective_skills`: the tenant's own skills and those of its group; `[]` is broadcast. -/
def resolveEffectiveSkills (t : TenantRow) : CtlProg (List String) :=
  match t.group with
  | none => pure (sortedNames (t.skills.getD []))
  | some g => do
    let gs ← req (.groupSkills g)
    pure (sortedNames (t.skills.getD [] ++ gs))

/-- `_launch_vm`: fire and forget. -/
def launchVm (host : HostId) (tid : TenantId) (vmNum vcpu memMb : Int) (guestIp : String) (hostPort : Int)
    (template restoreKey : String) (skills : List String) : CtlProg Unit := do
  let _ ← req (.ssmSend (some host)
    (.and (.launchVm tid vmNum vcpu memMb template restoreKey skills) (.dnatAdd (some hostPort) (some guestIp))))
  pure ()

/-- The tail of both paths that create a tenant on a host. -/
def routeTenant (host : HostRow) (tid : TenantId) : CtlProg Bool :=
  match host.privateIp with
  | none => pure false
  | some ip => do
    let tg ← ensureHostTg cfg host.instanceId ip
    match tg with
    | none => pure false
    | some tg => addAlbRule cfg tid tg

/-! ## create_tenant -/

/-- A request that ends early is not answered with 201. -/
abbrev Refuses {β : Type} (b : Resp ⊕ β) : Prop := ∀ code, b = .inl code → code ≠ 201

theorem refuses_inr {β : Type} (b : β) : Refuses (.inr b) := by
  intro code he
  cases he

theorem refuses_inl {β : Type} {code : Resp} (h : code ≠ 201) : Refuses (.inl code : Resp ⊕ β) := by
  intro code' he
  cases he
  exact h

/-- The row of a tenant that waits for capacity. -/
def pendingRow (r : CreateRequest) (tid : TenantId) (restoreKey : String) (now : Time) : TenantRow where
  id := tid
  name := r.name
  vcpu := r.vcpu
  memMb := r.memMb
  status := .pending
  configTemplate := r.configTemplate
  restoreBackupKey := restoreKey
  tags := r.tags
  createdAt := some now
  updatedAt := some now
  skills := r.skills
  group := r.group
  expiresAt := r.expiresAt
  onExpiry := r.onExpiry
  schedule := r.schedule

/-- The row of a tenant placed on a host. -/
def creatingRow (r : CreateRequest) (tid : TenantId) (restoreKey : String) (now : Time) (host : HostRow)
    (vmNum : Int) : TenantRow :=
  { pendingRow r tid restoreKey now with
    hostId := some host.instanceId
    vmNum := some vmNum
    guestIp := some (guestIpOf cfg vmNum)
    hostPort := some (hostPortOf cfg vmNum)
    status := .creating
    rootfsVersion := some (host.rootfsVersion.getD "")
    creationStartedAt := some now
    cloneFrom := r.cloneFrom }

/-- No host takes the tenant: save it as pending and scale out. -/
def savePending (r : CreateRequest) (tid : TenantId) (restoreKey : String) (now : Time) : CtlProg Resp := do
  let ok ← req (.putTenant (pendingRow r tid restoreKey now))
  if ok then do
    req .scaleOut
    pure 201
  else pure 500

/-- The clone source: it must exist and run. The answer on the left ends the request. -/
def cloneSource (r : CreateRequest) : CtlProg (Resp ⊕ Option TenantRow) :=
  match r.cloneFrom with
  | none => pure (.inr none)
  | some src => do
    let row ← req (.getTenant src)
    match row with
    | none => pure (.inl 404)
    | some s => pure (if s.status = .running then .inr (some s) else .inl 400)

/-- `restore_from`: the key of the backup, `""` without one. -/
def restoreKeyOf (r : CreateRequest) : CtlProg (Resp ⊕ String) :=
  match r.restoreFrom with
  | none => pure (.inr "")
  | some (src, ts) =>
    if src = "" then pure (.inl 400)
    else do
      let key ← req (.resolveBackup src ts)
      match key with
      | none => pure (.inl 404)
      | some k => pure (.inr k)

/-- The hosts a reservation is tried on: the source's host for a clone, the preferred host, or the ranking. -/
def candidateHosts (r : CreateRequest) (src : Option TenantRow) : CtlProg (Resp ⊕ List HostRow) :=
  match src with
  | some s =>
    match s.hostId with
    | none => pure (.inl 500)
    | some h => do
      let host ← getSpecificHostWithCapacity cfg h r.vcpu r.memMb
      pure (match host with
        | none => .inl 400
        | some host => .inr [host])
  | none =>
    if r.preferredHostId ≠ "" then do
      let host ← getSpecificHostWithCapacity cfg r.preferredHostId r.vcpu r.memMb
      match host with
      | some host => pure (.inr [host])
      | none => do
        -- Read again only to tell a missing host from a full one.
        let existing ← req (.getHost r.preferredHostId)
        match existing with
        | none => pure (.inl 404)
        | some e => pure (.inl (if e.status = some .deleted ∨ e.status = some .draining then 404 else 400))
    else do
      let hosts ← pickHostsForCreate cfg r.vcpu r.memMb
      pure (.inr (hosts.take (atLeastOne cfg.hostReserveAttempts)))

/-- Launch and route the tenant that was written as `row`. -/
def launchCreated (r : CreateRequest) (row : TenantRow) (host : HostRow) (vmNum : Int) : CtlProg Resp := do
  let skills ← resolveEffectiveSkills row
  launchVm host.instanceId row.id vmNum r.vcpu r.memMb (guestIpOf cfg vmNum) (hostPortOf cfg vmNum) r.configTemplate
    row.restoreBackupKey skills
  let ok ← routeTenant cfg host row.id
  pure (if ok then 201 else 500)

/-- The clone's disks could not be copied: undo the reservation and delete the row. -/
def cloneRollback (r : CreateRequest) (tid : TenantId) (host : HostId) : CtlProg Resp := do
  let ok ← releaseHostSlot host r.vcpu r.memMb
  if ok then do
    let ok ← req (.updTenant tid (.status .deleted))
    pure (if ok then 502 else 500)
  else pure 500

/-- `create_tenant` from the reservation on. -/
def createOn (r : CreateRequest) (src : Option TenantRow) (tid : TenantId) (restoreKey : String) (now : Time)
    (host : HostRow) (vmNum : Int) : CtlProg Resp := do
  let ok ← req (.putTenant (creatingRow cfg r tid restoreKey now host vmNum))
  if ok then
    match src with
    | none => launchCreated cfg r (creatingRow cfg r tid restoreKey now host vmNum) host vmNum
    | some s => do
      let ok ← req (.ssmRun host.instanceId (.cloneData s.id (s.vmNum.getD 1) tid vmNum))
      if ok then launchCreated cfg r (creatingRow cfg r tid restoreKey now host vmNum) host vmNum
      else cloneRollback r tid host.instanceId
  else pure 500

/-- `create_tenant` from the choice of a host on. -/
def createPlaced (r : CreateRequest) (src : Option TenantRow) (restoreKey : String) : CtlProg Resp := do
  let tid ← req (.genId r.name)
  let now ← req .now
  let hosts ← candidateHosts cfg r src
  match hosts with
  | .inl code => pure code
  | .inr hosts => do
    let slot ← reserveFirst cfg r.vcpu r.memMb hosts
    match slot with
    | none => pure 500
    | some none => savePending r tid restoreKey now
    | some (some (host, vmNum)) => createOn cfg r src tid restoreKey now host vmNum

def createTenant (r : CreateRequest) : CtlProg Resp :=
  if overQuota cfg r.vcpu r.memMb r.dataDiskMb then pure 400
  else if r.cloneFrom.isSome && r.restoreFrom.isSome then pure 400
  else do
    let src ← cloneSource r
    match src with
    | .inl code => pure code
    | .inr src => do
      let key ← restoreKeyOf r
      match key with
      | .inl code => pure code
      | .inr key => createPlaced cfg r src key

/-! ## process_pending -/

/-- One pending tenant; `none` when the loop ends, because no host fits or because of an exception. -/
def assignPending (t : TenantRow) : CtlProg (Option Unit) := do
  let host ← findHost cfg t.vcpu t.memMb
  match host with
  | none => pure none
  | some host => do
    -- The number is the one the scan returned, not one taken from the row.
    let vmNum := host.nextVmNum.getD 1
    let now ← req .now
    let ok ← req (.updTenant t.id (.assign host.instanceId vmNum (guestIpOf cfg vmNum) (hostPortOf cfg vmNum)
      (host.rootfsVersion.getD "") now))
    if ok then do
      let h ← req (.updHost host.instanceId (.book t.vcpu t.memMb (vmNum + 1)))
      match h with
      | none => pure none
      | some _ => do
        let skills ← resolveEffectiveSkills t
        launchVm host.instanceId t.id vmNum t.vcpu t.memMb (guestIpOf cfg vmNum) (hostPortOf cfg vmNum)
          t.configTemplate t.restoreBackupKey skills
        let ok ← routeTenant cfg host t.id
        pure (if ok then some () else none)
    else pure none

/-- The loop of `process_pending`. -/
def assignAll : List TenantRow → CtlProg Unit
  | [] => pure ()
  | t :: ts => do
    let r ← assignPending cfg t
    match r with
    | none => pure ()
    | some _ => assignAll ts

/-- Oldest first; an absent `created_at` sorts as `""`, before every timestamp. -/
def createdLe (a b : TenantRow) : Bool :=
  match a.createdAt, b.createdAt with
  | none, _ => true
  | some _, none => false
  | some x, some y => x ≤ y

def processPending : CtlProg Unit := do
  let pending ← req (.scanTenants (.status .pending))
  assignAll cfg (pending.insertionSort fun a b => createdLe a b)

end OpenClaw
