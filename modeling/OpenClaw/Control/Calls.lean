import OpenClaw.Control.Rows
import OpenClaw.Lib.Prog

/-!
# The calls of the control plane

The Lambdas work on DynamoDB, SSM, SQS, the load balancer and the clock through the calls below (`Call`), and each call
is atomic. `World.step` says which answers a call can get in a world and which world it leaves: table reads and
conditional writes are determined by the world, the outcome of a network request is open. A write answered `failed`
raised an exception and wrote nothing; a Lambda whose read raises, or that is killed, makes no further call.
-/

namespace OpenClaw

open Keyed Atomic

/-! ## Shell commands sent through SSM -/

inductive MigrateVerb
  | snapshot
  | restore
  | coldDump
  | coldRestore
deriving DecidableEq

inductive HostCmd
  /-- `launch-vm.sh <tid> <vm_num> <vcpu> <mem_mb> [template] [restore_key] [skills]`. -/
  | launchVm (tid : TenantId) (vmNum vcpu memMb : Int) (template restoreKey : String) (skills : List String)
  | stopVm (tid : TenantId) (vmNum : Int)
  /-- `migrate-vm.sh <verb> <tid> <vm_num> <uri>`. -/
  | migrateVm (verb : MigrateVerb) (tid : TenantId) (vmNum : Int) (uri : String)
  | cloneData (src : TenantId) (srcNum : Int) (tid : TenantId) (vmNum : Int)
  | resizeDisk (tid : TenantId) (vmNum sizeMb : Int)
  /-- The Firecracker API: `PATCH /machine-config`. -/
  | machineConfig (tid : TenantId) (vcpu memMb : Int)
  /-- The Firecracker API: `PATCH /vm`. -/
  | vmState (tid : TenantId) (paused : Bool)
  | removeVmJson (tid : TenantId)
  | removeOverlay (tid : TenantId)
  | removeVmDir (tid : TenantId)
  | dnatAdd (hostPort : Option Int) (guestIp : Option String)
  | dnatDel (hostPort : Option Int) (guestIp : Option String)
  | removePeerConf (tid : TenantId)
  | removeTenantConf (tid : TenantId)
  | sleep (sec : Nat)
  /-- `a && b`. -/
  | and (a b : HostCmd)
  /-- `a ; b`. -/
  | seq (a b : HostCmd)
deriving DecidableEq

structure SsmCommand where
  id : CommandId
  host : HostId
  cmd : HostCmd

/-! ## Load balancer -/

abbrev TgArn := Nat
abbrev RuleArn := Nat

structure RuleCondition where
  field : String
  values : List String
deriving DecidableEq

structure Rule where
  arn : RuleArn
  /-- `none` is the `"default"` rule. -/
  priority : Option Nat
  conditions : List RuleCondition
  actions : List TgArn
deriving DecidableEq

structure TargetGroup where
  name : String
  arn : TgArn
  targets : List String := []

/-- `create_target_group` answers with the group of that name when there is one. -/
def withTg (tgs : List TargetGroup) (name : String) (a : TgArn) : List TargetGroup :=
  if tgs.any fun g => g.name = name then tgs else tgs ++ [{ name := name, arn := a }]

theorem withTg_new {tgs : List TargetGroup} {name : String} {a : TgArn} (h : ∀ g ∈ tgs, g.name ≠ name) :
    withTg tgs name a = tgs ++ [{ name := name, arn := a }] := by
  rw [withTg, if_neg]
  simpa using h

theorem withTg_old {tgs : List TargetGroup} {name : String} {a : TgArn} (h : ∃ g ∈ tgs, g.name = name) :
    withTg tgs name a = tgs := by
  rw [withTg, if_pos]
  simpa using h

/-- The last eight characters name a host's target group. -/
def hostTgName (h : HostId) : String := "oc-" ++ String.ofList (h.toList.drop (h.toList.length - 8))

/-- The path-pattern condition of a tenant's rule. -/
def pathPattern (tid : TenantId) : RuleCondition :=
  ⟨"path-pattern", ["/vm/" ++ tid, "/vm/" ++ tid ++ "/*"]⟩

/-- Python's `sub in s` on strings. -/
def hasSub (sub s : String) : Bool := decide (sub.toList <:+: s.toList)

inductive CreateRuleAns
  | created
  | priorityInUse
  | error
deriving DecidableEq

/-! ## Failover queue -/

structure FailoverJob where
  tenantId : TenantId
  sourceAz : Az
  sourceHostId : Option HostId
  targetHostId : HostId
  targetVmNum : Int
  backupKey : String
  queuedAt : Time
deriving DecidableEq

/-! ## Scans and conditions -/

inductive TenantFilter
  | all
  | status (s : TenantStatus)
  /-- `host_id = :h AND status = :r`. -/
  | hostRunning (h : HostId)
  /-- `host_id = :h AND status <> :d`. -/
  | hostNotDeleted (h : HostId)
  /-- `status = :q OR status = :r`, the two states of a failover under way. -/
  | inFailover
  /-- `attribute_exists(expires_at)`. -/
  | expires
  /-- `status IN (running, failover_queued, failover_recovering)`. -/
  | routable

def TenantFilter.holds : TenantFilter → TenantRow → Bool
  | .all, _ => true
  | .status s, t => t.status = s
  | .hostRunning h, t => t.hostId = some h && t.status = .running
  | .hostNotDeleted h, t => t.hostId = some h && t.status ≠ .deleted
  | .inFailover, t => t.status = .failoverQueued || t.status = .failoverRecovering
  | .expires, t => t.expiresAt.isSome
  | .routable, t => t.status = .running || t.status = .failoverQueued || t.status = .failoverRecovering

inductive HostFilter
  | all
  | notDeleted
  /-- `status IN (active, idle)`. -/
  | activeOrIdle

def HostFilter.holds : HostFilter → HostRow → Bool
  | .all, _ => true
  | .notDeleted, h => h.status ≠ some .deleted
  | .activeOrIdle, h => h.status = some .active || h.status = some .idle

/-- The conditions of conditional tenant updates. -/
inductive TenantCond
  /-- `host_id = :p`. -/
  | hostIs (h : Option HostId)
  /-- `host_id = :p AND status = running`. -/
  | hostIsRunning (h : Option HostId)
  /-- `status = failover_queued OR status = failover_recovering`. -/
  | inFailover

/-- A row without `host_id` fails any comparison with it. -/
def TenantCond.holds : TenantCond → TenantRow → Bool
  | .hostIs h, t => t.hostId.isSome && t.hostId = h
  | .hostIsRunning h, t => t.hostId.isSome && t.hostId = h && t.status = .running
  | .inFailover, t => t.status = .failoverQueued || t.status = .failoverRecovering

/-! ## Calls and answers -/

/-- The outcome of a conditional write. -/
inductive CondAns
  | done
  /-- `ConditionalCheckFailedException`. -/
  | refused
  | failed
deriving DecidableEq

/-- The outcome of the reserving update, with the new `next_vm_num`. -/
inductive ReserveAns
  | next (n : Int)
  | refused
  | failed
deriving DecidableEq

inductive Call
  -- DynamoDB
  | getTenant (id : TenantId)
  | scanTenants (f : TenantFilter)
  | putTenant (t : TenantRow)
  | updTenant (id : TenantId) (u : TenantUpdate)
  | condTenant (id : TenantId) (c : TenantCond) (u : TenantUpdate)
  | getHost (id : HostId)
  | scanHosts (f : HostFilter)
  | putHost (h : HostRow)
  | updHost (id : HostId) (u : HostUpdate)
  /-- `_reserve_host_slot`'s conditional update, `ReturnValues=UPDATED_NEW`. -/
  | reserveHost (id : HostId) (c : ReserveCond) (v m : Int)
  /-- `SET next_vm_num = :nn` if absent or smaller. -/
  | raiseNext (id : HostId) (n : Int)
  /-- `SET next_vm_num = if_not_exists(next_vm_num, 1) + 1`, `ReturnValues=UPDATED_OLD`. -/
  | incNext (id : HostId)
  | deleteHost (id : HostId)
  | groupSkills (group : String)
  -- SSM and the probes made through it
  | ssmSend (h : Option HostId) (cmd : HostCmd)
  | ssmRun (h : HostId) (cmd : HostCmd)
  | ssmPoll (id : CommandId) (h : Option HostId)
  | ssmWait (id : CommandId) (h : HostId)
  | verifyVm (h : HostId) (tid : TenantId)
  | verifyDashboard (tid : TenantId)
  -- S3, SQS, autoscaling
  | latestBackup (tid : TenantId)
  | resolveBackup (src : TenantId) (timestamp : Option String)
  | sqsSend (job : FailoverJob)
  | scaleOut
  -- Elastic Load Balancing
  | describeTg (name : String)
  | createTg (name : String)
  | registerTargets (arn : TgArn) (ip : String)
  | deleteTg (arn : TgArn)
  | describeRules
  | createRule (priority : Nat) (conditions : List RuleCondition) (tg : TgArn)
  | modifyRule (arn : RuleArn) (tg : TgArn)
  | deleteRule (arn : RuleArn)
  -- clock and randomness
  | now
  | genId (name : String)
  | shuffle (hs : List HostRow)
  | choice (ps : List Nat)

/-- What each call answers; `Bool` is whether a request went through, `none` that it raised or found nothing. -/
abbrev Call.Ans : Call → Type
  | .getTenant _ => Option TenantRow
  | .scanTenants _ => List TenantRow
  | .putTenant _ => Bool
  | .updTenant _ _ => Bool
  | .condTenant _ _ _ => CondAns
  | .getHost _ => Option HostRow
  | .scanHosts _ => List HostRow
  | .putHost _ => Bool
  | .updHost _ _ => Option HostRow
  | .reserveHost _ _ _ _ => ReserveAns
  | .raiseNext _ _ => CondAns
  | .incNext _ => Option (Option Int)
  | .deleteHost _ => Bool
  | .groupSkills _ => List String
  | .ssmSend _ _ => Option CommandId
  | .ssmRun _ _ => Bool
  | .ssmPoll _ _ => Bool × Bool
  | .ssmWait _ _ => Bool
  | .verifyVm _ _ => Bool
  | .verifyDashboard _ => Bool
  | .latestBackup _ => Option String
  | .resolveBackup _ _ => Option String
  | .sqsSend _ => Bool
  | .scaleOut => Unit
  | .describeTg _ => Option TgArn
  | .createTg _ => Option TgArn
  | .registerTargets _ _ => Bool
  | .deleteTg _ => Bool
  | .describeRules => Option (List Rule)
  | .createRule _ _ _ => CreateRuleAns
  | .modifyRule _ _ => Bool
  | .deleteRule _ => Bool
  | .now => Time
  | .genId _ => TenantId
  | .shuffle _ => List HostRow
  | .choice _ => Nat

/-- The calls of the control plane as a signature. -/
abbrev Ctl : Sig := ⟨Call, Call.Ans⟩

abbrev CtlProg := Prog Ctl

/-- Make a call. -/
abbrev req (c : Call) : CtlProg c.Ans := @Prog.lift Ctl c

@[simp] theorem req_bind {β : Type} (c : Call) (f : c.Ans → CtlProg β) :
    @Bind.bind CtlProg _ (no_index c.Ans) β (req c) f = @Prog.call Ctl β c f := rfl

/-! ## The world -/

structure World where
  tenants : TenantsTable
  hosts : HostsTable
  /-- The SSM commands accepted so far. -/
  cmds : List SsmCommand := []
  /-- The failover messages sent so far; a message may be delivered more than once. -/
  queue : List FailoverJob := []
  rules : List Rule := []
  tgs : List TargetGroup := []
  clock : Time := 0

namespace World

def putTenant (w : World) (t : TenantRow) : World := { w with tenants := w.tenants.put t }

def putHost (w : World) (h : HostRow) : World := { w with hosts := w.hosts.put h }

def eraseHost (w : World) (id : HostId) : World := { w with hosts := w.hosts.erase id }

/-- The row a hosts-table update reads. -/
def hostRow (w : World) (id : HostId) : HostRow := HostRow.orNew id (w.hosts.get id)

theorem hostRow_id (w : World) (id : HostId) : (w.hostRow id).instanceId = id := by
  unfold hostRow HostRow.orNew
  cases hg : w.hosts.get id with
  | none => rfl
  | some x => exact Table.key_of_get hg

/-- A command accepted by SSM. -/
def addCmd (w : World) (c : SsmCommand) : World := { w with cmds := w.cmds ++ [c] }

def enqueue (w : World) (j : FailoverJob) : World := { w with queue := w.queue ++ [j] }

def setRules (w : World) (rs : List Rule) : World := { w with rules := rs }

def setTgs (w : World) (tgs : List TargetGroup) : World := { w with tgs := tgs }

def setClock (w : World) (t : Time) : World := { w with clock := t }

section Frame

variable (w : World) (t : TenantRow) (h : HostRow) (id : HostId) (c : SsmCommand) (j : FailoverJob) (rs : List Rule)
  (tgs : List TargetGroup) (n : Time)

@[simp] theorem putTenant_hosts : (w.putTenant t).hosts = w.hosts := rfl
@[simp] theorem putHost_tenants : (w.putHost h).tenants = w.tenants := rfl
@[simp] theorem eraseHost_tenants : (w.eraseHost id).tenants = w.tenants := rfl
@[simp] theorem putTenant_tenants : (w.putTenant t).tenants = w.tenants.put t := rfl
@[simp] theorem putHost_hosts : (w.putHost h).hosts = w.hosts.put h := rfl
@[simp] theorem eraseHost_hosts : (w.eraseHost id).hosts = w.hosts.erase id := rfl
@[simp] theorem addCmd_tenants : (w.addCmd c).tenants = w.tenants := rfl
@[simp] theorem addCmd_hosts : (w.addCmd c).hosts = w.hosts := rfl
@[simp] theorem enqueue_tenants : (w.enqueue j).tenants = w.tenants := rfl
@[simp] theorem enqueue_hosts : (w.enqueue j).hosts = w.hosts := rfl
@[simp] theorem setRules_tenants : (w.setRules rs).tenants = w.tenants := rfl
@[simp] theorem setRules_hosts : (w.setRules rs).hosts = w.hosts := rfl
@[simp] theorem setTgs_tenants : (w.setTgs tgs).tenants = w.tenants := rfl
@[simp] theorem setTgs_hosts : (w.setTgs tgs).hosts = w.hosts := rfl
@[simp] theorem setClock_tenants : (w.setClock n).tenants = w.tenants := rfl
@[simp] theorem setClock_hosts : (w.setClock n).hosts = w.hosts := rfl

end Frame

/-- `hosts_table.update_item` with `u`: the row of `id` after it, or a `ValidationException`. -/
def updatedHost (w : World) (id : HostId) (u : HostUpdate) : Option HostRow := u.apply (w.hostRow id)

end World

/-- A request that may fail without an effect. -/
def sent (r : Bool) (w w₁ w' : World) : Prop := if r then w' = w₁ else w' = w

theorem sent.eq_or {r : Bool} {w w₁ w' : World} (h : sent r w w₁ w') : w' = w₁ ∨ w' = w := by
  cases r with
  | true => exact .inl h
  | false => exact .inr h

/-- The answers a call may get in `w`, and the world after it. -/
def World.step : (c : Call) → c.Ans → World → World → Prop
  | .getTenant id, r, w, w' => r = w.tenants.get id ∧ w' = w
  | .scanTenants f, r, w, w' => r.Perm (w.tenants.rows.filter f.holds) ∧ w' = w
  | .putTenant t, r, w, w' => sent r w (w.putTenant t) w'
  -- Every id that is updated was read from the table, and no row is ever removed from it.
  | .updTenant id u, r, w, w' => ∃ t, w.tenants.get id = some t ∧ sent r w (w.putTenant (u.apply t)) w'
  | .condTenant id c u, r, w, w' => ∃ t, w.tenants.get id = some t ∧
    match r with
    | .done => c.holds t = true ∧ w' = w.putTenant (u.apply t)
    | .refused => c.holds t = false ∧ w' = w
    | .failed => w' = w
  | .getHost id, r, w, w' => r = w.hosts.get id ∧ w' = w
  | .scanHosts f, r, w, w' => r.Perm (w.hosts.rows.filter f.holds) ∧ w' = w
  | .putHost h, r, w, w' => sent r w (w.putHost h) w'
  | .updHost id u, r, w, w' =>
    match r with
    | some h => w.updatedHost id u = some h ∧ w' = w.putHost h
    | none => w' = w
  | .reserveHost id c v m, r, w, w' =>
    match r with
    | .next n => ∃ h h', w.hosts.get id = some h ∧ c.holds h = true ∧ (HostUpdate.reserve v m).apply h = some h' ∧
        h'.nextVmNum = some n ∧ w' = w.putHost h'
    | .refused => (w.hosts.get id).all (fun h => !c.holds h) = true ∧ w' = w
    | .failed => w' = w
  | .raiseNext id n, r, w, w' =>
    match r with
    | .done => (w.hostRow id).nextVmNum.all (· < n) = true ∧ w' = w.putHost { w.hostRow id with nextVmNum := some n }
    | .refused => (w.hostRow id).nextVmNum.all (· < n) = false ∧ w' = w
    | .failed => w' = w
  | .incNext id, r, w, w' =>
    match r with
    | some old => old = (w.hostRow id).nextVmNum ∧ ∃ h, w.updatedHost id .incNext = some h ∧ w' = w.putHost h
    | none => w' = w
  | .deleteHost id, r, w, w' => sent r w (w.eraseHost id) w'
  | .groupSkills _, _, w, w' => w' = w
  | .ssmSend h cmd, r, w, w' =>
    match r with
    | some id => (∀ c ∈ w.cmds, c.id ≠ id) ∧ ∃ h', h = some h' ∧ w' = w.addCmd ⟨id, h', cmd⟩
    | none => w' = w
  | .ssmRun h cmd, r, w, w' =>
    (r = false ∧ w' = w) ∨ ∃ id, (∀ c ∈ w.cmds, c.id ≠ id) ∧ w' = w.addCmd ⟨id, h, cmd⟩
  | .ssmPoll _ _, _, w, w' => w' = w
  | .ssmWait _ _, _, w, w' => w' = w
  | .verifyVm _ _, _, w, w' => w' = w
  | .verifyDashboard _, _, w, w' => w' = w
  | .latestBackup _, _, w, w' => w' = w
  | .resolveBackup _ _, _, w, w' => w' = w
  | .sqsSend job, r, w, w' => sent r w (w.enqueue job) w'
  | .scaleOut, _, w, w' => w' = w
  | .describeTg name, r, w, w' => (∀ a, r = some a → ∃ g ∈ w.tgs, g.name = name ∧ g.arn = a) ∧ w' = w
  | .createTg name, r, w, w' =>
    match r with
    | some a => ((∃ g ∈ w.tgs, g.name = name ∧ g.arn = a) ∨ ∀ g ∈ w.tgs, g.name ≠ name ∧ g.arn ≠ a) ∧
        w' = w.setTgs (withTg w.tgs name a)
    | none => w' = w
  | .registerTargets a ip, r, w, w' =>
    sent r w (w.setTgs (w.tgs.map fun g => if g.arn = a then { g with targets := ip :: g.targets } else g)) w'
  | .deleteTg a, r, w, w' => sent r w (w.setTgs (w.tgs.filter fun g => g.arn ≠ a)) w'
  | .describeRules, r, w, w' => (∀ rs, r = some rs → rs.Perm w.rules) ∧ w' = w
  | .createRule p conds tg, r, w, w' =>
    match r with
    | .created => (∀ x ∈ w.rules, x.priority ≠ some p) ∧ ∃ a, (∀ x ∈ w.rules, x.arn ≠ a) ∧
        w' = w.setRules (w.rules ++ [⟨a, some p, conds, [tg]⟩])
    | .priorityInUse => (∃ x ∈ w.rules, x.priority = some p) ∧ w' = w
    | .error => w' = w
  | .modifyRule a tg, r, w, w' =>
    sent r w (w.setRules (w.rules.map fun x => if x.arn = a then { x with actions := [tg] } else x)) w'
  | .deleteRule a, r, w, w' => sent r w (w.setRules (w.rules.filter fun x => x.arn ≠ a)) w'
  | .now, r, w, w' => w.clock ≤ r ∧ w' = w.setClock r
  | .genId name, r, w, w' =>
    (∃ s : String, s.length = 4 ∧ (∀ c ∈ s.toList, c ∈ "0123456789abcdef".toList) ∧ r = name ++ "-" ++ s) ∧ w' = w
  | .shuffle hs, r, w, w' => r.Perm hs ∧ w' = w
  | .choice ps, r, w, w' => r ∈ ps ∧ w' = w

/-- The meaning of the control-plane calls. -/
def ctl : Sem Ctl World := ⟨World.step⟩

end OpenClaw
