import OpenClaw.Control.Execute
import OpenClaw.Host.Address

/-!
# The network of a fleet

The taps and the guests of all hosts, and what the scripts do to them statement by statement (`NetAct`). A command that
SSM has accepted is a list of such statements on its host (`HostCmd.acts`); the statements of several scripts may
alternate in any order, and a script may end at any point.
-/

namespace OpenClaw

open Keyed

/-! ## Hosts -/

/-- A Firecracker VM: the socket's tenant, the number of its tap and the address it was booted with. -/
structure NetVm where
  tenant : TenantId
  tap : Int
  ip : String
deriving DecidableEq

/-- The network fields of `vm.json`. -/
structure NetJson where
  vmNum : Int
  guestIp : String

structure HostNet where
  vms : List NetVm := []
  /-- The numbers of the taps. -/
  taps : List Int := []
  json : TenantId → Option NetJson := fun _ => none

/-- No VM of the tenant runs on the host. -/
def HostNet.idle (x : HostNet) (tid : TenantId) : Prop := ∀ v ∈ x.vms, v.tenant ≠ tid

instance (x : HostNet) (tid : TenantId) : Decidable (x.idle tid) := by
  unfold HostNet.idle
  infer_instance

/-- `pkill` on the tenant's socket. -/
def HostNet.kill (x : HostNet) (tid : TenantId) : HostNet := { x with vms := x.vms.filter fun v => v.tenant ≠ tid }

/-- `ip link del tap-vm<n>`. -/
def HostNet.delTap (x : HostNet) (n : Int) : HostNet := { x with taps := x.taps.filter fun k => k ≠ n }

def HostNet.addTap (x : HostNet) (n : Int) : HostNet := { x with taps := n :: x.taps }

def HostNet.setJson (x : HostNet) (tid : TenantId) (j : Option NetJson) : HostNet :=
  { x with json := Function.update x.json tid j }

def HostNet.addVm (x : HostNet) (v : NetVm) : HostNet := { x with vms := x.vms ++ [v] }

/-! ## Statements -/

inductive NetAct
  /-- `launch-vm.sh` to its cleanup: `vm.json`, `pkill`, `ip link del`. -/
  | prepare (tid : TenantId) (vmNum : Int)
  /-- `launch-vm.sh` from `ip tuntap add` to `InstanceStart`. -/
  | boot (tid : TenantId) (vmNum : Int)
  /-- `stop-vm.sh`: `pkill`. -/
  | kill (tid : TenantId)
  /-- `stop-vm.sh`: `ip link del`. -/
  | linkDel (tid : TenantId) (vmNum : Int)
  /-- `migrate-vm.sh snapshot`: create and ship the snapshot. -/
  | snapshot (tid : TenantId) (uri : String)
  | shipJson (tid : TenantId) (uri : String)
  /-- Fetch `vm.json`; `cold-restore` goes on without it. -/
  | fetchJson (tid : TenantId) (uri : String) (needed : Bool)
  /-- `migrate-vm.sh restore <tid> <vm_num>`: `ip link del` and `ip tuntap add`, for the number in `vm.json` and not for
  `vm_num`. -/
  | delSrcTap (tid : TenantId) (vmNum : Int)
  | addSrcTap (tid : TenantId) (vmNum : Int)
  /-- `/snapshot/load`, which goes on with the tap of the snapshot. -/
  | load (tid : TenantId) (vmNum : Int) (uri : String)
  | rmJson (tid : TenantId)
deriving DecidableEq

/-- `launch-vm.sh`. -/
def launchActs (tid : TenantId) (vmNum : Int) : List NetAct := [.prepare tid vmNum, .boot tid vmNum]

/-- `stop-vm.sh`. -/
def stopActs (tid : TenantId) (vmNum : Int) : List NetAct := [.kill tid, .linkDel tid vmNum]

/-- `migrate-vm.sh`. -/
def MigrateVerb.acts (tid : TenantId) (vmNum : Int) (uri : String) : MigrateVerb → List NetAct
  | .snapshot => [.snapshot tid uri, .shipJson tid uri]
  | .restore => [.fetchJson tid uri true, .delSrcTap tid vmNum, .addSrcTap tid vmNum, .load tid vmNum uri]
  | .coldDump => stopActs tid vmNum ++ [.shipJson tid uri]
  | .coldRestore => .fetchJson tid uri false :: launchActs tid vmNum

/-- What a command does to the network of its host. -/
def HostCmd.acts : HostCmd → List NetAct
  | .launchVm tid n _ _ _ _ _ => launchActs tid n
  | .stopVm tid n => stopActs tid n
  | .migrateVm verb tid n uri => verb.acts tid n uri
  | .removeVmJson tid => [.rmJson tid]
  | .removeVmDir tid => [.rmJson tid]
  | .and a b => a.acts ++ b.acts
  | .seq a b => a.acts ++ b.acts
  | _ => []

/-- The tenant and the number that a statement is given. -/
def NetAct.number : NetAct → Option (TenantId × Int)
  | .prepare tid n | .boot tid n | .linkDel tid n | .delSrcTap tid n | .addSrcTap tid n | .load tid n _ => some (tid, n)
  | _ => none

def HostCmd.numbers (cmd : HostCmd) : List (TenantId × Int) := cmd.acts.filterMap NetAct.number

/-! ## The fleet -/

structure FleetNet where
  host : HostId → HostNet := fun _ => {}
  /-- The snapshots in S3. -/
  snaps : String → Option NetVm := fun _ => none
  /-- The `vm.json` files in S3. -/
  shipped : String → Option NetJson := fun _ => none
  /-- The scripts at work: the host and the statements that are left. -/
  todo : List (HostId × List NetAct) := []

def FleetNet.upd (f : FleetNet) (h : HostId) (g : HostNet → HostNet) : FleetNet :=
  { f with host := Function.update f.host h (g (f.host h)) }

/-- Start a script. -/
def FleetNet.fork (f : FleetNet) (h : HostId) (acts : List NetAct) : FleetNet := { f with todo := f.todo ++ [(h, acts)] }

/-- SSM hands the commands to their hosts. -/
def FleetNet.accept (f : FleetNet) (cmds : List SsmCommand) : FleetNet :=
  { f with todo := f.todo ++ cmds.map fun c => (c.host, c.cmd.acts) }

section Frame

variable {f : FleetNet} {h h' : HostId} {g : HostNet → HostNet}

@[simp] theorem FleetNet.upd_todo : (f.upd h g).todo = f.todo := rfl
@[simp] theorem FleetNet.upd_snaps : (f.upd h g).snaps = f.snaps := rfl
@[simp] theorem FleetNet.upd_self : (f.upd h g).host h = g (f.host h) := Function.update_self ..

theorem FleetNet.upd_of_ne (hne : h' ≠ h) : (f.upd h g).host h' = f.host h' := Function.update_of_ne hne ..

end Frame

variable (env : AddressEnv)

/-- One statement on a host; `none` when it fails. -/
def NetAct.exec (h : HostId) (f : FleetNet) : NetAct → Option FleetNet
  | .prepare tid n => (env.guestIp n).map fun ip =>
    f.upd h fun x => ((x.setJson tid (some ⟨n, ip⟩)).kill tid).delTap n
  | .boot tid n => (env.guestIp n).map fun ip => f.upd h fun x => (x.addTap n).addVm ⟨tid, n, ip⟩
  | .kill tid => some (f.upd h fun x => x.kill tid)
  | .linkDel _ n => some (f.upd h fun x => x.delTap n)
  | .snapshot tid uri => ((f.host h).vms.find? fun v => v.tenant = tid).map fun v =>
    { f with snaps := Function.update f.snaps uri (some v) }
  | .shipJson tid uri => some { f with shipped := Function.update f.shipped uri ((f.host h).json tid) }
  | .fetchJson tid uri needed =>
    match f.shipped uri with
    | some j => some (f.upd h fun x => x.setJson tid (some j))
    | none => if needed then none else some f
  | .delSrcTap tid _ => ((f.host h).json tid).map fun j => f.upd h fun x => x.delTap j.vmNum
  | .addSrcTap tid _ => ((f.host h).json tid).map fun j => f.upd h fun x => x.addTap j.vmNum
  | .load tid _ uri => (f.snaps uri).bind fun v =>
    if v.tap ∈ (f.host h).taps then some (f.upd h fun x => x.addVm { v with tenant := tid }) else none
  | .rmJson tid => some (f.upd h fun x => x.setJson tid none)

/-- What happens on the hosts. -/
inductive HostEvent
  /-- The next statement of a script. -/
  | exec (i : Nat)
  /-- A script ends early. -/
  | abort (i : Nat)
  /-- The `ERR` trap of `launch-vm.sh`: `ip link del`. -/
  | trap (i : Nat)
  /-- The agent runs `launch-vm.sh` with the number in `vm.json`, `force` with `stop-vm.sh` before it. -/
  | recover (h : HostId) (tid : TenantId) (force : Bool)
  /-- The Firecracker of a tenant dies. -/
  | crash (h : HostId) (tid : TenantId)

/-- The network after an event; `none` when it cannot happen. -/
def FleetNet.event (f : FleetNet) : HostEvent → Option FleetNet
  | .exec i =>
    match f.todo[i]? with
    | some (h, a :: rest) => (a.exec env h f).map fun f' => { f' with todo := f'.todo.set i (h, rest) }
    | _ => none
  | .abort i => some { f with todo := f.todo.eraseIdx i }
  | .trap i =>
    match f.todo[i]? with
    | some (h, .prepare _ n :: _) | some (h, .boot _ n :: _) =>
      some { f.upd h fun x => x.delTap n with todo := f.todo.eraseIdx i }
    | _ => none
  | .recover h tid force =>
    match (f.host h).json tid with
    | some j =>
      if force then some (f.fork h (stopActs tid j.vmNum ++ launchActs tid j.vmNum))
      else if (f.host h).idle tid then some (f.fork h (launchActs tid j.vmNum))
      else none
    | none => none
  | .crash h tid => some (f.upd h fun x => x.kill tid)

/-- The tap that the next statement of a `restore` deletes. -/
def FleetNet.restoreDeletes (f : FleetNet) : HostEvent → Option (HostId × Int)
  | .exec i =>
    match f.todo[i]? with
    | some (h, .delSrcTap tid _ :: _) => ((f.host h).json tid).map fun j => (h, j.vmNum)
    | _ => none
  | _ => none

end OpenClaw
