import OpenClaw.Control.Frame
import OpenClaw.Fleet.Network
import OpenClaw.Fleet.Updates

/-!
# Runs of a fleet

The programs of the control plane and the scripts on the hosts, interleaved: what SSM accepts becomes a script on its host,
and a script may end at any point.

A seat is a number of a host together with the tenant that has it. Every call uses the seats of the rows it writes and of
the commands it sends (`Call.seats`).
-/

namespace OpenClaw

open Keyed Atomic

structure Estate where
  ctl : World
  net : FleetNet := {}

/-- The control plane, with SSM handing over what it accepts. -/
def fleet : Sem Ctl Estate where
  step c r f f' := World.step c r f.ctl f'.ctl ∧ f'.net = f.net.accept (f'.ctl.cmds.drop f.ctl.cmds.length)

inductive FleetJob
  | create (r : CreateRequest)
  | pending
  | action (tid : TenantId) (a : TenantAction)
  | delete (tid : TenantId) (keepData : Bool)
  | drain (host : HostId)
  | sweep (now : Time)
  | failover (force : List Az)
  | stuckFailovers (now : Time)
  | worker (job : FailoverJob) (now : Time)
  | scaler
  /-- Something happens on a host. -/
  | host (e : HostEvent)

/-- The message that a worker is started with. -/
def FleetJob.message : FleetJob → Option FailoverJob
  | .worker job _ => some job
  | _ => none

section Runs

variable (cfg : Config) (env : AddressEnv)

def fleetBody : FleetJob → CtlProg Unit
  | .create r => do
    let _ ← createTenant cfg r
    pure ()
  | .pending => processPending cfg
  | .action tid a => do
    let _ ← tenantAction cfg tid a
    pure ()
  | .delete tid keepData => do
    let _ ← deleteTenant cfg tid keepData
    pure ()
  | .drain host => do
    let _ ← drainHost cfg host
    pure ()
  | .sweep now => migrationSweep cfg now
  | .failover force => azFailover cfg force
  | .stuckFailovers now => sweepStuckFailovers cfg now
  | .worker job now => processRecord cfg job now
  | .scaler => do
    let _ ← scalerTick cfg
    pure ()
  | .host _ => pure ()

/-- A worker is started with a message of the queue, which may be delivered again. -/
def fleetJobs : Jobs Ctl Estate FleetJob Unit where
  body := fleetBody cfg
  start
    | .host e, f, f' => f'.ctl = f.ctl ∧ f.net.event env e = some f'.net
    | .worker job _, f, f' => f' = f ∧ job ∈ f.ctl.queue
    | _, f, f' => f' = f

end Runs

/-! ## Rows and commands -/

/-- The row that an answered call wrote. -/
def World.wrote (w : World) : (c : Call) → c.Ans → Option TenantRow
  | .putTenant t, ok => if ok then some t else none
  | .updTenant id u, ok => if ok then (w.tenants.get id).map u.apply else none
  | .condTenant id _ u, r => if r = .done then (w.tenants.get id).map u.apply else none
  | _, _ => none

/-- The command that a call sends to a host. -/
def Call.sends : Call → Option (HostId × HostCmd)
  | .ssmSend (some h) cmd => some (h, cmd)
  | .ssmRun h cmd => some (h, cmd)
  | _ => none

/-! ## Seats -/

/-- A number of a host, and its tenant. -/
structure Seat where
  host : HostId
  tenant : TenantId
  num : Int
deriving DecidableEq

/-- Where the row says that the tenant is. -/
def TenantRow.seats (t : TenantRow) : List Seat := (t.hostId.map fun h => ⟨h, t.id, t.vmNum.getD 1⟩).toList

def HostCmd.seats (h : HostId) (cmd : HostCmd) : List Seat := cmd.numbers.map fun x => ⟨h, x.1, x.2⟩

def FailoverJob.seat (j : FailoverJob) : Seat := ⟨j.targetHostId, j.tenantId, j.targetVmNum⟩

/-- The seats that the call uses. -/
def Call.seats : Call → List Seat
  | .putTenant t => t.seats
  | .updTenant tid u => (u.movesTo.map fun x => ⟨x.1, tid, x.2⟩).toList
  | .ssmSend (some h) cmd | .ssmRun h cmd => cmd.seats h
  | _ => []

end OpenClaw
