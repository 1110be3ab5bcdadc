import OpenClaw.Host.Scripts
import OpenClaw.Lib.Interleave

/-!
# The host agent

`_probe_all` of `host-agent.py` over the directories of one host, with the two ways it starts `launch-vm.sh`:
`_recover_vm` when there is no Firecracker process, `_force_relaunch_vm` after `_NET_DEAD_THRESHOLD` polls that the guest
left unanswered.
-/

namespace OpenClaw

open Atomic

section Agent

variable (env : PlatformEnv) (h : HostId) (tid : TenantId)

/-- `_NET_DEAD_THRESHOLD`. -/
def netDeadThreshold : Nat := 3

/-- `_register_net_poll`. -/
def registerNetPoll (reachable : Bool) : ShProg Bool :=
  if reachable then do
    let _ ← sh h tid (.setNetDead 0)
    pure false
  else do
    let n ← sh h tid .netDead
    let _ ← sh h tid (.setNetDead (n + 1))
    if netDeadThreshold ≤ n + 1 then do
      let _ ← sh h tid (.setNetDead 0)
      pure true
    else pure false

/-- Fork `launch-vm.sh`; a failure is forgotten. -/
def forkLaunch (cfg : VmConfig) : ShProg Unit := do
  let ok ← sh h tid (.popen { cfg with configTemplate := "" })
  if ok then pure () else sh h tid (.setRecovering false)

/-- `_recover_vm`. -/
def recoverVm (cfg : VmConfig) : ShProg Unit := do
  let known ← sh h tid .isRecovering
  if known then pure ()
  else do
    let _ ← sh h tid (.setRecovering true)
    forkLaunch h tid cfg

/-- `_force_relaunch_vm`; `stop-vm.sh` is killed after 30 seconds, wherever it stands. -/
def forceRelaunchVm (cfg : VmConfig) : ShProg Unit := do
  let known ← sh h tid .isRecovering
  if known then pure ()
  else do
    let _ ← sh h tid (.setRecovering true)
    let ended ← (stopVmSh h tid).within ⟨h, tid, .inTime⟩ fun inTime => inTime
    if ended.isSome then forkLaunch h tid cfg else sh h tid (.setRecovering false)

/-- The probe of a VM whose Firecracker process is there. -/
def probeGuest (cfg : VmConfig) : ShProg Unit := do
  let _ ← sh h tid (.setRecovering false)
  let up ← sh h tid .ping
  let dead ← registerNetPoll h tid up
  if dead then forceRelaunchVm h tid cfg else pure ()

/-- The body of the loop of `_probe_all`. -/
def probe : ShProg Unit := do
  let cfg ← sh h tid .readVmJson
  match cfg with
  | none => pure ()
  | some cfg => do
    let stopped ← sh h tid .testStopped
    if stopped then pure ()
    else do
      let migrating ← sh h tid (.isMigrating env.sentinelTtl)
      if migrating then pure ()
      else do
        let alive ← sh h tid .pgrep
        if alive then probeGuest h tid cfg else recoverVm h tid cfg

/-- The loop of `_probe_all`. -/
def probeEach : List TenantId → ShProg Unit
  | [] => pure ()
  | tid :: tids => do
    probe env h tid
    probeEach tids

/-- One poll of the agent. -/
def probeAll : ShProg Unit := do
  let entries ← sh h "" .listDir
  probeEach env h entries
  sh h "" .endPoll

end Agent

/-! ## The processes of a host -/

inductive HostJob
  /-- A command sent through SSM. -/
  | ssm (cmd : HostCmd)
  /-- `backup-data.sh`, sent by the backup Lambda. -/
  | backup (tid : TenantId) (key : String)
  | poll
  /-- A `launch-vm.sh` that the agent forked. -/
  | forked (tid : TenantId) (cfg : VmConfig)
  /-- The guest shuts down, or its Firecracker process dies. -/
  | crash (tid : TenantId)

/-- The processes of the host `h`. Polls run one after the other. -/
def hostJobs (env : PlatformEnv) (h : HostId) : Jobs Sh Machines HostJob Unit where
  body
    | .ssm cmd => cmd.run env h >>= fun _ => pure ()
    | .backup tid key => backupDataSh h tid key >>= fun _ => pure ()
    | .poll => probeAll env h
    | .forked tid cfg => launchVmSh h tid cfg "" [] >>= fun _ => pure ()
    | .crash _ => pure ()
  start
    | .poll, m, m' => (m.machine h).polling = false ∧ m' = m.updHost h fun x => { x with polling := true }
    | .forked tid cfg, m, m' => (tid, cfg) ∈ (m.machine h).forked ∧
        m' = m.updHost h fun x => { x with forked := x.forked.erase (tid, cfg) }
    | .crash tid, m, m' => m' = m.upd h tid fun d => { d with fc := .absent }
    | _, m, m' => m' = m

end OpenClaw
