import OpenClaw.Host.Play
import OpenClaw.Lib.Product

/-!
# Data volumes over relaunches

`launch-vm.sh` without a restore key builds the data volume again when there is none, or when its size differs from
the template's. A restart, a start, a reset and the agent all launch without a key, and `resize-disk.sh`, a restored
backup, a clone and a new data template all leave a volume that has another size than the template.

A cold migration takes the volume through S3: nobody looks whether the upload and the download went through.

- `filling`: how far a launch has got with the volume.
- `lastDump`: the directory whose volume, untouched since, lies under a prefix of S3.
- `volumes_survive`: what the later operations leave of a volume, as long as launches find the size of the template and
  migrations fetch what was dumped.
- `resized_volume_rebuilt`: a resized volume does not survive a restart.
-/

namespace OpenClaw

open Atomic

variable {ι : Type}

/-! ## Operations -/

/-- The command neither creates a tenant from a backup or a clone nor deletes its data. -/
def HostCmd.later : HostCmd → Bool
  | .launchVm _ _ _ _ _ key _ => key = ""
  | .cloneData _ _ _ _ | .removeVmDir _ => false
  | .and a b | .seq a b => a.later && b.later
  | _ => true

/-- What happens on a host. -/
inductive VolumeJob
  | host (j : HostJob)
  /-- A new data template. -/
  | refresh (v : Volume)
  /-- A guest writes to its volume. -/
  | guest (tid : TenantId) (n : Nat)
  /-- Anything among the backups, or in time. -/
  | elsewhere

def VolumeJob.later : VolumeJob → Bool
  | .host (.ssm cmd) => cmd.later
  | _ => true

/-- What happens to the volumes of the hosts. -/
def volumeJobs (env : PlatformEnv) : Jobs Sh Machines (HostId × VolumeJob) Unit where
  body
    | (h, .host j) => (hostJobs env h).body j
    | _ => pure ()
  start
    | (h, .host j), m, m' => (hostJobs env h).start j m m'
    | (h, .refresh v), m, m' => m' = m.updHost h fun x => { x with template := v }
    | (h, .guest tid n), m, m' => m' = m.upd h tid fun d => { d with data := d.data.map fun v => v.push (.guest n) }
    | (_, .elsewhere), m, m' => m'.machine = m.machine ∧ m'.shipped = m.shipped

/-! ## Launches and the volume -/

/-- How far a launch has got with the volume. -/
inductive Filling
  | rest
  /-- The template has this size. -/
  | sized (tid : TenantId) (size : Nat)
  /-- `NEEDS_INIT`: the volume will be made from the template. -/
  | needed (tid : TenantId)
deriving DecidableEq

def Filling.next (f : Filling) (tid : TenantId) : (op : ShellOp) → op.Ans → Filling
  | .templateSize, r => r.elim .rest (Filling.sized tid)
  | .dataSize, r =>
    match f with
    | .sized t s => if t = tid then (if needsInit r "" s then .needed tid else .rest) else f
    | _ => f
  | .makeOverlay, r => if r then f else .rest
  | .copyTemplate, _ => .rest
  | _, _ => f

def Filling.allows (f : Filling) (tid : TenantId) : ShellOp → Prop
  | .rmData | .copyTemplate => f = .needed tid
  | .fetchBackup _ | .unpackBackup _ | .copyData _ | .rmDir => False
  | .fetch _ _ => f = .rest
  | _ => True

/-- A process on `h`: `none` creates from a backup or a clone, or deletes. -/
def filling (h : HostId) : Protocol Sh VolumeJob (Option Filling) where
  init j := if j.later then some .rest else none
  allow g c := ∀ f, g = some f → c.host = h ∧ f.allows c.tenant c.op
  sane _ _ _ := True
  next g c r := g.map fun f => f.next c.tenant c.op r

/-- The processes of all hosts. -/
abbrev fillings : Protocol Sh (HostId × VolumeJob) (HostId × Option Filling) := .each filling

/-! ## The later operations keep to it -/

section Obeys

variable {env : PlatformEnv} {h : HostId} {tid : TenantId} {α β : Type}

/-- A statement that has nothing to do with the making of a volume. -/
def ShellOp.upkeep : ShellOp → Bool
  | .templateSize | .rmData | .copyTemplate | .fetchBackup _ | .unpackBackup _ | .copyData _ | .rmDir => false
  | _ => true

def ShellCall.upkeepOn (h : HostId) (c : ShellCall) : Prop := c.host = h ∧ c.op.upkeep = true

theorem upkeep_obeys {p : ShProg α} (hp : p.All (ShellCall.upkeepOn h)) :
    p.obeys (filling h) (fun _ g => g = some .rest) (some .rest) := by
  refine Prog.All.obeys (fun c hc => ?_) hp
  obtain ⟨host, t, op⟩ := c
  obtain ⟨hhost, ho⟩ := hc
  have ho : op.upkeep = true := ho
  constructor
  · intro f hf
    cases hf
    refine ⟨hhost, ?_⟩
    show Filling.rest.allows t op
    cases op
    case templateSize | rmData | copyTemplate | fetchBackup | unpackBackup | copyData | rmDir => cases ho
    case fetch => rfl
    all_goals trivial
  · intro r
    show some (Filling.rest.next t op r) = some .rest
    cases op
    case templateSize | rmData | copyTemplate | fetchBackup | unpackBackup | copyData | rmDir => cases ho
    case makeOverlay => cases r <;> rfl
    all_goals rfl

theorem upkeep_sh {op : ShellOp} (h : HostId) (tid : TenantId) (ho : op.upkeep = true) :
    (sh h tid op).All (ShellCall.upkeepOn h) := ⟨⟨rfl, ho⟩, fun _ => trivial⟩

theorem orExit_upkeep {p k : ShProg Bool} (hp : p.All (ShellCall.upkeepOn h)) (hk : k.All (ShellCall.upkeepOn h)) :
    (orExit p k).All (ShellCall.upkeepOn h) := by
  refine Prog.All.bind hp fun ok => ?_
  cases ok with
  | true => exact hk
  | false => trivial

theorem ifSock_upkeep {op : ShellOp} (ho : op.upkeep = true) : (ifSock h tid op).All (ShellCall.upkeepOn h) := by
  refine ⟨⟨rfl, rfl⟩, fun sock => ?_⟩
  cases sock with
  | true => exact ⟨⟨rfl, ho⟩, fun _ => trivial⟩
  | false => trivial

theorem besteffort_upkeep {ops : List ShellOp} (ho : ∀ op ∈ ops, op.upkeep = true) :
    (besteffort h tid ops).All (ShellCall.upkeepOn h) := by
  induction ops with
  | nil => trivial
  | cons op ops ih =>
    exact ⟨⟨rfl, ho op List.mem_cons_self⟩, fun _ => ih fun o hm => ho o (List.mem_cons_of_mem _ hm)⟩

theorem stopVmSh_upkeep : (stopVmSh h tid).All (ShellCall.upkeepOn h) := by
  simp only [stopVmSh, sh_bind, Prog.pure_eq]
  iterate 7 refine ⟨⟨rfl, rfl⟩, fun _ => ?_⟩
  trivial

theorem resizeDiskSh_upkeep (mb : Nat) : (resizeDiskSh h tid mb).All (ShellCall.upkeepOn h) := by
  simp only [resizeDiskSh, sh_bind, Prog.pure_eq]
  refine ⟨⟨rfl, rfl⟩, fun found => ?_⟩
  beta_reduce
  split
  · trivial
  · refine orExit_upkeep (upkeep_sh h tid rfl) (orExit_upkeep (upkeep_sh h tid rfl)
      (orExit_upkeep (upkeep_sh h tid rfl) ?_))
    exact ⟨⟨rfl, rfl⟩, fun _ => orExit_upkeep (upkeep_sh h tid rfl) (upkeep_sh h tid rfl)⟩

theorem backupDataSh_upkeep (key : String) : (backupDataSh h tid key).All (ShellCall.upkeepOn h) := by
  have hexit : ∀ ok, (backupExit h tid ok).All (ShellCall.upkeepOn h) := by
    intro ok
    simp only [backupExit, sh_bind]
    exact ⟨⟨rfl, rfl⟩, fun _ => Prog.All.bind (ifSock_upkeep rfl) fun _ => trivial⟩
  simp only [backupDataSh, sh_bind]
  refine ⟨⟨rfl, rfl⟩, fun found => ?_⟩
  beta_reduce
  split
  · exact hexit false
  · refine Prog.All.bind (ifSock_upkeep rfl) fun _ => ⟨⟨rfl, rfl⟩, fun _ => ?_⟩
    refine Prog.All.bind (ifSock_upkeep rfl) fun _ => ⟨⟨rfl, rfl⟩, fun gz => ?_⟩
    beta_reduce
    split
    · exact hexit false
    · exact ⟨⟨rfl, rfl⟩, fun _ => ⟨⟨rfl, rfl⟩, fun _ => hexit true⟩⟩

theorem disks_upkeep {f : ShippedFile → ShellOp} (hf : ∀ x, (f x).upkeep = true) :
    ∀ op ∈ disks.map f, op.upkeep = true := by
  intro op hm
  obtain ⟨x, -, rfl⟩ := List.mem_map.1 hm
  exact hf x

theorem snapshotSh_upkeep (uri : String) : (snapshotSh env h tid uri).All (ShellCall.upkeepOn h) := by
  have hballoon : ∀ {ops : List ShellOp}, (∀ op ∈ ops, op.upkeep = true) →
      (whenBalloon env h tid ops).All (ShellCall.upkeepOn h) := by
    intro ops ho
    unfold whenBalloon
    split
    · exact besteffort_upkeep ho
    · trivial
  simp only [snapshotSh, sh_bind, Prog.pure_eq]
  refine orExit_upkeep (upkeep_sh h tid rfl) (Prog.All.bind (hballoon (by simp [ShellOp.upkeep])) fun _ => ?_)
  refine ⟨⟨rfl, rfl⟩, fun paused => ?_⟩
  cases paused with
  | false => exact Prog.All.bind (hballoon (by simp [ShellOp.upkeep])) fun _ => trivial
  | true =>
    refine ⟨⟨rfl, rfl⟩, fun taken => ⟨⟨rfl, rfl⟩, fun _ =>
      Prog.All.bind (hballoon (by simp [ShellOp.upkeep])) fun _ => ?_⟩⟩
    cases taken with
    | false => exact Prog.All.bind (hballoon (by simp [ShellOp.upkeep])) fun _ => trivial
    | true =>
      refine orExit_upkeep (upkeep_sh h tid rfl) (orExit_upkeep (upkeep_sh h tid rfl)
        (orExit_upkeep (upkeep_sh h tid rfl) ?_))
      exact Prog.All.bind (besteffort_upkeep (disks_upkeep fun _ => rfl)) fun _ => trivial

theorem restoreSteps_upkeep (uri : String) : (restoreSteps h tid uri).All (ShellCall.upkeepOn h) := by
  simp only [restoreSteps, sh_bind, Prog.pure_eq]
  refine Prog.All.bind (besteffort_upkeep (disks_upkeep fun _ => rfl)) fun _ => ?_
  refine orExit_upkeep (upkeep_sh h tid rfl) (orExit_upkeep (upkeep_sh h tid rfl)
    (orExit_upkeep (upkeep_sh h tid rfl) (orExit_upkeep (upkeep_sh h tid rfl) ?_)))
  refine ⟨⟨rfl, rfl⟩, fun _ => ⟨⟨rfl, rfl⟩, fun _ => orExit_upkeep (upkeep_sh h tid rfl) ?_⟩⟩
  exact ⟨⟨rfl, rfl⟩, fun _ => trivial⟩

theorem cleanupOnErr_upkeep : (cleanupOnErr h tid).All (ShellCall.upkeepOn h) := by
  simp only [cleanupOnErr, sh_bind, Prog.pure_eq]
  refine ⟨⟨rfl, rfl⟩, fun sock => ?_⟩
  cases sock with
  | false => exact upkeep_sh h tid rfl
  | true =>
    refine ⟨⟨rfl, rfl⟩, fun alive => ?_⟩
    cases alive with
    | true => trivial
    | false => exact upkeep_sh h tid rfl

theorem orTrap_upkeep {p : ShProg Bool} {k : ShProg LaunchEnd} (hp : p.All (ShellCall.upkeepOn h))
    (hk : k.All (ShellCall.upkeepOn h)) : (orTrap p k).All (ShellCall.upkeepOn h) := by
  refine Prog.All.bind hp fun ok => ?_
  cases ok with
  | true => exact hk
  | false => trivial

theorem startVm_upkeep (cfg : VmConfig) (skills : List String) :
    (startVm h tid cfg skills).All (ShellCall.upkeepOn h) := by
  simp only [startVm, sh_bind, Prog.pure_eq]
  refine orTrap_upkeep (upkeep_sh h tid rfl) (orTrap_upkeep (upkeep_sh h tid rfl) ?_)
  refine ⟨⟨rfl, rfl⟩, fun _ => ⟨⟨rfl, rfl⟩, fun _ => orTrap_upkeep (upkeep_sh h tid rfl) ?_⟩⟩
  refine ⟨⟨rfl, rfl⟩, fun ok => ?_⟩
  cases ok <;> trivial

/-- A statement of a launch. -/
theorem filling_call {op : ShellOp} {k : op.Ans → ShProg α} {Q : α → Option Filling → Prop} {f : Filling}
    (ha : f.allows tid op) (hk : ∀ r, (k r).obeys (filling h) Q (some (f.next tid op r))) :
    (@Prog.call Sh α ⟨h, tid, op⟩ k).obeys (filling h) Q (some f) := by
  refine ⟨fun f' hf => ?_, fun r _ => hk r⟩
  cases hf
  exact ⟨rfl, ha⟩

/-- The volume is made from the template, or found. -/
theorem prepareVolume_filling {k : ShProg LaunchEnd} (hk : k.All (ShellCall.upkeepOn h)) :
    (prepareVolume h tid "" k).obeys (filling h) (fun _ g => g = some .rest) (some .rest) := by
  simp only [prepareVolume, sh_bind, Prog.pure_eq]
  refine filling_call trivial fun size => ?_
  cases size with
  | none => rfl
  | some size =>
    refine filling_call (f := .sized tid size) trivial fun ok => ?_
    cases ok with
    | false => rfl
    | true =>
      refine filling_call (f := .sized tid size) trivial fun found => ?_
      by_cases hneeded : needsInit found "" size = true
      · have hnext : (Filling.sized tid size).next tid .dataSize found = .needed tid := by
          simp [Filling.next, hneeded]
        rw [hnext]
        simp only [hneeded, if_true, initVolume, sh_bind, ne_eq, not_true, if_false]
        refine filling_call (f := .needed tid) rfl fun _ => filling_call (f := .needed tid) rfl fun ok => ?_
        cases ok with
        | false => rfl
        | true => exact upkeep_obeys hk
      · have hnext : (Filling.sized tid size).next tid .dataSize found = .rest := by
          simp [Filling.next, hneeded]
        rw [hnext]
        simp only [hneeded]
        exact upkeep_obeys hk

/-- `launch-vm.sh` without a restore key. -/
theorem launchVmSh_filling (cfg : VmConfig) (skills : List String) :
    (launchVmSh h tid cfg "" skills).obeys (filling h) (fun _ g => g = some .rest) (some .rest) := by
  have hsteps : (launchSteps h tid cfg "" skills).obeys (filling h) (fun _ g => g = some .rest) (some .rest) := by
    simp only [launchSteps, sh_bind, Prog.pure_eq]
    refine filling_call trivial fun _ => filling_call trivial fun _ => ?_
    split
    · rfl
    · refine filling_call trivial fun ok => ?_
      cases ok with
      | false => rfl
      | true =>
        exact filling_call trivial fun _ => filling_call trivial fun _ => filling_call trivial fun _ =>
          prepareVolume_filling (startVm_upkeep cfg skills)
  simp only [launchVmSh, sh_bind, Prog.pure_eq]
  refine filling_call trivial fun _ => ?_
  rw [Prog.obeys_bind]
  refine Prog.obeys_mono (fun out g e => ?_) hsteps
  rw [e]
  cases out with
  | exit => exact filling_call trivial fun _ => rfl
  | ok => exact filling_call trivial fun _ => filling_call trivial fun _ => rfl
  | err =>
    show Prog.obeys _ (_ >>= _) _ _
    rw [Prog.obeys_bind]
    refine Prog.obeys_mono (fun _ g e => ?_) (upkeep_obeys cleanupOnErr_upkeep)
    rw [e]
    exact filling_call trivial fun _ => rfl

/-- One part after the other. -/
theorem rest_bind {p : ShProg α} {k : α → ShProg β}
    (hp : p.obeys (filling h) (fun _ g => g = some .rest) (some .rest))
    (hk : ∀ a, (k a).obeys (filling h) (fun _ g => g = some .rest) (some .rest)) :
    (p >>= k).obeys (filling h) (fun _ g => g = some .rest) (some .rest) := by
  rw [Prog.obeys_bind]
  refine Prog.obeys_mono (fun a g e => ?_) hp
  rw [e]
  exact hk a

theorem migrateVmSh_filling (verb : MigrateVerb) (n : Int) (uri : String) :
    (migrateVmSh env h tid verb n uri).obeys (filling h) (fun _ g => g = some .rest) (some .rest) := by
  have hdisks : ∀ f : ShippedFile → ShellOp, (∀ x, (f x).upkeep = true) →
      (besteffort h tid (disks.map f)).obeys (filling h) (fun _ g => g = some .rest) (some .rest) :=
    fun f hf => upkeep_obeys (besteffort_upkeep (disks_upkeep hf))
  have hunder : ∀ {p : ShProg Bool}, p.obeys (filling h) (fun _ g => g = some .rest) (some .rest) →
      (underSentinel h tid p).obeys (filling h) (fun _ g => g = some .rest) (some .rest) := by
    intro p hp
    simp only [underSentinel, sh_bind]
    exact filling_call trivial fun _ => filling_call trivial fun _ =>
      rest_bind hp fun _ => filling_call trivial fun _ => rfl
  cases verb with
  | snapshot => exact upkeep_obeys (snapshotSh_upkeep uri)
  | restore => exact hunder (upkeep_obeys (restoreSteps_upkeep uri))
  | coldDump =>
    show (coldDumpSh h tid uri).obeys _ _ _
    unfold coldDumpSh
    refine rest_bind (upkeep_obeys stopVmSh_upkeep) fun _ => rest_bind (upkeep_obeys (upkeep_sh h tid rfl)) fun _ =>
      rest_bind (hdisks _ fun _ => rfl) fun _ => rest_bind (upkeep_obeys (upkeep_sh h tid rfl)) fun cfg => ?_
    split
    · exact upkeep_obeys (upkeep_sh h tid rfl)
    · rfl
  | coldRestore =>
    refine hunder ?_
    unfold coldRestoreSteps
    exact rest_bind (hdisks _ fun _ => rfl) fun _ => filling_call rfl fun _ => filling_call trivial fun cfg =>
      launchVmSh_filling _ []

theorem run_filling {cmd : HostCmd} (hc : cmd.later = true) :
    (cmd.run env h).obeys (filling h) (fun _ g => g = some .rest) (some .rest) := by
  induction cmd with
  | launchVm tid n v m tpl key skills =>
    obtain rfl : key = "" := of_decide_eq_true hc
    exact launchVmSh_filling _ skills
  | stopVm => exact upkeep_obeys stopVmSh_upkeep
  | migrateVm verb tid n uri => exact migrateVmSh_filling verb n uri
  | cloneData | removeVmDir => cases hc
  | resizeDisk tid _ mb => exact upkeep_obeys (resizeDiskSh_upkeep _)
  | machineConfig => exact upkeep_obeys (upkeep_sh h _ rfl)
  | vmState tid paused => cases paused <;> exact upkeep_obeys (upkeep_sh h _ rfl)
  | removeVmJson | removeOverlay | dnatDel | sleep => exact filling_call trivial fun _ => rfl
  | dnatAdd | removePeerConf | removeTenantConf => exact upkeep_obeys (upkeep_sh h _ rfl)
  | and a b iha ihb =>
    have hc : a.later = true ∧ b.later = true := by simpa [HostCmd.later] using hc
    refine rest_bind (iha hc.1) fun ok => ?_
    cases ok with
    | true => exact ihb hc.2
    | false => rfl
  | seq a b iha ihb =>
    have hc : a.later = true ∧ b.later = true := by simpa [HostCmd.later] using hc
    exact rest_bind (iha hc.1) fun _ => ihb hc.2

theorem within_upkeep {p : ShProg α} (hp : p.All (ShellCall.upkeepOn h)) :
    (Prog.within (S := Sh) ⟨h, tid, .inTime⟩ (fun inTime => inTime) p).All (ShellCall.upkeepOn h) :=
  Prog.All.within ⟨rfl, rfl⟩ hp

theorem forkLaunch_upkeep (cfg : VmConfig) : (forkLaunch h tid cfg).All (ShellCall.upkeepOn h) := by
  simp only [forkLaunch, sh_bind, Prog.pure_eq]
  refine ⟨⟨rfl, rfl⟩, fun ok => ?_⟩
  cases ok with
  | true => trivial
  | false => exact upkeep_sh h tid rfl

theorem probe_upkeep : (probe env h tid).All (ShellCall.upkeepOn h) := by
  have hforce : ∀ cfg, (forceRelaunchVm h tid cfg).All (ShellCall.upkeepOn h) := by
    intro cfg
    simp only [forceRelaunchVm, sh_bind, Prog.pure_eq]
    refine ⟨⟨rfl, rfl⟩, fun known => ?_⟩
    cases known with
    | true => trivial
    | false =>
      refine ⟨⟨rfl, rfl⟩, fun _ => Prog.All.bind (within_upkeep stopVmSh_upkeep) fun ended => ?_⟩
      cases ended with
      | some _ => exact forkLaunch_upkeep cfg
      | none => exact upkeep_sh h tid rfl
  have hnet : ∀ up, (registerNetPoll h tid up).All (ShellCall.upkeepOn h) := by
    intro up
    simp only [registerNetPoll, sh_bind, Prog.pure_eq]
    split
    · exact ⟨⟨rfl, rfl⟩, fun _ => trivial⟩
    · refine ⟨⟨rfl, rfl⟩, fun n => ⟨⟨rfl, rfl⟩, fun _ => ?_⟩⟩
      beta_reduce
      split
      · exact ⟨⟨rfl, rfl⟩, fun _ => trivial⟩
      · trivial
  simp only [probe, probeGuest, recoverVm, sh_bind, Prog.pure_eq]
  refine ⟨⟨rfl, rfl⟩, fun cfg => ?_⟩
  cases cfg with
  | none => trivial
  | some cfg =>
    refine ⟨⟨rfl, rfl⟩, fun stopped => ?_⟩
    cases stopped with
    | true => trivial
    | false =>
      refine ⟨⟨rfl, rfl⟩, fun migrating => ?_⟩
      cases migrating with
      | true => trivial
      | false =>
        refine ⟨⟨rfl, rfl⟩, fun alive => ?_⟩
        cases alive with
        | false =>
          refine ⟨⟨rfl, rfl⟩, fun known => ?_⟩
          cases known with
          | true => trivial
          | false => exact ⟨⟨rfl, rfl⟩, fun _ => forkLaunch_upkeep cfg⟩
        | true =>
          refine ⟨⟨rfl, rfl⟩, fun _ => ⟨⟨rfl, rfl⟩, fun up => Prog.All.bind (hnet up) fun dead => ?_⟩⟩
          cases dead with
          | true => exact hforce cfg
          | false => trivial

theorem probeAll_upkeep : (probeAll env h).All (ShellCall.upkeepOn h) := by
  have heach : ∀ tids, (probeEach env h tids).All (ShellCall.upkeepOn h) := by
    intro tids
    induction tids with
    | nil => trivial
    | cons tid tids ih => exact Prog.All.bind probe_upkeep fun _ => ih
  simp only [probeAll, sh_bind]
  exact ⟨⟨rfl, rfl⟩, fun entries => Prog.All.bind (heach entries) fun _ => upkeep_sh h "" rfl⟩

/-- **The later operations** make a volume only where they found none, or one of another size. -/
theorem volumeJobs_obey (j : HostId × VolumeJob) :
    ((volumeJobs env).body j).obeys fillings (fun _ _ => True) (fillings.init j) := by
  obtain ⟨h, j⟩ := j
  refine Prog.obeys_mono (fun _ _ _ => trivial) (Prog.obeys_each (Q := fun _ _ => True) ?_)
  by_cases hj : j.later = true
  · have hinit : (filling h).init j = some .rest := by simp [filling, hj]
    rw [hinit]
    refine Prog.obeys_mono (fun _ _ _ => trivial) (Q := fun _ g => g = some .rest) ?_
    cases j with
    | host j =>
      cases j with
      | ssm cmd => exact rest_bind (run_filling hj) fun _ => rfl
      | backup tid key => exact rest_bind (upkeep_obeys (backupDataSh_upkeep key)) fun _ => rfl
      | poll => exact upkeep_obeys probeAll_upkeep
      | forked tid cfg => exact rest_bind (launchVmSh_filling cfg []) fun _ => rfl
      | crash tid => rfl
    | refresh | guest | elsewhere => rfl
  · have hinit : (filling h).init j = none := by simp [filling, hj]
    rw [hinit]
    have hfree : ∀ c : ShellCall, (filling h).allow none c ∧ ∀ r, (filling h).next none c r = none :=
      fun c => ⟨fun f hf => (by cases hf), fun _ => rfl⟩
    exact Prog.obeys_mono (fun _ _ _ => trivial) (Prog.obeys_of_free hfree _)

end Obeys

/-! ## What a statement does to a volume -/

/-- The volume, after writes of its guest, injections, checks of its file system, and growth in place. -/
inductive Grown (v : Volume) : Volume → Prop
  | same : Grown v v
  | guest (n : Nat) : Grown v (v.push (.guest n))
  | inject : Grown v (v.push .inject)
  | fsck : Grown v (v.push .fsck)
  | grow (mb : Nat) (h : v.size ≤ bytes mb) : Grown v (v.truncate mb)

/-- The statement puts a volume into the directory, whole or torn. -/
def ShellOp.makes : (op : ShellOp) → op.Ans → Option Bool
  | .copyTemplate, r | .unpackBackup _, r | .copyData _, r => some r
  | .fetch .data _, r => if r then some true else none
  | _, _ => none

/-- The statement takes the volume out of the directory. -/
def ShellOp.empties : ShellOp → Bool
  | .rmData | .rmDir => true
  | _ => false

/-- The volume of a directory before and after a statement on it. -/
inductive DataStep (op : ShellOp) (r : op.Ans) (x x' : Option Volume) : Prop
  | grown (f : Volume → Volume) (hx : x' = x.map f)
      (hf : ∀ v, (∀ mb, op = .truncate mb → v.size ≤ bytes mb) → Grown v (f v)) : DataStep op r x x'
  | made (b : Bool) (ho : op.makes r = some b) : DataStep op r x x'
  | emptied (ho : op.empties = true) (hx : x' = none) : DataStep op r x x'

section Effects

variable {h : HostId} {tid : TenantId} {op : ShellOp} {r : op.Ans} {m m' : Machines}

theorem DataStep.refl {x : Option Volume} : DataStep op r x x :=
  .grown id Option.map_id'.symm fun _ _ => .same

/-- A change of the directory that leaves the volume alone. -/
theorem DataStep.upd {f : VmDir → VmDir} (hf : ∀ d, (f d).data = d.data) :
    DataStep op r (m.dir h tid).data ((m.upd h tid f).dir h tid).data := by
  rw [Machines.dir_upd_self, hf]
  exact .refl

theorem DataStep.updHost {f : Machine → Machine} (hf : ∀ x, (f x).dirs = x.dirs) :
    DataStep op r (m.dir h tid).data ((m.updHost h f).dir h tid).data := by
  rw [Machines.dir_updHost h hf]
  exact .refl

/-- A change of the volume. -/
theorem DataStep.map {g : Volume → Volume} (hg : ∀ v, (∀ mb, op = .truncate mb → v.size ≤ bytes mb) → Grown v (g v)) :
    DataStep op r (m.dir h tid).data ((m.upd h tid fun d => { d with data := d.data.map g }).dir h tid).data := by
  rw [Machines.dir_upd_self]
  exact .grown g rfl hg

theorem data_step (hs : opStep h tid op r m m') : DataStep op r (m.dir h tid).data (m'.dir h tid).data := by
  cases op
  case begin | done | mkdir | addressOk | setup | configure | createSnapshot | machineConfig | inTime | sleep =>
    obtain rfl : m' = m := hs
    exact .refl
  case rmStopped | touchStopped | writeVmJson | rmVmJson | rmSentinel | rmSock | rmGz | rmOverlay | pkill | startFc =>
    obtain rfl := hs
    exact .upd fun _ => rfl
  case rmData | rmDir =>
    obtain rfl := hs
    rw [Machines.dir_upd_self]
    exact .emptied rfl rfl
  case fsck =>
    obtain rfl := hs
    exact .map fun _ _ => .fsck
  case testStopped | readVmJson | testSock | templateSize | dataSize | gzSize | testOverlay | fetchBackup | listDir |
      pgrep | ping | isRecovering | netDead =>
    obtain ⟨-, rfl⟩ := hs
    exact .refl
  case copyTemplate | unpackBackup | copyData => exact .made r rfl
  case compress | copyOverlay =>
    obtain ⟨v, -, rfl⟩ := hs
    exact .upd fun _ => rfl
  case makeOverlay =>
    obtain ⟨v, -, -, rfl⟩ := hs
    exact .upd fun _ => rfl
  case truncate mb =>
    rcases did.eq_or hs with rfl | rfl
    · exact .map fun v hv => .grow mb (hv mb rfl)
    · exact .refl
  case resize2fs =>
    rcases did.eq_or hs with rfl | rfl
    · exact .map fun _ _ => .fsck
    · exact .refl
  case instanceStart | loadSnapshot | pause | resume =>
    rcases hs.2.eq_or with rfl | rfl
    · exact .upd fun _ => rfl
    · exact .refl
  case fetch f uri =>
    cases f with
    | data =>
      cases r with
      | true => exact .made true rfl
      | false =>
        obtain rfl : m' = m := hs.2
        exact .refl
    | overlay | vmJson | other =>
      rcases hs.2.eq_or with rfl | rfl
      · exact .upd fun _ => rfl
      · exact .refl
  case inject =>
    rcases hs.2 with rfl | ⟨-, rfl⟩
    · exact .map fun _ _ => .inject
    · exact .refl
  case touchSentinel =>
    obtain ⟨x, -, hs⟩ := hs
    rcases hs.eq_or with rfl | rfl
    · rw [Machines.dir_upd_self]
      exact .refl
    · exact .refl
  case isMigrating =>
    obtain ⟨x, -, -, rfl⟩ := hs
    exact .refl
  case uploadBackup key =>
    rcases upload_cases hs with rfl | ⟨-, v, -, rfl⟩
    · exact .refl
    · exact .refl
  case ship =>
    rcases hs.2.eq_or with rfl | rfl
    · exact .refl
    · exact .refl
  case setRecovering | setNetDead | endPoll =>
    obtain rfl := hs
    exact .updHost fun _ => rfl
  case popen =>
    rcases did.eq_or hs with rfl | rfl
    · exact .updHost fun _ => rfl
    · exact .refl

end Effects

/-! ## Runs -/

section Runs

variable [DecidableEq ι]

/-- The volume of the tenant on `h` is whole: the last statement that put it there went through. -/
def wholeVolume (h : HostId) (t : TenantId) (tr : List (Ev Sh (HostId × VolumeJob) ι)) : Bool :=
  tr.foldl (fun b e =>
    match e with
    | .start _ _ => b
    | .call _ c r => if h = c.host ∧ t = c.tenant then (c.op.makes r).getD b else b) true

/-- The statement uploads the volume under the prefix. -/
def ShellOp.dumps (uri : String) : (op : ShellOp) → op.Ans → Bool
  | .ship .data u, r => r && u = uri
  | _, _ => false

/-- The directory whose volume was uploaded under the prefix last, until something touches it there. -/
def dumpNext (uri : String) (d : Option (HostId × TenantId)) :
    Ev Sh (HostId × VolumeJob) ι → Option (HostId × TenantId)
  | .start _ (h, .guest t _) => if d = some (h, t) then none else d
  | .start _ _ => d
  | .call _ c r =>
    if c.op.dumps uri r then some (c.host, c.tenant)
    else if c.op.writes .data && d = some (c.host, c.tenant) then none
    else d

def lastDump (uri : String) (tr : List (Ev Sh (HostId × VolumeJob) ι)) : Option (HostId × TenantId) :=
  tr.foldl (dumpNext uri) none

/-- A launch of the tenant that has read the size `s` of the template will find what it may boot: the tenant has no whole
volume on any host, or this host has one of that size. -/
def Expected (whole : HostId → TenantId → Bool) (m : Machines) (h : HostId) (t : TenantId) (s : Nat) : Prop :=
  (∀ h', whole h' t = true → (m.dir h' t).data = none) ∨
    whole h t = true ∧ ∃ v, (m.dir h t).data = some v ∧ v.size = s

/-- The condition on the steps: a launch without a key finds what it may boot; nothing else puts a whole volume anywhere
where such a launch is about to make one; no volume is cut; and the volume that a migration fetches arrives, and is what
was uploaded from the tenant's directory and not touched there since. -/
def keepsVolumes (tr : List (Ev Sh (HostId × VolumeJob) ι)) (m : Machines) : Ev Sh (HostId × VolumeJob) ι → Prop
  | .start _ _ => True
  | .call i c r =>
    (c.op = .dataSize → ∀ s, fillings.locs tr i = some (c.host, some (.sized c.tenant s)) →
      Expected (fun h t => wholeVolume h t tr) m c.host c.tenant s) ∧
    (c.op.makes r = some true → ∀ j h, fillings.locs tr j = some (h, some (.needed c.tenant)) → j = i) ∧
    (∀ mb, c.op = .truncate mb → ∀ v, (m.dir c.host c.tenant).data = some v → v.size ≤ bytes mb) ∧
    ∀ uri, c.op = .fetch .data uri → c.op.makes r = some true ∧ ∃ h, lastDump uri tr = some (h, c.tenant)

/-- A launch that is about to make a volume is of a tenant that has no whole one. -/
def NeededEmpty (l : ι → Option (HostId × Option Filling)) (whole : HostId → TenantId → Bool) (m : Machines) : Prop :=
  ∀ i h t, l i = some (h, some (.needed t)) → ∀ h', whole h' t = true → (m.dir h' t).data = none

/-- What was uploaded is what the directory still has. -/
def Dumped (d : String → Option (HostId × TenantId)) (m : Machines) : Prop :=
  ∀ uri h t, d uri = some (h, t) → (m.shipped uri).data = (m.dir h t).data

variable {env : PlatformEnv}

/-- A job starts: it changes no directory, or only as a guest does. -/
theorem volumeJobs_start {j : HostId × VolumeJob} {m m' : Machines} (hs : (volumeJobs env).start j m m') :
    m'.shipped = m.shipped ∧ ∀ h t, (m'.dir h t).data = (m.dir h t).data ∨
      ∃ n, j = (h, .guest t n) ∧ (m'.dir h t).data = (m.dir h t).data.map fun v => v.push (.guest n) := by
  obtain ⟨host, j⟩ := j
  have hhost : ∀ h t (f : Machine → Machine), (∀ x, (f x).dirs = x.dirs) →
      ((m.updHost host f).dir h t).data = (m.dir h t).data :=
    fun h t f hf => by rw [Machines.dir_updHost host hf]
  cases j with
  | host j =>
    cases j with
    | poll =>
      obtain ⟨-, rfl⟩ := hs
      exact ⟨rfl, fun h t => .inl (hhost h t _ fun _ => rfl)⟩
    | forked tid cfg =>
      obtain ⟨-, rfl⟩ := hs
      exact ⟨rfl, fun h t => .inl (hhost h t _ fun _ => rfl)⟩
    | crash tid =>
      obtain rfl : m' = m.upd host tid fun d => { d with fc := .absent } := hs
      refine ⟨rfl, fun h t => .inl ?_⟩
      by_cases e : h = host ∧ t = tid
      · obtain ⟨rfl, rfl⟩ := e
        rw [Machines.dir_upd_self]
      · rw [Machines.dir_upd_of_ne _ _ e]
    | ssm cmd =>
      obtain rfl : m' = m := hs
      exact ⟨rfl, fun _ _ => .inl rfl⟩
    | backup tid key =>
      obtain rfl : m' = m := hs
      exact ⟨rfl, fun _ _ => .inl rfl⟩
  | refresh v =>
    obtain rfl : m' = m.updHost host fun x => { x with template := v } := hs
    exact ⟨rfl, fun h t => .inl (hhost h t _ fun _ => rfl)⟩
  | guest tid n =>
    obtain rfl : m' = m.upd host tid fun d => { d with data := d.data.map fun v => v.push (.guest n) } := hs
    refine ⟨rfl, fun h t => ?_⟩
    by_cases e : h = host ∧ t = tid
    · obtain ⟨rfl, rfl⟩ := e
      exact .inr ⟨n, rfl, by rw [Machines.dir_upd_self]⟩
    · exact .inl (by rw [Machines.dir_upd_of_ne _ _ e])
  | elsewhere =>
    have hm : m'.machine = m.machine ∧ m'.shipped = m.shipped := hs
    exact ⟨hm.2, fun h t => .inl (by rw [Machines.dir, Machines.dir, hm.1])⟩

/-- What a call leaves of the invariant. -/
theorem NeededEmpty.call {l : ι → Option (HostId × Option Filling)} {b : HostId → TenantId → Bool} {m m' : Machines}
    (hI : NeededEmpty l b m) {i : ι} {g : HostId × Option Filling} (hl : l i = some g) {c : ShellCall} {r : c.op.Ans}
    (ha : fillings.allow g c)
    (hlook : c.op = .dataSize → ∀ s, l i = some (c.host, some (.sized c.tenant s)) → Expected b m c.host c.tenant s)
    (hmake : c.op.makes r = some true → ∀ j h, l j = some (h, some (.needed c.tenant)) → j = i)
    (hs : shell.step c r m m') : NeededEmpty (Function.update l i (some (fillings.next g c r)))
      (fun h t => if h = c.host ∧ t = c.tenant then (c.op.makes r).getD (b h t) else b h t) m' := by
  obtain ⟨host, tid, op⟩ := c
  -- Where there was no whole volume there still is none, unless the statement has made it.
  have hstay : ∀ h t, (b h t = true → (m.dir h t).data = none) → ¬ (op.makes r = some true ∧ t = tid) →
      (if h = host ∧ t = tid then (op.makes r).getD (b h t) else b h t) = true → (m'.dir h t).data = none := by
    intro h t hnone hno hb
    by_cases he : h = host ∧ t = tid
    · rw [if_pos he] at hb
      obtain ⟨rfl, rfl⟩ := he
      cases hmk : op.makes r with
      | some b' =>
        rw [hmk, Option.getD_some] at hb
        subst hb
        exact absurd ⟨hmk, rfl⟩ hno
      | none =>
        rw [hmk, Option.getD_none] at hb
        cases data_step hs with
        | grown f hx _ =>
          rw [hx, hnone hb]
          rfl
        | made b' ho =>
          rw [hmk] at ho
          cases ho
        | emptied _ hx => exact hx
    · rw [if_neg he] at hb
      rw [dir_elsewhere he hs]
      exact hnone hb
  intro j h t hj h' hb
  by_cases e : j = i
  · subst e
    rw [Function.update_self, Option.some.injEq] at hj
    obtain ⟨host', g⟩ := g
    obtain ⟨rfl, hnext⟩ : host' = h ∧ ((filling host').next g ⟨host, tid, op⟩ r) = some (.needed t) := Prod.mk.inj hj
    cases g with
    | none => cases hnext
    | some f =>
      obtain ⟨hhost, hallow⟩ := ha f rfl
      obtain rfl : host = host' := hhost
      have hnext : f.next tid op r = .needed t := Option.some.inj hnext
      have hkept : f = .needed t → op.makes r = none → (m'.dir h' t).data = none := by
        intro ef hmk
        subst ef
        exact hstay h' t (hI j host t hl h') (fun hm => by
          rw [hmk] at hm
          cases hm.1) hb
      cases op
      case dataSize =>
        obtain ⟨hr, rfl⟩ := hs
        cases f with
        | sized t' s =>
          by_cases et : t' = tid
          · subst et
            simp only [Filling.next, if_true] at hnext
            split at hnext
            · rename_i hneed
              obtain rfl : t' = t := by simpa using hnext
              have hb : b h' t' = true := by simpa [ShellOp.makes] using hb
              rcases hlook rfl s hl with hnone | ⟨-, v, hv, hsize⟩
              · exact hnone h' hb
              · have hv : (m'.dir host t').data = some v := hv
                have hans : r = some v.size := by rw [hr]; simp [hv]
                simp [hans, needsInit, hsize] at hneed
            · cases hnext
          · simp only [Filling.next, et, if_false] at hnext
            cases hnext
        | rest => cases hnext
        | needed t' => exact hkept hnext rfl
      case templateSize => cases r <;> cases hnext
      case copyTemplate => cases hnext
      case makeOverlay =>
        cases r with
        | true => exact hkept hnext rfl
        | false => cases hnext
      case fetch file uri =>
        have hrest : f = .rest := hallow
        rw [hrest] at hnext
        cases hnext
      case unpackBackup | copyData => exact hallow.elim
      all_goals exact hkept hnext rfl
  · rw [Function.update_of_ne e] at hj
    refine hstay h' t (hI j h t hj h') (fun hm => ?_) hb
    obtain ⟨hm, rfl⟩ := hm
    exact e (hmake hm j h hj)

omit [DecidableEq ι] in
/-- An upload remembers the directory, and what touches that forgets it. -/
theorem Dumped.call {d : String → Option (HostId × TenantId)} {m m' : Machines} (hD : Dumped d m) (i : ι)
    {c : ShellCall} {r : c.op.Ans} (hs : shell.step c r m m') :
    Dumped (fun uri => dumpNext uri (d uri) (.call i c r : Ev Sh (HostId × VolumeJob) ι)) m' := by
  obtain ⟨host, tid, op⟩ := c
  intro uri h t hd
  simp only [dumpNext] at hd
  split at hd
  · rename_i hdump
    obtain ⟨rfl, rfl⟩ : host = h ∧ tid = t := by simpa using hd
    cases op
    case ship f u =>
      cases f with
      | data =>
        obtain ⟨rfl, rfl⟩ : r = true ∧ u = uri := by simpa [ShellOp.dumps] using hdump
        obtain ⟨-, rfl⟩ : _ ∧ m' = _ := hs
        show ((m.setShipped u _).shipped u).data = (m.dir host tid).data
        simp [Machines.setShipped, VmDir.put]
      | overlay | vmJson | other => cases hdump
    all_goals cases hdump
  · rename_i hdump
    split at hd
    · cases hd
    · rename_i hsame
      have hold := hD uri h t hd
      -- What lies under the prefix stays, and so does the volume of the directory.
      have hdata : (m'.dir h t).data = (m.dir h t).data := by
        by_cases he : h = host ∧ t = tid
        · obtain ⟨rfl, rfl⟩ := he
          have hw : op.writes .data = false := by
            by_contra hw
            exact hsame (by simp [Bool.eq_true_of_not_eq_false hw, hd])
          exact opStep_same hw hs t
        · rw [dir_elsewhere he hs]
      have hship : (m'.shipped uri).data = (m.shipped uri).data := by
        by_cases hw : op.writes .shipped = false
        · exact opStep_same hw hs t uri
        · cases op
          case ship f u =>
            cases f with
            | data =>
              have hs : opStep host tid (.ship .data u) r m m' := hs
              cases r with
              | false =>
                obtain rfl : m' = m := hs.2
                rfl
              | true =>
                obtain rfl : m' = m.setShipped u _ := hs.2
                have hne : uri ≠ u := fun e => hdump (by simp [ShellOp.dumps, e])
                simp [Machines.setShipped, Function.update_of_ne hne]
            | overlay | vmJson | other => exact absurd rfl hw
          all_goals exact absurd rfl hw
      rw [hship, hdata, hold]

/-- What a run keeps: the two invariants. -/
def VolumeInv (tr : List (Ev Sh (HostId × VolumeJob) ι)) (m : Machines) : Prop :=
  NeededEmpty (fillings.locs tr) (fun h t => wholeVolume h t tr) m ∧ Dumped (fun uri => lastDump uri tr) m

theorem VolumeInv.start {tr : List (Ev Sh (HostId × VolumeJob) ι)} {m m' : Machines} (hI : VolumeInv tr m) {i : ι}
    {j : HostId × VolumeJob} (hs : (volumeJobs env).start j m m') : VolumeInv (tr ++ [.start i j]) m' := by
  obtain ⟨hship, hdata⟩ := volumeJobs_start hs
  constructor
  · intro k h t hk h' hb
    rw [Protocol.locs_snoc, Protocol.stepLoc] at hk
    have hb : wholeVolume h' t tr = true := by simpa [wholeVolume] using hb
    have hold : fillings.locs tr k = some (h, some (.needed t)) := by
      by_cases e : k = i
      · subst e
        rw [Function.update_self, Option.some.injEq] at hk
        have hk : (filling j.1).init j.2 = some (.needed t) := (Prod.mk.inj hk).2
        simp only [filling] at hk
        split at hk <;> simp at hk
      · rwa [Function.update_of_ne e] at hk
    have hnone := hI.1 k h t hold h' hb
    rcases hdata h' t with hd | ⟨n, -, hd⟩
    · rw [hd, hnone]
    · rw [hd, hnone]
      rfl
  · intro uri h t hd
    simp only [lastDump, List.foldl_append, List.foldl_cons, List.foldl_nil] at hd
    obtain ⟨hold, hj⟩ : lastDump uri tr = some (h, t) ∧ ∀ n, j ≠ (h, .guest t n) := by
      obtain ⟨host, j⟩ := j
      cases j with
      | guest t' n =>
        simp only [dumpNext] at hd
        split at hd
        · cases hd
        · rename_i hne
          exact ⟨hd, fun k e => hne (by cases e; exact hd)⟩
      | host | refresh | elsewhere => exact ⟨hd, fun n e => by cases e⟩
    rw [hship, hI.2 uri h t hold]
    rcases hdata h t with he | ⟨n, hn, -⟩
    · exact he.symm
    · exact absurd hn (hj n)

theorem volumeInv {m₀ : Machines} {tr : List (Ev Sh (HostId × VolumeJob) ι)}
    {c : Conf Sh Machines (HostId × VolumeJob) ι Unit}
    (hr : Reach shell (volumeJobs env) keepsVolumes (Conf.idle m₀) tr c) : VolumeInv tr c.world ∧
      ∀ i j p, c.proc i = some (j, p) → ∃ g, fillings.locs tr i = some g ∧ p.obeys fillings (fun _ _ => True) g := by
  have hinit : VolumeInv ([] : List (Ev Sh (HostId × VolumeJob) ι)) m₀ :=
    ⟨fun i h t hi => (by cases hi), fun uri h t hd => by cases hd⟩
  have hcall : ∀ (tr : List (Ev Sh (HostId × VolumeJob) ι)) m i g c r m', VolumeInv tr m → fillings.locs tr i = some g →
      fillings.allow g c → keepsVolumes tr m (.call i c r) → shell.step c r m m' →
      fillings.sane g c r ∧ VolumeInv (tr ++ [.call i c r]) m' := by
    intro tr m i g c r m' hI hl ha hok hs
    refine ⟨trivial, ?_, ?_⟩
    · simp only [Protocol.locs_snoc, Protocol.stepLoc, hl, wholeVolume, List.foldl_append, List.foldl_cons, List.foldl_nil]
      exact NeededEmpty.call hI.1 hl ha hok.1 hok.2.1 hs
    · simp only [lastDump, List.foldl_append, List.foldl_cons, List.foldl_nil]
      exact Dumped.call hI.2 i hs
  obtain ⟨hI, -, hp⟩ := Reach.protocol volumeJobs_obey hinit (fun _ _ _ _ _ hI _ _ hs => hI.start hs) hcall hr
  exact ⟨hI, hp⟩

/-- The volume of a migration arrives on the host. -/
def Arrives (h : HostId) (t : TenantId) (e : Ev Sh (HostId × VolumeJob) ι) : Prop :=
  ∃ i uri r, e = .call i ⟨h, t, .fetch .data uri⟩ r

/-- Every process that works on the tenant's directory is one of the later operations. -/
def OnlyLater (h : HostId) (t : TenantId) (tr : List (Ev Sh (HostId × VolumeJob) ι)) :
    Ev Sh (HostId × VolumeJob) ι → Prop
  | .start _ _ => True
  | .call i c _ => c.host = h ∧ c.tenant = t → ∃ f, fillings.locs tr i = some (h, some f)

/-- What a step of the later operations leaves of the volumes. -/
structure Survives (tr : List (Ev Sh (HostId × VolumeJob) ι)) (m : Machines) (e : Ev Sh (HostId × VolumeJob) ι)
    (m' : Machines) : Prop where
  /-- A whole volume stays, or what its guest, an injection, a check or growth in place make of it. -/
  kept : ∀ h t v, OnlyLater h t tr e → wholeVolume h t tr = true → (m.dir h t).data = some v →
    (∃ v', (m'.dir h t).data = some v' ∧ Grown v v') ∨ Arrives h t e
  /-- A migration brings the volume that the tenant has where it was dumped. -/
  arrived : ∀ h t, Arrives h t e → ∃ h₀ v, (m.dir h₀ t).data = some v ∧ (m'.dir h t).data = some v
  /-- A volume is made from the template for a tenant that has no whole one. -/
  made : ∀ i h t r f, e = .call i ⟨h, t, .copyTemplate⟩ r → fillings.locs tr i = some (h, some f) →
    ∀ h', wholeVolume h' t tr = true → (m.dir h' t).data = none

end Runs

/-! ## Runs, computed -/

def volumeStart (j : HostId × VolumeJob) (m : Machines) : Option Machines :=
  match j with
  | (h, .host j) => hostStart h j m
  | (h, .refresh v) => some (m.updHost h fun x => { x with template := v })
  | (h, .guest tid n) => some (m.upd h tid fun d => { d with data := d.data.map fun v => v.push (.guest n) })
  | (_, .elsewhere) => some m

theorem volumeStart_sound {env : PlatformEnv} :
    ∀ (j : HostId × VolumeJob) (m m' : Machines), volumeStart j m = some m' → (volumeJobs env).start j m m' := by
  rintro ⟨h, j⟩ m m' he
  cases j with
  | host j => exact (hostStart_sound j m m' he : (hostJobs env h).start j m m')
  | refresh | guest => exact (Option.some.inj he).symm
  | elsewhere =>
    obtain rfl : m = m' := Option.some.inj he
    exact ⟨rfl, rfl⟩

/-- The size of the template that the process on the host has read for the tenant. -/
def Filling.sizeRead (h : HostId) (tid : TenantId) : Option (HostId × Option Filling) → Option Nat
  | some (h', some (.sized t s)) => if h' = h ∧ t = tid then some s else none
  | _ => none

/-- The process is about to make a volume for the tenant. -/
def Filling.making (tid : TenantId) : Option (HostId × Option Filling) → Bool
  | some (_, some (.needed t)) => t = tid
  | _ => false

/-- The size that the statement truncates to. -/
def ShellOp.cutTo : ShellOp → Option Nat
  | .truncate mb => some mb
  | _ => none

/-- The prefix that the statement fetches a volume from. -/
def ShellOp.fetchedFrom : ShellOp → Option String
  | .fetch .data uri => some uri
  | _ => none

/-- The condition, for runs in which every launch finds a volume. -/
def keepsVolumesCheck (tr : List (Ev Sh (HostId × VolumeJob) ℕ)) (m : Machines) :
    Ev Sh (HostId × VolumeJob) ℕ → Bool
  | .start _ _ => true
  | .call i c r =>
    (c.op ≠ .dataSize || (Filling.sizeRead c.host c.tenant (fillings.locs tr i)).all fun s =>
      wholeVolume c.host c.tenant tr && (m.dir c.host c.tenant).data.any fun v => v.size = s) &&
    (c.op.makes r ≠ some true || (processesOf tr).all fun j => !Filling.making c.tenant (fillings.locs tr j) || j = i) &&
    (c.op.cutTo.all fun mb => (m.dir c.host c.tenant).data.all fun v => v.size ≤ bytes mb) &&
    c.op.fetchedFrom.all fun uri => c.op.makes r = some true && (lastDump uri tr).any fun d => d.2 = c.tenant

theorem keepsVolumesCheck_sound {tr : List (Ev Sh (HostId × VolumeJob) ℕ)} {m : Machines}
    {e : Ev Sh (HostId × VolumeJob) ℕ} (hc : keepsVolumesCheck tr m e = true) : keepsVolumes tr m e := by
  cases e with
  | start i j => trivial
  | call i c r =>
    simp only [keepsVolumesCheck, Bool.and_eq_true] at hc
    obtain ⟨⟨⟨hlook, hmake⟩, hcut⟩, hfetch⟩ := hc
    refine ⟨fun ho s hl => .inr ?_, fun ho j h hj => ?_, fun mb ho v hv => ?_, fun uri ho => ?_⟩
    · have hsize : Filling.sizeRead c.host c.tenant (fillings.locs tr i) = some s := by
        rw [hl]
        simp [Filling.sizeRead]
      rw [hsize] at hlook
      simpa [ho, Option.any_eq_true] using hlook
    · have hall : ∀ k ∈ processesOf tr, Filling.making c.tenant (fillings.locs tr k) = true → k = i := by
        simpa [ho, List.all_eq_true, imp_iff_not_or] using hmake
      exact hall j (Protocol.mem_processesOf hj) (by rw [hj]; simp [Filling.making])
    · simpa [ho, hv, ShellOp.cutTo] using hcut
    · have hfetch : c.op.makes r = some true ∧ (lastDump uri tr).any (fun d => d.2 = c.tenant) = true := by
        simpa [ho, ShellOp.fetchedFrom] using hfetch
      obtain ⟨d, hd, ht⟩ := (Option.any_eq_true _ _).1 hfetch.2
      exact ⟨hfetch.1, d.1, by rw [hd, ← of_decide_eq_true ht]⟩

/-- Hosts without VMs. -/
def emptyHosts : Machines := { machine := fun _ => { template := ⟨0, bytes 2048, []⟩ } }

/-- A tenant whose volume has been made on the first host. -/
def hostedVolume : Machines := emptyHosts.upd "i-1" "a-0000" fun d => { d with data := some ⟨0, bytes 2048, []⟩ }

/-- The commands that create a tenant, restart it, give its volume 4 GiB, and take it to another host. -/
def createPlain : VolumeJob := .host (.ssm (.launchVm "a-0000" 1 2 4096 "" "" []))

def restartPlain : VolumeJob :=
  .host (.ssm (.and (.and (.stopVm "a-0000" 1) (.sleep 2)) (.launchVm "a-0000" 1 2 4096 "" "" [])))

def growTo (mb : Int) : VolumeJob := .host (.ssm (.resizeDisk "a-0000" 1 mb))

def migratePlain (verb : MigrateVerb) : VolumeJob := .host (.ssm (.migrateVm verb "a-0000" 1 "s3://b/a-0000"))

/-- A tenant is restarted, its guest writes, and it is dumped and restored on another host, up to the download of its
volume. -/
def restartedMigrated : List (Move (HostId × VolumeJob) ℕ ShellHint) :=
  List.flatten [[.start 0 ("i-1", restartPlain)], List.replicate 26 (.call 0 {}),
    [.start 1 ("i-1", .guest "a-0000" 7), .start 2 ("i-1", migratePlain .coldDump)], List.replicate 13 (.call 2 {}),
    [.start 3 ("i-2", migratePlain .coldRestore)], List.replicate 2 (.call 3 {})]

/-- A tenant is created, its guest writes, its volume is resized, and it is restarted, up to the look at the volume. -/
def resizedRestarted : List (Move (HostId × VolumeJob) ℕ ShellHint) :=
  List.flatten [[.start 0 ("i-1", createPlain)], List.replicate 20 (.call 0 {}),
    [.start 1 ("i-1", .guest "a-0000" 7), .start 2 ("i-1", growTo 4096)], List.replicate 7 (.call 2 {}),
    [.start 3 ("i-1", restartPlain)], List.replicate 18 (.call 3 {})]

end OpenClaw
