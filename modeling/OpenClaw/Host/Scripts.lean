import OpenClaw.Host.Machine

/-!
# The scripts of a host

`launch-vm.sh`, `stop-vm.sh`, `resize-disk.sh`, `backup-data.sh`, `clone-data.sh` and `migrate-vm.sh` as programs of
statements; the result is the exit status. `HostCmd.run` gives the commands of the control plane their meaning.
-/

namespace OpenClaw

open Atomic

/-- `/etc/platform.env`. -/
structure PlatformEnv where
  balloonEnabled : Bool := false
  /-- `MIGRATION_SENTINEL_TTL`. -/
  sentinelTtl : Time := 900000000

section Scripts

variable (env : PlatformEnv) (h : HostId) (tid : TenantId)

/-- Under `set -e`: a failure ends the script. -/
def orExit (p : ShProg Bool) (k : ShProg Bool) : ShProg Bool := do
  let ok ← p
  if ok then k else pure false

/-! ## launch-vm.sh -/

/-- How `launch-vm.sh` leaves its main part: to its end, through the `ERR` trap, or with `exit`. -/
inductive LaunchEnd
  | ok
  | err
  | exit
deriving DecidableEq

/-- A statement of `launch-vm.sh` and what follows it. -/
def orTrap (p : ShProg Bool) (k : ShProg LaunchEnd) : ShProg LaunchEnd := do
  let ok ← p
  if ok then k else pure .err

/-- `NEEDS_INIT`: there is no volume, or there is no restore key and the size differs from the template's. -/
def needsInit (size : Option Nat) (restoreKey : String) (templateSize : Nat) : Bool :=
  match size with
  | none => true
  | some s => restoreKey = "" && s ≠ templateSize

/-- Initialise the volume: from the backup, or from the template. -/
def initVolume (restoreKey : String) (k : ShProg LaunchEnd) : ShProg LaunchEnd := do
  let _ ← sh h tid .rmData
  if restoreKey ≠ "" then
    orTrap (sh h tid (.fetchBackup restoreKey)) (orTrap (sh h tid (.unpackBackup restoreKey)) (do
      let ok ← sh h tid .fsck
      if ok then k else pure .exit))
  else orTrap (sh h tid .copyTemplate) k

/-- The data volume: initialised the first time, reused later. -/
def prepareVolume (restoreKey : String) (k : ShProg LaunchEnd) : ShProg LaunchEnd := do
  let size ← sh h tid .templateSize
  match size with
  | none => pure .err
  | some size =>
    orTrap (sh h tid .makeOverlay) (do
      let found ← sh h tid .dataSize
      if needsInit found restoreKey size then initVolume h tid restoreKey k else k)

/-- From the injection into the volume to the booting VM. -/
def startVm (cfg : VmConfig) (skills : List String) : ShProg LaunchEnd :=
  orTrap (sh h tid (.inject cfg.configTemplate skills)) (orTrap (sh h tid (.setup "tap and iptables")) (do
    let _ ← sh h tid .startFc
    let _ ← sh h tid (.sleep 1)
    orTrap (sh h tid .configure) (do
      let ok ← sh h tid .instanceStart
      if ok then pure .ok else pure .exit)))

/-- `launch-vm.sh` up to `InstanceStart`. -/
def launchSteps (cfg : VmConfig) (restoreKey : String) (skills : List String) : ShProg LaunchEnd := do
  let _ ← sh h tid .mkdir
  let _ ← sh h tid .rmStopped
  if cfg.vmNum < 1 then pure .exit
  else do
    let ok ← sh h tid (.addressOk cfg.vmNum)
    if ok then do
      let _ ← sh h tid (.writeVmJson cfg)
      let _ ← sh h tid .pkill
      let _ ← sh h tid .rmSock
      prepareVolume h tid restoreKey (startVm h tid cfg skills)
    else pure .exit

/-- `_oc_cleanup_on_err`: a Firecracker that runs is left alive. -/
def cleanupOnErr : ShProg Unit := do
  let sock ← sh h tid .testSock
  if sock then do
    let alive ← sh h tid .pgrep
    if alive then pure () else sh h tid .rmSock
  else sh h tid .rmSock

/-- `launch-vm.sh`. -/
def launchVmSh (cfg : VmConfig) (restoreKey : String) (skills : List String) : ShProg Bool := do
  let _ ← sh h tid (.begin .launch)
  let out ← launchSteps h tid cfg restoreKey skills
  match out with
  | .ok => do
    let _ ← sh h tid (.setup "nginx")
    let _ ← sh h tid (.done .launch)
    pure true
  | .err => do
    cleanupOnErr h tid
    let _ ← sh h tid (.done .launch)
    pure false
  | .exit => do
    let _ ← sh h tid (.done .launch)
    pure false

/-! ## stop-vm.sh -/

/-- `stop-vm.sh`: no statement can end it early. -/
def stopVmSh : ShProg Bool := do
  let _ ← sh h tid (.begin .stop)
  let _ ← sh h tid (.sleep 2)
  let _ ← sh h tid .pkill
  let _ ← sh h tid .rmSock
  let _ ← sh h tid .touchStopped
  let _ ← sh h tid (.setup "nginx")
  let _ ← sh h tid (.done .stop)
  pure true

/-! ## resize-disk.sh, backup-data.sh and clone-data.sh -/

/-- `resize-disk.sh`. A failure after the pause leaves the VM paused. -/
def resizeDiskSh (mb : Nat) : ShProg Bool := do
  let found ← sh h tid .dataSize
  if found.isNone then pure false
  else
    orExit (sh h tid .testSock) (orExit (sh h tid .pause) (orExit (sh h tid (.truncate mb)) (do
      let _ ← sh h tid .fsck
      orExit (sh h tid .resize2fs) (sh h tid .resume))))

/-- `if [ -S "$SOCK" ]` around a request to Firecracker whose failure is ignored. -/
def ifSock (op : ShellOp) : ShProg Unit := do
  let sock ← sh h tid .testSock
  if sock then do
    let _ ← sh h tid op
    pure ()
  else pure ()

/-- The `EXIT` trap of `backup-data.sh`: it resumes the VM once more. -/
def backupExit (ok : Bool) : ShProg Bool := do
  let _ ← sh h tid .rmGz
  ifSock h tid .resume
  pure ok

/-- `backup-data.sh`. Without a compressed copy the arithmetic on its size fails, and `set -u` ends the script at the
next line. -/
def backupDataSh (key : String) : ShProg Bool := do
  let found ← sh h tid .dataSize
  if found.isNone then backupExit h tid false
  else do
    ifSock h tid .pause
    let _ ← sh h tid .compress
    ifSock h tid .resume
    let gz ← sh h tid .gzSize
    if gz.isNone then backupExit h tid false
    else do
      let _ ← sh h tid (.uploadBackup key)
      let _ ← sh h tid .rmGz
      backupExit h tid true

/-- The overlay of a clone: the status of the copy is not looked at. -/
def copyOverlaySh (src : TenantId) : ShProg Unit := do
  let found ← sh h src .testOverlay
  if found then do
    let _ ← sh h tid (.copyOverlay src)
    pure ()
  else pure ()

/-- The copy of `clone-data.sh`, made on the source `src` for `tid`. -/
def copyClone (src : TenantId) : ShProg Bool := do
  let _ ← sh h tid (.copyData src)
  copyOverlaySh h tid src
  ifSock h src .resume
  sh h tid .fsck

/-- `clone-data.sh`; its `EXIT` trap resumes the source. -/
def cloneDataSh (src : TenantId) : ShProg Bool := do
  let found ← sh h src .dataSize
  if found.isNone then do
    ifSock h src .resume
    pure false
  else do
    let _ ← sh h tid .mkdir
    let sock ← sh h src .testSock
    if sock then do
      let paused ← sh h src .pause
      if paused then do
        let ok ← copyClone h tid src
        ifSock h src .resume
        pure ok
      else do
        ifSock h src .resume
        pure false
    else do
      let ok ← copyClone h tid src
      ifSock h src .resume
      pure ok

/-! ## migrate-vm.sh -/

/-- Statements whose failure is ignored. -/
def besteffort : List ShellOp → ShProg Unit
  | [] => pure ()
  | op :: ops => do
    let _ ← sh h tid op
    besteffort ops

/-- The same, when ballooning is on. -/
def whenBalloon (ops : List ShellOp) : ShProg Unit := if env.balloonEnabled then besteffort h tid ops else pure ()

/-- The disks that are shipped when they exist. -/
def disks : List ShippedFile := [.data, .overlay, .other "rootfs.ext4"]

/-- `snapshot`. -/
def snapshotSh (uri : String) : ShProg Bool :=
  orExit (sh h tid .testSock) (do
    whenBalloon env h tid [.touchSentinel, .sleep 6, .setup "balloon"]
    let paused ← sh h tid .pause
    if paused then do
      let taken ← sh h tid .createSnapshot
      let _ ← sh h tid .resume
      whenBalloon env h tid [.rmSentinel]
      if taken then
        orExit (sh h tid (.ship (.other "snapshot.vm") uri)) (orExit (sh h tid (.ship (.other "snapshot.mem") uri))
          (orExit (sh h tid (.ship .vmJson uri)) (do
            besteffort h tid (disks.map (.ship · uri))
            pure true)))
      else do
        -- The `EXIT` trap is set only when ballooning is on, and it is taken off once the snapshot is there.
        whenBalloon env h tid [.resume, .rmSentinel]
        pure false
    else do
      whenBalloon env h tid [.rmSentinel, .resume, .rmSentinel]
      pure false)

/-- The part of `restore` under the sentinel. -/
def restoreSteps (uri : String) : ShProg Bool := do
  besteffort h tid (disks.map (.fetch · uri))
  orExit (sh h tid (.fetch (.other "snapshot.vm") uri)) (orExit (sh h tid (.fetch (.other "snapshot.mem") uri))
    (orExit (sh h tid (.fetch .vmJson uri)) (orExit (sh h tid (.setup "tap and iptables")) (do
      let _ ← sh h tid .rmSock
      let _ ← sh h tid .startFc
      orExit (sh h tid .loadSnapshot) (do
        let _ ← sh h tid (.setup "nginx")
        pure true)))))

/-- Run under the sentinel; the `EXIT` trap removes it. -/
def underSentinel (p : ShProg Bool) : ShProg Bool := do
  let _ ← sh h tid .mkdir
  let _ ← sh h tid .touchSentinel
  let ok ← p
  let _ ← sh h tid .rmSentinel
  pure ok

/-- `cold-dump`: a disk that could not be shipped is skipped, `vm.json` is not. -/
def coldDumpSh (uri : String) : ShProg Bool := do
  let _ ← stopVmSh h tid
  let _ ← sh h tid (.sleep 2)
  besteffort h tid (disks.map (.ship · uri))
  let cfg ← sh h tid .readVmJson
  if cfg.isSome then sh h tid (.ship .vmJson uri) else pure true

/-- The part of `cold-restore` under the sentinel; a disk that could not be fetched is skipped. -/
def coldRestoreSteps (vmNum : Int) (uri : String) : ShProg Bool := do
  besteffort h tid (disks.map (.fetch · uri))
  let _ ← sh h tid (.fetch .vmJson uri)
  let cfg ← sh h tid .readVmJson
  launchVmSh h tid { vmNum := vmNum, vcpu := cfg.elim 2 VmConfig.vcpu, memMb := cfg.elim 4096 VmConfig.memMb } "" []

/-- `migrate-vm.sh`. -/
def migrateVmSh (verb : MigrateVerb) (vmNum : Int) (uri : String) : ShProg Bool :=
  match verb with
  | .snapshot => snapshotSh env h tid uri
  | .restore => underSentinel h tid (restoreSteps h tid uri)
  | .coldDump => coldDumpSh h tid uri
  | .coldRestore => underSentinel h tid (coldRestoreSteps h tid vmNum uri)

/-! ## The commands of the control plane -/

/-- A statement that always succeeds. -/
def succeed (op : ShellOp) : ShProg Bool := do
  let _ ← sh h tid op
  pure true

end Scripts

/-- What a command does on the host. -/
def HostCmd.run (env : PlatformEnv) (h : HostId) : HostCmd → ShProg Bool
  | .launchVm tid n v m template key skills =>
    launchVmSh h tid { vmNum := n, vcpu := v, memMb := m, configTemplate := template } key skills
  | .stopVm tid _ => stopVmSh h tid
  | .migrateVm verb tid n uri => migrateVmSh env h tid verb n uri
  | .cloneData src _ tid _ => cloneDataSh h tid src
  | .resizeDisk tid _ mb => resizeDiskSh h tid mb.toNat
  | .machineConfig tid v m => sh h tid (.machineConfig v m)
  -- `curl -s` fails only when Firecracker cannot be reached.
  | .vmState tid true => sh h tid .pause
  | .vmState tid false => sh h tid .resume
  | .removeVmJson tid => succeed h tid .rmVmJson
  | .removeOverlay tid => succeed h tid .rmOverlay
  | .removeVmDir tid => succeed h tid .rmDir
  | .dnatAdd _ _ => sh h "" (.setup "DNAT")
  | .dnatDel _ _ => succeed h "" (.setup "DNAT")
  | .removePeerConf tid => sh h tid (.setup "nginx")
  | .removeTenantConf tid => sh h tid (.setup "nginx")
  | .sleep n => succeed h "" (.sleep n)
  | .and a b => orExit (a.run env h) (b.run env h)
  | .seq a b => do
    let _ ← a.run env h
    b.run env h

end OpenClaw
