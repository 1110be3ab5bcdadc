import OpenClaw.Control.Calls

/-!
# Hosts

The state of a host as the scripts and the agent see it: for each tenant a directory with `vm.json`, the marker files,
the data volume and the Firecracker process on its socket, and the memory of the agent. The statements of the scripts
that touch this state are calls (`ShellOp`) on the directory of one tenant on one host. A `Bool` answer is the exit
status of the statement; a statement that failed changed nothing, except that a copy may have left anything behind.
-/

namespace OpenClaw

open Atomic

/-! ## Data volumes -/

/-- Something that changed the content of a volume. -/
inductive DataEvent
  | guest (n : Nat)
  /-- Skills, `openclaw.json` and the SSH key. -/
  | inject
  | grow (mb : Nat)
  /-- `e2fsck` and `resize2fs`. -/
  | fsck
  /-- Truncated below its size. -/
  | cut (mb : Nat)
deriving DecidableEq

/-- An `ext4` image: the image it was copied from, and what happened to it since. -/
structure Volume where
  image : Nat
  size : Nat
  history : List DataEvent := []
deriving DecidableEq

def Volume.push (v : Volume) (e : DataEvent) : Volume := { v with history := v.history ++ [e] }

def bytes (mb : Nat) : Nat := mb * 1048576

/-- `truncate -s <mb>M`. -/
def Volume.truncate (v : Volume) (mb : Nat) : Volume :=
  { v.push (if v.size ≤ bytes mb then .grow mb else .cut mb) with size := bytes mb }

/-! ## Tenant directories -/

/-- The Firecracker process on the tenant's socket. -/
inductive Fc
  | absent
  /-- Started, without a VM. -/
  | booting
  | running
  | paused
deriving DecidableEq

/-- `vm.json`. -/
structure VmConfig where
  vmNum : Int
  vcpu : Int
  memMb : Int
  configTemplate : String := ""
deriving DecidableEq

structure VmDir where
  vmJson : Option VmConfig := none
  /-- `.stopped`. -/
  stopped : Bool := false
  /-- The modification time of `.migrating`. -/
  sentinel : Option Time := none
  /-- `fc.sock`. -/
  sock : Bool := false
  fc : Fc := .absent
  /-- `data.ext4`. -/
  data : Option Volume := none
  /-- `overlay.ext4`. -/
  overlay : Option Volume := none
  /-- The compressed copy that `backup-data.sh` makes. -/
  gz : Option Volume := none

/-- What `migrate-vm.sh` ships through S3 for a tenant. -/
structure Shipped where
  data : Option Volume := none
  overlay : Option Volume := none
  vmJson : Option VmConfig := none

/-- The files of a shipment. -/
inductive ShippedFile
  | data
  | overlay
  | vmJson
  /-- `snapshot.vm`, `snapshot.mem` or `rootfs.ext4`. -/
  | other (name : String)
deriving DecidableEq

/-! ## Hosts -/

structure Machine where
  dirs : TenantId → VmDir := fun _ => {}
  /-- `openclaw-data-template.ext4`. -/
  template : Volume
  /-- `_recovering`. -/
  recovering : TenantId → Bool := fun _ => false
  /-- `_net_dead_polls`. -/
  netDead : TenantId → Nat := fun _ => 0
  /-- The `launch-vm.sh` processes the agent forked and that have not begun. -/
  forked : List (TenantId × VmConfig) := []
  /-- A poll is under way. -/
  polling : Bool := false

structure Machines where
  machine : HostId → Machine
  /-- The backups in the assets bucket. -/
  backups : String → Option Volume := fun _ => none
  shipped : String → Shipped := fun _ => {}
  clock : Time := 0

namespace Machines

variable (m : Machines) (h : HostId) (tid : TenantId)

def dir : VmDir := (m.machine h).dirs tid

/-- Change one host. -/
def updHost (f : Machine → Machine) : Machines := { m with machine := Function.update m.machine h (f (m.machine h)) }

/-- Change one directory. -/
def upd (f : VmDir → VmDir) : Machines :=
  m.updHost h fun x => { x with dirs := Function.update x.dirs tid (f (x.dirs tid)) }

def setClock (t : Time) : Machines := { m with clock := t }

def setBackup (key : String) (v : Volume) : Machines := { m with backups := Function.update m.backups key (some v) }

def setShipped (uri : String) (s : Shipped) : Machines := { m with shipped := Function.update m.shipped uri s }

section Frame

variable {m} {h' : HostId} {tid' : TenantId} {f : VmDir → VmDir} {g : Machine → Machine}

@[simp] theorem machine_updHost_self : (m.updHost h g).machine h = g (m.machine h) := Function.update_self ..

theorem machine_updHost_of_ne (hh : h' ≠ h) : (m.updHost h g).machine h' = m.machine h' := Function.update_of_ne hh ..

@[simp] theorem dir_upd_self : (m.upd h tid f).dir h tid = f (m.dir h tid) := by simp [upd, updHost, dir]

theorem dir_upd_of_ne (hne : ¬ (h' = h ∧ tid' = tid)) : (m.upd h tid f).dir h' tid' = m.dir h' tid' := by
  by_cases hh : h' = h
  · subst hh
    have ht : tid' ≠ tid := fun e => hne ⟨rfl, e⟩
    simp [upd, updHost, dir, Function.update_of_ne ht]
  · simp [upd, updHost, dir, Function.update_of_ne hh]

theorem dir_updHost (hg : ∀ x, (g x).dirs = x.dirs) : (m.updHost h g).dir h' tid' = m.dir h' tid' := by
  by_cases hh : h' = h
  · subst hh
    simp [updHost, dir, hg]
  · simp [updHost, dir, Function.update_of_ne hh]

@[simp] theorem dir_setClock (t : Time) : (m.setClock t).dir h tid = m.dir h tid := rfl
@[simp] theorem dir_setBackup (key : String) (v : Volume) : (m.setBackup key v).dir h tid = m.dir h tid := rfl
@[simp] theorem dir_setShipped (uri : String) (s : Shipped) : (m.setShipped uri s).dir h tid = m.dir h tid := rfl

end Frame

end Machines

/-! ## Calls -/

/-- The scripts whose executions are followed. -/
inductive Script
  | launch
  | stop
deriving DecidableEq

/-- One statement on the directory of a tenant. -/
inductive ShellOp
  -- The script's process begins and ends.
  | begin (s : Script)
  | done (s : Script)
  -- Marker files
  | mkdir
  | rmStopped
  | touchStopped
  | testStopped
  | writeVmJson (cfg : VmConfig)
  | readVmJson
  | rmVmJson
  | touchSentinel
  | rmSentinel
  /-- `_is_migrating`, with `MIGRATION_SENTINEL_TTL`. -/
  | isMigrating (ttl : Time)
  | testSock
  | rmSock
  | rmDir
  -- Disks
  /-- `stat -c%s` of the data template. -/
  | templateSize
  /-- The same of `data.ext4`, if it is there. -/
  | dataSize
  | rmData
  | copyTemplate
  /-- `aws s3 cp` of a backup. -/
  | fetchBackup (key : String)
  | unpackBackup (key : String)
  | fsck
  | inject (template : String) (skills : List String)
  | truncate (mb : Nat)
  | resize2fs
  /-- `cp --sparse=always` from another tenant's directory. -/
  | copyData (src : TenantId)
  /-- `pigz`. -/
  | compress
  /-- `stat -c%s` of the compressed copy. -/
  | gzSize
  | uploadBackup (key : String)
  | rmGz
  /-- A new `overlay.ext4`, unless there is one. -/
  | makeOverlay
  | testOverlay
  | copyOverlay (src : TenantId)
  | rmOverlay
  | ship (f : ShippedFile) (uri : String)
  | fetch (f : ShippedFile) (uri : String)
  -- Network and nginx
  /-- The guest address of a VM number fits the subnet. -/
  | addressOk (vmNum : Int)
  | setup (what : String)
  -- Firecracker
  | pkill
  | startFc
  | configure
  | instanceStart
  | loadSnapshot
  | createSnapshot
  | pause
  | resume
  | machineConfig (vcpu memMb : Int)
  -- The agent
  | listDir
  | pgrep
  | ping
  | isRecovering
  | setRecovering (b : Bool)
  | netDead
  | setNetDead (n : Nat)
  /-- `subprocess.Popen` of `launch-vm.sh`. -/
  | popen (cfg : VmConfig)
  /-- The 30 seconds of a run of `stop-vm.sh` are not over. -/
  | inTime
  | endPoll
  | sleep (sec : Nat)
deriving DecidableEq

abbrev ShellOp.Ans : ShellOp → Type
  | .begin _ | .done _ | .mkdir | .rmStopped | .touchStopped | .writeVmJson _ | .rmVmJson | .rmSentinel | .rmSock
  | .rmDir | .rmData | .rmGz | .rmOverlay | .pkill | .startFc | .setRecovering _ | .setNetDead _ | .endPoll
  | .sleep _ => Unit
  | .readVmJson => Option VmConfig
  | .templateSize | .dataSize | .gzSize => Option Nat
  | .listDir => List TenantId
  | .netDead => Nat
  | _ => Bool

structure ShellCall where
  host : HostId
  tenant : TenantId
  op : ShellOp
deriving DecidableEq

/-- The statements of the hosts as a signature. -/
abbrev Sh : Sig := ⟨ShellCall, fun c => c.op.Ans⟩

abbrev ShProg := Prog Sh

/-- One statement. -/
abbrev sh (h : HostId) (tid : TenantId) (op : ShellOp) : ShProg op.Ans := @Prog.lift Sh ⟨h, tid, op⟩

@[simp] theorem sh_bind {β : Type} (h : HostId) (tid : TenantId) (op : ShellOp) (f : op.Ans → ShProg β) :
    @Bind.bind ShProg _ (no_index op.Ans) β (sh h tid op) f = @Prog.call Sh β ⟨h, tid, op⟩ f := rfl

/-- The file of the shipment, taken from the directory. -/
def VmDir.put (d : VmDir) (f : ShippedFile) (s : Shipped) : Shipped :=
  match f with
  | .data => { s with data := d.data }
  | .overlay => { s with overlay := d.overlay }
  | .vmJson => { s with vmJson := d.vmJson }
  | .other _ => s

/-- The file of the shipment, put into the directory. -/
def Shipped.get (s : Shipped) (f : ShippedFile) (d : VmDir) : VmDir :=
  match f with
  | .data => { d with data := s.data }
  | .overlay => { d with overlay := s.overlay }
  | .vmJson => { d with vmJson := s.vmJson }
  | .other _ => d

/-- The directory, or the shipment, has the file. -/
def VmDir.has (d : VmDir) : ShippedFile → Bool
  | .data => d.data.isSome
  | .overlay => d.overlay.isSome
  | .vmJson => d.vmJson.isSome
  | .other _ => true

def Shipped.has (s : Shipped) : ShippedFile → Bool
  | .data => s.data.isSome
  | .overlay => s.overlay.isSome
  | .vmJson => s.vmJson.isSome
  | .other _ => true

/-- What a complete copy of a file leaves; while its VM runs, the guest writes to the file and the copy may be torn. -/
def CopyOf (d : VmDir) (file v : Option Volume) : Prop := v.isSome ∧ (d.fc ≠ .running → v = file)

/-- A statement that may fail without an effect. -/
def did (r : Bool) (m m₁ m' : Machines) : Prop := if r then m' = m₁ else m' = m

/-- The answers a statement may get, and the hosts after it. -/
def opStep (h : HostId) (tid : TenantId) : (op : ShellOp) → op.Ans → Machines → Machines → Prop
  | .begin _, _, m, m' => m' = m
  | .done _, _, m, m' => m' = m
  | .mkdir, _, m, m' => m' = m
  | .rmStopped, _, m, m' => m' = m.upd h tid fun d => { d with stopped := false }
  | .touchStopped, _, m, m' => m' = m.upd h tid fun d => { d with stopped := true }
  | .testStopped, r, m, m' => r = (m.dir h tid).stopped ∧ m' = m
  | .writeVmJson cfg, _, m, m' => m' = m.upd h tid fun d => { d with vmJson := some cfg }
  | .readVmJson, r, m, m' => r = (m.dir h tid).vmJson ∧ m' = m
  | .rmVmJson, _, m, m' => m' = m.upd h tid fun d => { d with vmJson := none }
  | .touchSentinel, r, m, m' => ∃ t, m.clock ≤ t ∧
      did r m ((m.setClock t).upd h tid fun d => { d with sentinel := some t }) m'
  | .rmSentinel, _, m, m' => m' = m.upd h tid fun d => { d with sentinel := none }
  | .isMigrating ttl, r, m, m' => ∃ t, m.clock ≤ t ∧ r = (m.dir h tid).sentinel.any (fun s => t - s ≤ ttl) ∧
      m' = m.setClock t
  | .testSock, r, m, m' => r = (m.dir h tid).sock ∧ m' = m
  | .rmSock, _, m, m' => m' = m.upd h tid fun d => { d with sock := false }
  | .rmDir, _, m, m' => m' = m.upd h tid fun d => { fc := d.fc, gz := d.gz }
  | .templateSize, r, m, m' => (∀ s, r = some s → s = (m.machine h).template.size) ∧ m' = m
  | .dataSize, r, m, m' => r = (m.dir h tid).data.map Volume.size ∧ m' = m
  | .rmData, _, m, m' => m' = m.upd h tid fun d => { d with data := none }
  | .copyTemplate, r, m, m' => ∃ v, (r = true → v = some (m.machine h).template) ∧
      m' = m.upd h tid fun d => { d with data := v }
  | .fetchBackup key, r, m, m' => (r = true → (m.backups key).isSome) ∧ m' = m
  | .unpackBackup key, r, m, m' => ∃ v, (r = true → v = m.backups key) ∧
      m' = m.upd h tid fun d => { d with data := v }
  | .fsck, _, m, m' => m' = m.upd h tid fun d => { d with data := d.data.map fun v => v.push .fsck }
  | .inject _ _, r, m, m' => (r = true → (m.dir h tid).data.isSome) ∧
      (m' = m.upd h tid (fun d => { d with data := d.data.map fun v => v.push .inject }) ∨ r = false ∧ m' = m)
  | .truncate mb, r, m, m' => did r m (m.upd h tid fun d => { d with data := d.data.map fun v => v.truncate mb }) m'
  | .resize2fs, r, m, m' => did r m (m.upd h tid fun d => { d with data := d.data.map fun v => v.push .fsck }) m'
  | .copyData src, r, m, m' => ∃ v, (r = true → CopyOf (m.dir h src) (m.dir h src).data v) ∧
      m' = m.upd h tid fun d => { d with data := v }
  | .compress, r, m, m' => ∃ v, (r = true → CopyOf (m.dir h tid) (m.dir h tid).data v) ∧
      m' = m.upd h tid fun d => { d with gz := v }
  | .gzSize, r, m, m' => r.isSome = (m.dir h tid).gz.isSome ∧ m' = m
  | .uploadBackup key, r, m, m' =>
    match (m.dir h tid).gz with
    | some v => did r m (m.setBackup key v) m'
    | none => r = false ∧ m' = m
  | .rmGz, _, m, m' => m' = m.upd h tid fun d => { d with gz := none }
  | .makeOverlay, r, m, m' => ∃ v, ((m.dir h tid).overlay.isSome → r = true ∧ v = (m.dir h tid).overlay) ∧
      (r = true → v.isSome) ∧ m' = m.upd h tid fun d => { d with overlay := v }
  | .testOverlay, r, m, m' => r = (m.dir h tid).overlay.isSome ∧ m' = m
  | .copyOverlay src, r, m, m' => ∃ v, (r = true → CopyOf (m.dir h src) (m.dir h src).overlay v) ∧
      m' = m.upd h tid fun d => { d with overlay := v }
  | .rmOverlay, _, m, m' => m' = m.upd h tid fun d => { d with overlay := none }
  | .ship f uri, r, m, m' => (r = true → (m.dir h tid).has f) ∧
      did r m (m.setShipped uri ((m.dir h tid).put f (m.shipped uri))) m'
  | .fetch f uri, r, m, m' => (r = true → (m.shipped uri).has f) ∧ did r m (m.upd h tid ((m.shipped uri).get f)) m'
  | .addressOk _, _, m, m' => m' = m
  | .setup _, _, m, m' => m' = m
  | .pkill, _, m, m' => m' = m.upd h tid fun d => { d with fc := .absent }
  | .startFc, _, m, m' => m' = m.upd h tid fun d => { d with fc := .booting, sock := true }
  | .configure, _, m, m' => m' = m
  | .instanceStart, r, m, m' => (r = true → (m.dir h tid).fc ≠ .absent) ∧
      did r m (m.upd h tid fun d => { d with fc := .running }) m'
  | .loadSnapshot, r, m, m' => (r = true → (m.dir h tid).fc ≠ .absent) ∧
      did r m (m.upd h tid fun d => { d with fc := .running }) m'
  | .createSnapshot, _, m, m' => m' = m
  | .pause, r, m, m' => (r = true → (m.dir h tid).fc = .running ∨ (m.dir h tid).fc = .paused) ∧
      did r m (m.upd h tid fun d => { d with fc := .paused }) m'
  | .resume, r, m, m' => (r = true → (m.dir h tid).fc = .running ∨ (m.dir h tid).fc = .paused) ∧
      did r m (m.upd h tid fun d => { d with fc := .running }) m'
  | .machineConfig _ _, _, m, m' => m' = m
  | .listDir, r, m, m' => r.Nodup ∧ m' = m
  | .pgrep, r, m, m' => r = decide ((m.dir h tid).fc ≠ .absent) ∧ m' = m
  -- A guest that is not running does not answer.
  | .ping, r, m, m' => (r = true → (m.dir h tid).fc = .running) ∧ m' = m
  | .isRecovering, r, m, m' => r = (m.machine h).recovering tid ∧ m' = m
  | .setRecovering b, _, m, m' =>
    m' = m.updHost h fun x => { x with recovering := Function.update x.recovering tid b }
  | .netDead, r, m, m' => r = (m.machine h).netDead tid ∧ m' = m
  | .setNetDead n, _, m, m' => m' = m.updHost h fun x => { x with netDead := Function.update x.netDead tid n }
  | .popen cfg, r, m, m' => did r m (m.updHost h fun x => { x with forked := x.forked ++ [(tid, cfg)] }) m'
  | .inTime, _, m, m' => m' = m
  | .endPoll, _, m, m' => m' = m.updHost h fun x => { x with polling := false }
  | .sleep _, _, m, m' => m' = m

/-- The meaning of the statements. -/
def shell : Sem Sh Machines := ⟨fun c => opStep c.host c.tenant c.op⟩

/-! ## What a statement leaves alone -/

/-- The statement writes the memory of the agent. -/
def ShellOp.writesAgent : ShellOp → Bool
  | .setRecovering _ | .setNetDead _ | .popen _ | .endPoll => true
  | _ => false

section Effects

variable {h : HostId} {tid : TenantId} {op : ShellOp} {r : op.Ans} {m m' : Machines}

theorem did.eq_or {r : Bool} {m m₁ m' : Machines} (hd : did r m m₁ m') : m' = m₁ ∨ m' = m := by
  cases r with
  | true => exact .inl hd
  | false => exact .inr hd

/-- The hosts after a change of at most one directory. -/
def Machines.sameBut (m : Machines) (h : HostId) (tid : TenantId) (m' : Machines) : Prop :=
  ∃ d, m'.machine = (m.upd h tid fun _ => d).machine

theorem Machines.sameBut.refl : m.sameBut h tid m := by
  refine ⟨m.dir h tid, ?_⟩
  have hd : Function.update (m.machine h).dirs tid (m.dir h tid) = (m.machine h).dirs := Function.update_eq_self ..
  simp [upd, updHost, hd]

theorem Machines.sameBut.upd (f : VmDir → VmDir) : m.sameBut h tid (m.upd h tid f) := ⟨f (m.dir h tid), rfl⟩

/-- The agents remember what they did. -/
theorem Machines.sameBut.agent (hb : m.sameBut h tid m') (h' : HostId) :
    ∃ dirs, m'.machine h' = { m.machine h' with dirs := dirs } := by
  obtain ⟨d, hd⟩ := hb
  rw [hd]
  by_cases e : h' = h
  · subst e
    exact ⟨_, machine_updHost_self ..⟩
  · exact ⟨_, machine_updHost_of_ne _ e⟩

/-- A change of one directory keeps what it keeps there. -/
theorem field_upd {β : Type} {f : VmDir → VmDir} {g : VmDir → β} (hf : ∀ d, g (f d) = g d) (t : TenantId) :
    g ((m.upd h tid f).dir h t) = g (m.dir h t) := by
  by_cases ht : t = tid
  · subst ht
    rw [Machines.dir_upd_self, hf]
  · rw [Machines.dir_upd_of_ne _ _ fun e => ht e.2]

/-- An upload: nothing, or the compressed copy under its key. -/
theorem upload_cases {key : String} {r : Bool} (hs : opStep h tid (.uploadBackup key) r m m') :
    m' = m ∨ r = true ∧ ∃ v, (m.dir h tid).gz = some v ∧ m' = m.setBackup key v := by
  cases hgz : (m.dir h tid).gz with
  | none =>
    simp only [opStep, hgz] at hs
    exact .inl hs.2
  | some v =>
    simp only [opStep, hgz] at hs
    cases r with
    | true => exact .inr ⟨rfl, v, rfl, hs⟩
    | false => exact .inl hs

/-- A statement that does not write the memory of the agent changes at most its directory. -/
theorem opStep_sameBut (ho : op.writesAgent = false) (hs : opStep h tid op r m m') : m.sameBut h tid m' := by
  cases op
  case setRecovering | setNetDead | popen | endPoll => cases ho
  case begin | done | mkdir | addressOk | setup | configure | createSnapshot | machineConfig | inTime | sleep =>
    obtain rfl : m' = m := hs
    exact .refl
  case rmStopped | touchStopped | writeVmJson | rmVmJson | rmSentinel | rmSock | rmDir | rmData | rmGz | rmOverlay |
      fsck | pkill | startFc =>
    obtain rfl := hs
    exact .upd _
  case testStopped | readVmJson | testSock | templateSize | dataSize | gzSize | testOverlay | fetchBackup | listDir |
      pgrep | ping | isRecovering | netDead =>
    obtain ⟨-, rfl⟩ := hs
    exact .refl
  case copyTemplate | unpackBackup | copyData | compress | copyOverlay =>
    obtain ⟨v, -, rfl⟩ := hs
    exact .upd _
  case makeOverlay =>
    obtain ⟨v, -, -, rfl⟩ := hs
    exact .upd _
  case truncate | resize2fs =>
    rcases did.eq_or hs with rfl | rfl
    · exact .upd _
    · exact .refl
  case instanceStart | loadSnapshot | pause | resume | fetch =>
    rcases hs.2.eq_or with rfl | rfl
    · exact .upd _
    · exact .refl
  case inject =>
    rcases hs.2 with rfl | ⟨-, rfl⟩
    · exact .upd _
    · exact .refl
  case touchSentinel =>
    obtain ⟨t, -, hs⟩ := hs
    rcases hs.eq_or with rfl | rfl
    · exact ⟨{ m.dir h tid with sentinel := some t }, rfl⟩
    · exact .refl
  case isMigrating =>
    obtain ⟨t, -, -, rfl⟩ := hs
    exact (.refl : m.sameBut h tid m)
  case uploadBackup key =>
    rcases upload_cases hs with rfl | ⟨-, v, -, rfl⟩
    · exact .refl
    · exact (.refl : m.sameBut h tid m)
  case ship =>
    rcases hs.2.eq_or with rfl | rfl
    · exact (.refl : m.sameBut h tid m)
    · exact .refl

/-- A statement on another directory. -/
theorem dir_elsewhere {h' : HostId} {t : TenantId} (hne : ¬ (h' = h ∧ t = tid)) (hs : opStep h tid op r m m') :
    m'.dir h' t = m.dir h' t := by
  by_cases hw : op.writesAgent = false
  · obtain ⟨d, hd⟩ := opStep_sameBut hw hs
    have hdir : m'.dir h' t = (m.upd h tid fun _ => d).dir h' t := by
      show (m'.machine h').dirs t = _
      rw [hd]
      rfl
    rw [hdir, Machines.dir_upd_of_ne _ _ hne]
  · cases op
    case setRecovering | setNetDead | endPoll =>
      obtain rfl := hs
      exact Machines.dir_updHost h fun _ => rfl
    case popen =>
      rcases did.eq_or hs with rfl | rfl
      · exact Machines.dir_updHost h fun _ => rfl
      · rfl
    all_goals exact absurd rfl hw

end Effects

/-! ## What a statement writes -/

/-- A part of the hosts that a statement may leave alone. -/
inductive Part
  | fc
  | stopped
  | data
  /-- The volumes in the shipments. -/
  | shipped
  | recovering
  | polling

/-- The part of the directory is the same. -/
def VmDir.same (d d' : VmDir) : Part → Prop
  | .fc => d'.fc = d.fc
  | .stopped => d'.stopped = d.stopped
  | .data => d'.data = d.data
  | _ => True

/-- The part of the agent's memory is the same. -/
def Machine.same (x x' : Machine) : Part → Prop
  | .recovering => x'.recovering = x.recovering
  | .polling => x'.polling = x.polling
  | _ => True

/-- The part is the same, on the host and for the tenant. -/
def Machines.same (m m' : Machines) (h : HostId) (t : TenantId) : Part → Prop
  | .shipped => ∀ uri, (m'.shipped uri).data = (m.shipped uri).data
  | .recovering => (m.machine h).same (m'.machine h) .recovering
  | .polling => (m.machine h).same (m'.machine h) .polling
  | p => (m.dir h t).same (m'.dir h t) p

/-- The statement may write the part. -/
def ShellOp.writes (op : ShellOp) : Part → Bool
  | .fc =>
    match op with
    | .pkill | .startFc | .instanceStart | .loadSnapshot | .pause | .resume => true
    | _ => false
  | .stopped =>
    match op with
    | .rmStopped | .touchStopped | .rmDir => true
    | _ => false
  | .data =>
    match op with
    | .rmData | .copyTemplate | .unpackBackup _ | .copyData _ | .fsck | .inject _ _ | .truncate _ | .resize2fs | .rmDir
    | .fetch .data _ => true
    | _ => false
  | .shipped =>
    match op with
    | .ship .data _ => true
    | _ => false
  | .recovering =>
    match op with
    | .setRecovering _ => true
    | _ => false
  | .polling =>
    match op with
    | .endPoll => true
    | _ => false

section Parts

variable {h : HostId} {tid : TenantId} {op : ShellOp} {r : op.Ans} {m m' : Machines} {p : Part}

theorem Machines.same.refl {t : TenantId} : m.same m h t p := by
  cases p <;> first | rfl | exact fun _ => rfl

theorem Machines.same.upd {f : VmDir → VmDir} (hf : ∀ d, VmDir.same d (f d) p) (t : TenantId) :
    m.same (m.upd h tid f) h t p := by
  cases p with
  | fc => exact field_upd (g := VmDir.fc) hf t
  | stopped => exact field_upd (g := VmDir.stopped) hf t
  | data => exact field_upd (g := VmDir.data) hf t
  | shipped => exact fun _ => rfl
  | recovering | polling => simp [same, Machine.same, Machines.upd]

theorem Machines.same.updHost {f : Machine → Machine} (hd : ∀ x, (f x).dirs = x.dirs)
    (hf : ∀ x, Machine.same x (f x) p) (t : TenantId) : m.same (m.updHost h f) h t p := by
  cases p with
  | fc | stopped | data => simp [same, VmDir.same, Machines.dir_updHost h hd]
  | shipped => exact fun _ => rfl
  | recovering | polling => simpa [same] using hf (m.machine h)

/-- **Frame rule**: what a statement does not write stays as it is. -/
theorem opStep_same (ho : op.writes p = false) (hs : opStep h tid op r m m') (t : TenantId) : m.same m' h t p := by
  cases op
  case begin | done | mkdir | addressOk | setup | configure | createSnapshot | machineConfig | inTime | sleep =>
    obtain rfl : m' = m := hs
    exact .refl
  case rmStopped | touchStopped | writeVmJson | rmVmJson | rmSentinel | rmSock | rmDir | rmData | rmGz | rmOverlay |
      fsck | pkill | startFc =>
    obtain rfl := hs
    exact .upd (fun d => by cases p <;> first | rfl | trivial) t
  case testStopped | readVmJson | testSock | templateSize | dataSize | gzSize | testOverlay | fetchBackup | listDir |
      pgrep | ping | isRecovering | netDead =>
    obtain ⟨-, rfl⟩ := hs
    exact .refl
  case copyTemplate | unpackBackup | copyData | compress | copyOverlay =>
    obtain ⟨v, -, rfl⟩ := hs
    exact .upd (fun d => by cases p <;> first | rfl | trivial) t
  case makeOverlay =>
    obtain ⟨v, -, -, rfl⟩ := hs
    exact .upd (fun d => by cases p <;> first | rfl | trivial) t
  case truncate | resize2fs =>
    rcases did.eq_or hs with rfl | rfl
    · exact .upd (fun d => by cases p <;> first | rfl | trivial) t
    · exact .refl
  case instanceStart | loadSnapshot | pause | resume =>
    rcases hs.2.eq_or with rfl | rfl
    · exact .upd (fun d => by cases p <;> first | rfl | trivial) t
    · exact .refl
  case fetch f uri =>
    rcases hs.2.eq_or with rfl | rfl
    · exact .upd (fun d => by cases p <;> cases f <;> first | rfl | trivial) t
    · exact .refl
  case inject =>
    rcases hs.2 with rfl | ⟨-, rfl⟩
    · exact .upd (fun d => by cases p <;> first | rfl | trivial) t
    · exact .refl
  case touchSentinel =>
    obtain ⟨x, -, hs⟩ := hs
    rcases hs.eq_or with rfl | rfl
    · have hupd := @Machines.same.upd h tid m p (fun d => { d with sentinel := some x })
        (fun d => by cases p <;> first | rfl | trivial) t
      cases p <;> exact hupd
    · exact .refl
  case isMigrating =>
    obtain ⟨x, -, -, rfl⟩ := hs
    cases p <;> first | rfl | exact fun _ => rfl
  case uploadBackup key =>
    rcases upload_cases hs with rfl | ⟨-, v, -, rfl⟩
    · exact .refl
    · cases p <;> first | rfl | exact fun _ => rfl
  case ship f uri =>
    rcases hs.2.eq_or with rfl | rfl
    · cases p
      case shipped =>
        intro u
        by_cases e : u = uri
        · subst e
          cases f with
          | data => cases ho
          | overlay | vmJson | other => simp [Machines.setShipped, VmDir.put]
        · simp [Machines.setShipped, Function.update_of_ne e]
      all_goals rfl
    · exact .refl
  case setRecovering | setNetDead | endPoll =>
    obtain rfl := hs
    refine .updHost ?_ ?_ t
    · exact fun _ => rfl
    · exact fun _ => by cases p <;> first | rfl | trivial
  case popen =>
    rcases did.eq_or hs with rfl | rfl
    · refine .updHost ?_ ?_ t
      · exact fun _ => rfl
      · exact fun _ => by cases p <;> first | rfl | trivial
    · exact .refl

end Parts

end OpenClaw
