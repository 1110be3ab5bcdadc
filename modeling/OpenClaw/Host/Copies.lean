import OpenClaw.Host.Scripts

/-!
# Complete backups and clones

`backup-data.sh` and `clone-data.sh` run without `set -e`: a backup ends with the status of its last `echo`, a clone
with the one of the check of its data volume. A pattern of failures (`CopyFaults`) says which statements fail.

- `copies_complete`: the patterns under which a script that exits with 0 has made complete copies, and a backup stores
  nothing else.
- `truncated_backup_stored`: compression fails halfway, and the torn copy is stored under the newest key with status 0.
-/

namespace OpenClaw

open Atomic

/-! ## Failures -/

/-- Which statements go through. -/
structure CopyFaults where
  /-- Firecracker takes a request to pause a VM. -/
  pause : Bool := true
  compress : Bool := true
  /-- The compressed copy is a file, whole or not. -/
  gz : Bool := true
  upload : Bool := true
  copy : Bool := true
  overlay : Bool := true
  fsck : Bool := true

/-- There is a VM to pause. -/
def VmDir.hasVm (d : VmDir) : Bool := d.fc = .running || d.fc = .paused

namespace CopyFaults

variable (F : CopyFaults)

/-- The answers of the pattern. -/
def answers (c : ShellCall) (r : c.op.Ans) (m : Machines) : Prop :=
  match c with
  | ⟨h, tid, .pause⟩ => r = (F.pause && (m.dir h tid).hasVm)
  | ⟨_, _, .compress⟩ => r = F.compress
  | ⟨_, _, .gzSize⟩ => Option.isSome r = F.gz
  | ⟨_, _, .uploadBackup _⟩ => r = F.upload
  | ⟨_, _, .copyData _⟩ => r = F.copy
  | ⟨_, _, .copyOverlay _⟩ => r = F.overlay
  | ⟨_, _, .fsck⟩ => r = F.fsck
  | _ => True

/-- The runs with these failures. -/
abbrev sem : Sem Sh Machines := shell.restrict F.answers

/-- The script pauses the VM, or no VM runs. -/
def Still (d : VmDir) : Prop := d.fc ≠ .running ∨ d.sock = true ∧ F.pause = true

/-- There is nothing to back up, nothing was compressed, or every statement goes through. -/
def BackupOk (d : VmDir) : Prop :=
  d.data = none ∨ F.gz = false ∨ F.compress = true ∧ F.upload = true ∧ F.Still d

/-- The clone ends with an error, or every copy goes through. -/
def CloneOk (src : VmDir) : Prop :=
  src.data = none ∨ (src.sock = true ∧ (F.pause && src.hasVm) = false) ∨ F.fsck = false ∨
    F.copy = true ∧ (src.overlay = none ∨ F.overlay = true) ∧ F.Still src

end CopyFaults

/-! ## What the scripts promise -/

section Promises

variable (h : HostId) (tid src : TenantId) (key : String) (m : Machines)

/-- A backup that exits with 0 has stored the whole volume; no backup stores anything else. -/
def BackupComplete (ok : Bool) (m' : Machines) : Prop :=
  (ok = true → (m.dir h tid).data.isSome ∧ m'.backups key = (m.dir h tid).data) ∧
    (m'.backups = m.backups ∨ m'.backups = Function.update m.backups key (m.dir h tid).data)

/-- A clone that exits with 0 has copied the volume, which it then checked, and the overlay. -/
def CloneComplete (ok : Bool) (m' : Machines) : Prop :=
  ok = true → (m.dir h src).data.isSome ∧
    (m'.dir h tid).data = (m.dir h src).data.map (fun v => v.push .fsck) ∧
    ((m.dir h src).overlay.isSome → (m'.dir h tid).overlay = (m.dir h src).overlay)

end Promises

/-! ## The window of a pause -/

/-- The same files and the same backups. -/
structure SameFiles (m m' : Machines) : Prop where
  backups : m'.backups = m.backups
  data : ∀ h tid, (m'.dir h tid).data = (m.dir h tid).data
  overlay : ∀ h tid, (m'.dir h tid).overlay = (m.dir h tid).overlay
  gz : ∀ h tid, (m'.dir h tid).gz = (m.dir h tid).gz
  sock : ∀ h tid, (m'.dir h tid).sock = (m.dir h tid).sock

theorem SameFiles.refl (m : Machines) : SameFiles m m :=
  ⟨rfl, fun _ _ => rfl, fun _ _ => rfl, fun _ _ => rfl, fun _ _ => rfl⟩

theorem SameFiles.trans {m m₁ m₂ : Machines} (h : SameFiles m m₁) (h' : SameFiles m₁ m₂) : SameFiles m m₂ :=
  ⟨h'.backups.trans h.backups, fun a t => (h'.data a t).trans (h.data a t),
    fun a t => (h'.overlay a t).trans (h.overlay a t), fun a t => (h'.gz a t).trans (h.gz a t),
    fun a t => (h'.sock a t).trans (h.sock a t)⟩

section Window

variable {F : CopyFaults} {h : HostId} {tid : TenantId} {m : Machines}

/-- Firecracker's state is no file. -/
theorem SameFiles.setFc (s : Fc) : SameFiles m (m.upd h tid fun d => { d with fc := s }) := by
  have hdir (a : HostId) (t : TenantId) : (m.upd h tid fun d => { d with fc := s }).dir a t =
      { m.dir a t with fc := ((m.upd h tid fun d => { d with fc := s }).dir a t).fc } := by
    by_cases hat : a = h ∧ t = tid
    · obtain ⟨rfl, rfl⟩ := hat
      simp
    · rw [Machines.dir_upd_of_ne _ _ hat]
  refine ⟨rfl, fun a t => ?_, fun a t => ?_, fun a t => ?_, fun a t => ?_⟩ <;> rw [hdir a t]

/-- The hosts after `ifSock .pause`. -/
def afterPause (F : CopyFaults) (h : HostId) (tid : TenantId) (m : Machines) : Machines :=
  if (m.dir h tid).sock && (F.pause && (m.dir h tid).hasVm) then m.upd h tid fun d => { d with fc := .paused } else m

theorem sameFiles_afterPause : SameFiles m (afterPause F h tid m) := by
  unfold afterPause
  split
  · exact .setFc _
  · exact .refl m

/-- The VM is still, if it can be. -/
theorem afterPause_running : ((afterPause F h tid m).dir h tid).fc = .running ↔ ¬ F.Still (m.dir h tid) := by
  unfold afterPause CopyFaults.Still VmDir.hasVm
  cases hfc : (m.dir h tid).fc <;> cases hsock : (m.dir h tid).sock <;> cases hp : F.pause <;> simp [hfc]

theorem ifSock_pause {Q : Unit → Machines → Prop} :
    (ifSock h tid .pause).wp F.sem Q m ↔ Q () (afterPause F h tid m) := by
  have hcan : (F.pause && (m.dir h tid).hasVm) = true → (m.dir h tid).fc = .running ∨ (m.dir h tid).fc = .paused := by
    intro hp
    have hvm : (m.dir h tid).hasVm = true := (Bool.and_eq_true _ _ ▸ hp).2
    simpa [VmDir.hasVm] using hvm
  simp only [ifSock, sh_bind, Prog.pure_eq]
  constructor
  · intro hwp
    have hsock := hwp (m.dir h tid).sock m ⟨trivial, rfl, rfl⟩
    unfold afterPause
    cases hs : (m.dir h tid).sock with
    | false =>
      rw [hs] at hsock
      simpa using hsock
    | true =>
      rw [hs] at hsock
      cases hp : F.pause && (m.dir h tid).hasVm with
      | false => exact hsock false m ⟨hp.symm, nofun, rfl⟩
      | true => exact hsock true _ ⟨hp.symm, fun _ => hcan hp, rfl⟩
  · intro hQ r m₁ hs
    obtain ⟨-, rfl, rfl⟩ := hs
    unfold afterPause at hQ
    cases hs : (m₁.dir h tid).sock with
    | false =>
      rw [hs] at hQ
      exact hQ
    | true =>
      intro r m₂ hs'
      obtain ⟨hr, -, hd⟩ := hs'
      obtain rfl : r = (F.pause && (m₁.dir h tid).hasVm) := hr
      rw [hs, Bool.true_and] at hQ
      cases hp : F.pause && (m₁.dir h tid).hasVm with
      | false =>
        rw [hp] at hQ hd
        obtain rfl : m₂ = m₁ := hd
        exact hQ
      | true =>
        rw [hp] at hQ hd
        obtain rfl : m₂ = m₁.upd h tid fun d => { d with fc := .paused } := hd
        exact hQ

/-- A resume changes no file. -/
theorem ifSock_resume {Q : Unit → Machines → Prop} (hQ : ∀ m', SameFiles m m' → Q () m') :
    (ifSock h tid .resume).wp F.sem Q m := by
  simp only [ifSock, sh_bind, Prog.pure_eq]
  intro r m₁ hs
  obtain ⟨-, -, rfl⟩ := hs
  cases r with
  | false => exact hQ m₁ (.refl m₁)
  | true =>
    intro r m₂ hs'
    rcases hs'.2.2.eq_or with rfl | rfl
    · exact hQ _ (.setFc _)
    · exact hQ m₂ (.refl m₂)

/-- A resume may do nothing. -/
theorem of_ifSock_resume {Q : Unit → Machines → Prop} (h' : (ifSock h tid .resume).wp F.sem Q m) : Q () m := by
  simp only [ifSock, sh_bind, Prog.pure_eq] at h'
  have hsock := h' (m.dir h tid).sock m ⟨trivial, rfl, rfl⟩
  cases hs : (m.dir h tid).sock with
  | false =>
    rw [hs] at hsock
    exact hsock
  | true =>
    rw [hs] at hsock
    exact hsock false m ⟨trivial, nofun, rfl⟩

end Window

/-! ## Backups -/

section Backup

variable {F : CopyFaults} {h : HostId} {tid : TenantId} {key : String} {m m₁ : Machines}

theorem backupExit_wp {ok : Bool} {Q : Bool → Machines → Prop} (hQ : ∀ m', m'.backups = m.backups → Q ok m') :
    (backupExit h tid ok).wp F.sem Q m := by
  simp only [backupExit, sh_bind]
  intro r m₁ hs
  obtain ⟨-, rfl⟩ := hs
  refine (Prog.wp_bind ..).2 (ifSock_resume fun m' hsame => hQ m' ?_)
  exact hsame.backups

theorem of_backupExit {ok : Bool} {Q : Bool → Machines → Prop} (h' : (backupExit h tid ok).wp F.sem Q m) :
    ∃ m', m'.backups = m.backups ∧ Q ok m' := by
  simp only [backupExit, sh_bind] at h'
  have hresume := of_ifSock_resume ((Prog.wp_bind ..).1 (h' () _ ⟨trivial, rfl⟩))
  exact ⟨m.upd h tid fun d => { d with gz := none }, rfl, hresume⟩

/-- **A pattern under which backups are complete.** -/
theorem backup_complete (hF : F.BackupOk (m.dir h tid)) :
    (backupDataSh h tid key).wp F.sem (BackupComplete h tid key m) m := by
  have hfail {m₁ : Machines} (hb : m₁.backups = m.backups) :
      (backupExit h tid false).wp F.sem (BackupComplete h tid key m) m₁ :=
    backupExit_wp fun m' hm => ⟨nofun, .inl (hm.trans hb)⟩
  simp only [backupDataSh, sh_bind]
  intro r m₁ hs
  obtain ⟨-, rfl, rfl⟩ := hs
  cases hdata : (m₁.dir h tid).data with
  | none => exact hfail rfl
  | some v =>
    refine (Prog.wp_bind ..).2 (ifSock_pause.2 ?_)
    intro r m₂ hcompress
    obtain ⟨hr, gz, hgz, rfl⟩ := hcompress
    refine (Prog.wp_bind ..).2 (ifSock_resume fun m₃ h₃ => ?_)
    intro size m₄ hsize
    obtain ⟨hsome, hgzSome, rfl⟩ := hsize
    have hb : m₄.backups = m₁.backups := h₃.backups.trans sameFiles_afterPause.backups
    cases size with
    | none => exact hfail hb
    | some n =>
      have hthere : F.gz = true := hsome.symm
      obtain ⟨hcomp, hup, hstill⟩ : F.compress = true ∧ F.upload = true ∧ F.Still (m₁.dir h tid) := by
        rcases hF with hF | hF | hF
        · exact absurd (hdata.symm.trans hF) nofun
        · exact absurd (hthere.symm.trans hF) nofun
        · exact hF
      have hr : r = F.compress := hr
      have hwhole : gz = some v := by
        have hcopy := (hgz (hr.trans hcomp)).2 fun hrun => afterPause_running.1 hrun hstill
        rw [hcopy, sameFiles_afterPause.data, hdata]
      have hgz₄ : (m₄.dir h tid).gz = some v := by
        rw [h₃.gz, Machines.dir_upd_self, hwhole]
      intro r m₅ hupload
      obtain ⟨hr, hs⟩ := hupload
      have hr : r = F.upload := hr
      have hs : opStep h tid (.uploadBackup key) r m₄ m₅ := hs
      simp only [opStep, hgz₄] at hs
      rw [hr, hup] at hs
      obtain rfl : m₅ = m₄.setBackup key v := hs
      intro r m₆ hrm
      obtain ⟨-, rfl⟩ := hrm
      refine backupExit_wp fun m' hm => ?_
      have hstored : m'.backups = Function.update m₁.backups key (some v) := by
        rw [hm]
        show Function.update m₄.backups key (some v) = _
        rw [hb]
      unfold BackupComplete
      rw [hdata, hstored]
      exact ⟨fun _ => ⟨rfl, Function.update_self ..⟩, .inr rfl⟩

/-- A machine with one directory. -/
def oneDir (d : VmDir) : Machines where
  machine _ := { dirs := fun _ => d, template := ⟨0, 0, []⟩ }

/-- What a copy that failed halfway may have left. -/
def Volume.torn (v : Volume) : Volume := v.push (.cut 0)

theorem Volume.push_torn_ne (v : Volume) (es : List DataEvent) :
    es.foldl Volume.push v.torn ≠ es.foldl Volume.push v := by
  have hhist : ∀ (u : Volume), (es.foldl Volume.push u).history = u.history ++ es := by
    induction es with
    | nil => simp
    | cons e es ih =>
      intro u
      simp [ih, Volume.push]
  intro heq
  have hlen := congrArg (fun u : Volume => u.history.length) heq
  simp [hhist, Volume.torn, Volume.push] at hlen

/-- **Under any other pattern** some backup is not complete. -/
theorem backupOk_of_complete {d : VmDir}
    (hwp : (backupDataSh h tid key).wp F.sem (BackupComplete h tid key (oneDir d)) (oneDir d)) : F.BackupOk d := by
  by_contra hbad
  simp only [CopyFaults.BackupOk, not_or] at hbad
  obtain ⟨hdata, hgz, hbad⟩ := hbad
  obtain ⟨v, hv⟩ := Option.ne_none_iff_exists'.1 hdata
  have hthere : F.gz = true := by simpa using hgz
  simp only [backupDataSh, sh_bind] at hwp
  have hwp := hwp (some v.size) (oneDir d) ⟨trivial, by simp [oneDir, Machines.dir, hv], rfl⟩
  have hwp := ifSock_pause.1 ((Prog.wp_bind ..).1 hwp)
  -- The compressed copy: whole only if it has to be.
  obtain ⟨gz, hcopy, htorn⟩ : ∃ gz, (F.compress = true → CopyOf ((afterPause F h tid (oneDir d)).dir h tid) (some v)
      (some gz)) ∧ (F.upload = true → gz ≠ v) := by
    by_cases hgood : F.compress = true ∧ F.Still d
    · refine ⟨v, fun _ => ⟨rfl, fun _ => rfl⟩, fun hup => absurd ⟨hgood.1, hup, hgood.2⟩ hbad⟩
    · refine ⟨v.torn, fun hc => ⟨rfl, fun hne => ?_⟩, fun _ => v.push_torn_ne []⟩
      exact absurd (afterPause_running.2 fun hstill => hgood ⟨hc, hstill⟩) hne
  have hdata' : ((afterPause F h tid (oneDir d)).dir h tid).data = some v := by
    rw [sameFiles_afterPause.data]
    exact hv
  have hwp := of_ifSock_resume ((Prog.wp_bind ..).1 (hwp F.compress _ ⟨rfl, some gz, hdata' ▸ hcopy, rfl⟩))
  let m₄ : Machines := (afterPause F h tid (oneDir d)).upd h tid fun d => { d with gz := some gz }
  have hgz₄ : (m₄.dir h tid).gz = some gz := by simp [m₄]
  have hsame : SameFiles (oneDir d) (afterPause F h tid (oneDir d)) := sameFiles_afterPause
  have hb₄ : m₄.backups = fun _ => none := hsame.backups
  have hwp := hwp (some gz.size) m₄ ⟨hthere.symm, by rw [hgz₄]; rfl, rfl⟩
  have hupload : opStep h tid (.uploadBackup key) F.upload m₄ (if F.upload then m₄.setBackup key gz else m₄) := by
    simp only [opStep, hgz₄]
    cases F.upload <;> rfl
  obtain ⟨m', hb', hcomplete⟩ := of_backupExit (hwp F.upload _ ⟨rfl, hupload⟩ () _ ⟨trivial, rfl⟩)
  have hstored := (hcomplete.1 rfl).2
  have hd : ((oneDir d).dir h tid).data = some v := hv
  rw [hb', hd] at hstored
  cases hup : F.upload with
  | true =>
    rw [hup] at hstored
    have hkey : Function.update m₄.backups key (some gz) key = some v := hstored
    rw [Function.update_self] at hkey
    exact htorn hup (Option.some.inj hkey)
  | false =>
    rw [hup] at hstored
    have hkey : m₄.backups key = some v := hstored
    rw [hb₄] at hkey
    cases hkey

end Backup

/-! ## Clones -/

section Clone

variable {F : CopyFaults} {h : HostId} {tid src : TenantId} {m m₁ : Machines}

/-- What the copy of `clone-data.sh` leaves behind when its check succeeds. -/
def Cloned (h : HostId) (tid src : TenantId) (m : Machines) (ok : Bool) (m' : Machines) : Prop :=
  ok = true → (m'.dir h tid).data = (m.dir h src).data.map (fun v => v.push .fsck) ∧
    ((m.dir h src).overlay.isSome → (m'.dir h tid).overlay = (m.dir h src).overlay)

theorem copyOverlaySh_wp {Q : Unit → Machines → Prop} (hQ : ∀ m', (∀ t, (m'.dir h t).data = (m.dir h t).data) →
    ((m.dir h src).overlay.isSome → F.overlay = true → (m.dir h src).fc ≠ .running →
      (m'.dir h tid).overlay = (m.dir h src).overlay) → Q () m') : (copyOverlaySh h tid src).wp F.sem Q m := by
  simp only [copyOverlaySh, sh_bind, Prog.pure_eq]
  intro found m₁ hs
  obtain ⟨-, rfl, rfl⟩ := hs
  cases hfound : (m₁.dir h src).overlay.isSome with
  | false => exact hQ m₁ (fun _ => rfl) fun h => absurd (hfound.symm.trans h) nofun
  | true =>
    intro r m₂ hs
    obtain ⟨hr, v, hv, rfl⟩ := hs
    have hr : r = F.overlay := hr
    refine hQ _ (field_upd fun _ => rfl) fun _ hok hne => ?_
    rw [Machines.dir_upd_self]
    exact (hv (hr.trans hok)).2 hne

theorem copyClone_wp (hgood : F.fsck = true → F.copy = true ∧ ((m.dir h src).overlay = none ∨ F.overlay = true) ∧
    (m.dir h src).fc ≠ .running) : (copyClone h tid src).wp F.sem (Cloned h tid src m) m := by
  simp only [copyClone, sh_bind]
  intro r m₁ hcopy
  obtain ⟨hr, v, hv, rfl⟩ := hcopy
  have hr : r = F.copy := hr
  refine (Prog.wp_bind ..).2 (copyOverlaySh_wp fun m₂ hdata hoverlay => ?_)
  refine (Prog.wp_bind ..).2 (ifSock_resume fun m₃ h₃ => ?_)
  intro ok m₄ hfsck
  obtain ⟨hok, rfl⟩ := hfsck
  have hok : ok = F.fsck := hok
  intro htrue
  obtain ⟨hc, ho, hne⟩ := hgood (hok.symm.trans htrue)
  rw [Machines.dir_upd_self]
  constructor
  · show ((m₃.dir h tid).data.map fun v => v.push .fsck) = _
    rw [h₃.data, hdata, Machines.dir_upd_self, (hv (hr.trans hc)).2 hne]
  · intro hsome
    have hover : F.overlay = true := ho.resolve_left fun hnone => by rw [hnone] at hsome; cases hsome
    have hsrc : ((m.upd h tid fun d => { d with data := v }).dir h src).overlay = (m.dir h src).overlay :=
      field_upd (f := fun d => { d with data := v }) (g := VmDir.overlay) (fun _ => rfl) src
    have hfc : ((m.upd h tid fun d => { d with data := v }).dir h src).fc = (m.dir h src).fc :=
      field_upd (f := fun d => { d with data := v }) (g := VmDir.fc) (fun _ => rfl) src
    show (m₃.dir h tid).overlay = _
    rw [h₃.overlay, hoverlay (hsrc ▸ hsome) hover (hfc ▸ hne)]
    exact hsrc

/-- **A pattern under which clones are complete.** -/
theorem clone_complete (hF : F.CloneOk (m.dir h src)) :
    (cloneDataSh h tid src).wp F.sem (CloneComplete h tid src m) m := by
  have hexit {m₁ : Machines} : (ifSock h src .resume >>= fun _ => (pure false : ShProg Bool)).wp F.sem
      (CloneComplete h tid src m) m₁ := (Prog.wp_bind ..).2 (ifSock_resume fun _ _ => nofun)
  simp only [cloneDataSh, sh_bind]
  intro r m₁ hs
  obtain ⟨-, rfl, rfl⟩ := hs
  cases hdata : (m₁.dir h src).data with
  | none => exact hexit
  | some v =>
    have hend {m₂ : Machines} (h₂ : SameFiles m₁ m₂) (hgood : F.fsck = true → F.copy = true ∧
        ((m₁.dir h src).overlay = none ∨ F.overlay = true) ∧ (m₂.dir h src).fc ≠ .running) :
        (copyClone h tid src >>= fun ok => ifSock h src .resume >>= fun _ => pure ok).wp F.sem
          (CloneComplete h tid src m₁) m₂ := by
      have hcopy : (copyClone h tid src).wp F.sem (Cloned h tid src m₂) m₂ := by
        refine copyClone_wp fun hf => ?_
        rw [h₂.overlay]
        exact hgood hf
      refine (Prog.wp_bind ..).2 (Prog.wp_mono ?_ hcopy)
      intro ok m₃ hcloned
      refine (Prog.wp_bind ..).2 (ifSock_resume fun m₄ h₄ htrue => ?_)
      obtain ⟨hd, ho⟩ := hcloned htrue
      rw [h₄.data, h₄.overlay]
      rw [h₂.data] at hd
      rw [h₂.overlay] at ho
      exact ⟨by rw [hdata]; rfl, hd, ho⟩
    have hgood : F.fsck = true → (m₁.dir h src).sock = false ∨ (F.pause && (m₁.dir h src).hasVm) = true →
        F.copy = true ∧ ((m₁.dir h src).overlay = none ∨ F.overlay = true) ∧ F.Still (m₁.dir h src) := by
      intro hfsck hgo
      rcases hF with hF | hF | hF | hF
      · exact absurd (hdata.symm.trans hF) nofun
      · rcases hgo with hgo | hgo
        · exact absurd (hF.1.symm.trans hgo) nofun
        · exact absurd (hF.2.symm.trans hgo) nofun
      · exact absurd (hfsck.symm.trans hF) nofun
      · exact hF
    intro _ m₂ hmk
    obtain ⟨-, rfl⟩ := hmk
    intro sock m₃ hs
    obtain ⟨-, rfl, rfl⟩ := hs
    cases hsock : (m₃.dir h src).sock with
    | false =>
      refine hend (.refl m₃) fun hf => ?_
      obtain ⟨hc, ho, hstill⟩ := hgood hf (.inl hsock)
      exact ⟨hc, ho, hstill.resolve_right fun hs => by rw [hsock] at hs; cases hs.1⟩
    | true =>
      intro r m₄ hp
      obtain ⟨hr, -, hd⟩ := hp
      have hr : r = (F.pause && (m₃.dir h src).hasVm) := hr
      cases r with
      | false => exact hexit
      | true =>
        obtain rfl : m₄ = m₃.upd h src fun d => { d with fc := .paused } := hd
        refine hend (.setFc _) fun hf => ?_
        obtain ⟨hc, ho, -⟩ := hgood hf (.inr hr.symm)
        exact ⟨hc, ho, by simp⟩

/-- The overlay of a clone, with a copy that leaves nothing when it fails. -/
theorem of_copyOverlaySh {Q : Unit → Machines → Prop} (hwp : (copyOverlaySh h tid src).wp F.sem Q m) :
    ∃ m', Q () m' ∧ (m'.dir h tid).data = (m.dir h tid).data ∧
      ((m.dir h src).overlay.isSome → F.overlay = false → (m'.dir h tid).overlay = none) := by
  simp only [copyOverlaySh, sh_bind, Prog.pure_eq] at hwp
  have hwp := hwp (m.dir h src).overlay.isSome m ⟨trivial, rfl, rfl⟩
  cases ho : (m.dir h src).overlay with
  | none =>
    rw [ho] at hwp
    exact ⟨m, hwp, rfl, fun h => absurd h nofun⟩
  | some o =>
    rw [ho] at hwp
    have hcopy : F.overlay = true →
        CopyOf (m.dir h src) (m.dir h src).overlay (if F.overlay = true then some o else none) := by
      intro hover
      rw [if_pos hover, ho]
      exact ⟨rfl, fun _ => rfl⟩
    have hwp := hwp F.overlay (m.upd h tid fun d => { d with overlay := if F.overlay = true then some o else none })
      ⟨rfl, _, hcopy, rfl⟩
    refine ⟨_, hwp, ?_, fun _ hover => ?_⟩
    · rw [Machines.dir_upd_self]
    · rw [Machines.dir_upd_self, if_neg (by simp [hover])]

/-- **Under any other pattern** some clone is not complete. -/
theorem cloneOk_of_complete {d : VmDir}
    (hwp : (cloneDataSh h tid src).wp F.sem (CloneComplete h tid src (oneDir d)) (oneDir d)) : F.CloneOk d := by
  by_contra hbad
  simp only [CopyFaults.CloneOk, not_or] at hbad
  obtain ⟨hdata, hpause, hfsck, hbad⟩ := hbad
  obtain ⟨v, hv⟩ := Option.ne_none_iff_exists'.1 hdata
  simp only [cloneDataSh, sh_bind] at hwp
  have hwp := hwp (some v.size) (oneDir d) ⟨trivial, by simp [oneDir, Machines.dir, hv], rfl⟩
  have hwp := hwp () (oneDir d) ⟨trivial, rfl⟩ d.sock (oneDir d) ⟨trivial, rfl, rfl⟩
  have hrest : (copyClone h tid src >>= fun ok => ifSock h src .resume >>= fun _ => pure ok).wp F.sem
      (CloneComplete h tid src (oneDir d)) (afterPause F h src (oneDir d)) := by
    unfold afterPause
    cases hsock : d.sock with
    | false =>
      rw [hsock] at hwp
      rw [if_neg (by simp [oneDir, Machines.dir, hsock])]
      exact hwp
    | true =>
      rw [hsock] at hwp
      have hcan : (F.pause && d.hasVm) = true := by
        by_contra hno
        exact hpause ⟨hsock, by simpa using hno⟩
      have hvm : d.fc = .running ∨ d.fc = .paused := by
        have := (Bool.and_eq_true _ _ ▸ hcan).2
        simpa [VmDir.hasVm] using this
      rw [if_pos (by simp only [oneDir, Machines.dir, hsock, hcan, Bool.and_self])]
      exact hwp true _ ⟨hcan.symm, fun _ => hvm, rfl⟩
  simp only [copyClone, sh_bind, Prog.call_bind, Prog.bind_assoc] at hrest
  -- The copy of the volume: whole only if it has to be.
  obtain ⟨vd, hcopy, hwhole⟩ : ∃ vd, (F.copy = true → CopyOf ((afterPause F h src (oneDir d)).dir h src) (some v)
      (some vd)) ∧ (vd.push .fsck = v.push .fsck → F.copy = true ∧ F.Still d) := by
    by_cases hgood : F.copy = true ∧ F.Still d
    · exact ⟨v, fun _ => ⟨rfl, fun _ => rfl⟩, fun _ => hgood⟩
    · refine ⟨v.torn, fun hc => ⟨rfl, fun hne => ?_⟩, fun heq => absurd heq (v.push_torn_ne [.fsck])⟩
      exact absurd (afterPause_running.2 fun hstill => hgood ⟨hc, hstill⟩) hne
  have hsrc : ((afterPause F h src (oneDir d)).dir h src).data = some v := by
    rw [sameFiles_afterPause.data]
    exact hv
  have hrest := hrest F.copy _ ⟨rfl, some vd, hsrc ▸ hcopy, rfl⟩
  obtain ⟨m₄, hrest, hdata₄, hover₄⟩ := of_copyOverlaySh ((Prog.wp_bind ..).1 hrest)
  have hrest := of_ifSock_resume ((Prog.wp_bind ..).1 hrest)
  have hfsck : F.fsck = true := by simpa using hfsck
  have hdone := of_ifSock_resume ((Prog.wp_bind ..).1 (hrest true _ ⟨hfsck.symm, rfl⟩))
  obtain ⟨-, hd, ho⟩ := hdone rfl
  rw [Machines.dir_upd_self] at hd ho
  have hd : (m₄.dir h tid).data.map (fun v => v.push .fsck) = d.data.map (fun v => v.push .fsck) := hd
  rw [hdata₄, Machines.dir_upd_self, hv] at hd
  obtain ⟨hc, hstill⟩ := hwhole (Option.some.inj hd)
  refine hbad ⟨hc, ?_, hstill⟩
  by_contra hno
  simp only [not_or, Bool.not_eq_true] at hno
  obtain ⟨o, hoverlay⟩ := Option.ne_none_iff_exists'.1 hno.1
  have hkept : (((afterPause F h src (oneDir d)).upd h tid fun d => { d with data := some vd }).dir h src).overlay =
      some o := by
    rw [field_upd (f := fun d => { d with data := some vd }) (g := VmDir.overlay) (fun _ => rfl) src,
      sameFiles_afterPause.overlay]
    exact hoverlay
  have hnone : (m₄.dir h tid).overlay = none := hover₄ (by rw [hkept]; rfl) hno.2
  have hfirst : ((oneDir d).dir h src).overlay = some o := hoverlay
  have hcopied : (m₄.dir h tid).overlay = some o := (ho (by rw [hfirst]; rfl)).trans hfirst
  cases hnone.symm.trans hcopied

end Clone

/-- **Complete copies**: from a directory `d`, every backup and every clone that exits with 0 is complete just when the
pattern of failures is one of those. -/
theorem copies_complete (F : CopyFaults) (h : HostId) (tid src : TenantId) (key : String) (d : VmDir) :
    ((∀ m, m.dir h tid = d → (backupDataSh h tid key).wp F.sem (BackupComplete h tid key m) m) ↔ F.BackupOk d) ∧
      ((∀ m, m.dir h src = d → (cloneDataSh h tid src).wp F.sem (CloneComplete h tid src m) m) ↔ F.CloneOk d) := by
  refine ⟨⟨fun hall => ?_, fun hF m hd => ?_⟩, ⟨fun hall => ?_, fun hF m hd => ?_⟩⟩
  · exact backupOk_of_complete (hall (oneDir d) rfl)
  · exact backup_complete (hd.symm ▸ hF)
  · exact cloneOk_of_complete (hall (oneDir d) rfl)
  · exact clone_complete (hd.symm ▸ hF)

/-- **A backup that breaks off**: the disk fills up while `pigz` writes, the script uploads what there is and exits
with 0. -/
theorem truncated_backup_stored : ¬ ∀ (F : CopyFaults) (h : HostId) (tid : TenantId) (key : String) (m : Machines),
    (backupDataSh h tid key).wp F.sem (BackupComplete h tid key m) m := by
  intro hall
  let d : VmDir := { data := some ⟨0, bytes 2048, []⟩, sock := true, fc := .running }
  have hok : ({ compress := false } : CopyFaults).BackupOk d :=
    backupOk_of_complete (hall { compress := false } "i-1" "a-0000" "backups/a-0000/1.gz" (oneDir d))
  simp [CopyFaults.BackupOk, d] at hok

end OpenClaw
