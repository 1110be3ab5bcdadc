import OpenClaw.Host.Copies
import OpenClaw.Host.Play
import OpenClaw.Lib.Residue

/-!
# Pause windows

`backup-data.sh`, `clone-data.sh`, `resize-disk.sh` and the snapshot of `migrate-vm.sh` pause the VM while they work on
`data.ext4`. All of them, and the operator, share the one state of the VM, without a lock.

- `PauseKept`: while a script works on `data.ext4` the VM does not run, and a script leaves the VM as it found it.
- `pauses_kept`: the runs in which both hold.
- `resize_leaves_paused`: `resize-disk.sh` fails after its pause.
-/

namespace OpenClaw

open Atomic

/-! ## The scripts -/

/-- A script at work on the VM of the tenant `vm`. -/
inductive PauseScript (vm : TenantId)
  | backup (key : String)
  /-- To another tenant's directory. -/
  | clone (dst : { t : TenantId // t ≠ vm })
  | resizeDisk (mb : Nat)
  | snapshot (uri : String)

/-- What pauses and resumes the VM. -/
inductive PauseJob (vm : TenantId)
  /-- A script, with the state of the VM when it started. -/
  | script (s : PauseScript vm) (before : Fc)
  | operator (paused : Bool)

section Jobs

variable (env : PlatformEnv) (h : HostId) (vm : TenantId)

def PauseScript.run : PauseScript vm → ShProg Bool
  | .backup key => backupDataSh h vm key
  | .clone dst => cloneDataSh h dst vm
  | .resizeDisk mb => resizeDiskSh h vm mb
  | .snapshot uri => snapshotSh env h vm uri

/-- The scripts and the operator's commands on one VM. -/
def pauseJobs : Jobs Sh Machines (PauseJob vm) Bool where
  body
    | .script s _ => s.run env h
    | .operator paused => (HostCmd.vmState vm paused).run env h
  start
    | .script _ before, m, m' => before = (m.dir h vm).fc ∧ m' = m
    | .operator _, m, m' => m' = m

end Jobs

/-- The statement reads or writes the content of `data.ext4`. -/
def ShellCall.usesData (vm : TenantId) (c : ShellCall) : Prop :=
  match c.op with
  | .compress | .truncate _ | .fsck | .resize2fs | .ship .data _ | .rmData | .copyTemplate | .unpackBackup _
  | .inject _ _ | .fetch .data _ => c.tenant = vm
  | .copyData src => src = vm ∨ c.tenant = vm
  | _ => False

/-- What the scripts promise about the VM, at the end of the run `tr`. -/
structure PauseKept {ι : Type} (h : HostId) (vm : TenantId) (tr : List (Ev Sh (PauseJob vm) ι))
    (c : Conf Sh Machines (PauseJob vm) ι Bool) : Prop where
  /-- While a script works on the volume the VM does not run. -/
  still : ∀ i s before a k, c.proc i = some (.script s before, .call a k) → a.usesData vm →
    (c.world.dir h vm).fc ≠ .running
  /-- With its last statement a script leaves the VM in the state before its start. -/
  undone : ∀ tr₀ i a r s before ok, tr = tr₀ ++ [.call i a r] → c.proc i = some (.script s before, .ret ok) →
    (c.world.dir h vm).fc = before

/-! ## What a process remembers -/

/-- The VM ran when the job began. -/
def PauseJob.ran {vm : TenantId} : PauseJob vm → Bool
  | .script _ before => before = .running
  | .operator _ => false

theorem ran_script_of_ne {vm : TenantId} {s : PauseScript vm} {before : Fc} (hb : before ≠ .running) :
    (PauseJob.script s before).ran = false := decide_eq_false hb

structure PauseMemory (vm : TenantId) where
  job : PauseJob vm
  /-- The script has paused the VM that it had found running. -/
  held : Bool := false
  /-- There is no `data.ext4`. -/
  noData : Bool := false

namespace PauseMemory

variable {vm : TenantId} (g : PauseMemory vm)

def next : (op : ShellOp) → op.Ans → PauseMemory vm
  | .pause, r => if r then { g with held := g.job.ran } else g
  | .resume, r => if r then { g with held := false } else g
  | .dataSize, r => { g with noData := r.isNone }
  | _, _ => g

/-- The failures after which a script is left with a running VM in front of the volume, or with a paused one at its
end. -/
def served : PauseScript vm → (op : ShellOp) → op.Ans → Prop
  | .backup _, .pause, r => r = true
  | .backup _, .testSock, r => r = true ∨ g.noData = true
  | .clone _, .testSock, r => r = true ∨ g.noData = true
  | .resizeDisk _, .truncate _, r => r = true
  | .resizeDisk _, .resize2fs, r => r = true
  -- What follows the upload of `vm.json` is the one of the volume, and the VM runs again.
  | .snapshot _, .ship .vmJson _, r => r = false
  | _, _, _ => True

end PauseMemory

/-- The statement changes the state of the Firecracker process. -/
def ShellOp.movesFc : ShellOp → Bool
  | .pkill | .startFc | .instanceStart | .loadSnapshot | .pause | .resume => true
  | _ => false

/-- The statements of the jobs. The volume is used under a pause of one's own, unless the VM did not run at the start. -/
def PauseMemory.allow {vm : TenantId} (h : HostId) (g : PauseMemory vm) (c : ShellCall) : Prop :=
  c.host = h ∧ (c.op.movesFc = false ∨ c.tenant = vm ∧ (c.op = .pause ∨ c.op = .resume)) ∧
    (c.usesData vm → g.held = g.job.ran)

/-- A resume of a VM that is there is taken. -/
def PauseMemory.resumes {vm : TenantId} (g : PauseMemory vm) : (op : ShellOp) → op.Ans → Prop
  | .resume, r => g.held = true → r = true
  | _, _ => True

def PauseMemory.sane {vm : TenantId} (g : PauseMemory vm) (op : ShellOp) (r : op.Ans) : Prop :=
  match g.job with
  | .operator _ => True
  | .script s before => before = .running → g.served s op r ∧ g.resumes op r

/-- What a process is followed by. -/
def pauseProtocol (h : HostId) (vm : TenantId) : Protocol Sh (PauseJob vm) (PauseMemory vm) where
  init j := { job := j }
  allow g c := g.allow h c
  sane g c r := g.sane c.op r
  next g c r := g.next c.op r

/-! ## The scripts keep to the protocol -/

section Obey

variable {env : PlatformEnv} {h : HostId} {vm t : TenantId} {g : PauseMemory vm} {s : PauseScript vm} {before : Fc}

/-- A statement that neither moves the VM nor uses its volume. -/
theorem PauseMemory.allow_quiet {op : ShellOp} (hm : op.movesFc = false) (hd : ¬ ShellCall.usesData vm ⟨h, t, op⟩) :
    g.allow h ⟨h, t, op⟩ := ⟨rfl, .inl hm, fun hu => (hd hu).elim⟩

theorem PauseMemory.allow_data {op : ShellOp} (hm : op.movesFc = false) (hg : g.held = g.job.ran) :
    g.allow h ⟨h, t, op⟩ := ⟨rfl, .inl hm, fun _ => hg⟩

theorem PauseMemory.allow_pause : g.allow h ⟨h, vm, .pause⟩ := ⟨rfl, .inr ⟨rfl, .inl rfl⟩, fun hu => hu.elim⟩

theorem PauseMemory.allow_resume : g.allow h ⟨h, vm, .resume⟩ := ⟨rfl, .inr ⟨rfl, .inr rfl⟩, fun hu => hu.elim⟩

/-- A statement of the script that changes nothing it remembers. -/
def PauseMemory.Inert (g : PauseMemory vm) (h : HostId) (op : ShellOp) : Prop :=
  g.allow h ⟨h, vm, op⟩ ∧ ∀ r, g.next op r = g

theorem besteffort_obeys {ops : List ShellOp} (ho : ∀ op ∈ ops, g.Inert h op) :
    (besteffort h vm ops).obeys (pauseProtocol h vm) (fun _ g' => g' = g) g := by
  induction ops with
  | nil => exact rfl
  | cons op ops ih =>
    obtain ⟨ha, hn⟩ := ho op List.mem_cons_self
    refine ⟨ha, fun r _ => ?_⟩
    have hnext : (pauseProtocol h vm).next g ⟨h, vm, op⟩ r = g := hn r
    rw [hnext]
    exact ih fun o hm => ho o (List.mem_cons_of_mem _ hm)

theorem whenBalloon_obeys {ops : List ShellOp} (ho : ∀ op ∈ ops, g.Inert h op) :
    (whenBalloon env h vm ops).obeys (pauseProtocol h vm) (fun _ g' => g' = g) g := by
  unfold whenBalloon
  split
  · exact besteffort_obeys ho
  · exact rfl

/-- The script has an `EXIT` trap that resumes the VM. -/
def PauseScript.Traps : PauseScript vm → Prop
  | .backup _ | .clone _ => True
  | _ => False

/-- A socket that is missing. -/
theorem ran_of_noSock {held noData : Bool} (ht : s.Traps)
    (hs : (⟨.script s before, held, noData⟩ : PauseMemory vm).sane .testSock false) :
    before ≠ .running ∨ noData = true := by
  by_cases hb : before = .running
  · refine .inr ?_
    cases s with
    | backup | clone =>
      have hsock := (hs hb).1
      simpa [PauseMemory.served] using hsock
    | resizeDisk | snapshot => exact ht.elim
  · exact .inl hb

/-- The trap of a script ends its pause. -/
theorem ifSock_resume_obeys {held noData : Bool} (ht : s.Traps)
    (hg : held = true → before = .running ∧ noData = false) :
    (ifSock h vm .resume).obeys (pauseProtocol h vm) (fun _ g' => g' = ⟨.script s before, false, noData⟩)
      ⟨.script s before, held, noData⟩ := by
  refine ⟨PauseMemory.allow_quiet rfl id, fun sock hsock => ?_⟩
  cases sock with
  | false =>
    have hheld : held = false := by
      rcases ran_of_noSock ht hsock with hb | hd
      · exact Bool.eq_false_iff.2 fun e => hb (hg e).1
      · exact Bool.eq_false_iff.2 fun e => by simp [(hg e).2] at hd
    subst hheld
    exact rfl
  | true =>
    refine ⟨PauseMemory.allow_resume, fun r hr => ?_⟩
    cases r with
    | true => exact rfl
    | false =>
      have hheld : held = false := Bool.eq_false_iff.2 fun e => by
        have := (hr (hg e).1).2 e
        cases this
      subst hheld
      exact rfl

/-! ### backup-data.sh -/

theorem ifSock_pause_obeys {key : String} :
    (ifSock h vm .pause).obeys (pauseProtocol h vm)
      (fun _ g' => g' = ⟨.script (.backup key) before, (.script (.backup key) before : PauseJob vm).ran, false⟩)
      ⟨.script (.backup key) before, false, false⟩ := by
  refine ⟨PauseMemory.allow_quiet rfl id, fun sock hsock => ?_⟩
  cases sock with
  | false =>
    have hb : before ≠ .running := (ran_of_noSock (s := .backup key) trivial hsock).resolve_right (by simp)
    rw [ran_script_of_ne hb]
    exact rfl
  | true =>
    refine ⟨PauseMemory.allow_pause, fun r hr => ?_⟩
    cases r with
    | true => exact rfl
    | false =>
      have hb : before ≠ .running := by
        intro hb
        have := (hr hb).1
        cases this
      rw [ran_script_of_ne hb]
      exact rfl

theorem backupExit_obeys {ok held noData : Bool} {key : String}
    (hg : held = true → before = .running ∧ noData = false) :
    (backupExit h vm ok).obeys (pauseProtocol h vm) (fun _ g' => g'.held = false)
      ⟨.script (.backup key) before, held, noData⟩ := by
  simp only [backupExit, sh_bind]
  refine ⟨PauseMemory.allow_quiet rfl id, fun _ _ => ?_⟩
  refine (Prog.obeys_bind ..).2 (Prog.obeys_mono ?_ (ifSock_resume_obeys trivial hg))
  intro _ g' hg'
  rw [hg']
  exact rfl

theorem backupDataSh_obeys (key : String) :
    (backupDataSh h vm key).obeys (pauseProtocol h vm) (fun _ g' => g'.held = false)
      { job := .script (.backup key) before } := by
  simp only [backupDataSh, sh_bind]
  refine ⟨PauseMemory.allow_quiet rfl id, fun found _ => ?_⟩
  cases found with
  | none => exact backupExit_obeys (by simp)
  | some size =>
    refine (Prog.obeys_bind ..).2 (Prog.obeys_mono ?_ ifSock_pause_obeys)
    intro _ g₁ hg₁
    subst hg₁
    refine ⟨PauseMemory.allow_data rfl rfl, fun _ _ => ?_⟩
    refine (Prog.obeys_bind ..).2 (Prog.obeys_mono ?_ (ifSock_resume_obeys trivial (by simp [PauseJob.ran])))
    intro _ g₂ hg₂
    subst hg₂
    refine ⟨PauseMemory.allow_quiet rfl id, fun gz _ => ?_⟩
    cases gz with
    | none => exact backupExit_obeys (by simp)
    | some n =>
      exact ⟨PauseMemory.allow_quiet rfl id, fun _ _ => ⟨PauseMemory.allow_quiet rfl id, fun _ _ =>
        backupExit_obeys (by simp)⟩⟩

/-! ### clone-data.sh -/

theorem copyOverlaySh_obeys : (copyOverlaySh h t vm).obeys (pauseProtocol h vm) (fun _ g' => g' = g) g := by
  simp only [copyOverlaySh, sh_bind]
  refine ⟨PauseMemory.allow_quiet rfl id, fun found _ => ?_⟩
  cases found with
  | true => exact ⟨PauseMemory.allow_quiet rfl id, fun _ _ => rfl⟩
  | false => exact rfl

theorem copyClone_obeys {dst : { t : TenantId // t ≠ vm }} {held : Bool}
    (hg : held = (PauseJob.script (.clone dst) before).ran) :
    (copyClone h dst vm).obeys (pauseProtocol h vm) (fun _ g' => g' = ⟨.script (.clone dst) before, false, false⟩)
      ⟨.script (.clone dst) before, held, false⟩ := by
  have hheld : held = true → before = .running ∧ false = false := by
    intro e
    rw [hg] at e
    exact ⟨of_decide_eq_true e, rfl⟩
  simp only [copyClone, sh_bind]
  refine ⟨PauseMemory.allow_data rfl hg, fun _ _ => ?_⟩
  refine (Prog.obeys_bind ..).2 (Prog.obeys_mono ?_ copyOverlaySh_obeys)
  intro _ g₁ hg₁
  subst hg₁
  refine (Prog.obeys_bind ..).2 (Prog.obeys_mono ?_ (ifSock_resume_obeys trivial hheld))
  intro _ g₂ hg₂
  subst hg₂
  exact ⟨PauseMemory.allow_quiet rfl dst.2, fun _ _ => rfl⟩

/-- The end of a clone, with its trap. -/
theorem cloneExit_obeys {dst : { t : TenantId // t ≠ vm }} {ok noData : Bool} :
    (ifSock h vm .resume >>= fun _ => (.ret ok : ShProg Bool)).obeys (pauseProtocol h vm) (fun _ g' => g'.held = false)
      ⟨.script (.clone dst) before, false, noData⟩ := by
  refine (Prog.obeys_bind ..).2 (Prog.obeys_mono ?_ (ifSock_resume_obeys trivial (by simp)))
  intro _ g' hg'
  rw [hg']
  exact rfl

theorem cloneDataSh_obeys (dst : { t : TenantId // t ≠ vm }) :
    (cloneDataSh h dst vm).obeys (pauseProtocol h vm) (fun _ g' => g'.held = false)
      { job := .script (.clone dst) before } := by
  have hcopy : ∀ held : Bool, held = (PauseJob.script (.clone dst) before).ran →
      (copyClone h dst vm >>= fun ok => ifSock h vm .resume >>= fun _ => (.ret ok : ShProg Bool)).obeys
        (pauseProtocol h vm) (fun _ g' => g'.held = false) ⟨.script (.clone dst) before, held, false⟩ := by
    intro held hg
    refine (Prog.obeys_bind ..).2 (Prog.obeys_mono ?_ (copyClone_obeys hg))
    intro ok g' hg'
    rw [hg']
    exact cloneExit_obeys
  simp only [cloneDataSh, sh_bind, Prog.pure_eq]
  refine ⟨PauseMemory.allow_quiet rfl id, fun found _ => ?_⟩
  cases found with
  | none => exact cloneExit_obeys
  | some size =>
    refine ⟨PauseMemory.allow_quiet rfl id, fun _ _ => ⟨PauseMemory.allow_quiet rfl id, fun sock hsock => ?_⟩⟩
    cases sock with
    | false =>
      have hb : before ≠ .running := (ran_of_noSock (s := .clone dst) trivial hsock).resolve_right (by simp)
      exact hcopy false (ran_script_of_ne hb).symm
    | true =>
      refine ⟨PauseMemory.allow_pause, fun paused _ => ?_⟩
      cases paused with
      | true => exact hcopy _ rfl
      | false => exact cloneExit_obeys

/-! ### resize-disk.sh -/

theorem resizeDiskSh_obeys (mb : Nat) :
    (resizeDiskSh h vm mb).obeys (pauseProtocol h vm) (fun _ g' => g'.held = false)
      { job := .script (.resizeDisk mb) before } := by
  simp only [resizeDiskSh, sh_bind, Prog.pure_eq]
  refine ⟨PauseMemory.allow_quiet rfl id, fun found _ => ?_⟩
  cases found with
  | none => exact rfl
  | some size =>
    refine ⟨PauseMemory.allow_quiet rfl id, fun sock _ => ?_⟩
    cases sock with
    | false => exact rfl
    | true =>
      refine ⟨PauseMemory.allow_pause, fun paused _ => ?_⟩
      cases paused with
      | false => exact rfl
      | true =>
        refine ⟨PauseMemory.allow_data rfl rfl, fun ok hok => ?_⟩
        cases ok with
        | false =>
          exact ran_script_of_ne (s := (.resizeDisk mb : PauseScript vm)) fun hb => Bool.false_ne_true (hok hb).1
        | true =>
          refine ⟨PauseMemory.allow_data rfl rfl, fun _ _ => ⟨PauseMemory.allow_data rfl rfl, fun ok hok => ?_⟩⟩
          cases ok with
          | false =>
            exact ran_script_of_ne (s := (.resizeDisk mb : PauseScript vm)) fun hb => Bool.false_ne_true (hok hb).1
          | true =>
            refine ⟨PauseMemory.allow_resume, fun r hr => ?_⟩
            cases r with
            | true => exact rfl
            | false =>
              refine Bool.eq_false_iff.2 fun e => ?_
              have := (hr (of_decide_eq_true e)).2 e
              cases this

/-! ### migrate-vm.sh snapshot -/

/-- The resume of a script that has paused the VM. -/
theorem resumed {r : Bool} (hr : (⟨.script s before, (PauseJob.script s before).ran, false⟩ : PauseMemory vm).sane
      .resume r) :
    (pauseProtocol h vm).next ⟨.script s before, (PauseJob.script s before).ran, false⟩ ⟨h, vm, .resume⟩ r =
      ⟨.script s before, false, false⟩ := by
  cases r with
  | true => exact rfl
  | false =>
    have hb : before ≠ .running := fun hb => Bool.false_ne_true ((hr hb).2 (decide_eq_true hb))
    rw [ran_script_of_ne hb]
    exact rfl

/-- The uploads after the pause: the volume comes last, if the three before it succeed. -/
theorem snapshotUpload_obeys {uri : String} :
    (orExit (sh h vm (.ship (.other "snapshot.vm") uri)) (orExit (sh h vm (.ship (.other "snapshot.mem") uri))
      (orExit (sh h vm (.ship .vmJson uri)) (do
        besteffort h vm (disks.map (.ship · uri))
        .ret true)))).obeys (pauseProtocol h vm) (fun _ g' => g'.held = false)
      ⟨.script (.snapshot uri) before, false, false⟩ := by
  refine ⟨PauseMemory.allow_quiet rfl id, fun ok _ => ?_⟩
  cases ok with
  | false => exact rfl
  | true =>
    refine ⟨PauseMemory.allow_quiet rfl id, fun ok _ => ?_⟩
    cases ok with
    | false => exact rfl
    | true =>
      refine ⟨PauseMemory.allow_quiet rfl id, fun ok hok => ?_⟩
      cases ok with
      | false => exact rfl
      | true =>
        have hb : before ≠ .running := fun hb => Bool.false_ne_true (hok hb).1.symm
        change (besteffort h vm _ >>= _).obeys _ _ _
        refine (Prog.obeys_bind ..).2 (Prog.obeys_mono ?_ (besteffort_obeys ?_))
        · intro _ g' hg'
          rw [hg']
          exact rfl
        · intro op ho
          obtain ⟨f, -, rfl⟩ := List.mem_map.1 ho
          exact ⟨PauseMemory.allow_data rfl (ran_script_of_ne hb).symm, fun _ => rfl⟩

theorem snapshotSh_obeys (uri : String) :
    (snapshotSh env h vm uri).obeys (pauseProtocol h vm) (fun _ g' => g'.held = false)
      { job := .script (.snapshot uri) before } := by
  have hquiet : ∀ {g : PauseMemory vm} {op : ShellOp}, op.movesFc = false → ¬ ShellCall.usesData vm ⟨h, vm, op⟩ →
      (∀ r, g.next op r = g) → g.Inert h op := fun hm hd hn => ⟨PauseMemory.allow_quiet hm hd, hn⟩
  have hresume : ∀ {g : PauseMemory vm}, g.held = false → g.Inert h .resume := by
    intro g hg
    refine ⟨PauseMemory.allow_resume, fun r => ?_⟩
    obtain ⟨job, held, noData⟩ := g
    obtain rfl : held = false := hg
    cases r <;> rfl
  simp only [snapshotSh, sh_bind, Prog.pure_eq]
  refine ⟨PauseMemory.allow_quiet rfl id, fun sock _ => ?_⟩
  cases sock with
  | false => exact rfl
  | true =>
    change (whenBalloon env h vm _ >>= _).obeys _ _ _
    refine (Prog.obeys_bind ..).2 (Prog.obeys_mono ?_ (whenBalloon_obeys ?_))
    · intro _ g₁ hg₁
      subst hg₁
      refine ⟨PauseMemory.allow_pause, fun paused _ => ?_⟩
      cases paused with
      | false =>
        refine (Prog.obeys_bind ..).2 (Prog.obeys_mono ?_ (whenBalloon_obeys ?_))
        · intro _ g' hg'
          rw [hg']
          exact rfl
        · simp only [List.mem_cons, List.not_mem_nil, or_false]
          intro op ho
          rcases ho with rfl | rfl | rfl
          · exact hquiet rfl id fun _ => rfl
          · exact hresume rfl
          · exact hquiet rfl id fun _ => rfl
      | true =>
        refine ⟨PauseMemory.allow_quiet rfl id, fun taken _ => ⟨PauseMemory.allow_resume, fun r hr => ?_⟩⟩
        -- Whatever the answer, the pause is over.
        change (whenBalloon env h vm _ >>= _).obeys _ _ ((pauseProtocol h vm).next
          ⟨.script (.snapshot uri) before, (PauseJob.script (.snapshot uri : PauseScript vm) before).ran, false⟩
          ⟨h, vm, .resume⟩ r)
        rw [resumed hr]
        refine (Prog.obeys_bind ..).2 (Prog.obeys_mono ?_ (whenBalloon_obeys ?_))
        · intro _ g₁ hg₁
          subst hg₁
          cases taken with
          | false =>
            refine (Prog.obeys_bind ..).2 (Prog.obeys_mono ?_ (whenBalloon_obeys ?_))
            · intro _ g' hg'
              rw [hg']
              exact rfl
            · simp only [List.mem_cons, List.not_mem_nil, or_false]
              intro op ho
              rcases ho with rfl | rfl
              · exact hresume rfl
              · exact hquiet rfl id fun _ => rfl
          | true => exact snapshotUpload_obeys
        · simp only [List.mem_cons, List.not_mem_nil, or_false]
          intro op ho
          subst ho
          exact hquiet rfl id fun _ => rfl
    · simp only [List.mem_cons, List.not_mem_nil, or_false]
      intro op ho
      rcases ho with rfl | rfl | rfl <;> exact hquiet rfl id fun _ => rfl

/-- **The jobs.** -/
theorem pauseJobs_obey (env : PlatformEnv) (h : HostId) (vm : TenantId) (j : PauseJob vm) :
    ((pauseJobs env h vm).body j).obeys (pauseProtocol h vm) (fun _ g => g.held = false)
      ((pauseProtocol h vm).init j) := by
  cases j with
  | script s before =>
    cases s with
    | backup key => exact backupDataSh_obeys key
    | clone dst => exact cloneDataSh_obeys dst
    | resizeDisk mb => exact resizeDiskSh_obeys mb
    | snapshot uri => exact snapshotSh_obeys uri
  | operator paused =>
    cases paused with
    | true =>
      refine ⟨PauseMemory.allow_pause, fun r _ => ?_⟩
      cases r <;> exact rfl
    | false =>
      refine ⟨PauseMemory.allow_resume, fun r _ => ?_⟩
      cases r <;> exact rfl

end Obey

/-! ## Steps in order -/

/-- What the processes remember and what they have left to do. -/
abbrev PauseView (vm : TenantId) (ι : Type) := ι → Option (PauseMemory vm × ShProg Bool)

section Order

variable {ι : Type} {vm : TenantId}

/-- The script has the VM paused. -/
def PauseView.Holds (l : PauseView vm ι) (i : ι) : Prop := ∃ x, l i = some x ∧ x.1.held = true

/-- A script that was started in the given state of the VM and has not exited. -/
def PauseView.AtWork (l : PauseView vm ι) (i : ι) (before : Fc) : Prop :=
  ∃ g c k s, l i = some (g, .call c k) ∧ g.job = .script s before

/-- Firecracker takes a request to resume the VM. -/
def VmDir.Resumes (d : VmDir) : (op : ShellOp) → op.Ans → Prop
  | .resume, r => d.hasVm = true → r = true
  | _, _ => True

/-- The operator changes the state of the VM only while no script is at work. -/
def PauseView.Idle (l : PauseView vm ι) (fc : Fc) : (op : ShellOp) → op.Ans → Prop
  | .pause, r => r = true → fc = .paused ∨ ∀ j before, ¬ l.AtWork j before
  | .resume, r => r = true → fc = .running ∨ ∀ j before, ¬ l.AtWork j before
  | _, _ => True

/-- A script pauses a VM that no other script has paused, and resumes only what it has paused itself, when no script at
work was started in the meantime. -/
def PauseView.Apart (l : PauseView vm ι) (i : ι) (g : PauseMemory vm) (fc : Fc) : (op : ShellOp) → op.Ans → Prop
  | .pause, r => r = true → g.job.ran = true → ∀ j, l.Holds j → j = i
  | .resume, r => r = true → fc = .paused → g.held = true ∧ ∀ j before, l.AtWork j before → before ≠ .paused
  | _, _ => True

/-- A step in order, by what the processes remember. -/
structure PauseView.InOrder (l : PauseView vm ι) (i : ι) (g : PauseMemory vm) (p : ShProg Bool) (fc : Fc)
    (c : ShellCall) (r : c.op.Ans) : Prop where
  operator : ∀ paused, g.job = .operator paused → l.Idle fc c.op r
  apart : ∀ s before, g.job = .script s before → l.Apart i g fc c.op r
  served : ∀ s, g.job = .script s .running → g.served s c.op r
  /-- A script that found the VM running does not exit while another one has it paused. -/
  exit : ∀ s ok, g.job = .script s .running → @Prog.after Sh Bool _ p c r = .ret ok → ∀ j, l.Holds j → j = i

variable [DecidableEq ι] (env : PlatformEnv) (h : HostId) (vm : TenantId)

/-- The protocol, along the scripts. -/
abbrev pauseWatch : Protocol Sh (PauseJob vm) (PauseMemory vm × ShProg Bool) :=
  (pauseProtocol h vm).along (fun _ g => g.held = false) (pauseJobs env h vm)

/-- A resume that a script asks for is taken. -/
def resumesTaken (tr : List (Ev Sh (PauseJob vm) ι)) (m : Machines) (e : Ev Sh (PauseJob vm) ι) : Prop :=
  match e with
  | .start _ _ => True
  | .call i c r => ∀ g p s before, (pauseWatch env h vm).locs tr i = some (g, p) → g.job = .script s before →
      (m.dir h vm).Resumes c.op r

/-- The step is in order. -/
def pausesInOrder (tr : List (Ev Sh (PauseJob vm) ι)) (m : Machines) (e : Ev Sh (PauseJob vm) ι) : Prop :=
  match e with
  | .start _ _ => True
  | .call i c r => ∀ g p, (pauseWatch env h vm).locs tr i = some (g, p) →
      PauseView.InOrder ((pauseWatch env h vm).locs tr) i g p (m.dir h vm).fc c r

end Order

/-! ## One step -/

theorem fc_step {h : HostId} {vm t : TenantId} {op : ShellOp} {r : op.Ans} {m m' : Machines}
    (hs : opStep h t op r m m') (hm : op.movesFc = false) : (m'.dir h vm).fc = (m.dir h vm).fc := by
  have hw : op.writes .fc = false := by cases op <;> first | rfl | cases hm
  exact opStep_same hw hs vm

/-- The windows of the scripts: `W` are the scripts at work, each with the state it found the VM in. -/
structure PauseView.Windows {vm : TenantId} {ι : Type} (l : PauseView vm ι) (W : ι → Fc → Prop) (fc : Fc) : Prop where
  paused : ∀ i, l.Holds i → fc = .paused
  one : ∀ i j, l.Holds i → l.Holds j → i = j
  own : ∀ i x, l i = some x → x.1.held = true → x.1.job.ran = true
  working : ∀ i, l.Holds i → ∃ before, W i before
  ran : ∀ i, W i .running → fc = .running ∨ ∃ j, l.Holds j
  other : ∀ i before, W i before → before ≠ .running → fc = before

namespace PauseView

variable {ι : Type} {vm : TenantId} {l : PauseView vm ι} {W W' : ι → Fc → Prop} {fc : Fc} {i : ι}
  {x : PauseMemory vm × ShProg Bool}

theorem Windows.restrict (hl : l.Windows W fc) (hW : ∀ i before, W' i before → W i before)
    (hh : ∀ i, l.Holds i → ∃ before, W' i before) : l.Windows W' fc :=
  ⟨hl.paused, hl.one, hl.own, hh, fun i hi => hl.ran i (hW _ _ hi), fun i b hb => hl.other i b (hW _ _ hb)⟩

variable [DecidableEq ι]

theorem holds_update {j : ι} : PauseView.Holds (Function.update l i (some x)) j ↔
    j = i ∧ x.1.held = true ∨ j ≠ i ∧ l.Holds j := by
  by_cases e : j = i
  · subst e
    simp [Holds]
  · simp [Holds, e]

/-- A step that neither pauses nor resumes. -/
theorem Windows.same (hl : l.Windows W fc) {y : PauseMemory vm × ShProg Bool} (hi : l i = some y)
    (hheld : x.1.held = y.1.held) (hjob : x.1.job = y.1.job) :
    PauseView.Windows (Function.update l i (some x)) W fc := by
  have hh : ∀ j, PauseView.Holds (Function.update l i (some x)) j ↔ l.Holds j := by
    intro j
    rw [holds_update]
    by_cases e : j = i
    · subst e
      simp [Holds, hi, hheld]
    · simp [e]
  refine ⟨fun j hj => hl.paused j ((hh j).1 hj), fun j k hj hk => hl.one j k ((hh j).1 hj) ((hh k).1 hk), ?_,
    fun j hj => hl.working j ((hh j).1 hj),
    fun j hj => (hl.ran j hj).imp_right fun ⟨k, hk⟩ => ⟨k, (hh k).2 hk⟩, hl.other⟩
  intro j z hz hzh
  by_cases e : j = i
  · subst e
    rw [Function.update_self, Option.some.injEq] at hz
    subst hz
    rw [hjob]
    exact hl.own j y hi (hheld ▸ hzh)
  · rw [Function.update_of_ne e] at hz
    exact hl.own j z hz hzh

/-- The memory of a process that asked for a pause. -/
theorem Windows.pause (hl : l.Windows W fc) {g : PauseMemory vm} {p q : ShProg Bool} (hi : l i = some (g, p))
    (hfc : fc = .running ∨ fc = .paused) (hscript : g.job.ran = true → W i .running ∧ ∀ j, l.Holds j → j = i)
    (hother : g.job.ran = false → fc = .paused ∨ ∀ j before, ¬ W j before) :
    PauseView.Windows (Function.update l i (some ({ g with held := g.job.ran }, q))) W .paused := by
  have hheld : g.held = true → g.job.ran = true := hl.own i _ hi
  have hh : ∀ j, PauseView.Holds (Function.update l i (some ({ g with held := g.job.ran }, q))) j ↔
      j = i ∧ g.job.ran = true ∨ j ≠ i ∧ l.Holds j := fun j => holds_update
  have hb : ∀ j before, W j before → before ≠ .running → Fc.paused = before := by
    intro j before hj hne
    have hbefore := hl.other j before hj hne
    rcases hfc with hf | hf
    · exact absurd (hbefore.symm.trans hf) hne
    · exact hf.symm.trans hbefore
  refine ⟨fun _ _ => rfl, fun j k hj hk => ?_, fun j z hz hzh => ?_, fun j hj => ?_, fun j hj => ?_, hb⟩
  · rw [hh] at hj hk
    by_cases hran : g.job.ran = true
    · have hall : ∀ j, j = i ∧ g.job.ran = true ∨ j ≠ i ∧ l.Holds j → j = i := by
        rintro j (⟨e, -⟩ | ⟨-, hj⟩)
        · exact e
        · exact (hscript hran).2 j hj
      rw [hall j hj, hall k hk]
    · have hne : ∀ j, ¬ (j = i ∧ g.job.ran = true) := fun _ e => hran e.2
      exact hl.one j k (hj.resolve_left (hne j)).2 (hk.resolve_left (hne k)).2
  · by_cases e : j = i
    · subst e
      rw [Function.update_self, Option.some.injEq] at hz
      subst hz
      exact hzh
    · rw [Function.update_of_ne e] at hz
      exact hl.own j z hz hzh
  · rcases (hh j).1 hj with ⟨rfl, hran⟩ | ⟨-, hj⟩
    · exact ⟨_, (hscript hran).1⟩
    · exact hl.working j hj
  · refine .inr ?_
    by_cases hran : g.job.ran = true
    · exact ⟨i, (hh i).2 (.inl ⟨rfl, hran⟩)⟩
    · rcases hother (Bool.eq_false_iff.2 hran) with hf | hnone
      · rcases hl.ran j hj with hr | ⟨k, hk⟩
        · rw [hf] at hr
          cases hr
        · refine ⟨k, (hh k).2 (.inr ⟨?_, hk⟩)⟩
          rintro rfl
          obtain ⟨y, hy, hyh⟩ := hk
          rw [hi, Option.some.injEq] at hy
          subst hy
          exact hran (hheld hyh)
      · exact absurd hj (hnone j _)

/-- The memory of a process whose resume was taken. -/
theorem Windows.resume (hl : l.Windows W fc) {g : PauseMemory vm} {p q : ShProg Bool} (hi : l i = some (g, p))
    (hfc : fc = .running ∨ fc = .paused) (hpaused : fc = .paused →
      (∀ j, l.Holds j → j = i) ∧ ∀ j before, W j before → before ≠ .paused) :
    PauseView.Windows (Function.update l i (some ({ g with held := false }, q))) W .running := by
  have hnone : ∀ j, ¬ PauseView.Holds (Function.update l i (some ({ g with held := false }, q))) j := by
    intro j hj
    rcases holds_update.1 hj with ⟨-, hheld⟩ | ⟨hne, hj⟩
    · cases hheld
    · exact hne ((hpaused (hl.paused j hj)).1 j hj)
  refine ⟨fun j hj => absurd hj (hnone j), fun j _ hj => absurd hj (hnone j), fun j z hz hzh => ?_,
    fun j hj => absurd hj (hnone j), fun _ _ => .inl rfl, fun j before hj hne => ?_⟩
  · by_cases e : j = i
    · subst e
      rw [Function.update_self, Option.some.injEq] at hz
      subst hz
      cases hzh
    · rw [Function.update_of_ne e] at hz
      exact hl.own j z hz hzh
  · have hbefore := hl.other j before hj hne
    rcases hfc with hf | hf
    · exact absurd (hbefore.symm.trans hf) hne
    · exact absurd (hbefore.symm.trans hf) ((hpaused hf).2 j before hj)

end PauseView

/-! ## Runs -/

section Runs

variable {ι : Type} [DecidableEq ι] {env : PlatformEnv} {h : HostId} {vm : TenantId} {l : PauseView vm ι} {i : ι}
  {g : PauseMemory vm} {m m' : Machines}

theorem PauseMemory.ran_of {s : PauseScript vm} {before : Fc} (hj : g.job = .script s before) (hr : g.job.ran = true) :
    before = .running := by
  rw [hj] at hr
  exact of_decide_eq_true hr

/-- **One call**, seen with the scripts that were at work before it. -/
theorem PauseView.Windows.call {c : ShellCall} {k : c.op.Ans → ShProg Bool} {r : c.op.Ans}
    (hl : l.Windows l.AtWork (m.dir h vm).fc) (hi : l i = some (g, .call c k)) (ha : g.allow h c)
    (hg : l.InOrder i g (.call c k) (m.dir h vm).fc c r) (ht : ∀ s before, g.job = .script s before →
      (m.dir h vm).Resumes c.op r) (hs : opStep c.host c.tenant c.op r m m') :
    PauseView.Windows (Function.update l i (some (g.next c.op r, k r))) l.AtWork (m'.dir h vm).fc := by
  obtain ⟨host, t, op⟩ := c
  obtain ⟨rfl : host = h, hmoves, -⟩ := ha
  rcases hmoves with hm | ⟨ht' : t = vm, rfl | rfl⟩
  · rw [fc_step hs hm]
    refine hl.same hi ?_ ?_ <;> cases op <;> first | rfl | cases hm
  · subst ht'
    cases r with
    | false =>
      obtain rfl : m' = m := hs.2
      exact hl.same hi rfl rfl
    | true =>
      obtain ⟨hvm, rfl⟩ := hs
      rw [Machines.dir_upd_self]
      refine hl.pause hi (hvm rfl) (fun hran => ?_) fun hran => ?_
      · cases hjob : g.job with
        | operator paused =>
          rw [hjob] at hran
          cases hran
        | script s before =>
          have hb := PauseMemory.ran_of hjob hran
          subst hb
          exact ⟨⟨g, ⟨host, t, .pause⟩, k, s, hi, hjob⟩, hg.apart s _ hjob rfl hran⟩
      · cases hjob : g.job with
        | operator paused => exact hg.operator paused hjob rfl
        | script s before =>
          have hb : before ≠ .running := fun e => by
            rw [hjob] at hran
            exact of_decide_eq_false hran e
          refine .inl ?_
          have hbefore := hl.other i before ⟨g, ⟨host, t, .pause⟩, k, s, hi, hjob⟩ hb
          rcases hvm rfl with hr | hp
          · exact absurd (hbefore.symm.trans hr) hb
          · exact hp
  · subst ht'
    cases r with
    | false =>
      obtain rfl : m' = m := hs.2
      exact hl.same hi rfl rfl
    | true =>
      obtain ⟨hvm, rfl⟩ := hs
      rw [Machines.dir_upd_self]
      refine hl.resume hi (hvm rfl) fun hp => ?_
      cases hjob : g.job with
      | operator paused =>
        have hnone := (hg.operator paused hjob rfl).resolve_left (by simp [hp])
        refine ⟨fun j hj => ?_, fun j before hj => absurd hj (hnone j before)⟩
        obtain ⟨before, hw⟩ := hl.working j hj
        exact absurd hw (hnone j before)
      | script s before =>
        obtain ⟨hheld, hnone⟩ := hg.apart s before hjob rfl hp
        exact ⟨fun j hj => hl.one j i hj ⟨_, hi, hheld⟩, hnone⟩

theorem PauseMemory.job_next (op : ShellOp) (r : op.Ans) : (g.next op r).job = g.job := by
  cases op
  case pause | resume => cases r <;> rfl
  all_goals rfl

/-- The windows after a step, for the scripts still at work. -/
theorem PauseView.Windows.after {c : ShellCall} {k : c.op.Ans → ShProg Bool} {r : c.op.Ans} {fc : Fc}
    (hw : PauseView.Windows (Function.update l i (some (g.next c.op r, k r))) l.AtWork fc)
    (hi : l i = some (g, .call c k)) (hend : ∀ ok, k r = .ret ok → (g.next c.op r).held = false) :
    PauseView.Windows (Function.update l i (some (g.next c.op r, k r)))
      (PauseView.AtWork (Function.update l i (some (g.next c.op r, k r)))) fc := by
  refine hw.restrict (fun j before hj => ?_) fun j hj => ?_
  · obtain ⟨g', c', k', s, hj', hjob⟩ := hj
    by_cases e : j = i
    · subst e
      rw [Function.update_self] at hj'
      obtain ⟨rfl, -⟩ := Prod.mk.inj (Option.some.inj hj')
      exact ⟨g, c, k, s, hi, PauseMemory.job_next c.op r ▸ hjob⟩
    · rw [Function.update_of_ne e] at hj'
      exact ⟨g', c', k', s, hj', hjob⟩
  · obtain ⟨before, g', c', k', s, hj', hjob⟩ := hw.working j hj
    by_cases e : j = i
    · subst e
      obtain ⟨rfl, -⟩ := Prod.mk.inj (Option.some.inj (hi.symm.trans hj'))
      have hheld : (g.next c.op r).held = true := by simpa [PauseView.Holds] using hj
      cases hk : k r with
      | ret ok => exact absurd hheld (by simp [hend ok hk])
      | call c'' k'' => exact ⟨before, _, c'', k'', s, by simp, (PauseMemory.job_next c.op r).trans hjob⟩
    · exact ⟨before, g', c', k', s, by rw [Function.update_of_ne e]; exact hj', hjob⟩

/-- A new process. -/
theorem PauseView.Windows.start {fc : Fc} (hl : l.Windows l.AtWork fc) (hn : l i = none) {j : PauseJob vm}
    {p : ShProg Bool} (hj : ∀ s before, j = .script s before → before = fc) :
    PauseView.Windows (Function.update l i (some ({ job := j }, p)))
      (PauseView.AtWork (Function.update l i (some ({ job := j }, p)))) fc := by
  have hh : ∀ a, PauseView.Holds (Function.update l i (some ({ job := j }, p))) a ↔ l.Holds a := by
    intro a
    rw [PauseView.holds_update]
    constructor
    · rintro (⟨-, hheld⟩ | ⟨-, ha⟩)
      · cases hheld
      · exact ha
    · intro ha
      refine .inr ⟨?_, ha⟩
      rintro rfl
      obtain ⟨x, hx, -⟩ := ha
      rw [hn] at hx
      cases hx
  have hold : ∀ a, a ≠ i → ∀ before, PauseView.AtWork (Function.update l i (some ({ job := j }, p))) a before ↔
      l.AtWork a before := fun a ha before => by simp [PauseView.AtWork, ha]
  have hnew : ∀ before, PauseView.AtWork (Function.update l i (some ({ job := j }, p))) i before → before = fc := by
    rintro before ⟨g', c', k', s, hi, hjob⟩
    rw [Function.update_self] at hi
    obtain ⟨rfl, -⟩ := Prod.mk.inj (Option.some.inj hi)
    exact hj s before hjob
  refine ⟨fun a ha => hl.paused a ((hh a).1 ha), fun a b ha hb => hl.one a b ((hh a).1 ha) ((hh b).1 hb),
    fun a x hx hheld => ?_, fun a ha => ?_, fun a ha => ?_, fun a before ha hne => ?_⟩
  · by_cases e : a = i
    · subst e
      rw [Function.update_self] at hx
      obtain rfl := Option.some.inj hx
      cases hheld
    · rw [Function.update_of_ne e] at hx
      exact hl.own a x hx hheld
  · obtain ⟨before, hw⟩ := hl.working a ((hh a).1 ha)
    refine ⟨before, (hold a ?_ before).2 hw⟩
    rintro rfl
    obtain ⟨_, _, _, _, hx, -⟩ := hw
    rw [hn] at hx
    cases hx
  · by_cases e : a = i
    · subst e
      exact .inl (hnew _ ha).symm
    · exact (hl.ran a ((hold a e _).1 ha)).imp_right fun ⟨b, hb⟩ => ⟨b, (hh b).2 hb⟩
  · by_cases e : a = i
    · subst e
      exact (hnew _ ha).symm
    · exact hl.other a before ((hold a e _).1 ha) hne

omit [DecidableEq ι] in
/-- The answers that a script may rely on. -/
theorem PauseView.InOrder.sane {c : ShellCall} {p : ShProg Bool} {r : c.op.Ans} {W : ι → Fc → Prop}
    (hl : l.Windows W (m.dir h vm).fc) (hi : l i = some (g, p)) (hg : l.InOrder i g p (m.dir h vm).fc c r)
    (ht : ∀ s before, g.job = .script s before → (m.dir h vm).Resumes c.op r) : g.sane c.op r := by
  unfold PauseMemory.sane
  split
  · trivial
  · rename_i s before hjob
    rintro rfl
    refine ⟨hg.served s hjob, ?_⟩
    have htaken := ht s _ hjob
    obtain ⟨host, t, op⟩ := c
    cases op
    case resume =>
      intro hheld
      have hp := hl.paused i ⟨_, hi, hheld⟩
      exact htaken (by simp [VmDir.hasVm, hp])
    all_goals trivial

/-- The runs in order. -/
abbrev orderedPauses (env : PlatformEnv) (h : HostId) (vm : TenantId) (tr : List (Ev Sh (PauseJob vm) ι))
    (m : Machines) (e : Ev Sh (PauseJob vm) ι) : Prop :=
  resumesTaken env h vm tr m e ∧ pausesInOrder env h vm tr m e

variable {m₀ : Machines} {tr : List (Ev Sh (PauseJob vm) ι)} {c : Conf Sh Machines (PauseJob vm) ι Bool}

/-- **The windows of every run in order.** -/
theorem pauses_windows (hr : Reach shell (pauseJobs env h vm) (orderedPauses env h vm) (Conf.idle m₀) tr c) :
    PauseView.Windows ((pauseWatch env h vm).locs tr) (PauseView.AtWork ((pauseWatch env h vm).locs tr))
        (c.world.dir h vm).fc ∧
      ∀ i j p, c.proc i = some (j, p) → ∃ g, (pauseWatch env h vm).locs tr i = some (g, p) ∧ g.job = j ∧
        p.obeys (pauseProtocol h vm) (fun _ g => g.held = false) g := by
  have hrun := Reach.protocol (π := pauseWatch env h vm) (I := fun tr m => PauseView.Windows
      ((pauseWatch env h vm).locs tr) (PauseView.AtWork ((pauseWatch env h vm).locs tr)) (m.dir h vm).fc)
    (fun j => Prog.obeys_along (pauseJobs_obey env h vm j)) ?_ ?_ ?_ hr
  · refine ⟨hrun.1, fun i j p hp => ?_⟩
    have hloc := Reach.along_locs (π := pauseProtocol h vm) (Q := fun _ g => g.held = false) PauseMemory.job
      (fun _ => rfl) (fun g c r => PauseMemory.job_next c.op r) hr i
    rw [hp] at hloc
    obtain ⟨⟨g, p'⟩, hx, hj⟩ := Option.map_eq_some_iff.1 hloc
    obtain ⟨hjob, rfl⟩ := Prod.mk.inj hj
    obtain ⟨y, hy, hobey⟩ := hrun.2.2 i j p' hp
    obtain rfl := Option.some.inj (hx.symm.trans hy)
    refine ⟨g, hx, hjob, ?_⟩
    cases p' with
    | ret ok => exact hobey.1
    | call a k =>
      obtain ⟨⟨k', -, ho⟩, -⟩ := hobey
      exact ho
  · have hnone : ∀ i : ι, ¬ PauseView.Holds ((pauseWatch env h vm).locs ([] : List (Ev Sh (PauseJob vm) ι))) i := by
      rintro i ⟨x, hx, -⟩
      cases hx
    have hidle : ∀ (i : ι) before,
        ¬ PauseView.AtWork ((pauseWatch env h vm).locs ([] : List (Ev Sh (PauseJob vm) ι))) i before := by
      rintro i before ⟨_, _, _, _, hx, -⟩
      cases hx
    exact ⟨fun i hi => absurd hi (hnone i), fun i _ hi => absurd hi (hnone i),
      fun i x hx => (by cases hx),
      fun i hi => absurd hi (hnone i), fun i hi => absurd hi (hidle i _), fun i b hi => absurd hi (hidle i b)⟩
  · intro tr m i j m' hI hn _ hst
    rw [Protocol.locs_snoc]
    cases j with
    | script s before =>
      obtain ⟨rfl, rfl⟩ := hst
      exact hI.start hn fun _ _ e => by cases e; rfl
    | operator paused =>
      obtain rfl : m' = m := hst
      exact hI.start hn fun _ _ e => by cases e
  · intro tr m i x a r m' hI hi hallow hg hs
    obtain ⟨g, p⟩ := x
    obtain ⟨k, rfl, hobey⟩ := hallow
    have htaken : ∀ s before, g.job = .script s before → (m.dir h vm).Resumes a.op r :=
      fun s before => hg.1 g _ s before hi
    have horder := hg.2 g _ hi
    have hsane := horder.sane hI hi htaken
    refine ⟨hsane, ?_⟩
    have hlocs : (pauseWatch env h vm).locs (tr ++ [.call i a r]) =
        Function.update ((pauseWatch env h vm).locs tr) i (some (g.next a.op r, k r)) := by
      have hafter : (Prog.call a k).after a r = k r := Prog.after_call a k r
      rw [Protocol.locs_snoc, Protocol.stepLoc, hi, ← hafter]
      exact rfl
    rw [hlocs]
    refine (hI.call hi hobey.1 horder htaken hs).after hi fun ok hk => ?_
    have hret := hobey.2 r hsane
    rw [hk] at hret
    exact hret

/-- **Pause windows.** In every run in order, of any number of scripts and of the operator's commands, the VM does not
run while a script works on the volume, and every script that exits leaves the VM as it found it. -/
theorem pauses_kept {m₀ : Machines} {tr : List (Ev Sh (PauseJob vm) ι)} {c : Conf Sh Machines (PauseJob vm) ι Bool}
    (hr : Reach shell (pauseJobs env h vm) (orderedPauses env h vm) (Conf.idle m₀) tr c) : PauseKept h vm tr c := by
  refine ⟨fun i s before a k hp hu => ?_, fun tr₀ i a r s before ok he hp => ?_⟩
  · obtain ⟨hw, hproc⟩ := pauses_windows hr
    obtain ⟨g, hi, hjob, hobey⟩ := hproc i _ _ hp
    by_cases hran : g.job.ran = true
    · have hheld : g.held = true := (hobey.1.2.2 hu).trans hran
      rw [hw.paused i ⟨_, hi, hheld⟩]
      exact fun e => by cases e
    · have hb : before ≠ .running := fun e => hran (by rw [hjob, e]; exact rfl)
      rw [hw.other i before ⟨g, a, k, s, hi, hjob⟩ hb]
      exact hb
  · subst he
    obtain ⟨c₀, hr₀, hg, hst⟩ := hr.snoc_inv
    obtain ⟨hw, hproc⟩ := pauses_windows hr₀
    cases hst with
    | @call _ j _ k _ m' hp₀ hs =>
      have hlast : some (j, k r) = some (.script s before, .ret ok) :=
        (Function.update_self i (some (j, k r)) c₀.proc).symm.trans hp
      obtain ⟨rfl, hk⟩ := Prod.mk.inj (Option.some.inj hlast)
      obtain ⟨g, hi, hjob, hobey⟩ := hproc i _ _ hp₀
      have htaken : ∀ s before, g.job = .script s before → (c₀.world.dir h vm).Resumes a.op r :=
        fun s before => hg.1 g _ s before hi
      have horder := hg.2 g _ hi
      have hheld : (g.next a.op r).held = false := by
        have hret := hobey.2 r (horder.sane hw hi htaken)
        rw [hk] at hret
        exact hret
      have hw' := hw.call hi hobey.1 horder htaken hs
      have hat : PauseView.AtWork ((pauseWatch env h vm).locs tr₀) i before := ⟨g, a, k, s, hi, hjob⟩
      by_cases hb : before = .running
      · subst hb
        refine (hw'.ran i hat).resolve_right ?_
        rintro ⟨b, hb⟩
        rcases PauseView.holds_update.1 hb with ⟨-, hheld'⟩ | ⟨hne, hb⟩
        · rw [hheld] at hheld'
          cases hheld'
        · have hafter : (Prog.call a k).after a r = .ret ok := (Prog.after_call a k r).trans hk
          exact hne (horder.exit s ok hjob hafter b hb)
      · exact hw'.other i before hat hb

end Runs

/-! ## Runs, computed -/

section Play

variable {env : PlatformEnv} {h : HostId} {vm : TenantId}

/-- The start of a process, computed. -/
def pauseStart (h : HostId) (vm : TenantId) (j : PauseJob vm) (m : Machines) : Option Machines :=
  match j with
  | .script _ before => if before = (m.dir h vm).fc then some m else none
  | .operator _ => some m

theorem pauseStart_sound (j : PauseJob vm) (m m' : Machines) (he : pauseStart h vm j m = some m') :
    (pauseJobs env h vm).start j m m' := by
  cases j with
  | script s before =>
    simp only [pauseStart] at he
    split at he
    · rename_i hb
      exact ⟨hb, (Option.some.inj he).symm⟩
    · cases he
  | operator paused => exact (Option.some.inj he).symm

/-- Every statement succeeds that a script needs. -/
def servedCheck : (op : ShellOp) → op.Ans → Bool
  | .pause, r | .testSock, r | .truncate _, r | .resize2fs, r => r
  | .ship .vmJson _, r => !r
  | _, _ => true

theorem served_of_check {g : PauseMemory vm} {s : PauseScript vm} {op : ShellOp} {r : op.Ans}
    (hc : servedCheck op r = true) : g.served s op r := by
  cases s <;> cases op
  case backup.testSock | clone.testSock => exact .inl hc
  case backup.pause | resizeDisk.truncate | resizeDisk.resize2fs => exact hc
  case snapshot.ship f uri =>
    cases f
    case vmJson => exact Bool.eq_false_of_not_eq_true' hc
    all_goals trivial
  all_goals trivial

/-- The resume of a VM that is there was taken. -/
def resumeCheck (d : VmDir) : (op : ShellOp) → op.Ans → Bool
  | .resume, r => r || !d.hasVm
  | _, _ => true

theorem resumes_of_check {d : VmDir} {op : ShellOp} {r : op.Ans} (hc : resumeCheck d op r = true) : d.Resumes op r := by
  cases op
  case resume =>
    intro hvm
    simpa [resumeCheck, hvm] using hc
  all_goals trivial

/-- What a process remembers is that of one that does no harm to the others. -/
def calmCheck (x : PauseMemory vm × ShProg Bool) : Bool :=
  !x.1.held && match x.1.job, x.2 with
    | .script _ .paused, .call _ _ => false
    | _, _ => true

/-- The process is not at work as a script. -/
def doneCheck (x : PauseMemory vm × ShProg Bool) : Bool :=
  match x.1.job, x.2 with
  | .script _ _, .call _ _ => false
  | _, _ => true

/-- A step in order, computed: nobody else has the VM paused, and the operator comes when no script is at work. -/
def orderedCheck (env : PlatformEnv) (h : HostId) (vm : TenantId) (tr : List (Ev Sh (PauseJob vm) ℕ)) (m : Machines) :
    Ev Sh (PauseJob vm) ℕ → Bool
  | .start _ _ => true
  | .call i c r =>
    ((pauseWatch env h vm).locs tr i).all fun x =>
      match x.1.job with
      | .operator _ => (processesOf tr).all fun j => ((pauseWatch env h vm).locs tr j).all doneCheck
      | .script _ before =>
        servedCheck c.op r && resumeCheck (m.dir h vm) c.op r && decide (before ≠ .paused) &&
          (decide (c.op ≠ .resume) || x.1.held || decide ((m.dir h vm).fc ≠ .paused)) &&
          ((processesOf tr).filter fun j => j ≠ i).all fun j => ((pauseWatch env h vm).locs tr j).all calmCheck

theorem idle_of_done {l : PauseView vm ℕ} {fc : Fc} {op : ShellOp} {r : op.Ans}
    (hd : ∀ j x, l j = some x → doneCheck x = true) : l.Idle fc op r := by
  have hnone : ∀ j before, ¬ l.AtWork j before := by
    rintro j before ⟨g, c, k, s, hj, hjob⟩
    have hx := hd j _ hj
    simp [doneCheck, hjob] at hx
  cases op
  case pause | resume => exact fun _ => .inr hnone
  all_goals trivial

theorem orderedCheck_sound {tr : List (Ev Sh (PauseJob vm) ℕ)} {m : Machines} {e : Ev Sh (PauseJob vm) ℕ}
    (hc : orderedCheck env h vm tr m e = true) : orderedPauses env h vm tr m e := by
  cases e with
  | start i j => exact ⟨trivial, trivial⟩
  | call i c r =>
    have hfor : ∀ g p, (pauseWatch env h vm).locs tr i = some (g, p) →
        (∀ s before, g.job = .script s before → (m.dir h vm).Resumes c.op r) ∧
          PauseView.InOrder ((pauseWatch env h vm).locs tr) i g p (m.dir h vm).fc c r := by
      intro g p hi
      simp only [orderedCheck, hi, Option.all_some] at hc
      cases hjob : g.job with
      | operator paused =>
        simp only [hjob, List.all_eq_true] at hc
        refine ⟨fun s before e => (by cases e), ⟨fun _ _ => idle_of_done fun j x hx => ?_, fun s before e => ?_,
          fun s e => ?_, fun s ok e => ?_⟩⟩
        · have hd := hc j (Protocol.mem_processesOf hx)
          rwa [hx] at hd
        all_goals
          rw [hjob] at e
          cases e
      | script s before =>
        simp only [hjob, Bool.and_eq_true, Bool.or_eq_true, decide_eq_true_eq, List.all_eq_true] at hc
        obtain ⟨⟨⟨⟨hserved, hresume⟩, hbefore⟩, hown⟩, hothers⟩ := hc
        have hcalm : ∀ j, j ≠ i → ∀ x, (pauseWatch env h vm).locs tr j = some x → calmCheck x = true := by
          intro j hj x hx
          have hj' := hothers j (List.mem_filter.2 ⟨Protocol.mem_processesOf hx, decide_eq_true hj⟩)
          rwa [hx] at hj'
        have halone : ∀ j, PauseView.Holds ((pauseWatch env h vm).locs tr) j → j = i := by
          rintro j ⟨x, hx, hheld⟩
          by_contra hj
          simpa [calmCheck, hheld] using hcalm j hj x hx
        have hwork : ∀ j b, PauseView.AtWork ((pauseWatch env h vm).locs tr) j b → b ≠ .paused := by
          rintro j b ⟨g', c', k', s', hx, hj'⟩ rfl
          by_cases hj : j = i
          · subst hj
            obtain ⟨rfl, -⟩ := Prod.mk.inj (Option.some.inj (hi.symm.trans hx))
            cases hjob.symm.trans hj'
            exact hbefore rfl
          · simpa [calmCheck, hj'] using hcalm j hj _ hx
        refine ⟨fun _ _ _ => resumes_of_check hresume, ⟨fun paused e => ?_, fun _ _ _ => ?_,
          fun _ _ => served_of_check hserved, fun _ _ _ _ => halone⟩⟩
        · rw [hjob] at e
          cases e
        · obtain ⟨host, t, op⟩ := c
          cases op
          case pause => exact fun _ _ => halone
          case resume =>
            intro _ hp
            refine ⟨?_, hwork⟩
            rcases hown with (hr | hheld) | hne
            · exact absurd rfl hr
            · exact hheld
            · exact absurd hp hne
          all_goals trivial
    exact ⟨fun g p s before hi => (hfor g p hi).1 s before, fun g p hi => (hfor g p hi).2⟩

end Play

/-- A running VM. -/
def runningHosts : Machines where
  machine _ :=
    { dirs := fun _ => { sock := true, fc := .running, data := some { image := 1, size := bytes 2048 } }
      template := { image := 0, size := bytes 2048 } }

/-- A clone starts while a backup is uploaded, and the operator pauses the VM after both. -/
def cloneInUpload : List (Move (PauseJob "a-0000") ℕ ShellHint) :=
  List.flatten [[.start 0 (.script (.backup "k") .running)], List.replicate 7 (.call 0 {}),
    [.start 1 (.script (.clone ⟨"b-0000", by decide⟩) .running)], List.replicate 11 (.call 1 {}),
    List.replicate 5 (.call 0 {}), [.start 2 (.operator true), .call 2 {}]]

theorem pauses_kept_clone : ∃ (tr : List (Ev Sh (PauseJob "a-0000") ℕ))
    (c : Conf Sh Machines (PauseJob "a-0000") ℕ Bool),
    Reach shell (pauseJobs {} "i-1" "a-0000") (orderedPauses {} "i-1" "a-0000") (Conf.idle runningHosts) tr c ∧
    ((c.world.dir "i-1" "a-0000").fc = .paused ∧ (c.world.backups "k").isSome = true) ∧
    PauseKept "i-1" "a-0000" tr c := by
  have hplay : ((shellOracle.play (pauseJobs {} "i-1" "a-0000") (pauseStart "i-1" "a-0000")
      (orderedCheck {} "i-1" "a-0000") [] (Conf.idle runningHosts) cloneInUpload).any fun x =>
        (x.2.world.dir "i-1" "a-0000").fc = .paused && (x.2.world.backups "k").isSome) = true := by
    decide +kernel
  obtain ⟨tr, c, hr, hend⟩ := Oracle.exists_reach_of_play pauseStart_sound (fun _ _ _ => orderedCheck_sound) hplay
  obtain ⟨hfc, hkey⟩ := (Bool.and_eq_true _ _).mp hend
  exact ⟨tr, c, hr, ⟨of_decide_eq_true hfc, hkey⟩, pauses_kept hr⟩

/-- `truncate` fails. -/
def failedTruncate : List (Move (PauseJob "a-0000") ℕ ShellHint) :=
  .start 0 (.script (.resizeDisk 4096) .running) :: List.replicate 3 (.call 0 {}) ++ [.call 0 { ok := false }]

/-- The resume of a script is taken in the run, computed. -/
def takenCheck (h : HostId) (vm : TenantId) (m : Machines) : Ev Sh (PauseJob vm) ℕ → Bool
  | .start _ _ => true
  | .call _ c r => resumeCheck (m.dir h vm) c.op r

theorem takenCheck_sound {env : PlatformEnv} {h : HostId} {vm : TenantId} {tr : List (Ev Sh (PauseJob vm) ℕ)}
    {m : Machines} {e : Ev Sh (PauseJob vm) ℕ} (hc : takenCheck h vm m e = true) : resumesTaken env h vm tr m e := by
  cases e with
  | start i j => trivial
  | call i c r => exact fun _ _ _ _ _ _ => resumes_of_check hc

/-- The run ends with a call of the process. -/
def lastCall {vm : TenantId} (i : ℕ) (tr : List (Ev Sh (PauseJob vm) ℕ)) : Bool :=
  tr.getLast?.any fun
    | .start _ _ => false
    | .call j _ _ => j = i

theorem lastCall_sound {vm : TenantId} {i : ℕ} {tr : List (Ev Sh (PauseJob vm) ℕ)} (hl : lastCall i tr = true) :
    ∃ tr₀ a r, tr = tr₀ ++ [.call i a r] := by
  rcases List.eq_nil_or_concat tr with rfl | ⟨tr₀, e, rfl⟩
  · cases hl
  · rw [List.concat_eq_append] at hl ⊢
    rw [lastCall, List.getLast?_concat] at hl
    cases e with
    | start j k => cases hl
    | call j a r =>
      obtain rfl : j = i := of_decide_eq_true hl
      exact ⟨tr₀, a, r, rfl⟩

/-- The process is a script that found the VM running and has exited. -/
def exitedCheck {vm : TenantId} : PauseJob vm × ShProg Bool → Bool
  | (.script _ before, .ret _) => before = .running
  | _ => false

/-- `resize-disk.sh` has no trap: a failure after its pause leaves the VM paused. -/
theorem resize_leaves_paused : ¬ ∀ (env : PlatformEnv) (h : HostId) (vm : TenantId) (m₀ : Machines)
    (tr : List (Ev Sh (PauseJob vm) ℕ)) (c : Conf Sh Machines (PauseJob vm) ℕ Bool),
    Reach shell (pauseJobs env h vm) (resumesTaken env h vm) (Conf.idle m₀) tr c → PauseKept h vm tr c := by
  intro hall
  have hplay : ((shellOracle.play (pauseJobs {} "i-1" "a-0000") (pauseStart "i-1" "a-0000")
      (fun _ => takenCheck "i-1" "a-0000") [] (Conf.idle runningHosts) failedTruncate).any fun x =>
        (x.2.world.dir "i-1" "a-0000").fc = .paused && lastCall 0 x.1 && (x.2.proc 0).any exitedCheck) = true := by
    decide +kernel
  obtain ⟨tr, c, hr, hend⟩ := Oracle.exists_reach_of_play pauseStart_sound (fun _ _ _ => takenCheck_sound) hplay
  simp only [Bool.and_eq_true, decide_eq_true_eq] at hend
  obtain ⟨⟨hfc, hlast⟩, hexit⟩ := hend
  obtain ⟨tr₀, a, r, rfl⟩ := lastCall_sound hlast
  obtain ⟨⟨j, p⟩, hp, hx⟩ := (Option.any_eq_true _ _).1 hexit
  have hkept := hall {} "i-1" "a-0000" runningHosts _ c hr
  cases j with
  | operator paused => cases hx
  | script s before =>
    cases p with
    | call b k => cases hx
    | ret ok =>
      obtain rfl : before = .running := of_decide_eq_true hx
      have hrunning := hkept.undone tr₀ 0 a r s .running ok rfl hp
      rw [hfc] at hrunning
      cases hrunning

end OpenClaw
