import OpenClaw.Host.Agent

/-!
# The processes of a host and what they are about to do

What matters about a process: the launch it is executing, and for the agent how far its decision about a VM has got
(`Stage`). `hostProtocol` follows both along the calls of a process.

- `hostJobs_obey`: the calls of the scripts and of the agent.
-/

namespace OpenClaw

open Atomic

/-- How far a poll has got with the VM it looks at. -/
inductive Stage
  | idle
  /-- `pgrep` found no Firecracker process. -/
  | missing (tid : TenantId)
  /-- The guest did not answer; the poll is not counted yet. -/
  | unanswered (tid : TenantId)
  /-- Too many polls were left unanswered. -/
  | dead (tid : TenantId)
  /-- The VM is not in `_recovering`: it will be launched. -/
  | free (tid : TenantId)
deriving DecidableEq

structure HostMemory where
  job : HostJob
  /-- The tenant whose `launch-vm.sh` the process is executing. -/
  launching : Option TenantId := none
  /-- The process has executed the first statement of `launch-vm.sh`. -/
  begun : Bool := false
  /-- A poll that has not ended. -/
  polling : Bool := false
  stage : Stage := .idle

/-- How far a poll gets with one statement. -/
def Stage.next (s : Stage) (tid : TenantId) : (op : ShellOp) → op.Ans → Stage
  | .pgrep, r => if r then .idle else .missing tid
  | .ping, r => if r then .idle else .unanswered tid
  | .netDead, n => if netDeadThreshold ≤ n + 1 then .dead tid else .idle
  | .isRecovering, r => if r then .idle else .free tid
  | .popen _, _ => .idle
  | .inTime, r => if r then s else .idle
  | _, _ => s

def HostMemory.next (m : HostMemory) (tid : TenantId) (op : ShellOp) (r : op.Ans) : HostMemory :=
  match m.job with
  | .poll => { m with stage := m.stage.next tid op r, polling := m.polling && decide (op ≠ .endPoll) }
  | _ =>
    match op with
    | .begin .launch => { m with launching := some tid, begun := true }
    | .done .launch => { m with launching := none }
    | _ => m

theorem HostMemory.next_job (m : HostMemory) (tid : TenantId) (op : ShellOp) (r : op.Ans) :
    (m.next tid op r).job = m.job := by
  unfold next
  split
  · rfl
  · split <;> rfl

/-- The statement writes the memory of the agent, or only the agent makes it. -/
def ShellOp.ofAgent : ShellOp → Bool
  | .ping | .isRecovering | .setRecovering _ | .netDead | .setNetDead _ | .popen _ | .inTime | .endPoll => true
  | _ => false

/-- A statement after which no process remembers more. -/
def ShellOp.plain : ShellOp → Bool
  | .begin _ | .done _ => false
  | op => !op.ofAgent

/-- The statements of a poll. -/
def Stage.allows (s : Stage) (tid : TenantId) : ShellOp → Prop
  | .begin .launch | .done .launch | .pause | .resume => False
  | .begin .stop | .popen _ => s = .free tid
  | .setRecovering _ | .setNetDead _ => s = .idle ∨ s = .dead tid ∨ s = .free tid
  | .netDead => s = .unanswered tid
  | .isRecovering => s = .missing tid ∨ s = .dead tid
  | .pgrep | .ping | .endPoll => s = .idle
  | _ => True

def HostMemory.allow (m : HostMemory) (tid : TenantId) (op : ShellOp) : Prop :=
  match m.job with
  | .ssm _ => m.polling = false ∧ op.ofAgent = false
  | .backup _ _ => m.polling = false ∧ op.ofAgent = false ∧ op ≠ .begin .launch
  | .forked t _ => m.polling = false ∧ op.ofAgent = false ∧ (op = .begin .launch → tid = t ∧ m.begun = false)
  | .poll => m.polling = true ∧ m.stage.allows tid op
  | .crash _ => False

/-- The processes of the host `h`. -/
def hostProtocol (h : HostId) : Protocol Sh HostJob HostMemory where
  init j := { job := j, polling := match j with
    | .poll => true
    | _ => false }
  allow m c := c.host = h ∧ m.allow c.tenant c.op
  sane _ _ _ := True
  next m c r := m.next c.tenant c.op r

/-! ## The scripts -/

section Scripts

variable {env : PlatformEnv} {h : HostId} {tid : TenantId} {m : HostMemory} {S : TenantId → List String → Prop}

/-- Skills are injected only as `S` says. -/
def ShellOp.given (S : TenantId → List String → Prop) (tid : TenantId) : ShellOp → Prop
  | .inject _ skills => S tid skills
  | _ => True

/-- Whatever the skills are. -/
abbrev anySkills : TenantId → List String → Prop := fun _ _ => True

theorem given_any {op : ShellOp} : op.given anySkills tid := by
  cases op <;> trivial

/-- A plain statement on the host. -/
def ShellCall.plainOn (h : HostId) (S : TenantId → List String → Prop) (c : ShellCall) : Prop :=
  c.host = h ∧ c.op.plain = true ∧ c.op.given S c.tenant

theorem plain_sh {op : ShellOp} (h : HostId) (tid : TenantId) (ho : op.plain = true) (hg : op.given S tid) :
    (sh h tid op).All (ShellCall.plainOn h S) := ⟨⟨rfl, ho, hg⟩, fun _ => trivial⟩

theorem orExit_plain {p k : ShProg Bool} (hp : p.All (ShellCall.plainOn h S)) (hk : k.All (ShellCall.plainOn h S)) :
    (orExit p k).All (ShellCall.plainOn h S) := by
  refine Prog.All.bind hp fun ok => ?_
  cases ok with
  | true => exact hk
  | false => trivial

theorem ifSock_plain {op : ShellOp} (ho : op.plain = true) (hg : op.given S tid) :
    (ifSock h tid op).All (ShellCall.plainOn h S) := by
  refine ⟨⟨rfl, rfl, trivial⟩, fun sock => ?_⟩
  cases sock with
  | true => exact ⟨⟨rfl, ho, hg⟩, fun _ => trivial⟩
  | false => trivial

theorem besteffort_plain {ops : List ShellOp} (ho : ∀ op ∈ ops, op.plain = true ∧ op.given S tid) :
    (besteffort h tid ops).All (ShellCall.plainOn h S) := by
  induction ops with
  | nil => trivial
  | cons op ops ih =>
    exact ⟨⟨rfl, ho op List.mem_cons_self⟩, fun _ => ih fun o hm => ho o (List.mem_cons_of_mem _ hm)⟩

theorem resizeDiskSh_plain (mb : Nat) : (resizeDiskSh h tid mb).All (ShellCall.plainOn h S) := by
  simp only [resizeDiskSh, sh_bind, Prog.pure_eq]
  refine ⟨⟨rfl, rfl, trivial⟩, fun found => ?_⟩
  beta_reduce
  split
  · trivial
  · refine orExit_plain (plain_sh h tid rfl trivial) (orExit_plain (plain_sh h tid rfl trivial)
      (orExit_plain (plain_sh h tid rfl trivial) ?_))
    exact ⟨⟨rfl, rfl, trivial⟩, fun _ => orExit_plain (plain_sh h tid rfl trivial) (plain_sh h tid rfl trivial)⟩

theorem backupExit_plain (ok : Bool) : (backupExit h tid ok).All (ShellCall.plainOn h S) := by
  simp only [backupExit, sh_bind]
  exact ⟨⟨rfl, rfl, trivial⟩, fun _ => Prog.All.bind (ifSock_plain rfl trivial) fun _ => trivial⟩

theorem backupDataSh_plain (key : String) : (backupDataSh h tid key).All (ShellCall.plainOn h S) := by
  simp only [backupDataSh, sh_bind]
  refine ⟨⟨rfl, rfl, trivial⟩, fun found => ?_⟩
  beta_reduce
  split
  · exact backupExit_plain false
  · refine Prog.All.bind (ifSock_plain rfl trivial) fun _ => ⟨⟨rfl, rfl, trivial⟩, fun _ => ?_⟩
    refine Prog.All.bind (ifSock_plain rfl trivial) fun _ => ⟨⟨rfl, rfl, trivial⟩, fun gz => ?_⟩
    beta_reduce
    split
    · exact backupExit_plain false
    · exact ⟨⟨rfl, rfl, trivial⟩, fun _ => ⟨⟨rfl, rfl, trivial⟩, fun _ => backupExit_plain true⟩⟩

theorem cloneDataSh_plain (src : TenantId) : (cloneDataSh h tid src).All (ShellCall.plainOn h S) := by
  have hoverlay : (copyOverlaySh h tid src).All (ShellCall.plainOn h S) := by
    simp only [copyOverlaySh, sh_bind]
    refine ⟨⟨rfl, rfl, trivial⟩, fun found => ?_⟩
    cases found with
    | true => exact ⟨⟨rfl, rfl, trivial⟩, fun _ => trivial⟩
    | false => trivial
  have hcopy : (copyClone h tid src).All (ShellCall.plainOn h S) := by
    simp only [copyClone, sh_bind]
    exact ⟨⟨rfl, rfl, trivial⟩, fun _ => Prog.All.bind hoverlay fun _ =>
      Prog.All.bind (ifSock_plain rfl trivial) fun _ => plain_sh h tid rfl trivial⟩
  have hend : (copyClone h tid src >>= fun ok => ifSock h src .resume >>= fun _ => (pure ok : ShProg Bool)).All
      (ShellCall.plainOn h S) := Prog.All.bind hcopy fun _ => Prog.All.bind (ifSock_plain rfl trivial) fun _ => trivial
  simp only [cloneDataSh, sh_bind, Prog.pure_eq]
  refine ⟨⟨rfl, rfl, trivial⟩, fun found => ?_⟩
  beta_reduce
  split
  · exact Prog.All.bind (ifSock_plain rfl trivial) fun _ => trivial
  · refine ⟨⟨rfl, rfl, trivial⟩, fun _ => ⟨⟨rfl, rfl, trivial⟩, fun sock => ?_⟩⟩
    cases sock with
    | false => exact hend
    | true =>
      refine ⟨⟨rfl, rfl, trivial⟩, fun paused => ?_⟩
      cases paused with
      | true => exact hend
      | false => exact Prog.All.bind (ifSock_plain rfl trivial) fun _ => trivial

theorem whenBalloon_plain {ops : List ShellOp} (ho : ∀ op ∈ ops, op.plain = true ∧ op.given S tid) :
    (whenBalloon env h tid ops).All (ShellCall.plainOn h S) := by
  unfold whenBalloon
  split
  · exact besteffort_plain ho
  · trivial

theorem disks_plain {f : ShippedFile → ShellOp} (hf : ∀ x, (f x).plain = true ∧ (f x).given S tid) :
    ∀ op ∈ disks.map f, op.plain = true ∧ op.given S tid := by
  intro op hm
  obtain ⟨x, -, rfl⟩ := List.mem_map.1 hm
  exact hf x

theorem snapshotSh_plain (uri : String) : (snapshotSh env h tid uri).All (ShellCall.plainOn h S) := by
  simp only [snapshotSh, sh_bind, Prog.pure_eq]
  refine orExit_plain (plain_sh h tid rfl trivial) (Prog.All.bind (whenBalloon_plain ?_) fun _ => ?_)
  · simp [ShellOp.plain, ShellOp.ofAgent, ShellOp.given]
  refine ⟨⟨rfl, rfl, trivial⟩, fun paused => ?_⟩
  cases paused with
  | false =>
    refine Prog.All.bind (whenBalloon_plain ?_) fun _ => trivial
    simp [ShellOp.plain, ShellOp.ofAgent, ShellOp.given]
  | true =>
    have hlift : ∀ op ∈ [ShellOp.rmSentinel], op.plain = true ∧ op.given S tid := by
      simp [ShellOp.plain, ShellOp.ofAgent, ShellOp.given]
    refine ⟨⟨rfl, rfl, trivial⟩, fun taken => ⟨⟨rfl, rfl, trivial⟩, fun _ =>
      Prog.All.bind (whenBalloon_plain hlift) fun _ => ?_⟩⟩
    cases taken with
    | false =>
      refine Prog.All.bind (whenBalloon_plain ?_) fun _ => trivial
      simp [ShellOp.plain, ShellOp.ofAgent, ShellOp.given]
    | true =>
      refine orExit_plain (plain_sh h tid rfl trivial) (orExit_plain (plain_sh h tid rfl trivial)
        (orExit_plain (plain_sh h tid rfl trivial) ?_))
      exact Prog.All.bind (besteffort_plain (disks_plain fun _ => ⟨rfl, trivial⟩)) fun _ => trivial

theorem restoreSteps_plain (uri : String) : (restoreSteps h tid uri).All (ShellCall.plainOn h S) := by
  simp only [restoreSteps, sh_bind, Prog.pure_eq]
  refine Prog.All.bind (besteffort_plain (disks_plain fun _ => ⟨rfl, trivial⟩)) fun _ => ?_
  refine orExit_plain (plain_sh h tid rfl trivial) (orExit_plain (plain_sh h tid rfl trivial)
    (orExit_plain (plain_sh h tid rfl trivial) (orExit_plain (plain_sh h tid rfl trivial) ?_)))
  refine ⟨⟨rfl, rfl, trivial⟩, fun _ => ⟨⟨rfl, rfl, trivial⟩, fun _ => orExit_plain (plain_sh h tid rfl trivial) ?_⟩⟩
  exact ⟨⟨rfl, rfl, trivial⟩, fun _ => trivial⟩

theorem launchSteps_plain (cfg : VmConfig) (key : String) (skills : List String) (hs : S tid skills) :
    (launchSteps h tid cfg key skills).All (ShellCall.plainOn h S) := by
  have hor : ∀ {p : ShProg Bool} {k : ShProg LaunchEnd}, p.All (ShellCall.plainOn h S) →
      k.All (ShellCall.plainOn h S) → (orTrap p k).All (ShellCall.plainOn h S) := by
    intro p k hp hk
    refine hp.bind fun ok => ?_
    cases ok with
    | true => exact hk
    | false => trivial
  have hstart : (startVm h tid cfg skills).All (ShellCall.plainOn h S) := by
    simp only [startVm, sh_bind, Prog.pure_eq]
    refine hor (plain_sh h tid rfl hs) (hor (plain_sh h tid rfl trivial) ?_)
    refine ⟨⟨rfl, rfl, trivial⟩, fun _ => ⟨⟨rfl, rfl, trivial⟩, fun _ => hor (plain_sh h tid rfl trivial) ?_⟩⟩
    refine ⟨⟨rfl, rfl, trivial⟩, fun ok => ?_⟩
    cases ok <;> trivial
  have hinit : (initVolume h tid key (startVm h tid cfg skills)).All (ShellCall.plainOn h S) := by
    simp only [initVolume, sh_bind, Prog.pure_eq]
    refine ⟨⟨rfl, rfl, trivial⟩, fun _ => ?_⟩
    split
    · refine hor (plain_sh h tid rfl trivial) (hor (plain_sh h tid rfl trivial) ⟨⟨rfl, rfl, trivial⟩, fun ok => ?_⟩)
      cases ok with
      | true => exact hstart
      | false => trivial
    · exact hor (plain_sh h tid rfl trivial) hstart
  simp only [launchSteps, prepareVolume, sh_bind, Prog.pure_eq]
  refine ⟨⟨rfl, rfl, trivial⟩, fun _ => ⟨⟨rfl, rfl, trivial⟩, fun _ => ?_⟩⟩
  beta_reduce
  split
  · trivial
  · refine ⟨⟨rfl, rfl, trivial⟩, fun ok => ?_⟩
    cases ok with
    | false => trivial
    | true =>
      refine ⟨⟨rfl, rfl, trivial⟩, fun _ => ⟨⟨rfl, rfl, trivial⟩, fun _ => ⟨⟨rfl, rfl, trivial⟩, fun _ => ?_⟩⟩⟩
      refine ⟨⟨rfl, rfl, trivial⟩, fun size => ?_⟩
      cases size with
      | none => trivial
      | some size =>
        refine hor (plain_sh h tid rfl trivial) ⟨⟨rfl, rfl, trivial⟩, fun found => ?_⟩
        beta_reduce
        split
        · exact hinit
        · exact hstart

theorem cleanupOnErr_plain : (cleanupOnErr h tid).All (ShellCall.plainOn h S) := by
  simp only [cleanupOnErr, sh_bind, Prog.pure_eq]
  refine ⟨⟨rfl, rfl, trivial⟩, fun sock => ?_⟩
  cases sock with
  | false => exact plain_sh h tid rfl trivial
  | true =>
    refine ⟨⟨rfl, rfl, trivial⟩, fun alive => ?_⟩
    cases alive with
    | true => trivial
    | false => exact plain_sh h tid rfl trivial

/-! ## The processes keep to the protocol -/

/-- A process that runs a script. -/
def HostMemory.script (m : HostMemory) : Prop :=
  match m.job with
  | .poll | .crash _ => False
  | _ => m.polling = false

theorem plain_obeys {α : Type} {p : ShProg α} (hm : m.script) (hp : p.All (ShellCall.plainOn h anySkills)) :
    p.obeys (hostProtocol h) (fun _ m' => m' = m) m := by
  refine Prog.All.obeys (fun c hc => ?_) hp
  obtain ⟨c, t, op⟩ := c
  obtain ⟨rfl, ho, -⟩ := hc
  have ho : op.plain = true := ho
  refine ⟨⟨rfl, ?_⟩, fun r => ?_⟩
  · show m.allow t op
    have hof : op.ofAgent = false := by cases op <;> first | rfl | cases ho
    have hb : op ≠ .begin .launch := by
      rintro rfl
      cases ho
    unfold HostMemory.allow HostMemory.script at *
    cases hj : m.job <;> simp only [hj] at hm ⊢
    · exact ⟨hm, hof⟩
    · exact ⟨hm, hof, hb⟩
    · exact ⟨hm, hof, fun e => absurd e hb⟩
  · show m.next t op r = m
    unfold HostMemory.next HostMemory.script at *
    cases hj : m.job <;> simp only [hj] at hm ⊢ <;> cases op <;> first | rfl | cases ho

/-- A statement that the process does not remember. -/
theorem HostMemory.script.next (hm : m.script) {op : ShellOp} (r : op.Ans) (h₁ : op ≠ .begin .launch)
    (h₂ : op ≠ .done .launch) : m.next tid op r = m := by
  unfold HostMemory.next HostMemory.script at *
  cases hj : m.job <;> simp only [hj] at hm ⊢ <;> split <;> first | rfl | contradiction

theorem HostMemory.script.next_begin (hm : m.script) {r : Unit} :
    m.next tid (.begin .launch) r = { m with launching := some tid, begun := true } := by
  unfold HostMemory.next HostMemory.script at *
  cases hj : m.job <;> simp only [hj] at hm ⊢

theorem HostMemory.script.next_done (hm : m.script) {r : Unit} :
    m.next tid (.done .launch) r = { m with launching := none } := by
  unfold HostMemory.next HostMemory.script at *
  cases hj : m.job <;> simp only [hj] at hm ⊢

theorem HostMemory.script.allow (hm : m.script) {op : ShellOp} (ho : op.ofAgent = false) (h₁ : op ≠ .begin .launch) :
    m.allow tid op := by
  unfold HostMemory.allow HostMemory.script at *
  cases hj : m.job <;> simp only [hj] at hm ⊢
  · exact ⟨hm, ho⟩
  · exact ⟨hm, ho, h₁⟩
  · exact ⟨hm, ho, fun e => absurd e h₁⟩

/-- A statement of a script that is neither the begin nor the end of a launch. -/
theorem script_call {α : Type} {op : ShellOp} {k : op.Ans → ShProg α} {Q : α → HostMemory → Prop} (hm : m.script)
    (ho : op.ofAgent = false) (h₁ : op ≠ .begin .launch) (h₂ : op ≠ .done .launch)
    (hk : ∀ r, (k r).obeys (hostProtocol h) Q m) : (@Prog.call Sh α ⟨h, tid, op⟩ k).obeys (hostProtocol h) Q m := by
  refine ⟨⟨rfl, hm.allow ho h₁⟩, fun r _ => ?_⟩
  show (k r).obeys _ _ (m.next tid op r)
  rw [hm.next r h₁ h₂]
  exact hk r

theorem stopVmSh_obeys (hm : m.script) : (stopVmSh h tid).obeys (hostProtocol h) (fun _ m' => m' = m) m := by
  simp only [stopVmSh, sh_bind, Prog.pure_eq]
  exact script_call hm rfl nofun nofun fun _ => script_call hm rfl nofun nofun fun _ =>
    script_call hm rfl nofun nofun fun _ => script_call hm rfl nofun nofun fun _ =>
      script_call hm rfl nofun nofun fun _ => script_call hm rfl nofun nofun fun _ =>
        script_call hm rfl nofun nofun fun _ => rfl

/-- The end of an execution of `launch-vm.sh`. -/
theorem launch_done {α : Type} {k : Unit → ShProg α} {Q : α → HostMemory → Prop} (hm : m.script)
    (hk : (k ()).obeys (hostProtocol h) Q { m with launching := none }) :
    (@Prog.call Sh α ⟨h, tid, .done .launch⟩ k).obeys (hostProtocol h) Q m := by
  refine ⟨⟨rfl, hm.allow rfl nofun⟩, fun _ _ => ?_⟩
  show Prog.obeys _ (k ()) _ (m.next tid (.done .launch) ())
  rw [hm.next_done]
  exact hk

/-- An execution of `launch-vm.sh`. -/
theorem launchVmSh_obeys {cfg : VmConfig} {key : String} {skills : List String} (hm : m.script)
    (hb : m.allow tid (.begin .launch)) :
    (launchVmSh h tid cfg key skills).obeys (hostProtocol h)
      (fun _ m' => m' = { m with launching := none, begun := true }) m := by
  have hm₁ : HostMemory.script { m with launching := some tid, begun := true } := hm
  simp only [launchVmSh, sh_bind, Prog.pure_eq]
  refine ⟨⟨rfl, hb⟩, fun _ _ => ?_⟩
  show Prog.obeys _ (_ >>= _) _ (m.next tid (.begin .launch) ())
  rw [hm.next_begin, Prog.obeys_bind]
  refine Prog.obeys_mono (fun out m' e => ?_) (plain_obeys hm₁ (launchSteps_plain cfg key skills trivial))
  subst e
  cases out with
  | exit => exact launch_done hm₁ rfl
  | ok => exact script_call hm₁ rfl nofun nofun fun _ => launch_done hm₁ rfl
  | err =>
    show Prog.obeys _ (_ >>= _) _ _
    rw [Prog.obeys_bind]
    refine Prog.obeys_mono (fun _ m' e => ?_) (plain_obeys hm₁ cleanupOnErr_plain)
    subst e
    exact launch_done hm₁ rfl

/-- A process that runs a command sent through SSM. -/
def HostMemory.ofSsm (m : HostMemory) : Prop := (∃ cmd, m.job = .ssm cmd) ∧ m.polling = false

theorem HostMemory.ofSsm.script (hm : m.ofSsm) : m.script := by
  obtain ⟨⟨cmd, hj⟩, hp⟩ := hm
  simp [HostMemory.script, hj, hp]

theorem ofSsm_plain {α : Type} {p : ShProg α} (hm : m.ofSsm) (hp : p.All (ShellCall.plainOn h anySkills)) :
    p.obeys (hostProtocol h) (fun _ => HostMemory.ofSsm) m :=
  Prog.obeys_mono (fun _ _ e => e ▸ hm) (plain_obeys hm.script hp)

theorem ofSsm_launch {cfg : VmConfig} {key : String} {skills : List String} (hm : m.ofSsm) :
    (launchVmSh h tid cfg key skills).obeys (hostProtocol h) (fun _ => HostMemory.ofSsm) m := by
  obtain ⟨⟨cmd, hj⟩, hp⟩ := hm
  refine Prog.obeys_mono (fun _ m' e => ?_) (launchVmSh_obeys (by simp [HostMemory.script, hj, hp]) ?_)
  · subst e
    exact ⟨⟨cmd, hj⟩, hp⟩
  · simp [HostMemory.allow, hj, hp, ShellOp.ofAgent]

theorem ofSsm_bind {α β : Type} {p : ShProg α} {f : α → ShProg β}
    (hp : p.obeys (hostProtocol h) (fun _ => HostMemory.ofSsm) m)
    (hf : ∀ {m}, HostMemory.ofSsm m → ∀ a, (f a).obeys (hostProtocol h) (fun _ => HostMemory.ofSsm) m) :
    (p >>= f).obeys (hostProtocol h) (fun _ => HostMemory.ofSsm) m := by
  rw [Prog.obeys_bind]
  exact Prog.obeys_mono (fun a _ hm => hf hm a) hp

theorem ofSsm_succeed {op : ShellOp} (hm : m.ofSsm) (ho : op.plain = true) :
    (succeed h tid op).obeys (hostProtocol h) (fun _ => HostMemory.ofSsm) m :=
  ofSsm_bind (ofSsm_plain hm (plain_sh h tid ho given_any)) fun hm _ => hm

theorem migrateVmSh_obeys (hm : m.ofSsm) (verb : MigrateVerb) (n : Int) (uri : String) :
    (migrateVmSh env h tid verb n uri).obeys (hostProtocol h) (fun _ => HostMemory.ofSsm) m := by
  have hunder : ∀ {p : ShProg Bool}, (∀ {m}, HostMemory.ofSsm m →
      p.obeys (hostProtocol h) (fun _ => HostMemory.ofSsm) m) →
      (underSentinel h tid p).obeys (hostProtocol h) (fun _ => HostMemory.ofSsm) m := by
    intro p hp
    unfold underSentinel
    refine ofSsm_bind (ofSsm_plain hm (plain_sh h tid rfl trivial)) fun hm _ =>
      ofSsm_bind (ofSsm_plain hm (plain_sh h tid rfl trivial)) fun hm _ => ofSsm_bind (hp hm) fun hm _ =>
        ofSsm_bind (ofSsm_plain hm (plain_sh h tid rfl trivial)) fun hm _ => hm
  cases verb with
  | snapshot => exact ofSsm_plain hm (snapshotSh_plain uri)
  | restore => exact hunder fun hm => ofSsm_plain hm (restoreSteps_plain uri)
  | coldDump =>
    show (coldDumpSh h tid uri).obeys _ _ _
    unfold coldDumpSh
    refine ofSsm_bind (Prog.obeys_mono (fun _ _ e => e ▸ hm) (stopVmSh_obeys hm.script)) fun hm _ =>
      ofSsm_bind (ofSsm_plain hm (plain_sh h tid rfl trivial)) fun hm _ =>
        ofSsm_bind (ofSsm_plain hm (besteffort_plain (disks_plain fun _ => ⟨rfl, trivial⟩))) fun hm _ =>
          ofSsm_bind (ofSsm_plain hm (plain_sh h tid rfl trivial)) fun hm cfg => ?_
    split
    · exact ofSsm_plain hm (plain_sh h tid rfl trivial)
    · exact hm
  | coldRestore =>
    refine hunder fun hm => ?_
    unfold coldRestoreSteps
    refine ofSsm_bind (ofSsm_plain hm (besteffort_plain (disks_plain fun _ => ⟨rfl, trivial⟩))) fun hm _ =>
      ofSsm_bind (ofSsm_plain hm (plain_sh h tid rfl trivial)) fun hm _ =>
        ofSsm_bind (ofSsm_plain hm (plain_sh h tid rfl trivial)) fun hm cfg => ofSsm_launch hm

/-- A command sent through SSM. -/
theorem run_obeys (cmd : HostCmd) (hm : m.ofSsm) :
    (cmd.run env h).obeys (hostProtocol h) (fun _ => HostMemory.ofSsm) m := by
  induction cmd generalizing m with
  | launchVm => exact ofSsm_launch hm
  | stopVm => exact Prog.obeys_mono (fun _ _ e => e ▸ hm) (stopVmSh_obeys hm.script)
  | migrateVm verb tid n uri => exact migrateVmSh_obeys hm verb n uri
  | cloneData src _ tid _ => exact ofSsm_plain hm (cloneDataSh_plain src)
  | resizeDisk tid _ mb => exact ofSsm_plain hm (resizeDiskSh_plain _)
  | machineConfig => exact ofSsm_plain hm (plain_sh h _ rfl trivial)
  | vmState tid paused => cases paused <;> exact ofSsm_plain hm (plain_sh h _ rfl trivial)
  | removeVmJson | removeOverlay | removeVmDir | dnatDel | sleep => exact ofSsm_succeed hm rfl
  | dnatAdd | removePeerConf | removeTenantConf => exact ofSsm_plain hm (plain_sh h _ rfl trivial)
  | and a b iha ihb =>
    refine ofSsm_bind (iha hm) fun hm ok => ?_
    cases ok with
    | true => exact ihb hm
    | false => exact hm
  | seq a b iha ihb => exact ofSsm_bind (iha hm) fun hm _ => ihb hm

/-! ### The agent -/

/-- A poll that has got to `s`. -/
structure HostMemory.PollAt (s : Stage) (m : HostMemory) : Prop where
  job : m.job = .poll
  polling : m.polling = true
  stage : m.stage = s

/-- A statement of a poll. -/
theorem poll_call {α : Type} {s : Stage} {op : ShellOp} {k : op.Ans → ShProg α} {Q : α → HostMemory → Prop}
    (hm : m.PollAt s) (ha : s.allows tid op) (ho : op ≠ .endPoll)
    (hk : ∀ r m', HostMemory.PollAt (s.next tid op r) m' → (k r).obeys (hostProtocol h) Q m') :
    (@Prog.call Sh α ⟨h, tid, op⟩ k).obeys (hostProtocol h) Q m := by
  refine ⟨⟨rfl, ?_⟩, fun r _ => hk r _ ?_⟩
  · show m.allow tid op
    unfold HostMemory.allow
    rw [hm.job, hm.stage]
    exact ⟨hm.polling, ha⟩
  · show HostMemory.PollAt _ (m.next tid op r)
    have hn : m.next tid op r = { m with stage := m.stage.next tid op r, polling := true } := by
      simp [HostMemory.next, hm.job, hm.polling, ho]
    rw [hn, hm.stage]
    exact ⟨hm.job, rfl, rfl⟩

theorem forkLaunch_obeys {cfg : VmConfig} (hm : m.PollAt (.free tid)) :
    (forkLaunch h tid cfg).obeys (hostProtocol h) (fun _ => HostMemory.PollAt .idle) m := by
  simp only [forkLaunch, sh_bind, Prog.pure_eq]
  refine poll_call hm rfl nofun fun ok m hm => ?_
  cases ok with
  | true => exact hm
  | false => exact poll_call hm (.inl rfl) nofun fun _ _ hm => hm

/-- A statement that leaves the poll where it is. -/
def ShellCall.inFree (h : HostId) (tid : TenantId) (c : ShellCall) : Prop :=
  c.host = h ∧ c.tenant = tid ∧ (Stage.free tid).allows tid c.op ∧ c.op ≠ .endPoll ∧
    ∀ r, (Stage.free tid).next tid c.op r = .free tid

/-- A script that is killed when its time is over. -/
theorem within_free {α : Type} {p : ShProg α} (hp : p.All (ShellCall.inFree h tid)) (hm : m.PollAt (.free tid)) :
    (Prog.within (S := Sh) ⟨h, tid, .inTime⟩ (fun inTime => inTime) p).obeys (hostProtocol h)
      (fun r => HostMemory.PollAt (if r.isSome then .free tid else .idle)) m := by
  induction p generalizing m with
  | ret a => exact hm
  | call c k ih =>
    obtain ⟨⟨hhost, htid, hallow, hend, hnext⟩, hk⟩ := hp
    obtain ⟨host, t, op⟩ := c
    obtain rfl : host = h := hhost
    obtain rfl : t = tid := htid
    refine poll_call hm trivial (fun e => by cases e) fun inTime m hm => ?_
    cases inTime with
    | false => exact hm
    | true =>
      refine poll_call hm hallow hend fun r m hm => ih r (hk r) ?_
      have hfree : ((Stage.free t).next t .inTime true).next t op r = .free t := hnext r
      rwa [hfree] at hm

theorem stopVmSh_free : (stopVmSh h tid).All (ShellCall.inFree h tid) := by
  simp only [stopVmSh, sh_bind, Prog.pure_eq]
  refine ⟨⟨rfl, rfl, rfl, nofun, fun _ => rfl⟩, fun _ => ?_⟩
  iterate 6 refine ⟨⟨rfl, rfl, trivial, nofun, fun _ => rfl⟩, fun _ => ?_⟩
  trivial

theorem recoverVm_obeys {cfg : VmConfig} (hm : m.PollAt (.missing tid)) :
    (recoverVm h tid cfg).obeys (hostProtocol h) (fun _ => HostMemory.PollAt .idle) m := by
  simp only [recoverVm, sh_bind, Prog.pure_eq]
  refine poll_call hm (.inl rfl) nofun fun known m hm => ?_
  cases known with
  | true => exact hm
  | false => exact poll_call hm (.inr (.inr rfl)) nofun fun _ _ hm => forkLaunch_obeys hm

theorem forceRelaunchVm_obeys {cfg : VmConfig} (hm : m.PollAt (.dead tid)) :
    (forceRelaunchVm h tid cfg).obeys (hostProtocol h) (fun _ => HostMemory.PollAt .idle) m := by
  simp only [forceRelaunchVm, sh_bind, Prog.pure_eq]
  refine poll_call hm (.inr rfl) nofun fun known m hm => ?_
  cases known with
  | true => exact hm
  | false =>
    refine poll_call hm (.inr (.inr rfl)) nofun fun _ m hm => ?_
    rw [Prog.obeys_bind]
    refine Prog.obeys_mono (fun ended m hm => ?_) (within_free stopVmSh_free hm)
    cases ended with
    | some _ => exact forkLaunch_obeys hm
    | none => exact poll_call hm (.inl rfl) nofun fun _ _ hm => hm

theorem registerNetPoll_obeys (up : Bool) (hm : m.PollAt (if up then .idle else .unanswered tid)) :
    (registerNetPoll h tid up).obeys (hostProtocol h)
      (fun dead => HostMemory.PollAt (if dead then .dead tid else .idle)) m := by
  unfold registerNetPoll
  cases up with
  | true => exact poll_call hm (.inl rfl) nofun fun _ _ hm => hm
  | false =>
    simp only [sh_bind, Prog.pure_eq, Bool.false_eq_true, if_false] at hm ⊢
    refine poll_call hm rfl nofun fun n m hm => ?_
    simp only [Stage.next] at hm
    split at hm
    · rename_i hn
      refine poll_call hm (.inr (.inl rfl)) nofun fun _ m hm => ?_
      rw [if_pos hn]
      exact poll_call hm (.inr (.inl rfl)) nofun fun _ _ hm => hm
    · rename_i hn
      refine poll_call hm (.inl rfl) nofun fun _ m hm => ?_
      rw [if_neg hn]
      exact hm

theorem probe_obeys (tid : TenantId) (hm : m.PollAt .idle) :
    (probe env h tid).obeys (hostProtocol h) (fun _ => HostMemory.PollAt .idle) m := by
  simp only [probe, probeGuest, sh_bind, Prog.pure_eq]
  refine poll_call hm trivial nofun fun cfg m hm => ?_
  cases cfg with
  | none => exact hm
  | some cfg =>
    refine poll_call hm trivial nofun fun stopped m hm => ?_
    cases stopped with
    | true => exact hm
    | false =>
      refine poll_call hm trivial nofun fun migrating m hm => ?_
      cases migrating with
      | true => exact hm
      | false =>
        refine poll_call hm rfl nofun fun alive m hm => ?_
        cases alive with
        | false => exact recoverVm_obeys hm
        | true =>
          refine poll_call hm (.inl rfl) nofun fun _ m hm => poll_call hm rfl nofun fun up m hm => ?_
          rw [Prog.obeys_bind]
          refine Prog.obeys_mono (fun dead m hm => ?_) (registerNetPoll_obeys up hm)
          cases dead with
          | true => exact forceRelaunchVm_obeys hm
          | false => exact hm

theorem probeEach_obeys (hm : m.PollAt .idle) (tids : List TenantId) :
    (probeEach env h tids).obeys (hostProtocol h) (fun _ => HostMemory.PollAt .idle) m := by
  induction tids generalizing m with
  | nil => exact hm
  | cons tid tids ih =>
    unfold probeEach
    rw [Prog.obeys_bind]
    exact Prog.obeys_mono (fun _ _ hm => ih hm) (probe_obeys tid hm)

theorem probeAll_obeys (hm : m.PollAt .idle) : (probeAll env h).obeys (hostProtocol h) (fun _ _ => True) m := by
  simp only [probeAll, sh_bind]
  refine poll_call hm trivial nofun fun entries m hm => ?_
  rw [Prog.obeys_bind]
  refine Prog.obeys_mono (fun _ m' hm' => ⟨⟨rfl, ?_⟩, fun _ _ => trivial⟩) (probeEach_obeys hm entries)
  show m'.allow "" .endPoll
  unfold HostMemory.allow
  rw [hm'.job, hm'.stage]
  exact ⟨hm'.polling, rfl⟩

/-- **The processes of a host keep to the protocol.** -/
theorem hostJobs_obey (j : HostJob) :
    ((hostJobs env h).body j).obeys (hostProtocol h) (fun _ _ => True) ((hostProtocol h).init j) := by
  cases j with
  | ssm cmd =>
    show Prog.obeys _ (_ >>= _) _ _
    rw [Prog.obeys_bind]
    exact Prog.obeys_mono (fun _ _ _ => trivial) (run_obeys cmd ⟨⟨cmd, rfl⟩, rfl⟩)
  | backup tid key =>
    show Prog.obeys _ (_ >>= _) _ _
    rw [Prog.obeys_bind]
    exact Prog.obeys_mono (fun _ _ _ => trivial) (plain_obeys rfl (backupDataSh_plain key))
  | forked tid cfg =>
    show Prog.obeys _ (_ >>= _) _ _
    rw [Prog.obeys_bind]
    exact Prog.obeys_mono (fun _ _ _ => trivial) (launchVmSh_obeys rfl ⟨rfl, rfl, fun _ => ⟨rfl, rfl⟩⟩)
  | crash => trivial
  | poll => exact probeAll_obeys ⟨rfl, rfl, rfl⟩

end Scripts

end OpenClaw
