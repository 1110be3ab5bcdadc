import OpenClaw.Host.Launches
import OpenClaw.Lib.Product

/-!
# Recovery

A poll that finds a VM without a Firecracker process launches it again, unless the VM is in `_recovering`: the agent
puts it there when it starts a launch, and takes it out when a later poll finds Firecracker running. A poll skips a VM
with `.stopped`; `stop-vm.sh` leaves that marker whether a user stops the VM or the agent does, and `launch-vm.sh`
removes it.

- `visiting`: how far a poll has got with the VM it looks at.
- `recovery_retries`: when a poll launches a VM that nobody looks after.
- `failed_launch_forgotten`: a launch that failed is not tried again.
-/

namespace OpenClaw

open Atomic

/-! ## The visits of a poll -/

/-- What a poll knows of the VM it looks at. -/
inductive Probe
  /-- Between two VMs, or done with what matters here. -/
  | rest
  /-- There is a `vm.json`. -/
  | json (tid : TenantId)
  /-- There is no `.stopped`. -/
  | unmarked (tid : TenantId)
  /-- There is no live sentinel. -/
  | unmigrated (tid : TenantId)
  /-- There is no Firecracker process. -/
  | missing (tid : TenantId)
  /-- It is not in `_recovering`. -/
  | due (tid : TenantId)
  /-- It was put there to be launched. -/
  | launching (tid : TenantId)
  /-- There is a Firecracker process. -/
  | alive (tid : TenantId)
  /-- `_force_relaunch_vm`: it is not in `_recovering`. -/
  | freed (tid : TenantId)
  /-- It was put there to be stopped and launched. -/
  | relaunching (tid : TenantId)
  /-- The launch could not be started. -/
  | undo (tid : TenantId)
  /-- The poll has ended. -/
  | ended
deriving DecidableEq

/-- A statement of `stop-vm.sh`, or the check of its time. -/
def ShellOp.stops : ShellOp → Bool
  | .begin .stop | .sleep _ | .pkill | .rmSock | .touchStopped | .setup _ | .done .stop | .inTime => true
  | _ => false

def Probe.allows (env : PlatformEnv) (v : Probe) (tid : TenantId) (op : ShellOp) : Prop :=
  match v with
  | .rest => op = .listDir ∨ op = .readVmJson ∨ op = .ping ∨ op = .netDead ∨ (∃ n, op = .setNetDead n) ∨
      op = .isRecovering ∨ op = .endPoll
  | .json t => t = tid ∧ op = .testStopped
  | .unmarked t => t = tid ∧ op = .isMigrating env.sentinelTtl
  | .unmigrated t => t = tid ∧ op = .pgrep
  | .missing t => t = tid ∧ op = .isRecovering
  | .due t | .freed t => t = tid ∧ op = .setRecovering true
  | .launching t => t = tid ∧ ∃ cfg, op = .popen cfg
  | .relaunching t => t = tid ∧ (op.stops = true ∨ ∃ cfg, op = .popen cfg)
  | .alive t | .undo t => t = tid ∧ op = .setRecovering false
  | .ended => False

/-- The VM is not in `_recovering`. -/
def Probe.unknown (v : Probe) (tid : TenantId) : Probe :=
  match v with
  | .missing t => .due t
  | _ => .freed tid

/-- It has been put there. -/
def Probe.put (v : Probe) (tid : TenantId) : Probe :=
  match v with
  | .due t => .launching t
  | _ => .relaunching tid

/-- What the poll knows after one more answer. -/
def Probe.next (v : Probe) (tid : TenantId) : (op : ShellOp) → op.Ans → Probe
  | .readVmJson, r => if r.isSome then .json tid else .rest
  | .testStopped, r => if r then .rest else .unmarked tid
  | .isMigrating _, r => if r then .rest else .unmigrated tid
  | .pgrep, r => if r then .alive tid else .missing tid
  | .isRecovering, r => if r then .rest else v.unknown tid
  | .setRecovering b, _ => if b then v.put tid else .rest
  | .popen _, r => if r then .rest else .undo tid
  | .inTime, r => if r then v else .undo tid
  | .endPoll, _ => .ended
  | _, _ => v

def HostJob.isPoll : HostJob → Bool
  | .poll => true
  | _ => false

/-- A process: `none` is no poll. -/
def visiting (env : PlatformEnv) : Protocol Sh HostJob (Option Probe) where
  init j := if j.isPoll then some .rest else none
  allow v c := ∀ x, v = some x → x.allows env c.tenant c.op
  sane _ _ _ := True
  next v c r := v.map fun x => x.next c.tenant c.op r

/-- The processes of a host, with the visits of the polls. -/
def watching (env : PlatformEnv) (h : HostId) : Protocol Sh HostJob (HostMemory × Option Probe) :=
  (hostProtocol h).prod (visiting env)

/-! ## The agent keeps to it -/

section Obeys

variable {env : PlatformEnv} {h : HostId} {tid : TenantId}

/-- A statement of a visit. -/
theorem visit_call {α : Type} {op : ShellOp} {k : op.Ans → ShProg α} {Q : α → Option Probe → Prop} {v : Probe}
    (ha : v.allows env tid op) (hk : ∀ r, (k r).obeys (visiting env) Q (some (v.next tid op r))) :
    (@Prog.call Sh α ⟨h, tid, op⟩ k).obeys (visiting env) Q (some v) := by
  refine ⟨fun x hx => ?_, fun r _ => hk r⟩
  cases hx
  exact ha

/-- The visit is over. -/
abbrev AtRest {α : Type} (_ : α) (v : Option Probe) : Prop := v = some .rest

theorem forkLaunch_visit (cfg : VmConfig) {v : Probe} (hv : v = .launching tid ∨ v = .relaunching tid) :
    (forkLaunch h tid cfg).obeys (visiting env) AtRest (some v) := by
  simp only [forkLaunch, sh_bind, Prog.pure_eq]
  have ha : v.allows env tid (.popen { cfg with configTemplate := "" }) := by
    rcases hv with rfl | rfl
    · exact ⟨rfl, _, rfl⟩
    · exact ⟨rfl, .inr ⟨_, rfl⟩⟩
  refine visit_call ha fun ok => ?_
  cases ok with
  | true => rfl
  | false => exact visit_call ⟨rfl, rfl⟩ fun _ => rfl

theorem recoverVm_visit (cfg : VmConfig) :
    (recoverVm h tid cfg).obeys (visiting env) AtRest (some (.missing tid)) := by
  simp only [recoverVm, sh_bind, Prog.pure_eq]
  refine visit_call ⟨rfl, rfl⟩ fun known => ?_
  cases known with
  | true => rfl
  | false =>
    refine visit_call (v := .due tid) ⟨rfl, rfl⟩ fun _ => ?_
    exact forkLaunch_visit cfg (.inl rfl)

/-- `stop-vm.sh` under its time. -/
theorem within_visit {α : Type} {p : ShProg α}
    (hp : p.All fun c : ShellCall => c.host = h ∧ c.tenant = tid ∧ c.op.stops = true ∧
      ∀ r, (Probe.relaunching tid).next tid c.op r = .relaunching tid) :
    (Prog.within (S := Sh) ⟨h, tid, .inTime⟩ (fun inTime => inTime) p).obeys (visiting env)
      (fun r v => v = some (if r.isSome then .relaunching tid else .undo tid)) (some (.relaunching tid)) := by
  induction p with
  | ret a => rfl
  | call c k ih =>
    obtain ⟨⟨hhost, htid, hstops, hnext⟩, hk⟩ := hp
    obtain ⟨host, t, op⟩ := c
    obtain rfl : host = h := hhost
    obtain rfl : t = tid := htid
    refine visit_call ⟨rfl, .inl rfl⟩ fun inTime => ?_
    cases inTime with
    | false => rfl
    | true =>
      refine visit_call (v := .relaunching t) ⟨rfl, .inl hstops⟩ fun r => ?_
      have hstay : (Probe.relaunching t).next t op r = .relaunching t := hnext r
      rw [hstay]
      exact ih r (hk r)

theorem forceRelaunchVm_visit (cfg : VmConfig) :
    (forceRelaunchVm h tid cfg).obeys (visiting env) AtRest (some .rest) := by
  simp only [forceRelaunchVm, sh_bind, Prog.pure_eq]
  refine visit_call (.inr (.inr (.inr (.inr (.inr (.inl rfl)))))) fun known => ?_
  cases known with
  | true => rfl
  | false =>
    refine visit_call (v := .freed tid) ⟨rfl, rfl⟩ fun _ => ?_
    rw [Prog.obeys_bind]
    refine Prog.obeys_mono (fun ended v hv => ?_) (within_visit (p := stopVmSh h tid) ?_)
    · rw [hv]
      cases ended with
      | some _ => exact forkLaunch_visit cfg (.inr rfl)
      | none => exact visit_call ⟨rfl, rfl⟩ fun _ => rfl
    · simp only [stopVmSh, sh_bind, Prog.pure_eq]
      iterate 7 refine ⟨⟨rfl, rfl, rfl, fun _ => rfl⟩, fun _ => ?_⟩
      trivial

theorem registerNetPoll_visit (up : Bool) :
    (registerNetPoll h tid up).obeys (visiting env) AtRest (some .rest) := by
  cases up with
  | true => exact visit_call (.inr (.inr (.inr (.inr (.inl ⟨_, rfl⟩))))) fun _ => rfl
  | false =>
    simp only [registerNetPoll, sh_bind]
    refine visit_call (.inr (.inr (.inr (.inl rfl)))) fun n => visit_call (.inr (.inr (.inr (.inr (.inl ⟨_, rfl⟩)))))
      fun _ => ?_
    split
    · exact visit_call (.inr (.inr (.inr (.inr (.inl ⟨_, rfl⟩))))) fun _ => rfl
    · rfl

theorem probe_visit : (probe env h tid).obeys (visiting env) AtRest (some .rest) := by
  simp only [probe, probeGuest, sh_bind, Prog.pure_eq]
  refine visit_call (.inr (.inl rfl)) fun cfg => ?_
  cases cfg with
  | none => rfl
  | some cfg =>
    refine visit_call (v := .json tid) ⟨rfl, rfl⟩ fun stopped => ?_
    cases stopped with
    | true => rfl
    | false =>
      refine visit_call (v := .unmarked tid) ⟨rfl, rfl⟩ fun migrating => ?_
      cases migrating with
      | true => rfl
      | false =>
        refine visit_call (v := .unmigrated tid) ⟨rfl, rfl⟩ fun alive => ?_
        cases alive with
        | false => exact recoverVm_visit cfg
        | true =>
          refine visit_call (v := .alive tid) ⟨rfl, rfl⟩ fun _ => visit_call (.inr (.inr (.inl rfl))) fun up => ?_
          rw [Prog.obeys_bind]
          refine Prog.obeys_mono (fun dead v hv => ?_) (registerNetPoll_visit up)
          rw [hv]
          cases dead with
          | true => exact forceRelaunchVm_visit cfg
          | false => rfl

theorem probeEach_visit (tids : List TenantId) :
    (probeEach env h tids).obeys (visiting env) AtRest (some .rest) := by
  induction tids with
  | nil => rfl
  | cons tid tids ih =>
    unfold probeEach
    rw [Prog.obeys_bind]
    refine Prog.obeys_mono (fun _ v hv => ?_) probe_visit
    rw [hv]
    exact ih

theorem probeAll_visit : (probeAll env h).obeys (visiting env) (fun _ v => v = some .ended) (some .rest) := by
  simp only [probeAll, sh_bind]
  refine visit_call (.inl rfl) fun entries => ?_
  rw [Prog.obeys_bind]
  refine Prog.obeys_mono (fun _ v hv => ?_) (probeEach_visit entries)
  rw [hv]
  exact visit_call (.inr (.inr (.inr (.inr (.inr (.inr rfl)))))) fun _ => rfl

/-- **The processes of a host keep to both protocols**, and no poll returns in the middle of a visit. -/
theorem hostJobs_watched (j : HostJob) : ((hostJobs env h).body j).obeys (watching env h)
    (fun _ x => x.2 = none ∨ x.2 = some .ended) ((watching env h).init j) := by
  have hfree : j.isPoll = false → ((hostJobs env h).body j).obeys (visiting env)
      (fun _ v => v = none ∨ v = some .ended) ((visiting env).init j) := by
    intro hj
    have hinit : (visiting env).init j = none := by simp [visiting, hj]
    rw [hinit]
    have hnone : ∀ c : ShellCall, (visiting env).allow none c ∧ ∀ r, (visiting env).next none c r = none :=
      fun c => ⟨fun x hx => (by cases hx), fun _ => rfl⟩
    exact Prog.obeys_mono (fun _ _ hg => .inl hg) (Prog.obeys_of_free hnone _)
  have hvisit : ((hostJobs env h).body j).obeys (visiting env) (fun _ v => v = none ∨ v = some .ended)
      ((visiting env).init j) := by
    cases j with
    | poll => exact Prog.obeys_mono (fun _ _ hv => .inr hv) probeAll_visit
    | ssm | backup | forked | crash => exact hfree rfl
  exact Prog.obeys_mono (fun _ _ hx => hx.2) (Prog.obeys_prod (hostJobs_obey j) hvisit)

end Obeys

/-! ## What the run has shown -/

inductive Notice
  /-- The agent started a launch. -/
  | spawned (tid : TenantId)
  /-- A poll found Firecracker running. -/
  | found (tid : TenantId)
  /-- `stop-vm.sh` left its marker, for the agent or for a user. -/
  | stopped (tid : TenantId) (byAgent : Bool)
  /-- The marker was removed. -/
  | unmarked (tid : TenantId)
deriving DecidableEq

/-- What a statement shows; only polls have a visit. -/
def notices (x : HostMemory × Option Probe) : (c : ShellCall) → c.op.Ans → List Notice
  | ⟨_, tid, .pgrep⟩, alive => if x.2.isSome && alive then [.found tid] else []
  | ⟨_, tid, .popen _⟩, ok => if ok then [.spawned tid] else []
  | ⟨_, tid, .touchStopped⟩, _ => [.stopped tid x.2.isSome]
  | ⟨_, tid, .rmStopped⟩, _ | ⟨_, tid, .rmDir⟩, _ => [.unmarked tid]
  | _, _ => []

/-- The launch that the agent started last has not been found running. -/
def unseen (tid : TenantId) (l : List Notice) : Bool :=
  l.foldl (fun b n =>
    match n with
    | .spawned t => if t = tid then true else b
    | .found t => if t = tid then false else b
    | _ => b) false

/-- The marker of the VM is one that the agent left. -/
def agentMarked (tid : TenantId) (l : List Notice) : Bool :=
  l.foldl (fun b n =>
    match n with
    | .stopped t byAgent => if t = tid then byAgent else b
    | .unmarked t => if t = tid then false else b
    | _ => b) false

/-- What a run has shown. -/
def noticed {ι : Type} [DecidableEq ι] (env : PlatformEnv) (h : HostId) (tr : List (Ev Sh HostJob ι)) : List Notice :=
  (watching env h).observe notices tr

@[simp] theorem unseen_append (tid : TenantId) (l l' : List Notice) :
    unseen tid (l ++ l') = l'.foldl (fun b n =>
      match n with
      | .spawned t => if t = tid then true else b
      | .found t => if t = tid then false else b
      | _ => b) (unseen tid l) := List.foldl_append

@[simp] theorem agentMarked_append (tid : TenantId) (l l' : List Notice) :
    agentMarked tid (l ++ l') = l'.foldl (fun b n =>
      match n with
      | .stopped t byAgent => if t = tid then byAgent else b
      | .unmarked t => if t = tid then false else b
      | _ => b) (agentMarked tid l) := List.foldl_append

/-! ## What a statement leaves alone -/

section Effects

variable {h : HostId} {tid : TenantId} {op : ShellOp} {r : op.Ans} {m m' : Machines}

/-- The statement writes `_recovering`. -/
def ShellOp.flags : ShellOp → Bool
  | .setRecovering _ => true
  | _ => false

theorem recovering_step (ho : op.flags = false) (hs : opStep h tid op r m m') :
    (m'.machine h).recovering = (m.machine h).recovering := by
  have hw : op.writes .recovering = false := by cases op <;> first | rfl | cases ho
  exact opStep_same hw hs tid

theorem polling_step (ho : op ≠ .endPoll) (hs : opStep h tid op r m m') :
    (m'.machine h).polling = (m.machine h).polling := by
  have hw : op.writes .polling = false := by cases op <;> first | rfl | exact absurd rfl ho
  exact opStep_same hw hs tid

/-- The statement writes `.stopped`. -/
def ShellOp.marks : ShellOp → Bool
  | .touchStopped | .rmStopped | .rmDir => true
  | _ => false

theorem stopped_step (ho : op.marks = false) (hs : opStep h tid op r m m') (t : TenantId) :
    (m'.dir h t).stopped = (m.dir h t).stopped := by
  have hw : op.writes .stopped = false := by cases op <;> first | rfl | cases ho
  exact opStep_same hw hs t

end Effects

/-! ## The agent's memory -/

/-- The flag of the VM, and whether the launch that the agent started last has been found running, as a visit has
them. -/
def Probe.agrees (v : Probe) (tid : TenantId) (flag unseen : Bool) : Prop :=
  match v with
  | .launching t | .relaunching t | .undo t => if t = tid then flag = true ∧ unseen = false else flag = unseen
  | .alive t => if t = tid then unseen = false else flag = unseen
  | .due t | .freed t => flag = unseen ∧ (t = tid → flag = false)
  | _ => flag = unseen

section Memory

variable {env : PlatformEnv} {h : HostId} {tid t : TenantId} {op : ShellOp} {m m' : Machines} {N : List Notice}
  {g : HostMemory}

theorem recovering_set {b : Bool} {r : Unit} (hs : opStep h tid (.setRecovering b) r m m') (t : TenantId) :
    (m'.machine h).recovering t = if t = tid then b else (m.machine h).recovering t := by
  obtain rfl := hs
  rw [Machines.machine_updHost_self]
  by_cases e : t = tid
  · subst e
    simp
  · simp [e]

/-- A statement of a stop says nothing about launches. -/
theorem unseen_stops (ho : op.stops = true) (r : op.Ans) (x : HostMemory × Option Probe) :
    unseen t (N ++ notices x ⟨h, tid, op⟩ r) = unseen t N := by
  cases op
  case begin | sleep | pkill | rmSock | setup | done | inTime => simp [notices]
  case touchStopped => simp [notices]
  all_goals cases ho

theorem flags_stops (ho : op.stops = true) : op.flags = false := by
  cases op
  case setRecovering => cases ho
  all_goals rfl

/-- **One statement of a poll** keeps the flags in step with the launches. -/
theorem Probe.agrees_step {v : Probe} {r : op.Ans} (ha : v.allows env tid op) (hs : opStep h tid op r m m')
    (hv : v.agrees t ((m.machine h).recovering t) (unseen t N)) :
    (v.next tid op r).agrees t ((m'.machine h).recovering t)
      (unseen t (N ++ notices (g, some v) ⟨h, tid, op⟩ r)) := by
  -- A statement that neither writes the flag nor shows anything.
  have hsame : op.flags = false → unseen t (N ++ notices (g, some v) ⟨h, tid, op⟩ r) = unseen t N →
      (v.next tid op r).agrees t ((m.machine h).recovering t) (unseen t N) →
      (v.next tid op r).agrees t ((m'.machine h).recovering t)
        (unseen t (N ++ notices (g, some v) ⟨h, tid, op⟩ r)) := by
    intro hf hn hv'
    rw [recovering_step hf hs, hn]
    exact hv'
  cases v with
  | rest =>
    have hv : (m.machine h).recovering t = unseen t N := hv
    obtain rfl | rfl | rfl | rfl | ⟨n, rfl⟩ | rfl | rfl := ha
    case inr.inr.inr.inr.inr.inl =>
      refine hsame rfl (by simp [notices]) ?_
      obtain ⟨hr, -⟩ := hs
      cases r with
      | true => exact hv
      | false =>
        refine ⟨hv, fun e => ?_⟩
        subst e
        exact hr.symm
    case inr.inl =>
      refine hsame rfl (by simp [notices]) ?_
      cases r with
      | none => exact hv
      | some cfg => exact hv
    all_goals exact hsame rfl (by simp [notices]) hv
  | json t' | unmarked t' =>
    obtain ⟨rfl, rfl⟩ := ha
    refine hsame rfl (by simp [notices]) ?_
    cases r <;> exact hv
  | unmigrated t' =>
    obtain ⟨rfl, rfl⟩ := ha
    have hv : (m.machine h).recovering t = unseen t N := hv
    rw [recovering_step rfl hs]
    cases r with
    | false => simpa [notices, next, agrees] using hv
    | true =>
      by_cases e : t' = t
      · subst e
        simp [notices, next, agrees]
      · simpa [notices, next, agrees, e] using hv
  | missing t' =>
    obtain ⟨rfl, rfl⟩ := ha
    have hv : (m.machine h).recovering t = unseen t N := hv
    refine hsame rfl (by simp [notices]) ?_
    obtain ⟨hr, -⟩ := hs
    cases r with
    | true => exact hv
    | false =>
      refine ⟨hv, fun e => ?_⟩
      subst e
      exact hr.symm
  | due t' | freed t' =>
    obtain ⟨rfl, rfl⟩ := ha
    obtain ⟨heq, hflag⟩ := hv
    have hset := recovering_set hs t
    by_cases e : t' = t
    · subst e
      rw [if_pos rfl] at hset
      have hun : unseen t' N = false := heq ▸ hflag rfl
      simp [notices, next, put, agrees, hset, hun]
    · rw [if_neg (Ne.symm e)] at hset
      simpa [notices, next, put, agrees, e, hset] using heq
  | launching t' =>
    obtain ⟨rfl, cfg, rfl⟩ := ha
    rw [recovering_step rfl hs]
    by_cases e : t' = t
    · subst e
      obtain ⟨hflag, hun⟩ : _ ∧ _ := by simpa [agrees] using hv
      cases r <;> simp [notices, next, agrees, hflag, hun]
    · have heq : (m.machine h).recovering t = unseen t N := by simpa [agrees, e] using hv
      cases r <;> simp [notices, next, agrees, e, heq]
  | relaunching t' =>
    obtain ⟨rfl, hstops | ⟨cfg, rfl⟩⟩ := ha
    · refine hsame (flags_stops hstops) (unseen_stops hstops r _) ?_
      cases op
      case inTime => cases r <;> exact hv
      case begin | sleep | pkill | rmSock | setup | done | touchStopped => exact hv
      all_goals cases hstops
    · rw [recovering_step rfl hs]
      by_cases e : t' = t
      · subst e
        obtain ⟨hflag, hun⟩ : _ ∧ _ := by simpa [agrees] using hv
        cases r <;> simp [notices, next, agrees, hflag, hun]
      · have heq : (m.machine h).recovering t = unseen t N := by simpa [agrees, e] using hv
        cases r <;> simp [notices, next, agrees, e, heq]
  | alive t' | undo t' =>
    obtain ⟨rfl, rfl⟩ := ha
    have hset := recovering_set hs t
    by_cases e : t' = t
    · subst e
      rw [if_pos rfl] at hset
      have hun : unseen t' N = false := by
        first
        | simpa [agrees] using hv
        | exact (by simpa [agrees] using hv : _ ∧ _).2
      simp [notices, next, agrees, hset, hun]
    · rw [if_neg (Ne.symm e)] at hset
      have heq : (m.machine h).recovering t = unseen t N := by simpa [agrees, e] using hv
      simp [notices, next, agrees, hset, heq]
  | ended => exact ha.elim

/-- A script starts no launches of the agent, and is no poll. -/
theorem unseen_script (ho : op.ofAgent = false) (r : op.Ans) :
    unseen t (N ++ notices (g, none) ⟨h, tid, op⟩ r) = unseen t N := by
  cases op
  case popen => cases ho
  all_goals simp [notices]

theorem agentMarked_step (ho : op.marks = false) (r : op.Ans) (x : HostMemory × Option Probe) :
    agentMarked t (N ++ notices x ⟨h, tid, op⟩ r) = agentMarked t N := by
  cases op
  case touchStopped | rmStopped | rmDir => cases ho
  case pgrep =>
    by_cases hr : (x.2.isSome && r) = true
    · simp [notices, hr]
    · simp [notices, hr]
  case popen => cases r <;> simp [notices]
  all_goals simp [notices]

/-- A marker of the agent is there. -/
theorem marked_step {r : op.Ans} (hs : opStep h tid op r m m') (x : HostMemory × Option Probe)
    (hm : ∀ t, agentMarked t N = true → (m.dir h t).stopped = true) (t : TenantId)
    (ht : agentMarked t (N ++ notices x ⟨h, tid, op⟩ r) = true) : (m'.dir h t).stopped = true := by
  by_cases ho : op.marks = false
  · rw [stopped_step ho hs]
    rw [agentMarked_step ho] at ht
    exact hm t ht
  · cases op
    case touchStopped =>
      obtain rfl := hs
      by_cases e : tid = t
      · subst e
        rw [Machines.dir_upd_self]
      · rw [Machines.dir_upd_of_ne _ _ fun e' => e e'.2.symm]
        exact hm t (by simpa [notices, e] using ht)
    case rmStopped | rmDir =>
      obtain rfl := hs
      by_cases e : tid = t
      · simp [notices, e] at ht
      · rw [Machines.dir_upd_of_ne _ _ fun e' => e e'.2.symm]
        exact hm t (by simpa [notices, e] using ht)
    all_goals exact absurd rfl ho

end Memory

/-! ## The invariant -/

variable {ι : Type}

/-- What the memory of the agent and the markers tell of the run. -/
structure RecoveryInv (l : ι → Option (HostMemory × Option Probe)) (N : List Notice) (x : Machine) : Prop where
  jobs : ∀ i g, l i = some (g, none) → g.job.isPoll = false
  /-- Polls run one after the other. -/
  single : ∀ i j g g' v v', l i = some (g, some v) → l j = some (g', some v') → v ≠ .ended → v' ≠ .ended → i = j
  polling : ∀ i g v, l i = some (g, some v) → v ≠ .ended → x.polling = true
  /-- Between two polls the VMs in `_recovering` are those with a launch that was not found running. -/
  known : ∀ t, x.recovering t = unseen t N ∨ ∃ i g v, l i = some (g, some v) ∧ v ≠ .ended
  visit : ∀ i g v, l i = some (g, some v) → v ≠ .ended → ∀ t, v.agrees t (x.recovering t) (unseen t N)
  marked : ∀ t, agentMarked t N = true → (x.dirs t).stopped = true

section Invariant

variable [DecidableEq ι] {l : ι → Option (HostMemory × Option Probe)} {N N' : List Notice} {x x' : Machine} {i : ι}
  {g g' : HostMemory} {v v' : Probe}

/-- The local states after one process changed its own. -/
theorem updated {β : Type} {l : ι → Option β} {j : ι} {b b' : β} (h : Function.update l i (some b) j = some b') :
    j = i ∧ b' = b ∨ j ≠ i ∧ l j = some b' := by
  by_cases e : j = i
  · subst e
    rw [Function.update_self, Option.some.injEq] at h
    exact .inl ⟨rfl, h.symm⟩
  · rw [Function.update_of_ne e] at h
    exact .inr ⟨e, h⟩

/-- A process that is no poll starts or makes a statement. -/
theorem RecoveryInv.script (hI : RecoveryInv l N x) (hl : ∀ y v, l i = some (y, some v) → v = .ended)
    (hjob : g'.job.isPoll = false) (hrec : x'.recovering = x.recovering) (hpoll : x'.polling = x.polling)
    (hun : ∀ t, unseen t N' = unseen t N) (hm : ∀ t, agentMarked t N' = true → (x'.dirs t).stopped = true) :
    RecoveryInv (Function.update l i (some (g', none))) N' x' := by
  have hold : ∀ {j y w}, Function.update l i (some (g', none)) j = some (y, some w) → l j = some (y, some w) := by
    intro j y w hj
    obtain ⟨-, e⟩ | ⟨-, hj⟩ := updated hj
    · cases e
    · exact hj
  refine ⟨fun j y hj => ?_, fun j k y z v w hj hk => hI.single j k y z v w (hold hj) (hold hk), fun j y v hj hv => ?_,
    fun t => ?_, fun j y v hj hv t => ?_, hm⟩
  · obtain ⟨-, e⟩ | ⟨-, hj⟩ := updated hj
    · cases e
      exact hjob
    · exact hI.jobs j y hj
  · rw [hpoll]
    exact hI.polling j y v (hold hj) hv
  · rw [hrec, hun]
    refine (hI.known t).imp_right fun hact => ?_
    obtain ⟨j, y, v, hj, hv⟩ := hact
    have hne : j ≠ i := fun e => hv (hl y v (e ▸ hj))
    exact ⟨j, y, v, by rw [Function.update_of_ne hne, hj], hv⟩
  · rw [hrec, hun]
    exact hI.visit j y v (hold hj) hv t

/-- The poll makes a statement. -/
theorem RecoveryInv.poll (hI : RecoveryInv l N x)
    (hl : ∀ j y w, l j = some (y, some w) → w ≠ .ended → j = i) (hpoll : v' ≠ .ended → x'.polling = true)
    (hv : ∀ t, v'.agrees t (x'.recovering t) (unseen t N'))
    (hm : ∀ t, agentMarked t N' = true → (x'.dirs t).stopped = true) :
    RecoveryInv (Function.update l i (some (g', some v'))) N' x' := by
  have hone : ∀ {j y w}, Function.update l i (some (g', some v')) j = some (y, some w) → w ≠ .ended →
      j = i ∧ w = v' := by
    intro j y w hj hw
    obtain ⟨rfl, e⟩ | ⟨hne, hj⟩ := updated hj
    · cases e
      exact ⟨rfl, rfl⟩
    · exact absurd (hl j y w hj hw) hne
  refine ⟨fun j y hj => ?_, fun j k y z w w' hj hk hw hw' => ?_, fun j y w hj hw => ?_, fun t => ?_,
    fun j y w hj hw t => ?_, hm⟩
  · obtain ⟨-, e⟩ | ⟨-, hj⟩ := updated hj
    · cases e
    · exact hI.jobs j y hj
  · exact (hone hj hw).1.trans (hone hk hw').1.symm
  · obtain ⟨-, rfl⟩ := hone hj hw
    exact hpoll hw
  · by_cases hend : v' = .ended
    · subst hend
      exact .inl (hv t)
    · exact .inr ⟨i, g', v', Function.update_self .., hend⟩
  · obtain ⟨-, rfl⟩ := hone hj hw
    exact hv t

/-- A job starts. -/
theorem RecoveryInv.start {env : PlatformEnv} {h : HostId} {m m' : Machines} {j : HostJob}
    (hI : RecoveryInv l N (m.machine h)) (hn : l i = none) (hs : (hostJobs env h).start j m m') :
    RecoveryInv (Function.update l i (some ((watching env h).init j))) N (m'.machine h) := by
  have hl : ∀ y v, l i = some (y, some v) → v = .ended := by
    intro y v hi
    rw [hn] at hi
    cases hi
  cases j with
  | poll =>
    obtain ⟨hidle, rfl⟩ := hs
    have hnone : ∀ k y w, l k = some (y, some w) → w = .ended := by
      intro k y w hk
      by_contra hw
      have hp := hI.polling k y w hk hw
      rw [hidle] at hp
      cases hp
    rw [Machines.machine_updHost_self]
    refine hI.poll (fun k y w hk hw => absurd (hnone k y w hk) hw) (fun _ => rfl) (fun t => ?_) hI.marked
    rcases hI.known t with heq | ⟨k, y, w, hk, hw⟩
    · exact heq
    · exact absurd (hnone k y w hk) hw
  | forked tid cfg =>
    obtain ⟨-, rfl⟩ := hs
    rw [Machines.machine_updHost_self]
    exact hI.script hl rfl rfl rfl (fun _ => rfl) hI.marked
  | ssm cmd =>
    obtain rfl : m' = m := hs
    exact hI.script hl rfl rfl rfl (fun _ => rfl) hI.marked
  | backup tid key =>
    obtain rfl : m' = m := hs
    exact hI.script hl rfl rfl rfl (fun _ => rfl) hI.marked
  | crash tid =>
    obtain rfl : m' = m.upd h tid fun d => { d with fc := .absent } := hs
    refine hI.script hl rfl ?_ ?_ (fun _ => rfl) fun t ht => ?_
    · rw [Machines.upd, Machines.machine_updHost_self]
    · rw [Machines.upd, Machines.machine_updHost_self]
    · have hst : ((m.upd h tid fun d => { d with fc := .absent }).dir h t).stopped = (m.dir h t).stopped :=
        field_upd (f := fun d => { d with fc := .absent }) (g := VmDir.stopped) (fun _ => rfl) t
      exact hst.trans (hI.marked t ht)

theorem HostMemory.ofAgent_eq_false {tid : TenantId} {op : ShellOp} (hj : g.job.isPoll = false)
    (ha : g.allow tid op) : op.ofAgent = false := by
  unfold allow at ha
  cases hjob : g.job with
  | poll => simp [hjob, HostJob.isPoll] at hj
  | crash t => simp [hjob] at ha
  | ssm cmd =>
    simp only [hjob] at ha
    exact ha.2
  | backup t key | forked t cfg =>
    simp only [hjob] at ha
    exact ha.2.1

/-- Only the last statement of a poll ends it. -/
theorem Probe.next_ended {env : PlatformEnv} {tid : TenantId} {op : ShellOp} {r : op.Ans} (ha : v.allows env tid op)
    (ho : v.next tid op r ≠ .ended) : op ≠ .endPoll := by
  intro e
  subst e
  exact ho rfl

/-- A process makes a statement. -/
theorem RecoveryInv.call {env : PlatformEnv} {h : HostId} {m m' : Machines} {y : HostMemory × Option Probe}
    {tid : TenantId} {op : ShellOp} {r : op.Ans} (hI : RecoveryInv l N (m.machine h)) (hl : l i = some y)
    (ha : (watching env h).allow y ⟨h, tid, op⟩) (hs : opStep h tid op r m m') :
    RecoveryInv (Function.update l i (some ((watching env h).next y ⟨h, tid, op⟩ r)))
      (N ++ notices y ⟨h, tid, op⟩ r) (m'.machine h) := by
  obtain ⟨g, v⟩ := y
  obtain ⟨⟨-, hallow⟩, hvisit⟩ := ha
  have hmark := marked_step hs (g, v) hI.marked
  cases v with
  | none =>
    have hjob := hI.jobs i g hl
    have ho : op.ofAgent = false := HostMemory.ofAgent_eq_false hjob hallow
    have hfl : op.flags = false := by
      cases op
      case setRecovering => cases ho
      all_goals rfl
    have hend : op ≠ .endPoll := fun e => by
      subst e
      cases ho
    refine hI.script (fun z w hz => ?_) ?_ (recovering_step hfl hs) (polling_step hend hs)
      (fun t => unseen_script ho r) hmark
    · rw [hl] at hz
      cases hz
    · show (g.next tid op r).job.isPoll = false
      rw [HostMemory.next_job]
      exact hjob
  | some v =>
    have hv : v.allows env tid op := hvisit v rfl
    have hlive : v ≠ .ended := by
      intro e
      subst e
      exact hv
    refine hI.poll (fun k z w hk hw => hI.single k i z g w v hk hl hw hlive) (fun hend => ?_)
      (fun t => Probe.agrees_step hv hs (hI.visit i g v hl hlive t)) hmark
    rw [polling_step (Probe.next_ended hv hend) hs]
    exact hI.polling i g v hl hlive

end Invariant

/-! ## Recovery -/

/-- The next thing the poll asks about the VM, on the way to launching it. -/
def Probe.looks : Probe → ShellOp → Bool
  | .rest, .readVmJson => true
  | .json _, .testStopped => true
  | .unmarked _, .isMigrating _ => true
  | .unmigrated _, .pgrep => true
  | .missing _, .isRecovering => true
  | _, _ => false

/-- The poll leaves the VM as it is. -/
def ShellOp.turnsAway : (op : ShellOp) → op.Ans → Bool
  | .readVmJson, r => r.isNone
  | .testStopped, r | .isMigrating _, r | .pgrep, r | .isRecovering, r => r
  | _, _ => false

/-- The next statements launch the VM. -/
def StartsLaunch (h : HostId) (tid : TenantId) (p : ShProg Unit) : Prop :=
  ∃ (cfg : VmConfig) (k : Bool → ShProg Unit),
    p = @Prog.call Sh Unit ⟨h, tid, .setRecovering true⟩ fun _ => @Prog.call Sh Unit ⟨h, tid, .popen cfg⟩ k

/-- The poll goes on with the VM, and launches it after the last look. -/
def GoesOn (h : HostId) (tid : TenantId) (op : ShellOp) (r : op.Ans) (p : ShProg Unit) : Prop :=
  op.turnsAway r = false ∧ (op = .isRecovering → StartsLaunch h tid p)

/-- A VM that nobody looks after: there is a `vm.json`, no Firecracker process, no live sentinel, no launch under way,
and no user stopped it. -/
structure Unattended [DecidableEq ι] (env : PlatformEnv) (h : HostId) (tr : List (Ev Sh HostJob ι)) (m : Machines)
    (tid : TenantId) : Prop where
  vmJson : (m.dir h tid).vmJson.isSome = true
  absent : (m.dir h tid).fc = .absent
  unmigrated : (m.dir h tid).sentinel.any (fun s => m.clock - s ≤ env.sentinelTtl) = false
  wanted : (m.dir h tid).stopped = true → agentMarked tid (noticed env h tr) = true
  quiet : Quiet ((hostProtocol h).locs tr) (m.machine h) tid

/-- The agent has just been started. -/
structure FreshAgent (x : Machine) : Prop where
  recovering : ∀ tid, x.recovering tid = false
  polling : x.polling = false

/-- A poll that has found the VM due launches it. -/
theorem startsLaunch_of_obeys {env : PlatformEnv} {h : HostId} {tid : TenantId} {p : ShProg Unit} {g : HostMemory}
    (hp : p.obeys (watching env h) (fun _ x => x.2 = none ∨ x.2 = some .ended) (g, some (.due tid))) :
    StartsLaunch h tid p := by
  cases p with
  | ret a =>
    obtain e | e := hp
    · cases e
    · cases e
  | call c k =>
    obtain ⟨⟨⟨hhost, -⟩, hvisit⟩, hk⟩ := hp
    obtain ⟨host, t, op⟩ := c
    obtain rfl : host = h := hhost
    obtain ⟨rfl, rfl⟩ : tid = t ∧ op = .setRecovering true := hvisit _ rfl
    have hnext := hk () ⟨trivial, trivial⟩
    have hconst : k = fun _ => k () := rfl
    generalize k () = q at hnext hconst
    cases q with
    | ret a =>
      obtain e | e := hnext
      · cases e
      · cases e
    | call c k' =>
      obtain ⟨⟨⟨hhost, -⟩, hvisit⟩, -⟩ := hnext
      obtain ⟨host', t, op⟩ := c
      obtain rfl : host' = host := hhost
      obtain ⟨rfl, cfg, rfl⟩ : tid = t ∧ ∃ cfg, op = .popen cfg := hvisit _ rfl
      exact ⟨cfg, k', congrArg _ hconst⟩

/-- The state of the agent and of its polls after a run. -/
theorem recoveryInv [DecidableEq ι] (env : PlatformEnv) (h : HostId) {m₀ : Machines} (h₀ : FreshAgent (m₀.machine h))
    {tr : List (Ev Sh HostJob ι)} {c : Conf Sh Machines HostJob ι Unit}
    (hr : Reach shell (hostJobs env h) anyStep (Conf.idle m₀) tr c) :
    RecoveryInv ((watching env h).locs tr) (noticed env h tr) (c.world.machine h) ∧
      ∀ i j p, c.proc i = some (j, p) → ∃ x, (watching env h).locs tr i = some x ∧
        p.obeys (watching env h) (fun _ x => x.2 = none ∨ x.2 = some .ended) x := by
  let I : List (Ev Sh HostJob ι) → Machines → Prop := fun tr m =>
    RecoveryInv ((watching env h).locs tr) (noticed env h tr) (m.machine h)
  have hinit : I [] m₀ := by
    refine ⟨fun i g hi => ?_, fun i j g g' v v' hi => ?_, fun i g v hi => ?_, fun t => .inl (h₀.recovering t),
      fun i g v hi => ?_, fun t ht => ?_⟩
    · cases hi
    · cases hi
    · cases hi
    · cases hi
    · cases ht
  have hstart : ∀ tr m i j m', I tr m → (watching env h).locs tr i = none → anyStep tr m (Ev.start i j) →
      (hostJobs env h).start j m m' → I (tr ++ [.start i j]) m' := by
    intro tr m i j m' hI hn _ hs
    show RecoveryInv _ _ _
    rw [noticed, Protocol.observe_snoc, Protocol.locs_snoc]
    simp only [Protocol.seen, List.append_nil]
    exact hI.start hn hs
  have hcall : ∀ tr m i y c r m', I tr m → (watching env h).locs tr i = some y → (watching env h).allow y c →
      anyStep tr m (Ev.call i c r) → shell.step c r m m' →
      (watching env h).sane y c r ∧ I (tr ++ [.call i c r]) m' := by
    intro tr m i y c r m' hI hl ha _ hs
    obtain ⟨host, tid, op⟩ := c
    obtain rfl : host = h := ha.1.1
    refine ⟨⟨trivial, trivial⟩, ?_⟩
    show RecoveryInv _ _ _
    rw [noticed, Protocol.observe_snoc, Protocol.locs_snoc, Protocol.stepLoc, Protocol.seen, hl]
    exact hI.call hl ha hs
  obtain ⟨hI, -, hp⟩ := Reach.protocol hostJobs_watched hinit hstart hcall hr
  exact ⟨hI, hp⟩

/-- **Recovery.** A poll that looks at a VM that nobody looks after goes on to launch it if and only if the agent has
no marker of its own on the VM, and the launch that it started last has been found running. -/
theorem recovery_retries [DecidableEq ι] (env : PlatformEnv) (h : HostId) {m₀ : Machines}
    (h₀ : FreshAgent (m₀.machine h)) {tr : List (Ev Sh HostJob ι)} {c c' : Conf Sh Machines HostJob ι Unit}
    (hr : Reach shell (hostJobs env h) anyStep (Conf.idle m₀) tr c) {i : ι} {g : HostMemory} {v : Probe}
    (hl : (watching env h).locs tr i = some (g, some v)) {tid : TenantId} {op : ShellOp} {r : op.Ans}
    (hv : v.looks op = true) (hs : Step shell (hostJobs env h) c (.call i ⟨h, tid, op⟩ r) c')
    (hu : Unattended env h tr c.world tid) :
    (∃ j p, c'.proc i = some (j, p) ∧ GoesOn h tid op r p) ↔
      (op = .testStopped → agentMarked tid (noticed env h tr) = false) ∧
      (op = .isRecovering → unseen tid (noticed env h tr) = false) := by
  obtain ⟨hI, hp⟩ := recoveryInv env h h₀ hr
  cases hs with
  | @call _ j _ k _ w' hi hs =>
    obtain ⟨x, hx, ho⟩ := hp i j _ hi
    obtain rfl : (g, some v) = x := Option.some.inj (hl.symm.trans hx)
    obtain ⟨⟨-, hvisit⟩, hk⟩ := ho
    have hallow : v.allows env tid op := hvisit v rfl
    have hrest : (k r).obeys (watching env h) (fun _ x => x.2 = none ∨ x.2 = some .ended)
        ((watching env h).next (g, some v) ⟨h, tid, op⟩ r) := hk r ⟨trivial, trivial⟩
    have hlive : v ≠ .ended := by
      intro e
      subst e
      exact hallow
    have hagree := hI.visit i g v hl hlive tid
    have hgoes : (∃ j' p, (Conf.mk (S := Sh) w' (Function.update c.proc i (some (j, k r)))).proc i = some (j', p) ∧
        GoesOn h tid op r p) ↔ GoesOn h tid op r (k r) := by
      simp
    rw [hgoes]
    cases v with
    | rest =>
      cases op
      case readVmJson =>
        obtain ⟨rfl, -⟩ := hs
        simp [GoesOn, ShellOp.turnsAway, hu.vmJson]
      all_goals cases hv
    | json t =>
      obtain ⟨rfl, rfl⟩ := hallow
      obtain ⟨rfl, -⟩ := hs
      have hmark : (c.world.dir h t).stopped = agentMarked t (noticed env h tr) := by
        rw [Bool.eq_iff_iff]
        exact ⟨hu.wanted, hI.marked t⟩
      simp [GoesOn, ShellOp.turnsAway, hmark]
    | unmarked t =>
      obtain ⟨rfl, rfl⟩ := hallow
      obtain ⟨now, hnow, hlook, -⟩ := hs
      have hlater : r = false := by
        have hold := hu.unmigrated
        rw [hlook]
        cases hsent : (c.world.dir h t).sentinel with
        | none => rfl
        | some s =>
          rw [hsent] at hold
          simp only [Option.any_some, decide_eq_false_iff_not] at hold ⊢
          exact fun hle => hold (le_trans (Int.sub_le_sub_right hnow s) hle)
      simp [GoesOn, ShellOp.turnsAway, hlater]
    | unmigrated t =>
      obtain ⟨rfl, rfl⟩ := hallow
      obtain ⟨rfl, -⟩ := hs
      simp [GoesOn, ShellOp.turnsAway, hu.absent]
    | missing t =>
      obtain ⟨rfl, rfl⟩ := hallow
      obtain ⟨hrec, -⟩ := hs
      have hflag : r = unseen t (noticed env h tr) := hrec.trans hagree
      have hlaunch : r = false → StartsLaunch h t (k r) := by
        intro e
        subst e
        exact startsLaunch_of_obeys hrest
      simp only [GoesOn, ShellOp.turnsAway, ← hflag]
      simpa using hlaunch
    | _ => simp [Probe.looks] at hv

/-! ## Runs -/

/-- Nobody looks after the VM, computed. -/
def unattendedCheck (h : HostId) (tr : List (Ev Sh HostJob ℕ)) (m : Machines) (tid : TenantId) : Bool :=
  (m.dir h tid).vmJson.isSome && (m.dir h tid).fc = .absent && (m.dir h tid).sentinel.isNone &&
    !(m.dir h tid).stopped && quietCheck h tr m tid

theorem unattendedCheck_sound {env : PlatformEnv} {h : HostId} {tr : List (Ev Sh HostJob ℕ)} {m : Machines}
    {tid : TenantId} (hc : unattendedCheck h tr m tid = true) : Unattended env h tr m tid := by
  simp only [unattendedCheck, Bool.and_eq_true, decide_eq_true_eq, Option.isNone_iff_eq_none,
    Bool.not_eq_true'] at hc
  obtain ⟨⟨⟨⟨hjson, hfc⟩, hsent⟩, hst⟩, hquiet⟩ := hc
  refine ⟨hjson, hfc, by rw [hsent]; rfl, fun hs => ?_, quietCheck_sound hquiet⟩
  rw [hst] at hs
  cases hs

/-- The poll has found that the VM has no Firecracker process. -/
def missingCheck (env : PlatformEnv) (h : HostId) (tid : TenantId) (i : ℕ)
    (x : List (Ev Sh HostJob ℕ) × Conf Sh Machines HostJob ℕ Unit) : Bool :=
  (((watching env h).locs x.1 i).any fun y => y.2 = some (.missing tid)) &&
    (x.2.proc i).any (makesNext ⟨h, tid, .isRecovering⟩) && unattendedCheck h x.1 x.2.world tid

/-- Its next look. -/
theorem look_of_missingCheck {env : PlatformEnv} {h : HostId} {tid : TenantId} {i : ℕ} {tr : List (Ev Sh HostJob ℕ)}
    {c : Conf Sh Machines HostJob ℕ Unit} (hc : missingCheck env h tid i (tr, c) = true) :
    (∃ g, (watching env h).locs tr i = some (g, some (.missing tid))) ∧ Unattended env h tr c.world tid ∧
      ∃ c', Step shell (hostJobs env h) c
        (.call i ⟨h, tid, .isRecovering⟩ ((c.world.machine h).recovering tid)) c' := by
  simp only [missingCheck, Bool.and_eq_true] at hc
  obtain ⟨⟨hl, hp⟩, hu⟩ := hc
  obtain ⟨⟨g, v⟩, hl, hv⟩ := (Option.any_eq_true _ _).1 hl
  obtain rfl : v = some (.missing tid) := of_decide_eq_true hv
  obtain ⟨j, k, hp⟩ := proc_of_makesNext hp
  exact ⟨⟨g, hl⟩, unattendedCheck_sound hu, _, .call hp ⟨rfl, rfl⟩⟩

/-- A host whose VMs have lost their Firecracker processes. -/
def lostHosts : Machines :=
  { machine := fun _ => { template := ⟨0, bytes 4096, []⟩, dirs := fun _ => { vmJson := some ⟨1, 2, 4096, ""⟩ } } }

theorem lostHosts_fresh : FreshAgent (lostHosts.machine "i-1") := ⟨fun _ => rfl, rfl⟩

/-- A poll up to its last look at the VM. -/
def firstPoll : List (Move HostJob ℕ ShellHint) :=
  .start 0 .poll :: List.replicate 5 (.call 0 { entries := ["a-0000"] })

/-- A poll launches the VM; there is no data template, and the launch fails. The next poll comes up to its last look. -/
def failedLaunch : List (Move HostJob ℕ ShellHint) :=
  List.flatten [[.start 0 .poll], List.replicate 9 (.call 0 { entries := ["a-0000"] }),
    [.start 1 (.forked "a-0000" ⟨1, 2, 4096, ""⟩)], List.replicate 7 (.call 1 {}),
    [.call 1 { ok := false }], List.replicate 3 (.call 1 {}),
    [.start 2 .poll], List.replicate 5 (.call 2 { entries := ["a-0000"] })]

/-- The first poll launches the VM. -/
theorem recovery_retries_first : ∃ (tr : List (Ev Sh HostJob ℕ)) (c c' : Conf Sh Machines HostJob ℕ Unit) (r : Bool),
    Reach shell (hostJobs {} "i-1") anyStep (Conf.idle lostHosts) tr c ∧
    Step shell (hostJobs {} "i-1") c (.call 0 ⟨"i-1", "a-0000", .isRecovering⟩ r) c' ∧
    ∃ j p, c'.proc 0 = some (j, p) ∧ GoesOn "i-1" "a-0000" .isRecovering r p := by
  have hplay : ((shellOracle.play (hostJobs {} "i-1") (hostStart "i-1") (fun _ _ _ => true) [] (Conf.idle lostHosts)
      firstPoll).any fun x =>
        missingCheck {} "i-1" "a-0000" 0 x && !unseen "a-0000" (noticed {} "i-1" x.1)) = true := by
    decide +kernel
  obtain ⟨tr, c, hr, hc⟩ := Oracle.exists_reach_of_play hostStart_sound (fun _ _ _ _ => trivial) hplay
  simp only [Bool.and_eq_true, Bool.not_eq_true'] at hc
  obtain ⟨⟨g, hl⟩, hu, c', hs⟩ := look_of_missingCheck hc.1
  refine ⟨tr, c, c', _, hr, hs, ?_⟩
  exact (recovery_retries {} "i-1" lostHosts_fresh hr hl rfl hs hu).2 ⟨fun e => (by cases e), fun _ => hc.2⟩

/-- The launch has failed, and no poll tries again: the VM stays in `_recovering`. -/
theorem failed_launch_forgotten : ¬ ∀ (m₀ : Machines) (tr : List (Ev Sh HostJob ℕ))
    (c c' : Conf Sh Machines HostJob ℕ Unit) (i : ℕ) (g : HostMemory) (v : Probe) (op : ShellOp) (r : op.Ans),
    FreshAgent (m₀.machine "i-1") → Reach shell (hostJobs {} "i-1") anyStep (Conf.idle m₀) tr c →
    (watching {} "i-1").locs tr i = some (g, some v) → v.looks op = true →
    Step shell (hostJobs {} "i-1") c (.call i ⟨"i-1", "a-0000", op⟩ r) c' →
    Unattended {} "i-1" tr c.world "a-0000" →
    ∃ j p, c'.proc i = some (j, p) ∧ GoesOn "i-1" "a-0000" op r p := by
  intro hall
  have hplay : ((shellOracle.play (hostJobs {} "i-1") (hostStart "i-1") (fun _ _ _ => true) [] (Conf.idle lostHosts)
      failedLaunch).any fun x => missingCheck {} "i-1" "a-0000" 2 x &&
        (x.2.world.machine "i-1").recovering "a-0000") = true := by
    decide +kernel
  obtain ⟨tr, c, hr, hc⟩ := Oracle.exists_reach_of_play hostStart_sound (fun _ _ _ _ => trivial) hplay
  simp only [Bool.and_eq_true] at hc
  obtain ⟨⟨g, hl⟩, hu, c', hs⟩ := look_of_missingCheck hc.1
  obtain ⟨j, p, -, hgoes, -⟩ := hall _ tr c c' 2 g _ .isRecovering _ lostHosts_fresh hr hl rfl hs hu
  have hturn : (c.world.machine "i-1").recovering "a-0000" = false := hgoes
  rw [hc.2] at hturn
  cases hturn

end OpenClaw
