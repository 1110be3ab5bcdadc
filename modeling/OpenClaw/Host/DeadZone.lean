import OpenClaw.Host.Agent
import OpenClaw.Host.Play
import OpenClaw.Lib.Sequence

/-!
# The dead-zone guard

The agent relaunches a VM whose Firecracker process is alive and whose guest left three polls unanswered. The counter
`_net_dead_polls` is reset by an answer and by a relaunch, but not by a poll that finds the VM stopped, in migration or
without a Firecracker process.

- `probeAll_found`: what one poll does to the counter, by what it finds.
- `PollRun.relaunchAt_iff`: the guard relaunches at every third unreachable poll since the guest last answered.
- `dead_zone_consecutive`: for which sequences of polls the guard counts consecutive polls only.
- `dead_zone_skips_stopped`: three unanswered polls with a stop between them.
-/

namespace OpenClaw

open Atomic

/-! ## What a poll finds -/

inductive Finding
  /-- No `vm.json`. -/
  | skipped
  | stopped
  | migrating
  /-- No Firecracker process. -/
  | absent
  | reachable
  | unreachable
deriving DecidableEq

/-- What is found after one more answer. -/
def Finding.look (f : Finding) : Answered Sh → Finding
  | ⟨⟨_, _, .testStopped⟩, r⟩ => if r = true then .stopped else f
  | ⟨⟨_, _, .isMigrating _⟩, r⟩ => if r = true then .migrating else f
  | ⟨⟨_, _, .pgrep⟩, r⟩ => if r = true then f else .absent
  | ⟨⟨_, _, .ping⟩, r⟩ => if r = true then .reachable else .unreachable
  | _ => f

/-- What a poll with these answers has found. -/
def found (l : List (Answered Sh)) : Finding := l.foldl Finding.look .skipped

/-- The poll starts `_force_relaunch_vm`, which begins with a look into `_recovering`. -/
def startsRelaunch (l : List (Answered Sh)) : Bool :=
  found l = .unreachable && l.any fun x => x.1.op = .isRecovering

/-- The counter after a poll. -/
def Finding.count (f : Finding) (n : Nat) : Nat :=
  match f with
  | .reachable => 0
  | .unreachable => if netDeadThreshold ≤ n + 1 then 0 else n + 1
  | _ => n

/-! ## One poll -/

section Poll

variable {env : PlatformEnv} {h : HostId} {tid : TenantId}

/-- The counter of a VM. -/
def Machines.netDead (m : Machines) (h : HostId) (tid : TenantId) : Nat := (m.machine h).netDead tid

/-- The statements of a poll of the VM. In between anything may happen on the hosts, except that only this poll writes
the counter. -/
def besideOthers (h : HostId) (tid : TenantId) : Sem Sh Machines :=
  ⟨fun c r m m' => ∃ m₁, m₁.netDead h tid = m.netDead h tid ∧ opStep c.host c.tenant c.op r m₁ m'⟩

/-- The statement is neither one that tells what is found nor one that writes the counter. -/
def ShellOp.neutral : ShellOp → Bool
  | .testStopped | .isMigrating _ | .pgrep | .ping | .setNetDead _ => false
  | _ => true

theorem look_neutral {f : Finding} {x : Answered Sh} (hx : x.1.op.neutral = true) : f.look x = f := by
  obtain ⟨⟨host, t, op⟩, r⟩ := x
  cases op
  case testStopped | isMigrating | pgrep | ping | setNetDead => cases hx
  all_goals rfl

theorem foldl_look_neutral {l : List (Answered Sh)} (hl : ∀ x ∈ l, x.1.op.neutral = true) (f : Finding) :
    l.foldl Finding.look f = f := by
  induction l with
  | nil => rfl
  | cons x l ih =>
    rw [List.foldl_cons, look_neutral (hl x List.mem_cons_self)]
    exact ih fun y hy => hl y (List.mem_cons_of_mem _ hy)

/-- The statement writes the counter. -/
def ShellOp.counts : ShellOp → Bool
  | .setNetDead _ => true
  | _ => false

/-- Only `setNetDead` writes the counter. -/
theorem netDead_step {c : ShellCall} {r : c.op.Ans} {m m' : Machines} (ho : c.op.counts = false)
    (hs : opStep c.host c.tenant c.op r m m') : m'.netDead h tid = m.netDead h tid := by
  obtain ⟨host, t, op⟩ := c
  have hhost : ∀ f : Machine → Machine, (∀ y, (f y).netDead = y.netDead) →
      (m.updHost host f).netDead h tid = m.netDead h tid := by
    intro f hf
    by_cases e : h = host
    · subst e
      simp [Machines.netDead, Machines.updHost, hf]
    · simp [Machines.netDead, Machines.updHost, Function.update_of_ne e]
  by_cases hw : op.writesAgent = false
  · obtain ⟨dirs, hd⟩ := (opStep_sameBut hw hs).agent h
    simp [Machines.netDead, hd]
  · cases op
    case setNetDead => cases ho
    case setRecovering | endPoll =>
      obtain rfl := hs
      exact hhost _ fun _ => rfl
    case popen =>
      rcases did.eq_or hs with rfl | rfl
      · exact hhost _ fun _ => rfl
      · rfl
    all_goals exact absurd rfl hw

theorem counts_neutral {op : ShellOp} (ho : op.neutral = true) : op.counts = false := by
  cases op
  case setNetDead => cases ho
  all_goals rfl

/-- A statement that does not write the counter. -/
theorem netDead_beside {c : ShellCall} {r : c.op.Ans} {m m' : Machines} (ho : c.op.counts = false)
    (hs : (besideOthers h tid).step c r m m') : m'.netDead h tid = m.netDead h tid := by
  obtain ⟨m₁, hk, hs⟩ := hs
  exact (netDead_step ho hs).trans hk

/-- A statement about another VM. -/
theorem netDead_elsewhere {c : ShellCall} {r : c.op.Ans} {m m' : Machines} (hne : c.tenant ≠ tid)
    (hs : opStep c.host c.tenant c.op r m m') : m'.netDead h tid = m.netDead h tid := by
  by_cases ho : c.op.counts = false
  · exact netDead_step ho hs
  · obtain ⟨host, other, op⟩ := c
    cases op
    case setNetDead n =>
      obtain rfl := hs
      by_cases e : h = host
      · subst e
        simp [Machines.netDead, Machines.updHost, Function.update_of_ne (Ne.symm hne)]
      · simp [Machines.netDead, Machines.updHost, Function.update_of_ne e]
    all_goals exact absurd rfl ho

theorem netDead_set {n : Nat} {r : Unit} {m m' : Machines}
    (hs : (besideOthers h tid).step ⟨h, tid, .setNetDead n⟩ r m m') : m'.netDead h tid = n := by
  obtain ⟨m₁, -, rfl⟩ := hs
  simp [Machines.netDead, Machines.updHost]

theorem netDead_read {r : Nat} {m m' : Machines} (hs : (besideOthers h tid).step ⟨h, tid, .netDead⟩ r m m') :
    r = m.netDead h tid ∧ m'.netDead h tid = m.netDead h tid := by
  obtain ⟨m₁, hk, rfl, rfl⟩ := hs
  exact ⟨hk, hk⟩

/-- The rest of a poll that has found what it finds. -/
def Blind {α : Type} (tid : TenantId) (p : ShProg α) : Prop :=
  p.All fun c : ShellCall => c.op.neutral = true ∧ c.tenant = tid

theorem blind_wpt {α : Type} {p : ShProg α} (hp : Blind tid p) (m : Machines) :
    p.wpt (besideOthers h tid)
      (fun l _ m' => (∀ x ∈ l, x.1.op.neutral = true) ∧ m'.netDead h tid = m.netDead h tid) m := by
  have hneutral := hp.mono fun c hc => hc.1
  refine Prog.wpt_and (Prog.wpt_all hneutral m) (Prog.wpt_of_wp (Prog.All.wp_frame ?_ hneutral rfl))
  intro c r w w' hc hw hs
  exact (netDead_beside (counts_neutral hc) hs).trans hw

theorem forkLaunch_blind (cfg : VmConfig) : Blind tid (forkLaunch h tid cfg) := by
  simp only [forkLaunch, sh_bind]
  refine ⟨⟨rfl, rfl⟩, fun ok => ?_⟩
  cases ok with
  | true => trivial
  | false => exact ⟨⟨rfl, rfl⟩, fun _ => trivial⟩

theorem recoverVm_blind (cfg : VmConfig) : Blind tid (recoverVm h tid cfg) := by
  simp only [recoverVm, sh_bind]
  refine ⟨⟨rfl, rfl⟩, fun known => ?_⟩
  cases known with
  | true => trivial
  | false => exact ⟨⟨rfl, rfl⟩, fun _ => forkLaunch_blind cfg⟩

theorem stopVmSh_blind : Blind tid (stopVmSh h tid) := by
  simp only [stopVmSh, sh_bind, Prog.pure_eq]
  iterate 7 refine ⟨⟨rfl, rfl⟩, fun _ => ?_⟩
  trivial

theorem forceRelaunchVm_blind (cfg : VmConfig) : Blind tid (forceRelaunchVm h tid cfg) := by
  simp only [forceRelaunchVm, sh_bind]
  refine ⟨⟨rfl, rfl⟩, fun known => ?_⟩
  cases known with
  | true => trivial
  | false =>
    refine ⟨⟨rfl, rfl⟩, fun _ => Prog.All.bind (Prog.All.within ⟨rfl, rfl⟩ stopVmSh_blind) fun ended => ?_⟩
    cases ended with
    | some _ => exact forkLaunch_blind cfg
    | none => exact ⟨⟨rfl, rfl⟩, fun _ => trivial⟩

/-- What a poll that found `f` leaves of a counter at `n`, and whether it relaunches the VM. -/
def Polled (h : HostId) (tid : TenantId) (n : Nat) (l : List (Answered Sh)) (m' : Machines) : Prop :=
  m'.netDead h tid = (found l).count n ∧
    startsRelaunch l = decide (found l = .unreachable ∧ netDeadThreshold ≤ n + 1)

/-- A poll that has found something other than an unreachable guest. -/
theorem polled_blind {α : Type} {p : ShProg α} (hp : Blind tid p) {f : Finding} (hf : f ≠ .unreachable) {n : Nat}
    (l₀ : List (Answered Sh)) {m : Machines} (hl : found l₀ = f) (hm : m.netDead h tid = f.count n) :
    p.wpt (besideOthers h tid) (fun l _ m' => Polled h tid n (l₀ ++ l) m') m := by
  refine Prog.wpt_mono ?_ (blind_wpt hp m)
  rintro l _ m' ⟨hneutral, hkeep⟩
  have hfound : found (l₀ ++ l) = f := by
    rw [found, List.foldl_append, foldl_look_neutral hneutral]
    exact hl
  refine ⟨by rw [hfound, hkeep, hm], ?_⟩
  simp [startsRelaunch, hfound, hf]

/-- The poll relaunches the VM. -/
theorem polled_forced {n : Nat} (hn : netDeadThreshold ≤ n + 1) (cfg : VmConfig) (l₀ : List (Answered Sh))
    {m : Machines} (hl : found l₀ = .unreachable) (hm : m.netDead h tid = 0) :
    (forceRelaunchVm h tid cfg).wpt (besideOthers h tid) (fun l _ m' => Polled h tid n (l₀ ++ l) m') m := by
  intro known m₁ hs
  have hm₁ : m₁.netDead h tid = 0 := (netDead_beside rfl hs).trans hm
  refine Prog.wpt_mono ?_ (blind_wpt ((forceRelaunchVm_blind cfg).2 known) m₁)
  rintro l _ m' ⟨hneutral, hkeep⟩
  have hfound : found (l₀ ++ ⟨⟨h, tid, .isRecovering⟩, known⟩ :: l) = .unreachable := by
    rw [found, List.foldl_append, List.foldl_cons, look_neutral rfl, foldl_look_neutral hneutral]
    exact hl
  have hcount : Finding.unreachable.count n = 0 := if_pos hn
  refine ⟨by rw [hfound, hkeep, hm₁, hcount], ?_⟩
  simp [startsRelaunch, hfound, hn]

/-- The poll of a VM whose Firecracker process is there. -/
theorem probeGuest_found (cfg : VmConfig) {n : Nat} (l₀ : List (Answered Sh))
    (hl : ∀ x ∈ l₀, x.1.op ≠ .isRecovering) {m : Machines} (hm : m.netDead h tid = n) :
    (probeGuest h tid cfg).wpt (besideOthers h tid) (fun l _ m' => Polled h tid n (l₀ ++ l) m') m := by
  simp only [probeGuest, registerNetPoll, sh_bind]
  intro _ m₁ hs₁ up m₂ hs₂
  have h₁ := (netDead_beside rfl hs₂).trans ((netDead_beside rfl hs₁).trans hm)
  cases up with
  | true =>
    intro _ m₃ hs₃
    have hfound : found (l₀ ++ [⟨⟨h, tid, .setRecovering false⟩, ()⟩, ⟨⟨h, tid, .ping⟩, true⟩,
        ⟨⟨h, tid, .setNetDead 0⟩, ()⟩]) = .reachable := by
      simp [found, Finding.look]
    refine ⟨by rw [hfound]; exact netDead_set hs₃, ?_⟩
    simp [startsRelaunch, hfound]
  | false =>
    intro k m₃ hs₃ _ m₄ hs₄
    obtain ⟨rfl, -⟩ := netDead_read hs₃
    rw [h₁] at hs₄ ⊢
    by_cases hn : netDeadThreshold ≤ n + 1
    · rw [if_pos hn]
      intro _ m₅ hs₅
      have hforced := polled_forced hn cfg (l₀ ++ [⟨⟨h, tid, .setRecovering false⟩, ()⟩, ⟨⟨h, tid, .ping⟩, false⟩,
        ⟨⟨h, tid, .netDead⟩, n⟩, ⟨⟨h, tid, .setNetDead (n + 1)⟩, ()⟩, ⟨⟨h, tid, .setNetDead 0⟩, ()⟩])
        (by simp [found, Finding.look]) (netDead_set hs₅)
      exact Prog.wpt_mono (fun l _ m' hp => by simpa using hp) hforced
    · rw [if_neg hn]
      have hfound : found (l₀ ++ [⟨⟨h, tid, .setRecovering false⟩, ()⟩, ⟨⟨h, tid, .ping⟩, false⟩,
          ⟨⟨h, tid, .netDead⟩, n⟩, ⟨⟨h, tid, .setNetDead (n + 1)⟩, ()⟩]) = .unreachable := by
        simp [found, Finding.look]
      have hcount : Finding.unreachable.count n = n + 1 := if_neg hn
      refine ⟨by rw [hfound, hcount]; exact netDead_set hs₄, ?_⟩
      have hquiet : (l₀.any fun x => x.1.op = .isRecovering) = false := by
        simpa using hl
      simp [startsRelaunch, hn, hquiet]

/-- **One poll** of the VM. -/
theorem probe_found (m : Machines) :
    (probe env h tid).wpt (besideOthers h tid) (fun l _ m' => Polled h tid (m.netDead h tid) l m') m := by
  simp only [probe, sh_bind, Prog.pure_eq]
  intro cfg m₁ hs₁
  have h₁ := netDead_beside rfl hs₁
  cases cfg with
  | none => exact ⟨h₁, rfl⟩
  | some cfg =>
    intro stopped m₂ hs₂
    have h₂ := (netDead_beside rfl hs₂).trans h₁
    cases stopped with
    | true => exact ⟨h₂, rfl⟩
    | false =>
      intro migrating m₃ hs₃
      have h₃ := (netDead_beside rfl hs₃).trans h₂
      cases migrating with
      | true => exact ⟨h₃, rfl⟩
      | false =>
        intro alive m₄ hs₄
        have h₄ := (netDead_beside rfl hs₄).trans h₃
        cases alive with
        | false => exact polled_blind (recoverVm_blind cfg) (f := .absent) (by decide) [_, _, _, _] rfl h₄
        | true => exact probeGuest_found cfg [_, _, _, _] (by simp) h₄

/-! ## All VMs of the host -/

/-- The answers about one VM. -/
def ofVm (tid : TenantId) (l : List (Answered Sh)) : List (Answered Sh) := l.filter fun x => x.1.tenant = tid

theorem ofVm_append (l l' : List (Answered Sh)) : ofVm tid (l ++ l') = ofVm tid l ++ ofVm tid l' :=
  List.filter_append ..

/-- The program looks at one VM only. -/
def About {α : Type} (tid : TenantId) (p : ShProg α) : Prop := p.All fun c : ShellCall => c.tenant = tid

theorem registerNetPoll_about (up : Bool) : About tid (registerNetPoll h tid up) := by
  cases up with
  | true => exact ⟨rfl, fun _ => trivial⟩
  | false =>
    simp only [registerNetPoll, sh_bind]
    refine ⟨rfl, fun n => ⟨rfl, fun _ => ?_⟩⟩
    split
    · exact ⟨rfl, fun _ => trivial⟩
    · trivial

theorem Blind.about {α : Type} {p : ShProg α} (hp : Blind tid p) : About tid p := hp.mono fun _ hc => hc.2

theorem probe_about : About tid (probe env h tid) := by
  simp only [probe, sh_bind]
  refine ⟨rfl, fun cfg => ?_⟩
  cases cfg with
  | none => trivial
  | some cfg =>
    refine ⟨rfl, fun stopped => ?_⟩
    cases stopped with
    | true => trivial
    | false =>
      refine ⟨rfl, fun migrating => ?_⟩
      cases migrating with
      | true => trivial
      | false =>
        refine ⟨rfl, fun alive => ?_⟩
        cases alive with
        | false => exact (recoverVm_blind cfg).about
        | true =>
          simp only [probeGuest, sh_bind]
          refine ⟨rfl, fun _ => ⟨rfl, fun up => Prog.All.bind (registerNetPoll_about up) fun dead => ?_⟩⟩
          cases dead with
          | true => exact (forceRelaunchVm_blind cfg).about
          | false => trivial

/-- Polls of other VMs. -/
theorem about_other {α : Type} {p : ShProg α} {other : TenantId} (hne : other ≠ tid) (hp : About other p)
    (m : Machines) :
    p.wpt (besideOthers h tid) (fun l _ m' => ofVm tid l = [] ∧ m'.netDead h tid = m.netDead h tid) m := by
  have hkeep : p.wp (besideOthers h tid) (fun _ m' => m'.netDead h tid = m.netDead h tid) m := by
    refine Prog.All.wp_frame ?_ hp rfl
    intro c r w w' hc hw hs
    subst hc
    obtain ⟨w₁, hk, hs⟩ := hs
    exact ((netDead_elsewhere hne hs).trans hk).trans hw
  refine Prog.wpt_mono ?_ (Prog.wpt_and (Prog.wpt_all hp m) (Prog.wpt_of_wp hkeep))
  intro l _ m' ⟨hl, hk⟩
  refine ⟨List.filter_eq_nil_iff.2 fun x hx => ?_, hk⟩
  simp [hl x hx, hne]

theorem probeEach_other {tids : List TenantId} (ht : tid ∉ tids) (m : Machines) :
    (probeEach env h tids).wpt (besideOthers h tid)
      (fun l _ m' => ofVm tid l = [] ∧ m'.netDead h tid = m.netDead h tid) m := by
  induction tids generalizing m with
  | nil => exact ⟨rfl, rfl⟩
  | cons other tids ih =>
    have hne : other ≠ tid := fun e => ht (e ▸ List.mem_cons_self)
    have ht : tid ∉ tids := fun e => ht (List.mem_cons_of_mem _ e)
    rw [probeEach, Prog.wpt_bind]
    refine Prog.wpt_mono ?_ (about_other hne probe_about m)
    intro l _ m₁ ⟨hl, hk⟩
    refine Prog.wpt_mono ?_ (ih ht m₁)
    intro l' _ m' ⟨hl', hk'⟩
    exact ⟨by rw [ofVm_append, hl, hl', List.append_nil], hk'.trans hk⟩

/-- One round over the VMs of the host. -/
theorem probeEach_found {tids : List TenantId} (hd : tids.Nodup) (m : Machines) :
    (probeEach env h tids).wpt (besideOthers h tid)
      (fun l _ m' => Polled h tid (m.netDead h tid) (ofVm tid l) m') m := by
  induction tids generalizing m with
  | nil => exact ⟨rfl, rfl⟩
  | cons other tids ih =>
    obtain ⟨ht, hd⟩ := List.nodup_cons.1 hd
    rw [probeEach, Prog.wpt_bind]
    by_cases he : other = tid
    · subst he
      refine Prog.wpt_mono ?_ (Prog.wpt_and (probe_found m) (Prog.wpt_all probe_about m))
      intro l _ m₁ ⟨⟨hcount, hforced⟩, hl⟩
      have hall : ofVm other l = l := List.filter_eq_self.2 fun x hx => by simp [hl x hx]
      refine Prog.wpt_mono ?_ (probeEach_other ht m₁)
      intro l' _ m' ⟨hl', hk⟩
      rw [ofVm_append, hl', List.append_nil, hall]
      exact ⟨hk.trans hcount, hforced⟩
    · refine Prog.wpt_mono ?_ (about_other he probe_about m)
      intro l _ m₁ ⟨hl, hk⟩
      rw [← hk]
      refine Prog.wpt_mono ?_ (ih hd m₁)
      intro l' _ m' hp
      rwa [ofVm_append, hl, List.nil_append]

/-- Statements beside the round. -/
theorem polled_beside {n : Nat} {l : List (Answered Sh)} {m' : Machines} (hp : Polled h tid n l m') {x : Answered Sh}
    (hx : x.1.op.neutral = true) (ho : x.1.op ≠ .isRecovering) :
    Polled h tid n (ofVm tid [x] ++ l) m' ∧ Polled h tid n (l ++ ofVm tid [x]) m' := by
  by_cases he : x.1.tenant = tid
  · have hof : ofVm tid [x] = [x] := by simp [ofVm, he]
    have hbefore : found (x :: l) = found l := by rw [found, List.foldl_cons, look_neutral hx, found]
    have hafter : found (l ++ [x]) = found l := by
      rw [found, List.foldl_append, List.foldl_cons, List.foldl_nil, look_neutral hx, found]
    rw [hof]
    refine ⟨⟨?_, ?_⟩, ⟨?_, ?_⟩⟩
    · rw [List.singleton_append, hbefore]
      exact hp.1
    · have := hp.2
      rw [List.singleton_append]
      simpa [startsRelaunch, hbefore, ho] using this
    · rw [hafter]
      exact hp.1
    · have := hp.2
      simpa [startsRelaunch, hafter, ho] using this
  · have hof : ofVm tid [x] = [] := by simp [ofVm, he]
    rw [hof, List.nil_append, List.append_nil]
    exact ⟨hp, hp⟩

/-- **One poll** of the host. -/
theorem probeAll_found (m : Machines) :
    (probeAll env h).wpt (besideOthers h tid)
      (fun l _ m' => Polled h tid (m.netDead h tid) (ofVm tid l) m') m := by
  simp only [probeAll, sh_bind]
  intro entries m₁ hs₁
  have hd : entries.Nodup := by
    obtain ⟨m₀, -, hd, -⟩ := hs₁
    exact hd
  rw [← netDead_beside rfl hs₁, Prog.wpt_bind]
  refine Prog.wpt_mono ?_ (probeEach_found hd m₁)
  intro l _ m₂ hp _ m₃ hs₃
  have hk : m₃.netDead h tid = m₂.netDead h tid := netDead_beside rfl hs₃
  have hlast : Polled h tid (m₁.netDead h tid) (ofVm tid l) m₃ := ⟨hk.trans hp.1, hp.2⟩
  have hend := (polled_beside hlast (x := ⟨⟨h, "", .endPoll⟩, ()⟩) rfl (fun e => by cases e)).2
  have hall := (polled_beside hend (x := ⟨⟨h, "", .listDir⟩, entries⟩) rfl (fun e => by cases e)).1
  rwa [← ofVm_append, ← ofVm_append] at hall

end Poll

/-! ## Polls one after the other -/

/-- `n` polls of the host with what they were answered. Before the first the agent has just started; between two polls,
and between the statements of a poll, anything may happen to the hosts except to the counter. -/
def PollRun (env : PlatformEnv) (h : HostId) (tid : TenantId) (log : Nat → List (Answered Sh)) (n : Nat) : Prop :=
  ∃ before after : Nat → Machines, (before 0).netDead h tid = 0 ∧
    ∀ i < n, (probeAll env h).Traces (besideOthers h tid) (before i) (log i) () (after i) ∧
      (before (i + 1)).netDead h tid = (after i).netDead h tid

/-- What the poll `i` finds of the VM. -/
def findingAt (tid : TenantId) (log : Nat → List (Answered Sh)) (i : Nat) : Finding := found (ofVm tid (log i))

/-- The poll `i` starts `_force_relaunch_vm` for the VM. -/
def relaunchAt (tid : TenantId) (log : Nat → List (Answered Sh)) (i : Nat) : Prop :=
  startsRelaunch (ofVm tid (log i)) = true

/-- One more poll, for a count that is reset by an answer only. -/
def Finding.since (f : Finding) (k : Nat) : Nat :=
  match f with
  | .reachable => 0
  | .unreachable => k + 1
  | _ => k

/-- The unreachable polls among the first ones, counted from the last reachable one. -/
def unreachableSince (find : Nat → Finding) : Nat → Nat
  | 0 => 0
  | i + 1 => (find i).since (unreachableSince find i)

theorem unreachableSince_unreachable {find : Nat → Finding} {i : Nat} (hi : find i = .unreachable) :
    unreachableSince find (i + 1) = unreachableSince find i + 1 := by
  simp [unreachableSince, hi, Finding.since]

theorem unreachableSince_of_forall {find : Nat → Finding} {i : Nat} (hf : ∀ k < i, find k = .unreachable) :
    unreachableSince find i = i := by
  induction i with
  | zero => rfl
  | succ i ih => rw [unreachableSince_unreachable (hf i (by omega)), ih fun k hk => hf k (by omega)]

theorem count_mod (f : Finding) (k : Nat) : f.count (k % 3) = f.since k % 3 := by
  cases f
  case unreachable =>
    by_cases hk : 3 ≤ k % 3 + 1
    · have hcount : Finding.unreachable.count (k % 3) = 0 := if_pos hk
      rw [hcount, Finding.since]
      omega
    · have hcount : Finding.unreachable.count (k % 3) = k % 3 + 1 := if_neg hk
      rw [hcount, Finding.since]
      omega
  all_goals rfl

section Runs

variable {env : PlatformEnv} {h : HostId} {tid : TenantId} {log : Nat → List (Answered Sh)} {n : Nat}

/-- **The guard counts modulo three.** -/
theorem PollRun.relaunchAt_iff (hr : PollRun env h tid log n) {i : Nat} (hi : i < n) :
    relaunchAt tid log i ↔
      findingAt tid log i = .unreachable ∧ 3 ∣ unreachableSince (findingAt tid log) (i + 1) := by
  obtain ⟨before, after, hstart, hpoll⟩ := hr
  have hstep : ∀ k < n, Polled h tid ((before k).netDead h tid) (ofVm tid (log k)) (after k) := fun k hk =>
    Prog.wpt_iff_traces.1 (probeAll_found (before k)) _ _ _ (hpoll k hk).1
  have hcount : ∀ k ≤ n, (before k).netDead h tid = unreachableSince (findingAt tid log) k % 3 := by
    intro k
    induction k with
    | zero => exact fun _ => hstart
    | succ k ih =>
      intro hk
      rw [(hpoll k hk).2, (hstep k hk).1, ih (by omega)]
      exact count_mod ..
  have hforced := (hstep i hi).2
  rw [hcount i (by omega)] at hforced
  rw [relaunchAt, hforced, decide_eq_true_iff]
  constructor
  · intro ⟨hu, hn⟩
    refine ⟨hu, ?_⟩
    rw [unreachableSince_unreachable hu]
    simp only [netDeadThreshold] at hn
    omega
  · intro ⟨hu, hn⟩
    refine ⟨hu, ?_⟩
    rw [unreachableSince_unreachable hu] at hn
    simp only [netDeadThreshold]
    omega

/-- **The guard counts consecutive polls** exactly when every third unreachable poll since the guest last answered comes
right after the two before it. -/
theorem dead_zone_consecutive (hr : PollRun env h tid log n) :
    (∀ i < n, relaunchAt tid log i ↔ findingAt tid log i = .unreachable ∧ ∃ j, i = j + 2 ∧
      (findingAt tid log (j + 1) = .unreachable ∧ ¬ relaunchAt tid log (j + 1)) ∧
        findingAt tid log j = .unreachable ∧ ¬ relaunchAt tid log j) ↔
      ∀ i < n, findingAt tid log i = .unreachable → 3 ∣ unreachableSince (findingAt tid log) (i + 1) →
        ∃ j, i = j + 2 ∧ findingAt tid log (j + 1) = .unreachable ∧ findingAt tid log j = .unreachable := by
  constructor
  · intro hclaim i hi hu hthird
    obtain ⟨-, j, hij, ⟨h₁, -⟩, h₂, -⟩ := (hclaim i hi).1 ((hr.relaunchAt_iff hi).2 ⟨hu, hthird⟩)
    exact ⟨j, hij, h₁, h₂⟩
  · intro hcond i hi
    constructor
    · intro hforced
      obtain ⟨hu, hthird⟩ := (hr.relaunchAt_iff hi).1 hforced
      obtain ⟨j, rfl, h₁, h₂⟩ := hcond i hi hu hthird
      have hs₁ : unreachableSince (findingAt tid log) (j + 2) = _ := unreachableSince_unreachable h₁
      have hs₂ := unreachableSince_unreachable hu
      refine ⟨hu, j, rfl, ⟨h₁, fun hf => ?_⟩, h₂, fun hf => ?_⟩
      · have hd : 3 ∣ unreachableSince (findingAt tid log) (j + 2) := ((hr.relaunchAt_iff (by omega)).1 hf).2
        omega
      · have hd := ((hr.relaunchAt_iff (by omega)).1 hf).2
        omega
    · intro ⟨hu, j, hij, ⟨h₁, hnot₁⟩, h₂, hnot₂⟩
      subst hij
      have hs₀ := unreachableSince_unreachable h₂
      have hs₁ : unreachableSince (findingAt tid log) (j + 2) = _ := unreachableSince_unreachable h₁
      have hs₂ := unreachableSince_unreachable hu
      have hmod₁ : ¬ 3 ∣ unreachableSince (findingAt tid log) (j + 1) := fun hd =>
        hnot₂ ((hr.relaunchAt_iff (by omega)).2 ⟨h₂, hd⟩)
      have hmod₂ : ¬ 3 ∣ unreachableSince (findingAt tid log) (j + 2) := fun hd =>
        hnot₁ ((hr.relaunchAt_iff (by omega)).2 ⟨h₁, hd⟩)
      refine (hr.relaunchAt_iff hi).2 ⟨hu, ?_⟩
      omega

end Runs

/-! ## Polls by evaluation -/

/-- The calls of a poll, and the hosts after it. -/
def playPoll (env : PlatformEnv) (h : HostId) (hints : List ShellHint) (m : Machines) :
    Option (List (Answered Sh) × Unit × Machines) :=
  shellOracle.alone (fun _ _ _ => true) (probeAll env h) hints m

def pollLog (x : Option (List (Answered Sh) × Unit × Machines)) : List (Answered Sh) := x.elim [] Prod.fst

theorem playPoll_traces {env : PlatformEnv} {h : HostId} {tid : TenantId} {hints : List ShellHint} {m : Machines}
    {x : List (Answered Sh) × Unit × Machines} (hx : playPoll env h hints m = some x) :
    (probeAll env h).Traces (besideOthers h tid) m x.1 () x.2.2 := by
  have halone : (probeAll env h).Traces (shell.restrict fun _ _ _ => True) m x.1 () x.2.2 :=
    Oracle.alone_sound (fun _ _ _ _ => trivial) hx
  refine Prog.Traces.mono (fun c r w w' hs => ?_) halone
  exact ⟨w, rfl, hs.2⟩

/-- Each poll played on hosts of its own, with the counter that the poll before it left. -/
theorem pollRun_of_play {env : PlatformEnv} {h : HostId} {tid : TenantId} {hints : Nat → List ShellHint}
    {before : Nat → Machines} {n : Nat} (h₀ : (before 0).netDead h tid = 0)
    (hplay : ∀ i < n, (playPoll env h (hints i) (before i)).any
      (fun x => (before (i + 1)).netDead h tid = x.2.2.netDead h tid) = true) :
    PollRun env h tid (fun i => pollLog (playPoll env h (hints i) (before i))) n := by
  refine ⟨before, fun i => (playPoll env h (hints i) (before i)).elim (before i) fun x => x.2.2, h₀, fun i hi => ?_⟩
  obtain ⟨x, hx, hk⟩ := (Option.any_eq_true _ _).1 (hplay i hi)
  simp only [hx, pollLog, Option.elim]
  exact ⟨playPoll_traces hx, of_decide_eq_true hk⟩

/-- A host with one VM, whose counter is at `n`. -/
def countedHost (n : Nat) (stopped : Bool) : Machines where
  machine _ :=
    { template := { image := 0, size := bytes 4096 }
      netDead := fun _ => n
      dirs := fun _ => { vmJson := some { vmNum := 1, vcpu := 2, memMb := 4096 }, stopped := stopped, fc := .running } }

/-- A poll that the guest does not answer, with the number of calls after `ping`. -/
def silentPoll (calls : Nat) : List ShellHint :=
  { entries := ["a-0000"] } :: (List.replicate 5 { ok := true } ++ { ok := false } ::
    List.replicate calls { ok := true })

/-- A poll of a stopped VM. -/
def stoppedPoll : List ShellHint := { entries := ["a-0000"] } :: List.replicate 3 {}

/-- Three polls in a row that the guest does not answer. -/
def silentLog (i : Nat) : List (Answered Sh) :=
  pollLog (playPoll {} "i-1" (silentPoll (if i = 2 then 21 else 3)) (countedHost (i % 3) false))

theorem dead_zone_consecutive_silent :
    PollRun {} "i-1" "a-0000" silentLog 3 ∧ relaunchAt "a-0000" silentLog 2 ∧
      ∀ i < 3, relaunchAt "a-0000" silentLog i ↔ findingAt "a-0000" silentLog i = .unreachable ∧ ∃ j, i = j + 2 ∧
        (findingAt "a-0000" silentLog (j + 1) = .unreachable ∧ ¬ relaunchAt "a-0000" silentLog (j + 1)) ∧
          findingAt "a-0000" silentLog j = .unreachable ∧ ¬ relaunchAt "a-0000" silentLog j := by
  have hrun : PollRun {} "i-1" "a-0000" silentLog 3 := pollRun_of_play rfl (by decide +kernel)
  have hfind : ∀ i < 3, findingAt "a-0000" silentLog i = .unreachable := by decide +kernel
  have hforced : relaunchAt "a-0000" silentLog 2 := by
    simp only [relaunchAt]
    decide +kernel
  refine ⟨hrun, hforced, (dead_zone_consecutive hrun).2 fun i hi hu hthird => ?_⟩
  rw [unreachableSince_of_forall fun k hk => hfind k (by omega)] at hthird
  obtain rfl : i = 2 := by omega
  exact ⟨0, rfl, hfind 1 (by omega), hfind 0 (by omega)⟩

/-- The VM is stopped and started again between its first and its second unanswered poll. -/
def stopBetweenLog (i : Nat) : List (Answered Sh) :=
  pollLog (playPoll {} "i-1" (if i = 1 then stoppedPoll else silentPoll (if i = 3 then 21 else 3))
    (countedHost ([0, 1, 1, 2, 0].getD i 0) (i = 1)))

/-- **A stop between the polls.** The counter goes on, and the fourth poll relaunches the VM. -/
theorem dead_zone_skips_stopped :
    PollRun {} "i-1" "a-0000" stopBetweenLog 4 ∧ findingAt "a-0000" stopBetweenLog 1 = .stopped ∧
      relaunchAt "a-0000" stopBetweenLog 3 ∧
        ¬ ∀ i < 4, relaunchAt "a-0000" stopBetweenLog i ↔
          findingAt "a-0000" stopBetweenLog i = .unreachable ∧ ∃ j, i = j + 2 ∧
            (findingAt "a-0000" stopBetweenLog (j + 1) = .unreachable ∧
              ¬ relaunchAt "a-0000" stopBetweenLog (j + 1)) ∧
            findingAt "a-0000" stopBetweenLog j = .unreachable ∧ ¬ relaunchAt "a-0000" stopBetweenLog j := by
  have hrun : PollRun {} "i-1" "a-0000" stopBetweenLog 4 := pollRun_of_play rfl (by decide +kernel)
  have hstop : findingAt "a-0000" stopBetweenLog 1 = .stopped := by decide +kernel
  have hforced : relaunchAt "a-0000" stopBetweenLog 3 := by
    simp only [relaunchAt]
    decide +kernel
  refine ⟨hrun, hstop, hforced, fun hclaim => ?_⟩
  obtain ⟨-, j, hj, ⟨hfirst, -⟩, hsecond, -⟩ := (hclaim 3 (by omega)).1 hforced
  obtain rfl : j = 1 := by omega
  rw [hstop] at hsecond
  cases hsecond

end OpenClaw
