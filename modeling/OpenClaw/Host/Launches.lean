import OpenClaw.Host.Play
import OpenClaw.Host.Processes

/-!
# Launches of one tenant

Launches come from SSM and from the agent, which forks `launch-vm.sh` when it finds a VM without a Firecracker process
or a guest that does not answer. A launch is under way from the moment it is forked or begins.

- `launches_exclusive`: two launches of a tenant never overlap in a run that meets `oneLaunch`.
- `poll_overlaps_launch`: a poll in the middle of a launch sent through SSM starts a second one.
-/

namespace OpenClaw

open Atomic

variable {ι : Type}

/-- The process executes `launch-vm.sh` for the tenant, or was forked to do so. -/
def HostMemory.launches (g : HostMemory) (tid : TenantId) : Prop :=
  g.launching = some tid ∨ g.begun = false ∧ ∃ cfg, g.job = .forked tid cfg

/-- No launch of the tenant is under way. -/
structure Quiet (l : ι → Option HostMemory) (x : Machine) (tid : TenantId) : Prop where
  process : ∀ i g, l i = some g → ¬ g.launches tid
  forked : ∀ e ∈ x.forked, e.1 ≠ tid

/-- The poll will go on to launch the tenant. -/
def Machine.wants (x : Machine) (tid : TenantId) : Stage → Prop
  | .idle => False
  | .missing t => t = tid ∧ x.recovering tid = false
  | .unanswered t => t = tid ∧ netDeadThreshold ≤ x.netDead tid + 1
  | .dead t | .free t => t = tid

/-- The condition on one statement of the process `g`. -/
def launchOk (l : ι → Option HostMemory) (x : Machine) (g : HostMemory) (tid : TenantId) (op : ShellOp) (r : op.Ans) :
    Prop :=
  match g.job, op, r with
  -- SSM starts a launch while none is under way and the agent is not about to start one.
  | .ssm _, .begin .launch, _ => Quiet l x tid ∧ ∀ i g', l i = some g' → ¬ x.wants tid g'.stage
  -- A poll misses a Firecracker process only when no launch is under way, except one it started itself.
  | .poll, .pgrep, false => x.recovering tid = true ∨ Quiet l x tid
  -- The same when one more unanswered poll is too many.
  | .poll, .ping, false => netDeadThreshold ≤ x.netDead tid + 1 → Quiet l x tid
  | _, _, _ => True

def oneLaunch [DecidableEq ι] (h : HostId) (tr : List (Ev Sh HostJob ι)) (m : Machines) : Ev Sh HostJob ι → Prop
  | .start _ _ => True
  | .call i c r => ∀ g, (hostProtocol h).locs tr i = some g →
    launchOk ((hostProtocol h).locs tr) (m.machine h) g c.tenant c.op r

/-- Two executions of `launch-vm.sh` for one tenant are the same. -/
def NoOverlap (l : ι → Option HostMemory) : Prop :=
  ∀ i j g g' tid, l i = some g → l j = some g' → g.launching = some tid → g'.launching = some tid → i = j

/-! ## The invariant -/

structure LaunchInv (l : ι → Option HostMemory) (x : Machine) : Prop where
  single : ∀ i j g g' tid, l i = some g → l j = some g' → g.launches tid → g'.launches tid → i = j
  forked : (x.forked.map Prod.fst).Nodup
  /-- A forked launch is the only one. -/
  alone : ∀ e ∈ x.forked, ∀ i g, l i = some g → ¬ g.launches e.1
  wants : ∀ i g tid, l i = some g → x.wants tid g.stage → Quiet l x tid
  /-- Polls run one after the other. -/
  poll : ∀ i j g g', l i = some g → l j = some g' → g.polling = true → g'.polling = true → i = j
  polling : ∀ i g, l i = some g → g.polling = true → x.polling = true
  rest : ∀ i g, l i = some g → g.polling = false → g.stage = .idle

section Steps

variable [DecidableEq ι] {l : ι → Option HostMemory} {x x' : Machine} {i : ι} {g g' : HostMemory} {tid : TenantId}

/-- The memories after one process changed its own. -/
theorem update_cases {j : ι} {m : HostMemory} (h : Function.update l i (some g') j = some m) :
    j = i ∧ m = g' ∨ j ≠ i ∧ l j = some m := by
  by_cases e : j = i
  · subst e
    rw [Function.update_self, Option.some.injEq] at h
    exact .inl ⟨rfl, h.symm⟩
  · rw [Function.update_of_ne e] at h
    exact .inr ⟨e, h⟩

theorem Quiet.update (hq : Quiet l x tid) (hg : ¬ g'.launches tid) (hf : ∀ e ∈ x'.forked, e.1 = tid → e ∈ x.forked) :
    Quiet (Function.update l i (some g')) x' tid := by
  refine ⟨fun j m hj => ?_, fun e he ht => hq.forked e (hf e he ht) ht⟩
  rcases update_cases hj with ⟨rfl, rfl⟩ | ⟨-, hj⟩
  · exact hg
  · exact hq.process j m hj

/-- One process starts or goes on; it has no launch and no poll that it did not have before. -/
theorem LaunchInv.step (hI : LaunchInv l x) (hlaunch : ∀ tid, g'.launches tid → ∃ g, l i = some g ∧ g.launches tid)
    (hpoll : g'.polling = true → ∃ g, l i = some g ∧ g.polling = true) (hforked : x'.forked = x.forked)
    (hflag : x'.polling = x.polling) (hother : ∀ j m tid, j ≠ i → l j = some m → x'.wants tid m.stage → Quiet l x tid)
    (hstage : ∀ tid, x'.wants tid g'.stage → Quiet l x tid) (hrest : g'.polling = false → g'.stage = .idle) :
    LaunchInv (Function.update l i (some g')) x' := by
  have hlold : ∀ {j m tid}, Function.update l i (some g') j = some m → m.launches tid →
      ∃ m₀, l j = some m₀ ∧ m₀.launches tid := by
    intro j m tid hj hm
    rcases update_cases hj with ⟨rfl, rfl⟩ | ⟨-, hj⟩
    · exact hlaunch tid hm
    · exact ⟨m, hj, hm⟩
  have hpold : ∀ {j m}, Function.update l i (some g') j = some m → m.polling = true →
      ∃ m₀, l j = some m₀ ∧ m₀.polling = true := by
    intro j m hj hm
    rcases update_cases hj with ⟨rfl, rfl⟩ | ⟨-, hj⟩
    · exact hpoll hm
    · exact ⟨m, hj, hm⟩
  have hquiet : ∀ tid, Quiet l x tid → Quiet (Function.update l i (some g')) x' tid := fun tid hq => by
    refine hq.update (fun h => ?_) fun e he _ => hforked ▸ he
    obtain ⟨g, hg, h⟩ := hlaunch tid h
    exact hq.process i g hg h
  refine ⟨fun j k m m' tid hj hk hm hm' => ?_, hforked ▸ hI.forked, fun e he j m hj hm => ?_, fun j m tid hj hw => ?_,
    fun j k m m' hj hk hm hm' => ?_, fun j m hj hm => ?_, fun j m hj hm => ?_⟩
  · obtain ⟨m₀, hj, h₀⟩ := hlold hj hm
    obtain ⟨m₁, hk, h₁⟩ := hlold hk hm'
    exact hI.single j k m₀ m₁ tid hj hk h₀ h₁
  · obtain ⟨m₀, hj, h₀⟩ := hlold hj hm
    exact hI.alone e (hforked ▸ he) j m₀ hj h₀
  · rcases update_cases hj with ⟨rfl, rfl⟩ | ⟨hne, hj⟩
    · exact hquiet tid (hstage tid hw)
    · exact hquiet tid (hother j m tid hne hj hw)
  · obtain ⟨m₀, hj, h₀⟩ := hpold hj hm
    obtain ⟨m₁, hk, h₁⟩ := hpold hk hm'
    exact hI.poll j k m₀ m₁ hj hk h₀ h₁
  · obtain ⟨m₀, hj, h₀⟩ := hpold hj hm
    exact hflag ▸ hI.polling j m₀ hj h₀
  · rcases update_cases hj with ⟨rfl, rfl⟩ | ⟨-, hj⟩
    · exact hrest hm
    · exact hI.rest j m hj hm

/-- A launch of a tenant that had none begins in the process, or is forked to begin there. -/
theorem LaunchInv.launch (hI : LaunchInv l x) (hlaunch : ∀ t, g'.launches t → t = tid) (hpoll : g'.polling = false)
    (hrest : g'.stage = .idle) (hfree : ∀ j g, l j = some g → ¬ g.launches tid)
    (hwants : ∀ j g, l j = some g → ¬ x'.wants tid g.stage)
    (hforked : x'.forked.Sublist x.forked) (hnone : ∀ e ∈ x'.forked, e.1 ≠ tid) (hflag : x'.polling = x.polling)
    (hsame : ∀ t s, x'.wants t s ↔ x.wants t s) : LaunchInv (Function.update l i (some g')) x' := by
  refine ⟨fun j k m m' t hj hk hm hm' => ?_, hI.forked.sublist (hforked.map _), fun e he j m hj hm => ?_,
    fun j m t hj hw => ?_, fun j k m m' hj hk hm hm' => ?_, fun j m hj hm => ?_, fun j m hj hm => ?_⟩
  · rcases update_cases hj with ⟨rfl, rfl⟩ | ⟨-, hj'⟩ <;> rcases update_cases hk with ⟨rfl, rfl⟩ | ⟨-, hk'⟩
    · rfl
    · exact absurd (hlaunch t hm ▸ hm') (hfree k m' hk')
    · exact absurd (hlaunch t hm' ▸ hm) (hfree j m hj')
    · exact hI.single j k m m' t hj' hk' hm hm'
  · rcases update_cases hj with ⟨rfl, rfl⟩ | ⟨-, hj⟩
    · exact hnone e he (hlaunch _ hm)
    · exact hI.alone e (hforked.subset he) j m hj hm
  · rcases update_cases hj with ⟨rfl, rfl⟩ | ⟨-, hj⟩
    · rw [hrest] at hw
      exact hw.elim
    · have ht : t ≠ tid := by
        rintro rfl
        exact hwants j m hj hw
      refine (hI.wants j m t hj ((hsame t _).1 hw)).update (fun h => ht (hlaunch t h)) fun e he _ => hforked.subset he
  · rcases update_cases hj with ⟨rfl, rfl⟩ | ⟨-, hj⟩
    · rw [hpoll] at hm
      cases hm
    · rcases update_cases hk with ⟨rfl, rfl⟩ | ⟨-, hk⟩
      · rw [hpoll] at hm'
        cases hm'
      · exact hI.poll j k m m' hj hk hm hm'
  · rcases update_cases hj with ⟨rfl, rfl⟩ | ⟨-, hj⟩
    · rw [hpoll] at hm
      cases hm
    · exact hflag ▸ hI.polling j m hj hm
  · rcases update_cases hj with ⟨rfl, rfl⟩ | ⟨-, hj⟩
    · exact hrest
    · exact hI.rest j m hj hm

omit [DecidableEq ι] in
/-- The other polls are over. -/
theorem LaunchInv.others (hI : LaunchInv l x) (hl : l i = some g) (hp : g.polling = true) {j : ι} {m : HostMemory}
    (hne : j ≠ i) (hj : l j = some m) : m.stage = .idle ∧ m.polling = false := by
  have hm : m.polling = false := by
    cases hm : m.polling with
    | true => exact absurd (hI.poll j i m g hj hl hm hp) hne
    | false => rfl
  exact ⟨hI.rest j m hj hm, hm⟩

/-- The agent forks a launch of a tenant that has none. -/
theorem LaunchInv.popen (hI : LaunchInv l x) (hl : l i = some g) (hp : g.polling = true) {cfg : VmConfig}
    (hs : g.stage = .free tid) : LaunchInv (Function.update l i (some { g with stage := .idle }))
      { x with forked := x.forked ++ [(tid, cfg)] } := by
  have hq : Quiet l x tid := hI.wants i g tid hl (by rw [hs]; rfl)
  have hmem : ∀ {j m t}, Function.update l i (some { g with stage := .idle }) j = some m → m.launches t →
      ∃ m₀, l j = some m₀ ∧ m₀.launches t := by
    intro j m t hj hm
    rcases update_cases hj with ⟨rfl, rfl⟩ | ⟨-, hj⟩
    · exact ⟨g, hl, hm⟩
    · exact ⟨m, hj, hm⟩
  have hpold : ∀ {j m}, Function.update l i (some { g with stage := .idle }) j = some m → m.polling = true →
      ∃ m₀, l j = some m₀ ∧ m₀.polling = true := by
    intro j m hj hm
    rcases update_cases hj with ⟨rfl, rfl⟩ | ⟨-, hj⟩
    · exact ⟨g, hl, hm⟩
    · exact ⟨m, hj, hm⟩
  have hidle : ∀ {j m}, Function.update l i (some { g with stage := .idle }) j = some m → m.stage = .idle := by
    intro j m hj
    rcases update_cases hj with ⟨rfl, rfl⟩ | ⟨hne, hj⟩
    · rfl
    · exact (hI.others hl hp hne hj).1
  refine ⟨fun j k m m' t hj hk hm hm' => ?_, ?_, fun e he j m hj hm => ?_, fun j m t hj hw => ?_,
    fun j k m m' hj hk hm hm' => ?_, fun j m hj hm => ?_, fun j m hj _ => hidle hj⟩
  · obtain ⟨m₀, hj, h₀⟩ := hmem hj hm
    obtain ⟨m₁, hk, h₁⟩ := hmem hk hm'
    exact hI.single j k m₀ m₁ t hj hk h₀ h₁
  · rw [List.map_append, List.nodup_append]
    refine ⟨hI.forked, by simp, fun a ha b hb => ?_⟩
    obtain ⟨e, he, rfl⟩ := List.mem_map.1 ha
    obtain rfl : b = tid := by simpa using hb
    exact hq.forked e he
  · obtain ⟨m₀, hj, h₀⟩ := hmem hj hm
    rcases List.mem_append.1 he with he | he
    · exact hI.alone e he j m₀ hj h₀
    · obtain rfl := List.mem_singleton.1 he
      exact hq.process j m₀ hj h₀
  · rw [hidle hj] at hw
    exact hw.elim
  · obtain ⟨m₀, hj, h₀⟩ := hpold hj hm
    obtain ⟨m₁, hk, h₁⟩ := hpold hk hm'
    exact hI.poll j k m₀ m₁ hj hk h₀ h₁
  · obtain ⟨m₀, hj, h₀⟩ := hpold hj hm
    exact hI.polling j m₀ hj h₀

/-- A poll starts. -/
theorem LaunchInv.startPoll (hI : LaunchInv l x) (hflag : x.polling = false) :
    LaunchInv (Function.update l i (some { job := .poll, polling := true })) { x with polling := true } := by
  have hnew : ∀ tid, ¬ HostMemory.launches { job := .poll, polling := true } tid := by
    rintro tid (h | ⟨-, cfg, h⟩) <;> cases h
  have hnone : ∀ j m, l j = some m → m.polling = false := fun j m hj => by
    cases hm : m.polling with
    | false => rfl
    | true => exact absurd (hI.polling j m hj hm) (by simp [hflag])
  refine ⟨fun j k m m' t hj hk hm hm' => ?_, hI.forked, fun e he j m hj hm => ?_, fun j m t hj hw => ?_,
    fun j k m m' hj hk hm hm' => ?_, fun _ _ _ _ => rfl, fun j m hj hm => ?_⟩
  · rcases update_cases hj with ⟨rfl, rfl⟩ | ⟨-, hj⟩
    · exact absurd hm (hnew t)
    · rcases update_cases hk with ⟨rfl, rfl⟩ | ⟨-, hk⟩
      · exact absurd hm' (hnew t)
      · exact hI.single j k m m' t hj hk hm hm'
  · rcases update_cases hj with ⟨rfl, rfl⟩ | ⟨-, hj⟩
    · exact hnew _ hm
    · exact hI.alone e he j m hj hm
  · rcases update_cases hj with ⟨rfl, rfl⟩ | ⟨-, hj⟩
    · exact hw.elim
    · have hs : m.stage = .idle := hI.rest j m hj (hnone j m hj)
      rw [hs] at hw
      exact hw.elim
  · rcases update_cases hj with ⟨rfl, rfl⟩ | ⟨-, hj⟩
    · rcases update_cases hk with ⟨rfl, rfl⟩ | ⟨-, hk⟩
      · rfl
      · rw [hnone k m' hk] at hm'
        cases hm'
    · rw [hnone j m hj] at hm
      cases hm
  · rcases update_cases hj with ⟨rfl, rfl⟩ | ⟨-, hj⟩
    · cases hm
    · exact hI.rest j m hj hm

/-- The poll ends. -/
theorem LaunchInv.endPoll (hI : LaunchInv l x) (hl : l i = some g) (hp : g.polling = true) (hs : g.stage = .idle) :
    LaunchInv (Function.update l i (some { g with polling := false })) { x with polling := false } := by
  have hmem : ∀ {j m t}, Function.update l i (some { g with polling := false }) j = some m → m.launches t →
      ∃ m₀, l j = some m₀ ∧ m₀.launches t := by
    intro j m t hj hm
    rcases update_cases hj with ⟨rfl, rfl⟩ | ⟨-, hj⟩
    · exact ⟨g, hl, hm⟩
    · exact ⟨m, hj, hm⟩
  have hidle : ∀ {j m}, Function.update l i (some { g with polling := false }) j = some m →
      m.stage = .idle ∧ m.polling = false := by
    intro j m hj
    rcases update_cases hj with ⟨rfl, rfl⟩ | ⟨hne, hj⟩
    · exact ⟨hs, rfl⟩
    · exact hI.others hl hp hne hj
  refine ⟨fun j k m m' t hj hk hm hm' => ?_, hI.forked, fun e he j m hj hm => ?_, fun j m t hj hw => ?_,
    fun j k m m' hj _ hm _ => ?_, fun j m hj hm => ?_, fun j m hj _ => (hidle hj).1⟩
  · obtain ⟨m₀, hj, h₀⟩ := hmem hj hm
    obtain ⟨m₁, hk, h₁⟩ := hmem hk hm'
    exact hI.single j k m₀ m₁ t hj hk h₀ h₁
  · obtain ⟨m₀, hj, h₀⟩ := hmem hj hm
    exact hI.alone e he j m₀ hj h₀
  · rw [(hidle hj).1] at hw
    exact hw.elim
  · rw [(hidle hj).2] at hm
    cases hm
  · rw [(hidle hj).2] at hm
    cases hm

/-! ## One statement -/

variable {h : HostId} {m m' : Machines} {op : ShellOp} {r : op.Ans}

/-- A process that stays idle and launches nothing new, next to an agent that remembers what it did. -/
theorem LaunchInv.script (hI : LaunchInv l x) (hl : l i = some g) (hlaunch : ∀ tid, g'.launches tid → g.launches tid)
    (hpoll : g'.polling = g.polling) (hstage : g'.stage = g.stage) (dirs : TenantId → VmDir) :
    LaunchInv (Function.update l i (some g')) { x with dirs := dirs } := by
  refine hI.step (fun tid ht => ⟨g, hl, hlaunch tid ht⟩) (fun hp => ⟨g, hl, hpoll ▸ hp⟩) rfl rfl
    (fun j m tid _ hj hw => hI.wants j m tid hj ?_) (fun tid hw => hI.wants i g tid hl ?_) fun hp => ?_
  · cases hs : m.stage <;> rw [hs] at hw <;> exact hw
  · rw [hstage] at hw
    cases hs : g.stage <;> rw [hs] at hw <;> exact hw
  · rw [hstage]
    exact hI.rest i g hl (hpoll ▸ hp)

theorem LaunchInv.callScript (hI : LaunchInv l (m.machine h)) (hl : l i = some g) (hj : g.script) (ha : g.allow tid op)
    (hok : launchOk l (m.machine h) g tid op r) (hs : opStep h tid op r m m') :
    LaunchInv (Function.update l i (some (g.next tid op r))) (m'.machine h) := by
  have hof : op.ofAgent = false := by
    unfold HostMemory.allow HostMemory.script at *
    cases hjob : g.job <;> simp only [hjob] at ha hj
    · exact ha.2
    · exact ha.2.1
    · exact ha.2.1
  have hw : op.writesAgent = false := by cases op <;> first | rfl | cases hof
  obtain ⟨dirs, hx⟩ := (opStep_sameBut hw hs).agent h
  rw [hx]
  by_cases h₁ : op = .begin .launch
  · subst h₁
    cases hjob : g.job with
    | ssm cmd =>
      -- SSM starts a launch.
      have hok : Quiet l (m.machine h) tid ∧ ∀ j g', l j = some g' → ¬ (m.machine h).wants tid g'.stage := by
        simpa only [launchOk, hjob] using hok
      have hp : g.polling = false := by simpa [HostMemory.script, hjob] using hj
      rw [hj.next_begin]
      refine hI.launch (fun t ht => ?_) hp (hI.rest i g hl hp) hok.1.process (fun j m hm hw => hok.2 j m hm ?_)
        (List.Sublist.refl _) hok.1.forked rfl fun t s => ?_
      · rcases ht with ht | ⟨hb, -⟩
        · exact (Option.some.inj ht).symm
        · cases hb
      · cases hs : m.stage <;> rw [hs] at hw <;> exact hw
      · cases s <;> exact Iff.rfl
    | backup => simp [HostMemory.allow, hjob] at ha
    | forked t cfg =>
      obtain ⟨-, -, rfl, hb⟩ : g.polling = false ∧ ShellOp.ofAgent (.begin .launch) = false ∧ tid = t ∧ g.begun = false := by
        simpa [HostMemory.allow, hjob] using ha
      have hlaunch : ∀ t, HostMemory.launches { g with launching := some tid, begun := true } t → g.launches t := by
        rintro t (ht | ⟨hb', -⟩)
        · exact .inr ⟨hb, cfg, Option.some.inj ht ▸ hjob⟩
        · cases hb'
      rw [hj.next_begin]
      exact hI.script hl hlaunch rfl rfl dirs
    | poll => simp [HostMemory.script, hjob] at hj
    | crash => simp [HostMemory.script, hjob] at hj
  by_cases h₂ : op = .done .launch
  · subst h₂
    rw [hj.next_done]
    have hlaunch : ∀ t, HostMemory.launches { g with launching := none } t → g.launches t := by
      rintro t (ht | ht)
      · cases ht
      · exact .inr ht
    exact hI.script hl hlaunch rfl rfl dirs
  · rw [hj.next r h₁ h₂]
    exact hI.script hl (fun _ h => h) rfl rfl dirs

/-- A statement of a poll after which it has got to `s`. -/
theorem LaunchInv.pollStep (hI : LaunchInv l x) (hl : l i = some g) (hp : g.polling = true) {s : Stage}
    (hforked : x'.forked = x.forked) (hflag : x'.polling = x.polling)
    (hstage : ∀ tid, x'.wants tid s → Quiet l x tid) :
    LaunchInv (Function.update l i (some { g with stage := s, polling := true })) x' := by
  refine hI.step (fun tid ht => ⟨g, hl, ht⟩) (fun _ => ⟨g, hl, hp⟩) hforked hflag (fun j m tid hne hj hw => ?_) hstage nofun
  rw [(hI.others hl hp hne hj).1] at hw
  exact hw.elim

theorem HostMemory.next_poll (hj : g.job = .poll) (hp : g.polling = true) (ho : op ≠ .endPoll) :
    g.next tid op r = { g with stage := g.stage.next tid op r, polling := true } := by
  simp [HostMemory.next, hj, hp, ho]

theorem LaunchInv.callPoll (hI : LaunchInv l (m.machine h)) (hl : l i = some g) (hj : g.job = .poll)
    (hp : g.polling = true) (ha : g.stage.allows tid op) (hok : launchOk l (m.machine h) g tid op r)
    (hs : opStep h tid op r m m') : LaunchInv (Function.update l i (some (g.next tid op r))) (m'.machine h) := by
  have hwants := fun t => hI.wants i g t hl
  -- A statement that leaves the agent's memory as it is.
  have hplain : op.writesAgent = false →
      (∀ t, (m.machine h).wants t (g.stage.next tid op r) → Quiet l (m.machine h) t) →
      LaunchInv (Function.update l i (some (g.next tid op r))) (m'.machine h) := by
    intro hw hstage
    have ho : op ≠ .endPoll := by
      rintro rfl
      cases hw
    obtain ⟨dirs, hx⟩ := (opStep_sameBut hw hs).agent h
    rw [HostMemory.next_poll hj hp ho, hx]
    refine hI.pollStep hl hp rfl rfl fun t ht => hstage t ?_
    cases hst : g.stage.next tid op r <;> rw [hst] at ht <;> exact ht
  cases op
  case pgrep =>
    refine hplain rfl fun t ht => ?_
    cases r with
    | true => exact ht.elim
    | false =>
      obtain ⟨rfl, hr⟩ : tid = t ∧ (m.machine h).recovering t = false := ht
      have hok : (m.machine h).recovering tid = true ∨ Quiet l (m.machine h) tid := by simpa only [launchOk, hj] using hok
      exact hok.resolve_left (by simp [hr])
  case ping =>
    refine hplain rfl fun t ht => ?_
    cases r with
    | true => exact ht.elim
    | false =>
      obtain ⟨rfl, hn⟩ : tid = t ∧ netDeadThreshold ≤ (m.machine h).netDead t + 1 := ht
      have hok : netDeadThreshold ≤ (m.machine h).netDead tid + 1 → Quiet l (m.machine h) tid := by
        simpa only [launchOk, hj] using hok
      exact hok hn
  case netDead =>
    obtain ⟨rfl, -⟩ : r = (m.machine h).netDead tid ∧ m' = m := hs
    have hst : g.stage = .unanswered tid := ha
    refine hplain rfl fun t ht => hwants t ?_
    simp only [Stage.next] at ht
    split at ht
    · obtain rfl : tid = t := ht
      rw [hst]
      exact ⟨rfl, ‹_›⟩
    · exact ht.elim
  case isRecovering =>
    obtain ⟨hr, -⟩ : r = (m.machine h).recovering tid ∧ m' = m := hs
    refine hplain rfl fun t ht => hwants t ?_
    cases r with
    | true => exact ht.elim
    | false =>
      obtain rfl : tid = t := ht
      rcases ha with ha | ha <;> rw [ha]
      · exact ⟨rfl, hr.symm⟩
      · rfl
  case popen cfg =>
    have hst : g.stage = .free tid := ha
    have hn : g.next tid (.popen cfg) r = { g with stage := .idle } := by simp [HostMemory.next, hj, hp, Stage.next]
    rw [hn]
    cases r with
    | true =>
      obtain rfl : m' = _ := hs
      rw [Machines.machine_updHost_self]
      exact hI.popen hl hp hst
    | false =>
      obtain rfl : m' = m := hs
      have h₁ : LaunchInv (Function.update l i (some { g with stage := .idle, polling := true })) (m'.machine h) :=
        hI.pollStep hl hp rfl rfl fun t ht => ht.elim
      rwa [← hp] at h₁
  case setRecovering b =>
    obtain rfl : m' = _ := hs
    have ho : ShellOp.setRecovering b ≠ .endPoll := by rintro ⟨⟩
    rw [Machines.machine_updHost_self, HostMemory.next_poll hj hp ho]
    refine hI.pollStep hl hp rfl rfl fun t ht => hwants t ?_
    have ht : Machine.wants _ t g.stage := ht
    rcases ha with ha | ha | ha <;> rw [ha] at ht ⊢ <;> exact ht
  case setNetDead n =>
    obtain rfl : m' = _ := hs
    have ho : ShellOp.setNetDead n ≠ .endPoll := by rintro ⟨⟩
    rw [Machines.machine_updHost_self, HostMemory.next_poll hj hp ho]
    refine hI.pollStep hl hp rfl rfl fun t ht => hwants t ?_
    have ht : Machine.wants _ t g.stage := ht
    rcases ha with ha | ha | ha <;> rw [ha] at ht ⊢ <;> exact ht
  case endPoll =>
    obtain rfl : m' = _ := hs
    have hn : g.next tid .endPoll r = { g with polling := false } := by simp [HostMemory.next, hj, Stage.next]
    rw [Machines.machine_updHost_self, hn]
    exact hI.endPoll hl hp ha
  case inTime =>
    refine hplain rfl fun t ht => ?_
    cases r with
    | true => exact hwants t ht
    | false => exact ht.elim
  all_goals exact hplain rfl hwants

/-- **One statement of a run.** -/
theorem LaunchInv.call (hI : LaunchInv l (m.machine h)) (hl : l i = some g) (ha : g.allow tid op)
    (hok : launchOk l (m.machine h) g tid op r) (hs : opStep h tid op r m m') :
    LaunchInv (Function.update l i (some (g.next tid op r))) (m'.machine h) := by
  cases hj : g.job with
  | poll =>
    obtain ⟨hp, ha⟩ : g.polling = true ∧ g.stage.allows tid op := by simpa only [HostMemory.allow, hj] using ha
    exact hI.callPoll hl hj hp ha hok hs
  | crash => simp [HostMemory.allow, hj] at ha
  | ssm | backup | forked =>
    refine hI.callScript hl ?_ ha hok hs
    simp only [HostMemory.allow, hj] at ha
    simpa only [HostMemory.script, hj] using ha.1

/-- A process that starts without a launch. -/
theorem LaunchInv.startScript (hI : LaunchInv l x) (hg : ∀ t, ¬ g'.launches t) (hp : g'.polling = false)
    (hs : g'.stage = .idle) (dirs : TenantId → VmDir) :
    LaunchInv (Function.update l i (some g')) { x with dirs := dirs } := by
  refine hI.step (fun t ht => absurd ht (hg t)) (fun h => by simp [hp] at h) rfl rfl
    (fun j m t _ hj hw => hI.wants j m t hj ?_) (fun t hw => ?_) fun _ => hs
  · cases hst : m.stage <;> rw [hst] at hw <;> exact hw
  · rw [hs] at hw
    exact hw.elim

/-- A launch that the agent forked starts. -/
theorem LaunchInv.startForked (hI : LaunchInv l x) {cfg : VmConfig} (hm : (tid, cfg) ∈ x.forked) :
    LaunchInv (Function.update l i (some { job := .forked tid cfg })) { x with forked := x.forked.erase (tid, cfg) } := by
  have hone : ∀ e ∈ x.forked.erase (tid, cfg), e.1 ≠ tid := by
    intro e he ht
    have hne : e ≠ (tid, cfg) := ((List.Nodup.of_map _ hI.forked).mem_erase_iff.1 he).1
    exact hne (List.inj_on_of_nodup_map hI.forked (List.mem_of_mem_erase he) hm ht)
  refine hI.launch (fun t ht => ?_) rfl rfl (hI.alone _ hm) (fun j g hj hw => ?_) List.erase_sublist hone rfl fun t s => ?_
  · rcases ht with ht | ⟨-, cfg', ht⟩ <;> cases ht
    rfl
  · exact (hI.wants j g tid hj (by cases hs : g.stage <;> rw [hs] at hw <;> exact hw)).forked _ hm rfl
  · cases s <;> exact Iff.rfl

theorem LaunchInv.start (hI : LaunchInv l (m.machine h)) {env : PlatformEnv} {j : HostJob}
    (hs : (hostJobs env h).start j m m') :
    LaunchInv (Function.update l i (some ((hostProtocol h).init j))) (m'.machine h) := by
  cases j with
  | poll =>
    obtain ⟨hp, rfl⟩ := hs
    rw [Machines.machine_updHost_self]
    exact hI.startPoll hp
  | forked tid cfg =>
    obtain ⟨hm, rfl⟩ := hs
    rw [Machines.machine_updHost_self]
    exact hI.startForked hm
  | ssm | backup =>
    obtain rfl : m' = m := hs
    refine hI.startScript (fun t ht => ?_) rfl rfl _
    rcases ht with ht | ⟨-, cfg, ht⟩ <;> cases ht
  | crash tid =>
    obtain rfl : m' = _ := hs
    rw [Machines.upd, Machines.machine_updHost_self]
    refine hI.startScript (fun t ht => ?_) rfl rfl _
    rcases ht with ht | ⟨-, cfg, ht⟩ <;> cases ht

end Steps

/-- **Launches of one tenant do not overlap**, whatever commands SSM runs on the host and whenever the agent polls, as
long as the launches sent through SSM find none under way, and a poll finds a VM without Firecracker or unreachable only
while none is under way. -/
theorem launches_exclusive [DecidableEq ι] (env : PlatformEnv) (h : HostId) {m₀ : Machines}
    (h₀ : (m₀.machine h).forked = []) {tr : List (Ev Sh HostJob ι)} {c : Conf Sh Machines HostJob ι Unit}
    (hr : Reach shell (hostJobs env h) (oneLaunch h) (Conf.idle m₀) tr c) : NoOverlap ((hostProtocol h).locs tr) := by
  let I : List (Ev Sh HostJob ι) → Machines → Prop := fun tr m => LaunchInv ((hostProtocol h).locs tr) (m.machine h)
  have hinit : I [] m₀ := by
    refine ⟨fun i j g g' t hi => ?_, by simp [h₀], fun e he => ?_, fun i g t hi => ?_, fun i j g g' hi => ?_,
      fun i g hi => ?_, fun i g hi => ?_⟩
    · cases hi
    · simp [h₀] at he
    all_goals cases hi
  have hstart : ∀ tr m i j m', I tr m → (hostProtocol h).locs tr i = none → oneLaunch h tr m (.start i j) →
      (hostJobs env h).start j m m' → I (tr ++ [.start i j]) m' := by
    intro tr m i j m' hI _ _ hs
    show LaunchInv _ _
    rw [Protocol.locs_snoc]
    exact LaunchInv.start hI hs
  have hcall : ∀ tr m i g c r m', I tr m → (hostProtocol h).locs tr i = some g → (hostProtocol h).allow g c →
      oneLaunch h tr m (.call i c r) → shell.step c r m m' →
      (hostProtocol h).sane g c r ∧ I (tr ++ [.call i c r]) m' := by
    rintro tr m i g ⟨h', tid, op⟩ r m' hI hl ⟨rfl, ha⟩ hok hs
    refine ⟨trivial, ?_⟩
    show LaunchInv _ _
    rw [Protocol.locs_snoc, Protocol.stepLoc, hl]
    exact LaunchInv.call hI hl ha (hok g hl) hs
  have hI := (Reach.protocol hostJobs_obey hinit hstart hcall hr).1
  exact fun i j g g' tid hi hj hg hg' => hI.single i j g g' tid hi hj (.inl hg) (.inl hg')

/-! ## Runs -/

/-- The agent forked the process to launch the tenant. -/
def HostJob.forkedFor (tid : TenantId) : HostJob → Bool
  | .forked t _ => t = tid
  | _ => false

/-- The process executes `launch-vm.sh` for the tenant, or was forked to, computed. -/
def HostMemory.launchesOf (g : HostMemory) (tid : TenantId) : Bool :=
  g.launching = some tid || !g.begun && g.job.forkedFor tid

theorem HostMemory.launchesOf_eq_false {g : HostMemory} {tid : TenantId} (h : g.launchesOf tid = false) :
    ¬ g.launches tid := by
  simp only [launchesOf, Bool.or_eq_false_iff, decide_eq_false_iff_not, Bool.and_eq_false_iff] at h
  rintro (hl | ⟨hb, cfg, hj⟩)
  · exact h.1 hl
  · simp [hb, hj, HostJob.forkedFor] at h

/-- The processes of a run. -/
def started (tr : List (Ev Sh HostJob ℕ)) : List ℕ :=
  tr.filterMap fun
    | .start i _ => some i
    | .call _ _ _ => none

theorem mem_started {h : HostId} {tr : List (Ev Sh HostJob ℕ)} {i : ℕ} {g : HostMemory}
    (hl : (hostProtocol h).locs tr i = some g) : i ∈ started tr := by
  have hs : started tr = processesOf tr := by
    unfold started processesOf
    refine congrArg (List.filterMap · tr) (funext fun e => ?_)
    cases e <;> rfl
  rw [hs]
  exact Protocol.mem_processesOf hl

/-- No launch of the tenant is under way, computed. -/
def quietCheck (h : HostId) (tr : List (Ev Sh HostJob ℕ)) (m : Machines) (tid : TenantId) : Bool :=
  ((started tr).all fun i => ((hostProtocol h).locs tr i).all fun g => !g.launchesOf tid) &&
    (m.machine h).forked.all fun e => e.1 ≠ tid

theorem quietCheck_sound {h : HostId} {tr : List (Ev Sh HostJob ℕ)} {m : Machines} {tid : TenantId}
    (hq : quietCheck h tr m tid = true) : Quiet ((hostProtocol h).locs tr) (m.machine h) tid := by
  simp only [quietCheck, Bool.and_eq_true, List.all_eq_true, decide_eq_true_eq] at hq
  refine ⟨fun i g hl => HostMemory.launchesOf_eq_false ?_, hq.2⟩
  have hg := hq.1 i (mem_started hl)
  rw [hl] at hg
  simpa using hg

/-- Launches sent through SSM find an idle agent, and polls miss a process only while no launch is under way. -/
def oneLaunchCheck (h : HostId) (tr : List (Ev Sh HostJob ℕ)) (m : Machines) : Ev Sh HostJob ℕ → Bool
  | .call i ⟨_, tid, .begin .launch⟩ _ =>
    ((hostProtocol h).locs tr i).any (fun g => g.job.forkedFor tid) ||
      ((started tr).all fun k => ((hostProtocol h).locs tr k).all fun g => g.stage = .idle) && quietCheck h tr m tid
  | .call _ ⟨_, tid, .pgrep⟩ _ => quietCheck h tr m tid
  | .call _ ⟨_, _, .ping⟩ up => up
  | _ => true

theorem oneLaunchCheck_sound {h : HostId} {tr : List (Ev Sh HostJob ℕ)} {m : Machines} {e : Ev Sh HostJob ℕ}
    (hc : oneLaunchCheck h tr m e = true) : oneLaunch h tr m e := by
  cases e with
  | start i j => trivial
  | call i c r =>
    intro g hl
    obtain ⟨h', tid, op⟩ := c
    cases op
    case begin s =>
      cases s with
      | launch =>
        simp only [oneLaunchCheck, hl, Option.any_some, Bool.or_eq_true, Bool.and_eq_true, List.all_eq_true] at hc
        rcases hc with hj | hc
        · unfold launchOk
          cases hjob : g.job with
          | forked t cfg => trivial
          | _ => simp [hjob, HostJob.forkedFor] at hj
        · have hidle : ∀ k g', (hostProtocol h).locs tr k = some g' → ¬ (m.machine h).wants tid g'.stage := by
            intro k g' hk
            have hs := hc.1 k (mem_started hk)
            rw [hk, Option.all_some, decide_eq_true_eq] at hs
            rw [hs]
            exact id
          unfold launchOk
          cases g.job <;> first | trivial | exact ⟨quietCheck_sound hc.2, hidle⟩
      | stop =>
        unfold launchOk
        cases g.job <;> trivial
    case pgrep =>
      unfold launchOk
      cases g.job <;> cases r <;> first | trivial | exact .inr (quietCheck_sound hc)
    case ping =>
      obtain rfl : r = true := hc
      unfold launchOk
      cases g.job <;> trivial
    all_goals
      unfold launchOk
      cases g.job <;> trivial

/-- A host without VMs. -/
def bareHosts : Machines := { machine := fun _ => { template := { image := 0, size := bytes 4096 } } }

/-- The command of `_launch_vm` for a new tenant. -/
def firstLaunch : HostJob := .ssm (.launchVm "a-0000" 1 2 4096 "" "" [])

/-- The tenant is launched, its Firecracker process dies, and a poll launches it again. -/
def relaunch : List (Move HostJob ℕ ShellHint) :=
  List.flatten [[.start 0 firstLaunch], List.replicate 20 (.call 0 {}),
    [.start 1 (.crash "a-0000"), .start 2 .poll], List.replicate 9 (.call 2 { entries := ["a-0000"] }),
    [.start 3 (.forked "a-0000" ⟨1, 2, 4096, ""⟩)], List.replicate 18 (.call 3 {})]

/-- The poll comes after `vm.json` was written and before Firecracker was started. -/
def pollInLaunch : List (Move HostJob ℕ ShellHint) :=
  List.flatten [[.start 0 firstLaunch], List.replicate 5 (.call 0 {}),
    [.start 1 .poll], List.replicate 8 (.call 1 { entries := ["a-0000"] }),
    [.start 2 (.forked "a-0000" ⟨1, 2, 4096, ""⟩), .call 2 {}]]

/-- The second launch comes after the first one. -/
theorem launches_exclusive_relaunch : ∃ (tr : List (Ev Sh HostJob ℕ)) (c : Conf Sh Machines HostJob ℕ Unit),
    Reach shell (hostJobs {} "i-1") (oneLaunch "i-1") (Conf.idle bareHosts) tr c ∧
    (c.world.dir "i-1" "a-0000").fc = .running ∧ NoOverlap ((hostProtocol "i-1").locs tr) := by
  have hplay : ((shellOracle.play (hostJobs {} "i-1") (hostStart "i-1") (oneLaunchCheck "i-1") [] (Conf.idle bareHosts)
      relaunch).any fun x => (x.2.world.dir "i-1" "a-0000").fc = .running) = true := by
    decide +kernel
  obtain ⟨tr, c, hr, hfc⟩ := Oracle.exists_reach_of_play hostStart_sound (fun _ _ _ => oneLaunchCheck_sound) hplay
  exact ⟨tr, c, hr, of_decide_eq_true hfc, launches_exclusive {} "i-1" rfl hr⟩

/-- The poll starts a second launch next to the first one. -/
theorem poll_overlaps_launch : ¬ ∀ (m₀ : Machines) (tr : List (Ev Sh HostJob ℕ)) (c : Conf Sh Machines HostJob ℕ Unit),
    (m₀.machine "i-1").forked = [] → Reach shell (hostJobs {} "i-1") anyStep (Conf.idle m₀) tr c →
    NoOverlap ((hostProtocol "i-1").locs tr) := by
  intro hall
  have hplay : ((shellOracle.play (hostJobs {} "i-1") (hostStart "i-1") (fun _ _ _ => true) [] (Conf.idle bareHosts)
      pollInLaunch).any fun x => [0, 2].all fun i => ((hostProtocol "i-1").locs x.1 i).any fun g =>
        g.launching = some "a-0000") = true := by
    decide +kernel
  obtain ⟨tr, c, hr, hboth⟩ := Oracle.exists_reach_of_play hostStart_sound (fun _ _ _ _ => trivial) hplay
  have hlaunch : ∀ i ∈ [0, 2], ∃ g, (hostProtocol "i-1").locs tr i = some g ∧ g.launching = some "a-0000" := by
    intro i hi
    obtain ⟨g, hg, hl⟩ := (Option.any_eq_true _ _).1 (List.all_eq_true.1 hboth i hi)
    exact ⟨g, hg, of_decide_eq_true hl⟩
  obtain ⟨g, hg, hl⟩ := hlaunch 0 (by simp)
  obtain ⟨g', hg', hl'⟩ := hlaunch 2 (by simp)
  exact absurd (hall bareHosts tr c rfl hr 0 2 g g' "a-0000" hg hg' hl hl') (by decide)

end OpenClaw
