import OpenClaw.Host.Launches
import OpenClaw.Host.PauseWindows

/-!
# Paused VMs and the agent

A paused guest does not answer. `migrate-vm.sh snapshot` leaves a sentinel for the agent when ballooning is on; without
one, the third poll in a row that the guest leaves unanswered stops the VM and launches it again.

- `HostMemory.handles`: the agent has decided about a VM, or runs a script for it.
- `paused_left_alone`: no paused VM is stopped or launched, as long as no third unanswered poll falls into a pause and
  no VM is paused in the middle of a decision.
- `paused_vm_relaunched`: the agent stops a VM that was paused through the API.
-/

namespace OpenClaw

open Atomic

variable {ι : Type}

/-! ## Decisions of the agent -/

/-- The poll goes on to stop or launch the VM. -/
def Stage.decides (tid : TenantId) : Stage → Prop
  | .missing t | .dead t | .free t => t = tid
  | _ => False

/-- The process was forked by the agent to launch the VM, and has not ended. -/
def HostMemory.relaunches (g : HostMemory) (tid : TenantId) : Prop :=
  (∃ t cfg, g.job = .forked t cfg) ∧ g.launches tid

def HostMemory.handles (g : HostMemory) (tid : TenantId) : Prop :=
  g.job = .poll ∧ g.stage.decides tid ∨ g.relaunches tid

/-- The agent runs neither `stop-vm.sh` nor `launch-vm.sh` for the VM. -/
structure LeftAlone (l : ι → Option HostMemory) (x : Machine) (tid : TenantId) : Prop where
  poll : ∀ i g, l i = some g → ¬ (g.job = .poll ∧ g.stage = .free tid)
  launch : ∀ i g, l i = some g → ¬ g.relaunches tid
  forked : ∀ e ∈ x.forked, e.1 ≠ tid

/-- Nobody handles the VM. -/
structure NotAtWork (l : ι → Option HostMemory) (x : Machine) (tid : TenantId) : Prop where
  process : ∀ i g, l i = some g → ¬ g.handles tid
  forked : ∀ e ∈ x.forked, e.1 ≠ tid

theorem NotAtWork.leftAlone {l : ι → Option HostMemory} {x : Machine} {tid : TenantId} (hu : NotAtWork l x tid) :
    LeftAlone l x tid := by
  refine ⟨fun i g hl hg => ?_, fun i g hl hg => hu.process i g hl (.inr hg), hu.forked⟩
  refine hu.process i g hl (.inl ⟨hg.1, ?_⟩)
  rw [hg.2]
  rfl

section Runs

variable [DecidableEq ι] {h : HostId} {l : ι → Option HostMemory}

/-- A pause that goes through. -/
def ShellOp.pauses : (op : ShellOp) → op.Ans → Bool
  | .pause, r => r
  | _, _ => false

/-- The third unanswered poll in a row. -/
def ShellOp.lastStraw : (op : ShellOp) → op.Ans → Bool
  | .netDead, n => netDeadThreshold ≤ n + 1
  | _, _ => false

/-- The condition on the steps: a VM is paused only while the agent does not handle it, and no third unanswered poll in a
row is counted for a paused VM. -/
def pausesApart (h : HostId) (tr : List (Ev Sh HostJob ι)) (m : Machines) : Ev Sh HostJob ι → Prop
  | .start _ _ => True
  | .call _ c r =>
    (c.op.pauses r = true → (m.dir h c.tenant).fc ≠ .paused →
      NotAtWork ((hostProtocol h).locs tr) (m.machine h) c.tenant) ∧
    ((m.dir h c.tenant).fc = .paused → c.op.lastStraw r = false)

/-- Paused VMs are not handled. -/
def PausedNotAtWork (h : HostId) (l : ι → Option HostMemory) (m : Machines) : Prop :=
  ∀ tid, (m.dir h tid).fc = .paused → NotAtWork l (m.machine h) tid

section Steps

variable {tid t : TenantId} {op : ShellOp} {r : op.Ans} {m m' : Machines} {i : ι} {g g' : HostMemory}

/-- Only a pause pauses. -/
theorem paused_step (hs : opStep h tid op r m m') (hp : (m'.dir h t).fc = .paused) :
    (m.dir h t).fc = .paused ∨ op.pauses r = true ∧ t = tid := by
  by_cases e : t = tid
  · subst e
    by_cases hm : op.movesFc = false
    · rw [fc_step hs hm] at hp
      exact .inl hp
    · cases op
      case pause =>
        cases r with
        | true => exact .inr ⟨rfl, rfl⟩
        | false =>
          obtain rfl : m' = m := hs.2
          exact .inl hp
      case pkill | startFc =>
        obtain rfl := hs
        rw [Machines.dir_upd_self] at hp
        cases hp
      case instanceStart | loadSnapshot | resume =>
        rcases hs.2.eq_or with rfl | rfl
        · rw [Machines.dir_upd_self] at hp
          cases hp
        · exact .inl hp
      all_goals exact absurd rfl hm
  · rw [dir_elsewhere (fun he => e he.2) hs] at hp
    exact .inl hp

/-- Only a poll that handles a VM forks a launch for it. -/
theorem forked_step (hs : opStep h tid op r m m') {e : TenantId × VmConfig} (he : e ∈ (m'.machine h).forked) :
    e ∈ (m.machine h).forked ∨ ∃ cfg, op = .popen cfg ∧ e.1 = tid := by
  by_cases hw : op.writesAgent = false
  · obtain ⟨dirs, hd⟩ := (opStep_sameBut hw hs).agent h
    rw [hd] at he
    exact .inl he
  · cases op
    case setRecovering | setNetDead | endPoll =>
      obtain rfl := hs
      rw [Machines.machine_updHost_self] at he
      exact .inl he
    case popen cfg =>
      rcases did.eq_or hs with rfl | rfl
      · rw [Machines.machine_updHost_self] at he
        rcases List.mem_append.1 he with he | he
        · exact .inl he
        · exact .inr ⟨cfg, rfl, by rw [List.mem_singleton.1 he]⟩
      · exact .inl he
    all_goals exact absurd rfl hw

/-- A process that handles a paused VM has handled it before, or counts a third unanswered poll. -/
theorem handles_step (ha : g.allow tid op) (hs : opStep h tid op r m m') (hp : (m.dir h t).fc = .paused)
    (hlast : t = tid → op.lastStraw r = false) (hg : (g.next tid op r).handles t) : g.handles t := by
  have hjob := g.next_job tid op r
  rcases hg with ⟨hj, hstage⟩ | ⟨⟨t', cfg, hj⟩, hlaunch⟩
  · rw [hjob] at hj
    refine .inl ⟨hj, ?_⟩
    obtain ⟨-, hallow⟩ : g.polling = true ∧ g.stage.allows tid op := by simpa only [HostMemory.allow, hj] using ha
    have hn : (g.next tid op r).stage = g.stage.next tid op r := by simp [HostMemory.next, hj]
    rw [hn] at hstage
    cases op
    case pgrep =>
      obtain ⟨hr, -⟩ := hs
      cases r with
      | true => exact hstage.elim
      | false =>
        obtain rfl : tid = t := hstage
        simp [hp] at hr
    case ping => cases r <;> exact hstage.elim
    case netDead =>
      simp only [Stage.next] at hstage
      split at hstage
      · rename_i hn
        obtain rfl : tid = t := hstage
        have hno := hlast rfl
        simp [ShellOp.lastStraw, hn] at hno
      · exact hstage.elim
    case isRecovering =>
      cases r with
      | true => exact hstage.elim
      | false =>
        obtain rfl : tid = t := hstage
        rcases hallow with e | e
        · rw [e]
          rfl
        · rw [e]
          rfl
    case popen => exact hstage.elim
    case inTime =>
      cases r with
      | true => exact hstage
      | false => exact hstage.elim
    all_goals exact hstage
  · rw [hjob] at hj
    refine .inr ⟨⟨t', cfg, hj⟩, ?_⟩
    obtain ⟨hpoll, -, hbegin⟩ : g.polling = false ∧ op.ofAgent = false ∧
        (op = .begin .launch → tid = t' ∧ g.begun = false) := by
      simpa only [HostMemory.allow, hj] using ha
    have hscript : g.script := by simpa only [HostMemory.script, hj] using hpoll
    by_cases h₁ : op = .begin .launch
    · subst h₁
      obtain ⟨rfl, hb⟩ := hbegin rfl
      rw [hscript.next_begin] at hlaunch
      rcases hlaunch with hl | ⟨hb', -⟩
      · exact .inr ⟨hb, cfg, Option.some.inj hl ▸ hj⟩
      · cases hb'
    · by_cases h₂ : op = .done .launch
      · subst h₂
        rw [hscript.next_done] at hlaunch
        rcases hlaunch with hl | hl
        · cases hl
        · exact .inr hl
      · rw [hscript.next r h₁ h₂] at hlaunch
        exact hlaunch

/-- What is not a poll runs a script. -/
theorem script_of_allow (ha : g.allow tid op) (hj : g.job ≠ .poll) : g.script ∧ op.ofAgent = false := by
  unfold HostMemory.allow HostMemory.script at *
  cases hjob : g.job with
  | poll => exact absurd hjob hj
  | crash =>
    rw [hjob] at ha
    exact ha.elim
  | ssm =>
    rw [hjob] at ha
    exact ha
  | backup | forked =>
    rw [hjob] at ha
    exact ⟨ha.1, ha.2.1⟩

/-- The poll that forks a launch has handled the VM. -/
theorem handles_popen {cfg : VmConfig} (ha : g.allow tid (.popen cfg)) : g.handles tid := by
  have hpoll : g.job = .poll := by
    by_contra hne
    cases (script_of_allow ha hne).2
  obtain ⟨-, hstage⟩ : g.polling = true ∧ g.stage.allows tid (.popen cfg) := by
    simpa only [HostMemory.allow, hpoll] using ha
  refine .inl ⟨hpoll, ?_⟩
  rw [show g.stage = .free tid from hstage]
  rfl

/-- Pausing a VM does not make anybody handle it. -/
theorem handles_pause {b : Bool} (ha : g.allow tid .pause) (hg : (g.next tid .pause b).handles t) : g.handles t := by
  by_cases hj : g.job = .poll
  · obtain ⟨-, hno⟩ : g.polling = true ∧ g.stage.allows tid .pause := by simpa only [HostMemory.allow, hj] using ha
    exact hno.elim
  · have hscript := (script_of_allow ha hj).1
    have hn : g.next tid .pause b = g := hscript.next _ (fun e => by cases e) fun e => by cases e
    rwa [hn] at hg

/-- A job starts. -/
theorem PausedNotAtWork.start {env : PlatformEnv} {j : HostJob} (hI : PausedNotAtWork h l m)
    (hs : (hostJobs env h).start j m m') :
    PausedNotAtWork h (Function.update l i (some ((hostProtocol h).init j))) m' := by
  intro tid hp
  have hhost : ∀ f : Machine → Machine, (∀ x, (f x).dirs = x.dirs) →
      ((m.updHost h f).dir h tid).fc = (m.dir h tid).fc := fun f hf => by rw [Machines.dir_updHost h hf]
  -- The VM was paused before, and at most a launch of another VM is taken from the forked ones.
  have hstep : (m.dir h tid).fc = .paused ∧ (m'.machine h).forked ⊆ (m.machine h).forked ∧
      ∀ t cfg, j = .forked t cfg → (t, cfg) ∈ (m.machine h).forked := by
    cases j with
    | poll =>
      obtain ⟨-, rfl⟩ := hs
      rw [hhost (fun x => { x with polling := true }) fun _ => rfl] at hp
      rw [Machines.machine_updHost_self]
      exact ⟨hp, List.Subset.refl _, fun t cfg e => (by cases e)⟩
    | forked t cfg =>
      obtain ⟨hm, rfl⟩ := hs
      rw [hhost (fun x => { x with forked := x.forked.erase (t, cfg) }) fun _ => rfl] at hp
      rw [Machines.machine_updHost_self]
      refine ⟨hp, List.erase_subset, fun t' cfg' e => ?_⟩
      cases e
      exact hm
    | crash t =>
      obtain rfl : m' = m.upd h t fun d => { d with fc := .absent } := hs
      rw [Machines.upd, Machines.machine_updHost_self]
      refine ⟨?_, List.Subset.refl _, fun t' cfg e => (by cases e)⟩
      by_cases e : tid = t
      · subst e
        rw [Machines.dir_upd_self] at hp
        cases hp
      · rwa [Machines.dir_upd_of_ne _ _ fun e' => e e'.2] at hp
    | ssm | backup =>
      obtain rfl : m' = m := hs
      exact ⟨hp, List.Subset.refl _, fun t' cfg e => (by cases e)⟩
  obtain ⟨hbefore, hforked, hnew⟩ := hstep
  have hu := hI tid hbefore
  refine ⟨fun k g hk hg => ?_, fun e he => hu.forked e (hforked he)⟩
  rcases update_cases hk with ⟨rfl, rfl⟩ | ⟨-, hk⟩
  · rcases hg with ⟨-, hstage⟩ | ⟨⟨t, cfg, hj⟩, hl | ⟨-, cfg', hj'⟩⟩
    · exact hstage.elim
    · cases hl
    · have hj' : j = .forked tid cfg' := hj'
      exact hu.forked _ (hnew tid cfg' hj') rfl
  · exact hu.process k g hk hg

/-- A process makes a statement. -/
theorem PausedNotAtWork.call (hI : PausedNotAtWork h l m) (hl : l i = some g) (ha : g.allow tid op)
    (hpause : op.pauses r = true → (m.dir h tid).fc ≠ .paused → NotAtWork l (m.machine h) tid)
    (hlast : (m.dir h tid).fc = .paused → op.lastStraw r = false) (hs : opStep h tid op r m m') :
    PausedNotAtWork h (Function.update l i (some (g.next tid op r))) m' := by
  intro t hp
  by_cases hbefore : (m.dir h t).fc = .paused
  · have hu := hI t hbefore
    refine ⟨fun k g' hk hg => ?_, fun e he et => ?_⟩
    · rcases update_cases hk with ⟨rfl, rfl⟩ | ⟨-, hk⟩
      · exact hu.process _ _ hl (handles_step ha hs hbefore (fun e => hlast (e ▸ hbefore)) hg)
      · exact hu.process k g' hk hg
    · rcases forked_step hs he with he | ⟨cfg, rfl, he⟩
      · exact hu.forked e he et
      · obtain rfl : t = tid := et.symm.trans he
        exact hu.process _ _ hl (handles_popen ha)
  · -- The VM is paused by this statement, at a time when nobody handles it.
    obtain ⟨hop, rfl⟩ := (paused_step hs hp).resolve_left hbefore
    have hu := hpause hop hbefore
    cases op
    case pause =>
      refine ⟨fun k g' hk hg => ?_, fun e he => ?_⟩
      · rcases update_cases hk with ⟨rfl, rfl⟩ | ⟨-, hk⟩
        · exact hu.process _ _ hl (handles_pause ha hg)
        · exact hu.process k g' hk hg
      · rcases forked_step hs he with he | ⟨cfg, he, -⟩
        · exact hu.forked e he
        · cases he
    all_goals cases hop

end Steps

/-- **Paused VMs are left alone.** While a VM is paused, no poll stops it or forks a launch of it and no forked launch of
it is under way, whichever commands run on the host and whenever the agent polls, as long as no third unanswered poll in
a row falls into a pause and a VM is paused only while the agent does not handle it. -/
theorem paused_left_alone (env : PlatformEnv) {m₀ : Machines} (h₀ : (m₀.machine h).forked = [])
    {tr : List (Ev Sh HostJob ι)} {c : Conf Sh Machines HostJob ι Unit}
    (hr : Reach shell (hostJobs env h) (pausesApart h) (Conf.idle m₀) tr c) {tid : TenantId}
    (hp : (c.world.dir h tid).fc = .paused) :
    LeftAlone ((hostProtocol h).locs tr) (c.world.machine h) tid ∧
      ∀ i op k, c.proc i = some (.poll, .call ⟨h, tid, op⟩ k) → op ≠ .begin .stop ∧ ∀ cfg, op ≠ .popen cfg := by
  let I : List (Ev Sh HostJob ι) → Machines → Prop := fun tr m => PausedNotAtWork h ((hostProtocol h).locs tr) m
  have hinit : I [] m₀ := fun t _ => ⟨fun i g hi => (by cases hi), by simp [h₀]⟩
  have hstart : ∀ tr m i j m', I tr m → (hostProtocol h).locs tr i = none → pausesApart h tr m (.start i j) →
      (hostJobs env h).start j m m' → I (tr ++ [.start i j]) m' := by
    intro tr m i j m' hI _ _ hs
    show PausedNotAtWork h _ _
    rw [Protocol.locs_snoc]
    exact hI.start hs
  have hcall : ∀ tr m i g c r m', I tr m → (hostProtocol h).locs tr i = some g → (hostProtocol h).allow g c →
      pausesApart h tr m (.call i c r) → shell.step c r m m' →
      (hostProtocol h).sane g c r ∧ I (tr ++ [.call i c r]) m' := by
    rintro tr m i g ⟨h', t, op⟩ r m' hI hl ⟨rfl, ha⟩ ⟨hpause, hlast⟩ hs
    refine ⟨trivial, ?_⟩
    show PausedNotAtWork h' _ _
    rw [Protocol.locs_snoc, Protocol.stepLoc, hl]
    exact hI.call hl ha hpause hlast hs
  obtain ⟨hI, -, hobeys⟩ := Reach.protocol hostJobs_obey hinit hstart hcall hr
  have hu := hI tid hp
  refine ⟨hu.leftAlone, fun i op k hi => ?_⟩
  obtain ⟨g, hl, ⟨-, ha⟩, -⟩ := hobeys i _ _ hi
  have hjob : g.job = .poll := by
    have hj := Reach.job_locs HostMemory.job (π := hostProtocol h) (fun _ => rfl)
      (fun g c r => g.next_job c.tenant c.op r) hr i
    rw [hl, hi] at hj
    exact Option.some.inj hj
  obtain ⟨-, hstage⟩ : g.polling = true ∧ g.stage.allows tid op := by simpa only [HostMemory.allow, hjob] using ha
  have hfree : g.stage ≠ .free tid := fun e => hu.leftAlone.poll i g hl ⟨hjob, e⟩
  constructor
  · rintro rfl
    exact hfree hstage
  · rintro cfg rfl
    exact hfree hstage

end Runs

/-! ## Runs -/

/-- A VM is paused while no poll has decided anything and no launch of it is under way; a poll is never the third one in
a row. -/
def pausesApartCheck (h : HostId) (tr : List (Ev Sh HostJob ℕ)) (m : Machines) : Ev Sh HostJob ℕ → Bool
  | .call _ ⟨_, tid, .pause⟩ _ =>
    ((started tr).all fun k => ((hostProtocol h).locs tr k).all fun g => g.stage = .idle) && quietCheck h tr m tid
  | .call _ ⟨_, _, .netDead⟩ n => n + 1 < netDeadThreshold
  | _ => true

theorem pausesApartCheck_sound {h : HostId} {tr : List (Ev Sh HostJob ℕ)} {m : Machines} {e : Ev Sh HostJob ℕ}
    (hc : pausesApartCheck h tr m e = true) : pausesApart h tr m e := by
  cases e with
  | start i j => trivial
  | call i c r =>
    obtain ⟨h', tid, op⟩ := c
    cases op
    case pause =>
      refine ⟨fun _ _ => ?_, fun _ => rfl⟩
      simp only [pausesApartCheck, Bool.and_eq_true, List.all_eq_true] at hc
      obtain ⟨hidle, hquiet⟩ := hc
      have hq := quietCheck_sound hquiet
      refine ⟨fun k g hl hg => ?_, hq.2⟩
      rcases hg with ⟨-, hstage⟩ | ⟨-, hlaunch⟩
      · have hs := hidle k (mem_started hl)
        rw [hl, Option.all_some, decide_eq_true_eq] at hs
        rw [hs] at hstage
        exact hstage
      · exact hq.1 k g hl hlaunch
    case netDead =>
      have hn : r + 1 < netDeadThreshold := of_decide_eq_true hc
      refine ⟨fun h => (by cases h), fun _ => ?_⟩
      exact decide_eq_false (not_le.2 hn)
    all_goals exact ⟨fun h => (by cases h), fun _ => rfl⟩

/-- The tenant is launched, paused through the API, and two polls find it silent. -/
def pausedTwoPolls : List (Move HostJob ℕ ShellHint) :=
  List.flatten [[.start 0 firstLaunch], List.replicate 20 (.call 0 {}),
    [.start 1 (.ssm (.vmState "a-0000" true)), .call 1 {}],
    [.start 2 .poll], List.replicate 10 (.call 2 { entries := ["a-0000"] }),
    [.start 3 .poll], List.replicate 10 (.call 3 { entries := ["a-0000"] })]

/-- A third poll finds it silent, and goes on up to `stop-vm.sh`. -/
def pausedThreePolls : List (Move HostJob ℕ ShellHint) :=
  pausedTwoPolls ++ .start 4 .poll :: List.replicate 13 (.call 4 { entries := ["a-0000"] })

/-- Two silent polls do not matter. -/
theorem paused_left_alone_twice : ∃ (tr : List (Ev Sh HostJob ℕ)) (c : Conf Sh Machines HostJob ℕ Unit),
    Reach shell (hostJobs {} "i-1") (pausesApart "i-1") (Conf.idle bareHosts) tr c ∧
    (c.world.dir "i-1" "a-0000").fc = .paused ∧ (c.world.machine "i-1").netDead "a-0000" = 2 ∧
    LeftAlone ((hostProtocol "i-1").locs tr) (c.world.machine "i-1") "a-0000" := by
  have hplay : ((shellOracle.play (hostJobs {} "i-1") (hostStart "i-1") (pausesApartCheck "i-1") []
      (Conf.idle bareHosts) pausedTwoPolls).any fun x => (x.2.world.dir "i-1" "a-0000").fc = .paused ∧
        (x.2.world.machine "i-1").netDead "a-0000" = 2) = true := by
    decide +kernel
  obtain ⟨tr, c, hr, hfc⟩ := Oracle.exists_reach_of_play hostStart_sound (fun _ _ _ => pausesApartCheck_sound) hplay
  obtain ⟨hfc, hn⟩ := of_decide_eq_true hfc
  exact ⟨tr, c, hr, hfc, hn, (paused_left_alone {} rfl hr hfc).1⟩

/-- The third poll in a row stops a VM that was paused through the API. -/
theorem paused_vm_relaunched : ∃ (tr : List (Ev Sh HostJob ℕ)) (c : Conf Sh Machines HostJob ℕ Unit),
    Reach shell (hostJobs {} "i-1") anyStep (Conf.idle bareHosts) tr c ∧
    (c.world.dir "i-1" "a-0000").fc = .paused ∧
    ∃ j k, c.proc 4 = some (j, .call ⟨"i-1", "a-0000", .begin .stop⟩ k) := by
  have hplay : ((shellOracle.play (hostJobs {} "i-1") (hostStart "i-1") (fun _ _ _ => true) [] (Conf.idle bareHosts)
      pausedThreePolls).any fun x => (x.2.world.dir "i-1" "a-0000").fc = .paused ∧
        (x.2.proc 4).any (makesNext ⟨"i-1", "a-0000", .begin .stop⟩) = true) = true := by
    decide +kernel
  obtain ⟨tr, c, hr, hfc⟩ := Oracle.exists_reach_of_play hostStart_sound (fun _ _ _ _ => trivial) hplay
  obtain ⟨hfc, hnext⟩ := of_decide_eq_true hfc
  exact ⟨tr, c, hr, hfc, proc_of_makesNext hnext⟩

end OpenClaw
