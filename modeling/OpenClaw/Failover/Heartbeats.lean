import OpenClaw.Failover.Cooldown
import OpenClaw.Fleet.Conduct
import OpenClaw.Host.Health
import OpenClaw.Lib.Moments
import OpenClaw.Lib.Plus

/-!
# Heartbeats and evacuations

The agent of each host stamps its row at every poll; the detector evacuates a zone when no host there has a recent
stamp. The agents are at work beside all programs of the control plane.

- `pulseJobs`: the programs, and the polls of the agents.
- `lastHealthCheck_step`: no program of the control plane changes a stamp without replacing the row.
- `sightProtocol`: the detector takes up tenants only of zones that its own scan shows down, or that it was told to.
- `silent_before_evacuation`: no host of an evacuated zone has had a heartbeat for the threshold.
-/

namespace OpenClaw

open Keyed Atomic

variable (cfg : Config)

/-! ## The agents -/

inductive BeatCall
  /-- `_write_host_heartbeat`, with `HOSTS_TABLE` and `INSTANCE_ID` set: the time it wrote, `none` when it failed. -/
  | beat (h : HostId)

abbrev BeatCall.Ans : BeatCall → Type
  | .beat _ => Option Time

abbrev Beat : Sig := ⟨BeatCall, BeatCall.Ans⟩

abbrev Pulse : Sig := Ctl.plus Beat

/-- `SET last_seen = :t, last_health_check = :t`. -/
def HostRow.beaten (h : HostRow) (t : Time) : HostRow :=
  { h with lastSeen := some (wholeSecond t), lastHealthCheck := some (wholeSecond t) }

/-- The clock of the host may show any time. -/
def beatStep : (c : BeatCall) → c.Ans → World → World → Prop
  | .beat _, none, w, w' => w' = w
  | .beat h, some t, w, w' => w' = w.putHost ((w.hostRow h).beaten t)

def pulsing : Sem Pulse World := ctl.plus ⟨beatStep⟩

inductive PulseJob
  | control (j : ControlJob)
  /-- The start of a poll. -/
  | poll (h : HostId)

def pulseBody : PulseJob → Prog Pulse Unit
  | .control j => (controlBody cfg j).inl
  | .poll h => .call (.inr (.beat h)) fun _ => .ret ()

def pulseJobs : Jobs Pulse World PulseJob Unit where
  body := pulseBody cfg
  start _ w w' := w' = w

/-! ## The rows -/

section Rows

variable {w w' : World}

theorem HostUpdate.apply_lastHealthCheck {u : HostUpdate} {h h' : HostRow} (hu : u.apply h = some h') :
    h'.lastHealthCheck = h.lastHealthCheck := by
  cases u
  case reserve => obtain ⟨_, _, _, _, -, -, -, -, rfl⟩ := reserve_eq_some.1 hu; rfl
  case release => obtain ⟨_, _, _, -, -, -, rfl⟩ := release_eq_some.1 hu; rfl
  case book => obtain ⟨_, _, _, -, -, -, rfl⟩ := book_eq_some.1 hu; rfl
  case addVcpu => obtain ⟨_, -, rfl⟩ := addVcpu_eq_some.1 hu; rfl
  all_goals
    obtain rfl := Option.some.inj hu
    rfl

/-- A row that keeps its stamp. -/
theorem lastHealthCheck_putHost {row : HostRow} (hk : row.lastHealthCheck = (w.hostRow row.instanceId).lastHealthCheck)
    (h : HostId) : ((w.putHost row).hostRow h).lastHealthCheck = (w.hostRow h).lastHealthCheck := by
  rw [hostRow_putHost]
  split
  · rename_i he
    rw [he, hk]
  · rfl

/-- The call puts a new row in the place of the host's, or asks to delete it. -/
def Call.replaces (h : HostId) : (c : Call) → c.Ans → Prop
  | .putHost row, r => r = true ∧ row.instanceId = h
  | .deleteHost id, _ => id = h
  | _, _ => False

/-- **A stamp stays** as long as nobody replaces the row. -/
theorem lastHealthCheck_step {c : Call} {r : c.Ans} (hs : World.step c r w w') {h : HostId} (hno : ¬ c.replaces h r) :
    (w'.hostRow h).lastHealthCheck = (w.hostRow h).lastHealthCheck := by
  have hupd : ∀ {id : HostId} {u : HostUpdate} {row : HostRow}, w.updatedHost id u = some row →
      ((w.putHost row).hostRow h).lastHealthCheck = (w.hostRow h).lastHealthCheck := by
    intro id u row hu
    refine lastHealthCheck_putHost ?_ h
    have hid : row.instanceId = id := (HostUpdate.apply_id hu).trans (World.hostRow_id w id)
    rw [hid]
    exact HostUpdate.apply_lastHealthCheck hu
  by_cases hw : c.writesHosts = false
  · unfold World.hostRow
    rw [step_hosts hw hs]
  · cases c
    case putHost row =>
      cases r with
      | false => rw [show w' = w from hs]
      | true =>
        obtain rfl : w' = w.putHost row := hs
        rw [hostRow_putHost, if_neg fun he => hno ⟨rfl, he.symm⟩]
    case deleteHost id =>
      rcases sent.eq_or hs with rfl | rfl
      · have hne : h ≠ id := fun he => hno he.symm
        unfold World.hostRow
        rw [World.eraseHost_hosts, Table.get_erase, if_neg hne]
      · rfl
    case updHost id u =>
      cases r with
      | none => rw [hs]
      | some row =>
        obtain ⟨hu, rfl⟩ := hs
        exact hupd hu
    case reserveHost id c v m =>
      cases r with
      | next n =>
        obtain ⟨row, row', hg, -, hu, -, rfl⟩ := hs
        refine @hupd id (.reserve v m) row' ?_
        rw [World.updatedHost, World.hostRow, hg]
        exact hu
      | refused => rw [hs.2]
      | failed => rw [hs]
    case raiseNext id n =>
      cases r with
      | done =>
        obtain ⟨-, rfl⟩ := hs
        refine lastHealthCheck_putHost ?_ h
        show _ = (w.hostRow (w.hostRow id).instanceId).lastHealthCheck
        rw [World.hostRow_id]
      | refused => rw [hs.2]
      | failed => rw [hs]
    case incNext id =>
      cases r with
      | none => rw [hs]
      | some old =>
        obtain ⟨-, row, hu, rfl⟩ := hs
        exact hupd hu
    all_goals exact absurd rfl hw

end Rows

/-! ## The detector -/

/-- What a detector has been told and has read. -/
structure Sight where
  force : List Az
  now : Option Time := none
  rows : Option (List HostRow) := none

/-- It takes up tenants of a zone that it was told to evacuate, or that its scan shows down. -/
def Sight.allows (g : Sight) (c : Call) : Prop :=
  ∀ az t, c.takesFrom az t → az ∈ g.force ∨ ∃ rows, g.now = some t ∧ g.rows = some rows ∧ az ∈ downAzs cfg rows t

/-- Only the first reading of the clock and the first scan count. -/
def Sight.next (g : Sight) : (c : Call) → c.Ans → Sight
  | .now, t => { g with now := g.now.or (some t) }
  | .scanHosts .all, rows => { g with rows := g.rows.or (g.now.map fun _ => rows) }
  | _, _ => g

def sightProtocol : Protocol Pulse PulseJob (Option Sight) where
  init j := match j with
    | .control (.fleet (.failover force)) => some { force := force }
    | _ => none
  allow g c := match g, c with
    | some g, .inl c => g.allows cfg c
    | _, _ => True
  sane _ _ _ := True
  next g c r := match c, r with
    | .inl c, r => g.map fun g => g.next c r
    | .inr _, _ => g

section Programs

variable {cfg} {α : Type} {force : List Az} {now : Time} {rows : List HostRow}

/-- Other programs are free. -/
theorem unseen_obeys (p : Prog Pulse α) : p.obeys (sightProtocol cfg) (fun _ _ => True) none := by
  induction p with
  | ret a => trivial
  | call c k ih =>
    refine ⟨trivial, fun r _ => ?_⟩
    cases c with
    | inl c => exact ih r
    | inr d => exact ih r

theorem gives_mono {S : Sig} {P P' : S.Call → Prop} {R : α → Prop} (h : ∀ c, P c → P' c) {p : Prog S α}
    (hp : p.Gives P R) : p.Gives P' R := by
  induction p with
  | ret a => exact hp
  | call c k ih => exact ⟨h c hp.1, fun r => ih r (hp.2 r)⟩

/-- A detector that has read both changes its sight no more. -/
theorem Sight.next_full (c : Call) (r : c.Ans) : (⟨force, some now, some rows⟩ : Sight).next c r =
    ⟨force, some now, some rows⟩ := by
  unfold Sight.next
  split <;> rfl

variable (now rows) in
theorem full_obeys {R : α → Prop} {p : CtlProg α}
    (hp : p.Gives (fun c => Sight.allows cfg ⟨force, some now, some rows⟩ c) R) :
    p.inl.obeys (sightProtocol cfg) (fun a g => R a ∧ g = some ⟨force, some now, some rows⟩)
      (some ⟨force, some now, some rows⟩) := by
  induction p with
  | ret a => exact ⟨hp, rfl⟩
  | call c k ih =>
    refine ⟨hp.1, fun r _ => ?_⟩
    have hnext : (sightProtocol cfg).next (some ⟨force, some now, some rows⟩) (.inl c) r =
        some ⟨force, some now, some rows⟩ := congrArg some (Sight.next_full c r)
    rw [hnext]
    exact ih r (hp.2 r)

/-- The work on the outages. -/
theorem handleOutages_allows {exclude : List Az}
    (hex : ∀ az, az ∈ force ∨ az ∈ downAzs cfg rows now → az ∈ exclude) (tenants : List TenantRow) (os : List Outage)
    (hos : ∀ o ∈ os, o.az ∈ force ∨ o.az ∈ downAzs cfg rows now) {hosts : List HostRow} (hc : Copies rows hosts)
    (azState : List (Az × Time)) :
    (handleOutages cfg tenants force exclude now os hosts azState).Gives
      (fun c => Sight.allows cfg ⟨force, some now, some rows⟩ c) fun _ => True := by
  induction os generalizing hosts azState with
  | nil => trivial
  | cons o os ih =>
    obtain ⟨ho, hos⟩ := List.forall_mem_cons.1 hos
    rw [handleOutages]
    split
    · exact ih hos hc azState
    · refine ⟨fun az t ht => ht.elim, fun ok => ?_⟩
      have hwork : ∀ ts, (failoverAll cfg o.az exclude now ts hosts).Gives
          (Call.worksOn o.az now (Eligible cfg force rows now))
          fun out => ∀ hosts', out = some hosts' → Copies rows hosts' := fun ts => failoverAll_worksOn hex ts hc
      refine (gives_mono (fun c hw az t ht => ?_) (hwork _)).bind fun r hr => ?_
      · obtain ⟨rfl, rfl⟩ := hw.2.2.1 az t ht
        exact ho.imp_right fun hdown => ⟨rows, rfl, rfl, hdown⟩
      · cases r with
        | none => trivial
        | some hosts' => exact ih hos (hr hosts' rfl) _

/-- **The detector** takes up tenants as its sight allows. -/
theorem azFailover_obeys (force : List Az) :
    (azFailover cfg force).inl.obeys (sightProtocol cfg) (fun _ _ => True) (some { force := force }) := by
  have hlook : ∀ {c : Call} {g : Sight}, (∀ az t, ¬ c.takesFrom az t) → (sightProtocol cfg).allow (some g) (.inl c) :=
    fun h az t ht => (h az t ht).elim
  simp only [azFailover, req_bind]
  refine ⟨hlook fun _ _ => id, fun ts _ => ⟨hlook fun _ _ => id, fun now _ => ?_⟩⟩
  simp only [checkAndHandleAzFailover, req_bind]
  refine ⟨hlook fun _ _ => id, fun rows _ => ?_⟩
  refine Prog.obeys_mono (fun _ _ _ => trivial) (full_obeys now rows (R := fun _ => True) ?_)
  beta_reduce
  split
  · trivial
  refine ⟨fun az t ht => ht.elim, fun state => ?_⟩
  split
  · trivial
  refine handleOutages_allows (fun az haz => ?_) ts _ (fun o ho => ?_)
    (fun m hm => ⟨m, List.mem_of_mem_filter hm, rfl, rfl, rfl, rfl, rfl⟩) _
  · rcases haz with haz | haz
    · exact List.mem_append_right _ haz
    · refine List.mem_append_left _ ?_
      rw [List.map_append]
      exact List.mem_append_left _ haz
  · rcases List.mem_append.1 ho with ho | ho
    · exact .inr (List.mem_map_of_mem ho)
    · obtain ⟨az, haz, rfl⟩ := List.mem_map.1 ho
      exact .inl (List.mem_of_mem_filter haz)

theorem pulseBody_obeys (j : PulseJob) :
    (pulseBody cfg j).obeys (sightProtocol cfg) (fun _ _ => True) ((sightProtocol cfg).init j) := by
  by_cases hj : ∃ force, j = .control (.fleet (.failover force))
  · obtain ⟨force, rfl⟩ := hj
    exact azFailover_obeys force
  · have hnone : (sightProtocol cfg).init j = none := by
      unfold sightProtocol
      simp only
      split
      · exact absurd ⟨_, rfl⟩ hj
      · rfl
    rw [hnone]
    exact unseen_obeys _

end Programs

/-! ## Runs -/

section Runs

variable {ι : Type}

/-- The row of the host is stamped, at the time `t` of its clock. -/
def BeatAt (h : HostId) (t : Time) (e : Ev Pulse PulseJob ι) : Prop := ∃ i, e = .call i (.inr (.beat h)) (some t)

/-- The row of the host is replaced. -/
def ReplacedAt (h : HostId) (e : Ev Pulse PulseJob ι) : Prop :=
  ∃ (i : ι) (c : Call) (r : c.Ans), e = .call i (.inl c) r ∧ c.replaces h r

/-- The last heartbeat of the host, in the row it has now. -/
def LastBeat (tr : List (Ev Pulse PulseJob ι)) (h : HostId) (t : Time) : Prop :=
  ∃ a b e, tr = a ++ e :: b ∧ BeatAt h t e ∧ ∀ e' ∈ b, ¬ ReplacedAt h e' ∧ ∀ t', ¬ BeatAt h t' e'

variable {cfg} {tr : List (Ev Pulse PulseJob ι)} {e : Ev Pulse PulseJob ι} {i : ι} {w w' : World} {h : HostId}
  {t : Time}

theorem lastBeat_snoc (hl : LastBeat (tr ++ [e]) h t) :
    BeatAt h t e ∨ (LastBeat tr h t ∧ ¬ ReplacedAt h e ∧ ∀ t', ¬ BeatAt h t' e) := by
  obtain ⟨a, b, e', he, hb, hafter⟩ := hl
  rcases snoc_eq_cut he with ⟨-, -, rfl⟩ | ⟨b', rfl, rfl⟩
  · exact .inl hb
  · have hlast := hafter e (List.mem_append_right _ (List.mem_singleton_self _))
    exact .inr ⟨⟨a, b', e', rfl, hb, fun x hx => hafter x (List.mem_append_left _ hx)⟩, hlast⟩

/-- The rows say when the last heartbeat was. -/
def Stamped (tr : List (Ev Pulse PulseJob ι)) (w : World) : Prop :=
  ∀ h t, LastBeat tr h t → (w.hostRow h).lastHealthCheck = some (wholeSecond t)

theorem Stamped.start {j : PulseJob} (hI : Stamped tr w) : Stamped (tr ++ [.start i j]) w := by
  intro h t hl
  rcases lastBeat_snoc hl with ⟨_, he⟩ | ⟨hl, -⟩
  · cases he
  · exact hI h t hl

theorem Stamped.call {c : Pulse.Call} {r : Pulse.Ans c} (hI : Stamped tr w) (hs : pulsing.step c r w w') :
    Stamped (tr ++ [.call i c r]) w' := by
  intro h t hl
  cases c with
  | inl c =>
    rcases lastBeat_snoc hl with ⟨_, he⟩ | ⟨hl, hno, -⟩
    · cases he
    · rw [lastHealthCheck_step hs fun hr => hno ⟨i, c, r, rfl, hr⟩]
      exact hI h t hl
  | inr d =>
    obtain ⟨id⟩ := d
    rcases lastBeat_snoc hl with ⟨_, he⟩ | ⟨hlast, -, hno⟩
    · cases he
      obtain rfl : w' = w.putHost ((w.hostRow h).beaten t) := hs
      have hid : ((w.hostRow h).beaten t).instanceId = h := World.hostRow_id w h
      rw [hostRow_putHost, if_pos hid.symm]
      rfl
    · cases r with
      | none =>
        obtain rfl : w' = w := hs
        exact hI h t hlast
      | some t' =>
        obtain rfl : w' = w.putHost ((w.hostRow id).beaten t') := hs
        have hid : ((w.hostRow id).beaten t').instanceId = id := World.hostRow_id w id
        have hne : h ≠ id := by
          rintro rfl
          exact hno t' ⟨i, rfl⟩
        rw [hostRow_putHost, if_neg (by rwa [hid])]
        exact hI h t hlast

/-- The sight of a detector is what the run says. -/
structure Sight.Of (g : Sight) (tr : List (Ev Pulse PulseJob ι)) (i : ι) : Prop where
  now : ∀ t, g.now = some t → .call i (.inl .now) t ∈ tr
  rows : ∀ rows, g.rows = some rows → ∃ a b t, tr = a ++ .call i (.inl (.scanHosts .all)) rows :: b ∧ g.now = some t ∧
    .call i (.inl .now) t ∈ a ∧
      ∀ row ∈ rows, ∀ t', LastBeat a row.instanceId t' → row.lastHealthCheck = some (wholeSecond t')

theorem Sight.Of.snoc {g : Sight} (hg : g.Of tr i) : g.Of (tr ++ [e]) i := by
  refine ⟨fun t ht => List.mem_append_left _ (hg.now t ht), fun rows hr => ?_⟩
  obtain ⟨a, b, t, rfl, ht, hm, hrows⟩ := hg.rows rows hr
  exact ⟨a, b ++ [e], t, by simp, ht, hm, hrows⟩

theorem hostRow_of_mem {row : HostRow} (hm : row ∈ w.hosts.rows) : w.hostRow row.instanceId = row := by
  unfold World.hostRow
  rw [Table.get_of_mem hm]
  rfl

theorem Sight.Of.next {g : Sight} (hg : g.Of tr i) (hI : Stamped tr w) {c : Call} {r : c.Ans}
    (hs : World.step c r w w') : (g.next c r).Of (tr ++ [.call i (.inl c) r]) i := by
  have hkeep : g.Of (tr ++ [.call i (.inl c) r]) i := hg.snoc
  cases c <;> first | exact hkeep | skip
  case now =>
    have hnow : ∀ t, (g.next .now r).now = some t → g.now = some t ∨ (g.now = none ∧ r = t) := by
      intro t ht
      cases hg' : g.now with
      | none =>
        simp only [Sight.next, hg', Option.none_or] at ht
        exact .inr ⟨rfl, Option.some.inj ht⟩
      | some t' =>
        simp only [Sight.next, hg', Option.some_or] at ht
        exact .inl ht
    refine ⟨fun t ht => ?_, fun rows hr => ?_⟩
    · rcases hnow t ht with ht | ⟨-, rfl⟩
      · exact hkeep.now t ht
      · exact List.mem_append_right _ (List.mem_singleton_self _)
    · obtain ⟨a, b, t, he, ht, hrest⟩ := hkeep.rows rows hr
      refine ⟨a, b, t, he, ?_, hrest⟩
      simp [Sight.next, ht]
  case scanHosts f =>
    cases f <;> first | exact hkeep | skip
    refine ⟨hkeep.now, fun rows hr => ?_⟩
    cases hrows : g.rows with
    | some rows' =>
      simp only [Sight.next, hrows, Option.some_or] at hr
      exact hkeep.rows rows (hrows.trans hr)
    | none =>
      simp only [Sight.next, hrows, Option.none_or, Option.map_eq_some_iff] at hr
      obtain ⟨t, ht, rfl⟩ := hr
      refine ⟨tr, [], t, rfl, ht, hg.now t ht, fun row hm t' hl => ?_⟩
      rw [← hI _ _ hl, hostRow_of_mem (List.mem_filter.1 (hs.1.mem_iff.1 hm)).1]

/-- The invariant of runs. -/
structure PulseInv (tr : List (Ev Pulse PulseJob ι)) (w : World) (loc : ι → Option (Option Sight)) : Prop where
  stamped : Stamped tr w
  told : ∀ i force, .start i (.control (.fleet (.failover force))) ∈ tr → ∃ g, loc i = some (some g) ∧ g.force = force
  sights : ∀ i g, loc i = some (some g) → g.Of tr i

variable [DecidableEq ι] {w₀ : World} {cf : Conf Pulse World PulseJob ι Unit}

theorem PulseInv.start {j : PulseJob} (hI : PulseInv tr w ((sightProtocol cfg).locs tr))
    (hn : (sightProtocol cfg).locs tr i = none) :
    PulseInv (tr ++ [.start i j]) w ((sightProtocol cfg).locs (tr ++ [.start i j])) := by
  rw [Protocol.locs_snoc, Protocol.stepLoc]
  refine ⟨hI.stamped.start, fun k force hk => ?_, fun k g hl => ?_⟩
  · rcases List.mem_append.1 hk with hk | hk
    · obtain ⟨g, hg, hf⟩ := hI.told k force hk
      refine ⟨g, ?_, hf⟩
      rw [Function.update_of_ne, hg]
      rintro rfl
      simp [hn] at hg
    · cases List.mem_singleton.1 hk
      rw [Function.update_self]
      exact ⟨_, rfl, rfl⟩
  · by_cases e : k = i
    · subst e
      rw [Function.update_self] at hl
      have hnew : g.now = none ∧ g.rows = none := by
        have hinit := Option.some.inj hl
        unfold sightProtocol at hinit
        simp only at hinit
        split at hinit
        · cases hinit
          exact ⟨rfl, rfl⟩
        · cases hinit
      refine ⟨fun t ht => ?_, fun rows hr => ?_⟩
      · rw [hnew.1] at ht
        cases ht
      · rw [hnew.2] at hr
        cases hr
    · rw [Function.update_of_ne e] at hl
      exact (hI.sights k g hl).snoc

theorem PulseInv.call {c : Pulse.Call} {r : Pulse.Ans c} {g : Option Sight}
    (hI : PulseInv tr w ((sightProtocol cfg).locs tr)) (hl : (sightProtocol cfg).locs tr i = some g)
    (hs : pulsing.step c r w w') :
    PulseInv (tr ++ [.call i c r]) w' ((sightProtocol cfg).locs (tr ++ [.call i c r])) := by
  have hforce : ∀ (p : Sight) (c : Call) (r : c.Ans), (p.next c r).force = p.force := by
    intro p c r
    unfold Sight.next
    split <;> rfl
  refine ⟨hI.stamped.call hs, fun k force hk => ?_, fun k p hk => ?_⟩
  · rcases List.mem_append.1 hk with hk | hk
    · obtain ⟨p, hp, hf⟩ := hI.told k force hk
      rw [Protocol.locs_snoc, Protocol.stepLoc]
      by_cases e : k = i
      · subst e
        rw [Function.update_self, hp, Option.map_some]
        cases c with
        | inl c => exact ⟨_, rfl, (hforce p c r).trans hf⟩
        | inr d => exact ⟨p, rfl, hf⟩
      · rw [Function.update_of_ne e]
        exact ⟨p, hp, hf⟩
    · cases List.mem_singleton.1 hk
  · rw [Protocol.locs_snoc, Protocol.stepLoc] at hk
    by_cases e : k = i
    · subst e
      rw [Function.update_self, hl, Option.map_some] at hk
      cases c with
      | inl c =>
        obtain ⟨p₀, rfl, rfl⟩ := Option.map_eq_some_iff.1 (Option.some.inj hk)
        exact (hI.sights k p₀ hl).next hI.stamped hs
      | inr d =>
        obtain rfl : g = some p := Option.some.inj hk
        exact (hI.sights k p hl).snoc
    · rw [Function.update_of_ne e] at hk
      exact (hI.sights k p hk).snoc

/-- The invariant holds of every run. -/
theorem pulseInv (h : Reach pulsing (pulseJobs cfg) anyStep (Conf.idle w₀) tr cf) :
    PulseInv tr cf.world ((sightProtocol cfg).locs tr) ∧
      (∀ i, cf.proc i = none → (sightProtocol cfg).locs tr i = none) ∧ ∀ i j p, cf.proc i = some (j, p) →
        ∃ g, (sightProtocol cfg).locs tr i = some g ∧ p.obeys (sightProtocol cfg) (fun _ _ => True) g := by
  refine Reach.protocol (I := fun tr w => PulseInv tr w ((sightProtocol cfg).locs tr)) pulseBody_obeys ?_
    (fun tr w i j w' hI hn _ hb => ?_) (fun tr w i g c r w' hI hl _ _ hs => ⟨trivial, hI.call hl hs⟩) h
  · refine ⟨fun h t hl => ?_, fun i force hm => absurd hm List.not_mem_nil, fun i g hl => by cases hl⟩
    obtain ⟨a, b, e, he, -⟩ := hl
    simp at he
  · obtain rfl : w' = w := hb
    exact hI.start hn

/-- A zone that is down: it has hosts, and none of them has been stamped for the threshold. -/
theorem down_silent {rows : List HostRow} {az : Az} (hd : az ∈ downAzs cfg rows t) :
    (∃ row ∈ rows, row.az = some az ∧ row.status ≠ some .deleted) ∧
      ∀ row ∈ rows, row.az = some az → row.status ≠ some .deleted → ∀ last, row.lastHealthCheck = some last →
        minutes cfg.azUnhealthyThresholdMinutes ≤ t - last := by
  obtain ⟨o, ho, rfl⟩ := List.mem_map.1 hd
  obtain ⟨az, haz, ho⟩ := List.mem_filterMap.1 ho
  obtain ⟨hall, ho⟩ := Option.ite_none_right_eq_some.1 ho
  obtain rfl := Option.some.inj ho
  obtain ⟨row, hm, hrow⟩ := List.mem_filterMap.1 (List.mem_of_mem_filter (List.mem_eraseDups.1 haz))
  refine ⟨⟨row, List.mem_of_mem_filter hm, hrow, by simpa using (List.mem_filter.1 hm).2⟩,
    fun row hm haz hst last hlast => ?_⟩
  have hin : row ∈ hostsOfAz (rows.filter fun h => h.status ≠ some .deleted) az :=
    List.mem_filter.2 ⟨List.mem_filter.2 ⟨hm, by simpa using hst⟩, by simpa using haz⟩
  have hbad := List.all_eq_true.1 hall row hin
  unfold isHostUnhealthy at hbad
  rw [if_neg hst, hlast, Option.some_or] at hbad
  exact of_decide_eq_true hbad

/-- **Only silent zones are evacuated.** In every run of the programs and the polls of the agents, a detector that takes
up a tenant of a zone it was not told to evacuate has read its clock and then, in one scan, found hosts of the zone; and
no heartbeat of any of these hosts, up to that scan and in the row it had then, is younger than the threshold. -/
theorem silent_before_evacuation (h : Reach pulsing (pulseJobs cfg) anyStep (Conf.idle w₀) tr cf)
    {a b : List (Ev Pulse PulseJob ι)} {c : Call} {r : c.Ans} (ht : tr = a ++ .call i (.inl c) r :: b) {force : List Az}
    (hs : .start i (.control (.fleet (.failover force))) ∈ a) {az : Az} (hc : c.takesFrom az t) (haz : az ∉ force) :
    ∃ a' b', ∃ rows : List HostRow, a = a' ++ .call i (.inl (.scanHosts .all)) rows :: b' ∧
      .call i (.inl .now) t ∈ a' ∧ (∃ row ∈ rows, row.az = some az ∧ row.status ≠ some .deleted) ∧
      ∀ row ∈ rows, row.az = some az → row.status ≠ some .deleted → ∀ t', LastBeat a' row.instanceId t' →
        minutes cfg.azUnhealthyThresholdMinutes ≤ t - wholeSecond t' := by
  obtain ⟨w, g, -, hI, hl, ha, -⟩ := Reach.protocol_at (π := sightProtocol cfg)
    (I := fun tr w => PulseInv tr w ((sightProtocol cfg).locs tr)) (fun _ _ => pulseInv) h ht
  obtain ⟨p, hp, rfl⟩ := hI.told i force hs
  obtain rfl := Option.some.inj (hl.symm.trans hp)
  rcases ha az t hc with hforce | ⟨rows, hnow, hrows, hdown⟩
  · exact absurd hforce haz
  · obtain ⟨a', b', t', he, ht', hm, hstamps⟩ := (hI.sights i p hp).rows rows hrows
    obtain rfl := Option.some.inj (ht'.symm.trans hnow)
    obtain ⟨hsome, hall⟩ := down_silent hdown
    exact ⟨a', b', rows, he, hm, hsome, fun row hr hz hst t' hl => hall row hr hz hst _ (hstamps row hr t' hl)⟩

end Runs

/-! ## A zone that falls silent -/

section Examples

/-- A heartbeat at the time of the hint. -/
def pulseOracle : Oracle pulsing Hint := ctlOracle.plus
  { exec := fun d h w =>
      match d with
      | .beat host => if h.ok then some (some h.time, w.putHost ((w.hostRow host).beaten h.time)) else some (none, w)
    sound := fun {d} h w r w' he => by
      obtain ⟨host⟩ := d
      dsimp only at he
      split at he
      · cases he
        rfl
      · cases he
        rfl }

/-- The first host reports once, the second half an hour later; then the detector is called. -/
def silentMoves : List (Move PulseJob ℕ Hint) :=
  [.start 0 (.poll "i-1"), .call 0 {}, .start 1 (.poll "i-2"), .call 1 { time := minutes 30 },
    .start 2 (.control (.fleet (.failover [])))] ++ List.replicate 9 (.call 2 { time := minutes 30 })

def detectorStarts : Ev Pulse PulseJob ℕ → Bool
  | .start k (.control (.fleet (.failover force))) => k = 2 && force = []
  | _ => false

def claimsNow : Ev Pulse PulseJob ℕ → Bool
  | .call k (.inl (.condTenant _ _ (.failoverClaim _ _ az t))) _ => k = 2 && az = "az-1" && t = minutes 30
  | _ => false

theorem detectorStarts_sound {e : Ev Pulse PulseJob ℕ} (h : detectorStarts e = true) :
    e = .start 2 (.control (.fleet (.failover []))) := by
  unfold detectorStarts at h
  split at h
  · simp only [Bool.and_eq_true, decide_eq_true_eq] at h
    obtain ⟨rfl, rfl⟩ := h
    rfl
  · cases h

theorem claimsNow_sound {e : Ev Pulse PulseJob ℕ} (h : claimsNow e = true) :
    ∃ (c : Call) (r : c.Ans), e = .call 2 (.inl c) r ∧ c.takesFrom "az-1" (minutes 30) := by
  unfold claimsNow at h
  split at h
  · simp only [Bool.and_eq_true, decide_eq_true_eq] at h
    obtain ⟨⟨rfl, rfl⟩, rfl⟩ := h
    exact ⟨_, _, rfl, rfl, rfl⟩
  · cases h

/-- Its zone is evacuated. -/
theorem silent_before_evacuation_once : ∃ (tr a b : List (Ev Pulse PulseJob ℕ)) (cf : Conf Pulse World PulseJob ℕ Unit)
    (c : Call) (r : c.Ans), Reach pulsing (pulseJobs outageConfig) anyStep (Conf.idle outageWorld) tr cf ∧
    tr = a ++ .call 2 (.inl c) r :: b ∧ c.takesFrom "az-1" (minutes 30) ∧
    ∃ a' b', ∃ rows : List HostRow, a = a' ++ .call 2 (.inl (.scanHosts .all)) rows :: b' ∧
      .call 2 (.inl .now) (minutes 30) ∈ a' ∧ (∃ row ∈ rows, row.az = some "az-1" ∧ row.status ≠ some .deleted) ∧
      ∀ row ∈ rows, row.az = some "az-1" → row.status ≠ some .deleted → ∀ t', LastBeat a' row.instanceId t' →
        minutes outageConfig.azUnhealthyThresholdMinutes ≤ minutes 30 - wholeSecond t' := by
  have hplay : ((pulseOracle.play (pulseJobs outageConfig) (fun _ w => some w) (fun _ _ _ => true) []
      (Conf.idle outageWorld) silentMoves).any fun x =>
        (x.1.take 5).any detectorStarts && (x.1.drop 5).any claimsNow) = true := by
    decide +kernel
  obtain ⟨tr, cf, hr, hp⟩ := Oracle.exists_reach_of_play (fun _ _ _ h => (Option.some.inj h).symm)
    (fun _ _ _ _ => trivial) hplay
  obtain ⟨hstart, hclaim⟩ := Bool.and_eq_true_iff.1 hp
  obtain ⟨e₁, hm₁, he₁⟩ := List.any_eq_true.1 hstart
  obtain ⟨e₂, hm₂, he₂⟩ := List.any_eq_true.1 hclaim
  obtain rfl := detectorStarts_sound he₁
  obtain ⟨c, r, rfl, hc⟩ := claimsNow_sound he₂
  obtain ⟨a, b, hab⟩ := List.append_of_mem hm₂
  have ht : tr = (tr.take 5 ++ a) ++ .call 2 (.inl c) r :: b := by
    rw [List.append_assoc, ← hab, List.take_append_drop]
  exact ⟨tr, _, b, cf, c, r, hr, ht, hc,
    silent_before_evacuation hr ht (List.mem_append_left _ hm₁) hc List.not_mem_nil⟩

end Examples

end OpenClaw
