import OpenClaw.Control.Execute
import OpenClaw.Control.Frame
import OpenClaw.Control.Log
import OpenClaw.Lib.Cooldown
import OpenClaw.Lib.Sequence

/-!
# The cooldown of a zone

Invocations of the detector run one after the other, each to its end or until it is killed, while everything else in the
fleet goes on around their calls (`Elsewhere`, `detectorSem`). Only the detector writes the record with the stamps.

- `actions`: the zones an invocation acted on, in order, as its writes of the record show them.
- `Eligible`: the hosts a tenant may be moved to.
- `detected`: what one invocation does, wherever it ends.
- `az_cooldown`: over any sequence of invocations.
-/

namespace OpenClaw

open Keyed Atomic Cooldown

variable (cfg : Config)

/-! ## Invocations -/

/-- The stamps in the table. -/
def stampMap (w : World) : Az → Option Time := fun az => ((w.hostRow azStateId).azLastFailover).lookup az

/-- What goes on elsewhere leaves the stamps alone and does not turn the clock back. -/
def Elsewhere (w w' : World) : Prop := stampMap w' = stampMap w ∧ w.clock ≤ w'.clock

/-- The write of the record goes through. -/
def Call.stamped (c : Call) (r : c.Ans) : Bool :=
  match c, r with
  | .putHost _, r => r
  | _, _ => true

/-- The calls of the detector, with anything elsewhere after each. -/
def detectorSem : Sem Ctl World :=
  ⟨fun c r w w' => c.stamped r = true ∧ ∃ u, World.step c r w u ∧ Elsewhere u w'⟩

/-- An invocation: the zones it was told to fail over, and its calls. -/
structure Invocation where
  force : List Az
  log : CallLog

/-- Invocations one after the other. -/
inductive Detections : World → List Invocation → World → Prop
  | nil (w : World) : Detections w [] w
  | cons {w w₁ w₂ w' : World} {force : List Az} {l : CallLog} {is : List Invocation} : Elsewhere w w₁ →
      (azFailover cfg force).Stops detectorSem w₁ l w₂ → Detections w₂ is w' → Detections w (⟨force, l⟩ :: is) w'

/-- The record after the zone was stamped. -/
def stampedRecord (azState : List (Az × Time)) (az : Az) (now : Time) : HostRow :=
  { instanceId := azStateId, azLastFailover := (az, now) :: azState.filter fun e => e.1 ≠ az }

/-- A write of the record stamps the zone at its head. -/
def actionOf (force : List Az) (c : Call) : Option (Act Az) :=
  match c with
  | .putHost h => if h.instanceId = azStateId then h.azLastFailover.head?.map fun e => ⟨e.1, e.2, force.contains e.1⟩ else none
  | _ => none

/-- The zones that were acted on. -/
def actions (force : List Az) (l : CallLog) : List (Act Az) := l.filterMap fun x => actionOf force x.1

def allActions (is : List Invocation) : List (Act Az) := is.flatMap fun i => actions i.force i.log

/-- The call takes up a tenant of the zone. -/
def Call.takesFrom (az : Az) (t : Time) : Call → Prop
  | .condTenant _ _ (.failoverClaim _ _ a t') => a = az ∧ t' = t
  | .sqsSend job => job.sourceAz = az ∧ job.queuedAt = t
  | _ => False

/-- The call books, launches on, or flips to the host. -/
def Call.movesTo (id : HostId) : Call → Prop
  | .sqsSend job => job.targetHostId = id
  | .incNext h | .updHost h _ | .raiseNext h _ => h = id
  | .ssmSend (some h) (.launchVm _ _ _ _ _ _ _) => h = id
  | .updTenant _ (.failedOver h _ _) => h = id
  | _ => False

/-- The zones in which every host was found unhealthy. -/
def downAzs (scanned : List HostRow) (now : Time) : List Az :=
  (detectUnhealthyAzs (scanned.filter fun h => h.status ≠ some .deleted) now cfg.azUnhealthyThresholdMinutes).map Outage.az

/-- A scanned row of the host is healthy, not deleted, and in no zone that is down or forced. -/
def Eligible (force : List Az) (scanned : List HostRow) (now : Time) (id : HostId) : Prop :=
  ∃ h ∈ scanned, h.instanceId = id ∧ isHostUnhealthy h now cfg.azUnhealthyThresholdMinutes = false ∧
    h.status ≠ some .deleted ∧ ∀ az, h.az = some az → az ∉ force ∧ az ∉ downAzs cfg scanned now

/-- The invocation read this time and these hosts. -/
def Invocation.reads (i : Invocation) (now : Time) (scanned : List HostRow) : Prop :=
  ∃ ts rest, i.log = ⟨.scanTenants (.status .running), ts⟩ :: ⟨.now, now⟩ :: ⟨.scanHosts .all, scanned⟩ :: rest

section Actions

variable {force : List Az} {l l' : CallLog}

theorem actions_append : actions force (l ++ l') = actions force l ++ actions force l' := List.filterMap_append

theorem actions_cons (x : Answered Ctl) : actions force (x :: l) = (actionOf force x.1).toList ++ actions force l := by
  rw [actions, List.filterMap_cons]
  cases actionOf force x.1 <;> rfl

end Actions

/-! ## The record -/

section Stamps

variable {w w' : World}

/-- The map after the write for a zone. -/
theorem lookup_stamped (azs : List (Az × Time)) (az : Az) (now : Time) (forced : Bool) :
    (fun a => ((az, now) :: azs.filter fun e => e.1 ≠ az).lookup a) =
      stamp (fun a => azs.lookup a) ⟨az, now, forced⟩ := by
  funext a
  rw [stamp]
  by_cases h : a = az
  · subst h
    rw [Function.update_self, List.lookup_cons_self]
  · rw [Function.update_of_ne h, List.lookup_cons, beq_false_of_ne h]
    show (azs.filter fun e => e.1 ≠ az).lookup a = azs.lookup a
    induction azs with
    | nil => rfl
    | cons e azs ih =>
      by_cases he : e.1 = az
      · rw [List.filter_cons_of_neg (by simpa using he), ih]
        obtain ⟨k, t⟩ := e
        obtain rfl : k = az := he
        rw [List.lookup_cons, beq_false_of_ne h]
      · rw [List.filter_cons_of_pos (by simpa using he), List.lookup_cons, List.lookup_cons, ih]

theorem hostRow_putHost (w : World) (h : HostRow) (id : HostId) :
    (w.putHost h).hostRow id = if id = h.instanceId then h else w.hostRow id := by
  unfold World.hostRow
  rw [World.putHost_hosts]
  split
  · rename_i he
    subst he
    rw [Table.get_put_self]
    rfl
  · rename_i he
    rw [Table.get_put_ne _ he]

theorem HostUpdate.apply_azLastFailover {u : HostUpdate} {h h' : HostRow} (hu : u.apply h = some h') :
    h'.azLastFailover = h.azLastFailover := by
  cases u
  case reserve => obtain ⟨_, _, _, _, -, -, -, -, rfl⟩ := reserve_eq_some.1 hu; rfl
  case release => obtain ⟨_, _, _, -, -, -, rfl⟩ := release_eq_some.1 hu; rfl
  case book => obtain ⟨_, _, _, -, -, -, rfl⟩ := book_eq_some.1 hu; rfl
  case addVcpu => obtain ⟨_, -, rfl⟩ := addVcpu_eq_some.1 hu; rfl
  all_goals
    obtain rfl := Option.some.inj hu
    rfl

/-- A row that keeps its stamps. -/
theorem stampMap_putHost {h : HostRow} (hk : h.azLastFailover = (w.hostRow h.instanceId).azLastFailover) :
    stampMap (w.putHost h) = stampMap w := by
  unfold stampMap
  rw [hostRow_putHost]
  split
  · rename_i he
    rw [he, hk]
  · rfl

/-- Only whole rows change the stamps. -/
theorem stampMap_step {c : Call} {r : c.Ans} (hc : (∀ h, c ≠ .putHost h) ∧ ∀ id, c ≠ .deleteHost id)
    (hs : World.step c r w w') : stampMap w' = stampMap w := by
  have hupd : ∀ {id : HostId} {u : HostUpdate} {h : HostRow}, w.updatedHost id u = some h →
      stampMap (w.putHost h) = stampMap w := by
    intro id u h hu
    refine stampMap_putHost ?_
    have hid : h.instanceId = id := (HostUpdate.apply_id hu).trans (World.hostRow_id w id)
    rw [hid]
    exact HostUpdate.apply_azLastFailover hu
  by_cases hw : c.writesHosts = false
  · unfold stampMap World.hostRow
    rw [step_hosts hw hs]
  · cases c
    case putHost h => exact absurd rfl (hc.1 h)
    case deleteHost id => exact absurd rfl (hc.2 id)
    case updHost id u =>
      cases r with
      | none => rw [hs]
      | some h =>
        obtain ⟨hu, rfl⟩ := hs
        exact hupd hu
    case reserveHost id c v m =>
      cases r with
      | next n =>
        obtain ⟨h, h', hg, -, hu, -, rfl⟩ := hs
        refine @hupd id (.reserve v m) h' ?_
        rw [World.updatedHost, World.hostRow, hg]
        exact hu
      | refused => rw [hs.2]
      | failed => rw [hs]
    case raiseNext id n =>
      cases r with
      | done =>
        obtain ⟨-, rfl⟩ := hs
        refine stampMap_putHost ?_
        show _ = (w.hostRow (w.hostRow id).instanceId).azLastFailover
        rw [World.hostRow_id]
      | refused => rw [hs.2]
      | failed => rw [hs]
    case incNext id =>
      cases r with
      | none => rw [hs]
      | some old =>
        obtain ⟨-, h, hu, rfl⟩ := hs
        exact hupd hu
    all_goals exact absurd rfl hw

end Stamps

/-! ## Targets -/

/-- Rows in memory, with the tallies of the detector, are copies of scanned rows. -/
def Copies (scanned hosts : List HostRow) : Prop :=
  ∀ m ∈ hosts, ∃ h ∈ scanned, m.instanceId = h.instanceId ∧ m.az = h.az ∧ m.status = h.status ∧
    m.lastHealthCheck = h.lastHealthCheck ∧ m.lastSeen = h.lastSeen

section Targets

variable {cfg} {scanned hosts : List HostRow} {force exclude : List Az} {now : Time}

theorem Copies.tally {id : HostId} {f : HostRow → HostRow} (h : Copies scanned hosts)
    (hf : ∀ m, (f m).instanceId = m.instanceId ∧ (f m).az = m.az ∧ (f m).status = m.status ∧
      (f m).lastHealthCheck = m.lastHealthCheck ∧ (f m).lastSeen = m.lastSeen) : Copies scanned (tally hosts id f) := by
  intro m hm
  obtain ⟨m₀, hm₀, rfl⟩ := List.mem_map.1 hm
  obtain ⟨x, hx, hid, haz, hst, hlast, hseen⟩ := h m₀ hm₀
  refine ⟨x, hx, ?_⟩
  split
  · obtain ⟨h₁, h₂, h₃, h₄, h₅⟩ := hf m₀
    exact ⟨h₁.trans hid, h₂.trans haz, h₃.trans hst, h₄.trans hlast, h₅.trans hseen⟩
  · exact ⟨hid, haz, hst, hlast, hseen⟩

/-- **The target is eligible**, when every down or forced zone is excluded. -/
theorem pickTargetHost_eligible {v m : Int} {target : HostRow} (hc : Copies scanned hosts)
    (hex : ∀ az, az ∈ force ∨ az ∈ downAzs cfg scanned now → az ∈ exclude)
    (h : pickTargetHost cfg hosts now exclude v m = some target) :
    Eligible cfg force scanned now target.instanceId := by
  have hmem := List.mem_of_mem_head? h
  rw [mem_rankHosts, List.mem_filter] at hmem
  obtain ⟨⟨hmem, hok⟩, -⟩ := hmem
  simp only [Bool.and_eq_true, Bool.not_eq_true', decide_eq_true_eq] at hok
  obtain ⟨⟨haz, hhealth⟩, hst⟩ := hok
  obtain ⟨x, hx, hid, hxaz, hxst, hlast, hseen⟩ := hc target hmem
  refine ⟨x, hx, hid.symm, ?_, hxst ▸ hst, fun az hxa => ?_⟩
  · rw [← hhealth]
    unfold isHostUnhealthy
    rw [hxst, hlast, hseen]
  · have hout : az ∉ exclude := by
      rw [hxaz, hxa] at haz
      simpa using haz
    exact ⟨fun hf => hout (hex az (.inl hf)), fun hd => hout (hex az (.inr hd))⟩

end Targets

/-! ## The calls for one zone -/

/-- Calls that leave the record alone, take up tenants of the zone only, and move them to good hosts only. -/
def Call.worksOn (az : Az) (now : Time) (good : HostId → Prop) (c : Call) : Prop :=
  (∀ h, c ≠ .putHost h) ∧ (∀ id, c ≠ .deleteHost id) ∧ (∀ a t, c.takesFrom a t → a = az ∧ t = now) ∧
    ∀ id, c.movesTo id → good id

section Work

variable {az : Az} {now : Time} {good : HostId → Prop}

theorem Call.worksOn_of {c : Call} (hw : c.writesHosts = false) (ht : ∀ a t, ¬ c.takesFrom a t)
    (hm : ∀ id, ¬ c.movesTo id) : c.worksOn az now good := by
  refine ⟨?_, ?_, fun a t h => absurd h (ht a t), fun id h => absurd h (hm id)⟩
  · rintro h rfl
    cases hw
  · rintro id rfl
    cases hw

theorem Call.routes.worksOn {c : Call} (h : c.routes) : c.worksOn az now good := by
  cases c <;> first | exact Call.worksOn_of rfl (fun _ _ => id) fun _ => id | exact h.elim

theorem failoverFailed_worksOn (tid : TenantId) (e : FailoverError) :
    (failoverFailed tid e).All (Call.worksOn az now good) :=
  ⟨Call.worksOn_of rfl (fun _ _ => id) fun _ => id, fun _ => trivial⟩

theorem failoverFlip_worksOn (t : TenantRow) {target : HostRow} (hgood : good target.instanceId) (backup : String)
    (n v m : Int) : (failoverFlip t target backup n v m).All (Call.worksOn az now good) := by
  have hto : ∀ {c : Call}, (∀ h, c ≠ .putHost h) → (∀ id, c ≠ .deleteHost id) → (∀ a t, ¬ c.takesFrom a t) →
      (∀ id, c.movesTo id → target.instanceId = id) → c.worksOn az now good := by
    intro c h₁ h₂ h₃ h₄
    exact ⟨h₁, h₂, fun a t h => absurd h (h₃ a t), fun id h => h₄ id h ▸ hgood⟩
  refine ⟨hto (by simp) (by simp) (fun _ _ => id) fun _ => id, fun ok => ?_⟩
  cases ok with
  | false => exact failoverFailed_worksOn _ _
  | true =>
    refine ⟨hto (by simp) (by simp) (fun _ _ => id) fun _ => id, fun _ => ?_⟩
    exact ⟨hto (by simp) (by simp) (fun _ _ => id) fun _ => id, fun _ => trivial⟩

theorem failoverVerify_worksOn (t : TenantRow) {target : HostRow} (hgood : good target.instanceId) (backup : String)
    (n v m : Int) : (failoverVerify cfg t target backup n v m).All (Call.worksOn az now good) := by
  have hflip : (failoverFlip t target backup n v m).All (Call.worksOn az now good) := failoverFlip_worksOn t hgood ..
  have hconf : ∀ src, (Call.ssmSend (some src) (.removeTenantConf t.id)).worksOn az now good :=
    fun _ => Call.worksOn_of rfl (fun _ _ => id) fun _ => id
  simp only [failoverVerify, req_bind]
  split
  · refine ⟨Call.worksOn_of rfl (fun _ _ => id) fun _ => id, fun ok => ?_⟩
    cases ok with
    | true =>
      simp only [if_true]
      split
      · exact hflip
      · exact ⟨hconf _, fun _ => hflip⟩
    | false => exact failoverFailed_worksOn _ _
  · split
    · exact hflip
    · exact ⟨hconf _, fun _ => hflip⟩

theorem failoverRepoint_worksOn (t : TenantRow) {target : HostRow} (hgood : good target.instanceId) (backup : String)
    (n v m : Int) : (failoverRepoint cfg t target backup n v m).All (Call.worksOn az now good) := by
  unfold failoverRepoint
  split
  · split
    · exact failoverFailed_worksOn _ _
    · refine ((repointAlbRule_routes cfg _ _ _).mono fun c hc => hc.worksOn).bind fun ok => ?_
      cases ok with
      | true => exact failoverVerify_worksOn cfg t hgood backup n v m
      | false => exact failoverFailed_worksOn _ _
  · exact failoverVerify_worksOn cfg t hgood backup n v m

theorem executeFailover_worksOn (t : TenantRow) {target : HostRow} (hgood : good target.instanceId) (backup : String)
    (n : Int) : (executeFailover cfg t target backup n).All (Call.worksOn az now good) := by
  have hlaunch : (Call.ssmSend (some target.instanceId) (.launchVm t.id n (orDefault t.vcpu 2) (orDefault t.memMb 4096)
      t.configTemplate backup [])).worksOn az now good :=
    ⟨by simp, by simp, fun _ _ h => h.elim, fun id h => (h : target.instanceId = id) ▸ hgood⟩
  simp only [executeFailover, req_bind]
  refine ⟨hlaunch, fun cmd => ?_⟩
  cases cmd with
  | none => exact failoverFailed_worksOn _ _
  | some cmd =>
    refine ⟨Call.worksOn_of rfl (fun _ _ => id) fun _ => id, fun _ => ?_⟩
    have hgate : (Prog.call (Call.verifyVm target.instanceId t.id) fun up =>
        if up then failoverRepoint cfg t target backup n (orDefault t.vcpu 2) (orDefault t.memMb 4096)
        else failoverFailed t.id .vmNotVerified : CtlProg Bool).All (Call.worksOn az now good) := by
      refine ⟨Call.worksOn_of rfl (fun _ _ => id) fun _ => id, fun up => ?_⟩
      cases up with
      | true => exact failoverRepoint_worksOn cfg t hgood backup n _ _
      | false => exact failoverFailed_worksOn _ _
    split
    · exact ⟨Call.worksOn_of rfl (fun _ _ => id) fun _ => id, fun _ => hgate⟩
    · exact hgate

theorem latestBackupKey_worksOn (tid : TenantId) : (latestBackupKey cfg tid).All (Call.worksOn az now good) := by
  unfold latestBackupKey
  split
  · trivial
  · exact ⟨Call.worksOn_of rfl (fun _ _ => id) fun _ => id, fun _ => trivial⟩

theorem blockFailover_worksOn (tid : TenantId) : (blockFailover tid).All (Call.worksOn az now good) :=
  ⟨Call.worksOn_of rfl (fun _ _ => id) fun _ => id, fun _ => trivial⟩

/-- The claim of a tenant. -/
theorem worksOn_claim {tid : TenantId} {c : TenantCond} {s : TenantStatus} {src : Option HostId} :
    (Call.condTenant tid c (.failoverClaim s src az now)).worksOn az now good :=
  ⟨by simp, by simp, fun _ _ h => ⟨h.1.symm, h.2.symm⟩, fun _ h => h.elim⟩

theorem failoverTenantToHost_worksOn (t : TenantRow) {target : HostRow} (hgood : good target.instanceId) :
    (failoverTenantToHost cfg t target az now).All (Call.worksOn az now good) := by
  refine (latestBackupKey_worksOn cfg t.id).bind fun backup => ?_
  cases backup with
  | none => exact (blockFailover_worksOn t.id).bind fun _ => trivial
  | some backup =>
    refine ⟨worksOn_claim, fun r => ?_⟩
    cases r with
    | failed => trivial
    | refused => trivial
    | done => exact (executeFailover_worksOn cfg t hgood backup _).bind fun _ => trivial

theorem enqueueFailover_worksOn (t : TenantRow) {target : HostRow} (hgood : good target.instanceId) :
    (enqueueFailover cfg t target az now).All (Call.worksOn az now good) := by
  refine (latestBackupKey_worksOn cfg t.id).bind fun backup => ?_
  cases backup with
  | none => exact (blockFailover_worksOn t.id).bind fun _ => trivial
  | some backup =>
    refine ⟨worksOn_claim, fun r => ?_⟩
    cases r with
    | failed => trivial
    | refused => trivial
    | done =>
      have hinc : (Call.incNext target.instanceId).worksOn az now good :=
        ⟨by simp, by simp, fun _ _ h => h.elim, fun id h => (h : target.instanceId = id) ▸ hgood⟩
      refine ⟨hinc, fun old => ⟨?_, fun ok => trivial⟩⟩
      exact ⟨by simp, by simp, fun _ _ h => ⟨h.1.symm, h.2.symm⟩, fun id h => (h : target.instanceId = id) ▸ hgood⟩

end Work

section Batch

variable {cfg} {az : Az} {now : Time} {force exclude : List Az} {scanned : List HostRow}

/-- The tenants of one zone are moved to eligible hosts, and the rows in memory stay copies. -/
theorem failoverAll_worksOn (hex : ∀ az, az ∈ force ∨ az ∈ downAzs cfg scanned now → az ∈ exclude) (ts : List TenantRow)
    {hosts : List HostRow} (hc : Copies scanned hosts) :
    (failoverAll cfg az exclude now ts hosts).Gives (Call.worksOn az now (Eligible cfg force scanned now))
      fun out => ∀ hosts', out = some hosts' → Copies scanned hosts' := by
  induction ts generalizing hosts with
  | nil =>
    intro hosts' h
    obtain rfl := Option.some.inj h
    exact hc
  | cons t ts ih =>
    rw [failoverAll]
    split
    · exact ih hc
    rename_i target hpick
    have hgood := pickTargetHost_eligible hc hex hpick
    have hnone : ∀ hosts', (none : Option (List HostRow)) = some hosts' → Copies scanned hosts' := by
      intro hosts' h
      cases h
    split
    · refine (enqueueFailover_worksOn cfg t hgood).gives.bind fun out _ => ?_
      cases out with
      | none => exact hnone
      | some o =>
        refine ih ?_
        split
        · exact hc.tally fun m => ⟨rfl, rfl, rfl, rfl, rfl⟩
        · exact hc
    · refine (failoverTenantToHost_worksOn cfg t hgood).gives.bind fun out _ => ?_
      cases out with
      | none => exact hnone
      | some o =>
        refine ih ?_
        split
        · exact hc
        · exact hc.tally fun m => ⟨rfl, rfl, rfl, rfl, rfl⟩

end Batch

/-! ## One invocation -/

/-- What an invocation that read `now` and the hosts `scanned` has done with the calls `l`, from `w₀` to `w`. -/
structure Acted (force : List Az) (now : Time) (scanned : List HostRow) (w₀ : World) (l : CallLog) (w : World) :
    Prop where
  cooled : Cooled (minutes cfg.azCooldownMinutes) (stampMap w₀) now (actions force l)
  stamps : stampMap w = Cooldown.stamps (stampMap w₀) (actions force l)
  times : ∀ a ∈ actions force l, a.time = now
  clock : now ≤ w.clock
  taken : ∀ x ∈ l, ∀ az t, x.1.takesFrom az t → ∃ a ∈ actions force l, a.key = az ∧ a.time = t
  moved : ∀ x ∈ l, ∀ id, x.1.movesTo id → Eligible cfg force scanned now id

section Acted

variable {cfg} {force : List Az} {now : Time} {scanned : List HostRow} {w₀ w w' : World} {l : CallLog}

theorem Elsewhere.clock {c : Call} {r : c.Ans} (hs : detectorSem.step c r w w') : w.clock ≤ w'.clock := by
  obtain ⟨-, u, hs, -, hle⟩ := hs
  exact Int.le_trans (step_clock hs) hle

/-- A call that acts on no zone. -/
theorem Acted.call {c : Call} {r : c.Ans} (h : Acted cfg force now scanned w₀ l w) (ha : actionOf force c = none)
    (hst : stampMap w' = stampMap w) (hclock : w.clock ≤ w'.clock)
    (ht : ∀ az t, c.takesFrom az t → ∃ a ∈ actions force l, a.key = az ∧ a.time = t)
    (hm : ∀ id, c.movesTo id → Eligible cfg force scanned now id) :
    Acted cfg force now scanned w₀ (l ++ [⟨c, r⟩]) w' := by
  have hacts : actions force (l ++ [⟨c, r⟩]) = actions force l := by
    rw [actions_append, actions_cons, ha]
    exact List.append_nil _
  refine ⟨by rw [hacts]; exact h.cooled, by rw [hacts, hst]; exact h.stamps, by rw [hacts]; exact h.times,
    Int.le_trans h.clock hclock, ?_, ?_⟩
  · rw [hacts]
    intro x hx az t htake
    rcases List.mem_append.1 hx with hx | hx
    · exact h.taken x hx az t htake
    · obtain rfl := List.mem_singleton.1 hx
      exact ht az t htake
  · intro x hx id hmove
    rcases List.mem_append.1 hx with hx | hx
    · exact h.moved x hx id hmove
    · obtain rfl := List.mem_singleton.1 hx
      exact hm id hmove

/-- The write of the record for a zone: the action is in the log, and the table has its stamp. -/
theorem Acted.stamp {az : Az} {azState : List (Az × Time)} {r : Bool} (h : Acted cfg force now scanned w₀ l w)
    (hst : (fun a => azState.lookup a) = stampMap w)
    (hgo : ¬ (!force.contains az && shouldSkipAzForCooldown cfg azState az now) = true)
    (hs : detectorSem.step (.putHost (stampedRecord azState az now)) r w w') :
    Acted cfg force now scanned w₀ (l ++ [⟨.putHost (stampedRecord azState az now), r⟩]) w' ∧
      (∃ a ∈ actions force (l ++ [⟨.putHost (stampedRecord azState az now), r⟩]), a.key = az ∧ a.time = now) ∧
      (fun a => (stampedRecord azState az now).azLastFailover.lookup a) = stampMap w' := by
  have hclock := Elsewhere.clock hs
  obtain ⟨hr, u, hs, helse, -⟩ := hs
  obtain rfl : r = true := hr
  have hs : u = w.putHost (stampedRecord azState az now) := hs
  have hone : actionOf force (.putHost (stampedRecord azState az now)) = some ⟨az, now, force.contains az⟩ := rfl
  have hacts : actions force (l ++ [⟨.putHost (stampedRecord azState az now), true⟩]) =
      actions force l ++ [⟨az, now, force.contains az⟩] := by
    rw [actions_append, actions_cons, hone]
    rfl
  have hmap : (fun a => (stampedRecord azState az now).azLastFailover.lookup a) = stampMap w' := by
    rw [helse, hs]
    unfold stampMap
    rw [hostRow_putHost, if_pos (by rfl)]
  refine ⟨⟨?_, ?_, ?_, Int.le_trans h.clock hclock, ?_, ?_⟩, ?_, hmap⟩
  · rw [hacts]
    refine h.cooled.append (Int.le_refl _) (fun a ha => Int.le_of_eq (h.times a ha)) ⟨Int.le_refl _, ?_, trivial⟩
    intro hauto last hlast
    rw [← h.stamps, ← hst] at hlast
    have hauto : force.contains az = false := hauto
    have hlast : azState.lookup az = some last := hlast
    rw [hauto, shouldSkipAzForCooldown, hlast] at hgo
    have hold : ¬ now - last < minutes cfg.azCooldownMinutes := by simpa using hgo
    exact Int.not_lt.1 hold
  · rw [hacts, stamps_append, ← h.stamps, ← hst, ← hmap]
    exact lookup_stamped azState az now _
  · rw [hacts]
    intro a ha
    rcases List.mem_append.1 ha with ha | ha
    · exact h.times a ha
    · obtain rfl := List.mem_singleton.1 ha
      rfl
  · rw [hacts]
    intro x hx az' t htake
    rcases List.mem_append.1 hx with hx | hx
    · obtain ⟨a, ha, hkey⟩ := h.taken x hx az' t htake
      exact ⟨a, List.mem_append_left _ ha, hkey⟩
    · obtain rfl := List.mem_singleton.1 hx
      exact htake.elim
  · intro x hx id hmove
    rcases List.mem_append.1 hx with hx | hx
    · exact h.moved x hx id hmove
    · obtain rfl := List.mem_singleton.1 hx
      exact hmove.elim
  · rw [hacts]
    exact ⟨_, List.mem_append_right _ List.mem_cons_self, rfl, rfl⟩

/-- What the calls for one zone keep. -/
def ActedOn (cfg : Config) (force : List Az) (now : Time) (scanned : List HostRow) (w₀ : World) (az : Az)
    (azState : List (Az × Time)) (l : CallLog) (w : World) : Prop :=
  Acted cfg force now scanned w₀ l w ∧ (∃ a ∈ actions force l, a.key = az ∧ a.time = now) ∧
    (fun a => azState.lookup a) = stampMap w

theorem ActedOn.step {az : Az} {azState : List (Az × Time)} (c : Call) (r : c.Ans) (l : CallLog) (w w' : World)
    (hc : c.worksOn az now (Eligible cfg force scanned now)) (h : ActedOn cfg force now scanned w₀ az azState l w)
    (hs : detectorSem.step c r w w') : ActedOn cfg force now scanned w₀ az azState (l ++ [⟨c, r⟩]) w' := by
  have hclock := Elsewhere.clock hs
  obtain ⟨-, u, hs, helse, -⟩ := hs
  obtain ⟨hput, hdel, htake, hmove⟩ := hc
  obtain ⟨hacted, ⟨a, ha, hkey, htime⟩, hst⟩ := h
  have hmap : stampMap w' = stampMap w := helse.trans (stampMap_step ⟨hput, hdel⟩ hs)
  have hnone : actionOf force c = none := by
    cases c with
    | putHost x => exact absurd rfl (hput x)
    | _ => rfl
  refine ⟨hacted.call hnone hmap hclock ?_ hmove, ⟨a, ?_, hkey, htime⟩, hst.trans hmap.symm⟩
  · intro az' t ht
    obtain ⟨rfl, rfl⟩ := htake az' t ht
    exact ⟨a, ha, hkey, htime⟩
  · rw [actions_append]
    exact List.mem_append_left _ ha

/-- The loop over the outages. -/
theorem handleOutages_acted {tenants : List TenantRow} {exclude : List Az}
    (hex : ∀ az, az ∈ force ∨ az ∈ downAzs cfg scanned now → az ∈ exclude) (os : List Outage) {hosts : List HostRow}
    {azState : List (Az × Time)} (hc : Copies scanned hosts) (hst : (fun a => azState.lookup a) = stampMap w)
    (h : Acted cfg force now scanned w₀ l w) :
    (handleOutages cfg tenants force exclude now os hosts azState).always detectorSem
      (fun l' => Acted cfg force now scanned w₀ (l ++ l')) w := by
  induction os generalizing l w hosts azState with
  | nil => exact (by simpa using h : Acted cfg force now scanned w₀ (l ++ []) w)
  | cons o os ih =>
    simp only [handleOutages, req_bind]
    split
    · exact ih hc hst h
    rename_i hgo
    refine ⟨by simpa using h, fun r w₁ hs => ?_⟩
    obtain ⟨h₁, hact, hst₁⟩ := h.stamp hst hgo hs
    have hwork := @failoverAll_worksOn cfg o.az _ _ _ _ hex (tenants.filter fun t => t.hostId.any o.hostIds.contains) _ hc
    refine Prog.always_mono (fun l' w' h' => by simpa [stampedRecord] using h')
      (hwork.always_bind ActedOn.step (fun _ _ h => h.1) ⟨h₁, hact, hst₁⟩ fun out l₂ w₂ hout h₂ => ?_)
    cases out with
    | none => exact (by simpa using h₂.1 : Acted cfg force now scanned w₀ (l₂ ++ []) w₂)
    | some hosts' => exact ih (hout hosts' rfl) h₂.2.2 h₂.1

end Acted

/-- What an invocation has done, wherever it ends. -/
structure Detected (w₀ : World) (i : Invocation) (w : World) : Prop where
  cooled : Cooled (minutes cfg.azCooldownMinutes) (stampMap w₀) w₀.clock (actions i.force i.log)
  stamps : stampMap w = Cooldown.stamps (stampMap w₀) (actions i.force i.log)
  clock : w₀.clock ≤ w.clock
  times : ∀ a ∈ actions i.force i.log, a.time ≤ w.clock
  taken : ∀ x ∈ i.log, ∀ az t, x.1.takesFrom az t → ∃ a ∈ actions i.force i.log, a.key = az ∧ a.time = t
  moved : ∀ x ∈ i.log, ∀ id, x.1.movesTo id →
    ∃ now scanned, i.reads now scanned ∧ Eligible cfg i.force scanned now id

section Detected

variable {cfg} {force : List Az} {now : Time} {scanned : List HostRow} {w₀ w w' : World} {l : CallLog}

/-- The call acts on nothing. -/
def Call.looks (c : Call) : Prop :=
  c.writesHosts = false ∧ (∀ az t, ¬ c.takesFrom az t) ∧ ∀ id, ¬ c.movesTo id

/-- Nothing was done yet. -/
theorem Acted.start (hst : stampMap w = stampMap w₀) (hclock : now ≤ w.clock) (hl : ∀ x ∈ l, x.1.looks) :
    Acted cfg force now scanned w₀ l w := by
  have hacts : actions force l = [] := by
    refine List.filterMap_eq_nil_iff.2 fun x hx => ?_
    obtain ⟨c, r⟩ := x
    cases c with
    | putHost h => exact absurd (hl _ hx).1 (by simp [Call.writesHosts])
    | _ => rfl
  refine ⟨by rw [hacts]; trivial, by rw [hacts]; exact hst, by rw [hacts]; exact fun a ha => absurd ha List.not_mem_nil,
    hclock, ?_, ?_⟩
  · intro x hx az t h
    exact absurd h ((hl x hx).2.1 az t)
  · intro x hx id h
    exact absurd h ((hl x hx).2.2 id)

theorem Acted.detected (h : Acted cfg force now scanned w₀ l w) (hlo : w₀.clock ≤ now)
    (hreads : (∀ x ∈ l, x.1.looks) ∨ (⟨force, l⟩ : Invocation).reads now scanned) :
    Detected cfg w₀ ⟨force, l⟩ w where
  cooled := h.cooled.mono hlo
  stamps := h.stamps
  clock := Int.le_trans hlo h.clock
  times a ha := (h.times a ha).symm ▸ h.clock
  taken := h.taken
  moved x hx id hm := by
    rcases hreads with hno | hreads
    · exact absurd hm ((hno x hx).2.2 id)
    · exact ⟨now, scanned, hreads, h.moved x hx id hm⟩

/-- A read changes no stamp. -/
theorem quiet_detector {c : Call} {r : c.Ans} (hc : c.writesHosts = false) (hs : detectorSem.step c r w w') :
    stampMap w' = stampMap w ∧ w.clock ≤ w'.clock := by
  refine ⟨?_, Elsewhere.clock hs⟩
  obtain ⟨-, u, hs, helse, -⟩ := hs
  refine helse.trans (stampMap_step ⟨?_, ?_⟩ hs)
  · rintro h rfl
    cases hc
  · rintro id rfl
    cases hc

/-- **One invocation**, wherever it ends. -/
theorem azFailover_detected (force : List Az) (w₀ : World) :
    (azFailover cfg force).always detectorSem (fun l w => Detected cfg w₀ ⟨force, l⟩ w) w₀ := by
  have hstart : ∀ {l : CallLog} {w : World}, stampMap w = stampMap w₀ → w₀.clock ≤ w.clock →
      (∀ x ∈ l, x.1.looks) → Detected cfg w₀ ⟨force, l⟩ w := by
    intro l w hst hclock hl
    have h : Acted cfg force w₀.clock [] w₀ l w := .start hst hclock hl
    exact h.detected (Int.le_refl _) (.inl hl)
  have hone : ∀ {c : Call} {r : c.Ans} {l : CallLog}, c.looks → (∀ x ∈ l, x.1.looks) →
      ∀ x ∈ (⟨c, r⟩ : Answered Ctl) :: l, x.1.looks := fun hc hl => List.forall_mem_cons.2 ⟨hc, hl⟩
  have hnil : ∀ x ∈ ([] : CallLog), x.1.looks := fun x hx => absurd hx List.not_mem_nil
  have hts : (Call.scanTenants (.status .running)).looks := ⟨rfl, fun _ _ => id, fun _ => id⟩
  have hnow : Call.now.looks := ⟨rfl, fun _ _ => id, fun _ => id⟩
  have hhs : (Call.scanHosts .all).looks := ⟨rfl, fun _ _ => id, fun _ => id⟩
  have hget : (Call.getHost azStateId).looks := ⟨rfl, fun _ _ => id, fun _ => id⟩
  simp only [azFailover, checkAndHandleAzFailover, req_bind, Prog.pure_eq]
  refine ⟨hstart rfl (Int.le_refl _) hnil, fun ts w₁ h₁ => ?_⟩
  obtain ⟨hst₁, hc₁⟩ := quiet_detector rfl h₁
  refine ⟨hstart hst₁ hc₁ (hone hts hnil), fun now w₂ h₂ => ?_⟩
  obtain ⟨hst₂, hc₂⟩ := quiet_detector rfl h₂
  have hlo : w₀.clock ≤ now ∧ now ≤ w₂.clock := by
    obtain ⟨-, u, ⟨hle, rfl⟩, -, hu⟩ := h₂
    exact ⟨Int.le_trans hc₁ hle, hu⟩
  have hst₂ := hst₂.trans hst₁
  have hc₂ := Int.le_trans hc₁ hc₂
  refine ⟨hstart hst₂ hc₂ (hone hts (hone hnow hnil)), fun scanned w₃ h₃ => ?_⟩
  obtain ⟨hst₃, hc₃⟩ := quiet_detector rfl h₃
  have hst₃ := hst₃.trans hst₂
  have hlog₃ : ∀ x ∈ ([⟨.scanTenants (.status .running), ts⟩, ⟨.now, now⟩, ⟨.scanHosts .all, scanned⟩] : CallLog),
      x.1.looks := hone hts (hone hnow (hone hhs hnil))
  beta_reduce
  split
  · exact hstart hst₃ (Int.le_trans hc₂ hc₃) hlog₃
  refine ⟨hstart hst₃ (Int.le_trans hc₂ hc₃) hlog₃, fun state w₄ h₄ => ?_⟩
  obtain ⟨hst₄, hc₄⟩ := quiet_detector rfl h₄
  have hlog₄ : ∀ x ∈ ([⟨.scanTenants (.status .running), ts⟩, ⟨.now, now⟩, ⟨.scanHosts .all, scanned⟩,
      ⟨.getHost azStateId, state⟩] : CallLog), x.1.looks := hone hts (hone hnow (hone hhs (hone hget hnil)))
  have hread : state = w₃.hosts.get azStateId := by
    obtain ⟨-, u, ⟨hr, -⟩, -⟩ := h₄
    exact hr
  split
  · exact hstart (hst₄.trans hst₃) (Int.le_trans hc₂ (Int.le_trans hc₃ hc₄)) hlog₄
  have hazs : (fun a => ((state.map HostRow.azLastFailover).getD []).lookup a) = stampMap w₄ := by
    rw [hst₄, hread]
    unfold stampMap World.hostRow HostRow.orNew
    cases w₃.hosts.get azStateId <;> rfl
  have hacted : Acted cfg force now scanned w₀ _ w₄ :=
    .start (hst₄.trans hst₃) (Int.le_trans hlo.2 (Int.le_trans hc₃ hc₄)) hlog₄
  have hcopies : Copies scanned (scanned.filter fun h => h.status ≠ some .deleted) :=
    fun m hm => ⟨m, List.mem_of_mem_filter hm, rfl, rfl, rfl, rfl, rfl⟩
  refine Prog.always_mono (fun l' w' h => ?_) (handleOutages_acted ?_ _ hcopies hazs hacted)
  · exact h.detected hlo.1 (.inr ⟨ts, ⟨.getHost azStateId, state⟩ :: l', rfl⟩)
  · -- every down zone and every forced one is excluded
    intro az haz
    rcases haz with haz | haz
    · exact List.mem_append_right _ haz
    · refine List.mem_append_left _ ?_
      rw [List.map_append]
      exact List.mem_append_left _ haz

end Detected

/-! ## Sequences of invocations -/

section Sequences

variable {cfg} {w w' : World} {is : List Invocation}

/-- **The cooldown of a zone**, over any sequence of invocations: every action that is not forced comes at least the
cooldown after every earlier action on its zone; the stamp of every zone is that of its last action; tenants are taken
up for the zones acted on, and moved to eligible hosts. -/
theorem az_cooldown (h : Detections cfg w is w') :
    ((allActions is).Pairwise fun a b =>
      b.forced = false → a.key = b.key → minutes cfg.azCooldownMinutes ≤ b.time - a.time) ∧
    (∀ az, stampMap w' az = (lastAct az (allActions is)).or (stampMap w az)) ∧
    ∀ i ∈ is, (∀ x ∈ i.log, ∀ az t, x.1.takesFrom az t → ∃ a ∈ actions i.force i.log, a.key = az ∧ a.time = t) ∧
      ∀ x ∈ i.log, ∀ id, x.1.movesTo id → ∃ now scanned, i.reads now scanned ∧ Eligible cfg i.force scanned now id := by
  have hrun : Cooled (minutes cfg.azCooldownMinutes) (stampMap w) w.clock (allActions is) ∧
      stampMap w' = Cooldown.stamps (stampMap w) (allActions is) := by
    induction h with
    | nil w => exact ⟨trivial, rfl⟩
    | @cons w w₁ w₂ w' force l is he hstops _ ih =>
      have hd := Prog.always_iff_stops.1 (azFailover_detected force w₁) _ _ hstops
      obtain ⟨hcool, hst⟩ := ih
      obtain ⟨hsame, hle⟩ := he
      have hfirst := hd.cooled.mono hle
      rw [hsame] at hfirst
      rw [hd.stamps, hsame] at hcool hst
      refine ⟨hfirst.append (Int.le_trans hle hd.clock) hd.times hcool, ?_⟩
      rw [hst, ← stamps_append]
      rfl
  refine ⟨hrun.1.pairwise, fun az => by rw [hrun.2, stamps_apply], ?_⟩
  clear hrun
  induction h with
  | nil w => exact fun i hi => absurd hi List.not_mem_nil
  | @cons w w₁ w₂ w' force l is _ hstops _ ih =>
    have hd := Prog.always_iff_stops.1 (azFailover_detected force w₁) _ _ hstops
    exact List.forall_mem_cons.2 ⟨⟨hd.taken, hd.moved⟩, ih⟩

end Sequences

/-! ## Two invocations -/

/-- An invocation played by evaluation. -/
theorem stops_of_alone {cfg : Config} {force : List Az} {hs : List Hint} {w w' : World} {l : CallLog} {a : Unit}
    (h : ctlOracle.alone (fun c r _ => c.stamped r) (azFailover cfg force) hs w = some (l, a, w')) :
    (azFailover cfg force).Stops detectorSem w l w' := by
  refine (Oracle.alone_sound (fun _ _ _ h => h) h).stops.mono fun c r u u' hs => ?_
  exact ⟨hs.1, u', hs.2, rfl, Int.le_refl _⟩

/-- A zone that stays down, while the host in the other reports. -/
def outageGoesOn : World where
  tenants := twoHosts.tenants
  hosts := ⟨[{ busyHost "i-1" 2 with az := some "az-1" },
    { emptyHost "i-2" 5 with az := some "az-2", lastHealthCheck := some (minutes 30) }], by decide⟩

/-- The detector at noon, and again half an hour later. -/
def twoInvocations : Option (CallLog × CallLog × World) :=
  (ctlOracle.alone (fun c r _ => c.stamped r) (azFailover outageConfig []) (List.replicate 9 {}) outageGoesOn).bind fun x =>
    (ctlOracle.alone (fun c r _ => c.stamped r) (azFailover outageConfig []) (List.replicate 5 { time := minutes 30 })
      x.2.2).map fun y => (x.1, y.1, y.2.2)

/-- The zone is acted on at once and again when the cooldown is over. -/
theorem az_cooldown_twice : ∃ is w', Detections outageConfig outageGoesOn is w' ∧
    allActions is = [⟨"az-1", 0, false⟩, ⟨"az-1", minutes 30, false⟩] ∧
    stampMap w' "az-1" = some (minutes 30) ∧ minutes outageConfig.azCooldownMinutes ≤ minutes 30 - 0 := by
  have h : twoInvocations.any (fun z => allActions [⟨[], z.1⟩, ⟨[], z.2.1⟩] =
      [⟨"az-1", 0, false⟩, ⟨"az-1", minutes 30, false⟩]) = true := by decide +kernel
  obtain ⟨z, hz, hacts⟩ := (Option.any_eq_true _ _).1 h
  obtain ⟨⟨l, a, w₁⟩, hx, hz⟩ := Option.bind_eq_some_iff.1 hz
  obtain ⟨⟨l', b, w₂⟩, hy, rfl⟩ := Option.map_eq_some_iff.1 hz
  have hacts := of_decide_eq_true hacts
  have hrun : Detections outageConfig outageGoesOn [⟨[], l⟩, ⟨[], l'⟩] w₂ :=
    .cons ⟨rfl, Int.le_refl _⟩ (stops_of_alone hx) (.cons ⟨rfl, Int.le_refl _⟩ (stops_of_alone hy) (.nil w₂))
  obtain ⟨hpair, hstamps, -⟩ := az_cooldown hrun
  refine ⟨_, w₂, hrun, hacts, ?_, ?_⟩
  · rw [hstamps, hacts]
    rfl
  · rw [hacts] at hpair
    exact (List.pairwise_cons.1 hpair).1 _ List.mem_cons_self rfl rfl

end OpenClaw
