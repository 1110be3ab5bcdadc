import OpenClaw.Control.Failover
import OpenClaw.Lib.Sorting

/-!
# One ranking

The API's `_find_host` and `_rank_candidate_hosts`, `rank_hosts` of `common/capacity.py` and the failover's
`pick_target_host` each select from a list of hosts, and `_reserve_host_slot` has the server decide.

- `Precedes`: the order of the hosts, most free first.
- `findHostIn`, `rankCandidateHostsIn`, `rankHostsExcept`: the loops as they are written.
- `placement_agrees`: they all follow one ranking, and what fits is what the server would take.
-/

namespace OpenClaw

open Keyed Atomic

variable (cfg : Config)

/-! ## The order -/

/-- Most free vCPU first, then most free memory, then the lowest instance id. -/
def Precedes (a b : HostRow) : Prop :=
  (hostFree cfg b).1 < (hostFree cfg a).1 ∨ (hostFree cfg a).1 = (hostFree cfg b).1 ∧
    ((hostFree cfg b).2 < (hostFree cfg a).2 ∨ (hostFree cfg a).2 = (hostFree cfg b).2 ∧ a.instanceId ≤ b.instanceId)

/-- Room for the tenant within the allocatable vCPU and memory, and below the VM cap if there is one. -/
def Fits (vcpu mem : Int) (h : HostRow) : Prop :=
  h.usedVcpu.getD 0 + vcpu ≤ (allocatable cfg h).1 ∧ h.usedMemMb.getD 0 + mem ≤ (allocatable cfg h).2 ∧
    (cfg.maxVmsPerHost ≠ 0 → h.vmCount.getD 0 < cfg.maxVmsPerHost)

instance (vcpu mem : Int) (h : HostRow) : Decidable (Fits cfg vcpu mem h) :=
  inferInstanceAs (Decidable (_ ≤ _ ∧ _ ≤ _ ∧ (_ → _)))

/-- The row carries all counters. -/
structure Counted (h : HostRow) : Prop where
  totalVcpu : h.totalVcpu.isSome
  totalMemMb : h.totalMemMb.isSome
  usedVcpu : h.usedVcpu.isSome
  usedMemMb : h.usedMemMb.isSome
  vmCount : h.vmCount.isSome
  nextVmNum : h.nextVmNum.isSome

section Order

variable {cfg} {a b c : HostRow} {vcpu mem : Int}

theorem fits_iff {h : HostRow} : hostFits cfg h vcpu mem = true ↔ Fits cfg vcpu mem h := by
  rw [hostFits_iff]
  unfold Fits hostFree
  omega

theorem rankLe_iff : rankLe cfg a b = true ↔ Precedes cfg a b := by
  have hid : strLe a.instanceId.toList b.instanceId.toList = true ↔ a.instanceId ≤ b.instanceId := strLe_iff_not_lt
  unfold rankLe Precedes
  dsimp only
  split
  · rename_i hv
    simp [hv]
  · rename_i hv
    rw [not_not] at hv
    split
    · rename_i hm
      simp [hv, hm]
    · rename_i hm
      rw [not_not] at hm
      simp [hv, hm, hid]

theorem precedes_total : Precedes cfg a b ∨ Precedes cfg b a := by
  have hid := le_total a.instanceId b.instanceId
  unfold Precedes
  grind

theorem precedes_trans (hab : Precedes cfg a b) (hbc : Precedes cfg b c) : Precedes cfg a c := by
  have hid : a.instanceId ≤ b.instanceId → b.instanceId ≤ c.instanceId → a.instanceId ≤ c.instanceId := le_trans
  unfold Precedes at *
  grind

/-- Two hosts are equal in the order when they are one. -/
theorem precedes_antisymm (hab : Precedes cfg a b) (hba : Precedes cfg b a) : a.instanceId = b.instanceId := by
  have hid : a.instanceId ≤ b.instanceId → b.instanceId ≤ a.instanceId → a.instanceId = b.instanceId := le_antisymm
  unfold Precedes at *
  grind

instance : IsTrans HostRow fun a b => rankLe cfg a b = true :=
  ⟨fun _ _ _ hab hbc => rankLe_iff.2 (precedes_trans (rankLe_iff.1 hab) (rankLe_iff.1 hbc))⟩

instance : Std.Total fun a b : HostRow => rankLe cfg a b = true :=
  ⟨fun _ _ => precedes_total.imp rankLe_iff.2 rankLe_iff.2⟩

end Order

/-! ## The loops -/

/-- An entry `(-free_vcpu, -free_mem, instance_id, h)` of the list that is sorted. -/
structure Candidate where
  negVcpu : Int
  negMem : Int
  instanceId : HostId
  host : HostRow

/-- The order of the tuples `(c[0], c[1], c[2])`. -/
def Candidate.le (a b : Candidate) : Bool :=
  a.negVcpu < b.negVcpu || (a.negVcpu = b.negVcpu && (a.negMem < b.negMem ||
    (a.negMem = b.negMem && strLe a.instanceId.toList b.instanceId.toList)))

/-- The entry of a host. -/
def Candidate.of (h : HostRow) : Candidate := ⟨-(hostFree cfg h).1, -(hostFree cfg h).2, h.instanceId, h⟩

/-- The loop over the rows: what is not skipped and fits becomes an entry. -/
def collectCandidates (skip : HostRow → Bool) (vcpu mem : Int) : List HostRow → List Candidate
  | [] => []
  | h :: hs =>
    if skip h then collectCandidates skip vcpu mem hs
    else if !hostFits cfg h vcpu mem then collectCandidates skip vcpu mem hs
    else .of cfg h :: collectCandidates skip vcpu mem hs

/-- `candidates.sort(key=lambda c: (c[0], c[1], c[2]))`. -/
def sortCandidates (cs : List Candidate) : List Candidate := cs.insertionSort fun a b => a.le b

/-- `_find_host` on the scanned rows. -/
def findHostIn (hosts : List HostRow) (vcpu mem : Int) : Option HostRow :=
  match sortCandidates (collectCandidates cfg (fun _ => false) vcpu mem hosts) with
  | [] => none
  | c :: _ => some c.host

/-- `_rank_candidate_hosts` on the scanned rows. -/
def rankCandidateHostsIn (hosts : List HostRow) (vcpu mem : Int) : List HostRow :=
  (sortCandidates (collectCandidates cfg (fun _ => false) vcpu mem hosts)).map Candidate.host

/-- `rank_hosts`. -/
def rankHostsExcept (exclude : List HostId) (hosts : List HostRow) (vcpu mem : Int) : List HostRow :=
  (sortCandidates (collectCandidates cfg (fun h => exclude.contains h.instanceId) vcpu mem hosts)).map Candidate.host

section Loops

variable {cfg} {hosts : List HostRow} {vcpu mem : Int}

theorem candidate_le_iff {a b : HostRow} : (Candidate.of cfg a).le (.of cfg b) = true ↔ rankLe cfg a b = true := by
  rw [rankLe_iff]
  have hid : strLe a.instanceId.toList b.instanceId.toList = true ↔ a.instanceId ≤ b.instanceId := strLe_iff_not_lt
  simp only [Candidate.le, Candidate.of, Precedes, Bool.or_eq_true, Bool.and_eq_true, decide_eq_true_eq, hid, neg_lt_neg_iff,
    neg_inj]

theorem collectCandidates_eq (skip : HostRow → Bool) : collectCandidates cfg skip vcpu mem hosts =
    ((hosts.filter fun h => !skip h).filter fun h => hostFits cfg h vcpu mem).map (.of cfg) := by
  induction hosts with
  | nil => rfl
  | cons h hs ih =>
    by_cases hskip : skip h
    · simp [collectCandidates, hskip, ih]
    · by_cases hfit : hostFits cfg h vcpu mem
      · simp [collectCandidates, hskip, hfit, ih]
      · simp [collectCandidates, hskip, hfit, ih]

/-- The loops rank the hosts that are not skipped. -/
theorem sortCandidates_map (skip : HostRow → Bool) :
    sortCandidates (collectCandidates cfg skip vcpu mem hosts) =
      (rankHosts cfg (hosts.filter fun h => !skip h) vcpu mem).map (.of cfg) := by
  rw [collectCandidates_eq]
  exact (List.map_insertionSort _ _ _ _ fun a _ b _ => candidate_le_iff.symm).symm

theorem map_host (hs : List HostRow) : (hs.map (Candidate.of cfg)).map Candidate.host = hs := by
  simp [Function.comp_def, Candidate.of]

theorem rankHostsExcept_eq (exclude : List HostId) : rankHostsExcept cfg exclude hosts vcpu mem =
    rankHosts cfg (hosts.filter fun h => !exclude.contains h.instanceId) vcpu mem := by
  rw [rankHostsExcept, sortCandidates_map, map_host]

theorem rankCandidateHostsIn_eq : rankCandidateHostsIn cfg hosts vcpu mem = rankHosts cfg hosts vcpu mem := by
  simp only [rankCandidateHostsIn, sortCandidates_map, map_host, Bool.not_false, List.filter_true]

theorem findHostIn_eq : findHostIn cfg hosts vcpu mem = (rankHosts cfg hosts vcpu mem).head? := by
  simp only [findHostIn, sortCandidates_map, Bool.not_false, List.filter_true]
  cases rankHosts cfg hosts vcpu mem with
  | nil => rfl
  | cons h hs => rfl

end Loops

/-! ## Agreement -/

/-- The hosts that `pick_target_host` may choose. -/
def targetEligible (now : Time) (exclude : List Az) (h : HostRow) : Bool :=
  !exclude.contains (h.az.getD "") && !isHostUnhealthy h now cfg.azUnhealthyThresholdMinutes && h.status ≠ some .deleted

/-- The active and idle hosts of the table. -/
def World.openHosts (w : World) : List HostRow := w.hosts.rows.filter HostFilter.activeOrIdle.holds

/-- What the selections make of a list of rows. -/
structure PlacementAgrees (hosts : List HostRow) (vcpu mem : Int) : Prop where
  /-- The ranking has exactly the hosts with room. -/
  fitting : (rankHosts cfg hosts vcpu mem).Perm (hosts.filter fun h => Fits cfg vcpu mem h)
  ordered : (rankHosts cfg hosts vcpu mem).Pairwise (Precedes cfg)
  /-- In whichever order the rows came. -/
  scanned : ∀ hosts', hosts'.Perm hosts → rankHosts cfg hosts' vcpu mem = rankHosts cfg hosts vcpu mem
  /-- The loops as they are written. -/
  candidatesIn : rankCandidateHostsIn cfg hosts vcpu mem = rankHosts cfg hosts vcpu mem
  rankExcept : rankHostsExcept cfg [] hosts vcpu mem = rankHosts cfg hosts vcpu mem
  findIn : findHostIn cfg hosts vcpu mem = (rankHosts cfg hosts vcpu mem).head?
  /-- The selections from a table with these rows. -/
  candidates : ∀ w : World, w.openHosts.Perm hosts →
    (rankCandidateHosts cfg vcpu mem).wp ctl (fun r w' => w' = w ∧ r = rankHosts cfg hosts vcpu mem) w
  find : ∀ w : World, w.openHosts.Perm hosts →
    (findHost cfg vcpu mem).wp ctl (fun r w' => w' = w ∧ r = (rankHosts cfg hosts vcpu mem).head?) w
  create : ∀ w : World, w.openHosts.Perm hosts → (pickHostsForCreate cfg vcpu mem).wp ctl (fun r w' => w' = w ∧
    r.Perm (rankHosts cfg hosts vcpu mem) ∧
      r.drop (atLeastOne cfg.hostPickTopK) = (rankHosts cfg hosts vcpu mem).drop (atLeastOne cfg.hostPickTopK)) w
  target : ∀ now exclude, pickTargetHost cfg hosts now exclude vcpu mem =
    ((rankHosts cfg hosts vcpu mem).filter (targetEligible cfg now exclude)).head?
  /-- What fits is what the server takes, and what does not fit is what it refuses. -/
  reserve : ∀ h ∈ hosts, Counted h → ∀ w : World, w.hosts.get h.instanceId = some h →
    (Fits cfg vcpu mem h ↔ ∃ n w', (reserveHostSlot cfg h vcpu mem).Runs ctl w (some (some n)) w') ∧
      (¬ Fits cfg vcpu mem h ↔ ∃ w', (reserveHostSlot cfg h vcpu mem).Runs ctl w (some none) w')

section Agreement

variable {cfg} {hosts : List HostRow} {vcpu mem : Int}

theorem rankHosts_fitting (hosts : List HostRow) :
    (rankHosts cfg hosts vcpu mem).Perm (hosts.filter fun h => Fits cfg vcpu mem h) := by
  have hfilter : hosts.filter (fun h => hostFits cfg h vcpu mem) = hosts.filter fun h => Fits cfg vcpu mem h := by
    apply List.filter_congr
    intro h _
    rw [Bool.eq_iff_iff, fits_iff, decide_eq_true_eq]
  rw [← hfilter]
  exact rankHosts_perm cfg hosts vcpu mem

theorem rankHosts_ordered (hosts : List HostRow) : (rankHosts cfg hosts vcpu mem).Pairwise (Precedes cfg) :=
  (List.pairwise_insertionSort _ _).imp rankLe_iff.1

/-- The ranking of some of the hosts is part of the ranking. -/
theorem rankHosts_filter (p : HostRow → Bool) (hosts : List HostRow) :
    rankHosts cfg (hosts.filter p) vcpu mem = (rankHosts cfg hosts vcpu mem).filter p := by
  rw [rankHosts, rankHosts, Sorting.filter_insertionSort, List.filter_filter, List.filter_filter]
  simp only [Bool.and_comm]

/-- Rows of one table are ranked alike in any order. -/
theorem rankHosts_of_perm {hosts' : List HostRow} (hp : hosts'.Perm hosts)
    (hone : ∀ a ∈ hosts, ∀ b ∈ hosts, a.instanceId = b.instanceId → a = b) :
    rankHosts cfg hosts' vcpu mem = rankHosts cfg hosts vcpu mem := by
  refine Sorting.insertionSort_of_perm _ (hp.filter _) ?_
  intro a ha b hb hab hba
  have hid := precedes_antisymm (rankLe_iff.1 hab) (rankLe_iff.1 hba)
  exact hone a (hp.mem_iff.1 (List.mem_of_mem_filter ha)) b (hp.mem_iff.1 (List.mem_of_mem_filter hb)) hid

theorem pickTargetHost_eq (now : Time) (exclude : List Az) : pickTargetHost cfg hosts now exclude vcpu mem =
    ((rankHosts cfg hosts vcpu mem).filter (targetEligible cfg now exclude)).head? := by
  rw [← rankHosts_filter]
  rfl

/-- The candidates of a table. -/
theorem rankCandidateHosts_wp (hone : ∀ a ∈ hosts, ∀ b ∈ hosts, a.instanceId = b.instanceId → a = b) {w : World}
    (hw : w.openHosts.Perm hosts) :
    (rankCandidateHosts cfg vcpu mem).wp ctl (fun r w' => w' = w ∧ r = rankHosts cfg hosts vcpu mem) w := by
  simp only [rankCandidateHosts, req_bind, Prog.wp_call, Prog.pure_eq, Prog.wp_ret]
  intro r w' hs
  obtain ⟨hr, rfl⟩ := hs
  exact ⟨rfl, rankHosts_of_perm (hr.trans hw) hone⟩

theorem findHost_eq : findHost cfg vcpu mem = (do
    let ranked ← rankCandidateHosts cfg vcpu mem
    pure ranked.head?) := rfl

/-- The candidates of a create: the top of the ranking is shuffled. -/
theorem pickHostsForCreate_wp (hone : ∀ a ∈ hosts, ∀ b ∈ hosts, a.instanceId = b.instanceId → a = b) {w : World}
    (hw : w.openHosts.Perm hosts) : (pickHostsForCreate cfg vcpu mem).wp ctl (fun r w' => w' = w ∧
      r.Perm (rankHosts cfg hosts vcpu mem) ∧
        r.drop (atLeastOne cfg.hostPickTopK) = (rankHosts cfg hosts vcpu mem).drop (atLeastOne cfg.hostPickTopK)) w := by
  unfold pickHostsForCreate
  rw [Prog.wp_bind]
  refine Prog.wp_mono ?_ (rankCandidateHosts_wp hone hw)
  intro r w' h
  obtain ⟨rfl, rfl⟩ := h
  generalize rankHosts cfg hosts vcpu mem = ranked
  by_cases hnil : ranked.isEmpty
  · have hranked := List.isEmpty_iff.1 hnil
    simp [hranked]
  · simp only [hnil, Bool.false_eq_true, if_false, req_bind, Prog.wp_call, Prog.pure_eq, Prog.wp_ret]
    intro head w' hs
    obtain ⟨hhead, rfl⟩ := hs
    refine ⟨rfl, ?_, ?_⟩
    · exact (hhead.append_right _).trans (List.Perm.of_eq (List.take_append_drop _ _))
    · by_cases hk : atLeastOne cfg.hostPickTopK ≤ ranked.length
      · have hlen : head.length = atLeastOne cfg.hostPickTopK := by
          rw [hhead.length_eq, List.length_take_of_le hk]
        rw [← hlen, List.drop_left]
      · have hlen : ranked.length ≤ atLeastOne cfg.hostPickTopK := by omega
        have hhead' : head.length ≤ atLeastOne cfg.hostPickTopK := by
          rw [hhead.length_eq]
          exact List.length_take_le _ _
        rw [List.drop_of_length_le hlen, List.append_nil, List.drop_of_length_le hhead']

/-- The condition on a row with all counters. -/
theorem reserveCond_holds_iff {h : HostRow} (hc : Counted h) {tv tm : Int} (htv : h.totalVcpu = some tv)
    (htm : h.totalMemMb = some tm) : (reserveCond cfg tv tm vcpu mem).holds h = true ↔ Fits cfg vcpu mem h := by
  obtain ⟨uv, huv⟩ := Option.isSome_iff_exists.1 hc.usedVcpu
  obtain ⟨um, hum⟩ := Option.isSome_iff_exists.1 hc.usedMemMb
  obtain ⟨n, hn⟩ := Option.isSome_iff_exists.1 hc.vmCount
  simp only [ReserveCond.holds_iff, reserveCond, Fits, allocatable, huv, hum, hn, htv, htm, Option.getD_some]
  by_cases hcap : cfg.maxVmsPerHost = 0
  · simp [hcap]
    omega
  · simp [hcap]
    omega

theorem reserveHostSlot_runs {h : HostRow} (hc : Counted h) {w : World} (hw : w.hosts.get h.instanceId = some h) :
    (Fits cfg vcpu mem h ↔ ∃ n w', (reserveHostSlot cfg h vcpu mem).Runs ctl w (some (some n)) w') ∧
      (¬ Fits cfg vcpu mem h ↔ ∃ w', (reserveHostSlot cfg h vcpu mem).Runs ctl w (some none) w') := by
  obtain ⟨tv, htv⟩ := Option.isSome_iff_exists.1 hc.totalVcpu
  obtain ⟨tm, htm⟩ := Option.isSome_iff_exists.1 hc.totalMemMb
  have hcond : _ ↔ Fits cfg vcpu mem h := reserveCond_holds_iff hc htv htm
  rw [reserveHostSlot_eq cfg htv htm, ← hcond]
  constructor
  · constructor
    · intro hfit
      obtain ⟨uv, huv⟩ := Option.isSome_iff_exists.1 hc.usedVcpu
      obtain ⟨um, hum⟩ := Option.isSome_iff_exists.1 hc.usedMemMb
      obtain ⟨c, hn⟩ := Option.isSome_iff_exists.1 hc.vmCount
      obtain ⟨n, hnext⟩ := Option.isSome_iff_exists.1 hc.nextVmNum
      have happly : (HostUpdate.reserve vcpu mem).apply h = some _ :=
        HostUpdate.reserve_eq_some.2 ⟨uv, um, c, n, huv, hum, hn, hnext, rfl⟩
      exact ⟨_, _, Prog.runs_call_ret.2 ⟨.next (n + 1), ⟨h, _, hw, hfit, happly, rfl, rfl⟩, rfl⟩⟩
    · intro hrun
      obtain ⟨n, w', hrun⟩ := hrun
      obtain ⟨r, hs, hr⟩ := Prog.runs_call_ret.1 hrun
      cases r with
      | next k =>
        obtain ⟨x, x', hx, hholds, -⟩ := hs
        rw [hw] at hx
        obtain rfl := Option.some.inj hx
        exact hholds
      | refused => cases hr
      | failed => cases hr
  · constructor
    · intro hfull
      refine ⟨w, Prog.runs_call_ret.2 ⟨.refused, ⟨?_, rfl⟩, rfl⟩⟩
      simp [hw, hfull]
    · intro hrun
      obtain ⟨w', hrun⟩ := hrun
      obtain ⟨r, hs, hr⟩ := Prog.runs_call_ret.1 hrun
      cases r with
      | next k => cases hr
      | refused =>
        have hall := hs.1
        simpa [hw] using hall
      | failed => cases hr

end Agreement

/-- **Placement agreement.** On the rows of one table, the selections follow one ranking, and what fits is what the
server would reserve. -/
theorem placement_agrees (hosts : List HostRow) (vcpu mem : Int)
    (hone : ∀ a ∈ hosts, ∀ b ∈ hosts, a.instanceId = b.instanceId → a = b) : PlacementAgrees cfg hosts vcpu mem where
  fitting := rankHosts_fitting hosts
  ordered := rankHosts_ordered hosts
  scanned _ hp := rankHosts_of_perm hp hone
  candidatesIn := rankCandidateHostsIn_eq
  rankExcept := by simp [rankHostsExcept_eq]
  findIn := findHostIn_eq
  candidates _ hw := rankCandidateHosts_wp hone hw
  find w hw := by
    rw [findHost_eq, Prog.wp_bind]
    refine Prog.wp_mono ?_ (rankCandidateHosts_wp hone hw)
    intro r w' h
    exact ⟨h.1, congrArg List.head? h.2⟩
  create _ hw := pickHostsForCreate_wp hone hw
  target now exclude := pickTargetHost_eq now exclude
  reserve _ _ hc _ hw := reserveHostSlot_runs hc hw

/-- Two hosts with equal room. -/
def twins : List HostRow := ["i-b", "i-a"].map fun id =>
  { instanceId := id, status := some .active, totalVcpu := some 8, totalMemMb := some 16384, usedVcpu := some 2,
    usedMemMb := some 4096, vmCount := some 1, nextVmNum := some 2 }

theorem placement_agrees_twins : PlacementAgrees {} twins 2 4096 := by
  refine placement_agrees {} twins 2 4096 ?_
  intro a ha b hb hid
  simp only [twins, List.map_cons, List.map_nil, List.mem_cons, List.not_mem_nil, or_false] at ha hb
  rcases ha with rfl | rfl <;> rcases hb with rfl | rfl <;> simp_all

end OpenClaw
