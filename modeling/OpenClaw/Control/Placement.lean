import OpenClaw.Control.Calls

/-!
# Placement: capacity arithmetic, host choice and the reservation

`common/capacity.py` (`allocatable`, `hostFree`, `hostFits`, `rankHosts`) and the API's host selection on top of it. A
placement decision is made on rows that were read some time ago; only `reserveHostSlot` checks the live row.

- `rankHosts_perm`, `mem_rankHosts`: ranking keeps exactly the fitting hosts.
- `findHost_all`, `pickHostsForCreate_all`, …: which calls each of the programs makes.
-/

namespace OpenClaw

open Keyed Atomic

variable (cfg : Config)

/-! ## common/capacity.py -/

/-- `(allocatable_vcpu, allocatable_mem_mb)` after overcommit; a host without totals has none. -/
def allocatable (h : HostRow) : Int × Int := (cfg.allocVcpu (h.totalVcpu.getD 0), cfg.allocMem (h.totalMemMb.getD 0))

/-- `(free_vcpu, free_mem_mb)`. -/
def hostFree (h : HostRow) : Int × Int :=
  ((allocatable cfg h).1 - h.usedVcpu.getD 0, (allocatable cfg h).2 - h.usedMemMb.getD 0)

def hostFits (h : HostRow) (vcpu mem : Int) : Bool :=
  if (hostFree cfg h).1 < vcpu || (hostFree cfg h).2 < mem then false
  else if cfg.maxVmsPerHost ≠ 0 && h.vmCount.getD 0 ≥ cfg.maxVmsPerHost then false
  else true

/-- Room for the size, and below the VM cap if there is one. -/
theorem hostFits_iff {m : HostRow} {v n : Int} : hostFits cfg m v n = true ↔ v ≤ (hostFree cfg m).1 ∧ n ≤ (hostFree cfg m).2 ∧
    (cfg.maxVmsPerHost ≠ 0 → m.vmCount.getD 0 < cfg.maxVmsPerHost) := by
  unfold hostFits
  split_ifs with h₁ h₂
  · simp only [Bool.or_eq_true, decide_eq_true_eq] at h₁
    simp only [false_iff]
    omega
  · simp only [Bool.and_eq_true, decide_eq_true_eq] at h₂
    simp only [false_iff]
    omega
  · simp only [Bool.or_eq_true, decide_eq_true_eq] at h₁
    simp only [Bool.and_eq_true, decide_eq_true_eq] at h₂
    simp only [true_iff]
    omega

/-- The order of the sort key `(-free_vcpu, -free_mem, instance_id)`. -/
def rankLe (a b : HostRow) : Bool :=
  let fa := hostFree cfg a
  let fb := hostFree cfg b
  if fa.1 ≠ fb.1 then fb.1 < fa.1 else if fa.2 ≠ fb.2 then fb.2 < fa.2 else strLe a.instanceId.toList b.instanceId.toList

/-- The hosts that fit, least loaded first. -/
def rankHosts (hosts : List HostRow) (vcpu mem : Int) : List HostRow :=
  (hosts.filter fun h => hostFits cfg h vcpu mem).insertionSort fun a b => rankLe cfg a b

theorem rankHosts_perm (hosts : List HostRow) (vcpu mem : Int) :
    (rankHosts cfg hosts vcpu mem).Perm (hosts.filter fun h => hostFits cfg h vcpu mem) :=
  List.perm_insertionSort _ _

theorem mem_rankHosts {hosts : List HostRow} {vcpu mem : Int} {h : HostRow} :
    h ∈ rankHosts cfg hosts vcpu mem ↔ h ∈ hosts ∧ hostFits cfg h vcpu mem = true := by
  rw [(rankHosts_perm cfg hosts vcpu mem).mem_iff, List.mem_filter]

/-! ## Host choice in the API -/

/-- `_find_host`: the least loaded active or idle host that fits. -/
def findHost (vcpu mem : Int) : CtlProg (Option HostRow) := do
  let hosts ← req (.scanHosts .activeOrIdle)
  pure (rankHosts cfg hosts vcpu mem).head?

/-- `_rank_candidate_hosts`. -/
def rankCandidateHosts (vcpu mem : Int) : CtlProg (List HostRow) := do
  let hosts ← req (.scanHosts .activeOrIdle)
  pure (rankHosts cfg hosts vcpu mem)

/-- `max(1, k)` as a list length. -/
def atLeastOne (k : Int) : Nat := (max 1 k).toNat

/-- `_pick_hosts_for_create`: the top of the ranking is shuffled. -/
def pickHostsForCreate (vcpu mem : Int) : CtlProg (List HostRow) := do
  let ranked ← rankCandidateHosts cfg vcpu mem
  if ranked.isEmpty then pure []
  else do
    let head ← req (.shuffle (ranked.take (atLeastOne cfg.hostPickTopK)))
    pure (head ++ ranked.drop (atLeastOne cfg.hostPickTopK))

/-- `_get_specific_host_with_capacity`. -/
def getSpecificHostWithCapacity (id : HostId) (vcpu mem : Int) : CtlProg (Option HostRow) := do
  let item ← req (.getHost id)
  match item with
  | none => pure none
  | some h =>
    if h.status = some .active ∨ h.status = some .idle then
      pure (if hostFits cfg h vcpu mem then some h else none)
    else pure none

/-! ## The reservation -/

/-- The condition `_reserve_host_slot` sends: the ceilings come from the totals of the row it was given. -/
def reserveCond (totalVcpu totalMemMb vcpu mem : Int) : ReserveCond where
  maxUsedV := cfg.allocVcpu totalVcpu - vcpu
  maxUsedM := cfg.allocMem totalMemMb - mem
  maxVm := if cfg.maxVmsPerHost = 0 then none else some cfg.maxVmsPerHost

/-- `_reserve_host_slot`: the reserved `vm_num`, `some none` when the host refused, `none` when it raised. -/
def reserveHostSlot (host : HostRow) (vcpu mem : Int) : CtlProg (Option (Option Int)) :=
  match host.totalVcpu, host.totalMemMb with
  | some tv, some tm => do
    let r ← req (.reserveHost host.instanceId (reserveCond cfg tv tm vcpu mem) vcpu mem)
    match r with
    | .next n => pure (some (some (n - 1)))
    | .refused => pure (some none)
    | .failed => pure none
  | _, _ => pure none

/-- What `_reserve_host_slot` makes of the answer. -/
def reserved : ReserveAns → Option (Option Int)
  | .next n => some (some (n - 1))
  | .refused => some none
  | .failed => none

theorem reserveHostSlot_eq {h : HostRow} {tv tm vcpu mem : Int} (htv : h.totalVcpu = some tv) (htm : h.totalMemMb = some tm) :
    reserveHostSlot cfg h vcpu mem =
      .call (.reserveHost h.instanceId (reserveCond cfg tv tm vcpu mem) vcpu mem) fun r => .ret (reserved r) := by
  simp only [reserveHostSlot, htv, htm, req_bind]
  congr 1
  funext r
  cases r <;> rfl

/-- `_release_host_slot`: `false` when it raised. -/
def releaseHostSlot (id : HostId) (vcpu mem : Int) : CtlProg Bool := do
  let r ← req (.updHost id (.release vcpu mem))
  pure r.isSome

/-- The reservation loop of `create_tenant`: the first candidate that takes the tenant. -/
def reserveFirst (vcpu mem : Int) : List HostRow → CtlProg (Option (Option (HostRow × Int)))
  | [] => pure (some none)
  | h :: hs => do
    let r ← reserveHostSlot cfg h vcpu mem
    match r with
    | none => pure none
    | some (some n) => pure (some (some (h, n)))
    | some none => reserveFirst vcpu mem hs

end OpenClaw
