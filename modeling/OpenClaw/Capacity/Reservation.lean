import OpenClaw.Control.Execute
import OpenClaw.Control.Frame
import OpenClaw.Lib.Moments
import OpenClaw.Lib.Trace

/-!
# The reservation keeps a host within its bounds

Any number of `create_tenant` calls run interleaved. The ceilings in the condition of `_reserve_host_slot` are computed
from a row that was read earlier, but only from its totals, and these do not change; so the condition, evaluated on the
live row, is the bound itself.

- `ReturnsNum`: a step of the run with which `_reserve_host_slot` returned a number.
- `createTenant_obeys`: the calls `create_tenant` makes on the hosts table, and the number it writes (`slotProtocol`).
- `reservation_within_bounds`: in every reachable state the host is within its bounds, no two reservations returned the
  same `vm_num`, and the rows that were put have the number of a reservation.
-/

namespace OpenClaw

open Keyed Atomic

variable (cfg : Config)

/-- `create_tenant` calls, each on any request. -/
def createJobs : Jobs Ctl World CreateRequest Resp where
  body := createTenant cfg
  start _ w w' := w' = w

/-- The counters of a host are within what its totals and the configuration allow. -/
structure WithinBounds (h : HostRow) : Prop where
  vcpu : ∀ u, h.usedVcpu = some u → u ≤ (allocatable cfg h).1
  mem : ∀ u, h.usedMemMb = some u → u ≤ (allocatable cfg h).2
  vms : 0 < cfg.maxVmsPerHost → ∀ n, h.vmCount = some n → n ≤ cfg.maxVmsPerHost

/-- With this step of process `i`, `_reserve_host_slot` returns `n` to it, called with a copy of the host's row. -/
def ReturnsNum {ι : Type} (host : HostId) (i : ι) (n : Int) (e : Ev Ctl CreateRequest ι) : Prop :=
  ∃ (c : Call) (r : c.Ans) (h : HostRow) (v m : Int), e = .call i c r ∧ h.instanceId = host ∧
    (reserveHostSlot cfg h v m).Plays [⟨c, r⟩] (some (some n))

/-- The numbers of a host that were given out in a run. -/
structure NumbersApart {ι : Type} (host : HostId) (tr : List (Ev Ctl CreateRequest ι)) : Prop where
  /-- Each update that the condition lets through returns a number. -/
  returned : ∀ i cond v m k, (Ev.call i (Call.reserveHost host cond v m) (.next k) : Ev Ctl CreateRequest ι) ∈ tr →
    ∃ n, ReturnsNum cfg host i n (Ev.call i (Call.reserveHost host cond v m) (.next k) : Ev Ctl CreateRequest ι)
  distinct : tr.Pairwise fun e e' => ∀ i i' n n', ReturnsNum cfg host i n e → ReturnsNum cfg host i' n' e' → n ≠ n'
  /-- A row on the host is put with a number that was returned to the process that puts it. -/
  written : ∀ pre i t ok post, tr = pre ++ Ev.call i (Call.putTenant t) ok :: post → t.hostId = some host →
    ∃ n, t.vmNum = some n ∧ ∃ e ∈ pre, ReturnsNum cfg host i n e

def isRelease {ι : Type} : Ev Ctl CreateRequest ι → Bool
  | .call _ (.updHost _ (.release _ _)) _ => true
  | _ => false

/-- Releases undo bookings of non-negative size. -/
def releasesNonneg {ι : Type} (_ : List (Ev Ctl CreateRequest ι)) (_ : World) (e : Ev Ctl CreateRequest ι) : Prop :=
  ∀ i id v m r, e = .call i (.updHost id (.release v m)) r → 0 ≤ v ∧ 0 ≤ m

/-! ## The protocol of create_tenant -/

/-- A copy of the host's row, however old, has the totals of the host. -/
def SameTotals (row h : HostRow) : Prop :=
  h.instanceId = row.instanceId → h.totalVcpu = row.totalVcpu ∧ h.totalMemMb = row.totalMemMb

/-- The writes `create_tenant` makes on the hosts table, on answers that show the host's true totals, and the number it
puts into a row: the one of the slot it holds. -/
def slotProtocol (row : HostRow) : Protocol Ctl CreateRequest (Option (HostId × Int)) where
  init _ := none
  allow g c :=
    match c with
    | .reserveHost id cond v m => id = row.instanceId →
      ∃ tv tm, row.totalVcpu = some tv ∧ row.totalMemMb = some tm ∧ cond = reserveCond cfg tv tm v m
    | .putTenant t => ∀ host, t.hostId = some host → ∃ n, t.vmNum = some n ∧ g = some (host, n)
    | .updHost _ u => ∃ v m, u = .release v m
    | .putHost _ | .raiseNext _ _ | .incNext _ | .deleteHost _ => False
    | _ => True
  sane _ c :=
    match c with
    | .getHost _ => fun r => ∀ h, r = some h → SameTotals row h
    | .scanHosts _ => fun r => ∀ h ∈ r, SameTotals row h
    | .shuffle hs => fun r => r.Perm hs
    | _ => fun _ => True
  next g c :=
    match c with
    | .reserveHost id _ _ _ => fun r =>
      match r with
      | .next n => some (id, n - 1)
      | _ => g
    | _ => fun _ => g

section Obeys

variable {cfg} {row : HostRow} {α : Type} {g : Option (HostId × Int)}

theorem obeys_of_quiet {p : CtlProg α} (hp : p.All Call.quiet) :
    p.obeys (slotProtocol cfg row) (fun _ g' => g' = g) g := by
  refine Prog.All.obeys (fun c hc => ?_) hp
  cases c <;> first | exact ⟨trivial, fun _ => rfl⟩ | exact Bool.noConfusion hc.1 | exact Bool.noConfusion hc.2.1

/-- A number that is returned is held from then on. -/
theorem reserveHostSlot_obeys {h : HostRow} (hh : SameTotals row h) (v m : Int) :
    (reserveHostSlot cfg h v m).obeys (slotProtocol cfg row)
      (fun r g' => ∀ n, r = some (some n) → g' = some (h.instanceId, n)) g := by
  unfold reserveHostSlot
  cases hv : h.totalVcpu with
  | none => rintro n ⟨⟩
  | some tv =>
    cases hm : h.totalMemMb with
    | none => rintro n ⟨⟩
    | some tm =>
      simp only [req_bind, Prog.pure_eq]
      refine ⟨fun e => ?_, fun r _ => ?_⟩
      · obtain ⟨ev, em⟩ := hh e
        exact ⟨tv, tm, ev ▸ hv, em ▸ hm, rfl⟩
      · cases r with
        | next k => rintro n ⟨⟩; rfl
        | refused => rintro n ⟨⟩
        | failed => rintro n ⟨⟩

theorem reserveFirst_obeys {hs : List HostRow} (hh : ∀ h ∈ hs, SameTotals row h) (v m : Int) :
    (reserveFirst cfg v m hs).obeys (slotProtocol cfg row)
      (fun r g' => ∀ h n, r = some (some (h, n)) → g' = some (h.instanceId, n)) g := by
  induction hs generalizing g with
  | nil => rintro h n ⟨⟩
  | cons h hs ih =>
    rw [reserveFirst, Prog.obeys_bind]
    refine Prog.obeys_mono (fun r g' hr => ?_) (reserveHostSlot_obeys (hh h (by simp)) v m)
    rcases r with _ | _ | n
    · rintro h n ⟨⟩
    · exact ih fun h' hm => hh h' (by simp [hm])
    · rintro h' n' ⟨⟩
      exact hr n rfl

theorem getSpecificHostWithCapacity_obeys (id : HostId) (v m : Int) :
    (getSpecificHostWithCapacity cfg id v m).obeys (slotProtocol cfg row)
      (fun r _ => ∀ h, r = some h → SameTotals row h) g := by
  simp only [getSpecificHostWithCapacity, req_bind, Prog.pure_eq]
  refine ⟨trivial, fun r hr => ?_⟩
  cases r with
  | none => intro h hh; cases hh
  | some h =>
    simp only
    split
    · split
      · exact hr
      · intro h' hh; cases hh
    · intro h' hh; cases hh

theorem pickHostsForCreate_obeys (v m : Int) :
    (pickHostsForCreate cfg v m).obeys (slotProtocol cfg row) (fun hs _ => ∀ h ∈ hs, SameTotals row h) g := by
  simp only [pickHostsForCreate, rankCandidateHosts, req_bind, Prog.pure_eq, Prog.call_bind, Prog.ret_bind]
  refine ⟨trivial, fun hosts hhosts => ?_⟩
  have hranked : ∀ h ∈ rankHosts cfg hosts v m, SameTotals row h :=
    fun h hh => hhosts h ((mem_rankHosts cfg).1 hh).1
  beta_reduce
  split
  · intro h hh; cases hh
  · refine ⟨trivial, fun head hhead h hh => ?_⟩
    rcases List.mem_append.1 hh with hh | hh
    · exact hranked h (List.mem_of_mem_take (hhead.mem_iff.1 hh))
    · exact hranked h (List.mem_of_mem_drop hh)

theorem candidateHosts_obeys (r : CreateRequest) (src : Option TenantRow) :
    (candidateHosts cfg r src).obeys (slotProtocol cfg row)
      (fun hs _ => ∀ l, hs = .inr l → ∀ h ∈ l, SameTotals row h) g := by
  have one : ∀ {h : HostRow}, SameTotals row h → ∀ l, (Sum.inr [h] : Resp ⊕ List HostRow) = .inr l →
      ∀ h' ∈ l, SameTotals row h' := by
    rintro h hh l ⟨⟩ h' hm
    rwa [List.mem_singleton.1 hm]
  have code : ∀ n : Resp, ∀ l, (Sum.inl n : Resp ⊕ List HostRow) = .inr l → ∀ h' ∈ l, SameTotals row h' := by
    rintro n l ⟨⟩
  unfold candidateHosts
  cases src with
  | some s =>
    simp only
    cases s.hostId with
    | none => exact code 500
    | some h =>
      simp only [Prog.obeys_bind]
      refine Prog.obeys_mono (fun host _ hhost => ?_) (getSpecificHostWithCapacity_obeys h r.vcpu r.memMb)
      cases host with
      | none => exact code 400
      | some host => exact one (hhost host rfl)
  | none =>
    simp only
    split
    · rw [Prog.obeys_bind]
      refine Prog.obeys_mono (fun host _ hhost => ?_) (getSpecificHostWithCapacity_obeys _ r.vcpu r.memMb)
      cases host with
      | some host => exact one (hhost host rfl)
      | none =>
        simp only [req_bind]
        refine ⟨trivial, fun e _ => ?_⟩
        cases e with
        | none => exact code 404
        | some e => exact code _
    · rw [Prog.obeys_bind]
      refine Prog.obeys_mono (fun hs _ hhs => ?_) (pickHostsForCreate_obeys r.vcpu r.memMb)
      rintro l ⟨⟩ h hm
      exact hhs h (List.mem_of_mem_take hm)

theorem cloneRollback_obeys (r : CreateRequest) (tid : TenantId) (host : HostId) :
    (cloneRollback r tid host).obeys (slotProtocol cfg row) (fun _ _ => True) g := by
  simp only [cloneRollback, releaseHostSlot, req_bind, Prog.pure_eq, Prog.call_bind, Prog.ret_bind]
  refine ⟨⟨_, _, rfl⟩, fun ok _ => ?_⟩
  cases ok with
  | none => trivial
  | some _ => exact ⟨trivial, fun _ _ => trivial⟩

theorem launchCreated_obeys (r : CreateRequest) (t : TenantRow) (host : HostRow) (n : Int) :
    (launchCreated cfg r t host n).obeys (slotProtocol cfg row) (fun _ _ => True) g :=
  Prog.obeys_mono (fun _ _ _ => trivial) (obeys_of_quiet (launchCreated_quiet cfg r t host n))

/-- The row is put with the number of the slot that is held. -/
theorem createOn_obeys (r : CreateRequest) (src : Option TenantRow) (tid : TenantId) (key : String) (now : Time)
    (host : HostRow) (n : Int) (hg : g = some (host.instanceId, n)) :
    (createOn cfg r src tid key now host n).obeys (slotProtocol cfg row) (fun _ _ => True) g := by
  simp only [createOn, req_bind, Prog.pure_eq]
  refine ⟨?_, fun ok _ => ?_⟩
  · rintro id ⟨⟩
    exact ⟨n, rfl, hg⟩
  cases ok with
  | false => trivial
  | true =>
    cases src with
    | none => exact launchCreated_obeys r _ host n
    | some s =>
      refine ⟨trivial, fun ok _ => ?_⟩
      cases ok with
      | true => exact launchCreated_obeys r _ host n
      | false => exact cloneRollback_obeys r tid host.instanceId

theorem savePending_obeys (r : CreateRequest) (tid : TenantId) (key : String) (now : Time) :
    (savePending r tid key now).obeys (slotProtocol cfg row) (fun _ _ => True) g := by
  simp only [savePending, req_bind, Prog.pure_eq]
  refine ⟨by rintro id ⟨⟩, fun ok _ => ?_⟩
  cases ok with
  | false => trivial
  | true => exact ⟨trivial, fun _ _ => trivial⟩

theorem createPlaced_obeys (r : CreateRequest) (src : Option TenantRow) (key : String) :
    (createPlaced cfg r src key).obeys (slotProtocol cfg row) (fun _ _ => True) g := by
  simp only [createPlaced, req_bind, Prog.pure_eq]
  refine ⟨trivial, fun tid _ => ⟨trivial, fun now _ => ?_⟩⟩
  rw [Prog.obeys_bind]
  refine Prog.obeys_mono (fun hosts _ hhosts => ?_) (candidateHosts_obeys r src)
  cases hosts with
  | inl code => trivial
  | inr hosts =>
    simp only [Prog.obeys_bind]
    refine Prog.obeys_mono (fun slot _ hslot => ?_) (reserveFirst_obeys (hhosts hosts rfl) r.vcpu r.memMb)
    rcases slot with _ | _ | ⟨host, n⟩
    · trivial
    · exact savePending_obeys r tid key now
    · exact createOn_obeys r src tid key now host n (hslot host n rfl)

/-- **The protocol of create_tenant.** -/
theorem createTenant_obeys (r : CreateRequest) :
    (createTenant cfg r).obeys (slotProtocol cfg row) (fun _ _ => True) none := by
  unfold createTenant
  split
  · trivial
  split
  · trivial
  rw [Prog.obeys_bind]
  refine Prog.obeys_mono (fun src _ _ => ?_) (obeys_of_quiet (cloneSource_quiet r))
  cases src with
  | inl code => trivial
  | inr src =>
    simp only [Prog.obeys_bind]
    refine Prog.obeys_mono (fun key _ _ => ?_) (obeys_of_quiet (restoreKeyOf_quiet r))
    cases key with
    | inl code => trivial
    | inr key => exact createPlaced_obeys r src key

end Obeys

/-! ## The numbers returned -/

section Returned

variable {cfg} {ι : Type} {host : HostId} {i : ι} {n k : Int} {e : Ev Ctl CreateRequest ι}

/-- A number is returned with an update that DynamoDB lets through: it is the one before the new `next_vm_num`. -/
theorem ReturnsNum.update (h : ReturnsNum cfg host i n e) :
    ∃ cond v m k, e = .call i (Call.reserveHost host cond v m) (.next k) ∧ k - 1 = n := by
  obtain ⟨c, r, x, v, m, rfl, rfl, hp⟩ := h
  cases htv : x.totalVcpu with
  | none =>
    simp only [reserveHostSlot, htv] at hp
    cases hp
  | some tv =>
    cases htm : x.totalMemMb with
    | none =>
      simp only [reserveHostSlot, htv, htm] at hp
      cases hp
    | some tm =>
      rw [reserveHostSlot_eq cfg htv htm] at hp
      obtain ⟨r', l', he, hret⟩ := Prog.plays_call.1 hp
      cases he
      have hr := (Prog.plays_ret.1 hret).2
      cases r' with
      | next k => exact ⟨_, v, m, k, rfl, Option.some.inj (Option.some.inj hr)⟩
      | refused => cases hr
      | failed => cases hr

/-- The reservation with the condition of a row with these totals. -/
theorem returnsNum_of_update {row : HostRow} {tv tm v m : Int} (htv : row.totalVcpu = some tv)
    (htm : row.totalMemMb = some tm) (hk : n = k - 1) : ReturnsNum cfg row.instanceId i n
      (Ev.call i (Call.reserveHost row.instanceId (reserveCond cfg tv tm v m) v m) (.next k) : Ev Ctl CreateRequest ι) := by
  subst hk
  refine ⟨_, _, row, v, m, rfl, rfl, ?_⟩
  rw [reserveHostSlot_eq cfg htv htm]
  exact .call (.ret _)

end Returned

/-! ## The invariant -/

section Invariant

variable {cfg}

/-- A reservation that the row's condition lets through stays within the bounds. -/
theorem WithinBounds.reserve {h h' : HostRow} {tv tm v m : Int} (htv : h.totalVcpu = some tv)
    (htm : h.totalMemMb = some tm) (hc : (reserveCond cfg tv tm v m).holds h = true)
    (hu : (HostUpdate.reserve v m).apply h = some h') : WithinBounds cfg h' := by
  obtain ⟨uv, um, c, n, huv, hum, hcnt, -, rfl⟩ := HostUpdate.reserve_eq_some.1 hu
  obtain ⟨⟨_, huv', hv⟩, ⟨_, hum', hm⟩, hn⟩ := ReserveCond.holds_iff.1 hc
  obtain rfl := Option.some.inj (huv.symm.trans huv')
  obtain rfl := Option.some.inj (hum.symm.trans hum')
  simp only [reserveCond] at hv hm hn
  refine ⟨?_, ?_, ?_⟩
  · rintro u ⟨⟩
    simp only [allocatable, htv, Option.getD_some]
    omega
  · rintro u ⟨⟩
    simp only [allocatable, htm, Option.getD_some]
    omega
  · rintro hpos k ⟨⟩
    obtain ⟨k, hk, hlt⟩ := hn _ (if_neg (by omega))
    obtain rfl := Option.some.inj (hcnt.symm.trans hk)
    omega

/-- Undoing a booking of non-negative size stays within the bounds. -/
theorem WithinBounds.release {h h' : HostRow} (hb : WithinBounds cfg h) {v m : Int} (hv : 0 ≤ v) (hm : 0 ≤ m)
    (hu : (HostUpdate.release v m).apply h = some h') : WithinBounds cfg h' := by
  obtain ⟨uv, um, c, huv, hum, hcnt, rfl⟩ := HostUpdate.release_eq_some.1 hu
  refine ⟨?_, ?_, ?_⟩
  · rintro u ⟨⟩
    have := hb.vcpu uv huv
    simp only [allocatable] at this ⊢
    omega
  · rintro u ⟨⟩
    have := hb.mem um hum
    simp only [allocatable] at this ⊢
    omega
  · rintro hpos k ⟨⟩
    have := hb.vms hpos c hcnt
    omega

/-- What every run of `create_tenant` calls keeps about the host of `row`. -/
structure SlotInv {ι : Type} [DecidableEq ι] (cfg : Config) (row : HostRow) (tr : List (Ev Ctl CreateRequest ι))
    (w : World) : Prop where
  live : ∃ h, w.hosts.get row.instanceId = some h ∧ SameTotals row h ∧ WithinBounds cfg h ∧
    ∀ e ∈ tr, ∀ i n, ReturnsNum cfg row.instanceId i n e → ∀ k, h.nextVmNum = some k → n < k
  apart : tr.Pairwise fun e e' => ∀ i i' n n', ReturnsNum cfg row.instanceId i n e →
    ReturnsNum cfg row.instanceId i' n' e' → n ≠ n'
  /-- The number of a slot that is held was returned. -/
  held : ∀ i n, (slotProtocol cfg row).locs tr i = some (some (row.instanceId, n)) →
    ∃ e ∈ tr, ReturnsNum cfg row.instanceId i n e

variable {ι : Type} [DecidableEq ι] {row : HostRow} {tr : List (Ev Ctl CreateRequest ι)} {w w' : World}

/-- Every row read is a copy with the host's totals. -/
theorem SlotInv.sameTotals (hI : SlotInv cfg row tr w) {h : HostRow} (hm : h ∈ w.hosts.rows) : SameTotals row h := by
  intro e
  obtain ⟨h₁, hg, hst, -⟩ := hI.live
  obtain rfl : h = h₁ := Option.some.inj ((Table.get_of_mem hm).symm.trans (e ▸ hg))
  exact hst e

/-- Who holds a slot after a step. -/
theorem slot_held_snoc {e : Ev Ctl CreateRequest ι} {i : ι} {n : Int}
    (h : (slotProtocol cfg row).locs (tr ++ [e]) i = some (some (row.instanceId, n))) :
    (slotProtocol cfg row).locs tr i = some (some (row.instanceId, n)) ∨
      ∃ cond v m k, e = .call i (Call.reserveHost row.instanceId cond v m) (.next k) ∧ k - 1 = n := by
  rw [Protocol.locs_snoc] at h
  cases e with
  | start j r =>
    by_cases hj : i = j
    · subst hj
      simp [Protocol.stepLoc, slotProtocol] at h
    · exact .inl (by simpa [Protocol.stepLoc, hj] using h)
  | call j c r =>
    by_cases hj : i = j
    · subst hj
      simp only [Protocol.stepLoc, Function.update_self, Option.map_eq_some_iff] at h
      obtain ⟨g, hg, hn⟩ := h
      cases c
      case reserveHost id cond v m =>
        cases r with
        | next k =>
          obtain ⟨rfl, rfl⟩ := Prod.mk.inj (Option.some.inj hn)
          exact .inr ⟨cond, v, m, k, rfl, rfl⟩
        | refused => exact .inl (hg.trans (congrArg some hn))
        | failed => exact .inl (hg.trans (congrArg some hn))
      all_goals exact .inl (hg.trans (congrArg some hn))
    · exact .inl (by simpa [Protocol.stepLoc, hj] using h)

/-- A step that returns no number on the host and does not change its row. -/
theorem SlotInv.frame (hI : SlotInv cfg row tr w) {e : Ev Ctl CreateRequest ι}
    (he : ∀ i n, ¬ ReturnsNum cfg row.instanceId i n e)
    (hres : ∀ i cond v m k, e ≠ .call i (Call.reserveHost row.instanceId cond v m) (.next k))
    (hlive : ∃ h, w'.hosts.get row.instanceId = some h ∧ SameTotals row h ∧ WithinBounds cfg h ∧
      ∀ e ∈ tr, ∀ i n, ReturnsNum cfg row.instanceId i n e → ∀ k, h.nextVmNum = some k → n < k) :
    SlotInv cfg row (tr ++ [e]) w' := by
  obtain ⟨h, hg, hst, hb, hlt⟩ := hlive
  refine ⟨⟨h, hg, hst, hb, ?_⟩, ?_, fun i n hh => ?_⟩
  · intro x hx i n hn
    rcases List.mem_append.1 hx with hx | hx
    · exact hlt x hx i n hn
    · obtain rfl := List.mem_singleton.1 hx
      exact absurd hn (he i n)
  · refine List.pairwise_append.2 ⟨hI.apart, List.pairwise_singleton _ _, fun x _ y hy i i' n n' _ hn' => ?_⟩
    obtain rfl := List.mem_singleton.1 hy
    exact absurd hn' (he i' n')
  · rcases slot_held_snoc hh with hh | ⟨cond, v, m, k, hc, -⟩
    · obtain ⟨x, hx, hn⟩ := hI.held i n hh
      exact ⟨x, List.mem_append_left _ hx, hn⟩
    · exact absurd hc (hres i cond v m k)

/-- A step that is no reservation that was let through, and leaves the row as it is. -/
theorem SlotInv.idle (hI : SlotInv cfg row tr w) {e : Ev Ctl CreateRequest ι}
    (hres : ∀ i cond v m k, e ≠ .call i (Call.reserveHost row.instanceId cond v m) (.next k))
    (hh : w'.hosts.get row.instanceId = w.hosts.get row.instanceId) : SlotInv cfg row (tr ++ [e]) w' := by
  refine hI.frame (fun i n hn => ?_) hres (hh ▸ hI.live)
  obtain ⟨cond, v, m, k, he, -⟩ := hn.update
  exact hres i cond v m k he

/-- A reservation on some host. -/
theorem SlotInv.reserve (hI : SlotInv cfg row tr w) {i : ι} {id : HostId} {cond : ReserveCond} {v m n : Int}
    (hc : id = row.instanceId →
      ∃ tv tm, row.totalVcpu = some tv ∧ row.totalMemMb = some tm ∧ cond = reserveCond cfg tv tm v m)
    (hs : World.step (.reserveHost id cond v m) (.next n) w w') :
    SlotInv cfg row (tr ++ [.call i (Call.reserveHost id cond v m) (.next n)]) w' := by
  obtain ⟨h, h', hg, hholds, hu, hn, rfl⟩ := hs
  have hid' : h'.instanceId = id := (HostUpdate.apply_id hu).trans (Table.key_of_get hg)
  by_cases e : id = row.instanceId
  · subst e
    obtain ⟨tv, tm, htv, htm, rfl⟩ := hc rfl
    obtain ⟨h₁, hg₁, hst, hb, hlt⟩ := hI.live
    obtain rfl : h = h₁ := Option.some.inj (hg.symm.trans hg₁)
    obtain ⟨et, em⟩ := hst (Table.key_of_get hg)
    have hput : (w.putHost h').hosts.get row.instanceId = some h' := by
      rw [World.putHost_hosts, Table.get_put, if_pos hid'.symm]
    obtain ⟨k, hk, hk', hsame⟩ : ∃ k, h.nextVmNum = some k ∧ h'.nextVmNum = some (k + 1) ∧
        h'.totalVcpu = h.totalVcpu ∧ h'.totalMemMb = h.totalMemMb := by
      obtain ⟨uv, um, c, k, -, -, -, hk, rfl⟩ := HostUpdate.reserve_eq_some.1 hu
      exact ⟨k, hk, rfl, rfl, rfl⟩
    obtain rfl : k + 1 = n := Option.some.inj (hk'.symm.trans hn)
    have hret : ReturnsNum cfg row.instanceId i k (Ev.call i
        (Call.reserveHost row.instanceId (reserveCond cfg tv tm v m) v m) (.next (k + 1)) : Ev Ctl CreateRequest ι) :=
      returnsNum_of_update htv htm (by omega)
    have honly : ∀ {i' : ι} {n' : Int}, ReturnsNum cfg row.instanceId i' n' (Ev.call i
        (Call.reserveHost row.instanceId (reserveCond cfg tv tm v m) v m) (.next (k + 1)) : Ev Ctl CreateRequest ι) →
        n' = k := by
      intro i' n' hn'
      obtain ⟨cond, v', m', k', he, rfl⟩ := hn'.update
      cases he
      omega
    have hb' := WithinBounds.reserve (et.trans htv) (em.trans htm) hholds hu
    refine ⟨⟨h', hput, fun _ => ⟨hsame.1.trans et, hsame.2.trans em⟩, hb', ?_⟩, ?_, fun i' n' hh => ?_⟩
    · intro x hx i' n' hn' k' hk''
      obtain rfl := Option.some.inj (hk'.symm.trans hk'')
      rcases List.mem_append.1 hx with hx | hx
      · have := hlt x hx i' n' hn' k hk
        omega
      · obtain rfl := List.mem_singleton.1 hx
        have := honly hn'
        omega
    · refine List.pairwise_append.2 ⟨hI.apart, List.pairwise_singleton _ _, fun x hx y hy i₁ i₂ n₁ n₂ h₁ h₂ => ?_⟩
      obtain rfl := List.mem_singleton.1 hy
      rw [honly h₂]
      exact (hlt x hx i₁ n₁ h₁ k hk).ne
    · rcases slot_held_snoc hh with hh | ⟨cond, v', m', k', he, rfl⟩
      · obtain ⟨x, hx, hn'⟩ := hI.held i' n' hh
        exact ⟨x, List.mem_append_left _ hx, hn'⟩
      · cases he
        rw [Int.add_sub_cancel]
        exact ⟨_, List.mem_append_right _ (List.mem_singleton_self _), hret⟩
  · refine hI.idle (fun i' cond' v' m' k he => ?_) ?_
    · cases he
      exact e rfl
    · simp only [World.putHost_hosts]
      exact Table.get_put_ne _ fun e' => e (hid'.symm.trans e'.symm)

/-- A release on some host. -/
theorem SlotInv.release (hI : SlotInv cfg row tr w) {i : ι} {id : HostId} {v m : Int} {r : Option HostRow}
    (hv : 0 ≤ v) (hm : 0 ≤ m) (hs : World.step (.updHost id (.release v m)) r w w') :
    SlotInv cfg row (tr ++ [.call i (Call.updHost id (.release v m)) r]) w' := by
  have hres : ∀ i' cond v' m' k, (Ev.call i (Call.updHost id (.release v m)) r : Ev Ctl CreateRequest ι) ≠
      .call i' (Call.reserveHost row.instanceId cond v' m') (.next k) := by
    intro i' cond v' m' k he
    cases he
  cases r with
  | none => exact hI.idle hres (by rw [show w' = w from hs])
  | some h' =>
    obtain ⟨hu, rfl⟩ := hs
    have hid' : h'.instanceId = (w.hostRow id).instanceId := HostUpdate.apply_id hu
    by_cases e : id = row.instanceId
    · subst e
      obtain ⟨h, hg, hst, hb, hlt⟩ := hI.live
      have hrow : w.hostRow row.instanceId = h := by simp [World.hostRow, HostRow.orNew, hg]
      rw [World.updatedHost, hrow] at hu
      rw [hrow] at hid'
      have hput : (w.putHost h').hosts.get row.instanceId = some h' := by
        rw [World.putHost_hosts, Table.get_put, if_pos (hid'.trans (Table.key_of_get hg)).symm]
      have hsame : h'.totalVcpu = h.totalVcpu ∧ h'.totalMemMb = h.totalMemMb ∧ h'.nextVmNum = h.nextVmNum := by
        obtain ⟨uv, um, c, -, -, -, rfl⟩ := HostUpdate.release_eq_some.1 hu
        exact ⟨rfl, rfl, rfl⟩
      obtain ⟨et, em⟩ := hst (Table.key_of_get hg)
      refine hI.frame (fun i' n hn => ?_) hres ⟨h', hput, fun _ => ⟨hsame.1.trans et, hsame.2.1.trans em⟩,
        hb.release hv hm hu, hsame.2.2 ▸ hlt⟩
      obtain ⟨cond, v', m', k, he, -⟩ := hn.update
      exact hres i' cond v' m' k he
    · refine hI.idle hres ?_
      have hid : (w.hostRow id).instanceId = id := w.hostRow_id id
      simp only [World.putHost_hosts]
      exact Table.get_put_ne _ fun e' => e ((hid'.trans hid).symm.trans e'.symm)

/-- The answers `create_tenant` relies on. -/
theorem SlotInv.sane (hI : SlotInv cfg row tr w) {g : Option (HostId × Int)} {c : Call} {r : c.Ans}
    (hs : World.step c r w w') :
    (slotProtocol cfg row).sane g c r := by
  cases c
  case getHost id =>
    rintro h rfl
    exact hI.sameTotals (Table.mem_of_get hs.1.symm)
  case scanHosts f =>
    intro h hm
    exact hI.sameTotals (List.mem_filter.1 (hs.1.mem_iff.1 hm)).1
  case shuffle hs' => exact hs.1
  all_goals trivial

end Invariant

/-- A run of `create_tenant` calls, with the slots its processes hold. -/
theorem Reach.slots {ι : Type} [DecidableEq ι] {w₀ : World} {row : HostRow}
    (hrow : w₀.hosts.get row.instanceId = some row) (hb : WithinBounds cfg row) {tr : List (Ev Ctl CreateRequest ι)}
    {c : Conf Ctl World CreateRequest ι Resp} (hr : Reach ctl (createJobs cfg) releasesNonneg (Conf.idle w₀) tr c) :
    SlotInv cfg row tr c.world ∧ (∀ i, c.proc i = none → (slotProtocol cfg row).locs tr i = none) ∧
      ∀ i j p, c.proc i = some (j, p) →
        ∃ g, (slotProtocol cfg row).locs tr i = some g ∧ p.obeys (slotProtocol cfg row) (fun _ _ => True) g := by
  have h₀ : SlotInv cfg row ([] : List (Ev Ctl CreateRequest ι)) w₀ := by
    refine ⟨⟨row, hrow, fun _ => ⟨rfl, rfl⟩, hb, fun e he => absurd he List.not_mem_nil⟩, .nil, fun i n hn => ?_⟩
    cases hn
  have hstart : ∀ (tr : List (Ev Ctl CreateRequest ι)) (w : World) (i : ι) (j : CreateRequest) (w' : World),
      SlotInv cfg row tr w → (slotProtocol cfg row).locs tr i = none → releasesNonneg tr w (.start i j) →
      (createJobs cfg).start j w w' → SlotInv cfg row (tr ++ [.start i j]) w' := by
    rintro tr w i j w' hI - - rfl
    exact hI.idle (by simp) rfl
  have hcall : ∀ (tr : List (Ev Ctl CreateRequest ι)) (w : World) (i : ι) (g : Option (HostId × Int)) (c : Call)
      (r : c.Ans) (w' : World), SlotInv cfg row tr w → (slotProtocol cfg row).locs tr i = some g →
      (slotProtocol cfg row).allow g c → releasesNonneg tr w (.call i c r) → World.step c r w w' →
      (slotProtocol cfg row).sane g c r ∧ SlotInv cfg row (tr ++ [.call i c r]) w' := by
    rintro tr w i g c r w' hI - hallow hg hs
    refine ⟨hI.sane hs, ?_⟩
    by_cases hw : c.writesHosts = false
    · refine hI.idle (fun i' cond v m k he => ?_) (by rw [step_hosts hw hs])
      cases he
      cases hw
    · cases c <;> first | exact absurd rfl hw | skip
      case reserveHost id cond v m =>
        cases r with
        | next n => exact hI.reserve hallow hs
        | refused => exact hI.idle (by simp) (by rw [hs.2])
        | failed => exact hI.idle (by simp) (by rw [show w' = w from hs])
      case updHost id u =>
        obtain ⟨v, m, rfl⟩ := hallow
        obtain ⟨hv, hm⟩ := hg _ _ _ _ _ rfl
        exact hI.release hv hm hs
      all_goals exact hallow.elim
  exact Reach.protocol createTenant_obeys h₀ hstart hcall hr

/-- **Atomic reservation.** On a host whose row is within its bounds at the start, after any interleaving of
`create_tenant` calls the row is within its bounds, its totals are the same, and the numbers that `_reserve_host_slot`
returned are distinct; they are the ones that are written. -/
theorem reservation_within_bounds {ι : Type} [DecidableEq ι] {w₀ : World} {host : HostId} {row : HostRow}
    (hrow : w₀.hosts.get host = some row) (hb : WithinBounds cfg row) {tr : List (Ev Ctl CreateRequest ι)}
    {c : Conf Ctl World CreateRequest ι Resp} (hr : Reach ctl (createJobs cfg) releasesNonneg (Conf.idle w₀) tr c) :
    (∃ h, c.world.hosts.get host = some h ∧ h.totalVcpu = row.totalVcpu ∧ h.totalMemMb = row.totalMemMb ∧
      WithinBounds cfg h) ∧ NumbersApart cfg host tr := by
  obtain rfl : row.instanceId = host := Table.key_of_get hrow
  have hruns := fun tr c => @Reach.slots cfg ι _ w₀ row hrow hb tr c
  obtain ⟨hI, -, -⟩ := hruns tr c hr
  obtain ⟨h, hg, hst, hb', -⟩ := hI.live
  obtain ⟨et, em⟩ := hst (Table.key_of_get hg)
  refine ⟨⟨h, hg, et, em, hb'⟩, ?_, hI.apart, ?_⟩
  · intro i cond v m k hm
    obtain ⟨pre, post, hcut⟩ := List.append_of_mem hm
    obtain ⟨w, g, w', -, -, hallow, -⟩ := Reach.protocol_at hruns hr hcut
    obtain ⟨tv, tm, htv, htm, rfl⟩ := hallow rfl
    exact ⟨k - 1, returnsNum_of_update htv htm rfl⟩
  · intro pre i t ok post hcut hhost
    obtain ⟨w, g, w', hI', hloc, hallow, -⟩ := Reach.protocol_at hruns hr hcut
    obtain ⟨n, hn, rfl⟩ := hallow _ hhost
    exact ⟨n, hn, hI'.held i n hloc⟩

/-! ## Three creates racing for one host -/

def raceWorld : World := { tenants := ⟨[], by decide⟩, hosts := ⟨[emptyHost "i-1" 1], by decide⟩ }

/-- Three processes read the host, then each of them reserves half of it. -/
def raceMoves : List (Move CreateRequest ℕ Hint) :=
  [0, 1, 2].map (.start · { name := "a", vcpu := 2, memMb := 2048, dataDiskMb := 2048 }) ++
    [0, 1, 2].flatMap (fun i => List.replicate 4 (.call i {})) ++ [0, 1, 2].map (.call · {})

/-- Process `i` had the next number of `i-1` raised to `k`. -/
def raisedTo (i : ℕ) (k : Int) : Ev Ctl CreateRequest ℕ → Bool
  | .call j (.reserveHost id _ _ _) (.next k') => j = i && id = "i-1" && k' = k
  | _ => false

theorem raisedTo_eq {i : ℕ} {k : Int} {e : Ev Ctl CreateRequest ℕ} (h : raisedTo i k e = true) :
    ∃ cond v m, e = .call i (Call.reserveHost "i-1" cond v m) (.next k) := by
  unfold raisedTo at h
  split at h
  · simp only [Bool.and_eq_true, decide_eq_true_eq] at h
    obtain ⟨⟨rfl, rfl⟩, rfl⟩ := h
    exact ⟨_, _, _, rfl⟩
  · cases h

/-- The third is refused; the first two get the numbers 1 and 2. -/
theorem reservation_within_bounds_race : ∃ (tr : List (Ev Ctl CreateRequest ℕ))
    (c : Conf Ctl World CreateRequest ℕ Resp), Reach ctl (createJobs {}) releasesNonneg (Conf.idle raceWorld) tr c ∧
      (∃ h, c.world.hosts.get "i-1" = some h ∧ WithinBounds {} h) ∧ NumbersApart {} "i-1" tr ∧
      (∃ e ∈ tr, ReturnsNum {} "i-1" 0 1 e) ∧ ∃ e ∈ tr, ReturnsNum {} "i-1" 1 2 e := by
  have hchk : ∀ (tr : List (Ev Ctl CreateRequest ℕ)) (w : World) (e : Ev Ctl CreateRequest ℕ),
      (!isRelease e) = true → releasesNonneg tr w e := by
    rintro tr w e he i id v m r rfl
    cases he
  have hst : ∀ (j : CreateRequest) (w w' : World), some w = some w' → (createJobs {}).start j w w' := by
    rintro j w w' ⟨⟩
    rfl
  have hplay : ((ctlOracle.play (createJobs {}) (fun _ w => some w) (fun _ _ e => !isRelease e) []
      (Conf.idle raceWorld) raceMoves).any fun x => x.1.any (raisedTo 0 2) && x.1.any (raisedTo 1 3)) = true := by
    decide +kernel
  obtain ⟨tr, c, hr, hnums⟩ := Oracle.exists_reach_of_play hst hchk hplay
  have hb : WithinBounds {} (emptyHost "i-1" 1) := by
    refine ⟨?_, ?_, by decide⟩ <;> rintro u ⟨⟩ <;> decide +kernel
  have hrow : raceWorld.hosts.get "i-1" = some (emptyHost "i-1" 1) := rfl
  obtain ⟨⟨h, hg, -, -, hb'⟩, hnd⟩ := reservation_within_bounds {} hrow hb hr
  have hreturned : ∀ {i : ℕ} {n : Int}, tr.any (raisedTo i (n + 1)) = true → ∃ e ∈ tr, ReturnsNum {} "i-1" i n e := by
    intro i n ha
    obtain ⟨e, he, hraised⟩ := List.any_eq_true.1 ha
    obtain ⟨cond, v, m, rfl⟩ := raisedTo_eq hraised
    obtain ⟨n', hn'⟩ := hnd.returned i cond v m _ he
    obtain ⟨_, _, _, _, heq, rfl⟩ := hn'.update
    cases heq
    rw [Int.add_sub_cancel] at hn'
    exact ⟨_, he, hn'⟩
  obtain ⟨h₀, h₁⟩ := Bool.and_eq_true _ _ |>.mp hnums
  exact ⟨tr, c, hr, ⟨h, hg, hb'⟩, hnd, hreturned h₀, hreturned h₁⟩

end OpenClaw
