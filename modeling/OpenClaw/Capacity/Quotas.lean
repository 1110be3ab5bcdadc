import OpenClaw.Capacity.Resizes
import OpenClaw.Capacity.Books

/-!
# Quotas

Three requests set the sizes of a tenant: create, resize and resize-disk. `_check_quota` bounds a size from above only,
and resize-disk does not call it. Any number of the requests run, one after the other or interleaved; `quotaProtocol`
follows what each has read and booked.

- `quotas_hold`: in every run whose requests are sized (`sizedRequests`), every tenant is within its quota at all times
  and a host's counters fall only when a booking is released.
- `negative_size_accepted`: without the condition a create lowers the counters of a host.
-/

namespace OpenClaw

open Keyed Atomic

variable (cfg : Config)

/-! ## Requests and what they have to keep -/

inductive SizeRequest
  | create (r : CreateRequest)
  | resize (tid : TenantId) (vcpu : Int)
  | resizeDisk (tid : TenantId) (sizeMb : Int)

def sizeJobs : Jobs Ctl World SizeRequest Resp where
  body
    | .create r => createTenant cfg r
    | .resize tid v => tenantAction cfg tid (.resize v)
    | .resizeDisk tid mb => tenantAction cfg tid (.resizeDisk mb)
  start _ w w' := w' = w

/-- A maximum of `0` is no maximum. -/
def AtMost (max v : Int) : Prop := max ≠ 0 → v ≤ max

/-- The size resize-disk compares with. -/
def TenantRow.diskMb (t : TenantRow) : Int := t.dataDiskMb.getD cfg.vmDataDiskMb

structure WithinQuota (t : TenantRow) : Prop where
  vcpu : 0 < t.vcpu ∧ AtMost cfg.quotasMaxVcpu t.vcpu
  memMb : 0 < t.memMb ∧ AtMost cfg.quotasMaxMemMb t.memMb
  disk : 0 < t.diskMb cfg ∧ AtMost cfg.quotasMaxDataDiskMb (t.diskMb cfg)

/-- The sizes of a create are positive and the default disk is within the quota; resize-disk asks for no more than the
quota. -/
def SizeRequest.Sized : SizeRequest → Prop
  | .create r => 0 < r.vcpu ∧ 0 < r.memMb ∧ 0 < cfg.vmDataDiskMb ∧ AtMost cfg.quotasMaxDataDiskMb cfg.vmDataDiskMb
  | .resize _ _ => True
  | .resizeDisk _ mb => AtMost cfg.quotasMaxDataDiskMb mb

def sizedRequests {ι : Type} (_ : List (Ev Ctl SizeRequest ι)) (_ : World) : Ev Ctl SizeRequest ι → Prop
  | .start _ j => j.Sized cfg
  | .call _ _ _ => True

/-- The step takes back a booking its process has made. -/
def Releases {ι : Type} (tr : List (Ev Ctl SizeRequest ι)) (e : Ev Ctl SizeRequest ι) : Prop :=
  ∃ i id v m r, e = .call i (.updHost id (.release v m)) r ∧
    ∃ c n, (Ev.call i (.reserveHost id c v m) (.next n) : Ev Ctl SizeRequest ι) ∈ tr

theorem overQuota_eq_false (he : cfg.quotasEnabled = true) {v m d : Int} :
    overQuota cfg v m d = false ↔
      AtMost cfg.quotasMaxVcpu v ∧ AtMost cfg.quotasMaxMemMb m ∧ AtMost cfg.quotasMaxDataDiskMb d := by
  simp only [overQuota, he, Bool.true_and, Bool.or_eq_false_iff, Bool.and_eq_false_iff, decide_eq_false_iff_not, AtMost]
  constructor
  · rintro ⟨⟨h₁, h₂⟩, h₃⟩
    refine ⟨fun h => ?_, fun h => ?_, fun h => ?_⟩ <;> omega
  · rintro ⟨h₁, h₂, h₃⟩
    refine ⟨⟨?_, ?_⟩, ?_⟩ <;> omega

/-! ## The protocol of the three requests -/

/-- Where a request stands. -/
inductive SizeState
  /-- A create, with the host it has booked. -/
  | create (r : CreateRequest) (booked : Option HostId)
  /-- A resize, with the row it has read. -/
  | resize (row : Option TenantRow)
  | resizeDisk (sizeMb : Int) (row : Option TenantRow)

/-- The row a create writes. -/
structure SizedRow (r : CreateRequest) (t : TenantRow) : Prop where
  checked : overQuota cfg r.vcpu r.memMb r.dataDiskMb = false
  vcpu : t.vcpu = r.vcpu
  memMb : t.memMb = r.memMb
  disk : t.dataDiskMb = none

/-- The writes of each request. -/
def SizeState.allows : SizeState → Call → Prop
  | .create r _, .putTenant t => SizedRow cfg r t
  | .create _ _, .updTenant _ u => u = .status .deleted
  | .create r _, .reserveHost _ _ v m => v = r.vcpu ∧ m = r.memMb
  | .create r booked, .updHost id u => booked = some id ∧ u = .release r.vcpu r.memMb
  | .resize row, .updTenant _ u => ∃ t v, row = some t ∧ u = .vcpu v ∧ t.vcpu < v ∧
      overQuota cfg v t.memMb (t.dataDiskMb.getD 0) = false
  | .resize _, .updHost _ u => ∃ d, u = .addVcpu d ∧ 0 < d
  | .resizeDisk mb row, .updTenant _ u => ∃ t, row = some t ∧ u = .dataDisk mb ∧ t.diskMb cfg < mb
  | _, c => c.quiet

def SizeState.next (g : SizeState) : (c : Call) → c.Ans → SizeState
  | .getTenant _ => fun a =>
    match g with
    | .create _ _ => g
    | .resize _ => .resize a
    | .resizeDisk mb _ => .resizeDisk mb a
  | .reserveHost id _ _ _ => fun a =>
    match g, a with
    | .create r _, .next _ => .create r (some id)
    | _, _ => g
  | _ => fun _ => g

def quotaProtocol : Protocol Ctl SizeRequest SizeState where
  init
    | .create r => .create r none
    | .resize _ _ => .resize none
    | .resizeDisk _ mb => .resizeDisk mb none
  allow := SizeState.allows cfg
  sane _ _ _ := True
  next := SizeState.next

section Obeys

variable {cfg} {r : CreateRequest} {α : Type} {g : SizeState}

theorem sizes_quiet {c : Call} (hc : c.quiet) : (quotaProtocol cfg).allow g c := by
  show g.allows cfg c
  cases g <;> cases c <;> first | exact hc | exact Bool.noConfusion hc.1 | exact Bool.noConfusion hc.2.1

/-- A part of a create that writes nothing. -/
theorem create_quiet {booked : Option HostId} {p : CtlProg α} (hp : p.All Call.quiet) :
    p.obeys (quotaProtocol cfg) (fun _ g => g = .create r booked) (.create r booked) := by
  refine Prog.All.obeys (fun c hc => ⟨sizes_quiet hc, fun a => ?_⟩) hp
  cases c <;> first | rfl | exact Bool.noConfusion hc.2.1

theorem create_ends {booked : Option HostId} {p : CtlProg α} (hp : p.All Call.quiet) :
    p.obeys (quotaProtocol cfg) (fun _ _ => True) (.create r booked) :=
  Prog.obeys_mono (fun _ _ _ => trivial) (create_quiet hp)

/-- What the loop has booked when it returns. -/
def BookedBy (r : CreateRequest) (slot : Option (Option (HostRow × Int))) (g : SizeState) : Prop :=
  ∃ booked, g = .create r booked ∧ ∀ h n, slot = some (some (h, n)) → booked = some h.instanceId

theorem reserveFirst_bookedBy (hs : List HostRow) :
    (reserveFirst cfg r.vcpu r.memMb hs).obeys (quotaProtocol cfg) (BookedBy r) (.create r none) := by
  induction hs with
  | nil => exact ⟨none, rfl, fun h n he => by cases he⟩
  | cons h hs ih =>
    simp only [reserveFirst, reserveHostSlot]
    split
    · simp only [req_bind, Prog.pure_eq, Prog.call_bind]
      refine ⟨⟨rfl, rfl⟩, fun a _ => ?_⟩
      cases a with
      | next n =>
        refine ⟨some h.instanceId, rfl, fun h' n' he => ?_⟩
        cases he
        rfl
      | refused => exact ih
      | failed => exact ⟨none, rfl, fun h n he => by cases he⟩
    · exact ⟨none, rfl, fun h n he => by cases he⟩

theorem sizedRow_creatingRow (hq : overQuota cfg r.vcpu r.memMb r.dataDiskMb = false) (tid : TenantId) (key : String)
    (now : Time) (host : HostRow) (n : Int) : SizedRow cfg r (creatingRow cfg r tid key now host n) :=
  ⟨hq, rfl, rfl, rfl⟩

theorem createOn_sizes (hq : overQuota cfg r.vcpu r.memMb r.dataDiskMb = false) (src : Option TenantRow)
    (tid : TenantId) (key : String) (now : Time) (host : HostRow) (n : Int) :
    (createOn cfg r src tid key now host n).obeys (quotaProtocol cfg) (fun _ _ => True)
      (.create r (some host.instanceId)) := by
  simp only [createOn, req_bind, Prog.pure_eq]
  refine ⟨sizedRow_creatingRow hq tid key now host n, fun ok _ => ?_⟩
  cases ok with
  | false => trivial
  | true =>
    cases src with
    | none => exact create_ends (launchCreated_quiet cfg r _ host n)
    | some s =>
      refine ⟨sizes_quiet ⟨rfl, rfl, rfl⟩, fun ok _ => ?_⟩
      cases ok with
      | true => exact create_ends (launchCreated_quiet cfg r _ host n)
      | false =>
        simp only [Bool.false_eq_true, if_false, cloneRollback, releaseHostSlot, req_bind, Prog.pure_eq,
          Prog.call_bind, Prog.ret_bind]
        refine ⟨⟨rfl, rfl⟩, fun h _ => ?_⟩
        cases h with
        | none => trivial
        | some _ => exact ⟨rfl, fun _ _ => trivial⟩

theorem createPlaced_sizes (hq : overQuota cfg r.vcpu r.memMb r.dataDiskMb = false) (src : Option TenantRow)
    (key : String) :
    (createPlaced cfg r src key).obeys (quotaProtocol cfg) (fun _ _ => True) (.create r none) := by
  simp only [createPlaced, req_bind, Prog.pure_eq]
  refine ⟨sizes_quiet ⟨rfl, rfl, rfl⟩, fun tid _ => ⟨sizes_quiet ⟨rfl, rfl, rfl⟩, fun now _ => ?_⟩⟩
  rw [Prog.obeys_bind]
  refine Prog.obeys_mono (fun hosts g hg => ?_) (create_quiet (candidateHosts_quiet cfg r src))
  subst hg
  cases hosts with
  | inl code => trivial
  | inr hosts =>
    simp only [Prog.obeys_bind]
    refine Prog.obeys_mono (fun slot g hg => ?_) (reserveFirst_bookedBy hosts)
    obtain ⟨booked, rfl, hbooked⟩ := hg
    rcases slot with _ | _ | ⟨host, n⟩
    · trivial
    · simp only [savePending, req_bind, Prog.pure_eq]
      refine ⟨⟨hq, rfl, rfl, rfl⟩, fun ok _ => ?_⟩
      cases ok with
      | false => trivial
      | true => exact ⟨sizes_quiet ⟨rfl, rfl, rfl⟩, fun _ _ => trivial⟩
    · obtain rfl := hbooked host n rfl
      exact createOn_sizes hq src tid key now host n

theorem createTenant_sizes (r : CreateRequest) :
    (createTenant cfg r).obeys (quotaProtocol cfg) (fun _ _ => True) (.create r none) := by
  unfold createTenant
  split
  · trivial
  rename_i hq
  have hq : overQuota cfg r.vcpu r.memMb r.dataDiskMb = false := Bool.eq_false_iff.2 hq
  split
  · trivial
  rw [Prog.obeys_bind]
  refine Prog.obeys_mono (fun src g hg => ?_) (create_quiet (cloneSource_quiet r))
  subst hg
  cases src with
  | inl code => trivial
  | inr src =>
    simp only [Prog.obeys_bind]
    refine Prog.obeys_mono (fun key g hg => ?_) (create_quiet (restoreKeyOf_quiet r))
    subst hg
    cases key with
    | inl code => trivial
    | inr key => exact createPlaced_sizes hq src key

theorem tenantResize_sizes (tid : TenantId) (v : Int) (row : Option TenantRow) :
    (tenantResize cfg tid v).obeys (quotaProtocol cfg) (fun _ _ => True) (.resize row) := by
  simp only [tenantResize, req_bind, Prog.pure_eq]
  refine ⟨sizes_quiet ⟨rfl, rfl, rfl⟩, fun item _ => ?_⟩
  cases item with
  | none => trivial
  | some t =>
    dsimp only
    split
    · trivial
    split
    · trivial
    split
    · trivial
    rename_i _ hgrow hq
    have hgrow : t.vcpu < v := by omega
    split
    · trivial
    refine ⟨sizes_quiet ⟨rfl, rfl, rfl⟩, fun h _ => ?_⟩
    cases h with
    | none => trivial
    | some h =>
      dsimp only
      split
      swap
      · trivial
      split
      · trivial
      refine ⟨sizes_quiet ⟨rfl, rfl, rfl⟩, fun ok _ => ?_⟩
      cases ok with
      | false => trivial
      | true =>
        refine ⟨⟨t, v, rfl, rfl, hgrow, Bool.eq_false_iff.2 hq⟩, fun ok _ => ?_⟩
        cases ok with
        | false => trivial
        | true => exact ⟨⟨v - t.vcpu, rfl, by omega⟩, fun _ _ => trivial⟩

theorem resizeDisk_sizes (t : TenantRow) (mb : Int) :
    (resizeDisk cfg.vmDataDiskMb t mb).obeys (quotaProtocol cfg) (fun _ _ => True) (.resizeDisk mb (some t)) := by
  unfold resizeDisk
  split
  · trivial
  rename_i hgrow
  split
  · trivial
  split
  · trivial
  simp only [req_bind, Prog.pure_eq]
  refine ⟨sizes_quiet ⟨rfl, rfl, rfl⟩, fun ok _ => ?_⟩
  cases ok with
  | false => trivial
  | true => exact ⟨⟨t, rfl, rfl, not_le.1 hgrow⟩, fun _ _ => trivial⟩

theorem sizeJobs_obeys (j : SizeRequest) :
    ((sizeJobs cfg).body j).obeys (quotaProtocol cfg) (fun _ _ => True) ((quotaProtocol cfg).init j) := by
  cases j with
  | create r => exact createTenant_sizes r
  | resize tid v =>
    refine ⟨sizes_quiet ⟨rfl, rfl, rfl⟩, fun item _ => ?_⟩
    cases item with
    | none => trivial
    | some t => exact tenantResize_sizes tid v (some t)
  | resizeDisk tid mb =>
    refine ⟨sizes_quiet ⟨rfl, rfl, rfl⟩, fun item _ => ?_⟩
    cases item with
    | none => trivial
    | some t => exact resizeDisk_sizes t mb

end Obeys

/-! ## The invariant -/

/-- The sizes a request works with. -/
def SizeState.Good : SizeState → Prop
  | .create r _ => (SizeRequest.create r).Sized cfg
  | .resize row => ∀ t, row = some t → WithinQuota cfg t
  | .resizeDisk mb row => AtMost cfg.quotasMaxDataDiskMb mb ∧ ∀ t, row = some t → WithinQuota cfg t

/-- The booking a create remembers was made in the run. -/
def SizeState.BookedIn {ι : Type} (g : SizeState) (i : ι) (tr : List (Ev Ctl SizeRequest ι)) : Prop :=
  ∀ r id, g = .create r (some id) → ∃ c n,
    (Ev.call i (.reserveHost id c r.vcpu r.memMb) (.next n) : Ev Ctl SizeRequest ι) ∈ tr

structure QuotaInv {ι : Type} [DecidableEq ι] (tr : List (Ev Ctl SizeRequest ι)) (w : World) : Prop where
  rows : ∀ t ∈ w.tenants.rows, WithinQuota cfg t
  states : ∀ i g, (quotaProtocol cfg).locs tr i = some g → g.Good cfg ∧ g.BookedIn i tr

section Invariant

variable {cfg} {ι : Type} [DecidableEq ι] {w w' : World} {tr : List (Ev Ctl SizeRequest ι)} {i : ι} {g : SizeState}

omit [DecidableEq ι] in
theorem SizeState.BookedIn.snoc (h : g.BookedIn i tr) (e : Ev Ctl SizeRequest ι) : g.BookedIn i (tr ++ [e]) := by
  intro r id hg
  obtain ⟨c, n, hmem⟩ := h r id hg
  exact ⟨c, n, List.mem_append_left _ hmem⟩

theorem QuotaInv.states_snoc (hI : QuotaInv cfg tr w) {e : Ev Ctl SizeRequest ι} {g' : SizeState} (hg' : g'.Good cfg)
    (hb : g'.BookedIn i (tr ++ [e])) (j : ι) (g : SizeState)
    (hj : Function.update ((quotaProtocol cfg).locs tr) i (some g') j = some g) :
    g.Good cfg ∧ g.BookedIn j (tr ++ [e]) := by
  by_cases h : j = i
  · subst h
    rw [Function.update_self] at hj
    obtain rfl := Option.some.inj hj
    exact ⟨hg', hb⟩
  · rw [Function.update_of_ne h] at hj
    obtain ⟨hgood, hbook⟩ := hI.states j g hj
    exact ⟨hgood, hbook.snoc e⟩

theorem SizedRow.within (hq : cfg.quotasEnabled = true) {r : CreateRequest} {t : TenantRow} (h : SizedRow cfg r t)
    (hs : (SizeRequest.create r).Sized cfg) : WithinQuota cfg t := by
  obtain ⟨hv, hm, hd, hmax⟩ := hs
  obtain ⟨hv', hm', -⟩ := (overQuota_eq_false cfg hq).1 h.checked
  have hdisk : t.diskMb cfg = cfg.vmDataDiskMb := by rw [TenantRow.diskMb, h.disk, Option.getD_none]
  exact ⟨by rw [h.vcpu]; exact ⟨hv, hv'⟩, by rw [h.memMb]; exact ⟨hm, hm'⟩, by rw [hdisk]; exact ⟨hd, hmax⟩⟩

/-- An update of a tenant keeps its row within the quota. -/
theorem WithinQuota.update (hq : cfg.quotasEnabled = true) {id : TenantId} {u : TenantUpdate} {x : TenantRow}
    (hx : WithinQuota cfg x) (ha : (quotaProtocol cfg).allow g (.updTenant id u)) (hg : g.Good cfg) :
    WithinQuota cfg (u.apply x) := by
  cases g with
  | create r booked =>
    obtain rfl : u = .status .deleted := ha
    exact ⟨hx.vcpu, hx.memMb, hx.disk⟩
  | resize row =>
    obtain ⟨t, v, rfl, rfl, hlt, hover⟩ := ha
    have hpos : 0 < t.vcpu := (hg t rfl).vcpu.1
    have hmax : AtMost cfg.quotasMaxVcpu v := ((overQuota_eq_false cfg hq).1 hover).1
    exact ⟨⟨hpos.trans hlt, hmax⟩, hx.memMb, hx.disk⟩
  | resizeDisk mb row =>
    obtain ⟨t, rfl, rfl, hlt⟩ := ha
    have hpos : 0 < t.diskMb cfg := (hg.2 t rfl).disk.1
    exact ⟨hx.vcpu, hx.memMb, ⟨hpos.trans hlt, hg.1⟩⟩

/-- A call keeps every row within the quota. -/
theorem QuotaInv.rows_call (hq : cfg.quotasEnabled = true) (hI : QuotaInv cfg tr w)
    (hl : (quotaProtocol cfg).locs tr i = some g) {c : Call} {r : c.Ans} (ha : (quotaProtocol cfg).allow g c)
    (hs : World.step c r w w') : ∀ t ∈ w'.tenants.rows, WithinQuota cfg t := by
  have hgood : g.Good cfg := (hI.states i g hl).1
  by_cases hw : c.writesTenants = false
  · rw [step_tenants hw hs]
    exact hI.rows
  · have hput : ∀ t', WithinQuota cfg t' → ∀ t ∈ (w.putTenant t').tenants.rows, WithinQuota cfg t := by
      intro t' ht' t ht
      rcases Table.mem_put.1 ht with rfl | h
      · exact ht'
      · exact hI.rows t h.1
    cases c <;> first | exact absurd rfl hw | skip
    case putTenant t =>
      cases g with
      | create r booked =>
        rcases hs.eq_or with rfl | rfl
        · exact hput t (SizedRow.within hq ha hgood)
        · exact hI.rows
      | resize row => exact Bool.noConfusion ha.1
      | resizeDisk mb row => exact Bool.noConfusion ha.1
    case updTenant id u =>
      obtain ⟨x, hx, hs⟩ := hs
      rcases hs.eq_or with rfl | rfl
      · exact hput _ (WithinQuota.update hq (hI.rows x (Table.mem_of_get hx)) ha hgood)
      · exact hI.rows
    case condTenant id c u => cases g <;> exact Bool.noConfusion ha.1

/-- Where a request stands after a call. -/
theorem QuotaInv.next_good (hI : QuotaInv cfg tr w) (hl : (quotaProtocol cfg).locs tr i = some g) {c : Call} {r : c.Ans}
    (hs : World.step c r w w') : (g.next c r).Good cfg := by
  have hg : g.Good cfg := (hI.states i g hl).1
  cases c
  case getTenant id =>
    have hread : ∀ t, r = some t → WithinQuota cfg t := by
      intro t ht
      exact hI.rows t (Table.mem_of_get (hs.1.symm.trans ht))
    cases g with
    | create r' booked => exact hg
    | resize row => exact hread
    | resizeDisk mb row => exact ⟨hg.1, hread⟩
  case reserveHost => cases g <;> cases r <;> exact hg
  all_goals exact hg

/-- A create that remembers a booking has made it. -/
theorem QuotaInv.next_booked (hI : QuotaInv cfg tr w) (hl : (quotaProtocol cfg).locs tr i = some g) {c : Call}
    {r : c.Ans} (ha : (quotaProtocol cfg).allow g c) : (g.next c r).BookedIn i (tr ++ [.call i c r]) := by
  have hb : g.BookedIn i (tr ++ [.call i c r]) := (hI.states i g hl).2.snoc _
  cases c
  case getTenant id =>
    cases g with
    | create r' booked => exact hb
    | resize row => intro r' id' he; cases he
    | resizeDisk mb row => intro r' id' he; cases he
  case reserveHost id cond v m =>
    cases g with
    | resize row => exact Bool.noConfusion ha.2.1
    | resizeDisk mb row => exact Bool.noConfusion ha.2.1
    | create r' booked =>
      obtain ⟨rfl, rfl⟩ := ha
      cases r with
      | next n =>
        intro r'' id' he
        cases he
        exact ⟨cond, n, List.mem_append_right _ (List.mem_singleton.2 rfl)⟩
      | refused => exact hb
      | failed => exact hb
  all_goals exact hb

theorem QuotaInv.call (hq : cfg.quotasEnabled = true) (hI : QuotaInv cfg tr w)
    (hl : (quotaProtocol cfg).locs tr i = some g) {c : Call} {r : c.Ans} (ha : (quotaProtocol cfg).allow g c)
    (hs : World.step c r w w') : QuotaInv cfg (tr ++ [.call i c r]) w' := by
  refine ⟨hI.rows_call hq hl ha hs, fun j g' hj => ?_⟩
  rw [Protocol.locs_snoc, Protocol.stepLoc, hl, Option.map_some] at hj
  exact hI.states_snoc (hI.next_good hl hs) (hI.next_booked hl ha) j g' hj

theorem QuotaInv.begin (hI : QuotaInv cfg tr w) {j : SizeRequest} (hj : j.Sized cfg) :
    QuotaInv cfg (tr ++ [.start i j]) w := by
  refine ⟨hI.rows, fun k g' hk => ?_⟩
  rw [Protocol.locs_snoc, Protocol.stepLoc] at hk
  refine hI.states_snoc ?_ ?_ k g' hk
  · cases j with
    | create r => exact hj
    | resize tid v => intro t ht; cases ht
    | resizeDisk tid mb => exact ⟨hj, fun t ht => by cases ht⟩
  · intro r id he
    cases j <;> cases he

/-! ## The counters -/

/-- An update that adds nothing negative lowers no counter. -/
theorem booked_le_putHost {id : HostId} {u : HostUpdate} {x' : HostRow} (hu : u.apply (w.hostRow id) = some x')
    (hadds : ∀ ρ, 0 ≤ u.adds ρ) (h : HostId) (ρ : Res) : w.booked h ρ ≤ (w.putHost x').booked h ρ := by
  have hid : x'.instanceId = id := (HostUpdate.apply_id hu).trans (World.hostRow_id w id)
  have hcount : ∀ ρ, x'.count ρ = (w.hostRow x'.instanceId).count ρ + u.adds ρ := by
    intro ρ
    rw [hid]
    exact HostUpdate.count_apply hu ρ
  rw [World.booked_putHost hcount, atHost]
  have hρ := hadds ρ
  split <;> omega

/-- Only a release lowers a counter. -/
theorem QuotaInv.counters (hI : QuotaInv cfg tr w) (hl : (quotaProtocol cfg).locs tr i = some g) {c : Call} {r : c.Ans}
    (ha : (quotaProtocol cfg).allow g c) (hs : World.step c r w w') :
    (∀ h ρ, w.booked h ρ ≤ w'.booked h ρ) ∨ Releases tr (.call i c r) := by
  by_cases hw : c.writesHosts = false
  · refine .inl fun h ρ => ?_
    rw [World.booked, World.booked, step_hosts hw hs]
  obtain ⟨hgood, hbook⟩ := hI.states i g hl
  cases c <;> first | exact absurd rfl hw | skip
  case reserveHost id cond v m =>
    cases g with
    | resize row => exact Bool.noConfusion ha.2.1
    | resizeDisk mb row => exact Bool.noConfusion ha.2.1
    | create r' booked =>
      obtain ⟨rfl, rfl⟩ := ha
      refine .inl fun h ρ => ?_
      cases r with
      | next n =>
        obtain ⟨x, x', hx, -, hu, -, rfl⟩ := hs
        have hrow : w.hostRow id = x := by simp [World.hostRow, HostRow.orNew, hx]
        rw [← hrow] at hu
        refine booked_le_putHost hu (fun ρ => ?_) h ρ
        have hv := hgood.1
        have hm := hgood.2.1
        cases ρ <;> simp only [HostUpdate.adds, Res.pick] <;> omega
      | refused => rw [hs.2]
      | failed => rw [show w' = w from hs]
  case updHost id u =>
    cases g with
    | resizeDisk mb row => exact Bool.noConfusion ha.2.1
    | create r' booked =>
      obtain ⟨rfl, rfl⟩ := ha
      exact .inr ⟨i, id, _, _, r, rfl, hbook r' id rfl⟩
    | resize row =>
      obtain ⟨d, rfl, hd⟩ := ha
      refine .inl fun h ρ => ?_
      cases r with
      | none => rw [show w' = w from hs]
      | some x' =>
        obtain ⟨hu, rfl⟩ := hs
        refine booked_le_putHost hu (fun ρ => ?_) h ρ
        cases ρ <;> simp only [HostUpdate.adds, Res.pick] <;> omega
  all_goals cases g <;> exact Bool.noConfusion ha.2.1

end Invariant

/-- **Quotas hold.** From tenants within their quota, in every run of sized requests every tenant is within its quota,
and a step that lowers a counter of a host releases a booking. -/
theorem quotas_hold {ι : Type} [DecidableEq ι] (hq : cfg.quotasEnabled = true) {w₀ : World}
    (h₀ : ∀ t ∈ w₀.tenants.rows, WithinQuota cfg t) {tr : List (Ev Ctl SizeRequest ι)}
    {c : Conf Ctl World SizeRequest ι Resp}
    (hr : Reach ctl (sizeJobs cfg) (sizedRequests cfg) (Conf.idle w₀) tr c) :
    (∀ t ∈ c.world.tenants.rows, t.status ≠ .deleted → WithinQuota cfg t) ∧
      ∀ e c', sizedRequests cfg tr c.world e → Step ctl (sizeJobs cfg) c e c' →
        (∀ h ρ, c.world.booked h ρ ≤ c'.world.booked h ρ) ∨ Releases tr e := by
  have hI₀ : QuotaInv cfg ([] : List (Ev Ctl SizeRequest ι)) w₀ := ⟨h₀, fun i g hg => by simp at hg⟩
  have hstart : ∀ (tr : List (Ev Ctl SizeRequest ι)) (w : World) (i : ι) (j : SizeRequest) (w' : World),
      QuotaInv cfg tr w → (quotaProtocol cfg).locs tr i = none → sizedRequests cfg tr w (.start i j) →
      (sizeJobs cfg).start j w w' → QuotaInv cfg (tr ++ [.start i j]) w' := by
    intro tr w i j w' hI _ hj hs
    obtain rfl : w' = w := hs
    exact hI.begin hj
  obtain ⟨hI, -, hprocs⟩ := Reach.protocol sizeJobs_obeys hI₀ hstart
    (fun tr w i g c r w' hI hl ha _ hs => ⟨trivial, hI.call hq hl ha hs⟩) hr
  refine ⟨fun t ht _ => hI.rows t ht, fun e c' _ hst => ?_⟩
  cases hst with
  | start hn hs =>
    obtain rfl := hs
    exact .inl fun _ _ => le_refl _
  | call hp hs =>
    obtain ⟨g, hl, hob⟩ := hprocs _ _ _ hp
    exact hI.counters hl hob.1 hs

/-! ## Requests of any size -/

def quotaConfig : Config :=
  { routingMode := .hostTg, quotasEnabled := true, quotasMaxVcpu := 4, quotasMaxMemMb := 4096,
    quotasMaxDataDiskMb := 10240 }

/-- One tenant of one vCPU on one host. -/
def quotaWorld : World where
  tenants := .single (runningTenant "a-0000" "i-1" 1)
  hosts := .single (busyHost "i-1" 2)

theorem quotaWorld_within : ∀ t ∈ quotaWorld.tenants.rows, WithinQuota quotaConfig t := by
  intro t ht
  obtain rfl : t = runningTenant "a-0000" "i-1" 1 := List.mem_singleton.1 ht
  refine ⟨⟨by decide, fun _ => by decide⟩, ⟨by decide, fun _ => by decide⟩, ⟨by decide, fun _ => by decide⟩⟩

/-- `sizedRequests`, decided. -/
def sizedCheck {ι : Type} (_ : List (Ev Ctl SizeRequest ι)) (_ : World) : Ev Ctl SizeRequest ι → Bool
  | .start _ (.create r) => decide (0 < r.vcpu ∧ 0 < r.memMb ∧ 0 < quotaConfig.vmDataDiskMb ∧
      quotaConfig.vmDataDiskMb ≤ quotaConfig.quotasMaxDataDiskMb)
  | .start _ (.resize _ _) => true
  | .start _ (.resizeDisk _ mb) => decide (mb ≤ quotaConfig.quotasMaxDataDiskMb)
  | .call _ _ _ => true

theorem sizedCheck_sound {ι : Type} {tr : List (Ev Ctl SizeRequest ι)} {w : World} {e : Ev Ctl SizeRequest ι}
    (h : sizedCheck tr w e = true) : sizedRequests quotaConfig tr w e := by
  cases e with
  | call i c r => trivial
  | start i j =>
    cases j with
    | create r =>
      obtain ⟨hv, hm, hd, hmax⟩ := of_decide_eq_true h
      exact ⟨hv, hm, hd, fun _ => hmax⟩
    | resize tid v => trivial
    | resizeDisk tid mb => exact fun _ => of_decide_eq_true h

/-- The vCPUs and the disk of every tenant. -/
def World.sizes (w : World) : List (TenantId × Int × Option Int) :=
  w.tenants.rows.map fun t => (t.id, t.vcpu, t.dataDiskMb)

/-- A create, a resize to three vCPUs and a resize-disk to 4 GiB. -/
def sizedMoves : List (Move SizeRequest ℕ Hint) :=
  [.start 0 (.create { name := "b", vcpu := 1, memMb := 512, dataDiskMb := 2048 }), .start 1 (.resize "a-0000" 3),
    .start 2 (.resizeDisk "a-0000" 4096)] ++
    [0, 1, 0, 2, 0, 1, 0, 2, 0, 1, 0, 2, 1, 1, 1].map (.call · {})

theorem quotas_hold_three : ∃ (tr : List (Ev Ctl SizeRequest ℕ)) (c : Conf Ctl World SizeRequest ℕ Resp),
    Reach ctl (sizeJobs quotaConfig) (sizedRequests quotaConfig) (Conf.idle quotaWorld) tr c ∧
      c.world.sizes = [("a-0000", 3, some 4096), ("b-0000", 1, none)] ∧
      ∀ t ∈ c.world.tenants.rows, t.status ≠ .deleted → WithinQuota quotaConfig t := by
  have hplay : ((ctlOracle.play (sizeJobs quotaConfig) (fun _ w => some w) sizedCheck [] (Conf.idle quotaWorld)
      sizedMoves).any fun x => decide (x.2.world.sizes = [("a-0000", 3, some 4096), ("b-0000", 1, none)])) = true := by
    decide +kernel
  have hst : ∀ (j : SizeRequest) (w w' : World), some w = some w' → (sizeJobs quotaConfig).start j w w' := by
    intro j w w' he
    exact (Option.some.inj he).symm
  obtain ⟨tr, c, hr, hsizes⟩ := Oracle.exists_reach_of_play hst (fun _ _ _ h => sizedCheck_sound h) hplay
  exact ⟨tr, c, hr, of_decide_eq_true hsizes, (quotas_hold quotaConfig rfl quotaWorld_within hr).1⟩

/-- A create of minus one vCPU, then a resize-disk to twice the quota. -/
def unsizedMoves : List (Move SizeRequest ℕ Hint) :=
  .start 0 (.create { name := "b", vcpu := -1, memMb := 512, dataDiskMb := 2048 }) :: List.replicate 7 (.call 0 {}) ++
    .start 1 (.resizeDisk "a-0000" 20480) :: List.replicate 3 (.call 1 {})

/-- Nothing was released. -/
def noRelease {ι : Type} : Ev Ctl SizeRequest ι → Bool
  | .call _ (.updHost _ (.release _ _)) _ => false
  | _ => true

/-- **A size without a lower bound.** The create of minus one vCPU is accepted and lowers the host's counter; then the
disk of another tenant grows to twice the quota. -/
theorem negative_size_accepted : (∀ t ∈ quotaWorld.tenants.rows, WithinQuota quotaConfig t) ∧
    ∃ (tr : List (Ev Ctl SizeRequest ℕ)) (c : Conf Ctl World SizeRequest ℕ Resp),
      Reach ctl (sizeJobs quotaConfig) anyStep (Conf.idle quotaWorld) tr c ∧
      ((c.proc 0).bind fun x => x.2.result) = some 201 ∧ ((c.proc 1).bind fun x => x.2.result) = some 200 ∧
      c.world.sizes = [("a-0000", 1, some 20480), ("b-0000", -1, none)] ∧
      quotaWorld.booked "i-1" .vcpu = 1 ∧ c.world.booked "i-1" .vcpu = 0 ∧ tr.all noRelease = true := by
  have hplay : ((ctlOracle.play (sizeJobs quotaConfig) (fun _ w => some w) (fun _ _ _ => true) []
      (Conf.idle quotaWorld) unsizedMoves).any fun x => decide (
        ((x.2.proc 0).bind fun y => y.2.result) = some 201 ∧ ((x.2.proc 1).bind fun y => y.2.result) = some 200 ∧
        x.2.world.sizes = [("a-0000", 1, some 20480), ("b-0000", -1, none)] ∧
        quotaWorld.booked "i-1" .vcpu = 1 ∧ x.2.world.booked "i-1" .vcpu = 0 ∧ x.1.all noRelease = true)) = true := by
    decide +kernel
  have hst : ∀ (j : SizeRequest) (w w' : World), some w = some w' → (sizeJobs quotaConfig).start j w w' := by
    intro j w w' he
    exact (Option.some.inj he).symm
  obtain ⟨tr, c, hr, hend⟩ := Oracle.exists_reach_of_play hst (fun _ _ _ _ => trivial) hplay
  obtain ⟨hcode, hcode', hsizes, hbefore, hafter, hall⟩ := of_decide_eq_true hend
  exact ⟨quotaWorld_within, tr, c, hr, hcode, hcode', hsizes, hbefore, hafter, hall⟩

end OpenClaw
