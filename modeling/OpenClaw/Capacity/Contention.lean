import OpenClaw.Capacity.Ranking
import OpenClaw.Control.Execute
import OpenClaw.Control.Frame
import OpenClaw.Lib.Amid
import OpenClaw.Lib.Sequence

/-!
# A lost race is not an exhausted fleet

`create_tenant` reads the hosts and then tries to reserve on them one after the other, while other creates and updates
change the counters. Only the totals of the hosts are fixed.

- `Deed`: what the request read and did, with the live row of every host it tried.
- `reserveFirst_tries`: the loop over the candidates.
- `lost_race`: the request books at most one host, and scales out only when every host it tried was full.
-/

namespace OpenClaw

open Keyed Atomic

variable (cfg : Config)

/-! ## Deeds -/

/-- A step of the request that matters for its bookings. -/
inductive Deed
  | scanned (rows : List HostRow)
  | looked (h : Option HostRow)
  /-- A reservation, on the row it found, and whether it was granted. -/
  | tried (host : HostId) (live : Option HostRow) (granted : Bool)
  | stored (row : TenantRow)
  /-- The write of the row raised. -/
  | unstored (row : TenantRow)
  | scaled
  /-- Any other write to the hosts table. -/
  | wrote

/-- The record of a request. -/
abbrev CreateRecord := List (Seen Ctl World)

def deed (x : Seen Ctl World) : List Deed :=
  match x with
  | ⟨.scanHosts _, rows, _⟩ => [.scanned rows]
  | ⟨.getHost _, h, _⟩ => [.looked h]
  | ⟨.reserveHost id _ _ _, .next _, w⟩ => [.tried id (w.hosts.get id) true]
  | ⟨.reserveHost id _ _ _, _, w⟩ => [.tried id (w.hosts.get id) false]
  | ⟨.putTenant t, true, _⟩ => [.stored t]
  | ⟨.putTenant t, false, _⟩ => [.unstored t]
  | ⟨.scaleOut, _, _⟩ => [.scaled]
  | ⟨.putHost _, _, _⟩ | ⟨.updHost _ _, _, _⟩ | ⟨.raiseNext _ _, _, _⟩ | ⟨.incNext _, _, _⟩ | ⟨.deleteHost _, _, _⟩ => [.wrote]
  | _ => []

def deeds (g : CreateRecord) : List Deed := g.flatMap deed

/-- The hosts on which a reservation was tried. -/
def triedHosts (ds : List Deed) : List HostId :=
  ds.filterMap fun
    | .tried id _ _ => some id
    | _ => none

/-- The hosts on which a reservation was granted. -/
def bookedHosts (ds : List Deed) : List HostId :=
  ds.filterMap fun
    | .tried id _ true => some id
    | _ => none

/-- Every host carries its counters, and has the totals `T`. -/
def Steady (T : HostId → Int × Int) (w : World) : Prop :=
  ∀ h ∈ w.hosts.rows, Counted h ∧ h.totalVcpu = some (T h.instanceId).1 ∧ h.totalMemMb = some (T h.instanceId).2

/-- Calls that are no deeds. -/
def Call.aside : Call → Prop
  | .scanHosts _ | .getHost _ | .reserveHost _ _ _ _ | .putTenant _ | .scaleOut | .putHost _ | .updHost _ _
  | .raiseNext _ _ | .incNext _ | .deleteHost _ => False
  | _ => True

section Deeds

variable {T : HostId → Int × Int} {g : CreateRecord} {α β : Type}

theorem deeds_append (g g' : CreateRecord) : deeds (g ++ g') = deeds g ++ deeds g' := List.flatMap_append

theorem triedHosts_append (ds ds' : List Deed) : triedHosts (ds ++ ds') = triedHosts ds ++ triedHosts ds' :=
  List.filterMap_append

theorem bookedHosts_append (ds ds' : List Deed) : bookedHosts (ds ++ ds') = bookedHosts ds ++ bookedHosts ds' :=
  List.filterMap_append

theorem deed_aside {x : Seen Ctl World} (h : x.call.aside) : deed x = [] := by
  obtain ⟨c, r, w⟩ := x
  cases c <;> first | rfl | exact False.elim h

theorem deeds_aside (h : ∀ x ∈ g, x.call.aside) : deeds g = [] := by
  rw [deeds, List.flatMap_eq_nil_iff]
  intro x hx
  exact deed_aside (h x hx)

/-- A part that does nothing. -/
theorem wp_aside {I : World → Prop} {p : CtlProg α} (hp : p.All Call.aside) {k : α → CtlProg β}
    {Q : β → CreateRecord → Prop} (hk : ∀ a g', deeds g' = deeds g → (k a).wp (ctl.amid I) Q g') :
    (p >>= k).wp (ctl.amid I) Q g := by
  rw [Prog.wp_bind]
  refine Prog.wp_mono ?_ (wp_amid_all hp g)
  intro a g' h
  obtain ⟨s, rfl, hs⟩ := h
  refine hk a _ ?_
  rw [deeds_append, deeds_aside hs, List.append_nil]

/-- One call, with its deed. -/
theorem wp_deed {I : World → Prop} {c : Call} {k : c.Ans → CtlProg α} {Q : α → CreateRecord → Prop}
    (hk : ∀ r w w' g', I w → World.step c r w w' → deeds g' = deeds g ++ deed ⟨c, r, w⟩ → (k r).wp (ctl.amid I) Q g') :
    (@Prog.call Ctl α c k).wp (ctl.amid I) Q g := by
  intro r g' hs
  obtain ⟨w, w', hw, hstep, rfl⟩ := hs
  refine hk r w w' _ hw hstep ?_
  rw [deeds_append]
  simp [deeds]

end Deeds

/-! ## The candidates -/

/-- The reservations on the candidates, in order, until one is granted or raises. -/
inductive Tries (vcpu mem : Int) : List HostRow → Option (Option (HostRow × Int)) → List Deed → Prop
  | exhausted : Tries vcpu mem [] (some none) []
  | raised {h : HostRow} {hs : List HostRow} {live : Option HostRow} :
      Tries vcpu mem (h :: hs) none [.tried h.instanceId live false]
  | granted {h : HostRow} {hs : List HostRow} {live : Option HostRow} {n : Int} :
      Tries vcpu mem (h :: hs) (some (some (h, n))) [.tried h.instanceId live true]
  | refused {h : HostRow} {hs : List HostRow} {live : Option HostRow} {slot : Option (Option (HostRow × Int))}
      {ds : List Deed} (hfull : ∀ x, live = some x → ¬ Fits cfg vcpu mem x) (hrest : Tries vcpu mem hs slot ds) :
      Tries vcpu mem (h :: hs) slot (.tried h.instanceId live false :: ds)

/-- The rows a request read have the totals of their hosts. -/
def TrueTotals (T : HostId → Int × Int) (h : HostRow) : Prop :=
  h.totalVcpu = some (T h.instanceId).1 ∧ h.totalMemMb = some (T h.instanceId).2

section Tries

variable {cfg} {T : HostId → Int × Int} {g : CreateRecord} {vcpu mem : Int} {hs : List HostRow} {ds : List Deed}
  {slot : Option (Option (HostRow × Int))}

theorem Steady.get {w : World} (hw : Steady T w) {id : HostId} {x : HostRow} (hx : w.hosts.get id = some x) :
    Counted x ∧ x.totalVcpu = some (T id).1 ∧ x.totalMemMb = some (T id).2 := by
  obtain ⟨hmem, rfl⟩ := Table.get_eq_some.1 hx
  exact hw x hmem

/-- A host that refuses is full at that moment. -/
theorem full_of_refused {w : World} (hw : Steady T w) {h : HostRow}
    (hs : World.step (.reserveHost h.instanceId (reserveCond cfg (T h.instanceId).1 (T h.instanceId).2 vcpu mem) vcpu mem)
      .refused w w) : ∀ x, w.hosts.get h.instanceId = some x → ¬ Fits cfg vcpu mem x := by
  intro x hx hfit
  obtain ⟨hc, htv, htm⟩ := hw.get hx
  have hholds := (reserveCond_holds_iff hc htv htm).2 hfit
  have hall := hs.1
  simp [hx, hholds] at hall

/-- **The loop over the candidates.** -/
theorem reserveFirst_tries (htot : ∀ h ∈ hs, TrueTotals T h) (g : CreateRecord) :
    (reserveFirst cfg vcpu mem hs).wp (ctl.amid (Steady T))
      (fun slot g' => ∃ ds, deeds g' = deeds g ++ ds ∧ Tries cfg vcpu mem hs slot ds) g := by
  induction hs generalizing g with
  | nil => exact ⟨[], by simp, .exhausted⟩
  | cons h hs ih =>
    obtain ⟨htv, htm⟩ := htot h List.mem_cons_self
    rw [reserveFirst, reserveHostSlot_eq cfg htv htm]
    refine wp_deed fun r w w' g' hw hs hg' => ?_
    cases r with
    | next n => exact ⟨_, hg', .granted⟩
    | failed => exact ⟨_, hg', .raised⟩
    | refused =>
      have hsame : w' = w := hs.2
      subst hsame
      refine Prog.wp_mono ?_ (ih (fun h' hm => htot h' (List.mem_cons_of_mem _ hm)) g')
      intro slot g'' hrest
      obtain ⟨ds, hg'', hds⟩ := hrest
      refine ⟨_, ?_, .refused (full_of_refused hw hs) hds⟩
      rw [hg'', hg', List.append_assoc]
      rfl

/-- The hosts that were tried come first among the candidates. -/
theorem Tries.leading (h : Tries cfg vcpu mem hs slot ds) : triedHosts ds <+: hs.map HostRow.instanceId := by
  induction h with
  | exhausted => exact List.nil_prefix
  | raised => exact List.prefix_append [_] _
  | granted => exact List.prefix_append [_] _
  | refused _ _ ih => exact (List.prefix_cons_inj _).2 ih

theorem Tries.booked (h : Tries cfg vcpu mem hs slot ds) :
    bookedHosts ds = (slot.getD none).toList.map fun p => p.1.instanceId := by
  induction h with
  | exhausted => rfl
  | raised => rfl
  | granted => rfl
  | refused _ _ ih => exact ih

/-- When no candidate took the tenant, all were tried and each was full. -/
theorem Tries.full (h : Tries cfg vcpu mem hs (some none) ds) : triedHosts ds = hs.map HostRow.instanceId ∧
    ∀ id live ok, .tried id live ok ∈ ds → ∀ x, live = some x → ¬ Fits cfg vcpu mem x := by
  generalize hslot : some none = slot at h
  induction h with
  | exhausted => exact ⟨rfl, fun _ _ _ hmem => absurd hmem List.not_mem_nil⟩
  | raised => cases hslot
  | granted => cases hslot
  | refused hfull _ ih =>
    obtain ⟨htried, hall⟩ := ih hslot
    refine ⟨?_, fun id live ok hmem => ?_⟩
    · exact congrArg (_ :: ·) htried
    · rcases List.mem_cons.1 hmem with he | hmem
      · cases he
        exact hfull
      · exact hall id live ok hmem

/-- Nothing but tries. -/
theorem Tries.only (h : Tries cfg vcpu mem hs slot ds) {d : Deed} (hd : d ∈ ds) : ∃ id live ok, d = .tried id live ok := by
  induction h with
  | exhausted => cases hd
  | raised => exact ⟨_, _, _, List.mem_singleton.1 hd⟩
  | granted => exact ⟨_, _, _, List.mem_singleton.1 hd⟩
  | refused _ _ ih =>
    rcases List.mem_cons.1 hd with rfl | hd
    · exact ⟨_, _, _, rfl⟩
    · exact ih hd

end Tries

/-! ## The choice of candidates -/

/-- What was read, and the candidates taken from it. -/
inductive Chosen (r : CreateRequest) : List Deed → List HostRow → Prop
  | pinned {h : HostRow} (hpin : r.preferredHostId ≠ "") (hid : h.instanceId = r.preferredHostId)
      (hfit : Fits cfg r.vcpu r.memMb h) : Chosen r [.looked (some h)] [h]
  | ranked {rows hosts : List HostRow} (hpin : r.preferredHostId = "") (hdistinct : (hosts.map HostRow.instanceId).Nodup)
      (hfits : ∀ h ∈ hosts, h ∈ rows ∧ Fits cfg r.vcpu r.memMb h)
      (hfew : hosts.length ≤ atLeastOne cfg.hostReserveAttempts)
      (hall : (rows.filter fun h => Fits cfg r.vcpu r.memMb h).length ≤ atLeastOne cfg.hostReserveAttempts →
        ∀ h ∈ rows, Fits cfg r.vcpu r.memMb h → h ∈ hosts) : Chosen r [.scanned rows] hosts

/-- Deeds that read. -/
def Deed.reads : Deed → Prop
  | .scanned _ | .looked _ => True
  | _ => False

section Chosen

variable {cfg} {T : HostId → Int × Int} {r : CreateRequest}

theorem Steady.totals {w : World} (hw : Steady T w) {h : HostRow} (hmem : h ∈ w.hosts.rows) : TrueTotals T h :=
  (hw h hmem).2

theorem Chosen.reads {ds : List Deed} {hosts : List HostRow} (h : Chosen cfg r ds hosts) : ∀ d ∈ ds, d.reads := by
  cases h <;> simp [Deed.reads]

/-- The ranking, its top shuffled, and cut off. -/
theorem chosen_ranked {rows ranked picked : List HostRow} (hpin : r.preferredHostId = "")
    (hrows : (rows.map HostRow.instanceId).Nodup)
    (hranked : ranked.Perm (rows.filter fun h => Fits cfg r.vcpu r.memMb h)) (hpicked : picked.Perm ranked) :
    Chosen cfg r [.scanned rows] (picked.take (atLeastOne cfg.hostReserveAttempts)) := by
  have hp := hpicked.trans hranked
  have hsub := List.take_sublist (atLeastOne cfg.hostReserveAttempts) picked
  refine .ranked hpin ?_ ?_ (List.length_take_le _ _) ?_
  · have hnodup : (picked.map HostRow.instanceId).Nodup :=
      ((hp.map HostRow.instanceId).nodup_iff).2 ((List.filter_sublist.map _).nodup hrows)
    exact (hsub.map _).nodup hnodup
  · intro h hh
    simpa using hp.mem_iff.1 (hsub.subset hh)
  · intro hfew h hh hfit
    have hlen : picked.length ≤ atLeastOne cfg.hostReserveAttempts := hp.length_eq ▸ hfew
    rw [List.take_of_length_le hlen]
    exact hp.mem_iff.2 (List.mem_filter.2 ⟨hh, by simpa using hfit⟩)

theorem pickHostsForCreate_chosen (hpin : r.preferredHostId = "") (g : CreateRecord) :
    (pickHostsForCreate cfg r.vcpu r.memMb).wp (ctl.amid (Steady T)) (fun picked g' => ∃ ds, deeds g' = deeds g ++ ds ∧
      Chosen cfg r ds (picked.take (atLeastOne cfg.hostReserveAttempts)) ∧ ∀ h ∈ picked, TrueTotals T h) g := by
  unfold pickHostsForCreate rankCandidateHosts
  simp only [req_bind, Prog.call_bind, Prog.pure_eq, Prog.ret_bind]
  refine wp_deed fun rows w w' g' hw hs hg' => ?_
  obtain ⟨hrows, -⟩ := hs
  have hnodup : (rows.map HostRow.instanceId).Nodup :=
    ((hrows.map HostRow.instanceId).nodup_iff).2 ((List.filter_sublist.map _).nodup w.hosts.nodup)
  have htotals : ∀ h ∈ rows, TrueTotals T h := fun h hh => hw.totals (List.mem_of_mem_filter (hrows.mem_iff.1 hh))
  have hranked : (rankHosts cfg rows r.vcpu r.memMb).Perm _ := rankHosts_fitting rows
  generalize rankHosts cfg rows r.vcpu r.memMb = ranked at hranked
  by_cases hnil : ranked.isEmpty
  · simp only [hnil, if_true, Prog.wp_ret]
    have hempty := List.isEmpty_iff.1 hnil
    exact ⟨_, hg', chosen_ranked hpin hnodup hranked (hempty ▸ .refl _), fun h hh => absurd hh List.not_mem_nil⟩
  · simp only [hnil, Bool.false_eq_true, if_false]
    refine wp_deed fun head w₁ w₁' g'' _ hs hg'' => ?_
    have hhead : head.Perm (ranked.take (atLeastOne cfg.hostPickTopK)) := hs.1
    have hpicked : (head ++ ranked.drop (atLeastOne cfg.hostPickTopK)).Perm ranked :=
      (hhead.append_right _).trans (List.Perm.of_eq (List.take_append_drop _ _))
    refine ⟨_, ?_, chosen_ranked hpin hnodup hranked hpicked, ?_⟩
    · rw [hg'', hg']
      exact List.append_nil _
    · intro h hh
      exact htotals h (List.mem_of_mem_filter (hranked.mem_iff.1 (hpicked.mem_iff.1 hh)))

/-- The pinned host, read once, and once more if it does not do. -/
theorem pinnedHost_chosen (hpin : r.preferredHostId ≠ "") (g : CreateRecord) :
    (getSpecificHostWithCapacity cfg r.preferredHostId r.vcpu r.memMb).wp (ctl.amid (Steady T))
      (fun host g' => ∃ h, deeds g' = deeds g ++ [.looked h] ∧
        ∀ x, host = some x → Chosen cfg r [.looked h] [x] ∧ TrueTotals T x) g := by
  unfold getSpecificHostWithCapacity
  simp only [req_bind, Prog.pure_eq]
  refine wp_deed fun item w w' g' hw hs hg' => ?_
  cases item with
  | none => exact ⟨none, hg', fun x hx => by cases hx⟩
  | some h =>
    have hget : w.hosts.get r.preferredHostId = some h := hs.1.symm
    have hnot : ∃ x, deeds g' = deeds g ++ [.looked x] ∧
        ∀ y, (none : Option HostRow) = some y → Chosen cfg r [.looked x] [y] ∧ TrueTotals T y :=
      ⟨some h, hg', fun y hy => by cases hy⟩
    by_cases hopen : h.status = some .active ∨ h.status = some .idle
    · by_cases hfit : hostFits cfg h r.vcpu r.memMb = true
      · simp only [hopen, hfit, if_true, Prog.wp_ret]
        refine ⟨some h, hg', fun x hx => ?_⟩
        cases hx
        exact ⟨.pinned hpin (Table.key_of_get hget) (fits_iff.1 hfit), hw.totals (Table.mem_of_get hget)⟩
      · simp only [hopen, hfit, if_true, Bool.false_eq_true, if_false, Prog.wp_ret]
        exact hnot
    · simp only [hopen, if_false, Prog.wp_ret]
      exact hnot

/-- The candidates of a request that is no clone. -/
theorem candidateHosts_chosen (g : CreateRecord) : (candidateHosts cfg r none).wp (ctl.amid (Steady T))
    (fun b g' => ∃ ds, deeds g' = deeds g ++ ds ∧ (∀ d ∈ ds, d.reads) ∧
      ∀ hosts, b = .inr hosts → Chosen cfg r ds hosts ∧ ∀ h ∈ hosts, TrueTotals T h) g := by
  unfold candidateHosts
  by_cases hpin : r.preferredHostId ≠ ""
  · simp only [hpin, if_true, ne_eq, not_false_eq_true]
    rw [Prog.wp_bind]
    refine Prog.wp_mono ?_ (pinnedHost_chosen hpin g)
    intro host g' h
    obtain ⟨x, hg', hchosen⟩ := h
    cases host with
    | some host =>
      obtain ⟨hch, htot⟩ := hchosen host rfl
      refine ⟨_, hg', by simp [Deed.reads], fun hosts he => ?_⟩
      cases he
      refine ⟨hch, fun h hh => ?_⟩
      obtain rfl := List.mem_singleton.1 hh
      exact htot
    | none =>
      refine wp_deed fun existing w w' g'' _ _ hg'' => ?_
      rw [hg', List.append_assoc] at hg''
      cases existing with
      | none => exact ⟨_, hg'', by simp [Deed.reads, deed], fun hosts he => by cases he⟩
      | some e => exact ⟨_, hg'', by simp [Deed.reads, deed], fun hosts he => by cases he⟩
  · rw [ne_eq, not_not] at hpin
    simp only [hpin, ne_eq, not_true_eq_false, if_false]
    rw [Prog.wp_bind]
    refine Prog.wp_mono ?_ (pickHostsForCreate_chosen hpin g)
    intro picked g' h
    obtain ⟨ds, hg', hchosen, htot⟩ := h
    refine ⟨ds, hg', ?_, fun hosts he => ?_⟩
    · exact hchosen.reads
    · cases he
      exact ⟨hchosen, fun h hh => htot h (List.mem_of_mem_take hh)⟩

end Chosen

/-! ## The course of a request -/

/-- What a request did, from its reads to its row. -/
inductive Course (r : CreateRequest) : List Deed → Prop
  /-- It ended before any reservation. -/
  | refused {ds : List Deed} (hreads : ∀ d ∈ ds, d.reads) : Course r ds
  | raised {ds₀ ds₁ : List Deed} {hosts : List HostRow} (hchosen : Chosen cfg r ds₀ hosts)
      (htries : Tries cfg r.vcpu r.memMb hosts none ds₁) : Course r (ds₀ ++ (ds₁ ++ []))
  | waiting {ds₀ ds₁ tail : List Deed} {hosts : List HostRow} {row : TenantRow} (hchosen : Chosen cfg r ds₀ hosts)
      (htries : Tries cfg r.vcpu r.memMb hosts (some none) ds₁) (hrow : row.status = .pending)
      (htail : tail = [.unstored row] ∨ tail = [.stored row, .scaled]) : Course r (ds₀ ++ (ds₁ ++ tail))
  | placed {ds₀ ds₁ tail : List Deed} {hosts : List HostRow} {host : HostRow} {n : Int} {row : TenantRow}
      (hchosen : Chosen cfg r ds₀ hosts) (htries : Tries cfg r.vcpu r.memMb hosts (some (some (host, n))) ds₁)
      (hrow : row.status = .creating) (hhost : row.hostId = some host.instanceId)
      (htail : tail = [.unstored row] ∨ tail = [.stored row]) : Course r (ds₀ ++ (ds₁ ++ tail))

section Course

variable {cfg} {T : HostId → Int × Int} {r : CreateRequest}

theorem Call.routes.aside {c : Call} (h : c.routes) : c.aside := by
  cases c <;> trivial

theorem routeTenant_aside (host : HostRow) (tid : TenantId) : (routeTenant cfg host tid).All Call.aside :=
  (routeTenant_routes cfg host tid).mono fun _ h => h.aside

theorem resolveEffectiveSkills_aside (t : TenantRow) : (resolveEffectiveSkills t).All Call.aside := by
  unfold resolveEffectiveSkills
  split <;> first | trivial | exact ⟨trivial, fun _ => trivial⟩

theorem launchCreated_aside (row : TenantRow) (host : HostRow) (n : Int) :
    (launchCreated cfg r row host n).All Call.aside := by
  refine (resolveEffectiveSkills_aside row).bind fun skills => ?_
  refine Prog.All.bind ⟨trivial, fun _ => trivial⟩ fun _ => ?_
  exact (routeTenant_aside host row.id).bind fun ok => trivial

theorem restoreKeyOf_aside (r : CreateRequest) : (restoreKeyOf r).All Call.aside := by
  unfold restoreKeyOf
  split
  · trivial
  · split
    · trivial
    · refine ⟨trivial, fun key => ?_⟩
      cases key <;> trivial

theorem createPlaced_course {key : String} {g : CreateRecord} (hg : deeds g = []) :
    (createPlaced cfg r none key).wp (ctl.amid (Steady T)) (fun _ g' => Course cfg r (deeds g')) g := by
  refine wp_aside (p := req (.genId r.name)) ⟨trivial, fun _ => trivial⟩ fun tid g₁ hg₁ => ?_
  refine wp_aside (p := req .now) ⟨trivial, fun _ => trivial⟩ fun now g₂ hg₂ => ?_
  have hnil : deeds g₂ = [] := hg₂.trans (hg₁.trans hg)
  rw [Prog.wp_bind]
  refine Prog.wp_mono ?_ (candidateHosts_chosen g₂)
  intro b g₃ h
  obtain ⟨ds₀, hg₃, hreads, hchosen⟩ := h
  rw [hnil, List.nil_append] at hg₃
  cases b with
  | inl code =>
    show Course cfg r (deeds g₃)
    rw [hg₃]
    exact .refused hreads
  | inr hosts =>
    obtain ⟨hchosen, htot⟩ := hchosen hosts rfl
    simp only
    rw [Prog.wp_bind]
    refine Prog.wp_mono ?_ (reserveFirst_tries htot g₃)
    intro slot g₄ h
    obtain ⟨ds₁, hg₄, htries⟩ := h
    rw [hg₃] at hg₄
    rcases slot with _ | _ | ⟨host, n⟩
    · show Course cfg r (deeds g₄)
      rw [hg₄, ← List.append_nil ds₁]
      exact .raised hchosen htries
    · refine wp_deed fun ok w w' g₅ _ _ hg₅ => ?_
      rw [hg₄, List.append_assoc] at hg₅
      cases ok with
      | false =>
        show Course cfg r (deeds g₅)
        rw [hg₅]
        exact @Course.waiting cfg r _ _ _ _ (pendingRow r tid key now) hchosen htries rfl (.inl rfl)
      | true =>
        refine wp_deed fun _ w₁ w₁' g₆ _ _ hg₆ => ?_
        show Course cfg r (deeds g₆)
        rw [hg₆, hg₅, List.append_assoc, List.append_assoc]
        exact .waiting hchosen htries rfl (.inr rfl)
    · refine wp_deed fun ok w w' g₅ _ _ hg₅ => ?_
      rw [hg₄, List.append_assoc] at hg₅
      cases ok with
      | false =>
        show Course cfg r (deeds g₅)
        rw [hg₅]
        exact @Course.placed cfg r _ _ _ _ host n (creatingRow cfg r tid key now host n) hchosen htries rfl rfl (.inl rfl)
      | true =>
        refine Prog.wp_mono ?_ (wp_amid_all (launchCreated_aside _ host n) g₅)
        intro code g₆ h
        obtain ⟨s, rfl, hs⟩ := h
        rw [deeds_append, deeds_aside hs, List.append_nil, hg₅]
        exact .placed hchosen htries rfl rfl (.inr rfl)

theorem createTenant_course (hclone : r.cloneFrom = none) {g : CreateRecord} {code : Resp}
    (h : (createTenant cfg r).Runs (ctl.amid (Steady T)) [] code g) : Course cfg r (deeds g) := by
  suffices hwp : (createTenant cfg r).wp (ctl.amid (Steady T)) (fun _ g => Course cfg r (deeds g)) [] from
    Prog.wp_iff_runs.1 hwp code g h
  have hnone : Course cfg r (deeds []) := .refused fun d hd => absurd hd List.not_mem_nil
  unfold createTenant
  split
  · exact hnone
  split
  · exact hnone
  rw [cloneSource, hclone]
  refine wp_aside (restoreKeyOf_aside r) fun key g' hg' => ?_
  cases key with
  | inl code =>
    show Course cfg r (deeds g')
    rw [hg']
    exact hnone
  | inr key => exact createPlaced_course hg'

end Course

/-! ## The bookings of a request -/

/-- The row was read, by the scan or by a look at the host. -/
def WasRead (ds : List Deed) (h : HostRow) : Prop := (∃ rows, .scanned rows ∈ ds ∧ h ∈ rows) ∨ .looked (some h) ∈ ds

/-- What a request tried, booked and stored. -/
structure RaceOutcome (r : CreateRequest) (ds : List Deed) : Prop where
  distinct : (triedHosts ds).Nodup
  few : (triedHosts ds).length ≤ atLeastOne cfg.hostReserveAttempts
  /-- Only hosts that fitted when they were read. -/
  fitted : ∀ id ∈ triedHosts ds, ∃ h, WasRead ds h ∧ h.instanceId = id ∧ Fits cfg r.vcpu r.memMb h
  pinned : r.preferredHostId ≠ "" → ∀ id ∈ triedHosts ds, id = r.preferredHostId
  /-- The row is creating, on the one host that is booked, or it is pending and no host is booked. -/
  stored : ∀ row, .stored row ∈ ds → (row.status = .creating ∧ ∃ host, row.hostId = some host ∧ bookedHosts ds = [host]) ∨
    (row.status = .pending ∧ bookedHosts ds = [])
  /-- A booking is followed by the write of the row, which may raise, and by nothing else. -/
  written : ∀ host ∈ bookedHosts ds, ∃ row d, ds.getLast? = some d ∧ (d = .stored row ∨ d = .unstored row) ∧
    row.status = .creating ∧ row.hostId = some host
  /-- Nothing else is written to the hosts table. -/
  reservesOnly : .wrote ∉ ds
  scales : .scaled ∈ ds ↔ ∃ row, .stored row ∈ ds ∧ row.status = .pending
  /-- It scales out only when every host it tried was full at that moment. -/
  unable : .scaled ∈ ds → ∀ id live ok, .tried id live ok ∈ ds → ∀ x, live = some x → ¬ Fits cfg r.vcpu r.memMb x
  /-- And these are all that fitted, when there were not more than it may try. -/
  allTried : .scaled ∈ ds → r.preferredHostId = "" → ∃ rows, .scanned rows ∈ ds ∧
    ((rows.filter fun h => Fits cfg r.vcpu r.memMb h).length ≤ atLeastOne cfg.hostReserveAttempts →
      ∀ h ∈ rows, Fits cfg r.vcpu r.memMb h → h.instanceId ∈ triedHosts ds)

section Outcome

variable {cfg} {r : CreateRequest} {ds ds₀ ds₁ tail : List Deed} {hosts : List HostRow}
  {slot : Option (Option (HostRow × Int))}

theorem atLeastOne_pos (k : Int) : 1 ≤ atLeastOne k := by
  unfold atLeastOne
  omega

theorem Chosen.nodup (h : Chosen cfg r ds hosts) : (hosts.map HostRow.instanceId).Nodup := by
  cases h with
  | pinned => simp
  | ranked _ hdistinct => exact hdistinct

theorem Chosen.few (h : Chosen cfg r ds hosts) : hosts.length ≤ atLeastOne cfg.hostReserveAttempts := by
  cases h with
  | pinned => exact atLeastOne_pos _
  | ranked _ _ _ hfew => exact hfew

theorem Chosen.read (h : Chosen cfg r ds hosts) {x : HostRow} (hx : x ∈ hosts) :
    WasRead ds x ∧ Fits cfg r.vcpu r.memMb x := by
  cases h with
  | pinned _ _ hfit =>
    obtain rfl := List.mem_singleton.1 hx
    exact ⟨.inr List.mem_cons_self, hfit⟩
  | @ranked rows _ _ _ hfits =>
    obtain ⟨hmem, hfit⟩ := hfits x hx
    exact ⟨.inl ⟨rows, List.mem_cons_self, hmem⟩, hfit⟩

theorem Chosen.pin (h : Chosen cfg r ds hosts) (hpin : r.preferredHostId ≠ "") {x : HostRow} (hx : x ∈ hosts) :
    x.instanceId = r.preferredHostId := by
  cases h with
  | pinned _ hid =>
    obtain rfl := List.mem_singleton.1 hx
    exact hid
  | ranked hno => exact absurd hno hpin

theorem WasRead.append {h : HostRow} (hr : WasRead ds h) (ds' : List Deed) : WasRead (ds ++ ds') h :=
  hr.imp (fun ⟨rows, hmem, hh⟩ => ⟨rows, List.mem_append_left _ hmem, hh⟩) (List.mem_append_left _)

theorem hosts_of_reads (h : ∀ d ∈ ds, d.reads) : triedHosts ds = [] ∧ bookedHosts ds = [] := by
  constructor
  · rw [triedHosts, List.filterMap_eq_nil_iff]
    intro d hd
    have hread := h d hd
    cases d <;> first | rfl | exact False.elim hread
  · rw [bookedHosts, List.filterMap_eq_nil_iff]
    intro d hd
    have hread := h d hd
    cases d <;> first | rfl | exact False.elim hread

/-- The end of a request: its row, and the scale-out. -/
def Deed.ends : Deed → Prop
  | .stored _ | .unstored _ | .scaled => True
  | _ => False

theorem hosts_of_ends (h : ∀ d ∈ tail, d.ends) : triedHosts tail = [] ∧ bookedHosts tail = [] := by
  constructor
  · rw [triedHosts, List.filterMap_eq_nil_iff]
    intro d hd
    have hend := h d hd
    cases d <;> first | rfl | exact False.elim hend
  · rw [bookedHosts, List.filterMap_eq_nil_iff]
    intro d hd
    have hend := h d hd
    cases d <;> first | rfl | exact False.elim hend

/-- A request that read, tried and ended. -/
structure Attempted (cfg : Config) (r : CreateRequest) (slot : Option (Option (HostRow × Int))) (ds₀ ds₁ tail : List Deed)
    (hosts : List HostRow) : Prop where
  chosen : Chosen cfg r ds₀ hosts
  tries : Tries cfg r.vcpu r.memMb hosts slot ds₁
  ends : ∀ d ∈ tail, d.ends

namespace Attempted

variable (h : Attempted cfg r slot ds₀ ds₁ tail hosts)

include h

theorem tried : triedHosts (ds₀ ++ (ds₁ ++ tail)) = triedHosts ds₁ := by
  rw [triedHosts_append, triedHosts_append, (hosts_of_reads h.chosen.reads).1, (hosts_of_ends h.ends).1, List.append_nil,
    List.nil_append]

theorem booked : bookedHosts (ds₀ ++ (ds₁ ++ tail)) = (slot.getD none).toList.map fun p => p.1.instanceId := by
  rw [bookedHosts_append, bookedHosts_append, (hosts_of_reads h.chosen.reads).2, (hosts_of_ends h.ends).2,
    List.append_nil, List.nil_append, h.tries.booked]

/-- A deed of the end stands in the end. -/
theorem mem_tail {d : Deed} (hd : d ∈ ds₀ ++ (ds₁ ++ tail)) (hend : d.ends) : d ∈ tail := by
  rcases List.mem_append.1 hd with hd | hd
  · have hread := h.chosen.reads d hd
    cases d <;> first | exact False.elim hread | exact False.elim hend
  · rcases List.mem_append.1 hd with hd | hd
    · obtain ⟨id, live, ok, rfl⟩ := h.tries.only hd
      exact False.elim hend
    · exact hd

theorem mem_tries {id : HostId} {live : Option HostRow} {ok : Bool} (hd : .tried id live ok ∈ ds₀ ++ (ds₁ ++ tail)) :
    .tried id live ok ∈ ds₁ := by
  rcases List.mem_append.1 hd with hd | hd
  · exact False.elim (h.chosen.reads _ hd)
  · rcases List.mem_append.1 hd with hd | hd
    · exact hd
    · exact False.elim (h.ends _ hd)

theorem not_wrote : .wrote ∉ ds₀ ++ (ds₁ ++ tail) := by
  intro hd
  rcases List.mem_append.1 hd with hd | hd
  · exact h.chosen.reads _ hd
  · rcases List.mem_append.1 hd with hd | hd
    · obtain ⟨id, live, ok, he⟩ := h.tries.only hd
      cases he
    · exact h.ends _ hd

theorem of_tried {id : HostId} (hid : id ∈ triedHosts (ds₀ ++ (ds₁ ++ tail))) : ∃ x ∈ hosts, x.instanceId = id := by
  rw [h.tried] at hid
  simpa using h.tries.leading.subset hid

/-- What does not depend on how the request ended. -/
theorem outcome
    (hstored : ∀ row, .stored row ∈ tail →
      (row.status = .creating ∧ ∃ host, row.hostId = some host ∧ bookedHosts (ds₀ ++ (ds₁ ++ tail)) = [host]) ∨
      (row.status = .pending ∧ bookedHosts (ds₀ ++ (ds₁ ++ tail)) = []))
    (hwritten : ∀ host ∈ bookedHosts (ds₀ ++ (ds₁ ++ tail)), ∃ row d, tail.getLast? = some d ∧
      (d = .stored row ∨ d = .unstored row) ∧ row.status = .creating ∧ row.hostId = some host)
    (hscales : .scaled ∈ tail ↔ ∃ row, .stored row ∈ tail ∧ row.status = .pending)
    (hfull : .scaled ∈ tail → slot = some none) : RaceOutcome cfg r (ds₀ ++ (ds₁ ++ tail)) where
  distinct := by
    rw [h.tried]
    exact h.tries.leading.sublist.nodup h.chosen.nodup
  few := by
    rw [h.tried]
    have hlen := h.tries.leading.length_le
    rw [List.length_map] at hlen
    exact hlen.trans h.chosen.few
  fitted id hid := by
    obtain ⟨x, hx, hxid⟩ := h.of_tried hid
    obtain ⟨hread, hfit⟩ := h.chosen.read hx
    exact ⟨x, hread.append _, hxid, hfit⟩
  pinned hpin id hid := by
    obtain ⟨x, hx, rfl⟩ := h.of_tried hid
    exact h.chosen.pin hpin hx
  stored row hrow := hstored row (h.mem_tail hrow trivial)
  written host hhost := by
    obtain ⟨row, d, hlast, hd⟩ := hwritten host hhost
    exact ⟨row, d, by simp [List.getLast?_append, hlast], hd⟩
  reservesOnly := h.not_wrote
  scales := by
    constructor
    · intro hs
      obtain ⟨row, hrow, hpending⟩ := hscales.1 (h.mem_tail hs trivial)
      exact ⟨row, List.mem_append_right _ (List.mem_append_right _ hrow), hpending⟩
    · intro hrow
      obtain ⟨row, hrow, hpending⟩ := hrow
      have hs := hscales.2 ⟨row, h.mem_tail hrow trivial, hpending⟩
      exact List.mem_append_right _ (List.mem_append_right _ hs)
  unable hs id live ok hd := by
    obtain rfl := hfull (h.mem_tail hs trivial)
    exact h.tries.full.2 id live ok (h.mem_tries hd)
  allTried hs hpin := by
    obtain rfl := hfull (h.mem_tail hs trivial)
    have hall := h.tries.full.1
    rw [h.tried, hall]
    have hchosen := h.chosen
    cases hchosen with
    | pinned hno => exact absurd hpin hno
    | @ranked rows _ _ _ _ _ hmem =>
      refine ⟨rows, List.mem_append_left _ List.mem_cons_self, fun hfew x hx hfit => ?_⟩
      exact List.mem_map_of_mem (hmem hfew x hx hfit)

end Attempted

/-- Reads alone book nothing. -/
theorem outcome_of_reads (h : ∀ d ∈ ds, d.reads) : RaceOutcome cfg r ds := by
  obtain ⟨htried, hbooked⟩ := hosts_of_reads h
  refine ⟨by simp [htried], by simp [htried], by simp [htried], by simp [htried], ?_, by simp [hbooked], h _, ?_, ?_, ?_⟩
  · intro row hrow
    exact False.elim (h _ hrow)
  · constructor
    · intro hs
      exact False.elim (h _ hs)
    · intro hrow
      obtain ⟨row, hrow, -⟩ := hrow
      exact False.elim (h _ hrow)
  · intro hs
    exact False.elim (h _ hs)
  · intro hs
    exact False.elim (h _ hs)

theorem Course.outcome (h : Course cfg r ds) : RaceOutcome cfg r ds := by
  cases h with
  | refused hreads => exact outcome_of_reads hreads
  | @raised ds₀ ds₁ hosts hchosen htries =>
    have hatt : Attempted cfg r none ds₀ ds₁ [] hosts := ⟨hchosen, htries, fun d hd => absurd hd List.not_mem_nil⟩
    have hnone : bookedHosts (ds₀ ++ (ds₁ ++ [])) = [] := hatt.booked
    exact hatt.outcome (fun row hrow => absurd hrow List.not_mem_nil)
      (fun id hid => absurd (hnone ▸ hid) List.not_mem_nil) (by simp)
      (fun hs => absurd hs List.not_mem_nil)
  | @waiting ds₀ ds₁ tail hosts row hchosen htries hrow htail =>
    have hatt : Attempted cfg r (some none) ds₀ ds₁ tail hosts := by
      refine ⟨hchosen, htries, ?_⟩
      rcases htail with rfl | rfl <;> simp [Deed.ends]
    have hnone : bookedHosts (ds₀ ++ (ds₁ ++ tail)) = [] := hatt.booked
    refine hatt.outcome (fun row' hrow' => .inr ?_) (by simp [hnone]) ?_ (fun _ => rfl)
    · have he : row' = row := by
        rcases htail with rfl | rfl <;> simp_all
      exact ⟨he ▸ hrow, hnone⟩
    · rcases htail with rfl | rfl <;> simp [hrow]
  | @placed ds₀ ds₁ tail hosts host n row hchosen htries hrow hhost htail =>
    have hatt : Attempted cfg r (some (some (host, n))) ds₀ ds₁ tail hosts := by
      refine ⟨hchosen, htries, ?_⟩
      rcases htail with rfl | rfl <;> simp [Deed.ends]
    have hone : bookedHosts (ds₀ ++ (ds₁ ++ tail)) = [host.instanceId] := hatt.booked
    refine hatt.outcome (fun row' hrow' => .inl ?_) (fun id hid => ?_) ?_ ?_
    · have he : row' = row := by
        rcases htail with rfl | rfl <;> simp_all
      exact ⟨he ▸ hrow, host.instanceId, he ▸ hhost, hone⟩
    · obtain rfl : id = host.instanceId := by simpa [hone] using hid
      rcases htail with rfl | rfl
      · exact ⟨row, _, rfl, .inr rfl, hrow, hhost⟩
      · exact ⟨row, _, rfl, .inl rfl, hrow, hhost⟩
    · rcases htail with rfl | rfl <;> simp [hrow]
    · rcases htail with rfl | rfl <;> simp

end Outcome

/-- **A lost race is not an exhausted fleet.** Whatever other creates and updates do to the counters between the calls of
a request that is no clone, it books at most the host of its row, and scales out only when every host it tried was full. -/
theorem lost_race {r : CreateRequest} (hclone : r.cloneFrom = none) (T : HostId → Int × Int) {g : CreateRecord} {code : Resp}
    (h : (createTenant cfg r).Runs (ctl.amid (Steady T)) [] code g) : RaceOutcome cfg r (deeds g) :=
  (createTenant_course hclone h).outcome

/-- The same of the process that ran the request in an interleaved run of any programs whose worlds keep the totals. -/
theorem lost_race_interleaved {J ι : Type} [DecidableEq ι] {B : Jobs Ctl World J Resp}
    {Gd : List (Ev Ctl J ι) → World → Ev Ctl J ι → Prop} {w₀ : World} {tr : List (Ev Ctl J ι)} {c : Conf Ctl World J ι Resp}
    {i : ι} {g : CreateRecord} {r : CreateRequest} (hclone : r.cloneFrom = none) {T : HostId → Int × Int}
    (h : Recorded ctl B Gd w₀ i tr c g) (hsteady : ∀ tr w e, Gd tr w e → Steady T w) {j : J} {code : Resp}
    (hbody : B.body j = createTenant cfg r) (hdone : c.proc i = some (j, .ret code)) : RaceOutcome cfg r (deeds g) := by
  have hpart := hbody ▸ h.partway hsteady hdone
  have hrun : (createTenant cfg r).Runs (ctl.amid (Steady T)) [] code g := hpart.runs (.ret code g)
  exact (createTenant_course hclone hrun).outcome

/-- A tenant of one vCPU. -/
def lightRequest : CreateRequest := { name := "a", vcpu := 1, memMb := 1024, dataDiskMb := 0 }

/-- All vCPUs of the host are booked. -/
def fullHost (id : HostId) (next : Int) : HostRow := { emptyHost id next with usedVcpu := some 4, vmCount := some 4 }

/-- Every host has four vCPUs and 8 GiB. -/
abbrev AllAlike : World → Prop := Steady fun _ => (4, 8192)

theorem emptyHost_alike (id : HostId) (next : Int) : Counted (emptyHost id next) ∧
    (emptyHost id next).totalVcpu = some 4 ∧ (emptyHost id next).totalMemMb = some 8192 :=
  ⟨⟨rfl, rfl, rfl, rfl, rfl, rfl⟩, rfl, rfl⟩

theorem fullHost_alike (id : HostId) (next : Int) : Counted (fullHost id next) ∧
    (fullHost id next).totalVcpu = some 4 ∧ (fullHost id next).totalMemMb = some 8192 :=
  ⟨⟨rfl, rfl, rfl, rfl, rfl, rfl⟩, rfl, rfl⟩

/-- Two free hosts. -/
def freePair : { w : World // AllAlike w } where
  val := { tenants := .empty, hosts := ⟨[emptyHost "i-1" 1, emptyHost "i-2" 1], by decide⟩ }
  property := List.forall_mem_cons.2 ⟨emptyHost_alike .., List.forall_mem_singleton.2 (emptyHost_alike ..)⟩

/-- Another request has taken the first one. -/
def halfPair : { w : World // AllAlike w } where
  val := { tenants := .empty, hosts := ⟨[fullHost "i-1" 5, emptyHost "i-2" 1], by decide⟩ }
  property := List.forall_mem_cons.2 ⟨fullHost_alike .., List.forall_mem_singleton.2 (emptyHost_alike ..)⟩

/-- Others have taken both. -/
def fullPair : { w : World // AllAlike w } where
  val := { tenants := .empty, hosts := ⟨[fullHost "i-1" 5, fullHost "i-2" 5], by decide⟩ }
  property := List.forall_mem_cons.2 ⟨fullHost_alike .., List.forall_mem_singleton.2 (fullHost_alike ..)⟩

/-- What the request finds at each of its calls, and what it does. -/
theorem lost_race_runs {ws : List { w : World // AllAlike w }} {P : Resp → List Deed → Bool}
    (h : (((ctlOracle.amid (I := AllAlike)).alone (fun _ _ _ => true) (createTenant {} lightRequest)
      (ws.map fun w => ({}, w)) []).any fun x => P x.2.1 (deeds x.2.2)) = true) :
    ∃ g code, (createTenant {} lightRequest).Runs (ctl.amid AllAlike) [] code g ∧ P code (deeds g) = true := by
  obtain ⟨⟨l, code, g⟩, hx, hP⟩ := (Option.any_eq_true _ _).1 h
  have ht : Prog.Traces ((ctl.amid AllAlike).restrict fun _ _ _ => True) _ _ l code g :=
    Oracle.alone_sound (fun _ _ _ _ => trivial) hx
  exact ⟨g, code, ht.of_restrict.runs, hP⟩

/-- A request that loses the first host to another one takes the second host; one that loses both scales out. -/
theorem lost_race_lost :
    (∃ g, (createTenant {} lightRequest).Runs (ctl.amid AllAlike) [] 201 g ∧
      triedHosts (deeds g) = ["i-1", "i-2"] ∧ bookedHosts (deeds g) = ["i-2"] ∧
      RaceOutcome {} lightRequest (deeds g)) ∧
    ∃ g, (createTenant {} lightRequest).Runs (ctl.amid AllAlike) [] 201 g ∧
      triedHosts (deeds g) = ["i-1", "i-2"] ∧ .scaled ∈ deeds g ∧ RaceOutcome {} lightRequest (deeds g) := by
  have hnext := @lost_race_runs (List.replicate 4 freePair ++ List.replicate 10 halfPair) (fun code ds =>
    code = 201 && (triedHosts ds = ["i-1", "i-2"] && bookedHosts ds = ["i-2"])) (by decide +kernel)
  have hout := @lost_race_runs (List.replicate 4 freePair ++ List.replicate 4 fullPair) (fun code ds =>
    code = 201 && (triedHosts ds = ["i-1", "i-2"] && ds.any fun d => match d with
      | .scaled => true
      | _ => false)) (by decide +kernel)
  obtain ⟨g, code, hrun, hP⟩ := hnext
  simp only [Bool.and_eq_true, decide_eq_true_eq] at hP
  obtain ⟨rfl, htried, hbooked⟩ := hP
  obtain ⟨g', code', hrun', hP'⟩ := hout
  simp only [Bool.and_eq_true, decide_eq_true_eq] at hP'
  obtain ⟨rfl, htried', hscaled⟩ := hP'
  refine ⟨⟨g, hrun, htried, hbooked, lost_race {} rfl _ hrun⟩, g', hrun', htried', ?_, lost_race {} rfl _ hrun'⟩
  obtain ⟨d, hd, hs⟩ := List.any_eq_true.1 hscaled
  cases d <;> first | exact hd | cases hs

end OpenClaw
