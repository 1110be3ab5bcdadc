import OpenClaw.Routing.TwoHops

/-!
# Requests while a tenant moves

In a move the local confs are not where the row says: the source keeps its conf until the VM is stopped there, the target
has one as soon as the VM is launched, and the row names the source until the flip.

- `SyncedHosts`: all hosts have synced, wherever the local confs are.
- `Answers`: the hosts that answer a request, by the tables and the local confs alone.
- `requests_answered`: it is those hosts that requests get to.
- `move_gate`: when every host gets a request to a host of a given set, as the probes of a gate need it.
-/

namespace OpenClaw

open Keyed

/-- Every host of the table has loaded its local confs and the peer confs that go with them and the tables. -/
def SyncedHosts (T : TenantsTable) (H : HostsTable) (F : Fleet) : Prop :=
  ∀ h row, H.get h = some row → InSync T H h (F.host h)

/-- The host has a local conf of the tenant. -/
def Fleet.hasConf (F : Fleet) (tid : TenantId) (h : HostId) : Prop := (F.host h).locals.dir.get (confName tid) ≠ none

/-- The addresses of the table are those of the hosts. -/
def Fleet.addressed (F : Fleet) (H : HostsTable) : Prop :=
  ∀ o row ip, H.get o = some row → row.privateIp = some ip → F.addr ip = some o

/-- The tenant is routed to the host, which is in the table with an address. -/
structure RoutedTo (H : HostsTable) (t : TenantRow) (o : HostId) : Prop where
  routable : TenantFilter.routable.holds t = true
  owner : t.hostId = some o
  known : ∃ row ip, H.get o = some row ∧ row.privateIp = some ip ∧ ip ≠ ""

/-- A request for the tenant that arrives at the host `h` is answered on the host `k`: on `h` itself if the tenant has a
conf there, else on the host the row names. -/
def Answers (H : HostsTable) (F : Fleet) (t : TenantRow) (h k : HostId) : Prop :=
  F.hasConf t.id h ∧ k = h ∨ ¬ F.hasConf t.id h ∧ F.hasConf t.id k ∧ k ≠ h ∧ RoutedTo H t k

section Picks

/-- Nothing is taken where nothing matches. -/
theorem pick_of_none {locs : List Location} {path : List Char} (h : locs.filter (fun l => l.hit path) = []) :
    pick locs path = none := by
  have hmiss : ∀ q : Location → Bool, (locs.find? fun l => q l && l.hit path) = none := by
    intro q
    refine List.find?_eq_none.2 fun l hl hq => ?_
    rw [Bool.and_eq_true] at hq
    exact List.filter_eq_nil_iff.1 h l hl hq.2
  have hany : locs.find? (fun l => l.hit path) = none := List.find?_eq_none.2 (List.filter_eq_nil_iff.1 h)
  simp [pick, hmiss, hany]

variable {F : Fleet} {uri : String} {p : Port} {h : HostId} {n : ℕ} {v : Visit}

/-- A request that gets somewhere was taken by a location. -/
theorem Reaches.picked (hr : Reaches F uri p h n v) : pick ((F.host h).nginx.server p) (F.path uri) ≠ none := by
  cases hr with
  | guest hpick hgroup => rw [hpick]; exact Option.some_ne_none _
  | forward hpick haddr hnext => rw [hpick]; exact Option.some_ne_none _

end Picks

section Synced

variable {T : TenantsTable} {H : HostsTable} {F : Fleet} {h k : HostId} {t : TenantRow} {rest : List Char} {uri : String}

/-- A peer block that matches is the tenant's, and the row says where it leads. -/
theorem peers_none {w : RouteHost} (hs : InSync T H h w) (hids : ∀ t ∈ T.rows, ValidId t.id) (ht : t ∈ T.rows)
    (hno : ∀ o, o ≠ h → ¬ RoutedTo H t o) :
    (w.peers.include.map Location.tenant).filter (fun l => l.hit (tenantPath t.id rest)) = [] := by
  refine filter_blocks_nil (hids t ht).no_slash (fun x hx => peers_slash hs hids hx) fun x hx he => ?_
  obtain ⟨t', ht', hroute, -, o, row, ip, ho, hne, hrow, hip, hknown, hf⟩ := peers_blocks hs hx
  have hid : t'.id = t.id := (confName_injective (congrArg ConfFile.name hf)).symm.trans he
  obtain rfl : t' = t := by
    have hg₁ : T.get t'.id = some t' := Table.get_of_mem ht'
    have hg₂ : T.get t.id = some t := Table.get_of_mem ht
    rw [hid, hg₂] at hg₁
    exact (Option.some.inj hg₁).symm
  exact hno o hne ⟨hroute, ho, row, ip, hrow, hip, hknown⟩

/-- With a conf of the tenant both servers of a host hand the request to the guest. -/
theorem local_served (hs : InSync T H h (F.host h)) (hids : ∀ t ∈ T.rows, ValidId t.id) (ht : t ∈ T.rows)
    (hl : F.hasConf t.id h) (hpath : F.path uri = tenantPath t.id rest) (hrest : '\n' ∉ rest) (p : Port) :
    ∃ ip, Reaches F uri p h 0 ⟨h, ip, '/' :: rest⟩ := by
  obtain ⟨f, hg⟩ := Option.ne_none_iff_exists'.1 hl
  obtain ⟨ip, -, hhit⟩ := locals_hit hg hrest
  refine ⟨ip, .guest (pick_of_single ?_) (by rw [hpath]; exact capture_self hrest)⟩
  rw [hpath]
  cases p with
  | http => rw [http_filter hs _ fixed_miss, peers_miss hs hids (hids t ht) hl, hhit, List.nil_append]; rfl
  | internal => rw [internal_filter hs _ health_miss, hhit]; rfl

/-- Without one the internal server does not take it. -/
theorem internal_refused (hs : InSync T H h (F.host h)) (hid : ValidId t.id) (hl : ¬ F.hasConf t.id h)
    (hpath : F.path uri = tenantPath t.id rest) : pick ((F.host h).nginx.server .internal) (F.path uri) = none := by
  refine pick_of_none ?_
  rw [hpath, internal_filter hs _ health_miss, locals_miss hid (not_not.1 hl)]

/-- The public server forwards it to the host the row names. -/
theorem http_forwards (hs : InSync T H h (F.host h)) (hids : ∀ t ∈ T.rows, ValidId t.id) (ht : t ∈ T.rows)
    (haddr : F.addressed H) (hl : ¬ F.hasConf t.id h) (hr : RoutedTo H t k) (hne : k ≠ h)
    (hpath : F.path uri = tenantPath t.id rest) (hrest : '\n' ∉ rest) :
    ∃ ip, pick ((F.host h).nginx.server .http) (F.path uri) = some (.tenant ⟨t.id, .peer ip⟩) ∧ F.addr ip = some k := by
  obtain ⟨row, ip, hrow, hip, hknown⟩ := hr.known
  refine ⟨ip, pick_of_single ?_, haddr k row ip hrow hip⟩
  rw [hpath, http_filter hs _ fixed_miss, locals_miss (hids t ht) (not_not.1 hl),
    peers_hit hs hids ht hr.routable (not_not.1 hl) hr.owner hne hrow hip hknown hrest, List.append_nil]
  rfl

/-- It takes the request for no other reason. -/
theorem http_refused (hs : InSync T H h (F.host h)) (hids : ∀ t ∈ T.rows, ValidId t.id) (ht : t ∈ T.rows)
    (hl : ¬ F.hasConf t.id h) (hno : ∀ o, o ≠ h → ¬ RoutedTo H t o) (hpath : F.path uri = tenantPath t.id rest) :
    pick ((F.host h).nginx.server .http) (F.path uri) = none := by
  refine pick_of_none ?_
  rw [hpath, http_filter hs _ fixed_miss, locals_miss (hids t ht) (not_not.1 hl), peers_none hs hids ht hno,
    List.append_nil]

/-- A request gets to a host exactly if the host answers it, after at most one forward. -/
theorem SyncedHosts.reaches_iff (hF : SyncedHosts T H F) (hids : ∀ t ∈ T.rows, ValidId t.id) (haddr : F.addressed H)
    (ht : t ∈ T.rows) {row : HostRow} (hrow : H.get h = some row) (hpath : F.path uri = tenantPath t.id rest)
    (hrest : '\n' ∉ rest) :
    (∃ n v, Reaches F uri .http h n v ∧ v.host = k) ↔ Answers H F t h k := by
  have hs := hF h row hrow
  by_cases hl : F.hasConf t.id h
  · obtain ⟨ip, hr⟩ := local_served hs hids ht hl hpath hrest .http
    constructor
    · rintro ⟨n, v, hr', rfl⟩
      obtain ⟨-, rfl⟩ := hr.unique hr'
      exact .inl ⟨hl, rfl⟩
    · rintro (⟨-, rfl⟩ | ⟨hno, -⟩)
      · exact ⟨0, _, hr, rfl⟩
      · exact absurd hl hno
  · by_cases hr : ∃ o, o ≠ h ∧ RoutedTo H t o
    · obtain ⟨o, hne, hr⟩ := hr
      obtain ⟨ip, hpick, ho⟩ := http_forwards hs hids ht haddr hl hr hne hpath hrest
      obtain ⟨orow, -, horow, -⟩ := hr.known
      constructor
      · rintro ⟨n, v, hv, rfl⟩
        cases hv with
        | guest hpick' _ =>
          rw [hpick] at hpick'
          cases hpick'
        | forward hpick' ho' hnext =>
          rw [hpick] at hpick'
          cases hpick'
          obtain rfl := Option.some.inj (ho.symm.trans ho')
          -- The second host takes the request only if it has a conf of its own.
          by_cases hlo : F.hasConf t.id o
          · obtain ⟨ip, hr₀⟩ := local_served (hF o orow horow) hids ht hlo hpath hrest .internal
            obtain ⟨-, rfl⟩ := hr₀.unique hnext
            exact .inr ⟨hl, hlo, hne, hr⟩
          · exact absurd (internal_refused (hF o orow horow) (hids t ht) hlo hpath) hnext.picked
      · rintro (⟨hyes, -⟩ | ⟨-, hlk, -, hrk⟩)
        · exact absurd hyes hl
        · obtain rfl : o = k := Option.some.inj (hr.owner.symm.trans hrk.owner)
          obtain ⟨ip', hr₀⟩ := local_served (hF o orow horow) hids ht hlk hpath hrest .internal
          exact ⟨1, _, .forward hpick ho hr₀, rfl⟩
    · constructor
      · rintro ⟨n, v, hv, -⟩
        exact absurd (http_refused hs hids ht hl (fun o hne ho => hr ⟨o, hne, ho⟩) hpath) hv.picked
      · rintro (⟨hyes, -⟩ | ⟨-, -, hne, hrk⟩)
        · exact absurd hyes hl
        · exact absurd ⟨k, hne, hrk⟩ hr

end Synced

/-! ## Gates -/

/-- Wherever a request for the tenant arrives, it gets to a host of the set. -/
def AlwaysServed (H : HostsTable) (F : Fleet) (uri : String) (S : Set HostId) : Prop :=
  ∀ h row, H.get h = some row → ∃ n v, Reaches F uri .http h n v ∧ v.host ∈ S

section Gates

variable {T : TenantsTable} {H : HostsTable} {F : Fleet} {t : TenantRow}

/-- **Requests of a tenant in any state of a move.** A request gets from a host to those hosts that answer it by the tables
and the local confs. So wherever it arrives it gets to a host of a set exactly if all hosts with a local conf are in the
set, and, unless every host has one, the row is routable and names a host with a known address and a local conf that is
in the set. -/
theorem move_gate (hids : ∀ t ∈ T.rows, ValidId t.id) (hF : SyncedHosts T H F) (haddr : F.addressed H) (ht : t ∈ T.rows) :
    ∀ uri rest, F.path uri = tenantPath t.id rest → '\n' ∉ rest →
      (∀ h row k, H.get h = some row → ((∃ n v, Reaches F uri .http h n v ∧ v.host = k) ↔ Answers H F t h k)) ∧
      ∀ S : Set HostId, AlwaysServed H F uri S ↔
        (∀ h row, H.get h = some row → F.hasConf t.id h → h ∈ S) ∧
          ((∀ h row, H.get h = some row → F.hasConf t.id h) ∨ ∃ o ∈ S, RoutedTo H t o ∧ F.hasConf t.id o) := by
  intro uri rest hpath hrest
  have hiff : ∀ h row k, H.get h = some row →
      ((∃ n v, Reaches F uri .http h n v ∧ v.host = k) ↔ Answers H F t h k) :=
    fun h row k hrow => hF.reaches_iff hids haddr ht hrow hpath hrest
  refine ⟨hiff, fun S => ⟨fun hall => ?_, ?_⟩⟩
  · have hans : ∀ h row, H.get h = some row → ∃ k ∈ S, Answers H F t h k := by
      intro h row hrow
      obtain ⟨n, v, hr, hv⟩ := hall h row hrow
      exact ⟨v.host, hv, (hiff h row _ hrow).1 ⟨n, v, hr, rfl⟩⟩
    constructor
    · intro h row hrow hl
      obtain ⟨k, hk, ⟨-, rfl⟩ | ⟨hno, -⟩⟩ := hans h row hrow
      · exact hk
      · exact absurd hl hno
    · by_contra hno
      rw [not_or] at hno
      obtain ⟨hsome, hnone⟩ := hno
      push Not at hsome
      obtain ⟨h, row, hrow, hl⟩ := hsome
      obtain ⟨k, hk, ⟨hyes, -⟩ | ⟨-, hlk, -, hr⟩⟩ := hans h row hrow
      · exact hl hyes
      · exact hnone ⟨k, hk, hr, hlk⟩
  · rintro ⟨hlocal, hrest'⟩ h row hrow
    suffices h' : ∃ k ∈ S, Answers H F t h k by
      obtain ⟨k, hk, ha⟩ := h'
      obtain ⟨n, v, hr, rfl⟩ := (hiff h row k hrow).2 ha
      exact ⟨n, v, hr, hk⟩
    by_cases hl : F.hasConf t.id h
    · exact ⟨h, hlocal h row hrow hl, .inl ⟨hl, rfl⟩⟩
    · rcases hrest' with hall | ⟨o, ho, hr, hlo⟩
      · exact absurd (hall h row hrow) hl
      · refine ⟨o, ho, .inr ⟨hl, hlo, ?_, hr⟩⟩
        rintro rfl
        exact hl hlo

/-- While a tenant migrates, a host without a conf of it answers nothing. -/
theorem migrating_unanswered {h k : HostId} (hst : t.status = .migrating) (hl : ¬ F.hasConf t.id h) :
    ¬ Answers H F t h k := by
  rintro (⟨hyes, -⟩ | ⟨-, -, -, hr⟩)
  · exact hl hyes
  · have := hr.routable
    simp [TenantFilter.holds, hst] at this

/-- At the verify gate of a failover the row names the lost source, so a host without a conf answers nothing either. -/
theorem failover_unanswered {h k source : HostId} (howner : t.hostId = some source) (hlost : ¬ F.hasConf t.id source)
    (hl : ¬ F.hasConf t.id h) : ¬ Answers H F t h k := by
  rintro (⟨hyes, -⟩ | ⟨-, hlk, -, hr⟩)
  · exact hl hyes
  · obtain rfl := Option.some.inj (howner.symm.trans hr.owner)
    exact hlost hlk

end Gates

/-- The tenant of the first host is answered from both. -/
theorem move_gate_two_hosts : ∃ F, SyncedHosts routedTenants (routedHosts (some "10.0.0.1")) F ∧
    AlwaysServed (routedHosts (some "10.0.0.1")) F "/vm/a-0000/x" {"i-1"} := by
  obtain ⟨w₁, w₂, hf, hl₁, hl₂⟩ := @routed_fleet (some "10.0.0.1") 10 11 (by decide +kernel) (by decide +kernel)
  have hF : SyncedHosts routedTenants (routedHosts (some "10.0.0.1")) (twoHostFleet w₁ w₂) :=
    fun h row hrow => hf.inSync routed_ids hrow
  have haddr : (twoHostFleet w₁ w₂).addressed (routedHosts (some "10.0.0.1")) := by
    intro o row ip ho hip
    obtain ⟨hm, rfl⟩ := Table.get_eq_some.1 ho
    rcases Table.mem_put.1 hm with rfl | ⟨hm, -⟩
    · obtain rfl := Option.some.inj hip
      rfl
    · obtain rfl := List.mem_singleton.1 hm
      obtain rfl := Option.some.inj hip
      rfl
  have hpath : (twoHostFleet w₁ w₂).path "/vm/a-0000/x" = tenantPath "a-0000" "x".toList := by
    simp [twoHostFleet, tenantPath]
  have hlocal : (twoHostFleet w₁ w₂).hasConf "a-0000" "i-1" := by
    show w₁.locals.dir.get _ ≠ none
    rw [hl₁]
    decide
  refine ⟨_, hF, ((move_gate routed_ids hF haddr List.mem_cons_self _ _ hpath (by decide)).2 _).2 ⟨?_, .inr ?_⟩⟩
  · intro h row hrow hl
    rcases routed_host hrow with ⟨rfl, -⟩ | rfl
    · rfl
    · refine absurd ?_ hl
      show w₂.locals.dir.get _ = none
      rw [hl₂]
      rfl
  · exact ⟨"i-1", rfl, ⟨rfl, rfl, _, _, rfl, rfl, by decide⟩, hlocal⟩

end OpenClaw
