import OpenClaw.Fleet.Programs

/-!
# What the programs keep to

Every program of the control plane, the batch operations and the host operations of the API among them, keeps to one
protocol (`conduct`), whatever the others do meanwhile.

- A row that a program writes is `Shaped`, and every update it writes keeps rows so (`Call.shapely`).
- A program that places a tenant on a host, or records the host as the target of a migration, has read a row of the host
  that was not draining and not deleted (`Call.places`, `opened`).
- `controlBody_conduct`: every program does so; the detector and the worker of the failover choose hosts in their own way,
  and are not bound by the second part.
-/

namespace OpenClaw

open Keyed Atomic

variable (cfg : Config)

/-! ## The protocol -/

/-- The hosts that the answer shows open. -/
def opened : (c : Call) → c.Ans → Set HostId
  | .scanHosts _, rows => {id | ∃ h ∈ rows, h.instanceId = id ∧ h.closed = false}
  | .getHost _, row => {id | ∃ h, row = some h ∧ h.instanceId = id ∧ h.closed = false}
  | _, _ => ∅

/-- What the tables answer, as long as every row is shaped. -/
def readsShaped : (c : Call) → c.Ans → Prop
  | .getTenant _, r => ∀ t, r = some t → t.Shaped
  | .scanTenants f, r => ∀ t ∈ r, t.Shaped ∧ f.holds t = true
  | .getHost id, r => ∀ h, r = some h → h.instanceId = id
  | .scanHosts f, r => ∀ h ∈ r, f.holds h = true
  | .shuffle hs, r => r.Perm hs
  | _, _ => True

def controlJobs : Jobs Ctl World ControlJob Unit where
  body := controlBody cfg
  start _ w w' := w' = w

/-- A process remembers the hosts it has seen open. -/
def conduct : Protocol Ctl ControlJob (Set HostId) where
  init _ := ∅
  allow g c := c.shapely ∧ ∀ h, c.places = some h → h ∈ g
  sane _ c := readsShaped c
  next g c r := g ∪ opened c r

theorem Call.tame.allow {c : Call} (h : c.tame) (g : Set HostId) : conduct.allow g c :=
  ⟨h.1, fun id e => by rw [h.2] at e; cases e⟩

section Conduct

variable {cfg} {α : Type} {g : Set HostId}

/-- The program keeps to the protocol; what it has seen is not forgotten. -/
theorem tame_obeys {p : CtlProg α} (hp : p.All Call.tame) : p.obeys conduct (fun _ g' => g ⊆ g') g := by
  induction p generalizing g with
  | ret a => exact subset_rfl
  | call c k ih =>
    refine ⟨hp.1.allow g, fun r _ => ?_⟩
    have hk := ih r (hp.2 r) (g := g ∪ opened c r)
    exact Prog.obeys_mono (fun _ _ hsub => (Set.subset_union_left (t := opened c r)).trans hsub) hk

theorem tame_of_routes {p : CtlProg α} (hp : p.All Call.routes) : p.All Call.tame :=
  hp.mono fun _ h => h.plain.bland.tame

variable (cfg) in
/-- A program without a duty. -/
theorem made_obeys {p : CtlProg α} (hp : p.All (Made cfg {})) : p.obeys conduct (fun _ g' => g ⊆ g') g :=
  tame_obeys (hp.mono fun _ h => h.tame ⟨id, id, id, id, id, id⟩)

theorem migrationSweep_conduct (now : Time) : (migrationSweep cfg now).obeys conduct (fun _ g' => g ⊆ g') g := by
  have hscan : (Call.scanTenants (.status .migrating)).tame := ⟨trivial, rfl⟩
  refine ⟨hscan.allow g, fun rows hrows => ?_⟩
  have hrest := made_obeys cfg (g := g ∪ ∅) (advanceAll_made (fun _ => trivial) now fun t ht => .inr (hrows t ht).1)
  exact Prog.obeys_mono (fun _ _ hsub => Set.subset_union_left.trans hsub) hrest

/-! ### Placing a tenant -/

theorem open_of_activeOrIdle {h : HostRow} (hf : HostFilter.activeOrIdle.holds h = true) : h.closed = false := by
  simp only [HostFilter.holds, Bool.or_eq_true, decide_eq_true_eq] at hf
  rcases hf with hs | hs <;> simp [HostRow.closed, hs]

/-- The rows of a scan of the active and idle hosts are those of open hosts. -/
theorem scan_opens {rows : List HostRow} (hr : readsShaped (.scanHosts .activeOrIdle) rows) {h : HostRow}
    (hm : h ∈ rows) : h.instanceId ∈ opened (.scanHosts .activeOrIdle) rows :=
  ⟨h, hm, rfl, open_of_activeOrIdle (hr h hm)⟩

theorem findHost_conduct (v m : Int) : (findHost cfg v m).obeys conduct
    (fun r g' => g ⊆ g' ∧ ∀ h, r = some h → h.instanceId ∈ g') g := by
  have hscan : (Call.scanHosts .activeOrIdle).tame := ⟨trivial, rfl⟩
  refine ⟨hscan.allow g, fun rows hr => ⟨Set.subset_union_left, fun h hh => .inr ?_⟩⟩
  have hm : h ∈ rankHosts cfg rows v m := List.mem_of_head? hh
  exact scan_opens hr ((mem_rankHosts cfg).1 hm).1

theorem pickHostsForCreate_conduct (v m : Int) : (pickHostsForCreate cfg v m).obeys conduct
    (fun hs g' => g ⊆ g' ∧ ∀ h ∈ hs, h.instanceId ∈ g') g := by
  have hscan : (Call.scanHosts .activeOrIdle).tame := ⟨trivial, rfl⟩
  simp only [pickHostsForCreate, rankCandidateHosts, req_bind, Prog.pure_eq, Prog.call_bind, Prog.ret_bind]
  refine ⟨hscan.allow g, fun rows hr => ?_⟩
  have hopen : ∀ h ∈ rankHosts cfg rows v m, h.instanceId ∈ g ∪ opened (.scanHosts .activeOrIdle) rows :=
    fun h hm => .inr (scan_opens hr ((mem_rankHosts cfg).1 hm).1)
  beta_reduce
  split
  · exact ⟨Set.subset_union_left, fun h hm => absurd hm List.not_mem_nil⟩
  · have hshuffle : (Call.shuffle ((rankHosts cfg rows v m).take (atLeastOne cfg.hostPickTopK))).tame := ⟨trivial, rfl⟩
    refine ⟨hshuffle.allow _, fun head hhead => ⟨fun id hid => .inl (.inl hid), fun h hm => .inl (hopen h ?_)⟩⟩
    have hperm : head.Perm ((rankHosts cfg rows v m).take (atLeastOne cfg.hostPickTopK)) := hhead
    rcases List.mem_append.1 hm with hm | hm
    · exact List.mem_of_mem_take (hperm.mem_iff.1 hm)
    · exact List.mem_of_mem_drop hm

theorem getSpecificHostWithCapacity_conduct (id : HostId) (v m : Int) :
    (getSpecificHostWithCapacity cfg id v m).obeys conduct
      (fun r g' => g ⊆ g' ∧ ∀ h, r = some h → h.instanceId ∈ g') g := by
  have hget : (Call.getHost id).tame := ⟨trivial, rfl⟩
  simp only [getSpecificHostWithCapacity, req_bind, Prog.pure_eq]
  refine ⟨hget.allow g, fun item _ => ?_⟩
  cases item with
  | none => exact ⟨Set.subset_union_left, by rintro h ⟨⟩⟩
  | some h =>
    dsimp only
    split
    · rename_i hs
      refine ⟨Set.subset_union_left, fun h' hh => .inr ?_⟩
      obtain ⟨-, rfl⟩ : hostFits cfg h v m = true ∧ h = h' := by simpa using hh
      exact ⟨h, rfl, rfl, by rcases hs with hs | hs <;> simp [HostRow.closed, hs]⟩
    · exact ⟨Set.subset_union_left, by rintro h ⟨⟩⟩

theorem candidateHosts_conduct (r : CreateRequest) (src : Option TenantRow) : (candidateHosts cfg r src).obeys conduct
    (fun b g' => g ⊆ g' ∧ ∀ hs, b = .inr hs → ∀ h ∈ hs, h.instanceId ∈ g') g := by
  unfold candidateHosts
  split
  · split
    · exact ⟨subset_rfl, by rintro hs ⟨⟩⟩
    · rw [Prog.obeys_bind]
      refine Prog.obeys_mono (fun host g' hg => ?_) (getSpecificHostWithCapacity_conduct _ _ _)
      refine ⟨hg.1, fun hs he h hm => ?_⟩
      cases host with
      | none => cases he
      | some host =>
        obtain rfl := Sum.inr.inj he
        obtain rfl := List.mem_singleton.1 hm
        exact hg.2 h rfl
  · split
    · rw [Prog.obeys_bind]
      refine Prog.obeys_mono (fun host g' hg => ?_) (getSpecificHostWithCapacity_conduct _ _ _)
      cases host with
      | some host =>
        refine ⟨hg.1, fun hs he h hm => ?_⟩
        obtain rfl := Sum.inr.inj he
        obtain rfl := List.mem_singleton.1 hm
        exact hg.2 h rfl
      | none =>
        have hget : (Call.getHost r.preferredHostId).tame := ⟨trivial, rfl⟩
        refine ⟨hget.allow g', fun existing _ => ?_⟩
        cases existing <;> exact ⟨hg.1.trans Set.subset_union_left, by rintro hs ⟨⟩⟩
    · rw [Prog.obeys_bind]
      refine Prog.obeys_mono (fun hosts g' hg => ?_) (pickHostsForCreate_conduct _ _)
      refine ⟨hg.1, fun hs he h hm => ?_⟩
      obtain rfl := Sum.inr.inj he
      exact hg.2 h (List.mem_of_mem_take hm)

theorem reserveFirst_conduct (v m : Int) (hs : List HostRow) (hg : ∀ h ∈ hs, h.instanceId ∈ g) :
    (reserveFirst cfg v m hs).obeys conduct
      (fun r g' => g ⊆ g' ∧ ∀ h n, r = some (some (h, n)) → h.instanceId ∈ g') g := by
  induction hs generalizing g with
  | nil => exact ⟨subset_rfl, by rintro h n ⟨⟩⟩
  | cons h hs ih =>
    obtain ⟨hh, hg⟩ := List.forall_mem_cons.1 hg
    have hslot : (reserveHostSlot cfg h v m).obeys conduct (fun _ g' => g ⊆ g') g := by
      unfold reserveHostSlot
      split
      · refine ⟨⟨trivial, fun id e => Option.some.inj e ▸ hh⟩, fun r _ => ?_⟩
        cases r <;> exact Set.subset_union_left
      · exact subset_rfl
    rw [reserveFirst, Prog.obeys_bind]
    refine Prog.obeys_mono (fun r g' hsub => ?_) hslot
    rcases r with _ | _ | n
    · exact ⟨hsub, by rintro h n ⟨⟩⟩
    · exact Prog.obeys_mono (fun _ _ hr => ⟨hsub.trans hr.1, hr.2⟩) (ih fun h' hm => hsub (hg h' hm))
    · refine ⟨hsub, fun h' n' he => ?_⟩
      obtain ⟨rfl, -⟩ := Prod.mk.inj (Option.some.inj (Option.some.inj he))
      exact hsub hh

theorem launchVm_conduct {host : HostId} (hg : host ∈ g) (tid : TenantId) (n v m : Int) (ip : String) (port : Int)
    (tpl key : String) (skills : List String) :
    (launchVm host tid n v m ip port tpl key skills).obeys conduct (fun _ g' => g ⊆ g') g :=
  ⟨⟨trivial, fun _ e => Option.some.inj e ▸ hg⟩, fun _ _ => Set.subset_union_left⟩

/-- Routing and everything after the placement. -/
theorem launchRest_conduct {host : HostRow} (hg : host.instanceId ∈ g) (t : TenantRow) (n v m : Int) (ip : String)
    (port : Int) (tpl key : String) {k : Bool → CtlProg α} (hk : ∀ ok, (k ok).All Call.tame) :
    (resolveEffectiveSkills t >>= fun skills => launchVm host.instanceId t.id n v m ip port tpl key skills >>= fun _ =>
      routeTenant cfg host t.id >>= k).obeys conduct (fun _ g' => g ⊆ g') g := by
  rw [Prog.obeys_bind]
  refine Prog.obeys_mono (fun skills g₁ h₁ => ?_) (made_obeys cfg (resolveEffectiveSkills_made t))
  rw [Prog.obeys_bind]
  refine Prog.obeys_mono (fun _ g₂ h₂ => ?_) (launchVm_conduct (h₁ hg) ..)
  have hroute := (tame_of_routes (routeTenant_routes cfg host t.id)).bind hk
  exact Prog.obeys_mono (fun _ _ h₃ => h₁.trans (h₂.trans h₃)) (tame_obeys hroute)

theorem launchCreated_conduct (r : CreateRequest) (row : TenantRow) {host : HostRow} (hg : host.instanceId ∈ g) (n : Int) :
    (launchCreated cfg r row host n).obeys conduct (fun _ g' => g ⊆ g') g :=
  launchRest_conduct hg row n _ _ _ _ _ _ fun _ => trivial

theorem createOn_conduct (r : CreateRequest) (src : Option TenantRow) (tid : TenantId) (key : String) (now : Time)
    {host : HostRow} (hg : host.instanceId ∈ g) (n : Int) :
    (createOn cfg r src tid key now host n).obeys conduct (fun _ g' => g ⊆ g') g := by
  have hlaunch : ∀ {g' : Set HostId}, g ⊆ g' →
      (launchCreated cfg r (creatingRow cfg r tid key now host n) host n).obeys conduct (fun _ g'' => g ⊆ g'') g' :=
    fun h => Prog.obeys_mono (fun _ _ h' => h.trans h') (launchCreated_conduct r _ (h hg) n)
  simp only [createOn, req_bind, Prog.pure_eq]
  refine ⟨⟨creatingRow_shaped cfg r tid key now host n, fun id e => Option.some.inj e ▸ hg⟩, fun ok _ => ?_⟩
  cases ok with
  | false => exact Set.subset_union_left
  | true =>
    cases src with
    | none => exact hlaunch Set.subset_union_left
    | some s =>
      have hclone : (Call.ssmRun host.instanceId (.cloneData s.id (s.vmNum.getD 1) tid n)).tame := ⟨trivial, rfl⟩
      refine ⟨hclone.allow _, fun ok _ => ?_⟩
      have hsub : g ⊆ (g ∪ ∅) ∪ ∅ := Set.subset_union_left.trans Set.subset_union_left
      cases ok with
      | true => exact hlaunch hsub
      | false => exact Prog.obeys_mono (fun _ _ h => hsub.trans h) (made_obeys cfg (cloneRollback_made r tid host.instanceId))

theorem savePending_tame (r : CreateRequest) (tid : TenantId) (key : String) (now : Time) :
    (savePending r tid key now).All Call.tame := by
  simp only [savePending, req_bind, Prog.pure_eq]
  refine ⟨⟨pendingRow_shaped r tid key now, rfl⟩, fun ok => ?_⟩
  cases ok with
  | false => trivial
  | true => exact ⟨⟨trivial, rfl⟩, fun _ => trivial⟩

theorem createPlaced_conduct (r : CreateRequest) (src : Option TenantRow) (key : String) :
    (createPlaced cfg r src key).obeys conduct (fun _ g' => g ⊆ g') g := by
  have hid : (Call.genId r.name).tame := ⟨trivial, rfl⟩
  have hnow : Call.now.tame := ⟨trivial, rfl⟩
  simp only [createPlaced, req_bind, Prog.pure_eq]
  refine ⟨hid.allow _, fun tid _ => ⟨hnow.allow _, fun now _ => ?_⟩⟩
  have hsub : g ⊆ (g ∪ ∅) ∪ ∅ := Set.subset_union_left.trans Set.subset_union_left
  rw [Prog.obeys_bind]
  refine Prog.obeys_mono (fun hosts g₁ h₁ => ?_) (candidateHosts_conduct r src)
  obtain ⟨h₁, hopen⟩ := h₁
  cases hosts with
  | inl code => exact hsub.trans h₁
  | inr hosts =>
    simp only [Prog.obeys_bind]
    refine Prog.obeys_mono (fun slot g₂ h₂ => ?_) (reserveFirst_conduct r.vcpu r.memMb hosts (hopen hosts rfl))
    obtain ⟨h₂, hheld⟩ := h₂
    have hsub₂ := hsub.trans (h₁.trans h₂)
    rcases slot with _ | _ | ⟨host, n⟩
    · exact hsub₂
    · exact Prog.obeys_mono (fun _ _ h => hsub₂.trans h) (tame_obeys (savePending_tame r tid key now))
    · exact Prog.obeys_mono (fun _ _ h => hsub₂.trans h) (createOn_conduct r src tid key now (hheld host n rfl) n)

theorem createTenant_conduct (r : CreateRequest) : (createTenant cfg r).obeys conduct (fun _ g' => g ⊆ g') g := by
  unfold createTenant
  split
  · exact subset_rfl
  split
  · exact subset_rfl
  rw [Prog.obeys_bind]
  refine Prog.obeys_mono (fun src g₁ h₁ => ?_) (made_obeys cfg (made_of_plain (cloneSource_plain r)))
  cases src with
  | inl code => exact h₁
  | inr src =>
    simp only [Prog.obeys_bind]
    refine Prog.obeys_mono (fun key g₂ h₂ => ?_) (made_obeys cfg (made_of_plain (restoreKeyOf_plain r)))
    cases key with
    | inl code => exact h₁.trans h₂
    | inr key => exact Prog.obeys_mono (fun _ _ h => h₁.trans (h₂.trans h)) (createPlaced_conduct r src key)

theorem assignPending_conduct (t : TenantRow) : (assignPending cfg t).obeys conduct (fun _ g' => g ⊆ g') g := by
  unfold assignPending
  rw [Prog.obeys_bind]
  refine Prog.obeys_mono (fun host g₁ h₁ => ?_) (findHost_conduct t.vcpu t.memMb)
  obtain ⟨h₁, hopen⟩ := h₁
  cases host with
  | none => exact h₁
  | some host =>
    have hnow : Call.now.tame := ⟨trivial, rfl⟩
    have hg₁ := hopen host rfl
    simp only [req_bind, Prog.pure_eq]
    refine ⟨hnow.allow _, fun now _ => ⟨⟨trivial, fun id e => .inl (Option.some.inj e ▸ hg₁)⟩, fun ok _ => ?_⟩⟩
    have hsub : g ⊆ (g₁ ∪ ∅) ∪ ∅ := h₁.trans (Set.subset_union_left.trans Set.subset_union_left)
    cases ok with
    | false => exact hsub
    | true =>
      have hbook : (Call.updHost host.instanceId (.book t.vcpu t.memMb (host.nextVmNum.getD 1 + 1))).tame := ⟨trivial, rfl⟩
      refine ⟨hbook.allow _, fun h _ => ?_⟩
      have hsub₂ : g₁ ⊆ ((g₁ ∪ ∅) ∪ ∅) ∪ ∅ :=
        Set.subset_union_left.trans (Set.subset_union_left.trans Set.subset_union_left)
      cases h with
      | none => exact h₁.trans hsub₂
      | some _ =>
        refine Prog.obeys_mono (fun _ _ h => h₁.trans (hsub₂.trans h)) (launchRest_conduct (hsub₂ hg₁) t _ _ _ _ _ _ _ ?_)
        exact fun _ => trivial

theorem processPending_conduct : (processPending cfg).obeys conduct (fun _ g' => g ⊆ g') g := by
  have hall : ∀ ts {g : Set HostId}, (assignAll cfg ts).obeys conduct (fun _ g' => g ⊆ g') g := by
    intro ts
    induction ts with
    | nil =>
      intro g
      exact subset_rfl
    | cons t ts ih =>
      intro g
      rw [assignAll, Prog.obeys_bind]
      refine Prog.obeys_mono (fun r g₁ h₁ => ?_) (assignPending_conduct t)
      cases r with
      | none => exact h₁
      | some _ => exact Prog.obeys_mono (fun _ _ h => h₁.trans h) ih
  have hscan : (Call.scanTenants (.status .pending)).tame := ⟨trivial, rfl⟩
  simp only [processPending, req_bind]
  refine ⟨hscan.allow g, fun ts _ => ?_⟩
  exact Prog.obeys_mono (fun _ _ h => (Set.subset_union_left (t := ∅)).trans h) (hall _)

/-! ### Moving a tenant -/

theorem migrate_conduct (t : TenantRow) (target : HostId) :
    (migrate cfg t target).obeys conduct (fun _ g' => g ⊆ g') g := by
  unfold migrate
  split
  · exact subset_rfl
  split
  · exact subset_rfl
  split
  · exact subset_rfl
  rename_i _ _ _ hne
  have hget : (Call.getHost target).tame := ⟨trivial, rfl⟩
  simp only [req_bind, Prog.pure_eq]
  refine ⟨hget.allow g, fun row hrow => ?_⟩
  cases row with
  | none => exact Set.subset_union_left
  | some row =>
    have hid : row.instanceId = target := hrow row rfl
    dsimp only
    split
    · exact Set.subset_union_left
    rename_i hst
    split
    · have hopen : row.instanceId ∈ g ∪ opened (.getHost target) (some row) :=
        .inr ⟨row, rfl, rfl, by simpa [HostRow.closed] using hst⟩
      have hnow : Call.now.tame := ⟨trivial, rfl⟩
      have hsend : ∀ verb uri, (Call.ssmSend t.hostId (.migrateVm verb t.id (t.vmNum.getD 1) uri)).tame :=
        fun _ _ => ⟨trivial, rfl⟩
      simp only [startMigration, req_bind, Prog.pure_eq]
      refine ⟨hnow.allow _, fun now _ => ⟨(hsend _ _).allow _, fun cmd _ => ?_⟩⟩
      have hsub : g ⊆ ((g ∪ opened (.getHost target) (some row)) ∪ ∅) ∪ ∅ :=
        Set.subset_union_left.trans (Set.subset_union_left.trans Set.subset_union_left)
      cases cmd with
      | none => exact hsub
      | some cmd =>
        cases hs : t.hostId with
        | none => exact hsub
        | some source =>
          refine ⟨⟨?_, fun id e => .inl (.inl (Option.some.inj e ▸ hopen))⟩, fun _ _ => ?_⟩
          · intro e
            have he : row.instanceId = source := e
            exact hne (by rw [hs, ← he, hid])
          · exact hsub.trans Set.subset_union_left
    · exact Set.subset_union_left

theorem tenantAction_conduct (tid : TenantId) (a : TenantAction) :
    (tenantAction cfg tid a).obeys conduct (fun _ g' => g ⊆ g') g := by
  have hget : (Call.getTenant tid).tame := ⟨trivial, rfl⟩
  refine ⟨hget.allow g, fun item _ => ?_⟩
  have hsub : g ⊆ g ∪ opened (.getTenant tid) item := Set.subset_union_left
  cases item with
  | none => exact hsub
  | some t =>
    refine Prog.obeys_mono (fun _ _ h => hsub.trans h) ?_
    cases a with
    | cancelMigration => exact made_obeys cfg (cancelMigration_made t)
    | resize v => exact made_obeys cfg (tenantResize_made tid v)
    | resizeDisk mb => exact made_obeys cfg (resizeDisk_made _ t mb)
    | migrate target => exact migrate_conduct t target
    | simple a => exact made_obeys cfg (simpleAction_made a fun _ _ => trivial)

theorem drainHost_conduct (host : HostId) : (drainHost cfg host).obeys conduct (fun _ g' => g ⊆ g') g := by
  have hall : ∀ ts {g : Set HostId}, (drainAll cfg host ts).obeys conduct (fun _ g' => g ⊆ g') g := by
    intro ts
    induction ts with
    | nil =>
      intro g
      exact subset_rfl
    | cons t ts ih =>
      intro g
      rw [drainAll, Prog.obeys_bind]
      refine Prog.obeys_mono (fun target g₁ h₁ => ?_) (findHost_conduct t.vcpu t.memMb)
      have hnext := Prog.obeys_mono (fun _ _ h => h₁.1.trans h) (ih (g := g₁))
      cases target with
      | none => exact hnext
      | some target =>
        dsimp only
        split
        · exact hnext
        · rw [Prog.obeys_bind]
          refine Prog.obeys_mono (fun _ g₂ h₂ => ?_) (tenantAction_conduct t.id (.migrate target.instanceId))
          rw [Prog.obeys_bind]
          exact Prog.obeys_mono (fun _ _ h => h₁.1.trans (h₂.trans h)) ih
  have hget : (Call.getHost host).tame := ⟨trivial, rfl⟩
  have hscan : (Call.scanTenants (.hostRunning host)).tame := ⟨trivial, rfl⟩
  have hupd : (Call.updHost host (.status .draining)).tame := ⟨trivial, rfl⟩
  simp only [drainHost, req_bind, Prog.pure_eq]
  refine ⟨hget.allow g, fun h _ => ?_⟩
  cases h with
  | none => exact Set.subset_union_left
  | some row =>
    refine ⟨hscan.allow _, fun tenants _ => ⟨hupd.allow _, fun x _ => ?_⟩⟩
    have hsub : g ⊆ ((g ∪ opened (.getHost host) (some row)) ∪ ∅) ∪ ∅ :=
      Set.subset_union_left.trans (Set.subset_union_left.trans Set.subset_union_left)
    cases x with
    | none => exact hsub
    | some _ =>
      simp only [Prog.obeys_bind]
      exact Prog.obeys_mono (fun _ _ h => hsub.trans h) (hall tenants)

/-- **Every program keeps to the protocol.** -/
theorem controlBody_conduct (j : ControlJob) : (controlBody cfg j).obeys conduct (fun _ _ => True) g := by
  have hend : ∀ {β : Type} {p : CtlProg β}, p.obeys conduct (fun _ g' => g ⊆ g') g →
      (p >>= fun _ => (.ret () : CtlProg Unit)).obeys conduct (fun _ _ => True) g := by
    intro β p hp
    rw [Prog.obeys_bind]
    exact Prog.obeys_mono (fun _ _ _ => trivial) hp
  have hsettled : j.duty.settled → (controlBody cfg j).obeys conduct (fun _ _ => True) g := fun hd =>
    Prog.obeys_mono (fun _ _ _ => trivial) (tame_obeys ((controlBody_made j).mono fun _ h => h.tame hd))
  -- only four programs have a duty that matters here
  cases j with
  | fleet j =>
    cases j with
    | create r => exact hend (createTenant_conduct r)
    | pending => exact Prog.obeys_mono (fun _ _ _ => trivial) processPending_conduct
    | action tid a => exact hend (tenantAction_conduct tid a)
    | drain host => exact hend (drainHost_conduct host)
    | sweep now => exact Prog.obeys_mono (fun _ _ _ => trivial) (migrationSweep_conduct now)
    | _ => exact hsettled ⟨id, id, id, id, id, id⟩
  | _ => exact hsettled ⟨id, id, id, id, id, id⟩

end Conduct

end OpenClaw
