import OpenClaw.Routing.Rebuild

/-!
# The cutover and back

A cutover purges per-tenant rules, and the way back is `rebuild_routing`. The purge selects rules, the rebuild selects
tenants by status, and of the steps that bring a tenant back to `running` only a completed move touches its rule.

- `Correct`: the rules before the purge. `cut`: the world after it.
- `BringsBack`: start, resume, promotion, and what ends a migration.
- `cutover_exact`: a tenant has its rule again exactly when the purge kept it or the rebuild made it a new one.
-/

namespace OpenClaw

open Keyed Atomic

variable (cfg : Config)

/-! ## The fleet and the purge -/

/-- A rule that names a tenant is its own and forwards to the target group of its host. -/
def Correct (w : World) : Prop :=
  ∀ t ∈ w.tenants.rows, ∀ r ∈ w.rules, r.names t.id → t.host ≠ "" ∧ r.ownOf t.id ∧
    ∃ g ∈ w.tgs, g.name = hostTgName t.host ∧ r.actions = [g.arn]

/-- The world after a purge of the rules of some tenants. -/
def cut (only : Option (List TenantId)) (w : World) : World := w.setRules (w.rules.filter fun r => !r.purged only)

section Purge

variable {cfg} {only : Option (List TenantId)} {w : World}

theorem purgeRules_up (rs : List Rule) : (purgeRules false only rs).wpt elbUp (fun _ _ w' =>
    w' = w.setRules (w.rules.filter fun r => rs.all fun p => !p.purged only || decide (p.arn ≠ r.arn))) w := by
  induction rs generalizing w with
  | nil => simp [purgeRules, Prog.wpt, World.setRules]
  | cons p rs ih =>
    unfold purgeRules
    split
    · rename_i hp
      simp only [Bool.false_eq_true, if_false, req_bind]
      rintro ok w₁ ⟨rfl, hs⟩
      obtain rfl : w₁ = w.setRules (w.rules.filter fun x => x.arn ≠ p.arn) := hs
      refine (Prog.wpt_bind ..).2 (Prog.wpt_mono ?_ ih)
      rintro l results w' rfl
      simp only [World.setRules, List.filter_filter]
      have hfilter : (w.rules.filter fun r => (rs.all fun p => !p.purged only || decide (p.arn ≠ r.arn)) &&
          decide (r.arn ≠ p.arn)) =
          w.rules.filter fun r => (p :: rs).all fun p => !p.purged only || decide (p.arn ≠ r.arn) := by
        refine List.filter_congr fun r _ => ?_
        rw [List.all_cons, hp, Bool.and_comm]
        simp [eq_comm]
      exact congrArg (fun rs => { w with rules := rs }) hfilter
    · rename_i hp
      have hp : p.purged only = false := Bool.eq_false_iff.2 hp
      refine Prog.wpt_mono ?_ ih
      rintro l results w' rfl
      simp [hp]

/-- With ARNs of their own, exactly the purged rules are gone. -/
theorem purgeListener_up (ha : (w.rules.map Rule.arn).Nodup) : (purgeListener cfg false only).wpt elbUp
    (fun _ reply w' => ∀ report, reply = .ok report → w' = cut only w) w := by
  simp only [purgeListener, req_bind, Prog.pure_eq]
  split
  · intro report he
    cases he
  · rintro rules w₁ ⟨hok, hp, rfl⟩
    obtain ⟨rules, rfl⟩ : ∃ rs, rules = some rs := Option.isSome_iff_exists.1 hok
    have hp : rules.Perm w₁.rules := hp rules rfl
    refine (Prog.wpt_bind ..).2 (Prog.wpt_mono ?_ (purgeRules_up rules))
    rintro l results w' rfl report -
    refine congrArg w₁.setRules (List.filter_congr fun r hr => ?_)
    rw [Bool.eq_iff_iff]
    simp only [List.all_eq_true, Bool.or_eq_true, Bool.not_eq_true', decide_eq_true_eq]
    constructor
    · intro h
      exact (h r (hp.mem_iff.2 hr)).resolve_right fun hne => hne rfl
    · intro hr' p hm
      by_cases he : p.arn = r.arn
      · exact .inl (List.inj_on_of_nodup_map ha (hp.mem_iff.1 hm) hr he ▸ hr')
      · exact .inr he

end Purge

/-! ## The tenants that come back -/

/-- A step that may bring the tenant back to `running`. -/
inductive BringsBack (tid : TenantId) : World → World → Prop
  | started {w w' : World} {l : CallLog} (h : (tenantAction cfg tid (.simple .start)).Traces elbUp w l 200 w') :
      BringsBack tid w w'
  | resumed {w w' : World} {l : CallLog} (h : (tenantAction cfg tid (.simple .resume)).Traces elbUp w l 200 w') :
      BringsBack tid w w'
  /-- The host agent promotes a tenant whose gateway answers. -/
  | promoted {w : World} {t : TenantRow} (h : w.tenants.get tid = some t) (hs : t.status = .creating) :
      BringsBack tid w (w.putTenant { t with status := .running })
  /-- One tick of the sweep on the tenant's migration. -/
  | swept {w w' : World} {l : CallLog} {t : TenantRow} {now : Time} (h : w.tenants.get tid = some t)
      (hs : t.status = .migrating) (hr : (advanceMigration cfg t now).Traces elbUp w l () w') : BringsBack tid w w'
  | cancelled {w w' : World} {l : CallLog} (h : (tenantAction cfg tid .cancelMigration).Traces elbUp w l 200 w') :
      BringsBack tid w w'

/-- The tenant `t` of `w` has its rule, or it is not served and has it whenever it is running again. -/
def ComesBack (t : TenantRow) (w : World) : Prop :=
  Routed w t.id t.host ∨ TenantFilter.routable.holds t = false ∧ ∀ w' row, Relation.ReflTransGen (BringsBack cfg t.id) w w' →
    w'.tenants.get t.id = some row → row.status = .running → Routed w' t.id row.host

section Back

variable {cfg} {w : World} {t : TenantRow} {h : HostId}

/-- A start that succeeds, on a host that answers or not. -/
theorem start_run (hg : w.tenants.get t.id = some t) (hh : t.hostId = some h) :
    ∃ l, (tenantAction cfg t.id (.simple .start)).Traces elbUp w l 200
      (w.putTenant ((TenantUpdate.status .running).apply t)) := by
  have hread : elbUp.step (.getTenant t.id) (some t) w w := ⟨trivial, hg.symm, rfl⟩
  have hcmd : elbUp.step (.ssmRun h (SimpleAction.cmd t .start)) false w w := ⟨trivial, .inl ⟨rfl, rfl⟩⟩
  have hwrite : elbUp.step (.updTenant t.id (.status .running)) true w
      (w.putTenant ((TenantUpdate.status .running).apply t)) := ⟨trivial, t, hg, rfl⟩
  have hrest : (simpleAction .start t).Traces elbUp w
      [⟨.ssmRun h (SimpleAction.cmd t .start), false⟩, ⟨.updTenant t.id (.status .running), true⟩] 200
      (w.putTenant ((TenantUpdate.status .running).apply t)) := by
    simp only [simpleAction, hh, req_bind]
    exact .call hcmd (.call hwrite (.ret _ _))
  exact ⟨_, .call hread hrest⟩

/-- Nothing but a rule that is there already serves a tenant that is started. -/
theorem comesBack_iff (hg : w.tenants.get t.id = some t) (hh : t.host ≠ "") : ComesBack cfg t w ↔ Routed w t.id t.host := by
  constructor
  · rintro (hr | ⟨-, hback⟩)
    · exact hr
    · obtain ⟨h, hid⟩ : ∃ h, t.hostId = some h := by
        cases hid : t.hostId with
        | none => exact absurd (by rw [TenantRow.host, hid]; rfl) hh
        | some h => exact ⟨h, rfl⟩
      obtain ⟨l, hrun⟩ := @start_run cfg w t h hg hid
      have hself : (w.putTenant ((TenantUpdate.status .running).apply t)).tenants.get t.id =
          some ((TenantUpdate.status .running).apply t) := Table.get_put_self w.tenants _
      have hrouted := hback _ _ (.single (.started hrun)) hself rfl
      exact hrouted
  · exact .inl

end Back

/-! ## The round trip -/

/-- The purge kept the rule of the tenant, or the rebuild that scans `ts` makes it one. -/
def Restored (only : Option (List TenantId)) (w : World) (ts : List TenantRow) (t : TenantRow) : Prop :=
  (∃ r ∈ w.rules, r.names t.id ∧ ¬ Scoped only r) ∨
    t.id ∈ restored (cut only w).rules (needyIds (cut only w) (cut only w).named ts)

section RoundTrip

variable {cfg} {only : Option (List TenantId)} {w w₂ : World} {t : TenantRow} {ts : List TenantRow} {l : CallLog}
  {results : List RebuildResult}

/-- Rules with the same conditions name the same tenants. -/
theorem Rule.ownOf.names_iff {r r' : Rule} {tid : TenantId} (h : r.ownOf tid) (h' : r'.ownOf tid) (id : TenantId) :
    r.names id ↔ r'.names id := by
  have hv : r.values = r'.values := by
    unfold Rule.values
    rw [h, h']
  rw [Rule.names, Rule.names, hv]

theorem mem_cut {r : Rule} : r ∈ (cut only w).rules ↔ r ∈ w.rules ∧ ¬ Scoped only r := by
  rw [cut, World.setRules, List.mem_filter, ← Rule.purged_iff]
  simp

/-- **A tenant with a correct rule is routed after purge and rebuild exactly when its rule was kept or made again.** -/
theorem routed_iff_restored (hc : Correct w) (hscan : ∀ t' ∈ ts, t' ∈ w.tenants.rows)
    (hb : Rebuilds (cut only w).named ts (cut only w) l results w₂) (hm : t ∈ w.tenants.rows)
    (hnamed : ∃ r ∈ w.rules, r.names t.id) : Routed w₂ t.id t.host ↔ Restored only w ts t := by
  obtain ⟨r₀, hr₀, hn₀⟩ := hnamed
  have hown₀ : r₀.ownOf t.id := (hc t hm r₀ hr₀ hn₀).2.1
  constructor
  · rintro ⟨r, hr, hown, -⟩
    rcases hb.fresh r hr with hold | ⟨t', ht', -, hown', hmade⟩
    · obtain ⟨hold, hsc⟩ := mem_cut.1 hold
      exact .inl ⟨r, hold, (hown₀.names_iff hown t.id).1 hn₀, hsc⟩
    · rw [← hown.inj hown'] at hmade
      exact .inr ((hb.made t.id).1 hmade)
  · rintro (⟨r, hr, hn, hsc⟩ | hmade)
    · obtain ⟨-, hown, g, hg, hname, ha⟩ := hc t hm r hr hn
      have hkept : Routed (cut only w) t.id t.host := ⟨r, mem_cut.2 ⟨hr, hsc⟩, hown, g, hg, hname, ha⟩
      exact hkept.later hb.kept hb.tgs
    · obtain ⟨t', ht', -, hid, hrt⟩ := hb.creates t.id ((hb.made t.id).2 hmade)
      have heq : t' = t := Table.eq_of_key (hscan t' ht') hm hid
      rwa [heq] at hrt

/-- A purge and the rebuild after it. -/
theorem cutover_run {cfg' : Config} {ids : Field (List TenantId)} {mode : Option String} {w₁ : World} {l₁ l₂ : CallLog}
    {purged : PurgeReport} {report : RebuildReport} (ha : (w.rules.map Rule.arn).Nodup)
    (hfree : (needyIds (cut (PurgeRequest.only ids) w) (cut (PurgeRequest.only ids) w).named
      (w.tenants.rows.filter TenantFilter.routable.holds)).length ≤
        (freePriorities cfg (cut (PurgeRequest.only ids) w).rules).length)
    (hp : (purgePerTenantRouting cfg' ⟨.given false, ids⟩).Traces elbUp w l₁ (.ok purged) w₁)
    (hr : (rebuildRouting cfg ⟨.given false, mode⟩).Traces elbUp w₁ l₂ (.ok report) w₂) :
    ∃ ts : List TenantRow, Saw l₂ (.scanTenants .routable) ts ∧
      ts.Perm (w.tenants.rows.filter TenantFilter.routable.holds) ∧
      Rebuilds (cut (PurgeRequest.only ids) w).named ts (cut (PurgeRequest.only ids) w) l₂ report.results w₂ := by
  have hids : ids ≠ .malformed := by
    rintro rfl
    cases hp
  rw [purge_eq_real hids] at hp
  have hw := Prog.wpt_iff_traces.1 (purgeListener_up ha) _ _ _ hp purged rfl
  subst hw
  have hreal := @rebuildListener_real cfg (cut (PurgeRequest.only ids) w) (RebuildRequest.modeOf ⟨.given false, mode⟩) hfree
  obtain ⟨-, ts, hsaw, hperm, hb⟩ := Prog.wpt_iff_traces.1 hreal _ _ _ hr report rfl
  exact ⟨ts, hsaw, hperm, hb⟩

/-- A tenant with a correct rule comes back exactly when its rule was kept or made again. -/
theorem comesBack_iff_restored (hc : Correct w) (hperm : ts.Perm (w.tenants.rows.filter TenantFilter.routable.holds))
    (hb : Rebuilds (cut only w).named ts (cut only w) l results w₂) (hm : t ∈ w.tenants.rows)
    (hnamed : ∃ r ∈ w.rules, r.names t.id) : ComesBack cfg t w₂ ↔ Restored only w ts t := by
  obtain ⟨r, hr, hn⟩ := hnamed
  have hg : w₂.tenants.get t.id = some t := by
    rw [hb.tables.1]
    exact Table.get_of_mem hm
  have hscan : ∀ t' ∈ ts, t' ∈ w.tenants.rows := fun t' ht' => (List.mem_filter.1 (hperm.mem_iff.1 ht')).1
  rw [comesBack_iff hg (hc t hm r hr hn).1, routed_iff_restored hc hscan hb hm ⟨r, hr, hn⟩]

end RoundTrip

/-- **The cutover and back**: a tenant that had a rule has it again, at once or when it is next running, exactly when the
purge kept it, or the tenant is among those that the rebuild scans and makes a rule for. -/
theorem cutover_exact {cfg' : Config} {ids : Field (List TenantId)} {mode : Option String} {w w₁ w₂ : World}
    {l₁ l₂ : CallLog} {purged : PurgeReport} {report : RebuildReport} (hc : Correct w)
    (ha : (w.rules.map Rule.arn).Nodup)
    (hfree : (needyIds (cut (PurgeRequest.only ids) w) (cut (PurgeRequest.only ids) w).named
      (w.tenants.rows.filter TenantFilter.routable.holds)).length ≤
        (freePriorities cfg (cut (PurgeRequest.only ids) w).rules).length)
    (hp : (purgePerTenantRouting cfg' ⟨.given false, ids⟩).Traces elbUp w l₁ (.ok purged) w₁)
    (hr : (rebuildRouting cfg ⟨.given false, mode⟩).Traces elbUp w₁ l₂ (.ok report) w₂) :
    ∃ ts : List TenantRow, Saw l₂ (.scanTenants .routable) ts ∧
      ts.Perm (w.tenants.rows.filter TenantFilter.routable.holds) ∧
      ∀ t ∈ w.tenants.rows, t.status ≠ .deleted → (∃ r ∈ w.rules, r.names t.id) →
        (ComesBack cfg t w₂ ↔ Restored (PurgeRequest.only ids) w ts t) := by
  obtain ⟨ts, hsaw, hperm, hb⟩ := cutover_run ha hfree hp hr
  exact ⟨ts, hsaw, hperm, fun t hm _ hnamed => comesBack_iff_restored hc hperm hb hm hnamed⟩

/-! ## Two cutovers -/

/-- One tenant with its rule. -/
def cutoverWorld (t : TenantRow) : World := routedWorld (.single t) [⟨1, some 10, [pathPattern t.id], [1]⟩]

def stoppedTenant : TenantRow := { runningTenant "a-0000" "i-1" 1 with status := .stopped }

section Runs

variable {t : TenantRow}

theorem cutoverWorld_correct (hh : t.hostId = some "i-1") : Correct (cutoverWorld t) := by
  intro t' ht r hr _
  obtain rfl := List.mem_singleton.1 ht
  obtain rfl := List.mem_singleton.1 hr
  have hhost : t'.host = "i-1" := by rw [TenantRow.host, hh]; rfl
  refine ⟨by rw [hhost]; decide, rfl, ⟨"oc-i-1", 1, ["10.0.0.1"]⟩, by simp [cutoverWorld, routedWorld], ?_, rfl⟩
  rw [hhost]
  decide +kernel

theorem cutoverWorld_named (hid : t.id = "a-0000") : ∃ r ∈ (cutoverWorld t).rules, r.names t.id := by
  refine ⟨_, List.mem_singleton_self _, Rule.mem_tids.1 ?_⟩
  rw [hid]
  decide +kernel

/-- A purge of all and the rebuild after it. -/
theorem cutover_runs {n m : Nat} (hp : (ctlOracle.alone elbOkCheck (purgePerTenantRouting {} ⟨.given false, .absent⟩)
      (List.replicate n {}) (cutoverWorld t)).any (fun x => x.2.1.answer.isSome) = true)
    (hr : (ctlOracle.alone elbOkCheck (rebuildRouting {} ⟨.given false, none⟩) (List.replicate m {})
      (cut none (cutoverWorld t))).any (fun x => x.2.1.answer.isSome) = true) :
    ∃ l₁ purged l₂ report w₂,
      (purgePerTenantRouting {} ⟨.given false, .absent⟩).Traces elbUp (cutoverWorld t) l₁ (.ok purged)
        (cut none (cutoverWorld t)) ∧
      (rebuildRouting {} ⟨.given false, none⟩).Traces elbUp (cut none (cutoverWorld t)) l₂ (.ok report) w₂ := by
  obtain ⟨⟨l₁, reply, w₁⟩, hx, hP⟩ := (Option.any_eq_true _ _).1 hp
  have ht := Oracle.alone_sound elbOkCheck_sound hx
  obtain ⟨l₂, report, w₂, hr⟩ := routed_run hr
  cases reply with
  | ok purged =>
    have harns : ((cutoverWorld t).rules.map Rule.arn).Nodup := List.nodup_singleton _
    obtain rfl := Prog.wpt_iff_traces.1 (purgeListener_up harns) _ _ _ ht purged rfl
    exact ⟨l₁, purged, l₂, report, w₂, ht, hr⟩
  | badRequest _ | notConfigured _ | upstream _ => cases hP

end Runs

/-- **A stopped tenant loses its route for good**: the rebuild skips it, and a start adds no rule. -/
theorem cutover_stopped : ∃ l₁ purged l₂ report w₁ w₂,
    (purgePerTenantRouting {} ⟨.given false, .absent⟩).Traces elbUp (cutoverWorld stoppedTenant) l₁ (.ok purged) w₁ ∧
    (rebuildRouting {} ⟨.given false, none⟩).Traces elbUp w₁ l₂ (.ok report) w₂ ∧
    Correct (cutoverWorld stoppedTenant) ∧ (∃ r ∈ (cutoverWorld stoppedTenant).rules, r.names stoppedTenant.id) ∧
    ¬ ComesBack {} stoppedTenant w₂ := by
  obtain ⟨l₁, purged, l₂, report, w₂, hp, hr⟩ := @cutover_runs stoppedTenant 2 2 (by decide +kernel) (by decide +kernel)
  have hc := @cutoverWorld_correct stoppedTenant rfl
  have hnamed := @cutoverWorld_named stoppedTenant rfl
  refine ⟨l₁, purged, l₂, report, _, w₂, hp, hr, hc, hnamed, fun hback => ?_⟩
  have harns : ((cutoverWorld stoppedTenant).rules.map Rule.arn).Nodup := List.nodup_singleton _
  obtain ⟨ts, -, hperm, hb⟩ := cutover_run harns (by decide +kernel) hp hr
  have hm : stoppedTenant ∈ (cutoverWorld stoppedTenant).tenants.rows := List.mem_singleton_self _
  have hnone : ts = [] := List.perm_nil.1 hperm
  rcases (comesBack_iff_restored hc hperm hb hm hnamed).1 hback with ⟨r, hr, -, hsc⟩ | hmade
  · obtain rfl := List.mem_singleton.1 hr
    exact hsc (Rule.purged_iff.1 (by decide +kernel))
  · subst hnone
    exact absurd hmade List.not_mem_nil

/-- A running tenant comes back at once. -/
theorem cutover_exact_running : ∃ l₁ purged l₂ report w₁ w₂,
    (purgePerTenantRouting {} ⟨.given false, .absent⟩).Traces elbUp (cutoverWorld (runningTenant "a-0000" "i-1" 1)) l₁
      (.ok purged) w₁ ∧
    (rebuildRouting {} ⟨.given false, none⟩).Traces elbUp w₁ l₂ (.ok report) w₂ ∧
    ComesBack {} (runningTenant "a-0000" "i-1" 1) w₂ := by
  obtain ⟨l₁, purged, l₂, report, w₂, hp, hr⟩ :=
    @cutover_runs (runningTenant "a-0000" "i-1" 1) 2 7 (by decide +kernel) (by decide +kernel)
  have hc := @cutoverWorld_correct (runningTenant "a-0000" "i-1" 1) rfl
  have hnamed := @cutoverWorld_named (runningTenant "a-0000" "i-1" 1) rfl
  obtain ⟨ts, -, hperm, hall⟩ := cutover_exact {} hc (List.nodup_singleton _) (by decide +kernel) hp hr
  refine ⟨l₁, purged, l₂, report, _, w₂, hp, hr, (hall _ (List.mem_singleton_self _) (by decide) hnamed).2 (.inr ?_)⟩
  have hone : ts = [runningTenant "a-0000" "i-1" 1] := List.perm_singleton.1 hperm
  subst hone
  decide +kernel

end OpenClaw
