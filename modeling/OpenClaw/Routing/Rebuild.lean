import OpenClaw.Routing.Purge
import OpenClaw.Routing.Identity

/-!
# What a rebuild restores

`rebuild_routing` finds the tenants without a rule by the whole first segment of the path values, but `_add_alb_rule`
looks for the path as a substring, and a rule that exists is taken to be right, wherever it forwards to.

- `elbUp`: every call to the load balancer succeeds.
- `Needy`: the tenants a rebuild has to make a rule for. `rebuildTenants_real`: what the loop does for them.
- `rebuild_exact`: a rebuild routes every routable tenant and reports what it created exactly when the rules it finds are
  right and no other rule mentions a tenant it has to make one for (`Restorable`).
-/

namespace OpenClaw

open Keyed Atomic

variable (cfg : Config)

/-! ## Calls that succeed -/

/-- The load balancer carries the call out. -/
def ElbOk : (c : Call) → c.Ans → World → Prop
  | .describeRules, r, _ => r.isSome = true
  | .describeTg name, r, w => r = none → ∀ g ∈ w.tgs, g.name ≠ name
  | .createTg _, r, _ => r.isSome = true
  | .registerTargets _ _, r, _ => r = true
  | .createRule _ _ _, r, _ => r ≠ .error
  | .deleteRule _, r, _ => r = true
  | _, _, _ => True

abbrev elbUp : Sem Ctl World := ctl.restrict ElbOk

/-- The run created a rule with the paths of the tenant. -/
def CreatesRule (l : CallLog) (tid : TenantId) : Prop := ∃ p tg, Saw l (.createRule p [pathPattern tid] tg) .created

/-- A rule with the paths of the tenant forwards to the target group of the host. -/
def Routed (w : World) (tid : TenantId) (h : HostId) : Prop :=
  ∃ r ∈ w.rules, r.ownOf tid ∧ ∃ g ∈ w.tgs, g.name = hostTgName h ∧ r.actions = [g.arn]

/-- The address the rebuild finds for a host. -/
def hostIp (w : World) (h : HostId) : String := ((w.hosts.get h).bind HostRow.privateIp).getD ""

/-- The tenant's host in the eyes of the rebuild. -/
def TenantRow.host (t : TenantRow) : HostId := t.hostId.getD ""

/-- Every rule forwards to target groups that exist. -/
def World.TgsExist (w : World) : Prop := ∀ r ∈ w.rules, ∀ a ∈ r.actions, ∃ g ∈ w.tgs, g.arn = a

/-! ## One tenant -/

/-- The rule of a tenant is created unless some rule mentions it. -/
def Added (w : World) (tid : TenantId) (tg : TgArn) (l : CallLog) (w' : World) : Prop :=
  ((∃ r ∈ w.rules, r.mentions tid = true) ∧ w' = w ∧ ∀ id, ¬ CreatesRule l id) ∨
    (∀ r ∈ w.rules, r.mentions tid = false) ∧ (∀ id, CreatesRule l id ↔ id = tid) ∧
      ∃ a p, p ∈ freePriorities cfg w.rules ∧ w' = w.setRules (w.rules ++ [⟨a, some p, [pathPattern tid], [tg]⟩])

section Attempt

variable {cfg} {tid : TenantId} {tg : TgArn} {w : World}

theorem freePriorities_perm {rs rs' : List Rule} (h : rs.Perm rs') : freePriorities cfg rs = freePriorities cfg rs' := by
  unfold freePriorities
  refine List.filter_congr fun p _ => ?_
  rw [h.any_eq]

/-- A new rule takes one free priority. -/
theorem freePriorities_snoc {rs : List Rule} {r : Rule} {p : Nat} (hr : r.priority = some p) :
    (freePriorities cfg rs).length ≤ (freePriorities cfg (rs ++ [r])).length + 1 := by
  have hn : (freePriorities cfg rs).Nodup := (List.nodup_range' ..).filter _
  have hfree : freePriorities cfg (rs ++ [r]) = (freePriorities cfg rs).erase p := by
    rw [hn.erase_eq_filter]
    unfold freePriorities
    rw [List.filter_filter]
    refine List.filter_congr fun q _ => ?_
    by_cases hq : q = p
    · simp [hq, hr]
    · have hne : ¬ p = q := fun h => hq h.symm
      simp [hq, hr, hne]
  rw [hfree, List.length_erase]
  split <;> omega

theorem addRuleLoop_up (hfree : freePriorities cfg w.rules ≠ []) (n : Nat) :
    (addRuleLoop cfg tid tg (n + 1)).wpt elbUp (fun l ok w' => ok = true ∧ Added cfg w tid tg l w') w := by
  simp only [addRuleLoop, createRuleAttempt, req_bind, Prog.pure_eq, Prog.call_bind]
  rintro rules w₁ ⟨hok, hp, rfl⟩
  obtain ⟨rules, rfl⟩ : ∃ rs, rules = some rs := Option.isSome_iff_exists.1 hok
  have hp : rules.Perm w₁.rules := hp rules rfl
  simp only
  split
  · rename_i hm
    obtain ⟨r, hr, hm⟩ := List.any_eq_true.1 hm
    refine ⟨rfl, .inl ⟨⟨r, hp.mem_iff.1 hr, hm⟩, rfl, ?_⟩⟩
    simp [CreatesRule, Saw]
  · rename_i hm
    rw [freePriorities_perm hp]
    split
    · rename_i he
      exact absurd (List.isEmpty_iff.1 he) hfree
    · rintro p w₂ ⟨-, hmem, rfl⟩ r w₃ ⟨hok, hs⟩
      have hnone : ∀ r ∈ w₂.rules, r.mentions tid = false := by
        intro r hr
        refine Bool.eq_false_iff.2 fun h => hm (List.any_eq_true.2 ⟨r, hp.mem_iff.2 hr, h⟩)
      cases r with
      | error => exact absurd rfl hok
      | priorityInUse =>
        -- The priority was chosen among the free ones.
        obtain ⟨⟨x, hx, hpx⟩, -⟩ := hs
        have hfr := (List.mem_filter.1 hmem).2
        simp only [Bool.not_eq_true', List.any_eq_false, decide_eq_true_eq] at hfr
        exact absurd hpx (hfr x hx)
      | created =>
        obtain ⟨-, a, -, rfl⟩ := hs
        refine ⟨rfl, .inr ⟨hnone, fun id => ?_, a, p, hmem, rfl⟩⟩
        constructor
        · rintro ⟨p', tg', hs⟩
          simp only [Saw, List.mem_cons, List.not_mem_nil, or_false] at hs
          rcases hs with hs | hs | hs
          · cases hs
          · cases hs
          · have hc := Call.createRule.inj (congrArg Sigma.fst hs)
            have hpp : pathPattern id = pathPattern tid := List.singleton_injective hc.2.1
            have hown : (⟨0, none, [pathPattern id], []⟩ : Rule).ownOf tid := by
              rw [hpp]
              rfl
            have hself : (⟨0, none, [pathPattern id], []⟩ : Rule).ownOf id := rfl
            exact hself.inj hown
        · rintro rfl
          exact ⟨p, tg, by simp [Saw]⟩

/-- A tenant that some rule mentions gets none. -/
theorem addRuleLoop_mentioned (hm : ∃ r ∈ w.rules, r.mentions tid = true) (n : Nat) :
    (addRuleLoop cfg tid tg (n + 1)).wpt elbUp (fun _ _ w' => w' = w) w := by
  simp only [addRuleLoop, createRuleAttempt, req_bind, Prog.pure_eq, Prog.call_bind]
  rintro rules w₁ ⟨hok, hp, rfl⟩
  obtain ⟨rules, rfl⟩ : ∃ rs, rules = some rs := Option.isSome_iff_exists.1 hok
  have hp : rules.Perm w₁.rules := hp rules rfl
  obtain ⟨r, hr, hm⟩ := hm
  have hany : (rules.any fun r => r.mentions tid) = true := List.any_eq_true.2 ⟨r, hp.mem_iff.2 hr, hm⟩
  simp only [hany, if_true]
  rfl

end Attempt

/-! ## Target groups -/

/-- Target groups are only added, under new ARNs. -/
structure TgsGrow (w w' : World) : Prop where
  kept : ∀ g ∈ w.tgs, ∃ g' ∈ w'.tgs, g'.name = g.name ∧ g'.arn = g.arn
  new : ∀ g' ∈ w'.tgs, (∃ g ∈ w.tgs, g'.name = g.name ∧ g'.arn = g.arn) ∨ ∀ g ∈ w.tgs, g.arn ≠ g'.arn

/-- What `hosts_seen` holds is right. -/
def SeenOk (w : World) (seen : List (HostId × Option TgArn)) : Prop :=
  ∀ h x, seen.lookup h = some x → (hostIp w h = "" ∧ x = none) ∨
    (hostIp w h ≠ "" ∧ ∃ g ∈ w.tgs, g.name = hostTgName h ∧ x = some g.arn)

section Groups

variable {cfg} {u v w : World} {seen : List (HostId × Option TgArn)} {h : HostId}

theorem TgsGrow.refl (w : World) : TgsGrow w w := ⟨fun g hg => ⟨g, hg, rfl, rfl⟩, fun g hg => .inl ⟨g, hg, rfl, rfl⟩⟩

theorem TgsGrow.trans (h : TgsGrow u v) (h' : TgsGrow v w) : TgsGrow u w where
  kept g hg := by
    obtain ⟨g₁, hg₁, hn₁, ha₁⟩ := h.kept g hg
    obtain ⟨g₂, hg₂, hn₂, ha₂⟩ := h'.kept g₁ hg₁
    exact ⟨g₂, hg₂, hn₂.trans hn₁, ha₂.trans ha₁⟩
  new g hg := by
    rcases h'.new g hg with ⟨g₁, hg₁, hn₁, ha₁⟩ | hnew
    · rcases h.new g₁ hg₁ with ⟨g₀, hg₀, hn₀, ha₀⟩ | hnew
      · exact .inl ⟨g₀, hg₀, hn₁.trans hn₀, ha₁.trans ha₀⟩
      · exact .inr fun g₀ hg₀ => ha₁ ▸ hnew g₀ hg₀
    · refine .inr fun g₀ hg₀ => ?_
      obtain ⟨g₁, hg₁, -, ha₁⟩ := h.kept g₀ hg₀
      exact ha₁ ▸ hnew g₁ hg₁

/-- A group of the name is found. -/
theorem TgsGrow.named (hg : TgsGrow u v) {name : String} {a : TgArn} (h : ∃ g ∈ u.tgs, g.name = name ∧ g.arn = a) :
    ∃ g ∈ v.tgs, g.name = name ∧ g.arn = a := by
  obtain ⟨g, hm, hn, ha⟩ := h
  obtain ⟨g', hm', hn', ha'⟩ := hg.kept g hm
  exact ⟨g', hm', hn'.trans hn, ha'.trans ha⟩

theorem SeenOk.grow (hs : SeenOk u seen) (hg : TgsGrow u v) (hh : v.hosts = u.hosts) : SeenOk v seen := by
  intro a x hx
  have hip : hostIp v a = hostIp u a := by rw [hostIp, hh]; rfl
  rw [hip]
  rcases hs a x hx with h | ⟨hne, g, hm, hn, rfl⟩
  · exact .inl h
  · obtain ⟨g', hm', hn', ha'⟩ := hg.named ⟨g, hm, hn, rfl⟩
    exact .inr ⟨hne, g', hm', hn', by rw [ha']⟩

theorem SeenOk.cons {x : Option TgArn} (hs : SeenOk w seen) (hx : (hostIp w h = "" ∧ x = none) ∨
    (hostIp w h ≠ "" ∧ ∃ g ∈ w.tgs, g.name = hostTgName h ∧ x = some g.arn)) : SeenOk w ((h, x) :: seen) := by
  intro a y hy
  by_cases he : a = h
  · subst he
    have : x = y := by simpa using hy
    exact this ▸ hx
  · rw [List.lookup_cons, beq_false_of_ne he] at hy
    exact hs a y hy

/-- The effect of finding a host's group: the rules and the tables are as they were. -/
structure FoundTg (u : World) (h : HostId) (l : CallLog) (x : Option TgArn) (seen : List (HostId × Option TgArn))
    (w : World) : Prop where
  answer : (hostIp u h = "" ∧ x = none) ∨ (hostIp u h ≠ "" ∧ ∃ g ∈ w.tgs, g.name = hostTgName h ∧ x = some g.arn)
  seen : SeenOk w seen
  tables : SameTables w u
  rules : w.rules = u.rules
  tgs : TgsGrow u w
  creates : ∀ id, ¬ CreatesRule l id

theorem ensureHostTg_up (ip : String) (w : World) : (ensureHostTg cfg.forced h ip).wpt elbUp (fun l r w' =>
    (∃ g ∈ w'.tgs, g.name = hostTgName h ∧ r = some (some g.arn)) ∧ SameTables w' w ∧ w'.rules = w.rules ∧ TgsGrow w w' ∧
      ∀ id, ¬ CreatesRule l id) w := by
  have hmode : ¬ cfg.forced.routingMode = .hostTg := by simp [Config.forced]
  simp only [ensureHostTg, req_bind, Prog.pure_eq, if_neg hmode]
  rintro found w₁ ⟨hok, hf, rfl⟩
  cases found with
  | some a =>
    obtain ⟨g, hg, hn, ha⟩ := hf a rfl
    exact ⟨⟨g, hg, hn, by rw [ha]⟩, ⟨rfl, rfl⟩, rfl, .refl _, by simp [CreatesRule, Saw]⟩
  | none =>
    rintro made w₂ ⟨hmade, hs⟩
    obtain ⟨a, rfl⟩ : ∃ a, made = some a := Option.isSome_iff_exists.1 hmade
    have hnone := hok rfl
    obtain ⟨⟨g, hg, hn, -⟩ | hnew, rfl⟩ := hs
    · exact absurd hn (hnone g hg)
    rw [withTg_new hnone]
    rintro ok w₃ ⟨rfl, rfl⟩
    refine ⟨⟨⟨hostTgName h, a, [ip]⟩, ?_, rfl, rfl⟩, ⟨rfl, rfl⟩, rfl, ⟨fun g hg => ?_, fun g' hg' => ?_⟩, ?_⟩
    · simp [World.setTgs]
    · have hne : g.arn ≠ a := (hnew g hg).2
      refine ⟨g, List.mem_map.2 ⟨g, List.mem_append_left _ hg, if_neg hne⟩, rfl, rfl⟩
    · obtain ⟨g, hg, rfl⟩ := List.mem_map.1 hg'
      rcases List.mem_append.1 hg with hg | hg
      · have hne : g.arn ≠ a := (hnew g hg).2
        exact .inl ⟨g, hg, by rw [if_neg hne], by rw [if_neg hne]⟩
      · obtain rfl := List.mem_singleton.1 hg
        refine .inr fun g hg => ?_
        rw [if_pos rfl]
        exact (hnew g hg).2
    · simp [CreatesRule, Saw]

theorem seenTg_up (hs : SeenOk w seen) : (seenTg cfg seen h).wpt elbUp (fun l r w' =>
    ∃ x seen', r = some (x, seen') ∧ FoundTg w h l x seen' w') w := by
  unfold seenTg
  split
  · rename_i x hx
    refine ⟨x, seen, rfl, hs h x hx, hs, ⟨rfl, rfl⟩, rfl, .refl _, ?_⟩
    simp [CreatesRule, Saw]
  · simp only [req_bind, Prog.pure_eq]
    rintro row w₁ ⟨-, rfl, rfl⟩
    have hip : ((w₁.hosts.get h).bind HostRow.privateIp).getD "" = hostIp w₁ h := rfl
    beta_reduce
    rw [hip]
    split
    · rename_i he
      refine ⟨none, _, rfl, .inl ⟨he, rfl⟩, hs.cons (.inl ⟨he, rfl⟩), ⟨rfl, rfl⟩, rfl, .refl _, ?_⟩
      simp [CreatesRule, Saw]
    · rename_i he
      refine (Prog.wpt_bind ..).2 (Prog.wpt_mono ?_ (ensureHostTg_up (hostIp w₁ h) w₁))
      rintro l r w₂ ⟨⟨g, hg, hn, rfl⟩, ht, hr, hgrow, hno⟩
      have hip₂ : hostIp w₂ h = hostIp w₁ h := by rw [hostIp, ht.2]; rfl
      refine ⟨some g.arn, _, rfl, .inr ⟨he, g, hg, hn, rfl⟩, ?_, ht, hr, hgrow, fun id => ?_⟩
      · exact (hs.grow hgrow ht.2).cons (.inr ⟨hip₂ ▸ he, g, hg, hn, rfl⟩)
      · rintro ⟨p, tg, hs⟩
        refine hno id ⟨p, tg, ?_⟩
        simpa [Saw] using hs

end Groups

/-! ## The loop -/

/-- A rule of the tenant's paths. -/
def ownRule (tid : TenantId) : Rule := ⟨0, none, [pathPattern tid], []⟩

/-- The tenants the rebuild has to make a rule for: no present rule names them, and their host has an address. -/
def Needy (w : World) (named : List TenantId) (t : TenantRow) : Prop :=
  t.id ≠ "" ∧ t.id ∉ named ∧ t.host ≠ "" ∧ hostIp w t.host ≠ ""

instance (w : World) (named : List TenantId) : DecidablePred (Needy w named) := fun t =>
  inferInstanceAs (Decidable (t.id ≠ "" ∧ t.id ∉ named ∧ t.host ≠ "" ∧ hostIp w t.host ≠ ""))

def needyIds (w : World) (named : List TenantId) (ts : List TenantRow) : List TenantId :=
  (ts.filter (Needy w named)).map TenantRow.id

/-- No rule mentions the tenants, and none of their own rules mentions one that comes later. -/
def Unmentioned (rules : List Rule) (tids : List TenantId) : Prop :=
  (∀ tid ∈ tids, ∀ r ∈ rules, r.mentions tid = false) ∧ tids.Pairwise fun a b => (ownRule a).mentions b = false

/-- The tenants that get a rule, in the order of the loop: no rule present at their turn mentions them. -/
def restored (rules : List Rule) : List TenantId → List TenantId
  | [] => []
  | tid :: tids =>
    if rules.any fun r => r.mentions tid then restored rules tids else tid :: restored (rules ++ [ownRule tid]) tids

/-- The line of the report about a tenant. -/
def rebuildLine (w : World) (named : List TenantId) (t : TenantRow) : RebuildResult :=
  ⟨t.id,
    if t.id ∈ named then .existing
    else if t.host = "" then .skipped "no host_id"
    else if hostIp w t.host = "" then .failed ("host " ++ t.host ++ " has no private_ip")
    else .created t.host⟩

/-- What the loop does for the tenants `ts`. -/
structure Rebuilds (named : List TenantId) (ts : List TenantRow) (w : World) (l : CallLog) (results : List RebuildResult)
    (w' : World) : Prop where
  lines : results = (ts.filter fun t => t.id ≠ "").map (rebuildLine w named)
  tables : SameTables w' w
  tgs : TgsGrow w w'
  kept : ∀ r ∈ w.rules, r ∈ w'.rules
  fresh : ∀ r ∈ w'.rules, r ∈ w.rules ∨ ∃ t ∈ ts, Needy w named t ∧ r.ownOf t.id ∧ CreatesRule l t.id
  covered : ∀ t ∈ ts, Needy w named t →
    (∃ r ∈ w'.rules, r.mentions t.id = true) ∧ ∃ g ∈ w'.tgs, g.name = hostTgName t.host
  creates : ∀ tid, CreatesRule l tid → ∃ t ∈ ts, Needy w named t ∧ t.id = tid ∧ Routed w' tid t.host
  made : ∀ tid, CreatesRule l tid ↔ tid ∈ restored w.rules (needyIds w named ts)

section Loop

variable {cfg} {named : List TenantId} {t : TenantRow} {ts : List TenantRow} {u v w : World} {l l' : CallLog}
  {results : List RebuildResult} {tid : TenantId}

theorem CreatesRule.append_iff : CreatesRule (l ++ l') tid ↔ CreatesRule l tid ∨ CreatesRule l' tid := by
  simp only [CreatesRule, Saw, List.mem_append, exists_or]

theorem Rule.ownOf.mentions_eq {r : Rule} (h : r.ownOf tid) (id : TenantId) : r.mentions id = (ownRule tid).mentions id := by
  rw [Rule.mentions, h]
  rfl

theorem Rule.ownOf.mentions_self {r : Rule} (h : r.ownOf tid) : r.mentions tid = true := by
  rw [Rule.mentions, h]
  simp [pathPattern, hasSub]

theorem hostIp_tables (h : SameTables v u) (a : HostId) : hostIp v a = hostIp u a := by
  rw [hostIp, h.2]
  rfl

theorem Needy.tables_iff (h : SameTables v u) : Needy v named t ↔ Needy u named t := by
  rw [Needy, hostIp_tables h]
  rfl

theorem needyIds_tables (h : SameTables v u) : needyIds v named ts = needyIds u named ts := by
  unfold needyIds
  refine congrArg _ (List.filter_congr fun t _ => ?_)
  rw [decide_eq_decide]
  exact Needy.tables_iff h

theorem Routed.later {h : HostId} (hr : Routed u tid h) (hk : ∀ r ∈ u.rules, r ∈ v.rules) (hg : TgsGrow u v) :
    Routed v tid h := by
  obtain ⟨r, hm, hown, g, hgm, hn, ha⟩ := hr
  obtain ⟨g', hm', hn', ha'⟩ := hg.named ⟨g, hgm, hn, rfl⟩
  exact ⟨r, hk r hm, hown, g', hm', hn', by rw [ha, ha']⟩

theorem Rebuilds.nil (w : World) : Rebuilds named [] w [] [] w where
  lines := rfl
  tables := ⟨rfl, rfl⟩
  tgs := .refl w
  kept _ h := h
  fresh _ h := .inl h
  covered := by simp
  creates := by simp [CreatesRule, Saw]
  made := by simp [CreatesRule, Saw, restored, needyIds]

/-- A tenant for which nothing is created comes first. -/
theorem Rebuilds.skip {pre : CallLog} (hn : ¬ Needy u named t) (hv : SameTables v u) (hr : v.rules = u.rules)
    (hg : TgsGrow u v) (hpre : ∀ id, ¬ CreatesRule pre id) (h : Rebuilds named ts v l results w) :
    Rebuilds named (t :: ts) u (pre ++ l)
      ((if t.id = "" then [] else [rebuildLine u named t]) ++ results) w where
  lines := by
    have hline : rebuildLine v named = rebuildLine u named := by
      funext t
      simp only [rebuildLine, hostIp_tables hv]
    rw [h.lines, hline]
    split
    · rename_i he
      rw [List.filter_cons_of_neg (by simpa using he)]
      rfl
    · rename_i he
      rw [List.filter_cons_of_pos (by simpa using he)]
      rfl
  tables := h.tables.trans hv
  tgs := hg.trans h.tgs
  kept r hm := h.kept r (hr ▸ hm)
  fresh r hm := by
    rcases h.fresh r hm with hm | ⟨t', ht, hn', hown⟩
    · exact .inl (hr ▸ hm)
    · exact .inr ⟨t', List.mem_cons_of_mem _ ht, (Needy.tables_iff hv).1 hn', hown.1, CreatesRule.append_iff.2 (.inr hown.2)⟩
  covered t' ht hn' := by
    rcases List.mem_cons.1 ht with rfl | ht
    · exact absurd hn' hn
    · exact h.covered t' ht ((Needy.tables_iff hv).2 hn')
  creates id hc := by
    rcases CreatesRule.append_iff.1 hc with hc | hc
    · exact absurd hc (hpre id)
    · obtain ⟨t', ht, hn', hid, hrt⟩ := h.creates id hc
      exact ⟨t', List.mem_cons_of_mem _ ht, (Needy.tables_iff hv).1 hn', hid, hrt⟩
  made id := by
    have hids : needyIds u named (t :: ts) = needyIds v named ts := by
      rw [needyIds_tables hv, needyIds, List.filter_cons_of_neg (by simpa using hn)]
      rfl
    rw [hids, ← hr, ← h.made, CreatesRule.append_iff, or_iff_right (hpre id)]

theorem unmentioned_cons {rules : List Rule} {tids : List TenantId} : Unmentioned rules (tid :: tids) ↔
    (∀ r ∈ rules, r.mentions tid = false) ∧ Unmentioned (rules ++ [ownRule tid]) tids := by
  simp only [Unmentioned, List.forall_mem_cons, List.pairwise_cons, List.forall_mem_append, List.not_mem_nil,
    false_imp_iff, implies_true, and_true]
  constructor
  · rintro ⟨⟨h₁, h₂⟩, h₃, h₄⟩
    exact ⟨h₁, fun id hid => ⟨h₂ id hid, h₃ id hid⟩, h₄⟩
  · rintro ⟨h₁, h₂, h₃⟩
    exact ⟨⟨h₁, fun id hid => (h₂ id hid).1⟩, fun id hid => (h₂ id hid).2, h₃⟩

theorem restored_congr {rules rules' : List Rule}
    (h : ∀ id, (rules.any fun r => r.mentions id) = rules'.any fun r => r.mentions id) (tids : List TenantId) :
    restored rules tids = restored rules' tids := by
  induction tids generalizing rules rules' with
  | nil => rfl
  | cons tid tids ih =>
    have hsnoc : restored (rules ++ [ownRule tid]) tids = restored (rules' ++ [ownRule tid]) tids := by
      refine ih fun id => ?_
      rw [List.any_append, List.any_append, h]
    rw [restored, restored, h, ih h, hsnoc]

theorem restored_snoc {rules : List Rule} {r : Rule} (hr : r.ownOf tid) (tids : List TenantId) :
    restored (rules ++ [r]) tids = restored (rules ++ [ownRule tid]) tids := by
  refine restored_congr (fun id => ?_) tids
  simp only [List.any_append, List.any_cons, hr.mentions_eq]

theorem restored_subset {rules : List Rule} {tids : List TenantId} (h : tid ∈ restored rules tids) : tid ∈ tids := by
  induction tids generalizing rules with
  | nil => exact h
  | cons id tids ih =>
    rw [restored] at h
    split at h
    · exact List.mem_cons_of_mem _ (ih h)
    · rcases List.mem_cons.1 h with rfl | h
      · exact List.mem_cons_self
      · exact List.mem_cons_of_mem _ (ih h)

/-- Every tenant gets its rule exactly when none is mentioned. -/
theorem restored_all_iff {rules : List Rule} {tids : List TenantId} (hn : tids.Nodup) :
    (∀ id ∈ tids, id ∈ restored rules tids) ↔ Unmentioned rules tids := by
  induction tids generalizing rules with
  | nil => simp [Unmentioned]
  | cons tid tids ih =>
    obtain ⟨hid, hn⟩ := List.nodup_cons.1 hn
    rw [unmentioned_cons, ← ih hn, restored]
    split
    · rename_i hm
      obtain ⟨r, hr, hm⟩ := List.any_eq_true.1 hm
      constructor
      · intro h
        exact absurd (restored_subset (h tid List.mem_cons_self)) hid
      · intro h
        have := h.1 r hr
        rw [hm] at this
        cases this
    · rename_i hm
      have hnone : ∀ r ∈ rules, r.mentions tid = false := by
        intro r hr
        exact Bool.eq_false_iff.2 fun h => hm (List.any_eq_true.2 ⟨r, hr, h⟩)
      rw [and_iff_right hnone]
      constructor
      · intro h id hi
        rcases List.mem_cons.1 (h id (List.mem_cons_of_mem _ hi)) with rfl | h
        · exact absurd hi hid
        · exact h
      · intro h id hm
        rcases List.mem_cons.1 hm with rfl | hm
        · exact List.mem_cons_self
        · exact List.mem_cons_of_mem _ (h id hm)

/-- Every tenant in need is made a rule for exactly when none is mentioned. -/
theorem Rebuilds.all (h : Rebuilds named ts u l results w) (hnd : (ts.map TenantRow.id).Nodup) :
    (∀ t ∈ ts, Needy u named t → CreatesRule l t.id) ↔ Unmentioned u.rules (needyIds u named ts) := by
  have hn : (needyIds u named ts).Nodup := hnd.sublist (List.filter_sublist.map _)
  rw [← restored_all_iff hn]
  simp only [needyIds, List.forall_mem_map, List.mem_filter, decide_eq_true_eq, and_imp]
  exact forall₃_congr fun t _ _ => h.made t.id

/-- The effect of the rule step on the world: a rule was added, or the world is as it was. -/
theorem Added.effect {tg : TgArn} (h : Added cfg u tid tg l v) : SameTables v u ∧ v.tgs = u.tgs ∧
    (∀ r ∈ u.rules, r ∈ v.rules) ∧ (∀ r ∈ v.rules, r ∈ u.rules ∨ r.ownOf tid ∧ CreatesRule l tid) ∧
      (∃ r ∈ v.rules, r.mentions tid = true) ∧
      ∀ id, CreatesRule l id → id = tid ∧ ∃ r ∈ v.rules, r.ownOf tid ∧ r.actions = [tg] := by
  rcases h with ⟨hm, rfl, hno⟩ | ⟨-, hc, a, p, -, rfl⟩
  · exact ⟨⟨rfl, rfl⟩, rfl, fun _ h => h, fun _ h => .inl h, hm, fun id h => absurd h (hno id)⟩
  · have hown : (⟨a, some p, [pathPattern tid], [tg]⟩ : Rule).ownOf tid := rfl
    have hnew : (⟨a, some p, [pathPattern tid], [tg]⟩ : Rule) ∈ u.rules ++ [⟨a, some p, [pathPattern tid], [tg]⟩] := by
      simp
    refine ⟨⟨rfl, rfl⟩, rfl, fun r hr => List.mem_append_left _ hr, fun r hr => ?_, ⟨_, hnew, hown.mentions_self⟩,
      fun id h => ⟨(hc id).1 h, _, hnew, hown, rfl⟩⟩
    rcases List.mem_append.1 hr with hr | hr
    · exact .inl hr
    · exact .inr ⟨List.mem_singleton.1 hr ▸ hown, (hc tid).2 rfl⟩

/-- A tenant that needs a rule comes first. -/
theorem Rebuilds.take {l₁ l₂ : CallLog} {v₁ v₂ : World} {seen : List (HostId × Option TgArn)} {tg : TgArn}
    (hn : Needy u named t) (hf : FoundTg u t.host l₁ (some tg) seen v₁)
    (ha : Added cfg v₁ t.id tg l₂ v₂) (h : Rebuilds named ts v₂ l results w) :
    Rebuilds named (t :: ts) u (l₁ ++ (l₂ ++ l)) (rebuildLine u named t :: results) w := by
  obtain ⟨ht₂, htg₂, hkept, hfresh, hcover, hcreate⟩ := ha.effect
  have ht : SameTables v₂ u := ht₂.trans hf.tables
  have hgrow : TgsGrow u v₂ := by
    have := hf.tgs
    exact ⟨fun g hg => htg₂ ▸ this.kept g hg, fun g hg => this.new g (htg₂ ▸ hg)⟩
  obtain ⟨-, g, hg, hname, harn⟩ : hostIp u t.host ≠ "" ∧ ∃ g ∈ v₁.tgs, g.name = hostTgName t.host ∧ some tg = some g.arn :=
    hf.answer.resolve_left fun h => hn.2.2.2 h.1
  obtain rfl := Option.some.inj harn
  have hg₂ : g ∈ v₂.tgs := htg₂ ▸ hg
  have hsplit : ∀ id, CreatesRule (l₁ ++ (l₂ ++ l)) id ↔ CreatesRule l₂ id ∨ CreatesRule l id := by
    intro id
    rw [CreatesRule.append_iff, CreatesRule.append_iff, or_iff_right (hf.creates id)]
  refine ⟨?_, h.tables.trans ht, hgrow.trans h.tgs, fun r hm => h.kept r (hkept r (hf.rules ▸ hm)), fun r hm => ?_,
    fun t' hm hn' => ?_, fun id hc => ?_, ?_⟩
  · have hline : rebuildLine v₂ named = rebuildLine u named := by
      funext t
      simp only [rebuildLine, hostIp_tables ht]
    rw [h.lines, hline, List.filter_cons_of_pos (by simpa using hn.1)]
    rfl
  · rcases h.fresh r hm with hm | ⟨t', hm', hn', hown⟩
    · rcases hfresh r hm with hm | hown
      · exact .inl (hf.rules ▸ hm)
      · exact .inr ⟨t, List.mem_cons_self, hn, hown.1, (hsplit _).2 (.inl hown.2)⟩
    · exact .inr ⟨t', List.mem_cons_of_mem _ hm', (Needy.tables_iff ht).1 hn', hown.1, (hsplit _).2 (.inr hown.2)⟩
  · rcases List.mem_cons.1 hm with rfl | hm
    · obtain ⟨r, hr, hmen⟩ := hcover
      obtain ⟨g', hg', hname', -⟩ := h.tgs.named ⟨g, hg₂, hname, rfl⟩
      exact ⟨⟨r, h.kept r hr, hmen⟩, g', hg', hname'⟩
    · exact h.covered t' hm ((Needy.tables_iff ht).2 hn')
  · rcases (hsplit id).1 hc with hc | hc
    · obtain ⟨rfl, r, hr, hown, hact⟩ := hcreate id hc
      have hrt : Routed v₂ t.id t.host := ⟨r, hr, hown, g, hg₂, hname, hact⟩
      exact ⟨t, List.mem_cons_self, hn, rfl, hrt.later h.kept h.tgs⟩
    · obtain ⟨t', hm, hn', he, hrt⟩ := h.creates id hc
      exact ⟨t', List.mem_cons_of_mem _ hm, (Needy.tables_iff ht).1 hn', he, hrt⟩
  · have hids : needyIds u named (t :: ts) = t.id :: needyIds v₂ named ts := by
      rw [needyIds_tables ht, needyIds, List.filter_cons_of_pos (by simpa using hn)]
      rfl
    intro id
    rw [hids, restored, hsplit]
    rcases ha with ⟨⟨r, hr, hmen⟩, rfl, hno⟩ | ⟨hnone, hc, a, p, -, rfl⟩
    · -- Some rule mentions the tenant, and none is created for it.
      have hany : (u.rules.any fun r => r.mentions t.id) = true := List.any_eq_true.2 ⟨r, hf.rules ▸ hr, hmen⟩
      rw [if_pos hany, h.made, hf.rules, or_iff_right (hno id)]
    · have hany : ¬ (u.rules.any fun r => r.mentions t.id) = true := by
        rw [List.any_eq_true]
        rintro ⟨r, hr, hmen⟩
        have := hnone r (hf.rules ▸ hr)
        rw [hmen] at this
        cases this
      have hown : (⟨a, some p, [pathPattern t.id], [g.arn]⟩ : Rule).ownOf t.id := rfl
      have hrules : (v₁.setRules (v₁.rules ++ [⟨a, some p, [pathPattern t.id], [g.arn]⟩])).rules =
          u.rules ++ [⟨a, some p, [pathPattern t.id], [g.arn]⟩] := by
        rw [← hf.rules]
        rfl
      rw [if_neg hany, List.mem_cons, h.made, hrules, restored_snoc hown, hc]

/-- **The loop of a rebuild.** -/
theorem rebuildTenants_real (hl : cfg.albListenerArn = true) {seen : List (HostId × Option TgArn)}
    (hnd : (ts.map TenantRow.id).Nodup) (hs : SeenOk u seen)
    (hfree : (needyIds u named ts).length ≤ (freePriorities cfg u.rules).length) :
    (rebuildTenants cfg false named ts seen).wpt elbUp (Rebuilds named ts u) u := by
  induction ts generalizing u seen with
  | nil => exact .nil u
  | cons t ts ih =>
    obtain ⟨hid, hnd⟩ := List.nodup_cons.1 hnd
    have hquiet : ∀ id, ¬ CreatesRule [] id := by simp [CreatesRule, Saw]
    have hshorter : ¬ Needy u named t → needyIds u named (t :: ts) = needyIds u named ts := by
      intro hn
      rw [needyIds, List.filter_cons_of_neg (by simpa using hn)]
      rfl
    unfold rebuildTenants
    split
    · rename_i he
      have hn : ¬ Needy u named t := fun h => h.1 he
      refine Prog.wpt_mono ?_ (ih hnd hs (hshorter hn ▸ hfree))
      intro l results w h
      have := Rebuilds.skip hn ⟨rfl, rfl⟩ rfl (.refl u) hquiet h
      rwa [if_pos he] at this
    · rename_i he
      -- The three cases that make no call.
      have hpass : ∀ (a : RebuildAction), ¬ Needy u named t → (⟨t.id, a⟩ : RebuildResult) = rebuildLine u named t →
          (do
            let rest ← rebuildTenants cfg false named ts seen
            pure (⟨t.id, a⟩ :: rest) : CtlProg (List RebuildResult)).wpt elbUp (Rebuilds named (t :: ts) u) u := by
        intro a hn hline
        refine (Prog.wpt_bind ..).2 (Prog.wpt_mono ?_ (ih hnd hs (hshorter hn ▸ hfree)))
        intro l results w h
        have := Rebuilds.skip hn ⟨rfl, rfl⟩ rfl (.refl u) hquiet h
        rw [if_neg he, ← hline] at this
        have hres : Rebuilds named (t :: ts) u (l ++ []) (⟨t.id, a⟩ :: results) w := by simpa using this
        exact hres
      split
      · rename_i hnamed
        have hnamed : t.id ∈ named := List.contains_iff_mem.1 hnamed
        exact hpass _ (fun h => h.2.1 hnamed) (by simp [rebuildLine, hnamed])
      · rename_i hnamed
        have hnamed : t.id ∉ named := fun h => hnamed (List.contains_iff_mem.2 h)
        split
        · rename_i hhost
          have hhost : t.host = "" := hhost
          exact hpass _ (fun h => h.2.2.1 hhost) (by simp [rebuildLine, hnamed, hhost])
        · rename_i hhost
          have hhost : t.host ≠ "" := hhost
          simp only [Bool.false_eq_true, if_false, rebuildTenant]
          refine (Prog.wpt_bind ..).2 ((Prog.wpt_bind ..).2 (Prog.wpt_mono ?_ (seenTg_up hs)))
          rintro l₁ r v₁ ⟨x, seen', rfl, hf⟩
          by_cases hip : hostIp u t.host = ""
          · obtain rfl : x = none := by
              rcases hf.answer with h | h
              · exact h.2
              · exact absurd hip h.1
            have hn : ¬ Needy u named t := fun h => h.2.2.2 hip
            have hfree₁ : (needyIds v₁ named ts).length ≤ (freePriorities cfg v₁.rules).length := by
              rw [needyIds_tables hf.tables, hf.rules, ← hshorter hn]
              exact hfree
            refine (Prog.wpt_bind ..).2 (Prog.wpt_mono ?_ (ih hnd hf.seen hfree₁))
            intro l results w h
            have := Rebuilds.skip hn hf.tables hf.rules hf.tgs hf.creates h
            rw [if_neg he] at this
            have hline : rebuildLine u named t = ⟨t.id, .failed ("host " ++ t.host ++ " has no private_ip")⟩ := by
              simp [rebuildLine, hnamed, hhost, hip]
            rw [hline] at this
            have hres : Rebuilds named (t :: ts) u (l₁ ++ [] ++ (l ++ []))
                (⟨t.id, .failed ("host " ++ t.host ++ " has no private_ip")⟩ :: results) w := by simpa using this
            exact hres
          · obtain ⟨-, g, hg, hname, rfl⟩ := hf.answer.resolve_left fun h => hip h.1
            have hn : Needy u named t := ⟨he, hnamed, hhost, hip⟩
            have hcount : (needyIds u named (t :: ts)).length = (needyIds u named ts).length + 1 := by
              rw [needyIds, List.filter_cons_of_pos (by simpa using hn)]
              rfl
            have hne : freePriorities cfg v₁.rules ≠ [] := by
              intro h
              rw [hf.rules] at h
              rw [hcount, h] at hfree
              simp at hfree
            have hadd : addAlbRule cfg.forced t.id (some g.arn) = addRuleLoop cfg.forced t.id g.arn 6 := by
              simp [addAlbRule, Config.forced, hl]
            simp only [hadd]
            refine (Prog.wpt_bind ..).2 (Prog.wpt_mono ?_ (@addRuleLoop_up cfg.forced t.id g.arn v₁ hne 5))
            rintro l₂ ok v₂ ⟨rfl, ha⟩
            have heff := ha.effect
            have ht : SameTables v₂ u := heff.1.trans hf.tables
            have hfree₂ : (needyIds v₂ named ts).length ≤ (freePriorities cfg v₂.rules).length := by
              rw [needyIds_tables ht]
              rw [hcount] at hfree
              rcases ha with ⟨-, rfl, -⟩ | ⟨-, -, a, p, -, rfl⟩
              · rw [hf.rules]
                omega
              · have hsnoc := @freePriorities_snoc cfg v₁.rules ⟨a, some p, [pathPattern t.id], [g.arn]⟩ p rfl
                rw [hf.rules] at hsnoc
                have hrules : (v₁.setRules (v₁.rules ++ [⟨a, some p, [pathPattern t.id], [g.arn]⟩])).rules =
                    u.rules ++ [⟨a, some p, [pathPattern t.id], [g.arn]⟩] := by
                  rw [← hf.rules]
                  rfl
                rw [hrules]
                omega
            have hgrow : TgsGrow v₁ v₂ := by
              have htg := heff.2.1
              exact ⟨fun g hg => ⟨g, htg ▸ hg, rfl, rfl⟩, fun g hg => .inl ⟨g, htg ▸ hg, rfl, rfl⟩⟩
            have hs₂ : SeenOk v₂ seen' := hf.seen.grow hgrow heff.1.2
            refine (Prog.wpt_bind ..).2 (Prog.wpt_mono ?_ (ih hnd hs₂ hfree₂))
            intro l results w h
            have := Rebuilds.take hn hf ha h
            have hline : rebuildLine u named t = ⟨t.id, .created t.host⟩ := by
              simp [rebuildLine, hnamed, hhost, hip]
            rw [hline] at this
            have hres : Rebuilds named (t :: ts) u (l₁ ++ (l₂ ++ []) ++ (l ++ [])) (⟨t.id, .created t.host⟩ :: results) w := by
              simpa using this
            exact hres

/-! ### A second pass and a dry run -/

/-- A host whose group exists is found without a change. -/
theorem seenTg_idle {seen : List (HostId × Option TgArn)} {h : HostId}
    (hg : hostIp u h ≠ "" → ∃ g ∈ u.tgs, g.name = hostTgName h) :
    (seenTg cfg seen h).wpt elbUp (fun l _ w => w = u ∧ ∀ id, ¬ CreatesRule l id) u := by
  have hmode : ¬ cfg.forced.routingMode = .hostTg := by simp [Config.forced]
  unfold seenTg
  split
  · exact ⟨rfl, by simp [CreatesRule, Saw]⟩
  · simp only [req_bind, Prog.pure_eq]
    rintro row w₁ ⟨-, rfl, rfl⟩
    have hip : ((w₁.hosts.get h).bind HostRow.privateIp).getD "" = hostIp w₁ h := rfl
    beta_reduce
    rw [hip]
    split
    · exact ⟨rfl, by simp [CreatesRule, Saw]⟩
    · rename_i he
      simp only [ensureHostTg, req_bind, Prog.pure_eq, if_neg hmode, Prog.call_bind]
      rintro found w₂ ⟨hok, -, rfl⟩
      cases found with
      | some a => exact ⟨rfl, by simp [CreatesRule, Saw]⟩
      | none =>
        obtain ⟨g, hm, hn⟩ := hg he
        exact absurd hn (hok rfl g hm)

/-- Where every tenant in need is mentioned by a rule and has a group, nothing changes. -/
theorem rebuildTenants_idle (hl : cfg.albListenerArn = true) {seen : List (HostId × Option TgArn)} (hs : SeenOk u seen)
    (hc : ∀ t ∈ ts, Needy u named t →
      (∃ r ∈ u.rules, r.mentions t.id = true) ∧ ∃ g ∈ u.tgs, g.name = hostTgName t.host) :
    (rebuildTenants cfg false named ts seen).wpt elbUp (fun _ _ w => w = u) u := by
  induction ts generalizing seen with
  | nil => rfl
  | cons t ts ih =>
    have ih : ∀ {seen}, SeenOk u seen → _ := fun {seen} hs => @ih seen hs fun t ht => hc t (List.mem_cons_of_mem _ ht)
    unfold rebuildTenants
    split
    · exact ih hs
    split
    · exact (Prog.wpt_bind ..).2 (Prog.wpt_mono (fun _ _ _ h => h) (ih hs))
    split
    · exact (Prog.wpt_bind ..).2 (Prog.wpt_mono (fun _ _ _ h => h) (ih hs))
    rename_i he hnamed hhost
    have hn : hostIp u t.host ≠ "" → Needy u named t :=
      fun hip => ⟨he, fun h => hnamed (List.contains_iff_mem.2 h), hhost, hip⟩
    have hgroup : hostIp u t.host ≠ "" → ∃ g ∈ u.tgs, g.name = hostTgName t.host :=
      fun hip => (hc t List.mem_cons_self (hn hip)).2
    simp only [Bool.false_eq_true, if_false, rebuildTenant]
    have hfound := Prog.wpt_and (@seenTg_idle cfg u seen t.host hgroup) (@seenTg_up cfg u seen t.host hs)
    refine (Prog.wpt_bind ..).2 ((Prog.wpt_bind ..).2 (Prog.wpt_mono ?_ hfound))
    rintro l r w ⟨⟨rfl, -⟩, x, seen', rfl, hf⟩
    cases x with
    | none => exact (Prog.wpt_bind ..).2 (Prog.wpt_mono (fun _ _ _ h => h) (ih hf.seen))
    | some tg =>
      have hip : hostIp w t.host ≠ "" := by
        rcases hf.answer with h | h
        · cases h.2
        · exact h.1
      have hadd : addAlbRule cfg.forced t.id (some tg) = addRuleLoop cfg.forced t.id tg 6 := by
        simp [addAlbRule, Config.forced, hl]
      simp only [hadd]
      refine (Prog.wpt_bind ..).2 (Prog.wpt_mono ?_ (addRuleLoop_mentioned (hc t List.mem_cons_self (hn hip)).1 5))
      rintro l' ok w' rfl
      exact (Prog.wpt_bind ..).2 (Prog.wpt_mono (fun _ _ _ h => h) (ih hf.seen))

theorem rebuildTenants_dry (seen : List (HostId × Option TgArn)) (u : World) :
    (rebuildTenants cfg true named ts seen).wpt elbUp (fun l results w => l = [] ∧ w = u ∧
      ∀ tid, (∃ h, ⟨tid, .wouldCreate h⟩ ∈ results) ↔ ∃ t ∈ ts, t.id = tid ∧ t.id ≠ "" ∧ t.id ∉ named ∧ t.host ≠ "") u := by
  induction ts with
  | nil => exact ⟨rfl, rfl, by simp⟩
  | cons t ts ih =>
    unfold rebuildTenants
    split
    · rename_i he
      refine Prog.wpt_mono ?_ ih
      rintro l results w ⟨rfl, rfl, h⟩
      refine ⟨rfl, rfl, fun tid => ?_⟩
      rw [h]
      simp [he]
    · rename_i he
      have hpass : ∀ (a : RebuildAction), (∀ h, a = .wouldCreate h → t.id ∉ named ∧ t.host ≠ "") →
          (t.id ∉ named ∧ t.host ≠ "" → ∃ h, a = .wouldCreate h) → (do
            let rest ← rebuildTenants cfg true named ts seen
            pure (⟨t.id, a⟩ :: rest) : CtlProg (List RebuildResult)).wpt elbUp (fun l results w => l = [] ∧ w = u ∧
              ∀ tid, (∃ h, ⟨tid, .wouldCreate h⟩ ∈ results) ↔
                ∃ s ∈ t :: ts, s.id = tid ∧ s.id ≠ "" ∧ s.id ∉ named ∧ s.host ≠ "") u := by
        intro a h₁ h₂
        refine (Prog.wpt_bind ..).2 (Prog.wpt_mono ?_ ih)
        rintro l results w ⟨rfl, rfl, h⟩
        refine ⟨rfl, rfl, fun tid => ?_⟩
        refine Iff.trans ?_ (List.exists_mem_cons_iff _ _ _).symm
        simp only [List.mem_cons, exists_or, RebuildResult.mk.injEq]
        refine or_congr ?_ (h tid)
        constructor
        · rintro ⟨h, rfl, ha⟩
          exact ⟨rfl, he, h₁ h ha.symm⟩
        · rintro ⟨rfl, -, hn⟩
          obtain ⟨h, rfl⟩ := h₂ hn
          exact ⟨h, rfl, rfl⟩
      split
      · rename_i hnamed
        exact hpass .existing (by simp) fun h => absurd (List.contains_iff_mem.1 hnamed) h.1
      · rename_i hnamed
        have hnamed : t.id ∉ named := fun h => hnamed (List.contains_iff_mem.2 h)
        split
        · rename_i hhost
          exact hpass (.skipped "no host_id") (by simp) fun h => absurd hhost h.2
        · rename_i hhost
          exact hpass (.wouldCreate (t.hostId.getD "")) (fun h _ => ⟨hnamed, hhost⟩) fun _ => ⟨_, rfl⟩

end Loop

/-! ## A whole rebuild -/

/-- The tenants named by the rules present. -/
abbrev World.named (w : World) : List TenantId := routedTids w.rules

/-- The rebuild from `w` to `w'` did what it is for. -/
structure RebuiltRight (w : World) (l : CallLog) (report : RebuildReport) (w' : World) : Prop where
  routed : ∀ t ∈ w.tenants.rows, TenantFilter.routable.holds t = true → t.id ≠ "" → t.host ≠ "" → hostIp w t.host ≠ "" →
    Routed w' t.id t.host
  reported : ∀ tid, (∃ h, ⟨tid, .created h⟩ ∈ report.results) ↔ CreatesRule l tid

/-- The rules a rebuild finds, with the tenants in the order of its scan: a tenant that is named is routed to its host,
and a tenant that needs a rule is mentioned neither by a rule nor by the own path of one that comes before it. -/
def Restorable (w : World) (ts : List TenantRow) : Prop :=
  (∀ t ∈ ts, t.id ≠ "" → t.id ∈ w.named → t.host ≠ "" → hostIp w t.host ≠ "" → Routed w t.id t.host) ∧
    Unmentioned w.rules (needyIds w w.named ts)

section Whole

variable {cfg} {w w' : World} {l : CallLog} {report : RebuildReport} {mode : String} {ts : List TenantRow}

theorem mem_routedTids {rules rules' : List Rule} (h : ∀ r ∈ rules, r ∈ rules') {tid : TenantId}
    (hm : tid ∈ routedTids rules) : tid ∈ routedTids rules' := by
  obtain ⟨r, hr, ht⟩ := List.mem_flatMap.1 hm
  exact List.mem_flatMap.2 ⟨r, h r hr, ht⟩

theorem needyIds_congr {named named' : List TenantId} (hm : ∀ x, x ∈ named ↔ x ∈ named') :
    needyIds w named ts = needyIds w named' ts := by
  unfold needyIds
  refine congrArg _ (List.filter_congr fun t _ => ?_)
  rw [decide_eq_decide, Needy, Needy, hm]

/-- Only which tenants are named matters. -/
theorem Rebuilds.named_congr {named named' : List TenantId} {results : List RebuildResult}
    (hm : ∀ x, x ∈ named ↔ x ∈ named') (h : Rebuilds named ts w l results w') : Rebuilds named' ts w l results w' := by
  have hneedy : ∀ t, Needy w named t ↔ Needy w named' t := fun t => by simp only [Needy, hm]
  have hline : rebuildLine w named = rebuildLine w named' := by
    funext t
    simp only [rebuildLine, hm]
  have hids := @needyIds_congr w ts _ _ hm
  refine ⟨hline ▸ h.lines, h.tables, h.tgs, h.kept, ?_, ?_, ?_, ?_⟩
  · simpa only [hneedy] using h.fresh
  · simpa only [hneedy] using h.covered
  · simpa only [hneedy] using h.creates
  · simpa only [hids] using h.made

/-- What a rebuild does. -/
theorem rebuildListener_real (hfree : (needyIds w w.named (w.tenants.rows.filter TenantFilter.routable.holds)).length ≤
    (freePriorities cfg w.rules).length) : (rebuildListener cfg mode false).wpt elbUp (fun l reply w' => ∀ report,
      reply = .ok report → cfg.albListenerArn = true ∧ ∃ ts : List TenantRow, Saw l (.scanTenants .routable) ts ∧
        ts.Perm (w.tenants.rows.filter TenantFilter.routable.holds) ∧ Rebuilds w.named ts w l report.results w') w := by
  simp only [rebuildListener, req_bind, Prog.pure_eq]
  split
  · intro report he
    cases he
  split
  · intro report he
    cases he
  rename_i hl
  have hl : cfg.albListenerArn = true := by simpa using hl
  rintro ts w₁ ⟨-, hp, rfl⟩ rules w₂ ⟨hok, hr, rfl⟩
  obtain ⟨rules, rfl⟩ : ∃ rs, rules = some rs := Option.isSome_iff_exists.1 hok
  have hr : rules.Perm w₂.rules := hr rules rfl
  have hp : ts.Perm (w₂.tenants.rows.filter TenantFilter.routable.holds) := hp
  have hm : ∀ x, x ∈ routedTids rules ↔ x ∈ w₂.named :=
    fun x => ⟨mem_routedTids fun r h => hr.mem_iff.1 h, mem_routedTids fun r h => hr.mem_iff.2 h⟩
  have hnd : (ts.map TenantRow.id).Nodup :=
    (hp.map TenantRow.id).nodup_iff.2 (w₂.tenants.nodup.sublist (List.filter_sublist.map _))
  have hcount : (needyIds w₂ (routedTids rules) ts).length ≤ (freePriorities cfg w₂.rules).length := by
    have hperm : (needyIds w₂ w₂.named ts).Perm
        (needyIds w₂ w₂.named (w₂.tenants.rows.filter TenantFilter.routable.holds)) := (hp.filter _).map _
    rw [needyIds_congr hm, hperm.length_eq]
    exact hfree
  have hseen : SeenOk w₂ [] := fun h x hx => by cases hx
  refine (Prog.wpt_bind ..).2 (Prog.wpt_mono ?_ (rebuildTenants_real hl hnd hseen hcount))
  intro l results w' h report he
  cases he
  have h := h.named_congr hm
  have hlog : ∀ id, CreatesRule (⟨.scanTenants .routable, ts⟩ :: ⟨.describeRules, some rules⟩ :: (l ++ [])) id ↔
      CreatesRule l id := by simp [CreatesRule, Saw]
  refine ⟨hl, ts, List.mem_cons_self, hp, h.lines, h.tables, h.tgs, h.kept, ?_, h.covered, ?_, ?_⟩
  · simpa only [hlog] using h.fresh
  · intro id hc
    exact h.creates id ((hlog id).1 hc)
  · simpa only [hlog] using h.made

theorem mem_lines {named : List TenantId} {x : RebuildResult} :
    x ∈ (ts.filter fun t => t.id ≠ "").map (rebuildLine w named) ↔ ∃ t ∈ ts, t.id ≠ "" ∧ rebuildLine w named t = x := by
  simp [and_assoc]

theorem created_iff {named : List TenantId} {tid : TenantId} :
    (∃ h, ⟨tid, .created h⟩ ∈ (ts.filter fun t => t.id ≠ "").map (rebuildLine w named)) ↔
      ∃ t ∈ ts, t.id = tid ∧ Needy w named t := by
  simp only [mem_lines]
  constructor
  · rintro ⟨h, t, ht, he, hl⟩
    simp only [rebuildLine, RebuildResult.mk.injEq] at hl
    obtain ⟨rfl, hl⟩ := hl
    split_ifs at hl with h₁ h₂ h₃
    exact ⟨t, ht, rfl, he, h₁, h₂, h₃⟩
  · rintro ⟨t, ht, rfl, he, h₁, h₂, h₃⟩
    exact ⟨t.host, t, ht, he, by simp [rebuildLine, h₁, h₂, h₃]⟩

theorem created_or_failed_iff {named : List TenantId} {tid : TenantId} :
    ((∃ h, ⟨tid, .created h⟩ ∈ (ts.filter fun t => t.id ≠ "").map (rebuildLine w named)) ∨
      ∃ e, ⟨tid, .failed e⟩ ∈ (ts.filter fun t => t.id ≠ "").map (rebuildLine w named)) ↔
      ∃ t ∈ ts, t.id = tid ∧ t.id ≠ "" ∧ t.id ∉ named ∧ t.host ≠ "" := by
  rw [created_iff]
  simp only [mem_lines]
  constructor
  · rintro (⟨t, ht, rfl, he, h₁, h₂, -⟩ | ⟨e, t, ht, he, hl⟩)
    · exact ⟨t, ht, rfl, he, h₁, h₂⟩
    · simp only [rebuildLine, RebuildResult.mk.injEq] at hl
      obtain ⟨rfl, hl⟩ := hl
      split_ifs at hl with h₁ h₂ h₃
      exact ⟨t, ht, rfl, he, h₁, h₂⟩
  · rintro ⟨t, ht, rfl, he, h₁, h₂⟩
    by_cases h₃ : hostIp w t.host = ""
    · exact .inr ⟨_, t, ht, he, by simp [rebuildLine, h₁, h₂, h₃]; rfl⟩
    · exact .inl ⟨t, ht, rfl, he, h₁, h₂, h₃⟩

/-- **A rebuild is right exactly when the rules it finds are restorable.** -/
theorem rebuiltRight_iff (hg : w.TgsExist) (hp : ts.Perm (w.tenants.rows.filter TenantFilter.routable.holds))
    (h : Rebuilds w.named ts w l report.results w') : RebuiltRight w l report w' ↔ Restorable w ts := by
  have hnd : (ts.map TenantRow.id).Nodup :=
    (hp.map TenantRow.id).nodup_iff.2 (w.tenants.nodup.sublist (List.filter_sublist.map _))
  have hscan : ∀ t, t ∈ ts ↔ t ∈ w.tenants.rows ∧ TenantFilter.routable.holds t = true := fun t => by
    rw [hp.mem_iff, List.mem_filter]
  have hinj : ∀ t ∈ ts, ∀ t' ∈ ts, t.id = t'.id → t = t' := fun t ht t' ht' he =>
    Table.eq_of_key ((hscan t).1 ht).1 ((hscan t').1 ht').1 he
  have hreported : (∀ tid, (∃ h, ⟨tid, .created h⟩ ∈ report.results) ↔ CreatesRule l tid) ↔
      ∀ t ∈ ts, Needy w w.named t → CreatesRule l t.id := by
    rw [h.lines]
    simp only [created_iff]
    constructor
    · intro hall t ht hn
      exact (hall t.id).1 ⟨t, ht, rfl, hn⟩
    · intro hall tid
      constructor
      · rintro ⟨t, ht, rfl, hn⟩
        exact hall t ht hn
      · intro hc
        obtain ⟨t, ht, hn, he, -⟩ := h.creates tid hc
        exact ⟨t, ht, he, hn⟩
  constructor
  · rintro ⟨hrouted, hrep⟩
    refine ⟨fun t ht he hnamed hhost hip => ?_, (h.all hnd).1 (hreported.1 hrep)⟩
    -- The rule the tenant is routed by was there before, and so was its target group.
    obtain ⟨r, hr, hown, g, hgm, hname, ha⟩ := hrouted t ((hscan t).1 ht).1 ((hscan t).1 ht).2 he hhost hip
    have hr : r ∈ w.rules := by
      rcases h.fresh r hr with hr | ⟨t', ht', hn', hown', -⟩
      · exact hr
      · have := hinj t ht t' ht' (hown.inj hown')
        exact absurd (this ▸ hnamed) hn'.2.1
    refine ⟨r, hr, hown, ?_⟩
    obtain ⟨g₀, hg₀, harn₀⟩ := hg r hr g.arn (by simp [ha])
    rcases h.tgs.new g hgm with ⟨g', hg', hname', harn'⟩ | hnew
    · exact ⟨g', hg', hname' ▸ hname, by rw [ha, harn']⟩
    · exact absurd harn₀ (hnew g₀ hg₀)
  · rintro ⟨hnamed, hun⟩
    have hall := (h.all hnd).2 hun
    refine ⟨fun t hm hroutable he hhost hip => ?_, hreported.2 hall⟩
    have ht : t ∈ ts := (hscan t).2 ⟨hm, hroutable⟩
    by_cases hn : t.id ∈ w.named
    · exact (hnamed t ht he hn hhost hip).later h.kept h.tgs
    · obtain ⟨t', ht', -, hid, hrt⟩ := h.creates t.id (hall t ht ⟨he, hn, hhost, hip⟩)
      rwa [hinj t' ht' t ht hid] at hrt

theorem rebuildListener_dry (mode : String) (w : World) : (rebuildListener cfg mode true).wpt elbUp (fun _ reply w' =>
    w' = w ∧ ∀ report, reply = .ok report → ∀ tid, (∃ h, ⟨tid, .wouldCreate h⟩ ∈ report.results) ↔
      ∃ t ∈ w.tenants.rows.filter TenantFilter.routable.holds, t.id = tid ∧ t.id ≠ "" ∧ t.id ∉ w.named ∧ t.host ≠ "") w := by
  have hother : ∀ {reply : AdminReply RebuildReport}, reply.answer = none → w = w ∧ ∀ report, reply = .ok report →
      ∀ tid, (∃ h, ⟨tid, .wouldCreate h⟩ ∈ report.results) ↔
        ∃ t ∈ w.tenants.rows.filter TenantFilter.routable.holds, t.id = tid ∧ t.id ≠ "" ∧ t.id ∉ w.named ∧ t.host ≠ "" := by
    intro reply hn
    refine ⟨rfl, fun report he => ?_⟩
    rw [he] at hn
    cases hn
  simp only [rebuildListener, req_bind, Prog.pure_eq]
  split
  · exact hother rfl
  split
  · exact hother rfl
  rintro ts w₁ ⟨-, hp, rfl⟩ rules w₂ ⟨hok, hr, rfl⟩
  obtain ⟨rules, rfl⟩ : ∃ rs, rules = some rs := Option.isSome_iff_exists.1 hok
  have hr : rules.Perm w₂.rules := hr rules rfl
  have hp : ts.Perm (w₂.tenants.rows.filter TenantFilter.routable.holds) := hp
  have hm : ∀ x, x ∈ routedTids rules ↔ x ∈ w₂.named :=
    fun x => ⟨mem_routedTids fun r h => hr.mem_iff.1 h, mem_routedTids fun r h => hr.mem_iff.2 h⟩
  refine (Prog.wpt_bind ..).2 (Prog.wpt_mono ?_ (rebuildTenants_dry [] w₂))
  rintro l results w ⟨rfl, rfl, h⟩
  refine ⟨rfl, fun report he tid => ?_⟩
  cases he
  rw [h]
  simp only [hm, hp.mem_iff]

/-- After a rebuild another one finds nothing to do. -/
theorem rebuildListener_again (hl : cfg.albListenerArn = true)
    (hc : ∀ t ∈ w.tenants.rows.filter TenantFilter.routable.holds, Needy w w.named t →
      (∃ r ∈ w.rules, r.mentions t.id = true) ∧ ∃ g ∈ w.tgs, g.name = hostTgName t.host) (mode : String) :
    (rebuildListener cfg mode false).wpt elbUp (fun _ _ w' => w' = w) w := by
  simp only [rebuildListener, req_bind, Prog.pure_eq]
  split
  · rfl
  split
  · rfl
  rintro ts w₁ ⟨-, hp, rfl⟩ rules w₂ ⟨hok, hr, rfl⟩
  obtain ⟨rules, rfl⟩ : ∃ rs, rules = some rs := Option.isSome_iff_exists.1 hok
  have hr : rules.Perm w₂.rules := hr rules rfl
  have hm : ∀ x, x ∈ routedTids rules ↔ x ∈ w₂.named :=
    fun x => ⟨mem_routedTids fun r h => hr.mem_iff.1 h, mem_routedTids fun r h => hr.mem_iff.2 h⟩
  have hseen : SeenOk w₂ [] := fun h x hx => by cases hx
  have hcover : ∀ t ∈ ts, Needy w₂ (routedTids rules) t →
      (∃ r ∈ w₂.rules, r.mentions t.id = true) ∧ ∃ g ∈ w₂.tgs, g.name = hostTgName t.host := by
    intro t ht hn
    refine hc t (hp.mem_iff.1 ht) ?_
    simpa only [Needy, hm] using hn
  exact (Prog.wpt_bind ..).2 (Prog.wpt_mono (fun _ _ _ h => h) (rebuildTenants_idle hl hseen hcover))

end Whole

/-- **A rebuild**: it routes every routable tenant and reports what it created exactly when the rules it finds are
restorable; a dry run changes nothing and names the tenants the rebuild reports as created or failed; and a second
rebuild changes nothing. -/
theorem rebuild_exact {mode : Option String} {w w' : World} {l : CallLog} {report : RebuildReport} (hg : w.TgsExist)
    (hfree : (needyIds w w.named (w.tenants.rows.filter TenantFilter.routable.holds)).length ≤
      (freePriorities cfg w.rules).length)
    (hr : (rebuildRouting cfg ⟨.given false, mode⟩).Traces elbUp w l (.ok report) w') :
    (∃ ts : List TenantRow, Saw l (.scanTenants .routable) ts ∧
      ts.Perm (w.tenants.rows.filter TenantFilter.routable.holds) ∧ (RebuiltRight w l report w' ↔ Restorable w ts)) ∧
    (∀ dry, dry = .absent ∨ dry = .given true → ∀ (l₀ : CallLog) (report₀ : RebuildReport) (w₀ : World),
      (rebuildRouting cfg ⟨dry, mode⟩).Traces elbUp w l₀ (.ok report₀) w₀ → w₀ = w ∧
        ∀ tid, (∃ h, ⟨tid, .wouldCreate h⟩ ∈ report₀.results) ↔
          (∃ h, ⟨tid, .created h⟩ ∈ report.results) ∨ ∃ e, ⟨tid, .failed e⟩ ∈ report.results) ∧
    ∀ (l₂ : CallLog) (reply₂ : AdminReply RebuildReport) (w₂ : World),
      (rebuildRouting cfg ⟨.given false, mode⟩).Traces elbUp w' l₂ reply₂ w₂ → w₂ = w' := by
  have hreal := @rebuildListener_real cfg w (RebuildRequest.modeOf ⟨.given false, mode⟩) hfree
  obtain ⟨hl, ts, hscan, hp, h⟩ := Prog.wpt_iff_traces.1 hreal _ _ _ hr report rfl
  refine ⟨⟨ts, hscan, hp, rebuiltRight_iff hg hp h⟩, fun dry hdry l₀ report₀ w₀ hr₀ => ?_, fun l₂ reply₂ w₂ hr₂ => ?_⟩
  · have hr₀ : (rebuildListener cfg (RebuildRequest.modeOf ⟨.given false, mode⟩) true).Traces elbUp w l₀ (.ok report₀) w₀ := by
      rcases hdry with rfl | rfl <;> exact hr₀
    obtain ⟨rfl, hd⟩ := Prog.wpt_iff_traces.1 (rebuildListener_dry _ w) _ _ _ hr₀
    refine ⟨rfl, fun tid => ?_⟩
    rw [hd report₀ rfl tid, h.lines, created_or_failed_iff]
    simp only [hp.mem_iff]
  · refine Prog.wpt_iff_traces.1 (rebuildListener_again hl (fun t ht hn => ?_) _) _ _ _ hr₂
    rw [h.tables.1] at ht
    have hn : Needy w w.named t := by
      refine (Needy.tables_iff h.tables).1 ⟨hn.1, fun hm => hn.2.1 (mem_routedTids h.kept hm), hn.2.2⟩
    exact h.covered t (hp.mem_iff.2 ht) hn

/-! ## Two rebuilds -/

/-- `ElbOk` as a check. -/
def elbOkCheck : (c : Call) → c.Ans → World → Bool
  | .describeRules, r, _ => r.isSome
  | .describeTg name, r, w => r.isSome || w.tgs.all fun g => g.name ≠ name
  | .createTg _, r, _ => r.isSome
  | .registerTargets _ _, r, _ => r
  | .createRule _ _ _, r, _ => r ≠ .error
  | .deleteRule _, r, _ => r
  | _, _, _ => true

theorem elbOkCheck_sound (c : Call) (r : c.Ans) (w : World) (h : elbOkCheck c r w = true) : ElbOk c r w := by
  cases c
  case describeTg name =>
    intro hn
    subst hn
    simpa [elbOkCheck] using h
  case createRule => simpa [elbOkCheck, ElbOk] using h
  all_goals first | exact h | trivial

/-- Tenants on one host, of which some have their rules. -/
def routedWorld (tenants : TenantsTable) (rules : List Rule) : World where
  tenants := tenants
  hosts := .single (emptyHost "i-1" 1)
  rules := rules
  tgs := [⟨"oc-i-1", 1, ["10.0.0.1"]⟩]

/-- A tenant without a rule whose id starts the id of one with a rule. -/
def shadowedWorld : World :=
  routedWorld ⟨[runningTenant "a-0000-1111" "i-1" 1, runningTenant "a-0000" "i-1" 2], by simp [runningTenant]⟩
    [⟨1, some 10, [pathPattern "a-0000-1111"], [1]⟩]

/-- A tenant without a rule. -/
def unroutedWorld : World := routedWorld (.single (runningTenant "a-0000" "i-1" 1)) []

theorem routed_run {w : World} {n : Nat} (h : (ctlOracle.alone elbOkCheck (rebuildRouting {} ⟨.given false, none⟩)
    (List.replicate n {}) w).any (fun x => x.2.1.answer.isSome) = true) :
    ∃ l report w', (rebuildRouting {} ⟨.given false, none⟩).Traces elbUp w l (.ok report) w' := by
  obtain ⟨⟨l, reply, w'⟩, hx, hP⟩ := (Option.any_eq_true _ _).1 h
  have ht := Oracle.alone_sound elbOkCheck_sound hx
  cases reply with
  | ok report => exact ⟨l, report, w', ht⟩
  | badRequest _ | notConfigured _ | upstream _ => cases hP

theorem shadowedWorld_free : (needyIds shadowedWorld shadowedWorld.named
    (shadowedWorld.tenants.rows.filter TenantFilter.routable.holds)).length ≤ (freePriorities {} shadowedWorld.rules).length := by
  decide +kernel

/-- **A rule of another tenant passes for the tenant's own**: the tenant is reported as created and has no rule. -/
theorem rebuild_shadowed : ∃ l report w', (rebuildRouting {} ⟨.given false, none⟩).Traces elbUp shadowedWorld l (.ok report) w' ∧
    ¬ RebuiltRight shadowedWorld l report w' := by
  obtain ⟨l, report, w', ht⟩ := @routed_run shadowedWorld 5 (by decide +kernel)
  refine ⟨l, report, w', ht, fun hright => ?_⟩
  have hreal := @rebuildListener_real {} shadowedWorld (RebuildRequest.modeOf ⟨.given false, none⟩) shadowedWorld_free
  obtain ⟨-, ts, -, hp, h⟩ := Prog.wpt_iff_traces.1 hreal _ _ _ ht report rfl
  have hg : shadowedWorld.TgsExist := by simp [World.TgsExist, shadowedWorld, routedWorld]
  obtain ⟨-, hun, -⟩ := (rebuiltRight_iff hg hp h).1 hright
  have hneedy : "a-0000" ∈ needyIds shadowedWorld shadowedWorld.named ts := by
    refine ((hp.filter _).map _).mem_iff.2 ?_
    decide +kernel
  have hfalse := hun "a-0000" hneedy ⟨1, some 10, [pathPattern "a-0000-1111"], [1]⟩ (by simp [shadowedWorld, routedWorld])
  have htrue : (⟨1, some 10, [pathPattern "a-0000-1111"], [1]⟩ : Rule).mentions "a-0000" = true := by decide +kernel
  rw [htrue] at hfalse
  cases hfalse

/-- A tenant without a rule gets one. -/
theorem rebuild_exact_unrouted : ∃ l report w', (rebuildRouting {} ⟨.given false, none⟩).Traces elbUp unroutedWorld l
    (.ok report) w' ∧ RebuiltRight unroutedWorld l report w' := by
  obtain ⟨l, report, w', ht⟩ := @routed_run unroutedWorld 7 (by decide +kernel)
  have hg : unroutedWorld.TgsExist := by simp [World.TgsExist, unroutedWorld, routedWorld]
  obtain ⟨⟨ts, -, hp, hiff⟩, -⟩ := rebuild_exact {} hg (by decide +kernel) ht
  refine ⟨l, report, w', ht, hiff.2 ⟨fun t _ _ hm => ?_, by simp [unroutedWorld, routedWorld], ?_⟩⟩
  · simp [World.named, routedTids, unroutedWorld, routedWorld] at hm
  · have hlen : ts.length = 1 := hp.length_eq.trans (by decide +kernel)
    obtain ⟨t, rfl⟩ := List.length_eq_one_iff.1 hlen
    unfold needyIds
    by_cases hn : Needy unroutedWorld unroutedWorld.named t <;> simp [hn]

end OpenClaw
