import OpenClaw.Control.Failover
import OpenClaw.Control.Scaler

/-!
# Which programs write which table

A call is `quiet` when it writes neither table nor the failover queue. Placement decisions, launches and everything on
the load balancer are made of quiet calls only, whatever the answers, so the tables are the same after them
(`step_quiet`, `wp_quiet`).
-/

namespace OpenClaw

open Keyed Atomic

def Call.writesTenants : Call → Bool
  | .putTenant _ | .updTenant _ _ | .condTenant _ _ _ => true
  | _ => false

def Call.writesHosts : Call → Bool
  | .putHost _ | .updHost _ _ | .reserveHost _ _ _ _ | .raiseNext _ _ | .incNext _ | .deleteHost _ => true
  | _ => false

def Call.writesQueue : Call → Bool
  | .sqsSend _ => true
  | _ => false

/-- The call changes the rules of the listener. -/
def Call.writesRules : Call → Bool
  | .createRule _ _ _ | .modifyRule _ _ | .deleteRule _ => true
  | _ => false

/-- The call writes neither table nor the queue. -/
def Call.quiet (c : Call) : Prop := c.writesTenants = false ∧ c.writesHosts = false ∧ c.writesQueue = false

/-- The call is about the load balancer. -/
def Call.routes (c : Call) : Prop :=
  match c with
  | .describeTg _ | .createTg _ | .registerTargets _ _ | .deleteTg _ | .describeRules | .createRule _ _ _
  | .modifyRule _ _ | .deleteRule _ | .choice _ => True
  | _ => False

/-- A call that reads, or is about the load balancer. -/
def Call.plain : Call → Prop
  | .genId _ | .putTenant _ | .updTenant _ _ | .condTenant _ _ _ | .putHost _ | .updHost _ _ | .reserveHost _ _ _ _
  | .raiseNext _ _ | .incNext _ | .deleteHost _ | .sqsSend _ | .ssmSend _ _ | .ssmRun _ _ => False
  | _ => True

theorem Call.plain.quiet {c : Call} (h : c.plain) : c.quiet := by
  cases c <;> first | exact ⟨rfl, rfl, rfl⟩ | exact False.elim h

theorem Call.routes.plain {c : Call} (h : c.routes) : c.plain := by
  cases c <;> trivial

theorem Call.routes.quiet {c : Call} (h : c.routes) : c.quiet := by
  cases c <;> first | exact ⟨rfl, rfl, rfl⟩ | exact False.elim h

/-- Everything one call can change: one row of a table, or one part of the rest. -/
inductive Effect
  | idle
  | putTenant (t : TenantRow)
  | putHost (h : HostRow)
  | eraseHost (id : HostId)
  | enqueue (j : FailoverJob)
  | addCmd (c : SsmCommand)
  | setRules (rs : List Rule)
  | setTgs (tgs : List TargetGroup)
  | setClock (t : Time)

def Effect.apply : Effect → World → World
  | .idle, w => w
  | .putTenant t, w => w.putTenant t
  | .putHost h, w => w.putHost h
  | .eraseHost id, w => w.eraseHost id
  | .enqueue j, w => w.enqueue j
  | .addCmd c, w => w.addCmd c
  | .setRules rs, w => w.setRules rs
  | .setTgs tgs, w => w.setTgs tgs
  | .setClock t, w => w.setClock t

/-- The effects on the tables and the queue that a call may have. -/
def Call.mayHave (c : Call) : Effect → Prop
  | .putTenant _ => c.writesTenants = true
  | .putHost _ | .eraseHost _ => c.writesHosts = true
  | .enqueue _ => c.writesQueue = true
  | _ => True

theorem sent_effect {c : Call} {r : Bool} {w w' : World} (e : Effect) (hm : c.mayHave e)
    (hs : sent r w (e.apply w) w') : ∃ e, c.mayHave e ∧ w' = e.apply w := by
  rcases hs.eq_or with h | h
  · exact ⟨e, hm, h⟩
  · exact ⟨.idle, trivial, h⟩

/-- **What a step can do.** -/
theorem step_effect {c : Call} {r : c.Ans} {w w' : World} (hs : World.step c r w w') :
    ∃ e : Effect, c.mayHave e ∧ w' = e.apply w := by
  cases c
  case updTenant id u =>
    obtain ⟨t, -, hs⟩ := hs
    exact sent_effect (.putTenant (u.apply t)) rfl hs
  case condTenant id _ u =>
    obtain ⟨t, -, hs⟩ := hs
    cases r with
    | done => exact ⟨.putTenant (u.apply t), rfl, hs.2⟩
    | refused => exact ⟨.idle, trivial, hs.2⟩
    | failed => exact ⟨.idle, trivial, hs⟩
  case updHost =>
    cases r with
    | none => exact ⟨.idle, trivial, hs⟩
    | some h => exact ⟨.putHost h, rfl, hs.2⟩
  case reserveHost =>
    cases r with
    | next =>
      obtain ⟨_, h', -, -, -, -, hw⟩ := hs
      exact ⟨.putHost h', rfl, hw⟩
    | refused => exact ⟨.idle, trivial, hs.2⟩
    | failed => exact ⟨.idle, trivial, hs⟩
  case raiseNext id n =>
    cases r with
    | done => exact ⟨.putHost _, rfl, hs.2⟩
    | refused => exact ⟨.idle, trivial, hs.2⟩
    | failed => exact ⟨.idle, trivial, hs⟩
  case incNext =>
    cases r with
    | none => exact ⟨.idle, trivial, hs⟩
    | some _ =>
      obtain ⟨-, h, -, hw⟩ := hs
      exact ⟨.putHost h, rfl, hw⟩
  case ssmSend =>
    cases r with
    | none => exact ⟨.idle, trivial, hs⟩
    | some _ =>
      obtain ⟨-, h, -, hw⟩ := hs
      exact ⟨.addCmd _, trivial, hw⟩
  case ssmRun =>
    rcases hs with ⟨-, hw⟩ | ⟨_, -, hw⟩
    · exact ⟨.idle, trivial, hw⟩
    · exact ⟨.addCmd _, trivial, hw⟩
  case createTg =>
    cases r with
    | none => exact ⟨.idle, trivial, hs⟩
    | some _ => exact ⟨.setTgs _, trivial, hs.2⟩
  case createRule =>
    cases r with
    | created =>
      obtain ⟨-, _, -, hw⟩ := hs
      exact ⟨.setRules _, trivial, hw⟩
    | priorityInUse => exact ⟨.idle, trivial, hs.2⟩
    | error => exact ⟨.idle, trivial, hs⟩
  case putTenant t => exact sent_effect (.putTenant t) rfl hs
  case putHost h => exact sent_effect (.putHost h) rfl hs
  case deleteHost id => exact sent_effect (.eraseHost id) rfl hs
  case sqsSend j => exact sent_effect (.enqueue j) rfl hs
  case registerTargets => exact sent_effect (.setTgs _) trivial hs
  case deleteTg => exact sent_effect (.setTgs _) trivial hs
  case modifyRule => exact sent_effect (.setRules _) trivial hs
  case deleteRule => exact sent_effect (.setRules _) trivial hs
  case now => exact ⟨.setClock r, trivial, hs.2⟩
  all_goals first | exact ⟨.idle, trivial, hs.2⟩ | exact ⟨.idle, trivial, hs⟩

section Frame

variable {c : Call} {r : c.Ans} {w w' : World}

theorem step_tenants (h : c.writesTenants = false) (hs : World.step c r w w') : w'.tenants = w.tenants := by
  obtain ⟨e, hm, rfl⟩ := step_effect hs
  cases e with
  | putTenant t => exact Bool.noConfusion (h.symm.trans hm)
  | _ => rfl

theorem step_hosts (h : c.writesHosts = false) (hs : World.step c r w w') : w'.hosts = w.hosts := by
  obtain ⟨e, hm, rfl⟩ := step_effect hs
  cases e with
  | putHost h' => exact Bool.noConfusion (h.symm.trans hm)
  | eraseHost id => exact Bool.noConfusion (h.symm.trans hm)
  | _ => rfl

theorem step_queue (h : c.writesQueue = false) (hs : World.step c r w w') : w'.queue = w.queue := by
  obtain ⟨e, hm, rfl⟩ := step_effect hs
  cases e with
  | enqueue j => exact Bool.noConfusion (h.symm.trans hm)
  | _ => rfl

theorem step_rules (h : c.writesRules = false) (hs : World.step c r w w') : w'.rules = w.rules := by
  cases c
  case createRule | modifyRule | deleteRule => cases h
  case updTenant =>
    obtain ⟨t, -, hs⟩ := hs
    rcases hs.eq_or with rfl | rfl <;> rfl
  case condTenant =>
    obtain ⟨t, -, hs⟩ := hs
    cases r with
    | done => rw [hs.2]; rfl
    | refused => rw [hs.2]
    | failed => rw [hs]
  case putTenant | putHost | deleteHost | sqsSend | registerTargets | deleteTg =>
    rcases sent.eq_or hs with rfl | rfl <;> rfl
  case updHost | createTg =>
    cases r with
    | none => rw [hs]
    | some _ => rw [hs.2]; rfl
  case incNext | ssmSend =>
    cases r with
    | none => rw [hs]
    | some _ =>
      obtain ⟨-, h, -, hs⟩ := hs
      rw [hs]
      rfl
  case reserveHost =>
    cases r with
    | next =>
      obtain ⟨_, _, -, -, -, -, hs⟩ := hs
      rw [hs]
      rfl
    | refused => rw [hs.2]
    | failed => rw [hs]
  case raiseNext =>
    cases r with
    | done => rw [hs.2]; rfl
    | refused => rw [hs.2]
    | failed => rw [hs]
  case ssmRun =>
    rcases hs with ⟨-, hs⟩ | ⟨_, -, hs⟩ <;> rw [hs]
    rfl
  case now =>
    rw [hs.2]
    rfl
  all_goals first | rw [hs.2] | rw [hs]

/-- Only a look at the clock moves it, and forward. -/
theorem step_clock (hs : World.step c r w w') : w.clock ≤ w'.clock := by
  cases c
  case now =>
    rw [hs.2]
    exact hs.1
  case updTenant =>
    obtain ⟨t, -, hs⟩ := hs
    rcases hs.eq_or with rfl | rfl <;> exact Int.le_refl _
  case condTenant =>
    obtain ⟨t, -, hs⟩ := hs
    cases r with
    | done => exact hs.2 ▸ Int.le_refl _
    | refused => exact hs.2 ▸ Int.le_refl _
    | failed => exact hs ▸ Int.le_refl _
  case putTenant | putHost | deleteHost | sqsSend | registerTargets | deleteTg | modifyRule | deleteRule =>
    rcases sent.eq_or hs with rfl | rfl <;> exact Int.le_refl _
  case updHost | createTg =>
    cases r with
    | none => exact hs ▸ Int.le_refl _
    | some _ => exact hs.2 ▸ Int.le_refl _
  case incNext | ssmSend =>
    cases r with
    | none => exact hs ▸ Int.le_refl _
    | some _ =>
      obtain ⟨-, h, -, rfl⟩ := hs
      exact Int.le_refl _
  case reserveHost =>
    cases r with
    | next =>
      obtain ⟨_, _, -, -, -, -, rfl⟩ := hs
      exact Int.le_refl _
    | refused => exact hs.2 ▸ Int.le_refl _
    | failed => exact hs ▸ Int.le_refl _
  case raiseNext =>
    cases r with
    | done => exact hs.2 ▸ Int.le_refl _
    | refused => exact hs.2 ▸ Int.le_refl _
    | failed => exact hs ▸ Int.le_refl _
  case createRule =>
    cases r with
    | created =>
      obtain ⟨-, _, -, rfl⟩ := hs
      exact Int.le_refl _
    | priorityInUse => exact hs.2 ▸ Int.le_refl _
    | error => exact hs ▸ Int.le_refl _
  case ssmRun =>
    rcases hs with ⟨-, rfl⟩ | ⟨_, -, rfl⟩ <;> exact Int.le_refl _
  all_goals first | exact hs.2 ▸ Int.le_refl _ | exact hs ▸ Int.le_refl _

/-- Accepted commands stay accepted. -/
theorem step_cmds (hs : World.step c r w w') : ∀ x ∈ w.cmds, x ∈ w'.cmds := by
  obtain ⟨e, -, rfl⟩ := step_effect hs
  cases e with
  | addCmd y => exact fun x hx => List.mem_append_left _ hx
  | _ => exact fun x hx => hx

/-- A quiet call leaves both tables as they are. -/
theorem step_quiet (h : c.quiet) (hs : World.step c r w w') : w'.tenants = w.tenants ∧ w'.hosts = w.hosts :=
  ⟨step_tenants h.1 hs, step_hosts h.2.1 hs⟩

end Frame

/-- The call writes no tenant row but that of `tid`. -/
def Call.onRow (tid : TenantId) : Call → Prop
  | .putTenant t => t.id = tid
  | .updTenant id _ | .condTenant id _ _ => id = tid
  | _ => True

theorem Call.quiet.onRow {c : Call} (h : c.quiet) (tid : TenantId) : c.onRow tid := by
  cases c <;> first | trivial | exact Bool.noConfusion h.1

/-- The other rows are as before. -/
theorem step_onRow {tid : TenantId} {c : Call} {r : c.Ans} {w w' : World} (h : c.onRow tid)
    (hs : World.step c r w w') {id : TenantId} (hne : id ≠ tid) : w'.tenants.get id = w.tenants.get id := by
  cases c
  case putTenant t =>
    rcases hs.eq_or with rfl | rfl
    · exact Table.get_put_ne _ (h ▸ hne)
    · rfl
  case updTenant id' u =>
    obtain ⟨t, ht, hs⟩ := hs
    rcases hs.eq_or with rfl | rfl
    · refine Table.get_put_ne _ ?_
      rwa [TenantUpdate.apply_id, Table.key_of_get ht, show id' = tid from h]
    · rfl
  case condTenant id' c u =>
    obtain ⟨t, ht, hs⟩ := hs
    cases r with
    | done =>
      obtain ⟨-, rfl⟩ := hs
      refine Table.get_put_ne _ ?_
      rwa [TenantUpdate.apply_id, Table.key_of_get ht, show id' = tid from h]
    | refused => rw [hs.2]
    | failed => rw [hs]
  all_goals rw [step_tenants rfl hs]

theorem wp_onRow {α : Type} {tid : TenantId} {p : CtlProg α} (hp : p.All (Call.onRow tid)) {w : World} :
    p.wp ctl (fun _ w' => ∀ id, id ≠ tid → w'.tenants.get id = w.tenants.get id) w := by
  have hstep : ∀ (c : Ctl.Call) (r : Ctl.Ans c) (w₁ w₂ : World), Call.onRow tid c →
      (∀ id, id ≠ tid → w₁.tenants.get id = w.tenants.get id) → ctl.step c r w₁ w₂ →
      ∀ id, id ≠ tid → w₂.tenants.get id = w.tenants.get id := by
    intro c r w₁ w₂ hc hI hs id hne
    rw [step_onRow hc hs hne, hI id hne]
  exact Prog.All.wp_frame hstep hp fun _ _ => rfl

/-- Quiet programs leave both tables as they are. -/
theorem wp_quiet {α : Type} {p : CtlProg α} (hp : p.All Call.quiet) {w : World} :
    p.wp ctl (fun _ w' => w'.tenants = w.tenants ∧ w'.hosts = w.hosts) w := by
  have hstep : ∀ (c : Ctl.Call) (r : Ctl.Ans c) (w₁ w₂ : World), Call.quiet c →
      (w₁.tenants = w.tenants ∧ w₁.hosts = w.hosts) → ctl.step c r w₁ w₂ →
      w₂.tenants = w.tenants ∧ w₂.hosts = w.hosts := by
    intro c r w₁ w₂ hc hI hs
    have h := step_quiet hc hs
    exact ⟨h.1.trans hI.1, h.2.trans hI.2⟩
  exact Prog.All.wp_frame hstep hp ⟨rfl, rfl⟩

/-- The call changes tenant rows by updates of `P` only. -/
def Call.updatesBy (P : TenantUpdate → Prop) : Call → Prop
  | .putTenant _ => False
  | .updTenant _ x | .condTenant _ _ x => P x
  | _ => True

/-- Every row of `u` is still there, and related to what it was. -/
def RowsRelated (R : TenantRow → TenantRow → Prop) (u w : World) : Prop :=
  ∀ id t, u.tenants.get id = some t → ∃ t', w.tenants.get id = some t' ∧ R t t'

/-- What the updates of `P` keep of a row, a call that updates by `P` keeps of all rows. -/
theorem RowsRelated.step {R : TenantRow → TenantRow → Prop} {P : TenantUpdate → Prop}
    (hR : ∀ x t t', P x → R t t' → R t (x.apply t')) {c : Call} {r : c.Ans} {u w w' : World} (hc : c.updatesBy P)
    (h : RowsRelated R u w) (hs : World.step c r w w') : RowsRelated R u w' := by
  have hput : ∀ {id : TenantId} {x : TenantUpdate} {t₀ : TenantRow}, P x → w.tenants.get id = some t₀ →
      RowsRelated R u (w.putTenant (x.apply t₀)) := by
    intro id x t₀ hx ht₀ id' t hg
    obtain ⟨t', hg', hr⟩ := h id' t hg
    have hkey : (x.apply t₀).id = id := by rw [TenantUpdate.apply_id, Table.key_of_get ht₀]
    by_cases he : id' = id
    · subst he
      obtain rfl : t₀ = t' := Option.some.inj (ht₀.symm.trans hg')
      refine ⟨x.apply t₀, ?_, hR x t t₀ hx hr⟩
      rw [World.putTenant_tenants]
      exact hkey ▸ Table.get_put_self _ _
    · refine ⟨t', ?_, hr⟩
      rw [World.putTenant_tenants, Table.get_put_ne _ (by rwa [hkey]), hg']
  by_cases ht : c.writesTenants = false
  · have := step_tenants ht hs
    rwa [RowsRelated, this]
  · cases c <;> first | exact absurd rfl ht | exact hc.elim | skip
    case updTenant id x =>
      obtain ⟨t₀, ht₀, hs⟩ := hs
      rcases sent.eq_or hs with rfl | rfl
      · exact hput hc ht₀
      · exact h
    case condTenant id cond x =>
      obtain ⟨t₀, ht₀, hs⟩ := hs
      cases r with
      | done => exact hs.2 ▸ hput hc ht₀
      | refused => exact hs.2 ▸ h
      | failed => exact hs ▸ h

/-! ## Loops over scanned rows -/

/-- The rows still to be handled are as they were scanned. -/
structure Unhandled (w : World) (P : TenantRow → Prop) (ts : List TenantRow) : Prop where
  rows : ∀ t ∈ ts, w.tenants.get t.id = some t ∧ P t
  nodup : (ts.map TenantRow.id).Nodup

theorem Unhandled.of_scan {w : World} {r : List TenantRow} {F : TenantFilter} {P : TenantRow → Prop}
    (h : r.Perm (w.tenants.rows.filter F.holds)) (hP : ∀ t, F.holds t = true → P t) : Unhandled w P r := by
  refine ⟨fun t ht => ?_, ?_⟩
  · obtain ⟨hm, hf⟩ := List.mem_filter.1 (h.mem_iff.1 ht)
    exact ⟨Table.get_of_mem hm, hP t hf⟩
  · exact (h.map _).nodup_iff.2 (w.tenants.nodup.sublist (List.filter_sublist.map _))

theorem Unhandled.tail {w w' : World} {P : TenantRow → Prop} {t : TenantRow} {ts : List TenantRow}
    (h : Unhandled w P (t :: ts)) (hw : ∀ id, id ≠ t.id → w'.tenants.get id = w.tenants.get id) : Unhandled w' P ts := by
  have hn := List.nodup_cons.1 h.nodup
  refine ⟨fun t' ht' => ?_, hn.2⟩
  have hne : t'.id ≠ t.id := fun e => hn.1 (e ▸ List.mem_map_of_mem ht')
  rw [hw _ hne]
  exact h.rows t' (List.mem_cons_of_mem _ ht')

/-- The rows of two groups; the second is untouched while the first is handled. -/
theorem Unhandled.split {w : World} {P : TenantRow → Prop} {ts ts' : List TenantRow} (h : Unhandled w P (ts ++ ts')) :
    Unhandled w P ts ∧ ∀ {w' : World}, (∀ id, id ∉ ts.map TenantRow.id → w'.tenants.get id = w.tenants.get id) →
      Unhandled w' P ts' := by
  have hn := h.nodup
  rw [List.map_append, List.nodup_append] at hn
  refine ⟨⟨fun t ht => h.rows t (List.mem_append_left _ ht), hn.1⟩, fun hw => ⟨fun t ht => ?_, hn.2.1⟩⟩
  rw [hw t.id fun hm => hn.2.2 _ hm _ (List.mem_map_of_mem ht) rfl]
  exact h.rows t (List.mem_append_right _ ht)

section Programs

variable (cfg : Config)

theorem createRuleAttempt_routes (tid : TenantId) (tg : TgArn) : (createRuleAttempt cfg tid tg).All Call.routes := by
  simp only [createRuleAttempt, req_bind, Prog.pure_eq]
  refine ⟨trivial, fun rules => ?_⟩
  cases rules with
  | none => trivial
  | some rules =>
    simp only
    split
    · trivial
    split
    · trivial
    refine ⟨trivial, fun p => ⟨trivial, fun r => ?_⟩⟩
    cases r <;> trivial

theorem addRuleLoop_routes (tid : TenantId) (tg : TgArn) (n : Nat) : (addRuleLoop cfg tid tg n).All Call.routes := by
  induction n with
  | zero => trivial
  | succ n ih =>
    refine (createRuleAttempt_routes cfg tid tg).bind fun r => ?_
    rcases r with _ | _ | _
    · trivial
    · exact ih
    · trivial

theorem repointLoop_routes (tid : TenantId) (tg : TgArn) (n : Nat) : (repointLoop cfg tid tg n).All Call.routes := by
  induction n with
  | zero => trivial
  | succ n ih =>
    refine (createRuleAttempt_routes cfg tid tg).bind fun r => ?_
    rcases r with _ | _ | _
    · trivial
    · exact ih
    · trivial

theorem addAlbRule_routes (tid : TenantId) (tg : Option TgArn) : (addAlbRule cfg tid tg).All Call.routes := by
  unfold addAlbRule
  split
  · trivial
  split
  · trivial
  cases tg with
  | none => trivial
  | some tg => exact addRuleLoop_routes cfg tid tg 6

theorem ensureHostTg_routes (host : HostId) (ip : String) : (ensureHostTg cfg host ip).All Call.routes := by
  simp only [ensureHostTg, req_bind, Prog.pure_eq]
  split
  · trivial
  refine ⟨trivial, fun found => ?_⟩
  cases found with
  | some a => trivial
  | none =>
    refine ⟨trivial, fun made => ?_⟩
    cases made with
    | none => trivial
    | some a => exact ⟨trivial, fun _ => trivial⟩

theorem routeTenant_routes (host : HostRow) (tid : TenantId) : (routeTenant cfg host tid).All Call.routes := by
  unfold routeTenant
  cases host.privateIp with
  | none => trivial
  | some ip =>
    refine (ensureHostTg_routes cfg _ _).bind fun tg => ?_
    cases tg with
    | none => trivial
    | some tg => exact addAlbRule_routes cfg tid tg

theorem removeAlbRule_routes (tid : TenantId) : (removeAlbRule cfg tid).All Call.routes := by
  simp only [removeAlbRule, req_bind, Prog.pure_eq]
  split
  · trivial
  split
  · trivial
  refine ⟨trivial, fun rules => ?_⟩
  cases rules with
  | none => trivial
  | some rules =>
    simp only
    cases rules.find? fun r => r.pathIs tid with
    | none => trivial
    | some r => exact Prog.all_lift trivial

theorem deleteRules_routes (rs : List Rule) : (deleteRules rs).All Call.routes := by
  induction rs with
  | nil => trivial
  | cons r rs ih =>
    simp only [deleteRules, req_bind, Prog.pure_eq]
    refine ⟨trivial, fun ok => ?_⟩
    cases ok with
    | true => exact ih
    | false => trivial

theorem removeHostTg_routes (host : HostId) : (removeHostTg cfg host).All Call.routes := by
  simp only [removeHostTg, req_bind, Prog.pure_eq]
  refine ⟨trivial, fun tg => ?_⟩
  cases tg with
  | none => trivial
  | some a =>
    simp only
    split
    · exact ⟨trivial, fun _ => trivial⟩
    refine ⟨trivial, fun rules => ?_⟩
    cases rules with
    | none => trivial
    | some rules =>
      refine (deleteRules_routes _).bind fun ok => ?_
      cases ok with
      | true => exact ⟨trivial, fun _ => trivial⟩
      | false => trivial

theorem targetTg_routes (host : HostId) : (targetTg host).All Call.routes := by
  simp only [targetTg, req_bind, Prog.pure_eq]
  refine ⟨trivial, fun found => ?_⟩
  cases found with
  | some a => trivial
  | none => exact Prog.all_lift trivial

theorem repointAlbRule_routes (tid : TenantId) (host : HostId) (ip : String) :
    (repointAlbRule cfg tid host ip).All Call.routes := by
  simp only [repointAlbRule, req_bind, Prog.pure_eq]
  split
  · trivial
  split
  · trivial
  refine (targetTg_routes host).bind fun tg => ?_
  cases tg with
  | none => trivial
  | some tg =>
    refine ⟨trivial, fun _ => ⟨trivial, fun rules => ?_⟩⟩
    cases rules with
    | none => trivial
    | some rules =>
      simp only
      cases rules.find? fun r => r.pathMentions tid with
      | none => exact repointLoop_routes cfg tid tg 6
      | some r => exact Prog.all_lift trivial

theorem quiet_of_routes {α : Type} {p : CtlProg α} (hp : p.All Call.routes) : p.All Call.quiet :=
  hp.mono fun _ h => h.quiet

theorem routeTenant_quiet (host : HostRow) (tid : TenantId) : (routeTenant cfg host tid).All Call.quiet :=
  quiet_of_routes (routeTenant_routes cfg host tid)

theorem removeAlbRule_quiet (tid : TenantId) : (removeAlbRule cfg tid).All Call.quiet :=
  quiet_of_routes (removeAlbRule_routes cfg tid)

theorem removeHostTg_quiet (host : HostId) : (removeHostTg cfg host).All Call.quiet :=
  quiet_of_routes (removeHostTg_routes cfg host)

theorem repointAlbRule_quiet (tid : TenantId) (host : HostId) (ip : String) :
    (repointAlbRule cfg tid host ip).All Call.quiet := quiet_of_routes (repointAlbRule_routes cfg tid host ip)

/-- The source of a clone, exactly when the request names one. -/
theorem cloneSource_plain (r : CreateRequest) : (cloneSource r).Gives Call.plain fun b =>
    Refuses b ∧ ∀ src, b = .inr src → src.isSome = r.cloneFrom.isSome := by
  unfold cloneSource
  split
  · rename_i hr
    refine ⟨refuses_inr _, fun src he => ?_⟩
    cases he
    rw [hr]
    rfl
  · rename_i id hr
    have hnone : ∀ {code : Resp} {src : Option TenantRow}, (.inl code : Resp ⊕ Option TenantRow) = .inr src →
        src.isSome = r.cloneFrom.isSome := by
      intro code src he
      cases he
    refine ⟨trivial, fun row => ?_⟩
    cases row with
    | none => exact ⟨refuses_inl (by decide), fun src => hnone⟩
    | some s =>
      show Refuses (if s.status = .running then _ else _) ∧ ∀ src, (if s.status = .running then _ else _) = _ → _
      split
      · refine ⟨refuses_inr _, fun src he => ?_⟩
        cases he
        rw [hr]
        rfl
      · exact ⟨refuses_inl (by decide), fun src => hnone⟩

theorem restoreKeyOf_plain (r : CreateRequest) : (restoreKeyOf r).Gives Call.plain Refuses := by
  unfold restoreKeyOf
  split
  · exact refuses_inr _
  · split
    · exact refuses_inl (by decide)
    · refine ⟨trivial, fun key => ?_⟩
      cases key with
      | none => exact refuses_inl (by decide)
      | some key => exact refuses_inr _

theorem getSpecificHostWithCapacity_plain (id : HostId) (v m : Int) :
    (getSpecificHostWithCapacity cfg id v m).All Call.plain := by
  refine ⟨trivial, fun item => ?_⟩
  cases item with
  | none => trivial
  | some h =>
    show Prog.All _ (if _ then _ else _)
    split <;> trivial

theorem pickHostsForCreate_plain (v m : Int) : (pickHostsForCreate cfg v m).All Call.plain := by
  refine Prog.All.bind ⟨trivial, fun _ => trivial⟩ fun ranked => ?_
  show Prog.All _ (if _ then _ else _)
  split
  · trivial
  · exact ⟨trivial, fun _ => trivial⟩

theorem candidateHosts_plain (r : CreateRequest) (src : Option TenantRow) : (candidateHosts cfg r src).Gives Call.plain Refuses := by
  unfold candidateHosts
  split
  · split
    · exact refuses_inl (by decide)
    · refine (getSpecificHostWithCapacity_plain cfg _ _ _).gives.bind fun host _ => ?_
      cases host with
      | none => exact refuses_inl (by decide)
      | some host => exact refuses_inr _
  · split
    · refine (getSpecificHostWithCapacity_plain cfg _ _ _).gives.bind fun host _ => ?_
      cases host with
      | some host => exact refuses_inr _
      | none =>
        refine ⟨trivial, fun existing => ?_⟩
        cases existing with
        | none => exact refuses_inl (by decide)
        | some e =>
          refine refuses_inl ?_
          split <;> decide
    · exact (pickHostsForCreate_plain cfg _ _).gives.bind fun hosts _ => refuses_inr _

theorem resolveEffectiveSkills_plain (t : TenantRow) : (resolveEffectiveSkills t).All Call.plain := by
  unfold resolveEffectiveSkills
  split <;> first | trivial | exact ⟨trivial, fun _ => trivial⟩

theorem routeTenant_plain (host : HostRow) (tid : TenantId) : (routeTenant cfg host tid).All Call.plain :=
  (routeTenant_routes cfg host tid).mono fun _ h => h.plain

theorem resolveEffectiveSkills_quiet (t : TenantRow) : (resolveEffectiveSkills t).All Call.quiet :=
  (resolveEffectiveSkills_plain t).mono fun _ h => h.quiet

theorem launchVm_quiet (host : HostId) (tid : TenantId) (vmNum vcpu memMb : Int) (ip : String) (port : Int)
    (tpl key : String) (skills : List String) :
    (launchVm host tid vmNum vcpu memMb ip port tpl key skills).All Call.quiet := ⟨⟨rfl, rfl, rfl⟩, fun _ => trivial⟩

theorem launchCreated_quiet (r : CreateRequest) (row : TenantRow) (host : HostRow) (vmNum : Int) :
    (launchCreated cfg r row host vmNum).All Call.quiet :=
  (resolveEffectiveSkills_quiet row).bind fun _ => (launchVm_quiet ..).bind fun _ =>
    (routeTenant_quiet cfg host _).bind fun _ => trivial

theorem findHost_quiet (vcpu mem : Int) : (findHost cfg vcpu mem).All Call.quiet := ⟨⟨rfl, rfl, rfl⟩, fun _ => trivial⟩

theorem candidateHosts_quiet (r : CreateRequest) (src : Option TenantRow) :
    (candidateHosts cfg r src).All Call.quiet := (candidateHosts_plain cfg r src).all.mono fun _ h => h.quiet

theorem cloneSource_quiet (r : CreateRequest) : (cloneSource r).All Call.quiet :=
  (cloneSource_plain r).all.mono fun _ h => h.quiet

theorem restoreKeyOf_quiet (r : CreateRequest) : (restoreKeyOf r).All Call.quiet :=
  (restoreKeyOf_plain r).all.mono fun _ h => h.quiet

theorem latestBackupKey_quiet (tid : TenantId) : (latestBackupKey cfg tid).All Call.quiet := by
  simp only [latestBackupKey, req_bind, Prog.pure_eq]
  split
  · trivial
  exact ⟨⟨rfl, rfl, rfl⟩, fun _ => trivial⟩

/-! ## Programs for one tenant -/

theorem onRow_of_quiet {α : Type} {p : CtlProg α} (hp : p.All Call.quiet) (tid : TenantId) :
    p.All (Call.onRow tid) := hp.mono fun _ h => h.onRow tid

theorem assignPending_onRow (t : TenantRow) : (assignPending cfg t).All (Call.onRow t.id) := by
  refine (onRow_of_quiet (findHost_quiet cfg _ _) _).bind fun host => ?_
  cases host with
  | none => trivial
  | some host =>
    simp only [req_bind, Prog.pure_eq]
    refine ⟨trivial, fun now => ⟨rfl, fun ok => ?_⟩⟩
    cases ok with
    | false => trivial
    | true =>
      refine ⟨trivial, fun h => ?_⟩
      cases h with
      | none => trivial
      | some _ =>
        refine (onRow_of_quiet (resolveEffectiveSkills_quiet _) _).bind fun _ =>
          (onRow_of_quiet (launchVm_quiet ..) _).bind fun _ => (onRow_of_quiet (routeTenant_quiet cfg _ _) _).bind
          fun ok => ?_
        cases ok <;> trivial

theorem rollbackMigration_onRow (t : TenantRow) (reason : String) :
    (rollbackMigration t reason).All (Call.onRow t.id) := by
  simp only [rollbackMigration, req_bind]
  split
  · split
    · exact ⟨trivial, fun _ => Prog.all_lift rfl⟩
    · exact ⟨trivial, fun _ => ⟨trivial, fun _ => Prog.all_lift rfl⟩⟩
  · exact ⟨trivial, fun _ => Prog.all_lift rfl⟩

theorem rollbackMigration_then_onRow (t : TenantRow) (reason : String) :
    (rollbackMigration t reason >>= fun _ => (.ret () : CtlProg Unit)).All (Call.onRow t.id) :=
  (rollbackMigration_onRow t reason).bind fun _ => trivial

theorem bumpTargetCounters_onRow (tid : TenantId) (target : HostId) (n v m : Int) :
    (bumpTargetCounters target n v m).All (Call.onRow tid) := ⟨trivial, fun _ => ⟨trivial, fun _ => trivial⟩⟩

theorem completeMove_onRow (t : TenantRow) (target : HostId) : (completeMove t target).All (Call.onRow t.id) := by
  simp only [completeMove, req_bind, Prog.pure_eq]
  refine ⟨trivial, fun now => ⟨rfl, fun ok => ?_⟩⟩
  cases ok with
  | false => trivial
  | true =>
    simp only
    cases t.migrationSource with
    | none => exact bumpTargetCounters_onRow ..
    | some src => exact ⟨trivial, fun _ => (bumpTargetCounters_onRow ..).bind fun _ => ⟨trivial, fun _ => trivial⟩⟩

theorem verifyAndMove_onRow (t : TenantRow) (target : HostId) :
    (verifyAndMove cfg t target).All (Call.onRow t.id) := by
  simp only [verifyAndMove, req_bind, Prog.pure_eq]
  split
  · refine ⟨trivial, fun ok => ?_⟩
    cases ok with
    | true => exact completeMove_onRow t target
    | false => exact rollbackMigration_then_onRow t _
  · exact completeMove_onRow t target

theorem advanceSnapshot_onRow (t : TenantRow) : (advanceSnapshot t).All (Call.onRow t.id) := by
  simp only [advanceSnapshot, req_bind, Prog.pure_eq]
  split
  · exact rollbackMigration_then_onRow t _
  · refine ⟨trivial, fun r => ?_⟩
    obtain ⟨done, ok⟩ := r
    cases done with
    | false => trivial
    | true =>
      cases ok with
      | false => exact rollbackMigration_then_onRow t _
      | true =>
        refine ⟨trivial, fun cmd => ?_⟩
        cases cmd with
        | none => exact rollbackMigration_then_onRow t _
        | some cmd => exact ⟨trivial, fun _ => ⟨rfl, fun _ => trivial⟩⟩

theorem advanceRestore_onRow (t : TenantRow) : (advanceRestore cfg t).All (Call.onRow t.id) := by
  simp only [advanceRestore, req_bind, Prog.pure_eq]
  split
  · exact rollbackMigration_then_onRow t _
  · refine ⟨trivial, fun r => ?_⟩
    obtain ⟨done, ok⟩ := r
    cases done with
    | false => trivial
    | true =>
      cases ok with
      | false => exact rollbackMigration_then_onRow t _
      | true =>
        simp only
        cases t.migrationTarget with
        | none => trivial
        | some target =>
          refine ⟨trivial, fun host => ?_⟩
          beta_reduce
          split
          · exact ⟨trivial, fun _ => verifyAndMove_onRow cfg t _⟩
          split
          · refine (rollbackMigration_onRow t _).bind fun ok => ?_
            cases ok with
            | true => trivial
            | false => exact rollbackMigration_then_onRow t _
          · refine (onRow_of_quiet (repointAlbRule_quiet cfg _ _ _) _).bind fun ok => ?_
            cases ok with
            | true => exact verifyAndMove_onRow cfg t _
            | false => exact rollbackMigration_then_onRow t _

theorem advancePhase_onRow (t : TenantRow) (phase : MigrationPhase) :
    (advancePhase cfg t phase).All (Call.onRow t.id) := by
  cases phase with
  | snapshot => exact advanceSnapshot_onRow t
  | restore => exact advanceRestore_onRow cfg t
  | other p => exact rollbackMigration_then_onRow t _

/-- One migration's step in a tick writes no other tenant's row. -/
theorem advanceMigration_onRow (t : TenantRow) (now : Time) :
    (advanceMigration cfg t now).All (Call.onRow t.id) := by
  unfold advanceMigration
  split
  · trivial
  · split
    · refine (rollbackMigration_onRow t _).bind fun ok => ?_
      cases ok with
      | true => trivial
      | false => exact advancePhase_onRow cfg t _
    · exact advancePhase_onRow cfg t _

end Programs

end OpenClaw
