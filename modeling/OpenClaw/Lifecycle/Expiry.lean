import OpenClaw.Control.Execute
import OpenClaw.Routing.Identity

/-!
# Deletion by the API and by expiry

`delete_tenant` and the scaler's expiry both end a tenant, in two Lambdas. What a deletion has to achieve is one record
(`Deletes`); the API achieves all of it, and the expiry only writes the status.

- `deleteTenant_deletes`: every deletion the API answers with 200.
- `processTtl_row`: what an expiry tick leaves of an expired row, of the rules and of the hosts.
- `ttl_deletion`: the expiry deletes like the API exactly when there is no host and no rule.
-/

namespace OpenClaw

open Keyed Atomic

variable (cfg : Config)

/-! ## What a deletion achieves -/

/-- The booking of the tenant is off the counters of its host. -/
def Released (t : TenantRow) (h : HostId) (w w' : World) : Prop :=
  ∃ x x', (HostUpdate.release t.vcpu t.memMb).apply (w.hostRow h) = some x ∧ w'.hosts.get h = some x' ∧
    x'.usedVcpu = x.usedVcpu ∧ x'.usedMemMb = x.usedMemMb ∧ x'.vmCount = x.vmCount

/-- The run with the calls `l` deleted the tenant. -/
structure Deletes (t : TenantRow) (w : World) (l : CallLog) (w' : World) : Prop where
  /-- The VM is stopped, and its `vm.json` removed. -/
  stopped : ∀ h, t.hostId = some h → (h, .stopVm t.id (t.vmNum.getD 1)) ∈ vmCommands l ∧
    (h, .removeVmJson t.id) ∈ vmCommands l
  /-- Its routing rule is gone. -/
  unrouted : cfg.perTenant = true → (∃ r ∈ w.rules, r.pathIs t.id = true) →
    ∃ r ∈ w.rules, r.pathIs t.id = true ∧ ∀ x ∈ w'.rules, x.arn ≠ r.arn
  released : ∀ h, t.hostId = some h → Released t h w w'
  deleted : ∃ t', w'.tenants.get t.id = some t' ∧ t'.status = .deleted

/-! ## The API -/

section Api

variable {cfg} {t : TenantRow} {w : World} {host : HostId}

theorem releaseDeleted_released : (releaseDeleted t host).wp durable (fun ok w' =>
    ok = true → Released t host w w' ∧ w'.tenants = w.tenants ∧ w'.rules = w.rules) w := by
  simp only [releaseDeleted, req_bind, Prog.pure_eq]
  rintro r w₁ ⟨hw, hs⟩
  obtain ⟨x, rfl⟩ : ∃ x, r = some x := Option.isSome_iff_exists.1 hw
  obtain ⟨hx, rfl⟩ := hs
  have hid : x.instanceId = host := (HostUpdate.apply_id hx).trans (w.hostRow_id host)
  have hget : (w.putHost x).hosts.get host = some x := hid ▸ Table.get_put_self _ _
  dsimp only
  split
  · rintro now w₂ ⟨-, -, rfl⟩ r w₃ ⟨hw, hs⟩
    obtain ⟨x', rfl⟩ : ∃ x, r = some x := Option.isSome_iff_exists.1 hw
    obtain ⟨hx', rfl⟩ := hs
    have hrow : ((w.putHost x).setClock now).hostRow host = x := by
      unfold World.hostRow HostRow.orNew
      rw [World.setClock_hosts, hget]
      rfl
    obtain rfl : { x with idleSince := some now } = x' := by
      rw [World.updatedHost, hrow] at hx'
      exact Option.some.inj hx'
    intro _
    refine ⟨⟨x, { x with idleSince := some now }, hx, ?_, rfl, rfl, rfl⟩, rfl, rfl⟩
    exact hid ▸ Table.get_put_self _ _
  · intro _
    exact ⟨⟨x, x, hx, hget, rfl, rfl, rfl⟩, rfl, rfl⟩

/-- The rule that is found is deleted. -/
theorem removeAlbRule_unroutes (tid : TenantId) : (removeAlbRule cfg tid).wp durable (fun ok w' => ok = true →
    w'.tenants = w.tenants ∧ w'.hosts = w.hosts ∧ (cfg.perTenant = true → (∃ r ∈ w.rules, r.pathIs tid = true) →
      ∃ r ∈ w.rules, r.pathIs tid = true ∧ ∀ x ∈ w'.rules, x.arn ≠ r.arn)) w := by
  simp only [removeAlbRule, req_bind, Prog.pure_eq, routing_gate]
  split
  · rintro rules w₁ ⟨-, hp, rfl⟩
    cases rules with
    | none =>
      intro he
      cases he
    | some rules =>
      have hp : rules.Perm w₁.rules := hp rules rfl
      dsimp only
      cases hf : rules.find? fun r => r.pathIs tid with
      | none =>
        intro _
        refine ⟨rfl, rfl, fun _ hex => ?_⟩
        obtain ⟨r, hr, hpath⟩ := hex
        exact absurd hpath (List.find?_eq_none.1 hf r (hp.mem_iff.2 hr))
      | some r =>
        rintro ok w₂ ⟨-, hs⟩ rfl
        obtain rfl : w₂ = w₁.setRules (w₁.rules.filter fun x => x.arn ≠ r.arn) := hs
        refine ⟨rfl, rfl, fun _ _ => ⟨r, hp.mem_iff.1 (List.mem_of_find?_eq_some hf), by simpa using List.find?_some hf, fun x hx => ?_⟩⟩
        simpa using (List.mem_filter.1 hx).2
  · rename_i hmode
    intro _
    exact ⟨rfl, rfl, fun h => absurd h hmode⟩

theorem ssmRun_step {α : Type} {Q : CallLog → α → World → Prop} {cmd : HostCmd} {k : Bool → CtlProg α}
    (hk : ∀ r w', SameTables w' w → w'.rules = w.rules →
      (k r).wpt durable (fun l => Q (⟨.ssmRun host cmd, r⟩ :: l)) w') :
    (@Prog.call Ctl α (.ssmRun host cmd) k).wpt durable Q w := by
  rintro r w' ⟨-, hs⟩
  have hs : World.step (.ssmRun host cmd) r w w' := hs
  exact hk r w' (step_quiet ⟨rfl, rfl, rfl⟩ hs) (step_rules rfl hs)

/-- **Every deletion the API answers with 200 is complete.** -/
theorem deleteTenant_deletes (hg : w.tenants.get t.id = some t) (hs : t.status ≠ .deleted) :
    (deleteTenant cfg t.id true).wpt durable (fun l code w' => code = 200 → Deletes cfg t w l w') w := by
  -- The last write, after the calls that `f` puts before it.
  have hmark : ∀ {f : CallLog → CallLog} {u : World}, u.tenants = w.tenants →
      (∀ l h, t.hostId = some h → (h, .stopVm t.id (t.vmNum.getD 1)) ∈ vmCommands (f l) ∧
        (h, .removeVmJson t.id) ∈ vmCommands (f l)) →
      (cfg.perTenant = true → (∃ r ∈ w.rules, r.pathIs t.id = true) →
        ∃ r ∈ w.rules, r.pathIs t.id = true ∧ ∀ x ∈ u.rules, x.arn ≠ r.arn) →
      (∀ h, t.hostId = some h → Released t h w u) →
      (markDeleted t.id).wpt durable (fun l code w' => code = 200 → Deletes cfg t w (f l) w') u := by
    intro f u htenants hstop hroute hrel
    refine updTenant_step (htenants ▸ hg) ?_
    intro _
    refine ⟨fun h hh => hstop _ h hh, hroute, fun h hh => ?_, ⟨(TenantUpdate.status .deleted).apply t, ?_, rfl⟩⟩
    · exact hrel h hh
    · rw [World.putTenant_tenants]
      exact Table.get_put_self _ _
  simp only [deleteTenant, req_bind, Prog.pure_eq]
  rintro item w₁ ⟨-, rfl, rfl⟩
  rw [hg]
  dsimp only
  rw [if_neg hs]
  cases hh : t.hostId with
  | none =>
    dsimp only
    refine (Prog.wpt_bind ..).2 (Prog.wpt_mono ?_ (Prog.wpt_of_wp (@removeAlbRule_unroutes cfg w₁ t.id)))
    intro l ok u hrem
    cases ok with
    | false =>
      intro he
      cases he
    | true =>
      obtain ⟨htenants, -, hroute⟩ := hrem rfl
      refine hmark htenants (fun l' h he => ?_) hroute fun h he => ?_ <;>
      · rw [hh] at he
        cases he
  | some h =>
    dsimp only
    refine ssmRun_step fun r₁ u₁ hs₁ hr₁ => ssmRun_step fun r₂ u₂ hs₂ hr₂ => ?_
    have hsame := hs₂.trans hs₁
    refine (Prog.wpt_bind ..).2 (Prog.wpt_mono ?_ (Prog.wpt_of_wp (@removeAlbRule_unroutes cfg u₂ t.id)))
    intro l₁ ok u₃ hrem
    cases ok with
    | false =>
      intro he
      cases he
    | true =>
      obtain ⟨ht₃, hh₃, hroute⟩ := hrem rfl
      simp only [if_true]
      refine ssmRun_step fun r₃ u₄ hs₄ hr₄ => ?_
      refine (Prog.wpt_bind ..).2 (Prog.wpt_mono ?_ (Prog.wpt_of_wp (@releaseDeleted_released t u₄ h)))
      intro l₂ ok u₅ hrel
      cases ok with
      | false =>
        intro he
        cases he
      | true =>
        obtain ⟨hrel, ht₅, hr₅⟩ := hrel rfl
        refine hmark (ht₅.trans (hs₄.1.trans (ht₃.trans hsame.1))) (fun l h' he => ?_) ?_ fun h' he => ?_
        · obtain rfl := Option.some.inj (hh.symm.trans he)
          exact ⟨List.mem_cons_self, List.mem_cons_of_mem _ List.mem_cons_self⟩
        · rw [← hr₁, ← hr₂, hr₅, hr₄]
          exact hroute
        · obtain rfl := Option.some.inj (hh.symm.trans he)
          have hrow : u₄.hostRow h = w₁.hostRow h := by
            rw [World.hostRow, hs₄.2, hh₃, hsame.2, World.hostRow]
          obtain ⟨x, x', hx, hrest⟩ := hrel
          exact ⟨x, x', hrow ▸ hx, hrest⟩

end Api

/-! ## The expiry -/

/-- The row the scan found is to be deleted at `now`. -/
structure ToDelete (t : TenantRow) (now : Time) : Prop where
  running : t.status ≠ .stopped ∧ t.status ≠ .deleted ∧ t.status ≠ .failed
  expired : ∃ e, t.expiresAt = some e ∧ e ≤ now
  action : t.onExpiry = some .delete

section Expiry

variable {t : TenantRow} {w : World} {now : Time}

/-- An expiry tick changes neither rules nor hosts, and of a row to be deleted only the status. -/
theorem expireAll_row (ts : List TenantRow) (h : Unhandled w (fun _ => True) ts) : (expireAll now ts).wp durable
    (fun _ w' => (w'.hosts = w.hosts ∧ w'.rules = w.rules) ∧
      (∀ id, id ∉ ts.map TenantRow.id → w'.tenants.get id = w.tenants.get id) ∧
      ∀ t ∈ ts, ToDelete t now → w'.tenants.get t.id = some ((TenantUpdate.status .deleted).apply t)) w := by
  induction ts generalizing w with
  | nil => exact ⟨⟨rfl, rfl⟩, fun _ _ => rfl, fun t ht => absurd ht List.not_mem_nil⟩
  | cons t ts ih =>
    have hn := List.nodup_cons.1 h.nodup
    have hg := (h.rows t List.mem_cons_self).1
    -- The tail, after what the tick did for `t`.
    have hrest : ∀ {u : World}, u.hosts = w.hosts → u.rules = w.rules →
        (∀ id, id ≠ t.id → u.tenants.get id = w.tenants.get id) →
        (ToDelete t now → u.tenants.get t.id = some ((TenantUpdate.status .deleted).apply t)) →
        (expireAll now ts).wp durable (fun _ w' => (w'.hosts = w.hosts ∧ w'.rules = w.rules) ∧
          (∀ id, id ∉ (t :: ts).map TenantRow.id → w'.tenants.get id = w.tenants.get id) ∧
          ∀ t' ∈ t :: ts, ToDelete t' now → w'.tenants.get t'.id = some ((TenantUpdate.status .deleted).apply t')) u := by
      intro u hhosts hrules hrows hself
      refine Prog.wp_mono ?_ (ih (h.tail hrows))
      rintro ⟨⟩ w' ⟨⟨hh, hr⟩, hother, hdel⟩
      refine ⟨⟨hh.trans hhosts, hr.trans hrules⟩, fun id hid => ?_, fun t' ht' hto => ?_⟩
      · rw [List.map_cons, List.mem_cons, not_or] at hid
        rw [hother id hid.2, hrows id hid.1]
      · rcases List.mem_cons.1 ht' with rfl | ht'
        · rw [hother t'.id hn.1, hself hto]
        · exact hdel t' ht' hto
    -- A status write of `t`.
    have hwrite : ∀ {u : World} (s : TenantStatus), u.tenants = w.tenants → u.hosts = w.hosts → u.rules = w.rules →
        (ToDelete t now → s = .deleted) → (@Prog.call Ctl Unit (.updTenant t.id (.status s)) fun _ =>
          expireAll now ts).wp durable (fun _ w' => (w'.hosts = w.hosts ∧ w'.rules = w.rules) ∧
          (∀ id, id ∉ (t :: ts).map TenantRow.id → w'.tenants.get id = w.tenants.get id) ∧
          ∀ t' ∈ t :: ts, ToDelete t' now → w'.tenants.get t'.id = some ((TenantUpdate.status .deleted).apply t')) u := by
      rintro u s htenants hhosts hrules hs r w₁ ⟨hw, t', ht', hs₁⟩
      obtain rfl : r = true := hw
      rw [htenants, hg] at ht'
      obtain rfl := Option.some.inj ht'
      obtain rfl : w₁ = u.putTenant ((TenantUpdate.status s).apply t) := hs₁
      refine hrest hhosts hrules (fun id hid => ?_) fun hto => ?_
      · rw [World.putTenant_tenants, htenants]
        exact Table.get_put_ne _ (by simpa using hid)
      · rw [hs hto, World.putTenant_tenants]
        exact Table.get_put_self _ _
    simp only [expireAll, req_bind]
    split
    · rename_i hterm
      refine hrest rfl rfl (fun _ _ => rfl) fun hto => ?_
      obtain ⟨h₁, h₂, h₃⟩ := hto.running
      tauto
    split
    · rename_i hnot
      refine hrest rfl rfl (fun _ _ => rfl) fun hto => ?_
      obtain ⟨e, he, hle⟩ := hto.expired
      rw [he] at hnot
      have hlt : now < e := by simpa using hnot
      exact absurd hle (Int.not_le.2 hlt)
    cases ho : t.onExpiry.getD .stop with
    | stop =>
      have hstop : ToDelete t now → TenantStatus.stopped = .deleted := by
        intro hto
        rw [hto.action] at ho
        cases ho
      cases t.hostId with
      | none => exact hwrite .stopped rfl rfl rfl hstop
      | some host =>
        rintro r u ⟨-, hs⟩
        have hs : World.step (.ssmSend (some host) (.stopVm t.id (t.vmNum.getD 1))) r w u := hs
        obtain ⟨htenants, hhosts⟩ := step_quiet ⟨rfl, rfl, rfl⟩ hs
        exact hwrite .stopped htenants hhosts (step_rules rfl hs) hstop
    | delete => exact hwrite .deleted rfl rfl rfl fun _ => rfl

theorem expireAll_now (ts : List TenantRow) : (expireAll now ts).All fun c => c ≠ Call.now := by
  induction ts with
  | nil => trivial
  | cons t ts ih =>
    simp only [expireAll, req_bind]
    split
    · exact ih
    split
    · exact ih
    cases t.onExpiry.getD .stop with
    | stop =>
      cases t.hostId with
      | none => exact ⟨by simp, fun _ => ih⟩
      | some host => exact ⟨by simp, fun _ => ⟨by simp, fun _ => ih⟩⟩
    | delete => exact ⟨by simp, fun _ => ih⟩

/-- **An expiry tick**: hosts and rules are as before, and a row to be deleted has the status. -/
theorem processTtl_row : processTtlExpirations.wpt durable (fun l _ w' => (w'.hosts = w.hosts ∧ w'.rules = w.rules) ∧
    ∀ now, Saw l .now now → ∀ t, w.tenants.get t.id = some t → ToDelete t now →
      w'.tenants.get t.id = some ((TenantUpdate.status .deleted).apply t)) w := by
  simp only [processTtlExpirations, req_bind]
  rintro ts w₁ ⟨-, hp, rfl⟩ now w₂ ⟨-, -, rfl⟩
  have hscan : Unhandled (w₁.setClock now) (fun _ => True) ts := Unhandled.of_scan hp fun _ _ => trivial
  refine Prog.wpt_mono ?_ (Prog.wpt_and (Prog.wpt_all (expireAll_now ts) _) (Prog.wpt_of_wp (expireAll_row ts hscan)))
  rintro l ⟨⟩ w' ⟨hcalls, hkeep, -, hdel⟩
  refine ⟨hkeep, fun n hn t hg hto => ?_⟩
  obtain rfl : n = now := by
    rcases List.mem_cons.1 hn with he | hn
    · cases he
    · rcases List.mem_cons.1 hn with he | hn
      · cases he
        rfl
      · exact absurd rfl (hcalls _ hn)
  obtain ⟨e, he, -⟩ := hto.expired
  refine hdel t (hp.mem_iff.2 (List.mem_filter.2 ⟨Table.mem_of_get hg, ?_⟩)) hto
  rw [TenantFilter.holds, he]
  rfl

/-- A host whose row is as before still has the booking. -/
theorem not_released {w' : World} {host : HostId} (h : w'.hosts = w.hosts) : ¬ Released t host w w' := by
  rintro ⟨x, x', hx, hg, -, -, hc⟩
  have hrow : w.hostRow host = x' := by
    rw [World.hostRow, ← h, hg]
    rfl
  rw [hrow] at hx
  obtain ⟨uv, um, c, -, -, hcount, rfl⟩ := HostUpdate.release_eq_some.1 hx
  rw [hcount] at hc
  have := Option.some.inj hc
  omega

/-- A rule that is there was not removed. -/
theorem not_unrouted {w' : World} (h : w'.rules = w.rules) {tid : TenantId} :
    ¬ ∃ r ∈ w.rules, r.pathIs tid = true ∧ ∀ x ∈ w'.rules, x.arn ≠ r.arn := by
  rintro ⟨r, hr, -, hgone⟩
  exact hgone r (h ▸ hr) rfl

end Expiry

/-- The tenant has no host, and no rule lists its path while rules are kept for each tenant. -/
def Bare (t : TenantRow) (w : World) : Prop :=
  t.hostId = none ∧ (cfg.perTenant = true → ∀ r ∈ w.rules, r.pathIs t.id = false)

theorem deletes_iff_bare {t : TenantRow} {w w' : World} {l : CallLog} (hhosts : w'.hosts = w.hosts)
    (hrules : w'.rules = w.rules) (hrow : w'.tenants.get t.id = some ((TenantUpdate.status .deleted).apply t)) :
    Deletes cfg t w l w' ↔ Bare cfg t w := by
  constructor
  · intro h
    refine ⟨?_, fun hmode r hr => ?_⟩
    · cases hh : t.hostId with
      | none => rfl
      | some host => exact absurd (h.released host hh) (not_released hhosts)
    · by_contra hpath
      exact not_unrouted hrules (h.unrouted hmode ⟨r, hr, by simpa using hpath⟩)
  · rintro ⟨hnone, hroute⟩
    refine ⟨fun h hh => ?_, fun hmode hex => ?_, fun h hh => ?_, _, hrow, rfl⟩
    · rw [hnone] at hh
      cases hh
    · obtain ⟨r, hr, hpath⟩ := hex
      rw [hroute hmode r hr] at hpath
      cases hpath
    · rw [hnone] at hh
      cases hh

/-- **Deletion by the API and by expiry.** Every deletion that the API answers with 200 is complete; an expiry tick
deletes the tenant completely exactly when it has no host and no rule. -/
theorem ttl_deletion {t : TenantRow} {w : World} (hg : w.tenants.get t.id = some t) :
    (∀ l w', (deleteTenant cfg t.id true).Traces durable w l 200 w' → t.status ≠ .deleted → Deletes cfg t w l w') ∧
    ∀ l w' now, processTtlExpirations.Traces durable w l () w' → Saw l .now now → ToDelete t now →
      (Deletes cfg t w l w' ↔ Bare cfg t w) := by
  constructor
  · intro l w' htr hs
    exact Prog.wpt_iff_traces.1 (deleteTenant_deletes hg hs) _ _ _ htr rfl
  · intro l w' now htr hnow hto
    obtain ⟨⟨hhosts, hrules⟩, hrow⟩ := Prog.wpt_iff_traces.1 processTtl_row _ _ _ htr
    exact deletes_iff_bare cfg hhosts hrules (hrow now hnow t hg hto)

/-! ## Two tenants -/

/-- A tenant that expires at 0 and is then to be deleted. -/
def expiringTenant (host : Option HostId) : TenantRow :=
  { runningTenant "a-0000" "i-1" 1 with hostId := host, expiresAt := some 0, onExpiry := some .delete }

def expiringWorld (host : Option HostId) : World where
  tenants := .single (expiringTenant host)
  hosts := .single (busyHost "i-1" 2)

/-- The clock was read as 0. -/
def readsZero (l : CallLog) : Bool :=
  l.any fun x =>
    match x with
    | ⟨.now, r⟩ => r = 0
    | _ => false

theorem saw_zero {l : CallLog} (h : readsZero l = true) : Saw l .now (0 : Time) := by
  obtain ⟨⟨c, r⟩, hm, hx⟩ := List.any_eq_true.1 h
  split at hx
  · rename_i r' he
    obtain ⟨rfl, hr⟩ := Sigma.mk.inj he
    cases hr
    obtain rfl : r' = 0 := of_decide_eq_true hx
    exact hm
  · cases hx

theorem expiring_toDelete (host : Option HostId) : ToDelete (expiringTenant host) 0 :=
  ⟨⟨by simp [expiringTenant, runningTenant], by simp [expiringTenant, runningTenant],
    by simp [expiringTenant, runningTenant]⟩, ⟨0, rfl, Int.le_refl 0⟩, rfl⟩

theorem expiring_run (host : Option HostId) (h : (ctlOracle.alone (fun c r _ => c.written r) processTtlExpirations
    (List.replicate 3 {}) (expiringWorld host)).any (fun x => readsZero x.1) = true) :
    ∃ l w', processTtlExpirations.Traces durable (expiringWorld host) l () w' ∧ Saw l .now (0 : Time) := by
  obtain ⟨⟨l, ⟨⟩, w'⟩, hx, hP⟩ := (Option.any_eq_true _ _).1 h
  exact ⟨l, w', Oracle.alone_sound (fun _ _ _ h => h) hx, saw_zero hP⟩

theorem get_expiring (host : Option HostId) :
    (expiringWorld host).tenants.get (expiringTenant host).id = some (expiringTenant host) :=
  Table.get_of_mem List.mem_cons_self

/-- **An expired tenant keeps its VM, its rule and its booking.** -/
theorem ttl_deletion_leaks : ∃ l w', processTtlExpirations.Traces durable (expiringWorld (some "i-1")) l () w' ∧
    Saw l .now (0 : Time) ∧ ToDelete (expiringTenant (some "i-1")) 0 ∧
    ¬ Deletes {} (expiringTenant (some "i-1")) (expiringWorld (some "i-1")) l w' := by
  obtain ⟨l, w', htr, hnow⟩ := expiring_run (some "i-1") (by decide +kernel)
  obtain ⟨⟨hhosts, hrules⟩, hrow⟩ := Prog.wpt_iff_traces.1 processTtl_row _ _ _ htr
  have hdel := hrow 0 hnow _ (get_expiring _) (expiring_toDelete _)
  refine ⟨l, w', htr, hnow, expiring_toDelete _, fun hx => ?_⟩
  cases ((deletes_iff_bare {} hhosts hrules hdel).1 hx).1

/-- A tenant that is still waiting for a host. -/
theorem ttl_deletion_bare : ∃ l w', processTtlExpirations.Traces durable (expiringWorld none) l () w' ∧
    Deletes {} (expiringTenant none) (expiringWorld none) l w' := by
  obtain ⟨l, w', htr, hnow⟩ := expiring_run none (by decide +kernel)
  exact ⟨l, w', htr, ((ttl_deletion {} (get_expiring none)).2 l w' 0 htr hnow (expiring_toDelete none)).2
    ⟨rfl, fun _ r hr => absurd hr List.not_mem_nil⟩⟩

end OpenClaw
