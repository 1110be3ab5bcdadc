import OpenClaw.Capacity.Books

/-!
# Every operation keeps the books

An operation that runs alone, with its DynamoDB writes succeeding and its calls respecting `Call.respects`, ends with
even books when it began with even books (`Balances`). The loops work on rows that were scanned at their start;
`Unhandled` says that those still to come are as they were.

- `createTenant_balances`, `processPending_balances`, `deleteTenant_balances`, `tenantResize_balances`,
  `migrate_balances`, `migrationSweep_balances`, `azFailover_balances`, `processRecord_balances`.
- `processTtlExpirations_balances`: if it deletes only tenants without a host.
- `cleanupTerminatedHost_balances`: if all of the host's tenants are deleted, or none.
-/

namespace OpenClaw

open Keyed Atomic

variable (cfg : Config)

section Operations

variable {cfg} {ok : (c : Call) → c.Ans → World → Prop} {w : World} {f : Amounts}

/-- A program that leaves the books even if they were. -/
abbrev Balances {α : Type} (ok : (c : Call) → c.Ans → World → Prop) (p : CtlProg α) (w : World) : Prop :=
  p.wp (ctl.restrict ok) (fun _ w' => Books w' 0) w

theorem quiet_balances {α : Type} {p : CtlProg α} (hp : p.All Call.quiet) (hB : Books w 0) : Balances ok p w :=
  Prog.wp_mono (fun _ _ h => hB.of_eq h.1 h.2) (Sem.wp_restrict (wp_quiet hp))

variable (hok : ∀ c r w, ok c r w → c.written r = true ∧ c.respects w = true)

include hok

/-! ## create_tenant -/

/-- What a successful reservation adds. -/
def slotAmounts (v m : Int) : Option (Option (HostRow × Int)) → Amounts
  | some (some (h, _)) => atHost h.instanceId (Res.pick v m 1)
  | _ => 0

theorem reserveFirst_books (v m : Int) (hs : List HostRow) (hB : Books w 0) :
    (reserveFirst cfg v m hs).wp (ctl.restrict ok) (fun r w' => Books w' (slotAmounts v m r)) w := by
  induction hs with
  | nil => exact hB
  | cons h hs ih =>
    simp only [reserveFirst, reserveHostSlot]
    cases h.totalVcpu with
    | none => exact hB
    | some tv =>
      cases h.totalMemMb with
      | none => exact hB
      | some tm =>
        refine reserveHost_rule hok hB (fun n w' hB' _ => hB'.congr fun a ρ => ?_) ih
        exact Int.zero_add _

omit hok in
theorem holding_creatingRow (r : CreateRequest) (tid : TenantId) (key : String) (now : Time) (host : HostRow) (n : Int) :
    (creatingRow cfg r tid key now host n).holding = atHost host.instanceId (Res.pick r.vcpu r.memMb 1) := by
  funext h ρ
  simp [TenantRow.holding, atHost, creatingRow, pendingRow, eq_comm]

theorem cloneRollback_balances {r : CreateRequest} {tid : TenantId} {host : HostId} {row : TenantRow} (hB : Books w 0)
    (hg : w.tenants.get tid = some row) (hrow : row.holding = atHost host (Res.pick r.vcpu r.memMb 1)) :
    Balances ok (cloneRollback r tid host) w := by
  refine updHost_rule hok hB fun x w₁ ht hB₁ => ?_
  refine updTenant_rule hok hB₁ fun t w₂ hg' _ => ⟨⟨nofun, nofun⟩, fun _ hB₂ => hB₂.congr fun h ρ => ?_⟩
  obtain rfl : row = t := by
    rw [ht, hg] at hg'
    exact Option.some.inj hg'
  rw [hrow]
  cases ρ <;> simp [atHost, HostUpdate.adds, Res.pick, TenantRow.holding, TenantUpdate.apply] <;> split <;> omega

theorem createOn_balances {r : CreateRequest} {src : Option TenantRow} {tid : TenantId} {key : String} {now : Time}
    {host : HostRow} {n : Int} (hB : Books w (atHost host.instanceId (Res.pick r.vcpu r.memMb 1))) :
    Balances ok (createOn cfg r src tid key now host n) w := by
  refine putTenant_rule hok hB ⟨nofun, nofun⟩ fun w₁ ht hB₁ => ?_
  have hB₁ : Books w₁ 0 := hB₁.congr fun h ρ => by rw [holding_creatingRow]; exact Int.sub_self _
  cases src with
  | none => exact quiet_balances (launchCreated_quiet cfg r _ host n) hB₁
  | some s =>
    refine quiet_call ⟨rfl, rfl, rfl⟩ fun copied w₂ ht₂ hh₂ => ?_
    have hB₂ := hB₁.of_eq ht₂ hh₂
    cases copied with
    | true => exact quiet_balances (launchCreated_quiet cfg r _ host n) hB₂
    | false =>
      have hg : w₂.tenants.get tid = some (creatingRow cfg r tid key now host n) := by
        rw [ht₂, ht]
        exact Table.get_put_self _ _
      exact cloneRollback_balances hok hB₂ hg (holding_creatingRow r tid key now host n)

theorem savePending_balances {r : CreateRequest} {tid : TenantId} {key : String} {now : Time} (hB : Books w 0) :
    Balances ok (savePending r tid key now) w := by
  refine putTenant_rule hok hB ⟨fun _ => rfl, nofun⟩ fun w₁ _ hB₁ => ?_
  refine quiet_call ⟨rfl, rfl, rfl⟩ fun _ w₂ ht hh => (hB₁.of_eq ht hh).congr fun h ρ => ?_
  simp [TenantRow.holding, pendingRow]

theorem createPlaced_balances {r : CreateRequest} {src : Option TenantRow} {key : String} (hB : Books w 0) :
    Balances ok (createPlaced cfg r src key) w := by
  refine quiet_call ⟨rfl, rfl, rfl⟩ fun tid w₁ ht₁ hh₁ => ?_
  refine quiet_call ⟨rfl, rfl, rfl⟩ fun now w₂ ht₂ hh₂ => ?_
  have hB₂ := (hB.of_eq ht₁ hh₁).of_eq ht₂ hh₂
  refine quiet_rule (candidateHosts_quiet cfg r src) fun hosts w₃ ht₃ hh₃ => ?_
  have hB₃ := hB₂.of_eq ht₃ hh₃
  cases hosts with
  | inl code => exact hB₃
  | inr hosts =>
    refine (Prog.wp_bind ..).2 (Prog.wp_mono (fun slot w₄ hB₄ => ?_) (reserveFirst_books hok r.vcpu r.memMb hosts hB₃))
    rcases slot with _ | _ | ⟨host, n⟩
    · exact hB₄
    · exact savePending_balances hok hB₄
    · exact createOn_balances hok hB₄

theorem createTenant_balances (r : CreateRequest) (hB : Books w 0) : Balances ok (createTenant cfg r) w := by
  unfold createTenant
  split
  · exact hB
  split
  · exact hB
  refine quiet_rule (cloneSource_quiet r) fun src w₁ ht₁ hh₁ => ?_
  have hB₁ := hB.of_eq ht₁ hh₁
  cases src with
  | inl code => exact hB₁
  | inr src =>
    refine quiet_rule (restoreKeyOf_quiet r) fun key w₂ ht₂ hh₂ => ?_
    have hB₂ := hB₁.of_eq ht₂ hh₂
    cases key with
    | inl code => exact hB₂
    | inr key => exact createPlaced_balances hok hB₂

/-! ## process_pending -/

/-- One pending tenant, whose row is as it was scanned. -/
theorem assignPending_balances {t : TenantRow} (hB : Books w 0) (hg : w.tenants.get t.id = some t)
    (hs : t.status = .pending) : Balances ok (assignPending cfg t) w := by
  refine quiet_rule (findHost_quiet cfg _ _) fun host w₁ ht₁ hh₁ => ?_
  have hB₁ := hB.of_eq ht₁ hh₁
  cases host with
  | none => exact hB₁
  | some host =>
    refine quiet_call ⟨rfl, rfl, rfl⟩ fun now w₂ ht₂ hh₂ => ?_
    have hB₂ := hB₁.of_eq ht₂ hh₂
    refine updTenant_rule hok hB₂ fun t' w₃ hg' _ => ⟨⟨nofun, nofun⟩, fun _ hB₃ => ?_⟩
    obtain rfl : t = t' := by
      rw [ht₂, ht₁, hg] at hg'
      exact Option.some.inj hg'
    refine updHost_rule hok hB₃ fun x w₄ _ hB₄ => ?_
    have hB₄ : Books w₄ 0 := hB₄.congr fun h ρ => by
      have hn := (hB.coherent hg).pending hs
      cases ρ <;>
        simp [atHost, HostUpdate.adds, Res.pick, TenantRow.holding, TenantUpdate.apply, hn, eq_comm]
    refine quiet_balances ((resolveEffectiveSkills_quiet _).bind fun _ => (launchVm_quiet ..).bind fun _ =>
      (routeTenant_quiet cfg _ _).bind fun r => ?_) hB₄
    cases r <;> trivial

omit hok in
/-- A loop body that balances and writes one row only. -/
theorem loop_rule {α β : Type} {P : TenantRow → Prop} {t : TenantRow} {ts : List TenantRow} {p : CtlProg α}
    {k : α → CtlProg β} (hU : Unhandled w P (t :: ts)) (hp : Balances ok p w) (hf : p.All (Call.onRow t.id))
    (hk : ∀ a w', Books w' 0 → Unhandled w' P ts → Balances ok (k a) w') : Balances ok (p >>= k) w := by
  refine (Prog.wp_bind ..).2 (Prog.wp_mono (fun a w' h => ?_) (Prog.wp_and hp (Sem.wp_restrict (wp_onRow hf))))
  exact hk a w' h.1 (hU.tail h.2)

theorem assignAll_balances {ts : List TenantRow} (hU : Unhandled w (fun t => t.status = .pending) ts) (hB : Books w 0) :
    Balances ok (assignAll cfg ts) w := by
  induction ts generalizing w with
  | nil => exact hB
  | cons t ts ih =>
    obtain ⟨hg, hs⟩ := hU.rows t (by simp)
    refine loop_rule hU (assignPending_balances hok hB hg hs) (assignPending_onRow cfg t) fun r w' hB' hU' => ?_
    cases r with
    | none => exact hB'
    | some _ => exact ih hU' hB'

theorem processPending_balances (hB : Books w 0) : Balances ok (processPending cfg) w := by
  rintro rows w' ⟨-, hr, rfl⟩
  refine assignAll_balances hok (Unhandled.of_scan ((List.perm_insertionSort _ _).trans hr) fun t ht => ?_) hB
  simpa [TenantFilter.holds] using ht

/-! ## delete_tenant and tenant_resize -/

theorem releaseDeleted_books {t : TenantRow} {host : HostId} (hB : Books w 0) :
    (releaseDeleted t host).wp (ctl.restrict ok) (fun done w' => done = true ∧ w'.tenants = w.tenants ∧
      Books w' (atHost host (Res.pick (-t.vcpu) (-t.memMb) (-1)))) w := by
  simp only [releaseDeleted, req_bind, Prog.pure_eq]
  refine updHost_rule hok hB fun x w₁ ht₁ hB₁ => ?_
  have hB₁ : Books w₁ (atHost host (Res.pick (-t.vcpu) (-t.memMb) (-1))) :=
    hB₁.congr fun h ρ => Int.zero_add _
  simp only
  split
  · refine quiet_call ⟨rfl, rfl, rfl⟩ fun now w₂ ht₂ hh₂ => ?_
    refine updHost_rule hok (hB₁.of_eq ht₂ hh₂) fun _ w₃ ht₃ hB₃ => ⟨rfl, by rw [ht₃, ht₂, ht₁], hB₃.congr fun h ρ => ?_⟩
    simp [atHost, HostUpdate.adds]
  · exact ⟨rfl, ht₁, hB₁⟩

/-- The release and the deletion of one row cancel out. -/
theorem releaseAndDelete_balances {t : TenantRow} {host : HostId} (hB : Books w 0) (hg : w.tenants.get t.id = some t)
    (hs : t.status ≠ .deleted) (hh : t.hostId = some host) :
    Balances ok (do let done ← releaseDeleted t host; if done then markDeleted t.id else pure 500) w := by
  refine (Prog.wp_bind ..).2 (Prog.wp_mono ?_ (releaseDeleted_books hok hB))
  rintro done w₁ ⟨rfl, ht₁, hB₁⟩
  refine updTenant_rule hok hB₁ fun t' w₂ hg' _ => ⟨⟨nofun, nofun⟩, fun _ hB₂ => hB₂.congr fun h ρ => ?_⟩
  obtain rfl : t = t' := by
    rw [ht₁, hg] at hg'
    exact Option.some.inj hg'
  cases ρ <;> simp [atHost, Res.pick, TenantRow.holding, TenantUpdate.apply, hs, hh, eq_comm] <;> split <;> omega

theorem deleteTenant_balances (tid : TenantId) (keepData : Bool) (hB : Books w 0) :
    Balances ok (deleteTenant cfg tid keepData) w := by
  simp only [deleteTenant, req_bind, Prog.pure_eq]
  rintro item w' ⟨-, rfl, rfl⟩
  cases hg : w'.tenants.get tid with
  | none => exact hB
  | some t =>
    obtain rfl := Table.key_of_get hg
    simp only
    split
    · exact hB
    · rename_i hs
      cases hh : t.hostId with
      | none =>
        refine quiet_rule (removeAlbRule_quiet cfg t.id) fun done w₁ ht₁ hh₁ => ?_
        have hB₁ := hB.of_eq ht₁ hh₁
        cases done with
        | false => exact hB₁
        | true =>
          refine updTenant_rule hok hB₁ fun t' w₂ hg' _ => ⟨⟨nofun, nofun⟩, fun _ hB₂ => hB₂.congr fun h ρ => ?_⟩
          obtain rfl : t = t' := by
            rw [ht₁, hg] at hg'
            exact Option.some.inj hg'
          simp [TenantRow.holding, TenantUpdate.apply, hh]
      | some host =>
        refine quiet_call ⟨rfl, rfl, rfl⟩ fun _ w₁ ht₁ hh₁ => quiet_call ⟨rfl, rfl, rfl⟩ fun _ w₂ ht₂ hh₂ => ?_
        have hB₂ := (hB.of_eq ht₁ hh₁).of_eq ht₂ hh₂
        refine quiet_rule (removeAlbRule_quiet cfg t.id) fun done w₃ ht₃ hh₃ => ?_
        have hB₃ := hB₂.of_eq ht₃ hh₃
        cases done with
        | false => exact hB₃
        | true =>
          refine quiet_call ⟨rfl, rfl, rfl⟩ fun _ w₄ ht₄ hh₄ => ?_
          have hB₄ := hB₃.of_eq ht₄ hh₄
          have hg₄ : w₄.tenants.get t.id = some t := by rw [ht₄, ht₃, ht₂, ht₁, hg]
          cases keepData with
          | true => exact releaseAndDelete_balances hok hB₄ hg₄ hs hh
          | false =>
            refine quiet_call ⟨rfl, rfl, rfl⟩ fun _ w₅ ht₅ hh₅ => ?_
            exact releaseAndDelete_balances hok (hB₄.of_eq ht₅ hh₅) (by rw [ht₅, hg₄]) hs hh

theorem tenantResize_balances (tid : TenantId) (v : Int) (hB : Books w 0) :
    Balances ok (tenantResize cfg tid v) w := by
  simp only [tenantResize, req_bind, Prog.pure_eq]
  rintro item w' ⟨-, rfl, rfl⟩
  cases hg : w'.tenants.get tid with
  | none => exact hB
  | some t =>
    simp only
    split
    · exact hB
    split
    · exact hB
    split
    · exact hB
    rename_i hs _ _
    cases hh : t.hostId with
    | none => exact hB
    | some host =>
      refine quiet_call ⟨rfl, rfl, rfl⟩ fun h w₁ ht₁ hh₁ => ?_
      have hB₁ := hB.of_eq ht₁ hh₁
      cases h with
      | none => exact hB₁
      | some h =>
        simp only
        split
        · split
          · exact hB₁
          · refine quiet_call ⟨rfl, rfl, rfl⟩ fun done w₂ ht₂ hh₂ => ?_
            have hB₂ := hB₁.of_eq ht₂ hh₂
            cases done with
            | false => exact hB₂
            | true =>
              refine updTenant_rule hok hB₂ fun t' w₃ hg' _ => ?_
              obtain rfl : t = t' := by
                rw [ht₂, ht₁, hg] at hg'
                exact Option.some.inj hg'
              refine ⟨⟨(hB.coherent hg).pending, (hB.coherent hg).migrating⟩, fun _ hB₃ => ?_⟩
              refine updHost_rule hok hB₃ fun x w₄ _ hB₄ => hB₄.congr fun a ρ => ?_
              have hs : t.status = .running := not_not.1 hs
              cases ρ <;>
                simp [atHost, HostUpdate.adds, Res.pick, TenantRow.holding, TenantUpdate.apply, hs, hh, eq_comm]
              split <;> omega
        · exact hB₁

/-! ## Migrations -/

theorem startMigration_balances {t : TenantRow} {mode : MigrationMode} {target : HostRow} (hB : Books w 0)
    (hg : w.tenants.get t.id = some t) : Balances ok (startMigration cfg t mode target) w := by
  simp only [startMigration, req_bind, Prog.pure_eq]
  refine quiet_call ⟨rfl, rfl, rfl⟩ fun now w₁ ht₁ hh₁ => quiet_call ⟨rfl, rfl, rfl⟩ fun cmd w₂ ht₂ hh₂ => ?_
  have hB₂ := (hB.of_eq ht₁ hh₁).of_eq ht₂ hh₂
  cases cmd with
  | none => exact hB₂
  | some cmd =>
    cases hh : t.hostId with
    | none => exact hB₂
    | some source =>
      refine updTenant_rule hok hB₂ fun t' w₃ hg' hr => ?_
      obtain rfl : t = t' := by
        rw [ht₂, ht₁, hg] at hg'
        exact Option.some.inj hg'
      have hs : t.status ≠ .deleted := fun hd => by
        have := TenantUpdate.respects_deleted hr hd
        simp [TenantRow.placed, TenantUpdate.apply, hh] at this
      refine ⟨⟨by rintro ⟨⟩, fun _ => ⟨by simp [TenantUpdate.apply, hh], hh.symm⟩⟩, fun _ hB₃ => hB₃.congr fun a ρ => ?_⟩
      simp [TenantRow.holding, TenantUpdate.apply, hs]

theorem migrate_balances {t : TenantRow} (target : HostId) (hB : Books w 0) (hg : w.tenants.get t.id = some t) :
    Balances ok (migrate cfg t target) w := by
  simp only [migrate, req_bind, Prog.pure_eq]
  cases migrateMode cfg with
  | none => exact hB
  | some mode =>
    simp only
    split
    · exact hB
    split
    · exact hB
    refine quiet_call ⟨rfl, rfl, rfl⟩ fun row w₁ ht₁ hh₁ => ?_
    have hB₁ := hB.of_eq ht₁ hh₁
    cases row with
    | none => exact hB₁
    | some row =>
      simp only
      split
      · exact hB₁
      split
      · exact startMigration_balances hok hB₁ (by rw [ht₁, hg])
      · exact hB₁

omit hok in
theorem mild_rollback (reason : String) (now : Time) (t : TenantRow) : Mild t ((TenantUpdate.rollback reason now).apply t) :=
  ⟨rfl, rfl, rfl, .inr rfl⟩

theorem cancelMigration_balances (t : TenantRow) (hB : Books w 0) : Balances ok (cancelMigration t) w := by
  simp only [cancelMigration, req_bind, Prog.pure_eq]
  split
  · exact hB
  · refine quiet_call ⟨rfl, rfl, rfl⟩ fun now w₁ ht₁ hh₁ => ?_
    exact mild_rule hok (mild_rollback _ _) (hB.of_eq ht₁ hh₁) fun _ hB₂ => hB₂

theorem migrateAction_balances (tid : TenantId) (target : HostId) (hB : Books w 0) :
    Balances ok (tenantAction cfg tid (.migrate target)) w := by
  rintro item w' ⟨-, rfl, rfl⟩
  cases hg : w'.tenants.get tid with
  | none => exact hB
  | some t => exact migrate_balances hok target hB (by rw [Table.key_of_get hg, hg])

theorem cancelAction_balances (tid : TenantId) (hB : Books w 0) :
    Balances ok (tenantAction cfg tid .cancelMigration) w := by
  rintro item w' ⟨-, rfl, rfl⟩
  cases w'.tenants.get tid with
  | none => exact hB
  | some t => exact cancelMigration_balances hok t hB

theorem resizeAction_balances (tid : TenantId) (v : Int) (hB : Books w 0) :
    Balances ok (tenantAction cfg tid (.resize v)) w := by
  rintro item w' ⟨-, rfl, rfl⟩
  cases w'.tenants.get tid with
  | none => exact hB
  | some t => exact tenantResize_balances hok tid v hB

theorem drainAll_balances (host : HostId) (ts : List TenantRow) (hB : Books w 0) :
    Balances ok (drainAll cfg host ts) w := by
  induction ts generalizing w with
  | nil => exact hB
  | cons t ts ih =>
    refine quiet_rule (findHost_quiet cfg _ _) fun target w₁ ht₁ hh₁ => ?_
    have hB₁ := hB.of_eq ht₁ hh₁
    cases target with
    | none => exact ih hB₁
    | some target =>
      simp only
      split
      · exact ih hB₁
      · refine (Prog.wp_bind ..).2 (Prog.wp_mono (fun r w₂ hB₂ => ?_) (migrateAction_balances hok t.id _ hB₁))
        exact (Prog.wp_bind ..).2 (Prog.wp_mono (fun _ _ h => h) (ih hB₂))

theorem drainHost_balances (host : HostId) (hB : Books w 0) : Balances ok (drainHost cfg host) w := by
  simp only [drainHost, req_bind, Prog.pure_eq]
  refine quiet_call ⟨rfl, rfl, rfl⟩ fun row w₁ ht₁ hh₁ => ?_
  have hB₁ := hB.of_eq ht₁ hh₁
  cases row with
  | none => exact hB₁
  | some _ =>
    refine quiet_call ⟨rfl, rfl, rfl⟩ fun ts w₂ ht₂ hh₂ => ?_
    refine updHost_rule hok (hB₁.of_eq ht₂ hh₂) fun _ w₃ _ hB₃ => ?_
    have hB₃ : Books w₃ 0 := hB₃.congr fun h ρ => by simp [atHost, HostUpdate.adds]
    exact (Prog.wp_bind ..).2 (Prog.wp_mono (fun _ _ h => h) (drainAll_balances hok host ts hB₃))

/-! ## The sweep -/

/-- A rollback in which the write succeeds. -/
theorem rollbackMigration_books (t : TenantRow) (reason : String) (hB : Books w 0) :
    (rollbackMigration t reason).wp (ctl.restrict ok) (fun done w' => done = true ∧ Books w' 0) w := by
  have hwrite : ∀ {w : World}, Books w 0 → (Prog.call (Call.now) fun now =>
      req (.updTenant t.id (.rollback (String.ofList (reason.toList.take 500)) now)) : CtlProg Bool).wp (ctl.restrict ok)
        (fun done w' => done = true ∧ Books w' 0) w := fun hB =>
    quiet_call ⟨rfl, rfl, rfl⟩ fun now w₁ ht₁ hh₁ =>
      mild_rule hok (mild_rollback _ _) (hB.of_eq ht₁ hh₁) fun _ hB₂ => ⟨rfl, hB₂⟩
  simp only [rollbackMigration, req_bind]
  split
  · split
    · exact hwrite hB
    · exact quiet_call ⟨rfl, rfl, rfl⟩ fun _ w₁ ht₁ hh₁ => hwrite (hB.of_eq ht₁ hh₁)
  · exact hwrite hB

theorem rollback_balances (t : TenantRow) (reason : String) (hB : Books w 0) :
    Balances ok (rollbackMigration t reason >>= fun _ => (.ret () : CtlProg Unit)) w :=
  (Prog.wp_bind ..).2 (Prog.wp_mono (fun _ _ h => h.2) (rollbackMigration_books hok t reason hB))

theorem bumpTargetCounters_books (target : HostId) (n v m : Int) (hB : Books w f) :
    (bumpTargetCounters target n v m).wp (ctl.restrict ok) (fun _ w' =>
      Books w' fun h ρ => f h ρ + atHost target (Res.pick v m 1) h ρ) w := by
  refine updHost_rule hok hB fun _ w₁ _ hB₁ => ?_
  exact raiseNext_rule hB₁ fun _ w₂ _ hB₂ => hB₂

/-- The move of one tenant, whose row is as it was scanned. -/
theorem completeMove_balances {t : TenantRow} (target : HostId) (hB : Books w 0) (hg : w.tenants.get t.id = some t)
    (hs : t.status = .migrating) : Balances ok (completeMove t target) w := by
  simp only [completeMove, req_bind, Prog.pure_eq]
  obtain ⟨hsome, hsrc⟩ := (hB.coherent hg).migrating hs
  obtain ⟨src, hh⟩ := Option.isSome_iff_exists.1 hsome
  refine quiet_call ⟨rfl, rfl, rfl⟩ fun now w₁ ht₁ hh₁ => ?_
  refine updTenant_rule hok (hB.of_eq ht₁ hh₁) fun t' w₂ hg' _ => ⟨⟨by rintro ⟨⟩, by rintro ⟨⟩⟩, fun _ hB₂ => ?_⟩
  obtain rfl : t = t' := by
    rw [ht₁, hg] at hg'
    exact Option.some.inj hg'
  rw [hsrc, hh]
  refine updHost_rule hok hB₂ fun _ w₃ _ hB₃ => ?_
  refine (Prog.wp_bind ..).2 (Prog.wp_mono (fun _ w₄ hB₄ => ?_) (bumpTargetCounters_books hok target _ _ _ hB₃))
  refine quiet_call ⟨rfl, rfl, rfl⟩ fun _ w₅ ht₅ hh₅ => (hB₄.of_eq ht₅ hh₅).congr fun h ρ => ?_
  cases ρ <;>
    simp [atHost, HostUpdate.adds, Res.pick, TenantRow.holding, TenantUpdate.apply, TenantRow.clearMigration, hs, hh,
      eq_comm] <;> split <;> split <;> omega

theorem verifyAndMove_balances {t : TenantRow} (target : HostId) (hB : Books w 0) (hg : w.tenants.get t.id = some t)
    (hs : t.status = .migrating) : Balances ok (verifyAndMove cfg t target) w := by
  simp only [verifyAndMove, req_bind, Prog.pure_eq]
  split
  · refine quiet_call ⟨rfl, rfl, rfl⟩ fun passed w₁ ht₁ hh₁ => ?_
    have hB₁ := hB.of_eq ht₁ hh₁
    cases passed with
    | true => exact completeMove_balances hok target hB₁ (by rw [ht₁, hg]) hs
    | false => exact rollback_balances hok t _ hB₁
  · exact completeMove_balances hok target hB hg hs

theorem advanceSnapshot_balances (t : TenantRow) (hB : Books w 0) : Balances ok (advanceSnapshot t) w := by
  simp only [advanceSnapshot, req_bind, Prog.pure_eq]
  split
  · exact rollback_balances hok t _ hB
  · refine quiet_call ⟨rfl, rfl, rfl⟩ fun r w₁ ht₁ hh₁ => ?_
    have hB₁ := hB.of_eq ht₁ hh₁
    obtain ⟨done, passed⟩ := r
    cases done with
    | false => exact hB₁
    | true =>
      cases passed with
      | false => exact rollback_balances hok t _ hB₁
      | true =>
        refine quiet_call ⟨rfl, rfl, rfl⟩ fun cmd w₂ ht₂ hh₂ => ?_
        have hB₂ := hB₁.of_eq ht₂ hh₂
        cases cmd with
        | none => exact rollback_balances hok t _ hB₂
        | some cmd =>
          refine quiet_call ⟨rfl, rfl, rfl⟩ fun now w₃ ht₃ hh₃ => ?_
          exact mild_rule hok (fun _ => ⟨rfl, rfl, rfl, .inl ⟨rfl, rfl⟩⟩) (hB₂.of_eq ht₃ hh₃) fun _ hB₄ => hB₄

theorem advanceRestore_balances {t : TenantRow} (hB : Books w 0) (hg : w.tenants.get t.id = some t)
    (hs : t.status = .migrating) : Balances ok (advanceRestore cfg t) w := by
  simp only [advanceRestore, req_bind, Prog.pure_eq]
  split
  · exact rollback_balances hok t _ hB
  · refine quiet_call ⟨rfl, rfl, rfl⟩ fun r w₁ ht₁ hh₁ => ?_
    have hB₁ := hB.of_eq ht₁ hh₁
    obtain ⟨done, passed⟩ := r
    cases done with
    | false => exact hB₁
    | true =>
      cases passed with
      | false => exact rollback_balances hok t _ hB₁
      | true =>
        simp only
        cases t.migrationTarget with
        | none => exact hB₁
        | some target =>
          refine quiet_call ⟨rfl, rfl, rfl⟩ fun host w₂ ht₂ hh₂ => ?_
          have hB₂ := hB₁.of_eq ht₂ hh₂
          have hg₂ : w₂.tenants.get t.id = some t := by rw [ht₂, ht₁, hg]
          split
          · refine quiet_call ⟨rfl, rfl, rfl⟩ fun _ w₃ ht₃ hh₃ => ?_
            exact verifyAndMove_balances hok target (hB₂.of_eq ht₃ hh₃) (by rw [ht₃, hg₂]) hs
          split
          · refine (Prog.wp_bind ..).2 (Prog.wp_mono ?_ (rollbackMigration_books hok t _ hB₂))
            rintro done w₃ ⟨rfl, hB₃⟩
            exact hB₃
          · refine quiet_rule (repointAlbRule_quiet cfg _ _ _) fun routed w₃ ht₃ hh₃ => ?_
            have hB₃ := hB₂.of_eq ht₃ hh₃
            cases routed with
            | true => exact verifyAndMove_balances hok target hB₃ (by rw [ht₃, hg₂]) hs
            | false => exact rollback_balances hok t _ hB₃

theorem advanceMigration_balances {t : TenantRow} (now : Time) (hB : Books w 0) (hg : w.tenants.get t.id = some t)
    (hs : t.status = .migrating) : Balances ok (advanceMigration cfg t now) w := by
  have hphase : ∀ phase, Balances ok (advancePhase cfg t phase) w := fun phase => by
    cases phase with
    | snapshot => exact advanceSnapshot_balances hok t hB
    | restore => exact advanceRestore_balances hok hB hg hs
    | other p => exact rollback_balances hok t _ hB
  unfold advanceMigration
  split
  · exact hB
  · split
    · refine (Prog.wp_bind ..).2 (Prog.wp_mono ?_ (rollbackMigration_books hok t _ hB))
      rintro done w₁ ⟨rfl, hB₁⟩
      exact hB₁
    · exact hphase _

theorem advanceAll_balances (now : Time) {ts : List TenantRow} (hU : Unhandled w (fun t => t.status = .migrating) ts)
    (hB : Books w 0) : Balances ok (advanceAll cfg now ts) w := by
  induction ts generalizing w with
  | nil => exact hB
  | cons t ts ih =>
    obtain ⟨hg, hs⟩ := hU.rows t (by simp)
    unfold advanceAll
    split
    · exact ih (hU.tail fun _ _ => rfl) hB
    · exact loop_rule hU (advanceMigration_balances hok now hB hg hs) (advanceMigration_onRow cfg t now)
        fun _ w' hB' hU' => ih hU' hB'

theorem migrationSweep_balances (now : Time) (hB : Books w 0) : Balances ok (migrationSweep cfg now) w := by
  rintro rows w' ⟨-, hr, rfl⟩
  refine advanceAll_balances hok now (Unhandled.of_scan hr fun t ht => ?_) hB
  simpa [TenantFilter.holds] using ht

/-! ## Failover -/

omit hok in
theorem mild_failoverEnded {s : TenantStatus} (hs : s.plain = true) (e : String) (t : TenantRow) :
    Mild t ((TenantUpdate.failoverEnded s e).apply t) := ⟨rfl, rfl, rfl, .inr hs⟩

omit hok in
theorem mild_failoverClaim {s : TenantStatus} (hs : s.plain = true) (src : Option HostId) (az : Az) (now : Time)
    (t : TenantRow) :
    Mild t ((TenantUpdate.failoverClaim s src az now).apply t) := ⟨rfl, rfl, rfl, .inr hs⟩

theorem failoverFailed_balances (tid : TenantId) (e : FailoverError) (hB : Books w 0) :
    Balances ok (failoverFailed tid e) w := by
  refine mild_rule hok (mild_failoverEnded ?_ _) hB fun _ hB₁ => hB₁
  cases e <;> rfl

/-- The flip is what `Call.respects` leaves out. -/
theorem failoverFlip_balances {t : TenantRow} {target : HostRow} {backup : String} {n v m : Int} (hB : Books w 0) :
    Balances ok (failoverFlip t target backup n v m) w := by
  refine updTenant_rule hok hB fun t' w₁ _ hr => ?_
  simp [TenantUpdate.respects] at hr

theorem failoverVerify_balances {t : TenantRow} {target : HostRow} {backup : String} {n v m : Int} (hB : Books w 0) :
    Balances ok (failoverVerify cfg t target backup n v m) w := by
  simp only [failoverVerify, req_bind]
  have hflip : ∀ {w : World}, Books w 0 → Balances ok (failoverFlip t target backup n v m) w :=
    fun hB => failoverFlip_balances hok hB
  have hconf : ∀ {w : World} {src : HostId}, Books w 0 → Balances ok
      (.call (.ssmSend (some src) (.removeTenantConf t.id)) fun _ => failoverFlip t target backup n v m) w :=
    fun hB => quiet_call ⟨rfl, rfl, rfl⟩ fun _ w₁ ht hh => hflip (hB.of_eq ht hh)
  cases t.hostId.or t.previousHostId with
  | none =>
    split
    · refine quiet_call ⟨rfl, rfl, rfl⟩ fun passed w₁ ht hh => ?_
      cases passed with
      | true => exact hflip (hB.of_eq ht hh)
      | false => exact failoverFailed_balances hok _ _ (hB.of_eq ht hh)
    · exact hflip hB
  | some src =>
    split
    · refine quiet_call ⟨rfl, rfl, rfl⟩ fun passed w₁ ht hh => ?_
      cases passed with
      | true => exact hconf (hB.of_eq ht hh)
      | false => exact failoverFailed_balances hok _ _ (hB.of_eq ht hh)
    · exact hconf hB

theorem failoverRepoint_balances {t : TenantRow} {target : HostRow} {backup : String} {n v m : Int} (hB : Books w 0) :
    Balances ok (failoverRepoint cfg t target backup n v m) w := by
  unfold failoverRepoint
  split
  · split
    · exact failoverFailed_balances hok _ _ hB
    · refine quiet_rule (repointAlbRule_quiet cfg _ _ _) fun routed w₁ ht hh => ?_
      cases routed with
      | true => exact failoverVerify_balances hok (hB.of_eq ht hh)
      | false => exact failoverFailed_balances hok _ _ (hB.of_eq ht hh)
  · exact failoverVerify_balances hok hB

theorem executeFailover_balances {t : TenantRow} {target : HostRow} {backup : String} {n : Int} (hB : Books w 0) :
    Balances ok (executeFailover cfg t target backup n) w := by
  simp only [executeFailover, req_bind]
  refine quiet_call ⟨rfl, rfl, rfl⟩ fun cmd w₁ ht₁ hh₁ => ?_
  have hB₁ := hB.of_eq ht₁ hh₁
  cases cmd with
  | none => exact failoverFailed_balances hok _ _ hB₁
  | some cmd =>
    have hgate : ∀ {w : World}, Books w 0 → Balances ok (.call (.verifyVm target.instanceId t.id) fun up =>
        if up then failoverRepoint cfg t target backup n (orDefault t.vcpu 2) (orDefault t.memMb 4096)
        else failoverFailed t.id .vmNotVerified) w := fun hB =>
      quiet_call ⟨rfl, rfl, rfl⟩ fun up w₁ ht hh => by
        cases up with
        | true => exact failoverRepoint_balances hok (hB.of_eq ht hh)
        | false => exact failoverFailed_balances hok _ _ (hB.of_eq ht hh)
    refine quiet_call ⟨rfl, rfl, rfl⟩ fun _ w₂ ht₂ hh₂ => ?_
    have hB₂ := hB₁.of_eq ht₂ hh₂
    split
    · exact quiet_call ⟨rfl, rfl, rfl⟩ fun _ w₃ ht₃ hh₃ => hgate (hB₂.of_eq ht₃ hh₃)
    · exact hgate hB₂

theorem blockFailover_balances (tid : TenantId) (hB : Books w 0) : Balances ok (blockFailover tid) w :=
  mild_rule hok (mild_failoverEnded (by rfl) _) hB fun _ hB₁ => hB₁

theorem failoverTenantToHost_balances (t : TenantRow) (target : HostRow) (az : Az) (now : Time) (hB : Books w 0) :
    Balances ok (failoverTenantToHost cfg t target az now) w := by
  simp only [failoverTenantToHost, req_bind]
  refine quiet_rule (latestBackupKey_quiet cfg _) fun backup w₁ ht₁ hh₁ => ?_
  have hB₁ := hB.of_eq ht₁ hh₁
  cases backup with
  | none => exact (Prog.wp_bind ..).2 (Prog.wp_mono (fun _ _ h => h) (blockFailover_balances hok t.id hB₁))
  | some backup =>
    refine condTenant_rule hok (mild_failoverClaim (by rfl) _ _ _) hB₁ fun r w₂ _ hB₂ => ?_
    cases r with
    | failed => exact hB₂
    | refused => exact hB₂
    | done => exact (Prog.wp_bind ..).2 (Prog.wp_mono (fun _ _ h => h) (executeFailover_balances hok hB₂))

theorem enqueueFailover_balances (t : TenantRow) (target : HostRow) (az : Az) (now : Time) (hB : Books w 0) :
    Balances ok (enqueueFailover cfg t target az now) w := by
  simp only [enqueueFailover, reserveTargetVmNum, req_bind, Prog.pure_eq, Prog.call_bind, Prog.ret_bind]
  refine quiet_rule (latestBackupKey_quiet cfg _) fun backup w₁ ht₁ hh₁ => ?_
  have hB₁ := hB.of_eq ht₁ hh₁
  cases backup with
  | none => exact (Prog.wp_bind ..).2 (Prog.wp_mono (fun _ _ h => h) (blockFailover_balances hok t.id hB₁))
  | some backup =>
    refine condTenant_rule hok (mild_failoverClaim (by rfl) _ _ _) hB₁ fun r w₂ _ hB₂ => ?_
    cases r with
    | failed => exact hB₂
    | refused => exact hB₂
    | done =>
      refine incNext_rule hB₂ fun old w₃ hB₃ => ?_
      rintro sent w₄ ⟨-, hs⟩
      rcases hs.eq_or with rfl | rfl
      · exact hB₃.of_eq rfl rfl
      · exact hB₃

theorem failoverAll_balances (az : Az) (exclude : List Az) (now : Time) (ts : List TenantRow) (hosts : List HostRow)
    (hB : Books w 0) : Balances ok (failoverAll cfg az exclude now ts hosts) w := by
  induction ts generalizing w hosts with
  | nil => exact hB
  | cons t ts ih =>
    unfold failoverAll
    split
    · exact ih hosts hB
    · rename_i target _
      split
      · refine (Prog.wp_bind ..).2 (Prog.wp_mono (fun out w₁ hB₁ => ?_) (enqueueFailover_balances hok t target az now hB))
        cases out with
        | none => exact hB₁
        | some o => exact ih _ hB₁
      · refine (Prog.wp_bind ..).2
          (Prog.wp_mono (fun out w₁ hB₁ => ?_) (failoverTenantToHost_balances hok t target az now hB))
        cases out with
        | none => exact hB₁
        | some o => exact ih _ hB₁

theorem handleOutages_balances (tenants : List TenantRow) (force exclude : List Az) (now : Time) (os : List Outage)
    (hosts : List HostRow) (azState : List (Az × Time)) (hB : Books w 0) :
    Balances ok (handleOutages cfg tenants force exclude now os hosts azState) w := by
  induction os generalizing w hosts azState with
  | nil => exact hB
  | cons o os ih =>
    simp only [handleOutages, req_bind]
    split
    · exact ih hosts azState hB
    · refine putAzState_rule hB fun r w₁ hB₁ => ?_
      refine (Prog.wp_bind ..).2 (Prog.wp_mono (fun r w₂ hB₂ => ?_) (failoverAll_balances hok _ _ _ _ _ hB₁))
      cases r with
      | none => exact hB₂
      | some hosts => exact ih hosts _ hB₂

theorem azFailover_balances (force : List Az) (hB : Books w 0) : Balances ok (azFailover cfg force) w := by
  simp only [azFailover, checkAndHandleAzFailover, req_bind, Prog.pure_eq]
  refine quiet_call ⟨rfl, rfl, rfl⟩ fun tenants w₁ ht₁ hh₁ => quiet_call ⟨rfl, rfl, rfl⟩ fun now w₂ ht₂ hh₂ =>
    quiet_call ⟨rfl, rfl, rfl⟩ fun hosts w₃ ht₃ hh₃ => ?_
  have hB₃ := ((hB.of_eq ht₁ hh₁).of_eq ht₂ hh₂).of_eq ht₃ hh₃
  split
  · exact hB₃
  · refine quiet_call ⟨rfl, rfl, rfl⟩ fun state w₄ ht₄ hh₄ => ?_
    have hB₄ := hB₃.of_eq ht₄ hh₄
    split
    · exact hB₄
    · exact handleOutages_balances hok _ _ _ _ _ _ _ hB₄

theorem reapStuck_balances (now : Time) (ts : List TenantRow) (hB : Books w 0) :
    Balances ok (reapStuck cfg now ts) w := by
  induction ts generalizing w with
  | nil => exact hB
  | cons t ts ih =>
    simp only [reapStuck, req_bind]
    split
    · exact ih hB
    · exact condTenant_rule hok (mild_failoverEnded (by rfl) _) hB fun _ _ _ hB₁ => ih hB₁

theorem sweepStuckFailovers_balances (now : Time) (hB : Books w 0) :
    Balances ok (sweepStuckFailovers cfg now) w :=
  quiet_call ⟨rfl, rfl, rfl⟩ fun ts _ ht hh => reapStuck_balances hok now ts (hB.of_eq ht hh)

theorem processRecord_balances (job : FailoverJob) (now : Time) (hB : Books w 0) :
    Balances ok (processRecord cfg job now) w := by
  simp only [processRecord, claim, req_bind, Prog.pure_eq, Prog.call_bind, Prog.ret_bind]
  refine quiet_call ⟨rfl, rfl, rfl⟩ fun item w₁ ht₁ hh₁ => ?_
  have hB₁ := hB.of_eq ht₁ hh₁
  cases item with
  | none => exact hB₁
  | some t =>
    refine condTenant_rule hok (fun _ => by exact ⟨rfl, rfl, rfl, .inr rfl⟩) hB₁ fun r w₂ _ hB₂ => ?_
    cases r with
    | failed => exact hB₂
    | refused => exact hB₂
    | done =>
      refine quiet_call ⟨rfl, rfl, rfl⟩ fun host w₃ ht₃ hh₃ => ?_
      have hB₃ := hB₂.of_eq ht₃ hh₃
      cases host with
      | none => exact mild_rule hok (mild_failoverEnded (by rfl) _) hB₃ fun _ hB₄ => hB₄
      | some host => exact (Prog.wp_bind ..).2 (Prog.wp_mono (fun _ _ h => h) (executeFailover_balances hok hB₃))

/-! ## TTL expiry -/

omit hok in
theorem processTtlExpirations_balances
    (hok : ∀ c r w, ok c r w → c.written r = true ∧ c.respects w = true)
    (hdel : ∀ id r w, ok (.updTenant id (.status .deleted)) r w → ∀ t, w.tenants.get id = some t → t.hostId = none)
    (hB : Books w 0) : Balances ok processTtlExpirations w := by
  have hall : ∀ (now : Time) (ts : List TenantRow) {w : World}, Books w 0 → Balances ok (expireAll now ts) w := by
    intro now ts
    induction ts with
    | nil => exact fun hB => hB
    | cons t ts ih =>
      intro w hB
      simp only [expireAll, req_bind]
      split
      · exact ih hB
      split
      · exact ih hB
      have hstop : ∀ {w : World}, Books w 0 → Balances ok (.call (.updTenant t.id (.status .stopped)) fun _ =>
          expireAll now ts) w := fun hB =>
        mild_rule hok (fun _ => ⟨rfl, rfl, rfl, .inr rfl⟩) hB fun _ hB₁ => ih hB₁
      cases t.onExpiry.getD .stop with
      | stop =>
        cases t.hostId with
        | none => exact hstop hB
        | some h => exact quiet_call ⟨rfl, rfl, rfl⟩ fun _ w₁ ht hh => hstop (hB.of_eq ht hh)
      | delete =>
        rintro r w' ⟨hw, t', ht', hs⟩
        obtain rfl : r = true := (hok _ _ _ hw).1
        obtain rfl : w' = w.putTenant (TenantUpdate.apply (.status .deleted) t') := hs
        have hB' := @Books.updTenant w 0 hB t' (TenantUpdate.apply (.status .deleted) t')
          (by rw [TenantUpdate.apply_id, Table.key_of_get ht', ht']) ⟨nofun, nofun⟩
        refine ih (hB'.congr fun h ρ => ?_)
        simp [TenantRow.holding, TenantUpdate.apply, hdel _ _ _ hw t' ht']
  exact quiet_call ⟨rfl, rfl, rfl⟩ fun ts _ ht₁ hh₁ => quiet_call ⟨rfl, rfl, rfl⟩ fun now _ ht₂ hh₂ =>
    hall now ts ((hB.of_eq ht₁ hh₁).of_eq ht₂ hh₂)

/-! ## Registration and termination of hosts -/

/-- A new host has no books yet. -/
theorem registerHost_balances (host : HostId) (ip : String) (az : Az) (tv tm : Int)
    (hnew : w.hosts.get host = none) (hB : Books w 0) : Balances ok (registerHost host ip az tv tm) w := by
  refine quiet_call ⟨rfl, rfl, rfl⟩ fun now w₁ ht₁ hh₁ => ?_
  have hB₁ := hB.of_eq ht₁ hh₁
  rintro r w₂ ⟨hw, hs⟩
  obtain rfl : r = true := (hok _ _ _ hw).1
  obtain rfl : w₂ = w₁.putHost _ := hs
  refine hB₁.putHost_same fun ρ => ?_
  rw [World.hostRow, hh₁, hnew]
  cases ρ <;> rfl

omit hok

/-- The load balancer refused a request. -/
def Call.lbFailed : (c : Call) → c.Ans → Bool
  | .describeRules, r => r.isNone
  | .deleteRule _, r => !r
  | _, _ => false

/-- Nobody counts on the host any more. -/
def World.vacated (w : World) (host : HostId) : Prop := ∀ t ∈ w.tenants.rows, t.hostId = some host → t.status = .deleted

theorem removeAlbRule_wp {P : World → Prop} (hP : ∀ c r w, ok c r w → c.lbFailed r = true → P w)
    (hq : ∀ w w', w'.tenants = w.tenants → w'.hosts = w.hosts → P w → P w') (tid : TenantId) :
    (removeAlbRule cfg tid).wp (ctl.restrict ok) (fun done w' => done = false → P w') w := by
  simp only [removeAlbRule, req_bind, Prog.pure_eq]
  split
  · rintro ⟨⟩
  split
  · rintro ⟨⟩
  rintro rules w₁ ⟨hw, hs⟩
  have h₁ := @step_quiet .describeRules _ _ _ ⟨rfl, rfl, rfl⟩ hs
  cases rules with
  | none => exact fun _ => hq _ _ h₁.1 h₁.2 (hP _ _ _ hw rfl)
  | some rules =>
    simp only
    cases rules.find? fun r => r.pathIs tid with
    | none => rintro ⟨⟩
    | some x =>
      rintro r w₂ ⟨hw, hs⟩
      have h₂ := @step_quiet (.deleteRule x.arn) _ _ _ ⟨rfl, rfl, rfl⟩ hs
      cases r with
      | true => rintro ⟨⟩
      | false => exact fun _ => hq _ _ h₂.1 h₂.2 (hP _ _ _ hw rfl)

section Termination

variable {w₀ : World} {host : HostId}

/-- Some tenants of the host have been deleted, those in `ts` not yet. -/
structure Reaping (w₀ : World) (host : HostId) (w : World) (ts : List TenantRow) : Prop where
  hosts : w.hosts = w₀.hosts
  rows : ∀ t ∈ w.tenants.rows, t.Coherent
  held : ∀ h ρ, h ≠ host → w.held h ρ = w₀.held h ρ
  todo : Unhandled w (fun t => t.hostId = some host ∧ t.status ≠ .deleted) ts
  rest : ∀ t ∈ w.tenants.rows, t.hostId = some host → t.status ≠ .deleted → t ∈ ts

theorem Reaping.of_eq {w w' : World} {ts : List TenantRow} (h : Reaping w₀ host w ts) (ht : w'.tenants = w.tenants)
    (hh : w'.hosts = w.hosts) : Reaping w₀ host w' ts := by
  refine ⟨hh.trans h.hosts, ht ▸ h.rows, fun a ρ ha => ?_, ⟨?_, h.todo.nodup⟩, ht ▸ h.rest⟩
  · rw [World.held, ht]
    exact h.held a ρ ha
  · rw [ht]
    exact h.todo.rows

theorem Reaping.step {t : TenantRow} {ts : List TenantRow} (h : Reaping w₀ host w (t :: ts)) :
    Reaping w₀ host (w.putTenant (TenantUpdate.apply (.status .deleted) t)) ts := by
  obtain ⟨hg, hh, -⟩ := h.todo.rows t (by simp)
  have hid : (TenantUpdate.apply (.status .deleted) t).id = t.id := rfl
  refine ⟨h.hosts, fun x hx => ?_, fun a ρ ha => ?_, h.todo.tail fun id hne => Table.get_put_ne _ hne, fun x hx hx' hs => ?_⟩
  · rcases Table.mem_put.1 hx with rfl | ⟨hx, -⟩
    · exact ⟨nofun, nofun⟩
    · exact h.rows x hx
  · rw [← h.held a ρ ha]
    show (w.tenants.put _).total _ = w.tenants.total _
    have ha' : ¬ host = a := fun e => ha e.symm
    rw [Table.total_put, Table.part, hid, hg]
    simp [TenantRow.holding, TenantUpdate.apply, hh, ha']
  · rcases Table.mem_put.1 hx with rfl | ⟨hx, hne⟩
    · exact absurd rfl hs
    · rcases List.mem_cons.1 (h.rest x hx hx' hs) with rfl | hm
      · exact absurd rfl hne
      · exact hm

variable (hok : ∀ c r w, ok c r w → c.written r = true ∧ c.respects w = true)
  (hlb : ∀ c r w, ok c r w → c.lbFailed r = true → w.tenants = w₀.tenants ∨ w.vacated host)

include hok hlb

/-- The loop either deletes all of the host's tenants or none. -/
theorem reapTenants_wp (hB : Books w₀ 0) {ts : List TenantRow} (hR : Reaping w₀ host w ts) :
    (reapTenants cfg ts).wp (ctl.restrict ok)
      (fun done w' => if done then Reaping w₀ host w' [] else Books w' 0) w := by
  induction ts generalizing w with
  | nil => exact hR
  | cons t ts ih =>
    obtain ⟨hg, hh, hs⟩ := hR.todo.rows t (by simp)
    refine (Prog.wp_bind ..).2 (Prog.wp_mono ?_ (Prog.wp_and (Sem.wp_restrict (wp_quiet (removeAlbRule_quiet cfg t.id)))
      (removeAlbRule_wp hlb ?_ t.id)))
    · rintro done w₁ ⟨⟨ht₁, hh₁⟩, hfail⟩
      have hR₁ := hR.of_eq ht₁ hh₁
      cases done with
      | false =>
        rcases hfail rfl with h | h
        · exact hB.of_eq h hR₁.hosts
        · -- Row `t` is still there.
          exact absurd (h t (ht₁ ▸ Table.mem_of_get hg) hh) hs
      | true =>
        rintro r w₂ ⟨hw, t', ht', hs'⟩
        obtain rfl : r = true := (hok _ _ _ hw).1
        obtain rfl : t = t' := by
          rw [ht₁, hg] at ht'
          exact Option.some.inj ht'
        obtain rfl : w₂ = w₁.putTenant _ := hs'
        exact ih hR₁.step
    · intro w w' ht _ h
      refine h.imp (fun h => ht.trans h) fun h t hm => h t ?_
      rwa [← ht]

theorem cleanupTerminatedHost_balances (hB : Books w₀ 0) : Balances ok (cleanupTerminatedHost cfg host) w₀ := by
  simp only [cleanupTerminatedHost, req_bind, Prog.pure_eq]
  rintro ts w₁ ⟨-, hp, rfl⟩
  have hR : Reaping w₁ host w₁ ts := by
    refine ⟨rfl, hB.rows, fun _ _ _ => rfl, Unhandled.of_scan hp fun t ht => ?_, fun t ht hh hs => ?_⟩
    · simpa [TenantFilter.holds] using ht
    · exact hp.mem_iff.2 (List.mem_filter.2 ⟨ht, by simp [TenantFilter.holds, hh, hs]⟩)
  refine (Prog.wp_bind ..).2 (Prog.wp_mono (fun done w₂ h => ?_) (reapTenants_wp hok hlb hB hR))
  cases done with
  | false => exact h
  | true =>
    refine quiet_rule (removeHostTg_quiet cfg host) fun _ w₃ ht₃ hh₃ => ?_
    rintro r w₄ ⟨hw, hs⟩
    have h₃ := h.of_eq ht₃ hh₃
    obtain rfl : r = true := (hok _ _ _ hw).1
    obtain rfl : w₄ = w₃.eraseHost host := hs
    refine ⟨h₃.rows, fun a ρ ha => ?_⟩
    show ((w₃.hosts.erase host).get a).elim 0 _ = w₃.held a ρ + 0
    rw [Table.get_erase]
    split
    · rename_i e
      subst e
      refine (Int.add_zero _).symm ▸ (Table.total_eq_zero fun t ht => if_neg fun hc => ?_).symm
      exact List.not_mem_nil (h₃.rest t ht hc.2 hc.1)
    · rename_i hne
      rw [h₃.held a ρ hne, h₃.hosts]
      exact hB.off a ρ ha

end Termination

end Operations

end OpenClaw
