import OpenClaw.Control.Log

/-!
# One tick of the sweep

What one invocation of `_advance_migration` does to the row it was given, read off the calls it made (`Ticked`): it
waits for a command that still runs, fires the restore behind the snapshot, moves the tenant behind all of the gates
(`Gated`), and rolls back in every other case. `advanceMigration_step` derives it from the code.

- `Ticked.moved_iff`, `Ticked.fired_iff`: the gates decide.
- `advanceMigration_step`: one migration in one tick.
- `advanceAll_sweeps`: a whole tick, over every migration it scanned.
-/

namespace OpenClaw

open Keyed Atomic

variable (cfg : Config)

/-- The route of the tenant was repointed to the target, at the address that its row had. -/
def Repointed (t : TenantRow) (l : CallLog) : Prop :=
  ∃ (target : HostId) (host : Option HostRow) (pre l' post : CallLog), t.migrationTarget = some target ∧
    l = pre ++ ⟨Call.getHost target, host⟩ :: (l' ++ post) ∧ (host.bind HostRow.privateIp).getD "" ≠ "" ∧
    (repointAlbRule cfg t.id target ((host.bind HostRow.privateIp).getD "")).Plays l' true

/-- What a tick has seen before it moves a tenant. -/
structure Gated (t : TenantRow) (l : CallLog) : Prop where
  phase : t.migrationPhase = some .restore
  restored : ∃ cmd, t.migrationRestoreCmd = some cmd ∧ Saw l (.ssmPoll cmd t.migrationTarget) (true, true)
  routed : cfg.routingMode = .hostTg ∨ Repointed cfg t l
  verified : cfg.publicBaseUrl = true → Saw l (.verifyDashboard t.id) true

/-- The snapshot was seen to succeed. -/
structure Ready (t : TenantRow) (l : CallLog) : Prop where
  phase : t.migrationPhase = some .snapshot
  taken : ∃ cmd, t.migrationSnapCmd = some cmd ∧ Saw l (.ssmPoll cmd t.migrationSource) (true, true)

/-- The command that fills the target. -/
def restoreOf (t : TenantRow) : HostCmd :=
  .migrateVm (t.migrationMode.getD .live).restoreVerb t.id (t.migrationTargetVmNum.getD 1) (t.migrationSnapshotUri.getD "")

/-- The one call was the poll of a command that was not done, or there is no target to read. -/
def Waiting (t : TenantRow) (l : CallLog) : Prop :=
  (∃ cmd host passed, l = [⟨.ssmPoll cmd host, (false, passed)⟩]) ∨
    t.migrationTarget = none ∧ t.migrationPhase = some .restore

/-- The watchdog, or a gate that did not pass: a restore that was due was not accepted. -/
def Failed (now : Time) (t : TenantRow) (l : CallLog) : Prop :=
  overdue cfg t now = true ∨ ¬ Gated cfg t l ∧ (Ready t l →
    Saw l (.ssmSend t.migrationTarget (restoreOf t)) none ∧
      ∀ cmd : CommandId, ¬ Saw l (.ssmSend t.migrationTarget (restoreOf t)) (some cmd))

/-- What a move takes from the source and books on the target. -/
def TenantRow.shift (t : TenantRow) : Amounts := fun h ρ =>
  (t.migrationSource.elim 0 fun src => atHost src (Res.pick (-t.vcpu) (-t.memMb) (-1)) h ρ) +
    t.migrationTarget.elim 0 fun target => atHost target (Res.pick t.vcpu t.memMb 1) h ρ

/-- What a tick with the calls `l` makes of a migrating row; the flag says whether the tenant moved. -/
inductive Ticked (now : Time) (t : TenantRow) (l : CallLog) : Bool → TenantRow → Prop
  /-- A row without a phase is skipped. -/
  | skips : t.migrationPhase = none → Ticked now t l false t
  | waits : overdue cfg t now = false → Waiting t l → Ticked now t l false t
  | fires {cmd : CommandId} {at' : Time} : overdue cfg t now = false → Ready t l →
      Saw l (.ssmSend t.migrationTarget (restoreOf t)) (some cmd) →
      Ticked now t l false ((TenantUpdate.restoreFired cmd at').apply t)
  | rollsBack (reason : String) (at' : Time) : Failed cfg now t l →
      Ticked now t l false ((TenantUpdate.rollback reason at').apply t)
  | moves {target : HostId} (at' : Time) : overdue cfg t now = false → Gated cfg t l → t.migrationTarget = some target →
      Ticked now t l true ((TenantUpdate.migrated target (t.migrationTargetVmNum.getD 1) at').apply t)

section Gates

variable {cfg} {now : Time} {t t' : TenantRow} {l l' : CallLog} {moved : Bool}

theorem Gated.mono (h : Gated cfg t l) (hl : l <:+: l') : Gated cfg t l' := by
  refine ⟨h.phase, ?_, ?_, fun hv => hl.subset (h.verified hv)⟩
  · obtain ⟨cmd, hc, hs⟩ := h.restored
    exact ⟨cmd, hc, hl.subset hs⟩
  · rcases h.routed with hr | ⟨target, host, pre, l₁, post, ht, rfl, hip, hp⟩
    · exact .inl hr
    · obtain ⟨before, after, rfl⟩ := hl
      exact .inr ⟨target, host, before ++ pre, l₁, post ++ after, ht, by simp, hip, hp⟩

theorem Ready.not_gated (h : Ready t l) : ¬ Gated cfg t l := by
  intro hg
  simpa [h.phase] using hg.phase

theorem Waiting.not_ready (h : Waiting t l) : ¬ Ready t l := by
  rintro ⟨hp, cmd, -, hsaw⟩
  rcases h with ⟨cmd', host, passed, rfl⟩ | ⟨-, hp'⟩
  · cases List.mem_singleton.1 hsaw
  · simp [hp] at hp'

theorem Waiting.not_gated (h : Waiting t l) (ht : t.migrationTarget.isSome = true) : ¬ Gated cfg t l := by
  intro hg
  obtain ⟨cmd, -, hsaw⟩ := hg.restored
  rcases h with ⟨cmd', host, passed, rfl⟩ | ⟨hn, -⟩
  · cases List.mem_singleton.1 hsaw
  · simp [hn] at ht

/-- **The gates decide whether the tenant moves.** -/
theorem Ticked.moved_iff (h : Ticked cfg now t l moved t') :
    moved = true ↔ overdue cfg t now = false ∧ t.migrationTarget.isSome = true ∧ Gated cfg t l := by
  cases h with
  | skips hp =>
    refine iff_of_false Bool.false_ne_true ?_
    rintro ⟨-, -, hg⟩
    simpa [hp] using hg.phase
  | waits _ hw => exact iff_of_false Bool.false_ne_true fun h => hw.not_gated h.2.1 h.2.2
  | fires _ hr => exact iff_of_false Bool.false_ne_true fun h => hr.not_gated h.2.2
  | rollsBack _ _ hf =>
    refine iff_of_false Bool.false_ne_true ?_
    rintro ⟨ho, -, hg⟩
    exact hf.elim (by simp [ho]) fun hf => hf.1 hg
  | moves _ ho hg ht => exact iff_of_true rfl ⟨ho, by simp [ht], hg⟩

/-- **The snapshot decides whether the restore is fired**: it is sent, and the phase is entered if SSM takes it. -/
theorem Ticked.fired_iff (h : Ticked cfg now t l moved t') (hp : t.migrationPhase = some .snapshot) :
    t'.migrationPhase = some .restore ↔ overdue cfg t now = false ∧ Ready t l ∧
      ∃ cmd : CommandId, Saw l (.ssmSend t.migrationTarget (restoreOf t)) (some cmd) := by
  cases h with
  | skips hn => simp [hp] at hn
  | waits _ hw => exact iff_of_false (by simp [hp]) fun h => hw.not_ready h.2.1
  | fires ho hr hc => exact iff_of_true rfl ⟨ho, hr, _, hc⟩
  | rollsBack _ _ hf =>
    refine iff_of_false (by rintro ⟨⟩) ?_
    rintro ⟨ho, hr, cmd, hc⟩
    exact hf.elim (by simp [ho]) fun hf => (hf.2 hr).2 cmd hc
  | moves _ _ hg => exact absurd hg.phase (by simp [hp])

theorem Ticked.sent (h : Ticked cfg now t l moved t') (ho : overdue cfg t now = false) (hr : Ready t l) :
    ∃ r, Saw l (.ssmSend t.migrationTarget (restoreOf t)) r := by
  cases h with
  | skips hn => simp [hr.phase] at hn
  | waits _ hw => exact absurd hr hw.not_ready
  | fires _ _ hc => exact ⟨_, hc⟩
  | rollsBack _ _ hf => exact hf.elim (by simp [ho]) fun hf => ⟨_, (hf.2 hr).1⟩
  | moves _ _ hg => exact absurd hg hr.not_gated

/-- A tick that leaves the phase leaves the row, and only while the command runs. -/
theorem Ticked.waiting (h : Ticked cfg now t l moved t') (hp : t.migrationPhase.isSome = true)
    (he : t'.migrationPhase = t.migrationPhase) : overdue cfg t now = false ∧ Waiting t l ∧ t' = t := by
  cases h with
  | skips hn => simp [hn] at hp
  | waits ho hw => exact ⟨ho, hw, rfl⟩
  | fires _ hr => cases he.trans hr.phase
  | rollsBack => simp [← he, TenantUpdate.apply, TenantRow.clearMigration] at hp
  | moves => simp [← he, TenantUpdate.apply, TenantRow.clearMigration] at hp

end Gates

/-! ## Calls that no gate asks -/

/-- The polls, the read of the target, the probe of the public path, and the commands of a migration. -/
def Call.gate : Call → Bool
  | .ssmPoll _ _ | .getHost _ | .verifyDashboard _ | .ssmSend _ (.migrateVm ..) => true
  | _ => false

section Tails

variable {cfg} {t : TenantRow} {l l' : CallLog}

theorem Call.routes.not_gate {c : Call} (h : c.routes) : c.gate = false := by
  cases c <;> first | rfl | cases h

theorem rollbackMigration_gateless (t : TenantRow) (reason : String) :
    (rollbackMigration t reason).All fun c : Call => c.gate = false := by
  simp only [rollbackMigration, req_bind]
  split
  · split
    · exact ⟨rfl, fun _ => Prog.all_lift rfl⟩
    · exact ⟨rfl, fun _ => ⟨rfl, fun _ => Prog.all_lift rfl⟩⟩
  · exact ⟨rfl, fun _ => Prog.all_lift rfl⟩

theorem not_saw {c : Call} {r : c.Ans} (hl : ∀ x ∈ l, x.1.gate = false) (hc : c.gate = true) : ¬ Saw l c r := by
  intro h
  simpa [hc] using hl _ h

/-- What was repointed, when the target was read once. -/
theorem Repointed.of_read {cmd : CommandId} {h : Option HostId} {r : Bool × Bool} {target : HostId}
    {host : Option HostRow} (hr : Repointed cfg t (⟨.ssmPoll cmd h, r⟩ :: ⟨.getHost target, host⟩ :: l))
    (ht : t.migrationTarget = some target) (hl : ∀ x ∈ l, x.1.gate = false) :
    (host.bind HostRow.privateIp).getD "" ≠ "" ∧ ∃ l' post, l = l' ++ post ∧
      (repointAlbRule cfg t.id target ((host.bind HostRow.privateIp).getD "")).Plays l' true := by
  obtain ⟨target', host', pre, l', post, ht', he, hip, hp⟩ := hr
  obtain rfl : target = target' := Option.some.inj (ht.symm.trans ht')
  match pre, he with
  | [_], he =>
    simp only [List.cons_append, List.nil_append, List.cons.injEq] at he
    obtain ⟨-, hx, rfl⟩ := he
    cases hx
    exact ⟨hip, l', post, rfl, hp⟩
  | _ :: _ :: pre, he =>
    simp only [List.cons_append, List.cons.injEq] at he
    obtain ⟨-, -, rfl⟩ := he
    simpa [Call.gate] using hl ⟨.getHost target, host'⟩ (by simp)

end Tails

/-! ## One migration -/

/-- The effect of one migration's tick on the world `u` it began in. -/
def Steps (now : Time) (t : TenantRow) (u : World) (l : CallLog) (w : World) : Prop :=
  ∃ moved t', Ticked cfg now t l moved t' ∧ w.tenants.get t.id = some t' ∧
    ∀ h ρ, w.booked h ρ = u.booked h ρ + if moved then t.shift h ρ else 0

section Advance

variable {cfg} {now : Time} {t : TenantRow} {u w : World} {l₀ : CallLog}

theorem Steps.still {l : CallLog} {w' : World} (hs : SameTables w u) (hw : SameTables w' w)
    (hg : u.tenants.get t.id = some t) (ht : Ticked cfg now t l false t) : Steps cfg now t u l w' := by
  have h := hw.trans hs
  refine ⟨false, t, ht, by rw [h.1, hg], fun a ρ => ?_⟩
  rw [World.booked, h.2]
  exact (Int.add_zero _).symm

/-- A write of the row and nothing else. -/
theorem Steps.written {l : CallLog} {x : TenantUpdate} (hs : SameTables w u)
    (ht : Ticked cfg now t l false (x.apply t)) : Steps cfg now t u l (w.putTenant (x.apply t)) := by
  refine ⟨false, x.apply t, ht, ?_, fun a ρ => ?_⟩
  · have h := Table.get_put_self w.tenants (x.apply t)
    rwa [TenantUpdate.apply_id] at h
  · rw [World.booked, World.putTenant_hosts, hs.2]
    exact (Int.add_zero _).symm

/-- The calls of a rollback pass no gate; `f` puts them behind those that came before. -/
theorem rollbackMigration_step (reason : String) {f : CallLog → CallLog} (hs : SameTables w u)
    (hg : u.tenants.get t.id = some t) (hf : ∀ l : CallLog, (∀ x ∈ l, x.1.gate = false) → Failed cfg now t (f l)) :
    (rollbackMigration t reason).wpt durable (fun l done w' => done = true ∧ Steps cfg now t u (f l) w') w := by
  have hwrite : ∀ {w : World}, SameTables w u → (Prog.call (Call.now) fun now =>
      req (.updTenant t.id (.rollback (String.ofList (reason.toList.take 500)) now)) : CtlProg Bool).wpt durable
        (fun _ done w' => done = true ∧ ∀ l, (∀ x ∈ l, x.1.gate = false) → Steps cfg now t u (f l) w') w := by
    intro w hs
    refine quiet_step ⟨rfl, rfl, rfl⟩ fun at' w₁ h₁ => ?_
    have h₁ := h₁.trans hs
    exact updTenant_step (by rw [h₁.1, hg]) ⟨rfl, fun l hl => Steps.written h₁ (.rollsBack _ _ (hf l hl))⟩
  have hstep : (rollbackMigration t reason).wpt durable
      (fun _ done w' => done = true ∧ ∀ l, (∀ x ∈ l, x.1.gate = false) → Steps cfg now t u (f l) w') w := by
    simp only [rollbackMigration, req_bind]
    split
    · split
      · exact hwrite hs
      · exact quiet_step ⟨rfl, rfl, rfl⟩ fun r w₁ h₁ => hwrite (h₁.trans hs)
    · exact hwrite hs
  refine Prog.wpt_mono ?_ (Prog.wpt_and hstep (Prog.wpt_all (rollbackMigration_gateless t reason) w))
  rintro l done w' ⟨⟨hd, h⟩, hl⟩
  exact ⟨hd, h l hl⟩

theorem rollback_step (reason : String) {f : CallLog → CallLog} (hs : SameTables w u)
    (hg : u.tenants.get t.id = some t) (hf : ∀ l : CallLog, (∀ x ∈ l, x.1.gate = false) → Failed cfg now t (f l)) :
    (rollbackMigration t reason >>= fun _ => (.ret () : CtlProg Unit)).wpt durable
      (fun l _ w' => Steps cfg now t u (f l) w') w := by
  refine (Prog.wpt_bind ..).2 (Prog.wpt_mono ?_ (rollbackMigration_step reason hs hg hf))
  intro l done w' h
  simpa [Prog.wpt] using h.2

theorem completeMove_step {target : HostId} (hs : SameTables w u) (hg : u.tenants.get t.id = some t)
    (ho : overdue cfg t now = false) (hgate : Gated cfg t l₀) (ht : t.migrationTarget = some target) :
    (completeMove t target).wpt durable (fun l _ w' => Steps cfg now t u (l₀ ++ l) w') w := by
  have hgate : ∀ l, Gated cfg t (l₀ ++ l) := fun l => hgate.mono (List.prefix_append ..).isInfix
  simp only [completeMove, req_bind, Prog.pure_eq]
  refine quiet_step ⟨rfl, rfl, rfl⟩ fun at' w₁ h₁ => ?_
  have h₁ := h₁.trans hs
  refine updTenant_step (by rw [h₁.1, hg]) ?_
  simp only
  have hmoves : ∀ l, Ticked cfg now t (l₀ ++ l) true _ := fun l => .moves at' ho (hgate l) ht
  have hrow : (w₁.putTenant ((TenantUpdate.migrated target (t.migrationTargetVmNum.getD 1) at').apply t)).tenants.get
      t.id = some ((TenantUpdate.migrated target (t.migrationTargetVmNum.getD 1) at').apply t) :=
    Table.get_put_self w₁.tenants _
  have hhosts : ∀ h ρ, (w₁.putTenant ((TenantUpdate.migrated target (t.migrationTargetVmNum.getD 1) at').apply t)).booked
      h ρ = u.booked h ρ := fun h ρ => by rw [World.booked, World.putTenant_hosts, h₁.2]; rfl
  cases hsrc : t.migrationSource with
  | none =>
    refine updHost_step fun _ w₂ ht₂ hh₂ => raiseNext_step fun _ w₃ ht₃ hh₃ => ?_
    refine ⟨true, _, hmoves _, by rw [ht₃, ht₂, hrow], fun h ρ => ?_⟩
    rw [hh₃, hh₂, hhosts, if_pos rfl, TenantRow.shift, hsrc, ht]
    simp [HostUpdate.adds, atHost]
  | some src =>
    refine updHost_step fun _ w₂ ht₂ hh₂ => updHost_step fun _ w₃ ht₃ hh₃ => raiseNext_step fun _ w₄ ht₄ hh₄ => ?_
    refine quiet_step ⟨rfl, rfl, rfl⟩ fun _ w₅ h₅ => ?_
    refine ⟨true, _, hmoves _, by rw [h₅.1, ht₄, ht₃, ht₂, hrow], fun h ρ => ?_⟩
    have hb : w₅.booked h ρ = w₄.booked h ρ := by rw [World.booked, h₅.2]; rfl
    rw [hb, hh₄, hh₃, hh₂, hhosts, if_pos rfl, TenantRow.shift, hsrc, ht, Int.add_assoc]
    simp [HostUpdate.adds, atHost]

/-- The probe is the first of its kind in the tick. -/
theorem verifyAndMove_step {target : HostId} (hs : SameTables w u) (hg : u.tenants.get t.id = some t)
    (ho : overdue cfg t now = false) (ht : t.migrationTarget = some target) (hp : t.migrationPhase = some .restore)
    (hr : ∃ cmd, t.migrationRestoreCmd = some cmd ∧ Saw l₀ (.ssmPoll cmd t.migrationTarget) (true, true))
    (hroute : cfg.routingMode = .hostTg ∨ Repointed cfg t l₀) (hl₀ : ¬ Saw l₀ (.verifyDashboard t.id) true) :
    (verifyAndMove cfg t target).wpt durable (fun l _ w' => Steps cfg now t u (l₀ ++ l) w') w := by
  simp only [verifyAndMove, req_bind, Prog.pure_eq]
  split
  · rename_i hpub
    refine quiet_step ⟨rfl, rfl, rfl⟩ fun passed w₁ h₁ => ?_
    cases passed with
    | false =>
      refine rollback_step _ (h₁.trans hs) hg fun l hl => .inr ⟨fun hgate => ?_, fun hready => ?_⟩
      · rcases List.mem_append.1 (hgate.verified hpub) with hm | hm
        · exact hl₀ hm
        · rcases List.mem_cons.1 hm with hm | hm
          · cases hm
          · exact not_saw hl rfl hm
      · exact absurd hready.phase (by simp [hp])
    | true =>
      have hl : l₀ <:+: l₀ ++ [⟨Call.verifyDashboard t.id, true⟩] := ⟨[], _, rfl⟩
      have hgate : Gated cfg t (l₀ ++ [⟨Call.verifyDashboard t.id, true⟩]) := by
        refine ⟨hp, ?_, ?_, fun _ => List.mem_append_right _ (List.mem_singleton.2 rfl)⟩
        · obtain ⟨cmd, hc, hsaw⟩ := hr
          exact ⟨cmd, hc, hl.subset hsaw⟩
        · rcases hroute with hh | ⟨target, host, pre, l', post, ht, rfl, hip, hplay⟩
          · exact .inl hh
          · exact .inr ⟨target, host, pre, l', post ++ [⟨Call.verifyDashboard t.id, true⟩], ht, by simp, hip, hplay⟩
      refine Prog.wpt_mono (fun l _ w' h => ?_) (completeMove_step (h₁.trans hs) hg ho hgate ht)
      simpa using h
  · rename_i hpub
    exact completeMove_step hs hg ho ⟨hp, hr, hroute, fun hv => absurd hv hpub⟩ ht

theorem advanceSnapshot_step (hs : SameTables w u) (hg : u.tenants.get t.id = some t) (ho : overdue cfg t now = false)
    (hp : t.migrationPhase = some .snapshot) :
    (advanceSnapshot t).wpt durable (fun l _ w' => Steps cfg now t u l w') w := by
  have hgate : ∀ l, ¬ Gated cfg t l := fun l hg => absurd hg.phase (by simp [hp])
  simp only [advanceSnapshot, req_bind, Prog.pure_eq]
  cases hc : t.migrationSnapCmd with
  | none =>
    refine rollback_step _ hs hg fun l hl => .inr ⟨hgate _, fun hr => ?_⟩
    obtain ⟨cmd, hcmd, -⟩ := hr.taken
    simp [hc] at hcmd
  | some snap =>
    refine quiet_step ⟨rfl, rfl, rfl⟩ fun r w₁ h₁ => ?_
    have h₁ := h₁.trans hs
    obtain ⟨done, passed⟩ := r
    cases done with
    | false => exact Steps.still h₁ ⟨rfl, rfl⟩ hg (.waits ho (.inl ⟨snap, t.migrationSource, passed, rfl⟩))
    | true =>
      cases passed with
      | false =>
        refine rollback_step _ h₁ hg fun l hl => .inr ⟨hgate _, fun hr => ?_⟩
        obtain ⟨cmd, -, hsaw⟩ := hr.taken
        rcases List.mem_cons.1 hsaw with hsaw | hsaw
        · cases hsaw
        · exact absurd hsaw (not_saw hl rfl)
      | true =>
        refine quiet_step ⟨rfl, rfl, rfl⟩ fun cmd w₂ h₂ => ?_
        have h₂ := h₂.trans h₁
        cases cmd with
        | none =>
          refine rollback_step _ h₂ hg fun l hl => .inr ⟨hgate _, fun _ => ⟨?_, fun cmd hsaw => ?_⟩⟩
          · exact List.mem_cons_of_mem _ List.mem_cons_self
          · rcases List.mem_cons.1 hsaw with hsaw | hsaw
            · cases hsaw
            rcases List.mem_cons.1 hsaw with hsaw | hsaw
            · cases hsaw
            · exact not_saw hl rfl hsaw
        | some cmd =>
          refine quiet_step ⟨rfl, rfl, rfl⟩ fun at' w₃ h₃ => ?_
          have h₃ := h₃.trans h₂
          refine updTenant_step (by rw [h₃.1, hg]) (Steps.written h₃ (.fires ho ⟨hp, snap, hc, ?_⟩ ?_))
          · exact List.mem_cons_self
          · exact List.mem_cons_of_mem _ List.mem_cons_self

theorem advanceRestore_step (hs : SameTables w u) (hg : u.tenants.get t.id = some t) (ho : overdue cfg t now = false)
    (hp : t.migrationPhase = some .restore) :
    (advanceRestore cfg t).wpt durable (fun l _ w' => Steps cfg now t u l w') w := by
  have hfail : ∀ {l : CallLog}, ¬ Gated cfg t l → Failed cfg now t l := fun h =>
    .inr ⟨h, fun hr => absurd hr.phase (by simp [hp])⟩
  simp only [advanceRestore, req_bind, Prog.pure_eq]
  cases hc : t.migrationRestoreCmd with
  | none =>
    refine rollback_step _ hs hg fun l hl => hfail fun hgate => ?_
    obtain ⟨cmd, hcmd, -⟩ := hgate.restored
    simp [hc] at hcmd
  | some cmd =>
    refine quiet_step ⟨rfl, rfl, rfl⟩ fun r w₁ h₁ => ?_
    have h₁ := h₁.trans hs
    obtain ⟨done, passed⟩ := r
    cases done with
    | false => exact Steps.still h₁ ⟨rfl, rfl⟩ hg (.waits ho (.inl ⟨cmd, t.migrationTarget, passed, rfl⟩))
    | true =>
      cases passed with
      | false =>
        refine rollback_step _ h₁ hg fun l hl => hfail fun hgate => ?_
        obtain ⟨cmd', -, hsaw⟩ := hgate.restored
        rcases List.mem_cons.1 hsaw with hsaw | hsaw
        · cases hsaw
        · exact not_saw hl rfl hsaw
      | true =>
        simp only
        cases ht : t.migrationTarget with
        | none => exact Steps.still h₁ ⟨rfl, rfl⟩ hg (.waits ho (.inr ⟨ht, hp⟩))
        | some target =>
          refine quiet_step ⟨rfl, rfl, rfl⟩ fun host w₂ h₂ => ?_
          have h₂ := h₂.trans h₁
          have hsaw : ∀ l, Saw (⟨.ssmPoll cmd (some target), (true, true)⟩ :: l) (.ssmPoll cmd t.migrationTarget)
              (true, true) := fun l => ht ▸ List.mem_cons_self
          split
          · rename_i hmode
            refine quiet_step ⟨rfl, rfl, rfl⟩ fun r w₃ h₃ => ?_
            let before : CallLog := [⟨.ssmPoll cmd (some target), (true, true)⟩, ⟨.getHost target, host⟩,
              ⟨.ssmSend (some target) (.removePeerConf t.id), r⟩]
            have hfirst : ¬ Saw before (.verifyDashboard t.id) true := by simp [before, Saw]
            exact verifyAndMove_step (h₃.trans h₂) hg ho ht hp ⟨cmd, hc, hsaw _⟩ (.inl hmode) hfirst
          rename_i hmode
          split
          · rename_i hip
            have hstep := @rollbackMigration_step cfg now t u w₂ "target host has no private_ip"
              (fun l => ⟨.ssmPoll cmd (some target), (true, true)⟩ :: ⟨.getHost target, host⟩ :: l) h₂ hg fun l hl =>
                hfail fun hgate => (hgate.routed.resolve_left hmode |>.of_read ht hl).1 hip
            refine (Prog.wpt_bind ..).2 (Prog.wpt_mono ?_ hstep)
            rintro l done w' ⟨rfl, h⟩
            simpa [Prog.wpt] using h
          · rename_i hip
            refine quiet_steps (repointAlbRule_quiet cfg _ _ _) fun l₁ routed w₃ hplay h₃ => ?_
            have h₃ := h₃.trans h₂
            have hl₁ : ∀ x ∈ l₁, x.1.gate = false := fun x hx =>
              (Prog.plays_all (repointAlbRule_routes cfg _ _ _) hplay x hx).not_gate
            cases routed with
            | false =>
              refine rollback_step _ h₃ hg fun l hl => hfail fun hgate => ?_
              obtain ⟨-, l', post, he, hplay'⟩ := (hgate.routed.resolve_left hmode).of_read ht
                (List.forall_mem_append.2 ⟨hl₁, hl⟩)
              cases (hplay.unique hplay' he).2
            | true =>
              let before : CallLog := ⟨.ssmPoll cmd (some target), (true, true)⟩ :: ⟨.getHost target, host⟩ :: l₁
              have hroute : Repointed cfg t before :=
                ⟨target, host, [⟨.ssmPoll cmd (some target), (true, true)⟩], l₁, [], ht, by simp [before], hip, hplay⟩
              have hfirst : ¬ Saw before (.verifyDashboard t.id) true := by
                intro h
                rcases List.mem_cons.1 h with h | h
                · cases h
                rcases List.mem_cons.1 h with h | h
                · cases h
                · exact not_saw hl₁ rfl h
              exact verifyAndMove_step h₃ hg ho ht hp ⟨cmd, hc, hsaw _⟩ (.inr hroute) hfirst

/-- **What one tick does to one migration.** -/
theorem advanceMigration_step (hg : u.tenants.get t.id = some t) :
    (advanceMigration cfg t now).wpt durable (fun l _ w' => Steps cfg now t u l w') u := by
  unfold advanceMigration
  cases hp : t.migrationPhase with
  | none => exact Steps.still ⟨rfl, rfl⟩ ⟨rfl, rfl⟩ hg (.skips hp)
  | some phase =>
    simp only
    split
    · rename_i ho
      have hroll := @rollbackMigration_step cfg now t u u (watchdogReason t phase now) id ⟨rfl, rfl⟩ hg fun _ _ => .inl ho
      refine (Prog.wpt_bind ..).2 (Prog.wpt_mono ?_ hroll)
      rintro l done w' ⟨rfl, h⟩
      simpa [Prog.wpt] using h
    · rename_i ho
      have ho : overdue cfg t now = false := Bool.eq_false_iff.2 ho
      cases phase with
      | snapshot => exact advanceSnapshot_step ⟨rfl, rfl⟩ hg ho hp
      | restore => exact advanceRestore_step ⟨rfl, rfl⟩ hg ho hp
      | other p =>
        refine rollback_step (f := id) _ ⟨rfl, rfl⟩ hg fun l hl => .inr ⟨fun h => ?_, fun h => ?_⟩
        · exact absurd h.phase (by simp [hp])
        · exact absurd h.phase (by simp [hp])

end Advance

/-! ## The whole tick -/

/-- What a tick with the calls `l` makes of the scanned rows `ts` and of the counters; `movers` are those that moved.
Each row has its own calls among them. -/
structure Sweeps (now : Time) (ts : List TenantRow) (u : World) (l : CallLog) (w : World) (movers : List TenantRow) :
    Prop where
  sub : movers.Sublist ts
  rows : ∀ t ∈ ts, ∃ own moved t', own <:+: l ∧ (advanceMigration cfg t now).Plays own () ∧ (moved = true ↔ t ∈ movers) ∧
    Ticked cfg now t own moved t' ∧ w.tenants.get t.id = some t'
  others : ∀ id, id ∉ ts.map TenantRow.id → w.tenants.get id = u.tenants.get id
  counters : ∀ h ρ, w.booked h ρ = u.booked h ρ + (movers.map fun t => t.shift h ρ).sum

section Sweep

variable {cfg} {now : Time} {u w v : World}

theorem Sweeps.nil : Sweeps cfg now [] u [] u [] where
  sub := .slnil
  rows t ht := absurd ht List.not_mem_nil
  others _ _ := rfl
  counters h ρ := by simp

theorem Sweeps.cons {t : TenantRow} {ts movers : List TenantRow} {l l' : CallLog}
    (hn : ((t :: ts).map TenantRow.id).Nodup) (hp : (advanceMigration cfg t now).Plays l ())
    (h : Steps cfg now t u l w) (hf : ∀ id, id ≠ t.id → w.tenants.get id = u.tenants.get id)
    (h' : Sweeps cfg now ts w l' v movers) : ∃ movers, Sweeps cfg now (t :: ts) u (l ++ l') v movers := by
  obtain ⟨moved, t', ht, hg, hb⟩ := h
  have hn := List.nodup_cons.1 hn
  have hnot : t ∉ ts := fun hm => hn.1 (List.mem_map_of_mem hm)
  have hrow : v.tenants.get t.id = some t' := by rw [h'.others _ hn.1, hg]
  have hothers : ∀ id, id ∉ (t :: ts).map TenantRow.id → v.tenants.get id = u.tenants.get id := fun id hid => by
    rw [List.map_cons, List.mem_cons, not_or] at hid
    rw [h'.others _ hid.2, hf _ hid.1]
  have hne : ∀ s ∈ ts, s ≠ t := fun s hs e => hnot (e ▸ hs)
  have hfirst : l <:+: l ++ l' := (List.prefix_append ..).isInfix
  have hrest : ∀ {own : CallLog}, own <:+: l' → own <:+: l ++ l' := fun ho => ho.trans (List.suffix_append ..).isInfix
  cases moved with
  | true =>
    refine ⟨t :: movers, h'.sub.cons_cons t, fun s hs => ?_, hothers, fun a ρ => ?_⟩
    · rcases List.mem_cons.1 hs with rfl | hs
      · exact ⟨l, true, t', hfirst, hp, by simp, ht, hrow⟩
      · obtain ⟨own, moved, s', ho, hp', hm, hs', hg'⟩ := h'.rows s hs
        exact ⟨own, moved, s', hrest ho, hp', by simpa [hne s hs] using hm, hs', hg'⟩
    · rw [h'.counters, hb, if_pos rfl, List.map_cons, List.sum_cons, Int.add_assoc]
  | false =>
    refine ⟨movers, h'.sub.cons t, fun s hs => ?_, hothers, fun a ρ => ?_⟩
    · rcases List.mem_cons.1 hs with rfl | hs
      · exact ⟨l, false, t', hfirst, hp, by simpa using fun hm => hnot (h'.sub.subset hm), ht, hrow⟩
      · obtain ⟨own, moved, s', ho, hp', hm, hs', hg'⟩ := h'.rows s hs
        exact ⟨own, moved, s', hrest ho, hp', hm, hs', hg'⟩
    · rw [h'.counters, hb]
      simp

theorem advanceAll_sweeps {ts : List TenantRow} (hU : Unhandled u (fun t => t.status = .migrating) ts) :
    (advanceAll cfg now ts).wpt durable (fun l _ w' => ∃ movers, Sweeps cfg now ts u l w' movers) u := by
  induction ts generalizing u with
  | nil => exact ⟨[], .nil⟩
  | cons t ts ih =>
    obtain ⟨hg, hs⟩ := hU.rows t (by simp)
    unfold advanceAll
    split
    · rename_i h
      have hp : t.migrationPhase = none := h.resolve_left (by simp [hs])
      refine Prog.wpt_mono ?_ (ih (hU.tail fun _ _ => rfl))
      rintro l _ w' ⟨movers, h'⟩
      have hstill : Steps cfg now t u [] u := Steps.still ⟨rfl, rfl⟩ ⟨rfl, rfl⟩ hg (.skips hp)
      have hplays : (advanceMigration cfg t now).Plays [] () := by
        simp only [advanceMigration, hp]
        exact .ret ()
      exact Sweeps.cons hU.nodup hplays hstill (fun _ _ => rfl) h'
    · have honly := Prog.wpt_of_wp (E := durable) (Sem.wp_restrict (wp_onRow (w := u) (advanceMigration_onRow cfg t now)))
      refine (Prog.wpt_bind ..).2 (Prog.wpt_mono ?_
        (Prog.wpt_and (Prog.wpt_plays _ u) (Prog.wpt_and (advanceMigration_step hg) honly)))
      rintro l _ w' ⟨hplays, hstep, hf⟩
      refine Prog.wpt_mono ?_ (ih (hU.tail hf))
      rintro l' _ w'' ⟨movers, h'⟩
      exact Sweeps.cons hU.nodup hplays hstep hf h'

end Sweep

end OpenClaw
