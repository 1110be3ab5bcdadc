import OpenClaw.Migration.Tick

/-!
# The sweep moves a tenant behind its gates

From the row the migrate action wrote, through any sequence of ticks. The gates decide: a tick moves the tenants that
passed all of them, and no other.

- `InProgress.ticked`: a tick leaves the row migrating with a complete context, or running without one.
- `migration_sweep_safe`: what a tick of any run does to the ownership of every tenant, to the counters of every host
  and to the row.
-/

namespace OpenClaw

open Keyed Atomic

variable (cfg : Config)

/-! ## The row -/

/-- A migration under way, with everything the sweep reads; it was started at `st` with the command `snap`. -/
structure InProgress (st : Time) (snap : CommandId) (t : TenantRow) : Prop where
  status : t.status = .migrating
  startedAt : t.migrationStartedAt = some st
  hosted : t.hostId.isSome = true
  source : t.migrationSource = t.hostId
  target : t.migrationTarget.isSome = true
  targetVmNum : t.migrationTargetVmNum.isSome = true
  snapCmd : t.migrationSnapCmd = some snap
  mode : t.migrationMode.isSome = true
  uri : t.migrationSnapshotUri.isSome = true
  phase : t.migrationPhase = some .snapshot ∨ t.migrationPhase = some .restore ∧ t.migrationRestoreCmd.isSome = true

/-- No migration: running, with none of the attributes of the context. -/
structure Settled (t : TenantRow) : Prop where
  status : t.status = .running
  clear : t = t.clearMigration

/-- The row is one of the two. -/
def Between (st : Time) (snap : CommandId) (t : TenantRow) : Prop := InProgress st snap t ∨ Settled t

section Rows

variable {cfg} {now st : Time} {snap : CommandId} {t t' : TenantRow} {l : CallLog} {moved : Bool}

theorem InProgress.ticked (hp : InProgress st snap t) (h : Ticked cfg now t l moved t') : Between st snap t' := by
  cases h with
  | skips hn => rcases hp.phase with he | ⟨he, -⟩ <;> simp [he] at hn
  | waits => exact .inl hp
  | fires => exact .inl { hp with phase := .inr ⟨rfl, rfl⟩ }
  | rollsBack => exact .inr ⟨rfl, rfl⟩
  | moves => exact .inr ⟨rfl, rfl⟩

/-- The watchdog: no migration outlives it. -/
theorem InProgress.overdue_ticked (hp : InProgress st snap t) (h : Ticked cfg now t l moved t')
    (ho : minutes cfg.migrationWatchdogMinutes < now - st) : t'.status = .running := by
  have hover : overdue cfg t now = true := by simpa [overdue, hp.startedAt] using ho
  cases h with
  | skips hn => rcases hp.phase with he | ⟨he, -⟩ <;> simp [he] at hn
  | waits hf => simp [hover] at hf
  | fires hf => simp [hover] at hf
  | rollsBack => rfl
  | moves => rfl

/-- A tick that does not move the tenant leaves it where it is. -/
theorem Ticked.stays (h : Ticked cfg now t l false t') : t'.hostId = t.hostId ∧ t'.vmNum = t.vmNum := by
  cases h <;> exact ⟨rfl, rfl⟩

/-- A tick that moves the tenant moves it to the target of the migration. -/
theorem Ticked.arrives (h : Ticked cfg now t l true t') : Gated cfg t l ∧ t.migrationTarget.isSome = true ∧
    t'.hostId = t.migrationTarget ∧ t'.vmNum = some (t.migrationTargetVmNum.getD 1) := by
  cases h with
  | moves _ _ hg ht => exact ⟨hg, by simp [ht], ht.symm, rfl⟩

/-- The phase `restore` is entered in a tick that saw the snapshot succeed. -/
theorem Ticked.enters_restore (h : Ticked cfg now t l moved t') (hp : t'.migrationPhase = some .restore) :
    t.migrationPhase = some .restore ∨
      ∃ snap, t.migrationSnapCmd = some snap ∧ Saw l (.ssmPoll snap t.migrationSource) (true, true) := by
  cases h with
  | skips => exact .inl hp
  | waits => exact .inl hp
  | fires _ hr => exact .inr hr.taken
  | rollsBack => cases hp
  | moves => cases hp

theorem Ticked.source (h : Ticked cfg now t l moved t') : t'.migrationSource = t.migrationSource ∨ t'.migrationPhase = none := by
  cases h with
  | skips => exact .inl rfl
  | waits => exact .inl rfl
  | fires => exact .inl rfl
  | rollsBack => exact .inr rfl
  | moves => exact .inr rfl

end Rows

/-! ## The migrate action -/

/-- The row is that of a migration that was just started. -/
def JustStarted (st : Time) (snap : CommandId) (t : TenantRow) : Prop :=
  InProgress st snap t ∧ t.migrationPhase = some .snapshot

theorem startMigration_writes {t : TenantRow} {mode : MigrationMode} {target : HostRow} {w : World}
    (hg : w.tenants.get t.id = some t) :
    (startMigration cfg t mode target).wp durable (fun r w' => r = 202 → ∃ st snap row,
      w'.tenants.get t.id = some row ∧ JustStarted st snap row) w := by
  simp only [startMigration, req_bind, Prog.pure_eq]
  refine quiet_call ⟨rfl, rfl, rfl⟩ fun now w₁ ht₁ _ => quiet_call ⟨rfl, rfl, rfl⟩ fun cmd w₂ ht₂ _ => ?_
  have ht := ht₂.trans ht₁
  cases cmd with
  | none => rintro ⟨⟩
  | some cmd =>
    cases hh : t.hostId with
    | none => rintro ⟨⟩
    | some source =>
      rintro ok w₃ ⟨hw, t', ht', hs₃⟩ -
      obtain rfl : ok = true := hw
      obtain rfl : t = t' := by
        rw [ht, hg] at ht'
        exact Option.some.inj ht'
      obtain rfl : w₃ = w₂.putTenant _ := hs₃
      refine ⟨now, cmd, _, Table.get_put_self w₂.tenants _, ⟨rfl, rfl, ?_, hh.symm, rfl, rfl, rfl, rfl, rfl, .inl rfl⟩, rfl⟩
      exact Option.isSome_iff_exists.2 ⟨source, hh⟩

/-- The migrate action that answers 202 wrote the row of a migration. -/
theorem migrateAction_writes (tid : TenantId) (dest : HostId) (w : World) :
    (tenantAction cfg tid (.migrate dest)).wp durable (fun r w' => r = 202 → ∃ st snap row,
      w'.tenants.get tid = some row ∧ JustStarted st snap row) w := by
  simp only [tenantAction, req_bind, Prog.pure_eq]
  rintro item w₁ ⟨-, rfl, rfl⟩
  cases hg : w₁.tenants.get tid with
  | none => rintro ⟨⟩
  | some t =>
    obtain rfl := Table.key_of_get hg
    simp only [migrate, req_bind, Prog.pure_eq]
    cases migrateMode cfg with
    | none => rintro ⟨⟩
    | some mode =>
      simp only
      split
      · rintro ⟨⟩
      split
      · rintro ⟨⟩
      refine quiet_call ⟨rfl, rfl, rfl⟩ fun row w₂ ht _ => ?_
      cases row with
      | none => rintro ⟨⟩
      | some row =>
        simp only
        split
        · rintro ⟨⟩
        split
        · exact startMigration_writes cfg (by rw [ht, hg])
        · rintro ⟨⟩

/-! ## Ticks -/

/-- The worlds reached from `w₀` by ticks, at any times, with all the calls they made. -/
inductive Ticks (w₀ : World) : CallLog → World → Prop
  | none : Ticks w₀ [] w₀
  | tick {log l : CallLog} {w w' : World} {now : Time} : Ticks w₀ log w →
      (migrationSweep cfg now).Traces durable w l () w' → Ticks w₀ (log ++ l) w'

/-- What its own calls `own` of a tick decide about a migrating row. -/
structure Turn (now : Time) (t : TenantRow) (own : CallLog) (moved : Prop) (t' : TenantRow) : Prop where
  plays : (advanceMigration cfg t now).Plays own ()
  /-- It moves exactly when every gate passed. -/
  moves : moved ↔ overdue cfg t now = false ∧ t.migrationTarget.isSome = true ∧ Gated cfg t own
  /-- A snapshot that was seen to succeed has its restore sent. -/
  sends : overdue cfg t now = false → Ready t own → ∃ r, Saw own (.ssmSend t.migrationTarget (restoreOf t)) r
  fires : t.migrationPhase = some .snapshot → (t'.migrationPhase = some .restore ↔
    overdue cfg t now = false ∧ Ready t own ∧ ∃ cmd : CommandId, Saw own (.ssmSend t.migrationTarget (restoreOf t)) (some cmd))
  /-- A phase lasts only while its command runs. -/
  waits : t.migrationPhase.isSome = true → t'.migrationPhase = t.migrationPhase →
    overdue cfg t now = false ∧ Waiting t own ∧ t' = t

/-- What one tick at `now` with the calls `l` does to the ownership of tenants and to the counters of hosts: `movers`
move to their targets, behind the gates, and nothing else changes; and the gates decide who they are. -/
structure Moves (now : Time) (u : World) (l : CallLog) (w : World) (movers : List TenantRow) : Prop where
  nodup : (movers.map TenantRow.id).Nodup
  gated : ∀ t ∈ movers, u.tenants.get t.id = some t ∧ Gated cfg t l
  moved : ∀ t ∈ movers, ∃ t', w.tenants.get t.id = some t' ∧ t.migrationTarget.isSome = true ∧
    t'.hostId = t.migrationTarget ∧ t'.vmNum = some (t.migrationTargetVmNum.getD 1)
  others : ∀ t ∈ u.tenants.rows, t ∉ movers →
    ∃ t', w.tenants.get t.id = some t' ∧ t'.hostId = t.hostId ∧ t'.vmNum = t.vmNum
  counters : ∀ h ρ, w.booked h ρ = u.booked h ρ + (movers.map fun t => t.shift h ρ).sum
  turns : ∀ t ∈ u.tenants.rows, t.status = .migrating → ∃ own t', own <:+: l ∧ w.tenants.get t.id = some t' ∧
    Turn cfg now t own (t ∈ movers) t'

/-- What a tick at `now` makes of the row of a migration started at `st`, after ticks with the calls `log`. -/
structure RowSafe (st : Time) (snap : CommandId) (now : Time) (log : CallLog) (movers : List TenantRow)
    (t t' : TenantRow) : Prop where
  /-- A tenant that moves leaves the source of its migration, which is its host. -/
  source : t ∈ movers → InProgress st snap t
  /-- The phase `restore` was entered after the snapshot was seen to succeed. -/
  snapshot : t.migrationPhase = some .restore → Saw log (.ssmPoll snap t.hostId) (true, true)
  between : Between st snap t'
  watchdog : minutes cfg.migrationWatchdogMinutes < now - st → t'.status = .running

section Runs

variable {cfg} {w w' : World} {l : CallLog} {now : Time}

theorem Ticked.turn {t t' : TenantRow} {own : CallLog} {moved : Bool} {P : Prop} (h : Ticked cfg now t own moved t')
    (hp : (advanceMigration cfg t now).Plays own ()) (hm : moved = true ↔ P) : Turn cfg now t own P t' where
  plays := hp
  moves := hm.symm.trans h.moved_iff
  sends := h.sent
  fires := h.fired_iff
  waits := h.waiting

theorem sweep_sweeps (h : (migrationSweep cfg now).Traces durable w l () w') :
    ∃ ts movers, Sweeps cfg now ts w l w' movers ∧ ts.Perm (w.tenants.rows.filter (TenantFilter.status .migrating).holds) := by
  let Q : CallLog → Unit → World → Prop := fun l _ w' => ∃ ts movers, Sweeps cfg now ts w l w' movers ∧
    ts.Perm (w.tenants.rows.filter (TenantFilter.status .migrating).holds)
  suffices hQ : (migrationSweep cfg now).wpt durable Q w from Prog.wpt_iff_traces.1 hQ _ _ _ h
  simp only [migrationSweep, req_bind]
  rintro ts w₁ ⟨-, hp, rfl⟩
  have hU : Unhandled w₁ (fun t => t.status = .migrating) ts :=
    Unhandled.of_scan hp fun t ht => by simpa [TenantFilter.holds] using ht
  refine Prog.wpt_mono ?_ (advanceAll_sweeps hU)
  rintro l _ w' ⟨movers, hs⟩
  refine ⟨ts, movers, ⟨hs.sub, fun t ht => ?_, hs.others, hs.counters⟩, hp⟩
  obtain ⟨own, moved, t', ho, hrest⟩ := hs.rows t ht
  exact ⟨own, moved, t', List.infix_cons ho, hrest⟩

theorem mem_scan {ts : List TenantRow} (hp : ts.Perm (w.tenants.rows.filter (TenantFilter.status .migrating).holds))
    {t : TenantRow} : t ∈ ts ↔ t ∈ w.tenants.rows ∧ t.status = .migrating := by
  rw [hp.mem_iff, List.mem_filter]
  simp [TenantFilter.holds]

theorem not_scanned {ts : List TenantRow} (hp : ts.Perm (w.tenants.rows.filter (TenantFilter.status .migrating).holds))
    {t : TenantRow} (ht : t ∈ w.tenants.rows) (hs : t.status ≠ .migrating) : t.id ∉ ts.map TenantRow.id := by
  intro hm
  obtain ⟨s, hs', he⟩ := List.mem_map.1 hm
  obtain ⟨hrow, hst⟩ := (mem_scan hp).1 hs'
  have heq : s = t := Table.eq_of_key hrow ht he
  exact hs (heq ▸ hst)

theorem Sweeps.moves {ts movers : List TenantRow} (h : Sweeps cfg now ts w l w' movers)
    (hp : ts.Perm (w.tenants.rows.filter (TenantFilter.status .migrating).holds)) : Moves cfg now w l w' movers where
  nodup := by
    have hn : (ts.map TenantRow.id).Nodup :=
      (hp.map _).nodup_iff.2 (w.tenants.nodup.sublist (List.filter_sublist.map _))
    exact hn.sublist (h.sub.map _)
  gated t ht := by
    obtain ⟨own, moved, t', ho, -, hm, ht', -⟩ := h.rows t (h.sub.subset ht)
    obtain rfl := hm.2 ht
    exact ⟨Table.get_of_mem ((mem_scan hp).1 (h.sub.subset ht)).1, ht'.arrives.1.mono ho⟩
  moved t ht := by
    obtain ⟨own, moved, t', -, -, hm, ht', hg⟩ := h.rows t (h.sub.subset ht)
    obtain rfl := hm.2 ht
    exact ⟨t', hg, ht'.arrives.2⟩
  others t ht hnot := by
    by_cases hs : t.status = .migrating
    · obtain ⟨own, moved, t', -, -, hm, ht', hg⟩ := h.rows t ((mem_scan hp).2 ⟨ht, hs⟩)
      obtain rfl : moved = false := Bool.eq_false_iff.2 fun e => hnot (hm.1 e)
      exact ⟨t', hg, ht'.stays⟩
    · exact ⟨t, by rw [h.others _ (not_scanned hp ht hs), Table.get_of_mem ht], rfl, rfl⟩
  counters := h.counters
  turns t ht hs := by
    obtain ⟨own, moved, t', ho, hplays, hm, ht', hg⟩ := h.rows t ((mem_scan hp).2 ⟨ht, hs⟩)
    exact ⟨own, t', ho, hg, ht'.turn hplays hm⟩

/-- The row of one migration through the ticks. -/
def RowInv (st : Time) (snap : CommandId) (log : CallLog) (t : TenantRow) : Prop :=
  Between st snap t ∧ (t.migrationPhase = some .restore → Saw log (.ssmPoll snap t.hostId) (true, true))

theorem Sweeps.rowSafe {ts movers : List TenantRow} {tid : TenantId} {st : Time} {snap : CommandId} {log : CallLog}
    {t : TenantRow} (h : Sweeps cfg now ts w l w' movers)
    (hp : ts.Perm (w.tenants.rows.filter (TenantFilter.status .migrating).holds)) (hg : w.tenants.get tid = some t)
    (hI : RowInv st snap log t) :
    ∃ t', w'.tenants.get tid = some t' ∧ RowSafe cfg st snap now log movers t t' ∧ RowInv st snap (log ++ l) t' := by
  obtain ⟨ht, rfl⟩ := Table.get_eq_some.1 hg
  rcases hI.1 with hpr | hset
  · obtain ⟨own, moved, t', ho, -, hm, htk, hg'⟩ := h.rows t ((mem_scan hp).2 ⟨ht, hpr.status⟩)
    refine ⟨t', hg', ⟨fun _ => hpr, hI.2, hpr.ticked htk, hpr.overdue_ticked htk⟩, hpr.ticked htk, fun hr => ?_⟩
    have hhost : t'.hostId = t.hostId := by
      cases htk <;> first | rfl | cases hr
    rw [hhost]
    rcases htk.enters_restore hr with he | ⟨s, hs, hsaw⟩
    · exact List.mem_append_left _ (hI.2 he)
    · obtain rfl : snap = s := Option.some.inj (hpr.snapCmd.symm.trans hs)
      exact List.mem_append_right _ (ho.subset (hpr.source ▸ hsaw))
  · have hne : t.status ≠ .migrating := by simp [hset.status]
    have hphase : t.migrationPhase = none := by rw [hset.clear]; rfl
    refine ⟨t, by rw [h.others _ (not_scanned hp ht hne), hg], ⟨fun hm => ?_, hI.2, hI.1, fun _ => hset.status⟩, hI.1,
      fun hr => ?_⟩
    · exact absurd ((mem_scan hp).1 (h.sub.subset hm)).2 hne
    · simp [hphase] at hr

theorem Ticks.rowInv {w₀ w₁ : World} {tid : TenantId} {st : Time} {snap : CommandId} {log : CallLog} {t : TenantRow}
    (hg : w₀.tenants.get tid = some t) (hj : JustStarted st snap t) (h : Ticks cfg w₀ log w₁) :
    ∃ t, w₁.tenants.get tid = some t ∧ RowInv st snap log t := by
  induction h with
  | none => exact ⟨t, hg, .inl hj.1, fun hr => by simp [hj.2] at hr⟩
  | tick _ htick ih =>
    obtain ⟨t, ht, hI⟩ := ih
    obtain ⟨ts, movers, hs, hp⟩ := sweep_sweeps htick
    obtain ⟨t', ht', -, hI'⟩ := hs.rowSafe hp ht hI
    exact ⟨t', ht', hI'⟩

end Runs

/-- What a tick at `now` with the calls `l`, after ticks with the calls `log`, may do after the migrate action on `tid`
left the world `w₁`. -/
def TickSafe (tid : TenantId) (w₁ : World) (log : CallLog) (w : World) (now : Time) (l : CallLog) (w' : World) : Prop :=
  ∃ st snap row, w₁.tenants.get tid = some row ∧ JustStarted st snap row ∧
    ∃ movers, Moves cfg now w l w' movers ∧
      ∃ t t', w.tenants.get tid = some t ∧ w'.tenants.get tid = some t' ∧ RowSafe cfg st snap now log movers t t'

/-- **The sweep is safe**: in every tick of every run after a migrate action, the tenants that passed the gates change
hands, with their amounts, and nobody else; and the row of the migration stays complete until it is settled. -/
theorem migration_sweep_safe {w₀ w₁ w w' : World} {tid : TenantId} {dest : HostId} {log l : CallLog} {now : Time}
    (hm : (tenantAction cfg tid (.migrate dest)).Runs durable w₀ 202 w₁) (hs : Ticks cfg w₁ log w)
    (ht : (migrationSweep cfg now).Traces durable w l () w') : TickSafe cfg tid w₁ log w now l w' := by
  obtain ⟨st, snap, row, hg, hj⟩ := Prog.wp_iff_runs.1 (migrateAction_writes cfg tid dest w₀) _ _ hm rfl
  obtain ⟨t, hgt, hI⟩ := hs.rowInv hg hj
  obtain ⟨ts, movers, hsw, hp⟩ := sweep_sweeps ht
  obtain ⟨t', hgt', hsafe, -⟩ := hsw.rowSafe hp hgt hI
  exact ⟨st, snap, row, hg, hj, movers, hsw.moves hp, t, t', hgt, hgt', hsafe⟩

/-- A migration from the first host to the second, which its second tick completes. -/
theorem migration_sweep_safe_twoHosts : ∃ w₁ log w l w',
    (tenantAction {} "a-0000" (.migrate "i-2")).Runs durable twoHosts 202 w₁ ∧ Ticks {} w₁ log w ∧
    (migrationSweep {} 0).Traces durable w l () w' ∧
    (w.tenants.get "a-0000").any (fun t => t.hostId = some "i-1") = true ∧
    (w'.tenants.get "a-0000").any (fun t => t.hostId = some "i-2") = true ∧
    TickSafe {} "a-0000" w₁ log w 0 l w' := by
  let chk : (c : Call) → c.Ans → World → Bool := fun c r _ => c.written r
  have hrun : ((ctlOracle.alone chk (tenantAction {} "a-0000" (.migrate "i-2")) (List.replicate 5 {}) twoHosts).bind
      fun x => (ctlOracle.alone chk (migrationSweep {} 0) (List.replicate 5 {}) x.2.2).bind
      fun y => (ctlOracle.alone chk (migrationSweep {} 0) (List.replicate 17 {}) y.2.2).map
      fun z => (x, y, z)).any (fun r => r.1.2.1 = 202 ∧
        (r.2.1.2.2.tenants.get "a-0000").any (fun t => t.hostId = some "i-1") ∧
        (r.2.2.2.2.tenants.get "a-0000").any (fun t => t.hostId = some "i-2")) = true := by
    decide +kernel
  obtain ⟨⟨⟨l₁, a, w₁⟩, ⟨l₂, u₂, w⟩, ⟨l, u, w'⟩⟩, hr, hP⟩ := (Option.any_eq_true _ _).1 hrun
  obtain ⟨x, hx, hr⟩ := Option.bind_eq_some_iff.1 hr
  obtain ⟨y, hy, hr⟩ := Option.bind_eq_some_iff.1 hr
  obtain ⟨z, hz, he⟩ := Option.map_eq_some_iff.1 hr
  simp only [Prod.mk.injEq] at he
  obtain ⟨rfl, rfl, rfl⟩ := he
  simp only [decide_eq_true_eq] at hP
  obtain ⟨rfl, h₁, h₂⟩ := hP
  have hchk : ∀ c r w, chk c r w = true → c.written r = true := fun _ _ _ h => h
  have hm := (Oracle.alone_sound hchk hx).runs
  have hs : Ticks {} w₁ ([] ++ l₂) w := .tick .none (Oracle.alone_sound hchk hy)
  have ht := Oracle.alone_sound hchk hz
  exact ⟨w₁, _, w, l, w', hm, hs, ht, h₁, h₂, migration_sweep_safe {} hm hs ht⟩

end OpenClaw
