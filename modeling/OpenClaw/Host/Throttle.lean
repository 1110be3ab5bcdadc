import OpenClaw.Host.Health

/-!
# Throttled health writes

The agent writes the health of a tenant only when it differs from the last write that succeeded, or when the refresh
period is over. A plain writer would write every tenant at every tick.

- `HealthCell.Truthful`: what `_last_ddb_write` remembers is in the row.
- `throttled_writes`: after a tick, a tenant whose writes succeeded has the health that the plain writer gives it, and
  the only status the agent changes is the one of a tenant it promotes.
-/

namespace OpenClaw

/-- `vm_health` and `app_health`. -/
abbrev HealthPair := Option VmHealth × Option AppHealth

def HealthRow.health (r : HealthRow) : HealthPair := (r.vmHealth, r.appHealth)

def ProbeInfo.health (info : ProbeInfo) : HealthPair := (some info.vmHealth, some info.appHealth)

/-- The plain writer: every tenant of the poll. -/
def writePlain (x : PollTick) (s : TenantId → HealthPair) : TenantId → HealthPair :=
  x.results.foldl (fun s e => Function.update s e.1 e.2.health) s

/-! ## Writes that fail -/

/-- The tenant waits for its gateway token. -/
def HealthCell.Waits (c : HealthCell) (info : ProbeInfo) (io : TenantIO) : Prop :=
  info.vmHealth = .up ∧ c.promoted = false ∧ io.token = none

/-- A write that the tick attempts for the tenant fails; a condition that fails is no failure. -/
def writeFailed (env : Int) (now : Time) (info : ProbeInfo) (io : TenantIO) (c : HealthCell) : Bool :=
  if info.vmHealth = .up ∧ c.promoted = false then
    match io.token with
    | none => false
    | some _ =>
      if io.promoteFails then true
      else if c.row.status = some .creating then false
      else writeDue env now info c.lastWrite && io.writeFails
  else writeDue env now info c.lastWrite && io.writeFails

/-! ## The cache and the row -/

/-- What the agent remembers of its last write is in the row. -/
def HealthCell.Truthful (c : HealthCell) : Prop :=
  ∀ prev, c.lastWrite = some prev → c.row.health = (some prev.vmHealth, some prev.appHealth)

section Cell

variable {env : Int} {now : Time} {info : ProbeInfo} {io : TenantIO} {c : HealthCell}

theorem HealthCell.Truthful.forget (c : HealthCell) : c.forget.Truthful := by
  intro prev h
  cases h

/-- Nothing is due only while the row has the health of the poll. -/
theorem health_of_not_due (hc : c.Truthful) (hdue : writeDue env now info c.lastWrite = false) :
    c.row.health = info.health := by
  cases hlast : c.lastWrite with
  | none => simp [hlast, writeDue] at hdue
  | some prev =>
    rw [hlast] at hdue
    simp only [writeDue, Bool.or_eq_false_iff, decide_eq_false_iff_not, not_not, Prod.mk.injEq] at hdue
    rw [hc prev hlast, ProbeInfo.health, hdue.1.1, hdue.1.2]

theorem stamp_health (r : HealthRow) : (r.stamp info now).health = info.health := rfl

theorem steadyWrite_truthful (hc : c.Truthful) : (steadyWrite env now info io c).Truthful := by
  unfold steadyWrite
  split
  · split
    · exact hc
    · intro prev h
      obtain rfl := Option.some.inj h
      exact stamp_health _
  · exact hc

theorem steadyWrite_health (hc : c.Truthful) (hok : (writeDue env now info c.lastWrite && io.writeFails) = false) :
    (steadyWrite env now info io c).row.health = info.health := by
  by_cases hdue : writeDue env now info c.lastWrite = true
  · have hw : io.writeFails = false := by simpa [hdue] using hok
    simp only [steadyWrite, hdue, hw, if_true, Bool.false_eq_true, if_false]
    exact stamp_health _
  · simp only [steadyWrite, hdue]
    exact health_of_not_due hc (Bool.eq_false_iff.2 hdue)

theorem steadyWrite_status : (steadyWrite env now info io c).row.status = c.row.status := by
  unfold steadyWrite
  split
  · split <;> rfl
  · rfl

/-- **The cache stays truthful**, whatever fails. -/
theorem writeTenant_truthful (hc : c.Truthful) : (writeTenant env now info io c).Truthful := by
  unfold writeTenant
  split
  · cases io.token with
    | none => exact hc
    | some token =>
      dsimp only
      split
      · exact hc
      · split
        · intro prev h
          obtain rfl := Option.some.inj h
          exact rfl
        · exact steadyWrite_truthful hc
  · exact steadyWrite_truthful hc

/-- **A tenant whose writes succeed** has the health of the poll. -/
theorem writeTenant_health (hc : c.Truthful) (hwait : ¬ c.Waits info io) (hok : writeFailed env now info io c = false) :
    (writeTenant env now info io c).row.health = info.health := by
  unfold writeFailed at hok
  unfold writeTenant
  by_cases hup : info.vmHealth = .up ∧ c.promoted = false
  · rw [if_pos hup] at hok ⊢
    cases htoken : io.token with
    | none => exact absurd ⟨hup.1, hup.2, htoken⟩ hwait
    | some token =>
      rw [htoken] at hok
      dsimp only at hok ⊢
      by_cases hp : io.promoteFails = true
      · simp [hp] at hok
      · rw [if_neg hp] at hok ⊢
        by_cases hcreating : c.row.status = some .creating
        · rw [if_pos hcreating]
          exact rfl
        · rw [if_neg hcreating] at hok ⊢
          exact steadyWrite_health hc hok
  · rw [if_neg hup] at hok ⊢
    exact steadyWrite_health hc hok

/-- **The promotion** is the only change of a status. -/
theorem writeTenant_status : (writeTenant env now info io c).row.status = c.row.status ∨
    c.row.status = some .creating ∧ (writeTenant env now info io c).row.status = some .running ∧
      info.vmHealth = .up ∧ ∃ token, io.token = some token := by
  unfold writeTenant
  by_cases hup : info.vmHealth = .up ∧ c.promoted = false
  · rw [if_pos hup]
    cases htoken : io.token with
    | none => exact .inl rfl
    | some token =>
      dsimp only
      by_cases hp : io.promoteFails = true
      · rw [if_pos hp]
        exact .inl rfl
      · rw [if_neg hp]
        by_cases hcreating : c.row.status = some .creating
        · rw [if_pos hcreating]
          exact .inr ⟨hcreating, rfl, hup.1, token, rfl⟩
        · rw [if_neg hcreating]
          exact .inl steadyWrite_status
  · rw [if_neg hup]
    exact .inl steadyWrite_status

end Cell

/-! ## Runs beside the plain writer -/

/-- What happens to the rows and to what the agent remembers. -/
inductive HealthEvent
  | tick (now : Time) (x : PollTick)
  /-- Others write the rows, but not their health. -/
  | others (f : TenantId → HealthRow → HealthRow) (keeps : ∀ t r, (f t r).health = r.health)
  /-- The agent forgets everything. -/
  | restart

/-- The rows with what the agent remembers, and the health the plain writer would have written. -/
structure HealthTables where
  cells : TenantId → HealthCell
  plain : TenantId → HealthPair

/-- An agent that has just started. -/
def HealthTables.start (rows : TenantId → HealthRow) : HealthTables :=
  ⟨fun t => { row := rows t }, fun t => (rows t).health⟩

def HealthTables.step (env : Int) (s : HealthTables) : HealthEvent → HealthTables
  | .tick now x => ⟨writeDdb env now x s.cells, writePlain x s.plain⟩
  | .others f _ => { s with cells := fun t => { s.cells t with row := f t (s.cells t).row } }
  | .restart => { s with cells := fun t => (s.cells t).forget }

def HealthTables.run (env : Int) (s : HealthTables) (evs : List HealthEvent) : HealthTables := evs.foldl (step env) s

section Run

variable {env : Int} {s : HealthTables}

theorem writePlain_probed {x : PollTick} {tid : TenantId} {info : ProbeInfo} (h : (tid, info) ∈ x.results)
    (p : TenantId → HealthPair) : writePlain x p tid = info.health :=
  foldl_update_mem (fun _ (a : ProbeInfo) _ => a.health) _ p x.nodup h

theorem HealthTables.step_truthful (h : ∀ t, (s.cells t).Truthful) (e : HealthEvent) (t : TenantId) :
    ((s.step env e).cells t).Truthful := by
  cases e with
  | tick now x =>
    by_cases ht : t ∈ x.results.map Prod.fst
    · obtain ⟨⟨t, info⟩, he, rfl⟩ := List.mem_map.1 ht
      have hcell : (s.step env (.tick now x)).cells t = writeTenant env now info (x.io t) (s.cells t) :=
        writeDdb_probed he
      rw [hcell]
      exact writeTenant_truthful (h t)
    · have hcell : (s.step env (.tick now x)).cells t = (s.cells t).forget := writeDdb_absent ht
      rw [hcell]
      exact .forget _
  | others f keeps => exact fun prev hprev => (keeps t _).trans (h t prev hprev)
  | restart => exact .forget _

theorem HealthTables.run_truthful (rows : TenantId → HealthRow) (evs : List HealthEvent) (t : TenantId) :
    (((HealthTables.start rows).run env evs).cells t).Truthful := by
  induction evs using List.reverseRecOn generalizing t with
  | nil => exact .forget { row := rows t }
  | append_singleton evs e ih =>
    rw [run, List.foldl_append]
    exact step_truthful ih e t

end Run

/-- What the tick after the state `s` does to the rows, beside the plain writer. -/
structure LosesNoChange (env : Int) (s : HealthTables) (now : Time) (x : PollTick) : Prop where
  /-- A tenant whose writes succeed, and that does not wait for its token, has the health of the plain writer. -/
  health : ∀ tid info, (tid, info) ∈ x.results → ¬ (s.cells tid).Waits info (x.io tid) →
    writeFailed env now info (x.io tid) (s.cells tid) = false →
    ((s.step env (.tick now x)).cells tid).row.health = (s.step env (.tick now x)).plain tid
  /-- The status changes only from `creating` to `running`, for a VM probed up whose token was read. -/
  status : ∀ tid, ((s.step env (.tick now x)).cells tid).row.status ≠ (s.cells tid).row.status →
    (s.cells tid).row.status = some .creating ∧ ((s.step env (.tick now x)).cells tid).row.status = some .running ∧
      ∃ info, (tid, info) ∈ x.results ∧ info.vmHealth = .up ∧ ∃ token, (x.io tid).token = some token

/-- **Throttled writes lose no change**, at any tick of any run of the agent, with any writes failing. -/
theorem throttled_writes (env : Int) (rows : TenantId → HealthRow) (evs : List HealthEvent) (now : Time)
    (x : PollTick) : LosesNoChange env ((HealthTables.start rows).run env evs) now x := by
  constructor
  · intro tid info hmem hwait hok
    have hcell : (HealthTables.step env ((HealthTables.start rows).run env evs) (.tick now x)).cells tid =
        writeTenant env now info (x.io tid) (((HealthTables.start rows).run env evs).cells tid) := writeDdb_probed hmem
    have hplain : (HealthTables.step env ((HealthTables.start rows).run env evs) (.tick now x)).plain tid =
        info.health := writePlain_probed hmem _
    rw [hcell, hplain]
    exact writeTenant_health (HealthTables.run_truthful rows evs tid) hwait hok
  · intro tid hne
    by_cases ht : tid ∈ x.results.map Prod.fst
    · obtain ⟨⟨tid, info⟩, hmem, rfl⟩ := List.mem_map.1 ht
      have hcell : (HealthTables.step env ((HealthTables.start rows).run env evs) (.tick now x)).cells tid =
          writeTenant env now info (x.io tid) (((HealthTables.start rows).run env evs).cells tid) :=
        writeDdb_probed hmem
      rw [hcell] at hne ⊢
      obtain ⟨hcreating, hrunning, hup, htoken⟩ := writeTenant_status.resolve_left hne
      exact ⟨hcreating, hrunning, info, hmem, hup, htoken⟩
    · have hcell : (HealthTables.step env ((HealthTables.start rows).run env evs) (.tick now x)).cells tid =
          (((HealthTables.start rows).run env evs).cells tid).forget := writeDdb_absent ht
      rw [hcell] at hne
      exact absurd rfl hne

/-- A failed write is made up for by the next tick, although the health has not changed in between. -/
example : (((HealthTables.start fun _ => {}).run 60
    [.tick 0 ⟨[("a", ⟨.down, .down, none⟩)], by decide, fun _ => { writeFails := true }⟩,
      .tick 5000000 ⟨[("a", ⟨.down, .down, none⟩)], by decide, fun _ => {}⟩]).cells "a").row.health =
    (some .down, some .down) := by decide

end OpenClaw
