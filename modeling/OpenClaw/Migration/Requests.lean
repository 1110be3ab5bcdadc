import OpenClaw.Control.Execute
import OpenClaw.Control.Frame

/-!
# Migration requests

Sweeps, cancel-migration and migrate actions run interleaved. A migrate action stores the id of its snapshot command in
the row (`migration_snap_cmd`); the id names the request, and a sweep works for the request in the row it scanned.
What a run does for each request is a list of `MigAct`s, read off its calls and what each process remembers
(`Memory`).

- `migJobs_obey`: the calls of the three programs (`migProtocol`).
-/

namespace OpenClaw

open Keyed Atomic

variable (cfg : Config)

inductive MigJob
  | sweep (now : Time)
  | cancel (tid : TenantId)
  | migrate (tid : TenantId) (dest : HostId)

/-- Sweeps, cancellations and migrate actions. -/
def migJobs : Jobs Ctl World MigJob Unit where
  body
    | .sweep now => migrationSweep cfg now
    | .cancel tid => tenantAction cfg tid .cancelMigration >>= fun _ => pure ()
    | .migrate tid dest => tenantAction cfg tid (.migrate dest) >>= fun _ => pure ()
  start _ w w' := w' = w

/-! ## What a process remembers -/

structure Memory where
  job : MigJob
  /-- The rows the sweep scanned. -/
  scanned : List TenantRow := []
  /-- The row the action read. -/
  read : Option TenantRow := none
  /-- The snapshot command that was sent and is not in the row yet. -/
  cmd : Option CommandId := none
  /-- The request whose tenant was moved last, and which of its counters have been moved. -/
  moving : Option CommandId := none
  unbooked : Bool := true
  booked : Bool := true

/-- The request in the row that was scanned. -/
def Memory.requestOf (m : Memory) (tid : TenantId) : Option CommandId :=
  (m.scanned.find? fun t => t.id = tid).bind TenantRow.migrationSnapCmd

@[simp] def Memory.next (m : Memory) : (c : Call) → c.Ans → Memory
  | .scanTenants _, r => { m with scanned := r }
  | .getTenant _, r => { m with read := r }
  | .ssmSend _ _, r =>
    match m.job with
    | .migrate _ _ => { m with cmd := r }
    | _ => m
  | .updTenant _ (.migrate _), true => { m with cmd := none }
  | .updTenant tid (.migrated _ _ _), true => { m with moving := m.requestOf tid, unbooked := false, booked := false }
  | .updHost _ (.unbook _ _), some _ => { m with unbooked := true }
  | .updHost _ (.bump _ _), some _ => { m with booked := true }
  | _, _ => m

/-- The writes of each program. -/
@[simp] def Memory.allow (m : Memory) (c : Call) : Prop :=
  match m.job, c with
  | .sweep _, .updTenant _ (.rollback _ _) => True
  | .sweep _, .updTenant _ (.restoreFired _ _) => True
  | .sweep _, .updTenant tid (.migrated h _ _) =>
    ∃ t, m.scanned.find? (fun t => t.id = tid) = some t ∧ t.migrationTarget = some h
  | .sweep _, .updHost _ (.unbook _ _) => m.unbooked = false
  | .sweep _, .updHost _ (.bump _ _) => m.booked = false
  | .sweep _, .raiseNext _ _ => True
  | .cancel _, .updTenant _ (.rollback _ _) => True
  | .migrate _ _, .updTenant _ (.migrate ctx) => m.cmd = some ctx.snapCmd
  | _, c => c.quiet

/-- Scans return each row once. -/
def migProtocol : Protocol Ctl MigJob Memory where
  init j := { job := j }
  allow := Memory.allow
  sane _ c :=
    match c with
    | .scanTenants _ => fun r => (r.map TenantRow.id).Nodup
    | _ => fun _ => True
  next := Memory.next

/-! ## What a run does for the requests -/

inductive MigAct
  /-- The migrate action stored the request. -/
  | requested (q : CommandId) (tid : TenantId) (target : HostId)
  /-- cancel-migration cleared the row and answers 200. -/
  | cancelled (q : CommandId)
  | restoreSent (q : CommandId)
  | restoreFired (q : CommandId)
  | flipped (q : CommandId) (target : HostId)
  | unbooked (q : CommandId)
  | booked (q : CommandId)
deriving DecidableEq

/-- The request a process of the sweep acts for. -/
def MigAct.effectFor : MigAct → Option CommandId
  | .requested _ _ _ | .cancelled _ => none
  | .restoreSent q | .restoreFired q | .flipped q _ | .unbooked q | .booked q => some q

@[simp] def Memory.acts (m : Memory) (c : Call) (r : c.Ans) : List MigAct :=
  match m.job, c, r with
  | .migrate _ _, .updTenant tid (.migrate ctx), true => [.requested ctx.snapCmd tid ctx.target]
  | .cancel _, .updTenant _ (.rollback _ _), true => ((m.read.bind TenantRow.migrationSnapCmd).map .cancelled).toList
  | .sweep _, .ssmSend _ (.migrateVm _ tid _ _), some _ => ((m.requestOf tid).map .restoreSent).toList
  | .sweep _, .updTenant tid (.restoreFired _ _), true => ((m.requestOf tid).map .restoreFired).toList
  | .sweep _, .updTenant tid (.migrated h _ _), true => ((m.requestOf tid).map (.flipped · h)).toList
  | .sweep _, .updHost _ (.unbook _ _), some _ => (m.moving.map .unbooked).toList
  | .sweep _, .updHost _ (.bump _ _), some _ => (m.moving.map .booked).toList
  | _, _, _ => []

/-- The acts of a run, in order. -/
def migActs {ι : Type} [DecidableEq ι] (tr : List (Ev Ctl MigJob ι)) : List MigAct := migProtocol.observe Memory.acts tr

/-! ## The programs keep to the protocol -/

section Obeys

variable {cfg} {α : Type} {m : Memory}

theorem obeys_of_routes {p : CtlProg α} (hp : p.All Call.routes) : p.obeys migProtocol (fun _ m' => m' = m) m := by
  refine Prog.All.obeys (fun c hc => ⟨?_, fun r => ?_⟩) hp
  · show Memory.allow m c
    cases hj : m.job <;> cases c <;>
      first | exact False.elim hc | (simp only [Memory.allow, hj]; exact ⟨rfl, rfl, rfl⟩)
  · show Memory.next m c r = m
    cases c <;> first | rfl | exact False.elim hc

/-! ### The sweep -/

/-- A sweep that scanned the rows. -/
def Sweeper (now : Time) (rows : List TenantRow) (m : Memory) : Prop := m.job = .sweep now ∧ m.scanned = rows

variable {now : Time} {rows : List TenantRow} {t : TenantRow}

theorem allow_quiet {c : Call} (hc : c.quiet) : m.allow c := by
  cases hj : m.job <;> cases c <;>
    first | (simp only [Memory.allow, hj]; exact hc) | exact Bool.noConfusion hc.1 | exact Bool.noConfusion hc.2.1

/-- The call is a scan of the tenants. -/
def Call.scansTenants : Call → Bool
  | .scanTenants _ => true
  | _ => false

theorem Sweeper.next (hm : Sweeper now rows m) {c : Call} (hc : c.scansTenants = false) (r : c.Ans) :
    Sweeper now rows (m.next c r) := by
  cases c
  case scanTenants => exact Bool.noConfusion hc
  case getTenant => exact hm
  case ssmSend =>
    unfold Memory.next
    rw [hm.1]
    exact hm
  case updTenant id u => cases u <;> cases r <;> exact hm
  case updHost id u => cases u <;> cases r <;> exact hm
  all_goals exact hm

/-- A call of the sweep that is not the scan. -/
theorem sweeper_call {c : Call} {k : c.Ans → CtlProg α} (hm : Sweeper now rows m) (hc : c.scansTenants = false)
    (ha : m.allow c)
    (hk : ∀ r, Sweeper now rows (m.next c r) → (k r).obeys migProtocol (fun _ => Sweeper now rows) (m.next c r)) :
    (@Prog.call Ctl α c k).obeys migProtocol (fun _ => Sweeper now rows) m :=
  ⟨ha, fun r _ => hk r (hm.next hc r)⟩

theorem rollbackMigration_obeys (hm : Sweeper now rows m) (reason : String) :
    (rollbackMigration t reason).obeys migProtocol (fun _ => Sweeper now rows) m := by
  have hwrite : ∀ {m : Memory}, Sweeper now rows m → (Prog.call (Call.now) fun now =>
      req (.updTenant t.id (.rollback (String.ofList (reason.toList.take 500)) now)) : CtlProg Bool).obeys migProtocol
        (fun _ => Sweeper now rows) m := by
    intro m hm
    refine sweeper_call hm rfl (allow_quiet ⟨rfl, rfl, rfl⟩) fun at' hm₁ => sweeper_call hm₁ rfl ?_ fun _ hm₂ => hm₂
    simp only [Memory.allow, hm₁.1]
  simp only [rollbackMigration, req_bind]
  split
  · split
    · exact hwrite hm
    · exact sweeper_call hm rfl (allow_quiet ⟨rfl, rfl, rfl⟩) fun _ hm₁ => hwrite hm₁
  · exact hwrite hm

theorem rollback_obeys (hm : Sweeper now rows m) (reason : String) :
    (rollbackMigration t reason >>= fun _ => (.ret () : CtlProg Unit)).obeys migProtocol (fun _ => Sweeper now rows) m := by
  rw [Prog.obeys_bind]
  exact Prog.obeys_mono (fun _ _ h => h) (rollbackMigration_obeys hm reason)

theorem bumpTargetCounters_obeys (hm : Sweeper now rows m) (hb : m.booked = false) (target : HostId) (n v mem : Int) :
    (bumpTargetCounters target n v mem).obeys migProtocol (fun _ => Sweeper now rows) m := by
  refine sweeper_call hm rfl ?_ fun _ hm₁ => sweeper_call hm₁ rfl ?_ fun _ hm₂ => hm₂
  · simp only [Memory.allow, hm.1, hb]
  · simp only [Memory.allow, hm₁.1]

theorem completeMove_obeys {target : HostId} (hm : Sweeper now rows m) (hf : rows.find? (fun s => s.id = t.id) = some t)
    (ht : t.migrationTarget = some target) :
    (completeMove t target).obeys migProtocol (fun _ => Sweeper now rows) m := by
  simp only [completeMove, req_bind, Prog.pure_eq]
  refine sweeper_call hm rfl (allow_quiet ⟨rfl, rfl, rfl⟩) fun at' hm₁ => sweeper_call hm₁ rfl ?_ fun moved hm₂ => ?_
  · simp only [Memory.allow, hm₁.1]
    exact ⟨t, hm₁.2 ▸ hf, ht⟩
  · cases moved with
    | false => exact hm₂
    | true =>
      simp only
      cases t.migrationSource with
      | none => exact bumpTargetCounters_obeys hm₂ rfl ..
      | some src =>
        refine sweeper_call hm₂ rfl ?_ fun r hm₃ => ?_
        · simp only [Memory.allow, hm₂.1]
          rfl
        · rw [Prog.obeys_bind]
          refine Prog.obeys_mono (fun _ m' hm' => ?_) (bumpTargetCounters_obeys hm₃ ?_ ..)
          · exact sweeper_call hm' rfl (allow_quiet ⟨rfl, rfl, rfl⟩) fun _ hm'' => hm''
          · cases r <;> rfl

theorem verifyAndMove_obeys {target : HostId} (hm : Sweeper now rows m)
    (hf : rows.find? (fun s => s.id = t.id) = some t) (ht : t.migrationTarget = some target) :
    (verifyAndMove cfg t target).obeys migProtocol (fun _ => Sweeper now rows) m := by
  simp only [verifyAndMove, req_bind, Prog.pure_eq]
  split
  · refine sweeper_call hm rfl (allow_quiet ⟨rfl, rfl, rfl⟩) fun passed hm₁ => ?_
    cases passed with
    | true => exact completeMove_obeys hm₁ hf ht
    | false => exact rollback_obeys hm₁ _
  · exact completeMove_obeys hm hf ht

theorem advanceSnapshot_obeys (hm : Sweeper now rows m) :
    (advanceSnapshot t).obeys migProtocol (fun _ => Sweeper now rows) m := by
  simp only [advanceSnapshot, req_bind, Prog.pure_eq]
  split
  · exact rollback_obeys hm _
  · refine sweeper_call hm rfl (allow_quiet ⟨rfl, rfl, rfl⟩) fun r hm₁ => ?_
    obtain ⟨done, passed⟩ := r
    cases done with
    | false => exact hm₁
    | true =>
      cases passed with
      | false => exact rollback_obeys hm₁ _
      | true =>
        refine sweeper_call hm₁ rfl (allow_quiet ⟨rfl, rfl, rfl⟩) fun cmd hm₂ => ?_
        cases cmd with
        | none => exact rollback_obeys hm₂ _
        | some cmd =>
          refine sweeper_call hm₂ rfl (allow_quiet ⟨rfl, rfl, rfl⟩) fun at' hm₃ =>
            sweeper_call hm₃ rfl ?_ fun _ hm₄ => hm₄
          simp only [Memory.allow, hm₃.1]

theorem advanceRestore_obeys (hm : Sweeper now rows m) (hf : rows.find? (fun s => s.id = t.id) = some t) :
    (advanceRestore cfg t).obeys migProtocol (fun _ => Sweeper now rows) m := by
  simp only [advanceRestore, req_bind, Prog.pure_eq]
  split
  · exact rollback_obeys hm _
  · refine sweeper_call hm rfl (allow_quiet ⟨rfl, rfl, rfl⟩) fun r hm₁ => ?_
    obtain ⟨done, passed⟩ := r
    cases done with
    | false => exact hm₁
    | true =>
      cases passed with
      | false => exact rollback_obeys hm₁ _
      | true =>
        simp only
        cases ht : t.migrationTarget with
        | none => exact hm₁
        | some target =>
          refine sweeper_call hm₁ rfl (allow_quiet ⟨rfl, rfl, rfl⟩) fun host hm₂ => ?_
          split
          · exact sweeper_call hm₂ rfl (allow_quiet ⟨rfl, rfl, rfl⟩) fun _ hm₃ => verifyAndMove_obeys hm₃ hf ht
          split
          · rw [Prog.obeys_bind]
            refine Prog.obeys_mono (fun done m' hm' => ?_) (rollbackMigration_obeys hm₂ _)
            cases done with
            | true => exact hm'
            | false => exact rollback_obeys hm' _
          · rw [Prog.obeys_bind]
            refine Prog.obeys_mono (fun routed m' he => ?_) (obeys_of_routes (repointAlbRule_routes cfg _ _ _))
            subst he
            cases routed with
            | true => exact verifyAndMove_obeys hm₂ hf ht
            | false => exact rollback_obeys hm₂ _

theorem advanceMigration_obeys (hm : Sweeper now rows m) (hf : rows.find? (fun s => s.id = t.id) = some t) (at' : Time) :
    (advanceMigration cfg t at').obeys migProtocol (fun _ => Sweeper now rows) m := by
  have hphase : ∀ {m : Memory} (phase : MigrationPhase), Sweeper now rows m →
      (advancePhase cfg t phase).obeys migProtocol (fun _ => Sweeper now rows) m := fun phase hm => by
    cases phase with
    | snapshot => exact advanceSnapshot_obeys hm
    | restore => exact advanceRestore_obeys hm hf
    | other p => exact rollback_obeys hm _
  unfold advanceMigration
  split
  · exact hm
  · split
    · rw [Prog.obeys_bind]
      refine Prog.obeys_mono (fun done m' hm' => ?_) (rollbackMigration_obeys hm _)
      cases done with
      | true => exact hm'
      | false => exact hphase _ hm'
    · exact hphase _ hm

theorem advanceAll_obeys (hm : Sweeper now rows m) (at' : Time) {ts : List TenantRow}
    (hts : ∀ t ∈ ts, rows.find? (fun s => s.id = t.id) = some t) :
    (advanceAll cfg at' ts).obeys migProtocol (fun _ => Sweeper now rows) m := by
  induction ts generalizing m with
  | nil => exact hm
  | cons t ts ih =>
    have ih := fun {m : Memory} (hm : Sweeper now rows m) => @ih m hm fun s hs => hts s (List.mem_cons_of_mem _ hs)
    unfold advanceAll
    split
    · exact ih hm
    · rw [Prog.obeys_bind]
      exact Prog.obeys_mono (fun _ _ hm' => ih hm') (advanceMigration_obeys hm (hts t (by simp)) at')

theorem migrationSweep_obeys (at' : Time) (hm : m.job = .sweep now) :
    (migrationSweep cfg at').obeys migProtocol (fun _ _ => True) m := by
  refine ⟨allow_quiet ⟨rfl, rfl, rfl⟩, fun rows hn => ?_⟩
  have hm₁ : Sweeper now rows (m.next (.scanTenants (.status .migrating)) rows) := ⟨hm, rfl⟩
  exact Prog.obeys_mono (fun _ _ _ => trivial) (advanceAll_obeys hm₁ at' fun t ht => Table.find_of_nodup hn ht)

/-! ### The actions -/

theorem cancelAction_obeys {tid : TenantId} (hm : m.job = .cancel tid) (id : TenantId) :
    (tenantAction cfg id .cancelMigration).obeys migProtocol (fun _ _ => True) m := by
  refine ⟨allow_quiet ⟨rfl, rfl, rfl⟩, fun item _ => ?_⟩
  cases item with
  | none => trivial
  | some t =>
    show Prog.obeys _ (cancelMigration t) _ _
    simp only [cancelMigration, req_bind, Prog.pure_eq]
    split
    · trivial
    · refine ⟨allow_quiet ⟨rfl, rfl, rfl⟩, fun at' _ => ⟨?_, fun _ _ => trivial⟩⟩
      show Memory.allow (Memory.next m (.getTenant id) (some t)) _
      simp only [Memory.allow, Memory.next, hm]

theorem migrateAction_obeys {tid : TenantId} {dest : HostId} (hm : m.job = .migrate tid dest) (id : TenantId)
    (target : HostId) : (tenantAction cfg id (.migrate target)).obeys migProtocol (fun _ _ => True) m := by
  refine ⟨allow_quiet ⟨rfl, rfl, rfl⟩, fun item _ => ?_⟩
  cases item with
  | none => trivial
  | some t =>
    show Prog.obeys _ (migrate cfg t target) _ _
    simp only [migrate, startMigration, req_bind, Prog.pure_eq]
    cases migrateMode cfg with
    | none => trivial
    | some mode =>
      simp only
      split
      · trivial
      split
      · trivial
      refine ⟨allow_quiet ⟨rfl, rfl, rfl⟩, fun row _ => ?_⟩
      cases row with
      | none => trivial
      | some row =>
        simp only
        split
        · trivial
        split
        · refine ⟨allow_quiet ⟨rfl, rfl, rfl⟩, fun now _ => ⟨allow_quiet ⟨rfl, rfl, rfl⟩, fun cmd _ => ?_⟩⟩
          cases cmd with
          | none => trivial
          | some cmd =>
            cases t.hostId with
            | none => trivial
            | some source =>
              refine ⟨?_, fun _ _ => trivial⟩
              show Memory.allow (Memory.next (Memory.next m (.getTenant id) (some t))
                (.ssmSend t.hostId (.migrateVm mode.sourceVerb t.id (t.vmNum.getD 1) (snapshotUri cfg t.id)))
                (some cmd)) _
              simp only [Memory.allow, Memory.next, hm]
        · trivial

theorem migJobs_obey (j : MigJob) :
    ((migJobs cfg).body j).obeys migProtocol (fun _ _ => True) (migProtocol.init j) := by
  cases j with
  | sweep now => exact migrationSweep_obeys now rfl
  | cancel tid =>
    show Prog.obeys _ (_ >>= _) _ _
    rw [Prog.obeys_bind]
    exact Prog.obeys_mono (fun _ _ _ => trivial) (cancelAction_obeys rfl tid)
  | migrate tid dest =>
    show Prog.obeys _ (_ >>= _) _ _
    rw [Prog.obeys_bind]
    exact Prog.obeys_mono (fun _ _ _ => trivial) (migrateAction_obeys rfl tid dest)

end Obeys

end OpenClaw
