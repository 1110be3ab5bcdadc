import OpenClaw.Control.Execute
import OpenClaw.Failover.Fates
import OpenClaw.Lib.Simulate

/-!
# The failover watchdog among the workers

One run of `_sweep_stuck_failovers`: it scans the tenants whose failover is under way and reaps the stuck ones, while
workers claim tenants, finish and fail. The decision is made on the scanned `failover_at`; the write looks at the status
only.

- `watchdog_exact`: nothing stuck is left, and a tenant is reaped only while its claim is old, as long as no worker
  claims a tenant that the sweep is about to reap.
- `watchdog_reaps_fresh_claim`: a worker claims a tenant after the scan, and the sweep reaps it.
-/

namespace OpenClaw

open Keyed Atomic

variable (cfg : Config) {ι : Type}

/-- The claim is missing, or as old as the watchdog waits. -/
def stuckSince (now : Time) (claimed : Option Time) : Bool :=
  !claimed.any fun at' => now - at' < minutes cfg.failoverWatchdogMinutes

/-- The scanned rows that are stuck. -/
def stuckRows (now : Time) (ts : List TenantRow) : List TenantRow :=
  ts.filter fun t => stuckSince cfg now t.failoverAt

/-- The write of the watchdog. -/
def reapUpdate : TenantUpdate :=
  .failoverEnded .failoverFailed ("watchdog: stuck > " ++ toString cfg.failoverWatchdogMinutes ++ "min")

/-- The loop reaps the stuck rows in turn. -/
theorem reapStuck_cons (now : Time) (t : TenantRow) (ts : List TenantRow) : reapStuck cfg now (t :: ts) =
    if stuckSince cfg now t.failoverAt then
      .call (.condTenant t.id .inFailover (reapUpdate cfg)) fun _ => reapStuck cfg now ts
    else reapStuck cfg now ts := by
  simp only [reapStuck, stuckSince, req_bind, Bool.not_eq_true']
  cases t.failoverAt.any fun at' => now - at' < minutes cfg.failoverWatchdogMinutes <;> rfl

theorem stuckRows_cons_pos {cfg : Config} {now : Time} {t : TenantRow} {ts : List TenantRow}
    (h : stuckSince cfg now t.failoverAt = true) : stuckRows cfg now (t :: ts) = t :: stuckRows cfg now ts :=
  List.filter_cons_of_pos (p := fun t : TenantRow => stuckSince cfg now t.failoverAt) h

theorem stuckRows_cons_neg {cfg : Config} {now : Time} {t : TenantRow} {ts : List TenantRow}
    (h : ¬ stuckSince cfg now t.failoverAt = true) : stuckRows cfg now (t :: ts) = stuckRows cfg now ts :=
  List.filter_cons_of_neg (p := fun t : TenantRow => stuckSince cfg now t.failoverAt) h

/-! ## The processes -/

inductive WatchJob
  | sweep (now : Time)
  /-- A delivery of a message to a worker. -/
  | deliver (job : FailoverJob) (now : Time)

def watchJobs : Jobs Ctl World WatchJob Unit where
  body
    | .sweep now => sweepStuckFailovers cfg now
    | .deliver job now => processRecord cfg job now
  start _ w w' := w' = w

/-- What a process is doing; the sweep remembers the rows it will reap. -/
structure WatchMemory where
  job : WatchJob
  todo : Option (List TenantRow) := none

/-- The calls of a worker: the claim, the writes that end a failover, and calls that write no tenant. -/
def Call.works : Call → Prop
  | .putTenant _ => False
  | .updTenant _ x => (∃ s e, x = .failoverEnded s e ∧ s ≠ .failoverQueued ∧ s ≠ .failoverRecovering) ∨
      ∃ h n b, x = .failedOver h n b
  | .condTenant _ _ x => ∃ t, x = .workerClaim t
  | _ => True

def WatchMemory.allow (g : WatchMemory) (c : Call) : Prop :=
  match g.job, g.todo with
  | .sweep _, none => c = .scanTenants .inFailover
  | .sweep _, some [] => False
  | .sweep _, some (t :: _) => c = .condTenant t.id .inFailover (reapUpdate cfg)
  | .deliver _ _, _ => c.works

def WatchMemory.next (g : WatchMemory) (c : Call) (r : c.Ans) : WatchMemory :=
  match g.job with
  | .sweep now =>
    match c, r with
    | .scanTenants _, rows => { g with todo := some (stuckRows cfg now rows) }
    | _, _ => { g with todo := g.todo.map List.tail }
  | .deliver _ _ => g

def watchProtocol : Protocol Ctl WatchJob WatchMemory where
  init j := { job := j }
  allow g c := g.allow cfg c
  sane _ _ _ := True
  next g c r := g.next cfg c r

section Programs

variable {cfg}

theorem works_of_quiet {c : Call} (h : c.quiet) : c.works := by
  cases c <;> first | trivial | exact Bool.noConfusion h.1

theorem executeFailover_works (t : TenantRow) (target : HostRow) (backup : String) (n : Int) :
    (executeFailover cfg t target backup n).All Call.works := by
  refine executeFailover_all ⟨fun c hc _ _ => works_of_quiet hc, fun _ _ => trivial, fun e => .inl ⟨_, _, rfl, ?_⟩,
    .inr ⟨_, _, _, rfl⟩, fun _ _ => trivial, trivial⟩
  cases e <;> exact ⟨nofun, nofun⟩

theorem processRecord_works (job : FailoverJob) (now : Time) : (processRecord cfg job now).All Call.works := by
  simp only [processRecord, claim, req_bind, Prog.pure_eq, Prog.call_bind, Prog.ret_bind]
  refine ⟨trivial, fun item => ?_⟩
  cases item with
  | none => trivial
  | some t =>
    refine ⟨⟨now, rfl⟩, fun r => ?_⟩
    cases r with
    | failed => trivial
    | refused => trivial
    | done =>
      refine ⟨trivial, fun host => ?_⟩
      cases host with
      | none => exact ⟨.inl ⟨_, _, rfl, by decide, by decide⟩, fun _ => trivial⟩
      | some host => exact (executeFailover_works _ _ _ _).bind fun _ => trivial

theorem reapStuck_obeys {now : Time} {ts : List TenantRow} {g : WatchMemory} (hj : g.job = .sweep now)
    (ht : g.todo = some (stuckRows cfg now ts)) :
    (reapStuck cfg now ts).obeys (watchProtocol cfg) (fun _ g' => g'.todo = some []) g := by
  induction ts generalizing g with
  | nil => exact ht
  | cons t ts ih =>
    rw [reapStuck_cons]
    split
    · rename_i hs
      rw [stuckRows_cons_pos hs] at ht
      refine ⟨?_, fun r _ => ih ?_ ?_⟩
      · show g.allow cfg _
        simp only [WatchMemory.allow, hj, ht]
      · show (WatchMemory.next cfg g (.condTenant t.id .inFailover (reapUpdate cfg)) r).job = _
        simp only [WatchMemory.next, hj]
      · show (WatchMemory.next cfg g (.condTenant t.id .inFailover (reapUpdate cfg)) r).todo = _
        simp only [WatchMemory.next, hj, ht, Option.map_some, List.tail_cons]
    · rename_i hs
      rw [stuckRows_cons_neg hs] at ht
      exact ih hj ht

/-- The processes keep to the protocol; a sweep that returns has nothing left to reap. -/
theorem watchJobs_obey (j : WatchJob) : ((watchJobs cfg).body j).obeys (watchProtocol cfg)
    (fun _ g => ∀ now, g.job = .sweep now → g.todo = some []) ((watchProtocol cfg).init j) := by
  cases j with
  | sweep now =>
    refine ⟨rfl, fun rows _ => Prog.obeys_mono (fun _ _ h _ _ => h) (reapStuck_obeys rfl rfl)⟩
  | deliver job now =>
    refine Prog.obeys_mono (fun _ g h now' hj => ?_)
      (Prog.All.obeys (fun c hc => ⟨hc, fun _ => rfl⟩) (processRecord_works job now))
    rw [h] at hj
    cases hj

end Programs

/-! ## Runs -/

/-- One sweep, any number of deliveries, and calls that succeed. -/
def watchRun [DecidableEq ι] (i : ι) (now : Time) (_ : List (Ev Ctl WatchJob ι)) (_ : World) : Ev Ctl WatchJob ι → Prop
  | .start k j => if k = i then j = .sweep now else ∃ job n, j = .deliver job n
  | .call _ c r => c.written r = true

/-- The claim a worker has got. -/
def claimMade : (c : Call) → c.Ans → Option (TenantId × Time)
  | .condTenant tid _ (.workerClaim at'), .done => some (tid, at')
  | _, _ => none

/-- A worker gets a claim on a tenant that the sweep has scanned, and will reap, only at a time that is as old. -/
def unclaimed [DecidableEq ι] (i : ι) (now : Time) (tr : List (Ev Ctl WatchJob ι)) (_ : World) :
    Ev Ctl WatchJob ι → Prop
  | .start _ _ => True
  | .call _ c r => ∀ tid at', claimMade c r = some (tid, at') → ∀ g, (watchProtocol cfg).locs tr i = some g →
    (∃ s ∈ g.todo.getD [], s.id = tid) → stuckSince cfg now (some at') = true

/-- The failover of the tenant is under way. -/
def TenantRow.failingOver (t : TenantRow) : Bool := TenantCond.inFailover.holds t

/-- The tenant as the watchdog sees it. -/
def claimOf (w : World) (tid : TenantId) : Option (TenantStatus × Option Time) :=
  (w.tenants.get tid).map fun t => (t.status, t.failoverAt)

section Steps

variable {cfg} {c : Call} {r : c.Ans} {w w' : World} {tid : TenantId} {t' : TenantRow} {now : Time}

theorem get_putTenant {w : World} {t : TenantRow} {id : TenantId} (hid : t.id = id) :
    (w.putTenant t).tenants.get tid = if id = tid then some t else w.tenants.get tid := by
  subst hid
  rw [World.putTenant_tenants, Table.get_put]
  simp only [eq_comm]

/-- What a worker leaves of a tenant: nothing changed, its failover is over, or the worker has claimed it. -/
theorem step_works (hc : c.works) (hs : World.step c r w w') (ht : w'.tenants.get tid = some t') :
    w.tenants.get tid = some t' ∨ t'.failingOver = false ∨ ∃ at', claimMade c r = some (tid, at') ∧
      t'.failoverAt = some at' := by
  by_cases hw : c.writesTenants = false
  · rw [step_tenants hw hs] at ht
    exact .inl ht
  cases c <;> first | exact absurd rfl hw | exact hc.elim | skip
  case updTenant id x =>
    obtain ⟨t, hg, hs⟩ := hs
    rcases sent.eq_or hs with rfl | rfl
    · rw [get_putTenant (Table.key_of_get hg ▸ TenantUpdate.apply_id x t)] at ht
      split at ht
      · refine .inr (.inl ?_)
        obtain rfl := Option.some.inj ht
        rcases hc with ⟨s, e, rfl, h₁, h₂⟩ | ⟨h, n, b, rfl⟩
        · simp [TenantRow.failingOver, TenantCond.holds, TenantUpdate.apply, h₁, h₂]
        · rfl
      · exact .inl ht
    · exact .inl ht
  case condTenant id cond x =>
    obtain ⟨t, hg, hs⟩ := hs
    obtain ⟨at', rfl⟩ := hc
    cases r with
    | done =>
      obtain ⟨-, rfl⟩ := hs
      rw [get_putTenant (Table.key_of_get hg ▸ TenantUpdate.apply_id _ t)] at ht
      split at ht
      · rename_i he
        subst he
        obtain rfl := Option.some.inj ht
        exact .inr (.inr ⟨at', rfl, rfl⟩)
      · exact .inl ht
    | refused =>
      obtain ⟨-, rfl⟩ := hs
      exact .inl ht
    | failed =>
      obtain rfl : w' = w := hs
      exact .inl ht

/-- What the write of the watchdog leaves of a tenant. -/
theorem step_reap {id : TenantId} {r : CondAns} (hs : World.step (.condTenant id .inFailover (reapUpdate cfg)) r w w')
    (tid : TenantId) : w'.tenants.get tid = w.tenants.get tid ∨ id = tid ∧ ∃ t, w.tenants.get tid = some t ∧
      t.failingOver = true ∧ w'.tenants.get tid = some ((reapUpdate cfg).apply t) := by
  obtain ⟨t, hg, hs⟩ := hs
  cases r with
  | done =>
    obtain ⟨hh, rfl⟩ := hs
    rw [get_putTenant (Table.key_of_get hg ▸ TenantUpdate.apply_id _ t)]
    split
    · rename_i he
      subst he
      exact .inr ⟨rfl, t, hg, hh, rfl⟩
    · exact .inl rfl
  | refused =>
    obtain ⟨-, rfl⟩ := hs
    exact .inl rfl
  | failed =>
    obtain rfl : w' = w := hs
    exact .inl rfl

end Steps

/-! ## The sweep -/

section Sweep

variable [DecidableEq ι]

/-- The failover of the tenant is under way, and its claim is as old as the watchdog waits. -/
def Overdue (now : Time) (k : Option (TenantStatus × Option Time)) : Prop :=
  ∃ s at', k = some (s, some at') ∧ (s = .failoverQueued ∨ s = .failoverRecovering) ∧
    minutes cfg.failoverWatchdogMinutes ≤ now - at'

/-- The sweep of process `i` is right up to the configuration `c`. -/
structure SweptExactly (i : ι) (now : Time) (w₀ : World) (tr : List (Ev Ctl WatchJob ι))
    (c : Conf Ctl World WatchJob ι Unit) : Prop where
  /-- What the next call of the sweep changes. -/
  precise : ∀ a r c', Step ctl (watchJobs cfg) c (.call i a r) c' → ∀ tid,
    c'.world.tenants.get tid ≠ c.world.tenants.get tid → ∃ t, c.world.tenants.get tid = some t ∧
      t.failingOver = true ∧ stuckSince cfg now t.failoverAt = true ∧ ∃ e, c'.world.tenants.get tid =
        some { t with status := .failoverFailed, failoverError := some e }
  /-- When the sweep has returned, a tenant whose claim was the same from the start of the run on (not only from the start
  of the sweep) is not overdue. -/
  complete : c.proc i = some (.sweep now, .ret ()) → ∀ tid k,
    Reach ctl (watchJobs cfg) (fun tr w e => watchRun i now tr w e ∧ claimOf w tid = k) (Conf.idle w₀) tr c →
    claimOf c.world tid = k → ¬ Overdue cfg now k

/-- The jobs of the processes. -/
def OneSweep (i : ι) (now : Time) (l : ι → Option WatchMemory) : Prop :=
  ∀ k g, l k = some g → if k = i then g.job = .sweep now else ∃ job n, g.job = .deliver job n

/-- What the sweep will reap is stuck. -/
def OnlyStuck (i : ι) (now : Time) (l : ι → Option WatchMemory) (w : World) : Prop :=
  ∀ g, l i = some g → ∀ s ∈ g.todo.getD [], ∀ t, w.tenants.get s.id = some t → t.failingOver = true →
    stuckSince cfg now t.failoverAt = true

/-- The sweep will reap the tenant, if it has scanned the table and the tenant is still as it was. -/
def WillReap (i : ι) (now : Time) (tid : TenantId) (k : Option (TenantStatus × Option Time))
    (l : ι → Option WatchMemory) (w : World) : Prop :=
  ∀ g ts, l i = some g → g.todo = some ts → claimOf w tid = k → Overdue cfg now k → ∃ s ∈ ts, s.id = tid

variable {cfg} {i : ι} {now : Time} {l : ι → Option WatchMemory} {w w' : World} {k : ι} {g : WatchMemory}

theorem OneSweep.start {j : WatchJob} (h : OneSweep i now l)
    (hj : if k = i then j = .sweep now else ∃ job n, j = .deliver job n) :
    OneSweep i now (Function.update l k (some ((watchProtocol cfg).init j))) := by
  intro m g hm
  by_cases he : m = k
  · subst he
    rw [Function.update_self] at hm
    obtain rfl := Option.some.inj hm
    exact hj
  · rw [Function.update_of_ne he] at hm
    exact h m g hm

theorem WatchMemory.next_job (g : WatchMemory) (c : Call) (r : c.Ans) : (g.next cfg c r).job = g.job := by
  unfold WatchMemory.next
  split
  · split <;> rfl
  · rfl

theorem OneSweep.call {c : Call} {r : c.Ans} (h : OneSweep i now l) (hl : l k = some g) :
    OneSweep i now (Function.update l k (some (g.next cfg c r))) := by
  intro m g' hm
  by_cases he : m = k
  · subst he
    rw [Function.update_self] at hm
    obtain rfl := Option.some.inj hm
    rw [WatchMemory.next_job]
    exact h m g hl
  · rw [Function.update_of_ne he] at hm
    exact h m g' hm

/-- A call of the sweep: the scan, or the write to the next row. -/
theorem WatchMemory.allow_sweep {c : Call} {r : c.Ans} (hj : g.job = .sweep now) (ha : g.allow cfg c) :
    (∃ rows, g.todo = none ∧ (⟨c, r⟩ : Answered Ctl) = ⟨.scanTenants .inFailover, rows⟩ ∧
      (g.next cfg c r).todo = some (stuckRows cfg now rows)) ∨
    ∃ t ts a, g.todo = some (t :: ts) ∧
      (⟨c, r⟩ : Answered Ctl) = ⟨.condTenant t.id .inFailover (reapUpdate cfg), a⟩ ∧
      (g.next cfg c r).todo = some ts := by
  simp only [WatchMemory.allow, hj] at ha
  cases ht : g.todo with
  | none =>
    simp only [ht] at ha
    subst ha
    exact .inl ⟨r, rfl, rfl, by simp [WatchMemory.next, hj]⟩
  | some rows =>
    cases rows with
    | nil => simp [ht] at ha
    | cons t ts =>
      simp only [ht] at ha
      subst ha
      exact .inr ⟨t, ts, r, rfl, rfl, by simp [WatchMemory.next, hj, ht]⟩

theorem OnlyStuck.call {c : Call} {r : c.Ans} (h : OnlyStuck cfg i now l w) (hjobs : OneSweep i now l)
    (hl : l k = some g) (ha : g.allow cfg c) (hs : World.step c r w w')
    (hclaim : ∀ tid at', claimMade c r = some (tid, at') → ∀ g, l i = some g → (∃ s ∈ g.todo.getD [], s.id = tid) →
      stuckSince cfg now (some at') = true) :
    OnlyStuck cfg i now (Function.update l k (some (g.next cfg c r))) w' := by
  intro g' hg s hm t ht hf
  have hj := hjobs k g hl
  by_cases hk : k = i
  · subst hk
    rw [Function.update_self] at hg
    obtain rfl := Option.some.inj hg
    rw [if_pos rfl] at hj
    rcases WatchMemory.allow_sweep (r := r) hj ha with ⟨rows, -, he, hn⟩ | ⟨t₀, ts, a, htodo, he, hn⟩
    · cases he
      obtain ⟨hperm, rfl⟩ := hs
      rw [hn, Option.getD_some] at hm
      obtain ⟨hrow, hstuck⟩ := List.mem_filter.1 hm
      have hs' := Table.get_of_mem (List.mem_filter.1 (hperm.mem_iff.1 hrow)).1
      obtain rfl : s = t := Option.some.inj (hs'.symm.trans ht)
      exact hstuck
    · cases he
      rw [hn, Option.getD_some] at hm
      have hold : s ∈ g.todo.getD [] := by
        rw [htodo]
        exact List.mem_cons_of_mem _ hm
      rcases step_reap hs s.id with hsame | ⟨-, t₁, -, -, hreap⟩
      · exact h g hl s hold t (hsame ▸ ht) hf
      · obtain rfl : (reapUpdate cfg).apply t₁ = t := Option.some.inj (hreap.symm.trans ht)
        simp [TenantRow.failingOver, TenantCond.holds, reapUpdate, TenantUpdate.apply] at hf
  · rw [Function.update_of_ne (Ne.symm hk)] at hg
    rw [if_neg hk] at hj
    obtain ⟨job, n, hj⟩ := hj
    have hc : c.works := by simpa only [WatchMemory.allow, hj] using ha
    rcases step_works hc hs ht with hsame | hover | ⟨at', hmade, hat⟩
    · exact h g' hg s hm t hsame hf
    · simp [hover] at hf
    · rw [hat]
      exact hclaim s.id at' hmade g' hg ⟨s, hm, rfl⟩

/-- A tenant that is overdue is scanned, and reaped unless it changes. -/
theorem WillReap.call {c : Call} {r : c.Ans} {tid : TenantId} {x : Option (TenantStatus × Option Time)}
    (h : WillReap cfg i now tid x l w) (hjobs : OneSweep i now l) (hl : l k = some g) (ha : g.allow cfg c)
    (hok : c.written r = true) (hx : claimOf w tid = x) (hs : World.step c r w w') :
    WillReap cfg i now tid x (Function.update l k (some (g.next cfg c r))) w' := by
  intro g' ts hg hts hx' hover
  have hj := hjobs k g hl
  by_cases hk : k = i
  · subst hk
    rw [Function.update_self] at hg
    obtain rfl := Option.some.inj hg
    rw [if_pos rfl] at hj
    obtain ⟨s, at', hxs, hstatus, hold⟩ := hover
    obtain ⟨t, ht, hkey⟩ : ∃ t, w.tenants.get tid = some t ∧ (t.status, t.failoverAt) = (s, some at') :=
      Option.map_eq_some_iff.1 (hx.trans hxs)
    obtain ⟨rfl, hat⟩ := Prod.mk.inj hkey
    have hf : t.failingOver = true := by
      rcases hstatus with he | he <;> simp [TenantRow.failingOver, TenantCond.holds, he]
    rcases WatchMemory.allow_sweep (r := r) hj ha with ⟨rows, -, he, hn⟩ | ⟨t₀, ts', a, htodo, he, hn⟩
    · cases he
      obtain ⟨hperm, rfl⟩ := hs
      obtain rfl := Option.some.inj (hn.symm.trans hts)
      refine ⟨t, List.mem_filter.2 ⟨hperm.mem_iff.2 (List.mem_filter.2 ⟨Table.mem_of_get ht, hf⟩), ?_⟩,
        Table.key_of_get ht⟩
      rw [stuckSince, hat]
      simpa using hold
    · cases he
      obtain rfl := Option.some.inj (hn.symm.trans hts)
      obtain ⟨s, hm, hid⟩ := h g _ hl htodo hx ⟨_, at', hxs, hstatus, hold⟩
      rcases List.mem_cons.1 hm with rfl | hm
      · subst hid
        obtain ⟨t₁, hg₁, hs⟩ := hs
        obtain rfl : t₁ = t := Option.some.inj (hg₁.symm.trans ht)
        exfalso
        cases a with
        | done =>
          obtain ⟨-, rfl⟩ := hs
          rw [claimOf, get_putTenant (Table.key_of_get ht ▸ TenantUpdate.apply_id _ t₁), if_pos rfl, hxs] at hx'
          have hfailed : TenantStatus.failoverFailed = t₁.status := congrArg Prod.fst (Option.some.inj hx')
          rw [← hfailed] at hstatus
          rcases hstatus with he | he <;> cases he
        | refused => exact absurd hf (Bool.eq_false_iff.1 hs.1)
        | failed => cases hok
      · exact ⟨s, hm, hid⟩
  · rw [Function.update_of_ne (Ne.symm hk)] at hg
    exact h g' ts hg hts hx hover

/-- The conditions on a run of the sweep. -/
abbrev sweepRun (cfg : Config) (i : ι) (now : Time) (tr : List (Ev Ctl WatchJob ι)) (w : World)
    (e : Ev Ctl WatchJob ι) : Prop := watchRun i now tr w e ∧ unclaimed cfg i now tr w e

variable {w₀ : World} {tr : List (Ev Ctl WatchJob ι)} {c : Conf Ctl World WatchJob ι Unit}

theorem sweep_precise (hr : Reach ctl (watchJobs cfg) (sweepRun cfg i now) (Conf.idle w₀) tr c) {a : Call} {r : a.Ans}
    {c' : Conf Ctl World WatchJob ι Unit} (hstep : Step ctl (watchJobs cfg) c (.call i a r) c') {tid : TenantId}
    (hne : c'.world.tenants.get tid ≠ c.world.tenants.get tid) : ∃ t, c.world.tenants.get tid = some t ∧
      t.failingOver = true ∧ stuckSince cfg now t.failoverAt = true ∧
      c'.world.tenants.get tid = some ((reapUpdate cfg).apply t) := by
  let π := watchProtocol cfg
  let I : List (Ev Ctl WatchJob ι) → World → Prop := fun tr w =>
    OneSweep i now (π.locs tr) ∧ OnlyStuck cfg i now (π.locs tr) w
  have hinit : I [] w₀ := ⟨fun k g hk => (by cases hk), fun g hg => (by cases hg)⟩
  have hstart : ∀ tr w k j w', I tr w → π.locs tr k = none → sweepRun cfg i now tr w (.start k j) →
      (watchJobs cfg).start j w w' → I (tr ++ [.start k j]) w' := by
    intro tr w k j w' hI _ hg hw
    obtain rfl : w' = w := hw
    show OneSweep i now (π.locs (tr ++ [.start k j])) ∧ OnlyStuck cfg i now (π.locs (tr ++ [.start k j])) w'
    rw [Protocol.locs_snoc, Protocol.stepLoc]
    refine ⟨hI.1.start hg.1, fun g hg => ?_⟩
    by_cases he : i = k
    · subst he
      rw [Function.update_self] at hg
      obtain rfl := Option.some.inj hg
      intro s hs
      cases hs
    · rw [Function.update_of_ne he] at hg
      exact hI.2 g hg
  have hcall : ∀ tr w k g a r w', I tr w → π.locs tr k = some g → π.allow g a → sweepRun cfg i now tr w (.call k a r) →
      ctl.step a r w w' → π.sane g a r ∧ I (tr ++ [.call k a r]) w' := by
    intro tr w k g a r w' hI hl ha hg hs
    refine ⟨trivial, ?_⟩
    show OneSweep i now (π.locs (tr ++ [.call k a r])) ∧ OnlyStuck cfg i now (π.locs (tr ++ [.call k a r])) w'
    rw [Protocol.locs_snoc, Protocol.stepLoc, hl]
    exact ⟨hI.1.call hl, hI.2.call hI.1 hl ha hs hg.2⟩
  obtain ⟨hI, -, hprocs⟩ := Reach.protocol watchJobs_obey hinit hstart hcall hr
  cases hstep with
  | @call _ j _ k _ w' hp hs =>
    obtain ⟨g, hl, ha, -⟩ := hprocs i j _ hp
    have hj := hI.1 i g hl
    rw [if_pos rfl] at hj
    rcases WatchMemory.allow_sweep (r := r) hj ha with ⟨rows, -, he, -⟩ | ⟨t₀, ts, r, htodo, he, -⟩
    · cases he
      obtain ⟨-, rfl⟩ := hs
      exact absurd rfl hne
    · cases he
      rcases step_reap hs tid with hsame | ⟨hid, t, ht, hf, hreap⟩
      · exact absurd hsame hne
      · refine ⟨t, ht, hf, hI.2 g hl t₀ ?_ t (hid ▸ ht) hf, hreap⟩
        rw [htodo]
        exact List.mem_cons_self

theorem sweep_complete {tid : TenantId} {x : Option (TenantStatus × Option Time)}
    (hr : Reach ctl (watchJobs cfg) (fun tr w e => watchRun i now tr w e ∧ claimOf w tid = x) (Conf.idle w₀) tr c)
    (hx : claimOf c.world tid = x) (hdone : c.proc i = some (.sweep now, .ret ())) : ¬ Overdue cfg now x := by
  let π := watchProtocol cfg
  let I : List (Ev Ctl WatchJob ι) → World → Prop := fun tr w =>
    OneSweep i now (π.locs tr) ∧ WillReap cfg i now tid x (π.locs tr) w
  have hinit : I [] w₀ := ⟨fun k g hk => (by cases hk), fun g ts hg => (by cases hg)⟩
  have hstart : ∀ tr w k j w', I tr w → π.locs tr k = none → watchRun i now tr w (.start k j) ∧ claimOf w tid = x →
      (watchJobs cfg).start j w w' → I (tr ++ [.start k j]) w' := by
    intro tr w k j w' hI _ hg hw
    obtain rfl : w' = w := hw
    show OneSweep i now (π.locs (tr ++ [.start k j])) ∧ WillReap cfg i now tid x (π.locs (tr ++ [.start k j])) w'
    rw [Protocol.locs_snoc, Protocol.stepLoc]
    refine ⟨hI.1.start hg.1, fun g ts hg => ?_⟩
    by_cases he : i = k
    · subst he
      rw [Function.update_self] at hg
      obtain rfl := Option.some.inj hg
      intro hts
      cases hts
    · rw [Function.update_of_ne he] at hg
      exact hI.2 g ts hg
  have hcall : ∀ tr w k g a r w', I tr w → π.locs tr k = some g → π.allow g a →
      watchRun i now tr w (.call k a r) ∧ claimOf w tid = x →
      ctl.step a r w w' → π.sane g a r ∧ I (tr ++ [.call k a r]) w' := by
    intro tr w k g a r w' hI hl ha hg hs
    refine ⟨trivial, ?_⟩
    show OneSweep i now (π.locs (tr ++ [.call k a r])) ∧ WillReap cfg i now tid x (π.locs (tr ++ [.call k a r])) w'
    rw [Protocol.locs_snoc, Protocol.stepLoc, hl]
    exact ⟨hI.1.call hl, hI.2.call hI.1 hl ha hg.1 hg.2 hs⟩
  obtain ⟨hI, -, hprocs⟩ := Reach.protocol watchJobs_obey hinit hstart hcall hr
  intro hover
  obtain ⟨g, hl, hend⟩ := hprocs i _ _ hdone
  have hj := hI.1 i g hl
  rw [if_pos rfl] at hj
  obtain ⟨s, hs, -⟩ := hI.2 g [] hl (hend now hj) hx hover
  cases hs

end Sweep

/-- **The watchdog reaps exactly the stuck**, whatever the workers do meanwhile, if none of them gets a fresh claim on a
tenant between the scan and the write of the sweep. -/
theorem watchdog_exact [DecidableEq ι] {i : ι} {now : Time} {w₀ : World} {tr : List (Ev Ctl WatchJob ι)}
    {c : Conf Ctl World WatchJob ι Unit} (hr : Reach ctl (watchJobs cfg) (sweepRun cfg i now) (Conf.idle w₀) tr c) :
    SweptExactly cfg i now w₀ tr c where
  precise a r c' hstep tid hne := by
    obtain ⟨t, ht, hf, hstuck, hreap⟩ := sweep_precise hr hstep hne
    exact ⟨t, ht, hf, hstuck, _, hreap⟩
  complete hdone tid x hsame hx := sweep_complete hsame hx hdone

/-! ## Runs -/

/-- Two tenants wait for a worker: one for 45 minutes, one for a minute. -/
def queuedTenants : World :=
  (twoHosts.putTenant { runningTenant "a-0000" "i-1" 1 with status := .failoverQueued, failoverAt := some 0 }).putTenant
    { runningTenant "b-0000" "i-1" 2 with status := .failoverQueued, failoverAt := some (minutes 44) }

/-- The sweep scans, a worker claims the tenant, and the sweep goes on. -/
def claimInSweep (tid : TenantId) : List (Move WatchJob ℕ Hint) :=
  [.start 0 (.sweep (minutes 45)), .call 0 {}, .start 1 (.deliver { outageJob with tenantId := tid } (minutes 45)),
    .call 1 {}, .call 1 {}]

/-- One sweep and one worker, and calls that succeed. -/
def watchCheck (_ : List (Ev Ctl WatchJob ℕ)) (_ : World) : Ev Ctl WatchJob ℕ → Bool
  | .start k (.sweep now) => k = 0 && now = minutes 45
  | .start k (.deliver _ _) => k ≠ 0
  | .call _ c r => c.written r

/-- No claim on a tenant that the sweep will reap. -/
def unclaimedCheck (tr : List (Ev Ctl WatchJob ℕ)) (_ : World) : Ev Ctl WatchJob ℕ → Bool
  | .start _ _ => true
  | .call _ c r => (claimMade c r).all fun x =>
    ((watchProtocol outageConfig).locs tr 0).all fun g => (g.todo.getD []).all fun s => s.id ≠ x.1

theorem watchCheck_sound {tr : List (Ev Ctl WatchJob ℕ)} {w : World} {e : Ev Ctl WatchJob ℕ}
    (h : watchCheck tr w e = true) : watchRun 0 (minutes 45) tr w e := by
  cases e with
  | start k j =>
    cases j with
    | sweep now =>
      simp only [watchCheck, Bool.and_eq_true, decide_eq_true_eq] at h
      simp [watchRun, h]
    | deliver job now =>
      simp only [watchCheck, decide_eq_true_eq] at h
      simp [watchRun, h]
  | call k c r => exact h

theorem unclaimedCheck_sound {tr : List (Ev Ctl WatchJob ℕ)} {w : World} {e : Ev Ctl WatchJob ℕ}
    (h : unclaimedCheck tr w e = true) : unclaimed outageConfig 0 (minutes 45) tr w e := by
  cases e with
  | start k j => trivial
  | call k c r =>
    rintro tid at' hmade g hl ⟨s, hs, rfl⟩
    simp only [unclaimedCheck, hmade, hl, Option.all_some] at h
    exact absurd rfl (of_decide_eq_true (List.all_eq_true.1 h s hs))

/-- A worker has the second tenant when the sweep reaps the first. -/
theorem watchdog_exact_two_tenants : ∃ (tr : List (Ev Ctl WatchJob ℕ)) (c : Conf Ctl World WatchJob ℕ Unit),
    Reach ctl (watchJobs outageConfig) (sweepRun outageConfig 0 (minutes 45)) (Conf.idle queuedTenants) tr c ∧
    claimOf c.world "a-0000" = some (.failoverFailed, some 0) ∧
    claimOf c.world "b-0000" = some (.failoverRecovering, some (minutes 45)) ∧
    SweptExactly outageConfig 0 (minutes 45) queuedTenants tr c := by
  have hplay : ((ctlOracle.play (watchJobs outageConfig) (fun _ w => some w)
      (fun tr w e => watchCheck tr w e && unclaimedCheck tr w e) [] (Conf.idle queuedTenants)
      (claimInSweep "b-0000" ++ [.call 0 {}])).any fun x =>
        claimOf x.2.world "a-0000" = some (.failoverFailed, some 0) ∧
        claimOf x.2.world "b-0000" = some (.failoverRecovering, some (minutes 45))) = true := by
    decide +kernel
  have hchk : ∀ tr w e, (watchCheck tr w e && unclaimedCheck tr w e) = true →
      sweepRun outageConfig 0 (minutes 45) tr w e := by
    intro tr w e h
    rw [Bool.and_eq_true] at h
    exact ⟨watchCheck_sound h.1, unclaimedCheck_sound h.2⟩
  obtain ⟨tr, c, hr, hend⟩ := Oracle.exists_reach_of_play (fun _ _ _ h => (Option.some.inj h).symm) hchk hplay
  obtain ⟨ha, hb⟩ := of_decide_eq_true hend
  exact ⟨tr, c, hr, ha, hb, watchdog_exact outageConfig hr⟩

/-- A worker claims the tenant after the scan: the sweep reaps the fresh claim. -/
theorem watchdog_reaps_fresh_claim : ¬ ∀ (w₀ : World) (tr : List (Ev Ctl WatchJob ℕ))
    (c : Conf Ctl World WatchJob ℕ Unit),
    Reach ctl (watchJobs outageConfig) (watchRun 0 (minutes 45)) (Conf.idle w₀) tr c →
    SweptExactly outageConfig 0 (minutes 45) w₀ tr c := by
  intro hall
  have hst : ∀ (j : WatchJob) (w w' : World), (fun (_ : WatchJob) (w : World) => some w) j w = some w' →
      (watchJobs outageConfig).start j w w' := fun _ _ _ h => (Option.some.inj h).symm
  have hplay : ((ctlOracle.play (watchJobs outageConfig) (fun _ w => some w) watchCheck [] (Conf.idle queuedTenants)
      (claimInSweep "a-0000")).any fun x =>
        (ctlOracle.move (watchJobs outageConfig) (fun _ w => some w) x.2 (.call 0 {})).any fun y =>
          claimOf x.2.world "a-0000" = some (.failoverRecovering, some (minutes 45)) ∧
          claimOf y.2.world "a-0000" = some (.failoverFailed, some (minutes 45))) = true := by
    decide +kernel
  obtain ⟨tr, c, hr, hnext⟩ := Oracle.exists_reach_of_play hst (fun _ _ _ => watchCheck_sound) hplay
  obtain ⟨⟨e, c'⟩, hmove, hend⟩ := (Option.any_eq_true _ _).1 hnext
  obtain ⟨hbefore, hafter⟩ := of_decide_eq_true hend
  obtain ⟨a, r, rfl⟩ := Oracle.move_call hmove
  have hne : c'.world.tenants.get "a-0000" ≠ c.world.tenants.get "a-0000" := by
    intro hsame
    rw [claimOf, hsame, ← claimOf, hbefore] at hafter
    cases hafter
  obtain ⟨t, ht, -, hstuck, -⟩ := (hall _ _ _ hr).precise a r c' (Oracle.move_sound hst hmove) "a-0000" hne
  rw [claimOf, ht, Option.map_some, Option.some.injEq, Prod.mk.injEq] at hbefore
  rw [hbefore.2] at hstuck
  revert hstuck
  decide

end OpenClaw
