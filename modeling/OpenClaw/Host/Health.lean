import OpenClaw.Control.Rows

/-!
# Health rows

`_write_ddb` of the host agent: for every tenant of a poll it promotes the row from `creating` to `running` once, and
then writes the health when it changed or when the refresh period is over. The health check takes a running tenant for
stale when its `last_health_check` is `STALE_SECONDS` old.

- `writeDdb_probed`, `writeDdb_absent`: what a tick does to one tenant.
- `health_fresh`: for which refresh periods a tenant that is probed at every tick stays fresh, as long as no tick that
  waits for its gateway token finds an old stamp.
- `unread_token_stale`: the first tick after a restart waits for the token, and the row goes stale.
-/

namespace OpenClaw

/-! ## The agent's write -/

inductive VmHealth
  | up
  | down
  | recovering
  | migrating
  /-- Written by the health check. -/
  | stale
deriving DecidableEq

inductive AppHealth
  | up
  | down
  /-- Written by the health check. -/
  | unknown
deriving DecidableEq

/-- The gauges of a VM. -/
abbrev Gauges := List (String × Int)

/-- What a poll found out about a tenant. -/
structure ProbeInfo where
  vmHealth : VmHealth
  appHealth : AppHealth
  metrics : Option Gauges := none

/-- The attributes of a tenant's row that the agent writes, with the two the health check reads beside them. A row that
does not exist has none. -/
structure HealthRow where
  status : Option TenantStatus := none
  hostId : Option HostId := none
  vmHealth : Option VmHealth := none
  appHealth : Option AppHealth := none
  healthFailures : Option Int := none
  lastHealthCheck : Option Time := none
  updatedAt : Option Time := none
  gatewayToken : Option String := none
  metrics : Option Gauges := none

/-- An entry of `_last_ddb_write`. -/
structure LastWrite where
  vmHealth : VmHealth
  appHealth : AppHealth
  ts : Time

/-- What `_promoted`, `_last_ddb_write` and the table hold of one tenant. -/
structure HealthCell where
  promoted : Bool := false
  lastWrite : Option LastWrite := none
  row : HealthRow := {}

/-- The world's answers to the agent's calls for one tenant in one tick. -/
structure TenantIO where
  /-- The gateway token, unless it cannot be read. -/
  token : Option String := none
  /-- The promotion fails with another exception than a failed condition. -/
  promoteFails : Bool := false
  writeFails : Bool := false

/-- Whole seconds in microseconds. -/
def ofSeconds (n : Int) : Int := n * 1000000

/-- `strftime` drops the fraction of a second. -/
def wholeSecond (t : Time) : Time := t / 1000000 * 1000000

/-- `_DDB_REFRESH` for a value of `OC_AGENT_DDB_REFRESH`. -/
def ddbRefresh (env : Int) : Int := min env 110

/-- `STALE_SECONDS` -/
def staleSeconds : Int := 120

/-- `info.get("metrics") if info.get("vm_health") == "up" else None` -/
def ProbeInfo.upMetrics (info : ProbeInfo) : Option Gauges := if info.vmHealth = .up then info.metrics else none

/-- The write that promotes a tenant. -/
def HealthRow.promote (r : HealthRow) (info : ProbeInfo) (token : String) (now : Time) : HealthRow :=
  { r with
    status := some .running
    vmHealth := some info.vmHealth
    appHealth := some info.appHealth
    healthFailures := some 0
    lastHealthCheck := some (wholeSecond now)
    updatedAt := some (wholeSecond now)
    gatewayToken := some token
    metrics := some (info.upMetrics.getD []) }

/-- The write of the steady state; without metrics it leaves the attribute alone. -/
def HealthRow.stamp (r : HealthRow) (info : ProbeInfo) (now : Time) : HealthRow :=
  { r with
    vmHealth := some info.vmHealth
    appHealth := some info.appHealth
    lastHealthCheck := some (wholeSecond now)
    metrics := info.upMetrics.or r.metrics }

section Agent

variable (env : Int)

/-- `due` -/
def writeDue (now : Time) (info : ProbeInfo) : Option LastWrite → Bool
  | none => true
  | some prev => (prev.vmHealth, prev.appHealth) ≠ (info.vmHealth, info.appHealth) ||
      ofSeconds (ddbRefresh env) ≤ now - prev.ts

/-- The writer of the steady state. -/
def steadyWrite (now : Time) (info : ProbeInfo) (io : TenantIO) (c : HealthCell) : HealthCell :=
  if writeDue env now info c.lastWrite then
    if io.writeFails then c
    else { c with lastWrite := some ⟨info.vmHealth, info.appHealth, now⟩, row := c.row.stamp info now }
  else c

/-- The body of the loop of `_write_ddb`. -/
def writeTenant (now : Time) (info : ProbeInfo) (io : TenantIO) (c : HealthCell) : HealthCell :=
  if info.vmHealth = .up ∧ c.promoted = false then
    match io.token with
    | none => c
    | some token =>
      if io.promoteFails then c
      else if c.row.status = some .creating then
        { promoted := true, lastWrite := some ⟨info.vmHealth, info.appHealth, now⟩,
          row := c.row.promote info token now }
      else steadyWrite env now info io { c with promoted := true }
  else steadyWrite env now info io c

/-- The results of one poll, a dictionary by tenant, and the answers to the calls of the tick. -/
structure PollTick where
  results : List (TenantId × ProbeInfo)
  nodup : (results.map Prod.fst).Nodup
  io : TenantId → TenantIO := fun _ => {}

/-- A tenant that is gone is no longer tracked. -/
def HealthCell.forget (c : HealthCell) : HealthCell := { c with promoted := false, lastWrite := none }

/-- `_write_ddb`, with `TENANTS_TABLE` set. -/
def writeDdb (now : Time) (x : PollTick) (s : TenantId → HealthCell) : TenantId → HealthCell :=
  if x.results = [] then fun tid => (s tid).forget
  else
    let s' := x.results.foldl
      (fun s e => Function.update s e.1 (writeTenant env now e.2 (x.io e.1) (s e.1))) s
    fun tid => if tid ∈ x.results.map Prod.fst then s' tid else (s' tid).forget

end Agent

/-! ## One tenant of a tick -/

section Fold

variable {κ α β : Type} [DecidableEq κ] (f : κ → α → β → β)

/-- The keys that a fold of updates does not name keep their values. -/
theorem foldl_update_absent {k : κ} : ∀ (l : List (κ × α)) (s : κ → β), k ∉ l.map Prod.fst →
    l.foldl (fun s e => Function.update s e.1 (f e.1 e.2 (s e.1))) s k = s k
  | [], _, _ => rfl
  | e :: l, s, h => by
    have hk : k ≠ e.1 := fun he => h (by simp [he])
    have hl : k ∉ l.map Prod.fst := fun hm => h (List.mem_cons_of_mem _ hm)
    rw [List.foldl_cons, foldl_update_absent l _ hl, Function.update_of_ne hk]

/-- With distinct keys, each value is updated once. -/
theorem foldl_update_mem {k : κ} {a : α} : ∀ (l : List (κ × α)) (s : κ → β), (l.map Prod.fst).Nodup → (k, a) ∈ l →
    l.foldl (fun s e => Function.update s e.1 (f e.1 e.2 (s e.1))) s k = f k a (s k)
  | [], _, _, h => absurd h List.not_mem_nil
  | e :: l, s, hn, h => by
    obtain ⟨he, hn⟩ := List.nodup_cons.1 hn
    rw [List.foldl_cons]
    rcases List.mem_cons.1 h with rfl | h
    · rw [foldl_update_absent f l _ he, Function.update_self]
    · have hk : k ≠ e.1 := fun hk => he (hk ▸ List.mem_map_of_mem (f := Prod.fst) h)
      rw [foldl_update_mem l _ hn h, Function.update_of_ne hk]

end Fold

section Tick

variable {env : Int} {now : Time} {x : PollTick} {s : TenantId → HealthCell} {tid : TenantId} {info : ProbeInfo}

/-- **A tenant of the poll** has the body of the loop run for it once. -/
theorem writeDdb_probed (h : (tid, info) ∈ x.results) :
    writeDdb env now x s tid = writeTenant env now info (x.io tid) (s tid) := by
  have hne : x.results ≠ [] := List.ne_nil_of_mem h
  have hmem : tid ∈ x.results.map Prod.fst := List.mem_map_of_mem (f := Prod.fst) h
  rw [writeDdb, if_neg hne]
  simp only [if_pos hmem]
  exact foldl_update_mem (fun k a c => writeTenant env now a (x.io k) c) _ _ x.nodup h

/-- **Any other tenant** is no longer tracked, and its row is left alone. -/
theorem writeDdb_absent (h : tid ∉ x.results.map Prod.fst) : writeDdb env now x s tid = (s tid).forget := by
  rw [writeDdb]
  split
  · rfl
  · simp only [if_neg h]
    rw [foldl_update_absent (fun k a c => writeTenant env now a (x.io k) c) _ _ h]

/-- **The writer of the steady state**, when its write does not fail. -/
theorem steadyWrite_cases {io : TenantIO} (hio : io.writeFails = false) (c : HealthCell) :
    (∃ prev, c.lastWrite = some prev ∧ now - prev.ts < ofSeconds (ddbRefresh env) ∧
      steadyWrite env now info io c = c) ∨
    (steadyWrite env now info io c).lastWrite = some ⟨info.vmHealth, info.appHealth, now⟩ ∧
      (steadyWrite env now info io c).row = c.row.stamp info now := by
  by_cases hdue : writeDue env now info c.lastWrite = true
  · right
    simp [steadyWrite, hdue, hio]
  · left
    cases hlast : c.lastWrite with
    | none => simp [hlast, writeDue] at hdue
    | some prev =>
      rw [hlast] at hdue
      refine ⟨prev, rfl, ?_, by simp [steadyWrite, hlast, hdue]⟩
      simp only [writeDue, Bool.or_eq_true, decide_eq_true_eq, not_or] at hdue
      exact lt_of_not_ge hdue.2

end Tick

/-! ## The health check -/

/-- The health check finds no fresh stamp in the row. -/
def HealthRow.isStale (now : Time) (r : HealthRow) : Bool :=
  !r.lastHealthCheck.any fun c => now - c < ofSeconds staleSeconds

/-- The rows of a scan that are stale. -/
def staleRows (now : Time) (ts : List HealthRow) : List HealthRow := ts.filter (·.isStale now)

/-- The rows of the tenants of a host. -/
def onHost (h : HostId) (ts : List HealthRow) : List HealthRow := ts.filter fun r => r.hostId = some h

/-- `_restart_host_agent` is called for a host when all its running tenants, the scanned rows, are stale. -/
def RestartsAgent (now : Time) (ts : List HealthRow) (h : HostId) : Prop :=
  onHost h (staleRows now ts) ≠ [] ∧ (onHost h ts).length ≤ (onHost h (staleRows now ts)).length

/-- **One fresh tenant** keeps the agent of its host from a restart. -/
theorem fresh_keeps_agent {now : Time} {ts : List HealthRow} {r : HealthRow} {h : HostId} (hr : r ∈ ts)
    (hh : r.hostId = some h) (hf : r.isStale now = false) : ¬ RestartsAgent now ts h := by
  intro hrestart
  have hsub : List.Sublist (onHost h (staleRows now ts)) (onHost h ts) := List.filter_sublist.filter _
  have heq := hsub.eq_of_length_le hrestart.2
  have hmem : r ∈ onHost h ts := List.mem_filter.2 ⟨hr, by simpa using hh⟩
  rw [← heq, onHost, List.mem_filter, staleRows, List.mem_filter] at hmem
  simp [hf] at hmem

/-! ## Runs of the agent -/

/-- A running agent: its clock, what it knows with the table, and the time of its last tick. -/
structure AgentRun where
  clock : Time
  cells : TenantId → HealthCell
  lastTick : Option Time := none

/-- A tick, at the reading of the clock. -/
def AgentRun.tick (env : Int) (x : PollTick) (w : AgentRun) : AgentRun :=
  { w with cells := writeDdb env w.clock x w.cells, lastTick := some w.clock }

/-- The agent has just started, and the tenant is running. -/
structure AgentRun.Restarted (tid : TenantId) (w : AgentRun) : Prop where
  cells : ∀ t, (w.cells t).promoted = false ∧ (w.cells t).lastWrite = none
  lastTick : w.lastTick = none
  running : (w.cells tid).row.status = some .running

/-- The poll probes the tenant, and no write fails. -/
def PollTick.Probes (tid : TenantId) (x : PollTick) : Prop :=
  tid ∈ x.results.map Prod.fst ∧ ∀ t, (x.io t).promoteFails = false ∧ (x.io t).writeFails = false

/-- The runs of an agent with the polls `interval` seconds apart at most, all of whose ticks meet `ok`. Everybody else
may write the rows, but no stamp of `tid`, which stays running. -/
inductive AgentRuns (env : Int) (interval : Nat) (tid : TenantId) (ok : AgentRun → PollTick → Prop) (w₀ : AgentRun) :
    AgentRun → Prop
  | refl : AgentRuns env interval tid ok w₀ w₀
  | wait {w : AgentRun} (t : Time) : AgentRuns env interval tid ok w₀ w → w.clock ≤ t →
      (∀ l, w.lastTick = some l → t ≤ l + ofSeconds interval) → AgentRuns env interval tid ok w₀ { w with clock := t }
  | tick {w : AgentRun} (x : PollTick) : AgentRuns env interval tid ok w₀ w → x.Probes tid → ok w x →
      AgentRuns env interval tid ok w₀ (w.tick env x)
  | others {w : AgentRun} (rows : TenantId → HealthRow) : AgentRuns env interval tid ok w₀ w →
      (rows tid).status = (w.cells tid).row.status →
      (rows tid).lastHealthCheck = (w.cells tid).row.lastHealthCheck →
      AgentRuns env interval tid ok w₀ { w with cells := fun t => { w.cells t with row := rows t } }

/-- After the first tick the health check does not find the tenant stale. -/
def AgentRun.Fresh (tid : TenantId) (w : AgentRun) : Prop :=
  w.lastTick ≠ none → (w.cells tid).row.isStale w.clock = false

/-- The tick waits for the gateway token of the tenant. -/
def AgentRun.AwaitsToken (tid : TenantId) (w : AgentRun) (x : PollTick) : Prop :=
  (∃ info, (tid, info) ∈ x.results ∧ info.vmHealth = .up) ∧ (w.cells tid).promoted = false ∧ (x.io tid).token = none

/-- A tick that waits for the token finds a stamp that lasts until the next tick. -/
def stampLasts (interval : Nat) (tid : TenantId) (w : AgentRun) (x : PollTick) : Prop :=
  w.AwaitsToken tid x → (w.cells tid).row.isStale (w.clock + ofSeconds interval) = false

section Runs

variable {env : Int} {interval : Nat} {tid : TenantId}

theorem isStale_eq_false {now : Time} {r : HealthRow} :
    r.isStale now = false ↔ ∃ c, r.lastHealthCheck = some c ∧ now - c < 120000000 := by
  cases h : r.lastHealthCheck with
  | none => simp [HealthRow.isStale, h]
  | some c =>
    simp only [HealthRow.isStale, h, Option.any_some, Bool.not_eq_false', Option.some.injEq, exists_eq_left']
    exact decide_eq_true_iff

/-- **What a tick does to a tenant**: it waits for the token, finds nothing due, or stamps the row. -/
theorem tick_cases {w : AgentRun} {x : PollTick} (h : x.Probes tid) :
    w.AwaitsToken tid x ∧ (w.tick env x).cells tid = w.cells tid ∨
    (∃ prev, (w.cells tid).lastWrite = some prev ∧ w.clock - prev.ts < ofSeconds (ddbRefresh env) ∧
      ((w.tick env x).cells tid).lastWrite = some prev ∧ ((w.tick env x).cells tid).row = (w.cells tid).row) ∨
    (∃ prev, ((w.tick env x).cells tid).lastWrite = some prev ∧ prev.ts = w.clock ∧
      ((w.tick env x).cells tid).row.lastHealthCheck = some (wholeSecond w.clock)) := by
  obtain ⟨e, he, rfl⟩ := List.mem_map.1 h.1
  obtain ⟨tid, info⟩ := e
  obtain ⟨hpf, hwf⟩ := h.2 tid
  have hcell : (w.tick env x).cells tid = writeTenant env w.clock info (x.io tid) (w.cells tid) := writeDdb_probed he
  have hsteady (c : HealthCell) (hlast : c.lastWrite = (w.cells tid).lastWrite) (hrow : c.row = (w.cells tid).row)
      (hc : (w.tick env x).cells tid = steadyWrite env w.clock info (x.io tid) c) :
      (∃ prev, (w.cells tid).lastWrite = some prev ∧ w.clock - prev.ts < ofSeconds (ddbRefresh env) ∧
        ((w.tick env x).cells tid).lastWrite = some prev ∧ ((w.tick env x).cells tid).row = (w.cells tid).row) ∨
      (∃ prev, ((w.tick env x).cells tid).lastWrite = some prev ∧ prev.ts = w.clock ∧
        ((w.tick env x).cells tid).row.lastHealthCheck = some (wholeSecond w.clock)) := by
    rw [hc]
    have hwrite := @steadyWrite_cases env w.clock info _ hwf
    obtain ⟨prev, hprev, hlt, hsame⟩ | ⟨hwritten, hstamp⟩ := hwrite c
    · exact .inl ⟨prev, hlast ▸ hprev, hlt, by rw [hsame, hprev], by rw [hsame, hrow]⟩
    · exact .inr ⟨_, hwritten, rfl, by rw [hstamp]; rfl⟩
  by_cases hup : info.vmHealth = .up ∧ (w.cells tid).promoted = false
  · cases htoken : (x.io tid).token with
    | none =>
      left
      refine ⟨⟨⟨info, he, hup.1⟩, hup.2, htoken⟩, ?_⟩
      rw [hcell, writeTenant, if_pos hup, htoken]
    | some token =>
      right
      by_cases hcreating : (w.cells tid).row.status = some .creating
      · right
        rw [hcell, writeTenant, if_pos hup, htoken]
        simp [hpf, hcreating, HealthRow.promote]
      · refine hsteady { w.cells tid with promoted := true } rfl rfl ?_
        rw [hcell, writeTenant, if_pos hup, htoken]
        simp [hpf, hcreating]
  · right
    refine hsteady (w.cells tid) rfl rfl ?_
    rw [hcell, writeTenant, if_neg hup]

/-- The stamp in the row is the last write, and lasts until the next tick. -/
structure AgentRun.Stamped (interval : Nat) (tid : TenantId) (w : AgentRun) : Prop where
  row : ∀ prev, (w.cells tid).lastWrite = some prev → (w.cells tid).row.lastHealthCheck = some (wholeSecond prev.ts)
  next : ∀ l, w.lastTick = some l → w.clock ≤ l + ofSeconds interval ∧
    (w.cells tid).row.isStale (l + ofSeconds interval) = false

theorem lt_wholeSecond (t : Time) : t - wholeSecond t < 1000000 := by
  have h : t / 1000000 * 1000000 = t - t % 1000000 := by
    have := Int.mul_ediv_add_emod t 1000000
    linarith
  have hlt : t % 1000000 < 1000000 := Int.emod_lt_of_pos t (by decide)
  rw [wholeSecond]
  linarith

/-- A fresh stamp was fresh before. -/
theorem isStale_mono {now later : Time} {r : HealthRow} (hle : now ≤ later) (h : r.isStale later = false) :
    r.isStale now = false := by
  obtain ⟨c, hc, hlt⟩ := isStale_eq_false.1 h
  exact isStale_eq_false.2 ⟨c, hc, by linarith⟩

theorem isStale_congr {now : Time} {r r' : HealthRow} (h : r.lastHealthCheck = r'.lastHealthCheck) :
    r.isStale now = r'.isStale now := by
  rw [HealthRow.isStale, HealthRow.isStale, h]

/-- **The stamp lasts from tick to tick.** -/
theorem AgentRuns.stamped (hinterval : interval ≤ 15) (hrefresh : ddbRefresh env + interval < 120) {w₀ w : AgentRun}
    (h₀ : w₀.Restarted tid) (h : AgentRuns env interval tid (stampLasts interval tid) w₀ w) :
    w.Stamped interval tid := by
  induction h with
  | refl =>
    refine ⟨fun prev hprev => ?_, fun l hl => ?_⟩
    · rw [(h₀.cells tid).2] at hprev
      exact absurd hprev nofun
    · rw [h₀.lastTick] at hl
      exact absurd hl nofun
  | wait t _ _ ht ih => exact ⟨ih.row, fun l hl => ⟨ht l hl, (ih.next l hl).2⟩⟩
  | others rows _ _ hkeep ih =>
    refine ⟨fun prev hprev => ?_, fun l hl => ⟨(ih.next l hl).1, ?_⟩⟩
    · exact hkeep.trans (ih.row prev hprev)
    · exact (isStale_congr hkeep).trans (ih.next l hl).2
  | @tick w x _ hx hok ih =>
    have hnow : w.clock ≤ w.clock + ofSeconds interval := by
      have : 0 ≤ ofSeconds interval := by simp only [ofSeconds]; omega
      linarith
    obtain ⟨hwait, hsame⟩ | ⟨prev, hprev, hlt, hlast, hrow⟩ | ⟨prev, hlast, hts, hstamp⟩ := @tick_cases env _ _ _ hx
    · refine ⟨fun prev hprev => ?_, fun l hl => ?_⟩
      · rw [hsame] at hprev ⊢
        exact ih.row prev hprev
      · obtain rfl := Option.some.inj hl
        exact ⟨hnow, by rw [hsame]; exact hok hwait⟩
    · have hkept := ih.row prev hprev
      refine ⟨fun prev' hprev' => ?_, fun l hl => ?_⟩
      · obtain rfl := Option.some.inj (hlast.symm.trans hprev')
        rwa [hrow]
      · obtain rfl := Option.some.inj hl
        refine ⟨hnow, isStale_eq_false.2 ⟨_, hrow ▸ hkept, ?_⟩⟩
        have hfloor := lt_wholeSecond prev.ts
        have hsum : ofSeconds (ddbRefresh env) + ofSeconds interval ≤ 119000000 := by simp only [ofSeconds]; omega
        linarith
    · refine ⟨fun prev' hprev' => ?_, fun l hl => ?_⟩
      · obtain rfl := Option.some.inj (hlast.symm.trans hprev')
        rwa [hts]
      · obtain rfl := Option.some.inj hl
        refine ⟨hnow, isStale_eq_false.2 ⟨_, hstamp, ?_⟩⟩
        have hfloor := lt_wholeSecond w.clock
        have hsum : ofSeconds interval ≤ 15000000 := by simp only [ofSeconds]; omega
        linarith

theorem AgentRun.Stamped.fresh {w : AgentRun} (h : w.Stamped interval tid) : w.Fresh tid := by
  intro hticked
  obtain ⟨l, hl⟩ := Option.ne_none_iff_exists'.1 hticked
  obtain ⟨hle, hlasts⟩ := h.next l hl
  exact isStale_mono hle hlasts

/-! ## The longest time without a write -/

/-- A poll that finds only the VM of `tid`, and finds it down. -/
def downTick (tid : TenantId) : PollTick where
  results := [(tid, ⟨.down, .down, none⟩)]
  nodup := List.nodup_singleton _

theorem downTick_probes : (downTick tid).Probes tid := ⟨List.mem_singleton_self _, fun _ => ⟨rfl, rfl⟩⟩

theorem downTick_stampLasts (w : AgentRun) : stampLasts interval tid w (downTick tid) := by
  intro hwait
  obtain ⟨info, hmem, hup⟩ := hwait.1
  obtain rfl := (Prod.mk.inj (List.mem_singleton.1 hmem)).2
  exact absurd hup nofun

theorem downTick_cell (w : AgentRun) : (w.tick env (downTick tid)).cells tid =
    steadyWrite env w.clock ⟨.down, .down, none⟩ {} (w.cells tid) := by
  have hmem : (tid, (⟨.down, .down, none⟩ : ProbeInfo)) ∈ (downTick tid).results := List.mem_singleton_self _
  have hcell : (w.tick env (downTick tid)).cells tid = writeTenant env w.clock _ _ (w.cells tid) := writeDdb_probed hmem
  simpa [writeTenant, downTick] using hcell

/-- While nothing is due, the VM may be polled until any later moment. -/
theorem exists_idle {w₀ : AgentRun} {ts : Time} (n : Nat) : ∀ {w : AgentRun} {u : Time},
    AgentRuns env interval tid (stampLasts interval tid) w₀ w → w.lastTick = some w.clock →
    (w.cells tid).lastWrite = some ⟨.down, .down, ts⟩ → w.clock ≤ u → u ≤ w.clock + n * ofSeconds interval →
    u - ts < ofSeconds (ddbRefresh env) →
    ∃ w', AgentRuns env interval tid (stampLasts interval tid) w₀ w' ∧ w'.clock = u ∧ w'.lastTick = some u ∧
      w'.cells tid = w.cells tid := by
  induction n with
  | zero =>
    intro w u hr hl _ hle hu _
    have hclock : w.clock = u := le_antisymm hle (by simpa using hu)
    exact ⟨w, hr, hclock, hclock ▸ hl, rfl⟩
  | succ n ih =>
    intro w u hr hl hlast hle hu hdue
    have htick {t : Time} (ht : w.clock ≤ t) (htl : t ≤ w.clock + ofSeconds interval)
        (htd : t - ts < ofSeconds (ddbRefresh env)) :
        AgentRuns env interval tid (stampLasts interval tid) w₀ ({ w with clock := t }.tick env (downTick tid)) ∧
          ({ w with clock := t }.tick env (downTick tid)).cells tid = w.cells tid := by
      have hwait := AgentRuns.wait t hr ht fun l hl' => by
        obtain rfl := Option.some.inj (hl.symm.trans hl')
        exact htl
      refine ⟨hwait.tick (downTick tid) downTick_probes (downTick_stampLasts _), ?_⟩
      rw [downTick_cell]
      have hnot : ¬ ofSeconds (ddbRefresh env) ≤ t - ts := not_le.2 htd
      simp [steadyWrite, writeDue, hlast, hnot]
    by_cases hfar : u ≤ w.clock + ofSeconds interval
    · obtain ⟨hrun, hcell⟩ := htick hle hfar hdue
      exact ⟨_, hrun, rfl, rfl, hcell⟩
    · have hstep : 0 ≤ ofSeconds interval := by simp only [ofSeconds]; omega
      obtain ⟨hrun, hcell⟩ := htick (t := w.clock + ofSeconds interval) (by linarith) le_rfl (by linarith)
      obtain ⟨w', hr', hc', hl', hcell'⟩ := ih (u := u) hrun rfl (by rw [hcell]; exact hlast)
        (show w.clock + ofSeconds interval ≤ u by linarith)
        (show u ≤ w.clock + ofSeconds interval + n * ofSeconds interval by push_cast at hu; linarith) hdue
      exact ⟨w', hr', hc', hl', hcell'.trans hcell⟩

/-- The agent has started in the last microsecond of a second. -/
def lateStart : AgentRun := ⟨999999, fun _ => { row := { status := some .running } }, none⟩

theorem lateStart_restarted : lateStart.Restarted tid := ⟨fun _ => ⟨rfl, rfl⟩, rfl, rfl⟩

/-- **A refresh period that is too long**: polls that find the VM down until just before the refresh, and one poll
later the row is stale. -/
theorem exists_stale (hpos : 0 < interval) (hrefresh : 120 ≤ ddbRefresh env + interval) (hlong : 0 < ddbRefresh env) :
    ∃ w, AgentRuns env interval tid (stampLasts interval tid) lateStart w ∧ ¬ w.Fresh tid := by
  have hfirst : AgentRuns env interval tid (stampLasts interval tid) lateStart (lateStart.tick env (downTick tid)) :=
    AgentRuns.refl.tick (downTick tid) downTick_probes (downTick_stampLasts _)
  have hcell : (lateStart.tick env (downTick tid)).cells tid =
      { promoted := false, lastWrite := some ⟨.down, .down, 999999⟩,
        row := { status := some .running, vmHealth := some .down, appHealth := some .down,
                 lastHealthCheck := some 0 } } := by
    rw [downTick_cell]
    rfl
  let u : Time := 999998 + ofSeconds (ddbRefresh env)
  have hrefreshed : 1000000 ≤ ofSeconds (ddbRefresh env) := by simp only [ofSeconds]; omega
  have hstep : 1000000 ≤ ofSeconds interval := by simp only [ofSeconds]; omega
  obtain ⟨w, hr, hc, hl, hw⟩ := exists_idle (u := u) (ofSeconds (ddbRefresh env)).toNat hfirst rfl
    (by rw [hcell]) (show (999999 : Int) ≤ 999998 + ofSeconds (ddbRefresh env) by omega)
    (by
      have hn : ((ofSeconds (ddbRefresh env)).toNat : Int) = ofSeconds (ddbRefresh env) :=
        Int.toNat_of_nonneg (by omega)
      rw [hn]
      have := mul_le_mul_of_nonneg_left (show (1 : Int) ≤ ofSeconds interval by omega)
        (show 0 ≤ ofSeconds (ddbRefresh env) by omega)
      show 999998 + ofSeconds (ddbRefresh env) ≤ 999999 + ofSeconds (ddbRefresh env) * ofSeconds interval
      linarith)
    (show 999998 + ofSeconds (ddbRefresh env) - 999999 < ofSeconds (ddbRefresh env) by omega)
  refine ⟨_, hr.wait (u + ofSeconds interval) (by rw [hc]; linarith) fun l hl' => ?_, fun hfresh => ?_⟩
  · obtain rfl := Option.some.inj (hl.symm.trans hl')
    exact le_rfl
  · obtain ⟨c, hc0, hlt⟩ := isStale_eq_false.1 (hfresh (by simp [hl]))
    have hzero : c = 0 := by
      have hrow : ((w.cells tid).row.lastHealthCheck) = some c := hc0
      rw [hw, hcell] at hrow
      exact (Option.some.inj hrow).symm
    have hsum : 120000000 ≤ ofSeconds (ddbRefresh env) + ofSeconds interval := by simp only [ofSeconds]; omega
    have hlate : (999998 + ofSeconds (ddbRefresh env)) + ofSeconds interval - c < 120000000 := hlt
    linarith

/-- **Freshness**: with polls at most 15 seconds apart, a tenant that is probed at every tick stays fresh in every run
whose ticks without the token find a stamp that lasts, just when the clamped refresh period and the interval are less
than `STALE_SECONDS` together. -/
theorem health_fresh (env : Int) (interval : Nat) (tid : TenantId) (hinterval : interval ≤ 15) :
    (∀ w₀ w, w₀.Restarted tid → AgentRuns env interval tid (stampLasts interval tid) w₀ w → w.Fresh tid) ↔
      ddbRefresh env + interval < staleSeconds := by
  constructor
  · intro hfresh
    by_contra hlong
    have hrefresh : 120 ≤ ddbRefresh env + interval := not_lt.1 hlong
    have hclamp : ddbRefresh env ≤ 110 := min_le_right _ _
    obtain ⟨w, hr, hstale⟩ := @exists_stale env interval tid (by omega) hrefresh (by omega)
    exact hstale (hfresh _ _ lateStart_restarted hr)
  · intro hrefresh w₀ w h₀ hr
    exact (hr.stamped hinterval hrefresh h₀).fresh

theorem health_fresh_default : (5 : Nat) ≤ 15 ∧
    ((∀ w₀ w, w₀.Restarted "a" → AgentRuns 60 5 "a" (stampLasts 5 "a") w₀ w → w.Fresh "a") ↔
      ddbRefresh 60 + (5 : Nat) < staleSeconds) :=
  ⟨by decide, health_fresh 60 5 "a" (by decide)⟩

end Runs

/-- A poll that finds the VM of `tid` up, and cannot read its token. -/
def upTick (tid : TenantId) : PollTick where
  results := [(tid, ⟨.up, .up, none⟩)]
  nodup := List.nodup_singleton _

/-- **A token that cannot be read**: after a restart of the agent the first tick finds the VM up, skips the write, and
the row keeps the stamp of two minutes ago. -/
theorem unread_token_stale : ¬ ∀ (env : Int) (interval : Nat) (tid : TenantId), interval ≤ 15 →
    ∀ w₀ w : AgentRun, w₀.Restarted tid → AgentRuns env interval tid (fun _ _ => True) w₀ w → w.Fresh tid := by
  intro h
  let w₀ : AgentRun := ⟨minutes 2, fun _ => { row := { status := some .running, lastHealthCheck := some 0 } }, none⟩
  have hprobes : (upTick "a").Probes "a" := ⟨List.mem_singleton_self _, fun _ => ⟨rfl, rfl⟩⟩
  have hrun : AgentRuns 60 5 "a" (fun _ _ => True) w₀ (w₀.tick 60 (upTick "a")) :=
    AgentRuns.refl.tick (upTick "a") hprobes trivial
  have hstale : ((w₀.tick 60 (upTick "a")).cells "a").row.isStale (minutes 2) = true := by decide
  have hfresh := h 60 5 "a" (by decide) w₀ _ ⟨fun _ => ⟨rfl, rfl⟩, rfl, rfl⟩ hrun nofun
  exact Bool.noConfusion (hstale.symm.trans hfresh)

end OpenClaw
