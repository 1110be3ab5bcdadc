import OpenClaw.Fleet.Programs

/-!
# The programs that hand out VM numbers

The programs that give a tenant a host and a number (`numBody`), and what each of them keeps to (`numProtocol`): a create
writes only the number it has reserved, the detector sends only the number it has reserved, and a worker moves a tenant
only where its message says (`numBody_obeys`, and `fleetBody_num` for all programs of the fleet).
-/

namespace OpenClaw

open Keyed Atomic

variable (cfg : Config)

/-! ## The processes -/

inductive NumJob
  | create (r : CreateRequest)
  | pending
  | migrate (tid : TenantId) (target : HostId)
  | drain (host : HostId)
  | sweep (now : Time)
  | failover (force : List Az)
  | worker (job : FailoverJob) (now : Time)

/-- The message that a worker is started with. -/
def NumJob.message : NumJob → Option FailoverJob
  | .worker job _ => some job
  | _ => none

/-- The programs that hand out numbers or move tenants to them. -/
def numBody : NumJob → CtlProg Unit
  | .create r => do
    let _ ← createTenant cfg r
    pure ()
  | .pending => processPending cfg
  | .migrate tid target => do
    let _ ← tenantAction cfg tid (.migrate target)
    pure ()
  | .drain host => do
    let _ ← drainHost cfg host
    pure ()
  | .sweep now => migrationSweep cfg now
  | .failover force => azFailover cfg force
  | .worker job now => processRecord cfg job now

/-- A worker is started with a message of the queue, which may be delivered again. -/
def numJobs : Jobs Ctl World NumJob Unit where
  body := numBody cfg
  start j w w' := w' = w ∧ ∀ job now, j = .worker job now → job ∈ w.queue

/-! ## What the processes keep to -/

/-- A process: the message it works on, and the number it has taken and not written yet. -/
structure NumState where
  job : Option FailoverJob := none
  held : Option (HostId × Int) := none

/-- Jobs of any kind, of which some are workers on a message. -/
def numbering {J : Type} (message : J → Option FailoverJob) : Protocol Ctl J NumState where
  init j := { job := message j }
  allow g c :=
    match c with
    | .putTenant t => t.hostId = none ∨ ∃ h n, g.held = some (h, n) ∧ t.hostId = some h ∧ t.vmNum = some n
    | .updTenant tid u => ∀ j h n, g.job = some j → u.movesTo = some (h, n) →
      tid = j.tenantId ∧ h = j.targetHostId ∧ n = j.targetVmNum
    | .condTenant _ _ u => u.movesTo = none
    | .sqsSend j => g.held = some (j.targetHostId, j.targetVmNum)
    | .putHost h => h.instanceId = azStateId
    | .updHost _ u => u ≠ .incNext
    | .deleteHost _ => False
    | _ => True
  sane _ c :=
    match c with
    | .getTenant id => fun r => ∀ t, r = some t → t.id = id
    | .getHost id => fun r => ∀ h, r = some h → h.instanceId = id
    | _ => fun _ => True
  next g c :=
    match c with
    | .reserveHost id _ _ _ => fun r =>
      match r with
      | .next n => { g with held := some (id, n - 1) }
      | _ => g
    | .incNext id => fun r => { g with held := some (id, (r.getD none).getD 1) }
    | .putTenant _ | .sqsSend _ => fun r => if r = true then { g with held := none } else g
    | _ => fun _ => g

abbrev numProtocol : Protocol Ctl NumJob NumState := numbering NumJob.message

section Obeys

variable {cfg} {J : Type} {msg : J → Option FailoverJob} {α : Type} {g : NumState}

theorem num_quiet {p : CtlProg α} (hp : p.All Call.quiet) : p.obeys (numbering msg) (fun _ g' => g' = g) g := by
  refine Prog.All.obeys (fun c hc => ?_) hp
  cases c <;> first | exact ⟨trivial, fun _ => rfl⟩ | exact Bool.noConfusion hc.1 | exact Bool.noConfusion hc.2.1 |
    exact Bool.noConfusion hc.2.2

/-! ### create_tenant -/

theorem reserveHostSlot_num (h : HostRow) (v m : Int) :
    (reserveHostSlot cfg h v m).obeys (numbering msg)
      (fun r g' => ∀ n, r = some (some n) → g'.held = some (h.instanceId, n)) g := by
  unfold reserveHostSlot
  cases h.totalVcpu with
  | none => rintro n ⟨⟩
  | some tv =>
    cases h.totalMemMb with
    | none => rintro n ⟨⟩
    | some tm =>
      simp only [req_bind, Prog.pure_eq]
      refine ⟨trivial, fun r _ => ?_⟩
      cases r with
      | next k => rintro n ⟨⟩; rfl
      | refused => rintro n ⟨⟩
      | failed => rintro n ⟨⟩

theorem reserveFirst_num (v m : Int) (hs : List HostRow) :
    (reserveFirst cfg v m hs).obeys (numbering msg)
      (fun r g' => ∀ h n, r = some (some (h, n)) → g'.held = some (h.instanceId, n)) g := by
  induction hs generalizing g with
  | nil => rintro h n ⟨⟩
  | cons h hs ih =>
    rw [reserveFirst, Prog.obeys_bind]
    refine Prog.obeys_mono (fun r g' hr => ?_) (reserveHostSlot_num h v m)
    rcases r with _ | _ | n
    · rintro h n ⟨⟩
    · exact ih
    · rintro h' n' ⟨⟩
      exact hr n rfl

theorem cloneRollback_num (r : CreateRequest) (tid : TenantId) (host : HostId) :
    (cloneRollback r tid host).obeys (numbering msg) (fun _ _ => True) g := by
  simp only [cloneRollback, releaseHostSlot, req_bind, Prog.pure_eq, Prog.call_bind, Prog.ret_bind]
  refine ⟨by rintro ⟨⟩, fun ok _ => ?_⟩
  cases ok with
  | none => trivial
  | some _ => exact ⟨by rintro j h n - ⟨⟩, fun _ _ => trivial⟩

theorem createOn_num (r : CreateRequest) (src : Option TenantRow) (tid : TenantId) (key : String) (now : Time)
    (host : HostRow) (n : Int) (hg : g.held = some (host.instanceId, n)) :
    (createOn cfg r src tid key now host n).obeys (numbering msg) (fun _ _ => True) g := by
  simp only [createOn, req_bind, Prog.pure_eq]
  refine ⟨.inr ⟨_, _, hg, rfl, rfl⟩, fun ok _ => ?_⟩
  cases ok with
  | false => trivial
  | true =>
    have hlaunch {g : NumState} : (launchCreated cfg r (creatingRow cfg r tid key now host n) host n).obeys (numbering msg)
        (fun _ _ => True) g :=
      Prog.obeys_mono (fun _ _ _ => trivial) (num_quiet (launchCreated_quiet cfg r _ host n))
    cases src with
    | none => exact hlaunch
    | some s =>
      refine ⟨trivial, fun ok _ => ?_⟩
      cases ok with
      | true => exact hlaunch
      | false => exact cloneRollback_num r tid host.instanceId

theorem savePending_num (r : CreateRequest) (tid : TenantId) (key : String) (now : Time) :
    (savePending r tid key now).obeys (numbering msg) (fun _ _ => True) g := by
  simp only [savePending, req_bind, Prog.pure_eq]
  refine ⟨.inl rfl, fun ok _ => ?_⟩
  cases ok with
  | false => trivial
  | true => exact ⟨trivial, fun _ _ => trivial⟩

theorem createPlaced_num (r : CreateRequest) (src : Option TenantRow) (key : String) :
    (createPlaced cfg r src key).obeys (numbering msg) (fun _ _ => True) g := by
  simp only [createPlaced, req_bind, Prog.pure_eq]
  refine ⟨trivial, fun tid _ => ⟨trivial, fun now _ => ?_⟩⟩
  rw [Prog.obeys_bind]
  refine Prog.obeys_mono (fun hosts _ _ => ?_) (num_quiet (candidateHosts_quiet cfg r src))
  cases hosts with
  | inl code => trivial
  | inr hosts =>
    simp only [Prog.obeys_bind]
    refine Prog.obeys_mono (fun slot g' hslot => ?_) (reserveFirst_num r.vcpu r.memMb hosts)
    rcases slot with _ | _ | ⟨host, n⟩
    · trivial
    · exact savePending_num r tid key now
    · exact createOn_num r src tid key now host n (hslot host n rfl)

theorem createTenant_num (r : CreateRequest) : (createTenant cfg r).obeys (numbering msg) (fun _ _ => True) g := by
  unfold createTenant
  split
  · trivial
  split
  · trivial
  rw [Prog.obeys_bind]
  refine Prog.obeys_mono (fun src _ _ => ?_) (num_quiet (cloneSource_quiet r))
  cases src with
  | inl code => trivial
  | inr src =>
    simp only [Prog.obeys_bind]
    refine Prog.obeys_mono (fun key _ _ => ?_) (num_quiet (restoreKeyOf_quiet r))
    cases key with
    | inl code => trivial
    | inr key => exact createPlaced_num r src key

/-! ### Programs without a reservation -/

/-- The process works on no message. -/
def NumState.free (g : NumState) : Prop := g.job = none

theorem Call.Bland.num {c : Call} (h : c.Bland) : (numbering msg).allow g c ∧ ∀ r, (numbering msg).next g c r = g := by
  obtain ⟨hw, hm, -, hp, -, hu⟩ := h
  cases c <;> first | exact ⟨trivial, fun _ => rfl⟩ | exact hm.elim | exact hu.elim | cases hw <;> done | skip
  case reserveHost => cases hp
  case putHost x => exact ⟨hu, fun _ => rfl⟩
  case updHost id u =>
    refine ⟨?_, fun _ => rfl⟩
    rintro rfl
    exact hu

/-- The calls of a program that reserves and creates nothing, and moves tenants only as its message says. -/
theorem Made.num {d : Duty} (hc : ¬ d.creates) (hr : ¬ d.reserves) (hn : ¬ d.counts) (ha : d.assigns → g.free)
    (hk : ∀ j, g.job = some j → ∀ x, d.knows x → x = j.seat) {c : Call} (h : Made cfg d c) :
    (numbering msg).allow g c ∧ ∀ r, (numbering msg).next g c r = g := by
  cases h with
  | mute h => exact h.num
  | count hd => exact absurd hd hn
  | idle => exact ⟨by rintro ⟨⟩, fun _ => rfl⟩
  | name hd => exact absurd hd hc
  | reserve hd => exact absurd hd hr
  | creating hd => exact absurd hd hc
  | waiting hd => exact absurd hd hc
  | @upd tid u _ _ hallow =>
    refine ⟨fun j h n hj hm => ?_, fun _ => rfl⟩
    have hseat := hk j hj ⟨h, tid, n⟩ (hallow _ (by simp [Call.seats, hm]))
    simpa [FailoverJob.seat, and_left_comm] using hseat
  | strand => exact ⟨fun _ _ _ _ hm => absurd hm (by rintro ⟨⟩), fun _ => rfl⟩
  | move => exact ⟨fun _ _ _ _ hm => absurd hm (by rintro ⟨⟩), fun _ => rfl⟩
  | @cond tid c u hu =>
    refine ⟨?_, fun _ => rfl⟩
    cases u <;> first | rfl | exact hu.elim
  | assign hd =>
    refine ⟨fun j _ _ hj _ => ?_, fun _ => rfl⟩
    rw [ha hd] at hj
    cases hj
  | send | run | act | launch => exact ⟨trivial, fun _ => rfl⟩

theorem made_num {d : Duty} (hc : ¬ d.creates) (hr : ¬ d.reserves) (hn : ¬ d.counts) (ha : d.assigns → g.free)
    (hk : ∀ j, g.job = some j → ∀ x, d.knows x → x = j.seat) {p : CtlProg α} (hp : p.All (Made cfg d)) :
    p.obeys (numbering msg) (fun _ g' => g' = g) g :=
  Prog.All.obeys (fun _ h => h.num hc hr hn ha hk) hp

/-- The same of a process without a message. -/
theorem free_num {d : Duty} (hc : ¬ d.creates) (hr : ¬ d.reserves) (hn : ¬ d.counts) (hg : g.free) {p : CtlProg α}
    (hp : p.All (Made cfg d)) : p.obeys (numbering msg) (fun _ g' => g' = g) g :=
  made_num hc hr hn (fun _ => hg) (fun j hj => by rw [hg] at hj; cases hj) hp

/-! ### Failover -/

theorem failoverTenantToHost_num (hg : g.free) (t : TenantRow) (target : HostRow) (az : Az) (now : Time) :
    (failoverTenantToHost cfg t target az now).obeys (numbering msg) (fun _ g' => g'.free) g := by
  have hmade : (failoverTenantToHost cfg t target az now).All (Made cfg {}) :=
    failoverTenantToHost_made (fun _ => trivial) t target az now
  exact Prog.obeys_mono (fun _ _ h => h ▸ hg) (free_num False.elim False.elim False.elim hg hmade)

theorem enqueueFailover_num (hg : g.free) (t : TenantRow) (target : HostRow) (az : Az) (now : Time) :
    (enqueueFailover cfg t target az now).obeys (numbering msg) (fun _ g' => g'.free) g := by
  unfold enqueueFailover
  rw [Prog.obeys_bind]
  refine Prog.obeys_mono (fun backup g' hg' => ?_) (num_quiet (latestBackupKey_quiet cfg t.id))
  subst hg'
  cases backup with
  | none =>
    simp only [blockFailover, req_bind, Prog.pure_eq, Prog.call_bind, Prog.ret_bind]
    exact ⟨by rintro j h n - ⟨⟩, fun _ _ => hg⟩
  | some backup =>
    simp only [req_bind, Prog.pure_eq]
    refine ⟨rfl, fun r _ => ?_⟩
    cases r with
    | failed => exact hg
    | refused => exact hg
    | done =>
      simp only [reserveTargetVmNum, req_bind, Prog.pure_eq, Prog.call_bind, Prog.ret_bind]
      refine ⟨trivial, fun old _ => ⟨rfl, fun ok _ => ?_⟩⟩
      cases ok <;> exact hg

theorem failoverAll_num (hg : g.free) (az : Az) (exclude : List Az) (now : Time) (ts : List TenantRow)
    (hosts : List HostRow) : (failoverAll cfg az exclude now ts hosts).obeys (numbering msg) (fun _ g' => g'.free) g := by
  induction ts generalizing hosts g with
  | nil => exact hg
  | cons t ts ih =>
    unfold failoverAll
    split
    · exact ih hg hosts
    split
    · rw [Prog.obeys_bind]
      refine Prog.obeys_mono (fun out g' hg' => ?_) (enqueueFailover_num hg t _ az now)
      cases out with
      | none => exact hg'
      | some o => exact ih hg' _
    · rw [Prog.obeys_bind]
      refine Prog.obeys_mono (fun out g' hg' => ?_) (failoverTenantToHost_num hg t _ az now)
      cases out with
      | none => exact hg'
      | some o => exact ih hg' _

theorem handleOutages_num (hg : g.free) (tenants : List TenantRow) (force exclude : List Az) (now : Time)
    (os : List Outage) (hosts : List HostRow) (azState : List (Az × Time)) :
    (handleOutages cfg tenants force exclude now os hosts azState).obeys (numbering msg) (fun _ g' => g'.free) g := by
  induction os generalizing hosts azState g with
  | nil => exact hg
  | cons o os ih =>
    unfold handleOutages
    split
    · exact ih hg hosts azState
    · simp only [req_bind]
      refine ⟨rfl, fun _ _ => ?_⟩
      rw [Prog.obeys_bind]
      refine Prog.obeys_mono (fun r g' hg' => ?_) (failoverAll_num hg o.az exclude now _ hosts)
      cases r with
      | none => exact hg'
      | some hosts => exact ih hg' hosts _

theorem azFailover_num (hg : g.free) (force : List Az) :
    (azFailover cfg force).obeys (numbering msg) (fun _ g' => g'.free) g := by
  simp only [azFailover, checkAndHandleAzFailover, req_bind, Prog.pure_eq]
  refine ⟨trivial, fun tenants _ => ⟨trivial, fun now _ => ⟨trivial, fun scanned _ => ?_⟩⟩⟩
  beta_reduce
  split
  · exact hg
  · refine ⟨trivial, fun state _ => ?_⟩
    beta_reduce
    split
    · exact hg
    · exact handleOutages_num hg _ _ _ _ _ _ _

theorem processRecord_num (job : FailoverJob) (now : Time) (hg : g.job = some job) :
    (processRecord cfg job now).obeys (numbering msg) (fun _ _ => True) g := by
  simp only [processRecord, claim, req_bind, Prog.pure_eq, Prog.call_bind, Prog.ret_bind]
  refine ⟨trivial, fun item hitem => ?_⟩
  cases item with
  | none => trivial
  | some t =>
    refine ⟨rfl, fun r _ => ?_⟩
    cases r with
    | failed => trivial
    | refused => trivial
    | done =>
      refine ⟨trivial, fun host hhost => ?_⟩
      cases host with
      | none => exact ⟨by rintro j h n - ⟨⟩, fun _ _ => trivial⟩
      | some host =>
        have hseat : (⟨host.instanceId, t.id, job.targetVmNum⟩ : Seat) = job.seat := by
          rw [hitem t rfl, hhost host rfl]
          rfl
        have hmade : (executeFailover cfg t host job.backupKey job.targetVmNum).All
            (Made cfg { knows := (· = job.seat) }) := executeFailover_made hseat job.backupKey
        rw [Prog.obeys_bind]
        refine Prog.obeys_mono (fun _ _ _ => trivial)
          (made_num False.elim False.elim False.elim False.elim (fun j hj x hx => ?_) hmade)
        obtain rfl := Option.some.inj (hg.symm.trans hj)
        exact hx

/-- **Every program of the fleet keeps to the protocol.** -/
theorem fleetBody_num (j : FleetJob) (hj : g.job = j.message) :
    (fleetBody cfg j).obeys (numbering msg) (fun _ _ => True) g := by
  have hmade {d : Duty} (hc : ¬ d.creates) (hr : ¬ d.reserves) (hn : ¬ d.counts) (hg : g.free)
      (hp : (fleetBody cfg j).All (Made cfg d)) : (fleetBody cfg j).obeys (numbering msg) (fun _ _ => True) g :=
    Prog.obeys_mono (fun _ _ _ => trivial) (free_num hc hr hn hg hp)
  cases j with
  | create r =>
    simp only [fleetBody, Prog.obeys_bind]
    exact Prog.obeys_mono (fun _ _ _ => trivial) (createTenant_num r)
  | failover force => exact Prog.obeys_mono (fun _ _ _ => trivial) (azFailover_num hj force)
  | worker job now => exact processRecord_num job now hj
  | pending | action | delete | drain | sweep | stuckFailovers | scaler | host =>
    exact hmade (fun h => h) (fun h => h) (fun h => h) hj (fleetBody_made _)

/-- **Every program that hands out numbers keeps to the protocol.** -/
theorem numBody_obeys (j : NumJob) : (numBody cfg j).obeys numProtocol (fun _ _ => True) (numProtocol.init j) := by
  cases j with
  | create r => exact fleetBody_num (.create r) rfl
  | pending => exact fleetBody_num .pending rfl
  | migrate tid target => exact fleetBody_num (.action tid (.migrate target)) rfl
  | drain host => exact fleetBody_num (.drain host) rfl
  | sweep now => exact fleetBody_num (.sweep now) rfl
  | failover force => exact fleetBody_num (.failover force) rfl
  | worker job now => exact fleetBody_num (.worker job now) rfl

end Obeys

end OpenClaw
