import OpenClaw.Lib.Product
import OpenClaw.Numbers.Protocol

/-!
# Which seats the programs use

`process_pending`, the migration sweep and the detector of zone outages use numbers that they have only read somewhere
(`FleetJob.guesses`). The other programs use the seats that they have read in the tenant's row, written there, or were
handed with a message: `fleetBody_obeys`.
-/

namespace OpenClaw

open Keyed Atomic

variable (cfg : Config)

/-- What a call with its answer leaves in use: a row that was written, or a command that may have been sent. -/
def Call.gives : (c : Call) → c.Ans → List Seat
  | .putTenant t, ok => if ok then t.seats else []
  | .updTenant tid u, ok => if ok then (Call.updTenant tid u).seats else []
  | c, _ => c.seats

/-- The seats that an answer tells about. -/
def Call.learns : (c : Call) → c.Ans → List Seat
  | .getTenant _, r => r.elim [] TenantRow.seats
  | .scanTenants _, ts => ts.flatMap TenantRow.seats
  | .putTenant t, ok => if ok then t.seats else []
  | _, _ => []

/-- The programs that use numbers which they have read in the rows of hosts, or in the plan of a migration. -/
def FleetJob.guesses : FleetJob → Bool
  | .pending | .sweep _ | .failover _ => true
  | _ => false

/-- A process: whether it guesses, and the seats it knows. -/
structure Hand where
  guesses : Bool := false
  known : List Seat := []

def knowing : Protocol Ctl FleetJob Hand where
  init j := { guesses := j.guesses, known := (j.message.map FailoverJob.seat).toList }
  allow g c := g.guesses = true ∨ (∃ t, c = .putTenant t) ∨ ∀ x ∈ c.seats, x ∈ g.known
  sane _ c :=
    match c with
    | .getTenant id => fun r => ∀ t, r = some t → t.id = id
    | .getHost id => fun r => ∀ h, r = some h → h.instanceId = id
    | _ => fun _ => True
  next g c r := { g with known := g.known ++ c.learns r }

abbrev fleetProtocol : Protocol Ctl FleetJob (NumState × Hand) := (numbering FleetJob.message).prod knowing

section Knows

variable {cfg} {α : Type} {g : Hand}

/-- A process that guesses may use any seat. -/
theorem knowing_free (p : CtlProg α) : ∀ {g : Hand}, g.guesses = true → p.obeys knowing (fun _ _ => True) g := by
  induction p with
  | ret a => exact fun _ => trivial
  | call c k ih => exact fun hg => ⟨.inl hg, fun r _ => ih r hg⟩

/-- A call writes a new row, or uses what the program knows. -/
theorem Made.uses {d : Duty} {c : Call} (h : Made cfg d c) : (∃ t, c = .putTenant t) ∨ d.allows c := by
  cases h with
  | mute h =>
    obtain ⟨hw, hm, -⟩ := h
    cases c <;> first | exact .inr (allows_nil rfl) | exact hm.elim
  | count _ h => cases c <;> first | exact .inr (allows_nil rfl) | exact h.elim
  | creating | waiting => exact .inl ⟨_, rfl⟩
  | upd _ _ ha | send _ ha | run _ ha | act _ _ _ ha => exact .inr ha
  | assign _ tid h n v now hk => exact .inr (allows_move rfl hk)
  | launch _ hk => exact .inr (allows_one firstLaunch_isFor hk)
  | _ => exact .inr (allows_nil rfl)

/-- A program that uses what the process knows. -/
theorem made_knows {d : Duty} {p : CtlProg α} (hp : p.All (Made cfg d)) :
    ∀ {g : Hand}, (∀ x, d.knows x → x ∈ g.known) → p.obeys knowing (fun _ g' => g.known ⊆ g'.known) g := by
  induction p with
  | ret a => exact fun _ => List.Subset.refl _
  | call c k ih =>
    intro g hg
    refine ⟨.inr (hp.1.uses.imp_right fun ha x hx => hg x (ha x hx)), fun r _ => ?_⟩
    have hnext : g.known ⊆ (knowing.next g c r).known := List.subset_append_left ..
    exact Prog.obeys_mono (fun _ _ h => List.Subset.trans hnext h) (ih r (hp.2 r) fun x hx => hnext (hg x hx))

/-- A program that reads the tenant's row first. -/
theorem ReadsRow.knows {tid : TenantId} {P : Prop} {p : CtlProg α} (h : ReadsRow cfg tid P p) :
    p.obeys knowing (fun _ g' => g.known ⊆ g'.known) g := by
  obtain ⟨k, rfl, hall⟩ := h
  refine ⟨.inr (.inr fun x hx => absurd hx List.not_mem_nil), fun item hitem => ?_⟩
  have hrow : ∀ t, item = some t → ∀ x ∈ t.seats, x ∈ (knowing.next g (.getTenant tid) item).known := by
    rintro t rfl x hx
    exact List.mem_append_right _ hx
  have hsame : ∀ t, item = some t → ({ t with id := tid } : TenantRow) = t := by
    intro t ht
    rw [← hitem t ht]
  have hmade := hall (d := { migrates := True, knows := fun x => x ∈ (knowing.next g (.getTenant tid) item).known }) item
    (fun t ht => ⟨hrow t ht, by rw [hsame t ht]; exact hrow t ht⟩) fun _ => trivial
  exact Prog.obeys_mono (fun _ _ h => List.Subset.trans (List.subset_append_left ..) h) (made_knows hmade fun _ hx => hx)

/-! ### create_tenant -/

theorem createOn_knows (r : CreateRequest) (src : Option TenantRow) (tid : TenantId) (key : String) (now : Time)
    (host : HostRow) (n : Int) : (createOn cfg r src tid key now host n).obeys knowing (fun _ _ => True) g := by
  simp only [createOn, req_bind, Prog.pure_eq]
  refine ⟨.inr (.inl ⟨_, rfl⟩), fun ok _ => ?_⟩
  cases ok with
  | false => trivial
  | true =>
    have hrest {p : CtlProg Resp} (hp : p.All (Made cfg { launches := True, knows := (· = ⟨host.instanceId, tid, n⟩) })) :
        p.obeys knowing (fun _ _ => True)
          (knowing.next g (.putTenant (creatingRow cfg r tid key now host n)) true) := by
      refine Prog.obeys_mono (fun _ _ _ => trivial) (made_knows hp fun x hx => ?_)
      exact List.mem_append_right _ (List.mem_singleton.2 hx)
    cases src with
    | none => exact hrest (launchCreated_made trivial r rfl)
    | some s =>
      refine hrest ⟨.run (.plain rfl) (allows_plain rfl), fun ok => ?_⟩
      cases ok with
      | true => exact launchCreated_made trivial r rfl
      | false => exact cloneRollback_made r tid host.instanceId

/-- The call uses no seat. -/
def Call.seatless (c : Call) : Prop := c.seats = []

theorem seatless_allow {c : Call} (hc : c.seatless) : knowing.allow g c :=
  .inr (.inr fun _ hx => absurd (hc ▸ hx) List.not_mem_nil)

theorem seatless_knows {p : CtlProg α} (hp : p.All Call.seatless) :
    p.obeys knowing (fun _ _ => True) g := by
  induction p generalizing g with
  | ret a => trivial
  | call c k ih => exact ⟨seatless_allow hp.1, fun r _ => ih r (hp.2 r)⟩

theorem plain_seatless {R : α → Prop} {p : CtlProg α} (hp : p.Gives Call.plain R) : p.All Call.seatless :=
  hp.all.mono fun c h => by cases c <;> first | rfl | cases h

theorem reserveFirst_seatless (v m : Int) (hs : List HostRow) :
    (reserveFirst cfg v m hs).All Call.seatless := by
  induction hs with
  | nil => trivial
  | cons h hs ih =>
    refine Prog.All.bind ?_ fun slot => ?_
    · unfold reserveHostSlot
      split
      · refine ⟨rfl, fun slot => ?_⟩
        cases slot <;> trivial
      · trivial
    · rcases slot with _ | _ | n
      · trivial
      · exact ih
      · trivial

theorem createTenant_knows (r : CreateRequest) : (createTenant cfg r).obeys knowing (fun _ _ => True) g := by
  unfold createTenant
  split
  · trivial
  split
  · trivial
  rw [Prog.obeys_bind]
  refine Prog.obeys_mono (fun src _ _ => ?_) (seatless_knows (plain_seatless (cloneSource_plain r)))
  cases src with
  | inl code => trivial
  | inr src =>
    simp only [Prog.obeys_bind]
    refine Prog.obeys_mono (fun key _ _ => ?_) (seatless_knows (plain_seatless (restoreKeyOf_plain r)))
    cases key with
    | inl code => trivial
    | inr key =>
      simp only [createPlaced, req_bind, Prog.pure_eq]
      refine ⟨seatless_allow rfl, fun tid _ => ⟨seatless_allow rfl, fun now _ => ?_⟩⟩
      rw [Prog.obeys_bind]
      refine Prog.obeys_mono (fun hosts _ _ => ?_) (seatless_knows (plain_seatless (candidateHosts_plain cfg r src)))
      cases hosts with
      | inl code => trivial
      | inr hosts =>
        simp only [Prog.obeys_bind]
        refine Prog.obeys_mono (fun slot _ _ => ?_) (seatless_knows (reserveFirst_seatless r.vcpu r.memMb hosts))
        rcases slot with _ | _ | ⟨host, n⟩
        · trivial
        · simp only [savePending, req_bind, Prog.pure_eq]
          refine ⟨.inr (.inl ⟨_, rfl⟩), fun ok _ => ?_⟩
          cases ok with
          | false => trivial
          | true => exact ⟨seatless_allow rfl, fun _ _ => trivial⟩
        · exact createOn_knows r src tid key now host n

/-! ### The other programs -/

theorem findHost_seatless (v m : Int) : (findHost cfg v m).All Call.seatless := ⟨rfl, fun _ => trivial⟩

theorem drainHost_knows (host : HostId) : (drainHost cfg host).obeys knowing (fun _ _ => True) g := by
  have hall (ts : List TenantRow) {g : Hand} : (drainAll cfg host ts).obeys knowing (fun _ _ => True) g := by
    induction ts generalizing g with
    | nil => trivial
    | cons t ts ih =>
      rw [drainAll, Prog.obeys_bind]
      refine Prog.obeys_mono (fun target _ _ => ?_) (seatless_knows (findHost_seatless t.vcpu t.memMb))
      cases target with
      | none => exact ih
      | some target =>
        simp only
        split
        · exact ih
        · rw [Prog.obeys_bind]
          refine Prog.obeys_mono (fun _ _ _ => ?_) (tenantAction_reads t.id (.migrate target.instanceId)).knows
          rw [Prog.obeys_bind]
          exact Prog.obeys_mono (fun _ _ _ => trivial) ih
  simp only [drainHost, req_bind, Prog.pure_eq]
  refine ⟨seatless_allow rfl, fun h _ => ?_⟩
  cases h with
  | none => trivial
  | some h =>
    refine ⟨seatless_allow rfl, fun tenants _ => ⟨seatless_allow rfl, fun h _ => ?_⟩⟩
    cases h with
    | none => trivial
    | some _ =>
      simp only [Prog.obeys_bind]
      exact Prog.obeys_mono (fun _ _ _ => trivial) (hall tenants)

theorem scalerTick_knows : (scalerTick cfg).obeys knowing (fun _ _ => True) g := by
  have hscan {β : Type} {f : TenantFilter} {k : List TenantRow → Time → CtlProg β}
      (hk : ∀ {d : Duty} ts now, (∀ t ∈ ts, d.knowsRow t) → (k ts now).All (Made cfg d)) {g : Hand} :
      (Prog.call (S := Ctl) (.scanTenants f) fun ts => .call .now fun now => k ts now).obeys knowing
        (fun _ _ => True) g := by
    refine ⟨seatless_allow rfl, fun ts _ => ⟨seatless_allow rfl, fun now _ => ?_⟩⟩
    have hmade := hk (d := { knows := (· ∈ ts.flatMap TenantRow.seats) }) ts now
      fun t ht x hx => List.mem_flatMap.2 ⟨t, ht, hx⟩
    refine Prog.obeys_mono (fun _ _ _ => trivial) (made_knows hmade fun x hx => ?_)
    exact List.mem_append_left _ (List.mem_append_right _ hx)
  rw [scalerTick, Prog.obeys_bind]
  refine Prog.obeys_mono (fun _ _ _ => ?_) (hscan fun ts now hts => expireAll_made now hts)
  rw [Prog.obeys_bind]
  refine Prog.obeys_mono (fun ok _ _ => ?_) (hscan fun ts now hts => reconcileAll_made now hts)
  cases ok with
  | false => trivial
  | true =>
    refine ⟨seatless_allow rfl, fun now _ => ⟨seatless_allow rfl, fun hs _ => ?_⟩⟩
    exact Prog.obeys_mono (fun _ _ _ => trivial)
      (made_knows (d := { idles := True, knows := fun _ => False }) (reconcileHosts_made trivial now hs) fun _ h => h.elim)

theorem processRecord_knows (job : FailoverJob) (now : Time) (hg : job.seat ∈ g.known) :
    (processRecord cfg job now).obeys knowing (fun _ _ => True) g := by
  simp only [processRecord, claim, req_bind, Prog.pure_eq, Prog.call_bind, Prog.ret_bind]
  refine ⟨seatless_allow rfl, fun item hitem => ?_⟩
  cases item with
  | none => trivial
  | some t =>
    refine ⟨seatless_allow rfl, fun r _ => ?_⟩
    cases r with
    | failed => trivial
    | refused => trivial
    | done =>
      refine ⟨seatless_allow rfl, fun host hhost => ?_⟩
      cases host with
      | none => exact ⟨seatless_allow rfl, fun _ _ => trivial⟩
      | some host =>
        have hseat : (⟨host.instanceId, t.id, job.targetVmNum⟩ : Seat) = job.seat := by
          rw [hitem t rfl, hhost host rfl]
          rfl
        have hmade : (executeFailover cfg t host job.backupKey job.targetVmNum).All
            (Made cfg { knows := (· = job.seat) }) := executeFailover_made hseat job.backupKey
        rw [Prog.obeys_bind]
        refine Prog.obeys_mono (fun _ _ _ => trivial) (made_knows hmade ?_)
        rintro x rfl
        simp only [knowing, Call.learns, List.append_nil]
        exact List.mem_append_left _ hg

/-- **Every program uses what it knows**, unless it guesses. -/
theorem fleetBody_knows (j : FleetJob) : (fleetBody cfg j).obeys knowing (fun _ _ => True) (knowing.init j) := by
  cases j with
  | create r =>
    simp only [fleetBody, Prog.obeys_bind]
    exact Prog.obeys_mono (fun _ _ _ => trivial) (createTenant_knows r)
  | pending | sweep | failover => exact knowing_free _ rfl
  | action tid a =>
    simp only [fleetBody, Prog.obeys_bind]
    exact Prog.obeys_mono (fun _ _ _ => trivial) (tenantAction_reads tid a).knows
  | delete tid keepData =>
    simp only [fleetBody, Prog.obeys_bind]
    exact Prog.obeys_mono (fun _ _ _ => trivial) (deleteTenant_reads tid keepData).knows
  | drain host =>
    simp only [fleetBody, Prog.obeys_bind]
    exact Prog.obeys_mono (fun _ _ _ => trivial) (drainHost_knows host)
  | stuckFailovers now =>
    exact Prog.obeys_mono (fun _ _ _ => trivial)
      (made_knows (d := { knows := fun _ => False }) (sweepStuckFailovers_made now) fun _ h => h.elim)
  | worker job now => exact processRecord_knows job now (List.mem_singleton.2 rfl)
  | scaler =>
    simp only [fleetBody, Prog.obeys_bind]
    exact Prog.obeys_mono (fun _ _ _ => trivial) scalerTick_knows
  | host e => trivial

/-- **Every program keeps to both protocols.** -/
theorem fleetBody_obeys (j : FleetJob) :
    (fleetBody cfg j).obeys fleetProtocol (fun _ _ => True ∧ True) (fleetProtocol.init j) :=
  Prog.obeys_prod (fleetBody_num j rfl) (fleetBody_knows j)

end Knows

end OpenClaw
