import OpenClaw.Failover.Pipeline
import OpenClaw.Fleet.Runs
import OpenClaw.Fleet.Updates
import OpenClaw.Lifecycle.PendingPath

/-!
# What the programs write and send

`Made` lists the calls that the programs of the control plane make, once for all of them (`controlBody_made`): the rows
they create, the updates they write, and the commands they send (`Sent`). What holds of every such call holds of every
program, and only a program with the duty (`Duty`) creates, launches, assigns or moves a tenant, or marks a host idle.

- `fleetBody_tidy`: every row that a program creates or assigns has the address fields of its number, and every command
  that it sends is for one VM.
-/

namespace OpenClaw

open Atomic

variable (cfg : Config)

/-! ## The calls -/

/-- The command starts and stops nothing. -/
def HostCmd.plain : HostCmd → Bool
  | .removeVmJson _ | .removeVmDir _ | .dnatDel _ _ | .resizeDisk _ _ _ | .machineConfig _ _ _ | .cloneData _ _ _ _
  | .removePeerConf _ | .removeTenantConf _ => true
  | _ => false

/-- All that the command does to the network is for this VM. -/
def HostCmd.isFor (cmd : HostCmd) (tid : TenantId) (n : Int) : Prop := ∀ x ∈ cmd.numbers, x = (tid, n)

/-- The commands the control plane sends for a tenant it has. -/
inductive Sent : HostCmd → Prop
  | plain {cmd : HostCmd} : cmd.plain = true → Sent cmd
  | stop (tid : TenantId) (n : Int) : Sent (.stopVm tid n)
  | leave (tid : TenantId) (n : Int) : Sent (.seq (.stopVm tid n) (.removeTenantConf tid))
  | migrate (verb : MigrateVerb) (tid : TenantId) (n : Int) (uri : String) : Sent (.migrateVm verb tid n uri)
  /-- Started again: no skills are passed. -/
  | relaunch (tid : TenantId) (n v m : Int) (tpl key : String) : Sent (.launchVm tid n v m tpl key [])

def TenantUpdate.assigns : TenantUpdate → Bool
  | .assign _ _ _ _ _ _ => true
  | _ => false

inductive ControlJob
  | fleet (j : FleetJob)
  | batch (a : BatchAction) (target : BatchTarget)
  | register (host : HostId) (ip : String) (az : Az) (totalVcpu totalMemMb : Int)
  | deregister (host : HostId)
  | cleanup (host : HostId)
  /-- The agent of a host promotes a tenant to `running`; its condition on the status is left out here. -/
  | promote (tid : TenantId)

def controlBody : ControlJob → CtlProg Unit
  | .fleet j => fleetBody cfg j
  | .batch a target => do
    let _ ← batchTenants cfg a target
    pure ()
  | .register host ip az v m => do
    let _ ← registerHost host ip az v m
    pure ()
  | .deregister host => do
    let _ ← deregisterHost host
    pure ()
  | .cleanup host => cleanupTerminatedHost cfg host
  | .promote tid => do
    let _ ← req (.updTenant tid (.status .running))
    pure ()

/-- What a program may do beyond the calls that every program makes. -/
structure Duty where
  /-- It takes new ids and writes new rows. -/
  creates : Prop := False
  /-- It reserves room on hosts. -/
  reserves : Prop := False
  /-- It launches tenants for the first time, with their skills. -/
  launches : Prop := False
  assigns : Prop := False
  /-- It plans moves to other hosts. -/
  migrates : Prop := False
  /-- It rolls back migrations whose rows lack their context. -/
  strands : Prop := False
  /-- It marks hosts idle. -/
  idles : Prop := False
  /-- It takes numbers from the counters of hosts, passes them on, or replaces hosts. -/
  counts : Prop := False
  /-- The seats that its later updates and commands may use. -/
  knows : Seat → Prop := fun _ => True

/-- Without a duty that places tenants or needs the context of a row. -/
def Duty.settled (d : Duty) : Prop :=
  ¬ d.creates ∧ ¬ d.reserves ∧ ¬ d.launches ∧ ¬ d.assigns ∧ ¬ d.migrates ∧ ¬ d.strands

/-- The call uses only what the program knows. -/
def Duty.allows (d : Duty) (c : Call) : Prop := ∀ x ∈ c.seats, d.knows x

/-- The program knows where the row says that the tenant is. -/
def Duty.knowsRow (d : Duty) (t : TenantRow) : Prop := ∀ x ∈ t.seats, d.knows x

/-- A call that takes a number from a counter, passes one on, or replaces a host. -/
def Call.counter : Call → Prop
  | .incNext _ | .sqsSend _ | .deleteHost _ => True
  | .putHost h => h.status ≠ some .idle
  | _ => False

/-- The calls of a program with this duty. -/
inductive Made (d : Duty) : Call → Prop
  | mute {c : Call} : c.Bland → Made d c
  | count (hc : d.counts) {c : Call} : c.counter → Made d c
  | idle (hi : d.idles) (h : HostId) : Made d (.updHost h (.status .idle))
  | name (hc : d.creates) (name : String) : Made d (.genId name)
  | reserve (hr : d.reserves) (h : HostId) (c : ReserveCond) (v m : Int) : Made d (.reserveHost h c v m)
  | creating (hc : d.creates) (r : CreateRequest) (tid : TenantId) (key : String) (now : Time) (host : HostRow)
      (n : Int) : Made d (.putTenant (creatingRow cfg r tid key now host n))
  | waiting (hc : d.creates) (r : CreateRequest) (tid : TenantId) (key : String) (now : Time) :
      Made d (.putTenant (pendingRow r tid key now))
  | upd {tid : TenantId} {u : TenantUpdate} : u.shapely → u.chooses = none → d.allows (.updTenant tid u) →
      Made d (.updTenant tid u)
  | strand (hs : d.strands) (tid : TenantId) (reason : String) (now : Time) :
      Made d (.updTenant tid (.rollback reason now))
  | move (hm : d.migrates) (tid : TenantId) (ctx : MigrationContext) : Made d (.updTenant tid (.migrate ctx))
  | cond {tid : TenantId} {c : TenantCond} {u : TenantUpdate} : u.shapelyIf c → Made d (.condTenant tid c u)
  | assign (ha : d.assigns) (tid : TenantId) (h : HostId) (n : Int) (v : String) (now : Time) : d.knows ⟨h, tid, n⟩ →
      Made d (.updTenant tid (.assign h n (guestIpOf cfg n) (hostPortOf cfg n) v now))
  | send {h : Option HostId} {cmd : HostCmd} : Sent cmd → d.allows (.ssmSend h cmd) → Made d (.ssmSend h cmd)
  | run {h : HostId} {cmd : HostCmd} : Sent cmd → d.allows (.ssmRun h cmd) → Made d (.ssmRun h cmd)
  | act (h : HostId) (a : SimpleAction) (t : TenantRow) : d.allows (.ssmRun h (a.cmd t)) → Made d (.ssmRun h (a.cmd t))
  | launch {h tid : HostId} {n v m : Int} {tpl key : String} {skills : List String} {port : Int} {ip : String} :
      d.launches → d.knows ⟨h, tid, n⟩ → Made d (.ssmSend (some h)
        (.and (.launchVm tid n v m tpl key skills) (.dnatAdd (some port) (some ip))))

/-- The programs that launch a tenant for the first time. -/
def FleetJob.creates : FleetJob → Prop
  | .create _ | .pending => True
  | _ => False

def FleetJob.duty : FleetJob → Duty
  | .create _ => { creates := True, reserves := True, launches := True }
  | .pending => { launches := True, assigns := True }
  | .action _ _ | .drain _ => { migrates := True }
  | .sweep _ => { strands := True }
  | .failover _ => { counts := True }
  | .scaler => { idles := True }
  | _ => {}

def ControlJob.duty : ControlJob → Duty
  | .fleet j => j.duty
  | .register _ _ _ _ _ | .cleanup _ => { counts := True }
  | _ => {}

theorem duty_launches (j : FleetJob) : j.duty.launches ↔ j.creates := by
  cases j <;> exact Iff.rfl

section Made

variable {cfg} {d : Duty}

theorem Sent.places {cmd : HostCmd} (h : Sent cmd) (host : Option HostId) : (Call.ssmSend host cmd).places = none := by
  cases h with
  | plain h => cases cmd <;> first | rfl | cases h
  | _ => rfl

theorem Call.counter.tame {c : Call} (h : c.counter) : c.tame := by
  cases c <;> first | exact ⟨trivial, rfl⟩ | exact h.elim

theorem Call.counter.awake {c : Call} (h : c.counter) : c.awake := by
  cases c <;> first | exact h | trivial

theorem Call.counter.nameless {c : Call} (h : c.counter) : c.nameless := by
  cases c <;> trivial

theorem made_plain {c : Call} (h : c.plain) : Made cfg d c := .mute h.bland

/-- What a program without a duty to place tenants calls. -/
theorem Made.tame (hd : d.settled) {c : Call} (h : Made cfg d c) : c.tame := by
  obtain ⟨hcreate, hreserve, hlaunch, hassign, hmove, hstrand⟩ := hd
  cases h with
  | mute h => exact h.tame
  | count _ hc => exact hc.tame
  | idle => exact ⟨trivial, rfl⟩
  | name hc => exact absurd hc hcreate
  | reserve hr => exact absurd hr hreserve
  | creating hc => exact absurd hc hcreate
  | waiting hc => exact absurd hc hcreate
  | upd hu hc _ => exact ⟨hu, hc⟩
  | strand hs => exact absurd hs hstrand
  | move hm => exact absurd hm hmove
  | cond hu => exact ⟨hu, rfl⟩
  | assign ha => exact absurd ha hassign
  | send h _ => exact ⟨trivial, h.places _⟩
  | run => exact ⟨trivial, rfl⟩
  | act => exact ⟨trivial, rfl⟩
  | launch hl => exact absurd hl hlaunch

/-- Only a program with the duty marks a host idle. -/
theorem Made.awake (hd : ¬ d.idles) {c : Call} (h : Made cfg d c) : c.awake := by
  cases h with
  | mute h => exact h.awake
  | count _ hc => exact hc.awake
  | idle hi => exact absurd hi hd
  | _ => trivial

/-- Only a program with the duty takes ids and writes new rows. -/
theorem Made.nameless (hd : ¬ d.creates) {c : Call} (h : Made cfg d c) : c.nameless := by
  cases h with
  | mute h => exact h.nameless
  | count _ hc => exact hc.nameless
  | name hc => exact absurd hc hd
  | creating hc => exact absurd hc hd
  | waiting hc => exact absurd hc hd
  | _ => trivial

theorem allows_nil {c : Call} (h : c.seats = []) : d.allows c := by
  intro x hx
  rw [h] at hx
  cases hx

theorem numbers_plain {cmd : HostCmd} (h : cmd.plain = true) : cmd.numbers = [] := by
  cases cmd <;> first | rfl | cases h

theorem seats_plain {h : HostId} {cmd : HostCmd} (hc : cmd.plain = true) : cmd.seats h = [] := by
  rw [HostCmd.seats, numbers_plain hc]
  rfl

theorem allows_plain {h : HostId} {cmd : HostCmd} (hc : cmd.plain = true) : ∀ x ∈ cmd.seats h, d.knows x := by
  intro x hx
  rw [seats_plain hc] at hx
  cases hx

theorem stopVm_isFor {tid : TenantId} {n : Int} : (HostCmd.stopVm tid n).isFor tid n := by
  simp [HostCmd.isFor, HostCmd.numbers, HostCmd.acts, stopActs, NetAct.number]

theorem launchVm_isFor {tid : TenantId} {n v m : Int} {tpl key : String} {skills : List String} :
    (HostCmd.launchVm tid n v m tpl key skills).isFor tid n := by
  simp [HostCmd.isFor, HostCmd.numbers, HostCmd.acts, launchActs, NetAct.number]

/-- The first launch, with its rule. -/
theorem firstLaunch_isFor {tid : TenantId} {n v m : Int} {tpl key : String} {skills : List String} {port : Option Int}
    {ip : Option String} : (HostCmd.and (.launchVm tid n v m tpl key skills) (.dnatAdd port ip)).isFor tid n := by
  simp [HostCmd.isFor, HostCmd.numbers, HostCmd.acts, launchActs, NetAct.number]

theorem migrateVm_isFor {verb : MigrateVerb} {tid : TenantId} {n : Int} {uri : String} :
    (HostCmd.migrateVm verb tid n uri).isFor tid n := by
  cases verb <;>
    simp [HostCmd.isFor, HostCmd.numbers, HostCmd.acts, MigrateVerb.acts, launchActs, stopActs, NetAct.number]

/-- The commands of the simple actions are for the row's VM. -/
theorem SimpleAction.cmd_isFor (a : SimpleAction) (t : TenantRow) : (a.cmd t).isFor t.id (t.vmNum.getD 1) := by
  cases a <;> simp only [SimpleAction.cmd, withDnat, relaunchCmd] <;> try split
  all_goals simp [HostCmd.isFor, HostCmd.numbers, HostCmd.acts, launchActs, stopActs, NetAct.number]

/-- A tenant is moved where the program knows. -/
theorem allows_move {tid : TenantId} {u : TenantUpdate} {h : HostId} {n : Int} (hu : u.movesTo = some (h, n))
    (hk : d.knows ⟨h, tid, n⟩) : d.allows (.updTenant tid u) := by
  intro x hx
  simp only [Call.seats, hu, Option.map_some, Option.toList_some, List.mem_singleton] at hx
  exact hx ▸ hk

/-- A command for one VM. -/
theorem allows_one {h : HostId} {cmd : HostCmd} {tid : TenantId} {n : Int} (hn : cmd.isFor tid n)
    (hk : d.knows ⟨h, tid, n⟩) : ∀ x ∈ cmd.seats h, d.knows x := by
  intro x hx
  obtain ⟨y, hy, rfl⟩ := List.mem_map.1 hx
  rw [hn y hy]
  exact hk

theorem Duty.knowsRow.seat {t : TenantRow} (hk : d.knowsRow t) {h : HostId} (hh : t.hostId = some h) :
    d.knows ⟨h, t.id, t.vmNum.getD 1⟩ :=
  hk _ (by simp [TenantRow.seats, hh])

theorem made_of_routes {α : Type} {p : CtlProg α} (hp : p.All Call.routes) : p.All (Made cfg d) :=
  hp.mono fun _ h => .mute h.plain.bland

theorem made_of_plain {α : Type} {p : CtlProg α} {R : α → Prop} (hp : p.Gives Call.plain R) : p.All (Made cfg d) :=
  hp.all.mono fun _ h => .mute h.bland

/-- The program reads the tenant's row first, and goes on with what that says; it plans moves only if `P`. -/
def ReadsRow (cfg : Config) {α : Type} (tid : TenantId) (P : Prop) (p : CtlProg α) : Prop :=
  ∃ k, p = .call (.getTenant tid) k ∧ ∀ {d : Duty} item,
    (∀ t, item = some t → d.knowsRow t ∧ d.knowsRow { t with id := tid }) → (P → d.migrates) → (k item).All (Made cfg d)

theorem ReadsRow.made {α : Type} {tid : TenantId} {P : Prop} {p : CtlProg α} (h : ReadsRow cfg tid P p)
    (hk : ∀ x, d.knows x) (hm : P → d.migrates) : p.All (Made cfg d) := by
  obtain ⟨k, rfl, hall⟩ := h
  exact ⟨made_plain trivial, fun item =>
    hall item (fun _ _ => ⟨fun x _ => hk x, fun x _ => hk x⟩) hm⟩

/-! ## Create and pending assignment -/

theorem launchVm_made (hl : d.launches) {host : HostId} {tid : TenantId} {n : Int} (hk : d.knows ⟨host, tid, n⟩)
    (v m : Int) (ip : String) (port : Int) (tpl key : String) (skills : List String) :
    (launchVm host tid n v m ip port tpl key skills).All (Made cfg d) := ⟨.launch hl hk, fun _ => trivial⟩

theorem resolveEffectiveSkills_made (t : TenantRow) : (resolveEffectiveSkills t).All (Made cfg d) :=
  made_of_plain (resolveEffectiveSkills_plain t).gives

theorem launchCreated_made (hl : d.launches) (r : CreateRequest) {row : TenantRow} {host : HostRow} {n : Int}
    (hk : d.knows ⟨host.instanceId, row.id, n⟩) : (launchCreated cfg r row host n).All (Made cfg d) :=
  (resolveEffectiveSkills_made row).bind fun _ => (launchVm_made hl hk ..).bind fun _ =>
    (made_of_routes (routeTenant_routes cfg host _)).bind fun _ => trivial

theorem cloneRollback_made (r : CreateRequest) (tid : TenantId) (host : HostId) :
    (cloneRollback r tid host).All (Made cfg d) := by
  simp only [cloneRollback, releaseHostSlot, req_bind, Prog.pure_eq, Prog.call_bind, Prog.ret_bind]
  refine ⟨.mute ⟨rfl, trivial, trivial, rfl, trivial, trivial⟩, fun x => ?_⟩
  cases x with
  | none => trivial
  | some _ => exact ⟨.upd rfl rfl (allows_nil rfl), fun _ => trivial⟩

theorem createOn_made (hk : ∀ x, d.knows x) (hc : d.creates) (hl : d.launches) (r : CreateRequest)
    (src : Option TenantRow) (tid : TenantId) (key : String) (now : Time) (host : HostRow) (n : Int) :
    (createOn cfg r src tid key now host n).All (Made cfg d) := by
  simp only [createOn, req_bind, Prog.pure_eq]
  refine ⟨.creating hc r tid key now host n, fun ok => ?_⟩
  cases ok with
  | false => trivial
  | true =>
    cases src with
    | none => exact launchCreated_made hl r (hk _)
    | some s =>
      refine ⟨.run (.plain rfl) (allows_plain rfl), fun ok => ?_⟩
      cases ok with
      | true => exact launchCreated_made hl r (hk _)
      | false => exact cloneRollback_made r tid host.instanceId

theorem reserveFirst_made (hr : d.reserves) (v m : Int) (hs : List HostRow) :
    (reserveFirst cfg v m hs).All (Made cfg d) := by
  induction hs with
  | nil => trivial
  | cons h hs ih =>
    refine Prog.All.bind ?_ fun slot => ?_
    · unfold reserveHostSlot
      split
      · refine ⟨.reserve hr .., fun slot => ?_⟩
        cases slot <;> trivial
      · trivial
    · rcases slot with _ | _ | n
      · trivial
      · exact ih
      · trivial

theorem createPlaced_made (hk : ∀ x, d.knows x) (hc : d.creates) (hr : d.reserves) (hl : d.launches)
    (r : CreateRequest) (src : Option TenantRow) (key : String) : (createPlaced cfg r src key).All (Made cfg d) := by
  simp only [createPlaced, req_bind, Prog.pure_eq]
  refine ⟨.name hc _, fun tid => ⟨made_plain trivial, fun now => ?_⟩⟩
  refine (made_of_plain (candidateHosts_plain cfg r src)).bind fun hosts => ?_
  cases hosts with
  | inl code => trivial
  | inr hosts =>
    refine (reserveFirst_made hr _ _ hosts).bind fun slot => ?_
    rcases slot with _ | _ | ⟨host, n⟩
    · trivial
    · refine ⟨.waiting hc r tid key now, fun ok => ?_⟩
      cases ok with
      | false => trivial
      | true => exact ⟨made_plain trivial, fun _ => trivial⟩
    · exact createOn_made hk hc hl ..

theorem createTenant_made (hk : ∀ x, d.knows x) (hc : d.creates) (hr : d.reserves) (hl : d.launches) (r : CreateRequest) :
    (createTenant cfg r).All (Made cfg d) := by
  unfold createTenant
  split
  · trivial
  · split
    · trivial
    · refine (made_of_plain (cloneSource_plain r)).bind fun src => ?_
      cases src with
      | inl code => trivial
      | inr src =>
        refine (made_of_plain (restoreKeyOf_plain r)).bind fun key => ?_
        cases key with
        | inl code => trivial
        | inr key => exact createPlaced_made hk hc hr hl r src key

theorem assignPending_made (hk : ∀ x, d.knows x) (ha : d.assigns) (hl : d.launches) (t : TenantRow) :
    (assignPending cfg t).All (Made cfg d) := by
  simp only [assignPending, findHost, req_bind, Prog.pure_eq, Prog.call_bind, Prog.ret_bind]
  refine ⟨made_plain trivial, fun hosts => ?_⟩
  dsimp only
  cases (rankHosts cfg hosts t.vcpu t.memMb).head? with
  | none => trivial
  | some host =>
    refine ⟨made_plain trivial, fun now => ⟨.assign ha _ _ _ _ _ (hk _), fun ok => ?_⟩⟩
    cases ok with
    | false => trivial
    | true =>
      refine ⟨.mute ⟨rfl, trivial, trivial, rfl, trivial, trivial⟩, fun h => ?_⟩
      cases h with
      | none => trivial
      | some _ =>
        refine (resolveEffectiveSkills_made t).bind fun _ => (launchVm_made hl (hk _) ..).bind fun _ =>
          (made_of_routes (routeTenant_routes cfg host _)).bind fun ok => ?_
        cases ok <;> trivial

theorem processPending_made (hk : ∀ x, d.knows x) (ha : d.assigns) (hl : d.launches) :
    (processPending cfg).All (Made cfg d) := by
  have hall : ∀ ts, (assignAll cfg ts).All (Made cfg d) := by
    intro ts
    induction ts with
    | nil => trivial
    | cons t ts ih =>
      refine (assignPending_made hk ha hl t).bind fun r => ?_
      cases r with
      | none => trivial
      | some _ => exact ih
  exact ⟨made_plain trivial, fun pending => hall _⟩

/-! ## Actions on a tenant -/

theorem deleteTenant_reads (tid : TenantId) (keepData : Bool) :
    ReadsRow cfg tid False (deleteTenant cfg tid keepData) := by
  refine ⟨_, rfl, fun {d} item hitem _ => ?_⟩
  have hmark : (markDeleted tid).All (Made cfg d) := ⟨.upd rfl rfl (allows_nil rfl), fun _ => trivial⟩
  have hrel : ∀ (t : TenantRow) (h : HostId), (releaseDeleted t h).All (Made cfg d) := by
    intro t h
    refine ⟨.mute ⟨rfl, trivial, trivial, rfl, trivial, trivial⟩, fun x => ?_⟩
    cases x with
    | none => trivial
    | some x =>
      simp only [Prog.bind]
      split
      · exact ⟨made_plain trivial, fun _ => ⟨.mute ⟨rfl, trivial, trivial, rfl, trivial, trivial⟩, fun _ => trivial⟩⟩
      · trivial
  have hend : ∀ (t : TenantRow) (h : HostId), (releaseDeleted t h >>= fun ok =>
      if ok then markDeleted tid else (.ret 500 : CtlProg Resp)).All (Made cfg d) := by
    intro t h
    refine (hrel t h).bind fun ok => ?_
    cases ok with
    | true => exact hmark
    | false => trivial
  cases item with
  | none => trivial
  | some t =>
    obtain ⟨-, hk⟩ := hitem t rfl
    simp only [req_bind, Prog.pure_eq, Prog.bind]
    split
    · trivial
    · split
      · refine (made_of_routes (removeAlbRule_routes cfg tid)).bind fun ok => ?_
        cases ok with
        | true => exact hmark
        | false => trivial
      · rename_i h hh
        refine ⟨.run (.stop ..) (allows_one stopVm_isFor (hk.seat hh)), fun _ =>
          ⟨.run (.plain rfl) (allows_plain rfl), fun _ => ?_⟩⟩
        refine (made_of_routes (removeAlbRule_routes cfg tid)).bind fun ok => ?_
        cases ok with
        | false => trivial
        | true =>
          refine ⟨.run (.plain rfl) (allows_plain rfl), fun _ => ?_⟩
          cases keepData with
          | true => exact hend t h
          | false => exact ⟨.run (.plain rfl) (allows_plain rfl), fun _ => hend t h⟩

theorem deleteTenant_made (hk : ∀ x, d.knows x) (tid : TenantId) (keepData : Bool) :
    (deleteTenant cfg tid keepData).All (Made cfg d) := (deleteTenant_reads tid keepData).made hk False.elim

theorem tenantResize_made (tid : TenantId) (v : Int) : (tenantResize cfg tid v).All (Made cfg d) := by
  simp only [tenantResize, req_bind, Prog.pure_eq]
  refine ⟨made_plain trivial, fun item => ?_⟩
  cases item with
  | none => trivial
  | some t =>
    dsimp only
    repeat' split
    all_goals first | trivial | skip
    refine ⟨made_plain trivial, fun h => ?_⟩
    cases h with
    | none => trivial
    | some h =>
      dsimp only
      split
      · split
        · trivial
        · refine ⟨.run (.plain rfl) (allows_plain rfl), fun ok => ?_⟩
          cases ok with
          | false => trivial
          | true =>
            refine ⟨.upd trivial rfl (allows_nil rfl), fun ok => ?_⟩
            cases ok with
            | false => trivial
            | true => exact ⟨.mute ⟨rfl, trivial, trivial, rfl, trivial, trivial⟩, fun _ => trivial⟩
      · trivial

theorem migrate_made (hm : d.migrates) {t : TenantRow} (hk : d.knowsRow t) (target : HostId) :
    (migrate cfg t target).All (Made cfg d) := by
  have hstart : ∀ mode row, (startMigration cfg t mode row).All (Made cfg d) := by
    intro mode row
    simp only [startMigration, req_bind, Prog.pure_eq]
    refine ⟨made_plain trivial, fun now => ⟨.send (.migrate ..) ?_, fun cmd => ?_⟩⟩
    · cases hh : t.hostId with
      | none => exact allows_nil rfl
      | some source => exact allows_one migrateVm_isFor (hk.seat hh)
    cases cmd with
    | none => trivial
    | some cmd =>
      cases t.hostId with
      | none => trivial
      | some source => exact ⟨.move hm .., fun _ => trivial⟩
  unfold migrate
  split
  · trivial
  · split
    · trivial
    · split
      · trivial
      · refine ⟨made_plain trivial, fun row => ?_⟩
        cases row with
        | none => trivial
        | some row =>
          simp only [Prog.pure_eq, Prog.bind]
          split
          · trivial
          · split
            · exact hstart _ _
            · trivial

theorem simpleAction_made (a : SimpleAction) {t : TenantRow} (hk : d.knowsRow t) :
    (simpleAction a t).All (Made cfg d) := by
  unfold simpleAction
  split
  · trivial
  · rename_i h hh
    refine ⟨.act _ a t (allows_one (a.cmd_isFor t) (hk.seat hh)), fun _ => ?_⟩
    simp only [req_bind, Prog.pure_eq]
    split
    · exact ⟨made_plain trivial, fun _ => ⟨.upd trivial rfl (allows_nil rfl), fun _ => trivial⟩⟩
    · exact ⟨.upd (by cases a <;> rfl) rfl (allows_nil rfl), fun _ => trivial⟩

theorem cancelMigration_made (t : TenantRow) : (cancelMigration t).All (Made cfg d) := by
  unfold cancelMigration
  split
  · trivial
  · exact ⟨made_plain trivial, fun _ => ⟨.upd operator_not_stranded rfl (allows_nil rfl), fun _ => trivial⟩⟩

theorem resizeDisk_made (mb : Int) (t : TenantRow) (size : Int) : (resizeDisk mb t size).All (Made cfg d) := by
  unfold resizeDisk
  repeat' split
  all_goals first | trivial | skip
  refine ⟨.run (.plain rfl) (allows_plain rfl), fun ok => ?_⟩
  cases ok with
  | false => trivial
  | true => exact ⟨.upd trivial rfl (allows_nil rfl), fun _ => trivial⟩

theorem tenantAction_reads (tid : TenantId) (a : TenantAction) :
    ReadsRow cfg tid (∃ target, a = .migrate target) (tenantAction cfg tid a) := by
  refine ⟨_, rfl, fun {d} item hitem hm => ?_⟩
  cases item with
  | none => trivial
  | some t =>
    obtain ⟨hk, -⟩ := hitem t rfl
    cases a with
    | cancelMigration => exact cancelMigration_made t
    | resize v => exact tenantResize_made tid v
    | resizeDisk mb => exact resizeDisk_made _ t mb
    | migrate target => exact migrate_made (hm ⟨target, rfl⟩) hk target
    | simple a => exact simpleAction_made a hk

theorem tenantAction_made (hk : ∀ x, d.knows x) (tid : TenantId) (a : TenantAction)
    (hm : ∀ target, a = .migrate target → d.migrates) : (tenantAction cfg tid a).All (Made cfg d) :=
  (tenantAction_reads tid a).made hk fun ⟨target, ha⟩ => hm target ha

theorem batchTenants_made (hk : ∀ x, d.knows x) (a : BatchAction) (target : BatchTarget) :
    (batchTenants cfg a target).All (Made cfg d) := by
  have hone : ∀ tid, (batchOne cfg tid a).All (Made cfg d) := by
    intro tid
    cases a with
    | delete => exact deleteTenant_made hk tid true
    | stop => exact tenantAction_made hk tid (.simple .stop) (by rintro _ ⟨⟩)
    | start => exact tenantAction_made hk tid (.simple .start) (by rintro _ ⟨⟩)
  have hall : ∀ ids, (batchAll cfg a ids).All (Made cfg d) := by
    intro ids
    induction ids with
    | nil => trivial
    | cons tid ids ih =>
      have hrest : ∀ code : Resp, (batchAll cfg a ids >>= fun r =>
          (.ret (if code < 400 then (tid :: r.1, r.2) else (r.1, tid :: r.2)) :
            CtlProg (List TenantId × List TenantId))).All (Made cfg d) := fun _ => ih.bind fun _ => trivial
      refine ⟨made_plain trivial, fun item => ?_⟩
      cases item with
      | none => exact hrest 404
      | some _ => exact (hone tid).bind hrest
  cases target with
  | ids ids => exact hall ids
  | filter tag => exact ⟨made_plain trivial, fun _ => hall _⟩

/-! ## Hosts -/

theorem registerHost_made (hc : d.counts) (host : HostId) (ip : String) (az : Az) (v m : Int) :
    (registerHost host ip az v m).All (Made cfg d) :=
  ⟨made_plain trivial, fun _ => ⟨.count hc (by rintro ⟨⟩), fun _ => trivial⟩⟩

theorem deregisterHost_made (host : HostId) : (deregisterHost host).All (Made cfg d) :=
  ⟨.mute ⟨rfl, trivial, by rintro ⟨⟩, rfl, trivial, trivial⟩, fun _ => trivial⟩

theorem cleanupTerminatedHost_made (hc : d.counts) (host : HostId) :
    (cleanupTerminatedHost cfg host).All (Made cfg d) := by
  have hall : ∀ ts, (reapTenants cfg ts).All (Made cfg d) := by
    intro ts
    induction ts with
    | nil => trivial
    | cons t ts ih =>
      refine (made_of_routes (removeAlbRule_routes cfg t.id)).bind fun ok => ?_
      cases ok with
      | false => trivial
      | true =>
        refine ⟨.upd rfl rfl (allows_nil rfl), fun ok => ?_⟩
        cases ok with
        | true => exact ih
        | false => trivial
  refine ⟨made_plain trivial, fun ts => (hall ts).bind fun ok => ?_⟩
  cases ok with
  | false => trivial
  | true =>
    exact (made_of_routes (removeHostTg_routes cfg host)).bind fun _ => ⟨.count hc trivial, fun _ => trivial⟩

theorem drainHost_made (hk : ∀ x, d.knows x) (hm : d.migrates) (host : HostId) :
    (drainHost cfg host).All (Made cfg d) := by
  have hall : ∀ ts, (drainAll cfg host ts).All (Made cfg d) := by
    intro ts
    induction ts with
    | nil => trivial
    | cons t ts ih =>
      simp only [drainAll, findHost, req_bind, Prog.pure_eq, Prog.call_bind, Prog.ret_bind]
      refine ⟨made_plain trivial, fun hosts => ?_⟩
      dsimp only
      cases (rankHosts cfg hosts t.vcpu t.memMb).head? with
      | none => exact ih
      | some target =>
        dsimp only
        split
        · exact ih
        · exact (tenantAction_made hk _ _ fun _ _ => hm).bind fun _ => ih.bind fun _ => trivial
  refine ⟨made_plain trivial, fun h => ?_⟩
  cases h with
  | none => trivial
  | some h =>
    refine ⟨made_plain trivial, fun tenants => ⟨.mute ⟨rfl, trivial, by rintro ⟨⟩, rfl, trivial, trivial⟩, fun x => ?_⟩⟩
    cases x with
    | none => trivial
    | some _ => exact (hall tenants).bind fun _ => trivial

/-! ## The sweep -/

theorem rollbackMigration_made (hk : ∀ x, d.knows x) (t : TenantRow) {reason : String}
    (hr : d.strands ∨ ¬ StrandedReason (cutReason reason)) : (rollbackMigration t reason).All (Made cfg d) := by
  have hwrite : ∀ now, (req (.updTenant t.id (.rollback (cutReason reason) now))).All (Made cfg d) :=
    fun now => Prog.all_lift (hr.elim (fun hs => .strand hs ..) fun hn => .upd hn rfl (allows_nil rfl))
  simp only [rollbackMigration, req_bind]
  split
  · split
    · exact ⟨made_plain trivial, hwrite⟩
    · exact ⟨.send (.relaunch ..) (fun x _ => hk x), fun _ => ⟨made_plain trivial, hwrite⟩⟩
  · exact ⟨made_plain trivial, hwrite⟩

theorem rollbackMigration_then_made (hk : ∀ x, d.knows x) (t : TenantRow) {reason : String}
    (hr : d.strands ∨ ¬ StrandedReason (cutReason reason)) :
    (rollbackMigration t reason >>= fun _ => (.ret () : CtlProg Unit)).All (Made cfg d) :=
  (rollbackMigration_made hk t hr).bind fun _ => trivial

theorem bumpTargetCounters_made (target : HostId) (n v m : Int) :
    (bumpTargetCounters target n v m).All (Made cfg d) :=
  ⟨.mute ⟨rfl, trivial, trivial, rfl, trivial, trivial⟩, fun _ =>
    ⟨.mute ⟨rfl, trivial, trivial, rfl, trivial, trivial⟩, fun _ => trivial⟩⟩

theorem completeMove_made (hk : ∀ x, d.knows x) (t : TenantRow) (target : HostId) :
    (completeMove t target).All (Made cfg d) := by
  simp only [completeMove, req_bind, Prog.pure_eq]
  refine ⟨made_plain trivial, fun now => ⟨.upd trivial rfl (fun x _ => hk x), fun ok => ?_⟩⟩
  cases ok with
  | false => trivial
  | true =>
    simp only
    cases t.migrationSource with
    | none => exact bumpTargetCounters_made ..
    | some src =>
      refine ⟨.mute ⟨rfl, trivial, trivial, rfl, trivial, trivial⟩, fun _ =>
        (bumpTargetCounters_made ..).bind fun _ => ?_⟩
      exact ⟨.send (.leave ..) (fun x _ => hk x), fun _ => trivial⟩

theorem verifyAndMove_made (hk : ∀ x, d.knows x) (t : TenantRow) (target : HostId) :
    (verifyAndMove cfg t target).All (Made cfg d) := by
  simp only [verifyAndMove, req_bind, Prog.pure_eq]
  split
  · refine ⟨made_plain trivial, fun ok => ?_⟩
    cases ok with
    | true => exact completeMove_made hk t target
    | false => exact rollbackMigration_then_made hk t (.inr (by unfold StrandedReason; decide))
  · exact completeMove_made hk t target

/-- With the snapshot command in the row, or the duty. -/
theorem advanceSnapshot_made (hk : ∀ x, d.knows x) {t : TenantRow} (ht : d.strands ∨ t.migrationSnapCmd.isSome) :
    (advanceSnapshot t).All (Made cfg d) := by
  simp only [advanceSnapshot, req_bind, Prog.pure_eq]
  split
  · rename_i h
    exact rollbackMigration_then_made hk t (.inl (ht.resolve_right (by simp [h])))
  · refine ⟨made_plain trivial, fun r => ?_⟩
    obtain ⟨done, ok⟩ := r
    cases done with
    | false => trivial
    | true =>
      cases ok with
      | false => exact rollbackMigration_then_made hk t (.inr (by unfold StrandedReason; decide))
      | true =>
        refine ⟨.send (.migrate ..) (fun x _ => hk x), fun cmd => ?_⟩
        cases cmd with
        | none => exact rollbackMigration_then_made hk t (.inr (by unfold StrandedReason; decide))
        | some cmd => exact ⟨made_plain trivial, fun _ => ⟨.upd trivial rfl (allows_nil rfl), fun _ => trivial⟩⟩

/-- With the restore command in the row, or the duty. -/
theorem advanceRestore_made (hk : ∀ x, d.knows x) {t : TenantRow} (ht : d.strands ∨ t.migrationRestoreCmd.isSome) :
    (advanceRestore cfg t).All (Made cfg d) := by
  simp only [advanceRestore, req_bind, Prog.pure_eq]
  split
  · rename_i h
    exact rollbackMigration_then_made hk t (.inl (ht.resolve_right (by simp [h])))
  · refine ⟨made_plain trivial, fun r => ?_⟩
    obtain ⟨done, ok⟩ := r
    cases done with
    | false => trivial
    | true =>
      cases ok with
      | false => exact rollbackMigration_then_made hk t (.inr (by unfold StrandedReason; decide))
      | true =>
        simp only
        cases t.migrationTarget with
        | none => trivial
        | some target =>
          refine ⟨made_plain trivial, fun host => ?_⟩
          dsimp only
          split
          · exact ⟨.send (.plain rfl) (allows_plain rfl), fun _ => verifyAndMove_made hk t _⟩
          split
          · refine (rollbackMigration_made hk t (.inr (by unfold StrandedReason; decide))).bind fun ok => ?_
            cases ok with
            | true => trivial
            | false => exact rollbackMigration_then_made hk t (.inr (by unfold StrandedReason; decide))
          · refine (made_of_routes (repointAlbRule_routes cfg _ _ _)).bind fun ok => ?_
            cases ok with
            | true => exact verifyAndMove_made hk t _
            | false => exact rollbackMigration_then_made hk t (.inr (by unfold StrandedReason; decide))

theorem advanceMigration_made (hk : ∀ x, d.knows x) {t : TenantRow} (ht : d.strands ∨ t.Shaped) (now : Time) :
    (advanceMigration cfg t now).All (Made cfg d) := by
  unfold advanceMigration
  split
  · trivial
  · rename_i phase hphase
    have hadv : (advancePhase cfg t phase).All (Made cfg d) := by
      cases phase with
      | snapshot => exact advanceSnapshot_made hk (ht.imp_right fun h => h.phase .snapshot hphase)
      | restore => exact advanceRestore_made hk (ht.imp_right fun h => h.phase .restore hphase)
      | other p => exact rollbackMigration_then_made hk t (.inl (ht.resolve_right fun h => h.phase (.other p) hphase))
    split
    · refine (rollbackMigration_made hk t (.inr (watchdogReason_not_stranded t phase now))).bind fun ok => ?_
      cases ok with
      | true => trivial
      | false => exact hadv
    · exact hadv

theorem advanceAll_made (hk : ∀ x, d.knows x) (now : Time) {ts : List TenantRow} (hts : ∀ t ∈ ts, d.strands ∨ t.Shaped) :
    (advanceAll cfg now ts).All (Made cfg d) := by
  induction ts with
  | nil => trivial
  | cons t ts ih =>
    obtain ⟨ht, hts⟩ := List.forall_mem_cons.1 hts
    unfold advanceAll
    split
    · exact ih hts
    · exact (advanceMigration_made hk ht now).bind fun _ => ih hts

theorem migrationSweep_made (hk : ∀ x, d.knows x) (hs : d.strands) (now : Time) :
    (migrationSweep cfg now).All (Made cfg d) :=
  ⟨made_plain trivial, fun _ => advanceAll_made hk now fun _ _ => .inl hs⟩

/-! ## Failover -/

theorem failoverFailed_made (tid : TenantId) (e : FailoverError) :
    (failoverFailed tid e).All (Made cfg d) := ⟨.upd (by cases e <;> exact rfl) rfl (allows_nil rfl), fun _ => trivial⟩

theorem failoverVerify_made {t : TenantRow} {target : HostRow} {n : Int} (hk : d.knows ⟨target.instanceId, t.id, n⟩)
    (backup : String) (v m : Int) :
    (failoverVerify cfg t target backup n v m).All (Made cfg d) := by
  have hflip : (failoverFlip t target backup n v m).All (Made cfg d) := by
    refine ⟨.upd trivial rfl (allows_move rfl hk), fun ok => ?_⟩
    cases ok with
    | true => exact (bumpTargetCounters_made ..).bind fun _ => trivial
    | false => exact failoverFailed_made _ _
  simp only [failoverVerify, req_bind]
  split
  · refine ⟨made_plain trivial, fun ok => ?_⟩
    cases ok with
    | true =>
      simp only [if_true]
      split
      · exact hflip
      · exact ⟨.send (.plain rfl) (allows_plain rfl), fun _ => hflip⟩
    | false => exact failoverFailed_made _ _
  · split
    · exact hflip
    · exact ⟨.send (.plain rfl) (allows_plain rfl), fun _ => hflip⟩

theorem executeFailover_made {t : TenantRow} {target : HostRow} {n : Int} (hk : d.knows ⟨target.instanceId, t.id, n⟩)
    (backup : String) : (executeFailover cfg t target backup n).All (Made cfg d) := by
  have hrepoint : ∀ v m, (failoverRepoint cfg t target backup n v m).All (Made cfg d) := by
    intro v m
    unfold failoverRepoint
    split
    · split
      · exact failoverFailed_made _ _
      · refine (made_of_routes (repointAlbRule_routes cfg _ _ _)).bind fun ok => ?_
        cases ok with
        | true => exact failoverVerify_made hk ..
        | false => exact failoverFailed_made _ _
    · exact failoverVerify_made hk ..
  have hgate : (Prog.call (Call.verifyVm target.instanceId t.id) fun up =>
      if up then failoverRepoint cfg t target backup n (orDefault t.vcpu 2) (orDefault t.memMb 4096)
      else failoverFailed t.id .vmNotVerified : CtlProg Bool).All (Made cfg d) := by
    refine ⟨made_plain trivial, fun up => ?_⟩
    cases up with
    | true => exact hrepoint _ _
    | false => exact failoverFailed_made _ _
  simp only [executeFailover, req_bind]
  refine ⟨.send (.relaunch ..) (allows_one launchVm_isFor hk), fun cmd => ?_⟩
  cases cmd with
  | none => exact failoverFailed_made _ _
  | some cmd =>
    refine ⟨made_plain trivial, fun _ => ?_⟩
    split
    · exact ⟨.send (.plain rfl) (allows_plain rfl), fun _ => hgate⟩
    · exact hgate

theorem latestBackupKey_made (tid : TenantId) : (latestBackupKey cfg tid).All (Made cfg d) := by
  unfold latestBackupKey
  split
  · trivial
  · exact ⟨made_plain trivial, fun _ => trivial⟩

theorem enqueueFailover_made (hc : d.counts) (t : TenantRow) (target : HostRow) (az : Az) (now : Time) :
    (enqueueFailover cfg t target az now).All (Made cfg d) := by
  simp only [enqueueFailover, reserveTargetVmNum, blockFailover, req_bind, Prog.pure_eq, Prog.call_bind, Prog.ret_bind]
  refine (latestBackupKey_made t.id).bind fun backup => ?_
  cases backup with
  | none => exact ⟨.upd rfl rfl (allows_nil rfl), fun _ => trivial⟩
  | some backup =>
    refine ⟨.cond ⟨by rintro ⟨⟩, by rintro ⟨⟩, .inr rfl⟩, fun r => ?_⟩
    cases r with
    | failed => trivial
    | refused => trivial
    | done => exact ⟨.count hc trivial, fun _ => ⟨.count hc trivial, fun _ => trivial⟩⟩

theorem failoverTenantToHost_made (hk : ∀ x, d.knows x) (t : TenantRow) (target : HostRow) (az : Az) (now : Time) :
    (failoverTenantToHost cfg t target az now).All (Made cfg d) := by
  simp only [failoverTenantToHost, blockFailover, req_bind, Prog.pure_eq, Prog.call_bind, Prog.ret_bind]
  refine (latestBackupKey_made t.id).bind fun backup => ?_
  cases backup with
  | none => exact ⟨.upd rfl rfl (allows_nil rfl), fun _ => trivial⟩
  | some backup =>
    refine ⟨.cond ⟨by rintro ⟨⟩, by rintro ⟨⟩, .inl rfl⟩, fun r => ?_⟩
    cases r with
    | failed => trivial
    | refused => trivial
    | done => exact (executeFailover_made (hk _) ..).bind fun _ => trivial

theorem azFailover_made (hk : ∀ x, d.knows x) (hc : d.counts) (force : List Az) :
    (azFailover cfg force).All (Made cfg d) :=
  azFailover_all (fun _ h _ => .mute h) (enqueueFailover_made hc) (failoverTenantToHost_made hk) force

theorem processRecord_made (hk : ∀ x, d.knows x) (job : FailoverJob) (now : Time) :
    (processRecord cfg job now).All (Made cfg d) := by
  simp only [processRecord, claim, req_bind, Prog.pure_eq, Prog.call_bind, Prog.ret_bind]
  refine ⟨made_plain trivial, fun item => ?_⟩
  cases item with
  | none => trivial
  | some t =>
    refine ⟨.cond rfl, fun r => ?_⟩
    cases r with
    | failed => trivial
    | refused => trivial
    | done =>
      refine ⟨made_plain trivial, fun host => ?_⟩
      cases host with
      | none => exact ⟨.upd rfl rfl (allows_nil rfl), fun _ => trivial⟩
      | some host => exact (executeFailover_made (hk _) ..).bind fun _ => trivial

theorem sweepStuckFailovers_made (now : Time) : (sweepStuckFailovers cfg now).All (Made cfg d) := by
  have hall : ∀ ts, (reapStuck cfg now ts).All (Made cfg d) := by
    intro ts
    induction ts with
    | nil => trivial
    | cons t ts ih =>
      simp only [reapStuck, req_bind]
      split
      · exact ih
      · exact ⟨.cond rfl, fun _ => ih⟩
  exact ⟨made_plain trivial, fun ts => hall ts⟩

/-! ## The scaler -/

theorem expireAll_made (now : Time) {ts : List TenantRow} (hk : ∀ t ∈ ts, d.knowsRow t) :
    (expireAll now ts).All (Made cfg d) := by
  induction ts with
  | nil => trivial
  | cons t ts ih =>
    obtain ⟨ht, hts⟩ := List.forall_mem_cons.1 hk
    have ih := ih hts
    simp only [expireAll, req_bind]
    split
    · exact ih
    · split
      · exact ih
      · split
        · split
          · exact ⟨.upd rfl rfl (allows_nil rfl), fun _ => ih⟩
          · rename_i h hh
            exact ⟨.send (.stop ..) (allows_one stopVm_isFor (ht.seat hh)), fun _ =>
              ⟨.upd rfl rfl (allows_nil rfl), fun _ => ih⟩⟩
        · exact ⟨.upd rfl rfl (allows_nil rfl), fun _ => ih⟩

theorem scheduleAction_made (t : TenantRow) {host : HostId} {cmd : HostCmd} (hc : Sent cmd)
    (ha : ∀ x ∈ cmd.seats host, d.knows x) {s : TenantStatus} (hs : s.bare = true) :
    (scheduleAction t host cmd s).All (Made cfg d) := by
  refine ⟨.send hc ha, fun sent => ?_⟩
  cases sent with
  | none => trivial
  | some _ => exact Prog.all_lift (.upd hs rfl (allows_nil rfl))

theorem reconcileSchedule_made (now : Time) {t : TenantRow} (hk : d.knowsRow t) :
    (reconcileSchedule cfg now t).All (Made cfg d) := by
  unfold reconcileSchedule
  split
  · rename_i host _ hh
    split
    · exact scheduleAction_made t (.relaunch ..) (allows_one launchVm_isFor (hk.seat hh)) rfl
    · split
      · exact scheduleAction_made t (.stop ..) (allows_one stopVm_isFor (hk.seat hh)) rfl
      · trivial
  · trivial

theorem reconcileAll_made (now : Time) {ts : List TenantRow} (hk : ∀ t ∈ ts, d.knowsRow t) :
    (reconcileAll cfg now ts).All (Made cfg d) := by
  induction ts with
  | nil => trivial
  | cons t ts ih =>
    obtain ⟨ht, hts⟩ := List.forall_mem_cons.1 hk
    refine (reconcileSchedule_made now ht).bind fun ok => ?_
    cases ok with
    | true => exact ih hts
    | false => trivial

theorem reconcileHosts_made (hi : d.idles) (now : Time) (hs : List HostRow) :
    (reconcileHosts cfg now hs).All (Made cfg d) := by
  induction hs with
  | nil => trivial
  | cons h hs ih =>
    have hone : (reconcileHost cfg now h).All (Made cfg d) := by
      simp only [reconcileHost, req_bind, Prog.pure_eq]
      repeat' split
      all_goals first | trivial | exact ⟨.idle hi _, fun _ => trivial⟩ | skip
      · exact ⟨.mute ⟨rfl, trivial, by rintro ⟨⟩, rfl, trivial, trivial⟩, fun _ => trivial⟩
      · exact ⟨.mute ⟨rfl, trivial, trivial, rfl, trivial, trivial⟩, fun _ => trivial⟩
    refine hone.bind fun ok => ?_
    cases ok with
    | true => exact ih
    | false => trivial

theorem processTtlExpirations_made (hk : ∀ x, d.knows x) : processTtlExpirations.All (Made cfg d) :=
  ⟨made_plain trivial, fun _ => ⟨made_plain trivial,
    fun now => expireAll_made now fun _ _ x _ => hk x⟩⟩

theorem reconcileSchedules_made (hk : ∀ x, d.knows x) : (reconcileSchedules cfg).All (Made cfg d) :=
  ⟨made_plain trivial, fun _ => ⟨made_plain trivial,
    fun now => reconcileAll_made now fun _ _ x _ => hk x⟩⟩

theorem scalerTick_made (hk : ∀ x, d.knows x) (hi : d.idles) : (scalerTick cfg).All (Made cfg d) := by
  refine (processTtlExpirations_made hk).bind fun _ => (reconcileSchedules_made hk).bind fun ok => ?_
  cases ok with
  | false => trivial
  | true =>
    refine ⟨made_plain trivial, fun now => ⟨made_plain trivial, fun hs => ?_⟩⟩
    exact reconcileHosts_made hi now hs

theorem fleetBody_made (j : FleetJob) : (fleetBody cfg j).All (Made cfg j.duty) := by
  cases j with
  | create r => exact (createTenant_made (fun _ => trivial) trivial trivial trivial r).bind fun _ => trivial
  | pending => exact processPending_made (fun _ => trivial) trivial trivial
  | action tid a => exact (tenantAction_made (fun _ => trivial) tid a fun _ _ => trivial).bind fun _ => trivial
  | delete tid keepData => exact (deleteTenant_made (fun _ => trivial) tid keepData).bind fun _ => trivial
  | drain host => exact (drainHost_made (fun _ => trivial) trivial host).bind fun _ => trivial
  | sweep now => exact migrationSweep_made (fun _ => trivial) trivial now
  | failover force => exact azFailover_made (fun _ => trivial) trivial force
  | stuckFailovers now => exact sweepStuckFailovers_made now
  | worker job now => exact processRecord_made (fun _ => trivial) job now
  | scaler => exact (scalerTick_made (fun _ => trivial) trivial).bind fun _ => trivial
  | host e => trivial

/-- **The calls of every program.** -/
theorem controlBody_made (j : ControlJob) : (controlBody cfg j).All (Made cfg j.duty) := by
  cases j with
  | fleet j => exact fleetBody_made j
  | batch a target => exact (batchTenants_made (fun _ => trivial) a target).bind fun _ => trivial
  | register host ip az v m => exact (registerHost_made trivial host ip az v m).bind fun _ => trivial
  | deregister host => exact (deregisterHost_made host).bind fun _ => trivial
  | cleanup host => exact cleanupTerminatedHost_made trivial host
  | promote tid => exact ⟨.upd rfl rfl (allows_nil rfl), fun _ => trivial⟩

end Made

/-! ## Rows and taps -/

/-- A tenant on a host has a number, and the address fields of its number. -/
def TenantRow.addressed (t : TenantRow) : Prop :=
  (t.hostId.isSome → t.vmNum.isSome) ∧
    ∀ n, t.vmNum = some n → t.guestIp = some (guestIpOf cfg n) ∧ t.hostPort = some (hostPortOf cfg n)

/-- An assignment writes the address fields of the number. -/
def TenantUpdate.addressed : TenantUpdate → Prop
  | .assign _ n ip port _ _ => ip = guestIpOf cfg n ∧ port = hostPortOf cfg n
  | _ => True

/-- All that the command does to the network is for one VM. -/
def HostCmd.forOne (cmd : HostCmd) : Prop := ∃ tid n, cmd.isFor tid n

def Call.tidy : Call → Prop
  | .putTenant t => t.addressed cfg
  | .updTenant _ u | .condTenant _ _ u => u.addressed cfg
  | .ssmSend _ cmd | .ssmRun _ cmd => cmd.forOne
  | _ => True

/-- **Every command is for one VM.** -/
theorem Sent.forOne {cmd : HostCmd} (h : Sent cmd) : cmd.forOne := by
  cases h with
  | plain h =>
    refine ⟨"", 0, fun x hx => ?_⟩
    rw [numbers_plain h] at hx
    cases hx
  | stop tid n | leave tid n => exact ⟨tid, n, stopVm_isFor⟩
  | migrate verb tid n uri => exact ⟨tid, n, migrateVm_isFor⟩
  | relaunch tid n v m tpl key => exact ⟨tid, n, launchVm_isFor⟩

theorem TenantUpdate.addressed_of {u : TenantUpdate} (h : u.chooses = none) : u.addressed cfg := by
  cases u with
  | assign => cases h
  | _ => trivial

/-- No update under a condition chooses a host. -/
theorem TenantUpdate.shapelyIf.chooses {c : TenantCond} {u : TenantUpdate} (h : u.shapelyIf c) : u.chooses = none := by
  cases u <;> first | rfl | exact h.elim

theorem Made.tidy {d : Duty} {c : Call} (h : Made cfg d c) : c.tidy cfg := by
  cases h with
  | mute h => cases c <;> first | trivial | exact h.mute.elim | cases h.tenants
  | count => cases c <;> trivial
  | idle => trivial
  | name => trivial
  | reserve => trivial
  | creating _ r tid key now host n =>
    refine ⟨fun _ => rfl, fun k hk => ?_⟩
    obtain rfl := Option.some.inj hk
    exact ⟨rfl, rfl⟩
  | waiting _ r tid key now =>
    refine ⟨fun h => ?_, fun k hk => ?_⟩
    · cases h
    · cases hk
  | upd _ hu _ => exact TenantUpdate.addressed_of cfg hu
  | cond hu => exact TenantUpdate.addressed_of cfg hu.chooses
  | strand => trivial
  | move => trivial
  | assign _ => exact ⟨rfl, rfl⟩
  | send h _ => exact h.forOne
  | run h _ => exact h.forOne
  | act _ a t _ => exact ⟨_, _, a.cmd_isFor t⟩
  | launch => exact ⟨_, _, firstLaunch_isFor⟩

/-- **What the programs write and send is tidy.** -/
theorem fleetBody_tidy (j : FleetJob) : (fleetBody cfg j).All (Call.tidy cfg) :=
  (fleetBody_made j).mono fun _ h => h.tidy cfg

end OpenClaw
