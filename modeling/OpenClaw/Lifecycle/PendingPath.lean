import OpenClaw.Capacity.Reservation
import OpenClaw.Control.Log
import OpenClaw.Lib.Project

/-!
# The pending path and the direct path

A request that finds no host is saved as a pending row, and `process_pending` resumes it later in another invocation.
Both paths are compared by what they leave of the row and by the commands they send, for whatever answers their calls
get in between.

- `written`, `vmCommands`: the row and the commands of a run.
- `pending_path`: the two paths agree exactly when the request has no `clone_from`, which the pending row drops.
-/

namespace OpenClaw

open Keyed Atomic

variable (cfg : Config)

/-! ## The traces of a path -/

/-- The row without its timestamps. -/
def TenantRow.timeless (t : TenantRow) : TenantRow := { t with createdAt := none, creationStartedAt := none, updatedAt := none }

/-- The skills `_resolve_effective_skills` finds for the row, given the answers of the run. -/
def EffectiveSkills (t : TenantRow) (l : CallLog) (skills : List String) : Prop :=
  match t.group with
  | none => skills = sortedNames (t.skills.getD [])
  | some g => ∃ gs : List String, Saw l (.groupSkills g) gs ∧ skills = sortedNames (t.skills.getD [] ++ gs)

/-- The command of `_launch_vm`. -/
def launchCmd (tid : TenantId) (vmNum vcpu memMb : Int) (template restoreKey : String) (skills : List String) : HostCmd :=
  .and (.launchVm tid vmNum vcpu memMb template restoreKey skills)
    (.dnatAdd (some (hostPortOf cfg vmNum)) (some (guestIpOf cfg vmNum)))

section Logs

variable {l l' : CallLog} {t : TenantRow} {skills : List String}

theorem EffectiveSkills.mono (h : EffectiveSkills t l skills) (hl : ∀ x ∈ l, x ∈ l') : EffectiveSkills t l' skills := by
  unfold EffectiveSkills at h ⊢
  split
  · rename_i hg
    rw [hg] at h
    exact h
  · rename_i g hg
    rw [hg] at h
    obtain ⟨gs, hs, he⟩ := h
    exact ⟨gs, hl _ hs, he⟩

end Logs

/-! ## The two paths -/

section Paths

variable {cfg} {r : CreateRequest} {t : TenantRow} {l : CallLog}

abbrev anyAnswers : Sem Ctl Unit := Sem.free Ctl

theorem routeTenant_log (host : HostRow) (tid : TenantId) : (routeTenant cfg host tid).wpt anyAnswers
    (fun l _ _ => vmCommands l = [] ∧ ∀ tid row, written tid l row = row) () :=
  Prog.wpt_mono (fun _ _ _ h => mute_log h)
    (Prog.wpt_all (Prog.All.mono (fun _ h => h.mute) (routeTenant_routes cfg host tid)) ())

/-- The tail of both paths: read the skills, launch, route. -/
theorem launch_log {α : Type} (t : TenantRow) (host : HostRow) (n v m : Int) (template key : String) (k : Bool → CtlProg α)
    (hk : ∀ ok, ∃ a, k ok = .ret a) : (do
      let skills ← resolveEffectiveSkills t
      launchVm host.instanceId t.id n v m (guestIpOf cfg n) (hostPortOf cfg n) template key skills
      let ok ← routeTenant cfg host t.id
      k ok).wpt anyAnswers (fun l _ _ => ∃ skills, EffectiveSkills t l skills ∧
        vmCommands l = [(host.instanceId, launchCmd cfg t.id n v m template key skills)] ∧
          ∀ tid row, written tid l row = row) () := by
  have hrest : ∀ skills, (do
      launchVm host.instanceId t.id n v m (guestIpOf cfg n) (hostPortOf cfg n) template key skills
      let ok ← routeTenant cfg host t.id
      k ok).wpt anyAnswers (fun l _ _ =>
        vmCommands l = [(host.instanceId, launchCmd cfg t.id n v m template key skills)] ∧
          ∀ tid row, written tid l row = row) () := by
    intro skills
    simp only [launchVm, req_bind, Prog.pure_eq, Prog.call_bind, Prog.ret_bind]
    rintro sent ⟨⟩ -
    refine (Prog.wpt_bind ..).2 (Prog.wpt_mono ?_ (routeTenant_log host t.id))
    rintro l ok ⟨⟩ ⟨hcmds, hrow⟩
    obtain ⟨a, ha⟩ := hk ok
    rw [ha]
    have happ : vmCommands (⟨.ssmSend (some host.instanceId) (launchCmd cfg t.id n v m template key skills), sent⟩ :: l) =
        [(host.instanceId, launchCmd cfg t.id n v m template key skills)] := by
      show _ :: vmCommands l = _
      rw [hcmds]
    have hres : vmCommands (⟨.ssmSend (some host.instanceId) (launchCmd cfg t.id n v m template key skills), sent⟩ ::
        (l ++ [])) = [(host.instanceId, launchCmd cfg t.id n v m template key skills)] ∧
        ∀ tid row, written tid (⟨.ssmSend (some host.instanceId) (launchCmd cfg t.id n v m template key skills), sent⟩ ::
          (l ++ [])) row = row := by
      rw [List.append_nil]
      exact ⟨happ, fun tid row => hrow tid row⟩
    exact hres
  unfold resolveEffectiveSkills
  split
  · rename_i hg
    simp only [Prog.pure_eq, Prog.ret_bind]
    refine Prog.wpt_mono ?_ (hrest _)
    intro l _ _ h
    refine ⟨_, ?_, h⟩
    simp only [EffectiveSkills, hg]
  · rename_i g hg
    simp only [req_bind, Prog.pure_eq, Prog.call_bind, Prog.ret_bind]
    rintro gs ⟨⟩ -
    refine Prog.wpt_mono ?_ (hrest _)
    intro l _ _ h
    refine ⟨sortedNames (t.skills.getD [] ++ gs), ?_, ?_⟩
    · simp only [EffectiveSkills, hg]
      exact ⟨gs, List.mem_cons_self, rfl⟩
    · exact h

/-- The update of `process_pending` for a tenant put on the host. -/
def assignUpdate (cfg : Config) (host : HostRow) (now : Time) : TenantUpdate :=
  .assign host.instanceId (host.nextVmNum.getD 1) (guestIpOf cfg (host.nextVmNum.getD 1))
    (hostPortOf cfg (host.nextVmNum.getD 1)) (host.rootfsVersion.getD "") now

/-- The host was found by the scan of the run, and the tenant was put on it. -/
def AssignedTo (cfg : Config) (t : TenantRow) (host : HostRow) (l : CallLog) : Prop :=
  (∃ hosts : List HostRow, Saw l (.scanHosts .activeOrIdle) hosts ∧
    (rankHosts cfg hosts t.vcpu t.memMb).head? = some host) ∧
      ∃ now, Saw l (.updTenant t.id (assignUpdate cfg host now)) true

/-- **The pending path**: the row keeps what was stored and gets the host, and the tenant is launched with it. -/
theorem assignPending_log (t : TenantRow) : (assignPending cfg t).wpt anyAnswers (fun l r _ => r = some () →
    ∃ host now skills, AssignedTo cfg t host l ∧ EffectiveSkills t l skills ∧
      written t.id l (some t) = some ((assignUpdate cfg host now).apply t) ∧
      vmCommands l = [(host.instanceId, launchCmd cfg t.id (host.nextVmNum.getD 1) t.vcpu t.memMb t.configTemplate
        t.restoreBackupKey skills)]) () := by
  simp only [assignPending, findHost, req_bind, Prog.pure_eq, Prog.call_bind, Prog.ret_bind]
  rintro hosts ⟨⟩ -
  beta_reduce
  cases hhead : (rankHosts cfg hosts t.vcpu t.memMb).head? with
  | none =>
    intro he
    cases he
  | some host =>
    rintro now ⟨⟩ - ok ⟨⟩ -
    cases ok with
    | false =>
      intro he
      cases he
    | true =>
      rintro booked ⟨⟩ -
      cases booked with
      | none =>
        intro he
        cases he
      | some h =>
        have hdone : ∀ ok : Bool, ∃ a, (Prog.ret (if ok then some () else none) : CtlProg (Option Unit)) = .ret a :=
          fun ok => ⟨_, rfl⟩
        refine Prog.wpt_mono ?_ (launch_log t host (host.nextVmNum.getD 1) t.vcpu t.memMb t.configTemplate
          t.restoreBackupKey _ hdone)
        rintro l r ⟨⟩ ⟨skills, hskills, hcmds, hrow⟩ -
        refine ⟨host, now, skills, ⟨⟨hosts, List.mem_cons_self, hhead⟩, now, ?_⟩, hskills.mono fun x hx => ?_, ?_, hcmds⟩
        · exact List.mem_cons_of_mem _ (List.mem_cons_of_mem _ List.mem_cons_self)
        · exact List.mem_cons_of_mem _ (List.mem_cons_of_mem _ (List.mem_cons_of_mem _ (List.mem_cons_of_mem _ hx)))
        · have hself : writeOf t.id (.updTenant t.id (assignUpdate cfg host now)) true (some t) =
              some ((assignUpdate cfg host now).apply t) := by
            simp [writeOf]
          exact (hrow t.id _).trans hself

/-- The commands of the direct path: a clone copies the disks of its source first. -/
def directCmds (cfg : Config) (r : CreateRequest) (src : Option TenantRow) (tid : TenantId) (key : String) (host : HostId)
    (n : Int) (skills : List String) : List (HostId × HostCmd) :=
  (src.toList.map fun s => (host, .cloneData s.id (s.vmNum.getD 1) tid n)) ++
    [(host, launchCmd cfg tid n r.vcpu r.memMb r.configTemplate key skills)]

/-- **The direct path**, once the tenant was created. -/
theorem createOn_log (src : Option TenantRow) (tid : TenantId) (key : String) (now : Time) (host : HostRow) (n : Int) :
    (createOn cfg r src tid key now host n).wpt anyAnswers (fun l code _ => code = 201 →
      (∀ id, written id l none = if id = tid then some (creatingRow cfg r tid key now host n) else none) ∧
        ∃ skills, EffectiveSkills (creatingRow cfg r tid key now host n) l skills ∧
          vmCommands l = directCmds cfg r src tid key host.instanceId n skills) () := by
  have hself : ∀ id, writeOf id (.putTenant (creatingRow cfg r tid key now host n)) true none =
      if id = tid then some (creatingRow cfg r tid key now host n) else none := by
    intro id
    have hid : (creatingRow cfg r tid key now host n).id = tid := rfl
    simp [writeOf, hid, eq_comm]
  have hdone : ∀ ok : Bool, ∃ a, (Prog.ret (if ok then 201 else 500) : CtlProg Resp) = .ret a := fun ok => ⟨_, rfl⟩
  have hlaunch := @launch_log cfg Resp (creatingRow cfg r tid key now host n) host n r.vcpu r.memMb r.configTemplate key
    (fun ok => .ret (if ok then 201 else 500)) hdone
  simp only [createOn, req_bind, Prog.pure_eq]
  rintro ok ⟨⟩ -
  cases ok with
  | false =>
    intro he
    cases he
  | true =>
    cases src with
    | none =>
      refine Prog.wpt_mono ?_ hlaunch
      rintro l code ⟨⟩ ⟨skills, hskills, hcmds, hrow⟩ -
      exact ⟨fun id => (hrow id _).trans (hself id), skills, hskills.mono fun x hx => List.mem_cons_of_mem _ hx, hcmds⟩
    | some s =>
      simp only [if_true]
      rintro copied ⟨⟩ -
      cases copied with
      | true =>
        refine Prog.wpt_mono ?_ hlaunch
        rintro l code ⟨⟩ ⟨skills, hskills, hcmds, hrow⟩ -
        refine ⟨fun id => (hrow id _).trans (hself id), skills, hskills.mono fun x hx => ?_, ?_⟩
        · exact List.mem_cons_of_mem _ (List.mem_cons_of_mem _ hx)
        · have hcons : vmCommands (⟨.putTenant (creatingRow cfg r tid key now host n), true⟩ ::
              ⟨.ssmRun host.instanceId (.cloneData s.id (s.vmNum.getD 1) tid n), true⟩ :: l) =
              (host.instanceId, .cloneData s.id (s.vmNum.getD 1) tid n) :: vmCommands l := rfl
          rw [hcons, hcmds]
          rfl
      | false =>
        -- The clone was rolled back.
        simp only [cloneRollback, releaseHostSlot, req_bind, Prog.pure_eq, Prog.call_bind, Prog.ret_bind, Bool.false_eq_true,
          if_false]
        rintro released ⟨⟩ -
        cases released with
        | none =>
          intro he
          cases he
        | some h =>
          rintro ok ⟨⟩ -
          cases ok <;>
          · intro he
            cases he

/-- What a request that was answered with 201 left behind. -/
inductive Created (cfg : Config) (r : CreateRequest) (l : CallLog) : Prop
  | pending (tid : TenantId) (key : String) (now : Time)
      (hrow : ∀ id, written id l none = if id = tid then some (pendingRow r tid key now) else none)
  | placed (src : Option TenantRow) (tid : TenantId) (key : String) (now : Time) (host : HostRow) (n : Int)
      (skills : List String) (hsrc : src.isSome = r.cloneFrom.isSome)
      (hrow : ∀ id, written id l none = if id = tid then some (creatingRow cfg r tid key now host n) else none)
      (hskills : EffectiveSkills (creatingRow cfg r tid key now host n) l skills)
      (hcmds : vmCommands l = directCmds cfg r src tid key host.instanceId n skills)

theorem Created.mute_append {l' : CallLog} (hl : ∀ x ∈ l, x.1.mute) (h : Created cfg r l') : Created cfg r (l ++ l') := by
  obtain ⟨hcmds, hrow⟩ := mute_log hl
  have hwritten : ∀ id, written id (l ++ l') none = written id l' none := fun id => by rw [written_append, hrow]
  cases h with
  | pending tid key now h => exact .pending tid key now fun id => by rw [hwritten, h]
  | placed src tid key now host n skills hsrc h hskills hc =>
    refine .placed src tid key now host n skills hsrc (fun id => by rw [hwritten, h]) (hskills.mono fun x hx => ?_) ?_
    · exact List.mem_append_right _ hx
    · rw [vmCommands_append, hcmds, hc]
      rfl

/-- A part that writes no tenant and sends nothing comes first. -/
theorem created_bind {β : Type} {p : CtlProg β} {R : β → Prop} (hp : p.Gives Call.mute R) {k : β → CtlProg Resp}
    (hk : ∀ b, R b → (k b).wpt anyAnswers (fun l code _ => code = 201 → Created cfg r l) ()) :
    (p >>= k).wpt anyAnswers (fun l code _ => code = 201 → Created cfg r l) () := by
  refine (Prog.wpt_bind ..).2 (Prog.wpt_mono ?_ (Prog.wpt_and (Prog.wpt_all hp.all ()) (hp.wpt ())))
  rintro l b ⟨⟩ ⟨hl, hb⟩
  refine Prog.wpt_mono ?_ (hk b hb)
  intro l' code _ h hcode
  exact (h hcode).mute_append hl

theorem reserveFirst_mute (v m : Int) (hs : List HostRow) : (reserveFirst cfg v m hs).All Call.mute := by
  induction hs with
  | nil => trivial
  | cons h hs ih =>
    refine Prog.All.bind ?_ fun slot => ?_
    · unfold reserveHostSlot
      split
      · refine ⟨trivial, fun slot => ?_⟩
        cases slot <;> trivial
      · trivial
    · rcases slot with _ | _ | n
      · trivial
      · exact ih
      · trivial

theorem createPlaced_log (src : Option TenantRow) (key : String) (hsrc : src.isSome = r.cloneFrom.isSome) :
    (createPlaced cfg r src key).wpt anyAnswers (fun l code _ => code = 201 → Created cfg r l) () := by
  have hid : (req (.genId r.name)).All Call.mute := ⟨trivial, fun _ => trivial⟩
  have hnow : (req .now).All Call.mute := ⟨trivial, fun _ => trivial⟩
  refine created_bind hid.gives fun tid _ => created_bind hnow.gives fun now _ => ?_
  refine created_bind ((candidateHosts_plain cfg r src).mono fun _ h => h.mute) fun hosts hrefuse => ?_
  cases hosts with
  | inl code => exact fun he => absurd he (hrefuse code rfl)
  | inr hosts =>
    refine created_bind (reserveFirst_mute _ _ hosts).gives fun slot _ => ?_
    rcases slot with _ | _ | ⟨host, n⟩
    · intro he
      cases he
    · simp only [savePending, req_bind, Prog.pure_eq]
      rintro ok ⟨⟩ -
      cases ok with
      | false =>
        intro he
        cases he
      | true =>
        rintro ⟨⟩ ⟨⟩ - -
        refine .pending tid key now fun id => ?_
        have hid : (pendingRow r tid key now).id = tid := rfl
        simp [written, writeOf, hid, eq_comm]
    · refine Prog.wpt_mono ?_ (createOn_log src tid key now host n)
      intro l code _ h hcode
      obtain ⟨hrow, skills, hskills, hcmds⟩ := h hcode
      exact .placed src tid key now host n skills hsrc hrow hskills hcmds

/-- **What `create_tenant` leaves behind.** -/
theorem createTenant_log (r : CreateRequest) :
    (createTenant cfg r).wpt anyAnswers (fun l code _ => code = 201 → Created cfg r l) () := by
  unfold createTenant
  split
  · intro he
    cases he
  split
  · intro he
    cases he
  refine created_bind ((cloneSource_plain r).mono fun _ h => h.mute) fun src hsrc => ?_
  cases src with
  | inl code => exact fun he => absurd he (hsrc.1 code rfl)
  | inr src =>
    refine created_bind ((restoreKeyOf_plain r).mono fun _ h => h.mute) fun key hrefuse => ?_
    cases key with
    | inl code => exact fun he => absurd he (hrefuse code rfl)
    | inr key => exact createPlaced_log src key (hsrc.2 src rfl)

end Paths

/-! ## The comparison -/

/-- The direct path put the same tenant on the same host under the same number. -/
structure SamePlace (t : TenantRow) (host : HostRow) (row : TenantRow) : Prop where
  creating : row.status = .creating
  id : row.id = t.id
  restoreBackupKey : row.restoreBackupKey = t.restoreBackupKey
  hostId : row.hostId = some host.instanceId
  vmNum : row.vmNum = some (host.nextVmNum.getD 1)
  rootfsVersion : row.rootfsVersion = some (host.rootfsVersion.getD "")

/-- The pending path of `t` and the direct path leave the same row, timestamps aside, and send the same commands. -/
def SamePath (t : TenantRow) (l₁ l₂ : CallLog) : Prop :=
  (written t.id l₁ (some t)).map TenantRow.timeless = (written t.id l₂ none).map TenantRow.timeless ∧
    vmCommands l₁ = vmCommands l₂

section Comparison

variable {cfg} {r : CreateRequest} {t row : TenantRow} {l l₀ l₁ l₂ : CallLog}

/-- A stored row that is pending is the one the request asks for. -/
theorem Created.of_pending (h : Created cfg r l) (ht : written t.id l none = some t) (hp : t.status = .pending) :
    ∃ key now, t = pendingRow r t.id key now := by
  cases h with
  | pending tid key now hrow =>
    rw [hrow] at ht
    split at ht
    · rename_i he
      obtain rfl := Option.some.inj ht
      exact ⟨key, now, rfl⟩
    · cases ht
  | placed src tid key now host n skills hsrc hrow hskills hcmds =>
    rw [hrow] at ht
    split at ht
    · obtain rfl := Option.some.inj ht
      cases hp
    · cases ht

/-- The stored row with its host is the row of the direct path, except that it has no `clone_from`. -/
theorem timeless_eq_iff {tid : TenantId} {key : String} {now₀ now now' : Time} {host host' : HostRow} {n : Int}
    (hid : host'.instanceId = host.instanceId) (hn : n = host.nextVmNum.getD 1)
    (hrv : host'.rootfsVersion.getD "" = host.rootfsVersion.getD "") :
    ((assignUpdate cfg host now).apply (pendingRow r tid key now₀)).timeless =
      (creatingRow cfg r tid key now' host' n).timeless ↔ r.cloneFrom = none := by
  subst hn
  constructor
  · intro h
    exact (congrArg TenantRow.cloneFrom h).symm
  · intro h
    simp [TenantRow.timeless, assignUpdate, TenantUpdate.apply, pendingRow, creatingRow, hid, hrv, h]

/-- With the same answers about the group, rows with the same skills and group have the same effective skills. -/
theorem EffectiveSkills.unique {skills skills' : List String} (h₁ : EffectiveSkills t l₁ skills)
    (h₂ : EffectiveSkills row l₂ skills') (hg : row.group = t.group) (hs : row.skills = t.skills)
    (hgroups : ∀ g (a b : List String), Saw l₁ (.groupSkills g) a → Saw l₂ (.groupSkills g) b → a = b) :
    skills' = skills := by
  unfold EffectiveSkills at h₁ h₂
  rw [hg, hs] at h₂
  cases htg : t.group with
  | none =>
    rw [htg] at h₁ h₂
    exact h₂.trans h₁.symm
  | some g =>
    rw [htg] at h₁ h₂
    obtain ⟨a, ha, rfl⟩ := h₁
    obtain ⟨b, hb, rfl⟩ := h₂
    rw [hgroups g a b ha hb]

/-- **The two paths of a request.** -/
theorem samePath_iff (h₀ : (createTenant cfg r).Plays l₀ 201) (hstored : written t.id l₀ none = some t)
    (hpending : t.status = .pending) (h₁ : (assignPending cfg t).Plays l₁ (some ())) :
    ∃ host, AssignedTo cfg t host l₁ ∧ ∀ l₂ row, (createTenant cfg r).Plays l₂ 201 → written t.id l₂ none = some row →
      SamePlace t host row → (∀ g (a b : List String), Saw l₁ (.groupSkills g) a → Saw l₂ (.groupSkills g) b → a = b) →
        (SamePath t l₁ l₂ ↔ r.cloneFrom = none) := by
  obtain ⟨key, now₀, ht⟩ := (Prog.plays_of_wpt (createTenant_log r) h₀ rfl).of_pending hstored hpending
  obtain ⟨host, now, skills, hto, hskills, hrow₁, hcmds₁⟩ := Prog.plays_of_wpt (assignPending_log t) h₁ rfl
  refine ⟨host, hto, fun l₂ row h₂ hrow₂ hplace hgroups => ?_⟩
  have hcreated := Prog.plays_of_wpt (createTenant_log r) h₂ rfl
  cases hcreated with
  | pending tid key' now' hrow =>
    rw [hrow] at hrow₂
    split at hrow₂
    · obtain rfl := Option.some.inj hrow₂
      cases hplace.creating
    · cases hrow₂
  | placed src tid key' now' host' n skills' hsrc hrow hskills' hcmds₂ =>
    rw [hrow] at hrow₂
    split at hrow₂
    · rename_i he
      subst he
      obtain rfl := Option.some.inj hrow₂
      have hn : n = host.nextVmNum.getD 1 := Option.some.inj hplace.vmNum
      have hkey : key' = t.restoreBackupKey := hplace.restoreBackupKey
      have hstoredKey : t.restoreBackupKey = key := by
        rw [ht]
        rfl
      have htimeless := @timeless_eq_iff cfg r t.id key now₀ now now' host host' n (Option.some.inj hplace.hostId) hn
        (Option.some.inj hplace.rootfsVersion)
      have hskillsEq := hskills.unique hskills' (by rw [ht]; rfl) (by rw [ht]; rfl) hgroups
      have hrows : (written t.id l₁ (some t)).map TenantRow.timeless = (written t.id l₂ none).map TenantRow.timeless ↔
          r.cloneFrom = none := by
        have hsame : (assignUpdate cfg host now).apply t = (assignUpdate cfg host now).apply (pendingRow r t.id key now₀) :=
          congrArg _ ht
        rw [hrow₁, hrow, if_pos rfl, Option.map_some, Option.map_some, Option.some.injEq, ← htimeless, hsame,
          hkey, hstoredKey]
      refine ⟨fun h => hrows.1 h.1, fun h => ⟨hrows.2 h, ?_⟩⟩
      have hnone : src = none := by
        rw [h] at hsrc
        simpa using hsrc
      rw [hcmds₁, hcmds₂, hnone, hskillsEq, hn, hkey]
      have hhost : host'.instanceId = host.instanceId := Option.some.inj hplace.hostId
      rw [directCmds, hhost, ht]
      rfl
    · cases hrow₂

end Comparison

/-- **The pending path agrees with the direct path** exactly for the requests without `clone_from`: whatever the calls are
answered in between, the row is the same but for timestamps, and so are the commands, for the same tenant on the same host
under the same number. -/
theorem pending_path {r : CreateRequest} {t : TenantRow} {l₀ l₁ : CallLog} (h₀ : (createTenant cfg r).Plays l₀ 201)
    (hstored : written t.id l₀ none = some t) (hpending : t.status = .pending)
    (h₁ : (assignPending cfg t).Plays l₁ (some ())) :
    ∃ host, AssignedTo cfg t host l₁ ∧ ∀ l₂ row, (createTenant cfg r).Plays l₂ 201 → written t.id l₂ none = some row →
      SamePlace t host row → (∀ g (a b : List String), Saw l₁ (.groupSkills g) a → Saw l₂ (.groupSkills g) b → a = b) →
        (SamePath t l₁ l₂ ↔ r.cloneFrom = none) := samePath_iff h₀ hstored hpending h₁

/-! ## Two requests -/

/-- A request for a tenant of two vCPUs, perhaps as a clone. -/
def twoVcpu (cloneFrom : Option TenantId) : CreateRequest :=
  { name := "c", vcpu := 2, memMb := 1024, dataDiskMb := 2048, cloneFrom := cloneFrom }

/-- The clone source on a host with room for one tenant of two vCPUs. -/
def cloneWorld : World where
  tenants := .single (runningTenant "s-0000" "i-1" 1)
  hosts := .single (busyHost "i-1" 2)

/-- Requests for the same clone. -/
def cloneJobs : Jobs Ctl World Unit Resp where
  body _ := createTenant {} (twoVcpu (some "s-0000"))
  start _ w w' := w' = w

/-- A clone has found room on the host of its source when another one takes it. -/
def cloneMoves : List (Move Unit ℕ Hint) :=
  List.flatten [[.start 0 (), .start 1 ()], List.replicate 4 (.call 0 { suffix := "0001" }),
    List.replicate 5 (.call 1 {}), List.replicate 3 (.call 0 {})]

/-- The pending row of the request. -/
def waitingRow (src : Option TenantId) : TenantRow := pendingRow (twoVcpu src) "c-0001" "" 0

/-- A log with one assignment, to the number 2 of the host. -/
def assignsTwo (l : CallLog) : Bool :=
  l.all fun x =>
    match x.1 with
    | .updTenant _ (.assign h n _ _ rv _) => h = "i-1" && n = 2 && rv = ""
    | .groupSkills _ => false
    | _ => true

/-- The pending row is put on an empty host. -/
def resumeRun (src : Option TenantId) : Option (CallLog × Option Unit × World) :=
  ctlOracle.alone (fun _ _ _ => true) (assignPending {} (waitingRow src)) (List.replicate 11 {})
    { tenants := .single (waitingRow src), hosts := .single (emptyHost "i-1" 2) }

/-- The same request finds the host at once. -/
def directRun (src : Option TenantId) (n : Nat) : Option (CallLog × Resp × World) :=
  ctlOracle.alone (fun _ _ _ => true) (createTenant {} (twoVcpu src)) (List.replicate n { suffix := "0001" })
    { tenants := .single (runningTenant "s-0000" "i-1" 1), hosts := .single (emptyHost "i-1" 2) }

/-- The row of the direct path. -/
def placedTwo (l : CallLog) : Bool :=
  (written "c-0001" l none).any fun row => row.status = .creating && row.id = "c-0001" && row.restoreBackupKey = "" &&
    row.hostId = some "i-1" && row.vmNum = some 2 && row.rootfsVersion = some ""

section TwoRuns

variable {src : Option TenantId} {n : Nat} {l : CallLog}

theorem saw_assign {host : HostRow} {now : Time} (h : assignsTwo l = true)
    (hs : Saw l (.updTenant (waitingRow src).id (assignUpdate {} host now)) true) :
    host.instanceId = "i-1" ∧ host.nextVmNum.getD 1 = 2 ∧ host.rootfsVersion.getD "" = "" := by
  have := List.all_eq_true.1 h _ hs
  simpa [assignUpdate, and_assoc] using this

theorem no_groups (h : assignsTwo l = true) {g : String} {a : List String} (hs : Saw l (.groupSkills g) a) : False := by
  have := List.all_eq_true.1 h _ hs
  simp at this

/-- Both runs, for the same tenant in the same place. -/
theorem two_runs (h₁ : (resumeRun src).any (fun x => x.2.1.isSome && assignsTwo x.1) = true)
    (h₂ : (directRun src n).any (fun x => x.2.1 = 201 && placedTwo x.1) = true) :
    ∃ l₁ l₂ row, (assignPending {} (waitingRow src)).Plays l₁ (some ()) ∧ (createTenant {} (twoVcpu src)).Plays l₂ 201 ∧
      written "c-0001" l₂ none = some row ∧ (∀ host, AssignedTo {} (waitingRow src) host l₁ →
        SamePlace (waitingRow src) host row) ∧ ∀ g (a : List String), ¬ Saw l₁ (.groupSkills g) a := by
  obtain ⟨⟨l₁, r₁, w₁⟩, hx₁, hP₁⟩ := (Option.any_eq_true _ _).1 h₁
  obtain ⟨⟨l₂, r₂, w₂⟩, hx₂, hP₂⟩ := (Option.any_eq_true _ _).1 h₂
  have ht₁ := (Oracle.alone_sound (fun _ _ _ h => h) hx₁).plays
  have ht₂ := (Oracle.alone_sound (fun _ _ _ h => h) hx₂).plays
  rw [Bool.and_eq_true] at hP₁ hP₂
  obtain ⟨⟨⟩, hr₁⟩ := Option.isSome_iff_exists.1 hP₁.1
  have hr₂ : r₂ = 201 := of_decide_eq_true hP₂.1
  obtain ⟨row, hrow, hplaced⟩ := (Option.any_eq_true _ _).1 hP₂.2
  simp only [Bool.and_eq_true, decide_eq_true_eq] at hplaced
  obtain ⟨⟨⟨⟨⟨hcreating, hid⟩, hkey⟩, hhost⟩, hnum⟩, hrv⟩ := hplaced
  refine ⟨l₁, l₂, row, hr₁ ▸ ht₁, hr₂ ▸ ht₂, hrow, fun host hto => ?_, fun g a hs => no_groups hP₁.2 hs⟩
  obtain ⟨-, now, hsaw⟩ := hto
  obtain ⟨hi, hn, hr⟩ := saw_assign hP₁.2 hsaw
  exact ⟨hcreating, hid, hkey, by rw [hi, hhost], by rw [hn, hnum], by rw [hr, hrv]⟩

/-- The run stored the request as pending. -/
def waits (l : CallLog) : Bool :=
  (written "c-0001" l none).any fun t =>
    t.status = .pending && t.id = "c-0001" && t.restoreBackupKey = "" && t.createdAt = some 0

theorem waits_row (h₀ : (createTenant {} (twoVcpu src)).Plays l 201) (hw : waits l = true) :
    written "c-0001" l none = some (waitingRow src) := by
  obtain ⟨t, ht, hP⟩ := (Option.any_eq_true _ _).1 hw
  simp only [Bool.and_eq_true, decide_eq_true_eq] at hP
  obtain ⟨⟨⟨hpending, hid⟩, hkey⟩, hcreated⟩ := hP
  obtain ⟨key, now, hrow⟩ := (Prog.plays_of_wpt (createTenant_log _) h₀ rfl).of_pending (hid ▸ ht) hpending
  have hkey' : t.restoreBackupKey = key := congrArg TenantRow.restoreBackupKey hrow
  have hnow : t.createdAt = some now := congrArg TenantRow.createdAt hrow
  obtain rfl : key = "" := hkey'.symm.trans hkey
  obtain rfl : now = 0 := Option.some.inj (hnow.symm.trans hcreated)
  rw [ht, hrow, hid]
  rfl

/-- The first process answered 201 and stored its request as pending. -/
def savedPending (x : List (Ev Ctl Unit ℕ) × Conf Ctl World Unit ℕ Resp) : Bool :=
  match x.2.proc 0 with
  | some (_, .ret code) => code = 201 && waits (callsOf 0 x.1)
  | _ => false

/-- The clone that is second is stored as pending. -/
theorem clone_waits : ∃ l₀, (createTenant {} (twoVcpu (some "s-0000"))).Plays l₀ 201 ∧
    written "c-0001" l₀ none = some (waitingRow (some "s-0000")) := by
  have hplay : ((ctlOracle.play cloneJobs (fun _ w => some w) (fun _ _ _ => true) [] (Conf.idle cloneWorld)
      cloneMoves).any savedPending) = true := by
    decide +kernel
  obtain ⟨tr, c, hr, hP⟩ :=
    Oracle.exists_reach_of_play (fun _ _ _ h => (Option.some.inj h).symm) (fun _ _ _ h => h) hplay
  unfold savedPending at hP
  split at hP
  · rename_i code hp
    rw [Bool.and_eq_true, decide_eq_true_eq] at hP
    obtain ⟨rfl, hw⟩ := hP
    have h₀ := hr.plays hp
    exact ⟨_, h₀, waits_row h₀ hw⟩
  · cases hP

end TwoRuns

/-- **A clone that lost the race for its host comes up empty**: the pending row has no `clone_from`. -/
theorem pending_path_clone : ∃ (t row : TenantRow) (host : HostRow) (l₀ l₁ l₂ : CallLog),
    (createTenant {} (twoVcpu (some "s-0000"))).Plays l₀ 201 ∧ written t.id l₀ none = some t ∧ t.status = .pending ∧
    (assignPending {} t).Plays l₁ (some ()) ∧ AssignedTo {} t host l₁ ∧
    (createTenant {} (twoVcpu (some "s-0000"))).Plays l₂ 201 ∧ written t.id l₂ none = some row ∧
    SamePlace t host row ∧ ¬ SamePath t l₁ l₂ := by
  obtain ⟨l₀, h₀, hstored⟩ := clone_waits
  obtain ⟨l₁, l₂, row, h₁, h₂, hrow, hplace, hgroups⟩ := @two_runs (some "s-0000") 14 (by decide +kernel) (by decide +kernel)
  obtain ⟨host, hto, hiff⟩ := samePath_iff h₀ hstored rfl h₁
  refine ⟨_, row, host, l₀, l₁, l₂, h₀, hstored, rfl, h₁, hto, h₂, hrow, hplace host hto, fun hsame => ?_⟩
  have hnone := (hiff l₂ row h₂ hrow (hplace host hto) fun g a b ha _ => absurd ha (hgroups g a)).1 hsame
  cases hnone

/-- A request that is no clone. -/
theorem pending_path_plain : ∃ l₀ l₁ l₂, (createTenant {} (twoVcpu none)).Plays l₀ 201 ∧
    (assignPending {} (waitingRow none)).Plays l₁ (some ()) ∧ (createTenant {} (twoVcpu none)).Plays l₂ 201 ∧
    SamePath (waitingRow none) l₁ l₂ := by
  obtain ⟨l₁, l₂, row, h₁, h₂, hrow, hplace, hgroups⟩ := @two_runs none 13 (by decide +kernel) (by decide +kernel)
  have hsave : ((ctlOracle.alone (fun _ _ _ => true) (createTenant {} (twoVcpu none))
      (List.replicate 5 { suffix := "0001" }) { tenants := .empty, hosts := .empty }).any fun x =>
        x.2.1 = 201 && waits x.1) = true := by
    decide +kernel
  obtain ⟨⟨l₀, code, w₀⟩, hx₀, hP₀⟩ := (Option.any_eq_true _ _).1 hsave
  rw [Bool.and_eq_true, decide_eq_true_eq] at hP₀
  obtain ⟨rfl, hw⟩ := hP₀
  have h₀ := (Oracle.alone_sound (fun _ _ _ h => h) hx₀).plays
  have hstored := waits_row h₀ hw
  obtain ⟨host, hto, hiff⟩ := pending_path {} h₀ hstored rfl h₁
  exact ⟨l₀, l₁, l₂, h₀, h₁, h₂, (hiff l₂ row h₂ hrow (hplace host hto) fun g a b ha _ => absurd ha (hgroups g a)).2 rfl⟩

end OpenClaw
