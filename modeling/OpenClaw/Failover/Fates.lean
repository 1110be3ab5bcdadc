import OpenClaw.Failover.Execution

/-!
# What becomes of a tenant

Three programs take up a tenant: the detector's `_failover_tenant_to_host` and `_enqueue_failover`, and the worker's
`_process_record`. `Fate` says what becomes of its row, in terms of the calls that were made about it.

- `Takes`: the effect of one of the three on the world it began in (`failoverTenantToHost_takes`,
  `enqueueFailover_takes`, `processRecord_takes`).
-/

namespace OpenClaw

open Keyed Atomic

variable (cfg : Config)

/-! ## Calls about a tenant -/

/-- The call asks SSM to launch the tenant's VM. -/
def Call.launches (tid : TenantId) : Call → Prop
  | .ssmSend _ (.launchVm id _ _ _ _ _ _) => id = tid
  | _ => False

/-- The call looks for a backup of the tenant. -/
def Call.looksUp (tid : TenantId) : Call → Prop
  | .latestBackup id => id = tid
  | _ => False

/-- The call writes, launches and looks up no tenant but `tid`. -/
def Call.about (tid : TenantId) (c : Call) : Prop :=
  c.onRow tid ∧ ∀ id, id ≠ tid → ¬ c.launches id ∧ ¬ c.looksUp id

/-- Nobody launched the tenant or looked for a backup of it. -/
def Unconcerned (tid : TenantId) (l : CallLog) : Prop := ∀ x ∈ l, ¬ x.1.launches tid ∧ ¬ x.1.looksUp tid

/-- A lookup that found no backup key. -/
def NoBackup (tid : TenantId) (l : CallLog) : Prop :=
  ∃ key, Saw l (.latestBackup tid) key ∧ ∀ k, key = some k → k = ""

/-- What becomes of the row `t`, with the calls `l`: the row `t'`, after the execution `x` if there was a flip. -/
structure Fate (t : TenantRow) (l : CallLog) (x : Option Execution) (t' : TenantRow) : Prop where
  kept : x = none → t'.hostId = t.hostId ∧ t'.vmNum = t.vmNum
  moved : ∀ y, x = some y → Flipped cfg t y l ∧ t'.hostId = some y.target ∧ t'.vmNum = some y.vmNum ∧
    t'.status = .running ∧ t'.restoredFrom = some y.backup
  blocked : NoBackup t.id l → t'.status = .failoverBlocked
  failed : x = none → (∃ c ∈ l, c.1.launches t.id) → t'.status = .failoverFailed ∨ t'.status = .failoverFailedPartial

section Calls

variable {cfg} {tid : TenantId} {t t' : TenantRow} {l l' : CallLog} {x : Option Execution}

theorem Unconcerned.nil : Unconcerned tid [] := fun _ h => absurd h List.not_mem_nil

theorem Unconcerned.append (h : Unconcerned tid l) (h' : Unconcerned tid l') : Unconcerned tid (l ++ l') :=
  fun x hx => (List.mem_append.1 hx).elim (h x) (h' x)

/-- Nobody launched the tenant, and it kept its host. -/
theorem Fate.still (hh : t'.hostId = t.hostId) (hn : t'.vmNum = t.vmNum) (hl : ∀ c ∈ l, ¬ c.1.launches t.id)
    (hb : NoBackup t.id l → t'.status = .failoverBlocked) : Fate cfg t l none t' where
  kept _ := ⟨hh, hn⟩
  moved _ he := by cases he
  blocked := hb
  failed := by
    rintro - ⟨c, hc, hc'⟩
    exact absurd hc' (hl c hc)

theorem Unconcerned.fate (h : Unconcerned t.id l) : Fate cfg t l none t := by
  refine Fate.still rfl rfl (fun c hc => (h c hc).1) ?_
  rintro ⟨key, hs, -⟩
  exact absurd rfl (h _ hs).2

/-- Calls about others change nothing. -/
theorem Fate.append (h : Fate cfg t l x t') {pre post : CallLog} (hpre : Unconcerned t.id pre)
    (hpost : Unconcerned t.id post) : Fate cfg t (pre ++ l ++ post) x t' where
  kept := h.kept
  moved y hy := ⟨(h.moved y hy).1.append, (h.moved y hy).2⟩
  blocked := by
    rintro ⟨key, hs, hk⟩
    simp only [Saw, List.mem_append] at hs
    rcases hs with (hs | hs) | hs
    · exact absurd rfl (hpre _ hs).2
    · exact h.blocked ⟨key, hs, hk⟩
    · exact absurd rfl (hpost _ hs).2
  failed hx := by
    rintro ⟨c, hc, hl⟩
    simp only [List.mem_append] at hc
    rcases hc with (hc | hc) | hc
    · exact absurd hl (hpre c hc).1
    · exact h.failed hx ⟨c, hc, hl⟩
    · exact absurd hl (hpost c hc).1

/-- What an execution leaves is the fate of the tenant, if its backup was found before. -/
theorem Executed.fate {c c' : TenantRow} {y : Execution} {ok : Bool} {pre : CallLog} (h : Executed cfg t c y l ok c')
    (hh : c.hostId = t.hostId) (hn : c.vmNum = t.vmNum) (hno : ¬ NoBackup t.id (pre ++ l)) :
    Fate cfg t (pre ++ l) (if ok then some y else none) c' := by
  cases h with
  | failed e =>
    refine ⟨fun _ => ⟨hh, hn⟩, ?_, fun hb => absurd hb hno, fun _ _ => ?_⟩
    · rintro z he
      cases he
    · cases e <;> simp [FailoverError.isPartial, TenantUpdate.apply]
  | moved hf =>
    have hf' : Flipped cfg t y (pre ++ l) := by simpa using @Flipped.append _ _ _ _ pre [] hf
    refine ⟨?_, ?_, fun hb => absurd hb hno, ?_⟩
    · rintro ⟨⟩
    · rintro z he
      obtain rfl := Option.some.inj he
      exact ⟨hf', rfl, rfl, rfl, rfl⟩
    · rintro ⟨⟩

end Calls

/-! ## Calls of the programs -/

/-- The call may be part of an execution for the tenant. -/
def Call.executes (tid : TenantId) (c : Call) : Prop :=
  c.about tid ∧ (∀ id, ¬ c.looksUp id) ∧ c.writesQueue = false

section Programs

variable {cfg} {tid : TenantId} {t : TenantRow} {target : HostRow}

/-- A call that writes no other row and no message, and neither launches nor looks up. -/
theorem Call.executes_of_plain {c : Call} (h : c.onRow tid) (hl : ∀ id, ¬ c.launches id) (hk : ∀ id, ¬ c.looksUp id)
    (hq : c.writesQueue = false) : c.executes tid := ⟨⟨h, fun id _ => ⟨hl id, hk id⟩⟩, hk, hq⟩

theorem executes_updTenant (u : TenantUpdate) : Call.executes tid (.updTenant tid u) :=
  Call.executes_of_plain rfl (fun _ h => h) (fun _ h => h) rfl

/-- The calls an execution for `t` on `target` makes have the property `P`. -/
structure ExecutionCalls (P : Call → Prop) (t : TenantRow) (target : HostId) (backup : String) (n : Int) : Prop where
  plain : ∀ c : Call, c.quiet → (∀ id, ¬ c.launches id) → (∀ id, ¬ c.looksUp id) → P c
  launch : ∀ v m, P (.ssmSend (some target) (.launchVm t.id n v m t.configTemplate backup []))
  ended : ∀ e : FailoverError, P (.updTenant t.id
    (.failoverEnded (if e.isPartial then .failoverFailedPartial else .failoverFailed) e.text))
  flip : P (.updTenant t.id (.failedOver target n backup))
  bump : ∀ v m, P (.updHost target (.bump v m))
  raise : P (.raiseNext target (n + 1))

section Execution

variable {P : Call → Prop} {backup : String} {n : Int}

theorem failoverFailed_all (h : ExecutionCalls P t target.instanceId backup n) (e : FailoverError) :
    (failoverFailed t.id e).All P :=
  ⟨h.ended e, fun _ => trivial⟩

theorem failoverFlip_all (h : ExecutionCalls P t target.instanceId backup n) (v m : Int) :
    (failoverFlip t target backup n v m).All P := by
  simp only [failoverFlip, bumpTargetCounters, req_bind, Prog.pure_eq]
  refine ⟨h.flip, fun ok => ?_⟩
  cases ok with
  | false => exact failoverFailed_all h _
  | true => exact ⟨h.bump v m, fun _ => ⟨h.raise, fun _ => trivial⟩⟩

theorem failoverVerify_all (h : ExecutionCalls P t target.instanceId backup n) (v m : Int) :
    (failoverVerify cfg t target backup n v m).All P := by
  have hprobe : P (.verifyDashboard t.id) := h.plain _ ⟨rfl, rfl, rfl⟩ (fun _ h => h) fun _ h => h
  have hconf : ∀ src, P (.ssmSend (some src) (.removeTenantConf t.id)) := fun src =>
    h.plain _ ⟨rfl, rfl, rfl⟩ (fun _ h => h) fun _ h => h
  have hflip := failoverFlip_all h v m
  simp only [failoverVerify, req_bind]
  cases t.hostId.or t.previousHostId with
  | none =>
    split
    · refine ⟨hprobe, fun ok => ?_⟩
      cases ok with
      | true => exact hflip
      | false => exact failoverFailed_all h _
    · exact hflip
  | some src =>
    split
    · refine ⟨hprobe, fun ok => ?_⟩
      cases ok with
      | true => exact ⟨hconf src, fun _ => hflip⟩
      | false => exact failoverFailed_all h _
    · exact ⟨hconf src, fun _ => hflip⟩

theorem failoverRepoint_all (h : ExecutionCalls P t target.instanceId backup n) (v m : Int) :
    (failoverRepoint cfg t target backup n v m).All P := by
  unfold failoverRepoint
  split
  · split
    · exact failoverFailed_all h _
    · refine ((repointAlbRule_routes cfg _ _ _).mono fun c hc => ?_).bind fun ok => ?_
      · refine h.plain c hc.quiet (fun id => ?_) fun id => ?_
        · cases c <;> first | exact fun h => h | exact False.elim hc
        · cases c <;> first | exact fun h => h | exact False.elim hc
      · cases ok with
        | true => exact failoverVerify_all h _ _
        | false => exact failoverFailed_all h _
  · exact failoverVerify_all h _ _

/-- The calls of an execution, kind by kind. -/
theorem executeFailover_all (h : ExecutionCalls P t target.instanceId backup n) :
    (executeFailover cfg t target backup n).All P := by
  simp only [executeFailover, req_bind]
  refine ⟨h.launch _ _, fun cmd => ?_⟩
  cases cmd with
  | none => exact failoverFailed_all h _
  | some cmd =>
    have hgate : (Prog.call (Call.verifyVm target.instanceId t.id) fun up =>
        if up then failoverRepoint cfg t target backup n (orDefault t.vcpu 2) (orDefault t.memMb 4096)
        else failoverFailed t.id .vmNotVerified : CtlProg Bool).All P := by
      refine ⟨h.plain _ ⟨rfl, rfl, rfl⟩ (fun _ h => h) fun _ h => h, fun up => ?_⟩
      cases up with
      | true => exact failoverRepoint_all h _ _
      | false => exact failoverFailed_all h _
    refine ⟨h.plain _ ⟨rfl, rfl, rfl⟩ (fun _ h => h) fun _ h => h, fun _ => ?_⟩
    split
    · exact ⟨h.plain _ ⟨rfl, rfl, rfl⟩ (fun _ h => h) fun _ h => h, fun _ => hgate⟩
    · exact hgate

end Execution

theorem executeFailover_executes (backup : String) (n : Int) :
    (executeFailover cfg t target backup n).All (Call.executes t.id) := by
  refine executeFailover_all ⟨fun c hq hl hk => ?_, fun v m => ?_, fun e => executes_updTenant _, executes_updTenant _,
    fun v m => ?_, ?_⟩
  · exact Call.executes_of_plain (hq.onRow t.id) hl hk hq.2.2
  · exact ⟨⟨trivial, fun id hne => ⟨fun h => hne h.symm, fun h => h⟩⟩, fun _ h => h, rfl⟩
  · exact Call.executes_of_plain trivial (fun _ h => h) (fun _ h => h) rfl
  · exact Call.executes_of_plain trivial (fun _ h => h) (fun _ h => h) rfl

/-- The updates of the failover pipeline. -/
def TenantUpdate.failsOver : TenantUpdate → Prop
  | .failoverClaim _ _ _ _ | .workerClaim _ | .failoverEnded _ _ | .failedOver _ _ _ => True
  | _ => False

theorem Call.quiet.updatesBy {c : Call} (h : c.quiet) (P : TenantUpdate → Prop) : c.updatesBy P := by
  cases c <;> first | trivial | exact Bool.noConfusion h.1

theorem executeFailover_updates (backup : String) (n : Int) :
    (executeFailover cfg t target backup n).All (Call.updatesBy TenantUpdate.failsOver) :=
  executeFailover_all ⟨fun _ hq _ _ => hq.updatesBy _, fun _ _ => trivial, fun _ => trivial, trivial,
    fun _ _ => trivial, trivial⟩

theorem failoverTenantToHost_updates (az : Az) (now : Time) :
    (failoverTenantToHost cfg t target az now).All (Call.updatesBy TenantUpdate.failsOver) := by
  simp only [failoverTenantToHost, blockFailover, req_bind, Prog.pure_eq, Prog.call_bind, Prog.ret_bind]
  refine ((latestBackupKey_quiet cfg t.id).mono fun c h => h.updatesBy _).bind fun backup => ?_
  cases backup with
  | none => exact ⟨trivial, fun _ => trivial⟩
  | some backup =>
    refine ⟨trivial, fun r => ?_⟩
    cases r with
    | failed => trivial
    | refused => trivial
    | done => exact (executeFailover_updates _ _).bind fun _ => trivial

theorem enqueueFailover_updates (az : Az) (now : Time) :
    (enqueueFailover cfg t target az now).All (Call.updatesBy TenantUpdate.failsOver) := by
  simp only [enqueueFailover, reserveTargetVmNum, blockFailover, req_bind, Prog.pure_eq, Prog.call_bind, Prog.ret_bind]
  refine ((latestBackupKey_quiet cfg t.id).mono fun c h => h.updatesBy _).bind fun backup => ?_
  cases backup with
  | none => exact ⟨trivial, fun _ => trivial⟩
  | some backup =>
    refine ⟨trivial, fun r => ?_⟩
    cases r with
    | failed => trivial
    | refused => trivial
    | done => exact ⟨trivial, fun _ => ⟨trivial, fun _ => trivial⟩⟩

theorem processRecord_updates (job : FailoverJob) (now : Time) :
    (processRecord cfg job now).All (Call.updatesBy TenantUpdate.failsOver) := by
  simp only [processRecord, claim, req_bind, Prog.pure_eq, Prog.call_bind, Prog.ret_bind]
  refine ⟨trivial, fun item => ?_⟩
  cases item with
  | none => trivial
  | some t =>
    refine ⟨trivial, fun r => ?_⟩
    cases r with
    | failed => trivial
    | refused => trivial
    | done =>
      refine ⟨trivial, fun host => ?_⟩
      cases host with
      | none => exact ⟨trivial, fun _ => trivial⟩
      | some host => exact (executeFailover_updates _ _).bind fun _ => trivial

theorem latestBackupKey_about : (latestBackupKey cfg tid).All (Call.about tid) := by
  simp only [latestBackupKey, req_bind, Prog.pure_eq]
  split
  · trivial
  · exact ⟨⟨trivial, fun id hne => ⟨fun h => h, fun h => hne h.symm⟩⟩, fun _ => trivial⟩

theorem condTenant_about (c : TenantCond) (u : TenantUpdate) : Call.about tid (.condTenant tid c u) :=
  ⟨rfl, fun _ _ => ⟨fun h => h, fun h => h⟩⟩

theorem blockFailover_about : (blockFailover tid).All (Call.about tid) := ⟨(executes_updTenant _).1, fun _ => trivial⟩

theorem failoverTenantToHost_about (az : Az) (now : Time) :
    (failoverTenantToHost cfg t target az now).All (Call.about t.id) := by
  simp only [failoverTenantToHost, req_bind, Prog.pure_eq]
  refine latestBackupKey_about.bind fun backup => ?_
  cases backup with
  | none => exact blockFailover_about.bind fun _ => trivial
  | some backup =>
    refine ⟨condTenant_about _ _, fun r => ?_⟩
    cases r with
    | failed => trivial
    | refused => trivial
    | done => exact ((executeFailover_executes _ _).mono fun _ h => h.1).bind fun _ => trivial

theorem enqueueFailover_about (az : Az) (now : Time) :
    (enqueueFailover cfg t target az now).All (Call.about t.id) := by
  simp only [enqueueFailover, reserveTargetVmNum, req_bind, Prog.pure_eq, Prog.call_bind, Prog.ret_bind]
  refine latestBackupKey_about.bind fun backup => ?_
  cases backup with
  | none => exact blockFailover_about.bind fun _ => trivial
  | some backup =>
    refine ⟨condTenant_about _ _, fun r => ?_⟩
    cases r with
    | failed => trivial
    | refused => trivial
    | done =>
      have h₁ : Call.about t.id (.incNext target.instanceId) := ⟨trivial, fun _ _ => ⟨fun h => h, fun h => h⟩⟩
      exact ⟨h₁, fun old => ⟨⟨trivial, fun _ _ => ⟨fun h => h, fun h => h⟩⟩, fun _ => trivial⟩⟩

end Programs

/-! ## Flips -/

/-- The flips among the calls: the tenants and their targets. -/
def failoversOf (l : CallLog) : List (TenantId × HostId) :=
  l.filterMap fun
    | ⟨.updTenant id (.failedOver h _ _), true⟩ => some (id, h)
    | _ => none

section Flips

variable {cfg} {E : Sem Ctl World} {t : TenantRow} {target : HostRow} {w : World}

@[simp] theorem failoversOf_nil : failoversOf [] = [] := rfl

@[simp] theorem failoversOf_append (l l' : CallLog) : failoversOf (l ++ l') = failoversOf l ++ failoversOf l' := List.filterMap_append

theorem failoversOf_cons (x : Answered Ctl) (l : CallLog) : failoversOf (x :: l) = failoversOf [x] ++ failoversOf l :=
  failoversOf_append [x] l

theorem failoversOf_quiet {l : CallLog} (h : ∀ x ∈ l, x.1.quiet) : failoversOf l = [] := by
  refine List.filterMap_eq_nil_iff.2 fun x hx => ?_
  have hq := h x hx
  obtain ⟨c, r⟩ := x
  cases c <;> first | rfl | exact Bool.noConfusion hq.1

theorem failoverFailed_flips (tid : TenantId) (e : FailoverError) :
    (failoverFailed tid e).wpt E (fun l ok _ => failoversOf l = [] ∧ ok = false) w := fun _ _ _ => ⟨rfl, rfl⟩

theorem failoverFlip_flips (backup : String) (n v m : Int) :
    (failoverFlip t target backup n v m).wpt E
      (fun l ok _ => failoversOf l = if ok then [(t.id, target.instanceId)] else []) w := by
  simp only [failoverFlip, bumpTargetCounters, req_bind, Prog.pure_eq]
  intro ok w' _
  cases ok with
  | false => exact fun _ _ _ => rfl
  | true => exact fun _ _ _ _ _ _ => rfl

theorem failoverVerify_flips (backup : String) (n v m : Int) :
    (failoverVerify cfg t target backup n v m).wpt E
      (fun l ok _ => failoversOf l = if ok then [(t.id, target.instanceId)] else []) w := by
  have hprobe : ∀ (flip : CtlProg Bool), (∀ w, flip.wpt E
      (fun l ok _ => failoversOf l = if ok then [(t.id, target.instanceId)] else []) w) →
      (if cfg.publicBaseUrl then (.call (.verifyDashboard t.id) fun ok =>
          if ok then flip else failoverFailed t.id .dashboardNotReachable)
        else flip : CtlProg Bool).wpt E
        (fun l ok _ => failoversOf l = if ok then [(t.id, target.instanceId)] else []) w := by
    intro flip hflip
    split
    · intro up w' _
      cases up with
      | false => exact fun _ _ _ => rfl
      | true => exact hflip w'
    · exact hflip w
  simp only [failoverVerify, req_bind]
  cases t.hostId.or t.previousHostId with
  | none => exact hprobe _ fun w => failoverFlip_flips backup n v m
  | some src => exact hprobe _ fun w _ w' _ => failoverFlip_flips backup n v m

theorem failoverRepoint_flips (backup : String) (n v m : Int) :
    (failoverRepoint cfg t target backup n v m).wpt E
      (fun l ok _ => failoversOf l = if ok then [(t.id, target.instanceId)] else []) w := by
  unfold failoverRepoint
  split
  · split
    · exact fun _ _ _ => rfl
    · refine (Prog.wpt_bind ..).2 (Prog.wpt_mono ?_ (Prog.wpt_all (repointAlbRule_quiet cfg _ _ _) w))
      intro l ok w' hl
      have hl := failoversOf_quiet hl
      cases ok with
      | false =>
        refine Prog.wpt_mono ?_ (failoverFailed_flips t.id .albRepointFailed)
        rintro l' ok w'' ⟨h, rfl⟩
        rw [failoversOf_append, hl, h]
        rfl
      | true =>
        refine Prog.wpt_mono ?_ (failoverVerify_flips backup n v m)
        intro l' ok w'' h
        rw [failoversOf_append, hl, h]
        rfl
  · exact failoverVerify_flips backup n v m

/-- An execution that succeeds flips once, and one that fails never. -/
theorem executeFailover_flips (backup : String) (n : Int) :
    (executeFailover cfg t target backup n).wpt E
      (fun l ok _ => failoversOf l = if ok then [(t.id, target.instanceId)] else []) w := by
  simp only [executeFailover, req_bind]
  intro cmd w₁ _
  cases cmd with
  | none => exact fun _ _ _ => rfl
  | some cmd =>
    intro r w₂ _
    split
    · intro r' w₃ _ up w₄ _
      cases up with
      | false => exact fun _ _ _ => rfl
      | true => exact failoverRepoint_flips _ _ _ _
    · intro up w₃ _
      cases up with
      | false => exact fun _ _ _ => rfl
      | true => exact failoverRepoint_flips _ _ _ _

end Flips

/-! ## The three programs -/

/-- The effect of a program that took up the tenant `t` of the world `u`. -/
structure Takes (t : TenantRow) (u : World) (l : CallLog) (x : Option Execution) (w : World) : Prop where
  fate : ∃ t', w.tenants.get t.id = some t' ∧ Fate cfg t l x t'
  others : ∀ id, id ≠ t.id → w.tenants.get id = u.tenants.get id ∧ Unconcerned id l
  counters : ∀ h ρ, w.booked h ρ = u.booked h ρ + x.elim 0 fun y => y.books t h ρ
  flips : failoversOf l = x.elim [] fun y => [(t.id, y.target)]

section Entries

variable {cfg} {t : TenantRow} {target : HostRow} {u w : World}

/-- Nothing happened to anybody. -/
theorem Takes.idle {l : CallLog} (hs : SameTables w u) (hg : u.tenants.get t.id = some t)
    (hl : ∀ id, Unconcerned id l) (hf : failoversOf l = []) : Takes cfg t u l none w where
  fate := ⟨t, by rw [hs.1, hg], (hl t.id).fate⟩
  others id _ := ⟨by rw [hs.1], hl id⟩
  counters h ρ := by
    rw [World.booked, hs.2]
    exact (Int.add_zero _).symm
  flips := hf

/-- A program about `t` only touches `t`. -/
theorem wpt_takes {α : Type} {p : CtlProg α} {R : α → Option Execution → Prop} (hp : p.All (Call.about t.id))
    (h : p.wpt durable (fun l a w' => ∃ x t', R a x ∧ w'.tenants.get t.id = some t' ∧ Fate cfg t l x t' ∧
      (∀ h ρ, w'.booked h ρ = u.booked h ρ + x.elim 0 fun y => y.books t h ρ) ∧
      failoversOf l = x.elim [] fun y => [(t.id, y.target)]) u) :
    p.wpt durable (fun l a w' => ∃ x, R a x ∧ Takes cfg t u l x w') u := by
  have hrow : p.wpt durable (fun _ _ w' => ∀ id, id ≠ t.id → w'.tenants.get id = u.tenants.get id) u :=
    Prog.wpt_of_wp (Sem.wp_restrict (wp_onRow (hp.mono fun _ hc => hc.1)))
  refine Prog.wpt_mono ?_ (Prog.wpt_and h (Prog.wpt_and hrow (Prog.wpt_all hp u)))
  rintro l a w' ⟨⟨x, t', hR, hg, hf, hb, hfl⟩, ho, hl⟩
  exact ⟨x, hR, ⟨t', hg, hf⟩, fun id hne => ⟨ho id hne, fun c hc => (hl c hc).2 id hne⟩, hb, hfl⟩

theorem condTenant_step {α : Type} {id : TenantId} {cond : TenantCond} {x : TenantUpdate} {k : CondAns → CtlProg α}
    {c : TenantRow} {Q : CallLog → α → World → Prop} (hg : w.tenants.get id = some c)
    (hd : cond.holds c = true → (k .done).wpt durable (fun l => Q (⟨.condTenant id cond x, .done⟩ :: l))
      (w.putTenant (x.apply c)))
    (hr : cond.holds c = false → (k .refused).wpt durable (fun l => Q (⟨.condTenant id cond x, .refused⟩ :: l)) w) :
    (@Prog.call Ctl α (.condTenant id cond x) k).wpt durable Q w := by
  rintro r w' ⟨hw, c', hc', hs⟩
  obtain rfl : c = c' := Option.some.inj (hg.symm.trans hc')
  cases r with
  | failed => cases hw
  | done =>
    obtain ⟨hh, rfl⟩ := hs
    exact hd hh
  | refused =>
    obtain ⟨hh, rfl⟩ := hs
    exact hr hh

/-- What the backup lookup found, and what was called for it. -/
theorem latestBackupKey_step {α : Type} {tid : TenantId} {k : Option String → CtlProg α}
    {Q : CallLog → α → World → Prop}
    (hk : ∀ l key w', SameTables w' w → (∀ c ∈ l, ¬ c.1.launches tid) → failoversOf l = [] →
      (∀ b, key = some b → b ≠ "" ∧ ¬ NoBackup tid l) →
      (k key).wpt durable (fun l' => Q (l ++ l')) w') :
    (latestBackupKey cfg tid >>= k).wpt durable Q w := by
  simp only [latestBackupKey, req_bind, Prog.pure_eq]
  split
  · exact hk [] none w ⟨rfl, rfl⟩ (by simp) rfl (by simp)
  · refine quiet_step ⟨rfl, rfl, rfl⟩ fun key w' h => ?_
    refine hk [⟨.latestBackup tid, key⟩] _ w' h ?_ rfl ?_
    · rintro c hc hl
      obtain rfl := List.mem_singleton.1 hc
      exact hl
    · intro b hb
      obtain ⟨rfl, hne⟩ : key = some b ∧ b ≠ "" := by simpa using hb
      refine ⟨hne, ?_⟩
      rintro ⟨key', hs, hnone⟩
      have : key' = some b := by simpa [Saw] using hs
      exact hne (hnone b this)

theorem blockFailover_fate {l₀ : CallLog} (hs : SameTables w u) (hg : u.tenants.get t.id = some t)
    (hl : ∀ c ∈ l₀, ¬ c.1.launches t.id) (hf : failoversOf l₀ = []) :
    (blockFailover t.id).wpt durable (fun l out w' => out = .blocked ∧ ∃ t', w'.tenants.get t.id = some t' ∧
      Fate cfg t (l₀ ++ l) none t' ∧ (∀ h ρ, w'.booked h ρ = u.booked h ρ) ∧ failoversOf (l₀ ++ l) = []) w := by
  simp only [blockFailover, req_bind, Prog.pure_eq]
  refine updTenant_step (by rw [hs.1, hg])
    ⟨rfl, _, get_apply rfl w _, Fate.still rfl rfl ?_ fun _ => rfl, fun h ρ => ?_, ?_⟩
  · intro c hc
    rcases List.mem_append.1 hc with hc | hc
    · exact hl c hc
    · obtain rfl := List.mem_singleton.1 hc
      exact fun h => h
  · rw [World.booked, World.putTenant_hosts, hs.2]
    rfl
  · rw [failoversOf_append, hf]
    rfl

/-- No backup was missed, and a call that is no lookup does not change that. -/
theorem not_noBackup_snoc {l : CallLog} {tid : TenantId} (h : ¬ NoBackup tid l) (cond : TenantCond) (y : TenantUpdate)
    (r : CondAns) : ¬ NoBackup tid (l ++ [⟨.condTenant tid cond y, r⟩]) := by
  rintro ⟨key, hs, hk⟩
  refine absurd ⟨key, ?_, hk⟩ h
  simpa [Saw] using hs

/-- An execution after a claim. -/
theorem execute_fate {c : TenantRow} {backup : String} {n : Int} {l₀ : CallLog} (hg : w.tenants.get t.id = some c)
    (hkey : backup ≠ "") (hh : c.hostId = t.hostId) (hn : c.vmNum = t.vmNum) (hno : ¬ NoBackup t.id l₀) :
    (executeFailover cfg t target backup n).wpt durable (fun l ok w' => ∃ t', w'.tenants.get t.id = some t' ∧
      Fate cfg t (l₀ ++ l) (if ok then some ⟨target.instanceId, n, backup⟩ else none) t' ∧
      (∀ h ρ, w'.booked h ρ = w.booked h ρ +
        if ok then (Execution.mk target.instanceId n backup).books t h ρ else 0) ∧
      failoversOf l = if ok then [(t.id, target.instanceId)] else []) w := by
  refine Prog.wpt_mono ?_ (Prog.wpt_and (executeFailover_ends ⟨rfl, rfl⟩ hg hkey)
    (Prog.wpt_and (Prog.wpt_all (executeFailover_executes backup n) w) (executeFailover_flips backup n)))
  rintro l ok w' ⟨⟨c', hx, hg', hb⟩, hl, hf⟩
  refine ⟨c', hg', hx.fate hh hn ?_, hb, hf⟩
  rintro ⟨key, hs, hk⟩
  rcases List.mem_append.1 hs with hs | hs
  · exact hno ⟨key, hs, hk⟩
  · exact (hl _ hs).2.1 t.id rfl

/-- Either the tenant moved to this target, or nothing is booked. -/
def MovedTo (target : HostId) (out : Option FailoverOutcome) (x : Option Execution) : Prop :=
  (out = some .moved ↔ x.isSome = true) ∧ ∀ y, x = some y → y.target = target

/-- **The synchronous path takes up one tenant.** -/
theorem failoverTenantToHost_takes (az : Az) (now : Time) (hg : u.tenants.get t.id = some t) :
    (failoverTenantToHost cfg t target az now).wpt durable
      (fun l out w' => ∃ x, MovedTo target.instanceId out x ∧ Takes cfg t u l x w') u := by
  refine wpt_takes (failoverTenantToHost_about az now) ?_
  simp only [failoverTenantToHost, req_bind, Prog.pure_eq]
  refine latestBackupKey_step fun l key w₁ h₁ hl hfl hb => ?_
  cases key with
  | none =>
    refine (Prog.wpt_bind ..).2 (Prog.wpt_mono ?_ (@blockFailover_fate cfg _ _ _ _ h₁ hg hl hfl))
    rintro l' out w₂ ⟨rfl, t', hg', hf, hbk, hfl'⟩
    exact ⟨none, t', ⟨by simp, by simp⟩, hg', by simpa using hf, fun h ρ => by simp [hbk h ρ], by simpa using hfl'⟩
  | some backup =>
    obtain ⟨hkey, hno⟩ := hb backup rfl
    refine condTenant_step (by rw [h₁.1, hg]) (fun _ => ?_) fun _ => ?_
    · have hclaim := not_noBackup_snoc hno (.hostIs t.hostId) (.failoverClaim .failoverRecovering t.hostId az now) .done
      refine (Prog.wpt_bind ..).2 (Prog.wpt_mono ?_ (execute_fate (get_apply rfl w₁ _) hkey rfl rfl hclaim))
      rintro l' ok w₂ ⟨t', hg', hf, hbk, hfl'⟩
      refine ⟨_, t', ?_, hg', by simpa using hf, fun h ρ => ?_, ?_⟩
      · cases ok <;> simp [MovedTo]
      · rw [hbk, World.booked, World.putTenant_hosts, h₁.2]
        cases ok <;> rfl
      · rw [List.append_nil, failoversOf_append, hfl, failoversOf_cons, hfl']
        cases ok <;> rfl
    · refine ⟨none, t, ⟨by simp, by simp⟩, by rw [h₁.1, hg], Fate.still rfl rfl ?_ ?_, fun h ρ => ?_, ?_⟩
      · intro c hc
        rcases List.mem_append.1 hc with hc | hc
        · exact hl c hc
        · obtain rfl := List.mem_singleton.1 hc
          exact fun h => h
      · exact fun h => absurd h (not_noBackup_snoc hno _ _ _)
      · rw [World.booked, h₁.2]
        exact (Int.add_zero _).symm
      · rw [failoversOf_append, hfl]
        rfl

/-- **The queue path takes up one tenant**: it never moves it. -/
theorem enqueueFailover_takes (az : Az) (now : Time) (hg : u.tenants.get t.id = some t) :
    (enqueueFailover cfg t target az now).wpt durable
      (fun l _ w' => Takes cfg t u l none w') u := by
  have h : (enqueueFailover cfg t target az now).wpt durable
      (fun l _ w' => ∃ x, x = none ∧ Takes cfg t u l x w') u := by
    refine wpt_takes (enqueueFailover_about az now) ?_
    simp only [enqueueFailover, reserveTargetVmNum, req_bind, Prog.pure_eq, Prog.call_bind, Prog.ret_bind]
    refine latestBackupKey_step fun l key w₁ h₁ hl hfl hb => ?_
    cases key with
    | none =>
      refine (Prog.wpt_bind ..).2 (Prog.wpt_mono ?_ (@blockFailover_fate cfg _ _ _ _ h₁ hg hl hfl))
      rintro l' out w₂ ⟨rfl, t', hg', hf, hbk, hfl'⟩
      exact ⟨none, t', rfl, hg', by simpa using hf, fun h ρ => by simp [hbk h ρ], by simpa using hfl'⟩
    | some backup =>
      obtain ⟨-, hno⟩ := hb backup rfl
      -- The claim, the number and the message launch nothing and book nothing.
      have hstill : ∀ {l' : CallLog} {t' : TenantRow} {w' : World}, (∀ c ∈ l', ¬ c.1.launches t.id ∧ ¬ c.1.looksUp t.id) →
          t'.hostId = t.hostId → t'.vmNum = t.vmNum → w'.tenants.get t.id = some t' →
          (∀ h ρ, w'.booked h ρ = u.booked h ρ) → failoversOf l' = [] → ∃ x t', x = none ∧
            w'.tenants.get t.id = some t' ∧ Fate cfg t (l ++ l') x t' ∧
            (∀ h ρ, w'.booked h ρ = u.booked h ρ + x.elim 0 fun y => y.books t h ρ) ∧
            failoversOf (l ++ l') = x.elim [] fun y => [(t.id, y.target)] := by
        intro l' t' w' hl' hh hn hg' hbk hfl'
        refine ⟨none, t', rfl, hg', Fate.still hh hn ?_ ?_, fun h ρ => by simp [hbk h ρ], by simp [hfl, hfl']⟩
        · intro c hc
          rcases List.mem_append.1 hc with hc | hc
          · exact hl c hc
          · exact (hl' c hc).1
        · rintro ⟨k, hs, hk⟩
          rcases List.mem_append.1 hs with hs | hs
          · exact absurd ⟨k, hs, hk⟩ hno
          · exact absurd rfl (hl' _ hs).2
      have hb₁ : ∀ h ρ, w₁.booked h ρ = u.booked h ρ := fun h ρ => by rw [World.booked, h₁.2]; rfl
      refine condTenant_step (by rw [h₁.1, hg]) (fun _ => ?_) fun _ => ?_
      · refine incNext_step fun old w₂ ht₂ hb₂ => sqsSend_step fun sent w₃ h₃ => ?_
        refine @hstill _ ((TenantUpdate.failoverClaim .failoverQueued t.hostId az now).apply t) _ ?_ rfl rfl ?_
          (fun h ρ => ?_) rfl
        · simp [Call.launches, Call.looksUp]
        · rw [h₃.1, ht₂]
          exact get_apply rfl w₁ _
        · rw [World.booked, h₃.2]
          exact (hb₂ h ρ).trans (hb₁ h ρ)
      · refine hstill ?_ rfl rfl (by rw [h₁.1, hg]) hb₁ rfl
        simp [Call.launches, Call.looksUp]
  refine Prog.wpt_mono ?_ h
  rintro l out w' ⟨x, rfl, ht⟩
  exact ht

/-- Calls that concern nobody may come first. -/
theorem Takes.prepend {l pre : CallLog} {x : Option Execution} (h : Takes cfg t u l x w)
    (hpre : ∀ id, Unconcerned id pre) (hf : failoversOf pre = []) : Takes cfg t u (pre ++ l) x w where
  fate := by
    obtain ⟨t', hg, hf⟩ := h.fate
    exact ⟨t', hg, by simpa using hf.append (hpre t.id) .nil⟩
  others id hne := ⟨(h.others id hne).1, (hpre id).append (h.others id hne).2⟩
  counters := h.counters
  flips := by rw [failoversOf_append, hf, List.nil_append, h.flips]

/-- **The worker takes up the tenant of its message**, if there is one, and executes what the message says. -/
theorem processRecord_takes {job : FailoverJob} (now : Time) (hkey : job.backupKey ≠ "") :
    (processRecord cfg job now).wpt durable (fun l _ w' =>
      (u.tenants.get job.tenantId = none ∧ SameTables w' u ∧ (∀ id, Unconcerned id l) ∧ failoversOf l = []) ∨
        ∃ t x, u.tenants.get job.tenantId = some t ∧ Takes cfg t u l x w' ∧
          ∀ y, x = some y → y = ⟨job.targetHostId, job.targetVmNum, job.backupKey⟩) u := by
  simp only [processRecord, claim, req_bind, Prog.pure_eq, Prog.call_bind, Prog.ret_bind]
  rintro item w₁ ⟨-, rfl, rfl⟩
  have hread : ∀ id, Unconcerned id [⟨.getTenant job.tenantId, w₁.tenants.get job.tenantId⟩] := by
    simp [Unconcerned, Call.launches, Call.looksUp]
  cases hg : w₁.tenants.get job.tenantId with
  | none =>
    rw [hg] at hread
    exact .inl ⟨rfl, ⟨rfl, rfl⟩, hread, rfl⟩
  | some t =>
    rw [hg] at hread
    have hid := Table.key_of_get hg
    rw [← hid] at hg ⊢
    simp only
    refine Prog.wpt_mono ?_ (@wpt_takes cfg t w₁ _ _
      (fun _ x => ∀ y, x = some y → y = ⟨job.targetHostId, job.targetVmNum, job.backupKey⟩) ?_ ?_)
    · rintro l _ w' ⟨x, hx, htk⟩
      have h := htk.prepend hread rfl
      rw [← hid] at h
      exact .inr ⟨t, x, rfl, h, hx⟩
    · refine ⟨condTenant_about _ _, fun r => ?_⟩
      cases r with
      | failed => trivial
      | refused => trivial
      | done =>
        refine ⟨⟨trivial, fun _ _ => ⟨fun h => h, fun h => h⟩⟩, fun host => ?_⟩
        cases host with
        | none => exact ⟨(executes_updTenant _).1, fun _ => trivial⟩
        | some host => exact ((executeFailover_executes _ _).mono fun _ h => h.1).bind fun _ => trivial
    · refine condTenant_step hg (fun _ => ?_) fun _ => ?_
      · rintro host w₂ ⟨-, hhost, rfl⟩
        have hrow := @get_apply t t rfl w₁ (.workerClaim now)
        have hbk : ∀ h ρ, (w₁.putTenant ((TenantUpdate.workerClaim now).apply t)).booked h ρ = w₁.booked h ρ :=
          fun _ _ => rfl
        cases host with
        | none =>
          refine updTenant_step hrow ⟨none, _, by simp, get_apply rfl _ _, ?_, fun h ρ => ?_, rfl⟩
          · refine Fate.still rfl rfl ?_ ?_
            · simp [Call.launches]
            · rintro ⟨key, hs, -⟩
              simp [Saw] at hs
          · exact (hbk h ρ).trans (Int.add_zero _).symm
        | some host =>
          have htarget : host.instanceId = job.targetHostId := Table.key_of_get hhost.symm
          have hno : ¬ NoBackup t.id [⟨.condTenant t.id .inFailover (.workerClaim now), .done⟩,
              ⟨.getHost job.targetHostId, some host⟩] := by
            rintro ⟨key, hs, -⟩
            simp [Saw] at hs
          refine (Prog.wpt_bind ..).2 (Prog.wpt_mono ?_ (execute_fate hrow hkey rfl rfl hno))
          rintro l ok w₃ ⟨t', hg', hf, hb, hfl⟩
          refine ⟨_, t', ?_, hg', by simpa using hf, fun h ρ => ?_, ?_⟩
          · rw [htarget]
            cases ok <;> simp
          · rw [hb, hbk]
            cases ok <;> rfl
          · rw [List.append_nil, failoversOf_cons, failoversOf_cons ⟨.getHost job.targetHostId, some host⟩, hfl]
            cases ok <;> rfl
      · refine ⟨none, t, by simp, hg, Fate.still rfl rfl ?_ ?_, fun h ρ => (Int.add_zero _).symm, rfl⟩
        · simp [Call.launches]
        · rintro ⟨key, hs, -⟩
          simp [Saw] at hs

end Entries

end OpenClaw
