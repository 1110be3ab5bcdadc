import OpenClaw.Lifecycle.Schedules

/-!
# Host commands and the status

The lifecycle actions of the API, the batch operations and the two passes of the scaler each send a command to the host
of a tenant and write its status. None of them looks at what became of the command before the write.

- `LifecycleOp.Raised`: some request of the operation, other than its command, ended with an exception.
- `Shapes`: the shape of these operations, calls that write no row and one status write at most, with one rule for each
  construct of a program.
- `lifecycle_outcome`: for which outcomes of the command and of the other requests the row follows the command.
- `failed_pause_paused`: a failed command, and the row says `paused`.
-/

namespace OpenClaw

open Keyed Atomic

variable (cfg : Config)

/-! ## The operations -/

/-- What the API, a batch or a pass of the scaler does for one tenant. -/
inductive LifecycleOp
  | action (tid : TenantId) (a : SimpleAction)
  | batch (tid : TenantId) (a : BatchAction)
  /-- `t` is a row of the scan. -/
  | ttl (now : Time) (t : TenantRow)
  | schedule (now : Time) (t : TenantRow)

def LifecycleOp.tenant : LifecycleOp → TenantId
  | .action tid _ => tid
  | .batch tid _ => tid
  | .ttl _ t => t.id
  | .schedule _ t => t.id

def BatchAction.newStatus : BatchAction → TenantStatus
  | .stop => .stopped
  | .start => .running
  | .delete => .deleted

/-- The status of the operation. -/
def LifecycleOp.newStatus : LifecycleOp → TenantStatus
  | .action _ a => a.newStatus
  | .batch _ a => a.newStatus
  | .ttl _ t =>
    match t.onExpiry.getD .stop with
    | .stop => .stopped
    | .delete => .deleted
  | .schedule _ t => if t.status = .stopped then .running else .stopped

/-- The scaler answers nobody. -/
def LifecycleOp.responds : LifecycleOp → Bool
  | .action _ _ | .batch _ _ => true
  | .ttl _ _ | .schedule _ _ => false

/-- The operation, and whether its response is an error; a batch lists the tenants that failed. -/
def LifecycleOp.body : LifecycleOp → CtlProg (Option Bool)
  | .action tid a => tenantAction cfg tid (.simple a) >>= fun code => pure (some (decide (400 ≤ code)))
  | .batch tid a => batchAll cfg a [tid] >>= fun r => pure (some (decide (tid ∈ r.2)))
  | .ttl now t => expireOne now t >>= fun _ => pure none
  | .schedule now t => reconcileSchedule cfg now t >>= fun _ => pure none

/-- A batch runs its operations in turn. -/
theorem batchAll_cons (a : BatchAction) (tid : TenantId) (tids : List TenantId) : batchAll cfg a (tid :: tids) =
    batchAll cfg a [tid] >>= fun r => batchAll cfg a tids >>= fun s => pure (r.1 ++ s.1, r.2 ++ s.2) := by
  simp only [batchAll, Prog.bind_assoc, Prog.pure_eq, Prog.ret_bind]
  congr 1
  funext item
  have hcode (code : Resp) (s : List TenantId × List TenantId) :
      (if code < 400 then (tid :: s.1, s.2) else (s.1, tid :: s.2)) =
        ((if code < 400 then ([tid], []) else ([], [tid]) : List TenantId × List TenantId).1 ++ s.1,
          (if code < 400 then ([tid], []) else ([], [tid]) : List TenantId × List TenantId).2 ++ s.2) := by
    by_cases h : code < 400 <;> simp [h]
  cases item with
  | none => simp
  | some t => simp only [Prog.bind_assoc, Prog.ret_bind, hcode]

/-! ## The commands of a run -/

def Call.isCommand : Call → Bool
  | .ssmSend _ _ | .ssmRun _ _ => true
  | _ => false

section Outcomes

-- `fate c r`: the command of the call `c`, answered `r`, was run on the host and succeeded.
variable (fate : (c : Call) → c.Ans → Bool) (l : CallLog)

/-- A command of the run failed. -/
def CommandFailed : Prop := ∃ x ∈ l, x.1.isCommand = true ∧ fate x.1 x.2 = false

/-- The run sent a command, and every one succeeded. -/
def CommandsSucceeded : Prop :=
  (∃ x ∈ l, x.1.isCommand = true) ∧ ∀ x ∈ l, x.1.isCommand = true → fate x.1 x.2 = true

/-- The call ends with an exception, and the operation with it: a request to DynamoDB or to the load balancer that fails,
or a scheduled command that SSM rejects. `_ssm_run` and the TTL pass catch the exceptions of their commands. -/
def LifecycleOp.raises (op : LifecycleOp) : (c : Call) → c.Ans → Bool
  | .updTenant _ _, ok => !ok
  | .updHost _ _, h => h.isNone
  | .describeRules, rules => rules.isNone
  | .deleteRule _, ok => !ok
  | .ssmSend _ _, id =>
    match op with
    | .schedule _ _ => id.isNone
    | _ => false
  | _, _ => false

/-- A request of the run raised. -/
def LifecycleOp.Raised (op : LifecycleOp) : Prop := ∃ x ∈ l, op.raises x.1 x.2 = true

/-- The row has the status of the operation already. -/
def LifecycleOp.AtRest (op : LifecycleOp) (w : World) : Prop :=
  (w.tenants.get op.tenant).map TenantRow.status = some op.newStatus

/-- The row follows the command: a failed one changes nothing and the response, if any, is an error; one that succeeded
leaves the status of the operation. -/
structure LifecycleOp.FollowsCommand (op : LifecycleOp) (r : Option Bool) (w w' : World) : Prop where
  failed : CommandFailed fate l → (w'.tenants.get op.tenant).map (fun t => (t.status, t.rootfsVersion)) =
    (w.tenants.get op.tenant).map (fun t => (t.status, t.rootfsVersion)) ∧ r ≠ some false
  succeeded : CommandsSucceeded fate l → (w'.tenants.get op.tenant).map TenantRow.status = some op.newStatus

/-- With a command that fails, another request raises too, or the scaler is about to write the status that is there; with
commands that succeed, no request raises, or the status is there. -/
structure LifecycleOp.Unharmed (op : LifecycleOp) (w : World) : Prop where
  failed : CommandFailed fate l → op.Raised l ∨ op.responds = false ∧ op.AtRest w
  succeeded : CommandsSucceeded fate l → ¬ op.Raised l ∨ op.AtRest w

end Outcomes

/-! ## The shape of an operation -/

/-- What a run that began in `w` did. -/
inductive RunShape (op : LifecycleOp) (w : World) (l : CallLog) (r : Option Bool) (w' : World) : Prop
  | silent : (∀ x ∈ l, x.1.isCommand = false) → RunShape op w l r w'
  | wrote (u : TenantUpdate) (t : TenantRow) : ¬ op.Raised l →
      w.tenants.get op.tenant = some t → w'.tenants.get op.tenant = some (u.apply t) →
      (∀ t, (u.apply t).status = op.newStatus) →
      (if op.responds then r = some false else r = none ∧ u = .status op.newStatus) → RunShape op w l r w'
  | raised : op.Raised l → w'.tenants.get op.tenant = w.tenants.get op.tenant → r ≠ some false → RunShape op w l r w'

theorem RunShape.follows_iff {fate : (c : Call) → c.Ans → Bool} {op : LifecycleOp} {w w' : World} {l : CallLog}
    {r : Option Bool} (h : RunShape op w l r w') : op.FollowsCommand fate l r w w' ↔ op.Unharmed fate l w := by
  cases h with
  | silent hl =>
    have hfail : ¬ CommandFailed fate l := by
      intro h
      obtain ⟨x, hx, hc, -⟩ := h
      exact Bool.noConfusion ((hl x hx).symm.trans hc)
    have hsucc : ¬ CommandsSucceeded fate l := by
      intro h
      obtain ⟨x, hx, hc⟩ := h.1
      exact Bool.noConfusion ((hl x hx).symm.trans hc)
    exact ⟨fun _ => ⟨fun h => absurd h hfail, fun h => absurd h hsucc⟩,
      fun _ => ⟨fun h => absurd h hfail, fun h => absurd h hsucc⟩⟩
  | wrote u t hcalm ht ht' hs hr =>
    constructor
    · intro h
      refine ⟨fun hf => ?_, fun _ => .inl hcalm⟩
      obtain ⟨hrow, herr⟩ := h.failed hf
      right
      by_cases hresp : op.responds = true
      · rw [if_pos hresp] at hr
        exact absurd hr herr
      · have hsame : (u.apply t).status = t.status := by
          rw [ht', ht] at hrow
          exact (Prod.mk.inj (Option.some.inj hrow)).1
        refine ⟨by simpa using hresp, ?_⟩
        rw [LifecycleOp.AtRest, ht, Option.map_some, ← hsame, hs]
    · intro h
      refine ⟨fun hf => ?_, fun _ => by rw [ht', Option.map_some, hs]⟩
      obtain ⟨hresp, hrest⟩ := (h.failed hf).resolve_left hcalm
      rw [if_neg (by simp [hresp])] at hr
      obtain ⟨rfl, rfl⟩ := hr
      rw [LifecycleOp.AtRest, ht] at hrest
      have hst : t.status = op.newStatus := Option.some.inj hrest
      refine ⟨?_, fun he => by cases he⟩
      rw [ht', ht]
      simp [TenantUpdate.apply, hst]
  | raised hraised hrow hr =>
    constructor
    · intro h
      refine ⟨fun _ => .inl hraised, fun hsucc => .inr ?_⟩
      rw [LifecycleOp.AtRest, ← hrow]
      exact h.succeeded hsucc
    · intro h
      refine ⟨fun _ => ⟨by rw [hrow], hr⟩, fun hsucc => ?_⟩
      rw [hrow]
      exact (h.succeeded hsucc).resolve_left fun hno => hno hraised

/-- Nothing has been written since `w`, and nothing raised. -/
structure Unwritten (op : LifecycleOp) (w : World) (l₀ : CallLog) (w₁ : World) : Prop where
  calm : ∀ x ∈ l₀, op.raises x.1 x.2 = false
  tenants : w₁.tenants = w.tenants

/-- After the calls `l₀` of an operation that began in `w`, the rest `p` gives its run its shape. -/
def Shapes (op : LifecycleOp) (w : World) (l₀ : CallLog) (p : CtlProg (Option Bool)) (w₁ : World) : Prop :=
  p.wpt ctl (fun l r w' => RunShape op w (l₀ ++ l) r w') w₁

/-- A part of an operation that returns `false` exactly if one of its requests raised. -/
def LifecycleOp.Reports (op : LifecycleOp) (p : CtlProg Bool) : Prop :=
  ∀ l ok, p.Plays l ok → (ok = true ↔ ∀ x ∈ l, op.raises x.1 x.2 = false)

section Shape

variable {op : LifecycleOp} {w w₁ : World} {l₀ : CallLog}

theorem not_raised_iff {l : CallLog} : ¬ op.Raised l ↔ ∀ x ∈ l, op.raises x.1 x.2 = false := by
  simp only [LifecycleOp.Raised, not_exists, not_and, Bool.not_eq_true]

theorem Unwritten.refl : Unwritten op w [] w := ⟨fun _ h => absurd h List.not_mem_nil, rfl⟩

theorem Unwritten.call {c : Call} {r : c.Ans} {w₂ : World} (h : Unwritten op w l₀ w₁) (hc : c.writesTenants = false)
    (hr : op.raises c r = false) (hs : World.step c r w₁ w₂) : Unwritten op w (l₀ ++ [⟨c, r⟩]) w₂ := by
  refine ⟨fun x hx => ?_, (step_tenants hc hs).trans h.tenants⟩
  rcases List.mem_append.1 hx with hx | hx
  · exact h.calm x hx
  · obtain rfl := List.mem_singleton.1 hx
    exact hr

/-- A call that writes no row and cannot raise. -/
theorem Shapes.call {c : Call} {k : c.Ans → CtlProg (Option Bool)} (h : Unwritten op w l₀ w₁)
    (hc : c.writesTenants = false) (hcalm : ∀ r, op.raises c r = false)
    (hk : ∀ r w₂, World.step c r w₁ w₂ → Unwritten op w (l₀ ++ [⟨c, r⟩]) w₂ → Shapes op w (l₀ ++ [⟨c, r⟩]) (k r) w₂) :
    Shapes op w l₀ (@Prog.call Ctl _ c k) w₁ := by
  intro r w₂ hs
  have hrest := hk r w₂ hs (h.call hc (hcalm r) hs)
  simp only [Shapes, List.append_assoc, List.singleton_append] at hrest
  exact hrest

/-- An exception, or an error after one. -/
theorem Shapes.fail {r : Option Bool} (h : w₁.tenants = w.tenants) (hl : op.Raised l₀) (hr : r ≠ some false) :
    Shapes op w l₀ (.ret r) w₁ :=
  RunShape.raised (by rwa [List.append_nil]) (by rw [h]) hr

/-- A part that writes no row; the operation goes on when nothing raised. -/
theorem Shapes.part {p : CtlProg Bool} {f : Bool → CtlProg (Option Bool)} {r : Option Bool} (h : Unwritten op w l₀ w₁)
    (hp : p.All fun c : Call => c.writesTenants = false) (hrep : op.Reports p) (hr : r ≠ some false)
    (hfail : f false = .ret r)
    (hk : ∀ l w₂, Unwritten op w (l₀ ++ l) w₂ → Shapes op w (l₀ ++ l) (f true) w₂) : Shapes op w l₀ (p >>= f) w₁ := by
  have hframe : p.wp ctl (fun _ w' => w'.tenants = w₁.tenants) w₁ :=
    Prog.All.wp_frame (fun c r u u' hc hI hs => (step_tenants hc hs).trans hI) hp rfl
  refine (Prog.wpt_bind ..).2 (Prog.wpt_mono ?_ (Prog.wpt_and (Prog.wpt_plays p w₁) (Prog.wpt_of_wp hframe)))
  intro l ok w₂ hpart
  obtain ⟨hplays, htenants⟩ := hpart
  have hsame : w₂.tenants = w.tenants := htenants.trans h.tenants
  have hrest : Shapes op w (l₀ ++ l) (f ok) w₂ := by
    cases ok with
    | true =>
      have hcalm := (hrep l true hplays).1 rfl
      exact hk l w₂ ⟨List.forall_mem_append.2 ⟨h.calm, hcalm⟩, hsame⟩
    | false =>
      rw [hfail]
      refine .fail hsame ?_ hr
      by_contra hno
      have hcalm := not_raised_iff.1 hno
      exact Bool.noConfusion ((hrep l false hplays).2 fun x hx => hcalm x (List.mem_append_right _ hx))
  simp only [Shapes, List.append_assoc] at hrest
  exact hrest

/-- Nothing was sent to the host. -/
theorem Shapes.silent {r : Option Bool} (h : ∀ x ∈ l₀, x.1.isCommand = false) : Shapes op w l₀ (.ret r) w₁ :=
  RunShape.silent (by simpa using h)

/-- The status write at the end. -/
theorem Shapes.write {u : TenantUpdate} {g : Bool → CtlProg (Option Bool)} (h : Unwritten op w l₀ w₁)
    (hu : ∀ t, (u.apply t).status = op.newStatus) (hg : ∀ ok, ∃ r, g ok = .ret r ∧
      if ok then (if op.responds then r = some false else r = none ∧ u = .status op.newStatus) else r ≠ some false) :
    Shapes op w l₀ (@Prog.call Ctl _ (.updTenant op.tenant u) g) w₁ := by
  intro ok w₂ hs
  obtain ⟨t, ht, hs⟩ := hs
  obtain ⟨r, hr, hok⟩ := hg ok
  rw [hr]
  cases ok with
  | true =>
    obtain rfl : w₂ = w₁.putTenant (u.apply t) := hs
    have hid : (u.apply t).id = op.tenant := (TenantUpdate.apply_id u t).trans (Table.key_of_get ht)
    refine .wrote u t (not_raised_iff.2 (List.forall_mem_append.2 ⟨h.calm, ?_⟩)) (h.tenants ▸ ht) ?_ hu hok
    · simp [LifecycleOp.raises]
    · rw [World.putTenant_tenants, ← hid]
      exact Table.get_put_self _ _
  | false =>
    obtain rfl : w₂ = w₁ := hs
    exact .raised ⟨_, List.mem_append_right _ (List.mem_singleton_self _), rfl⟩ (by rw [h.tenants]) hok

end Shape

/-! ## Each operation has the shape -/

section Operations

variable {cfg} {op : LifecycleOp} {w w₁ : World} {l₀ : CallLog} {t : TenantRow} {f : Resp → Option Bool}

/-- How an operation with a response reads the status codes. -/
structure ReadsCodes (op : LifecycleOp) (f : Resp → Option Bool) : Prop where
  responds : op.responds = true
  ok : f 200 = some false
  error : f 500 ≠ some false

/-- The last write of an operation with a response. -/
theorem ReadsCodes.write {u : TenantUpdate} (hf : ReadsCodes op f) (h : Unwritten op w l₀ w₁)
    (hu : ∀ t, (u.apply t).status = op.newStatus) :
    Shapes op w l₀ (@Prog.call Ctl _ (.updTenant op.tenant u) fun ok => .ret (f (if ok then 200 else 500))) w₁ := by
  refine Shapes.write h hu fun ok => ⟨_, rfl, ?_⟩
  cases ok with
  | true => simp [hf.responds, hf.ok]
  | false => simpa using hf.error

theorem simpleAction_shapes {a : SimpleAction} (hf : ReadsCodes op f) (ht : op.tenant = t.id)
    (hs : op.newStatus = a.newStatus) (h : Unwritten op w l₀ w₁) (hl : ∀ x ∈ l₀, x.1.isCommand = false) :
    Shapes op w l₀ (simpleAction a t >>= fun code => .ret (f code)) w₁ := by
  unfold simpleAction
  cases t.hostId with
  | none => exact .silent hl
  | some host =>
    simp only [req_bind, Prog.call_bind]
    refine .call h rfl (fun _ => rfl) fun _ w₂ _ h₂ => ?_
    split
    · rename_i hreset
      simp only [Prog.call_bind, Prog.pure_eq, Prog.ret_bind]
      refine .call h₂ rfl (fun _ => rfl) fun host w₃ _ h₃ => ?_
      rw [← ht]
      exact hf.write h₃ fun t => by rw [hs, hreset]; rfl
    · simp only [Prog.call_bind, Prog.pure_eq, Prog.ret_bind]
      rw [← ht]
      exact hf.write h₂ fun t => hs.symm

theorem tenantAction_shapes {a : SimpleAction} {tid : TenantId} (hf : ReadsCodes op f) (ht : op.tenant = tid)
    (hs : op.newStatus = a.newStatus) (h : Unwritten op w l₀ w₁) (hl : ∀ x ∈ l₀, x.1.isCommand = false) :
    Shapes op w l₀ (tenantAction cfg tid (.simple a) >>= fun code => .ret (f code)) w₁ := by
  simp only [tenantAction, req_bind, Prog.call_bind]
  refine .call h rfl (fun _ => rfl) fun item w₂ hget h₂ => ?_
  have hl₂ : ∀ x ∈ l₀ ++ [⟨.getTenant tid, item⟩], x.1.isCommand = false :=
    List.forall_mem_append.2 ⟨hl, by simp [Call.isCommand]⟩
  cases item with
  | none => exact .silent hl₂
  | some t => exact simpleAction_shapes hf (ht.trans (Table.key_of_get hget.1.symm).symm) hs h₂ hl₂

theorem releaseDeleted_rows (host : HostId) :
    (releaseDeleted t host).All fun c : Call => c.writesTenants = false := by
  simp only [releaseDeleted, req_bind, Prog.pure_eq]
  refine ⟨rfl, fun h => ?_⟩
  cases h with
  | none => trivial
  | some h =>
    dsimp only
    split
    · exact ⟨rfl, fun _ => ⟨rfl, fun _ => trivial⟩⟩
    · trivial

theorem releaseDeleted_reports (host : HostId) : op.Reports (releaseDeleted t host) := by
  intro l ok hp
  simp only [releaseDeleted, req_bind, Prog.pure_eq] at hp
  obtain ⟨h, l₁, rfl, hp₁⟩ := Prog.plays_call.1 hp
  cases h with
  | none =>
    obtain ⟨rfl, rfl⟩ := Prog.plays_ret.1 hp₁
    simp [LifecycleOp.raises]
  | some h =>
    dsimp only at hp₁
    split at hp₁
    · obtain ⟨now, l₂, rfl, hp₂⟩ := Prog.plays_call.1 hp₁
      obtain ⟨h', l₃, rfl, hp₃⟩ := Prog.plays_call.1 hp₂
      obtain ⟨rfl, rfl⟩ := Prog.plays_ret.1 hp₃
      cases h' <;> simp [LifecycleOp.raises]
    · obtain ⟨rfl, rfl⟩ := Prog.plays_ret.1 hp₁
      simp [LifecycleOp.raises]

theorem removeAlbRule_rows (tid : TenantId) : (removeAlbRule cfg tid).All fun c : Call => c.writesTenants = false :=
  (removeAlbRule_quiet cfg tid).mono fun _ h => h.1

theorem removeAlbRule_reports (tid : TenantId) : op.Reports (removeAlbRule cfg tid) := by
  have hquiet {l : CallLog} {ok : Bool} (hp : Prog.Plays (.ret true : CtlProg Bool) l ok) :
      ok = true ↔ ∀ x ∈ l, op.raises x.1 x.2 = false := by
    obtain ⟨rfl, rfl⟩ := Prog.plays_ret.1 hp
    simp
  intro l ok hp
  unfold removeAlbRule at hp
  split at hp
  · exact hquiet hp
  split at hp
  · exact hquiet hp
  simp only [req_bind, Prog.pure_eq] at hp
  obtain ⟨rules, l₁, rfl, hp₁⟩ := Prog.plays_call.1 hp
  cases rules with
  | none =>
    obtain ⟨rfl, rfl⟩ := Prog.plays_ret.1 hp₁
    simp [LifecycleOp.raises]
  | some rules =>
    rw [List.forall_mem_cons, and_iff_right (by simp [LifecycleOp.raises])]
    dsimp only at hp₁
    split at hp₁
    · exact hquiet hp₁
    · obtain ⟨b, l₂, rfl, hp₂⟩ := Prog.plays_call.1 hp₁
      obtain ⟨rfl, rfl⟩ := Prog.plays_ret.1 hp₂
      simp [LifecycleOp.raises]

theorem deleteTenant_shapes {tid : TenantId} {keepData : Bool} (hf : ReadsCodes op f) (ht : op.tenant = tid)
    (hs : op.newStatus = .deleted) (h : Unwritten op w l₀ w₁) (hl : ∀ x ∈ l₀, x.1.isCommand = false) :
    Shapes op w l₀ (deleteTenant cfg tid keepData >>= fun code => .ret (f code)) w₁ := by
  have hmark {l : CallLog} {u : World} (hu : Unwritten op w l u) :
      Shapes op w l ((if true = true then markDeleted tid else pure 500) >>= fun code => .ret (f code)) u := by
    simp only [markDeleted, req_bind, Prog.call_bind, Prog.pure_eq, Prog.ret_bind, if_true]
    rw [← ht]
    exact hf.write hu fun t => hs.symm
  simp only [deleteTenant, req_bind, Prog.call_bind]
  refine .call h rfl (fun _ => rfl) fun item w₂ _ h₂ => ?_
  have hl₂ : ∀ x ∈ l₀ ++ [⟨.getTenant tid, item⟩], x.1.isCommand = false :=
    List.forall_mem_append.2 ⟨hl, by simp [Call.isCommand]⟩
  cases item with
  | none => exact .silent hl₂
  | some t =>
    dsimp only
    split
    · exact .silent hl₂
    cases t.hostId with
    | none =>
      simp only [Prog.bind_assoc]
      exact .part h₂ (removeAlbRule_rows tid) (removeAlbRule_reports tid) hf.error rfl fun _ _ h₃ => hmark h₃
    | some host =>
      simp only [Prog.call_bind, Prog.bind_assoc]
      refine .call h₂ rfl (fun _ => rfl) fun _ _ _ h₃ => .call h₃ rfl (fun _ => rfl) fun _ _ _ h₄ => ?_
      refine .part h₄ (removeAlbRule_rows tid) (removeAlbRule_reports tid) hf.error rfl fun _ _ h₅ => ?_
      simp only [if_true, Prog.call_bind]
      refine .call h₅ rfl (fun _ => rfl) fun _ _ _ h₆ => ?_
      split
      · simp only [Prog.bind_assoc]
        exact .part h₆ (releaseDeleted_rows host) (releaseDeleted_reports host) hf.error rfl fun _ _ h₇ => hmark h₇
      · simp only [Prog.call_bind, Prog.bind_assoc]
        refine .call h₆ rfl (fun _ => rfl) fun _ _ _ h₇ => ?_
        exact .part h₇ (releaseDeleted_rows host) (releaseDeleted_reports host) hf.error rfl fun _ _ h₈ => hmark h₈

/-- The codes of a batch. -/
theorem batch_reads (tid : TenantId) (a : BatchAction) : ReadsCodes (.batch tid a) fun code =>
    some (decide (tid ∈ (if code < 400 then ([tid], []) else ([], [tid]) : List TenantId × List TenantId).2)) := by
  refine ⟨rfl, ?_, ?_⟩ <;> simp

/-- The last write of the scaler. -/
theorem scaler_write {α : Type} {g : Bool → CtlProg α} {s : TenantStatus} (h : Unwritten op w l₀ w₁)
    (hs : op.newStatus = s) (hresp : op.responds = false) (hg : ∀ ok, ∃ a, g ok = .ret a) :
    Shapes op w l₀ (@Prog.call Ctl _ (.updTenant op.tenant (.status s)) fun ok => g ok >>= fun _ => .ret none) w₁ := by
  refine Shapes.write h (fun t => hs.symm) fun ok => ?_
  obtain ⟨a, ha⟩ := hg ok
  refine ⟨none, by rw [ha]; rfl, ?_⟩
  cases ok with
  | true => simp [hresp, hs]
  | false => simp

theorem expireOne_shapes {now : Time} :
    Shapes (.ttl now t) w [] (expireOne now t >>= fun _ => .ret none) w := by
  have hnone : ∀ x ∈ ([] : CallLog), x.1.isCommand = false := fun _ h => absurd h List.not_mem_nil
  have hstatus : ∀ o, t.onExpiry.getD .stop = o → (LifecycleOp.ttl now t).newStatus = match o with
      | .stop => .stopped
      | .delete => .deleted := by
    intro o ho
    rw [LifecycleOp.newStatus, ho]
  unfold expireOne
  split
  · exact .silent hnone
  split
  · exact .silent hnone
  cases ho : t.onExpiry.getD .stop with
  | stop =>
    cases t.hostId with
    | none => exact scaler_write .refl (hstatus _ ho) rfl fun _ => ⟨_, rfl⟩
    | some host =>
      simp only [req_bind, Prog.call_bind]
      exact .call .refl rfl (fun _ => rfl) fun _ _ _ h₂ => scaler_write h₂ (hstatus _ ho) rfl fun _ => ⟨_, rfl⟩
  | delete => exact scaler_write .refl (hstatus _ ho) rfl fun _ => ⟨_, rfl⟩

theorem reconcileSchedule_shapes {now : Time} :
    Shapes (.schedule now t) w [] (reconcileSchedule cfg now t >>= fun _ => .ret none) w := by
  have hnone : ∀ x ∈ ([] : CallLog), x.1.isCommand = false := fun _ h => absurd h List.not_mem_nil
  have haction {host : HostId} {cmd : HostCmd} {s : TenantStatus} (hs : (LifecycleOp.schedule now t).newStatus = s) :
      Shapes (.schedule now t) w [] (scheduleAction t host cmd s >>= fun _ => .ret none) w := by
    simp only [scheduleAction, req_bind, Prog.call_bind]
    intro r w₂ hst
    have hsame : w₂.tenants = w.tenants := step_tenants (c := .ssmSend (some host) cmd) rfl hst
    cases r with
    | none =>
      have hraised : (LifecycleOp.schedule now t).Raised [⟨.ssmSend (some host) cmd, none⟩] :=
        ⟨_, List.mem_singleton_self _, rfl⟩
      exact Shapes.fail hsame hraised (by simp)
    | some id =>
      have h₂ : Unwritten (.schedule now t) w [⟨.ssmSend (some host) cmd, some id⟩] w₂ :=
        ⟨by simp [LifecycleOp.raises], hsame⟩
      exact scaler_write h₂ hs rfl fun _ => ⟨_, rfl⟩
  unfold reconcileSchedule
  split
  · split
    · rename_i hstart
      exact haction (if_pos hstart.2)
    split
    · rename_i hstop
      exact haction (if_neg fun he => by rw [hstop.2] at he; cases he)
    · exact .silent hnone
  · exact .silent hnone

/-- **Every operation has the shape.** -/
theorem LifecycleOp.shapes (op : LifecycleOp) (w : World) : Shapes op w [] (op.body cfg) w := by
  have hnone : ∀ x ∈ ([] : CallLog), x.1.isCommand = false := fun _ h => absurd h List.not_mem_nil
  cases op with
  | action tid a =>
    have hreads : ReadsCodes (.action tid a) fun code => some (decide (400 ≤ code)) := ⟨rfl, by simp, by simp⟩
    exact tenantAction_shapes hreads rfl rfl .refl hnone
  | batch tid a =>
    simp only [LifecycleOp.body, batchAll, req_bind, Prog.call_bind, Prog.pure_eq, Prog.ret_bind]
    refine .call .refl rfl (fun _ => rfl) fun item w₂ _ h₂ => ?_
    have hl₂ : ∀ x ∈ ([] : CallLog) ++ [⟨.getTenant tid, item⟩], x.1.isCommand = false :=
      List.forall_mem_append.2 ⟨hnone, by simp [Call.isCommand]⟩
    cases item with
    | none => exact .silent hl₂
    | some t =>
      simp only [Prog.bind_assoc, Prog.ret_bind]
      cases a with
      | stop => exact @tenantAction_shapes cfg _ _ _ _ _ .stop tid (batch_reads tid .stop) rfl rfl h₂ hl₂
      | start => exact @tenantAction_shapes cfg _ _ _ _ _ .start tid (batch_reads tid .start) rfl rfl h₂ hl₂
      | delete => exact deleteTenant_shapes (batch_reads tid .delete) rfl rfl h₂ hl₂
  | ttl now t => exact expireOne_shapes
  | schedule now t => exact reconcileSchedule_shapes

end Operations

/-- **The status and the host command**: whatever becomes of the commands, the row follows them exactly when another
request raises with a command that fails and none with commands that succeed, but for writes of what is there. -/
theorem lifecycle_outcome (op : LifecycleOp) (fate : (c : Call) → c.Ans → Bool) {w w' : World} {l : CallLog}
    {r : Option Bool} (h : (op.body cfg).Traces ctl w l r w') :
    op.FollowsCommand fate l r w w' ↔ op.Unharmed fate l w :=
  RunShape.follows_iff (Prog.wpt_iff_traces.1 (op.shapes w) l r w' h)

/-! ## A failed command -/

/-- A command answered by `_ssm_run` succeeded when it says so. -/
def ssmFate : (c : Call) → c.Ans → Bool
  | .ssmRun _ _, ok => ok
  | .ssmSend _ _, id => id.isSome
  | _, _ => true

/-- What pausing `a-0000` leaves of its status, and the response, for an outcome of the host command. -/
def pauseRun (ok : Bool) : Option (CallLog × Option Bool × World) :=
  ctlOracle.alone (fun _ _ _ => true) ((LifecycleOp.action "a-0000" .pause).body {}) [{}, { ok := ok }, {}] twoHosts

theorem pauseRun_traces {ok : Bool} {x : CallLog × Option Bool × World} (hx : pauseRun ok = some x) :
    ((LifecycleOp.action "a-0000" .pause).body {}).Traces ctl twoHosts x.1 x.2.1 x.2.2 := by
  have ht : Prog.Traces (ctl.restrict fun _ _ _ => True) _ _ x.1 x.2.1 x.2.2 :=
    Oracle.alone_sound (fun _ _ _ _ => trivial) hx
  exact ht.of_restrict

/-- A pause whose command succeeds leaves the row `paused`. -/
theorem lifecycle_outcome_pause : ∃ l r w', ((LifecycleOp.action "a-0000" .pause).body {}).Traces ctl twoHosts l r w' ∧
    CommandsSucceeded ssmFate l ∧ (w'.tenants.get "a-0000").map TenantRow.status = some .paused := by
  have hplay : ((pauseRun true).any fun x => (x.1.any fun y => y.1.isCommand) &&
      x.1.all fun y => (!y.1.isCommand || ssmFate y.1 y.2) && !(LifecycleOp.action "a-0000" .pause).raises y.1 y.2) =
        true := by
    decide +kernel
  obtain ⟨x, hx, hP⟩ := (Option.any_eq_true _ _).1 hplay
  simp only [Bool.and_eq_true, List.any_eq_true, List.all_eq_true, Bool.or_eq_true, Bool.not_eq_true'] at hP
  obtain ⟨hcmd, hall⟩ := hP
  have hsucc : CommandsSucceeded ssmFate x.1 := by
    refine ⟨hcmd, fun y hy hc => ?_⟩
    exact ((hall y hy).1).resolve_left (by simp [hc])
  have hcalm : ¬ (LifecycleOp.action "a-0000" .pause).Raised x.1 := not_raised_iff.2 fun y hy => (hall y hy).2
  have hnofail : ¬ CommandFailed ssmFate x.1 := by
    intro h
    obtain ⟨y, hy, hc, hf⟩ := h
    exact Bool.noConfusion (hf.symm.trans (hsucc.2 y hy hc))
  have ht := pauseRun_traces hx
  have hfollows := (lifecycle_outcome {} (.action "a-0000" .pause) ssmFate ht).2
    ⟨fun hf => absurd hf hnofail, fun _ => .inl hcalm⟩
  exact ⟨_, _, _, ht, hsucc, hfollows.succeeded hsucc⟩

/-- **A failed pause**: the host refuses the command, the answer is 200, and the row says `paused`. -/
theorem failed_pause_paused : ¬ ∀ (cfg : Config) (op : LifecycleOp) (w w' : World) (l : CallLog) (r : Option Bool),
    (op.body cfg).Traces ctl w l r w' → op.FollowsCommand ssmFate l r w w' := by
  intro h
  have hplay : ((pauseRun false).any fun x => x.1.any (fun y => y.1.isCommand && !ssmFate y.1 y.2) &&
      decide (x.2.1 = some false)) = true := by decide +kernel
  obtain ⟨x, hx, hP⟩ := (Option.any_eq_true _ _).1 hplay
  simp only [Bool.and_eq_true, List.any_eq_true, Bool.not_eq_true', decide_eq_true_eq] at hP
  obtain ⟨⟨y, hy, hcmd, hfate⟩, hr⟩ := hP
  have hfollows := h {} _ _ _ _ _ (pauseRun_traces hx)
  exact (hfollows.failed ⟨y, hy, hcmd, hfate⟩).2 hr

end OpenClaw
