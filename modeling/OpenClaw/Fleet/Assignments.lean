import OpenClaw.Fleet.Shapes
import OpenClaw.Lib.Moments
import OpenClaw.Lib.Product
import OpenClaw.Lifecycle.Creation
import OpenClaw.Numbers.Runs

/-!
# Overlapping assignments

`process_pending` is run whenever a host comes into service. Several invocations may go through the pending tenants at
once, and the write of `creating` has no condition.

- `pendingWork`: an invocation assigns a tenant that its scan showed pending, books the host it assigned the tenant to,
  and launches what it booked.
- `assigned_in_turn`: two assignments of a tenant come from two invocations, and the later one had read the tenant before
  the earlier one wrote it; every booking and every launch has an assignment of its own.
-/

namespace OpenClaw

open Keyed Atomic

variable (cfg : Config)

/-! ## The work of an invocation -/

/-- No assignment. -/
def Call.assignless : Call → Prop
  | .updTenant _ u => u.assigns = false
  | _ => True

/-- An assignment, a booking or a command. -/
def Call.placing : Call → Bool
  | .updTenant _ u => u.assigns
  | .updHost _ (.book _ _ _) | .ssmSend _ _ => true
  | _ => false

/-- What an invocation of `process_pending` has in hand. -/
structure PendingWork where
  /-- Read as pending, and not assigned by it since. -/
  waiting : Set TenantId := ∅
  /-- Assigned to the host, which is not booked yet. -/
  assigned : Option (TenantId × HostId) := none
  /-- Assigned and booked, but not launched yet. -/
  booked : Option (TenantId × HostId) := none

def PendingWork.allows (g : PendingWork) : Call → Prop
  | .updTenant tid u => u.assigns = true → tid ∈ g.waiting
  | .updHost h (.book _ _ _) => ∃ tid, g.assigned = some (tid, h)
  | .ssmSend h cmd => ∀ tid, cmd.launches tid = true → ∃ h', h = some h' ∧ g.booked = some (tid, h')
  | _ => True

def PendingWork.next (g : PendingWork) : (c : Call) → c.Ans → PendingWork
  | .scanTenants (.status .pending), rows => { g with waiting := g.waiting ∪ {tid | ∃ t ∈ rows, t.id = tid} }
  | .updTenant tid (.assign h _ _ _ _ _), ok =>
    { waiting := g.waiting \ {tid}, assigned := if ok then some (tid, h) else none }
  | .updHost _ (.book _ _ _), r => { g with assigned := none, booked := if r.isSome then g.assigned else none }
  | .ssmSend _ _, _ => { waiting := g.waiting }
  | _, _ => g

/-- A scan reads no tenant twice. -/
def readsOnce : (c : Call) → c.Ans → Prop
  | .scanTenants _, rows => (rows.map (·.id)).Nodup
  | _, _ => True

/-- Only invocations of `process_pending` assign. -/
def pendingWork : Protocol Ctl ControlJob (Option PendingWork) where
  init j := match j with
    | .fleet .pending => some {}
    | _ => none
  allow g c := match g with
    | some g => g.allows c
    | none => c.assignless
  sane _ c r := readsShaped c r ∧ readsOnce c r
  next g c r := g.map fun g => g.next c r

section Programs

variable {cfg} {α : Type} {g : PendingWork}

theorem assignless_of_tame {c : Call} (h : c.tame) : c.assignless := by
  cases c <;> first | trivial | skip
  case updTenant id u => cases u <;> first | rfl | cases h.2

/-- Only a program with the duty assigns. -/
theorem Made.assignless {d : Duty} (hd : ¬ d.assigns) {c : Call} (h : Made cfg d c) : c.assignless := by
  cases h with
  | mute h => exact assignless_of_tame h.tame
  | count _ hc => exact assignless_of_tame hc.tame
  | upd hu hc => exact assignless_of_tame ⟨hu, hc⟩
  | assign ha => exact absurd ha hd
  | _ => trivial

/-- A program without an assignment. -/
theorem assignless_obeys {p : CtlProg α} (hp : p.All Call.assignless) :
    p.obeys pendingWork (fun _ _ => True) none :=
  Prog.obeys_mono (fun _ _ _ => trivial) (Prog.All.obeys (g := none) (fun _ hc => ⟨hc, fun _ => rfl⟩) hp)

/-! ### The invocation -/

/-- A call that does not concern the work in hand. -/
def Call.besides : Call → Prop
  | .scanTenants _ => False
  | c => c.placing = false

theorem besides_allows {c : Call} (h : c.besides) : g.allows c ∧ ∀ r, g.next c r = g := by
  cases c <;> first | exact ⟨trivial, fun _ => rfl⟩ | cases h | skip
  case updTenant id u => cases u <;> first | exact ⟨fun hu => (by cases hu), fun _ => rfl⟩ | cases h
  case updHost id u => cases u <;> first | exact ⟨trivial, fun _ => rfl⟩ | cases h

theorem besides_obeys {p : CtlProg α} (hp : p.All Call.besides) :
    p.obeys pendingWork (fun _ g' => g' = some g) (some g) :=
  Prog.All.obeys (fun _ hc => ⟨(besides_allows hc).1, fun r => congrArg some ((besides_allows hc).2 r)⟩) hp

theorem routeTenant_besides (host : HostRow) (tid : TenantId) :
    (routeTenant cfg host tid).All Call.besides := by
  refine (routeTenant_routes cfg host tid).mono fun c hc => ?_
  cases c <;> first | rfl | exact hc.elim

theorem resolveEffectiveSkills_besides (t : TenantRow) :
    (resolveEffectiveSkills t).All Call.besides := by
  unfold resolveEffectiveSkills
  split
  · trivial
  · exact ⟨rfl, fun _ => trivial⟩

/-- One tenant: assigned, booked and launched, or the loop ends. -/
theorem assignPending_obeys {t : TenantRow} (ht : t.id ∈ g.waiting) : (assignPending cfg t).obeys pendingWork
    (fun _ g' => ∃ g₁, g' = some g₁ ∧ g.waiting \ {t.id} ⊆ g₁.waiting) (some g) := by
  have hfind : (findHost cfg t.vcpu t.memMb).All Call.besides := ⟨rfl, fun _ => trivial⟩
  unfold assignPending
  rw [Prog.obeys_bind]
  refine Prog.obeys_mono (fun host g₁ hg₁ => ?_) (besides_obeys hfind)
  subst hg₁
  cases host with
  | none => exact ⟨g, rfl, Set.sdiff_subset⟩
  | some host =>
    simp only [req_bind, Prog.pure_eq]
    refine ⟨trivial, fun now _ => ⟨fun _ => ht, fun ok _ => ?_⟩⟩
    cases ok with
    | false => exact ⟨_, rfl, subset_rfl⟩
    | true =>
      refine ⟨⟨t.id, rfl⟩, fun h _ => ?_⟩
      cases h with
      | none => exact ⟨_, rfl, subset_rfl⟩
      | some _ =>
        let g₂ : PendingWork := { waiting := g.waiting \ {t.id}, booked := some (t.id, host.instanceId) }
        suffices hrest : (resolveEffectiveSkills t >>= fun skills => launchVm host.instanceId t.id (host.nextVmNum.getD 1)
            t.vcpu t.memMb (guestIpOf cfg (host.nextVmNum.getD 1)) (hostPortOf cfg (host.nextVmNum.getD 1))
            t.configTemplate t.restoreBackupKey skills >>= fun _ => routeTenant cfg host t.id >>= fun ok =>
              (.ret (if ok then some () else none) : CtlProg (Option Unit))).obeys pendingWork
            (fun _ g' => ∃ g₁, g' = some g₁ ∧ g.waiting \ {t.id} ⊆ g₁.waiting) (some g₂) from hrest
        rw [Prog.obeys_bind]
        refine Prog.obeys_mono (fun skills g₃ hg₃ => ?_) (besides_obeys (resolveEffectiveSkills_besides t))
        subst hg₃
        refine ⟨fun tid hl => ?_, fun _ _ => ?_⟩
        · obtain rfl : t.id = tid := by simpa [HostCmd.launches] using hl
          exact ⟨_, rfl, rfl⟩
        · have hroute : (routeTenant cfg host t.id >>= fun ok =>
              (.ret (if ok then some () else none) : CtlProg (Option Unit))).All Call.besides :=
            (routeTenant_besides host t.id).bind fun _ => trivial
          exact Prog.obeys_mono (fun _ _ hg' => ⟨_, hg', subset_rfl⟩) (besides_obeys hroute)

theorem assignAll_obeys {ts : List TenantRow} (hn : (ts.map (·.id)).Nodup) (hg : ∀ t ∈ ts, t.id ∈ g.waiting) :
    (assignAll cfg ts).obeys pendingWork (fun _ _ => True) (some g) := by
  induction ts generalizing g with
  | nil => trivial
  | cons t ts ih =>
    obtain ⟨ht, hg⟩ := List.forall_mem_cons.1 hg
    obtain ⟨hnew, hn⟩ := List.nodup_cons.1 hn
    rw [assignAll, Prog.obeys_bind]
    refine Prog.obeys_mono (fun r g' hg' => ?_) (assignPending_obeys ht)
    obtain ⟨g₁, rfl, hsub⟩ := hg'
    cases r with
    | none => trivial
    | some _ =>
      refine ih hn fun t' ht' => hsub ⟨hg t' ht', fun he => hnew ?_⟩
      exact List.mem_map.2 ⟨t', ht', he⟩

/-- **Every program keeps to the protocol.** -/
theorem controlBody_pendingWork (j : ControlJob) :
    (controlBody cfg j).obeys pendingWork (fun _ _ => True) (pendingWork.init j) := by
  by_cases hp : j = .fleet .pending
  · subst hp
    refine ⟨trivial, fun rows hrows => ?_⟩
    have hperm := List.perm_insertionSort (fun a b : TenantRow => createdLe a b) rows
    refine assignAll_obeys ((hperm.map _).nodup_iff.2 hrows.2) fun t ht => .inr ⟨t, hperm.mem_iff.1 ht, rfl⟩
  · have hinit : pendingWork.init j = none := by
      unfold pendingWork
      dsimp only
      split
      · exact absurd rfl hp
      · rfl
    rw [hinit]
    refine assignless_obeys ((controlBody_made j).mono fun _ h => h.assignless ?_)
    cases j with
    | fleet j => cases j <;> first | exact id | exact absurd rfl hp
    | _ => exact id

end Programs

/-! ## Runs -/

section Runs

variable {cfg} {ι : Type}

/-- The invocation has read the tenant as pending. -/
def ShownPending (tr : List (Ev Ctl ControlJob ι)) (i : ι) (tid : TenantId) : Prop :=
  ∃ rows, .call i (.scanTenants (.status .pending)) rows ∈ tr ∧ ∃ t ∈ rows, t.id = tid

/-- It assigns the tenant to the host. -/
def AssignsAt (i : ι) (tid : TenantId) (host : HostId) (e : Ev Ctl ControlJob ι) : Prop :=
  ∃ n ip port v now, e = .call i (.updTenant tid (.assign host n ip port v now)) true

/-- It books room on the host. -/
def BooksAt (i : ι) (host : HostId) (e : Ev Ctl ControlJob ι) : Prop :=
  ∃ v m n row, e = .call i (.updHost host (.book v m n)) (some row)

/-- It sends the host the launch of the tenant. -/
def LaunchesAt (i : ι) (tid : TenantId) (host : HostId) (e : Ev Ctl ControlJob ι) : Prop :=
  ∃ cmd r, e = .call i (.ssmSend (some host) cmd) r ∧ cmd.launches tid = true

/-- It assigns, books and sends nothing. -/
def Idles (i : ι) (e : Ev Ctl ControlJob ι) : Prop := ∀ c r, e = .call i c r → c.placing = false

/-- Nobody creates the tenant. -/
def Uncreated (tid : TenantId) (tr : List (Ev Ctl ControlJob ι)) : Prop :=
  ∀ i t ok, .call i (.putTenant t) ok ∈ tr → t.id ≠ tid

/-- The last thing it did was to assign the tenant to the host. -/
def AssignedBy (tr : List (Ev Ctl ControlJob ι)) (i : ι) (tid : TenantId) (host : HostId) : Prop :=
  ∃ a m e, tr = a ++ e :: m ∧ AssignsAt i tid host e ∧ ∀ e' ∈ m, Idles i e'

/-- The last thing it did was to book the host for the tenant it had assigned there. -/
def BookedFor (tr : List (Ev Ctl ControlJob ι)) (i : ι) (tid : TenantId) (host : HostId) : Prop :=
  ∃ a m e, tr = a ++ e :: m ∧ BooksAt i host e ∧ AssignedBy a i tid host ∧ ∀ e' ∈ m, Idles i e'

section Hand

variable {tr : List (Ev Ctl ControlJob ι)} {e : Ev Ctl ControlJob ι} {i : ι} {tid : TenantId} {host : HostId}

theorem ShownPending.snoc (h : ShownPending tr i tid) : ShownPending (tr ++ [e]) i tid := by
  obtain ⟨rows, hm, ht⟩ := h
  exact ⟨rows, List.mem_append_left _ hm, ht⟩

theorem idles_snoc {m : List (Ev Ctl ControlJob ι)} (hm : ∀ e' ∈ m, Idles i e') (he : Idles i e) :
    ∀ e' ∈ m ++ [e], Idles i e' := by
  intro e' he'
  rcases List.mem_append.1 he' with he' | he'
  · exact hm e' he'
  · exact List.mem_singleton.1 he' ▸ he

theorem AssignedBy.snoc (h : AssignedBy tr i tid host) (he : Idles i e) : AssignedBy (tr ++ [e]) i tid host := by
  obtain ⟨a, m, e₁, rfl, ha, hm⟩ := h
  exact ⟨a, m ++ [e], e₁, by simp, ha, idles_snoc hm he⟩

theorem BookedFor.snoc (h : BookedFor tr i tid host) (he : Idles i e) : BookedFor (tr ++ [e]) i tid host := by
  obtain ⟨a, m, e₁, rfl, hb, ha, hm⟩ := h
  exact ⟨a, m ++ [e], e₁, by simp, hb, ha, idles_snoc hm he⟩

/-- What the invocation has in hand is what it has read and done. -/
structure PendingWork.Of (g : PendingWork) (tr : List (Ev Ctl ControlJob ι)) (i : ι) : Prop where
  waiting : ∀ tid ∈ g.waiting, ShownPending tr i tid
  assigned : ∀ tid host, g.assigned = some (tid, host) → AssignedBy tr i tid host
  booked : ∀ tid host, g.booked = some (tid, host) → BookedFor tr i tid host

theorem PendingWork.Of.snoc {g : PendingWork} (h : g.Of tr i) (he : Idles i e) : g.Of (tr ++ [e]) i :=
  ⟨fun tid ht => (h.waiting tid ht).snoc, fun tid host ha => (h.assigned tid host ha).snoc he,
    fun tid host hb => (h.booked tid host hb).snoc he⟩

/-- A step of its own. -/
theorem PendingWork.Of.next {g : PendingWork} (h : g.Of tr i) {c : Call} (ha : g.allows c) (r : c.Ans) :
    (g.next c r).Of (tr ++ [.call i c r]) i := by
  have hidle : c.placing = false → Idles i (.call i c r : Ev Ctl ControlJob ι) := by
    intro hc c' r' he
    cases he
    exact hc
  have hkeep : c.placing = false → g.Of (tr ++ [.call i c r]) i := fun hc => h.snoc (hidle hc)
  cases c <;> first | exact hkeep rfl | skip
  case scanTenants f =>
    have hg := hkeep rfl
    cases f <;> first | exact hg | skip
    rename_i s
    cases s <;> first | exact hg | skip
    refine ⟨fun tid ht => ?_, hg.assigned, hg.booked⟩
    rcases ht with ht | ht
    · exact hg.waiting tid ht
    · exact ⟨r, List.mem_append_right _ (List.mem_singleton_self _), ht⟩
  case updTenant id u =>
    cases u <;> first | exact hkeep rfl | skip
    rename_i host n ip port v now
    refine ⟨fun tid ht => (h.waiting tid ht.1).snoc, fun tid' host' ha => ?_, fun tid' host' hb => by cases hb⟩
    cases r with
    | false => cases ha
    | true =>
      cases ha
      exact ⟨tr, [], _, rfl, ⟨n, ip, port, v, now, rfl⟩, fun _ hm => absurd hm List.not_mem_nil⟩
  case updHost id u =>
    cases u <;> first | exact hkeep rfl | skip
    rename_i v m n
    refine ⟨fun tid ht => (h.waiting tid ht).snoc, fun tid' host' ha => (by cases ha), fun tid' host' hb => ?_⟩
    cases r with
    | none => cases hb
    | some row =>
      obtain ⟨tid₁, he⟩ := ha
      obtain ⟨rfl, rfl⟩ := Prod.mk.inj (Option.some.inj (he.symm.trans hb))
      exact ⟨tr, [], _, rfl, ⟨v, m, n, row, rfl⟩, h.assigned _ _ he, fun _ hm => absurd hm List.not_mem_nil⟩
  case ssmSend id cmd =>
    exact ⟨fun tid ht => (h.waiting tid ht).snoc, fun tid' host' ha => (by cases ha), fun tid' host' hb => by cases hb⟩

end Hand

/-! ### The row -/

/-- The tenant is not waiting for a host. -/
def World.NotPending (w : World) (tid : TenantId) : Prop := ∀ t, w.tenants.get tid = some t → t.status ≠ .pending

theorem shapely_not_pending {u : TenantUpdate} (hu : u.shapely) {t : TenantRow} (h : t.status ≠ .pending) :
    (u.apply t).status ≠ .pending := by
  cases u <;> first | exact h | exact hu.elim | (intro he; cases he; done) | skip
  case status s =>
    intro he
    obtain rfl : s = .pending := he
    cases hu
  case failoverEnded s _ =>
    intro he
    obtain rfl : s = .pending := he
    cases hu

theorem shapelyIf_not_pending {c : TenantCond} {u : TenantUpdate} (hu : u.shapelyIf c) (t : TenantRow) :
    (u.apply t).status ≠ .pending := by
  cases u <;> first | exact hu.elim | skip
  case failoverClaim s _ _ _ => exact fun he => hu.1 he
  case workerClaim => exact fun he => by cases he
  case failoverEnded s _ =>
    intro he
    obtain rfl : s = .pending := he
    cases hu

variable {w w' : World} {c : Call} {r : c.Ans} {tid : TenantId}

theorem World.NotPending.put {t : TenantRow} (h : w.NotPending tid) (ht : t.id = tid → t.status ≠ .pending) :
    (w.putTenant t).NotPending tid := by
  intro t' hget
  rw [World.putTenant_tenants, Table.get_put] at hget
  split at hget
  · rename_i he
    obtain rfl := Option.some.inj hget
    exact ht he.symm
  · exact h t' hget

/-- No update makes a tenant wait again. -/
theorem World.NotPending.step (h : w.NotPending tid) (hc : c.shapely) (hput : ∀ t, c = .putTenant t → t.id ≠ tid)
    (hs : World.step c r w w') : w'.NotPending tid := by
  by_cases ht : c.writesTenants = false
  · rw [World.NotPending, step_tenants ht hs]
    exact h
  · cases c <;> first | exact absurd rfl ht | skip
    case putTenant t =>
      rcases sent.eq_or hs with rfl | rfl
      · exact h.put fun he => absurd he (hput t rfl)
      · exact h
    case updTenant id u =>
      obtain ⟨t, hget, hs⟩ := hs
      rcases sent.eq_or hs with rfl | rfl
      · refine h.put fun he => shapely_not_pending hc (h t ?_)
        rwa [← he, TenantUpdate.apply_id, Table.key_of_get hget]
      · exact h
    case condTenant id cond u =>
      obtain ⟨t, hget, hs⟩ := hs
      cases r with
      | done =>
        obtain ⟨-, rfl⟩ := hs
        exact h.put fun _ => shapelyIf_not_pending hc t
      | refused => exact hs.2 ▸ h
      | failed => exact hs ▸ h

/-- A scan for pending tenants does not show it. -/
theorem World.NotPending.not_shown (h : w.NotPending tid) {rows : List TenantRow}
    (hs : World.step (.scanTenants (.status .pending)) rows w w') : ∀ t ∈ rows, t.id ≠ tid := by
  intro t ht he
  obtain ⟨hm, hf⟩ := List.mem_filter.1 (hs.1.mem_iff.1 ht)
  refine h t ?_ (of_decide_eq_true hf)
  rw [← he]
  exact Table.get_of_mem hm

theorem World.NotPending.not_waiting {g : PendingWork} (h : w.NotPending tid) (hs : World.step c r w w')
    (ht : tid ∈ (g.next c r).waiting) : tid ∈ g.waiting := by
  cases c <;> first | exact ht | skip
  case scanTenants f =>
    cases f <;> first | exact ht | skip
    rename_i s
    cases s <;> first | exact ht | skip
    rcases ht with ht | ⟨t, hm, he⟩
    · exact ht
    · exact absurd he (h.not_shown hs t hm)
  case updTenant id u => cases u <;> first | exact ht | exact ht.1
  case updHost id u => cases u <;> exact ht

/-- An assigned tenant is not waiting. -/
theorem notPending_of_assigned {i : ι} {host : HostId} (ha : AssignsAt i tid host (.call i c r))
    (hs : World.step c r w w') : w'.NotPending tid := by
  obtain ⟨n, ip, port, v, now, he⟩ := ha
  cases he
  obtain ⟨t, hget, hs⟩ := hs
  obtain rfl : w' = _ := hs
  intro t' hget'
  rw [World.putTenant_tenants, Table.get_put, TenantUpdate.apply_id, Table.key_of_get hget, if_pos rfl] at hget'
  obtain rfl := Option.some.inj hget'
  exact fun he => by cases he

/-! ### The invariant -/

variable [DecidableEq ι] {w₀ : World} {tr : List (Ev Ctl ControlJob ι)} {cf : Conf Ctl World ControlJob ι Unit}

/-- Both protocols. -/
abbrev pendingConduct : Protocol Ctl ControlJob (Set HostId × Option PendingWork) := conduct.prod pendingWork

/-- The invariant of runs. -/
structure TurnInv (tr : List (Ev Ctl ControlJob ι)) (w : World) : Prop where
  rows : ∀ t ∈ w.tenants.rows, t.Shaped
  work : ∀ i s g, pendingConduct.locs tr i = some (s, some g) → g.Of tr i
  hand : ∀ i, .start i (.fleet .pending) ∈ tr → ∃ s g, pendingConduct.locs tr i = some (s, some g)
  /-- Whoever still has a tenant in hand that was assigned has read it before that. -/
  taken : ∀ a b i tid host e, tr = a ++ e :: b → AssignsAt i tid host e → Uncreated tid b →
    w.NotPending tid ∧ ∀ k s g, pendingConduct.locs tr k = some (s, some g) → tid ∈ g.waiting →
      k ≠ i ∧ ShownPending a k tid

theorem TurnInv.start {w' : World} {i : ι} {j : ControlJob} (h : TurnInv tr w) (hl : pendingConduct.locs tr i = none)
    (hw : w' = w) : TurnInv (tr ++ [.start i j]) w' := by
  subst hw
  have hidle : ∀ k, Idles k (.start i j : Ev Ctl ControlJob ι) := fun k c r he => by cases he
  -- A process that is started has nothing in hand.
  have hloc : ∀ k s g, pendingConduct.locs (tr ++ [.start i j]) k = some (s, some g) →
      (∀ tid, tid ∉ g.waiting) ∧ g.assigned = none ∧ g.booked = none ∨
        pendingConduct.locs tr k = some (s, some g) := by
    intro k s g hl
    rw [Protocol.locs_snoc] at hl
    by_cases e : k = i
    · subst e
      obtain ⟨-, hg⟩ : conduct.init j = s ∧ pendingWork.init j = some g := by
        simpa [Protocol.stepLoc, Protocol.prod] using hl
      left
      unfold pendingWork at hg
      dsimp only at hg
      split at hg
      · obtain rfl := Option.some.inj hg
        exact ⟨fun _ hm => hm, rfl, rfl⟩
      · cases hg
    · exact .inr (by simpa [Protocol.stepLoc, e] using hl)
  refine ⟨h.rows, fun k s g hl => ?_, fun k hk => ?_, fun a b i' tid host e he ha hb => ?_⟩
  · rcases hloc k s g hl with ⟨h₁, h₂, h₃⟩ | hl
    · exact ⟨fun tid ht => absurd ht (h₁ tid), fun tid host e => by simp [h₂] at e, fun tid host e => by simp [h₃] at e⟩
    · exact (h.work k s g hl).snoc (hidle k)
  · rw [Protocol.locs_snoc, Protocol.stepLoc]
    rcases List.mem_append.1 hk with hk | hk
    · obtain ⟨s, g, hg⟩ := h.hand k hk
      refine ⟨s, g, ?_⟩
      rw [Function.update_of_ne, hg]
      rintro rfl
      simp [hl] at hg
    · cases List.mem_singleton.1 hk
      rw [Function.update_self]
      exact ⟨_, _, rfl⟩
  · rcases snoc_eq_cut he with ⟨-, -, rfl⟩ | ⟨b', rfl, rfl⟩
    · obtain ⟨_, _, _, _, _, he⟩ := ha
      cases he
    · obtain ⟨hp, hk⟩ := h.taken a b' i' tid host e rfl ha fun k t ok hm => hb k t ok (List.mem_append_left _ hm)
      refine ⟨hp, fun k s g hl ht => ?_⟩
      rcases hloc k s g hl with ⟨h₁, -⟩ | hl
      · exact absurd ht (h₁ tid)
      · exact hk k s g hl ht

theorem TurnInv.call {i : ι} {g : Set HostId × Option PendingWork} (h : TurnInv tr w)
    (hl : pendingConduct.locs tr i = some g) (ha : pendingConduct.allow g c) (hs : World.step c r w w') :
    pendingConduct.sane g c r ∧ TurnInv (tr ++ [.call i c r]) w' := by
  have hread := readsShaped_step h.rows hs
  have honce : readsOnce c r := by
    cases c <;> first | trivial | skip
    case scanTenants f => exact (hs.1.map _).nodup_iff.2 (w.tenants.nodup.sublist (List.filter_sublist.map _))
  -- The caller has moved on, the others are as before.
  have hloc : ∀ k s p, pendingConduct.locs (tr ++ [.call i c r]) k = some (s, some p) →
      (k = i ∧ ∃ s₀ p₀, pendingConduct.locs tr i = some (s₀, some p₀) ∧ p₀.allows c ∧ p = p₀.next c r) ∨
        (k ≠ i ∧ pendingConduct.locs tr k = some (s, some p)) := by
    intro k s p hk
    rw [Protocol.locs_snoc, Protocol.stepLoc] at hk
    by_cases e : k = i
    · subst e
      obtain ⟨s₀, p₀⟩ := g
      rw [Function.update_self, hl, Option.map_some] at hk
      obtain ⟨-, hp⟩ := Prod.mk.inj (Option.some.inj hk)
      obtain ⟨p₀, rfl, rfl⟩ := Option.map_eq_some_iff.1 hp
      exact .inl ⟨rfl, s₀, p₀, hl, ha.2, rfl⟩
    · exact .inr ⟨e, by rwa [Function.update_of_ne e] at hk⟩
  refine ⟨⟨hread, hread, honce⟩, shaped_step ha.1.1 h.rows hs, fun k s p hk => ?_, fun k hk => ?_,
    fun a b i' tid host e he hat hb => ?_⟩
  · rcases hloc k s p hk with ⟨rfl, s₀, p₀, hl₀, hp₀, rfl⟩ | ⟨hne, hk⟩
    · exact (h.work k s₀ p₀ hl₀).next hp₀ r
    · refine (h.work k s p hk).snoc fun c' r' he => ?_
      cases he
      exact absurd rfl hne
  · rcases List.mem_append.1 hk with hk | hk
    · obtain ⟨s, p, hp⟩ := h.hand k hk
      rw [Protocol.locs_snoc, Protocol.stepLoc]
      by_cases e : k = i
      · subst e
        obtain rfl := Option.some.inj (hl.symm.trans hp)
        rw [Function.update_self, hp]
        exact ⟨_, _, rfl⟩
      · rw [Function.update_of_ne e]
        exact ⟨s, p, hp⟩
    · cases List.mem_singleton.1 hk
  · rcases snoc_eq_cut he with ⟨rfl, rfl, rfl⟩ | ⟨b', rfl, rfl⟩
    · obtain rfl : i = i' := by
        obtain ⟨_, _, _, _, _, he⟩ := hat
        cases he
        rfl
      refine ⟨notPending_of_assigned hat hs, fun k s p hk ht => ?_⟩
      rcases hloc k s p hk with ⟨rfl, s₀, p₀, -, -, rfl⟩ | ⟨hne, hk⟩
      · obtain ⟨_, _, _, _, _, he⟩ := hat
        cases he
        exact absurd rfl ht.2
      · exact ⟨hne, (h.work k s p hk).waiting tid ht⟩
    · obtain ⟨hp, hothers⟩ := h.taken a b' i' tid host e rfl hat fun k t ok hm => hb k t ok (List.mem_append_left _ hm)
      have hput : ∀ t, c = .putTenant t → t.id ≠ tid := by
        rintro t rfl
        exact hb i t r (List.mem_append_right _ (List.mem_singleton_self _))
      refine ⟨hp.step ha.1.1 hput hs, fun k s p hk ht => ?_⟩
      rcases hloc k s p hk with ⟨rfl, s₀, p₀, hl₀, -, rfl⟩ | ⟨-, hk⟩
      · exact hothers k s₀ p₀ hl₀ (hp.not_waiting hs ht)
      · exact hothers k s p hk ht

/-- The invariant holds of every run. -/
theorem turnInv (h₀ : ∀ t ∈ w₀.tenants.rows, t.Shaped)
    (h : Reach ctl (controlJobs cfg) anyStep (Conf.idle w₀) tr cf) : TurnInv tr cf.world ∧
      (∀ i, cf.proc i = none → pendingConduct.locs tr i = none) ∧ ∀ i j p, cf.proc i = some (j, p) →
        ∃ g, pendingConduct.locs tr i = some g ∧ p.obeys pendingConduct (fun _ _ => True) g := by
  refine Reach.protocol (I := TurnInv) (fun j => ?_) ?_ (fun tr w i j w' hI hl _ hb => hI.start hl hb)
    (fun tr w i g c r w' hI hl ha _ hs => hI.call hl ha hs) h
  · exact Prog.obeys_mono (fun _ _ _ => trivial) (Prog.obeys_prod (controlBody_conduct j) (controlBody_pendingWork j))
  · refine ⟨h₀, fun i s g hl => (by cases hl), fun i hm => absurd hm List.not_mem_nil, fun a b i tid host e he => ?_⟩
    exact absurd he (by simp)

/-- What the invocations of `process_pending` do with the pending tenants. -/
structure AssignedInTurn (tr : List (Ev Ctl ControlJob ι)) : Prop where
  /-- Whoever assigns a tenant has read it as pending. -/
  shown : ∀ a b i tid host e, tr = a ++ e :: b → AssignsAt i tid host e → ShownPending a i tid
  /-- Of two assignments of a tenant the later one is by another invocation, which had read the tenant before the first. -/
  apart : ∀ a b c i i' tid host host' e e', tr = a ++ e :: (b ++ e' :: c) → AssignsAt i tid host e →
    AssignsAt i' tid host' e' → Uncreated tid b → i' ≠ i ∧ ShownPending a i' tid
  /-- Every booking comes right after an assignment to the host. -/
  booked : ∀ a b i host e, tr = a ++ e :: b → .start i (.fleet .pending) ∈ a → BooksAt i host e →
    ∃ tid, AssignedBy a i tid host
  /-- Every launch comes right after the booking for an assignment of the tenant to the host. -/
  launched : ∀ a b i tid host e, tr = a ++ e :: b → .start i (.fleet .pending) ∈ a → LaunchesAt i tid host e →
    BookedFor a i tid host

/-- **Pending tenants are assigned in turn.** In every run of the programs that starts with shaped rows, an invocation of
`process_pending` assigns a tenant, books a host and launches a VM in this order, once for each assignment, and only for
a tenant that it has read as pending. A tenant that is not created anew is assigned twice only by two invocations that had
both read it before the first assignment. -/
theorem assigned_in_turn (h₀ : ∀ t ∈ w₀.tenants.rows, t.Shaped)
    (h : Reach ctl (controlJobs cfg) anyStep (Conf.idle w₀) tr cf) : AssignedInTurn tr := by
  have hat : ∀ {a b i c} {r : Ctl.Ans c}, tr = a ++ .call i c r :: b → ∃ w g, TurnInv a w ∧
      pendingConduct.locs a i = some g ∧ pendingConduct.allow g c := by
    intro a b i c r ht
    obtain ⟨w, g, -, hI, hl, ha, -⟩ := Reach.protocol_at (fun _ _ => turnInv h₀) h ht
    exact ⟨w, g, hI, hl, ha⟩
  -- Who assigns has the tenant in hand.
  have hassign : ∀ {a b i tid host e}, tr = a ++ e :: b → AssignsAt i tid host e → ∃ w s g, TurnInv a w ∧
      pendingConduct.locs a i = some (s, some g) ∧ tid ∈ g.waiting := by
    rintro a b i tid host e ht ⟨n, ip, port, v, now, rfl⟩
    obtain ⟨w, ⟨s, g⟩, hI, hl, ha⟩ := hat ht
    cases g with
    | none => cases ha.2
    | some g => exact ⟨w, s, g, hI, hl, ha.2 rfl⟩
  have hhand : ∀ {a b i c} {r : Ctl.Ans c}, tr = a ++ .call i c r :: b → .start i (.fleet .pending) ∈ a →
      ∃ g : PendingWork, g.Of a i ∧ g.allows c := by
    intro a b i c r ht hs
    obtain ⟨w, g, hI, hl, ha⟩ := hat ht
    obtain ⟨s, p, hp⟩ := hI.hand i hs
    obtain rfl := Option.some.inj (hl.symm.trans hp)
    exact ⟨p, hI.work i s p hp, ha.2⟩
  refine ⟨fun a b i tid host e ht he => ?_, fun a b c i i' tid host host' e e' ht he he' hb => ?_,
    fun a b i host e ht hs he => ?_, fun a b i tid host e ht hs he => ?_⟩
  · obtain ⟨w, s, g, hI, hl, hg⟩ := hassign ht he
    exact (hI.work i s g hl).waiting tid hg
  · obtain ⟨w, s, g, hI, hl, hg⟩ := hassign (a := a ++ e :: b) (b := c) (by simp [ht]) he'
    exact (hI.taken a b i tid host e rfl he hb).2 i' s g hl hg
  · obtain ⟨v, m, n, row, rfl⟩ := he
    obtain ⟨g, hg, tid, ha⟩ := hhand ht hs
    exact ⟨tid, hg.assigned tid host ha⟩
  · obtain ⟨cmd, r, rfl, hc⟩ := he
    obtain ⟨g, hg, ha⟩ := hhand ht hs
    obtain ⟨host', hhost, hb⟩ := ha tid hc
    obtain rfl := Option.some.inj hhost
    exact hg.booked tid host hb

end Runs

/-! ## A tenant assigned twice -/

section Examples

/-- Two invocations scan the pending tenant, and then both go through with it. -/
def secondScanMoves : List (Move ControlJob ℕ Hint) :=
  List.flatten [[.start 0 (.fleet .pending), .start 1 (.fleet .pending), .call 0 {}, .call 1 {}],
    List.replicate 3 (.call 0 {}), List.replicate 3 (.call 1 {})]

/-- The process assigns the tenant. -/
def assignsNow (i : ℕ) (tid : TenantId) (host : HostId) : Ev Ctl ControlJob ℕ → Bool
  | .call k (.updTenant id (.assign h _ _ _ _ _)) ok => k = i && id = tid && h = host && ok
  | _ => false

theorem assignsNow_sound {i : ℕ} {tid : TenantId} {host : HostId} {e : Ev Ctl ControlJob ℕ}
    (h : assignsNow i tid host e = true) : AssignsAt i tid host e := by
  unfold assignsNow at h
  split at h
  · simp only [Bool.and_eq_true, decide_eq_true_eq] at h
    obtain ⟨⟨⟨rfl, rfl⟩, rfl⟩, rfl⟩ := h
    exact ⟨_, _, _, _, _, rfl⟩
  · cases h

theorem pendingWorld_shaped : ∀ t ∈ pendingWorld.tenants.rows, t.Shaped := by
  intro t ht
  obtain rfl := List.mem_singleton.1 ht
  exact ⟨rfl, fun _ => rfl, by rintro p ⟨⟩, by rintro ⟨⟩, by rintro (h | h) <;> cases h⟩

/-- Both assign it. -/
theorem assigned_in_turn_twice : ∃ (tr : List (Ev Ctl ControlJob ℕ)) (cf : Conf Ctl World ControlJob ℕ Unit),
    Reach ctl (controlJobs {}) anyStep (Conf.idle pendingWorld) tr cf ∧
    (∃ e ∈ tr, AssignsAt 0 "p-0000" "i-1" e) ∧ (∃ e ∈ tr, AssignsAt 1 "p-0000" "i-1" e) ∧ AssignedInTurn tr := by
  have hplay : ((ctlOracle.play (controlJobs {}) (fun _ w => some w) (fun _ _ _ => true) [] (Conf.idle pendingWorld)
      secondScanMoves).any fun x => x.1.any (assignsNow 0 "p-0000" "i-1") && x.1.any (assignsNow 1 "p-0000" "i-1")) =
        true := by
    decide +kernel
  obtain ⟨tr, cf, hr, hp⟩ := Oracle.exists_reach_of_play (fun _ _ _ h => (Option.some.inj h).symm)
    (fun _ _ _ _ => trivial) hplay
  obtain ⟨h₁, h₂⟩ := Bool.and_eq_true_iff.1 hp
  obtain ⟨e₁, hm₁, he₁⟩ := List.any_eq_true.1 h₁
  obtain ⟨e₂, hm₂, he₂⟩ := List.any_eq_true.1 h₂
  exact ⟨tr, cf, hr, ⟨e₁, hm₁, assignsNow_sound he₁⟩, ⟨e₂, hm₂, assignsNow_sound he₂⟩,
    assigned_in_turn pendingWorld_shaped hr⟩

end Examples

end OpenClaw
