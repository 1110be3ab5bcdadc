import OpenClaw.Control.Execute
import OpenClaw.Fleet.Conduct
import OpenClaw.Lib.Moments
import OpenClaw.Lib.Plus

/-!
# Scaling in

The scaler terminates a host in two ticks: one marks it `idle` when it has been empty for `IDLE_TIMEOUT`, a later one
that finds it idle and empty asks the ASG to terminate it.

- `scalerHandler`: the handler with its calls to the ASG, which `scalerTick` leaves out.
- `scaleProtocol`: a tick marks and terminates only what its scan showed ready for it.
- `terminated_after_two_looks`: what the two ticks have seen before a host is terminated, whatever else is at work.
-/

namespace OpenClaw

open Keyed Atomic

variable (cfg : Config)

/-! ## The handler -/

inductive AsgCall
  /-- `describe_auto_scaling_groups`: the desired capacity and the minimum. -/
  | describe
  | terminate (h : HostId)

abbrev AsgCall.Ans : AsgCall → Type
  | .describe => Option (Int × Int)
  | .terminate _ => Bool

abbrev Asg : Sig := ⟨AsgCall, AsgCall.Ans⟩

abbrev Scale : Sig := Ctl.plus Asg

abbrev ScaleProg := Prog Scale

abbrev askCtl (c : Call) : ScaleProg c.Ans := @Prog.lift Scale (.inl c)

abbrev askAsg (d : AsgCall) : ScaleProg d.Ans := @Prog.lift Scale (.inr d)

@[simp] theorem askCtl_bind {β : Type} (c : Call) (f : c.Ans → ScaleProg β) :
    @Bind.bind ScaleProg _ (no_index c.Ans) β (askCtl c) f = @Prog.call Scale β (.inl c) f := rfl

@[simp] theorem askAsg_bind {β : Type} (d : AsgCall) (f : d.Ans → ScaleProg β) :
    @Bind.bind ScaleProg _ (no_index d.Ans) β (askAsg d) f = @Prog.call Scale β (.inr d) f := rfl

/-- `_can_scale_in`; `none` is an exception. -/
def canScaleIn : ScaleProg (Option Bool) := do
  let group ← askAsg .describe
  pure (group.map fun g => decide (g.2 < g.1))

/-- One host of the handler's loop, as `reconcileHost` but for the last branch. -/
def scaleHost (now : Time) (h : HostRow) : ScaleProg Bool :=
  if h.vmCount.getD 0 ≤ 0 ∧ h.status = some .idle then do
    let ok ← canScaleIn
    match ok with
    | none => pure false
    | some false => pure true
    | some true => do
      -- An exception of the call is caught.
      let _ ← askAsg (.terminate h.instanceId)
      pure true
  else (reconcileHost cfg now h).inl

/-- The handler's loop over the hosts. -/
def scaleHosts (now : Time) : List HostRow → ScaleProg Bool
  | [] => pure true
  | h :: hs => do
    let ok ← scaleHost cfg now h
    if ok then scaleHosts now hs else pure false

/-- `lambda_handler` of the scaler. -/
def scalerHandler : ScaleProg Bool := do
  processTtlExpirations.inl
  let ok ← (reconcileSchedules cfg).inl
  if ok then do
    let now ← askCtl .now
    let hosts ← askCtl (.scanHosts .notDeleted)
    scaleHosts cfg now hosts
  else pure false

/-- The ASG answers what it likes; the end of an instance comes back as `cleanup_terminated_host`. -/
def scaling : Sem Scale World := ctl.plus ⟨fun _ _ w w' => w' = w⟩

inductive ScaleJob
  /-- Any other work of the control plane. -/
  | control (j : ControlJob) (hj : j ≠ .fleet .scaler)
  | scaler

def scaleBody : ScaleJob → ScaleProg Unit
  | .control j _ => (controlBody cfg j).inl
  | .scaler => do
    let _ ← scalerHandler cfg
    pure ()

def scaleJobs : Jobs Scale World ScaleJob Unit where
  body := scaleBody cfg
  start _ w w' := w' = w

/-! ## What the programs may call -/

/-- What a tick has looked at, from its reading of the clock on. -/
structure Look where
  now : Option Time := none
  rows : List HostRow := []
  /-- The last answer of the ASG left room for a termination. -/
  room : Bool := false

/-- The host has been empty for `IDLE_TIMEOUT`. -/
def Look.marks (g : Look) (id : HostId) : Prop :=
  ∃ row ∈ g.rows, row.instanceId = id ∧ row.vmCount.getD 0 ≤ 0 ∧ row.status = some .active ∧
    ∃ now since, g.now = some now ∧ row.idleSince = some since ∧ minutes cfg.idleTimeoutMinutes ≤ now - since

/-- The host is idle and empty. -/
def Look.ends (g : Look) (id : HostId) : Prop :=
  ∃ row ∈ g.rows, row.instanceId = id ∧ row.vmCount.getD 0 ≤ 0 ∧ row.status = some .idle

def Look.allows (g : Look) : Scale.Call → Prop
  | .inl c => c.awake ∨ ∃ id, c = .updHost id (.status .idle) ∧ g.marks cfg id
  | .inr .describe => True
  | .inr (.terminate id) => g.room = true ∧ g.ends id

def Look.next (g : Look) : (c : Scale.Call) → Scale.Ans c → Look
  | .inl .now, t => { now := some t }
  | .inl (.scanHosts .notDeleted), rows => { g with rows := rows }
  | .inr .describe, a => { g with room := a.any fun x => decide (x.2 < x.1) }
  | .inr (.terminate _), _ => { g with room := false }
  | _, _ => g

def scaleProtocol : Protocol Scale ScaleJob (Option Look) where
  init j := match j with
    | .scaler => some {}
    | .control _ _ => none
  allow g c := match g, c with
    | some g, c => g.allows cfg c
    | none, .inl c => c.awake
    | none, .inr _ => False
  sane _ _ _ := True
  next g c r := g.map fun g => g.next c r

section Programs

variable {cfg} {α : Type} {g : Look}

variable (cfg) in
/-- A program without a duty. -/
theorem made_awake {p : CtlProg α} (hp : p.All (Made cfg {})) : p.All Call.awake :=
  hp.mono fun _ h => h.awake id

/-- Programs of the control plane alone. -/
theorem awake_obeys {p : CtlProg α} (hp : p.All Call.awake) :
    ∀ g, p.inl.obeys (scaleProtocol cfg) (fun _ g' => g'.isSome = g.isSome) g := by
  induction p with
  | ret a => exact fun _ => rfl
  | call c k ih =>
    intro g
    cases g with
    | none => exact ⟨hp.1, fun r _ => ih r (hp.2 r) none⟩
    | some g =>
      refine ⟨.inl hp.1, fun r _ => Prog.obeys_mono (fun _ _ h => h) (ih r (hp.2 r) (some (g.next (.inl c) r)))⟩

/-- A host is woken, stamped, marked or terminated as the row says; what the tick has looked at stays. -/
theorem scaleHost_obeys {now : Time} {h : HostRow} (hm : h ∈ g.rows) (hn : g.now = some now) :
    (scaleHost cfg now h).obeys (scaleProtocol cfg)
      (fun _ g' => ∃ g₁, g' = some g₁ ∧ g₁.rows = g.rows ∧ g₁.now = g.now) (some g) := by
  have hself : ∃ g₁, some g = some g₁ ∧ g₁.rows = g.rows ∧ g₁.now = g.now := ⟨g, rfl, rfl, rfl⟩
  unfold scaleHost
  split
  · rename_i hready
    simp only [canScaleIn, askAsg_bind, Prog.pure_eq]
    refine ⟨trivial, fun group _ => ?_⟩
    rcases group with _ | ⟨desired, least⟩
    · exact ⟨_, rfl, rfl, rfl⟩
    · by_cases hroom : least < desired
      · simp only [Option.map_some, hroom, decide_true]
        exact ⟨⟨by simp [Look.next, hroom], h, hm, rfl, hready⟩, fun _ _ => ⟨_, rfl, rfl, rfl⟩⟩
      · simp only [Option.map_some, hroom, decide_false]
        exact ⟨_, rfl, rfl, rfl⟩
  · simp only [reconcileHost, req_bind, Prog.pure_eq]
    split
    · split
      · exact ⟨.inl (by rintro ⟨⟩), fun _ _ => hself⟩
      · exact hself
    · rename_i hempty
      split
      · rename_i hactive
        split
        · exact ⟨.inl trivial, fun _ _ => hself⟩
        · rename_i since hsince
          split
          · rename_i hlong
            refine ⟨.inr ⟨_, rfl, h, hm, rfl, by omega, hactive, now, since, hn, hsince, hlong⟩, fun _ _ => hself⟩
          · exact hself
      · exact hself

theorem scaleHosts_obeys {now : Time} {hs : List HostRow} (hm : ∀ h ∈ hs, h ∈ g.rows) (hn : g.now = some now) :
    (scaleHosts cfg now hs).obeys (scaleProtocol cfg) (fun _ _ => True) (some g) := by
  induction hs generalizing g with
  | nil => trivial
  | cons h hs ih =>
    obtain ⟨hh, hm⟩ := List.forall_mem_cons.1 hm
    rw [scaleHosts, Prog.obeys_bind]
    refine Prog.obeys_mono (fun ok g' hg' => ?_) (scaleHost_obeys hh hn)
    obtain ⟨g₁, rfl, hrows, hnow⟩ := hg'
    cases ok with
    | true => exact ih (fun h' hh' => hrows ▸ hm h' hh') (hnow.trans hn)
    | false => trivial

/-- **Every program keeps to the protocol.** -/
theorem scaleBody_obeys (j : ScaleJob) :
    (scaleBody cfg j).obeys (scaleProtocol cfg) (fun _ _ => True) ((scaleProtocol cfg).init j) := by
  cases j with
  | control j hj =>
    refine Prog.obeys_mono (fun _ _ _ => trivial) (awake_obeys ?_ none)
    refine (controlBody_made j).mono fun _ h => h.awake ?_
    cases j with
    | fleet j => cases j <;> first | exact id | exact absurd rfl hj
    | _ => exact id
  | scaler =>
    have hinit : (scaleProtocol cfg).init .scaler = some {} := rfl
    rw [hinit]
    simp only [scaleBody, scalerHandler, Prog.obeys_bind, askCtl_bind, Prog.pure_eq]
    refine Prog.obeys_mono (fun _ g₁ h₁ => ?_) (awake_obeys (made_awake cfg (processTtlExpirations_made fun _ => trivial)) (some {}))
    refine Prog.obeys_mono (fun ok g₂ h₂ => ?_) (awake_obeys (made_awake cfg (reconcileSchedules_made fun _ => trivial)) g₁)
    obtain ⟨g, rfl⟩ := Option.isSome_iff_exists.1 (h₂.trans h₁)
    cases ok with
    | false => trivial
    | true =>
      refine ⟨.inl trivial, fun now _ => ⟨.inl trivial, fun rows _ => ?_⟩⟩
      exact Prog.obeys_mono (fun _ _ _ => trivial) (scaleHosts_obeys (fun _ hm => hm) rfl)

end Programs

/-! ## Runs -/

section Runs

variable {ι : Type}

/-- The tick marks the host idle. -/
def MarkedAt (i : ι) (host : HostId) (e : Ev Scale ScaleJob ι) : Prop :=
  ∃ row, e = .call i (.inl (.updHost host (.status .idle))) (some row)

/-- The step writes since when the host is empty. -/
def StampedAt (host : HostId) (since : Time) (e : Ev Scale ScaleJob ι) : Prop :=
  (∃ i row, e = .call i (.inl (.updHost host (.idleSince since))) (some row)) ∨
    ∃ i row, e = .call i (.inl (.putHost row)) true ∧ row.instanceId = host ∧ row.idleSince = some since

/-- A create reserves room on the host. -/
def ReservedAt (host : HostId) (e : Ev Scale ScaleJob ι) : Prop :=
  ∃ i c v m n, e = .call i (.inl (.reserveHost host c v m)) (.next n)

def Unreserved (host : HostId) (tr : List (Ev Scale ScaleJob ι)) : Prop := ∀ e ∈ tr, ¬ ReservedAt host e

/-- It was marked, and no create has reserved room there since. -/
def IdledIn (tr : List (Ev Scale ScaleJob ι)) (host : HostId) : Prop :=
  ∃ a b i e, tr = a ++ e :: b ∧ MarkedAt i host e ∧ Unreserved host b

/-- It was stamped, and no create has reserved room there since. -/
def StampedIn (tr : List (Ev Scale ScaleJob ι)) (host : HostId) (since : Time) : Prop :=
  ∃ a b e, tr = a ++ e :: b ∧ StampedAt host since e ∧ Unreserved host b

/-- The scan of the tick comes after `a` and shows the row. -/
def ShownAt (tr a : List (Ev Scale ScaleJob ι)) (i : ι) (row : HostRow) : Prop :=
  ∃ b, ∃ rows : List HostRow, tr = a ++ .call i (.inl (.scanHosts .notDeleted)) rows :: b ∧ row ∈ rows

/-- The tick has seen the host active and empty for `IDLE_TIMEOUT`, with nothing reserved there in that time. -/
def FirstLook (tr : List (Ev Scale ScaleJob ι)) (i : ι) (host : HostId) : Prop :=
  ∃ a row now since, ShownAt tr a i row ∧ row.instanceId = host ∧ row.vmCount.getD 0 ≤ 0 ∧ row.status = some .active ∧
    .call i (.inl .now) now ∈ a ∧ row.idleSince = some since ∧ minutes cfg.idleTimeoutMinutes ≤ now - since ∧
    StampedIn a host since

/-- The tick has seen the host idle and empty, and nothing was reserved there since a first look led to the mark. -/
def SecondLook (tr : List (Ev Scale ScaleJob ι)) (i : ι) (host : HostId) : Prop :=
  ∃ a row b c k e, ShownAt tr a i row ∧ row.instanceId = host ∧ row.vmCount.getD 0 ≤ 0 ∧ row.status = some .idle ∧
    a = b ++ e :: c ∧ MarkedAt k host e ∧ Unreserved host c ∧ FirstLook cfg b k host

/-- The ASG has told the tick of room for one termination, which it has not asked for yet. -/
def RoomLeft (tr : List (Ev Scale ScaleJob ι)) (i : ι) : Prop :=
  ∃ a b desired least, tr = a ++ .call i (.inr .describe) (some (desired, least)) :: b ∧ least < desired ∧
    ∀ h r, .call i (.inr (.terminate h)) r ∉ b

/-! ### Rows -/

/-- What a row says of the run. -/
structure RowKnown (tr : List (Ev Scale ScaleJob ι)) (row : HostRow) : Prop where
  idle : row.status = some .idle → IdledIn tr row.instanceId
  since : ∀ s, row.idleSince = some s → StampedIn tr row.instanceId s

variable {cfg} {tr : List (Ev Scale ScaleJob ι)} {e : Ev Scale ScaleJob ι} {i : ι} {w w' : World}

theorem unreserved_snoc {host : HostId} {b : List (Ev Scale ScaleJob ι)} (hb : Unreserved host b)
    (he : ¬ ReservedAt host e) : Unreserved host (b ++ [e]) := by
  intro e' hm
  rcases List.mem_append.1 hm with hm | hm
  · exact hb e' hm
  · exact List.mem_singleton.1 hm ▸ he

theorem not_reservedAt {c : Call} {r : c.Ans} (hc : ∀ id cond v m, c ≠ .reserveHost id cond v m) (host : HostId) :
    ¬ ReservedAt host (.call i (.inl c) r : Ev Scale ScaleJob ι) := by
  rintro ⟨_, cond, v, m, n, he⟩
  cases he
  exact hc _ _ _ _ rfl

theorem RowKnown.snoc {row : HostRow} (h : RowKnown tr row) (he : ¬ ReservedAt row.instanceId e) :
    RowKnown (tr ++ [e]) row := by
  refine ⟨fun hs => ?_, fun s hs => ?_⟩
  · obtain ⟨a, b, k, e', rfl, hm, hb⟩ := h.idle hs
    exact ⟨a, b ++ [e], k, e', by simp, hm, unreserved_snoc hb he⟩
  · obtain ⟨a, b, e', rfl, hm, hb⟩ := h.since s hs
    exact ⟨a, b ++ [e], e', by simp, hm, unreserved_snoc hb he⟩

/-- A row with no more marks than another. -/
theorem RowKnown.of {row row' : HostRow} (h : RowKnown tr row) (hid : row'.instanceId = row.instanceId)
    (hs : row'.status = some .idle → row.status = some .idle)
    (hi : ∀ s, row'.idleSince = some s → row.idleSince = some s) : RowKnown tr row' :=
  ⟨fun h' => hid ▸ h.idle (hs h'), fun s h' => hid ▸ h.since s (hi s h')⟩

theorem rowKnown_new (id : HostId) : RowKnown tr { instanceId := id } :=
  ⟨fun h => (by cases h), fun s h => by cases h⟩

/-- What updates leave of the marks. -/
theorem HostUpdate.apply_marks {u : HostUpdate} {h h' : HostRow} (hu : u.apply h = some h') :
    (h'.status = some .idle → h.status = some .idle ∨ u = .status .idle) ∧
      ∀ s, h'.idleSince = some s → h.idleSince = some s ∨ u = .idleSince s := by
  cases u
  case reserve =>
    obtain ⟨_, _, _, _, -, -, -, -, rfl⟩ := reserve_eq_some.1 hu
    exact ⟨fun h => (by cases h), fun s h => by cases h⟩
  case release =>
    obtain ⟨_, _, _, -, -, -, rfl⟩ := release_eq_some.1 hu
    exact ⟨.inl, fun _ => .inl⟩
  case book =>
    obtain ⟨_, _, _, -, -, -, rfl⟩ := book_eq_some.1 hu
    exact ⟨.inl, fun _ => .inl⟩
  case addVcpu =>
    obtain ⟨_, -, rfl⟩ := addVcpu_eq_some.1 hu
    exact ⟨.inl, fun _ => .inl⟩
  case status s =>
    obtain rfl := Option.some.inj hu
    exact ⟨fun h => .inr (Option.some.inj h ▸ rfl), fun _ => .inl⟩
  case idleSince now =>
    obtain rfl := Option.some.inj hu
    exact ⟨.inl, fun s h => .inr (Option.some.inj h ▸ rfl)⟩
  all_goals
    obtain rfl := Option.some.inj hu
    exact ⟨.inl, fun _ => .inl⟩

/-- **What the rows say stays true.** -/
theorem rowKnown_step {c : Call} {r : c.Ans} (hI : ∀ row ∈ w.hosts.rows, RowKnown tr row)
    (ha : c.awake ∨ ∃ id, c = .updHost id (.status .idle)) (hs : World.step c r w w') :
    ∀ row ∈ w'.hosts.rows, RowKnown (tr ++ [.call i (.inl c) r]) row := by
  have hold : ∀ {row}, row ∈ w.hosts.rows → ¬ ReservedAt row.instanceId (.call i (.inl c) r : Ev Scale ScaleJob ι) →
      RowKnown (tr ++ [.call i (.inl c) r]) row := fun hm he => (hI _ hm).snoc he
  have hkeep : (∀ id, ¬ ReservedAt id (.call i (.inl c) r : Ev Scale ScaleJob ι)) →
      ∀ row ∈ w.hosts.rows, RowKnown (tr ++ [.call i (.inl c) r]) row := fun he row hm => hold hm (he _)
  -- The row that an update starts from.
  have hrow : ∀ id, ¬ ReservedAt id (.call i (.inl c) r : Ev Scale ScaleJob ι) →
      RowKnown (tr ++ [.call i (.inl c) r]) (w.hostRow id) := by
    intro id he
    unfold World.hostRow HostRow.orNew
    cases hg : w.hosts.get id with
    | none => exact rowKnown_new id
    | some row => exact hold (Table.mem_of_get hg) (Table.key_of_get hg ▸ he)
  by_cases ht : c.writesHosts = false
  · rw [step_hosts ht hs]
    exact hkeep (not_reservedAt (by rintro _ _ _ _ rfl; cases ht))
  · have hput : ∀ {row}, RowKnown (tr ++ [.call i (.inl c) r]) row →
        (∀ row' ∈ w.hosts.rows, row'.instanceId ≠ row.instanceId → RowKnown (tr ++ [.call i (.inl c) r]) row') →
        ∀ row' ∈ (w.putHost row).hosts.rows, RowKnown (tr ++ [.call i (.inl c) r]) row' := by
      intro row h₁ h₂ row' hm
      rcases Table.mem_put.1 hm with rfl | ⟨hm, hne⟩
      · exact h₁
      · exact h₂ row' hm hne
    cases c <;> first | exact absurd rfl ht | skip
    case putHost row =>
      have hno : ∀ id, ¬ ReservedAt id (.call i (.inl (.putHost row)) r : Ev Scale ScaleJob ι) :=
        not_reservedAt (by rintro _ _ _ _ ⟨⟩)
      have hawake : row.status ≠ some .idle := by
        rcases ha with ha | ⟨id, he⟩
        · exact ha
        · cases he
      cases r with
      | false =>
        obtain rfl : w' = w := hs
        exact hkeep hno
      | true =>
        obtain rfl : w' = w.putHost row := hs
        refine hput ⟨fun h => absurd h hawake, fun s h => ?_⟩ fun row' hm _ => hkeep hno row' hm
        exact ⟨tr, [], _, rfl, .inr ⟨i, row, rfl, rfl, h⟩, fun _ hm => absurd hm List.not_mem_nil⟩
    case updHost id u =>
      have hno : ∀ id', ¬ ReservedAt id' (.call i (.inl (.updHost id u)) r : Ev Scale ScaleJob ι) :=
        not_reservedAt (by rintro _ _ _ _ ⟨⟩)
      cases r with
      | none => exact hs ▸ hkeep hno
      | some row =>
        obtain ⟨hu, rfl⟩ := hs
        have hkey : row.instanceId = (w.hostRow id).instanceId := HostUpdate.apply_id hu
        have hid : row.instanceId = id := hkey.trans (World.hostRow_id w id)
        obtain ⟨h₁, h₂⟩ := HostUpdate.apply_marks hu
        refine hput ⟨fun h => ?_, fun s h => ?_⟩ fun row' hm _ => hkeep hno row' hm
        · rcases h₁ h with h | rfl
          · exact hkey ▸ (hrow id (hno id)).idle h
          · exact ⟨tr, [], i, _, rfl, ⟨row, hid ▸ rfl⟩, fun _ hm => absurd hm List.not_mem_nil⟩
        · rcases h₂ s h with h | rfl
          · exact hkey ▸ (hrow id (hno id)).since s h
          · exact ⟨tr, [], _, rfl, .inl ⟨i, row, hid ▸ rfl⟩, fun _ hm => absurd hm List.not_mem_nil⟩
    case reserveHost id cond v m =>
      cases r with
      | next n =>
        obtain ⟨h, h', hget, -, hu, -, rfl⟩ := hs
        obtain ⟨_, _, _, _, -, -, -, -, rfl⟩ := HostUpdate.reserve_eq_some.1 hu
        refine hput ⟨fun h => (by cases h), fun s h => by cases h⟩ fun row' hm hne => hold hm ?_
        rintro ⟨_, _, _, _, _, he⟩
        cases he
        exact hne (Table.key_of_get hget).symm
      | refused =>
        refine hs.2 ▸ hkeep ?_
        rintro id' ⟨_, _, _, _, _, he⟩
        cases he
      | failed =>
        refine hs ▸ hkeep ?_
        rintro id' ⟨_, _, _, _, _, he⟩
        cases he
    case raiseNext id n =>
      have hno : ∀ id', ¬ ReservedAt id' (.call i (.inl (.raiseNext id n)) r : Ev Scale ScaleJob ι) :=
        not_reservedAt (by rintro _ _ _ _ ⟨⟩)
      cases r with
      | done =>
        obtain ⟨-, rfl⟩ := hs
        exact hput ((hrow id (hno id)).of rfl (fun h => h) fun _ h => h) fun row' hm _ => hkeep hno row' hm
      | refused => exact hs.2 ▸ hkeep hno
      | failed => exact hs ▸ hkeep hno
    case incNext id =>
      have hno : ∀ id', ¬ ReservedAt id' (.call i (.inl (.incNext id)) r : Ev Scale ScaleJob ι) :=
        not_reservedAt (by rintro _ _ _ _ ⟨⟩)
      cases r with
      | none => exact hs ▸ hkeep hno
      | some old =>
        obtain ⟨-, row, hu, rfl⟩ := hs
        obtain rfl := Option.some.inj hu
        exact hput ((hrow id (hno id)).of rfl (fun h => h) fun _ h => h) fun row' hm _ => hkeep hno row' hm
    case deleteHost id =>
      have hno : ∀ id', ¬ ReservedAt id' (.call i (.inl (.deleteHost id)) r : Ev Scale ScaleJob ι) :=
        not_reservedAt (by rintro _ _ _ _ ⟨⟩)
      rcases sent.eq_or hs with rfl | rfl
      · exact fun row hm => hkeep hno row (Table.mem_erase.1 hm).1
      · exact hkeep hno

/-! ### Ticks -/

/-- What a tick has looked at is what the run says. -/
structure Look.Of (g : Look) (tr : List (Ev Scale ScaleJob ι)) (i : ι) : Prop where
  rows : ∀ row ∈ g.rows, ∃ a, ShownAt tr a i row ∧ RowKnown a row ∧ ∀ t, g.now = some t → .call i (.inl .now) t ∈ a
  now : ∀ t, g.now = some t → .call i (.inl .now) t ∈ tr
  room : g.room = true → RoomLeft tr i

theorem ShownAt.snoc {a : List (Ev Scale ScaleJob ι)} {row : HostRow} (h : ShownAt tr a i row) :
    ShownAt (tr ++ [e]) a i row := by
  obtain ⟨b, rows, rfl, hm⟩ := h
  exact ⟨b ++ [e], rows, by simp, hm⟩

theorem RoomLeft.snoc (h : RoomLeft tr i) (he : ∀ h r, e ≠ .call i (.inr (.terminate h)) r) :
    RoomLeft (tr ++ [e]) i := by
  obtain ⟨a, b, desired, least, rfl, hlt, hb⟩ := h
  refine ⟨a, b ++ [e], desired, least, by simp, hlt, fun h r hm => ?_⟩
  rcases List.mem_append.1 hm with hm | hm
  · exact hb h r hm
  · exact he h r (List.mem_singleton.1 hm).symm

theorem Look.Of.snoc {g : Look} (h : g.Of tr i) (he : ∀ h r, e ≠ .call i (.inr (.terminate h)) r) :
    g.Of (tr ++ [e]) i := by
  refine ⟨fun row hm => ?_, fun t ht => List.mem_append_left _ (h.now t ht), fun hr => (h.room hr).snoc he⟩
  obtain ⟨a, hs, hk⟩ := h.rows row hm
  exact ⟨a, hs.snoc, hk⟩

/-- A step of its own. -/
theorem Look.Of.next {g : Look} (h : g.Of tr i) (hI : ∀ row ∈ w.hosts.rows, RowKnown tr row) (c : Scale.Call)
    (r : Scale.Ans c) (hs : scaling.step c r w w') : (g.next c r).Of (tr ++ [.call i c r]) i := by
  have hlast : ∀ {c : Scale.Call} {r : Scale.Ans c}, .call i c r ∈ tr ++ [(.call i c r : Ev Scale ScaleJob ι)] :=
    List.mem_append_right _ (List.mem_singleton_self _)
  rcases c with c | d
  · have hkeep : g.Of (tr ++ [.call i (.inl c) r]) i := h.snoc fun _ _ he => by cases he
    cases c <;> first | exact hkeep | skip
    case now =>
      refine ⟨fun row hm => absurd hm List.not_mem_nil, fun t ht => ?_, fun hr => by cases hr⟩
      obtain rfl := Option.some.inj ht
      exact hlast
    case scanHosts f =>
      cases f <;> first | exact hkeep | skip
      refine ⟨fun row hm => ⟨tr, ⟨[], r, rfl, hm⟩, hI row ?_, h.now⟩, hkeep.now, hkeep.room⟩
      exact (List.mem_filter.1 (hs.1.mem_iff.1 hm)).1
  · have hrows : ∀ {e : Ev Scale ScaleJob ι}, ∀ row ∈ g.rows, ∃ a, ShownAt (tr ++ [e]) a i row ∧ RowKnown a row ∧
        ∀ t, g.now = some t → .call i (.inl .now) t ∈ a := by
      intro e row hm
      obtain ⟨a, hs, hk⟩ := h.rows row hm
      exact ⟨a, hs.snoc, hk⟩
    cases d with
    | describe =>
      refine ⟨hrows, fun t ht => List.mem_append_left _ (h.now t ht), fun hr => ?_⟩
      obtain ⟨⟨desired, least⟩, rfl, hlt⟩ := (Option.any_eq_true _ _).1 hr
      exact ⟨tr, [], desired, least, rfl, of_decide_eq_true hlt, fun _ _ hm => absurd hm List.not_mem_nil⟩
    | terminate host =>
      exact ⟨hrows, fun t ht => List.mem_append_left _ (h.now t ht), fun hr => by cases hr⟩

/-- The invariant of runs. -/
structure ScaleInv (tr : List (Ev Scale ScaleJob ι)) (w : World) (loc : ι → Option (Option Look)) : Prop where
  rows : ∀ row ∈ w.hosts.rows, RowKnown tr row
  looks : ∀ i g, loc i = some (some g) → g.Of tr i

variable [DecidableEq ι] {w₀ : World} {cf : Conf Scale World ScaleJob ι Unit}

theorem ScaleInv.start {j : ScaleJob} (h : ScaleInv tr w ((scaleProtocol cfg).locs tr)) (hw : w' = w) :
    ScaleInv (tr ++ [.start i j]) w' ((scaleProtocol cfg).locs (tr ++ [.start i j])) := by
  subst hw
  refine ⟨fun row hm => (h.rows row hm).snoc ?_, fun k g hl => ?_⟩
  · rintro ⟨_, _, _, _, _, he⟩
    cases he
  · rw [Protocol.locs_snoc, Protocol.stepLoc] at hl
    by_cases e : k = i
    · subst e
      rw [Function.update_self] at hl
      cases j with
      | control j hj => cases Option.some.inj hl
      | scaler =>
        obtain rfl := Option.some.inj (Option.some.inj hl)
        exact ⟨fun row hm => absurd hm List.not_mem_nil, fun t ht => (by cases ht), fun hr => by cases hr⟩
    · rw [Function.update_of_ne e] at hl
      exact (h.looks k g hl).snoc fun _ _ he => by cases he

theorem ScaleInv.call {g : Option Look} {c : Scale.Call} {r : Scale.Ans c}
    (h : ScaleInv tr w ((scaleProtocol cfg).locs tr)) (hl : (scaleProtocol cfg).locs tr i = some g)
    (ha : (scaleProtocol cfg).allow g c) (hs : scaling.step c r w w') :
    ScaleInv (tr ++ [.call i c r]) w' ((scaleProtocol cfg).locs (tr ++ [.call i c r])) := by
  refine ⟨?_, fun k p hk => ?_⟩
  · cases c with
    | inl c =>
      refine rowKnown_step h.rows ?_ hs
      cases g with
      | none => exact .inl ha
      | some g => exact ha.imp_right fun ⟨id, he, _⟩ => ⟨id, he⟩
    | inr d =>
      obtain rfl : w' = w := hs
      refine fun row hm => (h.rows row hm).snoc ?_
      rintro ⟨_, _, _, _, _, he⟩
      cases he
  · rw [Protocol.locs_snoc, Protocol.stepLoc] at hk
    by_cases e : k = i
    · subst e
      rw [Function.update_self, hl, Option.map_some] at hk
      obtain ⟨g₀, rfl, rfl⟩ := Option.map_eq_some_iff.1 (Option.some.inj hk)
      exact (h.looks k g₀ hl).next h.rows c r hs
    · rw [Function.update_of_ne e] at hk
      refine (h.looks k p hk).snoc fun _ _ he => ?_
      cases he
      exact e rfl

/-- The invariant holds of every run. -/
theorem scaleInv (h₀ : ∀ row ∈ w₀.hosts.rows, row.status ≠ some .idle ∧ row.idleSince = none)
    (h : Reach scaling (scaleJobs cfg) anyStep (Conf.idle w₀) tr cf) :
    ScaleInv tr cf.world ((scaleProtocol cfg).locs tr) ∧
      (∀ i, cf.proc i = none → (scaleProtocol cfg).locs tr i = none) ∧ ∀ i j p, cf.proc i = some (j, p) →
        ∃ g, (scaleProtocol cfg).locs tr i = some g ∧ p.obeys (scaleProtocol cfg) (fun _ _ => True) g := by
  refine Reach.protocol (I := fun tr w => ScaleInv tr w ((scaleProtocol cfg).locs tr)) scaleBody_obeys ?_
    (fun tr w i j w' hI _ _ hb => hI.start hb) (fun tr w i g c r w' hI hl ha _ hs => ⟨trivial, hI.call hl ha hs⟩) h
  refine ⟨fun row hm => ⟨fun hs => absurd hs (h₀ row hm).1, fun s hs => ?_⟩, fun i g hl => by cases hl⟩
  rw [(h₀ row hm).2] at hs
  cases hs

/-- **A host is terminated after two looks.** In every run of the scaler's ticks and all the other programs that starts with
no host idle or stamped, a tick asks to terminate a host only if its own scan shows the host idle and empty, and only once
for each answer of the ASG that leaves room. Some tick has marked the host idle before that scan, and no create has
reserved room on it in between. That tick had seen it active and empty with an `idle_since` that was `IDLE_TIMEOUT` old,
and no create had reserved room there between the writing of `idle_since` and its scan. -/
theorem terminated_after_two_looks (h₀ : ∀ row ∈ w₀.hosts.rows, row.status ≠ some .idle ∧ row.idleSince = none)
    (h : Reach scaling (scaleJobs cfg) anyStep (Conf.idle w₀) tr cf) {a b : List (Ev Scale ScaleJob ι)} {host : HostId}
    {ok : Bool} (ht : tr = a ++ .call i (.inr (.terminate host)) ok :: b) : SecondLook cfg a i host ∧ RoomLeft a i := by
  have hat : ∀ {a b i c} {r : Scale.Ans c}, tr = a ++ .call i c r :: b → ∃ w g,
      ScaleInv a w ((scaleProtocol cfg).locs a) ∧ (scaleProtocol cfg).locs a i = some g ∧
        (scaleProtocol cfg).allow g c := by
    intro a b i c r ht
    obtain ⟨w, g, -, hI, hl, ha, -⟩ := Reach.protocol_at (π := scaleProtocol cfg)
      (I := fun tr w => ScaleInv tr w ((scaleProtocol cfg).locs tr)) (fun _ _ => scaleInv h₀) h ht
    exact ⟨w, g, hI, hl, ha⟩
  obtain ⟨w, g, hI, hl, ha⟩ := hat ht
  cases g with
  | none => exact ha.elim
  | some g =>
    obtain ⟨hroom, row, hm, rfl, hempty, hidle⟩ := ha
    have hof := hI.looks i g hl
    refine ⟨?_, hof.room hroom⟩
    obtain ⟨a', hshown, hknown, -⟩ := hof.rows row hm
    obtain ⟨b', c, k, e, rfl, hmark, hc⟩ := hknown.idle hidle
    refine ⟨_, row, b', c, k, e, hshown, rfl, hempty, hidle, rfl, hmark, hc, ?_⟩
    -- The mark was allowed.
    obtain ⟨x, rfl⟩ := hmark
    obtain ⟨m, rows, rfl, -⟩ := hshown
    obtain ⟨w₁, g₁, hI₁, hl₁, ha₁⟩ := hat (a := b') (by simpa using ht)
    cases g₁ with
    | none => exact absurd rfl ha₁
    | some g₁ =>
      rcases ha₁ with ha₁ | ⟨id, he, row₁, hm₁, hid, hempty₁, hactive, now, since, hnow, hsince, hlong⟩
      · exact absurd rfl ha₁
      · cases he
        obtain ⟨a₁, hshown₁, hknown₁, hclock⟩ := (hI₁.looks k g₁ hl₁).rows row₁ hm₁
        exact ⟨a₁, row₁, now, since, hshown₁, hid, hempty₁, hactive, hclock now hnow, hsince, hlong,
          hid ▸ hknown₁.since since hsince⟩

end Runs

/-! ## A host that is terminated -/

section Examples

/-- The group has two hosts and may do with one. -/
def scaleOracle : Oracle scaling Hint := ctlOracle.plus
  { exec := fun d h w =>
      match d with
      | .describe => some (some (2, 1), w)
      | .terminate _ => some (h.ok, w)
    sound := fun {d} _ _ _ _ he => by cases d <;> exact (Prod.mk.inj (Option.some.inj he)).2.symm }

/-- Three ticks: one stamps the empty host, one marks it half an hour later, the last one terminates it. -/
def threeTicks : List (Move ScaleJob ℕ Hint) :=
  List.flatten [[.start 0 .scaler], List.replicate 7 (.call 0 {}),
    [.start 1 .scaler], List.replicate 7 (.call 1 { time := minutes 30 }),
    [.start 2 .scaler], List.replicate 8 (.call 2 { time := minutes 30 })]

/-- An empty host in service. -/
def emptyFleet : World where
  tenants := ⟨[], List.nodup_nil⟩
  hosts := ⟨[emptyHost "i-1" 1], List.nodup_singleton _⟩

theorem emptyFleet_unmarked : ∀ row ∈ emptyFleet.hosts.rows, row.status ≠ some .idle ∧ row.idleSince = none := by
  intro row hm
  obtain rfl := List.mem_singleton.1 hm
  decide

/-- The tick asks to terminate the host. -/
def terminatesNow (i : ℕ) (host : HostId) : Ev Scale ScaleJob ℕ → Bool
  | .call k (.inr (.terminate h)) _ => k = i && h = host
  | _ => false

theorem terminatesNow_sound {i : ℕ} {host : HostId} {e : Ev Scale ScaleJob ℕ} (h : terminatesNow i host e = true) :
    ∃ ok, e = .call i (.inr (.terminate host)) ok := by
  unfold terminatesNow at h
  split at h
  · simp only [Bool.and_eq_true, decide_eq_true_eq] at h
    obtain ⟨rfl, rfl⟩ := h
    exact ⟨_, rfl⟩
  · cases h

/-- The third tick asks. -/
theorem terminated_after_two_looks_third : ∃ (tr a b : List (Ev Scale ScaleJob ℕ))
    (cf : Conf Scale World ScaleJob ℕ Unit) (ok : Bool), Reach scaling (scaleJobs {}) anyStep (Conf.idle emptyFleet) tr cf ∧
    tr = a ++ .call 2 (.inr (.terminate "i-1")) ok :: b ∧ SecondLook {} a 2 "i-1" ∧ RoomLeft a 2 := by
  have hplay : ((scaleOracle.play (scaleJobs {}) (fun _ w => some w) (fun _ _ _ => true) [] (Conf.idle emptyFleet)
      threeTicks).any fun x => x.1.any (terminatesNow 2 "i-1")) = true := by
    decide +kernel
  obtain ⟨tr, cf, hr, hp⟩ := Oracle.exists_reach_of_play (fun _ _ _ h => (Option.some.inj h).symm)
    (fun _ _ _ _ => trivial) hplay
  obtain ⟨e, hm, he⟩ := List.any_eq_true.1 hp
  obtain ⟨ok, rfl⟩ := terminatesNow_sound he
  obtain ⟨a, b, ht⟩ := List.append_of_mem hm
  exact ⟨tr, a, b, cf, ok, hr, ht, terminated_after_two_looks emptyFleet_unmarked hr ht⟩

end Examples

end OpenClaw
