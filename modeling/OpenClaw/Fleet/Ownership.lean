import OpenClaw.Fleet.Seats
import OpenClaw.Lib.Exclusive
import OpenClaw.Numbers.Ledger

/-!
# Who has which number

The numbers that tenants have got on hosts, over a whole run (`seated`), those that were only guessed (`guessed`), and who
has a number at a moment: a tenant keeps what it once got, a process what it has reserved (`Owns`).

- `keepsNumbers`: the condition on the steps that give out numbers. It asks something only of the programs that guess, of
  a failed increment, of the absolute write of a counter, and of a counter that reaches a guessed number.
- `Ledger.call`: so every number has one owner, in every run.
-/

namespace OpenClaw

open Keyed Atomic Exclusive

/-- The numbers that a call leaves in use without the counter: the one that stands in for a failed increment, and what a
process gives that guesses. -/
def Call.stray (guesses : Bool) : (c : Call) → c.Ans → List (HostId × Int)
  | .incNext h, none => [(h, 1)]
  | c, r => if guesses then (c.gives r).map fun x => (x.host, x.num) else []

abbrev fleetNumbers : Protocol Ctl FleetJob NumState := numbering FleetJob.message

section Ledger

variable {ι : Type} (f₀ : World) (tr : List (Ev Ctl FleetJob ι)) (w : World)

/-- The seats that tenants have got, in their order. -/
def seated : List Seat := f₀.tenants.rows.flatMap TenantRow.seats ++ tr.flatMap fun
  | .call _ c r => c.gives r
  | _ => []

theorem seated_snoc (e : Ev Ctl FleetJob ι) : seated f₀ (tr ++ [e]) = seated f₀ tr ++ match e with
    | .call _ c r => c.gives r
    | _ => [] := by
  simp only [seated, List.flatMap_append, List.flatMap_cons, List.flatMap_nil, List.append_nil, List.append_assoc]

variable [DecidableEq ι]

/-- The numbers that were used without the counter. -/
def guessed : List (HostId × Int) := knowing.observe (fun y c r => c.stray y.guesses r) tr

/-- A tenant has what it has got, and what a message of the queue says; a process what it has taken and not written. -/
def Owns : Owner ι → HostId × Int → Prop
  | .tenant t, k => k.1 ≠ azStateId ∧ (⟨k.1, t, k.2⟩ ∈ seated f₀ tr ∨ ∃ j ∈ w.queue, j.seat = ⟨k.1, t, k.2⟩)
  | .proc i, k => k.1 ≠ azStateId ∧ ∃ g, fleetNumbers.locs tr i = some g ∧ g.held = some k

/-- The counter has passed the number, or it was guessed. -/
def Spoken (k : HostId × Int) : Prop := k.1 ≠ azStateId ∧ (w.below k.1 k.2 ∨ k ∈ guessed tr)

/-- What every run keeps. -/
structure Ledger : Prop where
  owned : Owned (Owns f₀ tr w) (Spoken tr w)
  known : ∀ i y, knowing.locs tr i = some y → ∀ x ∈ y.known, x ∈ seated f₀ tr ∨ ∃ j ∈ w.queue, j.seat = x
  rows : ∀ t ∈ w.tenants.rows, ∀ x ∈ t.seats, x ∈ seated f₀ tr

/-- The condition on a call. A process that guesses uses no number that somebody else has; a counter gives out no number
that was guessed; the number `1` that stands in for a failed increment is nobody's; and the absolute write of
`process_pending` does not lower the counter. -/
def keepsNumbers (i : ι) (c : Call) (r : c.Ans) : Prop :=
  (∀ y, knowing.locs tr i = some y → y.guesses = true → ∀ x ∈ c.gives r,
    ∀ o, Owns f₀ tr w o (x.host, x.num) → o = .tenant x.tenant) ∧
  c.booksUp w r ∧
  match c, r with
  | .reserveHost h _ _ _, .next n => (h, n - 1) ∉ guessed tr
  | .incNext h, some old => (h, old.getD 1) ∉ guessed tr
  | .incNext h, none => ∀ o, ¬ Owns f₀ tr w o (h, 1)
  | _, _ => True

end Ledger

section Steps

variable {ι : Type} [DecidableEq ι] {f₀ : World} {tr : List (Ev Ctl FleetJob ι)} {w w' : World} {i : ι} {c : Call}
  {r : c.Ans} {g : NumState} {y : Hand}

theorem guessed_snoc (hy : knowing.locs tr i = some y) :
    guessed (tr ++ [.call i c r]) = guessed tr ++ c.stray y.guesses r := by
  rw [guessed, Protocol.observe_snoc, Protocol.seen, hy]
  rfl

theorem locs_snoc_call {G : Type} {π : Protocol Ctl FleetJob G} {x : G} (hx : π.locs tr i = some x) :
    π.locs (tr ++ [.call i c r]) = Function.update (π.locs tr) i (some (π.next x c r)) := by
  simp [Protocol.stepLoc, hx]

/-- The messages that a call adds to the queue. -/
def Call.posts : (c : Call) → c.Ans → List FailoverJob
  | .sqsSend j, ok => if ok then [j] else []
  | _, _ => []

theorem step_posts (hs : World.step c r w w') : w'.queue = w.queue ++ c.posts r := by
  by_cases hq : c.writesQueue = false
  · rw [step_queue hq hs]
    cases c <;> first | exact (List.append_nil _).symm | cases hq
  · cases c <;> first | exact absurd rfl hq | skip
    case sqsSend j =>
      cases r with
      | true =>
        obtain rfl : w' = w.enqueue j := hs
        rfl
      | false =>
        obtain rfl : w' = w := hs
        exact (List.append_nil _).symm

/-- What an owner has after a call: what it had, a seat that the call gives, a message that it posts, or what the process
has taken. -/
theorem Owns.before (hg : fleetNumbers.locs tr i = some g) (hs : World.step c r w w') {o : Owner ι} {k : HostId × Int}
    (h : Owns f₀ (tr ++ [.call i c r]) w' o k) : Owns f₀ tr w o k ∨ k.1 ≠ azStateId ∧
      ((∃ x ∈ c.gives r, o = .tenant x.tenant ∧ k = (x.host, x.num)) ∨
      (∃ j ∈ c.posts r, o = .tenant j.tenantId ∧ k = (j.targetHostId, j.targetVmNum)) ∨
      o = .proc i ∧ (fleetNumbers.next g c r).held = some k ∧ g.held ≠ some k) := by
  cases o with
  | tenant t =>
    obtain ⟨hk, h | ⟨j, hj, he⟩⟩ := h
    · rw [seated_snoc] at h
      rcases List.mem_append.1 h with h | h
      · exact .inl ⟨hk, .inl h⟩
      · exact .inr ⟨hk, .inl ⟨_, h, rfl, rfl⟩⟩
    · rw [step_posts hs] at hj
      rcases List.mem_append.1 hj with hj | hj
      · exact .inl ⟨hk, .inr ⟨j, hj, he⟩⟩
      · obtain ⟨h₁, h₂, h₃⟩ := Seat.mk.inj he
        exact .inr ⟨hk, .inr (.inl ⟨j, hj, by rw [h₂], by rw [h₁, h₃]⟩)⟩
  | proc p =>
    obtain ⟨hk, g', hg', hheld⟩ := h
    rw [locs_snoc_call hg] at hg'
    by_cases hp : p = i
    · subst hp
      rw [Function.update_self] at hg'
      obtain rfl := Option.some.inj hg'
      by_cases hsame : g.held = some k
      · exact .inl ⟨hk, g, hg, hsame⟩
      · exact .inr ⟨hk, .inr (.inr ⟨rfl, hheld, hsame⟩)⟩
    · rw [Function.update_of_ne hp] at hg'
      exact .inl ⟨hk, g', hg', hheld⟩

/-- What was spoken for stays so. -/
theorem Spoken.after (hy : knowing.locs tr i = some y) (hle : NextLe w w') {k : HostId × Int} (h : Spoken tr w k) :
    Spoken (tr ++ [.call i c r]) w' k := by
  obtain ⟨hk, h⟩ := h
  refine ⟨hk, ?_⟩
  rcases h with h | h
  · exact .inl (hle.below hk h)
  · rw [guessed_snoc hy]
    exact .inr (List.mem_append_left _ h)

theorem Call.gives_seats {x : Seat} (hx : x ∈ c.gives r) : x ∈ c.seats := by
  cases c <;> first | exact hx | skip
  all_goals
    cases r with
    | true => exact hx
    | false => cases hx

/-- A number that the counter has not passed, and that nobody guessed, is nobody's. -/
theorem Ledger.untaken (hL : Ledger f₀ tr w) {h : HostId} {n : Int} (hn : ∀ k, w.nextNum h = some k → k ≤ n)
    (hfree : (h, n) ∉ guessed tr) (o : Owner ι) : ¬ Owns f₀ tr w o (h, n) := by
  intro ho
  obtain ⟨-, ⟨k, hk, hlt⟩ | hg⟩ := hL.owned.spoken o _ ho
  · have hle := hn k hk
    have hlt : n < k := hlt
    omega
  · exact hfree hg

/-- A seat that the process knows is its tenant's. -/
theorem Ledger.owns_known (hL : Ledger f₀ tr w) (hy : knowing.locs tr i = some y) {x : Seat} (hx : x ∈ y.known)
    (hh : x.host ≠ azStateId) : Owns f₀ tr w (.tenant x.tenant) (x.host, x.num) := ⟨hh, hL.known i y hy x hx⟩

/-- A call that gives seats and reserves nothing. -/
theorem Ledger.give (hL : Ledger f₀ tr w) (hg : fleetNumbers.locs tr i = some g) (hy : knowing.locs tr i = some y)
    (hle : NextLe w w') (hs : World.step c r w w') (hposts : c.posts r = [])
    (hheld : (fleetNumbers.next g c r).held = g.held)
    (hstray : c.stray y.guesses r = if y.guesses then (c.gives r).map fun x => (x.host, x.num) else [])
    (hone : ∀ x ∈ c.seats, ∀ x' ∈ c.seats, x = x') (hk : y.guesses = true ∨ ∀ x ∈ c.seats, x ∈ y.known)
    (hfree : y.guesses = true → ∀ x ∈ c.gives r, ∀ o, Owns f₀ tr w o (x.host, x.num) → o = .tenant x.tenant) :
    Owned (Owns f₀ (tr ++ [.call i c r]) w') (Spoken (tr ++ [.call i c r]) w') := by
  have hB : ∀ k, Spoken tr w k → Spoken (tr ++ [.call i c r]) w' k := fun k h => h.after hy hle
  have hbefore : ∀ o k, Owns f₀ (tr ++ [.call i c r]) w' o k → Owns f₀ tr w o k ∨ k.1 ≠ azStateId ∧
      ∃ x ∈ c.gives r, o = .tenant x.tenant ∧ k = (x.host, x.num) := by
    intro o k ho
    rcases ho.before hg hs with h | ⟨haz, h | ⟨j, hj, -⟩ | ⟨-, hnext, hne⟩⟩
    · exact .inl h
    · exact .inr ⟨haz, h⟩
    · rw [hposts] at hj
      cases hj
    · exact absurd (hheld ▸ hnext) hne
  rcases hk with hguess | hknown
  · by_cases hnew : ∃ x ∈ c.gives r, ∀ o, ¬ Owns f₀ tr w o (x.host, x.num)
    · obtain ⟨x, hx, hnobody⟩ := hnew
      have hsame : ∀ x' ∈ c.gives r, x' = x := fun x' hx' =>
        hone x' (Call.gives_seats hx') x (Call.gives_seats hx)
      refine hL.owned.take (G := fun k => k.1 ≠ azStateId ∧ k = (x.host, x.num)) (b := .tenant x.tenant) hB ?_ ?_
      · rintro k ⟨haz, rfl⟩
        refine ⟨⟨haz, .inr ?_⟩, hnobody⟩
        rw [guessed_snoc hy, hstray, if_pos hguess]
        exact List.mem_append_right _ (List.mem_map.2 ⟨x, hx, rfl⟩)
      · intro o k ho
        rcases hbefore o k ho with h | ⟨haz, x', hx', rfl, rfl⟩
        · exact .inl h
        · rw [hsame x' hx'] at haz ⊢
          exact .inr ⟨rfl, haz, rfl⟩
    · refine hL.owned.keep hB fun o k ho => ?_
      rcases hbefore o k ho with h | ⟨haz, x, hx, rfl, rfl⟩
      · exact h
      · by_contra hno
        refine hnew ⟨x, hx, fun o ho => hno ?_⟩
        rwa [← hfree hguess x hx o ho]
  · refine hL.owned.keep hB fun o k ho => ?_
    rcases hbefore o k ho with h | ⟨haz, x, hx, rfl, rfl⟩
    · exact h
    · exact hL.owns_known hy (hknown x (Call.gives_seats hx)) haz

/-- A process takes a number that is nobody's. -/
theorem Ledger.take (hL : Ledger f₀ tr w) (hg : fleetNumbers.locs tr i = some g) (hy : knowing.locs tr i = some y)
    (hle : NextLe w w') (hs : World.step c r w w') (hposts : c.posts r = []) (hgives : c.gives r = []) {k : HostId × Int}
    (hheld : (fleetNumbers.next g c r).held = some k)
    (hspoken : k.1 ≠ azStateId → Spoken (tr ++ [.call i c r]) w' k) (hnobody : ∀ o, ¬ Owns f₀ tr w o k) :
    Owned (Owns f₀ (tr ++ [.call i c r]) w') (Spoken (tr ++ [.call i c r]) w') := by
  refine hL.owned.take (G := fun x => x.1 ≠ azStateId ∧ x = k) (b := .proc i) (fun x h => h.after hy hle) ?_ ?_
  · rintro x ⟨haz, rfl⟩
    exact ⟨hspoken haz, hnobody⟩
  · intro o x ho
    rcases ho.before hg hs with h | ⟨haz, ⟨z, hz, -⟩ | ⟨j, hj, -⟩ | ⟨rfl, hnext, -⟩⟩
    · exact .inl h
    · rw [hgives] at hz
      cases hz
    · rw [hposts] at hj
      cases hj
    · rw [hheld] at hnext
      obtain rfl := Option.some.inj hnext
      exact .inr ⟨rfl, haz, rfl⟩

/-- A process passes the number it holds on to a tenant. -/
theorem Ledger.pass (hL : Ledger f₀ tr w) (hg : fleetNumbers.locs tr i = some g) (hy : knowing.locs tr i = some y)
    (hle : NextLe w w') (hs : World.step c r w w') {k : HostId × Int} (hk : g.held = some k)
    (hheld : (fleetNumbers.next g c r).held = none) {t : TenantId} (hgives : ∀ x ∈ c.gives r, x = ⟨k.1, t, k.2⟩)
    (hposts : ∀ j ∈ c.posts r, j.seat = ⟨k.1, t, k.2⟩) :
    Owned (Owns f₀ (tr ++ [.call i c r]) w') (Spoken (tr ++ [.call i c r]) w') := by
  refine hL.owned.pass (G := fun x => x.1 ≠ azStateId ∧ x = k) (a := .proc i) (b := .tenant t) (fun x h => h.after hy hle)
    ?_ ?_
  · rintro x ⟨haz, rfl⟩
    refine ⟨⟨haz, g, hg, hk⟩, ?_⟩
    rintro ⟨-, g', hg', hheld'⟩
    rw [locs_snoc_call hg, Function.update_self] at hg'
    obtain rfl := Option.some.inj hg'
    rw [hheld] at hheld'
    cases hheld'
  · intro o x ho
    rcases ho.before hg hs with h | ⟨haz, ⟨z, hz, rfl, rfl⟩ | ⟨j, hj, rfl, rfl⟩ | ⟨-, hnext, -⟩⟩
    · exact .inl h
    · rw [hgives z hz] at haz ⊢
      exact .inr ⟨rfl, haz, rfl⟩
    · obtain ⟨h₁, h₂, h₃⟩ := Seat.mk.inj (hposts j hj)
      exact .inr ⟨by rw [h₂], haz, by rw [h₁, h₃]⟩
    · rw [hheld] at hnext
      cases hnext

/-! ## One call -/

/-- Rows are changed only by the row that is written. -/
theorem step_wrote (hs : World.step c r w w') {t : TenantRow} (ht : t ∈ w'.tenants.rows) :
    t ∈ w.tenants.rows ∨ w.wrote c r = some t := by
  have hput : ∀ x, t ∈ (w.putTenant x).tenants.rows → t = x ∨ t ∈ w.tenants.rows := by
    intro x hx
    rcases Table.mem_put.1 hx with h | h
    · exact .inl h
    · exact .inr h.1
  by_cases hw : c.writesTenants = false
  · exact .inl (step_tenants hw hs ▸ ht)
  cases c <;> first | exact absurd rfl hw | skip
  case putTenant x =>
    cases r with
    | false =>
      obtain rfl : w' = w := hs
      exact .inl ht
    | true =>
      obtain rfl : w' = w.putTenant x := hs
      rcases hput x ht with rfl | ht
      · exact .inr rfl
      · exact .inl ht
  case updTenant id u =>
    obtain ⟨x, hx, hs⟩ := hs
    cases r with
    | false =>
      obtain rfl : w' = w := hs
      exact .inl ht
    | true =>
      obtain rfl : w' = w.putTenant (u.apply x) := hs
      rcases hput _ ht with rfl | ht
      · exact .inr (by simp [World.wrote, hx])
      · exact .inl ht
  case condTenant id cond u =>
    obtain ⟨x, hx, hs⟩ := hs
    cases r with
    | failed =>
      obtain rfl : w' = w := hs
      exact .inl ht
    | refused => exact .inl (hs.2 ▸ ht)
    | done =>
      obtain ⟨-, rfl⟩ := hs
      rcases hput _ ht with rfl | ht
      · exact .inr (by simp [World.wrote, hx])
      · exact .inl ht

theorem TenantUpdate.seats_of_stays {u : TenantUpdate} (hu : u.movesTo = none) (t : TenantRow) :
    (u.apply t).seats = t.seats := by
  obtain ⟨hh, hn⟩ := TenantUpdate.apply_of_movesTo_none hu t
  rw [TenantRow.seats, TenantRow.seats, hh, hn, TenantUpdate.apply_id]

/-- The seat of a written row is where it was, or one that the call gives. -/
theorem wrote_seats (hallow : fleetNumbers.allow g c) {t : TenantRow} (ht : w.wrote c r = some t) :
    (∃ t₀ ∈ w.tenants.rows, t₀.id = t.id ∧ t₀.seats = t.seats) ∨ ∀ x ∈ t.seats, x ∈ c.gives r := by
  cases c <;> try cases ht
  case putTenant x =>
    cases r with
    | false => cases ht
    | true =>
      obtain rfl := Option.some.inj ht
      exact .inr fun x hx => hx
  case updTenant id u =>
    cases r with
    | false => cases ht
    | true =>
      obtain ⟨x, hx, rfl⟩ := Option.map_eq_some_iff.1 ht
      cases hm : u.movesTo with
      | none =>
        exact .inl ⟨x, Table.mem_of_get hx, (TenantUpdate.apply_id u x).symm, (TenantUpdate.seats_of_stays hm x).symm⟩
      | some p =>
        obtain ⟨h, n⟩ := p
        obtain ⟨eh, en⟩ := TenantUpdate.apply_of_movesTo hm x
        refine .inr fun z hz => ?_
        have hid : (u.apply x).id = id := (TenantUpdate.apply_id u x).trans (Table.key_of_get hx)
        rw [TenantRow.seats, eh, en, hid] at hz
        simpa [Call.gives, Call.seats, hm] using hz
  case condTenant id cond u =>
    cases r with
    | failed => cases ht
    | refused => cases ht
    | done =>
      obtain ⟨x, hx, rfl⟩ := Option.map_eq_some_iff.1 ht
      exact .inl ⟨x, Table.mem_of_get hx, (TenantUpdate.apply_id u x).symm, (TenantUpdate.seats_of_stays hallow x).symm⟩

/-- What an answer tells is in a row, or given by the call. -/
theorem Call.learns_seats (hs : World.step c r w w') {x : Seat} (hx : x ∈ c.learns r) :
    (∃ t ∈ w.tenants.rows, x ∈ t.seats) ∨ x ∈ c.gives r := by
  cases c <;> try cases hx
  case getTenant id =>
    obtain ⟨rfl, -⟩ := hs
    cases ht : w.tenants.get id with
    | none =>
      rw [ht] at hx
      cases hx
    | some t =>
      rw [ht] at hx
      exact .inl ⟨t, Table.mem_of_get ht, hx⟩
  case scanTenants f =>
    obtain ⟨t, ht, hx⟩ := List.mem_flatMap.1 hx
    exact .inl ⟨t, (List.mem_filter.1 (hs.1.mem_iff.1 ht)).1, hx⟩
  case putTenant t => exact .inr hx

/-- A call that gives nobody anything. -/
theorem Ledger.still (hL : Ledger f₀ tr w) (hg : fleetNumbers.locs tr i = some g) (hy : knowing.locs tr i = some y)
    (hle : NextLe w w') (hs : World.step c r w w') (hposts : c.posts r = []) (hgives : c.gives r = [])
    (hheld : (fleetNumbers.next g c r).held = none ∨ (fleetNumbers.next g c r).held = g.held) :
    Owned (Owns f₀ (tr ++ [.call i c r]) w') (Spoken (tr ++ [.call i c r]) w') := by
  refine hL.owned.keep (fun k h => h.after hy hle) fun o k ho => ?_
  rcases ho.before hg hs with h | ⟨-, ⟨x, hx, -⟩ | ⟨j, hj, -⟩ | ⟨-, hnext, hne⟩⟩
  · exact h
  · rw [hgives] at hx
    cases hx
  · rw [hposts] at hj
    cases hj
  · rcases hheld with hnone | hsame
    · rw [hnone] at hnext
      cases hnext
    · exact absurd (hsame ▸ hnext) hne

/-- A reservation gives out the number that the counter had. -/
theorem reserveHost_next {id : HostId} {cond : ReserveCond} {v m n : Int}
    (hs : World.step (.reserveHost id cond v m) (.next n) w w') :
    w.nextNum id = some (n - 1) ∧ w'.nextNum id = some n := by
  obtain ⟨x, x', hx, -, hu, hn, rfl⟩ := hs
  have hid : x'.instanceId = id := (HostUpdate.apply_id hu).trans (Table.key_of_get hx)
  obtain ⟨_, _, _, k, -, -, -, hk, rfl⟩ := HostUpdate.reserve_eq_some.1 hu
  obtain rfl : k + 1 = n := Option.some.inj hn
  refine ⟨?_, by rw [nextNum_putHost, if_pos hid.symm]⟩
  rw [World.nextNum, hx, Int.add_sub_cancel]
  exact hk

/-- An increment gives out the number that the counter had. -/
theorem incNext_next {id : HostId} {old : Option Int} (hs : World.step (.incNext id) (some old) w w') :
    old = w.nextNum id ∧ w'.nextNum id = some (old.getD 1 + 1) := by
  obtain ⟨rfl, x, hx, rfl⟩ := hs
  obtain rfl := Option.some.inj hx
  refine ⟨hostRow_next id, ?_⟩
  rw [nextNum_putHost, if_pos (World.hostRow_id _ id).symm]

/-- The calls that move numbers. -/
def Call.carries : Call → Bool
  | .putTenant _ | .sqsSend _ | .reserveHost _ _ _ _ | .incNext _ => true
  | _ => false

theorem Call.posts_still (h : c.carries = false) : c.posts r = [] := by
  cases c <;> first | rfl | cases h

theorem Call.next_still (h : c.carries = false) : fleetNumbers.next g c r = g := by
  cases c <;> first | rfl | cases h

theorem Call.stray_still (h : c.carries = false) {b : Bool} :
    c.stray b r = if b then (c.gives r).map fun x => (x.host, x.num) else [] := by
  cases c <;> first | rfl | cases h

section Call

variable (hL : Ledger f₀ tr w) (hg : fleetNumbers.locs tr i = some g) (hy : knowing.locs tr i = some y)
  (hallow : fleetNumbers.allow g c) (hk : knowing.allow y c) (hone : ∀ x ∈ c.seats, ∀ x' ∈ c.seats, x = x')
  (hok : keepsNumbers f₀ tr w i c r) (hs : World.step c r w w')

include hL hg hy hallow hk hone hok hs

theorem Ledger.owned_call : Owned (Owns f₀ (tr ++ [.call i c r]) w') (Spoken (tr ++ [.call i c r]) w') := by
  obtain ⟨hguess, hbooks, hok⟩ := hok
  have hle := step_nextLe hallow hbooks hs
  by_cases hc : c.carries = false
  · refine hL.give hg hy hle hs (Call.posts_still hc) (by rw [Call.next_still hc]) (Call.stray_still hc) hone
      (hk.imp_right fun h => h.resolve_left ?_) (hguess y hy)
    rintro ⟨t, rfl⟩
    cases hc
  cases c <;> first | exact absurd rfl hc | skip
  case putTenant t =>
    cases r with
    | false => exact hL.still hg hy hle hs rfl rfl (.inr rfl)
    | true =>
      obtain hnone | ⟨h, n, hheld, eh, en⟩ := hallow
      · refine hL.still hg hy hle hs rfl ?_ (.inl rfl)
        simp [Call.gives, TenantRow.seats, hnone]
      · refine hL.pass (t := t.id) hg hy hle hs hheld rfl (fun x hx => ?_) fun _ h => by cases h
        simpa [Call.gives, TenantRow.seats, eh, en] using hx
  case sqsSend j =>
    cases r with
    | false => exact hL.still hg hy hle hs rfl rfl (.inr rfl)
    | true =>
      refine hL.pass (t := j.tenantId) hg hy hle hs hallow rfl (fun _ h => by cases h) fun j' hj' => ?_
      obtain rfl := List.mem_singleton.1 hj'
      rfl
  case reserveHost id cond v m =>
    cases r with
    | refused => exact hL.still hg hy hle hs rfl rfl (.inr rfl)
    | failed => exact hL.still hg hy hle hs rfl rfl (.inr rfl)
    | next n =>
      obtain ⟨hold, hnew⟩ := reserveHost_next hs
      refine hL.take (k := (id, n - 1)) hg hy hle hs rfl rfl rfl (fun haz => ⟨haz, .inl ⟨n, hnew, ?_⟩⟩)
        (hL.untaken (fun k hk => ?_) hok)
      · exact Int.sub_one_lt_of_le (le_refl n)
      · rw [hold] at hk
        exact (Option.some.inj hk).ge
  case incNext id =>
    cases r with
    | none =>
      refine hL.take (k := (id, 1)) hg hy hle hs rfl rfl rfl (fun haz => ⟨haz, .inr ?_⟩) hok
      rw [guessed_snoc hy]
      exact List.mem_append_right _ (List.mem_singleton.2 rfl)
    | some old =>
      obtain ⟨hold, hnew⟩ := incNext_next hs
      refine hL.take (k := (id, old.getD 1)) hg hy hle hs rfl rfl rfl (fun haz => ⟨haz, .inl ⟨_, hnew, ?_⟩⟩)
        (hL.untaken (fun k hk => ?_) hok)
      · exact Int.lt_add_one_of_le (le_refl _)
      · rw [hold, hk]
        exact le_refl k

/-- **The numbers after a call.** -/
theorem Ledger.call : Ledger f₀ (tr ++ [.call i c r]) w' := by
  refine ⟨hL.owned_call hg hy hallow hk hone hok hs, fun p z hz x hx => ?_, fun t ht x hx => ?_⟩
  · have hkeep : ∀ {p z}, knowing.locs tr p = some z → ∀ x ∈ z.known,
        x ∈ seated f₀ (tr ++ [.call i c r]) ∨ ∃ j ∈ w'.queue, j.seat = x := by
      intro p z hz x hx
      rw [seated_snoc, step_posts hs]
      rcases hL.known p z hz x hx with h | ⟨j, hj, he⟩
      · exact .inl (List.mem_append_left _ h)
      · exact .inr ⟨j, List.mem_append_left _ hj, he⟩
    rw [locs_snoc_call hy] at hz
    by_cases hp : p = i
    · subst hp
      rw [Function.update_self] at hz
      obtain rfl := Option.some.inj hz
      rcases List.mem_append.1 hx with hx | hx
      · exact hkeep hy x hx
      · rw [seated_snoc]
        rcases Call.learns_seats hs hx with ⟨t, ht, hx⟩ | hx
        · exact .inl (List.mem_append_left _ (hL.rows t ht x hx))
        · exact .inl (List.mem_append_right _ hx)
    · rw [Function.update_of_ne hp] at hz
      exact hkeep hz x hx
  · rw [seated_snoc]
    rcases step_wrote hs ht with ht | ht
    · exact List.mem_append_left _ (hL.rows t ht x hx)
    · rcases wrote_seats hallow ht with ⟨t₀, ht₀, -, he⟩ | hgives
      · exact List.mem_append_left _ (hL.rows t₀ ht₀ x (he ▸ hx))
      · exact List.mem_append_right _ (hgives x hx)

end Call

/-- **A process starts.** A worker knows the message of the queue that it was started with. -/
theorem Ledger.start {j : FleetJob} (hL : Ledger f₀ tr w) (hj : ∀ job, j.message = some job → job ∈ w.queue) :
    Ledger f₀ (tr ++ [.start i j]) w := by
  have hseated : seated f₀ (tr ++ [.start i j]) = seated f₀ tr := by rw [seated_snoc, List.append_nil]
  have hguessed : guessed (tr ++ [.start i j]) = guessed tr := by
    rw [guessed, Protocol.observe_snoc]
    exact List.append_nil _
  refine ⟨hL.owned.keep (fun k h => ?_) fun o k ho => ?_, fun p z hz x hx => ?_, fun t ht x hx => ?_⟩
  · rwa [Spoken, hguessed]
  · cases o with
    | tenant t => rwa [Owns, hseated] at ho
    | proc p =>
      obtain ⟨haz, g, hg, hheld⟩ := ho
      rw [Protocol.locs_snoc, Protocol.stepLoc] at hg
      by_cases hp : p = i
      · subst hp
        rw [Function.update_self] at hg
        obtain rfl := Option.some.inj hg
        cases hheld
      · rw [Function.update_of_ne hp] at hg
        exact ⟨haz, g, hg, hheld⟩
  · rw [hseated]
    rw [Protocol.locs_snoc, Protocol.stepLoc] at hz
    by_cases hp : p = i
    · subst hp
      rw [Function.update_self] at hz
      obtain rfl := Option.some.inj hz
      obtain ⟨job, hjob, rfl⟩ := Option.map_eq_some_iff.1 (Option.mem_toList.1 hx)
      exact .inr ⟨job, hj job hjob, rfl⟩
    · rw [Function.update_of_ne hp] at hz
      exact hL.known p z hz x hx
  · rw [hseated]
    exact hL.rows t ht x hx

end Steps

/-! ## Before the run -/

/-- Nothing is in flight, and the rows have different numbers, which the counters have passed. -/
structure NumbersAtRest (w : World) : Prop where
  queue : w.queue = []
  below : ∀ t ∈ w.tenants.rows, ∀ x ∈ t.seats, x.host ≠ azStateId → w.below x.host x.num
  unique : ∀ t ∈ w.tenants.rows, ∀ t' ∈ w.tenants.rows, ∀ x ∈ t.seats, ∀ x' ∈ t'.seats, x.host ≠ azStateId →
    x.host = x'.host → x.num = x'.num → t.id = t'.id

theorem NumbersAtRest.ledger {ι : Type} [DecidableEq ι] {w : World} (hw : NumbersAtRest w) :
    Ledger w ([] : List (Ev Ctl FleetJob ι)) w := by
  have hmem : ∀ {x}, x ∈ seated w ([] : List (Ev Ctl FleetJob ι)) ↔ ∃ t ∈ w.tenants.rows, x ∈ t.seats := by
    intro x
    simp [seated]
  have howns : ∀ {o : Owner ι} {k}, Owns w [] w o k → k.1 ≠ azStateId ∧
      ∃ t ∈ w.tenants.rows, ∃ x ∈ t.seats, o = .tenant x.tenant ∧ k = (x.host, x.num) := by
    intro o k ho
    cases o with
    | tenant t =>
      obtain ⟨haz, h | ⟨j, hj, -⟩⟩ := ho
      · obtain ⟨row, hrow, hx⟩ := hmem.1 h
        exact ⟨haz, row, hrow, _, hx, rfl, rfl⟩
      · rw [hw.queue] at hj
        cases hj
    | proc p =>
      obtain ⟨-, g, hg, -⟩ := ho
      cases hg
  have hid : ∀ {t : TenantRow} {x}, x ∈ t.seats → x.tenant = t.id := by
    intro t x hx
    obtain ⟨h, -, rfl⟩ := Option.map_eq_some_iff.1 (Option.mem_toList.1 hx)
    rfl
  refine ⟨⟨fun o k ho => ?_, fun o o' k ho ho' => ?_⟩, fun p y hy => ?_, fun t ht x hx => hmem.2 ⟨t, ht, hx⟩⟩
  · obtain ⟨haz, t, ht, x, hx, rfl, rfl⟩ := howns ho
    exact ⟨haz, .inl (hw.below t ht x hx haz)⟩
  · obtain ⟨haz, t, ht, x, hx, rfl, rfl⟩ := howns ho
    obtain ⟨-, t', ht', x', hx', rfl, he⟩ := howns ho'
    obtain ⟨hh, hn⟩ := Prod.mk.inj he
    rw [hid hx, hid hx', hw.unique t ht t' ht' x hx x' hx' haz hh hn]
  · cases hy

end OpenClaw
