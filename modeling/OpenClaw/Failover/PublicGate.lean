import OpenClaw.Control.Rows
import OpenClaw.Lib.Prog
import OpenClaw.Lib.Streak

/-!
# The public verify gate

`_verify_dashboard_reachable_via_alb` probes the public address of a tenant again and again. It returns `True` after
`VERIFY_CONSECUTIVE_OK` successes in a row, each on a connection of its own, and `False` once the time is up.

- `loop_late`, `loop_pass`, `loop_next`: what one pass of the loop does.
- `loop_advance`: after some passes the loop has counted the successes in a row.
- `public_gate`: when the gate returns `True`, and that it ends.
-/

namespace OpenClaw

open Atomic Streak

/-! ## The gate -/

/-- What one probe comes to. -/
inductive ProbeOutcome
  /-- `urlopen` returns a response. -/
  | response (status : Int)
  | httpError (code : Int)
  | urlError
  /-- Any other exception. -/
  | raised
deriving DecidableEq

/-- `_reachable_status`. -/
def reachableStatus (status : Int) : Bool := (200 ≤ status && status < 400) || status = 401 || status = 403

/-- `ok` after a probe. -/
def ProbeOutcome.ok : ProbeOutcome → Bool
  | .response status => reachableStatus status
  | .httpError code => reachableStatus code
  | .urlError | .raised => false

inductive PublicCall
  | time
  | sleep (sec : Nat)
  /-- A request of its own connection. -/
  | urlopen (url : String)

@[reducible] def PublicCall.Ans : PublicCall → Type
  | .time => Time
  | .sleep _ => Unit
  | .urlopen _ => ProbeOutcome

abbrev Public : Sig := ⟨PublicCall, PublicCall.Ans⟩

abbrev PublicProg := Prog Public

abbrev visit (c : PublicCall) : PublicProg c.Ans := @Prog.lift Public c

@[simp] theorem visit_bind {β : Type} (c : PublicCall) (f : c.Ans → PublicProg β) :
    @Bind.bind PublicProg _ (no_index c.Ans) β (visit c) f = @Prog.call Public β c f := rfl

section Gate

variable (url : String) (deadline : Time) (poll : Nat) (needed : Int)

/-- The loop of the gate, with a bound on its passes; `none` is out of passes. -/
def publicLoop : Nat → Int → PublicProg (Option Bool)
  | 0, _ => pure none
  | n + 1, streak => do
    let t ← visit .time
    if t < deadline then do
      let outcome ← visit (.urlopen url)
      let streak := if outcome.ok then streak + 1 else if streak ≠ 0 then 0 else streak
      if outcome.ok ∧ needed ≤ streak then pure (some true)
      else do
        let _ ← visit (.sleep poll)
        publicLoop n streak
    else pure (some false)

/-- `rstrip("/")`. -/
def rstripSlash (s : String) : String := String.ofList (s.toList.reverse.dropWhile (· = '/')).reverse

/-- `url` -/
def dashboardUrl (tid : TenantId) (base : String) : String := rstripSlash base ++ "/vm/" ++ tid ++ "/"

/-- `_verify_dashboard_reachable_via_alb`, with `VERIFY_CONSECUTIVE_OK` and a bound on the passes. -/
def verifyDashboardReachableViaAlb (tid : TenantId) (base : String) (timeout : Time) (poll : Nat)
    (verifyConsecutiveOk : Int) (n : Nat) : PublicProg (Option Bool) :=
  if base = "" then pure (some false)
  else do
    let t ← visit .time
    publicLoop (dashboardUrl tid base) (t + timeout) poll (max 1 verifyConsecutiveOk) n 0

end Gate

/-! ## The clock and the probes -/

/-- How often the clock was read, and how many probes were made. -/
structure PublicWorld where
  readings : Nat := 0
  probes : Nat := 0

/-- The readings of the clock and the outcomes of the probes, in order. -/
def publicStep (now : Nat → Time) (outcome : Nat → ProbeOutcome) : (c : PublicCall) → c.Ans → PublicWorld →
    PublicWorld → Prop
  | .time, t, w, w' => t = now w.readings ∧ w' = { w with readings := w.readings + 1 }
  | .sleep _, _, w, w' => w' = w
  | .urlopen _, r, w, w' => r = outcome w.probes ∧ w' = { w with probes := w.probes + 1 }

def publicPath (now : Nat → Time) (outcome : Nat → ProbeOutcome) : Sem Public PublicWorld := ⟨publicStep now outcome⟩

section Rules

variable {now : Nat → Time} {outcome : Nat → ProbeOutcome} {α : Type} {a : α} {i m : Nat} {w : PublicWorld}

theorem runs_time {k : Time → PublicProg α} :
    (@Prog.call Public α .time k).Runs (publicPath now outcome) ⟨i, m⟩ a w ↔
      (k (now i)).Runs (publicPath now outcome) ⟨i + 1, m⟩ a w := by
  constructor
  · intro h
    cases h with
    | call hs hr =>
      obtain ⟨rfl, rfl⟩ := hs
      exact hr
  · exact fun h => .call (show (publicPath now outcome).step .time (now i) ⟨i, m⟩ ⟨i + 1, m⟩ from ⟨rfl, rfl⟩) h

theorem runs_sleep {sec : Nat} {k : Unit → PublicProg α} :
    (@Prog.call Public α (.sleep sec) k).Runs (publicPath now outcome) ⟨i, m⟩ a w ↔
      (k ()).Runs (publicPath now outcome) ⟨i, m⟩ a w := by
  constructor
  · intro h
    cases h with
    | call hs hr =>
      obtain rfl := hs
      exact hr
  · exact fun h => .call (show (publicPath now outcome).step (.sleep sec) () ⟨i, m⟩ ⟨i, m⟩ from rfl) h

theorem runs_urlopen {url : String} {k : ProbeOutcome → PublicProg α} :
    (@Prog.call Public α (.urlopen url) k).Runs (publicPath now outcome) ⟨i, m⟩ a w ↔
      (k (outcome m)).Runs (publicPath now outcome) ⟨i, m + 1⟩ a w := by
  constructor
  · intro h
    cases h with
    | call hs hr =>
      obtain ⟨rfl, rfl⟩ := hs
      exact hr
  · exact fun h =>
      .call (show (publicPath now outcome).step (.urlopen url) (outcome m) ⟨i, m⟩ ⟨i, m + 1⟩ from ⟨rfl, rfl⟩) h

theorem runs_ret {b : α} {w' : PublicWorld} :
    (Prog.ret b : PublicProg α).Runs (publicPath now outcome) w' a w ↔ a = b ∧ w = w' := by
  constructor
  · intro h
    cases h
    exact ⟨rfl, rfl⟩
  · rintro ⟨rfl, rfl⟩
    exact .ret _ _

end Rules

/-! ## One pass -/

section Loop

variable {now : Nat → Time} {outcome : Nat → ProbeOutcome} {url : String} {deadline : Time} {poll n i : Nat}
  {needed s : Int} {r : Option Bool} {w : PublicWorld}

/-- The time is up. -/
theorem loop_late (h : deadline ≤ now (i + 1)) :
    (publicLoop url deadline poll needed (n + 1) s).Runs (publicPath now outcome) ⟨i + 1, i⟩ r w ↔
      r = some false ∧ w = ⟨i + 2, i⟩ := by
  simp only [publicLoop, visit_bind, Prog.pure_eq]
  rw [runs_time, if_neg (not_lt.2 h)]
  exact runs_ret

/-- The last success that is needed. -/
theorem loop_pass (h : now (i + 1) < deadline) (hok : (outcome i).ok = true) (hs : needed ≤ s + 1) :
    (publicLoop url deadline poll needed (n + 1) s).Runs (publicPath now outcome) ⟨i + 1, i⟩ r w ↔
      r = some true ∧ w = ⟨i + 2, i + 1⟩ := by
  simp only [publicLoop, visit_bind, Prog.pure_eq]
  rw [runs_time, if_pos h, runs_urlopen, if_pos hok, if_pos ⟨hok, hs⟩]
  exact runs_ret

/-- Any other probe: the next pass goes on with the new count. -/
theorem loop_next (h : now (i + 1) < deadline) (hno : ¬ ((outcome i).ok = true ∧ needed ≤ s + 1)) :
    (publicLoop url deadline poll needed (n + 1) s).Runs (publicPath now outcome) ⟨i + 1, i⟩ r w ↔
      (publicLoop url deadline poll needed n (if (outcome i).ok then s + 1 else 0)).Runs (publicPath now outcome)
        ⟨i + 2, i + 1⟩ r w := by
  simp only [publicLoop, visit_bind, Prog.pure_eq]
  rw [runs_time, if_pos h, runs_urlopen]
  cases hok : (outcome i).ok with
  | true =>
    have hs : ¬ needed ≤ s + 1 := fun hs => hno ⟨hok, hs⟩
    simp only [if_true, true_and, if_neg hs]
    exact runs_sleep
  | false =>
    have hzero : (if s ≠ 0 then 0 else s) = 0 := by
      split <;> omega
    simp only [Bool.false_eq_true, if_false, false_and, hzero]
    exact runs_sleep

/-! ## Runs of the gate -/

/-- The probe is a success. -/
abbrev Succeeds (outcome : Nat → ProbeOutcome) (i : Nat) : Prop := (outcome i).ok = true

variable {K : Nat}

/-- **Passes.** As long as it neither returns nor runs out of time, the loop counts the successes in a row. -/
theorem loop_advance (hpass : ∀ j < i, now (j + 1) < deadline ∧ ¬ K ≤ streak (Succeeds outcome) (j + 1)) :
    (publicLoop url deadline poll K (n + i) 0).Runs (publicPath now outcome) ⟨1, 0⟩ r w ↔
      (publicLoop url deadline poll K n (streak (Succeeds outcome) i)).Runs (publicPath now outcome)
        ⟨i + 1, i⟩ r w := by
  induction i generalizing n with
  | zero => exact Iff.rfl
  | succ i ih =>
    obtain ⟨hearly, hshort⟩ := hpass i (by omega)
    have hswap : n + (i + 1) = n + 1 + i := by omega
    rw [hswap, ih fun j hj => hpass j (by omega)]
    have hno : ¬ ((outcome i).ok = true ∧ (K : Int) ≤ (streak (Succeeds outcome) i : Int) + 1) := by
      rintro ⟨hok, hK⟩
      refine hshort ?_
      rw [streak_succ_of hok]
      omega
    rw [loop_next hearly hno]
    by_cases hok : (outcome i).ok = true
    · rw [if_pos hok, streak_succ_of hok]
      push_cast
      exact Iff.rfl
    · rw [if_neg hok, streak_succ_of_not hok]
      exact Iff.rfl

/-- The gate after it has set its deadline. -/
theorem gate_loop {tid : TenantId} {base : String} {timeout : Time} {v : Int} (hbase : base ≠ "") :
    (verifyDashboardReachableViaAlb tid base timeout poll v n).Runs (publicPath now outcome) {} r w ↔
      (publicLoop (dashboardUrl tid base) (now 0 + timeout) poll (max 1 v).toNat n 0).Runs (publicPath now outcome)
        ⟨1, 0⟩ r w := by
  have hK : ((max 1 v).toNat : Int) = max 1 v := Int.toNat_of_nonneg (by omega)
  rw [verifyDashboardReachableViaAlb, if_neg hbase, hK]
  exact runs_time

/-- A window that is complete. -/
theorem loop_true (hpass : ∀ j < i, now (j + 1) < deadline ∧ ¬ K ≤ streak (Succeeds outcome) (j + 1))
    (hearly : now (i + 1) < deadline) (hlong : K ≤ streak (Succeeds outcome) (i + 1)) (hK : 0 < K) :
    (publicLoop url deadline poll K (n + 1 + i) 0).Runs (publicPath now outcome) ⟨1, 0⟩ r w ↔
      r = some true ∧ w = ⟨i + 2, i + 1⟩ := by
  have hok : (outcome i).ok = true := by
    by_contra hok
    rw [streak_succ_of_not hok] at hlong
    omega
  rw [streak_succ_of hok] at hlong
  rw [loop_advance hpass]
  exact loop_pass hearly hok (by omega)

/-- The end of the time. -/
theorem loop_false (hpass : ∀ j < i, now (j + 1) < deadline ∧ ¬ K ≤ streak (Succeeds outcome) (j + 1))
    (hlate : deadline ≤ now (i + 1)) :
    (publicLoop url deadline poll K (n + 1 + i) 0).Runs (publicPath now outcome) ⟨1, 0⟩ r w ↔
      r = some false ∧ w = ⟨i + 2, i⟩ := by
  rw [loop_advance hpass]
  exact loop_late hlate

/-- Out of passes. -/
theorem loop_out (hpass : ∀ j < i, now (j + 1) < deadline ∧ ¬ K ≤ streak (Succeeds outcome) (j + 1)) :
    (publicLoop url deadline poll K i 0).Runs (publicPath now outcome) ⟨1, 0⟩ r w ↔ r = none ∧ w = ⟨i + 1, i⟩ := by
  have hrun : (publicLoop url deadline poll K (0 + i) 0).Runs (publicPath now outcome) ⟨1, 0⟩ r w ↔
      (publicLoop url deadline poll K 0 (streak (Succeeds outcome) i)).Runs (publicPath now outcome) ⟨i + 1, i⟩ r w :=
    loop_advance hpass
  rw [Nat.zero_add] at hrun
  rw [hrun]
  exact runs_ret

/-- The first pass that ends the loop. -/
theorem exists_stop (h : ∃ i, ¬ (now (i + 1) < deadline ∧ ¬ K ≤ streak (Succeeds outcome) (i + 1))) :
    ∃ m, ¬ (now (m + 1) < deadline ∧ ¬ K ≤ streak (Succeeds outcome) (m + 1)) ∧
      ∀ j < m, now (j + 1) < deadline ∧ ¬ K ≤ streak (Succeeds outcome) (j + 1) :=
  ⟨Nat.find h, Nat.find_spec h, fun _ hj => not_not.1 (Nat.find_min h hj)⟩

/-- **Where the loop ends**: at a window, or at the end of the time. -/
theorem loop_stops {b : Bool} (hK : 0 < K)
    (hr : (publicLoop url deadline poll K n 0).Runs (publicPath now outcome) ⟨1, 0⟩ (some b) w) :
    ∃ m, (∀ j < m, now (j + 1) < deadline ∧ ¬ K ≤ streak (Succeeds outcome) (j + 1)) ∧
      if b then now (m + 1) < deadline ∧ K ≤ streak (Succeeds outcome) (m + 1) else deadline ≤ now (m + 1) := by
  by_cases hall : ∀ j < n, now (j + 1) < deadline ∧ ¬ K ≤ streak (Succeeds outcome) (j + 1)
  · have hnone := ((loop_out hall).1 hr).1
    cases hnone
  · simp only [not_forall] at hall
    obtain ⟨i, hi, hstop⟩ := hall
    obtain ⟨m, hm, hpass⟩ := exists_stop ⟨i, hstop⟩
    have hmi : m ≤ i := not_lt.1 fun h => hstop (hpass i h)
    obtain ⟨n', rfl⟩ : ∃ n', n = n' + 1 + m := ⟨n - 1 - m, by omega⟩
    refine ⟨m, hpass, ?_⟩
    by_cases hlate : deadline ≤ now (m + 1)
    · obtain ⟨hb, -⟩ := (loop_false hpass hlate).1 hr
      obtain rfl := Option.some.inj hb
      exact hlate
    · have hearly := not_le.1 hlate
      have hlong : K ≤ streak (Succeeds outcome) (m + 1) := by
        by_contra hlong
        exact hm ⟨hearly, hlong⟩
      obtain ⟨hb, -⟩ := (loop_true hpass hearly hlong hK).1 hr
      obtain rfl := Option.some.inj hb
      exact ⟨hearly, hlong⟩

end Loop

/-! ## When the gate opens -/

/-- The probe saw a 2xx, a 3xx, 401 or 403. -/
def ProbeOutcome.Serves (o : ProbeOutcome) : Prop :=
  ∃ s, (o = .response s ∨ o = .httpError s) ∧ ((200 ≤ s ∧ s < 300) ∨ (300 ≤ s ∧ s < 400) ∨ s = 401 ∨ s = 403)

theorem reachableStatus_iff {s : Int} : reachableStatus s = true ↔
    (200 ≤ s ∧ s < 300) ∨ (300 ≤ s ∧ s < 400) ∨ s = 401 ∨ s = 403 := by
  simp only [reachableStatus, Bool.or_eq_true, Bool.and_eq_true, decide_eq_true_eq]
  omega

theorem ProbeOutcome.serves_iff {o : ProbeOutcome} : o.Serves ↔ o.ok = true := by
  cases o with
  | response s => simp [Serves, ok, reachableStatus_iff]
  | httpError s => simp [Serves, ok, reachableStatus_iff]
  | urlError => simp [Serves, ok]
  | raised => simp [Serves, ok]

section Gate

variable (tid : TenantId) (base : String) (timeout : Time) (poll : Nat) (v : Int) (now : Nat → Time)
  (outcome : Nat → ProbeOutcome)

/-- The gate returns `b`. -/
def GateReturns (b : Bool) : Prop :=
  ∃ n w, (verifyDashboardReachableViaAlb tid base timeout poll v n).Runs (publicPath now outcome) {} (some b) w

/-- `K`. -/
def neededProbes : Nat := (max 1 v).toNat

/-- Probes in a row that all started before the deadline and all saw a tenant that serves. -/
def GateWindow : Prop :=
  ∃ i, ∀ j < neededProbes v, now (i + j + 1) < now 0 + timeout ∧ (outcome (i + j)).Serves

/-- What the gate promises; the first reading of the clock sets the deadline, and probe `i` starts right after reading
`i + 1`. -/
structure PublicGate : Prop where
  opens : GateReturns tid base timeout poll v now outcome true ↔ GateWindow timeout v now outcome
  one : ¬ (GateReturns tid base timeout poll v now outcome true ∧ GateReturns tid base timeout poll v now outcome false)
  /-- After a probe that saw anything else, without a window before it, the count starts again. -/
  restarts : ∀ i, (∀ j ≤ i, now (j + 1) < now 0 + timeout) → ¬ (outcome i).Serves →
    (∀ a, a + neededProbes v ≤ i → ∃ j < neededProbes v, ¬ (outcome (a + j)).Serves) → ∀ n r w,
    (verifyDashboardReachableViaAlb tid base timeout poll v (n + (i + 1))).Runs (publicPath now outcome) {} r w ↔
      (publicLoop (dashboardUrl tid base) (now 0 + timeout) poll (neededProbes v) n 0).Runs (publicPath now outcome)
        ⟨i + 2, i + 1⟩ r w
  ends : (∃ i, now 0 + timeout ≤ now i) → ∃ N, ∀ n, N ≤ n → ∃ b w,
    (verifyDashboardReachableViaAlb tid base timeout poll v n).Runs (publicPath now outcome) {} (some b) w

variable {tid base timeout poll v now outcome}

theorem neededProbes_pos : 0 < neededProbes v := by
  unfold neededProbes
  omega

theorem window_iff : GateWindow timeout v now outcome ↔
    ∃ i, ∀ j < neededProbes v, now (i + j + 1) < now 0 + timeout ∧ Succeeds outcome (i + j) := by
  simp only [GateWindow, ProbeOutcome.serves_iff]

theorem gate_opens (hbase : base ≠ "") (hnow : Monotone now) :
    GateReturns tid base timeout poll v now outcome true ↔ GateWindow timeout v now outcome := by
  rw [window_iff]
  constructor
  · rintro ⟨n, w, hr⟩
    obtain ⟨m, hpass, hearly, hlong⟩ := loop_stops neededProbes_pos ((gate_loop hbase).1 hr)
    obtain ⟨a, ha, hall⟩ := window_of_le_streak hlong
    refine ⟨a, fun j hj => ⟨?_, hall j hj⟩⟩
    rcases Nat.lt_or_ge (a + j) m with hlt | hge
    · exact (hpass _ hlt).1
    · have hm : a + j = m := by omega
      rw [hm]
      exact hearly
  · rintro ⟨i, hall⟩
    have hpos := neededProbes_pos (v := v)
    have hlong : neededProbes v ≤ streak (Succeeds outcome) (i + neededProbes v) :=
      le_streak_iff.2 fun j hj => (hall j hj).2
    have hend : i + neededProbes v = i + (neededProbes v - 1) + 1 := by omega
    have hstop : ∃ j, ¬ (now (j + 1) < now 0 + timeout ∧ ¬ neededProbes v ≤ streak (Succeeds outcome) (j + 1)) :=
      ⟨i + (neededProbes v - 1), fun h => h.2 (hend ▸ hlong)⟩
    obtain ⟨m, hm, hpass⟩ := exists_stop hstop
    have hle : m ≤ i + (neededProbes v - 1) := by
      by_contra hlt
      exact (hpass _ (not_le.1 hlt)).2 (hend ▸ hlong)
    have hearly : now (m + 1) < now 0 + timeout :=
      lt_of_le_of_lt (hnow (by omega)) (hall (neededProbes v - 1) (by omega)).1
    have hm' : neededProbes v ≤ streak (Succeeds outcome) (m + 1) := by
      by_contra hshort
      exact hm ⟨hearly, hshort⟩
    exact ⟨_, _, (gate_loop hbase).2 ((loop_true (n := 0) hpass hearly hm' hpos).2 ⟨rfl, rfl⟩)⟩

theorem gate_one (hbase : base ≠ "") : ¬ (GateReturns tid base timeout poll v now outcome true ∧
    GateReturns tid base timeout poll v now outcome false) := by
  rintro ⟨⟨n, w, hr⟩, ⟨n', w', hr'⟩⟩
  obtain ⟨m, hpass, hearly, hlong⟩ := loop_stops neededProbes_pos ((gate_loop hbase).1 hr)
  obtain ⟨m', hpass', hlate⟩ := loop_stops neededProbes_pos ((gate_loop hbase).1 hr')
  rcases Nat.lt_trichotomy m m' with h | rfl | h
  · exact (hpass' m h).2 hlong
  · exact absurd hearly (not_lt.2 hlate)
  · exact absurd (hpass m' h).1 (not_lt.2 hlate)

theorem gate_ends (hbase : base ≠ "") (hnow : Monotone now) (h : ∃ i, now 0 + timeout ≤ now i) :
    ∃ N, ∀ n, N ≤ n → ∃ b w,
      (verifyDashboardReachableViaAlb tid base timeout poll v n).Runs (publicPath now outcome) {} (some b) w := by
  obtain ⟨i, hi⟩ := h
  have hlate : now 0 + timeout ≤ now (i + 1) := le_trans hi (hnow (Nat.le_succ i))
  have hstop : ∃ j, ¬ (now (j + 1) < now 0 + timeout ∧ ¬ neededProbes v ≤ streak (Succeeds outcome) (j + 1)) :=
    ⟨i, fun h => absurd h.1 (not_lt.2 hlate)⟩
  obtain ⟨m, hm, hpass⟩ := exists_stop hstop
  refine ⟨m + 1, fun n hn => ?_⟩
  obtain ⟨n', rfl⟩ : ∃ n', n = n' + 1 + m := ⟨n - 1 - m, by omega⟩
  by_cases hl : now 0 + timeout ≤ now (m + 1)
  · exact ⟨false, _, (gate_loop hbase).2 ((loop_false hpass hl).2 ⟨rfl, rfl⟩)⟩
  · have hearly := not_le.1 hl
    have hlong : neededProbes v ≤ streak (Succeeds outcome) (m + 1) := by
      by_contra hshort
      exact hm ⟨hearly, hshort⟩
    exact ⟨true, _, (gate_loop hbase).2 ((loop_true hpass hearly hlong neededProbes_pos).2 ⟨rfl, rfl⟩)⟩

theorem gate_restarts (hbase : base ≠ "") {i n : Nat} {r : Option Bool} {w : PublicWorld}
    (hearly : ∀ j ≤ i, now (j + 1) < now 0 + timeout) (hbad : ¬ (outcome i).Serves)
    (hnone : ∀ a, a + neededProbes v ≤ i → ∃ j < neededProbes v, ¬ (outcome (a + j)).Serves) :
    (verifyDashboardReachableViaAlb tid base timeout poll v (n + (i + 1))).Runs (publicPath now outcome) {} r w ↔
      (publicLoop (dashboardUrl tid base) (now 0 + timeout) poll (neededProbes v) n 0).Runs (publicPath now outcome)
        ⟨i + 2, i + 1⟩ r w := by
  have hstreak : streak (Succeeds outcome) (i + 1) = 0 :=
    streak_succ_of_not fun hok => hbad (ProbeOutcome.serves_iff.2 hok)
  have hpass : ∀ j < i + 1, now (j + 1) < now 0 + timeout ∧ ¬ neededProbes v ≤ streak (Succeeds outcome) (j + 1) := by
    intro j hj
    refine ⟨hearly j (by omega), fun hlong => ?_⟩
    rcases Nat.lt_succ_iff_lt_or_eq.1 hj with hj | rfl
    · obtain ⟨a, ha, hall⟩ := window_of_le_streak hlong
      obtain ⟨k, hk, hno⟩ := hnone a (by omega)
      exact hno (ProbeOutcome.serves_iff.2 (hall k hk))
    · rw [hstreak] at hlong
      have hpos := neededProbes_pos (v := v)
      omega
  rw [gate_loop hbase]
  show (publicLoop _ _ _ (neededProbes v) _ _).Runs _ _ _ _ ↔ _
  rw [loop_advance hpass, hstreak]
  exact Iff.rfl

end Gate

/-- **The public gate.** For every sequence of outcomes and every clock that does not go back, the gate returns `True`
exactly when enough probes in a row started in time and saw a tenant that serves; any other outcome restarts the count,
and the gate ends when the clock passes the deadline. -/
theorem public_gate (tid : TenantId) {base : String} (hbase : base ≠ "") (timeout : Time) (poll : Nat) (v : Int)
    {now : Nat → Time} (hnow : Monotone now) (outcome : Nat → ProbeOutcome) :
    PublicGate tid base timeout poll v now outcome where
  opens := gate_opens hbase hnow
  one := gate_one hbase
  restarts _ hearly hbad hnone _ _ _ := gate_restarts hbase hearly hbad hnone
  ends h := gate_ends hbase hnow h

/-- A clock of three seconds a reading: two probes fail, and the three after them succeed. -/
theorem public_gate_recovers : ("http://alb" ≠ "" ∧ Monotone fun i : Nat => (i : Time) * 3000000) ∧
    PublicGate "a-0000" "http://alb" 30000000 3 3 (fun i => (i : Time) * 3000000)
      (fun i => if i < 2 then .httpError 404 else .response 200) := by
  have hnow : Monotone fun i : Nat => (i : Time) * 3000000 := by
    intro i j h
    have hcast : (i : Int) ≤ j := by exact_mod_cast h
    exact Int.mul_le_mul_of_nonneg_right hcast (by decide)
  exact ⟨⟨by decide, hnow⟩, public_gate "a-0000" (by decide) 30000000 3 3 hnow _⟩

end OpenClaw
