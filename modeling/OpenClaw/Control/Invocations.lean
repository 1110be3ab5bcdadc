import OpenClaw.Lib.Prog

/-!
# What becomes of a command

`common/ssm.py` asks SSM for the status of a command in three ways: `run` submits the command and asks a number of times,
`wait` asks until a deadline, `poll` asks once. A request may fail, and before the command is registered there is none.

- `Timeline`: the status of one command over time; once it has ended it does not change.
- `runLoop_rule`, `ssmWaitLoop_rule`, `poll_rule`: what an answer says about the timeline.
- `verdicts_agree`: no two answers contradict each other, and `run` gives up only on a command that has not ended in its
  time.
-/

namespace OpenClaw

open Atomic

/-! ## Invocations -/

inductive InvStatus
  | pending
  | inProgress
  | delayed
  | cancelling
  | success
  | cancelled
  | timedOut
  | failed
deriving DecidableEq

/-- `Success`, or one of the three that all functions take for a failure. -/
def InvStatus.verdict : InvStatus → Option Bool
  | .success => some true
  | .cancelled | .timedOut | .failed => some false
  | .pending | .inProgress | .delayed | .cancelling => none

/-- The name SSM gives it. -/
def InvStatus.text : InvStatus → String
  | .pending => "Pending"
  | .inProgress => "InProgress"
  | .delayed => "Delayed"
  | .cancelling => "Cancelling"
  | .success => "Success"
  | .cancelled => "Cancelled"
  | .timedOut => "TimedOut"
  | .failed => "Failed"

structure SsmInvocation where
  status : InvStatus
  stdout : String := ""
  stderr : String := ""
deriving DecidableEq

/-- The invocation of a command at each second, from its registration on. -/
abbrev Timeline := ℕ → Option SsmInvocation

/-- How the command has ended at that time. -/
def Timeline.verdict (L : Timeline) (t : ℕ) : Option Bool := (L t).bind fun i => i.status.verdict

/-- A command that has ended stays as it is. -/
def Timeline.Final (L : Timeline) : Prop := ∀ t ok, L.verdict t = some ok → ∀ u, t ≤ u → L u = L t

/-! ## Requests -/

inductive InvReply
  | found (i : SsmInvocation)
  /-- `InvocationDoesNotExist`. -/
  | missing
  /-- Any other exception. -/
  | raised (text : String)

inductive SsmOp
  /-- `none` is no exception. -/
  | sendCommand
  | getInvocation
  | sleep (sec : ℕ)
  | time

@[reducible] def SsmOp.Ans : SsmOp → Type
  | .sendCommand => Option String
  | .getInvocation => InvReply
  | .sleep _ => Unit
  | .time => ℕ

abbrev Ssm : Sig := ⟨SsmOp, SsmOp.Ans⟩

abbrev SsmProg := Prog Ssm

abbrev ssm (c : SsmOp) : SsmProg c.Ans := @Prog.lift Ssm c

@[simp] theorem ssm_bind {β : Type} (c : SsmOp) (f : c.Ans → SsmProg β) :
    @Bind.bind SsmProg _ (no_index c.Ans) β (ssm c) f = @Prog.call Ssm β c f := rfl

/-- What SSM has on the command. -/
def Timeline.reply (L : Timeline) (t : ℕ) : InvReply :=
  match L t with
  | none => .missing
  | some i => .found i

/-- Every call takes some time. -/
def ssmStep (L : Timeline) : (c : SsmOp) → c.Ans → ℕ → ℕ → Prop
  | .sendCommand, _, t, t' => t ≤ t'
  | .getInvocation, r, t, t' => t ≤ t' ∧ ((∃ text, r = .raised text) ∨ ∃ u, t ≤ u ∧ u ≤ t' ∧ r = L.reply u)
  | .sleep sec, _, t, t' => t + sec ≤ t'
  | .time, r, t, t' => t ≤ r ∧ r ≤ t'

def ssmSem (L : Timeline) : Sem Ssm ℕ := ⟨ssmStep L⟩

/-! ## The three functions -/

/-- What `run` and `wait` return. -/
inductive SsmResult
  | ended (ok : Bool) (text : String)
  | gaveUp (text : String)
  | raised (text : String)
deriving DecidableEq

/-- The flag a caller looks at. -/
def SsmResult.ok : SsmResult → Bool
  | .ended ok _ => ok
  | .gaveUp _ | .raised _ => false

/-- The `for` loop of `run`. -/
def runLoop (pollSec : ℕ) : ℕ → SsmProg SsmResult
  | 0 => pure (.gaveUp "timeout")
  | n + 1 => do
    let r ← ssm .getInvocation
    match r with
    | .raised text => pure (.raised text)
    | .missing => do
      let _ ← ssm (.sleep pollSec)
      runLoop pollSec n
    | .found i =>
      match i.status.verdict with
      | some true => pure (.ended true i.stdout)
      | some false => pure (.ended false i.stderr)
      | none => do
        let _ ← ssm (.sleep pollSec)
        runLoop pollSec n

/-- `run`. -/
def ssmRunner (timeout initialSleep pollSec : ℕ) : SsmProg SsmResult := do
  let sent ← ssm .sendCommand
  match sent with
  | some text => pure (.raised text)
  | none => do
    let _ ← ssm (.sleep initialSleep)
    runLoop pollSec (max 1 (timeout / 2))

/-- `poll`: whether the command has ended, and how. -/
def ssmPoll : SsmProg (Bool × Bool) := do
  let r ← ssm .getInvocation
  match r with
  | .missing | .raised _ => pure (false, false)
  | .found i =>
    match i.status.verdict with
    | some true => pure (true, true)
    | some false => pure (true, false)
    | none => pure (false, false)

/-- The `while` loop of `wait`, with a bound on its passes; `none` is out of passes. -/
def ssmWaitLoop (deadline pollSec timeoutSec : ℕ) : ℕ → String → SsmProg (Option SsmResult)
  | 0, _ => pure none
  | n + 1, last => do
    let t ← ssm .time
    if t < deadline then do
      let _ ← ssm (.sleep pollSec)
      let r ← ssm .getInvocation
      match r with
      | .missing => ssmWaitLoop deadline pollSec timeoutSec n last
      | .raised text => pure (some (.raised ("get_command_invocation: " ++ text)))
      | .found i =>
        match i.status.verdict with
        | some true => pure (some (.ended true ""))
        | some false => pure (some (.ended false ("SSM " ++ i.status.text ++ ": " ++ String.ofList (i.stderr.toList.take 500))))
        | none => ssmWaitLoop deadline pollSec timeoutSec n i.status.text
    else pure (some (.gaveUp ("SSM timeout after " ++ toString timeoutSec ++ "s (last_status=" ++ last ++ ")")))

/-- `wait`, with a bound on its passes. -/
def ssmWait (timeoutSec pollSec n : ℕ) : SsmProg (Option SsmResult) := do
  let t ← ssm .time
  ssmWaitLoop (t + timeoutSec) pollSec timeoutSec n "Pending"

/-! ## What an answer says -/

section Rules

variable {L : Timeline} {t u pollSec : ℕ} {ok ok' : Bool}

/-- The command had ended so at a time not after `t`. -/
def Timeline.EndedBy (L : Timeline) (ok : Bool) (t : ℕ) : Prop := ∃ u ≤ t, L.verdict u = some ok

theorem Timeline.EndedBy.mono (h : L.EndedBy ok t) (htu : t ≤ u) : L.EndedBy ok u := by
  obtain ⟨s, hs, hv⟩ := h
  exact ⟨s, hs.trans htu, hv⟩

/-- A command ends in one way. -/
theorem Timeline.Final.endedBy_unique (hL : L.Final) (h : L.EndedBy ok t) (h' : L.EndedBy ok' u) : ok' = ok := by
  obtain ⟨s, -, hv⟩ := h
  obtain ⟨s', -, hv'⟩ := h'
  have hsame : L.verdict (max s s') = some ok := by
    unfold Timeline.verdict
    rw [hL s ok hv _ (le_max_left s s')]
    exact hv
  have hsame' : L.verdict (max s s') = some ok' := by
    unfold Timeline.verdict
    rw [hL s' ok' hv' _ (le_max_right s s')]
    exact hv'
  exact Option.some.inj (hsame'.symm.trans hsame)

/-- Before a time at which the command has not ended it had not either. -/
theorem Timeline.Final.none_before (hL : L.Final) (h : L.verdict t = none) (hut : u ≤ t) : L.verdict u = none := by
  cases hv : L.verdict u with
  | none => rfl
  | some ok =>
    have hsame : L.verdict t = some ok := by
      unfold Timeline.verdict
      rw [hL u ok hv t hut]
      exact hv
    rw [h] at hsame
    cases hsame

theorem Timeline.verdict_of_missing (h : InvReply.missing = L.reply u) : L.verdict u = none := by
  unfold Timeline.reply at h
  cases hu : L u with
  | none => simp [Timeline.verdict, hu]
  | some i => simp [hu] at h

theorem Timeline.verdict_of_found {i : SsmInvocation} (h : InvReply.found i = L.reply u) :
    L.verdict u = i.status.verdict := by
  unfold Timeline.reply at h
  cases hu : L u with
  | none => simp [hu] at h
  | some j =>
    simp only [hu, InvReply.found.injEq] at h
    subst h
    simp [Timeline.verdict, hu]

/-- What the result of `run` says, when the last of `n` requests is made at the time `last` or later. -/
def RunSays (L : Timeline) (last : ℕ → ℕ) (n : ℕ) (r : SsmResult) (t : ℕ) : Prop :=
  match r with
  | .ended ok _ => L.EndedBy ok t
  | .gaveUp _ => ∀ m, n = m + 1 → ∀ u ≤ last m, L.verdict u = none
  | .raised _ => True

/-- **The loop of `run`.** -/
theorem runLoop_rule (hL : L.Final) (n : ℕ) :
    (runLoop pollSec n).wp (ssmSem L) (RunSays L (fun m => t + m * pollSec) n) t := by
  induction n generalizing t with
  | zero =>
    intro m hm
    cases hm
  | succ n ih =>
    -- The loop goes on after an answer from which the command had not ended at a time from `t` on.
    have hnext : ∀ {s t'}, t ≤ s → s ≤ t' → L.verdict s = none → ∀ (_ : Unit) t'', t' + pollSec ≤ t'' →
        (runLoop pollSec n).wp (ssmSem L) (RunSays L (fun m => t + m * pollSec) (n + 1)) t'' := by
      intro s t' hts hst hnone _ t'' hsleep
      refine Prog.wp_mono ?_ (ih (t := t''))
      intro r t₃ hr
      cases r with
      | ended ok text => exact hr
      | raised text => trivial
      | gaveUp text =>
        intro m hm u hu
        obtain rfl : n = m := Nat.succ.inj hm
        have hu : u ≤ t + n * pollSec := hu
        cases n with
        | zero => exact hL.none_before hnone (by omega)
        | succ k =>
          have hmul : (k + 1) * pollSec = k * pollSec + pollSec := Nat.succ_mul k pollSec
          exact hr k rfl u (show u ≤ t'' + k * pollSec by omega)
    simp only [runLoop, ssm_bind, Prog.pure_eq]
    rintro r t' ⟨htt, ⟨text, rfl⟩ | ⟨s, hts, hst, hr⟩⟩
    · trivial
    · cases r with
      | raised text => trivial
      | missing => exact hnext hts hst (Timeline.verdict_of_missing hr)
      | found i =>
        have hv := Timeline.verdict_of_found hr
        rcases hi : i.status.verdict with _ | _ | _
        · rw [hi] at hv
          simp only [hi]
          exact hnext hts hst hv
        · rw [hi] at hv
          simp only [hi]
          exact ⟨s, hst, hv⟩
        · rw [hi] at hv
          simp only [hi]
          exact ⟨s, hst, hv⟩

/-- **`run`.** -/
theorem ssmRunner_rule (hL : L.Final) (timeout initialSleep : ℕ) :
    (ssmRunner timeout initialSleep pollSec).wp (ssmSem L)
      (RunSays L (fun m => t + initialSleep + m * pollSec) (max 1 (timeout / 2))) t := by
  simp only [ssmRunner, ssm_bind, Prog.pure_eq]
  intro sent t₁ h₁
  cases sent with
  | some text => trivial
  | none =>
    intro _ t₂ h₂
    have h₁ : t ≤ t₁ := h₁
    have h₂ : t₁ + initialSleep ≤ t₂ := h₂
    refine Prog.wp_mono ?_ (runLoop_rule hL _)
    intro r t₃ hr
    cases r with
    | ended ok text => exact hr
    | raised text => trivial
    | gaveUp text =>
      intro m hm u hu
      have hu : u ≤ t + initialSleep + m * pollSec := hu
      exact hr m hm u (show u ≤ t₂ + m * pollSec by omega)

/-- **`poll`.** -/
theorem ssmPoll_rule : ssmPoll.wp (ssmSem L) (fun r t' => r.1 = true → L.EndedBy r.2 t') t := by
  simp only [ssmPoll, ssm_bind, Prog.pure_eq]
  rintro r t' ⟨htt, ⟨text, rfl⟩ | ⟨s, hts, hst, hr⟩⟩
  · intro h
    cases h
  · cases r with
    | missing =>
      intro h
      cases h
    | raised text =>
      intro h
      cases h
    | found i =>
      have hv := Timeline.verdict_of_found hr
      rcases hi : i.status.verdict with _ | _ | _
      · simp [hi]
      · rw [hi] at hv
        simp only [hi]
        exact fun _ => ⟨s, hst, hv⟩
      · rw [hi] at hv
        simp only [hi]
        exact fun _ => ⟨s, hst, hv⟩

/-- **The loop of `wait`.** It does not run out of passes when they take it past the deadline. -/
theorem ssmWaitLoop_rule {deadline timeoutSec n : ℕ} {last : String} :
    (ssmWaitLoop deadline pollSec timeoutSec n last).wp (ssmSem L) (fun r t' =>
      (∀ ok text, r = some (.ended ok text) → L.EndedBy ok t') ∧
        ∀ m, n = m + 1 → deadline ≤ t + m * pollSec → r ≠ none) t := by
  induction n generalizing t last with
  | zero => exact ⟨fun ok text h => (by cases h), fun m h => (by cases h)⟩
  | succ n ih =>
    have hdone : ∀ {r : SsmResult} {t' : ℕ}, (∀ ok text, r = .ended ok text → L.EndedBy ok t') →
        (∀ ok text, some r = some (.ended ok text) → L.EndedBy ok t') ∧
          ∀ m, n + 1 = m + 1 → deadline ≤ t + m * pollSec → some r ≠ none :=
      fun h => ⟨fun ok text he => h ok text (Option.some.inj he), fun _ _ _ => Option.some_ne_none _⟩
    simp only [ssmWaitLoop, ssm_bind, Prog.pure_eq]
    rintro (now : ℕ) t₁ ⟨hnow, hnow'⟩
    have hnow : t ≤ now := hnow
    have hnow' : now ≤ t₁ := hnow'
    by_cases hd : now < deadline
    · simp only [if_pos hd]
      intro _ t₂ hsleep
      have hsleep : t₁ + pollSec ≤ t₂ := hsleep
      have hnext : ∀ {t₃ last'}, t₂ ≤ t₃ → (ssmWaitLoop deadline pollSec timeoutSec n last').wp (ssmSem L) (fun r t' =>
          (∀ ok text, r = some (.ended ok text) → L.EndedBy ok t') ∧
            ∀ m, n + 1 = m + 1 → deadline ≤ t + m * pollSec → r ≠ none) t₃ := by
        intro t₃ last' h₃
        refine Prog.wp_mono ?_ ih
        rintro r t' ⟨hends, hpasses⟩
        refine ⟨hends, fun m hm hle => ?_⟩
        obtain rfl : n = m := Nat.succ.inj hm
        cases n with
        | zero =>
          rw [Nat.zero_mul] at hle
          omega
        | succ k =>
          have hmul : (k + 1) * pollSec = k * pollSec + pollSec := Nat.succ_mul k pollSec
          exact hpasses k rfl (by omega)
      rintro r t₃ ⟨h₃, ⟨text, rfl⟩ | ⟨s, hs, hs', hr⟩⟩
      · exact hdone fun ok text h => by cases h
      · cases r with
        | raised text => exact hdone fun ok text h => by cases h
        | missing => exact hnext h₃
        | found i =>
          have hv := Timeline.verdict_of_found hr
          rcases hi : i.status.verdict with _ | _ | _
          · simp only [hi]
            exact hnext h₃
          · rw [hi] at hv
            simp only [hi]
            refine hdone fun ok text h => ?_
            obtain ⟨rfl, -⟩ := SsmResult.ended.inj h
            exact ⟨s, hs', hv⟩
          · rw [hi] at hv
            simp only [hi]
            refine hdone fun ok text h => ?_
            obtain ⟨rfl, -⟩ := SsmResult.ended.inj h
            exact ⟨s, hs', hv⟩
    · simp only [if_neg hd]
      exact hdone fun ok text h => by cases h

/-- **`wait`.** -/
theorem ssmWait_rule {timeoutSec n : ℕ} (hpoll : 0 < pollSec) :
    (ssmWait timeoutSec pollSec n).wp (ssmSem L) (fun r t' =>
      (∀ ok text, r = some (.ended ok text) → L.EndedBy ok t') ∧ (timeoutSec < n → r ≠ none)) t := by
  simp only [ssmWait, ssm_bind]
  rintro (now : ℕ) t₁ ⟨-, hnow⟩
  have hnow : now ≤ t₁ := hnow
  refine Prog.wp_mono ?_ ssmWaitLoop_rule
  rintro r t' ⟨hends, hpasses⟩
  refine ⟨hends, fun hn => ?_⟩
  obtain ⟨m, rfl⟩ : ∃ m, n = m + 1 := ⟨n - 1, by omega⟩
  have hmul : m ≤ m * pollSec := Nat.le_mul_of_pos_right m hpoll
  exact hpasses m rfl (by omega)

end Rules

/-! ## Verdicts -/

/-- One of the three functions says that the command has ended so. -/
inductive Says (L : Timeline) : Bool → Prop
  | run {timeout initialSleep pollSec t t' : ℕ} {ok : Bool} {text : String}
      (h : (ssmRunner timeout initialSleep pollSec).Runs (ssmSem L) t (.ended ok text) t') : Says L ok
  | wait {timeoutSec pollSec n t t' : ℕ} {ok : Bool} {text : String} (hpoll : 0 < pollSec)
      (h : (ssmWait timeoutSec pollSec n).Runs (ssmSem L) t (some (.ended ok text)) t') : Says L ok
  | poll {t t' : ℕ} {ok : Bool} (h : ssmPoll.Runs (ssmSem L) t (true, ok) t') : Says L ok

section Verdicts

variable {L : Timeline}

theorem Says.endedBy (hL : L.Final) {ok : Bool} (h : Says L ok) : ∃ t, L.EndedBy ok t := by
  cases h with
  | run h => exact ⟨_, Prog.wp_iff_runs.1 (ssmRunner_rule hL _ _) _ _ h⟩
  | wait hpoll h => exact ⟨_, (Prog.wp_iff_runs.1 (ssmWait_rule hpoll) _ _ h).1 _ _ rfl⟩
  | poll h => exact ⟨_, Prog.wp_iff_runs.1 ssmPoll_rule _ _ h rfl⟩

/-- **Verdicts agree.** Whenever two of `run`, `wait` and `poll` say how a command has ended, they say the same. `run`
gives up only if the command had not ended by the earliest moment of its last request, which is not within its time-out as
`_ssm_run` calls it; and `wait` returns. -/
theorem verdicts_agree (hL : L.Final) :
    (∀ ok ok', Says L ok → Says L ok' → ok' = ok) ∧
    (∀ timeout initialSleep pollSec t t' text,
      (ssmRunner timeout initialSleep pollSec).Runs (ssmSem L) t (.gaveUp text) t' →
        ∀ u ≤ t + initialSleep + (max 1 (timeout / 2) - 1) * pollSec, L.verdict u = none) ∧
    (∀ timeout t t' text, (ssmRunner timeout 3 2).Runs (ssmSem L) t (.gaveUp text) t' →
      ∀ u ≤ t + timeout, L.verdict u = none) ∧
    ∀ timeoutSec pollSec n t t', 0 < pollSec → timeoutSec < n →
      ¬ (ssmWait timeoutSec pollSec n).Runs (ssmSem L) t none t' := by
  have hrun : ∀ timeout initialSleep pollSec t t' text,
      (ssmRunner timeout initialSleep pollSec).Runs (ssmSem L) t (.gaveUp text) t' →
        ∀ u ≤ t + initialSleep + (max 1 (timeout / 2) - 1) * pollSec, L.verdict u = none := by
    intro timeout initialSleep pollSec t t' text h u hu
    exact Prog.wp_iff_runs.1 (ssmRunner_rule hL timeout initialSleep) _ _ h _ (by omega) u hu
  refine ⟨fun ok ok' h h' => ?_, hrun, fun timeout t t' text h u hu => ?_, fun timeoutSec pollSec n t t' hpoll hn h => ?_⟩
  · obtain ⟨t, ht⟩ := h.endedBy hL
    obtain ⟨t', ht'⟩ := h'.endedBy hL
    exact hL.endedBy_unique ht ht'
  · exact hrun timeout 3 2 t t' text h u (by omega)
  · exact (Prog.wp_iff_runs.1 (ssmWait_rule hpoll) _ _ h).2 hn rfl

/-- A command that is running for four seconds. -/
def shortCommand : Timeline := fun t => some { status := if t < 4 then .inProgress else .success }

theorem shortCommand_final : shortCommand.Final := by
  intro t ok h u hu
  have ht : ¬ t < 4 := by
    intro ht
    simp [Timeline.verdict, shortCommand, ht, InvStatus.verdict] at h
  have hu : ¬ u < 4 := by omega
  simp [shortCommand, ht, hu]

/-- The first request comes too early, the second one does not. -/
theorem shortCommand_runs : (ssmRunner 30 3 2).Runs (ssmSem shortCommand) 0 (.ended true "") 5 := by
  have hsent : ssmStep shortCommand .sendCommand none 0 0 := Nat.le_refl 0
  have hslept : ssmStep shortCommand (.sleep 3) () 0 3 := Nat.le_refl 3
  have hslept' : ssmStep shortCommand (.sleep 2) () 3 5 := Nat.le_refl 5
  have hasked : ∀ t, ssmStep shortCommand .getInvocation (shortCommand.reply t) t t := fun t =>
    ⟨Nat.le_refl t, .inr ⟨t, Nat.le_refl t, Nat.le_refl t, rfl⟩⟩
  have hlast : (runLoop 2 14).Runs (ssmSem shortCommand) 5 (.ended true "") 5 := .call (hasked 5) (.ret ..)
  have hfirst : (runLoop 2 15).Runs (ssmSem shortCommand) 3 (.ended true "") 5 :=
    .call (hasked 3) (.call (r := ()) hslept' hlast)
  exact .call (r := none) hsent (.call (r := ()) hslept hfirst)

/-- The others then say the same. -/
theorem verdicts_agree_short : Says shortCommand true ∧ ¬ Says shortCommand false := by
  have hrun : Says shortCommand true := .run shortCommand_runs
  refine ⟨hrun, fun h => ?_⟩
  cases (verdicts_agree shortCommand_final).1 true false hrun h

end Verdicts

end OpenClaw
