import OpenClaw.Control.Calls
import OpenClaw.Lib.Prog
import OpenClaw.Lib.Script

/-!
# The verify gate of a failover

`_verify_vm_actually_running` sends a probe to the host again and again until one reports `VERIFIED` or the time is up.
The probe checks the process, the nginx configuration and the local HTTP answer; each of the first two checks ends a
subshell only when it fails, so that the HTTP answer alone decides.

- `probe_passes_iff`: when the probe succeeds with `VERIFIED`.
- `verify_gate`: for which probe outcomes the gate returns `True` only with all three signals in one probe.
-/

namespace OpenClaw

open Atomic Script

/-! ## The probe -/

/-- What the checks of one probe find. -/
structure Signals where
  /-- `pgrep` finds a process with the socket of the tenant. -/
  process : Bool
  /-- The nginx configuration of the tenant is a file. -/
  conf : Bool
  /-- The code that `curl` writes, `0` when there was no response; `none` when it writes nothing. -/
  http : Option Nat

/-- All three signals: a response below 500, too. -/
def Signals.Good (s : Signals) : Prop := s.process = true ∧ s.conf = true ∧ ∃ n, s.http = some n ∧ 0 < n ∧ n < 500

/-- `%{http_code}` has three digits. -/
def codeText : Option Nat → String
  | none => ""
  | some n => (if n < 10 then "00" else if n < 100 then "0" else "") ++ toString n

/-- The variable `code` of the probe. -/
structure ProbeVars where
  code : Option Nat := none

section Probe

variable (x : Signals)

/-- `pgrep ... || (echo NOT_RUNNING_NO_PROCESS; exit 1)` -/
def checkProcess : Sh ProbeVars :=
  .orElse (.test fun _ => x.process) (.sub (.seq (.echo fun _ => "NOT_RUNNING_NO_PROCESS") (.exit 1)))

/-- `test -f ... || (echo NOT_RUNNING_NO_NGINX_CONF; exit 1)` -/
def checkConf : Sh ProbeVars :=
  .orElse (.test fun _ => x.conf) (.sub (.seq (.echo fun _ => "NOT_RUNNING_NO_NGINX_CONF") (.exit 1)))

/-- `code=$(curl ...)` -/
def setCode : Sh ProbeVars := .cmd fun _ => ⟨0, "", ⟨x.http⟩⟩

/-- `[ "$code" = "000" ] || [ "$code" -ge 500 ] 2>/dev/null`; an empty string is no number, and the second test fails. -/
def httpDown : Sh ProbeVars := .orElse (.test fun s => s.code = some 0) (.test fun s => s.code.any fun n => 500 ≤ n)

/-- The verdict on the HTTP answer. -/
def httpVerdict : Sh ProbeVars :=
  .ite httpDown
    (.seq (.echo fun s => "NOT_RUNNING_HTTP_" ++ codeText s.code) (.exit 1))
    (.echo fun s => "VERIFIED_HTTP_" ++ codeText s.code)

/-- `probe_cmd`. -/
def probeCmd : Sh ProbeVars := .seq (checkProcess x) (.seq (checkConf x) (.seq (setCode x) httpVerdict))

/-- The exit status and the standard output of the probe. -/
def probeReply : ShReply ProbeVars := ((probeCmd x).run {}).2

/-- The probe ends with status 0 and reports `VERIFIED`. -/
def Signals.Passes : Prop := (probeReply x).status = 0 ∧ hasSub "VERIFIED" (probeReply x).out = true

variable {x}

theorem checkProcess_continues : (checkProcess x).Continues := .orElse (.cmd _) (.sub _)

theorem checkConf_continues : (checkConf x).Continues := .orElse (.cmd _) (.sub _)

/-- **The first two checks decide nothing**: the probe has the status of its verdict on the HTTP answer, and ends with
what that one writes. -/
theorem probeReply_verdict : (probeReply x).status = (httpVerdict.run ⟨x.http⟩).2.status ∧
    (httpVerdict.run ⟨x.http⟩).2.out.toList <:+ (probeReply x).out.toList := by
  have hcode : (setCode x).Continues := .cmd _
  constructor
  · rw [probeReply, probeCmd, checkProcess_continues.status_seq, checkConf_continues.status_seq, hcode.status_seq]
    rfl
  · rw [probeReply, probeCmd, checkProcess_continues.out_seq, checkConf_continues.out_seq, hcode.out_seq]
    simp only [String.toList_append]
    exact (List.suffix_append _ _).trans ((List.suffix_append _ _).trans (List.suffix_append _ _))

theorem httpDown_status (s : ProbeVars) :
    (httpDown.run s).2.status = 0 ↔ s.code = some 0 ∨ ∃ n, s.code = some n ∧ 500 ≤ n := by
  obtain ⟨_ | n⟩ := s
  · simp [httpDown, Sh.test, Sh.run, ShReply.andThen]
  · by_cases h0 : n = 0 <;> by_cases h5 : 500 ≤ n <;> simp [httpDown, Sh.test, Sh.run, ShReply.andThen, h0, h5]

theorem httpVerdict_status (s : ProbeVars) :
    (httpVerdict.run s).2.status = 0 ↔ ¬ (s.code = some 0 ∨ ∃ n, s.code = some n ∧ 500 ≤ n) := by
  have hcont : httpDown.Continues := .orElse (.cmd _) (.cmd _)
  rw [← httpDown_status, httpVerdict, Sh.run, if_neg (by simp [hcont s])]
  by_cases h : (httpDown.run s).2.status = 0
  · simp [h, Sh.run, Sh.echo, ShReply.andThen]
  · simp [h, Sh.run, Sh.echo, ShReply.andThen]

/-- A verdict with status 0 is `VERIFIED`. -/
theorem httpVerdict_out {s : ProbeVars} (h : (httpVerdict.run s).2.status = 0) :
    "VERIFIED".toList <:+: (httpVerdict.run s).2.out.toList := by
  have hcont : httpDown.Continues := .orElse (.cmd _) (.cmd _)
  have hup : ¬ (httpDown.run s).2.status = 0 := by
    rw [httpDown_status]
    exact (httpVerdict_status s).1 h
  rw [httpVerdict, Sh.run, if_neg (by simp [hcont s]), if_neg hup]
  simp only [Sh.echo, Sh.run, ShReply.andThen, String.toList_append]
  have hword : "VERIFIED".toList <:+: "VERIFIED_HTTP_".toList := ⟨[], "_HTTP_".toList, rfl⟩
  refine hword.trans ⟨(httpDown.run s).2.out.toList, (codeText (httpDown.run s).2.vars.code).toList ++ "\n".toList, ?_⟩
  simp

/-- **When a probe passes**: there was a response below 500, or `curl` wrote nothing. -/
theorem probe_passes_iff : x.Passes ↔ x.http = none ∨ ∃ n, x.http = some n ∧ 0 < n ∧ n < 500 := by
  obtain ⟨hstatus, hout⟩ := @probeReply_verdict x
  have hiff : (probeReply x).status = 0 ↔ ¬ (x.http = some 0 ∨ ∃ n, x.http = some n ∧ 500 ≤ n) := by
    rw [hstatus]
    exact httpVerdict_status _
  have hpass : x.Passes ↔ (probeReply x).status = 0 := by
    refine ⟨fun h => h.1, fun h => ⟨h, ?_⟩⟩
    exact decide_eq_true ((httpVerdict_out (hstatus ▸ h)).trans hout.isInfix)
  rw [hpass, hiff]
  cases x.http with
  | none => simp
  | some n =>
    simp only [Option.some.injEq, reduceCtorEq, false_or]
    constructor
    · intro h
      refine ⟨n, rfl, Nat.pos_of_ne_zero fun h0 => h (.inl h0), ?_⟩
      by_contra h5
      exact h (.inr ⟨n, rfl, by omega⟩)
    · rintro ⟨m, rfl, hpos, hlt⟩ (h0 | ⟨k, rfl, h5⟩)
      · omega
      · omega

end Probe

/-! ## The gate -/

/-- The states of an SSM invocation. -/
inductive SsmStatus
  | pending
  | inProgress
  | delayed
  | success
  | cancelled
  | timedOut
  | failed
deriving DecidableEq

/-- What `get_command_invocation` answers. -/
inductive SsmAnswer
  /-- `InvocationDoesNotExist`. -/
  | missing
  /-- Any other exception. -/
  | raised
  | found (status : SsmStatus) (stdout : String)

inductive GateCall
  | time
  | sleep (sec : Nat)
  /-- `send_command` with the probe. -/
  | sendProbe
  | invocation (cmd : CommandId)

@[reducible] def GateCall.Ans : GateCall → Type
  | .time => Time
  | .sleep _ => Unit
  | .sendProbe => Option CommandId
  | .invocation _ => SsmAnswer

abbrev Gate : Sig := ⟨GateCall, GateCall.Ans⟩

abbrev GateProg := Prog Gate

abbrev ask (c : GateCall) : GateProg c.Ans := @Prog.lift Gate c

@[simp] theorem ask_bind {β : Type} (c : GateCall) (f : c.Ans → GateProg β) :
    @Bind.bind GateProg _ (no_index c.Ans) β (ask c) f = @Prog.call Gate β c f := rfl

/-- Seconds in microseconds. -/
def seconds (n : Nat) : Int := (n : Int) * 1000000

/-- The loop of `ssm.wait`, with a bound on its passes; `none` is out of passes. -/
def waitLoop (cmd : CommandId) (deadline : Time) (poll : Nat) : Nat → GateProg (Option Bool)
  | 0 => pure none
  | n + 1 => do
    let t ← ask .time
    if t < deadline then do
      let _ ← ask (.sleep poll)
      let inv ← ask (.invocation cmd)
      match inv with
      | .missing => waitLoop cmd deadline poll n
      | .raised => pure (some false)
      | .found .success _ => pure (some true)
      | .found .cancelled _ | .found .timedOut _ | .found .failed _ => pure (some false)
      | .found _ _ => waitLoop cmd deadline poll n
    else pure (some false)

/-- `ssm.wait`. -/
def ssmWaitDone (cmd : CommandId) (timeout poll : Nat) : GateProg (Option Bool) := do
  let t ← ask .time
  waitLoop cmd (t + seconds timeout) poll (timeout / poll + 2)

/-- The `try` block of a pass: whether it returns `True`. -/
def probeOnce : GateProg (Option Bool) := do
  let sent ← ask .sendProbe
  match sent with
  | none => pure (some false)
  | some cmd => do
    let ok ← ssmWaitDone cmd 20 2
    match ok with
    | none => pure none
    | some false => pure (some false)
    | some true => do
      let inv ← ask (.invocation cmd)
      match inv with
      | .found _ stdout => pure (some (hasSub "VERIFIED" stdout))
      | _ => pure (some false)

/-- The loop of `_verify_vm_actually_running`, with a bound on its passes. -/
def verifyLoop (deadline : Time) (poll : Nat) : Nat → GateProg (Option Bool)
  | 0 => pure none
  | n + 1 => do
    let t ← ask .time
    if t < deadline then do
      let r ← probeOnce
      match r with
      | none => pure none
      | some true => pure (some true)
      | some false => do
        let _ ← ask (.sleep poll)
        verifyLoop deadline poll n
    else pure (some false)

/-- `_verify_vm_actually_running`. -/
def verifyVmActuallyRunning (timeout poll : Nat) : GateProg (Option Bool) := do
  let t ← ask .time
  verifyLoop (t + seconds timeout) poll (timeout / poll + 2)

/-! ## The services -/

/-- The clock, and how many probes have been sent. -/
structure GateWorld where
  clock : Time
  sent : Nat

/-- What a successful invocation says is the reply of its script; a part of the output may be missing. -/
def SsmAnswer.Faithful (x : Signals) : SsmAnswer → Prop
  | .found status stdout => (status = .success → (probeReply x).status = 0) ∧
      stdout.toList <+: (probeReply x).out.toList
  | _ => True

/-- The probe that is sent as number `i` finds `sigs i`; any request may fail, and time passes at will. -/
def gateStep (sigs : Nat → Signals) : (c : GateCall) → c.Ans → GateWorld → GateWorld → Prop
  | .time, r, w, w' => w.clock ≤ r ∧ w' = { w with clock := r }
  | .sleep n, _, w, w' => w.clock + seconds n ≤ w'.clock ∧ w'.sent = w.sent
  | .sendProbe, r, w, w' =>
    match r with
    | some id => id = w.sent ∧ w' = { w with sent := w.sent + 1 }
    | none => w' = w
  | .invocation id, r, w, w' => r.Faithful (sigs id) ∧ w' = w

def gate (sigs : Nat → Signals) : Sem Gate GateWorld := ⟨gateStep sigs⟩

/-- For these outcomes of the probes the gate returns, with `True` only when one of the probes it sent was good, and
with `False` when none of them was. -/
def ThreeSignals (timeout poll : Nat) (sigs : Nat → Signals) : Prop :=
  ∀ (w w' : GateWorld) (r : Option Bool), w.sent = 0 →
    (verifyVmActuallyRunning timeout poll).Runs (gate sigs) w r w' →
    r ≠ none ∧ (r = some true → ∃ i < w'.sent, (sigs i).Good) ∧
      ((∀ i < w'.sent, ¬ (sigs i).Good) → r = some false)

section Gate

variable {sigs : Nat → Signals} {w w' : GateWorld} {deadline start : Int} {cmd : CommandId} {poll n : Nat}

/-! ### One rule for each call -/

variable {α : Type} {Q : α → GateWorld → Prop}

theorem wp_time {k : Int → GateProg α} (h : ∀ t : Int, w.clock ≤ t → (k t).wp (gate sigs) Q ⟨t, w.sent⟩) :
    (@Prog.call Gate α .time k).wp (gate sigs) Q w := by
  intro t w₁ hs
  obtain ⟨ht, rfl⟩ := hs
  exact h t ht

theorem wp_sleep {k : Unit → GateProg α}
    (h : ∀ t : Int, w.clock + seconds n ≤ t → (k ()).wp (gate sigs) Q ⟨t, w.sent⟩) :
    (@Prog.call Gate α (.sleep n) k).wp (gate sigs) Q w := by
  intro u w₁ hs
  obtain ⟨ht, hsent⟩ := hs
  have hw : w₁ = ⟨w₁.clock, w.sent⟩ := by rw [← hsent]
  rw [hw]
  exact h w₁.clock ht

theorem wp_send {k : Option CommandId → GateProg α} (hno : (k none).wp (gate sigs) Q w)
    (hsent : (k (some w.sent)).wp (gate sigs) Q ⟨w.clock, w.sent + 1⟩) :
    (@Prog.call Gate α .sendProbe k).wp (gate sigs) Q w := by
  intro r w₁ hs
  cases r with
  | none =>
    obtain rfl := hs
    exact hno
  | some id =>
    obtain ⟨rfl, rfl⟩ := hs
    exact hsent

theorem wp_invocation {k : SsmAnswer → GateProg α}
    (h : ∀ inv : SsmAnswer, inv.Faithful (sigs cmd) → (k inv).wp (gate sigs) Q w) :
    (@Prog.call Gate α (.invocation cmd) k).wp (gate sigs) Q w := by
  intro inv w₁ hs
  obtain ⟨hf, rfl⟩ := hs
  exact h inv hf

/-! ### The loops -/

/-- A successful invocation whose output has the word. -/
theorem found_passes {status : SsmStatus} {stdout : String} {x : Signals} (h₁ : (probeReply x).status = 0)
    (h₂ : (SsmAnswer.found status stdout).Faithful x) (hv : hasSub "VERIFIED" stdout = true) : x.Passes :=
  ⟨h₁, decide_eq_true ((of_decide_eq_true hv).trans h₂.2.isInfix)⟩

/-- What a wait for the command leaves: it sends nothing and ends; it lets one poll pass, or the deadline. -/
def Waited (sigs : Nat → Signals) (deadline : Int) (poll : Nat) (cmd : CommandId) (w : GateWorld) (r : Option Bool)
    (w' : GateWorld) : Prop :=
  r ≠ none ∧ w'.sent = w.sent ∧ (w.clock + seconds poll ≤ w'.clock ∨ deadline ≤ w'.clock) ∧
    (r = some true → (probeReply (sigs cmd)).status = 0)

theorem seconds_nonneg (n : Nat) : 0 ≤ seconds n := by
  simp only [seconds]
  positivity

/-- **The wait.** -/
theorem waitLoop_wp (hfuel : deadline ≤ w.clock + n * seconds poll) :
    (waitLoop cmd deadline poll (n + 1)).wp (gate sigs) (Waited sigs deadline poll cmd w) w := by
  induction n generalizing w with
  | zero =>
    simp only [waitLoop, ask_bind, Prog.pure_eq]
    refine wp_time fun t ht => ?_
    have hlate : deadline ≤ t := by
      simp only [Nat.cast_zero, zero_mul, add_zero] at hfuel
      exact le_trans hfuel ht
    rw [if_neg (not_lt.2 hlate)]
    exact ⟨by simp, rfl, .inr hlate, by simp⟩
  | succ n ih =>
    rw [waitLoop]
    simp only [ask_bind, Prog.pure_eq]
    refine wp_time fun t ht => ?_
    split
    · refine wp_sleep fun t' ht' => wp_invocation fun inv hinv => ?_
      simp only at ht'
      have hslept : w.clock + seconds poll ≤ t' := by linarith
      have hagain : (waitLoop cmd deadline poll (n + 1)).wp (gate sigs) (Waited sigs deadline poll cmd w) ⟨t', w.sent⟩ := by
        have hrest : deadline ≤ t' + n * seconds poll := by
          push_cast at hfuel
          linarith
        refine Prog.wp_mono ?_ (ih hrest)
        intro r w' h
        obtain ⟨hr, hs, htime, hst⟩ := h
        have hpos := seconds_nonneg poll
        exact ⟨hr, hs, htime.imp_left fun h => by simp only at h; linarith, hst⟩
      have hend : ∀ b : Bool, (b = true → (probeReply (sigs cmd)).status = 0) →
          Waited sigs deadline poll cmd w (some b) ⟨t', w.sent⟩ :=
        fun b hb => ⟨by simp, rfl, .inl hslept, fun h => hb (Option.some.inj h)⟩
      rcases inv with _ | _ | ⟨status, stdout⟩
      · exact hagain
      · exact hend false (by simp)
      · cases status
        case success => exact hend true fun _ => hinv.1 rfl
        case cancelled | timedOut | failed => exact hend false (by simp)
        case pending | inProgress | delayed => exact hagain
    · rename_i hlate
      exact ⟨by simp, rfl, .inr (not_lt.1 hlate), by simp⟩

/-- A quotient and two are passes enough. -/
theorem passes_enough (hpoll : 0 < poll) (timeout : Nat) :
    seconds timeout ≤ ((timeout / poll + 1 : Nat) : Int) * seconds poll := by
  have hdiv : timeout ≤ (timeout / poll + 1) * poll := by
    rw [Nat.mul_comm]
    exact (Nat.lt_mul_div_succ timeout hpoll).le
  simp only [seconds]
  have hcast : (timeout : Int) ≤ ((timeout / poll + 1 : Nat) : Int) * (poll : Int) := by exact_mod_cast hdiv
  linarith

/-- The wait for a probe takes two seconds at least. -/
theorem ssmWaitDone_wp : (ssmWaitDone cmd 20 2).wp (gate sigs) (fun r w' => r ≠ none ∧ w'.sent = w.sent ∧
    w.clock + seconds 2 ≤ w'.clock ∧ (r = some true → (probeReply (sigs cmd)).status = 0)) w := by
  simp only [ssmWaitDone, ask_bind]
  refine wp_time fun t ht => Prog.wp_mono ?_ (@waitLoop_wp sigs ⟨t, w.sent⟩ (t + seconds 20) cmd 2 11 ?_)
  · intro r w' h
    obtain ⟨hr, hs, htime, hst⟩ := h
    refine ⟨hr, hs, ?_, hst⟩
    have hlong : seconds 2 ≤ seconds 20 := by decide
    rcases htime with h | h
    · simp only at h
      linarith
    · linarith
  · have h := @passes_enough 2 (by decide) 20
    simp only at h ⊢
    linarith

/-- **One pass**: it may send a probe, which takes two seconds at least, and returns `True` only when that one passed. -/
theorem probeOnce_wp : probeOnce.wp (gate sigs) (fun r w' => r ≠ none ∧
    ((w'.sent = w.sent ∧ w.clock ≤ w'.clock ∧ r = some false) ∨
      (w'.sent = w.sent + 1 ∧ w.clock + seconds 2 ≤ w'.clock ∧ (r = some true → (sigs w.sent).Passes)))) w := by
  simp only [probeOnce, ask_bind, Prog.pure_eq]
  refine wp_send ⟨by simp, .inl ⟨rfl, le_refl _, rfl⟩⟩ ?_
  simp only
  rw [Prog.wp_bind]
  refine Prog.wp_mono ?_ ssmWaitDone_wp
  intro ok w' h
  obtain ⟨hr, hs, htime, hst⟩ := h
  rcases ok with _ | _ | _
  · exact absurd rfl hr
  · exact ⟨by simp, .inr ⟨hs, htime, by simp⟩⟩
  · refine wp_invocation fun inv hinv => ?_
    have hend : ∀ b : Bool, (b = true → (sigs w.sent).Passes) → (some b ≠ none ∧
        ((w'.sent = w.sent ∧ w.clock ≤ w'.clock ∧ some b = some false) ∨
          (w'.sent = w.sent + 1 ∧ w.clock + seconds 2 ≤ w'.clock ∧ (some b = some true → (sigs w.sent).Passes)))) :=
      fun b hb => ⟨by simp, .inr ⟨hs, htime, fun h => hb (Option.some.inj h)⟩⟩
    rcases inv with _ | _ | ⟨status, stdout⟩
    · exact hend false (by simp)
    · exact hend false (by simp)
    · exact hend _ fun hv => found_passes (hst rfl) hinv hv

/-- **The loop**: it ends, and returns `True` only when a probe passed that was sent before the deadline. Every pass that
sent a probe took two seconds and a pause. -/
theorem verifyLoop_wp {timeout : Nat} (hdl : deadline = start + seconds timeout)
    (hsent : start + w.sent * seconds (poll + 2) ≤ w.clock) (hfuel : deadline ≤ w.clock + n * seconds poll) :
    (verifyLoop deadline poll (n + 1)).wp (gate sigs) (fun r w' => r ≠ none ∧
      (r = some true → ∃ i < w'.sent, i * (poll + 2) < timeout ∧ (sigs i).Passes)) w := by
  induction n generalizing w with
  | zero =>
    simp only [verifyLoop, ask_bind, Prog.pure_eq]
    refine wp_time fun t ht => ?_
    have hlate : deadline ≤ t := by
      simp only [Nat.cast_zero, zero_mul, add_zero] at hfuel
      exact le_trans hfuel ht
    rw [if_neg (not_lt.2 hlate)]
    exact ⟨by simp, by simp⟩
  | succ n ih =>
    rw [verifyLoop]
    simp only [ask_bind, Prog.pure_eq]
    refine wp_time fun t ht => ?_
    split
    · rename_i hearly
      rw [Prog.wp_bind]
      refine Prog.wp_mono ?_ probeOnce_wp
      intro r w₁ h
      simp only at h
      obtain ⟨hr, hone⟩ := h
      have hinTime : w.sent * (poll + 2) < timeout := by
        have h : (w.sent : Int) * seconds (poll + 2) < seconds timeout := by linarith
        simp only [seconds] at h
        have h' : ((w.sent * (poll + 2) : Nat) : Int) < timeout := by
          push_cast at h ⊢
          linarith
        exact_mod_cast h'
      rcases r with _ | _ | _
      · exact absurd rfl hr
      · -- Another pass.
        refine wp_sleep fun t' ht' => ih ?_ ?_
        · rcases hone with ⟨hs, hclock, -⟩ | ⟨hs, hclock, -⟩
          · have hpos := seconds_nonneg poll
            simp only [hs]
            linarith
          · have hsum : seconds (poll + 2) = seconds poll + seconds 2 := by
              simp only [seconds]
              push_cast
              ring
            simp only [hs]
            push_cast
            linarith
        · have hclock : t ≤ w₁.clock := by
            rcases hone with ⟨-, hclock, -⟩ | ⟨-, hclock, -⟩
            · exact hclock
            · have hpos := seconds_nonneg 2
              linarith
          push_cast at hfuel
          simp only
          linarith
      · rcases hone with ⟨-, -, he⟩ | ⟨hs, -, hpass⟩
        · simp at he
        · exact ⟨by simp, fun _ => ⟨w.sent, by omega, hinTime, hpass rfl⟩⟩
    · exact ⟨by simp, by simp⟩

/-- **The gate** returns, and with `True` only when a probe passed. -/
theorem verifyVm_wp {timeout : Nat} (hpoll : 0 < poll) (h₀ : w.sent = 0) :
    (verifyVmActuallyRunning timeout poll).wp (gate sigs) (fun r w' => r ≠ none ∧
      (r = some true → ∃ i < w'.sent, i * (poll + 2) < timeout ∧ (sigs i).Passes)) w := by
  simp only [verifyVmActuallyRunning, ask_bind]
  refine wp_time fun t ht => @verifyLoop_wp sigs ⟨t, w.sent⟩ (t + seconds timeout) t poll (timeout / poll + 1) timeout rfl ?_ ?_
  · simp [h₀]
  · have h := passes_enough hpoll timeout
    simp only
    linarith

/-! ### The probes that can be sent -/

/-- A wait whose only look gets this answer. -/
theorem ssmWaitDone_runs {c : Int} {k : Nat} {inv : SsmAnswer} {b : Bool} (hf : inv.Faithful (sigs cmd))
    (hb : (inv = .raised ∧ b = false) ∨ (∃ out, inv = .found .success out) ∧ b = true) :
    (ssmWaitDone cmd 20 2).Runs (gate sigs) ⟨c, k⟩ (some b) ⟨c + seconds 2, k⟩ := by
  have hearly : c < c + seconds 20 := by
    have h : 0 < seconds 20 := by decide
    linarith
  have htime : (gate sigs).step .time c ⟨c, k⟩ ⟨c, k⟩ := ⟨le_refl c, rfl⟩
  have hsleep : (gate sigs).step (.sleep 2) () ⟨c, k⟩ ⟨c + seconds 2, k⟩ := ⟨le_refl _, rfl⟩
  have hlook : (gate sigs).step (.invocation cmd) inv ⟨c + seconds 2, k⟩ ⟨c + seconds 2, k⟩ := ⟨hf, rfl⟩
  simp only [ssmWaitDone, waitLoop, ask_bind, Prog.pure_eq]
  refine .call htime (.call htime ?_)
  rw [if_pos hearly]
  refine .call hsleep (.call hlook ?_)
  rcases hb with ⟨rfl, rfl⟩ | ⟨⟨out, rfl⟩, rfl⟩
  · exact .ret _ _
  · exact .ret _ _

theorem send_step {c : Int} {k : Nat} : (gate sigs).step .sendProbe (some k : GateCall.Ans .sendProbe) ⟨c, k⟩ ⟨c, k + 1⟩ :=
  ⟨rfl, rfl⟩

/-- A pass whose probe is lost. -/
theorem probeOnce_lost (c : Int) (k : Nat) : probeOnce.Runs (gate sigs) ⟨c, k⟩ (some false) ⟨c + seconds 2, k + 1⟩ := by
  simp only [probeOnce, ask_bind, Prog.pure_eq]
  refine .call send_step ?_
  exact (@ssmWaitDone_runs sigs k c (k + 1) .raised false trivial (.inl ⟨rfl, rfl⟩)).bind (.ret _ _)

/-- A pass whose probe passes. -/
theorem probeOnce_passes {c : Int} {k : Nat} (h : (sigs k).Passes) :
    probeOnce.Runs (gate sigs) ⟨c, k⟩ (some true) ⟨c + seconds 2, k + 1⟩ := by
  have hf : (SsmAnswer.found .success (probeReply (sigs k)).out).Faithful (sigs k) :=
    ⟨fun _ => h.1, List.prefix_refl _⟩
  have hlook : (gate sigs).step (.invocation k) (.found .success (probeReply (sigs k)).out)
      ⟨c + seconds 2, k + 1⟩ ⟨c + seconds 2, k + 1⟩ := ⟨hf, rfl⟩
  simp only [probeOnce, ask_bind, Prog.pure_eq]
  refine .call send_step ?_
  refine (@ssmWaitDone_runs sigs k c (k + 1) _ true hf (.inr ⟨⟨_, rfl⟩, rfl⟩)).bind (.call hlook ?_)
  simp only
  rw [h.2]
  exact .ret _ _

/-- Probes may be lost until one is sent just before the deadline. -/
theorem verifyLoop_reaches {m : Nat} {c : Int} {k : Nat} (hpass : (sigs (k + m)).Passes) (hm : m < n)
    (htime : c + m * seconds (poll + 2) < deadline) :
    ∃ w', (verifyLoop deadline poll n).Runs (gate sigs) ⟨c, k⟩ (some true) w' ∧ w'.sent = k + m + 1 := by
  induction m generalizing c k n with
  | zero =>
    obtain ⟨n, rfl⟩ := Nat.exists_eq_succ_of_ne_zero (by omega : n ≠ 0)
    have hclock : (gate sigs).step .time c ⟨c, k⟩ ⟨c, k⟩ := ⟨le_refl c, rfl⟩
    refine ⟨⟨c + seconds 2, k + 1⟩, ?_, rfl⟩
    rw [verifyLoop]
    simp only [ask_bind, Prog.pure_eq]
    refine .call hclock ?_
    rw [if_pos (by simpa using htime)]
    exact (probeOnce_passes hpass).bind (.ret _ _)
  | succ m ih =>
    obtain ⟨n, rfl⟩ := Nat.exists_eq_succ_of_ne_zero (by omega : n ≠ 0)
    have hsum : seconds (poll + 2) = seconds 2 + seconds poll := by
      simp only [seconds]
      push_cast
      ring
    have hpos := seconds_nonneg (poll + 2)
    have hmul : 0 ≤ (m : Int) * seconds (poll + 2) := mul_nonneg (Int.natCast_nonneg m) hpos
    push_cast at htime
    have hearly : c < deadline := by linarith
    have hrest : c + seconds 2 + seconds poll + m * seconds (poll + 2) < deadline := by linarith
    have hpass' : (sigs (k + 1 + m)).Passes := by
      rw [Nat.add_right_comm, Nat.add_assoc]
      exact hpass
    obtain ⟨w', hrun, hsent⟩ := @ih n (c + seconds 2 + seconds poll) (k + 1) hpass' (by omega) hrest
    have hclock : (gate sigs).step .time c ⟨c, k⟩ ⟨c, k⟩ := ⟨le_refl c, rfl⟩
    have hsleep : (gate sigs).step (.sleep poll) () ⟨c + seconds 2, k + 1⟩ ⟨c + seconds 2 + seconds poll, k + 1⟩ :=
      ⟨le_refl _, rfl⟩
    refine ⟨w', ?_, by omega⟩
    rw [verifyLoop]
    simp only [ask_bind, Prog.pure_eq]
    refine .call hclock ?_
    rw [if_pos hearly]
    exact (probeOnce_lost c k).bind (.call hsleep hrun)

/-- The gate may send the probe `i` in time, having lost all before it. -/
theorem gate_reaches {i timeout : Nat} (hpoll : 0 < poll) (htime : i * (poll + 2) < timeout) (hpass : (sigs i).Passes) :
    ∃ w', (verifyVmActuallyRunning timeout poll).Runs (gate sigs) ⟨0, 0⟩ (some true) w' ∧ w'.sent = i + 1 := by
  have hfuel : i < timeout / poll + 2 := by
    have hle : i ≤ timeout / poll := by
      rw [Nat.le_div_iff_mul_le hpoll]
      nlinarith
    omega
  have hdl : (0 : Int) + i * seconds (poll + 2) < 0 + seconds timeout := by
    have hcast : ((i * (poll + 2) : Nat) : Int) < timeout := by exact_mod_cast htime
    simp only [seconds]
    push_cast at hcast ⊢
    linarith
  have hpass' : (sigs (0 + i)).Passes := by
    rw [Nat.zero_add]
    exact hpass
  obtain ⟨w', hrun, hsent⟩ := verifyLoop_reaches hpass' hfuel hdl
  have hclock : (gate sigs).step .time (0 : Int) ⟨0, 0⟩ ⟨0, 0⟩ := ⟨le_refl _, rfl⟩
  exact ⟨w', .call hclock hrun, by omega⟩

end Gate

/-- **The verify gate** is right for these outcomes exactly when each probe that can be sent in time and that passes is good, or
comes after a good one. -/
theorem verify_gate {timeout poll : Nat} (hpoll : 0 < poll) (sigs : Nat → Signals) :
    ThreeSignals timeout poll sigs ↔ ∀ i, i * (poll + 2) < timeout →
      ((sigs i).http = none ∨ ∃ n, (sigs i).http = some n ∧ 0 < n ∧ n < 500) → ∃ j ≤ i, (sigs j).Good := by
  constructor
  · intro h i htime hhttp
    obtain ⟨w', hrun, hsent⟩ := gate_reaches hpoll htime (probe_passes_iff.2 hhttp)
    obtain ⟨j, hj, hgood⟩ := (h ⟨0, 0⟩ w' (some true) rfl hrun).2.1 rfl
    exact ⟨j, by omega, hgood⟩
  · intro h w w' r h₀ hrun
    obtain ⟨hr, hpass⟩ := Prog.wp_iff_runs.1 (verifyVm_wp hpoll h₀) _ _ hrun
    have htrue : r = some true → ∃ i < w'.sent, (sigs i).Good := by
      intro hr
      obtain ⟨i, hi, htime, hpass⟩ := hpass hr
      obtain ⟨j, hj, hgood⟩ := h i htime (probe_passes_iff.1 hpass)
      exact ⟨j, by omega, hgood⟩
    refine ⟨hr, htrue, fun hnone => ?_⟩
    rcases r with _ | _ | _
    · exact absurd rfl hr
    · rfl
    · obtain ⟨i, hi, hgood⟩ := htrue rfl
      exact absurd hgood (hnone i hi)

/-- A host with the tenant. -/
def upSignals : Signals := ⟨true, true, some 200⟩

theorem verify_gate_up : ThreeSignals 120 10 fun _ => upSignals :=
  (verify_gate (by decide) _).2 fun _ _ _ => ⟨0, Nat.zero_le _, rfl, rfl, 200, rfl, by decide, by decide⟩

/-- A host without the tenant: no process, no configuration, and nginx answers 404. -/
def noTenant : Signals := ⟨false, false, some 404⟩

/-- The gate may return `True` for it. -/
theorem gate_opens_on_404 : ¬ ThreeSignals 120 10 fun _ => noTenant := by
  intro h
  have hpass : noTenant.Passes := probe_passes_iff.2 (.inr ⟨404, rfl, by decide, by decide⟩)
  obtain ⟨w', hrun, -⟩ := @gate_reaches (fun _ => noTenant) 10 0 120 (by decide) (by decide) hpass
  obtain ⟨i, -, hgood⟩ := (h ⟨0, 0⟩ w' (some true) rfl hrun).2.1 rfl
  exact absurd hgood.1 Bool.false_ne_true

end OpenClaw
