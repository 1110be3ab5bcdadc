import OpenClaw.Control.Log

/-!
# One failover

`_execute_failover` launches, passes its gates and flips the row, or marks the row failed (`Executed`).

- `Cleared`: the gates, as calls that were made and answered.
- `executeFailover_ends`: what an execution does to the row and to the counters.
-/

namespace OpenClaw

open Keyed Atomic

variable (cfg : Config)

/-! ## An execution -/

/-- What an execution is to do: the target, the number on it and the backup. -/
structure Execution where
  target : HostId
  vmNum : Int
  backup : String

/-- The launch command of step 3. -/
def Execution.launch (x : Execution) (t : TenantRow) : HostCmd :=
  .launchVm t.id x.vmNum (orDefault t.vcpu 2) (orDefault t.memMb 4096) t.configTemplate x.backup []

/-- The update of step 8. -/
def Execution.flip (x : Execution) : TenantUpdate := .failedOver x.target x.vmNum x.backup

/-- What the flip books on the target. -/
def Execution.books (x : Execution) (t : TenantRow) : Amounts :=
  atHost x.target (Res.pick (orDefault t.vcpu 2) (orDefault t.memMb 4096) 1)

/-- The gates of steps 3 to 6. -/
structure Cleared (t : TenantRow) (x : Execution) (l : CallLog) : Prop where
  keyed : x.backup ≠ ""
  launched : ∃ cmd : CommandId, Saw l (.ssmSend (some x.target) (x.launch t)) (some cmd)
  verified : Saw l (.verifyVm x.target t.id) true
  routed : cfg.routingMode = .hostTg ∨ cfg.albListenerArn = false ∨
    ∃ ip l', l' <:+: l ∧ (repointAlbRule cfg t.id x.target ip).Plays l' true
  probed : cfg.publicBaseUrl = true → Saw l (.verifyDashboard t.id) true

/-- The row was flipped, after the gates. -/
def Flipped (t : TenantRow) (x : Execution) (l : CallLog) : Prop :=
  ∃ pre post, l = pre ++ ⟨Call.updTenant t.id x.flip, true⟩ :: post ∧ Cleared cfg t x pre

/-- What an execution makes of the row `c`; `t` is the copy it works on. -/
inductive Executed (t c : TenantRow) (x : Execution) (l : CallLog) : Bool → TenantRow → Prop
  | failed (e : FailoverError) : Executed t c x l false
      ((TenantUpdate.failoverEnded (if e.isPartial then .failoverFailedPartial else .failoverFailed) e.text).apply c)
  | moved : Flipped cfg t x l → Executed t c x l true (x.flip.apply c)

/-- The effect of an execution on the world `u` it began in. -/
def Ends (t c : TenantRow) (x : Execution) (u : World) (l : CallLog) (ok : Bool) (w : World) : Prop :=
  ∃ c', Executed cfg t c x l ok c' ∧ w.tenants.get t.id = some c' ∧
    ∀ h ρ, w.booked h ρ = u.booked h ρ + if ok then x.books t h ρ else 0

section Execute

variable {cfg} {t c : TenantRow} {x : Execution} {u w : World} {l₀ : CallLog}

theorem Cleared.mono {l l' : CallLog} (h : Cleared cfg t x l) (hl : l <:+: l') : Cleared cfg t x l' := by
  refine ⟨h.keyed, ?_, hl.subset h.verified, ?_, fun hp => hl.subset (h.probed hp)⟩
  · obtain ⟨cmd, hs⟩ := h.launched
    exact ⟨cmd, hl.subset hs⟩
  · rcases h.routed with hr | hr | ⟨ip, l₁, hi, hp⟩
    · exact .inl hr
    · exact .inr (.inl hr)
    · exact .inr (.inr ⟨ip, l₁, hi.trans hl, hp⟩)

theorem Flipped.append {l l' l'' : CallLog} (h : Flipped cfg t x l) : Flipped cfg t x (l' ++ l ++ l'') := by
  obtain ⟨pre, post, rfl, hc⟩ := h
  exact ⟨l' ++ pre, post ++ l'', by simp, hc.mono ⟨l', [], by simp⟩⟩

theorem get_apply (hid : c.id = t.id) (w : World) (y : TenantUpdate) :
    (w.putTenant (y.apply c)).tenants.get t.id = some (y.apply c) := by
  have h := Table.get_put_self w.tenants (y.apply c)
  rwa [TenantUpdate.apply_id, hid] at h

/-- A failed execution writes the row and nothing else, whatever was called before. -/
theorem failoverFailed_ends (e : FailoverError) (f : CallLog → CallLog) (hs : SameTables w u)
    (hg : u.tenants.get t.id = some c) :
    (failoverFailed t.id e).wpt durable (fun l ok w' => Ends cfg t c x u (f l) ok w') w := by
  simp only [failoverFailed, req_bind, Prog.pure_eq]
  refine updTenant_step (by rw [hs.1, hg]) ⟨_, .failed e, get_apply (Table.key_of_get hg) w _, fun h ρ => ?_⟩
  rw [World.booked, World.putTenant_hosts, hs.2]
  exact (Int.add_zero _).symm

variable {target : HostRow} {backup : String} {n : Int}

theorem failoverFlip_ends (hs : SameTables w u) (hg : u.tenants.get t.id = some c)
    (hc : Cleared cfg t ⟨target.instanceId, n, backup⟩ l₀) :
    (failoverFlip t target backup n (orDefault t.vcpu 2) (orDefault t.memMb 4096)).wpt durable
      (fun l ok w' => Ends cfg t c ⟨target.instanceId, n, backup⟩ u (l₀ ++ l) ok w') w := by
  simp only [failoverFlip, bumpTargetCounters, req_bind, Prog.pure_eq]
  refine updTenant_step (by rw [hs.1, hg]) ?_
  simp only
  refine updHost_step fun _ w₂ ht₂ hh₂ => raiseNext_step fun _ w₃ ht₃ hh₃ => ?_
  refine ⟨_, .moved ⟨l₀, _, rfl, hc⟩, ?_, fun h ρ => ?_⟩
  · rw [ht₃, ht₂]
    exact get_apply (Table.key_of_get hg) w _
  · rw [hh₃, hh₂, if_pos rfl, World.booked, World.putTenant_hosts, hs.2]
    rfl

/-- The probe of step 6, before whatever flips the row. -/
theorem probe_ends {flip : CtlProg Bool} (hflip : ∀ (w : World) (l₁ : CallLog), SameTables w u →
      Cleared cfg t ⟨target.instanceId, n, backup⟩ l₁ → flip.wpt durable
        (fun l ok w' => Ends cfg t c ⟨target.instanceId, n, backup⟩ u (l₁ ++ l) ok w') w)
    (hs : SameTables w u) (hg : u.tenants.get t.id = some c) (hkey : backup ≠ "")
    (hl : ∃ cmd : CommandId, Saw l₀ (.ssmSend (some target.instanceId)
      (Execution.launch ⟨target.instanceId, n, backup⟩ t)) (some cmd))
    (hv : Saw l₀ (.verifyVm target.instanceId t.id) true)
    (hr : cfg.routingMode = .hostTg ∨ cfg.albListenerArn = false ∨
      ∃ ip l', l' <:+: l₀ ∧ (repointAlbRule cfg t.id target.instanceId ip).Plays l' true) :
    (if cfg.publicBaseUrl then (.call (.verifyDashboard t.id) fun ok =>
        if ok then flip else failoverFailed t.id .dashboardNotReachable)
      else flip : CtlProg Bool).wpt durable
      (fun l ok w' => Ends cfg t c ⟨target.instanceId, n, backup⟩ u (l₀ ++ l) ok w') w := by
  split
  · refine quiet_step ⟨rfl, rfl, rfl⟩ fun up w₁ h₁ => ?_
    cases up with
    | false => exact failoverFailed_ends .dashboardNotReachable _ (h₁.trans hs) hg
    | true =>
      have hi : l₀ <:+: l₀ ++ [⟨Call.verifyDashboard t.id, true⟩] := (List.prefix_append ..).isInfix
      have hc : Cleared cfg t ⟨target.instanceId, n, backup⟩ (l₀ ++ [⟨Call.verifyDashboard t.id, true⟩]) := by
        refine ⟨hkey, ?_, hi.subset hv, ?_, fun _ => List.mem_append_right _ (List.mem_singleton.2 rfl)⟩
        · obtain ⟨cmd, hsaw⟩ := hl
          exact ⟨cmd, hi.subset hsaw⟩
        · rcases hr with hr | hr | ⟨ip, l', hi', hp⟩
          · exact .inl hr
          · exact .inr (.inl hr)
          · exact .inr (.inr ⟨ip, l', hi'.trans hi, hp⟩)
      refine Prog.wpt_mono ?_ (hflip w₁ _ (h₁.trans hs) hc)
      intro l ok w' h
      simpa using h
  · rename_i hpub
    exact hflip w l₀ hs ⟨hkey, hl, hv, hr, fun h => absurd h hpub⟩

theorem failoverVerify_ends (hs : SameTables w u) (hg : u.tenants.get t.id = some c) (hkey : backup ≠ "")
    (hl : ∃ cmd : CommandId, Saw l₀ (.ssmSend (some target.instanceId)
      (Execution.launch ⟨target.instanceId, n, backup⟩ t)) (some cmd))
    (hv : Saw l₀ (.verifyVm target.instanceId t.id) true)
    (hr : cfg.routingMode = .hostTg ∨ cfg.albListenerArn = false ∨
      ∃ ip l', l' <:+: l₀ ∧ (repointAlbRule cfg t.id target.instanceId ip).Plays l' true) :
    (failoverVerify cfg t target backup n (orDefault t.vcpu 2) (orDefault t.memMb 4096)).wpt durable
      (fun l ok w' => Ends cfg t c ⟨target.instanceId, n, backup⟩ u (l₀ ++ l) ok w') w := by
  simp only [failoverVerify, req_bind]
  cases t.hostId.or t.previousHostId with
  | none => exact probe_ends (fun _ _ hs hc => failoverFlip_ends hs hg hc) hs hg hkey hl hv hr
  | some src =>
    -- The source's nginx conf goes first.
    refine probe_ends (fun w l₁ hs hc => ?_) hs hg hkey hl hv hr
    refine quiet_step ⟨rfl, rfl, rfl⟩ fun r w₁ h₁ => ?_
    have hc' := hc.mono (List.prefix_append l₁ [⟨.ssmSend (some src) (.removeTenantConf t.id), r⟩]).isInfix
    refine Prog.wpt_mono ?_ (failoverFlip_ends (h₁.trans hs) hg hc')
    intro l ok w' h
    simpa using h

theorem failoverRepoint_ends (hs : SameTables w u) (hg : u.tenants.get t.id = some c) (hkey : backup ≠ "")
    (hl : ∃ cmd : CommandId, Saw l₀ (.ssmSend (some target.instanceId)
      (Execution.launch ⟨target.instanceId, n, backup⟩ t)) (some cmd))
    (hv : Saw l₀ (.verifyVm target.instanceId t.id) true) :
    (failoverRepoint cfg t target backup n (orDefault t.vcpu 2) (orDefault t.memMb 4096)).wpt durable
      (fun l ok w' => Ends cfg t c ⟨target.instanceId, n, backup⟩ u (l₀ ++ l) ok w') w := by
  unfold failoverRepoint
  split
  · split
    · exact failoverFailed_ends .noPrivateIp _ hs hg
    · refine quiet_steps (repointAlbRule_quiet cfg _ _ _) fun l₁ ok w₁ hp h₁ => ?_
      cases ok with
      | false => exact failoverFailed_ends .albRepointFailed _ (h₁.trans hs) hg
      | true =>
        have hi : l₀ <:+: l₀ ++ l₁ := (List.prefix_append ..).isInfix
        obtain ⟨cmd, hsaw⟩ := hl
        refine Prog.wpt_mono ?_ (failoverVerify_ends (h₁.trans hs) hg hkey ⟨cmd, hi.subset hsaw⟩ (hi.subset hv)
          (.inr (.inr ⟨_, l₁, (List.suffix_append ..).isInfix, hp⟩)))
        intro l ok w' h
        simpa using h
  · rename_i hmode
    refine failoverVerify_ends hs hg hkey hl hv ?_
    simp only [Bool.and_eq_true, decide_eq_true_eq, not_and, ne_eq, not_not] at hmode
    by_cases ha : cfg.albListenerArn = true
    · exact .inl (hmode ha)
    · exact .inr (.inl (Bool.eq_false_iff.2 ha))

/-- **An execution flips the row behind its gates, or marks it failed.** -/
theorem executeFailover_ends (hs : SameTables w u) (hg : u.tenants.get t.id = some c) (hkey : backup ≠ "") :
    (executeFailover cfg t target backup n).wpt durable
      (fun l ok w' => Ends cfg t c ⟨target.instanceId, n, backup⟩ u l ok w') w := by
  simp only [executeFailover, req_bind]
  refine quiet_step ⟨rfl, rfl, rfl⟩ fun cmd w₁ h₁ => ?_
  have h₁ := h₁.trans hs
  cases cmd with
  | none => exact failoverFailed_ends .exception _ h₁ hg
  | some cmd =>
    have hgate : ∀ {w : World} (l₁ : CallLog), SameTables w u →
        Saw l₁ (.ssmSend (some target.instanceId) (Execution.launch ⟨target.instanceId, n, backup⟩ t)) (some cmd) →
        (Prog.call (Call.verifyVm target.instanceId t.id) fun up =>
          if up then failoverRepoint cfg t target backup n (orDefault t.vcpu 2) (orDefault t.memMb 4096)
          else failoverFailed t.id .vmNotVerified : CtlProg Bool).wpt durable
          (fun l ok w' => Ends cfg t c ⟨target.instanceId, n, backup⟩ u (l₁ ++ l) ok w') w := by
      intro w l₁ hs hl
      refine quiet_step ⟨rfl, rfl, rfl⟩ fun up w₂ h₂ => ?_
      cases up with
      | false => exact failoverFailed_ends .vmNotVerified _ (h₂.trans hs) hg
      | true =>
        have hv : Saw (l₁ ++ [⟨Call.verifyVm target.instanceId t.id, true⟩]) (.verifyVm target.instanceId t.id) true :=
          List.mem_append_right _ (List.mem_singleton.2 rfl)
        refine Prog.wpt_mono ?_ (failoverRepoint_ends (h₂.trans hs) hg hkey ⟨cmd, List.mem_append_left _ hl⟩ hv)
        intro l ok w' h
        simpa using h
    let sent : Answered Ctl := ⟨.ssmSend (some target.instanceId) (Execution.launch ⟨target.instanceId, n, backup⟩ t),
      some cmd⟩
    refine quiet_step ⟨rfl, rfl, rfl⟩ fun r w₂ h₂ => ?_
    have h₂ := h₂.trans h₁
    split
    · refine quiet_step ⟨rfl, rfl, rfl⟩ fun r' w₃ h₃ => ?_
      exact hgate [sent, ⟨.ssmWait cmd target.instanceId, r⟩, ⟨.ssmSend (some target.instanceId) (.removePeerConf t.id), r'⟩]
        (h₃.trans h₂) List.mem_cons_self
    · exact hgate [sent, ⟨.ssmWait cmd target.instanceId, r⟩] h₂ List.mem_cons_self

end Execute

end OpenClaw
