import OpenClaw.Control.Log

/-!
# What a create leaves behind

`create_tenant` books capacity, writes the row, copies the clone's disks, launches and routes; each of these may fail.

- `Landmark`: the answers that decide how a run goes on; `CreateEnd` says what the world is like after it.
- `createTenant_ends`: every run ends in one of these ways.
- `failed_create`: a failed request leaves nothing behind exactly when nothing had been booked, or the clone's disks could
  not be copied and both writes of the rollback went through.
-/

namespace OpenClaw

open Keyed Atomic

variable (cfg : Config)

/-! ## Landmarks -/

/-- An answer on which the way of the request depends. -/
inductive Landmark
  | named (tid : TenantId)
  | booked (host : HostId)
  | saved (tid : TenantId) (ok : Bool)
  | copied (ok : Bool)
  | released (ok : Bool)
  | deleted (ok : Bool)
deriving DecidableEq

def landmark : (c : Call) → c.Ans → List Landmark
  | .genId _, tid => [.named tid]
  | .reserveHost h _ _ _, .next _ => [.booked h]
  | .putTenant t, ok => [.saved t.id ok]
  | .ssmRun _ _, ok => [.copied ok]
  | .updHost _ _, r => [.released r.isSome]
  | .updTenant _ _, ok => [.deleted ok]
  | _, _ => []

def landmarks (l : CallLog) : List Landmark := l.flatMap fun x => landmark x.1 x.2

/-- The tables and the commands are the same. -/
structure Untouched (w u : World) : Prop where
  tenants : w.tenants = u.tenants
  hosts : w.hosts = u.hosts
  cmds : w.cmds = u.cmds

section Plain

variable {w w' u : World} {α β : Type}

theorem Untouched.refl (w : World) : Untouched w w := ⟨rfl, rfl, rfl⟩

theorem Untouched.trans {v : World} (h : Untouched w u) (h' : Untouched u v) : Untouched w v :=
  ⟨h.tenants.trans h'.tenants, h.hosts.trans h'.hosts, h.cmds.trans h'.cmds⟩

theorem landmark_plain {c : Call} (h : c.plain) (r : c.Ans) : landmark c r = [] := by
  cases c <;> first | rfl | exact False.elim h

/-- A plain call sends no command. -/
theorem step_cmds_plain {c : Call} {r : c.Ans} (h : c.plain) (hs : World.step c r w w') : w'.cmds = w.cmds := by
  cases c
  case registerTargets | deleteTg | modifyRule | deleteRule =>
    rcases sent.eq_or hs with rfl | rfl <;> rfl
  case createTg =>
    cases r with
    | none => rw [hs]
    | some _ =>
      rw [hs.2]
      rfl
  case createRule =>
    cases r with
    | created =>
      obtain ⟨-, _, -, hs⟩ := hs
      rw [hs]
      rfl
    | priorityInUse => rw [hs.2]
    | error => rw [hs]
  case now =>
    rw [hs.2]
    rfl
  all_goals first | exact False.elim h | rw [hs.2] | rw [hs]

theorem step_plain {c : Call} {r : c.Ans} (h : c.plain) (hs : World.step c r w w') : Untouched w' w :=
  ⟨(step_quiet h.quiet hs).1, (step_quiet h.quiet hs).2, step_cmds_plain h hs⟩

end Plain

/-! ## The ends of a request -/

/-- The host's row with the tenant booked on it. -/
def World.bookedAt (w : World) (r : CreateRequest) (host : HostId) (x : HostRow) : Prop :=
  ∃ x₀, w.hosts.get host = some x₀ ∧ (HostUpdate.reserve r.vcpu r.memMb).apply x₀ = some x

/-- The way a run from `w` went, the answer, and the world it leaves. -/
inductive CreateEnd (r : CreateRequest) (w : World) : List Landmark → Resp → World → Prop
  /-- Nothing was booked or written. -/
  | nothing {ms : List Landmark} {code : Resp} {w' : World} (hcode : code ≠ 201)
      (hms : ∀ m ∈ ms, (∃ tid, m = .named tid) ∨ ∃ tid, m = .saved tid false) (hw : Untouched w' w) :
      CreateEnd r w ms code w'
  /-- The tenant waits for capacity. -/
  | waiting {w' : World} (tid : TenantId) (key : String) (now : Time)
      (ht : w'.tenants = w.tenants.put (pendingRow r tid key now)) :
      CreateEnd r w [.named tid, .saved tid true] 201 w'
  /-- The row was not written. -/
  | unsaved {w' : World} (tid : TenantId) (host : HostId) (x : HostRow) (hx : w.bookedAt r host x)
      (ht : w'.tenants = w.tenants) (hh : w'.hosts = w.hosts.put x) :
      CreateEnd r w [.named tid, .booked host, .saved tid false] 500 w'
  /-- The tenant was launched, and perhaps routed. -/
  | launched {ms : List Landmark} {code : Resp} {w' : World} (tid : TenantId) (key : String) (now : Time) (host : HostRow)
      (n : Int) (x : HostRow) (hms : ms = [] ∨ ms = [.copied true]) (hx : w.bookedAt r host.instanceId x)
      (ht : w'.tenants = w.tenants.put (creatingRow cfg r tid key now host n)) (hh : w'.hosts = w.hosts.put x) :
      CreateEnd r w ([.named tid, .booked host.instanceId, .saved tid true] ++ ms) code w'
  /-- The clone's disks were not copied, and the host was not released. -/
  | unreleased {w' : World} (tid : TenantId) (key : String) (now : Time) (host : HostRow) (n : Int) (x : HostRow)
      (hx : w.bookedAt r host.instanceId x) (ht : w'.tenants = w.tenants.put (creatingRow cfg r tid key now host n))
      (hh : w'.hosts = w.hosts.put x) :
      CreateEnd r w [.named tid, .booked host.instanceId, .saved tid true, .copied false, .released false] 500 w'
  /-- The host was released, and the row may have been deleted. -/
  | released {code : Resp} {w' : World} (tid : TenantId) (key : String) (now : Time) (host : HostRow) (n : Int)
      (x y : HostRow) (ok : Bool) (hcode : code ≠ 201) (hx : w.bookedAt r host.instanceId x)
      (hy : (HostUpdate.release r.vcpu r.memMb).apply x = some y)
      (ht : w'.tenants = (if ok then (w.tenants.put (creatingRow cfg r tid key now host n)).put
        { creatingRow cfg r tid key now host n with status := .deleted }
        else w.tenants.put (creatingRow cfg r tid key now host n)))
      (hh : w'.hosts = (w.hosts.put x).put y) (hcmds : ∀ c ∈ w'.cmds, c ∈ w.cmds ∨ ∃ src k, c.cmd = .cloneData src k tid n) :
      CreateEnd r w [.named tid, .booked host.instanceId, .saved tid true, .copied false, .released true, .deleted ok] code w'

/-- Every run of the rest of a request that has passed the landmarks `pre` comes to an end. -/
def CreateEnds (r : CreateRequest) (w : World) (pre : List Landmark) (p : CtlProg Resp) (w₁ : World) : Prop :=
  p.wpt ctl (fun l code w' => CreateEnd cfg r w (pre ++ landmarks l) code w') w₁

section CreateEnds

variable {cfg} {r : CreateRequest} {w w₁ : World} {pre : List Landmark} {β : Type}

theorem createEnds_ret {code : Resp} (h : CreateEnd cfg r w pre code w₁) : CreateEnds cfg r w pre (.ret code) w₁ := by
  show CreateEnd cfg r w (pre ++ []) code w₁
  rwa [List.append_nil]

theorem createEnds_call {c : Call} {k : c.Ans → CtlProg Resp}
    (hk : ∀ a w₂, World.step c a w₁ w₂ → CreateEnds cfg r w (pre ++ landmark c a) (k a) w₂) :
    CreateEnds cfg r w pre (.call c k) w₁ := by
  intro a w₂ hs
  refine Prog.wpt_mono ?_ (hk a w₂ hs)
  intro l code w' h
  rwa [List.append_assoc] at h

/-- A part without landmarks, which returns what satisfies `R`. -/
theorem createEnds_plain {R : β → Prop} {p : CtlProg β} (hp : p.Gives Call.plain R) {k : β → CtlProg Resp}
    (hk : ∀ b w₂, R b → Untouched w₂ w₁ → CreateEnds cfg r w pre (k b) w₂) : CreateEnds cfg r w pre (p >>= k) w₁ := by
  induction p generalizing w₁ with
  | ret b => exact hk b w₁ hp (.refl w₁)
  | call c q ih =>
    refine createEnds_call fun a w₂ hs => ?_
    rw [landmark_plain hp.1, List.append_nil]
    exact ih a (hp.2 a) fun b w₃ hb hw => hk b w₃ hb (hw.trans (step_plain hp.1 hs))

/-- The reservation: it raises, every candidate refuses, or one takes the tenant. -/
theorem createEnds_reserve {k : Option (Option (HostRow × Int)) → CtlProg Resp}
    (hraised : ∀ w₂, Untouched w₂ w₁ → CreateEnds cfg r w pre (k none) w₂)
    (hfull : ∀ w₂, Untouched w₂ w₁ → CreateEnds cfg r w pre (k (some none)) w₂)
    (hbooked : ∀ host n x w₂, w₁.bookedAt r host.instanceId x → w₂ = w₁.putHost x →
      CreateEnds cfg r w (pre ++ [.booked host.instanceId]) (k (some (some (host, n)))) w₂) (hs : List HostRow) :
    CreateEnds cfg r w pre (reserveFirst cfg r.vcpu r.memMb hs >>= k) w₁ := by
  induction hs with
  | nil => exact hfull w₁ (.refl w₁)
  | cons h hs ih =>
    by_cases htot : ∃ tv tm, h.totalVcpu = some tv ∧ h.totalMemMb = some tm
    · obtain ⟨tv, tm, htv, htm⟩ := htot
      rw [reserveFirst, reserveHostSlot_eq cfg htv htm]
      refine createEnds_call fun a w₂ hstep => ?_
      cases a with
      | next n =>
        obtain ⟨x, x', hx, -, hx', -, rfl⟩ := hstep
        exact hbooked h (n - 1) x' _ ⟨x, hx, hx'⟩ rfl
      | refused =>
        obtain ⟨-, rfl⟩ := hstep
        show CreateEnds cfg r w (pre ++ []) _ _
        rw [List.append_nil]
        exact ih
      | failed =>
        obtain rfl : w₂ = w₁ := hstep
        show CreateEnds cfg r w (pre ++ []) _ _
        rw [List.append_nil]
        exact hraised _ (.refl _)
    · have hnone : reserveHostSlot cfg h r.vcpu r.memMb = .ret none := by
        unfold reserveHostSlot
        split
        · rename_i tv tm htv htm
          exact absurd ⟨tv, tm, htv, htm⟩ htot
        · rfl
      rw [reserveFirst, hnone]
      exact hraised w₁ (.refl w₁)

end CreateEnds

/-! ## The parts -/

section Parts

variable {cfg} {r : CreateRequest} {w w₁ : World}

/-- Launching and routing send commands and change no table. -/
theorem launchCreated_ends {pre : List Landmark} {row : TenantRow} {host : HostRow} {n : Int}
    (hend : ∀ code w₂, w₂.tenants = w₁.tenants → w₂.hosts = w₁.hosts → CreateEnd cfg r w pre code w₂) :
    CreateEnds cfg r w pre (launchCreated cfg r row host n) w₁ := by
  refine createEnds_plain (resolveEffectiveSkills_plain row).gives fun skills w₂ _ h₂ => ?_
  refine createEnds_call fun a w₃ hs => ?_
  show CreateEnds cfg r w (pre ++ []) _ _
  rw [List.append_nil]
  obtain ⟨ht, hh⟩ := step_quiet (c := .ssmSend _ _) ⟨rfl, rfl, rfl⟩ hs
  refine createEnds_plain (routeTenant_plain cfg host row.id).gives fun ok w₄ _ h₄ => createEnds_ret ?_
  exact hend _ _ (h₄.tenants.trans (ht.trans h₂.tenants)) (h₄.hosts.trans (hh.trans h₂.hosts))

/-- The rollback of a clone. -/
theorem cloneRollback_ends {pre : List Landmark} {tid : TenantId} {host : HostId} {x : HostRow} {row : TenantRow}
    (hx : w₁.hosts.get host = some x) (hrow : w₁.tenants.get tid = some row)
    (hkept : ∀ w₂, Untouched w₂ w₁ → CreateEnd cfg r w (pre ++ [.released false]) 500 w₂)
    (hdone : ∀ y ok w₂ code, (HostUpdate.release r.vcpu r.memMb).apply x = some y → code ≠ 201 →
      w₂.tenants = (if ok then w₁.tenants.put { row with status := .deleted } else w₁.tenants) →
      w₂.hosts = w₁.hosts.put y → w₂.cmds = w₁.cmds →
      CreateEnd cfg r w (pre ++ [.released true, .deleted ok]) code w₂) :
    CreateEnds cfg r w pre (cloneRollback r tid host) w₁ := by
  refine createEnds_call fun a w₂ hs => ?_
  cases a with
  | none =>
    obtain rfl : w₂ = w₁ := hs
    exact createEnds_ret (hkept _ (.refl _))
  | some y =>
    obtain ⟨hy, rfl⟩ := hs
    have hy : (HostUpdate.release r.vcpu r.memMb).apply x = some y := by
      simpa [World.updatedHost, World.hostRow, HostRow.orNew, hx] using hy
    refine createEnds_call fun ok w₃ hs => ?_
    obtain ⟨t, ht, hs⟩ := hs
    obtain rfl : row = t := Option.some.inj (hrow.symm.trans ht)
    refine createEnds_ret ?_
    rw [List.append_assoc]
    cases ok with
    | true =>
      obtain rfl : w₃ = _ := hs
      exact hdone y true _ _ hy (by decide) rfl rfl rfl
    | false =>
      obtain rfl : w₃ = _ := hs
      exact hdone y false _ _ hy (by decide) rfl rfl rfl

/-- The request from the reservation on. -/
theorem createOn_ends {src : Option TenantRow} {tid : TenantId} {key : String} {now : Time} {host : HostRow} {n : Int}
    {x : HostRow} (hx : w.bookedAt r host.instanceId x) (hid : x.instanceId = host.instanceId)
    (ht : w₁.tenants = w.tenants) (hh : w₁.hosts = w.hosts.put x) (hc : w₁.cmds = w.cmds) :
    CreateEnds cfg r w [.named tid, .booked host.instanceId] (createOn cfg r src tid key now host n) w₁ := by
  refine createEnds_call fun ok w₂ hs => ?_
  cases ok with
  | false =>
    obtain rfl : w₂ = w₁ := hs
    exact createEnds_ret (.unsaved tid host.instanceId x hx ht hh)
  | true =>
    obtain rfl : w₂ = w₁.putTenant (creatingRow cfg r tid key now host n) := hs
    have ht₂ : (w₁.putTenant (creatingRow cfg r tid key now host n)).tenants =
        w.tenants.put (creatingRow cfg r tid key now host n) := by
      rw [World.putTenant_tenants, ht]
    cases src with
    | none =>
      refine launchCreated_ends fun code w₃ ht₃ hh₃ => ?_
      exact .launched tid key now host n x (.inl rfl) hx (ht₃.trans ht₂) (hh₃.trans hh)
    | some s =>
      refine createEnds_call fun ok w₃ hs => ?_
      obtain ⟨ht₃, hh₃⟩ := step_quiet (c := .ssmRun _ _) ⟨rfl, rfl, rfl⟩ hs
      have hcmds : ∀ c ∈ w₃.cmds, c ∈ w.cmds ∨ ∃ src k, c.cmd = .cloneData src k tid n := by
        intro c hmem
        rcases hs with ⟨-, rfl⟩ | ⟨id, -, rfl⟩
        · exact .inl (hc ▸ hmem)
        · rcases List.mem_append.1 hmem with hmem | hmem
          · exact .inl (hc ▸ hmem)
          · obtain rfl := List.mem_singleton.1 hmem
            exact .inr ⟨_, _, rfl⟩
      cases ok with
      | true =>
        refine launchCreated_ends fun code w₄ ht₄ hh₄ => ?_
        exact .launched tid key now host n x (.inr rfl) hx (ht₄.trans (ht₃.trans ht₂)) (hh₄.trans (hh₃.trans hh))
      | false =>
        have hrow : w₃.tenants.get tid = some (creatingRow cfg r tid key now host n) := by
          rw [ht₃, ht₂]
          exact Table.get_put_self _ _
        have hhost : w₃.hosts.get host.instanceId = some x := by
          rw [hh₃, World.putTenant_hosts, hh, ← hid]
          exact Table.get_put_self _ _
        refine cloneRollback_ends hhost hrow (fun w₄ h₄ => ?_) fun y ok w₄ code hy hcode ht₄ hh₄ hc₄ => ?_
        · exact .unreleased tid key now host n x hx (h₄.tenants.trans (ht₃.trans ht₂)) (h₄.hosts.trans (hh₃.trans hh))
        · refine .released tid key now host n x y ok hcode hx hy ?_ ?_ (hc₄ ▸ hcmds)
          · rw [ht₄, ht₃, ht₂]
          · rw [hh₄, hh₃, World.putTenant_hosts, hh]

theorem savePending_ends {tid : TenantId} {key : String} {now : Time} (hw : Untouched w₁ w) :
    CreateEnds cfg r w [.named tid] (savePending r tid key now) w₁ := by
  refine createEnds_call fun ok w₂ hs => ?_
  cases ok with
  | false =>
    obtain rfl : w₂ = w₁ := hs
    refine createEnds_ret (.nothing (by decide) ?_ hw)
    intro m hm
    simp only [landmark, List.cons_append, List.nil_append, List.mem_cons, List.not_mem_nil, or_false] at hm
    rcases hm with rfl | rfl
    · exact .inl ⟨_, rfl⟩
    · exact .inr ⟨_, rfl⟩
  | true =>
    obtain rfl : w₂ = w₁.putTenant (pendingRow r tid key now) := hs
    refine createEnds_call fun _ w₃ hs => createEnds_ret ?_
    obtain rfl : w₃ = _ := hs
    exact .waiting tid key now (by rw [World.putTenant_tenants, hw.tenants])

theorem nothing_named {tid : TenantId} {code : Resp} (hcode : code ≠ 201) (hw : Untouched w₁ w) :
    CreateEnd cfg r w [.named tid] code w₁ := by
  refine .nothing hcode ?_ hw
  intro m hm
  exact .inl ⟨tid, List.mem_singleton.1 hm⟩

theorem createPlaced_ends {src : Option TenantRow} {key : String} (hw : Untouched w₁ w) :
    CreateEnds cfg r w [] (createPlaced cfg r src key) w₁ := by
  refine createEnds_call fun tid w₂ hs => ?_
  have hw₂ : Untouched w₂ w := hs.2 ▸ hw
  refine createEnds_call fun now w₃ hs => ?_
  have hw₃ : Untouched w₃ w := (step_plain (c := .now) trivial hs).trans hw₂
  refine createEnds_plain (candidateHosts_plain cfg r src) fun hosts w₄ hrefuse h₄ => ?_
  cases hosts with
  | inl code => exact createEnds_ret (nothing_named (hrefuse code rfl) (h₄.trans hw₃))
  | inr hosts =>
    have hw₄ := h₄.trans hw₃
    refine createEnds_reserve (fun w₅ h₅ => ?_) (fun w₅ h₅ => ?_) (fun host n x w₅ hx h₅ => ?_) hosts
    · exact createEnds_ret (nothing_named (by decide) (h₅.trans hw₄))
    · exact savePending_ends (h₅.trans hw₄)
    · subst h₅
      have hid : x.instanceId = host.instanceId := by
        obtain ⟨x₀, hx₀, hx⟩ := hx
        exact (HostUpdate.apply_id hx).trans (Table.key_of_get hx₀)
      have hx' : w.bookedAt r host.instanceId x := by
        obtain ⟨x₀, hx₀, hx⟩ := hx
        exact ⟨x₀, hw₄.hosts ▸ hx₀, hx⟩
      exact createOn_ends hx' hid hw₄.tenants (by rw [World.putHost_hosts, hw₄.hosts]) hw₄.cmds

/-- **The ends of `create_tenant`.** -/
theorem createTenant_ends (w : World) : CreateEnds cfg r w [] (createTenant cfg r) w := by
  have hnone : ∀ {code : Resp} {w₁ : World}, code ≠ 201 → Untouched w₁ w → CreateEnd cfg r w [] code w₁ := by
    intro code w₁ hcode hw
    exact .nothing hcode (fun m hm => absurd hm List.not_mem_nil) hw
  unfold createTenant
  split
  · exact createEnds_ret (hnone (by decide) (.refl w))
  split
  · exact createEnds_ret (hnone (by decide) (.refl w))
  refine createEnds_plain (cloneSource_plain r) fun src w₁ hrefuse h₁ => ?_
  cases src with
  | inl code => exact createEnds_ret (hnone (hrefuse.1 code rfl) h₁)
  | inr src =>
    refine createEnds_plain (restoreKeyOf_plain r) fun key w₂ hrefuse h₂ => ?_
    cases key with
    | inl code => exact createEnds_ret (hnone (hrefuse code rfl) (h₂.trans h₁))
    | inr key => exact createPlaced_ends (h₂.trans h₁)

theorem createTenant_end {l : CallLog} {code : Resp} {w' : World} (h : (createTenant cfg r).Traces ctl w l code w') :
    CreateEnd cfg r w (landmarks l) code w' := Prog.wpt_iff_traces.1 (createTenant_ends w) l code w' h

end Parts

/-! ## Failed requests -/

/-- What a host has booked. -/
def HostRow.counters (h : HostRow) : Option Int × Option Int × Option Int := (h.usedVcpu, h.usedMemMb, h.vmCount)

/-- The command launches a VM for the tenant. -/
def HostCmd.launches (tid : TenantId) : HostCmd → Bool
  | .launchVm t _ _ _ _ _ _ => t = tid
  | .and a b | .seq a b => a.launches tid || b.launches tid
  | _ => false

/-- The request left no booking, no row that is not deleted, and no launched VM without a rule. -/
structure LeavesNothing (l : CallLog) (w w' : World) : Prop where
  capacity : ∀ id, (w'.hosts.get id).map HostRow.counters = (w.hosts.get id).map HostRow.counters
  row : ∀ tid, .saved tid true ∈ landmarks l → ∀ t, w'.tenants.get tid = some t → t.status = .deleted
  vm : ∀ tid, .named tid ∈ landmarks l → ∀ c ∈ w'.cmds, c ∉ w.cmds → c.cmd.launches tid = true →
    ∃ x ∈ w'.rules, pathPattern tid ∈ x.conditions

/-- The copy of the clone's disks failed, and both writes of the rollback went through. -/
structure RolledBack (l : CallLog) : Prop where
  copied : .copied false ∈ landmarks l
  released : .released true ∈ landmarks l
  deleted : .deleted true ∈ landmarks l

section Failed

variable {r : CreateRequest} {w w' : World} {l : CallLog} {host : HostId} {x y : HostRow}

/-- A booking shows in the counters. -/
theorem booked_shows (hx : w.bookedAt r host x) (hh : w'.hosts = w.hosts.put x) : ¬ LeavesNothing l w w' := by
  intro hnone
  obtain ⟨x₀, hx₀, hx⟩ := hx
  obtain ⟨uv, um, c, n, -, -, hc, -, rfl⟩ := HostUpdate.reserve_eq_some.1 hx
  have hid : x₀.instanceId = host := Table.key_of_get hx₀
  have hcap := hnone.capacity host
  subst hid
  rw [hh, hx₀, Table.get_put, if_pos rfl] at hcap
  simp only [Option.map_some, HostRow.counters, Option.some.injEq, Prod.mk.injEq, hc] at hcap
  omega

/-- A booking that was released does not. -/
theorem released_counters (hx : w.bookedAt r host x) (hy : (HostUpdate.release r.vcpu r.memMb).apply x = some y)
    (hh : w'.hosts = (w.hosts.put x).put y) (id : HostId) :
    (w'.hosts.get id).map HostRow.counters = (w.hosts.get id).map HostRow.counters := by
  obtain ⟨x₀, hx₀, hx⟩ := hx
  obtain ⟨uv, um, c, n, huv, hum, hc, -, rfl⟩ := HostUpdate.reserve_eq_some.1 hx
  simp only [HostUpdate.apply, Option.bind_eq_bind, Option.bind_some, Option.some.injEq] at hy
  subst hy
  have hid : x₀.instanceId = host := Table.key_of_get hx₀
  rw [hh, Table.get_put, Table.get_put]
  by_cases he : id = host
  · subst he
    simp [hid, hx₀, HostRow.counters, huv, hum, hc]
  · simp [hid, he]

end Failed

/-- **A failed create leaves nothing behind** exactly when nothing had been booked, or it was a clone whose disks could not
be copied and whose rollback went through. -/
theorem failed_create (r : CreateRequest) {w w' : World} {l : CallLog} {code : Resp}
    (h : (createTenant cfg r).Traces ctl w l code w') (hcode : 400 ≤ code) :
    LeavesNothing l w w' ↔ (∀ host, .booked host ∉ landmarks l) ∨ RolledBack l := by
  have hend := createTenant_end h
  generalize hms : landmarks l = ms at hend
  cases hend with
  | nothing _ hnothing hw =>
    have hbooked : ∀ host, .booked host ∉ ms := by
      intro host hmem
      rcases hnothing _ hmem with ⟨tid, he⟩ | ⟨tid, he⟩ <;> cases he
    have hsaved : ∀ tid, .saved tid true ∉ ms := by
      intro tid hmem
      rcases hnothing _ hmem with ⟨tid, he⟩ | ⟨tid, he⟩ <;> cases he
    refine iff_of_true ⟨?_, ?_, ?_⟩ (.inl hbooked)
    · intro id
      rw [hw.hosts]
    · intro tid hmem
      exact absurd (hms ▸ hmem) (hsaved tid)
    · intro tid _ c hc hnew
      exact absurd (hw.cmds ▸ hc) hnew
  | waiting => exact absurd hcode (by decide)
  | unsaved tid host x hx _ hh =>
    refine iff_of_false (booked_shows hx hh) ?_
    intro hcond
    rcases hcond with hfree | hback
    · exact hfree host (by simp)
    · have hcopied := hback.copied
      simp [hms] at hcopied
  | launched tid key now host n x hms' hx _ hh =>
    refine iff_of_false (booked_shows hx hh) ?_
    intro hcond
    rcases hcond with hfree | hback
    · exact hfree host.instanceId (by simp)
    · have hcopied := hback.copied
      rcases hms' with rfl | rfl <;> simp [hms] at hcopied
  | unreleased tid key now host n x hx _ hh =>
    refine iff_of_false (booked_shows hx hh) ?_
    intro hcond
    rcases hcond with hfree | hback
    · exact hfree host.instanceId (by simp)
    · have hreleased := hback.released
      simp [hms] at hreleased
  | released tid key now host n x y ok _ hx hy ht hh hcmds =>
    cases ok with
    | false =>
      refine iff_of_false ?_ ?_
      · intro hnone
        have hrow := hnone.row tid (by simp [hms]) (creatingRow cfg r tid key now host n)
        rw [ht] at hrow
        have hdeleted : TenantStatus.creating = .deleted := hrow (Table.get_put_self _ _)
        cases hdeleted
      · intro hcond
        rcases hcond with hfree | hback
        · exact hfree host.instanceId (by simp)
        · have hdeleted := hback.deleted
          simp [hms] at hdeleted
    | true =>
      refine iff_of_true ⟨released_counters hx hy hh, ?_, ?_⟩ (.inr ⟨by simp [hms], by simp [hms], by simp [hms]⟩)
      · intro tid' hmem t htid
        have hid : tid' = tid := by simpa [hms] using hmem
        subst hid
        have hrow : w'.tenants.get tid' = some { creatingRow cfg r tid' key now host n with status := .deleted } := by
          rw [ht]
          exact Table.get_put_self _ _
        obtain rfl := Option.some.inj (hrow.symm.trans htid)
        rfl
      · intro tid' _ c hc hnew hlaunch
        rcases hcmds c hc with hold | ⟨src, k, hclone⟩
        · exact absurd hold hnew
        · rw [hclone] at hlaunch
          cases hlaunch

/-- A request for a tenant of this name. -/
def smallRequest (name : String) : CreateRequest := { name := name, vcpu := 1, memMb := 1024, dataDiskMb := 0 }

/-- A clone of the first tenant. -/
def smallClone : CreateRequest := { smallRequest "c" with cloneFrom := some "a-0000" }

/-- The host is booked for the clone and its row written; the disks cannot be copied, and both are taken back. -/
theorem failed_create_clone : ∃ w' l code, (createTenant {} smallClone).Traces ctl twoHosts l code w' ∧
    .booked "i-1" ∈ landmarks l ∧ RolledBack l ∧ LeavesNothing l twoHosts w' := by
  have hplay : ((ctlOracle.alone (fun _ _ _ => true) (createTenant {} smallClone)
      (List.replicate 6 ({} : Hint) ++ { ok := false } :: List.replicate 2 ({} : Hint)) twoHosts).any fun x => 400 ≤ x.2.1 &&
        landmarks x.1 = [.named "c-0000", .booked "i-1", .saved "c-0000" true, .copied false, .released true,
          .deleted true]) = true := by
    decide +kernel
  obtain ⟨⟨l, code, w'⟩, hx, hP⟩ := (Option.any_eq_true _ _).1 hplay
  rw [Bool.and_eq_true, decide_eq_true_eq, decide_eq_true_eq] at hP
  obtain ⟨hcode, hms⟩ := hP
  have hrun : Prog.Traces (ctl.restrict fun _ _ _ => True) _ _ l code w' :=
    Oracle.alone_sound (fun _ _ _ _ => trivial) hx
  have hback : RolledBack l := ⟨by simp [hms], by simp [hms], by simp [hms]⟩
  exact ⟨w', l, code, hrun.of_restrict, by simp [hms], hback, (failed_create {} _ hrun.of_restrict hcode).2 (.inr hback)⟩

/-- **A launched VM without a rule.** The target group could not be filled: the request is answered with an error, and the
host stays booked for a tenant that is being created. -/
theorem failed_create_unrouted : ∃ w' l, (createTenant {} (smallRequest "a")).Traces ctl
    { tenants := .empty, hosts := .single (emptyHost "i-1" 1) } l 500 w' ∧
    ¬ LeavesNothing l { tenants := .empty, hosts := .single (emptyHost "i-1" 1) } w' ∧
    w'.tenants.rows.map (fun t => (t.id, t.status)) = [("a-0000", .creating)] ∧ w'.rules = [] := by
  have hplay : ((ctlOracle.alone (fun _ _ _ => true) (createTenant {} (smallRequest "a"))
      (List.replicate 9 ({} : Hint) ++ [{ ok := false }]) { tenants := .empty, hosts := .single (emptyHost "i-1" 1) }).any fun x =>
        x.2.1 = 500 && (x.2.2.tenants.rows.map (fun t => (t.id, t.status)) = [("a-0000", .creating)] &&
          (x.2.2.rules = [] && (x.2.2.hosts.get "i-1").map HostRow.counters = some (some 1, some 1024, some 1)))) = true := by
    decide +kernel
  obtain ⟨⟨l, code, w'⟩, hx, hP⟩ := (Option.any_eq_true _ _).1 hplay
  simp only [Bool.and_eq_true, decide_eq_true_eq] at hP
  obtain ⟨rfl, hrows, hrules, hcounters⟩ := hP
  have hrun : Prog.Traces (ctl.restrict fun _ _ _ => True) _ _ l 500 w' :=
    Oracle.alone_sound (fun _ _ _ _ => trivial) hx
  refine ⟨w', l, hrun.of_restrict, ?_, hrows, hrules⟩
  intro hnone
  have hcap := hnone.capacity "i-1"
  rw [hcounters] at hcap
  exact absurd hcap (by decide)

end OpenClaw
