import OpenClaw.Capacity.Operations

/-!
# Capacity is conserved

The operations that book or release capacity, run one after the other from a state in order (`World.InOrder`).

- `capacity_conserved`: the counters of every host are the sums over its tenants, in every run whose steps keep the
  books (`keepsBooks`).
- `expiry_leaks_capacity`: without the condition they are not; a TTL that deletes a tenant books nothing back.
-/

namespace OpenClaw

open Keyed Atomic

variable (cfg : Config)

/-! ## Sequential runs -/

/-- The operations that book or release capacity. -/
inductive CapacityOp
  | create (r : CreateRequest)
  | pending
  | delete (tid : TenantId) (keepData : Bool)
  | resize (tid : TenantId) (vcpu : Int)
  | migrate (tid : TenantId) (target : HostId)
  | drain (host : HostId)
  | cancelMigration (tid : TenantId)
  | sweep (now : Time)
  | failover (force : List Az)
  | failoverRecord (job : FailoverJob) (now : Time)
  | stuckFailovers (now : Time)
  | expire
  | register (host : HostId) (ip : String) (az : Az) (totalVcpu totalMemMb : Int)
  | terminate (host : HostId)

def CapacityOp.prog : CapacityOp → CtlProg Unit
  | .create r => createTenant cfg r >>= fun _ => pure ()
  | .pending => processPending cfg
  | .delete tid keepData => deleteTenant cfg tid keepData >>= fun _ => pure ()
  | .resize tid v => tenantAction cfg tid (.resize v) >>= fun _ => pure ()
  | .migrate tid target => tenantAction cfg tid (.migrate target) >>= fun _ => pure ()
  | .drain host => drainHost cfg host >>= fun _ => pure ()
  | .cancelMigration tid => tenantAction cfg tid .cancelMigration >>= fun _ => pure ()
  | .sweep now => migrationSweep cfg now
  | .failover force => azFailover cfg force
  | .failoverRecord job now => processRecord cfg job now
  | .stuckFailovers now => sweepStuckFailovers cfg now
  | .expire => processTtlExpirations
  | .register host ip az tv tm => registerHost host ip az tv tm >>= fun _ => pure ()
  | .terminate host => cleanupTerminatedHost cfg host

/-- The tenants that count on a host. -/
def World.tenantsOn (w : World) (host : HostId) : List TenantRow :=
  w.tenants.rows.filter fun t => t.status ≠ .deleted && t.hostId = some host

/-- The counters of every host are the sums over its tenants. -/
def World.Conserved (w : World) : Prop :=
  ∀ x ∈ w.hosts.rows, x.instanceId ≠ azStateId →
    x.usedVcpu.getD 0 = ((w.tenantsOn x.instanceId).map TenantRow.vcpu).sum ∧
    x.usedMemMb.getD 0 = ((w.tenantsOn x.instanceId).map TenantRow.memMb).sum ∧
    x.vmCount.getD 0 = (w.tenantsOn x.instanceId).length

instance (w : World) : Decidable w.Conserved := by
  unfold World.Conserved
  infer_instance

/-- A state to begin with: besides its counters being right, every tenant is on a registered host. -/
structure World.InOrder (w : World) : Prop where
  conserved : w.Conserved
  homed : ∀ t ∈ w.tenants.rows, t.status ≠ .deleted → ∀ h, t.hostId = some h → (w.hosts.get h).isSome = true
  coherent : ∀ t ∈ w.tenants.rows, t.Coherent

/-- Every DynamoDB write of the run succeeds. -/
def writesSucceed (_ : World) (_ : CapacityOp) (c : Call) (r : c.Ans) (_ : World) : Prop := c.written r = true

/-- What keeps the books: besides `Call.respects`, a TTL deletes only tenants without a host, no registered host is
registered again, and in the termination of a host the load balancer refuses a request only before the first of the
host's tenants was deleted, or after the last. -/
def keepsBooks (w₀ : World) (op : CapacityOp) (c : Call) (r : c.Ans) (w : World) : Prop :=
  c.written r = true ∧ c.respects w = true ∧
    match op with
    | .expire => ∀ id, c = .updTenant id (.status .deleted) → ∀ t, w.tenants.get id = some t → t.hostId = none
    | .register host _ _ _ _ => w₀.hosts.get host = none
    | .terminate host => c.lbFailed r = true → w.tenants = w₀.tenants ∨ w.vacated host
    | _ => True

section Sums

variable {w : World}

theorem sum_ite_eq_filter {ρ : Type} (p : ρ → Bool) (f : ρ → Int) (l : List ρ) :
    (l.map fun x => if p x then f x else 0).sum = ((l.filter p).map f).sum := by
  induction l with
  | nil => rfl
  | cons x xs ih => cases hp : p x <;> simp [hp, ih]

theorem held_eq (h : HostId) (ρ : Res) :
    w.held h ρ = ((w.tenantsOn h).map fun t => ρ.pick t.vcpu t.memMb 1).sum := by
  rw [World.tenantsOn, ← sum_ite_eq_filter]
  exact congrArg List.sum (List.map_congr_left fun t _ => by simp [TenantRow.holding])

theorem booked_of_mem {x : HostRow} (hx : x ∈ w.hosts.rows) (ρ : Res) : w.booked x.instanceId ρ = x.count ρ := by
  rw [World.booked, Table.get_of_mem hx]
  rfl

theorem sum_ones {ρ : Type} (l : List ρ) : (l.map fun _ => (1 : Int)).sum = l.length := by
  simp

theorem Books.conserved (hB : Books w 0) : w.Conserved := by
  intro x hx hne
  have hoff := fun ρ => (hB.off x.instanceId ρ hne).trans (Int.add_zero _)
  simp only [booked_of_mem hx, held_eq] at hoff
  exact ⟨hoff .vcpu, hoff .memMb, (hoff .vmCount).trans (sum_ones _)⟩

theorem World.InOrder.books (h : w.InOrder) : Books w 0 := by
  refine ⟨h.coherent, fun a ρ ha => ?_⟩
  show w.booked a ρ = w.held a ρ + 0
  rw [Int.add_zero]
  cases hg : w.hosts.get a with
  | none =>
    have hz : w.held a ρ = 0 := Table.total_eq_zero fun t ht => if_neg fun ⟨hs, hh⟩ => by
      have := h.homed t ht hs a hh
      simp [hg] at this
    rw [hz, World.booked, hg]
    rfl
  | some x =>
    obtain ⟨hx, rfl⟩ := Table.get_eq_some.1 hg
    obtain ⟨hv, hm, hc⟩ := h.conserved x hx ha
    rw [booked_of_mem hx, held_eq]
    cases ρ with
    | vcpu => exact hv
    | memMb => exact hm
    | vmCount => exact hc.trans (sum_ones _).symm

end Sums

theorem CapacityOp.balances {w : World} (op : CapacityOp) (hB : Books w 0) :
    (op.prog cfg).wp (ctl.restrict (keepsBooks w op)) (fun _ w' => Books w' 0) w := by
  have hok : ∀ c r w', keepsBooks w op c r w' → c.written r = true ∧ c.respects w' = true := fun _ _ _ h => ⟨h.1, h.2.1⟩
  have hunit : ∀ {p : CtlProg Resp}, Balances (keepsBooks w op) p w →
      Balances (keepsBooks w op) (p >>= fun _ => (pure () : CtlProg Unit)) w := fun h => (Prog.wp_bind ..).2 h
  cases op with
  | create r => exact hunit (createTenant_balances hok r hB)
  | pending => exact processPending_balances hok hB
  | delete tid keepData => exact hunit (deleteTenant_balances hok tid keepData hB)
  | resize tid v => exact hunit (resizeAction_balances hok tid v hB)
  | migrate tid target => exact hunit (migrateAction_balances hok tid target hB)
  | drain host => exact hunit (drainHost_balances hok host hB)
  | cancelMigration tid => exact hunit (cancelAction_balances hok tid hB)
  | sweep now => exact migrationSweep_balances hok now hB
  | failover force => exact azFailover_balances hok force hB
  | failoverRecord job now => exact processRecord_balances hok job now hB
  | stuckFailovers now => exact sweepStuckFailovers_balances hok now hB
  | expire => exact processTtlExpirations_balances hok (fun id _ _ h => h.2.2 id rfl) hB
  | register host ip az tv tm =>
    refine hunit ?_
    cases hg : w.hosts.get host with
    | none => exact registerHost_balances hok host ip az tv tm hg hB
    | some x => exact fun _ _ hs => absurd (hs.1.2.2 : w.hosts.get host = none) (by simp [hg])
  | terminate host => exact cleanupTerminatedHost_balances hok (fun _ _ _ h => h.2.2) hB

/-- **Capacity is conserved** in every sequential run whose steps keep the books. -/
theorem capacity_conserved {w₀ w : World} (h₀ : w₀.InOrder) (h : Rounds ctl (CapacityOp.prog cfg) keepsBooks w₀ w) :
    w.Conserved := by
  let I : World → Prop := fun w => Books w 0
  have hB : I w := Rounds.inv h₀.books (fun _ op hB => op.balances cfg hB) h
  exact hB.conserved

/-! ## Examples -/

theorem twoHosts_inOrder : twoHosts.InOrder where
  conserved := by decide
  homed := by
    intro t ht _ h hh
    obtain rfl := List.mem_singleton.1 ht
    obtain rfl := Option.some.inj hh
    rfl
  coherent := by
    intro t ht
    obtain rfl := List.mem_singleton.1 ht
    exact ⟨nofun, nofun⟩

/-- A create, then the tenant's migration in two ticks of the sweep, then its deletion. -/
def twoHostsRun : List (CapacityOp × List Hint) :=
  [(.create { name := "c", vcpu := 1, memMb := 1024, dataDiskMb := 2048 }, List.replicate 7 {}),
    (.migrate "a-0000" "i-2", List.replicate 5 {}), (.sweep 0, List.replicate 5 {}), (.sweep 0, List.replicate 11 {}),
    (.delete "a-0000" false, List.replicate 7 {})]

def keepsBooksCheck (_ : World) (op : CapacityOp) (c : Call) (r : c.Ans) (w : World) : Bool :=
  c.written r && c.respects w &&
    match op with
    | .expire | .register _ _ _ _ _ | .terminate _ => false
    | _ => true

theorem keepsBooksCheck_sound {w₀ : World} {op : CapacityOp} {c : Call} {r : c.Ans} {w : World}
    (h : keepsBooksCheck w₀ op c r w = true) : keepsBooks w₀ op c r w := by
  simp only [keepsBooksCheck, Bool.and_eq_true] at h
  refine ⟨h.1.1, h.1.2, ?_⟩
  cases op <;> first | trivial | exact Bool.noConfusion h.2

theorem capacity_conserved_twoHosts : ∃ w, Rounds ctl (CapacityOp.prog { routingMode := .hostTg }) keepsBooks twoHosts w ∧
    ((w.tenants.get "a-0000").any fun t => t.hostId = some "i-2" ∧ t.status = .deleted) = true ∧ w.Conserved := by
  have hrun : ((ctlOracle.rounds (CapacityOp.prog { routingMode := .hostTg }) keepsBooksCheck twoHostsRun twoHosts).any
      fun w => (w.tenants.get "a-0000").any fun t => t.hostId = some "i-2" ∧ t.status = .deleted) = true := by
    decide +kernel
  obtain ⟨w, hw, ht⟩ := Oracle.exists_rounds (fun _ _ _ _ _ => keepsBooksCheck_sound) hrun
  exact ⟨w, hw, ht, capacity_conserved { routingMode := .hostTg } twoHosts_inOrder hw⟩

/-- The tenant on the first host has expired and is to be deleted. -/
def expiredWorld : World where
  tenants := ⟨[{ runningTenant "a-0000" "i-1" 1 with expiresAt := some 0, onExpiry := some .delete }], by decide⟩
  hosts := ⟨[busyHost "i-1" 2], by decide⟩

theorem expiredWorld_inOrder : expiredWorld.InOrder where
  conserved := by decide
  homed := by
    intro t ht _ h hh
    obtain rfl := List.mem_singleton.1 ht
    obtain rfl := Option.some.inj hh
    rfl
  coherent := by
    intro t ht
    obtain rfl := List.mem_singleton.1 ht
    exact ⟨nofun, nofun⟩

/-- The host of a tenant whose TTL deleted it stays booked. -/
theorem expiry_leaks_capacity : ∃ w, expiredWorld.InOrder ∧
    Rounds ctl (CapacityOp.prog {}) writesSucceed expiredWorld w ∧ ¬ w.Conserved := by
  have hrun : ((ctlOracle.rounds (CapacityOp.prog {}) (fun _ _ c r _ => c.written r) [(.expire, List.replicate 3 {})]
      expiredWorld).any fun w => !decide w.Conserved) = true := by
    decide +kernel
  obtain ⟨w, hw, hc⟩ := Oracle.exists_rounds (fun _ _ _ _ _ h => h) hrun
  exact ⟨w, expiredWorld_inOrder, hw, by simpa using hc⟩

end OpenClaw
