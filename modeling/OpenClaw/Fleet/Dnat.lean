import OpenClaw.Lifecycle.Creation
import OpenClaw.Numbers.Ledger
import OpenClaw.Capacity.Books
import OpenClaw.Lib.Sequence

/-!
# DNAT rules and tenants

The PREROUTING chain of a host beside the tables of the control plane. `iptables -A` appends a rule whether or not it is
there already, `iptables -D` deletes one copy; the control plane never looks at the chain.

- `ForwardWorld.InOrder`: the chain of each host has one rule for each of its tenants that is neither stopped nor
  deleted.
- `dnat_matches`: it stays so over create, stop, start, restart, reset and delete, as long as nothing that is forwarded
  is launched again (`relaunchesNothing`).
- `restart_leaves_rule`: a restarted tenant keeps a rule after it was deleted.
-/

namespace OpenClaw

open Keyed Atomic

variable (cfg : Config)

/-! ## Chains -/

/-- `-p tcp --dport <port> -j DNAT --to-destination <ip>:<VM_PORT_BASE>`. -/
structure DnatRule where
  port : Int
  ip : String
deriving DecidableEq

/-- What a command that succeeds does to the chain; the scripts do not touch it, and `-D` is followed by `|| true`. -/
def HostCmd.prerouting : HostCmd → List DnatRule → List DnatRule
  | .dnatAdd (some p) (some ip), ch => ch ++ [⟨p, ip⟩]
  | .dnatDel (some p) (some ip), ch => ch.erase ⟨p, ip⟩
  | .and a b, ch | .seq a b, ch => b.prerouting (a.prerouting ch)
  | _, ch => ch

/-- The control plane and the chain of each host. -/
structure ForwardWorld where
  ctl : World
  chains : HostId → List DnatRule

/-- The command a call runs, and where. -/
def Call.hostCommand : Call → Option (HostId × HostCmd)
  | .ssmSend (some h) cmd => some (h, cmd)
  | .ssmRun h cmd => some (h, cmd)
  | _ => none

/-- The command of the call was run with success. -/
def Call.commandOk : (c : Call) → c.Ans → Bool
  | .ssmSend _ _, r => r.isSome
  | .ssmRun _ _, r => r
  | _, _ => true

/-- A command that fails may have done anything on its host. -/
def Forwards (c : Call) (r : c.Ans) (ch ch' : HostId → List DnatRule) : Prop :=
  match c.hostCommand with
  | none => ch' = ch
  | some (h, cmd) =>
    if c.commandOk r then ch' = Function.update ch h (cmd.prerouting (ch h)) else ∀ h', h' ≠ h → ch' h' = ch h'

/-- The control plane with the chains; a command has ended when the operation that sent it has. -/
def forwarding : Sem Ctl ForwardWorld :=
  ⟨fun c r d d' => World.step c r d.ctl d'.ctl ∧ Forwards c r d.chains d'.chains⟩

/-! ## Operations -/

/-- The actions that start or stop a VM. -/
inductive PowerAction
  | restart
  | stop
  | start
  | reset
deriving DecidableEq

def PowerAction.simple : PowerAction → SimpleAction
  | .restart => .restart
  | .stop => .stop
  | .start => .start
  | .reset => .reset

inductive DnatOp
  | create (r : CreateRequest)
  | action (tid : TenantId) (a : PowerAction)
  | delete (tid : TenantId) (keepData : Bool)

def DnatOp.prog : DnatOp → CtlProg Resp
  | .create r => createTenant cfg r
  | .action tid a => tenantAction cfg tid (.simple a.simple)
  | .delete tid keepData => deleteTenant cfg tid keepData

/-! ## Chains in order -/

/-- The rule of a tenant's row. -/
def TenantRow.dnat (t : TenantRow) : Option DnatRule :=
  match t.hostPort, t.guestIp with
  | some p, some ip => some ⟨p, ip⟩
  | _, _ => none

/-- The tenant is on a host and neither stopped nor deleted. -/
def TenantRow.forwarded (t : TenantRow) : Bool := t.hostId.isSome && t.status ≠ .stopped && t.status ≠ .deleted

/-- The rule that should be in the chain of the host. -/
def TenantRow.forwardsAt (t : TenantRow) (h : HostId) (ρ : DnatRule) : Prop :=
  t.hostId = some h ∧ t.forwarded = true ∧ t.dnat = some ρ

/-- The address of a row is the one of its number. -/
structure TenantRow.Numbered (t : TenantRow) (n : Int) : Prop where
  vmNum : t.vmNum = some n
  guestIp : t.guestIp = some (guestIpOf cfg n)
  hostPort : t.hostPort = some (hostPortOf cfg n)

/-- The rule of a number. -/
def ruleOf (n : Int) : DnatRule := ⟨hostPortOf cfg n, guestIpOf cfg n⟩

structure ForwardWorld.InOrder (d : ForwardWorld) : Prop where
  numbered : ∀ t ∈ d.ctl.tenants.rows, ∀ h, t.hostId = some h → ∃ n, t.Numbered cfg n ∧ d.ctl.below h n
  distinct : ∀ t ∈ d.ctl.tenants.rows, ∀ t' ∈ d.ctl.tenants.rows, ∀ h, t.hostId = some h → t'.hostId = some h →
    t.vmNum = t'.vmNum → t.id = t'.id
  nodup : ∀ h, (d.chains h).Nodup
  rules : ∀ h ρ, ρ ∈ d.chains h ↔ ∃ t ∈ d.ctl.tenants.rows, t.forwardsAt h ρ

section Order

variable {cfg} {d d' : ForwardWorld} {x : TenantRow} {n m : Int} {h : HostId} {ρ : DnatRule}

theorem TenantRow.Numbered.dnat {t : TenantRow} (ht : t.Numbered cfg n) :
    t.dnat = some (ruleOf cfg n) := by
  rw [TenantRow.dnat, ht.hostPort, ht.guestIp, ruleOf]

theorem hostPortOf_inj (he : hostPortOf cfg n = hostPortOf cfg m) : n = m := by
  simp only [hostPortOf] at he
  omega

/-- Rows with one rule have one number. -/
theorem vmNum_of_dnat {t t' : TenantRow} (ht : t.Numbered cfg n) (ht' : t'.Numbered cfg m) (he : t.dnat = t'.dnat) :
    t.vmNum = t'.vmNum := by
  rw [ht.dnat, ht'.dnat] at he
  obtain ⟨hp, -⟩ := DnatRule.mk.inj (Option.some.inj he)
  rw [ht.vmNum, ht'.vmNum, hostPortOf_inj hp]

/-- The number of a host's counter never falls. -/
def CounterLe (w w' : World) : Prop := ∀ h k, w.nextNum h = some k → ∃ k', w'.nextNum h = some k' ∧ k ≤ k'

theorem CounterLe.refl (w : World) : CounterLe w w := fun _ k hk => ⟨k, hk, le_refl k⟩

theorem CounterLe.of_hosts {w w' : World} (hh : w'.hosts = w.hosts) : CounterLe w w' := by
  intro h k hk
  exact ⟨k, by rw [World.nextNum, hh]; exact hk, le_refl k⟩

theorem CounterLe.trans {w w' w'' : World} (h₁ : CounterLe w w') (h₂ : CounterLe w' w'') : CounterLe w w'' := by
  intro h k hk
  obtain ⟨k', hk', hle⟩ := h₁ h k hk
  obtain ⟨k'', hk'', hle'⟩ := h₂ h k' hk'
  exact ⟨k'', hk'', hle.trans hle'⟩

theorem CounterLe.below {w w' : World} (hle : CounterLe w w') (hb : w.below h n) : w'.below h n := by
  obtain ⟨k, hk, hlt⟩ := hb
  obtain ⟨k', hk', hkk⟩ := hle h k hk
  exact ⟨k', hk', by omega⟩

/-- Nothing that matters has changed. -/
theorem ForwardWorld.InOrder.same (hI : d.InOrder cfg) (ht : d'.ctl.tenants = d.ctl.tenants) (hc : d'.chains = d.chains)
    (hle : CounterLe d.ctl d'.ctl) : d'.InOrder cfg := by
  refine ⟨fun t htm h hh => ?_, ?_, ?_, ?_⟩
  · rw [ht] at htm
    obtain ⟨n, hn, hb⟩ := hI.numbered t htm h hh
    exact ⟨n, hn, hle.below hb⟩
  · rw [ht]
    exact hI.distinct
  · rw [hc]
    exact hI.nodup
  · rw [ht, hc]
    exact hI.rules

/-- **A row is written.** Its number belongs to nobody else on its host, and the chain of each host has the rules of the
other rows and that of `x`. -/
theorem ForwardWorld.InOrder.put (hI : d.InOrder cfg) (ht : d'.ctl.tenants = d.ctl.tenants.put x)
    (hle : CounterLe d.ctl d'.ctl) (hnum : ∀ h, x.hostId = some h → ∃ n, x.Numbered cfg n ∧ d'.ctl.below h n)
    (hother : ∀ t ∈ d.ctl.tenants.rows, t.id ≠ x.id → ∀ h, t.hostId = some h → x.hostId = some h → t.vmNum ≠ x.vmNum)
    (hnd : ∀ h, (d'.chains h).Nodup)
    (hr : ∀ h ρ, ρ ∈ d'.chains h ↔ (∃ t ∈ d.ctl.tenants.rows, t.id ≠ x.id ∧ t.forwardsAt h ρ) ∨ x.forwardsAt h ρ) :
    d'.InOrder cfg := by
  have hmem : ∀ t, t ∈ d'.ctl.tenants.rows ↔ t = x ∨ t ∈ d.ctl.tenants.rows ∧ t.id ≠ x.id := by
    intro t
    rw [ht]
    exact Table.mem_put
  refine ⟨fun t htm h hh => ?_, fun t htm t' htm' h hh hh' he => ?_, hnd, fun h ρ => ?_⟩
  · rcases (hmem t).1 htm with rfl | ⟨hold, -⟩
    · exact hnum h hh
    · obtain ⟨n, hn, hb⟩ := hI.numbered t hold h hh
      exact ⟨n, hn, hle.below hb⟩
  · rcases (hmem t).1 htm with rfl | ⟨hold, hne⟩
    · rcases (hmem t').1 htm' with rfl | ⟨hold', hne'⟩
      · rfl
      · exact absurd he.symm (hother t' hold' hne' h hh' hh)
    · rcases (hmem t').1 htm' with rfl | ⟨hold', hne'⟩
      · exact absurd he (hother t hold hne h hh hh')
      · exact hI.distinct t hold t' hold' h hh hh' he
  · rw [hr h ρ]
    constructor
    · rintro (⟨t, hold, hne, hf⟩ | hf)
      · exact ⟨t, (hmem t).2 (.inr ⟨hold, hne⟩), hf⟩
      · exact ⟨x, (hmem x).2 (.inl rfl), hf⟩
    · rintro ⟨t, htm, hf⟩
      rcases (hmem t).1 htm with rfl | ⟨hold, hne⟩
      · exact .inr hf
      · exact .inl ⟨t, hold, hne, hf⟩

/-- The rules of the other rows, when the old row was not forwarded. -/
theorem ForwardWorld.InOrder.others (hI : d.InOrder cfg)
    (hold : ∀ y, d.ctl.tenants.get x.id = some y → y.forwarded = false) (h : HostId) (ρ : DnatRule) :
    ρ ∈ d.chains h ↔ ∃ t ∈ d.ctl.tenants.rows, t.id ≠ x.id ∧ t.forwardsAt h ρ := by
  rw [hI.rules h ρ]
  constructor
  · rintro ⟨t, htm, hf⟩
    refine ⟨t, htm, fun he => ?_, hf⟩
    have hfalse := hold t (he ▸ Table.get_of_mem htm)
    rw [hf.2.1] at hfalse
    cases hfalse
  · rintro ⟨t, htm, -, hf⟩
    exact ⟨t, htm, hf⟩

/-- **A tenant comes up.** -/
theorem ForwardWorld.InOrder.launch (hI : d.InOrder cfg)
    (hold : ∀ y, d.ctl.tenants.get x.id = some y → y.forwarded = false) (hx : x.hostId = some h)
    (hf : x.forwarded = true) (hn : x.Numbered cfg n) (hb : d'.ctl.below h n)
    (hother : ∀ t ∈ d.ctl.tenants.rows, t.id ≠ x.id → t.hostId = some h → t.vmNum ≠ some n)
    (ht : d'.ctl.tenants = d.ctl.tenants.put x) (hle : CounterLe d.ctl d'.ctl)
    (hc : d'.chains = Function.update d.chains h (d.chains h ++ [ruleOf cfg n])) :
    d'.InOrder cfg := by
  have hnew : ruleOf cfg n ∉ d.chains h := by
    intro hmem
    obtain ⟨t, htm, hne, hh, -, hdnat⟩ := (hI.others hold h _).1 hmem
    obtain ⟨m, hm, -⟩ := hI.numbered t htm h hh
    have he := vmNum_of_dnat hm hn (hdnat.trans hn.dnat.symm)
    exact hother t htm hne hh (he.trans hn.vmNum)
  refine hI.put ht hle (fun h' hh' => ?_) (fun t htm hne h' hh' hx' => ?_) (fun h' => ?_) fun h' ρ => ?_
  · obtain rfl : h = h' := Option.some.inj (hx.symm.trans hh')
    exact ⟨n, hn, hb⟩
  · obtain rfl : h = h' := Option.some.inj (hx.symm.trans hx')
    rw [hn.vmNum]
    exact hother t htm hne hh'
  · rw [hc]
    by_cases e : h' = h
    · subst e
      rw [Function.update_self]
      exact List.nodup_append.2 ⟨hI.nodup h', List.nodup_singleton _, fun a ha b hb' hab =>
        hnew (List.mem_singleton.1 hb' ▸ hab ▸ ha)⟩
    · rw [Function.update_of_ne e]
      exact hI.nodup h'
  · rw [hc, ← hI.others hold h' ρ]
    by_cases e : h' = h
    · subst e
      rw [Function.update_self, List.mem_append, List.mem_singleton]
      refine or_congr Iff.rfl ⟨fun he => ⟨hx, hf, he ▸ hn.dnat⟩, fun hf' => ?_⟩
      exact Option.some.inj (hf'.2.2.symm.trans hn.dnat)
    · rw [Function.update_of_ne e]
      refine ⟨.inl, fun hor => hor.resolve_right fun hf' => ?_⟩
      exact e (Option.some.inj (hf'.1.symm.trans hx))

/-- **A row that is not forwarded, before and after.** -/
theorem ForwardWorld.InOrder.plainRow (hI : d.InOrder cfg)
    (hold : ∀ y, d.ctl.tenants.get x.id = some y → y.forwarded = false) (hf : x.forwarded = false)
    (hnum : ∀ h, x.hostId = some h → ∃ n, x.Numbered cfg n ∧ d'.ctl.below h n)
    (hother : ∀ t ∈ d.ctl.tenants.rows, t.id ≠ x.id → ∀ h, t.hostId = some h → x.hostId = some h → t.vmNum ≠ x.vmNum)
    (ht : d'.ctl.tenants = d.ctl.tenants.put x) (hle : CounterLe d.ctl d'.ctl) (hc : d'.chains = d.chains) :
    d'.InOrder cfg := by
  refine hI.put ht hle hnum hother (by rw [hc]; exact hI.nodup) fun h ρ => ?_
  rw [hc, hI.others hold h ρ]
  refine ⟨.inl, fun hor => hor.resolve_right fun hf' => ?_⟩
  rw [hf'.2.1] at hf
  cases hf

/-- A row with the address of another. -/
structure SameAddress (x y : TenantRow) : Prop where
  id : x.id = y.id
  hostId : x.hostId = y.hostId
  vmNum : x.vmNum = y.vmNum
  guestIp : x.guestIp = y.guestIp
  hostPort : x.hostPort = y.hostPort

theorem SameAddress.numbered {y : TenantRow} (h : SameAddress x y) (hy : y.Numbered cfg n) : x.Numbered cfg n :=
  ⟨h.vmNum.trans hy.vmNum, h.guestIp.trans hy.guestIp, h.hostPort.trans hy.hostPort⟩

/-- No other row of the host has the number. -/
theorem ForwardWorld.InOrder.unshared (hI : d.InOrder cfg) {y : TenantRow} (hy : d.ctl.tenants.get y.id = some y)
    (hh : y.hostId = some h) {t : TenantRow} (ht : t ∈ d.ctl.tenants.rows) (hne : t.id ≠ y.id)
    (hth : t.hostId = some h) : t.vmNum ≠ y.vmNum :=
  fun he => hne (hI.distinct t ht y (Table.mem_of_get hy) h hth hh he)

/-- The rule of a row that is not forwarded is not in the chain. -/
theorem ForwardWorld.InOrder.rule_absent (hI : d.InOrder cfg) {y : TenantRow} (hy : d.ctl.tenants.get y.id = some y)
    (hh : y.hostId = some h) (hn : y.Numbered cfg n) (hf : y.forwarded = false) :
    ruleOf cfg n ∉ d.chains h := by
  intro hmem
  obtain ⟨t, htm, hth, htf, hdnat⟩ := (hI.rules h _).1 hmem
  obtain ⟨m, hm, -⟩ := hI.numbered t htm h hth
  have he : t.vmNum = y.vmNum := vmNum_of_dnat hm hn (hdnat.trans hn.dnat.symm)
  have hid : t.id = y.id := hI.distinct t htm y (Table.mem_of_get hy) h hth hh he
  have hty : t = y := Option.some.inj ((Table.get_of_mem htm).symm.trans (hid ▸ hy))
  rw [hty, hf] at htf
  cases htf

/-- **A tenant goes down**, whether it was up or not. -/
theorem ForwardWorld.InOrder.shutDown (hI : d.InOrder cfg) {y : TenantRow} (hy : d.ctl.tenants.get y.id = some y)
    (hh : y.hostId = some h) (hn : y.Numbered cfg n) (hxy : SameAddress x y) (hf : x.forwarded = false)
    (ht : d'.ctl.tenants = d.ctl.tenants.put x) (hle : CounterLe d.ctl d'.ctl)
    (hc : d'.chains = Function.update d.chains h ((d.chains h).erase (ruleOf cfg n))) :
    d'.InOrder cfg := by
  have hxh : x.hostId = some h := hxy.hostId.trans hh
  refine hI.put ht hle (fun h' hx => ?_) (fun t htm hne h' hth hx => ?_) (fun h' => ?_) fun h' ρ => ?_
  · obtain rfl : h = h' := Option.some.inj (hxh.symm.trans hx)
    obtain ⟨m, hm, hb⟩ := hI.numbered y (Table.mem_of_get hy) h hh
    obtain rfl : n = m := Option.some.inj (hn.vmNum.symm.trans hm.vmNum)
    exact ⟨n, hxy.numbered hn, hle.below hb⟩
  · obtain rfl : h = h' := Option.some.inj (hxh.symm.trans hx)
    rw [hxy.vmNum]
    exact hI.unshared hy hh htm (fun e => hne (e.trans hxy.id.symm)) hth
  · rw [hc]
    by_cases e : h' = h
    · subst e
      rw [Function.update_self]
      exact (hI.nodup h').erase _
    · rw [Function.update_of_ne e]
      exact hI.nodup h'
  · have hxf : ¬ x.forwardsAt h' ρ := by
      intro hfx
      rw [hfx.2.1] at hf
      cases hf
    rw [or_iff_left hxf, hc]
    by_cases e : h' = h
    · subst e
      rw [Function.update_self, (hI.nodup h').mem_erase_iff, hI.rules h' ρ]
      constructor
      · rintro ⟨hρ, t, htm, hft⟩
        refine ⟨t, htm, fun he => hρ ?_, hft⟩
        have hty : t = y := Option.some.inj ((Table.get_of_mem htm).symm.trans ((he.trans hxy.id) ▸ hy))
        exact Option.some.inj (hft.2.2.symm.trans (hty ▸ hn.dnat))
      · rintro ⟨t, htm, hne, hft⟩
        refine ⟨fun hρ => ?_, t, htm, hft⟩
        obtain ⟨m, hm, -⟩ := hI.numbered t htm h' hft.1
        have he : t.vmNum = y.vmNum := vmNum_of_dnat hm hn (hft.2.2.trans (hρ ▸ hn.dnat.symm))
        exact hI.unshared hy hh htm (fun e' => hne (e'.trans hxy.id.symm)) hft.1 he
    · rw [Function.update_of_ne e, hI.rules h' ρ]
      constructor
      · rintro ⟨t, htm, hft⟩
        refine ⟨t, htm, fun he => e ?_, hft⟩
        have hty : t = y := Option.some.inj ((Table.get_of_mem htm).symm.trans ((he.trans hxy.id) ▸ hy))
        exact Option.some.inj (hft.1.symm.trans (hty ▸ hh))
      · rintro ⟨t, htm, -, hft⟩
        exact ⟨t, htm, hft⟩

/-- **A tenant that was down comes up again.** -/
theorem ForwardWorld.InOrder.relaunch (hI : d.InOrder cfg) {y : TenantRow} (hy : d.ctl.tenants.get y.id = some y)
    (hh : y.hostId = some h) (hn : y.Numbered cfg n) (hxy : SameAddress x y) (hdown : y.forwarded = false)
    (hf : x.forwarded = true) (ht : d'.ctl.tenants = d.ctl.tenants.put x) (hle : CounterLe d.ctl d'.ctl)
    (hc : d'.chains = Function.update d.chains h (d.chains h ++ [ruleOf cfg n])) :
    d'.InOrder cfg := by
  obtain ⟨m, hm, hb⟩ := hI.numbered y (Table.mem_of_get hy) h hh
  obtain rfl : n = m := Option.some.inj (hn.vmNum.symm.trans hm.vmNum)
  refine hI.launch (fun z hz => ?_) (hxy.hostId.trans hh) hf (hxy.numbered hn) (hle.below hb)
    (fun t htm hne hth => ?_) ht hle hc
  · rw [hxy.id] at hz
    obtain rfl : y = z := Option.some.inj (hy.symm.trans hz)
    exact hdown
  · rw [← hn.vmNum]
    exact hI.unshared hy hh htm (fun e => hne (e.trans hxy.id.symm)) hth

end Order

/-! ## The condition -/

/-- The operation changes whether its tenant is forwarded. -/
def DnatOp.switches (op : DnatOp) (w : World) : Prop :=
  match op with
  | .create _ => False
  | .action tid a => a ≠ .stop ∨ ∃ y, w.tenants.get tid = some y ∧ y.forwarded = true
  | .delete tid _ => ∃ y, w.tenants.get tid = some y ∧ y.forwarded = true

/-- All host commands succeed. -/
def commandsSucceed (_ : ForwardWorld) (_ : DnatOp) (c : Call) (r : c.Ans) (_ : ForwardWorld) : Prop :=
  c.commandOk r = true

/-- Only a tenant that is not forwarded is started, restarted or reset, no new id is that of a tenant that is forwarded,
and the writes of an operation that switches a tenant go through. -/
structure relaunchesNothing (d₀ : ForwardWorld) (op : DnatOp) (c : Call) (r : c.Ans) (d : ForwardWorld) : Prop where
  command : c.commandOk r = true
  down : ∀ tid a y, op = .action tid a → a ≠ .stop → d₀.ctl.tenants.get tid = some y → y.forwarded = false
  written : op.switches d₀.ctl → c.written r = true
  fresh : ∀ t y, c = .putTenant t → d.ctl.tenants.get t.id = some y → y.forwarded = false

/-! ## Parts of an operation -/

/-- An operation begun in `d` that has written no tenant yet, and left the chains as `ch`. -/
structure Midway (d : ForwardWorld) (ch : HostId → List DnatRule) (d₁ : ForwardWorld) : Prop where
  tenants : d₁.ctl.tenants = d.ctl.tenants
  counters : CounterLe d.ctl d₁.ctl
  chains : d₁.chains = ch

section Parts

variable {cfg} {ok : (c : Call) → c.Ans → ForwardWorld → Prop} {d d₁ : ForwardWorld} {ch : HostId → List DnatRule}
  {α β : Type} {Q : α → ForwardWorld → Prop}

theorem Midway.refl (d : ForwardWorld) : Midway d d.chains d := ⟨rfl, .refl d.ctl, rfl⟩

theorem Call.plain.noCommand {c : Call} (hc : c.plain) : c.hostCommand = none := by
  cases c <;> first | rfl | exact hc.elim

/-- A step without a host command that changes no tenant and lowers no counter. -/
theorem Midway.step (hM : Midway d ch d₁) {c : Call} {r : c.Ans} {d₂ : ForwardWorld} (hc : c.hostCommand = none)
    (ht : d₂.ctl.tenants = d₁.ctl.tenants) (hle : CounterLe d₁.ctl d₂.ctl) (hf : Forwards c r d₁.chains d₂.chains) :
    Midway d ch d₂ := by
  unfold Forwards at hf
  rw [hc] at hf
  exact ⟨ht.trans hM.tenants, hM.counters.trans hle, hf.trans hM.chains⟩

/-- A part that is about the load balancer or only reads. -/
theorem Midway.part (hM : Midway d ch d₁) {R : β → Prop} {p : CtlProg β} (hp : p.Gives Call.plain R) {k : β → CtlProg α}
    (hk : ∀ b d₂, R b → Midway d ch d₂ → d₂.ctl.hosts = d₁.ctl.hosts → (k b).wp (forwarding.restrict ok) Q d₂) :
    (p >>= k).wp (forwarding.restrict ok) Q d₁ := by
  induction p generalizing d₁ with
  | ret b => exact hk b d₁ hp hM rfl
  | call c q ih =>
    rintro r d₂ ⟨-, hs, hf⟩
    obtain ⟨ht, hh⟩ := step_quiet hp.1.quiet hs
    refine ih r (hM.step hp.1.noCommand ht (.of_hosts hh) hf) (hp.2 r) fun b d₃ hb h₃ hh₃ => ?_
    exact hk b d₃ hb h₃ (hh₃.trans hh)

/-- A command that succeeds. -/
theorem Midway.command (hok : ∀ c r d, ok c r d → c.commandOk r = true) (hM : Midway d ch d₁) {h : HostId}
    {cmd : HostCmd} {k : Bool → CtlProg α} (hk : ∀ d₂, Midway d (Function.update ch h (cmd.prerouting (ch h))) d₂ →
      d₂.ctl.hosts = d₁.ctl.hosts → (k true).wp (forwarding.restrict ok) Q d₂) :
    (@Prog.call Ctl α (.ssmRun h cmd) k).wp (forwarding.restrict ok) Q d₁ := by
  rintro r d₂ ⟨hr, hs, hf⟩
  obtain rfl : r = true := hok _ _ _ hr
  obtain ⟨ht, hh⟩ := step_quiet (c := .ssmRun h cmd) ⟨rfl, rfl, rfl⟩ hs
  have hch : d₂.chains = Function.update d₁.chains h (cmd.prerouting (d₁.chains h)) := hf
  refine hk d₂ ⟨ht.trans hM.tenants, hM.counters.trans (.of_hosts hh), ?_⟩ hh
  rw [hch, hM.chains]

/-- A command on the host that leaves its chain alone. -/
theorem Midway.inert (hok : ∀ c r d, ok c r d → c.commandOk r = true) (hM : Midway d ch d₁) {h : HostId} {cmd : HostCmd}
    (hcmd : ∀ l, cmd.prerouting l = l) {k : Bool → CtlProg α}
    (hk : ∀ d₂, Midway d ch d₂ → d₂.ctl.hosts = d₁.ctl.hosts → (k true).wp (forwarding.restrict ok) Q d₂) :
    (@Prog.call Ctl α (.ssmRun h cmd) k).wp (forwarding.restrict ok) Q d₁ := by
  refine hM.command hok fun d₂ h₂ hh => hk d₂ ?_ hh
  rw [hcmd, Function.update_eq_self] at h₂
  exact h₂

theorem CounterLe.putHost {w : World} {x : HostRow} (hx : ∀ k, w.nextNum x.instanceId = some k →
    ∃ k', x.nextVmNum = some k' ∧ k ≤ k') : CounterLe w (w.putHost x) := by
  intro h k hk
  by_cases e : h = x.instanceId
  · obtain ⟨k', hk', hle⟩ := hx k (e ▸ hk)
    refine ⟨k', ?_, hle⟩
    rw [World.nextNum, World.putHost_hosts, Table.get_put, if_pos e]
    exact hk'
  · refine ⟨k, ?_, le_refl k⟩
    rw [World.nextNum, World.putHost_hosts, Table.get_put, if_neg e]
    exact hk

/-- An update that does not write the counter. -/
theorem CounterLe.updHost {w : World} {id : HostId} {u : HostUpdate} {x : HostRow} (hu : w.updatedHost id u = some x)
    (hnext : ∀ y z, u.apply y = some z → z.nextVmNum = y.nextVmNum) : CounterLe w (w.putHost x) := by
  have hid : x.instanceId = id := (HostUpdate.apply_id hu).trans (World.hostRow_id w id)
  refine .putHost fun k hk => ⟨k, ?_, le_refl k⟩
  rw [hnext _ _ hu]
  rw [hid] at hk
  obtain ⟨y, hy, hk⟩ := Option.bind_eq_some_iff.1 hk
  simpa [World.hostRow, HostRow.orNew, hy] using hk

/-- The counters of a deleted tenant. -/
theorem Midway.release (hM : Midway d ch d₁) {t : TenantRow} {h : HostId} {k : Bool → CtlProg α}
    (hk : ∀ b d₂, Midway d ch d₂ → (b = false → ∃ c r d', ok c r d' ∧ c.written r = false) →
      (k b).wp (forwarding.restrict ok) Q d₂) :
    (releaseDeleted t h >>= k).wp (forwarding.restrict ok) Q d₁ := by
  have hrel : ∀ y z, (HostUpdate.release t.vcpu t.memMb).apply y = some z → z.nextVmNum = y.nextVmNum := by
    intro y z hz
    obtain ⟨_, _, _, -, -, -, rfl⟩ := HostUpdate.release_eq_some.1 hz
    rfl
  simp only [releaseDeleted, req_bind, Prog.call_bind, Prog.pure_eq]
  rintro r d₂ ⟨hr, hs, hf⟩
  cases r with
  | none =>
    have hs : d₂.ctl = d₁.ctl := hs
    exact hk false d₂ (hM.step rfl (by rw [hs]) (by rw [hs]; exact .refl _) hf) fun _ => ⟨_, _, _, hr, rfl⟩
  | some x =>
    obtain ⟨hu, hs⟩ := hs
    have h₂ : Midway d ch d₂ := hM.step rfl (by rw [hs]; rfl) (by rw [hs]; exact .updHost hu hrel) hf
    dsimp only
    split
    · rintro now d₃ ⟨-, hs, hf⟩
      obtain ⟨ht, hh⟩ := step_quiet (c := .now) ⟨rfl, rfl, rfl⟩ hs
      have h₃ : Midway d ch d₃ := h₂.step rfl ht (.of_hosts hh) hf
      rintro r d₄ ⟨hr, hs, hf⟩
      cases r with
      | none =>
        have hs : d₄.ctl = d₃.ctl := hs
        exact hk false d₄ (h₃.step rfl (by rw [hs]) (by rw [hs]; exact .refl _) hf) fun _ => ⟨_, _, _, hr, rfl⟩
      | some x' =>
        obtain ⟨hu, hs⟩ := hs
        refine hk true d₄ (h₃.step rfl (by rw [hs]; rfl) ?_ hf) fun he => by cases he
        rw [hs]
        refine .updHost hu fun y z hz => ?_
        obtain rfl := Option.some.inj hz
        rfl
    · exact hk true d₂ h₂ fun he => by cases he

/-- The rule of a row is deleted. -/
theorem prerouting_dnatDel {t : TenantRow} {n : Int} (hn : t.Numbered cfg n) (l : List DnatRule) :
    (HostCmd.dnatDel t.hostPort t.guestIp).prerouting l = l.erase (ruleOf cfg n) := by
  rw [hn.hostPort, hn.guestIp]
  rfl

/-- An operation that stops short of its write, on a tenant that was down. -/
theorem Midway.aborted {t : TenantRow} {h : HostId} {n : Int} (hI : d.InOrder cfg)
    (hM : Midway d (Function.update d.chains h ((d.chains h).erase (ruleOf cfg n))) d₁)
    (ht : d.ctl.tenants.get t.id = some t) (hh : t.hostId = some h) (hn : t.Numbered cfg n) (hf : t.forwarded = false) :
    d₁.InOrder cfg := by
  refine hI.same hM.tenants ?_ hM.counters
  rw [hM.chains, List.erase_of_not_mem (hI.rule_absent ht hh hn hf), Function.update_eq_self]

/-- The write that ends an operation: it is taken, or the row stays. -/
theorem Midway.write (hM : Midway d ch d₁) {t : TenantRow} {u : TenantUpdate} {k : Bool → CtlProg α}
    (ht : d.ctl.tenants.get t.id = some t)
    (htaken : ∀ d₂, d₂.ctl.tenants = d.ctl.tenants.put (u.apply t) → CounterLe d.ctl d₂.ctl → d₂.chains = ch →
      (k true).wp (forwarding.restrict ok) Q d₂)
    (hlost : ∀ d₂ d', ok (.updTenant t.id u) false d' → Midway d ch d₂ → (k false).wp (forwarding.restrict ok) Q d₂) :
    (@Prog.call Ctl α (.updTenant t.id u) k).wp (forwarding.restrict ok) Q d₁ := by
  rintro r d₂ ⟨hr, hs, hf⟩
  obtain ⟨y, hy, hs⟩ := hs
  rw [hM.tenants, ht] at hy
  obtain rfl := Option.some.inj hy
  have hf : d₂.chains = d₁.chains := hf
  cases r with
  | true =>
    have hs : d₂.ctl = d₁.ctl.putTenant (u.apply t) := hs
    refine htaken d₂ ?_ ?_ (hf.trans hM.chains)
    · rw [hs, World.putTenant_tenants, hM.tenants]
    · rw [hs]
      exact hM.counters.trans (.of_hosts rfl)
  | false =>
    have hs : d₂.ctl = d₁.ctl := hs
    exact hlost d₂ _ hr (hM.step rfl (by rw [hs]) (by rw [hs]; exact .refl _) hf)

/-- **The write of a stop or a delete.** -/
theorem Midway.down {t : TenantRow} {h : HostId} {n : Int} {s : TenantStatus} {k : Bool → CtlProg Resp}
    (hI : d.InOrder cfg)
    (hM : Midway d (Function.update d.chains h ((d.chains h).erase (ruleOf cfg n))) d₁)
    (ht : d.ctl.tenants.get t.id = some t) (hh : t.hostId = some h) (hn : t.Numbered cfg n)
    (hwr : ∀ c r d', ok c r d' → c.written r = false → t.forwarded = false) (hs : s = .stopped ∨ s = .deleted)
    (hk : ∀ b, ∃ code, k b = .ret code) :
    (@Prog.call Ctl Resp (.updTenant t.id (.status s)) k).wp (forwarding.restrict ok)
      (fun _ d' => d'.InOrder cfg) d₁ := by
  have hret : ∀ b d₂, d₂.InOrder cfg → (k b).wp (forwarding.restrict ok) (fun _ d' => d'.InOrder cfg) d₂ := by
    intro b d₂ h₂
    obtain ⟨code, hcode⟩ := hk b
    rw [hcode]
    exact h₂
  refine hM.write ht (fun d₂ htab hle hc => hret true d₂ ?_) fun d₂ d' hlost h₂ => hret false d₂ ?_
  · have hsame : SameAddress ((TenantUpdate.status s).apply t) t := ⟨rfl, rfl, rfl, rfl, rfl⟩
    refine hI.shutDown ht hh hn hsame ?_ htab hle hc
    rcases hs with rfl | rfl <;> simp [TenantUpdate.apply, TenantRow.forwarded]
  · exact h₂.aborted hI ht hh hn (hwr _ _ _ hlost rfl)

end Parts

/-! ## The operations -/

section Operations

variable {cfg} {ok : (c : Call) → c.Ans → ForwardWorld → Prop} {d : ForwardWorld}

theorem removeAlbRule_plain (tid : TenantId) : (removeAlbRule cfg tid).Gives Call.plain fun _ => True :=
  ((removeAlbRule_routes cfg tid).mono fun _ h => h.plain).gives

/-- A row without a host is not forwarded. -/
theorem forwarded_of_unplaced {t : TenantRow} (hh : t.hostId = none) : t.forwarded = false := by
  simp [TenantRow.forwarded, hh]

theorem deleteTenant_forwards {tid : TenantId} {keepData : Bool} (hI : d.InOrder cfg)
    (hcmd : ∀ c r d', ok c r d' → c.commandOk r = true)
    (hwr : ∀ t, d.ctl.tenants.get tid = some t → ∀ c r d', ok c r d' → c.written r = false → t.forwarded = false) :
    (deleteTenant cfg tid keepData).wp (forwarding.restrict ok) (fun _ d' => d'.InOrder cfg) d := by
  simp only [deleteTenant, req_bind, Prog.pure_eq]
  rintro item d₁ ⟨-, ⟨hitem, hs⟩, hf⟩
  have h₁ : Midway d d.chains d₁ := (Midway.refl d).step rfl (by rw [hs]) (by rw [hs]; exact .refl _) hf
  have hsame : ∀ {d₂}, Midway d d.chains d₂ → d₂.InOrder cfg := fun h => hI.same h.tenants h.chains h.counters
  cases item with
  | none => exact hsame h₁
  | some t =>
    have hid : t.id = tid := Table.key_of_get hitem.symm
    have ht : d.ctl.tenants.get t.id = some t := by rw [hid]; exact hitem.symm
    dsimp only
    split
    · exact hsame h₁
    rw [← hid]
    cases hh : t.hostId with
    | none =>
      refine h₁.part (removeAlbRule_plain t.id) fun b d₂ _ h₂ _ => ?_
      cases b with
      | false => exact hsame h₂
      | true =>
        simp only [markDeleted, req_bind, Prog.pure_eq]
        refine h₂.write ht (fun d₃ htab hle hc => ?_) fun d₃ _ _ h₃ => hsame h₃
        refine hI.plainRow (fun y hy => ?_) ?_ (fun h hx => ?_) (fun z hz hne h hzh hx => ?_) htab hle hc
        · obtain rfl : t = y := Option.some.inj (ht.symm.trans hy)
          exact forwarded_of_unplaced hh
        · exact forwarded_of_unplaced hh
        · exact absurd (hx.symm.trans hh) (by simp)
        · exact absurd (hx.symm.trans hh) (by simp)
    | some h =>
      obtain ⟨n, hn, -⟩ := hI.numbered t (Table.mem_of_get ht) h hh
      have hwr := hwr t hitem.symm
      refine h₁.inert hcmd (fun _ => rfl) fun d₂ h₂ _ => ?_
      refine h₂.inert hcmd (fun _ => rfl) fun d₃ h₃ _ => ?_
      refine h₃.part (removeAlbRule_plain t.id) fun b d₄ _ h₄ _ => ?_
      cases b with
      | false => exact hsame h₄
      | true =>
        refine h₄.command hcmd fun d₅ h₅ _ => ?_
        rw [prerouting_dnatDel hn] at h₅
        have hend : ∀ d₆, Midway d (Function.update d.chains h ((d.chains h).erase (ruleOf cfg n))) d₆ →
            (releaseDeleted t h >>= fun b => if b then markDeleted t.id else Prog.ret 500).wp (forwarding.restrict ok)
              (fun _ d' => d'.InOrder cfg) d₆ := by
          intro d₆ h₆
          refine h₆.release fun b d₇ h₇ hb => ?_
          cases b with
          | false =>
            obtain ⟨c, r, d', hok, hw⟩ := hb rfl
            exact h₇.aborted hI ht hh hn (hwr c r d' hok hw)
          | true =>
            simp only [if_true, markDeleted, req_bind, Prog.pure_eq]
            exact h₇.down hI ht hh hn hwr (.inr rfl) fun b => ⟨_, rfl⟩
        cases keepData with
        | true => exact hend d₅ h₅
        | false => exact h₅.inert hcmd (fun _ => rfl) fun d₆ h₆ _ => hend d₆ h₆

theorem power_prerouting (a : PowerAction) {t : TenantRow} {n : Int} (hn : t.Numbered cfg n) (l : List DnatRule) :
    (a.simple.cmd t).prerouting l =
      if a = .stop then l.erase (ruleOf cfg n) else l ++ [ruleOf cfg n] := by
  cases a <;> simp [PowerAction.simple, SimpleAction.cmd, withDnat, hn.guestIp, hn.hostPort, HostCmd.prerouting,
    relaunchCmd, ruleOf]

/-- The write of an action that launches. -/
theorem Midway.up {d₁ : ForwardWorld} {t : TenantRow} {h : HostId} {n : Int} {u : TenantUpdate}
    {k : Bool → CtlProg Resp}
    (hI : d.InOrder cfg)
    (hM : Midway d (Function.update d.chains h (d.chains h ++ [ruleOf cfg n])) d₁)
    (ht : d.ctl.tenants.get t.id = some t) (hh : t.hostId = some h) (hn : t.Numbered cfg n)
    (hdown : t.forwarded = false) (hwr : ∀ c r d', ok c r d' → c.written r = true) (hsame : SameAddress (u.apply t) t)
    (hrun : (u.apply t).status = .running) (hk : ∀ b, ∃ code, k b = .ret code) :
    (@Prog.call Ctl Resp (.updTenant t.id u) k).wp (forwarding.restrict ok) (fun _ d' => d'.InOrder cfg) d₁ := by
  have hf : (u.apply t).forwarded = true := by simp [TenantRow.forwarded, hsame.hostId, hh, hrun]
  refine hM.write ht (fun d₂ htab hle hc => ?_) fun d₂ d' hlost _ => ?_
  · obtain ⟨code, hcode⟩ := hk true
    rw [hcode]
    exact hI.relaunch ht hh hn hsame hdown hf htab hle hc
  · exact absurd (hwr _ _ _ hlost) (by simp [Call.written])

theorem powerAction_forwards {tid : TenantId} {a : PowerAction} (hI : d.InOrder cfg)
    (hcmd : ∀ c r d', ok c r d' → c.commandOk r = true)
    (hdown : a ≠ .stop → ∀ t, d.ctl.tenants.get tid = some t → ∀ c r d', ok c r d' →
      t.forwarded = false ∧ c.written r = true)
    (hwr : ∀ t, d.ctl.tenants.get tid = some t → ∀ c r d', ok c r d' → c.written r = false → t.forwarded = false) :
    (tenantAction cfg tid (.simple a.simple)).wp (forwarding.restrict ok) (fun _ d' => d'.InOrder cfg) d := by
  simp only [tenantAction, req_bind, Prog.pure_eq]
  rintro item d₁ ⟨hok, ⟨hitem, hs⟩, hf⟩
  have h₁ : Midway d d.chains d₁ := (Midway.refl d).step rfl (by rw [hs]) (by rw [hs]; exact .refl _) hf
  cases item with
  | none => exact hI.same h₁.tenants h₁.chains h₁.counters
  | some t =>
    have hid : t.id = tid := Table.key_of_get hitem.symm
    have ht : d.ctl.tenants.get t.id = some t := by rw [hid]; exact hitem.symm
    dsimp only
    unfold simpleAction
    cases hh : t.hostId with
    | none => exact hI.same h₁.tenants h₁.chains h₁.counters
    | some h =>
      obtain ⟨n, hn, -⟩ := hI.numbered t (Table.mem_of_get ht) h hh
      simp only [req_bind, Prog.pure_eq]
      have hd : a ≠ .stop → t.forwarded = false := fun ha => (hdown ha t hitem.symm _ _ _ hok).1
      have hw : a ≠ .stop → ∀ c r d', ok c r d' → c.written r = true :=
        fun ha c r d' h => (hdown ha t hitem.symm c r d' h).2
      refine h₁.command hcmd fun d₂ h₂ _ => ?_
      rw [power_prerouting a hn] at h₂
      cases a with
      | stop =>
        have h₂ : Midway d (Function.update d.chains h ((d.chains h).erase (ruleOf cfg n))) d₂ := h₂
        exact h₂.down hI ht hh hn (hwr t hitem.symm) (.inl rfl) fun b => ⟨_, rfl⟩
      | restart =>
        have h₂ : Midway d (Function.update d.chains h (d.chains h ++ [ruleOf cfg n])) d₂ := h₂
        exact h₂.up hI ht hh hn (hd (by decide)) (hw (by decide)) ⟨rfl, rfl, rfl, rfl, rfl⟩ rfl fun b => ⟨_, rfl⟩
      | start =>
        have h₂ : Midway d (Function.update d.chains h (d.chains h ++ [ruleOf cfg n])) d₂ := h₂
        exact h₂.up hI ht hh hn (hd (by decide)) (hw (by decide)) ⟨rfl, rfl, rfl, rfl, rfl⟩ rfl fun b => ⟨_, rfl⟩
      | reset =>
        have h₂ : Midway d (Function.update d.chains h (d.chains h ++ [ruleOf cfg n])) d₂ := h₂
        show Prog.wp (forwarding.restrict ok) (@Prog.call Ctl Resp (.getHost h) _) _ d₂
        rintro host d₃ ⟨-, ⟨-, hs⟩, hf⟩
        have h₃ := h₂.step (c := .getHost h) (r := host) rfl (by rw [hs]) (by rw [hs]; exact .refl _) hf
        exact h₃.up hI ht hh hn (hd (by decide)) (hw (by decide)) ⟨rfl, rfl, rfl, rfl, rfl⟩ rfl fun b => ⟨_, rfl⟩

/-! ### create_tenant -/

/-- A number was booked that no row of the host has. -/
structure NumberBooked (d : ForwardWorld) (h : HostId) (n : Int) (d₁ : ForwardWorld) : Prop where
  midway : Midway d d.chains d₁
  below : d₁.ctl.below h n
  free : ∀ t ∈ d.ctl.tenants.rows, t.hostId = some h → t.vmNum ≠ some n

/-- The reservation of a number, which is the counter's. -/
theorem ForwardWorld.InOrder.reserve (hI : d.InOrder cfg) {d₁ d₂ : ForwardWorld} (hM : Midway d d.chains d₁)
    (hh : d₁.ctl.hosts = d.ctl.hosts) {id : HostId} {c : ReserveCond} {v m n : Int}
    (hs : World.step (.reserveHost id c v m) (.next n) d₁.ctl d₂.ctl) (hch : d₂.chains = d₁.chains) :
    NumberBooked d id (n - 1) d₂ := by
  obtain ⟨x, x', hx, -, hu, hn, hw⟩ := hs
  have hid : x'.instanceId = id := (HostUpdate.apply_id hu).trans (Table.key_of_get hx)
  obtain ⟨_, _, _, k, -, -, -, hk, hx'⟩ := HostUpdate.reserve_eq_some.1 hu
  have hkn : k + 1 = n := by
    rw [hx'] at hn
    exact Option.some.inj hn
  have hnext : d₁.ctl.nextNum id = some k := by rw [World.nextNum, hx]; exact hk
  have hnext₀ : d.ctl.nextNum id = some k := by rw [World.nextNum, ← hh]; exact hnext
  refine ⟨⟨?_, ?_, hch.trans hM.chains⟩, ⟨n, ?_, by omega⟩, fun t ht hth he => ?_⟩
  · rw [hw]
    exact hM.tenants
  · rw [hw]
    refine hM.counters.trans (.putHost fun k' hk' => ⟨n, hn, ?_⟩)
    rw [hid, hnext] at hk'
    have hkk : k = k' := Option.some.inj hk'
    omega
  · rw [hw, World.nextNum, World.putHost_hosts, Table.get_put, if_pos hid.symm]
    exact hn
  · obtain ⟨m', hm', k', hk', hlt⟩ := hI.numbered t ht id hth
    have hkk : k = k' := Option.some.inj (hnext₀.symm.trans hk')
    have hmn : m' = n - 1 := Option.some.inj (hm'.vmNum.symm.trans he)
    omega

/-- The reservation loop: nothing is booked, or one number is. -/
theorem reserveFirst_forwards (hI : d.InOrder cfg) {r : CreateRequest}
    {k : Option (Option (HostRow × Int)) → CtlProg Resp}
    (hnone : ∀ d₂ slot, Midway d d.chains d₂ → slot = none ∨ slot = some none →
      (k slot).wp (forwarding.restrict ok) (fun _ d' => d'.InOrder cfg) d₂)
    (hbooked : ∀ d₂ host n, NumberBooked d host.instanceId n d₂ →
      (k (some (some (host, n)))).wp (forwarding.restrict ok) (fun _ d' => d'.InOrder cfg) d₂)
    (hs : List HostRow) {d₁ : ForwardWorld} (hM : Midway d d.chains d₁) (hh : d₁.ctl.hosts = d.ctl.hosts) :
    (reserveFirst cfg r.vcpu r.memMb hs >>= k).wp (forwarding.restrict ok) (fun _ d' => d'.InOrder cfg) d₁ := by
  induction hs generalizing d₁ with
  | nil => exact hnone d₁ _ hM (.inr rfl)
  | cons h hs ih =>
    simp only [reserveFirst, reserveHostSlot]
    split
    · simp only [req_bind, Prog.pure_eq, Prog.call_bind]
      rintro a d₂ ⟨-, hstep, hf⟩
      have hch : d₂.chains = d₁.chains := hf
      cases a with
      | next n => exact hbooked d₂ h (n - 1) (hI.reserve hM hh hstep hch)
      | refused =>
        obtain ⟨-, hw⟩ := hstep
        have h₂ : Midway d d.chains d₂ :=
          ⟨by rw [hw]; exact hM.tenants, by rw [hw]; exact hM.counters, hch.trans hM.chains⟩
        exact ih h₂ (by rw [hw]; exact hh)
      | failed =>
        have hw : d₂.ctl = d₁.ctl := hstep
        refine hnone d₂ _ ⟨?_, ?_, hch.trans hM.chains⟩ (.inl rfl)
        · rw [hw]
          exact hM.tenants
        · rw [hw]
          exact hM.counters
    · exact hnone d₁ _ hM (.inl rfl)

/-- The row of a new tenant was written to `d`. -/
def ForwardWorld.saved (d : ForwardWorld) (row : TenantRow) : ForwardWorld := { d with ctl := d.ctl.putTenant row }

/-- **The launch of a new tenant.** -/
theorem launchCreated_forwards (hI : d.InOrder cfg) (hcmd : ∀ c r d', ok c r d' → c.commandOk r = true)
    {r : CreateRequest} {tid : TenantId} {key : String} {now : Time} {host : HostRow} {n : Int} {d₁ : ForwardWorld}
    (hold : ∀ y, d.ctl.tenants.get tid = some y → y.forwarded = false)
    (hfree : ∀ t ∈ d.ctl.tenants.rows, t.hostId = some host.instanceId → t.vmNum ≠ some n)
    (hb : d₁.ctl.below host.instanceId n)
    (hM : Midway (d.saved (creatingRow cfg r tid key now host n)) d.chains d₁) :
    (launchCreated cfg r (creatingRow cfg r tid key now host n) host n).wp (forwarding.restrict ok)
      (fun _ d' => d'.InOrder cfg) d₁ := by
  unfold launchCreated
  refine hM.part (resolveEffectiveSkills_plain _).gives fun skills d₂ _ h₂ hh₂ => ?_
  simp only [launchVm, req_bind, Prog.call_bind, Prog.pure_eq, Prog.ret_bind]
  rintro a d₃ ⟨hr, hs, hf⟩
  have hr := hcmd _ _ _ hr
  obtain ⟨htab, hh₃⟩ := step_quiet (c := .ssmSend _ _) ⟨rfl, rfl, rfl⟩ hs
  have hch : d₃.chains = Function.update d₂.chains host.instanceId
      (d₂.chains host.instanceId ++ [ruleOf cfg n]) := by
    simpa only [Forwards, Call.hostCommand, hr, if_true, HostCmd.prerouting, ruleOf] using hf
  have hup : Midway (d.saved (creatingRow cfg r tid key now host n)) (Function.update d.chains host.instanceId
      (d.chains host.instanceId ++ [ruleOf cfg n])) d₃ := by
    refine ⟨htab.trans h₂.tenants, h₂.counters.trans (.of_hosts hh₃), ?_⟩
    rw [hch, h₂.chains]
  refine hup.part (routeTenant_plain cfg host _).gives fun b d₄ _ h₄ hh₄ => ?_
  have hhosts : d₄.ctl.hosts = d₁.ctl.hosts := hh₄.trans (hh₃.trans hh₂)
  have hnum : (creatingRow cfg r tid key now host n).Numbered cfg n := ⟨rfl, rfl, rfl⟩
  refine hI.launch (x := creatingRow cfg r tid key now host n) hold rfl rfl hnum ?_ (fun t ht _ hth => hfree t ht hth)
    h₄.tenants ?_ h₄.chains
  · exact (CounterLe.of_hosts hhosts).below hb
  · exact (CounterLe.of_hosts rfl).trans h₄.counters

theorem createOn_forwards (hI : d.InOrder cfg) (hcmd : ∀ c r d', ok c r d' → c.commandOk r = true)
    (hfresh : ∀ t b d' y, ok (.putTenant t) b d' → d'.ctl.tenants.get t.id = some y → y.forwarded = false)
    {r : CreateRequest} {src : Option TenantRow} {tid : TenantId} {key : String} {now : Time} {host : HostRow} {n : Int}
    {d₁ : ForwardWorld} (hB : NumberBooked d host.instanceId n d₁) :
    (createOn cfg r src tid key now host n).wp (forwarding.restrict ok) (fun _ d' => d'.InOrder cfg) d₁ := by
  simp only [createOn, req_bind, Prog.pure_eq]
  rintro b d₂ ⟨hok, hs, hf⟩
  have hch : d₂.chains = d₁.chains := hf
  cases b with
  | false =>
    have hw : d₂.ctl = d₁.ctl := hs
    refine hI.same ?_ (hch.trans hB.midway.chains) ?_
    · rw [hw]
      exact hB.midway.tenants
    · rw [hw]
      exact hB.midway.counters
  | true =>
    have hw : d₂.ctl = d₁.ctl.putTenant (creatingRow cfg r tid key now host n) := hs
    have hold : ∀ y, d.ctl.tenants.get tid = some y → y.forwarded = false := by
      intro y hy
      exact hfresh _ _ d₁ y hok (by rw [hB.midway.tenants]; exact hy)
    have h₂ : Midway (d.saved (creatingRow cfg r tid key now host n)) d.chains d₂ := by
      refine ⟨?_, ?_, hch.trans hB.midway.chains⟩
      · rw [hw, World.putTenant_tenants, hB.midway.tenants]
        rfl
      · rw [hw]
        exact (CounterLe.of_hosts rfl).trans (hB.midway.counters.trans (.of_hosts rfl))
    have hb₂ : d₂.ctl.below host.instanceId n := by
      rw [hw]
      exact (CounterLe.of_hosts rfl).below hB.below
    cases src with
    | none => exact launchCreated_forwards hI hcmd hold hB.free hb₂ h₂
    | some s =>
      refine h₂.inert hcmd (fun _ => rfl) fun d₃ h₃ hh₃ => ?_
      exact launchCreated_forwards hI hcmd hold hB.free ((CounterLe.of_hosts hh₃).below hb₂) h₃

theorem createTenant_forwards (r : CreateRequest) (hI : d.InOrder cfg)
    (hcmd : ∀ c r d', ok c r d' → c.commandOk r = true)
    (hfresh : ∀ t b d' y, ok (.putTenant t) b d' → d'.ctl.tenants.get t.id = some y → y.forwarded = false) :
    (createTenant cfg r).wp (forwarding.restrict ok) (fun _ d' => d'.InOrder cfg) d := by
  have hsame : ∀ {d₂}, Midway d d.chains d₂ → d₂.InOrder cfg := fun h => hI.same h.tenants h.chains h.counters
  unfold createTenant
  split
  · exact hI
  split
  · exact hI
  refine (Midway.refl d).part (cloneSource_plain r) fun src d₁ _ h₁ hh₁ => ?_
  cases src with
  | inl code => exact hsame h₁
  | inr src =>
    refine h₁.part (restoreKeyOf_plain r) fun key d₂ _ h₂ hh₂ => ?_
    cases key with
    | inl code => exact hsame h₂
    | inr key =>
      simp only [createPlaced, req_bind, Prog.pure_eq]
      rintro tid d₃ ⟨-, ⟨-, hs⟩, hf⟩
      have h₃ := h₂.step (c := .genId r.name) (r := tid) rfl (by rw [hs]) (by rw [hs]; exact .refl _) hf
      rintro now d₄ ⟨-, hs', hf'⟩
      obtain ⟨ht₄, hh₄⟩ := step_quiet (c := .now) ⟨rfl, rfl, rfl⟩ hs'
      have h₄ := h₃.step (c := .now) (r := now) rfl ht₄ (.of_hosts hh₄) hf'
      refine h₄.part (candidateHosts_plain cfg r src) fun hosts d₅ _ h₅ hh₅ => ?_
      cases hosts with
      | inl code => exact hsame h₅
      | inr hosts =>
        have hhosts : d₅.ctl.hosts = d.ctl.hosts := by rw [hh₅, hh₄, hs, hh₂, hh₁]
        refine reserveFirst_forwards hI (fun d₆ slot h₆ hslot => ?_) (fun d₆ host n hB => ?_) hosts h₅ hhosts
        · rcases hslot with rfl | rfl
          · exact hsame h₆
          · simp only [savePending, req_bind, Prog.pure_eq]
            rintro b d₇ ⟨hok, hs, hf⟩
            have hch : d₇.chains = d₆.chains := hf
            cases b with
            | false =>
              have hw : d₇.ctl = d₆.ctl := hs
              exact hsame ⟨by rw [hw]; exact h₆.tenants, by rw [hw]; exact h₆.counters, hch.trans h₆.chains⟩
            | true =>
              have hw : d₇.ctl = d₆.ctl.putTenant (pendingRow r tid key now) := hs
              rintro _ d₈ ⟨-, hs, hf⟩
              have hw₈ : d₈.ctl = d₇.ctl := hs
              have hch₈ : d₈.chains = d₇.chains := hf
              refine hI.plainRow (x := pendingRow r tid key now) (fun y hy => ?_) rfl (fun h hx => by cases hx)
                (fun t _ _ h _ hx => by cases hx) ?_ ?_ (hch₈.trans (hch.trans h₆.chains))
              · exact hfresh _ _ d₆ y hok (by rw [h₆.tenants]; exact hy)
              · rw [hw₈, hw, World.putTenant_tenants, h₆.tenants]
              · rw [hw₈, hw]
                exact h₆.counters.trans (.of_hosts rfl)
        · exact createOn_forwards hI hcmd hfresh hB

end Operations

/-! ## Runs -/

/-- One operation. -/
theorem DnatOp.keeps (op : DnatOp) {d : ForwardWorld} (hI : d.InOrder cfg) :
    (op.prog cfg).wp (forwarding.restrict (relaunchesNothing d op)) (fun _ d' => d'.InOrder cfg) d := by
  have hcmd : ∀ c r d', relaunchesNothing d op c r d' → c.commandOk r = true := fun c r d' h => h.command
  cases op with
  | create r => exact createTenant_forwards r hI hcmd fun t b d' y h => h.fresh t y rfl
  | action tid a =>
    refine powerAction_forwards hI hcmd (fun ha t ht c r d' h => ?_) fun t ht c r d' h hlost => ?_
    · exact ⟨h.down tid a t rfl ha ht, h.written (.inl ha)⟩
    · by_contra hne
      have hwritten := h.written (.inr ⟨t, ht, by simpa using hne⟩)
      rw [hlost] at hwritten
      cases hwritten
  | delete tid keepData =>
    refine deleteTenant_forwards hI hcmd fun t ht c r d' h hlost => ?_
    by_contra hne
    have hwritten := h.written ⟨t, ht, by simpa using hne⟩
    rw [hlost] at hwritten
    cases hwritten

/-- **DNAT rules match running tenants.** After every sequence of operations that relaunches nothing, a tenant on a host
has one rule in the host's chain when it is neither stopped nor deleted, and none otherwise; every rule is that of such
a tenant, and no other row of the host has its port. -/
theorem dnat_matches {d₀ d : ForwardWorld} (h₀ : d₀.InOrder cfg)
    (hr : Rounds forwarding (DnatOp.prog cfg) relaunchesNothing d₀ d) :
    (∀ t ∈ d.ctl.tenants.rows, ∀ h, t.hostId = some h →
      ∃ ρ, t.dnat = some ρ ∧ (d.chains h).count ρ = if t.forwarded then 1 else 0) ∧
    ∀ h, ∀ ρ ∈ d.chains h, ∃ t ∈ d.ctl.tenants.rows, t.forwardsAt h ρ ∧
      ∀ t' ∈ d.ctl.tenants.rows, t'.hostId = some h → t'.hostPort = some ρ.port → t' = t := by
  have hI : d.InOrder cfg := Rounds.inv h₀ (fun w op hw => op.keeps cfg hw) hr
  refine ⟨fun t ht h hh => ?_, fun h ρ hρ => ?_⟩
  · obtain ⟨n, hn, -⟩ := hI.numbered t ht h hh
    refine ⟨_, hn.dnat, ?_⟩
    cases hf : t.forwarded with
    | true => exact List.count_eq_one_of_mem (hI.nodup h) ((hI.rules h _).2 ⟨t, ht, hh, hf, hn.dnat⟩)
    | false => exact List.count_eq_zero_of_not_mem (hI.rule_absent (Table.get_of_mem ht) hh hn hf)
  · obtain ⟨t, ht, hf⟩ := (hI.rules h ρ).1 hρ
    refine ⟨t, ht, hf, fun t' ht' hh' hport => ?_⟩
    obtain ⟨n, hn, -⟩ := hI.numbered t ht h hf.1
    obtain ⟨m, hm, -⟩ := hI.numbered t' ht' h hh'
    obtain rfl : ruleOf cfg n = ρ := Option.some.inj (hn.dnat.symm.trans hf.2.2)
    have hnm : m = n := hostPortOf_inj (Option.some.inj (hm.hostPort.symm.trans hport))
    have hid : t'.id = t.id := hI.distinct t' ht' t ht h hh' hf.1 (by rw [hm.vmNum, hn.vmNum, hnm])
    exact Table.eq_of_key ht' ht hid

/-! ## Runs with commands that succeed -/

/-- The world the hint selects, with the chains of commands that succeed. -/
def forwardingOracle : Oracle forwarding Hint where
  exec c h d := (d.ctl.exec h c).bind fun x =>
    if c.commandOk x.1 then some (x.1, ⟨x.2, match c.hostCommand with
      | none => d.chains
      | some (host, cmd) => Function.update d.chains host (cmd.prerouting (d.chains host))⟩)
    else none
  sound := by
    intro c h d d' r he
    obtain ⟨x, hx, he⟩ := Option.bind_eq_some_iff.1 he
    split at he
    · rename_i hok
      obtain ⟨rfl, rfl⟩ := Prod.mk.inj (Option.some.inj he)
      refine ⟨exec_sound hx, ?_⟩
      unfold Forwards
      cases hc : c.hostCommand with
      | none => rfl
      | some p => simp only [hok, if_true]
    · cases he

/-- A host with no tenant, and no rule. -/
def forwardStart : ForwardWorld where
  ctl := { tenants := .empty, hosts := .single (emptyHost "i-1" 1) }
  chains _ := []

theorem forwardStart_inOrder : forwardStart.InOrder cfg := by
  refine ⟨fun t ht => ?_, fun t ht => ?_, fun _ => List.nodup_nil, fun h ρ => ?_⟩
  · exact absurd ht List.not_mem_nil
  · exact absurd ht List.not_mem_nil
  · simp [forwardStart, Table.empty]

/-- `relaunchesNothing`, decided where every write goes through. -/
def relaunchesCheck (d₀ : ForwardWorld) (op : DnatOp) (c : Call) (r : c.Ans) (d : ForwardWorld) : Bool :=
  c.commandOk r && c.written r &&
    (match op with
      | .action tid a => a = .stop || (d₀.ctl.tenants.get tid).all fun y => !y.forwarded
      | _ => true) &&
    match c with
      | .putTenant t => (d.ctl.tenants.get t.id).all fun y => !y.forwarded
      | _ => true

theorem relaunchesCheck_sound {d₀ : ForwardWorld} {op : DnatOp} {c : Call} {r : c.Ans} {d : ForwardWorld}
    (h : relaunchesCheck d₀ op c r d = true) : relaunchesNothing d₀ op c r d := by
  simp only [relaunchesCheck, Bool.and_eq_true] at h
  obtain ⟨⟨⟨hcmd, hwr⟩, hdown⟩, hput⟩ := h
  refine ⟨hcmd, fun tid a y he ha hy => ?_, fun _ => hwr, fun t y he hy => ?_⟩
  · subst he
    simpa [ha, hy] using hdown
  · subst he
    simpa [hy] using hput

/-- `POST /tenants` with this name, and its calls. -/
def createNamed (name : String) : DnatOp × List Hint :=
  (.create { name := name, vcpu := 1, memMb := 1024, dataDiskMb := 2048 }, List.replicate 7 {})

def powerOf (tid : TenantId) (a : PowerAction) : DnatOp × List Hint := (.action tid a, List.replicate 3 {})

/-- Two calls more when the host is empty afterwards. -/
def deleteOf (tid : TenantId) (calls : ℕ) : DnatOp × List Hint := (.delete tid true, List.replicate calls {})

/-- The first tenant is stopped and started before it is deleted. -/
def forwardRun : List (DnatOp × List Hint) :=
  [createNamed "a", powerOf "a-0000" .stop, powerOf "a-0000" .start, createNamed "b", deleteOf "a-0000" 6]

theorem dnat_matches_two : ∃ d,
    Rounds forwarding (DnatOp.prog { routingMode := .hostTg }) relaunchesNothing forwardStart d ∧
    d.chains "i-1" = [⟨18790, "172.16.2.2"⟩] ∧
    ∀ t ∈ d.ctl.tenants.rows, ∀ h, t.hostId = some h →
      ∃ ρ, t.dnat = some ρ ∧ (d.chains h).count ρ = if t.forwarded then 1 else 0 := by
  have hplay : ((forwardingOracle.rounds (DnatOp.prog { routingMode := .hostTg }) relaunchesCheck forwardRun
      forwardStart).any fun d => decide (d.chains "i-1" = [⟨18790, "172.16.2.2"⟩])) = true := by
    decide +kernel
  obtain ⟨d, hr, hd⟩ := Oracle.exists_rounds (fun _ _ _ _ _ => relaunchesCheck_sound) hplay
  exact ⟨d, hr, of_decide_eq_true hd, (dnat_matches _ (forwardStart_inOrder _) hr).1⟩

/-- **A restart leaves a rule behind.** Every command and every write succeeds; the restart appends a second copy of the
rule, and the delete takes one away. -/
theorem restart_leaves_rule : ∃ d,
    Rounds forwarding (DnatOp.prog { routingMode := .hostTg }) commandsSucceed forwardStart d ∧
    (∃ t ∈ d.ctl.tenants.rows, t.id = "a-0000" ∧ t.status = .deleted ∧ t.dnat = some ⟨18789, "172.16.1.2"⟩) ∧
    d.chains "i-1" = [⟨18789, "172.16.1.2"⟩] := by
  have hplay : ((forwardingOracle.rounds (DnatOp.prog { routingMode := .hostTg }) (fun _ _ c r _ => c.commandOk r)
      [createNamed "a", powerOf "a-0000" .restart, deleteOf "a-0000" 8] forwardStart).any fun d => decide (
        (∃ t ∈ d.ctl.tenants.rows, t.id = "a-0000" ∧ t.status = .deleted ∧ t.dnat = some ⟨18789, "172.16.1.2"⟩) ∧
        d.chains "i-1" = [⟨18789, "172.16.1.2"⟩])) = true := by
    decide +kernel
  obtain ⟨d, hr, hd⟩ := Oracle.exists_rounds (fun _ _ _ _ _ h => h) hplay
  obtain ⟨hrow, hrule⟩ := of_decide_eq_true hd
  exact ⟨d, hr, hrow, hrule⟩

end OpenClaw
