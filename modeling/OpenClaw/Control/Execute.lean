import OpenClaw.Control.Calls
import OpenClaw.Lib.Simulate

/-!
# Running the control plane

`World.exec` computes an answer for each call: reads return the rows in table order, new ids are the next number, and
a `Hint` decides what is open, such as whether a request goes through. It is one of the answers of `World.step`
(`exec_sound`), so a run can be played.
-/

namespace OpenClaw

open Keyed Atomic

/-- What is left open by the world. -/
structure Hint where
  /-- The request goes through; the poll or the probe says success. -/
  ok : Bool := true
  /-- The polled command has finished. -/
  done : Bool := true
  suffix : String := "0000"
  time : Time := 0
  key : Option String := some "backup"

/-- `r` from a request that went through, else the answer of a failure. -/
def attempt {α : Type} (h : Hint) (w : World) (r : α × World) (failed : α) : α × World :=
  if h.ok then r else (failed, w)

/-- The answer the hint selects, and the world after it; `none` when the hint does not fit. -/
def World.exec (w : World) (h : Hint) : (c : Call) → Option (c.Ans × World)
  | .getTenant id => some (w.tenants.get id, w)
  | .scanTenants f => some (w.tenants.rows.filter f.holds, w)
  | .putTenant t => some (attempt h w (true, w.putTenant t) false)
  | .updTenant id u => (w.tenants.get id).map fun t => attempt h w (true, w.putTenant (u.apply t)) false
  | .condTenant id c u => (w.tenants.get id).map fun t =>
    attempt h w (if c.holds t then (.done, w.putTenant (u.apply t)) else (.refused, w)) .failed
  | .getHost id => some (w.hosts.get id, w)
  | .scanHosts f => some (w.hosts.rows.filter f.holds, w)
  | .putHost x => some (attempt h w (true, w.putHost x) false)
  | .updHost id u =>
    match w.updatedHost id u with
    | some x => some (attempt h w (some x, w.putHost x) none)
    | none => some (none, w)
  | .reserveHost id c v m =>
    if h.ok then
      if (w.hosts.get id).all fun x => !c.holds x then some (.refused, w)
      else (w.hosts.get id).bind fun x => ((HostUpdate.reserve v m).apply x).bind fun x' =>
        x'.nextVmNum.map fun n => (.next n, w.putHost x')
    else some (.failed, w)
  | .raiseNext id n => some (attempt h w
    (if (w.hostRow id).nextVmNum.all (· < n) then (.done, w.putHost { w.hostRow id with nextVmNum := some n })
      else (.refused, w)) .failed)
  | .incNext id => (w.updatedHost id .incNext).map fun x =>
    attempt h w (some (w.hostRow id).nextVmNum, w.putHost x) none
  | .deleteHost id => some (attempt h w (true, w.eraseHost id) false)
  | .groupSkills _ => some ([], w)
  | .ssmSend host cmd =>
    match host with
    | some x =>
      if h.ok then
        if w.cmds.all fun c => c.id ≠ w.cmds.length then
          some (some w.cmds.length, w.addCmd ⟨w.cmds.length, x, cmd⟩)
        else none
      else some (none, w)
    | none => some (none, w)
  | .ssmRun host cmd =>
    if w.cmds.all fun c => c.id ≠ w.cmds.length then some (h.ok, w.addCmd ⟨w.cmds.length, host, cmd⟩) else none
  | .ssmPoll _ _ => some ((h.done, h.ok), w)
  | .ssmWait _ _ => some (h.ok, w)
  | .verifyVm _ _ => some (h.ok, w)
  | .verifyDashboard _ => some (h.ok, w)
  | .latestBackup _ => some (h.key, w)
  | .resolveBackup _ _ => some (h.key, w)
  | .sqsSend job => some (attempt h w (true, w.enqueue job) false)
  | .scaleOut => some ((), w)
  | .describeTg name => some ((w.tgs.find? fun g => g.name = name).map TargetGroup.arn, w)
  | .createTg name =>
    if w.tgs.all fun g => g.name ≠ name ∧ g.arn ≠ w.tgs.length then
      some (some w.tgs.length, w.setTgs (w.tgs ++ [{ name := name, arn := w.tgs.length }]))
    else none
  | .registerTargets a ip => some (attempt h w
    (true, w.setTgs (w.tgs.map fun g => if g.arn = a then { g with targets := ip :: g.targets } else g)) false)
  | .deleteTg a => some (attempt h w (true, w.setTgs (w.tgs.filter fun g => g.arn ≠ a)) false)
  | .describeRules => some (if h.ok then some w.rules else none, w)
  | .createRule p conds tg =>
    if h.ok then
      if w.rules.all fun x => x.priority ≠ some p then
        if w.rules.all fun x => x.arn ≠ w.rules.length then
          some (.created, w.setRules (w.rules ++ [⟨w.rules.length, some p, conds, [tg]⟩]))
        else none
      else some (.priorityInUse, w)
    else some (.error, w)
  | .modifyRule a tg => some (attempt h w
    (true, w.setRules (w.rules.map fun x => if x.arn = a then { x with actions := [tg] } else x)) false)
  | .deleteRule a => some (attempt h w (true, w.setRules (w.rules.filter fun x => x.arn ≠ a)) false)
  | .now => some (max w.clock h.time, w.setClock (max w.clock h.time))
  | .genId name =>
    if h.suffix.length = 4 ∧ h.suffix.toList.all "0123456789abcdef".toList.contains then
      some (name ++ "-" ++ h.suffix, w)
    else none
  | .shuffle hs => some (hs, w)
  | .choice ps => ps.head?.map fun p => (p, w)

theorem attempt_sent {h : Hint} {w w₁ w' : World} {r : Bool} (he : attempt h w (true, w₁) false = (r, w')) :
    sent r w w₁ w' := by
  unfold attempt at he
  split at he <;> obtain ⟨rfl, rfl⟩ := Prod.mk.inj he <;> rfl

/-- What `exec` computes is a step. -/
theorem exec_sound {c : Call} {h : Hint} {w w' : World} {r : c.Ans} (he : w.exec h c = some (r, w')) :
    World.step c r w w' := by
  cases c
  case updTenant id u =>
    obtain ⟨t, ht, he⟩ := Option.map_eq_some_iff.1 he
    exact ⟨t, ht, attempt_sent he⟩
  case condTenant id c u =>
    obtain ⟨t, ht, he⟩ := Option.map_eq_some_iff.1 he
    refine ⟨t, ht, ?_⟩
    unfold attempt at he
    split at he
    · split at he <;> obtain ⟨rfl, rfl⟩ := Prod.mk.inj he
      · exact ⟨‹_›, rfl⟩
      · exact ⟨Bool.eq_false_iff.2 ‹_›, rfl⟩
    · obtain ⟨rfl, rfl⟩ := Prod.mk.inj he
      rfl
  case updHost id u =>
    simp only [World.exec] at he
    split at he
    · rename_i x hx
      unfold attempt at he
      split at he <;> obtain ⟨rfl, rfl⟩ := Prod.mk.inj (Option.some.inj he)
      · exact ⟨hx, rfl⟩
      · rfl
    · obtain ⟨rfl, rfl⟩ := Prod.mk.inj (Option.some.inj he)
      rfl
  case reserveHost id c v m =>
    simp only [World.exec] at he
    split at he
    · split at he
      · obtain ⟨rfl, rfl⟩ := Prod.mk.inj (Option.some.inj he)
        exact ⟨‹_›, rfl⟩
      · rename_i hall
        obtain ⟨x, hx, he⟩ := Option.bind_eq_some_iff.1 he
        obtain ⟨x', hx', he⟩ := Option.bind_eq_some_iff.1 he
        obtain ⟨n, hn, he⟩ := Option.map_eq_some_iff.1 he
        obtain ⟨rfl, rfl⟩ := Prod.mk.inj he
        exact ⟨x, x', hx, by simpa [hx] using hall, hx', hn, rfl⟩
    · obtain ⟨rfl, rfl⟩ := Prod.mk.inj (Option.some.inj he)
      rfl
  case raiseNext id n =>
    simp only [World.exec, attempt] at he
    split at he
    · split at he <;> obtain ⟨rfl, rfl⟩ := Prod.mk.inj (Option.some.inj he)
      · exact ⟨‹_›, rfl⟩
      · exact ⟨Bool.eq_false_iff.2 ‹_›, rfl⟩
    · obtain ⟨rfl, rfl⟩ := Prod.mk.inj (Option.some.inj he)
      rfl
  case incNext id =>
    simp only [World.exec, Option.map_eq_some_iff] at he
    obtain ⟨x, hx, he⟩ := he
    unfold attempt at he
    split at he <;> obtain ⟨rfl, rfl⟩ := Prod.mk.inj he
    · exact ⟨rfl, x, hx, rfl⟩
    · rfl
  case ssmSend host cmd =>
    cases host with
    | none =>
      obtain ⟨rfl, rfl⟩ := Prod.mk.inj (Option.some.inj he)
      rfl
    | some x =>
      simp only [World.exec] at he
      split at he
      · split at he
        · rename_i hall
          obtain ⟨rfl, rfl⟩ := Prod.mk.inj (Option.some.inj he)
          exact ⟨by simpa using hall, x, rfl, rfl⟩
        · cases he
      · obtain ⟨rfl, rfl⟩ := Prod.mk.inj (Option.some.inj he)
        rfl
  case ssmRun host cmd =>
    simp only [World.exec] at he
    split at he
    · rename_i hall
      obtain ⟨rfl, rfl⟩ := Prod.mk.inj (Option.some.inj he)
      exact .inr ⟨w.cmds.length, by simpa using hall, rfl⟩
    · cases he
  case describeTg name =>
    obtain ⟨rfl, rfl⟩ := Prod.mk.inj (Option.some.inj he)
    refine ⟨fun a ha => ?_, rfl⟩
    obtain ⟨g, hg, rfl⟩ := Option.map_eq_some_iff.1 ha
    exact ⟨g, List.mem_of_find?_eq_some hg, by simpa using List.find?_some hg, rfl⟩
  case createTg name =>
    simp only [World.exec] at he
    split at he
    · rename_i hall
      obtain ⟨rfl, rfl⟩ := Prod.mk.inj (Option.some.inj he)
      have hnew : ∀ g ∈ w.tgs, g.name ≠ name ∧ g.arn ≠ w.tgs.length := by simpa using hall
      exact ⟨.inr hnew, congrArg w.setTgs (withTg_new fun g hg => (hnew g hg).1).symm⟩
    · cases he
  case describeRules =>
    obtain ⟨rfl, rfl⟩ := Prod.mk.inj (Option.some.inj he)
    refine ⟨fun rs hrs => ?_, rfl⟩
    split at hrs
    · exact Option.some.inj hrs ▸ .refl _
    · cases hrs
  case createRule p conds tg =>
    simp only [World.exec] at he
    split at he
    · split at he
      · rename_i hp
        split at he
        · rename_i ha
          obtain ⟨rfl, rfl⟩ := Prod.mk.inj (Option.some.inj he)
          exact ⟨by simpa using hp, w.rules.length, by simpa using ha, rfl⟩
        · cases he
      · rename_i hp
        obtain ⟨rfl, rfl⟩ := Prod.mk.inj (Option.some.inj he)
        exact ⟨by simpa using hp, rfl⟩
    · obtain ⟨rfl, rfl⟩ := Prod.mk.inj (Option.some.inj he)
      rfl
  case now =>
    obtain ⟨rfl, rfl⟩ := Prod.mk.inj (Option.some.inj he)
    exact ⟨Int.le_max_left _ _, rfl⟩
  case genId name =>
    simp only [World.exec] at he
    split at he
    · rename_i hs
      obtain ⟨rfl, rfl⟩ := Prod.mk.inj (Option.some.inj he)
      exact ⟨⟨h.suffix, hs.1, fun c hc => List.contains_iff_mem.1 (List.all_eq_true.1 hs.2 c hc), rfl⟩, rfl⟩
    · cases he
  case choice ps =>
    obtain ⟨p, hp, he⟩ := Option.map_eq_some_iff.1 he
    obtain ⟨rfl, rfl⟩ := Prod.mk.inj he
    exact ⟨List.mem_of_head? hp, rfl⟩
  case putTenant | putHost | deleteHost | sqsSend | registerTargets | deleteTg | modifyRule | deleteRule =>
    exact attempt_sent (Option.some.inj he)
  case scanTenants | scanHosts | shuffle =>
    obtain ⟨rfl, rfl⟩ := Prod.mk.inj (Option.some.inj he)
    exact ⟨.refl _, rfl⟩
  case getTenant | getHost =>
    obtain ⟨rfl, rfl⟩ := Prod.mk.inj (Option.some.inj he)
    exact ⟨rfl, rfl⟩
  all_goals
    obtain ⟨rfl, rfl⟩ := Prod.mk.inj (Option.some.inj he)
    exact rfl

/-- The oracle of the control plane. -/
def ctlOracle : Oracle ctl Hint := ⟨fun c h w => w.exec h c, exec_sound⟩

/-! ## A small fleet -/

/-- A host of four vCPUs and 8 GiB with room for everything, whose next number is `next`. -/
def emptyHost (id : HostId) (next : Int) : HostRow :=
  { instanceId := id, status := some .active, privateIp := some "10.0.0.1", totalVcpu := some 4,
    totalMemMb := some 8192, usedVcpu := some 0, usedMemMb := some 0, vmCount := some 0, nextVmNum := some next }

/-- The same with one VM of one vCPU and 1 GiB booked. -/
def busyHost (id : HostId) (next : Int) : HostRow :=
  { emptyHost id next with usedVcpu := some 1, usedMemMb := some 1024, vmCount := some 1 }

/-- A tenant of one vCPU and 1 GiB running on a host. -/
def runningTenant (id : TenantId) (host : HostId) (vmNum : Int) : TenantRow :=
  { id := id, status := .running, vcpu := 1, memMb := 1024, hostId := some host, vmNum := some vmNum }

/-- One tenant on the first of two hosts. -/
def twoHosts : World where
  tenants := ⟨[runningTenant "a-0000" "i-1" 1], by decide⟩
  hosts := ⟨[busyHost "i-1" 2, emptyHost "i-2" 5], by decide⟩

/-- A tenant on a host that no longer reports, and a host that does in another zone. -/
def outageWorld : World where
  tenants := twoHosts.tenants
  hosts := ⟨[{ busyHost "i-1" 2 with az := some "az-1" },
    { emptyHost "i-2" 5 with az := some "az-2", lastHealthCheck := some 0 }], by decide⟩

def outageConfig : Config := { failoverQueueUrl := true, assetsBucket := "b", routingMode := .hostTg }

/-- The message the detector sends. -/
def outageJob : FailoverJob where
  tenantId := "a-0000"
  sourceAz := "az-1"
  sourceHostId := some "i-1"
  targetHostId := "i-2"
  targetVmNum := 5
  backupKey := "backup"
  queuedAt := 0

end OpenClaw
