import OpenClaw.Capacity.Books

/-!
# Runs with their calls

Rules for `Prog.wpt` over the control plane: what one call adds to the log and does to the tables.
-/

namespace OpenClaw

open Keyed Atomic

/-- DynamoDB writes succeed; everything else may fail. -/
abbrev durable : Sem Ctl World := ctl.restrict fun c r _ => c.written r = true

/-- A call of the control plane with its answer. -/
abbrev CallLog := List (Answered Ctl)

/-- The call was made and answered so. -/
def Saw (l : CallLog) (c : Call) (r : c.Ans) : Prop := (⟨c, r⟩ : Answered Ctl) ∈ l

section Rules

variable {w u : World} {α β : Type} {Q : CallLog → α → World → Prop}

/-- The tables are the same. -/
def SameTables (w u : World) : Prop := w.tenants = u.tenants ∧ w.hosts = u.hosts

theorem SameTables.trans {v : World} (h : SameTables w u) (h' : SameTables u v) : SameTables w v :=
  ⟨h.1.trans h'.1, h.2.trans h'.2⟩

theorem quiet_step {c : Call} (hc : c.quiet) {k : c.Ans → CtlProg α}
    (hk : ∀ r w', SameTables w' w → (k r).wpt durable (fun l => Q (⟨c, r⟩ :: l)) w') :
    (@Prog.call Ctl α c k).wpt durable Q w := fun r w' hs => hk r w' (step_quiet hc hs.2)

theorem quiet_steps {p : CtlProg β} (hp : p.All Call.quiet) {k : β → CtlProg α}
    (hk : ∀ l b w', p.Plays l b → SameTables w' w → (k b).wpt durable (fun l' => Q (l ++ l')) w') :
    (p >>= k).wpt durable Q w := by
  refine (Prog.wpt_bind ..).2 (Prog.wpt_mono (fun l b w' h => hk l b w' h.1 h.2)
    (Prog.wpt_and (Prog.wpt_plays p w) (Prog.wpt_of_wp (Sem.wp_restrict (wp_quiet hp)))))

theorem updHost_step {id : HostId} {x : HostUpdate} {k : Option HostRow → CtlProg α}
    (hk : ∀ h w', w'.tenants = w.tenants → (∀ a ρ, w'.booked a ρ = w.booked a ρ + atHost id x.adds a ρ) →
      (k (some h)).wpt durable (fun l => Q (⟨.updHost id x, some h⟩ :: l)) w') :
    (@Prog.call Ctl α (.updHost id x) k).wpt durable Q w := by
  rintro r w' ⟨hw, hs⟩
  obtain ⟨h, rfl⟩ : ∃ h, r = some h := Option.isSome_iff_exists.1 hw
  obtain ⟨hu, rfl⟩ := hs
  have hid : h.instanceId = id := (HostUpdate.apply_id hu).trans (World.hostRow_id w id)
  refine hk h _ rfl ?_
  have := @World.booked_putHost w h x.adds fun ρ => by
    rw [hid]
    exact HostUpdate.count_apply hu ρ
  exact hid ▸ this

theorem raiseNext_step {id : HostId} {n : Int} {k : CondAns → CtlProg α}
    (hk : ∀ r w', w'.tenants = w.tenants → (∀ a ρ, w'.booked a ρ = w.booked a ρ) →
      (k r).wpt durable (fun l => Q (⟨.raiseNext id n, r⟩ :: l)) w') :
    (@Prog.call Ctl α (.raiseNext id n) k).wpt durable Q w := by
  rintro r w' ⟨-, hs⟩
  cases r with
  | failed => exact hs ▸ hk _ _ rfl fun _ _ => rfl
  | refused => exact hs.2 ▸ hk _ _ rfl fun _ _ => rfl
  | done =>
    obtain ⟨-, rfl⟩ := hs
    refine hk _ _ rfl fun a ρ => ?_
    have h := @World.booked_putHost w { w.hostRow id with nextVmNum := some n } 0 (fun ρ => by
      show _ = (w.hostRow (w.hostRow id).instanceId).count ρ + 0
      rw [w.hostRow_id, Int.add_zero]
      rfl) a ρ
    exact h.trans (by simp [atHost])

theorem incNext_step {id : HostId} {k : Option (Option Int) → CtlProg α}
    (hk : ∀ r w', w'.tenants = w.tenants → (∀ a ρ, w'.booked a ρ = w.booked a ρ) →
      (k r).wpt durable (fun l => Q (⟨.incNext id, r⟩ :: l)) w') :
    (@Prog.call Ctl α (.incNext id) k).wpt durable Q w := by
  rintro r w' ⟨-, hs⟩
  cases r with
  | none => exact hs ▸ hk _ _ rfl fun _ _ => rfl
  | some old =>
    obtain ⟨-, x, hu, rfl⟩ := hs
    have hid : x.instanceId = id := (HostUpdate.apply_id hu).trans (World.hostRow_id w id)
    have hrow := @World.booked_putHost w x 0 fun ρ => by
      rw [hid]
      exact HostUpdate.count_apply hu ρ
    exact hk _ _ rfl fun a ρ => (hrow a ρ).trans (by simp [atHost])

theorem sqsSend_step {job : FailoverJob} {k : Bool → CtlProg α}
    (hk : ∀ r w', SameTables w' w → (k r).wpt durable (fun l => Q (⟨.sqsSend job, r⟩ :: l)) w') :
    (@Prog.call Ctl α (.sqsSend job) k).wpt durable Q w := by
  rintro r w' ⟨-, hs⟩
  rcases hs.eq_or with rfl | rfl <;> exact hk _ _ ⟨rfl, rfl⟩

theorem updTenant_step {id : TenantId} {x : TenantUpdate} {k : Bool → CtlProg α} {t : TenantRow}
    (hg : w.tenants.get id = some t)
    (hk : (k true).wpt durable (fun l => Q (⟨.updTenant id x, true⟩ :: l)) (w.putTenant (x.apply t))) :
    (@Prog.call Ctl α (.updTenant id x) k).wpt durable Q w := by
  rintro r w' ⟨hw, t', ht', hs⟩
  obtain rfl : r = true := hw
  obtain rfl : t = t' := Option.some.inj (hg.symm.trans ht')
  obtain rfl : w' = w.putTenant (x.apply t) := hs
  exact hk

end Rules

/-! ## Rows and commands of a run -/

/-- What an answered call leaves of the row of a tenant. -/
def writeOf (tid : TenantId) : (c : Call) → c.Ans → Option TenantRow → Option TenantRow
  | .putTenant t, ok, row => if ok ∧ t.id = tid then some t else row
  | .updTenant id u, ok, row => if ok ∧ id = tid then row.map u.apply else row
  | _, _, row => row

/-- The row of a tenant after the writes of a run. -/
def written (tid : TenantId) (l : CallLog) (row : Option TenantRow) : Option TenantRow :=
  l.foldl (fun row x => writeOf tid x.1 x.2 row) row

/-- The commands a run sent to hosts. -/
def vmCommands (l : CallLog) : List (HostId × HostCmd) :=
  l.filterMap fun x =>
    match x.1 with
    | .ssmSend (some h) cmd => some (h, cmd)
    | .ssmRun h cmd => some (h, cmd)
    | _ => none

section Logs

variable {tid : TenantId} {l l' : CallLog} {row : Option TenantRow}

theorem vmCommands_append : vmCommands (l ++ l') = vmCommands l ++ vmCommands l' := List.filterMap_append

theorem written_append : written tid (l ++ l') row = written tid l' (written tid l row) := List.foldl_append

/-- Calls that write no tenant and send nothing to hosts. -/
def Call.mute : Call → Prop
  | .putTenant _ | .updTenant _ _ | .ssmSend _ _ | .ssmRun _ _ => False
  | _ => True

/-- The call marks no host idle. -/
def Call.awake : Call → Prop
  | .updHost _ (.status s) => s ≠ .idle
  | .putHost h => h.status ≠ some .idle
  | _ => True

theorem Call.quiet.awake {c : Call} (h : c.quiet) : c.awake := by
  cases c <;> first | trivial | cases h.2.1

theorem Call.plain.mute {c : Call} (h : c.plain) : c.mute := by
  cases c <;> trivial

theorem Call.routes.mute {c : Call} (h : c.routes) : c.mute := h.plain.mute

theorem mute_log (h : ∀ x ∈ l, x.1.mute) : vmCommands l = [] ∧ ∀ tid row, written tid l row = row := by
  induction l with
  | nil => exact ⟨rfl, fun _ _ => rfl⟩
  | cons x l ih =>
    obtain ⟨c, r⟩ := x
    obtain ⟨hx, hl⟩ := List.forall_mem_cons.1 h
    obtain ⟨hcmds, hrow⟩ := ih hl
    have hone : vmCommands [⟨c, r⟩] = [] ∧ ∀ tid row, writeOf tid c r row = row := by
      cases c <;> first | exact ⟨rfl, fun _ _ => rfl⟩ | exact hx.elim
    refine ⟨?_, fun tid row => ?_⟩
    · have happ : vmCommands (⟨c, r⟩ :: l) = vmCommands [⟨c, r⟩] ++ vmCommands l := @vmCommands_append [⟨c, r⟩] l
      rw [happ, hone.1, hcmds]
      rfl
    · show written tid l (writeOf tid c r row) = row
      rw [hone.2, hrow]

end Logs

end OpenClaw
