import OpenClaw.Fleet.Ownership
import OpenClaw.Fleet.Scripts

/-!
# Taps and addresses are unique on a host

- `fleet_inv`: in every run whose steps meet `keepsSeats`, the rows, the VMs and the scripts of a tenant on a host all
  have the number that the tenant last got there.
- `network_unique`: so no two VMs of a host share a tap or an address, `restore` deletes no tap in use, and the number
  with which a tenant is stopped is the tap of its own VM alone.
- `restore_takes_tap`: without the condition a live migration takes the tap of another tenant's VM.
-/

namespace OpenClaw

open Keyed Atomic Exclusive

variable {cfg : Config} {env : AddressEnv}

/-! ## The last number -/

section Last

variable {xs ys : List Seat} {x : Seat} {h : HostId} {tid : TenantId} {n : Int}

/-- The number that the tenant last got on the host. -/
def lastNum (xs : List Seat) (h : HostId) (tid : TenantId) : Option Int :=
  (xs.reverse.find? fun x => x.host = h ∧ x.tenant = tid).map Seat.num

theorem lastNum_mem (hl : lastNum xs h tid = some n) : ⟨h, tid, n⟩ ∈ xs := by
  obtain ⟨x, hx, rfl⟩ := Option.map_eq_some_iff.1 hl
  have hp : x.host = h ∧ x.tenant = tid :=
    of_decide_eq_true (List.find?_some (p := fun x : Seat => x.host = h ∧ x.tenant = tid) hx)
  obtain ⟨rfl, rfl⟩ := hp
  exact List.mem_reverse.1 (List.mem_of_find?_eq_some hx)

theorem lastNum_of_all (hx : ⟨h, tid, n⟩ ∈ xs) (hall : ∀ x ∈ xs, x.host = h → x.tenant = tid → x.num = n) :
    lastNum xs h tid = some n := by
  cases hl : lastNum xs h tid with
  | none =>
    rw [lastNum, Option.map_eq_none_iff, List.find?_eq_none] at hl
    exact absurd (decide_eq_true ⟨rfl, rfl⟩) (hl _ (List.mem_reverse.2 hx))
  | some m => exact congrArg some (hall _ (lastNum_mem hl) rfl rfl)

/-- After one seat that was got, however often. -/
theorem lastNum_append (hone : ∀ x ∈ ys, ∀ x' ∈ ys, x = x') (hx : x ∈ ys) :
    lastNum (xs ++ ys) h tid = if x.host = h ∧ x.tenant = tid then some x.num else lastNum xs h tid := by
  rw [lastNum, List.reverse_append, List.find?_append]
  split
  · rename_i hp
    cases hf : ys.reverse.find? fun x => x.host = h ∧ x.tenant = tid with
    | none => exact absurd (decide_eq_true hp) (List.find?_eq_none.1 hf x (List.mem_reverse.2 hx))
    | some y =>
      obtain rfl := hone x hx y (List.mem_reverse.1 (List.mem_of_find?_eq_some hf))
      rfl
  · rename_i hp
    have hf : ys.reverse.find? (fun x => x.host = h ∧ x.tenant = tid) = none := by
      refine List.find?_eq_none.2 fun y hy => ?_
      rw [hone y (List.mem_reverse.1 hy) x hx, decide_eq_true_eq]
      exact hp
    rw [hf]
    rfl

end Last

/-! ## The condition -/

/-- A row, a VM or a script of the tenant on the host has the number. -/
def Estate.uses (f : Estate) (h : HostId) (tid : TenantId) (n : Int) : Prop :=
  (∃ t ∈ f.ctl.tenants.rows, ⟨h, tid, n⟩ ∈ t.seats) ∨ (∃ v ∈ (f.net.host h).vms, v.tenant = tid ∧ v.tap = n) ∨
    ∃ x ∈ f.net.todo, x.1 = h ∧ (tid, n) ∈ x.2.filterMap NetAct.number

/-- A live restore that is given `vm_num` finds that number in `vm.json` and in the snapshot. -/
def FleetNet.restoresOwn (f : FleetNet) : HostEvent → Prop
  | .exec k => ∀ h a rest, f.todo[k]? = some (h, a :: rest) →
    match a with
    | .delSrcTap tid n => ∀ j, (f.host h).json tid = some j → j.vmNum = n
    | .load _ n uri => ∀ v, f.snaps uri = some v → v.tap = n
    | _ => True
  | _ => True

/-- The agent starts a tenant with the number that it last got on the host. -/
def FleetNet.recoversLast (f : FleetNet) (xs : List Seat) : HostEvent → Prop
  | .recover h tid _ => ∀ j, (f.host h).json tid = some j → lastNum xs h tid = some j.vmNum
  | _ => True

/-- The condition on the steps. Numbers that are given out without the counter are nobody else's (`keepsNumbers`); a
tenant that had a number on the host gets another one only when nothing of it is left there; launches and restores of one
tenant on a host do not overlap; and live restores and the agent find the tenant's number in the files. -/
def keepsSeats {ι : Type} [DecidableEq ι] (f₀ : Estate) (tr : List (Ev Ctl FleetJob ι)) (f : Estate) :
    Ev Ctl FleetJob ι → Prop
  | .call i c r => keepsNumbers f₀.ctl tr f.ctl i c r ∧
    ∀ x ∈ c.gives r, ∀ m, lastNum (seated f₀.ctl tr) x.host x.tenant = some m → m ≠ x.num →
      ∀ n, ¬ f.uses x.host x.tenant n
  | .start _ (.host e) => f.net.startsAlone e ∧ f.net.restoresOwn e ∧ f.net.recoversLast (seated f₀.ctl tr) e
  | .start _ _ => True

/-! ## The invariant -/

/-- Everything of a tenant on a host has the number that the tenant last got there. -/
structure FleetInv (env : AddressEnv) (xs : List Seat) (f : Estate) : Prop where
  scripts : ScriptsInv f.net
  uses : ∀ h tid n, f.uses h tid n → lastNum xs h tid = some n
  addr : ∀ h, ∀ v ∈ (f.net.host h).vms, env.guestIp v.tap = some v.ip
  snapAddr : ∀ uri v, f.net.snaps uri = some v → env.guestIp v.tap = some v.ip

/-- A fleet in which nothing is in flight: every VM runs where its tenant's row says, with the number in the row. -/
structure FleetAtRest (env : AddressEnv) (f : Estate) : Prop where
  numbers : NumbersAtRest f.ctl
  scripts : f.net.todo = []
  vms : ∀ h, ∀ v ∈ (f.net.host h).vms, ∃ t ∈ f.ctl.tenants.rows, ⟨h, v.tenant, v.tap⟩ ∈ t.seats
  single : ∀ h, (f.net.host h).vms.Pairwise fun v v' => v.tenant ≠ v'.tenant
  addr : ∀ h, ∀ v ∈ (f.net.host h).vms, env.guestIp v.tap = some v.ip
  snapAddr : ∀ uri v, f.net.snaps uri = some v → env.guestIp v.tap = some v.ip

theorem TenantRow.mem_seats {t : TenantRow} {x : Seat} :
    x ∈ t.seats ↔ t.hostId = some x.host ∧ t.id = x.tenant ∧ t.vmNum.getD 1 = x.num := by
  obtain ⟨h, tid, n⟩ := x
  simp [TenantRow.seats, and_comm]

section Invariant

variable {f f' : Estate} {xs : List Seat} {c : Call} {r : c.Ans} {g : NumState} {e : HostEvent}

theorem FleetAtRest.inv {ι : Type} [DecidableEq ι] (hf : FleetAtRest env f) :
    FleetInv env (seated f.ctl ([] : List (Ev Ctl FleetJob ι))) f := by
  have hmem : ∀ {x}, x ∈ seated f.ctl ([] : List (Ev Ctl FleetJob ι)) ↔ ∃ t ∈ f.ctl.tenants.rows, x ∈ t.seats := by
    intro x
    simp [seated]
  have hlast : ∀ {h tid n}, (∃ t ∈ f.ctl.tenants.rows, ⟨h, tid, n⟩ ∈ t.seats) →
      lastNum (seated f.ctl ([] : List (Ev Ctl FleetJob ι))) h tid = some n := by
    rintro h tid n ⟨t, ht, hx⟩
    refine lastNum_of_all (hmem.2 ⟨t, ht, hx⟩) fun y hy hyh hyt => ?_
    obtain ⟨t', ht', hy⟩ := hmem.1 hy
    obtain ⟨-, hid, hn⟩ := TenantRow.mem_seats.1 hx
    obtain ⟨-, hid', hn'⟩ := TenantRow.mem_seats.1 hy
    have hsame : t' = t := Table.eq_of_key ht' ht (hid'.trans (hyt.trans hid.symm))
    rw [← hn', hsame, hn]
  refine ⟨⟨?_, ?_, ?_, hf.single⟩, fun h tid n hu => ?_, hf.addr, hf.snapAddr⟩
  · simp [hf.scripts]
  · simp [hf.scripts]
  · simp [hf.scripts]
  · rcases hu with hu | ⟨v, hv, rfl, rfl⟩ | ⟨x, hx, -⟩
    · exact hlast hu
    · exact hlast (hf.vms h v hv)
    · rw [hf.scripts] at hx
      cases hx

/-! ### Calls -/

theorem Call.gives_of_sends {h : HostId} {cmd : HostCmd} (hs : c.sends = some (h, cmd)) : c.gives r = cmd.seats h := by
  cases c <;> try cases hs
  case ssmRun => rfl
  case ssmSend host cmd' =>
    cases host with
    | none => cases hs
    | some host =>
      cases hs
      rfl

/-- The commands that a step adds. -/
theorem step_sends {w w' : World} (hs : World.step c r w w') : w'.cmds = w.cmds ∨
    ∃ x : SsmCommand, w'.cmds = w.cmds ++ [x] ∧ c.sends = some (x.host, x.cmd) := by
  cases c
  case ssmSend h cmd =>
    cases r with
    | none => exact .inl (congrArg World.cmds hs)
    | some id =>
      obtain ⟨-, h', rfl, rfl⟩ := hs
      exact .inr ⟨_, rfl, rfl⟩
  case ssmRun h cmd =>
    rcases hs with ⟨-, rfl⟩ | ⟨id, -, rfl⟩
    · exact .inl rfl
    · exact .inr ⟨_, rfl, rfl⟩
  case updTenant =>
    obtain ⟨t, -, hs⟩ := hs
    rcases hs.eq_or with rfl | rfl <;> exact .inl rfl
  case condTenant =>
    obtain ⟨t, -, hs⟩ := hs
    cases r with
    | done =>
      obtain ⟨-, rfl⟩ := hs
      exact .inl rfl
    | refused => exact .inl (congrArg World.cmds hs.2)
    | failed => exact .inl (congrArg World.cmds hs)
  case putTenant | putHost | deleteHost | sqsSend | registerTargets | deleteTg | modifyRule | deleteRule =>
    rcases sent.eq_or hs with rfl | rfl <;> exact .inl rfl
  case updHost | createTg =>
    cases r with
    | none => exact .inl (congrArg World.cmds hs)
    | some _ =>
      obtain ⟨-, rfl⟩ := hs
      exact .inl rfl
  case incNext =>
    cases r with
    | none => exact .inl (congrArg World.cmds hs)
    | some _ =>
      obtain ⟨-, h, -, rfl⟩ := hs
      exact .inl rfl
  case reserveHost =>
    cases r with
    | next =>
      obtain ⟨_, _, -, -, -, -, rfl⟩ := hs
      exact .inl rfl
    | refused => exact .inl (congrArg World.cmds hs.2)
    | failed => exact .inl (congrArg World.cmds hs)
  case raiseNext =>
    cases r with
    | done =>
      obtain ⟨-, rfl⟩ := hs
      exact .inl rfl
    | refused => exact .inl (congrArg World.cmds hs.2)
    | failed => exact .inl (congrArg World.cmds hs)
  case createRule =>
    cases r with
    | created =>
      obtain ⟨-, _, -, rfl⟩ := hs
      exact .inl rfl
    | priorityInUse => exact .inl (congrArg World.cmds hs.2)
    | error => exact .inl (congrArg World.cmds hs)
  case now =>
    obtain ⟨-, rfl⟩ := hs
    exact .inl rfl
  all_goals first | exact .inl (congrArg World.cmds hs.2) | exact .inl (congrArg World.cmds hs)

/-- What a call adds to what a tenant uses is among the seats that it gives. -/
theorem uses_call (hallow : fleetNumbers.allow g c) (hs : fleet.step c r f f') {h : HostId} {tid : TenantId} {n : Int}
    (hu : f'.uses h tid n) : f.uses h tid n ∨ ⟨h, tid, n⟩ ∈ c.gives r := by
  obtain ⟨hs, hnet⟩ := hs
  rcases hu with ⟨t, ht, hx⟩ | ⟨v, hv, hvt⟩ | ⟨x, hx, rfl, hn⟩
  · rcases step_wrote hs ht with ht | ht
    · exact .inl (.inl ⟨t, ht, hx⟩)
    · rcases wrote_seats hallow ht with ⟨t₀, ht₀, -, he⟩ | hgives
      · exact .inl (.inl ⟨t₀, ht₀, he ▸ hx⟩)
      · exact .inr (hgives _ hx)
  · rw [hnet] at hv
    exact .inl (.inr (.inl ⟨v, hv, hvt⟩))
  · rw [hnet] at hx
    rcases List.mem_append.1 hx with hx | hx
    · exact .inl (.inr (.inr ⟨x, hx, rfl, hn⟩))
    · rcases step_sends hs with hcmds | ⟨s, hcmds, hsends⟩
      · rw [hcmds, List.drop_length] at hx
        cases hx
      · rw [hcmds, List.drop_left] at hx
        obtain rfl := List.mem_singleton.1 hx
        rw [Call.gives_of_sends hsends]
        exact .inr (List.mem_map.2 ⟨(tid, n), hn, rfl⟩)

/-- **A call keeps the invariant.** -/
theorem FleetInv.call (hI : FleetInv env xs f) (hallow : fleetNumbers.allow g c)
    (hone : ∀ x ∈ c.seats, ∀ x' ∈ c.seats, x = x')
    (hleft : ∀ x ∈ c.gives r, ∀ m, lastNum xs x.host x.tenant = some m → m ≠ x.num → ∀ n, ¬ f.uses x.host x.tenant n)
    (hs : fleet.step c r f f') : FleetInv env (xs ++ c.gives r) f' := by
  have hone' : ∀ x ∈ c.gives r, ∀ x' ∈ c.gives r, x = x' := fun x hx x' hx' =>
    hone x (Call.gives_seats hx) x' (Call.gives_seats hx')
  have hhost : f'.net.host = f.net.host := by rw [hs.2]; rfl
  have hsnaps : f'.net.snaps = f.net.snaps := by rw [hs.2]; rfl
  refine ⟨by rw [hs.2]; exact hI.scripts.accept _, fun h tid n hu => ?_, by rw [hhost]; exact hI.addr,
    by rw [hsnaps]; exact hI.snapAddr⟩
  rcases uses_call hallow hs hu with hold | hgive
  · have hlast := hI.uses h tid n hold
    rcases hg : c.gives r with _ | ⟨x, ys⟩
    · rw [List.append_nil]
      exact hlast
    · have hx : x ∈ c.gives r := hg ▸ List.mem_cons_self
      rw [← hg, lastNum_append hone' hx]
      split
      · rename_i hp
        obtain ⟨rfl, rfl⟩ := hp
        by_contra hne
        exact hleft x hx n hlast (fun e => hne (congrArg some e.symm)) n hold
      · exact hlast
  · rw [lastNum_append hone' hgive, if_pos ⟨rfl, rfl⟩]

/-! ### Events -/

/-- A VM is started with the number of its script. -/
theorem starts_number {f : FleetNet} {h : HostId} {a : NetAct} {rest : List NetAct} {k : Nat} {v : NetVm}
    (hk : f.todo[k]? = some (h, a :: rest)) (hown : f.restoresOwn (.exec k)) (hst : a.starts env f = some v) :
    a.number = some (v.tenant, v.tap) ∧ (env.guestIp v.tap = some v.ip ∨ ∃ uri x, f.snaps uri = some x ∧
      x.tap = v.tap ∧ x.ip = v.ip) := by
  have hown := hown h a rest hk
  cases a <;> try cases hst
  case boot tid n =>
    obtain ⟨ip, hip, rfl⟩ := Option.map_eq_some_iff.1 hst
    exact ⟨rfl, .inl hip⟩
  case load tid n uri =>
    obtain ⟨x, hx, rfl⟩ := Option.map_eq_some_iff.1 hst
    exact ⟨by rw [hown x hx]; rfl, .inr ⟨uri, x, hx, rfl, rfl⟩⟩

/-- **An event keeps the invariant.** -/
theorem FleetInv.event (hI : FleetInv env xs f) (hctl : f'.ctl = f.ctl) (he : f.net.event env e = some f'.net)
    (halone : f.net.startsAlone e) (hown : f.net.restoresOwn e) (hlast : f.net.recoversLast xs e) :
    FleetInv env xs f' := by
  have hscripts := hI.scripts.event halone he
  have hrows : ∀ {h tid n}, (∃ t ∈ f'.ctl.tenants.rows, ⟨h, tid, n⟩ ∈ t.seats) → f.uses h tid n :=
    fun hu => .inl (hctl ▸ hu)
  rcases event_cases he with ⟨k, h, a, rest, g, rfl, hk, hexec, hnet⟩ |
    ⟨h, tid, force, j, acts, rfl, hj, hnet, -, hacts⟩ | ⟨i, hvms, hsnaps, htodo⟩
  · have hmem := List.mem_of_getElem? hk
    have hnew : ∀ {h' v}, v ∈ (f'.net.host h').vms → v ∈ (f.net.host h').vms ∨ h' = h ∧
        a.number = some (v.tenant, v.tap) ∧ env.guestIp v.tap = some v.ip := by
      intro h' v hv
      rw [hnet] at hv
      rcases exec_new_vm hexec hv with hv | ⟨rfl, hst⟩
      · exact .inl hv
      · obtain ⟨hnum, haddr⟩ := starts_number hk hown hst
        refine .inr ⟨rfl, hnum, ?_⟩
        rcases haddr with haddr | ⟨uri, x, hx, htap, hip⟩
        · exact haddr
        · rw [← htap, ← hip]
          exact hI.snapAddr uri x hx
    have hnum : ∀ {t n}, a.number = some (t, n) → f.uses h t n := fun ha =>
      .inr (.inr ⟨_, hmem, rfl, List.mem_filterMap.2 ⟨a, List.mem_cons_self, ha⟩⟩)
    refine ⟨hscripts, fun h' tid n hu => hI.uses h' tid n ?_, fun h' v hv => ?_, fun uri v hv => ?_⟩
    · rcases hu with hu | ⟨v, hv, rfl, rfl⟩ | ⟨x, hx, rfl, hn⟩
      · exact hrows hu
      · rcases hnew hv with hv | ⟨rfl, ha, -⟩
        · exact .inr (.inl ⟨v, hv, rfl, rfl⟩)
        · exact hnum ha
      · rw [hnet] at hx
        rcases List.mem_or_eq_of_mem_set hx with hx | rfl
        · rw [(exec_vms hexec).1] at hx
          exact .inr (.inr ⟨x, hx, rfl, hn⟩)
        · exact .inr (.inr ⟨_, hmem, rfl, ((List.sublist_cons_self a rest).filterMap _).subset hn⟩)
    · rcases hnew hv with hv | ⟨-, -, haddr⟩
      · exact hI.addr h' v hv
      · exact haddr
    · rw [hnet] at hv
      rcases exec_snaps hexec hv with hv | hv
      · exact hI.snapAddr uri v hv
      · exact hI.addr h v hv
  · have hhost : f'.net.host = f.net.host := by rw [hnet]; rfl
    have hsnaps : f'.net.snaps = f.net.snaps := by rw [hnet]; rfl
    refine ⟨hscripts, fun h' t n hu => ?_, by rw [hhost]; exact hI.addr, by rw [hsnaps]; exact hI.snapAddr⟩
    rcases hu with hu | ⟨v, hv, hvt⟩ | ⟨x, hx, rfl, hn⟩
    · exact hI.uses h' t n (hrows hu)
    · exact hI.uses h' t n (.inr (.inl ⟨v, hhost ▸ hv, hvt⟩))
    · rw [hnet] at hx
      rcases List.mem_append.1 hx with hx | hx
      · exact hI.uses x.1 t n (.inr (.inr ⟨x, hx, rfl, hn⟩))
      · obtain rfl := List.mem_singleton.1 hx
        obtain ⟨rfl, rfl⟩ := Prod.mk.inj (hacts _ hn)
        exact hlast j hj
  · refine ⟨hscripts, fun h tid n hu => hI.uses h tid n ?_, fun h v hv => hI.addr h v ((hvms h).subset hv),
      fun uri v hv => hI.snapAddr uri v (hsnaps ▸ hv)⟩
    rcases hu with hu | ⟨v, hv, hvt⟩ | ⟨x, hx, hn⟩
    · exact hrows hu
    · exact .inr (.inl ⟨v, (hvms h).subset hv, hvt⟩)
    · refine .inr (.inr ⟨x, ?_, hn⟩)
      rcases htodo with ht | ht
      · exact ht ▸ hx
      · exact List.mem_of_mem_eraseIdx (ht ▸ hx)

end Invariant

/-! ## Runs -/

section Runs

variable {ι : Type} [DecidableEq ι] {f₀ : Estate} {tr : List (Ev Ctl FleetJob ι)} {c : Conf Ctl Estate FleetJob ι Unit}

/-- What every program keeps to. -/
abbrev fleetConduct (cfg : Config) : Protocol Ctl FleetJob (NumState × Hand) := fleetProtocol.under (Call.tidy cfg)

theorem fleetConduct_locs {tr : List (Ev Ctl FleetJob ι)} {i : ι} {x : NumState × Hand}
    (hx : (fleetConduct cfg).locs tr i = some x) :
    fleetNumbers.locs tr i = some x.1 ∧ knowing.locs tr i = some x.2 := by
  have hx : fleetProtocol.locs tr i = some x := hx
  rw [Protocol.locs_prod] at hx
  obtain ⟨g, hg, hx⟩ := Option.bind_eq_some_iff.1 hx
  obtain ⟨y, hy, rfl⟩ := Option.map_eq_some_iff.1 hx
  exact ⟨hg, hy⟩

/-- A call uses one seat. -/
theorem Call.tidy.one {c : Call} (hc : c.tidy cfg) : ∀ x ∈ c.seats, ∀ x' ∈ c.seats, x = x' := by
  have hcmd : ∀ {h : HostId} {cmd : HostCmd}, cmd.forOne → ∀ x ∈ cmd.seats h, ∀ x' ∈ cmd.seats h, x = x' := by
    rintro h cmd ⟨tid, n, hfor⟩ x hx x' hx'
    obtain ⟨y, hy, rfl⟩ := List.mem_map.1 hx
    obtain ⟨y', hy', rfl⟩ := List.mem_map.1 hx'
    rw [hfor y hy, hfor y' hy']
  have hopt : ∀ {o : Option Seat}, ∀ x ∈ o.toList, ∀ x' ∈ o.toList, x = x' := fun x hx x' hx' =>
    Option.some.inj ((Option.mem_toList.1 hx).symm.trans (Option.mem_toList.1 hx'))
  cases c
  case putTenant => exact hopt
  case updTenant => exact hopt
  case ssmRun => exact hcmd hc
  case ssmSend h cmd =>
    cases h with
    | none => exact nofun
    | some h => exact hcmd hc
  all_goals exact nofun

/-- **The invariants of the numbers and of the fleet**, in every run. -/
theorem fleet_inv {Gd : List (Ev Ctl FleetJob ι) → Estate → Ev Ctl FleetJob ι → Prop}
    (hGd : ∀ tr f e, Gd tr f e → keepsSeats f₀ tr f e) (hf : FleetAtRest env f₀)
    (hr : Reach fleet (fleetJobs cfg env) Gd (Conf.idle f₀) tr c) :
    Ledger f₀.ctl tr c.world.ctl ∧ FleetInv env (seated f₀.ctl tr) c.world := by
  have hB : ∀ j, (fleetBody cfg j).obeys (fleetConduct cfg) (fun _ _ => True ∧ True) ((fleetConduct cfg).init j) :=
    fun j => Prog.obeys_under (fleetBody_tidy cfg j) (fleetBody_obeys j)
  have hstart : ∀ (tr : List (Ev Ctl FleetJob ι)) (f : Estate) (i : ι) (j : FleetJob) (f' : Estate),
      (Ledger f₀.ctl tr f.ctl ∧ FleetInv env (seated f₀.ctl tr) f) → (fleetConduct cfg).locs tr i = none →
      Gd tr f (.start i j) → (fleetJobs cfg env).start j f f' →
      Ledger f₀.ctl (tr ++ [.start i j]) f'.ctl ∧ FleetInv env (seated f₀.ctl (tr ++ [.start i j])) f' := by
    rintro tr f i j f' ⟨hL, hI⟩ - hg hb
    have hg := hGd _ _ _ hg
    rw [seated_snoc, List.append_nil]
    cases j with
    | host e =>
      obtain ⟨hctl, he⟩ := hb
      rw [hctl]
      exact ⟨hL.start nofun, hI.event hctl he hg.1 hg.2.1 hg.2.2⟩
    | worker job now =>
      obtain ⟨rfl, hq⟩ := hb
      refine ⟨hL.start fun job' hj => ?_, hI⟩
      obtain rfl := Option.some.inj hj
      exact hq
    | _ =>
      obtain rfl : f' = f := hb
      exact ⟨hL.start nofun, hI⟩
  have hcall : ∀ (tr : List (Ev Ctl FleetJob ι)) (f : Estate) (i : ι) (x : NumState × Hand) (c : Call) (r : c.Ans)
      (f' : Estate), (Ledger f₀.ctl tr f.ctl ∧ FleetInv env (seated f₀.ctl tr) f) →
      (fleetConduct cfg).locs tr i = some x → (fleetConduct cfg).allow x c → Gd tr f (.call i c r) →
      fleet.step c r f f' → (fleetConduct cfg).sane x c r ∧
      (Ledger f₀.ctl (tr ++ [.call i c r]) f'.ctl ∧ FleetInv env (seated f₀.ctl (tr ++ [.call i c r])) f') := by
    rintro tr f i x c r f' ⟨hL, hI⟩ hx ⟨htidy, hnum, hknow⟩ hg hs
    obtain ⟨hkeeps, hleft⟩ := hGd _ _ _ hg
    obtain ⟨hl, hy⟩ := fleetConduct_locs hx
    have hsane : fleetNumbers.sane x.1 c r := step_sane hs.1
    refine ⟨⟨hsane, hsane⟩,
      hL.call hl hy hnum hknow htidy.one hkeeps hs.1, ?_⟩
    rw [seated_snoc]
    exact hI.call hnum htidy.one hleft hs
  exact (Reach.protocol hB ⟨hf.numbers.ledger, hf.inv⟩ hstart hcall hr).1

/-- What uniqueness of taps and addresses means for a fleet; the record of zone failovers is no host. -/
def NetworkUnique (f : Estate) : Prop :=
  ∀ h, h ≠ azStateId → (f.net.host h).vms.Pairwise fun v v' => v.tap ≠ v'.tap ∧ v.ip ≠ v'.ip

variable {w : World} {f : Estate}

/-- A number on a host is used for one tenant. -/
theorem FleetInv.owner (hL : Ledger f₀.ctl tr w) (hI : FleetInv env (seated f₀.ctl tr) f) {h : HostId}
    (hh : h ≠ azStateId) {tid tid' : TenantId} {n : Int} (hu : f.uses h tid n) (hu' : f.uses h tid' n) :
    tid = tid' := by
  have howns : ∀ {t}, f.uses h t n → Owns f₀.ctl tr w (.tenant t) (h, n) := fun hu =>
    ⟨hh, .inl (lastNum_mem (hI.uses h _ n hu))⟩
  exact Owner.tenant.inj (hL.owned.unique _ _ _ (howns hu) (howns hu'))

/-- The tenant's number on a host is the tap of its own VM and of no other. -/
theorem FleetInv.tap_iff (hL : Ledger f₀.ctl tr w) (hI : FleetInv env (seated f₀.ctl tr) f) {h : HostId}
    (hh : h ≠ azStateId) {tid : TenantId} {n : Int} (hu : f.uses h tid n) {v : NetVm} (hv : v ∈ (f.net.host h).vms) :
    v.tap = n ↔ v.tenant = tid := by
  have hu' : f.uses h v.tenant v.tap := .inr (.inl ⟨v, hv, rfl, rfl⟩)
  constructor
  · intro he
    exact hI.owner hL hh (he ▸ hu') hu
  · intro he
    rw [he] at hu'
    exact Option.some.inj ((hI.uses h tid _ hu').symm.trans (hI.uses h tid n hu))

theorem FleetInv.networkUnique (hL : Ledger f₀.ctl tr w) (hI : FleetInv env (seated f₀.ctl tr) f) :
    NetworkUnique f := by
  intro h hh
  refine (hI.scripts.single h).imp_of_mem fun {v v'} hv hv' hne => ?_
  have htap : v.tap ≠ v'.tap := fun he => hne ((hI.tap_iff hL hh (.inr (.inl ⟨v', hv', rfl, rfl⟩)) hv).1 he)
  refine ⟨htap, fun he => htap ?_⟩
  have hip := hI.addr h v hv
  have hip' := hI.addr h v' hv'
  rw [← he] at hip'
  exact guestIp_inj hip hip'

/-- The tap that a `restore` deletes is no VM's. -/
theorem FleetInv.restore_deletes (hL : Ledger f₀.ctl tr w) (hI : FleetInv env (seated f₀.ctl tr) f) {e : HostEvent}
    (hown : f.net.restoresOwn e) {h : HostId} (hh : h ≠ azStateId) {n : Int} (he : f.net.restoreDeletes e = some (h, n))
    {v : NetVm} (hv : v ∈ (f.net.host h).vms) : v.tap ≠ n := by
  cases e with
  | exec k =>
    simp only [FleetNet.restoreDeletes] at he
    split at he
    · rename_i h' tid m rest hk
      obtain ⟨j, hj, hjn⟩ := Option.map_eq_some_iff.1 he
      obtain ⟨rfl, rfl⟩ := Prod.mk.inj hjn
      have hm : j.vmNum = m := hown h' _ _ hk j hj
      have hmem := List.mem_of_getElem? hk
      have hu : f.uses h' tid j.vmNum :=
        .inr (.inr ⟨_, hmem, rfl, List.mem_filterMap.2 ⟨_, List.mem_cons_self, by rw [hm]; rfl⟩⟩)
      intro htap
      exact hI.scripts.idle _ hmem tid rfl v hv ((hI.tap_iff hL hh hu hv).1 htap)
    · cases he
  | _ => cases he

/-- **Taps and addresses.** In a run whose steps meet `keepsSeats`, from a fleet at rest: the VMs of a host have
different taps and addresses, the number with which a tenant is, or is to be, stopped on a host is the tap of its VM and
of no other, and the next such step deletes no tap of a running VM in a `restore`. -/
theorem network_unique (hf : FleetAtRest env f₀)
    (hr : Reach fleet (fleetJobs cfg env) (keepsSeats f₀) (Conf.idle f₀) tr c) :
    NetworkUnique c.world ∧
    (∀ h, h ≠ azStateId → ∀ v ∈ (c.world.net.host h).vms,
      (∀ t ∈ c.world.ctl.tenants.rows, t.hostId = some h → (v.tap = t.vmNum.getD 1 ↔ v.tenant = t.id)) ∧
      ∀ acts, (h, acts) ∈ c.world.net.todo → ∀ tid n, .linkDel tid n ∈ acts → (v.tap = n ↔ v.tenant = tid)) ∧
    ∀ i e h n, h ≠ azStateId → keepsSeats f₀ tr c.world (.start i (.host e)) →
      c.world.net.restoreDeletes e = some (h, n) → ∀ v ∈ (c.world.net.host h).vms, v.tap ≠ n := by
  obtain ⟨hL, hI⟩ := fleet_inv (fun _ _ _ h => h) hf hr
  refine ⟨hI.networkUnique hL, fun h hh v hv => ⟨fun t ht hrow => ?_, fun acts hacts tid n hdel => ?_⟩, ?_⟩
  · exact hI.tap_iff hL hh (.inl ⟨t, ht, TenantRow.mem_seats.2 ⟨hrow, rfl, rfl⟩⟩) hv
  · exact hI.tap_iff hL hh (.inr (.inr ⟨_, hacts, rfl, List.mem_filterMap.2 ⟨_, hdel, rfl⟩⟩)) hv
  · intro i e h n hh hg he v hv
    exact hI.restore_deletes hL hg.2.1 hh he hv

end Runs

/-! ## Playing a run -/

/-- The control plane, computed. -/
def fleetOracle : Oracle fleet Hint where
  exec c h f := (f.ctl.exec h c).map fun x => (x.1, ⟨x.2, f.net.accept (x.2.cmds.drop f.ctl.cmds.length)⟩)
  sound := by
    intro c h f f' r he
    obtain ⟨x, hx, he⟩ := Option.map_eq_some_iff.1 he
    obtain ⟨rfl, rfl⟩ := Prod.mk.inj he
    exact ⟨exec_sound hx, rfl⟩

def fleetStart (env : AddressEnv) (j : FleetJob) (f : Estate) : Option Estate :=
  match j with
  | .host e => (f.net.event env e).map fun g => ⟨f.ctl, g⟩
  | .worker job _ => if job ∈ f.ctl.queue then some f else none
  | _ => some f

theorem fleetStart_sound : ∀ (j : FleetJob) (f f' : Estate), fleetStart env j f = some f' →
    (fleetJobs cfg env).start j f f' := by
  intro j f f' h
  cases j with
  | host e =>
    obtain ⟨g, hg, rfl⟩ := Option.map_eq_some_iff.1 h
    exact ⟨rfl, hg⟩
  | worker job now =>
    obtain ⟨hq, hf⟩ := Option.ite_none_right_eq_some.1 h
    exact ⟨(Option.some.inj hf).symm, hq⟩
  | _ => exact (Option.some.inj h).symm

/-- A call that takes a number from a counter, or writes one. -/
def Call.reserves : Call → Bool
  | .reserveHost _ _ _ _ | .incNext _ | .updHost _ (.book _ _ _) => true
  | _ => false

/-- The numbers of a call, computed for a run without reservations. -/
def numbersStep (f₀ : World) (tr : List (Ev Ctl FleetJob ℕ)) (w : World) (c : Call) (r : c.Ans) : Bool :=
  (tr.all fun
    | .call _ c _ => !c.reserves
    | _ => true) &&
  ((c.gives r).all fun x => (seated f₀ tr ++ w.queue.map FailoverJob.seat).all fun y =>
    y.host ≠ x.host || y.num ≠ x.num || y.tenant = x.tenant) &&
  !c.reserves

/-- Without a reservation no process holds a number. -/
theorem held_none {tr : List (Ev Ctl FleetJob ℕ)} (ht : ∀ i c r, .call i c r ∈ tr → c.reserves = false) :
    ∀ {i g}, fleetNumbers.locs tr i = some g → g.held = none := by
  induction tr using List.reverseRecOn with
  | nil => exact fun h => by cases h
  | append_singleton tr e ih =>
    intro i g hg
    have ih := fun {i g} => @ih (fun i c r h => ht i c r (List.mem_append_left _ h)) i g
    rw [Protocol.locs_snoc] at hg
    cases e with
    | start k j =>
      by_cases hk : i = k
      · subst hk
        rw [Protocol.stepLoc, Function.update_self] at hg
        obtain rfl := Option.some.inj hg
        rfl
      · rw [Protocol.stepLoc, Function.update_of_ne hk] at hg
        exact ih hg
    | call k c r =>
      have hc := ht k c r (List.mem_append_right _ (List.mem_singleton.2 rfl))
      by_cases hk : i = k
      · subst hk
        rw [Protocol.stepLoc, Function.update_self] at hg
        obtain ⟨g₀, hg₀, rfl⟩ := Option.map_eq_some_iff.1 hg
        have hheld := ih hg₀
        cases c <;> first | exact hheld | skip
        case reserveHost | incNext => cases hc
        case putTenant | sqsSend => cases r <;> first | exact hheld | rfl
      · rw [Protocol.stepLoc, Function.update_of_ne hk] at hg
        exact ih hg

theorem numbersStep_sound {f₀ : World} {tr : List (Ev Ctl FleetJob ℕ)} {w : World} {i : ℕ} {c : Call} {r : c.Ans}
    (hc : numbersStep f₀ tr w c r = true) : keepsNumbers f₀ tr w i c r := by
  rw [numbersStep, Bool.and_eq_true, Bool.and_eq_true, Bool.not_eq_true'] at hc
  obtain ⟨⟨htr, hgives⟩, hc⟩ := hc
  refine ⟨fun y _ _ x hx o ho => ?_, ?_, ?_⟩
  · cases o with
    | tenant t =>
      have hall := List.all_eq_true.1 (List.all_eq_true.1 hgives x hx)
      simp only [Bool.or_eq_true, decide_eq_true_eq] at hall
      obtain ⟨-, hseat | ⟨j, hj, hseat⟩⟩ := ho
      · have h := hall _ (List.mem_append_left _ hseat)
        simp at h
        rw [h]
      · have h := hall _ (List.mem_append_right _ (List.mem_map.2 ⟨j, hj, hseat⟩))
        simp at h
        rw [h]
    | proc p =>
      obtain ⟨-, g, hg, hheld⟩ := ho
      rw [held_none (fun i c r h => ?_) hg] at hheld
      · cases hheld
      · have h := List.all_eq_true.1 htr _ h
        simpa using h
  · cases c <;> first | trivial | skip
    case updHost h u => cases u <;> trivial
  · cases c <;> trivial

/-- A statement, computed. -/
def execStep (f : FleetNet) (h : HostId) (a : NetAct) : Bool :=
  (a.begins.all fun tid => decide ((f.host h).idle tid) && f.todo.all fun x => x.1 ≠ h || underway x.2 ≠ some tid) &&
  match a with
  | .delSrcTap tid n => ((f.host h).json tid).all fun j => j.vmNum = n
  | .load _ n uri => (f.snaps uri).all fun v => v.tap = n
  | _ => true

/-- A step that meets the condition, computed. -/
def seatsStep (f₀ : Estate) (tr : List (Ev Ctl FleetJob ℕ)) (f : Estate) : Ev Ctl FleetJob ℕ → Bool
  | .call _ c r => numbersStep f₀.ctl tr f.ctl c r &&
    (c.gives r).all fun x => (lastNum (seated f₀.ctl tr) x.host x.tenant).all fun m => m = x.num
  | .start _ (.host (.exec k)) =>
    match f.net.todo[k]? with
    | some (h, a :: _) => execStep f.net h a
    | _ => true
  | .start _ (.host (.recover _ _ _)) => false
  | .start _ _ => true

theorem seatsStep_sound {f₀ : Estate} {tr : List (Ev Ctl FleetJob ℕ)} {f : Estate} {e : Ev Ctl FleetJob ℕ}
    (hc : seatsStep f₀ tr f e = true) : keepsSeats f₀ tr f e := by
  cases e with
  | call i c r =>
    rw [seatsStep, Bool.and_eq_true] at hc
    refine ⟨numbersStep_sound hc.1, fun x hx m hm hne => ?_⟩
    have hlast := List.all_eq_true.1 hc.2 x hx
    rw [hm] at hlast
    exact absurd (of_decide_eq_true hlast) hne
  | start i j =>
    cases j with
    | host e =>
      cases e with
      | exec k =>
        have hstep : ∀ h a rest, f.net.todo[k]? = some (h, a :: rest) → execStep f.net h a = true := by
          intro h a rest hk
          simpa only [seatsStep, hk] using hc
        refine ⟨fun h a rest tid hk hb => ?_, fun h a rest hk => ?_, trivial⟩
        · have hx := (Bool.and_eq_true _ _).mp (hstep h a rest hk) |>.1
          rw [hb, Option.all_some, Bool.and_eq_true, decide_eq_true_eq] at hx
          refine ⟨fun j _ acts hacts hu => ?_, fun _ => hx.1⟩
          have h := List.all_eq_true.1 hx.2 _ (List.mem_of_getElem? hacts)
          simp [hu] at h
        · have hx := (Bool.and_eq_true _ _).mp (hstep h a rest hk) |>.2
          cases a <;> first | trivial | skip
          case delSrcTap tid n => exact fun j hj => of_decide_eq_true ((Option.all_eq_true _ _).1 hx j hj)
          case load tid n uri => exact fun v hv => of_decide_eq_true ((Option.all_eq_true _ _).1 hx v hv)
      | recover => cases hc
      | _ => exact ⟨trivial, trivial, trivial⟩
    | _ => trivial

/-! ## Two live migrations -/

/-- The network of a host on which one VM runs. -/
def oneVm (tid : TenantId) (n : Int) (ip : String) : HostNet :=
  (({} : HostNet).addTap n).addVm ⟨tid, n, ip⟩ |>.setJson tid (some ⟨n, ip⟩)

/-- A running tenant with its address fields. -/
def addressedTenant (id : TenantId) (host : HostId) (n : Int) (ip : String) : TenantRow :=
  { runningTenant id host n with guestIp := some ip, hostPort := some (18788 + n) }

/-- `a-0000` runs on `i-1` as number `m`, `b-0000` on `i-2` as number `n`; both numbers are the last given out. -/
def twoVms (m n : Int) (ip ip' : String) : Estate where
  ctl :=
    { tenants := ⟨[addressedTenant "a-0000" "i-1" m ip, addressedTenant "b-0000" "i-2" n ip'],
        by simp [addressedTenant, runningTenant]⟩
      hosts := ⟨[busyHost "i-1" (m + 1), busyHost "i-2" (n + 1)], by simp [busyHost, emptyHost]⟩ }
  net := (({} : FleetNet).upd "i-1" fun _ => oneVm "a-0000" m ip).upd "i-2" fun _ => oneVm "b-0000" n ip'

theorem twoVms_vms {m n : Int} {ip ip' : String} {h : HostId} {v : NetVm}
    (hv : v ∈ ((twoVms m n ip ip').net.host h).vms) :
    h = "i-1" ∧ v = ⟨"a-0000", m, ip⟩ ∨ h = "i-2" ∧ v = ⟨"b-0000", n, ip'⟩ := by
  by_cases h₂ : h = "i-2"
  · subst h₂
    right
    simpa [twoVms, oneVm, HostNet.addVm, HostNet.addTap, HostNet.setJson] using hv
  · by_cases h₁ : h = "i-1"
    · subst h₁
      left
      simpa [twoVms, oneVm, HostNet.addVm, HostNet.addTap, HostNet.setJson, FleetNet.upd, Function.update] using hv
    · simp [twoVms, FleetNet.upd, Function.update, h₁, h₂] at hv

theorem twoVms_rest {m n : Int} {ip ip' : String} (hm : env.guestIp m = some ip) (hn : env.guestIp n = some ip') :
    FleetAtRest env (twoVms m n ip ip') := by
  have hrow : ∀ t ∈ (twoVms m n ip ip').ctl.tenants.rows, ∀ x ∈ t.seats,
      t.id = "a-0000" ∧ x = ⟨"i-1", "a-0000", m⟩ ∨ t.id = "b-0000" ∧ x = ⟨"i-2", "b-0000", n⟩ := by
    intro t ht x hx
    have ht : t = addressedTenant "a-0000" "i-1" m ip ∨ t = addressedTenant "b-0000" "i-2" n ip' := by
      simpa [twoVms] using ht
    rcases ht with rfl | rfl
    · exact .inl ⟨rfl, List.mem_singleton.1 hx⟩
    · exact .inr ⟨rfl, List.mem_singleton.1 hx⟩
  refine ⟨⟨rfl, fun t ht x hx _ => ?_, fun t ht t' ht' x hx x' hx' _ hh _ => ?_⟩, rfl, fun h v hv => ?_, fun h => ?_,
    fun h v hv => ?_, fun uri v hv => ?_⟩
  · rcases hrow t ht x hx with ⟨-, rfl⟩ | ⟨-, rfl⟩
    · exact ⟨m + 1, rfl, Int.lt_add_one_of_le (le_refl m)⟩
    · exact ⟨n + 1, rfl, Int.lt_add_one_of_le (le_refl n)⟩
  · rcases hrow t ht x hx with ⟨hid, rfl⟩ | ⟨hid, rfl⟩ <;> rcases hrow t' ht' x' hx' with ⟨hid', rfl⟩ | ⟨hid', rfl⟩
    all_goals first | exact hid.trans hid'.symm | exact absurd hh (by simp)
  · rcases twoVms_vms hv with ⟨rfl, rfl⟩ | ⟨rfl, rfl⟩
    · exact ⟨_, List.mem_cons_self, List.mem_singleton.2 rfl⟩
    · exact ⟨_, List.mem_cons_of_mem _ List.mem_cons_self, List.mem_singleton.2 rfl⟩
  · by_cases h₂ : h = "i-2"
    · subst h₂
      simp [twoVms, oneVm, HostNet.addVm, HostNet.addTap, HostNet.setJson]
    · by_cases h₁ : h = "i-1"
      · subst h₁
        simp [twoVms, oneVm, HostNet.addVm, HostNet.addTap, HostNet.setJson, FleetNet.upd, Function.update]
      · simp [twoVms, FleetNet.upd, Function.update, h₁, h₂]
  · rcases twoVms_vms hv with ⟨-, rfl⟩ | ⟨-, rfl⟩
    · exact hm
    · exact hn
  · cases hv

def vmEnv : AddressEnv := { subnetPrefix := "172.16" }

/-- The migration of `a-0000` to `i-2`, up to the load of the snapshot. -/
def restoreMoves : List (Move FleetJob ℕ Hint) :=
  List.flatten [[.start 0 (.action "a-0000" (.migrate "i-2"))], List.replicate 5 (.call 0 {}),
    [.start 1 (.host (.exec 0)), .start 2 (.host (.exec 0)), .start 3 (.sweep 0)], List.replicate 5 (.call 3 {}),
    [.start 4 (.host (.exec 1)), .start 5 (.host (.exec 1)), .start 6 (.host (.exec 1)), .start 7 (.host (.exec 1))]]

/-- The rest of it: the flip, and the stop on `i-1`. -/
def flipMoves : List (Move FleetJob ℕ Hint) :=
  List.flatten [[.start 8 (.sweep 0)], List.replicate 11 (.call 8 {}),
    [.start 9 (.host (.exec 3)), .start 10 (.host (.exec 3))]]

def vmConfig : Config := { assetsBucket := "b", routingMode := .hostTg }

/-- The restore of `a-0000` takes the tap of `b-0000`, and both VMs have the same address. -/
theorem restore_takes_tap : ∃ (tr : List (Ev Ctl FleetJob ℕ)) (c : Conf Ctl Estate FleetJob ℕ Unit),
    FleetAtRest vmEnv (twoVms 1 1 "172.16.1.2" "172.16.1.2") ∧
    Reach fleet (fleetJobs vmConfig vmEnv) anyStep (Conf.idle (twoVms 1 1 "172.16.1.2" "172.16.1.2")) tr c ∧
    ¬ NetworkUnique c.world := by
  have hplay : ((fleetOracle.play (fleetJobs vmConfig vmEnv) (fleetStart vmEnv) (fun _ _ _ => true) []
      (Conf.idle (twoVms 1 1 "172.16.1.2" "172.16.1.2")) restoreMoves).any fun x =>
        decide ((x.2.world.net.host "i-2").vms = [⟨"b-0000", 1, "172.16.1.2"⟩, ⟨"a-0000", 1, "172.16.1.2"⟩])) =
      true := by
    decide +kernel
  obtain ⟨tr, c, hr, hvms⟩ := Oracle.exists_reach_of_play fleetStart_sound (fun _ _ _ _ => trivial) hplay
  refine ⟨tr, c, twoVms_rest (by decide) (by decide), hr, fun hu => ?_⟩
  have htaps := hu "i-2" (by decide)
  rw [of_decide_eq_true hvms] at htaps
  simp at htaps

/-- Number 3 is the next one on `i-2`: the migration ends with `a-0000` on tap 3 there, and `i-1` is empty. -/
theorem network_unique_migration : ∃ (tr : List (Ev Ctl FleetJob ℕ)) (c : Conf Ctl Estate FleetJob ℕ Unit),
    Reach fleet (fleetJobs vmConfig vmEnv) (keepsSeats (twoVms 3 2 "172.16.3.2" "172.16.2.2"))
      (Conf.idle (twoVms 3 2 "172.16.3.2" "172.16.2.2")) tr c ∧
    NetworkUnique c.world ∧ (c.world.net.host "i-1").vms = [] ∧
    (c.world.net.host "i-2").vms = [⟨"b-0000", 2, "172.16.2.2"⟩, ⟨"a-0000", 3, "172.16.3.2"⟩] := by
  have hplay : ((fleetOracle.play (fleetJobs vmConfig vmEnv) (fleetStart vmEnv)
      (seatsStep (twoVms 3 2 "172.16.3.2" "172.16.2.2")) [] (Conf.idle (twoVms 3 2 "172.16.3.2" "172.16.2.2"))
      (restoreMoves ++ flipMoves)).any fun x =>
        decide ((x.2.world.net.host "i-1").vms = [] ∧
          (x.2.world.net.host "i-2").vms = [⟨"b-0000", 2, "172.16.2.2"⟩, ⟨"a-0000", 3, "172.16.3.2"⟩])) = true := by
    decide +kernel
  obtain ⟨tr, c, hr, hvms⟩ := Oracle.exists_reach_of_play fleetStart_sound (fun _ _ _ => seatsStep_sound) hplay
  obtain ⟨h₁, h₂⟩ := of_decide_eq_true hvms
  obtain ⟨hu, -⟩ := network_unique (twoVms_rest (by decide) (by decide)) hr
  exact ⟨tr, c, hr, hu, h₁, h₂⟩

end OpenClaw
