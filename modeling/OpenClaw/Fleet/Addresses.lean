import OpenClaw.Fleet.Uniqueness

/-!
# The address in the row

- `row_address`: as long as a move keeps the tenant's number, and numbers stay below 255, the address fields of a row are
  those of the tenant's VM and of no other.
- `flip_keeps_address`: a migration to another number leaves the address fields of the old one in the row.
-/

namespace OpenClaw

open Keyed Atomic Exclusive

variable {cfg : Config} {env : AddressEnv}

/-! ## Rows -/

/-- The update keeps the number of the row, or assigns one that both formulas take to the same address. -/
def TenantUpdate.keeps (u : TenantUpdate) (t : TenantRow) : Prop :=
  match u with
  | .assign _ n _ _ _ _ => n ≤ 254
  | .migrated _ n _ | .failedOver _ n _ => t.vmNum = some n
  | _ => True

instance (u : TenantUpdate) (t : TenantRow) : Decidable (u.keeps t) := by
  cases u <;> unfold TenantUpdate.keeps <;> infer_instance

/-- The row has the address fields of its number, which is below 255. -/
def TenantRow.inPlace (cfg : Config) (t : TenantRow) : Prop := t.addressed cfg ∧ ∀ n, t.vmNum = some n → n ≤ 254

theorem TenantRow.inPlace.apply {t : TenantRow} {u : TenantUpdate} (ht : t.inPlace cfg) (hu : u.addressed cfg)
    (hk : u.keeps t) : (u.apply t).inPlace cfg := by
  cases u
  case assign h n ip port rv now =>
    obtain ⟨rfl, rfl⟩ := hu
    refine ⟨⟨fun _ => rfl, fun k he => ?_⟩, fun k he => ?_⟩
    · obtain rfl := Option.some.inj he
      exact ⟨rfl, rfl⟩
    · obtain rfl := Option.some.inj he
      exact hk
  case migrated h n now =>
    refine ⟨⟨fun _ => rfl, fun k he => ?_⟩, fun k he => ?_⟩
    · obtain rfl := Option.some.inj he
      exact ht.1.2 n hk
    · obtain rfl := Option.some.inj he
      exact ht.2 n hk
  case failedOver h n b =>
    refine ⟨⟨fun _ => rfl, fun k he => ?_⟩, fun k he => ?_⟩
    · obtain rfl := Option.some.inj he
      exact ht.1.2 n hk
    · obtain rfl := Option.some.inj he
      exact ht.2 n hk
  all_goals exact ht

/-- The condition on the steps: that of `keepsSeats`, the flips of migration and failover keep the tenant's number, and no
number above 254 is given out. -/
def keptNumbers {ι : Type} [DecidableEq ι] (f₀ : Estate) (tr : List (Ev Ctl FleetJob ι)) (f : Estate)
    (e : Ev Ctl FleetJob ι) : Prop :=
  keepsSeats f₀ tr f e ∧
    match e with
    | .call _ (.putTenant t) true => ∀ n, t.vmNum = some n → n ≤ 254
    | .call _ (.updTenant id u) true => ∀ t, f.ctl.tenants.get id = some t → u.keeps t
    | .call _ (.condTenant id _ u) .done => ∀ t, f.ctl.tenants.get id = some t → u.keeps t
    | _ => True

/-- Every row has the address fields of its number. -/
def RowsInPlace (cfg : Config) (w : World) : Prop := ∀ t ∈ w.tenants.rows, t.inPlace cfg

theorem rowsInPlace_call {ι : Type} [DecidableEq ι] {tr : List (Ev Ctl FleetJob ι)} {i : ι} {f₀ f f' : Estate}
    {c : Call} {r : c.Ans} (hI : RowsInPlace cfg f.ctl) (hc : c.tidy cfg) (hg : keptNumbers f₀ tr f (.call i c r))
    (hs : fleet.step c r f f') : RowsInPlace cfg f'.ctl := by
  intro t ht
  rcases step_wrote hs.1 ht with ht | ht
  · exact hI t ht
  cases c <;> try cases ht
  case putTenant x =>
    cases r with
    | false => cases ht
    | true =>
      obtain rfl := Option.some.inj ht
      exact ⟨hc, hg.2⟩
  case updTenant id u =>
    cases r with
    | false => cases ht
    | true =>
      obtain ⟨x, hx, rfl⟩ := Option.map_eq_some_iff.1 ht
      exact (hI x (Table.mem_of_get hx)).apply hc (hg.2 x hx)
  case condTenant id cond u =>
    cases r with
    | failed => cases ht
    | refused => cases ht
    | done =>
      obtain ⟨x, hx, rfl⟩ := Option.map_eq_some_iff.1 ht
      exact (hI x (Table.mem_of_get hx)).apply hc (hg.2 x hx)

/-! ## Rows and VMs -/

/-- The fields of the row lead to the tenant's VM on the host and to no other, and its port is its own. -/
def Reachable (cfg : Config) (f : Estate) (t : TenantRow) (h : HostId) : Prop :=
  (∃ n, t.vmNum = some n ∧ t.hostPort = some (hostPortOf cfg n)) ∧
    (∀ v ∈ (f.net.host h).vms, t.guestIp = some v.ip ↔ v.tenant = t.id) ∧
    ∀ t' ∈ f.ctl.tenants.rows, t'.hostId = some h → t'.hostPort = t.hostPort → t' = t

/-- The address of a number below 255 belongs to no other number. -/
theorem tap_of_guestIpOf (hp : PrefixOk cfg env) {n m : Int} (hm : env.guestIp m = some (guestIpOf cfg n)) : m = n := by
  obtain ⟨h1, b, hb, he⟩ := guestIp_eq_some hm
  obtain ⟨hcfg, b', hb', hpfx⟩ := hp
  obtain rfl := Option.some.inj (hb.symm.trans hb')
  have h0 := bashInt_nonneg hb
  have hhi : 0 ≤ addrHi m := by unfold addrHi; omega
  have htext : guestIpOf cfg n = guestText (octA env.pfx) b n := by
    rw [guestIpOf, hcfg, guestText, ← hpfx]
  obtain ⟨hhi', hlo⟩ := guestText_inj h0 (by omega) (htext.symm.trans he)
  have hm := addr_eq m
  omega

theorem reachable_of_inv {ι : Type} [DecidableEq ι] {tr : List (Ev Ctl FleetJob ι)} {f₀ f : Estate} {w : World}
    (hp : PrefixOk cfg env) (hL : Ledger f₀.ctl tr w) (hI : FleetInv env (seated f₀.ctl tr) f)
    (hR : RowsInPlace cfg f.ctl) {t : TenantRow} (ht : t ∈ f.ctl.tenants.rows) {h : HostId} (haz : h ≠ azStateId)
    (hh : t.hostId = some h) : Reachable cfg f t h := by
  obtain ⟨⟨hsome, haddr⟩, hmax⟩ := hR t ht
  obtain ⟨n, hn⟩ := Option.isSome_iff_exists.1 (hsome (by rw [hh]; rfl))
  obtain ⟨hip, hport⟩ := haddr n hn
  have hnum : t.vmNum.getD 1 = n := by rw [hn, Option.getD_some]
  have hhas : f.uses h t.id n := .inl ⟨t, ht, TenantRow.mem_seats.2 ⟨hh, rfl, hnum⟩⟩
  refine ⟨⟨n, hn, hport⟩, fun v hv => ?_, fun t' ht' hh' hport' => ?_⟩
  · rw [← hI.tap_iff hL haz hhas hv, hip]
    have haddr := hI.addr h v hv
    constructor
    · intro he
      exact tap_of_guestIpOf hp (by rw [Option.some.inj he]; exact haddr)
    · intro he
      have htap : v.tap ≤ 254 := he ▸ hmax n hn
      rw [guestIp_eq_guestIpOf hp htap haddr, he]
  · obtain ⟨⟨hsome', haddr'⟩, -⟩ := hR t' ht'
    obtain ⟨n', hn'⟩ := Option.isSome_iff_exists.1 (hsome' (by rw [hh']; rfl))
    have hp' := (haddr' n' hn').2
    rw [hport', hport] at hp'
    have hsame : n' = n := by
      have := Option.some.inj hp'
      unfold hostPortOf at this
      omega
    subst hsame
    have hhas' : f.uses h t'.id n' := .inl ⟨t', ht', TenantRow.mem_seats.2 ⟨hh', rfl, by rw [hn', Option.getD_some]⟩⟩
    exact Table.eq_of_key ht' ht (hI.owner hL haz hhas' hhas)

section Runs

variable {ι : Type} [DecidableEq ι] {f₀ : Estate} {tr : List (Ev Ctl FleetJob ι)} {c : Conf Ctl Estate FleetJob ι Unit}

/-- **Addresses in rows.** In a run whose steps meet `keptNumbers`, from a fleet at rest, the address fields of every
tenant that is on a host lead to its VM and to no other. -/
theorem row_address (hp : PrefixOk cfg env) (hf : FleetAtRest env f₀) (hrows : RowsInPlace cfg f₀.ctl)
    (hr : Reach fleet (fleetJobs cfg env) (keptNumbers f₀) (Conf.idle f₀) tr c) :
    ∀ t ∈ c.world.ctl.tenants.rows, ∀ h, h ≠ azStateId → t.hostId = some h → Reachable cfg c.world t h := by
  have hR : RowsInPlace cfg c.world.ctl := by
    refine Reach.inv (I := fun _ c => RowsInPlace cfg c.world.ctl) hrows ?_ hr
    intro tr c e c' hr hI hg hst
    cases hst with
    | @start i j f' hp hb =>
      cases j with
      | host e =>
        have hctl : f'.ctl = c.world.ctl := hb.1
        intro t ht
        exact hI t (hctl ▸ ht)
      | worker =>
        obtain ⟨rfl, -⟩ := hb
        exact hI
      | _ =>
        obtain rfl : f' = c.world := hb
        exact hI
    | @call i j a k r f' hp hs =>
      have htidy : (Prog.call a k : CtlProg Unit).All (Call.tidy cfg) := hr.all (fleetBody_tidy cfg) hp
      exact rowsInPlace_call hI htidy.1 hg hs
  intro t ht h haz hh
  obtain ⟨hL, hI⟩ := fleet_inv (fun _ _ _ h => h.1) hf hr
  exact reachable_of_inv hp hL hI hR ht haz hh

end Runs

/-! ## Two migrations -/

/-- A step that keeps numbers, computed. -/
def keepStep (f₀ : Estate) (tr : List (Ev Ctl FleetJob ℕ)) (f : Estate) (e : Ev Ctl FleetJob ℕ) : Bool :=
  seatsStep f₀ tr f e &&
    match e with
    | .call _ (.putTenant t) _ => t.vmNum.all fun n => n ≤ 254
    | .call _ (.updTenant id u) _ | .call _ (.condTenant id _ u) _ => (f.ctl.tenants.get id).all fun t => u.keeps t
    | _ => true

theorem keepStep_sound {tr : List (Ev Ctl FleetJob ℕ)} {f₀ f : Estate} {e : Ev Ctl FleetJob ℕ}
    (hf : keepStep f₀ tr f e = true) : keptNumbers f₀ tr f e := by
  obtain ⟨hseats, hk⟩ := (Bool.and_eq_true _ _).mp hf
  refine ⟨seatsStep_sound hseats, ?_⟩
  cases e with
  | start i j => trivial
  | call i c r =>
    cases c <;> try trivial
    case putTenant t =>
      cases r with
      | false => trivial
      | true =>
        intro n hn
        exact of_decide_eq_true ((Option.all_eq_true _ _).1 hk n hn)
    case updTenant id u =>
      cases r with
      | false => trivial
      | true =>
        intro t ht
        exact of_decide_eq_true ((Option.all_eq_true _ _).1 hk t ht)
    case condTenant id cond u =>
      cases r <;> try trivial
      intro t ht
      exact of_decide_eq_true ((Option.all_eq_true _ _).1 hk t ht)

/-- Ballooning is on, so that migrations are cold. -/
def coldConfig : Config := { assetsBucket := "b", routingMode := .hostTg, balloonEnabled := true }

/-- The cold migration of `a-0000` to `i-2`, up to the flip. -/
def coldMoves : List (Move FleetJob ℕ Hint) :=
  List.flatten [[.start 0 (.action "a-0000" (.migrate "i-2"))], List.replicate 5 (.call 0 {}),
    [.start 1 (.host (.exec 0)), .start 2 (.host (.exec 0)), .start 3 (.host (.exec 0)), .start 4 (.sweep 0)],
    List.replicate 5 (.call 4 {}),
    [.start 5 (.host (.exec 1)), .start 6 (.host (.exec 1)), .start 7 (.host (.exec 1)), .start 8 (.sweep 0)],
    List.replicate 7 (.call 8 {})]

theorem coldConfig_prefix : PrefixOk coldConfig vmEnv := ⟨rfl, 16, by decide, by decide⟩

theorem twoVms_inPlace {m n : Int} (hm : m ≤ 254) (hn : n ≤ 254) (hbase : cfg.vmPortBase = 18789) :
    RowsInPlace cfg (twoVms m n (guestIpOf cfg m) (guestIpOf cfg n)).ctl := by
  have hrow : ∀ id host k, k ≤ 254 → (addressedTenant id host k (guestIpOf cfg k)).inPlace cfg := by
    intro id host k hk
    refine ⟨⟨fun _ => rfl, fun j hj => ?_⟩, fun j hj => ?_⟩
    · obtain rfl := Option.some.inj hj
      refine ⟨rfl, ?_⟩
      have hport : hostPortOf cfg k = 18788 + k := by
        unfold hostPortOf
        omega
      rw [hport]
      rfl
    · obtain rfl := Option.some.inj hj
      exact hk
  intro t ht
  have ht : t = addressedTenant "a-0000" "i-1" m (guestIpOf cfg m) ∨
      t = addressedTenant "b-0000" "i-2" n (guestIpOf cfg n) := by
    simpa [twoVms] using ht
  rcases ht with rfl | rfl
  · exact hrow _ _ _ hm
  · exact hrow _ _ _ hn

/-- The tenant runs as number 5 on `i-2`, and its row still has the address and the port of number 1. -/
theorem flip_keeps_address : ∃ (tr : List (Ev Ctl FleetJob ℕ)) (c : Conf Ctl Estate FleetJob ℕ Unit),
    PrefixOk coldConfig vmEnv ∧ FleetAtRest vmEnv (twoVms 1 4 "172.16.1.2" "172.16.4.2") ∧
    RowsInPlace coldConfig (twoVms 1 4 "172.16.1.2" "172.16.4.2").ctl ∧
    Reach fleet (fleetJobs coldConfig vmEnv) anyStep (Conf.idle (twoVms 1 4 "172.16.1.2" "172.16.4.2")) tr c ∧
    ∃ t ∈ c.world.ctl.tenants.rows, t.status = .running ∧ t.hostId = some "i-2" ∧ t.vmNum = some 5 ∧
      t.hostPort ≠ some (hostPortOf coldConfig 5) ∧
      ∃ v ∈ (c.world.net.host "i-2").vms, v.tenant = t.id ∧ t.guestIp ≠ some v.ip := by
  have hplay : ((fleetOracle.play (fleetJobs coldConfig vmEnv) (fleetStart vmEnv) (fun _ _ _ => true) []
      (Conf.idle (twoVms 1 4 "172.16.1.2" "172.16.4.2")) coldMoves).any fun x =>
        x.2.world.ctl.tenants.rows.any fun t => decide (t.status = .running ∧ t.hostId = some "i-2" ∧ t.vmNum = some 5 ∧
          t.hostPort ≠ some (hostPortOf coldConfig 5) ∧
          ∃ v ∈ (x.2.world.net.host "i-2").vms, v.tenant = t.id ∧ t.guestIp ≠ some v.ip)) = true := by
    decide +kernel
  obtain ⟨tr, c, hr, hrows⟩ := Oracle.exists_reach_of_play fleetStart_sound (fun _ _ _ _ => trivial) hplay
  simp only [List.any_eq_true, decide_eq_true_eq] at hrows
  have hplace : RowsInPlace coldConfig (twoVms 1 4 (guestIpOf coldConfig 1) (guestIpOf coldConfig 4)).ctl :=
    twoVms_inPlace (by decide) (by decide) rfl
  exact ⟨tr, c, coldConfig_prefix, twoVms_rest (by decide) (by decide), hplace, hr, hrows⟩

/-- The live migration that keeps number 3. -/
theorem row_address_migration : ∃ (tr : List (Ev Ctl FleetJob ℕ)) (c : Conf Ctl Estate FleetJob ℕ Unit),
    Reach fleet (fleetJobs vmConfig vmEnv) (keptNumbers (twoVms 3 2 "172.16.3.2" "172.16.2.2"))
      (Conf.idle (twoVms 3 2 "172.16.3.2" "172.16.2.2")) tr c ∧
    ∃ t ∈ c.world.ctl.tenants.rows, t.id = "a-0000" ∧ t.hostId = some "i-2" ∧ Reachable vmConfig c.world t "i-2" := by
  have hplay : ((fleetOracle.play (fleetJobs vmConfig vmEnv) (fleetStart vmEnv)
      (keepStep (twoVms 3 2 "172.16.3.2" "172.16.2.2")) [] (Conf.idle (twoVms 3 2 "172.16.3.2" "172.16.2.2"))
      (restoreMoves ++ flipMoves)).any fun x =>
        x.2.world.ctl.tenants.rows.any fun t => decide (t.id = "a-0000" ∧ t.hostId = some "i-2")) =
      true := by
    decide +kernel
  obtain ⟨tr, c, hr, hrows⟩ := Oracle.exists_reach_of_play fleetStart_sound (fun _ _ _ => keepStep_sound) hplay
  simp only [List.any_eq_true, decide_eq_true_eq] at hrows
  obtain ⟨t, ht, hid, hh⟩ := hrows
  have hplace : RowsInPlace vmConfig (twoVms 3 2 (guestIpOf vmConfig 3) (guestIpOf vmConfig 2)).ctl :=
    twoVms_inPlace (by decide) (by decide) rfl
  have hpfx : PrefixOk vmConfig vmEnv := ⟨rfl, 16, by decide, by decide⟩
  have hrest : FleetAtRest vmEnv (twoVms 3 2 "172.16.3.2" "172.16.2.2") := twoVms_rest (by decide) (by decide)
  exact ⟨tr, c, hr, t, ht, hid, hh, row_address hpfx hrest hplace hr t ht _ (by decide) hh⟩

end OpenClaw
