import OpenClaw.Control.Create

/-!
# Guest addresses

The address that `launch-vm.sh` gives a guest, and the one that the API writes into its row.

- `guestIp_inj`: on one host, two numbers that `launch-vm.sh` accepts have two addresses.
- `guestIp_eq_guestIpOf`: up to number 254 both formulas agree; above it they do not (`guestIp_ne_guestIpOf`).
-/

namespace OpenClaw

/-! ## launch-vm.sh -/

/-- What the addressing reads from `/etc/platform.env`. -/
structure AddressEnv where
  /-- `SUBNET_PREFIX`, empty when it is not set. -/
  subnetPrefix : String := ""
  /-- The first two fields of `OC_VPC_CIDR`, when it was substituted. -/
  vpc : Option (String × String) := none

/-- `_PREFIX`. -/
def AddressEnv.pfx (env : AddressEnv) : String := if env.subnetPrefix = "" then "10.0" else env.subnetPrefix

/-- `${_PREFIX%%.*}`. -/
def octA (pfx : String) : String := String.ofList (pfx.toList.takeWhile (· ≠ '.'))

/-- `${_PREFIX##*.}`. -/
def octB (pfx : String) : List Char := (pfx.toList.reverse.takeWhile (· ≠ '.')).reverse

/-- A variable in an arithmetic expression: empty is `0`, a leading zero means octal, and a word is an unset variable,
which ends the script. -/
def bashInt (cs : List Char) : Option Int :=
  if cs.isEmpty then some 0
  else if !cs.all Char.isDigit then none
  else if cs.head? = some '0' then
    if cs.all (· < '8') then some (Nat.ofDigitChars 8 cs 0) else none
  else some (Nat.ofDigitChars 10 cs 0)

/-- `_HI`. -/
def addrHi (vmNum : Int) : Int := (vmNum - 1) / 254

/-- `_LO`. -/
def addrLo (vmNum : Int) : Int := (vmNum - 1) % 254 + 1

/-- `<A>.<B>.<LO>.2`. -/
def guestText (a : String) (b lo : Int) : String := a ++ "." ++ toString b ++ "." ++ toString lo ++ ".2"

/-- `GUEST_IP`; `none` when the script refuses the number. -/
def AddressEnv.guestIp (env : AddressEnv) (vmNum : Int) : Option String :=
  if vmNum < 1 then none
  else
    match bashInt (octB env.pfx) with
    | none => none
    | some b =>
      if 255 < b + addrHi vmNum then none
      else if env.vpc = some (octA env.pfx, toString (b + addrHi vmNum)) then none
      else some (guestText (octA env.pfx) (b + addrHi vmNum) (addrLo vmNum))

/-! ## Different numbers, different addresses -/

theorem toList_toString {n : Int} (hn : 0 ≤ n) : (toString n).toList = Nat.toDigits 10 n.toNat := by
  obtain ⟨k, rfl⟩ := Int.eq_ofNat_of_zero_le hn
  exact Nat.toList_repr

theorem dot_notMem {n : Int} (hn : 0 ≤ n) : '.' ∉ (toString n).toList := by
  intro h
  rw [toList_toString hn] at h
  exact absurd (Nat.isDigit_of_mem_toDigits (by decide) (by decide) h) (by decide)

/-- The part before the first dot is determined. -/
theorem append_dot_inj {b b' x x' : List Char} (hb : '.' ∉ b) (hb' : '.' ∉ b') (h : b ++ '.' :: x = b' ++ '.' :: x') :
    b = b' ∧ x = x' := by
  induction b generalizing b' with
  | nil =>
    cases b' with
    | nil => exact ⟨rfl, (List.cons.inj h).2⟩
    | cons c cs =>
      have hc : '.' = c := (List.cons.inj h).1
      exact absurd (hc ▸ List.mem_cons_self) hb'
  | cons c cs ih =>
    cases b' with
    | nil =>
      have hc : c = '.' := (List.cons.inj h).1
      exact absurd (hc ▸ List.mem_cons_self) hb
    | cons d ds =>
      obtain ⟨hcd, hrest⟩ := List.cons.inj h
      obtain ⟨hbs, hxs⟩ := ih (fun hm => hb (List.mem_cons_of_mem _ hm)) (fun hm => hb' (List.mem_cons_of_mem _ hm)) hrest
      exact ⟨by rw [hcd, hbs], hxs⟩

theorem guestText_inj {a : String} {b lo b' lo' : Int} (hb : 0 ≤ b) (hb' : 0 ≤ b')
    (h : guestText a b lo = guestText a b' lo') : b = b' ∧ lo = lo' := by
  have hl := congrArg String.toList h
  simp only [guestText, String.toList_append, List.append_assoc, List.append_cancel_left_eq] at hl
  have hdot : ∀ x, ".".toList ++ x = '.' :: x := fun _ => rfl
  simp only [hdot] at hl
  obtain ⟨hbs, hrest⟩ := append_dot_inj (dot_notMem hb) (dot_notMem hb') hl
  have hlo := List.append_cancel_right hrest
  exact ⟨Int.repr_injective (String.toList_inj.1 hbs), Int.repr_injective (String.toList_inj.1 hlo)⟩

/-- `_HI` and `_LO` determine the number. -/
theorem addr_eq (n : Int) : n = 254 * addrHi n + addrLo n := by
  unfold addrHi addrLo
  omega

theorem bashInt_nonneg {cs : List Char} {b : Int} (h : bashInt cs = some b) : 0 ≤ b := by
  unfold bashInt at h
  split at h
  · obtain rfl := Option.some.inj h
    exact le_refl 0
  · split at h
    · cases h
    · split at h
      · split at h
        · obtain rfl := Option.some.inj h
          exact Int.natCast_nonneg _
        · cases h
      · obtain rfl := Option.some.inj h
        exact Int.natCast_nonneg _

/-- What the address of an accepted number is. -/
theorem guestIp_eq_some {env : AddressEnv} {n : Int} {ip : String} (h : env.guestIp n = some ip) :
    1 ≤ n ∧ ∃ b, bashInt (octB env.pfx) = some b ∧ ip = guestText (octA env.pfx) (b + addrHi n) (addrLo n) := by
  unfold AddressEnv.guestIp at h
  split at h
  · cases h
  · rename_i hn
    split at h
    · cases h
    · rename_i b hb
      split at h
      · cases h
      · split at h
        · cases h
        · exact ⟨by omega, b, hb, (Option.some.inj h).symm⟩

/-- **Addresses are distinct.** -/
theorem guestIp_inj {env : AddressEnv} {n m : Int} {ip : String} (hn : env.guestIp n = some ip)
    (hm : env.guestIp m = some ip) : n = m := by
  obtain ⟨h1, b, hb, hip⟩ := guestIp_eq_some hn
  obtain ⟨h1', b', hb', hip'⟩ := guestIp_eq_some hm
  obtain rfl := Option.some.inj (hb.symm.trans hb')
  have h0 := bashInt_nonneg hb
  have hhi : 0 ≤ addrHi n := by unfold addrHi; omega
  have hhi' : 0 ≤ addrHi m := by unfold addrHi; omega
  obtain ⟨hb, hlo⟩ := guestText_inj (by omega) (by omega) (hip.symm.trans hip')
  have hn := addr_eq n
  have hm := addr_eq m
  omega

/-! ## The address in the row -/

/-- The API and the hosts are configured with one prefix, written as two decimal numbers. -/
def PrefixOk (cfg : Config) (env : AddressEnv) : Prop :=
  cfg.vmSubnetPrefix = env.pfx ∧ ∃ b, bashInt (octB env.pfx) = some b ∧ env.pfx = octA env.pfx ++ "." ++ toString b

theorem guestIp_eq_guestIpOf {cfg : Config} {env : AddressEnv} (hp : PrefixOk cfg env) {n : Int} (hn : n ≤ 254)
    {ip : String} (h : env.guestIp n = some ip) : ip = guestIpOf cfg n := by
  obtain ⟨h1, b, hb, rfl⟩ := guestIp_eq_some h
  obtain ⟨hcfg, b', hb', hpfx⟩ := hp
  obtain rfl := Option.some.inj (hb.symm.trans hb')
  have hhi : addrHi n = 0 := by unfold addrHi; omega
  have hlo : addrLo n = n := by unfold addrLo; omega
  rw [guestIpOf, hcfg, hhi, hlo, Int.add_zero, guestText, ← hpfx]

theorem guestIp_ne_guestIpOf {cfg : Config} {env : AddressEnv} (hp : PrefixOk cfg env) {n : Int} (hn : 254 < n)
    {ip : String} (h : env.guestIp n = some ip) : ip ≠ guestIpOf cfg n := by
  obtain ⟨h1, b, hb, rfl⟩ := guestIp_eq_some h
  obtain ⟨hcfg, b', hb', hpfx⟩ := hp
  obtain rfl := Option.some.inj (hb.symm.trans hb')
  have h0 := bashInt_nonneg hb
  have hhi : 0 < addrHi n := by unfold addrHi; omega
  intro he
  have htext : guestIpOf cfg n = guestText (octA env.pfx) b n := by
    rw [guestIpOf, hcfg, guestText, ← hpfx]
  obtain ⟨hb, -⟩ := guestText_inj (by omega) h0 (he.trans htext)
  omega

example : ({ subnetPrefix := "172.16" } : AddressEnv).guestIp 255 = some "172.17.1.2" := by decide

end OpenClaw
