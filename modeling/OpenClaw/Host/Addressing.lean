import OpenClaw.Host.Address
import OpenClaw.Host.Isolation

/-!
# Guest addressing

`launch-vm.sh` spreads the number of a VM over two octets of its address and two bytes of its MAC address, with the 64-bit
arithmetic of the shell. A number beyond 64 bits fails the test for numbers below 1 as no integer at all, and goes on
modulo `2 ^ 64`.

- `launchAddress`, `restoreFallback`: the addressing of `launch-vm.sh` and of `migrate-vm.sh restore`.
- `launchAddress_guestIp`: on the numbers of the shell it is the address of the other modules.
- `guest_addressing`: for which numbers on a host everything that the addressing promises holds.
-/

namespace OpenClaw

/-! ## The arithmetic of the shell -/

/-- The integers of the shell have 64 bits. -/
def Int64Range (n : Int) : Prop := -2 ^ 63 ≤ n ∧ n < 2 ^ 63

instance : DecidablePred Int64Range := fun n => inferInstanceAs (Decidable (-2 ^ 63 ≤ n ∧ n < 2 ^ 63))

/-- The value of a number in `$((...))`. -/
def bash64 (n : Int) : Int := n.bmod (2 ^ 64)

/-- `[ n -lt m ]`; what is no integer of the shell fails the test. -/
def testLt (n m : Int) : Bool := Int64Range n ∧ n < m

/-- `(VM_NUM - 1)`. -/
def numOffset (vmNum : Int) : Int := bash64 (bash64 vmNum - 1)

/-- `_HI`; division goes toward zero. -/
def splitHi (vmNum : Int) : Int := (numOffset vmNum).tdiv 254

/-- `_LO`. -/
def splitLo (vmNum : Int) : Int := (numOffset vmNum).tmod 254 + 1

/-- `printf '%02x'`. -/
def hex2 (n : Int) : String :=
  String.ofList (if (Nat.toDigits 16 (n % 2 ^ 64).toNat).length < 2 then '0' :: Nat.toDigits 16 (n % 2 ^ 64).toNat
    else Nat.toDigits 16 (n % 2 ^ 64).toNat)

/-! ## The scripts -/

/-- What `launch-vm.sh` derives for a number. -/
structure GuestAddr where
  a : String
  b : Int
  lo : Int
  hi : Int
  vmNum : Int
deriving DecidableEq

/-- `<A>.<B>.<LO>.1`. -/
def tapText (a : String) (b lo : Int) : String := a ++ "." ++ toString b ++ "." ++ toString lo ++ ".1"

/-- `GUEST_IP`. -/
def GuestAddr.guestIp (g : GuestAddr) : String := guestText g.a g.b g.lo

/-- `HOST_TAP_IP`. -/
def GuestAddr.hostTapIp (g : GuestAddr) : String := tapText g.a g.b g.lo

/-- `GUEST_MAC`. -/
def GuestAddr.guestMac (g : GuestAddr) : String := "AA:FC:00:00:" ++ hex2 g.hi ++ ":" ++ hex2 g.lo

/-- `TAP`. -/
def GuestAddr.tap (g : GuestAddr) : String := tapName (toString g.vmNum)

/-- The addressing of `launch-vm.sh`; `none` when it exits. -/
def launchAddress (env : AddressEnv) (vmNum : Int) : Option GuestAddr :=
  if testLt vmNum 1 then none
  else
    match bashInt (octB env.pfx) with
    | none => none
    | some b =>
      if 255 < bash64 (b + splitHi vmNum) then none
      else if env.vpc = some (octA env.pfx, toString (bash64 (b + splitHi vmNum))) then none
      else some ⟨octA env.pfx, bash64 (b + splitHi vmNum), splitLo vmNum, splitHi vmNum, vmNum⟩

/-- The fallback of `migrate-vm.sh restore`: `R_GUEST_IP` and `R_HOST_TAP_IP` without a recorded `guest_ip`. -/
def restoreFallback (env : AddressEnv) (srcVmNum : Int) : Option (String × String) :=
  (bashInt (octB env.pfx)).map fun b =>
    (guestText (octA env.pfx) (bash64 (b + splitHi srcVmNum)) (splitLo srcVmNum),
      tapText (octA env.pfx) (bash64 (b + splitHi srcVmNum)) (splitLo srcVmNum))

/-- A statement of `launch-vm.sh` that changes something, up to the cleanup of the previous instance. -/
inductive HeadStmt
  | mkdir
  | rmStopped
  | exit (status : Nat)
  | writeVmJson (vmNum : Int) (guestIp : String)
  | pkill
  | linkDel (tap : String)
  | rmSock
deriving DecidableEq

/-- It changes something other than the VM directory. -/
def HeadStmt.outside : HeadStmt → Bool
  | .pkill | .linkDel _ => true
  | _ => false

/-- The statements that are executed for a number. -/
def launchHead (env : AddressEnv) (vmNum : Int) : List HeadStmt :=
  [.mkdir, .rmStopped] ++ (launchAddress env vmNum).elim [.exit 64]
    fun g => [.writeVmJson vmNum g.guestIp, .pkill, .linkDel g.tap, .rmSock]

/-! ## What the addressing promises -/

/-- `OC_VPC_CIDR` is configured as this network. -/
def AddressEnv.VpcIs (env : AddressEnv) (c : Cidr) : Prop :=
  ∃ p q r s : BitVec 8, c.addr = ipv4 p q r s ∧ env.vpc = some (toString p.toNat, toString q.toNat)

/-- What is derived for one number from the prefix `A.B`. -/
structure GoodAddr (env : AddressEnv) (A B : Nat) (n : Int) (g : GuestAddr) : Prop where
  octets : g.a = toString A ∧ (0 ≤ g.b ∧ g.b ≤ 255) ∧ 0 ≤ g.lo ∧ g.lo ≤ 255
  macBytes : 0 ≤ g.hi ∧ g.hi ≤ 255
  link : ∃ net, g.guestIp = net ++ ".2" ∧ g.hostTapIp = net ++ ".1"
  small : 1 ≤ n → n ≤ 254 → g.guestIp = toString A ++ "." ++ toString B ++ "." ++ toString n ++ ".2" ∧
    g.guestMac = "AA:FC:00:00:00:" ++ hex2 n
  vpc : ∀ c, env.VpcIs c → 16 ≤ c.len → c.len ≤ 32 →
    ∀ d, c.contains (ipv4 (.ofNat 8 A) (.ofInt 8 g.b) (.ofInt 8 g.lo) d) = false
  restore : restoreFallback env n = some (g.guestIp, g.hostTapIp)

/-- Every number of the host is refused before anything outside the VM directory changes, or gets a good address; no two
share their /24 network, MAC address or tap. -/
structure AddressesRight (env : AddressEnv) (A B : Nat) (nums : Set Int) : Prop where
  refused : ∀ n ∈ nums, launchAddress env n = none →
    .exit 64 ∈ launchHead env n ∧ ∀ s ∈ launchHead env n, s.outside = false
  derived : ∀ n ∈ nums, ∀ g, launchAddress env n = some g → GoodAddr env A B n g
  distinct : ∀ n ∈ nums, ∀ m ∈ nums, n ≠ m → ∀ g g', launchAddress env n = some g → launchAddress env m = some g' →
    (g.b, g.lo) ≠ (g'.b, g'.lo) ∧ g.guestMac ≠ g'.guestMac ∧ g.tap ≠ g'.tap

/-- To the shell the accepted numbers are not negative, and different. -/
structure ShellNumbers (env : AddressEnv) (nums : Set Int) : Prop where
  nonneg : ∀ n ∈ nums, launchAddress env n ≠ none → 0 ≤ bash64 n
  inj : ∀ n ∈ nums, ∀ m ∈ nums, launchAddress env n ≠ none → launchAddress env m ≠ none → bash64 n = bash64 m → n = m

section Arithmetic

variable {n m : Int}

theorem bash64_range (n : Int) : Int64Range (bash64 n) := by
  have h₁ := @Int.le_bmod n (2 ^ 64) (by decide)
  have h₂ := @Int.bmod_lt n (2 ^ 64) (by decide)
  norm_num at h₁ h₂
  constructor
  · unfold bash64
    norm_num
    exact h₁
  · unfold bash64
    norm_num
    exact h₂

/-- The integers of the shell have their own values. -/
theorem bash64_of_range (h : Int64Range n) : bash64 n = n := by
  obtain ⟨h₁, h₂⟩ := h
  exact Int.bmod_eq_of_le (by norm_num; omega) (by norm_num; omega)

/-- The offset of a number that is not negative. -/
theorem numOffset_of_nonneg (h : 0 ≤ bash64 n) : numOffset n = bash64 n - 1 := by
  obtain ⟨-, hr⟩ := bash64_range n
  refine bash64_of_range ⟨?_, ?_⟩
  · norm_num
    omega
  · norm_num at hr ⊢
    omega

/-- Both parts together are the offset. -/
theorem numOffset_split (n : Int) : numOffset n = 254 * splitHi n + (splitLo n - 1) := by
  have h := Int.mul_tdiv_add_tmod (numOffset n) 254
  unfold splitHi splitLo
  omega

theorem splitLo_of_nonneg (h : 0 ≤ numOffset n) : 1 ≤ splitLo n ∧ splitLo n ≤ 254 := by
  have h₁ := Int.tmod_nonneg 254 h
  have h₂ := Int.tmod_lt_of_pos (numOffset n) (b := 254) (by decide)
  unfold splitLo
  omega

end Arithmetic

/-! ## Texts -/

section Texts

/-- The octets of a prefix. -/
theorem octets_of_prefix {pfx : String} {A B : Nat} (hB : B ≤ 255) (h : pfx = toString A ++ "." ++ toString B) :
    octA pfx = toString A ∧ bashInt (octB pfx) = some (B : Int) := by
  have hdigits : ∀ n : Nat, '.' ∉ (toString n).toList := fun n => dot_notMem (Int.natCast_nonneg n)
  have hl : pfx.toList = (toString A).toList ++ '.' :: (toString B).toList := by simp [h]
  have hne : ∀ n : Nat, ∀ c ∈ (toString n).toList, (decide (c ≠ '.')) = true := by
    intro n c hc
    refine decide_eq_true fun he => hdigits n ?_
    rw [← he]
    exact hc
  constructor
  · rw [octA, hl, List.takeWhile_append_of_pos (hne A), List.takeWhile_cons_of_neg (by simp), List.append_nil,
      String.ofList_toList]
  · have hb : octB pfx = (toString B).toList := by
      rw [octB, hl, List.reverse_append, List.reverse_cons, List.append_assoc, List.takeWhile_append_of_pos]
      · simp
      · intro c hc
        exact hne B c (List.mem_reverse.1 hc)
    have hall : ∀ b : Fin 256, bashInt (toString b.val).toList = some (b.val : Int) := by decide +kernel
    rw [hb]
    exact hall ⟨B, by omega⟩

/-- Two hexadecimal digits. -/
def unhex (s : String) : Nat :=
  s.toList.foldl (fun n c => 16 * n + (if c.isDigit then c.toNat - 48 else c.toNat - 87)) 0

theorem hex2_byte : ∀ n : Fin 256, (hex2 (n.val : Int)).toList.length = 2 ∧ unhex (hex2 (n.val : Int)) = n.val := by
  decide +kernel

theorem hex2_length {n : Int} (h : 0 ≤ n) (h' : n ≤ 255) : (hex2 n).toList.length = 2 := by
  obtain ⟨k, rfl⟩ := Int.eq_ofNat_of_zero_le h
  exact (hex2_byte ⟨k, by omega⟩).1

theorem hex2_inj {n m : Int} (hn : 0 ≤ n) (hn' : n ≤ 255) (hm : 0 ≤ m) (hm' : m ≤ 255) (h : hex2 n = hex2 m) : n = m := by
  obtain ⟨k, rfl⟩ := Int.eq_ofNat_of_zero_le hn
  obtain ⟨j, rfl⟩ := Int.eq_ofNat_of_zero_le hm
  have hk := (hex2_byte ⟨k, by omega⟩).2
  have hj := (hex2_byte ⟨j, by omega⟩).2
  simp only at hk hj
  rw [h] at hk
  exact_mod_cast hk.symm.trans hj

/-- MAC addresses of bytes in range tell the bytes. -/
theorem guestMac_inj {g g' : GuestAddr} (hh : 0 ≤ g.hi ∧ g.hi ≤ 255) (hh' : 0 ≤ g'.hi ∧ g'.hi ≤ 255)
    (hl : 0 ≤ g.lo ∧ g.lo ≤ 255) (hl' : 0 ≤ g'.lo ∧ g'.lo ≤ 255) (h : g.guestMac = g'.guestMac) :
    g.hi = g'.hi ∧ g.lo = g'.lo := by
  have htext := congrArg String.toList h
  simp only [GuestAddr.guestMac, String.toList_append, List.append_assoc, List.append_cancel_left_eq] at htext
  have hlen : (hex2 g.hi).toList.length = (hex2 g'.hi).toList.length :=
    (hex2_length hh.1 hh.2).trans (hex2_length hh'.1 hh'.2).symm
  obtain ⟨hhi, hrest⟩ := List.append_inj htext hlen
  refine ⟨hex2_inj hh.1 hh.2 hh'.1 hh'.2 (String.toList_inj.1 hhi), ?_⟩
  exact hex2_inj hl.1 hl.2 hl'.1 hl'.2 (String.toList_inj.1 (List.append_cancel_left hrest))

end Texts

/-! ## Networks -/

section Networks

variable {p q r s p' q' r' s' : BitVec 8}

/-- The first two octets are the upper half. -/
theorem ipv4_upper (h : ipv4 p q r s >>> 16 = ipv4 p' q' r' s' >>> 16) : p = p' ∧ q = q' := by
  have hbit : ∀ i, (ipv4 p q r s >>> 16).getLsbD i = (ipv4 p' q' r' s' >>> 16).getLsbD i := fun i => by rw [h]
  simp only [ipv4, BitVec.getLsbD_ushiftRight, BitVec.getLsbD_append] at hbit
  constructor
  · refine BitVec.eq_of_getLsbD_eq fun i hi => ?_
    have hi' := hbit (8 + i)
    simpa [show ¬ 16 + (8 + i) < 8 by omega, show ¬ 16 + (8 + i) - 8 < 8 by omega,
      show ¬ 16 + (8 + i) - 8 - 8 < 8 by omega, show 16 + (8 + i) - 8 - 8 - 8 = i by omega] using hi'
  · refine BitVec.eq_of_getLsbD_eq fun i hi => ?_
    have hi' := hbit i
    simpa [show ¬ 16 + i < 8 by omega, show ¬ 16 + i - 8 < 8 by omega, show 16 + i - 8 - 8 < 8 by omega,
      show 16 + i - 8 - 8 = i by omega, hi] using hi'

/-- A network of 16 bits or more has its first two octets. -/
theorem Cidr.upper_of_contains {c : Cidr} (haddr : c.addr = ipv4 p q r s) (h16 : 16 ≤ c.len) (h32 : c.len ≤ 32)
    (h : c.contains (ipv4 p' q' r' s') = true) : p' = p ∧ q' = q := by
  have hshift := of_decide_eq_true h
  have hmore := congrArg (fun x : BitVec 32 => x >>> (16 - (32 - c.len))) hshift
  simp only [← BitVec.shiftRight_add, show 32 - c.len + (16 - (32 - c.len)) = 16 by omega] at hmore
  rw [haddr] at hmore
  exact ipv4_upper hmore

end Networks

/-! ## The addressing -/

section Addressing

variable {env : AddressEnv} {A B : Nat} {n m : Int} {g g' : GuestAddr}

/-- What is derived for an accepted number. -/
theorem launchAddress_eq_some (hB : B ≤ 255) (hpfx : env.pfx = toString A ++ "." ++ toString B)
    (h : launchAddress env n = some g) :
    g = ⟨toString A, bash64 (B + splitHi n), splitLo n, splitHi n, n⟩ ∧ testLt n 1 = false ∧
      bash64 (B + splitHi n) ≤ 255 ∧ env.vpc ≠ some (toString A, toString (bash64 (B + splitHi n))) := by
  obtain ⟨hA, hb⟩ := octets_of_prefix hB hpfx
  unfold launchAddress at h
  split at h
  · cases h
  · rename_i hlt
    rw [hA, hb] at h
    simp only at h
    split at h
    · cases h
    · split at h
      · cases h
      · rename_i hover hvpc
        exact ⟨(Option.some.inj h).symm, by simpa using hlt, not_lt.1 hover, hvpc⟩

/-- The value of an accepted number of the shell. -/
theorem bash64_pos_of_accepted (hr : Int64Range n) (h : launchAddress env n ≠ none) : 1 ≤ n := by
  by_contra hn
  refine h ?_
  rw [launchAddress, if_pos]
  exact decide_eq_true ⟨hr, by omega⟩

/-- A number that the shell does not see as negative, and that does not overflow. -/
structure SplitOk (B : Nat) (n : Int) : Prop where
  hi : 0 ≤ splitHi n ∧ splitHi n ≤ 255
  lo : 0 ≤ splitLo n ∧ splitLo n ≤ 254
  /-- Only `0` gets no host part. -/
  zero : splitLo n = 0 → splitHi n = 0
  octet : bash64 (B + splitHi n) = B + splitHi n
  value : bash64 n = 254 * splitHi n + splitLo n

theorem splitOk_of_nonneg (hB : B ≤ 255) (h : 0 ≤ bash64 n) (hover : bash64 (B + splitHi n) ≤ 255) : SplitOk B n := by
  have hoff := numOffset_of_nonneg h
  have hsplit := numOffset_split n
  obtain ⟨-, hr⟩ := bash64_range n
  norm_num at hr
  have hlo : 0 ≤ splitLo n ∧ splitLo n ≤ 254 ∧ 0 ≤ splitHi n ∧ (splitLo n = 0 → splitHi n = 0) := by
    by_cases h0 : bash64 n = 0
    · have hneg : numOffset n = -1 := by omega
      have hhi : splitHi n = 0 := by
        rw [splitHi, hneg]
        rfl
      omega
    · obtain ⟨h₁, h₂⟩ := splitLo_of_nonneg (show 0 ≤ numOffset n by omega)
      omega
  have hoctet : bash64 (B + splitHi n) = B + splitHi n := by
    refine bash64_of_range ⟨?_, ?_⟩
    · norm_num
      omega
    · norm_num
      omega
  exact ⟨⟨hlo.2.2.1, by omega⟩, ⟨hlo.1, hlo.2.1⟩, hlo.2.2.2, hoctet, by omega⟩

/-- **A good address.** -/
theorem goodAddr_of_nonneg (hA : A ≤ 255) (hB : B ≤ 255) (hpfx : env.pfx = toString A ++ "." ++ toString B)
    (h : launchAddress env n = some g) (hn : 0 ≤ bash64 n) : GoodAddr env A B n g := by
  obtain ⟨rfl, hlt, hover, hvpc⟩ := launchAddress_eq_some hB hpfx h
  have hok := splitOk_of_nonneg hB hn hover
  obtain ⟨hoctA, hoctB⟩ := octets_of_prefix hB hpfx
  have hhi := hok.hi
  have hlo := hok.lo
  have hb := hok.octet
  refine ⟨⟨rfl, ⟨?_, hover⟩, hlo.1, ?_⟩, hhi, ⟨_, rfl, rfl⟩, fun h1 h254 => ?_, ?_, ?_⟩
  · simp only [hb]
    omega
  · simp only
    omega
  · have hval : bash64 n = n := bash64_of_range ⟨by norm_num; omega, by norm_num; omega⟩
    have hval' := hok.value
    have hzero := hok.zero
    have h0 : splitHi n = 0 := by omega
    have hself : splitLo n = n := by omega
    have hB' : bash64 (B + splitHi n) = B := by omega
    have hzeros : "AA:FC:00:00:" ++ hex2 0 ++ ":" = "AA:FC:00:00:00:" := by decide
    simp only [GuestAddr.guestIp, GuestAddr.guestMac, guestText, hB']
    rw [h0, hself, hzeros]
    exact ⟨rfl, rfl⟩
  · intro c hc h16 h32 d
    obtain ⟨p, q, r, s, haddr, hconf⟩ := hc
    refine Bool.eq_false_iff.2 fun hin => hvpc ?_
    obtain ⟨rfl, rfl⟩ := Cidr.upper_of_contains haddr h16 h32 hin
    obtain ⟨k, hk⟩ := Int.eq_ofNat_of_zero_le (show 0 ≤ (B : Int) + splitHi n by omega)
    simp only [hb] at hover ⊢
    have hAv : (BitVec.ofNat 8 A).toNat = A := by
      rw [BitVec.toNat_ofNat]
      omega
    have hBv : (BitVec.ofInt 8 ((B : Int) + splitHi n)).toNat = k := by
      rw [hk, BitVec.ofInt_natCast, BitVec.toNat_ofNat]
      omega
    rw [hconf, hAv]
    simp only [hb] at hBv ⊢
    rw [hBv, hk]
    rfl
  · rw [restoreFallback, hoctB, hoctA]
    rfl

/-- A good address has a number that the shell does not see as negative. -/
theorem nonneg_of_goodAddr (hB : B ≤ 255) (hpfx : env.pfx = toString A ++ "." ++ toString B)
    (h : launchAddress env n = some g) (hg : GoodAddr env A B n g) : 0 ≤ bash64 n := by
  obtain ⟨rfl, -, -, -⟩ := launchAddress_eq_some hB hpfx h
  obtain ⟨hlo, -⟩ := hg.octets.2.2
  obtain ⟨hhi, hhi'⟩ := hg.macBytes
  simp only at hlo hhi hhi'
  have hsplit := numOffset_split n
  obtain ⟨hr, hr'⟩ := bash64_range n
  norm_num at hr hr'
  by_contra hneg
  by_cases hmin : bash64 n = -9223372036854775808
  · have hoff : numOffset n = 9223372036854775807 := by
      rw [numOffset, hmin]
      decide
    have hhuge : 255 < splitHi n := by
      rw [splitHi, hoff]
      decide
    omega
  · have hoff : numOffset n = bash64 n - 1 := by
      refine bash64_of_range ⟨?_, ?_⟩
      · norm_num
        omega
      · norm_num
        omega
    omega

/-- Different values of the shell have different networks, MAC addresses and taps. -/
theorem distinct_of_values (hB : B ≤ 255) (hpfx : env.pfx = toString A ++ "." ++ toString B)
    (h : launchAddress env n = some g) (h' : launchAddress env m = some g') (hn : 0 ≤ bash64 n) (hm : 0 ≤ bash64 m)
    (hne : bash64 n ≠ bash64 m) :
    (g.b, g.lo) ≠ (g'.b, g'.lo) ∧ g.guestMac ≠ g'.guestMac ∧ g.tap ≠ g'.tap := by
  obtain ⟨rfl, -, hover, -⟩ := launchAddress_eq_some hB hpfx h
  obtain ⟨rfl, -, hover', -⟩ := launchAddress_eq_some hB hpfx h'
  have hok := splitOk_of_nonneg hB hn hover
  have hok' := splitOk_of_nonneg hB hm hover'
  have hlo : 0 ≤ splitLo n ∧ splitLo n ≤ 255 := ⟨hok.lo.1, by have h := hok.lo.2; omega⟩
  have hlo' : 0 ≤ splitLo m ∧ splitLo m ≤ 255 := ⟨hok'.lo.1, by have h := hok'.lo.2; omega⟩
  have hval := hok.value
  have hval' := hok'.value
  have hzero := hok.zero
  have hzero' := hok'.zero
  refine ⟨fun he => hne ?_, fun he => hne ?_, fun he => hne ?_⟩
  · simp only [Prod.mk.injEq] at he
    obtain ⟨hb, hl⟩ := he
    have ho := hok.octet
    have ho' := hok'.octet
    omega
  · obtain ⟨hh, hl⟩ := guestMac_inj hok.hi hok'.hi hlo hlo' he
    simp only at hh hl
    omega
  · simp only [GuestAddr.tap, tapName] at he
    have hl := congrArg String.toList he
    simp only [String.toList_append, List.append_cancel_left_eq] at hl
    rw [Int.repr_injective (String.toList_inj.1 hl)]

/-- A refused number. -/
theorem launchHead_refused (h : launchAddress env n = none) :
    .exit 64 ∈ launchHead env n ∧ ∀ s ∈ launchHead env n, s.outside = false := by
  rw [launchHead, h]
  refine ⟨List.mem_append_right _ List.mem_cons_self, fun s hs => ?_⟩
  simp only [Option.elim_none, List.cons_append, List.nil_append, List.mem_cons, List.not_mem_nil, or_false] at hs
  rcases hs with rfl | rfl | rfl <;> rfl

end Addressing

/-- On the numbers of the shell this is the address of the other modules. -/
theorem launchAddress_guestIp {env : AddressEnv} {A B : Nat} (hB : B ≤ 255)
    (hpfx : env.pfx = toString A ++ "." ++ toString B) {n : Int} (hr : Int64Range n) :
    (launchAddress env n).map GuestAddr.guestIp = env.guestIp n := by
  obtain ⟨-, hb⟩ := octets_of_prefix hB hpfx
  unfold launchAddress AddressEnv.guestIp
  by_cases h1 : n < 1
  · have hlt : testLt n 1 = true := decide_eq_true ⟨hr, h1⟩
    rw [if_pos hlt, if_pos h1]
    rfl
  · have hlt : ¬ testLt n 1 = true := by simp [testLt, h1]
    have hoff : numOffset n = n - 1 := by
      rw [numOffset_of_nonneg (by rw [bash64_of_range hr]; omega), bash64_of_range hr]
    have hhi : splitHi n = addrHi n := by
      rw [splitHi, hoff, addrHi, Int.tdiv_eq_ediv_of_nonneg (by omega)]
    have hlo : splitLo n = addrLo n := by
      rw [splitLo, hoff, addrLo, Int.tmod_eq_emod_of_nonneg (by omega)]
    have hoctet : bash64 (B + addrHi n) = B + addrHi n := by
      obtain ⟨-, hmax⟩ := hr
      refine bash64_of_range ⟨?_, ?_⟩
      · unfold addrHi
        norm_num
        omega
      · unfold addrHi
        norm_num at hmax ⊢
        omega
    rw [if_neg hlt, if_neg h1, hb, hhi, hlo]
    simp only [hoctet]
    split
    · rfl
    · split
      · rfl
      · rfl

/-- **Guest addressing.** From any prefix of two octets, with or without a VPC network, all is right for the numbers of a
host exactly when the accepted ones are not negative and different to the shell. -/
theorem guest_addressing {env : AddressEnv} {A B : Nat} (hA : A ≤ 255) (hB : B ≤ 255)
    (hpfx : env.pfx = toString A ++ "." ++ toString B) (nums : Set Int) :
    AddressesRight env A B nums ↔ ShellNumbers env nums := by
  constructor
  · intro h
    refine ⟨fun n hn hacc => ?_, fun n hn m hm hacc hacc' hsame => ?_⟩
    · obtain ⟨g, hg⟩ := Option.ne_none_iff_exists'.1 hacc
      exact nonneg_of_goodAddr hB hpfx hg (h.derived n hn g hg)
    · by_contra hne
      obtain ⟨g, hg⟩ := Option.ne_none_iff_exists'.1 hacc
      obtain ⟨g', hg'⟩ := Option.ne_none_iff_exists'.1 hacc'
      refine (h.distinct n hn m hm hne g g' hg hg').1 ?_
      obtain ⟨rfl, -⟩ := launchAddress_eq_some hB hpfx hg
      obtain ⟨rfl, -⟩ := launchAddress_eq_some hB hpfx hg'
      simp only [splitHi, splitLo, numOffset, hsame]
  · intro h
    refine ⟨fun n _ hnone => launchHead_refused hnone, fun n hn g hg => ?_, fun n hn m hm hne g g' hg hg' => ?_⟩
    · exact goodAddr_of_nonneg hA hB hpfx hg (h.nonneg n hn (by simp [hg]))
    · have hacc : launchAddress env n ≠ none := by simp [hg]
      have hacc' : launchAddress env m ≠ none := by simp [hg']
      refine distinct_of_values hB hpfx hg hg' (h.nonneg n hn hacc) (h.nonneg m hm hacc') fun hsame => hne ?_
      exact h.inj n hn m hm hacc hacc' hsame

/-- The integers of the shell meet the condition. -/
theorem shellNumbers_int64 (env : AddressEnv) : ShellNumbers env {n | Int64Range n} where
  nonneg n hn hacc := by
    have hpos := bash64_pos_of_accepted hn hacc
    rw [bash64_of_range hn]
    omega
  inj n hn m hm _ _ hsame := by
    rwa [bash64_of_range hn, bash64_of_range hm] at hsame

theorem guest_addressing_int64 : AddressesRight { subnetPrefix := "172.16" } 172 16 {n | Int64Range n} :=
  (guest_addressing (by decide) (by decide) (by decide) _).2 (shellNumbers_int64 _)

/-- Beyond 64 bits a number is taken for 1, and shares its network. -/
theorem number_wraps : ¬ AddressesRight {} 10 0 Set.univ := by
  intro h
  have h1 : launchAddress {} 1 = some ⟨"10", 0, 1, 0, 1⟩ := by decide
  have h2 : launchAddress {} (2 ^ 64 + 1) = some ⟨"10", 0, 1, 0, 2 ^ 64 + 1⟩ := by decide
  exact (h.distinct 1 trivial (2 ^ 64 + 1) trivial (by decide) _ _ h1 h2).1 rfl

end OpenClaw
