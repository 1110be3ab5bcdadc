import OpenClaw.Lib.FirstMatch
import OpenClaw.Lib.Simulate

/-!
# Guest isolation on a host

The packet filter of a host as `launch-vm.sh` and the `restore` of `migrate-vm.sh` build it: for each guest, rules are
inserted at the top or appended at the end unless `iptables -C` finds them; no script removes one.

- `launchNet`, `restoreNet`: the network part of the two scripts.
- `netProtocol`: what a script may do, given the rules it has seen in place; it starts Firecracker only when all rules
  of the guest are.
- `guest_isolation`: in every run of such scripts, drops come first in `FORWARD`, and a guest is isolated from the
  moment its Firecracker starts.
-/

namespace OpenClaw

open Atomic FirstMatch

/-! ## Packets and rules -/

/-- An IPv4 network. -/
structure Cidr where
  addr : BitVec 32
  len : Nat
deriving DecidableEq

def Cidr.contains (n : Cidr) (ip : BitVec 32) : Bool := ip >>> (32 - n.len) = n.addr >>> (32 - n.len)

def ipv4 (a b c d : BitVec 8) : BitVec 32 := a ++ b ++ c ++ d

/-- `169.254.169.254` and `169.254.169.253`. -/
def imdsAddrs : List (BitVec 32) := [ipv4 169 254 169 254, ipv4 169 254 169 253]

/-- `--dports 80,8081,8899`. -/
def servicePorts : List Nat := [80, 8081, 8899]

structure Packet where
  inIface : String
  outIface : String
  dst : BitVec 32
  /-- The destination port of a TCP packet. -/
  tcpPort : Option Nat := none
  /-- Conntrack knows its connection. -/
  established : Bool := false

inductive Target
  | drop
  | accept
deriving DecidableEq

/-- A rule of the filter table; a field that is `none` matches everything. -/
structure FilterRule where
  inIface : Option String := none
  outIface : Option String := none
  dst : Option Cidr := none
  tcpPorts : Option (List Nat) := none
  /-- `-m conntrack --ctstate RELATED,ESTABLISHED`. -/
  established : Bool := false
  target : Target
deriving DecidableEq

/-- A name that ends in `+` matches every interface that begins with the rest. -/
def ifaceMatches (pat name : String) : Bool :=
  if pat.toList.getLast? = some '+' then pat.toList.dropLast.isPrefixOf name.toList else pat = name

def FilterRule.matches (r : FilterRule) (p : Packet) : Bool :=
  r.inIface.all (ifaceMatches · p.inIface) && r.outIface.all (ifaceMatches · p.outIface) &&
    r.dst.all (·.contains p.dst) && r.tcpPorts.all (fun ports => p.tcpPort.any ports.contains) &&
    (!r.established || p.established)

inductive Chain
  | forward
  | input
deriving DecidableEq

/-- The verdict of a chain; `none` leaves it to the policy. -/
abbrev filterVerdict (rules : List FilterRule) (p : Packet) : Option Target :=
  verdict FilterRule.matches FilterRule.target rules p

/-! ## The rules of a guest -/

/-- `tap-vm<n>`. -/
def tapName (vmNum : String) : String := "tap-vm" ++ vmNum

section Rules

variable (tap : String)

def imdsDrop (addr : BitVec 32) : FilterRule := { inIface := some tap, dst := some ⟨addr, 32⟩, target := .drop }

def establishedAccept : FilterRule := { established := true, target := .accept }

def egressAccept (iface : String) : FilterRule := { inIface := some tap, outIface := some iface, target := .accept }

def tapDrop : FilterRule := { inIface := some tap, outIface := some "tap-vm+", target := .drop }

def serviceDrop : FilterRule := { inIface := some tap, tcpPorts := some servicePorts, target := .drop }

def vpcDrop (vpc : Cidr) : FilterRule :=
  { inIface := some tap, dst := some vpc, tcpPorts := some servicePorts, target := .drop }

end Rules

/-! ## The scripts -/

/-- A statement of the network part of a script. -/
inductive NetOp
  /-- `iptables -C`. -/
  | check (c : Chain) (r : FilterRule)
  /-- `iptables -I <chain> 1`. -/
  | insert (c : Chain) (r : FilterRule)
  /-- `iptables -A`. -/
  | append (c : Chain) (r : FilterRule)
  /-- Any other command whose failure ends the script. -/
  | command (name : String)
  /-- The device of the default route. -/
  | hostIface
  /-- `vm_num` of the shipped `vm.json`. -/
  | srcVmNum
  /-- Start Firecracker for a VM on the tap. -/
  | startFc (tap : String)

abbrev NetOp.Ans : NetOp → Type
  | .check _ _ | .insert _ _ | .append _ _ | .command _ => Bool
  | .hostIface | .srcVmNum => Option String
  | .startFc _ => Unit

def Net : Sig := ⟨NetOp, NetOp.Ans⟩

abbrev NetProg := Prog Net

def net (op : NetOp) : NetProg op.Ans := @Prog.lift Net op

/-- What the scripts take from `/etc/platform.env`. -/
structure NetEnv where
  /-- `OC_VPC_CIDR`, when it was substituted. -/
  vpcCidr : Option Cidr

/-- A command, and what follows it under `set -e`. -/
def andThen (op : NetProg Bool) (k : NetProg Bool) : NetProg Bool := do
  let ok ← op
  if ok then k else pure false

/-- `iptables -C … || iptables -I … 1 …`. -/
def insertOnce (c : Chain) (r : FilterRule) (k : NetProg Bool) : NetProg Bool := do
  let found ← net (.check c r)
  if found then k else andThen (net (.insert c r)) k

/-- `iptables -C … || iptables -A …`. -/
def appendOnce (c : Chain) (r : FilterRule) (k : NetProg Bool) : NetProg Bool := do
  let found ← net (.check c r)
  if found then k else andThen (net (.append c r)) k

/-- Deny the fleet's listeners in the VPC; without the CIDR there is only a warning. -/
def denyVpc (env : NetEnv) (tap : String) (k : NetProg Bool) : NetProg Bool :=
  match env.vpcCidr with
  | some vpc => insertOnce .forward (vpcDrop tap vpc) k
  | none => k

/-- The filter rules of a guest, the same in both scripts. -/
def guestRules (env : NetEnv) (tap iface : String) (k : NetProg Bool) : NetProg Bool :=
  insertOnce .forward (imdsDrop tap (ipv4 169 254 169 254)) <|
  insertOnce .forward (imdsDrop tap (ipv4 169 254 169 253)) <|
  andThen (net (.command "iptables -t nat MASQUERADE")) <|
  appendOnce .forward establishedAccept <|
  appendOnce .forward (egressAccept tap iface) <|
  insertOnce .forward (tapDrop tap) <|
  insertOnce .input (serviceDrop tap) <|
  denyVpc env tap k

/-- `launch-vm.sh`. -/
def launchNet (env : NetEnv) (vmNum : Int) : NetProg Bool :=
  if vmNum < 1 then pure false
  else
    andThen (net (.command "address, disks and injection")) <|
    andThen (net (.command "ip tuntap add")) <|
    andThen (net (.command "ip addr add")) <|
    andThen (net (.command "ip link set up")) do
      let iface ← net .hostIface
      match iface with
      | none => pure false
      | some iface =>
        andThen (net (.command "sysctl ip_forward")) <|
        guestRules env (tapName (toString vmNum)) iface do
          let _ ← net (.startFc (tapName (toString vmNum)))
          net (.command "configure and InstanceStart")

/-- `migrate-vm.sh restore`: the tap is the one the snapshot was taken with. -/
def restoreNet (env : NetEnv) : NetProg Bool :=
  andThen (net (.command "fetch the snapshot and vm.json")) do
    let src ← net .srcVmNum
    match src with
    | none => pure false
    | some src => do
      let iface ← net .hostIface
      match iface with
      | none => pure false
      | some iface =>
        andThen (net (.command "ip tuntap add")) <|
        andThen (net (.command "ip addr add")) <|
        andThen (net (.command "ip link set up")) <|
        andThen (net (.command "sysctl ip_forward")) <|
        guestRules env (tapName src) iface do
          let _ ← net (.startFc (tapName src))
          net (.command "snapshot/load")

/-! ## The host -/

structure NetHost where
  chains : Chain → List FilterRule := fun _ => []
  /-- The device of the default route. -/
  uplink : String
  /-- The taps of the Firecracker processes started so far. -/
  fc : List String := []

def NetHost.setChain (w : NetHost) (c : Chain) (rules : List FilterRule) : NetHost :=
  { w with chains := Function.update w.chains c rules }

/-- A command that failed changed nothing. -/
def NetHost.step : (op : NetOp) → op.Ans → NetHost → NetHost → Prop
  | .check c r, ok, w, w' => (ok = true → r ∈ w.chains c) ∧ w' = w
  | .insert c r, ok, w, w' => if ok then w' = w.setChain c (r :: w.chains c) else w' = w
  | .append c r, ok, w, w' => if ok then w' = w.setChain c (w.chains c ++ [r]) else w' = w
  | .command _, _, w, w' => w' = w
  | .hostIface, r, w, w' => (∀ iface, r = some iface → iface = w.uplink) ∧ w' = w
  | .srcVmNum, _, w, w' => w' = w
  | .startFc tap, _, w, w' => w' = { w with fc := tap :: w.fc }

def netSem : Sem Net NetHost := ⟨NetHost.step⟩

inductive NetJob
  | launch (vmNum : Int)
  | restore

/-- Runs of the two scripts, of any number and in any interleaving. -/
def netJobs (env : NetEnv) : Jobs Net NetHost NetJob Bool where
  body
    | .launch n => launchNet env n
    | .restore => restoreNet env
  start _ w w' := w' = w

/-! ## What a script knows -/

/-- The rules that isolate a guest. -/
inductive Isolates (vpc : Cidr) : Chain → FilterRule → Prop
  | imds (tap : String) {addr : BitVec 32} (h : addr ∈ imdsAddrs) : Isolates vpc .forward (imdsDrop tap addr)
  | tap (tap : String) : Isolates vpc .forward (tapDrop tap)
  | vpc (tap : String) : Isolates vpc .forward (vpcDrop tap vpc)
  | service (tap : String) : Isolates vpc .input (serviceDrop tap)

/-- The rules that a guest on the tap needs. -/
def needed (vpc : Cidr) (uplink tap : String) : List (Chain × FilterRule) :=
  [(.forward, imdsDrop tap (ipv4 169 254 169 254)), (.forward, imdsDrop tap (ipv4 169 254 169 253)),
    (.forward, egressAccept tap uplink), (.forward, tapDrop tap), (.input, serviceDrop tap), (.forward, vpcDrop tap vpc)]

/-- A statement about a rule in place succeeded or not. -/
def learn (x : Chain × FilterRule) (ok : Bool) (known : List (Chain × FilterRule)) : List (Chain × FilterRule) :=
  if ok then x :: known else known

/-- The local state is the list of the rules that a script has found or put in place. -/
def netProtocol (vpc : Cidr) (uplink : String) : Protocol Net NetJob (List (Chain × FilterRule)) where
  init _ := []
  allow known
    | .insert c r => Isolates vpc c r
    | .append c r => c = .forward ∧ r.target = .accept
    | .startFc tap => ∀ x ∈ needed vpc uplink tap, x ∈ known
    | _ => True
  sane _
    | .hostIface, r => ∀ iface, r = some iface → iface = uplink
    | _, _ => True
  next known
    | .check c r, ok => learn (c, r) ok known
    | .insert c r, ok => learn (c, r) ok known
    | .append c r, ok => learn (c, r) ok known
    | _, _ => known

section Obeys

variable {vpc : Cidr} {uplink : String} {k : NetProg Bool} {known : List (Chain × FilterRule)} {c : Chain} {r : FilterRule}

/-- The scripts keep to the protocol, whatever they return. -/
abbrev Keeps (vpc : Cidr) (uplink : String) (p : NetProg Bool) (known : List (Chain × FilterRule)) : Prop :=
  p.obeys (netProtocol vpc uplink) (fun _ _ => True) known

theorem keeps_command {name : String} (hk : Keeps vpc uplink k known) :
    Keeps vpc uplink (andThen (net (.command name)) k) known := by
  refine ⟨trivial, fun ok _ => ?_⟩
  cases ok with
  | true => exact hk
  | false => exact trivial

theorem keeps_insertOnce (hr : Isolates vpc c r) (hk : Keeps vpc uplink k ((c, r) :: known)) :
    Keeps vpc uplink (insertOnce c r k) known := by
  refine ⟨trivial, fun found _ => ?_⟩
  cases found with
  | true => exact hk
  | false =>
    refine ⟨hr, fun ok _ => ?_⟩
    cases ok with
    | true => exact hk
    | false => exact trivial

theorem keeps_appendOnce (hr : r.target = .accept) (hk : Keeps vpc uplink k ((.forward, r) :: known)) :
    Keeps vpc uplink (appendOnce .forward r k) known := by
  refine ⟨trivial, fun found _ => ?_⟩
  cases found with
  | true => exact hk
  | false =>
    refine ⟨⟨rfl, hr⟩, fun ok _ => ?_⟩
    cases ok with
    | true => exact hk
    | false => exact trivial

/-- After its rules, a guest may be started. -/
theorem keeps_guestRules {tap name : String} : Keeps vpc uplink (guestRules ⟨some vpc⟩ tap uplink do
    let _ ← net (.startFc tap)
    net (.command name)) known := by
  refine keeps_insertOnce (.imds tap (by simp [imdsAddrs])) ?_
  refine keeps_insertOnce (.imds tap (by simp [imdsAddrs])) ?_
  refine keeps_command ?_
  refine keeps_appendOnce rfl ?_
  refine keeps_appendOnce rfl ?_
  refine keeps_insertOnce (.tap tap) ?_
  refine keeps_insertOnce (.service tap) ?_
  refine keeps_insertOnce (.vpc tap) ?_
  refine ⟨?_, fun _ _ => ⟨trivial, fun _ _ => trivial⟩⟩
  intro x hx
  simp only [needed, List.mem_cons, List.not_mem_nil, or_false] at hx ⊢
  tauto

theorem netJobs_keep (j : NetJob) : Keeps vpc uplink ((netJobs ⟨some vpc⟩).body j) [] := by
  cases j with
  | launch n =>
    show Keeps vpc uplink (launchNet ⟨some vpc⟩ n) []
    unfold launchNet
    split
    · exact trivial
    · refine keeps_command (keeps_command (keeps_command (keeps_command ⟨trivial, fun iface hi => ?_⟩)))
      cases iface with
      | none => exact trivial
      | some iface =>
        obtain rfl := hi iface rfl
        exact keeps_command keeps_guestRules
  | restore =>
    refine keeps_command ⟨trivial, fun src _ => ?_⟩
    cases src with
    | none => exact trivial
    | some src =>
      refine ⟨trivial, fun iface hi => ?_⟩
      cases iface with
      | none => exact trivial
      | some iface =>
        obtain rfl := hi iface rfl
        exact keeps_command (keeps_command (keeps_command (keeps_command keeps_guestRules)))

end Obeys

/-! ## The invariant -/

/-- Drops come first in `FORWARD`, every drop isolates some guest, and the rules of the guests are in place. -/
structure Isolated (vpc : Cidr) (uplink : String) (w : NetHost) : Prop where
  uplink_eq : w.uplink = uplink
  dropsFirst : Leading (fun r => r.target = .drop) (w.chains .forward)
  drops : ∀ c, ∀ r ∈ w.chains c, r.target = .drop → Isolates vpc c r
  input : ∀ r ∈ w.chains .input, r.target = .drop
  guests : ∀ tap ∈ w.fc, ∀ x ∈ needed vpc uplink tap, x.2 ∈ w.chains x.1

/-- The rules a script knows of are there. -/
def InPlace (known : List (Chain × FilterRule)) (w : NetHost) : Prop := ∀ x ∈ known, x.2 ∈ w.chains x.1

/-- No rule is removed. -/
def Grows (w w' : NetHost) : Prop := ∀ c, ∀ r ∈ w.chains c, r ∈ w'.chains c

section Invariant

variable {vpc : Cidr} {uplink : String} {known : List (Chain × FilterRule)} {w w' : NetHost} {c : Chain}
  {r : FilterRule} {ok : Bool}

theorem Isolates.target (h : Isolates vpc c r) : r.target = .drop := by cases h <;> rfl

theorem InPlace.grow (h : InPlace known w) (hg : Grows w w') : InPlace known w' := fun x hx => hg _ _ (h x hx)

theorem InPlace.learn (h : InPlace known w) (hr : ok = true → r ∈ w.chains c) : InPlace (learn (c, r) ok known) w := by
  cases ok with
  | true => exact List.forall_mem_cons.2 ⟨hr rfl, h⟩
  | false => exact h

theorem setChain_chains {rules : List FilterRule} (d : Chain) :
    (w.setChain c rules).chains d = if d = c then rules else w.chains d := by
  by_cases hd : d = c
  · subst hd
    simp [NetHost.setChain]
  · simp [NetHost.setChain, hd]

/-- One more rule in a chain. -/
theorem Isolated.add (h : Isolated vpc uplink w) {rules : List FilterRule} (hmem : ∀ x, x ∈ rules ↔ x = r ∨ x ∈ w.chains c)
    (hfirst : c = .forward → Leading (fun r => r.target = .drop) rules) (hdrop : r.target = .drop → Isolates vpc c r)
    (hinput : c = .input → r.target = .drop) :
    Isolated vpc uplink (w.setChain c rules) ∧ Grows w (w.setChain c rules) ∧ r ∈ (w.setChain c rules).chains c := by
  have hold : ∀ d, ∀ x ∈ (w.setChain c rules).chains d, d = c ∧ x = r ∨ x ∈ w.chains d := by
    intro d x hx
    rw [setChain_chains] at hx
    split at hx
    · rename_i hd
      subst hd
      rcases (hmem x).1 hx with hx | hx
      · exact .inl ⟨rfl, hx⟩
      · exact .inr hx
    · exact .inr hx
  have hgrow : Grows w (w.setChain c rules) := by
    intro d x hx
    rw [setChain_chains]
    split
    · rename_i hd
      subst hd
      exact (hmem x).2 (.inr hx)
    · exact hx
  refine ⟨⟨h.uplink_eq, ?_, fun d x hx ht => ?_, fun x hx => ?_, fun tap ht x hx => ?_⟩, hgrow, ?_⟩
  · rw [setChain_chains]
    split
    · rename_i hd
      exact hfirst hd.symm
    · exact h.dropsFirst
  · rcases hold d x hx with ⟨rfl, rfl⟩ | hx
    · exact hdrop ht
    · exact h.drops d x hx ht
  · rcases hold .input x hx with ⟨hc, rfl⟩ | hx
    · exact hinput hc.symm
    · exact h.input x hx
  · exact hgrow _ _ (h.guests tap ht x hx)
  · rw [setChain_chains, if_pos rfl]
    exact (hmem r).2 (.inl rfl)

/-- **What one statement preserves.** -/
theorem Isolated.step (h : Isolated vpc uplink w) (hk : InPlace known w) {op : NetOp} {a : op.Ans}
    (ha : (netProtocol vpc uplink).allow known op) (hs : netSem.step op a w w') :
    (netProtocol vpc uplink).sane known op a ∧ Isolated vpc uplink w' ∧
      InPlace ((netProtocol vpc uplink).next known op a) w' ∧ Grows w w' := by
  have hsame : Grows w w := fun _ _ hr => hr
  cases op with
  | check c r =>
    obtain ⟨hfound, rfl⟩ := hs
    exact ⟨trivial, h, hk.learn hfound, hsame⟩
  | insert c r =>
    have hi : Isolates vpc c r := ha
    cases a with
    | true =>
      obtain rfl : w' = w.setChain c (r :: w.chains c) := hs
      have hfirst : c = .forward → Leading (fun r => r.target = .drop) (r :: w.chains c) := by
        rintro rfl
        exact h.dropsFirst.cons hi.target
      obtain ⟨h', hg, hr⟩ := h.add (by simp) hfirst (fun _ => hi) fun _ => hi.target
      have hk' : InPlace (learn (c, r) true known) _ := (hk.grow hg).learn fun _ => hr
      exact ⟨trivial, h', hk', hg⟩
    | false =>
      obtain rfl : w' = w := hs
      exact ⟨trivial, h, hk, hsame⟩
  | append c r =>
    obtain ⟨rfl, htarget⟩ : c = .forward ∧ r.target = .accept := ha
    have hne : r.target ≠ .drop := by simp [htarget]
    cases a with
    | true =>
      obtain rfl : w' = w.setChain .forward (w.chains .forward ++ [r]) := hs
      have hmem : ∀ x, x ∈ w.chains .forward ++ [r] ↔ x = r ∨ x ∈ w.chains .forward := by simp [or_comm]
      have hinput : Chain.forward = .input → r.target = .drop := by simp
      obtain ⟨h', hg, hr⟩ := h.add hmem (fun _ => h.dropsFirst.snoc hne) (fun hd => absurd hd hne) hinput
      have hk' : InPlace (learn (.forward, r) true known) _ := (hk.grow hg).learn fun _ => hr
      exact ⟨trivial, h', hk', hg⟩
    | false =>
      obtain rfl : w' = w := hs
      exact ⟨trivial, h, hk, hsame⟩
  | command name =>
    obtain rfl : w' = w := hs
    exact ⟨trivial, h, hk, hsame⟩
  | hostIface =>
    obtain ⟨hi, rfl⟩ := hs
    exact ⟨fun iface he => (hi iface he).trans h.uplink_eq, h, hk, hsame⟩
  | srcVmNum =>
    obtain rfl : w' = w := hs
    exact ⟨trivial, h, hk, hsame⟩
  | startFc tap =>
    have hall : ∀ x ∈ needed vpc uplink tap, x ∈ known := ha
    obtain rfl : w' = { w with fc := tap :: w.fc } := hs
    refine ⟨trivial, ⟨h.uplink_eq, h.dropsFirst, h.drops, h.input, fun t ht x hx => ?_⟩, hk, hsame⟩
    rcases List.mem_cons.1 ht with rfl | ht
    · exact hk x (hall x hx)
    · exact h.guests t ht x hx

end Invariant

/-! ## Verdicts -/

/-- What a guest must not reach through the host. -/
def Forbidden (vpc : Cidr) (p : Packet) : Prop :=
  p.dst ∈ imdsAddrs ∨ ifaceMatches "tap-vm+" p.outIface = true ∨
    vpc.contains p.dst = true ∧ ∃ port ∈ servicePorts, p.tcpPort = some port

section Verdicts

variable {vpc : Cidr} {uplink tap : String} {w : NetHost} {p : Packet}

theorem ifaceMatches_self (name : String) : ifaceMatches name name = true := by
  unfold ifaceMatches
  split
  · exact List.isPrefixOf_iff_prefix.2 (List.dropLast_prefix _)
  · simp

theorem contains_host {a ip : BitVec 32} : (⟨a, 32⟩ : Cidr).contains ip = true ↔ ip = a := by
  simp [Cidr.contains]

theorem any_ports : p.tcpPort.any servicePorts.contains = true ↔ ∃ port ∈ servicePorts, p.tcpPort = some port := by
  cases p.tcpPort <;> simp

/-- A drop in `FORWARD` matches forbidden packets only. -/
theorem Isolates.forbidden {r : FilterRule} (h : Isolates vpc .forward r) (hm : r.matches p = true) : Forbidden vpc p := by
  cases h with
  | imds tap ha =>
    simp only [FilterRule.matches, imdsDrop, Option.all_some, Option.all_none, Bool.and_eq_true, contains_host] at hm
    exact .inl (hm.1.1.2 ▸ ha)
  | tap tap =>
    simp only [FilterRule.matches, tapDrop, Option.all_some, Option.all_none, Bool.and_eq_true] at hm
    exact .inr (.inl hm.1.1.1.2)
  | vpc tap =>
    simp only [FilterRule.matches, vpcDrop, Option.all_some, Option.all_none, Bool.and_eq_true, any_ports] at hm
    exact .inr (.inr ⟨hm.1.1.2, hm.1.2⟩)

/-- The drops of a guest match all its forbidden packets. -/
theorem Isolated.drop (h : Isolated vpc uplink w) (ht : tap ∈ w.fc) (hin : p.inIface = tap)
    (hf : Forbidden vpc p) : filterVerdict (w.chains .forward) p = some .drop := by
  have hself := ifaceMatches_self tap
  refine h.dropsFirst.verdict ?_
  rcases hf with hd | hout | ⟨hd, hport⟩
  · have hmem : (Chain.forward, imdsDrop tap p.dst) ∈ needed vpc uplink tap := by
      rcases List.mem_cons.1 hd with hd | hd
      · simp [needed, hd]
      · simp [needed, List.mem_singleton.1 hd]
    exact ⟨_, h.guests tap ht _ hmem, rfl, by simp [FilterRule.matches, imdsDrop, hin, hself, contains_host]⟩
  · have hmem : (Chain.forward, tapDrop tap) ∈ needed vpc uplink tap := by simp [needed]
    exact ⟨_, h.guests tap ht _ hmem, rfl, by simp [FilterRule.matches, tapDrop, hin, hself, hout]⟩
  · have hmem : (Chain.forward, vpcDrop tap vpc) ∈ needed vpc uplink tap := by simp [needed]
    refine ⟨_, h.guests tap ht _ hmem, rfl, ?_⟩
    have hp := any_ports.2 hport
    simp only [FilterRule.matches, vpcDrop, Option.all_some, Option.all_none, hin, hself, hd, hp]
    rfl

theorem Isolated.accept (h : Isolated vpc uplink w) (ht : tap ∈ w.fc) (hin : p.inIface = tap)
    (hout : p.outIface = w.uplink) (hf : ¬ Forbidden vpc p) : filterVerdict (w.chains .forward) p = some .accept := by
  have hmem : (Chain.forward, egressAccept tap uplink) ∈ needed vpc uplink tap := by simp [needed]
  refine verdict_of_all ⟨_, h.guests tap ht _ hmem, ?_⟩ fun r hr hm => ?_
  · simp [FilterRule.matches, egressAccept, hin, hout, h.uplink_eq, ifaceMatches_self]
  · cases htarget : r.target with
    | accept => rfl
    | drop => exact absurd ((h.drops _ r hr htarget).forbidden hm) hf

theorem Isolated.service (h : Isolated vpc uplink w) (ht : tap ∈ w.fc) (hin : p.inIface = tap)
    (hport : ∃ port ∈ servicePorts, p.tcpPort = some port) : filterVerdict (w.chains .input) p = some .drop := by
  have hmem : (Chain.input, serviceDrop tap) ∈ needed vpc uplink tap := by simp [needed]
  refine verdict_of_all ⟨_, h.guests tap ht _ hmem, ?_⟩ fun r hr _ => h.input r hr
  have hp := any_ports.2 hport
  simp only [FilterRule.matches, serviceDrop, Option.all_some, Option.all_none, hin, ifaceMatches_self, hp]
  rfl

end Verdicts

/-- The host before the first script. -/
def freshHost (uplink : String) : NetHost := { uplink := uplink }

/-- **Guest isolation survives any history** of launches and restores: drops come first in `FORWARD`; and once the
Firecracker on a tap was started, what comes in from the tap is dropped if it is forbidden or for the listeners of the
host, and accepted on its way out of the uplink otherwise. -/
theorem guest_isolation {ι : Type} [DecidableEq ι] {vpc : Cidr} {uplink : String} {tr : List (Ev Net NetJob ι)}
    {c : Conf Net NetHost NetJob ι Bool} (hr : Reach netSem (netJobs ⟨some vpc⟩) anyStep (Conf.idle (freshHost uplink)) tr c) :
    Leading (fun r => r.target = .drop) (c.world.chains .forward) ∧ ∀ tap ∈ c.world.fc, ∀ p : Packet, p.inIface = tap →
      (Forbidden vpc p → filterVerdict (c.world.chains .forward) p = some .drop) ∧
      ((∃ port ∈ servicePorts, p.tcpPort = some port) → filterVerdict (c.world.chains .input) p = some .drop) ∧
      (p.outIface = uplink → ¬ Forbidden vpc p → filterVerdict (c.world.chains .forward) p = some .accept) := by
  let π := netProtocol vpc uplink
  let I : List (Ev Net NetJob ι) → NetHost → Prop := fun tr w =>
    Isolated vpc uplink w ∧ ∀ i known, π.locs tr i = some known → InPlace known w
  have hinit : I [] (freshHost uplink) := by
    refine ⟨⟨rfl, .nil, fun c r hr => ?_, fun r hr => ?_, fun tap ht => ?_⟩, fun i known hi => ?_⟩
    · cases hr
    · cases hr
    · cases ht
    · cases hi
  have hstart : ∀ tr w i j w', I tr w → π.locs tr i = none → anyStep tr w (.start i j) →
      (netJobs ⟨some vpc⟩).start j w w' → I (tr ++ [.start i j]) w' := by
    intro tr w i j w' hI _ _ hw
    obtain rfl : w' = w := hw
    refine ⟨hI.1, fun k known hk => ?_⟩
    rw [Protocol.locs_snoc, Protocol.stepLoc] at hk
    by_cases he : k = i
    · subst he
      rw [Function.update_self] at hk
      obtain rfl := Option.some.inj hk
      exact fun x hx => by cases hx
    · rw [Function.update_of_ne he] at hk
      exact hI.2 k known hk
  have hcall : ∀ tr w i known op a w', I tr w → π.locs tr i = some known → π.allow known op →
      anyStep tr w (.call i op a) → netSem.step op a w w' → π.sane known op a ∧ I (tr ++ [.call i op a]) w' := by
    intro tr w i known op a w' hI hl ha _ hs
    obtain ⟨hsane, h', hk', hgrow⟩ := hI.1.step (hI.2 i known hl) ha hs
    refine ⟨hsane, h', fun k known' hk => ?_⟩
    rw [Protocol.locs_snoc, Protocol.stepLoc] at hk
    by_cases he : k = i
    · subst he
      rw [Function.update_self, hl] at hk
      obtain rfl := Option.some.inj hk
      exact hk'
    · rw [Function.update_of_ne he] at hk
      exact (hI.2 k known' hk).grow hgrow
  have h := (Reach.protocol netJobs_keep hinit hstart hcall hr).1.1
  refine ⟨h.dropsFirst, fun tap ht p hin => ⟨fun hf => h.drop ht hin hf, fun hp => h.service ht hin hp, fun hout hf => ?_⟩⟩
  exact h.accept ht hin (hout.trans h.uplink_eq.symm) hf

/-! ## A run -/

/-- Statements that succeed; the hint is the `vm_num` of the shipped `vm.json`. -/
def netOracle : Oracle netSem String where
  exec
    | .check c r, _, w => some (decide (r ∈ w.chains c), w)
    | .insert c r, _, w => some (true, w.setChain c (r :: w.chains c))
    | .append c r, _, w => some (true, w.setChain c (w.chains c ++ [r]))
    | .command _, _, w => some (true, w)
    | .hostIface, _, w => some (some w.uplink, w)
    | .srcVmNum, n, w => some (some n, w)
    | .startFc tap, _, w => some ((), { w with fc := tap :: w.fc })
  sound := by
    intro op n w w' a h
    cases op <;> obtain ⟨rfl, rfl⟩ := Prod.mk.inj (Option.some.inj h)
    case check => exact ⟨of_decide_eq_true, rfl⟩
    case hostIface => exact ⟨fun iface he => (Option.some.inj he).symm, rfl⟩
    all_goals rfl

/-- A launch and then a restore of a VM from another host. -/
def twoGuests : List (Move NetJob Nat String) :=
  .start 0 (.launch 1) :: List.replicate 22 (.call 0 "") ++ .start 1 .restore :: List.replicate 22 (.call 1 "7")

/-- The metadata service is out of reach of a guest that was launched before another one was restored. -/
theorem guest_isolation_two_guests : ∃ (tr : List (Ev Net NetJob Nat)) (c : Conf Net NetHost NetJob Nat Bool),
    Reach netSem (netJobs ⟨some ⟨ipv4 10 1 0 0, 16⟩⟩) anyStep (Conf.idle (freshHost "ens5")) tr c ∧
    c.world.fc = ["tap-vm7", "tap-vm1"] ∧
    filterVerdict (c.world.chains .forward) ⟨"tap-vm1", "ens5", ipv4 169 254 169 254, some 80, false⟩ = some .drop := by
  have hplay : ((netOracle.play (netJobs ⟨some ⟨ipv4 10 1 0 0, 16⟩⟩) (fun _ w => some w) (fun _ _ _ => true) []
      (Conf.idle (freshHost "ens5")) twoGuests).any fun x => decide (x.2.world.fc = ["tap-vm7", "tap-vm1"])) = true := by
    decide +kernel
  obtain ⟨tr, c, hr, hfc⟩ :=
    Oracle.exists_reach_of_play (fun _ _ _ h => (Option.some.inj h).symm) (fun _ _ _ _ => trivial) hplay
  have hfc : c.world.fc = ["tap-vm7", "tap-vm1"] := of_decide_eq_true hfc
  obtain ⟨-, hguests⟩ := guest_isolation hr
  have hguest := hguests "tap-vm1" (by simp [hfc]) ⟨"tap-vm1", "ens5", ipv4 169 254 169 254, some 80, false⟩ rfl
  exact ⟨tr, c, hr, hfc, hguest.1 (.inl (by simp [imdsAddrs]))⟩

end OpenClaw
