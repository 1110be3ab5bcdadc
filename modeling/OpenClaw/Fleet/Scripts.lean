import OpenClaw.Fleet.Network

/-!
# Scripts at work

A launch boots its VM after it has killed the tenant's old one, and a live restore loads its VM after it has fetched
`vm.json`. Between the two the launch or the restore is under way (`underway`).

- `startsAlone`: a launch or a restore begins where no other of the same tenant is under way, and a live restore where
  the tenant has no VM.
- `ScriptsInv`: then a tenant never has two VMs on a host, whatever order the statements of the scripts come in.
-/

namespace OpenClaw

variable {env : AddressEnv} {f f' : FleetNet} {h : HostId} {a : NetAct} {rest acts : List NetAct} {tid : TenantId}

/-! ## What a statement does -/

/-- The VM that a statement starts. -/
def NetAct.starts (env : AddressEnv) (f : FleetNet) : NetAct → Option NetVm
  | .boot tid n => (env.guestIp n).map fun ip => ⟨tid, n, ip⟩
  | .load tid _ uri => (f.snaps uri).map fun v => { v with tenant := tid }
  | _ => none

/-- What a statement does to the VMs: it may start one or end some. -/
theorem exec_vms (he : a.exec env h f = some f') : f'.todo = f.todo ∧ (∀ h', h' ≠ h → f'.host h' = f.host h') ∧
    match a.starts env f with
    | some v => (f'.host h).vms = (f.host h).vms ++ [v]
    | none => (f'.host h).vms.Sublist (f.host h).vms := by
  cases a
  case boot tid n =>
    obtain ⟨ip, hip, rfl⟩ := Option.map_eq_some_iff.1 he
    refine ⟨rfl, fun h' hne => FleetNet.upd_of_ne hne, ?_⟩
    simp [NetAct.starts, hip, HostNet.addVm, HostNet.addTap]
  case load tid n uri =>
    obtain ⟨v, hv, he⟩ := Option.bind_eq_some_iff.1 he
    split at he
    · obtain rfl := Option.some.inj he
      refine ⟨rfl, fun h' hne => FleetNet.upd_of_ne hne, ?_⟩
      simp [NetAct.starts, hv, HostNet.addVm]
    · cases he
  case prepare tid n =>
    obtain ⟨ip, hip, rfl⟩ := Option.map_eq_some_iff.1 he
    refine ⟨rfl, fun h' hne => FleetNet.upd_of_ne hne, ?_⟩
    simp [NetAct.starts, HostNet.delTap, HostNet.kill, HostNet.setJson]
  case kill tid =>
    obtain rfl := Option.some.inj he
    refine ⟨rfl, fun h' hne => FleetNet.upd_of_ne hne, ?_⟩
    simp [NetAct.starts, HostNet.kill]
  case linkDel tid n =>
    obtain rfl := Option.some.inj he
    refine ⟨rfl, fun h' hne => FleetNet.upd_of_ne hne, ?_⟩
    simp [NetAct.starts, HostNet.delTap]
  case rmJson tid =>
    obtain rfl := Option.some.inj he
    refine ⟨rfl, fun h' hne => FleetNet.upd_of_ne hne, ?_⟩
    simp [NetAct.starts, HostNet.setJson]
  case snapshot tid uri =>
    obtain ⟨v, hv, rfl⟩ := Option.map_eq_some_iff.1 he
    exact ⟨rfl, fun _ _ => rfl, .refl _⟩
  case shipJson tid uri =>
    obtain rfl := Option.some.inj he
    exact ⟨rfl, fun _ _ => rfl, .refl _⟩
  case fetchJson tid uri needed =>
    simp only [NetAct.exec] at he
    split at he
    · obtain rfl := Option.some.inj he
      refine ⟨rfl, fun h' hne => FleetNet.upd_of_ne hne, ?_⟩
      simp [NetAct.starts, HostNet.setJson]
    · split at he
      · cases he
      · obtain rfl := Option.some.inj he
        exact ⟨rfl, fun _ _ => rfl, .refl _⟩
  case delSrcTap tid n =>
    obtain ⟨j, hj, rfl⟩ := Option.map_eq_some_iff.1 he
    refine ⟨rfl, fun h' hne => FleetNet.upd_of_ne hne, ?_⟩
    simp [NetAct.starts, HostNet.delTap]
  case addSrcTap tid n =>
    obtain ⟨j, hj, rfl⟩ := Option.map_eq_some_iff.1 he
    refine ⟨rfl, fun h' hne => FleetNet.upd_of_ne hne, ?_⟩
    simp [NetAct.starts, HostNet.addTap]

/-- A VM that was not there before is the one that the statement starts. -/
theorem exec_new_vm (he : a.exec env h f = some f') {h' : HostId} {v : NetVm} (hv : v ∈ (f'.host h').vms) :
    v ∈ (f.host h').vms ∨ h' = h ∧ a.starts env f = some v := by
  obtain ⟨-, hother, hvms⟩ := exec_vms he
  by_cases hh : h' = h
  · subst hh
    cases hst : a.starts env f with
    | none =>
      rw [hst] at hvms
      exact .inl (hvms.subset hv)
    | some x =>
      rw [hst] at hvms
      rw [show (f'.host h').vms = (f.host h').vms ++ [x] from hvms] at hv
      rcases List.mem_append.1 hv with hv | hv
      · exact .inl hv
      · obtain rfl := List.mem_singleton.1 hv
        exact .inr ⟨rfl, rfl⟩
  · rw [hother h' hh] at hv
    exact .inl hv

/-- A snapshot is one of a VM that runs on the host. -/
theorem exec_snaps (he : a.exec env h f = some f') {uri : String} {v : NetVm} (hv : f'.snaps uri = some v) :
    f.snaps uri = some v ∨ v ∈ (f.host h).vms := by
  cases a
  case snapshot tid uri' =>
    obtain ⟨x, hx, rfl⟩ := Option.map_eq_some_iff.1 he
    by_cases hu : uri = uri'
    · subst hu
      simp only [Function.update_self, Option.some.injEq] at hv
      exact .inr (hv ▸ List.mem_of_find?_eq_some hx)
    · simp only [Function.update_of_ne hu] at hv
      exact .inl hv
  case prepare | boot | delSrcTap | addSrcTap =>
    obtain ⟨x, -, rfl⟩ := Option.map_eq_some_iff.1 he
    exact .inl hv
  case kill | linkDel | shipJson | rmJson =>
    obtain rfl := Option.some.inj he
    exact .inl hv
  case fetchJson =>
    simp only [NetAct.exec] at he
    split at he
    · obtain rfl := Option.some.inj he
      exact .inl hv
    · split at he
      · cases he
      · obtain rfl := Option.some.inj he
        exact .inl hv
  case load =>
    obtain ⟨x, -, he⟩ := Option.bind_eq_some_iff.1 he
    split at he
    · obtain rfl := Option.some.inj he
      exact .inl hv
    · cases he

/-! ## The order of the statements -/

/-- The tenant whose launch or restore begins with the statement. -/
def NetAct.begins : NetAct → Option TenantId
  | .prepare tid _ | .fetchJson tid _ true => some tid
  | _ => none

/-- The tenant whose launch or restore goes on with the statement. -/
def NetAct.midway : NetAct → Option TenantId
  | .boot tid _ | .delSrcTap tid _ | .addSrcTap tid _ | .load tid _ _ => some tid
  | _ => none

/-- The tenant whose VM is still to be started after the statement. -/
def NetAct.leaves : NetAct → Option TenantId
  | .prepare tid _ | .fetchJson tid _ true | .delSrcTap tid _ | .addSrcTap tid _ => some tid
  | _ => none

/-- The tenant whose launch or restore the script is in the middle of. -/
def underway (acts : List NetAct) : Option TenantId := acts.head?.bind NetAct.midway

/-- A launch or restore goes on only where it was left. -/
def Orderly (acts : List NetAct) : Prop := acts.IsChain fun a b => b.midway = none ∨ b.midway = a.leaves

theorem Orderly.next (ho : Orderly (a :: rest)) : underway rest = none ∨ underway rest = a.leaves := by
  cases rest with
  | nil => exact .inl rfl
  | cons b rest => exact (List.isChain_cons_cons.1 ho).1

/-- A script that has not begun. -/
structure Unbegun (acts : List NetAct) : Prop where
  orderly : Orderly acts
  idle : underway acts = none

theorem unbegun_nil : Unbegun [] := ⟨.nil, rfl⟩

theorem Unbegun.append {acts' : List NetAct} (ha : Unbegun acts) (hb : Unbegun acts') : Unbegun (acts ++ acts') := by
  refine ⟨List.isChain_append.2 ⟨ha.orderly, hb.orderly, fun x _ y hy => .inl ?_⟩, ?_⟩
  · have hidle := hb.idle
    rw [underway, hy] at hidle
    exact hidle
  · cases acts with
    | nil => exact hb.idle
    | cons a acts => exact ha.idle

theorem launchActs_unbegun (tid : TenantId) (n : Int) : Unbegun (launchActs tid n) :=
  ⟨by simp [Orderly, launchActs, NetAct.midway, NetAct.leaves], rfl⟩

theorem stopActs_unbegun (tid : TenantId) (n : Int) : Unbegun (stopActs tid n) :=
  ⟨by simp [Orderly, stopActs, NetAct.midway], rfl⟩

theorem MigrateVerb.acts_unbegun (verb : MigrateVerb) (tid : TenantId) (n : Int) (uri : String) :
    Unbegun (verb.acts tid n uri) := by
  cases verb with
  | snapshot => exact ⟨by simp [Orderly, MigrateVerb.acts, NetAct.midway], rfl⟩
  | restore => exact ⟨by simp [Orderly, MigrateVerb.acts, NetAct.midway, NetAct.leaves], rfl⟩
  | coldDump => exact (stopActs_unbegun tid n).append ⟨.singleton _, rfl⟩
  | coldRestore =>
    have hfetch : Unbegun [.fetchJson tid uri false] := ⟨.singleton _, rfl⟩
    exact hfetch.append (launchActs_unbegun tid n)

/-- What SSM hands to a host has not begun. -/
theorem HostCmd.acts_unbegun (cmd : HostCmd) : Unbegun cmd.acts := by
  induction cmd with
  | launchVm tid n => exact launchActs_unbegun tid n
  | stopVm tid n => exact stopActs_unbegun tid n
  | migrateVm verb tid n uri => exact verb.acts_unbegun tid n uri
  | removeVmJson tid => exact ⟨.singleton _, rfl⟩
  | removeVmDir tid => exact ⟨.singleton _, rfl⟩
  | and a b iha ihb => exact iha.append ihb
  | seq a b iha ihb => exact iha.append ihb
  | _ => exact unbegun_nil

/-- Only a launch or a restore starts a VM, its tenant's. -/
theorem starts_midway {v : NetVm} (hv : a.starts env f = some v) : a.midway = some v.tenant := by
  cases a <;> try cases hv
  case boot =>
    obtain ⟨ip, -, rfl⟩ := Option.map_eq_some_iff.1 hv
    rfl
  case load =>
    obtain ⟨x, -, rfl⟩ := Option.map_eq_some_iff.1 hv
    rfl

theorem leaves_starts (ht : a.leaves = some tid) : a.starts env f = none := by
  cases a <;> first | rfl | cases ht

theorem leaves_begins (ht : a.leaves = some tid) : a.begins = some tid ∨ a.midway = some tid := by
  cases a <;> first | exact .inl ht | exact .inr ht | skip
  case fetchJson tid uri needed =>
    cases needed with
    | false => cases ht
    | true => exact .inl ht

/-! ## What an event does -/

theorem upd_sublist {g : HostNet → HostNet} (hg : ∀ x, (g x).vms.Sublist x.vms) (h' : HostId) :
    ((f.upd h g).host h').vms.Sublist (f.host h').vms := by
  by_cases he : h' = h
  · subst he
    rw [FleetNet.upd_self]
    exact hg _
  · rw [FleetNet.upd_of_ne he]

/-- **Events.** A script goes on, the agent starts one with the number in `vm.json`, or VMs and scripts end. -/
theorem event_cases {e : HostEvent} (he : f.event env e = some f') :
    (∃ k h a rest g, e = .exec k ∧ f.todo[k]? = some (h, a :: rest) ∧ a.exec env h f = some g ∧
      f' = { g with todo := g.todo.set k (h, rest) }) ∨
    (∃ h tid force j acts, e = .recover h tid force ∧ (f.host h).json tid = some j ∧ f' = f.fork h acts ∧ Unbegun acts ∧
      ∀ x ∈ acts.filterMap NetAct.number, x = (tid, j.vmNum)) ∨
    ∃ i, (∀ h, (f'.host h).vms.Sublist (f.host h).vms) ∧ f'.snaps = f.snaps ∧
      (f'.todo = f.todo ∨ f'.todo = f.todo.eraseIdx i) := by
  cases e with
  | exec k =>
    simp only [FleetNet.event] at he
    split at he
    · rename_i h a rest hk
      obtain ⟨g, hexec, rfl⟩ := Option.map_eq_some_iff.1 he
      exact .inl ⟨k, h, a, rest, g, rfl, hk, hexec, rfl⟩
    · cases he
  | abort k =>
    obtain rfl := Option.some.inj he
    exact .inr (.inr ⟨k, fun h => .refl _, rfl, .inr rfl⟩)
  | trap k =>
    simp only [FleetNet.event] at he
    split at he <;> cases he
    all_goals exact .inr (.inr ⟨k, upd_sublist (g := fun x => x.delTap _) fun x => .refl _, rfl, .inr rfl⟩)
  | recover h tid force =>
    refine .inr (.inl ?_)
    simp only [FleetNet.event] at he
    split at he
    · rename_i j hj
      split at he
      · obtain rfl := Option.some.inj he
        have hacts := (stopActs_unbegun tid j.vmNum).append (launchActs_unbegun tid j.vmNum)
        refine ⟨h, tid, force, j, _, rfl, hj, rfl, hacts, ?_⟩
        simp [stopActs, launchActs, NetAct.number]
      · split at he
        · obtain rfl := Option.some.inj he
          refine ⟨h, tid, force, j, _, rfl, hj, rfl, launchActs_unbegun tid j.vmNum, ?_⟩
          simp [launchActs, NetAct.number]
        · cases he
    · cases he
  | crash h tid =>
    obtain rfl := Option.some.inj he
    exact .inr (.inr ⟨0, upd_sublist fun x => List.filter_sublist, rfl, .inl rfl⟩)

/-! ## One VM for each tenant -/

/-- No other script on the host is in the middle of a launch or restore of the tenant. -/
def FleetNet.alone (f : FleetNet) (k : Nat) (h : HostId) (tid : TenantId) : Prop :=
  ∀ j, j ≠ k → ∀ acts : List NetAct, f.todo[j]? = some (h, acts) → underway acts ≠ some tid

/-- A launch or a restore begins where no other of the tenant is under way, and a live restore where the tenant has no
VM. -/
def FleetNet.startsAlone (f : FleetNet) : HostEvent → Prop
  | .exec k => ∀ h a rest tid, f.todo[k]? = some (h, a :: rest) → a.begins = some tid →
    f.alone k h tid ∧ ((∃ uri, a = .fetchJson tid uri true) → (f.host h).idle tid)
  | _ => True

structure ScriptsInv (f : FleetNet) : Prop where
  orderly : ∀ x ∈ f.todo, Orderly x.2
  /-- A launch or restore that is under way has killed the tenant's VM. -/
  idle : ∀ x ∈ f.todo, ∀ tid, underway x.2 = some tid → (f.host x.1).idle tid
  apart : ∀ (i j : Nat) h acts acts' tid, f.todo[i]? = some (h, acts) → f.todo[j]? = some (h, acts') →
    underway acts = some tid → underway acts' = some tid → i = j
  single : ∀ h, (f.host h).vms.Pairwise fun v v' => v.tenant ≠ v'.tenant

theorem idle_mono {x x' : HostNet} (hsub : x'.vms ⊆ x.vms) (hx : x.idle tid) : x'.idle tid :=
  fun v hv => hx v (hsub hv)

/-- Some VMs end, and some scripts. -/
theorem ScriptsInv.less (hI : ScriptsInv f) (hvms : ∀ h, (f'.host h).vms.Sublist (f.host h).vms) {i : Nat}
    (htodo : f'.todo = f.todo ∨ f'.todo = f.todo.eraseIdx i) : ScriptsInv f' := by
  have hmem : ∀ x ∈ f'.todo, x ∈ f.todo := by
    intro x hx
    rcases htodo with ht | ht
    · exact ht ▸ hx
    · exact List.mem_of_mem_eraseIdx (ht ▸ hx)
  refine ⟨fun x hx => hI.orderly x (hmem x hx),
    fun x hx tid ht => idle_mono (hvms _).subset (hI.idle x (hmem x hx) tid ht),
    fun k j h acts acts' tid hk hj ht ht' => ?_, fun h => (hI.single h).sublist (hvms h)⟩
  rcases htodo with he | he
  · rw [he] at hk hj
    exact hI.apart k j h acts acts' tid hk hj ht ht'
  · rw [he, List.getElem?_eraseIdx] at hk hj
    split at hk <;> split at hj
    all_goals
      have hsame := hI.apart _ _ h acts acts' tid hk hj ht ht'
      omega

/-- Scripts are added that have not begun. -/
theorem ScriptsInv.more (hI : ScriptsInv f) {new : List (HostId × List NetAct)} (hhost : f'.host = f.host)
    (htodo : f'.todo = f.todo ++ new) (hnew : ∀ x ∈ new, Unbegun x.2) : ScriptsInv f' := by
  have hold : ∀ {i : Nat} {h acts tid}, f'.todo[i]? = some (h, acts) → underway acts = some tid →
      f.todo[i]? = some (h, acts) := by
    intro i h acts tid hi ht
    rw [htodo, List.getElem?_append] at hi
    split at hi
    · exact hi
    · rw [(hnew _ (List.mem_of_getElem? hi)).idle] at ht
      cases ht
  refine ⟨fun x hx => ?_, fun x hx tid ht => ?_, fun i j h acts acts' tid hi hj ht ht' => ?_,
    by rw [hhost]; exact hI.single⟩
  · rw [htodo] at hx
    rcases List.mem_append.1 hx with hx | hx
    · exact hI.orderly x hx
    · exact (hnew x hx).orderly
  · rw [htodo] at hx
    rw [hhost]
    rcases List.mem_append.1 hx with hx | hx
    · exact hI.idle x hx tid ht
    · rw [(hnew x hx).idle] at ht
      cases ht
  · exact hI.apart i j h acts acts' tid (hold hi ht) (hold hj ht') ht ht'

/-- After a statement that leaves a VM to be started, the tenant has none on the host. -/
theorem exec_idle (hI : ScriptsInv f) {k : Nat} (hk : f.todo[k]? = some (h, a :: rest)) (hg : f.startsAlone (.exec k))
    (he : a.exec env h f = some f') (ht : a.leaves = some tid) : (f'.host h).idle tid := by
  obtain ⟨-, -, hvms⟩ := exec_vms he
  rw [leaves_starts ht] at hvms
  rcases leaves_begins ht with hb | hm
  · obtain ⟨-, hidle⟩ := hg h a rest tid hk hb
    cases a <;> first | cases ht <;> done | skip
    case prepare t n =>
      obtain rfl : t = tid := Option.some.inj ht
      obtain ⟨ip, -, rfl⟩ := Option.map_eq_some_iff.1 he
      intro v hv
      rw [FleetNet.upd_self] at hv
      exact of_decide_eq_true (List.mem_filter.1 hv).2
    case fetchJson t uri needed =>
      cases needed with
      | false => cases ht
      | true =>
        obtain rfl : t = tid := Option.some.inj ht
        exact idle_mono hvms.subset (hidle ⟨uri, rfl⟩)
    case delSrcTap => cases hb
    case addSrcTap => cases hb
  · exact idle_mono hvms.subset (hI.idle _ (List.mem_of_getElem? hk) tid hm)

/-- A statement keeps the scripts apart. -/
theorem ScriptsInv.exec (hI : ScriptsInv f) {k : Nat} (hk : f.todo[k]? = some (h, a :: rest))
    (hg : f.startsAlone (.exec k)) (he : a.exec env h f = some f') :
    ScriptsInv { f' with todo := f'.todo.set k (h, rest) } := by
  obtain ⟨htodo, hother, hvms⟩ := exec_vms he
  have hmem := List.mem_of_getElem? hk
  have hmid : a.midway = underway (a :: rest) := rfl
  -- The statement starts a VM of `tid` only if the script is in the middle of a launch or restore of `tid`.
  have hkeep : ∀ j, j ≠ k → ∀ h' acts tid, f.todo[j]? = some (h', acts) → underway acts = some tid →
      (f'.host h').idle tid := by
    intro j hj h' acts tid hacts ht v hv hvt
    rcases exec_new_vm he hv with hv | ⟨rfl, hst⟩
    · exact hI.idle _ (List.mem_of_getElem? hacts) tid ht v hv hvt
    · have hv' := starts_midway hst
      rw [hmid, hvt] at hv'
      exact hj (hI.apart j k h' acts _ tid hacts hk ht hv')
  have hrest : ∀ tid, underway rest = some tid → a.leaves = some tid := by
    intro tid ht
    rcases (hI.orderly _ hmem).next with hn | hn
    · rw [hn] at ht
      cases ht
    · exact hn ▸ ht
  have halone : ∀ tid, underway rest = some tid → f.alone k h tid := by
    intro tid ht
    rcases leaves_begins (hrest tid ht) with hb | hm
    · exact (hg h a rest tid hk hb).1
    · intro j hj acts hacts ht'
      exact hj (hI.apart j k h acts _ tid hacts hk ht' hm)
  have hget : ∀ {j : Nat} {h' acts}, (f'.todo.set k (h, rest))[j]? = some (h', acts) →
      j = k ∧ h' = h ∧ acts = rest ∨ j ≠ k ∧ f.todo[j]? = some (h', acts) := by
    intro j h' acts hj
    rw [htodo, List.getElem?_set] at hj
    split at hj
    · rename_i hjk
      split at hj
      · obtain ⟨rfl, rfl⟩ := Prod.mk.inj (Option.some.inj hj)
        exact .inl ⟨hjk.symm, rfl, rfl⟩
      · cases hj
    · rename_i hjk
      exact .inr ⟨fun e => hjk e.symm, hj⟩
  refine ⟨fun x hx => ?_, fun x hx tid ht => ?_, fun i j h' acts acts' tid hi hj ht ht' => ?_, fun h' => ?_⟩
  · obtain ⟨j, hj⟩ := List.mem_iff_getElem?.1 hx
    rcases hget hj with ⟨-, -, hr⟩ | ⟨-, hj⟩
    · rw [hr]
      exact (hI.orderly _ hmem).tail
    · exact hI.orderly x (List.mem_of_getElem? hj)
  · obtain ⟨j, hj⟩ := List.mem_iff_getElem?.1 hx
    rcases hget hj with ⟨-, hh, hr⟩ | ⟨hjk, hj⟩
    · rw [hr] at ht
      show (f'.host x.1).idle tid
      rw [hh]
      exact exec_idle hI hk hg he (hrest tid ht)
    · exact hkeep j hjk x.1 x.2 tid hj ht
  · rcases hget hi with ⟨hi, hh, hr⟩ | ⟨hik, hi₀⟩
    · rw [hr] at ht
      by_contra hij
      rcases hget hj with ⟨hj, -⟩ | ⟨hjk, hj₀⟩
      · exact hij (hi.trans hj.symm)
      · exact halone tid ht j hjk acts' (hh ▸ hj₀) ht'
    · rcases hget hj with ⟨-, hh, hr⟩ | ⟨-, hj₀⟩
      · rw [hr] at ht'
        exact absurd ht (halone tid ht' i hik acts (hh ▸ hi₀))
      · exact hI.apart i j h' acts acts' tid hi₀ hj₀ ht ht'
  · by_cases hh : h' = h
    · subst hh
      cases hst : a.starts env f with
      | none =>
        rw [hst] at hvms
        exact (hI.single h').sublist hvms
      | some v =>
        rw [hst] at hvms
        have hidle := hI.idle _ hmem v.tenant (starts_midway hst)
        show (f'.host h').vms.Pairwise _
        rw [show (f'.host h').vms = (f.host h').vms ++ [v] from hvms, List.pairwise_append]
        refine ⟨hI.single h', List.pairwise_singleton _ _, fun x hx y hy => ?_⟩
        obtain rfl := List.mem_singleton.1 hy
        exact hidle x hx
    · show (f'.host h').vms.Pairwise _
      rw [hother h' hh]
      exact hI.single h'

/-- **Events keep the scripts apart.** -/
theorem ScriptsInv.event {e : HostEvent} (hI : ScriptsInv f) (hg : f.startsAlone e) (he : f.event env e = some f') :
    ScriptsInv f' := by
  rcases event_cases he with ⟨k, h, a, rest, g, rfl, hk, hexec, rfl⟩ | ⟨h, tid, _, j, acts, rfl, -, rfl, hacts, -⟩ |
    ⟨i, hvms, -, htodo⟩
  · exact hI.exec hk hg hexec
  · refine hI.more rfl rfl fun x hx => ?_
    obtain rfl := List.mem_singleton.1 hx
    exact hacts
  · exact hI.less hvms htodo

/-- What SSM accepts keeps them apart. -/
theorem ScriptsInv.accept (hI : ScriptsInv f) (cmds : List SsmCommand) : ScriptsInv (f.accept cmds) := by
  refine hI.more rfl rfl fun x hx => ?_
  obtain ⟨c, -, rfl⟩ := List.mem_map.1 hx
  exact c.cmd.acts_unbegun

end OpenClaw
