import OpenClaw.Host.Scripts
import OpenClaw.Host.Health
import OpenClaw.Lib.Trace

/-!
# The balloons

`_adjust_balloons` of the agent, poll after poll. The size that a guest reports lags behind the targets that were sent
to it; memory moves between the guest and its balloon and nowhere else. Between the statements of a poll anything may
happen to the files of the host: `migrate-vm.sh` runs beside the agent.

- `adjustBalloon_pass`: what one poll does with one VM.
- `balloons_controlled`: the bounds of every target, the minimum at every later report, and when no target is sent to a
  VM with a live sentinel.
- `balloon_meets_migration`: a sentinel that appears between the agent's look at it and the target.
-/

namespace OpenClaw

open Atomic

/-! ## Guests -/

/-- The bytes of a MiB. -/
def mib : Nat := 1048576

/-- A guest with its balloon. -/
structure Guest where
  /-- The size of the balloon in MiB. -/
  actual : Nat
  /-- In bytes. -/
  available : Nat
  /-- The largest size the balloon had when it was first looked at, or was told to have since. -/
  limit : Nat
  actual_le : actual ≤ limit

namespace Guest

/-- What the guest has with an empty balloon. -/
def total (g : Guest) : Nat := g.available + g.actual * mib

/-- The balloon follows its targets with any lag. -/
def Follows (g g' : Guest) : Prop := g'.total = g.total ∧ g'.limit = g.limit

/-- A new target. -/
def told (g : Guest) (n : Int) : Guest where
  actual := g.actual
  available := g.available
  limit := max g.limit n.toNat
  actual_le := Nat.le_trans g.actual_le (Nat.le_max_left ..)

theorem Follows.refl (g : Guest) : g.Follows g := ⟨rfl, rfl⟩

theorem Follows.trans {g₁ g₂ g₃ : Guest} (h₁ : g₁.Follows g₂) (h₂ : g₂.Follows g₃) : g₁.Follows g₃ :=
  ⟨h₂.1.trans h₁.1, h₂.2.trans h₁.2⟩

@[simp] theorem total_told (g : Guest) (n : Int) : (g.told n).total = g.total := rfl

/-- No size the balloon may get leaves the guest less than `least` MiB. -/
def Safe (least : Int) (g : Guest) : Prop := (g.limit + least) * mib ≤ g.total

theorem Safe.follows {least : Int} {g g' : Guest} (hg : g.Safe least) (hf : g.Follows g') : g'.Safe least := by
  rw [Safe, hf.1, hf.2]
  exact hg

/-- The minimum holds whatever the balloon's lag. -/
theorem Safe.keeps {least : Int} {g : Guest} (hg : g.Safe least) : least ≤ (g.available / mib : Nat) := by
  have hle := g.actual_le
  simp only [Safe, total, mib] at hg ⊢
  omega

/-- The minimum holds, and no larger size is outstanding. -/
theorem safe_of_keeps {least : Int} {g : Guest} (hk : least ≤ (g.available / mib : Nat)) (hl : g.limit = g.actual) :
    g.Safe least := by
  simp only [Safe, total, mib] at hk ⊢
  rw [hl]
  omega

/-- A target that takes no more than what the guest has above the minimum. -/
theorem Safe.told {least n : Int} {g r : Guest} (hg : g.Safe least) (hr : g.total = r.total)
    (hn : n - r.actual ≤ (r.available / mib : Nat) - least) : (g.told n).Safe least := by
  simp only [Safe, total_told] at hg ⊢
  rw [hr] at hg ⊢
  have hmax : ((g.told n).limit : Int) = max (g.limit : Int) n.toNat := by simp [Guest.told]
  rw [hmax]
  simp only [total, mib] at hg hn ⊢
  by_cases h0 : 0 ≤ n
  · rcases le_total (g.limit : Int) (n.toNat : Int) with hle | hle
    · rw [max_eq_right hle]
      omega
    · rw [max_eq_left hle]
      omega
  · have hzero : n.toNat = 0 := by omega
    rw [hzero, max_eq_left (by omega)]
    omega

end Guest

/-! ## Statements -/

/-- The hosts with their guests. -/
structure GuestHosts where
  machines : Machines
  guest : TenantId → Guest
  /-- The sentinels as the agent last saw them. -/
  seen : TenantId → Option Time := fun _ => none

/-- The answer of `GET /balloon/statistics`. -/
structure BalloonStats where
  actualMib : Nat
  availableMemory : Nat
deriving DecidableEq

def Guest.stats (g : Guest) : BalloonStats := ⟨g.actual, g.available⟩

inductive BalloonOp
  /-- `_get_host_mem_info`. -/
  | hostMem
  | isMigrating
  | testSock
  | readVmJson
  /-- `_get_balloon_stats`. -/
  | stats
  /-- `_set_balloon_target`. -/
  | setTarget (n : Int)

/-- What an observer sees when a target is sent; the agent does not look at it. -/
structure TargetView where
  /-- The sentinel of the VM is live. -/
  live : Bool
  /-- It was touched after the agent had looked at it. -/
  touched : Bool
deriving DecidableEq

abbrev BalloonOp.Ans : BalloonOp → Type
  | .hostMem => Nat × Nat
  | .isMigrating | .testSock => Bool
  | .readVmJson => Option VmConfig
  | .stats => Option BalloonStats
  | .setTarget _ => TargetView

structure BalloonCall where
  tenant : TenantId
  op : BalloonOp

abbrev Bal : Sig := ⟨BalloonCall, fun c => c.op.Ans⟩

abbrev BalProg := Prog Bal

abbrev bal (tid : TenantId) (op : BalloonOp) : BalProg op.Ans := @Prog.lift Bal ⟨tid, op⟩

@[simp] theorem bal_bind {β : Type} (tid : TenantId) (op : BalloonOp) (f : op.Ans → BalProg β) :
    @Bind.bind BalProg _ (no_index op.Ans) β (bal tid op) f = @Prog.call Bal β ⟨tid, op⟩ f := rfl

/-- Between two statements. -/
def Elapses (w w' : GuestHosts) : Prop :=
  w.machines.clock ≤ w'.machines.clock ∧ (∀ tid, (w.guest tid).Follows (w'.guest tid)) ∧ w'.seen = w.seen

section Statements

variable (env : PlatformEnv) (h : HostId)

/-- The sentinel is live. -/
def sentinelLive (w : GuestHosts) (sentinel : Option Time) : Bool :=
  sentinel.any fun s => w.machines.clock - s ≤ env.sentinelTtl

def balloonStep (tid : TenantId) : (op : BalloonOp) → op.Ans → GuestHosts → GuestHosts → Prop
  | .hostMem, _, w, w' => w' = w
  | .isMigrating, r, w, w' => ∃ m, opStep h tid (.isMigrating env.sentinelTtl) r w.machines m ∧
      w' = { w with machines := m, seen := Function.update w.seen tid (w.machines.dir h tid).sentinel }
  | .testSock, r, w, w' => ∃ m, opStep h tid .testSock r w.machines m ∧ w' = { w with machines := m }
  | .readVmJson, r, w, w' => ∃ m, opStep h tid .readVmJson r w.machines m ∧ w' = { w with machines := m }
  | .stats, r, w, w' => (∀ s, r = some s → s = (w.guest tid).stats) ∧ w' = w
  | .setTarget n, r, w, w' =>
    (r.live = sentinelLive env w (w.machines.dir h tid).sentinel ∧
      (r.touched = true ↔ (w.machines.dir h tid).sentinel ≠ none ∧ (w.machines.dir h tid).sentinel ≠ w.seen tid)) ∧
    -- The request may fail.
    (w' = w ∨ w' = { w with guest := Function.update w.guest tid ((w.guest tid).told n) })

/-- The statements, with anything in between. -/
def balloons : Sem Bal GuestHosts := ⟨fun c r w w' => ∃ w₁, Elapses w w₁ ∧ balloonStep env h c.tenant c.op r w₁ w'⟩

end Statements

/-! ## The agent -/

structure BalloonConfig where
  /-- `BALLOON_ENABLED`. -/
  enabled : Bool := true
  /-- `BALLOON_MAX_INFLATE_RATIO`. -/
  maxInflateRatio : ℚ := 2 / 5
  /-- `BALLOON_MIN_GUEST_AVAILABLE_MB`. -/
  minGuestAvailableMb : Int := 512
  /-- The floating-point product of an integer and a ratio; its rounding is left open. -/
  mul : Int → ℚ → ℚ := fun n q => n * q
  /-- The floating-point quotient, likewise. -/
  div : Nat → Nat → ℚ := fun m n => m / n

namespace BalloonConfig

variable (cfg : BalloonConfig)

/-- `max_balloon`. -/
def maxBalloon (memMb : Int) : Int := pyInt (cfg.mul memMb cfg.maxInflateRatio)

/-- The target for a VM, if one is sent. -/
def target (hostTotal hostAvailable : Nat) (memMb : Int) (s : BalloonStats) : Option Int :=
  let pressure := cfg.div hostAvailable hostTotal
  if pressure < 1 / 5 then
    let reclaimable : Int := (s.availableMemory / mib : Nat) - cfg.minGuestAvailableMb
    if 0 < reclaimable then
      let n := min (s.actualMib + reclaimable) (cfg.maxBalloon memMb)
      if s.actualMib < n then some n else none
    else none
  else if 2 / 5 < pressure then
    if 0 < s.actualMib then some 0 else none
  else none

def sendTarget (tid : TenantId) : Option Int → BalProg Unit
  | none => pure ()
  | some n => do
    let _ ← bal tid (.setTarget n)
    pure ()

/-- The loop body of `_adjust_balloons`. -/
def adjustBalloon (hostTotal hostAvailable : Nat) (tid : TenantId) (info : ProbeInfo) : BalProg Unit :=
  if info.vmHealth = .up then do
    let migrating ← bal tid .isMigrating
    if migrating then pure ()
    else do
      let sock ← bal tid .testSock
      if sock then do
        let vm ← bal tid .readVmJson
        match vm with
        | none => pure ()
        | some vm => do
          let stats ← bal tid .stats
          match stats with
          | none => pure ()
          | some s => sendTarget tid (cfg.target hostTotal hostAvailable vm.memMb s)
      else pure ()
  else pure ()

/-- The loop of `_adjust_balloons`. -/
def adjustEach (hostTotal hostAvailable : Nat) : List (TenantId × ProbeInfo) → BalProg Unit
  | [] => pure ()
  | (tid, info) :: results => do
    cfg.adjustBalloon hostTotal hostAvailable tid info
    adjustEach hostTotal hostAvailable results

/-- `_adjust_balloons`. -/
def adjustBalloons (results : List (TenantId × ProbeInfo)) : BalProg Unit :=
  if cfg.enabled then do
    let mem ← bal "" .hostMem
    if mem.1 = 0 then pure () else cfg.adjustEach mem.1 mem.2 results
  else pure ()

end BalloonConfig

/-! ## One poll -/

section Pass

variable {env : PlatformEnv} {h : HostId} {cfg : BalloonConfig} {tid : TenantId}

/-- A target is 0 for an inflated balloon, or within the bounds of an inflation. -/
theorem target_cases {hostTotal hostAvailable : Nat} {memMb n : Int} {s : BalloonStats}
    (ht : cfg.target hostTotal hostAvailable memMb s = some n) :
    n = 0 ∧ 0 < s.actualMib ∨
      (s.actualMib : Int) < n ∧ n ≤ cfg.maxBalloon memMb ∧
        n - s.actualMib ≤ (s.availableMemory / mib : Nat) - cfg.minGuestAvailableMb := by
  simp only [BalloonConfig.target] at ht
  split_ifs at ht with hlow hrec hup hhigh hinf
  · obtain rfl := Option.some.inj ht
    refine .inr ⟨hup, min_le_right _ _, ?_⟩
    have hle := min_le_left ((s.actualMib : Int) + ((s.availableMemory / mib : Nat) - cfg.minGuestAvailableMb))
      (cfg.maxBalloon memMb)
    omega
  · obtain rfl := Option.some.inj ht
    exact .inl ⟨rfl, hinf⟩

/-- Time passes for the guests. -/
def Drifts (w w' : GuestHosts) : Prop := ∀ tid, (w.guest tid).Follows (w'.guest tid)

theorem Drifts.refl (w : GuestHosts) : Drifts w w := fun _ => .refl _

theorem Drifts.trans {w₁ w₂ w₃ : GuestHosts} (h₁ : Drifts w₁ w₂) (h₂ : Drifts w₂ w₃) : Drifts w₁ w₃ :=
  fun tid => (h₁ tid).trans (h₂ tid)

/-- The sentinel the agent saw last is not live. -/
def SeenDead (env : PlatformEnv) (tid : TenantId) (w : GuestHosts) : Prop := sentinelLive env w (w.seen tid) = false

theorem sentinelLive_later {w w' : GuestHosts} {s : Option Time} (hc : w.machines.clock ≤ w'.machines.clock)
    (hs : sentinelLive env w s = false) : sentinelLive env w' s = false := by
  cases s with
  | none => rfl
  | some s =>
    simp only [sentinelLive, Option.any_some, decide_eq_false_iff_not] at hs ⊢
    exact fun hle => hs (le_trans (sub_le_sub_right hc s) hle)

theorem SeenDead.meanwhile {w w' : GuestHosts} (hd : SeenDead env tid w) (hm : Elapses w w') :
    SeenDead env tid w' := by
  rw [SeenDead, hm.2.2]
  exact sentinelLive_later hm.1 hd

/-- A look that finds no live sentinel. -/
theorem seenDead_of_look {w w' : GuestHosts} (hs : (balloons env h).step ⟨tid, .isMigrating⟩ false w w') :
    Drifts w w' ∧ SeenDead env tid w' := by
  obtain ⟨w₁, hm, m, ⟨t, -, hr, rfl⟩, rfl⟩ := hs
  refine ⟨hm.2.1, ?_⟩
  simp only [SeenDead, Function.update_self]
  exact hr.symm

/-- The statement reads a file. -/
def BalloonOp.reads : BalloonOp → Bool
  | .testSock | .readVmJson | .stats => true
  | _ => false

theorem read_step {op : BalloonOp} {r : op.Ans} {w w' : GuestHosts} (ho : op.reads = true)
    (hs : (balloons env h).step ⟨tid, op⟩ r w w') : Drifts w w' ∧ (SeenDead env tid w → SeenDead env tid w') := by
  obtain ⟨w₁, hm, hs⟩ := hs
  cases op
  case testSock | readVmJson =>
    obtain ⟨m, ⟨-, rfl⟩, rfl⟩ := hs
    exact ⟨hm.2.1, fun hd => hd.meanwhile hm⟩
  case stats =>
    obtain ⟨-, rfl⟩ := hs
    exact ⟨hm.2.1, fun hd => hd.meanwhile hm⟩
  all_goals cases ho

/-- The statistics that were read. -/
def reported : Answered Bal → Option (TenantId × BalloonStats)
  | ⟨⟨tid, .stats⟩, some s⟩ => some (tid, s)
  | _ => none

/-- The target that was sent. -/
def targeted : Answered Bal → Option (TenantId × Int × TargetView)
  | ⟨⟨tid, .setTarget n⟩, o⟩ => some (tid, n, o)
  | _ => none

/-- What one poll does with one VM: nothing, or it reads the statistics, or it sends a target after that. -/
inductive Pass (env : PlatformEnv) (cfg : BalloonConfig) (hostTotal hostAvailable : Nat) (tid : TenantId)
    (info : ProbeInfo) : GuestHosts → List (Answered Bal) → GuestHosts → Prop
  | quiet {w w' : GuestHosts} {l : List (Answered Bal)} (hl : ∀ x ∈ l, reported x = none ∧ targeted x = none)
      (hd : Drifts w w') : Pass env cfg hostTotal hostAvailable tid info w l w'
  | read {w w₁ w' : GuestHosts} (vm : VmConfig) (s : BalloonStats) (hd : Drifts w w₁) (hs : s = (w₁.guest tid).stats)
      (hd' : Drifts w₁ w') :
      Pass env cfg hostTotal hostAvailable tid info w [⟨⟨tid, .isMigrating⟩, false⟩, ⟨⟨tid, .testSock⟩, true⟩,
        ⟨⟨tid, .readVmJson⟩, some vm⟩, ⟨⟨tid, .stats⟩, some s⟩] w'
  | sent {w w₁ w₂ w' : GuestHosts} (vm : VmConfig) (s : BalloonStats) (n : Int) (o : TargetView)
      (hup : info.vmHealth = .up) (hd : Drifts w w₁) (hs : s = (w₁.guest tid).stats) (hd' : Drifts w₁ w₂)
      (hn : cfg.target hostTotal hostAvailable vm.memMb s = some n)
      (hw : w' = w₂ ∨ w' = { w₂ with guest := Function.update w₂.guest tid ((w₂.guest tid).told n) })
      (ho : o.live = true → o.touched = true) :
      Pass env cfg hostTotal hostAvailable tid info w [⟨⟨tid, .isMigrating⟩, false⟩, ⟨⟨tid, .testSock⟩, true⟩,
        ⟨⟨tid, .readVmJson⟩, some vm⟩, ⟨⟨tid, .stats⟩, some s⟩, ⟨⟨tid, .setTarget n⟩, o⟩] w'

/-- **One VM.** -/
theorem adjustBalloon_pass (hostTotal hostAvailable : Nat) (info : ProbeInfo) (w : GuestHosts) :
    (cfg.adjustBalloon hostTotal hostAvailable tid info).wpt (balloons env h)
      (fun l _ w' => Pass env cfg hostTotal hostAvailable tid info w l w') w := by
  simp only [BalloonConfig.adjustBalloon, bal_bind]
  by_cases hup : info.vmHealth = .up
  · rw [if_pos hup]
    intro migrating w₁ hs₁
    cases migrating with
    | true =>
      obtain ⟨w₀, hm, m, -, rfl⟩ := hs₁
      exact .quiet (by simp [reported, targeted]) hm.2.1
    | false =>
      obtain ⟨hd₁, hdead₁⟩ := seenDead_of_look hs₁
      intro sock w₂ hs₂
      obtain ⟨hd₂, hdead₂⟩ := read_step rfl hs₂
      cases sock with
      | false => exact .quiet (by simp [reported, targeted]) (hd₁.trans hd₂)
      | true =>
        intro vm w₃ hs₃
        obtain ⟨hd₃, hdead₃⟩ := read_step rfl hs₃
        cases vm with
        | none => exact .quiet (by simp [reported, targeted]) ((hd₁.trans hd₂).trans hd₃)
        | some vm =>
          intro stats w₄ hs₄
          obtain ⟨hd₄, hdead₄⟩ := read_step rfl hs₄
          have hd := ((hd₁.trans hd₂).trans hd₃)
          cases stats with
          | none => exact .quiet (by simp [reported, targeted]) (hd.trans hd₄)
          | some s =>
            obtain ⟨w₀, hm, hs, rfl⟩ := hs₄
            cases hn : cfg.target hostTotal hostAvailable vm.memMb s with
            | none =>
              simp only [hn]
              exact .read vm s (hd.trans hm.2.1) (hs s rfl) (Drifts.refl _)
            | some n =>
              simp only [hn]
              intro o w₅ hs₅
              obtain ⟨w₂', hm', ⟨hlive, htouched⟩, hw⟩ := hs₅
              refine .sent vm s n o hup (hd.trans hm.2.1) (hs s rfl) hm'.2.1 hn hw fun hl => htouched.2 ?_
              have hdead := (hdead₄ (hdead₃ (hdead₂ hdead₁))).meanwhile hm'
              rw [hlive] at hl
              refine ⟨fun e => ?_, fun e => ?_⟩
              · rw [e] at hl
                cases hl
              · rw [e, hdead] at hl
                cases hl
  · rw [if_neg hup]
    exact .quiet (by simp [reported, targeted]) (Drifts.refl w)

/-! ## What warrants a target -/

/-- The statements of a poll before the target `n` for the VM. -/
def beforeTarget (tid : TenantId) (vm : VmConfig) (s : BalloonStats) : List (Answered Bal) :=
  [⟨⟨tid, .isMigrating⟩, false⟩, ⟨⟨tid, .testSock⟩, true⟩, ⟨⟨tid, .readVmJson⟩, some vm⟩, ⟨⟨tid, .stats⟩, some s⟩]

/-- The target deflates the balloon, or inflates it above the reported size, within the ratio, and leaves the guest the
minimum. -/
def Within (cfg : BalloonConfig) (vm : VmConfig) (s : BalloonStats) (n : Int) : Prop :=
  n = 0 ∧ 0 < s.actualMib ∨
    (s.actualMib : Int) < n ∧ n ≤ cfg.maxBalloon vm.memMb ∧
      ∀ g : Guest, g.total = s.availableMemory + s.actualMib * mib → (g.actual : Int) = n →
        cfg.minGuestAvailableMb ≤ (g.available / mib : Nat)

theorem within_of_target {hostTotal hostAvailable : Nat} {vm : VmConfig} {n : Int} {s : BalloonStats}
    (ht : cfg.target hostTotal hostAvailable vm.memMb s = some n) : Within cfg vm s n := by
  rcases target_cases ht with hzero | ⟨hup, hmax, hleast⟩
  · exact .inl hzero
  · refine .inr ⟨hup, hmax, fun g hg hn => ?_⟩
    simp only [Guest.total, mib] at hg hleast ⊢
    omega

/-- Every target among the calls is warranted. -/
def Warranted (cfg : BalloonConfig) (results : List (TenantId × ProbeInfo)) (l : List (Answered Bal)) : Prop :=
  ∀ l₁ tid n o l₂, l = l₁ ++ ⟨⟨tid, .setTarget n⟩, o⟩ :: l₂ → ∃ l₀ info vm s, l₁ = l₀ ++ beforeTarget tid vm s ∧
    (tid, info) ∈ results ∧ info.vmHealth = .up ∧ Within cfg vm s n

theorem warranted_of_none {results : List (TenantId × ProbeInfo)} {l : List (Answered Bal)}
    (hl : ∀ x ∈ l, targeted x = none) : Warranted cfg results l := by
  intro l₁ tid n o l₂ he
  have hnone := hl ⟨⟨tid, .setTarget n⟩, o⟩ (by simp [he])
  cases hnone

theorem Warranted.append {results : List (TenantId × ProbeInfo)} {l l' : List (Answered Bal)}
    (h₁ : Warranted cfg results l) (h₂ : Warranted cfg results l') : Warranted cfg results (l ++ l') := by
  intro l₁ tid n o l₂ he
  rcases List.append_eq_append_iff.1 he with ⟨a, rfl, ha⟩ | ⟨a, rfl, ha⟩
  · obtain ⟨l₀, info, vm, s, hl, hrest⟩ := h₂ a tid n o l₂ ha
    exact ⟨l ++ l₀, info, vm, s, by rw [hl, List.append_assoc], hrest⟩
  · cases a with
    | nil =>
      obtain ⟨l₀, info, vm, s, hl, hrest⟩ := h₂ [] tid n o l₂ ha.symm
      exact absurd hl.symm (by simp [beforeTarget])
    | cons x a =>
      obtain ⟨rfl, -⟩ := List.cons.inj ha
      exact h₁ l₁ tid n o a rfl

theorem Pass.warranted {hostTotal hostAvailable : Nat} {info : ProbeInfo} {w w' : GuestHosts}
    {l : List (Answered Bal)} (hp : Pass env cfg hostTotal hostAvailable tid info w l w')
    {results : List (TenantId × ProbeInfo)} (hin : (tid, info) ∈ results) : Warranted cfg results l := by
  cases hp with
  | quiet hl => exact warranted_of_none fun x hx => (hl x hx).2
  | read => exact warranted_of_none (by simp [targeted])
  | sent vm s n o hup _ _ _ hn =>
    intro l₁ tid' n' o' l₂ he
    have hsplit : beforeTarget tid vm s ++ [⟨⟨tid, .setTarget n⟩, o⟩] = l₁ ++ ⟨⟨tid', .setTarget n'⟩, o'⟩ :: l₂ := he
    have hnot : ⟨⟨tid', .setTarget n'⟩, o'⟩ ∉ beforeTarget tid vm s := by simp [beforeTarget]
    rcases List.append_eq_append_iff.1 hsplit with ⟨a, rfl, ha⟩ | ⟨a, hb, ha⟩
    · obtain ⟨rfl, hx⟩ : a = [] ∧ (⟨⟨tid, .setTarget n⟩, o⟩ : Answered Bal) = ⟨⟨tid', .setTarget n'⟩, o'⟩ := by
        cases a with
        | nil => exact ⟨rfl, (List.cons.inj ha).1⟩
        | cons y a => simp at ha
      cases hx
      exact ⟨[], info, vm, s, by simp, hin, hup, within_of_target hn⟩
    · cases a with
      | nil =>
        obtain ⟨hx, -⟩ := List.cons.inj ha
        cases hx
        exact ⟨[], info, vm, s, by simpa using hb.symm, hin, hup, within_of_target hn⟩
      | cons y a =>
        obtain ⟨rfl, -⟩ := List.cons.inj ha
        exact absurd (by rw [hb]; simp) hnot

/-- One poll over the VMs of the host. -/
inductive Round (env : PlatformEnv) (cfg : BalloonConfig) (hostTotal hostAvailable : Nat) :
    List (TenantId × ProbeInfo) → GuestHosts → List (Answered Bal) → GuestHosts → Prop
  | nil (w : GuestHosts) : Round env cfg hostTotal hostAvailable [] w [] w
  | cons {tid : TenantId} {info : ProbeInfo} {results : List (TenantId × ProbeInfo)} {w w₁ w₂ : GuestHosts}
      {l l' : List (Answered Bal)} (hp : Pass env cfg hostTotal hostAvailable tid info w l w₁)
      (hr : Round env cfg hostTotal hostAvailable results w₁ l' w₂) :
      Round env cfg hostTotal hostAvailable ((tid, info) :: results) w (l ++ l') w₂

theorem adjustEach_round (hostTotal hostAvailable : Nat) (results : List (TenantId × ProbeInfo)) (w : GuestHosts) :
    (cfg.adjustEach hostTotal hostAvailable results).wpt (balloons env h)
      (fun l _ w' => Round env cfg hostTotal hostAvailable results w l w') w := by
  induction results generalizing w with
  | nil => exact .nil w
  | cons x results ih =>
    rw [BalloonConfig.adjustEach, Prog.wpt_bind]
    refine Prog.wpt_mono ?_ (adjustBalloon_pass hostTotal hostAvailable x.2 w)
    intro l _ w₁ hp
    exact Prog.wpt_mono (fun l' _ w' hr => .cons hp hr) (ih w₁)

theorem Round.warranted {hostTotal hostAvailable : Nat} {results : List (TenantId × ProbeInfo)} {w w' : GuestHosts}
    {l : List (Answered Bal)} (hr : Round env cfg hostTotal hostAvailable results w l w')
    {all : List (TenantId × ProbeInfo)} (hall : ∀ x ∈ results, x ∈ all) : Warranted cfg all l := by
  induction hr with
  | nil => exact warranted_of_none fun x hx => absurd hx List.not_mem_nil
  | cons hp _ ih =>
    exact (hp.warranted (hall _ List.mem_cons_self)).append (ih fun x hx => hall x (List.mem_cons_of_mem _ hx))

/-- What every pass keeps of a poll. -/
theorem Round.induct_pass {hostTotal hostAvailable : Nat} {I : GuestHosts → Prop} {Q : Answered Bal → Prop}
    (hpass : ∀ {tid info w l w'}, Pass env cfg hostTotal hostAvailable tid info w l w' → I w →
      I w' ∧ ∀ x ∈ l, Q x) {results : List (TenantId × ProbeInfo)} {w w' : GuestHosts} {l : List (Answered Bal)}
    (hr : Round env cfg hostTotal hostAvailable results w l w') (hI : I w) : I w' ∧ ∀ x ∈ l, Q x := by
  induction hr with
  | nil => exact ⟨hI, fun x hx => absurd hx List.not_mem_nil⟩
  | cons hp _ ih =>
    obtain ⟨hI₁, hQ₁⟩ := hpass hp hI
    obtain ⟨hI₂, hQ₂⟩ := ih hI₁
    exact ⟨hI₂, List.forall_mem_append.2 ⟨hQ₁, hQ₂⟩⟩

/-- **One poll**: nothing, or a round. -/
theorem adjustBalloons_round (results : List (TenantId × ProbeInfo)) (w : GuestHosts) :
    (cfg.adjustBalloons results).wpt (balloons env h)
      (fun l _ w' => (∀ x ∈ l, reported x = none ∧ targeted x = none) ∧ Drifts w w' ∨
        ∃ mem l' w₁, l = ⟨⟨"", .hostMem⟩, mem⟩ :: l' ∧ Drifts w w₁ ∧ Round env cfg mem.1 mem.2 results w₁ l' w') w := by
  simp only [BalloonConfig.adjustBalloons, bal_bind]
  by_cases he : cfg.enabled = true
  · rw [if_pos he]
    intro mem w₁ hs
    obtain ⟨w₀, hm, rfl⟩ := hs
    beta_reduce
    by_cases h0 : mem.1 = 0
    · rw [if_pos h0]
      exact .inl ⟨by simp [reported, targeted], hm.2.1⟩
    · rw [if_neg h0]
      refine Prog.wpt_mono ?_ (adjustEach_round mem.1 mem.2 results w₁)
      intro l _ w' hr
      exact .inr ⟨mem, l, w₁, rfl, hm.2.1, hr⟩
  · rw [if_neg he]
    exact .inl ⟨by simp, Drifts.refl w⟩

end Pass

/-! ## Poll after poll -/

/-- Polls with their probe results, which have one entry for a VM, and their calls. -/
inductive BalloonPolls (env : PlatformEnv) (h : HostId) (cfg : BalloonConfig) (w₀ : GuestHosts) :
    List (List (TenantId × ProbeInfo) × List (Answered Bal)) → GuestHosts → Prop
  | start : BalloonPolls env h cfg w₀ [] w₀
  | poll {log : List (List (TenantId × ProbeInfo) × List (Answered Bal))} {results : List (TenantId × ProbeInfo)}
      {l : List (Answered Bal)} {w w' : GuestHosts} (hr : BalloonPolls env h cfg w₀ log w)
      (hkeys : (results.map Prod.fst).Nodup)
      (hl : (cfg.adjustBalloons results).Traces (balloons env h) w l () w') :
      BalloonPolls env h cfg w₀ (log ++ [(results, l)]) w'

section Polls

variable {env : PlatformEnv} {h : HostId} {cfg : BalloonConfig} {w₀ : GuestHosts}

/-- What every pass keeps, over all polls. -/
theorem BalloonPolls.induct_pass {I : GuestHosts → Prop} {Q : Answered Bal → Prop}
    (hdrift : ∀ {w w'}, Drifts w w' → I w → I w') (hQ : ∀ x, reported x = none → targeted x = none → Q x)
    (hpass : ∀ {hostTotal hostAvailable tid info w l w'}, Pass env cfg hostTotal hostAvailable tid info w l w' → I w →
      I w' ∧ ∀ x ∈ l, Q x) {log : List (List (TenantId × ProbeInfo) × List (Answered Bal))} {w : GuestHosts}
    (hr : BalloonPolls env h cfg w₀ log w) (h₀ : I w₀) : I w ∧ ∀ e ∈ log, ∀ x ∈ e.2, Q x := by
  induction hr with
  | start => exact ⟨h₀, fun e he => absurd he List.not_mem_nil⟩
  | poll _ _ hl ih =>
    obtain ⟨hI, hlog⟩ := ih
    suffices hlast : I _ ∧ ∀ x ∈ _, Q x from ⟨hlast.1, List.forall_mem_append.2 ⟨hlog, by simpa using hlast.2⟩⟩
    rcases Prog.wpt_iff_traces.1 (adjustBalloons_round _ _) _ _ _ hl with ⟨hquiet, hd⟩ | ⟨mem, l', w₁, rfl, hd, hround⟩
    · exact ⟨hdrift hd hI, fun x hx => hQ x (hquiet x hx).1 (hquiet x hx).2⟩
    · obtain ⟨hI', hQ'⟩ := hround.induct_pass hpass (hdrift hd hI)
      exact ⟨hI', List.forall_mem_cons.2 ⟨hQ _ rfl rfl, hQ'⟩⟩

/-- Every target of every poll is warranted. -/
theorem BalloonPolls.warranted {log : List (List (TenantId × ProbeInfo) × List (Answered Bal))} {w : GuestHosts}
    (hr : BalloonPolls env h cfg w₀ log w) :
    ∀ e ∈ log, (e.1.map Prod.fst).Nodup ∧ Warranted cfg e.1 e.2 := by
  induction hr with
  | start => exact fun e he => absurd he List.not_mem_nil
  | poll _ hkeys hl ih =>
    refine List.forall_mem_append.2 ⟨ih, List.forall_mem_singleton.2 ⟨hkeys, ?_⟩⟩
    rcases Prog.wpt_iff_traces.1 (adjustBalloons_round _ _) _ _ _ hl with ⟨hquiet, -⟩ | ⟨mem, l', w₁, rfl, -, hround⟩
    · exact warranted_of_none fun x hx => (hquiet x hx).2
    · have hround := hround.warranted fun x hx => hx
      exact (warranted_of_none (l := [_]) (by simp [targeted])).append hround

/-- A pass leaves the guest room for the minimum. -/
theorem Pass.safe {hostTotal hostAvailable : Nat} {tid other : TenantId} {info : ProbeInfo} {w w' : GuestHosts}
    {l : List (Answered Bal)} (hp : Pass env cfg hostTotal hostAvailable other info w l w')
    (hs : (w.guest tid).Safe cfg.minGuestAvailableMb) :
    (w'.guest tid).Safe cfg.minGuestAvailableMb ∧ ∀ x ∈ l, ∀ s, reported x = some (tid, s) →
      cfg.minGuestAvailableMb ≤ (s.availableMemory / mib : Nat) := by
  cases hp with
  | quiet hl hd =>
    refine ⟨hs.follows (hd tid), fun x hx s he => ?_⟩
    rw [(hl x hx).1] at he
    cases he
  | read vm s hd hstats hd' =>
    have hs₁ := hs.follows (hd tid)
    refine ⟨hs₁.follows (hd' tid), fun x hx s' he => ?_⟩
    simp only [List.mem_cons, List.not_mem_nil, or_false] at hx
    rcases hx with rfl | rfl | rfl | rfl <;> cases he
    rw [hstats]
    exact hs₁.keeps
  | sent vm s n o hup hd hstats hd' hn hw ho =>
    have hs₁ := hs.follows (hd tid)
    have hs₂ := hs₁.follows (hd' tid)
    constructor
    · rcases hw with rfl | rfl
      · exact hs₂
      · by_cases he : tid = other
        · subst he
          simp only [Function.update_self]
          refine hs₂.told (hd' tid).1 ?_
          have hkeeps := hs₁.keeps
          rw [hstats] at hn
          rcases target_cases hn with ⟨rfl, -⟩ | ⟨-, -, hleast⟩
          · omega
          · exact hleast
        · simpa [Function.update_of_ne he] using hs₂
    · intro x hx s' he
      simp only [List.mem_cons, List.not_mem_nil, or_false] at hx
      rcases hx with rfl | rfl | rfl | rfl | rfl <;> cases he
      rw [hstats]
      exact hs₁.keeps

/-- A target is sent beside a live sentinel only if the sentinel was touched meanwhile. -/
theorem Pass.live {hostTotal hostAvailable : Nat} {tid : TenantId} {info : ProbeInfo} {w w' : GuestHosts}
    {l : List (Answered Bal)} (hp : Pass env cfg hostTotal hostAvailable tid info w l w') :
    ∀ x ∈ l, ∀ tid n o, targeted x = some (tid, n, o) → o.live = true → o.touched = true := by
  cases hp with
  | quiet hl hd =>
    intro x hx _ _ _ he
    rw [(hl x hx).2] at he
    cases he
  | read => simp [targeted]
  | sent vm s n o _ _ _ _ _ _ ho =>
    intro x hx _ _ _ he
    simp only [List.mem_cons, List.not_mem_nil, or_false] at hx
    rcases hx with rfl | rfl | rfl | rfl | rfl <;> cases he
    exact ho

/-- **Balloon control under lag**, from a poll with no earlier target outstanding. Every target goes to a VM that was
probed up; it is 0, or above the reported size, within the ratio, and leaves the guest the minimum. The minimum holds at
every report if it held at the start. No target is sent to a VM with a live sentinel, if no sentinel is touched between
the agent's look at it and the target. -/
theorem balloons_controlled {log : List (List (TenantId × ProbeInfo) × List (Answered Bal))} {w : GuestHosts}
    (hr : BalloonPolls env h cfg w₀ log w) (h₀ : ∀ tid, (w₀.guest tid).limit = (w₀.guest tid).actual) :
    (∀ e ∈ log, ∀ l₁ tid n o l₂, e.2 = l₁ ++ ⟨⟨tid, .setTarget n⟩, o⟩ :: l₂ →
      (∀ info, (tid, info) ∈ e.1 → info.vmHealth = .up) ∧
        ∃ l₀ vm s, l₁ = l₀ ++ beforeTarget tid vm s ∧ Within cfg vm s n) ∧
    (∀ tid, cfg.minGuestAvailableMb ≤ ((w₀.guest tid).available / mib : Nat) →
      ∀ e ∈ log, ∀ s, ⟨⟨tid, .stats⟩, some s⟩ ∈ e.2 → cfg.minGuestAvailableMb ≤ (s.availableMemory / mib : Nat)) ∧
    ((∀ e ∈ log, ∀ tid n o, ⟨⟨tid, .setTarget n⟩, o⟩ ∈ e.2 → o.touched = false) →
      ∀ e ∈ log, ∀ tid n o, ⟨⟨tid, .setTarget n⟩, o⟩ ∈ e.2 → o.live = false) := by
  refine ⟨?_, ?_, ?_⟩
  · intro e he l₁ tid n o l₂ hl
    obtain ⟨hkeys, hwarranted⟩ := hr.warranted e he
    obtain ⟨l₀, info, vm, s, hl₁, hin, hup, hwithin⟩ := hwarranted l₁ tid n o l₂ hl
    refine ⟨fun info' hin' => ?_, l₀, vm, s, hl₁, hwithin⟩
    have hsame : (tid, info') = (tid, info) := List.inj_on_of_nodup_map hkeys hin' hin rfl
    cases hsame
    exact hup
  · intro tid hkeeps
    have hsafe := hr.induct_pass (I := fun w => (w.guest tid).Safe cfg.minGuestAvailableMb)
      (Q := fun x => ∀ s, reported x = some (tid, s) → cfg.minGuestAvailableMb ≤ (s.availableMemory / mib : Nat))
      (fun hd hs => hs.follows (hd tid)) (fun x hx _ s he => by rw [hx] at he; cases he)
      (fun hp hs => hp.safe hs) (Guest.safe_of_keeps hkeeps (h₀ tid))
    exact fun e he s hs => hsafe.2 e he _ hs s rfl
  · intro hquiet e he tid n o ho
    have hlive := hr.induct_pass (I := fun _ => True)
      (Q := fun x => ∀ tid n o, targeted x = some (tid, n, o) → o.live = true → o.touched = true)
      (fun _ _ => trivial) (fun x _ hx _ _ _ he => by rw [hx] at he; cases he) (fun hp _ => ⟨trivial, hp.live⟩) trivial
    by_contra hc
    have htouched := hlive.2 e he _ ho tid n o rfl (Bool.not_eq_false _ ▸ hc)
    rw [hquiet e he tid n o ho] at htouched
    cases htouched

end Polls

/-! ## A host under pressure -/

/-- A host with one VM of 4096 MiB, whose guest has 2000 MiB available and an empty balloon. -/
def pressedHost : GuestHosts where
  machines :=
    { machine := fun _ =>
        { template := { image := 0, size := bytes 4096 }
          dirs := fun _ => { vmJson := some { vmNum := 1, vcpu := 2, memMb := 4096 }, sock := true, fc := .running } } }
  guest _ := { actual := 0, available := 2000 * mib, limit := 0, actual_le := Nat.le_refl 0 }

/-- One VM, probed up. -/
def oneUp : List (TenantId × ProbeInfo) := [("a-0000", { vmHealth := .up, appHealth := .up })]

/-- The calls of a poll under pressure. -/
def pressedCalls (o : TargetView) : List (Answered Bal) :=
  ⟨⟨"", .hostMem⟩, (16384, 2000)⟩ :: (beforeTarget "a-0000" { vmNum := 1, vcpu := 2, memMb := 4096 } ⟨0, 2000 * mib⟩ ++
    [⟨⟨"a-0000", .setTarget 1488⟩, o⟩])

theorem Elapses.refl (w : GuestHosts) : Elapses w w := ⟨le_refl _, fun _ => .refl _, rfl⟩

/-- The same after the agent's look at the sentinel. -/
def pressedSeen : GuestHosts :=
  { pressedHost with
    machines := pressedHost.machines.setClock 0
    seen := Function.update pressedHost.seen "a-0000" (pressedHost.machines.dir "i-1" "a-0000").sentinel }

/-- A poll of the host; `m` are the files as the target is sent. -/
theorem pressed_poll {m : Machines} (hm : m.clock = 0) {o : TargetView}
    (hlive : o.live = ((m.dir "i-1" "a-0000").sentinel.any fun s => 0 - s ≤ 900000000))
    (ht : o.touched = true ↔ (m.dir "i-1" "a-0000").sentinel ≠ none) :
    BalloonPolls {} "i-1" {} pressedHost [(oneUp, pressedCalls o)] { pressedSeen with machines := m } := by
  have htarget : ({} : BalloonConfig).target 16384 2000 4096 ⟨0, 2000 * mib⟩ = some 1488 := by decide +kernel
  have hmem : (balloons {} "i-1").step ⟨"", .hostMem⟩ (16384, 2000) pressedHost pressedHost :=
    ⟨pressedHost, .refl _, rfl⟩
  have hlook : (balloons {} "i-1").step ⟨"a-0000", .isMigrating⟩ false pressedHost pressedSeen :=
    ⟨pressedHost, .refl _, _, ⟨0, le_refl _, rfl, rfl⟩, rfl⟩
  have hsock : (balloons {} "i-1").step ⟨"a-0000", .testSock⟩ true pressedSeen pressedSeen :=
    ⟨pressedSeen, .refl _, _, ⟨rfl, rfl⟩, rfl⟩
  have hvm : (balloons {} "i-1").step ⟨"a-0000", .readVmJson⟩ (some { vmNum := 1, vcpu := 2, memMb := 4096 })
      pressedSeen pressedSeen := ⟨pressedSeen, .refl _, _, ⟨rfl, rfl⟩, rfl⟩
  have hstats : (balloons {} "i-1").step ⟨"a-0000", .stats⟩ (some ⟨0, 2000 * mib⟩) pressedSeen pressedSeen :=
    ⟨pressedSeen, .refl _, fun s hs => (Option.some.inj hs).symm, rfl⟩
  have hsend : (balloons {} "i-1").step ⟨"a-0000", .setTarget 1488⟩ o pressedSeen
      { pressedSeen with machines := m } := by
    refine ⟨{ pressedSeen with machines := m }, ⟨?_, fun _ => .refl _, rfl⟩, ⟨?_, ?_⟩, .inl rfl⟩
    · simp [pressedSeen, Machines.setClock, hm]
    · simpa [sentinelLive, hm] using hlive
    · simpa [pressedSeen, pressedHost, Machines.dir] using ht
  refine .poll .start (by decide) ?_
  simp only [BalloonConfig.adjustBalloons, if_true, bal_bind]
  refine .call hmem (.call hlook (.call hsock (.call hvm (.call hstats ?_))))
  change Prog.Traces _ (Prog.bind (BalloonConfig.sendTarget "a-0000" (({} : BalloonConfig).target 16384 2000 4096
    ⟨0, 2000 * mib⟩)) _) _ _ _ _
  rw [htarget]
  exact .call hsend (.ret _ _)

theorem balloons_controlled_pressed :
    ∃ w, BalloonPolls {} "i-1" {} pressedHost [(oneUp, pressedCalls ⟨false, false⟩)] w ∧
      512 ≤ (((pressedHost.guest "a-0000").available / mib : Nat) : Int) ∧
        (∀ tid n o, ⟨⟨tid, .setTarget n⟩, o⟩ ∈ pressedCalls ⟨false, false⟩ → o.live = false) ∧
          ∃ l₀ vm s, ⟨⟨"", .hostMem⟩, (16384, 2000)⟩ :: beforeTarget "a-0000" { vmNum := 1, vcpu := 2, memMb := 4096 }
            ⟨0, 2000 * mib⟩ = l₀ ++ beforeTarget "a-0000" vm s ∧ Within {} vm s 1488 := by
  have hrun := pressed_poll (o := ⟨false, false⟩) (m := pressedSeen.machines) rfl (by decide) (by decide)
  obtain ⟨hwithin, -, hsentinel⟩ := balloons_controlled hrun fun _ => rfl
  refine ⟨_, hrun, by decide, ?_, ?_⟩
  · refine fun tid n o ho => hsentinel ?_ _ (List.mem_singleton.2 rfl) tid n o ho
    simp only [pressedCalls, beforeTarget, List.mem_singleton]
    rintro _ rfl tid n o ho
    simp only [List.cons_append, List.nil_append, List.mem_cons, List.not_mem_nil, or_false] at ho
    rcases ho with ho | ho | ho | ho | ho | ho <;> cases ho
    rfl
  · exact (hwithin _ (List.mem_singleton.2 rfl) _ "a-0000" 1488 ⟨false, false⟩ [] rfl).2

/-- **A migration begins during the poll**: `migrate-vm.sh` touches the sentinel after the agent's look at it. -/
theorem balloon_meets_migration :
    ∃ w, BalloonPolls {} "i-1" {} pressedHost [(oneUp, pressedCalls ⟨true, true⟩)] w ∧
      ¬ ∀ e ∈ [(oneUp, pressedCalls ⟨true, true⟩)], ∀ tid n o, ⟨⟨tid, .setTarget n⟩, o⟩ ∈ e.2 → o.live = false := by
  have hrun := pressed_poll (o := ⟨true, true⟩)
    (m := (pressedSeen.machines.upd "i-1" "a-0000" fun d => { d with sentinel := some 0 })) rfl (by simp) (by simp)
  refine ⟨_, hrun, fun hclaim => ?_⟩
  have hlive := hclaim _ (List.mem_singleton.2 rfl) "a-0000" 1488 ⟨true, true⟩ (by simp [pressedCalls])
  cases hlive

end OpenClaw
