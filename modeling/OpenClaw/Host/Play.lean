import OpenClaw.Host.Agent
import OpenClaw.Lib.Simulate

/-!
# Playing the processes of a host

The statements of the scripts and of the agent, computed: a hint says whether a statement that may fail succeeds.

- `shellOracle`: what is computed is an answer that the statement may get.
-/

namespace OpenClaw

open Atomic

structure ShellHint where
  /-- The statement succeeds if it can. -/
  ok : Bool := true
  /-- `os.listdir` of the VM directory. -/
  entries : List TenantId := []
  time : Time := 0
deriving DecidableEq

namespace ShellOp

variable (x : ShellHint) (h : HostId) (tid : TenantId) (m : Machines)

/-- A statement that succeeds where `can` holds, and the hosts after it. -/
def tried (can : Bool) (m₁ : Machines) : Bool × Machines := if x.ok && can then (true, m₁) else (false, m)

/-- A copy: it leaves what it read when it succeeds, and nothing when it fails. -/
def copied (v : Option Volume) : Option Volume := if x.ok then v else none

/-- The answer to a statement. -/
def exec : (op : ShellOp) → Option (op.Ans × Machines)
  | .begin _ => some ((), m)
  | .done _ => some ((), m)
  | .mkdir => some ((), m)
  | .rmStopped => some ((), m.upd h tid fun d => { d with stopped := false })
  | .touchStopped => some ((), m.upd h tid fun d => { d with stopped := true })
  | .testStopped => some ((m.dir h tid).stopped, m)
  | .writeVmJson cfg => some ((), m.upd h tid fun d => { d with vmJson := some cfg })
  | .readVmJson => some ((m.dir h tid).vmJson, m)
  | .rmVmJson => some ((), m.upd h tid fun d => { d with vmJson := none })
  | .touchSentinel =>
    if m.clock ≤ x.time then
      some (tried x m true ((m.setClock x.time).upd h tid fun d => { d with sentinel := some x.time }))
    else none
  | .rmSentinel => some ((), m.upd h tid fun d => { d with sentinel := none })
  | .isMigrating ttl =>
    if m.clock ≤ x.time then
      some ((m.dir h tid).sentinel.any (fun s => x.time - s ≤ ttl), m.setClock x.time)
    else none
  | .testSock => some ((m.dir h tid).sock, m)
  | .rmSock => some ((), m.upd h tid fun d => { d with sock := false })
  | .rmDir => some ((), m.upd h tid fun d => { fc := d.fc, gz := d.gz })
  | .templateSize => some (if x.ok then some (m.machine h).template.size else none, m)
  | .dataSize => some ((m.dir h tid).data.map Volume.size, m)
  | .rmData => some ((), m.upd h tid fun d => { d with data := none })
  | .copyTemplate => some (x.ok, m.upd h tid fun d => { d with data := copied x (some (m.machine h).template) })
  | .fetchBackup key => some (x.ok && (m.backups key).isSome, m)
  | .unpackBackup key => some (x.ok, m.upd h tid fun d => { d with data := copied x (m.backups key) })
  | .fsck => some (x.ok, m.upd h tid fun d => { d with data := d.data.map fun v => v.push .fsck })
  | .inject _ _ =>
    some (tried x m (m.dir h tid).data.isSome
      (m.upd h tid fun d => { d with data := d.data.map fun v => v.push .inject }))
  | .truncate mb => some (tried x m true (m.upd h tid fun d => { d with data := d.data.map fun v => v.truncate mb }))
  | .resize2fs => some (tried x m true (m.upd h tid fun d => { d with data := d.data.map fun v => v.push .fsck }))
  | .copyData src =>
    some (x.ok && (m.dir h src).data.isSome, m.upd h tid fun d => { d with data := copied x (m.dir h src).data })
  | .compress =>
    some (x.ok && (m.dir h tid).data.isSome, m.upd h tid fun d => { d with gz := copied x (m.dir h tid).data })
  | .gzSize => some ((m.dir h tid).gz.map Volume.size, m)
  | .uploadBackup key =>
    match (m.dir h tid).gz with
    | some v => some (tried x m true (m.setBackup key v))
    | none => some (false, m)
  | .rmGz => some ((), m.upd h tid fun d => { d with gz := none })
  | .makeOverlay =>
    match (m.dir h tid).overlay with
    | some v => some (true, m.upd h tid fun d => { d with overlay := some v })
    | none => some (x.ok, m.upd h tid fun d => { d with overlay := if x.ok then some ⟨0, bytes 8192, []⟩ else none })
  | .testOverlay => some ((m.dir h tid).overlay.isSome, m)
  | .copyOverlay src =>
    some (x.ok && (m.dir h src).overlay.isSome,
      m.upd h tid fun d => { d with overlay := copied x (m.dir h src).overlay })
  | .rmOverlay => some ((), m.upd h tid fun d => { d with overlay := none })
  | .ship f uri =>
    some (tried x m ((m.dir h tid).has f) (m.setShipped uri ((m.dir h tid).put f (m.shipped uri))))
  | .fetch f uri => some (tried x m ((m.shipped uri).has f) (m.upd h tid ((m.shipped uri).get f)))
  | .addressOk _ => some (x.ok, m)
  | .setup _ => some (x.ok, m)
  | .pkill => some ((), m.upd h tid fun d => { d with fc := .absent })
  | .startFc => some ((), m.upd h tid fun d => { d with fc := .booting, sock := true })
  | .configure => some (x.ok, m)
  | .instanceStart =>
    some (tried x m ((m.dir h tid).fc ≠ .absent) (m.upd h tid fun d => { d with fc := .running }))
  | .loadSnapshot =>
    some (tried x m ((m.dir h tid).fc ≠ .absent) (m.upd h tid fun d => { d with fc := .running }))
  | .createSnapshot => some (x.ok, m)
  | .pause => some (tried x m ((m.dir h tid).fc = .running ∨ (m.dir h tid).fc = .paused)
      (m.upd h tid fun d => { d with fc := .paused }))
  | .resume => some (tried x m ((m.dir h tid).fc = .running ∨ (m.dir h tid).fc = .paused)
      (m.upd h tid fun d => { d with fc := .running }))
  | .machineConfig _ _ => some (x.ok, m)
  | .listDir => if x.entries.Nodup then some (x.entries, m) else none
  | .pgrep => some ((m.dir h tid).fc ≠ .absent, m)
  | .ping => some (x.ok && (m.dir h tid).fc = .running, m)
  | .isRecovering => some ((m.machine h).recovering tid, m)
  | .setRecovering b =>
    some ((), m.updHost h fun y => { y with recovering := Function.update y.recovering tid b })
  | .netDead => some ((m.machine h).netDead tid, m)
  | .setNetDead n => some ((), m.updHost h fun y => { y with netDead := Function.update y.netDead tid n })
  | .popen cfg => some (tried x m true (m.updHost h fun y => { y with forked := y.forked ++ [(tid, cfg)] }))
  | .inTime => some (x.ok, m)
  | .endPoll => some ((), m.updHost h fun y => { y with polling := false })
  | .sleep _ => some ((), m)

end ShellOp

section Sound

variable {x : ShellHint} {h : HostId} {tid : TenantId} {m m₁ m' : Machines}

theorem tried_sound {can r : Bool} {P : Prop} (hP : can = true → P) (he : ShellOp.tried x m can m₁ = (r, m')) :
    (r = true → P) ∧ did r m m₁ m' := by
  unfold ShellOp.tried at he
  split at he
  · rename_i hc
    obtain ⟨rfl, rfl⟩ := Prod.mk.inj he
    exact ⟨fun _ => hP (Bool.and_eq_true _ _ ▸ hc).2, rfl⟩
  · obtain ⟨rfl, rfl⟩ := Prod.mk.inj he
    exact ⟨nofun, rfl⟩

theorem copied_sound (v : Option Volume) : x.ok = true → ShellOp.copied x v = v := by
  intro hok
  simp [ShellOp.copied, hok]

theorem copied_copyOf {d : VmDir} {v : Option Volume} (h : (x.ok && v.isSome) = true) :
    CopyOf d v (ShellOp.copied x v) := by
  obtain ⟨hok, hv⟩ := Bool.and_eq_true _ _ ▸ h
  rw [copied_sound v hok]
  exact ⟨hv, fun _ => rfl⟩

theorem ShellOp.exec_sound {op : ShellOp} {r : op.Ans} (he : op.exec x h tid m = some (r, m')) :
    opStep h tid op r m m' := by
  cases op
  case begin | done | mkdir | rmStopped | touchStopped | writeVmJson | rmVmJson | rmSentinel | rmSock | rmDir | rmData |
      rmGz | rmOverlay | addressOk | setup | pkill | startFc | configure | createSnapshot | machineConfig |
      setRecovering | setNetDead | inTime | endPoll | sleep | fsck =>
    exact (Prod.mk.inj (Option.some.inj he)).2.symm
  case testStopped | readVmJson | testSock | dataSize | testOverlay | isRecovering | netDead =>
    obtain ⟨rfl, rfl⟩ := Prod.mk.inj (Option.some.inj he)
    exact ⟨rfl, rfl⟩
  case pgrep =>
    obtain ⟨rfl, rfl⟩ := Prod.mk.inj (Option.some.inj he)
    exact ⟨rfl, rfl⟩
  case touchSentinel =>
    simp only [exec] at he
    split at he
    · rename_i hc
      exact ⟨x.time, hc, (tried_sound (fun _ => trivial) (Option.some.inj he)).2⟩
    · cases he
  case isMigrating =>
    simp only [exec] at he
    split at he
    · rename_i hc
      obtain ⟨rfl, rfl⟩ := Prod.mk.inj (Option.some.inj he)
      exact ⟨x.time, hc, rfl, rfl⟩
    · cases he
  case templateSize =>
    obtain ⟨rfl, rfl⟩ := Prod.mk.inj (Option.some.inj he)
    refine ⟨fun s hs => ?_, rfl⟩
    split at hs
    · exact (Option.some.inj hs).symm
    · cases hs
  case copyTemplate =>
    obtain ⟨rfl, rfl⟩ := Prod.mk.inj (Option.some.inj he)
    exact ⟨_, copied_sound _, rfl⟩
  case unpackBackup =>
    obtain ⟨rfl, rfl⟩ := Prod.mk.inj (Option.some.inj he)
    exact ⟨_, copied_sound _, rfl⟩
  case copyData | compress | copyOverlay =>
    obtain ⟨rfl, rfl⟩ := Prod.mk.inj (Option.some.inj he)
    exact ⟨_, copied_copyOf, rfl⟩
  case gzSize =>
    obtain ⟨rfl, rfl⟩ := Prod.mk.inj (Option.some.inj he)
    exact ⟨Option.isSome_map, rfl⟩
  case makeOverlay =>
    cases ho : (m.dir h tid).overlay with
    | some v =>
      simp only [exec, ho] at he
      obtain ⟨rfl, rfl⟩ := Prod.mk.inj (Option.some.inj he)
      exact ⟨some v, fun _ => ⟨rfl, ho.symm⟩, fun _ => rfl, rfl⟩
    | none =>
      simp only [exec, ho] at he
      obtain ⟨rfl, rfl⟩ := Prod.mk.inj (Option.some.inj he)
      refine ⟨_, fun hs => ?_, fun hok => ?_, rfl⟩
      · rw [ho] at hs
        cases hs
      · rw [if_pos hok]
        rfl
  case fetchBackup =>
    obtain ⟨rfl, rfl⟩ := Prod.mk.inj (Option.some.inj he)
    exact ⟨fun hc => (Bool.and_eq_true _ _ ▸ hc).2, rfl⟩
  case inject =>
    obtain ⟨hr, hd⟩ := tried_sound id (Option.some.inj he)
    refine ⟨hr, ?_⟩
    cases r with
    | true => exact .inl hd
    | false => exact .inr ⟨rfl, hd⟩
  case truncate | resize2fs | popen => exact (tried_sound (fun _ => trivial) (Option.some.inj he)).2
  case uploadBackup key =>
    simp only [exec] at he
    split at he
    · rename_i v hv
      simp only [opStep, hv]
      exact (tried_sound (fun _ => trivial) (Option.some.inj he)).2
    · rename_i hv
      simp only [opStep, hv]
      obtain ⟨rfl, rfl⟩ := Prod.mk.inj (Option.some.inj he)
      exact ⟨rfl, rfl⟩
  case ship | fetch => exact tried_sound id (Option.some.inj he)
  case instanceStart | loadSnapshot | pause | resume => exact tried_sound of_decide_eq_true (Option.some.inj he)
  case listDir =>
    simp only [exec] at he
    split at he
    · rename_i hc
      obtain ⟨rfl, rfl⟩ := Prod.mk.inj (Option.some.inj he)
      exact ⟨hc, rfl⟩
    · cases he
  case ping =>
    obtain ⟨rfl, rfl⟩ := Prod.mk.inj (Option.some.inj he)
    exact ⟨fun hc => of_decide_eq_true (Bool.and_eq_true _ _ ▸ hc).2, rfl⟩

end Sound

/-- The statements, computed. -/
def shellOracle : Oracle shell ShellHint where
  exec c x m := c.op.exec x c.host c.tenant m
  sound he := ShellOp.exec_sound he

/-- The start of a process, computed. -/
def hostStart (h : HostId) (j : HostJob) (m : Machines) : Option Machines :=
  match j with
  | .poll => if (m.machine h).polling then none else some (m.updHost h fun x => { x with polling := true })
  | .forked tid cfg =>
    if (tid, cfg) ∈ (m.machine h).forked then
      some (m.updHost h fun x => { x with forked := x.forked.erase (tid, cfg) })
    else none
  | .crash tid => some (m.upd h tid fun d => { d with fc := .absent })
  | _ => some m

theorem hostStart_sound {env : PlatformEnv} {h : HostId} :
    ∀ (j : HostJob) (m m' : Machines), hostStart h j m = some m' → (hostJobs env h).start j m m' := by
  intro j m m' he
  cases j with
  | poll =>
    simp only [hostStart] at he
    split at he
    · cases he
    · rename_i hp
      exact ⟨Bool.not_eq_true _ ▸ hp, (Option.some.inj he).symm⟩
  | forked tid cfg =>
    simp only [hostStart] at he
    split at he
    · rename_i hm
      exact ⟨hm, (Option.some.inj he).symm⟩
    · cases he
  | ssm | backup | crash => exact (Option.some.inj he).symm

/-! ## The next call -/

/-- The process makes the call next. -/
def makesNext {J α : Type} (a : ShellCall) : J × ShProg α → Bool
  | (_, .call a' _) => a' = a
  | _ => false

theorem proc_of_makesNext {J α : Type} {c : Conf Sh Machines J ℕ α} {i : ℕ} {a : ShellCall}
    (h : (c.proc i).any (makesNext a) = true) : ∃ j k, c.proc i = some (j, .call a k) := by
  obtain ⟨⟨j, p⟩, hp, hnext⟩ := (Option.any_eq_true _ _).1 h
  cases p with
  | ret u => cases hnext
  | call a' k =>
    obtain rfl : a' = a := of_decide_eq_true hnext
    exact ⟨j, k, hp⟩

end OpenClaw
