import OpenClaw.Lib.Errexit

/-!
# The start of a host

`init-host.sh`, the user data of a new host, runs under `set -e`; its `EXIT` trap settles the lifecycle hook of the
autoscaling group. What only prints or sets a variable from a text at hand is left out.

- `hook_settled`: once the host knows its instance id and region, every run settles the hook exactly once, with `CONTINUE`
  exactly when the host was registered in DynamoDB, and a host that tries to register has carried out every step that
  `bootSteps.goes` lists; what runs under a condition (the metrics collector, a new file system) is not in the list.
- `boots_without_images`: the two decompressions are not among those steps.
-/

namespace OpenClaw

open Atomic Errexit

/-- The two images of the manifest. -/
inductive AssetImage
  | rootfs
  | dataTemplate
deriving DecidableEq

inductive ImdsField
  | token
  | region
  | az
  | instanceId
  | privateIp
deriving DecidableEq

/-- What is copied from S3. -/
inductive BootObject
  | hostAgent
  | adotConfig
  | manifest
  /-- `rootfs.gz` and `data.gz`. -/
  | gz (i : AssetImage)
  | launchVm
  | stopVm
  | cloneData
  | migrateVm
  | resizeDisk
  | backupData
deriving DecidableEq

/-- The conditions that the script looks at. -/
inductive BootTest
  | hasInstanceId
  | hasRegion
  | hostKeyMissing
  | awsMissing
  | metricsOn
  | dataDeviceMissing
  | notExt4
  | manifestMissing
  | agentcoreOn
deriving DecidableEq

inductive HookResult
  | continue
  | abandon
deriving DecidableEq

inductive BootCmd
  | imds (f : ImdsField)
  | test (t : BootTest)
  | complete (r : HookResult)
  /-- `aws s3 cp`. -/
  | copy (o : BootObject)
  | sleep
  | systemctl (verb unit : String)
  | chmodKvm
  | udevRule
  | aptUpdate
  | aptInstall (packages : String)
  | mkdir (dir : String)
  | sshKeygen
  | chmod (path : String)
  | chown (path : String)
  | fetchAws
  | cd (dir : String)
  | unzipAws
  | installAws
  | unpackFirecracker
  | mv (path : String)
  | rm (path : String)
  | write (path : String)
  | fetchAdot
  | dpkg
  | envsubst
  | mkfs
  | mount
  | blkid
  | link
  | describeVolume
  | tagVolume
  | fcMajor
  | fetchKernel
  | parseManifest
  /-- `pigz -dc`. -/
  | decompress (i : AssetImage)
  | digHoles
  | syncSkills
  /-- `aws dynamodb put-item`. -/
  | putItem
deriving DecidableEq

abbrev BootScript := ShScript BootCmd

/-- The commands one after the other. -/
def inOrder : List BootScript → BootScript
  | [] => .const true
  | [a] => a
  | a :: as => .seq a (inOrder as)

/-- `cmd || true`. -/
def orTrue (c : BootScript) : BootScript := .or c (.const true)

/-- `_s3_get`. -/
def s3Get (o : BootObject) : BootScript := .tries 20 (.run (.copy o)) (.run .sleep) (.const false)

/-- A script or program file, with the retries. -/
def fetch (o : BootObject) : BootScript := .or (.run (.copy o)) (s3Get o)

/-- `chmod +x file && chown ubuntu:ubuntu file`. -/
def executable (path : String) : BootScript := .and (.run (.chmod path)) (.run (.chown path))

def deploy (o : BootObject) (path : String) : List BootScript := [fetch o, executable path]

/-- The loop over `clone-data`, `migrate-vm` and `resize-disk`. -/
def deployHelper (o : BootObject) (path : String) : List BootScript := [.or (fetch o) (.const true), executable path]

/-- `pigz -dc gz > image && rm -f gz`. -/
def unpackImage (i : AssetImage) (gz : String) : BootScript := .and (.run (.decompress i)) (.run (.rm gz))

/-- Up to the trap. -/
def bootHead : BootScript := inOrder
  [.run (.imds .token), .run (.imds .region), .run (.imds .az), .run (.imds .instanceId), .run (.imds .privateIp),
   .or (.and (.run (.test .hasInstanceId)) (.run (.test .hasRegion))) (.exit false)]

/-- Steps 0 to 2. -/
def bootTools : List BootScript :=
  [orTrue (.run (.systemctl "stop" "unattended-upgrades apt-daily-upgrade.service")),
   .run .chmodKvm, .run .udevRule, .run .aptUpdate, .run (.aptInstall "curl jq unzip pigz nginx"),
   .run (.mkdir "/etc/openclaw"),
   .ite (.run (.test .hostKeyMissing)) (.seq (.run .sshKeygen) (.run (.chmod "/etc/openclaw/host_vm_key"))) (.const true),
   .ite (.run (.test .awsMissing)) (inOrder
     [.run .fetchAws, .and (.and (.run (.cd "/tmp")) (.run .unzipAws)) (.run .installAws), .run (.cd "-")]) (.const true),
   .run .unpackFirecracker, .run (.mv "/usr/local/bin/firecracker"), .run (.mv "/usr/local/bin/jailer"),
   .run (.rm "release")]

/-- The services of the host. -/
def bootServices : List BootScript :=
  [.run (.write "/etc/platform.env"), .run (.mkdir "/etc/nginx/conf.d/tenants"),
   .run (.mkdir "/etc/nginx/conf.d/tenant-peers"), .run (.write "/etc/nginx/conf.d/openclaw-proxy.conf"),
   .run (.rm "/etc/nginx/sites-enabled/default"), .run (.systemctl "enable" "nginx"), .run (.systemctl "restart" "nginx"),
   .run (.write "/etc/systemd/system/host-agent.service"), .run (.mkdir "/opt/openclaw"), fetch .hostAgent,
   .run (.systemctl "daemon-reload" ""), .run (.systemctl "enable" "host-agent"), .run (.systemctl "start" "host-agent"),
   .ite (.run (.test .metricsOn)) (inOrder
     [.run .fetchAdot, .or (.run .dpkg) (.run (.aptInstall "-f")), .run (.rm "/tmp/aws-otel-collector.deb"),
      .run (.copy .adotConfig), .run .envsubst, .run (.mv "config.yaml"), .run (.systemctl "enable" "aws-otel-collector"),
      .run (.systemctl "restart" "aws-otel-collector")]) (.const true)]

/-- Step 3: the data volume. -/
def bootVolume : List BootScript :=
  [.ite (.run (.test .dataDeviceMissing)) (.exit false) (.const true),
   .ite (.run (.test .notExt4)) (.run .mkfs) (.const true),
   .run (.mkdir "/data"), .run .mount, .run .blkid, .run (.write "/etc/fstab"), .run (.mkdir "/data/firecracker-assets"),
   .run (.chown "/data/firecracker-assets"), .run (.rm "/home/ubuntu/firecracker-assets"), .run .link,
   .run .describeVolume, .run .tagVolume]

/-- Step 3b: kernel, root file system and data template. -/
def bootImages : List BootScript :=
  [.run .fcMajor, .run .fetchKernel, .tries 20 (.run (.copy .manifest)) (.run .sleep) (.const true),
   .ite (.run (.test .manifestMissing)) (.exit false) (.const true),
   -- `eval` of what a failed command prints succeeds.
   orTrue (.run .parseManifest),
   .run (.copy (.gz .rootfs)), .run (.copy (.gz .dataTemplate)), unpackImage .rootfs "rootfs.gz",
   unpackImage .dataTemplate "data.gz", .run .digHoles, .run (.chown "assets")]

/-- Steps 3c to 4b. -/
def bootScripts : List BootScript :=
  [.run (.mkdir "/data/shared-skills"), orTrue (.run .syncSkills), .run (.chown "/data/shared-skills"),
   .run (.write "/etc/cron.d/openclaw-skills-sync")] ++
  deploy .launchVm "launch-vm.sh" ++ deploy .stopVm "stop-vm.sh" ++ deployHelper .cloneData "clone-data.sh" ++
  deployHelper .migrateVm "migrate-vm.sh" ++ deployHelper .resizeDisk "resize-disk.sh" ++
  [.run (.copy .backupData), executable "backup-data.sh",
   .ite (.run (.test .agentcoreOn)) (.seq (.run (.write "/data/agentcore.env")) (.run (.chown "/data/agentcore.env")))
     (.const true)]

/-- All steps before the registration. -/
def bootSteps : BootScript := inOrder (bootTools ++ bootServices ++ bootVolume ++ bootImages ++ bootScripts)

/-- Step 5. -/
def register : BootScript := .tries 10 (.run .putItem) (.run .sleep) (.exit false)

/-- `_complete_hook`. -/
def completeHook (ok : Bool) : BootScript := orTrue (.run (.complete (if ok then .continue else .abandon)))

/-- `init-host.sh`; the exit status. -/
def initHost : Prog (Cmds BootCmd) Bool := do
  let e ← bootHead.exec false
  if e.exits then pure e.status else (ShScript.seq bootSteps register).withTrap completeHook

/-! ## Runs of the script -/

abbrev BootLog := List (Answered (Cmds BootCmd))

/-- The calls that tell the autoscaling group how the launch ended, whether they succeed or not. -/
def BootLog.settled (l : BootLog) : List HookResult :=
  l.filterMap fun x => match x.1 with
    | .complete r => some r
    | _ => none

theorem BootLog.settled_append (l l' : BootLog) : BootLog.settled (l ++ l') = BootLog.settled l ++ BootLog.settled l' :=
  List.filterMap_append

/-- The host is registered. -/
def BootLog.registered (l : BootLog) : Prop := ⟨.putItem, true⟩ ∈ l

/-- The script tried to register the host. -/
def BootLog.registers (l : BootLog) : Prop := ∃ ok, ⟨.putItem, ok⟩ ∈ l

section Runs

/-- A part of the script that neither settles the hook nor registers the host. -/
theorem silent_part {s : BootScript} {ignored : Bool} {l : BootLog} {e : Ending} (h : (s.exec ignored).Plays l e)
    (hs : ∀ c ∈ s.commands, c ≠ .putItem ∧ ∀ r, c ≠ .complete r) : BootLog.settled l = [] ∧ ¬ BootLog.registers l := by
  have hl := commands_of_exec h
  constructor
  · refine List.filterMap_eq_nil_iff.2 fun x hx => ?_
    obtain ⟨c, ok⟩ := x
    cases c
    case complete r => exact absurd rfl ((hs _ (hl _ hx)).2 r)
    all_goals rfl
  · rintro ⟨ok, hm⟩
    exact (hs _ (hl _ hm)).1 rfl

theorem bootHead_silent : ∀ c ∈ bootHead.commands, c ≠ .putItem ∧ ∀ r, c ≠ .complete r := by
  have h : ∀ c ∈ bootHead.commands, c ≠ .putItem ∧ c ≠ .complete .continue ∧ c ≠ .complete .abandon := by decide
  exact fun c hc => ⟨(h c hc).1, fun r => by cases r <;> simp [h c hc]⟩

theorem bootSteps_silent : ∀ c ∈ bootSteps.commands, c ≠ .putItem ∧ ∀ r, c ≠ .complete r := by
  have h : ∀ c ∈ bootSteps.commands, c ≠ .putItem ∧ c ≠ .complete .continue ∧ c ≠ .complete .abandon := by decide
  exact fun c hc => ⟨(h c hc).1, fun r => by cases r <;> simp [h c hc]⟩

/-- The registration succeeds exactly when a `put-item` does. -/
theorem register_wpt (n : ℕ) : (ShScript.rounds (ShScript.exec (.run .putItem) true) (ShScript.exec (.run .sleep) false)
    (ShScript.exec (.exit false) false) n).wpt (anyStatus BootCmd)
    (fun l e _ => (e.status = true ↔ BootLog.registered l) ∧ BootLog.settled l = []) () := by
  induction n with
  | zero => exact ⟨by simp [Ending.status, BootLog.registered], rfl⟩
  | succ n ih =>
    rintro ok ⟨⟩ -
    cases ok with
    | true => exact ⟨by simp [Ending.of, Ending.status, BootLog.registered], rfl⟩
    | false =>
      rintro ok ⟨⟩ -
      cases ok with
      | true =>
        refine Prog.wpt_mono (fun l e _ h => ?_) ih
        obtain ⟨hr, hs⟩ := h
        exact ⟨hr.trans (by simp [BootLog.registered]), hs⟩
      | false => exact ⟨by simp [Ending.of, Ending.status, BootLog.registered], rfl⟩

/-- What a whole run looks like. -/
structure Booted (l : BootLog) (ok : Bool) : Prop where
  /-- The host knows who it is. -/
  identified : Succeeded bootHead.goes l
  /-- The hook is settled once. -/
  settled : BootLog.settled l = [if ok then .continue else .abandon]
  status : ok = true ↔ BootLog.registered l
  steps : BootLog.registers l → Succeeded bootSteps.goes l

theorem completeHook_wpt (ok : Bool) : ((completeHook ok).exec false).wpt (anyStatus BootCmd)
    (fun l _ _ => BootLog.settled l = [if ok then .continue else .abandon] ∧ ¬ BootLog.registers l) () := by
  rintro r ⟨⟩ -
  cases r <;> exact ⟨rfl, by simp [BootLog.registers]⟩

theorem BootLog.registered_append {l l' : BootLog} :
    BootLog.registered (l ++ l') ↔ BootLog.registered l ∨ BootLog.registered l' := List.mem_append

theorem BootLog.registered.registers {l : BootLog} (h : l.registered) : l.registers := ⟨true, h⟩

/-- **The lifecycle hook is settled.** A run that does not fail to read the host's identity settles the hook exactly once,
with `CONTINUE` exactly when the host is registered; no host registers before every mandatory step has succeeded. -/
theorem hook_settled {l : BootLog} {ok : Bool} (h : initHost.Plays l ok) :
    (ok = false ∧ BootLog.settled l = [] ∧ ∃ c ∈ bootHead.commands, ⟨c, false⟩ ∈ l) ∨ Booted l ok := by
  refine Prog.plays_of_wpt (Q := fun l ok _ => (ok = false ∧ BootLog.settled l = [] ∧ ∃ c ∈ bootHead.commands,
    ⟨c, false⟩ ∈ l) ∨ Booted l ok) ?_ h
  rw [initHost, Prog.wpt_bind]
  refine Prog.wpt_mono (fun l e _ hhead => ?_) (Prog.wpt_plays _ _)
  obtain ⟨hset, hreg⟩ := silent_part hhead bootHead_silent
  split
  · rename_i hx
    show _ ∨ Booted (l ++ []) _
    rw [List.append_nil]
    obtain ⟨⟨c, r⟩, hm, hf⟩ := failed_of_exec (by decide) hhead (by rintro rfl; cases hx)
    obtain rfl : r = false := hf
    exact .inl ⟨status_of_exits (by decide) hhead hx, hset, c, commands_of_exec hhead _ hm, hm⟩
  · rename_i hx
    have hid : Succeeded bootHead.goes l := goes_of_exec hhead (Bool.not_eq_true _ ▸ hx)
    rw [ShScript.withTrap, ShScript.exec, Prog.bind_assoc, Prog.wpt_bind]
    refine Prog.wpt_mono (fun l₁ e₁ _ hsteps => ?_) (Prog.wpt_plays _ _)
    obtain ⟨hset₁, hreg₁⟩ := silent_part hsteps bootSteps_silent
    split
    · -- A step has ended the shell before the registration.
      rename_i hx₁
      have hst : e₁.status = false := status_of_exits (by decide) hsteps hx₁
      rw [Prog.pure_eq, Prog.ret_bind, Prog.wpt_bind]
      refine Prog.wpt_mono (fun l₂ _ _ htrap => ?_) (completeHook_wpt _)
      obtain ⟨hset₂, hreg₂⟩ := htrap
      have hno : ¬ BootLog.registers (l ++ (l₁ ++ (l₂ ++ []))) := by
        rintro ⟨ok, hm⟩
        simp only [List.append_nil, List.mem_append] at hm
        rcases hm with hm | hm | hm
        · exact hreg ⟨ok, hm⟩
        · exact hreg₁ ⟨ok, hm⟩
        · exact hreg₂ ⟨ok, hm⟩
      refine .inr ⟨hid.left _, ?_, ?_, fun hr => absurd hr hno⟩
      · simp [BootLog.settled_append, hset, hset₁, hset₂]
      · simp only [hst, Bool.false_eq_true, false_iff]
        exact fun hr => hno hr.registers
    · rename_i hx₁
      have hgoes : Succeeded bootSteps.goes l₁ := goes_of_exec hsteps (Bool.not_eq_true _ ▸ hx₁)
      rw [Prog.wpt_bind]
      refine Prog.wpt_mono (fun l₂ e₂ _ hput => ?_) (register_wpt 10)
      obtain ⟨hst, hset₂⟩ := hput
      rw [Prog.wpt_bind]
      refine Prog.wpt_mono (fun l₃ _ _ htrap => ?_) (completeHook_wpt _)
      obtain ⟨hset₃, hreg₃⟩ := htrap
      refine .inr ⟨hid.left _, ?_, ?_, fun _ => (hgoes.left _).right l⟩
      · simp [BootLog.settled_append, hset, hset₁, hset₂, hset₃]
      · have hl : ¬ BootLog.registered l := fun hr => hreg hr.registers
        have hl₁ : ¬ BootLog.registered l₁ := fun hr => hreg₁ hr.registers
        have hl₃ : ¬ BootLog.registered l₃ := fun hr => hreg₃ hr.registers
        refine hst.trans ?_
        simp only [BootLog.registered_append, hl, hl₁, hl₃, false_or]
        simp [BootLog.registered]

end Runs

/-- All goes well on a new host with a data volume, but for the commands in `failing`. -/
def bootAnswer (failing : List BootCmd) (c : BootCmd) : Bool :=
  c ∉ failing ∧ c ≠ .test .dataDeviceMissing ∧ c ≠ .test .manifestMissing

/-- The run of the script under these answers. -/
def bootRun (failing : List BootCmd) : BootLog × Bool := initHost.answered (bootAnswer failing)

theorem bootRun_plays (failing : List BootCmd) : initHost.Plays (bootRun failing).1 (bootRun failing).2 :=
  Prog.plays_answered _ _

/-- The host is registered. -/
theorem hook_settled_registered : ∃ l, initHost.Plays l true ∧ Booted l true ∧ BootLog.registered l := by
  have hok : (bootRun []).2 = true := by decide
  have hp : initHost.Plays (bootRun []).1 true := hok ▸ bootRun_plays []
  have hb : Booted (bootRun []).1 true := (hook_settled hp).resolve_left fun h => by cases h.1
  exact ⟨_, hp, hb, hb.status.1 rfl⟩

/-- The host is registered even when the images could not be unpacked: a failure before `&&` is ignored. -/
theorem boots_without_images : ∃ l, initHost.Plays l true ∧ BootLog.registered l ∧
    ∀ i, (⟨.decompress i, true⟩ : Answered (Cmds BootCmd)) ∉ l := by
  let failing : List BootCmd := [.decompress .rootfs, .decompress .dataTemplate]
  have hok : (bootRun failing).2 = true := by decide
  have hreg : (⟨.putItem, true⟩ : Answered (Cmds BootCmd)) ∈ (bootRun failing).1 := by decide
  refine ⟨(bootRun failing).1, hok ▸ bootRun_plays failing, hreg, fun i => ?_⟩
  cases i <;> decide

end OpenClaw
