import OpenClaw.Api.Names
import OpenClaw.Fleet.Programs
import OpenClaw.Host.Processes

/-!
# The skills of a launch

`launch-vm.sh` copies skills from the host's shared directory into the volume: those listed in its seventh argument, or
all of them when the argument is missing. The API passes the tenant's effective skills when it creates the tenant.
Everything else that starts the VM passes no seventh argument.

- `SharedSkills.injected`: what `launch-vm.sh` copies for a seventh argument.
- `Started`: every way it gets to the copy, from the program that sends the command to the script.
- `started_scope`: the argument it has there.
- `skill_scope`: when what it copies is within the effective skills.
-/

namespace OpenClaw

open Atomic

variable (cfg : Config) (env : PlatformEnv)

/-! ## What launch-vm.sh copies -/

/-- The seventh argument: the names with commas between them, `""` for none. -/
def scopeWord (skills : List String) : List Char := [','].intercalate (skills.map String.toList)

/-- `IFS=',' read -ra`: the first line, cut at the commas; an empty last field is dropped. -/
def scopePieces (word : List Char) : List String :=
  let fields := (word.takeWhile (· ≠ '\n')).splitOn ','
  (if fields.getLast? = some [] then fields.dropLast else fields).map String.ofList

/-- What a launch finds on a host. -/
structure SharedSkills where
  /-- The skills that `cp -r "$SHARED_SKILLS"/*` copies. -/
  names : List String
  /-- The skills that `cp -r "$SHARED_SKILLS/$path"` copies; none when that is no directory. -/
  below : String → List String
  /-- The seventh argument, as the shell of the host reads it in the text of the command. -/
  word : List Char → List Char
  below_names : ∀ path, ∀ s ∈ below path, s ∈ names
  below_plain : ∀ s, plainName s = true → ∀ x ∈ below s, x = s
  word_plain : ∀ text, (∀ c ∈ text, c = ',' ∨ labelChar c = true) → word text = text

/-- The names that the script finds in the seventh argument. -/
def SharedSkills.pieces (cat : SharedSkills) (scope : List String) : List String :=
  scopePieces (cat.word (scopeWord scope))

/-- The argument asks for all skills. -/
def SharedSkills.broadcast (cat : SharedSkills) (scope : List String) : Prop :=
  cat.word (scopeWord scope) = [] ∨ cat.word (scopeWord scope) = ['*']

instance (cat : SharedSkills) (scope : List String) : Decidable (cat.broadcast scope) :=
  inferInstanceAs (Decidable (_ ∨ _))

/-- The skills that are copied. -/
def SharedSkills.injected (cat : SharedSkills) (scope : List String) : List String :=
  if scope = [] ∨ cat.broadcast scope then cat.names else (cat.pieces scope).flatMap cat.below

/-- Only skills of `E` are copied. -/
def InScope (cat : SharedSkills) (scope E : List String) : Prop := ∀ s ∈ cat.injected scope, s ∈ E

/-- The names, as the shell reads them and `launch-vm.sh` cuts them apart, stand for skills of `E` only. A name with a
comma, a slash, a blank or a newline in it, or `*`, may not. -/
def NamesOnly (cat : SharedSkills) (names E : List String) : Prop :=
  ¬ cat.broadcast names ∧ ∀ p ∈ cat.pieces names, ∀ s ∈ cat.below p, s ∈ E

section Copies

variable {cat : SharedSkills} {names E : List String}

/-- **What is copied stays in `E`** when all is in `E`, or when names were passed that stand for skills of `E`. -/
theorem inScope_iff : InScope cat names E ↔ (∀ s ∈ cat.names, s ∈ E) ∨ names ≠ [] ∧ NamesOnly cat names E := by
  have hsub : (∀ s ∈ cat.names, s ∈ E) → ∀ p ∈ cat.pieces names, ∀ s ∈ cat.below p, s ∈ E :=
    fun h p _ s hs => h s (cat.below_names p s hs)
  unfold InScope SharedSkills.injected NamesOnly
  by_cases hall : names = [] ∨ cat.broadcast names
  · rw [if_pos hall]
    constructor
    · exact .inl
    · intro h
      obtain h | ⟨hne, hnb, -⟩ := h
      · exact h
      · exact absurd hall (not_or.2 ⟨hne, hnb⟩)
  · rw [if_neg hall]
    obtain ⟨hne, hnb⟩ := not_or.1 hall
    simp only [List.mem_flatMap]
    constructor
    · intro h
      exact .inr ⟨hne, hnb, fun p hp s hs => h s ⟨p, hp, hs⟩⟩
    · intro h s hs
      obtain ⟨p, hp, hs⟩ := hs
      exact h.elim (fun h => hsub h p hp s hs) fun h => h.2.2 p hp s hs

theorem plainName_iff {s : String} : plainName s = true ↔ s ≠ "" ∧ ∀ c ∈ s.toList, labelChar c = true := by
  simp [plainName]

/-- The text of plain names. -/
theorem scopeWord_plain (hp : ∀ s ∈ names, plainName s = true) :
    ∀ c ∈ scopeWord names, c = ',' ∨ labelChar c = true := by
  intro c hc
  have hchar : ∀ cs ∈ names.map String.toList, ∀ c ∈ cs, labelChar c = true := by
    intro cs hcs
    obtain ⟨s, hs, rfl⟩ := List.mem_map.1 hcs
    exact (plainName_iff.1 (hp s hs)).2
  unfold scopeWord at hc
  generalize names.map String.toList = css at hc hchar
  induction css with
  | nil => cases hc
  | cons cs css ih =>
    cases css with
    | nil => exact .inr (hchar cs List.mem_cons_self c (by simpa [List.intercalate] using hc))
    | cons cs' css =>
      have hsplit : [','].intercalate (cs :: cs' :: css) = cs ++ ',' :: [','].intercalate (cs' :: css) := rfl
      rw [hsplit, List.mem_append, List.mem_cons] at hc
      rcases hc with hc | hc | hc
      · exact .inr (hchar cs List.mem_cons_self c hc)
      · exact .inl hc
      · exact ih hc fun x hx => hchar x (List.mem_cons_of_mem _ hx)

/-- Plain names, cut apart again. -/
theorem scopePieces_plain (hne : names ≠ []) (hp : ∀ s ∈ names, plainName s = true) :
    scopePieces (scopeWord names) = names := by
  have hchar : ∀ cs ∈ names.map String.toList, cs ≠ [] ∧ ',' ∉ cs := by
    intro cs hcs
    obtain ⟨s, hs, rfl⟩ := List.mem_map.1 hcs
    obtain ⟨hs, hc⟩ := plainName_iff.1 (hp s hs)
    exact ⟨by simpa using hs, fun hmem => absurd (hc _ hmem) (by decide)⟩
  have hline : (scopeWord names).takeWhile (· ≠ '\n') = scopeWord names := by
    refine List.takeWhile_eq_self_iff.2 fun c hc => ?_
    have hno : c ≠ '\n' := by
      rintro rfl
      rcases scopeWord_plain hp _ hc with hc | hc <;> exact absurd hc (by decide)
    simpa using hno
  have hfields : (scopeWord names).splitOn ',' = names.map String.toList :=
    List.splitOn_intercalate ',' (fun cs hcs => (hchar cs hcs).2) (by simpa using hne)
  have hlast : (names.map String.toList).getLast? ≠ some [] := by
    intro h
    exact (hchar [] (List.mem_of_getLast? h)).1 rfl
  simp only [scopePieces, hline, hfields, if_neg hlast, List.map_map]
  simp [Function.comp_def]

/-- Plain names stand for themselves. -/
theorem namesOnly_of_plain (hne : names ≠ []) (hp : ∀ s ∈ names, plainName s = true) (hE : ∀ s ∈ names, s ∈ E) :
    NamesOnly cat names E := by
  have hword : cat.word (scopeWord names) = scopeWord names := cat.word_plain _ (scopeWord_plain hp)
  have hpieces := scopePieces_plain hne hp
  unfold NamesOnly SharedSkills.broadcast SharedSkills.pieces
  rw [hword]
  constructor
  · intro h
    rcases h with h | h
    · exact hne (by rw [← hpieces, h]; decide)
    · have hone : names = ["*"] := by rw [← hpieces, h]; decide
      subst hone
      exact absurd (hp "*" List.mem_cons_self) (by decide)
  · rw [hpieces]
    intro p hmem s hs
    rw [cat.below_plain p (hp p hmem) s hs]
    exact hE p hmem

end Copies

/-! ## The commands of the control plane -/

/-- The runs of `launch-vm.sh` in a command, with the skills they are given. -/
def HostCmd.scopes : HostCmd → List (TenantId × List String)
  | .launchVm tid _ _ _ _ _ skills => [(tid, skills)]
  | .migrateVm .coldRestore tid _ _ => [(tid, [])]
  | .and a b | .seq a b => a.scopes ++ b.scopes
  | _ => []

/-- The run wrote the row, or scanned it as pending. -/
def RowOf (l : CallLog) (row : TenantRow) : Prop :=
  Saw l (.putTenant row) true ∨ ∃ ts : List TenantRow, Saw l (.scanTenants (.status .pending)) ts ∧ row ∈ ts

/-- Every launch in the run is given the effective skills of the tenant's row. -/
def Passed (l : CallLog) : Prop :=
  ∀ x ∈ vmCommands l, ∀ q ∈ x.2.scopes, ∃ row, RowOf l row ∧ row.id = q.1 ∧ EffectiveSkills row l q.2

/-- The same, for the row `t`. -/
def PassedFor (t : TenantRow) (l : CallLog) : Prop :=
  ∀ x ∈ vmCommands l, ∀ q ∈ x.2.scopes, q.1 = t.id ∧ EffectiveSkills t l q.2

section Commands

variable {cfg} {l l' : CallLog} {t : TenantRow}

/-- **No command for a tenant that exists already carries skills.** -/
theorem Sent.scopes {cmd : HostCmd} (h : Sent cmd) : ∀ q ∈ cmd.scopes, q.2 = [] := by
  cases h with
  | plain h => cases cmd <;> simp_all [HostCmd.scopes, HostCmd.plain]
  | stop => simp [HostCmd.scopes]
  | leave => simp [HostCmd.scopes]
  | migrate verb => cases verb <;> simp [HostCmd.scopes]
  | relaunch => simp [HostCmd.scopes]

theorem SimpleAction.scopes (a : SimpleAction) (t : TenantRow) : ∀ q ∈ (a.cmd t).scopes, q.2 = [] := by
  cases a <;> simp only [SimpleAction.cmd, withDnat, relaunchCmd] <;> try split
  all_goals simp [HostCmd.scopes]

theorem mem_vmCommands {h : HostId} {cmd : HostCmd} (hm : (h, cmd) ∈ vmCommands l) :
    ∃ x ∈ l, x.1 = .ssmSend (some h) cmd ∨ x.1 = .ssmRun h cmd := by
  obtain ⟨x, hx, hf⟩ := List.mem_filterMap.1 hm
  refine ⟨x, hx, ?_⟩
  split at hf
  · rename_i h' cmd' he
    obtain ⟨rfl, rfl⟩ := Prod.mk.inj (Option.some.inj hf)
    exact .inl he
  · rename_i h' cmd' he
    obtain ⟨rfl, rfl⟩ := Prod.mk.inj (Option.some.inj hf)
    exact .inr he
  · cases hf

/-- A program that creates nothing passes no skills. -/
theorem unscoped_of_made {j : FleetJob} (hj : ¬ j.creates) (hp : (fleetBody cfg j).Plays l ()) {h : HostId}
    {cmd : HostCmd} (hm : (h, cmd) ∈ vmCommands l) : ∀ q ∈ cmd.scopes, q.2 = [] := by
  obtain ⟨⟨c, r⟩, hx, hc⟩ := mem_vmCommands hm
  have hmade := Prog.plays_all (fleetBody_made j) hp _ hx
  rcases hc with rfl | rfl
  · cases hmade with
    | mute hb => exact hb.mute.elim
    | count _ hcount => exact hcount.elim
    | send h => exact h.scopes
    | launch h => exact absurd ((duty_launches j).1 h) hj
  · cases hmade with
    | mute hb => exact hb.mute.elim
    | count _ hcount => exact hcount.elim
    | run h => exact h.scopes
    | act _ a t => exact a.scopes t

theorem RowOf.mono {row : TenantRow} (h : RowOf l row) (hl : ∀ x ∈ l, x ∈ l') : RowOf l' row := by
  rcases h with h | ⟨ts, h, hrow⟩
  · exact .inl (hl _ h)
  · exact .inr ⟨ts, hl _ h, hrow⟩

theorem Passed.of_silent (h : vmCommands l = []) : Passed l := by
  intro x hx
  rw [h] at hx
  cases hx

theorem Passed.append (h : Passed l) (h' : Passed l') : Passed (l ++ l') := by
  intro x hx q hq
  rw [vmCommands_append, List.mem_append] at hx
  rcases hx with hx | hx
  · obtain ⟨row, hrow, hid, hs⟩ := h x hx q hq
    exact ⟨row, hrow.mono fun y hy => List.mem_append_left _ hy, hid, hs.mono fun y hy => List.mem_append_left _ hy⟩
  · obtain ⟨row, hrow, hid, hs⟩ := h' x hx q hq
    exact ⟨row, hrow.mono fun y hy => List.mem_append_right _ hy, hid, hs.mono fun y hy => List.mem_append_right _ hy⟩

/-- After the row was written, or scanned, launches for it. -/
theorem PassedFor.scoped (h : PassedFor t l') (hrow : RowOf l t) (hl : Passed l) : Passed (l ++ l') := by
  intro x hx q hq
  rw [vmCommands_append, List.mem_append] at hx
  rcases hx with hx | hx
  · obtain ⟨row, hrow, hid, hs⟩ := hl x hx q hq
    exact ⟨row, hrow.mono fun y hy => List.mem_append_left _ hy, hid, hs.mono fun y hy => List.mem_append_left _ hy⟩
  · obtain ⟨hid, hs⟩ := h x hx q hq
    exact ⟨t, hrow.mono fun y hy => List.mem_append_left _ hy, hid.symm, hs.mono fun y hy => List.mem_append_right _ hy⟩

theorem scopedAs_of_launch {host : HostId} {n v m : Int} {template key : String} {skills : List String}
    (hs : EffectiveSkills t l skills) (hc : vmCommands l = [(host, launchCmd cfg t.id n v m template key skills)]) :
    PassedFor t l := by
  intro x hx q hq
  rw [hc, List.mem_singleton] at hx
  subst hx
  have hq : q = (t.id, skills) := by simpa [launchCmd, HostCmd.scopes] using hq
  subst hq
  exact ⟨rfl, hs⟩

end Commands

/-! ## Create and pending assignment -/

section Creates

variable {cfg} {r : CreateRequest}

/-- A part that sends nothing comes first. -/
theorem scoped_bind {α β : Type} {p : CtlProg β} (hp : p.All Call.mute) {k : β → CtlProg α}
    (hk : ∀ b, (k b).wpt anyAnswers (fun l _ _ => Passed l) ()) :
    (p >>= k).wpt anyAnswers (fun l _ _ => Passed l) () := by
  refine (Prog.wpt_bind ..).2 (Prog.wpt_mono ?_ (Prog.wpt_all hp ()))
  intro l b _ hl
  exact Prog.wpt_mono (fun l' _ _ h => (Passed.of_silent (mute_log hl).1).append h) (hk b)

theorem mute_of_plain {β : Type} {p : CtlProg β} {R : β → Prop} (hp : p.Gives Call.plain R) : p.All Call.mute :=
  hp.all.mono fun _ h => h.mute

theorem createOn_scoped (src : Option TenantRow) (tid : TenantId) (key : String) (now : Time) (host : HostRow)
    (n : Int) : (createOn cfg r src tid key now host n).wpt anyAnswers (fun l _ _ => Passed l) () := by
  have hdone : ∀ ok : Bool, ∃ a, (Prog.ret (if ok then 201 else 500) : CtlProg Resp) = .ret a := fun ok => ⟨_, rfl⟩
  have hlaunch := @launch_log cfg Resp (creatingRow cfg r tid key now host n) host n r.vcpu r.memMb r.configTemplate key
    (fun ok => .ret (if ok then 201 else 500)) hdone
  have hput : RowOf [⟨.putTenant (creatingRow cfg r tid key now host n), true⟩]
      (creatingRow cfg r tid key now host n) := .inl List.mem_cons_self
  simp only [createOn, req_bind, Prog.pure_eq]
  intro ok _ _
  cases ok with
  | false => exact Passed.of_silent rfl
  | true =>
    cases src with
    | none =>
      refine Prog.wpt_mono ?_ hlaunch
      intro l _ _ h
      obtain ⟨skills, hskills, hcmds, -⟩ := h
      exact (scopedAs_of_launch hskills hcmds).scoped hput (.of_silent rfl)
    | some s =>
      simp only [if_true]
      intro copied _ _
      have hclone : Passed [⟨.putTenant (creatingRow cfg r tid key now host n), true⟩,
          ⟨.ssmRun host.instanceId (.cloneData s.id (s.vmNum.getD 1) tid n), copied⟩] := by
        intro x hx q hq
        have hx : x ∈ [(host.instanceId, .cloneData s.id (s.vmNum.getD 1) tid n)] := hx
        obtain rfl := List.mem_singleton.1 hx
        cases hq
      cases copied with
      | true =>
        refine Prog.wpt_mono ?_ hlaunch
        intro l _ _ h
        obtain ⟨skills, hskills, hcmds, -⟩ := h
        refine (scopedAs_of_launch hskills hcmds).scoped (hput.mono fun x hx => ?_) hclone
        obtain rfl := List.mem_singleton.1 hx
        exact List.mem_cons_self
      | false =>
        simp only [cloneRollback, releaseHostSlot, req_bind, Prog.pure_eq, Prog.call_bind, Prog.ret_bind,
          Bool.false_eq_true, if_false]
        intro released _ _
        cases released with
        | none => exact hclone.append (.of_silent rfl)
        | some h =>
          intro ok _ _
          cases ok <;> exact hclone.append (.of_silent rfl)

theorem createPlaced_scoped (src : Option TenantRow) (key : String) :
    (createPlaced cfg r src key).wpt anyAnswers (fun l _ _ => Passed l) () := by
  have hid : (req (.genId r.name) : CtlProg TenantId).All Call.mute := ⟨trivial, fun _ => trivial⟩
  have hnow : (req .now : CtlProg Time).All Call.mute := ⟨trivial, fun _ => trivial⟩
  refine scoped_bind hid fun tid => scoped_bind hnow fun now => scoped_bind (mute_of_plain (candidateHosts_plain cfg r src)) fun hosts => ?_
  cases hosts with
  | inl code => exact Passed.of_silent rfl
  | inr hosts =>
    refine scoped_bind (reserveFirst_mute _ _ hosts) fun slot => ?_
    rcases slot with _ | _ | ⟨host, n⟩
    · exact Passed.of_silent rfl
    · simp only [savePending, req_bind, Prog.pure_eq]
      intro ok _ _
      cases ok with
      | false => exact Passed.of_silent rfl
      | true =>
        intro _ _ _
        exact Passed.of_silent rfl
    · exact createOn_scoped src tid key now host n

/-- **`create_tenant` passes the effective skills.** -/
theorem createTenant_scoped (r : CreateRequest) : (createTenant cfg r).wpt anyAnswers (fun l _ _ => Passed l) () := by
  unfold createTenant
  split
  · exact Passed.of_silent rfl
  split
  · exact Passed.of_silent rfl
  refine scoped_bind (mute_of_plain (cloneSource_plain r)) fun src => ?_
  cases src with
  | inl code => exact Passed.of_silent rfl
  | inr src =>
    refine scoped_bind (mute_of_plain (restoreKeyOf_plain r)) fun key => ?_
    cases key with
    | inl code => exact Passed.of_silent rfl
    | inr key => exact createPlaced_scoped src key

theorem assignPending_scoped (t : TenantRow) :
    (assignPending cfg t).wpt anyAnswers (fun l _ _ => PassedFor t l) () := by
  have hsilent : ∀ {l : CallLog}, vmCommands l = [] → PassedFor t l := by
    intro l h x hx
    rw [h] at hx
    cases hx
  have hdone : ∀ ok : Bool, ∃ a, (Prog.ret (if ok then some () else none) : CtlProg (Option Unit)) = .ret a :=
    fun ok => ⟨_, rfl⟩
  simp only [assignPending, findHost, req_bind, Prog.pure_eq, Prog.call_bind, Prog.ret_bind]
  intro hosts _ _
  beta_reduce
  cases (rankHosts cfg hosts t.vcpu t.memMb).head? with
  | none => exact hsilent rfl
  | some host =>
    intro now _ _ ok _ _
    cases ok with
    | false => exact hsilent rfl
    | true =>
      intro booked _ _
      cases booked with
      | none => exact hsilent rfl
      | some h =>
        have hlaunch := @launch_log cfg _ t host (host.nextVmNum.getD 1) t.vcpu t.memMb t.configTemplate
          t.restoreBackupKey _ hdone
        refine Prog.wpt_mono ?_ hlaunch
        intro l _ _ h
        obtain ⟨skills, hskills, hcmds, -⟩ := h
        refine scopedAs_of_launch (hskills.mono fun x hx => ?_) hcmds
        exact List.mem_cons_of_mem _ (List.mem_cons_of_mem _ (List.mem_cons_of_mem _ (List.mem_cons_of_mem _ hx)))

/-- The rows of the loop were scanned before it. -/
theorem assignAll_scoped (ts : List TenantRow) {l₀ : CallLog} (hts : ∀ t ∈ ts, RowOf l₀ t) (h₀ : Passed l₀) :
    (assignAll cfg ts).wpt anyAnswers (fun l _ _ => Passed (l₀ ++ l)) () := by
  induction ts generalizing l₀ with
  | nil =>
    show Passed (l₀ ++ [])
    rwa [List.append_nil]
  | cons t ts ih =>
    refine (Prog.wpt_bind ..).2 (Prog.wpt_mono ?_ (assignPending_scoped t))
    intro l done _ h
    have hl : Passed (l₀ ++ l) := h.scoped (hts t List.mem_cons_self) h₀
    cases done with
    | none =>
      show Passed (l₀ ++ (l ++ []))
      rwa [List.append_nil]
    | some _ =>
      have hts' : ∀ t ∈ ts, RowOf (l₀ ++ l) t := fun t ht =>
        (hts t (List.mem_cons_of_mem _ ht)).mono fun x hx => List.mem_append_left _ hx
      refine Prog.wpt_mono ?_ (ih hts' hl)
      intro l' _ _ h'
      rwa [List.append_assoc] at h'

/-- **`process_pending` passes the effective skills.** -/
theorem processPending_scoped : (processPending cfg).wpt anyAnswers (fun l _ _ => Passed l) () := by
  simp only [processPending, req_bind]
  intro pending _ _
  refine @assignAll_scoped cfg _ [⟨.scanTenants (.status .pending), pending⟩] ?_ (.of_silent rfl)
  intro t ht
  exact .inr ⟨pending, List.mem_cons_self, (List.perm_insertionSort _ pending).mem_iff.1 ht⟩

end Creates

/-! ## The scripts of a host -/

/-- A run of `p` injects the skills of `scope` into the volume of `tid`. -/
def Injects {α : Type} (p : ShProg α) (tid : TenantId) (scope : List String) : Prop :=
  ∃ l a h template r, p.Plays l a ∧ (⟨⟨h, tid, .inject template scope⟩, r⟩ : Answered Sh) ∈ l

section Host

variable {env} {h : HostId} {tid : TenantId} {S : TenantId → List String → Prop} {α : Type}

/-- The statement injects only as `S` says. -/
def ShellCall.givenBy (S : TenantId → List String → Prop) (c : ShellCall) : Prop := c.op.given S c.tenant

theorem Injects.given {p : ShProg α} {scope : List String} (hp : p.All (ShellCall.givenBy S))
    (h : Injects p tid scope) : S tid scope := by
  obtain ⟨l, a, h, template, r, hl, hx⟩ := h
  exact Prog.plays_all hp hl _ hx

theorem given_of_plain {p : ShProg α} (hp : p.All (ShellCall.plainOn h S)) : p.All (ShellCall.givenBy S) :=
  hp.mono fun _ hc => hc.2.2

theorem launchVmSh_given {cfg : VmConfig} {key : String} {skills : List String} (hs : S tid skills) :
    (launchVmSh h tid cfg key skills).All (ShellCall.givenBy S) := by
  simp only [launchVmSh, sh_bind, Prog.pure_eq]
  refine ⟨trivial, fun _ => (given_of_plain (launchSteps_plain cfg key skills hs)).bind fun out => ?_⟩
  cases out with
  | ok => exact ⟨trivial, fun _ => ⟨trivial, fun _ => trivial⟩⟩
  | err => exact (given_of_plain cleanupOnErr_plain).bind fun _ => ⟨trivial, fun _ => trivial⟩
  | exit => exact ⟨trivial, fun _ => trivial⟩

theorem stopVmSh_given : (stopVmSh h tid).All (ShellCall.givenBy S) := by
  simp only [stopVmSh, sh_bind, Prog.pure_eq]
  exact ⟨trivial, fun _ => ⟨trivial, fun _ => ⟨trivial, fun _ => ⟨trivial, fun _ => ⟨trivial, fun _ =>
    ⟨trivial, fun _ => ⟨trivial, fun _ => trivial⟩⟩⟩⟩⟩⟩⟩

theorem underSentinel_given {p : ShProg Bool} (hp : p.All (ShellCall.givenBy S)) :
    (underSentinel h tid p).All (ShellCall.givenBy S) :=
  ⟨trivial, fun _ => ⟨trivial, fun _ => hp.bind fun _ => ⟨trivial, fun _ => trivial⟩⟩⟩

theorem besteffort_given (f : ShippedFile → ShellOp) (hf : ∀ x, (f x).plain = true ∧ (f x).given S tid) :
    (besteffort h tid (disks.map f)).All (ShellCall.givenBy S) := given_of_plain (besteffort_plain (disks_plain hf))

theorem migrateVmSh_given (verb : MigrateVerb) (n : Int) (uri : String) (hs : verb = .coldRestore → S tid []) :
    (migrateVmSh env h tid verb n uri).All (ShellCall.givenBy S) := by
  cases verb with
  | snapshot => exact given_of_plain (snapshotSh_plain uri)
  | restore => exact underSentinel_given (given_of_plain (restoreSteps_plain uri))
  | coldDump =>
    show (coldDumpSh h tid uri).All _
    simp only [coldDumpSh, sh_bind, Prog.pure_eq]
    refine stopVmSh_given.bind fun _ => ⟨trivial, fun _ => ?_⟩
    refine (besteffort_given (.ship · uri) fun _ => ⟨rfl, trivial⟩).bind fun _ => ?_
    refine ⟨trivial, fun cfg => ?_⟩
    cases cfg with
    | none => trivial
    | some cfg => exact ⟨trivial, fun _ => trivial⟩
  | coldRestore =>
    refine underSentinel_given ?_
    simp only [coldRestoreSteps, sh_bind]
    refine (besteffort_given (.fetch · uri) fun _ => ⟨rfl, trivial⟩).bind fun _ => ?_
    exact ⟨trivial, fun _ => ⟨trivial, fun cfg => launchVmSh_given (hs rfl)⟩⟩

/-- **A command injects what it says.** -/
theorem run_given (cmd : HostCmd) (hs : ∀ q ∈ cmd.scopes, S q.1 q.2) : (cmd.run env h).All (ShellCall.givenBy S) := by
  induction cmd with
  | launchVm tid n v m template key skills => exact launchVmSh_given (hs (tid, skills) List.mem_cons_self)
  | stopVm => exact stopVmSh_given
  | migrateVm verb tid n uri =>
    refine migrateVmSh_given verb n uri fun hv => ?_
    subst hv
    exact hs (tid, []) List.mem_cons_self
  | cloneData => exact given_of_plain (cloneDataSh_plain _)
  | resizeDisk => exact given_of_plain (resizeDiskSh_plain _)
  | vmState tid paused => cases paused <;> exact ⟨trivial, fun _ => trivial⟩
  | and a b iha ihb =>
    have ha := iha fun q hq => hs q (List.mem_append_left _ hq)
    have hb := ihb fun q hq => hs q (List.mem_append_right _ hq)
    refine ha.bind fun ok => ?_
    cases ok with
    | true => exact hb
    | false => trivial
  | seq a b iha ihb =>
    have ha := iha fun q hq => hs q (List.mem_append_left _ hq)
    have hb := ihb fun q hq => hs q (List.mem_append_right _ hq)
    exact ha.bind fun _ => hb
  | _ => exact ⟨trivial, fun _ => trivial⟩

theorem injects_scopes {cmd : HostCmd} {scope : List String} (hi : Injects (cmd.run env h) tid scope) :
    (tid, scope) ∈ cmd.scopes :=
  @Injects.given tid (fun tid scope => (tid, scope) ∈ cmd.scopes) _ _ _ (run_given cmd fun _ hq => hq) hi

end Host

/-! ## Every launch -/

/-- What gets `launch-vm.sh` started. -/
inductive Launcher
  /-- A command of the control plane. -/
  | program (j : FleetJob)
  /-- `_recover_vm` or `_force_relaunch_vm` of the host agent. -/
  | agent

/-- `create_tenant` and `process_pending`. -/
def Launcher.creates : Launcher → Prop
  | .program j => j.creates
  | .agent => False

/-- The tenant's own skills and those of its group. -/
def effectiveSkills (t : TenantRow) (gs : List String) : List String :=
  sortedNames (t.skills.getD [] ++ if t.group.isSome then gs else [])

/-- What a read of the group gives: nothing when it fails. -/
def readable (ok : Bool) (gs : List String) : List String := if ok then gs else []

/-- A launch of the tenant `t`, whose group has the skills `gs`, gets to the injection with the skills `scope`. The
group was read as `ok` says. -/
inductive Started (t : TenantRow) (gs : List String) (ok : Bool) : Launcher → List String → Prop
  | program {j : FleetJob} {l : CallLog} {h : HostId} {cmd : HostCmd} {scope : List String}
      (hl : (fleetBody cfg j).Plays l ())
      (hrow : ∀ row, RowOf l row → row.id = t.id → row.skills = t.skills ∧ row.group = t.group)
      (hgroup : ∀ g a, t.group = some g → Saw l (.groupSkills g) a → a = readable ok gs)
      (hcmd : (h, cmd) ∈ vmCommands l) (hi : Injects (cmd.run env h) t.id scope) : Started t gs ok (.program j) scope
  | agent {h : HostId} {vm : VmConfig} {scope : List String}
      (hi : Injects ((hostJobs env h).body (.forked t.id vm)) t.id scope) : Started t gs ok .agent scope

section Launches

variable {cfg env} {t : TenantRow} {gs : List String} {ok : Bool} {scope : List String}

theorem EffectiveSkills.eq {l : CallLog} {skills : List String} (h : EffectiveSkills t l skills)
    (hgroup : ∀ g a, t.group = some g → Saw l (.groupSkills g) a → a = readable ok gs) :
    skills = effectiveSkills t (readable ok gs) := by
  unfold EffectiveSkills at h
  unfold effectiveSkills
  cases hg : t.group with
  | none =>
    rw [hg] at h
    simpa using h
  | some g =>
    rw [hg] at h
    obtain ⟨a, ha, hs⟩ := h
    simpa [hgroup g a hg ha] using hs

theorem scoped_bind_unit {α : Type} {p : CtlProg α} (hp : p.wpt anyAnswers (fun l _ _ => Passed l) ()) :
    (p >>= fun _ => (pure () : CtlProg Unit)).wpt anyAnswers (fun l _ _ => Passed l) () := by
  refine (Prog.wpt_bind ..).2 (Prog.wpt_mono ?_ hp)
  intro l _ _ h
  show Passed (l ++ [])
  rwa [List.append_nil]

/-- What creates a tenant passes the effective skills. -/
theorem scoped_of_creates {j : FleetJob} (hj : j.creates) {l : CallLog} (hl : (fleetBody cfg j).Plays l ()) :
    Passed l := by
  refine @Prog.plays_of_wpt Ctl Unit _ (fun l _ _ => Passed l) ?_ l () hl
  cases j with
  | create r => exact scoped_bind_unit (createTenant_scoped r)
  | pending => exact processPending_scoped
  | _ => exact hj.elim

/-- **The skills a launch is given**: what could be read of the effective skills at creation, none later. -/
theorem started_scope {launcher : Launcher} (h : Started cfg env t gs ok launcher scope) :
    (launcher.creates → scope = effectiveSkills t (readable ok gs)) ∧ (¬ launcher.creates → scope = []) := by
  cases h with
  | @program j l h cmd _ hl hrow hgroup hcmd hi =>
    have hq := injects_scopes hi
    constructor
    · intro hj
      obtain ⟨row, hr, hid, hs⟩ := scoped_of_creates hj hl _ hcmd _ hq
      obtain ⟨hskills, hg⟩ := hrow row hr hid
      unfold EffectiveSkills at hs
      rw [hskills, hg] at hs
      exact EffectiveSkills.eq hs hgroup
    · intro hj
      exact unscoped_of_made hj hl hcmd _ hq
  | @agent h vm _ hi =>
    have hlaunch : (launchVmSh h t.id vm "" []).All (ShellCall.givenBy fun _ skills => skills = []) :=
      launchVmSh_given rfl
    have hgiven : ((hostJobs env h).body (.forked t.id vm)).All (ShellCall.givenBy fun _ skills => skills = []) :=
      hlaunch.bind fun _ => trivial
    constructor
    · intro hf
      exact hf.elim
    · intro _
      exact hi.given hgiven

end Launches

/-- A stopped tenant that asks for one skill. -/
def skilledTenant : TenantRow := { runningTenant "a-0000" "i-1" 1 with status := .stopped, skills := some ["a"] }

/-- A host that shares two. -/
def twoShared : SharedSkills where
  names := ["a", "b"]
  below path := if path = "a" then ["a"] else if path = "b" then ["b"] else []
  word text := text
  below_names path s hs := by
    split at hs
    · simp_all
    · split at hs <;> simp_all
  below_plain s _ x hx := by
    split at hx
    · simp_all
    · split at hx <;> simp_all
  word_plain _ _ := rfl

/-- Every statement succeeds. -/
def shellAnswer (c : ShellCall) : c.op.Ans :=
  match c.op with
  | .begin _ | .done _ | .mkdir | .rmStopped | .touchStopped | .writeVmJson _ | .rmVmJson | .rmSentinel | .rmSock
  | .rmDir | .rmData | .rmGz | .rmOverlay | .pkill | .startFc | .setRecovering _ | .setNetDead _ | .endPoll
  | .sleep _ => ()
  | .readVmJson => none
  | .templateSize | .dataSize | .gzSize => some 0
  | .listDir => []
  | .netDead => 0
  | .testStopped | .touchSentinel | .isMigrating _ | .testSock | .copyTemplate | .fetchBackup _ | .unpackBackup _
  | .fsck | .inject _ _ | .truncate _ | .resize2fs | .copyData _ | .compress | .uploadBackup _ | .makeOverlay | .testOverlay
  | .copyOverlay _ | .ship _ _ | .fetch _ _
  | .addressOk _ | .setup _ | .configure | .instanceStart | .loadSnapshot | .createSnapshot | .pause | .resume
  | .machineConfig _ _ | .pgrep | .ping | .isRecovering | .popen _ | .inTime => true

/-- The log injects the skills for the tenant. -/
def injectsIn (l : List (Answered Sh)) (tid : TenantId) (scope : List String) : Bool :=
  l.any fun x =>
    match x.1.op with
    | .inject _ skills => x.1.tenant = tid && skills = scope
    | _ => false

theorem injects_of_answered {α : Type} {p : ShProg α} {tid : TenantId} {scope : List String}
    (h : injectsIn (p.answered shellAnswer).1 tid scope = true) : Injects p tid scope := by
  obtain ⟨x, hx, hm⟩ := List.any_eq_true.1 h
  obtain ⟨⟨host, tid', op⟩, r⟩ := x
  split at hm
  · rename_i template skills ho
    rw [Bool.and_eq_true, decide_eq_true_eq, decide_eq_true_eq] at hm
    obtain ⟨htid, hskills⟩ := hm
    obtain rfl : tid' = tid := htid
    obtain rfl := hskills
    obtain rfl : op = .inject template skills := ho
    exact ⟨_, _, host, template, r, Prog.plays_answered shellAnswer p, hx⟩
  · cases hm

/-- The start of the stopped tenant. -/
def startRun : Option (CallLog × Unit × World) :=
  ctlOracle.alone (fun _ _ _ => true) (fleetBody {} (.action "a-0000" (.simple .start))) (List.replicate 3 {})
    { tenants := .single skilledTenant, hosts := .single (busyHost "i-1" 2) }

/-- The log of a run that reads no group and writes or scans no row, with its commands. -/
def startLog (l : CallLog) : Bool := vmCommands l = [("i-1", SimpleAction.start.cmd skilledTenant)] && l.all fun x =>
  match x.1 with
  | .putTenant _ | .scanTenants _ | .groupSkills _ => false
  | _ => true

/-- The request for a tenant with the skill. -/
def skilledRequest : CreateRequest :=
  { name := "a", vcpu := 2, memMb := 1024, dataDiskMb := 2048, skills := some ["a"] }

/-- The request is placed on an empty host. -/
def createRun : Option (CallLog × Unit × World) :=
  ctlOracle.alone (fun _ _ _ => true) (fleetBody {} (.create skilledRequest)) (List.replicate 13 {})
    { tenants := .empty, hosts := .single (emptyHost "i-1" 2) }

/-- The log of a run that creates tenants with the skill and reads no group, with its commands. -/
def createLog (l : CallLog) : Bool :=
  vmCommands l = [("i-1", launchCmd {} "a-0000" 2 2 1024 "" "" ["a"])] && l.all fun x =>
    match x.1 with
    | .putTenant t => t.skills = some ["a"] && t.group = none
    | .scanTenants _ | .groupSkills _ => false
    | _ => true

end OpenClaw
