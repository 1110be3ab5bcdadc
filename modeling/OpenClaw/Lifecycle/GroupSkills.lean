import OpenClaw.Api.Json
import OpenClaw.Control.RoutingAdmin
import OpenClaw.Lib.Simulate

/-!
# The skills of a group

`POST /groups/{name}/skills` and `DELETE /groups/{name}/skills/{skill}` read the group's list of skills, edit it and
write the whole list back, without a condition and without a consistent read.

- `editing`: what a call does next, by what it has read.
- `group_edits_commute`: the final list of any interleaving in which each call writes over the list it has read.
- `group_edit_lost`: two additions, one of which is lost.
-/

namespace OpenClaw

open Atomic

/-! ## The table -/

/-- `sorted(set(names))`. -/
def sortedSet (names : List String) : List String := names.dedup.insertionSort (· ≤ ·)

/-- Sorted and without duplicates. -/
def Ascending (l : List String) : Prop := l.Pairwise (· < ·)

@[simp] theorem mem_sortedSet {s : String} {names : List String} : s ∈ sortedSet names ↔ s ∈ names := by
  rw [sortedSet, List.mem_insertionSort, List.mem_dedup]

theorem sortedSet_ascending (names : List String) : Ascending (sortedSet names) := by
  have hnodup : (sortedSet names).Nodup := (List.perm_insertionSort _ _).nodup_iff.2 (List.nodup_dedup names)
  have hsorted : (sortedSet names).Pairwise (· ≤ ·) := List.pairwise_insertionSort _ _
  exact (hsorted.and hnodup).imp fun h => lt_of_le_of_ne h.1 h.2

/-- The groups table: for each group its skills, and those it had before. -/
structure GroupTable where
  skills : String → Option (List String)
  past : String → List (Option (List String)) := fun _ => []

def GroupTable.write (w : GroupTable) (name : String) (skills : List String) : GroupTable where
  skills := Function.update w.skills name (some skills)
  past := Function.update w.past name (w.skills name :: w.past name)

inductive GroupOp
  /-- `get_item`; the skills of the item, if there is one. -/
  | getItem
  /-- `update_item` with `SET skills = :s`. -/
  | updateItem (skills : List String)

/-- An answer, or the text of an exception. -/
abbrev GroupOp.Ans : GroupOp → Type
  | .getItem => Except String (Option (List String))
  | .updateItem _ => Except String Unit

structure GroupCall where
  name : String
  op : GroupOp

abbrev Grp : Sig := ⟨GroupCall, fun c => c.op.Ans⟩

abbrev GrpProg := Prog Grp

abbrev grp (name : String) (op : GroupOp) : GrpProg op.Ans := @Prog.lift Grp ⟨name, op⟩

@[simp] theorem grp_bind {β : Type} (name : String) (op : GroupOp) (f : op.Ans → GrpProg β) :
    @Bind.bind GrpProg _ (no_index op.Ans) β (grp name op) f = @Prog.call Grp β ⟨name, op⟩ f := rfl

/-- A read is eventually consistent; a write that raises may have been made. -/
def groupStep (name : String) : (op : GroupOp) → op.Ans → GroupTable → GroupTable → Prop
  | .getItem, .ok v, w, w' => v ∈ w.skills name :: w.past name ∧ w' = w
  | .getItem, .error _, w, w' => w' = w
  | .updateItem skills, .ok _, w, w' => w' = w.write name skills
  | .updateItem skills, .error _, w, w' => w' = w ∨ w' = w.write name skills

def groups : Sem Grp GroupTable := ⟨fun c => groupStep c.name c.op⟩

/-! ## The handlers -/

inductive GroupBody
  | error (text : String)
  | group (name : String) (skills : List String)
deriving DecidableEq

structure GroupResp where
  statusCode : Nat
  body : GroupBody
deriving DecidableEq

/-- What is done with one skill. -/
inductive SkillEdit
  | add (skill : String)
  | remove (skill : String)
deriving DecidableEq

def SkillEdit.skill : SkillEdit → String
  | .add s | .remove s => s

/-- The list that is written. -/
def SkillEdit.apply : SkillEdit → List String → List String
  | .add s, l => sortedSet (s :: l)
  | .remove s, l => sortedSet (l.filter (· ≠ s))

/-- The second half of the `try` block of both handlers. -/
def writeBack (name : String) (e : SkillEdit) (cur : List String) : GrpProg GroupResp := do
  let written ← grp name (.updateItem (e.apply cur))
  match written with
  | .error text => pure ⟨500, .error text⟩
  | .ok _ => pure ⟨200, .group name (e.apply cur)⟩

/-- The `try` block of both handlers. -/
def editGroup (name : String) (e : SkillEdit) : GrpProg GroupResp := do
  let existing ← grp name .getItem
  match existing with
  | .error text => pure ⟨500, .error text⟩
  | .ok none => pure ⟨404, .error ("group '" ++ name ++ "' not found")⟩
  | .ok (some cur) => writeBack name e cur

/-- `(body.get("skill") or "").strip()`; `none` when that raises. -/
def bodySkill : Json → Option String
  | .obj fields => (orElse (fields.lookup "skill") (.str "")).text?.map pyStrip
  | _ => none

section Handlers

variable (tableSet : Bool) (name : String)

/-- `add_skill_to_group`; the body is `none` when it is not JSON, and the result is `none` when the handler raises. -/
def addSkillToGroup (body : Option Json) : GrpProg (Option GroupResp) :=
  if tableSet then
    match body with
    | none => pure (some ⟨400, .error "invalid JSON"⟩)
    | some body =>
      match bodySkill body with
      | none => pure none
      | some skill =>
        if skill = "" then pure (some ⟨400, .error "skill is required"⟩)
        else do
          let r ← editGroup name (.add skill)
          pure (some r)
  else pure (some ⟨503, .error "groups table not configured"⟩)

/-- `remove_skill_from_group`. -/
def removeSkillFromGroup (skill : String) : GrpProg (Option GroupResp) :=
  if tableSet then do
    let r ← editGroup name (.remove skill)
    pure (some r)
  else pure (some ⟨503, .error "groups table not configured"⟩)

end Handlers

/-- A call on the group. -/
inductive GroupJob
  | add (body : Option Json)
  | remove (skill : String)

/-- The edit a call makes, if it gets so far. -/
def GroupJob.edit : GroupJob → Option SkillEdit
  | .add body => ((body.bind bodySkill).filter (· ≠ "")).map .add
  | .remove skill => some (.remove skill)

/-- The calls on one group. -/
def groupJobs (tableSet : Bool) (name : String) : Jobs Grp GroupTable GroupJob (Option GroupResp) where
  body
    | .add body => addSkillToGroup tableSet name body
    | .remove skill => removeSkillFromGroup tableSet name skill
  start _ w w' := w' = w

/-! ## What a call does next -/

inductive EditPhase
  | fresh
  | has (l : List String)
  | wrote
  /-- Its write raised. -/
  | failed
  | ended

/-- A call reads, and writes the edited list. -/
def editing (name : String) : Protocol Grp GroupJob (GroupJob × EditPhase) where
  init j := (j, .fresh)
  allow g c := c.name = name ∧
    match g.2, c.op with
    | .fresh, .getItem => True
    | .has l, .updateItem skills => ∃ e, g.1.edit = some e ∧ skills = e.apply l
    | _, _ => False
  sane _ _ _ := True
  next g c r := (g.1,
    match c, r with
    | ⟨_, .getItem⟩, .ok (some l) => .has l
    | ⟨_, .updateItem _⟩, .ok _ => .wrote
    | ⟨_, .updateItem _⟩, .error _ => .failed
    | _, _ => .ended)

/-- A call answered with 200. -/
def Answered200 (r : Option GroupResp) : Prop := ∃ b, r = some ⟨200, b⟩

section Commute

variable {tableSet : Bool} {name : String}

theorem editGroup_obeys {j : GroupJob} {e : SkillEdit} (he : j.edit = some e) :
    (editGroup name e).obeys (editing name) (fun r g => r.statusCode = 200 → g = (j, .wrote)) (j, .fresh) := by
  simp only [editGroup, grp_bind]
  refine ⟨⟨rfl, trivial⟩, fun existing _ => ?_⟩
  cases existing with
  | error text => exact fun h => by cases h
  | ok existing =>
    cases existing with
    | none => exact fun h => by cases h
    | some cur =>
      refine ⟨⟨rfl, e, he, rfl⟩, fun written _ => ?_⟩
      cases written with
      | error text => exact fun h => by cases h
      | ok _ => exact fun _ => rfl

theorem not_answered_none : ¬ Answered200 none := by
  intro h
  obtain ⟨b, hb⟩ := h
  cases hb

theorem Answered200.status {r : GroupResp} (h : Answered200 (some r)) : r.statusCode = 200 := by
  obtain ⟨b, hb⟩ := h
  rw [Option.some.inj hb]

/-- A call with an edit runs the block. -/
theorem groupJobs_body {j : GroupJob} {e : SkillEdit} (he : j.edit = some e) :
    (groupJobs true name).body j = (editGroup name e >>= fun r => pure (some r)) := by
  cases j with
  | remove skill =>
    obtain rfl := Option.some.inj he
    rfl
  | add body =>
    simp only [GroupJob.edit, Option.map_eq_some_iff, Option.filter_eq_some_iff, Option.bind_eq_some_iff,
      decide_eq_true_eq] at he
    obtain ⟨skill, ⟨⟨body, rfl, hskill⟩, hne⟩, rfl⟩ := he
    simp [groupJobs, addSkillToGroup, hskill, hne]

/-- A call without an edit is not answered with 200. -/
theorem groupJobs_noEdit {j : GroupJob} (he : j.edit = none ∨ tableSet = false) :
    ∃ r, (groupJobs tableSet name).body j = .ret r ∧ ¬ Answered200 r := by
  have herror : ∀ r : GroupResp, r.statusCode ≠ 200 → ¬ Answered200 (some r) := fun r hr h => hr h.status
  cases tableSet with
  | false => cases j <;> exact ⟨_, rfl, herror _ (by decide)⟩
  | true =>
    cases j with
    | remove skill => rcases he with he | he <;> cases he
    | add body =>
      cases body with
      | none => exact ⟨_, rfl, herror _ (by decide)⟩
      | some body =>
        cases hb : bodySkill body with
        | none => exact ⟨none, by simp [groupJobs, addSkillToGroup, hb], not_answered_none⟩
        | some skill =>
          have hs : skill = "" := by simpa [GroupJob.edit, hb] using he
          exact ⟨_, by simp [groupJobs, addSkillToGroup, hb, hs], herror ⟨400, .error "skill is required"⟩ (by decide)⟩

theorem groupJobs_obeys (j : GroupJob) :
    ((groupJobs tableSet name).body j).obeys (editing name) (fun r g => Answered200 r → g.2 = .wrote)
      ((editing name).init j) := by
  by_cases hno : j.edit = none ∨ tableSet = false
  · obtain ⟨r, hbody, hr⟩ : ∃ r, (groupJobs tableSet name).body j = .ret r ∧ ¬ Answered200 r := groupJobs_noEdit hno
    rw [hbody]
    exact fun h => absurd h hr
  · obtain ⟨hedit, htable⟩ := not_or.1 hno
    obtain rfl : tableSet = true := Bool.not_eq_false _ ▸ htable
    obtain ⟨e, he⟩ := Option.ne_none_iff_exists'.1 hedit
    rw [groupJobs_body he, Prog.obeys_bind]
    refine Prog.obeys_mono ?_ (editGroup_obeys he)
    intro r g hr h
    rw [hr h.status]

end Commute

/-! ## Runs -/

/-- What the process has read last. -/
def lastRead {ι : Type} [DecidableEq ι] (i : ι) (tr : List (Ev Grp GroupJob ι)) : Option (List String) :=
  tr.foldl (fun l e =>
    match e with
    | .call k ⟨_, .getItem⟩ (.ok v) => if k = i then v else l
    | _ => l) none

theorem lastRead_other {ι : Type} [DecidableEq ι] {i k : ι} (hk : i ≠ k) {tr : List (Ev Grp GroupJob ι)}
    {c : GroupCall} {r : c.op.Ans} : lastRead k (tr ++ [.call i c r]) = lastRead k tr := by
  rw [lastRead, List.foldl_append, List.foldl_cons, List.foldl_nil]
  obtain ⟨n, op⟩ := c
  cases op with
  | updateItem => rfl
  | getItem =>
    cases r with
    | error => rfl
    | ok v => exact if_neg hk

/-- A call writes over the list it has read. -/
def overItsRead {ι : Type} [DecidableEq ι] (tr : List (Ev Grp GroupJob ι)) (w : GroupTable) :
    Ev Grp GroupJob ι → Prop
  | .call i ⟨name, .updateItem _⟩ _ => w.skills name = lastRead i tr
  | _ => True

/-- The edits of the calls that were started. -/
def editsOf {ι : Type} (tr : List (Ev Grp GroupJob ι)) : List SkillEdit :=
  tr.filterMap fun e =>
    match e with
    | .start _ j => j.edit
    | _ => none

section Runs

variable {ι : Type} [DecidableEq ι] {tableSet : Bool} {name : String} {init : List String}
  {tr : List (Ev Grp GroupJob ι)} {w w' : GroupTable} {i : ι} {j : GroupJob}

omit [DecidableEq ι] in
theorem mem_editsOf {e : SkillEdit} : e ∈ editsOf tr ↔ ∃ i j, Ev.start i j ∈ tr ∧ j.edit = some e := by
  simp only [editsOf, List.mem_filterMap]
  constructor
  · rintro ⟨x, hx, he⟩
    cases x with
    | start i j => exact ⟨i, j, hx, he⟩
    | call => cases he
  · rintro ⟨i, j, hx, he⟩
    exact ⟨_, hx, he⟩

/-- The edit has been written. -/
def Wrote (name : String) (tr : List (Ev Grp GroupJob ι)) (e : SkillEdit) : Prop :=
  ∃ i j, (editing name).locs tr i = some (j, .wrote) ∧ j.edit = some e

/-- The list is the first one with the edits written so far. -/
def Edited (name : String) (init : List String) (tr : List (Ev Grp GroupJob ι)) (w : GroupTable) : Prop :=
  ∃ l, w.skills name = some l ∧ Ascending l ∧
    ∀ s, s ∈ l ↔ (s ∈ init ∨ Wrote name tr (.add s)) ∧ ¬ Wrote name tr (.remove s)

/-- What holds in every run: the local states are those of the started calls and of what they have read, and the list is
the edited one as long as no write has raised. -/
structure EditInv (name : String) (init : List String) (tr : List (Ev Grp GroupJob ι)) (w : GroupTable) : Prop where
  started : ∀ i j ph, (editing name).locs tr i = some (j, ph) → Ev.start i j ∈ tr
  read : ∀ i j l, (editing name).locs tr i = some (j, .has l) → lastRead i tr = some l
  edited : ((editsOf tr).map SkillEdit.skill).Nodup → (∀ i j, (editing name).locs tr i ≠ some (j, .failed)) →
    Edited name init tr w

theorem EditInv.wrote_mem (hI : EditInv name init tr w) {e : SkillEdit} (he : Wrote name tr e) : e ∈ editsOf tr := by
  obtain ⟨i, j, hl, he⟩ := he
  exact mem_editsOf.2 ⟨i, j, hI.started i j _ hl, he⟩

/-- The start of a call. -/
theorem EditInv.start (hI : EditInv name init tr w) (hn : (editing name).locs tr i = none) :
    EditInv name init (tr ++ [.start i j]) w := by
  have hloc : (editing name).locs (tr ++ [.start i j]) =
      Function.update ((editing name).locs tr) i (some (j, .fresh)) := by
    rw [Protocol.locs_snoc]
    rfl
  have hsame : ∀ k g ph, ph ≠ EditPhase.fresh → ((editing name).locs (tr ++ [.start i j]) k = some (g, ph) ↔
      (editing name).locs tr k = some (g, ph)) := by
    intro k g ph hph
    rw [hloc]
    by_cases e : k = i
    · subst e
      rw [Function.update_self, hn]
      constructor
      · intro h
        cases h
        exact absurd rfl hph
      · intro h
        cases h
    · rw [Function.update_of_ne e]
  have hwrote : ∀ e, Wrote name (tr ++ [.start i j]) e ↔ Wrote name tr e := by
    intro e
    simp only [Wrote, hsame _ _ .wrote (by simp)]
  refine ⟨fun k g ph hk => ?_, fun k g l hk => ?_, fun hd hf => ?_⟩
  · rw [hloc] at hk
    by_cases e : k = i
    · subst e
      rw [Function.update_self] at hk
      cases hk
      simp
    · rw [Function.update_of_ne e] at hk
      exact List.mem_append_left _ (hI.started k g ph hk)
  · rw [lastRead, List.foldl_append]
    exact hI.read k g l ((hsame k g _ (by simp)).1 hk)
  · have hd : ((editsOf tr).map SkillEdit.skill).Nodup := by
      rw [editsOf, List.filterMap_append, List.map_append] at hd
      exact hd.of_append_left
    obtain ⟨l, hl, hasc, hmem⟩ := hI.edited hd fun k g hk => hf k g ((hsame k g _ (by simp)).2 hk)
    exact ⟨l, hl, hasc, fun s => by rw [hwrote, hwrote]; exact hmem s⟩

section Call

variable {ph : EditPhase} {c : GroupCall} {r : c.op.Ans}

/-- The local states after a call. -/
theorem edit_locs (hl : (editing name).locs tr i = some (j, ph)) :
    (editing name).locs (tr ++ [.call i c r]) =
      Function.update ((editing name).locs tr) i (some ((editing name).next (j, ph) c r)) := by
  rw [Protocol.locs_snoc]
  simp only [Protocol.stepLoc, hl, Option.map_some]

theorem edit_locs_other (hl : (editing name).locs tr i = some (j, ph)) {k : ι} (hk : k ≠ i) :
    (editing name).locs (tr ++ [.call i c r]) k = (editing name).locs tr k := by
  rw [edit_locs hl, Function.update_of_ne hk]

theorem edit_locs_self (hl : (editing name).locs tr i = some (j, ph)) :
    (editing name).locs (tr ++ [.call i c r]) i = some (j, ((editing name).next (j, ph) c r).2) := by
  rw [edit_locs hl, Function.update_self]
  rfl

theorem wrote_after (hl : (editing name).locs tr i = some (j, ph)) (hph : ph ≠ .wrote) {e : SkillEdit} :
    Wrote name (tr ++ [.call i c r]) e ↔
      Wrote name tr e ∨ ((editing name).next (j, ph) c r).2 = .wrote ∧ j.edit = some e := by
  constructor
  · rintro ⟨k, g, hk, he⟩
    by_cases hki : k = i
    · subst hki
      rw [edit_locs_self hl] at hk
      obtain ⟨rfl, hw⟩ := Prod.mk.inj (Option.some.inj hk)
      exact .inr ⟨hw, he⟩
    · rw [edit_locs_other hl hki] at hk
      exact .inl ⟨k, g, hk, he⟩
  · rintro (⟨k, g, hk, he⟩ | ⟨hw, he⟩)
    · by_cases hki : k = i
      · subst hki
        rw [hl] at hk
        exact absurd (Prod.mk.inj (Option.some.inj hk)).2 hph
      · exact ⟨k, g, by rw [edit_locs_other hl hki, hk], he⟩
    · exact ⟨i, j, by rw [edit_locs_self hl, hw], he⟩

/-- A write that has raised stays. -/
theorem failed_before (hl : (editing name).locs tr i = some (j, ph)) (hph : ph ≠ .failed)
    (hf : ∀ k g, (editing name).locs (tr ++ [.call i c r]) k ≠ some (g, .failed)) (k : ι) (g : GroupJob) :
    (editing name).locs tr k ≠ some (g, .failed) := by
  intro hk
  by_cases hki : k = i
  · subst hki
    rw [hl] at hk
    exact hph (Prod.mk.inj (Option.some.inj hk)).2
  · exact hf k g (by rw [edit_locs_other hl hki, hk])

/-- The started calls, and the read lists but for the calling process's. -/
theorem EditInv.of_call (hI : EditInv name init tr w) (hl : (editing name).locs tr i = some (j, ph))
    (hread : ∀ l, ((editing name).next (j, ph) c r).2 = .has l → lastRead i (tr ++ [.call i c r]) = some l)
    (hedited : ((editsOf tr).map SkillEdit.skill).Nodup →
      (∀ k g, (editing name).locs (tr ++ [.call i c r]) k ≠ some (g, .failed)) →
        Edited name init (tr ++ [.call i c r]) w') : EditInv name init (tr ++ [.call i c r]) w' := by
  refine ⟨fun k g ph' hk => ?_, fun k g l hk => ?_, fun hd hf => hedited ?_ hf⟩
  · by_cases hki : k = i
    · subst hki
      rw [edit_locs_self hl] at hk
      obtain ⟨rfl, -⟩ := Prod.mk.inj (Option.some.inj hk)
      exact List.mem_append_left _ (hI.started _ _ _ hl)
    · rw [edit_locs_other hl hki] at hk
      exact List.mem_append_left _ (hI.started k g ph' hk)
  · by_cases hki : k = i
    · subst hki
      rw [edit_locs_self hl] at hk
      exact hread l (Prod.mk.inj (Option.some.inj hk)).2
    · rw [edit_locs_other hl hki] at hk
      rw [lastRead_other (Ne.symm hki)]
      exact hI.read k g l hk
  · rw [editsOf, List.filterMap_append] at hd
    simpa [editsOf] using hd

end Call

/-- A read leaves the edited list as it is. -/
theorem EditInv.getItem (hI : EditInv name init tr w) (hl : (editing name).locs tr i = some (j, .fresh))
    {r : Except String (Option (List String))} : EditInv name init (tr ++ [.call i ⟨name, .getItem⟩ r]) w := by
  have hquiet : ((editing name).next (j, .fresh) ⟨name, .getItem⟩ r).2 ≠ .wrote := by
    cases r with
    | error => simp [editing]
    | ok v => cases v <;> simp [editing]
  refine hI.of_call hl (fun l hn => ?_) fun hd hf => ?_
  · rw [lastRead, List.foldl_append, List.foldl_cons, List.foldl_nil]
    cases r with
    | error => simp [editing] at hn
    | ok v =>
      cases v with
      | none => simp [editing] at hn
      | some v =>
        simp only [editing, EditPhase.has.injEq] at hn
        simp [hn]
  · obtain ⟨l, hlist, hasc, hmem⟩ := hI.edited hd (failed_before hl (by simp) hf)
    have hwrote : ∀ e, Wrote name (tr ++ [.call i ⟨name, .getItem⟩ r]) e ↔ Wrote name tr e := by
      intro e
      rw [wrote_after hl (by simp)]
      simp [hquiet]
    exact ⟨l, hlist, hasc, fun s => by rw [hwrote, hwrote]; exact hmem s⟩

/-- A write over the list the call has read is its edit of the list. -/
theorem EditInv.updateItem (hI : EditInv name init tr w) {l : List String} {e : SkillEdit}
    (hl : (editing name).locs tr i = some (j, .has l)) (he : j.edit = some e) {r : Except String Unit}
    (hg : w.skills name = lastRead i tr) (hs : groupStep name (.updateItem (e.apply l)) r w w') :
    EditInv name init (tr ++ [.call i ⟨name, .updateItem (e.apply l)⟩ r]) w' := by
  refine hI.of_call hl (fun l' hn => ?_) fun hd hf => ?_
  · cases r <;> simp [editing] at hn
  · cases r with
    | error =>
      have hfailed := hf i j
      rw [edit_locs_self hl] at hfailed
      exact absurd rfl hfailed
    | ok u =>
      obtain rfl := hs
      obtain ⟨cur, hlist, hasc, hmem⟩ := hI.edited hd (failed_before hl (by simp) hf)
      obtain rfl : cur = l := by
        rw [hI.read i j l hl, hlist] at hg
        exact Option.some.inj hg
      have hin : e ∈ editsOf tr := mem_editsOf.2 ⟨i, j, hI.started i j _ hl, he⟩
      have hother : ∀ e', Wrote name tr e' → e'.skill = e.skill → e' = e := fun e' hw hskill =>
        List.inj_on_of_nodup_map hd (hI.wrote_mem hw) hin hskill
      have hwrote : ∀ e', Wrote name (tr ++ [.call i ⟨name, .updateItem (e.apply cur)⟩ (.ok u)]) e' ↔
          Wrote name tr e' ∨ e = e' := by
        intro e'
        rw [wrote_after hl (by simp)]
        simp [editing, he]
      refine ⟨e.apply cur, by simp [GroupTable.write], ?_, fun s => ?_⟩
      · cases e <;> exact sortedSet_ascending _
      · rw [hwrote, hwrote]
        cases e with
        | add s₀ =>
          simp only [SkillEdit.apply, mem_sortedSet, List.mem_cons, hmem s, SkillEdit.add.injEq, reduceCtorEq, or_false]
          have hnot : s = s₀ → ¬ Wrote name tr (.remove s) := by
            intro hs hw
            cases hother _ hw hs
          grind
        | remove s₀ =>
          simp only [SkillEdit.apply, mem_sortedSet, List.mem_filter, hmem s, SkillEdit.remove.injEq, reduceCtorEq,
            or_false, decide_eq_true_eq]
          grind

/-- A call. -/
theorem EditInv.call (hI : EditInv name init tr w) {g : GroupJob × EditPhase} (hl : (editing name).locs tr i = some g)
    {c : GroupCall} (ha : (editing name).allow g c) {r : c.op.Ans} (hg : overItsRead tr w (.call i c r))
    (hs : groups.step c r w w') : EditInv name init (tr ++ [.call i c r]) w' := by
  obtain ⟨j, ph⟩ := g
  obtain ⟨n, op⟩ := c
  obtain ⟨rfl, ha⟩ := ha
  cases ph <;> cases op <;> try exact ha.elim
  case fresh.getItem =>
    have hw : w' = w := by
      cases r with
      | error => exact hs
      | ok v => exact hs.2
    rw [hw]
    exact hI.getItem hl
  case has.updateItem l skills =>
    obtain ⟨e, he, rfl⟩ := ha
    exact hI.updateItem hl he hg hs

/-- **Group edits commute** when each call writes over the list it has read: when all calls have answered with 200, the
list is sorted, has no duplicates, and holds the skills of the first one with those added and without those removed. -/
theorem group_edits_commute {c : Conf Grp GroupTable GroupJob ι (Option GroupResp)} {w₀ : GroupTable}
    (h₀ : w₀.skills name = some init) (hinit : Ascending init)
    (hr : Reach groups (groupJobs tableSet name) overItsRead (Conf.idle w₀) tr c)
    (hdistinct : ((editsOf tr).map SkillEdit.skill).Nodup)
    (hall : ∀ i j, .start i j ∈ tr → ∃ r, c.proc i = some (j, .ret r) ∧ Answered200 r) :
    ∃ l, c.world.skills name = some l ∧ Ascending l ∧
      ∀ s, s ∈ l ↔ (s ∈ init ∨ .add s ∈ editsOf tr) ∧ .remove s ∉ editsOf tr := by
  have hinit : EditInv name init ([] : List (Ev Grp GroupJob ι)) w₀ := by
    refine ⟨fun _ _ _ h => (by cases h), fun _ _ _ h => (by cases h), fun _ _ => ⟨init, h₀, hinit, fun s => ?_⟩⟩
    simp [Wrote]
  obtain ⟨hI, -, hloc⟩ := hr.protocol (π := editing name) (I := EditInv name init) groupJobs_obeys hinit
    (fun tr w i j w' hI hn _ hs => by rw [show w' = w from hs]; exact hI.start hn)
    (fun tr w i g c r w' hI hl ha hg hs => ⟨trivial, hI.call hl ha hg hs⟩)
  have hdone : ∀ i j ph, (editing name).locs tr i = some (j, ph) → ph = .wrote := by
    intro i j ph hl
    obtain ⟨r, hp, h200⟩ := hall i j (hI.started i j ph hl)
    obtain ⟨g, hg, ho⟩ := hloc i j _ hp
    rw [hl] at hg
    obtain rfl := Option.some.inj hg
    exact ho h200
  have hwrote : ∀ e, Wrote name tr e ↔ e ∈ editsOf tr := by
    intro e
    refine ⟨hI.wrote_mem, fun he => ?_⟩
    obtain ⟨i, j, hst, he⟩ := mem_editsOf.1 he
    obtain ⟨r, hp, -⟩ := hall i j hst
    obtain ⟨⟨j', ph⟩, hg, -⟩ := hloc i j _ hp
    obtain ⟨r', hp', -⟩ := hall i j' (hI.started i j' ph hg)
    rw [hp] at hp'
    obtain ⟨rfl, -⟩ := Prod.mk.inj (Option.some.inj hp')
    exact ⟨i, j, by rw [hg, hdone i j ph hg], he⟩
  obtain ⟨l, hl, hasc, hmem⟩ := hI.edited hdistinct fun i j hf => by cases hdone i j _ hf
  exact ⟨l, hl, hasc, fun s => by rw [hmem, hwrote, hwrote]⟩

end Runs

/-! ## Two runs -/

/-- The answer to an edit of a list. -/
def answerTo (name : String) (e : SkillEdit) (cur : List String) : Option GroupResp :=
  some ⟨200, .group name (e.apply cur)⟩

section Made

variable {name : String} {Gd : List (Ev Grp GroupJob ℕ) → GroupTable → Ev Grp GroupJob ℕ → Prop}
  {c₀ c : Conf Grp GroupTable GroupJob ℕ (Option GroupResp)} {tr : List (Ev Grp GroupJob ℕ)} {i : ℕ} {j : GroupJob}
  {e : SkillEdit} {l : List String}

theorem reach_begin (h : Reach groups (groupJobs true name) Gd c₀ tr c) (hi : c.proc i = none) (he : j.edit = some e)
    (hg : Gd tr c.world (.start i j)) : Reach groups (groupJobs true name) Gd c₀ (tr ++ [.start i j])
      ⟨c.world, Function.update c.proc i (some (j, editGroup name e >>= fun r => pure (some r)))⟩ := by
  rw [← groupJobs_body he]
  exact h.start i j c.world hi rfl hg

theorem reach_read (h : Reach groups (groupJobs true name) Gd c₀ tr c)
    (hi : c.proc i = some (j, editGroup name e >>= fun r => pure (some r))) (hl : c.world.skills name = some l)
    (hg : Gd tr c.world (.call i ⟨name, .getItem⟩ (.ok (some l)))) :
    Reach groups (groupJobs true name) Gd c₀ (tr ++ [.call i ⟨name, .getItem⟩ (.ok (some l))])
      ⟨c.world, Function.update c.proc i (some (j, writeBack name e l >>= fun r => pure (some r)))⟩ := by
  have hs : groups.step ⟨name, .getItem⟩ (.ok (some l)) c.world c.world := ⟨by simp [hl], rfl⟩
  exact h.call i _ c.world hi hs hg

theorem reach_write (h : Reach groups (groupJobs true name) Gd c₀ tr c)
    (hi : c.proc i = some (j, writeBack name e l >>= fun r => pure (some r)))
    (hg : Gd tr c.world (.call i ⟨name, .updateItem (e.apply l)⟩ (.ok ()))) :
    Reach groups (groupJobs true name) Gd c₀ (tr ++ [.call i ⟨name, .updateItem (e.apply l)⟩ (.ok ())])
      ⟨c.world.write name (e.apply l), Function.update c.proc i (some (j, .ret (answerTo name e l)))⟩ := by
  have hs : groups.step ⟨name, .updateItem (e.apply l)⟩ (.ok ()) c.world (c.world.write name (e.apply l)) := rfl
  exact h.call i _ _ hi hs hg

end Made

section Two

variable {name : String} {init : List String} {w₀ : GroupTable} {j₁ j₂ : GroupJob} {e₁ e₂ : SkillEdit}

/-- **Overlapping calls**: when both have read before either writes, the edit of the first writer is lost. -/
theorem overlapping_edits (h₀ : w₀.skills name = some init) (he₁ : j₁.edit = some e₁) (he₂ : j₂.edit = some e₂) :
    ∃ (tr : List (Ev Grp GroupJob ℕ)) (c : _), Reach groups (groupJobs true name) anyStep (Conf.idle w₀) tr c ∧
      editsOf tr = [e₁, e₂] ∧
        (∀ i j, .start i j ∈ tr → ∃ r, c.proc i = some (j, .ret r) ∧ Answered200 r) ∧
          c.world.skills name = some (e₂.apply init) := by
  have h₀' : Reach groups (groupJobs true name) anyStep (Conf.idle w₀) ([] : List (Ev Grp GroupJob ℕ)) (Conf.idle w₀) :=
    .refl
  have h₁ := reach_begin (i := 0) h₀' rfl he₁ trivial
  have h₂ := reach_begin (i := 1) h₁ (by simp [Conf.idle]) he₂ trivial
  have h₃ := reach_read (i := 0) (j := j₁) (e := e₁) h₂ (by simp) h₀ trivial
  have h₄ := reach_read (i := 1) (j := j₂) (e := e₂) h₃ (by simp) h₀ trivial
  have h₅ := reach_write (i := 0) (j := j₁) (e := e₁) (l := init) h₄ (by simp) trivial
  have h₆ := reach_write (i := 1) (j := j₂) (e := e₂) (l := init) h₅ (by simp) trivial
  refine ⟨_, _, h₆, ?_, ?_, ?_⟩
  · simp [editsOf, he₁, he₂]
  · intro i j hs
    have hij : i = 0 ∧ j = j₁ ∨ i = 1 ∧ j = j₂ := by simpa using hs
    rcases hij with ⟨rfl, rfl⟩ | ⟨rfl, rfl⟩
    · exact ⟨answerTo name e₁ init, by simp, _, rfl⟩
    · exact ⟨answerTo name e₂ init, by simp, _, rfl⟩
  · simp [GroupTable.write]

/-- Calls one after the other: both edits stay. -/
theorem edits_in_turn (h₀ : w₀.skills name = some init) (he₁ : j₁.edit = some e₁) (he₂ : j₂.edit = some e₂) :
    ∃ (tr : List (Ev Grp GroupJob ℕ)) (c : _), Reach groups (groupJobs true name) overItsRead (Conf.idle w₀) tr c ∧
      editsOf tr = [e₁, e₂] ∧
        (∀ i j, .start i j ∈ tr → ∃ r, c.proc i = some (j, .ret r) ∧ Answered200 r) ∧
          c.world.skills name = some (e₂.apply (e₁.apply init)) := by
  have h₀' : Reach groups (groupJobs true name) overItsRead (Conf.idle w₀) ([] : List (Ev Grp GroupJob ℕ))
      (Conf.idle w₀) := .refl
  have h₁ := reach_begin (i := 0) h₀' rfl he₁ trivial
  have h₂ := reach_read (i := 0) (j := j₁) (e := e₁) h₁ (by simp) h₀ trivial
  have h₃ := reach_write (i := 0) (j := j₁) (e := e₁) (l := init) h₂ (by simp) h₀
  have h₄ := reach_begin (i := 1) h₃ (by simp [Conf.idle]) he₂ trivial
  have hw : (w₀.write name (e₁.apply init)).skills name = some (e₁.apply init) := by simp [GroupTable.write]
  have h₅ := reach_read (i := 1) (j := j₂) (e := e₂) h₄ (by simp) hw trivial
  have h₆ := reach_write (i := 1) (j := j₂) (e := e₂) (l := e₁.apply init) h₅ (by simp) hw
  refine ⟨_, _, h₆, ?_, ?_, ?_⟩
  · simp [editsOf, he₁, he₂]
  · intro i j hs
    have hij : i = 0 ∧ j = j₁ ∨ i = 1 ∧ j = j₂ := by simpa using hs
    rcases hij with ⟨rfl, rfl⟩ | ⟨rfl, rfl⟩
    · exact ⟨answerTo name e₁ init, by simp, _, rfl⟩
    · exact ⟨answerTo name e₂ (e₁.apply init), by simp, _, rfl⟩
  · simp [GroupTable.write]

end Two

/-- `{"skill": s}`. -/
def skillBody (s : String) : Option Json := some (.obj [("skill", .str s)])

/-- A group with one skill. -/
def oneGroup : GroupTable where
  skills name := if name = "sre" then some ["k8s"] else none

theorem group_edits_commute_in_turn :
    ∃ (tr : List (Ev Grp GroupJob ℕ)) (c : _),
      Reach groups (groupJobs true "sre") overItsRead (Conf.idle oneGroup) tr c ∧
      editsOf tr = [.add "aws", .remove "k8s"] ∧ ∃ l, c.world.skills "sre" = some l ∧ Ascending l ∧
        ∀ s, s ∈ l ↔ (s ∈ ["k8s"] ∨ .add s ∈ editsOf tr) ∧ .remove s ∉ editsOf tr := by
  have hadd : (GroupJob.add (skillBody "aws")).edit = some (.add "aws") := by decide +kernel
  have hskills : oneGroup.skills "sre" = some ["k8s"] := rfl
  have hremove : (GroupJob.remove "k8s").edit = some (.remove "k8s") := rfl
  obtain ⟨tr, c, hr, hedits, hall, -⟩ := edits_in_turn hskills hadd hremove
  refine ⟨tr, c, hr, hedits, group_edits_commute rfl (List.pairwise_singleton _ _) hr ?_ hall⟩
  rw [hedits]
  decide

/-- **Two additions at the same time**: the group ends without the first one. -/
theorem group_edit_lost :
    ∃ (tr : List (Ev Grp GroupJob ℕ)) (c : _), Reach groups (groupJobs true "sre") anyStep (Conf.idle oneGroup) tr c ∧
      ((editsOf tr).map SkillEdit.skill).Nodup ∧
        (∀ i j, .start i j ∈ tr → ∃ r, c.proc i = some (j, .ret r) ∧ Answered200 r) ∧
          ¬ ∃ l, c.world.skills "sre" = some l ∧ Ascending l ∧
            ∀ s, s ∈ l ↔ (s ∈ ["k8s"] ∨ .add s ∈ editsOf tr) ∧ .remove s ∉ editsOf tr := by
  have hadd : (GroupJob.add (skillBody "aws")).edit = some (.add "aws") := by decide +kernel
  have hadd' : (GroupJob.add (skillBody "git")).edit = some (.add "git") := by decide +kernel
  have hskills : oneGroup.skills "sre" = some ["k8s"] := rfl
  obtain ⟨tr, c, hr, hedits, hall, hlist⟩ := overlapping_edits hskills hadd hadd'
  refine ⟨tr, c, hr, by rw [hedits]; decide, hall, fun hclaim => ?_⟩
  obtain ⟨l, hl, -, hmem⟩ := hclaim
  rw [hlist] at hl
  obtain rfl := Option.some.inj hl
  have haws := (hmem "aws").2 (by rw [hedits]; decide)
  revert haws
  decide +kernel

end OpenClaw
