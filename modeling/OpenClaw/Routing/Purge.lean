import OpenClaw.Control.RoutingAdmin
import OpenClaw.Control.Log
import OpenClaw.Control.Execute

/-!
# What a purge deletes

A purge restricted to some tenants is the canary of a cutover: it must delete the rules of these tenants and no others.

- `NamesTenant`: the tenant that a path value names. `pathTid_iff`: it is what the code cuts out of the value.
- `Scoped`: the rules a purge is for.
- `Reported`: what the lines of a report have to do with the deletions of a run.
- `purge_scope`: a purge deletes exactly these, unless an empty list was supplied, and has a line for each deletion; a
  dry run has the lines of the rules that are deleted.
-/

namespace OpenClaw

open Keyed Atomic

variable (cfg : Config)

/-! ## Path values -/

/-- The first segment after the first `/vm/` of the value. -/
def NamesTenant (v : String) (tid : TenantId) : Prop :=
  ∃ pre rest, v.toList = pre ++ "/vm/".toList ++ rest ∧
    (∀ pre' rest', v.toList = pre' ++ "/vm/".toList ++ rest' → pre.length ≤ pre'.length) ∧
    '/' ∉ tid.toList ∧ (rest = tid.toList ∨ ∃ s, rest = tid.toList ++ '/' :: s)

section Paths

theorem afterVm_eq_some {cs rest : List Char} : afterVm cs = some rest ↔
    ∃ pre, cs = pre ++ "/vm/".toList ++ rest ∧
      ∀ pre' rest', cs = pre' ++ "/vm/".toList ++ rest' → pre.length ≤ pre'.length := by
  induction cs with
  | nil => simp [afterVm]
  | cons c cs ih =>
    unfold afterVm
    split
    · rename_i hp
      obtain ⟨t, ht⟩ := List.isPrefixOf_iff_prefix.1 hp
      rw [← ht]
      constructor
      · intro he
        obtain rfl := Option.some.inj he
        exact ⟨[], by simp, by simp⟩
      · rintro ⟨pre, he, hmin⟩
        have hnil : pre = [] := List.length_eq_zero_iff.1 (Nat.le_zero.1 (hmin [] t (by simp)))
        subst hnil
        simp only [List.nil_append] at he
        simpa using List.append_cancel_left he
    · rename_i hp
      have hnot : ∀ pre' rest', c :: cs = pre' ++ "/vm/".toList ++ rest' → ∃ pre, pre' = c :: pre := by
        intro pre' rest' he
        cases pre' with
        | nil => exact absurd (List.isPrefixOf_iff_prefix.2 ⟨rest', by simpa using he.symm⟩) hp
        | cons d pre =>
          simp only [List.cons_append, List.cons.injEq] at he
          exact ⟨pre, by rw [he.1]⟩
      rw [ih]
      constructor
      · rintro ⟨pre, he, hmin⟩
        refine ⟨c :: pre, by rw [he]; simp, fun pre' rest' he' => ?_⟩
        obtain ⟨p, rfl⟩ := hnot pre' rest' he'
        simp only [List.cons_append, List.cons.injEq, true_and] at he'
        have := hmin p rest' he'
        simpa using this
      · rintro ⟨pre, he, hmin⟩
        obtain ⟨p, rfl⟩ := hnot pre rest he
        simp only [List.cons_append, List.cons.injEq, true_and] at he
        refine ⟨p, he, fun pre' rest' he' => ?_⟩
        have := hmin (c :: pre') rest' (by rw [he']; simp)
        simpa using this

/-- The first segment. -/
theorem takeWhile_segment {rest tid : List Char} : rest.takeWhile (· ≠ '/') = tid ↔
    '/' ∉ tid ∧ (rest = tid ∨ ∃ s, rest = tid ++ '/' :: s) := by
  induction rest generalizing tid with
  | nil =>
    constructor
    · rintro rfl
      simp
    · rintro ⟨-, rfl | ⟨s, hs⟩⟩
      · rfl
      · simp at hs
  | cons c rest ih =>
    by_cases hc : c = '/'
    · subst hc
      constructor
      · rintro rfl
        simp
      · rintro ⟨hno, rfl | ⟨s, hs⟩⟩
        · simp at hno
        · cases tid with
          | nil => simp
          | cons d tid =>
            simp only [List.cons_append, List.cons.injEq] at hs
            exact absurd (hs.1 ▸ List.mem_cons_self) hno
    · rw [List.takeWhile_cons_of_pos (by simpa using hc)]
      constructor
      · rintro rfl
        obtain ⟨hno, hrest⟩ := ih.1 rfl
        refine ⟨?_, ?_⟩
        · rw [List.mem_cons, not_or]
          exact ⟨fun h => hc h.symm, hno⟩
        rcases hrest with h | ⟨s, hs⟩
        · exact .inl (congrArg (List.cons c) h)
        · exact .inr ⟨s, congrArg (List.cons c) hs⟩
      · rintro ⟨hno, hrest⟩
        cases tid with
        | nil =>
          rcases hrest with h | ⟨s, hs⟩
          · cases h
          · simp only [List.nil_append, List.cons.injEq] at hs
            exact absurd hs.1 hc
        | cons d tid =>
          simp only [List.cons_append, List.cons.injEq, exists_and_left] at hrest
          have hcd : c = d := by tauto
          have htail : rest = tid ∨ ∃ s, rest = tid ++ '/' :: s := by tauto
          rw [← hcd, ih.2 ⟨fun h => hno (List.mem_cons_of_mem _ h), htail⟩]

/-- **What the code cuts out of a value** is the tenant it names. -/
theorem pathTid_iff {v : String} {tid : TenantId} : pathTid v = some tid ↔ NamesTenant v tid := by
  unfold pathTid NamesTenant
  rw [Option.map_eq_some_iff]
  constructor
  · rintro ⟨rest, hr, rfl⟩
    obtain ⟨pre, he, hmin⟩ := afterVm_eq_some.1 hr
    have hseg := (@takeWhile_segment rest _).1 rfl
    exact ⟨pre, rest, he, hmin, by simpa using hseg⟩
  · rintro ⟨pre, rest, he, hmin, hseg⟩
    refine ⟨rest, afterVm_eq_some.2 ⟨pre, he, hmin⟩, ?_⟩
    rw [takeWhile_segment.2 hseg, String.ofList_toList]

end Paths

/-! ## The rules a purge is for -/

/-- A path value of the rule names the tenant; the catch-all value names none. -/
def Rule.names (r : Rule) (tid : TenantId) : Prop := ∃ v ∈ r.values, v ≠ "/vm/*" ∧ NamesTenant v tid

/-- The per-tenant rules of the supplied tenants, or all per-tenant rules if no list was supplied. -/
def Scoped (ids : Option (List TenantId)) (r : Rule) : Prop :=
  r.priority ≠ none ∧ ∃ tid, r.names tid ∧ ∀ l, ids = some l → tid ∈ l

/-- The supplied list. -/
def PurgeRequest.supplied (r : PurgeRequest) : Option (List TenantId) :=
  match r.tenantIds with
  | .given l => some l
  | _ => none

/-- A purge with the calls `l` deletes the rules it is for and keeps the others. -/
structure PurgesExactly (ids : Option (List TenantId)) (w : World) (l : CallLog) (w' : World) : Prop where
  deletes : ∀ a, (∃ ok : Bool, Saw l (.deleteRule a) ok) ↔ ∃ r ∈ w.rules, r.arn = a ∧ Scoped ids r
  keeps : ∀ r, r ∈ w'.rules ↔ r ∈ w.rules ∧ ¬ Saw l (.deleteRule r.arn) true

section Rules

variable {r : Rule} {tid : TenantId}

theorem Rule.mem_tids : tid ∈ r.tids ↔ r.names tid := by
  simp only [Rule.tids, Rule.names, List.mem_filterMap, List.mem_filter, pathTid_iff, decide_eq_true_eq]
  exact exists_congr fun v => by tauto

theorem Rule.purged_iff {only : Option (List TenantId)} : r.purged only = true ↔ Scoped only r := by
  have hne : r.tids.isEmpty = false ↔ ∃ tid, r.names tid := by
    rw [List.isEmpty_eq_false_iff_exists_mem]
    exact exists_congr fun tid => Rule.mem_tids
  simp only [Rule.purged, Scoped, Bool.and_eq_true, Option.isSome_iff_ne_none, Bool.not_eq_true']
  refine and_congr_right fun _ => ?_
  cases only with
  | none => simp [hne]
  | some l =>
    simp only [hne, Option.all_some, List.any_eq_true, Rule.mem_tids, List.contains_iff_mem, Option.some.injEq]
    constructor
    · rintro ⟨-, tid, ht, hl⟩
      exact ⟨tid, ht, fun l' he => he ▸ hl⟩
    · rintro ⟨tid, ht, hl⟩
      exact ⟨⟨tid, ht⟩, tid, ht, hl l rfl⟩

end Rules

/-! ## The report -/

/-- The calls of a run that delete a rule, with what became of them. -/
def deletions (l : CallLog) : List (RuleArn × Bool) := l.filterMap fun
  | ⟨.deleteRule a, ok⟩ => some (a, ok)
  | _ => none

/-- What a line says about a deletion. -/
def PurgeAction.ofDeletion (ok : Bool) : PurgeAction := if ok then .deleted else .failed

/-- A line about the rule: its priority and the first of the tenants it names. -/
structure LineOf (r : Rule) (x : PurgeResult) : Prop where
  priority : x.priority = r.priority
  tenant : ∃ tid, x.tenantId = some tid ∧ r.names tid ∧ ∀ tid', r.names tid' → tid ≤ tid'

/-- The run asked for the deletion of the rules `rs` in this order, and there is a line for each. -/
structure Reported (rs : List Rule) (l : CallLog) (results : List PurgeResult) : Prop where
  asked : (deletions l).map Prod.fst = rs.map Rule.arn
  lines : List.Forall₂ LineOf rs results
  /-- Each line says what became of it. -/
  actions : results.map PurgeResult.action = (deletions l).map fun d => .ofDeletion d.2

/-- There is a line for each of the rules `rs`, as one that is about to be deleted. -/
structure Announced (rs : List Rule) (results : List PurgeResult) : Prop where
  lines : List.Forall₂ LineOf rs results
  actions : ∀ x ∈ results, x.action = .wouldDelete

section Report

variable {r : Rule} {only : Option (List TenantId)} {w : World} {l : CallLog} {results : List PurgeResult}

/-- `sorted` puts the ids in the order of the strings. -/
theorem strLe_toList_iff {a b : TenantId} : strLe a.toList b.toList = true ↔ a ≤ b := strLe_iff_not_lt

instance : Std.Total fun a b : TenantId => strLe a.toList b.toList = true :=
  ⟨fun a b => by simpa only [strLe_toList_iff] using le_total a b⟩

instance : IsTrans TenantId fun a b => strLe a.toList b.toList = true :=
  ⟨fun _ _ _ hab hbc => strLe_toList_iff.2 (le_trans (strLe_toList_iff.1 hab) (strLe_toList_iff.1 hbc))⟩

theorem firstTid_least {tids : List TenantId} (hne : tids ≠ []) :
    ∃ tid, firstTid tids = some tid ∧ tid ∈ tids ∧ ∀ tid' ∈ tids, tid ≤ tid' := by
  have hperm := List.perm_insertionSort (fun a b : TenantId => strLe a.toList b.toList) tids
  have hsorted := tids.pairwise_insertionSort fun a b : TenantId => strLe a.toList b.toList
  unfold firstTid
  cases hs : tids.insertionSort fun a b => strLe a.toList b.toList with
  | nil =>
    rw [hs] at hperm
    exact absurd hperm.nil_eq.symm hne
  | cons tid rest =>
    rw [hs] at hperm hsorted
    refine ⟨tid, rfl, hperm.mem_iff.1 List.mem_cons_self, fun tid' hm => ?_⟩
    rcases List.mem_cons.1 (hperm.mem_iff.2 hm) with rfl | hm
    · exact le_refl _
    · exact strLe_toList_iff.1 ((List.pairwise_cons.1 hsorted).1 tid' hm)

/-- The line that is written for a rule that is purged. -/
theorem lineOf_purged (hp : r.purged only = true) (a : PurgeAction) : LineOf r ⟨firstTid r.tids, r.priority, a⟩ := by
  obtain ⟨-, tid, ht, -⟩ := Rule.purged_iff.1 hp
  obtain ⟨first, he, hm, hle⟩ := firstTid_least (List.ne_nil_of_mem (Rule.mem_tids.2 ht))
  exact ⟨rfl, first, he, Rule.mem_tids.1 hm, fun tid' ht' => hle tid' (Rule.mem_tids.2 ht')⟩

theorem Reported.nil : Reported [] [] [] := ⟨rfl, .nil, rfl⟩

theorem Reported.cons {rs : List Rule} {ok : Bool} (hp : r.purged only = true) (h : Reported rs l results) :
    Reported (r :: rs) (⟨.deleteRule r.arn, ok⟩ :: l)
      (⟨firstTid r.tids, r.priority, if ok then .deleted else .failed⟩ :: results) := by
  have hd : deletions (⟨.deleteRule r.arn, ok⟩ :: l) = (r.arn, ok) :: deletions l := rfl
  refine ⟨?_, .cons (lineOf_purged hp _) h.lines, ?_⟩
  · rw [hd, List.map_cons, List.map_cons, h.asked]
  · rw [hd, List.map_cons, List.map_cons, h.actions]
    rfl

theorem purgeRules_dry (rs : List Rule) : (purgeRules true only rs).wpt ctl (fun l results w' => l = [] ∧ w' = w ∧
    Announced (rs.filter (Rule.purged only)) results) w := by
  induction rs with
  | nil => exact ⟨rfl, rfl, .nil, by simp⟩
  | cons r rs ih =>
    unfold purgeRules
    split
    · rename_i hp
      refine (Prog.wpt_bind ..).2 (Prog.wpt_mono ?_ ih)
      rintro l results w' ⟨rfl, rfl, hlines, hactions⟩
      rw [List.filter_cons_of_pos hp]
      exact ⟨rfl, rfl, .cons (lineOf_purged hp _) hlines, List.forall_mem_cons.2 ⟨rfl, hactions⟩⟩
    · rename_i hp
      rw [List.filter_cons_of_neg hp]
      exact ih

theorem saw_deleteRule_cons {a b : RuleArn} {x y : Bool} {l : CallLog} :
    Saw (⟨.deleteRule a, x⟩ :: l) (.deleteRule b) y ↔ (a = b ∧ x = y) ∨ Saw l (.deleteRule b) y := by
  refine List.mem_cons.trans (or_congr_left ?_)
  constructor
  · intro h
    obtain ⟨hc, hr⟩ := Sigma.mk.inj h
    obtain rfl := Call.deleteRule.inj hc
    exact ⟨rfl, (eq_of_heq hr).symm⟩
  · rintro ⟨rfl, rfl⟩
    rfl

/-- The rules are deleted one after the other, whatever became of those before. -/
theorem purgeRules_real (rs : List Rule) : (purgeRules false only rs).wpt ctl (fun l results w' =>
    (∀ a, (∃ ok : Bool, Saw l (.deleteRule a) ok) ↔ ∃ r ∈ rs, r.arn = a ∧ r.purged only = true) ∧
      (∀ r, r ∈ w'.rules ↔ r ∈ w.rules ∧ ¬ Saw l (.deleteRule r.arn) true) ∧
      Reported (rs.filter (Rule.purged only)) l results) w := by
  induction rs generalizing w with
  | nil => exact ⟨by simp [Saw], by simp [Saw], .nil⟩
  | cons r rs ih =>
    unfold purgeRules
    split
    · rename_i hp
      simp only [Bool.false_eq_true, if_false, req_bind]
      intro ok w₁ hs
      refine (Prog.wpt_bind ..).2 (Prog.wpt_mono ?_ ih)
      rintro l results w' ⟨hdel, hkeep, hlines⟩
      refine ⟨fun a => ?_, fun x => ?_, ?_⟩
      · have hcons : (∃ ok' : Bool, Saw (⟨.deleteRule r.arn, ok⟩ :: (l ++ [])) (.deleteRule a) ok') ↔
            r.arn = a ∨ ∃ ok' : Bool, Saw l (.deleteRule a) ok' := by
          rw [List.append_nil, exists_congr fun ok' => saw_deleteRule_cons, exists_or]
          simp
        rw [hcons, hdel]
        simp only [List.mem_cons, exists_eq_or_imp, hp, and_true]
      · rw [hkeep, List.append_nil, saw_deleteRule_cons]
        cases ok with
        | true =>
          obtain rfl : w₁ = w.setRules (w.rules.filter fun x => x.arn ≠ r.arn) := hs
          simp only [World.setRules, List.mem_filter, decide_eq_true_eq]
          constructor
          · rintro ⟨⟨hx, hne⟩, hl⟩
            exact ⟨hx, not_or.2 ⟨fun h => hne h.1.symm, hl⟩⟩
          · rintro ⟨hx, hl⟩
            obtain ⟨hne, hl⟩ := not_or.1 hl
            exact ⟨⟨hx, fun h => hne ⟨h.symm, trivial⟩⟩, hl⟩
        | false =>
          obtain rfl : w₁ = w := hs
          simp
      · rw [List.filter_cons_of_pos hp, List.append_nil]
        exact hlines.cons hp
    · rename_i hp
      rw [List.filter_cons_of_neg hp]
      refine Prog.wpt_mono ?_ ih
      rintro l results w' ⟨hdel, hkeep, hlines⟩
      refine ⟨fun a => ?_, hkeep, hlines⟩
      rw [hdel]
      simp [hp]

end Report

/-! ## A whole purge -/

/-- The list the code works with: an empty one counts as none. -/
def PurgeRequest.effective (r : PurgeRequest) : Option (List TenantId) := PurgeRequest.only r.tenantIds

section Purge

variable {cfg} {r : PurgeRequest} {only : Option (List TenantId)} {w w' : World} {l : CallLog} {report : PurgeReport}

theorem purgeListener_real (only : Option (List TenantId)) (w : World) : (purgeListener cfg false only).wpt ctl
    (fun l reply w' => ∀ report, reply = .ok report → PurgesExactly only w l w' ∧
      ∃ rules : List Rule, rules.Perm w.rules ∧ Reported (rules.filter (Rule.purged only)) l report.results) w := by
  simp only [purgeListener, req_bind, Prog.pure_eq]
  split
  · intro report he
    cases he
  · rintro rules w₁ ⟨hp, rfl⟩
    cases rules with
    | none =>
      intro report he
      cases he
    | some rules =>
      have hp : rules.Perm w₁.rules := hp rules rfl
      have hdescribe : ∀ {l : CallLog} {a : RuleArn} {x : Bool},
          Saw (⟨.describeRules, some rules⟩ :: l) (.deleteRule a) x ↔ Saw l (.deleteRule a) x := by
        simp [Saw]
      refine (Prog.wpt_bind ..).2 (Prog.wpt_mono ?_ (purgeRules_real rules))
      rintro l results w' ⟨hdel, hkeep, hlines⟩ report he
      cases he
      refine ⟨⟨fun a => ?_, fun r => ?_⟩, rules, hp, ?_⟩
      · rw [List.append_nil, exists_congr fun ok => hdescribe, hdel]
        simp only [hp.mem_iff, Rule.purged_iff]
      · rw [List.append_nil, hdescribe, hkeep]
      · rw [List.append_nil]
        exact ⟨hlines.asked, hlines.lines, hlines.actions⟩

theorem purgeListener_dry (only : Option (List TenantId)) (w : World) : (purgeListener cfg true only).wpt ctl
    (fun l reply w' => deletions l = [] ∧ w' = w ∧ ∀ report, reply = .ok report →
      ∃ rules : List Rule, rules.Perm w.rules ∧ Announced (rules.filter (Rule.purged only)) report.results) w := by
  simp only [purgeListener, req_bind, Prog.pure_eq]
  split
  · refine ⟨rfl, rfl, fun report he => ?_⟩
    cases he
  · rintro rules w₁ ⟨hp, rfl⟩
    cases rules with
    | none =>
      refine ⟨rfl, rfl, fun report he => ?_⟩
      cases he
    | some rules =>
      refine (Prog.wpt_bind ..).2 (Prog.wpt_mono ?_ (purgeRules_dry rules))
      rintro l results w' ⟨rfl, rfl, hlines⟩
      refine ⟨rfl, rfl, fun report he => ?_⟩
      cases he
      exact ⟨rules, hp rules rfl, hlines⟩

/-- A request that is refused deletes nothing. -/
theorem purge_refused (hm : r.dryRun = .malformed ∨ r.tenantIds = .malformed) (w : World) :
    (purgePerTenantRouting cfg r).wpt ctl (fun l _ w' => l = [] ∧ w' = w) w := by
  obtain ⟨dryRun, tenantIds⟩ := r
  cases dryRun <;> cases tenantIds <;> first | exact ⟨rfl, rfl⟩ | simp at hm

theorem purge_eq_real {ids : Field (List TenantId)} (hi : ids ≠ .malformed) :
    purgePerTenantRouting cfg ⟨.given false, ids⟩ = purgeListener cfg false (PurgeRequest.only ids) := by
  cases ids <;> first | rfl | exact absurd rfl hi

theorem purge_eq_dry {dry : Field Bool} {ids : Field (List TenantId)} (hd : dry = .absent ∨ dry = .given true)
    (hi : ids ≠ .malformed) :
    purgePerTenantRouting cfg ⟨dry, ids⟩ = purgeListener cfg true (PurgeRequest.only ids) := by
  rcases hd with rfl | rfl <;> cases ids <;> first | rfl | exact absurd rfl hi

/-- Only an empty list is taken for something else. -/
theorem PurgeRequest.effective_eq (h : r.supplied ≠ some []) : r.effective = r.supplied := by
  obtain ⟨dryRun, tenantIds⟩ := r
  cases tenantIds with
  | absent => rfl
  | malformed => rfl
  | given ids =>
    cases ids with
    | nil => exact absurd rfl h
    | cons id ids => rfl

theorem PurgeRequest.effective_nil (h : r.supplied = some []) : r.effective = none := by
  obtain ⟨dryRun, tenantIds⟩ := r
  cases tenantIds with
  | absent => cases h
  | malformed => cases h
  | given ids =>
    cases ids with
    | nil => rfl
    | cons id ids => cases h

theorem not_scoped_nil (r : Rule) : ¬ Scoped (some []) r := by
  rintro ⟨-, tid, -, hl⟩
  cases hl [] rfl

/-- The rules of the tenants that are meant, if the list is not an empty one. -/
theorem purgesExactly_iff (h : PurgesExactly r.effective w l w') :
    PurgesExactly r.supplied w l w' ↔ r.supplied ≠ some [] ∨ ∀ x ∈ w.rules, ¬ Scoped none x := by
  by_cases hs : r.supplied = some []
  · rw [PurgeRequest.effective_nil hs] at h
    rw [hs, ne_eq, eq_self, not_true, false_or]
    constructor
    · intro hx x hm hsc
      obtain ⟨y, -, -, hy⟩ := (hx.deletes x.arn).1 ((h.deletes x.arn).2 ⟨x, hm, rfl, hsc⟩)
      exact not_scoped_nil y hy
    · intro hno
      refine ⟨fun a => ?_, h.keeps⟩
      rw [h.deletes]
      constructor
      · rintro ⟨x, hm, -, hsc⟩
        exact absurd hsc (hno x hm)
      · rintro ⟨x, -, -, hsc⟩
        exact absurd hsc (not_scoped_nil x)
  · rw [PurgeRequest.effective_eq hs] at h
    exact iff_of_true h (.inl hs)

end Purge

/-- **The scope of a purge**: it deletes the rules of the supplied tenants and no others, unless the supplied list is
empty and there are per-tenant rules, and its report has a line for each rule it deletes; a dry run changes nothing, and
its report has a line for each of the same rules. -/
theorem purge_scope {ids : Field (List TenantId)} {w w' : World} {l : CallLog} {report : PurgeReport}
    (hr : (purgePerTenantRouting cfg ⟨.given false, ids⟩).Traces ctl w l (.ok report) w') :
    (PurgesExactly (PurgeRequest.supplied ⟨.given false, ids⟩) w l w' ↔
      PurgeRequest.supplied ⟨.given false, ids⟩ ≠ some [] ∨ ∀ r ∈ w.rules, ¬ Scoped none r) ∧
    ∃ rs : List Rule, rs.Subperm w.rules ∧ Reported rs l report.results ∧
      ∀ dry, dry = .absent ∨ dry = .given true → ∀ (l₀ : CallLog) (report₀ : PurgeReport) (w₀ : World),
        (purgePerTenantRouting cfg ⟨dry, ids⟩).Traces ctl w l₀ (.ok report₀) w₀ →
        deletions l₀ = [] ∧ w₀ = w ∧ ∃ rs₀ : List Rule, rs₀.Perm rs ∧ Announced rs₀ report₀.results := by
  have hids : ids ≠ .malformed := by
    rintro rfl
    cases hr
  rw [purge_eq_real hids] at hr
  obtain ⟨hexact, rules, hp, hlines⟩ := Prog.wpt_iff_traces.1 (purgeListener_real _ w) _ _ _ hr report rfl
  refine ⟨purgesExactly_iff hexact, _, List.filter_sublist.subperm.trans hp.subperm, hlines, ?_⟩
  intro dry hdry l₀ report₀ w₀ hr₀
  rw [purge_eq_dry hdry hids] at hr₀
  obtain ⟨hno, rfl, hrep⟩ := Prog.wpt_iff_traces.1 (purgeListener_dry _ w) _ _ _ hr₀
  obtain ⟨rules₀, hp₀, hlines₀⟩ := hrep report₀ rfl
  exact ⟨hno, rfl, _, (hp₀.trans hp.symm).filter _, hlines₀⟩

/-- A listener with the catch-all and the rule of one tenant. -/
def canaryWorld : World where
  tenants := .empty
  hosts := .empty
  rules := [⟨1, some 999, [⟨"path-pattern", ["/vm/*"]⟩], [1]⟩, ⟨2, some 5, [pathPattern "a-0000"], [2]⟩]

theorem canary_run (ids : Field (List TenantId)) (h : (ctlOracle.alone (fun _ _ _ => true)
    (purgePerTenantRouting {} ⟨.given false, ids⟩) (List.replicate 2 {}) canaryWorld).any (fun x => x.2.1.answer.isSome) = true) :
    ∃ l report w', (purgePerTenantRouting {} ⟨.given false, ids⟩).Traces ctl canaryWorld l (.ok report) w' := by
  obtain ⟨⟨l, reply, w'⟩, hx, hP⟩ := (Option.any_eq_true _ _).1 h
  have ht := Prog.Traces.of_restrict (Oracle.alone_sound (fun _ _ _ h => h) hx)
  cases reply with
  | ok report => exact ⟨l, report, w', ht⟩
  | badRequest _ | notConfigured _ | upstream _ => cases hP

theorem canary_scoped : ∃ r ∈ canaryWorld.rules, Scoped none r :=
  ⟨_, List.mem_cons_of_mem _ List.mem_cons_self, Rule.purged_iff.1 (by decide +kernel)⟩

/-- **An empty list deletes every per-tenant rule.** -/
theorem purge_empty_list : ∃ l report w', (purgePerTenantRouting {} ⟨.given false, .given []⟩).Traces ctl canaryWorld l
    (.ok report) w' ∧ ¬ PurgesExactly (PurgeRequest.supplied ⟨.given false, .given []⟩) canaryWorld l w' := by
  obtain ⟨l, report, w', ht⟩ := canary_run (.given []) (by decide +kernel)
  refine ⟨l, report, w', ht, fun hx => ?_⟩
  rw [purge_eq_real (by simp)] at ht
  obtain ⟨hall, -⟩ := Prog.wpt_iff_traces.1 (purgeListener_real _ canaryWorld) _ _ _ ht report rfl
  obtain ⟨r, hm, hs⟩ := canary_scoped
  rcases (@purgesExactly_iff ⟨.given false, .given []⟩ _ _ _ hall).1 hx with h | h
  · exact h rfl
  · exact h r hm hs

/-- A purge of one tenant is exact, and reports one line. -/
theorem purge_scope_canary : ∃ l report w', (purgePerTenantRouting {} ⟨.given false, .given ["a-0000"]⟩).Traces ctl
    canaryWorld l (.ok report) w' ∧ PurgesExactly (some ["a-0000"]) canaryWorld l w' ∧
    ∃ rs : List Rule, rs.Subperm canaryWorld.rules ∧ Reported rs l report.results := by
  obtain ⟨l, report, w', ht⟩ := canary_run (.given ["a-0000"]) (by decide +kernel)
  obtain ⟨hiff, rs, hsub, hrep, -⟩ := purge_scope {} ht
  exact ⟨l, report, w', ht, hiff.2 (.inl (by simp [PurgeRequest.supplied])), rs, hsub, hrep⟩

end OpenClaw
