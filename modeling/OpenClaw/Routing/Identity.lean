import OpenClaw.Control.Log
import OpenClaw.Api.Names

/-!
# Which listener rules an id touches

A tenant's own rule has the path values `/vm/<id>` and `/vm/<id>/*`. Additions and repoints look for `/vm/<id>` as a
substring of the values, which also finds the rules of every tenant whose id starts with `<id>`; removals compare
whole values.

- `RulesInOrder`: the rules are the own rules of some tenants, one each, and rules that mention no tenant. Every
  addition, repoint and removal keeps it (`RuleOp.keeps_order`).
- `rule_identity`: after any sequence of these operations, the next one does right exactly when `RuleOp.condition`
  holds.
-/

namespace OpenClaw

open Keyed Atomic

/-! ## Ids -/

/-- An id that `_gen_id` makes of a valid name. -/
def ValidId (tid : TenantId) : Prop :=
  ∃ name s : String, validName name = true ∧ s.length = 4 ∧ (∀ c ∈ s.toList, c ∈ "0123456789abcdef".toList) ∧
    tid = name ++ "-" ++ s

/-- The ids the rules are kept for. -/
abbrev PathId := { tid : TenantId // ValidId tid }

section Ids

theorem validName_chars {name : String} (h : validName name = true) {c : Char} (hc : c ∈ name.toList) :
    c ≠ '/' ∧ c ≠ '*' := by
  have hplain : ∀ {d : Char}, labelChar d = true → d ≠ '/' ∧ d ≠ '*' := by
    intro d hd
    constructor <;>
    · rintro rfl
      simp [labelChar, alnumChar] at hd
  simp only [validName, nameRe, labelRe, Bool.and_eq_true, Bool.or_eq_true, decide_eq_true_eq] at h
  rcases h.2 with hm | ⟨hl, hm⟩
  · exact hplain ((label_chars hm).2 c hc)
  · have hsplit : name.toList = name.toList.dropLast ++ ['\n'] := (List.dropLast_append_getLast? _ hl).symm
    rw [hsplit, List.mem_append, List.mem_singleton] at hc
    rcases hc with hc | rfl
    · exact hplain ((label_chars hm).2 c hc)
    · exact ⟨by decide, by decide⟩

theorem ValidId.chars {tid : TenantId} (h : ValidId tid) {c : Char} (hc : c ∈ tid.toList) : c ≠ '/' ∧ c ≠ '*' := by
  obtain ⟨name, s, hn, -, hs, rfl⟩ := h
  simp only [String.toList_append, List.mem_append] at hc
  rcases hc with (hc | hc) | hc
  · exact validName_chars hn hc
  · obtain rfl : c = '-' := by simpa using hc
    exact ⟨by decide, by decide⟩
  · have hmem := hs c hc
    constructor <;>
    · rintro rfl
      revert hmem
      decide

theorem ValidId.no_slash {tid : TenantId} (h : ValidId tid) : '/' ∉ tid.toList := fun hm => (h.chars hm).1 rfl

theorem ValidId.ne_nil {tid : TenantId} (h : ValidId tid) : tid.toList ≠ [] := by
  obtain ⟨name, s, -, -, -, rfl⟩ := h
  simp

end Ids

/-! ## Paths -/

section Paths

variable {tid other : List Char}

/-- After the last slash of `/vm/<other>/*` there is only `*`. -/
theorem last_slash {pre suf : List Char} (hs : '/' ∉ tid ++ suf) (hne : tid ≠ []) (hstar : '*' ∉ tid)
    (he : pre ++ '/' :: (tid ++ suf) = other ++ ['/', '*']) : False := by
  have hfirst : tid ++ suf = ['*'] → False := by
    intro h
    cases tid with
    | nil => exact hne rfl
    | cons c cs =>
      simp only [List.cons_append, List.cons.injEq] at h
      exact hstar (h.1 ▸ List.mem_cons_self)
  rcases List.append_eq_append_iff.1 he with ⟨xs, -, hx⟩ | ⟨xs, -, hx⟩
  · cases xs with
    | nil => exact hfirst (by simpa using hx)
    | cons x xs =>
      simp only [List.cons_append, List.cons.injEq] at hx
      exact hs (hx.2 ▸ List.mem_append_right xs List.mem_cons_self)
  · rcases xs with _ | ⟨x, _ | ⟨y, xs⟩⟩
    · exact hfirst (by simpa using hx.symm)
    · simp at hx
    · simp at hx

/-- `/vm/<tid>` occurs in the path values of another id only at their start. -/
theorem path_occurs (hs : '/' ∉ tid) (hne : tid ≠ []) (hstar : '*' ∉ tid) (ho : '/' ∉ other) :
    (('/' :: 'v' :: 'm' :: '/' :: tid) <:+: '/' :: 'v' :: 'm' :: '/' :: other ∨
      ('/' :: 'v' :: 'm' :: '/' :: tid) <:+: '/' :: 'v' :: 'm' :: '/' :: (other ++ ['/', '*'])) ↔ tid <+: other := by
  constructor
  · rintro (⟨pre, suf, he⟩ | ⟨pre, suf, he⟩)
    · have hcount := congrArg (List.count '/') he
      cases pre with
      | nil =>
        simp only [List.nil_append, List.cons_append, List.cons.injEq, true_and] at he
        exact ⟨suf, he⟩
      | cons c pre =>
        simp only [List.cons_append, List.cons.injEq] at he
        obtain ⟨rfl, -⟩ := he
        simp [List.count_append, List.count_eq_zero.2 ho] at hcount
        omega
    · have hcount := congrArg (List.count '/') he
      cases pre with
      | nil =>
        simp only [List.nil_append, List.cons_append, List.cons.injEq, true_and] at he
        rcases List.append_eq_append_iff.1 he with ⟨xs, hx, -⟩ | ⟨xs, hx, hsuf⟩
        · exact ⟨xs, hx.symm⟩
        · cases xs with
          | nil => exact ⟨[], by simpa using hx⟩
          | cons x xs =>
            simp only [List.cons_append, List.cons.injEq] at hsuf
            exact absurd (hx ▸ List.mem_append_right other (hsuf.1 ▸ List.mem_cons_self)) hs
      | cons c pre =>
        simp only [List.cons_append, List.cons.injEq] at he
        obtain ⟨rfl, he⟩ := he
        -- The three slashes are used up, so none is left for `suf`.
        simp [List.count_append, List.count_eq_zero.2 ho, List.count_eq_zero.2 hs] at hcount
        have hsuf : '/' ∉ tid ++ suf := by
          rw [List.mem_append, not_or]
          exact ⟨hs, List.count_eq_zero.1 (by omega)⟩
        have he' : (pre ++ ['/', 'v', 'm']) ++ '/' :: (tid ++ suf) = ('v' :: 'm' :: '/' :: other) ++ ['/', '*'] := by
          simpa using he
        exact (last_slash hsuf hne hstar he').elim
  · rintro ⟨suf, rfl⟩
    exact .inl ⟨[], suf, by simp⟩

end Paths

/-! ## Rules -/

/-- The rule with exactly the path values of the tenant. -/
def Rule.ownOf (r : Rule) (tid : TenantId) : Prop := r.conditions = [pathPattern tid]

/-- The rule mentions no tenant, such as the catch-all `/vm/*` of the template. -/
def Rule.static (r : Rule) : Prop := ∀ tid, ValidId tid → r.mentions tid = false

/-- The tenant has a rule of its own. -/
def HasRule (rules : List Rule) (tid : TenantId) : Prop := ∃ r ∈ rules, r.ownOf tid

/-- Another tenant with a rule has an id that starts with `tid`. -/
def Clash (rules : List Rule) (tid : TenantId) : Prop :=
  ∃ r ∈ rules, ∃ other, ValidId other ∧ other ≠ tid ∧ r.ownOf other ∧ tid.toList <+: other.toList

structure RulesInOrder (rules : List Rule) : Prop where
  arns : (rules.map Rule.arn).Nodup
  kinds : ∀ r ∈ rules, (∃ tid, ValidId tid ∧ r.ownOf tid) ∨ r.static
  single : ∀ r ∈ rules, ∀ r' ∈ rules, ∀ tid, r.ownOf tid → r'.ownOf tid → r = r'

section Rules

variable {r : Rule} {rules : List Rule} {tid other : TenantId}

theorem Rule.pathMentions_le (h : r.pathMentions tid = true) : r.mentions tid = true := by
  simp only [Rule.pathMentions, Rule.mentions, List.any_eq_true, Bool.and_eq_true] at h ⊢
  obtain ⟨c, hc, -, v, hv, hs⟩ := h
  exact ⟨c, hc, v, hv, hs⟩

theorem Rule.ownOf.pathMentions_iff (h : r.ownOf other) (hv : ValidId tid) (ho : ValidId other) :
    r.pathMentions tid = true ↔ tid.toList <+: other.toList := by
  have hvm := @path_occurs tid.toList other.toList hv.no_slash hv.ne_nil (fun hm => (hv.chars hm).2 rfl) ho.no_slash
  rw [← hvm, Rule.pathMentions, h]
  simp [pathPattern, hasSub]

theorem Rule.ownOf.mentions_iff (h : r.ownOf other) (hv : ValidId tid) (ho : ValidId other) :
    r.mentions tid = true ↔ tid.toList <+: other.toList := by
  have hvm := @path_occurs tid.toList other.toList hv.no_slash hv.ne_nil (fun hm => (hv.chars hm).2 rfl) ho.no_slash
  rw [← hvm, Rule.mentions, h]
  simp [pathPattern, hasSub]

theorem Rule.ownOf.inj (h : r.ownOf tid) (h' : r.ownOf other) : tid = other := by
  have hc : pathPattern tid = pathPattern other := List.singleton_injective (h.symm.trans h')
  simp only [pathPattern, RuleCondition.mk.injEq, List.cons.injEq, true_and, and_true] at hc
  have hl := congrArg String.toList hc.1
  simp only [String.toList_append, List.append_cancel_left_eq] at hl
  exact String.toList_injective hl

/-- Whole values are compared: only the tenant's own rule lists its path. -/
theorem Rule.ownOf.pathIs_iff (h : r.ownOf other) (hv : ValidId tid) : r.pathIs tid = true ↔ other = tid := by
  rw [Rule.pathIs, h]
  simp only [pathPattern, List.any_cons, decide_true, List.contains_cons, List.contains_nil, Bool.or_false, Bool.true_and,
    List.any_nil, Bool.or_eq_true, beq_iff_eq]
  constructor
  · rintro (he | he)
    · have hl := congrArg String.toList he
      simp only [String.toList_append, List.append_cancel_left_eq] at hl
      exact (String.toList_injective hl).symm
    · have hl := congrArg String.toList he
      simp only [String.toList_append, List.append_assoc, List.append_cancel_left_eq] at hl
      refine absurd (hl ▸ List.mem_append_right other.toList ?_) hv.no_slash
      decide
  · rintro rfl
    exact .inl rfl

theorem Rule.static.not_pathIs (h : r.static) (hv : ValidId tid) : r.pathIs tid = false := by
  have hm := h tid hv
  rw [Bool.eq_false_iff] at hm ⊢
  refine fun hp => hm ?_
  simp only [Rule.pathIs, Rule.mentions, List.any_eq_true, Bool.and_eq_true, List.contains_iff_mem] at hp ⊢
  obtain ⟨c, hc, -, hv⟩ := hp
  exact ⟨c, hc, _, hv, by simp [hasSub]⟩

/-- A rule that mentions the tenant is its own or clashes with it. -/
theorem RulesInOrder.mentioned (h : RulesInOrder rules) (hv : ValidId tid) (hr : r ∈ rules)
    (hm : r.mentions tid = true) : r.ownOf tid ∨ Clash rules tid := by
  rcases h.kinds r hr with ⟨other, ho, hown⟩ | hs
  · by_cases he : other = tid
    · exact .inl (he ▸ hown)
    · exact .inr ⟨r, hr, other, ho, he, hown, (hown.mentions_iff hv ho).1 hm⟩
  · exact absurd hm (by simp [hs tid hv])

theorem RulesInOrder.pathIs_iff (h : RulesInOrder rules) (hv : ValidId tid) (hr : r ∈ rules) :
    r.pathIs tid = true ↔ r.ownOf tid := by
  constructor
  · intro hp
    rcases h.kinds r hr with ⟨other, -, hown⟩ | hs
    · exact (hown.pathIs_iff hv).1 hp ▸ hown
    · exact absurd hp (by simp [hs.not_pathIs hv])
  · exact fun hown => (hown.pathIs_iff hv).2 rfl

theorem Rule.ownOf.pathMentions_self (h : r.ownOf tid) (hv : ValidId tid) : r.pathMentions tid = true :=
  (h.pathMentions_iff hv hv).2 (List.prefix_refl _)

/-! ### What the operations do to the rules -/

theorem RulesInOrder.perm {rules' : List Rule} (h : RulesInOrder rules) (hp : rules'.Perm rules) : RulesInOrder rules' where
  arns := (hp.map Rule.arn).nodup_iff.2 h.arns
  kinds r hr := h.kinds r (hp.mem_iff.1 hr)
  single r hr r' hr' := h.single r (hp.mem_iff.1 hr) r' (hp.mem_iff.1 hr')

/-- A rule is created only when no rule mentions the tenant. -/
theorem RulesInOrder.create (h : RulesInOrder rules) (hv : ValidId tid) (hn : ∀ r ∈ rules, r.mentions tid = false)
    {a p : Nat} {tg : TgArn} (ha : ∀ r ∈ rules, r.arn ≠ a) :
    RulesInOrder (rules ++ [⟨a, some p, [pathPattern tid], [tg]⟩]) where
  arns := by
    rw [List.map_append, List.nodup_append]
    refine ⟨h.arns, by simp, fun x hx y hy => ?_⟩
    obtain ⟨r, hr, rfl⟩ := List.mem_map.1 hx
    obtain rfl : y = a := by simpa using hy
    exact ha r hr
  kinds r hr := by
    rcases List.mem_append.1 hr with hr | hr
    · exact h.kinds r hr
    · obtain rfl := List.mem_singleton.1 hr
      exact .inl ⟨tid, hv, rfl⟩
  single r hr r' hr' id ho ho' := by
    have hnew : ∀ r ∈ rules, r.ownOf id → tid = id → False := by
      rintro r hr hown rfl
      have := Rule.pathMentions_le (hown.pathMentions_self hv)
      simp [hn r hr] at this
    have hself : (⟨a, some p, [pathPattern tid], [tg]⟩ : Rule).ownOf tid := rfl
    rcases List.mem_append.1 hr with hr | hr <;> rcases List.mem_append.1 hr' with hr' | hr'
    · exact h.single r hr r' hr' id ho ho'
    · obtain rfl := List.mem_singleton.1 hr'
      exact (hnew r hr ho (hself.inj ho')).elim
    · obtain rfl := List.mem_singleton.1 hr
      exact (hnew r' hr' ho' (hself.inj ho)).elim
    · exact (List.mem_singleton.1 hr).trans (List.mem_singleton.1 hr').symm

theorem RulesInOrder.modify (h : RulesInOrder rules) (a : RuleArn) (tg : TgArn) :
    RulesInOrder (rules.map fun x => if x.arn = a then { x with actions := [tg] } else x) where
  arns := by
    have hcomp : (Rule.arn ∘ fun x : Rule => if x.arn = a then { x with actions := [tg] } else x) = Rule.arn := by
      funext x
      by_cases hx : x.arn = a <;> simp [hx]
    rw [List.map_map, hcomp]
    exact h.arns
  kinds r hr := by
    obtain ⟨x, hx, rfl⟩ := List.mem_map.1 hr
    have := h.kinds x hx
    by_cases he : x.arn = a
    · rw [if_pos he]
      exact this
    · rw [if_neg he]
      exact this
  single r hr r' hr' id ho ho' := by
    obtain ⟨x, hx, rfl⟩ := List.mem_map.1 hr
    obtain ⟨y, hy, rfl⟩ := List.mem_map.1 hr'
    have hcond : ∀ z : Rule, (if z.arn = a then { z with actions := [tg] } else z).conditions = z.conditions := by
      intro z
      by_cases hz : z.arn = a <;> simp [hz]
    rw [h.single x hx y hy id ((hcond x).symm.trans ho) ((hcond y).symm.trans ho')]

theorem RulesInOrder.delete (h : RulesInOrder rules) (a : RuleArn) : RulesInOrder (rules.filter fun x => x.arn ≠ a) where
  arns := h.arns.sublist (List.filter_sublist.map _)
  kinds r hr := h.kinds r (List.mem_filter.1 hr).1
  single r hr r' hr' := h.single r (List.mem_filter.1 hr).1 r' (List.mem_filter.1 hr').1

end Rules

/-! ## Additions, repoints and removals -/

inductive RuleOp
  /-- `_add_alb_rule`. -/
  | add (tid : PathId) (tg : TgArn)
  /-- `_repoint_alb_rule` of the health check. -/
  | repoint (tid : PathId) (host : HostId) (ip : String)
  /-- `_repoint_alb_rule_to_tg` of the API. -/
  | repointToTg (tid : PathId) (tg : TgArn)
  /-- `_remove_alb_rule`. -/
  | remove (tid : PathId)

def RuleOp.tenant : RuleOp → TenantId
  | .add tid _ | .repoint tid _ _ | .repointToTg tid _ | .remove tid => tid

theorem RuleOp.valid (op : RuleOp) : ValidId op.tenant := by
  cases op <;> exact Subtype.prop _

variable (cfg : Config)

/-- The operation; `false` when it raised. -/
def RuleOp.prog : RuleOp → CtlProg Bool
  | .add tid tg => addAlbRule cfg tid (some tg)
  | .repoint tid host ip => repointAlbRule cfg tid host ip
  | .repointToTg tid tg => repointAlbRuleToTg cfg tid tg
  | .remove tid => removeAlbRule cfg tid

/-- The rules are kept for each tenant: there is a listener, and the mode is not `host-tg`. -/
def Config.perTenant : Bool := cfg.routingMode ≠ .hostTg && cfg.albListenerArn

/-- A call that modifies or deletes a rule does it to the tenant's own. -/
def Call.ownRule (rules : List Rule) (tid : TenantId) : Call → Prop
  | .modifyRule a _ | .deleteRule a => ∃ r ∈ rules, r.arn = a ∧ r.ownOf tid
  | _ => True

/-- What an operation that returned normally achieved for its tenant. -/
def RuleOp.achieved (before : List Rule) (l : CallLog) (after : List Rule) : RuleOp → Prop
  | .add tid _ => HasRule after tid
  | .repoint tid _ _ | .repointToTg tid _ => ∀ r ∈ before, r.ownOf tid → ∃ tg, Saw l (.modifyRule r.arn tg) true
  | .remove tid => ¬ HasRule after tid

/-- The operation touches no rule but its tenant's own, and when it returns normally, it did what it is for. -/
def RuleOp.right (op : RuleOp) (w : World) : Prop :=
  (op.prog cfg).wpt ctl (fun l ok w' => (∀ x ∈ l, x.1.ownRule w.rules op.tenant) ∧
    (ok = true → op.achieved w.rules l w'.rules)) w

/-- When the operation does right. -/
def RuleOp.condition (rules : List Rule) : RuleOp → Prop
  | .add tid _ => HasRule rules tid ∨ cfg.perTenant = true ∧ ¬ Clash rules tid
  | .repoint tid _ _ | .repointToTg tid _ => if cfg.perTenant then ¬ Clash rules tid else ¬ HasRule rules tid
  | .remove tid => cfg.perTenant = true ∨ ¬ HasRule rules tid

section Operations

variable {cfg} {tid : TenantId} {w : World}

/-- The calls modify and delete nothing. -/
def AddsOnly (l : CallLog) : Prop := ∀ x ∈ l, ∀ rules tid, x.1.ownRule rules tid

theorem AddsOnly.nil : AddsOnly [] := fun _ h => absurd h List.not_mem_nil

theorem AddsOnly.cons {x : Answered Ctl} {l : CallLog} (hx : ∀ rules tid, x.1.ownRule rules tid) (h : AddsOnly l) :
    AddsOnly (x :: l) := List.forall_mem_cons.2 ⟨hx, h⟩

theorem AddsOnly.append {l l' : CallLog} (h : AddsOnly l) (h' : AddsOnly l') : AddsOnly (l ++ l') :=
  fun x hx => (List.mem_append.1 hx).elim (h x) (h' x)

/-- One attempt: it is done when some rule mentions the tenant, its own or another's, or when it made one. -/
theorem createRuleAttempt_adds (h : RulesInOrder w.rules) (hv : ValidId tid) (tg : TgArn) :
    (createRuleAttempt cfg tid tg).wpt ctl (fun l r w' => AddsOnly l ∧ RulesInOrder w'.rules ∧
      (r = some true → HasRule w'.rules tid ∨ Clash w.rules tid ∧ w'.rules = w.rules) ∧
      (r = some false → w'.rules = w.rules)) w := by
  have hlog : ∀ {l : CallLog} {r : Call.describeRules.Ans}, AddsOnly l → AddsOnly (⟨Call.describeRules, r⟩ :: l) :=
    fun h => .cons (fun _ _ => trivial) h
  simp only [createRuleAttempt, req_bind, Prog.pure_eq]
  rintro rules w₁ ⟨hp, rfl⟩
  cases rules with
  | none => exact ⟨hlog .nil, h, by simp, by simp⟩
  | some rules =>
    have hp := hp rules rfl
    simp only
    split
    · rename_i hm
      obtain ⟨r, hr, hm⟩ := List.any_eq_true.1 hm
      have hr := hp.mem_iff.1 hr
      refine ⟨hlog .nil, h, fun _ => ?_, by simp⟩
      exact (h.mentioned hv hr hm).imp (fun ho => ⟨r, hr, ho⟩) fun hc => ⟨hc, rfl⟩
    rename_i hm
    have hnone : ∀ r ∈ w₁.rules, r.mentions tid = false := fun r hr =>
      Bool.eq_false_iff.2 fun ht => hm (List.any_eq_true.2 ⟨r, hp.mem_iff.2 hr, ht⟩)
    split
    · exact ⟨hlog .nil, h, by simp, by simp⟩
    rintro p w₂ ⟨-, rfl⟩ ans w₃ hs
    have hlog' : ∀ {ans}, AddsOnly [⟨Call.describeRules, some rules⟩, ⟨.choice (freePriorities cfg rules), p⟩,
        ⟨.createRule p [pathPattern tid] tg, ans⟩] :=
      hlog (.cons (fun _ _ => trivial) (.cons (fun _ _ => trivial) .nil))
    cases ans with
    | created =>
      obtain ⟨-, a, ha, rfl⟩ := hs
      refine ⟨hlog', h.create hv hnone ha, fun _ => .inl ⟨_, List.mem_append_right _ (List.mem_singleton.2 rfl), rfl⟩, ?_⟩
      simp
    | priorityInUse =>
      obtain ⟨-, rfl⟩ := hs
      exact ⟨hlog', h, by simp, fun _ => rfl⟩
    | error =>
      obtain rfl := hs
      exact ⟨hlog', h, by simp, by simp⟩

theorem addRuleLoop_adds (hv : ValidId tid) (tg : TgArn) (n : Nat) (h : RulesInOrder w.rules) :
    (addRuleLoop cfg tid tg n).wpt ctl (fun l ok w' => AddsOnly l ∧ RulesInOrder w'.rules ∧
      (ok = true → HasRule w'.rules tid ∨ Clash w.rules tid ∧ w'.rules = w.rules)) w := by
  induction n generalizing w with
  | zero => exact ⟨.nil, h, by simp⟩
  | succ n ih =>
    refine (Prog.wpt_bind ..).2 (Prog.wpt_mono ?_ (createRuleAttempt_adds h hv tg))
    rintro l r w₁ ⟨hl, h₁, ht, hf⟩
    rcases r with _ | _ | _
    · exact ⟨by simpa using hl, h₁, by simp⟩
    · refine Prog.wpt_mono ?_ (ih h₁)
      rintro l' ok w₂ ⟨hl', h₂, hok⟩
      rw [hf rfl] at hok
      exact ⟨hl.append hl', h₂, hok⟩
    · exact ⟨by simpa using hl, h₁, fun _ => ht rfl⟩

theorem repointLoop_adds (hv : ValidId tid) (tg : TgArn) (n : Nat) (h : RulesInOrder w.rules) :
    (repointLoop cfg tid tg n).wpt ctl (fun l _ w' => AddsOnly l ∧ RulesInOrder w'.rules) w := by
  induction n generalizing w with
  | zero => exact ⟨.nil, h⟩
  | succ n ih =>
    refine (Prog.wpt_bind ..).2 (Prog.wpt_mono ?_ (createRuleAttempt_adds h hv tg))
    rintro l r w₁ ⟨hl, h₁, -, -⟩
    rcases r with _ | _ | _
    · exact ⟨by simpa using hl, h₁⟩
    · refine Prog.wpt_mono ?_ (ih h₁)
      rintro l' ok w₂ ⟨hl', h₂⟩
      exact ⟨hl.append hl', h₂⟩
    · exact ⟨by simpa using hl, h₁⟩

/-- The gate at the head of each operation. -/
theorem routing_gate (p : CtlProg Bool) :
    (if cfg.routingMode = .hostTg then .ret true else if cfg.albListenerArn = false then .ret true else p) =
      if cfg.perTenant then p else .ret true := by
  unfold Config.perTenant
  cases cfg.routingMode <;> cases cfg.albListenerArn <;> rfl

/-- What a repoint finds is the tenant's own rule, unless some other id starts with the tenant's. -/
theorem RulesInOrder.found {rules found : List Rule} {r : Rule} (h : RulesInOrder rules) (hv : ValidId tid)
    (hp : found.Perm rules) (hf : found.find? (fun r => r.pathMentions tid) = some r) :
    r ∈ rules ∧ (¬ Clash rules tid → r.ownOf tid) := by
  have hr := hp.mem_iff.1 (List.mem_of_find?_eq_some hf)
  have hm : r.pathMentions tid = true := by simpa using List.find?_some hf
  exact ⟨hr, fun hc => (h.mentioned hv hr (Rule.pathMentions_le hm)).resolve_right hc⟩

/-- What a repoint finds first is modified. -/
theorem modifyFound_log {rules : List Rule} {r : Rule} {tg : TgArn} {l₀ : CallLog} (h : RulesInOrder w.rules)
    (hv : ValidId tid) (hp : rules.Perm w.rules) (hf : rules.find? (fun r => r.pathMentions tid) = some r)
    (hl : AddsOnly l₀) :
    (req (.modifyRule r.arn tg)).wpt ctl (fun l ok w' => RulesInOrder w'.rules ∧ (¬ Clash w.rules tid →
      (∀ x ∈ l₀ ++ l, x.1.ownRule w.rules tid) ∧ (ok = true → ∀ x ∈ w.rules, x.ownOf tid →
        ∃ tg, Saw (l₀ ++ l) (.modifyRule x.arn tg) true))) w := by
  intro ok w' hs
  obtain ⟨hr, hown⟩ := h.found hv hp hf
  refine ⟨?_, fun hc => ⟨fun x hx => ?_, ?_⟩⟩
  · rcases sent.eq_or hs with rfl | rfl
    · exact h.modify r.arn tg
    · exact h
  · rcases List.mem_append.1 hx with hx | hx
    · exact hl x hx _ _
    · obtain rfl := List.mem_singleton.1 hx
      exact ⟨r, hr, rfl, hown hc⟩
  · rintro rfl x hx ho
    obtain rfl := h.single x hx r hr tid ho (hown hc)
    exact ⟨tg, List.mem_append_right _ (List.mem_singleton.2 rfl)⟩

/-- No rule mentions the tenant: the fallback only adds. -/
theorem fallback_log {rules : List Rule} {q : CtlProg Bool} {l₀ : CallLog} (hv : ValidId tid)
    (hp : rules.Perm w.rules) (hf : rules.find? (fun r => r.pathMentions tid) = none) (hl : AddsOnly l₀)
    (hq : q.wpt ctl (fun l _ w' => AddsOnly l ∧ RulesInOrder w'.rules) w) :
    q.wpt ctl (fun l ok w' => RulesInOrder w'.rules ∧ (¬ Clash w.rules tid →
      (∀ x ∈ l₀ ++ l, x.1.ownRule w.rules tid) ∧ (ok = true → ∀ x ∈ w.rules, x.ownOf tid →
        ∃ tg, Saw (l₀ ++ l) (.modifyRule x.arn tg) true))) w := by
  refine Prog.wpt_mono ?_ hq
  rintro l ok w' ⟨hl', h'⟩
  refine ⟨h', fun _ => ⟨fun x hx => hl.append hl' x hx _ _, fun _ x hx ho => ?_⟩⟩
  have hm := List.find?_eq_none.1 hf x (hp.mem_iff.2 hx)
  exact absurd (ho.pathMentions_self hv) hm

theorem targetTg_adds (host : HostId) :
    (targetTg host).wpt ctl (fun l _ w' => AddsOnly l ∧ w'.rules = w.rules) w := by
  simp only [targetTg, req_bind, Prog.pure_eq]
  rintro found w₁ ⟨-, rfl⟩
  cases found with
  | some a => exact ⟨.cons (fun _ _ => trivial) .nil, rfl⟩
  | none =>
    rintro made w₂ hs
    refine ⟨.cons (fun _ _ => trivial) (.cons (fun _ _ => trivial) .nil), ?_⟩
    cases made with
    | none => exact congrArg World.rules hs
    | some a =>
      rw [hs.2]
      rfl

theorem repointAlbRule_log (h : RulesInOrder w.rules) (hv : ValidId tid) (hmode : cfg.perTenant = true) (host : HostId)
    (ip : String) :
    (repointAlbRule cfg tid host ip).wpt ctl (fun l ok w' => RulesInOrder w'.rules ∧ (¬ Clash w.rules tid →
      (∀ x ∈ l, x.1.ownRule w.rules tid) ∧ (ok = true → ∀ x ∈ w.rules, x.ownOf tid →
        ∃ tg, Saw l (.modifyRule x.arn tg) true))) w := by
  simp only [repointAlbRule, req_bind, Prog.pure_eq, routing_gate, hmode, if_true]
  refine (Prog.wpt_bind ..).2 (Prog.wpt_mono ?_ (targetTg_adds host))
  rintro l₁ tg w₁ ⟨hl₁, hw₁⟩
  cases tg with
  | none => exact ⟨hw₁ ▸ h, fun _ => ⟨fun x hx => hl₁.append .nil x hx _ _, by simp⟩⟩
  | some tg =>
    rintro reg w₂ hs₂
    have hw₂ : w₂.rules = w.rules := by
      rw [← hw₁]
      rcases sent.eq_or hs₂ with rfl | rfl <;> rfl
    rintro rules w₃ ⟨hp, rfl⟩
    have hl₃ : AddsOnly (l₁ ++ [⟨Call.registerTargets tg ip, reg⟩, ⟨Call.describeRules, rules⟩]) :=
      hl₁.append (.cons (fun _ _ => trivial) (.cons (fun _ _ => trivial) .nil))
    cases rules with
    | none => exact ⟨hw₂ ▸ h, fun _ => ⟨fun x hx => hl₃ x hx _ _, by simp⟩⟩
    | some rules =>
      simp only
      have h₃ : RulesInOrder w₃.rules := hw₂ ▸ h
      have hp := hp rules rfl
      cases hf : rules.find? fun r => r.pathMentions tid with
      | some r =>
        refine Prog.wpt_mono ?_ (modifyFound_log h₃ hv hp hf hl₃)
        rintro l ok w' hQ
        simpa [hw₂] using hQ
      | none =>
        refine Prog.wpt_mono ?_ (fallback_log hv hp hf hl₃ (repointLoop_adds hv tg 6 h₃))
        rintro l ok w' hQ
        simpa [hw₂] using hQ

theorem addAlbRule_adds (h : RulesInOrder w.rules) (hv : ValidId tid) (hmode : cfg.perTenant = true) (tg : TgArn) :
    (addAlbRule cfg tid (some tg)).wpt ctl (fun l ok w' => AddsOnly l ∧ RulesInOrder w'.rules ∧
      (ok = true → HasRule w'.rules tid ∨ Clash w.rules tid ∧ w'.rules = w.rules)) w := by
  simp only [addAlbRule, Prog.pure_eq, routing_gate, hmode, if_true]
  exact addRuleLoop_adds hv tg 6 h

theorem repointAlbRuleToTg_log (h : RulesInOrder w.rules) (hv : ValidId tid) (hmode : cfg.perTenant = true)
    (tg : TgArn) :
    (repointAlbRuleToTg cfg tid tg).wpt ctl (fun l ok w' => RulesInOrder w'.rules ∧ (¬ Clash w.rules tid →
      (∀ x ∈ l, x.1.ownRule w.rules tid) ∧ (ok = true → ∀ x ∈ w.rules, x.ownOf tid →
        ∃ tg, Saw l (.modifyRule x.arn tg) true))) w := by
  simp only [repointAlbRuleToTg, req_bind, Prog.pure_eq, routing_gate, hmode, if_true]
  rintro rules w₁ ⟨hp, rfl⟩
  have hl : AddsOnly [⟨Call.describeRules, rules⟩] := .cons (fun _ _ => trivial) .nil
  cases rules with
  | none => exact ⟨h, fun _ => ⟨fun x hx => hl x hx _ _, by simp⟩⟩
  | some rules =>
    simp only
    have hp := hp rules rfl
    cases hf : rules.find? fun r => r.pathMentions tid with
    | some r => exact modifyFound_log h hv hp hf hl
    | none =>
      refine fallback_log hv hp hf hl (Prog.wpt_mono ?_ (addAlbRule_adds h hv hmode tg))
      exact fun l ok w' hQ => ⟨hQ.1, hQ.2.1⟩

/-- A removal finds exactly the tenant's own rule, whatever the other ids are. -/
theorem removeAlbRule_log (h : RulesInOrder w.rules) (hv : ValidId tid) (hmode : cfg.perTenant = true) :
    (removeAlbRule cfg tid).wpt ctl (fun l ok w' => RulesInOrder w'.rules ∧ (∀ x ∈ l, x.1.ownRule w.rules tid) ∧
      (ok = true → ¬ HasRule w'.rules tid)) w := by
  simp only [removeAlbRule, req_bind, Prog.pure_eq, routing_gate, hmode, if_true]
  rintro rules w₁ ⟨hp, rfl⟩
  have hl : AddsOnly [⟨Call.describeRules, rules⟩] := .cons (fun _ _ => trivial) .nil
  cases rules with
  | none => exact ⟨h, fun x hx => hl x hx _ _, by simp⟩
  | some rules =>
    simp only
    have hp := hp rules rfl
    cases hf : rules.find? fun r => r.pathIs tid with
    | none =>
      refine ⟨h, fun x hx => hl x hx _ _, fun _ => ?_⟩
      rintro ⟨x, hx, ho⟩
      exact List.find?_eq_none.1 hf x (hp.mem_iff.2 hx) ((h.pathIs_iff hv hx).2 ho)
    | some r =>
      have hr := hp.mem_iff.1 (List.mem_of_find?_eq_some hf)
      have hown : r.ownOf tid := (h.pathIs_iff hv hr).1 (by simpa using List.find?_some hf)
      intro ok w' hs
      refine ⟨?_, fun x hx => ?_, ?_⟩
      · rcases sent.eq_or hs with rfl | rfl
        · exact h.delete r.arn
        · exact h
      · rcases List.mem_cons.1 hx with rfl | hx
        · trivial
        · obtain rfl := List.mem_singleton.1 hx
          exact ⟨r, hr, rfl, hown⟩
      · rintro rfl ⟨x, hx, ho⟩
        obtain rfl : w' = w₁.setRules (w₁.rules.filter fun x => x.arn ≠ r.arn) := hs
        obtain ⟨hx, hne⟩ := List.mem_filter.1 hx
        obtain rfl := h.single x hx r hr tid ho hown
        simp at hne

/-- Without rules for each tenant the operations do nothing. -/
theorem RuleOp.prog_idle (hmode : cfg.perTenant = false) (op : RuleOp) : op.prog cfg = .ret true := by
  have hgate : ∀ p : CtlProg Bool, (if cfg.routingMode = .hostTg then .ret true
      else if cfg.albListenerArn = false then .ret true else p) = .ret true := by
    intro p
    rw [routing_gate, hmode]
    rfl
  cases op with
  | add tid tg => exact hgate _
  | repoint tid host ip => exact hgate _
  | repointToTg tid tg => exact hgate _
  | remove tid => exact hgate _

variable (cfg) in
/-- **One step.** Every operation keeps the rules in order, whether it did right or not. -/
theorem RuleOp.keeps_order (op : RuleOp) (h : RulesInOrder w.rules) :
    (op.prog cfg).wp ctl (fun _ w' => RulesInOrder w'.rules) w := by
  rw [← Prog.wpt_iff_wp]
  by_cases hmode : cfg.perTenant = true
  · cases op with
    | add tid tg => exact Prog.wpt_mono (fun _ _ _ hQ => hQ.2.1) (addAlbRule_adds h tid.2 hmode tg)
    | repoint tid host ip => exact Prog.wpt_mono (fun _ _ _ hQ => hQ.1) (repointAlbRule_log h tid.2 hmode host ip)
    | repointToTg tid tg => exact Prog.wpt_mono (fun _ _ _ hQ => hQ.1) (repointAlbRuleToTg_log h tid.2 hmode tg)
    | remove tid => exact Prog.wpt_mono (fun _ _ _ hQ => hQ.1) (removeAlbRule_log h tid.2 hmode)
  · rw [op.prog_idle (Bool.eq_false_iff.2 hmode)]
    exact h

end Operations

/-! ## Exactly when an operation does right -/

section Exact

variable {cfg} {tid : TenantId} {w : World}

theorem RuleOp.right_of_condition (op : RuleOp) (h : RulesInOrder w.rules) (hc : op.condition cfg w.rules) :
    op.right cfg w := by
  unfold RuleOp.right
  by_cases hmode : cfg.perTenant = true
  · cases op with
    | add tid tg =>
      refine Prog.wpt_mono ?_ (addAlbRule_adds h tid.2 hmode tg)
      rintro l ok w' ⟨hl, -, hok⟩
      refine ⟨fun x hx => hl x hx _ _, fun ht => ?_⟩
      rcases hok ht with hown | ⟨hclash, he⟩
      · exact hown
      · show HasRule w'.rules tid
        rw [he]
        exact hc.resolve_right fun hn => hn.2 hclash
    | repoint tid host ip =>
      simp only [RuleOp.condition, hmode, if_true] at hc
      exact Prog.wpt_mono (fun _ _ _ hQ => hQ.2 hc) (repointAlbRule_log h tid.2 hmode host ip)
    | repointToTg tid tg =>
      simp only [RuleOp.condition, hmode, if_true] at hc
      exact Prog.wpt_mono (fun _ _ _ hQ => hQ.2 hc) (repointAlbRuleToTg_log h tid.2 hmode tg)
    | remove tid => exact Prog.wpt_mono (fun _ _ _ hQ => hQ.2) (removeAlbRule_log h tid.2 hmode)
  · rw [op.prog_idle (Bool.eq_false_iff.2 hmode)]
    refine ⟨fun x hx => absurd hx List.not_mem_nil, fun _ => ?_⟩
    cases op with
    | add tid tg => exact hc.resolve_right fun hn => hmode hn.1
    | repoint tid host ip =>
      simp only [RuleOp.condition, hmode] at hc
      exact fun r hr ho => absurd ⟨r, hr, ho⟩ hc
    | repointToTg tid tg =>
      simp only [RuleOp.condition, hmode] at hc
      exact fun r hr ho => absurd ⟨r, hr, ho⟩ hc
    | remove tid => exact hc.resolve_left hmode

/-- The load balancer may list the clashing rule first, and then it is the one that is found. -/
theorem Clash.found_first {rules : List Rule} (hc : Clash rules tid) (hv : ValidId tid) (h : RulesInOrder rules) :
    ∃ (found : List Rule) (r : Rule), found.Perm rules ∧ found.find? (fun r => r.pathMentions tid) = some r ∧
      ∀ tg, ¬ (Call.modifyRule r.arn tg).ownRule rules tid := by
  obtain ⟨r, hr, other, ho, hne, hown, hpre⟩ := hc
  refine ⟨r :: rules.erase r, r, (List.perm_cons_erase hr).symm, ?_, ?_⟩
  · exact List.find?_cons_of_pos ((hown.pathMentions_iff hv ho).2 hpre)
  · rintro tg ⟨r', hr', harn, hown'⟩
    obtain rfl := List.inj_on_of_nodup_map h.arns hr' hr harn
    exact hne (hown.inj hown')

/-- The load balancer may answer so that there is a target group for the host. -/
theorem targetTg_reaches (host : HostId) :
    ∃ l tg w', (targetTg host).Traces ctl w l (some tg) w' ∧ w'.rules = w.rules := by
  by_cases hg : ∃ g ∈ w.tgs, g.name = hostTgName host
  · obtain ⟨g, hg, hn⟩ := hg
    have hs : World.step (.describeTg (hostTgName host)) (some g.arn) w w :=
      ⟨fun a ha => ⟨g, hg, hn, Option.some.inj ha⟩, rfl⟩
    exact ⟨_, g.arn, w, .call hs (.ret _ _), rfl⟩
  · obtain ⟨a, ha⟩ := (w.tgs.map TargetGroup.arn).toFinset.finite_toSet.exists_notMem
    have hs : World.step (.describeTg (hostTgName host)) none w w := ⟨by simp, rfl⟩
    have hs' : ctl.step (.createTg (hostTgName host)) (some a : Call.Ans (.createTg (hostTgName host))) w
        (w.setTgs (withTg w.tgs (hostTgName host) a)) := by
      refine ⟨.inr fun g hm => ⟨fun hn => hg ⟨g, hm, hn⟩, fun he => ha ?_⟩, rfl⟩
      simpa using ⟨g, hm, he⟩
    exact ⟨_, a, _, .call hs (.call hs' (.ret _ _)), rfl⟩

theorem repoint_wrong (h : RulesInOrder w.rules) (hmode : cfg.perTenant = true) {tid : PathId} {host : HostId}
    {ip : String} (hr : (RuleOp.repoint tid host ip).right cfg w) : ¬ Clash w.rules tid := by
  intro hc
  obtain ⟨found, r, hp, hf, hno⟩ := hc.found_first tid.2 h
  unfold RuleOp.right at hr
  simp only [RuleOp.prog, repointAlbRule, req_bind, Prog.pure_eq, routing_gate, hmode, if_true] at hr
  obtain ⟨l, tg, w₁, ht, hw₁⟩ := @targetTg_reaches w host
  have hr := Prog.wpt_iff_traces.1 ((Prog.wpt_bind ..).1 hr) _ _ _ ht
  have hrules : ∀ rs, some found = some rs → rs.Perm w₁.rules := by
    rintro rs ⟨⟩
    exact hw₁ ▸ hp
  have hr := hr false w₁ rfl (some found) w₁ ⟨hrules, rfl⟩
  simp only [hf] at hr
  have hcall := (hr false w₁ rfl).1 ⟨.modifyRule r.arn tg, false⟩ (by simp)
  exact hno tg hcall

theorem repointToTg_wrong (h : RulesInOrder w.rules) (hmode : cfg.perTenant = true) {tid : PathId} {tg : TgArn}
    (hr : (RuleOp.repointToTg tid tg).right cfg w) : ¬ Clash w.rules tid := by
  intro hc
  obtain ⟨found, r, hp, hf, hno⟩ := hc.found_first tid.2 h
  unfold RuleOp.right at hr
  simp only [RuleOp.prog, repointAlbRuleToTg, req_bind, Prog.pure_eq, routing_gate, hmode, if_true] at hr
  have hrules : ∀ rs, some found = some rs → rs.Perm w.rules := by
    rintro rs ⟨⟩
    exact hp
  have hr := hr (some found) w ⟨hrules, rfl⟩
  simp only [hf] at hr
  have hcall := (hr false w rfl).1 ⟨.modifyRule r.arn tg, false⟩ (by simp)
  exact hno tg hcall

/-- An addition takes another tenant's rule for its own. -/
theorem add_wrong (hmode : cfg.perTenant = true) {tid : PathId} {tg : TgArn}
    (hr : (RuleOp.add tid tg).right cfg w) (hc : Clash w.rules tid) : HasRule w.rules tid := by
  unfold RuleOp.right at hr
  simp only [RuleOp.prog, addAlbRule, Prog.pure_eq, routing_gate, hmode, if_true] at hr
  obtain ⟨r, hm, other, ho, -, hown, hpre⟩ := hc
  have hany : (w.rules.any fun r => r.mentions tid) = true :=
    List.any_eq_true.2 ⟨r, hm, (hown.mentions_iff tid.2 ho).2 hpre⟩
  have hr := (Prog.wpt_bind ..).1 hr
  simp only [createRuleAttempt, req_bind, Prog.pure_eq] at hr
  have hrules : ∀ rs, some w.rules = some rs → rs.Perm w.rules := by
    rintro rs ⟨⟩
    exact .refl _
  have hr := hr (some w.rules) w ⟨hrules, rfl⟩
  simp only [hany, if_true] at hr
  exact hr.2 rfl

theorem RuleOp.condition_of_right (op : RuleOp) (h : RulesInOrder w.rules) (hr : op.right cfg w) :
    op.condition cfg w.rules := by
  by_cases hmode : cfg.perTenant = true
  · cases op with
    | add tid tg =>
      by_cases hc : Clash w.rules tid
      · exact .inl (add_wrong hmode hr hc)
      · exact .inr ⟨hmode, hc⟩
    | repoint tid host ip =>
      simp only [RuleOp.condition, hmode, if_true]
      exact repoint_wrong h hmode hr
    | repointToTg tid tg =>
      simp only [RuleOp.condition, hmode, if_true]
      exact repointToTg_wrong h hmode hr
    | remove tid => exact .inl hmode
  · unfold RuleOp.right at hr
    rw [op.prog_idle (Bool.eq_false_iff.2 hmode)] at hr
    have hr := hr.2 rfl
    cases op with
    | add tid tg => exact .inl hr
    | repoint tid host ip =>
      simp only [RuleOp.condition, hmode]
      rintro ⟨r, hm, ho⟩
      obtain ⟨tg, hs⟩ := hr r hm ho
      exact List.not_mem_nil hs
    | repointToTg tid tg =>
      simp only [RuleOp.condition, hmode]
      rintro ⟨r, hm, ho⟩
      obtain ⟨tg, hs⟩ := hr r hm ho
      exact List.not_mem_nil hs
    | remove tid => exact .inr hr

end Exact

instance (rules : List Rule) (tid : TenantId) : Decidable (HasRule rules tid) :=
  inferInstanceAs (Decidable (∃ r ∈ rules, r.conditions = [pathPattern tid]))

/-- The rules that additions, repoints and removals lead to, one after the other. -/
abbrev RuleRounds (w₀ w : World) : Prop := Rounds ctl (RuleOp.prog cfg) (fun _ _ _ _ _ => True) w₀ w

/-- **The order is never lost.** -/
theorem RuleRounds.order {cfg : Config} {w₀ w : World} (h₀ : RulesInOrder w₀.rules) (hr : RuleRounds cfg w₀ w) :
    RulesInOrder w.rules :=
  @Rounds.inv _ _ _ _ _ _ _ _ _ (fun w => RulesInOrder w.rules) h₀ (fun _ op h => Sem.wp_restrict (op.keeps_order cfg h)) hr

/-- **Rule identity.** After any sequence of operations the next one does right exactly under its condition. -/
theorem rule_identity {w₀ w : World} (h₀ : RulesInOrder w₀.rules) (hr : RuleRounds cfg w₀ w) (op : RuleOp) :
    op.right cfg w ↔ op.condition cfg w.rules :=
  ⟨op.condition_of_right (hr.order h₀), op.right_of_condition (hr.order h₀)⟩

/-- The id of a tenant named `a`. -/
def shortId : PathId := ⟨"a-0000", "a", "0000", by decide, by decide, by simp, by decide⟩

/-- The id of a tenant named `a-0000`. -/
def longId : PathId := ⟨"a-0000-1234", "a-0000", "1234", by decide, by decide, by simp, by decide⟩

/-- A listener without rules. -/
theorem noRules_inOrder : RulesInOrder twoHosts.rules where
  arns := List.nodup_nil
  kinds _ h := absurd h List.not_mem_nil
  single _ h := absurd h List.not_mem_nil

/-- A rule is added, moved to another host and removed; then the next addition does right. -/
theorem rule_identity_once : ∃ w, RuleRounds {} twoHosts w ∧ (RuleOp.add longId 0).right {} w := by
  have hrun : ((ctlOracle.rounds (RuleOp.prog {}) (fun _ _ _ _ _ => true) [(.add shortId 0, List.replicate 3 {}),
      (.repoint shortId "i-2" "10.0.0.1", List.replicate 5 {}), (.remove shortId, List.replicate 2 {})] twoHosts).any
        fun w => decide (w.rules = [])) = true := by
    decide +kernel
  obtain ⟨w, hw, hrules⟩ := Oracle.exists_rounds (fun _ _ _ _ _ _ => trivial) hrun
  have hfree : ¬ Clash w.rules longId := by
    rintro ⟨r, hr, -⟩
    rw [of_decide_eq_true hrules] at hr
    cases hr
  exact ⟨w, hw, (rule_identity {} noRules_inOrder hw (.add longId 0)).2 (.inr ⟨rfl, hfree⟩)⟩

/-- With the rule of `a-0000-1234` in place, adding one for `a-0000` returns normally and adds nothing. -/
theorem prefix_id_gets_no_rule : ∃ w w', RuleRounds {} twoHosts w ∧
    ((RuleOp.add shortId 0).prog {}).Runs ctl w true w' ∧ ¬ HasRule w'.rules shortId := by
  have hrun : ((ctlOracle.rounds (RuleOp.prog {}) (fun _ _ _ _ _ => true) [(.add longId 0, List.replicate 3 {})]
      twoHosts).any fun w => (ctlOracle.alone (fun _ _ _ => true) ((RuleOp.add shortId 0).prog {}) [{}] w).any
        fun x => x.2.1 && !decide (HasRule x.2.2.rules shortId)) = true := by
    decide +kernel
  obtain ⟨w, hw, hx⟩ := Oracle.exists_rounds (fun _ _ _ _ _ _ => trivial) hrun
  obtain ⟨⟨l, ok, w'⟩, hrun, hx⟩ := (Option.any_eq_true _ _).1 hx
  simp only [Bool.and_eq_true, Bool.not_eq_true', decide_eq_false_iff_not] at hx
  obtain ⟨rfl, hno⟩ := hx
  have htrace := @Oracle.alone_sound _ _ _ _ _ _ _ (fun _ _ _ => True) (fun _ _ _ _ => trivial) _ _ _ _ _ _ hrun
  exact ⟨w, w', hw, Sem.runs_of_restrict htrace.runs, hno⟩

end OpenClaw
