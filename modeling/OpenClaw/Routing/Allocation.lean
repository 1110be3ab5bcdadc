import OpenClaw.Control.Execute
import OpenClaw.Control.RoutingAdmin
import OpenClaw.Lib.Amid
import OpenClaw.Routing.Identity

/-!
# Priorities under contention

Every attempt of `_add_alb_rule` reads the live rules, chooses one of the priorities they leave free and tries to
create the tenant's rule there, while other processes create and delete rules.

- `addAlbRuleWith`: `_add_alb_rule` with its optional arguments.
- `rule_allocation`: what a call has created, at any moment of any interleaved run, and what it has seen or created when
  it ends.
-/

namespace OpenClaw

open Keyed Atomic

variable (cfg : Config)

/-- `_add_alb_rule(tenant_id, tg_arn, max_attempts, force)`. -/
def addAlbRuleWith (maxAttempts : Nat) (force : Bool) (tid : TenantId) (tg : TgArn) : CtlProg Bool :=
  if cfg.routingMode = .hostTg ∧ force = false then pure true
  else if cfg.albListenerArn = false then pure true
  else addRuleLoop cfg tid tg maxAttempts

/-- The tenant's creation calls it with the defaults. -/
theorem addAlbRule_default (tid : TenantId) (tg : TgArn) :
    addAlbRule cfg tid (some tg) = addAlbRuleWith cfg 6 false tid tg := by
  simp [addAlbRule, addAlbRuleWith]

/-- The rebuild of the routing calls it with `force`. -/
theorem addAlbRule_forced (tid : TenantId) (tg : TgArn) :
    addAlbRule cfg.forced tid (some tg) = addAlbRuleWith cfg 6 true tid tg := by
  have hattempt : createRuleAttempt cfg.forced tid tg = createRuleAttempt cfg tid tg := by
    have hfree : freePriorities cfg.forced = freePriorities cfg := rfl
    simp only [createRuleAttempt, hfree, req_bind]
    congr 1
    funext rules
    cases rules with
    | none => rfl
    | some rules =>
      simp only
      congr 3
      funext p
      congr 1
      funext r
      cases r <;> rfl
  have hloop : ∀ n, addRuleLoop cfg.forced tid tg n = addRuleLoop cfg tid tg n := by
    intro n
    induction n with
    | zero => rfl
    | succ n ih => simp only [addRuleLoop, ih, hattempt]
  simp [addAlbRule, addAlbRuleWith, hloop]
  rfl

/-! ## What a call did -/

/-- The calls of a process to the load balancer, with the world of each. -/
abbrev RuleRecord := List (Seen Ctl World)

/-- A try to create a rule. -/
def tryOf (x : Seen Ctl World) : Bool :=
  match x with
  | ⟨.createRule _ _ _, _, _⟩ => true
  | _ => false

/-- A rule was created. -/
def madeBy (x : Seen Ctl World) : Bool :=
  match x with
  | ⟨.createRule _ _ _, .created, _⟩ => true
  | _ => false

/-- The call reads, chooses, or tries to create the tenant's rule in the window; what is created had a free priority. -/
def Allocates (tid : TenantId) (tg : TgArn) (x : Seen Ctl World) : Prop :=
  match x with
  | ⟨.describeRules, _, _⟩ | ⟨.choice _, _, _⟩ => True
  | ⟨.createRule p conds t, r, w⟩ => conds = [pathPattern tid] ∧ t = tg ∧
      cfg.perTenantPriorityMin ≤ p ∧ p ≤ cfg.perTenantPriorityMax ∧ (r = .created → ∀ y ∈ w.rules, y.priority ≠ some p)
  | _ => False

/-- A read showed the rule, which existed then. -/
def Showed (g : RuleRecord) (y : Rule) : Prop :=
  ∃ rules w, (⟨.describeRules, some rules, w⟩ : Seen Ctl World) ∈ g ∧ y ∈ rules ∧ y ∈ w.rules

/-- A call of `_add_alb_rule` that has come as far as `left`. -/
structure RuleAllocation (maxAttempts : Nat) (force : Bool) (tid : TenantId) (tg : TgArn) (g : RuleRecord)
    (left : CtlProg Bool) : Prop where
  /-- It changes or deletes no rule, and creates only its tenant's, at a free priority of the window. -/
  only : ∀ x ∈ g, Allocates cfg tid tg x
  once : (g.filter madeBy).length ≤ 1
  attempts : (g.filter tryOf).length ≤ maxAttempts
  /-- Having returned with routing on, it created its rule or saw one that names its tenant's path, which is not the
  rule of another tenant unless that one's path contains it. -/
  settled : left = .ret true → cfg.routingMode ≠ .hostTg ∨ force = true → cfg.albListenerArn = true →
    (∃ x ∈ g, madeBy x = true) ∨ ∃ y, Showed g y ∧ y.mentions tid = true ∧
      ∀ other, ValidId tid → ValidId other → hasSub ("/vm/" ++ tid) ("/vm/" ++ other) = false → ¬ y.ownOf other
  raised : left = .ret false → ∀ x ∈ g, madeBy x = false

section Attempts

variable {cfg} {tid : TenantId} {tg : TgArn} {g : RuleRecord} {I : World → Prop}

theorem Showed.append_right {g : RuleRecord} {y : Rule} (h : Showed g y) (g' : RuleRecord) : Showed (g' ++ g) y := by
  obtain ⟨rules, w, hmem, hy, hw⟩ := h
  exact ⟨rules, w, List.mem_append_right _ hmem, hy, hw⟩

theorem tryOf_of_madeBy {x : Seen Ctl World} (h : madeBy x = true) : tryOf x = true := by
  unfold madeBy at h
  split at h
  · rfl
  · cases h

/-- A choice from the free priorities lies in the window. -/
theorem mem_freePriorities {rules : List Rule} {p : Nat} (h : p ∈ freePriorities cfg rules) :
    cfg.perTenantPriorityMin ≤ p ∧ p ≤ cfg.perTenantPriorityMax := by
  have hp := (List.mem_filter.1 h).1
  rw [List.mem_range'_1] at hp
  omega

/-- One attempt that has come as far as `left`. -/
structure AttemptPart (cfg : Config) (tid : TenantId) (tg : TgArn) (g : RuleRecord) (left : CtlProg (Option Bool)) :
    Prop where
  only : ∀ x ∈ g, Allocates cfg tid tg x
  tries : (g.filter tryOf).length ≤ 1
  /-- With a rule created it is over. -/
  made : (∃ x ∈ g, madeBy x = true) → left = .ret (some true)
  done : left = .ret (some true) → (∃ x ∈ g, madeBy x = true) ∨ ∃ y, Showed g y ∧ y.mentions tid = true

theorem createRuleAttempt_part {q : CtlProg (Option Bool)} (h : Partway ctl I (createRuleAttempt cfg tid tg) g q) :
    AttemptPart cfg tid tg g q := by
  simp only [createRuleAttempt, req_bind, Prog.pure_eq] at h
  rcases h.call_inv with ⟨rfl, rfl⟩ | ⟨rules, w, w', g, -, hs, rfl, h₁⟩
  · exact ⟨by simp, by simp, by simp, by simp⟩
  have hread : Allocates cfg tid tg ⟨.describeRules, rules, w⟩ := trivial
  cases rules with
  | none =>
    obtain ⟨rfl, rfl⟩ := h₁.ret_inv
    exact ⟨by simpa using hread, by simp [tryOf], by simp [madeBy], by simp⟩
  | some rules =>
    simp only at h₁
    split at h₁
    · rename_i hm
      obtain ⟨rfl, rfl⟩ := h₁.ret_inv
      obtain ⟨y, hy, hm⟩ := List.any_eq_true.1 hm
      have hshow : Showed [⟨.describeRules, some rules, w⟩] y :=
        ⟨rules, w, List.mem_singleton.2 rfl, hy, (hs.1 rules rfl).mem_iff.1 hy⟩
      exact ⟨by simpa using hread, by simp [tryOf], by simp [madeBy], fun _ => .inr ⟨y, hshow, hm⟩⟩
    split at h₁
    · obtain ⟨rfl, rfl⟩ := h₁.ret_inv
      exact ⟨by simpa using hread, by simp [tryOf], by simp [madeBy], by simp⟩
    rcases h₁.call_inv with ⟨rfl, rfl⟩ | ⟨p, w₁, w₁', g, -, hs₁, rfl, h₂⟩
    · exact ⟨by simpa using hread, by simp [tryOf], by simp [madeBy], by simp⟩
    have hchoice : Allocates cfg tid tg ⟨.choice (freePriorities cfg rules), p, w₁⟩ := trivial
    rcases h₂.call_inv with ⟨rfl, rfl⟩ | ⟨r, w₂, w₂', g, -, hs₂, rfl, h₃⟩
    · exact ⟨by simp [hread, hchoice], by simp [tryOf], by simp [madeBy], by simp⟩
    obtain ⟨hmin, hmax⟩ := mem_freePriorities hs₁.1
    have hcreate : Allocates cfg tid tg ⟨.createRule p [pathPattern tid] tg, r, w₂⟩ := by
      refine ⟨rfl, rfl, hmin, hmax, fun hr => ?_⟩
      subst hr
      exact hs₂.1
    cases r with
    | created =>
      obtain ⟨rfl, rfl⟩ := h₃.ret_inv
      exact ⟨by simp [hread, hchoice, hcreate], Nat.le_refl 1, fun _ => rfl,
        fun _ => .inl ⟨_, List.mem_cons_of_mem _ (List.mem_cons_of_mem _ List.mem_cons_self), rfl⟩⟩
    | priorityInUse =>
      obtain ⟨rfl, rfl⟩ := h₃.ret_inv
      exact ⟨by simp [hread, hchoice, hcreate], Nat.le_refl 1, by simp [madeBy], by simp⟩
    | error =>
      obtain ⟨rfl, rfl⟩ := h₃.ret_inv
      exact ⟨by simp [hread, hchoice, hcreate], Nat.le_refl 1, by simp [madeBy], by simp⟩

/-- What the loop has done, with any number of attempts to go. -/
structure LoopPart (cfg : Config) (tid : TenantId) (tg : TgArn) (n : Nat) (g : RuleRecord) (left : CtlProg Bool) :
    Prop where
  only : ∀ x ∈ g, Allocates cfg tid tg x
  once : (g.filter madeBy).length ≤ 1
  tries : (g.filter tryOf).length ≤ n
  made : (∃ x ∈ g, madeBy x = true) → left = .ret true
  done : left = .ret true → (∃ x ∈ g, madeBy x = true) ∨ ∃ y, Showed g y ∧ y.mentions tid = true

/-- As many rules as tries at most. -/
theorem made_le_tries (g : RuleRecord) : (g.filter madeBy).length ≤ (g.filter tryOf).length := by
  refine List.Sublist.length_le (List.monotone_filter_right g ?_)
  intro x hx
  exact tryOf_of_madeBy hx

theorem AttemptPart.once {q : CtlProg (Option Bool)} (h : AttemptPart cfg tid tg g q) : (g.filter madeBy).length ≤ 1 :=
  (made_le_tries g).trans h.tries

theorem nothing_made (h : ¬ ∃ x ∈ g, madeBy x = true) : g.filter madeBy = [] := by
  rw [List.filter_eq_nil_iff]
  intro x hx hm
  exact h ⟨x, hx, hm⟩

/-- **The loop**: an attempt that is followed by another created nothing. -/
theorem addRuleLoop_part {n : Nat} {q : CtlProg Bool} (h : Partway ctl I (addRuleLoop cfg tid tg n) g q) :
    LoopPart cfg tid tg n g q := by
  induction n generalizing g with
  | zero =>
    obtain ⟨rfl, rfl⟩ := h.ret_inv
    exact ⟨by simp, by simp, by simp, by simp, by simp⟩
  | succ n ih =>
    rw [addRuleLoop] at h
    rcases h.bind_inv with ⟨c, k, hpart, rfl⟩ | ⟨r, g₁, g₂, hpart, rfl, hrest⟩
    · have hatt := createRuleAttempt_part hpart
      refine ⟨hatt.only, hatt.once, hatt.tries.trans (by omega), fun hm => ?_, fun hq => ?_⟩
      · cases hatt.made hm
      · cases hq
    have hatt := createRuleAttempt_part hpart
    rcases r with _ | _ | _
    · obtain ⟨rfl, rfl⟩ := hrest.ret_inv
      rw [List.append_nil]
      refine ⟨hatt.only, hatt.once, hatt.tries.trans (by omega), fun hm => ?_, fun hq => ?_⟩
      · cases hatt.made hm
      · cases hq
    · -- The priority was taken: what comes next is the rest of the loop.
      have hloop := ih hrest
      have hnone : ¬ ∃ x ∈ g₁, madeBy x = true := by
        intro hm
        cases hatt.made hm
      refine ⟨?_, ?_, ?_, ?_, ?_⟩
      · intro x hx
        exact (List.mem_append.1 hx).elim (hatt.only x) (hloop.only x)
      · rw [List.filter_append, nothing_made hnone]
        exact hloop.once
      · rw [List.filter_append, List.length_append]
        have h₁ := hatt.tries
        have h₂ := hloop.tries
        omega
      · intro hm
        obtain ⟨x, hx, hmade⟩ := hm
        rcases List.mem_append.1 hx with hx | hx
        · exact absurd ⟨x, hx, hmade⟩ hnone
        · exact hloop.made ⟨x, hx, hmade⟩
      · intro hq
        rcases hloop.done hq with ⟨x, hx, hmade⟩ | ⟨y, hshow, hm⟩
        · exact .inl ⟨x, List.mem_append_right _ hx, hmade⟩
        · exact .inr ⟨y, hshow.append_right g₁, hm⟩
    · obtain ⟨rfl, rfl⟩ := hrest.ret_inv
      rw [List.append_nil]
      exact ⟨hatt.only, hatt.once, hatt.tries.trans (by omega), fun _ => rfl, fun _ => hatt.done rfl⟩

/-- A rule that mentions the tenant is not another's, unless the other's path contains the tenant's. -/
theorem not_ownOf_of_mentions {y : Rule} (hm : y.mentions tid = true) {other : TenantId} (hv : ValidId tid)
    (ho : ValidId other) (hapart : hasSub ("/vm/" ++ tid) ("/vm/" ++ other) = false) : ¬ y.ownOf other := by
  intro hown
  have hpre := (hown.mentions_iff hv ho).1 hm
  have hsub : ("/vm/" ++ tid).toList <:+: ("/vm/" ++ other).toList := by
    simp only [String.toList_append]
    exact ((List.prefix_append_right_inj _).2 hpre).isInfix
  exact absurd hsub (of_decide_eq_false hapart)

theorem addAlbRuleWith_part {n : Nat} {force : Bool} {q : CtlProg Bool}
    (h : Partway ctl I (addAlbRuleWith cfg n force tid tg) g q) : RuleAllocation cfg n force tid tg g q := by
  have hgate : ∀ {g : RuleRecord}, Partway ctl I (.ret true) g q → (¬ ((cfg.routingMode ≠ .hostTg ∨ force = true) ∧
      cfg.albListenerArn = true)) → RuleAllocation cfg n force tid tg g q := by
    intro g hret hoff
    obtain ⟨rfl, rfl⟩ := hret.ret_inv
    exact ⟨by simp, by simp, by simp, fun _ hmode hl => absurd ⟨hmode, hl⟩ hoff, by simp⟩
  unfold addAlbRuleWith at h
  split at h
  · rename_i hoff
    refine hgate h ?_
    rintro ⟨hmode | hforce, -⟩
    · exact hmode hoff.1
    · simp [hoff.2] at hforce
  split at h
  · rename_i hl
    refine hgate h ?_
    rintro ⟨-, hl'⟩
    simp [hl] at hl'
  have hloop := addRuleLoop_part h
  refine ⟨hloop.only, hloop.once, hloop.tries, fun hq _ _ => ?_, fun hq x hx => ?_⟩
  · refine (hloop.done hq).imp_right ?_
    intro hsaw
    obtain ⟨y, hshow, hm⟩ := hsaw
    exact ⟨y, hshow, hm, fun other hv ho => not_ownOf_of_mentions hm hv ho⟩
  · refine Bool.eq_false_iff.2 fun hmade => ?_
    have hend := hloop.made ⟨x, hx, hmade⟩
    rw [hq] at hend
    cases hend

end Attempts

/-- **Rule allocation under contention.** In any interleaved run, whatever the other processes do to the rules, a call of
`_add_alb_rule` that has come as far as `left` has created at most its own tenant's rule, at a priority of the window
that was free; when it returns it has created that rule or seen one, and when it raises it has created none. -/
theorem rule_allocation {J ι : Type} [DecidableEq ι] {B : Jobs Ctl World J Bool} {w₀ : World} {tr : List (Ev Ctl J ι)}
    {c : Conf Ctl World J ι Bool} {i : ι} {g : RuleRecord} (h : Recorded ctl B anyStep w₀ i tr c g) {j : J}
    {left : CtlProg Bool} (hp : c.proc i = some (j, left)) {n : Nat} {force : Bool} {tid : TenantId} {tg : TgArn}
    (hbody : B.body j = addAlbRuleWith cfg n force tid tg) : RuleAllocation cfg n force tid tg g left :=
  addAlbRuleWith_part (hbody ▸ h.partway (I := fun _ => True) (fun _ _ _ _ => trivial) hp)

/-- Calls of `_add_alb_rule` with the defaults, for these tenants and target groups. -/
def racerJobs : Jobs Ctl World (TenantId × TgArn) Bool where
  body j := addAlbRuleWith {} 6 false j.1 j.2
  start _ w w' := w' = w

/-- Two tenants read the rules and choose the same priority; then both try to take it. -/
def racerMoves : List (Move (TenantId × TgArn) ℕ Hint) :=
  [.start 0 ("a-0000", 1), .start 1 ("b-0000", 2), .call 0 {}, .call 1 {}, .call 0 {}, .call 1 {}, .call 0 {}, .call 1 {}] ++
    List.replicate 3 (.call 1 {})

/-- The second one finds it taken, and creates its rule at the next priority. -/
theorem rule_allocation_race : ∃ (tr : List (Ev Ctl (TenantId × TgArn) ℕ))
    (c : Conf Ctl World (TenantId × TgArn) ℕ Bool) (g : RuleRecord), Recorded ctl racerJobs anyStep twoHosts 1 tr c g ∧
      c.world.rules.map Rule.priority = [some 10, some 11] ∧ c.proc 1 = some (("b-0000", 2), .ret true) ∧
      RuleAllocation {} 6 false "b-0000" 2 g (.ret true) := by
  have hplay : ((ctlOracle.play racerJobs (fun _ w => some w) (fun _ _ _ => true) [] (Conf.idle twoHosts)
      racerMoves).any fun x => x.2.world.rules.map Rule.priority = [some 10, some 11] ∧
        (x.2.proc 1).map (fun y => (y.1, y.2.result)) = some (("b-0000", 2), some true)) = true := by
    decide +kernel
  have hst : ∀ (j : TenantId × TgArn) (w w' : World), some w = some w' → racerJobs.start j w w' := by
    intro j w w' hw
    cases hw
    rfl
  obtain ⟨tr, c, hr, hend⟩ := Oracle.exists_reach_of_play hst (fun _ _ _ _ => trivial) hplay
  obtain ⟨hprio, hproc⟩ := of_decide_eq_true hend
  obtain ⟨⟨j, left⟩, hp, he⟩ := Option.map_eq_some_iff.1 hproc
  obtain ⟨rfl, hleft⟩ := Prod.mk.inj he
  obtain rfl := Prog.result_eq_some.1 hleft
  obtain ⟨g, hrec⟩ := hr.recorded 1
  exact ⟨tr, c, g, hrec, hprio, hp, rule_allocation {} hrec hp rfl⟩

end OpenClaw
