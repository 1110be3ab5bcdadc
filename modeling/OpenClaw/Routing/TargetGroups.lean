import OpenClaw.Control.Execute
import OpenClaw.Control.Log
import OpenClaw.Control.RoutingAdmin
import OpenClaw.Lib.Sequence

/-!
# Target groups that are complete

A host's target group is created and then gets the host's address, in two calls of which each may fail. The next
`_ensure_host_tg` for the host finds the group and returns it as it is; `_repoint_alb_rule` registers the address again.
The name of a group keeps the last eight characters of the host's id.

- `TgInv`: what a sequence of calls did is what the groups hold.
- `host_target_groups`: when the calls of a sequence return complete groups of their own.
-/

namespace OpenClaw

open Keyed Atomic

variable (cfg : Config) (ip : HostId → String)

/-- A call of `_ensure_host_tg`, or of `_repoint_alb_rule` for a tenant that moves to the host. -/
inductive TgOp
  | ensure (force : Bool) (host : HostId)
  | repoint (tid : TenantId) (host : HostId)

def TgOp.host : TgOp → HostId
  | .ensure _ h | .repoint _ h => h

/-- The call, with the ARN that `_ensure_host_tg` returns; there is none when it raises or returns early. -/
def TgOp.prog : TgOp → CtlProg (Option TgArn)
  | .ensure force h => do
    let r ← ensureHostTg (if force then cfg.forced else cfg) h (ip h)
    pure (r.getD none)
  | .repoint tid h => do
    let _ ← repointAlbRule cfg tid h (ip h)
    pure none

/-- A call with what it did. -/
structure TgRound where
  op : TgOp
  calls : CallLog
  arn : Option TgArn
  after : World

/-- Calls one after the other, each to its end, in which any request to the load balancer may fail. -/
inductive TgRounds (w₀ : World) : List TgRound → World → Prop
  | refl : TgRounds w₀ [] w₀
  | round {tr : List TgRound} {w w' : World} {op : TgOp} {l : CallLog} {a : Option TgArn} : TgRounds w₀ tr w →
      (op.prog cfg ip).Traces ctl w l a w' → TgRounds w₀ (tr ++ [⟨op, l, a, w'⟩]) w'

/-- An address was registered. -/
def registers (x : Answered Ctl) : Bool :=
  match x with
  | ⟨.registerTargets _ _, true⟩ => true
  | _ => false

/-- The call registered the address of its host. -/
def TgRound.registered (r : TgRound) : Bool := r.calls.any registers

/-- No group has the name of a host's. -/
def World.NoHostTgs (w : World) : Prop := ∀ g ∈ w.tgs, ∀ h, g.name ≠ hostTgName h

/-- The property `P` of each call and the ones before it. -/
def EachRound (P : List TgRound → TgRound → Prop) (tr : List TgRound) : Prop :=
  ∀ pre r post, tr = pre ++ r :: post → P pre r

/-- The group that was returned is the one of that ARN, has the host's address and no other, and was not returned for
another host before. -/
def TgRight (pre : List TgRound) (r : TgRound) : Prop :=
  ∀ a, r.arn = some a →
    (∃ g ∈ r.after.tgs, g.arn = a ∧ (∀ g' ∈ r.after.tgs, g'.arn = a → g' = g) ∧ ∀ x, x ∈ g.targets ↔ x = ip r.op.host) ∧
    ∀ r' ∈ pre, r'.arn = some a → r'.op.host = r.op.host

/-- By this call or one before it the address of its host was registered, and no call before it for another host with
that name of a group registered an address or got an ARN. -/
def TgCondition (pre : List TgRound) (r : TgRound) : Prop :=
  r.arn ≠ none → (∃ r' ∈ pre ++ [r], r'.op.host = r.op.host ∧ r'.registered = true) ∧
    ∀ r' ∈ pre, hostTgName r'.op.host = hostTgName r.op.host → r'.op.host ≠ r.op.host →
      r'.registered = false ∧ r'.arn = none

theorem eachRound_nil (P : List TgRound → TgRound → Prop) : EachRound P [] := fun _ _ _ he => absurd he (by simp)

theorem eachRound_snoc {P : List TgRound → TgRound → Prop} {tr : List TgRound} {r : TgRound} :
    EachRound P (tr ++ [r]) ↔ EachRound P tr ∧ P tr r := by
  constructor
  · intro h
    refine ⟨fun pre r' post he => h pre r' (post ++ [r]) ?_, h tr r [] rfl⟩
    simp [he]
  · intro h pre r' post he
    rcases List.eq_nil_or_concat' post with rfl | ⟨post, last, rfl⟩
    · obtain ⟨rfl, hr⟩ := List.append_inj' he rfl
      obtain rfl := List.singleton_injective hr
      exact h.2
    · have hassoc : pre ++ r' :: (post ++ [last]) = (pre ++ r' :: post) ++ [last] := by simp
      rw [hassoc] at he
      exact h.1 pre r' post (List.append_inj' he rfl).1

/-! ## What a call does to the groups -/

/-- The group of that name, found or created. -/
inductive Obtained (name : String) (ts : List TargetGroup) : TargetGroup → List TargetGroup → Prop
  | present {g : TargetGroup} (hg : g ∈ ts) (hn : g.name = name) : Obtained name ts g ts
  | made {a : TgArn} (hnew : ∀ g ∈ ts, g.name ≠ name ∧ g.arn ≠ a) :
      Obtained name ts ⟨name, a, []⟩ (ts ++ [⟨name, a, []⟩])

/-- `register_targets`. -/
def withTarget (ts : List TargetGroup) (a : TgArn) (x : String) : List TargetGroup :=
  ts.map fun g => if g.arn = a then { g with targets := x :: g.targets } else g

/-- Whether the call registered the address `x`, what ARN it returned, and the groups after it. -/
inductive TgEffect (name x : String) (ts : List TargetGroup) : Bool → Option TgArn → List TargetGroup → Prop
  | nothing : TgEffect name x ts false none ts
  | got {g : TargetGroup} {ts' : List TargetGroup} {a : Option TgArn} (h : Obtained name ts g ts')
      (ha : ∀ b, a = some b → b = g.arn) : TgEffect name x ts false a ts'
  | registered {g : TargetGroup} {ts' : List TargetGroup} {a : Option TgArn} (h : Obtained name ts g ts')
      (ha : ∀ b, a = some b → b = g.arn) : TgEffect name x ts true a (withTarget ts' g.arn x)

section Effects

variable {cfg ip} {w : World} {name x : String}

/-- Requests about rules. -/
def Call.onRules : Call → Prop
  | .describeRules | .choice _ | .createRule _ _ _ | .modifyRule _ _ | .deleteRule _ => True
  | _ => False

theorem step_onRules {c : Call} {r : c.Ans} {w' : World} (hc : c.onRules) (hs : World.step c r w w') :
    registers ⟨c, r⟩ = false ∧ w'.tgs = w.tgs := by
  cases c
  case describeRules | choice => exact ⟨rfl, congrArg World.tgs hs.2⟩
  case createRule =>
    refine ⟨rfl, ?_⟩
    cases r with
    | created =>
      obtain ⟨-, -, -, rfl⟩ := hs
      rfl
    | priorityInUse => exact congrArg World.tgs hs.2
    | error => exact congrArg World.tgs hs
  case modifyRule | deleteRule =>
    refine ⟨rfl, ?_⟩
    rcases sent.eq_or hs with rfl | rfl <;> rfl
  all_goals exact False.elim hc

/-- Work on rules leaves the groups alone. -/
theorem wpt_onRules {α : Type} {p : CtlProg α} (hp : p.All Call.onRules) :
    p.wpt ctl (fun l _ w' => l.any registers = false ∧ w'.tgs = w.tgs) w := by
  induction p generalizing w with
  | ret a => exact ⟨rfl, rfl⟩
  | call c k ih =>
    intro r w₁ hs
    obtain ⟨hno, htgs⟩ := step_onRules hp.1 hs
    refine Prog.wpt_mono ?_ (ih r (hp.2 r))
    intro l a w' h
    refine ⟨?_, h.2.trans htgs⟩
    rw [List.any_cons, hno, Bool.false_or]
    exact h.1

theorem createRuleAttempt_onRules (tid : TenantId) (tg : TgArn) :
    (createRuleAttempt cfg tid tg).All Call.onRules := by
  simp only [createRuleAttempt, req_bind, Prog.pure_eq]
  refine ⟨trivial, fun rules => ?_⟩
  cases rules with
  | none => trivial
  | some rules =>
    simp only
    split
    · trivial
    split
    · trivial
    refine ⟨trivial, fun p => ⟨trivial, fun r => ?_⟩⟩
    cases r <;> trivial

theorem repointLoop_onRules (tid : TenantId) (tg : TgArn) (n : Nat) : (repointLoop cfg tid tg n).All Call.onRules := by
  induction n with
  | zero => trivial
  | succ n ih =>
    refine (createRuleAttempt_onRules tid tg).bind fun r => ?_
    rcases r with _ | _ | _
    · trivial
    · exact ih
    · trivial

/-- The answer of a creation. -/
theorem obtained_created {a : TgArn} (h : (∃ g ∈ w.tgs, g.name = name ∧ g.arn = a) ∨
    ∀ g ∈ w.tgs, g.name ≠ name ∧ g.arn ≠ a) : ∃ g, Obtained name w.tgs g (withTg w.tgs name a) ∧ a = g.arn := by
  rcases h with ⟨g, hg, hn, ha⟩ | hnew
  · rw [withTg_old ⟨g, hg, hn⟩]
    exact ⟨g, .present hg hn, ha.symm⟩
  · rw [withTg_new fun g hg => (hnew g hg).1]
    exact ⟨⟨name, a, []⟩, .made hnew, rfl⟩

/-- What a registration leaves. -/
theorem TgEffect.of_registration {g : TargetGroup} {ts : List TargetGroup} {ok : Bool} {w₁ w₂ : World}
    (hs : World.step (.registerTargets g.arn x) ok w₁ w₂) (h : Obtained name ts g w₁.tgs) {a : Option TgArn}
    (ha : ∀ b, a = some b → b = g.arn) : TgEffect name x ts ok a w₂.tgs := by
  cases ok with
  | true =>
    obtain rfl : w₂ = _ := hs
    exact .registered h ha
  | false =>
    obtain rfl : w₂ = w₁ := hs
    exact .got h ha

theorem ensureHostTg_effect (host : HostId) : (ensureHostTg cfg host x).wpt ctl (fun l r w' =>
    TgEffect (hostTgName host) x w.tgs (l.any registers) (r.getD none) w'.tgs) w := by
  unfold ensureHostTg
  split
  · exact .nothing
  simp only [req_bind, Prog.pure_eq]
  intro found w₁ hs
  obtain ⟨hfound, rfl⟩ := hs
  cases found with
  | some a =>
    obtain ⟨g, hg, hn, rfl⟩ := hfound a rfl
    exact .got (.present hg hn) fun b hb => (Option.some.inj hb).symm
  | none =>
    intro made w₂ hs
    cases made with
    | none =>
      obtain rfl : w₂ = w₁ := hs
      exact .nothing
    | some a =>
      obtain ⟨hmade, rfl⟩ := hs
      obtain ⟨g, hgot, rfl⟩ := obtained_created hmade
      intro ok w₃ hs
      have heff : ∀ a : Option TgArn, (∀ b, a = some b → b = g.arn) →
          TgEffect (hostTgName host) x w₁.tgs ok a w₃.tgs := fun a ha => .of_registration hs hgot ha
      cases ok with
      | true => exact heff (some g.arn) fun b hb => (Option.some.inj hb).symm
      | false => exact heff none (by simp)

theorem targetTg_effect (host : HostId) : (targetTg host).wpt ctl (fun l r w' => l.any registers = false ∧
    ((r = none ∧ w'.tgs = w.tgs) ∨ ∃ g, r = some g.arn ∧ Obtained (hostTgName host) w.tgs g w'.tgs)) w := by
  simp only [targetTg, req_bind, Prog.pure_eq]
  intro found w₁ hs
  obtain ⟨hfound, rfl⟩ := hs
  cases found with
  | some a =>
    obtain ⟨g, hg, hn, rfl⟩ := hfound a rfl
    exact ⟨rfl, .inr ⟨g, rfl, .present hg hn⟩⟩
  | none =>
    intro made w₂ hs
    cases made with
    | none => exact ⟨rfl, .inl ⟨rfl, congrArg World.tgs hs⟩⟩
    | some a =>
      obtain ⟨hmade, rfl⟩ := hs
      obtain ⟨g, hgot, rfl⟩ := obtained_created hmade
      exact ⟨rfl, .inr ⟨g, rfl, hgot⟩⟩

theorem repointAlbRule_effect (tid : TenantId) (host : HostId) : (repointAlbRule cfg tid host x).wpt ctl (fun l _ w' =>
    TgEffect (hostTgName host) x w.tgs (l.any registers) none w'.tgs) w := by
  unfold repointAlbRule
  split
  · exact .nothing
  split
  · exact .nothing
  refine (Prog.wpt_bind ..).2 (Prog.wpt_mono ?_ (targetTg_effect host))
  intro l₁ tg w₁ h
  obtain ⟨hno, ⟨rfl, hw₁⟩ | ⟨g, rfl, hgot⟩⟩ := h
  · simp only [Prog.pure_eq, Prog.wpt, List.append_nil, hno, hw₁]
    exact .nothing
  simp only [req_bind, Prog.pure_eq]
  intro ok w₂ hs
  have heff : TgEffect (hostTgName host) x w.tgs ok none w₂.tgs := .of_registration hs hgot (by simp)
  -- The rest is about rules.
  refine Prog.wpt_mono ?_ (wpt_onRules ?_)
  · intro l₂ r w₃ h
    have hl : (l₁ ++ ⟨.registerTargets g.arn x, ok⟩ :: l₂).any registers = ok := by
      rw [List.any_append, List.any_cons, hno, h.1]
      cases ok <;> rfl
    simp only [hl, h.2]
    exact heff
  · refine ⟨trivial, fun rules => ?_⟩
    cases rules with
    | none => trivial
    | some rules =>
      simp only
      split
      · exact ⟨trivial, fun _ => trivial⟩
      · exact repointLoop_onRules tid _ 6

/-- **What a call does to the groups.** -/
theorem TgOp.effect {op : TgOp} {l : CallLog} {a : Option TgArn} {w' : World}
    (h : (op.prog cfg ip).Traces ctl w l a w') :
    TgEffect (hostTgName op.host) (ip op.host) w.tgs (l.any registers) a w'.tgs := by
  suffices hwp : (op.prog cfg ip).wpt ctl (fun l a w' =>
      TgEffect (hostTgName op.host) (ip op.host) w.tgs (l.any registers) a w'.tgs) w from
    Prog.wpt_iff_traces.1 hwp _ _ _ h
  cases op with
  | ensure force host =>
    refine (Prog.wpt_bind ..).2 (Prog.wpt_mono ?_ (ensureHostTg_effect host))
    intro l r w' heff
    simpa [Prog.pure_eq, Prog.wpt, TgOp.host] using heff
  | repoint tid host =>
    refine (Prog.wpt_bind ..).2 (Prog.wpt_mono ?_ (repointAlbRule_effect tid host))
    intro l r w' heff
    simpa [Prog.pure_eq, Prog.wpt, TgOp.host] using heff

end Effects

/-! ## What the groups hold -/

/-- The groups of hosts are told apart by name and by ARN; they hold the addresses that were registered. -/
structure TgInv (ip : HostId → String) (tr : List TgRound) (ts : List TargetGroup) : Prop where
  single : ∀ g ∈ ts, ∀ h, g.name = hostTgName h → ∀ g' ∈ ts, g'.name = g.name ∨ g'.arn = g.arn → g' = g
  targets : ∀ g ∈ ts, ∀ h, g.name = hostTgName h → ∀ x, x ∈ g.targets ↔
    ∃ r ∈ tr, hostTgName r.op.host = g.name ∧ r.registered = true ∧ ip r.op.host = x
  present : ∀ r ∈ tr, r.registered = true → ∃ g ∈ ts, g.name = hostTgName r.op.host
  returned : ∀ r ∈ tr, ∀ a, r.arn = some a → ∃ g ∈ ts, g.arn = a ∧ g.name = hostTgName r.op.host

section Invariant

variable {cfg ip} {tr : List TgRound} {ts ts' : List TargetGroup} {g : TargetGroup} {name x : String}

theorem TgInv.init {w : World} (h : w.NoHostTgs) : TgInv ip [] w.tgs where
  single g hg host hn := absurd hn (h g hg host)
  targets g hg host hn := absurd hn (h g hg host)
  present _ hr := absurd hr List.not_mem_nil
  returned _ hr := absurd hr List.not_mem_nil

theorem Obtained.mem (h : Obtained name ts g ts') : g ∈ ts' ∧ g.name = name := by
  cases h with
  | present hg hn => exact ⟨hg, hn⟩
  | made => exact ⟨List.mem_append_right _ (List.mem_singleton.2 rfl), rfl⟩

theorem Obtained.keeps {host : HostId} (h : Obtained (hostTgName host) ts g ts') (hi : TgInv ip tr ts) :
    TgInv ip tr ts' := by
  cases h with
  | present => exact hi
  | @made a hnew =>
    have hold : ∀ {g}, g ∈ ts ++ [(⟨hostTgName host, a, []⟩ : TargetGroup)] → g ∈ ts ∨ g = ⟨hostTgName host, a, []⟩ := by
      intro g hg
      exact (List.mem_append.1 hg).imp_right List.mem_singleton.1
    refine ⟨?_, ?_, ?_, ?_⟩
    · intro g hg h hn g' hg' hsame
      rcases hold hg with hg | rfl
      · rcases hold hg' with hg' | rfl
        · exact hi.single g hg h hn g' hg' hsame
        · rcases hsame with he | he
          · exact absurd he.symm (hnew g hg).1
          · exact absurd he.symm (hnew g hg).2
      · rcases hold hg' with hg' | rfl
        · rcases hsame with he | he
          · exact absurd he (hnew g' hg').1
          · exact absurd he (hnew g' hg').2
        · rfl
    · intro g hg h hn y
      rcases hold hg with hg | rfl
      · exact hi.targets g hg h hn y
      · -- No call registered an address in a group of that name.
        refine ⟨fun hy => absurd hy List.not_mem_nil, fun hy => ?_⟩
        obtain ⟨r, hr, hname, hreg, -⟩ := hy
        obtain ⟨g', hg', hn'⟩ := hi.present r hr hreg
        exact absurd (hn'.trans hname) (hnew g' hg').1
    · intro r hr hreg
      obtain ⟨g, hg, hn⟩ := hi.present r hr hreg
      exact ⟨g, List.mem_append_left _ hg, hn⟩
    · intro r hr b hb
      obtain ⟨g, hg, hb⟩ := hi.returned r hr b hb
      exact ⟨g, List.mem_append_left _ hg, hb⟩

/-- A call that registered nothing. -/
theorem TgInv.snoc_quiet (hi : TgInv ip tr ts) {r : TgRound} (hno : r.registered = false)
    (ha : ∀ a, r.arn = some a → ∃ g ∈ ts, g.arn = a ∧ g.name = hostTgName r.op.host) : TgInv ip (tr ++ [r]) ts where
  single := hi.single
  targets g hg h hn y := by
    rw [hi.targets g hg h hn y]
    simp [hno]
  present r' hr' hreg := by
    rcases List.mem_append.1 hr' with hr' | hr'
    · exact hi.present r' hr' hreg
    · obtain rfl := List.mem_singleton.1 hr'
      simp [hno] at hreg
  returned r' hr' b hb := by
    rcases List.mem_append.1 hr' with hr' | hr'
    · exact hi.returned r' hr' b hb
    · obtain rfl := List.mem_singleton.1 hr'
      exact ha b hb

theorem mem_withTarget {a : TgArn} {g' : TargetGroup} : g' ∈ withTarget ts a x ↔
    ∃ g ∈ ts, g' = if g.arn = a then { g with targets := x :: g.targets } else g := by
  simp only [withTarget, List.mem_map, eq_comm]

/-- A call that registered its host's address. -/
theorem TgInv.snoc_registered (hi : TgInv ip tr ts) {r : TgRound} (hreg : r.registered = true) (hg : g ∈ ts)
    (hn : g.name = hostTgName r.op.host) (ha : ∀ a, r.arn = some a → a = g.arn) :
    TgInv ip (tr ++ [r]) (withTarget ts g.arn (ip r.op.host)) := by
  have hname : ∀ g' : TargetGroup,
      (if g'.arn = g.arn then { g' with targets := ip r.op.host :: g'.targets } else g').name = g'.name := by
    intro g'
    split <;> rfl
  have harn : ∀ g' : TargetGroup,
      (if g'.arn = g.arn then { g' with targets := ip r.op.host :: g'.targets } else g').arn = g'.arn := by
    intro g'
    split <;> rfl
  have hfound : ∀ g' ∈ ts, ∃ g'' ∈ withTarget ts g.arn (ip r.op.host), g''.arn = g'.arn ∧ g''.name = g'.name :=
    fun g' hg' => ⟨_, mem_withTarget.2 ⟨g', hg', rfl⟩, harn g', hname g'⟩
  refine ⟨?_, ?_, ?_, ?_⟩
  · intro g₁ hg₁ h hn₁ g₂ hg₂ hsame
    obtain ⟨k₁, hk₁, rfl⟩ := mem_withTarget.1 hg₁
    obtain ⟨k₂, hk₂, rfl⟩ := mem_withTarget.1 hg₂
    simp only [hname, harn] at hsame hn₁
    rw [hi.single k₁ hk₁ h hn₁ k₂ hk₂ hsame]
  · intro g₁ hg₁ h hn₁ y
    obtain ⟨k, hk, rfl⟩ := mem_withTarget.1 hg₁
    simp only [hname] at hn₁ ⊢
    have hold := hi.targets k hk h hn₁ y
    by_cases he : k.arn = g.arn
    · obtain rfl : k = g := hi.single g hg _ hn k hk (.inr he)
      rw [if_pos rfl, List.mem_cons, hold]
      constructor
      · intro hy
        rcases hy with rfl | ⟨r', hr', hrest⟩
        · exact ⟨r, List.mem_append_right _ (List.mem_singleton.2 rfl), hn.symm, hreg, rfl⟩
        · exact ⟨r', List.mem_append_left _ hr', hrest⟩
      · intro hy
        obtain ⟨r', hr', hrest⟩ := hy
        rcases List.mem_append.1 hr' with hr' | hr'
        · exact .inr ⟨r', hr', hrest⟩
        · obtain rfl := List.mem_singleton.1 hr'
          exact .inl hrest.2.2.symm
    · have hother : hostTgName r.op.host ≠ k.name := by
        intro hsame
        exact he (congrArg TargetGroup.arn (hi.single g hg _ hn k hk (.inl (hsame.symm.trans hn.symm))))
      rw [if_neg he, hold]
      simp [hother]
  · intro r' hr' hreg'
    rcases List.mem_append.1 hr' with hr' | hr'
    · obtain ⟨g₁, hg₁, hn₁⟩ := hi.present r' hr' hreg'
      obtain ⟨g₂, hg₂, -, hn₂⟩ := hfound g₁ hg₁
      exact ⟨g₂, hg₂, hn₂.trans hn₁⟩
    · obtain rfl := List.mem_singleton.1 hr'
      obtain ⟨g₂, hg₂, -, hn₂⟩ := hfound g hg
      exact ⟨g₂, hg₂, hn₂.trans hn⟩
  · intro r' hr' b hb
    rcases List.mem_append.1 hr' with hr' | hr'
    · obtain ⟨g₁, hg₁, ha₁, hn₁⟩ := hi.returned r' hr' b hb
      obtain ⟨g₂, hg₂, ha₂, hn₂⟩ := hfound g₁ hg₁
      exact ⟨g₂, hg₂, ha₂.trans ha₁, hn₂.trans hn₁⟩
    · obtain rfl := List.mem_singleton.1 hr'
      obtain ⟨g₂, hg₂, ha₂, hn₂⟩ := hfound g hg
      exact ⟨g₂, hg₂, ha₂.trans (ha b hb).symm, hn₂.trans hn⟩

/-- **One call.** -/
theorem TgInv.snoc (hi : TgInv ip tr ts) {r : TgRound}
    (h : TgEffect (hostTgName r.op.host) (ip r.op.host) ts r.registered r.arn ts') : TgInv ip (tr ++ [r]) ts' := by
  generalize hreg : r.registered = reg at h
  generalize harn : r.arn = arn at h
  cases h with
  | nothing => exact hi.snoc_quiet hreg (by simp [harn])
  | got hgot ha =>
    obtain ⟨hg, hn⟩ := hgot.mem
    refine (hgot.keeps hi).snoc_quiet hreg fun a hr => ?_
    exact ⟨_, hg, (ha a (harn.symm.trans hr)).symm, hn⟩
  | registered hgot ha =>
    obtain ⟨hg, hn⟩ := hgot.mem
    exact (hgot.keeps hi).snoc_registered hreg hg hn fun a hr => ha a (harn.symm.trans hr)

/-- **The whole run**: the invariant after each of its calls. -/
theorem TgRounds.inv {w₀ w : World} (h : TgRounds cfg ip w₀ tr w) (h₀ : w₀.NoHostTgs) :
    TgInv ip tr w.tgs ∧ EachRound (fun pre r => TgInv ip (pre ++ [r]) r.after.tgs) tr := by
  induction h with
  | refl => exact ⟨.init h₀, eachRound_nil _⟩
  | @round tr w w' op l a _ hrun ih =>
    obtain ⟨hi, heach⟩ := ih
    have hlast : TgInv ip (tr ++ [⟨op, l, a, w'⟩]) w'.tgs := @TgInv.snoc ip tr w.tgs w'.tgs hi ⟨op, l, a, w'⟩ (TgOp.effect hrun)
    exact ⟨hlast, eachRound_snoc.2 ⟨heach, hlast⟩⟩

/-- One call, after which the groups hold what was registered. -/
theorem TgInv.right_iff {pre : List TgRound} {r : TgRound} (hi : TgInv ip (pre ++ [r]) r.after.tgs)
    (hinj : ∀ r' ∈ pre ++ [r], ip r'.op.host = ip r.op.host → r'.op.host = r.op.host) :
    TgRight ip pre r ↔ TgCondition pre r := by
  have hself : r ∈ pre ++ [r] := List.mem_append_right _ (List.mem_singleton.2 rfl)
  have hpast : ∀ r' ∈ pre, r' ∈ pre ++ [r] := fun r' hr' => List.mem_append_left _ hr'
  cases harn : r.arn with
  | none =>
    refine ⟨fun _ hne => absurd harn hne, fun _ a ha => ?_⟩
    rw [harn] at ha
    cases ha
  | some a =>
    obtain ⟨g, hg, hga, hgn⟩ := hi.returned r hself a harn
    have hsame : ∀ {r' b}, r' ∈ pre ++ [r] → r'.arn = some b → (b = a ↔ hostTgName r'.op.host = hostTgName r.op.host) := by
      intro r' b hr' hb
      obtain ⟨g', hg', hb', hn'⟩ := hi.returned r' hr' b hb
      constructor
      · rintro rfl
        rw [← hn', hi.single g hg _ hgn g' hg' (.inr (hb'.trans hga.symm)), hgn]
      · intro hname
        rw [← hb', hi.single g hg _ hgn g' hg' (.inl (hn'.trans (hname.trans hgn.symm))), hga]
    constructor
    · intro hright _
      obtain ⟨⟨g', hg', hga', -, htargets⟩, hapart⟩ := hright a harn
      obtain rfl := hi.single g hg _ hgn g' hg' (.inr (hga'.trans hga.symm))
      constructor
      · obtain ⟨r', hr', -, hreg, hip⟩ := (hi.targets g' hg _ hgn _).1 ((htargets _).2 rfl)
        exact ⟨r', hr', hinj r' hr' hip, hreg⟩
      · intro r' hr' hname hne
        constructor
        · refine Bool.eq_false_iff.2 fun hreg => hne (hinj r' (hpast r' hr') ?_)
          exact (htargets _).1 ((hi.targets g' hg _ hgn _).2 ⟨r', hpast r' hr', hname.trans hgn.symm, hreg, rfl⟩)
        · refine Option.eq_none_iff_forall_ne_some.2 fun b hb => hne (hapart r' hr' ?_)
          rw [hb, (hsame (hpast r' hr') hb).2 hname]
    · intro hcond b hb
      obtain ⟨⟨r₀, hr₀, hhost, hreg₀⟩, halone⟩ := hcond (by simp [harn])
      obtain rfl : b = a := Option.some.inj (hb.symm.trans harn)
      refine ⟨⟨g, hg, hga, fun g' hg' ha' => hi.single g hg _ hgn g' hg' (.inr (ha'.trans hga.symm)), fun x => ?_⟩, ?_⟩
      · rw [hi.targets g hg _ hgn x]
        constructor
        · intro hx
          obtain ⟨r', hr', hname, hreg, rfl⟩ := hx
          rcases List.mem_append.1 hr' with hr' | hr'
          · by_cases he : r'.op.host = r.op.host
            · rw [he]
            · have hno := (halone r' hr' (hname.trans hgn) he).1
              simp [hreg] at hno
          · rw [List.mem_singleton.1 hr']
        · rintro rfl
          exact ⟨r₀, hr₀, by rw [hhost, hgn], hreg₀, by rw [hhost]⟩
      · intro r' hr' hb'
        by_contra hne
        have hno := (halone r' hr' ((hsame (hpast r' hr') hb').1 rfl) hne).2
        rw [hb'] at hno
        cases hno

end Invariant

/-- **Complete target groups.** In any sequence of calls in which any request may fail, every ARN that is returned names a
complete group of its own host exactly when each return meets the condition. -/
theorem host_target_groups {w₀ w : World} {tr : List TgRound} (h₀ : w₀.NoHostTgs) (h : TgRounds cfg ip w₀ tr w)
    (hinj : ∀ r ∈ tr, ∀ r' ∈ tr, ip r.op.host = ip r'.op.host → r.op.host = r'.op.host) :
    EachRound (TgRight ip) tr ↔ EachRound TgCondition tr := by
  have heach := (h.inv h₀).2
  have hiff : ∀ pre r post, tr = pre ++ r :: post → (TgRight ip pre r ↔ TgCondition pre r) := by
    intro pre r post he
    have hmem : ∀ r' ∈ pre ++ [r], r' ∈ tr := by
      intro r' hr'
      rw [he, List.append_cons]
      exact List.mem_append_left _ hr'
    have hself : r ∈ tr := hmem r (List.mem_append_right _ (List.mem_singleton.2 rfl))
    exact (heach pre r post he).right_iff fun r' hr' => hinj r' (hmem r' hr') r hself
  constructor
  · exact fun hall pre r post he => (hiff pre r post he).1 (hall pre r post he)
  · exact fun hall pre r post he => (hiff pre r post he).2 (hall pre r post he)

/-- Two instances whose groups have one name. -/
example : hostTgName "i-0a1b2c3d4e5f60718" = hostTgName "i-098765432e5f60718" := by decide

theorem twoHosts_noHostTgs : twoHosts.NoHostTgs := fun _ hg => absurd hg List.not_mem_nil

/-- The call of `_ensure_host_tg` alone, with its round. -/
def ensureRun (host : HostId) (hs : List Hint) (w : World) : Option TgRound :=
  (ctlOracle.alone (fun _ _ _ => true) ((TgOp.ensure false host).prog {} id) hs w).map
    fun x => ⟨.ensure false host, x.1, x.2.1, x.2.2⟩

theorem ensureRun_rounds {host : HostId} {hs : List Hint} {w₀ w : World} {tr : List TgRound} {r : TgRound}
    (h : TgRounds {} id w₀ tr w) (hr : ensureRun host hs w = some r) : TgRounds {} id w₀ (tr ++ [r]) r.after := by
  obtain ⟨⟨l, a, w'⟩, hx, rfl⟩ := Option.map_eq_some_iff.1 hr
  have ht : Prog.Traces (ctl.restrict fun _ _ _ => True) _ _ l a w' := Oracle.alone_sound (fun _ _ _ _ => trivial) hx
  exact h.round ht.of_restrict

/-- After one failed registration the next call returns a group without an address. -/
theorem half_made_group : ∃ tr w, TgRounds {} id twoHosts tr w ∧ ¬ EachRound (TgRight id) tr := by
  have hplay : ((ensureRun "i-1" [{}, {}, { ok := false }] twoHosts).bind fun r₁ =>
      (ensureRun "i-1" [{}] r₁.after).map fun r₂ => (r₁, r₂)).any (fun x => x.2.arn = some 0 ∧
        x.2.after.tgs.map TargetGroup.targets = [[]]) = true := by
    decide +kernel
  obtain ⟨⟨r₁, r₂⟩, hx, hend⟩ := (Option.any_eq_true _ _).1 hplay
  obtain ⟨harn, htargets⟩ := of_decide_eq_true hend
  obtain ⟨r₁, h₁, hx⟩ := Option.bind_eq_some_iff.1 hx
  obtain ⟨r₂, h₂, he⟩ := Option.map_eq_some_iff.1 hx
  obtain ⟨rfl, rfl⟩ := Prod.mk.inj he
  refine ⟨_, _, ensureRun_rounds (ensureRun_rounds .refl h₁) h₂, fun hall => ?_⟩
  obtain ⟨⟨g, hg, -, -, hx⟩, -⟩ := (eachRound_snoc.1 hall).2 0 harn
  have hmem : g.targets ∈ [([] : List String)] := htargets ▸ List.mem_map_of_mem hg
  have hself := (hx _).2 rfl
  rw [List.mem_singleton.1 hmem] at hself
  exact absurd hself List.not_mem_nil

/-- A group that was made and registered is found by the next call. -/
theorem host_target_groups_kept : ∃ tr w, TgRounds {} id twoHosts tr w ∧ tr.map TgRound.arn = [some 0, some 0] ∧
    EachRound (TgRight id) tr := by
  have hplay : ((ensureRun "i-1" [{}, {}, {}] twoHosts).bind fun r₁ =>
      (ensureRun "i-1" [{}] r₁.after).map fun r₂ => (r₁, r₂)).any (fun x => x.1.arn = some 0 ∧ x.2.arn = some 0 ∧
        x.1.registered = true ∧ x.1.op.host = "i-1" ∧ x.2.op.host = "i-1") = true := by
    decide +kernel
  obtain ⟨⟨r₁, r₂⟩, hx, hend⟩ := (Option.any_eq_true _ _).1 hplay
  obtain ⟨ha₁, ha₂, hreg, hh₁, hh₂⟩ := of_decide_eq_true hend
  obtain ⟨r₁, h₁, hx⟩ := Option.bind_eq_some_iff.1 hx
  obtain ⟨r₂, h₂, he⟩ := Option.map_eq_some_iff.1 hx
  obtain ⟨rfl, rfl⟩ := Prod.mk.inj he
  have hrun := ensureRun_rounds (ensureRun_rounds .refl h₁) h₂
  refine ⟨_, _, hrun, by simpa using ⟨ha₁, ha₂⟩, (host_target_groups {} id twoHosts_noHostTgs hrun fun _ _ _ _ he => he).2 ?_⟩
  refine eachRound_snoc.2 ⟨eachRound_snoc.2 ⟨eachRound_nil _, fun _ => ⟨⟨r₁, by simp, rfl, hreg⟩, by simp⟩⟩, fun _ => ?_⟩
  exact ⟨⟨r₁, by simp, by rw [hh₁, hh₂], hreg⟩, by simp [hh₁, hh₂]⟩

end OpenClaw
