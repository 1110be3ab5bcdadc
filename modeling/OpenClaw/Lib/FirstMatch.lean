import Mathlib.Data.List.Basic

/-!
# Rule lists where the first match decides

- `verdict`: the target of the first rule that matches, `none` when no rule does.
- `Leading a`: the rules with the property `a` come before those without it. Putting a rule that has it in front and
  one that does not at the end keeps this (`Leading.cons`, `Leading.snoc`).
- `Leading.verdict`: then a match among the leading rules decides.
-/

namespace FirstMatch

variable {R P V : Type}

/-- The target of the first rule that matches. -/
def verdict (hit : R → P → Bool) (target : R → V) (rules : List R) (p : P) : Option V :=
  (rules.find? fun r => hit r p).map target

/-- The rules with the property come first. -/
def Leading (a : R → Prop) (rules : List R) : Prop := rules.Pairwise fun r r' => a r' → a r

variable {a : R → Prop} {hit : R → P → Bool} {target : R → V} {rules : List R} {r : R} {p : P} {v : V}

theorem Leading.nil : Leading a [] := List.Pairwise.nil

theorem Leading.cons (h : Leading a rules) (ha : a r) : Leading a (r :: rules) :=
  List.pairwise_cons.2 ⟨fun _ _ _ => ha, h⟩

theorem Leading.snoc (h : Leading a rules) (ha : ¬ a r) : Leading a (rules ++ [r]) := by
  refine List.pairwise_append.2 ⟨h, List.pairwise_singleton _ _, fun x _ y hy hay => ?_⟩
  rw [List.mem_singleton.1 hy] at hay
  exact absurd hay ha

theorem verdict_cons_of_hit (h : hit r p = true) : verdict hit target (r :: rules) p = some (target r) := by
  simp [verdict, h]

theorem verdict_cons_of_miss (h : hit r p = false) : verdict hit target (r :: rules) p = verdict hit target rules p := by
  simp [verdict, h]

/-- Where all rules that match agree, and one does match, it is their target. -/
theorem verdict_of_all (hm : ∃ r ∈ rules, hit r p = true) (h : ∀ r ∈ rules, hit r p = true → target r = v) :
    verdict hit target rules p = some v := by
  obtain ⟨r, hr, hh⟩ := hm
  have hfound : (rules.find? fun r => hit r p).isSome = true := List.find?_isSome.2 ⟨r, hr, hh⟩
  obtain ⟨r', hf⟩ := Option.isSome_iff_exists.1 hfound
  have hhit : hit r' p = true := by simpa using List.find?_some hf
  rw [verdict, hf, Option.map_some, h r' (List.mem_of_find?_eq_some hf) hhit]

/-- **A match among the leading rules decides.** -/
theorem Leading.verdict (h : Leading (fun r => target r = v) rules) (hm : ∃ r ∈ rules, target r = v ∧ hit r p = true) :
    verdict hit target rules p = some v := by
  induction rules with
  | nil =>
    obtain ⟨r, hr, -⟩ := hm
    cases hr
  | cons x rules ih =>
    obtain ⟨hx, htail⟩ := List.pairwise_cons.1 h
    obtain ⟨r, hr, ht, hh⟩ := hm
    cases hhit : hit x p with
    | true =>
      rw [verdict_cons_of_hit hhit]
      rcases List.mem_cons.1 hr with rfl | hr
      · rw [ht]
      · rw [hx r hr ht]
    | false =>
      rw [verdict_cons_of_miss hhit]
      rcases List.mem_cons.1 hr with rfl | hr
      · rw [hhit] at hh
        cases hh
      · exact ih htail ⟨r, hr, ht, hh⟩

end FirstMatch
