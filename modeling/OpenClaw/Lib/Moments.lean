import OpenClaw.Lib.Interleave

/-!
# The moments of a run

A run may be cut before any of its steps.

- `Reach.front`: what comes before the cut is a run.
- `Reach.protocol_at`: before each call, the invariant held, and the local state of its process allowed the call.
- `snoc_eq_cut`: where the cut of a run with one more step is.
-/

namespace Atomic

theorem snoc_eq_cut {X : Type} {l a b : List X} {x y : X} (h : l ++ [y] = a ++ x :: b) :
    (b = [] ∧ a = l ∧ x = y) ∨ ∃ b', b = b' ++ [y] ∧ l = a ++ x :: b' := by
  rcases List.eq_nil_or_concat b with rfl | ⟨b', z, rfl⟩
  · obtain ⟨rfl, hx⟩ := List.append_inj' h rfl
    exact .inl ⟨rfl, rfl, (List.cons.inj hx).1.symm⟩
  · have hcut : l ++ [y] = (a ++ x :: b') ++ [z] := by simpa using h
    obtain ⟨rfl, hy⟩ := List.append_inj' hcut rfl
    obtain rfl := List.singleton_inj.1 hy
    exact .inr ⟨b', by simp, rfl⟩

variable {S : Sig} {W J ι G α : Type} [DecidableEq ι] {E : Sem S W} {B : Jobs S W J α}
  {Gd : List (Ev S J ι) → W → Ev S J ι → Prop}

theorem Reach.front {c₀ c : Conf S W J ι α} {a b : List (Ev S J ι)} (h : Reach E B Gd c₀ (a ++ b) c) :
    ∃ c', Reach E B Gd c₀ a c' := by
  induction b using List.reverseRecOn generalizing c with
  | nil => exact ⟨c, by simpa using h⟩
  | append_singleton b e ih =>
    rw [← List.append_assoc] at h
    obtain ⟨c', h', -⟩ := h.snoc_inv
    exact ih h'

/-- **What holds before each call of a run.** -/
theorem Reach.protocol_at {π : Protocol S J G} {I : List (Ev S J ι) → W → Prop} {Q : α → G → Prop} {w₀ : W}
    (hI : ∀ tr c, Reach E B Gd (Conf.idle w₀) tr c →
      I tr c.world ∧ (∀ i, c.proc i = none → π.locs tr i = none) ∧
        ∀ i j p, c.proc i = some (j, p) → ∃ g, π.locs tr i = some g ∧ p.obeys π Q g)
    {tr : List (Ev S J ι)} {cf : Conf S W J ι α} (h : Reach E B Gd (Conf.idle w₀) tr cf) {a b : List (Ev S J ι)} {i : ι}
    {c : S.Call} {r : S.Ans c} (ht : tr = a ++ .call i c r :: b) :
    ∃ w g w', I a w ∧ π.locs a i = some g ∧ π.allow g c ∧ E.step c r w w' := by
  have hcut : tr = (a ++ [.call i c r]) ++ b := by simpa using ht
  subst hcut
  obtain ⟨c₁, h₁⟩ := h.front
  obtain ⟨c₂, h₂, -, hst⟩ := h₁.snoc_inv
  obtain ⟨hinv, -, hobeys⟩ := hI a c₂ h₂
  cases hst with
  | call hp hs =>
    obtain ⟨g, hg, ho⟩ := hobeys i _ _ hp
    exact ⟨_, g, _, hinv, hg, ho.1, hs⟩

end Atomic
