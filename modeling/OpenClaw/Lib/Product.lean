import OpenClaw.Lib.Interleave

/-!
# Several protocols at once

- `Prog.obeys_prod`: a program that obeys two protocols obeys both at once.
- `Prog.obeys_under`: one whose calls have a property obeys a protocol that asks for it.
- `Prog.obeys_each`: jobs that name the protocol they keep to.
- `Prog.obeys_of_free`: a local state that allows everything and stays as it is.
-/

namespace Atomic

variable {S : Sig} {J G G' α : Type}

/-- Both protocols, side by side. -/
def Protocol.prod (π : Protocol S J G) (π' : Protocol S J G') : Protocol S J (G × G') where
  init j := (π.init j, π'.init j)
  allow g c := π.allow g.1 c ∧ π'.allow g.2 c
  sane g c r := π.sane g.1 c r ∧ π'.sane g.2 c r
  next g c r := (π.next g.1 c r, π'.next g.2 c r)

variable {π : Protocol S J G} {π' : Protocol S J G'}

theorem Prog.obeys_prod {p : Prog S α} {Q : α → G → Prop} {Q' : α → G' → Prop} :
    ∀ {g : G} {g' : G'}, p.obeys π Q g → p.obeys π' Q' g' →
      p.obeys (π.prod π') (fun a x => Q a x.1 ∧ Q' a x.2) (g, g') := by
  induction p with
  | ret a => exact fun h h' => ⟨h, h'⟩
  | call c k ih =>
    intro g g' h h'
    exact ⟨⟨h.1, h'.1⟩, fun r hr => ih r (h.2 r hr.1) (h'.2 r hr.2)⟩

/-- The local state of a process is that of both protocols. -/
theorem Protocol.locs_prod {ι : Type} [DecidableEq ι] (tr : List (Ev S J ι)) (i : ι) :
    (π.prod π').locs tr i = (π.locs tr i).bind fun g => (π'.locs tr i).map fun g' => (g, g') := by
  induction tr using List.reverseRecOn generalizing i with
  | nil => rfl
  | append_singleton tr e ih =>
    simp only [Protocol.locs_snoc]
    cases e with
    | start k j =>
      by_cases hk : i = k
      · subst hk
        simp [Protocol.stepLoc, Protocol.prod]
      · simpa [Protocol.stepLoc, hk] using ih i
    | call k c r =>
      by_cases hk : i = k
      · subst hk
        simp only [Protocol.stepLoc, Function.update_self, ih i]
        cases π.locs tr i <;> cases π'.locs tr i <;> rfl
      · simpa [Protocol.stepLoc, hk] using ih i

/-- The protocol, for calls with a property. -/
def Protocol.under (π : Protocol S J G) (P : S.Call → Prop) : Protocol S J G where
  init := π.init
  allow g c := P c ∧ π.allow g c
  sane := π.sane
  next := π.next

theorem Prog.obeys_under {P : S.Call → Prop} {p : Prog S α} {Q : α → G → Prop} :
    ∀ {g : G}, p.All P → p.obeys π Q g → p.obeys (π.under P) Q g := by
  induction p with
  | ret a => exact fun _ h => h
  | call c k ih => exact fun hp h => ⟨⟨hp.1, h.1⟩, fun r hr => ih r (hp.2 r) (h.2 r hr)⟩

/-- One protocol for each index; a job names its index. -/
def Protocol.each {I : Type} (π : I → Protocol S J G) : Protocol S (I × J) (I × G) where
  init j := (j.1, (π j.1).init j.2)
  allow g c := (π g.1).allow g.2 c
  sane g c r := (π g.1).sane g.2 c r
  next g c r := (g.1, (π g.1).next g.2 c r)

theorem Prog.obeys_each {I : Type} {π : I → Protocol S J G} {i : I} {p : Prog S α} {Q : α → G → Prop} :
    ∀ {g : G}, p.obeys (π i) Q g → p.obeys (Protocol.each π) (fun a x => x.1 = i ∧ Q a x.2) (i, g) := by
  induction p with
  | ret a => exact fun h => ⟨rfl, h⟩
  | call c k ih => exact fun h => ⟨h.1, fun r hr => ih r (h.2 r hr)⟩

theorem Prog.obeys_of_free {g : G} (hg : ∀ c, π.allow g c ∧ ∀ r, π.next g c r = g) (p : Prog S α) :
    p.obeys π (fun _ g' => g' = g) g := by
  induction p with
  | ret a => rfl
  | call c k ih =>
    refine ⟨(hg c).1, fun r _ => ?_⟩
    rw [(hg c).2 r]
    exact ih r

end Atomic
