import OpenClaw.Lib.Project

/-!
# One program among others

A process of an interleaved run finds the world changed between its calls. What it sees is recorded call by call, with
the world of each call (`Seen`); the meaning `Sem.amid E I` lets a program run on such a record, where the other
processes may leave any world that satisfies `I`.

- `wp_amid_all`: the calls of a program, as a record.
- `Partway E I p g q`: `p` has made the calls of `g`, and `q` is left of it. One rule for each construct of a program.
- `Recorded`: a run, with the record of one of its processes; `Recorded.partway` reads it as a part of that program.
-/

namespace Atomic

variable {S : Sig} {W J ι α β : Type}

/-- A call with its answer, and the world it was made in. -/
structure Seen (S : Sig) (W : Type) where
  call : S.Call
  ans : S.Ans call
  world : W

/-- The call and its answer. -/
def Seen.answered (x : Seen S W) : Answered S := ⟨x.call, x.ans⟩

/-- Each call finds some world that satisfies `I`, and is recorded. -/
def Sem.amid (E : Sem S W) (I : W → Prop) : Sem S (List (Seen S W)) :=
  ⟨fun c r g g' => ∃ w w', I w ∧ E.step c r w w' ∧ g' = g ++ [⟨c, r, w⟩]⟩

variable {E : Sem S W} {I : W → Prop}

/-- The record of a program grows by the calls it makes. -/
theorem wp_amid_all {P : S.Call → Prop} {p : Prog S α} (hp : p.All P) (g : List (Seen S W)) :
    p.wp (E.amid I) (fun _ g' => ∃ s, g' = g ++ s ∧ ∀ x ∈ s, P x.call) g := by
  induction p generalizing g with
  | ret a => exact ⟨[], by simp, fun x hx => absurd hx List.not_mem_nil⟩
  | call c k ih =>
    intro r g' hs
    obtain ⟨w, w', -, -, rfl⟩ := hs
    refine Prog.wp_mono ?_ (ih r (hp.2 r) _)
    intro a g'' h
    obtain ⟨s, rfl, hs⟩ := h
    refine ⟨⟨c, r, w⟩ :: s, by simp, ?_⟩
    exact List.forall_mem_cons.2 ⟨hp.1, hs⟩

/-- A record in which every call finds the world of its hint. -/
def Oracle.amid {H : Type} (O : Oracle E H) : Oracle (E.amid I) (H × { w : W // I w }) where
  exec c h g := (O.exec c h.1 h.2.1).map fun x => (x.1, g ++ [⟨c, x.1, h.2.1⟩])
  sound := by
    intro c h g g' r he
    obtain ⟨x, hx, he⟩ := Option.map_eq_some_iff.1 he
    obtain ⟨rfl, rfl⟩ := Prod.mk.inj he
    exact ⟨h.2.1, x.2, h.2.2, O.sound hx, rfl⟩

/-! ## Parts of a program -/

/-- The result, when nothing is left to do. -/
def Prog.result : Prog S α → Option α
  | .ret a => some a
  | .call _ _ => none

theorem Prog.result_eq_some {p : Prog S α} {a : α} : p.result = some a ↔ p = .ret a := by
  cases p <;> simp [Prog.result]

/-- `p` has made the calls of `g`, and `q` is left of it. -/
inductive Partway (E : Sem S W) (I : W → Prop) : Prog S α → List (Seen S W) → Prog S α → Prop
  | here (p : Prog S α) : Partway E I p [] p
  | call {c : S.Call} {k : S.Ans c → Prog S α} {r : S.Ans c} {w w' : W} {g : List (Seen S W)} {q : Prog S α} :
      I w → E.step c r w w' → Partway E I (k r) g q → Partway E I (.call c k) (⟨c, r, w⟩ :: g) q

namespace Partway

variable {g : List (Seen S W)} {p q : Prog S α}

theorem snoc {c : S.Call} {k : S.Ans c → Prog S α} {r : S.Ans c} {w w' : W} (h : Partway E I p g (.call c k)) (hw : I w)
    (hs : E.step c r w w') : Partway E I p (g ++ [⟨c, r, w⟩]) (k r) := by
  generalize hq : Prog.call c k = q at h
  induction h with
  | here p =>
    subst hq
    exact .call hw hs (.here _)
  | call hw' hs' _ ih => exact .call hw' hs' (ih hq)

/-- What is left goes on from the record. -/
theorem runs (h : Partway E I p g q) {g₀ g' : List (Seen S W)} {a : α} (hq : q.Runs (E.amid I) (g₀ ++ g) a g') :
    p.Runs (E.amid I) g₀ a g' := by
  induction h generalizing g₀ with
  | here p => simpa using hq
  | call hw hs _ ih => exact .call ⟨_, _, hw, hs, rfl⟩ (ih (by simpa using hq))

theorem ret_inv {a : α} (h : Partway E I (.ret a) g q) : g = [] ∧ q = .ret a := by
  cases h
  exact ⟨rfl, rfl⟩

/-- A program stands before its first call, or has made it. -/
theorem call_inv {c : S.Call} {k : S.Ans c → Prog S α} (h : Partway E I (.call c k) g q) :
    (g = [] ∧ q = .call c k) ∨ ∃ r w w' g', I w ∧ E.step c r w w' ∧ g = ⟨c, r, w⟩ :: g' ∧ Partway E I (k r) g' q := by
  cases h with
  | here => exact .inl ⟨rfl, rfl⟩
  | call hw hs hrest => exact .inr ⟨_, _, _, _, hw, hs, rfl, hrest⟩

/-- A sequence stands before a call of its first part, or has ended that part. -/
theorem bind_inv {p : Prog S β} {f : β → Prog S α} (h : Partway E I (p >>= f) g q) :
    (∃ c k, Partway E I p g (.call c k) ∧ q = .call c fun r => k r >>= f) ∨
    ∃ b g₁ g₂, Partway E I p g₁ (.ret b) ∧ g = g₁ ++ g₂ ∧ Partway E I (f b) g₂ q := by
  induction p generalizing g with
  | ret b => exact .inr ⟨b, [], g, .here _, rfl, h⟩
  | call c k ih =>
    rcases call_inv h with ⟨rfl, rfl⟩ | ⟨r, w, w', g', hw, hs, rfl, hrest⟩
    · exact .inl ⟨c, k, .here _, rfl⟩
    · rcases ih r hrest with ⟨c', k', hq', he⟩ | ⟨b, g₁, g₂, hb, rfl, hf⟩
      · exact .inl ⟨c', k', .call hw hs hq', he⟩
      · exact .inr ⟨b, _, g₂, .call hw hs hb, rfl, hf⟩

end Partway

/-! ## The record of a process -/

section Record

variable [DecidableEq ι] {B : Jobs S W J α} {Gd : List (Ev S J ι) → W → Ev S J ι → Prop} {w₀ : W} {tr : List (Ev S J ι)}
  {c : Conf S W J ι α} {g : List (Seen S W)} {i : ι}

/-- What process `i` sees of an event in the world `w`. -/
def seenBy (i : ι) (w : W) : Ev S J ι → List (Seen S W)
  | .start _ _ => []
  | .call k a r => if k = i then [⟨a, r, w⟩] else []

/-- A run, with the record of process `i`. -/
inductive Recorded (E : Sem S W) (B : Jobs S W J α) (Gd : List (Ev S J ι) → W → Ev S J ι → Prop) (w₀ : W) (i : ι) :
    List (Ev S J ι) → Conf S W J ι α → List (Seen S W) → Prop
  | refl : Recorded E B Gd w₀ i [] (Conf.idle w₀) []
  | snoc {tr : List (Ev S J ι)} {c c' : Conf S W J ι α} {g : List (Seen S W)} {e : Ev S J ι} :
      Recorded E B Gd w₀ i tr c g → Gd tr c.world e → Step E B c e c' →
      Recorded E B Gd w₀ i (tr ++ [e]) c' (g ++ seenBy i c.world e)

theorem Reach.recorded (h : Reach E B Gd (Conf.idle w₀) tr c) (i : ι) : ∃ g, Recorded E B Gd w₀ i tr c g := by
  induction h with
  | refl => exact ⟨[], .refl⟩
  | snoc _ hg hst ih =>
    obtain ⟨g, hrec⟩ := ih
    exact ⟨_, hrec.snoc hg hst⟩

theorem Recorded.reach (h : Recorded E B Gd w₀ i tr c g) : Reach E B Gd (Conf.idle w₀) tr c := by
  induction h with
  | refl => exact .refl
  | snoc _ hg hst ih => exact ih.snoc hg hst

/-- The record holds the calls of the process in the run. -/
theorem Recorded.calls (h : Recorded E B Gd w₀ i tr c g) : g.map Seen.answered = callsOf i tr := by
  induction h with
  | refl => rfl
  | @snoc tr c c' g e _ _ _ ih =>
    rw [callsOf_snoc, List.map_append, ih]
    congr 1
    cases e with
    | start k j => rfl
    | call k a r =>
      by_cases he : k = i
      · subst he
        simp [seenBy, callsOf, Seen.answered]
      · simp [seenBy, callsOf, he]

/-- **The record of a process** of a run whose worlds satisfy `I` is a part of its program. -/
theorem Recorded.partway (h : Recorded E B Gd w₀ i tr c g) (hI : ∀ tr w e, Gd tr w e → I w) {j : J} {p : Prog S α}
    (hp : c.proc i = some (j, p)) : Partway E I (B.body j) g p := by
  induction h generalizing p with
  | refl => cases hp
  | @snoc tr c c' g e hr hg hst ih =>
    cases hst with
    | @start k j' w' hnone hb =>
      rw [seenBy, List.append_nil]
      by_cases he : i = k
      · subst he
        simp only [Function.update_self, Option.some.injEq, Prod.mk.injEq] at hp
        obtain ⟨rfl, rfl⟩ := hp
        have hnil : g = [] := by
          have hcalls := hr.calls
          rw [(hr.reach.upto i).1 hnone] at hcalls
          exact List.map_eq_nil_iff.1 hcalls
        rw [hnil]
        exact .here _
      · exact ih ((Function.update_of_ne he _ _).symm.trans hp)
    | @call k j' a k' r w' hk hs =>
      by_cases he : i = k
      · subst he
        simp only [Function.update_self, Option.some.injEq, Prod.mk.injEq] at hp
        obtain ⟨rfl, rfl⟩ := hp
        rw [seenBy, if_pos rfl]
        exact (ih hk).snoc (hI _ _ _ hg) hs
      · rw [seenBy, if_neg (Ne.symm he), List.append_nil]
        exact ih ((Function.update_of_ne he _ _).symm.trans hp)

end Record

end Atomic
