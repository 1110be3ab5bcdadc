import OpenClaw.Lib.Simulate
import OpenClaw.Lib.Trace

/-!
# What one process of a run did

In a run of interleaved programs, the calls of one process with their answers are a partial play of its own program,
and a whole one once it has returned (`Reach.plays`).
-/

namespace Atomic

variable {S : Sig} {W J ι α : Type}

/-- The program `p`, given the answers in `l`, makes the calls of `l` and goes on as `q`. -/
inductive Prog.Upto : Prog S α → List (Answered S) → Prog S α → Prop
  | nil (p : Prog S α) : Upto p [] p
  | call {c : S.Call} {k : S.Ans c → Prog S α} {r : S.Ans c} {l : List (Answered S)} {q : Prog S α} :
      Upto (k r) l q → Upto (.call c k) (⟨c, r⟩ :: l) q

theorem Prog.Upto.snoc {p : Prog S α} {l : List (Answered S)} {c : S.Call} {k : S.Ans c → Prog S α}
    (h : p.Upto l (.call c k)) (r : S.Ans c) : p.Upto (l ++ [⟨c, r⟩]) (k r) := by
  generalize hq : Prog.call c k = q at h
  induction h with
  | nil p =>
    subst hq
    exact .call (.nil _)
  | call _ ih => exact .call (ih hq)

theorem Prog.Upto.plays {p : Prog S α} {l : List (Answered S)} {a : α} (h : p.Upto l (.ret a)) : p.Plays l a := by
  generalize hq : Prog.ret a = q at h
  induction h with
  | nil p =>
    subst hq
    exact .ret a
  | call _ ih => exact .call (ih hq)

/-- What is left of a program makes no call that the program does not make. -/
theorem Prog.Upto.all {P : S.Call → Prop} {p q : Prog S α} {l : List (Answered S)} (h : p.Upto l q) (hp : p.All P) :
    q.All P := by
  induction h with
  | nil p => exact hp
  | call _ ih => exact ih (hp.2 _)

theorem Prog.All.and {P Q : S.Call → Prop} {p : Prog S α} (hp : p.All P) (hq : p.All Q) : p.All fun c => P c ∧ Q c := by
  induction p with
  | ret a => trivial
  | call c k ih => exact ⟨⟨hp.1, hq.1⟩, fun r => ih r (hp.2 r) (hq.2 r)⟩

variable [DecidableEq ι]

/-- The calls a process made, with their answers. -/
def callsOf (i : ι) (tr : List (Ev S J ι)) : List (Answered S) :=
  tr.filterMap fun
    | .call k c r => if k = i then some ⟨c, r⟩ else none
    | .start _ _ => none

theorem callsOf_snoc (i : ι) (tr : List (Ev S J ι)) (e : Ev S J ι) :
    callsOf i (tr ++ [e]) = callsOf i tr ++ callsOf i [e] := List.filterMap_append

namespace Reach

variable {E : Sem S W} {B : Jobs S W J α} {Gd : List (Ev S J ι) → W → Ev S J ι → Prop} {w₀ : W}
  {tr : List (Ev S J ι)} {c : Conf S W J ι α}

/-- Each process has played a part of its program. -/
theorem upto (h : Reach E B Gd (Conf.idle w₀) tr c) (i : ι) :
    (c.proc i = none → callsOf i tr = []) ∧ ∀ j p, c.proc i = some (j, p) → (B.body j).Upto (callsOf i tr) p := by
  induction h with
  | refl => exact ⟨fun _ => rfl, fun j p hp => by cases hp⟩
  | @snoc tr c c' e _ _ hst ih =>
    rw [callsOf_snoc]
    cases hst with
    | @start k j w' hk hb =>
      have hnone : callsOf i [(.start k j : Ev S J ι)] = [] := rfl
      rw [hnone, List.append_nil]
      by_cases he : i = k
      · subst he
        refine ⟨fun hp => by simp at hp, fun j' p hp => ?_⟩
        simp only [Function.update_self, Option.some.injEq, Prod.mk.injEq] at hp
        obtain ⟨rfl, rfl⟩ := hp
        rw [ih.1 hk]
        exact .nil _
      · simp only [Function.update_of_ne he]
        exact ih
    | @call k j a q r w' hk hs =>
      by_cases he : i = k
      · subst he
        have hone : callsOf i [(.call i a r : Ev S J ι)] = [⟨a, r⟩] := by simp [callsOf]
        refine ⟨fun hp => by simp at hp, fun j' p hp => ?_⟩
        simp only [Function.update_self, Option.some.injEq, Prod.mk.injEq] at hp
        obtain ⟨rfl, rfl⟩ := hp
        rw [hone]
        exact (ih.2 j _ hk).snoc r
      · have hne : ¬ k = i := fun h => he h.symm
        have hnone : callsOf i [(.call k a r : Ev S J ι)] = [] := by simp [callsOf, hne]
        rw [hnone, List.append_nil]
        simp only [Function.update_of_ne he]
        exact ih

/-- **The calls of a run are calls of the programs.** -/
theorem all {P : S.Call → Prop} (hB : ∀ j, (B.body j).All P) (h : Reach E B Gd (Conf.idle w₀) tr c) {i : ι} {j : J}
    {p : Prog S α} (hp : c.proc i = some (j, p)) : p.All P := ((h.upto i).2 j p hp).all (hB j)

/-- **A process that returned has played its program.** -/
theorem plays (h : Reach E B Gd (Conf.idle w₀) tr c) {i : ι} {j : J} {a : α} (hp : c.proc i = some (j, .ret a)) :
    (B.body j).Plays (callsOf i tr) a := ((h.upto i).2 j _ hp).plays

end Reach

end Atomic
