import OpenClaw.Lib.Interleave

/-!
# What is left of the programs

A run determines what each process still has to do. `Protocol.along` follows a protocol together with the rest of the
program, so that a condition on a step may speak about the processes that are at work and about the last step of one.

- `Prog.obeys_along`: a program that keeps to the protocol keeps to it along its own rest.
- `Reach.along_locs`: what is followed is what the processes really have left.
- `Reach.job_locs`: a local state that remembers its job.
-/

namespace Atomic

variable {S : Sig} {W J ι G α : Type} [DecidableEq S.Call]

/-- What is left of the program after one of its calls. -/
def Prog.after : Prog S α → (c : S.Call) → S.Ans c → Prog S α
  | .ret a, _, _ => .ret a
  | .call c' k, c, r => if e : c = c' then k (e ▸ r) else .call c' k

@[simp] theorem Prog.after_call (c : S.Call) (k : S.Ans c → Prog S α) (r : S.Ans c) :
    (Prog.call c k).after c r = k r := by simp [after]

/-- A protocol, followed together with the programs of the jobs. -/
def Protocol.along (π : Protocol S J G) (Q : α → G → Prop) (B : Jobs S W J α) : Protocol S J (G × Prog S α) where
  init j := (π.init j, B.body j)
  allow x c := ∃ k, x.2 = .call c k ∧ x.2.obeys π Q x.1
  sane x c r := π.sane x.1 c r
  next x c r := (π.next x.1 c r, x.2.after c r)

variable {π : Protocol S J G} {Q : α → G → Prop} {B : Jobs S W J α}

theorem Prog.obeys_along {p : Prog S α} :
    ∀ {g : G}, p.obeys π Q g → p.obeys (π.along Q B) (fun a x => Q a x.1 ∧ x.2 = .ret a) (g, p) := by
  induction p with
  | ret a => exact fun h => ⟨h, rfl⟩
  | call c k ih =>
    intro g h
    refine ⟨⟨k, rfl, h⟩, fun r hr => ?_⟩
    have hk := ih r (h.2 r hr)
    simpa [Protocol.along] using hk

variable [DecidableEq ι] {E : Sem S W} {Gd : List (Ev S J ι) → W → Ev S J ι → Prop} {w₀ : W}

/-- **The rest of each program.** A local state that remembers its job tells what the process is doing. -/
theorem Reach.along_locs (job : G → J) (hi : ∀ j, job (π.init j) = j) (hn : ∀ g c r, job (π.next g c r) = job g)
    {tr : List (Ev S J ι)} {c : Conf S W J ι α} (h : Reach E B Gd (Conf.idle w₀) tr c) (i : ι) :
    ((π.along Q B).locs tr i).map (fun x => (job x.1, x.2)) = c.proc i := by
  refine Reach.inv (I := fun tr c => ∀ i, ((π.along Q B).locs tr i).map (fun x => (job x.1, x.2)) = c.proc i)
    (fun _ => rfl) ?_ h i
  intro tr c e c' _ hI _ hst i'
  cases hst with
  | @start i j w' hp hb =>
    by_cases e : i' = i
    · subst e
      simp [Protocol.stepLoc, Protocol.along, hi]
    · simpa [Protocol.stepLoc, e] using hI i'
  | @call i j a k r w' hp hs =>
    by_cases e : i' = i
    · subst e
      have hl := hI i'
      rw [hp] at hl
      obtain ⟨x, hx, hj⟩ := Option.map_eq_some_iff.1 hl
      obtain ⟨hjob, hrest⟩ := Prod.mk.inj hj
      have hnext : (π.along Q B).next x a r = (π.next x.1 a r, x.2.after a r) := rfl
      simp [Protocol.stepLoc, hx, hnext, hn, hjob, hrest]
    · simpa [Protocol.stepLoc, e] using hI i'

omit [DecidableEq S.Call] in
/-- A local state that remembers its job remembers the job of the process. -/
theorem Reach.job_locs (job : G → J) (hi : ∀ j, job (π.init j) = j) (hn : ∀ g c r, job (π.next g c r) = job g)
    {tr : List (Ev S J ι)} {c : Conf S W J ι α} (h : Reach E B Gd (Conf.idle w₀) tr c) (i : ι) :
    (π.locs tr i).map job = (c.proc i).map Prod.fst := by
  refine Reach.inv (I := fun tr c => ∀ i, (π.locs tr i).map job = (c.proc i).map Prod.fst) (fun _ => rfl) ?_ h i
  intro tr c e c' _ hI _ hst i'
  cases hst with
  | @start i j w' hp hb =>
    by_cases e : i' = i
    · subst e
      simp [Protocol.stepLoc, hi]
    · simpa [Protocol.stepLoc, e] using hI i'
  | @call i j a k r w' hp hs =>
    by_cases e : i' = i
    · subst e
      have hl := hI i'
      rw [hp] at hl
      obtain ⟨x, hx, hj⟩ := Option.map_eq_some_iff.1 hl
      simp [Protocol.stepLoc, hx, hn, hj]
    · simpa [Protocol.stepLoc, e] using hI i'

end Atomic
