import OpenClaw.Lib.Prog

/-!
# Interleavings of programs

Any number of processes run programs of atomic calls on one world; a run picks at each step a job to start or a
process whose next call is executed. A process that is never picked again is a process that was killed, so every
prefix of every program is covered.

- `Reach E B G c tr c'`: the run `tr` leads from `c` to `c'`, and every step of it meets the guard `G`, a condition on
  the run so far and the world before the step (`fun _ _ _ => True` for all runs).
- `Reach.inv`: what holds initially and is kept by every step holds of every configuration reached.
- A `Protocol` gives each process a local state that follows its own calls and answers. When every program obeys the
  protocol (`Prog.obeys`, computed along the program like `Prog.wp`), `Reach.protocol` proves an invariant of the
  world and of all local states from one obligation for each call the protocol allows.
-/

namespace Atomic

variable {S : Sig} {W J ι G α β : Type}

/-- The kinds of work processes are started for. -/
structure Jobs (S : Sig) (W J α : Type) where
  body : J → Prog S α
  /-- Starting a job may be refused, and may take something out of the world. -/
  start : J → W → W → Prop

/-- A world and the processes at work on it: the job of each and what is left of its program. -/
structure Conf (S : Sig) (W J ι α : Type) where
  world : W
  proc : ι → Option (J × Prog S α)

/-- No process has been started yet. -/
def Conf.idle (w : W) : Conf S W J ι α := ⟨w, fun _ => none⟩

/-- One step of a run. -/
inductive Ev (S : Sig) (J ι : Type)
  | start (i : ι) (j : J)
  | call (i : ι) (c : S.Call) (r : S.Ans c)

section Steps

variable [DecidableEq ι] (E : Sem S W) (B : Jobs S W J α)

inductive Step : Conf S W J ι α → Ev S J ι → Conf S W J ι α → Prop
  | start {c : Conf S W J ι α} {i : ι} {j : J} {w' : W} : c.proc i = none → B.start j c.world w' →
      Step c (.start i j) ⟨w', Function.update c.proc i (some (j, B.body j))⟩
  | call {c : Conf S W J ι α} {i : ι} {j : J} {a : S.Call} {k : S.Ans a → Prog S α} {r : S.Ans a} {w' : W} :
      c.proc i = some (j, .call a k) → E.step a r c.world w' →
      Step c (.call i a r) ⟨w', Function.update c.proc i (some (j, k r))⟩

/-- The runs from `c₀` all of whose steps meet the guard. -/
inductive Reach (Gd : List (Ev S J ι) → W → Ev S J ι → Prop) (c₀ : Conf S W J ι α) :
    List (Ev S J ι) → Conf S W J ι α → Prop
  | refl : Reach Gd c₀ [] c₀
  | snoc {tr : List (Ev S J ι)} {c c' : Conf S W J ι α} {e : Ev S J ι} :
      Reach Gd c₀ tr c → Gd tr c.world e → Step E B c e c' → Reach Gd c₀ (tr ++ [e]) c'

end Steps

/-- No condition on the steps. -/
abbrev anyStep : List (Ev S J ι) → W → Ev S J ι → Prop := fun _ _ _ => True

namespace Reach

variable [DecidableEq ι] {E : Sem S W} {B : Jobs S W J α} {Gd : List (Ev S J ι) → W → Ev S J ι → Prop}
  {c₀ : Conf S W J ι α}

/-- **Invariants of runs.** -/
theorem inv {I : List (Ev S J ι) → Conf S W J ι α → Prop} (h₀ : I [] c₀)
    (hs : ∀ tr c e c', Reach E B Gd c₀ tr c → I tr c → Gd tr c.world e → Step E B c e c' → I (tr ++ [e]) c')
    {tr : List (Ev S J ι)} {c : Conf S W J ι α} (h : Reach E B Gd c₀ tr c) : I tr c := by
  induction h with
  | refl => exact h₀
  | snoc hr hg hst ih => exact hs _ _ _ _ hr ih hg hst

/-- A run under a guard is a run. -/
theorem mono {Gd' : List (Ev S J ι) → W → Ev S J ι → Prop} (hG : ∀ tr w e, Gd tr w e → Gd' tr w e)
    {tr : List (Ev S J ι)} {c : Conf S W J ι α} (h : Reach E B Gd c₀ tr c) : Reach E B Gd' c₀ tr c := by
  induction h with
  | refl => exact .refl
  | snoc _ hg hst ih => exact .snoc ih (hG _ _ _ hg) hst

/-- The last step of a run. -/
theorem snoc_inv {tr : List (Ev S J ι)} {e : Ev S J ι} {c' : Conf S W J ι α} (h : Reach E B Gd c₀ (tr ++ [e]) c') :
    ∃ c, Reach E B Gd c₀ tr c ∧ Gd tr c.world e ∧ Step E B c e c' := by
  generalize ht : tr ++ [e] = tr' at h
  cases h with
  | refl => simp at ht
  | snoc h hg hst =>
    obtain ⟨rfl, he⟩ := List.append_inj' ht rfl
    obtain rfl := List.singleton_inj.1 he
    exact ⟨_, h, hg, hst⟩

/-- A start, with the configuration it leads to. -/
theorem start {tr : List (Ev S J ι)} {c : Conf S W J ι α} (h : Reach E B Gd c₀ tr c) (i : ι) (j : J) (w' : W)
    (hn : c.proc i = none) (hb : B.start j c.world w') (hg : Gd tr c.world (.start i j)) :
    Reach E B Gd c₀ (tr ++ [.start i j]) ⟨w', Function.update c.proc i (some (j, B.body j))⟩ :=
  .snoc h hg (.start hn hb)

/-- A call, with the configuration it leads to. -/
theorem call {tr : List (Ev S J ι)} {c : Conf S W J ι α} (h : Reach E B Gd c₀ tr c) (i : ι) {j : J} {a : S.Call}
    {k : S.Ans a → Prog S α} (r : S.Ans a) (w' : W) (hp : c.proc i = some (j, .call a k))
    (hs : E.step a r c.world w') (hg : Gd tr c.world (.call i a r)) :
    Reach E B Gd c₀ (tr ++ [.call i a r]) ⟨w', Function.update c.proc i (some (j, k r))⟩ :=
  .snoc h hg (.call hp hs)

end Reach

/-! ## Protocols -/

/-- What a process may do next, given a local state that follows its calls and answers. `sane` are the answers the
process may rely on; the invariant proved with the protocol has to provide them. -/
structure Protocol (S : Sig) (J G : Type) where
  init : J → G
  allow : G → S.Call → Prop
  sane : (g : G) → (c : S.Call) → S.Ans c → Prop
  next : (g : G) → (c : S.Call) → S.Ans c → G

/-- The program keeps to the protocol from the local state `g`, and returns in `Q`. -/
def Prog.obeys (π : Protocol S J G) : Prog S α → (α → G → Prop) → G → Prop
  | .ret a, Q, g => Q a g
  | .call c k, Q, g => π.allow g c ∧ ∀ r, π.sane g c r → (k r).obeys π Q (π.next g c r)

section Protocols

variable {π : Protocol S J G}

@[simp] theorem Prog.obeys_ret (a : α) (Q : α → G → Prop) (g : G) :
    (Prog.ret a : Prog S α).obeys π Q g ↔ Q a g := Iff.rfl

@[simp] theorem Prog.obeys_call (c : S.Call) (k : S.Ans c → Prog S α) (Q : α → G → Prop) (g : G) :
    (Prog.call c k).obeys π Q g ↔ π.allow g c ∧ ∀ r, π.sane g c r → (k r).obeys π Q (π.next g c r) := Iff.rfl

@[simp] theorem Prog.obeys_bind (p : Prog S α) (f : α → Prog S β) (Q : β → G → Prop) (g : G) :
    (p >>= f).obeys π Q g ↔ p.obeys π (fun a g' => (f a).obeys π Q g') g := by
  induction p generalizing g with
  | ret a => exact Iff.rfl
  | call c k ih =>
    simp only [Prog.call_bind, Prog.obeys_call]
    exact and_congr_right fun _ => forall_congr' fun r => imp_congr_right fun _ => ih r _

theorem Prog.obeys_mono {p : Prog S α} {Q Q' : α → G → Prop} (h : ∀ a g, Q a g → Q' a g) :
    ∀ {g : G}, p.obeys π Q g → p.obeys π Q' g := by
  induction p with
  | ret a => exact h a _
  | call c k ih => exact fun hp => ⟨hp.1, fun r hr => ih r (hp.2 r hr)⟩

/-- A program whose calls are allowed in `g` and leave `g` as it is, with what it may return. -/
theorem Prog.Gives.obeys {P : S.Call → Prop} {R : α → Prop} {g : G} (hP : ∀ c, P c → π.allow g c ∧ ∀ r, π.next g c r = g)
    {p : Prog S α} (hp : p.Gives P R) : p.obeys π (fun a g' => R a ∧ g' = g) g := by
  induction p with
  | ret a => exact ⟨hp, rfl⟩
  | call c k ih =>
    refine ⟨(hP c hp.1).1, fun r _ => ?_⟩
    rw [(hP c hp.1).2 r]
    exact ih r (hp.2 r)

theorem Prog.All.obeys {P : S.Call → Prop} {g : G} (hP : ∀ c, P c → π.allow g c ∧ ∀ r, π.next g c r = g)
    {p : Prog S α} (hp : p.All P) : p.obeys π (fun _ g' => g' = g) g :=
  Prog.obeys_mono (fun _ _ h => h.2) (hp.gives.obeys hP)

variable [DecidableEq ι] (π)

/-- The local states after one more step. -/
def Protocol.stepLoc (l : ι → Option G) : Ev S J ι → ι → Option G
  | .start i j => Function.update l i (some (π.init j))
  | .call i c r => Function.update l i ((l i).map fun g => π.next g c r)

/-- The local states after a run. -/
def Protocol.locs (tr : List (Ev S J ι)) : ι → Option G := tr.foldl π.stepLoc fun _ => none

@[simp] theorem Protocol.locs_nil : π.locs ([] : List (Ev S J ι)) = fun _ => none := rfl

@[simp] theorem Protocol.locs_snoc (tr : List (Ev S J ι)) (e : Ev S J ι) :
    π.locs (tr ++ [e]) = π.stepLoc (π.locs tr) e := by
  simp [Protocol.locs, List.foldl_append]

/-- What one step amounts to, seen with the local states before it. -/
def Protocol.seen {O : Type} (out : (g : G) → (c : S.Call) → S.Ans c → List O) (l : ι → Option G) :
    Ev S J ι → List O
  | .start _ _ => []
  | .call i c r => (l i).elim [] fun g => out g c r

/-- What the calls of a run amount to, each seen with the local state of its process before the call. -/
def Protocol.observe {O : Type} (out : (g : G) → (c : S.Call) → S.Ans c → List O) (tr : List (Ev S J ι)) : List O :=
  (tr.foldl (fun (s : (ι → Option G) × List O) e => (π.stepLoc s.1 e, s.2 ++ seen out s.1 e)) (fun _ => none, [])).2

@[simp] theorem Protocol.observe_nil {O : Type} (out : (g : G) → (c : S.Call) → S.Ans c → List O) :
    π.observe out ([] : List (Ev S J ι)) = [] := rfl

theorem Protocol.observe_snoc {O : Type} (out : (g : G) → (c : S.Call) → S.Ans c → List O) (tr : List (Ev S J ι))
    (e : Ev S J ι) : π.observe out (tr ++ [e]) = π.observe out tr ++ Protocol.seen out (π.locs tr) e := by
  have hloc : ∀ (tr : List (Ev S J ι)) (s : (ι → Option G) × List O),
      (tr.foldl (fun (s : (ι → Option G) × List O) e => (π.stepLoc s.1 e, s.2 ++ Protocol.seen out s.1 e)) s).1 =
        tr.foldl π.stepLoc s.1 := by
    intro tr
    induction tr with
    | nil => exact fun _ => rfl
    | cons e tr ih => exact fun s => ih _
  rw [observe, List.foldl_append, List.foldl_cons, List.foldl_nil, hloc, observe, locs]

variable {π} {E : Sem S W} {B : Jobs S W J α} {Gd : List (Ev S J ι) → W → Ev S J ι → Prop}

/-- **Runs of programs that obey a protocol.** The invariant `I` of the run and its world is proved from one
obligation for starting a job and one for an allowed call, which also has to give the answers the protocol relies on. -/
theorem Reach.protocol {I : List (Ev S J ι) → W → Prop} {Q : α → G → Prop} {w₀ : W}
    (hB : ∀ j, (B.body j).obeys π Q (π.init j)) (h₀ : I [] w₀)
    (hstart : ∀ tr w i j w', I tr w → π.locs tr i = none → Gd tr w (.start i j) → B.start j w w' →
      I (tr ++ [.start i j]) w')
    (hcall : ∀ tr w i g c r w', I tr w → π.locs tr i = some g → π.allow g c → Gd tr w (.call i c r) →
      E.step c r w w' → π.sane g c r ∧ I (tr ++ [.call i c r]) w')
    {tr : List (Ev S J ι)} {c : Conf S W J ι α} (h : Reach E B Gd (Conf.idle w₀) tr c) :
    I tr c.world ∧ (∀ i, c.proc i = none → π.locs tr i = none) ∧
      ∀ i j p, c.proc i = some (j, p) → ∃ g, π.locs tr i = some g ∧ p.obeys π Q g := by
  let L : List (Ev S J ι) → Conf S W J ι α → Prop := fun tr c =>
    I tr c.world ∧ (∀ i, c.proc i = none → π.locs tr i = none) ∧
      ∀ i j p, c.proc i = some (j, p) → ∃ g, π.locs tr i = some g ∧ p.obeys π Q g
  have hL : L tr c := Reach.inv ?_ ?_ h
  · exact hL
  · exact ⟨h₀, fun _ _ => rfl, fun i j p hp => by simp [Conf.idle] at hp⟩
  · rintro tr c e c' - ⟨hI, hn, hp⟩ hg hst
    cases hst with
    | @start i j w' hi hb =>
      refine ⟨hstart _ _ _ _ _ hI (hn i hi) hg hb, fun i' hi' => ?_, fun i' j' p hi' => ?_⟩
      · by_cases e : i' = i
        · subst e; simp at hi'
        · simp only [Function.update_of_ne e] at hi'
          simpa [Protocol.stepLoc, e] using hn i' hi'
      · by_cases e : i' = i
        · subst e
          simp only [Function.update_self, Option.some.injEq, Prod.mk.injEq] at hi'
          obtain ⟨rfl, rfl⟩ := hi'
          exact ⟨π.init j, by simp [Protocol.stepLoc], hB j⟩
        · simp only [Function.update_of_ne e] at hi'
          simpa [Protocol.stepLoc, e] using hp i' j' p hi'
    | @call i j a k r w' hi hs =>
      obtain ⟨g, hg', ho⟩ := hp i j _ hi
      obtain ⟨hsane, hI'⟩ := hcall _ _ _ _ _ _ _ hI hg' ho.1 hg hs
      refine ⟨hI', fun i' hi' => ?_, fun i' j' p hi' => ?_⟩
      · by_cases e : i' = i
        · subst e; simp at hi'
        · simp only [Function.update_of_ne e] at hi'
          simpa [Protocol.stepLoc, e] using hn i' hi'
      · by_cases e : i' = i
        · subst e
          simp only [Function.update_self, Option.some.injEq, Prod.mk.injEq] at hi'
          obtain ⟨rfl, rfl⟩ := hi'
          exact ⟨π.next g a r, by simp [Protocol.stepLoc, hg'], ho.2 r hsane⟩
        · simp only [Function.update_of_ne e] at hi'
          simpa [Protocol.stepLoc, e] using hp i' j' p hi'

end Protocols

end Atomic
