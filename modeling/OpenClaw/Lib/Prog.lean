import Mathlib

/-!
# Programs made of atomic calls

A program (`Prog`) is a finite tree of calls on a shared world: each call is atomic and its answer selects what
the program does next. A meaning of the calls (`Sem`) is a relation between worlds, one for each call and answer, so
that an answer may be left open (a network that may fail) or be determined by the world (a table read).

- `Prog.wp E p Q w`: every complete run of `p` alone from `w` ends in `Q`. It is computed along the program
  (`wp_ret`, `wp_call`, `wp_bind`) and says the same as the runs themselves (`wp_iff_runs`).
- `Prog.All P p`: every call that `p` may make satisfies `P`, whatever the answers.
- `Sem.restrict` keeps only the calls that meet a condition on the world before them.
-/

namespace Atomic

/-- The calls of a world and the type of the answers each call may get. -/
structure Sig where
  Call : Type
  Ans : Call → Type

/-- A program: it returns, or makes one call and continues with the answer. -/
inductive Prog (S : Sig) (α : Type) : Type
  | ret (a : α) : Prog S α
  | call (c : S.Call) (k : S.Ans c → Prog S α) : Prog S α

/-- What each call with each answer does to the world. -/
structure Sem (S : Sig) (W : Type) where
  step : (c : S.Call) → S.Ans c → W → W → Prop

variable {S : Sig} {W α β γ : Type}

namespace Prog

protected def bind : Prog S α → (α → Prog S β) → Prog S β
  | .ret a, f => f a
  | .call c k, f => .call c fun r => (k r).bind f

instance : Monad (Prog S) where
  pure := .ret
  bind := Prog.bind

/-- The program that makes one call and returns its answer. -/
def lift (c : S.Call) : Prog S (S.Ans c) := .call c .ret

@[simp] theorem pure_eq (a : α) : (pure a : Prog S α) = .ret a := rfl

@[simp] theorem ret_bind (a : α) (f : α → Prog S β) : (Prog.ret a >>= f) = f a := rfl

@[simp] theorem call_bind (c : S.Call) (k : S.Ans c → Prog S α) (f : α → Prog S β) :
    (Prog.call c k >>= f) = .call c fun r => k r >>= f := rfl

@[simp] theorem lift_bind (c : S.Call) (f : S.Ans c → Prog S β) :
    @Bind.bind (Prog S) _ (no_index S.Ans c) β (lift c) f = .call c f := rfl

theorem bind_assoc (p : Prog S α) (f : α → Prog S β) (g : β → Prog S γ) :
    (p >>= f) >>= g = p >>= fun a => f a >>= g := by
  induction p with
  | ret a => rfl
  | call c k ih => simp only [call_bind, ih]

/-! ## Runs of one program alone -/

/-- `p` run alone from `w` returns `a` in the world `w'`. -/
inductive Runs (E : Sem S W) : Prog S α → W → α → W → Prop
  | ret (a : α) (w : W) : Runs E (.ret a) w a w
  | call {c : S.Call} {k : S.Ans c → Prog S α} {r : S.Ans c} {w w₁ w₂ : W} {a : α} :
      E.step c r w w₁ → Runs E (k r) w₁ a w₂ → Runs E (.call c k) w a w₂

/-- Every complete run of the program from `w` ends in `Q`. -/
def wp (E : Sem S W) : Prog S α → (α → W → Prop) → W → Prop
  | .ret a, Q, w => Q a w
  | .call c k, Q, w => ∀ r w', E.step c r w w' → (k r).wp E Q w'

variable {E : Sem S W}

@[simp] theorem wp_ret (a : α) (Q : α → W → Prop) (w : W) : (Prog.ret a).wp E Q w ↔ Q a w := Iff.rfl

@[simp] theorem wp_call (c : S.Call) (k : S.Ans c → Prog S α) (Q : α → W → Prop) (w : W) :
    (Prog.call c k).wp E Q w ↔ ∀ r w', E.step c r w w' → (k r).wp E Q w' := Iff.rfl

@[simp] theorem wp_bind (p : Prog S α) (f : α → Prog S β) (Q : β → W → Prop) (w : W) :
    (p >>= f).wp E Q w ↔ p.wp E (fun a w' => (f a).wp E Q w') w := by
  induction p generalizing w with
  | ret a => exact Iff.rfl
  | call c k ih =>
    simp only [call_bind, wp_call]
    exact forall_congr' fun r => forall_congr' fun w' => imp_congr_right fun _ => ih r w'

theorem wp_mono {p : Prog S α} {Q Q' : α → W → Prop} (h : ∀ a w, Q a w → Q' a w) :
    ∀ {w : W}, p.wp E Q w → p.wp E Q' w := by
  induction p with
  | ret a => exact h a _
  | call c k ih => exact fun hw r w' hs => ih r (hw r w' hs)

theorem wp_and {p : Prog S α} {Q Q' : α → W → Prop} :
    ∀ {w : W}, p.wp E Q w → p.wp E Q' w → p.wp E (fun a w => Q a w ∧ Q' a w) w := by
  induction p with
  | ret a => exact fun h h' => ⟨h, h'⟩
  | call c k ih => exact fun h h' r w' hs => ih r (h r w' hs) (h' r w' hs)

/-- `wp` speaks about exactly the runs. -/
theorem wp_iff_runs {p : Prog S α} {Q : α → W → Prop} {w : W} :
    p.wp E Q w ↔ ∀ a w', Runs E p w a w' → Q a w' := by
  constructor
  · intro h a w' hr
    induction hr with
    | ret a w => exact h
    | call hs _ ih => exact ih (h _ _ hs)
  · intro h
    induction p generalizing w with
    | ret a => exact h a w (.ret a w)
    | call c k ih => exact fun r w' hs => ih r fun a w'' hr => h a w'' (.call hs hr)

theorem Runs.bind {p : Prog S α} {f : α → Prog S β} {w w₁ w₂ : W} {a : α} {b : β} (h : Runs E p w a w₁)
    (h' : Runs E (f a) w₁ b w₂) : Runs E (p >>= f) w b w₂ := by
  induction h with
  | ret a w => exact h'
  | call hs _ ih => exact .call hs (ih h')

/-- The runs of a single call. -/
theorem runs_call_ret {c : S.Call} {f : S.Ans c → α} {w w' : W} {a : α} :
    Runs E (.call c fun r => .ret (f r)) w a w' ↔ ∃ r, E.step c r w w' ∧ f r = a := by
  constructor
  · intro h
    cases h with
    | call hs hr =>
      cases hr
      exact ⟨_, hs, rfl⟩
  · intro h
    obtain ⟨r, hs, rfl⟩ := h
    exact .call hs (.ret _ _)

/-! ## Calls a program may make -/

/-- Every call of the program satisfies `P`, whatever answers it gets. -/
def All (P : S.Call → Prop) : Prog S α → Prop
  | .ret _ => True
  | .call c k => P c ∧ ∀ r, (k r).All P

@[simp] theorem all_ret (P : S.Call → Prop) (a : α) : (Prog.ret a : Prog S α).All P ↔ True := Iff.rfl

@[simp] theorem all_call (P : S.Call → Prop) (c : S.Call) (k : S.Ans c → Prog S α) :
    (Prog.call c k).All P ↔ P c ∧ ∀ r, (k r).All P := Iff.rfl

theorem all_lift {P : S.Call → Prop} {c : S.Call} (h : P c) : (lift c).All P := ⟨h, fun _ => trivial⟩

theorem All.bind {P : S.Call → Prop} {p : Prog S α} {f : α → Prog S β} (hp : p.All P) (hf : ∀ a, (f a).All P) :
    (p >>= f).All P := by
  induction p with
  | ret a => exact hf a
  | call c k ih => exact ⟨hp.1, fun r => ih r (hp.2 r)⟩

/-- The program, cut off where the call `c` is answered with no; it is made before each of its calls. -/
def within (c : S.Call) (ok : S.Ans c → Bool) : Prog S α → Prog S (Option α)
  | .ret a => .ret (some a)
  | .call c' k => .call c fun r => if ok r then .call c' fun r' => (k r').within c ok else .ret none

theorem All.within {P : S.Call → Prop} {p : Prog S α} {c : S.Call} {ok : S.Ans c → Bool} (hc : P c) (hp : p.All P) :
    (p.within c ok).All P := by
  induction p with
  | ret a => trivial
  | call c' k ih =>
    refine ⟨hc, fun r => ?_⟩
    beta_reduce
    by_cases hr : ok r = true
    · rw [if_pos hr]
      exact ⟨hp.1, fun r' => ih r' (hp.2 r')⟩
    · rw [if_neg hr]
      trivial

theorem All.mono {P P' : S.Call → Prop} (h : ∀ c, P c → P' c) {p : Prog S α} (hp : p.All P) : p.All P' := by
  induction p with
  | ret a => trivial
  | call c k ih => exact ⟨h c hp.1, fun r => ih r (hp.2 r)⟩

/-- Every call of the program satisfies `P`, and everything it may return satisfies `R`. -/
def Gives (P : S.Call → Prop) (R : α → Prop) : Prog S α → Prop
  | .ret a => R a
  | .call c k => P c ∧ ∀ r, (k r).Gives P R

theorem All.gives {P : S.Call → Prop} {p : Prog S α} (hp : p.All P) : p.Gives P fun _ => True := by
  induction p with
  | ret a => trivial
  | call c k ih => exact ⟨hp.1, fun r => ih r (hp.2 r)⟩

theorem Gives.all {P : S.Call → Prop} {R : α → Prop} {p : Prog S α} (hp : p.Gives P R) : p.All P := by
  induction p with
  | ret a => trivial
  | call c k ih => exact ⟨hp.1, fun r => ih r (hp.2 r)⟩

theorem Gives.mono {P P' : S.Call → Prop} {R : α → Prop} (h : ∀ c, P c → P' c) {p : Prog S α} (hp : p.Gives P R) :
    p.Gives P' R := by
  induction p with
  | ret a => exact hp
  | call c k ih => exact ⟨h c hp.1, fun r => ih r (hp.2 r)⟩

theorem Gives.bind {P : S.Call → Prop} {R : α → Prop} {R' : β → Prop} {p : Prog S α} {f : α → Prog S β}
    (hp : p.Gives P R) (hf : ∀ a, R a → (f a).Gives P R') : (p >>= f).Gives P R' := by
  induction p with
  | ret a => exact hf a hp
  | call c k ih => exact ⟨hp.1, fun r => ih r (hp.2 r)⟩

/-- **Frame rule.** What every call of `P` keeps, a program of such calls keeps. -/
theorem All.wp_frame {P : S.Call → Prop} {I : W → Prop} (hP : ∀ c r w w', P c → I w → E.step c r w w' → I w')
    {p : Prog S α} (hp : p.All P) : ∀ {w : W}, I w → p.wp E (fun _ w' => I w') w := by
  induction p with
  | ret a => exact fun h => h
  | call c k ih => exact fun h r w' hs => ih r (hp.2 r) (hP c r _ w' hp.1 h hs)

end Prog

/-! ## Meanings from meanings -/

namespace Sem

variable (E : Sem S W)

/-- Only the calls that meet `ok` in the world before them. -/
def restrict (ok : (c : S.Call) → S.Ans c → W → Prop) : Sem S W :=
  ⟨fun c r w w' => ok c r w ∧ E.step c r w w'⟩

theorem wp_restrict {E : Sem S W} {ok : (c : S.Call) → S.Ans c → W → Prop} {p : Prog S α} {Q : α → W → Prop} :
    ∀ {w : W}, p.wp E Q w → p.wp (E.restrict ok) Q w := by
  induction p with
  | ret a => exact fun h => h
  | call c k ih => exact fun h r w' hs => ih r (h r w' hs.2)

theorem runs_of_restrict {E : Sem S W} {ok : (c : S.Call) → S.Ans c → W → Prop} {p : Prog S α} {w w' : W} {a : α}
    (h : p.Runs (E.restrict ok) w a w') : p.Runs E w a w' := by
  induction h with
  | ret a w => exact .ret a w
  | call hs _ ih => exact .call hs.2 ih

end Sem

end Atomic
