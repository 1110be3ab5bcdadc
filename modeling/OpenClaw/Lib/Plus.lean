import OpenClaw.Lib.Simulate

/-!
# More calls

A program stays what it is when its signature gets more calls.

- `Sig.plus`, `Sem.plus`, `Oracle.plus`: the calls of two signatures on one world.
- `Prog.inl`: a program of the first signature, with `Prog.All.inl` for what its calls satisfy.
-/

namespace Atomic

variable {S T : Sig} {W H α : Type}

/-- The calls of both. -/
abbrev Sig.plus (S T : Sig) : Sig := ⟨S.Call ⊕ T.Call, Sum.elim S.Ans T.Ans⟩

/-- Both on one world. -/
def Sem.plus (E : Sem S W) (F : Sem T W) : Sem (S.plus T) W where
  step
    | .inl c => E.step c
    | .inr d => F.step d

/-- Both oracles. -/
def Oracle.plus {E : Sem S W} {F : Sem T W} (O : Oracle E H) (O' : Oracle F H) : Oracle (E.plus F) H where
  exec
    | .inl c => O.exec c
    | .inr d => O'.exec d
  sound {c} _ _ _ _ h := by
    cases c with
    | inl c => exact O.sound h
    | inr d => exact O'.sound h

/-- The program among more calls. -/
def Prog.inl : Prog S α → Prog (S.plus T) α
  | .ret a => .ret a
  | .call c k => .call (.inl c) fun r => (k r).inl

@[simp] theorem Prog.inl_ret (a : α) : (Prog.ret a : Prog S α).inl (T := T) = .ret a := rfl

@[simp] theorem Prog.inl_call (c : S.Call) (k : S.Ans c → Prog S α) :
    (Prog.call c k).inl (T := T) = .call (.inl c) fun r => (k r).inl := rfl

/-- What its calls satisfy. -/
theorem Prog.All.inl {P : S.Call → Prop} {P' : (S.plus T).Call → Prop} (hP : ∀ c, P c → P' (.inl c)) {p : Prog S α}
    (hp : p.All P) : p.inl.All P' := by
  induction p with
  | ret a => trivial
  | call c k ih => exact ⟨hP c hp.1, fun r => ih r (hp.2 r)⟩

end Atomic
