/-!
# Shell scripts

The commands of a POSIX shell that lists of commands are made of. A simple command has an exit status, writes to the
standard output and may change the variables; `exit` ends the shell that runs it, and a subshell is a shell of its own.

- `Sh.run`: whether the shell has ended, its exit status, its output and its variables.
- `Sh.Continues`: commands that never end the shell, among them every subshell.
-/

namespace Script

/-- What a command leaves: its exit status, what it wrote, and the variables. -/
structure ShReply (σ : Type) where
  status : Nat
  out : String
  vars : σ

inductive Sh (σ : Type)
  | cmd (f : σ → ShReply σ)
  | exit (status : Nat)
  /-- `a; b` -/
  | seq (a b : Sh σ)
  /-- `a || b` -/
  | orElse (a b : Sh σ)
  /-- `(a)` -/
  | sub (a : Sh σ)
  /-- `if c; then a; else b; fi` -/
  | ite (c a b : Sh σ)

variable {σ : Type}

/-- `echo`. -/
def Sh.echo (f : σ → String) : Sh σ := .cmd fun s => ⟨0, f s ++ "\n", s⟩

/-- A command that only tells true from false. -/
def Sh.test (p : σ → Bool) : Sh σ := .cmd fun s => ⟨if p s then 0 else 1, "", s⟩

/-- Go on after a reply. -/
def ShReply.andThen (r : ShReply σ) (x : Bool × ShReply σ) : Bool × ShReply σ := (x.1, { x.2 with out := r.out ++ x.2.out })

/-- Whether the shell has ended, and the reply of the command. -/
def Sh.run : Sh σ → σ → Bool × ShReply σ
  | .cmd f, s => (false, f s)
  | .exit n, s => (true, ⟨n, "", s⟩)
  | .seq a b, s => if (a.run s).1 then a.run s else (a.run s).2.andThen (b.run (a.run s).2.vars)
  | .orElse a b, s =>
    if (a.run s).1 ∨ (a.run s).2.status = 0 then a.run s else (a.run s).2.andThen (b.run (a.run s).2.vars)
  | .sub a, s => (false, { (a.run s).2 with vars := s })
  | .ite c a b, s =>
    if (c.run s).1 then c.run s
    else (c.run s).2.andThen (if (c.run s).2.status = 0 then a.run (c.run s).2.vars else b.run (c.run s).2.vars)

/-- The command never ends the shell. -/
def Sh.Continues (a : Sh σ) : Prop := ∀ s, (a.run s).1 = false

namespace Sh

variable {a b c : Sh σ} {s : σ}

theorem Continues.cmd (f : σ → ShReply σ) : (Sh.cmd f).Continues := fun _ => rfl

/-- What runs in a subshell ends that one only. -/
theorem Continues.sub (a : Sh σ) : (Sh.sub a).Continues := fun _ => rfl

theorem Continues.orElse (ha : a.Continues) (hb : b.Continues) : (Sh.orElse a b).Continues := by
  intro s
  rw [run]
  split
  · exact ha s
  · exact hb _

theorem Continues.seq (ha : a.Continues) (hb : b.Continues) : (Sh.seq a b).Continues := by
  intro s
  rw [run, if_neg (by simp [ha s])]
  exact hb _

/-- What follows a command that continues is run. -/
theorem Continues.run_seq (ha : a.Continues) (s : σ) :
    (Sh.seq a b).run s = (a.run s).2.andThen (b.run (a.run s).2.vars) := by
  rw [run, if_neg (by simp [ha s])]

/-- The exit status of a list is the one of its last command. -/
theorem Continues.status_seq (ha : a.Continues) (s : σ) :
    ((Sh.seq a b).run s).2.status = (b.run (a.run s).2.vars).2.status := by
  rw [ha.run_seq]
  rfl

theorem Continues.out_seq (ha : a.Continues) (s : σ) :
    ((Sh.seq a b).run s).2.out = (a.run s).2.out ++ (b.run (a.run s).2.vars).2.out := by
  rw [ha.run_seq]
  rfl

end Sh

end Script
