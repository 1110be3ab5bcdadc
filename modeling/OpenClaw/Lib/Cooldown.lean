import Mathlib

/-!
# A cooldown for each key

Acts on keys happen one after the other, and a map keeps the time of the last act on each key (`stamp`). An act that is
not forced happens only when the stamp of its key is at least `c` old; a forced act happens anyway, and stamps too.

- `Cooled c m lo as`: the acts `as` keep to this rule, beginning with the map `m` at time `lo`.
- `Cooled.pairwise`: then every act that is not forced comes at least `c` after every earlier act on its key.
- `stamps_apply`: the map holds the last act on each key, whatever the acts on the others.
-/

namespace Cooldown

structure Act (K : Type) where
  key : K
  time : Int
  forced : Bool
deriving DecidableEq

variable {K : Type} [DecidableEq K]

/-- The map after an act. -/
def stamp (m : K → Option Int) (a : Act K) : K → Option Int := Function.update m a.key (some a.time)

/-- The map after some acts. -/
def stamps (m : K → Option Int) (as : List (Act K)) : K → Option Int := as.foldl stamp m

/-- The time of the last act on a key. -/
def lastAct (k : K) (as : List (Act K)) : Option Int := ((as.filter fun a => a.key = k).getLast?).map Act.time

/-- The acts keep to the cooldown. -/
def Cooled (c : Int) : (K → Option Int) → Int → List (Act K) → Prop
  | _, _, [] => True
  | m, lo, a :: as => lo ≤ a.time ∧ (a.forced = false → ∀ last, m a.key = some last → c ≤ a.time - last) ∧
      Cooled c (stamp m a) a.time as

section Stamps

variable {m : K → Option Int} {as bs : List (Act K)}

@[simp] theorem stamps_nil : stamps m [] = m := rfl

@[simp] theorem stamps_cons (a : Act K) : stamps m (a :: as) = stamps (stamp m a) as := rfl

theorem stamps_append : stamps m (as ++ bs) = stamps (stamps m as) bs := List.foldl_append

/-- **No act loses the stamp of another key.** -/
theorem stamps_apply (k : K) : stamps m as k = (lastAct k as).or (m k) := by
  induction as using List.reverseRecOn with
  | nil => rfl
  | append_singleton as a ih =>
    rw [stamps_append, stamps_cons, stamps_nil, stamp]
    by_cases hk : a.key = k
    · subst hk
      simp [lastAct]
    · rw [Function.update_of_ne (Ne.symm hk), ih]
      simp [lastAct, hk]

end Stamps

section Law

variable {c lo : Int} {m : K → Option Int} {as bs : List (Act K)}

theorem Cooled.mono {lo' : Int} (hle : lo' ≤ lo) (h : Cooled c m lo as) : Cooled c m lo' as := by
  cases as with
  | nil => trivial
  | cons a as => exact ⟨Int.le_trans hle h.1, h.2⟩

theorem Cooled.append {hi : Int} (h : Cooled c m lo as) (hlo : lo ≤ hi) (hhi : ∀ a ∈ as, a.time ≤ hi)
    (h' : Cooled c (stamps m as) hi bs) : Cooled c m lo (as ++ bs) := by
  induction as generalizing m lo with
  | nil => exact h'.mono hlo
  | cons a as ih =>
    obtain ⟨hfirst, hguard, hrest⟩ := h
    have ha : a.time ≤ hi := hhi a List.mem_cons_self
    exact ⟨hfirst, hguard, ih hrest ha (fun b hb => hhi b (List.mem_cons_of_mem _ hb)) h'⟩

/-- What is still to come respects the stamp of a key. -/
theorem Cooled.after {k : K} {t : Int} (h : Cooled c m lo as) (hk : m k = some t) (ht : t ≤ lo) :
    ∀ b ∈ as, b.forced = false → b.key = k → c ≤ b.time - t := by
  induction as generalizing m lo t with
  | nil => exact fun b hb => absurd hb List.not_mem_nil
  | cons a as ih =>
    obtain ⟨hfirst, hguard, hrest⟩ := h
    intro b hb hauto hbk
    rcases List.mem_cons.1 hb with rfl | hb
    · exact hguard hauto t (by rw [hbk]; exact hk)
    · by_cases hak : a.key = k
      · -- the key was acted on again: the later stamp is no earlier than `t`
        have hlate := ih hrest (t := a.time) (by rw [stamp, hak, Function.update_self]) (Int.le_refl _) b hb hauto hbk
        omega
      · refine ih hrest ?_ (Int.le_trans ht hfirst) b hb hauto hbk
        rw [stamp, Function.update_of_ne (Ne.symm hak)]
        exact hk

/-- **The law of the cooldown.** -/
theorem Cooled.pairwise (h : Cooled c m lo as) :
    as.Pairwise fun a b => b.forced = false → a.key = b.key → c ≤ b.time - a.time := by
  induction as generalizing m lo with
  | nil => exact .nil
  | cons a as ih =>
    obtain ⟨-, -, hrest⟩ := h
    refine List.pairwise_cons.2 ⟨fun b hb hauto hkey => ?_, ih hrest⟩
    exact hrest.after (by rw [stamp, Function.update_self]) (Int.le_refl _) b hb hauto hkey.symm

end Law

end Cooldown
