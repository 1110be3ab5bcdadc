import OpenClaw.Lib.Interleave

/-!
# Playing a run

A meaning of the calls is a relation; an `Oracle` computes one of its answers from a hint. `play` follows a list of
moves and returns the run it made, so that a concrete run is found by evaluation (`exists_reach_of_play`).
-/

namespace Atomic

variable {S : Sig} {W J ι α H : Type} [DecidableEq ι]

/-- One answer to each call, chosen by a hint. -/
structure Oracle (E : Sem S W) (H : Type) where
  exec : (c : S.Call) → H → W → Option (S.Ans c × W)
  sound : ∀ {c : S.Call} {h : H} {w w' : W} {r : S.Ans c}, exec c h w = some (r, w') → E.step c r w w'

/-- What to do next: start a job, or let a process make its next call. -/
inductive Move (J ι H : Type)
  | start (i : ι) (j : J)
  | call (i : ι) (h : H)

namespace Oracle

variable {E : Sem S W} (O : Oracle E H) (B : Jobs S W J α) (st : J → W → Option W)

/-- The step a move makes. -/
def move (c : Conf S W J ι α) : Move J ι H → Option (Ev S J ι × Conf S W J ι α)
  | .start i j =>
    match c.proc i with
    | some _ => none
    | none => (st j c.world).map fun w' => (.start i j, ⟨w', Function.update c.proc i (some (j, B.body j))⟩)
  | .call i h =>
    match c.proc i with
    | some (j, .call a k) =>
      (O.exec a h c.world).map fun x => (.call i a x.1, ⟨x.2, Function.update c.proc i (some (j, k x.1))⟩)
    | _ => none

/-- The run made by the moves, as long as each is possible and passes the check. -/
def play (chk : List (Ev S J ι) → W → Ev S J ι → Bool) :
    List (Ev S J ι) → Conf S W J ι α → List (Move J ι H) → Option (List (Ev S J ι) × Conf S W J ι α)
  | tr, c, [] => some (tr, c)
  | tr, c, m :: ms =>
    match O.move B st c m with
    | none => none
    | some (e, c') => if chk tr c.world e then play chk (tr ++ [e]) c' ms else none

section Sound

variable {O} {B} {st} {Gd : List (Ev S J ι) → W → Ev S J ι → Prop} {c₀ : Conf S W J ι α}

theorem move_sound (hst : ∀ j w w', st j w = some w' → B.start j w w') {c c' : Conf S W J ι α} {m : Move J ι H}
    {e : Ev S J ι} (h : O.move B st c m = some (e, c')) : Step E B c e c' := by
  cases m with
  | start i j =>
    cases hp : c.proc i with
    | some _ => simp [move, hp] at h
    | none =>
      simp only [move, hp, Option.map_eq_some_iff, Prod.mk.injEq] at h
      obtain ⟨w', hw, rfl, rfl⟩ := h
      exact .start hp (hst j _ _ hw)
  | call i a =>
    rcases hp : c.proc i with _ | ⟨j, _ | ⟨a', k⟩⟩
    · simp [move, hp] at h
    · simp [move, hp] at h
    · simp only [move, hp, Option.map_eq_some_iff, Prod.mk.injEq] at h
      obtain ⟨x, hx, rfl, rfl⟩ := h
      exact .call hp (O.sound hx)

/-- The event of a call. -/
theorem move_call {c c' : Conf S W J ι α} {i : ι} {h : H} {e : Ev S J ι}
    (hm : O.move B st c (.call i h) = some (e, c')) : ∃ a r, e = .call i a r := by
  rcases hp : c.proc i with _ | ⟨j, _ | ⟨a, k⟩⟩
  · simp [move, hp] at hm
  · simp [move, hp] at hm
  · simp only [move, hp, Option.map_eq_some_iff, Prod.mk.injEq] at hm
    obtain ⟨x, -, rfl, -⟩ := hm
    exact ⟨a, x.1, rfl⟩

theorem play_sound (hst : ∀ j w w', st j w = some w' → B.start j w w')
    {chk : List (Ev S J ι) → W → Ev S J ι → Bool} (hchk : ∀ tr w e, chk tr w e = true → Gd tr w e)
    {ms : List (Move J ι H)} {tr tr' : List (Ev S J ι)} {c c' : Conf S W J ι α} (hr : Reach E B Gd c₀ tr c)
    (h : O.play B st chk tr c ms = some (tr', c')) : Reach E B Gd c₀ tr' c' := by
  induction ms generalizing tr c with
  | nil =>
    obtain ⟨rfl, rfl⟩ := Prod.mk.inj (Option.some.inj h)
    exact hr
  | cons m ms ih =>
    unfold play at h
    split at h
    · cases h
    · rename_i e c₁ hm
      split at h
      · rename_i hc
        exact ih (.snoc hr (hchk _ _ _ hc) (move_sound hst hm)) h
      · cases h

/-- **Existence by evaluation.** -/
theorem exists_reach_of_play (hst : ∀ j w w', st j w = some w' → B.start j w w')
    {chk : List (Ev S J ι) → W → Ev S J ι → Bool} (hchk : ∀ tr w e, chk tr w e = true → Gd tr w e)
    {ms : List (Move J ι H)} {P : List (Ev S J ι) × Conf S W J ι α → Bool}
    (h : (O.play B st chk [] c₀ ms).any P = true) : ∃ tr c, Reach E B Gd c₀ tr c ∧ P (tr, c) = true := by
  obtain ⟨⟨tr, c⟩, hx, hP⟩ := (Option.any_eq_true _ _).1 h
  exact ⟨tr, c, play_sound hst hchk .refl hx, hP⟩

end Sound

end Oracle

/-- The processes of a run. -/
def processesOf (tr : List (Ev S J ι)) : List ι :=
  tr.filterMap fun
    | .start i _ => some i
    | .call _ _ _ => none

/-- Only processes of the run have a local state. -/
theorem Protocol.mem_processesOf {G : Type} {π : Protocol S J G} {tr : List (Ev S J ι)} {i : ι} {g : G}
    (hl : π.locs tr i = some g) : i ∈ processesOf tr := by
  induction tr using List.reverseRecOn generalizing g with
  | nil => cases hl
  | append_singleton tr e ih =>
    rw [Protocol.locs_snoc] at hl
    unfold processesOf at ih ⊢
    rw [List.filterMap_append]
    cases e with
    | start k j =>
      by_cases e : i = k
      · simp [e]
      · rw [Protocol.stepLoc, Function.update_of_ne e] at hl
        exact List.mem_append_left _ (ih hl)
    | call k c r =>
      by_cases e : i = k
      · subst e
        rw [Protocol.stepLoc, Function.update_self, Option.map_eq_some_iff] at hl
        obtain ⟨g', hg, -⟩ := hl
        exact List.mem_append_left _ (ih hg)
      · rw [Protocol.stepLoc, Function.update_of_ne e] at hl
        exact List.mem_append_left _ (ih hl)

end Atomic
