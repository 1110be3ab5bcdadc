import Mathlib

/-!
# Words of a shell command

What a shell makes of the text of a command: words, with the quotes taken away, up to the operator that ends the command.
Redirections and subshells are not read.

- `run`: the rest of a word; `Reads`: a command and what comes after it.
- `Plain`: the texts whose characters all stand for themselves.
- `reads_plain`: a plain word followed by a blank is read as it is written.
- `plain_of_reads`: no other text is, as long as it does not start with a blank.
- `plain_of_reads_end`: nor one that does, where what follows the word gives no quote away.
-/

namespace ShellWords

/-- A character of a word: it stands for itself, or the shell may put something else in its place. -/
inductive Piece
  | lit (c : Char)
  | active (c : Char)
deriving DecidableEq

inductive Mode
  | bare
  /-- After a backslash. -/
  | escaped
  /-- Between `'` and `'`. -/
  | single
  /-- Between `"` and `"`. -/
  | double
  /-- After a backslash there. -/
  | doubleEscaped
deriving DecidableEq

/-- Blanks and operators end a word. -/
def ends (c : Char) : Bool := c ∈ [' ', '\t', '\n', '|', '&', ';', '<', '>', '(', ')']

/-- `$` and the back quote start an expansion, the others a pattern; a lone one is counted too. -/
def active (c : Char) : Bool := c ∈ ['$', '\u0060', '*', '?', '[']

def quote (c : Char) : Bool := c = '\'' || c = '"' || c = '\\'

/-- What a character inside a word adds to it. -/
def Mode.step : Mode → Char → List Piece × Mode
  | .bare, c =>
    if c = '\'' then ([], .single)
    else if c = '"' then ([], .double)
    else if c = '\\' then ([], .escaped)
    else if active c then ([.active c], .bare)
    else ([.lit c], .bare)
  | .escaped, c => (if c = '\n' then [] else [.lit c], .bare)
  | .single, c => if c = '\'' then ([], .bare) else ([.lit c], .single)
  | .double, c =>
    if c = '"' then ([], .bare)
    else if c = '\\' then ([], .doubleEscaped)
    else if c = '$' ∨ c = '\u0060' then ([.active c], .double)
    else ([.lit c], .double)
  | .doubleEscaped, c =>
    (if c = '\n' then []
      else if c = '$' ∨ c = '\u0060' ∨ c = '"' ∨ c = '\\' then [.lit c] else [.lit '\\', .lit c], .double)

/-- The rest of a word, and what comes after it; `none` when a quote is not closed. -/
def run : Mode → List Char → Option (List Piece × List Char)
  | m, [] => if m = .bare then some ([], []) else none
  | m, c :: cs =>
    if m = .bare ∧ ends c = true then some ([], c :: cs)
    else (run (m.step c).2 cs).map fun x => ((m.step c).1 ++ x.1, x.2)

/-- A word from its start, where `~` is a home directory. -/
def word (cs : List Char) : Option (List Piece × List Char) :=
  if cs.head? = some '~' then (run .bare cs.tail).map fun x => (.active '~' :: x.1, x.2) else run .bare cs

/-- What ends a command. -/
inductive Sep
  | stop
  | newline
  | semi
  | background
  | and
  | pipe
  | or
deriving DecidableEq

/-- `&&` and `||`, or the single character. -/
def doubled (c : Char) (two one : Sep) (cs : List Char) : Sep × List Char :=
  if cs.head? = some c then (two, cs.tail) else (one, cs)

/-- A command: its words, what ends it, and the text after that. -/
def simple : ℕ → List Char → Option (List (List Piece) × Sep × List Char)
  | 0, _ => none
  | _ + 1, [] => some ([], .stop, [])
  | n + 1, c :: cs =>
    if c = ' ' ∨ c = '\t' then simple n cs
    else if c = '#' then simple n (cs.dropWhile (· ≠ '\n'))
    else if c = '\n' then some ([], .newline, cs)
    else if c = ';' then some ([], .semi, cs)
    else if c = '&' then some ([], doubled '&' .and .background cs)
    else if c = '|' then some ([], doubled '|' .or .pipe cs)
    else if ends c then none
    else (word (c :: cs)).bind fun w => (simple n w.2).map fun x => (w.1 :: x.1, x.2)

/-- The command that a text starts with. -/
def Reads (cs : List Char) (ws : List (List Piece)) (sep : Sep) (rest : List Char) : Prop :=
  ∃ n, simple n cs = some (ws, sep, rest)

/-- Characters as they are. -/
def lits (cs : List Char) : List Piece := cs.map .lit

/-- A character that stands for itself wherever it is in a word. -/
def plainChar (c : Char) : Bool := !ends c && !active c && !quote c

/-- A text that is a word, and stands for itself. -/
def Plain (cs : List Char) : Prop :=
  (∃ c, cs.head? = some c ∧ c ≠ '~' ∧ c ≠ '#') ∧ ∀ c ∈ cs, plainChar c = true

instance (cs : List Char) : Decidable (Plain cs) :=
  decidable_of_iff ((cs.head?.any fun c => c ≠ '~' && c ≠ '#') = true ∧ cs.all plainChar = true) (by
    simp [Plain, Option.any_eq_true])

/-! ## Reading is deterministic -/

section Fuel

variable {n k : ℕ} {cs rest rest' : List Char} {ws ws' : List (List Piece)} {sep sep' : Sep}

theorem simple_succ (h : simple n cs = some (ws, sep, rest)) : simple (n + 1) cs = some (ws, sep, rest) := by
  induction n generalizing cs ws sep rest with
  | zero => cases h
  | succ n ih =>
    cases cs with
    | nil => exact h
    | cons c cs =>
      rw [simple] at h ⊢
      split_ifs at h ⊢ with h₁ h₂ h₃ h₄ h₅ h₆ h₇
      · exact ih h
      · exact ih h
      · exact h
      · exact h
      · exact h
      · exact h
      · obtain ⟨w, hw, h⟩ := Option.bind_eq_some_iff.1 h
        obtain ⟨⟨ws₀, sep₀, rest₀⟩, hx, he⟩ := Option.map_eq_some_iff.1 h
        rw [hw, Option.bind_some, ih hx]
        exact congrArg some he

theorem simple_mono (hnk : n ≤ k) (h : simple n cs = some (ws, sep, rest)) : simple k cs = some (ws, sep, rest) := by
  induction hnk with
  | refl => exact h
  | step _ ih => exact simple_succ ih

theorem Reads.unique (h : Reads cs ws sep rest) (h' : Reads cs ws' sep' rest') : ws' = ws ∧ sep' = sep ∧ rest' = rest := by
  obtain ⟨n, hn⟩ := h
  obtain ⟨k, hk⟩ := h'
  have hboth := (simple_mono (Nat.le_max_left n k) hn).symm.trans (simple_mono (Nat.le_max_right n k) hk)
  simp only [Option.some.injEq, Prod.mk.injEq] at hboth
  obtain ⟨rfl, rfl, rfl⟩ := hboth
  exact ⟨rfl, rfl, rfl⟩

end Fuel

/-! ## One word -/

section Word

variable {m : Mode} {c : Char} {cs w r rest : List Char} {out : List Piece}

theorem plainChar_iff : plainChar c = true ↔ ends c = false ∧ active c = false ∧ quote c = false := by
  simp [plainChar, and_assoc]

theorem quote_eq_false : quote c = false ↔ c ≠ '\'' ∧ c ≠ '"' ∧ c ≠ '\\' := by
  simp [quote, and_assoc]

theorem step_bare_plain (hc : plainChar c = true) : Mode.bare.step c = ([.lit c], .bare) := by
  obtain ⟨-, ha, hq⟩ := plainChar_iff.1 hc
  obtain ⟨h₁, h₂, h₃⟩ := quote_eq_false.1 hq
  simp [Mode.step, ha, h₁, h₂, h₃]

/-- A plain character is taken as it is. -/
theorem run_plain (hc : plainChar c = true) (cs : List Char) :
    run .bare (c :: cs) = (run .bare cs).map fun x => (.lit c :: x.1, x.2) := by
  obtain ⟨he, -, -⟩ := plainChar_iff.1 hc
  rw [run, if_neg (by simp [he]), step_bare_plain hc]
  rfl

/-- Plain characters up to one that ends the word. -/
theorem run_plains (hw : ∀ c ∈ w, plainChar c = true) (hc : ends c = true) (r : List Char) :
    run .bare (w ++ c :: r) = some (lits w, c :: r) := by
  induction w with
  | nil => rw [List.nil_append, run, if_pos ⟨rfl, hc⟩]; rfl
  | cons d w ih =>
    rw [List.cons_append, run_plain (hw d List.mem_cons_self),
      ih fun x hx => hw x (List.mem_cons_of_mem _ hx)]
    rfl

/-- How many more characters a mode may still add than are left. -/
def Mode.credit : Mode → ℕ
  | .doubleEscaped => 1
  | _ => 0

theorem step_length (m : Mode) (c : Char) : (m.step c).1.length + (m.step c).2.credit ≤ 1 + m.credit := by
  cases m <;> simp only [Mode.step] <;> split_ifs <;> simp [Mode.credit]

/-- Outside of `bare` a blank is part of the word. -/
theorem step_blank (hm : m ≠ .bare) : .lit ' ' ∈ (m.step ' ').1 := by
  cases m <;> first | exact absurd rfl hm | decide

theorem count_le_count_append {a b : List Piece} {p : Piece} {k : ℕ} (ha : p ∈ a) (hb : k ≤ b.count p) :
    k + 1 ≤ (a ++ b).count p := by
  have := List.count_pos_iff.2 ha
  rw [List.count_append]
  omega

/-- A word that starts inside a text with a blank after it ends with the text, and is not longer than it; or it has all
blanks of the text and the one after it. -/
theorem run_blank (h : run m (w ++ ' ' :: r) = some (out, rest)) :
    out.length ≤ w.length + m.credit ∨ w.count ' ' + 1 ≤ out.count (.lit ' ') := by
  induction w generalizing m out rest with
  | nil =>
    by_cases hm : m = .bare
    · subst hm
      rw [List.nil_append, run, if_pos ⟨rfl, by decide⟩] at h
      obtain ⟨rfl, -⟩ := Prod.mk.inj (Option.some.inj h)
      exact .inl (Nat.zero_le _)
    · rw [List.nil_append, run, if_neg (by simp [hm])] at h
      obtain ⟨⟨out', rest'⟩, -, he⟩ := Option.map_eq_some_iff.1 h
      obtain ⟨rfl, -⟩ := Prod.mk.inj he
      exact .inr (count_le_count_append (step_blank hm) (Nat.zero_le _))
  | cons d w ih =>
    rw [List.cons_append, run] at h
    split_ifs at h with hd
    · obtain ⟨rfl, -⟩ := Prod.mk.inj (Option.some.inj h)
      exact .inl (Nat.zero_le _)
    · obtain ⟨⟨out', rest'⟩, hrun, he⟩ := Option.map_eq_some_iff.1 h
      obtain ⟨rfl, -⟩ := Prod.mk.inj he
      have hlen := step_length m d
      rcases ih hrun with hl | hcount
      · left
        simp only [List.length_append, List.length_cons]
        omega
      · right
        by_cases hb : d = ' '
        · subst hb
          have hm : m ≠ .bare := fun hm => hd ⟨hm, by decide⟩
          rw [List.count_cons_self]
          exact count_le_count_append (step_blank hm) hcount
        · rw [List.count_cons_of_ne hb]
          exact hcount.trans (by simp [List.count_append])

theorem count_lits (cs : List Char) (c : Char) : (lits cs).count (.lit c) = cs.count c := by
  unfold lits
  rw [List.count_map_of_injective cs Piece.lit (fun _ _ h => Piece.lit.inj h) c]

/-- A quote adds nothing. -/
theorem step_quote (hc : quote c = true) : (Mode.bare.step c).1 = [] ∧ (Mode.bare.step c).2.credit = 0 := by
  simp only [quote, Bool.or_eq_true, decide_eq_true_eq] at hc
  rcases hc with (rfl | rfl) | rfl <;> decide

/-- **A word is read as written only if it is plain.** -/
theorem plain_of_run (h : run .bare (w ++ ' ' :: r) = some (lits w, rest)) :
    (∀ c ∈ w, plainChar c = true) ∧ rest = ' ' :: r := by
  induction w with
  | nil =>
    rw [List.nil_append, run, if_pos ⟨rfl, by decide⟩] at h
    exact ⟨fun c hc => absurd hc List.not_mem_nil, (Prod.mk.inj (Option.some.inj h)).2.symm⟩
  | cons c w ih =>
    by_cases hc : plainChar c = true
    · rw [List.cons_append, run_plain hc] at h
      obtain ⟨⟨out, rest'⟩, hrun, he⟩ := Option.map_eq_some_iff.1 h
      obtain ⟨hout, rfl⟩ := Prod.mk.inj he
      obtain rfl : out = lits w := (List.cons.inj hout).2
      obtain ⟨hw, hrest⟩ := ih hrun
      exact ⟨List.forall_mem_cons.2 ⟨hc, hw⟩, hrest⟩
    · exfalso
      rw [List.cons_append, run] at h
      split_ifs at h with he
      · cases (Prod.mk.inj (Option.some.inj h)).1
      · obtain ⟨⟨out, rest'⟩, hrun, heq⟩ := Option.map_eq_some_iff.1 h
        have hout := (Prod.mk.inj heq).1
        have hends : ends c = false := by simpa using he
        by_cases hq : quote c = true
        · obtain ⟨hnil, hcredit⟩ := step_quote hq
          simp only [hnil, List.nil_append] at hout
          subst hout
          have hblank : c ≠ ' ' := by rintro rfl; exact absurd hq (by decide)
          rcases run_blank hrun with hl | hcount
          · simp [lits, hcredit] at hl
          · rw [count_lits, List.count_cons_of_ne hblank] at hcount
            omega
        · have ha : active c = true := by
            by_contra ha
            exact hc (plainChar_iff.2 ⟨hends, by simpa using ha, by simpa using hq⟩)
          obtain ⟨h₁, h₂, h₃⟩ := quote_eq_false.1 (by simpa using hq)
          simp [Mode.step, ha, h₁, h₂, h₃, lits] at hout

end Word

/-! ## The words of a command -/

section Words

variable {n : ℕ} {c : Char} {w v r cs rest : List Char} {ws : List (List Piece)} {sep : Sep}

/-- No character of a blank, a comment or an operator. -/
def starts (c : Char) : Bool := !ends c && c ≠ '#'

theorem simple_word (hc : starts c = true) : simple (n + 1) (c :: cs) =
    (word (c :: cs)).bind fun w => (simple n w.2).map fun x => (w.1 :: x.1, x.2) := by
  simp only [starts, Bool.and_eq_true, Bool.not_eq_true', decide_eq_true_eq, ne_eq] at hc
  obtain ⟨he, hh⟩ := hc
  have hne : ∀ d, ends d = true → c ≠ d := by
    rintro d hd rfl
    rw [hd] at he
    cases he
  rw [simple, if_neg (not_or.2 ⟨hne _ (by decide), hne _ (by decide)⟩), if_neg hh, if_neg (hne _ (by decide)),
    if_neg (hne _ (by decide)), if_neg (hne _ (by decide)), if_neg (hne _ (by decide)), if_neg (by simp [he])]

/-- Only blanks may come before the first word. -/
theorem starts_of_reads (h : Reads (c :: cs) (v.map .lit :: ws) sep rest) (hb : c ≠ ' ' ∧ c ≠ '\t') :
    starts c = true := by
  obtain ⟨n, hn⟩ := h
  cases n with
  | zero => cases hn
  | succ n =>
    rw [simple, if_neg (not_or.2 hb)] at hn
    split_ifs at hn with h₁ h₂ h₃ h₄ h₅ h₆
    · -- A comment goes on to the end of the line, where the command has no words.
      exfalso
      cases hd : cs.dropWhile (· ≠ '\n') with
      | nil =>
        rw [hd] at hn
        cases n <;> cases hn
      | cons d ds =>
        have hd' : d = '\n' := by
          have := List.head?_dropWhile_not (fun c : Char => decide (c ≠ '\n')) cs
          rw [hd] at this
          simpa using this
        subst hd'
        rw [hd] at hn
        cases n <;> cases hn
    · cases (Prod.mk.inj (Option.some.inj hn)).1
    · cases (Prod.mk.inj (Option.some.inj hn)).1
    · cases (Prod.mk.inj (Option.some.inj hn)).1
    · cases (Prod.mk.inj (Option.some.inj hn)).1
    · simp [starts, h₁, h₆]

/-- The first word of a command, and its other words. -/
theorem reads_word (hc : starts c = true) : Reads (c :: cs) ws sep rest ↔
    ∃ p ws' rest', word (c :: cs) = some (p, rest') ∧ ws = p :: ws' ∧ Reads rest' ws' sep rest := by
  constructor
  · rintro ⟨n, hn⟩
    cases n with
    | zero => cases hn
    | succ n =>
      rw [simple_word hc] at hn
      obtain ⟨⟨p, rest'⟩, hw, hn⟩ := Option.bind_eq_some_iff.1 hn
      obtain ⟨⟨ws', sep', r'⟩, hx, he⟩ := Option.map_eq_some_iff.1 hn
      simp only [Prod.mk.injEq] at he
      obtain ⟨rfl, rfl, rfl⟩ := he
      exact ⟨p, ws', rest', hw, rfl, n, hx⟩
  · rintro ⟨p, ws', rest', hw, rfl, n, hn⟩
    exact ⟨n + 1, by rw [simple_word hc, hw, Option.bind_some, hn]; rfl⟩

/-- A blank before a command does not matter. -/
theorem reads_blank (hb : c = ' ' ∨ c = '\t') : Reads (c :: cs) ws sep rest ↔ Reads cs ws sep rest := by
  constructor
  · rintro ⟨n, hn⟩
    cases n with
    | zero => cases hn
    | succ n =>
      rw [simple, if_pos hb] at hn
      exact ⟨n, hn⟩
  · rintro ⟨n, hn⟩
    exact ⟨n + 1, by rw [simple, if_pos hb]; exact hn⟩

theorem reads_and : Reads ('&' :: '&' :: cs) ws sep rest ↔ ws = [] ∧ sep = .and ∧ rest = cs := by
  have hdone : Reads ('&' :: '&' :: cs) [] .and cs := ⟨1, rfl⟩
  constructor
  · intro h
    exact hdone.unique h
  · rintro ⟨rfl, rfl, rfl⟩
    exact hdone

theorem Plain.starts (hw : Plain (c :: w)) : starts c = true := by
  obtain ⟨⟨d, hd, -, hh⟩, hall⟩ := hw
  obtain rfl : c = d := Option.some.inj hd
  simp [ShellWords.starts, hh, (plainChar_iff.1 (hall c List.mem_cons_self)).1]

/-- **A plain word is read as it is written.** -/
theorem reads_plain (hw : Plain w) : Reads (w ++ ' ' :: r) ws sep rest ↔
    ∃ ws', ws = lits w :: ws' ∧ Reads r ws' sep rest := by
  obtain ⟨⟨c, hhead, htilde, -⟩, hall⟩ := id hw
  obtain ⟨w', rfl⟩ := List.head?_eq_some_iff.1 hhead
  have hword : word (c :: w' ++ ' ' :: r) = some (lits (c :: w'), ' ' :: r) := by
    rw [word, if_neg (by simpa using htilde)]
    exact run_plains hall (by decide) r
  rw [List.cons_append, reads_word hw.starts, ← List.cons_append, hword]
  constructor
  · rintro ⟨p, ws', rest', he, rfl, hr⟩
    obtain ⟨rfl, rfl⟩ := Prod.mk.inj (Option.some.inj he)
    exact ⟨ws', rfl, (reads_blank (.inl rfl)).1 hr⟩
  · rintro ⟨ws', rfl, hr⟩
    exact ⟨_, ws', _, rfl, rfl, (reads_blank (.inl rfl)).2 hr⟩

/-- Two quotes with nothing between them are an empty word. -/
theorem reads_empty : Reads ('"' :: '"' :: ' ' :: r) ws sep rest ↔ ∃ ws', ws = [] :: ws' ∧ Reads r ws' sep rest := by
  have hword : word ('"' :: '"' :: ' ' :: r) = some ([], ' ' :: r) := rfl
  rw [reads_word (by decide), hword]
  constructor
  · rintro ⟨p, ws', rest', he, rfl, hr⟩
    obtain ⟨rfl, rfl⟩ := Prod.mk.inj (Option.some.inj he)
    exact ⟨ws', rfl, (reads_blank (.inl rfl)).1 hr⟩
  · rintro ⟨ws', rfl, hr⟩
    exact ⟨_, ws', _, rfl, rfl, (reads_blank (.inl rfl)).2 hr⟩

/-- A word read from its start that is all characters as they are. -/
theorem word_lits {p : List Piece} (h : word (c :: cs) = some (p, rest)) (hp : ∃ v, p = lits v) :
    c ≠ '~' ∧ run .bare (c :: cs) = some (p, rest) := by
  rw [word] at h
  split_ifs at h with ht
  · obtain ⟨x, -, he⟩ := Option.map_eq_some_iff.1 h
    obtain ⟨v, rfl⟩ := hp
    have := (Prod.mk.inj he).1
    cases v <;> simp [lits] at this
  · exact ⟨by simpa using ht, h⟩

/-- **No other text is**, unless a blank comes first. -/
theorem plain_of_reads (h : Reads (w ++ ' ' :: r) (lits w :: ws) sep rest) (hw : w.head?.any fun c => c ≠ ' ' && c ≠ '\t') :
    Plain w := by
  cases w with
  | nil => cases hw
  | cons c w =>
    have hb : c ≠ ' ' ∧ c ≠ '\t' := by simpa using hw
    have hc := starts_of_reads h hb
    rw [List.cons_append, reads_word hc] at h
    obtain ⟨p, ws', rest', hword, he, -⟩ := h
    obtain ⟨rfl, rfl⟩ := List.cons.inj he
    obtain ⟨htilde, hrun⟩ := word_lits hword ⟨_, rfl⟩
    refine ⟨⟨c, rfl, htilde, ?_⟩, (plain_of_run hrun).1⟩
    simp only [starts, Bool.and_eq_true, decide_eq_true_eq] at hc
    exact hc.2

end Words

/-! ## The last word -/

section Last

variable {m : Mode} {c : Char} {w v r rest : List Char} {out : List Piece} {ws : List (List Piece)} {sep : Sep}

def Piece.quote : Piece → Bool
  | .lit c => ShellWords.quote c
  | .active _ => false

/-- The quotes that stand for themselves in a word. -/
def quotes (out : List Piece) : ℕ := out.countP Piece.quote

/-- When a word goes on into the text, the shell may expand it, or no quote of the text stands for itself. -/
def NoQuote (r : List Char) : Prop :=
  ∀ m out rest, m ≠ .bare → run m r = some (out, rest) → (∃ c, .active c ∈ out) ∨ quotes out = 0

/-- In `bare`, one quote at least goes lost before the word leaves it. -/
def Mode.debt : Mode → ℕ
  | .bare => 1
  | _ => 0

theorem step_quotes (m : Mode) (c : Char) : quotes (m.step c).1 + (m.step c).2.credit + m.debt ≤
    (if quote c = true then 1 else 0) + m.credit + (m.step c).2.debt := by
  by_cases h₁ : c = '\''
  · subst h₁
    cases m <;> decide
  · by_cases h₂ : c = '"'
    · subst h₂
      cases m <;> decide
    · by_cases h₃ : c = '\\'
      · subst h₃
        cases m <;> decide
      · have hq : quote c = false := quote_eq_false.2 ⟨h₁, h₂, h₃⟩
        have hback : quote '\\' = true := by decide
        cases m <;> simp only [Mode.step, h₁, h₂, h₃, if_false] <;> split_ifs <;>
          simp [quotes, Piece.quote, hq, hback, Mode.credit, Mode.debt]

/-- A word that starts inside a text with a blank after it is not longer than the text; or it goes on after it, and the
quotes that stand for themselves before are among those of the text. -/
theorem run_past (hr : r.head? = some ' ') (h : run m (w ++ r) = some (out, rest)) :
    out.length ≤ w.length + m.credit ∨ ∃ m' o₁ o₂, m' ≠ .bare ∧ out = o₁ ++ o₂ ∧ run m' r = some (o₂, rest) ∧
      quotes o₁ + m.debt ≤ w.countP quote + m.credit := by
  induction w generalizing m out rest with
  | nil =>
    by_cases hm : m = .bare
    · subst hm
      obtain ⟨r', rfl⟩ := List.head?_eq_some_iff.1 hr
      rw [List.nil_append, run, if_pos ⟨rfl, by decide⟩] at h
      obtain ⟨rfl, -⟩ := Prod.mk.inj (Option.some.inj h)
      exact .inl (Nat.zero_le _)
    · refine .inr ⟨m, [], out, hm, rfl, h, ?_⟩
      cases m <;> first | exact absurd rfl hm | decide
  | cons d w ih =>
    rw [List.cons_append, run] at h
    split_ifs at h with hd
    · obtain ⟨rfl, -⟩ := Prod.mk.inj (Option.some.inj h)
      exact .inl (Nat.zero_le _)
    · obtain ⟨⟨out', rest'⟩, hrun, he⟩ := Option.map_eq_some_iff.1 h
      obtain ⟨rfl, rfl⟩ := Prod.mk.inj he
      rcases ih hrun with hl | ⟨m', o₁, o₂, hm', rfl, hrest, hq⟩
      · left
        have hlen := step_length m d
        simp only [List.length_append, List.length_cons]
        omega
      · have hstep := step_quotes m d
        refine .inr ⟨m', (m.step d).1 ++ o₁, o₂, hm', (List.append_assoc ..).symm, hrest, ?_⟩
        have happ : quotes ((m.step d).1 ++ o₁) = quotes (m.step d).1 + quotes o₁ := List.countP_append
        rw [happ, List.countP_cons]
        omega

/-- What comes to stand in the place of the last word of a command is not longer than the text, or has fewer quotes. -/
theorem reads_last (hr : NoQuote (' ' :: '&' :: '&' :: r))
    (h : Reads (w ++ ' ' :: '&' :: '&' :: r) (lits v :: ws) sep rest) :
    v.length ≤ w.length ∨ v.countP quote < w.countP quote := by
  induction w with
  | nil =>
    rw [List.nil_append, reads_blank (.inl rfl), reads_and] at h
    cases h.1
  | cons c w ih =>
    rw [List.cons_append] at h
    by_cases hb : c = ' ' ∨ c = '\t'
    · rw [reads_blank hb] at h
      have hq : quote c = false := by rcases hb with rfl | rfl <;> decide
      rw [List.countP_cons_of_neg (by simp [hq]), List.length_cons]
      have := ih h
      omega
    · rw [reads_word (starts_of_reads h (not_or.1 hb))] at h
      obtain ⟨p, ws', rest', hword, he, -⟩ := h
      obtain ⟨rfl, rfl⟩ := List.cons.inj he
      obtain ⟨-, hrun⟩ := word_lits hword ⟨_, rfl⟩
      rw [← List.cons_append] at hrun
      rcases run_past rfl hrun with hl | ⟨m', o₁, o₂, hm', hout, hrest, hq⟩
      · left
        simpa [lits, Mode.credit] using hl
      · right
        have hlits : ∀ c, .active c ∉ lits v := by simp [lits]
        have hzero : quotes o₂ = 0 := by
          rcases hr m' o₂ _ hm' hrest with ⟨c, hc⟩ | hzero
          · exact absurd (hout ▸ List.mem_append_right _ hc) (hlits c)
          · exact hzero
        have hcount : quotes (lits v) = v.countP quote := List.countP_map
        have happ : quotes (o₁ ++ o₂) = quotes o₁ + quotes o₂ := List.countP_append
        rw [← hcount, hout, happ, hzero]
        exact hq

/-- **The last word is read as written only if it is plain**, also when blanks come first. -/
theorem plain_of_reads_last (hr : NoQuote (' ' :: '&' :: '&' :: r))
    (h : Reads (w ++ ' ' :: '&' :: '&' :: r) (lits w :: ws) sep rest) : Plain w := by
  cases w with
  | nil =>
    rw [List.nil_append, reads_blank (.inl rfl), reads_and] at h
    cases h.1
  | cons c w =>
    by_cases hb : c = ' ' ∨ c = '\t'
    · rw [List.cons_append, reads_blank hb] at h
      have hq : quote c = false := by rcases hb with rfl | rfl <;> decide
      have hlast := reads_last hr h
      rw [List.countP_cons_of_neg (by simp [hq]), List.length_cons] at hlast
      omega
    · exact plain_of_reads h (by simpa using not_or.1 hb)

/-- Between `'` and `'` all is taken as it is. -/
theorem run_single (hw : '\'' ∉ w) (t : List Char) :
    run .single (w ++ '\'' :: t) = (run .bare t).map fun x => (lits w ++ x.1, x.2) := by
  induction w with
  | nil => rfl
  | cons c w ih =>
    obtain ⟨hc, hw⟩ := not_or.1 (List.mem_cons.not.1 hw)
    have hstep : Mode.single.step c = ([.lit c], .single) := by simp [Mode.step, Ne.symm hc]
    rw [List.cons_append, run, if_neg (by simp), hstep, ih hw, Option.map_map]
    rfl

/-- Between `"` and `"` a dollar sign is not. -/
theorem run_double (hw : ∀ c ∈ w, quote c = false) (hd : '$' ∈ w) {t : List Char}
    (h : run .double (w ++ t) = some (out, rest)) : ∃ c, .active c ∈ out := by
  induction w generalizing out rest with
  | nil => cases hd
  | cons c w ih =>
    obtain ⟨-, hc₂, hc₃⟩ := quote_eq_false.1 (hw c List.mem_cons_self)
    rw [List.cons_append, run, if_neg (by simp)] at h
    obtain ⟨⟨out', rest'⟩, hrun, he⟩ := Option.map_eq_some_iff.1 h
    obtain ⟨rfl, -⟩ := Prod.mk.inj he
    by_cases hdc : c = '$'
    · subst hdc
      exact ⟨'$', List.mem_append_left _ (by decide)⟩
    · have hstep : (Mode.double.step c).2 = .double := by
        simp only [Mode.step, hc₂, hc₃, if_false]
        split_ifs <;> rfl
      rw [hstep] at hrun
      have hd' : '$' ∈ w := (List.mem_cons.1 hd).resolve_left fun he => hdc he.symm
      obtain ⟨d, hout⟩ := ih (fun x hx => hw x (List.mem_cons_of_mem _ hx)) hd' hrun
      exact ⟨d, List.mem_append_right _ hout⟩

theorem quotes_lits (hw : ∀ c ∈ w, quote c = false) : quotes (lits w) = 0 := by
  have hcount : quotes (lits w) = w.countP quote := List.countP_map
  rw [hcount]
  exact List.countP_eq_zero.2 fun c hc => by simp [hw c hc]

/-- A text with a `$` before its first quote, which is a `'` that is followed by the end of a word. -/
theorem quiet_of_single {a e : Char} {q t : List Char} (ha : ends a = true) (hw : ∀ c ∈ w, quote c = false) (hd : '$' ∈ w)
    (hq : ∀ c ∈ q, plainChar c = true) (he : ends e = true) : NoQuote (' ' :: a :: w ++ '\'' :: (q ++ e :: t)) := by
  have hnot : ∀ d, ends d = true → quote d = false := by
    intro d hd
    refine quote_eq_false.2 ⟨?_, ?_, ?_⟩ <;> rintro rfl <;> exact absurd hd (by decide)
  have hall : ∀ c ∈ ' ' :: a :: w, quote c = false := by
    intro c hc
    rcases List.mem_cons.1 hc with rfl | hc
    · decide
    · rcases List.mem_cons.1 hc with rfl | hc
      · exact hnot _ ha
      · exact hw c hc
  have hdollar : ∀ {out rest}, run .double (a :: w ++ '\'' :: (q ++ e :: t)) = some (out, rest) → ∃ c, .active c ∈ out :=
    fun h => run_double (fun c hc => hall c (List.mem_cons_of_mem _ hc)) (List.mem_cons_of_mem _ hd) h
  intro m out rest hm h
  cases m with
  | bare => exact absurd rfl hm
  | escaped =>
    right
    rw [List.cons_append, run, if_neg (by simp)] at h
    obtain ⟨⟨out', rest'⟩, hrun, heq⟩ := Option.map_eq_some_iff.1 h
    obtain ⟨rfl, -⟩ := Prod.mk.inj heq
    have hbare : (Mode.escaped.step ' ').2 = .bare := rfl
    rw [hbare, List.cons_append, run, if_pos ⟨rfl, ha⟩] at hrun
    obtain ⟨rfl, -⟩ := Prod.mk.inj (Option.some.inj hrun)
    rfl
  | single =>
    right
    have hno : '\'' ∉ ' ' :: a :: w := fun hc => absurd (hall _ hc) (by decide)
    rw [run_single hno, run_plains hq he] at h
    obtain ⟨rfl, -⟩ := Prod.mk.inj (Option.some.inj h)
    have happ : quotes (lits (' ' :: a :: w) ++ lits q) = quotes (lits (' ' :: a :: w)) + quotes (lits q) :=
      List.countP_append
    rw [happ, quotes_lits hall, quotes_lits fun c hc => (plainChar_iff.1 (hq c hc)).2.2]
  | double => exact .inl (run_double hall (List.mem_cons_of_mem _ (List.mem_cons_of_mem _ hd)) h)
  | doubleEscaped =>
    left
    rw [List.cons_append, run, if_neg (by simp)] at h
    obtain ⟨⟨out', rest'⟩, hrun, heq⟩ := Option.map_eq_some_iff.1 h
    obtain ⟨rfl, -⟩ := Prod.mk.inj heq
    obtain ⟨c, hc⟩ := hdollar hrun
    exact ⟨c, List.mem_append_right _ hc⟩

end Last

end ShellWords
