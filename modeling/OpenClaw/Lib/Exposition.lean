import Mathlib

/-!
# The text exposition format

A page of metrics is a list of lines: the help and the type of a metric, and samples of its series. Values are integers
here, and a reader ignores a timestamp.

- `pageText`: a page as text, with what is escaped in help texts and labels as a parameter.
- `readPage`: a reader of such a text; `readPage_pageText`: it reads every page as it was written with escapes.
- `pageText_raw`: a page written without escapes is the same text exactly when it needs none.
- `Family`: a metric with its samples; `valueOf_families`: what a reader finds for a series.
-/

namespace Exposition

/-- A name and the text it has. -/
abbrev Label := List Char × List Char

/-- A series, given by its name and labels, and its value. -/
structure Sample where
  name : List Char
  labels : List Label := []
  value : Int
deriving DecidableEq

/-- What a sample belongs to. -/
abbrev Sample.series (s : Sample) : List Char × List Label := (s.name, s.labels)

inductive Line
  | help (name doc : List Char)
  | type (name kind : List Char)
  | sample (s : Sample)
deriving DecidableEq

/-! ## Writing -/

/-- A character of a text; quotes are escaped only in labels. -/
def escapeChar (quoted : Bool) (c : Char) : List Char :=
  if c = '\n' then ['\\', 'n']
  else if c = '\\' then ['\\', '\\']
  else if quoted && c = '"' then ['\\', '"']
  else [c]

def escape (quoted : Bool) (v : List Char) : List Char := v.flatMap (escapeChar quoted)

/-! A writer is given what it does to a help text (`false`) and to a label (`true`). -/

variable (e : Bool → List Char → List Char)

def labelText (l : Label) : List Char := l.1 ++ '=' :: '"' :: (e true l.2 ++ ['"'])

/-- The labels after the first, and the closing brace. -/
def moreLabels (ls : List Label) : List Char := ls.flatMap (fun l => ',' :: labelText e l) ++ ['}']

def labelsText : List Label → List Char
  | [] => []
  | l :: ls => '{' :: (labelText e l ++ moreLabels e ls)

def decimal (n : Int) : List Char := n.repr.toList

def lineText : Line → List Char
  | .help name doc => ['#', ' ', 'H', 'E', 'L', 'P', ' '] ++ (name ++ ' ' :: e false doc)
  | .type name kind => ['#', ' ', 'T', 'Y', 'P', 'E', ' '] ++ (name ++ ' ' :: kind)
  | .sample s => s.name ++ (labelsText e s.labels ++ ' ' :: decimal s.value)

/-- The text of a page; every line ends with a newline. -/
def pageText (ls : List Line) : List Char := ls.flatMap fun l => lineText e l ++ ['\n']

/-- A writer that escapes nothing. -/
def raw (_ : Bool) (v : List Char) : List Char := v

/-! ## Reading -/

def blank (c : Char) : Bool := c = ' ' || c = '\t'

def inWord (c : Char) : Bool := !blank c

def nameChar (c : Char) : Bool := c.isAlphanum || c = '_' || c = ':'

/-- A name of a metric or a label; a label's may have no colon, which does not matter here. -/
def IsName (n : List Char) : Prop := n.all nameChar = true ∧ n.head?.any (fun c => !c.isDigit) = true

instance (n : List Char) : Decidable (IsName n) := inferInstanceAs (Decidable (_ ∧ _))

def kinds : List (List Char) :=
  ["counter".toList, "gauge".toList, "histogram".toList, "summary".toList, "untyped".toList]

def skip (l : List Char) : List Char := l.dropWhile blank

/-- A help text as it was before `escape false`. -/
def unescape : List Char → List Char
  | '\\' :: '\\' :: l => '\\' :: unescape l
  | '\\' :: 'n' :: l => '\n' :: unescape l
  | c :: l => c :: unescape l
  | [] => []

/-- The text of a label up to its closing quote, and what comes after that; an escape must be one of the three. -/
def readQuoted : List Char → Option (List Char × List Char)
  | [] => none
  | '"' :: l => some ([], l)
  | '\\' :: 'n' :: l => (readQuoted l).map (Prod.map ('\n' :: ·) id)
  | '\\' :: '\\' :: l => (readQuoted l).map (Prod.map ('\\' :: ·) id)
  | '\\' :: '"' :: l => (readQuoted l).map (Prod.map ('"' :: ·) id)
  | '\\' :: _ => none
  | c :: l => (readQuoted l).map (Prod.map (c :: ·) id)

/-- `name="text"` and what comes after it. -/
def readLabel (l : List Char) : Option (Label × List Char) :=
  match skip (l.dropWhile nameChar) with
  | '=' :: r =>
    match skip r with
    | '"' :: r =>
      if IsName (l.takeWhile nameChar) then (readQuoted r).map (Prod.map (l.takeWhile nameChar, ·) id) else none
    | _ => none
  | _ => none

/-- The labels up to the closing brace, with a bound on their number; a comma may come before the brace. -/
def readLabels : ℕ → List Char → Option (List Label × List Char)
  | 0, _ => none
  | n + 1, l =>
    match skip l with
    | '}' :: r => some ([], r)
    | l => do
      let x ← readLabel l
      match skip x.2 with
      | ',' :: r => (readLabels n r).map (Prod.map (x.1 :: ·) id)
      | '}' :: r => some ([x.1], r)
      | _ => none

/-- The braces of a sample, if it has any. -/
def readBraces (l : List Char) : Option (List Label × List Char) :=
  match l with
  | '{' :: r => readLabels r.length r
  | _ => some ([], l)

/-- A number up to a blank or the end. -/
def readNumber (l : List Char) : Option Int := (String.ofList (l.takeWhile inWord)).toInt?

/-- The value of a sample, and perhaps a timestamp. -/
def readValue (l : List Char) : Option Int :=
  let rest := skip (l.dropWhile inWord)
  if rest = [] ∨ ((readNumber rest).isSome ∧ skip (rest.dropWhile inWord) = []) then readNumber l else none

def readSample (l : List Char) : Option Sample :=
  if IsName (l.takeWhile nameChar) then do
    let x ← readBraces (skip (l.dropWhile nameChar))
    let v ← readValue (skip x.2)
    some ⟨l.takeWhile nameChar, x.1, v⟩
  else none

/-- What comes after `#`: a line of the two kinds, or a comment. -/
def readComment (l : List Char) : Option (Option Line) :=
  let word := (skip l).takeWhile inWord
  let r := skip ((skip l).dropWhile inWord)
  let name := r.takeWhile inWord
  let text := skip (r.dropWhile inWord)
  if word = ['H', 'E', 'L', 'P'] then
    if IsName name then some (some (.help name (unescape text))) else none
  else if word = ['T', 'Y', 'P', 'E'] then
    if IsName name ∧ text ∈ kinds then some (some (.type name text)) else none
  else some none

/-- A line of a page; an empty line and a comment say nothing. -/
def readLine (l : List Char) : Option (Option Line) :=
  match skip l with
  | [] => some none
  | '#' :: r => readComment r
  | l => (readSample l).map fun s => some (.sample s)

/-- The lines of a page that say something; `none` when one of them cannot be read. -/
def readPage (l : List Char) : Option (List Line) := ((l.splitOn '\n').mapM readLine).map List.reduceOption

/-! ## Texts -/

theorem escape_nil (quoted : Bool) : escape quoted [] = [] := rfl

theorem escape_cons (quoted : Bool) (c : Char) (v : List Char) :
    escape quoted (c :: v) = escapeChar quoted c ++ escape quoted v := rfl

theorem newline_not_escape (quoted : Bool) (v : List Char) : '\n' ∉ escape quoted v := by
  intro h
  obtain ⟨c, -, hc⟩ := List.mem_flatMap.1 h
  unfold escapeChar at hc
  split_ifs at hc with hn
  · simp at hc
  · simp at hc
  · simp at hc
  · exact hn (List.mem_singleton.1 hc).symm

/-- Every character of the text stands for itself. -/
def Plain (quoted : Bool) (v : List Char) : Prop := '\n' ∉ v ∧ '\\' ∉ v ∧ (quoted = true → '"' ∉ v)

instance (quoted : Bool) (v : List Char) : Decidable (Plain quoted v) := inferInstanceAs (Decidable (_ ∧ _ ∧ (_ → _)))

theorem plain_cons {quoted : Bool} {c : Char} {v : List Char} :
    Plain quoted (c :: v) ↔ escapeChar quoted c = [c] ∧ Plain quoted v := by
  have hchar : escapeChar quoted c = [c] ↔ c ≠ '\n' ∧ c ≠ '\\' ∧ (quoted = true → c ≠ '"') := by
    unfold escapeChar
    by_cases hn : c = '\n'
    · simp [hn]
    · by_cases hb : c = '\\'
      · simp [hb]
      · by_cases hq : c = '"' <;> cases quoted <;> simp [hn, hb, hq]
  rw [hchar]
  simp only [Plain, List.mem_cons, not_or, ne_eq, eq_comm]
  tauto

theorem length_escapeChar (quoted : Bool) (c : Char) :
    escapeChar quoted c = [c] ∨ (escapeChar quoted c).length = 2 := by
  unfold escapeChar
  split_ifs
  · exact .inr rfl
  · exact .inr rfl
  · exact .inr rfl
  · exact .inl rfl

/-- Escaping makes a text no shorter, -/
theorem length_le_escape (quoted : Bool) (v : List Char) : v.length ≤ (escape quoted v).length := by
  induction v with
  | nil => exact le_refl _
  | cons c v ih =>
    rw [escape_cons, List.length_append, List.length_cons]
    rcases length_escapeChar quoted c with hc | hc
    · rw [hc, List.length_singleton]
      omega
    · omega

/-- and longer unless it is plain. -/
theorem plain_of_length {quoted : Bool} {v : List Char} (h : (escape quoted v).length ≤ v.length) : Plain quoted v := by
  induction v with
  | nil => exact ⟨List.not_mem_nil, List.not_mem_nil, fun _ => List.not_mem_nil⟩
  | cons c v ih =>
    rw [escape_cons, List.length_append, List.length_cons] at h
    have hv := length_le_escape quoted v
    rcases length_escapeChar quoted c with hc | hc
    · rw [hc, List.length_singleton] at h
      exact plain_cons.2 ⟨hc, ih (by omega)⟩
    · omega

theorem escape_of_plain {quoted : Bool} {v : List Char} (h : Plain quoted v) : escape quoted v = v := by
  induction v with
  | nil => rfl
  | cons c v ih =>
    obtain ⟨hc, hv⟩ := plain_cons.1 h
    rw [escape_cons, hc, ih hv]
    rfl

/-- A help text comes back. -/
theorem unescape_escape (v : List Char) : unescape (escape false v) = v := by
  induction v with
  | nil => rfl
  | cons c v ih =>
    rw [escape_cons]
    by_cases hn : c = '\n'
    · subst hn
      simp [escapeChar, unescape, ih]
    · by_cases hb : c = '\\'
      · subst hb
        simp [escapeChar, unescape, ih]
      · simp [escapeChar, hn, hb, unescape, ih]

/-- A label comes back, up to its quote. -/
theorem readQuoted_escape (v r : List Char) : readQuoted (escape true v ++ '"' :: r) = some (v, r) := by
  induction v with
  | nil => simp [escape_nil, readQuoted]
  | cons c v ih =>
    rw [escape_cons, List.append_assoc]
    by_cases hn : c = '\n'
    · subst hn
      simp [escapeChar, readQuoted, ih]
    · by_cases hb : c = '\\'
      · subst hb
        simp [escapeChar, readQuoted, ih]
      · by_cases hq : c = '"'
        · subst hq
          simp [escapeChar, readQuoted, ih]
        · simp [escapeChar, hn, hb, hq, readQuoted, ih]

/-! ## Names and numbers -/

theorem skip_cons {c : Char} {l : List Char} (hc : blank c = false) : skip (c :: l) = c :: l :=
  List.dropWhile_cons_of_neg (by simp [hc])

@[simp] theorem skip_blank (l : List Char) : skip (' ' :: l) = skip l := List.dropWhile_cons_of_pos (by decide)

theorem not_blank_of_nameChar {c : Char} (h : nameChar c = true) : blank c = false := by
  unfold blank
  simp only [Bool.or_eq_false_iff, decide_eq_false_iff_not]
  constructor <;> (rintro rfl; revert h; decide)

/-- A text up to the first character that is none of its kind. -/
theorem takeWhile_stop {p : Char → Bool} {a b : List Char} {c : Char} (ha : ∀ x ∈ a, p x = true) (hc : p c = false) :
    (a ++ c :: b).takeWhile p = a := by
  rw [List.takeWhile_append_of_pos ha, List.takeWhile_cons_of_neg (by simp [hc]), List.append_nil]

theorem dropWhile_stop {p : Char → Bool} {a b : List Char} {c : Char} (ha : ∀ x ∈ a, p x = true) (hc : p c = false) :
    (a ++ c :: b).dropWhile p = c :: b := by
  rw [List.dropWhile_append_of_pos ha, List.dropWhile_cons_of_neg (by simp [hc])]

theorem IsName.chars {n : List Char} (h : IsName n) : ∀ c ∈ n, nameChar c = true := List.all_eq_true.1 h.1

theorem IsName.cons {n : List Char} (h : IsName n) : ∃ c n', n = c :: n' ∧ nameChar c = true := by
  cases n with
  | nil => cases h.2
  | cons c n => exact ⟨c, n, rfl, h.chars c List.mem_cons_self⟩

/-- No blank comes before a name. -/
theorem IsName.skip {n : List Char} (h : IsName n) (r : List Char) : skip (n ++ r) = n ++ r := by
  obtain ⟨c, n', rfl, hc⟩ := h.cons
  exact skip_cons (not_blank_of_nameChar hc)

theorem IsName.word {n : List Char} (h : IsName n) : ∀ c ∈ n, inWord c = true := by
  intro c hc
  rw [inWord, not_blank_of_nameChar (h.chars c hc)]
  rfl

theorem IsName.not_mem {n : List Char} (h : IsName n) {c : Char} (hc : nameChar c = false) : c ∉ n :=
  fun hm => absurd (h.chars c hm) (by simp [hc])

theorem decimal_chars {n : Int} {c : Char} (h : c ∈ decimal n) : c.isDigit = true ∨ c = '-' := by
  have hnat : ∀ m : ℕ, c ∈ m.repr.toList → c.isDigit = true := by
    intro m hm
    rw [Nat.toList_repr] at hm
    exact Nat.isDigit_of_mem_toDigits (by decide) (by decide) hm
  unfold decimal at h
  rw [Int.repr_eq_if] at h
  split at h
  · exact .inl (hnat _ h)
  · rw [String.toList_append, List.mem_append] at h
    rcases h with h | h
    · exact .inr (List.mem_singleton.1 h)
    · exact .inl (hnat _ h)

theorem decimal_word {n : Int} : ∀ c ∈ decimal n, inWord c = true := by
  intro c hc
  have hb : blank c = false := by
    unfold blank
    simp only [Bool.or_eq_false_iff, decide_eq_false_iff_not]
    constructor <;> (rintro rfl; exact absurd (decimal_chars hc) (by decide))
  rw [inWord, hb]
  rfl

/-- A value comes back. -/
theorem readValue_decimal (n : Int) : readValue (decimal n) = some n := by
  have hrest : (decimal n).dropWhile inWord = [] := List.dropWhile_eq_nil_iff.2 decimal_word
  have hword : (decimal n).takeWhile inWord = decimal n := List.takeWhile_eq_self_iff.2 decimal_word
  unfold readValue readNumber
  rw [hrest, hword, if_pos (.inl rfl), decimal, String.ofList_toList, Int.toInt?_repr]

theorem skip_decimal (n : Int) : skip (decimal n) = decimal n := by
  have hword := decimal_word (n := n)
  cases h : decimal n with
  | nil => rfl
  | cons c l =>
    rw [h] at hword
    exact skip_cons (by simpa [inWord] using hword c List.mem_cons_self)

/-! ## Labels -/

/-- A label comes back. -/
theorem readLabel_text {l : Label} (h : IsName l.1) (r : List Char) :
    readLabel (labelText escape l ++ r) = some (l, r) := by
  have hequal : nameChar '=' = false := by decide
  unfold readLabel labelText
  rw [List.append_assoc, List.cons_append, dropWhile_stop h.chars hequal, takeWhile_stop h.chars hequal,
    skip_cons (by decide)]
  simp only [List.cons_append, List.append_assoc]
  rw [skip_cons (by decide)]
  simp only [List.nil_append]
  rw [if_pos h, readQuoted_escape]
  rfl

/-- The next label is read first. -/
theorem readLabels_succ {l : Label} (h : IsName l.1) (n : ℕ) (r : List Char) :
    readLabels (n + 1) (labelText escape l ++ r) = match skip r with
      | ',' :: r => (readLabels n r).map (Prod.map (l :: ·) id)
      | '}' :: r => some ([l], r)
      | _ => none := by
  obtain ⟨c, m, hc, hname⟩ := h.cons
  have hcons : labelText escape l ++ r = c :: (m ++ ('=' :: '"' :: (escape true l.2 ++ ['"']) ++ r)) := by
    unfold labelText
    rw [List.append_assoc, hc]
    rfl
  have hbrace : c ≠ '}' := by
    rintro rfl
    exact absurd hname (by decide)
  rw [readLabels, hcons, skip_cons (not_blank_of_nameChar hname)]
  split
  · exact absurd (List.cons.inj ‹_›).1 hbrace
  · rw [← hcons, readLabel_text h]
    rfl

/-- The labels come back. -/
theorem readLabels_text {l : Label} {ls : List Label} {n : ℕ} (hn : ls.length ≤ n) (h : ∀ x ∈ l :: ls, IsName x.1)
    (r : List Char) : readLabels (n + 1) (labelText escape l ++ (moreLabels escape ls ++ r)) = some (l :: ls, r) := by
  rw [readLabels_succ (h l List.mem_cons_self)]
  induction ls generalizing l n with
  | nil =>
    simp only [moreLabels, List.flatMap_nil, List.nil_append, List.cons_append]
    rw [skip_cons (by decide)]
    rfl
  | cons l' ls ih =>
    have hrest : ∀ x ∈ l' :: ls, IsName x.1 := fun x hx => h x (List.mem_cons_of_mem _ hx)
    have hmore : moreLabels escape (l' :: ls) ++ r = ',' :: (labelText escape l' ++ (moreLabels escape ls ++ r)) := by
      simp [moreLabels]
    obtain ⟨m, rfl⟩ := Nat.exists_eq_add_of_lt hn
    rw [hmore, skip_cons (by decide)]
    simp only
    rw [readLabels_succ (hrest l' List.mem_cons_self), ih (Nat.le_add_right _ _) hrest]
    rfl

theorem length_lt_moreLabels (ls : List Label) : ls.length < (moreLabels escape ls).length := by
  induction ls with
  | nil => simp [moreLabels]
  | cons l ls ih =>
    have hmore : moreLabels escape (l :: ls) = ',' :: (labelText escape l ++ moreLabels escape ls) := by
      simp [moreLabels]
    rw [hmore, List.length_cons, List.length_cons, List.length_append]
    omega

/-- The braces come back, and the value comes next. -/
theorem readBraces_text {ls : List Label} (h : ∀ l ∈ ls, IsName l.1) (n : Int) :
    ∃ r, readBraces (skip (labelsText escape ls ++ ' ' :: decimal n)) = some (ls, r) ∧ skip r = decimal n := by
  cases ls with
  | nil =>
    refine ⟨decimal n, ?_, skip_decimal n⟩
    simp only [labelsText, List.nil_append, skip_blank]
    rw [skip_decimal, readBraces]
    intro r hr
    have hmem : '{' ∈ decimal n := hr ▸ List.mem_cons_self
    exact absurd (decimal_chars hmem) (by decide)
  | cons l ls =>
    refine ⟨' ' :: decimal n, ?_, by rw [skip_blank, skip_decimal]⟩
    simp only [labelsText, List.cons_append, List.append_assoc]
    rw [skip_cons (by decide)]
    have hbound : ls.length < (labelText escape l ++ (moreLabels escape ls ++ ' ' :: decimal n)).length := by
      have hlt := length_lt_moreLabels ls
      simp only [List.length_append, List.length_cons]
      omega
    obtain ⟨m, hm⟩ := Nat.exists_eq_add_of_lt hbound
    simp only [readBraces]
    rw [hm, readLabels_text (Nat.le_add_right _ _) h]

/-! ## Lines and pages -/

/-- Names are names, a type is one of the five, and a help text starts with no blank. -/
def Line.Good : Line → Prop
  | .help name doc => IsName name ∧ skip doc = doc
  | .type name kind => IsName name ∧ kind ∈ kinds
  | .sample s => IsName s.name ∧ ∀ l ∈ s.labels, IsName l.1

theorem kinds_word : ∀ k ∈ kinds, skip k = k ∧ '\n' ∉ k := by
  decide +kernel

/-- A name ends before the labels and before the value. -/
theorem labelsText_stop (ls : List Label) (r : List Char) :
    ∃ c l, labelsText escape ls ++ ' ' :: r = c :: l ∧ nameChar c = false := by
  cases ls with
  | nil => exact ⟨' ', r, rfl, by decide⟩
  | cons l ls => exact ⟨'{', _, rfl, by decide⟩

/-- A sample comes back. -/
theorem readSample_text {s : Sample} (h : (Line.sample s).Good) :
    readSample (lineText escape (.sample s)) = some s := by
  obtain ⟨hname, hlabels⟩ := h
  obtain ⟨c, l, hc, hstop⟩ := labelsText_stop s.labels (decimal s.value)
  obtain ⟨r, hbraces, hr⟩ := readBraces_text hlabels s.value
  unfold readSample
  rw [lineText, hc, takeWhile_stop hname.chars hstop, dropWhile_stop hname.chars hstop, if_pos hname, ← hc, hbraces]
  simp only [Option.bind_eq_bind, Option.bind_some]
  rw [hr, readValue_decimal]
  rfl

theorem skip_escape {doc : List Char} (h : skip doc = doc) : skip (escape false doc) = escape false doc := by
  cases doc with
  | nil => rfl
  | cons c doc =>
    have hc : blank c = false := by
      by_contra hb
      have hlen := congrArg List.length h
      rw [skip, List.dropWhile_cons_of_pos (by simpa using hb), List.length_cons] at hlen
      have hle := (List.dropWhile_sublist blank (l := doc)).length_le
      omega
    rw [escape_cons]
    unfold escapeChar
    split_ifs
    · exact skip_cons (by decide)
    · exact skip_cons (by decide)
    · exact skip_cons (by decide)
    · exact skip_cons hc

/-- The parts of a comment. -/
theorem readComment_parts {w name text : List Char} (hw : IsName w) (hn : IsName name) (ht : skip text = text) :
    readComment (' ' :: (w ++ ' ' :: (name ++ ' ' :: text))) =
      if w = ['H', 'E', 'L', 'P'] then some (some (.help name (unescape text)))
      else if w = ['T', 'Y', 'P', 'E'] then if text ∈ kinds then some (some (.type name text)) else none
      else some none := by
  have hblank : inWord ' ' = false := by decide
  simp only [readComment, skip_blank, hw.skip, hn.skip, takeWhile_stop hw.word hblank, dropWhile_stop hw.word hblank,
    takeWhile_stop hn.word hblank, dropWhile_stop hn.word hblank, ht, hn, if_true, true_and]

theorem readLine_comment (l : List Char) : readLine ('#' :: l) = readComment l := by
  rw [readLine, skip_cons (by decide)]
  rfl

theorem isName_help : IsName ['H', 'E', 'L', 'P'] := by decide

theorem isName_type : IsName ['T', 'Y', 'P', 'E'] := by decide

/-- **A line is read as it was written.** -/
theorem readLine_text {l : Line} (h : l.Good) : readLine (lineText escape l) = some (some l) := by
  cases l with
  | help name doc =>
    have hcomment := readComment_parts isName_help h.1 (skip_escape h.2)
    rw [if_pos rfl, unescape_escape] at hcomment
    rw [lineText, List.cons_append, readLine_comment]
    exact hcomment
  | type name kind =>
    have hcomment := readComment_parts isName_type h.1 (kinds_word kind h.2).1
    rw [if_neg (by decide), if_pos rfl, if_pos h.2] at hcomment
    rw [lineText, List.cons_append, readLine_comment]
    exact hcomment
  | sample s =>
    obtain ⟨c, n, hc, hchar⟩ := h.1.cons
    have hread := readSample_text h
    have hhash : c ≠ '#' := by
      rintro rfl
      exact absurd hchar (by decide)
    simp only [lineText, hc, List.cons_append] at hread ⊢
    rw [readLine, skip_cons (not_blank_of_nameChar hchar)]
    split
    · exact absurd ‹_› (List.cons_ne_nil _ _)
    · exact absurd (List.cons.inj ‹_›).1 hhash
    · rw [hread]
      rfl

theorem newline_not_labelText {l : Label} (h : IsName l.1) : '\n' ∉ labelText escape l := by
  have hname := h.not_mem (c := '\n') (by decide)
  have htext := newline_not_escape true l.2
  simp [labelText, hname, htext]

theorem newline_not_labelsText {ls : List Label} (h : ∀ l ∈ ls, IsName l.1) : '\n' ∉ labelsText escape ls := by
  cases ls with
  | nil => exact List.not_mem_nil
  | cons l ls =>
    have hmore : '\n' ∉ moreLabels escape ls := by
      simp only [moreLabels, List.mem_append, List.mem_flatMap, List.mem_cons, not_or, not_exists, not_and]
      exact ⟨fun x hx => ⟨by decide, newline_not_labelText (h x (List.mem_cons_of_mem _ hx))⟩, by decide⟩
    simp [labelsText, newline_not_labelText (h l List.mem_cons_self), hmore]

theorem newline_not_text {l : Line} (h : l.Good) : '\n' ∉ lineText escape l := by
  cases l with
  | help name doc => simp [lineText, h.1.not_mem (c := '\n') (by decide), newline_not_escape false doc]
  | type name kind => simp [lineText, h.1.not_mem (c := '\n') (by decide), (kinds_word kind h.2).2]
  | sample s =>
    have hvalue : '\n' ∉ decimal s.value := fun hm => absurd (decimal_chars hm) (by decide)
    simp [lineText, h.1.not_mem (c := '\n') (by decide), newline_not_labelsText h.2, hvalue]

/-- **A page is read as it was written.** -/
theorem readPage_pageText {ls : List Line} (h : ∀ l ∈ ls, l.Good) : readPage (pageText escape ls) = some ls := by
  have hread : ((pageText escape ls).splitOn '\n').mapM readLine = some (ls.map some ++ [none]) := by
    induction ls with
    | nil => rfl
    | cons l ls ih =>
      have hpage : pageText escape (l :: ls) = lineText escape l ++ '\n' :: pageText escape ls := by
        simp [pageText]
      rw [hpage, List.splitOn_append_cons_self_of_not_mem (newline_not_text (h l List.mem_cons_self)), List.mapM_cons,
        readLine_text (h l List.mem_cons_self), ih fun x hx => h x (List.mem_cons_of_mem _ hx)]
      rfl
  rw [readPage, hread, Option.map_some, List.reduceOption_append]
  simp [List.reduceOption]

/-! ## Writing without escapes -/

/-- No text of the line needs an escape. -/
def Line.Bare : Line → Prop
  | .help _ doc => Plain false doc
  | .type _ _ => True
  | .sample s => ∀ l ∈ s.labels, Plain true l.2

/-- The one writer's text is no longer than the other's, and it is shorter unless `p`. -/
def Shorter (a b : List Char) (p : Prop) : Prop := a.length ≤ b.length ∧ (b.length ≤ a.length → p)

theorem Shorter.append {a b a' b' : List Char} {p q : Prop} (h : Shorter a b p) (h' : Shorter a' b' q) :
    Shorter (a ++ a') (b ++ b') (p ∧ q) := by
  obtain ⟨hle, hp⟩ := h
  obtain ⟨hle', hq⟩ := h'
  refine ⟨?_, fun hlen => ⟨hp ?_, hq ?_⟩⟩ <;> simp only [List.length_append] at * <;> omega

theorem Shorter.refl (a : List Char) : Shorter a a True := ⟨le_refl _, fun _ => trivial⟩

theorem Shorter.imp {a b : List Char} {p q : Prop} (h : Shorter a b p) (hpq : p → q) : Shorter a b q :=
  ⟨h.1, fun hlen => hpq (h.2 hlen)⟩

theorem shorter_escape (quoted : Bool) (v : List Char) : Shorter (raw quoted v) (escape quoted v) (Plain quoted v) :=
  ⟨length_le_escape quoted v, plain_of_length⟩

theorem shorter_flatMap {α : Type} {f g : α → List Char} {p : α → Prop} (h : ∀ x, Shorter (f x) (g x) (p x))
    (xs : List α) : Shorter (xs.flatMap f) (xs.flatMap g) (∀ x ∈ xs, p x) := by
  induction xs with
  | nil => exact (Shorter.refl _).imp fun _ x hx => absurd hx List.not_mem_nil
  | cons x xs ih =>
    rw [List.flatMap_cons, List.flatMap_cons]
    exact ((h x).append ih).imp fun hp => List.forall_mem_cons.2 hp

theorem shorter_label (l : Label) : Shorter (labelText raw l) (labelText escape l) (Plain true l.2) := by
  have h := (Shorter.refl (l.1 ++ ['=', '"'])).append ((shorter_escape true l.2).append (Shorter.refl ['"']))
  simp only [List.append_assoc, List.cons_append, List.nil_append] at h
  exact h.imp fun hp => hp.2.1

theorem shorter_more (ls : List Label) :
    Shorter (moreLabels raw ls) (moreLabels escape ls) (∀ l ∈ ls, Plain true l.2) :=
  ((shorter_flatMap (fun l => ((Shorter.refl [',']).append (shorter_label l)).imp fun hp => hp.2) ls).append
    (Shorter.refl ['}'])).imp fun hp => hp.1

theorem shorter_labels (ls : List Label) :
    Shorter (labelsText raw ls) (labelsText escape ls) (∀ l ∈ ls, Plain true l.2) := by
  cases ls with
  | nil => exact (Shorter.refl _).imp fun _ l hl => absurd hl List.not_mem_nil
  | cons l ls =>
    exact ((Shorter.refl ['{']).append ((shorter_label l).append (shorter_more ls))).imp fun hp =>
      List.forall_mem_cons.2 hp.2

theorem shorter_line (l : Line) : Shorter (lineText raw l) (lineText escape l) l.Bare := by
  cases l with
  | help name doc =>
    have h := (Shorter.refl (['#', ' ', 'H', 'E', 'L', 'P', ' '] ++ (name ++ [' ']))).append (shorter_escape false doc)
    simp only [List.append_assoc, List.cons_append, List.nil_append] at h
    exact h.imp fun hp => hp.2
  | type name kind => exact Shorter.refl _
  | sample s =>
    exact ((Shorter.refl s.name).append ((shorter_labels s.labels).append (Shorter.refl (' ' :: decimal s.value)))).imp
      fun hp => hp.2.1

theorem labelText_of_plain {l : Label} (h : Plain true l.2) : labelText raw l = labelText escape l := by
  rw [labelText, labelText, escape_of_plain h, raw]

theorem moreLabels_of_plain {ls : List Label} (h : ∀ l ∈ ls, Plain true l.2) :
    moreLabels raw ls = moreLabels escape ls := by
  unfold moreLabels
  congr 1
  exact List.flatMap_congr fun l hl => by rw [labelText_of_plain (h l hl)]

theorem lineText_of_bare {l : Line} (h : l.Bare) : lineText raw l = lineText escape l := by
  cases l with
  | help name doc => rw [lineText, lineText, escape_of_plain h, raw]
  | type name kind => rfl
  | sample s =>
    have hlabels : labelsText raw s.labels = labelsText escape s.labels := by
      cases hs : s.labels with
      | nil => rfl
      | cons l ls =>
        have hall : ∀ x ∈ l :: ls, Plain true x.2 := hs ▸ h
        rw [labelsText, labelsText, labelText_of_plain (hall l List.mem_cons_self),
          moreLabels_of_plain fun x hx => hall x (List.mem_cons_of_mem _ hx)]
    rw [lineText, lineText, hlabels]

/-- **A page written without escapes is right** exactly when it needs none. -/
theorem pageText_raw {ls : List Line} : pageText raw ls = pageText escape ls ↔ ∀ l ∈ ls, l.Bare := by
  constructor
  · intro h
    have hshort := shorter_flatMap (fun l => ((shorter_line l).append (Shorter.refl ['\n'])).imp fun hp => hp.1) ls
    exact hshort.2 (le_of_eq (congrArg List.length h.symm))
  · intro h
    exact List.flatMap_congr fun l hl => by rw [lineText_of_bare (h l hl)]

/-! ## Metrics -/

/-- A metric with its samples. -/
structure Family where
  name : List Char
  doc : List Char
  kind : List Char
  samples : List (List Label × Int)

/-- The lines of a metric. -/
def Family.lines (f : Family) : List Line :=
  .help f.name f.doc :: .type f.name f.kind :: f.samples.map fun x => .sample ⟨f.name, x.1, x.2⟩

def families (fs : List Family) : List Line := fs.flatMap Family.lines

def Family.Good (f : Family) : Prop :=
  IsName f.name ∧ skip f.doc = f.doc ∧ f.kind ∈ kinds ∧ ∀ x ∈ f.samples, ∀ l ∈ x.1, IsName l.1

theorem families_good {fs : List Family} (h : ∀ f ∈ fs, f.Good) : ∀ l ∈ families fs, l.Good := by
  intro l hl
  obtain ⟨f, hf, hl⟩ := List.mem_flatMap.1 hl
  obtain ⟨hname, hdoc, hkind, hsamples⟩ := h f hf
  rcases List.mem_cons.1 hl with rfl | hl
  · exact ⟨hname, hdoc⟩
  · rcases List.mem_cons.1 hl with rfl | hl
    · exact ⟨hname, hkind⟩
    · obtain ⟨x, hx, rfl⟩ := List.mem_map.1 hl
      exact ⟨hname, hsamples x hx⟩

theorem families_bare {fs : List Family} : (∀ l ∈ families fs, l.Bare) ↔
    ∀ f ∈ fs, Plain false f.doc ∧ ∀ x ∈ f.samples, ∀ l ∈ x.1, Plain true l.2 := by
  simp only [families, Family.lines, List.mem_flatMap, List.mem_cons, List.mem_map]
  constructor
  · intro h f hf
    exact ⟨h _ ⟨f, hf, .inl rfl⟩, fun x hx => h _ ⟨f, hf, .inr (.inr ⟨x, hx, rfl⟩)⟩⟩
  · rintro h l ⟨f, hf, rfl | rfl | ⟨x, hx, rfl⟩⟩
    · exact (h f hf).1
    · trivial
    · exact (h f hf).2 x hx

/-- The series that a line is a sample of. -/
def Line.series? : Line → Option (List Char × List Label)
  | .sample s => some s.series
  | _ => none

/-- The series of a page, each as often as there are samples of it. -/
def seriesOf (ls : List Line) : List (List Char × List Label) := ls.filterMap Line.series?

/-- The value that a line gives a series. -/
def Line.valueAt (name : List Char) (labels : List Label) : Line → Option Int
  | .sample s => if s.series = (name, labels) then some s.value else none
  | _ => none

/-- The value of a series in a page. -/
def valueOf (ls : List Line) (name : List Char) (labels : List Label) : Option Int :=
  ls.findSome? (·.valueAt name labels)

theorem seriesOf_lines (f : Family) : seriesOf f.lines = f.samples.map fun x => (f.name, x.1) := by
  have hhead : seriesOf f.lines =
      (f.samples.map fun x => Line.sample ⟨f.name, x.1, x.2⟩).filterMap Line.series? := rfl
  rw [hhead, List.filterMap_map]
  exact congrFun (List.filterMap_eq_map (f := fun x : List Label × Int => (f.name, x.1))) f.samples

/-- **No series comes twice** when no metric does, and none within a metric. -/
theorem seriesOf_nodup {fs : List Family} (hnames : (fs.map Family.name).Nodup)
    (hlabels : ∀ f ∈ fs, (f.samples.map Prod.fst).Nodup) : (seriesOf (families fs)).Nodup := by
  have hsplit : seriesOf (families fs) = fs.flatMap fun f => f.samples.map fun x => (f.name, x.1) := by
    rw [seriesOf, families, List.filterMap_flatMap]
    exact List.flatMap_congr fun f _ => seriesOf_lines f
  rw [hsplit, List.nodup_flatMap]
  constructor
  · intro f hf
    have hmap : (f.samples.map fun x => (f.name, x.1)) = (f.samples.map Prod.fst).map (Prod.mk f.name) := by simp
    rw [hmap]
    exact (hlabels f hf).map (Prod.mk_right_injective _)
  · rw [List.nodup_iff_pairwise_ne, List.pairwise_map] at hnames
    refine hnames.imp fun hne => ?_
    simp only [Function.onFun, List.disjoint_left, List.mem_map]
    rintro y ⟨x, -, rfl⟩ ⟨x', -, he⟩
    exact hne (Prod.mk.inj he).1.symm

theorem valueOf_lines (f : Family) (labels : List Label) : valueOf f.lines f.name labels = f.samples.lookup labels := by
  have hsamples : ∀ xs : List (List Label × Int),
      (xs.map fun x => Line.sample ⟨f.name, x.1, x.2⟩).findSome? (·.valueAt f.name labels) = xs.lookup labels := by
    intro xs
    induction xs with
    | nil => rfl
    | cons x xs ih =>
      rw [List.map_cons, List.findSome?_cons, List.lookup_cons, ih]
      by_cases hx : labels = x.1
      · simp [Line.valueAt, Sample.series, hx]
      · have hfalse : (labels == x.1) = false := beq_eq_false_iff_ne.2 hx
        simp [Line.valueAt, Sample.series, hfalse, Ne.symm hx]
  exact hsamples f.samples

theorem valueOf_other {f : Family} {name : List Char} (h : f.name ≠ name) (labels : List Label) :
    valueOf f.lines name labels = none := by
  refine List.findSome?_eq_none_iff.2 fun l hl => ?_
  rcases List.mem_cons.1 hl with rfl | hl
  · rfl
  · rcases List.mem_cons.1 hl with rfl | hl
    · rfl
    · obtain ⟨x, -, rfl⟩ := List.mem_map.1 hl
      simp [Line.valueAt, Sample.series, h]

/-- **What a reader finds for a series** is what its metric says. -/
theorem valueOf_families {fs : List Family} (hnames : (fs.map Family.name).Nodup) {f : Family} (hf : f ∈ fs)
    (labels : List Label) : valueOf (families fs) f.name labels = f.samples.lookup labels := by
  induction fs with
  | nil => cases hf
  | cons g fs ih =>
    obtain ⟨hg, hnames⟩ := List.nodup_cons.1 hnames
    have hsplit : valueOf (families (g :: fs)) f.name labels =
        (valueOf g.lines f.name labels).or (valueOf (families fs) f.name labels) := by
      rw [valueOf, families, List.flatMap_cons, List.findSome?_append]
      rfl
    rw [hsplit]
    rcases List.mem_cons.1 hf with rfl | hf
    · have hrest : valueOf (families fs) f.name labels = none := by
        refine List.findSome?_eq_none_iff.2 fun l hl => ?_
        obtain ⟨f', hf', hl⟩ := List.mem_flatMap.1 hl
        have hne : f'.name ≠ f.name := fun he => hg (he ▸ List.mem_map_of_mem hf')
        exact List.findSome?_eq_none_iff.1 (valueOf_other hne labels) l hl
      rw [hrest, Option.or_none, valueOf_lines]
    · have hne : g.name ≠ f.name := fun he => hg (he ▸ List.mem_map_of_mem hf)
      rw [valueOf_other hne, Option.none_or, ih hnames hf]

end Exposition
