import Mathlib

/-!
# Texts in requests

`str.strip`, and the regular expressions of `domains/common.py` and `handler.py` for names. `re.match` with `$` also
accepts one newline at the end.

- `nameRe`, `skillNameRe`: `_NAME_RE` and `_SKILL_NAME_RE`; `validName`: `_validate_name`.
- `labelRe_chars`: what they accept is made of lower-case letters, digits and hyphens, unless a newline ends it.
-/

namespace OpenClaw

/-! ## White space -/

/-- White space that `str.strip` removes. -/
def pySpace (c : Char) : Bool :=
  [9, 10, 11, 12, 13, 28, 29, 30, 31, 32, 0x85, 0xa0, 0x1680, 0x2028, 0x2029, 0x202f, 0x205f, 0x3000].contains c.toNat ||
    (0x2000 ≤ c.toNat && c.toNat ≤ 0x200a)

/-- `str.strip`. -/
def pyStrip (s : String) : String :=
  String.ofList (((s.toList.dropWhile pySpace).reverse.dropWhile pySpace).reverse)

/-! ## Names -/

/-- `[a-z0-9]`. -/
def alnumChar (c : Char) : Bool := ('a' ≤ c && c ≤ 'z') || ('0' ≤ c && c ≤ '9')

/-- `[a-z0-9-]`. -/
def labelChar (c : Char) : Bool := alnumChar c || c = '-'

/-- `[a-z0-9]([a-z0-9-]{0,mid}[a-z0-9])?` on the whole text. -/
def label (mid : Nat) : List Char → Bool
  | [] => false
  | [c] => alnumChar c
  | c :: cs => alnumChar c && cs.length ≤ mid + 1 && cs.dropLast.all labelChar && cs.getLast?.any alnumChar

/-- The same between `^` and `$`, with `re.match`. -/
def labelRe (mid : Nat) (s : List Char) : Bool := label mid s || (s.getLast? = some '\n' && label mid s.dropLast)

/-- `_NAME_RE`. -/
def nameRe (s : String) : Bool := labelRe 30 s.toList

/-- `_validate_name`; an empty name does not match either. -/
def validName (name : String) : Bool := name.length ≤ 32 && nameRe name

/-- `_SKILL_NAME_RE`. -/
def skillNameRe (s : String) : Bool := labelRe 62 s.toList

/-- Lower-case letters, digits and hyphens only, and at least one. -/
def plainName (s : String) : Bool := s ≠ "" && s.toList.all labelChar

section Labels

variable {mid : Nat} {cs : List Char}

theorem label_chars (h : label mid cs = true) : cs ≠ [] ∧ ∀ c ∈ cs, labelChar c = true := by
  have halnum : ∀ {c : Char}, alnumChar c = true → labelChar c = true := by
    intro c hc
    simp [labelChar, hc]
  match cs, h with
  | [c], h =>
    refine ⟨by simp, fun d hd => ?_⟩
    obtain rfl := List.mem_singleton.1 hd
    exact halnum h
  | c :: d :: cs, h =>
    simp only [label, Bool.and_eq_true, List.all_eq_true] at h
    obtain ⟨⟨⟨hc, -⟩, hmid⟩, hlast⟩ := h
    refine ⟨by simp, fun x hx => ?_⟩
    rcases List.mem_cons.1 hx with rfl | hx
    · exact halnum hc
    · have hsplit := List.dropLast_concat_getLast (l := d :: cs) (by simp)
      rw [← hsplit] at hx
      rcases List.mem_append.1 hx with hx | hx
      · exact hmid x hx
      · obtain rfl := List.mem_singleton.1 hx
        rw [List.getLast?_eq_getLast_of_ne_nil (by simp)] at hlast
        exact halnum (by simpa using hlast)

/-- **What the expressions accept**, apart from lengths: the characters of a label, unless a newline ends it. -/
theorem labelRe_chars (h : labelRe mid cs = true) (hn : cs.getLast? ≠ some '\n') :
    cs ≠ [] ∧ ∀ c ∈ cs, labelChar c = true := by
  rw [labelRe, Bool.or_eq_true, Bool.and_eq_true, decide_eq_true_eq] at h
  rcases h with h | h
  · exact label_chars h
  · exact absurd h.1 hn

end Labels

end OpenClaw
