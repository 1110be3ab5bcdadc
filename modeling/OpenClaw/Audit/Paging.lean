import OpenClaw.Lib.Cursor
import OpenClaw.Audit.Rows

/-!
# Paging through the audit log

- `listAuditLog` is `GET /audit-log`: the limit (`auditLimit`), the condition on `ts` (`auditRange`) and the query.
- The client passes the oldest `ts` of a page as `before` of the next one and stops at the first empty page
  (`Cursor.walk`); `PagesOnce` says that it then has every row at or after `since` once, newest first, and never a row
  at or after its cursor.
- Without `since` the range is `ts < before` and the client gets exactly that (`pagesOnce_of_no_since`). With `since`
  the range is `between`, which includes the cursor: the second page starts with the last row of the first
  (`not_pagesOnce_of_since`). `audit_paging` puts the two together.
-/

namespace OpenClaw

open Keyed (Table)

/-! ## The endpoint -/

/-- The ASCII characters `int` skips around a number. -/
def isBlank (c : Char) : Bool := c = ' ' || (9 ≤ c.toNat && c.toNat ≤ 13) || (28 ≤ c.toNat && c.toNat ≤ 31)

/-- `int(s)` on ASCII text: blanks around it, one sign, digits with single underscores between them. -/
def intOfText (s : String) : Option Int :=
  match (s.toList.dropWhile isBlank).rdropWhile isBlank with
  | '+' :: cs => (String.ofList cs).toNat?.map Int.ofNat
  | cs => (String.ofList cs).toInt?

/-- The query string of `GET /audit-log`. -/
structure AuditQuery where
  limit : Option String := none
  since : Option String := none
  before : Option String := none

/-- `min(int(qp.get("limit", 50)), 500)`, or 50 for what is no number. -/
def auditLimit (q : AuditQuery) : Int :=
  match q.limit with
  | none => min 50 500
  | some s =>
    match intOfText s with
    | some n => min n 500
    | none => 50

/-- Python reads an empty parameter as absent. -/
def truthy (s : Option String) : Option String := s.filter (· ≠ "")

/-- The condition on `ts`. -/
def auditRange (q : AuditQuery) : RangeCond :=
  match truthy q.since, truthy q.before with
  | some since, some before => .between since before
  | some since, none => .gte since
  | none, some before => .lt before
  | none, none => .all

/-- `_list_audit_log`: the rows of the response, none of them when there is no table or the query fails. -/
def listAuditLog (size : ResponseSize) (table : Option AuditTable) (q : AuditQuery) : List AuditRow :=
  match table with
  | none => []
  | some t => ((query size t (auditRange q) (auditLimit q)).getD []).take (auditLimit q).toNat

/-! ## The client -/

/-- The text of a row's sort key. -/
def AuditRow.stamp (r : AuditRow) : String := r.ts.1

/-- One request of a client that pages with `limit` and `since`. -/
def auditPage (size : ResponseSize) (t : AuditTable) (limit : ℕ) (since before : Option String) : List AuditRow :=
  listAuditLog size (some t) { limit := some limit.repr, since := since, before := before }

/-- The client ends, has every row at or after `since` once, newest first, and no row at or after a cursor. -/
def PagesOnce (size : ResponseSize) (t : AuditTable) (limit : ℕ) (since : Option String) : Prop :=
  ∃ n pages, Cursor.walk AuditRow.stamp (auditPage size t limit since) n none = some pages ∧
    (Cursor.seen pages).Pairwise (fun x y => y.stamp < x.stamp) ∧
    (∀ r, r ∈ Cursor.seen pages ↔ r ∈ t.rows ∧ ∀ s, since = some s → s ≤ r.stamp) ∧
    ∀ p ∈ pages, ∀ r ∈ p.2, ∀ before, p.1 = some before → r.stamp < before

/-! ## The limit -/

theorem not_blank_of_isDigit {c : Char} (h : c.isDigit) : isBlank c = false := by
  simp only [Char.isDigit, ge_iff_le, UInt32.le_iff_toNat_le, Bool.and_eq_true, decide_eq_true_eq] at h
  have h₀ : 48 ≤ c.toNat := h.1
  have hs : c ≠ ' ' := fun e => by rw [e] at h₀; exact absurd h₀ (by decide)
  simp only [isBlank, hs, decide_false, Bool.false_or, Bool.or_eq_false_iff, Bool.and_eq_false_iff,
    decide_eq_false_iff_not]
  omega

theorem intOfText_repr (n : ℕ) : intOfText n.repr = some (n : Int) := by
  have hd : ∀ c ∈ n.repr.toList, c.isDigit := by
    intro c hc
    rw [Nat.toList_repr] at hc
    exact Nat.isDigit_of_mem_toDigits (by omega) (by omega) hc
  have hl : n.repr.toList.dropWhile isBlank = n.repr.toList :=
    List.dropWhile_eq_self_iff.2 fun h => by rw [not_blank_of_isDigit (hd _ (List.getElem_mem h))]; simp
  have hr : n.repr.toList.rdropWhile isBlank = n.repr.toList :=
    List.rdropWhile_eq_self_iff.2 fun h => by rw [not_blank_of_isDigit (hd _ (List.getLast_mem h))]; simp
  unfold intOfText
  rw [hl, hr]
  split
  · rename_i cs h
    have hp := hd '+' (by rw [h]; simp)
    exact absurd hp (by decide)
  · rw [String.ofList_toList, Nat.toInt?_repr]

theorem auditLimit_repr {q : AuditQuery} {limit : ℕ} (hq : q.limit = some limit.repr) (hl : limit ≤ 500) :
    auditLimit q = limit := by
  simp only [auditLimit, hq, intOfText_repr]
  omega

/-! ## One page -/

theorem truthy_none : truthy none = none := rfl

theorem truthy_some {s : String} (h : s ≠ "") : truthy (some s) = some s := by simp [truthy, Option.filter, h]

variable {size : ResponseSize} {t : AuditTable} {limit : ℕ} {since before : Option String}

theorem auditPage_limit (h : limit ≤ 500) : auditPage size t limit since before =
    ((query size t (auditRange { limit := some limit.repr, since := since, before := before }) limit).getD []).take
      limit := by
  have hl : auditLimit { limit := some limit.repr, since := since, before := before } = limit := auditLimit_repr rfl h
  simp only [auditPage, listAuditLog, hl, Int.toNat_natCast]

/-- A valid request returns the newest rows of its range, at least one of them if there is one. -/
theorem auditPage_eq (size : ResponseSize) (t : AuditTable) (h₁ : 1 ≤ limit) (h₂ : limit ≤ 500) {c : RangeCond}
    (hc : auditRange { limit := some limit.repr, since := since, before := before } = c) (hv : c.valid = true) :
    ∃ n, 1 ≤ n ∧ auditPage size t limit since before = (newestFirst t c).take n := by
  have hq : query size t c limit = some ((newestFirst t c).take (min limit (size.fits (newestFirst t c)))) := by
    have hp : (1 : Int) ≤ limit := by omega
    simp [query, hp, hv]
  have hf := size.pos (newestFirst t c)
  refine ⟨min limit (size.fits (newestFirst t c)), by omega, ?_⟩
  simp only [auditPage_limit h₂, hc, hq, Option.getD_some, List.take_take]
  congr 1
  omega

/-- Two strictly descending lists with the same rows are one list. -/
theorem eq_of_newest {xs ys : List AuditRow} (hx : Cursor.Newest AuditRow.stamp xs)
    (hy : Cursor.Newest AuditRow.stamp ys) (h : ∀ r, r ∈ xs ↔ r ∈ ys) : xs = ys := by
  have hn : ∀ {zs : List AuditRow}, Cursor.Newest AuditRow.stamp zs → zs.Nodup :=
    fun hz => hz.imp fun {x y} hlt e => absurd hlt (by rw [e]; exact lt_irrefl _)
  have hp : xs.Perm ys := (List.perm_ext_iff_of_nodup (hn hx) (hn hy)).2 h
  exact hp.eq_of_pairwise (fun x y _ _ h₁ h₂ => absurd (h₁.trans h₂) (lt_irrefl _)) hx hy

/-- No text stands before the empty one. -/
theorem empty_le (s : String) : "" ≤ s := by
  refine not_lt.1 fun h => ?_
  rw [String.lt_iff_toList_lt] at h
  exact absurd h (List.not_lt_nil _)

/-! ## Without `since` -/

/-- The range below a cursor: everything, or strictly before it. -/
def beforeRange : Option String → RangeCond
  | none => .all
  | some b => .lt b

theorem newestFirst_below (t : AuditTable) (c : Option String) :
    newestFirst t (beforeRange c) = Cursor.below AuditRow.stamp (newestFirst t .all) c := by
  have hall : Cursor.Newest AuditRow.stamp (newestFirst t .all) := newestFirst_pairwise t .all
  refine eq_of_newest (newestFirst_pairwise t _) (hall.below c) fun r => ?_
  rw [Cursor.mem_below, mem_newestFirst, mem_newestFirst]
  cases c with
  | none => simp [beforeRange]
  | some b => simp [beforeRange, RangeCond.holds, AuditRow.stamp]

/-- A cursor that is some row's key is not empty, so it is not taken for an absent parameter. -/
theorem auditRange_cursor (hs : truthy since = none) {c : Option String}
    (hc : ∀ k, c = some k → ∃ r ∈ newestFirst t .all, AuditRow.stamp r = k) :
    auditRange { limit := some limit.repr, since := since, before := c } = beforeRange c := by
  cases c with
  | none => simp only [auditRange, hs, truthy_none, beforeRange]
  | some k =>
    obtain ⟨r, -, rfl⟩ := hc k rfl
    have hne : r.stamp ≠ "" := r.ts.2
    simp only [auditRange, hs, truthy_some hne, beforeRange]

theorem serves_of_no_since (size : ResponseSize) (h₁ : 1 ≤ limit) (h₂ : limit ≤ 500) (hs : truthy since = none) :
    Cursor.Serves AuditRow.stamp (newestFirst t .all) (auditPage size t limit since) where
  newest := newestFirst_pairwise t .all
  leading c hc := by
    have hv : (beforeRange c).valid = true := by cases c <;> rfl
    obtain ⟨n, -, he⟩ := auditPage_eq size t h₁ h₂ (auditRange_cursor hs hc) hv
    rw [he, ← newestFirst_below]
    exact List.take_prefix _ _
  progress c hc hnil := by
    have hv : (beforeRange c).valid = true := by cases c <;> rfl
    obtain ⟨n, hn, he⟩ := auditPage_eq size t h₁ h₂ (auditRange_cursor hs hc) hv
    rw [he, List.take_eq_nil_iff] at hnil
    rw [← newestFirst_below]
    exact hnil.resolve_left (by omega)

/-- **Without `since` the cursor is exclusive.** -/
theorem pagesOnce_of_no_since (h₁ : 1 ≤ limit) (h₂ : limit ≤ 500) (hs : truthy since = none) :
    PagesOnce size t limit since := by
  obtain ⟨pages, hw, hseen, hlt⟩ := Cursor.walk_complete (serves_of_no_since size h₁ h₂ hs) _ none
    (by simp) (Nat.lt_succ_self (Cursor.below AuditRow.stamp (newestFirst t .all) none).length)
  refine ⟨_, pages, hw, ?_, ?_, hlt⟩
  · rw [hseen]
    exact newestFirst_pairwise t .all
  · intro r
    have hempty : ∀ s, since = some s → s ≤ r.stamp := by
      intro s e
      have he : s = "" := by simpa [truthy, e, Option.filter] using hs
      rw [he]
      exact empty_le _
    rw [hseen, Cursor.below, mem_newestFirst]
    exact ⟨fun hr => ⟨hr.1, hempty⟩, fun hr => ⟨hr.1, rfl⟩⟩

/-! ## With `since` -/

/-- Where no row is at or after `since`, the first page is empty and the client is done. -/
theorem pagesOnce_of_none_since (h₁ : 1 ≤ limit) (h₂ : limit ≤ 500) {s : String} (hs : truthy since = some s)
    (hold : ∀ r ∈ t.rows, r.stamp < s) : PagesOnce size t limit since := by
  have hsince : since = some s := (Option.filter_eq_some_iff.1 hs).1
  have hr : auditRange { limit := some limit.repr, since := since, before := none } = .gte s := by
    simp only [auditRange, hs, truthy_none]
  obtain ⟨n, -, he⟩ := auditPage_eq size t h₁ h₂ hr rfl
  have hnil : newestFirst t (.gte s) = [] := by
    refine List.eq_nil_iff_forall_not_mem.2 fun r hr => ?_
    obtain ⟨hm, hh⟩ := mem_newestFirst.1 hr
    have hle : s ≤ r.stamp := by simpa [RangeCond.holds, AuditRow.stamp] using hh
    exact absurd (hold r hm) (not_lt.2 hle)
  have hpage : auditPage size t limit since none = [] := by rw [he, hnil, List.take_nil]
  refine ⟨1, [], by simp [Cursor.walk, hpage], List.Pairwise.nil, ?_, by simp⟩
  intro r
  constructor
  · intro h
    exact absurd h (by simp [Cursor.seen])
  · intro h
    obtain ⟨hm, hle⟩ := h
    exact absurd (hold r hm) (not_lt.2 (hle s hsince))

theorem between_le {s b : String} {r : AuditRow} (h : r ∈ newestFirst t (.between s b)) : r.stamp ≤ b := by
  have hh := (mem_newestFirst.1 h).2
  simp only [RangeCond.holds, Bool.and_eq_true, decide_eq_true_eq] at hh
  exact hh.2

/-- The newest row stands first. -/
theorem mem_take_of_top {xs : List AuditRow} (hp : Cursor.Newest AuditRow.stamp xs) {x : AuditRow} (hx : x ∈ xs)
    (htop : ∀ y ∈ xs, y.stamp ≤ x.stamp) {k : ℕ} (hk : 1 ≤ k) : x ∈ xs.take k := by
  cases xs with
  | nil => cases hx
  | cons y ys =>
    obtain ⟨k, rfl⟩ := Nat.exists_eq_add_of_le' hk
    rw [List.take_succ_cons]
    rcases List.mem_cons.1 hx with rfl | hx
    · exact List.mem_cons_self
    · have hlt : x.stamp < y.stamp := (List.pairwise_cons.1 hp).1 x hx
      exact absurd (htop y List.mem_cons_self) (not_le.2 hlt)

/-- **With `since` the cursor comes back.** If a row is at or after `since`, the second page repeats the last row of
the first. -/
theorem not_pagesOnce_of_since (h₁ : 1 ≤ limit) (h₂ : limit ≤ 500) {s : String} (hs : truthy since = some s)
    {r : AuditRow} (hr : r ∈ t.rows) (hle : s ≤ r.stamp) : ¬ PagesOnce size t limit since := by
  intro h
  obtain ⟨n, pages, hw, -, -, hlt⟩ := h
  have hfirst : auditRange { limit := some limit.repr, since := since, before := none } = .gte s := by
    simp only [auditRange, hs, truthy_none]
  obtain ⟨m, hm, he⟩ := auditPage_eq size t h₁ h₂ hfirst rfl
  have hmem : r ∈ newestFirst t (.gte s) :=
    mem_newestFirst.2 ⟨hr, by simpa [RangeCond.holds, AuditRow.stamp] using hle⟩
  have hpage : auditPage size t limit since none ≠ [] := by
    rw [he, Ne, List.take_eq_nil_iff]
    simp only [not_or]
    exact ⟨by omega, List.ne_nil_of_mem hmem⟩
  obtain ⟨x, hx⟩ := Option.ne_none_iff_exists'.1 (mt List.getLast?_eq_none_iff.1 hpage)
  -- the last row of the first page is a row of the range up to its own key
  have hxm : x ∈ newestFirst t (.gte s) := by
    have := List.mem_of_getLast? hx
    rw [he] at this
    exact List.mem_of_mem_take this
  obtain ⟨hxt, hxs⟩ := mem_newestFirst.1 hxm
  have hxle : s ≤ x.stamp := by simpa [RangeCond.holds, AuditRow.stamp] using hxs
  have hne : x.stamp ≠ "" := x.ts.2
  have hrange : auditRange { limit := some limit.repr, since := since, before := some x.stamp } =
      .between s x.stamp := by
    simp only [auditRange, hs, truthy_some hne]
  have hvalid : (RangeCond.between s x.stamp).valid = true := by simpa [RangeCond.valid] using hxle
  obtain ⟨k, hk, he'⟩ := auditPage_eq size t h₁ h₂ hrange hvalid
  have hxb : x ∈ newestFirst t (.between s x.stamp) :=
    mem_newestFirst.2 ⟨hxt, by simpa [RangeCond.holds, AuditRow.stamp] using hxle⟩
  have hsecond : x ∈ auditPage size t limit since (some x.stamp) := by
    rw [he']
    exact mem_take_of_top (newestFirst_pairwise t _) hxb (fun y hy => between_le hy) hk
  have hin := Cursor.walk_second hw hx (List.ne_nil_of_mem hsecond)
  exact lt_irrefl _ (hlt _ hin x hsecond x.stamp rfl)

/-! ## The endpoint's paging -/

/-- **Paging.** Every row at or after `since` comes exactly once, newest first and below the cursor, exactly when the
client gives no `since` or no row is that new. -/
theorem audit_paging (h₁ : 1 ≤ limit) (h₂ : limit ≤ 500) : PagesOnce size t limit since ↔
    truthy since = none ∨ ∀ s, since = some s → ∀ r ∈ t.rows, r.stamp < s := by
  cases hs : truthy since with
  | none => exact ⟨fun _ => .inl rfl, fun _ => pagesOnce_of_no_since h₁ h₂ hs⟩
  | some s =>
    have hsince : since = some s := (Option.filter_eq_some_iff.1 hs).1
    constructor
    · intro h
      refine .inr fun s' e r hr => ?_
      obtain rfl : s = s' := Option.some.inj (hsince.symm.trans e)
      by_contra hlt
      exact not_pagesOnce_of_since h₁ h₂ hs hr (not_lt.1 hlt) h
    · intro h
      rcases h with h | h
      · exact absurd h (by simp)
      · exact pagesOnce_of_none_since h₁ h₂ hs (h s hsince)

/-- A response that holds every row. -/
def wholeResponse : ResponseSize := ⟨fun rows => rows.length + 1, fun _ => by omega⟩

/-- A tenant created and deleted. -/
def tenantEvents : AuditTable :=
  let row (ts : Stamp) (op : String) : AuditRow :=
    auditItem { event := op, obj := "tenant", resourceId := "t-1", actor := "api", ts := some ts } ⟨0, ts, "u"⟩
  (Table.single (row ⟨"2026-05-17T11:00:00+00:00", by decide⟩ "tenant.created")).put
    (row ⟨"2026-05-17T11:05:00+00:00", by decide⟩ "tenant.deleted")

theorem audit_paging_all : PagesOnce wholeResponse tenantEvents 1 none :=
  (audit_paging (by decide) (by decide)).2 (.inl rfl)

/-- With `since` and one row a page, the deletion is returned again for its own cursor, and so for ever. -/
theorem since_repeats_cursor :
    (auditPage wholeResponse tenantEvents 1 (some "2026-05-17") none).map AuditRow.stamp =
      ["2026-05-17T11:05:00+00:00"] ∧
    (auditPage wholeResponse tenantEvents 1 (some "2026-05-17") (some "2026-05-17T11:05:00+00:00")).map
      AuditRow.stamp = ["2026-05-17T11:05:00+00:00"] ∧
    ¬ PagesOnce wholeResponse tenantEvents 1 (some "2026-05-17") := by
  have hrow : ∃ r ∈ tenantEvents.rows, "2026-05-17" ≤ r.stamp := by decide +kernel
  obtain ⟨r, hr, hle⟩ := hrow
  rw [auditPage_limit (by decide), auditPage_limit (by decide)]
  exact ⟨by decide +kernel, by decide +kernel,
    not_pagesOnce_of_since (by decide) (by decide) (truthy_some (by decide)) hr hle⟩

end OpenClaw
