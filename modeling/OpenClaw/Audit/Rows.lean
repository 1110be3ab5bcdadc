import OpenClaw.Lib.Table

/-!
# Audit rows

- `AuditRow`: one row of the audit table, with the constant partition `pk = "audit"` and the sort key `ts`; DynamoDB
  takes no empty sort key, so a `Stamp` is not empty.
- `AuditEntry`: the arguments of `put_audit_row`, with its defaults; `auditItem` is the item it builds, `putAuditRow`
  the write.
- `query`: the range query on `ts`, newest first, at most `Limit` rows and never more than one response holds.
-/

namespace OpenClaw

open Keyed (Table)

/-- A sort key: some text. -/
abbrev Stamp := {s : String // s ≠ ""}

/-- `{**}` of `put_audit_row`: one item of the audit table (`pk` is the constant `"audit"`). -/
structure AuditRow where
  id : String
  ts : Stamp
  operation : String
  resourceId : String
  apiKeyId : String
  responseStatus : Option Int
  expiresTtl : Int
  event : String
  object : String
  actor : String
  actorRole : String
  detail : Option String
deriving DecidableEq

/-- The audit table: `ts` is the whole key, as `pk` is one value. -/
abbrev AuditTable := Table Stamp AuditRow AuditRow.ts

/-! ## Writing -/

/-- The keyword arguments of `put_audit_row`. -/
structure AuditEntry where
  event : String
  obj : String
  resourceId : String
  actor : String
  actorRole : String := "system"
  operation : Option String := none
  responseStatus : Option Int := some 200
  detail : Option String := none
  ttlDays : Int := 90
  apiKeyId : Option String := none
  ts : Option Stamp := none
deriving DecidableEq

/-- What a writer reads besides its arguments: the clock, as seconds and as text, and a fresh id. -/
structure AuditClock where
  seconds : Int
  isoNow : Stamp
  uuid : String
deriving DecidableEq

/-- The item `put_audit_row` builds. -/
def auditItem (e : AuditEntry) (k : AuditClock) : AuditRow where
  id := k.uuid
  ts := e.ts.getD k.isoNow
  operation := e.operation.getD e.event
  resourceId := e.resourceId
  apiKeyId := e.apiKeyId.getD e.actor
  responseStatus := e.responseStatus
  expiresTtl := k.seconds + e.ttlDays * 86400
  event := e.event
  object := e.obj
  actor := e.actor
  actorRole := e.actorRole
  detail := e.detail.map fun d => d.take 1000 |>.toString

/-- `put_audit_row`: no table, no row; a write that fails (`ok = false`) is printed and forgotten. -/
def putAuditRow (table : Option AuditTable) (e : AuditEntry) (k : AuditClock) (ok : Bool) : Option AuditTable :=
  table.map fun t => if ok then t.put (auditItem e k) else t

/-! ## Reading -/

/-- The conditions on `ts` that `_list_audit_log` builds. -/
inductive RangeCond where
  | all
  | gte (since : String)
  | lt (before : String)
  | between (since before : String)
deriving DecidableEq

/-- DynamoDB compares keys as text; `between` includes both bounds. -/
def RangeCond.holds : RangeCond → String → Bool
  | .all, _ => true
  | .gte since, ts => since ≤ ts
  | .lt before, ts => ts < before
  | .between since before, ts => since ≤ ts && ts ≤ before

/-- A `between` with its bounds the wrong way round is refused. -/
def RangeCond.valid : RangeCond → Bool
  | .between since before => since ≤ before
  | _ => true

/-- The rows under a condition, newest first. -/
def newestFirst (t : AuditTable) (c : RangeCond) : List AuditRow :=
  (t.rows.filter fun r => c.holds r.ts.1).insertionSort fun x y => y.ts ≤ x.ts

/-- How many rows one response holds: at least one. -/
structure ResponseSize where
  fits : List AuditRow → ℕ
  pos : ∀ rows, 1 ≤ fits rows

/-- `audit_table.query(ScanIndexForward=False, Limit=limit)`; `none` is an exception. -/
def query (size : ResponseSize) (t : AuditTable) (c : RangeCond) (limit : Int) : Option (List AuditRow) :=
  if 1 ≤ limit && c.valid then
    let rows := newestFirst t c
    some (rows.take (min limit.toNat (size.fits rows)))
  else none

theorem mem_newestFirst {t : AuditTable} {c : RangeCond} {r : AuditRow} :
    r ∈ newestFirst t c ↔ r ∈ t.rows ∧ c.holds r.ts.1 = true := by
  simp [newestFirst]

/-- The rows of a query stand in strictly descending order: no two rows have one `ts`. -/
theorem newestFirst_pairwise (t : AuditTable) (c : RangeCond) :
    (newestFirst t c).Pairwise fun x y => y.ts.1 < x.ts.1 := by
  have hle : (newestFirst t c).Pairwise fun x y => y.ts ≤ x.ts := List.pairwise_insertionSort ..
  have hne : (newestFirst t c).Pairwise fun x y => x.ts ≠ y.ts := by
    have hn : ((newestFirst t c).map AuditRow.ts).Nodup :=
      ((List.perm_insertionSort _ _).map _).nodup_iff.2 (t.nodup.sublist ((List.filter_sublist).map _))
    exact List.pairwise_map.1 hn
  refine (hle.and hne).imp ?_
  intro x y h
  obtain ⟨h₁, h₂⟩ := h
  exact lt_of_le_of_ne h₁ fun e => h₂ (Subtype.ext e.symm)

end OpenClaw
