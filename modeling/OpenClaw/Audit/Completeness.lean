import OpenClaw.Api.Dispatch

/-!
# Completeness of the audit log

Requests to the api Lambda and audit rows of the other Lambdas come in any order (`AuditEvent`); the rows they write go
to one table whose key is the time stamp. `AuditComplete` asks for one row with the returned status for each request
that matched a route and may change something, and that no row is overwritten. `audit_complete`: this is so exactly when
no handler that was called raised, since that exit of the dispatcher writes no row, and when no two rows have one time
stamp.
-/

namespace OpenClaw

open Keyed (Table)

variable (cfg : ApiConfig)

/-- What writes to the audit table. -/
inductive AuditEvent
  /-- A request; `run` has the rows of its handler, and those other Lambdas write meanwhile. -/
  | request (r : ApiRequest) (run : HandlerRun) (k : AuditClock)
  /-- `put_audit_row` called by another Lambda. -/
  | other (e : AuditEntry) (k : AuditClock)

/-- The rows an event writes, in order. -/
def AuditEvent.rows : AuditEvent → List AuditRow
  | .request r run k =>
    (lambdaHandler cfg r run k).effects.filterMap ApiEffect.row? ++ (lambdaHandler cfg r run k).audited
  | .other e k => [auditItem e k]

/-- All rows written, in order. -/
def auditWrites (es : List AuditEvent) : List AuditRow := es.flatMap (AuditEvent.rows cfg)

/-- Every request that is to be audited has its one row, and no row is overwritten. -/
structure AuditComplete (t : AuditTable) (es : List AuditEvent) : Prop where
  one : ∀ r run k, AuditEvent.request r run k ∈ es → r.matched = true → r.mutating = true →
    ∃ row, (lambdaHandler cfg r run k).audited = [row] ∧ row.operation = r.operation ∧
      row.responseStatus = some (lambdaHandler cfg r run k).statusCode ∧ row ∈ (t.putAll (auditWrites cfg es)).rows
  kept : t.Appends (auditWrites cfg es)

/-- No handler that the dispatcher called for an audited request raised. -/
def NoneRaised (es : List AuditEvent) : Prop :=
  ∀ r run k, AuditEvent.request r run k ∈ es → r.matched = true → r.mutating = true → rbacCheck cfg.rbac r = true →
    run.result ≠ .raised

/-- The stamps of the rows in the table and of the rows to come are all different. -/
def StampsDiffer (t : AuditTable) (es : List AuditEvent) : Prop :=
  (t.rows.map AuditRow.ts ++ (auditWrites cfg es).map AuditRow.ts).Nodup

section Complete

variable {cfg} {t : AuditTable} {es : List AuditEvent} {r : ApiRequest} {run : HandlerRun} {k : AuditClock}

theorem auditWrite_eq (ht : cfg.auditTable = true) (hm : r.mutating = true) (code : Int) :
    auditWrite cfg r code k = [requestRow cfg r code k] := by
  rw [auditWrite, hm, ht]
  rfl

/-- The exits of the dispatcher: all but the exception write the row of the status they return. -/
theorem audited_eq (run : HandlerRun) (k : AuditClock) (ht : cfg.auditTable = true) (hr : r.matched = true)
    (hm : r.mutating = true) :
    (lambdaHandler cfg r run k).audited = if rbacCheck cfg.rbac r = true ∧ run.result = .raised then []
      else [requestRow cfg r (lambdaHandler cfg r run k).statusCode k] := by
  unfold lambdaHandler
  rw [if_pos hr]
  by_cases hcheck : rbacCheck cfg.rbac r = true
  · rw [if_pos hcheck]
    cases hres : run.result with
    | returned code => simp [auditWrite_eq ht hm]
    | raised => simp [hcheck]
  · rw [if_neg hcheck]
    simp [hcheck, auditWrite_eq ht hm]

/-- **Completeness of the audit log.** Every audited request leaves its one row and no row is overwritten, exactly when
no handler raises and all stamps differ. -/
theorem audit_complete (ht : cfg.auditTable = true) :
    AuditComplete cfg t es ↔ NoneRaised cfg es ∧ StampsDiffer cfg t es := by
  constructor
  · intro h
    refine ⟨fun r run k hmem hr hm hcheck hraised => ?_, Table.appends_iff_nodup.1 h.kept⟩
    obtain ⟨row, hrow, -⟩ := h.one r run k hmem hr hm
    rw [audited_eq run k ht hr hm, if_pos ⟨hcheck, hraised⟩] at hrow
    cases hrow
  · intro h
    obtain ⟨hret, hstamps⟩ := h
    have hkept : t.Appends (auditWrites cfg es) := Table.appends_iff_nodup.2 hstamps
    refine ⟨fun r run k hmem hr hm => ?_, hkept⟩
    have haud := audited_eq run k ht hr hm
    rw [if_neg fun hx => hret r run k hmem hr hm hx.1 hx.2] at haud
    refine ⟨_, haud, rfl, rfl, hkept.mem _ (.inr ?_)⟩
    refine List.mem_flatMap.2 ⟨_, hmem, List.mem_append_right _ ?_⟩
    rw [haud]
    exact List.mem_singleton_self _

end Complete

/-! ## Two requests -/

/-- Role checks are off. -/
def openApi : ApiConfig where
  rbac := { rbacEnabled := false, verify := fun _ => none }

/-- `POST /tenants` with a body that is no JSON: `json.loads` raises before anything is done. -/
def truncatedRequest : ApiRequest := { httpMethod := "POST", resource := "/tenants", body := some "\x7b" }

def createRequest : ApiRequest :=
  { httpMethod := "POST", resource := "/tenants", body := some "\x7b\"name\": \"a\"\x7d" }

def clockAt (second : Int) (s : Stamp) : AuditClock := ⟨second, s, "u"⟩

def firstStamp : Stamp := ⟨"2026-05-17T11:00:00.000000+00:00", by decide⟩

def secondStamp : Stamp := ⟨"2026-05-17T11:00:01.000000+00:00", by decide⟩

/-- A creation, and a row of the scaler a second later. -/
theorem audit_complete_two : AuditComplete openApi Table.empty
    [.request createRequest ⟨[.table "tenants"], .returned 201⟩ (clockAt 0 firstStamp),
      .other { event := "host.scale_in", obj := "host:i-1", resourceId := "i-1", actor := "system:scaler" }
        (clockAt 1 secondStamp)] := by
  refine (audit_complete rfl).2 ⟨fun r run k hmem _ _ _ => ?_, by rw [StampsDiffer]; decide +kernel⟩
  obtain ⟨-, rfl, -⟩ : r = createRequest ∧ run = ⟨[.table "tenants"], .returned 201⟩ ∧ k = clockAt 0 firstStamp := by
    simpa using hmem
  simp

/-- **A request that fails leaves no row, and two rows of one microsecond are one row.** -/
theorem audit_incomplete :
    ¬ AuditComplete openApi Table.empty [.request truncatedRequest ⟨[], .raised⟩ (clockAt 0 firstStamp)] ∧
    ¬ AuditComplete openApi Table.empty
      [.request createRequest ⟨[.table "tenants"], .returned 201⟩ (clockAt 0 firstStamp),
        .other { event := "host.scale_in", obj := "host:i-1", resourceId := "i-1", actor := "system:scaler" }
          (clockAt 0 firstStamp)] := by
  constructor
  · intro h
    obtain ⟨row, hrow, -⟩ := h.one _ _ _ List.mem_cons_self (by decide +kernel) (by decide +kernel)
    have hnone : (lambdaHandler openApi truncatedRequest ⟨[], .raised⟩ (clockAt 0 firstStamp)).audited = [] := by
      decide +kernel
    rw [hnone] at hrow
    cases hrow
  · intro h
    have hdiffer := Table.appends_iff_nodup.1 h.kept
    revert hdiffer
    decide +kernel

end OpenClaw
