import OpenClaw.Api.Dispatch

/-!
# Role gating

Three Lambdas stand behind the API: api, skills and templates. API Gateway checks an API key for all of them, the role
is checked by the code.

- `handle`: what a request to one of them does.
- `lambdaHandler_denied`: the api Lambda does nothing for a caller that does not rank, but for the audit row.
- `templatesHandler` never looks at the role; `role_gating` says which of its requests change something.
-/

namespace OpenClaw

/-! ## The other two Lambdas -/

/-- What the templates and skills Lambdas meet. -/
structure CatalogEnv where
  /-- `json.loads` accepts the text. -/
  json : String → Bool
  /-- The S3 write goes through. -/
  s3Ok : Bool := true
  /-- The status of a read. -/
  readStatus : Int := 200

/-- `f"{PREFIX}{name}/openclaw.json"`. -/
def templateKey (name : String) : String := "templates/openclaw/" ++ name ++ "/openclaw.json"

/-- `put_template`; a body that is no string is stored as it is. -/
def putTemplate (env : CatalogEnv) (name : String) (body : Option String) : Reply :=
  if name = "default" then { statusCode := 403 }
  else if body.any fun b => !env.json b then { statusCode := 400 }
  else if env.s3Ok then { statusCode := 200, effects := [.object (templateKey name)] }
  else { statusCode := 500 }

/-- `delete_template`. -/
def deleteTemplate (env : CatalogEnv) (name : String) : Reply :=
  if name = "default" then { statusCode := 403 }
  else if env.s3Ok then { statusCode := 200, effects := [.object (templateKey name)] }
  else { statusCode := 500 }

/-- `lambda_handler` of the templates Lambda. -/
def templatesHandler (env : CatalogEnv) (r : ApiRequest) : Reply :=
  let name := r.param "name"
  if r.httpMethod = "GET" then { statusCode := env.readStatus }
  else if r.httpMethod = "PUT" ∧ name ≠ "" then putTemplate env name r.body
  else if r.httpMethod = "DELETE" ∧ name ≠ "" then deleteTemplate env name
  else { statusCode := 404 }

/-- `lambda_handler` of the skills Lambda: it only lists. -/
def skillsHandler (env : CatalogEnv) (r : ApiRequest) : Reply :=
  if r.httpMethod = "GET" ∧ r.path = "/skills" then { statusCode := env.readStatus } else { statusCode := 404 }

inductive ApiLambda
  | api
  | skills
  | templates
deriving DecidableEq

variable (cfg : ApiConfig) (env : CatalogEnv)

/-- A request to one of the Lambdas. -/
def handle (f : ApiLambda) (r : ApiRequest) (run : HandlerRun) (k : AuditClock) : Reply :=
  match f with
  | .api => lambdaHandler cfg r run k
  | .skills => skillsHandler env r
  | .templates => templatesHandler env r

/-- The authorisation decision: only the api Lambda makes one. -/
def authorised (f : ApiLambda) (r : ApiRequest) : Bool :=
  match f with
  | .api => rbacCheck cfg.rbac r
  | .skills | .templates => true

/-! ## What gating asks for -/

/-- Operator, or admin for the routes of `_ADMIN_ONLY`. -/
def requiredRole (r : ApiRequest) : String :=
  if (r.httpMethod, r.resource) ∈ adminOnly then "admin" else "operator"

/-- The verified role, or the configured role without a token, ranks high enough. -/
def Ranks (r : ApiRequest) : Prop := roleSatisfies (getUserRole cfg.rbac r) (requiredRole r) = true

/-- The changes to tables, objects, rules and hosts; an audit row is a record of them, and no such change. -/
def Reply.changes (p : Reply) : List ApiEffect := p.effects.filter fun e => e.row?.isNone

/-- A POST, PUT or DELETE changes something only for a caller that ranks. -/
def RoleGated (f : ApiLambda) (r : ApiRequest) (run : HandlerRun) (k : AuditClock) : Prop :=
  r.mutating = true → (handle cfg env f r run k).changes ≠ [] → Ranks cfg r

/-- The caller has a token that fails verification. -/
def Unverified (r : ApiRequest) : Prop :=
  ∃ token, bearerToken r.authorization = some token ∧ (token = "" ∨ cfg.rbac.verify token = none)

/-- A request that the templates Lambda answers without writing: no name, the default template, another method, a body
that is no JSON, or a write that fails. -/
def TemplateIdle (r : ApiRequest) : Prop :=
  r.param "name" = "" ∨ r.param "name" = "default" ∨ (r.httpMethod ≠ "PUT" ∧ r.httpMethod ≠ "DELETE") ∨
    (r.httpMethod = "PUT" ∧ ∃ b, r.body = some b ∧ env.json b = false) ∨ env.s3Ok = false

/-! ## The Lambdas -/

section Lambdas

variable {cfg env} {r : ApiRequest} {run : HandlerRun} {k : AuditClock}

theorem rbacCheck_mutating (hr : cfg.rbac.rbacEnabled = true) (hm : r.mutating = true) :
    rbacCheck cfg.rbac r = true ↔ Ranks cfg r := by
  rw [rbacCheck, neededRole_mutating hm, hr]
  rfl

/-- **Denied.** For a caller that does not rank, the api Lambda runs no handler; it answers 403 and records that. -/
theorem lambdaHandler_denied (hr : cfg.rbac.rbacEnabled = true) (hm : r.mutating = true) (hn : ¬ Ranks cfg r) :
    (r.matched = true → lambdaHandler cfg r run k = { statusCode := 403, audited := auditWrite cfg r 403 k }) ∧
      (lambdaHandler cfg r run k).changes = [] := by
  have hno : rbacCheck cfg.rbac r = false := by
    rw [← Bool.not_eq_true]
    exact fun h => hn ((rbacCheck_mutating hr hm).1 h)
  unfold lambdaHandler
  split
  · simp [hno, Reply.changes]
  · rename_i hmatch
    exact ⟨fun h => absurd h hmatch, rfl⟩

theorem getUserRole_of_unverified (h : Unverified cfg r) : getUserRole cfg.rbac r = "viewer" := by
  obtain ⟨token, ht, hv⟩ := h
  rcases hv with rfl | hv
  · rw [getUserRole, ht]
    rfl
  · exact getUserRole_unverified cfg.rbac ht hv

/-- The templates Lambda changes an object exactly when it is asked to and can. -/
theorem templatesHandler_changes : (templatesHandler env r).changes = [] ↔ TemplateIdle env r := by
  unfold templatesHandler TemplateIdle
  dsimp only
  split
  · rename_i hget
    exact ⟨fun _ => .inr (.inr (.inl ⟨by rw [hget]; decide, by rw [hget]; decide⟩)), fun _ => rfl⟩
  split
  · rename_i h
    obtain ⟨hput, hname⟩ := h
    have hdel : r.httpMethod ≠ "DELETE" := by rw [hput]; decide
    unfold putTemplate
    split
    · rename_i hd
      exact ⟨fun _ => .inr (.inl hd), fun _ => rfl⟩
    rename_i hd
    split
    · rename_i hj
      refine ⟨fun _ => .inr (.inr (.inr (.inl ⟨hput, ?_⟩))), fun _ => rfl⟩
      obtain ⟨b, hb, hjson⟩ := (Option.any_eq_true _ _).1 hj
      exact ⟨b, hb, by simpa using hjson⟩
    rename_i hj
    have hbody : ¬ ∃ b, r.body = some b ∧ env.json b = false := by
      intro h
      obtain ⟨b, hb, hjson⟩ := h
      exact hj ((Option.any_eq_true _ _).2 ⟨b, hb, by rw [hjson]; rfl⟩)
    split
    · rename_i hs
      simp [Reply.changes, ApiEffect.row?, hname, hd, hput, hbody, hs]
    · rename_i hs
      exact ⟨fun _ => .inr (.inr (.inr (.inr (by simpa using hs)))), fun _ => rfl⟩
  split
  · rename_i h
    obtain ⟨hdel, hname⟩ := h
    have hput : r.httpMethod ≠ "PUT" := by rw [hdel]; decide
    unfold deleteTemplate
    split
    · rename_i hd
      exact ⟨fun _ => .inr (.inl hd), fun _ => rfl⟩
    rename_i hd
    split
    · rename_i hs
      simp [Reply.changes, ApiEffect.row?, hname, hd, hdel, hs]
    · rename_i hs
      exact ⟨fun _ => .inr (.inr (.inr (.inr (by simpa using hs)))), fun _ => rfl⟩
  · rename_i hput hdel
    refine ⟨fun _ => ?_, fun _ => rfl⟩
    by_cases hname : r.param "name" = ""
    · exact .inl hname
    · exact .inr (.inr (.inl ⟨fun h => hput ⟨h, hname⟩, fun h => hdel ⟨h, hname⟩⟩))

/-- **Role gating.** Two requests for one route whose tokens both fail verification get the same decision; and a POST,
PUT or DELETE changes something only for a caller that ranks, except for the writes of the templates Lambda. -/
theorem role_gating (hr : cfg.rbac.rbacEnabled = true) :
    (∀ f r r', r.httpMethod = r'.httpMethod → r.resource = r'.resource → Unverified cfg r → Unverified cfg r' →
      authorised cfg f r = authorised cfg f r') ∧
    ∀ f r run k, RoleGated cfg env f r run k ↔ (f = .templates → r.mutating = true → Ranks cfg r ∨ TemplateIdle env r) := by
  constructor
  · intro f r r' hm hres hv hv'
    cases f with
    | api =>
      show rbacCheck cfg.rbac r = rbacCheck cfg.rbac r'
      rw [rbacCheck, rbacCheck, getUserRole_of_unverified hv, getUserRole_of_unverified hv', hm, hres]
    | skills => rfl
    | templates => rfl
  · intro f r run k
    cases f with
    | api =>
      refine ⟨fun _ h => (ApiLambda.noConfusion h), fun _ hm hchanges => ?_⟩
      by_contra hn
      exact hchanges (lambdaHandler_denied hr hm hn).2
    | skills =>
      refine ⟨fun _ h => (ApiLambda.noConfusion h), fun _ hm hchanges => absurd ?_ hchanges⟩
      show (skillsHandler env r).changes = []
      unfold skillsHandler
      split <;> rfl
    | templates =>
      constructor
      · intro h _ hm
        by_cases hidle : TemplateIdle env r
        · exact .inr hidle
        · exact .inl (h hm fun hc => hidle (templatesHandler_changes.1 hc))
      · intro h hm hchanges
        rcases h rfl hm with hrank | hidle
        · exact hrank
        · exact absurd (templatesHandler_changes.2 hidle) hchanges

end Lambdas

/-! ## A caller with an API key only -/

/-- Role checks are on, no token verifies, and without one the role is `viewer`. -/
def viewerOnly : ApiConfig where
  rbac := { rbacEnabled := true, verify := fun _ => none }

/-- Every text is JSON. -/
def lenientCatalog : CatalogEnv := { json := fun _ => true }

/-- `PUT /templates/base` with an API key only. -/
def putTemplateRequest : ApiRequest :=
  { httpMethod := "PUT", resource := "/templates/\x7bname\x7d", path := "/templates/base",
    pathParameters := [("name", "base")], apiKeyId := some "k", body := some "\x7b\x7d" }

/-- `POST /tenants` with a token that does not verify. -/
def forgedRequest : ApiRequest :=
  { httpMethod := "POST", resource := "/tenants", path := "/tenants", headers := [("authorization", "Bearer x.y.z")] }

def someClock : AuditClock := ⟨0, ⟨"2026-05-17T12:00:00+00:00", by decide⟩, "u"⟩

/-- The api Lambda lets nobody but an operator create a tenant. -/
theorem role_gating_viewer :
    RoleGated viewerOnly lenientCatalog .api forgedRequest ⟨[.table "tenants"], .returned 201⟩ someClock :=
  ((@role_gating viewerOnly lenientCatalog rfl).2 _ _ _ _).2 fun h => ApiLambda.noConfusion h

/-- **Anyone with an API key rewrites a template.** -/
theorem templates_not_gated : handle viewerOnly lenientCatalog .templates putTemplateRequest ⟨[], .returned 200⟩ someClock =
      { statusCode := 200, effects := [.object "templates/openclaw/base/openclaw.json"] } ∧
    getUserRole viewerOnly.rbac putTemplateRequest = "viewer" ∧
    ¬ RoleGated viewerOnly lenientCatalog .templates putTemplateRequest ⟨[], .returned 200⟩ someClock := by
  have hreply : handle viewerOnly lenientCatalog .templates putTemplateRequest ⟨[], .returned 200⟩ someClock =
      { statusCode := 200, effects := [.object "templates/openclaw/base/openclaw.json"] } := by decide +kernel
  have hrole : getUserRole viewerOnly.rbac putTemplateRequest = "viewer" := by decide +kernel
  refine ⟨hreply, hrole, fun h => ?_⟩
  have hranks : Ranks viewerOnly putTemplateRequest := h (by decide +kernel) (by rw [hreply]; decide +kernel)
  rw [Ranks, hrole] at hranks
  revert hranks
  decide +kernel

end OpenClaw
