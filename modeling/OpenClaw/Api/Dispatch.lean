import OpenClaw.Api.Roles
import OpenClaw.Audit.Rows

/-!
# The dispatcher of the api Lambda

`lambdaHandler` looks up the route, checks the role, runs the route's handler and writes an audit row for what may
change something. A handler is taken as what it did (`HandlerRun`): the changes that went through, among them its own
audit rows, and whether it returned a response or raised.
-/

namespace OpenClaw

/-! ## Changes -/

/-- One change that went through. -/
inductive ApiEffect
  | auditRow (row : AuditRow)
  /-- A write to the tenants, hosts or groups table. -/
  | table (name : String)
  /-- A write or deletion of an S3 object. -/
  | object (key : String)
  | listenerRule
  /-- A command on a host. -/
  | host (id : String)
deriving DecidableEq

/-- The audit row of a change. -/
def ApiEffect.row? : ApiEffect → Option AuditRow
  | .auditRow row => some row
  | _ => none

/-- What a handler did. -/
inductive HandlerEnd
  | returned (statusCode : Int)
  | raised
deriving DecidableEq

structure HandlerRun where
  effects : List ApiEffect := []
  result : HandlerEnd
deriving DecidableEq

/-- What a Lambda answered, what was done for the request, and then the audit rows of the request itself. -/
structure Reply where
  statusCode : Int
  effects : List ApiEffect := []
  audited : List AuditRow := []
deriving DecidableEq

/-! ## Routes -/

/-- `routes` of `lambda_handler`. -/
def routes : List (String × String) :=
  [("GET", "/tenants"), ("POST", "/tenants"), ("GET", "/tenants/\x7bid\x7d"), ("DELETE", "/tenants/\x7bid\x7d"),
    ("POST", "/tenants/\x7bid\x7d/\x7baction\x7d"), ("GET", "/tenants/\x7bid\x7d/\x7baction\x7d"), ("GET", "/backups"),
    ("POST", "/batch/tenants"), ("GET", "/hosts"), ("POST", "/hosts"), ("POST", "/hosts/refresh-rootfs"),
    ("GET", "/hosts/rootfs-version"), ("GET", "/agentcore/status"), ("GET", "/agentcore/tools"), ("GET", "/system/info"),
    ("GET", "/audit-log"), ("DELETE", "/hosts/\x7binstance_id\x7d"), ("POST", "/hosts/\x7binstance_id\x7d/drain"),
    ("POST", "/failover/\x7baz\x7d"), ("GET", "/admin/routing/status"), ("POST", "/admin/routing/rebuild"),
    ("POST", "/admin/routing/purge-per-tenant"), ("GET", "/groups"), ("POST", "/groups"),
    ("POST", "/groups/\x7bname\x7d/skills"), ("DELETE", "/groups/\x7bname\x7d/skills/\x7bskill\x7d"),
    ("GET", "/skills/\x7bname\x7d"), ("PUT", "/skills/\x7bname\x7d"), ("DELETE", "/skills/\x7bname\x7d")]

/-- The request matches a route. -/
def ApiRequest.matched (r : ApiRequest) : Bool := (r.httpMethod, r.resource) ∈ routes

/-! ## The audit row of a request -/

/-- `_AUDIT_EVENT_MAP`. -/
def auditEventMap : List ((String × String) × String) :=
  [(("POST", "/tenants"), "tenant.created"), (("DELETE", "/tenants/\x7bid\x7d"), "tenant.deleted"),
    (("POST", "/batch/tenants"), "tenant.batch"), (("POST", "/hosts"), "host.registered"),
    (("DELETE", "/hosts/\x7binstance_id\x7d"), "host.deregistered"),
    (("POST", "/hosts/refresh-rootfs"), "host.rootfs_refreshed"), (("POST", "/groups"), "group.created"),
    (("POST", "/groups/\x7bname\x7d/skills"), "group.skill_added"),
    (("DELETE", "/groups/\x7bname\x7d/skills/\x7bskill\x7d"), "group.skill_removed"),
    (("PUT", "/skills/\x7bname\x7d"), "skill.updated"), (("DELETE", "/skills/\x7bname\x7d"), "skill.deleted"),
    (("PUT", "/templates/\x7bname\x7d"), "template.updated"), (("DELETE", "/templates/\x7bname\x7d"), "template.deleted"),
    (("POST", "/hosts/\x7binstance_id\x7d/drain"), "host.drain_started"),
    (("POST", "/failover/\x7baz\x7d"), "az.failover_requested")]

/-- `_AUDIT_ACTION_MAP`. -/
def auditActionMap : List (String × String) :=
  [("migrate", "vm.migrate_requested"), ("cancel-migration", "vm.migrate_cancelled"), ("backup", "backup.created"),
    ("resize", "tenant.resized"), ("resize-disk", "tenant.disk_resized"), ("stop", "tenant.stopped"),
    ("start", "tenant.started"), ("restart", "tenant.restarted"), ("pause", "tenant.paused"),
    ("resume", "tenant.resumed"), ("reset", "tenant.reset"), ("clone", "tenant.cloned")]

/-- `f"{method} {resource}"`. -/
def ApiRequest.operation (r : ApiRequest) : String := r.httpMethod ++ " " ++ r.resource

/-- `path_params.get(key, "")`. -/
def ApiRequest.param (r : ApiRequest) (key : String) : String := (r.pathParameters.lookup key).getD ""

/-- `_audit_event_name`. -/
def auditEventName (r : ApiRequest) : String :=
  if r.resource = "/tenants/\x7bid\x7d/\x7baction\x7d" then
    let action := r.param "action"
    (auditActionMap.lookup action).getD (if action = "" then r.operation else "tenant." ++ action)
  else (auditEventMap.lookup (r.httpMethod, r.resource)).getD r.operation

/-- `f"{kind}:{rid}" if rid else kind`. -/
def typedRef (kind rid : String) : String := if rid = "" then kind else kind ++ ":" ++ rid

/-- `_audit_object`: the typed object and the bare id. -/
def auditObject (r : ApiRequest) : String × String :=
  if r.resource.startsWith "/tenants" then (typedRef "tenant" (r.param "id"), r.param "id")
  else if r.resource.startsWith "/hosts" then (typedRef "host" (r.param "instance_id"), r.param "instance_id")
  else if r.resource.startsWith "/groups" then (typedRef "group" (r.param "name"), r.param "name")
  else if r.resource.startsWith "/skills" then (typedRef "skill" (r.param "name"), r.param "name")
  else if r.resource.startsWith "/templates" then (typedRef "template" (r.param "name"), r.param "name")
  else if r.resource.startsWith "/batch" then ("batch", "")
  else (r.resource, (orText (r.pathParameters.lookup "id") (r.pathParameters.lookup "instance_id")).getD "")

/-- The API key id, or the start of the key itself. -/
def ApiRequest.auditKey (r : ApiRequest) : String :=
  (orText r.apiKeyId (some (((r.headers.lookup "x-api-key").getD "").take 32).toString)).getD ""

/-- `_get_principal`: who the audit row names, and with which role. -/
def getPrincipal (cfg : RbacConfig) (r : ApiRequest) : String × String :=
  let apiKey := (typedRef "api-key" r.auditKey, cfg.defaultNoJwtRole)
  match bearerToken r.authorization with
  | none => apiKey
  | some token =>
    match if token = "" then none else cfg.verify token with
    | none => apiKey
    | some claims =>
      ((orText (orText (orText (some claims.email) (some claims.username)) (some claims.sub))
        (some "cognito-user")).getD "", roleFromClaims claims)

/-- The arguments of `put_audit_row` in `_audit_write`. -/
def auditWriteEntry (cfg : RbacConfig) (ttlDays : Int) (r : ApiRequest) (statusCode : Int) (now : Stamp) : AuditEntry :=
  { event := auditEventName r, obj := (auditObject r).1, resourceId := (auditObject r).2, actor := (getPrincipal cfg r).1,
    actorRole := (getPrincipal cfg r).2, operation := some r.operation, responseStatus := some statusCode,
    ttlDays := ttlDays, apiKeyId := some r.auditKey, ts := some now }

/-! ## The handler -/

/-- The deployment of the api Lambda. -/
structure ApiConfig where
  rbac : RbacConfig
  /-- `AUDIT_TABLE` is set, and writes to it succeed. -/
  auditTable : Bool := true
  auditTtlDays : Int := 90

variable (cfg : ApiConfig)

/-- The row `_audit_write` puts at the time of `k`. -/
def requestRow (r : ApiRequest) (statusCode : Int) (k : AuditClock) : AuditRow :=
  auditItem (auditWriteEntry cfg.rbac cfg.auditTtlDays r statusCode k.isoNow) k

/-- `_audit_write`, for the methods that are audited. -/
def auditWrite (r : ApiRequest) (statusCode : Int) (k : AuditClock) : List AuditRow :=
  if r.mutating && cfg.auditTable then [requestRow cfg r statusCode k] else []

/-- `lambda_handler` for an API Gateway event; `run` is what the route's handler does if it is called. -/
def lambdaHandler (r : ApiRequest) (run : HandlerRun) (k : AuditClock) : Reply :=
  if r.matched then
    if rbacCheck cfg.rbac r then
      match run.result with
      | .returned code => { statusCode := code, effects := run.effects, audited := auditWrite cfg r code k }
      | .raised => { statusCode := 500, effects := run.effects }
    else { statusCode := 403, audited := auditWrite cfg r 403 k }
  else { statusCode := 404 }

end OpenClaw
