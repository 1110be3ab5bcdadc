import OpenClaw.Control.Routing
import OpenClaw.Api.Names

/-!
# The routing cutover

`rebuildRouting` gives the routable tenants their listener rules back, `purgePerTenantRouting` deletes such rules. Both
answer with one line for each tenant or rule they looked at, and change nothing on a dry run.
-/

namespace OpenClaw

open Atomic

variable (cfg : Config)

/-! ## Requests and replies -/

/-- A field of a JSON body; `null` counts as absent where the code treats it so. -/
inductive Field (α : Type)
  | absent
  | given (a : α)
  /-- A value of another type. -/
  | malformed

inductive AdminReply (α : Type)
  | badRequest (error : String)
  /-- 501: no listener is configured. -/
  | notConfigured (error : String)
  /-- 502: the rules could not be read. -/
  | upstream (error : String)
  | ok (a : α)

def AdminReply.answer {α : Type} : AdminReply α → Option α
  | .ok a => some a
  | _ => none

/-- The answer without a listener. -/
def noListener {α : Type} : AdminReply α := .notConfigured "ALB listener not configured (ALB_LISTENER_ARN unset)"

/-- The answer when `describe_rules` raises; the text of the exception follows. -/
def rulesUnread {α : Type} : AdminReply α := .upstream "describe_rules failed: "

/-! ## Tenants named by a rule -/

/-- The text after the first `/vm/`. -/
def afterVm : List Char → Option (List Char)
  | [] => none
  | c :: cs => if "/vm/".toList.isPrefixOf (c :: cs) then some ((c :: cs).drop 4) else afterVm cs

/-- `v.split("/vm/", 1)[1].split("/", 1)[0]`, if `"/vm/" in v`. -/
def pathTid (v : String) : Option TenantId := (afterVm v.toList).map fun cs => String.ofList (cs.takeWhile (· ≠ '/'))

def Rule.values (r : Rule) : List String := r.conditions.flatMap RuleCondition.values

/-- The tenants a rule routes; the catch-all value is no tenant. -/
def Rule.tids (r : Rule) : List TenantId := (r.values.filter (· ≠ "/vm/*")).filterMap pathTid

/-- `sorted(tids)[0]`. -/
def firstTid (tids : List TenantId) : Option TenantId :=
  (tids.insertionSort fun a b => strLe a.toList b.toList).head?

/-! ## Purge -/

structure PurgeRequest where
  dryRun : Field Bool := .absent
  tenantIds : Field (List TenantId) := .absent

inductive PurgeAction
  | wouldDelete
  | deleted
  | failed
deriving DecidableEq

structure PurgeResult where
  tenantId : Option TenantId
  priority : Option Nat
  action : PurgeAction
deriving DecidableEq

structure PurgeReport where
  dryRun : Bool
  routingMode : RoutingMode
  results : List PurgeResult

/-- The `counts` of the report. -/
def PurgeReport.count (p : PurgeReport) (a : PurgeAction) : Nat := (p.results.filter fun r => r.action = a).length

/-- `set(only) if only else None`: the list that restricts the purge. -/
def PurgeRequest.only : Field (List TenantId) → Option (List TenantId)
  | .given (t :: ts) => some (t :: ts)
  | _ => none

/-- The rule is one that is deleted. -/
def Rule.purged (only : Option (List TenantId)) (r : Rule) : Bool :=
  r.priority.isSome && (!r.tids.isEmpty && only.all fun ids => r.tids.any ids.contains)

/-- The loop over the rules. -/
def purgeRules (dry : Bool) (only : Option (List TenantId)) : List Rule → CtlProg (List PurgeResult)
  | [] => pure []
  | r :: rs =>
    if r.purged only then
      if dry then do
        let rest ← purgeRules dry only rs
        pure (⟨firstTid r.tids, r.priority, .wouldDelete⟩ :: rest)
      else do
        let ok ← req (.deleteRule r.arn)
        let rest ← purgeRules dry only rs
        pure (⟨firstTid r.tids, r.priority, if ok then .deleted else .failed⟩ :: rest)
    else purgeRules dry only rs

/-- `purge_per_tenant_routing` after the body was checked. -/
def purgeListener (dry : Bool) (only : Option (List TenantId)) : CtlProg (AdminReply PurgeReport) :=
  if cfg.albListenerArn = false then pure noListener
  else do
    let rules ← req .describeRules
    match rules with
    | none => pure rulesUnread
    | some rules => do
      let results ← purgeRules dry only rules
      pure (.ok ⟨dry, cfg.routingMode, results⟩)

/-- `purge_per_tenant_routing`. -/
def purgePerTenantRouting (r : PurgeRequest) : CtlProg (AdminReply PurgeReport) :=
  match r.dryRun, r.tenantIds with
  | .malformed, _ => pure (.badRequest "dry_run must be a boolean")
  | _, .malformed => pure (.badRequest "tenant_ids must be a list of tenant ids")
  | .given dry, ids => purgeListener cfg dry (PurgeRequest.only ids)
  | .absent, ids => purgeListener cfg true (PurgeRequest.only ids)

/-! ## Rebuild -/

structure RebuildRequest where
  dryRun : Field Bool := .absent
  /-- An empty mode is an absent one. -/
  mode : Option String := none

/-- What becomes of one tenant. -/
inductive RebuildAction
  | existing
  | skipped (reason : String)
  | wouldCreate (host : HostId)
  | created (host : HostId)
  | failed (reason : String)
deriving DecidableEq

structure RebuildResult where
  tenantId : TenantId
  action : RebuildAction
deriving DecidableEq

structure RebuildReport where
  mode : String
  dryRun : Bool
  routingMode : RoutingMode
  tenantsConsidered : Nat
  existingListenerRules : Nat
  results : List RebuildResult

/-- `(body.get("mode") or "per-tenant").strip()`. -/
def RebuildRequest.modeOf (r : RebuildRequest) : String :=
  pyStrip (match r.mode with
    | none => "per-tenant"
    | some m => if m = "" then "per-tenant" else m)

/-- The tenants the rules present name already. -/
def routedTids (rules : List Rule) : List TenantId := rules.flatMap fun r => r.values.filterMap pathTid

/-- `force=True` passes the gate of `host-tg`: as under per-tenant routing. -/
def Config.forced : Config := { cfg with routingMode := .perTenant }

/-- The target group of a host in `hosts_seen`, looked up when it is not there; the outer `none` is an exception. -/
def seenTg (seen : List (HostId × Option TgArn)) (host : HostId) :
    CtlProg (Option (Option TgArn × List (HostId × Option TgArn))) :=
  match seen.lookup host with
  | some tg => pure (some (tg, seen))
  | none => do
    let row ← req (.getHost host)
    let ip := (row.bind HostRow.privateIp).getD ""
    if ip = "" then pure (some (none, (host, none) :: seen))
    else do
      let tg ← ensureHostTg cfg.forced host ip
      match tg with
      | none => pure none
      | some tg => pure (some (tg, (host, tg) :: seen))

/-- The rule of one tenant that has none. -/
def rebuildTenant (seen : List (HostId × Option TgArn)) (tid : TenantId) (host : HostId) :
    CtlProg (RebuildAction × List (HostId × Option TgArn)) := do
  let r ← seenTg cfg seen host
  match r with
  | none => pure (.failed "exception", seen)
  | some (none, seen) => pure (.failed ("host " ++ host ++ " has no private_ip"), seen)
  | some (some tg, seen) => do
    let ok ← addAlbRule cfg.forced tid (some tg)
    pure (if ok then .created host else .failed "exception", seen)

/-- The loop over the tenants. -/
def rebuildTenants (dry : Bool) (have' : List TenantId) :
    List TenantRow → List (HostId × Option TgArn) → CtlProg (List RebuildResult)
  | [], _ => pure []
  | t :: ts, seen =>
    if t.id = "" then rebuildTenants dry have' ts seen
    else if have'.contains t.id then do
      let rest ← rebuildTenants dry have' ts seen
      pure (⟨t.id, .existing⟩ :: rest)
    else if t.hostId.getD "" = "" then do
      let rest ← rebuildTenants dry have' ts seen
      pure (⟨t.id, .skipped "no host_id"⟩ :: rest)
    else if dry then do
      let rest ← rebuildTenants dry have' ts seen
      pure (⟨t.id, .wouldCreate (t.hostId.getD "")⟩ :: rest)
    else do
      let (a, seen) ← rebuildTenant cfg seen t.id (t.hostId.getD "")
      let rest ← rebuildTenants dry have' ts seen
      pure (⟨t.id, a⟩ :: rest)

/-- `rebuild_routing` after the body was checked. -/
def rebuildListener (mode : String) (dry : Bool) : CtlProg (AdminReply RebuildReport) :=
  if mode ≠ "per-tenant" then
    pure (.badRequest ("unsupported mode '" ++ mode ++ "'; only 'per-tenant' can be rebuilt "
      ++ "(host-tg routing is a static template rule)"))
  else if cfg.albListenerArn = false then pure noListener
  else do
    let tenants ← req (.scanTenants .routable)
    let rules ← req .describeRules
    match rules with
    | none => pure rulesUnread
    | some rules => do
      let results ← rebuildTenants cfg dry (routedTids rules) tenants []
      pure (.ok ⟨mode, dry, cfg.routingMode, tenants.length, (rules.filter fun r => r.priority.isSome).length, results⟩)

/-- `rebuild_routing`. -/
def rebuildRouting (r : RebuildRequest) : CtlProg (AdminReply RebuildReport) :=
  match r.dryRun with
  | .malformed => pure (.badRequest "dry_run must be a boolean")
  | .given dry => rebuildListener cfg r.modeOf dry
  | .absent => rebuildListener cfg r.modeOf true

end OpenClaw
