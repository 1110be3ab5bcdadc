import OpenClaw.Control.Calls

/-!
# Routing through the load balancer

Per-tenant routing keeps one listener rule for each tenant and one target group for each host; under `host-tg` the
routing functions do nothing. Both Lambdas have their own copies: the API adds rules for new tenants
(`addAlbRule`), the health check moves them (`repointAlbRule`). `none` and `false` are exceptions.
-/

namespace OpenClaw

open Atomic

variable (cfg : Config)

/-- Some value of some condition of the rule contains `/vm/<tid>`. -/
def Rule.mentions (r : Rule) (tid : TenantId) : Bool :=
  r.conditions.any fun c => c.values.any fun v => hasSub ("/vm/" ++ tid) v

/-- The same, over path-pattern conditions only. -/
def Rule.pathMentions (r : Rule) (tid : TenantId) : Bool :=
  r.conditions.any fun c => c.field = "path-pattern" && c.values.any fun v => hasSub ("/vm/" ++ tid) v

/-- A path-pattern condition of the rule lists `/vm/<tid>` itself. -/
def Rule.pathIs (r : Rule) (tid : TenantId) : Bool :=
  r.conditions.any fun c => c.field = "path-pattern" && c.values.contains ("/vm/" ++ tid)

/-- `sorted(set(range(MIN, MAX + 1)) - used)`. -/
def freePriorities (rules : List Rule) : List Nat :=
  (List.range' cfg.perTenantPriorityMin (cfg.perTenantPriorityMax + 1 - cfg.perTenantPriorityMin)).filter
    fun p => !(rules.any fun r => r.priority = some p)

/-! ## The API's helpers -/

/-- `_ensure_host_tg`: the target group of the host, created if the load balancer does not have it. The shared one of
`host-tg` is `none` inside. -/
def ensureHostTg (host : HostId) (privateIp : String) : CtlProg (Option (Option TgArn)) :=
  if cfg.routingMode = .hostTg then pure (some none)
  else do
    let found ← req (.describeTg (hostTgName host))
    match found with
    | some a => pure (some (some a))
    | none => do
      let made ← req (.createTg (hostTgName host))
      match made with
      | none => pure none
      | some a => do
        let ok ← req (.registerTargets a privateIp)
        pure (if ok then some (some a) else none)

/-- One pass of the loops that create a tenant's rule: `some true` is done, `some false` is another attempt. -/
def createRuleAttempt (tid : TenantId) (tg : TgArn) : CtlProg (Option Bool) := do
  let rules ← req .describeRules
  match rules with
  | none => pure none
  | some rules =>
    if rules.any fun r => r.mentions tid then pure (some true)
    else if (freePriorities cfg rules).isEmpty then pure none
    else do
      let p ← req (.choice (freePriorities cfg rules))
      let r ← req (.createRule p [pathPattern tid] tg)
      match r with
      | .created => pure (some true)
      | .priorityInUse => pure (some false)
      | .error => pure none

/-- The loop of `_add_alb_rule`; running out of attempts raises. -/
def addRuleLoop (tid : TenantId) (tg : TgArn) : Nat → CtlProg Bool
  | 0 => pure false
  | n + 1 => do
    let r ← createRuleAttempt cfg tid tg
    match r with
    | none => pure false
    | some true => pure true
    | some false => addRuleLoop tid tg n

/-- `_add_alb_rule`. -/
def addAlbRule (tid : TenantId) (tg : Option TgArn) : CtlProg Bool :=
  if cfg.routingMode = .hostTg then pure true
  else if cfg.albListenerArn = false then pure true
  else
    match tg with
    | none => pure true
    | some tg => addRuleLoop cfg tid tg 6

/-- `_repoint_alb_rule_to_tg`, which nothing calls. -/
def repointAlbRuleToTg (tid : TenantId) (tg : TgArn) : CtlProg Bool :=
  if cfg.routingMode = .hostTg then pure true
  else if cfg.albListenerArn = false then pure true
  else do
    let rules ← req .describeRules
    match rules with
    | none => pure false
    | some rules =>
      match rules.find? fun r => r.pathMentions tid with
      | some r => req (.modifyRule r.arn tg)
      | none => addAlbRule cfg tid (some tg)

/-- `_remove_alb_rule`: the first rule that lists the tenant's own path. -/
def removeAlbRule (tid : TenantId) : CtlProg Bool :=
  if cfg.routingMode = .hostTg then pure true
  else if cfg.albListenerArn = false then pure true
  else do
    let rules ← req .describeRules
    match rules with
    | none => pure false
    | some rules =>
      match rules.find? fun r => r.pathIs tid with
      | none => pure true
      | some r => req (.deleteRule r.arn)

/-- Delete rules one after the other until one raises. -/
def deleteRules : List Rule → CtlProg Bool
  | [] => pure true
  | r :: rs => do
    let ok ← req (.deleteRule r.arn)
    if ok then deleteRules rs else pure false

/-- `_remove_host_tg`; every exception is swallowed. -/
def removeHostTg (host : HostId) : CtlProg Unit := do
  let tg ← req (.describeTg (hostTgName host))
  match tg with
  | none => pure ()
  | some a =>
    if cfg.albListenerArn = false then do
      let _ ← req (.deleteTg a)
      pure ()
    else do
      let rules ← req .describeRules
      match rules with
      | none => pure ()
      | some rules => do
        let ok ← deleteRules (rules.filter fun r => r.actions.contains a)
        if ok then do
          let _ ← req (.deleteTg a)
          pure ()
        else pure ()

/-! ## The health check's repoint -/

/-- The loop that creates a missing rule; running out of attempts is silent here. -/
def repointLoop (tid : TenantId) (tg : TgArn) : Nat → CtlProg Bool
  | 0 => pure true
  | n + 1 => do
    let r ← createRuleAttempt cfg tid tg
    match r with
    | none => pure false
    | some true => pure true
    | some false => repointLoop tid tg n

/-- The target group of the target host, found or created. -/
def targetTg (host : HostId) : CtlProg (Option TgArn) := do
  let found ← req (.describeTg (hostTgName host))
  match found with
  | some a => pure (some a)
  | none => req (.createTg (hostTgName host))

/-- `_repoint_alb_rule`: `/vm/<tid>*` forwards to the target host's group; `false` when it raised. -/
def repointAlbRule (tid : TenantId) (host : HostId) (privateIp : String) : CtlProg Bool :=
  if cfg.routingMode = .hostTg then pure true
  else if cfg.albListenerArn = false then pure true
  else do
    let tg ← targetTg host
    match tg with
    | none => pure false
    | some tg => do
      -- A failed registration is only logged.
      let _ ← req (.registerTargets tg privateIp)
      let rules ← req .describeRules
      match rules with
      | none => pure false
      | some rules =>
        match rules.find? fun r => r.pathMentions tid with
        | some r => req (.modifyRule r.arn tg)
        | none => repointLoop cfg tid tg 6

end OpenClaw
