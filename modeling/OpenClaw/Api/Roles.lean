import OpenClaw.Api.Names

/-!
# Requests and roles

- `ApiRequest`: what the API Lambdas read of an API Gateway event.
- `getUserRole`, `rbacCheck`: the role of the caller and the check of a route. The cryptographic verification of a
  token is `RbacConfig.verify`; everything the code does with its answer is here.
- `roleFromClaims_best`: the role is the best of the groups; `getUserRole_unverified`: a token that fails verification
  counts as `viewer`, whatever it says.
-/

namespace OpenClaw

/-- An API Gateway event. Path parameters and headers are dictionaries; an absent one reads as empty. -/
structure ApiRequest where
  httpMethod : String
  resource : String
  path : String := ""
  pathParameters : List (String × String) := []
  headers : List (String × String) := []
  /-- `requestContext.identity.apiKeyId`. -/
  apiKeyId : Option String := none
  body : Option String := none
deriving DecidableEq

/-- The methods that may change something. -/
def mutatingMethods : List String := ["POST", "PUT", "DELETE"]

/-- `method in ("POST", "PUT", "DELETE")`. -/
def ApiRequest.mutating (r : ApiRequest) : Bool := r.httpMethod ∈ mutatingMethods

/-! ## Tokens -/

/-- The claims of a verified token that the code reads. -/
structure Claims where
  /-- `cognito:groups`; a single group may come as a string. -/
  groups : List String := []
  email : String := ""
  username : String := ""
  sub : String := ""
deriving DecidableEq

/-- The settings of the role check. -/
structure RbacConfig where
  rbacEnabled : Bool
  defaultNoJwtRole : String := "viewer"
  /-- `_verify_and_decode`: the claims of a token whose signature, issuer and expiry are good. -/
  verify : String → Option Claims

/-- `auth[len("Bearer "):].strip()` of a text that starts so. -/
def bearerToken (auth : String) : Option String :=
  if "Bearer ".toList.isPrefixOf auth.toList then some (pyStrip (String.ofList (auth.toList.drop 7))) else none

/-- `a or b` on dictionary reads. -/
def orText (a b : Option String) : Option String := if a.getD "" = "" then b else a

/-- The `Authorization` header; only these two spellings are looked for. -/
def ApiRequest.authorization (r : ApiRequest) : String :=
  (orText (r.headers.lookup "Authorization") (r.headers.lookup "authorization")).getD ""

/-! ## Roles -/

/-- `_ROLE_RANK`. -/
def roleRank : String → Option Int
  | "viewer" => some 0
  | "operator" => some 1
  | "admin" => some 2
  | _ => none

/-- The loop of `_role_from_claims`. -/
def bestRole (best : Option String) (g : String) : Option String :=
  match roleRank g, best.bind roleRank with
  | none, _ => best
  | some _, none => some g
  | some n, some m => if m < n then some g else best

/-- `_role_from_claims`. -/
def roleFromClaims (c : Claims) : String := (c.groups.foldl bestRole none).getD "viewer"

variable (cfg : RbacConfig)

/-- `_get_user_role`. -/
def getUserRole (r : ApiRequest) : String :=
  match bearerToken r.authorization with
  | none => cfg.defaultNoJwtRole
  | some token =>
    match if token = "" then none else cfg.verify token with
    | none => "viewer"
    | some claims => roleFromClaims claims

/-- `_role_satisfies`. -/
def roleSatisfies (actual required : String) : Bool := (roleRank required).getD 99 ≤ (roleRank actual).getD (-1)

/-- `_ADMIN_ONLY`. -/
def adminOnly : List (String × String) :=
  [("POST", "/failover/\x7baz\x7d"), ("POST", "/admin/routing/rebuild"), ("POST", "/admin/routing/purge-per-tenant")]

/-- `_VIEWER_OK`. -/
def viewerOk : List (String × String) :=
  [("GET", "/tenants"), ("GET", "/tenants/\x7bid\x7d"), ("GET", "/tenants/\x7bid\x7d/\x7baction\x7d"),
    ("GET", "/backups"), ("GET", "/hosts"), ("GET", "/hosts/rootfs-version"), ("GET", "/agentcore/status"),
    ("GET", "/agentcore/tools"), ("GET", "/system/info"), ("GET", "/audit-log"), ("GET", "/admin/routing/status"),
    ("GET", "/groups"), ("GET", "/skills/\x7bname\x7d")]

instance instLawfulBEqRoute : LawfulBEq (String × String) := inferInstance

/-- The role a route needs. -/
def neededRole (method resource : String) : String :=
  if (method, resource) ∈ adminOnly then "admin"
  else if (method, resource) ∈ viewerOk then "viewer"
  else "operator"

/-- `_rbac_check`: whether the request is let through. -/
def rbacCheck (r : ApiRequest) : Bool :=
  !cfg.rbacEnabled || roleSatisfies (getUserRole cfg r) (neededRole r.httpMethod r.resource)

/-! ## Facts about roles -/

/-- No route of `_VIEWER_OK` has a mutating method. -/
theorem neededRole_mutating {r : ApiRequest} (h : r.mutating = true) :
    neededRole r.httpMethod r.resource = if (r.httpMethod, r.resource) ∈ adminOnly then "admin" else "operator" := by
  have hget : ∀ x ∈ viewerOk, x.1 = "GET" := by decide +kernel
  have hno : (r.httpMethod, r.resource) ∉ viewerOk := by
    intro hm
    have hg : r.httpMethod = "GET" := hget _ hm
    rw [ApiRequest.mutating, hg] at h
    exact absurd h (by decide +kernel)
  rw [neededRole, if_neg hno]

/-- A token that fails verification counts as `viewer`. -/
theorem getUserRole_unverified {r : ApiRequest} {token : String} (ht : bearerToken r.authorization = some token)
    (hv : cfg.verify token = none) : getUserRole cfg r = "viewer" := by
  rw [getUserRole, ht]
  dsimp only
  rw [hv, ite_self]

/-- The best role so far: a known group of those read, or none if there is none, and no worse than any of them. -/
structure Best (gs : List String) (best : Option String) : Prop where
  mem : ∀ b, best = some b → b ∈ gs ∧ (roleRank b).isSome = true
  top : ∀ g ∈ gs, ∀ n, roleRank g = some n → ∃ b m, best = some b ∧ roleRank b = some m ∧ n ≤ m

theorem Best.snoc {gs : List String} {best : Option String} (h : Best gs best) (g : String) :
    Best (gs ++ [g]) (bestRole best g) := by
  have hkeep : ∀ {b : String}, best = some b → b ∈ gs ++ [g] ∧ (roleRank b).isSome = true := by
    intro b hb
    obtain ⟨hm, hr⟩ := h.mem b hb
    exact ⟨List.mem_append_left _ hm, hr⟩
  have hrank : ∀ {b : String}, best = some b → best.bind roleRank = roleRank b := fun hb => by rw [hb]; rfl
  unfold bestRole
  cases hg : roleRank g with
  | none =>
    refine ⟨fun b hb => hkeep hb, fun x hx n hn => ?_⟩
    rcases List.mem_append.1 hx with hx | hx
    · exact h.top x hx n hn
    · rw [List.mem_singleton.1 hx, hg] at hn
      cases hn
  | some n =>
    have hself : ∀ b, some g = some b → b ∈ gs ++ [g] ∧ (roleRank b).isSome = true := by
      intro b hb
      obtain rfl := Option.some.inj hb
      exact ⟨List.mem_append_right _ (List.mem_singleton_self _), by rw [hg]; rfl⟩
    cases hb : best.bind roleRank with
    | none =>
      have hnone : best = none := by
        by_contra hne
        obtain ⟨b, hbest⟩ := Option.ne_none_iff_exists'.1 hne
        have hsome := (h.mem b hbest).2
        rw [hrank hbest] at hb
        rw [hb] at hsome
        cases hsome
      refine ⟨hself, fun x hx k hk => ?_⟩
      rcases List.mem_append.1 hx with hx | hx
      · obtain ⟨b, -, hbest, -⟩ := h.top x hx k hk
        rw [hnone] at hbest
        cases hbest
      · rw [List.mem_singleton.1 hx] at hk
        exact ⟨g, k, rfl, hk, le_refl _⟩
    | some m =>
      obtain ⟨b, hbest, hm⟩ := Option.bind_eq_some_iff.1 hb
      dsimp only
      split
      · rename_i hlt
        refine ⟨hself, fun x hx k hk => ?_⟩
        rcases List.mem_append.1 hx with hx | hx
        · obtain ⟨b', m', hbest', hm', hle⟩ := h.top x hx k hk
          obtain rfl := Option.some.inj (hbest.symm.trans hbest')
          obtain rfl := Option.some.inj (hm.symm.trans hm')
          exact ⟨g, n, rfl, hg, by omega⟩
        · rw [List.mem_singleton.1 hx] at hk
          exact ⟨g, k, rfl, hk, le_refl _⟩
      · rename_i hge
        refine ⟨fun b hb => hkeep hb, fun x hx k hk => ?_⟩
        rcases List.mem_append.1 hx with hx | hx
        · exact h.top x hx k hk
        · rw [List.mem_singleton.1 hx, hg] at hk
          obtain rfl := Option.some.inj hk
          exact ⟨b, m, hbest, hm, by omega⟩

/-- **The role of verified claims**: it is `viewer` or one of the groups, and no group ranks above it. -/
theorem roleFromClaims_best (c : Claims) : (roleFromClaims c = "viewer" ∨ roleFromClaims c ∈ c.groups) ∧
    ∀ g ∈ c.groups, roleSatisfies (roleFromClaims c) g = true ∨ roleRank g = none := by
  have hfold : ∀ (done gs : List String) (best : Option String), Best done best →
      Best (done ++ gs) (gs.foldl bestRole best) := by
    intro done gs
    induction gs generalizing done with
    | nil => exact fun best h => by simpa using h
    | cons g gs ih => exact fun best h => by simpa using ih _ _ (h.snoc g)
  have h := hfold [] c.groups none ⟨fun _ hb => absurd hb.symm (Option.some_ne_none _), fun _ hg => absurd hg List.not_mem_nil⟩
  rw [List.nil_append] at h
  unfold roleFromClaims
  constructor
  · cases hb : c.groups.foldl bestRole none with
    | none => exact .inl rfl
    | some b => exact .inr (h.mem b hb).1
  · intro g hg
    cases hr : roleRank g with
    | none => exact .inr rfl
    | some n =>
      obtain ⟨b, m, hb, hm, hle⟩ := h.top g hg n hr
      refine .inl ?_
      rw [hb, Option.getD_some, roleSatisfies, hr, hm]
      simpa using hle

end OpenClaw
