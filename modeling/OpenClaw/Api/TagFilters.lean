import OpenClaw.Api.Json
import OpenClaw.Control.Actions

/-!
# Tag filters

`GET /tenants?tag=k:v` and the `filter` of `POST /batch/tenants` read the same expression with two parsers.

- `listTenants`, `resolveFilterExpr`: the two selections.
- `tag_filter`: they agree, and nothing is selected without a tag, unless the batch filter has no expression at all, which
  selects every tenant.
-/

namespace OpenClaw

/-! ## Expressions -/

/-- `r.split(":", 1)` of a text with a colon in it. -/
def splitColon (s : String) : Option (String × String) :=
  if ':' ∈ s.toList then
    some (String.ofList (s.toList.takeWhile (· ≠ ':')), String.ofList ((s.toList.dropWhile (· ≠ ':')).drop 1))
  else none

/-- The tag of a tenant's map. -/
def TenantRow.hasTag (t : TenantRow) (kv : String × String) : Bool := t.tags.lookup kv.1 = some kv.2

/-! ## Lists -/

/-- `_collect_tag_filters`, with the query parameters and the repeated ones; `none` stands for the filter that matches
nothing. -/
def collectTagFilters (query : List (String × String)) (multi : List (String × List String)) :
    List (Option (String × String)) :=
  match multi.lookup "tag", query.lookup "tag" with
  | some raw, _ => raw.map splitColon
  | none, some r => [splitColon r]
  | none, none => []

/-- `_matches_all_tags`. -/
def matchesAllTags (t : TenantRow) (filters : List (Option (String × String))) : Bool :=
  filters.all fun f => f.any t.hasTag

/-- `list_tenants` on a scan of the table. -/
def listTenants (items : List TenantRow) (query : List (String × String)) (multi : List (String × List String)) :
    List TenantRow :=
  let live := items.filter fun t => t.status ≠ .deleted
  let filters := collectTagFilters query multi
  if filters.isEmpty then live else live.filter (matchesAllTags · filters)

/-! ## Batches -/

/-- `":" in v`; `none` for a `TypeError`. -/
def Json.hasColon : Json → Option Bool
  | .str s => some (':' ∈ s.toList)
  | .arr vs => some (vs.any fun v => v.text? = some ":")
  | .obj fields => some (fields.any fun f => f.1 = ":")
  | _ => none

/-- `_resolve_filter` on a scan of the table: the ids; `none` for an exception. -/
def resolveFilterExpr (items : List TenantRow) (flt : List (String × Json)) : Option (List TenantId) :=
  let live := items.filter fun t => t.status ≠ .deleted
  let expr := (flt.lookup "tag").getD (.str "")
  if expr.truthy then
    match expr.hasColon with
    | none => none
    | some false => some []
    | some true =>
      match expr.text?.bind splitColon with
      | none => none
      | some kv => some ((live.filter (TenantRow.hasTag · kv)).map TenantRow.id)
  else some (live.map TenantRow.id)

/-- `_BATCH_VALID_ACTIONS`. -/
def batchValidActions : List String := ["stop", "start", "delete", "backup"]

/-- `d.get(k) is not None`. -/
def given (fields : List (String × Json)) (key : String) : Option Json :=
  match fields.lookup key with
  | none | some .null => none
  | some v => some v

/-- The filter of a body that `batch_tenants` resolves; `none` for ids or a refusal. -/
def batchFilter : Json → Option (List (String × Json))
  | .obj fields =>
    match fields.lookup "action", given fields "ids", given fields "filter" with
    | some (.str action), none, some (.obj flt) =>
      if action ∈ batchValidActions ∧ ∀ f ∈ flt, f.1 = "tag" then some flt else none
    | _, _, _ => none
  | _ => none

/-! ## Tags -/

/-- The checks of `_validate_tags` on one tag. -/
def validTag (kv : String × String) : Bool :=
  kv.1 ≠ "" && !kv.1.toList.contains ':' && !kv.2.toList.contains ':' && kv.1.length ≤ 50 && kv.2.length ≤ 100

/-- `_validate_tags`: the tags of a valid map, and none without a map. -/
def validateTags : Option Json → Option (List (String × String))
  | none | some .null => some []
  | some (.obj fields) => do
    let tags ← fields.mapM fun f => f.2.text?.map fun v => (f.1, v)
    if tags.length ≤ 20 ∧ tags.all validTag then some tags else none
  | some _ => none

/-! ## Agreement -/

/-- The filter names no tag: it has no expression, or one that is no `key:value`. -/
def NamesNoTag (flt : List (String × Json)) : Prop := ∀ s, flt.lookup "tag" = some (.str s) → ':' ∉ s.toList

/-- What a filter is to select. -/
structure FilterAgrees (items : List TenantRow) (flt : List (String × Json)) : Prop where
  /-- The tenants of the list with the same expression. -/
  list : ∀ expr, flt.lookup "tag" = some (.str expr) → resolveFilterExpr items flt =
    some ((listTenants items [("tag", expr)] [("tag", [expr])]).map TenantRow.id)
  /-- Nothing without a tag. -/
  noTag : NamesNoTag flt → (resolveFilterExpr items flt).getD [] = []
  /-- The tenants that carry a tag of a valid map. -/
  carrying : ∀ raw tags k v, validateTags raw = some tags → (k, v) ∈ tags →
    flt.lookup "tag" = some (.str (k ++ ":" ++ v)) → resolveFilterExpr items flt =
      some ((items.filter fun t => t.status ≠ .deleted ∧ t.tags.lookup k = some v).map TenantRow.id)

section Agreement

variable {items : List TenantRow} {flt : List (String × Json)}

theorem splitColon_none {s : String} (h : ':' ∉ s.toList) : splitColon s = none := by
  simp [splitColon, h]

/-- A key without colons is read back, and so is its value. -/
theorem splitColon_tag {k v : String} (hk : ':' ∉ k.toList) : splitColon (k ++ ":" ++ v) = some (k, v) := by
  have htext : (k ++ ":" ++ v).toList = k.toList ++ ':' :: v.toList := by simp
  have hall : ∀ c ∈ k.toList, decide (c ≠ ':') = true := by
    intro c hc
    have hne : c ≠ ':' := fun h => hk (h ▸ hc)
    simp [hne]
  have htake : (k.toList ++ ':' :: v.toList).takeWhile (· ≠ ':') = k.toList := by
    rw [List.takeWhile_append_of_pos hall]
    simp
  have hdrop : (k.toList ++ ':' :: v.toList).dropWhile (· ≠ ':') = ':' :: v.toList := by
    rw [List.dropWhile_append_of_pos hall]
    simp
  unfold splitColon
  rw [htext, if_pos (by simp), htake, hdrop]
  simp

/-- The filter has an expression. -/
def HasExpr (flt : List (String × Json)) : Prop := ((flt.lookup "tag").getD (.str "")).truthy = true

/-- The tenants with the tag of an expression, and none for one that is no `key:value`. -/
def tagged (items : List TenantRow) (s : String) : List TenantRow :=
  (items.filter fun t => t.status ≠ .deleted).filter fun t => (splitColon s).any t.hasTag

theorem tagged_none {s : String} (h : ':' ∉ s.toList) : tagged items s = [] := by
  simp [tagged, splitColon_none h]

theorem tagged_tag {k v : String} (hk : ':' ∉ k.toList) : tagged items (k ++ ":" ++ v) =
    items.filter fun t => t.status ≠ .deleted ∧ t.tags.lookup k = some v := by
  simp only [tagged, splitColon_tag hk, List.filter_filter, Option.any_some, TenantRow.hasTag]
  apply List.filter_congr
  intro t _
  by_cases hd : t.status = .deleted
  · simp [hd]
  · simp [hd]

/-- The tags of a valid map are valid. -/
theorem validateTags_valid {raw : Option Json} {tags : List (String × String)} {kv : String × String}
    (h : validateTags raw = some tags) (hkv : kv ∈ tags) : validTag kv = true := by
  unfold validateTags at h
  split at h
  · cases h
    cases hkv
  · cases h
    cases hkv
  · obtain ⟨ts, -, h⟩ := Option.bind_eq_some_iff.1 h
    split at h
    · rename_i hv
      cases h
      exact List.all_eq_true.1 hv.2 kv hkv
    · cases h
  · cases h

/-- The list filter. -/
theorem listTenants_tag (s : String) : listTenants items [("tag", s)] [("tag", [s])] = tagged items s := by
  simp [listTenants, collectTagFilters, matchesAllTags, tagged]

/-- The batch filter with a text that is not empty. -/
theorem resolveFilterExpr_text {s : String} (h : flt.lookup "tag" = some (.str s)) (hs : s ≠ "") :
    resolveFilterExpr items flt = some ((tagged items s).map TenantRow.id) := by
  by_cases hc : ':' ∈ s.toList
  · simp [resolveFilterExpr, h, Json.truthy, hs, Json.hasColon, hc, Json.text?, tagged, splitColon]
  · simp [resolveFilterExpr, h, Json.truthy, hs, Json.hasColon, hc, tagged_none hc]

/-- The batch filter with another value. -/
theorem resolveFilterExpr_other (h : HasExpr flt) (hs : ∀ s, flt.lookup "tag" ≠ some (.str s)) :
    (resolveFilterExpr items flt).getD [] = [] := by
  unfold HasExpr at h
  unfold resolveFilterExpr
  cases hl : flt.lookup "tag" with
  | none => simp [hl, Json.truthy] at h
  | some v =>
    rw [hl] at h
    cases v with
    | str s => exact absurd hl (hs s)
    | _ => simp_all [Json.hasColon, Json.text?, Json.truthy] <;> split <;> simp_all

/-- The batch filter without an expression. -/
theorem resolveFilterExpr_empty (h : ¬ HasExpr flt) :
    resolveFilterExpr items flt = some ((items.filter fun t => t.status ≠ .deleted).map TenantRow.id) := by
  unfold HasExpr at h
  simp [resolveFilterExpr, h]

/-- An expression that is not empty is read alike. -/
theorem filterAgrees_expr (h : HasExpr flt) : FilterAgrees items flt where
  list expr he := by
    have hne : expr ≠ "" := by
      simpa [HasExpr, he, Json.truthy] using h
    rw [resolveFilterExpr_text he hne, listTenants_tag]
  noTag hno := by
    by_cases hs : ∃ s, flt.lookup "tag" = some (.str s)
    · obtain ⟨s, hs⟩ := hs
      have hne : s ≠ "" := by
        simpa [HasExpr, hs, Json.truthy] using h
      simp [resolveFilterExpr_text hs hne, tagged_none (hno s hs)]
    · exact resolveFilterExpr_other h fun s he => hs ⟨s, he⟩
  carrying raw tags k v hraw hkv he := by
    have hk : ':' ∉ k.toList := by
      intro hmem
      have hv := validateTags_valid hraw hkv
      simp [validTag, hmem] at hv
    have hne : k ++ ":" ++ v ≠ "" := by
      intro h0
      have := congrArg String.toList h0
      simp at this
    rw [resolveFilterExpr_text he hne, tagged_tag hk]

/-- The program of the batch, for a tag that was read from the expression. -/
theorem resolveFilter_some {s : String} {kv : String × String} (h : flt.lookup "tag" = some (.str s))
    (hs : splitColon s = some kv) : resolveFilter (some kv) = (do
      let items ← req (.scanTenants .all)
      pure ((resolveFilterExpr items flt).getD [])) := by
  have hne : s ≠ "" := by
    intro h0
    simp [splitColon, h0] at hs
  have hlist : ∀ items, resolveFilterExpr items flt = _ := fun items => resolveFilterExpr_text h hne
  simp [resolveFilter, hlist, tagged, hs, TenantRow.hasTag, List.filter_filter, Bool.and_comm]

/-- The program of the batch without a tag. -/
theorem resolveFilter_none (h : ¬ HasExpr flt) : resolveFilter none = (do
    let items ← req (.scanTenants .all)
    pure ((resolveFilterExpr items flt).getD [])) := by
  have hlist : ∀ items, resolveFilterExpr items flt = _ := fun items => resolveFilterExpr_empty h
  simp [resolveFilter, hlist]

/-- Without an expression the filter names no tag. -/
theorem namesNoTag_empty (h : ¬ HasExpr flt) : NamesNoTag flt := by
  intro s hs hc
  have h0 : s = "" := by
    simpa [HasExpr, hs, Json.truthy] using h
  simp [h0] at hc

end Agreement

/-- **The batch filter agrees with the list filter** exactly when it has an expression, or there is no tenant left to
select. -/
theorem tag_filter (flt : List (String × Json)) (items : List TenantRow) :
    FilterAgrees items flt ↔ HasExpr flt ∨ ∀ t ∈ items, t.status = .deleted := by
  by_cases h : HasExpr flt
  · simp only [h, true_or, iff_true]
    exact filterAgrees_expr h
  · simp only [h, false_or]
    have hall : resolveFilterExpr items flt = _ := resolveFilterExpr_empty h
    constructor
    · intro hagree t ht
      have hnone := hagree.noTag (namesNoTag_empty h)
      rw [hall, Option.getD_some, List.map_eq_nil_iff, List.filter_eq_nil_iff] at hnone
      simpa using hnone t ht
    · intro hdel
      have hlive : items.filter (fun t => t.status ≠ .deleted) = [] := by
        simpa [List.filter_eq_nil_iff] using hdel
      rw [hlive, List.map_nil] at hall
      exact {
        list := fun expr _ => by rw [hall, listTenants_tag, tagged, hlive, List.filter_nil, List.map_nil]
        noTag := fun _ => by rw [hall, Option.getD_some]
        carrying := fun raw tags k v _ _ _ => by
          have hnil : items.filter (fun t => t.status ≠ .deleted ∧ t.tags.lookup k = some v) = [] := by
            simp only [List.filter_eq_nil_iff, decide_eq_true_eq, not_and]
            intro t ht hlv
            exact absurd (hdel t ht) hlv
          rw [hall, hnil, List.map_nil] }

/-! ## A batch without a tag -/

/-- A tenant with a tag. -/
def mlTenant : TenantRow :=
  { id := "ml-01", status := .running, vcpu := 1, memMb := 1024, hostId := some "i-1", vmNum := some 1,
    tags := [("team", "ml")] }

/-- Stop all tenants of a team. -/
def stopMl : Json := .obj [("action", .str "stop"), ("filter", .obj [("tag", .str "team:ml")])]

/-- Stop, with an empty expression. -/
def stopNone : Json := .obj [("action", .str "stop"), ("filter", .obj [("tag", .str "")])]

theorem tag_filter_team : batchFilter stopMl = some [("tag", .str "team:ml")] ∧
    FilterAgrees [mlTenant] [("tag", .str "team:ml")] :=
  ⟨rfl, (tag_filter _ [mlTenant]).2 (.inl rfl)⟩

/-- The empty expression selects the tenant that the list does not show. -/
theorem tag_filter_blank : batchFilter stopNone = some [("tag", .str "")] ∧
    resolveFilterExpr [mlTenant] [("tag", .str "")] = some ["ml-01"] ∧
    listTenants [mlTenant] [("tag", "")] [("tag", [""])] = [] ∧ ¬ FilterAgrees [mlTenant] [("tag", .str "")] := by
  have hall : resolveFilterExpr [mlTenant] [("tag", .str "")] = some ["ml-01"] := rfl
  have hnone : listTenants [mlTenant] [("tag", "")] [("tag", [""])] = [] := rfl
  have hdiffer : ¬ FilterAgrees [mlTenant] [("tag", .str "")] := by
    intro h
    have heq := h.list "" rfl
    rw [hall, hnone] at heq
    cases heq
  exact ⟨rfl, hall, hnone, hdiffer⟩

end OpenClaw
