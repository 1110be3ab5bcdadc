import Mathlib

/-!
# Request bodies

A body after `json.loads`, with the operations of Python that the handlers use on it. The fields of an object are a
dictionary: the first one of a name counts.
-/

namespace OpenClaw

/-- A JSON value. -/
inductive Json
  | null
  | bool (b : Bool)
  | num (q : ℚ)
  | str (s : String)
  | arr (vs : List Json)
  | obj (fields : List (String × Json))

/-- Python's truth value. -/
def Json.truthy : Json → Bool
  | .null => false
  | .bool b => b
  | .num q => q ≠ 0
  | .str s => s ≠ ""
  | .arr vs => !vs.isEmpty
  | .obj fields => !fields.isEmpty

/-- `isinstance(v, str)`. -/
def Json.text? : Json → Option String
  | .str s => some s
  | _ => none

/-- `isinstance(v, list) and all(isinstance(s, str) for s in v)`. -/
def Json.texts? : Json → Option (List String)
  | .arr vs => vs.mapM Json.text?
  | _ => none

/-- `v or d`. -/
def orElse (v : Option Json) (d : Json) : Json := (v.filter Json.truthy).getD d

end OpenClaw
