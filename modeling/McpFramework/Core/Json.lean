import McpFramework.Core.Time

/-!
# Core — Json

The JSON values of `serde_json` and the reads the framework makes of them.
-/

namespace McpFramework

/-- `serde_json::Number`; the 64 bits of a float are not looked at. -/
inductive JsonNumber where
  | posInt (n : Nat)
  | negInt (n : Int)
  | float (bits : Nat)
deriving DecidableEq, Repr

/-- `serde_json::Value`. No key of an object occurs twice in one. -/
inductive Json where
  | null
  | bool (b : Bool)
  | num (n : JsonNumber)
  | str (s : String)
  | arr (items : List Json)
  | obj (fields : List (String × Json))

namespace Json

def asStr : Json → Option String
  | .str s => some s
  | _ => none

def asU64 : Json → Option Nat
  | .num (.posInt n) => if n ≤ Duration.u64Max then some n else none
  | _ => none

def isString (j : Json) : Bool := j.asStr.isSome

end Json

end McpFramework
