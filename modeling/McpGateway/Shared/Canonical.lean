import McpGateway.Js.Date
import McpGateway.Js.JsonLaws
import McpGateway.Js.Sha256
import Mathlib.Data.List.Sort

/-!
# Canonical JSON

`canonicalize` serialises a value so that structurally equal values have equal
texts: object keys are sorted by code unit, undefined properties are dropped, a
`Date` is its ISO text and a `bigint` its decimal text. What it writes is the
JSON text of the value's normal form, and that text determines the normal form.
A value here is a tree, as every value the gateway hashes is.
-/

namespace McpGateway.Shared

open Js

inductive CanonicalValue
  | undefined
  | null
  | boolean (b : Bool)
  | number (n : JsNumber)
  | bigint (n : ℤ)
  | string (s : JsString)
  | date (d : Date)
  | array (items : List CanonicalValue)
  | object (props : List (JsString × CanonicalValue))

/-- What the encoder or `toISOString` throws. -/
inductive JsError
  | typeError (message : JsString)
  | rangeError (message : JsString)
  deriving DecidableEq

def toISOString : Date → Except JsError JsString
  | some t => .ok t.isoString
  | none => .error (.rangeError (js "Invalid time value"))

/-- `Object.keys(record).sort()`, each key with what goes with it. -/
def sortKeys (ps : List (JsString × α)) : List (JsString × α) :=
  ps.insertionSort fun p q => p.1 ≤ q.1

/-- The parts of an object in the order of the keys: the first failure is thrown
and an undefined part is left out. -/
def collect : List (JsString × Except ε (Option α)) → Except ε (List (JsString × α))
  | [] => .ok []
  | (key, part) :: ps => do
    match ← part with
    | none => collect ps
    | some a => return (key, a) :: (← collect ps)

/-- `String(value)` of a number that is not finite. -/
def nonFiniteText : JsNumber → JsString
  | .infinity false => js "Infinity"
  | .infinity true => js "-Infinity"
  | _ => js "NaN"

section
variable (numberText : ℚ → JsString)

def encodeNumber (n : JsNumber) : Except JsError JsString :=
  if !n.isFinite then
    .error (.typeError (js "Cannot canonicalize non-finite number: " ++ nonFiniteText n))
  -- `-0` and `0` are the same JSON value
  else .ok (if n = .negZero then js "0" else Json.encodeNumber numberText n)

def encode : CanonicalValue → Except JsError (Option JsString)
  | .undefined => .ok none
  | .null => .ok (some (js "null"))
  | .boolean b => .ok (some (if b then js "true" else js "false"))
  | .number n => (encodeNumber numberText n).map some
  | .bigint n => .ok (some (Json.quote (integerText n)))
  | .string s => .ok (some (Json.quote s))
  | .date d => (toISOString d).map fun s => some (Json.quote s)
  | .array items => do
    let parts ← encodeItems items
    return some (leftBracket :: Json.joinComma parts ++ [rightBracket])
  | .object props => do
    let parts ← collect (sortKeys (encodeProps props))
    let texts := parts.map fun p => Json.quote p.1 ++ colon :: p.2
    return some (leftBrace :: Json.joinComma texts ++ [rightBrace])
where
  encodeItems : List CanonicalValue → Except JsError (List JsString)
    | [] => .ok []
    | v :: vs => do
      let part := (← encode v).getD (js "null")
      return part :: (← encodeItems vs)
  encodeProps : List (JsString × CanonicalValue) →
      List (JsString × Except JsError (Option JsString))
    | [] => []
    | (key, v) :: ps => (key, encode v) :: encodeProps ps

def canonicalize (value : CanonicalValue) : Except JsError JsString := do
  return (← encode numberText value).getD (js "null")

def sha256Canonical (value : CanonicalValue) : Except JsError JsString := do
  return sha256Hex (← canonicalize numberText value)

end

end McpGateway.Shared
