import McpGateway.Js.Compare
import McpGateway.Js.Date
import McpGateway.Lib.Regex

/-!
# Values and their conversions

A property read from a parsed object is a JSON value, `undefined`, or one of the
things every object inherits. What the language leaves to Unicode tables, to a
locale or to the engine's own date reader is a field of `Engine`.
-/

namespace McpGateway.Js

structure Engine where
  /-- `String(x)` for a finite number. -/
  numberText : ℚ → JsString
  toLowerCase : JsString → JsString
  /-- The case folding of a pattern with the `i` flag. -/
  canonicalize : CodeUnit → CodeUnit
  /-- Negative, zero or positive. -/
  localeCompare : JsString → JsString → ℤ
  dateParse : JsString → Date
  /-- `String(f)` for a function of a prototype. -/
  methodText : JsString → JsString
  /-- `new RegExp(source, flags)` and its `test`; `none` is a `SyntaxError`. -/
  regExp : JsString → JsString → Option (JsString → Bool)

/-- `localeCompare` is a total preorder. -/
structure LocalePreorder (engine : Engine) : Prop where
  swap : ∀ a b, engine.localeCompare a b < 0 ↔ 0 < engine.localeCompare b a
  trans : ∀ a b c, engine.localeCompare a b ≤ 0 → engine.localeCompare b c ≤ 0 →
    engine.localeCompare a c ≤ 0

/-- `Date.parse`, as a number. -/
def Engine.parsedDate (engine : Engine) (text : JsString) : JsNumber :=
  match engine.dateParse text with
  | some t => .finite t.ms
  | none => .nan

/-- The properties of `Object.prototype`. -/
def inheritedNames : List JsString :=
  [js "constructor", js "__proto__", js "hasOwnProperty", js "isPrototypeOf",
    js "propertyIsEnumerable", js "toLocaleString", js "toString", js "valueOf",
    js "__defineGetter__", js "__defineSetter__", js "__lookupGetter__", js "__lookupSetter__"]

/-- The functions of `Array.prototype`. -/
def arrayNames : List JsString :=
  [js "at", js "concat", js "constructor", js "copyWithin", js "entries", js "every", js "fill",
    js "filter", js "find", js "findIndex", js "findLast", js "findLastIndex", js "flat",
    js "flatMap", js "forEach", js "includes", js "indexOf", js "join", js "keys",
    js "lastIndexOf", js "map", js "pop", js "push", js "reduce", js "reduceRight", js "reverse",
    js "shift", js "slice", js "some", js "sort", js "splice", js "toLocaleString",
    js "toReversed", js "toSorted", js "toSpliced", js "toString", js "unshift", js "values",
    js "with"]

inductive Prototype
  | object
  | array
  deriving DecidableEq

/-- What a property can hold: a parsed value, or something of a prototype. -/
inductive Value
  | undefined
  | json (v : Json)
  | method (of : Prototype) (name : JsString)
  | prototype (of : Prototype)

def objectMember (name : JsString) : Value :=
  if name = js "__proto__" then .prototype .object
  else if inheritedNames.contains name then .method .object name
  else .undefined

/-- `object[name]`. -/
def property (props : List (JsString × Json)) (name : JsString) : Value :=
  match props.lookup name with
  | some v => .json v
  | none => objectMember name

def item? (items : List Json) (name : JsString) : Option Json :=
  if decimal (Json.digitsValue name) = name then items[Json.digitsValue name]? else none

/-- `array[name]`. -/
def arrayMember (items : List Json) (name : JsString) : Value :=
  match item? items name with
  | some v => .json v
  | none =>
    if name = js "length" then .json (.number (.finite items.length))
    else if name = js "__proto__" then .prototype .array
    else if arrayNames.contains name then .method .array name
    else objectMember name

/-- `value[name]` of an object; nothing is read from another value. -/
def Value.member : Value → JsString → Value
  | .json (.object props), name => property props name
  | .json (.array items), name => arrayMember items name
  | .prototype .object, name =>
    if name = js "__proto__" then .json .null else objectMember name
  | .prototype .array, name =>
    if name = js "__proto__" then .prototype .object else arrayMember [] name
  | _, _ => .undefined

-- ---------------------------------------------------------------------------
-- Number(text)
-- ---------------------------------------------------------------------------

def decimalNumber (negative : Bool) (s : JsString) : JsNumber :=
  let whole := s.takeWhile isDigit
  let rest := s.dropWhile isDigit
  let (frac, rest) := match rest with
    | fullStop :: t => (t.takeWhile isDigit, t.dropWhile isDigit)
    | _ => ([], rest)
  if whole = [] ∧ frac = [] then .nan
  else
    match Json.exponentPart rest with
    | some (e, []) =>
      Json.literalValue negative (Json.digitsValue (whole ++ frac), e - frac.length)
    | _ => .nan

def signedNumber (negative : Bool) (s : JsString) : JsNumber :=
  if s = js "Infinity" then .infinity negative else decimalNumber negative s

def basedNumber (base : Nat) (ds : JsString) : JsNumber :=
  if ds ≠ [] ∧ ds.all fun d => (Json.hexValue d).any (· < base) then
    roundToDouble false (ds.foldl (fun n d => n * base + (Json.hexValue d).getD 0) 0) 1
  else .nan

/-- `Number(text)`. -/
def stringToNumber (text : JsString) : JsNumber :=
  match trim text with
  | [] => .finite 0
  | c :: s =>
    if c = hyphen then signedNumber true s
    else if c = plusSign then signedNumber false s
    else
      match s with
      | d :: ds =>
        if c = unit '0' ∧ lower d = unit 'x' then basedNumber 16 ds
        else if c = unit '0' ∧ lower d = unit 'o' then basedNumber 8 ds
        else if c = unit '0' ∧ lower d = unit 'b' then basedNumber 2 ds
        else signedNumber false (c :: s)
      | [] => signedNumber false [c]

example : stringToNumber (js " -1.5e1 ") = .finite (-15) := by decide +kernel

-- ---------------------------------------------------------------------------
-- String(value)
-- ---------------------------------------------------------------------------

section
variable (engine : Engine)

/-- `String(value)` of a parsed value; `none` is a `TypeError`. A property named `toString`
hides the function that an object inherits, and is none itself. -/
def jsonText : Json → Option JsString
  | .null => some (js "null")
  | .boolean b => some (if b then js "true" else js "false")
  | .number n => some (numberString engine.numberText n)
  | .string s => some s
  | .array items => (itemTexts items).map Json.joinComma
  | .object props =>
    if (props.lookup (js "toString")).isSome then none else some (js "[object Object]")
where
  /-- A missing item of an array has no text. -/
  itemTexts : List Json → Option (List JsString)
    | [] => some []
    | .null :: vs => (itemTexts vs).map ([] :: ·)
    | v :: vs => do return (← jsonText v) :: (← itemTexts vs)

/-- `String(value)`. -/
def Value.text : Value → Option JsString
  | .undefined => some (js "undefined")
  | .json v => jsonText engine v
  | .method _ name => some (engine.methodText name)
  | .prototype .object => some (js "[object Object]")
  | .prototype .array => some []

/-- `array.join(separator)`. -/
def joinItems (separator : JsString) (items : List Json) : Option JsString :=
  (jsonText.itemTexts engine items).map (List.intercalate separator)

/-- `Number(value)`. -/
def Value.toNumber : Value → Option JsNumber
  | .json .null => some (.finite 0)
  | .json (.boolean b) => some (.finite (if b then 1 else 0))
  | .json (.number n) => some n
  | .json (.object props) => (jsonText engine (.object props)).map fun _ => .nan
  | .json v => (jsonText engine v).map stringToNumber
  | .prototype .array => some (.finite 0)
  | _ => some .nan

end

-- ---------------------------------------------------------------------------
-- Regular expressions
-- ---------------------------------------------------------------------------

/-- The words of `(word|word|...)`. -/
def wordAlternatives (source : JsString) : Option (List JsString) :=
  match source with
  | [] => none
  | c :: rest =>
    let alternatives := rest.dropLast.splitOn (unit '|')
    if c = leftParen ∧ rest.getLast? = some rightParen ∧
        alternatives.all (fun w => !w.isEmpty && w.all isWordChar) then some alternatives
    else none

/-- Without the `u` flag only the case of ASCII letters folds to an ASCII letter. -/
def sameLetter (ignoreCase : Bool) (c d : CodeUnit) : Bool :=
  if ignoreCase then lower c == lower d else c == d

/-- `new RegExp(source, flags)` and its `test`. A choice of words is defined here, every
other source is the engine's. -/
def compileRegExp (engine : Engine) (source flags : JsString) : Option (JsString → Bool) :=
  match wordAlternatives source with
  | some words =>
    if flags.contains (unit 'u') then engine.regExp source flags
    else
      some (Regex.test isWordChar
        (Regex.anyOf (words.map (Regex.literal (sameLetter (flags.contains (unit 'i')))))))
  | none => engine.regExp source flags

-- ---------------------------------------------------------------------------
-- A platform
-- ---------------------------------------------------------------------------

/-- A platform that compares by code units, as every locale does with ids like those here. -/
def plainEngine : Engine where
  numberText := fun q => if q.den = 1 then integerText q.num else []
  toLowerCase := Js.toLowerCase
  canonicalize := lower
  localeCompare := fun a b => if a = b then 0 else if a < b then -1 else 1
  dateParse := fun _ => none
  methodText := fun name => js "function " ++ name ++ js "() \x7b [native code] \x7d"
  regExp := fun _ _ => none

end McpGateway.Js
