import McpGateway.Js.Number

/-!
# JSON text

`JSON.parse` and `JSON.stringify` of the language. A parsed object keeps one
property for each key, the last value given to it; the order of its properties
is that of their first mention, which nothing here depends on. A number literal
too large for a double becomes an infinity, as it does in the language.
-/

namespace McpGateway.Js

inductive Json
  | null
  | boolean (b : Bool)
  | number (n : JsNumber)
  | string (s : JsString)
  | array (items : List Json)
  | object (props : List (JsString × Json))

-- ---------------------------------------------------------------------------
-- String literals
-- ---------------------------------------------------------------------------

namespace Json

def hexDigit (n : Nat) : CodeUnit := UInt16.ofNat (if n < 10 then 0x30 + n else 0x57 + n)

def hexValue (c : CodeUnit) : Option Nat :=
  if isDigit c then some (c.toNat - 0x30)
  else if 0x61 ≤ c ∧ c ≤ 0x66 then some (c.toNat - 0x57)
  else if 0x41 ≤ c ∧ c ≤ 0x46 then some (c.toNat - 0x37)
  else none

def unicodeEscape (c : CodeUnit) : JsString :=
  [backslash, unit 'u', hexDigit (c.toNat / 4096), hexDigit (c.toNat / 256 % 16),
    hexDigit (c.toNat / 16 % 16), hexDigit (c.toNat % 16)]

def shortEscapes : List (CodeUnit × CodeUnit) :=
  [(doubleQuote, doubleQuote), (backslash, backslash), (unit 'b', 0x08), (unit 'f', 0x0C),
    (unit 'n', lineFeed), (unit 'r', carriageReturn), (unit 't', 0x09)]

def encodeUnit (c : CodeUnit) : JsString :=
  match shortEscapes.find? (·.2 == c) with
  | some e => [backslash, e.1]
  | none => if c < 0x20 ∨ isHighSurrogate c ∨ isLowSurrogate c then unicodeEscape c else [c]

def encodeUnits : JsString → JsString
  | [] => []
  | [c] => encodeUnit c
  | c :: d :: s =>
    if isHighSurrogate c && isLowSurrogate d then c :: d :: encodeUnits s
    else encodeUnit c ++ encodeUnits (d :: s)

/-- `JSON.stringify` of a string. -/
def quote (s : JsString) : JsString := doubleQuote :: encodeUnits s ++ [doubleQuote]

def shortEscape? (e : CodeUnit) : Option CodeUnit :=
  if e = slash then some slash else (shortEscapes.find? (·.1 == e)).map (·.2)

def unicodeEscape? (a b c d : CodeUnit) : Option CodeUnit := do
  let a ← hexValue a
  let b ← hexValue b
  let c ← hexValue c
  let d ← hexValue d
  return UInt16.ofNat (((a * 16 + b) * 16 + c) * 16 + d)

def stringBody : JsString → Option (JsString × JsString)
  | [] => none
  | c :: s =>
    if c = doubleQuote then some ([], s)
    else if c = backslash then
      match s with
      | [] => none
      | e :: t =>
        if e = unit 'u' then
          match t with
          | x :: y :: z :: w :: r => do
            let u ← unicodeEscape? x y z w
            let b ← stringBody r
            return (u :: b.1, b.2)
          | _ => none
        else do
          let u ← shortEscape? e
          let b ← stringBody t
          return (u :: b.1, b.2)
    else if c < 0x20 then none
    else (stringBody s).map fun b => (c :: b.1, b.2)

-- ---------------------------------------------------------------------------
-- JSON.parse
-- ---------------------------------------------------------------------------

def isJsonSpace (c : CodeUnit) : Bool :=
  c == blank || c == 0x09 || c == lineFeed || c == carriageReturn

def skipSpace (s : JsString) : JsString := s.dropWhile isJsonSpace

def digitsValue (ds : JsString) : Nat := ds.foldl (fun n d => n * 10 + (d.toNat - 0x30)) 0

def digits (s : JsString) : Option (JsString × JsString) :=
  if s.takeWhile isDigit = [] then none else some (s.takeWhile isDigit, s.dropWhile isDigit)

def wholePart : JsString → Option (JsString × JsString)
  | c :: s => if c = unit '0' then some ([c], s) else digits (c :: s)
  | [] => none

def fractionPart : JsString → Option (JsString × JsString)
  | c :: s => if c = fullStop then digits s else some ([], c :: s)
  | [] => some ([], [])

def exponentPart : JsString → Option (ℤ × JsString)
  | c :: s =>
    if c = unit 'e' ∨ c = unit 'E' then
      match s with
      | d :: t =>
        if d = hyphen then (digits t).map fun x => (-(digitsValue x.1 : ℤ), x.2)
        else if d = plusSign then (digits t).map fun x => ((digitsValue x.1 : ℤ), x.2)
        else (digits s).map fun x => ((digitsValue x.1 : ℤ), x.2)
      | [] => none
    else some (0, c :: s)
  | [] => some (0, [])

/-- A number literal after its optional sign: its digits and its power of ten. -/
def magnitude (s : JsString) : Option ((Nat × ℤ) × JsString) := do
  let (whole, s) ← wholePart s
  let (frac, s) ← fractionPart s
  let (expo, s) ← exponentPart s
  return ((digitsValue (whole ++ frac), expo - frac.length), s)

def literalValue (negative : Bool) (m : Nat × ℤ) : JsNumber :=
  roundToDouble negative (m.1 * 10 ^ m.2.toNat) (10 ^ (-m.2).toNat)

def numberLiteral : JsString → Option (JsNumber × JsString)
  | c :: s =>
    if c = hyphen then (magnitude s).map fun m => (literalValue true m.1, m.2)
    else (magnitude (c :: s)).map fun m => (literalValue false m.1, m.2)
  | [] => none

def setProp (key : JsString) (v : Json) : List (JsString × Json) → List (JsString × Json)
  | [] => [(key, v)]
  | p :: ps => if p.1 = key then (key, v) :: ps else p :: setProp key v ps

/-- `fuel` bounds the nesting and the number of parts; two brackets or a comma
and a value pay for each. -/
def parseFuel : Nat → JsString → Option (Json × JsString)
  | 0, _ => none
  | fuel + 1, text =>
    match skipSpace text with
    | [] => none
    | c :: s =>
      if c = doubleQuote then (stringBody s).map fun b => (.string b.1, b.2)
      else if c = leftBracket then
        match skipSpace s with
        | rightBracket :: t => some (.array [], t)
        | t => (elements fuel t).map fun b => (.array b.1, b.2)
      else if c = leftBrace then
        match skipSpace s with
        | rightBrace :: t => some (.object [], t)
        | t => (members fuel [] t).map fun b => (.object b.1, b.2)
      else if (js "true").isPrefixOf (c :: s) then some (.boolean true, (c :: s).drop 4)
      else if (js "false").isPrefixOf (c :: s) then some (.boolean false, (c :: s).drop 5)
      else if (js "null").isPrefixOf (c :: s) then some (.null, (c :: s).drop 4)
      else (numberLiteral (c :: s)).map fun n => (.number n.1, n.2)
where
  elements : Nat → JsString → Option (List Json × JsString)
    | 0, _ => none
    | fuel + 1, text => do
      let (v, s) ← parseFuel fuel text
      match skipSpace s with
      | comma :: t => do
        let (vs, r) ← elements fuel t
        return (v :: vs, r)
      | rightBracket :: t => return ([v], t)
      | _ => none
  members : Nat → List (JsString × Json) → JsString → Option (List (JsString × Json) × JsString)
    | 0, _, _ => none
    | fuel + 1, props, text =>
      match skipSpace text with
      | doubleQuote :: s => do
        let (key, s) ← stringBody s
        match skipSpace s with
        | colon :: s => do
          let (v, s) ← parseFuel fuel s
          match skipSpace s with
          | comma :: t => members fuel (setProp key v props) t
          | rightBrace :: t => return (setProp key v props, t)
          | _ => none
        | _ => none
      | _ => none

/-- `JSON.parse`; `none` is a `SyntaxError`. -/
def parse (text : JsString) : Option Json :=
  match parseFuel (text.length + 1) text with
  | some (v, rest) => if skipSpace rest = [] then some v else none
  | none => none

-- ---------------------------------------------------------------------------
-- JSON.stringify
-- ---------------------------------------------------------------------------

def joinComma : List JsString → JsString
  | [] => []
  | [s] => s
  | s :: ss => s ++ comma :: joinComma ss

section
variable (numberText : ℚ → JsString)

def encodeNumber (n : JsNumber) : JsString :=
  if n.isFinite then numberText n.value else js "null"

/-- `JSON.stringify` without indentation. -/
def stringify : Json → JsString
  | .null => js "null"
  | .boolean b => if b then js "true" else js "false"
  | .number n => encodeNumber numberText n
  | .string s => quote s
  | .array items => leftBracket :: joinComma (stringifyAll items) ++ [rightBracket]
  | .object props => leftBrace :: joinComma (stringifyProps props) ++ [rightBrace]
where
  stringifyAll : List Json → List JsString
    | [] => []
    | v :: vs => stringify v :: stringifyAll vs
  stringifyProps : List (JsString × Json) → List JsString
    | [] => []
    | (key, v) :: ps => (quote key ++ colon :: stringify v) :: stringifyProps ps

end

end Json

end McpGateway.Js
