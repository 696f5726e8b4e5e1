import McpGateway.Js.Sort
import McpGateway.Lib.Outcome
import McpGateway.Lib.Pattern
import McpGateway.Salesforce.Dataset

/-!
# The SOQL subset

The query text is taken apart by one pattern, its WHERE clause is cut at the
combinator and each condition is read by a second pattern. Conversions of a
record's values to text may throw; nothing else in an execution does.
-/

namespace McpGateway.Salesforce

open Js Shared

-- ---------------------------------------------------------------------------
-- Parsed queries
-- ---------------------------------------------------------------------------

inductive Literal
  | string (s : JsString)
  | number (n : JsNumber)
  | boolean (b : Bool)
  | null
  deriving DecidableEq

inductive Operator
  | eq
  | ne
  | lt
  | le
  | gt
  | ge
  | like
  | in_
  deriving DecidableEq

def Operator.text : Operator → JsString
  | .eq => js "="
  | .ne => js "!="
  | .lt => js "<"
  | .le => js "<="
  | .gt => js ">"
  | .ge => js ">="
  | .like => js "LIKE"
  | .in_ => js "IN"

inductive Operand
  | one (value : Literal)
  | many (values : List Literal)
  deriving DecidableEq

structure Comparison where
  field : JsString
  operator : Operator
  value : Operand
  deriving DecidableEq

inductive Fields
  | star
  | named (fields : List JsString)
  deriving DecidableEq

inductive Combinator
  | and
  | or
  deriving DecidableEq

inductive Direction
  | asc
  | desc
  deriving DecidableEq

structure OrderBy where
  field : JsString
  direction : Direction
  deriving DecidableEq

/-- What a name resolves to: one of the four objects, or something that the table of
objects inherits. -/
inductive ResolvedObject
  | sobject (name : SObjectName)
  | inherited (value : Value)

structure ParsedQuery where
  object : ResolvedObject
  fields : Fields
  conditions : List Comparison
  combinator : Combinator
  orderBy : Option OrderBy
  limit : Option JsNumber

-- ---------------------------------------------------------------------------
-- Patterns
-- ---------------------------------------------------------------------------

/-- A keyword of a pattern with the `i` flag. -/
def keyword (word : String) : Regex CodeUnit := Regex.literal (sameLetter true) (js word)

def spaces : Regex CodeUnit := .many1 isSpace

/-- `[A-Za-z_]`. -/
def startsName (c : CodeUnit) : Bool := isLetter c || c == underscore

/-- `.` without the `s` flag. -/
def isLineTerminator (c : CodeUnit) : Bool :=
  c == lineFeed || c == carriageReturn || c == 0x2028 || c == 0x2029

def inLine (c : CodeUnit) : Bool := !isLineTerminator c

inductive Group
  | fields
  | object
  | whereClause
  | order
  | dir
  | limit
  | field
  | op
  | value
  deriving DecidableEq

open Pattern in
def wherePart : Pattern Group CodeUnit :=
  inSequence
    [.plain spaces, .plain (keyword "WHERE"), .plain spaces, .group .whereClause (.few fun _ => true)]

open Pattern in
def dirPart : Pattern Group CodeUnit :=
  inSequence [.plain spaces, .group .dir (.plain (.alt (keyword "ASC") (keyword "DESC")))]

/-- `[A-Za-z_.]`. -/
def isOrderUnit (c : CodeUnit) : Bool := startsName c || c == fullStop

open Pattern in
def orderPart : Pattern Group CodeUnit :=
  inSequence
    [.plain spaces, .plain (keyword "ORDER"), .plain spaces, .plain (keyword "BY"), .plain spaces,
      .group .order (.plain (.many1 isOrderUnit)), .maybe dirPart]

open Pattern in
def limitPart : Pattern Group CodeUnit :=
  inSequence
    [.plain spaces, .plain (keyword "LIMIT"), .plain spaces, .group .limit (.plain (.many1 isDigit))]

open Pattern in
def tailPattern : Pattern Group CodeUnit :=
  inSequence [.maybe orderPart, .maybe limitPart, .plain (.many isSpace), .plain .finish]

open Pattern in
def queryPattern : Pattern Group CodeUnit :=
  inSequence
    [.plain (.many isSpace), .plain (keyword "SELECT"), .plain spaces,
      .group .fields (.few fun _ => true), .plain spaces, .plain (keyword "FROM"), .plain spaces,
      .group .object (.plain (.many1 startsName)), .maybe wherePart, tailPattern]

open Pattern in
def comparisonPattern : Pattern Group CodeUnit :=
  inSequence
    [.group .field (.plain (.seq (.one startsName) (.many isWordChar))), .plain (.many isSpace),
      .group .op (.plain (.anyOf
        [keyword ">=", keyword "<=", keyword "!=", keyword "=", keyword "<", keyword ">",
          .seq .boundary (.seq (keyword "LIKE") .boundary),
          .seq .boundary (.seq (keyword "IN") .boundary)])),
      .plain (.many isSpace), .group .value (.plain (.many1 inLine)), .plain .finish]

/-- `\s+OR\s+`, `\s+AND\s+`. -/
def separator (word : String) : Regex CodeUnit := .seq spaces (.seq (keyword word) spaces)

/-- `;+\s*$`. -/
def trailingSemicolons : Regex CodeUnit :=
  .seq (.many1 (· == semicolon)) (.seq (.many isSpace) .finish)

/-- `/^[A-Za-z_][A-Za-z0-9_]*$/`. -/
def isFieldName : JsString → Bool
  | [] => false
  | c :: cs => startsName c && cs.all isWordChar

-- ---------------------------------------------------------------------------
-- Literals and conditions
-- ---------------------------------------------------------------------------

/-- `.replace(/''/g, "'")`. -/
def undouble : JsString → JsString
  | singleQuote :: singleQuote :: s => singleQuote :: undouble s
  | c :: s => c :: undouble s
  | [] => []

/-- `/^'.*'$/s`, and what stands between the quotes. -/
def quoted? (raw : JsString) : Option JsString :=
  match raw with
  | singleQuote :: s => if s.getLast? = some singleQuote then some s.dropLast else none
  | _ => none

/-- `/^-?\d+(\.\d+)?$/`. -/
def isNumeral (raw : JsString) : Bool :=
  let s := if raw.head? = some hyphen then raw.tail else raw
  let rest := s.dropWhile isDigit
  !(s.takeWhile isDigit).isEmpty &&
    (rest.isEmpty ||
      (rest.head? == some fullStop && !rest.tail.isEmpty && rest.tail.all isDigit))

def sameWord (word : String) (raw : JsString) : Bool := toLowerCase raw == js word

/-- A bare word is treated as a string. -/
def literal (raw : JsString) : Literal :=
  match quoted? raw with
  | some s => .string (undouble s)
  | none =>
    if isNumeral raw then .number (stringToNumber raw)
    else if sameWord "true" raw then .boolean true
    else if sameWord "false" raw then .boolean false
    else if sameWord "null" raw then .null
    else .string raw

/-- `.replace(/^\(|\)$/g, '')`. -/
def stripParens (s : JsString) : JsString :=
  let s := if s.head? = some leftParen then s.tail else s
  if s.getLast? = some rightParen then s.dropLast else s

/-- `op.toUpperCase()` of a matched operator. -/
def operatorOf (op : JsString) : Operator :=
  ([Operator.ge, .le, .ne, .eq, .lt, .gt, .like].find? fun o => o.text == toUpperCase op).getD .in_

def parseComparison (input : JsString) : Except Thrown Comparison :=
  match comparisonPattern.exec isWordChar input with
  | none =>
    .error (.gateway (badRequestError (js "Could not parse the condition '" ++ input ++ js "'")))
  | some groups =>
    let field := (groups.lookup .field).getD []
    let operator := operatorOf ((groups.lookup .op).getD [])
    let value := trim ((groups.lookup .value).getD [])
    if operator = .in_ then
      .ok { field, operator
            value := .many (((stripParens value).splitOn comma).map fun item => literal (trim item)) }
    else .ok { field, operator, value := .one (literal value) }

structure WhereClause where
  conditions : List Comparison
  combinator : Combinator

def parseWhere (clause : JsString) : Except Thrown WhereClause :=
  let usesOr := (separator "OR").test isWordChar clause
  let usesAnd := (separator "AND").test isWordChar clause
  if usesOr && usesAnd then
    .error (.gateway (badRequestError
      (js "Mixing AND and OR in one WHERE clause is not supported; use a single combinator")))
  else do
    let parts := (separator (if usesOr then "OR" else "AND")).split isWordChar clause
    let conditions ← parts.mapM fun part => parseComparison (trim part)
    return { conditions, combinator := if usesOr then .or else .and }

-- ---------------------------------------------------------------------------
-- Queries
-- ---------------------------------------------------------------------------

def objectNames : List SObjectName := [.account, .contact, .opportunity, .task]

/-- `OBJECTS[name.toLowerCase()]`. -/
def resolveObject (name : JsString) : Option ResolvedObject :=
  match objectNames.find? fun object => toLowerCase object.text == toLowerCase name with
  | some object => some (.sobject object)
  | none =>
    match objectMember (toLowerCase name) with
    | .undefined => none
    | value => some (.inherited value)

def parseFields (fields : JsString) : Except Thrown Fields :=
  let fieldList := trim fields
  if fieldList = [asterisk] then .ok .star
  else
    let selected := ((fieldList.splitOn comma).map trim).filter fun field => !field.isEmpty
    if selected.isEmpty then
      .error (.gateway (badRequestError (js "At least one field must be selected")))
    else
      match selected.find? fun field => !isFieldName field with
      | some field =>
        .error (.gateway (badRequestError (js "Invalid field name '" ++ field ++ js "'")))
      | none => .ok (.named selected)

/-- `query.trim().replace(/;+\s*$/, '')`. -/
def trimmedQuery (query : JsString) : JsString :=
  trailingSemicolons.removeFirst isWordChar (trim query)

def queryGroups (query : JsString) : Except Thrown (List (Group × JsString)) :=
  let trimmed := trimmedQuery query
  if trimmed = [] then .error (.gateway (badRequestError (js "A SOQL query is required")))
  else if 4000 < trimmed.length then
    .error (.gateway (badRequestError (js "Query exceeds the 4000 character limit")))
  else
    match queryPattern.exec isWordChar trimmed with
    | some groups => .ok groups
    | none => .error (.gateway (badRequestError (js
        "Could not parse the query. Expected: SELECT <fields> FROM <Object> [WHERE ...] [ORDER BY ...] [LIMIT n]")))

def parseObject (object : JsString) : Except Thrown ResolvedObject :=
  match resolveObject object with
  | some resolved => .ok resolved
  | none =>
    .error (.gateway (badRequestError (js "Unknown object '" ++ object ++ js "'. Available: " ++
      List.intercalate (js ", ") (objectNames.map SObjectName.text))))

def parseConditions : Option JsString → Except Thrown WhereClause
  | some clause => parseWhere clause
  | none => .ok { conditions := [], combinator := .and }

def orderOf (order dir : Option JsString) : Option OrderBy :=
  order.map fun field =>
    { field, direction := if dir.map toUpperCase = some (js "DESC") then .desc else .asc }

/-- `Number.parseInt(limit, 10)` of a run of digits. -/
def parseLimit (digits : JsString) : JsNumber := roundToDouble false (Json.digitsValue digits) 1

def parseSoql (query : JsString) : Except Thrown ParsedQuery := do
  let groups ← queryGroups query
  let object ← parseObject ((groups.lookup .object).getD [])
  let fields ← parseFields ((groups.lookup .fields).getD [])
  let parsed ← parseConditions (groups.lookup .whereClause)
  return {
    object
    fields
    conditions := parsed.conditions
    combinator := parsed.combinator
    orderBy := orderOf (groups.lookup .order) (groups.lookup .dir)
    limit := (groups.lookup .limit).map parseLimit }

-- ---------------------------------------------------------------------------
-- Execution
-- ---------------------------------------------------------------------------

section
variable (engine : Engine)

/-- The pattern of a LIKE operand, between `^` and `$`. -/
def likePattern : JsString → Regex CodeUnit
  | [] => .finish
  | c :: s =>
    .seq
      (if c = unit '%' then .many inLine
        else if c = underscore then .one inLine
        else .one fun d => engine.canonicalize c == engine.canonicalize d)
      (likePattern s)

def likeTest (pattern text : JsString) : Bool :=
  !((likePattern engine pattern).ends isWordChar ([], text)).isEmpty

def looseEquals (actual : Value) (expected : Literal) : Bool :=
  match actual, expected with
  | .json (.string a), .string e => a == e || engine.toLowerCase a == engine.toLowerCase e
  | .json (.number a), .number e => a.strictEq e
  | .json (.number a), .string e => a.strictEq (stringToNumber e)
  | .json (.boolean a), .boolean e => a == e
  | .json .null, .null => true
  | _, _ => false

/-- `Date.parse(String(value))`, of a value that is not a number. -/
def magnitudeOf (actual : Value) : Except Thrown JsNumber :=
  match actual with
  | .json (.number n) => .ok n
  | actual => (converted (actual.text engine)).map engine.parsedDate

def Literal.json : Literal → Json
  | .string s => .string s
  | .number n => .number n
  | .boolean b => .boolean b
  | .null => .null

def compareMagnitudes (operator : Operator) (left right : JsNumber) : Bool :=
  left.isFinite && right.isFinite &&
    match operator with
    | .lt => decide (left.value < right.value)
    | .le => decide (left.value ≤ right.value)
    | .gt => decide (right.value < left.value)
    | .ge => decide (right.value ≤ left.value)
    | _ => false

def compare (actual : Value) (condition : Comparison) : Except Thrown Bool :=
  match condition.operator, condition.value with
  | .in_, .many values => .ok (values.any (looseEquals engine actual))
  | .in_, .one _ => .ok false
  | .like, .one (.string pattern) =>
    match actual with
    | .json (.string text) => .ok (likeTest engine pattern text)
    | _ => .ok false
  | .like, _ => .ok false
  | .eq, .one value => .ok (looseEquals engine actual value)
  | .eq, .many _ => .ok false
  | .ne, .one value => .ok (!looseEquals engine actual value)
  | .ne, .many _ => .ok true
  | operator, value => do
    let left ← magnitudeOf engine actual
    let right ← magnitudeOf engine (operandValue value)
    return compareMagnitudes operator left right
where
  operandValue : Operand → Value
    | .one value => .json value.json
    | .many values => .json (.array (values.map Literal.json))

/-- The record is matched; every condition is evaluated. -/
def matchesQuery (parsed : ParsedQuery) (record : CrmRecord) : Except Thrown Bool :=
  if parsed.conditions = [] then .ok true
  else do
    let results ← parsed.conditions.mapM fun condition =>
      compare engine (property record.props condition.field) condition
    return if parsed.combinator = .or then results.any id else results.all id

/-- `String(value ?? '')`. -/
def orderText : Value → Option JsString
  | .undefined => some []
  | .json .null => some []
  | value => value.text engine

/-- The text of a sorted value has been taken by then, if two values are compared at all. -/
def compareValues (a b : Value) : JsNumber :=
  match a, b with
  | .json (.number m), .json (.number n) => m.sub n
  | a, b =>
    .finite (engine.localeCompare ((orderText engine a).getD []) ((orderText engine b).getD []))

def isNumber : Value → Bool
  | .json (.number _) => true
  | _ => false

def orderRecords (sorter : Sorter) (order : OrderBy) (matched : List CrmRecord) :
    Except Thrown (List CrmRecord) :=
  let read (record : CrmRecord) := property record.props order.field
  let sorted := sorter.sort
    (fun a b =>
      let n := compareValues engine (read a) (read b)
      if order.direction = .desc then n.neg else n) matched
  if 2 ≤ matched.length ∧
      matched.any fun record => !isNumber (read record) && (orderText engine (read record)).isNone
  then .error typeError
  else .ok sorted

def orderMatched (sorter : Sorter) (orderBy : Option OrderBy) (matched : List CrmRecord) :
    Except Thrown (List CrmRecord) :=
  match orderBy with
  | some order => orderRecords engine sorter order matched
  | none => .ok matched

/-- An object with this value for its prototype has no `__proto__` setter. -/
def hidesSetter : Json → Bool
  | .null => true
  | .object props => (props.lookup (js "__proto__")).isSome
  | _ => false

/-- An object that is written to: its properties as JSON has them, and whether `__proto__` is a
name like any other in it. -/
structure Projected where
  props : List (JsString × Json) := []
  plain : Bool := false

/-- `out[field] = record[field]`: what is inherited is not printed, and `__proto__` sets the
prototype as long as its setter is found. -/
def Projected.assign (record : CrmRecord) (out : Projected) (field : JsString) : Projected :=
  match property record.props field with
  | .json v =>
    if field = js "__proto__" ∧ out.plain = false then { out with plain := hidesSetter v }
    else { out with props := Json.setProp field v out.props }
  | _ => out

def project (fields : Fields) (record : CrmRecord) : Json :=
  match fields with
  | .star => record.json
  | .named fields => .object (fields.foldl (Projected.assign record) {}).props

structure QueryResult where
  totalSize : Nat
  done : Bool
  records : List Json

/-- `Math.min(parsed.limit ?? maxRows, maxRows)`. -/
def effectiveLimit (limit : Option JsNumber) (maxRows : Nat) : Nat :=
  match limit with
  | none => maxRows
  | some n => if (JsNumber.finite maxRows).le n then maxRows else n.value.num.toNat

def executeQuery (sorter : Sorter) (parsed : ParsedQuery) (records : List CrmRecord)
    (maxRows : Nat) : Except Thrown QueryResult := do
  let matched ← Outcome.filterExcept (matchesQuery engine parsed) records
  let matched ← orderMatched engine sorter parsed.orderBy matched
  let limit := effectiveLimit parsed.limit maxRows
  return { totalSize := matched.length
           done := matched.length ≤ limit
           records := (matched.take limit).map (project parsed.fields) }

end

end McpGateway.Salesforce
