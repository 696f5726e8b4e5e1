import McpGateway.Salesforce.Soql

/-!
# The documented queries

The subset of SOQL that the parser documents, as a type of its own, and the text
of a query: keywords between single blanks, strings in single quotes with the
quotes inside doubled, lists in parentheses with commas. A query is clear when
none of the cuts that the parser makes in the text goes through one of its parts.
-/

namespace McpGateway.Salesforce

open Js

abbrev Identifier := { name : JsString // isFieldName name = true }

inductive Selection
  | star
  | named (first : Identifier) (rest : List Identifier)

inductive Test
  | compare (operator : Operator) (value : Literal) (scalar : operator ≠ .in_)
  | isIn (values : List Literal)

structure Condition where
  field : Identifier
  test : Test

abbrev RowLimit := { n : Nat // roundToDouble false n 1 = .finite n }

structure Query where
  object : SObjectName
  selection : Selection
  conditions : List Condition
  combinator : Combinator
  orderBy : Option (Identifier × Direction)
  limit : Option RowLimit

-- ---------------------------------------------------------------------------
-- The query as the parser returns it
-- ---------------------------------------------------------------------------

def Selection.fields : Selection → Fields
  | .star => .star
  | .named first rest => .named (first.val :: rest.map Subtype.val)

def Test.operator : Test → Operator
  | .compare operator _ _ => operator
  | .isIn _ => .in_

def Test.operand : Test → Operand
  | .compare _ value _ => .one value
  | .isIn values => .many values

def Condition.comparison (condition : Condition) : Comparison where
  field := condition.field.val
  operator := condition.test.operator
  value := condition.test.operand

def Query.joined (query : Query) : Combinator :=
  if query.conditions.length < 2 then .and else query.combinator

def Query.parsed (query : Query) : ParsedQuery where
  object := .sobject query.object
  fields := query.selection.fields
  conditions := query.conditions.map Condition.comparison
  combinator := query.joined
  orderBy := query.orderBy.map fun order => { field := order.1.val, direction := order.2 }
  limit := query.limit.map fun n => .finite n.val

-- ---------------------------------------------------------------------------
-- Rendering
-- ---------------------------------------------------------------------------

def double (s : JsString) : JsString :=
  s.flatMap fun c => if c = singleQuote then [c, c] else [c]

section
variable (engine : Engine)

/-- `String(n)`, with the sign of a zero. -/
def numeral : JsNumber → JsString
  | .negZero => js "-0"
  | n => numberString engine.numberText n

def Literal.render : Literal → JsString
  | .string s => singleQuote :: (double s ++ [singleQuote])
  | .number n => numeral engine n
  | .boolean b => if b then js "true" else js "false"
  | .null => js "null"

def Test.render : Test → JsString
  | .compare _ value _ => value.render engine
  | .isIn values =>
    leftParen :: (List.intercalate [comma] (values.map (Literal.render engine)) ++ [rightParen])

def Condition.render (condition : Condition) : JsString :=
  condition.field.val ++
    blank :: (condition.test.operator.text ++ blank :: condition.test.render engine)

def Selection.render : Selection → JsString
  | .star => [asterisk]
  | .named first rest => List.intercalate [comma] (first.val :: rest.map Subtype.val)

def Combinator.word : Combinator → String
  | .and => "AND"
  | .or => "OR"

def Combinator.text (combinator : Combinator) : JsString := js combinator.word

def Direction.text : Direction → JsString
  | .asc => js "ASC"
  | .desc => js "DESC"

def keyed (word rest : JsString) : JsString := blank :: (word ++ blank :: rest)

def clause (combinator : Combinator) : List Condition → JsString
  | [] => []
  | [condition] => condition.render engine
  | condition :: conditions =>
    condition.render engine ++ keyed combinator.text (clause combinator conditions)

def Query.whereText (query : Query) : JsString :=
  if query.conditions.isEmpty then []
  else keyed (js "WHERE") (clause engine query.combinator query.conditions)

def Query.orderText (query : Query) : JsString :=
  match query.orderBy with
  | none => []
  | some (field, direction) =>
    keyed (js "ORDER") (js "BY" ++ blank :: (field.val ++ blank :: direction.text))

def Query.limitText (query : Query) : JsString :=
  match query.limit with
  | none => []
  | some n => keyed (js "LIMIT") (decimal n.val)

def Query.render (query : Query) : JsString :=
  js "SELECT" ++ blank ::
    (query.selection.render ++ keyed (js "FROM")
      (query.object.text ++ (query.whereText engine ++ (query.orderText ++ query.limitText))))

-- ---------------------------------------------------------------------------
-- Clear queries
-- ---------------------------------------------------------------------------

structure Uncut (s : JsString) : Prop where
  combinators : ∀ combinator : Combinator,
    (separator combinator.word).test isWordChar s = false
  line : ∀ c ∈ s, inLine c = true

/-- A string is not cut, a number is written as a numeral. -/
def Literal.Clear : Literal → Prop
  | .string s => Uncut s
  | .number n => isNumeral (numeral engine n) = true
  | .boolean _ | .null => True

/-- A list has items, and no comma but those between them. -/
def Test.Clear : Test → Prop
  | .compare _ value _ => value.Clear engine
  | .isIn values => values ≠ [] ∧
      ∀ value ∈ values, value.Clear engine ∧ ∀ s, value = .string s → comma ∉ s

def Combinator.other : Combinator → Combinator
  | .and => .or
  | .or => .and

structure Query.Clear (query : Query) : Prop where
  tests : ∀ condition ∈ query.conditions, condition.test.Clear engine
  /-- No field after a combinator is called like the other one. -/
  fields : ∀ condition ∈ query.conditions.tail,
    toLowerCase condition.field.val ≠ toLowerCase query.combinator.other.text
  order : ∀ order, query.orderBy = some order → ∀ c ∈ order.1.val, isDigit c = false

def Test.literals : Test → List Literal
  | .compare _ value _ => [value]
  | .isIn values => values

/-- The text of a number of the query is read back as the number. -/
def NumbersRead (query : Query) : Prop :=
  ∀ condition ∈ query.conditions, ∀ q, .number (.finite q) ∈ condition.test.literals →
    stringToNumber (engine.numberText q) = .finite q

end

end McpGateway.Salesforce
