import McpGateway.Js.String

/-!
# PostgreSQL's lexical rules

The scanner of PostgreSQL 16 with `standard_conforming_strings` on, one lexeme
at a time. Comments are white space, block comments nest, unquoted names fold
to lower case, and any code unit from 0x80 on is part of a name, as every byte
of a multi-byte character is for the server. `none` is a lexical error, on
which the server runs nothing.
-/

namespace PgLex

open McpGateway.Js

def isPgSpace (c : CodeUnit) : Bool := (0x09 ≤ c && c ≤ 0x0D) || c == blank

/-- The two characters that end a `--` comment. -/
def isNewline (c : CodeUnit) : Bool := c == lineFeed || c == carriageReturn

def isIdentStart (c : CodeUnit) : Bool := isLetter c || c == underscore || 0x80 ≤ c

/-- A dollar sign continues a name but not the tag of a dollar quote. -/
def isTagCont (c : CodeUnit) : Bool := isIdentStart c || isDigit c

def isIdentCont (c : CodeUnit) : Bool := isTagCont c || c == dollar

def isOpChar (c : CodeUnit) : Bool := c ∈ js "~!@#^&|?+-*/%<>=" || c == 0x60

/-- The characters that let an operator end in `+` or `-`. -/
def isOpMark (c : CodeUnit) : Bool := c ∈ js "~!@#^&|?%" || c == 0x60

inductive Token
  /-- An unquoted name or keyword, folded. -/
  | ident (name : JsString)
  | quotedIdent (name : JsString)
  /-- A string constant: the delimiter that opens it and what stands inside. -/
  | str (opening body : JsString)
  | num (text : JsString)
  | param (text : JsString)
  | op (text : JsString)
  | self (c : CodeUnit)
  deriving DecidableEq, Repr

inductive Lexeme
  | space
  | lineComment
  | blockComment
  | token (t : Token)
  deriving DecidableEq, Repr

def Lexeme.token? : Lexeme → Option Token
  | .token t => some t
  | _ => none

abbrev Scanned := Lexeme × JsString

-- ---------------------------------------------------------------------------
-- Comments
-- ---------------------------------------------------------------------------

def afterLine (s : JsString) : JsString := s.dropWhile (!isNewline ·)

/-- The text after a block comment whose opener was read, with `depth` more
comments open around it. -/
def afterBlock (depth : Nat) : JsString → Option JsString
  | [] => none
  | [_] => none
  | c :: d :: s =>
    if c = slash ∧ d = asterisk then afterBlock (depth + 1) s
    else if c = asterisk ∧ d = slash then
      match depth with
      | 0 => some s
      | depth + 1 => afterBlock depth s
    else afterBlock depth (d :: s)

-- ---------------------------------------------------------------------------
-- Quoting
-- ---------------------------------------------------------------------------

/-- The text up to the closing quote, a doubled quote standing for itself. -/
def quoteBody (q : CodeUnit) : JsString → Option (JsString × JsString)
  | [] => none
  | [c] => if c = q then some ([], []) else none
  | c :: d :: s =>
    if c = q then
      if d = q then (quoteBody q s).map fun b => (q :: b.1, b.2) else some ([], d :: s)
    else (quoteBody q (d :: s)).map fun b => (c :: b.1, b.2)

/-- The text of an `E''` constant: a backslash takes the next character with it. -/
def escapeBody : JsString → Option (JsString × JsString)
  | [] => none
  | [c] => if c = singleQuote then some ([], []) else none
  | c :: d :: s =>
    if c = backslash then (escapeBody s).map fun b => (c :: d :: b.1, b.2)
    else if c = singleQuote then
      if d = singleQuote then (escapeBody s).map fun b => (c :: d :: b.1, b.2)
      else some ([], d :: s)
    else (escapeBody (d :: s)).map fun b => (c :: b.1, b.2)

def dollarBody (delimiter : JsString) : JsString → Option (JsString × JsString)
  | [] => if delimiter = [] then some ([], []) else none
  | c :: s =>
    if delimiter.isPrefixOf (c :: s) then some ([], (c :: s).drop delimiter.length)
    else (dollarBody delimiter s).map fun b => (c :: b.1, b.2)

-- ---------------------------------------------------------------------------
-- Numbers
-- ---------------------------------------------------------------------------

/-- Digits of a class, single underscores between them. -/
def digitRun (p : CodeUnit → Bool) : JsString → JsString × JsString
  | [] => ([], [])
  | [c] => if p c then ([c], []) else ([], [c])
  | c :: d :: s =>
    if p c || (c == underscore && p d) then
      (c :: (digitRun p (d :: s)).1, (digitRun p (d :: s)).2)
    else ([], c :: d :: s)

def isHexDigit (c : CodeUnit) : Bool :=
  isDigit c || (0x41 ≤ c && c ≤ 0x46) || (0x61 ≤ c && c ≤ 0x66)

def isOctDigit (c : CodeUnit) : Bool := 0x30 ≤ c && c ≤ 0x37

def isBinDigit (c : CodeUnit) : Bool := c == 0x30 || c == 0x31

/-- The digits a `0x`, `0o` or `0b` prefix announces. -/
def radix? (c : CodeUnit) : Option (CodeUnit → Bool) :=
  if lower c = unit 'x' then some isHexDigit
  else if lower c = unit 'o' then some isOctDigit
  else if lower c = unit 'b' then some isBinDigit
  else none

/-- The fractional part. Two dots are an operator of their own, and a lone dot
belongs to the number only after a digit. -/
def fraction (afterDigit : Bool) : JsString → JsString × JsString
  | [] => ([], [])
  | [c] => if c = fullStop ∧ afterDigit then ([c], []) else ([], [c])
  | c :: d :: s =>
    if c = fullStop ∧ isDigit d then (c :: (digitRun isDigit (d :: s)).1, (digitRun isDigit (d :: s)).2)
    else if c = fullStop ∧ d ≠ fullStop ∧ afterDigit then ([c], d :: s)
    else ([], c :: d :: s)

def exponent : JsString → JsString × JsString
  | c :: d :: s =>
    if lower c = unit 'e' ∧ isDigit d then
      (c :: (digitRun isDigit (d :: s)).1, (digitRun isDigit (d :: s)).2)
    else if lower c = unit 'e' ∧ (d = plusSign ∨ d = hyphen) ∧ s.head?.any isDigit then
      (c :: d :: (digitRun isDigit s).1, (digitRun isDigit s).2)
    else ([], c :: d :: s)
  | s => ([], s)

/-- A number stands alone: a letter right after it is an error. -/
def endNumber (text : JsString) (rest : JsString) : Option (JsString × JsString) :=
  if rest.head?.any isIdentStart then none else some (text, rest)

def decimalNumber (s : JsString) : Option (JsString × JsString) :=
  let whole := digitRun isDigit s
  let frac := fraction (!whole.1.isEmpty) whole.2
  let expo := exponent frac.2
  endNumber (whole.1 ++ frac.1 ++ expo.1) expo.2

def number : JsString → Option (JsString × JsString)
  | c :: d :: s =>
    match if c = unit '0' then radix? d else none with
    | some p =>
      if (digitRun p s).1 = [] then none
      else endNumber (c :: d :: (digitRun p s).1) (digitRun p s).2
    | none => decimalNumber (c :: d :: s)
  | s => decimalNumber s

-- ---------------------------------------------------------------------------
-- Operators
-- ---------------------------------------------------------------------------

def beforeComment : JsString → JsString
  | c :: d :: s =>
    if (c = hyphen ∧ d = hyphen) ∨ (c = slash ∧ d = asterisk) then []
    else c :: beforeComment (d :: s)
  | s => s

/-- Drop trailing signs, the first character apart, unless a mark allows them. -/
def dropSigns (run : JsString) : JsString :=
  match run with
  | [] => []
  | c :: s =>
    if run.any isOpMark then run else c :: s.rdropWhile fun d => d == plusSign || d == hyphen

def operator (s : JsString) : JsString := dropSigns (beforeComment (s.takeWhile isOpChar))

-- ---------------------------------------------------------------------------
-- One lexeme
-- ---------------------------------------------------------------------------

def nameToken (s : JsString) : Scanned :=
  (.token (.ident ((s.takeWhile isIdentCont).map lower)), s.dropWhile isIdentCont)

def strToken (opening : JsString) (b : JsString × JsString) : Scanned :=
  (.token (.str opening b.1), b.2)

/-- A name, or a constant whose prefix letter (`E`, `B`, `X`, `N`, `U&`) is
followed by its quote at once. -/
def name (c : CodeUnit) (s : JsString) : Option Scanned :=
  if s.head? = some singleQuote ∧ lower c = unit 'e' then
    (escapeBody s.tail).map (strToken [c, singleQuote])
  else if s.head? = some singleQuote ∧
      (lower c = unit 'b' ∨ lower c = unit 'x' ∨ lower c = unit 'n') then
    (quoteBody singleQuote s.tail).map (strToken [c, singleQuote])
  else if s.take 2 = [ampersand, singleQuote] ∧ lower c = unit 'u' then
    (quoteBody singleQuote (s.drop 2)).map (strToken [c, ampersand, singleQuote])
  else if s.take 2 = [ampersand, doubleQuote] ∧ lower c = unit 'u' then
    (quoteBody doubleQuote (s.drop 2)).map fun b => (.token (.quotedIdent b.1), b.2)
  else some (nameToken (c :: s))

/-- After a dollar sign: a parameter, a dollar-quoted constant, or nothing more
than the sign. -/
def dollarSign (s : JsString) : Option Scanned :=
  if s.head?.any isDigit then
    if (s.dropWhile isDigit).head?.any isIdentStart then none
    else some (.token (.param (s.takeWhile isDigit)), s.dropWhile isDigit)
  else if (s.dropWhile isTagCont).head? = some dollar then
    let delimiter := dollar :: s.takeWhile isTagCont ++ [dollar]
    (dollarBody delimiter (s.dropWhile isTagCont).tail).map (strToken delimiter)
  else some (.token (.self dollar), s)

def punctuation (c : CodeUnit) (s : JsString) : Scanned :=
  match s with
  | d :: s' =>
    if c = colon ∧ (d = colon ∨ d = equalsSign) ∨ c = fullStop ∧ d = fullStop then
      (.token (.op [c, d]), s')
    else (.token (.self c), s)
  | [] => (.token (.self c), [])

inductive Start
  | space
  | line
  | block
  | quote
  | quotedName
  | dollar
  | number
  | name
  | operator
  | punctuation

def start (c : CodeUnit) (s : JsString) : Start :=
  if isPgSpace c then .space
  else if c = hyphen ∧ s.head? = some hyphen then .line
  else if c = slash ∧ s.head? = some asterisk then .block
  else if c = singleQuote then .quote
  else if c = doubleQuote then .quotedName
  else if c = dollar then .dollar
  else if isDigit c || (c == fullStop && s.head?.any isDigit) then .number
  else if isIdentStart c then .name
  else if isOpChar c then .operator
  else .punctuation

def lexeme : JsString → Option Scanned
  | [] => none
  | c :: s =>
    match start c s with
    | .space => some (.space, s)
    | .line => some (.lineComment, afterLine s)
    | .block => (afterBlock 0 s.tail).map fun r => (.blockComment, r)
    | .quote => (quoteBody singleQuote s).map (strToken [singleQuote])
    | .quotedName => (quoteBody doubleQuote s).map fun b => (.token (.quotedIdent b.1), b.2)
    | .dollar => dollarSign s
    | .number => (number (c :: s)).map fun b => (.token (.num b.1), b.2)
    | .name => name c s
    | .operator =>
      some (.token (.op (operator (c :: s))), (c :: s).drop (operator (c :: s)).length)
    | .punctuation => some (punctuation c s)

/-- The lexemes of a whole text; `fuel` bounds their number. -/
def lexFuel : Nat → JsString → Option (List Lexeme)
  | _, [] => some []
  | 0, _ :: _ => none
  | fuel + 1, c :: s => do
    let (l, rest) ← lexeme (c :: s)
    let ls ← lexFuel fuel rest
    return l :: ls

def lex (s : JsString) : Option (List Lexeme) := lexFuel s.length s

def tokens (s : JsString) : Option (List Token) := (lex s).map (·.filterMap Lexeme.token?)

end PgLex
