import McpGateway.Lib.Regex
import McpGateway.Shared.Errors

/-!
# Static checks on caller-supplied SQL

The statement guard of the warehouse tool server. The checks scan the statement
without its literals and comments, and the text they scanned is the text that
is wrapped and sent.
-/

namespace McpGateway.Postgres

open Js Shared

def allowedLeadingKeywords : List JsString := [js "select", js "with"]

-- ---------------------------------------------------------------------------
-- The patterns
-- ---------------------------------------------------------------------------

/-- The `i` flag. A letter beyond ASCII never matches one of the pattern. -/
def sameLetter (c d : CodeUnit) : Bool := lower c == lower d

def word (w : String) : Regex CodeUnit := Regex.literal sameLetter (js w)

/-- `\b(…)\b`. -/
def wholeWord (r : Regex CodeUnit) : Regex CodeUnit := .seq .boundary (.seq r .boundary)

/-- `first\s+second`. -/
def phrase (first second : String) : Regex CodeUnit :=
  .seq (word first) (.seq (Regex.many1 isSpace) (word second))

def forbiddenIdentifier : Regex CodeUnit :=
  wholeWord (Regex.anyOf
    [.seq (word "pg_") (Regex.many1 fun c => isLetter c || c == underscore),
      word "information_schema"])

def forbiddenKeyword : Regex CodeUnit :=
  wholeWord (Regex.anyOf
    [word "insert", word "update", word "delete", word "drop", word "alter", word "truncate",
      word "grant", word "revoke", word "create", word "comment", word "reindex", word "vacuum",
      word "copy", word "call", word "do", word "listen", word "notify", word "lock",
      word "reset", word "discard", word "prepare", word "execute", word "deallocate",
      phrase "set" "role", phrase "set" "session"])

/-- `;\s*$`. -/
def trailingSemicolon : Regex CodeUnit :=
  .seq (.one (· == semicolon)) (.seq (.many isSpace) .finish)

structure GuardOptions where
  maxRows : ℤ
  maxLength : Option Nat := none

structure GuardedStatement where
  sql : JsString
  original : JsString
  limit : Nat
  deriving DecidableEq

-- ---------------------------------------------------------------------------
-- Stripping
-- ---------------------------------------------------------------------------

def indexOf (needle : JsString) : JsString → Option Nat
  | [] => if needle = [] then some 0 else none
  | c :: s => if needle.isPrefixOf (c :: s) then some 0 else (indexOf needle s).map (· + 1)

/-- How far the inner loop moves the cursor past an opening quote. -/
def literalEnd (quote : CodeUnit) : JsString → Nat
  | [] => 0
  | [_] => 1
  | c :: d :: s =>
    if c = quote then
      -- A doubled quote is an escaped quote, not a terminator.
      if d = quote then literalEnd quote s + 2 else 1
    else literalEnd quote (d :: s) + 1

/-- One turn of the loop: what it adds to `out` and how far it moves `index`. -/
def stripStep (rest : JsString) : JsString × Nat :=
  if (js "--").isPrefixOf rest then ([], (indexOf [lineFeed] rest).getD rest.length)
  else if (js "/*").isPrefixOf rest then
    -- Searched from the opener itself, so `/*/` is a whole comment.
    ([], ((indexOf (js "*/") rest).map (· + 2)).getD rest.length)
  else
    match rest with
    | [] => ([], 0)
    | c :: s => if isQuote c then ([blank], literalEnd c s + 1) else ([c], 1)

/-- The loop with `skip` code units still to pass over. -/
def stripFrom : Nat → JsString → JsString
  | _, [] => []
  | skip + 1, _ :: s => stripFrom skip s
  | 0, c :: s => (stripStep (c :: s)).1 ++ stripFrom ((stripStep (c :: s)).2 - 1) s

def stripLiteralsAndComments (sql : JsString) : JsString := stripFrom 0 sql

def withoutTrailing (original : JsString) : JsString :=
  trailingSemicolon.removeFirst isWordChar (stripLiteralsAndComments original)

-- ---------------------------------------------------------------------------
-- The guard
-- ---------------------------------------------------------------------------

def opening : JsString := js "SELECT * FROM ("

def closing (limit : Nat) : JsString := js ") AS mcp_guarded_query LIMIT " ++ decimal limit

/-- `trimStart().split(/\s+/)[0].toLowerCase()`. -/
def leadingWord (text : JsString) : JsString :=
  toLowerCase ((trimStart text).takeWhile (!isSpace ·))

def guardStatement (rawSql : JsString) (options : GuardOptions) :
    Except GatewayError GuardedStatement := do
  let original := trim rawSql
  let maxLength := options.maxLength.getD 8000
  if original.length = 0 then throw (badRequestError (js "A SQL statement is required"))
  if original.length > maxLength then
    throw (badRequestError (js "Statement exceeds the " ++ decimal maxLength ++ js " character limit"))
  let scanned := withoutTrailing original
  if scanned.contains semicolon then
    throw (badRequestError (js "Only a single statement may be submitted"))
  let leading := leadingWord scanned
  if !allowedLeadingKeywords.contains leading then
    throw (badRequestError
      (js "Only SELECT and WITH statements are permitted; this statement begins with '" ++ leading ++
        [singleQuote])
      [(js "leading", .string leading)])
  if let some m := forbiddenKeyword.exec isWordChar scanned then
    throw (badRequestError
      (js "Statement contains the forbidden keyword '" ++ Regex.matched m ++ [singleQuote])
      [(js "keyword", .string (Regex.matched m))])
  if let some m := forbiddenIdentifier.exec isWordChar scanned then
    throw (badRequestError
      (js "Statement references '" ++ Regex.matched m ++
        js "', which is not queryable through this tool")
      [(js "identifier", .string (Regex.matched m))])
  let limit := (max 1 (min options.maxRows options.maxRows)).toNat
  return { sql := opening ++ scanned ++ closing limit, original, limit }

/-- The statement `Warehouse.query` sends, its row cap the caller's within the
server's. -/
def queryStatement (sql : JsString) (limit : Option ℤ) (maxRows : ℤ) :
    Except GatewayError GuardedStatement :=
  guardStatement sql { maxRows := min (limit.getD maxRows) maxRows }

end McpGateway.Postgres
