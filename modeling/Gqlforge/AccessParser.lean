import Gqlforge.Combinators
import Gqlforge.PostgresTemplates
import Gqlforge.QueryFixpoints

namespace Gqlforge.AccessParser

open Combinators QueryFixpoints PostgresTemplates Resolvers

def byteChars (c : Char) : List Char :=
  (String.utf8EncodeChar c).map byteChar

def scanString : List Char → Option (List Char × List Char)
  | '\\' :: c :: rest => (scanString rest).map fun (text, rest) =>
    ((if c = '\'' then ['\''] else if c = '\\' then ['\\'] else '\\' :: byteChars c) ++ text, rest)
  | c :: rest =>
    if c = '\'' then some ([], rest)
    else (scanString rest).map fun (text, rest) => (byteChars c ++ text, rest)
  | [] => none

def parseStringLiteral : Parser Operand := fun input => do
  let (_, input) ← char '\'' input
  let (text, rest) ← scanString input
  return (.stringLiteral (String.ofList text), rest)

def parseI64 (digits : List Char) : Option Int :=
  let n := Nat.ofDigitChars 10 digits 0
  if n < 2 ^ 63 then some n else none

def parseNumberLiteral : Parser Operand := fun input => do
  let (neg, input) := match char '-' input with
    | some (_, rest) => (true, rest)
    | none => (false, input)
  let (digits, rest) ← takeWhile1 Char.isDigit input
  let n ← parseI64 digits
  return (.numberLiteral (if neg then -n else n), rest)

section

variable (isAlphanumeric : Char → Bool)

def isIdentChar (c : Char) : Bool :=
  isAlphanumeric c || c == '_' || c == '-'

def parsePath : Parser Operand := fun input => do
  let (parts, rest) ← separatedList1 (char '.') (takeWhile1 (isIdentChar isAlphanumeric)) input
  return (.path (parts.map String.ofList), rest)

def parseBoolLiteral : Parser Operand := fun input => do
  let (word, rest) ← alt (tag "true".toList) (tag "false".toList) input
  if rest.head?.any fun c => isIdentChar isAlphanumeric c || c == '.' then none
  else return (.boolLiteral (word == "true".toList), rest)

def parseOperand : Parser Operand := fun input =>
  alt parseStringLiteral (alt (parseBoolLiteral isAlphanumeric) (alt parseNumberLiteral (parsePath isAlphanumeric)))
    (multispace0 input)

def parseComparison : Parser AccessExpr := fun input => do
  let (left, input) ← parseOperand isAlphanumeric input
  let (op, input) ← alt (tag "!=".toList) (tag "==".toList) (multispace0 input)
  let (right, input) ← parseOperand isAlphanumeric (multispace0 input)
  return (if op = "==".toList then .eq left right else .neq left right, multispace0 input)

section

variable (parseAtom : Parser AccessExpr)

def parseNot : Parser AccessExpr := fun input => do
  let (_, input) ← char '!' (multispace0 input)
  let (expr, input) ← parseAtom (multispace0 input)
  return (.not expr, input)

def parseRest (op : List Char) (p : Parser AccessExpr) : List Char → Option (List AccessExpr × List Char) :=
  many0 (preceded (fun input => tag op (multispace0 input)) fun input => p (multispace0 input))

def parseAndExpr : Parser AccessExpr := fun input => do
  let (first, input) ← parseAtom input
  let (rest, input) ← parseRest "&&".toList parseAtom input
  return (rest.foldl .and first, input)

def parseOrExpr : Parser AccessExpr := fun input => do
  let (first, input) ← parseAndExpr parseAtom input
  let (rest, input) ← parseRest "||".toList (parseAndExpr parseAtom) input
  return (rest.foldl .or first, input)

def parseParens : Parser AccessExpr := fun input => do
  let (_, input) ← char '(' (multispace0 input)
  let (expr, input) ← parseOrExpr parseAtom input
  let (_, input) ← char ')' (multispace0 input)
  return (expr, input)

end

def parseAtom : Nat → Parser AccessExpr
  | 0, _ => none
  | depth + 1, input =>
    alt (parseParens (parseAtom depth)) (alt (parseNot (parseAtom depth)) (parseComparison isAlphanumeric))
      (multispace0 input)

inductive ParseError
  | failed
  | trailing (remaining : List Char)
  deriving DecidableEq

def trim (text : List Char) : List Char :=
  (text.dropWhile isWhitespace).rdropWhile isWhitespace

def parse (text : List Char) : Except ParseError AccessExpr :=
  match parseOrExpr (parseAtom isAlphanumeric ((trim text).length + 1)) (trim text) with
  | none => .error .failed
  | some (expr, remaining) => if (trim remaining).isEmpty then .ok expr else .error (.trailing (trim remaining))

end

end Gqlforge.AccessParser
