import Gqlforge.Json

namespace Gqlforge.Templates

open Json

inductive Segment where
  | literal (text : String)
  | expression (parts : List String)
  deriving DecidableEq

structure Mustache where
  segments : List Segment
  deriving DecidableEq, Inhabited

def Segment.isLiteral : Segment → Bool
  | .literal _ => true
  | .expression _ => false

def Mustache.isConst (template : Mustache) : Bool :=
  template.segments.all Segment.isLiteral

def Segment.toString : Segment → String
  | .literal text => text
  | .expression parts => "\x7b\x7b." ++ ".".intercalate parts ++ "\x7d\x7d"

def Mustache.toString (template : Mustache) : String :=
  String.join (template.segments.map Segment.toString)

namespace Mustache

def isMultispace (c : Char) : Bool :=
  c == ' ' || c == '\t' || c == '\r' || c == '\n'

def isNameChar (c : Char) : Bool :=
  c.isAlphanum || c == '_' || c == '-'

def parseName (input : List Char) : Option (String × List Char) :=
  match input.dropWhile isMultispace with
  | [] => none
  | c :: rest =>
    if c.isAlpha then
      some (String.ofList ((c :: rest).takeWhile isNameChar),
        ((c :: rest).dropWhile isNameChar).dropWhile isMultispace)
    else none

def parseNames : Nat → List Char → List String × List Char
  | fuel + 1, '.' :: input => match parseName input with
    | some (name, rest) =>
      let (names, rest) := parseNames fuel rest
      (name :: names, rest)
    | none => ([], '.' :: input)
  | _, input => ([], input)

def dropDot : List Char → List Char
  | '.' :: input => input
  | input => input

def parseExpression : List Char → Option (Segment × List Char)
  | '\x7b' :: '\x7b' :: input => match parseName (dropDot input) with
    | some (name, rest) => match parseNames rest.length rest with
      | (names, '\x7d' :: '\x7d' :: rest) => some (.expression (name :: names), rest)
      | _ => none
    | none => none
  | _ => none

def takeUntilBraces : List Char → Option (List Char × List Char)
  | [] => none
  | '\x7b' :: '\x7b' :: rest => some ([], '\x7b' :: '\x7b' :: rest)
  | c :: rest => (takeUntilBraces rest).map fun (text, rest) => (c :: text, rest)

def parseMany : Nat → List Char → Option (List Segment × List Char)
  | 0, input => some ([], input)
  | fuel + 1, input => match parseExpression input with
    | some (segment, rest) => (parseMany fuel rest).map fun (segments, rest) => (segment :: segments, rest)
    | none => match takeUntilBraces input with
      | some ([], _) => none
      | some (text, rest) =>
        (parseMany fuel rest).map fun (segments, rest) => (.literal (String.ofList text) :: segments, rest)
      | none => some ([], input)

def parseSegments (input : String) : List Segment :=
  match parseMany (input.length + 1) input.toList with
  | some (segments, []) => segments
  | some (segments, remaining) => segments ++ [.literal (String.ofList remaining)]
  | none => [.literal input]

def parse (input : String) : Mustache :=
  ⟨(parseSegments input).filter fun
    | .literal text => !text.isEmpty && text != "\""
    | .expression _ => true⟩

end Mustache

structure PathContext where
  pathString : List String → Option String
  pathGraphql : List String → Option String

def Mustache.render (template : Mustache) (ctx : PathContext) : String :=
  String.join (template.segments.map fun
    | .literal text => text
    | .expression parts => (ctx.pathString parts).getD "")

def Mustache.renderGraphql (template : Mustache) (ctx : PathContext) : String :=
  String.join (template.segments.map fun
    | .literal text => text
    | .expression parts => (ctx.pathGraphql parts).getD "")

theorem render_isConst (template : Mustache) (ctx ctx' : PathContext) (h : template.isConst = true) :
    template.render ctx = template.render ctx' := by
  simp only [Mustache.render]
  congr 1
  apply List.map_congr_left
  intro segment hs
  have hl : segment.isLiteral = true := List.all_eq_true.mp h segment hs
  cases segment with
  | literal text => rfl
  | expression parts => simp [Segment.isLiteral] at hl

inductive DynamicValue where
  | const (value : ConstValue)
  | mustache (template : Mustache)
  | object (fields : List (String × DynamicValue))
  | array (items : List DynamicValue)
  deriving Inhabited

namespace DynamicValue

mutual

def isConst : DynamicValue → Bool
  | .const _ => true
  | .mustache template => template.isConst
  | .object fields => isConstFields fields
  | .array items => isConstItems items

def isConstFields : List (String × DynamicValue) → Bool
  | [] => true
  | (_, value) :: rest => value.isConst && isConstFields rest

def isConstItems : List DynamicValue → Bool
  | [] => true
  | value :: rest => value.isConst && isConstItems rest

end

end DynamicValue

end Gqlforge.Templates
