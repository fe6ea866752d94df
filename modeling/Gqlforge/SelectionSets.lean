import Gqlforge.Plan

namespace Gqlforge.SelectionSets

open Resolvers Plan Templates

structure Printer (Input : Type) where
  value : Input → String
  isNull : Input → Bool

def escapeDefaultChar (c : Char) : String :=
  match c with
  | '\t' => "\\t"
  | '\n' => "\\n"
  | '\r' => "\\r"
  | '\'' => "\\'"
  | '"' => "\\\""
  | '\\' => "\\\\"
  | c => if 0x20 ≤ c.toNat ∧ c.toNat ≤ 0x7e then c.toString
    else "\\u\x7b" ++ String.ofList (Nat.toDigits 16 c.toNat) ++ "\x7d"

def escapeDefault (text : String) : String :=
  String.join (text.toList.map escapeDefaultChar)

section

variable {Input : Type} (printer : Printer Input)

def printDirective (argument : Input → Option String) (directive : Plan.Directive Input) : String :=
  let args := ", ".intercalate (directive.arguments.filterMap fun (name, value) =>
    (argument value).map fun text => name ++ ": " ++ text)
  if args.isEmpty then "@" ++ directive.name else "@" ++ directive.name ++ "(" ++ args ++ ")"

def printDirectives (argument : Input → Option String) (directives : List (Plan.Directive Input)) : String :=
  " ".intercalate (directives.map (printDirective argument))

def toMustache (text : String) : String :=
  match text.toList with
  | '$' :: name => "\x7b\x7b" ++ String.ofList name ++ "\x7d\x7d"
  | _ => text

def directiveArgument (value : Input) : Option String :=
  if printer.isNull value then none else some (toMustache (printer.value value))

def printArg (arg : Arg Input) : String :=
  arg.name ++ ": " ++ ((arg.value <|> arg.defaultValue).map printer.value).getD ""

def formatArguments (args : List (Arg Input)) : String :=
  let args := ",".intercalate ((args.filter (·.value.isSome)).map (printArg printer))
  if args.isEmpty then "" else "(" ++ escapeDefault args ++ ")"

def formatDirectives (directives : List (Plan.Directive Input)) : String :=
  let directives := printDirectives (directiveArgument printer) directives
  if directives.isEmpty then "" else " " ++ escapeDefault directives

def resolvesItself : Option IR → Bool
  | some (.io _) => true
  | some (.dynamic _) => true
  | _ => false

def upstreamName (ir : Option IR) (name : String) : String :=
  match ir with
  | some (.contextPath (first :: _)) => first
  | _ => name

def braces (texts : List String) : String :=
  "\x7b " ++ " ".intercalate texts ++ " \x7d"

structure Formatted where
  normalFields : List String
  fragmentsFields : List (String × List String)
  isTypenameRequested : Bool

def addFragment (fragments : List (String × List String)) (name text : String) :
    List (String × List String) :=
  match fragments with
  | [] => [(name, [text])]
  | (n, texts) :: rest =>
    if n = name then (n, texts ++ [text]) :: rest else (n, texts) :: addFragment rest name text

def Formatted.add (formatted : Formatted) (isParentInterface : Bool) (parentFragment : Option String)
    (name text : String) : Formatted :=
  let requested := formatted.isTypenameRequested || (name == "__typename" && parentFragment.isNone)
  match parentFragment, isParentInterface with
  | some fragment, true =>
    ⟨formatted.normalFields, addFragment formatted.fragmentsFields fragment text, requested⟩
  | _, _ => ⟨formatted.normalFields ++ [text], formatted.fragmentsFields, requested⟩

def Formatted.render (formatted : Formatted) (isParentInterface : Bool) : Option String :=
  if formatted.normalFields.isEmpty && formatted.fragmentsFields.isEmpty then none
  else
    let normalFields :=
      -- the type is asked for even when the user did not
      if isParentInterface && !formatted.isTypenameRequested then formatted.normalFields ++ ["__typename"]
      else formatted.normalFields
    some (braces (normalFields ++ formatted.fragmentsFields.map fun (name, texts) =>
      "... on " ++ name ++ " " ++ braces texts))

section

variable (interfaces : List String)

mutual

def formatField (isParentInterface : Bool) (formatted : Formatted) : Field Input → Formatted
  | { name, ir, typeOf, args, selection, parentFragment, directives, .. } =>
    if resolvesItself ir then formatted
    else
      let isInterface := interfaces.contains typeOf.name
      let selectionSet := (formatFields isInterface ⟨[], [], false⟩ selection).render isInterface
      let fieldName := upstreamName ir name
      formatted.add isParentInterface parentFragment fieldName
        (fieldName ++ formatArguments printer args ++ formatDirectives printer directives ++
          (selectionSet.map (" " ++ ·)).getD "")

def formatFields (isParentInterface : Bool) (formatted : Formatted) : List (Field Input) → Formatted
  | [] => formatted
  | field :: rest =>
    formatFields isParentInterface (formatField isParentInterface formatted field) rest

end

def formatSelectionSet (fields : List (Field Input)) (isParentInterface : Bool) : Option String :=
  (formatFields printer interfaces isParentInterface ⟨[], [], false⟩ fields).render isParentInterface

end

end

section

variable (modifier : Io → Io)

mutual

def modifyIo : IR → IR
  | .io io => .io (modifier io)
  | .cache cache => .cache ⟨cache.maxAge, modifier cache.io⟩
  | .discriminate discriminator expr => .discriminate discriminator (modifyIo expr)
  | .protect auth accessExpr expr => .protect auth accessExpr (modifyIo expr)
  | .path input path => .path (modifyIo input) path
  | .pipe first second => .pipe (modifyIo first) (modifyIo second)
  | .entity map => .entity (modifyIoValues map)
  | .map input map => .map (modifyIo input) map
  | ir => ir

def modifyIoValues : List (String × IR) → List (String × IR)
  | [] => []
  | (name, ir) :: rest => (name, modifyIo ir) :: modifyIoValues rest

end

end

def toSelection (template : Mustache) : GraphQL.Selection :=
  if template.isConst then .resolved template.toString else .unResolved template

def setSelection (selection : Option String) : Io → Io
  | .graphQL reqTemplate fieldName dedupe =>
    match selection with
    | some text =>
      .graphQL { reqTemplate with selection := some (toSelection (Mustache.parse text)) } fieldName dedupe
    | none => .graphQL reqTemplate fieldName dedupe
  | io => io

section

variable {Input : Type} (printer : Printer Input) (interfaces : List String)

mutual

def computeField : Field Input → Field Input
  | field@{ ir := ir, typeOf := typeOf, selection := fields, .. } =>
    let text := formatSelectionSet printer interfaces fields (interfaces.contains typeOf.name)
    { field with
      ir := ir.map (modifyIo (setSelection text))
      selection := computeSelectionSet fields }

def computeSelectionSet : List (Field Input) → List (Field Input)
  | [] => []
  | field :: rest => computeField field :: computeSelectionSet rest

end

def transform (plan : OperationPlan Input) : OperationPlan Input :=
  { plan with selection := computeSelectionSet printer (plan.interfaces.getD []) plan.selection }

end

end Gqlforge.SelectionSets
