import Gqlforge.IoKeys
import Gqlforge.JsonBodies

namespace Gqlforge.SentBodies

open Json Resolvers Templates Mustache JsonTexts TemplateMarks BodyTemplates JsonBodies EvalContext
open RequestTemplates TemplateValidation

def numberOf (text : String) : Option Value :=
  if h : isNumber text.toList = true then some (.number ⟨text.toList, h⟩) else none

mutual

def jsonOf : ConstValue → Option Value
  | .null => some .null
  | .number (.int n) => numberOf (toString n)
  | .number (.float repr) => numberOf repr
  | .string text => some (.string text.toList)
  | .boolean value => some (.bool value)
  | .enum name => some (.string name.toList)
  | .list items => (jsonOfItems items).map .array
  | .object fields => (jsonOfFields fields).map .object

def jsonOfItems : List ConstValue → Option (List Value)
  | [] => some []
  | value :: rest => do
    let value ← jsonOf value
    let rest ← jsonOfItems rest
    return value :: rest

def jsonOfFields : List (String × ConstValue) → Option (List (List Char × Value))
  | [] => some []
  | (key, value) :: rest => do
    let value ← jsonOf value
    let rest ← jsonOfFields rest
    return (key.toList, value) :: rest

end

section Contexts

variable (texts : Texts) (ctx : EvalContext) (claims : Option ConstValue)

def claimsValue : ConstValue → ConstValue
  | .string text => .string (texts.json (.string text))
  | .enum name => .string (texts.json (.enum name))
  | claims => claims

def valueAt : List String → Option ConstValue
  | ["vars"] => some (.object (ctx.requestCtx.vars.map fun (key, value) => (key, .string value)))
  | ["claims"] => claims.map (claimsValue texts)
  | "claims" :: path => claims.bind fun claims => (claimAt claims path).map fun
    | .string text => .string text
    | claim => claimsValue texts claim
  | path => (toRawValue texts ctx claims path).map fun
    | .string text => .string text
    | .value value _ => value

def jsonAt (parts : List String) : Value :=
  ((valueAt texts ctx claims parts).bind jsonOf).getD .null

structure Resolves (parts : List String) : Prop where
  text : ((pathContext texts ctx claims).pathString parts).isSome = true
  value : ((valueAt texts ctx claims parts).bind jsonOf).isSome = true

def PrintsJson (json : ConstValue → String) : Prop :=
  ∀ value tree, jsonOf value = some tree → parse (json value).toList = some tree

variable {texts ctx claims}

theorem number_fits {text : String} {tree : Value} (h : numberOf text = some tree) :
    (∀ chars, tree ≠ .string chars) ∧ parse text.toList = some tree := by
  unfold numberOf at h
  split at h
  · next hnumber =>
    obtain rfl := Option.some.inj h
    exact ⟨nofun, parse_print (.number ⟨text.toList, hnumber⟩)⟩
  · cases h

theorem convert_fits (hjson : PrintsJson texts.json) {value : ConstValue} {owned : Bool} {text : String} {tree : Value}
    (htext : convertValue texts value owned = some text) (htree : jsonOf value = some tree) :
    tree = .string text.toList ∨ (∀ chars, tree ≠ .string chars) ∧ parse text.toList = some tree := by
  cases value with
  | null => cases htext
  | number number =>
    cases number with
    | int n =>
      obtain rfl := Option.some.inj htext
      exact .inr (number_fits htree)
    | float repr =>
      obtain rfl := Option.some.inj htext
      exact .inr (number_fits htree)
  | string value =>
    obtain rfl := Option.some.inj htext
    exact .inl (Option.some.inj htree).symm
  | boolean value =>
    obtain rfl := Option.some.inj htext
    obtain rfl := Option.some.inj htree
    refine .inr ⟨nofun, ?_⟩
    cases value with
    | true => exact parse_print (.bool true)
    | false => exact parse_print (.bool false)
  | enum name =>
    cases owned with
    | true => cases htext
    | false =>
      obtain rfl := Option.some.inj htext
      exact .inl (Option.some.inj htree).symm
  | list items =>
    obtain rfl := Option.some.inj htext
    obtain ⟨trees, -, rfl⟩ := Option.map_eq_some_iff.mp htree
    exact .inr ⟨nofun, hjson _ _ htree⟩
  | object fields =>
    obtain rfl := Option.some.inj htext
    obtain ⟨trees, -, rfl⟩ := Option.map_eq_some_iff.mp htree
    exact .inr ⟨nofun, hjson _ _ htree⟩

theorem claims_fit (hjson : PrintsJson texts.json) {claims : ConstValue} {tree : Value}
    (htree : jsonOf (claimsValue texts claims) = some tree) :
    tree = .string (texts.json claims).toList ∨
      (∀ chars, tree ≠ .string chars) ∧ parse (texts.json claims).toList = some tree := by
  cases claims with
  | string text => exact .inl (Option.some.inj htree).symm
  | enum name => exact .inl (Option.some.inj htree).symm
  | null => exact .inr ⟨Option.some.inj htree ▸ nofun, hjson _ _ htree⟩
  | boolean value => exact .inr ⟨Option.some.inj htree ▸ nofun, hjson _ _ htree⟩
  | number number =>
    refine .inr ⟨?_, hjson _ _ htree⟩
    cases number <;> exact (number_fits htree).1
  | list items =>
    obtain ⟨trees, -, rfl⟩ := Option.map_eq_some_iff.mp htree
    exact .inr ⟨nofun, hjson _ _ htree⟩
  | object fields =>
    obtain ⟨trees, -, rfl⟩ := Option.map_eq_some_iff.mp htree
    exact .inr ⟨nofun, hjson _ _ htree⟩

theorem resolves_fits (hjson : PrintsJson texts.json) {parts : List String} (h : Resolves texts ctx claims parts) :
    Fits (fillOf (pathContext texts ctx claims)) (jsonAt texts ctx claims) parts := by
  obtain ⟨⟨text, htext⟩, ⟨tree, htree⟩⟩ :=
    And.intro (Option.isSome_iff_exists.mp h.text) (Option.isSome_iff_exists.mp h.value)
  have hfill : fillOf (pathContext texts ctx claims) parts = text.toList := by rw [fillOf, htext, Option.getD_some]
  have hvalue : jsonAt texts ctx claims parts = tree := by rw [jsonAt, htree, Option.getD_some]
  rw [Fits, hfill, hvalue]
  obtain ⟨raw, hraw, hraws⟩ := Option.bind_eq_some_iff.mp htext
  obtain ⟨value, hvalue, hjsons⟩ := Option.bind_eq_some_iff.mp htree
  unfold valueAt at hvalue
  split at hvalue
  · obtain rfl := Option.some.inj hvalue
    obtain rfl := Option.some.inj hraw
    obtain rfl := Option.some.inj hraws
    obtain ⟨trees, -, rfl⟩ := Option.map_eq_some_iff.mp hjsons
    exact .inr ⟨fun _ h => (by cases h), hjson _ _ hjsons⟩
  · obtain ⟨claims', rfl, rfl⟩ := Option.map_eq_some_iff.mp hvalue
    obtain rfl := Option.some.inj hraw
    obtain rfl := Option.some.inj hraws
    exact claims_fit hjson hjsons
  · next path hpath _ =>
    obtain ⟨claims', rfl, hclaim⟩ := Option.bind_eq_some_iff.mp hvalue
    obtain ⟨claim, hclaimAt, rfl⟩ := Option.map_eq_some_iff.mp hclaim
    have hrawText : raw = .string (claimText texts claim) := by
      cases path with
      | nil => exact absurd rfl hpath
      | cons name path =>
        have hread : toRawValue texts ctx (some claims') ("claims" :: name :: path) =
            (claimAt claims' (name :: path)).bind fun claim => some (.string (claimText texts claim)) := rfl
        rw [hread, hclaimAt] at hraw
        exact (Option.some.inj hraw).symm
    subst hrawText
    obtain rfl := Option.some.inj hraws
    cases claim with
    | string text => exact .inl (Option.some.inj hjsons).symm
    | _ => exact claims_fit hjson hjsons
  · next hvars hclaims hpath =>
    obtain ⟨raw', hraw', rfl⟩ := Option.map_eq_some_iff.mp hvalue
    obtain rfl := Option.some.inj (hraw.symm.trans hraw')
    cases raw with
    | string text' =>
      obtain rfl := Option.some.inj hraws
      exact .inl (Option.some.inj hjsons).symm
    | value value owned => exact convert_fits hjson hraws hjsons

end Contexts

section Requests

def toBody (json : ConstValue → String) (body : Option ConstValue) : Option Grpc.RequestBody :=
  body.map fun body => ⟨some (Mustache.parse (json body)), json body⟩

structure PrintedAs (json : ConstValue → String) (config : ConstValue) (body : Value) : Prop where
  value : jsonOf config = some body
  text : json config = String.ofList (print body)

variable (texts : Texts) (ctx : EvalContext) (claims : Option ConstValue) (body : Value)

abbrev filledBody : Value :=
  filled (fillOf (pathContext texts ctx claims)) (jsonAt texts ctx claims) body

abbrev MeantBody : Prop :=
  Meant (pathContext texts ctx claims) (jsonAt texts ctx claims) body

variable {texts ctx claims body}

theorem holes_fit (hjson : PrintsJson texts.json) (hresolves : Holes (Resolves texts ctx claims) body) :
    Holes (Fits (fillOf (pathContext texts ctx claims)) (jsonAt texts ctx claims)) body :=
  Tree.All.imp (fun _ hkey parts hparts => resolves_fits hjson (hkey parts hparts))
    (fun _ htext parts hparts => resolves_fits hjson (htext parts hparts)) hresolves

/-- A rendered body is read as its template with the values in place if and only if it can be split, its texts need no
escaping, and its values stand where the quotes leave them what they are. -/
theorem bodies_meant_iff {json : ConstValue → String} {config : ConstValue} (hprinted : PrintedAs json config body)
    (hjson : PrintsJson texts.json) (hresolves : Holes (Resolves texts ctx claims) body) :
    (∀ (P : Config.Payloads) (B : FieldCompiler.Backends) (settings : Settings P B) (http : ConfigHttp)
        (headers : MustacheHeaders) (wire : Wire), settings.json = json → http.body = some config →
      http.encoding = .applicationJson → ∃ text key,
        Http.RequestTemplate.createBody wire (requestTemplate settings http headers) (renderContext texts ctx claims) =
          some (some (.text text), key) ∧
        (parse text.toList = some (filledBody texts ctx claims body) ↔ MeantBody texts ctx claims body)) ∧
    ∀ template : Grpc.RequestTemplate, template.body = toBody json (some config) →
      (parse (Grpc.RequestTemplate.renderBody template (renderContext texts ctx claims)).toList =
        some (filledBody texts ctx claims body) ↔ MeantBody texts ctx claims body) := by
  have hrender := parse_render_iff (holes_fit hjson hresolves)
  rw [← hprinted.text] at hrender
  constructor
  · intro P B settings http headers wire hsettings hbody hencoding
    refine ⟨_, (Http.RequestTemplate.expressionValueEval (Mustache.parse (json config))
      (pathContext texts ctx claims)).2, ?_, hrender⟩
    rw [Http.RequestTemplate.createBody, requestTemplate, hbody, hsettings, hencoding, ← IoKeys.expressionValueEval_fst]
    rfl
  · intro template hbody
    rw [Grpc.RequestTemplate.renderBody, hbody]
    exact hrender

def argument (text : String) : EvalContext :=
  EvalContext.new ⟨[], [], fun _ => none, fun _ => .succeed none⟩ ⟨none, some [("x", .string text)], none, true⟩

def compactTexts : Texts :=
  ⟨fun _ => "", fun value => String.ofList (((jsonOf value).map print).getD [])⟩

theorem compactTexts_json : PrintsJson compactTexts.json := by
  intro value tree h
  have hjson : compactTexts.json value = String.ofList (print tree) := by
    simp only [compactTexts, h, Option.map_some, Option.getD_some]
  rw [hjson, String.toList_ofList]
  exact parse_print tree

def memberConfig : ConstValue :=
  .object [("a", .string "\x7b\x7b.args.x\x7d\x7d")]

def memberBody : Value :=
  .object [("a".toList, .string "\x7b\x7b.args.x\x7d\x7d".toList)]

theorem memberBody_printed : PrintedAs compactTexts.json memberConfig memberBody :=
  ⟨rfl, rfl⟩

theorem memberBody_resolves (text : String) : Holes (Resolves compactTexts (argument text) none) memberBody := by
  have hkey : stringMarks "a".toList = [.char 'a'] := by decide
  have hmarks : stringMarks "\x7b\x7b.args.x\x7d\x7d".toList = [.expression ["args", "x"]] := by decide
  refine ⟨fun parts hparts => ?_, fun parts hparts => ?_, trivial⟩
  · rw [hkey] at hparts
    simp at hparts
  · rw [hmarks] at hparts
    obtain rfl := Mark.expression.inj (List.mem_singleton.mp hparts)
    exact ⟨rfl, rfl⟩

def memberTemplate : Grpc.RequestTemplate :=
  ⟨⟨[]⟩, [], toBody compactTexts.json (some memberConfig), ⟨"", "", ""⟩, .query⟩

def sentMember (text : String) : Option Value :=
  parse (Grpc.RequestTemplate.renderBody memberTemplate (renderContext compactTexts (argument text) none)).toList

theorem greeting_meant : sentMember "hi" = some (filledBody compactTexts (argument "hi") none memberBody) := by
  have hmarks : stringMarks "\x7b\x7b.args.x\x7d\x7d".toList = [.expression ["args", "x"]] := by decide
  have hmeant : MeantBody compactTexts (argument "hi") none memberBody := by
    refine .inl ⟨⟨(by decide : splits _ = true), (by decide : splits _ = true), trivial⟩, by decide,
      ⟨by decide, fun parts hparts => ?_⟩, trivial⟩
    rw [hmarks] at hparts
    obtain rfl := Mark.expression.inj (List.cons.inj hparts).1
    exact ⟨_, rfl⟩
  exact ((bodies_meant_iff memberBody_printed compactTexts_json (memberBody_resolves "hi")).2 memberTemplate rfl).mpr
    hmeant

theorem member_injected : PrintedAs compactTexts.json memberConfig memberBody ∧ PrintsJson compactTexts.json ∧
    Holes (Resolves compactTexts (argument "\",\"admin\":\"1") none) memberBody ∧
    sentMember "\",\"admin\":\"1" = some (.object [("a".toList, .string []), ("admin".toList, .string ['1'])]) ∧
    sentMember "\",\"admin\":\"1" ≠ some (filledBody compactTexts (argument "\",\"admin\":\"1") none memberBody) := by
  have hsent : sentMember "\",\"admin\":\"1" =
      some (.object [("a".toList, .string []), ("admin".toList, .string ['1'])]) := by
    have htext : (Grpc.RequestTemplate.renderBody memberTemplate
        (renderContext compactTexts (argument "\",\"admin\":\"1") none)).toList =
          print (.object [("a".toList, .string []), ("admin".toList, .string ['1'])]) := by decide
    rw [sentMember, htext]
    exact parse_print _
  refine ⟨memberBody_printed, compactTexts_json, memberBody_resolves _, hsent, fun h => ?_⟩
  rw [hsent] at h
  have hmembers := Tree.object.inj (Option.some.inj h)
  cases (List.cons.inj hmembers).2

end Requests

end Gqlforge.SentBodies
