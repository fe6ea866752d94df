import Gqlforge.Eval
import Gqlforge.Placeholders
import Gqlforge.QueryItems

namespace Gqlforge.RenderedValues

open Json Templates Mustache RequestTemplates Eval BodyTemplates TemplateMarks Placeholders
open QueryItems (render_append)
open StreamDirectives (prepend prependFields prependItems)

/-- The texts that are read as JSON: a string is shorter than its text, and no control characters but blanks occur. -/
structure ReadsJson (parseJson : String → Option ConstValue) : Prop where
  empty : parseJson "" = none
  string (text value : String) : parseJson text = some (.string value) → value.length < text.length
  control (text : String) (c : Char) : c ∈ text.toList → c.toNat < 0x20 → isMultispace c = false → parseJson text = none

def plainText (json : ConstValue → String) : ConstValue → String
  | .string text => text
  | value => json value

def valueContext (json : ConstValue → String) (value : ConstValue) : PathContext where
  pathString path := (EvalContext.getPath value path).map (plainText json)
  pathGraphql _ := none

def scope (name : String) (value : ConstValue) : ConstValue :=
  .object [(name, value)]

theorem getPath_scope (name : String) (value : ConstValue) (path : List String) :
    EvalContext.getPath (scope name value) (name :: path) = EvalContext.getPath value path := by
  have hkey : (scope name value).getKey name = some value := by
    simp [scope, ConstValue.getKey, ConstValue.asObject, Object.getKey]
  rw [scope, EvalContext.getPath, ← scope, hkey, Option.bind_eq_bind, Option.bind_some]
  intros
  contradiction

theorem getPath_outside {name key : String} (h : key ≠ name) (value : ConstValue) (path : List String) :
    EvalContext.getPath (scope name value) (key :: path) = none := by
  have hkey : (scope name value).getKey key = none := by
    simp [scope, ConstValue.getKey, ConstValue.asObject, Object.getKey, h]
  rw [scope, EvalContext.getPath, ← scope, hkey, Option.bind_eq_bind, Option.bind_none]
  intros
  contradiction

def nest (text : String) : List String → ConstValue
  | [] => .string text
  | key :: path => scope key (nest text path)

theorem getPath_nest (text : String) (path : List String) :
    EvalContext.getPath (nest text path) path = some (.string text) := by
  induction path with
  | nil => rfl
  | cons key path ih => rw [nest, getPath_scope, ih]

section Texts

variable {ctx ctx' : PathContext}

theorem render_literal (text : String) (segments : List Segment) (ctx : PathContext) :
    Mustache.render ⟨.literal text :: segments⟩ ctx = text ++ Mustache.render ⟨segments⟩ ctx := by
  rw [Mustache.render, List.map_cons, String.join_cons]
  rfl

theorem render_expression (parts : List String) (segments : List Segment) (ctx : PathContext) :
    Mustache.render ⟨.expression parts :: segments⟩ ctx =
      (ctx.pathString parts).getD "" ++ Mustache.render ⟨segments⟩ ctx := by
  rw [Mustache.render, List.map_cons, String.join_cons]
  rfl

theorem length_render_le {segments : List Segment}
    (h : ∀ parts, .expression parts ∈ segments → ctx.pathString parts = none) :
    (Mustache.render ⟨segments⟩ ctx).length ≤ (Mustache.render ⟨segments⟩ ctx').length := by
  induction segments with
  | nil => exact Nat.le_refl _
  | cons segment segments ih =>
    have hrest := ih fun parts hparts => h parts (List.mem_cons_of_mem _ hparts)
    cases segment with
    | literal text =>
      rw [render_literal, render_literal, String.length_append, String.length_append]
      omega
    | expression parts =>
      rw [render_expression, render_expression, h parts List.mem_cons_self, Option.getD_none, String.empty_append,
        String.length_append]
      omega

theorem length_render_lt {segments : List Segment} {parts : List String} {text : String}
    (h : ∀ parts, .expression parts ∈ segments → ctx.pathString parts = none)
    (hparts : .expression parts ∈ segments) (htext : ctx'.pathString parts = some text) (hne : text ≠ "") :
    (Mustache.render ⟨segments⟩ ctx).length < (Mustache.render ⟨segments⟩ ctx').length := by
  obtain ⟨front, back, rfl⟩ := List.append_of_mem hparts
  have hfront := @length_render_le ctx ctx' front fun parts hparts => h parts (List.mem_append_left _ hparts)
  have hback := @length_render_le ctx ctx' back fun parts hparts =>
    h parts (List.mem_append_right _ (List.mem_cons_of_mem _ hparts))
  have hpositive : 0 < text.length := Nat.pos_of_ne_zero fun hzero => hne (String.length_eq_zero_iff.mp hzero)
  rw [render_append, render_append, render_expression, render_expression, h parts hparts, htext]
  simp only [String.length_append, Option.getD_none, Option.getD_some, String.length_empty]
  omega

theorem mem_render {segments : List Segment} {parts : List String} {text : String} {c : Char}
    (hparts : .expression parts ∈ segments) (htext : ctx.pathString parts = some text) (hc : c ∈ text.toList) :
    c ∈ (Mustache.render ⟨segments⟩ ctx).toList := by
  obtain ⟨front, back, rfl⟩ := List.append_of_mem hparts
  rw [render_append, render_expression, htext]
  simp [hc]

end Texts

section Prepending

mutual

def Every (P : Mustache → Prop) : DynamicValue → Prop
  | .const _ => True
  | .mustache template => P template
  | .object fields => EveryField P fields
  | .array items => EveryItem P items

def EveryField (P : Mustache → Prop) : List (String × DynamicValue) → Prop
  | [] => True
  | (_, value) :: rest => Every P value ∧ EveryField P rest

def EveryItem (P : Mustache → Prop) : List DynamicValue → Prop
  | [] => True
  | value :: rest => Every P value ∧ EveryItem P rest

end

def Named (template : Mustache) : Prop :=
  ∀ parts, .expression parts ∈ template.segments → parts ≠ []

def Leading (template : Mustache) : Prop :=
  ∀ parts, .expression parts ∉ template.segments.tail

variable {wire : Wire} {json : ConstValue → String}

def Commutes (wire : Wire) (json : ConstValue → String) (value : DynamicValue) : Prop :=
  ∀ name response, renderValue wire (valueContext json (scope name response)) (prepend name value) =
    renderValue wire (valueContext json response) value

variable {template : Mustache}

theorem isConst_iff : template.isConst = true ↔ ∀ parts, .expression parts ∉ template.segments := by
  rw [Mustache.isConst, List.all_eq_true]
  constructor
  · intro h parts hparts
    cases h _ hparts
  · intro h segment hsegment
    cases segment with
    | literal => rfl
    | expression parts => exact absurd hsegment (h parts)

theorem prepend_first {template : Mustache} {first : Segment} {rest : List Segment}
    (hsegments : template.segments = first :: rest) (hconst : template.isConst = false) (name : String) :
    ∃ first', prepend name (.mustache template) = .mustache ⟨first' :: rest⟩ ∧ ∀ response, ∃ text,
      Mustache.render ⟨first' :: rest⟩ (valueContext json (scope name response)) =
        text ++ Mustache.render ⟨rest⟩ (valueContext json (scope name response)) ∧
      template.render (valueContext json response) = text ++ Mustache.render ⟨rest⟩ (valueContext json response) := by
  have htemplate : template = ⟨first :: rest⟩ := by rw [← hsegments]
  rw [prepend, hconst, hsegments]
  cases first with
  | literal text =>
    refine ⟨.literal text, by rw [htemplate]; rfl, fun response => ⟨text, render_literal _ _ _, ?_⟩⟩
    rw [htemplate, render_literal]
  | expression parts =>
    refine ⟨.expression (name :: parts), rfl, fun response => ⟨_, render_expression _ _ _, ?_⟩⟩
    have hpath : (valueContext json (scope name response)).pathString (name :: parts) =
        (valueContext json response).pathString parts := by
      simp only [valueContext, getPath_scope]
    rw [htemplate, render_expression, hpath]

theorem render_leading {segments : List Segment} (h : ∀ parts, .expression parts ∉ segments) (ctx ctx' : PathContext) :
    Mustache.render ⟨segments⟩ ctx = Mustache.render ⟨segments⟩ ctx' :=
  render_isConst _ _ _ ((isConst_iff).mpr h)

theorem commutes_of_leading (h : Leading template) : Commutes wire json (.mustache template) := by
  intro name response
  cases hconst : template.isConst with
  | true =>
    rw [prepend, if_pos hconst, renderValue, renderValue, render_isConst template _ _ hconst]
  | false =>
    cases hsegments : template.segments with
    | nil =>
      rw [Mustache.isConst, hsegments] at hconst
      cases hconst
    | cons first rest =>
      obtain ⟨first', hprepend, htexts⟩ := prepend_first hsegments hconst name
      obtain ⟨text, hscope, hresponse⟩ := htexts response
      have hrest : ∀ parts, .expression parts ∉ rest := by
        intro parts
        have hparts := h parts
        rwa [hsegments] at hparts
      rw [hprepend, renderValue, renderValue, hscope, hresponse, render_leading hrest]

def heads (segments : List Segment) : List String :=
  segments.filterMap fun
    | .literal _ => none
    | .expression parts => parts.head?

theorem leading_of_commutes (hreads : ReadsJson wire.parseJson) (hnamed : Named template)
    (h : Commutes wire json (.mustache template)) : Leading template := by
  intro parts hparts
  obtain ⟨first, rest, hsegments⟩ : ∃ first rest, template.segments = first :: rest := by
    cases hsegments : template.segments with
    | nil => rw [hsegments] at hparts; cases hparts
    | cons first rest => exact ⟨first, rest, rfl⟩
  have hrest : .expression parts ∈ rest := by rwa [hsegments] at hparts
  have hconst : template.isConst = false := by
    rw [Bool.eq_false_iff]
    intro htrue
    exact isConst_iff.mp htrue parts (List.mem_of_mem_tail hparts)
  -- A name that no expression starts with, and a response in which the expression stands for an odd text.
  obtain ⟨name, hname⟩ := Infinite.exists_notMem_finset (heads rest).toFinset
  rw [List.mem_toFinset] at hname
  have hcommutes := h name (nest "\x01" parts)
  obtain ⟨first', hprepend, htexts⟩ := @prepend_first json _ _ _ hsegments hconst name
  obtain ⟨text, hscope, hresponse⟩ := htexts (nest "\x01" parts)
  have hmissed : ∀ parts', .expression parts' ∈ rest →
      (valueContext json (scope name (nest "\x01" parts))).pathString parts' = none := by
    intro parts' hparts'
    cases parts' with
    | nil => exact absurd rfl (hnamed [] (by rw [hsegments]; exact List.mem_cons_of_mem _ hparts'))
    | cons key path =>
      have hkey : key ≠ name := by
        rintro rfl
        exact hname (List.mem_filterMap.mpr ⟨_, hparts', rfl⟩)
      simp only [valueContext, getPath_outside hkey, Option.map_none]
  have hfound : (valueContext json (nest "\x01" parts)).pathString parts = some "\x01" := by
    simp only [valueContext, getPath_nest, Option.map_some, plainText]
  have hshorter := length_render_lt hmissed hrest hfound (by decide)
  have hcontrol : '\x01' ∈ (template.render (valueContext json (nest "\x01" parts))).toList :=
    mem_render (List.mem_of_mem_tail hparts) hfound (by decide)
  have hunread := hreads.control _ _ hcontrol (by decide) (by decide)
  rw [hprepend, renderValue, renderValue, hunread, hscope, hresponse, Option.getD_none] at hcommutes
  cases hread : wire.parseJson (text ++ Mustache.render ⟨rest⟩
      (valueContext json (scope name (nest "\x01" parts)))) with
  | none =>
    rw [hread, Option.getD_none] at hcommutes
    have hlength := congrArg String.length (ConstValue.string.inj hcommutes)
    rw [String.length_append, String.length_append] at hlength
    omega
  | some value =>
    rw [hread, Option.getD_some] at hcommutes
    have hlength := hreads.string _ _ (hread.trans (congrArg some hcommutes))
    rw [String.length_append, String.length_append] at hlength
    omega

variable (wire json) in
def CommutesFields (fields : List (String × DynamicValue)) : Prop :=
  ∀ name response, renderFields wire (valueContext json (scope name response)) (prependFields name fields) =
    renderFields wire (valueContext json response) fields

variable (wire json) in
def CommutesItems (items : List DynamicValue) : Prop :=
  ∀ name response, renderItems wire (valueContext json (scope name response)) (prependItems name items) =
    renderItems wire (valueContext json response) items

theorem commutesFields_cons (key : String) (value : DynamicValue) (fields : List (String × DynamicValue)) :
    CommutesFields wire json ((key, value) :: fields) ↔ Commutes wire json value ∧ CommutesFields wire json fields := by
  have hstep (name : String) (response : ConstValue) :
      renderFields wire (valueContext json (scope name response)) (prependFields name ((key, value) :: fields)) =
          renderFields wire (valueContext json response) ((key, value) :: fields) ↔
        renderValue wire (valueContext json (scope name response)) (prepend name value) =
            renderValue wire (valueContext json response) value ∧
          renderFields wire (valueContext json (scope name response)) (prependFields name fields) =
            renderFields wire (valueContext json response) fields := by
    rw [prependFields, renderFields, renderFields, List.cons.injEq, Prod.mk.injEq, and_iff_right rfl]
  exact (forall₂_congr hstep).trans (by simp only [forall_and]; rfl)

theorem commutesItems_cons (value : DynamicValue) (items : List DynamicValue) :
    CommutesItems wire json (value :: items) ↔ Commutes wire json value ∧ CommutesItems wire json items := by
  have hstep (name : String) (response : ConstValue) :
      renderItems wire (valueContext json (scope name response)) (prependItems name (value :: items)) =
          renderItems wire (valueContext json response) (value :: items) ↔
        renderValue wire (valueContext json (scope name response)) (prepend name value) =
            renderValue wire (valueContext json response) value ∧
          renderItems wire (valueContext json (scope name response)) (prependItems name items) =
            renderItems wire (valueContext json response) items := by
    rw [prependItems, renderItems, renderItems, List.cons.injEq]
  exact (forall₂_congr hstep).trans (by simp only [forall_and]; rfl)

mutual

theorem commutes_every (hreads : ReadsJson wire.parseJson) : ∀ value, Every Named value →
    (Commutes wire json value ↔ Every Leading value)
  | .const _, _ => iff_of_true (fun _ _ => rfl) trivial
  | .mustache _, hnamed => ⟨leading_of_commutes hreads hnamed, commutes_of_leading⟩
  | .object fields, hnamed => by
    rw [Every, ← commutesFields_every hreads fields hnamed]
    constructor
    · intro h name response
      have hobject := h name response
      rw [prepend, renderValue, renderValue] at hobject
      exact ConstValue.object.inj hobject
    · intro h name response
      rw [prepend, renderValue, renderValue, h name response]
  | .array items, hnamed => by
    rw [Every, ← commutesItems_every hreads items hnamed]
    constructor
    · intro h name response
      have hlist := h name response
      rw [prepend, renderValue, renderValue] at hlist
      exact ConstValue.list.inj hlist
    · intro h name response
      rw [prepend, renderValue, renderValue, h name response]

theorem commutesFields_every (hreads : ReadsJson wire.parseJson) : ∀ fields, EveryField Named fields →
    (CommutesFields wire json fields ↔ EveryField Leading fields)
  | [], _ => iff_of_true (fun _ _ => rfl) trivial
  | (key, value) :: fields, hnamed => by
    rw [commutesFields_cons, EveryField, commutes_every hreads value hnamed.1,
      commutesFields_every hreads fields hnamed.2]

theorem commutesItems_every (hreads : ReadsJson wire.parseJson) : ∀ items, EveryItem Named items →
    (CommutesItems wire json items ↔ EveryItem Leading items)
  | [], _ => iff_of_true (fun _ _ => rfl) trivial
  | value :: items, hnamed => by
    rw [commutesItems_cons, EveryItem, commutes_every hreads value hnamed.1,
      commutesItems_every hreads items hnamed.2]

end

/-- A value is rendered alike below a name exactly where no expression of it stands behind the first segment of its
template. -/
theorem prepend_commutes_iff (hreads : ReadsJson wire.parseJson) {value : DynamicValue} (hnamed : Every Named value) :
    Commutes wire json value ↔ Every Leading value :=
  commutes_every hreads value hnamed

def readDigits (text : String) : Option ConstValue :=
  (Schema.Scalar.digitsValue text.toList).map fun value => .number (.int (Int.ofNat value))

theorem readDigits_reads : ReadsJson readDigits where
  empty := rfl
  string text value h := by
    obtain ⟨number, -, hnumber⟩ := Option.map_eq_some_iff.mp h
    cases hnumber
  control text c hc hcontrol _ := by
    have hdigit : c.isDigit = false := by
      rw [Char.isDigit, Bool.and_eq_false_iff, decide_eq_false_iff_not]
      left
      intro hle
      have htoNat : '0'.toNat ≤ c.toNat := hle
      have hzero : '0'.toNat = 48 := rfl
      omega
    rw [readDigits, Schema.Scalar.digitsValue, if_pos, Option.map_none]
    right
    rw [List.all_eq_true]
    intro h
    have hall := h c hc
    rw [hdigit] at hall
    cases hall

def digitWire : Wire where
  parseUrl := some
  queryPairs _ := []
  setQuery url _ := url
  parseJson := readDigits
  urlencode _ := none
  convertInput _ _ := none

def userResponse : ConstValue :=
  .object [("a", .string "x"), ("b", .string "y")]

theorem leading_commutes : renderValue digitWire (valueContext (fun _ => "") (scope "args" userResponse))
    (prepend "args" (.mustache (Mustache.parse "\x7b\x7b.a\x7d\x7d!"))) =
      renderValue digitWire (valueContext (fun _ => "") userResponse)
        (.mustache (Mustache.parse "\x7b\x7b.a\x7d\x7d!")) := by
  have hsegments : (Mustache.parse "\x7b\x7b.a\x7d\x7d!").segments = [.expression ["a"], .literal "!"] := by
    decide +kernel
  have hnamed : Every Named (.mustache (Mustache.parse "\x7b\x7b.a\x7d\x7d!")) := by
    intro parts hparts
    rw [hsegments] at hparts
    simp at hparts
    simp [hparts]
  refine (prepend_commutes_iff readDigits_reads hnamed).mpr ?_ "args" userResponse
  intro parts hparts
  rw [hsegments] at hparts
  simp at hparts

theorem second_missed : ¬Commutes digitWire (fun _ => "") (.mustache (Mustache.parse
    "\x7b\x7b.a\x7d\x7d-\x7b\x7b.b\x7d\x7d")) := by
  intro h
  have hparse : Mustache.parse "\x7b\x7b.a\x7d\x7d-\x7b\x7b.b\x7d\x7d" =
      ⟨[.expression ["a"], .literal "-", .expression ["b"]]⟩ := by decide +kernel
  have hboth := h "args" userResponse
  rw [hparse] at hboth
  have hscope : renderValue digitWire (valueContext (fun _ => "") (scope "args" userResponse))
      (prepend "args" (.mustache ⟨[.expression ["a"], .literal "-", .expression ["b"]]⟩)) = .string "x-" := by
    rfl
  have hresponse : renderValue digitWire (valueContext (fun _ => "") userResponse)
      (.mustache ⟨[.expression ["a"], .literal "-", .expression ["b"]]⟩) = .string "x-y" := by
    rfl
  rw [hscope, hresponse] at hboth
  exact absurd (ConstValue.string.inj hboth) (by decide)

end Prepending

section Templates

mutual

def tryFrom : ConstValue → DynamicValue
  | .object fields => .object (tryFromFields fields)
  | .list items => .array (tryFromItems items)
  | .string text =>
    let template := Mustache.parse text
    if template.isConst then .const (.string text) else .mustache template
  | value => .const value

def tryFromFields : List (String × ConstValue) → List (String × DynamicValue)
  | [] => []
  | (key, value) :: rest => (key, tryFrom value) :: tryFromFields rest

def tryFromItems : List ConstValue → List DynamicValue
  | [] => []
  | value :: rest => tryFrom value :: tryFromItems rest

end

/-- A context that gives the texts of the values that paths refer to, or hides them; what is no string is read back
from its text. -/
structure Refers (parseJson : String → Option ConstValue) (json : ConstValue → String)
    (referenced : List String → Option ConstValue) (ctx : PathContext) : Prop where
  absent (parts : List String) : referenced parts = none → ctx.pathString parts = none
  shown (parts : List String) (value : ConstValue) : referenced parts = some value →
    ctx.pathString parts = some (plainText json value) ∨ ctx.pathString parts = none
  reads (parts : List String) (value : ConstValue) : referenced parts = some value → (∀ text, value ≠ .string text) →
    parseJson (json value) = some value

section

variable (parseJson : String → Option ConstValue) (json : ConstValue → String)
variable (referenced : List String → Option ConstValue) (ctx : PathContext)

/-- A string that is one placeholder stands for the value itself, any other for its text with the values filled in. -/
def FilledString (text : String) (out : ConstValue) : Prop :=
  (∃ parts value, Placeholder text.toList parts ∧ referenced parts = some value ∧ out = value) ∨
    (∀ parts, Placeholder text.toList parts → referenced parts = none) ∧
      ∃ expanded, out = .string expanded ∧ Replaced ctx text expanded

mutual

def Filled : ConstValue → ConstValue → Prop
  | .string text, out => FilledString referenced ctx text out
  | .list items, out => ∃ outs, out = .list outs ∧ FilledItems items outs
  | .object fields, out => ∃ outs, out = .object outs ∧ FilledFields fields outs
  | value, out => out = value

def FilledItems : List ConstValue → List ConstValue → Prop
  | [], outs => outs = []
  | item :: items, outs => ∃ first rest, outs = first :: rest ∧ Filled item first ∧ FilledItems items rest

def FilledFields : List (String × ConstValue) → Object ConstValue → Prop
  | [], outs => outs = []
  | (key, value) :: fields, outs => ∃ first rest, outs = (key, first) :: rest ∧ Filled value first ∧
      FilledFields fields rest

end

def Legible (parts : List String) (value : ConstValue) : Prop :=
  ctx.pathString parts = some (plainText json value) ∧ (∀ text, value = .string text → parseJson text = none) ∨
    ctx.pathString parts = none ∧ value = .string ""

def expansion (marks : List Mark) : String :=
  String.ofList (marks.flatMap (markText (fillOf ctx)))

def SafeMarks (marks : List Mark) : Prop :=
  (∃ parts value, marks = [.expression parts] ∧ referenced parts = some value ∧
      Legible parseJson json ctx parts value) ∨
    (∀ parts, marks = [.expression parts] → referenced parts = none) ∧ NoLoneQuote marks ∧
      parseJson (expansion ctx marks) = none

/-- A string that the parser reads as a template is safe by its marks, any other where it stands for itself. -/
def SafeString (text : String) : Prop :=
  (∃ marks, Reads text.toList marks ∧ (∃ parts, .expression parts ∈ marks) ∧
      SafeMarks parseJson json referenced ctx marks) ∨
    (∀ marks parts, Reads text.toList marks → .expression parts ∉ marks) ∧
      FilledString referenced ctx text (.string text)

mutual

def Safe : ConstValue → Prop
  | .string text => SafeString parseJson json referenced ctx text
  | .list items => SafeItems items
  | .object fields => SafeFields fields
  | _ => True

def SafeItems : List ConstValue → Prop
  | [] => True
  | item :: items => Safe item ∧ SafeItems items

def SafeFields : List (String × ConstValue) → Prop
  | [] => True
  | (_, value) :: fields => Safe value ∧ SafeFields fields

end

end

variable {parts : List String}

theorem mem_marks {segments : List Segment} :
    .expression parts ∈ segments.flatMap marksOf ↔ .expression parts ∈ segments := by
  rw [List.mem_flatMap]
  constructor
  · rintro ⟨segment, hsegment, hmark⟩
    cases segment with
    | literal text => simp [marksOf] at hmark
    | expression parts' =>
      obtain rfl := Mark.expression.inj (List.mem_singleton.mp hmark)
      exact hsegment
  · exact fun h => ⟨_, h, List.mem_singleton_self _⟩

theorem mem_dropLone {start : Bool} {marks : List Mark} {parts : List String} :
    .expression parts ∈ dropLone start marks ↔ .expression parts ∈ marks := by
  induction marks generalizing start with
  | nil => rfl
  | cons mark marks ih =>
    cases mark with
    | expression parts' => rw [dropLone, List.mem_cons, List.mem_cons, ih]
    | char c =>
      rw [dropLone]
      split
      · rw [ih]
        simp
      · rw [List.mem_cons, List.mem_cons, ih]

variable {text : String}

theorem isConst_parse : (Mustache.parse text).isConst = true ↔
    ∀ marks parts, Reads text.toList marks → .expression parts ∉ marks := by
  rw [isConst_iff]
  by_cases hscans : ∃ marks, Scans text.toList marks
  · obtain ⟨marks, hscans⟩ := hscans
    constructor
    · intro h marks' parts hreads hparts
      obtain rfl := hscans.unique (reads_iff.mp hreads)
      rw [← @mem_dropLone true, ← parse_marks hscans, mem_marks] at hparts
      exact h parts hparts
    · intro h parts hparts
      rw [← mem_marks, parse_marks hscans, mem_dropLone] at hparts
      exact h marks parts (reads_iff.mpr hscans) hparts
  · have hnone : ∀ marks, ¬Scans text.toList marks := fun marks hmarks => hscans ⟨marks, hmarks⟩
    refine iff_of_true (fun parts hparts => ?_) fun marks parts hreads => absurd (reads_iff.mp hreads) (hnone marks)
    rw [parse_segments, parseSegments_of_not_scans hnone] at hparts
    cases List.mem_singleton.mp (List.mem_filter.mp hparts).1

variable {marks : List Mark}

theorem placeholder_iff {input : List Char} (h : Splits input marks) :
    Placeholder input parts ↔ marks = [.expression parts] := by
  constructor
  · intro hplaceholder
    have hsplits := Splits.placeholder hplaceholder .nil
    rw [List.append_nil] at hsplits
    exact hsplits.unique h
  · rintro rfl
    cases h with
    | placeholder head tail =>
      cases tail
      rwa [List.append_nil]

variable {wire : Wire} {json : ConstValue → String} {referenced : List String → Option ConstValue} {ctx : PathContext}

theorem filledString_iff (h : Splits text.toList marks) {out : ConstValue} :
    FilledString referenced ctx text out ↔
      (∃ parts value, marks = [.expression parts] ∧ referenced parts = some value ∧ out = value) ∨
        (∀ parts, marks = [.expression parts] → referenced parts = none) ∧ out = .string (expansion ctx marks) := by
  have hreplaced (expanded : String) : Replaced ctx text expanded ↔ expanded = expansion ctx marks := by
    constructor
    · rintro ⟨marks', hsplits, hexpanded⟩
      obtain rfl := h.unique hsplits
      rw [expansion, ← hexpanded, String.ofList_toList]
    · rintro rfl
      exact ⟨marks, h, String.toList_ofList⟩
  simp only [FilledString, placeholder_iff h, hreplaced, exists_eq_right]

theorem render_expansion (h : Scans text.toList marks) (ctx : PathContext) :
    (Mustache.parse text).render ctx = expansion ctx (dropLone true marks) := by
  rw [expansion, ← render_scans h, String.ofList_toList]

theorem expansion_dropLone (ctx : PathContext) (marks : List Mark) :
    (expansion ctx (dropLone true marks)).length ≤ (expansion ctx marks).length ∧
      ((expansion ctx (dropLone true marks)).length = (expansion ctx marks).length → NoLoneQuote marks) := by
  have hlength := dropLone_length (fillOf ctx) true marks
  have hsublist := dropLone_sublist true marks
  have hle := hsublist.length_le
  rw [expansion, expansion, String.length_ofList, String.length_ofList, noLoneQuote_iff]
  exact ⟨by omega, fun h => hsublist.eq_of_length (by omega)⟩

theorem getD_eq_string (hreads : ReadsJson wire.parseJson) {expanded : String}
    (hlength : text.length ≤ expanded.length) :
    (wire.parseJson text).getD (.string text) = .string expanded ↔ wire.parseJson text = none ∧ text = expanded := by
  cases hread : wire.parseJson text with
  | none =>
    rw [Option.getD_none, ConstValue.string.injEq]
    exact (and_iff_right rfl).symm
  | some value =>
    rw [Option.getD_some]
    refine iff_of_false (fun heq => ?_) (fun h => nomatch h.1)
    have hshorter := hreads.string _ _ (hread.trans (congrArg some heq))
    omega

theorem legible_iff (hreads : ReadsJson wire.parseJson) (hrefers : Refers wire.parseJson json referenced ctx)
 {value : ConstValue} (hvalue : referenced parts = some value) :
    (wire.parseJson (expansion ctx [.expression parts])).getD (.string (expansion ctx [.expression parts])) = value ↔
      Legible wire.parseJson json ctx parts value := by
  have hexpansion : expansion ctx [.expression parts] = (ctx.pathString parts).getD "" := by
    simp [expansion, markText, fillOf]
  rw [hexpansion, Legible]
  rcases hrefers.shown parts value hvalue with hshown | hhidden
  · rw [hshown, Option.getD_some, and_iff_right rfl, or_iff_left fun h => absurd h.1 (Option.some_ne_none _)]
    by_cases hstring : ∃ text, value = .string text
    · obtain ⟨text, rfl⟩ := hstring
      have hplain : plainText json (.string text) = text := rfl
      rw [hplain, getD_eq_string hreads (Nat.le_refl _), and_iff_left rfl]
      constructor
      · exact fun h text' heq => ConstValue.string.inj heq ▸ h
      · exact fun h => h text rfl
    · have hother : ∀ text, value ≠ .string text := fun text heq => hstring ⟨text, heq⟩
      have hplain : plainText json value = json value := by
        cases value with
        | string text => exact absurd rfl (hother text)
        | _ => rfl
      rw [hplain, hrefers.reads parts value hvalue hother]
      exact iff_of_true rfl fun text heq => absurd heq (hother text)
  · rw [hhidden, Option.getD_none, hreads.empty, Option.getD_none, or_iff_right fun h => absurd h.1.symm (Option.some_ne_none _),
      and_iff_right rfl]
    exact eq_comm

theorem safeMarks_iff (hreads : ReadsJson wire.parseJson) (hrefers : Refers wire.parseJson json referenced ctx)
 (h : Scans text.toList marks) :
    FilledString referenced ctx text ((wire.parseJson ((Mustache.parse text).render ctx)).getD
      (.string ((Mustache.parse text).render ctx))) ↔ SafeMarks wire.parseJson json referenced ctx marks := by
  rw [filledString_iff (splits_of_scans h), render_expansion h, SafeMarks]
  by_cases hsingle : ∃ parts value, marks = [.expression parts] ∧ referenced parts = some value
  · obtain ⟨parts, value, rfl, hvalue⟩ := hsingle
    have hdrop : dropLone true [.expression parts] = [.expression parts] := rfl
    have hother : ¬∀ parts', [Mark.expression parts] = [.expression parts'] → referenced parts' = none := by
      intro hnone
      rw [hnone parts rfl] at hvalue
      cases hvalue
    rw [hdrop]
    constructor
    · rintro (⟨parts', value', hmarks, hvalue', hout⟩ | ⟨hnone, -⟩)
      · obtain rfl := Mark.expression.inj (List.cons.inj hmarks).1
        exact .inl ⟨parts, value', rfl, hvalue', (legible_iff hreads hrefers hvalue').mp hout⟩
      · exact absurd hnone hother
    · rintro (⟨parts', value', hmarks, hvalue', hlegible⟩ | ⟨hnone, -⟩)
      · obtain rfl := Mark.expression.inj (List.cons.inj hmarks).1
        exact .inl ⟨parts, value', rfl, hvalue', (legible_iff hreads hrefers hvalue').mpr hlegible⟩
      · exact absurd hnone hother
  · have hnone : ∀ parts, marks = [.expression parts] → referenced parts = none := by
      intro parts hmarks
      cases hvalue : referenced parts with
      | none => rfl
      | some value => exact absurd ⟨parts, value, hmarks, hvalue⟩ hsingle
    rw [or_iff_right fun hfound => hsingle (by obtain ⟨parts, value, hmarks, hvalue, -⟩ := hfound; exact
        ⟨parts, value, hmarks, hvalue⟩), or_iff_right fun hfound => hsingle (by
        obtain ⟨parts, value, hmarks, hvalue, -⟩ := hfound; exact ⟨parts, value, hmarks, hvalue⟩),
      and_iff_right hnone, and_iff_right hnone]
    obtain ⟨hle, hexact⟩ := expansion_dropLone ctx marks
    rw [getD_eq_string hreads hle]
    constructor
    · rintro ⟨hread, heq⟩
      refine ⟨hexact (congrArg String.length heq), ?_⟩
      rwa [← heq]
    · rintro ⟨hlone, hread⟩
      rw [noLoneQuote_iff.mp hlone]
      exact ⟨hread, rfl⟩

theorem safeString_iff (hreads : ReadsJson wire.parseJson) (hrefers : Refers wire.parseJson json referenced ctx)
    (text : String) : FilledString referenced ctx text (renderValue wire ctx (tryFrom (.string text))) ↔
      SafeString wire.parseJson json referenced ctx text := by
  rw [SafeString, tryFrom]
  by_cases hconst : (Mustache.parse text).isConst = true
  · have hnone := isConst_parse.mp hconst
    rw [if_pos hconst, renderValue, or_iff_right, and_iff_right hnone]
    rintro ⟨marks, hreads, ⟨parts, hparts⟩, -⟩
    exact hnone marks parts hreads hparts
  · obtain ⟨marks, parts, hmarks, hparts⟩ : ∃ marks parts, Reads text.toList marks ∧ .expression parts ∈ marks := by
      by_contra hnone
      exact hconst (isConst_parse.mpr fun marks parts hmarks hparts => hnone ⟨marks, parts, hmarks, hparts⟩)
    rw [if_neg hconst, renderValue, safeMarks_iff hreads hrefers (reads_iff.mp hmarks),
      or_iff_left fun hnone => hnone.1 marks parts hmarks hparts]
    constructor
    · exact fun hsafe => ⟨marks, hmarks, ⟨parts, hparts⟩, hsafe⟩
    · rintro ⟨marks', hmarks', -, hsafe⟩
      rwa [← (reads_iff.mp hmarks).unique (reads_iff.mp hmarks')]

mutual

theorem filled_iff_safe (hreads : ReadsJson wire.parseJson) (hrefers : Refers wire.parseJson json referenced ctx) :
    ∀ value, Filled referenced ctx value (renderValue wire ctx (tryFrom value)) ↔
      Safe wire.parseJson json referenced ctx value
  | .string text => by
    rw [Filled, Safe]
    exact safeString_iff hreads hrefers text
  | .list items => by
    rw [Filled, Safe, tryFrom, renderValue, ← filledItems_iff_safe hreads hrefers items]
    constructor
    · rintro ⟨outs, heq, hitems⟩
      rwa [ConstValue.list.inj heq]
    · exact fun h => ⟨_, rfl, h⟩
  | .object fields => by
    rw [Filled, Safe, tryFrom, renderValue, ← filledFields_iff_safe hreads hrefers fields]
    constructor
    · rintro ⟨outs, heq, hfields⟩
      rwa [ConstValue.object.inj heq]
    · exact fun h => ⟨_, rfl, h⟩
  | .null => iff_of_true rfl trivial
  | .number _ => iff_of_true rfl trivial
  | .boolean _ => iff_of_true rfl trivial
  | .enum _ => iff_of_true rfl trivial

theorem filledItems_iff_safe (hreads : ReadsJson wire.parseJson)
    (hrefers : Refers wire.parseJson json referenced ctx) :
    ∀ items, FilledItems referenced ctx items (renderItems wire ctx (tryFromItems items)) ↔
      SafeItems wire.parseJson json referenced ctx items
  | [] => iff_of_true rfl trivial
  | item :: items => by
    rw [FilledItems, SafeItems, tryFromItems, renderItems, ← filled_iff_safe hreads hrefers item,
      ← filledItems_iff_safe hreads hrefers items]
    constructor
    · rintro ⟨first, rest, heq, hfirst, hrest⟩
      obtain ⟨rfl, rfl⟩ := List.cons.inj heq
      exact ⟨hfirst, hrest⟩
    · exact fun h => ⟨_, _, rfl, h⟩

theorem filledFields_iff_safe (hreads : ReadsJson wire.parseJson)
    (hrefers : Refers wire.parseJson json referenced ctx) :
    ∀ fields, FilledFields referenced ctx fields (renderFields wire ctx (tryFromFields fields)) ↔
      SafeFields wire.parseJson json referenced ctx fields
  | [] => iff_of_true rfl trivial
  | (key, value) :: fields => by
    rw [FilledFields, SafeFields, tryFromFields, renderFields, ← filled_iff_safe hreads hrefers value,
      ← filledFields_iff_safe hreads hrefers fields]
    constructor
    · rintro ⟨first, rest, heq, hfirst, hrest⟩
      obtain ⟨hentry, rfl⟩ := List.cons.inj heq
      obtain ⟨-, rfl⟩ := Prod.mk.inj hentry
      exact ⟨hfirst, hrest⟩
    · exact fun h => ⟨_, _, rfl, h⟩

end

/-- Rendering keeps what a template refers to exactly where all its strings are safe. -/
theorem renderValue_keeps_iff (hreads : ReadsJson wire.parseJson)
    (hrefers : Refers wire.parseJson json referenced ctx) (template : ConstValue) :
    Filled referenced ctx template (renderValue wire ctx (tryFrom template)) ↔
      Safe wire.parseJson json referenced ctx template :=
  filled_iff_safe hreads hrefers template

def named : ValueString → ConstValue
  | .string text => .string text
  | .value (.enum name) _ => .string name
  | .value value _ => value

def lookup (value : ConstValue) (parts : List String) : Option ConstValue :=
  if parts = ["a"] then some value else none

def numberText : ConstValue → String
  | .number (.int value) => toString value
  | _ => ""

def lookupContext (value : ConstValue) : PathContext where
  pathString parts := (lookup value parts).map (plainText numberText)
  pathGraphql _ := none

theorem lookup_refers {value : ConstValue}
    (hvalue : (∀ text, value ≠ .string text) → readDigits (numberText value) = some value) :
    Refers digitWire.parseJson numberText (lookup value) (lookupContext value) where
  absent parts h := by simp only [lookupContext, h, Option.map_none]
  shown parts value' h := .inl (by simp only [lookupContext, h, Option.map_some])
  reads parts value' h hother := by
    rw [lookup] at h
    split at h
    · obtain rfl := Option.some.inj h
      exact hvalue hother
    · cases h

theorem path_a : Path ['a'] ["a"] :=
  .mk (@Spaced.mk [] [] [] 'a' (by simp [Blank]) rfl (by simp) (by simp [Blank])) .nil

theorem number_kept : Filled (lookup (.number (.int 5))) (lookupContext (.number (.int 5)))
    (.string "\x7b\x7ba\x7d\x7d")
    (renderValue digitWire (lookupContext (.number (.int 5))) (tryFrom (.string "\x7b\x7ba\x7d\x7d"))) := by
  have hread : readDigits (numberText (.number (.int 5))) = some (.number (.int 5)) := by rfl
  have hreads : Reads "\x7b\x7ba\x7d\x7d".toList [.expression ["a"]] := .placeholder (.plain path_a) .nil
  refine (renderValue_keeps_iff readDigits_reads (lookup_refers fun _ => hread) _).mpr ?_
  exact .inl ⟨_, hreads, ⟨["a"], List.mem_singleton_self _⟩, .inl ⟨["a"], _, rfl, rfl, .inl ⟨rfl, nofun⟩⟩⟩

theorem digits_retyped : ¬Filled (lookup (.string "123")) (lookupContext (.string "123"))
    (.string "\x7b\x7ba\x7d\x7d")
    (renderValue digitWire (lookupContext (.string "123")) (tryFrom (.string "\x7b\x7ba\x7d\x7d"))) := by
  have hparse : Mustache.parse "\x7b\x7ba\x7d\x7d" = ⟨[.expression ["a"]]⟩ := by decide +kernel
  have hvalue : renderValue digitWire (lookupContext (.string "123")) (tryFrom (.string "\x7b\x7ba\x7d\x7d")) =
      .number (.int 123) := by
    rw [tryFrom, hparse]
    rfl
  have hplaceholder : Placeholder "\x7b\x7ba\x7d\x7d".toList ["a"] := .plain path_a
  rw [hvalue]
  rintro (⟨parts, value, hparts, hreferenced, heq⟩ | ⟨hnone, -⟩)
  · obtain ⟨rfl, -⟩ := @Placeholder.unique _ _ [] [] _ _ hplaceholder hparts rfl
    obtain rfl := Option.some.inj hreferenced
    cases heq
  · cases hnone _ hplaceholder

end Templates

end Gqlforge.RenderedValues
