import Gqlforge.ConformingValues
import Gqlforge.TemplateValidation

namespace Gqlforge.TemplatePaths

open Json Templates Mustache Schema Config FieldCompiler TemplateValidation ConformingValues

section Names

variable {rest : List Char}

theorem isName_of_isAlpha {c : Char} (hc : c.isAlpha = true) : IsName (String.ofList (c :: rest)) := by
  have hdigit : c.isDigit = false := by
    unfold Char.isAlpha Char.isUpper Char.isLower at hc
    unfold Char.isDigit
    simp only [Bool.or_eq_true, Bool.and_eq_true, decide_eq_true_eq] at hc
    simp only [Bool.and_eq_false_iff, decide_eq_false_iff_not]
    rcases hc with hc | hc
    · right
      intro h
      have := UInt32.le_trans hc.1 h
      revert this
      decide
    · right
      intro h
      have := UInt32.le_trans hc.1 h
      revert this
      decide
  have hminus : c ≠ '-' := by
    rintro rfl
    cases hc
  have hplus : c ≠ '+' := by
    rintro rfl
    cases hc
  have hdigits : Scalar.digitsValue (c :: rest) = none := by
    simp [Scalar.digitsValue, hdigit]
  unfold IsName Scalar.parseInt
  rw [String.toList_ofList]
  split
  · next h => exact absurd (List.cons.inj h).1 hminus
  · next h => exact absurd (List.cons.inj h).1 hplus
  · rw [hdigits]
    rfl

variable {input : List Char}

theorem parseName_isName {name : String} (h : parseName input = some (name, rest)) : IsName name := by
  unfold parseName at h
  split at h
  · cases h
  next c tail _ =>
    split at h
    · next halpha =>
      obtain ⟨rfl, -⟩ := Prod.mk.inj (Option.some.inj h)
      have hname : isNameChar c = true := by
        rw [isNameChar, Char.isAlphanum, halpha]
        rfl
      rw [List.takeWhile_cons_of_pos hname]
      exact isName_of_isAlpha halpha
    · cases h

theorem parseNames_isName {fuel : ℕ} : ∀ name ∈ (parseNames fuel input).1, IsName name := by
  fun_induction parseNames fuel input with
  | case1 fuel input name rest hname names rest' hrest ih =>
    intro other hother
    rw [hrest] at ih
    rcases List.mem_cons.mp hother with rfl | hother
    · exact parseName_isName hname
    · exact ih other hother
  | case2 => simp
  | case3 => simp

variable {parts : List String}

theorem parseExpression_isName
    (h : parseExpression input = some (.expression parts, rest)) : ∀ name ∈ parts, IsName name := by
  unfold parseExpression at h
  split at h
  · split at h
    · next name rest' hname =>
      split at h
      · next names _ hnames =>
        obtain ⟨hparts, -⟩ := Prod.mk.inj (Option.some.inj h)
        obtain rfl := Segment.expression.inj hparts
        intro other hother
        rcases List.mem_cons.mp hother with rfl | hother
        · exact parseName_isName hname
        · have hfirst : names = (parseNames rest'.length rest').1 := by rw [hnames]
          exact parseNames_isName other (hfirst ▸ hother)
      · cases h
    · cases h
  · cases h

theorem parseMany_isName {fuel : ℕ} {segments : List Segment} (h : parseMany fuel input = some (segments, rest))
    (hparts : .expression parts ∈ segments) : ∀ name ∈ parts, IsName name := by
  induction fuel generalizing input segments rest with
  | zero =>
    obtain ⟨rfl, -⟩ := Prod.mk.inj (Option.some.inj h)
    cases hparts
  | succ fuel ih =>
    rw [parseMany] at h
    split at h
    · next segment rest' hexpression =>
      obtain ⟨⟨segments', _⟩, hmany, heq⟩ := Option.map_eq_some_iff.mp h
      obtain ⟨rfl, -⟩ := Prod.mk.inj heq
      rcases List.mem_cons.mp hparts with hfirst | hparts
      · exact parseExpression_isName (hfirst ▸ hexpression)
      · exact ih hmany hparts
    · split at h
      · cases h
      · obtain ⟨⟨segments', _⟩, hmany, heq⟩ := Option.map_eq_some_iff.mp h
        obtain ⟨rfl, -⟩ := Prod.mk.inj heq
        rcases List.mem_cons.mp hparts with hfirst | hparts
        · cases hfirst
        · exact ih hmany hparts
      · obtain ⟨rfl, -⟩ := Prod.mk.inj (Option.some.inj h)
        cases hparts

theorem parse_isName {text : String} (h : parts ∈ expressionSegments (parse text)) : ∀ name ∈ parts, IsName name := by
  obtain ⟨segment, hsegment, heq⟩ := List.mem_filterMap.mp h
  obtain ⟨hsegment, -⟩ := List.mem_filter.mp hsegment
  cases segment with
  | literal => cases heq
  | expression parts' =>
    obtain rfl := Option.some.inj heq
    unfold parseSegments at hsegment
    split at hsegment
    · next segments hmany => exact parseMany_isName hmany hsegment
    · next segments remaining _ hmany =>
      rcases List.mem_append.mp hsegment with hsegment | hsegment
      · exact parseMany_isName hmany hsegment
      · cases List.mem_singleton.mp hsegment
    · cases List.mem_singleton.mp hsegment

end Names

section Walks

variable {P : Payloads} {B : Backends} {settings : Settings P B} {config : Config (withResolvers P B)}
variable {formats : Scalar.Formats} {closed : Bool}

def unlisted (config : Config (withResolvers P B)) (declared : String → Option WrappingType) : List String → Bool
  | [] => true
  | key :: path => (declared key).all fun type => !type.isList && unlisted config (inner config type) path

variable {typeDef : TypeDef (withResolvers P B)}

theorem inner_named {name : String} {nonNull : Bool}
    (h : config.findType name = some typeDef) : inner config (.named name nonNull) = declaredType typeDef := by
  funext key
  rw [ConformingValues.inner, h]
  rfl

variable {key : String} {type : WrappingType}

theorem declaredType_eq_some :
    declaredType typeDef key = some type ↔ ∃ field, typeDef.fields.get? key = some field ∧ field.typeOf = type :=
  Option.map_eq_some_iff

variable {declared : String → Option WrappingType} {next : String} {path : List String}

theorem leads_step
 (hdeclared : declared key = some type) (hnullable : type.isNullable = false) :
    leads config declared (key :: next :: path) = leads config (inner config type) (next :: path) := by
  rw [leads, hdeclared]
  simp [hnullable]

theorem typeAt_step
 (hdeclared : declared key = some type) :
    typeAt config declared (key :: next :: path) = typeAt config (inner config type) (next :: path) := by
  rw [typeAt, hdeclared]
  · rfl
  · simp

theorem unlisted_step
 (hdeclared : declared key = some type) :
    unlisted config declared (key :: path) = (!type.isList && unlisted config (inner config type) path) := by
  rw [unlisted, hdeclared]
  rfl

variable {typeOf : TypeDef (withResolvers P B)} {parts walked : List String}

theorem validateType_step {isQuery : Bool} {item : String} {field : Config.Field (withResolvers P B)}
    (hfield : typeOf.fields.get? item = some field) (hnullable : (!isQuery && field.typeOf.isNullable) = false) :
    validateType config isQuery parts typeOf walked (item :: next :: path) =
      match config.findType field.typeOf.name with
      | none => .error (.noTypeFound (".".intercalate parts))
      | some typeOf => validateType config isQuery parts typeOf (walked ++ [item]) (next :: path) := by
  rw [validateType, hfield]
  simp only [hnullable]
  rfl

theorem leads_unknown (h : inner config type key = none) : leads config (inner config type) (key :: path) = false := by
  rw [leads, h]

theorem validateType_iff (hne : path ≠ []) :
    (validateType config false parts typeOf walked path = .ok () ∧
        unlisted config (declaredType typeOf) path = true) ↔
      leads config (declaredType typeOf) path = true ∧ ∃ scalar nonNull,
        typeAt config (declaredType typeOf) path = some (.named scalar nonNull) ∧
          Scalar.isPredefined scalar = true := by
  induction path generalizing typeOf walked with
  | nil => exact absurd rfl hne
  | cons item path ih =>
    cases hfield : typeOf.fields.get? item with
    | none =>
      have hdeclared : declaredType typeOf item = none := by rw [declaredType, hfield]; rfl
      simp [validateType, leads, hfield, hdeclared]
    | some field =>
      have hdeclared : declaredType typeOf item = some field.typeOf := by rw [declaredType, hfield]; rfl
      cases hnullable : field.typeOf.isNullable with
      | true => simp [validateType, leads, hfield, hdeclared, hnullable]
      | false =>
        cases path with
        | nil =>
          cases htype : field.typeOf with
          | named name nonNull =>
            rw [htype] at hnullable hdeclared
            simp [validateType, leads, typeAt, unlisted, hfield, hdeclared, hnullable, htype, WrappingType.isList,
              WrappingType.name]
          | list => simp [typeAt, unlisted, hdeclared, htype, WrappingType.isList]
        | cons next path =>
          rw [validateType_step hfield (by simpa using hnullable), unlisted_step hdeclared,
            leads_step hdeclared hnullable, typeAt_step hdeclared]
          cases htype : field.typeOf with
          | list ofType nonNull =>
            have hunknown : inner config (.list ofType nonNull) next = none := rfl
            simp [leads_unknown hunknown, WrappingType.isList]
          | named name nonNull =>
            rw [WrappingType.name]
            cases hfound : config.findType name with
            | none =>
              have hunknown : inner config (.named name nonNull) next = none := by rw [ConformingValues.inner, hfound]; rfl
              simp [leads_unknown hunknown]
            | some typeDef =>
              simp only [inner_named hfound, WrappingType.isList, Bool.not_false, Bool.true_and]
              exact ih (List.cons_ne_nil next path)

variable {fields : Object ConstValue} {value : ConstValue}

theorem found_below

    (h : Members config formats closed declared fields) (hdeclared : declared key = some type)
    (hnames : ∀ name ∈ key :: next :: path, IsName name)
    (hvalue : EvalContext.getPath (.object fields) (key :: next :: path) = some value)
    (hfound : config.findType type.name = some typeDef) {field : Config.Field (withResolvers P B)}
    (hfield : typeDef.fields.get? next = some field) :
    ∃ inside, inner config type = declaredType typeDef ∧
      Members config formats closed (declaredType typeDef) inside ∧
      EvalContext.getPath (.object inside) (next :: path) = some value := by
  rw [getPath_cons (hnames key List.mem_cons_self)] at hvalue
  obtain ⟨first, hget, hvalue⟩ := Option.bind_eq_some_iff.mp hvalue
  have hfirst := h.present hdeclared (show fields.getKey key = some first from hget)
  have hnext := hnames next (List.mem_cons_of_mem _ List.mem_cons_self)
  have hne : first ≠ .null := by
    rintro rfl
    cases hvalue
  cases htype : type with
  | list ofType nonNull =>
    rw [htype] at hfirst
    rw [getPath_cons hnext] at hvalue
    cases hfirst with
    | null => exact absurd rfl hne
    | list => cases hvalue
  | named name nonNull =>
    rw [htype] at hfirst hfound
    have hinner : inner config (.named name nonNull) = declaredType typeDef := inner_named hfound
    have hdeclaredNext : inner config (.named name nonNull) next = some field.typeOf := by
      rw [hinner]
      exact declaredType_eq_some.mpr ⟨field, hfield, rfl⟩
    obtain ⟨inside, rfl, hinside, -⟩ := hfirst.members hne hdeclaredNext
    rw [hinner] at hinside
    exact ⟨inside, hinner, hinside, hvalue⟩

theorem validateType_query
 (hne : path ≠ [])
    (h : Members config formats closed (declaredType typeOf) fields)
    (hvalid : validateType config true parts typeOf walked path = .ok ()) (hnames : ∀ name ∈ path, IsName name)
    (hvalue : EvalContext.getPath (.object fields) path = some value) :
    ∃ type, typeAt config (declaredType typeOf) path = some type ∧ Scalar.isPredefined type.name = true := by
  induction path generalizing typeOf walked fields with
  | nil => exact absurd rfl hne
  | cons item path ih =>
    cases hfield : typeOf.fields.get? item with
    | none =>
      rw [validateType, hfield] at hvalid
      cases hvalid
    | some field =>
      have hdeclared : declaredType typeOf item = some field.typeOf := declaredType_eq_some.mpr ⟨field, hfield, rfl⟩
      cases path with
      | nil =>
        rw [validateType, hfield] at hvalid
        refine ⟨field.typeOf, hdeclared, ?_⟩
        cases hpredefined : Scalar.isPredefined field.typeOf.name with
        | true => rfl
        | false => simp [hpredefined] at hvalid
      | cons next path =>
        rw [validateType_step hfield rfl] at hvalid
        cases hfound : config.findType field.typeOf.name with
        | none =>
          rw [hfound] at hvalid
          cases hvalid
        | some typeDef =>
          simp only [hfound] at hvalid
          cases hnext : typeDef.fields.get? next with
          | none =>
            rw [validateType, hnext] at hvalid
            cases hvalid
          | some nextField =>
            obtain ⟨inside, hinner, hinside, hbelow⟩ := found_below h hdeclared hnames hvalue hfound hnext
            rw [typeAt_step hdeclared, hinner]
            exact ih (List.cons_ne_nil next path) hinside hvalid
              (fun name hn => hnames name (List.mem_cons_of_mem _ hn)) hbelow

theorem pathValidator_query {leaf : String → Bool}

    (h : Members config formats closed declared fields) (hdeclared : declared key = some type)
    (hvalid : pathValidator settings config leaf path type.name = .ok ())
    (hnames : ∀ name ∈ key :: path, IsName name)
    (hvalue : EvalContext.getPath (.object fields) (key :: path) = some value) :
    ∃ front leafType, front <+: key :: path ∧ typeAt config declared front = some leafType ∧
      leaf leafType.name = true := by
  induction path generalizing declared key type fields with
  | nil =>
    rw [pathValidator] at hvalid
    refine ⟨[key], type, List.prefix_refl _, hdeclared, ?_⟩
    split at hvalid
    · cases hvalid
    · split at hvalid
      · next hleaf => exact hleaf
      · cases hvalid
  | cons next path ih =>
    rw [pathValidator] at hvalid
    split at hvalid
    · next typeDef hfound =>
      split at hvalid
      · next field hfield =>
        obtain ⟨inside, hinner, hinside, hbelow⟩ := found_below h hdeclared hnames hvalue hfound hfield
        obtain ⟨front, leafType, hfront, htype, hleaf⟩ :=
          ih hinside (declaredType_eq_some.mpr ⟨field, hfield, rfl⟩) hvalid
            (fun name hn => hnames name (List.mem_cons_of_mem _ hn)) hbelow
        refine ⟨key :: front, leafType, List.cons_prefix_cons.mpr ⟨rfl, hfront⟩, ?_, hleaf⟩
        cases front with
        | nil => cases htype
        | cons =>
          rw [typeAt_step hdeclared, hinner]
          exact htype
      · cases hvalid
    · split at hvalid
      · next hleaf => exact ⟨[key], type, ⟨next :: path, rfl⟩, hdeclared, hleaf⟩
      · cases hvalid

end Walks

end Gqlforge.TemplatePaths
