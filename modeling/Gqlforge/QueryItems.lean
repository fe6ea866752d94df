import Gqlforge.BodyTemplates

namespace Gqlforge.QueryItems

open Json Templates RequestTemplates RequestTemplates.Http.RequestTemplate Resolvers.Http BodyTemplates JsonTexts
open EvalContext (Texts renderContext toText)

def queryItem (encoder : QueryEncoder) (ctx : RenderContext) (query : Query) : Option String :=
  let parsedValue := valueStringEval query.value ctx
  if query.skipEmpty && parsedValue.isNone then none
  else some (encode encoder query.key parsedValue)

def Sends (key text item : String) : Prop :=
  item = key ++ "=" ++ text ∨ text = "" ∧ item = key

def IsSingle (template : Mustache) (parts : List String) : Prop :=
  template.segments = [.expression parts]

def Absent (ctx : RenderContext) (template : Mustache) : Prop :=
  ∀ parts, .expression parts ∈ template.segments → ctx.rawValue parts = none

/-- A single expression is sent as its value, any other template as its text, and only what is absent is skipped. -/
def RenderedInFull (encoder : QueryEncoder) (ctx : RenderContext) (query : Query) : Prop :=
  match queryItem encoder ctx query with
  | none => query.skipEmpty = true ∧ Absent ctx query.value
  | some item => (∀ parts, IsSingle query.value parts → item = encode encoder query.key (ctx.rawValue parts)) ∧
      ((∀ parts, ¬IsSingle query.value parts) → Sends query.key (query.value.render ctx.toPathContext) item)

def valueOf (ctx : RenderContext) : Segment → Option ValueString
  | .literal text => some (.value (.string text) true)
  | .expression parts => ctx.rawValue parts

theorem valueStringEval_eq (ctx : RenderContext) (template : Mustache) :
    valueStringEval template ctx = template.segments.findSome? (valueOf ctx) := by
  rw [valueStringEval]
  congr 1

def remainder : ValueString → Option String
  | .value (.list _) _ => none
  | .value (.object _) _ => none
  | .value (.enum name) true => some name
  | _ => some ""

def OneSpeaks (ctx : RenderContext) (template : Mustache) : Prop :=
  ∃ front segment back value, template.segments = front ++ segment :: back ∧
    (∀ other ∈ front, valueOf ctx other = none) ∧ valueOf ctx segment = some value ∧
    remainder value = some (Mustache.render ⟨back⟩ ctx.toPathContext)

def Concise (ctx : RenderContext) (template : Mustache) : Prop :=
  (∃ parts, IsSingle template parts) ∨ (∀ segment ∈ template.segments, valueOf ctx segment = none) ∨
    OneSpeaks ctx template

section Json

structure WritesJson (json : ConstValue → String) : Prop where
  int (value : Int) : json (.number (.int value)) = toString value
  float (repr : String) : json (.number (.float repr)) = repr
  boolean (value : Bool) : json (.boolean value) = toString value
  string (text : String) : json (.string text) = "\"" ++ String.ofList (escaped text.toList) ++ "\""
  enum (name : String) : json (.enum name) = "\"" ++ String.ofList (escaped name.toList) ++ "\""
  list (items : List ConstValue) : json (.list items) = "[" ++ ",".intercalate (items.map json) ++ "]"
  object (fields : Object ConstValue) : ∃ text, json (.object fields) = "\x7b" ++ text

mutual

def jsonText : ConstValue → String
  | .null => "null"
  | .number (.int value) => toString value
  | .number (.float repr) => repr
  | .boolean value => toString value
  | .string text => "\"" ++ String.ofList (escaped text.toList) ++ "\""
  | .enum name => "\"" ++ String.ofList (escaped name.toList) ++ "\""
  | .list items => "[" ++ ",".intercalate (jsonItems items) ++ "]"
  | .object fields => "\x7b" ++ ",".intercalate (jsonFields fields) ++ "\x7d"

def jsonItems : List ConstValue → List String
  | [] => []
  | item :: items => jsonText item :: jsonItems items

def jsonFields : List (String × ConstValue) → List String
  | [] => []
  | (key, value) :: fields =>
    ("\"" ++ String.ofList (escaped key.toList) ++ "\":" ++ jsonText value) :: jsonFields fields

end

theorem jsonItems_eq (items : List ConstValue) : jsonItems items = items.map jsonText := by
  induction items with
  | nil => rfl
  | cons item items ih => rw [jsonItems, ih, List.map_cons]

theorem escaped_cons (c : Char) (text : List Char) : escaped (c :: text) = escapeChar c ++ escaped text :=
  rfl

theorem escapeChar_pos (c : Char) : 0 < (escapeChar c).length := by
  rcases escapeChar_cases c with hplain | ⟨d, rest, hescape⟩
  · rw [escapeChar_plain hplain]
    exact Nat.one_pos
  · rw [hescape]
    exact Nat.succ_pos _

theorem length_le_escaped (text : List Char) : text.length ≤ (escaped text).length := by
  induction text with
  | nil => exact Nat.le_refl _
  | cons c text ih =>
    have hc := escapeChar_pos c
    rw [escaped_cons, List.length_append, List.length_cons]
    omega

theorem idxOf_le_append (c : Char) (text rest : List Char) : text.idxOf c ≤ (text ++ rest).idxOf c := by
  rw [List.idxOf_append]
  split
  · exact Nat.le_refl _
  · exact Nat.le_trans List.idxOf_le_length (Nat.le_add_left _ _)

theorem idxOf_escaped (text : List Char) : text.idxOf '&' ≤ (escaped text).idxOf '&' := by
  induction text with
  | nil => exact Nat.le_refl _
  | cons c text ih =>
    by_cases hc : c = '&'
    · rw [hc, List.idxOf_cons_self]
      exact Nat.zero_le _
    · have hnone : '&' ∉ escapeChar c := by
        by_cases hplain : Plain c
        · rw [escapeChar_plain hplain, List.mem_singleton]
          exact fun heq => hc heq.symm
        · have hcontrol : ∀ n < 32, '&' ∉ escapeChar (Char.ofNat n) := by decide
          rcases not_plain_cases hplain with rfl | rfl | ⟨n, hn, rfl⟩
          · decide
          · decide
          · exact hcontrol n hn
      have hpos := escapeChar_pos c
      rw [escaped_cons, List.idxOf_append, if_neg hnone, List.idxOf_cons_ne _ hc]
      omega

variable {json : ConstValue → String}

theorem quote_text (text : String) :
    text.length ≤ ("\"" ++ String.ofList (escaped text.toList) ++ "\"").length ∧
      text.toList.idxOf '&' ≤ ("\"" ++ String.ofList (escaped text.toList) ++ "\"").toList.idxOf '&' := by
  constructor
  · have hlength := length_le_escaped text.toList
    rw [String.length_toList] at hlength
    simp only [String.length_append, String.length_ofList]
    omega
  · simp only [String.toList_append, String.toList_ofList]
    change _ ≤ (['"'] ++ escaped text.toList ++ ['"']).idxOf '&'
    refine Nat.le_trans ?_ (idxOf_le_append '&' _ ['"'])
    rw [List.singleton_append, List.idxOf_cons_ne _ (by decide)]
    exact Nat.le_trans (idxOf_escaped _) (Nat.le_succ _)

variable {text : String}

theorem convertValue_text (hjson : WritesJson json) {value : ConstValue} (h : convertValue value = some text) :
    text.length ≤ (json value).length ∧ text.toList.idxOf '&' ≤ (json value).toList.idxOf '&' := by
  cases value with
  | null => cases h
  | number number =>
    cases number with
    | int value =>
      obtain rfl := Option.some.inj h
      rw [hjson.int]
      exact ⟨Nat.le_refl _, Nat.le_refl _⟩
    | float repr =>
      obtain rfl := Option.some.inj h
      rw [hjson.float]
      exact ⟨Nat.le_refl _, Nat.le_refl _⟩
  | string value =>
    obtain rfl := Option.some.inj h
    rw [hjson.string]
    exact quote_text _
  | boolean value =>
    obtain rfl := Option.some.inj h
    rw [hjson.boolean]
    exact ⟨Nat.le_refl _, Nat.le_refl _⟩
  | enum name =>
    obtain rfl := Option.some.inj h
    rw [hjson.enum]
    exact quote_text _
  | list items => cases h
  | object fields => cases h

theorem joined_length {texts : List String} (h : texts ≠ []) :
    (",".intercalate texts).length + 1 = (texts.map fun text => text.length + 1).sum := by
  induction texts with
  | nil => exact absurd rfl h
  | cons text rest ih =>
    cases rest with
    | nil => simp
    | cons next rest =>
      have hrest := ih (List.cons_ne_nil next rest)
      have hcomma : ",".length = 1 := rfl
      rw [String.intercalate_cons_of_ne_nil (List.cons_ne_nil next rest), String.length_append, String.length_append,
        List.map_cons, List.sum_cons]
      omega

theorem converted_length (hjson : WritesJson json) (items : List ConstValue) :
    ((items.filterMap convertValue).map fun text => text.length + 1).sum ≤
      ((items.map json).map fun text => text.length + 1).sum := by
  induction items with
  | nil => exact Nat.le_refl _
  | cons value items ih =>
    cases hvalue : convertValue value with
    | none =>
      rw [List.filterMap_cons_none hvalue, List.map_cons, List.map_cons, List.sum_cons]
      omega
    | some text =>
      have htext := (convertValue_text hjson hvalue).1
      rw [List.filterMap_cons_some hvalue, List.map_cons, List.map_cons, List.map_cons, List.sum_cons, List.sum_cons]
      omega

def firstText : ConstValue → Option String
  | .list [] => none
  | .list (first :: _) => firstText first
  | value => convertValue value

theorem encodeRepeated_first (key : String) (value : ConstValue) : ∃ tail,
    encodeRepeated key value = key ++ ((firstText value).map ("=" ++ ·)).getD "" ++ tail ∧
      (tail = "" ∨ ∃ rest, tail = "&" ++ rest) := by
  fun_induction firstText value with
  | case1 => exact ⟨"", by simp [encodeRepeated], .inl rfl⟩
  | case2 first rest ih =>
    obtain ⟨tail, htail, hstart⟩ := ih
    rw [encodeRepeated]
    cases hrest : encodeAll key rest with
    | nil => exact ⟨tail, by rw [String.intercalate_singleton, htail], hstart⟩
    | cons next more =>
      refine ⟨tail ++ ("&" ++ "&".intercalate (next :: more)), ?_, .inr ?_⟩
      · rw [String.intercalate_cons_of_ne_nil (List.cons_ne_nil next more), htail]
        simp only [String.append_assoc]
      · rcases hstart with rfl | ⟨rest, rfl⟩
        · exact ⟨_, String.empty_append⟩
        · exact ⟨_, String.append_assoc⟩
  | case3 value hnil hcons =>
    have hplain : encodeRepeated key value = encodePlain key value := by
      cases value with
      | list items =>
        cases items with
        | nil => exact absurd rfl hnil
        | cons first rest => exact absurd rfl (hcons first rest)
      | _ => rfl
    refine ⟨"", ?_, .inl rfl⟩
    rw [hplain, encodePlain]
    cases convertValue value <;> simp [String.append_assoc]

theorem json_list_cons (hjson : WritesJson json) (first : ConstValue) (rest : List ConstValue) :
    ∃ more, json (.list (first :: rest)) = "[" ++ (json first ++ more) := by
  rw [hjson.list, List.map_cons]
  cases hrest : rest.map json with
  | nil => exact ⟨"]", by rw [String.intercalate_singleton, String.append_assoc]⟩
  | cons next more =>
    refine ⟨"," ++ ",".intercalate (next :: more) ++ "]", ?_⟩
    rw [String.intercalate_cons_of_ne_nil (List.cons_ne_nil next more)]
    simp only [String.append_assoc]

theorem firstText_idxOf (hjson : WritesJson json) {value : ConstValue}
    (h : firstText value = some text) : text.toList.idxOf '&' ≤ (json value).toList.idxOf '&' := by
  fun_induction firstText value with
  | case1 => cases h
  | case2 first rest ih =>
    obtain ⟨more, hmore⟩ := json_list_cons hjson first rest
    rw [hmore, String.toList_append, String.toList_append]
    change _ ≤ ('[' :: ((json first).toList ++ more.toList)).idxOf '&'
    rw [List.idxOf_cons_ne _ (by decide)]
    exact Nat.le_trans (ih h) (Nat.le_trans (idxOf_le_append '&' _ _) (Nat.le_succ _))
  | case3 value hnil hcons => exact (convertValue_text hjson h).2

theorem key_ne {key : String} : key ≠ key ++ "=" ++ text := by
  intro h
  have hlength := congrArg String.length h
  have hequals : "=".length = 1 := rfl
  simp only [String.length_append] at hlength
  omega

theorem encodeConstValue_list (hjson : WritesJson json) (encoder : QueryEncoder) (key : String)
    (items : List ConstValue) (more : String) :
    encodeConstValue encoder key (.list items) ≠ key ++ "=" ++ (json (.list items) ++ more) := by
  cases items with
  | nil =>
    cases encoder with
    | commaSeparated => exact key_ne
    | repeatedKey => exact fun h => key_ne (by rw [← h, encodeConstValue, encodeRepeated])
  | cons first rest =>
    intro h
    cases encoder with
    | commaSeparated =>
      rw [encodeConstValue] at h
      split at h
      · exact key_ne h
      · next hne =>
        have hlength := congrArg String.length h
        have hlonger := converted_length hjson (first :: rest)
        have htexts := joined_length (List.cons_ne_nil (json first) (rest.map json))
        rw [← joined_length hne, List.map_cons, ← htexts] at hlonger
        have hopen : "[".length = 1 := rfl
        rw [hjson.list, List.map_cons] at hlength
        simp only [String.length_append] at hlength
        omega
    | repeatedKey =>
      obtain ⟨tail, htail, hstart⟩ := encodeRepeated_first key (.list (first :: rest))
      rw [encodeConstValue, htail] at h
      cases htext : firstText (.list (first :: rest)) with
      | none =>
        rw [htext, Option.map_none, Option.getD_none, String.append_empty, String.append_assoc,
          String.append_right_inj] at h
        rcases hstart with rfl | ⟨tail, rfl⟩
        · have hlength := congrArg String.length h
          have hequals : "=".length = 1 := rfl
          simp only [String.length_append, String.length_empty] at hlength
          omega
        · have hchars := congrArg String.toList h
          rw [String.toList_append, String.toList_append] at hchars
          cases (List.cons.inj hchars).1
      | some text =>
        rw [htext, Option.map_some, Option.getD_some] at h
        simp only [String.append_assoc, String.append_right_inj] at h
        -- The first separator of what is sent comes too early for the text of the list.
        have hearly : (text ++ tail).toList.idxOf '&' ≤ text.toList.idxOf '&' := by
          rw [String.toList_append, List.idxOf_append]
          split
          · exact Nat.le_refl _
          · next hnone =>
            rw [List.idxOf_eq_length hnone]
            rcases hstart with rfl | ⟨tail, rfl⟩
            · exact Nat.le_of_eq (Nat.zero_add _)
            · rw [String.toList_append]
              change ('&' :: tail.toList).idxOf '&' + _ ≤ _
              rw [List.idxOf_cons_self, Nat.zero_add]
        have hlate : text.toList.idxOf '&' < (json (.list (first :: rest)) ++ more).toList.idxOf '&' := by
          obtain ⟨front, hfront⟩ := json_list_cons hjson first rest
          rw [hfront, String.append_assoc, String.append_assoc, String.toList_append, String.toList_append]
          change _ < ('[' :: ((json first).toList ++ (front ++ more).toList)).idxOf '&'
          rw [List.idxOf_cons_ne _ (by decide)]
          rw [firstText] at htext
          exact Nat.lt_succ_of_le (Nat.le_trans (firstText_idxOf hjson htext) (idxOf_le_append '&' _ _))
        rw [h] at hearly
        omega

end Json

section Entries

variable {texts : Texts} (ctx : EvalContext) (claims : Option ConstValue)

def textOf (texts : Texts) (value : ValueString) : String :=
  (toText texts value).getD ""

theorem render_append (front back : List Segment) (ctx : PathContext) :
    Mustache.render ⟨front ++ back⟩ ctx = Mustache.render ⟨front⟩ ctx ++ Mustache.render ⟨back⟩ ctx := by
  rw [Mustache.render, List.map_append, String.join_append]
  rfl

variable {ctx claims}

theorem render_absent {segments : List Segment}
    (h : ∀ segment ∈ segments, valueOf (renderContext texts ctx claims) segment = none) :
    Mustache.render ⟨segments⟩ (renderContext texts ctx claims).toPathContext = "" := by
  induction segments with
  | nil => rfl
  | cons segment segments ih =>
    have hfirst := h segment List.mem_cons_self
    have hrest := ih fun other hother => h other (List.mem_cons_of_mem _ hother)
    have hsplit := render_append [segment] segments (renderContext texts ctx claims).toPathContext
    rw [List.singleton_append] at hsplit
    rw [hsplit, hrest, String.append_empty]
    cases segment with
    | literal text => cases hfirst
    | expression parts =>
      have hraw : EvalContext.toRawValue texts ctx claims parts = none := hfirst
      simp [Mustache.render, renderContext, EvalContext.pathContext, hraw]

variable {value : ValueString}

theorem render_value {segment : Segment} (h : valueOf (renderContext texts ctx claims) segment = some value) :
    Mustache.render ⟨[segment]⟩ (renderContext texts ctx claims).toPathContext = textOf texts value := by
  cases segment with
  | literal text =>
    obtain rfl := Option.some.inj h
    simp [Mustache.render, textOf, toText, EvalContext.convertValue]
  | expression parts =>
    have hraw : EvalContext.toRawValue texts ctx claims parts = some value := h
    simp [Mustache.render, renderContext, EvalContext.pathContext, hraw, textOf]

theorem sends_plain {key text rest : String} : Sends key (text ++ rest) (key ++ "=" ++ text) ↔ rest = "" := by
  constructor
  · rintro (h | ⟨-, h⟩)
    · have hrest := (String.append_right_inj _).mp h
      have hlength := congrArg String.length hrest
      rw [String.length_append] at hlength
      exact String.length_eq_zero_iff.mp (by omega)
    · exact absurd h.symm key_ne
  · rintro rfl
    exact .inl (by rw [String.append_empty])

theorem sends_key {key text : String} : Sends key text key ↔ text = "" :=
  ⟨fun h => h.elim (fun heq => absurd heq key_ne) And.left, fun h => .inr ⟨h, rfl⟩⟩

theorem encode_plain {encoder : QueryEncoder} {value : ConstValue} (h : ∀ items, value ≠ .list items) (key : String)
    (owned : Bool) : encode encoder key (some (.value value owned)) = encodePlain key value := by
  cases value with
  | list items => exact absurd rfl (h items)
  | _ => cases encoder <;> rfl

theorem sends_iff (hjson : WritesJson texts.json) (encoder : QueryEncoder) (key : String) (value : ValueString)
    (rest : String) :
    Sends key (textOf texts value ++ rest) (encode encoder key (some value)) ↔ remainder value = some rest := by
  have hnothing : some "" = some rest ↔ rest = "" := by rw [Option.some.injEq, eq_comm]
  cases value with
  | string text => exact sends_plain.trans hnothing.symm
  | value value owned =>
    cases value with
    | null =>
      rw [encode_plain (by simp)]
      have hempty : textOf texts (.value .null owned) ++ rest = rest := String.empty_append
      rw [hempty]
      exact sends_key.trans hnothing.symm
    | number number =>
      rw [encode_plain (by simp)]
      cases number with
      | int value => exact sends_plain.trans hnothing.symm
      | float repr => exact sends_plain.trans hnothing.symm
    | string text =>
      rw [encode_plain (by simp)]
      exact sends_plain.trans hnothing.symm
    | boolean value =>
      rw [encode_plain (by simp)]
      exact sends_plain.trans hnothing.symm
    | enum name =>
      rw [encode_plain (by simp)]
      cases owned with
      | false => exact sends_plain.trans hnothing.symm
      | true =>
        have hempty : textOf texts (.value (.enum name) true) ++ rest = rest := String.empty_append
        rw [hempty]
        constructor
        · rintro (h | ⟨-, h⟩)
          · exact congrArg some ((String.append_right_inj _).mp h)
          · exact absurd h.symm key_ne
        · intro h
          exact .inl (Option.some.inj h ▸ rfl)
    | list items =>
      constructor
      · rintro (h | ⟨h, -⟩)
        · exact absurd h (encodeConstValue_list hjson encoder key items rest)
        · have htext : textOf texts (.value (.list items) owned) = texts.json (.list items) := rfl
          rw [htext, hjson.list] at h
          have hlength := congrArg String.length h
          have hopen : "[".length = 1 := rfl
          simp only [String.length_append, String.length_empty] at hlength
          omega
      · exact nofun
    | object fields =>
      rw [encode_plain (by simp)]
      constructor
      · intro h
        have hempty := sends_key.mp h
        obtain ⟨text, htext⟩ := hjson.object fields
        have hobject : textOf texts (.value (.object fields) owned) = texts.json (.object fields) := rfl
        rw [hobject, htext] at hempty
        have hlength := congrArg String.length hempty
        have hopen : "\x7b".length = 1 := rfl
        simp only [String.length_append, String.length_empty] at hlength
        omega
      · exact nofun

variable {template : Mustache}

theorem render_speaks {front back : List Segment} {segment : Segment}
    (hsegments : template.segments = front ++ segment :: back)
    (hfront : ∀ other ∈ front, valueOf (renderContext texts ctx claims) other = none)
    (hvalue : valueOf (renderContext texts ctx claims) segment = some value) :
    valueStringEval template (renderContext texts ctx claims) = some value ∧
      template.render (renderContext texts ctx claims).toPathContext =
        textOf texts value ++ Mustache.render ⟨back⟩ (renderContext texts ctx claims).toPathContext := by
  constructor
  · rw [valueStringEval_eq, List.findSome?_eq_some_iff]
    exact ⟨front, segment, back, hsegments, hvalue, hfront⟩
  · have htemplate : template = ⟨front ++ ([segment] ++ back)⟩ := by
      rw [List.singleton_append, ← hsegments]
    rw [htemplate, render_append, render_append, render_absent hfront, render_value hvalue, String.empty_append]

theorem render_rest (h : valueStringEval template (renderContext texts ctx claims) = some value) :
    ∃ rest, template.render (renderContext texts ctx claims).toPathContext = textOf texts value ++ rest := by
  rw [valueStringEval_eq, List.findSome?_eq_some_iff] at h
  obtain ⟨front, segment, back, hsegments, hvalue, hfront⟩ := h
  exact ⟨_, (render_speaks hsegments hfront hvalue).2⟩

theorem oneSpeaks_iff (h : valueStringEval template (renderContext texts ctx claims) = some value) :
    OneSpeaks (renderContext texts ctx claims) template ↔ ∃ rest,
      template.render (renderContext texts ctx claims).toPathContext = textOf texts value ++ rest ∧
        remainder value = some rest := by
  constructor
  · rintro ⟨front, segment, back, value', hsegments, hfront, hvalue, hremainder⟩
    obtain ⟨hfound, hrender⟩ := render_speaks hsegments hfront hvalue
    obtain rfl := Option.some.inj (h.symm.trans hfound)
    exact ⟨_, hrender, hremainder⟩
  · rintro ⟨rest, hrest, hremainder⟩
    have hfound := h
    rw [valueStringEval_eq, List.findSome?_eq_some_iff] at hfound
    obtain ⟨front, segment, back, hsegments, hvalue, hfront⟩ := hfound
    obtain ⟨-, hrender⟩ := render_speaks hsegments hfront hvalue
    refine ⟨front, segment, back, value, hsegments, hfront, hvalue, ?_⟩
    rw [hremainder, (String.append_right_inj _).mp (hrest.symm.trans hrender)]

theorem valueStringEval_none {ctx : RenderContext} :
    valueStringEval template ctx = none ↔ ∀ segment ∈ template.segments, valueOf ctx segment = none := by
  rw [valueStringEval_eq, List.findSome?_eq_none_iff]

theorem valueStringEval_single {ctx : RenderContext} {parts : List String}
    (h : IsSingle template parts) : valueStringEval template ctx = ctx.rawValue parts := by
  rw [valueStringEval_eq, h, List.findSome?_cons]
  cases hraw : ctx.rawValue parts <;> simp [valueOf, hraw]

def compactWriter : Texts :=
  ⟨fun _ => "", jsonText⟩

theorem compactWriter_writes : WritesJson compactWriter.json where
  int _ := rfl
  float _ := rfl
  boolean _ := rfl
  string _ := rfl
  enum _ := rfl
  list items := by
    change jsonText (.list items) = "[" ++ ",".intercalate (items.map jsonText) ++ "]"
    rw [jsonText, jsonItems_eq]
  object fields := by
    change ∃ text, jsonText (.object fields) = "\x7b" ++ text
    exact ⟨_, by rw [jsonText, String.append_assoc]⟩

def tagged : EvalContext :=
  EvalContext.new ⟨[], [], fun _ => none, fun _ => .succeed none⟩ ⟨none, some [("tag", .string "news")], none, true⟩

def tagQuery (value : String) : Query :=
  ⟨"q", Mustache.parse value, false⟩

end Entries

end Gqlforge.QueryItems
