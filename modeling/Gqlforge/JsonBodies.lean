import Gqlforge.BodyTemplates

namespace Gqlforge.JsonBodies

open Templates Mustache JsonTexts TemplateMarks BodyTemplates

section Meaning

variable (fill : List String → List Char) (value : List String → Value)

def stringValue (text : List Char) : Value :=
  match stringMarks text with
  | [.expression parts] => value parts
  | _ => .string (written fill text).chars

def filled (body : Value) : Value :=
  meant (written fill) (stringValue fill value) body

def Holes (P : List String → Prop) : Value → Prop :=
  Tree.All (fun key => ∀ parts, .expression parts ∈ stringMarks key → P parts)
    fun text => ∀ parts, .expression parts ∈ stringMarks text → P parts

def Fits (parts : List String) : Prop :=
  value parts = .string (fill parts) ∨ (∀ text, value parts ≠ .string text) ∧ parse (fill parts) = some (value parts)

def StandsForText (text : List Char) : Prop :=
  ∀ parts, stringMarks text = [.expression parts] → ∃ chars, value parts = .string chars

def SplicedBare (text : List Char) : Prop :=
  match stringMarks text with
  | [.expression parts] => ∀ chars, value parts ≠ .string chars
  | marks => startsOpen marks = false ∧ afterMarks false marks = false ∧ (written fill text).IsPlain

def Spliced : Value → Prop
  | .string text => SplicedBare fill value text
  | body => Tree.All (fun key => (written fill key).IsPlain)
      (fun text => (written fill text).IsPlain ∧ StandsForText value text) body

def Unchanged : Value → Prop :=
  Tree.All (fun key => (written fill key).chars = key) fun text => stringValue fill value text = .string text

variable {fill value}

theorem stringValue_cases (text : List Char) :
    (∃ parts, stringMarks text = [.expression parts] ∧ stringValue fill value text = value parts ∧
      written fill text = (fill parts).map fun c => (c, false)) ∨
    (∀ parts, stringMarks text ≠ [.expression parts]) ∧
      stringValue fill value text = .string (written fill text).chars := by
  unfold stringValue
  split
  · next parts hmarks =>
    refine .inl ⟨parts, hmarks, rfl, ?_⟩
    rw [written, hmarks]
    exact List.flatMap_singleton _ _
  · next hmarks => exact .inr ⟨hmarks, rfl⟩

theorem chars_unescaped (text : List Char) : Written.chars (text.map fun c => (c, false)) = text := by
  rw [Written.chars, List.map_map]
  exact List.map_id text

theorem raw_unescaped (text : List Char) : Written.raw (text.map fun c => (c, false)) = text := by
  rw [Written.raw, List.flatMap_map]
  exact List.flatMap_singleton' text

theorem stringValue_own {text : List Char} (h : ∀ parts, .expression parts ∈ stringMarks text → Fits fill value parts)
    (chars : List Char) (hvalue : stringValue fill value text = .string chars) : chars = (written fill text).chars := by
  rcases @stringValue_cases fill value text with ⟨parts, hmarks, hstring, hwritten⟩ | ⟨-, hstring⟩
  · rw [hwritten, chars_unescaped]
    rw [hstring] at hvalue
    rcases h parts (hmarks ▸ List.mem_singleton_self _) with hfits | ⟨hfits, -⟩
    · exact Tree.string.inj (hvalue.symm.trans hfits)
    · exact absurd hvalue (hfits chars)
  · exact Tree.string.inj (hvalue.symm.trans hstring)

theorem ownTexts {body : Value} (h : Holes (Fits fill value) body) :
    OwnTexts (written fill) (stringValue fill value) body :=
  Tree.All.imp (fun _ _ => trivial) (fun _ hfits => stringValue_own hfits) h

theorem standsForText_iff {text : List Char} (h : ∀ parts, .expression parts ∈ stringMarks text → Fits fill value parts) :
    stringValue fill value text = .string (written fill text).chars ↔ StandsForText value text := by
  rcases @stringValue_cases fill value text with ⟨parts, hmarks, hstring, hwritten⟩ | ⟨hmarks, hstring⟩
  · constructor
    · intro hvalue parts' hmarks'
      obtain rfl := Mark.expression.inj (List.cons.inj (hmarks.symm.trans hmarks')).1
      exact ⟨_, hstring.symm.trans hvalue⟩
    · intro hstands
      obtain ⟨chars, hchars⟩ := hstands parts hmarks
      rw [← stringValue_own h chars (hstring.trans hchars), hstring, hchars]
  · exact iff_of_true hstring fun parts hsingle => absurd hsingle (hmarks parts)

theorem faithful_iff {body : Value} (h : Holes (Fits fill value) body) :
    Faithful (written fill) (stringValue fill value) body ↔ Tree.All (fun key => (written fill key).IsPlain)
      (fun text => (written fill text).IsPlain ∧ StandsForText value text) body := by
  constructor
  · intro hfaithful
    exact Tree.All.imp (fun key hkey => hkey.2)
      (fun text htext => ⟨htext.2.1, (standsForText_iff htext.1).mp htext.2.2⟩) (Tree.All.and h hfaithful)
  · intro hplain
    exact Tree.All.imp (fun key hkey => hkey.2)
      (fun text htext => ⟨htext.2.1, (standsForText_iff htext.1).mpr htext.2.2⟩) (Tree.All.and h hplain)

theorem parse_bare_ne (text : List Char) : parse text ≠ some (.string text) := by
  intro h
  have hlength := parse_string_length h
  have hraw := (Written.raw_length (text.map fun c => (c, false))).1
  rw [raw_unescaped, chars_unescaped] at hraw
  omega

theorem quoteUnless_length (dropped : Bool) : (quoteUnless dropped).length = if dropped then 0 else 1 := by
  cases dropped <;> rfl

theorem parse_bare_iff {text : List Char} (h : ∀ parts, .expression parts ∈ stringMarks text → Fits fill value parts) :
    parse (quoteUnless (startsOpen (stringMarks text)) ++
      ((written fill text).raw ++ quoteUnless (afterMarks false (stringMarks text)))) =
        some (stringValue fill value text) ↔ SplicedBare fill value text := by
  unfold SplicedBare
  rcases @stringValue_cases fill value text with ⟨parts, hmarks, hstring, hwritten⟩ | ⟨hmarks, hstring⟩
  · have hrendered : quoteUnless (startsOpen (stringMarks text)) ++
        ((written fill text).raw ++ quoteUnless (afterMarks false (stringMarks text))) = fill parts := by
      rw [hmarks, hwritten, raw_unescaped]
      exact List.append_nil _
    rw [hrendered, hstring, hmarks]
    rcases h parts (hmarks ▸ List.mem_singleton_self _) with hfits | ⟨hfits, hparse⟩
    · exact iff_of_false (hfits ▸ parse_bare_ne _) fun hne => hne _ hfits
    · exact iff_of_true hparse hfits
  · rw [hstring]
    split
    · next parts hsingle => exact absurd hsingle (hmarks parts)
    · next =>
      have hlength := (Written.raw_length (written fill text)).1
      -- Without one of its quotes the text is too short for the string.
      have hshort (hparse : parse (quoteUnless (startsOpen (stringMarks text)) ++
          ((written fill text).raw ++ quoteUnless (afterMarks false (stringMarks text)))) =
            some (.string (written fill text).chars)) :
          startsOpen (stringMarks text) = false ∧ afterMarks false (stringMarks text) = false := by
        have hlong := parse_string_length hparse
        rw [List.length_append, List.length_append, quoteUnless_length, quoteUnless_length] at hlong
        cases hstart : startsOpen (stringMarks text) <;> cases hafter : afterMarks false (stringMarks text) <;>
          rw [hstart, hafter] at hlong <;> simp at hlong ⊢ <;> omega
      have hown : OwnTexts (written fill) (fun text => .string (written fill text).chars) (.string text) :=
        fun chars hchars => (Tree.string.inj hchars).symm
      have hiff := parse_write_iff hown
      constructor
      · intro hparse
        obtain ⟨hstart, hafter⟩ := hshort hparse
        rw [hstart, hafter] at hparse
        exact ⟨hstart, hafter, (hiff.mp hparse).1⟩
      · rintro ⟨hstart, hafter, hplain⟩
        rw [hstart, hafter]
        exact hiff.mpr ⟨hplain, rfl⟩

theorem parse_print (value : Value) : parse (print value) = some value := by
  have hown : OwnTexts plainWritten Tree.string value :=
    Tree.All.intro (fun _ => trivial) (fun text chars h => by rw [chars_plainWritten]; exact (Tree.string.inj h).symm) value
  have hmeant : meant plainWritten Tree.string value = value :=
    Tree.substitute_eq_self.mpr (Tree.All.intro chars_plainWritten (fun _ => rfl) value)
  have hparse := (parse_write_iff hown).mpr
    (Tree.All.intro isPlain_plainWritten (fun text => ⟨isPlain_plainWritten text, by rw [chars_plainWritten]⟩) value)
  rw [hmeant] at hparse
  exact hparse

end Meaning

section Bodies

variable {ctx : PathContext} {value : List String → Value} {body : Value}

theorem render_split (hsplit : AllSplit body) (h : Holes (Fits (fillOf ctx) value) body) :
    parse ((Mustache.parse (String.ofList (print body))).render ctx).toList = some (filled (fillOf ctx) value body) ↔
      Spliced (fillOf ctx) value body := by
  have hwhole (hbody : ∀ text, body ≠ .string text) :
      parse ((Mustache.parse (String.ofList (print body))).render ctx).toList = some (filled (fillOf ctx) value body) ↔
        Tree.All (fun key => (written (fillOf ctx) key).IsPlain)
          (fun text => (written (fillOf ctx) text).IsPlain ∧ StandsForText value text) body := by
    rw [render_parse ((renders_print hbody _).mpr ⟨hsplit, rfl⟩), filled, parse_write_iff (ownTexts h)]
    exact faithful_iff h
  cases body with
  | string text =>
    rw [render_parse ((renders_bare text _).mpr ⟨hsplit, rfl⟩)]
    exact parse_bare_iff h
  | null => exact hwhole fun text heq => by cases heq
  | bool _ => exact hwhole fun text heq => by cases heq
  | number _ => exact hwhole fun text heq => by cases heq
  | array _ => exact hwhole fun text heq => by cases heq
  | object _ => exact hwhole fun text heq => by cases heq

theorem not_renders (hsplit : ¬AllSplit body) (out : List Char) : ¬Renders (fillOf ctx) true (print body) out := by
  intro hrenders
  by_cases hstring : ∃ text, body = .string text
  · obtain ⟨text, rfl⟩ := hstring
    exact hsplit ((renders_bare text out).mp hrenders).1
  · exact hsplit ((renders_print (fun text heq => hstring ⟨text, heq⟩) out).mp hrenders).1

theorem render_whole (hsplit : ¬AllSplit body) :
    ((Mustache.parse (String.ofList (print body))).render ctx).toList = print body := by
  have hprint := parse_print body
  apply render_unsplit (not_renders hsplit)
  · intro hempty
    rw [hempty] at hprint
    cases hprint
  · intro hquote
    rw [hquote] at hprint
    cases hprint

def Meant (ctx : PathContext) (value : List String → Value) (body : Value) : Prop :=
  AllSplit body ∧ Spliced (fillOf ctx) value body ∨ ¬AllSplit body ∧ Unchanged (fillOf ctx) value body

theorem parse_render_iff (h : Holes (Fits (fillOf ctx) value) body) :
    parse ((Mustache.parse (String.ofList (print body))).render ctx).toList = some (filled (fillOf ctx) value body) ↔
      Meant ctx value body := by
  by_cases hsplit : AllSplit body
  · rw [render_split hsplit h]
    exact ⟨fun hspliced => .inl ⟨hsplit, hspliced⟩, fun hmeant => hmeant.elim And.right fun hnot => absurd hsplit hnot.1⟩
  · rw [render_whole hsplit, parse_print, Option.some.injEq, eq_comm, filled, Tree.substitute_eq_self]
    exact ⟨fun hunchanged => .inr ⟨hsplit, hunchanged⟩, fun hmeant => hmeant.elim (fun hyes => absurd hyes.1 hsplit)
      And.right⟩

end Bodies

end Gqlforge.JsonBodies
