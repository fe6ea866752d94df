import Gqlforge.TemplateMarks

namespace Gqlforge.BodyTemplates

open Templates Mustache JsonTexts TemplateMarks
open scoped RelatedLists

section Escaping

def plainWritten (text : List Char) : Written :=
  text.map fun c => (c, true)

def print (value : Value) : List Char :=
  Tree.write plainWritten value

def escaped (text : List Char) : List Char :=
  text.flatMap escapeChar

theorem raw_plainWritten (text : List Char) : (plainWritten text).raw = escaped text := by
  rw [plainWritten, Written.raw, List.flatMap_map]
  rfl

theorem chars_plainWritten (text : List Char) : (plainWritten text).chars = text := by
  rw [plainWritten, Written.chars, List.map_map]
  exact List.map_id text

theorem isPlain_plainWritten (text : List Char) : (plainWritten text).IsPlain := by
  intro c hc
  obtain ⟨d, -, heq⟩ := List.mem_map.mp hc
  cases heq

theorem not_plain_cases {c : Char} (h : ¬Plain c) : c = '"' ∨ c = '\\' ∨ ∃ n < 32, c = Char.ofNat n := by
  by_cases hquote : c = '"'
  · exact .inl hquote
  by_cases hbackslash : c = '\\'
  · exact .inr (.inl hbackslash)
  have hcontrol : c.toNat < 32 := by
    by_contra hle
    exact h ⟨hquote, hbackslash, by omega⟩
  exact .inr (.inr ⟨c.toNat, hcontrol, (Char.ofNat_toNat c).symm⟩)

theorem escapeChar_no_brace {c : Char} (h : ¬Plain c) : ∀ d ∈ escapeChar c, d ≠ '\x7b' := by
  have hcontrol : ∀ n < 32, ∀ d ∈ escapeChar (Char.ofNat n), d ≠ '\x7b' := by decide
  rcases not_plain_cases h with rfl | rfl | ⟨n, hn, rfl⟩
  · decide
  · decide
  · exact hcontrol n hn

variable {text : List Char}

theorem escaped_eq_append {used rest : List Char} (hused : ∀ c ∈ used, isExpressionChar c = true)
    (h : escaped text = used ++ rest) : ∃ text', text = used ++ text' ∧ rest = escaped text' := by
  induction used generalizing text with
  | nil => exact ⟨text, rfl, h.symm⟩
  | cons c used ih =>
    cases text with
    | nil => cases h
    | cons d text =>
      have hsplit : escaped (d :: text) = escapeChar d ++ escaped text := rfl
      rw [hsplit] at h
      rcases escapeChar_cases d with hplain | ⟨e, more, hescape⟩
      · rw [escapeChar_plain hplain] at h
        obtain ⟨rfl, htail⟩ := List.cons.inj h
        obtain ⟨text', rfl, hrest⟩ := ih (fun e he => hused e (List.mem_cons_of_mem _ he)) htail
        exact ⟨text', rfl, hrest⟩
      · rw [hescape] at h
        obtain ⟨rfl, -⟩ := List.cons.inj h
        exact absurd (hused _ List.mem_cons_self) (by decide)

theorem scans_text (h : ∀ c ∈ text, c ≠ '\x7b') (rest : List Char) (marks : List Mark) :
    Scans (text ++ rest) marks ↔ ∃ marks', Scans rest marks' ∧ marks = text.map .char ++ marks' := by
  induction text generalizing marks with
  | nil => simp
  | cons c text ih =>
    have hclosed : opens (c :: (text ++ rest)) = false :=
      opens_eq_false fun tail hc _ => h c List.mem_cons_self hc
    rw [List.cons_append, scans_cons hclosed]
    constructor
    · rintro ⟨marks', htail, rfl⟩
      obtain ⟨marks'', hrest, rfl⟩ := (ih (fun d hd => h d (List.mem_cons_of_mem _ hd)) marks').mp htail
      exact ⟨marks'', hrest, rfl⟩
    · rintro ⟨marks'', hrest, rfl⟩
      exact ⟨_, (ih (fun d hd => h d (List.mem_cons_of_mem _ hd)) _).mpr ⟨marks'', hrest, rfl⟩, rfl⟩

def escapedMark : Mark → List Mark
  | .char c => (escapeChar c).map .char
  | .expression parts => [.expression parts]

theorem scans_escaped {marks : List Mark} (h : Scans (escaped text) marks) :
    ∃ marks', Scans text marks' ∧ marks = marks'.flatMap escapedMark := by
  induction hlength : text.length using Nat.strong_induction_on generalizing text marks with
  | _ n ih =>
    subst hlength
    cases text with
    | nil =>
      obtain rfl := Scans.nil.unique h
      exact ⟨[], .nil, rfl⟩
    | cons c text =>
      have hsplit : escaped (c :: text) = escapeChar c ++ escaped text := rfl
      rcases Decidable.em (Plain c) with hplain | hplain
      · rw [hsplit, escapeChar_plain hplain, List.singleton_append] at h
        cases h with
        | @expression _ rest _ _ head tail =>
          obtain ⟨used, parts, heq, hparts, hused, -, hlocal⟩ := parseExpression_local head
          cases hparts
          have hall : ∀ d ∈ '\x7b' :: '\x7b' :: used, isExpressionChar d = true := by
            intro d hd
            simp only [List.mem_cons] at hd
            rcases hd with rfl | rfl | hd
            · decide
            · decide
            · exact hused d hd
          have hescaped : escaped (c :: text) = '\x7b' :: '\x7b' :: used ++ rest := by
            rw [hsplit, escapeChar_plain hplain]
            exact heq
          obtain ⟨text', htext, rfl⟩ := escaped_eq_append hall hescaped
          have hshort : text'.length < (c :: text).length := by
            rw [htext]
            simp only [List.length_append, List.length_cons]
            omega
          obtain ⟨marks', hscans, rfl⟩ := ih _ hshort tail rfl
          rw [htext]
          exact ⟨_, .expression (hlocal text') hscans, rfl⟩
        | char head tail =>
          obtain ⟨marks', hscans, rfl⟩ := ih _ (Nat.lt_succ_self _) tail rfl
          have hclosed : opens (c :: text) = false := by
            apply opens_eq_false
            rintro text' rfl rfl
            cases head
          refine ⟨_, .char hclosed hscans, ?_⟩
          rw [List.flatMap_cons, escapedMark, escapeChar_plain hplain]
          rfl
      · rw [hsplit, scans_text (escapeChar_no_brace hplain)] at h
        obtain ⟨marks', htail, rfl⟩ := h
        obtain ⟨marks'', hscans, rfl⟩ := ih _ (Nat.lt_succ_self _) htail rfl
        have hclosed : opens (c :: text) = false := by
          apply opens_eq_false
          rintro text' rfl rfl
          exact hplain (by decide)
        exact ⟨_, .char hclosed hscans, rfl⟩

theorem quote_not_expression {used : List Char} (h : ∀ c ∈ used, isExpressionChar c = true) : '"' ∉ used := by
  intro hquote
  have hc := h '"' hquote
  revert hc
  decide

theorem scans_append_quote {rest : List Char} {marks : List Mark} : Scans (text ++ '"' :: rest) marks ↔
    ∃ before after, Scans text before ∧ Scans rest after ∧ marks = before ++ .char '"' :: after := by
  have hopens (c : Char) (text : List Char) : opens (c :: (text ++ '"' :: rest)) = opens (c :: text) := by
    rcases text with _ | ⟨d, text⟩
    · have hquote : opens (c :: '"' :: rest) = false := opens_eq_false fun tail _ h => by cases h
      have hnil : opens [c] = false := opens_eq_false fun tail _ h => by cases h
      exact hquote.trans hnil.symm
    · rw [List.cons_append]
      unfold opens
      split <;> split <;> simp_all
  constructor
  · intro h
    generalize hinput : text ++ '"' :: rest = input at h
    induction h generalizing text with
    | nil => simp at hinput
    | @expression input rest' parts marks head tail ih =>
      obtain ⟨used, parts', rfl, hparts, hused, -, hlocal⟩ := parseExpression_local head
      cases hparts
      have hquote : '"' ∉ '\x7b' :: '\x7b' :: used := by
        simp only [List.mem_cons, not_or]
        exact ⟨by decide, by decide, quote_not_expression hused⟩
      obtain ⟨more, htext, hrest⟩ : ∃ more, text = '\x7b' :: '\x7b' :: used ++ more ∧ rest' = more ++ '"' :: rest := by
        rcases List.append_eq_append_iff.mp hinput with ⟨more, hused', hquoted⟩ | ⟨more, htext, hrest⟩
        · cases more with
          | nil => exact ⟨[], by rw [hused', List.append_nil, List.append_nil], hquoted.symm⟩
          | cons c more =>
            obtain ⟨rfl, -⟩ := List.cons.inj hquoted
            exact absurd (hused' ▸ List.mem_append_right _ List.mem_cons_self) hquote
        · exact ⟨more, htext, hrest⟩
      obtain ⟨before, after, hbefore, hafter, rfl⟩ := ih hrest.symm
      rw [htext]
      exact ⟨.expression parts :: before, after, .expression (hlocal more) hbefore, hafter, rfl⟩
    | @char c rest' marks head tail ih =>
      rcases text with _ | ⟨d, text⟩
      · obtain ⟨rfl, rfl⟩ := List.cons.inj hinput
        exact ⟨[], marks, .nil, tail, rfl⟩
      · obtain ⟨rfl, rfl⟩ := List.cons.inj hinput
        obtain ⟨before, after, hbefore, hafter, rfl⟩ := ih rfl
        exact ⟨.char d :: before, after, .char (hopens d text ▸ head) hbefore, hafter, rfl⟩
  · rintro ⟨before, after, hbefore, hafter, rfl⟩
    induction hbefore with
    | nil => exact .char rfl hafter
    | expression head tail ih =>
      obtain ⟨used, parts', rfl, hparts, -, -, hlocal⟩ := parseExpression_local head
      cases hparts
      rw [List.append_assoc]
      exact .expression (hlocal _) ih
    | char head tail ih => exact .char ((hopens _ _).trans head) ih

def afterMarks : Bool → List Mark → Bool
  | start, [] => start
  | _, .char _ :: rest => afterMarks false rest
  | _, .expression _ :: rest => afterMarks true rest

theorem dropLone_escaped (start : Bool) (marks rest : List Mark) :
    dropLone start (marks.flatMap escapedMark ++ rest) =
      marks.flatMap escapedMark ++ dropLone (afterMarks start marks) rest := by
  induction marks generalizing start with
  | nil => rfl
  | cons mark marks ih =>
    rw [List.flatMap_cons, List.append_assoc]
    cases mark with
    | expression parts => exact congrArg (Mark.expression parts :: ·) (ih true)
    | char c =>
      obtain ⟨d, more, hescape, hd⟩ : ∃ d more, escapeChar c = d :: more ∧ d ≠ '"' := by
        rcases escapeChar_cases c with hplain | ⟨e, more, hescape⟩
        · exact ⟨c, [], escapeChar_plain hplain, hplain.1⟩
        · exact ⟨_, _, hescape, by decide⟩
      rw [escapedMark, hescape, List.map_cons, List.cons_append, dropLone_char (.inr (.inl hd)), dropLone_chars, ih]
      simp [afterMarks]

end Escaping

section Filling

variable (fill : List String → List Char)

def markText : Mark → List Char
  | .char c => [c]
  | .expression parts => fill parts

def markWritten : Mark → Written
  | .char c => [(c, true)]
  | .expression parts => (fill parts).map fun c => (c, false)

def stringMarks (text : List Char) : List Mark :=
  (parseSegments (String.ofList text)).flatMap marksOf

def written (text : List Char) : Written :=
  (stringMarks text).flatMap (markWritten fill)

def splits (text : List Char) : Bool :=
  (parseMany ((escaped text).length + 1) (escaped text)).isSome

variable {text : List Char}

theorem splits_iff : splits text = true ↔ ∃ marks, Scans (escaped text) marks := by
  rw [splits, Option.isSome_iff_exists]
  constructor
  · rintro ⟨p, hmany⟩
    exact ⟨_, (parseMany_scans (Nat.lt_succ_self _) _).mpr ⟨p.1, p.2, hmany, rfl⟩⟩
  · rintro ⟨marks, hscans⟩
    obtain ⟨segments, remaining, hmany, -⟩ := (parseMany_scans (Nat.lt_succ_self _) marks).mp hscans
    exact ⟨_, hmany⟩

theorem raw_append (before after : Written) : (before ++ after : Written).raw = before.raw ++ after.raw :=
  List.flatMap_append

theorem raw_written (marks : List Mark) :
    (marks.flatMap escapedMark).flatMap (markText fill) = Written.raw (marks.flatMap (markWritten fill)) := by
  induction marks with
  | nil => rfl
  | cons mark marks ih =>
    rw [List.flatMap_cons, List.flatMap_append, List.flatMap_cons, raw_append, ih]
    congr 1
    cases mark with
    | char c =>
      have hraw : Written.raw (markWritten fill (.char c)) = escapeChar c := by simp [markWritten, Written.raw]
      rw [hraw, escapedMark, List.flatMap_map]
      exact List.flatMap_singleton' _
    | expression parts =>
      simp [escapedMark, markText, markWritten, Written.raw, List.flatMap_map]

theorem stringMarks_scans {marks : List Mark} (h : Scans (escaped text) marks) :
    Scans text (stringMarks text) ∧ marks = (stringMarks text).flatMap escapedMark := by
  obtain ⟨marks', hscans, rfl⟩ := scans_escaped h
  have hmarks : stringMarks text = marks' := parseSegments_scans (by rwa [String.toList_ofList])
  rw [hmarks]
  exact ⟨hscans, rfl⟩

def Renders (start : Bool) (input out : List Char) : Prop :=
  ∃ marks, Scans input marks ∧ out = (dropLone start marks).flatMap (markText fill)

/-- In front of the rest of a template, a part of it is rendered as a text if it can be split at all. -/
def Passes (start : Bool) (part rest text : List Char) (split : Prop) : Prop :=
  ∀ out, Renders fill start (part ++ rest) out ↔ split ∧ ∃ out', Renders fill false rest out' ∧ out = text ++ out'

variable {fill}

theorem Passes.append {start : Bool} {part part' rest text' : List Char} {split split' : Prop}
    (h : Passes fill start part (part' ++ rest) text split) (h' : Passes fill false part' rest text' split') :
    Passes fill start (part ++ part') rest (text ++ text') (split ∧ split') := by
  intro out
  rw [List.append_assoc, h out]
  constructor
  · rintro ⟨hsplit, out', hpart, rfl⟩
    obtain ⟨hsplit', out'', hrest, rfl⟩ := (h' out').mp hpart
    exact ⟨⟨hsplit, hsplit'⟩, out'', hrest, (List.append_assoc _ _ _).symm⟩
  · rintro ⟨⟨hsplit, hsplit'⟩, out'', hrest, rfl⟩
    exact ⟨hsplit, _, (h' _).mpr ⟨hsplit', out'', hrest, rfl⟩, List.append_assoc _ _ _⟩

theorem Passes.cons {start : Bool} {c : Char} {part rest text : List Char} {split : Prop}
    (h : Passes fill false part rest text split) (hopens : opens (c :: (part ++ rest)) = false)
    (hkept : start = false ∨ c ≠ '"') : Passes fill start (c :: part) rest (c :: text) split := by
  have hchar (marks : List Mark) : dropLone start (.char c :: marks) = .char c :: dropLone false marks :=
    dropLone_char (hkept.imp_right .inl)
  intro out
  constructor
  · rintro ⟨marks, hscans, rfl⟩
    obtain ⟨marks', htail, rfl⟩ := (scans_cons hopens marks).mp hscans
    obtain ⟨hsplit, out', hrest, heq⟩ := (h _).mp ⟨marks', htail, rfl⟩
    exact ⟨hsplit, out', hrest, by rw [hchar, List.flatMap_cons, heq]; rfl⟩
  · rintro ⟨hsplit, out', hrest, rfl⟩
    obtain ⟨marks', htail, heq⟩ := (h _).mpr ⟨hsplit, out', hrest, rfl⟩
    refine ⟨_, .char hopens htail, ?_⟩
    rw [hchar, List.flatMap_cons, ← heq]
    rfl

theorem passes_text {start : Bool} {c : Char} (hquote : c ≠ '"') (hbrace : ∀ d ∈ c :: text, d ≠ '\x7b')
    (rest : List Char) : Passes fill start (c :: text) rest (c :: text) True := by
  have hkept (marks : List Mark) : (dropLone start ((c :: text).map .char ++ marks)).flatMap (markText fill) =
      c :: text ++ (dropLone false marks).flatMap (markText fill) := by
    rw [List.map_cons, List.cons_append, dropLone_char (.inr (.inl hquote)), dropLone_chars, List.flatMap_cons,
      List.flatMap_append, List.flatMap_map]
    have htext : text.flatMap (fun d => markText fill (.char d)) = text := List.flatMap_singleton' text
    rw [htext]
    rfl
  intro out
  constructor
  · rintro ⟨marks, hscans, rfl⟩
    obtain ⟨marks', htail, rfl⟩ := (scans_text hbrace rest marks).mp hscans
    exact ⟨trivial, _, ⟨marks', htail, rfl⟩, hkept marks'⟩
  · rintro ⟨-, _, ⟨marks', htail, rfl⟩, rfl⟩
    exact ⟨_, (scans_text hbrace rest _).mpr ⟨marks', htail, rfl⟩, (hkept marks').symm⟩

def Closes (rest : List Char) : Prop :=
  ∃ c tail, rest = c :: tail ∧ c ≠ '\x7b'

theorem passes_quoted {rest : List Char} (hrest : Closes rest) :
    Passes fill false (quoted (plainWritten text)) rest (quoted (written fill text)) (splits text = true) := by
  obtain ⟨c, tail, rfl, hbrace⟩ := hrest
  have hopens : opens (c :: tail) = false := opens_eq_false fun tail' hc _ => hbrace hc
  have hkept {after : List Mark} (hafter : Scans (c :: tail) after) :
      (dropLone false (.char '"' :: ((stringMarks text).flatMap escapedMark ++ .char '"' :: after))).flatMap
        (markText fill) = quoted (written fill text) ++ (dropLone false after).flatMap (markText fill) := by
    obtain ⟨after', htail, rfl⟩ := (scans_cons hopens after).mp hafter
    rw [dropLone_char (.inl rfl), dropLone_escaped, dropLone_char (.inr (.inr rfl)), List.flatMap_cons,
      List.flatMap_append, raw_written]
    simp [markText, quoted, written]
  have hinput : quoted (plainWritten text) ++ c :: tail = '"' :: (escaped text ++ '"' :: c :: tail) := by
    rw [quoted, raw_plainWritten]
    simp
  have hquote : opens ('"' :: (escaped text ++ '"' :: c :: tail)) = false := opens_eq_false fun tail hc _ => by cases hc
  intro out
  rw [hinput]
  constructor
  · rintro ⟨marks, hscans, rfl⟩
    obtain ⟨marks', hinner, rfl⟩ := (scans_cons hquote marks).mp hscans
    obtain ⟨before, after, hbefore, hafter, rfl⟩ := scans_append_quote.mp hinner
    obtain ⟨-, rfl⟩ := stringMarks_scans hbefore
    exact ⟨splits_iff.mpr ⟨_, hbefore⟩, _, ⟨after, hafter, rfl⟩, hkept hafter⟩
  · rintro ⟨hsplits, _, ⟨after, hafter, rfl⟩, rfl⟩
    obtain ⟨before, hbefore⟩ := splits_iff.mp hsplits
    obtain ⟨-, rfl⟩ := stringMarks_scans hbefore
    exact ⟨_, .char hquote (scans_append_quote.mpr ⟨_, after, hbefore, hafter, rfl⟩), (hkept hafter).symm⟩

end Filling

section Trees

variable {fill : List String → List Char}

abbrev AllSplit : Value → Prop :=
  Tree.All (fun key => splits key = true) fun text => splits text = true

abbrev AllSplitItems : List Value → Prop :=
  Tree.AllItems (fun key => splits key = true) fun text => splits text = true

abbrev AllSplitMembers : List (List Char × Value) → Prop :=
  Tree.AllMembers (fun key => splits key = true) fun text => splits text = true

theorem closes_items (items : List Value) (rest : List Char) : Closes (Tree.writeItems plainWritten items ++ rest) := by
  cases items <;> exact ⟨_, _, rfl, by decide⟩

theorem closes_members (members : List (List Char × Value)) (rest : List Char) :
    Closes (Tree.writeMembers plainWritten members ++ rest) := by
  rcases members with _ | ⟨⟨key, value⟩, members⟩ <;> exact ⟨_, _, rfl, by decide⟩

theorem passes_number {start : Bool} (digits : NumberText) (rest : List Char) :
    Passes fill start digits.1 rest digits.1 True := by
  obtain ⟨c, tail, heq, hc⟩ := isNumber_head digits
  have hbrace : ∀ d ∈ digits.1, d ≠ '\x7b' := by
    rintro d hd rfl
    exact absurd (digits.all_chars _ hd) (by decide)
  have hquote : c ≠ '"' := by
    rintro rfl
    revert hc
    decide
  rw [heq] at hbrace ⊢
  exact passes_text hquote hbrace rest

theorem passes_member (key : List Char) {part rest text : List Char} {split : Prop}
    (h : Passes fill false part rest text split) :
    Passes fill false (quoted (plainWritten key) ++ ':' :: part) rest (quoted (written fill key) ++ ':' :: text)
      (splits key = true ∧ split) :=
  (passes_quoted ⟨':', _, rfl, by decide⟩).append
    (h.cons (opens_eq_false fun tail hc _ => by cases hc) (.inl rfl))

mutual

theorem passes_value : ∀ (tree : Value) {start : Bool} {rest : List Char},
    (∀ text, tree = .string text → start = false ∧ Closes rest) →
      Passes fill start (Tree.write plainWritten tree) rest (Tree.write (written fill) tree) (AllSplit tree)
  | .null, _, rest, _ => passes_text (by decide) (by decide) rest
  | .bool true, _, rest, _ => passes_text (by decide) (by decide) rest
  | .bool false, _, rest, _ => passes_text (by decide) (by decide) rest
  | .number digits, _, rest, _ => passes_number digits rest
  | .string text, _, _, hstring => by
    obtain ⟨rfl, hrest⟩ := hstring text rfl
    exact passes_quoted hrest
  | .array [], _, rest, _ => passes_text (by decide) (by decide) rest
  | .array (item :: items), _, rest, _ => by
    have hitem := passes_value item fun _ _ => ⟨rfl, closes_items items rest⟩
    exact (hitem.append (passes_items items rest)).cons (opens_eq_false fun tail hc _ => by cases hc) (.inr (by decide))
  | .object [], _, rest, _ => by
    have hclose : Passes fill false ['\x7d'] rest ['\x7d'] True := passes_text (by decide) (by decide) rest
    exact hclose.cons rfl (.inr (by decide))
  | .object ((key, value) :: members), _, rest, _ => by
    have hvalue := passes_value value fun _ _ => ⟨rfl, closes_members members rest⟩
    exact (passes_member key (hvalue.append (passes_members members rest))).cons rfl (.inr (by decide))

theorem passes_items : ∀ (items : List Value) (rest : List Char), Passes fill false
    (Tree.writeItems plainWritten items) rest (Tree.writeItems (written fill) items) (AllSplitItems items)
  | [], rest => passes_text (by decide) (by decide) rest
  | item :: items, rest => by
    have hitem := passes_value item fun _ _ => ⟨rfl, closes_items items rest⟩
    exact (hitem.append (passes_items items rest)).cons (opens_eq_false fun tail hc _ => by cases hc) (.inl rfl)

theorem passes_members : ∀ (members : List (List Char × Value)) (rest : List Char), Passes fill false
    (Tree.writeMembers plainWritten members) rest (Tree.writeMembers (written fill) members) (AllSplitMembers members)
  | [], rest => passes_text (by decide) (by decide) rest
  | (key, value) :: members, rest => by
    have hvalue := passes_value value fun _ _ => ⟨rfl, closes_members members rest⟩
    exact (passes_member key (hvalue.append (passes_members members rest))).cons
      (opens_eq_false fun tail hc _ => by cases hc) (.inl rfl)

end

theorem renders_nil {start : Bool} {out : List Char} : Renders fill start [] out ↔ out = [] := by
  constructor
  · rintro ⟨marks, hscans, rfl⟩
    obtain rfl := Scans.nil.unique hscans
    rfl
  · rintro rfl
    exact ⟨[], .nil, rfl⟩

theorem renders_print {body : Value} (hbody : ∀ text, body ≠ .string text) (out : List Char) :
    Renders fill true (print body) out ↔ AllSplit body ∧ out = Tree.write (written fill) body := by
  have hvalue := @passes_value fill body true [] (fun text h => absurd h (hbody text)) out
  rw [List.append_nil] at hvalue
  rw [print, hvalue]
  constructor
  · rintro ⟨hsplit, out', hrest, rfl⟩
    rw [renders_nil.mp hrest, List.append_nil]
    exact ⟨hsplit, rfl⟩
  · rintro ⟨hsplit, rfl⟩
    exact ⟨hsplit, [], renders_nil.mpr rfl, (List.append_nil _).symm⟩

def startsOpen : List Mark → Bool
  | .expression _ :: _ => true
  | _ => false

def quoteUnless (dropped : Bool) : List Char :=
  if dropped then [] else ['"']

theorem renders_bare (text out : List Char) : Renders fill true (print (.string text)) out ↔ splits text = true ∧
    out = quoteUnless (startsOpen (stringMarks text)) ++
      ((written fill text).raw ++ quoteUnless (afterMarks false (stringMarks text))) := by
  have hinput : print (.string text) = '"' :: (escaped text ++ '"' :: []) := by
    rw [print, Tree.write, quoted, raw_plainWritten]
    rfl
  have hopens : opens ('"' :: (escaped text ++ '"' :: [])) = false := opens_eq_false fun tail hc _ => by cases hc
  have hfirst (marks : List Mark) : boundary (marks.flatMap escapedMark ++ [.char '"']) = startsOpen marks := by
    rcases marks with _ | ⟨c | parts, marks⟩
    · rfl
    · rcases escapeChar_cases c with hplain | ⟨d, more, hescape⟩
      · simp [escapedMark, escapeChar_plain hplain, boundary, startsOpen]
      · simp [escapedMark, hescape, boundary, startsOpen]
    · rfl
  have hlast (start : Bool) : (dropLone start [.char '"']).flatMap (markText fill) = quoteUnless start := by
    cases start <;> rfl
  have hout : (dropLone true (.char '"' :: ((stringMarks text).flatMap escapedMark ++ [.char '"']))).flatMap
      (markText fill) = quoteUnless (startsOpen (stringMarks text)) ++
        ((written fill text).raw ++ quoteUnless (afterMarks false (stringMarks text))) := by
    rw [dropLone, hfirst, dropLone_escaped]
    cases startsOpen (stringMarks text) with
    | true =>
      change (_ ++ _ : List Mark).flatMap (markText fill) = _
      rw [List.flatMap_append, raw_written, hlast]
      rfl
    | false =>
      change (_ :: (_ ++ _) : List Mark).flatMap (markText fill) = _
      rw [List.flatMap_cons, List.flatMap_append, raw_written, hlast]
      rfl
  rw [hinput]
  constructor
  · rintro ⟨marks, hscans, rfl⟩
    obtain ⟨marks', hinner, rfl⟩ := (scans_cons hopens marks).mp hscans
    obtain ⟨before, after, hbefore, hafter, rfl⟩ := scans_append_quote.mp hinner
    obtain rfl := Scans.nil.unique hafter
    obtain ⟨-, rfl⟩ := stringMarks_scans hbefore
    exact ⟨splits_iff.mpr ⟨_, hbefore⟩, hout⟩
  · rintro ⟨hsplits, rfl⟩
    obtain ⟨before, hbefore⟩ := splits_iff.mp hsplits
    obtain ⟨-, rfl⟩ := stringMarks_scans hbefore
    exact ⟨_, .char hopens (scans_append_quote.mpr ⟨_, [], hbefore, .nil, rfl⟩), hout.symm⟩

end Trees

def fillOf (ctx : PathContext) (parts : List String) : List Char :=
  ((ctx.pathString parts).getD "").toList

theorem toList_render (template : Mustache) (ctx : PathContext) :
    (template.render ctx).toList = (template.segments.flatMap marksOf).flatMap (markText (fillOf ctx)) := by
  rw [Mustache.render, String.toList_join, List.flatMap_map, List.flatMap_assoc]
  apply List.flatMap_congr
  rintro (text | parts) -
  · rw [marksOf, List.flatMap_map]
    exact (List.flatMap_singleton' _).symm
  · simp [marksOf, markText, fillOf]

theorem render_parse {ctx : PathContext} {input out : List Char} (h : Renders (fillOf ctx) true input out) :
    ((Mustache.parse (String.ofList input)).render ctx).toList = out := by
  obtain ⟨marks, hscans, rfl⟩ := h
  have hmarks : Scans (String.ofList input).toList marks := by rwa [String.toList_ofList]
  rw [toList_render, parse_marks hmarks]

theorem render_unsplit {ctx : PathContext} {input : List Char} (h : ∀ out, ¬Renders (fillOf ctx) true input out)
    (hempty : input ≠ []) (hquote : input ≠ ['"']) :
    ((Mustache.parse (String.ofList input)).render ctx).toList = input := by
  have hscans : ∀ marks, ¬Scans (String.ofList input).toList marks := by
    intro marks hmarks
    rw [String.toList_ofList] at hmarks
    exact h _ ⟨marks, hmarks, rfl⟩
  have hkept : isKept (.literal (String.ofList input)) = true := by
    have hne : String.ofList input ≠ "\"" := by
      intro heq
      have hlist := congrArg String.toList heq
      rw [String.toList_ofList] at hlist
      exact hquote hlist
    have hnonempty : (String.ofList input).isEmpty = false := by
      rw [Bool.eq_false_iff]
      intro htrue
      have hlist := congrArg String.toList (String.isEmpty_iff.mp htrue)
      rw [String.toList_ofList] at hlist
      exact hempty hlist
    rw [isKept, hnonempty]
    simpa using hne
  rw [toList_render, parse_segments, parseSegments_of_not_scans hscans, List.filter_cons, hkept]
  simp [marksOf, markText, List.flatMap_map]

end Gqlforge.BodyTemplates
