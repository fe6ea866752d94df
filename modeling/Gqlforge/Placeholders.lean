import Gqlforge.BodyTemplates

namespace Gqlforge.Placeholders

open Templates Mustache JsonTexts TemplateMarks BodyTemplates

section Grammar

def Blank (text : List Char) : Prop :=
  ∀ c ∈ text, isMultispace c = true

inductive Spaced : List Char → String → Prop where
  | mk {before after word : List Char} {c : Char} (hbefore : Blank before) (hfirst : c.isAlpha = true)
      (hword : ∀ d ∈ word, isNameChar d = true) (hafter : Blank after) :
      Spaced (before ++ (c :: word ++ after)) (String.ofList (c :: word))

inductive Dotted : List Char → List String → Prop where
  | nil : Dotted [] []
  | cons {text rest : List Char} {name : String} {names : List String} (head : Spaced text name)
      (tail : Dotted rest names) : Dotted ('.' :: (text ++ rest)) (name :: names)

inductive Path : List Char → List String → Prop where
  | mk {text rest : List Char} {name : String} {names : List String} (head : Spaced text name)
      (tail : Dotted rest names) : Path (text ++ rest) (name :: names)

def braced (text : List Char) : List Char :=
  '\x7b' :: '\x7b' :: (text ++ ['\x7d', '\x7d'])

/-- A path between double braces. Blanks may stand in front of a leading dot as they may around a name. -/
inductive Placeholder : List Char → List String → Prop where
  | plain {path : List Char} {parts : List String} (hpath : Path path parts) : Placeholder (braced path) parts
  | dotted {before path : List Char} {parts : List String} (hbefore : Blank before) (hpath : Path path parts) :
      Placeholder (braced (before ++ '.' :: path)) parts

inductive Tight : List Char → List String → Prop where
  | plain {path : List Char} {parts : List String} (hpath : Path path parts) : Tight (braced path) parts
  | dotted {path : List Char} {parts : List String} (hpath : Path path parts) : Tight (braced ('.' :: path)) parts

theorem Tight.placeholder {text : List Char} {parts : List String} (h : Tight text parts) : Placeholder text parts := by
  cases h with
  | plain hpath => exact .plain hpath
  | dotted hpath => exact @Placeholder.dotted [] _ _ (by simp [Blank]) hpath

def isEnd (c : Char) : Bool :=
  c == '.' || c == '\x7d'

theorem isEnd_eq {c : Char} (h : isEnd c = true) : isNameChar c = false ∧ isMultispace c = false := by
  rw [isEnd, Bool.or_eq_true, beq_iff_eq, beq_iff_eq] at h
  rcases h with rfl | rfl <;> decide

theorem isNameChar_of_isAlpha {c : Char} (h : c.isAlpha = true) : isNameChar c = true := by
  rw [isNameChar, Char.isAlphanum, h]
  rfl

theorem not_isMultispace_of_isAlpha {c : Char} (h : c.isAlpha = true) : isMultispace c = false := by
  cases hspace : isMultispace c with
  | false => rfl
  | true =>
    have hname := isNameChar_of_isAlpha h
    rw [isMultispace_not_name hspace] at hname
    cases hname

variable {text : List Char}

theorem Dotted.next {names : List String} (h : Dotted text names) (tail : List Char) :
    ∃ c rest, text ++ '\x7d' :: tail = c :: rest ∧ isEnd c = true := by
  cases h with
  | nil => exact ⟨_, _, rfl, rfl⟩
  | cons => exact ⟨_, _, rfl, rfl⟩

theorem Spaced.parseName {text : List Char} {name : String} {c : Char} (h : Spaced text name) (hc : isEnd c = true)
    (rest : List Char) : parseName (text ++ c :: rest) = some (name, c :: rest) := by
  obtain ⟨hbefore, hfirst, hword, hafter⟩ := h
  next before after word first =>
    obtain ⟨hcName, hcSpace⟩ := isEnd_eq hc
    have hnameAll : ∀ d ∈ first :: word, isNameChar d = true := by
      intro d hd
      rcases List.mem_cons.mp hd with rfl | hd
      · exact isNameChar_of_isAlpha hfirst
      · exact hword d hd
    have hstart : ∀ d tail, first :: word ++ (after ++ c :: rest) = d :: tail → isMultispace d = false := by
      intro d tail heq
      exact (List.cons.inj heq).1 ▸ not_isMultispace_of_isAlpha hfirst
    have hstop : ∀ d tail, after ++ c :: rest = d :: tail → isNameChar d = false := by
      intro d tail heq
      cases after with
      | nil => exact (List.cons.inj heq).1 ▸ hcName
      | cons space after =>
        exact (List.cons.inj heq).1 ▸ isMultispace_not_name (hafter space List.mem_cons_self)
    have hlast : ∀ d tail, c :: rest = d :: tail → isMultispace d = false := by
      intro d tail heq
      exact (List.cons.inj heq).1 ▸ hcSpace
    have hinput : before ++ (first :: word ++ after) ++ c :: rest =
        before ++ (first :: word ++ (after ++ c :: rest)) := by simp
    have hdrop := (run_append hbefore hstart).2
    have hrun := run_append hnameAll hstop
    rw [hinput, Mustache.parseName, hdrop]
    change (if first.isAlpha = true then _ else none) = _
    have hnext : first :: (word ++ (after ++ c :: rest)) = first :: word ++ (after ++ c :: rest) := rfl
    rw [if_pos hfirst]
    change some (String.ofList ((first :: word ++ (after ++ c :: rest)).takeWhile isNameChar),
      ((first :: word ++ (after ++ c :: rest)).dropWhile isNameChar).dropWhile isMultispace) = _
    rw [hrun.1, hrun.2, (run_append hafter hlast).2]

variable {input rest : List Char}

theorem parseName_spaced {name : String} (h : Mustache.parseName input = some (name, rest)) :
    ∃ text, input = text ++ rest ∧ Spaced text name := by
  unfold Mustache.parseName at h
  split at h
  · cases h
  next first tail hfirst =>
    split at h
    next halpha =>
      obtain ⟨rfl, rfl⟩ := Prod.mk.inj (Option.some.inj h)
      have hword : (first :: tail).takeWhile isNameChar = first :: tail.takeWhile isNameChar :=
        List.takeWhile_cons_of_pos (isNameChar_of_isAlpha halpha)
      have hspaced : Spaced (input.takeWhile isMultispace ++ (first :: tail.takeWhile isNameChar ++
          ((first :: tail).dropWhile isNameChar).takeWhile isMultispace))
          (String.ofList ((first :: tail).takeWhile isNameChar)) := by
        rw [hword]
        exact .mk (fun c hc => List.mem_takeWhile_imp hc) halpha (fun c hc => List.mem_takeWhile_imp hc)
          fun c hc => List.mem_takeWhile_imp hc
      refine ⟨_, ?_, hspaced⟩
      calc input = input.takeWhile isMultispace ++ (first :: tail) := by
            rw [← hfirst, List.takeWhile_append_dropWhile]
        _ = input.takeWhile isMultispace ++ ((first :: tail).takeWhile isNameChar ++
              (((first :: tail).dropWhile isNameChar).takeWhile isMultispace ++
                ((first :: tail).dropWhile isNameChar).dropWhile isMultispace)) := by
            rw [List.takeWhile_append_dropWhile, List.takeWhile_append_dropWhile]
        _ = _ := by rw [hword]; simp
    · cases h

theorem Dotted.parseNames {text : List Char} {names : List String} (h : Dotted text names) {fuel : ℕ}
    (hfuel : text.length ≤ fuel) (tail : List Char) :
    parseNames fuel (text ++ '\x7d' :: tail) = (names, '\x7d' :: tail) := by
  induction h generalizing fuel with
  | nil => cases fuel <;> rfl
  | @cons text rest name names head dotted ih =>
    obtain ⟨c, after, hnext, hc⟩ := dotted.next tail
    cases fuel with
    | zero => cases hfuel
    | succ fuel =>
      have hlength : rest.length ≤ fuel := by
        simp only [List.length_cons, List.length_append] at hfuel
        omega
      have hinput : '.' :: (text ++ rest) ++ '\x7d' :: tail = '.' :: (text ++ (rest ++ '\x7d' :: tail)) := by simp
      rw [hinput, hnext, Mustache.parseNames, head.parseName hc]
      dsimp only
      rw [← hnext, ih hlength]

theorem parseNames_dotted {fuel : ℕ} {names : List String}
    (h : Mustache.parseNames fuel input = (names, rest)) : ∃ text, input = text ++ rest ∧ Dotted text names := by
  fun_induction Mustache.parseNames fuel input generalizing names rest with
  | case1 fuel input name after hname names' after' hrest ih =>
    obtain ⟨rfl, rfl⟩ := Prod.mk.inj h
    obtain ⟨text, rfl, hdotted⟩ := ih hrest
    obtain ⟨front, rfl, hspaced⟩ := parseName_spaced hname
    exact ⟨'.' :: (front ++ text), by simp, .cons hspaced hdotted⟩
  | case2 =>
    obtain ⟨rfl, rfl⟩ := Prod.mk.inj h
    exact ⟨[], rfl, .nil⟩
  | case3 =>
    obtain ⟨rfl, rfl⟩ := Prod.mk.inj h
    exact ⟨[], rfl, .nil⟩

variable {parts : List String}

theorem Path.first {path : List Char} (h : Path path parts) :
    ∃ before c rest, Blank before ∧ path = before ++ c :: rest ∧ c.isAlpha = true := by
  obtain ⟨⟨hbefore, hfirst, _, _⟩, _⟩ := h
  next rest _ _ before after word c _ _ =>
    exact ⟨before, c, word ++ (after ++ rest), hbefore, by simp, hfirst⟩

theorem Path.dropDot {path : List Char} {parts : List String} (h : Path path parts) (tail : List Char) :
    dropDot (path ++ tail) = path ++ tail := by
  obtain ⟨before, c, rest, hbefore, rfl, hc⟩ := h.first
  unfold Mustache.dropDot
  split
  · next input heq =>
    cases before with
    | nil =>
      obtain ⟨rfl, -⟩ := List.cons.inj heq
      cases hc
    | cons space before =>
      obtain ⟨rfl, -⟩ := List.cons.inj heq
      cases hbefore '.' List.mem_cons_self
  · rfl

theorem Path.parse {path : List Char} (h : Path path parts) {tail : List Char}
    (hinput : Mustache.dropDot input = path ++ '\x7d' :: '\x7d' :: tail) :
    parseExpression ('\x7b' :: '\x7b' :: input) = some (.expression parts, tail) := by
  obtain ⟨head, dotted⟩ := h
  next text rest name names =>
    obtain ⟨c, after, hnext, hc⟩ := dotted.next ('\x7d' :: tail)
    have hlength : rest.length ≤ (rest ++ '\x7d' :: '\x7d' :: tail).length := by simp
    rw [parseExpression, hinput, List.append_assoc, hnext, head.parseName hc]
    dsimp only
    rw [← hnext, dotted.parseNames hlength]
    rfl

theorem Tight.parse (h : Tight text parts) (tail : List Char) :
    parseExpression (text ++ tail) = some (.expression parts, tail) := by
  cases h with
  | plain hpath =>
    next path =>
      have hinput : braced path ++ tail = '\x7b' :: '\x7b' :: (path ++ '\x7d' :: '\x7d' :: tail) := by simp [braced]
      rw [hinput]
      exact hpath.parse (hpath.dropDot _)
  | dotted hpath =>
    next path =>
      have hinput : braced ('.' :: path) ++ tail = '\x7b' :: '\x7b' :: '.' :: (path ++ '\x7d' :: '\x7d' :: tail) := by
        simp [braced]
      rw [hinput]
      exact hpath.parse rfl

theorem parseExpression_tight {segment : Segment} (h : parseExpression input = some (segment, rest)) :
    ∃ text parts, segment = .expression parts ∧ input = text ++ rest ∧ Tight text parts := by
  unfold parseExpression at h
  split at h
  next input =>
    split at h
    next name after hname =>
      split at h
      next names rest' hnames =>
        obtain ⟨rfl, rfl⟩ := Prod.mk.inj (Option.some.inj h)
        obtain ⟨text', hafter, hdotted⟩ := parseNames_dotted hnames
        obtain ⟨text, hdrop, hspaced⟩ := parseName_spaced hname
        have hpath : Path (text ++ text') (name :: names) := .mk hspaced hdotted
        unfold Mustache.dropDot at hdrop
        split at hdrop
        · next input =>
          exact ⟨_, _, rfl, by rw [hdrop, hafter]; simp [braced], .dotted hpath⟩
        · exact ⟨_, _, rfl, by rw [hdrop, hafter]; simp [braced], .plain hpath⟩
      · cases h
    · cases h
  · cases h

def dropBlanks : List Char → List Char
  | '\x7b' :: '\x7b' :: input => match input.dropWhile isMultispace with
    | '.' :: rest => '\x7b' :: '\x7b' :: '.' :: rest
    | _ => '\x7b' :: '\x7b' :: input
  | input => input

theorem Placeholder.parse (h : Placeholder text parts) (tail : List Char) :
    parseExpression (dropBlanks (text ++ tail)) = some (.expression parts, tail) := by
  cases h with
  | plain hpath =>
    next path =>
      obtain ⟨before, c, rest, hbefore, hpathEq, hc⟩ := hpath.first
      have hinput : braced path ++ tail = '\x7b' :: '\x7b' :: (path ++ '\x7d' :: '\x7d' :: tail) := by simp [braced]
      have hstart : ∀ d after, c :: (rest ++ '\x7d' :: '\x7d' :: tail) = d :: after → isMultispace d = false := by
        intro d after heq
        exact (List.cons.inj heq).1 ▸ not_isMultispace_of_isAlpha hc
      have hdrop : (path ++ '\x7d' :: '\x7d' :: tail).dropWhile isMultispace =
          c :: (rest ++ '\x7d' :: '\x7d' :: tail) := by
        rw [hpathEq, List.append_assoc]
        exact (run_append hbefore hstart).2
      have hsame : dropBlanks (braced path ++ tail) = braced path ++ tail := by
        rw [hinput, dropBlanks, hdrop]
        split
        · next heq =>
          obtain ⟨rfl, -⟩ := List.cons.inj heq
          cases hc
        · rfl
      rw [hsame]
      exact (Tight.plain hpath).parse tail
  | dotted hbefore hpath =>
    next before path =>
      have hinput : braced (before ++ '.' :: path) ++ tail =
          '\x7b' :: '\x7b' :: (before ++ '.' :: (path ++ '\x7d' :: '\x7d' :: tail)) := by simp [braced]
      have hstart : ∀ d after, '.' :: (path ++ '\x7d' :: '\x7d' :: tail) = d :: after → isMultispace d = false := by
        intro d after heq
        exact (List.cons.inj heq).1 ▸ rfl
      have hdrop : dropBlanks (braced (before ++ '.' :: path) ++ tail) = braced ('.' :: path) ++ tail := by
        rw [hinput, dropBlanks, (run_append hbefore hstart).2]
        simp [braced]
      rw [hdrop]
      exact (Tight.dotted hpath).parse tail

theorem Placeholder.unique {text text' rest rest' : List Char} {parts parts' : List String} (h : Placeholder text parts)
    (h' : Placeholder text' parts') (heq : text ++ rest = text' ++ rest') : parts' = parts ∧ rest' = rest := by
  have hparse := h.parse rest
  rw [heq, h'.parse rest'] at hparse
  obtain ⟨hparts, hrest⟩ := Prod.mk.inj (Option.some.inj hparse)
  exact ⟨Segment.expression.inj hparts, hrest⟩

theorem Placeholder.length (h : Placeholder text parts) : 0 < text.length := by
  cases h <;> simp [braced]

end Grammar

inductive Splits : List Char → List Mark → Prop where
  | nil : Splits [] []
  | placeholder {text rest : List Char} {parts : List String} {marks : List Mark} (head : Placeholder text parts)
      (tail : Splits rest marks) : Splits (text ++ rest) (.expression parts :: marks)
  | char {c : Char} {rest : List Char} {marks : List Mark}
      (head : ∀ text parts, Placeholder text parts → ¬text <+: c :: rest) (tail : Splits rest marks) :
      Splits (c :: rest) (.char c :: marks)

/-- The text in which each placeholder is replaced by the value of its path and nothing else is. -/
def Replaced (ctx : PathContext) (text out : String) : Prop :=
  ∃ marks, Splits text.toList marks ∧ out.toList = marks.flatMap (markText (fillOf ctx))

theorem exists_splits (input : List Char) : ∃ marks, Splits input marks := by
  induction hlength : input.length using Nat.strong_induction_on generalizing input with
  | _ length ih =>
    cases input with
    | nil => exact ⟨[], .nil⟩
    | cons c rest =>
      by_cases hplaceholder : ∃ text parts, Placeholder text parts ∧ text <+: c :: rest
      · obtain ⟨text, parts, hhead, after, hafter⟩ := hplaceholder
        have hshorter : after.length < length := by
          have hpositive := hhead.length
          have htotal := congrArg List.length hafter
          rw [List.length_append] at htotal
          omega
        obtain ⟨marks, hmarks⟩ := ih _ hshorter after rfl
        rw [← hafter]
        exact ⟨_, .placeholder hhead hmarks⟩
      · obtain ⟨marks, hmarks⟩ := ih rest.length (by rw [← hlength]; exact Nat.lt_succ_self _) rest rfl
        exact ⟨_, .char (fun text parts h hprefix => hplaceholder ⟨text, parts, h, hprefix⟩) hmarks⟩

theorem Splits.unique {input : List Char} {marks marks' : List Mark} (h : Splits input marks)
    (h' : Splits input marks') : marks' = marks := by
  induction h generalizing marks' with
  | nil =>
    generalize hinput : ([] : List Char) = input at h'
    cases h' with
    | nil => rfl
    | placeholder head =>
      have hlength := congrArg List.length hinput
      have hpositive := head.length
      rw [List.length_append, List.length_nil] at hlength
      omega
    | char => cases hinput
  | @placeholder text rest parts marks head tail ih =>
    generalize hinput : text ++ rest = input at h'
    cases h' with
    | nil =>
      have hlength := congrArg List.length hinput
      have hpositive := head.length
      rw [List.length_append, List.length_nil] at hlength
      omega
    | placeholder head' tail' =>
      obtain ⟨rfl, rfl⟩ := head.unique head' hinput
      rw [ih tail']
    | char head' => exact absurd ⟨rest, hinput⟩ (head' text parts head)
  | @char c rest marks head tail ih =>
    generalize hinput : c :: rest = input at h'
    cases h' with
    | nil => cases hinput
    | placeholder head' => exact absurd ⟨_, hinput.symm⟩ (head _ _ head')
    | char head' tail' =>
      obtain ⟨rfl, rfl⟩ := List.cons.inj hinput
      rw [ih tail']

theorem opens_of_placeholder {text rest : List Char} {parts : List String} (h : Placeholder text parts) :
    opens (text ++ rest) = true := by
  cases h <;> rfl

theorem splits_of_scans {input : List Char} {marks : List Mark} (h : Scans input marks) : Splits input marks := by
  induction h with
  | nil => exact .nil
  | expression head tail ih =>
    obtain ⟨text, parts, hparts, rfl, htight⟩ := parseExpression_tight head
    obtain rfl := Segment.expression.inj hparts
    exact .placeholder htight.placeholder ih
  | char head tail ih =>
    refine .char (fun text parts hplaceholder hprefix => ?_) ih
    obtain ⟨rest, hrest⟩ := hprefix
    rw [← hrest, opens_of_placeholder hplaceholder] at head
    cases head

section Exactness

/-- A text in which all double braces belong to placeholders without blanks in front of a leading dot. -/
inductive Reads : List Char → List Mark → Prop where
  | nil : Reads [] []
  | placeholder {text rest : List Char} {parts : List String} {marks : List Mark} (head : Tight text parts)
      (tail : Reads rest marks) : Reads (text ++ rest) (.expression parts :: marks)
  | char {c : Char} {rest : List Char} {marks : List Mark} (head : ¬['\x7b', '\x7b'] <+: c :: rest)
      (tail : Reads rest marks) : Reads (c :: rest) (.char c :: marks)

variable {input : List Char}

theorem opens_iff : opens input = true ↔ ['\x7b', '\x7b'] <+: input := by
  constructor
  · intro h
    unfold opens at h
    split at h
    · next rest => exact ⟨rest, rfl⟩
    · cases h
  · rintro ⟨rest, rfl⟩
    rfl

variable {marks : List Mark}

theorem reads_iff : Reads input marks ↔ Scans input marks := by
  constructor
  · intro h
    induction h with
    | nil => exact .nil
    | placeholder head tail ih => exact .expression (head.parse _) ih
    | char head tail ih => exact .char (Bool.eq_false_iff.mpr fun hopens => head (opens_iff.mp hopens)) ih
  · intro h
    induction h with
    | nil => exact .nil
    | expression head tail ih =>
      obtain ⟨text, parts, hparts, rfl, htight⟩ := parseExpression_tight head
      obtain rfl := Segment.expression.inj hparts
      exact .placeholder htight ih
    | char head tail ih => exact .char (fun hprefix => by rw [opens_iff.mpr hprefix] at head; cases head) ih

def NoLoneQuote (marks : List Mark) : Prop :=
  ∀ before after, marks = before ++ .char '"' :: after →
    (∃ c, before.getLast? = some (.char c)) ∨ ∃ c, after.head? = some (.char c)

def NoPlaceholder (input : List Char) : Prop :=
  ∀ text parts, Placeholder text parts → ¬text <:+: input

def Kept (text : String) : Prop :=
  NoPlaceholder text.toList ∧ text ≠ "\"" ∨ ∃ marks, Reads text.toList marks ∧ NoLoneQuote marks

theorem dropLone_sublist (start : Bool) (marks : List Mark) : (dropLone start marks).Sublist marks := by
  induction marks generalizing start with
  | nil => exact .slnil
  | cons mark marks ih =>
    cases mark with
    | expression parts => exact (ih true).cons_cons _
    | char c =>
      rw [dropLone]
      split
      · exact (ih false).cons _
      · exact (ih false).cons_cons _

theorem dropLone_length (fill : List String → List Char) (start : Bool) (marks : List Mark) :
    ((dropLone start marks).flatMap (markText fill)).length + marks.length =
      (marks.flatMap (markText fill)).length + (dropLone start marks).length := by
  induction marks generalizing start with
  | nil => rfl
  | cons mark marks ih =>
    cases mark with
    | expression parts =>
      have htail := ih true
      simp only [dropLone, List.flatMap_cons, List.length_append, List.length_cons]
      omega
    | char c =>
      have htail := ih false
      have hone : (markText fill (.char c)).length = 1 := rfl
      rw [dropLone]
      split
      · simp only [List.flatMap_cons, List.length_append, List.length_cons]
        omega
      · simp only [List.flatMap_cons, List.length_append, List.length_cons]
        omega

theorem dropLone_eq_iff {start : Bool} :
    dropLone start marks = marks ↔ ∀ before after, marks = before ++ .char '"' :: after →
      (start = false ∧ before = []) ∨ (∃ c, before.getLast? = some (.char c)) ∨
        ∃ c, after.head? = some (.char c) := by
  induction marks generalizing start with
  | nil => simp [dropLone]
  | cons mark marks ih =>
    cases mark with
    | expression parts =>
      rw [dropLone, List.cons.injEq, and_iff_right rfl, ih]
      constructor
      · intro h before after heq
        cases before with
        | nil => cases heq
        | cons mark before =>
          obtain ⟨rfl, rfl⟩ := List.cons.inj heq
          rcases h before after rfl with ⟨hfalse, -⟩ | ⟨c, hc⟩ | hc
          · cases hfalse
          · exact .inr (.inl ⟨c, by rw [List.getLast?_cons, hc]; rfl⟩)
          · exact .inr (.inr hc)
      · intro h before after heq
        rcases h (.expression parts :: before) after (by rw [heq]; rfl) with ⟨-, hnil⟩ | ⟨c, hc⟩ | hc
        · cases hnil
        · rw [List.getLast?_cons] at hc
          cases hlast : before.getLast? with
          | none => rw [hlast] at hc; cases hc
          | some mark => rw [hlast] at hc; exact .inr (.inl ⟨c, hc⟩)
        · exact .inr (.inr hc)
    | char c =>
      by_cases hdrop : (start && c == '"' && boundary marks) = true
      · obtain ⟨hleft, hboundary⟩ := Bool.and_eq_true_iff.mp hdrop
        obtain ⟨rfl, hquote⟩ := Bool.and_eq_true_iff.mp hleft
        obtain rfl := beq_iff_eq.mp hquote
        rw [dropLone, if_pos hdrop]
        constructor
        · intro h
          have hlength := (dropLone_sublist false marks).length_le
          rw [h, List.length_cons] at hlength
          omega
        · intro h
          rcases h [] marks rfl with ⟨hfalse, -⟩ | ⟨d, hd⟩ | ⟨d, hd⟩
          · cases hfalse
          · cases hd
          · obtain ⟨rest, rfl⟩ := List.head?_eq_some_iff.mp hd
            cases hboundary
      · rw [dropLone, if_neg hdrop, List.cons.injEq, and_iff_right rfl, ih]
        constructor
        · intro h before after heq
          cases before with
          | nil =>
            obtain ⟨hc, rfl⟩ := List.cons.inj heq
            obtain rfl := Mark.char.inj hc
            cases hstart : start with
            | false => exact .inl ⟨rfl, rfl⟩
            | true =>
              rw [hstart] at hdrop
              rcases marks with _ | ⟨d | parts, marks⟩
              · exact absurd rfl hdrop
              · exact .inr (.inr ⟨d, rfl⟩)
              · exact absurd rfl hdrop
          | cons mark before =>
            obtain ⟨rfl, rfl⟩ := List.cons.inj heq
            rcases h before after rfl with ⟨-, rfl⟩ | ⟨d, hd⟩ | hd
            · exact .inr (.inl ⟨c, rfl⟩)
            · exact .inr (.inl ⟨d, by rw [List.getLast?_cons, hd]; rfl⟩)
            · exact .inr (.inr hd)
        · intro h before after heq
          rcases h (.char c :: before) after (by rw [heq]; rfl) with ⟨-, hnil⟩ | ⟨d, hd⟩ | hd
          · cases hnil
          · rw [List.getLast?_cons] at hd
            cases hlast : before.getLast? with
            | none => exact .inl ⟨rfl, List.getLast?_eq_none_iff.mp hlast⟩
            | some mark => rw [hlast] at hd; exact .inr (.inl ⟨d, hd⟩)
          · exact .inr (.inr hd)

theorem noLoneQuote_iff : NoLoneQuote marks ↔ dropLone true marks = marks := by
  rw [dropLone_eq_iff]
  simp [NoLoneQuote]

theorem noLoneQuote_chars (h : input ≠ ['"']) : NoLoneQuote (input.map .char) := by
  intro before after heq
  obtain ⟨front, back, rfl, rfl, hback⟩ := List.map_eq_append_iff.mp heq
  obtain ⟨c, rest, rfl, hc, rfl⟩ := List.map_eq_cons_iff.mp hback
  obtain rfl := Mark.char.inj hc
  cases hlast : front.getLast? with
  | some d => exact .inl ⟨d, by rw [List.getLast?_map, hlast]; rfl⟩
  | none =>
    obtain rfl := List.getLast?_eq_none_iff.mp hlast
    cases rest with
    | nil => exact absurd rfl h
    | cons d rest => exact .inr ⟨d, rfl⟩

theorem Splits.chars (h : Splits input marks) (hnone : NoPlaceholder input) : marks = input.map .char := by
  induction h with
  | nil => rfl
  | placeholder head => exact absurd (List.prefix_append _ _).isInfix (hnone _ _ head)
  | char head tail ih => rw [ih fun text parts h hinfix => hnone text parts h (List.infix_cons hinfix), List.map_cons]

theorem Splits.length_le (h : Splits input marks) : (marks.flatMap (markText fun _ => [])).length ≤ input.length := by
  induction h with
  | nil => exact Nat.le_refl _
  | @placeholder text rest parts marks head tail ih =>
    have hempty : (markText (fun _ => []) (.expression parts)).length = 0 := rfl
    simp only [List.flatMap_cons, List.length_append]
    omega
  | @char c rest marks head tail ih =>
    have hone : (markText (fun _ => []) (.char c)).length = 1 := rfl
    simp only [List.flatMap_cons, List.length_append, List.length_cons]
    omega

theorem Splits.noPlaceholder (h : Splits input marks)
    (hlength : (marks.flatMap (markText fun _ => [])).length = input.length) : NoPlaceholder input := by
  induction h with
  | nil =>
    intro text parts hplaceholder hinfix
    have hpositive := hplaceholder.length
    rw [List.infix_nil.mp hinfix] at hpositive
    cases hpositive
  | @placeholder text rest parts marks head tail ih =>
    have hpositive := head.length
    have hrest := tail.length_le
    have hempty : (markText (fun _ => []) (.expression parts)).length = 0 := rfl
    simp only [List.flatMap_cons, List.length_append] at hlength
    omega
  | @char c rest marks head tail ih =>
    have hone : (markText (fun _ => []) (.char c)).length = 1 := rfl
    simp only [List.flatMap_cons, List.length_append, List.length_cons] at hlength
    intro text parts hplaceholder hinfix
    rcases List.infix_cons_iff.mp hinfix with hprefix | hinfix
    · exact head text parts hplaceholder hprefix
    · exact ih (by omega) text parts hplaceholder hinfix

variable {text : String}

theorem render_scans (h : Scans text.toList marks) (ctx : PathContext) :
    ((Mustache.parse text).render ctx).toList = (dropLone true marks).flatMap (markText (fillOf ctx)) := by
  rw [toList_render, parse_marks h]

theorem render_not_scans (h : ∀ marks, ¬Scans text.toList marks) (ctx : PathContext) :
    ((Mustache.parse text).render ctx).toList = text.toList := by
  have hrenders : ∀ out, ¬Renders (fillOf ctx) true text.toList out := fun out hout => h _ hout.choose_spec.1
  have hempty : text.toList ≠ [] := fun heq => h [] (heq ▸ .nil)
  have hquote : text.toList ≠ ['"'] := fun heq => h [.char '"'] (heq ▸ .char rfl .nil)
  have hout := render_unsplit hrenders hempty hquote
  rwa [String.ofList_toList] at hout

def absent : PathContext where
  pathString _ := none
  pathGraphql _ := none

theorem fillOf_absent : fillOf absent = fun _ => [] :=
  rfl

theorem replaced_of_kept (h : Kept text) (ctx : PathContext) :
    Replaced ctx text ((Mustache.parse text).render ctx) := by
  rcases h with ⟨hnone, hquote⟩ | ⟨marks, hreads, hlone⟩
  · obtain ⟨marks, hsplits⟩ := exists_splits text.toList
    refine ⟨marks, hsplits, ?_⟩
    obtain rfl := hsplits.chars hnone
    have hchars : (text.toList.map Mark.char).flatMap (markText (fillOf ctx)) = text.toList := by
      rw [List.flatMap_map]
      exact List.flatMap_singleton' _
    by_cases hscans : ∃ marks, Scans text.toList marks
    · obtain ⟨marks, hscans⟩ := hscans
      have hmarks : marks = text.toList.map .char := hsplits.unique (splits_of_scans hscans)
      have hne : text.toList ≠ ['"'] := fun heq => hquote (String.toList_injective heq)
      rw [render_scans hscans, hmarks, noLoneQuote_iff.mp (noLoneQuote_chars hne)]
    · rw [render_not_scans (fun marks hmarks => hscans ⟨marks, hmarks⟩), hchars]
  · have hscans := reads_iff.mp hreads
    refine ⟨marks, splits_of_scans hscans, ?_⟩
    rw [render_scans hscans, noLoneQuote_iff.mp hlone]

theorem kept_of_replaced (h : Replaced absent text ((Mustache.parse text).render absent)) : Kept text := by
  obtain ⟨marks, hsplits, hout⟩ := h
  rw [fillOf_absent] at hout
  by_cases hscans : ∃ marks, Scans text.toList marks
  · obtain ⟨marks', hscans⟩ := hscans
    obtain rfl := hsplits.unique (splits_of_scans hscans)
    rw [render_scans hscans, fillOf_absent] at hout
    have hdropped := dropLone_length (fun _ => []) true marks'
    rw [hout] at hdropped
    have hlength : (dropLone true marks').length = marks'.length := by omega
    exact .inr ⟨marks', reads_iff.mpr hscans, noLoneQuote_iff.mpr ((dropLone_sublist true marks').eq_of_length hlength)⟩
  · have hnone : ∀ marks, ¬Scans text.toList marks := fun marks hmarks => hscans ⟨marks, hmarks⟩
    rw [render_not_scans hnone] at hout
    refine .inl ⟨hsplits.noPlaceholder (by rw [← hout]), ?_⟩
    rintro rfl
    exact hnone [.char '"'] (.char rfl .nil)

/-- Rendering changes nothing but placeholders in exactly these texts. -/
theorem render_exact_iff (text : String) :
    (∀ ctx, Replaced ctx text ((Mustache.parse text).render ctx)) ↔ Kept text :=
  ⟨fun h => kept_of_replaced (h absent), fun h ctx => replaced_of_kept h ctx⟩

def one : PathContext where
  pathString _ := some "1"
  pathGraphql _ := none

theorem unclosed_literal : ¬Replaced one "\x7b\x7b.a\x7d\x7d \x7b\x7b"
    ((Mustache.parse "\x7b\x7b.a\x7d\x7d \x7b\x7b").render one) := by
  rintro ⟨marks, hsplits, hout⟩
  have hname : Spaced ['a'] "a" := @Spaced.mk [] [] [] 'a' (by simp [Blank]) rfl (by simp) (by simp [Blank])
  have hplaceholder : Placeholder ("\x7b\x7b.a\x7d\x7d".toList) ["a"] :=
    @Placeholder.dotted [] _ _ (by simp [Blank]) (.mk hname .nil)
  obtain ⟨rest, hrest⟩ := exists_splits " \x7b\x7b".toList
  obtain rfl := hsplits.unique (.placeholder hplaceholder hrest)
  have hrender : ((Mustache.parse "\x7b\x7b.a\x7d\x7d \x7b\x7b").render one).toList =
      "\x7b\x7b.a\x7d\x7d \x7b\x7b".toList := by decide +kernel
  rw [hrender] at hout
  cases hout

end Exactness

section Printing

def printed (parts : List String) : List Char :=
  (Segment.toString (.expression parts)).toList

theorem printed_eq (parts : List String) : printed parts = braced ('.' :: (".".intercalate parts).toList) := by
  simp [printed, Segment.toString, braced]

theorem Spaced.word {text : List Char} {name : String} (h : Spaced text name) : Spaced name.toList name := by
  obtain ⟨hbefore, hfirst, hword, hafter⟩ := h
  next before after word c =>
    have hspaced := @Spaced.mk [] [] word c (by simp [Blank]) hfirst hword (by simp [Blank])
    rw [List.nil_append, List.append_nil] at hspaced
    rw [String.toList_ofList]
    exact hspaced

theorem intercalate_cons (name other : String) (rest : List String) :
    (".".intercalate (name :: other :: rest)).toList = name.toList ++ '.' :: (".".intercalate (other :: rest)).toList := by
  simp [String.toList_intercalate]

theorem Dotted.path {text : List Char} {names : List String} (h : Dotted text names) {name : String}
    (hname : Spaced name.toList name) : Path (".".intercalate (name :: names)).toList (name :: names) := by
  suffices hdotted : ∃ tail, (".".intercalate (name :: names)).toList = name.toList ++ tail ∧ Dotted tail names by
    obtain ⟨tail, he, htail⟩ := hdotted
    rw [he]
    exact .mk hname htail
  induction h generalizing name with
  | nil => exact ⟨[], by simp, .nil⟩
  | @cons text rest other names head _ ih =>
    obtain ⟨tail, he, htail⟩ := ih head.word
    exact ⟨_, intercalate_cons name other names, he ▸ .cons head.word htail⟩

theorem Tight.printed {text : List Char} {parts : List String} (h : Tight text parts) : Tight (printed parts) parts := by
  have hpath {path : List Char} (h : Path path parts) : Tight (Placeholders.printed parts) parts := by
    obtain ⟨head, tail⟩ := h
    rw [printed_eq]
    exact .dotted (tail.path head.word)
  cases h with
  | plain h => exact hpath h
  | dotted h => exact hpath h

def Prints (marks : List Mark) : List Char :=
  marks.flatMap (markText Placeholders.printed)

theorem boundary_dropLone (marks : List Mark) : boundary (dropLone false marks) = boundary marks := by
  rcases marks with _ | ⟨_ | _, marks⟩ <;> rfl

theorem dropLone_dropLone (start : Bool) (marks : List Mark) :
    dropLone start (dropLone start marks) = dropLone start marks := by
  induction marks generalizing start with
  | nil => rfl
  | cons mark marks ih =>
    cases mark with
    | expression parts => exact congrArg (.expression parts :: ·) (ih true)
    | char c =>
      rw [dropLone]
      split
      next hdrop =>
        simp only [Bool.and_eq_true] at hdrop
        rw [dropLone_boundary hdrop.2, hdrop.1.1]
        exact ih true
      next hkeep =>
        rw [dropLone, boundary_dropLone, if_neg hkeep, ih]

variable {input : List Char} {marks : List Mark}

theorem opens_prints {c : Char} (h : Scans input marks)
    (hopens : opens (c :: input) = false) : opens (c :: Prints (dropLone false marks)) = false := by
  refine opens_eq_false fun tail hc he => ?_
  cases h with
  | nil => cases he
  | expression head tail =>
    obtain ⟨rest, hrest⟩ := opens_iff.mp (parseExpression_opens head)
    rw [hc, ← hrest] at hopens
    cases hopens
  | @char d rest marks head tail =>
    rw [dropLone_char (.inl rfl)] at he
    obtain ⟨hd, _⟩ := List.cons.inj he
    rw [hc, hd] at hopens
    cases hopens

theorem scans_prints (h : Scans input marks) (start : Bool) :
    Scans (Prints (dropLone start marks)) (dropLone start marks) := by
  induction h generalizing start with
  | nil => exact .nil
  | expression head _ ih =>
    obtain ⟨text, parts, hparts, rfl, htight⟩ := parseExpression_tight head
    obtain rfl := Segment.expression.inj hparts
    exact .expression (htight.printed.parse _) (ih true)
  | char head tail ih =>
    rw [dropLone]
    split
    · exact ih false
    · exact .char (opens_prints tail head) (ih false)

inductive Normal : List Segment → Prop where
  | nil : Normal []
  | expression {parts : List String} {rest : List Segment} : Normal rest → Normal (.expression parts :: rest)
  | literal {text : String} {rest : List Segment} : text ≠ "" → boundary (rest.flatMap marksOf) = true → Normal rest →
      Normal (.literal text :: rest)

theorem literal_unique {text text' : List Char} {marks' : List Mark} (h : boundary marks = true)
    (h' : boundary marks' = true) (he : text.map .char ++ marks = text'.map .char ++ marks') :
    text = text' ∧ marks = marks' := by
  induction text generalizing text' with
  | nil =>
    cases text' with
    | nil => exact ⟨rfl, he⟩
    | cons c text' =>
      rw [List.map_nil, List.nil_append] at he
      rw [he] at h
      cases h
  | cons c text ih =>
    cases text' with
    | nil =>
      rw [List.map_nil, List.nil_append] at he
      rw [← he] at h'
      cases h'
    | cons c' text' =>
      obtain ⟨hc, hrest⟩ := List.cons.inj he
      obtain ⟨rfl, hmarks⟩ := ih hrest
      exact ⟨by rw [Mark.char.inj hc], hmarks⟩

theorem Normal.unique {segments segments' : List Segment} (h : Normal segments) (h' : Normal segments')
    (he : segments.flatMap marksOf = segments'.flatMap marksOf) : segments = segments' := by
  have hfirst {text : String} (hne : text ≠ "") : ∃ c rest, text.toList = c :: rest :=
    List.exists_cons_of_ne_nil fun hnil => hne (String.toList_eq_nil_iff.mp hnil)
  induction h generalizing segments' with
  | nil =>
    cases h' with
    | nil => rfl
    | expression => cases he
    | literal hne =>
      obtain ⟨c, rest, htext⟩ := hfirst hne
      rw [List.flatMap_cons, marksOf, htext] at he
      cases he
  | expression _ ih =>
    cases h' with
    | nil => cases he
    | expression h' =>
      obtain ⟨hparts, hrest⟩ := List.cons.inj he
      rw [Mark.expression.inj hparts, ih h' hrest]
    | literal hne =>
      obtain ⟨c, rest, htext⟩ := hfirst hne
      rw [List.flatMap_cons, List.flatMap_cons, marksOf, marksOf, htext] at he
      cases he
  | literal hne hboundary _ ih =>
    obtain ⟨c, rest, htext⟩ := hfirst hne
    cases h' with
    | nil =>
      rw [List.flatMap_cons, marksOf, htext] at he
      cases he
    | expression =>
      rw [List.flatMap_cons, List.flatMap_cons, marksOf, marksOf, htext] at he
      cases he
    | literal _ hboundary' h' =>
      obtain ⟨hsame, hrest⟩ := literal_unique hboundary hboundary' he
      rw [String.toList_inj.mp hsame, ih h' hrest]

theorem boundary_kept {fuel : ℕ} {remaining : List Char} {segments : List Segment} (hfuel : input.length < fuel)
    (h : parseMany fuel input = some (segments, remaining)) (hopens : opens input = true) :
    boundary (((segments ++ [Segment.literal (String.ofList remaining)]).filter isKept).flatMap marksOf) = true := by
  have hscans := (parseMany_scans hfuel _).mpr ⟨segments, remaining, h, rfl⟩
  have hboundary := boundary_of_opens hscans hopens
  rw [parseMany_kept hfuel h, ← @dropLone_boundary false _ hboundary, boundary_dropLone, hboundary]

theorem normal_literal (text : List Char) {rest : List Segment} (hboundary : boundary (rest.flatMap marksOf) = true)
    (h : Normal rest) : Normal ([Segment.literal (String.ofList text)].filter isKept ++ rest) := by
  cases hkept : isKept (.literal (String.ofList text)) with
  | false =>
    rw [List.filter_cons, hkept]
    exact h
  | true =>
    rw [List.filter_cons, hkept]
    refine .literal (fun hempty => ?_) hboundary h
    rw [hempty] at hkept
    cases hkept

theorem parseMany_normal {fuel : ℕ} {remaining : List Char} {segments : List Segment}
    (hfuel : input.length < fuel) (h : parseMany fuel input = some (segments, remaining)) :
    Normal ((segments ++ [Segment.literal (String.ofList remaining)]).filter isKept) := by
  induction fuel generalizing input segments with
  | zero => omega
  | succ fuel ih =>
    rcases parseMany_cases hfuel h with ⟨parts, rest, segments', hlength, hmany, rfl⟩ |
      ⟨text, rest, segments', hlength, hmany, rfl, hopens, rfl⟩ | ⟨rfl, rfl⟩
    · exact .expression (ih hlength hmany)
    · have hnormal := normal_literal text (boundary_kept hlength hmany hopens) (ih hlength hmany)
      rw [← List.filter_append] at hnormal
      exact hnormal
    · have hnormal := normal_literal remaining rfl .nil
      rw [List.append_nil] at hnormal
      exact hnormal

theorem parse_normal {text : String} (h : Scans text.toList marks) : Normal (Mustache.parse text).segments := by
  have hfuel : text.toList.length < text.length + 1 := by rw [String.length_toList]; exact Nat.lt_succ_self _
  obtain ⟨segments, remaining, hmany, rfl⟩ := (parseMany_scans hfuel marks).mp h
  have hnormal := parseMany_normal hfuel hmany
  rw [parse_segments, parseSegments, hmany]
  rcases remaining with _ | ⟨c, remaining⟩
  · rw [List.filter_append] at hnormal
    change Normal (segments.filter isKept ++ []) at hnormal
    rw [List.append_nil] at hnormal
    exact hnormal
  · exact hnormal

theorem toList_toString (template : Mustache) :
    template.toString.toList = Prints (template.segments.flatMap marksOf) := by
  rw [Mustache.toString, String.toList_join, List.flatMap_map, Prints, List.flatMap_assoc]
  refine List.flatMap_congr fun segment _ => ?_
  cases segment with
  | literal text =>
    rw [marksOf, List.flatMap_map]
    exact (List.flatMap_singleton' _).symm
  | expression parts => simp [marksOf, markText, Placeholders.printed]

/-- What is printed is parsed as what it was printed from. -/
theorem parse_toString (text : String) : Mustache.parse (Mustache.parse text).toString = Mustache.parse text := by
  by_cases hscans : ∃ marks, Scans text.toList marks
  · obtain ⟨marks, hscans⟩ := hscans
    have hprinted : Scans (Mustache.parse text).toString.toList (dropLone true marks) := by
      rw [toList_toString, parse_marks hscans]
      exact scans_prints hscans true
    have hsegments := (parse_normal hprinted).unique (parse_normal hscans)
      (by rw [parse_marks hprinted, parse_marks hscans, dropLone_dropLone])
    exact congrArg Mustache.mk hsegments
  · have hnone : ∀ marks, ¬Scans text.toList marks := fun marks hmarks => hscans ⟨marks, hmarks⟩
    have hkept : isKept (.literal text) = true := by
      have hempty : text ≠ "" := by
        rintro rfl
        exact hnone [] .nil
      have hquote : text ≠ "\"" := by
        rintro rfl
        exact hnone [.char '"'] (.char rfl .nil)
      simp [isKept, hempty, hquote]
    have hsame : (Mustache.parse text).toString = text := by
      rw [Mustache.toString, parse_segments, parseSegments_of_not_scans hnone, List.filter_cons, if_pos hkept]
      simp [Segment.toString]
    rw [hsame]

end Printing

end Gqlforge.Placeholders
