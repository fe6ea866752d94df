import Gqlforge.JsonTrees
import Gqlforge.TemplatePaths
import Gqlforge.RelatedLists
import Mathlib.Data.List.TakeWhile

namespace Gqlforge.TemplateMarks

open Templates Mustache JsonTexts
open scoped RelatedLists

section Locality

def isExpressionChar (c : Char) : Bool :=
  isNameChar c || isMultispace c || c == '.' || c == '\x7b' || c == '\x7d'

theorem isMultispace_not_name {c : Char} (h : isMultispace c = true) : isNameChar c = false := by
  simp only [isMultispace, Bool.or_eq_true, beq_iff_eq] at h
  rcases h with ((rfl | rfl) | rfl) | rfl <;> decide

variable {input rest : List Char}

theorem head_dropWhile {p : Char → Bool} {c : Char} (h : input.dropWhile p = c :: rest) : p c = false := by
  have hhead := List.head?_dropWhile_not p input
  rw [h] at hhead
  exact hhead

theorem parseName_local {name : String} {c : Char}
    (h : parseName input = some (name, c :: rest)) : ∃ used, input = used ++ c :: rest ∧
      (∀ d ∈ used, isExpressionChar d = true) ∧ ∀ rest', parseName (used ++ c :: rest') = some (name, c :: rest') := by
  unfold parseName at h
  split at h
  · cases h
  next first tail hfirst =>
    split at h
    next halpha =>
      obtain ⟨rfl, hrest⟩ := Prod.mk.inj (Option.some.inj h)
      generalize hword : (first :: tail).takeWhile isNameChar = word
      generalize hafter : (first :: tail).dropWhile isNameChar = after at hrest
      have hinput : input = input.takeWhile isMultispace ++ (word ++ (after.takeWhile isMultispace ++ c :: rest)) := by
        rw [← hrest, List.takeWhile_append_dropWhile, ← hword, ← hafter, List.takeWhile_append_dropWhile, ← hfirst,
          List.takeWhile_append_dropWhile]
      have hspacesAll : ∀ d ∈ input.takeWhile isMultispace, isMultispace d = true :=
        fun d hd => List.mem_takeWhile_imp hd
      have hwordAll : ∀ d ∈ word, isNameChar d = true := hword ▸ fun d hd => List.mem_takeWhile_imp hd
      have hmoreAll : ∀ d ∈ after.takeWhile isMultispace, isMultispace d = true :=
        fun d hd => List.mem_takeWhile_imp hd
      have hname : isNameChar first = true := by
        rw [isNameChar, Char.isAlphanum, halpha]
        rfl
      obtain ⟨word', rfl⟩ : ∃ word', word = first :: word' := by
        rw [List.takeWhile_cons_of_pos hname] at hword
        exact ⟨_, hword.symm⟩
      generalize input.takeWhile isMultispace = spaces at hinput hspacesAll
      generalize hmore : after.takeWhile isMultispace = more at hinput hmoreAll
      refine ⟨spaces ++ ((first :: word') ++ more), by rw [hinput]; simp, ?_, fun rest' => ?_⟩
      · intro d hd
        rcases List.mem_append.mp hd with hd | hd
        · simp [isExpressionChar, hspacesAll d hd]
        rcases List.mem_append.mp hd with hd | hd
        · simp [isExpressionChar, hwordAll d hd]
        · simp [isExpressionChar, hmoreAll d hd]
      · have hspace : isMultispace first = false := by
          cases hs : isMultispace first with
          | false => rfl
          | true => rw [isMultispace_not_name hs] at hname; cases hname
        have hstart : ∀ d tail', (first :: word') ++ (more ++ c :: rest') = d :: tail' → isMultispace d = false := by
          intro d tail' heq
          exact (List.cons.inj heq).1 ▸ hspace
        have hstop : ∀ d tail', more ++ c :: rest' = d :: tail' → isNameChar d = false := by
          intro d tail' heq
          cases more with
          | nil =>
            -- No space has been skipped, so that the name has ended at the character itself.
            have hc : after = c :: rest := by
              have hsplit : after.takeWhile isMultispace ++ after.dropWhile isMultispace = after :=
                List.takeWhile_append_dropWhile
              rw [← hsplit, hmore, hrest]
              rfl
            exact (List.cons.inj heq).1 ▸ head_dropWhile (hafter.trans hc)
          | cons space more' =>
            exact (List.cons.inj heq).1 ▸ isMultispace_not_name (hmoreAll space List.mem_cons_self)
        have hlast : ∀ d tail', c :: rest' = d :: tail' → isMultispace d = false := by
          intro d tail' heq
          exact (List.cons.inj heq).1 ▸ head_dropWhile hrest
        have hdrop : (spaces ++ ((first :: word') ++ more) ++ c :: rest').dropWhile isMultispace =
            first :: (word' ++ (more ++ c :: rest')) := by
          rw [List.append_assoc, List.append_assoc, (run_append hspacesAll hstart).2]
          rfl
        have hrun := run_append hwordAll hstop
        have hnext : first :: (word' ++ (more ++ c :: rest')) = (first :: word') ++ (more ++ c :: rest') := rfl
        unfold parseName
        rw [hdrop]
        dsimp only
        rw [if_pos halpha, hnext, hrun.1, hrun.2, (run_append hmoreAll hlast).2]
    · cases h

theorem parseNames_local {fuel : ℕ} {names : List String}
    (h : parseNames fuel input = (names, '\x7d' :: rest)) : ∃ used, input = used ++ '\x7d' :: rest ∧
      (∀ d ∈ used, isExpressionChar d = true) ∧ ∀ fuel' rest', used.length ≤ fuel' →
        parseNames fuel' (used ++ '\x7d' :: rest') = (names, '\x7d' :: rest') := by
  fun_induction parseNames fuel input generalizing names rest with
  | case1 fuel input name after hname names' after' hrest ih =>
    obtain ⟨rfl, rfl⟩ := Prod.mk.inj h
    obtain ⟨used, rfl, hused, hlocal⟩ := ih hrest
    obtain ⟨c, front, hfront⟩ : ∃ c front, ∀ rest', used ++ '\x7d' :: rest' = c :: (front ++ rest') := by
      cases used with
      | nil => exact ⟨_, [], fun rest' => rfl⟩
      | cons d used => exact ⟨d, used ++ ['\x7d'], fun rest' => by simp⟩
    rw [hfront] at hname
    obtain ⟨read, hread, hreadAll, hnameLocal⟩ := parseName_local hname
    refine ⟨'.' :: (read ++ used), by rw [hread, ← hfront]; simp, ?_, fun fuel' rest' hfuel => ?_⟩
    · intro d hd
      rcases List.mem_cons.mp hd with rfl | hd
      · decide
      · exact (List.mem_append.mp hd).elim (hreadAll d) (hused d)
    · obtain ⟨fuel', rfl⟩ := Nat.exists_eq_add_of_le' (Nat.le_trans (Nat.succ_pos _) hfuel)
      have hnext : '.' :: (read ++ used) ++ '\x7d' :: rest' = '.' :: (read ++ c :: (front ++ rest')) := by
        rw [← hfront]
        simp
      have hlength : used.length ≤ fuel' := by
        simp only [List.length_cons, List.length_append] at hfuel
        omega
      rw [hnext, parseNames, hnameLocal]
      dsimp only
      rw [← hfront, hlocal fuel' rest' hlength]
  | case2 => cases h
  | case3 =>
    obtain ⟨rfl, rfl⟩ := Prod.mk.inj h
    refine ⟨[], rfl, by simp, fun fuel' rest' _ => ?_⟩
    cases fuel' <;> rfl

theorem parseExpression_local {segment : Segment}
    (h : parseExpression input = some (segment, rest)) : ∃ used parts, input = '\x7b' :: '\x7b' :: used ++ rest ∧
      segment = .expression parts ∧ (∀ d ∈ used, isExpressionChar d = true) ∧
      (∃ front, used = front ++ ['\x7d']) ∧
      ∀ rest', parseExpression ('\x7b' :: '\x7b' :: used ++ rest') = some (segment, rest') := by
  unfold parseExpression at h
  split at h
  · next input =>
    split at h
    · next name after hname =>
      split at h
      · next names rest'' hnames =>
        obtain ⟨rfl, rfl⟩ := Prod.mk.inj (Option.some.inj h)
        obtain ⟨used, rfl, hused, hlocal⟩ := parseNames_local hnames
        obtain ⟨c, front, hfront⟩ : ∃ c front, ∀ rest', used ++ '\x7d' :: rest' = c :: (front ++ rest') := by
          cases used with
          | nil => exact ⟨_, [], fun rest' => rfl⟩
          | cons d used => exact ⟨d, used ++ ['\x7d'], fun rest' => by simp⟩
        rw [hfront] at hname
        obtain ⟨read, hread, hreadAll, hnameLocal⟩ := parseName_local hname
        obtain ⟨dot, hdot, hdotAll, hdrop⟩ : ∃ dot, input = dot ++ (read ++ c :: (front ++ '\x7d' :: rest'')) ∧
            (∀ d ∈ dot, isExpressionChar d = true) ∧
            ∀ tail, dropDot (dot ++ (read ++ c :: tail)) = read ++ c :: tail := by
          unfold dropDot at hread
          split at hread
          · next input =>
            exact ⟨['.'], by rw [hread]; rfl, by decide, fun tail => rfl⟩
          · next hne =>
            refine ⟨[], hread, by simp, fun tail => ?_⟩
            unfold dropDot
            split
            · next input heq =>
              cases read with
              | nil =>
                obtain ⟨rfl, -⟩ := List.cons.inj heq
                exact absurd hread (hne _)
              | cons d read =>
                obtain ⟨rfl, -⟩ := List.cons.inj heq
                exact absurd hread (hne _)
            · rfl
        refine ⟨dot ++ (read ++ (used ++ ['\x7d', '\x7d'])), name :: names, ?_, rfl, ?_,
          ⟨dot ++ (read ++ (used ++ ['\x7d'])), by simp⟩, fun rest' => ?_⟩
        · rw [hdot, ← hfront]
          simp
        · intro d hd
          simp only [List.mem_append, List.mem_cons, List.not_mem_nil, or_false, or_self] at hd
          rcases hd with hd | hd | hd | rfl
          · exact hdotAll d hd
          · exact hreadAll d hd
          · exact hused d hd
          · decide
        · have hnext : '\x7b' :: '\x7b' :: (dot ++ (read ++ (used ++ ['\x7d', '\x7d']))) ++ rest' =
              '\x7b' :: '\x7b' :: (dot ++ (read ++ c :: (front ++ '\x7d' :: rest'))) := by
            rw [← hfront]
            simp
          have hlength : used.length ≤ (used ++ '\x7d' :: '\x7d' :: rest').length := by simp
          rw [hnext, parseExpression, hdrop, hnameLocal]
          dsimp only
          rw [← hfront, hlocal _ _ hlength]
          rfl
      · cases h
    · cases h
  · cases h

end Locality

section Scanning

inductive Mark where
  | char (c : Char)
  | expression (parts : List String)
  deriving DecidableEq

def opens : List Char → Bool
  | '\x7b' :: '\x7b' :: _ => true
  | _ => false

inductive Scans : List Char → List Mark → Prop where
  | nil : Scans [] []
  | expression {input rest : List Char} {parts : List String} {marks : List Mark}
      (head : parseExpression input = some (.expression parts, rest)) (tail : Scans rest marks) :
      Scans input (.expression parts :: marks)
  | char {c : Char} {rest : List Char} {marks : List Mark} (head : opens (c :: rest) = false)
      (tail : Scans rest marks) : Scans (c :: rest) (.char c :: marks)

def marksOf : Segment → List Mark
  | .literal text => text.toList.map .char
  | .expression parts => [.expression parts]

variable {input rest : List Char}

theorem parseExpression_opens {segment : Segment}
    (h : parseExpression input = some (segment, rest)) : opens input = true := by
  obtain ⟨used, parts, rfl, -⟩ := parseExpression_local h
  rfl

theorem opens_eq_false {c : Char} (h : ∀ tail, c = '\x7b' → rest = '\x7b' :: tail → False) :
    opens (c :: rest) = false := by
  unfold opens
  split
  · next heq =>
    obtain ⟨hc, hrest⟩ := List.cons.inj heq
    exact absurd hrest (h _ hc)
  · rfl

theorem scans_cons {c : Char} (h : opens (c :: rest) = false) (marks : List Mark) :
    Scans (c :: rest) marks ↔ ∃ marks', Scans rest marks' ∧ marks = .char c :: marks' := by
  constructor
  · rintro (_ | ⟨head, _⟩ | ⟨_, tail⟩)
    · rw [parseExpression_opens head] at h
      cases h
    · exact ⟨_, tail, rfl⟩
  · rintro ⟨marks', htail, rfl⟩
    exact .char h htail

theorem scans_expression {parts : List String} (h : parseExpression input = some (.expression parts, rest))
    (marks : List Mark) : Scans input marks ↔ ∃ marks', Scans rest marks' ∧ marks = .expression parts :: marks' := by
  constructor
  · intro hscans
    cases hscans with
    | nil => cases h
    | expression head tail =>
      obtain ⟨hparts, rfl⟩ := Prod.mk.inj (Option.some.inj (h.symm.trans head))
      obtain rfl := Segment.expression.inj hparts
      exact ⟨_, tail, rfl⟩
    | char head tail =>
      rw [parseExpression_opens h] at head
      cases head
  · rintro ⟨marks', htail, rfl⟩
    exact .expression h htail

theorem Scans.unique {input : List Char} {marks marks' : List Mark} (h : Scans input marks)
    (h' : Scans input marks') : marks' = marks := by
  induction h generalizing marks' with
  | nil =>
    cases h' with
    | nil => rfl
    | expression head => cases head
  | expression head tail ih =>
    obtain ⟨marks'', htail, rfl⟩ := (scans_expression head marks').mp h'
    rw [ih htail]
  | char head tail ih =>
    obtain ⟨marks'', htail, rfl⟩ := (scans_cons head marks').mp h'
    rw [ih htail]

theorem takeUntilBraces_none (h : takeUntilBraces input = none) : Scans input (input.map .char) := by
  fun_induction takeUntilBraces input with
  | case1 => exact .nil
  | case2 => cases h
  | case3 c rest hbraces ih =>
    exact .char (opens_eq_false hbraces) (ih (Option.map_eq_none_iff.mp h))

theorem takeUntilBraces_some {text : List Char} (h : takeUntilBraces input = some (text, rest)) :
    input = text ++ rest ∧ opens rest = true ∧
      ∀ marks, Scans input marks ↔ ∃ marks', Scans rest marks' ∧ marks = text.map .char ++ marks' := by
  fun_induction takeUntilBraces input generalizing text rest with
  | case1 => cases h
  | case2 tail =>
    obtain ⟨rfl, rfl⟩ := Prod.mk.inj (Option.some.inj h)
    exact ⟨rfl, rfl, fun marks => by simp⟩
  | case3 c tail hbraces ih =>
    obtain ⟨⟨text', rest'⟩, htail, heq⟩ := Option.map_eq_some_iff.mp h
    obtain ⟨rfl, rfl⟩ := Prod.mk.inj heq
    obtain ⟨rfl, hopens, hscans⟩ := ih htail
    have hclosed : opens (c :: (text' ++ rest')) = false := opens_eq_false hbraces
    refine ⟨rfl, hopens, fun marks => ?_⟩
    rw [scans_cons hclosed]
    constructor
    · rintro ⟨marks', htail, rfl⟩
      obtain ⟨marks'', hrest, rfl⟩ := (hscans marks').mp htail
      exact ⟨marks'', hrest, rfl⟩
    · rintro ⟨marks'', hrest, rfl⟩
      exact ⟨_, (hscans _).mpr ⟨marks'', hrest, rfl⟩, rfl⟩

theorem not_scans (hopens : opens input = true) (h : parseExpression input = none)
    (marks : List Mark) : ¬Scans input marks := by
  rintro (_ | ⟨head, -⟩ | ⟨head, -⟩)
  · cases hopens
  · rw [head] at h
    cases h
  · rw [hopens] at head
    cases head

theorem parseMany_scans {fuel : ℕ} (hfuel : input.length < fuel) (marks : List Mark) :
    Scans input marks ↔ ∃ segments remaining, parseMany fuel input = some (segments, remaining) ∧
      marks = segments.flatMap marksOf ++ remaining.map .char := by
  induction fuel generalizing input marks with
  | zero => omega
  | succ fuel ih =>
    rw [parseMany]
    cases hexpression : parseExpression input with
    | some p =>
      obtain ⟨segment, rest⟩ := p
      obtain ⟨used, parts, rfl, rfl, -⟩ := parseExpression_local hexpression
      rw [scans_expression hexpression]
      dsimp only
      have hlength : rest.length < fuel := by
        simp only [List.length_append, List.length_cons] at hfuel
        omega
      constructor
      · rintro ⟨marks', hscans, rfl⟩
        obtain ⟨segments, remaining, hmany, rfl⟩ := (ih hlength marks').mp hscans
        exact ⟨_, remaining, by rw [hmany]; rfl, rfl⟩
      · rintro ⟨segments, remaining, hmapped, rfl⟩
        obtain ⟨⟨segments', remaining'⟩, hmany, heq⟩ := Option.map_eq_some_iff.mp hmapped
        obtain ⟨rfl, rfl⟩ := Prod.mk.inj heq
        exact ⟨_, (ih hlength _).mpr ⟨segments', remaining', hmany, rfl⟩, rfl⟩
    | none =>
      cases htake : takeUntilBraces input with
      | none =>
        have hscans := takeUntilBraces_none htake
        constructor
        · intro h
          exact ⟨[], input, rfl, hscans.unique h⟩
        · rintro ⟨segments, remaining, hmany, rfl⟩
          obtain ⟨rfl, rfl⟩ := Prod.mk.inj (Option.some.inj hmany)
          exact hscans
      | some p =>
        obtain ⟨text, rest⟩ := p
        obtain ⟨rfl, hopens, hscans⟩ := takeUntilBraces_some htake
        cases text with
        | nil =>
          constructor
          · exact fun h => absurd h (not_scans hopens hexpression marks)
          · rintro ⟨segments, remaining, hmany, -⟩
            cases hmany
        | cons c text =>
          rw [hscans]
          dsimp only
          have hlength : rest.length < fuel := by
            simp only [List.length_append, List.length_cons] at hfuel
            omega
          have htext : marksOf (.literal (String.ofList (c :: text))) = (c :: text).map .char := by
            rw [marksOf, String.toList_ofList]
          constructor
          · rintro ⟨marks', hrest, rfl⟩
            obtain ⟨segments, remaining, hmany, rfl⟩ := (ih hlength marks').mp hrest
            refine ⟨.literal (String.ofList (c :: text)) :: segments, remaining, ?_, ?_⟩
            · rw [hmany]
              rfl
            · rw [List.flatMap_cons, htext, List.append_assoc]
          · rintro ⟨segments, remaining, hmapped, rfl⟩
            obtain ⟨⟨segments', remaining'⟩, hmany, heq⟩ := Option.map_eq_some_iff.mp hmapped
            obtain ⟨rfl, rfl⟩ := Prod.mk.inj heq
            exact ⟨_, (ih hlength _).mpr ⟨segments', remaining', hmany, rfl⟩, by
              rw [List.flatMap_cons, htext, List.append_assoc]⟩

theorem parseSegments_scans {text : String} {marks : List Mark} (h : Scans text.toList marks) :
    (parseSegments text).flatMap marksOf = marks := by
  have hfuel : text.toList.length < text.length + 1 := by rw [String.length_toList]; exact Nat.lt_succ_self _
  obtain ⟨segments, remaining, hmany, rfl⟩ := (parseMany_scans hfuel marks).mp h
  rw [parseSegments, hmany]
  cases remaining with
  | nil => simp
  | cons c remaining => simp [marksOf]

theorem parseSegments_of_not_scans {text : String} (h : ∀ marks, ¬Scans text.toList marks) :
    parseSegments text = [.literal text] := by
  have hfuel : text.toList.length < text.length + 1 := by rw [String.length_toList]; exact Nat.lt_succ_self _
  rw [parseSegments]
  cases hmany : parseMany (text.length + 1) text.toList with
  | none => rfl
  | some p => exact absurd ((parseMany_scans hfuel _).mpr ⟨p.1, p.2, hmany, rfl⟩) (h _)

end Scanning

def boundary : List Mark → Bool
  | .char _ :: _ => false
  | _ => true

def dropLone : Bool → List Mark → List Mark
  | _, [] => []
  | _, .expression parts :: rest => .expression parts :: dropLone true rest
  | start, .char c :: rest =>
    if start && c == '"' && boundary rest then dropLone false rest else .char c :: dropLone false rest

theorem dropLone_char {start : Bool} {c : Char} {rest : List Mark}
    (h : start = false ∨ c ≠ '"' ∨ boundary rest = false) :
    dropLone start (.char c :: rest) = .char c :: dropLone false rest := by
  have hkeep : ¬(start && c == '"' && boundary rest) = true := by
    rcases h with h | h | h <;> simp [h]
  rw [dropLone, if_neg hkeep]

theorem dropLone_boundary {start : Bool} {marks : List Mark} (h : boundary marks = true) :
    dropLone start marks = dropLone true marks := by
  rcases marks with _ | ⟨_ | _, marks⟩
  · rfl
  · cases h
  · rfl

theorem dropLone_chars (text : List Char) (marks : List Mark) :
    dropLone false (text.map .char ++ marks) = text.map .char ++ dropLone false marks := by
  induction text with
  | nil => rfl
  | cons c text ih =>
    rw [List.map_cons, List.cons_append, dropLone_char (.inl rfl), ih]
    rfl

def isKept : Segment → Bool
  | .literal text => !text.isEmpty && text != "\""
  | .expression _ => true

theorem parse_segments (text : String) : (Mustache.parse text).segments = (parseSegments text).filter isKept := by
  rw [Mustache.parse]
  congr 1

theorem dropLone_literal (text : List Char) {marks : List Mark} (h : boundary marks = true) :
    dropLone true (text.map .char ++ marks) =
      ([Segment.literal (String.ofList text)].filter isKept).flatMap marksOf ++ dropLone true marks := by
  have hmarks : marksOf (.literal (String.ofList text)) = text.map .char := by rw [marksOf, String.toList_ofList]
  rcases text with _ | ⟨c, text⟩
  · rfl
  by_cases hlone : c = '"' ∧ text = []
  · obtain ⟨rfl, rfl⟩ := hlone
    change (if (true && '"' == '"' && boundary marks) = true then dropLone false marks else _) = dropLone true marks
    rw [h, dropLone_boundary h]
    rfl
  · have hkept : isKept (.literal (String.ofList (c :: text))) = true := by
      have hne : String.ofList (c :: text) ≠ "\"" := by
        intro heq
        have hlist := congrArg String.toList heq
        rw [String.toList_ofList] at hlist
        exact hlone (List.cons.inj hlist)
      have hnonempty : (String.ofList (c :: text)).isEmpty = false := by simp
      rw [isKept, hnonempty]
      simpa using hne
    have hfirst : c ≠ '"' ∨ boundary (text.map .char ++ marks) = false := by
      rcases text with _ | ⟨d, text⟩
      · exact .inl fun hc => hlone ⟨hc, rfl⟩
      · exact .inr rfl
    rw [List.filter_cons, hkept, if_pos rfl, List.filter_nil, List.flatMap_cons, hmarks, List.flatMap_nil,
      List.append_nil, List.map_cons, List.cons_append, dropLone_char (.inr hfirst), dropLone_chars,
      dropLone_boundary h]
    rfl

theorem boundary_of_opens {input : List Char} {marks : List Mark} (h : Scans input marks) (hopens : opens input = true) :
    boundary marks = true := by
  cases h with
  | nil => rfl
  | expression => rfl
  | char head =>
    rw [hopens] at head
    cases head

theorem parseMany_cases {fuel : ℕ} {input remaining : List Char} {segments : List Segment}
    (hfuel : input.length < fuel + 1) (h : parseMany (fuel + 1) input = some (segments, remaining)) :
    (∃ parts rest segments', rest.length < fuel ∧ parseMany fuel rest = some (segments', remaining) ∧
      segments = .expression parts :: segments') ∨
    (∃ text rest segments', rest.length < fuel ∧ parseMany fuel rest = some (segments', remaining) ∧
      input = text ++ rest ∧ opens rest = true ∧ segments = .literal (String.ofList text) :: segments') ∨
    segments = [] ∧ remaining = input := by
  rw [parseMany] at h
  split at h
  · next segment rest hexpression =>
    obtain ⟨used, parts, rfl, rfl, -⟩ := parseExpression_local hexpression
    obtain ⟨⟨segments', remaining'⟩, hmany, heq⟩ := Option.map_eq_some_iff.mp h
    obtain ⟨rfl, rfl⟩ := Prod.mk.inj heq
    refine .inl ⟨parts, rest, segments', ?_, hmany, rfl⟩
    simp only [List.length_append, List.length_cons] at hfuel
    omega
  · split at h
    · cases h
    · next text rest hnonempty htake =>
      obtain ⟨⟨segments', remaining'⟩, hmany, heq⟩ := Option.map_eq_some_iff.mp h
      obtain ⟨rfl, rfl⟩ := Prod.mk.inj heq
      obtain ⟨rfl, hopens, -⟩ := takeUntilBraces_some htake
      refine .inr (.inl ⟨text, rest, segments', ?_, hmany, rfl, hopens, rfl⟩)
      have htext : 0 < text.length := List.length_pos_iff.mpr fun hnil => hnonempty hnil
      rw [List.length_append] at hfuel
      omega
    · obtain ⟨rfl, rfl⟩ := Prod.mk.inj (Option.some.inj h)
      exact .inr (.inr ⟨rfl, rfl⟩)

theorem parseMany_kept {fuel : ℕ} {input remaining : List Char} {segments : List Segment}
    (hfuel : input.length < fuel) (h : parseMany fuel input = some (segments, remaining)) :
    ((segments ++ [Segment.literal (String.ofList remaining)]).filter isKept).flatMap marksOf =
      dropLone true (segments.flatMap marksOf ++ remaining.map .char) := by
  induction fuel generalizing input segments with
  | zero => omega
  | succ fuel ih =>
    rcases parseMany_cases hfuel h with ⟨parts, rest, segments', hlength, hmany, rfl⟩ |
      ⟨text, rest, segments', hlength, hmany, rfl, hopens, rfl⟩ | ⟨rfl, rfl⟩
    · exact congrArg (.expression parts :: ·) (ih hlength hmany)
    · have hscans := (parseMany_scans hlength _).mpr ⟨segments', remaining, hmany, rfl⟩
      have hboundary := boundary_of_opens hscans hopens
      have hmarks : marksOf (.literal (String.ofList text)) = text.map .char := by rw [marksOf, String.toList_ofList]
      rw [List.flatMap_cons, hmarks, List.append_assoc, dropLone_literal text hboundary, ← ih hlength hmany,
        ← List.flatMap_append, ← List.filter_append]
      rfl
    · have hliteral := @dropLone_literal remaining [] rfl
      rw [List.append_nil, dropLone, List.append_nil] at hliteral
      exact hliteral.symm

theorem parse_marks {text : String} {marks : List Mark} (h : Scans text.toList marks) :
    (Mustache.parse text).segments.flatMap marksOf = dropLone true marks := by
  have hfuel : text.toList.length < text.length + 1 := by rw [String.length_toList]; exact Nat.lt_succ_self _
  obtain ⟨segments, remaining, hmany, rfl⟩ := (parseMany_scans hfuel marks).mp h
  rw [parse_segments, parseSegments, hmany, ← parseMany_kept hfuel hmany]
  rcases remaining with _ | ⟨c, remaining⟩
  · rw [List.filter_append]
    exact (List.append_nil _ ▸ rfl)
  · rfl

end Gqlforge.TemplateMarks
