import Gqlforge.AccessTexts

namespace Gqlforge.AccessRoundTrip

open Combinators QueryFixpoints AccessParser AccessTexts PostgresTemplates Resolvers
open scoped RelatedLists

/-! ## Chains of operators -/

def Reads (p : Parser AccessExpr) (expr : AccessExpr) (input rest : List Char) : Prop :=
  ∃ rest', p input = some (expr, rest') ∧ multispace0 rest' = multispace0 rest ∧ rest'.length ≤ rest.length

def Chain (op : List Char) (p : Parser AccessExpr) (combine : AccessExpr → AccessExpr → AccessExpr) (expr : AccessExpr)
    (input rest : List Char) : Prop :=
  ∃ first items input' rest', p input = some (first, input') ∧ items.foldl combine first = expr ∧
    parseRest op p input' = (parseRest op p rest').map (fun (more, rest) => (items ++ more, rest)) ∧
    multispace0 rest' = multispace0 rest ∧ rest'.length ≤ rest.length

section

variable {op : List Char} {p : Parser AccessExpr} {combine : AccessExpr → AccessExpr → AccessExpr}

variable {input rest : List Char}

theorem Reads.chain {expr : AccessExpr} (h : Reads p expr input rest) : Chain op p combine expr input rest := by
  obtain ⟨rest', hparse, hrest, hlength⟩ := h
  refine ⟨expr, [], rest', rest', hparse, rfl, ?_, hrest, hlength⟩
  cases parseRest op p rest' <;> rfl

theorem Chain.snoc {left right : AccessExpr} {blanks blanks' text : List Char}
    (hop : ∀ c ∈ op.head?, isBlank c = false) (hne : op ≠ []) (hskip : ∀ input, p (multispace0 input) = p input)
    (hblanks : Blanks blanks) (h : Chain op p combine left input (blanks ++ (op ++ (blanks' ++ (text ++ rest)))))
    (hright : Reads p right (blanks' ++ (text ++ rest)) rest) : Chain op p combine (combine left right) input rest := by
  obtain ⟨first, items, input', middle, hparse, hfold, hloop, hmiddle, _⟩ := h
  obtain ⟨rest', hright, hrest, hlength⟩ := hright
  have hopen : multispace0 middle = op ++ (blanks' ++ (text ++ rest)) := by
    rw [hmiddle, multispace0_append hblanks]
    refine multispace0_of_head fun c hc => hop c ?_
    rwa [List.head?_append_of_ne_nil op hne] at hc
  have hstep : preceded (fun input => tag op (multispace0 input)) (fun input => p (multispace0 input)) middle =
      some (right, rest') := by
    rw [preceded_some (by rw [hopen]; exact tag_append op _), hskip, hright]
  have hshorter : rest'.length < middle.length := by
    have hle := multispace0_length middle
    have hpos := List.length_pos_of_ne_nil hne
    rw [hopen] at hle
    simp only [List.length_append] at hle
    omega
  refine ⟨first, items ++ [right], input', rest', hparse, ?_, ?_, hrest, hlength⟩
  · rw [List.foldl_append, hfold]
    rfl
  · rw [hloop, parseRest, many0_some hstep hshorter]
    show _ = Option.map _ (many0 (preceded (fun input => tag op (multispace0 input)) fun input => p (multispace0 input)) rest')
    rw [Option.map_map]
    congr 1
    funext ⟨more, last⟩
    show (items ++ right :: more, last) = (items ++ [right] ++ more, last)
    rw [List.append_assoc]
    rfl

theorem Chain.stop {expr : AccessExpr} (h : Chain op p combine expr input rest)
    (hstop : ¬ op <+: multispace0 rest) : ∃ first items input' rest', p input = some (first, input') ∧
      parseRest op p input' = some (items, rest') ∧ items.foldl combine first = expr ∧
      multispace0 rest' = multispace0 rest ∧ rest'.length ≤ rest.length := by
  obtain ⟨first, items, input', rest', hparse, hfold, hloop, hrest, hlength⟩ := h
  have htag : tag op (multispace0 rest') = none := tag_none (by rwa [hrest])
  have hend : parseRest op p rest' = some ([], rest') := by
    apply many0_none
    rw [preceded, htag]
    rfl
  refine ⟨first, items, input', rest', hparse, ?_, hfold, hrest, hlength⟩
  rw [hloop, hend, Option.map_some]
  exact congrArg (fun items => some (items, rest')) (List.append_nil items)

end

section

variable {parseAtom : Parser AccessExpr}

theorem Chain.and {expr : AccessExpr} {input rest : List Char} (h : Chain "&&".toList parseAtom .and expr input rest)
    (hstop : ¬ "&&".toList <+: multispace0 rest) : Reads (parseAndExpr parseAtom) expr input rest := by
  obtain ⟨first, items, input', rest', hparse, hloop, hfold, hrest⟩ := h.stop hstop
  refine ⟨rest', ?_, hrest⟩
  rw [parseAndExpr, hparse]
  simp only [Option.bind_eq_bind, Option.bind_some, hloop]
  exact congrArg (fun expr => some (expr, rest')) hfold

theorem Chain.or {expr : AccessExpr} {input rest : List Char}
    (h : Chain "||".toList (parseAndExpr parseAtom) .or expr input rest)
    (hstop : ¬ "||".toList <+: multispace0 rest) : Reads (parseOrExpr parseAtom) expr input rest := by
  obtain ⟨first, items, input', rest', hparse, hloop, hfold, hrest⟩ := h.stop hstop
  refine ⟨rest', ?_, hrest⟩
  rw [parseOrExpr, hparse]
  simp only [Option.bind_eq_bind, Option.bind_some, hloop]
  exact congrArg (fun expr => some (expr, rest')) hfold

end

/-! ## Expressions -/

theorem Ends.append {blanks rest : List Char} (hblanks : Blanks blanks) (h : Ends rest) : Ends (blanks ++ rest) := by
  cases blanks with
  | nil => exact h
  | cons c blanks =>
    intro c' hc'
    cases hc'
    exact .inl (hblanks c List.mem_cons_self)

section

variable {isAlphanumeric : Char → Bool}

theorem parseAtom_skip (depth : Nat) (input : List Char) :
    parseAtom isAlphanumeric depth (multispace0 input) = parseAtom isAlphanumeric depth input := by
  cases depth with
  | zero => rfl
  | succ depth => rw [parseAtom, parseAtom, multispace0_idem]

theorem parseAndExpr_skip (depth : Nat) (input : List Char) :
    parseAndExpr (parseAtom isAlphanumeric depth) (multispace0 input) =
      parseAndExpr (parseAtom isAlphanumeric depth) input := by
  rw [parseAndExpr, parseAtom_skip]
  rfl

def LevelReads (isAlphanumeric : Char → Bool) (depth : Nat) (expr : AccessExpr) (text blanks rest : List Char) :
    Level → Prop
  | .atom => Reads (parseAtom isAlphanumeric depth) expr (blanks ++ (text ++ rest)) rest
  | .and => Chain "&&".toList (parseAtom isAlphanumeric depth) .and expr (blanks ++ (text ++ rest)) rest
  | .or => ¬ "&&".toList <+: multispace0 rest →
    Chain "||".toList (parseAndExpr (parseAtom isAlphanumeric depth)) .or expr (blanks ++ (text ++ rest)) rest

variable {blanks rest : List Char}

theorem parseComparison_text (hclass : Alphanumeric isAlphanumeric) {left right : Operand}
    (hleft : WellFormed isAlphanumeric left) (hright : WellFormed isAlphanumeric right) {op : List Char}
    (hop : op = "==".toList ∨ op = "!=".toList) {blanks' : List Char} (hblanks : Blanks blanks)
    (hblanks' : Blanks blanks') (hends : Ends rest) :
    parseComparison isAlphanumeric (operandText left ++ (blanks ++ (op ++ (blanks' ++ (operandText right ++ rest))))) =
      some (if op = "==".toList then .eq (asRead left) (asRead right) else .neq (asRead left) (asRead right),
        multispace0 rest) := by
  have hopEnds (tail : List Char) : Ends (op ++ tail) := by
    intro c hc
    rcases hop with rfl | rfl <;> · cases hc; exact .inr (by decide)
  have hoperator (tail : List Char) : alt (tag "!=".toList) (tag "==".toList) (op ++ tail) = some (op, tail) := by
    rcases hop with rfl | rfl
    · rw [alt, tag_none (by rintro ⟨_, h⟩; cases h), tag_append]
      rfl
    · rw [alt, tag_append]
      rfl
  have hskip (tail : List Char) : multispace0 (blanks ++ (op ++ tail)) = op ++ tail := by
    rw [multispace0_append hblanks]
    refine multispace0_of_head fun c hc => ?_
    rcases hop with rfl | rfl <;> · cases hc; decide
  have hfirst := parseOperand_text hclass hleft (show Blanks [] from fun _ h => absurd h List.not_mem_nil)
    (Ends.append hblanks (hopEnds (blanks' ++ (operandText right ++ rest))))
  have hsecond := parseOperand_text hclass hright (show Blanks [] from fun _ h => absurd h List.not_mem_nil) hends
  have hbehind : parseOperand isAlphanumeric (multispace0 (blanks' ++ (operandText right ++ rest))) =
      some (asRead right, rest) := by
    rw [multispace0_append hblanks', parseOperand, multispace0_idem]
    exact hsecond
  rw [List.nil_append] at hfirst
  rw [parseComparison, hfirst]
  simp only [Option.bind_eq_bind, Option.bind_some, hskip, hoperator, hbehind]
  rfl

theorem multispace0_char {c : Char} (hc : isBlank c = false) {blanks : List Char} (hblanks : Blanks blanks)
    (tail : List Char) : multispace0 (blanks ++ (c :: tail)) = c :: tail := by
  rw [multispace0_append hblanks]
  exact multispace0_of_head fun _ hmem => by cases hmem; exact hc

variable {c : Char}

theorem parseParens_none {parseAtom : Parser AccessExpr} (hc : isBlank c = false) (hne : c ≠ '(')
    (tail : List Char) : parseParens parseAtom (c :: tail) = none := by
  have hopen := @multispace0_char c hc [] (fun _ h => absurd h List.not_mem_nil) tail
  rw [List.nil_append] at hopen
  rw [parseParens, hopen, char_ne hne]
  rfl

theorem parseNot_none {parseAtom : Parser AccessExpr} (hc : isBlank c = false) (hne : c ≠ '!')
    (tail : List Char) : parseNot parseAtom (c :: tail) = none := by
  have hopen := @multispace0_char c hc [] (fun _ h => absurd h List.not_mem_nil) tail
  rw [List.nil_append] at hopen
  rw [parseNot, hopen, char_ne hne]
  rfl

variable {depth : Nat} {expr : AccessExpr} {text : List Char}

theorem reads_comparison (hblanks : Blanks blanks)
    (hread : parseComparison isAlphanumeric text = some (expr, multispace0 rest))
    (hhead : ∃ c tail, text = c :: tail ∧ isBlank c = false ∧ c ≠ '(' ∧ c ≠ '!') :
    Reads (parseAtom isAlphanumeric (depth + 1)) expr (blanks ++ text) rest := by
  obtain ⟨c, tail, htext, hblank, hparen, hnot⟩ := hhead
  refine ⟨multispace0 rest, ?_, multispace0_idem rest, multispace0_length rest⟩
  rw [htext, parseAtom, multispace0_char hblank hblanks, alt, parseParens_none hblank hparen, alt,
    parseNot_none hblank hnot, ← htext, hread]
  rfl

theorem reads_not {gap : List Char} (hblanks : Blanks blanks)
    (hread : Reads (parseAtom isAlphanumeric depth) expr (gap ++ (text ++ rest)) rest) :
    Reads (parseAtom isAlphanumeric (depth + 1)) (.not expr) (blanks ++ ('!' :: (gap ++ text) ++ rest)) rest := by
  obtain ⟨rest', hread, hrest⟩ := hread
  refine ⟨rest', ?_, hrest⟩
  have hopen := @multispace0_char '!' (by decide) [] (fun _ h => absurd h List.not_mem_nil) (gap ++ (text ++ rest))
  rw [List.nil_append] at hopen
  have hnot : parseNot (parseAtom isAlphanumeric depth) ('!' :: (gap ++ (text ++ rest))) = some (.not expr, rest') := by
    rw [parseNot, hopen, char_cons]
    simp only [Option.bind_eq_bind, Option.bind_some, parseAtom_skip, hread]
    rfl
  rw [List.cons_append, List.append_assoc, parseAtom, multispace0_char (by decide) hblanks, alt,
    parseParens_none (by decide) (by decide), alt, hnot]
  rfl

theorem reads_parens {gap gap' : List Char} (hblanks : Blanks blanks) (hgap' : Blanks gap')
    (hread : Reads (parseOrExpr (parseAtom isAlphanumeric depth)) expr (gap ++ (text ++ (gap' ++ (')' :: rest))))
      (gap' ++ (')' :: rest))) :
    Reads (parseAtom isAlphanumeric (depth + 1)) expr (blanks ++ ('(' :: (gap ++ (text ++ (gap' ++ [')']))) ++ rest))
      rest := by
  obtain ⟨rest', hread, hrest, _⟩ := hread
  refine ⟨rest, ?_, rfl, Nat.le_refl _⟩
  have hopen := @multispace0_char '(' (by decide) [] (fun _ h => absurd h List.not_mem_nil)
    (gap ++ (text ++ (gap' ++ (')' :: rest))))
  rw [List.nil_append] at hopen
  have hclose : char ')' (multispace0 rest') = some (')', rest) := by
    rw [hrest, multispace0_char (by decide) hgap', char_cons]
  have hparens : parseParens (parseAtom isAlphanumeric depth) ('(' :: (gap ++ (text ++ (gap' ++ (')' :: rest))))) =
      some (expr, rest) := by
    rw [parseParens, hopen, char_cons]
    simp only [Option.bind_eq_bind, Option.bind_some, hread, hclose]
    rfl
  have htext : '(' :: (gap ++ (text ++ (gap' ++ [')']))) ++ rest = '(' :: (gap ++ (text ++ (gap' ++ (')' :: rest)))) := by
    simp only [List.cons_append, List.append_assoc, List.nil_append]
  rw [htext, parseAtom, multispace0_char (by decide) hblanks, alt, hparens]
  rfl

theorem not_prefix_of_head {op : List Char} (h : rest.head? = some c) (hop : ∃ c' ∈ op.head?, c' ≠ c) :
    ¬ op <+: rest := by
  rintro ⟨tail, rfl⟩
  obtain ⟨c', hc', hne⟩ := hop
  cases op with
  | nil => cases hc'
  | cons first op =>
    cases hc'
    cases h
    exact hne rfl

theorem prints_reads (hclass : Alphanumeric isAlphanumeric) {level : Level}
    (h : Prints level expr text) (hwf : ∀ operand ∈ operands expr, WellFormed isAlphanumeric operand) (depth : Nat)
    (hdepth : text.length ≤ depth) (hblanks : Blanks blanks) (hends : Ends rest) :
    LevelReads isAlphanumeric depth (exprAsRead expr) text blanks rest level := by
  have hcomparison {left right : Operand} {op gap gap' blanks rest : List Char} {depth : Nat}
      (hop : op = "==".toList ∨ op = "!=".toList)
      (hwf : WellFormed isAlphanumeric left ∧ WellFormed isAlphanumeric right) (hgap : Blanks gap) (hgap' : Blanks gap')
      (hdepth : (operandText left ++ (gap ++ (op ++ (gap' ++ operandText right)))).length ≤ depth)
      (hblanks : Blanks blanks) (hends : Ends rest) :
      Reads (parseAtom isAlphanumeric depth)
        (if op = "==".toList then .eq (asRead left) (asRead right) else .neq (asRead left) (asRead right))
        (blanks ++ (operandText left ++ (gap ++ (op ++ (gap' ++ operandText right))) ++ rest)) rest := by
    obtain ⟨depth, rfl⟩ : ∃ d, depth = d + 1 := by
      have hpos : 0 < op.length := by rcases hop with rfl | rfl <;> decide
      simp only [List.length_append] at hdepth
      exact ⟨depth - 1, by omega⟩
    have hread := parseComparison_text hclass hwf.1 hwf.2 hop hgap hgap' hends
    simp only [List.append_assoc]
    exact reads_comparison hblanks hread (operand_head hclass hwf.1 _)
  induction h generalizing depth blanks rest with
  | @eq left right gap gap' hgap hgap' =>
    exact hcomparison (.inl rfl) ⟨hwf left (by simp [operands]), hwf right (by simp [operands])⟩ hgap hgap' hdepth hblanks hends
  | @neq left right gap gap' hgap hgap' =>
    exact hcomparison (.inr rfl) ⟨hwf left (by simp [operands]), hwf right (by simp [operands])⟩ hgap hgap' hdepth hblanks hends
  | @not expr gap text hgap _ ih =>
    simp only [List.length_cons, List.length_append] at hdepth
    obtain ⟨depth, rfl⟩ : ∃ d, depth = d + 1 := ⟨depth - 1, by omega⟩
    exact reads_not hblanks (ih hwf depth (by omega) hgap hends)
  | @parens expr gap text gap' hgap _ hgap' ih =>
    simp only [List.length_cons, List.length_append] at hdepth
    obtain ⟨depth, rfl⟩ : ∃ d, depth = d + 1 := ⟨depth - 1, by omega⟩
    have hclose : Ends (gap' ++ (')' :: rest)) :=
      Ends.append hgap' fun c hc => by cases hc; exact .inr (by decide)
    have hstop (op : List Char) (hop : ∃ c' ∈ op.head?, c' ≠ ')') : ¬ op <+: multispace0 (gap' ++ (')' :: rest)) := by
      rw [multispace0_char (by decide) hgap']
      exact not_prefix_of_head rfl hop
    have hinner := ih hwf depth (by omega) hgap hclose (hstop _ ⟨'&', rfl, by decide⟩)
    exact reads_parens hblanks hgap' (hinner.or (hstop _ ⟨'|', rfl, by decide⟩))
  | @atom expr text _ ih => exact (ih hwf depth hdepth hblanks hends).chain
  | @and left right text gap gap' text' _ hgap hgap' _ ihleft ihright =>
    simp only [List.length_append] at hdepth
    simp only [operands, List.mem_append] at hwf
    have hop : Ends (gap ++ ("&&".toList ++ (gap' ++ (text' ++ rest)))) :=
      Ends.append hgap fun c hc => by cases hc; exact .inr (by decide)
    have hleft := ihleft (fun operand h => hwf operand (.inl h)) depth (by omega) hblanks hop
    have hright := ihright (fun operand h => hwf operand (.inr h)) depth (by omega) hgap' hends
    have hchain := Chain.snoc (fun c hc => by cases hc; decide) (by decide) (parseAtom_skip depth) hgap hleft hright
    simp only [LevelReads, List.append_assoc] at hchain ⊢
    exact hchain
  | @conjunction expr text _ ih =>
    intro hstop
    exact ((ih hwf depth hdepth hblanks hends).and hstop).chain
  | @or left right text gap gap' text' _ hgap hgap' _ ihleft ihright =>
    intro hstop
    simp only [List.length_append] at hdepth
    simp only [operands, List.mem_append] at hwf
    have hop : Ends (gap ++ ("||".toList ++ (gap' ++ (text' ++ rest)))) :=
      Ends.append hgap fun c hc => by cases hc; exact .inr (by decide)
    have hother : ¬ "&&".toList <+: multispace0 (gap ++ ("||".toList ++ (gap' ++ (text' ++ rest)))) := by
      have hopen := @multispace0_char '|' (by decide) gap hgap ('|' :: (gap' ++ (text' ++ rest)))
      exact hopen ▸ not_prefix_of_head rfl ⟨'&', rfl, by decide⟩
    have hleft := ihleft (fun operand h => hwf operand (.inl h)) depth (by omega) hblanks hop hother
    have hright := (ihright (fun operand h => hwf operand (.inr h)) depth (by omega) hgap' hends).and hstop
    have hchain := Chain.snoc (fun c hc => by cases hc; decide) (by decide) (parseAndExpr_skip depth) hgap hleft hright
    simp only [List.append_assoc] at hchain ⊢
    exact hchain

/-! ## Trimmed texts -/

def Firm (text : List Char) : Prop :=
  (∃ c tail, text = c :: tail ∧ isWhitespace c = false) ∧ ∃ front c, text = front ++ [c] ∧ isWhitespace c = false

theorem Firm.append {left right : List Char} (hleft : Firm left) (hright : Firm right) (middle : List Char) :
    Firm (left ++ (middle ++ right)) := by
  obtain ⟨⟨c, tail, rfl, hc⟩, _⟩ := hleft
  obtain ⟨_, front, c', rfl, hc'⟩ := hright
  exact ⟨⟨c, _, rfl, hc⟩, c :: tail ++ (middle ++ front), c', by simp, hc'⟩

theorem Firm.of_all (hne : text ≠ []) (h : ∀ c ∈ text, isWhitespace c = false) : Firm text := by
  constructor
  · obtain ⟨c, tail, rfl⟩ := List.exists_cons_of_ne_nil hne
    exact ⟨c, tail, rfl, h c List.mem_cons_self⟩
  · rcases List.eq_nil_or_concat text with hnil | ⟨front, c, rfl⟩
    · exact absurd hnil hne
    · exact ⟨front, c, List.concat_eq_append, h c (by simp)⟩

theorem isWhitespace_of_isBlank (h : isBlank c = true) : isWhitespace c = true := by
  rcases isBlank_cases h with rfl | rfl | rfl | rfl <;> decide

theorem trim_firm {blanks' : List Char} (h : Firm text) (hblanks : Blanks blanks) (hblanks' : Blanks blanks') :
    trim (blanks ++ text ++ blanks') = text := by
  obtain ⟨⟨c, tail, htext, hc⟩, front, c', htext', hc'⟩ := h
  have hfront : (blanks ++ text ++ blanks').dropWhile isWhitespace = text ++ blanks' := by
    rw [List.append_assoc, List.dropWhile_append_of_pos fun c hc => isWhitespace_of_isBlank (hblanks c hc), htext]
    exact List.dropWhile_cons_of_neg (by rw [hc]; decide)
  rw [trim, hfront, List.rdropWhile, List.reverse_append, List.dropWhile_append_of_pos fun c hc =>
    isWhitespace_of_isBlank (hblanks' c (List.mem_reverse.mp hc)), htext', List.reverse_append]
  show ((c' :: front.reverse).dropWhile isWhitespace).reverse = _
  rw [List.dropWhile_cons_of_neg (by rw [hc']; decide), List.reverse_cons, List.reverse_reverse]

theorem isIdentChar_white (hclass : Alphanumeric isAlphanumeric) (h : isIdentChar isAlphanumeric c = true) :
    isWhitespace c = false := by
  rw [← Bool.not_eq_true]
  intro hwhite
  rw [isIdentChar, hclass.white c hwhite, Bool.false_or, Bool.or_eq_true, beq_iff_eq, beq_iff_eq] at h
  rcases h with rfl | rfl <;> exact absurd hwhite (by decide)

theorem operand_firm (hclass : Alphanumeric isAlphanumeric) {operand : Operand}
    (hwf : WellFormed isAlphanumeric operand) : Firm (operandText operand) := by
  have hdigits {n : Nat} {c : Char} (hc : c ∈ Nat.toDigits 10 n) : isWhitespace c = false :=
    isIdentChar_white hclass (isIdentChar_digit hclass (Nat.isDigit_of_mem_toDigits (by decide) (by decide) hc))
  cases operand with
  | stringLiteral value => exact ⟨⟨'\'', _, rfl, by decide⟩, '\'' :: value.toList.flatMap escape, '\'', rfl, by decide⟩
  | boolLiteral value =>
    apply Firm.of_all <;> cases value <;> decide
  | numberLiteral n =>
    cases n with
    | ofNat n => exact Firm.of_all Nat.toDigits_ne_nil fun _ hc => hdigits hc
    | negSucc n =>
      refine Firm.of_all (List.cons_ne_nil _ _) fun c hc => ?_
      rcases List.mem_cons.mp hc with rfl | hc
      · decide
      · exact hdigits hc
  | path segments =>
    obtain ⟨c, tail, htext, _⟩ := path_head hwf []
    obtain ⟨_, hident, _⟩ := hwf
    rw [List.append_nil] at htext
    refine Firm.of_all (by rw [htext]; exact List.cons_ne_nil _ _) fun c hc => ?_
    obtain ⟨first, segments, rfl⟩ : ∃ first rest, segments = first :: rest := by
      cases segments with
      | nil => cases htext
      | cons first rest => exact ⟨first, rest, rfl⟩
    rw [operandText, List.map_cons, intercalate_dots] at hc
    rcases List.mem_append.mp hc with hc | hc
    · exact isIdentChar_white hclass ((hident first List.mem_cons_self).1 c hc)
    · obtain ⟨segment, hsegment, hc⟩ := List.mem_flatMap.mp hc
      obtain ⟨second, hsecond, rfl⟩ := List.mem_map.mp hsegment
      rcases List.mem_cons.mp hc with rfl | hc
      · decide
      · exact isIdentChar_white hclass ((hident second (List.mem_cons_of_mem _ hsecond)).1 c hc)

theorem prints_firm (hclass : Alphanumeric isAlphanumeric) {level : Level}
    (h : Prints level expr text) (hwf : ∀ operand ∈ operands expr, WellFormed isAlphanumeric operand) : Firm text := by
  have hcomparison {left right : Operand} (hleft : WellFormed isAlphanumeric left)
      (hright : WellFormed isAlphanumeric right) (gap op gap' : List Char) :
      Firm (operandText left ++ (gap ++ (op ++ (gap' ++ operandText right)))) := by
    have hfirm := (operand_firm hclass hleft).append (operand_firm hclass hright) (gap ++ (op ++ gap'))
    simpa only [List.append_assoc] using hfirm
  induction h with
  | eq => exact hcomparison (hwf _ (by simp [operands])) (hwf _ (by simp [operands])) _ _ _
  | neq => exact hcomparison (hwf _ (by simp [operands])) (hwf _ (by simp [operands])) _ _ _
  | @not expr gap text _ _ ih =>
    obtain ⟨_, front, c, rfl, hc⟩ := ih hwf
    exact ⟨⟨'!', _, rfl, by decide⟩, '!' :: (gap ++ front), c, by simp, hc⟩
  | @parens expr gap text gap' _ _ _ _ =>
    exact ⟨⟨'(', _, rfl, by decide⟩, '(' :: (gap ++ (text ++ gap')), ')', by simp, by decide⟩
  | atom _ ih => exact ih hwf
  | @and left right text gap gap' text' _ _ _ _ ihleft ihright =>
    simp only [operands, List.mem_append] at hwf
    have hfirm := (ihleft fun operand h => hwf operand (.inl h)).append (ihright fun operand h => hwf operand (.inr h))
      (gap ++ ("&&".toList ++ gap'))
    simpa only [List.append_assoc] using hfirm
  | conjunction _ ih => exact ih hwf
  | @or left right text gap gap' text' _ _ _ _ ihleft ihright =>
    simp only [operands, List.mem_append] at hwf
    have hfirm := (ihleft fun operand h => hwf operand (.inl h)).append (ihright fun operand h => hwf operand (.inr h))
      (gap ++ ("||".toList ++ gap'))
    simpa only [List.append_assoc] using hfirm

theorem parse_text (hclass : Alphanumeric isAlphanumeric)
    (hwf : ∀ operand ∈ operands expr, WellFormed isAlphanumeric operand) (h : TextOf expr text) :
    parse isAlphanumeric text = .ok (exprAsRead expr) := by
  obtain ⟨blanks, inner, blanks', hblanks, hprints, hblanks', rfl⟩ := h
  have hnil : Blanks [] := fun _ h => absurd h List.not_mem_nil
  have hstop (op : List Char) (hne : op ≠ []) : ¬ op <+: multispace0 [] := fun hprefix =>
    hne (List.prefix_nil.mp hprefix)
  have hreads : Reads (parseOrExpr (parseAtom isAlphanumeric (inner.length + 1))) (exprAsRead expr) ([] ++ (inner ++ [])) [] :=
    (prints_reads hclass hprints hwf _ (Nat.le_succ _) hnil (fun _ hc => by cases hc) (hstop _ (by decide))).or
      (hstop _ (by decide))
  obtain ⟨rest', hread, _, hlength⟩ := hreads
  obtain rfl : rest' = [] := List.length_eq_zero_iff.mp (Nat.le_zero.mp hlength)
  rw [List.nil_append, List.append_nil] at hread
  rw [parse, trim_firm (prints_firm hclass hprints hwf) hblanks hblanks', hread]
  rfl

/-- Printing is undone where the strings are ASCII and no number is the least one. -/
theorem parse_text_iff (hclass : Alphanumeric isAlphanumeric) {expr : AccessExpr}
    (hwf : ∀ operand ∈ operands expr, WellFormed isAlphanumeric operand) {text : List Char} (h : TextOf expr text) :
    parse isAlphanumeric text = .ok expr ↔ ∀ operand ∈ operands expr, Plain operand := by
  rw [parse_text hclass hwf h, ← exprAsRead_eq_iff, Except.ok.injEq]

end

/-! ## ASCII letters and digits -/

theorem asciiLetters : Alphanumeric Char.isAlphanum where
  ascii _ _ := rfl
  white c h := by
    rw [← Bool.not_eq_true]
    intro hletter
    have hrange : 48 ≤ c.toNat ∧ c.toNat ≤ 57 ∨ 65 ≤ c.toNat ∧ c.toNat ≤ 90 ∨ 97 ≤ c.toNat ∧ c.toNat ≤ 122 := by
      unfold Char.isAlphanum Char.isAlpha Char.isUpper Char.isLower Char.isDigit at hletter
      simp only [Bool.or_eq_true, Bool.and_eq_true, decide_eq_true_eq, ge_iff_le, UInt32.le_iff_toNat_le] at hletter
      rcases hletter with (hupper | hlower) | hdigit
      · exact .inr (.inl hupper)
      · exact .inr (.inr hlower)
      · exact .inl hdigit
    simp only [isWhitespace, Bool.or_eq_true, Bool.and_eq_true, decide_eq_true_eq, beq_iff_eq] at h
    omega

def nameIs (value : String) : AccessExpr :=
  .not (.eq (.path ["claims", "name"]) (.stringLiteral value))

theorem nameIs_text (value : String) : TextOf (nameIs value)
    ("!(claims.name == ".toList ++ (operandText (.stringLiteral value) ++ ")".toList)) := by
  have hnil : Blanks [] := fun _ h => absurd h List.not_mem_nil
  have hblank : Blanks [' '] := fun c hc => by rw [List.mem_singleton.mp hc]; decide
  have hprints := Prints.conjunction (.atom (.not hnil (.parens hnil (.conjunction (.atom
    (@Prints.eq (.path ["claims", "name"]) (.stringLiteral value) _ _ hblank hblank))) hnil)))
  refine ⟨[], _, [], hnil, hprints, hnil, ?_⟩
  simp only [List.nil_append, List.append_nil, List.append_assoc]
  rfl

theorem nameIs_wellFormed (value : String) :
    ∀ operand ∈ operands (nameIs value), WellFormed Char.isAlphanum operand := by
  intro operand hoperand
  simp only [nameIs, operands, List.mem_cons, List.not_mem_nil, or_false] at hoperand
  rcases hoperand with rfl | rfl
  · refine ⟨by decide, fun segment hsegment => ?_, by decide, by decide⟩
    simp only [List.mem_cons, List.not_mem_nil, or_false] at hsegment
    rcases hsegment with rfl | rfl
    · exact ⟨by decide, 'c', by decide, by decide, by decide⟩
    · exact ⟨by decide, 'n', by decide, by decide, by decide⟩
  · trivial

theorem parse_quoted : parse Char.isAlphanum
    ("!(claims.name == ".toList ++ (operandText (.stringLiteral "O'Neil") ++ ")".toList)) = .ok (nameIs "O'Neil") := by
  refine (parse_text_iff asciiLetters (nameIs_wellFormed "O'Neil") (nameIs_text "O'Neil")).mpr ?_
  intro operand hoperand
  simp only [nameIs, operands, List.mem_cons, List.not_mem_nil, or_false] at hoperand
  rcases hoperand with rfl | rfl
  · trivial
  · show ∀ c ∈ "O'Neil".toList, isAscii c = true
    decide

theorem accent_misread : parse Char.isAlphanum
    ("!(claims.name == ".toList ++ (operandText (.stringLiteral "Zoë") ++ ")".toList)) ≠ .ok (nameIs "Zoë") := by
  rw [parse_text asciiLetters (nameIs_wellFormed "Zoë") (nameIs_text "Zoë")]
  decide

end Gqlforge.AccessRoundTrip
