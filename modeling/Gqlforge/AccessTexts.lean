import Gqlforge.AccessParser
import Gqlforge.RelatedLists

namespace Gqlforge.AccessTexts

open Combinators QueryFixpoints AccessParser PostgresTemplates Resolvers
open scoped RelatedLists

/-! ## Texts of expressions -/

def escape (c : Char) : List Char :=
  if c = '\'' ∨ c = '\\' then ['\\', c] else [c]

def operandText : Operand → List Char
  | .path segments => ['.'].intercalate (segments.map String.toList)
  | .stringLiteral value => '\'' :: (value.toList.flatMap escape ++ ['\''])
  | .numberLiteral (.ofNat n) => Nat.toDigits 10 n
  | .numberLiteral (.negSucc n) => '-' :: Nat.toDigits 10 (n + 1)
  | .boolLiteral true => "true".toList
  | .boolLiteral false => "false".toList

def Blanks (text : List Char) : Prop :=
  ∀ c ∈ text, isBlank c = true

inductive Level where
  | or
  | and
  | atom

/-- A text of an expression, where every expression may stand in parentheses and those of a looser operator have to. -/
inductive Prints : Level → AccessExpr → List Char → Prop
  | eq {left right : Operand} {blanks blanks' : List Char} : Blanks blanks → Blanks blanks' →
    Prints .atom (.eq left right) (operandText left ++ (blanks ++ ("==".toList ++ (blanks' ++ operandText right))))
  | neq {left right : Operand} {blanks blanks' : List Char} : Blanks blanks → Blanks blanks' →
    Prints .atom (.neq left right) (operandText left ++ (blanks ++ ("!=".toList ++ (blanks' ++ operandText right))))
  | not {expr : AccessExpr} {blanks text : List Char} : Blanks blanks → Prints .atom expr text →
    Prints .atom (.not expr) ('!' :: (blanks ++ text))
  | parens {expr : AccessExpr} {blanks text blanks' : List Char} : Blanks blanks → Prints .or expr text →
    Blanks blanks' → Prints .atom expr ('(' :: (blanks ++ (text ++ (blanks' ++ [')']))))
  | atom {expr : AccessExpr} {text : List Char} : Prints .atom expr text → Prints .and expr text
  | and {left right : AccessExpr} {text blanks blanks' text' : List Char} : Prints .and left text → Blanks blanks →
    Blanks blanks' → Prints .atom right text' →
    Prints .and (.and left right) (text ++ (blanks ++ ("&&".toList ++ (blanks' ++ text'))))
  | conjunction {expr : AccessExpr} {text : List Char} : Prints .and expr text → Prints .or expr text
  | or {left right : AccessExpr} {text blanks blanks' text' : List Char} : Prints .or left text → Blanks blanks →
    Blanks blanks' → Prints .and right text' →
    Prints .or (.or left right) (text ++ (blanks ++ ("||".toList ++ (blanks' ++ text'))))

def TextOf (expr : AccessExpr) (text : List Char) : Prop :=
  ∃ blanks inner blanks', Blanks blanks ∧ Prints .or expr inner ∧ Blanks blanks' ∧ text = blanks ++ inner ++ blanks'

def operands : AccessExpr → List Operand
  | .and left right => operands left ++ operands right
  | .or left right => operands left ++ operands right
  | .not expr => operands expr
  | .eq left right => [left, right]
  | .neq left right => [left, right]

section

variable (isAlphanumeric : Char → Bool)

def IsIdentifier (text : List Char) : Prop :=
  (∀ c ∈ text, isIdentChar isAlphanumeric c = true) ∧ ∃ c ∈ text.head?, c.isDigit = false ∧ c ≠ '-'

def WellFormed : Operand → Prop
  | .path segments => segments ≠ [] ∧ (∀ segment ∈ segments, IsIdentifier isAlphanumeric segment.toList) ∧
    segments ≠ ["true"] ∧ segments ≠ ["false"]
  | .numberLiteral n => -2 ^ 63 ≤ n ∧ n < 2 ^ 63
  | _ => True

/-- Letters and digits are the alphanumeric ASCII characters, and no white space is alphanumeric. -/
structure Alphanumeric : Prop where
  ascii (c : Char) : c.toNat < 128 → isAlphanumeric c = c.isAlphanum
  white (c : Char) : isWhitespace c = true → isAlphanumeric c = false

end

def Plain : Operand → Prop
  | .stringLiteral value => ∀ c ∈ value.toList, isAscii c = true
  | .numberLiteral n => n ≠ -2 ^ 63
  | _ => True

/-! ## What is read -/

def asRead : Operand → Operand
  | .stringLiteral value => .stringLiteral (String.ofList (value.toList.flatMap byteChars))
  | .numberLiteral n => if n = -2 ^ 63 then .path ["-9223372036854775808"] else .numberLiteral n
  | operand => operand

def exprAsRead : AccessExpr → AccessExpr
  | .and left right => .and (exprAsRead left) (exprAsRead right)
  | .or left right => .or (exprAsRead left) (exprAsRead right)
  | .not expr => .not (exprAsRead expr)
  | .eq left right => .eq (asRead left) (asRead right)
  | .neq left right => .neq (asRead left) (asRead right)

theorem byteChars_ascii {c : Char} (h : isAscii c = true) : byteChars c = [c] := by
  rw [byteChars, utf8_of_ascii h, List.map_singleton, byteChar_ofNat h]

theorem two_le_length_byteChars {c : Char} (h : isAscii c = false) : 2 ≤ (byteChars c).length := by
  rw [byteChars, List.length_map, String.length_utf8EncodeChar]
  have hge : 128 ≤ c.val.toNat := Nat.le_of_not_lt (of_decide_eq_false h)
  have hne : ¬ c.val ≤ UInt32.ofNatLT 127 (by decide) := by
    rw [UInt32.le_iff_toNat_le]
    exact Nat.not_le_of_lt hge
  rw [Char.utf8Size, if_neg hne]
  split <;> [omega; split <;> omega]

theorem length_le_flatMap_byteChars (text : List Char) : text.length ≤ (text.flatMap byteChars).length := by
  induction text with
  | nil => exact Nat.le_refl 0
  | cons c text ih =>
    have hpos : 1 ≤ (byteChars c).length := by
      by_cases h : isAscii c = true
      · rw [byteChars_ascii h, List.length_singleton]
      · exact Nat.le_of_succ_le (two_le_length_byteChars (Bool.eq_false_of_not_eq_true h))
    rw [List.flatMap_cons, List.length_append, List.length_cons]
    omega

theorem flatMap_byteChars_iff (text : List Char) : text.flatMap byteChars = text ↔ ∀ c ∈ text, isAscii c = true := by
  constructor
  · intro h c hc
    by_contra hne
    obtain ⟨front, back, rfl⟩ := List.append_of_mem hc
    have hlength := congrArg List.length h
    have htwo := two_le_length_byteChars (Bool.eq_false_of_not_eq_true hne)
    have hfront := length_le_flatMap_byteChars front
    have hback := length_le_flatMap_byteChars back
    rw [List.flatMap_append, List.flatMap_cons, List.length_append, List.length_append, List.length_append,
      List.length_cons] at hlength
    omega
  · intro h
    rw [List.flatMap_congr fun c hc => byteChars_ascii (h c hc), List.flatMap_singleton']

theorem asRead_eq_iff (operand : Operand) : asRead operand = operand ↔ Plain operand := by
  cases operand with
  | path _ => exact iff_of_true rfl trivial
  | boolLiteral _ => exact iff_of_true rfl trivial
  | stringLiteral value =>
    rw [Plain, ← flatMap_byteChars_iff, asRead, Operand.stringLiteral.injEq, ← String.toList_inj, String.toList_ofList]
  | numberLiteral n =>
    by_cases h : n = -2 ^ 63
    · exact iff_of_false (by rw [asRead, if_pos h]; nofun) fun hne => hne h
    · exact iff_of_true (by rw [asRead, if_neg h]) h

theorem exprAsRead_eq_iff (expr : AccessExpr) : exprAsRead expr = expr ↔ ∀ operand ∈ operands expr, Plain operand := by
  induction expr with
  | and left right ihleft ihright => simp [exprAsRead, operands, ihleft, ihright, or_imp, forall_and]
  | or left right ihleft ihright => simp [exprAsRead, operands, ihleft, ihright, or_imp, forall_and]
  | not expr ih => simp [exprAsRead, operands, ih]
  | eq left right => simp [exprAsRead, operands, asRead_eq_iff]
  | neq left right => simp [exprAsRead, operands, asRead_eq_iff]

/-! ## Operands -/

def Ends (rest : List Char) : Prop :=
  ∀ c ∈ rest.head?, isBlank c = true ∨ c ∈ ['=', '!', ')', '&', '|']

theorem scanString_text (value rest : List Char) :
    scanString (value.flatMap escape ++ ('\'' :: rest)) = some (value.flatMap byteChars, rest) := by
  induction value with
  | nil =>
    rw [List.flatMap_nil, List.nil_append, scanString, if_pos rfl]
    · rfl
    · exact fun _ _ hc _ => absurd hc (by decide)
  | cons c value ih =>
    rw [List.flatMap_cons, List.flatMap_cons, List.append_assoc, escape]
    by_cases hquote : c = '\''
    · subst hquote
      rw [if_pos (.inl rfl)]
      show scanString ('\\' :: '\'' :: (value.flatMap escape ++ ('\'' :: rest))) = _
      rw [scanString, ih, byteChars_ascii (by decide)]
      rfl
    · by_cases hslash : c = '\\'
      · subst hslash
        rw [if_pos (.inr rfl)]
        show scanString ('\\' :: '\\' :: (value.flatMap escape ++ ('\'' :: rest))) = _
        rw [scanString, ih, byteChars_ascii (by decide)]
        rfl
      · rw [if_neg (not_or.mpr ⟨hquote, hslash⟩)]
        show scanString (c :: (value.flatMap escape ++ ('\'' :: rest))) = _
        rw [scanString, if_neg hquote, ih]
        · rfl
        · exact fun _ _ hc _ => hslash hc

theorem parseStringLiteral_none {input : List Char} (h : ∀ c ∈ input.head?, c ≠ '\'') :
    parseStringLiteral input = none := by
  cases input with
  | nil => rfl
  | cons c rest =>
    rw [parseStringLiteral, char_ne (h c rfl)]
    rfl

section

variable {isAlphanumeric : Char → Bool}

theorem isIdentChar_ascii (hclass : Alphanumeric isAlphanumeric) {c : Char} (hc : c.toNat < 128) :
    isIdentChar isAlphanumeric c = (c.isAlphanum || c == '_' || c == '-') := by
  rw [isIdentChar, hclass.ascii c hc]

theorem isBlank_cases {c : Char} (h : isBlank c = true) : c = ' ' ∨ c = '\t' ∨ c = '\r' ∨ c = '\n' := by
  simpa [isBlank, or_assoc] using h

variable {rest : List Char}

theorem Ends.not_ident (hclass : Alphanumeric isAlphanumeric) (h : Ends rest) :
    ∀ c ∈ rest.head?, isIdentChar isAlphanumeric c = false ∧ c ≠ '.' ∧ c.isDigit = false := by
  intro c hc
  rcases h c hc with hblank | hmem
  · rcases isBlank_cases hblank with rfl | rfl | rfl | rfl <;>
      exact ⟨(isIdentChar_ascii hclass (by decide)).trans (by decide), by decide, by decide⟩
  · simp only [List.mem_cons, List.not_mem_nil, or_false] at hmem
    rcases hmem with rfl | rfl | rfl | rfl | rfl <;>
      exact ⟨(isIdentChar_ascii hclass (by decide)).trans (by decide), by decide, by decide⟩

theorem intercalate_dots (first : List Char) (segments : List (List Char)) :
    ['.'].intercalate (first :: segments) = first ++ segments.flatMap fun segment => '.' :: segment := by
  induction segments generalizing first with
  | nil => rw [List.intercalate_singleton, List.flatMap_nil, List.append_nil]
  | cons second segments ih =>
    rw [List.intercalate_cons_cons, ih, List.flatMap_cons, List.append_assoc]
    rfl

theorem parsePath_text (hclass : Alphanumeric isAlphanumeric) {segments : List (List Char)}
    (hne : segments ≠ []) (hident : ∀ segment ∈ segments, segment ≠ [] ∧ ∀ c ∈ segment, isIdentChar isAlphanumeric c = true)
    {rest : List Char} (hends : ∀ c ∈ rest.head?, isIdentChar isAlphanumeric c = false ∧ c ≠ '.') :
    parsePath isAlphanumeric (['.'].intercalate segments ++ rest) = some (.path (segments.map String.ofList), rest) := by
  have hdot : isIdentChar isAlphanumeric '.' = false := (isIdentChar_ascii hclass (by decide)).trans (by decide)
  have hone {segment tail : List Char} (h : segment ≠ [] ∧ ∀ c ∈ segment, isIdentChar isAlphanumeric c = true)
      (htail : ∀ c ∈ tail.head?, isIdentChar isAlphanumeric c = false) :
      takeWhile1 (isIdentChar isAlphanumeric) (segment ++ tail) = some (segment, tail) :=
    takeWhile1_append h.2 h.1 htail
  have hmany (segments : List (List Char))
      (h : ∀ segment ∈ segments, segment ≠ [] ∧ ∀ c ∈ segment, isIdentChar isAlphanumeric c = true) :
      many0 (preceded (char '.') (takeWhile1 (isIdentChar isAlphanumeric)))
        ((segments.flatMap fun segment => '.' :: segment) ++ rest) = some (segments, rest) ∧
      ∀ c ∈ ((segments.flatMap fun segment => '.' :: segment) ++ rest).head?, isIdentChar isAlphanumeric c = false := by
    induction segments with
    | nil =>
      refine ⟨many0_none (preceded_none ?_ _), fun c hc => (hends c hc).1⟩
      cases rest with
      | nil => rfl
      | cons c rest => exact char_ne (hends c rfl).2 rest
    | cons segment segments ih =>
      obtain ⟨hrest, hhead⟩ := ih fun other hother => h other (List.mem_cons_of_mem _ hother)
      have hsegment := hone (h segment List.mem_cons_self) hhead
      rw [List.flatMap_cons, List.cons_append, List.cons_append, List.append_assoc]
      refine ⟨?_, fun c hc => ?_⟩
      · refine (many0_some ((preceded_some (char_cons '.' _) _).trans hsegment) ?_).trans (by rw [hrest]; rfl)
        simp only [List.length_cons, List.length_append]
        omega
      · cases hc
        exact hdot
  obtain ⟨first, segments, rfl⟩ := List.exists_cons_of_ne_nil hne
  obtain ⟨hrest, hhead⟩ := hmany segments fun other hother => hident other (List.mem_cons_of_mem _ hother)
  rw [intercalate_dots, List.append_assoc, parsePath,
    separatedList1_some (hone (hident first List.mem_cons_self) hhead) hrest]
  rfl

theorem isIdentChar_digit (hclass : Alphanumeric isAlphanumeric) {c : Char} (h : c.isDigit = true) :
    isIdentChar isAlphanumeric c = true := by
  have hlt : c.toNat < 128 := by
    simp only [Char.isDigit, Bool.and_eq_true, decide_eq_true_eq, UInt32.le_iff_toNat_le] at h
    exact Nat.lt_of_le_of_lt h.2 (by decide)
  rw [isIdentChar_ascii hclass hlt, Char.isAlphanum, h, Bool.or_true]
  rfl

theorem parseBoolLiteral_text (hclass : Alphanumeric isAlphanumeric) (value : Bool) (hends : Ends rest) :
    parseBoolLiteral isAlphanumeric (operandText (.boolLiteral value) ++ rest) = some (.boolLiteral value, rest) := by
  have hnone : rest.head?.any (fun c => isIdentChar isAlphanumeric c || c == '.') = false := by
    cases rest with
    | nil => rfl
    | cons c rest =>
      obtain ⟨hident, hdot, _⟩ := hends.not_ident hclass c rfl
      simp [hident, hdot]
  cases value with
  | true =>
    have htag : alt (tag "true".toList) (tag "false".toList) ("true".toList ++ rest) = some ("true".toList, rest) := by
      rw [alt, tag_append]
      rfl
    show parseBoolLiteral isAlphanumeric ("true".toList ++ rest) = _
    rw [parseBoolLiteral, htag]
    simp only [Option.bind_eq_bind, Option.bind_some, hnone]
    rfl
  | false =>
    have htag : alt (tag "true".toList) (tag "false".toList) ("false".toList ++ rest) =
        some ("false".toList, rest) := by
      rw [alt, tag_none (by rintro ⟨_, h⟩; cases h), tag_append]
      rfl
    show parseBoolLiteral isAlphanumeric ("false".toList ++ rest) = _
    rw [parseBoolLiteral, htag]
    simp only [Option.bind_eq_bind, Option.bind_some, hnone]
    rfl

theorem parseBoolLiteral_none {input : List Char} (h : ∀ c ∈ input.head?, c ≠ 't' ∧ c ≠ 'f') :
    parseBoolLiteral isAlphanumeric input = none := by
  have hnone (word : List Char) (first : Char) (hword : word.head? = some first) (hne : ∀ c ∈ input.head?, c ≠ first) :
      tag word input = none := by
    apply tag_none
    rintro ⟨tail, rfl⟩
    cases word with
    | nil => cases hword
    | cons c word =>
      cases hword
      exact hne first rfl rfl
  rw [parseBoolLiteral, alt, hnone _ 't' rfl fun c hc => (h c hc).1, hnone _ 'f' rfl fun c hc => (h c hc).2]
  rfl

theorem parseNumberLiteral_none {input : List Char} (h : ∀ c ∈ input.head?, c.isDigit = false ∧ c ≠ '-') :
    parseNumberLiteral input = none := by
  have hminus : char '-' input = none := by
    cases input with
    | nil => rfl
    | cons c rest => exact char_ne (h c rfl).2 rest
  rw [parseNumberLiteral, hminus]
  simp only [takeWhile1_none fun c hc => (h c hc).1]
  rfl

theorem takeWhile1_toDigits (n : Nat) (h : ∀ c ∈ rest.head?, c.isDigit = false) :
    takeWhile1 Char.isDigit (Nat.toDigits 10 n ++ rest) = some (Nat.toDigits 10 n, rest) :=
  takeWhile1_append (fun _ hc => Nat.isDigit_of_mem_toDigits (by decide) (by decide) hc) Nat.toDigits_ne_nil h

theorem head_toDigits (n : Nat) (rest : List Char) :
    ∃ c tail, Nat.toDigits 10 n ++ rest = c :: tail ∧ c.isDigit = true := by
  obtain ⟨c, tail, htail⟩ := List.exists_cons_of_ne_nil (Nat.toDigits_ne_nil (n := n) (b := 10))
  refine ⟨c, tail ++ rest, by rw [htail]; rfl, Nat.isDigit_of_mem_toDigits (by decide) (by decide) (n := n) (b := 10) ?_⟩
  rw [htail]
  exact List.mem_cons_self

theorem parseNumber_text (hclass : Alphanumeric isAlphanumeric) {n : Int} (hwf : -2 ^ 63 ≤ n ∧ n < 2 ^ 63)
 (hends : Ends rest) :
    alt parseNumberLiteral (parsePath isAlphanumeric) (operandText (.numberLiteral n) ++ rest) =
      some (asRead (.numberLiteral n), rest) := by
  have hdigits : ∀ c ∈ rest.head?, c.isDigit = false := fun c hc => (hends.not_ident hclass c hc).2.2
  cases n with
  | ofNat n =>
    have hlt : n < 2 ^ 63 := by
      have hlt := hwf.2
      rw [Int.ofNat_eq_natCast] at hlt
      omega
    have hne : Int.ofNat n ≠ -2 ^ 63 := by
      rw [Int.ofNat_eq_natCast]
      omega
    obtain ⟨c, tail, hhead, hdigit⟩ := head_toDigits n rest
    have hminus : char '-' (Nat.toDigits 10 n ++ rest) = none := by
      rw [hhead]
      refine char_ne ?_ tail
      rintro rfl
      exact absurd hdigit (by decide)
    have hnumber : parseNumberLiteral (Nat.toDigits 10 n ++ rest) = some (.numberLiteral n, rest) := by
      rw [parseNumberLiteral, hminus]
      simp only [takeWhile1_toDigits n hdigits, Option.bind_eq_bind, Option.bind_some, parseI64, Nat.ofDigitChars_ten_toDigits,
        if_pos hlt]
      rfl
    rw [asRead, if_neg hne, alt, operandText, hnumber]
    rfl
  | negSucc n =>
    have hnumber (hlt : n + 1 < 2 ^ 63) :
        parseNumberLiteral ('-' :: Nat.toDigits 10 (n + 1) ++ rest) = some (.numberLiteral (.negSucc n), rest) := by
      rw [List.cons_append, parseNumberLiteral, char_cons]
      simp only [takeWhile1_toDigits (n + 1) hdigits, Option.bind_eq_bind, Option.bind_some, parseI64,
        Nat.ofDigitChars_ten_toDigits, if_pos hlt]
      rfl
    by_cases hlt : n + 1 < 2 ^ 63
    · have hne : Int.negSucc n ≠ -2 ^ 63 := by omega
      rw [asRead, if_neg hne, alt, operandText, hnumber hlt]
      rfl
    · have hleast : n + 1 = 2 ^ 63 := by omega
      have hfail : parseNumberLiteral ('-' :: Nat.toDigits 10 (n + 1) ++ rest) = none := by
        rw [List.cons_append, parseNumberLiteral, char_cons]
        simp only [takeWhile1_toDigits (n + 1) hdigits, Option.bind_eq_bind, Option.bind_some, parseI64,
          Nat.ofDigitChars_ten_toDigits, if_neg hlt]
        rfl
      have hpath := @parsePath_text _ hclass ['-' :: Nat.toDigits 10 (n + 1)] (List.cons_ne_nil _ _) (by
        intro segment hsegment
        rw [List.mem_singleton.mp hsegment]
        refine ⟨List.cons_ne_nil _ _, fun c hc => ?_⟩
        rcases List.mem_cons.mp hc with rfl | hc
        · rw [isIdentChar, beq_self_eq_true, Bool.or_true]
        · exact isIdentChar_digit hclass (Nat.isDigit_of_mem_toDigits (by decide) (by decide) hc))
        rest fun c hc => ⟨(hends.not_ident hclass c hc).1, (hends.not_ident hclass c hc).2.1⟩
      rw [List.intercalate_singleton] at hpath
      have heq : Int.negSucc n = -2 ^ 63 := by omega
      rw [asRead, if_pos heq, alt, operandText, hfail, hpath, hleast]
      rfl

theorem parseBoolLiteral_path (hclass : Alphanumeric isAlphanumeric) {segments : List String}
    (hwf : WellFormed isAlphanumeric (.path segments)) (hends : Ends rest) :
    parseBoolLiteral isAlphanumeric (operandText (.path segments) ++ rest) = none := by
  obtain ⟨hne, hident, htrue, hfalse⟩ := hwf
  obtain ⟨first, segments, rfl⟩ := List.exists_cons_of_ne_nil hne
  have hdot : isIdentChar isAlphanumeric '.' = false := (isIdentChar_ascii hclass (by decide)).trans (by decide)
  -- a keyword at the front of a path is followed by the rest of the name or by a dot
  have hkeyword (word : List Char) (hword : ∀ c ∈ word, isIdentChar isAlphanumeric c = true)
      (hother : first :: segments ≠ [String.ofList word]) {tail : List Char}
      (htail : operandText (.path (first :: segments)) ++ rest = word ++ tail) :
      ∃ c ∈ tail.head?, isIdentChar isAlphanumeric c = true ∨ c = '.' := by
    have hmore (heq : first.toList = word) :
        ∃ more, (segments.map String.toList).flatMap (fun segment => '.' :: segment) = '.' :: more := by
      cases segments with
      | nil => exact absurd (by rw [← heq, String.ofList_toList]) hother
      | cons second segments => exact ⟨_, by rw [List.map_cons, List.flatMap_cons]; rfl⟩
    rw [operandText, List.map_cons, intercalate_dots, List.append_assoc, List.append_eq_append_iff] at htail
    rcases htail with ⟨front, hfront, htail⟩ | ⟨back, hback, htail⟩
    · cases front with
      | nil =>
        rw [List.append_nil] at hfront
        obtain ⟨more, hmore⟩ := hmore hfront.symm
        rw [hmore] at htail
        exact ⟨'.', by rw [← List.nil_append tail, ← htail]; rfl, .inr rfl⟩
      | cons c front =>
        have hc := hword c (hfront ▸ List.mem_append_right _ List.mem_cons_self)
        cases segments with
        | nil =>
          have hend := (hends.not_ident hclass c (by rw [List.map_nil, List.flatMap_nil, List.nil_append] at htail; rw [htail]; rfl)).1
          rw [hc] at hend
          cases hend
        | cons second segments =>
          rw [List.map_cons, List.flatMap_cons] at htail
          obtain rfl : '.' = c := (List.cons.inj htail).1
          rw [hdot] at hc
          cases hc
    · cases back with
      | nil =>
        rw [List.append_nil] at hback
        obtain ⟨more, hmore⟩ := hmore hback
        exact ⟨'.', by rw [htail, hmore]; rfl, .inr rfl⟩
      | cons c back =>
        refine ⟨c, by rw [htail]; rfl, .inl ?_⟩
        exact (hident first List.mem_cons_self).1 c (hback ▸ List.mem_append_right _ List.mem_cons_self)
  have hrefused {tail : List Char} (h : ∃ c ∈ tail.head?, isIdentChar isAlphanumeric c = true ∨ c = '.') :
      tail.head?.any (fun c => isIdentChar isAlphanumeric c || c == '.') = true := by
    obtain ⟨c, hc, hident⟩ := h
    rw [hc, Option.any_some, Bool.or_eq_true, beq_iff_eq]
    exact hident
  have hletters (word : List Char) (h : ∀ c ∈ word, c.toNat < 128 ∧ c.isAlphanum = true) :
      ∀ c ∈ word, isIdentChar isAlphanumeric c = true := by
    intro c hc
    rw [isIdentChar_ascii hclass (h c hc).1, (h c hc).2]
    rfl
  rw [parseBoolLiteral, alt]
  by_cases hword : "true".toList <+: operandText (.path (first :: segments)) ++ rest
  · obtain ⟨tail, htail⟩ := hword
    rw [← htail, tag_append]
    simp only [Option.bind_eq_bind, Option.orElse_eq_orElse, Option.orElse_some, Option.bind_some,
      hrefused (hkeyword _ (hletters _ (by decide)) htrue htail.symm), if_true]
  · rw [tag_none hword]
    by_cases hword : "false".toList <+: operandText (.path (first :: segments)) ++ rest
    · obtain ⟨tail, htail⟩ := hword
      rw [← htail, tag_append]
      simp only [Option.bind_eq_bind, Option.orElse_eq_orElse, Option.orElse_none, Option.bind_some,
        hrefused (hkeyword _ (hletters _ (by decide)) hfalse htail.symm), if_true]
    · rw [tag_none hword]
      rfl

theorem number_head (n : Int) (rest : List Char) :
    ∃ c tail, operandText (.numberLiteral n) ++ rest = c :: tail ∧ (c.isDigit = true ∨ c = '-') := by
  cases n with
  | ofNat n =>
    obtain ⟨c, tail, htext, hdigit⟩ := head_toDigits n rest
    exact ⟨c, tail, htext, .inl hdigit⟩
  | negSucc n => exact ⟨'-', _, rfl, .inr rfl⟩

theorem path_head {segments : List String} (hwf : WellFormed isAlphanumeric (.path segments)) (rest : List Char) :
    ∃ c tail, operandText (.path segments) ++ rest = c :: tail ∧ isIdentChar isAlphanumeric c = true ∧
      c.isDigit = false ∧ c ≠ '-' := by
  obtain ⟨hne, hident, _⟩ := hwf
  obtain ⟨first, segments, rfl⟩ := List.exists_cons_of_ne_nil hne
  obtain ⟨hall, c, hc, hfirst⟩ := hident first List.mem_cons_self
  obtain ⟨tail, htail⟩ : ∃ tail, first.toList = c :: tail := ⟨_, List.eq_cons_of_mem_head? hc⟩
  have htext : operandText (.path (first :: segments)) ++ rest = c :: (tail ++
      ((segments.map String.toList).flatMap (fun segment => '.' :: segment) ++ rest)) := by
    rw [operandText, List.map_cons, intercalate_dots, htail, List.append_assoc]
    rfl
  exact ⟨c, _, htext, hall c (htail ▸ List.mem_cons_self), hfirst⟩

theorem operand_head (hclass : Alphanumeric isAlphanumeric) {operand : Operand}
    (hwf : WellFormed isAlphanumeric operand) (rest : List Char) :
    ∃ c tail, operandText operand ++ rest = c :: tail ∧ isBlank c = false ∧ c ≠ '(' ∧ c ≠ '!' := by
  cases operand with
  | stringLiteral value => exact ⟨'\'', _, rfl, by decide, by decide, by decide⟩
  | boolLiteral value =>
    cases value with
    | true => exact ⟨'t', _, rfl, by decide, by decide, by decide⟩
    | false => exact ⟨'f', _, rfl, by decide, by decide, by decide⟩
  | numberLiteral n =>
    obtain ⟨c, tail, htext, hc⟩ := number_head n rest
    have hne (other : Char) (h : other.isDigit = false) (h' : other ≠ '-') : c ≠ other := by
      rintro rfl
      rcases hc with hc | hc
      · rw [h] at hc
        cases hc
      · exact h' hc
    refine ⟨c, tail, htext, ?_, hne _ (by decide) (by decide), hne _ (by decide) (by decide)⟩
    rw [← Bool.not_eq_true]
    intro hblank
    rcases isBlank_cases hblank with h | h | h | h <;> exact hne _ (by decide) (by decide) h
  | path segments =>
    obtain ⟨c, tail, htext, hc, _⟩ := path_head hwf rest
    have hne (other : Char) (h : other.toNat < 128)
        (h' : (other.isAlphanum || other == '_' || other == '-') = false) : c ≠ other := by
      rintro rfl
      rw [isIdentChar_ascii hclass h, h'] at hc
      cases hc
    refine ⟨c, tail, htext, ?_, hne _ (by decide) (by decide), hne _ (by decide) (by decide)⟩
    rw [← Bool.not_eq_true]
    intro hblank
    rcases isBlank_cases hblank with h | h | h | h <;> exact hne _ (by decide) (by decide) h

theorem parseOperand_text (hclass : Alphanumeric isAlphanumeric) {operand : Operand}
    (hwf : WellFormed isAlphanumeric operand) {blanks : List Char} (hblanks : Blanks blanks) (hends : Ends rest) :
    parseOperand isAlphanumeric (blanks ++ (operandText operand ++ rest)) = some (asRead operand, rest) := by
  have hskip {c : Char} {tail : List Char} (htext : operandText operand ++ rest = c :: tail) (hc : isBlank c = false) :
      multispace0 (blanks ++ (operandText operand ++ rest)) = operandText operand ++ rest := by
    rw [multispace0_append hblanks, htext]
    exact multispace0_of_head fun _ hmem => by cases hmem; exact hc
  cases operand with
  | stringLiteral value =>
    have htext : operandText (.stringLiteral value) ++ rest = '\'' :: (value.toList.flatMap escape ++ ('\'' :: rest)) := by
      rw [operandText, List.cons_append, List.append_assoc]
      rfl
    rw [parseOperand, hskip htext (by decide), htext, alt, parseStringLiteral, char_cons]
    simp only [Option.bind_eq_bind, Option.bind_some, scanString_text]
    rfl
  | boolLiteral value =>
    have hread := parseBoolLiteral_text hclass value hends
    have hstring : parseStringLiteral (operandText (.boolLiteral value) ++ rest) = none := by
      apply parseStringLiteral_none
      cases value <;> · intro c hc; cases hc; decide
    have hblank : multispace0 (blanks ++ (operandText (.boolLiteral value) ++ rest)) =
        operandText (.boolLiteral value) ++ rest := by
      cases value with
      | true => exact hskip (c := 't') rfl (by decide)
      | false => exact hskip (c := 'f') rfl (by decide)
    rw [parseOperand, hblank, alt, hstring, alt, hread]
    rfl
  | numberLiteral n =>
    have hread := parseNumber_text hclass hwf hends
    obtain ⟨c, tail, htext, hc⟩ := number_head n rest
    have hne (other : Char) (hdigit : other.isDigit = false) (hminus : other ≠ '-') : c ≠ other := by
      rintro rfl
      rcases hc with hc | hc
      · rw [hdigit] at hc
        cases hc
      · exact hminus hc
    have hblank : isBlank c = false := by
      rw [← Bool.not_eq_true]
      intro hblank
      rcases isBlank_cases hblank with h | h | h | h <;> exact hne _ (by decide) (by decide) h
    have hstring : parseStringLiteral (c :: tail) = none :=
      parseStringLiteral_none fun _ hmem => by cases hmem; exact hne _ (by decide) (by decide)
    have hbool : parseBoolLiteral isAlphanumeric (c :: tail) = none :=
      parseBoolLiteral_none fun _ hmem => by
        cases hmem
        exact ⟨hne _ (by decide) (by decide), hne _ (by decide) (by decide)⟩
    rw [parseOperand, hskip htext hblank, htext, alt, hstring, alt, hbool, ← htext, hread]
    rfl
  | path segments =>
    obtain ⟨hne, hident, _⟩ := id hwf
    have hbool := parseBoolLiteral_path hclass hwf hends
    have hpath := @parsePath_text _ hclass (segments.map String.toList) (by simpa using hne) (by
      intro segment hsegment
      obtain ⟨segment, hmem, rfl⟩ := List.mem_map.mp hsegment
      obtain ⟨hall, c, hc, _⟩ := hident segment hmem
      refine ⟨?_, hall⟩
      rintro hnil
      rw [hnil] at hc
      cases hc)
      rest fun c hc => ⟨(hends.not_ident hclass c hc).1, (hends.not_ident hclass c hc).2.1⟩
    rw [List.map_map, show String.ofList ∘ String.toList = id from funext fun s => String.ofList_toList, List.map_id] at hpath
    obtain ⟨c, tail, htext, hc, hdigit, hminus⟩ := path_head hwf rest
    have hne (other : Char) (hother : isIdentChar isAlphanumeric other = false) : c ≠ other := by
      rintro rfl
      rw [hc] at hother
      cases hother
    have hspecial (other : Char) (h : other.toNat < 128)
        (h' : (other.isAlphanum || other == '_' || other == '-') = false) : c ≠ other :=
      hne other ((isIdentChar_ascii hclass h).trans h')
    have hblank : isBlank c = false := by
      rw [← Bool.not_eq_true]
      intro hblank
      rcases isBlank_cases hblank with h | h | h | h <;> exact hspecial _ (by decide) (by decide) h
    have hstring : parseStringLiteral (c :: tail) = none :=
      parseStringLiteral_none fun _ hmem => by cases hmem; exact hspecial _ (by decide) (by decide)
    have hnumber : parseNumberLiteral (c :: tail) = none :=
      parseNumberLiteral_none fun _ hmem => by cases hmem; exact ⟨hdigit, hminus⟩
    rw [htext] at hbool
    rw [parseOperand, hskip htext hblank, htext, alt, hstring, alt, hbool, alt, hnumber, ← htext]
    exact hpath

end

end Gqlforge.AccessTexts
