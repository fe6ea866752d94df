import Mathlib.Data.List.Basic

namespace Gqlforge.SqlTokens

inductive Token where
  | quoted (name : String)
  | placeholder (number : Nat)
  | word (letters : String)
  | number (value : Nat)
  | symbol (c : Char)
  deriving DecidableEq

def isSpace (c : Char) : Bool :=
  c == ' ' || c == '\t' || c == '\n' || c == '\r'

def isWordChar (c : Char) : Bool :=
  c.isAlphanum || c == '_' || c == '$' || 128 ≤ c.toNat

def readQuoted : List Char → Option (List Char × List Char)
  | [] => none
  | '"' :: '"' :: rest => (readQuoted rest).map fun (name, rest) => ('"' :: name, rest)
  | '"' :: rest => some ([], rest)
  | c :: rest => (readQuoted rest).map fun (name, rest) => (c :: name, rest)

def readNumber (input : List Char) : Nat × List Char :=
  (Nat.ofDigitChars 10 (input.takeWhile Char.isDigit) 0, input.dropWhile Char.isDigit)

def readToken : List Char → Option (Token × List Char)
  | [] => none
  | c :: rest =>
    if c = '"' then (readQuoted rest).map fun (name, rest) => (.quoted (String.ofList name), rest)
    else if c = '$' ∧ rest.head?.any Char.isDigit then
      some (.placeholder (readNumber rest).1, (readNumber rest).2)
    else if c.isDigit then some (.number (readNumber (c :: rest)).1, (readNumber (c :: rest)).2)
    else if isWordChar c then
      some (.word (String.ofList (c :: rest.takeWhile isWordChar)), rest.dropWhile isWordChar)
    else some (.symbol c, rest)

variable {rest : List Char}

theorem readQuoted_length {input name : List Char} (h : readQuoted input = some (name, rest)) :
    rest.length < input.length := by
  induction input using readQuoted.induct generalizing name rest with
  | case1 => cases h
  | case2 input ih =>
    rw [readQuoted, Option.map_eq_some_iff] at h
    obtain ⟨⟨name', rest'⟩, hread, heq⟩ := h
    cases heq
    have := ih hread
    simp only [List.length_cons]
    omega
  | case3 input hquote =>
    rw [readQuoted] at h
    · cases h
      simp
    · exact hquote
  | case4 c input hpair hquote ih =>
    rw [readQuoted] at h
    · rw [Option.map_eq_some_iff] at h
      obtain ⟨⟨name', rest'⟩, hread, heq⟩ := h
      cases heq
      have := ih hread
      simp only [List.length_cons]
      omega
    · exact hpair
    · exact hquote

theorem length_dropWhile_le (p : Char → Bool) (input : List Char) : (input.dropWhile p).length ≤ input.length :=
  (List.dropWhile_suffix p).length_le

theorem readToken_length {input : List Char} {token : Token} (h : readToken input = some (token, rest)) :
    rest.length < input.length := by
  cases input with
  | nil => cases h
  | cons c tail =>
    have hdigits := length_dropWhile_le Char.isDigit tail
    have hletters := length_dropWhile_le isWordChar tail
    rw [readToken] at h
    simp only [List.length_cons]
    split at h
    · rw [Option.map_eq_some_iff] at h
      obtain ⟨⟨name, rest'⟩, hread, heq⟩ := h
      cases heq
      have := readQuoted_length hread
      omega
    split at h
    · cases h
      exact Nat.lt_succ_of_le hdigits
    split at h
    next hdigit =>
      cases h
      rw [readNumber, List.dropWhile_cons_of_pos hdigit]
      exact Nat.lt_succ_of_le hdigits
    split at h
    all_goals
      cases h
      omega

def lex (input : List Char) : Option (List Token) :=
  if input.dropWhile isSpace = [] then some []
  else
    match _h : readToken (input.dropWhile isSpace) with
    | some (token, rest) => (lex rest).map (token :: ·)
    | none => none
termination_by input.length
decreasing_by exact Nat.lt_of_lt_of_le (readToken_length _h) (length_dropWhile_le isSpace input)

variable {c : Char}

theorem lex_space (h : isSpace c = true) (rest : List Char) : lex (c :: rest) = lex rest := by
  rw [lex, List.dropWhile_cons_of_pos h, lex]

theorem lex_token {tail : List Char} {token : Token} (hc : isSpace c = false)
    (h : readToken (c :: tail) = some (token, rest)) : lex (c :: tail) = (lex rest).map (token :: ·) := by
  have hdrop : (c :: tail).dropWhile isSpace = c :: tail := List.dropWhile_cons_of_neg (by rw [hc]; exact Bool.false_ne_true)
  rw [lex, hdrop, if_neg (List.cons_ne_nil c tail)]
  split
  next heq =>
    rw [h] at heq
    cases heq
    rfl
  next heq =>
    rw [h] at heq
    cases heq

/-! ## Spelled tokens -/

def Delimits (rest : List Char) : Prop :=
  ∀ c ∈ rest.head?, isWordChar c = false ∧ c ≠ '"'

def Spells (tokens : List Token) (text : String) : Prop :=
  ∀ rest, Delimits rest → lex (text.toList ++ rest) = (lex rest).map (tokens ++ ·)

def Opens (tokens : List Token) (text : String) : Prop :=
  ∀ rest, lex (text.toList ++ rest) = (lex rest).map (tokens ++ ·)

def Parts (text : String) : Prop :=
  text ≠ "" ∧ Delimits text.toList

theorem Parts.append {text : String} (h : Parts text) (rest : List Char) : Delimits (text.toList ++ rest) := by
  obtain ⟨hne, hdelimits⟩ := h
  cases htext : text.toList with
  | nil => exact absurd (String.toList_eq_nil_iff.mp htext) hne
  | cons c tail =>
    rw [htext] at hdelimits
    exact hdelimits

variable {tokens tokens' : List Token} {text text' : String}

theorem Opens.spells (h : Opens tokens text) : Spells tokens text :=
  fun rest _ => h rest

theorem lex_append (h : lex rest = (lex []).map (tokens' ++ ·)) : lex rest = some tokens' := by
  rw [h, lex]
  simp

theorem Spells.lex (h : Spells tokens text) : lex text.toList = some tokens := by
  have hend := h [] nofun
  rw [List.append_nil] at hend
  exact lex_append hend

theorem map_append (read : Option (List Token)) :
    (read.map (tokens' ++ ·)).map (tokens ++ ·) = read.map (tokens ++ tokens' ++ ·) := by
  rw [Option.map_map]
  congr 1
  funext rest
  exact (List.append_assoc tokens tokens' rest).symm

theorem Opens.append_spells (h : Opens tokens text) (h' : Spells tokens' text') :
    Spells (tokens ++ tokens') (text ++ text') := by
  intro rest hrest
  rw [String.toList_append, List.append_assoc, h, h' rest hrest, map_append]

theorem Opens.append (h : Opens tokens text) (h' : Opens tokens' text') :
    Opens (tokens ++ tokens') (text ++ text') := by
  intro rest
  rw [String.toList_append, List.append_assoc, h, h' rest, map_append]

theorem Spells.append_opens (h : Spells tokens text) (hparts : Parts text') (h' : Opens tokens' text') :
    Opens (tokens ++ tokens') (text ++ text') := by
  intro rest
  rw [String.toList_append, List.append_assoc, h _ (hparts.append rest), h' rest, map_append]

theorem spells_nil : Spells [] "" := by
  intro rest _
  simp

theorem Spells.intercalate {separator : String} {between : List Token} (hparts : Parts separator)
    (hopens : Opens between separator) {items : List (List Token × String)} (h : ∀ item ∈ items, Spells item.1 item.2) :
    Spells (between.intercalate (items.map Prod.fst)) (separator.intercalate (items.map Prod.snd)) := by
  induction items with
  | nil =>
    rw [List.map_nil, List.map_nil, List.intercalate_nil, String.intercalate_nil]
    exact spells_nil
  | cons item items ih =>
    obtain ⟨hitem, hitems⟩ := List.forall_mem_cons.mp h
    cases items with
    | nil =>
      rw [List.map_singleton, List.map_singleton, List.intercalate_singleton, String.intercalate_singleton]
      exact hitem
    | cons next items =>
      have hrest := ih hitems
      simp only [List.map_cons, List.intercalate_cons_cons, String.intercalate_cons_cons] at hrest ⊢
      exact (hitem.append_opens hparts hopens).append_spells hrest

/-! ## Single tokens -/

def doubled (name : List Char) : List Char :=
  name.flatMap fun c => if c = '"' then ['"', '"'] else [c]

theorem readQuoted_doubled (name : List Char) (h : rest.head? ≠ some '"') :
    readQuoted (doubled name ++ '"' :: rest) = some (name, rest) := by
  induction name with
  | nil =>
    rw [doubled, List.flatMap_nil, List.nil_append, readQuoted]
    rintro tail rfl
    exact h rfl
  | cons c name ih =>
    rw [doubled, List.flatMap_cons]
    change readQuoted ((if c = '"' then ['"', '"'] else [c]) ++ doubled name ++ '"' :: rest) = _
    by_cases hc : c = '"'
    · rw [if_pos hc, hc]
      change readQuoted ('"' :: '"' :: (doubled name ++ '"' :: rest)) = _
      rw [readQuoted, ih]
      rfl
    · rw [if_neg hc]
      change readQuoted (c :: (doubled name ++ '"' :: rest)) = _
      rw [readQuoted, ih]
      · rfl
      · rintro tail rfl
        exact absurd rfl hc
      · rintro rfl
        exact absurd rfl hc

theorem spells_quoted (name : String) :
    Spells [.quoted name] (String.ofList ('"' :: doubled name.toList ++ ['"'])) := by
  intro rest hrest
  have hhead : rest.head? ≠ some '"' := fun h => (hrest _ h).2 rfl
  have hread : readToken ('"' :: (doubled name.toList ++ '"' :: rest)) = some (.quoted name, rest) := by
    rw [readToken, if_pos rfl, readQuoted_doubled _ hhead]
    exact congrArg (fun name => some (Token.quoted name, rest)) String.ofList_toList
  have htext : (String.ofList ('"' :: doubled name.toList ++ ['"'])).toList ++ rest =
      '"' :: (doubled name.toList ++ '"' :: rest) := by
    rw [String.toList_ofList, List.cons_append, List.cons_append, List.append_assoc]
    rfl
  rw [htext, lex_token (by decide) hread]
  rfl

theorem takeWhile_stop {p : Char → Bool} (h : ∀ c ∈ rest.head?, p c = false) : rest.takeWhile p = [] := by
  cases rest with
  | nil => rfl
  | cons c rest => exact List.takeWhile_cons_of_neg (by rw [h c rfl]; exact Bool.false_ne_true)

theorem dropWhile_stop {p : Char → Bool} (h : ∀ c ∈ rest.head?, p c = false) : rest.dropWhile p = rest := by
  cases rest with
  | nil => rfl
  | cons c rest => exact List.dropWhile_cons_of_neg (by rw [h c rfl]; exact Bool.false_ne_true)

theorem not_digit (h : isWordChar c = false) : c.isDigit = false := by
  cases hdigit : c.isDigit with
  | false => rfl
  | true =>
    rw [isWordChar, Char.isAlphanum, hdigit, Bool.or_true, Bool.true_or, Bool.true_or, Bool.true_or] at h
    cases h

theorem readNumber_toDigits (n : Nat) (h : Delimits rest) : readNumber (Nat.toDigits 10 n ++ rest) = (n, rest) := by
  have hdigits : ∀ c ∈ Nat.toDigits 10 n, c.isDigit = true :=
    fun c hc => Nat.isDigit_of_mem_toDigits (by decide) (by decide) hc
  have hstop : ∀ c ∈ rest.head?, c.isDigit = false := fun c hc => not_digit (h c hc).1
  rw [readNumber, List.takeWhile_append_of_pos hdigits, List.dropWhile_append_of_pos hdigits,
    takeWhile_stop hstop, dropWhile_stop hstop, List.append_nil, Nat.ofDigitChars_ten_toDigits]

theorem toList_toString (n : Nat) : (toString n).toList = Nat.toDigits 10 n :=
  Nat.toList_repr

theorem toDigits_head (n : Nat) : ∃ c tail, Nat.toDigits 10 n = c :: tail ∧ c.isDigit = true := by
  cases h : Nat.toDigits 10 n with
  | nil => exact absurd h Nat.toDigits_ne_nil
  | cons c tail =>
    refine ⟨c, tail, rfl, Nat.isDigit_of_mem_toDigits (b := 10) (n := n) (by decide) (by decide) ?_⟩
    rw [h]
    exact List.mem_cons_self

theorem spells_placeholder (n : Nat) : Spells [.placeholder n] ("$" ++ toString n) := by
  intro rest hrest
  obtain ⟨c, tail, hhead, hdigit⟩ := toDigits_head n
  have htext : ("$" ++ toString n).toList ++ rest = '$' :: (Nat.toDigits 10 n ++ rest) := by
    rw [String.toList_append, toList_toString]
    rfl
  have hdollar : '$' = '$' ∧ (Nat.toDigits 10 n ++ rest).head?.any Char.isDigit = true := by
    rw [hhead]
    exact ⟨rfl, hdigit⟩
  have hread : readToken ('$' :: (Nat.toDigits 10 n ++ rest)) = some (.placeholder n, rest) := by
    rw [readToken, if_neg (by decide), if_pos hdollar, readNumber_toDigits n hrest]
  rw [htext, lex_token (by decide) hread]
  rfl

theorem isDigit_plain (h : c.isDigit = true) : isSpace c = false ∧ c ≠ '"' ∧ c ≠ '$' := by
  refine ⟨?_, ?_, ?_⟩
  · rw [Bool.eq_false_iff]
    intro hspace
    simp only [isSpace, Bool.or_eq_true, beq_iff_eq] at hspace
    obtain ((rfl | rfl) | rfl) | rfl := hspace
    all_goals exact absurd h (by decide)
  all_goals
    rintro rfl
    exact absurd h (by decide)

theorem spells_number (n : Nat) : Spells [.number n] (toString n) := by
  intro rest hrest
  obtain ⟨c, tail, hhead, hdigit⟩ := toDigits_head n
  obtain ⟨hspace, hquote, hdollar⟩ := isDigit_plain hdigit
  have hnumber := readNumber_toDigits n hrest
  rw [hhead, List.cons_append] at hnumber
  have hread : readToken (c :: (tail ++ rest)) = some (.number n, rest) := by
    rw [readToken, if_neg hquote, if_neg fun h => hdollar h.1, if_pos hdigit, hnumber]
  rw [toList_toString, hhead, List.cons_append, lex_token hspace hread]
  rfl

def isKeyword (word : List Char) : Bool :=
  word.head?.any Char.isAlpha && word.all isWordChar

theorem isAlpha_plain (h : c.isAlpha = true) : isSpace c = false ∧ c ≠ '"' ∧ c ≠ '$' ∧ c.isDigit = false := by
  refine ⟨?_, ?_, ?_, ?_⟩
  · rw [Bool.eq_false_iff]
    intro hspace
    simp only [isSpace, Bool.or_eq_true, beq_iff_eq] at hspace
    obtain ((rfl | rfl) | rfl) | rfl := hspace
    all_goals exact absurd h (by decide)
  · rintro rfl
    exact absurd h (by decide)
  · rintro rfl
    exact absurd h (by decide)
  · unfold Char.isAlpha Char.isUpper Char.isLower at h
    unfold Char.isDigit
    simp only [UInt32.le_iff_toNat_le, Bool.or_eq_true, Bool.and_eq_true, decide_eq_true_eq, Bool.and_eq_false_iff,
      decide_eq_false_iff_not, Char.reduceVal, UInt32.reduceToNat] at h ⊢
    omega

theorem spells_word {word : String} (h : isKeyword word.toList = true) : Spells [.word word] word := by
  intro rest hrest
  have hstop : ∀ c ∈ rest.head?, isWordChar c = false := fun c hc => (hrest c hc).1
  cases hword : word.toList with
  | nil =>
    rw [hword] at h
    cases h
  | cons c tail =>
    rw [hword, isKeyword, Bool.and_eq_true, List.all_cons, Bool.and_eq_true] at h
    obtain ⟨halpha, hc, htail⟩ := h
    obtain ⟨hspace, hquote, hdollar, hdigit⟩ := isAlpha_plain halpha
    have hall : ∀ c ∈ tail, isWordChar c = true := List.all_eq_true.mp htail
    have hread : readToken (c :: (tail ++ rest)) = some (.word word, rest) := by
      rw [readToken, if_neg hquote, if_neg fun h => hdollar h.1, if_neg (by rw [hdigit]; exact Bool.false_ne_true),
        if_pos hc, List.takeWhile_append_of_pos hall, List.dropWhile_append_of_pos hall, takeWhile_stop hstop,
        dropWhile_stop hstop, List.append_nil, ← hword, String.ofList_toList]
    rw [List.cons_append, lex_token hspace hread]
    rfl

theorem opens_space : Opens [] " " := by
  intro rest
  rw [show " ".toList ++ rest = ' ' :: rest from rfl, lex_space (by decide)]
  simp

theorem opens_symbol (hspace : isSpace c = false) (hword : isWordChar c = false) (hquote : c ≠ '"') :
    Opens [.symbol c] (String.singleton c) := by
  intro rest
  have hdollar : c ≠ '$' := by
    rintro rfl
    cases hword
  have hread : readToken (c :: rest) = some (.symbol c, rest) := by
    rw [readToken, if_neg hquote, if_neg fun h => hdollar h.1, if_neg (by rw [not_digit hword]; exact Bool.false_ne_true),
      if_neg (by rw [hword]; exact Bool.false_ne_true)]
  rw [String.toList_singleton, List.singleton_append, lex_token hspace hread]
  rfl

end Gqlforge.SqlTokens
