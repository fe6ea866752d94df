import Mathlib.Data.List.Basic

namespace Gqlforge.SelectionTexts

inductive Token where
  | name (text : String)
  | opening
  | closing

inductive Selection where
  | field (name : String) (selections : List Selection)

def isNameStart (c : Char) : Bool :=
  c.isAlpha || c == '_'

def isNameContinue (c : Char) : Bool :=
  c.isAlphanum || c == '_'

def IsName (name : String) : Prop :=
  ∃ first rest, name.toList = first :: rest ∧ isNameStart first = true ∧ ∀ c ∈ rest, isNameContinue c = true

def isIgnored (c : Char) : Bool :=
  c == ' ' || c == '\t' || c == '\n' || c == '\r' || c == ',' || c == '\uFEFF'

def wordToken : List Char → List Token
  | [] => []
  | word => [.name (String.ofList word)]

def lex (word : List Char) (comment : Bool) : List Char → Option (List Token)
  | [] => some (wordToken word)
  | c :: rest =>
    if comment then lex word (c != '\n') rest
    else if isNameContinue c && (!word.isEmpty || isNameStart c) then lex (word ++ [c]) false rest
    else Option.map (wordToken word ++ ·) <|
      if isIgnored c then lex [] false rest
      else if c = '\x7b' then (lex [] false rest).map (.opening :: ·)
      else if c = '\x7d' then (lex [] false rest).map (.closing :: ·)
      else if c = '#' then lex [] true rest
      else none

def parseSelections : Nat → List Token → Option (List Selection × List Token)
  | fuel + 1, .name name :: .opening :: tokens => match parseSelections fuel tokens with
    | some (first :: children, .closing :: rest) =>
      (parseSelections fuel rest).map fun (siblings, rest) => (.field name (first :: children) :: siblings, rest)
    | _ => none
  | fuel + 1, .name name :: tokens =>
    (parseSelections fuel tokens).map fun (siblings, rest) => (.field name [] :: siblings, rest)
  | _, tokens => some ([], tokens)

def readSelections (text : String) : Option (List Selection) :=
  (lex [] false text.toList).bind fun tokens => match parseSelections tokens.length tokens with
    | some (selections, []) => some selections
    | _ => none

def Selects : List Selection → List String → Prop
  | _, [] => True
  | selections, name :: path => ∃ children, .field name children ∈ selections ∧ Selects children path

mutual

def tokensOfField : Selection → List Token
  | .field name [] => [.name name]
  | .field name (first :: children) => .name name :: .opening :: tokensOf (first :: children) ++ [.closing]

def tokensOf : List Selection → List Token
  | [] => []
  | selection :: selections => tokensOfField selection ++ tokensOf selections

end

example (fuel : Nat) (name : String) :
    parseSelections (fuel + 1) (tokensOf [.field name []]) = some ([.field name []], []) := by
  simp [tokensOf, tokensOfField, parseSelections]

example : lex [] false ['i', 'd', '\x7b'] = some [.name "id", .opening] := by
  simp [lex, isNameContinue, isNameStart, isIgnored, wordToken, Char.isAlphanum, Char.isAlpha, Char.isLower]

theorem parseSelections_tokensOf (fuel : Nat) (selections : List Selection) {rest : List Token}
    (hrest : rest = [] ∨ ∃ tail, rest = .closing :: tail) (hfuel : (tokensOf selections).length ≤ fuel) :
    parseSelections fuel (tokensOf selections ++ rest) = some (selections, rest) := by
  induction fuel generalizing selections rest with
  | zero =>
    match selections with
    | [] => rcases hrest with rfl | ⟨tail, rfl⟩ <;> rfl
    | .field name [] :: selections | .field name (_ :: _) :: selections => simp [tokensOf, tokensOfField] at hfuel
  | succ fuel ih =>
    match selections with
    | [] => rcases hrest with rfl | ⟨tail, rfl⟩ <;> rfl
    | .field name [] :: selections =>
      have hnext : ∀ tokens, tokensOf selections ++ rest ≠ .opening :: tokens := by
        intro tokens
        match selections with
        | [] => rcases hrest with rfl | ⟨tail, rfl⟩ <;> simp [tokensOf]
        | .field name [] :: selections | .field name (_ :: _) :: selections => simp [tokensOf, tokensOfField]
      simp only [tokensOf, tokensOfField, List.cons_append, List.nil_append, List.length_cons] at hfuel ⊢
      have hparse := ih selections hrest (by omega)
      rw [parseSelections, hparse]
      · rfl
      · exact hnext
    | .field name (first :: children) :: selections =>
      have hlength : (tokensOf (.field name (first :: children) :: selections)).length =
          (tokensOf (first :: children)).length + (tokensOf selections).length + 3 := by
        rw [tokensOf, tokensOfField]
        simp only [List.length_append, List.length_cons, List.length_nil]
        omega
      have happend : tokensOf (.field name (first :: children) :: selections) ++ rest =
          .name name :: .opening :: (tokensOf (first :: children) ++ (.closing :: (tokensOf selections ++ rest))) := by
        rw [tokensOf, tokensOfField]
        simp
      rw [happend, parseSelections, ih (first :: children) (.inr ⟨_, rfl⟩) (by omega)]
      simp only
      rw [ih selections hrest (by omega)]
      rfl

theorem readSelections_eq {text : String} {selections : List Selection}
    (h : lex [] false text.toList = some (tokensOf selections)) : readSelections text = some selections := by
  have hparse := parseSelections_tokensOf (tokensOf selections).length selections (.inl rfl) (Nat.le_refl _)
  rw [List.append_nil] at hparse
  rw [readSelections, h, Option.bind_some, hparse]

theorem isNameContinue_of_start {c : Char} (h : isNameStart c = true) : isNameContinue c = true := by
  rw [isNameStart, Bool.or_eq_true] at h
  rw [isNameContinue, Char.isAlphanum, Bool.or_eq_true, Bool.or_eq_true]
  exact h.imp .inl id

theorem lex_word {word : List Char} (hword : word ≠ []) {chars : List Char}
    (hchars : ∀ c ∈ chars, isNameContinue c = true) (rest : List Char) :
    lex word false (chars ++ rest) = lex (word ++ chars) false rest := by
  induction chars generalizing word with
  | nil => rw [List.nil_append, List.append_nil]
  | cons c chars ih =>
    have hempty : word.isEmpty = false := by simpa using hword
    have hc : (isNameContinue c && (!word.isEmpty || isNameStart c)) = true := by
      rw [hchars c List.mem_cons_self, hempty]
      rfl
    rw [List.cons_append, lex, if_neg Bool.false_ne_true, if_pos hc,
      ih (by simp) fun d hd => hchars d (List.mem_cons_of_mem c hd), List.append_assoc]
    rfl

theorem lex_name {name : String} (h : IsName name) (rest : List Char) :
    lex [] false (name.toList ++ rest) = lex name.toList false rest := by
  obtain ⟨first, tail, hname, hfirst, htail⟩ := h
  have hc : (isNameContinue first && (!([] : List Char).isEmpty || isNameStart first)) = true := by
    rw [isNameContinue_of_start hfirst, hfirst]
    rfl
  rw [hname, List.cons_append, lex, if_neg Bool.false_ne_true, if_pos hc, List.nil_append,
    lex_word (List.cons_ne_nil first []) htail]
  rfl

theorem lex_space (word rest : List Char) :
    lex word false (' ' :: rest) = (lex [] false rest).map (wordToken word ++ ·) := by
  rw [lex]
  simp [isNameContinue, isIgnored]

theorem lex_opening (rest : List Char) : lex [] false ('\x7b' :: rest) = (lex [] false rest).map (.opening :: ·) := by
  rw [lex]
  simp [isNameContinue, isIgnored, wordToken, Function.comp_def]

theorem lex_closing (rest : List Char) : lex [] false ('\x7d' :: rest) = (lex [] false rest).map (.closing :: ·) := by
  rw [lex]
  simp [isNameContinue, isIgnored, wordToken, Function.comp_def]

theorem wordToken_cons (c : Char) (word : List Char) :
    wordToken (c :: word) = [.name (String.ofList (c :: word))] := rfl

theorem wordToken_name {name : String} (h : IsName name) : wordToken name.toList = [.name name] := by
  obtain ⟨first, rest, hname, _⟩ := h
  rw [hname, wordToken_cons, ← hname, String.ofList_toList]

theorem isName_of_lex {input word : List Char} {comment : Bool} {tokens : List Token}
    (h : lex word comment input = some tokens) (hword : word = [] ∨ IsName (String.ofList word)) :
    ∀ name, .name name ∈ tokens → IsName name := by
  have hwordToken {word : List Char} (hword : word = [] ∨ IsName (String.ofList word)) :
      ∀ name, .name name ∈ wordToken word → IsName name := by
    intro name hname
    cases word with
    | nil => cases hname
    | cons c word =>
      rw [wordToken_cons, List.mem_singleton, Token.name.injEq] at hname
      rw [hname]
      exact hword.resolve_left (List.cons_ne_nil c word)
  induction input generalizing word comment tokens with
  | nil =>
    obtain rfl := Option.some.inj h
    exact hwordToken hword
  | cons c rest ih =>
    rw [lex] at h
    split at h
    · exact ih h hword
    split at h
    next hc =>
      rw [Bool.and_eq_true, Bool.or_eq_true] at hc
      refine ih h (.inr ?_)
      cases word with
      | nil => exact ⟨c, [], String.toList_ofList, hc.2.resolve_left (by simp), by simp⟩
      | cons first word =>
        obtain ⟨first', word', heq, hfirst, hcontinue⟩ := hword.resolve_left (List.cons_ne_nil first word)
        obtain ⟨rfl, rfl⟩ := List.cons.inj (String.toList_ofList.symm.trans heq)
        refine ⟨first, word ++ [c], String.toList_ofList, hfirst, ?_⟩
        intro d hd
        rcases List.mem_append.mp hd with hd | hd
        · exact hcontinue d hd
        · rw [List.mem_singleton.mp hd]
          exact hc.1
    next =>
      obtain ⟨following, hfollowing, rfl⟩ := Option.map_eq_some_iff.mp h
      intro name hname
      refine (List.mem_append.mp hname).elim (hwordToken hword name) fun hname => ?_
      split at hfollowing
      · exact ih hfollowing (.inl rfl) name hname
      split at hfollowing
      · obtain ⟨later, hlater, rfl⟩ := Option.map_eq_some_iff.mp hfollowing
        exact ih hlater (.inl rfl) name ((List.mem_cons.mp hname).resolve_left Token.noConfusion)
      split at hfollowing
      · obtain ⟨later, hlater, rfl⟩ := Option.map_eq_some_iff.mp hfollowing
        exact ih hlater (.inl rfl) name ((List.mem_cons.mp hname).resolve_left Token.noConfusion)
      split at hfollowing
      · exact ih hfollowing (.inl rfl) name hname
      · cases hfollowing

theorem mem_of_parseSelections {fuel : Nat} {tokens rest : List Token} {selections : List Selection}
    (h : parseSelections fuel tokens = some (selections, rest)) :
    rest ⊆ tokens ∧ ∀ path, Selects selections path → ∀ part ∈ path, .name part ∈ tokens := by
  have hnil {tokens : List Token} : ∀ path, Selects [] path → ∀ part ∈ path, .name part ∈ tokens := by
    intro path hpath
    cases path with
    | nil => simp
    | cons name path =>
      obtain ⟨_, hmem, _⟩ := hpath
      cases hmem
  have hcons {tokens : List Token} {name : String} {children siblings : List Selection} (hname : .name name ∈ tokens)
      (hchildren : ∀ path, Selects children path → ∀ part ∈ path, .name part ∈ tokens)
      (hsiblings : ∀ path, Selects siblings path → ∀ part ∈ path, .name part ∈ tokens) :
      ∀ path, Selects (.field name children :: siblings) path → ∀ part ∈ path, .name part ∈ tokens := by
    intro path hpath
    cases path with
    | nil => simp
    | cons first path =>
      obtain ⟨selected, hmem, hpath⟩ := hpath
      rcases List.mem_cons.mp hmem with heq | hmem
      · obtain ⟨rfl, rfl⟩ := Selection.field.inj heq
        intro part hpart
        rcases List.mem_cons.mp hpart with rfl | hpart
        · exact hname
        · exact hchildren path hpath part hpart
      · exact hsiblings (first :: path) ⟨selected, hmem, hpath⟩
  induction fuel generalizing tokens rest selections with
  | zero =>
    obtain ⟨rfl, rfl⟩ := Prod.mk.inj (Option.some.inj h)
    exact ⟨List.Subset.refl _, hnil⟩
  | succ fuel ih =>
    rw [parseSelections.eq_def] at h
    split at h
    next fuel' name following hfuel =>
      obtain rfl := Nat.succ.inj hfuel
      split at h
      next first children later hchildren =>
        obtain ⟨⟨siblings, last⟩, hsiblings, heq⟩ := Option.map_eq_some_iff.mp h
        obtain ⟨rfl, rfl⟩ := Prod.mk.inj heq
        obtain ⟨hrest, hpaths⟩ := ih hchildren
        obtain ⟨hlast, hpaths'⟩ := ih hsiblings
        have hlater : later ⊆ .name name :: .opening :: following := fun token htoken =>
          List.mem_cons_of_mem _ (List.mem_cons_of_mem _ (hrest (List.mem_cons_of_mem _ htoken)))
        refine ⟨List.Subset.trans hlast hlater, hcons List.mem_cons_self ?_ ?_⟩
        · intro path hpath part hpart
          exact List.mem_cons_of_mem _ (List.mem_cons_of_mem _ (hpaths path hpath part hpart))
        · exact fun path hpath part hpart => hlater (hpaths' path hpath part hpart)
      next => cases h
    next fuel' name following hnext hfuel =>
      obtain rfl := Nat.succ.inj hfuel
      obtain ⟨⟨siblings, last⟩, hsiblings, heq⟩ := Option.map_eq_some_iff.mp h
      obtain ⟨rfl, rfl⟩ := Prod.mk.inj heq
      obtain ⟨hlast, hpaths⟩ := ih hsiblings
      exact ⟨fun token htoken => List.mem_cons_of_mem _ (hlast htoken), hcons List.mem_cons_self hnil
        fun path hpath part hpart => List.mem_cons_of_mem _ (hpaths path hpath part hpart)⟩
    next =>
      obtain ⟨rfl, rfl⟩ := Prod.mk.inj (Option.some.inj h)
      exact ⟨List.Subset.refl _, hnil⟩

theorem isName_of_selects {text : String} {selections : List Selection} (h : readSelections text = some selections)
    {path : List String} (hpath : Selects selections path) : ∀ part ∈ path, IsName part := by
  obtain ⟨tokens, hlex, hparse⟩ := Option.bind_eq_some_iff.mp h
  split at hparse
  next found hfound =>
    obtain rfl := Option.some.inj hparse
    intro part hpart
    exact isName_of_lex hlex (.inl rfl) part ((mem_of_parseSelections hfound).2 path hpath part hpart)
  next => cases hparse

end Gqlforge.SelectionTexts
