import Gqlforge.SqlTokens

namespace Gqlforge.SqlStatements

open SqlTokens

/-! ## Texts that carry their tokens -/

structure Phrase where
  text : String
  tokens : List Token
  spells : Spells tokens text

structure Opening where
  text : String
  tokens : List Token
  opens : Opens tokens text

structure Gap extends Opening where
  parts : Parts text

def spaced : List String → String
  | [] => ""
  | word :: words => word ++ " " ++ spaced words

theorem parts_singleton {c : Char} (hword : isWordChar c = false) (hquote : c ≠ '"') : Parts (String.singleton c) := by
  refine ⟨fun hempty => ?_, fun c' hc' => ?_⟩
  · have hnil := congrArg String.toList hempty
    rw [String.toList_singleton] at hnil
    cases hnil
  · rw [String.toList_singleton] at hc'
    cases hc'
    exact ⟨hword, hquote⟩

theorem parts_space : Parts " " :=
  parts_singleton (c := ' ') (by decide) (by decide)

theorem opens_nil : Opens [] "" := by
  intro rest
  simp

theorem opens_spaced {words : List String} (h : ∀ word ∈ words, isKeyword word.toList = true) :
    Opens (words.map .word) (spaced words) := by
  induction words with
  | nil => exact opens_nil
  | cons word words ih =>
    obtain ⟨hword, hwords⟩ := List.forall_mem_cons.mp h
    exact ((spells_word hword).append_opens parts_space opens_space).append (ih hwords)

def Opening.words (text : String) (words : List String) (htext : text = spaced words)
    (hwords : ∀ word ∈ words, isKeyword word.toList = true) : Opening where
  text := text
  tokens := words.map .word
  opens := htext ▸ opens_spaced hwords

theorem parts_append {text : String} (h : Parts text) (more : String) : Parts (text ++ more) := by
  refine ⟨fun hempty => h.1 ?_, ?_⟩
  · exact (String.append_eq_empty_iff.mp hempty).1
  · rw [String.toList_append]
    exact h.append more.toList

namespace Gap

def words (text : String) (words : List String) (htext : text = " " ++ spaced words)
    (hwords : ∀ word ∈ words, isKeyword word.toList = true) : Gap where
  text := text
  tokens := words.map .word
  opens := htext ▸ opens_space.append (opens_spaced hwords)
  parts := htext ▸ parts_append parts_space _

def symbol (c : Char) (hspace : isSpace c = false) (hword : isWordChar c = false) (hquote : c ≠ '"') : Gap where
  text := String.singleton c
  tokens := [.symbol c]
  opens := opens_symbol hspace hword hquote
  parts := parts_singleton hword hquote

def space : Gap where
  text := " "
  tokens := []
  opens := opens_space
  parts := parts_space

def append (gap : Gap) (opening : Opening) : Gap where
  text := gap.text ++ opening.text
  tokens := gap.tokens ++ opening.tokens
  opens := gap.opens.append opening.opens
  parts := parts_append gap.parts opening.text

def dot : Gap := symbol '.' (by decide) (by decide) (by decide)

def comma : Gap := (symbol ',' (by decide) (by decide) (by decide)).append space.toOpening

def equals : Gap :=
  (space.append (symbol '=' (by decide) (by decide) (by decide)).toOpening).append space.toOpening

def opening : Gap := space.append (symbol '(' (by decide) (by decide) (by decide)).toOpening

def closing : Gap := symbol ')' (by decide) (by decide) (by decide)

def values : Gap := (closing.append (words " VALUES " ["VALUES"] (by decide) (by decide)).toOpening).append
  (symbol '(' (by decide) (by decide) (by decide)).toOpening

end Gap

namespace Phrase

def quoted (name : String) : Phrase :=
  ⟨_, _, spells_quoted name⟩

def placeholder (number : Nat) : Phrase :=
  ⟨_, _, spells_placeholder number⟩

def number (value : Nat) : Phrase :=
  ⟨_, _, spells_number value⟩

def word (word : String) (h : isKeyword word.toList = true) : Phrase :=
  ⟨word, _, spells_word h⟩

def opened (opening : Opening) (phrase : Phrase) : Phrase where
  text := opening.text ++ phrase.text
  tokens := opening.tokens ++ phrase.tokens
  spells := opening.opens.append_spells phrase.spells

def next (phrase : Phrase) (gap : Gap) (phrase' : Phrase) : Phrase where
  text := phrase.text ++ gap.text ++ phrase'.text
  tokens := phrase.tokens ++ gap.tokens ++ phrase'.tokens
  spells := (phrase.spells.append_opens gap.parts gap.opens).append_spells phrase'.spells

def closed (phrase : Phrase) (gap : Gap) : Phrase where
  text := phrase.text ++ gap.text
  tokens := phrase.tokens ++ gap.tokens
  spells := (phrase.spells.append_opens gap.parts gap.opens).spells

def join (gap : Gap) (phrases : List Phrase) : Phrase where
  text := gap.text.intercalate (phrases.map text)
  tokens := gap.tokens.intercalate (phrases.map tokens)
  spells := by
    have hspells : ∀ item ∈ phrases.map fun phrase => (phrase.tokens, phrase.text), Spells item.1 item.2 := by
      rintro item hitem
      obtain ⟨phrase, _, rfl⟩ := List.mem_map.mp hitem
      exact phrase.spells
    have hjoin := Spells.intercalate gap.parts gap.opens hspells
    rw [List.map_map, List.map_map] at hjoin
    exact hjoin

def nextIfAny (phrase : Phrase) (gap : Gap) : Option Phrase → Phrase
  | some phrase' => phrase.next gap phrase'
  | none => phrase

end Phrase

theorem Phrase.filterMap_join {B : Type} (f : Token → Option B) {gap : Gap} (hgap : gap.tokens.filterMap f = [])
    (phrases : List Phrase) :
    (Phrase.join gap phrases).tokens.filterMap f = phrases.flatMap fun phrase => phrase.tokens.filterMap f := by
  have htokens : (Phrase.join gap phrases).tokens = gap.tokens.intercalate (phrases.map Phrase.tokens) := rfl
  rw [htokens]
  induction phrases with
  | nil => rfl
  | cons phrase phrases ih =>
    cases phrases with
    | nil => rw [List.map_singleton, List.intercalate_singleton, List.flatMap_singleton]
    | cons next phrases =>
      have hrest := ih rfl
      rw [List.map_cons, List.map_cons, List.intercalate_cons_cons, List.filterMap_append, List.filterMap_append, hgap,
        List.append_nil, List.flatMap_cons, ← hrest, List.map_cons]

theorem Phrase.forall_join {p : Token → Prop} {gap : Gap} (hgap : ∀ token ∈ gap.tokens, p token)
    {phrases : List Phrase} (h : ∀ phrase ∈ phrases, ∀ token ∈ phrase.tokens, p token) :
    ∀ token ∈ (Phrase.join gap phrases).tokens, p token := by
  have htokens : (Phrase.join gap phrases).tokens = gap.tokens.intercalate (phrases.map Phrase.tokens) := rfl
  rw [htokens]
  induction phrases with
  | nil => nofun
  | cons phrase phrases ih =>
    obtain ⟨hfirst, hrest⟩ := List.forall_mem_cons.mp h
    cases phrases with
    | nil =>
      rw [List.map_singleton, List.intercalate_singleton]
      exact hfirst
    | cons next phrases =>
      rw [List.map_cons, List.map_cons, List.intercalate_cons_cons]
      exact List.forall_mem_append.mpr ⟨List.forall_mem_append.mpr ⟨hfirst, hgap⟩, ih hrest rfl⟩

/-! ## Statements -/

inductive Condition where
  | equals (column : String) (number : Nat)
  | isNull (column : String)

inductive Direction where
  | asc
  | desc

inductive Limit where
  | one
  | placeholder (number : Nat)

abbrev SelectItem := String × Option String

abbrev OrderTerm := String × Option Direction

inductive Statement where
  | select (columns : List SelectItem) (table : List String) (conditions : Option (List Condition))
      (orderBy : List OrderTerm) (limit : Option Limit) (offset : Option Nat)
  | insert (table columns : List String) (values : List Nat) (returning : Option (List SelectItem))
  | update (table : List String) (assignments : List (String × Nat)) (conditions : List Condition)
      (returning : List SelectItem)
  | delete (table : List String) (conditions : List Condition)

def Condition.phrase : Condition → Phrase
  | .equals column number => (Phrase.quoted column).next .equals (.placeholder number)
  | .isNull column =>
    (Phrase.quoted column).next (.words " IS " ["IS"] (by decide) (by decide)) (.word "NULL" (by decide))

def conditionsPhrase (conditions : List Condition) : Phrase :=
  if conditions = [] then .word "TRUE" (by decide)
  else .join (.words " AND " ["AND"] (by decide) (by decide)) (conditions.map Condition.phrase)

def SelectItem.phrase (item : SelectItem) : Phrase :=
  (Phrase.quoted item.1).nextIfAny (.words " AS " ["AS"] (by decide) (by decide)) (item.2.map .quoted)

def Phrase.asterisk : Phrase :=
  ⟨String.singleton '*', [.symbol '*'], (opens_symbol (by decide) (by decide) (by decide)).spells⟩

def selectPhrase (columns : List SelectItem) : Phrase :=
  if columns = [] then .asterisk
  else .join .comma (columns.map SelectItem.phrase)

def tablePhrase (table : List String) : Phrase :=
  .join .dot (table.map .quoted)

def Direction.phrase : Direction → Phrase
  | .asc => .word "ASC" (by decide)
  | .desc => .word "DESC" (by decide)

def OrderTerm.phrase (term : OrderTerm) : Phrase :=
  (Phrase.quoted term.1).nextIfAny .space (term.2.map Direction.phrase)

def orderPhrase (terms : List OrderTerm) : Option Phrase :=
  if terms = [] then none else some (.join .comma (terms.map OrderTerm.phrase))

def Limit.phrase : Limit → Phrase
  | .one => .number 1
  | .placeholder number => .placeholder number

def assignmentPhrase (assignment : String × Nat) : Phrase :=
  (Phrase.quoted assignment.1).next .equals (.placeholder assignment.2)

def selecting : Opening := .words "SELECT " ["SELECT"] (by decide) (by decide)

def fromTable : Gap := .words " FROM " ["FROM"] (by decide) (by decide)

def filtered : Gap := .words " WHERE " ["WHERE"] (by decide) (by decide)

def Statement.phrase : Statement → Phrase
  | .select columns table conditions orderBy limit offset =>
    ((((((selectPhrase columns).opened selecting).next
      fromTable (tablePhrase table)).nextIfAny
      filtered (conditions.map conditionsPhrase)).nextIfAny
      (.words " ORDER BY " ["ORDER", "BY"] (by decide) (by decide)) (orderPhrase orderBy)).nextIfAny
      (.words " LIMIT " ["LIMIT"] (by decide) (by decide)) (limit.map Limit.phrase)).nextIfAny
      (.words " OFFSET " ["OFFSET"] (by decide) (by decide)) (offset.map .placeholder)
  | .insert table columns values returning =>
    (((((tablePhrase table).opened (.words "INSERT INTO " ["INSERT", "INTO"] (by decide) (by decide))).next
      .opening (.join .comma (columns.map .quoted))).next
      .values (.join .comma (values.map .placeholder))).closed .closing).nextIfAny
      (.words " RETURNING " ["RETURNING"] (by decide) (by decide)) (returning.map selectPhrase)
  | .update table assignments conditions returning =>
    ((((tablePhrase table).opened (.words "UPDATE " ["UPDATE"] (by decide) (by decide))).next
      (.words " SET " ["SET"] (by decide) (by decide)) (.join .comma (assignments.map assignmentPhrase))).next
      filtered (conditionsPhrase conditions)).next
      (.words " RETURNING " ["RETURNING"] (by decide) (by decide)) (selectPhrase returning)
  | .delete table conditions =>
    ((tablePhrase table).opened (.words "DELETE FROM " ["DELETE", "FROM"] (by decide) (by decide))).next
      filtered (conditionsPhrase conditions)

theorem Statement.lex_text (statement : Statement) : lex statement.phrase.text.toList = some statement.phrase.tokens :=
  statement.phrase.spells.lex

end Gqlforge.SqlStatements
