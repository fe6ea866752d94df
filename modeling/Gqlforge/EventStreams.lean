import Mathlib.Data.List.Basic

namespace Gqlforge.EventStreams

/-! ## The format -/

abbrev Line := List Char

def normalize : List Char → List Char
  | [] => []
  | '\r' :: '\n' :: rest => '\n' :: normalize rest
  | '\r' :: rest => '\n' :: normalize rest
  | c :: rest => c :: normalize rest

def endedLines (text : List Char) : List Line :=
  ((normalize text).splitOn '\n').dropLast

def events (lines : List Line) : List (List Line) :=
  (lines.splitOn []).dropLast

def dropSpace : List Char → List Char
  | ' ' :: rest => rest
  | value => value

def dataValue (line : Line) : Option (List Char) :=
  if line = "data".toList then some []
  else if "data:".toList <+: line then some (dropSpace (line.drop 5))
  else none

def payload (event : List Line) : Option (List Char) :=
  match event.filterMap dataValue with
  | [] => none
  | values => some (['\n'].intercalate values)

def dropBom : List Char → List Char
  | '\uFEFF' :: rest => rest
  | text => text

def payloads (text : List Char) : List (List Char) :=
  (events (endedLines text)).filterMap payload

/-! ## Lines -/

def stripCr : Line → Line
  | [] => []
  | ['\r'] => []
  | c :: rest => c :: stripCr rest

example : normalize (stripCr ['a', '\r', '\r']) = ['a', '\n'] := by
  simp [stripCr, normalize]

theorem stripCr_cons {c : Char} {rest : Line} (h : c ≠ '\r' ∨ rest ≠ []) : stripCr (c :: rest) = c :: stripCr rest := by
  rw [stripCr]
  rintro rfl rfl
  exact h.elim (fun hc => hc rfl) fun hrest => hrest rfl

theorem stripCr_sublist (line : Line) : (stripCr line).Sublist line := by
  induction line using stripCr.induct with
  | case1 => exact .slnil
  | case2 => exact List.nil_sublist _
  | case3 c rest h ih =>
    rw [stripCr]
    · exact ih.cons_cons c
    · exact h

theorem normalize_cons {c : Char} (h : c ≠ '\r') (rest : List Char) : normalize (c :: rest) = c :: normalize rest := by
  rw [normalize]
  · rintro rest rfl
    exact fun _ => h rfl
  · exact h

theorem normalize_cr {rest : List Char} (h : rest.head? ≠ some '\n') :
    normalize ('\r' :: rest) = '\n' :: normalize rest := by
  rw [normalize]
  rintro rest rfl
  exact h rfl

theorem stripCr_head {line : Line} (h : line.head? ≠ some '\n') : (stripCr line).head? ≠ some '\n' := by
  cases line with
  | nil => exact h
  | cons c rest =>
    by_cases hcr : c ≠ '\r' ∨ rest ≠ []
    · rw [stripCr_cons hcr]
      exact h
    · obtain ⟨hc, hrest⟩ := not_or.mp hcr
      rw [not_not.mp hc, not_not.mp hrest]
      nofun

theorem normalize_append (front rest : List Char) :
    normalize (front ++ '\n' :: rest) = normalize (stripCr front) ++ '\n' :: normalize rest := by
  induction front using normalize.induct with
  | case1 => exact normalize_cons (by decide) rest
  | case2 front ih =>
    rw [stripCr_cons (.inr (List.cons_ne_nil _ _)), stripCr_cons (.inl (by decide)), List.cons_append, List.cons_append,
      normalize, normalize, ih, List.cons_append]
  | case3 front h ih =>
    cases front with
    | nil => rfl
    | cons c front =>
      have hhead : (c :: front).head? ≠ some '\n' := by
        rintro hc
        cases hc
        exact h front rfl
      have hfollowed : (c :: front ++ '\n' :: rest).head? ≠ some '\n' := hhead
      rw [stripCr_cons (.inr (List.cons_ne_nil _ _)), normalize_cr (stripCr_head hhead), List.cons_append,
        normalize_cr hfollowed, ih, List.cons_append]
  
  | case4 c front h h' ih =>
    have hc : c ≠ '\r' := h'
    rw [stripCr_cons (.inl hc), normalize_cons hc, List.cons_append, normalize_cons hc, ih, List.cons_append]

def crLines (line : Line) : List Line :=
  (stripCr line).splitOn '\r'

theorem splitOn_normalize {line : Line} (h : '\n' ∉ line) : (normalize line).splitOn '\n' = line.splitOn '\r' := by
  induction line with
  | nil => rfl
  | cons c line ih =>
    obtain ⟨hc, hline⟩ := not_or.mp (mt List.mem_cons.mpr h)
    have hhead : line.head? ≠ some '\n' := fun hhead => hline (List.mem_of_mem_head? hhead)
    by_cases hcr : c = '\r'
    · rw [hcr, normalize_cr hhead, List.splitOn_cons_eq_if_modifyHead, List.splitOn_cons_eq_if_modifyHead, ih hline]
      rfl
    · rw [normalize_cons hcr, List.splitOn_cons_eq_if_modifyHead, List.splitOn_cons_eq_if_modifyHead, ih hline,
        if_neg (by rw [beq_iff_eq]; exact fun heq => hc heq.symm), if_neg (by rw [beq_iff_eq]; exact hcr)]

theorem endedLines_cons {line : Line} (h : '\n' ∉ line) (rest : List Char) :
    endedLines (line ++ '\n' :: rest) = crLines line ++ endedLines rest := by
  have hstripped : '\n' ∉ stripCr line := fun hmem => h ((stripCr_sublist line).subset hmem)
  rw [endedLines, normalize_append, List.splitOn_append_cons_self, splitOn_normalize hstripped,
    List.dropLast_append_of_ne_nil (List.splitOn_ne_nil _ _)]
  rfl

theorem endedLines_block {pieces : List Line} (h : ∀ piece ∈ pieces, '\n' ∉ piece) (rest : List Char) :
    endedLines (pieces.flatMap (· ++ ['\n']) ++ '\n' :: rest) = pieces.flatMap crLines ++ [] :: endedLines rest := by
  induction pieces with
  | nil => exact endedLines_cons (List.not_mem_nil) rest
  | cons piece pieces ih =>
    obtain ⟨hpiece, hpieces⟩ := List.forall_mem_cons.mp h
    rw [List.flatMap_cons, List.flatMap_cons, List.append_assoc, List.append_assoc, List.append_assoc,
      List.singleton_append, endedLines_cons hpiece, ih hpieces]

theorem events_block (lines rest : List Line) : events (lines ++ [] :: rest) = lines.splitOn [] ++ events rest := by
  rw [events, List.splitOn_append_cons_self, List.dropLast_append_of_ne_nil (List.splitOn_ne_nil _ _)]
  rfl

/-! ## Payloads -/

def dataValues (lines : List Line) : List (List Char) :=
  lines.filterMap dataValue

theorem dataValues_append (lines lines' : List Line) :
    dataValues (lines ++ lines') = dataValues lines ++ dataValues lines' :=
  List.filterMap_append

theorem dataValues_blank (lines : List Line) : dataValues ([] :: lines) = dataValues lines :=
  List.filterMap_cons_none (by decide)

theorem payload_eq (event : List Line) : payload event =
    if dataValues event = [] then none else some (['\n'].intercalate (dataValues event)) := by
  rw [payload, dataValues]
  split
  next hnil => rw [if_pos hnil]
  next hne => rw [if_neg hne]

theorem payload_none {event : List Line} : payload event = none ↔ dataValues event = [] := by
  rw [payload_eq]
  split
  next h => exact iff_of_true rfl h
  next h => exact iff_of_false nofun h

theorem blank_induction {P : List Line → Prop} (hwhole : ∀ event, [] ∉ event → P event)
    (hsplit : ∀ event rest, [] ∉ event → P rest → P (event ++ [] :: rest)) (lines : List Line) : P lines := by
  induction hlength : lines.length using Nat.strongRecOn generalizing lines with
  | _ n ih =>
    subst hlength
    by_cases h : [] ∈ lines
    · obtain ⟨event, rest, rfl, hevent⟩ := List.eq_append_cons_of_mem h
      refine hsplit event rest hevent (ih rest.length ?_ rest rfl)
      rw [List.length_append, List.length_cons]
      omega
    · exact hwhole lines h

theorem splitOn_blank (before after : List Line) :
    (before ++ [] :: after).splitOn [] = before.splitOn [] ++ after.splitOn [] :=
  List.splitOn_append_cons_self before after

theorem payloads_nil (lines : List Line) : (lines.splitOn []).filterMap payload = [] ↔ dataValues lines = [] := by
  induction lines using blank_induction with
  | hwhole event h =>
    rw [List.splitOn_eq_singleton h, List.filterMap_eq_nil_iff, List.forall_mem_singleton, payload_none]
  | hsplit event rest h ih =>
    rw [splitOn_blank, List.splitOn_eq_singleton h, List.filterMap_append, List.append_eq_nil_iff, ih,
      dataValues_append, dataValues_blank, List.append_eq_nil_iff, List.filterMap_eq_nil_iff, List.forall_mem_singleton,
      payload_none]

def Together (lines : List Line) : Prop :=
  ∀ before after, lines = before ++ [] :: after → dataValues before = [] ∨ dataValues after = []

theorem Together.rest {event rest : List Line} (h : Together (event ++ [] :: rest)) : Together rest := by
  rintro before after rfl
  rcases h (event ++ [] :: before) after (by rw [List.append_assoc, List.cons_append]) with hbefore | hafter
  · rw [dataValues_append, dataValues_blank, List.append_eq_nil_iff] at hbefore
    exact .inl hbefore.2
  · exact .inr hafter

theorem Together.payloads {lines : List Line} (h : Together lines) :
    (lines.splitOn []).filterMap payload = (payload lines).toList := by
  induction lines using blank_induction with
  | hwhole event hevent =>
    rw [List.splitOn_eq_singleton hevent, List.filterMap_cons]
    cases payload event <;> rfl
  | hsplit event rest hevent ih =>
    have hrest := ih h.rest
    rw [splitOn_blank, List.splitOn_eq_singleton hevent, List.filterMap_append, hrest, payload_eq, payload_eq,
      dataValues_append, dataValues_blank]
    rcases h event rest rfl with hnone | hnone
    · rw [hnone, List.filterMap_cons_none (payload_none.mpr hnone), List.filterMap_nil, List.nil_append, List.nil_append]
    · rw [hnone, if_pos rfl, Option.toList_none, List.append_nil, List.append_nil, List.filterMap_cons, payload_eq]
      split <;> simp_all

theorem together_of_length {lines : List Line} (h : ((lines.splitOn []).filterMap payload).length ≤ 1) :
    Together lines := by
  rintro before after rfl
  rw [splitOn_blank, List.filterMap_append, List.length_append] at h
  rw [← payloads_nil, ← payloads_nil, ← List.length_eq_zero_iff, ← List.length_eq_zero_iff]
  omega

theorem payload_le (lines : List Line) :
    (payload lines).toList.length ≤ ((lines.splitOn []).filterMap payload).length := by
  cases h : payload lines with
  | none => exact Nat.zero_le _
  | some value =>
    have hne : (lines.splitOn []).filterMap payload ≠ [] := by
      rw [Ne, payloads_nil, ← payload_none, h]
      nofun
    exact List.length_pos_iff.mpr hne

theorem events_nil (lines : List Line) : (events lines).filterMap payload = [] ↔
    ∀ before after, lines = before ++ [] :: after → dataValues before = [] := by
  constructor
  · rintro h before after rfl
    rw [events_block, List.filterMap_append, List.append_eq_nil_iff] at h
    exact (payloads_nil before).mp h.1
  · intro h
    induction lines using blank_induction with
    | hwhole event hevent =>
      rw [events, List.splitOn_eq_singleton hevent]
      rfl
    | hsplit event rest hevent ih =>
      have hnone : payload event = none := payload_none.mpr (h event rest rfl)
      rw [events_block, List.splitOn_eq_singleton hevent, List.singleton_append, List.filterMap_cons_none hnone]
      apply ih
      rintro before after rfl
      have hbefore := h (event ++ [] :: before) after (by rw [List.append_assoc, List.cons_append])
      rw [dataValues_append, dataValues_blank, List.append_eq_nil_iff] at hbefore
      exact hbefore.2

end Gqlforge.EventStreams
