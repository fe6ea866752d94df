import Gqlforge.SseClient

namespace Gqlforge.SseStreams

open BigEndian ChunkedReads EventStreams FormUrlencoded PostgresTemplates SseClient

/-! ## Streams the client reads as the format says -/

def seenLines : List Line → List Line
  | [] => []
  | [last] => [last]
  | line :: rest => stripCr line :: seenLines rest

/-- A value has no more blanks at its start than the one the format drops, and holds a CR only if it is blank. What is
not seen as a data line holds no data line. -/
def LineFits (seen line : Line) : Prop :=
  if "data:".toList <+: seen then
    (∀ c ∈ (dropSpace ((seen.drop 5).takeWhile (· != '\r'))).head?, isWhitespace c = false) ∧
      ('\r' ∉ seen.drop 5 ∨ ∀ c ∈ seen.drop 5, isWhitespace c = true)
  else seen = "data".toList ∨ dataValues (crLines line) = []

def blockLines (block : List Char) : List Line :=
  (block.splitOn '\n').flatMap crLines

structure BlockFits (seen block : List Char) : Prop where
  lines : List.Forall₂ LineFits (seenLines (seen.splitOn '\n')) (block.splitOn '\n')
  together : Together (blockLines block)
  filled : dataValues (blockLines block) ≠ [[]]

def blocks (text : List Char) : List (List Char) × List Char :=
  (blockReader '\n').drain text

structure StreamFits (text : List Char) : Prop where
  blocks : List.Forall₂ BlockFits (blocks text).1 (blocks (dropBom text)).1
  rest : ∀ before after, endedLines (SseStreams.blocks (dropBom text)).2 = before ++ [] :: after → dataValues before = []

/-! ## Lines -/

theorem mem_of_splitOn {separator c : Char} {text piece : List Char} (hpiece : piece ∈ text.splitOn separator)
    (hc : c ∈ piece) : c ∈ text := by
  induction text generalizing piece with
  | nil =>
    cases List.mem_singleton.mp hpiece
    cases hc
  | cons first text ih =>
    rw [List.splitOn_cons_eq_if_modifyHead] at hpiece
    split at hpiece
    · rcases List.mem_cons.mp hpiece with rfl | hmem
      · cases hc
      · exact List.mem_cons_of_mem _ (ih hmem hc)
    · obtain ⟨head, tail, hsplit⟩ := List.exists_cons_of_ne_nil (List.splitOn_ne_nil separator text)
      rw [hsplit, List.modifyHead_cons] at hpiece
      rcases List.mem_cons.mp hpiece with rfl | hmem
      · rcases List.mem_cons.mp hc with rfl | hmem
        · exact List.mem_cons_self
        · exact List.mem_cons_of_mem _ (ih (hsplit ▸ List.mem_cons_self) hmem)
      · exact List.mem_cons_of_mem _ (ih (hsplit ▸ List.mem_cons_of_mem _ hmem) hc)

theorem newline_pieces (text : List Char) : ∀ piece ∈ text.splitOn '\n', '\n' ∉ piece := by
  induction text with
  | nil => exact List.forall_mem_singleton.mpr List.not_mem_nil
  | cons c text ih =>
    rw [List.splitOn_cons_eq_if_modifyHead]
    split
    · exact List.forall_mem_cons.mpr ⟨List.not_mem_nil, ih⟩
    next hc =>
      obtain ⟨head, tail, hsplit⟩ := List.exists_cons_of_ne_nil (List.splitOn_ne_nil '\n' text)
      rw [hsplit, List.forall_mem_cons] at ih
      rw [hsplit, List.modifyHead_cons, List.forall_mem_cons, List.mem_cons]
      exact ⟨not_or.mpr ⟨fun heq => hc (beq_iff_eq.mpr heq.symm), ih.1⟩, ih.2⟩

theorem splitOn_first {front : List Char} (hfront : '\r' ∉ front) (text : List Char) :
    ∃ others, (front ++ text).splitOn '\r' = (front ++ text.takeWhile (· != '\r')) :: others ∧
      (∀ other ∈ others, ∀ c ∈ other, c ∈ text) ∧ ('\r' ∉ text → others = []) := by
  by_cases h : '\r' ∈ text
  · obtain ⟨before, after, rfl, hbefore⟩ := List.eq_append_cons_of_mem h
    refine ⟨after.splitOn '\r', ?_, fun other hother c hc => ?_, fun hnot => absurd h hnot⟩
    · have hplain : '\r' ∉ front ++ before := List.mem_append.not.mpr (not_or.mpr ⟨hfront, hbefore⟩)
      have hall : ∀ c ∈ before, (c != '\r') = true := fun c hc => bne_iff_ne.mpr fun heq => hbefore (heq ▸ hc)
      rw [← List.append_assoc, List.splitOn_append_cons_self, List.splitOn_eq_singleton hplain,
        List.takeWhile_append_of_pos hall, List.takeWhile_cons_of_neg (by simp), List.append_nil,
        List.singleton_append]
    · exact List.mem_append_right _ (List.mem_cons_of_mem _ (mem_of_splitOn hother hc))
  · have hplain : '\r' ∉ front ++ text := List.mem_append.not.mpr (not_or.mpr ⟨hfront, h⟩)
    have hall : ∀ c ∈ text, (c != '\r') = true := fun c hc => bne_iff_ne.mpr fun heq => h (heq ▸ hc)
    refine ⟨[], ?_, nofun, fun _ => rfl⟩
    rw [List.splitOn_eq_singleton hplain, List.takeWhile_eq_self_iff.mpr hall]

theorem takeWhile_stripCr (line : Line) : (stripCr line).takeWhile (· != '\r') = line.takeWhile (· != '\r') := by
  induction line using stripCr.induct with
  | case1 => rfl
  | case2 => rfl
  | case3 c rest h ih =>
    rw [stripCr]
    · rw [List.takeWhile_cons, List.takeWhile_cons, ih]
    · exact h

theorem stripCr_plain {front : Line} (h : '\r' ∉ front) (line : Line) :
    stripCr (front ++ line) = front ++ stripCr line := by
  induction front with
  | nil => rfl
  | cons c front ih =>
    obtain ⟨hc, hfront⟩ := not_or.mp (mt List.mem_cons.mpr h)
    rw [List.cons_append, stripCr_cons (.inl fun heq => hc heq.symm), ih hfront, List.cons_append]

def Sees (seen line : Line) : Prop :=
  seen = line ∨ seen = stripCr line ∨ seen.head? = some '\uFEFF'

variable {line : Line}

theorem crLines_data {seen value : Line} (h : Sees seen line) (hseen : seen = "data:".toList ++ value) :
    ∃ others, crLines line = ("data:".toList ++ value.takeWhile (· != '\r')) :: others ∧
      (∀ other ∈ others, ∀ c ∈ other, c ∈ value) ∧ ('\r' ∉ value → others = []) := by
  have hname : '\r' ∉ "data:".toList := by decide
  subst hseen
  rcases h with rfl | hstripped | hbom
  · obtain ⟨others, hsplit, hmem, hplain⟩ := splitOn_first hname (stripCr value)
    have hsub := (stripCr_sublist value).subset
    refine ⟨others, ?_, fun other hother c hc => hsub (hmem other hother c hc), fun hcr => hplain (mt (@hsub _) hcr)⟩
    rw [crLines, stripCr_plain hname, hsplit, takeWhile_stripCr]
  · obtain ⟨others, hsplit, hmem, hplain⟩ := splitOn_first hname value
    refine ⟨others, ?_, hmem, hplain⟩
    rw [crLines, ← hstripped, hsplit]
  · cases hbom

theorem dataValue_colon (value : List Char) : dataValue ("data:".toList ++ value) = some (dropSpace value) := by
  rw [dataValue, if_neg (by simp), if_pos (List.prefix_append _ _)]
  rfl

theorem dataLine_colon (value : List Char) : dataLine ("data:".toList ++ value) = some (trimStart value) := by
  rw [dataLine, if_pos (List.prefix_append _ _)]
  rfl

theorem crLines_name (h : Sees "data".toList line) : crLines line = ["data".toList] := by
  rcases h with rfl | hstripped | hbom
  · decide
  · rw [crLines, ← hstripped]
    decide
  · cases hbom

theorem dataLine_none {seen : Line} (hcolon : ¬"data:".toList <+: seen) (hname : seen ≠ "data".toList) :
    dataLine seen = none := by
  rw [dataLine, if_neg hcolon]
  split
  next hdata =>
    obtain ⟨rest, rfl⟩ := hdata
    refine if_neg fun hrest => hname ?_
    have hdrop : ("data".toList ++ rest).drop 4 = rest := rfl
    rw [hdrop] at hrest
    rw [hrest, List.append_nil]
  · rfl

theorem dataLine_name : dataLine "data".toList = some [] := by decide

theorem dataValues_cons (line : Line) (lines : List Line) :
    dataValues (line :: lines) = (dataValue line).toList ++ dataValues lines := by
  rw [dataValues, List.filterMap_cons]
  cases dataValue line <;> rfl

theorem dataLine_le {seen : Line} (h : Sees seen line) :
    (dataLine seen).toList.length ≤ (dataValues (crLines line)).length := by
  by_cases hcolon : "data:".toList <+: seen
  · obtain ⟨value, rfl⟩ := hcolon
    obtain ⟨others, hlines, _⟩ := crLines_data h rfl
    rw [dataLine_colon, hlines, dataValues_cons, dataValue_colon, List.length_append]
    exact Nat.le_add_right 1 _
  · by_cases hname : seen = "data".toList
    · subst hname
      rw [crLines_name h, dataLine_name]
      decide
    · rw [dataLine_none hcolon hname]
      exact Nat.zero_le _

theorem trimStart_head (value : List Char) : ∀ c ∈ (trimStart value).head?, isWhitespace c = false := by
  intro c hc
  rw [Option.mem_def, trimStart] at hc
  have hnot := List.head?_dropWhile_not isWhitespace value
  rw [hc] at hnot
  exact hnot

variable {value : List Char}

theorem trimStart_blank (h : ∀ c ∈ value, isWhitespace c = true) : trimStart value = [] :=
  List.dropWhile_eq_nil_iff.mpr h

theorem blank_of_trimStart (h : trimStart value = []) : ∀ c ∈ value, isWhitespace c = true :=
  List.dropWhile_eq_nil_iff.mp h

theorem dropSpace_sublist (value : List Char) : (dropSpace value).Sublist value := by
  rw [dropSpace.eq_def]
  split
  · exact List.sublist_cons_self ..
  · exact .refl _

theorem trimStart_dropSpace (value : List Char) : trimStart (dropSpace value) = trimStart value := by
  rw [dropSpace.eq_def]
  split
  · rw [trimStart, trimStart, List.dropWhile_cons_of_pos (by decide)]
  · rfl

theorem trimStart_plain (h : ∀ c ∈ value.head?, isWhitespace c = false) : trimStart value = value := by
  cases value with
  | nil => rfl
  | cons c value => exact List.dropWhile_cons_of_neg (by rw [h c rfl]; exact Bool.false_ne_true)

theorem trimStart_iff (value : List Char) : trimStart value = dropSpace (value.takeWhile (· != '\r')) ↔
    (∀ c ∈ (dropSpace (value.takeWhile (· != '\r'))).head?, isWhitespace c = false) ∧
      ('\r' ∉ value ∨ ∀ c ∈ value, isWhitespace c = true) := by
  by_cases hcr : '\r' ∈ value
  · obtain ⟨before, after, rfl, hbefore⟩ := List.eq_append_cons_of_mem hcr
    have hall : ∀ c ∈ before, (c != '\r') = true := fun c hc => bne_iff_ne.mpr fun heq => hbefore (heq ▸ hc)
    have htake : (before ++ '\r' :: after).takeWhile (· != '\r') = before := by
      rw [List.takeWhile_append_of_pos hall, List.takeWhile_cons_of_neg (by simp), List.append_nil]
    rw [htake, or_iff_right (not_not.mpr hcr)]
    constructor
    · intro heq
      have hhead := trimStart_head (before ++ '\r' :: after)
      rw [heq] at hhead
      refine ⟨hhead, ?_⟩
      by_cases hblank : ∀ c ∈ before, isWhitespace c = true
      · -- nothing but blanks up to the CR: the value is blank, or what is left of it would be longer
        apply blank_of_trimStart
        have hnil : dropSpace before = [] := by
          rw [← trimStart_plain hhead, trimStart_dropSpace, trimStart_blank hblank]
        rw [heq, hnil]
      · -- a CR after other characters is kept
        have hne : trimStart before ≠ [] := mt blank_of_trimStart hblank
        have hkept : trimStart (before ++ '\r' :: after) = trimStart before ++ '\r' :: after := by
          rw [trimStart, List.dropWhile_append, if_neg]
          · rfl
          · rw [List.isEmpty_iff]
            exact hne
        have hmem : '\r' ∈ dropSpace before := by
          rw [← heq, hkept]
          exact List.mem_append_right _ List.mem_cons_self
        exact absurd ((dropSpace_sublist before).subset hmem) hbefore
    · rintro ⟨hhead, hblank⟩
      have hfront : ∀ c ∈ before, isWhitespace c = true := fun c hc => hblank c (List.mem_append_left _ hc)
      rw [trimStart_blank hblank, ← trimStart_plain hhead, trimStart_dropSpace, trimStart_blank hfront]
  · have hall : ∀ c ∈ value, (c != '\r') = true := fun c hc => bne_iff_ne.mpr fun heq => hcr (heq ▸ hc)
    rw [List.takeWhile_eq_self_iff.mpr hall, and_iff_left (.inl hcr)]
    constructor
    · intro heq
      rw [← heq]
      exact trimStart_head value
    · intro hhead
      rw [← trimStart_plain hhead, trimStart_dropSpace]

theorem dataValue_blank (h : ∀ c ∈ line, isWhitespace c = true) : dataValue line = none := by
  have hd : 'd' ∉ line := fun hmem => absurd (h 'd' hmem) (by decide)
  rw [dataValue, if_neg, if_neg]
  · intro hcolon
    exact hd (hcolon.subset (by decide))
  · rintro rfl
    exact hd (by decide)

variable {lines : List Line}

theorem dataValues_blanks (h : ∀ line ∈ lines, ∀ c ∈ line, isWhitespace c = true) : dataValues lines = [] :=
  List.filterMap_eq_nil_iff.mpr fun line hline => dataValue_blank (h line hline)

theorem lineFits_iff {seen : Line} (h : Sees seen line) :
    (dataLine seen).toList = dataValues (crLines line) ↔ LineFits seen line := by
  rw [LineFits]
  by_cases hcolon : "data:".toList <+: seen
  · rw [if_pos hcolon]
    obtain ⟨value, rfl⟩ := hcolon
    have hdrop : ("data:".toList ++ value).drop 5 = value := rfl
    obtain ⟨others, hlines, hmem, hplain⟩ := crLines_data h rfl
    rw [hdrop, ← trimStart_iff, dataLine_colon, hlines, dataValues_cons, dataValue_colon, Option.toList_some,
      Option.toList_some, List.singleton_append, List.cons_eq_cons]
    refine ⟨fun heq => heq.1, fun heq => ⟨heq, ?_⟩⟩
    rcases ((trimStart_iff value).mp heq).2 with hcr | hblank
    · rw [hplain hcr]
      rfl
    · exact (dataValues_blanks fun other hother c hc => hblank c (hmem other hother c hc)).symm
  · rw [if_neg hcolon]
    by_cases hname : seen = "data".toList
    · subst hname
      rw [crLines_name h, dataLine_name]
      exact iff_of_true (by decide) (.inl rfl)
    · rw [dataLine_none hcolon hname, or_iff_right hname]
      exact eq_comm

/-! ## Blocks -/

theorem flatten_eq_iff {A : Type} {front back : List (List A)}
    (h : List.Forall₂ (fun items items' => items.length ≤ items'.length) front back) :
    front.flatten = back.flatten ↔ front = back := by
  refine ⟨fun heq => ?_, fun heq => heq ▸ rfl⟩
  have hle {front back : List (List A)} (h : List.Forall₂ (fun items items' => items.length ≤ items'.length) front back) :
      front.flatten.length ≤ back.flatten.length := by
    induction h with
    | nil => exact Nat.le_refl _
    | cons hfirst _ ih =>
      rw [List.flatten_cons, List.flatten_cons, List.length_append, List.length_append]
      exact Nat.add_le_add hfirst ih
  induction h with
  | nil => rfl
  | cons hfirst hrest ih =>
    rw [List.flatten_cons, List.flatten_cons] at heq
    have hlength := congrArg List.length heq
    rw [List.length_append, List.length_append] at hlength
    have hlater := hle hrest
    obtain ⟨rfl, hflat⟩ := List.append_inj heq (by omega)
    rw [ih hflat]

theorem strLines_filterMap (pieces : List Line) :
    (strLines pieces).filterMap dataLine = (seenLines pieces).filterMap dataLine := by
  induction pieces using strLines.induct with
  | case1 => rfl
  | case2 => rfl
  | case3 last hlast => rw [strLines, if_neg hlast, seenLines]
  | case4 line rest hrest ih =>
    rw [strLines, seenLines, List.filterMap_cons, List.filterMap_cons, ih]
    · exact hrest
    · exact hrest

theorem seenLines_sees (pieces : List Line) : List.Forall₂ Sees (seenLines pieces) pieces := by
  induction pieces using seenLines.induct with
  | case1 => exact .nil
  | case2 last => exact .cons (.inl rfl) .nil
  | case3 line rest hrest ih =>
    rw [seenLines]
    · exact .cons (.inr (.inl rfl)) ih
    · exact hrest

def SeesBlock (seen block : List Char) : Prop :=
  seen = block ∨ seen = '\uFEFF' :: block

theorem seenLines_modifyHead (pieces : List Line) :
    List.Forall₂ Sees (seenLines (pieces.modifyHead ('\uFEFF' :: ·))) pieces := by
  match pieces with
  | [] => exact .nil
  | [last] => exact .cons (.inr (.inr rfl)) .nil
  | line :: next :: rest =>
    refine .cons (.inr (.inr ?_)) (seenLines_sees (next :: rest))
    rw [stripCr_cons (.inl (by decide)), List.head?_cons]

variable {seen block : List Char}

theorem blockLines_sees (h : SeesBlock seen block) :
    List.Forall₂ Sees (seenLines (seen.splitOn '\n')) (block.splitOn '\n') := by
  rcases h with rfl | rfl
  · exact seenLines_sees _
  · rw [List.splitOn_cons_eq_if_modifyHead]
    exact seenLines_modifyHead _

def seenValues (seen : List Char) : List (List Char) :=
  (seenLines (seen.splitOn '\n')).filterMap dataLine

theorem extractDataLines_eq (seen : List Char) : extractDataLines seen = ['\n'].intercalate (seenValues seen) := by
  rw [extractDataLines, strLines_filterMap, seenValues]

theorem filterMap_flatten {A B : Type} (f : A → Option B) (items : List A) :
    items.filterMap f = (items.map fun item => (f item).toList).flatten := by
  induction items with
  | nil => rfl
  | cons item items ih =>
    rw [List.filterMap_cons, List.map_cons, List.flatten_cons, ← ih]
    cases f item <;> rfl

theorem blockValues_flatten (block : List Char) :
    dataValues (blockLines block) = ((block.splitOn '\n').map fun line => dataValues (crLines line)).flatten := by
  rw [dataValues, blockLines, List.filterMap_flatMap, List.flatMap_def]
  rfl

theorem values_le (h : SeesBlock seen block) :
    List.Forall₂ (fun items items' => items.length ≤ items'.length)
      ((seenLines (seen.splitOn '\n')).map fun line => (dataLine line).toList)
      ((block.splitOn '\n').map fun line => dataValues (crLines line)) :=
  List.forall₂_map_left_iff.mpr (List.forall₂_map_right_iff.mpr
    ((blockLines_sees h).imp fun _ _ hsees => dataLine_le hsees))

theorem map_eq_iff {seen : List Line} (h : List.Forall₂ Sees seen lines) :
    (seen.map fun line => (dataLine line).toList) = (lines.map fun line => dataValues (crLines line)) ↔
      List.Forall₂ LineFits seen lines := by
  induction h with
  | nil => exact iff_of_true rfl .nil
  | cons hfirst _ ih => rw [List.map_cons, List.map_cons, List.cons_eq_cons, List.forall₂_cons, lineFits_iff hfirst, ih]

theorem values_iff (h : SeesBlock seen block) :
    seenValues seen = dataValues (blockLines block) ↔
      List.Forall₂ LineFits (seenLines (seen.splitOn '\n')) (block.splitOn '\n') := by
  rw [seenValues, filterMap_flatten, blockValues_flatten, flatten_eq_iff (values_le h), map_eq_iff (blockLines_sees h)]

theorem seenValues_le (h : SeesBlock seen block) (hnone : dataValues (blockLines block) = []) :
    seenValues seen = [] := by
  have hle := values_le h
  rw [blockValues_flatten, List.flatten_eq_nil_iff] at hnone
  rw [seenValues, filterMap_flatten, List.flatten_eq_nil_iff]
  generalize (seenLines (seen.splitOn '\n')).map (fun line => (dataLine line).toList) = front at hle ⊢
  generalize (block.splitOn '\n').map (fun line => dataValues (crLines line)) = back at hle hnone
  induction hle with
  | nil => exact nofun
  | cons hfirst _ ih =>
    obtain ⟨hempty, hrest⟩ := List.forall_mem_cons.mp hnone
    rw [hempty, List.length_nil, Nat.le_zero, List.length_eq_zero_iff] at hfirst
    exact List.forall_mem_cons.mpr ⟨hfirst, ih hrest⟩

theorem intercalate_nil {values : List (List Char)} : ['\n'].intercalate values = [] ↔ values = [] ∨ values = [[]] := by
  match values with
  | [] => exact iff_of_true rfl (.inl rfl)
  | [value] =>
    rw [List.intercalate_singleton, or_iff_right (List.cons_ne_nil _ _), List.cons_eq_cons, and_iff_left rfl]
  | value :: next :: rest =>
    rw [List.intercalate_cons_cons]
    refine iff_of_false (fun h => ?_) nofun
    have hlength := congrArg List.length h
    rw [List.length_append, List.length_append, List.length_singleton, List.length_nil] at hlength
    omega

theorem newline_dataValues (h : ∀ line ∈ lines, '\n' ∉ line) : ∀ value ∈ dataValues lines, '\n' ∉ value := by
  intro value hvalue
  obtain ⟨line, hline, hdata⟩ := List.mem_filterMap.mp hvalue
  rw [dataValue] at hdata
  split at hdata
  · cases hdata
    exact List.not_mem_nil
  split at hdata
  · cases hdata
    exact fun hmem => h line hline ((List.drop_sublist 5 line).subset ((dropSpace_sublist _).subset hmem))
  · cases hdata

theorem newline_blockLines (block : List Char) : ∀ line ∈ blockLines block, '\n' ∉ line := by
  intro line hline hmem
  obtain ⟨piece, hpiece, hcr⟩ := List.mem_flatMap.mp hline
  exact newline_pieces block piece hpiece ((stripCr_sublist piece).subset (mem_of_splitOn hcr hmem))

theorem newline_seenLines {pieces : List Line} (h : ∀ piece ∈ pieces, '\n' ∉ piece) :
    ∀ line ∈ seenLines pieces, '\n' ∉ line := by
  induction pieces using seenLines.induct with
  | case1 => exact nofun
  | case2 last => exact h
  | case3 line rest hrest ih =>
    obtain ⟨hline, hlines⟩ := List.forall_mem_cons.mp h
    rw [seenLines]
    · exact List.forall_mem_cons.mpr ⟨fun hmem => hline ((stripCr_sublist line).subset hmem), ih hlines⟩
    · exact hrest

theorem newline_seenValues (seen : List Char) : ∀ value ∈ seenValues seen, '\n' ∉ value := by
  intro value hvalue
  obtain ⟨line, hline, hdata⟩ := List.mem_filterMap.mp hvalue
  have hplain := newline_seenLines (newline_pieces seen) line hline
  rw [dataLine] at hdata
  split at hdata
  · cases hdata
    exact fun hmem => hplain ((List.drop_sublist 5 line).subset ((List.dropWhile_sublist _).subset hmem))
  split at hdata
  · split at hdata
    · cases hdata
      exact List.not_mem_nil
    · cases hdata
  · cases hdata

theorem blockFits_iff (h : SeesBlock seen block) :
    (filled (extractDataLines seen)).toList = ((blockLines block).splitOn []).filterMap payload ↔
      BlockFits seen block := by
  rw [filled, extractDataLines_eq]
  constructor
  · intro heq
    have htogether : Together (blockLines block) := by
      apply together_of_length
      rw [← heq]
      split <;> simp
    rw [htogether.payloads, payload_eq] at heq
    by_cases hnone : dataValues (blockLines block) = []
    · refine ⟨(values_iff h).mp ((seenValues_le h hnone).trans hnone.symm), htogether, ?_⟩
      rw [hnone]
      exact (List.cons_ne_nil _ _).symm
    · rw [if_neg hnone] at heq
      split at heq
      · cases heq
      next hfilled =>
        have hjoin := (List.cons.inj heq).1
        have hne : seenValues seen ≠ [] := fun hnil => hfilled (by rw [hnil]; rfl)
        -- the values hold no LF, so that their join can be split again
        have hvalues : seenValues seen = dataValues (blockLines block) := by
          rw [← List.splitOn_intercalate '\n' (newline_seenValues seen) hne, hjoin,
            List.splitOn_intercalate '\n' (newline_dataValues (newline_blockLines block)) hnone]
        refine ⟨(values_iff h).mp hvalues, htogether, fun hempty => hfilled ?_⟩
        rw [hjoin, hempty]
        rfl
  · rintro ⟨hlines, htogether, hfilled⟩
    rw [htogether.payloads, payload_eq, (values_iff h).mpr hlines]
    by_cases hnone : dataValues (blockLines block) = []
    · rw [if_pos hnone, hnone]
      rfl
    · have hjoin : ['\n'].intercalate (dataValues (blockLines block)) ≠ [] :=
        mt intercalate_nil.mp (not_or.mpr ⟨hnone, hfilled⟩)
      rw [if_neg hnone, if_neg (mt List.isEmpty_iff.mp hjoin)]

theorem block_le (h : SeesBlock seen block) :
    (filled (extractDataLines seen)).toList.length ≤ (((blockLines block).splitOn []).filterMap payload).length := by
  apply Nat.le_trans _ (payload_le (blockLines block))
  rw [filled, extractDataLines_eq, payload_eq]
  by_cases hnone : dataValues (blockLines block) = []
  · rw [seenValues_le h hnone]
    exact Nat.zero_le _
  · rw [if_neg hnone]
    split <;> simp

/-! ## Streams -/

theorem pieces_flatMap (block rest : List Char) :
    (block.splitOn '\n').flatMap (· ++ ['\n']) ++ rest = block ++ '\n' :: rest := by
  have hpieces {pieces : List Line} (h : pieces ≠ []) :
      pieces.flatMap (· ++ ['\n']) = ['\n'].intercalate pieces ++ ['\n'] := by
    induction pieces with
    | nil => exact absurd rfl h
    | cons piece pieces ih =>
      cases pieces with
      | nil => rw [List.flatMap_singleton, List.intercalate_singleton]
      | cons next pieces =>
        rw [List.flatMap_cons, ih (List.cons_ne_nil _ _), List.intercalate_cons_cons, List.append_assoc, List.append_assoc,
          List.append_assoc]
  rw [hpieces (List.splitOn_ne_nil _ _), List.intercalate_splitOn, List.append_assoc, List.singleton_append]

theorem payloads_blocks (text : List Char) : payloads text =
    ((blocks text).1.map fun block => ((blockLines block).splitOn []).filterMap payload).flatten ++
      payloads (blocks text).2 := by
  induction hlength : text.length using Nat.strongRecOn generalizing text with
  | _ n ih =>
    subst hlength
    cases h : readBlock '\n' text with
    | none =>
      have hread : (blockReader '\n').read text = none := h
      rw [blocks, Reader.drain_none _ hread]
      rfl
    | some p =>
      obtain ⟨block, rest⟩ := p
      have hread : (blockReader '\n').read text = some (block, rest) := h
      have hrest := ih _ ((blockReader '\n').shorter hread) _ rfl
      have htext : text = (block.splitOn '\n').flatMap (· ++ ['\n']) ++ '\n' :: rest :=
        (readBlock_iff h).trans (pieces_flatMap block ('\n' :: rest)).symm
      have hlines : endedLines text = blockLines block ++ [] :: endedLines rest := by
        rw [htext, endedLines_block (newline_pieces block)]
        rfl
      have hpayloads : payloads text = ((blockLines block).splitOn []).filterMap payload ++ payloads rest := by
        rw [payloads, hlines, events_block, List.filterMap_append, payloads]
      have hblocks : blocks text = (block :: (blocks rest).1, (blocks rest).2) := Reader.drain_some _ hread
      rw [hpayloads, hrest, hblocks, List.map_cons, List.flatten_cons, List.append_assoc]

theorem blocks_bom (text : List Char) : List.Forall₂ SeesBlock (blocks text).1 (blocks (dropBom text)).1 := by
  have hself (texts : List (List Char)) : List.Forall₂ SeesBlock texts texts :=
    List.forall₂_same.mpr fun _ _ => .inl rfl
  rw [dropBom.eq_def]
  split
  next body =>
    have hbom : readBlock '\n' ('\uFEFF' :: body) = (readBlock '\n' body).map fun found =>
        ('\uFEFF' :: found.1, found.2) := by
      rw [readBlock, if_neg fun h => absurd h.1 (by decide)]
    cases h : readBlock '\n' body with
    | none =>
      have hread : (blockReader '\n').read body = none := h
      have hread' : (blockReader '\n').read ('\uFEFF' :: body) = none := by
        rw [h] at hbom
        exact hbom
      rw [blocks, blocks, Reader.drain_none _ hread, Reader.drain_none _ hread']
      exact .nil
    | some p =>
      obtain ⟨block, rest⟩ := p
      have hread : (blockReader '\n').read body = some (block, rest) := h
      have hread' : (blockReader '\n').read ('\uFEFF' :: body) = some ('\uFEFF' :: block, rest) := by
        rw [h] at hbom
        exact hbom
      rw [blocks, blocks, Reader.drain_some _ hread, Reader.drain_some _ hread']
      exact .cons (.inr rfl) (hself _)
  next => exact hself _

theorem decoded_blocks {read : Bytes → List Char} (utf8 : Utf8 read) {text : List Char} {chunks : List Bytes}
    (h : chunks.flatten = toUtf8 text) : (SseEventParser.new.decodeAll read chunks).1 =
      ((blocks text).1.map fun block => (filled (extractDataLines block)).toList).flatten := by
  rw [decodeAll_new, h, drain_toUtf8, List.filterMap_map, filterMap_flatten]
  congr 1
  refine List.map_congr_left fun block _ => ?_
  rw [Function.comp_apply, blockData, fromUtf8_toUtf8 utf8]

theorem forall₂_iff {seen blocks : List (List Char)} (h : List.Forall₂ SeesBlock seen blocks) :
    (seen.map fun block => (filled (extractDataLines block)).toList) =
        (blocks.map fun block => ((blockLines block).splitOn []).filterMap payload) ↔
      List.Forall₂ BlockFits seen blocks := by
  induction h with
  | nil => exact iff_of_true rfl .nil
  | cons hfirst _ ih => rw [List.map_cons, List.map_cons, List.cons_eq_cons, List.forall₂_cons, blockFits_iff hfirst, ih]

/-- The client reads a stream as the format says exactly when the stream fits, however it is cut into chunks. -/
theorem decoded_payloads {read : Bytes → List Char} (utf8 : Utf8 read) {text : List Char} {chunks : List Bytes}
    (h : chunks.flatten = toUtf8 text) :
    (SseEventParser.new.decodeAll read chunks).1 = payloads (dropBom text) ↔ StreamFits text := by
  have hsees := blocks_bom text
  have hle : List.Forall₂ (fun items items' : List (List Char) => items.length ≤ items'.length)
      (((blocks text).1.map fun block => (filled (extractDataLines block)).toList) ++ [[]])
      (((blocks (dropBom text)).1.map fun block => ((blockLines block).splitOn []).filterMap payload) ++
        [payloads (blocks (dropBom text)).2]) := by
    refine List.rel_append (List.forall₂_map_left_iff.mpr (List.forall₂_map_right_iff.mpr ?_))
      (.cons (Nat.zero_le _) .nil)
    exact hsees.imp fun _ _ => block_le
  have hflat := flatten_eq_iff hle
  rw [List.flatten_append, List.flatten_append, List.flatten_singleton, List.flatten_singleton, List.append_nil,
    ← payloads_blocks, ← decoded_blocks utf8 h] at hflat
  rw [hflat]
  have hlength : ((blocks text).1.map fun block => (filled (extractDataLines block)).toList).length =
      ((blocks (dropBom text)).1.map fun block => ((blockLines block).splitOn []).filterMap payload).length := by
    rw [List.length_map, List.length_map, hsees.length_eq]
  rw [List.append_eq_append_iff_of_size_eq_left hlength, forall₂_iff hsees, List.cons_eq_cons, and_iff_left rfl]
  constructor
  · rintro ⟨hblocks, hrest⟩
    exact ⟨hblocks, (events_nil _).mp hrest.symm⟩
  · rintro ⟨hblocks, hrest⟩
    exact ⟨hblocks, ((events_nil _).mpr hrest).symm⟩

/-- Whatever the bytes are, what is decoded and what is kept depends on them alone, not on how they are cut. -/
theorem decodeAll_flatten (fromUtf8Lossy : Bytes → List Char) (chunks : List Bytes) :
    SseEventParser.new.decodeAll fromUtf8Lossy chunks =
      SseEventParser.new.decodeAll fromUtf8Lossy [chunks.flatten] := by
  have hnew : (blockReader (10 : UInt8)).read SseEventParser.new.buffer = none := rfl
  rw [decodeAll_eq, decodeAll_eq, Reader.feedAll_eq _ hnew, Reader.feedAll_eq _ hnew, List.flatten_singleton]

theorem decoded_payloads_cut :
    (SseEventParser.new.decodeAll readUtf8 [toUtf8 "data: ".toList ++ [0xc3], [0xa9, 0x0a, 0x0a]]).1 =
      payloads (dropBom "data: é\n\n".toList) ↔ StreamFits "data: é\n\n".toList :=
  decoded_payloads readUtf8_utf8 (by decide)

theorem crlf_event_lost :
    (SseEventParser.new.decodeAll readUtf8 [toUtf8 "data: x\r\n\r\n".toList]).1 = [] ∧
      payloads (dropBom "data: x\r\n\r\n".toList) = ["x".toList] := by
  have hread : (blockReader 10).read [toUtf8 "data: x\r\n\r\n".toList].flatten = none := by decide
  refine ⟨?_, by decide⟩
  rw [decodeAll_new, Reader.drain_none _ hread]
  rfl

end Gqlforge.SseStreams
