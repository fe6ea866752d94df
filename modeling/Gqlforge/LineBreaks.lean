import Gqlforge.PostgresTemplates

namespace Gqlforge.LineBreaks

open PostgresParams (splitBytes)
open PostgresTemplates (isWhitespace)

abbrev Text := List Char

def bytes (text : Text) : ℕ := (text.map Char.utf8Size).sum

/-- What the segmentation crate promises of the extended grapheme clusters of a text. -/
structure Graphemes where
  of : Text → List Text
  flatten (text : Text) : (of text).flatten = text
  nonempty (text : Text) : ∀ piece ∈ of text, piece ≠ []

/-- A boundary does not depend on the clusters before it. -/
def Graphemes.Restarts (graphemes : Graphemes) : Prop :=
  ∀ text piece pieces, graphemes.of text = piece :: pieces → graphemes.of pieces.flatten = pieces

theorem Graphemes.of_nil (graphemes : Graphemes) : graphemes.of [] = [] :=
  List.eq_nil_iff_forall_not_mem.mpr fun piece hpiece =>
    graphemes.nonempty [] piece hpiece (List.flatten_eq_nil_iff.mp (graphemes.flatten []) piece hpiece)

theorem Graphemes.Restarts.of_append {graphemes : Graphemes} (h : graphemes.Restarts) {text : Text}
    {front back : List Text} (hpieces : graphemes.of text = front ++ back) : graphemes.of back.flatten = back := by
  induction front generalizing text with
  | nil =>
    rw [List.nil_append] at hpieces
    rw [← hpieces, graphemes.flatten]
  | cons piece front ih => exact ih (h text piece (front ++ back) hpieces)

structure LineBreaker where
  string : Text
  breakAt : ℕ
  index : ℕ

namespace LineBreaker

def new (string : Text) (breakAt : ℕ) : LineBreaker := ⟨string, breakAt, 0⟩

def takeWithin (breakAt : ℕ) : ℕ → ℕ → List Text → ℕ × List Text
  | _, lastValidIndex, [] => (lastValidIndex, [])
  | currentLen, lastValidIndex, grapheme :: iter =>
    if breakAt < currentLen + bytes grapheme then (lastValidIndex, grapheme :: iter)
    else takeWithin breakAt (currentLen + bytes grapheme) (lastValidIndex + bytes grapheme) iter

def takeToSpace : ℕ → List Text → ℕ
  | lastValidIndex, [] => lastValidIndex
  | lastValidIndex, grapheme :: iter =>
    if grapheme.any isWhitespace then lastValidIndex + bytes grapheme
    else takeToSpace (lastValidIndex + bytes grapheme) iter

variable (graphemes : Graphemes)

/-- No result stands for a slice that is cut inside a character. -/
def next (breaker : LineBreaker) : Option (Option (Text × LineBreaker)) :=
  if bytes breaker.string ≤ breaker.index then some none
  else do
    let (_, rest) ← splitBytes breaker.string breaker.index
    let (lastValidIndex, iter) := takeWithin breaker.breakAt 0 breaker.index (graphemes.of rest)
    let index := takeToSpace lastValidIndex iter
    let (line, _) ← splitBytes rest (index - breaker.index)
    return some (line, { breaker with index })

def lines (breaker : LineBreaker) : ℕ → Option (List Text)
  | 0 => none
  | fuel + 1 => do
    match ← breaker.next graphemes with
    | none => return []
    | some (line, breaker) => return line :: (← breaker.lines fuel)

end LineBreaker

theorem bytes_append (front back : Text) : bytes (front ++ back) = bytes front + bytes back := by
  rw [bytes, List.map_append, List.sum_append]
  rfl

theorem bytes_pos {text : Text} (h : text ≠ []) : 0 < bytes text := by
  obtain ⟨c, rest, rfl⟩ := List.exists_cons_of_ne_nil h
  exact Nat.add_pos_left c.utf8Size_pos _

theorem splitBytes_bytes (front back : Text) : splitBytes (front ++ back) (bytes front) = some (front, back) := by
  induction front with
  | nil => rw [List.nil_append, bytes, List.map_nil, List.sum_nil, splitBytes]
  | cons c front ih =>
    obtain ⟨size, hsize⟩ := Nat.exists_eq_succ_of_ne_zero c.utf8Size_pos.ne'
    have hbytes : bytes (c :: front) = size + bytes front + 1 := by
      rw [bytes, List.map_cons, List.sum_cons, hsize]
      exact Nat.succ_add _ _
    rw [hbytes, List.cons_append, PostgresParams.splitBytes_cons, if_pos (by omega),
      show size + bytes front + 1 - c.utf8Size = bytes front by omega, ih]
    rfl

/-- The line ends in white space, the first that ends past the width. -/
def Broken (breakAt : ℕ) (group : List Text) : Prop :=
  breakAt < bytes group.flatten ∧
    ∃ front last, group = front ++ [last] ∧ last.any isWhitespace = true ∧
      ∀ left piece right, front = left ++ piece :: right → breakAt < bytes (left ++ [piece]).flatten →
        piece.any isWhitespace = false

/-- The lines of a text, each the clusters of it. -/
inductive Breaks (graphemes : Graphemes) (breakAt : ℕ) : Text → List (List Text) → Prop where
  | done : Breaks graphemes breakAt [] []
  | line {text : Text} {group rest : List Text} {groups : List (List Text)} (hpieces : graphemes.of text = group ++ rest)
    (hne : group ≠ []) (hbroken : rest ≠ [] → Broken breakAt group)
    (hrest : Breaks graphemes breakAt rest.flatten groups) : Breaks graphemes breakAt text (group :: groups)

namespace LineBreaker

theorem takeWithin_spec (breakAt currentLen lastValidIndex : ℕ) (pieces : List Text) :
    ∃ within iter, pieces = within ++ iter ∧
      takeWithin breakAt currentLen lastValidIndex pieces = (lastValidIndex + bytes within.flatten, iter) ∧
      (within = [] ∨ currentLen + bytes within.flatten ≤ breakAt) ∧
      ∀ piece ∈ iter.head?, breakAt < currentLen + bytes within.flatten + bytes piece := by
  induction pieces generalizing currentLen lastValidIndex with
  | nil => exact ⟨[], [], rfl, rfl, .inl rfl, by simp⟩
  | cons piece pieces ih =>
    rw [takeWithin]
    split
    next hover => exact ⟨[], piece :: pieces, rfl, rfl, .inl rfl, by simpa [bytes] using hover⟩
    next hfits =>
      obtain ⟨within, iter, rfl, htake, hwithin, hpast⟩ :=
        ih (currentLen + bytes piece) (lastValidIndex + bytes piece)
      have hbytes : bytes (piece :: within).flatten = bytes piece + bytes within.flatten := bytes_append ..
      refine ⟨piece :: within, iter, rfl, ?_, .inr ?_, fun next hnext => ?_⟩
      · rw [htake, hbytes, Nat.add_assoc]
      · rcases hwithin with rfl | hle
        · rw [hbytes, List.flatten_nil]
          exact not_lt.mp hfits
        · omega
      · have := hpast next hnext
        omega

theorem takeToSpace_spec (lastValidIndex : ℕ) (pieces : List Text) :
    ∃ taken rest, pieces = taken ++ rest ∧ takeToSpace lastValidIndex pieces = lastValidIndex + bytes taken.flatten ∧
      (pieces ≠ [] → taken ≠ []) ∧
      (rest ≠ [] → ∃ front last, taken = front ++ [last] ∧ last.any isWhitespace = true ∧
        ∀ piece ∈ front, piece.any isWhitespace = false) := by
  induction pieces generalizing lastValidIndex with
  | nil => exact ⟨[], [], rfl, rfl, id, fun h => absurd rfl h⟩
  | cons piece pieces ih =>
    rw [takeToSpace]
    split
    next hspace =>
      exact ⟨[piece], pieces, rfl, by simp, by simp, fun _ => ⟨[], piece, rfl, hspace, by simp⟩⟩
    next hplain =>
      obtain ⟨taken, rest, rfl, htake, -, hends⟩ := ih (lastValidIndex + bytes piece)
      refine ⟨piece :: taken, rest, rfl, ?_, by simp, fun hrest => ?_⟩
      · rw [htake, List.flatten_cons, bytes_append, Nat.add_assoc]
      · obtain ⟨front, last, rfl, hspace, hfront⟩ := hends hrest
        exact ⟨piece :: front, last, rfl, hspace, List.forall_mem_cons.mpr ⟨Bool.eq_false_iff.mpr hplain, hfront⟩⟩

/-- What the two loops take of the clusters of a text. -/
theorem taken_spec (breakAt index : ℕ) {pieces : List Text} (h : pieces ≠ []) :
    ∃ group rest, pieces = group ++ rest ∧ group ≠ [] ∧ (rest ≠ [] → Broken breakAt group) ∧
      takeToSpace (takeWithin breakAt 0 index pieces).1 (takeWithin breakAt 0 index pieces).2 =
        index + bytes group.flatten := by
  obtain ⟨within, iter, rfl, hwithin, hle, hpast⟩ := takeWithin_spec breakAt 0 index pieces
  obtain ⟨taken, rest, rfl, htaken, hne, hends⟩ := takeToSpace_spec (index + bytes within.flatten) iter
  refine ⟨within ++ taken, rest, (List.append_assoc ..).symm, fun hnil => ?_, fun hrest => ?_, ?_⟩
  · obtain ⟨rfl, rfl⟩ := List.append_eq_nil_iff.mp hnil
    exact hne h rfl
  · obtain ⟨front, last, rfl, hspace, hfront⟩ := hends hrest
    refine ⟨?_, within ++ front, last, (List.append_assoc ..).symm, hspace, fun left piece right hsplit hover => ?_⟩
    · obtain ⟨first, others, hfirst⟩ :=
        List.exists_cons_of_ne_nil (List.append_ne_nil_of_right_ne_nil front (List.cons_ne_nil last []))
      have := hpast first (by rw [hfirst]; rfl)
      rw [hfirst, List.flatten_append, bytes_append, List.flatten_cons, bytes_append]
      omega
    · obtain ⟨middle, -, hmiddle⟩ | ⟨middle, hleft, hmiddle⟩ := List.append_eq_append_iff.mp hsplit
      · exact hfront piece (by rw [hmiddle]; simp)
      · cases middle with
        | nil => exact hfront piece (by rw [← List.nil_append front, ← hmiddle]; exact List.mem_cons_self)
        | cons found middle =>
          -- a cluster of the first loop ends within the width
          obtain rfl := (List.cons.inj hmiddle).1
          have hbytes : bytes within.flatten = bytes (left ++ [piece]).flatten + bytes middle.flatten := by
            rw [hleft, ← bytes_append, ← List.flatten_append, List.append_assoc, List.singleton_append]
          have := hle.resolve_left (by simp [hleft])
          omega
  · rw [hwithin, htaken, List.flatten_append, bytes_append, Nat.add_assoc]

variable {graphemes : Graphemes}

theorem next_done (string : Text) (breakAt : ℕ) : next graphemes ⟨string, breakAt, bytes string⟩ = some none :=
  if_pos le_rfl

theorem next_line (front : Text) (breakAt : ℕ) {back : Text} (h : back ≠ []) :
    ∃ group rest, graphemes.of back = group ++ rest ∧ group ≠ [] ∧ (rest ≠ [] → Broken breakAt group) ∧
      next graphemes ⟨front ++ back, breakAt, bytes front⟩ = some (some (group.flatten,
        ⟨(front ++ group.flatten) ++ rest.flatten, breakAt, bytes (front ++ group.flatten)⟩)) := by
  have hpieces : graphemes.of back ≠ [] := by
    intro hnil
    rw [← graphemes.flatten back, hnil] at h
    exact h rfl
  obtain ⟨group, rest, hsplit, hne, hbroken, htaken⟩ := taken_spec breakAt (bytes front) hpieces
  have hback : back = group.flatten ++ rest.flatten := by
    rw [← List.flatten_append, ← hsplit, graphemes.flatten]
  refine ⟨group, rest, hsplit, hne, hbroken, ?_⟩
  have hpos := bytes_pos h
  rw [next, if_neg (by rw [bytes_append]; exact not_le.mpr (Nat.lt_add_of_pos_right hpos))]
  simp only [splitBytes_bytes, Option.bind_eq_bind, Option.bind_some, htaken, Nat.add_sub_cancel_left]
  rw [hback, splitBytes_bytes, bytes_append, List.append_assoc]
  rfl

theorem lines_spec (graphemes : Graphemes) (breakAt : ℕ) (front back : Text) :
    ∃ groups, Breaks graphemes breakAt back groups ∧ ∀ fuel, back.length < fuel →
      lines graphemes ⟨front ++ back, breakAt, bytes front⟩ fuel = some (groups.map List.flatten) := by
  induction hlength : back.length using Nat.strong_induction_on generalizing front back with
  | h length ih =>
    by_cases hback : back = []
    · subst hback
      refine ⟨[], .done, fun fuel hfuel => ?_⟩
      obtain ⟨fuel, rfl⟩ := Nat.exists_eq_add_of_lt hfuel
      rw [List.append_nil, lines, next_done]
      rfl
    · obtain ⟨group, rest, hpieces, hne, hbroken, hnext⟩ := next_line front breakAt hback
      have hshorter : rest.flatten.length < length := by
        obtain ⟨piece, pieces, rfl⟩ := List.exists_cons_of_ne_nil hne
        have hpiece := List.length_pos_of_ne_nil (graphemes.nonempty back piece (by rw [hpieces]; simp))
        rw [← hlength, ← graphemes.flatten back, hpieces, List.flatten_append, List.flatten_cons]
        simp only [List.length_append]
        omega
      obtain ⟨groups, hbreaks, hlines⟩ := ih _ hshorter (front ++ group.flatten) rest.flatten rfl
      refine ⟨group :: groups, .line hpieces hne hbroken hbreaks, fun fuel hfuel => ?_⟩
      obtain ⟨fuel, rfl⟩ := Nat.exists_eq_succ_of_ne_zero (Nat.ne_zero_of_lt hfuel)
      rw [lines, hnext]
      simp only [Option.bind_eq_bind, Option.bind_some]
      rw [hlines fuel (by omega)]
      rfl

end LineBreaker

namespace Breaks

variable {graphemes : Graphemes} {breakAt : ℕ} {text : Text} {groups : List (List Text)}

theorem flatten_eq (h : Breaks graphemes breakAt text groups) : (groups.map List.flatten).flatten = text := by
  induction h with
  | done => rfl
  | @line text group rest groups hpieces _ _ _ ih =>
    rw [List.map_cons, List.flatten_cons, ih, ← List.flatten_append, ← hpieces, graphemes.flatten]

theorem ne_nil (h : Breaks graphemes breakAt text groups) : ∀ group ∈ groups, group.flatten ≠ [] := by
  induction h with
  | done => simp
  | @line text group rest groups hpieces hne _ _ ih =>
    refine List.forall_mem_cons.mpr ⟨fun hnil => ?_, ih⟩
    obtain ⟨piece, pieces, rfl⟩ := List.exists_cons_of_ne_nil hne
    exact graphemes.nonempty text piece (by rw [hpieces]; simp) (List.append_eq_nil_iff.mp hnil).1

theorem suffix {front back : List (List Text)} (h : Breaks graphemes breakAt text (front ++ back)) :
    Breaks graphemes breakAt (back.map List.flatten).flatten back := by
  induction front generalizing text with
  | nil =>
    rw [List.nil_append] at h
    rw [flatten_eq h]
    exact h
  | cons group front ih =>
    cases h with
    | line _ _ _ hrest => exact ih hrest

theorem first {group : List Text} (h : Breaks graphemes breakAt text (group :: groups)) :
    group <+: graphemes.of text ∧ (groups ≠ [] → Broken breakAt group) := by
  cases h with
  | @line _ _ rest _ hpieces _ hbroken hrest =>
    refine ⟨hpieces ▸ List.prefix_append group rest, fun hgroups => hbroken ?_⟩
    rintro rfl
    cases hrest with
    | done => exact hgroups rfl
    | line hpieces hne => exact hne (List.append_eq_nil_iff.mp (hpieces.symm.trans graphemes.of_nil)).1

theorem whole (hrestarts : graphemes.Restarts) (h : Breaks graphemes breakAt text groups) :
    groups.flatten = graphemes.of text := by
  induction h with
  | done => exact graphemes.of_nil.symm
  | line hpieces _ _ _ ih => rw [List.flatten_cons, ih, hrestarts.of_append hpieces, hpieces]

end Breaks

/-- The lines are groups of clusters that make up the text, and each but the last goes on to the first white space past
the width. -/
theorem lines_partition (graphemes : Graphemes) (text : Text) (breakAt : ℕ) : ∃ groups : List (List Text),
    (∀ fuel, text.length < fuel →
      (LineBreaker.new text breakAt).lines graphemes fuel = some (groups.map List.flatten)) ∧
    (groups.map List.flatten).flatten = text ∧
    (∀ group ∈ groups, group.flatten ≠ []) ∧
    (∀ front group back, groups = front ++ group :: back →
      group <+: graphemes.of ((group :: back).map List.flatten).flatten ∧ (back ≠ [] → Broken breakAt group)) ∧
    (graphemes.Restarts → groups.flatten = graphemes.of text) := by
  obtain ⟨groups, hbreaks, hlines⟩ := LineBreaker.lines_spec graphemes breakAt [] text
  refine ⟨groups, hlines, hbreaks.flatten_eq, hbreaks.ne_nil, fun front group back hgroups => ?_, hbreaks.whole⟩
  subst hgroups
  exact hbreaks.suffix.first

/-- Every character is a cluster. -/
def characters : Graphemes where
  of text := text.map ([·])
  flatten text := by rw [← List.flatMap_def, List.flatMap_singleton']
  nonempty text piece hpiece := by
    obtain ⟨c, -, rfl⟩ := List.mem_map.mp hpiece
    exact List.cons_ne_nil c []

theorem characters_restarts : characters.Restarts := by
  intro text piece pieces h
  obtain ⟨c, rest, rfl, -, rfl⟩ := List.map_eq_cons_iff.mp h
  exact congrArg characters.of (characters.flatten rest)

theorem lines_characters : ∃ groups : List (List Text),
    (∀ fuel, "of the text".toList.length < fuel →
      (LineBreaker.new "of the text".toList 4).lines characters fuel = some (groups.map List.flatten)) ∧
    groups.flatten = characters.of "of the text".toList := by
  obtain ⟨groups, hlines, -, -, -, hwhole⟩ := lines_partition characters "of the text".toList 4
  exact ⟨groups, hlines, hwhole characters_restarts⟩

example : (LineBreaker.new "of the text".toList 4).lines characters 12 = some ["of the ".toList, "text".toList] := by
  decide

end Gqlforge.LineBreaks
