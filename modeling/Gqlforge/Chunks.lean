import Mathlib.Data.List.Forall2
import Mathlib.Data.List.GetD
import Mathlib.Data.List.Infix
import Mathlib.Data.List.InsertIdx

namespace Gqlforge.Chunks

mutual

inductive Operation (A : Type) where
  | default
  | new (a : A)
  | collect (items : List A)
  | clone (place : ℕ)
  | move (place : ℕ)
  | append (a : A)
  | prepend (a : A)
  | concat
  | transform (f : A → A)
  | transformFlatten (captured : ℕ) (f : A → Program A)
  | materialize
  | drop

inductive Program (A : Type) where
  | done
  | perform (operation : Operation A) (next : Program A)
  | asVec (next : List A → Program A)

end

inductive Chunk (A : Type) where
  | empty
  | single (a : A)
  | concatenated (left right : Chunk A)
  | collect (vec : ℕ)
  | transformed (chunk : Chunk A) (captured : List (Chunk A)) (f : A → Program A)

abbrev Heap (A : Type) := List (List A)

structure State (A : Type) where
  held : List (Chunk A)
  heap : Heap A

variable {A : Type}

namespace Chunk

mutual

def vectors : Chunk A → List ℕ
  | .empty => []
  | .single _ => []
  | .concatenated left right => left.vectors ++ right.vectors
  | .collect vec => [vec]
  | .transformed chunk captured _ => chunk.vectors ++ vectorsOf captured

def vectorsOf : List (Chunk A) → List ℕ
  | [] => []
  | chunk :: chunks => chunk.vectors ++ vectorsOf chunks

end

def strongCount (vec : ℕ) (held : List (Chunk A)) : ℕ :=
  (vectorsOf held).count vec

def isNull (heap : Heap A) : Chunk A → Bool
  | .empty => true
  | .collect vec => (heap.getD vec []).isEmpty
  | _ => false

def concat (others : List (Chunk A)) (heap : Heap A) : Chunk A → Chunk A → Chunk A × Heap A
  | .empty, other => (other, heap)
  | this, .empty => (this, heap)
  | .single a, .single b => (.collect heap.length, heap ++ [[a, b]])
  | .collect vec, .single a =>
    if strongCount vec (.collect vec :: others) = 1 then (.collect vec, heap.modify vec (· ++ [a]))
    else (.concatenated (.collect vec) (.single a), heap)
  | this, that => (.concatenated this that, heap)

def append (others : List (Chunk A)) (heap : Heap A) (this : Chunk A) (a : A) : Chunk A × Heap A :=
  concat others heap this (.single a)

def prepend (others : List (Chunk A)) (heap : Heap A) (this : Chunk A) (a : A) : Chunk A × Heap A :=
  if this.isNull heap then (.single a, heap) else concat others heap (.single a) this

def transformFlatten (this : Chunk A) (captured : List (Chunk A)) (f : A → Program A) : Chunk A :=
  .transformed this captured f

def transform (this : Chunk A) (f : A → A) : Chunk A :=
  this.transformFlatten [] fun a => .perform (.new (f a)) .done

end Chunk

open Chunk

abbrev Reader (A : Type) := List (Chunk A) → Chunk A → Heap A → Option (List A × Heap A)

def Operation.run (asVec : Reader A) (others : List (Chunk A)) (operation : Operation A) (state : State A) :
    Option (State A) :=
  match operation with
  | .default => some ⟨.empty :: state.held, state.heap⟩
  | .new a => some ⟨.single a :: state.held, state.heap⟩
  | .collect items => some ⟨.collect state.heap.length :: state.held, state.heap ++ [items]⟩
  | .clone place => some ⟨state.held[place]?.toList ++ state.held, state.heap⟩
  | .move place => some ⟨state.held[place]?.toList ++ state.held.eraseIdx place, state.heap⟩
  | .append a =>
    match state.held with
    | this :: rest =>
      let result := this.append (others ++ rest) state.heap a
      some ⟨result.1 :: rest, result.2⟩
    | [] => some state
  | .prepend a =>
    match state.held with
    | this :: rest =>
      let result := this.prepend (others ++ rest) state.heap a
      some ⟨result.1 :: rest, result.2⟩
    | [] => some state
  | .concat =>
    match state.held with
    | other :: this :: rest =>
      let result := this.concat (others ++ rest) state.heap other
      some ⟨result.1 :: rest, result.2⟩
    | _ => some state
  | .transform f =>
    match state.held with
    | this :: rest => some ⟨this.transform f :: rest, state.heap⟩
    | [] => some state
  | .transformFlatten captured f =>
    match state.held.drop captured with
    | this :: rest => some ⟨this.transformFlatten (state.held.take captured) f :: rest, state.heap⟩
    | [] => some state
  | .materialize =>
    match state.held with
    | this :: rest =>
      (asVec (others ++ state.held) this state.heap).map fun result =>
        ⟨.collect result.2.length :: rest, result.2 ++ [result.1]⟩
    | [] => some state
  | .drop => some ⟨state.held.tail, state.heap⟩

def Program.run (asVec : Reader A) (others : List (Chunk A)) : Program A → State A → Option (State A)
  | .done, state => some state
  | .perform operation next, state => (operation.run asVec others state).bind (next.run asVec others)
  | .asVec next, state =>
    (asVec (others ++ state.held) (state.held.headD .empty) state.heap).bind fun result =>
      (next result.1).run asVec others ⟨state.held, result.2⟩

def Chunk.asVecMut : ℕ → List (Chunk A) → Chunk A → List A × Heap A → Option (List A × Heap A)
  | 0, _, _, _ => none
  | fuel + 1, held, chunk, (buf, heap) =>
    match chunk with
    | .empty => some (buf, heap)
    | .single a => some (buf ++ [a], heap)
    | .concatenated left right => (asVecMut fuel held left (buf, heap)).bind (asVecMut fuel held right)
    | .transformed chunk captured f =>
      (asVecMut fuel held chunk ([], heap)).bind fun tmp =>
        tmp.1.foldlM (fun result elem =>
          ((f elem).run (fun held chunk heap => asVecMut fuel held chunk ([], heap)) held ⟨captured, result.2⟩).bind
            fun state =>
              let chunk := state.held.headD .empty
              asVecMut fuel (chunk :: held) chunk (result.1, state.heap)) (buf, tmp.2)
    | .collect vec => some (buf ++ heap.getD vec [], heap)

def Chunk.asVec (fuel : ℕ) : Reader A := fun held chunk heap => asVecMut fuel held chunk ([], heap)

def runAll (fuel : ℕ) (operations : List (Operation A)) : Option (State A) :=
  operations.foldlM (fun state operation => operation.run (asVec fuel) [] state) ⟨[], []⟩

mutual

def Operation.interp : Operation A → List (List A) → List (List A)
  | .default, held => [] :: held
  | .new a, held => [a] :: held
  | .collect items, held => items :: held
  | .clone place, held => held[place]?.toList ++ held
  | .move place, held => held[place]?.toList ++ held.eraseIdx place
  | .append a, held =>
    match held with
    | items :: rest => (items ++ [a]) :: rest
    | [] => []
  | .prepend a, held =>
    match held with
    | items :: rest => (a :: items) :: rest
    | [] => []
  | .concat, held =>
    match held with
    | others :: items :: rest => (items ++ others) :: rest
    | _ => held
  | .transform f, held =>
    match held with
    | items :: rest => items.map f :: rest
    | [] => []
  | .transformFlatten captured f, held =>
    match held.drop captured with
    | items :: rest => items.flatMap (fun a => ((f a).interp (held.take captured)).headD []) :: rest
    | [] => held
  | .materialize, held => held
  | .drop, held => held.tail

def Program.interp : Program A → List (List A) → List (List A)
  | .done, held => held
  | .perform operation next, held => next.interp (operation.interp held)
  | .asVec next, held => (next (held.headD [])).interp held

end

def interpAll (operations : List (Operation A)) : List (List A) :=
  operations.foldl (fun held operation => operation.interp held) []

namespace Chunk

mutual

def contents (heap : Heap A) : Chunk A → List A
  | .empty => []
  | .single a => [a]
  | .concatenated left right => left.contents heap ++ right.contents heap
  | .collect vec => heap.getD vec []
  | .transformed chunk captured f =>
    (chunk.contents heap).flatMap fun a => ((f a).interp (contentsOf heap captured)).headD []

def contentsOf (heap : Heap A) : List (Chunk A) → List (List A)
  | [] => []
  | chunk :: chunks => chunk.contents heap :: contentsOf heap chunks

end

theorem contentsOf_eq_map (heap : Heap A) (chunks : List (Chunk A)) :
    contentsOf heap chunks = chunks.map (contents heap) := by
  induction chunks with
  | nil => rfl
  | cons chunk chunks ih => rw [contentsOf, ih, List.map_cons]

theorem mem_vectorsOf {vec : ℕ} {held : List (Chunk A)} :
    vec ∈ vectorsOf held ↔ ∃ chunk ∈ held, vec ∈ chunk.vectors := by
  induction held with
  | nil => simp [vectorsOf]
  | cons chunk held ih => rw [vectorsOf, List.mem_append, ih, List.exists_mem_cons_iff]

mutual

theorem contents_congr {heap heap' : Heap A} : (chunk : Chunk A) →
    (∀ vec ∈ chunk.vectors, heap'.getD vec [] = heap.getD vec []) → chunk.contents heap' = chunk.contents heap
  | .empty, _ => rfl
  | .single _, _ => rfl
  | .concatenated left right, h => by
    rw [contents, contents, contents_congr left fun vec hvec => h vec (List.mem_append_left _ hvec),
      contents_congr right fun vec hvec => h vec (List.mem_append_right _ hvec)]
  | .collect vec, h => h vec List.mem_cons_self
  | .transformed chunk captured f, h => by
    rw [contents, contents, contents_congr chunk fun vec hvec => h vec (List.mem_append_left _ hvec),
      contentsOf_congr captured fun vec hvec => h vec (List.mem_append_right _ hvec)]

theorem contentsOf_congr {heap heap' : Heap A} : (chunks : List (Chunk A)) →
    (∀ vec ∈ vectorsOf chunks, heap'.getD vec [] = heap.getD vec []) → contentsOf heap' chunks = contentsOf heap chunks
  | [], _ => rfl
  | chunk :: chunks, h => by
    rw [contentsOf, contentsOf, contents_congr chunk fun vec hvec => h vec (List.mem_append_left _ hvec),
      contentsOf_congr chunks fun vec hvec => h vec (List.mem_append_right _ hvec)]

end

end Chunk

def Allocated (held : List (Chunk A)) (heap : Heap A) : Prop :=
  ∀ vec ∈ vectorsOf held, vec < heap.length

structure Keeps (held : List (Chunk A)) (before after : Heap A) : Prop where
  grows : before.length ≤ after.length
  same : ∀ vec ∈ vectorsOf held, after.getD vec [] = before.getD vec []

section

variable {held held' : List (Chunk A)} {heap first second third : Heap A}

theorem Keeps.refl (held : List (Chunk A)) (heap : Heap A) : Keeps held heap heap :=
  ⟨le_rfl, fun _ _ => rfl⟩

theorem Keeps.trans (h : Keeps held first second) (h' : Keeps held second third) : Keeps held first third :=
  ⟨h.grows.trans h'.grows, fun vec hvec => (h'.same vec hvec).trans (h.same vec hvec)⟩

theorem vectorsOf_subset (h : held ⊆ held') : vectorsOf held ⊆ vectorsOf held' := by
  intro vec hvec
  obtain ⟨chunk, hchunk, hvec⟩ := mem_vectorsOf.mp hvec
  exact mem_vectorsOf.mpr ⟨chunk, h hchunk, hvec⟩

theorem Keeps.mono (h : Keeps held' first second) (hsub : vectorsOf held ⊆ vectorsOf held') : Keeps held first second :=
  ⟨h.grows, fun vec hvec => h.same vec (hsub hvec)⟩

theorem Allocated.mono (h : Allocated held' heap) (hsub : vectorsOf held ⊆ vectorsOf held') : Allocated held heap :=
  fun vec hvec => h vec (hsub hvec)

theorem Allocated.keeps (h : Allocated held first) (hkeeps : Keeps held first second) : Allocated held second :=
  fun vec hvec => (h vec hvec).trans_le hkeeps.grows

variable {chunk : Chunk A}

theorem Keeps.contents (h : Keeps held first second) (hchunk : chunk.vectors ⊆ vectorsOf held) :
    chunk.contents second = chunk.contents first :=
  contents_congr chunk fun vec hvec => h.same vec (hchunk hvec)

theorem vectors_subset (h : chunk ∈ held) : chunk.vectors ⊆ vectorsOf held :=
  fun _ hvec => mem_vectorsOf.mpr ⟨chunk, h, hvec⟩

theorem Keeps.contentsOf (h : Keeps held first second) {chunks : List (Chunk A)}
    (hchunks : vectorsOf chunks ⊆ vectorsOf held) : contentsOf second chunks = contentsOf first chunks :=
  contentsOf_congr chunks fun vec hvec => h.same vec (hchunks hvec)

theorem keeps_alloc (h : Allocated held heap) (items : List A) : Keeps held heap (heap ++ [items]) := by
  constructor
  · rw [List.length_append]
    exact Nat.le_add_right _ _
  · intro vec hvec
    exact List.getD_append _ _ _ _ (h vec hvec)

theorem getD_alloc (heap : Heap A) (items : List A) : (heap ++ [items]).getD heap.length [] = items := by
  rw [List.getD_append_right _ _ _ _ le_rfl, Nat.sub_self]
  rfl

theorem keeps_modify {vec : ℕ} (h : vec ∉ vectorsOf held) (f : List A → List A) :
    Keeps held heap (heap.modify vec f) := by
  constructor
  · rw [List.length_modify]
  · intro other hother
    have hne : vec ≠ other := fun hsame => h (hsame ▸ hother)
    rw [List.getD_eq_getElem?_getD, List.getElem?_modify_ne _ _ hne, List.getD_eq_getElem?_getD]

/-- What a call that consumes chunks leaves: the chunk that is returned, and all the others as they were. -/
structure Yields (others : List (Chunk A)) (heap : Heap A) (result : Chunk A × Heap A) (items : List A) : Prop where
  contents : result.1.contents result.2 = items
  allocated : ∀ vec ∈ result.1.vectors, vec < result.2.length
  keeps : Keeps others heap result.2

variable {this : Chunk A}

theorem yields_concatenated {other : Chunk A} (h : Allocated (this :: other :: held) heap) :
    Yields held heap (.concatenated this other, heap) (this.contents heap ++ other.contents heap) := by
  refine ⟨rfl, fun vec hvec => h vec ?_, .refl _ _⟩
  rw [vectorsOf, vectorsOf, ← List.append_assoc]
  exact List.mem_append_left _ hvec

theorem yields_alloc (h : Allocated held heap) (items : List A) :
    Yields held heap (.collect heap.length, heap ++ [items]) items := by
  refine ⟨getD_alloc heap items, fun vec hvec => ?_, keeps_alloc h items⟩
  rw [List.mem_singleton.mp hvec, List.length_append]
  exact Nat.lt_succ_self _

theorem not_mem_of_strongCount {vec : ℕ} (h : strongCount vec (.collect vec :: held) = 1) : vec ∉ vectorsOf held := by
  rw [strongCount, vectorsOf, vectors, List.singleton_append, List.count_cons_self] at h
  exact List.count_eq_zero.mp (Nat.succ.inj h)

theorem yields_push {vec : ℕ} (hvec : vec < heap.length) (h : vec ∉ vectorsOf held) (a : A) :
    Yields held heap (.collect vec, heap.modify vec (· ++ [a])) (heap.getD vec [] ++ [a]) := by
  refine ⟨?_, fun other hother => ?_, keeps_modify h _⟩
  · rw [contents, List.getD_eq_getElem?_getD, List.getElem?_modify_eq, List.getElem?_eq_getElem hvec,
      List.getD_eq_getElem _ _ hvec]
    rfl
  · rw [List.mem_singleton.mp hother, List.length_modify]
    exact hvec

theorem concat_yields {other : Chunk A} (h : Allocated (this :: other :: held) heap) :
    Yields held heap (this.concat held heap other) (this.contents heap ++ other.contents heap) := by
  have hheld : Allocated held heap := h.mono (vectorsOf_subset fun chunk hchunk => by simp [hchunk])
  fun_cases concat held heap this other
  case case1 => exact ⟨rfl, fun vec hvec => h vec (List.mem_append_left (vectorsOf held) hvec), .refl _ _⟩
  case case2 =>
    refine ⟨(List.append_nil _).symm, fun vec hvec => h vec ?_, .refl _ _⟩
    exact List.mem_append_left _ hvec
  case case3 a b => exact yields_alloc hheld [a, b]
  case case4 vec a hcount =>
    exact yields_push (h vec List.mem_cons_self) (not_mem_of_strongCount hcount) a
  case case5 => exact yields_concatenated h
  case case6 => exact yields_concatenated h

theorem isNull_eq_true_imp (h : chunk.isNull heap = true) : chunk.contents heap = [] := by
  cases chunk with
  | empty => rfl
  | collect vec => exact List.isEmpty_iff.mp h
  | single a => cases h
  | concatenated left right => cases h
  | transformed chunk captured f => cases h

theorem append_yields (h : Allocated (this :: held) heap) (a : A) :
    Yields held heap (this.append held heap a) (this.contents heap ++ [a]) := by
  refine concat_yields fun vec hvec => h vec ?_
  exact hvec

theorem prepend_yields (h : Allocated (this :: held) heap) (a : A) :
    Yields held heap (this.prepend held heap a) (a :: this.contents heap) := by
  rw [prepend]
  by_cases hnull : this.isNull heap = true
  · rw [if_pos hnull, isNull_eq_true_imp hnull]
    exact ⟨rfl, List.forall_mem_nil _, .refl _ _⟩
  · rw [if_neg hnull]
    exact concat_yields h

end

structure Evaluates (held : List (Chunk A)) (chunk : Chunk A) (before after : Heap A) : Prop where
  keeps : Keeps held before after
  ends : ∃ least, ∀ fuel ≥ least, ∀ buf,
    chunk.asVecMut fuel held (buf, before) = some (buf ++ chunk.contents before, after)

def Good (chunk : Chunk A) : Prop :=
  ∀ held heap, chunk.vectors ⊆ vectorsOf held → Allocated held heap → ∃ after, Evaluates held chunk heap after

structure Valid (others : List (Chunk A)) (state : State A) : Prop where
  good : ∀ chunk ∈ state.held, Good chunk
  allocated : Allocated (others ++ state.held) state.heap

def State.lists (state : State A) : List (List A) :=
  state.held.map (contents state.heap)

/-- What is held then stands for what plain lists give, and the others stand for what they did. -/
structure Follows (others : List (Chunk A)) (interp : List (List A) → List (List A)) (before after : State A) :
    Prop where
  valid : Valid others after
  keeps : Keeps others before.heap after.heap
  lists : after.lists = interp before.lists

def Simulates (others : List (Chunk A)) (run : Reader A → State A → Option (State A))
    (interp : List (List A) → List (List A)) : Prop :=
  ∀ state, Valid others state → ∃ after, Follows others interp state after ∧
    ∃ least, ∀ fuel ≥ least, run (asVec fuel) state = some after

section

variable {held others rest : List (Chunk A)} {heap : Heap A}

example (fuel : ℕ) (a : A) : (Chunk.single a).asVecMut (fuel + 1) held ([], heap) = some ([a], heap) := by
  rw [asVecMut]
  rfl

theorem good_empty : Good (.empty : Chunk A) := fun held heap _ _ =>
  ⟨heap, .refl _ _, 1, fun fuel hfuel buf => by
    obtain ⟨fuel, rfl⟩ := Nat.exists_eq_add_of_le' hfuel
    rw [asVecMut, contents, List.append_nil]⟩

theorem good_single (a : A) : Good (.single a) := fun held heap _ _ =>
  ⟨heap, .refl _ _, 1, fun fuel hfuel buf => by
    obtain ⟨fuel, rfl⟩ := Nat.exists_eq_add_of_le' hfuel
    rw [asVecMut, contents]⟩

theorem good_collect (vec : ℕ) : Good (.collect vec : Chunk A) := fun held heap _ _ =>
  ⟨heap, .refl _ _, 1, fun fuel hfuel buf => by
    obtain ⟨fuel, rfl⟩ := Nat.exists_eq_add_of_le' hfuel
    rw [asVecMut, contents]⟩

theorem good_concatenated {left right : Chunk A} (hleft : Good left) (hright : Good right) :
    Good (.concatenated left right) := by
  intro held heap hsub halloc
  obtain ⟨hsubl, hsubr⟩ := List.append_subset.mp hsub
  obtain ⟨middle, hkeeps, least, hends⟩ := hleft held heap hsubl halloc
  obtain ⟨after, hkeeps', least', hends'⟩ := hright held middle hsubr (halloc.keeps hkeeps)
  refine ⟨after, hkeeps.trans hkeeps', max least least' + 1, fun fuel hfuel buf => ?_⟩
  obtain ⟨fuel, rfl⟩ := Nat.exists_eq_add_of_le' (Nat.le_of_add_left_le hfuel)
  rw [asVecMut, hends fuel (by omega), Option.bind_some, hends' fuel (by omega), contents, List.append_assoc,
    hkeeps.contents hsubr]

theorem Yields.follows {result : Chunk A × Heap A} {items : List A} (hgood : Good result.1)
    (hrest : ∀ chunk ∈ rest, Good chunk) (halloc : Allocated (others ++ rest) heap)
    (h : Yields (others ++ rest) heap result items) :
    Valid others ⟨result.1 :: rest, result.2⟩ ∧ Keeps others heap result.2 ∧
      State.lists ⟨result.1 :: rest, result.2⟩ = items :: rest.map (Chunk.contents heap) := by
  refine ⟨⟨List.forall_mem_cons.mpr ⟨hgood, hrest⟩, fun vec hvec => ?_⟩,
    h.keeps.mono (vectorsOf_subset (List.subset_append_left _ _)), ?_⟩
  · obtain ⟨chunk, hchunk, hvec⟩ := mem_vectorsOf.mp hvec
    have hcases : chunk = result.1 ∨ chunk ∈ others ++ rest := by
      simp only [List.mem_append, List.mem_cons] at hchunk ⊢
      tauto
    rcases hcases with rfl | hchunk
    · exact h.allocated vec hvec
    · exact (halloc.keeps h.keeps) vec (vectors_subset hchunk hvec)
  · rw [State.lists, List.map_cons, h.contents]
    refine congrArg _ (List.map_congr_left fun chunk hchunk => h.keeps.contents ?_)
    exact vectors_subset (List.mem_append_right _ hchunk)

theorem lists_headD (state : State A) : state.lists.headD [] = (state.held.headD .empty).contents state.heap := by
  obtain ⟨held, heap⟩ := state
  cases held with
  | nil => rfl
  | cons chunk held => rfl

variable {state : State A}

theorem headD_good (h : Valid others state) : Good (state.held.headD .empty) := by
  obtain ⟨held, heap⟩ := state
  cases held with
  | nil => exact good_empty
  | cons chunk held => exact h.good chunk List.mem_cons_self

theorem headD_vectors (held : List (Chunk A)) : (held.headD .empty).vectors ⊆ vectorsOf held := by
  cases held with
  | nil => exact List.nil_subset _
  | cons chunk held => exact List.subset_append_left _ _

variable {f : A → Program A}

theorem forEach_ends {captured : List (Chunk A)}
    (hf : ∀ a, Simulates held (fun asVec => (f a).run asVec held) (f a).interp) (hgood : ∀ chunk ∈ captured, Good chunk)
    (hsub : vectorsOf captured ⊆ vectorsOf held) (lists : List (List A)) (items : List A) (heap : Heap A)
    (halloc : Allocated held heap) (hlists : contentsOf heap captured = lists) :
    ∃ after, Keeps held heap after ∧ ∃ least, ∀ fuel ≥ least, ∀ buf,
      items.foldlM (fun result elem =>
        ((f elem).run (asVec fuel) held ⟨captured, result.2⟩).bind fun state =>
          asVecMut fuel (state.held.headD .empty :: held) (state.held.headD .empty) (result.1, state.heap))
            (buf, heap) =
        some (buf ++ items.flatMap fun a => ((f a).interp lists).headD [], after) := by
  induction items generalizing heap with
  | nil => exact ⟨heap, .refl _ _, 0, fun fuel _ buf => by simp⟩
  | cons a items ih =>
    have hvalid : Valid held ⟨captured, heap⟩ := by
      refine ⟨hgood, halloc.mono fun vec hvec => ?_⟩
      obtain ⟨chunk, hchunk, hvec⟩ := mem_vectorsOf.mp hvec
      rcases List.mem_append.mp hchunk with hchunk | hchunk
      · exact vectors_subset hchunk hvec
      · exact hsub (vectors_subset hchunk hvec)
    obtain ⟨state, hfollows, least, hrun⟩ := hf a ⟨captured, heap⟩ hvalid
    have hstate : Allocated (state.held.headD .empty :: held) state.heap := by
      refine hfollows.valid.allocated.mono fun vec hvec => ?_
      rcases List.mem_append.mp hvec with hvec | hvec
      · exact vectorsOf_subset (List.subset_append_right _ _) (headD_vectors _ hvec)
      · exact vectorsOf_subset (List.subset_append_left _ _) hvec
    obtain ⟨middle, hkeeps, least', hends⟩ :=
      headD_good hfollows.valid _ state.heap (List.subset_append_left _ _) hstate
    have hkeeps' : Keeps held heap middle :=
      hfollows.keeps.trans (hkeeps.mono (List.subset_append_right _ _))
    obtain ⟨after, hafter, least'', hrest⟩ := ih middle (halloc.keeps hkeeps') ((hkeeps'.contentsOf hsub).trans hlists)
    refine ⟨after, hkeeps'.trans hafter, max least (max least' least''), fun fuel hfuel buf => ?_⟩
    have hhead : (state.held.headD .empty).contents state.heap = ((f a).interp lists).headD [] := by
      rw [← lists_headD, hfollows.lists, ← hlists, contentsOf_eq_map]
      rfl
    have hbody : (f a).run (asVec fuel) held ⟨captured, heap⟩ = some state := hrun fuel (by omega)
    rw [List.foldlM_cons, Option.bind_eq_bind, hbody, Option.bind_some, hends fuel (by omega), Option.bind_some,
      hrest fuel (by omega), hhead, List.flatMap_cons, List.append_assoc]

theorem good_transformed {chunk : Chunk A} {captured : List (Chunk A)} (hchunk : Good chunk)
    (hcaptured : ∀ chunk ∈ captured, Good chunk)
    (hf : ∀ a others, Simulates others (fun asVec => (f a).run asVec others) (f a).interp) :
    Good (.transformed chunk captured f) := by
  intro held heap hsub halloc
  obtain ⟨hsubc, hsubcs⟩ := List.append_subset.mp hsub
  obtain ⟨middle, hkeeps, least, hends⟩ := hchunk held heap hsubc halloc
  obtain ⟨after, hafter, least', hends'⟩ := forEach_ends (hf · held) hcaptured hsubcs (contentsOf heap captured)
    (chunk.contents heap) middle (halloc.keeps hkeeps) (hkeeps.contentsOf hsubcs)
  refine ⟨after, hkeeps.trans hafter, max least least' + 1, fun fuel hfuel buf => ?_⟩
  obtain ⟨fuel, rfl⟩ := Nat.exists_eq_add_of_le' (Nat.le_of_add_left_le hfuel)
  rw [asVecMut, hends fuel (by omega), Option.bind_some]
  exact hends' fuel (by omega) buf

variable {this : Chunk A}

theorem Valid.front (h : Valid others ⟨this :: rest, heap⟩) :
    Good this ∧ (∀ chunk ∈ rest, Good chunk) ∧ Allocated (this :: (others ++ rest)) heap := by
  obtain ⟨hgood, halloc⟩ := h
  refine ⟨hgood this List.mem_cons_self, fun chunk hchunk => hgood chunk (List.mem_cons_of_mem _ hchunk), ?_⟩
  exact halloc.mono (vectorsOf_subset fun chunk hchunk => by simp only [List.mem_append, List.mem_cons] at *; tauto)

theorem Yields.ends {interp : List (List A) → List (List A)} {run : ℕ → State A → Option (State A)}
    {result : Chunk A × Heap A} {items : List A} (hgood : Good result.1) (hrest : ∀ chunk ∈ rest, Good chunk)
    (halloc : Allocated (others ++ rest) state.heap) (h : Yields (others ++ rest) state.heap result items)
    (hinterp : interp state.lists = items :: rest.map (Chunk.contents state.heap))
    (hrun : ∃ least, ∀ fuel ≥ least, run fuel state = some ⟨result.1 :: rest, result.2⟩) :
    ∃ after, Follows others interp state after ∧ ∃ least, ∀ fuel ≥ least, run fuel state = some after := by
  obtain ⟨hvalid, hkeeps, hlists⟩ := h.follows hgood hrest halloc
  exact ⟨_, ⟨hvalid, hkeeps, hlists.trans hinterp.symm⟩, hrun⟩

theorem good_concat {other : Chunk A} (hthis : Good this) (hother : Good other) :
    Good (this.concat held heap other).1 := by
  fun_cases concat held heap this other
  case case1 => exact hother
  case case2 => exact hthis
  case case3 => exact good_collect _
  case case4 => exact good_collect _
  case case5 => exact good_concatenated hthis hother
  case case6 => exact good_concatenated hthis hother

theorem good_prepend (hthis : Good this) (a : A) : Good (this.prepend held heap a).1 := by
  rw [prepend]
  by_cases hnull : this.isNull heap = true
  · rw [if_pos hnull]
    exact good_single a
  · rw [if_neg hnull]
    exact good_concat (good_single a) hthis

theorem simulates_rearranged {run : Reader A → State A → Option (State A)} {interp : List (List A) → List (List A)}
    (arrange : State A → List (Chunk A)) (hsub : ∀ state, arrange state ⊆ state.held)
    (hrun : ∀ asVec state, run asVec state = some ⟨arrange state, state.heap⟩)
    (hinterp : ∀ state, (arrange state).map (contents state.heap) = interp state.lists) :
    Simulates others run interp := by
  intro state hvalid
  refine ⟨⟨arrange state, state.heap⟩, ⟨⟨fun chunk hchunk => hvalid.good chunk (hsub state hchunk), ?_⟩, .refl _ _,
    hinterp state⟩, 0, fun fuel _ => hrun _ state⟩
  refine hvalid.allocated.mono (vectorsOf_subset (List.append_subset.mpr ⟨List.subset_append_left _ _, ?_⟩))
  exact List.subset_append_of_subset_right _ (hsub state)

theorem toList_subset (held : List (Chunk A)) (place : ℕ) : held[place]?.toList ⊆ held := by
  intro chunk hchunk
  exact List.mem_of_getElem? (Option.mem_toList.mp hchunk)

theorem map_toList (heap : Heap A) (held : List (Chunk A)) (place : ℕ) :
    held[place]?.toList.map (contents heap) = (held.map (contents heap))[place]?.toList := by
  rw [List.getElem?_map]
  cases held[place]? with
  | none => rfl
  | some chunk => rfl

theorem simulates_clone (place : ℕ) :
    Simulates others (fun asVec => (Operation.clone place : Operation A).run asVec others)
      (Operation.clone place).interp := by
  refine simulates_rearranged (fun state => state.held[place]?.toList ++ state.held) (fun state => ?_) (fun _ _ => rfl)
    fun state => ?_
  · exact List.append_subset.mpr ⟨toList_subset _ _, List.Subset.refl _⟩
  · rw [List.map_append, map_toList]
    rfl

theorem simulates_move (place : ℕ) :
    Simulates others (fun asVec => (Operation.move place : Operation A).run asVec others)
      (Operation.move place).interp := by
  refine simulates_rearranged (fun state => state.held[place]?.toList ++ state.held.eraseIdx place) (fun state => ?_)
    (fun _ _ => rfl) fun state => ?_
  · exact List.append_subset.mpr ⟨toList_subset _ _, (List.eraseIdx_sublist _ _).subset⟩
  · rw [List.map_append, map_toList, ← List.eraseIdx_map]
    rfl

theorem simulates_drop :
    Simulates others (fun asVec => (Operation.drop : Operation A).run asVec others) Operation.drop.interp := by
  refine simulates_rearranged (fun state => state.held.tail) (fun state => List.tail_subset _) (fun _ _ => rfl)
    fun state => ?_
  rw [List.map_tail]
  rfl

theorem ends_unchanged {run : Reader A → State A → Option (State A)} {interp : List (List A) → List (List A)}
 (hvalid : Valid others state) (hrun : ∀ asVec, run asVec state = some state)
    (hinterp : interp state.lists = state.lists) : ∃ after, Follows others interp state after ∧
      ∃ least, ∀ fuel ≥ least, run (asVec fuel) state = some after :=
  ⟨state, ⟨hvalid, .refl _ _, hinterp.symm⟩, 0, fun _ _ => hrun _⟩

theorem simulates_default :
    Simulates others (fun asVec => (Operation.default : Operation A).run asVec others) Operation.default.interp := by
  intro state hvalid
  have hyields : Yields (others ++ state.held) state.heap (.empty, state.heap) [] :=
    ⟨rfl, List.forall_mem_nil _, .refl _ _⟩
  exact hyields.ends good_empty hvalid.good hvalid.allocated rfl ⟨0, fun _ _ => rfl⟩

theorem simulates_new (a : A) :
    Simulates others (fun asVec => (Operation.new a).run asVec others) (Operation.new a).interp := by
  intro state hvalid
  have hyields : Yields (others ++ state.held) state.heap (.single a, state.heap) [a] :=
    ⟨rfl, List.forall_mem_nil _, .refl _ _⟩
  exact hyields.ends (good_single a) hvalid.good hvalid.allocated rfl ⟨0, fun _ _ => rfl⟩

theorem simulates_collect (items : List A) :
    Simulates others (fun asVec => (Operation.collect items).run asVec others) (Operation.collect items).interp := by
  intro state hvalid
  exact (yields_alloc hvalid.allocated items).ends (good_collect _) hvalid.good hvalid.allocated rfl ⟨0, fun _ _ => rfl⟩

theorem simulates_append (a : A) :
    Simulates others (fun asVec => (Operation.append a).run asVec others) (Operation.append a).interp := by
  rintro ⟨held, heap⟩ hvalid
  cases held with
  | nil => exact ends_unchanged hvalid (fun _ => rfl) rfl
  | cons this rest =>
    obtain ⟨hthis, hrest, halloc⟩ := hvalid.front
    exact (append_yields halloc a).ends (good_concat hthis (good_single a)) hrest
      (halloc.mono (List.subset_append_right _ _)) rfl ⟨0, fun _ _ => rfl⟩

theorem simulates_prepend (a : A) :
    Simulates others (fun asVec => (Operation.prepend a).run asVec others) (Operation.prepend a).interp := by
  rintro ⟨held, heap⟩ hvalid
  cases held with
  | nil => exact ends_unchanged hvalid (fun _ => rfl) rfl
  | cons this rest =>
    obtain ⟨hthis, hrest, halloc⟩ := hvalid.front
    exact (prepend_yields halloc a).ends (good_prepend hthis a) hrest
      (halloc.mono (List.subset_append_right _ _)) rfl ⟨0, fun _ _ => rfl⟩

theorem simulates_concat :
    Simulates others (fun asVec => (Operation.concat : Operation A).run asVec others) Operation.concat.interp := by
  rintro ⟨held, heap⟩ hvalid
  rcases held with _ | ⟨other, _ | ⟨this, rest⟩⟩
  · exact ends_unchanged hvalid (fun _ => rfl) rfl
  · exact ends_unchanged hvalid (fun _ => rfl) rfl
  · obtain ⟨hother, hthis, _⟩ := hvalid.front
    have halloc : Allocated (this :: other :: (others ++ rest)) heap :=
      hvalid.allocated.mono (vectorsOf_subset fun chunk hchunk => by
        simp only [List.mem_append, List.mem_cons] at *
        tauto)
    refine (concat_yields halloc).ends (good_concat (hthis this List.mem_cons_self) hother)
      (fun chunk hchunk => hthis chunk (List.mem_cons_of_mem _ hchunk)) (halloc.mono ?_) rfl ⟨0, fun _ _ => rfl⟩
    exact vectorsOf_subset fun chunk hchunk => List.mem_cons_of_mem _ (List.mem_cons_of_mem _ hchunk)

theorem simulates_materialize :
    Simulates others (fun asVec => (Operation.materialize : Operation A).run asVec others)
      Operation.materialize.interp := by
  rintro ⟨held, heap⟩ hvalid
  cases held with
  | nil => exact ends_unchanged hvalid (fun _ => rfl) rfl
  | cons this rest =>
    obtain ⟨hthis, hrest, halloc⟩ := hvalid.front
    have hsub : this.vectors ⊆ vectorsOf (others ++ this :: rest) :=
      vectors_subset (List.mem_append_right _ List.mem_cons_self)
    obtain ⟨middle, hkeeps, least, hends⟩ := hthis _ heap hsub hvalid.allocated
    have hrests : vectorsOf (others ++ rest) ⊆ vectorsOf (others ++ this :: rest) :=
      vectorsOf_subset fun chunk hchunk => by simp only [List.mem_append, List.mem_cons] at *; tauto
    have hkeeps' : Keeps (others ++ rest) heap middle := hkeeps.mono hrests
    have halloc' : Allocated (others ++ rest) heap := halloc.mono (List.subset_append_right _ _)
    have hnew := yields_alloc (halloc'.keeps hkeeps') (this.contents heap)
    have hyields : Yields (others ++ rest) heap
        (.collect middle.length, middle ++ [this.contents heap]) (this.contents heap) :=
      ⟨hnew.contents, hnew.allocated, hkeeps'.trans hnew.keeps⟩
    refine hyields.ends (good_collect _) hrest halloc' rfl ⟨least, fun fuel hfuel => ?_⟩
    have hread : asVec fuel (others ++ this :: rest) this heap = some (this.contents heap, middle) :=
      hends fuel hfuel []
    change (asVec fuel (others ++ this :: rest) this heap).map _ = _
    rw [hread]
    rfl

theorem simulates_done :
    Simulates others (fun asVec => (Program.done : Program A).run asVec others) Program.done.interp :=
  fun state hvalid => ⟨state, ⟨hvalid, .refl _ _, rfl⟩, 0, fun _ _ => rfl⟩

theorem simulates_perform {operation : Operation A} {next : Program A}
    (h : Simulates others (fun asVec => operation.run asVec others) operation.interp)
    (hnext : Simulates others (fun asVec => next.run asVec others) next.interp) :
    Simulates others (fun asVec => (Program.perform operation next).run asVec others)
      (Program.perform operation next).interp := by
  intro state hvalid
  obtain ⟨middle, hfollows, least, hrun⟩ := h state hvalid
  obtain ⟨after, hfollows', least', hrun'⟩ := hnext middle hfollows.valid
  refine ⟨after, ⟨hfollows'.valid, hfollows.keeps.trans hfollows'.keeps, ?_⟩, max least least', fun fuel hfuel => ?_⟩
  · rw [hfollows'.lists, hfollows.lists]
    rfl
  · have hmiddle : operation.run (asVec fuel) others state = some middle := hrun fuel (by omega)
    change (operation.run (asVec fuel) others state).bind _ = some after
    rw [hmiddle]
    exact hrun' fuel (by omega)

theorem simulates_asVec {next : List A → Program A}
    (hnext : ∀ items, Simulates others (fun asVec => (next items).run asVec others) (next items).interp) :
    Simulates others (fun asVec => (Program.asVec next).run asVec others) (Program.asVec next).interp := by
  rintro ⟨held, heap⟩ hvalid
  obtain ⟨middle, hkeeps, least, hends⟩ := headD_good hvalid (others ++ held) heap
    (List.Subset.trans (headD_vectors held) (vectorsOf_subset (List.subset_append_right _ _))) hvalid.allocated
  have hmiddle : Valid others ⟨held, middle⟩ := ⟨hvalid.good, hvalid.allocated.keeps hkeeps⟩
  obtain ⟨after, hfollows, least', hrun⟩ := hnext ((held.headD .empty).contents heap) ⟨held, middle⟩ hmiddle
  refine ⟨after, ⟨hfollows.valid, ?_, ?_⟩, max least least', fun fuel hfuel => ?_⟩
  · exact (hkeeps.mono (vectorsOf_subset (List.subset_append_left _ _))).trans hfollows.keeps
  · have hlists : State.lists ⟨held, middle⟩ = State.lists ⟨held, heap⟩ := List.map_congr_left fun chunk hchunk =>
      hkeeps.contents (vectors_subset (List.mem_append_right _ hchunk))
    rw [hfollows.lists, hlists, ← lists_headD ⟨held, heap⟩]
    rfl
  · have hread : asVec fuel (others ++ held) (held.headD .empty) heap =
        some ((held.headD .empty).contents heap, middle) := hends fuel (by omega) []
    change (asVec fuel (others ++ held) (held.headD .empty) heap).bind _ = some after
    rw [hread]
    exact hrun fuel (by omega)

theorem simulates_transformFlatten {captured : ℕ}
    (hf : ∀ a others, Simulates others (fun asVec => (f a).run asVec others) (f a).interp) :
    Simulates others (fun asVec => (Operation.transformFlatten captured f).run asVec others)
      (Operation.transformFlatten captured f).interp := by
  rintro ⟨held, heap⟩ hvalid
  have hlists : (held.map (contents heap)).drop captured = (held.drop captured).map (contents heap) :=
    (List.map_drop ..).symm
  cases hdrop : held.drop captured with
  | nil =>
    have hrun (asVec : Reader A) : (Operation.transformFlatten captured f).run asVec others ⟨held, heap⟩ =
        some ⟨held, heap⟩ := by
      simp only [Operation.run, hdrop]
    rw [hdrop] at hlists
    refine ⟨⟨held, heap⟩, ⟨hvalid, .refl _ _, ?_⟩, 0, fun _ _ => hrun _⟩
    simp only [Operation.interp, State.lists, hlists, List.map_nil]
  | cons this rest =>
    rw [hdrop] at hlists
    have hheld : held = held.take captured ++ this :: rest := by rw [← hdrop, List.take_append_drop]
    have hmem : ∀ chunk, chunk ∈ held.take captured ∨ chunk = this ∨ chunk ∈ rest → chunk ∈ held := by
      intro chunk hchunk
      rw [hheld, List.mem_append, List.mem_cons]
      exact hchunk
    have hgood := good_transformed (hvalid.good this (hmem _ (.inr (.inl rfl))))
      (fun chunk hchunk => hvalid.good chunk (hmem _ (.inl hchunk))) hf
    have halloc : Allocated (others ++ rest) heap := hvalid.allocated.mono (vectorsOf_subset fun chunk hchunk =>
      List.mem_append.mpr ((List.mem_append.mp hchunk).imp_right fun h => hmem _ (.inr (.inr h))))
    have hyields : Yields (others ++ rest) heap (this.transformFlatten (held.take captured) f, heap)
        ((this.transformFlatten (held.take captured) f).contents heap) := by
      refine ⟨rfl, fun vec hvec => hvalid.allocated vec ?_, .refl _ _⟩
      refine vectorsOf_subset (List.subset_append_right others held) ?_
      rcases List.mem_append.mp hvec with hvec | hvec
      · exact vectors_subset (hmem _ (.inr (.inl rfl))) hvec
      · exact vectorsOf_subset (List.take_subset _ _) hvec
    refine hyields.ends hgood (fun chunk hchunk => hvalid.good chunk (hmem _ (.inr (.inr hchunk)))) halloc ?_
      ⟨0, fun fuel _ => ?_⟩
    · simp only [Operation.interp, State.lists, hlists, List.map_cons, transformFlatten, contents, contentsOf_eq_map,
        List.map_take]
    · simp only [Operation.run, hdrop]

theorem simulates_transform (f : A → A) :
    Simulates others (fun asVec => (Operation.transform f).run asVec others) (Operation.transform f).interp := by
  rintro ⟨held, heap⟩ hvalid
  cases held with
  | nil => exact ends_unchanged hvalid (fun _ => rfl) rfl
  | cons this rest =>
    obtain ⟨hthis, hrest, halloc⟩ := hvalid.front
    have hgood : Good (this.transform f) := good_transformed hthis (List.forall_mem_nil _) fun a others =>
      simulates_perform (simulates_new (f a)) simulates_done
    have hyields : Yields (others ++ rest) heap (this.transform f, heap) ((this.transform f).contents heap) := by
      refine ⟨rfl, fun vec hvec => halloc vec ?_, .refl _ _⟩
      rw [transform, transformFlatten, vectors, vectorsOf, List.append_nil] at hvec
      exact List.mem_append_left _ hvec
    refine hyields.ends hgood hrest (halloc.mono (List.subset_append_right _ _)) ?_ ⟨0, fun _ _ => rfl⟩
    change (this.contents heap).map f :: _ = _
    rw [transform, transformFlatten, contents]
    exact congrArg (· :: _) (List.map_eq_flatMap ..)

mutual

theorem Operation.simulates (others : List (Chunk A)) : (operation : Operation A) →
    Simulates others (fun asVec => operation.run asVec others) operation.interp
  | .default => simulates_default
  | .new a => simulates_new a
  | .collect items => simulates_collect items
  | .clone place => simulates_clone place
  | .move place => simulates_move place
  | .append a => simulates_append a
  | .prepend a => simulates_prepend a
  | .concat => simulates_concat
  | .transform f => simulates_transform f
  | .transformFlatten _ f => simulates_transformFlatten fun a others => (f a).simulates others
  | .materialize => simulates_materialize
  | .drop => simulates_drop

theorem Program.simulates (others : List (Chunk A)) : (program : Program A) →
    Simulates others (fun asVec => program.run asVec others) program.interp
  | .done => simulates_done
  | .perform operation next => simulates_perform (operation.simulates others) (next.simulates others)
  | .asVec next => simulates_asVec fun items => (next items).simulates others

end

end

def Reaches (operations : List (Operation A)) (state : State A) : Prop :=
  ∃ least, ∀ fuel ≥ least, runAll fuel operations = some state

def AsVec (state : State A) (chunk : Chunk A) (items : List A) : Prop :=
  ∃ least after, ∀ fuel ≥ least, chunk.asVec fuel state.held state.heap = some (items, after)

def NullExact (state : State A) : Prop :=
  ∀ chunk ∈ state.held, chunk.isNull state.heap = true ↔ AsVec state chunk []

/-- Two chunks that hold nothing are not joined, unless one is the empty chunk itself, and what is transformed yields
something. -/
def Operation.NullSafe (operation : Operation A) (state : State A) : Prop :=
  match operation with
  | .concat =>
    match state.held with
    | other :: this :: _ =>
      this.contents state.heap = [] → other.contents state.heap = [] → this = .empty ∨ other = .empty
    | _ => True
  | .transform _ =>
    match state.held with
    | this :: _ => this.contents state.heap ≠ []
    | [] => True
  | .transformFlatten captured f =>
    match state.held.drop captured with
    | this :: _ => ∃ a ∈ this.contents state.heap,
        ((f a).interp ((state.held.take captured).map (contents state.heap))).headD [] ≠ []
    | [] => True
  | _ => True

variable {operation : Operation A} {state after : State A}

theorem reaches_append {operations : List (Operation A)}
    (h : Reaches operations state) (hrun : ∃ least, ∀ fuel ≥ least, operation.run (asVec fuel) [] state = some after) :
    Reaches (operations ++ [operation]) after := by
  obtain ⟨least, hall⟩ := h
  obtain ⟨least', hrun⟩ := hrun
  refine ⟨max least least', fun fuel hfuel => ?_⟩
  have hstate := hall fuel (by omega)
  rw [runAll] at hstate ⊢
  rw [List.foldlM_append, hstate, Option.bind_eq_bind, Option.bind_some, List.foldlM_cons, hrun fuel (by omega)]
  rfl

theorem Reaches.unique {operations : List (Operation A)} {state state' : State A} (h : Reaches operations state)
    (h' : Reaches operations state') : state = state' := by
  obtain ⟨least, hall⟩ := h
  obtain ⟨least', hall'⟩ := h'
  have hsome := hall (max least least') (le_max_left _ _)
  rw [hall' _ (le_max_right _ _)] at hsome
  exact (Option.some.inj hsome).symm

theorem interpAll_append (operations : List (Operation A)) (operation : Operation A) :
    interpAll (operations ++ [operation]) = operation.interp (interpAll operations) := by
  rw [interpAll, List.foldl_append]
  rfl

theorem reaches_valid (operations : List (Operation A)) :
    ∃ state, Reaches operations state ∧ Valid [] state ∧ state.lists = interpAll operations := by
  induction operations using List.reverseRecOn with
  | nil => exact ⟨⟨[], []⟩, ⟨0, fun _ _ => rfl⟩, ⟨List.forall_mem_nil _, List.forall_mem_nil _⟩, rfl⟩
  | append_singleton operations operation ih =>
    obtain ⟨state, hreaches, hvalid, hlists⟩ := ih
    obtain ⟨after, hfollows, hrun⟩ := operation.simulates [] state hvalid
    refine ⟨after, reaches_append hreaches hrun, hfollows.valid, ?_⟩
    rw [hfollows.lists, hlists, interpAll_append]

theorem Valid.asVec_iff (h : Valid [] state) {chunk : Chunk A} (hchunk : chunk ∈ state.held)
    (items : List A) : AsVec state chunk items ↔ chunk.contents state.heap = items := by
  obtain ⟨after, hkeeps, least, hends⟩ := h.good chunk hchunk state.held state.heap (vectors_subset hchunk) h.allocated
  have hread (fuel : ℕ) (hfuel : fuel ≥ least) :
      asVec fuel state.held chunk state.heap = some (chunk.contents state.heap, after) := hends fuel hfuel []
  constructor
  · rintro ⟨least', after', h'⟩
    have hsome := hread (max least least') (le_max_left _ _)
    rw [h' _ (le_max_right _ _)] at hsome
    exact (congrArg Prod.fst (Option.some.inj hsome)).symm
  · rintro rfl
    exact ⟨least, after, hread⟩

def Chunk.isNode : Chunk A → Bool
  | .concatenated _ _ => true
  | .transformed _ _ _ => true
  | _ => false

theorem isNull_iff_node (heap : Heap A) (chunk : Chunk A) : (chunk.isNull heap = true ↔ chunk.contents heap = []) ↔
    (chunk.isNode = true → chunk.contents heap ≠ []) := by
  cases chunk with
  | empty => exact iff_of_true (iff_of_true rfl rfl) fun h => Bool.noConfusion h
  | single a => exact iff_of_true (iff_of_false Bool.false_ne_true (List.cons_ne_nil _ _)) fun h => Bool.noConfusion h
  | collect vec => exact iff_of_true List.isEmpty_iff fun h => Bool.noConfusion h
  | concatenated left right => simp [isNull, isNode]
  | transformed chunk captured f => simp [isNull, isNode]

def Filled : List (Chunk A) → List (List A) → Prop :=
  List.Forall₂ fun chunk items => chunk.isNode = true → items ≠ []

theorem filled_iff (state : State A) :
    Filled state.held state.lists ↔ ∀ chunk ∈ state.held, chunk.isNode = true → chunk.contents state.heap ≠ [] := by
  rw [Filled, State.lists, List.forall₂_map_right_iff, List.forall₂_same]

theorem Valid.nullExact_iff (h : Valid [] state) : NullExact state ↔ Filled state.held state.lists := by
  rw [filled_iff, NullExact]
  exact forall₂_congr fun chunk hchunk => by rw [h.asVec_iff hchunk, isNull_iff_node]

theorem concat_filled {held : List (Chunk A)} {heap : Heap A} {this other : Chunk A}
    (hthis : this.isNode = true → this.contents heap ≠ []) (hother : other.isNode = true → other.contents heap ≠ []) :
    ((this.concat held heap other).1.isNode = true → this.contents heap ++ other.contents heap ≠ []) ↔
      (this.contents heap = [] → other.contents heap = [] → this = .empty ∨ other = .empty) := by
  have hnode : (this.contents heap ++ other.contents heap ≠ []) ↔
      (this.contents heap = [] → other.contents heap = [] → False) := by
    rw [Ne, List.append_eq_nil_iff, not_and]
  rw [hnode]
  fun_cases concat held heap this other
  case case1 => exact iff_of_true (fun hnode _ hnil => hother hnode hnil) fun _ _ => .inl rfl
  case case2 => exact iff_of_true (fun hnode hnil _ => hthis hnode hnil) fun _ _ => .inr rfl
  case case3 => exact iff_of_true (fun hnode => Bool.noConfusion hnode) fun hnil => absurd hnil (List.cons_ne_nil _ _)
  case case4 =>
    exact iff_of_true (fun hnode => Bool.noConfusion hnode) fun _ hnil => absurd hnil (List.cons_ne_nil _ _)
  case case5 =>
    exact iff_of_true (fun _ _ hnil => absurd hnil (List.cons_ne_nil _ _)) fun _ hnil =>
      absurd hnil (List.cons_ne_nil _ _)
  case case6 hempty hempty' _ _ =>
    rw [forall_prop_of_true (show Chunk.isNode (.concatenated this other) = true from rfl)]
    refine forall₂_congr fun _ _ => (iff_false_intro ?_).symm
    rintro (h | h)
    · exact hempty h
    · exact hempty' h

theorem filled_front {front : Chunk A} {rest : List (Chunk A)} {items : List A} {lists : List (List A)}
 (hafter : after.held = front :: rest) (hlists : after.lists = items :: lists) (hrest : Filled rest lists) :
    Filled after.held after.lists ↔ (front.isNode = true → items ≠ []) := by
  rw [hafter, hlists, Filled, List.forall₂_cons]
  exact and_iff_left hrest

theorem filled_rearranged {held arranged : List (Chunk A)} {heap : Heap A} (hsub : arranged ⊆ held)
    (h : Filled held (State.lists ⟨held, heap⟩)) : Filled arranged (State.lists ⟨arranged, heap⟩) :=
  (filled_iff ⟨arranged, heap⟩).mpr fun chunk hchunk => (filled_iff ⟨held, heap⟩).mp h chunk (hsub hchunk)

theorem Operation.filled_iff (hfilled : Filled state.held state.lists)
    (hlists : after.lists = operation.interp state.lists)
    (hrun : ∃ fuel, operation.run (asVec fuel) [] state = some after) :
    Filled after.held after.lists ↔ operation.NullSafe state := by
  obtain ⟨held, heap⟩ := state
  obtain ⟨fuel, hrun⟩ := hrun
  have hleaf {front : Chunk A} {rest : List (Chunk A)} {items : List A} {lists : List (List A)}
      (hafter : after.held = front :: rest) (hlists : after.lists = items :: lists) (hrest : Filled rest lists)
      (hfront : front.isNode = true → items ≠ []) : Filled after.held after.lists ↔ True :=
    (filled_front hafter hlists hrest).trans (iff_true_intro hfront)
  cases operation with
  | default =>
    cases hrun
    exact hleaf rfl hlists hfilled fun h => Bool.noConfusion h
  | new a =>
    cases hrun
    exact hleaf rfl hlists hfilled fun h => Bool.noConfusion h
  | collect items =>
    cases hrun
    exact hleaf rfl hlists hfilled fun h => Bool.noConfusion h
  | clone place =>
    cases hrun
    exact iff_true_intro (filled_rearranged (List.append_subset.mpr ⟨toList_subset _ _, List.Subset.refl _⟩) hfilled)
  | move place =>
    cases hrun
    refine iff_true_intro (filled_rearranged (List.append_subset.mpr ⟨toList_subset _ _, ?_⟩) hfilled)
    exact (List.eraseIdx_sublist _ _).subset
  | append a =>
    cases held with
    | nil =>
      cases hrun
      exact iff_true_intro hfilled
    | cons this rest =>
      cases hrun
      exact hleaf rfl hlists (List.forall₂_cons.mp hfilled).2 fun _ =>
        List.append_ne_nil_of_right_ne_nil _ (List.cons_ne_nil _ _)
  | prepend a =>
    cases held with
    | nil =>
      cases hrun
      exact iff_true_intro hfilled
    | cons this rest =>
      cases hrun
      exact hleaf rfl hlists (List.forall₂_cons.mp hfilled).2 fun _ => List.cons_ne_nil _ _
  | concat =>
    rcases held with _ | ⟨other, _ | ⟨this, rest⟩⟩
    · cases hrun
      exact iff_true_intro hfilled
    · cases hrun
      exact iff_true_intro hfilled
    · cases hrun
      obtain ⟨hother, hfilled⟩ := List.forall₂_cons.mp hfilled
      obtain ⟨hthis, hrest⟩ := List.forall₂_cons.mp hfilled
      exact (filled_front rfl hlists hrest).trans (concat_filled hthis hother)
  | transform f =>
    cases held with
    | nil =>
      cases hrun
      exact iff_true_intro hfilled
    | cons this rest =>
      cases hrun
      refine (filled_front rfl hlists (List.forall₂_cons.mp hfilled).2).trans ?_
      exact (forall_prop_of_true rfl).trans (not_congr List.map_eq_nil_iff)
  | transformFlatten captured f =>
    have hrest := List.forall₂_drop captured hfilled
    have hdrops : (State.lists ⟨held, heap⟩).drop captured = (held.drop captured).map (contents heap) :=
      (List.map_drop ..).symm
    simp only [Operation.run] at hrun
    simp only [Operation.interp] at hlists
    simp only [NullSafe]
    rw [hdrops] at hlists hrest
    cases hdrop : held.drop captured with
    | nil =>
      simp only [hdrop] at hrun ⊢
      cases hrun
      exact iff_true_intro hfilled
    | cons this rest =>
      rw [hdrop] at hlists hrest
      simp only [hdrop] at hrun ⊢
      cases hrun
      refine (filled_front rfl hlists (List.forall₂_cons.mp hrest).2).trans ?_
      rw [forall_prop_of_true (show (this.transformFlatten (held.take captured) f).isNode = true from rfl), Ne,
        List.flatMap_eq_nil_iff, State.lists, ← List.map_take]
      simp only [not_forall, exists_prop, Ne]
  | materialize =>
    cases held with
    | nil =>
      cases hrun
      exact iff_true_intro hfilled
    | cons this rest =>
      obtain ⟨result, hresult, rfl⟩ := Option.map_eq_some_iff.mp hrun
      exact hleaf rfl hlists (List.forall₂_cons.mp hfilled).2 fun h => Bool.noConfusion h
  | drop =>
    cases hrun
    exact iff_true_intro (filled_rearranged (List.tail_subset _) hfilled)

theorem Operation.nullExact_iff {operations : List (Operation A)} (hstate : Reaches operations state)
    (hafter : Reaches (operations ++ [operation]) after) (hexact : NullExact state) :
    NullExact after ↔ operation.NullSafe state := by
  obtain ⟨state', hstate', hvalid, hlists⟩ := reaches_valid operations
  obtain ⟨after', hafter', hvalid', hlists'⟩ := reaches_valid (operations ++ [operation])
  cases hstate.unique hstate'
  cases hafter.unique hafter'
  obtain ⟨next, _, least, hrun⟩ := operation.simulates [] state hvalid
  cases hafter.unique (reaches_append hstate ⟨least, hrun⟩)
  rw [hvalid'.nullExact_iff]
  refine operation.filled_iff (hvalid.nullExact_iff.mp hexact) ?_ ⟨least, hrun least le_rfl⟩
  rw [hlists', interpAll_append, hlists]

theorem nullExact_iff_nullSafe (operations : List (Operation A)) :
    (∀ earlier state, earlier <+: operations → Reaches earlier state → NullExact state) ↔
      ∀ earlier operation state, earlier ++ [operation] <+: operations → Reaches earlier state →
        operation.NullSafe state := by
  constructor
  · intro h earlier operation state hprefix hstate
    obtain ⟨after, hafter, _⟩ := reaches_valid (earlier ++ [operation])
    have hexact := h earlier state ((List.prefix_append _ _).trans hprefix) hstate
    exact (Operation.nullExact_iff hstate hafter hexact).mp (h _ after hprefix hafter)
  · intro h earlier
    induction earlier using List.reverseRecOn with
    | nil =>
      intro state _ hstate
      cases hstate.unique ⟨0, fun _ _ => rfl⟩
      exact List.forall_mem_nil _
    | append_singleton earlier operation ih =>
      intro after hprefix hafter
      obtain ⟨state, hstate, _⟩ := reaches_valid earlier
      have hexact := ih state ((List.prefix_append _ _).trans hprefix) hstate
      exact (Operation.nullExact_iff hstate hafter hexact).mpr (h earlier operation state hprefix hstate)

/-- Every chunk that is held reads as its operations on plain lists, while `is_null` is right as long as no step makes
a chunk that holds nothing out of others. -/
theorem chunks_persist (operations : List (Operation A)) :
    (∃ state, Reaches operations state ∧ List.Forall₂ (AsVec state) state.held (interpAll operations)) ∧
      ((∀ earlier state, earlier <+: operations → Reaches earlier state → NullExact state) ↔
        ∀ earlier operation state, earlier ++ [operation] <+: operations → Reaches earlier state →
          operation.NullSafe state) := by
  refine ⟨?_, nullExact_iff_nullSafe operations⟩
  obtain ⟨state, hreaches, hvalid, hlists⟩ := reaches_valid operations
  refine ⟨state, hreaches, ?_⟩
  rw [← hlists, State.lists, List.forall₂_map_right_iff, List.forall₂_same]
  exact fun chunk hchunk => (hvalid.asVec_iff hchunk _).mpr rfl

theorem transform_of_empty_not_null :
    ∃ state : State ℕ, Reaches [.default, .transform (· * 2)] state ∧ ∃ chunk ∈ state.held,
      AsVec state chunk [] ∧ chunk.isNull state.heap = false := by
  refine ⟨⟨[transform .empty (· * 2)], []⟩, ⟨0, fun _ _ => rfl⟩, _, List.mem_cons_self, ?_, rfl⟩
  refine ⟨2, [], fun fuel hfuel => ?_⟩
  obtain ⟨fuel, rfl⟩ := Nat.exists_eq_add_of_le' hfuel
  rfl

end Gqlforge.Chunks
