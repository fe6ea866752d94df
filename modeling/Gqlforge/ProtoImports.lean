import Gqlforge.Dict
import Mathlib.Data.Finset.Card

namespace Gqlforge.ProtoImports

open Relation

structure FileDescriptorProto where
  name : String
  dependency : List String

variable {ε : Type}

abbrev Resolver (ε : Type) := String → Except ε FileDescriptorProto

abbrev Discovery := List FileDescriptorProto × Dict FileDescriptorProto

def discover (state : Discovery) (proto : FileDescriptorProto) : Discovery :=
  if state.2.contains proto.name then state else (state.1 ++ [proto], state.2.insert proto.name proto)

def discoverAll (state : Discovery) (results : List (Except ε FileDescriptorProto)) : Except ε Discovery :=
  results.foldlM (fun state result => do return discover state (← result)) state

def resolveLoop (resolve : Resolver ε) : ℕ → Discovery → Option (Except ε (Dict FileDescriptorProto))
  | _, ([], descriptors) => some (.ok descriptors)
  | 0, _ => none
  | fuel + 1, (file :: queue, descriptors) =>
    match discoverAll (queue, descriptors) (file.dependency.map resolve) with
    | .ok state => resolveLoop resolve fuel state
    | .error error => some (.error error)

def resolveDependencies (resolve : Resolver ε) (fuel : ℕ) (parentProto : FileDescriptorProto) :
    Option (Except ε (List FileDescriptorProto)) :=
  (resolveLoop resolve fuel ([parentProto], .empty)).map fun descriptors =>
    descriptors.map fun descriptors => descriptors.values ++ [parentProto]

def Imports (resolve : Resolver ε) (name other : String) : Prop :=
  ∃ file, resolve name = .ok file ∧ other ∈ file.dependency

/-- Finitely many names, of which each is read as a file of that name and imports no others. -/
structure Resolves (resolve : Resolver ε) (known : Finset String) : Prop where
  file : ∀ name ∈ known, ∃ file, resolve name = .ok file ∧ file.name = name
  imports : ∀ name ∈ known, ∀ other, Imports resolve name other → other ∈ known

structure Once (resolve : Resolver ε) (start : String) (files : List FileDescriptorProto) : Prop where
  reached : ∀ file, file ∈ files ↔ resolve file.name = .ok file ∧ ReflTransGen (Imports resolve) start file.name
  distinct : (files.map FileDescriptorProto.name).Nodup

def pending (known : Finset String) (descriptors : Dict FileDescriptorProto) : ℕ :=
  (known.filter fun name => descriptors.contains name = false).card

theorem contains_insert (descriptors : Dict FileDescriptorProto) (file : FileDescriptorProto) (name : String) :
    (descriptors.insert file.name file).contains name = true ↔ name = file.name ∨ descriptors.contains name = true := by
  rw [Dict.contains, Dict.get?_insert]
  by_cases h : name = file.name
  · rw [if_pos h]
    exact iff_of_true rfl (.inl h)
  · rw [if_neg h, or_iff_right h]
    rfl

variable {known : Finset String}

theorem pending_insert {descriptors : Dict FileDescriptorProto} {file : FileDescriptorProto}
    (hknown : file.name ∈ known) (h : descriptors.contains file.name = false) :
    pending known (descriptors.insert file.name file) + 1 = pending known descriptors := by
  have hfilter : (known.filter fun name => (descriptors.insert file.name file).contains name = false) =
      (known.filter fun name => descriptors.contains name = false).erase file.name := by
    ext name
    rw [Finset.mem_filter, Finset.mem_erase, Finset.mem_filter, ← Bool.not_eq_true, contains_insert, not_or,
      Bool.not_eq_true]
    exact and_left_comm
  have hmem : file.name ∈ known.filter fun name => descriptors.contains name = false :=
    Finset.mem_filter.mpr ⟨hknown, h⟩
  rw [pending, pending, hfilter, Finset.card_erase_of_mem hmem]
  exact Nat.sub_add_cancel (Finset.card_pos.mpr ⟨_, hmem⟩)

structure Batch (known : Finset String) (files : List FileDescriptorProto) (before after : Discovery) : Prop where
  queue : ∃ added, after.1 = before.1 ++ added ∧ added ⊆ files
  contains : ∀ name, after.2.contains name = true ↔
    before.2.contains name = true ∨ ∃ file ∈ files, file.name = name
  queued : ∀ name, after.2.contains name = true →
    before.2.contains name = true ∨ ∃ file ∈ after.1, file.name = name
  found : ∀ name file, after.2.get? name = some file →
    before.2.get? name = some file ∨ file ∈ files ∧ file.name = name
  measure : after.1.length + pending known after.2 = before.1.length + pending known before.2

theorem discover_batch {file : FileDescriptorProto} (hknown : file.name ∈ known)
    (state : Discovery) : Batch known [file] state (discover state file) := by
  rw [discover]
  by_cases h : state.2.contains file.name = true
  · rw [if_pos h]
    refine ⟨⟨[], (List.append_nil _).symm, List.nil_subset _⟩, fun name => ?_, fun name hname => .inl hname,
      fun name file hget => .inl hget, rfl⟩
    constructor
    · exact .inl
    · rintro (hname | ⟨other, hother, rfl⟩)
      · exact hname
      · rw [List.mem_singleton.mp hother]
        exact h
  · rw [if_neg h]
    refine ⟨⟨[file], rfl, List.Subset.refl _⟩, fun name => ?_, fun name hname => ?_, fun name other hget => ?_, ?_⟩
    · rw [contains_insert, or_comm]
      refine or_congr_right ⟨fun hname => ⟨file, List.mem_cons_self, hname.symm⟩, ?_⟩
      rintro ⟨other, hother, rfl⟩
      rw [List.mem_singleton.mp hother]
    · rcases (contains_insert _ _ _).mp hname with rfl | hname
      · exact .inr ⟨file, List.mem_append_right _ List.mem_cons_self, rfl⟩
      · exact .inl hname
    · rw [Dict.get?_insert] at hget
      by_cases hname : name = file.name
      · rw [if_pos hname] at hget
        rw [← Option.some.inj hget]
        exact .inr ⟨List.mem_cons_self, hname.symm⟩
      · rw [if_neg hname] at hget
        exact .inl hget
    · have hpending := pending_insert hknown (Bool.not_eq_true _ ▸ h)
      change (state.1 ++ [file]).length + pending known (state.2.insert file.name file) = _
      rw [List.length_append, List.length_singleton]
      omega

theorem Batch.append {files files' : List FileDescriptorProto} {first second third : Discovery}
    (h : Batch known files first second) (h' : Batch known files' second third) :
    Batch known (files ++ files') first third := by
  obtain ⟨added, hqueue, hadded⟩ := h.queue
  obtain ⟨added', hqueue', hadded'⟩ := h'.queue
  refine ⟨⟨added ++ added', by rw [hqueue', hqueue, List.append_assoc], ?_⟩, fun name => ?_, fun name hname => ?_,
    fun name file hget => ?_, h'.measure.trans h.measure⟩
  · exact List.append_subset.mpr ⟨List.subset_append_of_subset_left _ hadded, List.subset_append_of_subset_right _ hadded'⟩
  · rw [h'.contains, h.contains, or_assoc]
    simp only [List.mem_append, or_and_right, exists_or]
  · rcases h'.queued name hname with hname | hname
    · rcases h.queued name hname with hname | ⟨file, hfile, hsame⟩
      · exact .inl hname
      · exact .inr ⟨file, by rw [hqueue']; exact List.mem_append_left _ hfile, hsame⟩
    · exact .inr hname
  · rcases h'.found name file hget with hget | ⟨hfile, hsame⟩
    · rcases h.found name file hget with hget | ⟨hfile, hsame⟩
      · exact .inl hget
      · exact .inr ⟨List.mem_append_left _ hfile, hsame⟩
    · exact .inr ⟨List.mem_append_right _ hfile, hsame⟩

theorem discoverAll_batch {resolve : Resolver ε} (hresolves : Resolves resolve known)
    {imports : List String} (himports : ∀ name ∈ imports, name ∈ known) (state : Discovery) :
    ∃ files after, discoverAll state (imports.map resolve) = .ok after ∧ Batch known files state after ∧
      (∀ file ∈ files, file.name ∈ imports ∧ resolve file.name = .ok file) ∧
      ∀ name ∈ imports, ∃ file ∈ files, file.name = name := by
  induction imports generalizing state with
  | nil =>
    refine ⟨[], state, rfl, ?_, List.forall_mem_nil _, List.forall_mem_nil _⟩
    exact ⟨⟨[], (List.append_nil _).symm, List.nil_subset _⟩, fun name => by simp, fun name hname => .inl hname,
      fun name file hget => .inl hget, rfl⟩
  | cons name imports ih =>
    rw [List.forall_mem_cons] at himports
    obtain ⟨file, hfile, hname⟩ := hresolves.file name himports.1
    obtain ⟨files, after, hafter, hbatch, hfiles, hall⟩ := ih himports.2 (discover state file)
    have hfirst := discover_batch (hname ▸ himports.1) state
    refine ⟨file :: files, after, ?_, hfirst.append hbatch, ?_, ?_⟩
    · rw [List.map_cons, discoverAll, List.foldlM_cons, hfile]
      exact hafter
    · refine List.forall_mem_cons.mpr ⟨⟨by rw [hname]; exact List.mem_cons_self, by rw [hname, hfile]⟩, ?_⟩
      exact fun other hother => ⟨List.mem_cons_of_mem _ (hfiles other hother).1, (hfiles other hother).2⟩
    · refine List.forall_mem_cons.mpr ⟨⟨file, List.mem_cons_self, hname⟩, fun other hother => ?_⟩
      obtain ⟨file', hfile', hsame⟩ := hall other hother
      exact ⟨file', List.mem_cons_of_mem _ hfile', hsame⟩

section

variable {resolve : Resolver ε} {known : Finset String} {start : String}

/-- Where the loop stands: what is known is reached from the start, and what it imports is known once it has left
the queue. -/
structure Progress (resolve : Resolver ε) (known : Finset String) (start : String) (state : Discovery) : Prop where
  queue : ∀ file ∈ state.1, file.name ∈ known ∧ resolve file.name = .ok file ∧
    (file.name = start ∨ TransGen (Imports resolve) start file.name)
  found : ∀ name file, state.2.get? name = some file →
    file.name = name ∧ resolve name = .ok file ∧ TransGen (Imports resolve) start name
  closed : ∀ name, name = start ∨ state.2.contains name = true →
    (∃ file ∈ state.1, file.name = name) ∨ ∀ other, Imports resolve name other → state.2.contains other = true

variable {parent : FileDescriptorProto}

theorem Progress.initial (hstart : parent.name ∈ known)
    (hparent : resolve parent.name = .ok parent) : Progress resolve known parent.name ([parent], .empty) where
  queue file hfile := by
    rw [List.mem_singleton.mp hfile]
    exact ⟨hstart, hparent, .inl rfl⟩
  found name file hget := by
    rw [Dict.get?_empty] at hget
    cases hget
  closed name hname := by
    rcases hname with rfl | hname
    · exact .inl ⟨parent, List.mem_cons_self, rfl⟩
    · rw [Dict.contains, Dict.get?_empty] at hname
      cases hname

theorem Progress.step (hresolves : Resolves resolve known) {file : FileDescriptorProto}
    {queue : List FileDescriptorProto} {descriptors : Dict FileDescriptorProto}
    (h : Progress resolve known start (file :: queue, descriptors)) :
    ∃ after, discoverAll (queue, descriptors) (file.dependency.map resolve) = .ok after ∧
      Progress resolve known start after ∧
      after.1.length + pending known after.2 = queue.length + pending known descriptors := by
  obtain ⟨hfile, hresolve, hreached⟩ := h.queue file List.mem_cons_self
  have himports : ∀ name, Imports resolve file.name name ↔ name ∈ file.dependency := by
    intro name
    constructor
    · rintro ⟨file', hfile', hname⟩
      rw [hresolve] at hfile'
      cases hfile'
      exact hname
    · exact fun hname => ⟨file, hresolve, hname⟩
  have hknown : ∀ name ∈ file.dependency, name ∈ known := fun name hname =>
    hresolves.imports file.name hfile name ((himports name).mpr hname)
  have hnext {name : String} (hname : name ∈ file.dependency) : TransGen (Imports resolve) start name := by
    rcases hreached with hsame | hreached
    · exact .single (hsame ▸ (himports name).mpr hname)
    · exact hreached.tail ((himports name).mpr hname)
  obtain ⟨files, after, hafter, hbatch, hfiles, hall⟩ := discoverAll_batch hresolves hknown (queue, descriptors)
  obtain ⟨added, hqueue, hadded⟩ := hbatch.queue
  refine ⟨after, hafter, ⟨fun other hother => ?_, fun name other hget => ?_, fun name hname => ?_⟩, hbatch.measure⟩
  · rw [hqueue] at hother
    rcases List.mem_append.mp hother with hother | hother
    · exact h.queue other (List.mem_cons_of_mem _ hother)
    · obtain ⟨hname, hok⟩ := hfiles other (hadded hother)
      exact ⟨hknown _ hname, hok, .inr (hnext hname)⟩
  · rcases hbatch.found name other hget with hget | ⟨hother, rfl⟩
    · exact h.found name other hget
    · obtain ⟨hname, hok⟩ := hfiles other hother
      exact ⟨rfl, hok, hnext hname⟩
  · have hold : name = start ∨ descriptors.contains name = true →
        (∃ file ∈ after.1, file.name = name) ∨ ∀ other, Imports resolve name other → after.2.contains other = true := by
      intro hname
      rcases h.closed name hname with ⟨other, hother, rfl⟩ | hclosed
      · rcases List.mem_cons.mp hother with rfl | hother
        · refine .inr fun name hname => (hbatch.contains name).mpr (.inr ?_)
          exact hall name ((himports name).mp hname)
        · exact .inl ⟨other, by rw [hqueue]; exact List.mem_append_left _ hother, rfl⟩
      · exact .inr fun other hother => (hbatch.contains other).mpr (.inl (hclosed other hother))
    rcases hname with hname | hname
    · exact hold (.inl hname)
    · rcases hbatch.queued name hname with hname | hqueued
      · exact hold (.inr hname)
      · exact .inl hqueued

theorem resolveLoop_ends (hresolves : Resolves resolve known) {state : Discovery} {fuel : ℕ}
    (h : Progress resolve known start state) (hfuel : state.1.length + pending known state.2 ≤ fuel) :
    ∃ descriptors, resolveLoop resolve fuel state = some (.ok descriptors) ∧
      Progress resolve known start ([], descriptors) := by
  induction fuel generalizing state with
  | zero =>
    obtain ⟨queue, descriptors⟩ := state
    have hqueue : queue = [] := List.length_eq_zero_iff.mp (by simp only at hfuel; omega)
    rw [hqueue] at h ⊢
    exact ⟨descriptors, rfl, h⟩
  | succ fuel ih =>
    obtain ⟨queue, descriptors⟩ := state
    cases queue with
    | nil => exact ⟨descriptors, rfl, h⟩
    | cons file queue =>
      obtain ⟨after, hafter, hprogress, hmeasure⟩ := h.step hresolves
      simp only [List.length_cons] at hfuel
      obtain ⟨result, hresult, hdone⟩ := ih hprogress (by omega)
      refine ⟨result, ?_, hdone⟩
      rw [resolveLoop, hafter]
      exact hresult

variable {descriptors : Dict FileDescriptorProto}

theorem Progress.contains_iff (h : Progress resolve known start ([], descriptors)) (name : String) :
    descriptors.contains name = true ↔ TransGen (Imports resolve) start name := by
  have hclosed : ∀ name, name = start ∨ descriptors.contains name = true →
      ∀ other, Imports resolve name other → descriptors.contains other = true := by
    intro name hname
    rcases h.closed name hname with ⟨file, hfile, _⟩ | hclosed
    · cases hfile
    · exact hclosed
  constructor
  · intro hname
    obtain ⟨file, hfile⟩ := Option.isSome_iff_exists.mp hname
    exact (h.found name file hfile).2.2
  · intro hreach
    induction hreach with
    | single hstep => exact hclosed start (.inl rfl) _ hstep
    | tail _ hstep ih => exact hclosed _ (.inr ih) _ hstep

theorem Progress.mem_values_iff (h : Progress resolve known start ([], descriptors)) (file : FileDescriptorProto) :
    file ∈ descriptors.values ↔ resolve file.name = .ok file ∧ TransGen (Imports resolve) start file.name := by
  rw [Dict.mem_values_iff]
  constructor
  · rintro ⟨name, hget⟩
    obtain ⟨rfl, hok, hreach⟩ := h.found name file hget
    exact ⟨hok, hreach⟩
  · rintro ⟨hok, hreach⟩
    obtain ⟨file', hfile'⟩ := Option.isSome_iff_exists.mp ((h.contains_iff file.name).mpr hreach)
    have hsame := (h.found _ _ hfile').2.1
    rw [hok] at hsame
    cases hsame
    exact ⟨_, hfile'⟩

theorem Progress.names (h : Progress resolve known start ([], descriptors)) :
    descriptors.values.map FileDescriptorProto.name = descriptors.keys := by
  rw [Dict.values, Dict.keys, List.map_map]
  refine List.map_congr_left fun entry hentry => ?_
  exact (h.found entry.1 entry.2 ((Dict.get?_eq_some_iff _ _ _).mpr hentry)).1

theorem resolveLoop_add {state : Discovery} {fuel : ℕ} {result : Except ε (Dict FileDescriptorProto)}
    (h : resolveLoop resolve fuel state = some result) (more : ℕ) :
    resolveLoop resolve (fuel + more) state = some result := by
  induction fuel generalizing state with
  | zero =>
    obtain ⟨queue, descriptors⟩ := state
    cases queue with
    | nil =>
      rw [resolveLoop] at h ⊢
      exact h
    | cons file queue => cases h
  | succ fuel ih =>
    obtain ⟨queue, descriptors⟩ := state
    cases queue with
    | nil =>
      rw [resolveLoop] at h ⊢
      exact h
    | cons file queue =>
      rw [Nat.add_right_comm, resolveLoop]
      rw [resolveLoop] at h
      cases hbatch : discoverAll (queue, descriptors) (file.dependency.map resolve) with
      | ok after =>
        rw [hbatch] at h
        exact ih h
      | error error =>
        rw [hbatch] at h
        exact h

theorem pending_empty_le (known : Finset String) : pending known .empty ≤ known.card :=
  Finset.card_filter_le known _

theorem Progress.mem_append_iff
    (h : Progress resolve known parent.name ([], descriptors)) (hparent : resolve parent.name = .ok parent)
    (file : FileDescriptorProto) : file ∈ descriptors.values ++ [parent] ↔
      resolve file.name = .ok file ∧ ReflTransGen (Imports resolve) parent.name file.name := by
  rw [List.mem_append, List.mem_singleton, h.mem_values_iff, reflTransGen_iff_eq_or_transGen]
  constructor
  · rintro (⟨hok, hreach⟩ | rfl)
    · exact ⟨hok, .inr hreach⟩
    · exact ⟨hparent, .inl rfl⟩
  · rintro ⟨hok, hsame | hreach⟩
    · rw [hsame, hparent] at hok
      exact .inr (Except.ok.inj hok).symm
    · exact .inl ⟨hok, hreach⟩

theorem Progress.nodup_iff (h : Progress resolve known parent.name ([], descriptors)) :
    ((descriptors.values ++ [parent]).map FileDescriptorProto.name).Nodup ↔
      ¬ TransGen (Imports resolve) parent.name parent.name := by
  rw [List.map_append, h.names, List.map_singleton, ← List.concat_eq_append, List.nodup_concat, ← h.contains_iff,
    Dict.contains_iff]
  exact and_iff_left descriptors.nodup

/-- The files come once each, in whatever order the map gives them, unless the first one is imported again. -/
theorem resolveDependencies_once_iff (hresolves : Resolves resolve known) {parentProto : FileDescriptorProto}
    (hknown : parentProto.name ∈ known) (hparent : resolve parentProto.name = .ok parentProto) :
    ∃ descriptors : Dict FileDescriptorProto,
      (∀ fuel > known.card, resolveDependencies resolve fuel parentProto =
        some (.ok (descriptors.values ++ [parentProto]))) ∧
      ∀ values, values.Perm descriptors.values →
        (Once resolve parentProto.name (values ++ [parentProto]) ↔
          ¬ TransGen (Imports resolve) parentProto.name parentProto.name) := by
  have hpending := pending_empty_le known
  have hmeasure : [parentProto].length + pending known .empty ≤ known.card + 1 := by
    rw [List.length_singleton]
    omega
  obtain ⟨descriptors, hresult, hdone⟩ := resolveLoop_ends hresolves (.initial hknown hparent) hmeasure
  refine ⟨descriptors, fun fuel hfuel => ?_, fun values hvalues => ?_⟩
  · obtain ⟨more, rfl⟩ := Nat.exists_eq_add_of_le (show known.card + 1 ≤ fuel from hfuel)
    rw [resolveDependencies, resolveLoop_add hresult more]
    rfl
  · have hperm : (values ++ [parentProto]).Perm (descriptors.values ++ [parentProto]) := hvalues.append_right _
    rw [← hdone.nodup_iff, ← (hperm.map FileDescriptorProto.name).nodup_iff]
    exact ⟨fun h => h.distinct, fun h => ⟨fun file => (hperm.mem_iff).trans (hdone.mem_append_iff hparent file), h⟩⟩

end

def readOf (files : List FileDescriptorProto) : Resolver Unit := fun name =>
  match files.find? fun file => file.name == name with
  | some file => .ok file
  | none => .error ()

def newsFiles : List FileDescriptorProto :=
  [⟨"news.proto", ["dto.proto"]⟩, ⟨"dto.proto", []⟩]

theorem resolves_readOf (files : List FileDescriptorProto) (known : Finset String)
    (hfound : ∀ name ∈ known, ∃ file ∈ files, file.name = name)
    (hclosed : ∀ file ∈ files, ∀ other ∈ file.dependency, other ∈ known) : Resolves (readOf files) known := by
  have hread : ∀ name ∈ known, ∃ file ∈ files, readOf files name = .ok file ∧ file.name = name := by
    intro name hname
    cases hfind : files.find? fun file => file.name == name with
    | some file =>
      have hsame := List.find?_some hfind
      exact ⟨file, List.mem_of_find?_eq_some hfind, by rw [readOf, hfind], eq_of_beq hsame⟩
    | none =>
      obtain ⟨file, hfile, hsame⟩ := hfound name hname
      have hne := List.find?_eq_none.mp hfind file hfile
      rw [hsame, beq_self_eq_true] at hne
      exact absurd rfl hne
  constructor
  · intro name hname
    obtain ⟨file, _, hok, hsame⟩ := hread name hname
    exact ⟨file, hok, hsame⟩
  · rintro name hname other ⟨file, hok, hother⟩
    obtain ⟨file', hfile, hok', _⟩ := hread name hname
    rw [hok] at hok'
    cases hok'
    exact hclosed file hfile other hother

theorem resolveDependencies_once_news : ∃ descriptors : Dict FileDescriptorProto,
    (∀ fuel > 2, resolveDependencies (readOf newsFiles) fuel ⟨"news.proto", ["dto.proto"]⟩ =
      some (.ok (descriptors.values ++ [⟨"news.proto", ["dto.proto"]⟩]))) ∧
    ∀ values, values.Perm descriptors.values →
      (Once (readOf newsFiles) "news.proto" (values ++ [⟨"news.proto", ["dto.proto"]⟩]) ↔
        ¬ TransGen (Imports (readOf newsFiles)) "news.proto" "news.proto") :=
  resolveDependencies_once_iff (resolves_readOf newsFiles {"news.proto", "dto.proto"} (by decide) (by decide))
    (by decide) rfl

def cyclicFiles : List FileDescriptorProto :=
  [⟨"a.proto", ["b.proto"]⟩, ⟨"b.proto", ["a.proto"]⟩]

theorem resolveDependencies_twice : Resolves (readOf cyclicFiles) {"a.proto", "b.proto"} ∧
    resolveDependencies (readOf cyclicFiles) 3 ⟨"a.proto", ["b.proto"]⟩ =
      some (.ok [⟨"b.proto", ["a.proto"]⟩, ⟨"a.proto", ["b.proto"]⟩, ⟨"a.proto", ["b.proto"]⟩]) ∧
    ¬ Once (readOf cyclicFiles) "a.proto"
      [⟨"b.proto", ["a.proto"]⟩, ⟨"a.proto", ["b.proto"]⟩, ⟨"a.proto", ["b.proto"]⟩] := by
  refine ⟨resolves_readOf cyclicFiles _ (by decide) (by decide), rfl, fun h => ?_⟩
  exact absurd h.distinct (by decide)

end Gqlforge.ProtoImports
