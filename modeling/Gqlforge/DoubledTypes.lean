import Gqlforge.SeparatedRoles
import Gqlforge.SequentialRenames

namespace Gqlforge.AmbiguousTypes

open Json Validation Config

variable {P : Payloads} {resolver : Resolver} {config : Config P}

theorem contains_extend (dict : Dict Resolution) (entries : Object Resolution) (name : String) :
    (dict.extend entries).contains name = true ↔ dict.contains name = true ∨ name ∈ entries.map Prod.fst := by
  induction entries generalizing dict with
  | nil => exact ⟨.inl, fun h => h.resolve_right List.not_mem_nil⟩
  | cons entry rest ih =>
    change ((dict.insert entry.1 entry.2).extend rest).contains name = true ↔ _
    rw [ih, Dict.contains, Dict.get?_insert, List.map_cons, List.mem_cons]
    by_cases h : name = entry.1
    · simp [h]
    · simp [h, Dict.contains]

def Resolves (resolver : Resolver) (wanted : String → Prop) (map : Dict Resolution) : Prop :=
  ∀ name resolution, map.get? name = some resolution → resolution = resolver name ∧ wanted name

theorem Resolves.insert {wanted : String → Prop} {map : Dict Resolution} (h : Resolves resolver wanted map)
    {name : String} (hname : wanted name) : Resolves resolver wanted (insertResolution map name (resolver name)) := by
  rw [insertResolution]
  split
  · exact h
  · intro other resolution hother
    rw [Dict.get?_insert] at hother
    split at hother
    next heq =>
      cases hother
      subst heq
      exact ⟨rfl, hname⟩
    next => exact h other resolution hother

theorem contains_insertResolution (map : Dict Resolution) (name other : String) (resolution : Resolution) :
    (insertResolution map name resolution).contains other = true ↔ other = name ∨ map.contains other = true := by
  rw [insertResolution]
  split
  next h =>
    constructor
    · exact .inr
    · rintro (rfl | hother)
      exacts [h, hother]
  next =>
    rw [Dict.contains, Dict.get?_insert]
    by_cases hother : other = name
    · simp [hother]
    · simp [hother, Dict.contains]

theorem resolves_args {wanted : String → Prop} {outputTypes : Finset String} (args : List (Arg P))
    (hargs : ∀ arg ∈ args, arg.typeOf.name ∈ outputTypes → wanted arg.typeOf.name) {map : Dict Resolution}
    (h : Resolves resolver wanted map) {name : String} (hc : map.contains name = true) :
    Resolves resolver wanted (args.foldl (insertArg resolver outputTypes) map) ∧
      (args.foldl (insertArg resolver outputTypes) map).contains name = true := by
  induction args generalizing map with
  | nil => exact ⟨h, hc⟩
  | cons arg rest ih =>
    have hrest : ∀ arg ∈ rest, arg.typeOf.name ∈ outputTypes → wanted arg.typeOf.name := fun arg harg =>
      hargs arg (List.mem_cons_of_mem _ harg)
    rw [List.foldl_cons, insertArg]
    split
    next hout =>
      exact ih hrest (h.insert (hargs arg List.mem_cons_self hout.1))
        ((contains_insertResolution _ _ _ _).mpr (.inr hc))
    next => exact ih hrest h hc

theorem resolveAll (wanted : String → Prop) {outputTypes : Finset String} (names : List String)
    (hunique : ∀ name ∈ names, (resolver name).isUnique = true)
    (hwanted : ∀ name ∈ names, ∀ type, config.types.get? name = some type → wanted name ∧
      ∀ arg ∈ argsOf type, arg.typeOf.name ∈ outputTypes → wanted arg.typeOf.name) :
    ∃ maps, Valid.fromIter names (resolve resolver config outputTypes) = .ok maps ∧
      (∀ map ∈ maps, Resolves resolver wanted map) ∧
      ∀ name ∈ names, config.types.contains name = true → ∃ map ∈ maps, map.contains name = true := by
  induction names with
  | nil => exact ⟨[], rfl, fun _ h => absurd h List.not_mem_nil, fun _ h => absurd h List.not_mem_nil⟩
  | cons name rest ih =>
    obtain ⟨maps, hmaps, hresolves, hcontains⟩ := ih (fun name h => hunique name (List.mem_cons_of_mem _ h))
      fun name h => hwanted name (List.mem_cons_of_mem _ h)
    have hone : ∃ map, resolve resolver config outputTypes name = .ok map ∧ Resolves resolver wanted map ∧
        (config.types.contains name = true → map.contains name = true) := by
      rw [resolve, if_pos (hunique name List.mem_cons_self), Dict.contains]
      cases htype : config.types.get? name with
      | none => exact ⟨Dict.empty, rfl, fun _ _ h => (Option.some_ne_none _ h.symm).elim, fun h => by cases h⟩
      | some type =>
        obtain ⟨hname, hargs⟩ := hwanted name List.mem_cons_self type htype
        have hempty : Resolves resolver wanted Dict.empty := fun _ _ h => (Option.some_ne_none _ h.symm).elim
        obtain ⟨h, hc⟩ := resolves_args (argsOf type) hargs (hempty.insert hname)
          ((contains_insertResolution _ _ _ _).mpr (.inl rfl))
        exact ⟨_, rfl, h, fun _ => hc⟩
    obtain ⟨map, hmap, hmapped, hc⟩ := hone
    refine ⟨map :: maps, (Valid.fromIter_cons_eq_ok _ _ _ _).mpr ⟨map, maps, rfl, hmap, hmaps⟩,
      List.forall_mem_cons.mpr ⟨hmapped, hresolves⟩, fun other hother htype => ?_⟩
    rcases List.mem_cons.mp hother with rfl | hother
    · exact ⟨map, List.mem_cons_self, hc htype⟩
    · obtain ⟨found, hfound, h⟩ := hcontains other hother htype
      exact ⟨found, List.mem_cons_of_mem _ hfound, h⟩

theorem resolves_ofEntries {wanted : String → Prop} {maps : List (Dict Resolution)}
    (h : ∀ map ∈ maps, Resolves resolver wanted map) :
    Resolves resolver wanted (Dict.ofEntries (maps.flatMap fun map => map.entries)) := by
  intro name resolution hname
  have hmem := Dict.mem_ofEntries _ _ ((Dict.get?_eq_some_iff _ _ _).mp hname)
  obtain ⟨map, hmap, hentry⟩ := List.mem_flatMap.mp hmem
  exact h map hmap name resolution ((map.get?_eq_some_iff _ _).mpr hentry)

theorem contains_ofEntries {maps : List (Dict Resolution)} {map : Dict Resolution} (hmap : map ∈ maps) {name : String}
    (h : map.contains name = true) : (Dict.ofEntries (maps.flatMap fun map => map.entries)).contains name = true := by
  refine (contains_extend _ _ _).mpr (.inr ?_)
  obtain ⟨entry, hentry, hname⟩ := List.mem_map.mp ((map.contains_iff name).mp h)
  exact List.mem_map.mpr ⟨entry, List.mem_flatMap.mpr ⟨map, hmap, hentry⟩, hname⟩

/-- The names that are given to the doubled types are no others' and differ from each other. -/
structure Fresh (resolver : Resolver) (names : List String) (taken : String → Prop) : Prop where
  own : ∀ name ∈ names, ∀ side, taken ((resolver name).on side) → (resolver name).on side = name
  apart : ∀ name ∈ names, ∀ other ∈ names, ∀ side side', (resolver name).on side = (resolver other).on side' →
    name = other
  unique : ∀ name ∈ names, (resolver name).isUnique = true

def Doubling.roles (state : Doubling P) : Side → Finset String
  | .input => state.inputTypes
  | .output => state.outputTypes

def Doubling.taken (state : Doubling P) (name : String) : Prop :=
  state.types.contains name = true ∨ ∃ side, name ∈ state.roles side

structure Doubled (resolver : Resolver) (start : Doubling P) (done : List String) (state : Doubling P) : Prop where
  given : ∀ name ∈ done, ∀ side, state.types.get? ((resolver name).on side) = start.types.get? name
  rest : ∀ name, (∀ other ∈ done, ∀ side, name ≠ (resolver other).on side) →
    state.types.get? name = if name ∈ done then none else start.types.get? name
  roles : ∀ side name, name ∈ state.roles side ↔
    (∃ other ∈ done, name = (resolver other).on side) ∨ name ∈ start.roles side ∧ name ∉ done

theorem Doubling.get?_double (state : Doubling P) {name : String} {type : TypeDef P}
    (h : state.types.get? name = some type) (resolution : Resolution) (other : String) :
    (state.double name resolution).types.get? other =
      if other = resolution.output ∨ other = resolution.input then some type
      else if other = name then none else state.types.get? other := by
  rw [Doubling.double, h, Dict.get?_insert, Dict.get?_insert, Dict.get?_without]
  by_cases hout : other = resolution.output
  · simp [hout]
  · simp [hout]

theorem Doubling.mem_double (state : Doubling P) {name : String} {type : TypeDef P}
    (h : state.types.get? name = some type) (resolution : Resolution) (side : Side) (other : String) :
    other ∈ (state.double name resolution).roles side ↔
      other = resolution.on side ∨ other ≠ name ∧ other ∈ state.roles side := by
  rw [Doubling.double, h]
  cases side <;> simp [Doubling.roles, Resolution.on]

theorem Doubled.step {start state : Doubling P} {done : List String} (h : Doubled resolver start done state)
    {name : String} (hfresh : Fresh resolver (done ++ [name]) start.taken) (hnew : name ∉ done) {type : TypeDef P}
    (htype : start.types.get? name = some type) :
    Doubled resolver start (done ++ [name]) (state.double name (resolver name)) := by
  have hlast : name ∈ done ++ [name] := List.mem_append_right _ (List.mem_singleton_self name)
  have htaken : start.taken name := .inl (by rw [Dict.contains, htype]; rfl)
  have hother : ∀ other ∈ done, ∀ side, name ≠ (resolver other).on side := by
    intro other hmem side heq
    have hown := hfresh.own other (List.mem_append_left _ hmem) side (heq ▸ htaken)
    exact hnew ((heq.trans hown) ▸ hmem)
  have hstate : state.types.get? name = some type := by
    rw [h.rest name hother, if_neg hnew, htype]
  refine ⟨fun other hmem side => ?_, fun other hother' => ?_, fun side other => ?_⟩
  · rw [state.get?_double hstate]
    rcases List.mem_append.mp hmem with hdone | hdone
    · have hne : ∀ side', (resolver other).on side ≠ (resolver name).on side' := fun side' heq =>
        hnew (hfresh.apart other hmem name hlast side side' heq ▸ hdone)
      have hne' : ¬ ((resolver other).on side = (resolver name).output ∨
          (resolver other).on side = (resolver name).input) := fun hor => hor.elim (hne .output) (hne .input)
      rw [if_neg hne', if_neg (Ne.symm (hother other hdone side))]
      exact h.given other hdone side
    · rw [List.mem_singleton.mp hdone, htype]
      cases side <;> simp [Resolution.on]
  · have hne (side : Side) := hother' name hlast side
    rw [state.get?_double hstate, if_neg fun hor => hor.elim (hne .output) (hne .input),
      h.rest other fun found hfound => hother' found (List.mem_append_left _ hfound)]
    by_cases hsame : other = name
    · simp [hsame]
    · simp [hsame]
  · rw [state.mem_double hstate, h.roles]
    constructor
    · rintro (rfl | ⟨hne, ⟨found, hfound, rfl⟩ | ⟨hstart, hdone⟩⟩)
      · exact .inl ⟨name, hlast, rfl⟩
      · exact .inl ⟨found, List.mem_append_left _ hfound, rfl⟩
      · exact .inr ⟨hstart, by simpa [hne] using hdone⟩
    · rintro (⟨found, hfound, rfl⟩ | ⟨hstart, hdone⟩)
      · rcases List.mem_append.mp hfound with hfound | hfound
        · exact .inr ⟨Ne.symm (hother found hfound side), .inl ⟨found, hfound, rfl⟩⟩
        · exact .inl (by rw [List.mem_singleton.mp hfound])
      · rw [List.mem_append, not_or, List.mem_singleton] at hdone
        exact .inr ⟨hdone.2, .inr ⟨hstart, hdone.1⟩⟩

theorem doubleAll_concat (resolutions : Dict Resolution) (start : Doubling P) (names : List String) (name : String) :
    doubleAll resolutions (names ++ [name]) start = match resolutions.get? name with
      | some resolution => (doubleAll resolutions names start).double name resolution
      | none => doubleAll resolutions names start :=
  List.foldl_append

theorem doubleAll_spec {resolutions : Dict Resolution} (start : Doubling P) (names : List String)
    (hfresh : Fresh resolver names start.taken) (hnodup : names.Nodup)
    (htypes : ∀ name ∈ names, start.types.contains name = true)
    (hresolved : ∀ name ∈ names, resolutions.get? name = some (resolver name)) :
    Doubled resolver start names (doubleAll resolutions names start) := by
  induction names using List.reverseRecOn with
  | nil =>
    refine ⟨fun _ h => absurd h List.not_mem_nil, fun name _ => ?_, fun side name => ?_⟩
    · rw [if_neg List.not_mem_nil]
      rfl
    · simp [doubleAll]
  | append_singleton done name ih =>
    have hlast : name ∈ done ++ [name] := List.mem_append_right _ (List.mem_singleton_self name)
    have hdone : ∀ other ∈ done, other ∈ done ++ [name] := fun other => List.mem_append_left _
    have hprefix : Fresh resolver done start.taken :=
      ⟨fun other h => hfresh.own other (hdone other h),
        fun other h found hf => hfresh.apart other (hdone other h) found (hdone found hf),
        fun other h => hfresh.unique other (hdone other h)⟩
    obtain ⟨type, htype⟩ := Option.isSome_iff_exists.mp (htypes name hlast)
    have hnew : name ∉ done := fun h => (List.nodup_append.mp hnodup).2.2 name h name (List.mem_singleton_self _) rfl
    have hstate := ih hprefix (List.nodup_append.mp hnodup).1 (fun other h => htypes other (hdone other h))
      fun other h => hresolved other (hdone other h)
    have hstep := hstate.step hfresh hnew htype
    rw [doubleAll_concat, hresolved name hlast]
    exact hstep

end Gqlforge.AmbiguousTypes
