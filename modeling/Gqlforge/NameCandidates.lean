import Gqlforge.SortedMaps
import Gqlforge.TypeRenames

namespace Gqlforge

namespace SortedMap

variable {K V : Type} [LinearOrder K]

def get? (map : SortedMap K V) (key : K) : Option V := map.entries.lookup key

theorem nodup_keys (map : SortedMap K V) : (map.entries.map Prod.fst).Nodup := by
  rw [List.nodup_iff_pairwise_ne, List.pairwise_map]
  exact map.sorted.imp fun hlt => hlt.ne

theorem mem_insert {map : SortedMap K V} {key : K} {value : V} {entry : K × V}
    (h : entry ∈ (map.insert key value).entries) : entry = (key, value) ∨ entry ∈ map.entries :=
  mem_insertEntry h

end SortedMap

namespace TypeRenames

open Validation Config

variable {P : Payloads}

structure Casing where
  pascal : String → String
  singular : String → String
  lowercase : String → String

structure CandidateStats where
  frequency : ℕ
  priority : ℕ

abbrev Candidates := SortedMap String (SortedMap String CandidateStats)

def generatedPrefix : String := "GEN__"

variable (casing : Casing) (config : Config P)

def isRootOperationType (typeName : String) : Bool :=
  ([config.schema.query, config.schema.mutation, config.schema.subscription].filterMap id).any fun rootName =>
    casing.lowercase rootName == casing.lowercase typeName

def isIgnored (fieldName : String) (field : Config.Field P) : Bool :=
  config.isScalar field.typeOf.name || generatedPrefix.toList.isPrefixOf fieldName.toList

def addCandidate (typeName : String) (candidates : Candidates) (entry : String × Config.Field P) : Candidates :=
  let (fieldName, field) := entry
  if isIgnored config fieldName field then candidates
  else
    let innerMap := (candidates.get? field.typeOf.name).getD .empty
    let candidate := casing.singular fieldName
    let stats := match innerMap.get? candidate with
      | some stats => { stats with frequency := stats.frequency + 1 }
      | none => { frequency := 1, priority := if isRootOperationType casing config typeName then 0 else 1 }
    candidates.insert field.typeOf.name (innerMap.insert candidate stats)

def sortedEntries {V : Type} (dict : Dict V) : List (String × V) :=
  (SortedMap.ofPairs dict.entries).entries

def generate : Candidates :=
  (sortedEntries config.types).foldl
    (fun candidates type =>
      (sortedEntries type.2.fields).foldl (addCandidate casing config type.1) candidates) .empty

structure Converged where
  finalized : SortedMap String String
  names : List String

def candidatesToConsider (names : List String) (candidates : SortedMap String CandidateStats) :
    List (String × CandidateStats) :=
  candidates.entries.filter fun candidate =>
    !names.contains (casing.pascal candidate.1) && !config.types.contains (casing.pascal candidate.1)

def outranks (candidate other : String × CandidateStats) : Bool :=
  other.2.frequency < candidate.2.frequency ||
    (other.2.frequency == candidate.2.frequency && (other.2.priority < candidate.2.priority ||
      (other.2.priority == candidate.2.priority && other.1 ≤ candidate.1)))

def bestCandidate : List (String × CandidateStats) → Option (String × CandidateStats)
  | [] => none
  | candidate :: rest =>
    some (rest.foldl (fun best other => if outranks other best then other else best) candidate)

def convergeType (converged : Converged) (entry : String × SortedMap String CandidateStats) : Converged :=
  match bestCandidate (candidatesToConsider casing config converged.names entry.2) with
  | some (candidate, _) =>
    { finalized := converged.finalized.insert entry.1 (casing.pascal candidate)
      names := casing.pascal candidate :: converged.names }
  | none => converged

def converge (candidates : Candidates) : SortedMap String String :=
  (candidates.entries.foldl (convergeType casing config) ⟨.empty, []⟩).finalized

def improvedNames : Dict String :=
  let finalized := converge casing config (generate casing config)
  ⟨finalized.entries, finalized.nodup_keys⟩

def improveTypeNames : Valid (Config P) String :=
  transform (improvedNames casing config) config

end TypeRenames

end Gqlforge
