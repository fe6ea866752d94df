import Gqlforge.SchemaUsage
import Gqlforge.Validation

namespace Gqlforge.SchemaMerge

open Config Schema Validation SchemaUsage

def optionMergeRight {α : Type} (merge : α → α → α) : Option α → Option α → Option α
  | some this, some that => some (merge this that)
  | none, that => that
  | this, none => this

def docMergeRight : Option String → Option String → Option String :=
  optionMergeRight fun _ other => other

def Distinct.mergeRight {α : Type} [DecidableEq α] (set other : Distinct α) : Distinct α where
  items := set.items ++ other.items.filter (· ∉ set.items)
  nodup := by
    refine List.nodup_append.mpr ⟨set.nodup, other.nodup.filter _, fun a ha b hb hab => ?_⟩
    subst hab
    simp [ha] at hb

theorem Distinct.mem_mergeRight {α : Type} [DecidableEq α] (set other : Distinct α) (a : α) :
    a ∈ (Distinct.mergeRight set other).items ↔ a ∈ set.items ∨ a ∈ other.items := by
  simp only [Distinct.mergeRight, List.mem_append, List.mem_filter, decide_eq_true_eq]
  tauto

def Distinct.retain {α : Type} (set : Distinct α) (keep : α → Bool) : Distinct α :=
  ⟨set.items.filter keep, set.nodup.filter _⟩

structure Merging (P : Payloads) where
  modify : P.Modify → P.Modify → P.Modify
  omission : P.Omit → P.Omit → P.Omit
  cache : P.Cache → P.Cache → P.Cache
  protectedBy : P.Protected → P.Protected → P.Protected
  discriminate : P.Discriminate → P.Discriminate → P.Discriminate
  resolvers : List P.Resolver → List P.Resolver → List P.Resolver
  upstream : P.Upstream → P.Upstream → P.Upstream

def mergeType (nonNullMerge : Bool → Bool → Bool) : WrappingType → WrappingType → Valid WrappingType String
  | .named name nonNull, .named otherName otherNonNull =>
    if name ≠ otherName then
      Valid.fail ("Type mismatch: expected `" ++ name ++ "`, got `" ++ otherName ++ "`")
    else Valid.succeed (.named name (nonNullMerge nonNull otherNonNull))
  | .list ofType nonNull, .list otherOfType otherNonNull =>
    (mergeType nonNullMerge ofType otherOfType).mapOk fun ofType =>
      .list ofType (nonNullMerge nonNull otherNonNull)
  | _, _ => Valid.fail "Type mismatch: expected list, got singular value"

def shrinkType : WrappingType → WrappingType → Valid WrappingType String :=
  mergeType fun nonNull otherNonNull => nonNull || otherNonNull

def expandType : WrappingType → WrappingType → Valid WrappingType String :=
  mergeType fun nonNull otherNonNull => nonNull && otherNonNull

section Collections

variable {E : Type} (typeOf : E → WrappingType)

def shrinkEntry (shrink : E → E → Valid E String) (self : Dict E) (entry : String × E) :
    Valid (Option (String × E)) String :=
  Valid.trace
    (match self.get? entry.1 with
      | some field => (shrink field entry.2).mapOk fun merged => some (entry.1, merged)
      | none =>
        if (typeOf entry.2).isNullable then Valid.succeed none
        else Valid.fail
          "Input arg is marked as non_null on the right side, but is not present on the left side")
    entry.1

def checkAbsent (entry : String × E) : Valid Unit String :=
  if (typeOf entry.2).isNullable then Valid.succeed ()
  else Valid.trace
    (Valid.fail "Input arg is marked as non_null on the left side, but is not present on the right side") entry.1

def shrinkDict (shrink : E → E → Valid E String) (self other : Dict E) : Valid (Dict E) String :=
  ((Valid.fromIter other.entries (shrinkEntry typeOf shrink self)).zip
    (Valid.fromIter (self.without other.keys).entries (checkAbsent typeOf))).mapOk fun (mergedFields, _) =>
      Dict.ofEntries (mergedFields.filterMap id)

def mergeEntry (merge : String → E → E → Valid E String) (self : Dict E) (entry : String × E) :
    Valid (String × E) String :=
  Valid.trace
    ((match self.get? entry.1 with
      | some field => merge entry.1 field entry.2
      | none => Valid.succeed entry.2).mapOk fun merged => (entry.1, merged))
    entry.1

def expandEntry (expand : E → E → Valid E String) : Dict E → String × E → Valid (String × E) String :=
  mergeEntry fun _ => expand

def expandDict (expand : E → E → Valid E String) (self other : Dict E) : Valid (Dict E) String :=
  (Valid.fromIter other.entries (expandEntry expand self)).mapOk fun mergedFields =>
    (Dict.ofEntries mergedFields).extend (self.without other.keys).entries

end Collections

variable {P : Payloads} (R : Merging P)

def shrinkArg (self other : Arg P) : Valid (Arg P) String :=
  (shrinkType self.typeOf other.typeOf).mapOk fun typeOf =>
    { typeOf := typeOf
      doc := docMergeRight self.doc other.doc
      modify := optionMergeRight R.modify self.modify other.modify
      defaultValue := self.defaultValue.or other.defaultValue }

def mergeField (mergeTypes : WrappingType → WrappingType → Valid WrappingType String) (self other : Config.Field P) :
    Valid (Config.Field P) String :=
  ((mergeTypes self.typeOf other.typeOf).zip
    (shrinkDict Arg.typeOf (shrinkArg R) self.args other.args)).mapOk fun (typeOf, args) =>
    { typeOf := typeOf
      args := args
      doc := docMergeRight self.doc other.doc
      modify := optionMergeRight R.modify self.modify other.modify
      omission := optionMergeRight R.omission self.omission other.omission
      cache := optionMergeRight R.cache self.cache other.cache
      defaultValue := self.defaultValue.or other.defaultValue
      protectedBy := optionMergeRight R.protectedBy self.protectedBy other.protectedBy
      discriminate := optionMergeRight R.discriminate self.discriminate other.discriminate
      resolvers := R.resolvers self.resolvers other.resolvers
      directives := self.directives ++ other.directives }

def shrinkField : Config.Field P → Config.Field P → Valid (Config.Field P) String :=
  mergeField R shrinkType

def expandField : Config.Field P → Config.Field P → Valid (Config.Field P) String :=
  mergeField R expandType

def withFields (self other : TypeDef P) (fields : Dict (Config.Field P)) : TypeDef P where
  fields := fields
  addedFields := self.addedFields ++ other.addedFields
  doc := docMergeRight self.doc other.doc
  implements := Distinct.mergeRight self.implements other.implements
  cache := optionMergeRight R.cache self.cache other.cache
  protectedBy := optionMergeRight R.protectedBy self.protectedBy other.protectedBy
  resolvers := R.resolvers self.resolvers other.resolvers
  directives := self.directives ++ other.directives

def shrinkTypeDef (self other : TypeDef P) : Valid (TypeDef P) String :=
  (shrinkDict Config.Field.typeOf (shrinkField R) self.fields other.fields).mapOk (withFields R self other)

def expandTypeDef (self other : TypeDef P) : Valid (TypeDef P) String :=
  (expandDict (expandField R) self.fields other.fields).mapOk (withFields R self other)

def shrinkEnum (self other : Enum) : Enum where
  variants := Distinct.retain self.variants fun key => other.variants.items.contains key
  doc := docMergeRight self.doc other.doc

def expandEnum (self other : Enum) : Enum where
  variants := Distinct.mergeRight self.variants other.variants
  doc := docMergeRight self.doc other.doc

def mergeUnion (self other : Union) : Union where
  types := Distinct.mergeRight self.types other.types
  doc := docMergeRight self.doc other.doc

def unifySchema (self other : RootSchema) : RootSchema where
  query := self.query.or other.query
  mutation := self.mutation.or other.mutation
  subscription := self.subscription.or other.subscription

inductive Usage where
  | input
  | output
  | both
  | different
  | unknown
  deriving DecidableEq

def usage (isSelfInput isSelfOutput isOtherInput isOtherOutput : Bool) : Usage :=
  match isSelfInput, isSelfOutput, isOtherInput, isOtherOutput with
  | true, false, true, false => .input
  | false, true, false, true => .output
  | false, false, true, false | true, false, false, false => .input
  | false, false, false, true | false, true, false, false => .output
  | true, true, _, _ | _, _, true, true => .both
  | true, false, false, true | false, true, true, false => .different
  | false, false, false, false => .unknown

def isTypeOutput (cache : Cache P) (name : String) : Bool :=
  decide (name ∈ cache.outputTypes) || cache.interfacesTypesMap.contains name

def typeUsage (self other : Cache P) (name : String) : Usage :=
  usage (decide (name ∈ self.inputTypes)) (isTypeOutput self name) (decide (name ∈ other.inputTypes))
    (isTypeOutput other name)

def enumUsage (self other : Cache P) (name : String) : Usage :=
  usage (decide (name ∈ self.inputTypes)) (decide (name ∈ self.outputTypes)) (decide (name ∈ other.inputTypes))
    (decide (name ∈ other.outputTypes))

def sameEnum (self other : Enum) : Bool :=
  self.variants.items.all (other.variants.items.contains ·) &&
    other.variants.items.all (self.variants.items.contains ·) && self.doc == other.doc

def mergeTypeDef (usage : Usage) (self other : TypeDef P) : Valid (TypeDef P) String :=
  match usage with
  | .input => shrinkTypeDef R self other
  | .output => expandTypeDef R self other
  | .both => Valid.fail "Type is used both as input and output type that couldn't be merged for federation"
  | .different => Valid.fail "Type is used as input type in one subgraph and output type in another"
  | .unknown => Valid.fail "Cannot infer the usage of type and therefore merge it from the subgraph"

def mergeEnum (usage : Usage) (self other : Enum) : Valid Enum String :=
  match usage with
  | .input => Valid.succeed (shrinkEnum self other)
  | .output => Valid.succeed (expandEnum self other)
  | .both =>
    if sameEnum self other then Valid.succeed self
    else Valid.fail ("Enum is used both as input and output types and in that case " ++
      "the enum content should be equal for every subgraph")
  | .different => Valid.fail "Enum is used as input type in one subgraph and output type in another"
  | .unknown => Valid.fail "Cannot infer the usage of enum and therefore merge it from the subgraph"

def unifyType (self other : Cache P) : String × TypeDef P → Valid (String × TypeDef P) String :=
  mergeEntry (fun name => mergeTypeDef R (typeUsage self other name)) self.config.types

def unifyEnum (self other : Cache P) : String × Enum → Valid (String × Enum) String :=
  mergeEntry (fun name => mergeEnum (enumUsage self other name)) self.config.enums

def unify (self other : Cache P) : Valid (Cache P) String :=
  ((Valid.fromIter other.config.types.entries (unifyType R self other)).zip
    (Valid.fromIter other.config.enums.entries (unifyEnum self other))).mapOk fun (mergedTypes, mergedEnums) =>
    { config :=
        { self.config with
          types := (self.config.types.without other.config.types.keys).extend mergedTypes
          enums := (self.config.enums.without other.config.enums.keys).extend mergedEnums
          unions := self.config.unions.mergeRight mergeUnion other.config.unions
          schema := unifySchema self.config.schema other.config.schema
          upstream := R.upstream self.config.upstream other.config.upstream }
      inputTypes := self.inputTypes ∪ other.inputTypes
      outputTypes := self.outputTypes ∪ other.outputTypes
      interfacesTypesMap := self.interfacesTypesMap.mergeRight (· ∪ ·) other.interfacesTypesMap }

end Gqlforge.SchemaMerge
