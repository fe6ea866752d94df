import Gqlforge.BatchedRequests

namespace Gqlforge.GrpcBatches

open Json Resolvers.Http BatchedRequests
open GroupedLoads (GroupBy Response roundToF64 shortest f64Text keyText groupByKey gatherPathMatches gatherItems
  getBodyValueSingle)

inductive FloatValue where
  | finite (repr : String)
  | nan
  | infinite (negative : Bool)

inductive Value where
  | bool (value : Bool)
  | i32 (value : Int32)
  | i64 (value : Int64)
  | u32 (value : UInt32)
  | u64 (value : UInt64)
  | f32 (value : FloatValue)
  | f64 (value : FloatValue)
  | string (value : String)
  | bytes (value : List UInt8)
  | enumNumber (value : Int32)
  | message
  | list
  | map

def Value.isScalar : Value → Bool
  | .message | .list | .map => false
  | _ => true

structure RenderedRequestTemplate where
  url : String
  headers : List (String × String)
  body : String

structure DataLoaderRequest where
  template : RenderedRequestTemplate
  batchHeaders : List String

def DataLoaderRequest.hashed (request : DataLoaderRequest) : String × String × List (String × String) :=
  (request.template.url, request.template.body,
    request.batchHeaders.filterMap fun name => (request.template.headers.lookup name).map (name, ·))

structure Request where
  method : Method
  url : String
  headers : List (String × String)
  body : List UInt8

structure MessageDescriptor (Message : Type) where
  /-- A body that is parsed according to the type. -/
  toMessage : String → Except String Message
  getFieldByName : String → Option (Message → Value)

structure FieldDescriptor (Message : Type) where
  isList : Bool
  /-- The type of the messages in the field. -/
  asMessage : Option (MessageDescriptor Message)

structure ProtobufOperation (Message : Type) where
  inputType : MessageDescriptor Message
  fields : List (FieldDescriptor Message)
  encode : Message → List UInt8
  /-- The input of which one field is set to messages. -/
  encodeList : FieldDescriptor Message → List Message → List UInt8
  decodeList : FieldDescriptor Message → List UInt8 → List Message
  decode_encode : ∀ field messages, decodeList field (encodeList field messages) = messages

structure GrpcDataLoader (Message : Type) where
  operation : ProtobufOperation Message
  groupBy : Option GroupBy

def messageToBytes (encoded : List UInt8) : List UInt8 :=
  let length := min encoded.length (2 ^ 32 - 1)
  [0, .ofNat (length / 2 ^ 24), .ofNat (length / 2 ^ 16), .ofNat (length / 2 ^ 8), .ofNat length] ++ encoded

def createGrpcRequest (url : String) (headers : List (String × String)) (body : List UInt8) : Request :=
  ⟨.post, url, headers, body⟩

def insertResult : List (DataLoaderRequest × Response) → DataLoaderRequest → Response →
    List (DataLoaderRequest × Response)
  | [], key, response => [(key, response)]
  | (present, old) :: rest, key, response =>
    if present.hashed = key.hashed then (present, response) :: rest
    else (present, old) :: insertResult rest key response

def getResult (results : List (DataLoaderRequest × Response)) (key : DataLoaderRequest) : Option Response :=
  (results.find? fun result => result.1.hashed = key.hashed).map Prod.snd

section

variable {Message : Type} (floatText : String → String)

def FloatValue.display : FloatValue → String
  | .finite repr => floatText repr
  | .nan => "NaN"
  | .infinite negative => if negative then "-inf" else "inf"

def protobufValueAsStr : Value → String
  | .i32 value | .enumNumber value => toString value
  | .i64 value => toString value
  | .u32 value => toString value
  | .u64 value => toString value
  | .f32 value | .f64 value => value.display floatText
  | .string value => value
  | _ => ""

def getFieldValueAsStr (descriptor : MessageDescriptor Message) (message : Message) (fieldName : String) :
    Except String String :=
  match descriptor.getFieldByName fieldName with
  | some get => .ok (protobufValueAsStr floatText (get message))
  | none => .error "Unable to find key"

def ProtobufOperation.convertInput (operation : ProtobufOperation Message) (input : String) :
    Except String (List UInt8) := do
  let message ← operation.inputType.toMessage input
  return messageToBytes (operation.encode message)

def ProtobufOperation.convertMultipleInputs (operation : ProtobufOperation Message) (childInputs : List String)
    (id : String) : Except String (List UInt8 × List String) :=
  match operation.fields.find? FieldDescriptor.isList with
  | none => .error "Unable to find list field on type"
  | some field => match field.asMessage with
    | none => .error "Couldn't resolve message"
    | some descriptor => do
      let childMessages ← childInputs.mapM descriptor.toMessage
      let ids ← childMessages.mapM fun message => getFieldValueAsStr floatText descriptor message id
      return (messageToBytes (operation.encodeList field childMessages), ids)

namespace GrpcDataLoader

def loadDedupeOnly (loader : GrpcDataLoader Message) (execute : Request → Except String Response)
    (keys : List DataLoaderRequest) : Except String (List (DataLoaderRequest × Response)) :=
  keys.foldlM (fun results key => do
    let body ← loader.operation.convertInput key.template.body
    let response ← execute (createGrpcRequest key.template.url key.template.headers body)
    return insertResult results key response) []

def loadWithGroupBy (loader : GrpcDataLoader Message) (groupBy : GroupBy) (execute : Request → Except String Response)
    (keys : List DataLoaderRequest) : Except String (List (DataLoaderRequest × Response)) := do
  let (multipleBody, groupedKeys) ←
    loader.operation.convertMultipleInputs floatText (keys.map fun key => key.template.body) groupBy.getKey
  match keys with
  | [] => .error "index out of bounds: the len is 0 but the index is 0"
  | firstRequest :: _ => do
    let response ←
      execute (createGrpcRequest firstRequest.template.url firstRequest.template.headers multipleBody)
    let responseBody := groupByKey floatText (gatherPathMatches response.body groupBy.getPath)
    return (keys.zip groupedKeys).foldl (fun result (key, id) =>
      insertResult result key { response with body := getBodyValueSingle responseBody id }) []

def load (loader : GrpcDataLoader Message) (execute : Request → Except String Response)
    (keys : List DataLoaderRequest) : Except String (List (DataLoaderRequest × Response)) :=
  match loader.groupBy with
  | some groupBy => loader.loadWithGroupBy floatText groupBy execute keys
  | none => loader.loadDedupeOnly execute keys

end GrpcDataLoader

def FloatValue.toJson : FloatValue → ConstValue
  | .finite repr => .number (.float repr)
  | .nan => .string "NaN"
  | .infinite negative => .string (if negative then "-Infinity" else "Infinity")

structure Serializer where
  toJson : Value → ConstValue
  base64 : List UInt8 → String
  /-- The enum of one value that is written as null. -/
  nullEnum : Bool
  enumName : Int32 → Option String
  base64_eq_empty : ∀ bytes, base64 bytes = "" ↔ bytes = []
  enumName_head : ∀ number name, enumName number = some name →
    ∃ first rest, name.toList = first :: rest ∧ (first.isAlpha = true ∨ first = '_')
  toJson_bool : ∀ value, toJson (.bool value) = .boolean value
  toJson_i32 : ∀ value, toJson (.i32 value) = .number (.int value.toInt)
  toJson_i64 : ∀ value, toJson (.i64 value) = .string (toString value)
  toJson_u32 : ∀ value, toJson (.u32 value) = .number (.int value.toNat)
  toJson_u64 : ∀ value, toJson (.u64 value) = .string (toString value)
  toJson_f32 : ∀ value, toJson (.f32 value) = value.toJson
  toJson_f64 : ∀ value, toJson (.f64 value) = value.toJson
  toJson_string : ∀ value, toJson (.string value) = .string value
  toJson_bytes : ∀ bytes, toJson (.bytes bytes) = .string (base64 bytes)
  toJson_enum : ∀ number, toJson (.enumNumber number) =
    if nullEnum then .null else match enumName number with
      | some name => .string name
      | none => .number (.int number.toInt)

def SameText (serializer : Serializer) : Value → Prop
  | .bool _ => False
  | .bytes bytes => bytes = []
  | .enumNumber number => serializer.nullEnum = false ∧ serializer.enumName number = none
  | .f32 value | .f64 value => ∀ negative, value ≠ .infinite negative
  | _ => True

end

theorem roundToF64_of_lt {n : Nat} (h : n < 2 ^ 53) : roundToF64 n = n := by
  have hlog : n.log2 - 52 = 0 := by
    by_cases hzero : n = 0
    · rw [hzero]
      rfl
    · have := (Nat.log2_lt hzero).mpr h
      omega
  rw [roundToF64, hlog, Nat.pow_zero, Nat.div_one, Nat.mod_one, if_neg (by omega), Nat.mul_one]

theorem shortest_of_lt {n : Nat} (h : n < 2 ^ 52) : shortest n = n := by
  let candidate (zeros : Nat) := (n + 10 ^ zeros / 2) / 10 ^ zeros * 10 ^ zeros
  have hlt (zeros : Nat) : candidate zeros < 2 ^ 53 := by
    have hle : candidate zeros ≤ n + 10 ^ zeros / 2 := Nat.div_mul_le_self _ _
    by_cases hsmall : n + 10 ^ zeros / 2 < 10 ^ zeros
    · have hzero : (n + 10 ^ zeros / 2) / 10 ^ zeros * 10 ^ zeros = 0 := by
        rw [Nat.div_eq_of_lt hsmall, Nat.zero_mul]
      rw [show candidate zeros = 0 from hzero]
      decide
    · omega
  have hexact (zeros : Nat) :
      (if roundToF64 (candidate zeros) = n then some (candidate zeros) else none) =
        if candidate zeros = n then some n else none := by
    rw [roundToF64_of_lt (hlt zeros)]
    split
    next he => rw [he]
    next => rfl
  rw [shortest]
  cases hfind : (List.range 20).reverse.findSome? fun zeros =>
      if roundToF64 (candidate zeros) = n then some (candidate zeros) else none with
  | none =>
    rw [List.findSome?_eq_none_iff] at hfind
    have hzero := hfind 0 (by decide)
    rw [hexact, if_pos (by simp [candidate])] at hzero
    cases hzero
  | some m =>
    obtain ⟨zeros, _, hm⟩ := List.exists_of_findSome?_eq_some hfind
    rw [hexact] at hm
    split at hm
    · exact (Option.some.inj hm).symm
    · cases hm

theorem f64Text_of_lt {n : Int} (h : n.natAbs < 2 ^ 52) : f64Text n = toString n := by
  rw [f64Text, roundToF64_of_lt (by omega), shortest_of_lt h]
  cases n with
  | ofNat n => exact String.empty_append
  | negSucc n =>
    rw [if_pos (Int.negSucc_lt_zero n)]
    rfl

theorem toString_int_head (n : Int) :
    ∃ first rest, (toString n).toList = first :: rest ∧ (first.isDigit = true ∨ first = '-') := by
  have hdigits (n : Nat) : ∃ first rest, (toString n).toList = first :: rest ∧ first.isDigit = true := by
    obtain ⟨first, rest, hlist⟩ := List.exists_cons_of_ne_nil (Nat.toDigits_ne_nil (n := n) (b := 10))
    have hmem : first ∈ Nat.toDigits 10 n := by
      rw [hlist]
      exact List.mem_cons_self
    exact ⟨first, rest, Nat.toList_repr.trans hlist, Nat.isDigit_of_mem_toDigits (by decide) (by decide) hmem⟩
  cases n with
  | ofNat n =>
    obtain ⟨first, rest, htext, hdigit⟩ := hdigits n
    exact ⟨first, rest, htext, .inl hdigit⟩
  | negSucc n => exact ⟨'-', (toString (n + 1)).toList, String.toList_append, .inr rfl⟩

section

variable {floatText : String → String}

theorem keyText_i32 (value : Int32) : keyText floatText (.number (.int value.toInt)) = some (toString value) := by
  have hlower := value.le_toInt
  have hupper := value.toInt_lt
  rw [keyText, f64Text_of_lt (by omega)]
  rfl

theorem keyText_u32 (value : UInt32) : keyText floatText (.number (.int value.toNat)) = some (toString value) := by
  have hupper := value.toNat_lt
  rw [keyText, f64Text_of_lt (by omega)]
  rfl

theorem keyText_enum_iff (serializer : Serializer) (number : Int32) :
    keyText floatText (serializer.toJson (.enumNumber number)) = some (toString number) ↔
      serializer.nullEnum = false ∧ serializer.enumName number = none := by
  rw [serializer.toJson_enum]
  cases serializer.nullEnum with
  | true => simp [keyText]
  | false =>
    cases hname : serializer.enumName number with
    | none => simpa using keyText_i32 number
    | some name =>
      obtain ⟨first, rest, htext, hfirst⟩ := serializer.enumName_head number name hname
      obtain ⟨first', rest', htext', hfirst'⟩ := toString_int_head number.toInt
      have hne : name ≠ toString number := by
        rintro rfl
        obtain ⟨rfl, rfl⟩ := List.cons.inj (htext.symm.trans htext')
        rcases hfirst with halpha | rfl
        · rcases hfirst' with hdigit | rfl
          · unfold Char.isAlpha Char.isUpper Char.isLower at halpha
            unfold Char.isDigit at hdigit
            simp only [Bool.or_eq_true, Bool.and_eq_true, decide_eq_true_eq, UInt32.le_iff_toNat_le,
              Char.reduceVal, UInt32.reduceToNat] at halpha hdigit
            omega
          · exact absurd halpha (by decide)
        · exact absurd hfirst' (by decide)
      simp [keyText, hne]

theorem keyText_float_iff (value : FloatValue) :
    keyText floatText value.toJson = some (value.display floatText) ↔ ∀ negative, value ≠ .infinite negative := by
  cases value with
  | finite repr => simp [FloatValue.toJson, keyText, FloatValue.display]
  | nan => simp [FloatValue.toJson, keyText, FloatValue.display]
  | infinite negative => cases negative <;> simp [FloatValue.toJson, keyText, FloatValue.display]

theorem keyText_toJson_iff (serializer : Serializer) {value : Value} (h : value.isScalar = true) :
    keyText floatText (serializer.toJson value) = some (protobufValueAsStr floatText value) ↔
      SameText serializer value := by
  cases value with
  | bool value => simp [serializer.toJson_bool, keyText, SameText]
  | i32 value =>
    rw [serializer.toJson_i32, keyText_i32]
    simp [protobufValueAsStr, SameText]
  | i64 value => simp [serializer.toJson_i64, keyText, protobufValueAsStr, SameText]
  | u32 value =>
    rw [serializer.toJson_u32, keyText_u32]
    simp [protobufValueAsStr, SameText]
  | u64 value => simp [serializer.toJson_u64, keyText, protobufValueAsStr, SameText]
  | f32 value =>
    rw [serializer.toJson_f32]
    exact keyText_float_iff value
  | f64 value =>
    rw [serializer.toJson_f64]
    exact keyText_float_iff value
  | string value => simp [serializer.toJson_string, keyText, protobufValueAsStr, SameText]
  | bytes bytes => simp [serializer.toJson_bytes, keyText, protobufValueAsStr, SameText, serializer.base64_eq_empty]
  | enumNumber number => exact keyText_enum_iff serializer number
  | message | list | map => cases h

end

theorem getResult_insertResult (results : List (DataLoaderRequest × Response)) (key key' : DataLoaderRequest)
    (response : Response) : getResult (insertResult results key response) key' =
      if key.hashed = key'.hashed then some response else getResult results key' := by
  induction results with
  | nil => by_cases h : key.hashed = key'.hashed <;> simp [insertResult, getResult, h]
  | cons entry results ih =>
    obtain ⟨present, old⟩ := entry
    rw [insertResult]
    by_cases hpresent : present.hashed = key.hashed
    · rw [if_pos hpresent]
      by_cases h : key.hashed = key'.hashed <;> simp [getResult, hpresent, h]
    · rw [if_neg hpresent]
      by_cases h : present.hashed = key'.hashed
      · have hne : ¬key.hashed = key'.hashed := fun he => hpresent (h.trans he.symm)
        simp [getResult, h, hne]
      · simpa [getResult, h] using ih

theorem getResult_foldl {α : Type} (entries : List (DataLoaderRequest × α)) (respond : DataLoaderRequest × α → Response)
    (key : DataLoaderRequest) {response : Response}
    (hsame : ∀ entry ∈ entries, entry.1.hashed = key.hashed → respond entry = response)
    (results : List (DataLoaderRequest × Response))
    (hkey : getResult results key = some response ∨ ∃ entry ∈ entries, entry.1 = key) :
    getResult (entries.foldl (fun results entry => insertResult results entry.1 (respond entry)) results) key =
      some response := by
  induction entries generalizing results with
  | nil => exact hkey.resolve_right fun ⟨_, hmem, _⟩ => absurd hmem List.not_mem_nil
  | cons entry entries ih =>
    rw [List.foldl_cons]
    apply ih fun entry' hentry' => hsame entry' (List.mem_cons_of_mem entry hentry')
    rw [getResult_insertResult]
    by_cases he : entry.1.hashed = key.hashed
    · rw [if_pos he, hsame entry List.mem_cons_self he]
      exact .inl rfl
    · rw [if_neg he]
      refine hkey.imp id ?_
      rintro ⟨entry', hentry', hkey'⟩
      rcases List.mem_cons.mp hentry' with rfl | hentry'
      · exact absurd (congrArg DataLoaderRequest.hashed hkey') he
      · exact ⟨entry', hentry', hkey'⟩

theorem mapM_ok {α β : Type} {f : α → Except String β} {g : α → β} {xs : List α} (h : ∀ x ∈ xs, f x = .ok (g x)) :
    xs.mapM f = .ok (xs.map g) := by
  induction xs with
  | nil => rfl
  | cons x xs ih =>
    rw [List.mapM_cons, h x List.mem_cons_self, ih fun x' hx' => h x' (List.mem_cons_of_mem x hx')]
    rfl

theorem mapM_ok_inv {α β : Type} {f : α → Except String β} {xs : List α} {ys : List β} (h : xs.mapM f = .ok ys) :
    ∀ x ∈ xs, ∃ y, f x = .ok y := by
  induction xs generalizing ys with
  | nil => exact fun x hx => absurd hx List.not_mem_nil
  | cons x xs ih =>
    rw [List.mapM_cons] at h
    cases hx : f x with
    | error message =>
      rw [hx] at h
      cases h
    | ok y =>
      cases hrest : xs.mapM f with
      | error message =>
        rw [hx, hrest] at h
        cases h
      | ok rest => exact List.forall_mem_cons.mpr ⟨⟨y, hx⟩, ih hrest⟩

/-- The requests of a field, where the input of its method has a list of messages with the id. -/
structure Batching {Message : Type} (loader : GrpcDataLoader Message) (groupBy : GroupBy)
    (field : FieldDescriptor Message) (child : MessageDescriptor Message) (idOf : Message → Value) : Prop where
  groupBy_eq : loader.groupBy = some groupBy
  find_list : loader.operation.fields.find? FieldDescriptor.isList = some field
  asMessage_eq : field.asMessage = some child
  getField_eq : child.getFieldByName groupBy.getKey = some idOf

section

variable {Message : Type} {floatText : String → String} {loader : GrpcDataLoader Message} {groupBy : GroupBy}
  {field : FieldDescriptor Message} {child : MessageDescriptor Message} {idOf : Message → Value}

theorem Batching.convertMultipleInputs_eq (h : Batching loader groupBy field child idOf) (inputs : List String) :
    loader.operation.convertMultipleInputs floatText inputs groupBy.getKey = (inputs.mapM child.toMessage).map
      fun messages => (messageToBytes (loader.operation.encodeList field messages),
        messages.map fun message => protobufValueAsStr floatText (idOf message)) := by
  rw [ProtobufOperation.convertMultipleInputs, h.find_list]
  simp only
  rw [h.asMessage_eq]
  simp only
  cases inputs.mapM child.toMessage with
  | error message => rfl
  | ok messages =>
    have hids : messages.mapM (fun message => getFieldValueAsStr floatText child message groupBy.getKey) =
        .ok (messages.map fun message => protobufValueAsStr floatText (idOf message)) := by
      apply mapM_ok
      intro message _
      rw [getFieldValueAsStr, h.getField_eq]
    simp only [Except.map, bind, Except.bind, hids, pure, Except.pure]

def bodyOf (loader : GrpcDataLoader Message) (field : FieldDescriptor Message) (messages : List Message) : List UInt8 :=
  messageToBytes (loader.operation.encodeList field messages)

variable {execute : Request → Except String Response} {keys : List DataLoaderRequest}

theorem Batching.parsed_of_load (h : Batching loader groupBy field child idOf)

 {results : List (DataLoaderRequest × Response)}
    (hload : loader.load floatText execute keys = .ok results) :
    ∀ key ∈ keys, ∃ message, child.toMessage key.template.body = .ok message := by
  rw [GrpcDataLoader.load, h.groupBy_eq] at hload
  simp only [GrpcDataLoader.loadWithGroupBy, h.convertMultipleInputs_eq] at hload
  cases hmessages : (keys.map fun key => key.template.body).mapM child.toMessage with
  | error message =>
    rw [hmessages] at hload
    cases hload
  | ok messages => exact fun key hkey => mapM_ok_inv hmessages _ (List.mem_map_of_mem hkey)

theorem Batching.load_eq (h : Batching loader groupBy field child idOf)
    {first : DataLoaderRequest} {rest : List DataLoaderRequest} {parsed : DataLoaderRequest → Message}
    (hparsed : ∀ key ∈ first :: rest, child.toMessage key.template.body = .ok (parsed key)) {response : Response}
    (hexecute : execute (createGrpcRequest first.template.url first.template.headers
      (bodyOf loader field ((first :: rest).map parsed))) = .ok response) :
    ∃ results, loader.load floatText execute (first :: rest) = .ok results ∧ ∀ key ∈ first :: rest,
      ∃ answer, getResult results key = some answer ∧
        answer.body = ((select (keyText floatText) (gatherPathMatches response.body groupBy.getPath)
          (protobufValueAsStr floatText (idOf (parsed key)))).head?).getD .null := by
  let keys := first :: rest
  let idText (key : DataLoaderRequest) := protobufValueAsStr floatText (idOf (parsed key))
  let grouped := groupByKey floatText (gatherPathMatches response.body groupBy.getPath)
  let respond (entry : DataLoaderRequest × String) : Response :=
    { response with body := getBodyValueSingle grouped entry.2 }
  have hmessages : (keys.map fun key => key.template.body).mapM child.toMessage = .ok (keys.map parsed) := by
    rw [List.mapM_map]
    exact mapM_ok hparsed
  have hload : loader.load floatText execute keys = .ok ((keys.map fun key => (key, idText key)).foldl
      (fun results entry => insertResult results entry.1 (respond entry)) []) := by
    rw [GrpcDataLoader.load, h.groupBy_eq]
    simp only [GrpcDataLoader.loadWithGroupBy, h.convertMultipleInputs_eq, hmessages, Except.map, bind, Except.bind]
    rw [bodyOf] at hexecute
    simp only [keys] at hexecute ⊢
    rw [hexecute, List.map_map, ← List.map_prod_left_eq_zip]
    rfl
  refine ⟨_, hload, fun key hkey => ⟨respond (key, idText key), ?_, ?_⟩⟩
  · apply getResult_foldl
    · intro entry hentry hhashed
      obtain ⟨key', hkey', rfl⟩ := List.mem_map.mp hentry
      have hbody : key'.template.body = key.template.body := (Prod.mk.inj (Prod.mk.inj hhashed).2).1
      have hparse := hparsed key' hkey'
      rw [hbody, hparsed key hkey] at hparse
      simp only [respond, idText, Except.ok.inj hparse]
    · exact .inr ⟨(key, idText key), List.mem_map_of_mem hkey, rfl⟩
  · have hget := getKey_groupByKey floatText (gatherPathMatches response.body groupBy.getPath) (idText key)
    change ((grouped.getKey (idText key)).bind List.head?).getD .null = _
    rw [← hget]
    cases hfound : grouped.getKey (idText key) <;> simp_all [grouped]

variable {serializer : Serializer}

structure Upstream (serializer : Serializer) (idOf : Message → Value) where
  found : String → List (String × String) → Message → List (ConstValue × ConstValue)
  own : ∀ url headers message, ∀ entry ∈ found url headers message, entry.1 = serializer.toJson (idOf message)

def Answers (loader : GrpcDataLoader Message) (groupBy : GroupBy) (field : FieldDescriptor Message)
    (upstream : Upstream serializer idOf) (execute : Request → Except String Response) : Prop :=
  ∀ url headers messages, ∃ response,
    execute (createGrpcRequest url headers (bodyOf loader field messages)) = .ok response ∧
      gatherPathMatches response.body groupBy.getPath = messages.flatMap (upstream.found url headers)

def alone (upstream : Upstream serializer idOf) (key : DataLoaderRequest) (message : Message) : ConstValue :=
  ((upstream.found key.template.url key.template.headers message).head?.map Prod.snd).getD .null

section

variable (floatText loader groupBy field child) (keys : List DataLoaderRequest)

def LoadedAlike (upstream : Upstream serializer idOf) (execute : Request → Except String Response) : Prop :=
  ∀ key ∈ keys, ∀ message, child.toMessage key.template.body = .ok message →
    ∃ results answer, loader.load floatText execute keys = .ok results ∧ getResult results key = some answer ∧
      answer.body = alone upstream key message

def AlwaysAlike (serializer : Serializer) (idOf : Message → Value) : Prop :=
  ∀ (upstream : Upstream serializer idOf) (execute : Request → Except String Response),
    Answers loader groupBy field upstream execute → LoadedAlike floatText loader child keys upstream execute

/-- The bodies can be parsed, the URL and the headers are the same, the ids keep their text, and no id has two
messages. -/
structure Batchable (serializer : Serializer) (idOf : Message → Value) : Prop where
  parses : ∀ key ∈ keys, ∃ message, child.toMessage key.template.body = .ok message
  same_target : ∀ key ∈ keys, ∀ key' ∈ keys,
    key.template.url = key'.template.url ∧ key.template.headers = key'.template.headers
  same_text : ∀ key ∈ keys, ∀ message, child.toMessage key.template.body = .ok message →
    SameText serializer (idOf message)
  one_message : ∀ key ∈ keys, ∀ key' ∈ keys, ∀ message message',
    child.toMessage key.template.body = .ok message → child.toMessage key'.template.body = .ok message' →
      protobufValueAsStr floatText (idOf message) = protobufValueAsStr floatText (idOf message') → message = message'

end

theorem select_own {text : String} {found : List (ConstValue × ConstValue)} {key : ConstValue}
    (hown : ∀ entry ∈ found, entry.1 = key) (h : keyText floatText key = some text) (id : String) :
    select (keyText floatText) found id = if text = id then found.map Prod.snd else [] := by
  have htext : ∀ entry ∈ found, keyText floatText entry.1 = some text := by
    intro entry hentry
    rw [hown entry hentry, h]
  rw [select]
  split
  next he =>
    rw [List.filter_eq_self.mpr]
    intro entry hentry
    simp [htext entry hentry, he]
  next hne =>
    rw [List.filter_eq_nil_iff.mpr, List.map_nil]
    intro entry hentry
    simp [htext entry hentry, hne]

theorem loadedAlike_of_batchable (h : Batching loader groupBy field child idOf)
    (hscalar : ∀ message, (idOf message).isScalar = true)
    (hbatch : Batchable floatText child keys serializer idOf) {upstream : Upstream serializer idOf}
 (hanswers : Answers loader groupBy field upstream execute) :
    LoadedAlike floatText loader child keys upstream execute := by
  intro key hkey message hmessage
  have : Inhabited Message := ⟨message⟩
  choose! parsed hparsed using hbatch.parses
  obtain rfl : message = parsed key := Except.ok.inj (hmessage.symm.trans (hparsed key hkey))
  match keys, hkey with
  | first :: rest, hkey =>
    let keys := first :: rest
    obtain ⟨response, hexecute, hgather⟩ := hanswers first.template.url first.template.headers (keys.map parsed)
    obtain ⟨results, hload, hresults⟩ := h.load_eq hparsed hexecute
    obtain ⟨answer, hanswer, hbody⟩ := hresults key hkey
    refine ⟨results, answer, hload, hanswer, ?_⟩
    let text (message : Message) := protobufValueAsStr floatText (idOf message)
    obtain ⟨hurl, hheaders⟩ := hbatch.same_target first List.mem_cons_self key hkey
    let items := (upstream.found key.template.url key.template.headers (parsed key)).map Prod.snd
    -- what is selected for an id is what is found for the one message of it, once for each request
    have hselect : select (keyText floatText) (gatherPathMatches response.body groupBy.getPath) (text (parsed key)) =
        (keys.map (text ∘ parsed)).flatMap fun id => if id = text (parsed key) then items else [] := by
      rw [hgather, select_flatMap, List.flatMap_map, List.flatMap_map]
      refine List.flatMap_congr fun key' hkey' => ?_
      have hprinted := (@keyText_toJson_iff floatText serializer _ (hscalar (parsed key'))).mpr
        (hbatch.same_text key' hkey' _ (hparsed key' hkey'))
      rw [select_own (upstream.own _ _ _) hprinted, hurl, hheaders]
      simp only [Function.comp]
      split
      next he => rw [hbatch.one_message key' hkey' key hkey _ _ (hparsed key' hkey') (hparsed key hkey) he]
      next => rfl
    have hmem : text (parsed key) ∈ keys.map (text ∘ parsed) := List.mem_map_of_mem hkey
    rw [hbody, hselect, head_flatMap_ite hmem, List.head?_map]
    rfl

section

variable (P : String → List (String × String) → Message → Prop)
  [∀ url headers message, Decidable (P url headers message)]

def answering (groupBy : GroupBy) : Upstream serializer idOf where
  found url headers message :=
    if P url headers message then gatherItems [wrap groupBy.getPath (serializer.toJson (idOf message))] groupBy.getPath
    else []
  own url headers message entry hentry := by
    obtain ⟨fields, hgather⟩ := gather_wrap (getPath_ne_nil groupBy) (serializer.toJson (idOf message))
    split at hentry
    · rw [hgather, List.mem_singleton] at hentry
      rw [hentry]
    · exact absurd hentry List.not_mem_nil

theorem found_answering (groupBy : GroupBy) (url : String) (headers : List (String × String)) (message : Message) :
    ∃ fields, (answering P groupBy : Upstream serializer idOf).found url headers message =
      if P url headers message then [(serializer.toJson (idOf message), .object fields)] else [] := by
  obtain ⟨fields, hgather⟩ := gather_wrap (getPath_ne_nil groupBy) (serializer.toJson (idOf message))
  exact ⟨fields, by simp only [answering, hgather]⟩

def answer (loader : GrpcDataLoader Message) (groupBy : GroupBy) (field : FieldDescriptor Message)
    (serializer : Serializer) (idOf : Message → Value) (request : Request) : Except String Response :=
  .ok ⟨200, [], .list ((loader.operation.decodeList field (request.body.drop 5)).flatMap fun message =>
    if P request.url request.headers message then [wrap groupBy.getPath (serializer.toJson (idOf message))] else [])⟩

theorem answer_answers : Answers loader groupBy field (answering P groupBy : Upstream serializer idOf)
    (answer P loader groupBy field serializer idOf) := by
  intro url headers messages
  refine ⟨_, rfl, ?_⟩
  have hdrop : (createGrpcRequest url headers (bodyOf loader field messages)).body.drop 5 =
      loader.operation.encodeList field messages := rfl
  rw [hdrop, loader.operation.decode_encode, gatherPathMatches, gatherItems_flatMap]
  refine List.flatMap_congr fun message _ => ?_
  by_cases hP : P url headers message
  · simp only [answering, createGrpcRequest, hP, if_true]
  · simp only [answering, createGrpcRequest, hP, if_false, gatherItems]

theorem head_eq_null_iff {found : List ConstValue} (h : ∀ value ∈ found, ∃ fields, value = .object fields) :
    found.head?.getD .null = .null ↔ found = [] := by
  cases found with
  | nil => simp
  | cons value found =>
    obtain ⟨fields, rfl⟩ := h value List.mem_cons_self
    simp

theorem objects_of_select {url : String} {headers : List (String × String)} {messages : List Message} {id : String}
    {value : ConstValue} (h : value ∈ select (keyText floatText)
      (messages.flatMap ((answering P groupBy : Upstream serializer idOf).found url headers)) id) :
    (∃ fields, value = .object fields) ∧ ∃ message ∈ messages, P url headers message ∧
      keyText floatText (serializer.toJson (idOf message)) = some id := by
  obtain ⟨entry, hentry, rfl⟩ := List.mem_map.mp h
  obtain ⟨hentry, hid⟩ := List.mem_filter.mp hentry
  obtain ⟨message, hmessage, hentry⟩ := List.mem_flatMap.mp hentry
  obtain ⟨fields, hfound⟩ := found_answering P groupBy url headers message
  rw [hfound] at hentry
  split at hentry
  next hP =>
    obtain rfl := List.mem_singleton.mp hentry
    exact ⟨⟨fields, rfl⟩, message, hmessage, hP, of_decide_eq_true hid⟩
  next => exact absurd hentry List.not_mem_nil

theorem answered_iff (h : Batching loader groupBy field child idOf) {first : DataLoaderRequest}
    {rest : List DataLoaderRequest}
    (halike : AlwaysAlike floatText loader groupBy field child (first :: rest) serializer idOf)
    {parsed : DataLoaderRequest → Message}
    (hparsed : ∀ key ∈ first :: rest, child.toMessage key.template.body = .ok (parsed key)) {key : DataLoaderRequest}
    (hkey : key ∈ first :: rest) : P key.template.url key.template.headers (parsed key) ↔
      ∃ key' ∈ first :: rest, P first.template.url first.template.headers (parsed key') ∧
        keyText floatText (serializer.toJson (idOf (parsed key'))) =
          some (protobufValueAsStr floatText (idOf (parsed key))) := by
  obtain ⟨response, hexecute, hgather⟩ := @answer_answers _ loader groupBy field idOf serializer P _
    first.template.url first.template.headers ((first :: rest).map parsed)
  obtain ⟨results, hload, hresults⟩ := h.load_eq hparsed hexecute
  obtain ⟨result, hresult, hbody⟩ := hresults key hkey
  obtain ⟨results', result', hload', hresult', halone⟩ :=
    halike _ _ (answer_answers P) key hkey (parsed key) (hparsed key hkey)
  obtain rfl := Except.ok.inj (hload.symm.trans hload')
  obtain rfl := Option.some.inj (hresult.symm.trans hresult')
  let id := protobufValueAsStr floatText (idOf (parsed key))
  let selected := select (keyText floatText) (((first :: rest).map parsed).flatMap
    ((answering P groupBy : Upstream serializer idOf).found first.template.url first.template.headers)) id
  have hnull : alone (answering P groupBy : Upstream serializer idOf) key (parsed key) = .null ↔ selected = [] := by
    rw [← halone, hbody, hgather]
    exact head_eq_null_iff fun value hvalue => (objects_of_select P hvalue).1
  obtain ⟨fields, hfound⟩ :=
    @found_answering _ idOf serializer P _ groupBy key.template.url key.template.headers (parsed key)
  rw [alone, hfound] at hnull
  constructor
  · intro hP
    rw [if_pos hP] at hnull
    obtain ⟨value, hvalue⟩ := List.exists_mem_of_ne_nil selected fun hnil => ConstValue.noConfusion (hnull.mpr hnil)
    obtain ⟨message, hmessage, hfirst, htext⟩ := (objects_of_select P hvalue).2
    obtain ⟨key', hkey', rfl⟩ := List.mem_map.mp hmessage
    exact ⟨key', hkey', hfirst, htext⟩
  · rintro ⟨key', hkey', hfirst, htext⟩
    by_contra hP
    rw [if_neg hP] at hnull
    obtain ⟨fields', hfound'⟩ := found_answering P groupBy first.template.url first.template.headers (parsed key')
    have hentry : (serializer.toJson (idOf (parsed key')), ConstValue.object fields') ∈
        ((first :: rest).map parsed).flatMap
          ((answering P groupBy : Upstream serializer idOf).found first.template.url first.template.headers) := by
      refine List.mem_flatMap.mpr ⟨parsed key', List.mem_map_of_mem hkey', ?_⟩
      rw [hfound', if_pos hfirst]
      exact List.mem_singleton_self _
    have hmem : ConstValue.object fields' ∈ selected :=
      List.mem_map.mpr ⟨_, List.mem_filter.mpr ⟨hentry, decide_eq_true htext⟩, rfl⟩
    rw [hnull.mp rfl] at hmem
    exact List.not_mem_nil hmem

end

open Classical in
theorem batchable_of_alike (h : Batching loader groupBy field child idOf)
    (hscalar : ∀ message, (idOf message).isScalar = true)
    (halike : AlwaysAlike floatText loader groupBy field child keys serializer idOf)
    {parsable : DataLoaderRequest} (hparsable : parsable ∈ keys) {message : Message}
    (hmessage : child.toMessage parsable.template.body = .ok message) :
    Batchable floatText child keys serializer idOf := by
  have : Inhabited Message := ⟨message⟩
  have hparses : ∀ key ∈ keys, ∃ message, child.toMessage key.template.body = .ok message := by
    obtain ⟨_, _, hload, _⟩ := halike _ _ (answer_answers fun _ _ _ => False) parsable hparsable message hmessage
    exact h.parsed_of_load hload
  choose! parsed hparsed using hparses
  match keys, hparsable with
  | first :: rest, _ =>
    have htarget : ∀ key ∈ first :: rest,
        key.template.url = first.template.url ∧ key.template.headers = first.template.headers := by
      intro key hkey
      by_contra hne
      obtain ⟨_, _, hfirst, _⟩ := (answered_iff (fun url headers _ =>
        ¬(url = first.template.url ∧ headers = first.template.headers)) h halike hparsed hkey).mp hne
      exact hfirst ⟨rfl, rfl⟩
    have htext : ∀ key ∈ first :: rest, keyText floatText (serializer.toJson (idOf (parsed key))) =
        some (protobufValueAsStr floatText (idOf (parsed key))) := by
      intro key hkey
      obtain ⟨key', _, hparsed', hkey'⟩ :=
        (answered_iff (fun _ _ message => message = parsed key) h halike hparsed hkey).mp rfl
      rwa [hparsed'] at hkey'
    have hmessage_eq {key : DataLoaderRequest} (hkey : key ∈ first :: rest) {message : Message}
        (hmessage : child.toMessage key.template.body = .ok message) : parsed key = message :=
      Except.ok.inj ((hparsed key hkey).symm.trans hmessage)
    refine ⟨fun key hkey => ⟨_, hparsed key hkey⟩, ?_, ?_, ?_⟩
    · intro key hkey key' hkey'
      obtain ⟨hurl, hheaders⟩ := htarget key hkey
      obtain ⟨hurl', hheaders'⟩ := htarget key' hkey'
      exact ⟨hurl.trans hurl'.symm, hheaders.trans hheaders'.symm⟩
    · intro key hkey message hmessage
      obtain rfl := hmessage_eq hkey hmessage
      exact (keyText_toJson_iff serializer (hscalar _)).mp (htext key hkey)
    · intro key hkey key' hkey' message message' hmessage hmessage' he
      obtain rfl := hmessage_eq hkey hmessage
      obtain rfl := hmessage_eq hkey' hmessage'
      -- what the upstream has for the one message is given to the other one, too
      exact (answered_iff (fun _ _ message => message = parsed key') h halike hparsed hkey).mpr
        ⟨key', hkey', rfl, by rw [htext key' hkey', he]⟩

/-- Whatever the upstream, each request of a batch gets what there is for its id alone, exactly where no body can be
parsed or the requests can be batched. -/
theorem sent_alike_iff (floatText : String → String) (loader : GrpcDataLoader Message) (groupBy : GroupBy)
    (field : FieldDescriptor Message) (child : MessageDescriptor Message) (idOf : Message → Value)
    (serializer : Serializer) (keys : List DataLoaderRequest) (h : Batching loader groupBy field child idOf)
    (hscalar : ∀ message, (idOf message).isScalar = true) :
    AlwaysAlike floatText loader groupBy field child keys serializer idOf ↔
      (∀ key ∈ keys, ∀ message, child.toMessage key.template.body ≠ .ok message) ∨
        Batchable floatText child keys serializer idOf := by
  constructor
  · intro halike
    by_cases hparses : ∃ key ∈ keys, ∃ message, child.toMessage key.template.body = .ok message
    · obtain ⟨key, hkey, message, hmessage⟩ := hparses
      exact .inr (batchable_of_alike h hscalar halike hkey hmessage)
    · exact .inl fun key hkey message hmessage => hparses ⟨key, hkey, message, hmessage⟩
  · rintro (hnone | hbatch) upstream execute hanswers
    · exact fun key hkey message hmessage => absurd hmessage (hnone key hkey message)
    · exact loadedAlike_of_batchable h hscalar hbatch hanswers

end

def base64Digit (n : Nat) : Char :=
  "ABCDEFGHIJKLMNOPQRSTUVWXYZabcdefghijklmnopqrstuvwxyz0123456789+/".toList.getD n '='

def base64 : List UInt8 → List Char
  | [] => []
  | [a] => [base64Digit (a.toNat / 4), base64Digit (a.toNat % 4 * 16), '=', '=']
  | [a, b] =>
    [base64Digit (a.toNat / 4), base64Digit (a.toNat % 4 * 16 + b.toNat / 16), base64Digit (b.toNat % 16 * 4), '=']
  | a :: b :: c :: rest =>
    base64Digit (a.toNat / 4) :: base64Digit (a.toNat % 4 * 16 + b.toNat / 16) ::
      base64Digit (b.toNat % 16 * 4 + c.toNat / 64) :: base64Digit (c.toNat % 64) :: base64 rest

def roles : Serializer where
  toJson
    | .bool value => .boolean value
    | .i32 value => .number (.int value.toInt)
    | .i64 value => .string (toString value)
    | .u32 value => .number (.int value.toNat)
    | .u64 value => .string (toString value)
    | .f32 value | .f64 value => value.toJson
    | .string value => .string value
    | .bytes bytes => .string (String.ofList (base64 bytes))
    | .enumNumber number => if number = 1 then .string "ADMIN" else .number (.int number.toInt)
    | .message | .map => .object []
    | .list => .list []
  base64 bytes := String.ofList (base64 bytes)
  nullEnum := false
  enumName number := if number = 1 then some "ADMIN" else none
  base64_eq_empty bytes := by
    constructor
    · intro h
      have hnil : base64 bytes = [] := String.ofList_injective h
      match bytes with
      | [] => rfl
      | [_] | [_, _] | _ :: _ :: _ :: _ => simp [base64] at hnil
    · rintro rfl
      rfl
  enumName_head number name h := by
    split at h
    · obtain rfl := Option.some.inj h
      exact ⟨'A', "DMIN".toList, rfl, .inl rfl⟩
    · cases h
  toJson_bool _ := rfl
  toJson_i32 _ := rfl
  toJson_i64 _ := rfl
  toJson_u32 _ := rfl
  toJson_u64 _ := rfl
  toJson_f32 _ := rfl
  toJson_f64 _ := rfl
  toJson_string _ := rfl
  toJson_bytes _ := rfl
  toJson_enum number := by
    by_cases h : number = 1 <;> simp [h]

def userMessage : MessageDescriptor UInt8 where
  toMessage body :=
    if body = "\x7b\"id\": 1\x7d" then .ok 1
    else if body = "\x7b\"id\": 2\x7d" then .ok 2
    else .error "Failed to parse input according to type users.UserRequest"
  getFieldByName name := if name = "id" then some fun message => .i64 (.ofNat message.toNat) else none

def users : FieldDescriptor UInt8 :=
  ⟨true, some userMessage⟩

def getUsers : ProtobufOperation UInt8 where
  inputType := ⟨fun _ => .error "Failed to parse input according to type users.MultipleUsersRequest", fun _ => none⟩
  fields := [users]
  encode message := [message]
  encodeList _ messages := messages
  decodeList _ bytes := bytes
  decode_encode _ _ := rfl

def userLoader : GrpcDataLoader UInt8 :=
  ⟨getUsers, some ⟨["id"], none⟩⟩

def userRequest (body authorization : String) : DataLoaderRequest :=
  ⟨⟨"http://localhost:50051/users.Users/GetUsers", [("authorization", authorization)], body⟩, []⟩

theorem users_batching :
    Batching userLoader ⟨["id"], none⟩ users userMessage fun message => .i64 (.ofNat message.toNat) :=
  ⟨rfl, rfl, rfl, rfl⟩

theorem sent_alike_users :
    AlwaysAlike id userLoader ⟨["id"], none⟩ users userMessage
        [userRequest "\x7b\"id\": 1\x7d" "alice", userRequest "\x7b\"id\": 2\x7d" "alice"] roles
        (fun message => .i64 (.ofNat message.toNat)) ↔
      (∀ key ∈ [userRequest "\x7b\"id\": 1\x7d" "alice", userRequest "\x7b\"id\": 2\x7d" "alice"], ∀ message,
          userMessage.toMessage key.template.body ≠ .ok message) ∨
        Batchable id userMessage [userRequest "\x7b\"id\": 1\x7d" "alice", userRequest "\x7b\"id\": 2\x7d" "alice"]
          roles fun message => .i64 (.ofNat message.toNat) :=
  sent_alike_iff id userLoader ⟨["id"], none⟩ users userMessage _ roles _ users_batching fun _ => rfl

def seenBy (request : Request) : Except String Response :=
  .ok ⟨200, [], .list ((request.body.drop 5).map fun id =>
    .object [("id", .string (toString (Int64.ofNat id.toNat))),
      ("seenBy", .string ((request.headers.lookup "authorization").getD ""))])⟩

def user (id caller : String) : ConstValue :=
  .object [("id", .string id), ("seenBy", .string caller)]

theorem sent_as_another :
    userLoader.load id seenBy [userRequest "\x7b\"id\": 1\x7d" "alice", userRequest "\x7b\"id\": 2\x7d" "bob"] =
      .ok [(userRequest "\x7b\"id\": 1\x7d" "alice", ⟨200, [], user "1" "alice"⟩),
        (userRequest "\x7b\"id\": 2\x7d" "bob", ⟨200, [], user "2" "alice"⟩)] ∧
    userLoader.load id seenBy [userRequest "\x7b\"id\": 2\x7d" "bob"] =
      .ok [(userRequest "\x7b\"id\": 2\x7d" "bob", ⟨200, [], user "2" "bob"⟩)] ∧
    ¬AlwaysAlike id userLoader ⟨["id"], none⟩ users userMessage
      [userRequest "\x7b\"id\": 1\x7d" "alice", userRequest "\x7b\"id\": 2\x7d" "bob"] roles
      (fun message => .i64 (.ofNat message.toNat)) := by
  refine ⟨rfl, rfl, fun halike => ?_⟩
  have hparse : userMessage.toMessage "\x7b\"id\": 1\x7d" = .ok 1 := rfl
  have hbatch := batchable_of_alike users_batching (fun _ => rfl) halike List.mem_cons_self hparse
  obtain ⟨_, hheaders⟩ := hbatch.same_target _ List.mem_cons_self _ (List.mem_cons_of_mem _ List.mem_cons_self)
  exact absurd hheaders (by decide)

end Gqlforge.GrpcBatches
