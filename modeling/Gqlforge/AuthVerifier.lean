import Gqlforge.EvalContext

namespace Gqlforge

open Json Errors Resolvers RequestTemplates EvalContext

namespace EvalContext.Verification

def rank : AuthError → Nat
  | .missing => 0
  | .parse _ => 1
  | .invalid => 2

def max (this that : AuthError) : AuthError :=
  match this, that with
  | .parse text, .parse text' => if text' < text then .parse text else .parse text'
  | this, that => if rank this ≤ rank that then that else this

def insertAll (claims entries : Object ConstValue) : Object ConstValue :=
  entries.foldl (fun claims entry => claims.insertKey entry.1 entry.2) claims

def mergeClaims : Option ConstValue → Option ConstValue → Option ConstValue
  | some (.object left), some (.object right) => some (.object (insertAll left right))
  | some left, _ => some left
  | none, right => right

def or (this other : Verification) : Verification :=
  match this, other with
  | .succeed claims, _ => .succeed claims
  | .fail _, .succeed claims => .succeed claims
  | .fail this, .fail that => .fail (max this that)

def and (this other : Verification) : Verification :=
  match this, other with
  | .succeed left, .succeed right => .succeed (mergeClaims left right)
  | .succeed _, .fail error => .fail error
  | .fail error, _ => .fail error

theorem and_eq_succeed {this other : Verification} {claims : Option ConstValue} :
    this.and other = .succeed claims ↔
      ∃ left right, this = .succeed left ∧ other = .succeed right ∧ claims = mergeClaims left right := by
  cases this <;> cases other <;> simp [and, eq_comm]

theorem or_eq_succeed {this other : Verification} {claims : Option ConstValue} (h : this.or other = .succeed claims) :
    this = .succeed claims ∨ other = .succeed claims := by
  cases this with
  | succeed left => exact .inl h
  | fail error =>
    cases other with
    | succeed right => exact .inr h
    | fail error' => cases h

theorem insertKey_self {fields : Object ConstValue} (hf : (fields.map Prod.fst).Nodup) {key : String}
    {value : ConstValue} (hmem : (key, value) ∈ fields) : fields.insertKey key value = fields := by
  induction fields with
  | nil => cases hmem
  | cons first rest ih =>
    obtain ⟨k, v⟩ := first
    obtain ⟨hk, hr⟩ := List.nodup_cons.mp hf
    rw [Object.insertKey]
    rcases List.mem_cons.mp hmem with he | hmem
    · obtain ⟨rfl, rfl⟩ := Prod.mk.inj he
      rw [if_pos rfl]
    · have hne : k ≠ key := fun he => hk (List.mem_map.mpr ⟨(key, value), hmem, he.symm⟩)
      rw [if_neg hne, ih hr hmem]

theorem insertAll_self (claims : Object ConstValue) (hnodup : (claims.map Prod.fst).Nodup) :
    insertAll claims claims = claims := by
  have hall (entries : Object ConstValue) (hsub : entries ⊆ claims) : insertAll claims entries = claims := by
    unfold insertAll
    induction entries with
    | nil => rfl
    | cons first rest ih =>
      rw [List.foldl_cons, insertKey_self hnodup (hsub List.mem_cons_self)]
      exact ih fun entry he => hsub (List.mem_cons_of_mem _ he)
  exact hall claims (List.Subset.refl _)

theorem nodup_insertAll {claims : Object ConstValue} (hnodup : (claims.map Prod.fst).Nodup)
    (entries : Object ConstValue) : ((insertAll claims entries).map Prod.fst).Nodup := by
  unfold insertAll
  induction entries generalizing claims with
  | nil => exact hnodup
  | cons first rest ih => exact ih (Object.nodup_insertKey claims first.1 first.2 hnodup)

end EvalContext.Verification

namespace AuthVerifier

def verify (provider : Provider → Verification) : Auth → Verification
  | .provider p => provider p
  | .and left right => (verify provider left).and (verify provider right)
  | .or left right => (verify provider left).or (verify provider right)

inductive OneOrMany where
  | one (value : String)
  | vec (values : List String)

structure JwtClaim where
  aud : Option OneOrMany
  iss : Option String
  sub : Option String
  extra : Object ConstValue

def OneOrMany.toJsonValue : OneOrMany → ConstValue
  | .one value => .string value
  | .vec values => .list (values.map .string)

def textOrNull (text : Option String) : ConstValue :=
  (text.map .string).getD .null

def JwtClaim.fields (claims : JwtClaim) : Object ConstValue :=
  Verification.insertAll [("aud", (claims.aud.map (·.toJsonValue)).getD .null), ("iss", textOrNull claims.iss),
    ("sub", textOrNull claims.sub)] claims.extra

def JwtClaim.toJsonValue (claims : JwtClaim) : ConstValue :=
  .object claims.fields

theorem nodup_fields (claims : JwtClaim) : (claims.fields.map Prod.fst).Nodup := by
  apply Verification.nodup_insertAll
  simp

structure Crates where
  Jwk : Type
  DecodingKey : Type
  Algorithm : Type
  basic : String → Option (String × String)
  bearer : String → Option String
  oneScheme : ∀ header user token, basic header = some user → bearer header ≠ some token
  check : String → String → String → Bool
  decodeHeader : String → Option (Option String)
  find : String → String → Option Jwk
  keys : String → List Jwk
  decodingKey : Jwk → Except String DecodingKey
  keyAlgorithm : Jwk → Option Algorithm
  validation : Algorithm → Except String Algorithm
  decode : String → DecodingKey → Algorithm → Option JwtClaim
  payload : String → JwtClaim
  decode_payload : ∀ token key algorithm claims, decode token key algorithm = some claims → claims = payload token

section

variable (crates : Crates)

def display : AuthError → String
  | .missing => "Missing Authorization Header"
  | .parse text => text
  | .invalid => "Invalid Authorization Header"

def decodeWithJwk (token : String) (jwk : crates.Jwk) : Except AuthError JwtClaim :=
  match crates.decodingKey jwk with
  | .error text => .error (.parse text)
  | .ok key => match crates.keyAlgorithm jwk with
    | none => .error (.parse "Key algorithm is not specified in JWKS")
    | some algorithm => match crates.validation algorithm with
      | .error text => .error (.parse text)
      | .ok validation => match crates.decode token key validation with
        | none => .error .invalid
        | some claims => .ok claims

def decode (jwks : String) (optionalKid : Bool) (token : String) : Except AuthError JwtClaim :=
  match crates.decodeHeader token with
  | none => .error .invalid
  | some (some kid) => match crates.find jwks kid with
    | none => .error (.parse "Couldn't find JWK entry with specified kid")
    | some jwk => decodeWithJwk crates token jwk
  | some none =>
    if optionalKid then
      match (crates.keys jwks).findSome? fun jwk => (decodeWithJwk crates token jwk).toOption with
      | some claims => .ok claims
      | none => .error .invalid
    else .error .invalid

def validateIss (issuer : Option String) (claims : JwtClaim) : Bool :=
  issuer.all fun issuer => claims.iss.any (· == issuer)

def validateAud (audiences : List String) (claims : JwtClaim) : Bool :=
  audiences.isEmpty || match claims.aud with
    | none => false
    | some (.one aud) => audiences.contains aud
    | some (.vec auds) => auds.any audiences.contains

def typedTryGet {α : Type} (decode : String → Option α) (headers : HeaderMap) : Option (Option α) :=
  match headers.getKey "authorization" with
  | none => some none
  | some header => (decode header).map some

def verifier (headers : HeaderMap) : Provider → Verification
  | .basic htpasswd => match typedTryGet crates.basic headers with
    | none => .fail .invalid
    | some none => .fail .missing
    | some (some (username, password)) =>
      if crates.check htpasswd username password then .succeed none else .fail .invalid
  | .jwt issuer audiences optionalKid jwks => match typedTryGet crates.bearer headers with
    | none => .fail .invalid
    | some none => .fail .missing
    | some (some token) => match decode crates jwks optionalKid token with
      | .error error => .fail (.parse (display error))
      | .ok claims =>
        if !validateIss issuer claims || !validateAud audiences claims then .fail .invalid
        else .succeed (some claims.toJsonValue)

def claimsOf (headers : HeaderMap) : Option ConstValue :=
  ((headers.getKey "authorization").bind crates.bearer).map fun token => (crates.payload token).toJsonValue

variable {crates}

theorem decodeWithJwk_payload {token : String} {jwk : crates.Jwk} {claims : JwtClaim}
    (h : decodeWithJwk crates token jwk = .ok claims) : claims = crates.payload token := by
  unfold decodeWithJwk at h
  cases hk : crates.decodingKey jwk with
  | error text => simp [hk] at h
  | ok key =>
    cases ha : crates.keyAlgorithm jwk with
    | none => simp [hk, ha] at h
    | some algorithm =>
      cases hv : crates.validation algorithm with
      | error text => simp [hk, ha, hv] at h
      | ok validation =>
        cases hd : crates.decode token key validation with
        | none => simp [hk, ha, hv, hd] at h
        | some found =>
          simp only [hk, ha, hv, hd, Except.ok.injEq] at h
          exact crates.decode_payload token key validation claims (h ▸ hd)

theorem decode_payload {jwks : String} {optionalKid : Bool} {token : String} {claims : JwtClaim}
    (h : decode crates jwks optionalKid token = .ok claims) : claims = crates.payload token := by
  unfold decode at h
  split at h
  · cases h
  · split at h
    · cases h
    · exact decodeWithJwk_payload h
  · split at h
    · split at h
      next found hf =>
        obtain rfl := Except.ok.inj h
        obtain ⟨jwk, -, hj⟩ := List.exists_of_findSome?_eq_some hf
        cases hd : decodeWithJwk crates token jwk with
        | error error => simp [hd, Except.toOption] at hj
        | ok claims =>
          simp only [hd, Except.toOption, Option.some.injEq] at hj
          exact hj ▸ decodeWithJwk_payload hd
      next => cases h
    · cases h

theorem verifier_claims {headers : HeaderMap} {provider : Provider} {claims : Option ConstValue}
    (h : verifier crates headers provider = .succeed claims) : claims = claimsOf crates headers := by
  cases hheader : headers.getKey "authorization" with
  | none => cases provider <;> simp [verifier, typedTryGet, hheader] at h
  | some header =>
    cases provider with
    | basic htpasswd =>
      cases hb : crates.basic header with
      | none => simp [verifier, typedTryGet, hheader, hb] at h
      | some user =>
        have hnone : crates.bearer header = none :=
          Option.eq_none_iff_forall_ne_some.mpr fun token => crates.oneScheme header user token hb
        simp only [verifier, typedTryGet, hheader, hb, Option.map_some] at h
        split at h
        · obtain rfl := Verification.succeed.inj h
          simp [claimsOf, hheader, hnone]
        · cases h
    | jwt issuer audiences optionalKid jwks =>
      cases hb : crates.bearer header with
      | none => simp [verifier, typedTryGet, hheader, hb] at h
      | some token =>
        simp only [verifier, typedTryGet, hheader, hb, Option.map_some] at h
        split at h
        · cases h
        next found hd =>
          split at h
          · cases h
          · obtain rfl := Verification.succeed.inj h
            simp [claimsOf, hheader, hb, decode_payload hd]

theorem mergeClaims_claimsOf (headers : HeaderMap) :
    Verification.mergeClaims (claimsOf crates headers) (claimsOf crates headers) = claimsOf crates headers := by
  cases hc : claimsOf crates headers with
  | none => rfl
  | some claims =>
    obtain ⟨token, -, rfl⟩ := Option.map_eq_some_iff.mp hc
    have hsame := Verification.insertAll_self (crates.payload token).fields (nodup_fields _)
    simp only [JwtClaim.toJsonValue, Verification.mergeClaims, hsame]

theorem verify_claims {headers : HeaderMap} {auth : Auth} {claims : Option ConstValue}
    (h : verify (verifier crates headers) auth = .succeed claims) : claims = claimsOf crates headers := by
  induction auth generalizing claims with
  | provider provider => exact verifier_claims h
  | and left right ihl ihr =>
    obtain ⟨first, second, hl, hr, rfl⟩ := Verification.and_eq_succeed.mp h
    rw [ihl hl, ihr hr, mergeClaims_claimsOf]
  | or left right ihl ihr =>
    rcases Verification.or_eq_succeed h with h | h
    · exact ihl h
    · exact ihr h

end

end AuthVerifier

end Gqlforge
