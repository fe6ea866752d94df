import Gqlforge.CachePolicies

namespace Gqlforge.CacheHeaders

open CachePolicies

/-! ## What a header says -/

inductive Directive where
  | maxAge (seconds : Nat)
  | noCache
  | noStore
  | onlyPrivate

def Directive.text : Directive → List Char
  | maxAge seconds => "max-age=".toList ++ Nat.toDigits 10 seconds
  | noCache => "no-cache".toList
  | noStore => "no-store".toList
  | onlyPrivate => "private".toList

def parts : Option String → List (List Char)
  | none => []
  | some header => (header.toList.splitOn ',').map (·.dropWhile (· == ' '))

def Says (header : Option String) (directive : Directive) : Prop :=
  directive.text ∈ parts header

def Unreused (policy : CachePolicy) : Prop :=
  policy.cachability = some .noCache ∨ policy.noStore = true ∨ policy.maxAge = some 0

def said (responses : List UpstreamResponse) : List CachePolicy :=
  responses.filterMap (·.policy)

def SaysUnreused (header : Option String) : Prop :=
  Says header .noCache ∨ Says header .noStore ∨ Says header (.maxAge 0)

structure NeverWeaker (policies : List CachePolicy) (header : Option String) : Prop where
  aged : ∀ policy ∈ policies, ∀ age, policy.maxAge = some age →
    SaysUnreused header ∨ ∃ seconds ≤ age, Says header (.maxAge seconds)
  unreused : ∀ policy ∈ policies, Unreused policy → SaysUnreused header
  onlyPrivate : ∀ policy ∈ policies, policy.cachability = some .privateCache → Says header .onlyPrivate

variable {policies : List CachePolicy}

theorem NeverWeaker.append {policies' : List CachePolicy} {header : Option String}
    (h : NeverWeaker policies header) (h' : NeverWeaker policies' header) :
    NeverWeaker (policies ++ policies') header where
  aged := List.forall_mem_append.mpr ⟨h.aged, h'.aged⟩
  unreused := List.forall_mem_append.mpr ⟨h.unreused, h'.unreused⟩
  onlyPrivate := List.forall_mem_append.mpr ⟨h.onlyPrivate, h'.onlyPrivate⟩

/-! ## The directives of a value -/

theorem toDigits_injective {m n : Nat} (h : Nat.toDigits 10 m = Nat.toDigits 10 n) : m = n := by
  rw [← Nat.ofDigitChars_ten_toDigits (n := m), h, Nat.ofDigitChars_ten_toDigits]

theorem maxAge_text (seconds : Nat) :
    (Directive.maxAge seconds).text = "max-age=".toList ++ Nat.toDigits 10 seconds := rfl

theorem maxAge_head (seconds : Nat) : (Directive.maxAge seconds).text.head? = some 'm' := by
  have hname : "max-age=".toList = 'm' :: "ax-age=".toList := by decide
  rw [maxAge_text, hname, List.cons_append, List.head?_cons]

theorem text_injective {directive directive' : Directive} (h : directive.text = directive'.text) :
    directive = directive' := by
  have hhead := congrArg List.head? h
  match directive, directive' with
  | .maxAge _, .maxAge _ => exact congrArg _ (toDigits_injective (List.append_cancel_left h))
  | .maxAge _, .noCache | .maxAge _, .noStore | .maxAge _, .onlyPrivate =>
    rw [maxAge_head] at hhead
    exact absurd hhead (by decide)
  | .noCache, .maxAge _ | .noStore, .maxAge _ | .onlyPrivate, .maxAge _ =>
    rw [maxAge_head] at hhead
    exact absurd hhead (by decide)
  | .noCache, .noCache | .noStore, .noStore | .onlyPrivate, .onlyPrivate => rfl
  | .noCache, .noStore | .noCache, .onlyPrivate | .noStore, .noCache => exact absurd h (by decide)
  | .noStore, .onlyPrivate | .onlyPrivate, .noCache | .onlyPrivate, .noStore => exact absurd h (by decide)

def ages (cc : CacheControl) : List Directive :=
  if 0 < cc.maxAge then [.maxAge cc.maxAge.toNat] else if cc.maxAge = -1 then [.noCache] else []

def directives (cc : CacheControl) : List Directive :=
  ages cc ++ if cc.isPublic then [] else [.onlyPrivate]

theorem comma_not_mem_digits (n : Nat) : ',' ∉ Nat.toDigits 10 n := by
  intro h
  have hdigit := Nat.isDigit_of_mem_toDigits (by decide) (by decide) h
  exact absurd hdigit (by decide)

theorem parts_single {text : List Char} (hcomma : ',' ∉ text) (hspace : text.head? ≠ some ' ') :
    parts (some (String.ofList text)) = [text] := by
  rw [parts, String.toList_ofList, List.splitOn_eq_singleton hcomma, List.map_singleton]
  match text, hspace with
  | [], _ => rfl
  | c :: rest, hspace =>
    rw [List.dropWhile_cons_of_neg]
    intro hc
    exact hspace (congrArg some (beq_iff_eq.mp hc))

theorem parts_pair {text rest : List Char} (hcomma : ',' ∉ text) (hspace : text.head? ≠ some ' ') (hrest : ',' ∉ rest)
    (hword : rest.head? ≠ some ' ') : parts (some (String.ofList (text ++ ',' :: ' ' :: rest))) = [text, rest] := by
  have hfirst := parts_single hcomma hspace
  have hsecond := parts_single hrest hword
  rw [parts, String.toList_ofList, List.splitOn_eq_singleton ‹_›] at hfirst hsecond
  have hblank : ',' ∉ ' ' :: rest := by simpa using hrest
  rw [parts, String.toList_ofList, List.splitOn_append_cons_self_of_not_mem hcomma,
    List.splitOn_eq_singleton hblank, List.map_cons, List.map_singleton, List.dropWhile_cons_of_pos (by decide)]
  rw [List.map_singleton] at hfirst hsecond
  rw [(List.cons.inj hfirst).1, (List.cons.inj hsecond).1]

theorem plain_text (directive : Directive) : ',' ∉ directive.text ∧ directive.text.head? ≠ some ' ' := by
  match directive with
  | .maxAge seconds =>
    rw [maxAge_head]
    refine ⟨fun h => ?_, by decide⟩
    obtain hname | hdigits := List.mem_append.mp h
    · exact absurd hname (by decide)
    · exact comma_not_mem_digits seconds hdigits
  | .noCache | .noStore | .onlyPrivate => decide

theorem parts_text (directive : Directive) : parts (some (String.ofList directive.text)) = [directive.text] :=
  parts_single (plain_text directive).1 (plain_text directive).2

theorem parts_private (directive : Directive) :
    parts (some (String.ofList directive.text ++ ", " ++ "private")) = [directive.text, Directive.onlyPrivate.text] := by
  have hjoin : String.ofList directive.text ++ ", " ++ "private" =
      String.ofList (directive.text ++ ',' :: ' ' :: Directive.onlyPrivate.text) := by
    have hprivate : "private" = String.ofList Directive.onlyPrivate.text := by decide
    have hsep : ", " = String.ofList [',', ' '] := by decide
    rw [hprivate, hsep, ← String.ofList_append, ← String.ofList_append, List.append_assoc]
    rfl
  rw [hjoin]
  exact parts_pair (plain_text _).1 (plain_text _).2 (plain_text _).1 (plain_text _).2

theorem maxAge_ofList (seconds : Nat) :
    "max-age=" ++ toString (Int.ofNat seconds) = String.ofList (Directive.maxAge seconds).text := by
  have hname : "max-age=" = String.ofList "max-age=".toList := by decide
  have hdigits : toString (Int.ofNat seconds) = String.ofList (Nat.toDigits 10 seconds) := Nat.repr_eq_ofList_toDigits
  rw [hname, hdigits, ← String.ofList_append]
  rfl

theorem text_ne_nil (directive : Directive) : directive.text ≠ [] := by
  match directive with
  | .maxAge seconds =>
    intro h
    have hhead := maxAge_head seconds
    rw [h] at hhead
    cases hhead
  | .noCache | .noStore | .onlyPrivate => decide

theorem isEmpty_text (directive : Directive) : (String.ofList directive.text).isEmpty = false := by
  rw [String.isEmpty_eq_false_iff]
  intro h
  exact text_ne_nil directive (String.ofList_eq_empty_iff.mp h)

def joined (age : String) (isPublic : Bool) : Option String :=
  let value := if isPublic then age else if age.isEmpty then "private" else age ++ ", " ++ "private"
  if value.isEmpty then none else some value

theorem parts_joined (directive : Directive) (isPublic : Bool) :
    parts (joined (String.ofList directive.text) isPublic) =
      (directive :: if isPublic then [] else [Directive.onlyPrivate]).map Directive.text := by
  cases isPublic with
  | true =>
    rw [joined]
    simp only [if_true, isEmpty_text]
    exact parts_text directive
  | false =>
    have hempty : (String.ofList directive.text ++ ", " ++ "private").isEmpty = false := by
      simp
    rw [joined]
    simp only [isEmpty_text, hempty, Bool.false_eq_true, if_false]
    exact parts_private directive

theorem parts_unaged (isPublic : Bool) :
    parts (joined "" isPublic) = (if isPublic then [] else [Directive.onlyPrivate]).map Directive.text := by
  cases isPublic with
  | true => rfl
  | false => exact parts_text .onlyPrivate

variable {cc : CacheControl}

theorem parts_value (h : -1 ≤ cc.maxAge) : parts cc.value = (directives cc).map Directive.text := by
  obtain ⟨maxAge, isPublic⟩ := cc
  by_cases hage : 0 < maxAge
  · obtain ⟨seconds, rfl⟩ := Int.eq_ofNat_of_zero_le (Int.le_of_lt hage)
    have hvalue : CacheControl.value ⟨(seconds : Int), isPublic⟩ =
        joined (String.ofList (Directive.maxAge seconds).text) isPublic := by
      rw [← maxAge_ofList, CacheControl.value, if_pos hage]
      rfl
    rw [hvalue, parts_joined, directives, ages, if_pos hage]
    rfl
  · by_cases hcache : maxAge = -1
    · subst hcache
      exact parts_joined .noCache isPublic
    · have hvalue : CacheControl.value ⟨maxAge, isPublic⟩ = joined "" isPublic := by
        rw [CacheControl.value, if_neg hage, if_neg hcache]
        rfl
      rw [hvalue, parts_unaged, directives, ages, if_neg hage, if_neg hcache, List.nil_append]

theorem says_value (h : -1 ≤ cc.maxAge) {directive : Directive} :
    Says cc.value directive ↔ directive ∈ directives cc := by
  rw [Says, parts_value h, List.mem_map]
  constructor
  · rintro ⟨directive', hmem, htext⟩
    exact text_injective htext ▸ hmem
  · exact fun hmem => ⟨directive, hmem, rfl⟩

theorem says_noCache (h : -1 ≤ cc.maxAge) : Says cc.value .noCache ↔ cc.maxAge = -1 := by
  rw [says_value h, directives, ages]
  split_ifs <;> simp <;> omega

theorem says_noStore (h : -1 ≤ cc.maxAge) : ¬Says cc.value .noStore := by
  rw [says_value h, directives, ages]
  split_ifs <;> simp

theorem says_maxAge (h : -1 ≤ cc.maxAge) {seconds : Nat} :
    Says cc.value (.maxAge seconds) ↔ 0 < seconds ∧ cc.maxAge = seconds := by
  rw [says_value h, directives, ages]
  split_ifs <;> simp <;> omega

theorem says_onlyPrivate (h : -1 ≤ cc.maxAge) : Says cc.value .onlyPrivate ↔ cc.isPublic = false := by
  rw [says_value h, directives, ages]
  split_ifs <;> simp [*]

/-! ## The value of a request context -/

def controlOf (responses : List UpstreamResponse) : CacheControl :=
  { maxAge := (received true responses).minMaxAge.getD 0, isPublic := (received true responses).cachePublic.getD true }

def marks (responses : List UpstreamResponse) : List Int :=
  (counted responses).flatMap CachePolicy.marks

variable {responses : List UpstreamResponse}

theorem mem_marks {mark : Int} : mark ∈ marks responses ↔
    (∃ policy ∈ counted responses, ∃ age, policy.maxAge = some age ∧ RequestContext.secsI32 age = mark) ∨
      (∃ policy ∈ counted responses, policy.cachability = some .noCache) ∧ mark = -1 := by
  rw [marks, List.mem_flatMap]
  constructor
  · rintro ⟨policy, hpolicy, hmark⟩
    obtain hage | hcache := List.mem_append.mp hmark
    · rw [Option.mem_toList, Option.map_eq_some_iff] at hage
      exact .inl ⟨policy, hpolicy, hage⟩
    · split at hcache
      next hno => exact .inr ⟨⟨policy, hpolicy, hno⟩, List.mem_singleton.mp hcache⟩
      next => cases hcache
  · rintro (⟨policy, hpolicy, hage⟩ | ⟨⟨policy, hpolicy, hno⟩, rfl⟩)
    · refine ⟨policy, hpolicy, List.mem_append_left _ ?_⟩
      rw [Option.mem_toList, Option.map_eq_some_iff]
      exact hage
    · refine ⟨policy, hpolicy, List.mem_append_right _ ?_⟩
      rw [if_pos hno]
      exact List.mem_singleton_self _

theorem secsI32_nonneg (secs : Nat) : 0 ≤ RequestContext.secsI32 secs := by
  rw [RequestContext.secsI32]
  split <;> omega

theorem marks_ge {mark : Int} (h : mark ∈ marks responses) : -1 ≤ mark := by
  obtain ⟨_, _, age, _, rfl⟩ | ⟨_, rfl⟩ := mem_marks.mp h
  · have := secsI32_nonneg age
    omega
  · exact Int.le_refl _

theorem controlOf_least {responses : List UpstreamResponse} :
    (marks responses = [] ∧ (controlOf responses).maxAge = 0) ∨ ((controlOf responses).maxAge ∈ marks responses ∧
      ∀ mark ∈ marks responses, (controlOf responses).maxAge ≤ mark) := by
  have hmin : (received true responses).minMaxAge = (marks responses).min? := minMaxAge_received responses
  cases hleast : (marks responses).min? with
  | none =>
    refine .inl ⟨List.min?_eq_none_iff.mp hleast, ?_⟩
    rw [controlOf, hmin, hleast]
    rfl
  | some least =>
    have hcontrol : (controlOf responses).maxAge = least := by
      rw [controlOf, hmin, hleast]
      rfl
    rw [hcontrol]
    exact .inr (List.min?_eq_some_iff.mp hleast)

theorem controlOf_ge (responses : List UpstreamResponse) : -1 ≤ (controlOf responses).maxAge := by
  obtain ⟨_, hzero⟩ | ⟨hmem, _⟩ := @controlOf_least responses
  · omega
  · exact marks_ge hmem

theorem controlOf_noCache : (controlOf responses).maxAge = -1 ↔
    ∃ policy ∈ counted responses, policy.cachability = some .noCache := by
  constructor
  · intro h
    obtain ⟨_, hzero⟩ | ⟨hmem, _⟩ := @controlOf_least responses
    · omega
    · rw [h] at hmem
      obtain ⟨_, _, age, _, hage⟩ | ⟨hno, _⟩ := mem_marks.mp hmem
      · have := secsI32_nonneg age
        omega
      · exact hno
  · intro hno
    have hmark : -1 ∈ marks responses := mem_marks.mpr (.inr ⟨hno, rfl⟩)
    obtain ⟨hempty, _⟩ | ⟨hmem, hleast⟩ := @controlOf_least responses
    · rw [hempty] at hmark
      cases hmark
    · have hge := marks_ge hmem
      have hle := hleast _ hmark
      omega

theorem controlOf_isPublic : (controlOf responses).isPublic = false ↔
    ∃ policy ∈ counted responses, policy.cachability = some .privateCache := by
  rw [controlOf, cachePublic_received]
  split <;> simp [*]

/-- What the counted responses say covers what all responses say, and no policy but `no-cache` forbids reuse. -/
def Covered (responses : List UpstreamResponse) : Prop :=
  ((∃ policy ∈ said responses, policy.cachability = some .privateCache) →
    ∃ policy ∈ counted responses, policy.cachability = some .privateCache) ∧
  ((∃ policy ∈ counted responses, policy.cachability = some .noCache) ∨
    (∀ policy ∈ said responses, ¬Unreused policy ∧ ∀ age, policy.maxAge = some age →
      ∃ policy' ∈ counted responses, ∃ age', policy'.maxAge = some age' ∧ min age' (2 ^ 31 - 1) ≤ age))

theorem mem_said_of_counted {policy : CachePolicy} (h : policy ∈ counted responses) : policy ∈ said responses := by
  obtain ⟨response, hresponse, hcounted⟩ := List.mem_filterMap.mp h
  refine List.mem_filterMap.mpr ⟨response, hresponse, ?_⟩
  rw [UpstreamResponse.counted] at hcounted
  split at hcounted
  · exact hcounted
  · cases hcounted

theorem secsI32_eq (secs : Nat) : RequestContext.secsI32 secs = (min secs (2 ^ 31 - 1) : Nat) := by
  rw [RequestContext.secsI32]
  split <;> omega

theorem saysUnreused_iff (h : -1 ≤ cc.maxAge) : SaysUnreused cc.value ↔ cc.maxAge = -1 := by
  rw [SaysUnreused, says_noCache h, says_maxAge h]
  constructor
  · rintro (hno | hstore | ⟨hzero, _⟩)
    · exact hno
    · exact absurd hstore (says_noStore h)
    · exact absurd hzero (Nat.lt_irrefl 0)
  · exact .inl

theorem controlOf_neverWeaker_iff : NeverWeaker (said responses) (controlOf responses).value ↔ Covered responses := by
  have hge := controlOf_ge responses
  constructor
  · intro h
    refine ⟨?_, ?_⟩
    · rintro ⟨policy, hpolicy, hprivate⟩
      exact controlOf_isPublic.mp ((says_onlyPrivate hge).mp (h.onlyPrivate policy hpolicy hprivate))
    · by_cases hno : ∃ policy ∈ counted responses, policy.cachability = some .noCache
      · exact .inl hno
      · have hreused : ¬SaysUnreused (controlOf responses).value := by
          rw [saysUnreused_iff hge, controlOf_noCache]
          exact hno
        refine .inr fun policy hpolicy => ⟨fun hun => hreused (h.unreused policy hpolicy hun), fun age hage => ?_⟩
        obtain htold | ⟨seconds, hle, htold⟩ := h.aged policy hpolicy age hage
        · exact absurd htold hreused
        · obtain ⟨hpos, hseconds⟩ := (says_maxAge hge).mp htold
          obtain ⟨_, hzero⟩ | ⟨hmem, _⟩ := @controlOf_least responses
          · omega
          · rw [hseconds] at hmem
            obtain ⟨policy', hpolicy', age', hage', hmark⟩ | ⟨_, hneg⟩ := mem_marks.mp hmem
            · rw [secsI32_eq] at hmark
              exact ⟨policy', hpolicy', age', hage', by omega⟩
            · omega
  · rintro ⟨hprivate, hkept⟩
    refine ⟨fun policy hpolicy age hage => ?_, fun policy hpolicy hun => ?_, fun policy hpolicy hpriv => ?_⟩
    · rw [saysUnreused_iff hge, controlOf_noCache]
      obtain hno | hall := hkept
      · exact .inl hno
      · obtain ⟨policy', hpolicy', age', hage', hle⟩ := (hall policy hpolicy).2 age hage
        have hmark : RequestContext.secsI32 age' ∈ marks responses := mem_marks.mpr (.inl ⟨policy', hpolicy', age', hage', rfl⟩)
        obtain ⟨hempty, _⟩ | ⟨hmem, hleast⟩ := @controlOf_least responses
        · rw [hempty] at hmark
          cases hmark
        · have hbound := hleast _ hmark
          obtain ⟨policy'', hpolicy'', age'', hage'', hvalue⟩ | ⟨hno, _⟩ := mem_marks.mp hmem
          · have hnonzero : age'' ≠ 0 := by
              rintro rfl
              exact (hall policy'' (mem_said_of_counted hpolicy'')).1 (.inr (.inr hage''))
            rw [secsI32_eq] at hvalue hbound
            refine .inr ⟨min age'' (2 ^ 31 - 1), by omega, (says_maxAge hge).mpr ⟨by omega, hvalue.symm⟩⟩
          · exact .inl hno
    · rw [saysUnreused_iff hge, controlOf_noCache]
      obtain hno | hall := hkept
      · exact hno
      · exact absurd hun (hall policy hpolicy).1
    · exact (says_onlyPrivate hge).mpr (controlOf_isPublic.mpr (hprivate ⟨policy, hpolicy, hpriv⟩))

/-! ## Answers and batches -/

theorem mergeAge_comm (age other : Int) : CacheControl.mergeAge age other = CacheControl.mergeAge other age := by
  unfold CacheControl.mergeAge
  split_ifs <;> omega

theorem mergeAge_ge {age other : Int} (hage : -1 ≤ age) (hother : -1 ≤ other) :
    -1 ≤ CacheControl.mergeAge age other := by
  unfold CacheControl.mergeAge
  split_ifs <;> omega

theorem mergeAge_le {age other : Int} (hage : 0 < age) (hother : -1 ≤ other) :
    CacheControl.mergeAge age other = -1 ∨
      0 < CacheControl.mergeAge age other ∧ CacheControl.mergeAge age other ≤ age := by
  unfold CacheControl.mergeAge
  split_ifs <;> omega

theorem merge_comm (cc other : CacheControl) : cc.merge other = other.merge cc := by
  rw [CacheControl.merge, CacheControl.merge, mergeAge_comm, Bool.and_comm]

theorem mergeAge_self (age : Int) : CacheControl.mergeAge age age = age := by
  unfold CacheControl.mergeAge
  split_ifs <;> omega

theorem zero_mergeAge (age : Int) : CacheControl.mergeAge 0 age = age := by
  rw [CacheControl.mergeAge]
  by_cases hno : age = -1
  · rw [if_pos (.inr hno), hno]
  · rw [if_neg (by omega)]
    by_cases hzero : age = 0
    · rw [if_pos hzero, hzero]
    · rw [if_neg hzero, if_pos rfl]

theorem merge_self (cc : CacheControl) : cc.merge cc = cc := by
  rw [CacheControl.merge, mergeAge_self, Bool.and_self]

theorem initial_merge (cc : CacheControl) : CacheControl.initial.merge cc = cc := by
  have hage : CacheControl.mergeAge CacheControl.initial.maxAge cc.maxAge = cc.maxAge := zero_mergeAge cc.maxAge
  rw [CacheControl.merge, hage, CacheControl.initial, Bool.true_and]

theorem cacheControl_some (cc : CacheControl) (answer : BatchResponse) :
    answer.cacheControl (some cc) = if answer = .batch [] then .initial else cc := by
  match answer with
  | .single _ => rfl
  | .batch [] => rfl
  | .batch (response :: responses) =>
    have hfold : responses.foldl (fun merged _ => merged.merge cc) cc = cc := by
      induction responses with
      | nil => rfl
      | cons _ _ ih => rw [List.foldl_cons, merge_self, ih]
    rw [if_neg (by simp), BatchResponse.cacheControl, List.foldl_cons]
    simp only [Option.getD_some, initial_merge, hfold]

theorem executeQuery_eq (responses : List UpstreamResponse) (answer : BatchResponse) :
    executeQuery true responses answer =
      if answer.isOk = true ∧ answer ≠ .batch [] then (controlOf responses).value else none := by
  have hheader : executeQuery true responses answer =
      if answer.isOk then (answer.cacheControl (some (controlOf responses))).value else none := rfl
  rw [hheader, cacheControl_some]
  by_cases hok : answer.isOk = true
  · by_cases hempty : answer = .batch []
    · rw [if_pos hok, if_pos hempty, if_neg fun h => h.2 hempty]
      rfl
    · rw [if_pos hok, if_neg hempty, if_pos ⟨hok, hempty⟩]
  · rw [if_neg hok, if_neg fun h => hok h.1]

def Unrestricted (policy : CachePolicy) : Prop :=
  policy.maxAge = none ∧ ¬Unreused policy ∧ policy.cachability ≠ some .privateCache

theorem neverWeaker_none_iff : NeverWeaker policies none ↔ ∀ policy ∈ policies, Unrestricted policy := by
  have htold (directive : Directive) : ¬Says none directive := List.not_mem_nil
  have hunreused : ¬SaysUnreused none := by
    rintro (h | h | h)
    all_goals exact htold _ h
  constructor
  · intro h policy hpolicy
    refine ⟨?_, fun hun => hunreused (h.unreused policy hpolicy hun), fun hprivate => ?_⟩
    · cases hage : policy.maxAge with
      | none => rfl
      | some age =>
        obtain hun | ⟨_, _, hmax⟩ := h.aged policy hpolicy age hage
        · exact absurd hun hunreused
        · exact absurd hmax (htold _)
    · exact htold _ (h.onlyPrivate policy hpolicy hprivate)
  · intro h
    refine ⟨fun policy hpolicy age hage => ?_, fun policy hpolicy hun => ?_, fun policy hpolicy hprivate => ?_⟩
    · rw [(h policy hpolicy).1] at hage
      cases hage
    · exact absurd hun (h policy hpolicy).2.1
    · exact absurd hprivate (h policy hpolicy).2.2

theorem covered_of_unrestricted (h : ∀ policy ∈ said responses, Unrestricted policy) : Covered responses := by
  refine ⟨fun ⟨policy, hpolicy, hprivate⟩ => absurd hprivate (h policy hpolicy).2.2, .inr fun policy hpolicy => ?_⟩
  refine ⟨(h policy hpolicy).2.1, fun age hage => ?_⟩
  rw [(h policy hpolicy).1] at hage
  cases hage

theorem NeverWeaker.merge {other : CacheControl} (hcc : -1 ≤ cc.maxAge)
    (hother : -1 ≤ other.maxAge) (h : NeverWeaker policies cc.value) : NeverWeaker policies (cc.merge other).value := by
  have hmerged : -1 ≤ (cc.merge other).maxAge := mergeAge_ge hcc hother
  have hunreused : SaysUnreused cc.value → SaysUnreused (cc.merge other).value := by
    rw [saysUnreused_iff hcc, saysUnreused_iff hmerged]
    intro hno
    exact if_pos (.inl hno)
  refine ⟨fun policy hpolicy age hage => ?_, fun policy hpolicy hun => hunreused (h.unreused policy hpolicy hun),
    fun policy hpolicy hprivate => ?_⟩
  · obtain hun | ⟨seconds, hle, htold⟩ := h.aged policy hpolicy age hage
    · exact .inl (hunreused hun)
    · obtain ⟨hpos, hseconds⟩ := (says_maxAge hcc).mp htold
      obtain hno | ⟨hpositive, hbound⟩ := @mergeAge_le cc.maxAge _ (by omega) hother
      · exact .inl ((saysUnreused_iff hmerged).mpr hno)
      · have hage : (cc.merge other).maxAge = ((cc.merge other).maxAge.toNat : Int) :=
          (Int.toNat_of_nonneg (Int.le_of_lt hpositive)).symm
        have hmax : (cc.merge other).maxAge ≤ cc.maxAge := hbound
        have hpos' : 0 < (cc.merge other).maxAge := hpositive
        exact .inr ⟨(cc.merge other).maxAge.toNat, by omega, (says_maxAge hmerged).mpr ⟨by omega, hage⟩⟩
  · have hpriv := (says_onlyPrivate hcc).mp (h.onlyPrivate policy hpolicy hprivate)
    apply (says_onlyPrivate hmerged).mpr
    rw [CacheControl.merge, hpriv, Bool.false_and]

theorem mergeAge_right_comm (age other next : Int) : CacheControl.mergeAge (CacheControl.mergeAge age other) next =
    CacheControl.mergeAge (CacheControl.mergeAge age next) other := by
  unfold CacheControl.mergeAge
  split_ifs <;> omega

/-- The header of a batch is the same whatever the order of its answers is. -/
theorem cacheHeader_perm {answers answers' : List AnyResponse} (h : answers.Perm answers') (cc : Option CacheControl) :
    GraphQLArcResponse.cacheHeader ⟨.batch answers, cc⟩ = GraphQLArcResponse.cacheHeader ⟨.batch answers', cc⟩ := by
  have hcontrol : (BatchResponse.batch answers).cacheControl cc = (BatchResponse.batch answers').cacheControl cc := by
    refine h.foldl_eq' (fun answer _ other _ merged => ?_) _
    simp only [CacheControl.merge, mergeAge_right_comm, Bool.and_right_comm]
  have hok : (BatchResponse.batch answers).isOk = (BatchResponse.batch answers').isOk := h.all_eq
  rw [GraphQLArcResponse.cacheHeader, GraphQLArcResponse.cacheHeader, hok, hcontrol]

theorem cacheHeader_perm_two : GraphQLArcResponse.cacheHeader ⟨.batch [⟨⟨5, true⟩, true⟩, ⟨⟨9, false⟩, true⟩], none⟩ =
    GraphQLArcResponse.cacheHeader ⟨.batch [⟨⟨9, false⟩, true⟩, ⟨⟨5, true⟩, true⟩], none⟩ :=
  cacheHeader_perm (List.Perm.swap _ _ _) none

def batchOf (elements : List (List UpstreamResponse)) : BatchResponse :=
  .batch (elements.map fun responses => { cacheControl := controlOf responses, isOk := true })

theorem merged_neverWeaker {elements : List (List UpstreamResponse)}
    (h : ∀ responses ∈ elements, NeverWeaker (said responses) (controlOf responses).value) :
    NeverWeaker (said elements.flatten) ((batchOf elements).cacheControl none).value := by
  have hfold (merged : CacheControl) (policies : List CachePolicy) (hge : -1 ≤ merged.maxAge)
      (hmerged : NeverWeaker policies merged.value) :
      NeverWeaker (policies ++ said elements.flatten)
        ((elements.map controlOf).foldl CacheControl.merge merged).value := by
    induction elements generalizing merged policies with
    | nil =>
      rw [List.flatten_nil, said, List.filterMap_nil, List.append_nil]
      exact hmerged
    | cons responses elements ih =>
      obtain ⟨hfirst, hrest⟩ := List.forall_mem_cons.mp h
      have hgeR := controlOf_ge responses
      have hstep : NeverWeaker (policies ++ said responses) (merged.merge (controlOf responses)).value :=
        (hmerged.merge hge hgeR).append (merge_comm _ _ ▸ hfirst.merge hgeR hge)
      have hwhole := ih hrest (merged.merge (controlOf responses)) _ (mergeAge_ge hge hgeR) hstep
      rw [List.flatten_cons, said, List.filterMap_append, ← List.append_assoc]
      exact hwhole
  have hinitial : NeverWeaker [] CacheControl.initial.value := ⟨nofun, nofun, nofun⟩
  have hwhole := hfold .initial [] (by decide) hinitial
  rw [List.nil_append, List.foldl_map] at hwhole
  rw [batchOf, BatchResponse.cacheControl, List.foldl_map]
  exact hwhole

/-- The header is never weaker than what the upstreams said exactly when they said nothing that restricts, or the
answer is without errors and a `no-cache`, or no unheeded `no-store` or age of 0, is among their policies. -/
theorem cacheHeader_iff (responses : List UpstreamResponse) (answer : BatchResponse) :
    (NeverWeaker (said responses) (executeQuery true responses answer) ↔
      (∀ policy ∈ said responses, Unrestricted policy) ∨
        (answer.isOk = true ∧ answer ≠ .batch []) ∧ Covered responses) ∧
    (∀ responses', responses.Perm responses' →
      executeQuery true responses' answer = executeQuery true responses answer) ∧
    ∀ elements : List (List UpstreamResponse),
      (∀ element ∈ elements, NeverWeaker (said element) (controlOf element).value) →
        NeverWeaker (said elements.flatten) ((batchOf elements).cacheControl none).value := by
  refine ⟨?_, fun responses' hperm => ?_, fun elements => merged_neverWeaker⟩
  · rw [executeQuery_eq]
    by_cases hemits : answer.isOk = true ∧ answer ≠ .batch []
    · rw [if_pos hemits, controlOf_neverWeaker_iff]
      exact ⟨fun hcovered => .inr ⟨hemits, hcovered⟩, fun h => h.elim covered_of_unrestricted And.right⟩
    · rw [if_neg hemits, neverWeaker_none_iff]
      exact ⟨.inl, fun h => h.resolve_right fun hand => hemits hand.1⟩
  · have hcontrol : controlOf responses' = controlOf responses := by
      rw [controlOf, controlOf, received_perm hperm]
    rw [executeQuery_eq, executeQuery_eq, hcontrol]

theorem not_stored_weakened : ¬NeverWeaker
    (said [{ success := true, policy := some { cachability := none, maxAge := some 3600, noStore := true } }])
    (executeQuery true
      [{ success := true, policy := some { cachability := none, maxAge := some 3600, noStore := true } }]
      (.single { cacheControl := .initial, isOk := true })) := by
  intro h
  rw [executeQuery_eq, if_pos (by decide), controlOf_neverWeaker_iff] at h
  obtain ⟨policy, hpolicy, hno⟩ | hreused := h.2
  · rw [List.mem_singleton.mp hpolicy] at hno
    cases hno
  · exact (hreused _ (List.mem_singleton_self _)).1 (.inr (.inl rfl))

end Gqlforge.CacheHeaders
