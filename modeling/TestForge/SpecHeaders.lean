import TestForge.RequestRelation

/-! Which header fields of a generated test's requests can depend on the values the
test chose. The validator compares whole names; the server cuts a line at its first
':' and trims, so a name can pass the first and be read as another by the second. -/
namespace TestForge

open Json Sequence Strings Chunked HttpHeaders HttpClient HttpServer

def forbidden (field : Bytes × Bytes) : Bool := toLower field.1 ∈ SpecValidator.forbiddenHeaders

/-- The fields with forbidden names that the header grammar finds in a request. -/
def forbiddenFields (raw : Bytes) : Option (List (Bytes × Bytes)) :=
  (parseHead raw).map fun request => request.headers.items.filter forbidden

def hopFields (hop : Hop) : Option (List (Bytes × Bytes)) :=
  hop.sent.bind fun headers => forbiddenFields (wire hop.request hop.url headers)

/-- What a receiver sees under forbidden names, hop by hop, when a spec runs. -/
def seenFields (config : ApiConfig) (network : Nat → Exchange) (spec : TestSpec) :
    Except Bytes (List (Option (List (Bytes × Bytes)))) :=
  (SpecTestCase.execute config network spec).map fun run => run.1.map hopFields

/-- The same header, up to the text of a string value. -/
def SameHeader (a b : Bytes × Value) : Prop :=
  a.1 = b.1 ∧ (a = b ∨ (a.2.asString?.isSome ∧ b.2.asString?.isSome))

/-- Two specs that differ in the string values of their headers only. -/
structure SameShape (spec other : TestSpec) : Prop where
  rest : other = { spec with headers := other.headers }
  headers : List.Forall₂ SameHeader spec.headers other.headers

/-- No field with a forbidden name takes its value from the spec: whatever values the
spec gives its headers, a receiver sees the same under the forbidden names. -/
def GateHolds (validator : SpecValidator) (spec : TestSpec) : Prop :=
  ∀ config network other, validator.Accepts other → SameShape spec other →
    seenFields config network other = seenFields config network spec

/-- No header that will be sent is read back under a forbidden name. -/
def NamesReadBack (spec : TestSpec) : Prop :=
  ∀ header ∈ spec.headers, header.2.asString?.isSome →
    toLower (fieldName header.1) ∉ SpecValidator.forbiddenHeaders

theorem stringHeaders_related {R : Bytes × Bytes → Bytes × Bytes → Prop}
    (names : ∀ x y, R x y → x.1 = y.1) (members others : List (Bytes × Value))
    (pairs : List.Forall₂ (fun a b => (a.2.asString? = none ∧ b.2.asString? = none) ∨
      ∃ x y, a.2.asString? = some x ∧ b.2.asString? = some y ∧ R (a.1,x) (b.1,y)) members others) :
    (stringHeaders members).Related R (stringHeaders others) := by
  suffices general : ∀ a b : HttpHeaders, a.Related R b →
      (members.foldl setString a).Related R (others.foldl setString b) from general {} {} .nil
  induction pairs with
  | nil => exact fun a b related => related
  | @cons x y _ _ head _ ih =>
    intro a b related
    refine ih _ _ ?_
    rcases head with ⟨left,right⟩ | ⟨u,v,left,right,item⟩
    · simpa only [setString,left,right] using related
    · simp only [setString,left,right]
      obtain ⟨name,_⟩ := x
      obtain ⟨_,_⟩ := y
      obtain rfl : name = _ := names _ _ item
      exact Related.set names related name u v item

theorem buildRequest_related {R : Bytes × Bytes → Bytes × Bytes → Prop} (relation : ItemRelation R)
    (spec other : TestSpec) (url : Bytes) (rest : other = { spec with headers := other.headers })
    (related : (stringHeaders spec.headers).Related R (stringHeaders other.headers)) :
    RequestRelated R (SpecTestCase.buildRequest spec url) (SpecTestCase.buildRequest other url) := by
  have method : spec.method = other.method := by rw [rest]
  have body : spec.body = other.body := by rw [rest]
  unfold SpecTestCase.buildRequest
  rw [method,body]
  split
  · exact ⟨rfl,rfl,rfl,related⟩
  · refine ⟨rfl,rfl,rfl,?_⟩
    simp only [Related.contains relation.names related]
    split
    · exact related
    · exact Related.set relation.names related _ _ _ (relation.own _ (by decide) _)

theorem forbiddenFields_line (text more : Bytes) (a b : Bytes × Bytes)
    (plainA : PlainLine (itemLine a)) (plainB : PlainLine (itemLine b))
    (cleanA : toLower (fieldName a.1) ∉ SpecValidator.forbiddenHeaders)
    (cleanB : toLower (fieldName b.1) ∉ SpecValidator.forbiddenHeaders) :
    forbiddenFields (text ++ crlf ++ itemLine a ++ crlf ++ more) =
      forbiddenFields (text ++ crlf ++ itemLine b ++ crlf ++ more) := by
  by_cases apart : headEnd <:+: text ++ crlf ∨ ¬headEnd <:+: crlf ++ more
  · obtain ⟨result,parsed⟩ := parseHead_unreached text more apart
    simp only [forbiddenFields,parsed _ plainA,parsed _ plainB]
  · obtain ⟨clean,ends⟩ := not_or.mp apart
    obtain ⟨first,before,after,_,parsed⟩ := parseHead_line text more clean (not_not.mp ends)
    have dropped (item : Bytes × Bytes)
        (name : toLower (fieldName item.1) ∉ SpecValidator.forbiddenHeaders) :
        (parseHeaderLine (itemLine item)).toList.filter forbidden = [] := by
      obtain ⟨front,read⟩ := parseHeaderLine_item item.1
      rw [read item.2]
      simp [forbidden,name]
    simp only [forbiddenFields,parsed _ plainA,parsed _ plainB,Option.map_map]
    congr 1
    funext request
    simp [List.filter_append,dropped a cleanA,dropped b cleanB]

/-- Equal, or two plain lines of one name that is not forbidden. -/
def Masked (a b : Bytes × Bytes) : Prop :=
  a = b ∨ (a.1 = b.1 ∧ toLower (fieldName a.1) ∉ SpecValidator.forbiddenHeaders ∧
    PlainLine (itemLine a) ∧ PlainLine (itemLine b))

theorem masked_relation : ItemRelation Masked where
  names := by
    rintro x y (rfl | ⟨same,_⟩)
    · rfl
    · exact same
  own := fun _ _ _ => .inl rfl

theorem forbiddenFields_masked (text more : Bytes) (as bs : List (Bytes × Bytes))
    (masked : List.Forall₂ Masked as bs) :
    forbiddenFields (text ++ crlf ++ as.flatMap headerLine ++ more) =
      forbiddenFields (text ++ crlf ++ bs.flatMap headerLine ++ more) := by
  induction masked generalizing text with
  | nil => rfl
  | @cons a b as bs head _ ih =>
    have tail := ih (text ++ crlf ++ itemLine b)
    simp only [List.flatMap_cons,headerLine_eq,List.append_assoc] at tail ⊢
    rw [← tail]
    rcases head with rfl | ⟨same,clean,plainA,plainB⟩
    · rfl
    · have line := forbiddenFields_line text (as.flatMap headerLine ++ more) a b plainA plainB clean
        (same ▸ clean)
      simpa only [List.append_assoc] using line

theorem hopFields_masked {x y : Hop} (related : HopRelated Masked x y) :
    hopFields x = hopFields y := by
  have request : requestLine x.request x.url = requestLine y.request y.url := by
    rw [requestLine,requestLine,related.request.method,related.url]
  unfold hopFields
  have sent := related.sent
  generalize x.sent = left at sent
  generalize y.sent = right at sent
  cases sent with
  | none => rfl
  | @some a b items =>
    have same := forbiddenFields_masked
      (y.request.method ++ 32 :: y.url.requestTarget ++ ascii " HTTP/1.1") (crlf ++ y.request.body)
      a.items b.items items
    simp only [Option.bind_some,wire,request,related.request.body]
    rw [requestLine]
    simpa only [List.append_assoc] using same

theorem plain_item (name value : Bytes) (cleanName : SpecValidator.hasControlCharacter name = false)
    (cleanValue : SpecValidator.hasControlCharacter value = false) : PlainLine (itemLine (name,value)) := by
  have absent (c : UInt8) (control : SpecValidator.isControl c = true) : c ∉ itemLine (name,value) := by
    simp only [SpecValidator.hasControlCharacter,List.any_eq_false] at cleanName cleanValue
    simp only [itemLine,List.mem_append,not_or]
    refine ⟨⟨fun member => cleanName c member control,?_⟩,fun member => cleanValue c member control⟩
    intro member
    have marks : c = 58 ∨ c = 32 := by simpa [ascii] using member
    rcases marks with rfl | rfl <;> simp [SpecValidator.isControl] at control
  exact ⟨by simp [itemLine,ascii],absent 13 (by decide),absent 10 (by decide)⟩

theorem gateHolds_of_names (validator : SpecValidator) (spec : TestSpec)
    (accepted : validator.Accepts spec) (names : NamesReadBack spec) : GateHolds validator spec := by
  intro config network other also shape
  have pairs : List.Forall₂ (fun a b : Bytes × Value =>
      (a.2.asString? = none ∧ b.2.asString? = none) ∨
        ∃ x y, a.2.asString? = some x ∧ b.2.asString? = some y ∧ Masked (a.1,x) (b.1,y))
      spec.headers other.headers := by
    have zipped := List.forall₂_iff_zip.mp shape.headers
    refine List.forall₂_iff_zip.mpr ⟨zipped.1,fun {a b} member => ?_⟩
    obtain ⟨memberA,memberB⟩ := List.of_mem_zip member
    obtain ⟨same,values⟩ := zipped.2 member
    obtain ⟨_,nameClean,valueA⟩ := accepted.header a memberA
    obtain ⟨_,_,valueB⟩ := also.header b memberB
    cases textA : a.2.asString? with
    | none =>
      rcases values with rfl | ⟨text,_⟩
      · exact .inl ⟨rfl,textA⟩
      · simp [textA] at text
    | some x =>
      right
      obtain ⟨y,textB⟩ : ∃ y, b.2.asString? = some y := by
        rcases values with rfl | ⟨_,text⟩
        · exact ⟨x,textA⟩
        · exact Option.isSome_iff_exists.mp text
      refine ⟨x,y,rfl,textB,.inr ⟨same,names a memberA (by simp [textA]),?_,?_⟩⟩
      · exact plain_item a.1 x nameClean (valueA x textA)
      · exact same ▸ plain_item a.1 y nameClean (valueB y textB)
  have endpoint : other.endpoint = spec.endpoint := by rw [shape.rest]
  unfold seenFields SpecTestCase.execute
  rw [endpoint]
  cases ApiClient.resolve config.baseUrl spec.endpoint with
  | error message => rfl
  | ok url =>
    have requests := buildRequest_related masked_relation spec other url shape.rest
      (stringHeaders_related masked_relation.names _ _ pairs)
    have defaults : (optionsFrom config).defaultHeaders.Related Masked
        (optionsFrom config).defaultHeaders :=
      List.forall₂_same.mpr fun _ _ => .inl rfl
    have hops := perform_related masked_relation (optionsFrom config) network defaults
      (optionsFrom config).maxRedirects.toNat 0 requests
    simp only [Except.map,HttpClient.send]
    congr 1
    generalize (perform (optionsFrom config) network _ 0 (SpecTestCase.buildRequest spec url)).1 = left at hops
    generalize (perform (optionsFrom config) network _ 0 (SpecTestCase.buildRequest other url)).1 = right at hops
    induction hops with
    | nil => rfl
    | cons head _ ih => simp only [List.map_cons,ih,hopFields_masked head]

end TestForge
