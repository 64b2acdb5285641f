import TestForge.SpecSmuggling

/-! The gate for spec headers holds exactly for the specs whose header names are
read back as they were checked. -/
namespace TestForge

open Json Sequence Strings Chunked HttpHeaders HttpClient HttpServer

/-- The headers the client sets by itself. -/
def ownHeaders (options : HttpClientOptions) (request : HttpRequest) (url : Url) : List (Bytes × Bytes) :=
  [(ascii "Host",url.authority),(ascii "User-Agent",options.userAgent),(ascii "Accept",ascii "*/*"),
    (ascii "Connection",ascii "close"),(ascii "Content-Length",decimal request.body.length)]

/-- What the merge of defaults and request has and the client's own headers keep, the
written headers have. -/
theorem mergedHeaders_invariant (options : HttpClientOptions) (request : HttpRequest) (url : Url)
    (Q : HttpHeaders → Prop) (start : Q (options.defaultHeaders.merge request.headers))
    (kept : ∀ headers, ∀ item ∈ ownHeaders options request url, Q headers →
      Q (headers.set item.1 item.2)) : Q (mergedHeaders options request url) := by
  have kept (item : Bytes × Bytes) (mine : item ∈ ownHeaders options request url)
      (headers : HttpHeaders) (held : Q headers) : Q (headers.set item.1 item.2) :=
    kept headers item mine held
  simp only [ownHeaders] at kept
  have settle (name value : Bytes) (mine : ∀ headers, Q headers → Q (headers.set name value))
      (headers : HttpHeaders) (held : Q headers) :
      Q (if headers.contains name then headers else headers.set name value) := by
    split
    · exact held
    · exact mine headers held
  have host := kept (ascii "Host",url.authority) (by simp) _ start
  have agent := settle _ _ (kept (ascii "User-Agent",options.userAgent) (by simp)) _ host
  have accept := settle _ _ (kept (ascii "Accept",ascii "*/*") (by simp)) _ agent
  have connection := kept (ascii "Connection",ascii "close") (by simp) _ accept
  simp only [mergedHeaders]
  split
  · exact kept (ascii "Content-Length",decimal request.body.length) (by simp) _ connection
  · exact connection

theorem mergedHeaders_forall (options : HttpClientOptions) (request : HttpRequest) (url : Url)
    (P : Bytes × Bytes → Prop) (defaults : ∀ item ∈ options.defaultHeaders.items, P item)
    (own : ∀ item ∈ ownHeaders options request url, P item)
    (supplied : ∀ item ∈ request.headers.items, P item) :
    ∀ item ∈ (mergedHeaders options request url).items, P item :=
  mergedHeaders_invariant options request url (fun headers => ∀ item ∈ headers.items, P item)
    (merge_forall _ _ P defaults supplied)
    fun headers item mine held => set_forall headers item.1 item.2 P held (own item mine)

theorem mergedHeaders_distinct (options : HttpClientOptions) (request : HttpRequest) (url : Url)
    (distinct : options.defaultHeaders.Distinct) : (mergedHeaders options request url).Distinct :=
  mergedHeaders_invariant options request url Distinct (merge_distinct _ _ distinct)
    fun headers item _ held => set_distinct headers item.1 item.2 held

theorem mergedHeaders_contains (options : HttpClientOptions) (request : HttpRequest) (url : Url)
    (name : Bytes) (present : request.headers.contains name = true) :
    (mergedHeaders options request url).contains name = true :=
  mergedHeaders_invariant options request url (fun headers => headers.contains name = true)
    ((contains_merge _ _ _).mpr (.inr present))
    fun headers item _ held => (contains_set headers item.1 item.2 name).mpr (.inl held)

theorem stringHeaders_invariant (members : List (Bytes × Value)) (Q : HttpHeaders → Prop)
    (start : Q {}) (kept : ∀ headers, ∀ header ∈ members, ∀ value ∈ header.2.asString?, Q headers →
      Q (headers.set header.1 value)) : Q (stringHeaders members) := by
  suffices general : ∀ headers, Q headers → Q (members.foldl setString headers) from general {} start
  induction members with
  | nil => exact fun headers held => held
  | cons first rest ih =>
    intro headers held
    refine ih (fun headers header member => kept headers header (by simp [member])) _ ?_
    unfold setString
    split
    · next value text => exact kept headers first (by simp) value text held
    · exact held

theorem stringHeaders_forall (members : List (Bytes × Value)) (P : Bytes × Bytes → Prop)
    (all : ∀ header ∈ members, ∀ value ∈ header.2.asString?, P (header.1,value)) :
    ∀ item ∈ (stringHeaders members).items, P item :=
  stringHeaders_invariant members (fun headers => ∀ item ∈ headers.items, P item) (by simp)
    fun headers header member value text held =>
      set_forall headers _ _ P held (all header member value text)

theorem stringHeaders_contains (members : List (Bytes × Value)) (header : Bytes × Value)
    (member : header ∈ members) (text : header.2.asString?.isSome) :
    (stringHeaders members).contains header.1 = true := by
  suffices general : ∀ headers : HttpHeaders, (headers.contains header.1 = true ∨ header ∈ members) →
      (members.foldl setString headers).contains header.1 = true from general {} (.inr member)
  clear member
  induction members with
  | nil => simp
  | cons first rest ih =>
    intro headers found
    have carried (held : headers.contains header.1 = true) :
        (setString headers first).contains header.1 = true := by
      unfold setString
      split
      · exact (contains_set _ _ _ _).mpr (.inl held)
      · exact held
    refine ih _ ?_
    rcases found with held | member
    · exact .inl (carried held)
    · rcases List.mem_cons.mp member with rfl | member
      · obtain ⟨value,equal⟩ := Option.isSome_iff_exists.mp text
        left
        simp only [setString,equal]
        exact (contains_set _ _ _ _).mpr (.inr rfl)
      · exact .inr member

/-- A configuration whose base is a bare host. -/
def plainConfig : ApiConfig := { baseUrl := ascii "http://h" }

theorem perform_first (options : HttpClientOptions) (network : Nat → Exchange) (remaining count : Nat)
    (request : HttpRequest) (hop : Hop)
    (made : (performOnce options (network count) request).1 = some hop) :
    ∃ later, (perform options network remaining count request).1 = hop :: later := by
  cases remaining with
  | zero => exact ⟨[],by simp [perform,made]⟩
  | succ remaining =>
    unfold perform
    simp only [made]
    split
    · exact ⟨[],rfl⟩
    · exact ⟨_,rfl⟩

theorem performOnce_h (request : HttpRequest) (url : Url) (parsed : parseUrl request.url = some url)
    (scheme : url.scheme = ascii "http") (host : url.host = ascii "h") :
    (performOnce (optionsFrom plainConfig) {} request).1 =
      some { request, url, sent := some (mergedHeaders (optionsFrom plainConfig) request url) } := by
  have admitted : (optionsFrom plainConfig).policy.reject url = [] := by
    have policy : (optionsFrom plainConfig).policy = { allowedHosts := [ascii "h"] } := by
      simp only [optionsFrom,UrlPolicy.restrictedTo,plainConfig,
        show parseUrl (ascii "http://h") = some { scheme := ascii "http", host := ascii "h", port := 80 } by decide]
    simp [policy,UrlPolicy.reject,scheme,host]
  have plain : url.isHttps = false := by rw [Url.isHttps,scheme]; decide
  simp [performOnce,parsed,admitted,plain]

theorem seenFields_plain (spec : TestSpec) (joined : Bytes) (url : Url)
    (resolved : ApiClient.resolve plainConfig.baseUrl spec.endpoint = .ok joined)
    (parsed : parseUrl joined = some url) (scheme : url.scheme = ascii "http")
    (host : url.host = ascii "h") :
    ∃ later, seenFields plainConfig (fun _ => {}) spec = .ok (forbiddenFields
      (wire (SpecTestCase.buildRequest spec joined) url (mergedHeaders (optionsFrom plainConfig)
        (SpecTestCase.buildRequest spec joined) url)) :: later) := by
  have target : (SpecTestCase.buildRequest spec joined).url = joined := by
    unfold SpecTestCase.buildRequest
    split <;> rfl
  obtain ⟨later,hops⟩ := perform_first (optionsFrom plainConfig) (fun _ => {}) 5 0
    (SpecTestCase.buildRequest spec joined) _
    (performOnce_h _ url (by rw [target]; exact parsed) scheme host)
  refine ⟨later.map hopFields,?_⟩
  have sent : (send (optionsFrom plainConfig) (fun _ => {})
      (SpecTestCase.buildRequest spec joined)).1 = _ := hops
  simp only [seenFields,SpecTestCase.execute,resolved,Except.map,sent]
  rfl

/-- The header called `name`, ignoring case, is "a" on the left and "b" on the right. -/
def Marked (name : Bytes) (x y : Bytes × Bytes) : Prop :=
  x.1 = y.1 ∧ if toLower x.1 = name then x.2 = ascii "a" ∧ y.2 = ascii "b" else x = y

/-- A name that passes the gate and is read back as forbidden is none of the client's own. -/
theorem own_names_differ (name : Bytes) (hidden : fieldName name ∈ SpecValidator.forbiddenHeaders)
    (passed : name ∉ SpecValidator.forbiddenHeaders) :
    ∀ own ∈ [ascii "Host",ascii "User-Agent",ascii "Accept",ascii "Connection",
      ascii "Content-Length",ascii "Content-Type"], toLower own ≠ name := by
  have known : ∀ own ∈ [ascii "Host",ascii "User-Agent",ascii "Accept",ascii "Connection",
      ascii "Content-Length",ascii "Content-Type"], toLower own ∈ SpecValidator.forbiddenHeaders ∨
        fieldName (toLower own) ∉ SpecValidator.forbiddenHeaders := by decide
  rintro own member rfl
  exact (known own member).elim passed fun clean => clean hidden

theorem marked_relation (name : Bytes) (hidden : fieldName name ∈ SpecValidator.forbiddenHeaders)
    (passed : name ∉ SpecValidator.forbiddenHeaders) : ItemRelation (Marked name) where
  names := fun _ _ marked => marked.1
  own := fun own member _ => ⟨rfl,by rw [if_neg (own_names_differ name hidden passed own member)]⟩

theorem marked_equal (name : Bytes) (left right : List (Bytes × Bytes))
    (marked : List.Forall₂ (Marked name) left right)
    (others : ∀ item ∈ right, toLower item.1 ≠ name) : left = right := by
  induction marked with
  | nil => rfl
  | @cons x y _ _ head _ ih =>
    have differs : toLower x.1 ≠ name := by rw [head.1]; exact others y (by simp)
    have equal : x = y := by simpa [differs] using head.2
    rw [equal,ih fun item member => others item (by simp [member])]

theorem replaceValue_marked (name : Bytes) (spec : TestSpec) :
    (stringHeaders (replaceValue name (ascii "a") spec).headers).Related (Marked name)
      (stringHeaders (replaceValue name (ascii "b") spec).headers) := by
  apply stringHeaders_related fun _ _ marked => marked.1
  simp only [replaceValue]
  rw [List.forall₂_map_left_iff,List.forall₂_map_right_iff,List.forall₂_same]
  intro header _
  by_cases replaced : toLower header.1 = name ∧ header.2.asString?.isSome
  · right
    rw [if_pos replaced,if_pos replaced]
    exact ⟨ascii "a",ascii "b",rfl,rfl,rfl,by rw [if_pos replaced.1]; exact ⟨rfl,rfl⟩⟩
  · rw [if_neg replaced,if_neg replaced]
    cases text : header.2.asString? with
    | none => exact .inl ⟨rfl,rfl⟩
    | some value =>
      have differs : toLower header.1 ≠ name := fun same => replaced ⟨same,by simp [text]⟩
      exact .inr ⟨value,value,rfl,rfl,rfl,by rw [if_neg differs]⟩

/-- Two collections that differ in one marked header, and that header's neighbours. -/
theorem marked_split (name : Bytes) (left right : HttpHeaders) (marked : left.Related (Marked name) right)
    (distinct : right.Distinct) (item : Bytes × Bytes) (member : item ∈ right.items)
    (named : toLower item.1 = name) :
    ∃ before after, left.items = before ++ (item.1,ascii "a") :: after ∧
      right.items = before ++ (item.1,ascii "b") :: after := by
  obtain ⟨before,after,split⟩ := List.append_of_mem member
  rw [HttpHeaders.Distinct,split,List.pairwise_append] at distinct
  obtain ⟨_,behind,across⟩ := distinct
  have beforeOthers : ∀ other ∈ before, toLower other.1 ≠ name :=
    fun other found => named ▸ across other found item (by simp)
  have afterOthers : ∀ other ∈ after, toLower other.1 ≠ name :=
    fun other found => named ▸ ((List.pairwise_cons.mp behind).1 other found).symm
  rw [Related,split] at marked
  have front := marked_equal name _ _ (List.forall₂_take_append _ _ _ marked) beforeOthers
  obtain ⟨x,rest,head,tail,dropped⟩ := List.forall₂_cons_right_iff.mp
    (List.forall₂_drop_append _ _ _ marked)
  have back := marked_equal name _ _ tail afterOthers
  have values : x.2 = ascii "a" ∧ item.2 = ascii "b" := by
    have mine : toLower x.1 = name := by rw [head.1,named]
    simpa [mine] using head.2
  refine ⟨before,after,?_,?_⟩
  · rw [← List.take_append_drop before.length left.items,front,dropped,back]
    rw [show x = (item.1,ascii "a") from Prod.ext head.1 values.1]
  · rw [split,show item = (item.1,ascii "b") from Prod.ext rfl values.2]

theorem parseRequestLine_accepted (method target : Bytes) (allowed : method ∈ SpecValidator.allowedMethods) :
    (parseRequestLine (method ++ 32 :: target ++ ascii " HTTP/1.1")).isSome := by
  have first : ∀ method ∈ SpecValidator.allowedMethods, (method.splitOn 32).filter (· ≠ []) = [method] := by
    decide
  have line : method ++ 32 :: target ++ ascii " HTTP/1.1" =
      method ++ 32 :: (target ++ 32 :: ascii "HTTP/1.1") := by simp [ascii]
  have last : ((ascii "HTTP/1.1").splitOn 32).filter (· ≠ []) = [ascii "HTTP/1.1"] := by decide
  have parts : split (method ++ 32 :: target ++ ascii " HTTP/1.1") 32 true =
      method :: ((target.splitOn 32).filter (· ≠ []) ++ [ascii "HTTP/1.1"]) := by
    rw [line]
    simp only [split,↓reduceIte,List.splitOn_append_cons_self,List.filter_append,first method allowed,
      last,List.singleton_append]
  rw [parseRequestLine,parts]
  cases (target.splitOn 32).filter (· ≠ []) <;> rfl

theorem plain_line_of_clean (line : Bytes) (nonempty : line ≠ [])
    (clean : ∀ c ∈ line, SpecValidator.isControl c = false) : PlainLine line :=
  ⟨nonempty,fun member => absurd (clean 13 member) (by decide),
    fun member => absurd (clean 10 member) (by decide)⟩

theorem decimal_clean (n : Nat) : SpecValidator.hasControlCharacter (decimal n) = false := by
  simp only [SpecValidator.hasControlCharacter,List.any_eq_false]
  intro c member
  obtain ⟨low,high⟩ := digit_range c (isDigit_decimal n c member)
  simp only [SpecValidator.isControl,Bool.or_eq_true,decide_eq_true_eq,beq_iff_eq]
  grind

theorem mergedHeaders_plain (validator : SpecValidator) (spec : TestSpec)
    (accepted : validator.Accepts spec) (joined : Bytes) (url : Url) (authority : url.authority = ascii "h") :
    ∀ item ∈ (mergedHeaders (optionsFrom plainConfig) (SpecTestCase.buildRequest spec joined) url).items,
      PlainLine (itemLine item) := by
  apply mergedHeaders_forall
  · simp [optionsFrom,plainConfig,stringHeaders]
  · intro item member
    simp only [ownHeaders,List.mem_cons,List.not_mem_nil,or_false] at member
    rcases member with rfl | rfl | rfl | rfl | rfl
    · exact plain_item _ _ (by decide) (by rw [authority]; decide)
    · exact plain_item _ _ (by decide) (by decide)
    · exact plain_item _ _ (by decide) (by decide)
    · exact plain_item _ _ (by decide) (by decide)
    · exact plain_item _ _ (by decide) (decimal_clean _)
  · have strings := stringHeaders_forall spec.headers (fun item => PlainLine (itemLine item))
      fun header member value text =>
        have checked := accepted.header header member
        plain_item _ _ checked.2.1 (checked.2.2 value text)
    unfold SpecTestCase.buildRequest
    split
    · exact strings
    · simp only
      split
      · exact strings
      · exact set_forall _ _ _ _ strings (plain_item _ _ (by decide) (by decide))

/-- Two plain requests that differ in the value of one header with a hidden name are
told apart under the forbidden names. -/
theorem forbiddenFields_differ (request body name : Bytes) (before after : List (Bytes × Bytes))
    (requestPlain : PlainLine request) (parses : (parseRequestLine request).isSome)
    (beforePlain : ∀ item ∈ before, PlainLine (itemLine item))
    (hidden : toLower (fieldName name) ∈ SpecValidator.forbiddenHeaders)
    (plainA : PlainLine (itemLine (name,ascii "a"))) (plainB : PlainLine (itemLine (name,ascii "b"))) :
    forbiddenFields (request ++ crlf ++ (before ++ (name,ascii "a") :: after).flatMap headerLine ++ crlf ++ body) ≠
      forbiddenFields (request ++ crlf ++ (before ++ (name,ascii "b") :: after).flatMap headerLine ++ crlf ++ body) := by
  obtain ⟨longer,text,clean,firstLine⟩ := clean_items request before (clean_request request requestPlain)
    beforePlain
  obtain ⟨ending,endingEq⟩ := items_end after
  have ends : headEnd <:+: crlf ++ (after.flatMap headerLine ++ crlf ++ body) := by
    have whole : ending ++ headEnd ++ body = crlf ++ after.flatMap headerLine ++ (crlf ++ body) := by
      rw [endingEq]
      simp only [headEnd,List.append_assoc]
    exact ⟨ending,body,by rw [whole]; simp only [List.append_assoc]⟩
  obtain ⟨first,pre,post,firstEq,parsed⟩ := parseHead_line longer _ clean ends
  have shape (value : Bytes) : request ++ crlf ++ (before ++ (name,value) :: after).flatMap headerLine ++
      crlf ++ body = longer ++ crlf ++ itemLine (name,value) ++ crlf ++
        (after.flatMap headerLine ++ crlf ++ body) := by
    rw [← text]
    simp only [List.flatMap_append,List.flatMap_cons,headerLine_eq,List.append_assoc]
  obtain ⟨read,readEq⟩ : ∃ read, parseRequestLine first = some read := by
    have same : first = request := by
      rw [firstLine,requestPlain.headLines_return] at firstEq
      simpa using firstEq.symm
    exact Option.isSome_iff_exists.mp (same ▸ parses)
  obtain ⟨front,field⟩ := parseHeaderLine_item name
  rw [shape,shape]
  simp only [forbiddenFields,parsed _ plainA,parsed _ plainB,readEq,field,Option.map_some]
  intro same
  obtain ⟨keptA,endA⟩ := trim_concat front 97 (by decide)
  obtain ⟨keptB,endB⟩ := trim_concat front 98 (by decide)
  simp [List.filter_append,forbidden,hidden,show ascii "a" = [97] from rfl,
    show ascii "b" = [98] from rfl,endA,endB] at same

/-- Joining an accepted endpoint to the plain base gives a clean request to host "h". -/
theorem plain_target (endpoint : Bytes) (safe : SpecValidator.isSafeEndpoint endpoint = .ok ()) :
    ∃ joined url, ApiClient.resolve plainConfig.baseUrl endpoint = .ok joined ∧
      parseUrl joined = some url ∧ url.scheme = ascii "http" ∧ url.host = ascii "h" ∧
      url.authority = ascii "h" ∧ ∀ c ∈ url.requestTarget, SpecValidator.isControl c = false := by
  obtain ⟨-,control,rooted,-,dots,-⟩ := SpecValidator.isSafeEndpoint_ok safe
  obtain ⟨rest,rfl⟩ := List.head?_eq_some_iff.mp rooted
  obtain ⟨more,joined,moreSubset⟩ := joinUrl_h rest dots
  obtain ⟨url,parsed,scheme,host,authority,target⟩ := parseUrl_h more
  refine ⟨_,url,?_,parsed,scheme,host,authority,?_⟩
  · have web : startsWith (47 :: rest) (ascii "http://") = false ∧
        startsWith (47 :: rest) (ascii "https://") = false := ⟨rfl,rfl⟩
    simp [ApiClient.resolve,plainConfig,web,joined]
  · intro c member
    have control : ∀ c ∈ 47 :: rest, SpecValidator.isControl c = false := by
      simpa [SpecValidator.hasControlCharacter] using control
    have source : c = 47 ∨ c = 63 ∨ c ∈ rest := by
      have found := target member
      simp only [List.mem_cons] at found
      rcases found with rfl | rfl | found
      · exact .inl rfl
      · exact .inr (.inl rfl)
      · exact .inr (by simpa using moreSubset found)
    rcases source with rfl | rfl | found
    · decide
    · decide
    · exact control c (by simp [found])

theorem buildRequest_contains (spec : TestSpec) (joined name : Bytes)
    (held : (stringHeaders spec.headers).contains name = true) :
    (SpecTestCase.buildRequest spec joined).headers.contains name = true := by
  unfold SpecTestCase.buildRequest
  split
  · exact held
  · simp only
    split
    · exact held
    · exact (contains_set _ _ _ _).mpr (.inl held)

theorem plain_requestLine (validator : SpecValidator) (spec : TestSpec) (accepted : validator.Accepts spec) (target : Bytes)
    (clean : ∀ c ∈ target, SpecValidator.isControl c = false) :
    PlainLine (spec.method ++ 32 :: target ++ ascii " HTTP/1.1") := by
  have methods : ∀ method ∈ SpecValidator.allowedMethods, ∀ c ∈ method,
      SpecValidator.isControl c = false := by decide +kernel
  have version : ∀ c ∈ ascii " HTTP/1.1", SpecValidator.isControl c = false := by decide +kernel
  refine plain_line_of_clean _ (by simp) fun c found => ?_
  simp only [List.mem_append,List.mem_cons] at found
  rcases found with (found | rfl | found) | found
  · exact methods _ accepted.method c found
  · decide
  · exact clean c found
  · exact version c found

/-- A spec whose values cannot reach a forbidden name has no name that is read back as one. -/
theorem names_of_gateHolds (validator : SpecValidator) (spec : TestSpec)
    (accepted : validator.Accepts spec) (holds : GateHolds validator spec) : NamesReadBack spec := by
  intro header member text hidden
  have passed := (accepted.header header member).1
  generalize named : toLower header.1 = name at passed
  have hiddenName : fieldName name ∈ SpecValidator.forbiddenHeaders := by
    rwa [← named,← toLower_fieldName]
  have relation := marked_relation name hiddenName passed
  have acceptedA := replaceValue_accepted validator name (ascii "a") spec (by decide) (by decide) accepted
  have acceptedB := replaceValue_accepted validator name (ascii "b") spec (by decide) (by decide) accepted
  obtain ⟨joined,url,resolved,parsed,scheme,host,authority,clean⟩ :=
    plain_target spec.endpoint accepted.endpoint.1
  obtain ⟨laterA,seenA⟩ := seenFields_plain (replaceValue name (ascii "a") spec) joined url resolved
    parsed scheme host
  obtain ⟨laterB,seenB⟩ := seenFields_plain (replaceValue name (ascii "b") spec) joined url resolved
    parsed scheme host
  have same := (holds plainConfig (fun _ => {}) _ acceptedA (replaceValue_shape _ _ _)).trans
    (holds plainConfig (fun _ => {}) _ acceptedB (replaceValue_shape _ _ _)).symm
  rw [seenA,seenB] at same
  simp only [Except.ok.injEq,List.cons.injEq] at same
  have requests := buildRequest_related relation (replaceValue name (ascii "a") spec)
    (replaceValue name (ascii "b") spec) joined rfl (replaceValue_marked name spec)
  have merged := mergedHeaders_related relation (optionsFrom plainConfig) url .nil requests
  have present : (mergedHeaders (optionsFrom plainConfig)
      (SpecTestCase.buildRequest (replaceValue name (ascii "b") spec) joined) url).contains
        header.1 = true := by
    apply mergedHeaders_contains
    exact buildRequest_contains _ joined header.1 (stringHeaders_contains _ (header.1,.string (ascii "b"))
      (List.mem_map.mpr ⟨header,member,if_pos ⟨named,text⟩⟩) rfl)
  obtain ⟨item,found,itemName⟩ := (HttpHeaders.contains_iff _ _).mp present
  obtain ⟨before,after,itemsA,itemsB⟩ := marked_split name _ _ merged
    (mergedHeaders_distinct _ _ _ List.Pairwise.nil) item found (itemName.trans named)
  have plainA := mergedHeaders_plain validator _ acceptedA joined url authority
  have plainB := mergedHeaders_plain validator _ acceptedB joined url authority
  rw [itemsA] at plainA
  rw [itemsB] at plainB
  have itemHidden : toLower (fieldName item.1) ∈ SpecValidator.forbiddenHeaders := by
    rwa [toLower_fieldName,itemName,named]
  have method (value : Bytes) :
      (SpecTestCase.buildRequest (replaceValue name value spec) joined).method = spec.method := by
    unfold SpecTestCase.buildRequest
    split <;> rfl
  have requestPlain := plain_requestLine validator spec accepted url.requestTarget clean
  have differ := forbiddenFields_differ _ (SpecTestCase.buildRequest (replaceValue name (ascii "b") spec)
    joined).body item.1 before after requestPlain
    (parseRequestLine_accepted spec.method url.requestTarget accepted.method)
    (fun other inside => plainA other (by simp [inside])) itemHidden (plainA _ (by simp))
    (plainB _ (by simp))
  apply differ
  have wires := same.1
  simp only [wire,requestLine,method,requests.body,itemsA,itemsB] at wires
  exact wires

/-- The gate holds exactly for the accepted specs without a name that is read back as
a forbidden one. -/
theorem gateHolds_iff_names (validator : SpecValidator) (spec : TestSpec)
    (accepted : validator.Accepts spec) : GateHolds validator spec ↔ NamesReadBack spec :=
  ⟨names_of_gateHolds validator spec accepted,gateHolds_of_names validator spec accepted⟩

/-- A spec whose header name is a credential and the beginning of its value. -/
def smuggledToken : TestSpec where
  name := ascii "t"
  endpoint := ascii "/"
  headers := [(ascii "Authorization: Bearer t",.string (ascii "x"))]

def localValidator : SpecValidator := { baseUrl := ascii "http://h" }

theorem smuggledToken_gate : localValidator.Accepts smuggledToken ∧
    (GateHolds localValidator smuggledToken ↔ NamesReadBack smuggledToken) :=
  ⟨⟨0,by decide⟩,gateHolds_iff_names localValidator smuggledToken ⟨0,by decide⟩⟩

/-- The server reads the smuggled field as "Authorization". -/
theorem smuggledToken_passes : localValidator.Accepts smuggledToken ∧
    (seenFields plainConfig (fun _ => {}) smuggledToken).toOption =
      some [some [(ascii "Authorization",ascii "Bearer t: x"),(ascii "Host",ascii "h"),
        (ascii "Connection",ascii "close")]] ∧
    ¬GateHolds localValidator smuggledToken := by
  refine ⟨⟨0,by decide +kernel⟩,by decide +kernel,fun holds => ?_⟩
  have same := congrArg Except.toOption (holds plainConfig (fun _ => {})
    { smuggledToken with headers := [(ascii "Authorization: Bearer t",.string (ascii "y"))] }
    ⟨0,by decide⟩ ⟨rfl,.cons ⟨rfl,.inr ⟨rfl,rfl⟩⟩ .nil⟩)
  revert same
  decide +kernel

end TestForge
