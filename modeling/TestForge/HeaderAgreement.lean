import TestForge.RequestAgreement
import TestForge.ResponseAgreement
import TestForge.SpecGate

/-! When the headers of a generated test announce its body, by the names and the values that the spec and the
configuration give them. -/
namespace TestForge

open Json Sequence Strings Chunked HttpClient HttpServer Settings

/-! ### Headers as they are read -/

/-- A header without line ends. -/
structure OneLine (item : Bytes × Bytes) : Prop where
  name : 13 ∉ item.1 ∧ 10 ∉ item.1
  value : 13 ∉ item.2 ∧ 10 ∉ item.2

instance (item : Bytes × Bytes) : Decidable (OneLine item) :=
  decidable_of_iff ((13 ∉ item.1 ∧ 10 ∉ item.1) ∧ 13 ∉ item.2 ∧ 10 ∉ item.2)
    ⟨fun ⟨name,value⟩ => ⟨name,value⟩,fun line => ⟨line.name,line.value⟩⟩

theorem OneLine.line {item : Bytes × Bytes} (clean : OneLine item) : PlainLine (itemLine item) where
  nonempty := by simp [itemLine,ascii]
  noReturn := by simp [itemLine,ascii,clean.name.1,clean.value.1]
  noFeed := by simp [itemLine,ascii,clean.name.2,clean.value.2]

/-- The name and the value that a reader finds: the line is cut at its first colon. -/
def asRead (item : Bytes × Bytes) : Bytes × Bytes :=
  match cut 58 item.1 with
  | none => (trim item.1,trim item.2)
  | some (name,rest) => (trim name,trim (rest ++ 58 :: 32 :: item.2))

theorem asRead_name (item : Bytes × Bytes) : (asRead item).1 = fieldName item.1 := by
  rw [asRead,fieldName]
  split
  · next whole => simp [whole]
  · next parts => simp [parts]

theorem parseHeaderLine_asRead (item : Bytes × Bytes) : parseHeaderLine (itemLine item) = some (asRead item) := by
  cases found : cut 58 item.1 with
  | none =>
    have fresh := (cut_eq_none 58 item.1).mp found
    have line : itemLine item = item.1 ++ 58 :: 32 :: item.2 := by simp [itemLine,ascii]
    rw [line,parseHeaderLine,cut_append 58 item.1 _ fresh]
    simp only [Option.map_some,trim_blank,asRead,found]
  | some parts =>
    obtain ⟨before,after⟩ := parts
    obtain ⟨split,fresh⟩ := (cut_eq_some 58 item.1 before after).mp found
    have line : itemLine item = before ++ 58 :: (after ++ 58 :: 32 :: item.2) := by simp [itemLine,ascii,split]
    rw [line,parseHeaderLine,cut_append 58 before _ fresh]
    simp only [Option.map_some,asRead,found]

theorem PlainField.asRead {item : Bytes × Bytes} (plain : PlainField item) : asRead item = item := by
  have whole := (cut_eq_none 58 item.1).mpr plain.nameColon
  simp only [TestForge.asRead,whole,plain.nameTrimmed,plain.valueTrimmed]

/-- What a reader finds of headers. -/
def HttpHeaders.asRead (headers : HttpHeaders) : HttpHeaders := ⟨headers.items.map TestForge.asRead⟩

theorem readBack_asRead (headers : HttpHeaders) (body : Bytes) (clean : ∀ item ∈ headers.items, OneLine item) :
    readBack headers body = some (headers.asRead,body) := by
  have lines : ∀ item ∈ headers.items, PlainLine (itemLine item) := fun item member => (clean item member).line
  have parsed : (headers.items.map itemLine).filterMap parseHeaderLine = headers.asRead.items := by
    rw [List.filterMap_map,HttpHeaders.asRead,← List.filterMap_eq_map]
    exact List.filterMap_congr fun item _ => parseHeaderLine_asRead item
  have cuts := cutOn_head [] headers.items body (by decide) lines
  have fields : parseHeaderLines (headLines ((headers.items.flatMap fun item => crlf ++ itemLine item).drop 2)) =
      headers.asRead := by
    cases shape : headers.items with
    | nil =>
      have empty : headers = ⟨[]⟩ := by rw [← shape]
      rw [empty]
      decide
    | cons item rest =>
      rw [shape] at lines
      have behind : ((item :: rest).flatMap fun item => crlf ++ itemLine item).drop 2 =
          itemLine item ++ rest.flatMap fun item => crlf ++ itemLine item := by simp [crlf]
      rw [behind,headLines_head (itemLine item) rest (lines item (by simp)) fun other member => lines other (by simp [member]),
        ← List.map_cons,← shape,parseHeaderLines,parsed]
  simp only [List.nil_append] at cuts
  simp only [readBack,cuts,Option.map_some,fields]

theorem readBack_plain (headers : HttpHeaders) (body : Bytes) (plain : headers.Plain) :
    readBack headers body = some (headers,body) := by
  have same : headers.asRead = headers := by
    have items : headers.items.map asRead = headers.items := by
      conv_rhs => rw [← List.map_id headers.items]
      exact List.map_congr_left fun item member => (plain item member).asRead
    rw [HttpHeaders.asRead,items]
  rw [readBack_asRead headers body fun item member => ⟨(plain item member).nameLine,(plain item member).valueLine⟩,same]

/-- Headers on lines of their own announce the body by what is found of them. -/
theorem announced_asRead (limit : Int) (headers : HttpHeaders) (body : Bytes)
    (clean : ∀ item ∈ headers.items, OneLine item) : Announced limit headers body ↔
      unsupportedEncoding headers.asRead = false ∧ (contentLength headers.asRead : Int) ≤ limit ∧
        body.length ≤ contentLength headers.asRead := by
  rw [Announced,readBack_asRead headers body clean]
  simp only [Option.some.injEq,Prod.mk.injEq,and_imp]
  constructor
  · intro announced
    obtain ⟨supported,bounded,whole⟩ := announced _ _ rfl rfl
    refine ⟨supported,bounded,?_⟩
    have length := congrArg List.length whole
    rw [List.length_take] at length
    omega
  · rintro ⟨supported,bounded,short⟩ _ _ rfl rfl
    exact ⟨supported,bounded,List.take_of_length_le short⟩

/-! ### What the client merges -/

theorem asRead_apart (item : Bytes × Bytes) (name other : Bytes) (same : toLower item.1 = toLower name)
    (apart : toLower (fieldName name) ≠ toLower other) : equalsIgnoreCase (asRead item).1 other = false := by
  rw [Bool.eq_false_iff,ne_eq,equalsIgnoreCase_iff,asRead_name,toLower_fieldName,same,← toLower_fieldName]
  exact apart

namespace HttpHeaders

section

variable (P : Bytes × Bytes → Bool) (name : Bytes) (missed : ∀ item, toLower item.1 = toLower name → P item = false)
include missed

theorem find_remove (headers : HttpHeaders) : (headers.remove name).items.find? P = headers.items.find? P := by
  have kept (item : Bytes × Bytes) : decide ((!equalsIgnoreCase item.1 name) = true ∧ P item = true) = P item := by
    cases wanted : P item with
    | false => simp
    | true =>
      have other : equalsIgnoreCase item.1 name = false := by
        rw [Bool.eq_false_iff,ne_eq,equalsIgnoreCase_iff]
        intro same
        rw [missed item same] at wanted
        cases wanted
      simp [other]
  simp only [items_remove,List.find?_filter,kept]

theorem find_set (headers : HttpHeaders) (value : Bytes) : (headers.set name value).items.find? P = headers.items.find? P := by
  simp only [set,items_add,List.find?_append,find_remove P name missed,List.find?_cons,missed (name,value) rfl,List.find?_nil,
    Option.or_none]

end

theorem get_asRead (headers : HttpHeaders) (name : Bytes) : headers.asRead.get name =
    (headers.items.find? fun item => equalsIgnoreCase (TestForge.asRead item).1 name).map
      fun item => (TestForge.asRead item).2 := by
  rw [asRead,get,List.find?_map,Option.map_map]
  rfl

end HttpHeaders

/-- The names the client sets whatever it is given. -/
def clientNames : List Bytes := [ascii "Host",ascii "User-Agent",ascii "Accept",ascii "Connection"]

/-- A request for which the client announces a length. -/
def Bodied (method body : Bytes) : Prop := body ≠ [] ∨ method ∈ [ascii "POST",ascii "PUT",ascii "PATCH"]

instance (method body : Bytes) : Decidable (Bodied method body) := inferInstanceAs (Decidable (_ ∨ _))

theorem mergedHeaders_settled (options : HttpClientOptions) (request : HttpRequest) (url : Url) :
    ∃ settled, mergedHeaders options request url = (if Bodied request.method request.body
        then settled.set (ascii "Content-Length") (decimal request.body.length) else settled) ∧
      ∀ P : Bytes × Bytes → Bool, (∀ name ∈ clientNames, ∀ item, toLower item.1 = toLower name → P item = false) →
        settled.items.find? P = (options.defaultHeaders.merge request.headers).items.find? P := by
  refine ⟨_,rfl,fun P missed => ?_⟩
  have settle (name value : Bytes) (mine : name ∈ clientNames) (headers : HttpHeaders) :
      (if headers.contains name then headers else headers.set name value).items.find? P = headers.items.find? P := by
    split
    · rfl
    · exact headers.find_set P name (missed name mine) value
  rw [HttpHeaders.find_set P _ (missed _ (by simp [clientNames])),settle _ _ (by simp [clientNames]),
    settle _ _ (by simp [clientNames]),HttpHeaders.find_set P _ (missed _ (by simp [clientNames]))]

/-! ### The headers of a spec -/

section

variable (config : ApiConfig) (spec : TestSpec)

/-- The headers that configuration and spec give to a test, the spec's in place of the configuration's. -/
def givenHeaders : HttpHeaders := (stringHeaders config.defaultHeaders).merge (stringHeaders spec.headers)

def specBody : Bytes := if spec.body.isNull then [] else spec.body.dump

/-- No given header is read as a transfer encoding. Where the client announces the length, it is not read behind a
shorter or too long one under another spelling of its name; elsewhere no length over the limit is read. -/
def FramedByNames (limit : Int) : Prop :=
  unsupportedEncoding (givenHeaders config spec).asRead = false ∧
    if Bodied spec.method (specBody spec) then
      let others := ((givenHeaders config spec).remove (ascii "Content-Length")).asRead
      others.contains (ascii "Content-Length") = true →
        (specBody spec).length ≤ contentLength others ∧ (contentLength others : Int) ≤ limit
    else (contentLength (givenHeaders config spec).asRead : Int) ≤ limit

instance (limit : Int) : Decidable (FramedByNames config spec limit) :=
  inferInstanceAs (Decidable (_ ∧ ite (Bodied _ _) (_ → _ ∧ _) _))

end

/-- The type of the body is the only header a test adds. -/
theorem buildRequest_headers (spec : TestSpec) (joined : Bytes) (options : HttpClientOptions) :
    options.defaultHeaders.merge (SpecTestCase.buildRequest spec joined).headers =
        options.defaultHeaders.merge (stringHeaders spec.headers) ∨
      options.defaultHeaders.merge (SpecTestCase.buildRequest spec joined).headers =
        (options.defaultHeaders.merge (stringHeaders spec.headers)).set (ascii "Content-Type") (ascii "application/json") := by
  rw [SpecTestCase.buildRequest]
  split
  · exact .inl rfl
  · dsimp only
    split
    · exact .inl rfl
    · next missing =>
      have untouched : (stringHeaders spec.headers).remove (ascii "Content-Type") = stringHeaders spec.headers := by
        have every : ∀ item ∈ (stringHeaders spec.headers).items, (!equalsIgnoreCase item.1 (ascii "Content-Type")) = true := by
          intro item member
          rw [Bool.not_eq_true',Bool.eq_false_iff,ne_eq,equalsIgnoreCase_iff]
          exact fun same => missing ((HttpHeaders.contains_iff _ _).mpr ⟨item,member,same⟩)
        rw [HttpHeaders.remove,List.filter_eq_self.mpr every]
      right
      rw [HttpHeaders.set,untouched,HttpHeaders.merge,HttpHeaders.items_add,List.foldl_append]
      rfl

/-- What is found of the written headers under a name the client does not set: what is found of the given ones. -/
theorem find_written (config : ApiConfig) (spec : TestSpec) (joined : Bytes) (settled : HttpHeaders)
    (same : ∀ P : Bytes × Bytes → Bool, (∀ name ∈ clientNames, ∀ item, toLower item.1 = toLower name → P item = false) →
      settled.items.find? P =
        ((optionsFrom config).defaultHeaders.merge (SpecTestCase.buildRequest spec joined).headers).items.find? P)
    (P : Bytes × Bytes → Bool) (missed : ∀ name ∈ ascii "Content-Type" :: clientNames, ∀ item,
      toLower item.1 = toLower name → P item = false) :
    settled.items.find? P = (givenHeaders config spec).items.find? P := by
  rw [same P fun name mine => missed name (List.mem_cons_of_mem _ mine)]
  rcases buildRequest_headers spec joined (optionsFrom config) with plain | typed
  · rw [plain]
    rfl
  · rw [typed,HttpHeaders.find_set P _ (missed _ List.mem_cons_self)]
    rfl

theorem contentLength_congr (one other : HttpHeaders)
    (same : one.get (ascii "Content-Length") = other.get (ascii "Content-Length")) :
    contentLength one = contentLength other := by
  rw [contentLength,contentLength,same]

/-- A length that is set is found behind the others that are read under its name. -/
theorem get_length_set (headers : HttpHeaders) (length : Nat) :
    (headers.set (ascii "Content-Length") (decimal length)).asRead.get (ascii "Content-Length") =
      ((headers.remove (ascii "Content-Length")).asRead.get (ascii "Content-Length")).or (some (decimal length)) := by
  have bare : cut 58 (ascii "Content-Length") = none ∧ trim (ascii "Content-Length") = ascii "Content-Length" := by decide
  have own : asRead (ascii "Content-Length",decimal length) = (ascii "Content-Length",decimal length) := by
    simp only [asRead,bare.1,bare.2,(number_plain length).2]
  have named : equalsIgnoreCase (ascii "Content-Length") (ascii "Content-Length") = true := by decide
  rw [HttpHeaders.set,HttpHeaders.get_asRead,HttpHeaders.get_asRead,HttpHeaders.items_add,List.find?_append,
    List.find?_cons_of_pos,
    Option.map_or,Option.map_some]
  · rw [own]
  · rw [own]
    exact named

section

variable {config : ApiConfig} {spec : TestSpec} {settled : HttpHeaders}
  (same : ∀ P : Bytes × Bytes → Bool, (∀ name ∈ ascii "Content-Type" :: clientNames, ∀ item,
    toLower item.1 = toLower name → P item = false) → settled.items.find? P = (givenHeaders config spec).items.find? P)
include same

theorem get_written (name : Bytes)
    (apart : ∀ other ∈ ascii "Content-Type" :: clientNames, toLower (fieldName other) ≠ toLower name) :
    settled.asRead.get name = (givenHeaders config spec).asRead.get name := by
  rw [HttpHeaders.get_asRead,HttpHeaders.get_asRead,same _ fun other mine item equal =>
    asRead_apart item other name equal (apart other mine)]

theorem get_others : (settled.remove (ascii "Content-Length")).asRead.get (ascii "Content-Length") =
    ((givenHeaders config spec).remove (ascii "Content-Length")).asRead.get (ascii "Content-Length") := by
  have apart : ∀ other ∈ ascii "Content-Type" :: clientNames,
      toLower (fieldName other) ≠ toLower (ascii "Content-Length") := by decide
  rw [HttpHeaders.get_asRead,HttpHeaders.get_asRead,HttpHeaders.items_remove,HttpHeaders.items_remove,List.find?_filter,
    List.find?_filter,same]
  intro other mine item equal
  simp only [asRead_apart item other _ equal (apart other mine),Bool.false_eq_true,and_false,decide_false]

/-- What the written headers announce, in terms of the given ones. -/
theorem framed_written (limit : Int) (small : (specBody spec).length < 2^63) (fits : ((specBody spec).length : Int) ≤ limit)
    (headers : HttpHeaders) (written : headers = if Bodied spec.method (specBody spec)
      then settled.set (ascii "Content-Length") (decimal (specBody spec).length) else settled) :
    (unsupportedEncoding headers.asRead = false ∧ (contentLength headers.asRead : Int) ≤ limit ∧
      (specBody spec).length ≤ contentLength headers.asRead) ↔ FramedByNames config spec limit := by
  have apart : ∀ name ∈ [ascii "Transfer-Encoding",ascii "Content-Length"], ∀ other ∈ ascii "Content-Type" :: clientNames,
      toLower (fieldName other) ≠ toLower name := by decide
  have encoding : unsupportedEncoding headers.asRead = unsupportedEncoding (givenHeaders config spec).asRead := by
    have found : headers.asRead.get (ascii "Transfer-Encoding") = settled.asRead.get (ascii "Transfer-Encoding") := by
      rw [written]
      split
      · have missed := HttpHeaders.find_set (fun item => equalsIgnoreCase (asRead item).1 (ascii "Transfer-Encoding"))
          (ascii "Content-Length") (fun item equal => asRead_apart item _ _ equal (by decide)) settled
        rw [HttpHeaders.get_asRead,HttpHeaders.get_asRead,missed]
      · rfl
    rw [unsupportedEncoding,unsupportedEncoding,found,get_written same _ (apart _ (by simp))]
  rw [FramedByNames,encoding]
  refine and_congr_right fun _ => ?_
  by_cases bodied : Bodied spec.method (specBody spec)
  · rw [if_pos bodied] at written ⊢
    have announced := get_length_set settled (specBody spec).length
    rw [← written,get_others same] at announced
    dsimp only
    cases others : ((givenHeaders config spec).remove (ascii "Content-Length")).asRead.get (ascii "Content-Length") with
    | none =>
      rw [others,Option.none_or] at announced
      have own : contentLength headers.asRead = (specBody spec).length := by
        simp [contentLength,announced,parseInt_decimal _ small]
      simp [own,fits,HttpHeaders.contains,others]
    | some value =>
      rw [others,Option.some_or] at announced
      rw [contentLength_congr headers.asRead _ (announced.trans others.symm)]
      simp [HttpHeaders.contains,others,and_comm]
  · rw [if_neg bodied] at written ⊢
    have empty : specBody spec = [] := not_not.mp fun filled => bodied (.inl filled)
    rw [written,contentLength_congr _ _ (get_written same _ (apart _ (by simp))),empty]
    simp

end

/-- The header lines of an accepted spec end where they were written to end. -/
theorem written_oneLine (validator : SpecValidator) (config : ApiConfig) (spec : TestSpec) (accepted : validator.Accepts spec)
    (defaults : ∀ header ∈ config.defaultHeaders, ∀ value ∈ header.2.asString?, OneLine (header.1,value)) (joined : Bytes)
    (url : Url) (host : OneLine (ascii "Host",url.authority)) :
    ∀ item ∈ (mergedHeaders (optionsFrom config) (SpecTestCase.buildRequest spec joined) url).items, OneLine item := by
  have absent (text : Bytes) (clean : SpecValidator.hasControlCharacter text = false) : 13 ∉ text ∧ 10 ∉ text := by
    rw [SpecValidator.hasControlCharacter,List.any_eq_false] at clean
    exact ⟨fun member => clean 13 member (by decide),fun member => clean 10 member (by decide)⟩
  have own : ∀ item ∈ (stringHeaders spec.headers).items, OneLine item := by
    refine stringHeaders_forall spec.headers OneLine fun header member value text => ?_
    obtain ⟨_,name,values⟩ := accepted.header header member
    exact ⟨absent header.1 name,absent value (values value text)⟩
  refine mergedHeaders_forall (optionsFrom config) _ url OneLine (stringHeaders_forall _ OneLine defaults) ?_ ?_
  · intro item mine
    simp only [ownHeaders,List.mem_cons,List.not_mem_nil,or_false] at mine
    rcases mine with rfl | rfl | rfl | rfl | rfl
    · exact host
    · exact ⟨by simp [ascii],by simp [optionsFrom,ascii]⟩
    · decide
    · decide
    · exact ⟨by simp [ascii],(number_plain _).1⟩
  · rw [SpecTestCase.buildRequest]
    split
    · exact own
    · dsimp only
      split
      · exact own
      · exact HttpHeaders.set_forall _ _ _ OneLine own (by decide)

/-- Client and server agree on the first request of an accepted spec exactly when its target holds no blank and no line
feed, and no header of the spec or the configuration is read as another framing of the body. -/
theorem request_agrees_iff (validator : SpecValidator) (config : ApiConfig) (spec : TestSpec) (home : Url)
    (parsed : parseUrl config.baseUrl = some home) (accepted : validator.Accepts spec)
    (host : OneLine (ascii "Host",home.authority))
    (defaults : ∀ header ∈ config.defaultHeaders, ∀ value ∈ header.2.asString?, OneLine (header.1,value))
    (network : Nat → Exchange) (hop : Hop) (first : firstHop config network spec = some hop) (headers : HttpHeaders)
    (written : hop.sent = some headers) (server : ServerConfig) (clientAddress : Bytes) (pieces : List Bytes)
    (arrives : pieces.flatten = wire hop.request hop.url headers)
    (fits : ((wire hop.request hop.url headers).length : Int) ≤ server.maxRequestBytes.toInt) :
    Sees server clientAddress pieces spec.method (spec.target home) hop.request.body ↔
      (∀ c ∈ spec.target home, ¬endsTarget c) ∧ FramedByNames config spec server.maxRequestBytes.toInt := by
  rw [sees_iff_announced validator config spec home parsed accepted network hop first headers server clientAddress pieces
    arrives fits]
  refine and_congr_right fun _ => ?_
  have rooted := (SpecValidator.isSafeEndpoint_ok accepted.endpoint.1).2.2.1
  obtain ⟨joined,served,result,reparsed,admitted,sent⟩ := firstHop_request config network spec hop rooted first
  obtain rfl := sent headers written
  have authority : hop.url.authority = home.authority := by
    obtain ⟨scheme,port,_⟩ := joined_home _ _ joined home hop.url parsed rooted result reparsed admitted
    have same := (UrlPolicy.restrictedTo_accepts _ home hop.url parsed admitted).2
    rw [(parseUrl_wellFormed _ _ reparsed).hostLowered,(parseUrl_wellFormed _ _ parsed).hostLowered] at same
    rw [Url.authority,Url.authority,scheme,port,same]
  have body : hop.request.body = specBody spec := by rw [served,(buildRequest_parts spec joined).2.2,specBody]
  have method : hop.request.method = spec.method := by rw [served,(buildRequest_parts spec joined).2.1]
  have clean := written_oneLine validator config spec accepted defaults joined hop.url (authority ▸ host)
  rw [← served] at clean
  have inside (headers : HttpHeaders) : (specBody spec).length ≤ (wire hop.request hop.url headers).length := by
    simp only [wire,List.length_append,body]
    omega
  have inside := inside (mergedHeaders (optionsFrom config) hop.request hop.url)
  have largest := server.maxRequestBytes.toInt_lt
  obtain ⟨settled,merged,same⟩ := mergedHeaders_settled (optionsFrom config) hop.request hop.url
  rw [body,method] at merged
  rw [served] at same
  rw [announced_asRead _ _ _ clean,body]
  exact framed_written (find_written config spec joined settled same) _ (by omega) (by omega) _ merged

def apiBase : ApiConfig := { baseUrl := ascii "http://h/api/" }

def apiHome : Url where
  scheme := ascii "http"
  host := ascii "h"
  port := 80
  path := ascii "/api/"

/-- The headers of a request without a body. -/
def apiHeaders : HttpHeaders := ⟨[(ascii "Host",ascii "h"),(ascii "User-Agent",ascii "TestForge/0.9 (api-test)"),
  (ascii "Accept",ascii "*/*"),(ascii "Connection",ascii "close")]⟩

def apiHop (url path query : Bytes) : Hop where
  request := { url }
  url := { apiHome with path, query }
  sent := some apiHeaders

/-- A configuration with a header that is read under a shorter name. -/
def teamBase : ApiConfig := { apiBase with defaultHeaders := [(ascii "X-Team: a",.string (ascii "b:c"))] }

def newUser : TestSpec where
  name := ascii "users"
  method := ascii "POST"
  endpoint := ascii "/users?a=1"
  headers := [(ascii "X-Trace ",.string (ascii "7"))]
  body := .array [.int 1]

def newUserHop : Hop where
  request := SpecTestCase.buildRequest newUser (ascii "http://h/api/users?a=1")
  url := { apiHome with path := ascii "/api/users", query := ascii "a=1" }
  sent := some ⟨[(ascii "X-Team: a",ascii "b:c"),(ascii "X-Trace ",ascii "7"),(ascii "Content-Type",ascii "application/json"),
    (ascii "Host",ascii "h"),(ascii "User-Agent",ascii "TestForge/0.9 (api-test)"),(ascii "Accept",ascii "*/*"),
    (ascii "Connection",ascii "close"),(ascii "Content-Length",ascii "3")]⟩

theorem request_agrees_iff_newUser : Sees {} [] [wire newUserHop.request newUserHop.url (newUserHop.sent.getD {})]
    (ascii "POST") (ascii "/api/users?a=1") (ascii "[1]") := by
  have lines : ∀ header ∈ teamBase.defaultHeaders, ∀ value ∈ header.2.asString?, OneLine (header.1,value) := by
    intro header member value text
    obtain rfl := List.mem_singleton.mp member
    obtain rfl := Option.some.inj text
    decide
  exact (request_agrees_iff (registrationValidator {} teamBase) teamBase newUser apiHome (by decide) ⟨0,by decide⟩
    (by decide) lines (fun _ => {}) newUserHop (by decide +kernel) _ rfl {} [] _ List.flatten_singleton (by decide +kernel)).mpr
      ⟨by decide +kernel,by decide +kernel⟩

/-- The validator lets a blank pass, and the server reads the target up to it. -/
theorem blank_truncates : ∃ spec : TestSpec, (registrationValidator {} apiBase).Accepts spec ∧
    ∃ hop headers, firstHop apiBase (fun _ => {}) spec = some hop ∧ hop.sent = some headers ∧
      ¬Sees {} [] [wire hop.request hop.url headers] spec.method (spec.target apiHome) hop.request.body := by
  refine ⟨{ name := ascii "users", endpoint := ascii "/a b" },⟨0,by decide⟩,
    apiHop (ascii "http://h/api/a b") (ascii "/api/a b") [],apiHeaders,by decide,rfl,?_⟩
  rintro ⟨request,received,-,path,-⟩
  have seen : (receiveRequest {} [] [wire (apiHop (ascii "http://h/api/a b") (ascii "/api/a b") []).request
      (apiHop (ascii "http://h/api/a b") (ascii "/api/a b") []).url apiHeaders]).toOption.map (·.path) =
        some (ascii "/api/a") := by decide +kernel
  rw [received] at seen
  have short : request.path = ascii "/api/a" := Option.some.inj seen
  rw [short] at path
  exact absurd path (by decide)

end TestForge
