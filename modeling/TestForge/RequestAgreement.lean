import TestForge.HeadGrammar
import TestForge.RequestTarget

/-! What the server makes of the bytes the client writes for a generated test. Method, path and
query are those of the spec exactly when no blank and no line feed is in the target; the body
is the one sent exactly when the written headers announce it. -/
namespace TestForge

open Sequence Strings Chunked HttpClient HttpServer Settings

/-! ### The request line -/

theorem prefix_fresh (c : UInt8) (text before after : Bytes) (fresh : c ∉ text) (pre : text <+: before ++ c :: after) :
    text <+: before := by
  have marked : before ++ [c] <+: before ++ c :: after := ⟨after,by simp⟩
  rcases List.prefix_or_prefix_of_prefix pre marked with short | long
  · rcases List.prefix_concat_iff.mp short with whole | inside
    · exact absurd (by simp [whole]) fresh
    · exact inside
  · exact absurd (long.subset (by simp)) fresh

theorem split_first (text : Bytes) (c : UInt8) (front : text.head? ≠ some c) (named : text ≠ []) :
    ∃ word words, Strings.split text c true = word :: words ∧ word <+: text ∧ c ∉ word ∧
      (c ∉ text → word = text ∧ words = []) := by
  cases found : cut c text with
  | none =>
    have fresh := (cut_eq_none c text).mp found
    refine ⟨text,[],?_,List.prefix_rfl,fresh,fun _ => ⟨rfl,rfl⟩⟩
    simp [Strings.split,List.splitOn_eq_singleton fresh,named]
  | some parts =>
    obtain ⟨whole,fresh⟩ := (cut_eq_some c text _ _).mp found
    have word : parts.1 ≠ [] := by
      intro empty
      rw [whole,empty] at front
      exact front rfl
    refine ⟨parts.1,(parts.2.splitOn c).filter (· ≠ []),?_,⟨c :: parts.2,whole.symm⟩,fresh,fun absent => ?_⟩
    · rw [Strings.split,if_pos rfl,whole,List.splitOn_append_cons_self,List.splitOn_eq_singleton fresh]
      simp [word]
    · exact absurd (by rw [whole]; simp) absent

theorem split_behind (before after : Bytes) (c : UInt8) (fresh : c ∉ before) (named : before ≠ []) :
    Strings.split (before ++ c :: after) c true = before :: Strings.split after c true := by
  simp [Strings.split,List.splitOn_append_cons_self,List.splitOn_eq_singleton fresh,named]

theorem parseRequestLine_words (line method target : Bytes) (words : List Bytes)
    (split : Strings.split line 32 true = method :: target :: words) : parseRequestLine line =
      some { method := toUpper method, path := urlDecode (targetParts target).1, query := (targetParts target).2 } := by
  rw [parseRequestLine,split]
  rfl

/-- Whatever beginning of a request line the server reads, it finds a beginning of the target. -/
theorem parseRequestLine_prefix (line method target rest : Bytes) (front : ServerRequest) (named : method ≠ [])
    (word : 32 ∉ method) (rooted : target.head? = some 47) (pre : line <+: method ++ 32 :: (target ++ 32 :: rest))
    (parsed : parseRequestLine line = some front) : ∃ seen, seen <+: target ∧ 32 ∉ seen ∧ seen ⊆ line ∧
      front.path = urlDecode (targetParts seen).1 ∧ front.query = (targetParts seen).2 := by
  by_cases blank : 32 ∈ line
  · obtain ⟨text,rfl,inside⟩ : ∃ text, line = method ++ 32 :: text ∧ text <+: target ++ 32 :: rest := by
      have marked : method ++ [32] <+: method ++ 32 :: (target ++ 32 :: rest) := ⟨target ++ 32 :: rest,by simp⟩
      rcases List.prefix_or_prefix_of_prefix pre marked with short | long
      · rcases List.prefix_concat_iff.mp short with whole | early
        · exact ⟨[],by simp [whole],List.nil_prefix⟩
        · exact absurd (early.subset blank) word
      · obtain ⟨text,rfl⟩ := long
        exact ⟨text,by simp,by simpa using pre⟩
    cases text with
    | nil =>
      rw [parseRequestLine,split_behind method [] 32 word named] at parsed
      cases parsed
    | cons c text =>
      have first : (c :: text).head? ≠ some 32 := by
        obtain ⟨tail,rfl⟩ := List.head?_eq_some_iff.mp rooted
        obtain rfl := (List.cons_prefix_cons.mp inside).1
        simp
      obtain ⟨seen,words,split,front',fresh,-⟩ := split_first (c :: text) 32 first (by simp)
      have words : Strings.split (method ++ 32 :: c :: text) 32 true = method :: seen :: words := by
        rw [split_behind method _ 32 word named,split]
      rw [parseRequestLine_words _ _ _ _ words] at parsed
      cases parsed
      refine ⟨seen,prefix_fresh 32 seen target rest fresh (front'.trans inside),fresh,?_,rfl,rfl⟩
      exact fun x member => by simp [front'.subset member]
  · rw [parseRequestLine,Strings.split,if_pos rfl,List.splitOn_eq_singleton blank] at parsed
    cases line with
    | nil => cases parsed
    | cons c line => cases parsed

theorem parseRequestLine_line (method target rest : Bytes) (named : method ≠ []) (word : 32 ∉ method)
    (rooted : target.head? = some 47) (fresh : 32 ∉ target) :
    parseRequestLine (method ++ 32 :: (target ++ 32 :: rest)) =
      some { method := toUpper method, path := urlDecode (targetParts target).1, query := (targetParts target).2 } := by
  have filled : target ≠ [] := by
    intro empty
    simp [empty] at rooted
  exact parseRequestLine_words _ _ _ _ (by rw [split_behind method _ 32 word named,split_behind target rest 32 fresh filled])

theorem stripCarriageReturn_prefix (line : Bytes) : stripCarriageReturn line <+: line := by
  rw [stripCarriageReturn]
  split
  · exact List.dropLast_prefix line
  · exact List.prefix_rfl

theorem splitLines_first (text first : Bytes) (lines : List Bytes) (split : splitLines text = first :: lines) :
    first <+: text ∧ 10 ∉ first := by
  obtain ⟨line,more,cuts,pre,fresh⟩ : ∃ line more, text.splitOn 10 = line :: more ∧ line <+: text ∧ 10 ∉ line := by
    cases found : cut 10 text with
    | none =>
      have absent := (cut_eq_none 10 text).mp found
      exact ⟨text,[],List.splitOn_eq_singleton absent,List.prefix_rfl,absent⟩
    | some parts =>
      obtain ⟨whole,absent⟩ := (cut_eq_some 10 text _ _).mp found
      refine ⟨parts.1,parts.2.splitOn 10,?_,⟨10 :: parts.2,whole.symm⟩,absent⟩
      rw [whole,List.splitOn_append_cons_self,List.splitOn_eq_singleton absent]
      rfl
  have head : first = stripCarriageReturn line := by
    simp only [splitLines,Strings.split,cuts,Bool.false_eq_true,if_false,List.map_cons] at split
    split at split
    · cases more with
      | nil => cases split
      | cons other more => exact (List.cons.inj split).1.symm
    · exact (List.cons.inj split).1.symm
  rw [head]
  have part := stripCarriageReturn_prefix line
  exact ⟨part.trans pre,fun member => fresh (part.subset member)⟩

/-! ### The written request -/

/-- The fields that are found in written headers up to their first blank line, and what stands
behind it. -/
def readBack (headers : HttpHeaders) (body : Bytes) : Option (HttpHeaders × Bytes) :=
  (cutOn headEnd (crlf ++ headers.items.flatMap headerLine ++ crlf ++ body)).map fun parts =>
    (parseHeaderLines (headLines (parts.1.drop 2)),parts.2)

/-- The headers announce the body to whoever reads them back, within a limit. -/
def Announced (limit : Int) (headers : HttpHeaders) (body : Bytes) : Prop :=
  ∀ fields behind, readBack headers body = some (fields,behind) → unsupportedEncoding fields = false ∧
    (contentLength fields : Int) ≤ limit ∧ behind.take (contentLength fields) = body

/-- A line without a line feed holds no beginning of the blank line. -/
theorem cutOn_headEnd_line (line more : Bytes) (fresh : 10 ∉ line) :
    cutOn headEnd (line ++ (crlf ++ more)) = (cutOn headEnd (crlf ++ more)).map fun parts => (line ++ parts.1,parts.2) := by
  refine cutOn_append_right headEnd line (crlf ++ more) fun early shorter pre => ?_
  have feed : (line ++ (crlf ++ more))[early.length + 1]? = some 10 := by
    have inside := List.prefix_iff_getElem?.mp pre (early.length + 1) (by simp [headEnd,crlf])
    rw [inside,← List.getElem?_eq_getElem]
    simp [headEnd,crlf]
  by_cases within : early.length + 1 < line.length
  · rw [List.getElem?_append_left within] at feed
    exact fresh (List.mem_of_getElem? feed)
  · have edge : early.length + 1 = line.length := by omega
    rw [edge,List.getElem?_append_right (Nat.le_refl _)] at feed
    simp [crlf] at feed

theorem requestOf_clean (line : Bytes) (headers : HttpHeaders) (body head behind : Bytes) (named : line ≠ [])
    (fresh : 10 ∉ line) (last : line.getLast? ≠ some 13)
    (cuts : cutOn headEnd (line ++ (crlf ++ (headers.items.flatMap headerLine ++ crlf ++ body))) = some (head,behind)) :
    ∃ fields, readBack headers body = some (fields,behind) ∧
      requestOf head = (parseRequestLine line).map fun request => { request with headers := fields } := by
  rw [cutOn_headEnd_line line _ fresh] at cuts
  obtain ⟨⟨lines,tail⟩,found,same⟩ := Option.map_eq_some_iff.mp cuts
  obtain ⟨rfl,rfl⟩ := Prod.mk.inj same
  have read : readBack headers body = some (parseHeaderLines (headLines (lines.drop 2)),tail) := by
    have whole : crlf ++ headers.items.flatMap headerLine ++ crlf ++ body =
        crlf ++ (headers.items.flatMap headerLine ++ crlf ++ body) := by simp
    rw [readBack,whole,found]
    rfl
  refine ⟨_,read,?_⟩
  have alone : headLines line = [line] := by
    simp [headLines,Strings.split,List.splitOn_eq_singleton fresh,stripCarriageReturn,last]
  have returned : headLines (line ++ [13]) = [line] := by
    have feed : (10 : UInt8) ∉ line ++ [13] := by simp [fresh]
    simp [headLines,Strings.split,List.splitOn_eq_singleton feed,stripCarriageReturn_return]
  obtain ⟨rest,split,fields⟩ : ∃ rest, headLines (line ++ lines) = line :: rest ∧
      parseHeaderLines rest = parseHeaderLines (headLines (lines.drop 2)) := by
    rcases cutOn_crlf _ lines tail found with rfl | ⟨inner,rfl⟩
    · exact ⟨[],by rw [List.append_nil]; exact alone,by decide⟩
    · refine ⟨headLines inner,?_,rfl⟩
      rw [← List.append_assoc,headLines_append,returned]
      rfl
  obtain ⟨others,lines',same⟩ := splitLines_headLines _ line rest split (.inl named)
  rw [requestOf,lines',← fields]
  simp only [parseHeaderLines,same]

/-! ### The first request of a spec -/

/-- The first hop of a generated test. -/
def firstHop (config : ApiConfig) (network : Nat → Exchange) (spec : TestSpec) : Option Hop :=
  match SpecTestCase.execute config network spec with
  | .ok (hops,_) => hops.head?
  | .error _ => none

/-- The server takes what arrives as a request of this method, target and body. -/
def Sees (server : ServerConfig) (clientAddress : Bytes) (pieces : List Bytes) (method target body : Bytes) : Prop :=
  ∃ request, receiveRequest server clientAddress pieces = .ok request ∧ request.method = method ∧
    request.path = urlDecode (targetParts target).1 ∧ request.query = (targetParts target).2 ∧ request.body = body

theorem buildRequest_parts (spec : TestSpec) (joined : Bytes) : (SpecTestCase.buildRequest spec joined).url = joined ∧
    (SpecTestCase.buildRequest spec joined).method = spec.method ∧
      (SpecTestCase.buildRequest spec joined).body = if spec.body.isNull then [] else spec.body.dump := by
  rw [SpecTestCase.buildRequest]
  split <;> exact ⟨rfl,rfl,rfl⟩

/-- The first hop serves the spec's request at the joined URL. -/
theorem firstHop_request (config : ApiConfig) (network : Nat → Exchange) (spec : TestSpec) (hop : Hop)
    (rooted : spec.endpoint.head? = some 47) (first : firstHop config network spec = some hop) :
    ∃ joined, hop.request = SpecTestCase.buildRequest spec joined ∧ joinUrl config.baseUrl spec.endpoint = some joined ∧
      parseUrl joined = some hop.url ∧ (optionsFrom config).policy.reject hop.url = [] ∧
        ∀ headers, hop.sent = some headers → headers = mergedHeaders (optionsFrom config) hop.request hop.url := by
  obtain ⟨rest,equal⟩ := List.head?_eq_some_iff.mp rooted
  have remote : ¬(startsWith spec.endpoint (ascii "http://") || startsWith spec.endpoint (ascii "https://")) = true := by
    simp [equal,startsWith,ascii]
  rw [firstHop,SpecTestCase.execute,ApiClient.resolve,if_neg remote] at first
  cases joined : joinUrl config.baseUrl spec.endpoint with
  | none => simp [joined] at first
  | some url =>
    simp only [joined] at first
    obtain ⟨served,parsed⟩ := (perform_chain _ _ _ _ _).1 hop first
    obtain ⟨_,admitted,written⟩ := perform_hops _ _ _ _ _ hop (List.mem_of_mem_head? first)
    rw [(buildRequest_parts spec url).1] at parsed
    exact ⟨url,served,rfl,parsed,admitted,fun headers sent => (written headers sent).2⟩

theorem firstHop_method (config : ApiConfig) (network : Nat → Exchange) (spec : TestSpec) (hop : Hop)
    (rooted : spec.endpoint.head? = some 47) (first : firstHop config network spec = some hop) :
    hop.request.method = spec.method := by
  obtain ⟨joined,served,_⟩ := firstHop_request config network spec hop rooted first
  rw [served,(buildRequest_parts spec joined).2.1]

theorem firstHop_target (config : ApiConfig) (network : Nat → Exchange) (spec : TestSpec) (home : Url) (hop : Hop)
    (parsed : parseUrl config.baseUrl = some home) (rooted : spec.endpoint.head? = some 47)
    (clean : SpecValidator.hasControlCharacter spec.endpoint = false)
    (first : firstHop config network spec = some hop) :
    hop.url.WellFormed ∧ hop.url.requestTarget <+: spec.target home ∧
      (32 ∉ spec.target home → (hop.url.path,hop.url.query) = targetParts (spec.target home)) := by
  obtain ⟨joined,-,result,reparsed,-⟩ := firstHop_request config network spec hop rooted first
  obtain ⟨other,also,text⟩ := joinUrl_printed config.baseUrl spec.endpoint joined rooted result
  obtain rfl : home = other := Option.some.inj (parsed.symm.trans also)
  rw [text] at reparsed
  obtain ⟨target,pre,parts,same⟩ := joined_target home hop.url (parseUrl_wellFormed _ home parsed) spec.endpoint
    rooted clean reparsed
  have valid := parseUrl_wellFormed _ hop.url reparsed
  refine ⟨valid,?_,fun blank => parts.trans (same blank)⟩
  have shown : hop.url.requestTarget = printed target := by
    rw [valid.requestTarget_eq,printed,← parts]
  rw [shown]
  exact (printed_begins target).trans pre

theorem maxRequest_nonneg (server : ServerConfig) (nonneg : 0 ≤ server.maxRequestBytes.toInt) :
    (maxRequest server : Int) = server.maxRequestBytes.toInt := by
  rw [maxRequest,Int64.toNat_toUInt64_of_le (Int64.le_iff_toInt_le.mpr (by simpa using nonneg)),Int64.toNatClampNeg]
  exact Int.toNat_of_nonneg nonneg

/-- A request that fits into the limit is taken by its head alone. -/
theorem receiveRequest_fits (server : ServerConfig) (clientAddress : Bytes) (pieces : List Bytes) (request : Inbound)
    (fits : (pieces.flatten.length : Int) ≤ server.maxRequestBytes.toInt) :
    receiveRequest server clientAddress pieces = .ok request ↔ ∃ head behind front,
      cutOn headEnd pieces.flatten = some (head,behind) ∧ requestOf head = some front ∧
        unsupportedEncoding front.headers = false ∧ (contentLength front.headers : Int) ≤ server.maxRequestBytes.toInt ∧
          request = front.received clientAddress behind := by
  rw [receiveRequest_ok]
  constructor
  · rintro ⟨front,behind,⟨head,-,cuts,line,supported,bounded⟩,same⟩
    exact ⟨head,behind,front,cuts,line,supported,bounded,same⟩
  · rintro ⟨head,behind,front,cuts,line,supported,bounded,same⟩
    have limit := maxRequest_nonneg server (by omega)
    exact ⟨front,behind,⟨head,⟨pieces,[],behind,by simp,by omega,cuts⟩,cuts,line,supported,bounded⟩,same⟩

theorem allowed_method {method : Bytes} (allowed : method ∈ SpecValidator.allowedMethods) :
    method ≠ [] ∧ 32 ∉ method ∧ 10 ∉ method ∧ toUpper method = method := by
  revert method
  decide

theorem wire_line (request : HttpRequest) (url : Url) (headers : HttpHeaders) :
    wire request url headers = request.method ++ 32 :: (url.requestTarget ++ 32 :: ascii "HTTP/1.1") ++
      (crlf ++ (headers.items.flatMap headerLine ++ crlf ++ request.body)) := by
  simp [wire,requestLine,ascii]

theorem line_last (method target : Bytes) : (method ++ 32 :: (target ++ 32 :: ascii "HTTP/1.1")).getLast? ≠ some 13 := by
  have ends : method ++ 32 :: (target ++ 32 :: ascii "HTTP/1.1") =
      method ++ 32 :: (target ++ 32 :: ascii "HTTP/1.") ++ [49] := by simp [ascii]
  rw [ends,List.getLast?_concat]
  decide

/-- Whatever the server reads as a target of these bytes, it is a beginning of the written one
without blanks and line feeds. -/
theorem requestOf_seen (method target rest more head : Bytes) (front : ServerRequest) (named : method ≠ [])
    (word : 32 ∉ method) (rooted : target.head? = some 47)
    (pre : head <+: method ++ 32 :: (target ++ 32 :: rest) ++ more) (line : requestOf head = some front) :
    ∃ seen, seen <+: target ∧ (∀ c ∈ seen, ¬endsTarget c) ∧
      front.path = urlDecode (targetParts seen).1 ∧ front.query = (targetParts seen).2 := by
  rw [requestOf] at line
  split at line
  · cases line
  · next first lines split =>
    obtain ⟨request,parsed,rfl⟩ := Option.map_eq_some_iff.mp line
    obtain ⟨part,feed⟩ := splitLines_first head first lines split
    have inside := part.trans pre
    rw [List.append_assoc,List.cons_append,List.append_assoc,List.cons_append] at inside
    obtain ⟨seen,begins,blank,within,path,query⟩ :=
      parseRequestLine_prefix first method target (rest ++ more) request named word rooted inside parsed
    refine ⟨seen,begins,fun c member ends => ?_,path,query⟩
    rcases ends with rfl | rfl
    · exact blank member
    · exact feed (within member)

/-- A request line without marks in its target is read as it was written. -/
theorem requestOf_written (method : Bytes) (named : method ≠ []) (word : 32 ∉ method) (feed : 10 ∉ method) (url : Url)
    (valid : url.WellFormed) (plain : ∀ c ∈ url.requestTarget, ¬endsTarget c) (headers : HttpHeaders)
    (body head behind : Bytes) (cuts : cutOn headEnd (method ++ 32 :: (url.requestTarget ++ 32 :: ascii "HTTP/1.1") ++
      (crlf ++ (headers.items.flatMap headerLine ++ crlf ++ body))) = some (head,behind)) : ∃ fields,
    readBack headers body = some (fields,behind) ∧ requestOf head = some {
      method := toUpper method, path := urlDecode (targetParts url.requestTarget).1
      query := (targetParts url.requestTarget).2, headers := fields } := by
  have blank : 32 ∉ url.requestTarget := fun member => plain 32 member (.inl rfl)
  have lineFeed : 10 ∉ url.requestTarget := fun member => plain 10 member (.inr rfl)
  obtain ⟨fields,found,line⟩ := requestOf_clean _ headers body head behind (by simp)
    (by simp [feed,lineFeed,ascii]) (line_last method url.requestTarget) cuts
  rw [parseRequestLine_line method _ _ named word valid.target_rooted blank] at line
  exact ⟨fields,found,by rw [line]; rfl⟩

/-- Of a target with a mark no beginning without one has the parts. -/
theorem plain_of_parts (target seen : Bytes) (inside : seen <+: target) (marks : ∀ c ∈ seen, ¬endsTarget c)
    (path : urlDecode (targetParts seen).1 = urlDecode (targetParts target).1)
    (query : (targetParts seen).2 = (targetParts target).2) : ∀ c ∈ target, ¬endsTarget c := by
  intro c member ends
  obtain ⟨shown,tail,split,fresh⟩ : ∃ shown tail, target = shown ++ c :: tail ∧ c ∉ shown := by
    cases found : cut c target with
    | none => exact absurd member ((cut_eq_none c _).mp found)
    | some parts => exact ⟨parts.1,parts.2,(cut_eq_some c _ _ _).mp found⟩
  rw [split] at inside path query
  have short := prefix_fresh c seen shown tail (fun present => marks c present ends) inside
  exact targetParts_apart c seen shown tail ends fresh short ⟨path,query⟩

theorem written_ends (line : Bytes) (headers : HttpHeaders) (body : Bytes) : ∃ parts,
    cutOn headEnd (line ++ (crlf ++ (headers.items.flatMap headerLine ++ crlf ++ body))) = some parts := by
  refine Option.ne_none_iff_exists'.mp ((cutOn_eq_none headEnd _).not.mpr (not_not.mpr ?_))
  obtain ⟨before,ends⟩ := items_end headers.items
  refine ⟨line ++ before,body,?_⟩
  rw [← List.append_assoc crlf,← List.append_assoc crlf,ends]
  simp [headEnd]

/-- Client and server agree on the first request of an accepted spec exactly when its target
holds no blank and no line feed, and the written headers announce its body. -/
theorem sees_iff_announced (validator : SpecValidator) (config : ApiConfig) (spec : TestSpec) (home : Url)
    (parsed : parseUrl config.baseUrl = some home) (accepted : validator.Accepts spec) (network : Nat → Exchange)
    (hop : Hop) (first : firstHop config network spec = some hop) (headers : HttpHeaders) (server : ServerConfig)
    (clientAddress : Bytes) (pieces : List Bytes) (arrives : pieces.flatten = wire hop.request hop.url headers)
    (fits : ((wire hop.request hop.url headers).length : Int) ≤ server.maxRequestBytes.toInt) :
    Sees server clientAddress pieces spec.method (spec.target home) hop.request.body ↔
      (∀ c ∈ spec.target home, ¬endsTarget c) ∧ Announced server.maxRequestBytes.toInt headers hop.request.body := by
  obtain ⟨-,clean,rooted,-⟩ := SpecValidator.isSafeEndpoint_ok accepted.endpoint.1
  obtain ⟨valid,begins,parts⟩ := firstHop_target config network spec home hop parsed rooted clean first
  obtain ⟨named,word,feed,upper⟩ := allowed_method accepted.method
  have text := wire_line hop.request hop.url headers
  rw [firstHop_method config network spec hop rooted first] at text
  have taken (request : Inbound) := receiveRequest_fits server clientAddress pieces request (by rw [arrives]; exact fits)
  rw [← arrives] at text
  have whole (plain : ∀ c ∈ spec.target home, ¬endsTarget c) (head behind : Bytes)
      (cuts : cutOn headEnd pieces.flatten = some (head,behind)) : ∃ fields,
        readBack headers hop.request.body = some (fields,behind) ∧ requestOf head = some {
          method := spec.method, path := urlDecode (targetParts (spec.target home)).1
          query := (targetParts (spec.target home)).2, headers := fields } := by
    have split : targetParts hop.url.requestTarget = targetParts (spec.target home) :=
      valid.cut_target.trans (parts fun member => plain 32 member (.inl rfl))
    rw [text] at cuts
    obtain ⟨fields,found,line⟩ := requestOf_written spec.method named word feed hop.url valid
      (fun c member => plain c (begins.subset member)) headers hop.request.body head behind cuts
    exact ⟨fields,found,by rw [line,upper,split]⟩
  constructor
  · rintro ⟨request,received,-,path,query,body⟩
    obtain ⟨head,behind,front,cuts,line,supported,bounded,rfl⟩ := (taken request).mp received
    have pre : head <+: pieces.flatten :=
      ⟨headEnd ++ behind,by rw [← List.append_assoc]; exact (cutOn_split _ _ _ _ cuts).symm⟩
    rw [text] at pre
    obtain ⟨seen,inside,marks,seenPath,seenQuery⟩ :=
      requestOf_seen _ _ _ _ head front named word valid.target_rooted pre line
    have plain := plain_of_parts (spec.target home) seen (inside.trans begins) marks (seenPath.symm.trans path)
      (seenQuery.symm.trans query)
    refine ⟨plain,fun fields tail found => ?_⟩
    obtain ⟨others,also,shape⟩ := whole plain head behind cuts
    obtain ⟨rfl,rfl⟩ : others = fields ∧ behind = tail := by simpa using also.symm.trans found
    obtain rfl := Option.some.inj (shape.symm.trans line)
    exact ⟨supported,bounded,body⟩
  · rintro ⟨plain,announced⟩
    obtain ⟨⟨head,behind⟩,cuts⟩ := written_ends (spec.method ++ 32 :: (hop.url.requestTarget ++ 32 :: ascii "HTTP/1.1"))
      headers hop.request.body
    rw [← text] at cuts
    obtain ⟨others,also,shape⟩ := whole plain head behind cuts
    obtain ⟨supported,bounded,body⟩ := announced others behind also
    exact ⟨_,(taken _).mpr ⟨head,behind,_,cuts,shape,supported,bounded,rfl⟩,rfl,rfl,rfl,body⟩

end TestForge
