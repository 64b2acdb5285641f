import Mathlib.Data.List.Chain
import TestForge.HttpClient

/-! Where credentials go along a redirect chain. -/
namespace TestForge.HttpClient

open Strings

namespace Hop

/-- The request written for this hop has a header of that name. -/
def Carries (hop : Hop) (name : Bytes) : Prop :=
  ∃ headers, hop.sent = some headers ∧ headers.contains name = true

end Hop

/-- No credential leaves the origin of the first URL, and none comes back once it
has been withheld. -/
structure Confined (hops : List Hop) : Prop where
  origin : ∀ first ∈ hops.head?, ∀ hop ∈ hops, sameOrigin first.url hop.url = false →
    ∀ name ∈ credentialHeaders, ¬hop.Carries name
  withheld : ∀ name ∈ credentialHeaders, hops.Pairwise fun earlier later =>
    earlier.sent.isSome → ¬earlier.Carries name → ¬later.Carries name

/-- Every request that is written goes to the origin of the first URL. -/
def StaysAtOrigin (hops : List Hop) : Prop :=
  ∀ first ∈ hops.head?, ∀ hop ∈ hops, hop.sent.isSome → sameOrigin first.url hop.url = true

def holdsCredential (headers : HttpHeaders) : Bool := credentialHeaders.any headers.contains

theorem sameOrigin_iff (url target : Url) : sameOrigin url target = true ↔
    target.scheme = url.scheme ∧ toLower target.host = toLower url.host ∧ target.port = url.port := by
  simp [sameOrigin,equalsIgnoreCase_iff,and_assoc]

@[simp] theorem sameOrigin_self (url : Url) : sameOrigin url url = true := by simp [sameOrigin_iff]

theorem sameOrigin_trans (a b c : Url) (first : sameOrigin a b = true)
    (second : sameOrigin b c = true) : sameOrigin a c = true := by
  rw [sameOrigin_iff] at first second ⊢
  exact ⟨second.1.trans first.1,second.2.1.trans first.2.1,second.2.2.trans first.2.2⟩

theorem mergedHeaders_credential (options : HttpClientOptions) (request : HttpRequest) (url : Url)
    (name : Bytes) (credential : name ∈ credentialHeaders) :
    (mergedHeaders options request url).contains name = true ↔
      options.defaultHeaders.contains name = true ∨ request.headers.contains name = true := by
  have own : ∀ own ∈ [ascii "Host",ascii "User-Agent",ascii "Accept",ascii "Connection",
      ascii "Content-Length"], toLower own ≠ toLower name := by
    revert name
    decide
  simp only [List.forall_mem_cons,List.not_mem_nil,false_imp_iff,implies_true,and_true] at own
  obtain ⟨host,agent,accept,connection,length⟩ := own
  unfold mergedHeaders
  simp only
  split_ifs <;>
    simp only [HttpHeaders.contains_set,HttpHeaders.contains_merge,host,agent,accept,connection,
      length,or_false]

theorem stripCredentials_contains (headers : HttpHeaders) (name : Bytes)
    (credential : name ∈ credentialHeaders) : (stripCredentials headers).contains name = false := by
  rw [Bool.eq_false_iff]
  simp only [credentialHeaders,List.mem_cons,List.not_mem_nil,or_false] at credential
  simp only [stripCredentials,credentialHeaders,List.foldl_cons,List.foldl_nil,ne_eq,
    HttpHeaders.contains_remove]
  rcases credential with rfl | rfl | rfl <;> simp

/-- How two consecutive hops are related. -/
structure Follows (earlier later : Hop) : Prop where
  written : earlier.sent.isSome
  credentials : ∀ name ∈ credentialHeaders, later.request.headers.contains name = true →
    sameOrigin earlier.url later.url = true ∧ earlier.request.headers.contains name = true

theorem failed_transportError (response : HttpResponse) (message : Bytes) :
    (failed response message).transportError = true := rfl

@[simp] theorem degrade_url (statusCode : Int) (request : HttpRequest) :
    (degrade statusCode request).url = request.url := by
  unfold degrade
  split <;> rfl

@[simp] theorem degrade_headers (statusCode : Int) (request : HttpRequest) :
    (degrade statusCode request).headers = request.headers := by
  unfold degrade
  split <;> rfl

@[simp] theorem redirected_url (hop : Hop) (next : Bytes) : (redirected hop next).url = next := by
  unfold redirected
  split <;> rfl

theorem redirected_headers (hop : Hop) (next : Bytes) : (redirected hop next).headers =
    if ((parseUrl next).map (sameOrigin hop.url)).getD false then hop.request.headers
    else stripCredentials hop.request.headers := by
  unfold redirected
  split <;> rfl

theorem followUp_some (options : HttpClientOptions) (hop : Hop) (response : HttpResponse)
    (next : HttpRequest) (followed : followUp options hop response = some next) :
    response.transportError = false ∧ isRedirect response.statusCode = true ∧
      ∃ location, response.headers.get (ascii "Location") = some location ∧
        redirectTarget hop.url location = some next.url ∧
        next.headers = if ((parseUrl next.url).map (sameOrigin hop.url)).getD false
          then hop.request.headers else stripCredentials hop.request.headers := by
  unfold followUp at followed
  split at followed
  · next permitted =>
    simp only [Bool.and_eq_true,Bool.not_eq_true'] at permitted
    split at followed
    · contradiction
    · contradiction
    · next location _ found =>
      simp only [Option.map_eq_some_iff] at followed
      obtain ⟨target,resolved,rfl⟩ := followed
      exact ⟨permitted.1.2,permitted.2,location,found,by simp [resolved],
        by simp [redirected_headers]⟩
  · contradiction

theorem performOnce_hop (options : HttpClientOptions) (exchange : Exchange) (request : HttpRequest)
    (hop : Hop) (made : (performOnce options exchange request).1 = some hop) :
    hop.request = request ∧ parseUrl request.url = some hop.url ∧
      options.policy.reject hop.url = [] ∧
      ∀ headers, hop.sent = some headers →
        hop.url.isHttps = false ∧ headers = mergedHeaders options request hop.url := by
  unfold performOnce at made
  split at made
  · simp at made
  next url parsed =>
    simp only at made
    split at made
    · simp at made
    next admitted =>
      have admitted : options.policy.reject url = [] := by simpa using admitted
      split at made
      · simp only [Option.some.injEq] at made
        subst made
        exact ⟨rfl,parsed,admitted,by simp⟩
      next plain =>
        have plain : url.isHttps = false := by simpa using plain
        split at made
        · simp only [Option.some.injEq] at made
          subst made
          exact ⟨rfl,parsed,admitted,by simp⟩
        · split at made
          all_goals
            simp only [Option.some.injEq] at made
            subst made
            refine ⟨rfl,parsed,admitted,?_⟩
            rintro headers sent
            exact ⟨plain,(Option.some.inj sent).symm⟩

theorem performOnce_written (options : HttpClientOptions) (exchange : Exchange)
    (request : HttpRequest) (hop : Hop) (response : HttpResponse)
    (made : performOnce options exchange request = (some hop,some response))
    (answered : response.transportError = false) : hop.sent.isSome := by
  unfold performOnce at made
  split at made
  · simp at made
  simp only at made
  split at made
  · simp at made
  split at made
  · simp only [Prod.mk.injEq,Option.some.injEq] at made
    simp [← made.2,failed_transportError] at answered
  split at made
  · simp only [Prod.mk.injEq,Option.some.injEq] at made
    simp [← made.2,failed_transportError] at answered
  · split at made
    all_goals
      simp only [Prod.mk.injEq,Option.some.injEq] at made
      simp [← made.1]

/-- A hop with the request that follows it: their origins decide which
credentials the next hop is given. -/
theorem followUp_follows (options : HttpClientOptions) (exchange : Exchange) (request : HttpRequest)
    (hop later : Hop) (response : HttpResponse)
    (made : performOnce options exchange request = (some hop,some response))
    (followed : followUp options hop response = some later.request)
    (parsed : parseUrl later.request.url = some later.url) : Follows hop later := by
  obtain ⟨answered,_,location,_,_,headers⟩ := followUp_some options hop response _ followed
  refine ⟨performOnce_written options exchange request hop response made answered,?_⟩
  intro name credential present
  rw [headers,parsed] at present
  simp only [Option.map_some,Option.getD_some] at present
  split at present
  · next same => exact ⟨same,present⟩
  · simp [stripCredentials_contains _ name credential] at present

theorem perform_chain (options : HttpClientOptions) (network : Nat → Exchange)
    (remaining count : Nat) (request : HttpRequest) :
    (∀ first ∈ (perform options network remaining count request).1.head?,
      first.request = request ∧ parseUrl request.url = some first.url) ∧
    (perform options network remaining count request).1.IsChain Follows := by
  induction remaining generalizing count request with
  | zero =>
    unfold perform
    cases made : performOnce options (network count) request with
    | mk hop response =>
      cases hop with
      | none => simp
      | some hop =>
        obtain ⟨served,parsed,_⟩ := performOnce_hop options (network count) request hop (by rw [made])
        simp [served,parsed]
  | succ remaining ih =>
    unfold perform
    cases made : performOnce options (network count) request with
    | mk hop response =>
      cases hop with
      | none => simp
      | some hop =>
        obtain ⟨served,parsed,_⟩ := performOnce_hop options (network count) request hop (by rw [made])
        simp only [Option.bind_some,Option.toList_some]
        split
        · simp [served,parsed]
        · next next followed =>
          obtain ⟨response,rfl,followed⟩ := Option.bind_eq_some_iff.mp followed
          obtain ⟨head,chain⟩ := ih (count + 1) next
          refine ⟨by simp [served,parsed],?_⟩
          rw [List.singleton_append]
          refine chain.cons fun later front => ?_
          obtain ⟨laterServed,laterParsed⟩ := head later front
          exact followUp_follows options (network count) request hop later response made
            (laterServed ▸ followed) (laterServed ▸ laterParsed)

/-- Every hop of a chain was admitted by the policy, and what it writes are the
merged headers of its own request. -/
theorem perform_hops (options : HttpClientOptions) (network : Nat → Exchange)
    (remaining count : Nat) (request : HttpRequest) :
    ∀ hop ∈ (perform options network remaining count request).1,
      parseUrl hop.request.url = some hop.url ∧ options.policy.reject hop.url = [] ∧ ∀ headers, hop.sent = some headers →
        hop.url.isHttps = false ∧ headers = mergedHeaders options hop.request hop.url := by
  induction remaining generalizing count request with
  | zero =>
    intro hop member
    unfold perform at member
    obtain ⟨rfl,parsed,admitted,written⟩ := performOnce_hop options (network count) request hop
      (by simpa using member)
    exact ⟨parsed,admitted,written⟩
  | succ remaining ih =>
    intro hop member
    unfold perform at member
    simp only at member
    split at member
    · obtain ⟨rfl,parsed,admitted,written⟩ := performOnce_hop options (network count) request hop
        (by simpa using member)
      exact ⟨parsed,admitted,written⟩
    · rcases List.mem_append.mp member with member | member
      · obtain ⟨rfl,parsed,admitted,written⟩ := performOnce_hop options (network count) request hop
          (by simpa using member)
        exact ⟨parsed,admitted,written⟩
      · exact ih _ _ hop member

/-- Credentials of the request itself reach a later hop only from the same origin. -/
theorem perform_pairwise (options : HttpClientOptions) (network : Nat → Exchange)
    (remaining count : Nat) (request : HttpRequest) :
    (perform options network remaining count request).1.Pairwise fun earlier later =>
      ∀ name ∈ credentialHeaders, later.request.headers.contains name = true →
        sameOrigin earlier.url later.url = true ∧ earlier.request.headers.contains name = true := by
  have transitive : IsTrans Hop fun earlier later => ∀ name ∈ credentialHeaders,
      later.request.headers.contains name = true →
        sameOrigin earlier.url later.url = true ∧ earlier.request.headers.contains name = true := by
    refine ⟨fun a b c first second name credential present => ?_⟩
    obtain ⟨sameLast,middle⟩ := second name credential present
    obtain ⟨sameFirst,start⟩ := first name credential middle
    exact ⟨sameOrigin_trans _ _ _ sameFirst sameLast,start⟩
  rw [← List.isChain_iff_pairwise]
  exact (perform_chain options network remaining count request).2.imp
    fun _ _ follows => follows.credentials

/-- Credentials stay confined exactly in the chains that either have none among
the client's default headers or never write to another origin. -/
theorem send_confined_iff (options : HttpClientOptions) (network : Nat → Exchange)
    (request : HttpRequest) :
    Confined (send options network request).1 ↔
      holdsCredential options.defaultHeaders = false ∨
        StaysAtOrigin (send options network request).1 := by
  have hops := perform_hops options network options.maxRedirects.toNat 0 request
  have pairs := perform_pairwise options network options.maxRedirects.toNat 0 request
  rw [send]
  generalize (perform options network options.maxRedirects.toNat 0 request).1 = chain at *
  have carries (hop : Hop) (member : hop ∈ chain) (name : Bytes)
      (credential : name ∈ credentialHeaders) : hop.Carries name ↔ hop.sent.isSome ∧
        (options.defaultHeaders.contains name = true ∨ hop.request.headers.contains name = true) := by
    constructor
    · rintro ⟨headers,sent,present⟩
      rw [((hops hop member).2.2 headers sent).2,mergedHeaders_credential _ _ _ _ credential] at present
      exact ⟨by simp [sent],present⟩
    · rintro ⟨written,present⟩
      obtain ⟨headers,sent⟩ := Option.isSome_iff_exists.mp written
      refine ⟨headers,sent,?_⟩
      rwa [((hops hop member).2.2 headers sent).2,mergedHeaders_credential _ _ _ _ credential]
  constructor
  · intro confined
    by_contra neither
    obtain ⟨held,strays⟩ := not_or.mp neither
    have held : ∃ name ∈ credentialHeaders, options.defaultHeaders.contains name = true := by
      simpa only [holdsCredential,Bool.not_eq_false,List.any_eq_true] using held
    obtain ⟨name,credential,present⟩ := held
    apply strays
    intro first front hop member written
    by_contra foreign
    exact confined.origin first front hop member (by simpa using foreign) name credential
      ((carries hop member name credential).mpr ⟨written,.inl present⟩)
  · intro condition
    constructor
    · intro first front hop member foreign name credential carried
      obtain ⟨written,present⟩ := (carries hop member name credential).mp carried
      rcases condition with clean | stays
      · have absent : options.defaultHeaders.contains name = false := by
          simpa using List.any_eq_false.mp clean name credential
        have supplied : hop.request.headers.contains name = true := by simpa [absent] using present
        cases chain with
        | nil => simp at member
        | cons head rest =>
          obtain rfl : head = first := by simpa using front
          rcases List.mem_cons.mp member with rfl | later
          · simp at foreign
          · have same := ((List.pairwise_cons.mp pairs).1 hop later name credential supplied).1
            simp [same] at foreign
      · simp [stays first front hop member written] at foreign
    · intro name credential
      refine pairs.imp_of_mem fun {earlier later} earlierMember laterMember given written dropped carried => ?_
      apply dropped
      obtain ⟨_,present⟩ := (carries later laterMember name credential).mp carried
      refine (carries earlier earlierMember name credential).mpr ⟨written,?_⟩
      exact present.imp_right fun present => (given name credential present).2

/-- A server that sends the client on to another host. -/
def handOver : Nat → Exchange
  | 0 => { received := [ascii "HTTP/1.1 302 Found\r\nLocation: http://other/\r\n\r\n"] }
  | _ => { received := [ascii "HTTP/1.1 200 OK\r\n\r\n"] }

def defaultToken : HttpClientOptions :=
  { defaultHeaders := ⟨[(ascii "Authorization",ascii "Bearer t")]⟩ }

/-- A default credential is written to the host a redirect names. -/
theorem defaultToken_leaks :
    ¬Confined (send defaultToken handOver { url := ascii "http://home/" }).1 := by
  intro confined
  have leak : ∃ first ∈ (send defaultToken handOver { url := ascii "http://home/" }).1.head?,
      ∃ hop ∈ (send defaultToken handOver { url := ascii "http://home/" }).1,
        sameOrigin first.url hop.url = false ∧
          ∃ headers ∈ hop.sent, headers.contains (ascii "Authorization") = true := by decide +kernel
  obtain ⟨first,front,hop,member,foreign,headers,sent,present⟩ := leak
  exact confined.origin first front hop member foreign _ (by decide) ⟨headers,sent,present⟩

end TestForge.HttpClient
