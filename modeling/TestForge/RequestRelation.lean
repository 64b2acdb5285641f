import TestForge.HeadGrammar
import TestForge.Redirect
import TestForge.SpecTestCase

/-! Two requests whose headers have the same names run through the client alike:
same hops, same responses, headers related item by item. -/
namespace TestForge.HttpClient

open Strings HttpHeaders

/-- A relation between header items that keeps names and holds of every header
the client sets by itself. -/
structure ItemRelation (R : Bytes × Bytes → Bytes × Bytes → Prop) : Prop where
  names : ∀ x y, R x y → x.1 = y.1
  own : ∀ name ∈ [ascii "Host",ascii "User-Agent",ascii "Accept",ascii "Connection",
    ascii "Content-Length",ascii "Content-Type"], ∀ value, R (name,value) (name,value)

structure RequestRelated (R : Bytes × Bytes → Bytes × Bytes → Prop) (a b : HttpRequest) : Prop where
  method : a.method = b.method
  url : a.url = b.url
  body : a.body = b.body
  headers : a.headers.Related R b.headers

structure HopRelated (R : Bytes × Bytes → Bytes × Bytes → Prop) (a b : Hop) : Prop where
  request : RequestRelated R a.request b.request
  url : a.url = b.url
  sent : Option.Rel (Related R) a.sent b.sent

section

variable {R : Bytes × Bytes → Bytes × Bytes → Prop} (relation : ItemRelation R)
  {a b : HttpRequest}
include relation

theorem mergedHeaders_related (options : HttpClientOptions) (url : Url)
    (defaults : options.defaultHeaders.Related R options.defaultHeaders)
    (related : RequestRelated R a b) :
    (mergedHeaders options a url).Related R (mergedHeaders options b url) := by
  have own := relation.own
  simp only [List.forall_mem_cons,List.not_mem_nil,false_imp_iff,implies_true,and_true] at own
  obtain ⟨host,agent,accept,connection,length,_⟩ := own
  have set (x y : HttpHeaders) (name value : Bytes) (known : R (name,value) (name,value))
      (also : x.Related R y) : (x.set name value).Related R (y.set name value) :=
    Related.set relation.names also name value value known
  have settle (x y : HttpHeaders) (name value : Bytes) (known : R (name,value) (name,value))
      (also : x.Related R y) : (if x.contains name then x else x.set name value).Related R
        (if y.contains name then y else y.set name value) := by
    rw [Related.contains relation.names also name]
    split
    · exact also
    · exact set x y name value known also
  have merged := set _ _ _ _ (connection (ascii "close"))
    (settle _ _ _ _ (accept (ascii "*/*")) (settle _ _ _ _ (agent options.userAgent)
      (set _ _ _ _ (host url.authority) (defaults.merge relation.names _ _ related.headers))))
  simp only [mergedHeaders,related.method,related.body]
  split
  · exact set _ _ _ _ (length _) merged
  · exact merged

theorem performOnce_related (options : HttpClientOptions) (exchange : Exchange)
    (defaults : options.defaultHeaders.Related R options.defaultHeaders)
    (related : RequestRelated R a b) :
    Option.Rel (HopRelated R) (performOnce options exchange a).1 (performOnce options exchange b).1 ∧
      (performOnce options exchange a).2 = (performOnce options exchange b).2 := by
  have merged (url : Url) := mergedHeaders_related relation options url defaults related
  unfold performOnce
  rw [related.url,related.method]
  split
  · exact ⟨.none,rfl⟩
  simp only
  split
  · exact ⟨.none,rfl⟩
  split
  · exact ⟨.some ⟨related,rfl,.none⟩,rfl⟩
  split
  · exact ⟨.some ⟨related,rfl,.none⟩,rfl⟩
  split
  all_goals exact ⟨.some ⟨related,rfl,.some (merged _)⟩,rfl⟩

theorem redirected_related {x y : Hop} (related : HopRelated R x y) (next : Bytes) :
    RequestRelated R (redirected x next) (redirected y next) := by
  have stripped : (stripCredentials x.request.headers).Related R
      (stripCredentials y.request.headers) := by
    simp only [stripCredentials,credentialHeaders,List.foldl_cons,List.foldl_nil]
    exact ((related.request.headers.remove relation.names _).remove relation.names _).remove
      relation.names _
  unfold redirected
  rw [related.url]
  split
  · exact ⟨related.request.method,rfl,related.request.body,related.request.headers⟩
  · exact ⟨related.request.method,rfl,related.request.body,stripped⟩

omit relation in
theorem degrade_related (statusCode : Int) (related : RequestRelated R a b) :
    RequestRelated R (degrade statusCode a) (degrade statusCode b) := by
  unfold degrade
  rw [related.method]
  split
  · exact ⟨rfl,related.url,rfl,related.headers⟩
  · exact related

theorem followUp_related (options : HttpClientOptions) (response : HttpResponse) {x y : Hop}
    (related : HopRelated R x y) :
    Option.Rel (RequestRelated R) (followUp options x response) (followUp options y response) := by
  unfold followUp
  rw [related.url]
  split
  · split
    · exact .none
    · exact .none
    · next location _ _ =>
      cases redirectTarget y.url location with
      | none => exact .none
      | some next =>
        exact .some (degrade_related response.statusCode (redirected_related relation related next))
  · exact .none

theorem perform_related (options : HttpClientOptions) (network : Nat → Exchange)
    (defaults : options.defaultHeaders.Related R options.defaultHeaders) (remaining count : Nat)
    (related : RequestRelated R a b) :
    List.Forall₂ (HopRelated R) (perform options network remaining count a).1
      (perform options network remaining count b).1 := by
  have toList (x y : Option Hop) (also : Option.Rel (HopRelated R) x y) :
      List.Forall₂ (HopRelated R) x.toList y.toList := by
    cases also with
    | none => exact .nil
    | some head => exact .cons head .nil
  induction remaining generalizing count a b with
  | zero =>
    simp only [perform]
    exact toList _ _ (performOnce_related relation options (network count) defaults related).1
  | succ remaining ih =>
    obtain ⟨hops,response⟩ := performOnce_related relation options (network count) defaults related
    have follow : Option.Rel (RequestRelated R)
        ((performOnce options (network count) a).1.bind fun hop =>
          (performOnce options (network count) a).2.bind (followUp options hop))
        ((performOnce options (network count) b).1.bind fun hop =>
          (performOnce options (network count) b).2.bind (followUp options hop)) := by
      rw [response]
      generalize (performOnce options (network count) a).1 = x at hops
      generalize (performOnce options (network count) b).1 = y at hops
      cases hops with
      | none => exact .none
      | some head =>
        cases (performOnce options (network count) b).2 with
        | none => exact .none
        | some response => exact followUp_related relation options response head
    simp only [perform]
    generalize left : ((performOnce options (network count) a).1.bind fun hop =>
      (performOnce options (network count) a).2.bind (followUp options hop)) = x at follow
    generalize right : ((performOnce options (network count) b).1.bind fun hop =>
      (performOnce options (network count) b).2.bind (followUp options hop)) = y at follow
    cases follow with
    | none => exact toList _ _ hops
    | some next => exact List.rel_append (toList _ _ hops) (ih (count + 1) next)

end

end TestForge.HttpClient
