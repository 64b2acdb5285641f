import TestForge.TruncatedTexts
import TestForge.VerdictConsistency

/-! What an `ApiClient` leaves in the metadata of its test: members about the latest exchange, which
the classifier reads, and the list of all exchanges. Its counter does not overflow here. -/
namespace TestForge

open Json Strings

namespace Json.Value

/-- Members with distinct keys, set one after the other, hide those that were there. -/
theorem find_setMembers (added : List (Bytes × Value)) (distinct : (added.map (·.1)).Nodup) (key : Bytes) :
    ∀ base : List (Bytes × Value),
      (object (added.foldl (fun built member => setMember member.1 member.2 built) base)).find key =
        ((object added).find key).or ((object base).find key) := by
  induction added with
  | nil => intro base; simp [find]
  | cons member rest ih =>
    intro base
    obtain ⟨apart,distinct⟩ := List.nodup_cons.mp distinct
    rw [List.foldl_cons,ih distinct,find_setMember]
    by_cases same : member.1 = key
    · have hidden : (object rest).find key = none := by
        simp only [find,Option.map_eq_none_iff,List.find?_eq_none,decide_eq_true_eq]
        exact fun other there equal => apart (List.mem_map.mpr ⟨other,there,equal.trans same.symm⟩)
      have found : (object (member :: rest)).find key = some member.2 := by simp [find,same]
      simp [hidden,found,same]
    · simp [find,same]

theorem setMember_keys (key : Bytes) (value : Value) (members : List (Bytes × Value))
    (distinct : (members.map (·.1)).Nodup) : ((setMember key value members).map (·.1)).Nodup := by
  have built : setMember key value members = lastWins (members ++ [(key,value)]) := by
    have set := objectOf_eq (members ++ [(key,value)])
    have before := objectOf_distinct members distinct
    simp only [objectOf,object.injEq,List.foldl_append,List.foldl_cons,List.foldl_nil] at set before
    rw [← set,before]
  exact built ▸ lastWins_keys _

theorem setMembers_keys (added : List (Bytes × Value)) :
    ∀ base : List (Bytes × Value), (base.map (·.1)).Nodup →
      ((added.foldl (fun built member => setMember member.1 member.2 built) base).map (·.1)).Nodup := by
  induction added with
  | nil => exact fun base distinct => distinct
  | cons member rest ih => exact fun base distinct => ih _ (setMember_keys _ _ _ distinct)

end Json.Value

namespace FailureClassifier

theorem signals_shape (metadata : Value) : ∃ failing missing : Bool,
    (failing = true ↔ ∃ code ∈ readNumber metadata (ascii "http_status"), 500 ≤ code) ∧
      signals metadata = (if failing then [.applicationFailure] else []) ++
        textSignal metadata (ascii "transport_error") ++ (if missing then [.dependencyFailure] else []) := by
  refine ⟨(readNumber metadata (ascii "http_status")).any (500 ≤ ·),
    ((metadata.find (ascii "missing_dependency")).bind Value.asString?).any (· ≠ []),?_,?_⟩
  · cases readNumber metadata (ascii "http_status") <;> simp
  · rw [signals]
    congr 2
    · cases readNumber metadata (ascii "http_status") with
      | none => rfl
      | some code => by_cases bad : 500 ≤ code <;> simp [bad]
    · cases (metadata.find (ascii "missing_dependency")).bind Value.asString? with
      | none => rfl
      | some text => by_cases empty : text = [] <;> simp [empty]

/-- A failed assertion is worth another attempt for what the metadata tells of the transport, and
a status of 500 and more hides everything but a timeout. -/
theorem retryable_refine_iff (metadata : Value) : isRetryable (refine .assertionFailure metadata) = true ↔
    ∃ text, (metadata.find (ascii "transport_error")).bind Value.asString? = some text ∧
      isRetryable (fromMessage text) = true ∧
      (fromMessage text = .timeout ∨ ∀ code ∈ readNumber metadata (ascii "http_status"), code < 500) := by
  obtain ⟨failing,missing,status,shape⟩ := signals_shape metadata
  have served : (∀ code ∈ readNumber metadata (ascii "http_status"), code < 500) ↔ failing = false := by
    rw [← Bool.not_eq_true,status]
    simp
  rw [refine_eq,shape,served]
  cases told : (metadata.find (ascii "transport_error")).bind Value.asString? with
  | none =>
    have silent : textSignal metadata (ascii "transport_error") = [] := by simp [textSignal,told]
    rw [silent]
    cases failing <;> cases missing <;> simp [promoteAll,promote,specificity,isRetryable]
  | some text =>
    have spoken : textSignal metadata (ascii "transport_error") = [fromMessage text] := by simp [textSignal,told]
    simp only [spoken,Option.some.injEq,exists_eq_left']
    generalize fromMessage text = category
    cases category <;> cases failing <;> cases missing <;> simp [promoteAll,promote,specificity,isRetryable]

end FailureClassifier

namespace ApiClient

open Value

/-- A response with the milliseconds it took. -/
structure Exchange where
  response : HttpResponse
  elapsed : Int

def Exchange.told (exchange : Exchange) : Value := exchange.response.toMetadataJson exchange.elapsed

/-- The client's own members, and the members of the context's metadata. -/
structure Recorded where
  exchangeCount : Int := 0
  exchanges : List Value := []
  metadata : List (Bytes × Value) := []

/-- What is pushed onto the list of exchanges. -/
def item (n : Int) (exchange : Exchange) : Value := Value.objectOf [
  (ascii "n",.int n),
  (ascii "method",.string exchange.response.requestMethod),
  (ascii "url",.string exchange.response.requestUrl),
  (ascii "status",.int exchange.response.statusCode),
  (ascii "ms",.int exchange.elapsed)]

def record (s : Recorded) (exchange : Exchange) : Recorded :=
  let exchangeCount := s.exchangeCount + 1
  let exchanges := s.exchanges ++ [item exchangeCount exchange]
  let metadata := match exchange.told with
    | .object members => members.foldl (fun built member => setMember member.1 member.2 built) s.metadata
    | _ => s.metadata
  { exchangeCount
    exchanges
    metadata := if exchangeCount > 1 then setMember (ascii "exchanges") (.array exchanges) metadata else metadata }

/-- What a body does that shows in the metadata: a `send` that returns, and `addMetadata`. -/
inductive Step where
  | exchanged (exchange : Exchange)
  | addMetadata (key : Bytes) (value : Value)

def step (s : Recorded) : Step → Recorded
  | .exchanged exchange => record s exchange
  | .addMetadata key value => { s with metadata := setMember key value s.metadata }

def run (steps : List Step) : Recorded := steps.foldl step {}

def Step.exchange? : Step → Option Exchange
  | .exchanged exchange => some exchange
  | .addMetadata _ _ => none

def answers (steps : List Step) : List Exchange := steps.filterMap Step.exchange?

/-- The members that describe one exchange. -/
def describing (failed : Bool) : List Bytes :=
  [ascii "http_method",ascii "http_url",ascii "http_status",ascii "http_status_text",ascii "response_time_ms",
    ascii "content_type",ascii "response_bytes"] ++ (if failed then [ascii "transport_error"] else []) ++
    [ascii "response_excerpt",ascii "response_headers"]

/-- The test itself sets no member under this key. -/
def LeftAlone (steps : List Step) (key : Bytes) : Prop := ∀ value, .addMetadata key value ∉ steps

theorem describing_distinct (failed : Bool) : (describing failed).Nodup := by cases failed <;> decide

theorem told_eq (exchange : Exchange) : ∃ members, exchange.told = .object members ∧
    members.map (·.1) = describing exchange.response.transportError := by
  have distinct := describing_distinct exchange.response.transportError
  refine ⟨_,objectOf_distinct _ (Eq.subst (motive := List.Nodup) (Eq.symm ?keys) distinct),?keys⟩
  cases failed : exchange.response.transportError <;> rfl

theorem told_isSome_iff (exchange : Exchange) (key : Bytes) :
    (exchange.told.find key).isSome = true ↔ key ∈ describing exchange.response.transportError := by
  obtain ⟨members,told,keys⟩ := told_eq exchange
  rw [told,← keys]
  simp [find]

/-- Every member but one is there for every exchange. -/
theorem told_isSome (exchange : Exchange) (key : Bytes) (member : key ∈ describing false) :
    (exchange.told.find key).isSome = true := by
  apply (told_isSome_iff exchange key).mpr
  cases exchange.response.transportError with
  | false => exact member
  | true => simp only [describing,List.mem_append] at member ⊢; tauto

theorem told_failure (exchange : Exchange) : exchange.told.find (ascii "transport_error") =
    if exchange.response.transportError then some (.string exchange.response.errorMessage) else none := by
  rw [Exchange.told,HttpResponse.toMetadataJson,find_objectOf]
  cases exchange.response.transportError <;> rfl

theorem told_status (exchange : Exchange) :
    exchange.told.find (ascii "http_status") = some (.int exchange.response.statusCode) := by
  rw [Exchange.told,HttpResponse.toMetadataJson,find_objectOf]
  cases exchange.response.transportError <;> rfl

theorem describing_exchanges (failed : Bool) : ascii "exchanges" ∉ describing failed := by cases failed <;> decide

theorem told_exchanges (exchange : Exchange) : exchange.told.find (ascii "exchanges") = none := by
  rw [← Option.not_isSome_iff_eq_none,told_isSome_iff]
  exact describing_exchanges _

/-! ### Runs -/

theorem run_snoc (steps : List Step) (last : Step) : run (steps ++ [last]) = step (run steps) last := by
  simp [run]

theorem answers_snoc (steps : List Step) (last : Step) :
    answers (steps ++ [last]) = answers steps ++ last.exchange?.toList := by
  cases last <;> simp [answers,Step.exchange?]

theorem LeftAlone.before {steps : List Step} {last : Step} {key : Bytes} (alone : LeftAlone (steps ++ [last]) key) :
    LeftAlone steps key := fun value there => alone value (by simp [there])

theorem run_exchanges (steps : List Step) : (run steps).exchangeCount = (answers steps).length ∧
    (run steps).exchanges = (answers steps).mapIdx fun i exchange => item (i + 1) exchange := by
  induction steps using List.reverseRecOn with
  | nil => exact ⟨rfl,rfl⟩
  | append_singleton steps last ih =>
    obtain ⟨counted,listed⟩ := ih
    rw [run_snoc,answers_snoc]
    cases last with
    | exchanged exchange => simp [step,record,Step.exchange?,counted,listed]
    | addMetadata key value => simpa [step,Step.exchange?] using ⟨counted,listed⟩

theorem record_find (s : Recorded) (exchange : Exchange) (key : Bytes) (flat : key ≠ ascii "exchanges") :
    (object (record s exchange).metadata).find key = (exchange.told.find key).or ((object s.metadata).find key) := by
  obtain ⟨members,told,keys⟩ := told_eq exchange
  have distinct := keys ▸ describing_distinct exchange.response.transportError
  have merged := find_setMembers members distinct key s.metadata
  simp only [record,told]
  split
  · rw [find_setMember,if_neg flat.symm,merged]
  · exact merged

/-- The last exchange that has anything to say under a key. -/
theorem run_find (steps : List Step) (key : Bytes) (flat : key ≠ ascii "exchanges") (alone : LeftAlone steps key) :
    (object (run steps).metadata).find key = (answers steps).reverse.findSome? fun exchange => exchange.told.find key := by
  induction steps using List.reverseRecOn with
  | nil => rfl
  | append_singleton steps last ih =>
    have before := ih alone.before
    rw [run_snoc,answers_snoc]
    cases last with
    | exchanged exchange =>
      rw [step,record_find _ _ _ flat,before]
      cases told : exchange.told.find key <;> simp [Step.exchange?,told]
    | addMetadata other value =>
      have different : other ≠ key := fun same => alone value (by simp [same])
      simpa [step,Step.exchange?,find_setMember,different] using before

theorem record_sequence (s : Recorded) (exchange : Exchange) :
    (object (record s exchange).metadata).find (ascii "exchanges") =
      if 1 < (record s exchange).exchangeCount then some (.array (record s exchange).exchanges)
      else (object s.metadata).find (ascii "exchanges") := by
  obtain ⟨members,told,keys⟩ := told_eq exchange
  have distinct := keys ▸ describing_distinct exchange.response.transportError
  have merged := find_setMembers members distinct (ascii "exchanges") s.metadata
  rw [← told,told_exchanges,Option.none_or] at merged
  simp only [record,told]
  split
  · simp [find_setMember]
  · exact merged

/-- From the second exchange on the list is there, with all of them. -/
theorem run_sequence (steps : List Step) (alone : LeftAlone steps (ascii "exchanges")) :
    (object (run steps).metadata).find (ascii "exchanges") = if 1 < (answers steps).length then
      some (.array ((answers steps).mapIdx fun i exchange => item (i + 1) exchange)) else none := by
  induction steps using List.reverseRecOn with
  | nil => rfl
  | append_singleton steps last ih =>
    have before := ih alone.before
    cases last with
    | exchanged exchange =>
      have total := run_exchanges (steps ++ [.exchanged exchange])
      rw [run_snoc,step] at total
      rw [run_snoc,step,record_sequence,total.1,total.2]
      by_cases several : 1 < (answers (steps ++ [.exchanged exchange])).length
      · simp [several]
      · have first : answers steps = [] := by
          rw [answers_snoc] at several
          simpa [Step.exchange?] using several
        rw [before,first]
        simp [several]
    | addMetadata other value =>
      have different : other ≠ ascii "exchanges" := fun same => alone value (by simp [same])
      rw [run_snoc,answers_snoc]
      simpa [step,Step.exchange?,find_setMember,different] using before

/-- What the test itself set last under a key that is none of the client's. -/
theorem run_own (steps : List Step) (key : Bytes) (flat : key ∉ describing true) (sequence : key ≠ ascii "exchanges") :
    (object (run steps).metadata).find key = steps.reverse.findSome? fun
      | .addMetadata other value => if other = key then some value else none
      | .exchanged _ => none := by
  induction steps using List.reverseRecOn with
  | nil => rfl
  | append_singleton steps last ih =>
    rw [run_snoc]
    cases last with
    | exchanged exchange =>
      have silent : exchange.told.find key = none := by
        rw [← Option.not_isSome_iff_eq_none,told_isSome_iff]
        intro member
        apply flat
        cases failed : exchange.response.transportError with
        | true => exact failed ▸ member
        | false => rw [failed] at member; simp only [describing,List.mem_append] at member ⊢; tauto
      simpa [step,record_find _ _ _ sequence,silent] using ih
    | addMetadata other value => by_cases same : other = key <;> simp [step,find_setMember,same,ih]

/-- The flat members that are left: all of the latest exchange, and the error of the last one that failed. -/
structure Left (steps : List Step) (metadata : Value) : Prop where
  latest : ∀ last ∈ (answers steps).getLast?, ∀ key ∈ describing false, metadata.find key = last.told.find key
  failure : metadata.find (ascii "transport_error") =
    ((answers steps).reverse.find? (·.response.transportError)).map (.string ·.response.errorMessage)
  sequence : metadata.find (ascii "exchanges") = if 1 < (answers steps).length then
    some (.array ((answers steps).mapIdx fun i exchange => item (i + 1) exchange)) else none
  own : ∀ key ∉ describing true, key ≠ ascii "exchanges" → metadata.find key = steps.reverse.findSome? fun
    | .addMetadata other value => if other = key then some value else none
    | .exchanged _ => none

theorem findSome?_failure (exchanges : List Exchange) :
    (exchanges.findSome? fun exchange => exchange.told.find (ascii "transport_error")) =
      (exchanges.find? (·.response.transportError)).map (.string ·.response.errorMessage) := by
  induction exchanges with
  | nil => rfl
  | cons exchange rest ih => cases failed : exchange.response.transportError <;> simp [told_failure exchange,failed,ih]

theorem run_left (steps : List Step) (alone : ∀ key ∈ ascii "exchanges" :: describing true, LeftAlone steps key) :
    Left steps (object (run steps).metadata) where
  latest := by
    intro last is_last key member
    have named : key ∈ describing true := by simp only [describing,List.mem_append] at member ⊢; tauto
    have flat : key ≠ ascii "exchanges" := fun same => describing_exchanges true (same ▸ named)
    obtain ⟨before,split⟩ := List.getLast?_eq_some_iff.mp is_last
    obtain ⟨value,told⟩ := Option.isSome_iff_exists.mp (told_isSome last key member)
    rw [run_find steps key flat (alone key (.tail _ named)),split]
    simp [told]
  failure := by
    have named : ascii "transport_error" ∈ describing true := by decide
    rw [run_find steps _ (fun same => describing_exchanges true (same ▸ named)) (alone _ (.tail _ named)),
      findSome?_failure]
  sequence := run_sequence steps (alone _ (.head _))
  own := run_own steps

/-- The flat members speak of the latest exchange exactly when it failed or none did. -/
theorem exchanges_left (steps : List Step) (alone : ∀ key ∈ ascii "exchanges" :: describing true, LeftAlone steps key)
    (last : Exchange) (latest : last ∈ (answers steps).getLast?) :
    Left steps (object (run steps).metadata) ∧
      ((∀ key ∈ describing true, (object (run steps).metadata).find key = last.told.find key) ↔
        last.response.transportError = true ∨ ∀ exchange ∈ answers steps, exchange.response.transportError = false) := by
  have left := run_left steps alone
  obtain ⟨before,split⟩ := List.getLast?_eq_some_iff.mp latest
  have failure := left.failure
  rw [split,List.reverse_append,List.reverse_singleton,List.singleton_append] at failure
  refine ⟨left,fun agree => ?_,fun fresh key member => ?_⟩
  · have stale := (agree (ascii "transport_error") (by decide)).symm.trans failure
    rw [told_failure] at stale
    cases failed : last.response.transportError with
    | true => exact .inl rfl
    | false =>
      simp only [failed,List.find?_cons] at stale
      have none_before : ∀ exchange ∈ before, exchange.response.transportError = false := by
        simpa using stale.symm
      refine .inr fun exchange member => ?_
      rw [split,List.mem_append,List.mem_singleton] at member
      rcases member with earlier | rfl
      · exact none_before exchange earlier
      · exact failed
  · by_cases flag : key = ascii "transport_error"
    · rw [flag,failure,told_failure]
      cases failed : last.response.transportError with
      | true => simp [failed]
      | false =>
        have all : ∀ exchange ∈ before, exchange.response.transportError = false := fun exchange earlier =>
          (fresh.resolve_left (by simp [failed])) exchange (by simp [split,earlier])
        simpa [failed] using all
    · refine left.latest last latest key ?_
      simp only [describing,List.mem_append] at member ⊢
      rcases member with (common | failure) | common
      · exact .inl (.inl common)
      · exact absurd (List.mem_singleton.mp failure) flag
      · exact .inr common

/-- A request that is refused, and a second one that is answered. -/
def refusedThenAnswered : List Step := [
  .exchanged ⟨{ transportError := true, errorMessage := ascii "connect failed: Connection refused" },3⟩,
  .addMetadata (ascii "note") (.bool true),
  .exchanged ⟨{ statusCode := 404 },5⟩]

theorem refusedThenAnswered_alone (key : Bytes) (member : key ∈ ascii "exchanges" :: describing true) :
    LeftAlone refusedThenAnswered key := by
  intro value there
  simp only [refusedThenAnswered,List.mem_cons,reduceCtorEq,Step.addMetadata.injEq,List.not_mem_nil,false_or,or_false]
    at there
  rw [there.1] at member
  exact absurd member (by decide)

theorem exchanges_left_refused : ¬∀ key ∈ describing true,
    (object (run refusedThenAnswered).metadata).find key = (Exchange.told ⟨{ statusCode := 404 },5⟩).find key := by
  intro agree
  have either := (exchanges_left refusedThenAnswered refusedThenAnswered_alone ⟨{ statusCode := 404 },5⟩ rfl).2.mp agree
  rcases either with failed | none
  · simp at failed
  · simp [refusedThenAnswered,answers,Step.exchange?] at none

/-! ### What the classifier makes of it -/

theorem run_keys (steps : List Step) : ((run steps).metadata.map (·.1)).Nodup := by
  induction steps using List.reverseRecOn with
  | nil => exact List.nodup_nil
  | append_singleton steps last ih =>
    rw [run_snoc]
    cases last with
    | addMetadata key value => exact setMember_keys _ _ _ ih
    | exchanged exchange =>
      obtain ⟨members,told,keys⟩ := told_eq exchange
      have merged := setMembers_keys members _ ih
      simp only [step,record,told]
      split
      · exact setMember_keys _ _ _ merged
      · exact merged

/-- Exchanges, and members of the test's own, behind a failed assertion. -/
def assertionRecord (what expression expected actual : Bytes) (location : Option Bytes) (steps : List Step)
    (logs extraTags notes : List Bytes) : BodyRecord where
  outcome := .threw false (.assertionFailure what expression expected actual location)
  logs := logs
  collectedMetadata := (run steps).metadata
  extraTags := extraTags
  notes := notes

theorem verdict_assertion (metadata : TestMetadata) (runId worker : Bytes) (attempt : Nat) (stamp : Stamp)
    (what expression expected actual : Bytes) (location : Option Bytes) (steps : List Step)
    (logs extraTags notes : List Bytes) (timeoutMs : Int) (reason : Bytes) :
    let result := verdict (attemptResult metadata runId worker attempt stamp)
      (assertionRecord what expression expected actual location steps logs extraTags notes) false false timeoutMs reason
      attempt
    result.status = .failed ∧
      result.failureCategory = FailureClassifier.refine .assertionFailure (object (run steps).metadata) := by
  have collected : (run steps).metadata.foldl (fun (metadata : Value) member => metadata.set member.1 member.2)
      (object []) = object (run steps).metadata := by
    have folded : ∀ members base : List (Bytes × Value),
        members.foldl (fun (metadata : Value) member => metadata.set member.1 member.2) (object base) =
          object (members.foldl (fun built member => setMember member.1 member.2 built) base) := by
      intro members
      induction members with
      | nil => exact fun base => rfl
      | cons member rest ih => exact fun base => ih _
    rw [folded]
    exact objectOf_distinct _ (run_keys steps)
  exact ⟨rfl,congrArg (FailureClassifier.refine .assertionFailure) collected⟩

/-- A failed assertion is tried again for the last exchange that failed at the transport, however
many exchanges were answered after it. -/
theorem assertion_retried_iff (metadata : TestMetadata) (runId worker : Bytes) (attempt : Nat) (stamp : Stamp)
    (what expression expected actual : Bytes) (location : Option Bytes) (steps : List Step)
    (alone : LeftAlone steps (ascii "http_status") ∧ LeftAlone steps (ascii "transport_error"))
    (logs extraTags notes : List Bytes) (timeoutMs : Int) (reason : Bytes) :
    let result := verdict (attemptResult metadata runId worker attempt stamp)
      (assertionRecord what expression expected actual location steps logs extraTags notes) false false timeoutMs reason
      attempt
    result.status = .failed ∧ (FailureClassifier.isRetryable result.failureCategory = true ↔
      ∃ failed, (answers steps).reverse.find? (·.response.transportError) = some failed ∧
        FailureClassifier.isRetryable (FailureClassifier.fromMessage failed.response.errorMessage) = true ∧
        (FailureClassifier.fromMessage failed.response.errorMessage = .timeout ∨
          ∀ last ∈ (answers steps).getLast?, last.response.statusCode < 500)) := by
  obtain ⟨status,category⟩ := verdict_assertion metadata runId worker attempt stamp what expression expected actual
    location steps logs extraTags notes timeoutMs reason
  refine ⟨status,?_⟩
  have failure : (object (run steps).metadata).find (ascii "transport_error") =
      ((answers steps).reverse.find? (·.response.transportError)).map (.string ·.response.errorMessage) := by
    rw [run_find steps _ (by decide) alone.2,findSome?_failure]
  have answered : readNumber (object (run steps).metadata) (ascii "http_status") =
      (answers steps).getLast?.map (·.response.statusCode) := by
    rw [readNumber,run_find steps _ (by decide) alone.1,List.getLast?_eq_head?_reverse]
    cases (answers steps).reverse with
    | nil => rfl
    | cons last rest => simp [told_status,isNumber,intOr]
  rw [category,FailureClassifier.retryable_refine_iff,failure,answered]
  cases (answers steps).reverse.find? (·.response.transportError) with
  | none => simp
  | some failed => simp [asString?]

/-- The refused request is what makes the failed assertion about the second answer worth an attempt. -/
theorem assertion_retried_refused : FailureClassifier.isRetryable (verdict
    (attemptResult { name := ascii "create" } [] [] 1 {})
    (assertionRecord (ascii "unexpected status") [] [] [] none refusedThenAnswered [] [] []) false false 1000 [] 1
    ).failureCategory = true := by
  have alone := refusedThenAnswered_alone
  refine (assertion_retried_iff { name := ascii "create" } [] [] 1 {} (ascii "unexpected status") [] [] [] none
    refusedThenAnswered ⟨alone _ (by decide),alone _ (by decide)⟩ [] [] [] 1000 []).2.mpr ⟨_,rfl,by decide,.inr ?_⟩
  rintro last ⟨⟩
  decide

end ApiClient
end TestForge
