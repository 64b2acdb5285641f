import TestForge.Assertions
import TestForge.FailureContextSize
import TestForge.GlobMatch
import TestForge.JsonUtf8
import TestForge.RunEnvironment

/-! Texts that `truncate` has cut: when they are still UTF-8, and where they are placed. -/
namespace TestForge

open Json Strings Utf8

namespace Strings

theorem ascii_plain (text : Bytes) (small : text.all (·.toNat.blt 128) = true) : ∀ c ∈ text, c < 128 :=
  fun c member => UInt8.lt_iff_toNat_lt.mpr (Nat.blt_eq.mp (List.all_eq_true.mp small c member))

/-- Where `truncate` cuts a text that is longer than the limit. -/
def cutPosition (limit : Nat) : Nat :=
  if limit ≤ truncationMarker.length then limit else limit - truncationMarker.length

/-- The text is not cut, or cut in front of a character. -/
def CutWhole (text : Bytes) (limit : Nat) : Prop :=
  text.length ≤ limit ∨ ∀ c ∈ text[cutPosition limit]?, c.IsUTF8FirstByte

theorem truncate_utf8 (text : Bytes) (valid : IsUtf8 text) (limit : Nat) :
    IsUtf8 (truncate text limit) ↔ CutWhole text limit := by
  rw [truncate,CutWhole,cutPosition]
  by_cases short : text.length ≤ limit
  · rw [if_pos short]
    exact iff_of_true valid (.inl short)
  rw [if_neg short,or_iff_right short]
  split
  · exact isUtf8_take text valid limit
  · rw [isUtf8_behind _ _ (ascii_plain truncationMarker rfl)]
    exact isUtf8_take text valid _

/-! ### Redaction -/

/-- The rule keeps ASCII in front of a secret, and what follows the secret is a text of its own. -/
def Aligned (rule : Masking.Rule UInt8) : Prop :=
  ∀ text found, rule text = some found → found.kept ≠ [] ∧ (∀ c ∈ found.kept, c < 128) ∧
    (IsUtf8 (found.secret ++ found.behind) → IsUtf8 found.behind)

theorem isUtf8_last (front back : Bytes) (ends : ∀ c ∈ back.head?, c < 128) (valid : IsUtf8 (front ++ back)) :
    IsUtf8 back := by
  cases back with
  | nil => exact isUtf8_nil
  | cons c rest =>
    have plain := ends c rfl
    exact (isUtf8_cons c rest plain).mpr ((isUtf8_cut front rest c plain).mp valid).2

theorem lowered_ascii {name key : Bytes} (named : toLower name = key) (plain : ∀ c ∈ key, c < 128) :
    ∀ c ∈ name, c < 128 := by
  intro c member
  have lowered := plain (lowerAscii c) (named ▸ List.mem_map_of_mem member)
  by_contra large
  have same : lowerAscii c = c := by
    have high : ¬c ≤ 90 := fun low => large (UInt8.lt_of_le_of_lt low (by decide))
    simp [lowerAscii,high]
  exact large (same ▸ lowered)

theorem skipped_ascii (c : UInt8) (skipped : isQuoteOrSpace c = true ∨ isSeparator c = true) : c < 128 := by
  simp only [isQuoteOrSpace,isSpace,isSeparator,Bool.or_eq_true,Bool.and_eq_true,beq_iff_eq,
    decide_eq_true_eq] at skipped
  grind

theorem token_ascii (c : UInt8) (token : isTokenByte c = true) : c < 128 := by
  simp only [isTokenByte,isAlnum,isAlpha,isDigit,Bool.or_eq_true,Bool.and_eq_true,beq_iff_eq,
    decide_eq_true_eq] at token
  grind

theorem terminator_ascii (c : UInt8) (stops : isValueTerminator c = true ∨ endsToken c = true) : c < 128 := by
  simp only [isValueTerminator,endsToken,isSpace,Bool.or_eq_true,Bool.and_eq_true,beq_iff_eq,
    decide_eq_true_eq] at stops
  grind

theorem assignment_ascii (after : Bytes) : ∀ c ∈ assignment after, c < 128 := by
  intro c member
  unfold assignment at member
  split at member
  · cases member
  split at member
  · next separator =>
    apply skipped_ascii
    rcases List.mem_append.mp member with skipped | member
    · exact .inl (List.mem_takeWhile_imp skipped)
    · rcases List.mem_cons.mp member with rfl | passed
      · exact .inr separator
      · exact .inl (List.mem_takeWhile_imp passed)
  · cases member

/-- What stands behind the secret of an assignment begins with the byte that ended it. -/
theorem secretOf_behind (value : Bytes) : ∀ c ∈ (value.drop (secretOf value).length).head?, c < 128 := by
  obtain ⟨spaces,rest,split,blank,-,stops⟩ := secretOf_split value
  generalize secretOf value = secret at split blank
  rw [split,List.drop_left]
  intro c first
  cases spaces with
  | nil => exact terminator_ascii c (.inl (stops c first))
  | cons space others =>
    obtain rfl := Option.some.inj first
    exact skipped_ascii _ (.inl (by simp [isQuoteOrSpace,(blank _ List.mem_cons_self).1]))

theorem assigned_secret (after : Bytes) :
    assigned after = [] ∨ assigned after = secretOf (after.drop (assignment after).length) := by
  cases skipped : after.dropWhile isQuoteOrSpace with
  | nil => exact .inl (by rw [assigned,skipped])
  | cons c rest =>
    by_cases separator : isSeparator c = true
    · right
      have whole : after = (after.takeWhile isQuoteOrSpace ++ c :: rest.takeWhile isQuoteOrSpace) ++
          rest.dropWhile isQuoteOrSpace := by
        rw [List.append_assoc,List.cons_append,List.takeWhile_append_dropWhile,← skipped,
          List.takeWhile_append_dropWhile]
      have kept : assignment after = after.takeWhile isQuoteOrSpace ++ c :: rest.takeWhile isQuoteOrSpace := by
        rw [assignment,skipped]
        exact if_pos separator
      have behind : after.drop (assignment after).length = rest.dropWhile isQuoteOrSpace := by
        rw [kept]
        nth_rewrite 2 [whole]
        exact List.drop_left
      rw [behind,assigned_eq skipped,if_pos separator]
    · exact .inl (by rw [assigned_eq skipped,if_neg separator])

theorem kKeys_ascii : ∀ key ∈ ascii "bearer " :: kKeys, key ≠ [] ∧ ∀ c ∈ key, c < 128 := by
  have listed : ∀ key ∈ ascii "bearer " :: kKeys, (!key.isEmpty && key.all (·.toNat.blt 128)) = true :=
    List.all_eq_true.mp rfl
  intro key member
  obtain ⟨filled,small⟩ := (Bool.and_eq_true _ _).mp (listed key member)
  refine ⟨?_,ascii_plain key small⟩
  rintro rfl
  cases filled

theorem named_ascii {key name : Bytes} (member : key ∈ ascii "bearer " :: kKeys) (named : toLower name = key) :
    name ≠ [] ∧ ∀ c ∈ name, c < 128 := by
  obtain ⟨filled,plain⟩ := kKeys_ascii key member
  refine ⟨?_,lowered_ascii named plain⟩
  rintro rfl
  exact filled named.symm

theorem keyRule_aligned (key : Bytes) (member : key ∈ kKeys) : Aligned (keyRule key) := by
  intro text found located
  obtain ⟨name,after,-,named,rfl⟩ := keyRule_some located
  obtain ⟨filled,plain⟩ := named_ascii (List.mem_cons_of_mem _ member) named
  refine ⟨List.append_ne_nil_of_left_ne_nil filled _,?_,?_⟩
  · intro c kept
    rcases List.mem_append.mp kept with front | back
    · exact plain c front
    · exact assignment_ascii after c back
  · intro valid
    rcases assigned_secret after with none | secret
    · rw [none] at valid ⊢
      exact valid
    · refine isUtf8_last _ _ ?_ valid
      rw [secret]
      exact secretOf_behind _

theorem bearerRule_aligned : Aligned bearerRule := by
  intro text found located
  obtain ⟨name,value,-,named,rfl⟩ := bearerRule_some located
  obtain ⟨filled,plain⟩ := named_ascii List.mem_cons_self named
  refine ⟨filled,plain,fun valid => isUtf8_last _ _ ?_ valid⟩
  intro c first
  have stops := List.head?_dropWhile_not (fun c => !endsToken c) value
  rw [first] at stops
  exact terminator_ascii c (.inr (by simpa using stops))

theorem prefixRule_aligned (start : Bytes) (member : start ∈ kPrefixes) : Aligned (prefixRule start) := by
  intro text found located
  obtain ⟨value,-,rfl⟩ := prefixRule_some located
  obtain ⟨filled,-,-,tokens,-⟩ := kPrefixes_bytes start member
  have run : ∀ c ∈ value.takeWhile isTokenByte, c < 128 := fun c token => token_ascii c (List.mem_takeWhile_imp token)
  have plain : ∀ c ∈ start, c < 128 := fun c token => token_ascii c (tokens c token)
  split
  · refine ⟨List.append_ne_nil_of_left_ne_nil filled _,?_,id⟩
    intro c kept
    rcases List.mem_append.mp kept with front | back
    · exact plain c front
    · exact run c back
  · exact ⟨filled,plain,(isUtf8_front _ _ run).mp⟩

theorem redactionRules_aligned : ∀ rule ∈ redactionRules, Aligned rule := by
  intro rule member
  rcases redactionRules_cases member with ⟨key,known,rfl⟩ | rfl | ⟨start,known,rfl⟩
  · exact keyRule_aligned key known
  · exact bearerRule_aligned
  · exact prefixRule_aligned start known

/-- Redaction leaves a UTF-8 text one. -/
theorem redactSecrets_utf8 (text : Bytes) (valid : IsUtf8 text) : IsUtf8 (redactSecrets text) := by
  rw [redactSecrets,Masking.passes]
  have rules : ∀ rule ∈ redactionRules, Masking.Lawful redactionMask rule ∧ Aligned rule :=
    fun rule member => ⟨redactionRules_lawful rule member,redactionRules_aligned rule member⟩
  generalize redactionRules = list at rules
  induction list generalizing text with
  | nil => exact valid
  | cons rule rest ih =>
    obtain ⟨lawful,aligned⟩ := rules rule List.mem_cons_self
    refine ih _ ?_ fun other member => rules other (List.mem_cons_of_mem _ member)
    refine Masking.pass_invariant IsUtf8 lawful.splits ?_ text.length [] text valid
    intro done text found located _ whole
    obtain ⟨filled,plain,behind⟩ := aligned text found located
    rw [List.append_assoc,List.append_assoc,isUtf8_cut_plain _ _ _ plain filled] at whole ⊢
    exact ⟨whole.1,(isUtf8_front _ _ (ascii_plain redactionMask rfl)).mpr (behind whole.2)⟩

end Strings

/-! ### Where the texts are placed -/

namespace HttpResponse

def contentType (response : HttpResponse) : Bytes :=
  trim ((response.headers.getOr (ascii "Content-Type") []).takeWhile (· ≠ 59))

/-- What a test leaves of a response in its metadata; `elapsed` in milliseconds. -/
def toMetadataJson (response : HttpResponse) (elapsed : Int) : Value := Value.objectOf ([
  (ascii "http_method",.string response.requestMethod),
  (ascii "http_url",.string response.requestUrl),
  (ascii "http_status",.int response.statusCode),
  (ascii "http_status_text",.string response.statusText),
  (ascii "response_time_ms",.int elapsed),
  (ascii "content_type",.string response.contentType),
  (ascii "response_bytes",.int response.body.length)] ++
  (if response.transportError then [(ascii "transport_error",.string response.errorMessage)] else []) ++ [
  (ascii "response_excerpt",.string (truncate (redactSecrets response.body) 2000)),
  (ascii "response_headers",response.headers.toRedactedJson)])

theorem find_excerpt (response : HttpResponse) (elapsed : Int) :
    (response.toMetadataJson elapsed).find (ascii "response_excerpt") =
      some (.string (truncate (redactSecrets response.body) 2000)) := by
  rw [toMetadataJson]
  cases response.transportError <;> rfl

end HttpResponse

namespace Assertions

def matchesGlob (text pattern expression message : Bytes) : Report where
  succeeded := globMatch pattern text
  expression
  expected := ascii "text matching " ++ display pattern
  actual := display (truncate text 400)
  message

theorem display_utf8 (text : Bytes) : IsUtf8 (display text) ↔ IsUtf8 text := by
  rw [display,List.cons_append,isUtf8_cons _ _ (by decide),isUtf8_behind _ _ (ascii_plain [34] rfl)]

/-- What a check on a document that lacks a field reports of it. -/
theorem absent_utf8 (label : Bytes) (plain : label.all (·.toNat.blt 128) = true) (document : Value)
    (readable : ∀ u ∈ document.subvalues, u.Readable) :
    IsUtf8 (label ++ truncate document.dump 400) ↔ CutWhole document.dump 400 := by
  have told : IsUtf8 document.dump := by
    rw [← Value.dumpInto_compact (-1) (by decide) _ 0]
    exact Value.dumpInto_utf8 _ _ readable 0
  rw [isUtf8_front _ _ (ascii_plain label plain)]
  exact truncate_utf8 _ told 400

end Assertions

namespace FailureContext

/-- The allowed metadata that are texts, with their keys. -/
def metadataTexts (members : List (Bytes × Value)) : List (Bytes × Bytes) :=
  (lastWins (members.filter fun member => member.1 ∈ kAllowedMetadataKeys)).filterMap fun member =>
    member.2.asString?.map (member.1,·)

/-- The texts that `build` cuts, with their limits. -/
def sources (limits : Limits) (result : TestResult) (members : List (Bytes × Value)) : List (Bytes × Nat) :=
  let beyond := limits.maxTotalBytes < wholeSize limits result members
  [(redactSecrets result.errorMessage,1000),
    if beyond then (result.errorMessage,500) else (redactSecrets result.errorDetail,limits.maxErrorDetail)] ++
  (metadataTexts members).map (fun member => (redactSecrets member.2,
    if member.1 = ascii "response_excerpt" then limits.maxResponseExcerpt else 500)) ++
  if beyond then []
  else (result.logs.drop (result.logs.length - limits.maxLogLines)).map fun line =>
    (redactSecrets line,limits.maxLogLineLength)

/-- The places of a context where cut texts stand. -/
def cutTexts (context : Value) : List Bytes :=
  match context.find (ascii "result") with
  | some outcome =>
    [ascii "error_message",ascii "error_detail"].filterMap (fun key => (outcome.find key).bind Value.asString?) ++
      (match outcome.find (ascii "metadata") with
        | some (.object members) => members.filterMap (·.2.asString?)
        | _ => []) ++
      stringsFromJson (outcome.find (ascii "log_tail"))
  | none => []

/-- In a document of the members that `build` sets. -/
theorem cutTexts_evidence (limits : Limits) (result : TestResult) (members rest : List (Bytes × Value)) (detail : Bytes)
    (logs : List Bytes) : cutTexts (.object (evidenceMembers limits result members detail logs ++ rest)) =
      [truncate (redactSecrets result.errorMessage) 1000,detail] ++
        (metadataTexts members).map (fun member => truncate (redactSecrets member.2)
          (if member.1 = ascii "response_excerpt" then limits.maxResponseExcerpt else 500)) ++ logs := by
  have outcome : (Value.object (evidenceMembers limits result members detail logs ++ rest)).find (ascii "result") =
      some (.object (outcomeMembers limits result members detail logs)) := rfl
  have metadata : (Value.object (outcomeMembers limits result members detail logs)).find (ascii "metadata") =
      some (allowedMetadata limits members) := rfl
  have tail : (Value.object (outcomeMembers limits result members detail logs)).find (ascii "log_tail") =
      some (stringsToJson logs) := rfl
  have texts : ([ascii "error_message",ascii "error_detail"].filterMap fun key =>
      ((Value.object (outcomeMembers limits result members detail logs)).find key).bind Value.asString?) =
        [truncate (redactSecrets result.errorMessage) 1000,detail] := rfl
  simp only [cutTexts,outcome,metadata,tail,texts,stringsFromJson_stringsToJson,allowedMetadata,Value.select_eq]
  congr 2
  rw [metadataTexts,List.filterMap_map,List.map_filterMap]
  apply List.filterMap_congr
  intro member _
  rw [Function.comp_apply]
  cases shape : member.2 with
  | string text => simp [metadataEvidence,shape,Value.asString?]
  | _ => simp [metadataEvidence,shape,Value.asString?]

theorem cutTexts_build (limits : Limits) (result : TestResult) (members : List (Bytes × Value))
    (metadata : result.metadata = .object members) (context : Value) (built : build limits result = .ok context) :
    cutTexts context = (sources limits result members).map fun source => truncate source.1 source.2 := by
  rw [build_object limits result members metadata,Except.ok.injEq] at built
  subst built
  rw [sources]
  split
  · next beyond =>
    rw [trimmed_eq,cutTexts_evidence]
    simp [Function.comp_def]
  · next small =>
    have whole := cutTexts_evidence limits result members [] (truncate (redactSecrets result.errorDetail) limits.maxErrorDetail)
      (logTail limits result.logs)
    rw [List.append_nil] at whole
    rw [evidence_eq,whole]
    simp [Function.comp_def,logTail]

/-- The texts of a result that `build` copies from are UTF-8. -/
structure Utf8Texts (result : TestResult) (members : List (Bytes × Value)) : Prop where
  errorMessage : IsUtf8 result.errorMessage
  errorDetail : IsUtf8 result.errorDetail
  logs : ∀ line ∈ result.logs, IsUtf8 line
  metadata : ∀ member ∈ members, ∀ text ∈ member.2.asString?, IsUtf8 text

theorem sources_utf8 (limits : Limits) (result : TestResult) (members : List (Bytes × Value))
    (valid : Utf8Texts result members) : ∀ source ∈ sources limits result members, IsUtf8 source.1 := by
  intro source listed
  have metadata : ∀ member ∈ metadataTexts members, IsUtf8 member.2 := by
    intro named member
    obtain ⟨found,kept,shape⟩ := List.mem_filterMap.mp member
    obtain ⟨text,told,rfl⟩ := Option.map_eq_some_iff.mp shape
    exact valid.metadata found (List.mem_of_mem_filter (lastWins_subset kept)) text told
  rw [sources] at listed
  simp only [List.mem_append,List.mem_cons,List.not_mem_nil,or_false,List.mem_map] at listed
  rcases listed with (((message | detail) | ⟨member,known,rfl⟩) | logs)
  · rw [message]
    dsimp only
    exact redactSecrets_utf8 _ valid.errorMessage
  · rw [detail]
    split <;> dsimp only
    · exact valid.errorMessage
    · exact redactSecrets_utf8 _ valid.errorDetail
  · dsimp only
    exact redactSecrets_utf8 _ (metadata member known)
  · split at logs
    · cases logs
    · obtain ⟨line,known,rfl⟩ := List.mem_map.mp logs
      dsimp only
      exact redactSecrets_utf8 _ (valid.logs line (List.mem_of_mem_drop known))

theorem cutTexts_utf8 (limits : Limits) (result : TestResult) (members : List (Bytes × Value))
    (metadata : result.metadata = .object members) (valid : Utf8Texts result members) (context : Value)
    (built : build limits result = .ok context) : (∀ text ∈ cutTexts context, IsUtf8 text) ↔
      ∀ source ∈ sources limits result members, CutWhole source.1 source.2 := by
  have whole := sources_utf8 limits result members valid
  rw [cutTexts_build limits result members metadata context built,List.forall_mem_map]
  exact forall₂_congr fun source listed => truncate_utf8 source.1 (whole source listed) source.2

end FailureContext

open FailureContext Assertions

/-- Each cut text is UTF-8 exactly when the cut does not fall inside a character. -/
theorem truncation_utf8_iff (response : HttpResponse) (elapsed : Int) (limits : Limits) (result : TestResult)
    (members : List (Bytes × Value)) (context : Value) (haystack needle expression message : Bytes) (document expected : Value)
    (dottedPath : Bytes) :
    (IsUtf8 response.body →
      ∃ excerpt, (response.toMetadataJson elapsed).find (ascii "response_excerpt") = some (.string excerpt) ∧
        (IsUtf8 excerpt ↔ CutWhole (redactSecrets response.body) 2000)) ∧
    (result.metadata = .object members → Utf8Texts result members → build limits result = .ok context →
      ((∀ text ∈ cutTexts context, IsUtf8 text) ↔
        ∀ source ∈ sources limits result members, CutWhole source.1 source.2)) ∧
    (IsUtf8 haystack →
      (IsUtf8 (containsSubstring haystack needle expression).actual ↔ CutWhole haystack 400) ∧
        (IsUtf8 (doesNotContainSubstring haystack needle expression).actual ↔ CutWhole haystack 400) ∧
          (IsUtf8 (matchesGlob haystack needle expression message).actual ↔ CutWhole haystack 400)) ∧
    ((∀ u ∈ document.subvalues, u.Readable) → document.path dottedPath = none →
      (IsUtf8 (jsonHasField document dottedPath).actual ↔ CutWhole document.dump 400) ∧
        (IsUtf8 (jsonFieldEquals document dottedPath expected).actual ↔ CutWhole document.dump 400)) := by
  refine ⟨?_,?_,?_,?_⟩
  · intro valid
    exact ⟨_,response.find_excerpt elapsed,truncate_utf8 _ (redactSecrets_utf8 _ valid) 2000⟩
  · intro metadata valid built
    exact cutTexts_utf8 limits result members metadata valid context built
  · intro valid
    have shown := (display_utf8 _).trans (truncate_utf8 haystack valid 400)
    exact ⟨shown,shown,shown⟩
  · intro readable absent
    constructor
    · rw [jsonHasField,absent]
      exact absent_utf8 (ascii "absent; document = ") rfl document readable
    · rw [jsonFieldEquals,absent]
      exact absent_utf8 (ascii "field absent; document = ") rfl document readable

/-- Letters, a character of two bytes, and letters behind it. -/
def accented (letters : Nat) : Bytes := List.replicate letters 97 ++ (0xC3 :: 0xA9 :: List.replicate 20 97)

theorem accented_utf8 (letters : Nat) : IsUtf8 (accented letters) := by
  have plain (n : Nat) : ∀ c ∈ List.replicate n (97 : UInt8), c < 128 := by
    intro c member
    rw [List.eq_of_mem_replicate member]
    decide
  rw [accented,isUtf8_front _ _ (plain letters)]
  exact (isUtf8_behind [0xC3,0xA9] _ (plain 20)).mpr (by decide +kernel)

theorem length_accented (letters : Nat) : (accented letters).length = letters + 22 := by simp [accented]

theorem accented_get (letters n : Nat) : (accented letters)[letters + n]? = (0xC3 :: 0xA9 :: List.replicate 20 97)[n]? := by
  rw [accented,List.getElem?_append_right (by simp)]
  simp

/-- The limit of 400 leaves the letters in front of the character. -/
theorem truncation_utf8_cut :
    (400 < (accented 385).length ∧ IsUtf8 (containsSubstring (accented 385) [98] []).actual) ∧
    (∃ excerpt, (HttpResponse.toMetadataJson { body := accented 1985 } 7).find (ascii "response_excerpt") =
        some (.string excerpt) ∧ (IsUtf8 excerpt ↔ CutWhole (redactSecrets (accented 1985)) 2000)) ∧
    (∃ context, build {} { errorMessage := accented 1985 } = .ok context ∧
      ((∀ text ∈ cutTexts context, IsUtf8 text) ↔
        ∀ source ∈ sources {} { errorMessage := accented 1985 } [], CutWhole source.1 source.2)) ∧
    (IsUtf8 (jsonHasField (.string (accented 400)) [97]).actual ↔
      CutWhole (Value.dump (.string (accented 400))) 400) := by
  have context := build_object {} { errorMessage := accented 1985 } [] rfl
  obtain ⟨metadata,built,text,document⟩ := truncation_utf8_iff { body := accented 1985 } 7 {}
    { errorMessage := accented 1985 } [] _ (accented 385) [98] [] [] (.string (accented 400)) .null [97]
  refine ⟨⟨by rw [length_accented]; decide,(text (accented_utf8 385)).1.mpr (.inr ?_)⟩,
    metadata (accented_utf8 1985),
    ⟨_,context,built rfl ⟨accented_utf8 1985,isUtf8_nil,by simp,by simp⟩ context⟩,?_⟩
  · intro c here
    have place : (accented 385)[cutPosition 400]? = some 0xC3 := accented_get 385 0
    obtain rfl : 0xC3 = c := by simpa [place] using here
    decide
  · exact (document (by simpa [Value.subvalues,Value.Readable] using accented_utf8 400) rfl).1

/-- With one letter less the limit leaves one byte of the character. -/
theorem character_split : ¬∀ haystack needle expression : Bytes, IsUtf8 haystack →
    IsUtf8 (containsSubstring haystack needle expression).actual := by
  intro survives
  have shown := (display_utf8 _).mp (survives _ [98] [] (accented_utf8 384))
  rcases (truncate_utf8 _ (accented_utf8 384) 400).mp shown with short | whole
  · rw [length_accented] at short
    omega
  · have place : (accented 384)[cutPosition 400]? = some 0xA9 := accented_get 384 1
    exact absurd (whole 0xA9 place) (by decide)

end TestForge
