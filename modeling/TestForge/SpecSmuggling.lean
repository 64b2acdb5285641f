import TestForge.SpecHeaders
import TestForge.SpecTarget

/-! A name that is read back as a forbidden one carries its value past the gate. -/
namespace TestForge

open Json Sequence Strings Chunked HttpHeaders HttpClient HttpServer

theorem lowerAscii_eq (x c : UInt8) (other : isAlpha c = false) : lowerAscii x = c ↔ x = c := by
  simp only [isAlpha,Bool.or_eq_false_iff,Bool.and_eq_false_iff,decide_eq_false_iff_not] at other
  unfold lowerAscii
  grind

theorem isSpace_lowerAscii (c : UInt8) : isSpace (lowerAscii c) = isSpace c := by
  rw [Bool.eq_iff_iff]
  simp only [isSpace,Bool.or_eq_true,beq_iff_eq,Bool.and_eq_true,decide_eq_true_eq]
  unfold lowerAscii
  grind

theorem toLower_trim (text : Bytes) : toLower (trim text) = trim (toLower text) := by
  have spaces : isSpace ∘ lowerAscii = isSpace := funext isSpace_lowerAscii
  simp [toLower,trim,List.rdropWhile,List.dropWhile_map,spaces,← List.map_reverse]

theorem cut_toLower (name : Bytes) :
    cut 58 (toLower name) = (cut 58 name).map fun parts => (toLower parts.1,toLower parts.2) := by
  induction name with
  | nil => rfl
  | cons c rest ih =>
    have colon := lowerAscii_eq c 58 (by decide)
    simp only [toLower,List.map_cons,cut] at ih ⊢
    by_cases same : c = 58
    · simp [same,lowerAscii]
    · rw [if_neg (colon.not.mpr same),if_neg same,ih,Option.map_map,Option.map_map]
      rfl

theorem toLower_fieldName (name : Bytes) : toLower (fieldName name) = fieldName (toLower name) := by
  simp only [fieldName,toLower_trim,cut_toLower]
  cases cut 58 name <;> simp

/-- A visible last byte survives trimming. -/
theorem trim_concat (front : Bytes) (c : UInt8) (visible : isSpace c = false) :
    ∃ kept, trim (front ++ [c]) = kept ++ [c] := by
  have dropped : ∃ kept, (front ++ [c]).dropWhile isSpace = kept ++ [c] := by
    induction front with
    | nil => exact ⟨[],by simp [visible]⟩
    | cons x front ih =>
      by_cases space : isSpace x = true
      · simpa [space] using ih
      · exact ⟨x :: front,by simp [space]⟩
  obtain ⟨kept,equal⟩ := dropped
  exact ⟨kept,by rw [trim,equal,List.rdropWhile_concat_neg _ _ _ (by simp [visible])]⟩

/-- The spec with every string header of one name, ignoring case, set to `value`. -/
def replaceValue (name value : Bytes) (spec : TestSpec) : TestSpec :=
  { spec with headers := spec.headers.map fun header =>
      if toLower header.1 = name ∧ header.2.asString?.isSome then (header.1,.string value) else header }

theorem replaceValue_shape (name value : Bytes) (spec : TestSpec) :
    SameShape spec (replaceValue name value spec) where
  rest := rfl
  headers := by
    rw [replaceValue,List.forall₂_map_right_iff,List.forall₂_same]
    intro header _
    split
    · next replaced => exact ⟨rfl,.inr ⟨replaced.2,rfl⟩⟩
    · exact ⟨rfl,.inl rfl⟩

theorem replaceValue_accepted (validator : SpecValidator) (name value : Bytes) (spec : TestSpec)
    (clean : SpecValidator.hasControlCharacter value = false)
    (short : value.length ≤ SpecValidator.maxHeaderValueLength) (accepted : validator.Accepts spec) :
    validator.Accepts (replaceValue name value spec) := by
  obtain ⟨index,issues⟩ := accepted
  refine ⟨index,fun issue found => ?_⟩
  have headers (issue : ValidationIssue)
      (found : issue ∈ SpecValidator.headersIssues (replaceValue name value spec)
        (SpecValidator.testPrefix index)) :
      issue ∈ SpecValidator.headersIssues spec (SpecValidator.testPrefix index) := by
    simp only [SpecValidator.headersIssues,List.mem_append,List.mem_flatMap] at found ⊢
    rcases found with found | ⟨header,member,found⟩
    · left
      simpa [replaceValue] using found
    · right
      simp only [replaceValue,List.mem_map] at member
      obtain ⟨original,member,rfl⟩ := member
      refine ⟨original,member,?_⟩
      split at found
      · simp only [SpecValidator.headerIssues,Value.asString?,clean,List.mem_append] at found ⊢
        rcases found with found | found | found
        · exact .inl found
        · simp [SpecValidator.issueIf] at found
        · simp [SpecValidator.issueIf,Nat.not_lt.mpr short] at found
      · exact found
  apply issues
  simp only [SpecValidator.validateOne,List.mem_append] at found ⊢
  rcases found with ((found | found) | body) | assertions
  · exact .inl (.inl (.inl found))
  · exact .inl (.inl (.inr (headers issue found)))
  · exact .inl (.inr body)
  · exact .inr assertions

/-- The bytes of a request target come from the text behind the authority. -/
theorem requestTarget_subset (url : Url) (text : Bytes)
    (path : url.path = ((cut 63 (47 :: text)).getD (47 :: text,[])).1)
    (query : url.query = ((cut 63 (47 :: text)).getD (47 :: text,[])).2) :
    url.requestTarget ⊆ 47 :: 63 :: text := by
  have pieces : url.path ⊆ 47 :: 63 :: text ∧ url.query ⊆ 47 :: 63 :: text := by
    rw [path,query]
    cases found : cut 63 (47 :: text) with
    | none => exact ⟨by intro c member; simp at member ⊢; tauto,by simp⟩
    | some parts =>
      have whole := ((cut_eq_some 63 _ parts.1 parts.2).mp found).1
      have part (c : UInt8) (member : c ∈ parts.1 ++ 63 :: parts.2) : c ∈ 47 :: 63 :: text := by
        rw [← whole] at member
        simp at member ⊢
        tauto
      exact ⟨fun c member => part c (by simp [show c ∈ parts.1 from member]),
        fun c member => part c (by simp [show c ∈ parts.2 from member])⟩
  intro c member
  have cases : c = 47 ∨ c = 63 ∨ c ∈ url.path ∨ c ∈ url.query := by
    by_cases path : url.path = [] <;> by_cases query : url.query = [] <;>
      simp [Url.requestTarget,path,query,ascii] at member <;> tauto
  rcases cases with rfl | rfl | member | member
  · simp
  · simp
  · exact pieces.1 member
  · exact pieces.2 member

/-- Below the plain base, every text parses as a URL of host "h". -/
theorem parseUrl_h (more : Bytes) : ∃ url, parseUrl (ascii "http://h/" ++ more) = some url ∧
    url.scheme = ascii "http" ∧ url.host = ascii "h" ∧ url.authority = ascii "h" ∧
    url.requestTarget ⊆ 47 :: 63 :: more := by
  obtain ⟨kept,trimmed,pre⟩ := rdropWhile_append_visible (ascii "http://h") more 47 (by decide)
  have text : ascii "http://h/" ++ more = 104 :: (ascii "ttp://h/" ++ more) := by simp [ascii]
  have whole : trim (ascii "http://h/" ++ more) = ascii "http" ++ ascii "://" ++ (104 :: 47 :: kept) := by
    rw [text,trim_of_head 104 _ (by decide),← text,
      show ascii "http://h/" ++ more = ascii "http://h" ++ 47 :: more by simp [ascii],trimmed]
    simp [ascii]
  have cutScheme := cutOn_scheme (ascii "http") (104 :: 47 :: kept) (by decide +kernel)
  obtain ⟨left,fragment,cutHash,leftPrefix⟩ : ∃ left fragment,
      (cut 35 (104 :: 47 :: kept)).getD (104 :: 47 :: kept,[]) = (104 :: 47 :: left,fragment) ∧
        left <+: kept := by
    have fresh := getD_cut_append 35 [104,47] kept (by decide)
    simp only [List.cons_append,List.nil_append] at fresh
    exact ⟨_,_,Prod.ext fresh rfl,getD_cut_fst_bound 35 kept⟩
  have splits : splitPath (104 :: 47 :: left) = (ascii "h",47 :: left) := by
    simp [splitPath,cut,ascii]
  have authority : parseAuthority (stripUserinfo (ascii "h")) = some (ascii "h",0) := by decide
  have parsed : parseUrl (ascii "http://h/" ++ more) = some {
      scheme := ascii "http", host := ascii "h", port := 80
      path := if ((cut 63 (47 :: left)).getD (47 :: left,[])).1 = [] then ascii "/"
        else ((cut 63 (47 :: left)).getD (47 :: left,[])).1
      query := ((cut 63 (47 :: left)).getD (47 :: left,[])).2, fragment } := by
    simp only [parseUrl,whole,cutScheme,cutHash,splits,authority]
    rw [if_neg (by simp [ascii]; decide +kernel),if_neg (by decide)]
    rfl
  have rooted : ((cut 63 (47 :: left)).getD (47 :: left,[])).1 ≠ [] := by
    have fresh := getD_cut_append 63 [47] left (by decide)
    simp only [List.singleton_append] at fresh
    simp [fresh]
  refine ⟨_,parsed,rfl,rfl,by simp [Url.authority,defaultPortFor,ascii],?_⟩
  exact List.Subset.trans (requestTarget_subset _ left (if_neg rooted) rfl)
    (List.cons_subset_cons _ (List.cons_subset_cons _ (leftPrefix.trans pre).subset))

/-- Joining an endpoint to the plain base keeps its bytes. -/
theorem joinUrl_h (rest : Bytes) (dots : contains (47 :: rest) (ascii "..") = false) :
    ∃ more, joinUrl (ascii "http://h") (47 :: rest) = some (ascii "http://h/" ++ more) ∧
      more ⊆ 63 :: rest := by
  have parsed : parseUrl (ascii "http://h") = some { scheme := ascii "http", host := ascii "h", port := 80 } := by
    decide
  have web : startsWith (47 :: rest) (ascii "http://") = false ∧
      startsWith (47 :: rest) (ascii "https://") = false := ⟨rfl,rfl⟩
  have root : (ascii "/").rdropWhile (· == 47) = [] := by decide
  simp only [joinUrl,dots,web,parsed,Bool.false_eq_true,↓reduceIte,root,List.nil_append]
  cases found : cut 63 (47 :: rest) with
  | none =>
    refine ⟨rest,?_,by simp⟩
    simp [Url.toString,Url.authority,Url.requestTarget,defaultPortFor,ascii]
  | some parts =>
    obtain ⟨whole,_⟩ := (cut_eq_some 63 _ parts.1 parts.2).mp found
    obtain ⟨path,pathEq⟩ : ∃ path, parts.1 = 47 :: path := by
      cases front : parts.1 with
      | nil => simp [front] at whole
      | cons c path =>
        rw [front,List.cons_append,List.cons.injEq] at whole
        exact ⟨path,by rw [whole.1]⟩
    have restEq : rest = path ++ 63 :: parts.2 := by simpa [pathEq] using whole
    by_cases query : parts.2 = []
    · refine ⟨path,?_,by rw [restEq]; intro c member; simp [member]⟩
      simp [Url.toString,Url.authority,Url.requestTarget,defaultPortFor,ascii,pathEq,query]
    · refine ⟨path ++ 63 :: parts.2,?_,by rw [restEq]; intro c member; simp at member ⊢; tauto⟩
      simp [Url.toString,Url.authority,Url.requestTarget,defaultPortFor,ascii,pathEq,query]

end TestForge
