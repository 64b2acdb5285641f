import TestForge.Generation
import TestForge.RequestTarget

/-! The two gates in front of the registry. A generated test names a path below the base URL, so
the hosts that only the service admits make no difference where the host of the base is read back
as it was printed: what the service reports as accepted is what is registered. In no session,
whatever a provider answers or a file holds, does a test come into the registry that the gate of
the registration has not accepted. -/
namespace TestForge

open Json Sequence Strings Settings TestRegistry

/-! ### The two validators -/

theorem parseUrl_joined (home : Url) (valid : home.WellFormed) (known : defaultPortFor home.scheme ≠ 0)
    (plain : home.Plain) (tail : Bytes) (rooted : tail.head? = some 47) :
    ∃ url, parseUrl (home.scheme ++ ascii "://" ++ (home.authority ++ tail)) = some url ∧
      url.scheme = home.scheme ∧ url.host = home.host := by
  obtain ⟨slash,sharp⟩ := authority_plain home valid
  obtain ⟨rest,rfl⟩ := List.head?_eq_some_iff.mp rooted
  obtain ⟨kept,trimmed,-,-⟩ := trim_behind home valid (ascii "://" ++ home.authority) rest 47 (by decide)
  have text : home.scheme ++ ascii "://" ++ (home.authority ++ 47 :: rest) =
      home.scheme ++ (ascii "://" ++ home.authority) ++ 47 :: rest := by simp
  obtain ⟨target,hash,fragment,shape,front,fresh,marked⟩ : ∃ target hash fragment, 47 :: kept = target ++ hash ∧
      target.head? = some 47 ∧ 35 ∉ target ∧ (hash = 35 :: fragment ∨ (hash = [] ∧ fragment = [])) := by
    cases found : cut 35 (47 :: kept) with
    | none => exact ⟨47 :: kept,[],[],by simp,rfl,(cut_eq_none 35 _).mp found,.inr ⟨rfl,rfl⟩⟩
    | some parts =>
      obtain ⟨whole,absent⟩ := (cut_eq_some 35 _ parts.1 parts.2).mp found
      refine ⟨parts.1,35 :: parts.2,parts.2,whole,?_,absent,.inl rfl⟩
      cases start : parts.1 with
      | nil => simp [start] at whole
      | cons c more =>
        rw [start,List.cons_append] at whole
        rw [← (List.cons.inj whole).1]
        rfl
  rw [← text,shape] at trimmed
  obtain ⟨port,authority,-⟩ := valid.authority_reparse known plain
  have parsed := parseUrl_parts valid.schemeNamed valid.schemeChars valid.schemeLowered slash sharp front fresh marked
    (trimmed.trans (by simp))
  rw [authority,Option.bind_some] at parsed
  dsimp only at parsed
  rw [if_neg valid.hostNamed,valid.hostLowered] at parsed
  exact ⟨_,parsed,rfl,rfl⟩

namespace SpecValidator

variable {left right : SpecValidator} (same : ∀ spec index, left.validateOne spec index = right.validateOne spec index)
include same

theorem validateTests_congr (tests : List TestSpec) (index : Nat) (seen : List Bytes) :
    left.validateTests tests index seen = right.validateTests tests index seen := by
  induction tests generalizing index seen with
  | nil => rfl
  | cons spec rest ih => rw [validateTests,validateTests,same,ih]

theorem validate_congr (limit : left.config = right.config) (suite : TestSpecSuite) :
    left.validate suite = right.validate suite := by
  simp only [validate,limit,validateTests_congr same]

end SpecValidator

namespace TestForgeService

variable (config : Config)

/-- The validator in front of the registry. -/
def gate : SpecValidator := registrationValidator (validationConfig config) (targetConfig config)

/-- The host of the base URL is read back as it was printed. -/
def PlainBase : Prop := ∀ home, parseUrl config.api.baseUrl = some home → home.Plain

variable {config}

/-- The base is a web address whose host is read back as it was printed. -/
def PlainWeb (config : Config) : Prop :=
  ∃ home, parseUrl config.api.baseUrl = some home ∧ home.scheme ∈ [ascii "http",ascii "https"] ∧ home.Plain

theorem plainWeb_default : PlainWeb {} := by
  have parsed : parseUrl ({} : Config).api.baseUrl =
      some { scheme := ascii "http", host := ascii "127.0.0.1", port := 8000, path := ascii "/" } := by
    decide
  exact ⟨_,parsed,by decide,by decide,by decide,by decide⟩

theorem PlainWeb.plainBase (based : PlainWeb config) : PlainBase config := by
  obtain ⟨home,parsed,-,plain⟩ := based
  intro other also
  obtain rfl := Option.some.inj (parsed.symm.trans also)
  exact plain

theorem parseUrl_joinUrl (home : Url) (parsed : parseUrl config.api.baseUrl = some home)
    (web : home.scheme ∈ [ascii "http",ascii "https"]) (plain : home.Plain) (endpoint joined : Bytes)
    (rooted : endpoint.head? = some 47) (result : joinUrl config.api.baseUrl endpoint = some joined) :
    ∃ url, parseUrl joined = some url ∧ url.scheme = home.scheme ∧ url.host = home.host := by
  obtain ⟨other,also,text⟩ := joinUrl_printed _ endpoint joined rooted result
  obtain rfl : home = other := Option.some.inj (parsed.symm.trans also)
  have valid := parseUrl_wellFormed _ home parsed
  have known : defaultPortFor home.scheme ≠ 0 := by
    revert web
    generalize home.scheme = scheme
    revert scheme
    decide
  have tail : (home.path.rdropWhile (· == 47) ++ printed endpoint).head? = some 47 := by
    obtain ⟨rest,rfl⟩ := List.head?_eq_some_iff.mp rooted
    obtain ⟨more,parts⟩ := targetParts_rooted rest
    obtain ⟨behind,shape⟩ : ∃ behind, printed (47 :: rest) = 47 :: behind := ⟨_,by rw [printed,parts]; rfl⟩
    rw [shape]
    exact valid.base_rooted (List.rdropWhile_prefix _ _) behind
  exact text ▸ parseUrl_joined home valid known plain _ tail

theorem rejectText_agrees (plain : PlainBase config) (endpoint joined : Bytes) (rooted : endpoint.head? = some 47)
    (result : joinUrl config.api.baseUrl endpoint = some joined) :
    (serviceValidator config).policy.rejectText joined = (gate config).policy.rejectText joined := by
  obtain ⟨home,below,query,parsed,shape⟩ := joinUrl_endpoint _ endpoint joined rooted result
  have wide : (serviceValidator config).policy = { allowedHosts := home.host :: config.ai.allowedTargetHosts } := by
    simp [serviceValidator,UrlPolicy.restrictedTo,parsed]
  have narrow : (gate config).policy = { allowedHosts := [home.host] } := by
    simp [gate,registrationValidator,targetConfig,UrlPolicy.restrictedTo,parsed]
  simp only [UrlPolicy.rejectText,wide,narrow]
  by_cases web : home.scheme ∈ [ascii "http",ascii "https"]
  · obtain ⟨url,reparsed,scheme,host⟩ := parseUrl_joinUrl home parsed web (plain home parsed) endpoint joined rooted result
    simp [reparsed,UrlPolicy.reject,scheme,web,host]
  · cases reparsed : parseUrl joined with
    | none => rfl
    | some url =>
      have scheme : url.scheme = home.scheme :=
        (reparse_join home url (parseUrl_wellFormed _ home parsed) _ below query (List.rdropWhile_prefix _ _)
          (shape ▸ reparsed)).1
      simp only [UrlPolicy.reject,scheme,web,not_false_eq_true,if_true]

theorem validateOne_agrees (plain : PlainBase config) (spec : TestSpec) (index : Nat) :
    (serviceValidator config).validateOne spec index = (gate config).validateOne spec index := by
  have endpoint (pre : Bytes) :
      (serviceValidator config).endpointIssues spec pre = (gate config).endpointIssues spec pre := by
    rw [SpecValidator.endpointIssues,SpecValidator.endpointIssues]
    split
    · rfl
    · next safe =>
      have rooted := (SpecValidator.isSafeEndpoint_ok safe).2.2.1
      have base : (gate config).baseUrl = (serviceValidator config).baseUrl := rfl
      rw [base]
      cases result : joinUrl (serviceValidator config).baseUrl spec.endpoint with
      | none => rfl
      | some joined =>
        simp only
        rw [rejectText_agrees plain spec.endpoint joined rooted result]
  simp only [SpecValidator.validateOne,endpoint]

theorem validate_agrees (plain : PlainBase config) (suite : TestSpecSuite) :
    (serviceValidator config).validate suite = (gate config).validate suite :=
  SpecValidator.validate_congr (validateOne_agrees plain) rfl suite

/-! ### Replies -/

/-- What brings tests into the registry while the service runs. -/
inductive Command where
  | generateTests (provider : Option AiProvider) (requirement suiteName : Bytes) (maxTests : Int32)
      (registerSuite : Bool)
  | loadSpecFile (content : Option Bytes) (path : Bytes) (registerSuite : Bool)

def Command.registers : Command → Bool
  | .generateTests _ _ _ _ registerSuite => registerSuite
  | .loadSpecFile _ _ registerSuite => registerSuite

section

variable {Factory : Type} (specTestCase : TestMetadata → TestSpec → Factory)

variable (config) in
def Command.perform (registry : TestRegistry Factory) : Command → Value × TestRegistry Factory
  | .generateTests provider requirement suiteName maxTests registerSuite =>
    generateTestsReply specTestCase config provider registry requirement suiteName maxTests registerSuite
  | .loadSpecFile content path registerSuite =>
    TestForgeService.loadSpecFile specTestCase config content registry path registerSuite

/-- The reply presents a suite, and every test in it went through the gate. -/
structure Presents (config : Config) (reply : Value) (suite : TestSpecSuite) : Prop where
  ok : reply.find (ascii "ok") = some (.bool true)
  specification : reply.find (ascii "specification") = some suite.toJson
  inhabited : suite.tests ≠ []
  accepted : ∀ spec ∈ suite.tests, (gate config).Accepts spec

/-- The suite is what the registry has of its name, and the reply says so. -/
structure Registered (config : Config) (registry : TestRegistry Factory) (suite : TestSpecSuite)
    (answer : Value × TestRegistry Factory) : Prop where
  presents : Presents config answer.1 suite
  count : answer.1.find (ascii "registered") = some (.int suite.tests.length)
  next : answer.2 =
    registerEntries (registry.removeSuite suite.suite).1 (suite.tests.map (specEntry specTestCase suite))

/-- A refusal leaves the registry alone, and what is said to be registered is registered, no less
and nothing else. -/
inductive Told (config : Config) (registry : TestRegistry Factory) (registers : Bool)
    (answer : Value × TestRegistry Factory) : Prop where
  | refused (ok : answer.1.find (ascii "ok") = some (.bool false))
      (silent : answer.1.find (ascii "registered") = none) (same : answer.2 = registry)
  | shown (suite : TestSpecSuite) (only : registers = false) (presents : Presents config answer.1 suite)
      (none : ∀ count ∈ answer.1.find (ascii "registered"), count = .int 0) (same : answer.2 = registry)
  | registered (suite : TestSpecSuite) (asked : registers = true)
      (done : Registered specTestCase config registry suite answer)

variable {specTestCase}

theorem registerSpecSuite_validated (plain : PlainBase config) (registry : TestRegistry Factory)
    (suite : TestSpecSuite) (valid : ((serviceValidator config).validate suite).1.valid = true) :
    let kept := ((serviceValidator config).validate suite).2
    registerSpecSuite specTestCase registry kept (validationConfig config) (targetConfig config) =
      .ok (registerEntries (registry.removeSuite kept.suite).1 (kept.tests.map (specEntry specTestCase kept)),
        kept.tests.length) := by
  intro kept
  have left : kept = { suite with tests := (gate config).kept suite } :=
    (congrArg (·.2) (validate_agrees plain suite)).trans (SpecValidator.validate_tests _ _)
  have again : ((gate config).validate kept).2 = kept := by
    rw [SpecValidator.validate_tests,left,SpecValidator.kept_again]
  have still : ((gate config).validate kept).1.valid = true := by
    have first := (SpecValidator.validate_report (gate config) suite).2.2
    have second := (SpecValidator.validate_report (gate config) kept).2.2
    rw [left,SpecValidator.kept_again,← first] at second
    rw [left,second,← validate_agrees plain,valid]
  have registered : registerSpecSuite specTestCase registry kept (validationConfig config) (targetConfig config) = _ :=
    registerSpecSuite_of_valid still
  change ((registrationValidator (validationConfig config) (targetConfig config)).validate kept).2 = kept at again
  simpa only [acceptedEntries,again] using registered

theorem presents_validated (plain : PlainBase config) (suite : TestSpecSuite) (reply : Value)
    (valid : ((serviceValidator config).validate suite).1.valid = true)
    (ok : reply.find (ascii "ok") = some (.bool true))
    (specification : reply.find (ascii "specification") =
      some ((serviceValidator config).validate suite).2.toJson) :
    Presents config reply ((serviceValidator config).validate suite).2 := by
  refine ⟨ok,specification,?_,?_⟩
  · have told := (SpecValidator.validate_report (serviceValidator config) suite).2.2
    rw [SpecValidator.validate_tests]
    rintro empty
    simp only at empty
    simp [valid,empty] at told
  · rw [validate_agrees plain]
    exact SpecValidator.validate_accepts _ _

theorem registerChecked_registered (plain : PlainBase config) (registry : TestRegistry Factory) (suite : TestSpecSuite)
    (members : List (Bytes × Value)) (code : Option Bytes)
    (valid : ((serviceValidator config).validate suite).1.valid = true)
    (ok : (Value.object members).find (ascii "ok") = some (.bool true))
    (specification : (Value.object members).find (ascii "specification") =
      some ((serviceValidator config).validate suite).2.toJson) :
    Registered specTestCase config registry ((serviceValidator config).validate suite).2
      (registerChecked specTestCase config registry ((serviceValidator config).validate suite).2 code (.object members)) := by
  have apart : ascii "registered" ≠ ascii "ok" ∧ ascii "registered" ≠ ascii "specification" ∧
      ascii "suite" ≠ ascii "ok" ∧ ascii "suite" ≠ ascii "specification" ∧ ascii "suite" ≠ ascii "registered" := by
    decide
  rw [registerChecked,registerSpecSuite_validated plain registry suite valid]
  refine ⟨presents_validated plain suite _ valid ?_ ?_,?_,rfl⟩
  · simpa [Value.set,Value.find_setMember,apart] using ok
  · simpa [Value.set,Value.find_setMember,apart] using specification
  · simp [Value.set,Value.find_setMember,apart]

theorem answered_told (plain : PlainBase config) (provider : AiProvider) (generation : GenerationResult)
    (registry : TestRegistry Factory) (registerSuite : Bool) :
    Told specTestCase config registry registerSuite
      (answered specTestCase config provider generation registry registerSuite) := by
  unfold answered
  split
  · simp only
    split <;> exact .refused rfl rfl rfl
  · simp only
    cases valid : ((serviceValidator config).validate generation.suite).1.valid with
    | false => exact .refused rfl rfl rfl
    | true =>
      cases registerSuite with
      | true => exact .registered _ rfl (registerChecked_registered plain registry generation.suite _ _ valid rfl rfl)
      | false =>
        refine .shown _ rfl (presents_validated plain generation.suite _ valid rfl rfl) ?_ rfl
        intro count found
        exact (Option.some.inj found).symm

/-- What comes of a command is what its reply says. -/
theorem perform_told (plain : PlainBase config) (registry : TestRegistry Factory) (command : Command) :
    Told specTestCase config registry command.registers (command.perform config specTestCase registry) := by
  cases command with
  | generateTests provider requirement suiteName maxTests registerSuite =>
    simp only [Command.perform,Command.registers,generateTestsReply]
    split
    · exact .refused rfl rfl rfl
    · cases provider with
      | none => simp_all [generateTests]
      | some provider => exact answered_told plain provider _ registry registerSuite
  | loadSpecFile content path registerSuite =>
    simp only [Command.perform,Command.registers,TestForgeService.loadSpecFile]
    cases content with
    | none => exact .refused rfl rfl rfl
    | some text =>
      simp only
      split
      · exact .refused rfl rfl rfl
      · next read _ =>
        generalize (if read.source = [] then { read with source := ascii "file:" ++ path } else read) = read
        cases valid : ((serviceValidator config).validate read).1.valid with
        | false => exact .refused rfl rfl rfl
        | true =>
          cases registerSuite with
          | true => exact .registered _ rfl (registerChecked_registered plain registry read _ _ valid rfl rfl)
          | false =>
            refine .shown _ rfl (presents_validated plain read _ valid rfl rfl) ?_ rfl
            rintro count ⟨⟩

/-- A file with one test is loaded and registered. -/
def loadHealth : Command := .loadSpecFile
  (some (ascii "\x7b\"suite\":\"s\",\"tests\":[\x7b\"name\":\"health\",\"endpoint\":\"/\"\x7d]\x7d")) (ascii "s.json") true

theorem perform_told_health : Told (fun _ _ => 1) {} TestRegistry.clear true
    (loadHealth.perform {} (fun _ _ => 1) TestRegistry.clear) :=
  perform_told plainWeb_default.plainBase TestRegistry.clear loadHealth

/-! ### Sessions -/

variable (specTestCase) in
/-- The registry behind a run of commands. -/
def session (config : Config) (commands : List Command) (registry : TestRegistry Factory) : TestRegistry Factory :=
  commands.foldl (fun registry command => (command.perform config specTestCase registry).2) registry

theorem perform_registry (registry : TestRegistry Factory) (command : Command) :
    (command.perform config specTestCase registry).2 = registry ∨ ∃ suite count,
      registerSpecSuite specTestCase registry suite (validationConfig config) (targetConfig config) =
        .ok ((command.perform config specTestCase registry).2,count) := by
  have checked (suite : TestSpecSuite) (code : Option Bytes) (reply : Value) :
      (registerChecked specTestCase config registry suite code reply).2 = registry ∨ ∃ count,
        registerSpecSuite specTestCase registry suite (validationConfig config) (targetConfig config) =
          .ok ((registerChecked specTestCase config registry suite code reply).2,count) := by
    unfold registerChecked
    split
    · next next_ count ok => exact .inr ⟨count,ok⟩
    · exact .inl rfl
  cases command with
  | generateTests provider requirement suiteName maxTests registerSuite =>
    simp only [Command.perform,generateTestsReply]
    split
    · exact .inl rfl
    · cases provider with
      | none => exact .inl rfl
      | some provider =>
        simp only [answered]
        split
        · split <;> exact .inl rfl
        · split
          · exact .inl rfl
          · split
            · exact (checked _ _ _).imp id fun ⟨count,ok⟩ => ⟨_,count,ok⟩
            · exact .inl rfl
  | loadSpecFile content path registerSuite =>
    simp only [Command.perform,TestForgeService.loadSpecFile]
    cases content with
    | none => exact .inl rfl
    | some text =>
      simp only
      split
      · exact .inl rfl
      · next read _ =>
        generalize (if read.source = [] then { read with source := ascii "file:" ++ path } else read) = read
        split
        · exact (checked _ _ _).imp id fun ⟨count,ok⟩ => ⟨_,count,ok⟩
        · exact .inl rfl

/-- A test that the gate has let in, under the marks of a generated test. -/
def LetIn (specTestCase : TestMetadata → TestSpec → Factory) (config : Config) (entry : Entry Factory) : Prop :=
  ∃ suite spec, entry = specEntry specTestCase suite spec ∧ (gate config).Accepts spec

theorem perform_lookup (registry : TestRegistry Factory) (command : Command) (name : Bytes) (entry : Entry Factory)
    (found : (command.perform config specTestCase registry).2.lookup name = some entry) :
    registry.lookup name = some entry ∨ LetIn specTestCase config entry := by
  have outcome : (command.perform config specTestCase registry).2 = registry ∨ _ := perform_registry registry command
  rcases outcome with same | ⟨suite,count,ok⟩
  · exact .inl (same ▸ found)
  · rcases (registerSpecSuite_lookup ok name entry).mp found with ⟨accepted,-⟩ | ⟨-,stayed,-⟩
    · obtain ⟨spec,kept,rfl⟩ := List.mem_map.mp accepted
      exact .inr ⟨_,spec,rfl,SpecValidator.validate_accepts _ _ spec kept⟩
    · exact .inl stayed

/-- Whatever the providers answer and the files hold, in whatever order: a test that was not there
before the session was let in by the gate. -/
theorem session_gated (specTestCase : TestMetadata → TestSpec → Factory) (config : Config)
    (registry : TestRegistry Factory) (commands : List Command) (name : Bytes) (entry : Entry Factory)
    (found : (session specTestCase config commands registry).lookup name = some entry) :
    registry.lookup name = some entry ∨ LetIn specTestCase config entry := by
  induction commands generalizing registry with
  | nil => exact .inl found
  | cons command rest ih =>
    rcases ih (command.perform config specTestCase registry).2 found with before | entered
    · exact perform_lookup registry command name entry before
    · exact .inr entered

theorem session_gated_health : ∃ entry,
    (session (fun _ _ => 1) {} [loadHealth] TestRegistry.clear).lookup (ascii "s.health") = some entry ∧
      LetIn (fun _ _ => 1) {} entry := by
  have registered : ((session (fun _ _ => 1) {} [loadHealth] TestRegistry.clear).lookup (ascii "s.health")).isSome = true := by
    decide +kernel
  obtain ⟨entry,found⟩ := Option.isSome_iff_exists.mp registered
  refine ⟨entry,found,?_⟩
  exact (session_gated _ _ TestRegistry.clear [loadHealth] _ entry found).resolve_left
    (by simp [TestRegistry.lookup,TestRegistry.clear])

/-! ### The base makes no difference -/

theorem endpointIssues_portable {other : Config} (own : PlainWeb config) (theirs : PlainWeb other) (spec : TestSpec)
    (pre : Bytes) : (gate config).endpointIssues spec pre = (gate other).endpointIssues spec pre := by
  have safe_clean (config : Config) (based : PlainWeb config) (safe : SpecValidator.isSafeEndpoint spec.endpoint = .ok ()) :
      (gate config).endpointIssues spec pre = [] := by
    obtain ⟨home,parsed,web,plain⟩ := based
    obtain ⟨-,-,rooted,-,dots,-,-⟩ := SpecValidator.isSafeEndpoint_ok safe
    obtain ⟨joined,result⟩ : ∃ joined, joinUrl config.api.baseUrl spec.endpoint = some joined := by
      obtain ⟨rest,endpoint⟩ := List.head?_eq_some_iff.mp rooted
      unfold joinUrl
      rw [dots,parsed]
      simp [endpoint,startsWith,ascii]
    obtain ⟨url,reparsed,scheme,host⟩ := parseUrl_joinUrl home parsed web plain spec.endpoint joined rooted result
    have base : (gate config).baseUrl = config.api.baseUrl := rfl
    have policy : (gate config).policy = { allowedHosts := [home.host] } := by
      simp [gate,registrationValidator,targetConfig,UrlPolicy.restrictedTo,parsed]
    have admitted : (gate config).policy.rejectText joined = [] := by
      simp [UrlPolicy.rejectText,policy,reparsed,UrlPolicy.reject,scheme,web,host]
    simp only [SpecValidator.endpointIssues,safe,base,result,admitted]
    rfl
  cases safe : SpecValidator.isSafeEndpoint spec.endpoint with
  | error reason => simp only [SpecValidator.endpointIssues,safe]
  | ok => rw [safe_clean config own safe,safe_clean other theirs safe]

/-- Which tests the gate keeps, and what it says of the others, has nothing to do with the server
under test. -/
theorem validate_portable {config other : Config} (own : PlainWeb config) (theirs : PlainWeb other)
    (limit : config.ai.maxGeneratedTests = other.ai.maxGeneratedTests) (suite : TestSpecSuite) :
    (gate config).validate suite = (gate other).validate suite := by
  refine SpecValidator.validate_congr (fun spec index => ?_) ?_ suite
  · simp only [SpecValidator.validateOne,endpointIssues_portable own theirs]
  · simp [gate,registrationValidator,validationConfig,limit]

/-- A base with a port and a path, and the default one. -/
theorem validate_portable_path : PlainWeb { api := { baseUrl := ascii "https://api.example:8443/v1/" } } ∧
    (gate { api := { baseUrl := ascii "https://api.example:8443/v1/" } }).validate (generatedSuite (ascii "t")) =
      (gate {}).validate (generatedSuite (ascii "t")) := by
  have parsed : parseUrl (ascii "https://api.example:8443/v1/") =
      some { scheme := ascii "https", host := ascii "api.example", port := 8443, path := ascii "/v1/" } := by
    decide
  have based : PlainWeb { api := { baseUrl := ascii "https://api.example:8443/v1/" } } :=
    ⟨_,parsed,by decide,by decide,by decide,by decide⟩
  exact ⟨based,validate_portable based plainWeb_default rfl _⟩

end

end TestForgeService

/-! ### The mock -/

namespace MockAiProvider

open TestForgeService

/-- The rules with none left out. -/
def allRules (resource : Bytes) : List TestSpec :=
  baseline resource ++ creation resource ++ [malformed resource] ++ [duplicate resource]

theorem rules_sublist (requirement resource : Bytes) : (rules requirement resource).Sublist (allRules resource) := by
  have optional (condition : Bool) (tests : List TestSpec) : (if condition then tests else []).Sublist tests := by
    cases condition <;> simp
  simp only [rules,allRules,List.append_assoc]
  exact (List.Sublist.refl _).append ((optional _ _).append ((optional _ _).append (optional _ _)))

theorem guessResource_known (requirement : Bytes) : guessResource requirement ∈ kKnown := by
  unfold guessResource
  cases found : kKnown.find? _ with
  | none => decide
  | some resource => exact List.mem_of_find?_eq_some found

theorem allRules_clean : ∀ resource ∈ kKnown, (∀ spec ∈ allRules resource, (gate {}).rejects spec = false) ∧
    ((allRules resource).map SpecValidator.nameKey).Nodup := by
  decide +kernel

theorem rejects_portable {config : Config} (based : PlainWeb config) (spec : TestSpec) :
    (gate config).rejects spec = (gate {}).rejects spec := by
  have fixed : PlainWeb ({} : Config) := plainWeb_default
  simp only [SpecValidator.rejects,SpecValidator.validateOne,endpointIssues_portable based fixed]

/-- The suite that the mock has for a request, cut at what the registration lets through. -/
def offered (config : Config) (requirement suite : Bytes) (maxTests : Int32) : TestSpecSuite where
  suite
  requirement
  source := ascii "mock"
  model := modelName
  tests := ((rules requirement (guessResource requirement)).take
    (max 1 (if maxTests > 0 then maxTests else config.ai.maxGeneratedTests).toInt).toNat).take
      (max 1 config.ai.maxGeneratedTests.toInt).toNat

theorem kept_offered {config : Config} (based : PlainWeb config) (suite : TestSpecSuite) (requirement : Bytes)
    (asked : Nat) (named : SpecValidator.isSafeName suite.suite = .ok ()) :
    (gate config).kept { suite with tests := (rules requirement (guessResource requirement)).take asked } =
      ((rules requirement (guessResource requirement)).take asked).take (gate config).maxTests := by
  obtain ⟨clean,distinct⟩ := allRules_clean _ (guessResource_known requirement)
  have part : (((rules requirement (guessResource requirement)).take asked).take (gate config).maxTests).Sublist
      (allRules (guessResource requirement)) :=
    (List.take_sublist _ _).trans ((List.take_sublist _ _).trans (rules_sublist _ _))
  simp only [SpecValidator.kept,named]
  apply firstOfKey_self
  · intro spec member
    exact (rejects_portable based spec).trans (clean spec (part.subset member))
  · exact distinct.sublist (part.map _)
  · simp

theorem validate_offered {config : Config} (based : PlainWeb config) (requirement suite : Bytes) (maxTests asked : Int32)
    (limit : (if maxTests > 0 then maxTests else config.ai.maxGeneratedTests) = asked)
    (safe : SpecValidator.isSafeName suite = .ok ()) (proposal : TestSpecSuite)
    (proposed : proposal = { offered config requirement suite maxTests with
      tests := (rules requirement (guessResource requirement)).take (max 1 asked.toInt).toNat }) :
    ((serviceValidator config).validate proposal).2 = offered config requirement suite maxTests ∧
      ((serviceValidator config).validate proposal).1.valid = true := by
  have left : ((serviceValidator config).validate proposal).2 = offered config requirement suite maxTests := by
    rw [validate_agrees based.plainBase,SpecValidator.validate_tests,proposed,
      kept_offered based (offered config requirement suite maxTests) requirement _ safe]
    simp only [offered,limit]
    rfl
  refine ⟨left,?_⟩
  have told := (SpecValidator.validate_report (serviceValidator config) proposal).2.2
  have tests := congrArg (·.tests) left
  simp only [SpecValidator.validate_tests] at tests
  have inhabited : ∀ asked cap : Nat, 0 < asked → 0 < cap →
      (((rules requirement (guessResource requirement)).take asked).take cap).isEmpty = false := by
    intro asked cap first second
    obtain ⟨asked,rfl⟩ := Nat.exists_eq_succ_of_ne_zero first.ne'
    obtain ⟨cap,rfl⟩ := Nat.exists_eq_succ_of_ne_zero second.ne'
    rfl
  rw [told,tests]
  simp only [offered]
  rw [inhabited _ _ (by omega) (by omega)]
  rfl

/-- What the mock answers is registered as it is, up to the limits of the request and of the
configuration. -/
theorem mock_registered {Factory : Type} {specTestCase : TestMetadata → TestSpec → Factory} {config : Config}
    (based : PlainWeb config) (registry : TestRegistry Factory) (requirement suiteName : Bytes) (maxTests : Int32)
    (stated : trim requirement ≠ []) (short : requirement.length ≤ 8000)
    (named : suiteName = [] ∨ SpecValidator.isSafeName suiteName = .ok ()) :
    Registered specTestCase config registry
      (offered config requirement (if suiteName = [] then ascii "generated" else suiteName) maxTests)
      (generateTestsReply specTestCase config (some (mockProvider [])) registry requirement suiteName maxTests true) := by
  generalize whole : (if suiteName = [] then ascii "generated" else suiteName) = suite
  have safe : SpecValidator.isSafeName suite = .ok () := by
    subst whole
    rcases named with rfl | safe
    · decide
    · split
      · decide
      · exact safe
  have present : suite ≠ [] := by
    rintro rfl
    simp [SpecValidator.isSafeName] at safe
  generalize limit : (if maxTests > 0 then maxTests else config.ai.maxGeneratedTests) = asked
  have handed : TestForgeService.generateTests true config requirement suiteName maxTests =
      .handed { requirement, suiteName := suite, baseUrl := config.api.baseUrl, maxTests := asked } := by
    simp [TestForgeService.generateTests,stated,Nat.not_lt.mpr short,whole,limit]
  generalize answer : (mockProvider []).generateTests
    { requirement, suiteName := suite, baseUrl := config.api.baseUrl, maxTests := asked } = generation
  have fine : generation.ok = true := by rw [← answer]; rfl
  have proposal : generation.suite = { offered config requirement suite maxTests with
      tests := (rules requirement (guessResource requirement)).take (max 1 asked.toInt).toNat } := by
    rw [← answer]
    simp [mockProvider,MockAiProvider.generateTests,offered,present]
  obtain ⟨left,valid⟩ := validate_offered based requirement suite maxTests asked limit safe generation.suite proposal
  have done : Registered specTestCase config registry _ _ := registerChecked_registered based.plainBase registry generation.suite
    [(ascii "ok",.bool true),(ascii "provider",.string generation.provider),(ascii "model",.string generation.model),
      (ascii "elapsed_ms",.int generation.elapsed),
      (ascii "validation",((serviceValidator config).validate generation.suite).1.toJson),
      (ascii "specification",((serviceValidator config).validate generation.suite).2.toJson),
      (ascii "usage",.object [(ascii "prompt_tokens",.int generation.promptTokens),
        (ascii "completion_tokens",.int generation.completionTokens)])]
    (some (ascii "REGISTRATION_REFUSED")) valid rfl rfl
  rw [left] at done
  simp only [generateTestsReply,Option.isSome_some,handed,answer,answered,fine,valid,left]
  exact done

/-- A requirement that names a resource and mentions that it can be created. -/
theorem mock_registered_users : Registered (fun _ _ => 1) {} TestRegistry.clear
    (offered {} (ascii "Users can be created") (ascii "generated") 3)
    (generateTestsReply (fun _ _ => 1) {} (some (mockProvider [])) TestRegistry.clear (ascii "Users can be created")
      [] 3 true) :=
  mock_registered plainWeb_default TestRegistry.clear (ascii "Users can be created") [] 3 (by decide) (by decide) (.inl rfl)

end MockAiProvider
end TestForge
