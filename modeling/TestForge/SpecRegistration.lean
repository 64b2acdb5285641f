import Mathlib.Data.List.Nodup
import TestForge.SpecAccounting
import TestForge.SpecTestCase
import TestForge.TestRegistry

/-! Registering a generated suite: the suite's tests are removed from the registry by
the name of the suite and put back under the joined names. -/
namespace TestForge

open Strings TestRegistry

section Registration

variable {Factory : Type} (specTestCase : TestMetadata → TestSpec → Factory)

def specMetadata (suite : TestSpecSuite) (spec : TestSpec) : TestMetadata :=
  let tags := if ascii "generated" ∈ spec.tags then spec.tags else spec.tags ++ [ascii "generated"]
  { suite := suite.suite
    name := spec.name
    description := spec.description
    tags := if suite.suite ∈ tags then tags else tags ++ [suite.suite]
    owner := suite.source
    sourceFile := suite.source }

def specEntry (suite : TestSpecSuite) (spec : TestSpec) : Entry Factory :=
  ⟨specMetadata suite spec,specTestCase (specMetadata suite spec) spec⟩

theorem specEntry_qualifiedName (suite : TestSpecSuite) (spec : TestSpec) :
    (specEntry specTestCase suite spec).metadata.qualifiedName = qualifiedName suite.suite spec.name := rfl

def registerEntries (registry : TestRegistry Factory) (entries : List (Entry Factory)) : TestRegistry Factory :=
  entries.foldl (fun registry entry => registry.registerOrReplace entry.metadata entry.factory) registry

/-- `specTestCase` makes the factory of a generated test. The error is the text of a
`SecurityError`, the number what was registered. -/
def registerSpecSuite (registry : TestRegistry Factory) (suite : TestSpecSuite) (ai : AiConfig) (config : ApiConfig) :
    Except Bytes (TestRegistry Factory × Nat) :=
  let (report,copy) := (registrationValidator ai config).validate suite
  if report.valid then
    .ok (registerEntries (registry.removeSuite copy.suite).1 (copy.tests.map (specEntry specTestCase copy)),
      copy.tests.length)
  else .error (ascii "refusing to register the generated suite: " ++ report.summary)

/-- What a suite registers. -/
def acceptedEntries (suite : TestSpecSuite) (ai : AiConfig) (config : ApiConfig) : List (Entry Factory) :=
  let copy := ((registrationValidator ai config).validate suite).2
  copy.tests.map (specEntry specTestCase copy)

/-- The tests of the suite are the accepted ones. -/
def HoldsSuite (registry : TestRegistry Factory) (suite : Bytes) (accepted : List (Entry Factory)) : Prop :=
  ∀ name entry, entry.metadata.suite = suite →
    (registry.lookup name = some entry ↔ entry ∈ accepted ∧ entry.metadata.qualifiedName = name)

/-- The tests of other suites are what they were, those of the suite are the accepted ones. -/
structure TouchesOnly (registry next : TestRegistry Factory) (suite : Bytes) (accepted : List (Entry Factory)) :
    Prop where
  others : ∀ name entry, entry.metadata.suite ≠ suite →
    (next.lookup name = some entry ↔ registry.lookup name = some entry)
  own : HoldsSuite next suite accepted

/-! ### The insertions -/

theorem lookup_registerEntries (entries : List (Entry Factory)) (registry : TestRegistry Factory)
    (distinct : (entries.map (·.metadata.qualifiedName)).Nodup) (name : Bytes) (entry : Entry Factory) :
    (registerEntries registry entries).lookup name = some entry ↔
      (entry ∈ entries ∧ entry.metadata.qualifiedName = name) ∨
        (name ∉ entries.map (·.metadata.qualifiedName) ∧ registry.lookup name = some entry) := by
  unfold registerEntries
  induction entries generalizing registry with
  | nil => simp
  | cons first rest ih =>
    obtain ⟨fresh,distinct⟩ := List.nodup_cons.mp distinct
    rw [List.foldl_cons,ih _ distinct,lookup_registerOrReplace]
    by_cases mine : first.metadata.qualifiedName = name
    · subst mine
      have absent (same : entry.metadata.qualifiedName = first.metadata.qualifiedName) : entry ∉ rest :=
        fun later => fresh (List.mem_map.mpr ⟨entry,later,same⟩)
      simp only [if_true,Option.some.injEq,fresh,not_false_eq_true,true_and,List.mem_cons,List.map_cons,
        not_true_eq_false,false_and,or_false]
      constructor
      · rintro (⟨later,same⟩ | rfl)
        · exact (absent same later).elim
        · exact ⟨.inl rfl,rfl⟩
      · rintro ⟨rfl | later,same⟩
        · exact .inr rfl
        · exact (absent same later).elim
    · simp only [if_neg mine,List.mem_cons,List.map_cons,not_or]
      constructor
      · rintro (⟨later,same⟩ | ⟨absent,found⟩)
        · exact .inl ⟨.inr later,same⟩
        · exact .inr ⟨⟨Ne.symm mine,absent⟩,found⟩
      · rintro (⟨rfl | later,same⟩ | ⟨⟨_,absent⟩,found⟩)
        · exact (mine same).elim
        · exact .inl ⟨later,same⟩
        · exact .inr ⟨absent,found⟩

/-- Within one suite the joined names differ as the names do. -/
theorem qualifiedName_right_injective (suite : Bytes) : Function.Injective (qualifiedName suite) := by
  intro first second same
  unfold qualifiedName at same
  split at same
  · exact same
  · exact (List.cons.inj (List.append_cancel_left same)).2

theorem acceptedEntries_distinct (suite : TestSpecSuite) (ai : AiConfig) (config : ApiConfig) :
    ((acceptedEntries specTestCase suite ai config).map (·.metadata.qualifiedName)).Nodup := by
  have names := (registrationValidator ai config).validate_distinct suite
  have joined := List.Nodup.map (qualifiedName_right_injective suite.suite) names
  simpa [acceptedEntries,specEntry_qualifiedName,Function.comp_def] using joined

theorem acceptedEntries_suite {suite : TestSpecSuite} {ai : AiConfig} {config : ApiConfig} {entry : Entry Factory}
    (accepted : entry ∈ acceptedEntries specTestCase suite ai config) : entry.metadata.suite = suite.suite := by
  obtain ⟨spec,_,rfl⟩ := List.mem_map.mp accepted
  exact SpecValidator.validate_suite _ _

variable {specTestCase} {registry next : TestRegistry Factory} {suite : TestSpecSuite} {ai : AiConfig}
  {config : ApiConfig} {registered : Nat}

theorem registerSpecSuite_of_valid (valid : ((registrationValidator ai config).validate suite).1.valid = true) :
    registerSpecSuite specTestCase registry suite ai config =
      .ok (registerEntries (registry.removeSuite suite.suite).1 (acceptedEntries specTestCase suite ai config),
        ((registrationValidator ai config).validate suite).2.tests.length) := by
  simp only [registerSpecSuite,valid,if_true,SpecValidator.validate_suite,acceptedEntries]

theorem registerSpecSuite_ok (ok : registerSpecSuite specTestCase registry suite ai config = .ok (next,registered)) :
    next = registerEntries (registry.removeSuite suite.suite).1 (acceptedEntries specTestCase suite ai config) := by
  cases valid : ((registrationValidator ai config).validate suite).1.valid with
  | true =>
    rw [registerSpecSuite_of_valid valid] at ok
    exact (Prod.mk.inj (Except.ok.inj ok)).1.symm
  | false => simp [registerSpecSuite,valid] at ok

/-- What is registered under a name behind the call. -/
theorem registerSpecSuite_lookup
    (ok : registerSpecSuite specTestCase registry suite ai config = .ok (next,registered)) (name : Bytes)
    (entry : Entry Factory) : next.lookup name = some entry ↔
      (entry ∈ acceptedEntries specTestCase suite ai config ∧ entry.metadata.qualifiedName = name) ∨
        (name ∉ (acceptedEntries specTestCase suite ai config).map (·.metadata.qualifiedName) ∧
          registry.lookup name = some entry ∧ entry.metadata.suite ≠ suite.suite) := by
  rw [registerSpecSuite_ok ok,lookup_registerEntries _ _ (acceptedEntries_distinct _ _ _ _),lookup_removeSuite]
  simp [Option.filter_eq_some_iff]

/-! ### The frame -/

/-- No accepted test has the joined name of a registered test of another suite. -/
def NamesApart (registry : TestRegistry Factory) (suite : TestSpecSuite) (ai : AiConfig) (config : ApiConfig) : Prop :=
  ∀ spec ∈ ((registrationValidator ai config).validate suite).2.tests, ∀ other,
    registry.lookup (qualifiedName suite.suite spec.name) = some other → other.metadata.suite = suite.suite

/-- Whatever it does to others, a registration leaves its own suite as it was asked to. -/
theorem holdsSuite_of_ok (ok : registerSpecSuite specTestCase registry suite ai config = .ok (next,registered)) :
    HoldsSuite next suite.suite (acceptedEntries specTestCase suite ai config) := by
  intro name entry mine
  rw [registerSpecSuite_lookup ok]
  constructor
  · rintro (accepted | ⟨_,_,foreign⟩)
    · exact accepted
    · exact (foreign mine).elim
  · exact .inl

theorem touchesOnly_of_apart
    (ok : registerSpecSuite specTestCase registry suite ai config = .ok (next,registered))
    (apart : NamesApart registry suite ai config) :
    TouchesOnly registry next suite.suite (acceptedEntries specTestCase suite ai config) := by
  refine ⟨fun name entry foreign => ?_,holdsSuite_of_ok ok⟩
  rw [registerSpecSuite_lookup ok]
  constructor
  · rintro (⟨accepted,_⟩ | ⟨_,found,_⟩)
    · exact (foreign (acceptedEntries_suite _ accepted)).elim
    · exact found
  · refine fun found => .inr ⟨fun taken => ?_,found,foreign⟩
    obtain ⟨accepted,member,same⟩ := List.mem_map.mp taken
    obtain ⟨spec,kept,rfl⟩ := List.mem_map.mp member
    rw [specEntry_qualifiedName,SpecValidator.validate_suite] at same
    exact foreign (apart spec kept entry (same ▸ found))

theorem apart_of_touchesOnly
    (ok : registerSpecSuite specTestCase registry suite ai config = .ok (next,registered))
    (touches : TouchesOnly registry next suite.suite (acceptedEntries specTestCase suite ai config)) :
    NamesApart registry suite ai config := by
  intro spec kept other found
  by_contra foreign
  have accepted : specEntry specTestCase ((registrationValidator ai config).validate suite).2 spec ∈
      acceptedEntries specTestCase suite ai config := List.mem_map_of_mem kept
  have stayed := (touches.others _ other foreign).mpr found
  have replaced := (registerSpecSuite_lookup ok (qualifiedName suite.suite spec.name) _).mpr
    (.inl ⟨accepted,by rw [specEntry_qualifiedName,SpecValidator.validate_suite]⟩)
  obtain rfl := Option.some.inj (stayed.symm.trans replaced)
  exact foreign (acceptedEntries_suite _ accepted)

/-- Suites without a dot in their names keep their tests apart. -/
theorem qualifiedName_injective {suite other name second : Bytes} (named : suite ≠ []) (otherNamed : other ≠ [])
    (plain : 46 ∉ suite) (otherPlain : 46 ∉ other) (same : qualifiedName suite name = qualifiedName other second) :
    suite = other ∧ name = second := by
  rw [qualifiedName,if_neg named,qualifiedName,if_neg otherNamed] at same
  have cutSuite := (Sequence.cut_eq_some 46 _ suite name).mpr ⟨same.symm,plain⟩
  have cutOther := (Sequence.cut_eq_some 46 _ other second).mpr ⟨rfl,otherPlain⟩
  simpa using cutSuite.symm.trans cutOther

/-- The registration of a suite touches only that suite wherever no name of a suite has a dot. -/
theorem registerSpecSuite_plain
    (ok : registerSpecSuite specTestCase registry suite ai config = .ok (next,registered))
    (named : suite.suite ≠ []) (plain : 46 ∉ suite.suite)
    (others : ∀ name other, registry.lookup name = some other → other.metadata.suite ≠ [] ∧ 46 ∉ other.metadata.suite) :
    TouchesOnly registry next suite.suite (acceptedEntries specTestCase suite ai config) := by
  refine touchesOnly_of_apart ok fun spec _ other found => ?_
  obtain ⟨otherNamed,otherPlain⟩ := others _ other found
  exact (qualifiedName_injective otherNamed named otherPlain plain (qualifiedName_of_lookup found)).1

theorem touchesOnly_iff_apart
    (ok : registerSpecSuite specTestCase registry suite ai config = .ok (next,registered)) :
    TouchesOnly registry next suite.suite (acceptedEntries specTestCase suite ai config) ↔
      NamesApart registry suite ai config :=
  ⟨apart_of_touchesOnly ok,touchesOnly_of_apart ok⟩

end Registration

/-- The written test "c" of the suite "a.b". -/
def writtenTest : TestRegistry Nat :=
  TestRegistry.clear.registerOrReplace { suite := ascii "a.b", name := ascii "c" } 0

def generatedSuite (name : Bytes) : TestSpecSuite where
  suite := ascii "a"
  tests := [{ name, endpoint := ascii "/" }]

theorem generatedSuite_valid (name : Bytes) (safe : name ∈ [ascii "t",ascii "b.c"]) :
    ((registrationValidator {} {}).validate (generatedSuite name)).1.valid = true := by
  revert name
  decide

theorem touchesOnly_iff_apart_sample : ∃ next registered,
    registerSpecSuite (fun _ _ => 1) writtenTest (generatedSuite (ascii "t")) {} {} = .ok (next,registered) ∧
    (TouchesOnly writtenTest next (ascii "a") (acceptedEntries (fun _ _ => 1) (generatedSuite (ascii "t")) {} {}) ↔
      NamesApart writtenTest (generatedSuite (ascii "t")) {} {}) :=
  have ok := registerSpecSuite_of_valid (generatedSuite_valid (ascii "t") (by simp))
  ⟨_,_,ok,touchesOnly_iff_apart ok⟩

/-- The generated test "b.c" of the suite "a" takes the place of the written one. -/
theorem writtenTest_replaced : ∃ next registered,
    registerSpecSuite (fun _ _ => 1) writtenTest (generatedSuite (ascii "b.c")) {} {} = .ok (next,registered) ∧
    (writtenTest.lookup (ascii "a.b.c")).map (·.factory) = some 0 ∧
    (next.lookup (ascii "a.b.c")).map (·.factory) = some 1 ∧
    ¬TouchesOnly writtenTest next (ascii "a") (acceptedEntries (fun _ _ => 1) (generatedSuite (ascii "b.c")) {} {}) := by
  have before : (writtenTest.lookup (ascii "a.b.c")).map (·.factory) = some 0 := by decide
  refine ⟨_,_,registerSpecSuite_of_valid (generatedSuite_valid (ascii "b.c") (by simp)),before,
    by decide,fun touches => ?_⟩
  have kept := (touches.others (ascii "a.b.c") ⟨{ suite := ascii "a.b", name := ascii "c" },0⟩ (by decide)).mpr
    (by decide)
  revert kept
  decide

end TestForge
