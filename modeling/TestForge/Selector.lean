import TestForge.Verdict

/-! Which tests a run selects: glob patterns, the filter over them, sharding and
shuffling. -/
namespace TestForge

open Strings

namespace Strings

def parseBool (text : Bytes) : Option Bool :=
  let lowered := toLower (trim text)
  if lowered = ascii "1" ∨ lowered = ascii "true" ∨ lowered = ascii "yes" ∨ lowered = ascii "on" then some true
  else if lowered = ascii "0" ∨ lowered = ascii "false" ∨ lowered = ascii "no" ∨ lowered = ascii "off" then some false
  else none

/-- The loop of `globMatch`: what is left of the pattern and of the text, and the two
as they were behind the last star. Each round consumes a byte of the pattern or moves
the star on in the text, which bounds the rounds. -/
def globLoop : Nat → Bytes → Bytes → Option (Bytes × Bytes) → Bool
  | 0, _, _, _ => false
  | _ + 1, pattern, [], _ => pattern.dropWhile (· == 42) == []
  | rounds + 1, pattern, c :: text, star =>
    let backtrack := match star with
      | some (behind,at_) => globLoop rounds behind at_.tail (some (behind,at_.tail))
      | none => false
    match pattern with
    | [] => backtrack
    | p :: rest =>
      if p = 63 ∨ p = c then globLoop rounds rest text star
      else if p = 42 then globLoop rounds rest (c :: text) (some (rest,c :: text))
      else backtrack

def globMatch (pattern text : Bytes) : Bool :=
  globLoop ((pattern.length + 1) * (text.length + 2) + 1) pattern text none

example : globMatch (ascii "api.*_check") (ascii "api.health_check") = true := by decide
example : globMatch (ascii "*a*b") (ascii "aabc") = false := by decide

end Strings

structure TestFilter where
  suites : List Bytes := []
  names : List Bytes := []
  tags : List Bytes := []
  excludeTags : List Bytes := []
  excludeSuites : List Bytes := []
  includeDisabled : Bool := false
  deriving DecidableEq

def matchesAnyGlob (patterns : List Bytes) (text : Bytes) : Bool := patterns.any (globMatch · text)

namespace TestFilter

def empty (filter : TestFilter) : Bool :=
  filter.suites.isEmpty && filter.names.isEmpty && filter.tags.isEmpty && filter.excludeTags.isEmpty &&
    filter.excludeSuites.isEmpty

/-- The source's `matches`, which is a keyword. -/
def accepts (filter : TestFilter) (metadata : TestMetadata) : Bool :=
  if !metadata.enabled && !filter.includeDisabled then false
  else if !filter.suites.isEmpty && !matchesAnyGlob filter.suites metadata.suite then false
  else if !filter.excludeSuites.isEmpty && matchesAnyGlob filter.excludeSuites metadata.suite then false
  else if !filter.names.isEmpty && !matchesAnyGlob filter.names metadata.qualifiedName &&
    !matchesAnyGlob filter.names metadata.name then false
  else if !filter.tags.isEmpty && !metadata.tags.any (matchesAnyGlob filter.tags) then false
  else if !filter.excludeTags.isEmpty && metadata.tags.any (matchesAnyGlob filter.excludeTags) then false
  else true

def appendFilterPart (text flag : Bytes) (values : List Bytes) : Bytes :=
  values.foldl (fun text value => (if text = [] then [] else text ++ [32]) ++ flag ++ 32 :: value) text

def describe (filter : TestFilter) : Bytes :=
  let text := appendFilterPart [] (ascii "--suite") filter.suites
  let text := appendFilterPart text (ascii "--test") filter.names
  let text := appendFilterPart text (ascii "--tag") filter.tags
  let text := appendFilterPart text (ascii "--exclude-tag") filter.excludeTags
  let text := appendFilterPart text (ascii "--exclude-suite") filter.excludeSuites
  let text := if filter.includeDisabled then (if text = [] then [] else text ++ [32]) ++ ascii "--include-disabled"
    else text
  if text = [] then ascii "<all tests>" else text

end TestFilter

structure SelectionOptions where
  shuffle : Bool := false
  seed : UInt64 := 0
  shardCount : Int32 := 1
  shardIndex : Int32 := 0
  deriving DecidableEq

structure RunOptions where
  filter : TestFilter := {}
  selection : SelectionOptions := {}
  workers : Int32 := 0
  timeoutMsOverride : Int64 := 0
  failFast : Bool := false
  retryFailed : Int32 := 0
  label : Bytes := []
  persist : Bool := true
  collectDiagnostics : Option Bool := none
  deriving DecidableEq

namespace TestSelector

/-- The tests of one shard, by the hash of the qualified name. -/
def shard (options : SelectionOptions) (selected : List TestMetadata) : List TestMetadata :=
  if options.shardCount > 1 then
    let count := options.shardCount.toInt.toNat
    let index := options.shardIndex.toInt.toNat
    selected.filter fun metadata => (Ids.fnv1a64 metadata.qualifiedName).toNat % count = index % count
  else selected

/-- `shuffled` is `std::shuffle` with the engine of a seed; for seed 0 it takes one
from the clock. -/
def select (shuffled : UInt64 → List TestMetadata → List TestMetadata) (candidates : List TestMetadata)
    (filter : TestFilter) (options : SelectionOptions) : List TestMetadata :=
  let selected := shard options
    ((candidates.filter filter.accepts).mergeSort fun a b => decide (a.qualifiedName ≤ b.qualifiedName))
  if options.shuffle then shuffled options.seed selected else selected

end TestSelector
end TestForge
