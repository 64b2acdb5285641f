import TestForge.SortedTable
import TestForge.Verdict

/-! The catalogue of every test the process knows. Each operation is one critical
section, so a registry is the value behind its mutex. -/
namespace TestForge

open Strings

namespace TestRegistry

structure Entry (Factory : Type) where
  metadata : TestMetadata
  factory : Factory
  deriving DecidableEq

end TestRegistry

/-- The map of the source, ordered by qualified name. -/
structure TestRegistry (Factory : Type) where
  entries : List (Bytes × TestRegistry.Entry Factory)
  sorted : SortedTable.Sorted entries
  keyed : ∀ slot ∈ entries, slot.2.metadata.qualifiedName = slot.1

namespace TestRegistry

variable {Factory : Type} (registry : TestRegistry Factory)

def lookup (name : Bytes) : Option (Entry Factory) := SortedTable.find name registry.entries

def registerOrReplace (metadata : TestMetadata) (factory : Factory) : TestRegistry Factory where
  entries := SortedTable.put metadata.qualifiedName ⟨metadata,factory⟩ registry.entries
  sorted := registry.sorted.put _ _
  keyed slot member := by
    rcases SortedTable.mem_put member with rfl | member
    · rfl
    · exact registry.keyed slot member

/-- The error is the text of a `FrameworkError`. -/
def registerTest (metadata : TestMetadata) (factory : Factory) : Except Bytes (TestRegistry Factory) :=
  if (registry.lookup metadata.qualifiedName).isSome then
    .error (ascii "duplicate test registration: " ++ metadata.qualifiedName ++
      ascii " (a test with this suite and name already exists)")
  else .ok (registry.registerOrReplace metadata factory)

def removeSuite (suite : Bytes) : TestRegistry Factory × Nat :=
  ({ entries := registry.entries.filter fun slot => decide (slot.2.metadata.suite ≠ suite)
     sorted := registry.sorted.filter _
     keyed := fun slot member => registry.keyed slot (List.mem_filter.mp member).1 },
    registry.entries.countP fun slot => decide (slot.2.metadata.suite = suite))

def contains (name : Bytes) : Bool := (registry.lookup name).isSome
def find (name : Bytes) : Option TestMetadata := (registry.lookup name).map (·.metadata)

/-- The factory that is copied out and called once the lock is released. -/
def create (name : Bytes) : Option Factory := (registry.lookup name).map (·.factory)

def all : List TestMetadata := registry.entries.map (·.2.metadata)

def clear : TestRegistry Factory where
  entries := []
  sorted := List.Pairwise.nil
  keyed := by simp

/-! ### What a lookup finds -/

variable {registry}

theorem qualifiedName_of_lookup {name : Bytes} {entry : Entry Factory} (found : registry.lookup name = some entry) :
    entry.metadata.qualifiedName = name :=
  registry.keyed _ (SortedTable.mem_of_find found)

variable (registry)

theorem lookup_registerOrReplace (metadata : TestMetadata) (factory : Factory) (name : Bytes) :
    (registry.registerOrReplace metadata factory).lookup name =
      if metadata.qualifiedName = name then some ⟨metadata,factory⟩ else registry.lookup name :=
  SortedTable.find_put _ _ _

theorem lookup_removeSuite (suite name : Bytes) :
    (registry.removeSuite suite).1.lookup name =
      (registry.lookup name).filter fun entry => decide (entry.metadata.suite ≠ suite) :=
  registry.sorted.find_filter (fun entry : Entry Factory => decide (entry.metadata.suite ≠ suite)) name

/-- A registration that is not refused takes no name from another test. -/
theorem lookup_registerTest {metadata : TestMetadata} {factory : Factory} {next : TestRegistry Factory}
    (ok : registry.registerTest metadata factory = .ok next) {name : Bytes} {entry : Entry Factory}
    (found : registry.lookup name = some entry) : next.lookup name = some entry := by
  unfold registerTest at ok
  split at ok
  · cases ok
  · next absent =>
    obtain rfl := Except.ok.inj ok
    have other : metadata.qualifiedName ≠ name := fun same => absent (by simp [same,found])
    rw [lookup_registerOrReplace,if_neg other,found]

/-- The listing has every registered test once, in the order of the names. -/
theorem all_sorted : registry.all.Pairwise fun a b => a.qualifiedName < b.qualifiedName := by
  rw [all,List.pairwise_map]
  refine registry.sorted.imp_of_mem fun first second ascending => ?_
  rw [registry.keyed _ first,registry.keyed _ second]
  exact ascending

end TestRegistry
end TestForge
