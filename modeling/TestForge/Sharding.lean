import TestForge.Selector
import TestForge.TestRegistry

/-! What the shards of a selection have to do with each other, with the whole selection and
with the rest of the registry. -/
namespace TestForge.TestSelector

variable {Factory : Type} (shuffled : UInt64 → List TestMetadata → List TestMetadata) (filter : TestFilter)

/-- The selection without sharding, in its order. -/
def sorted (candidates : List TestMetadata) : List TestMetadata :=
  (candidates.filter filter.accepts).mergeSort fun a b => decide (a.qualifiedName ≤ b.qualifiedName)

/-- The selection of one shard of a registry, not shuffled. -/
def shardSelection (registry : TestRegistry Factory) (seed : UInt64) (count index : Int32) : List TestMetadata :=
  select shuffled registry.all filter { seed, shardCount := count, shardIndex := index }

/-- The selection of a registry, neither sharded nor shuffled. -/
def wholeSelection (registry : TestRegistry Factory) (seed : UInt64) : List TestMetadata :=
  select shuffled registry.all filter { seed }

/-- The shard that the hash of a test's name puts it in. -/
def residue (count : Int32) (test : TestMetadata) : Nat := (Ids.fnv1a64 test.qualifiedName).toNat % count.toInt.toNat

theorem shardSelection_eq (registry : TestRegistry Factory) (seed : UInt64) (count index : Int32) :
    shardSelection shuffled filter registry seed count index =
      shard { seed, shardCount := count, shardIndex := index } (sorted filter registry.all) := rfl

theorem wholeSelection_eq (registry : TestRegistry Factory) (seed : UInt64) :
    wholeSelection shuffled filter registry seed = sorted filter registry.all := rfl

theorem shard_sublist (options : SelectionOptions) (selected : List TestMetadata) :
    (shard options selected).Sublist selected := by
  unfold shard
  split
  · exact List.filter_sublist
  · exact List.Sublist.refl _

theorem mem_shard (options : SelectionOptions) (positive : 1 ≤ options.shardCount) (selected : List TestMetadata)
    (test : TestMetadata) : test ∈ shard options selected ↔ test ∈ selected ∧
      residue options.shardCount test = options.shardIndex.toInt.toNat % options.shardCount.toInt.toNat := by
  unfold shard residue
  split
  · simp
  · next single =>
    have lower := Int32.le_iff_toInt_le.mp positive
    have upper : ¬(1 : Int32).toInt < options.shardCount.toInt := fun many => single (Int32.lt_iff_toInt_lt.mpr many)
    have one : options.shardCount.toInt.toNat = 1 := by
      have unit : (1 : Int32).toInt = 1 := by decide
      omega
    simp [one,Nat.mod_one]

theorem mem_sorted (candidates : List TestMetadata) (test : TestMetadata) :
    test ∈ sorted filter candidates ↔ test ∈ candidates ∧ filter.accepts test = true := by
  rw [sorted,List.mem_mergeSort,List.mem_filter]

theorem mem_shardSelection (registry : TestRegistry Factory) (seed : UInt64) {count : Int32} (positive : 1 ≤ count)
    (index : Int32) (test : TestMetadata) : test ∈ shardSelection shuffled filter registry seed count index ↔
      test ∈ sorted filter registry.all ∧ residue count test = index.toInt.toNat % count.toInt.toNat := by
  rw [shardSelection_eq]
  exact mem_shard { seed, shardCount := count, shardIndex := index } positive (sorted filter registry.all) test

/-- For every registry, filter and number of shards: the whole selection has exactly the accepted
tests, no two shards share a test, all of them together have exactly the tests of the whole
selection, each in its order there, and no test changes its shard when others come or go. -/
theorem shards_partition (registry : TestRegistry Factory) (seed : UInt64) (count : Int32) (positive : 1 ≤ count) :
    (∀ test, test ∈ wholeSelection shuffled filter registry seed ↔
      test ∈ registry.all ∧ filter.accepts test = true) ∧
    (∀ i j : Int32, 0 ≤ i → i < count → 0 ≤ j → j < count → i ≠ j →
      List.Disjoint (shardSelection shuffled filter registry seed count i)
        (shardSelection shuffled filter registry seed count j)) ∧
    (∀ test, test ∈ wholeSelection shuffled filter registry seed ↔
      ∃ i : Int32, 0 ≤ i ∧ i < count ∧ test ∈ shardSelection shuffled filter registry seed count i) ∧
    (∀ i : Int32, (shardSelection shuffled filter registry seed count i).Sublist
      (wholeSelection shuffled filter registry seed)) ∧
    ∀ (i : Int32) (other : TestRegistry Factory) (test : TestMetadata), test ∈ registry.all → test ∈ other.all →
      (test ∈ shardSelection shuffled filter registry seed count i ↔
        test ∈ shardSelection shuffled filter other seed count i) := by
  have lower := Int32.le_iff_toInt_le.mp positive
  have unit : (1 : Int32).toInt = 1 := by decide
  have zero : (0 : Int32).toInt = 0 := by decide
  have index (i : Int32) (low : 0 ≤ i) (high : i < count) :
      i.toInt.toNat % count.toInt.toNat = i.toInt.toNat ∧ (i.toInt.toNat : Int) = i.toInt := by
    have low := Int32.le_iff_toInt_le.mp low
    have high := Int32.lt_iff_toInt_lt.mp high
    exact ⟨Nat.mod_eq_of_lt (by omega),by omega⟩
  refine ⟨mem_sorted filter registry.all,fun i j lowI highI lowJ highJ different test first second => ?_,
    fun test => ?_,fun i => ?_,
    fun i other test here there => ?_⟩
  · have inFirst := ((mem_shardSelection shuffled filter registry seed positive i test).mp first).2
    have inSecond := ((mem_shardSelection shuffled filter registry seed positive j test).mp second).2
    obtain ⟨smallI,exactI⟩ := index i lowI highI
    obtain ⟨smallJ,exactJ⟩ := index j lowJ highJ
    have same := inFirst.symm.trans inSecond
    simp only [smallI,smallJ] at same
    exact different (Int32.toInt_inj.mp (by omega))
  · have below : residue count test < count.toInt.toNat := Nat.mod_lt _ (by omega)
    have small := count.toInt_lt
    have number : (Int32.ofNat (residue count test)).toInt = residue count test := Int32.toInt_ofNat_of_lt (by omega)
    rw [wholeSelection_eq]
    constructor
    · intro selected
      refine ⟨Int32.ofNat (residue count test),Int32.le_iff_toInt_le.mpr (by omega),
        Int32.lt_iff_toInt_lt.mpr (by omega),
        (mem_shardSelection shuffled filter registry seed positive _ test).mpr ⟨selected,?_⟩⟩
      simp only [number,Int.toNat_natCast]
      exact (Nat.mod_eq_of_lt below).symm
    · rintro ⟨i,-,-,selected⟩
      exact ((mem_shardSelection shuffled filter registry seed positive i test).mp selected).1
  · exact shard_sublist _ _
  · rw [mem_shardSelection shuffled filter registry seed positive,
      mem_shardSelection shuffled filter other seed positive,mem_sorted,mem_sorted]
    simp [here,there]

def threeTests : TestRegistry Unit where
  entries := [(ascii "a",⟨{ name := ascii "a" },()⟩),(ascii "b",⟨{ name := ascii "b" },()⟩),
    (ascii "c",⟨{ name := ascii "c" },()⟩)]
  sorted := by
    rw [SortedTable.Sorted]
    decide
  keyed := by decide

/-- Neither of the two shards is empty. -/
theorem shards_partition_threeTests :
    { name := ascii "a" } ∈ shardSelection (fun _ tests => tests) {} threeTests 0 2 0 ∧
    { name := ascii "b" } ∈ shardSelection (fun _ tests => tests) {} threeTests 0 2 1 ∧
    (∀ test, test ∈ wholeSelection (fun _ tests => tests) {} threeTests 0 ↔
      test ∈ threeTests.all ∧ TestFilter.accepts {} test = true) ∧ ∀ test,
    test ∈ wholeSelection (fun _ tests => tests) {} threeTests 0 ↔
      ∃ i : Int32, 0 ≤ i ∧ i < 2 ∧ test ∈ shardSelection (fun _ tests => tests) {} threeTests 0 2 i := by
  have inside (index : Int32) (test : TestMetadata) := mem_shardSelection (fun _ tests => tests) {}
    threeTests 0 (show (1 : Int32) ≤ 2 by decide) index test
  obtain ⟨accepted,_,together,_,_⟩ := shards_partition (fun _ tests => tests) {} threeTests 0 2 (by decide)
  exact ⟨(inside 0 _).mpr ⟨(mem_sorted _ _ _).mpr (by decide +kernel),by decide +kernel⟩,
    (inside 1 _).mpr ⟨(mem_sorted _ _ _).mpr (by decide +kernel),by decide +kernel⟩,accepted,together⟩

end TestForge.TestSelector
