import Mathlib.Data.List.Nodup

/-! Rows under a key that is unique among them, and rows of other tables that refer to them. -/
namespace KeyedRows

variable {Row Child Key : Type} [DecidableEq Key]

section Rows

variable (key : Row → Key)

def lookup (rows : List Row) (k : Key) : Option Row := rows.find? (key · = k)

/-- The row takes the place of one with its key. -/
def put (rows : List Row) (row : Row) : List Row := rows.filter (key · ≠ key row) ++ [row]

def change (rows : List Row) (k : Key) (f : Row → Row) : List Row := rows.map fun row => if key row = k then f row else row

def Unique (rows : List Row) : Prop := (rows.map key).Nodup

theorem lookup_key {rows : List Row} {k : Key} {row : Row} (found : lookup key rows k = some row) :
    row ∈ rows ∧ key row = k := by
  have same := List.find?_some found
  exact ⟨List.mem_of_find?_eq_some found,of_decide_eq_true same⟩

theorem lookup_none (rows : List Row) (k : Key) : lookup key rows k = none ↔ k ∉ rows.map key := by
  simp only [lookup,List.find?_eq_none,decide_eq_true_eq,List.mem_map,not_exists,not_and]

theorem lookup_put (rows : List Row) (row : Row) (k : Key) :
    lookup key (put key rows row) k = if k = key row then some row else lookup key rows k := by
  rw [lookup,put,List.find?_append,List.find?_filter]
  split
  · next same =>
    subst same
    have absent : rows.find? (fun other => decide (decide (key other ≠ key row) = true ∧ decide (key other = key row) = true)) =
        none := by
      apply List.find?_eq_none.mpr
      intro other _ both
      simp only [decide_eq_true_eq] at both
      exact both.1 both.2
    simp only [absent,Option.none_or,List.find?_cons,decide_true]
  · next other =>
    have missed : [row].find? (key · = k) = none := by simpa using fun same => other same.symm
    rw [missed,Option.or_none,lookup]
    congr 1
    funext candidate
    by_cases same : key candidate = k
    · simp [same,other]
    · simp [same]

theorem lookup_change (rows : List Row) (k other : Key) (f : Row → Row) (keeps : ∀ row, key (f row) = key row) :
    lookup key (change key rows k f) other = if other = k then (lookup key rows other).map f else lookup key rows other := by
  have through (row : Row) : key (if key row = k then f row else row) = key row := by
    split
    · exact keeps row
    · rfl
  rw [lookup,change,List.find?_map]
  have found : (rows.find? ((fun row => decide (key row = other)) ∘ fun row => if key row = k then f row else row)) =
      lookup key rows other := by
    rw [lookup]
    congr 1
    funext row
    simp only [Function.comp,through]
  rw [found]
  cases present : lookup key rows other with
  | none => simp
  | some row =>
    have same := (lookup_key key present).2
    subst same
    simp only [Option.map_some]
    split <;> rfl

theorem Unique.put {rows : List Row} (unique : Unique key rows) (row : Row) : Unique key (put key rows row) := by
  rw [Unique,KeyedRows.put,List.map_append]
  refine (List.Nodup.sublist ((List.filter_sublist).map key) unique).append (List.nodup_singleton _) ?_
  intro k front back
  obtain ⟨other,member,rfl⟩ := List.mem_map.mp front
  obtain same : key other = key row := by simpa using back
  simp [same] at member

theorem Unique.change {rows : List Row} (unique : Unique key rows) (k : Key) (f : Row → Row)
    (keeps : ∀ row, key (f row) = key row) : Unique key (change key rows k f) := by
  have same : (KeyedRows.change key rows k f).map key = rows.map key := by
    rw [KeyedRows.change,List.map_map]
    apply List.map_congr_left
    intro row _
    simp only [Function.comp]
    split
    · exact keeps row
    · rfl
  rwa [Unique,same]

omit [DecidableEq Key] in
theorem Unique.filter {rows : List Row} (unique : Unique key rows) (p : Row → Bool) : Unique key (rows.filter p) :=
  List.Nodup.sublist ((List.filter_sublist).map key) unique

theorem Unique.lookup_mem {rows : List Row} (unique : Unique key rows) {row : Row} (member : row ∈ rows) :
    lookup key rows (key row) = some row := by
  cases found : lookup key rows (key row) with
  | none => exact absurd (List.mem_map_of_mem member) ((lookup_none key rows _).mp found)
  | some other =>
    obtain ⟨inside,same⟩ := lookup_key key found
    exact congrArg some (List.inj_on_of_nodup_map unique inside member same)

/-- Under unique keys nothing else can take the place of a row that goes. -/
theorem Unique.lookup_filter {rows : List Row} (unique : Unique key rows) (p : Row → Bool) (k : Key) :
    lookup key (rows.filter p) k = (lookup key rows k).filter p := by
  cases found : lookup key (rows.filter p) k with
  | some row =>
    obtain ⟨member,rfl⟩ := lookup_key key found
    obtain ⟨inside,kept⟩ := List.mem_filter.mp member
    rw [unique.lookup_mem key inside,Option.filter_some,if_pos kept]
  | none =>
    cases before : lookup key rows k with
    | none => rfl
    | some row =>
      obtain ⟨inside,rfl⟩ := lookup_key key before
      by_cases kept : p row = true
      · have still := List.mem_filter.mpr ⟨inside,kept⟩
        exact absurd (List.mem_map_of_mem still) ((lookup_none key _ _).mp found)
      · rw [Option.filter_some,if_neg kept]

end Rows

section Children

variable (owner : Child → Key)

def ofOwner (children : List Child) (k : Key) : List Child := children.filter (owner · = k)

@[simp] theorem ofOwner_nil (k : Key) : ofOwner owner [] k = [] := rfl

theorem ofOwner_add (children : List Child) (child : Child) (k : Key) : ofOwner owner (children ++ [child]) k =
    ofOwner owner children k ++ if k = owner child then [child] else [] := by
  rw [ofOwner,List.filter_append,ofOwner]
  by_cases same : owner child = k
  · simp [same]
  · simp [same,Ne.symm same]

theorem ofOwner_filter (children : List Child) (p : Key → Bool) (k : Key) :
    ofOwner owner (children.filter fun child => p (owner child)) k = if p k then ofOwner owner children k else [] := by
  rw [ofOwner,List.filter_filter,ofOwner]
  split
  · next kept =>
    apply List.filter_congr
    intro child _
    by_cases same : owner child = k
    · simp [same,kept]
    · simp [same]
  · next gone =>
    apply List.filter_eq_nil_iff.mpr
    intro child _ both
    simp only [Bool.and_eq_true,decide_eq_true_eq] at both
    exact gone (both.1 ▸ both.2)

theorem mem_ofOwner (children : List Child) (child : Child) (member : child ∈ children) :
    child ∈ ofOwner owner children (owner child) := List.mem_filter.mpr ⟨member,decide_eq_true rfl⟩

end Children

end KeyedRows

/-! Settings that are told in layers. A layer says a value of some of them and nothing of the others;
what it says takes the place of what was there. -/
namespace Layering

variable {Store Setting Value : Type} (value : Setting → Store → Value)

abbrev Layer (Setting Value : Type) := Setting → Option Value

/-- What the upper one says counts, and what the lower one says where the upper one says nothing. -/
def stack (upper lower : Layer Setting Value) : Layer Setting Value := fun setting => (upper setting).or (lower setting)

/-- The later store is the earlier one with what the layer says. -/
def Follows (layer : Layer Setting Value) (before after : Store) : Prop :=
  ∀ setting, value setting after = (layer setting).getD (value setting before)

variable {value}

/-- Layers that are put on one after the other are one layer. -/
theorem Follows.trans {lower upper : Layer Setting Value} {first second third : Store}
    (below : Follows value lower first second) (above : Follows value upper second third) :
    Follows value (stack upper lower) first third := by
  intro setting
  rw [above setting,below setting,stack]
  cases upper setting <;> rfl

end Layering
