import TestForge.JsonDump

/-! Round trips: a faithful value survives its text, an accepted text survives being
parsed and written again as far as its numbers are finite. -/
namespace TestForge.Json

open Strings

namespace Value

/-- Reading a rendering gives what the value tells. -/
theorem parse_dumpInto (limits : ParseLimits) (indent : Int) (depth : Nat) (value : Value)
    (fits : ∀ u ∈ value.subvalues, u.IntFits) (shallow : value.depth ≤ limits.maxDepth)
    (short : (dumpInto indent depth value).length ≤ limits.maxLength) :
    parse limits (dumpInto indent depth value) = .ok value.reread := by
  obtain ⟨node,spelled,depths,values⟩ := dumpInto_renders indent value fits depth
  have empty : Blank ([] : Bytes) := by simp [Blank]
  rw [parse_iff]
  exact ⟨short,node,⟨[],_,[],empty,spelled,empty,by simp⟩,by omega,values⟩

theorem parse_dump (limits : ParseLimits) (value : Value) (fits : ∀ u ∈ value.subvalues, u.IntFits)
    (shallow : value.depth ≤ limits.maxDepth) (short : value.dump.length ≤ limits.maxLength) :
    parse limits value.dump = .ok value.reread := by
  rw [← dumpInto_compact (-1) (by decide) value 0] at short ⊢
  exact parse_dumpInto limits (-1) 0 value fits shallow short

theorem Faithful.intFits {value : Value} (faithful : value.Faithful) : value.IntFits := by
  cases value with
  | int z => exact faithful
  | null | bool | double | string | array | object => trivial

/-! ### The widest padding -/

theorem length_pad (indent : Int) (depth : Nat) (pretty : 0 ≤ indent) :
    ((pad indent depth).length : Int) = indent * depth := by
  rw [pad,if_pos pretty,List.length_replicate,Int.toNat_of_nonneg]
  exact Int.mul_nonneg pretty (Int.natCast_nonneg depth)

theorem item_rows (indent : Int) (depth : Nat) {item : Value} {items : List Value} (listed : item ∈ items) :
    (pad indent (depth + 1)).length + (dumpInto indent (depth + 1) item).length ≤
      (dumpItemsInto indent depth items).length := by
  induction items with
  | nil => cases listed
  | cons first rest ih =>
    rw [dumpItemsInto]
    simp only [List.length_append]
    rcases List.mem_cons.mp listed with rfl | listed
    · omega
    · have := ih listed
      omega

theorem member_rows (indent : Int) (depth : Nat) {member : Bytes × Value} {members : List (Bytes × Value)}
    (listed : member ∈ members) :
    (pad indent (depth + 1)).length + (dumpInto indent (depth + 1) member.2).length ≤
      (dumpMembersInto indent depth members).length := by
  induction members with
  | nil => cases listed
  | cons first rest ih =>
    obtain ⟨key,value⟩ := first
    rw [dumpMembersInto]
    simp only [List.length_append]
    rcases List.mem_cons.mp listed with rfl | listed
    · dsimp only
      omega
    · have := ih listed
      omega

theorem deepest_item (items : List Value) (nested : 0 < itemDepth items) :
    ∃ item ∈ items, item.depth + 1 = itemDepth items := by
  induction items with
  | nil => cases nested
  | cons first rest ih =>
    rw [itemDepth] at nested ⊢
    rcases Nat.le_total (itemDepth rest) (first.depth + 1) with deeper | deeper
    · exact ⟨first,by simp,(Nat.max_eq_left deeper).symm⟩
    · obtain ⟨item,listed,depth⟩ := ih (by omega)
      exact ⟨item,List.mem_cons_of_mem _ listed,by omega⟩

theorem deepest_member (members : List (Bytes × Value)) (nested : 0 < memberDepth members) :
    ∃ member ∈ members, member.2.depth + 1 = memberDepth members := by
  induction members with
  | nil => cases nested
  | cons first rest ih =>
    obtain ⟨key,value⟩ := first
    rw [memberDepth] at nested ⊢
    rcases Nat.le_total (memberDepth rest) (value.depth + 1) with deeper | deeper
    · exact ⟨(key,value),by simp,(Nat.max_eq_left deeper).symm⟩
    · obtain ⟨member,listed,depth⟩ := ih (by omega)
      exact ⟨member,List.mem_cons_of_mem _ listed,by omega⟩

/-- The deepest value of a container stands behind its padding. -/
theorem padding_le_length (indent : Int) (pretty : 0 ≤ indent) (value : Value) (depth : Nat)
    (nested : 0 < value.depth) : indent * (depth + value.depth) ≤ (dumpInto indent depth value).length := by
  have row : ∀ (item : Value) (depth total : Nat),
      (∀ depth : Nat, 0 < item.depth → indent * (depth + item.depth) ≤ (dumpInto indent depth item).length) →
      (pad indent (depth + 1)).length + (dumpInto indent (depth + 1) item).length ≤ total →
      indent * (depth + (item.depth + 1 : Nat)) ≤ total := by
    intro item depth total inner fits
    have front := length_pad indent (depth + 1) pretty
    rcases Nat.eq_zero_or_pos item.depth with flat | nested
    · rw [flat]
      push_cast at front ⊢
      omega
    · have behind := inner (depth + 1) nested
      have same : (depth : Int) + (item.depth + 1 : Nat) = (depth + 1 : Nat) + item.depth := by omega
      rw [same]
      omega
  induction value using Value.induction generalizing depth with
  | null | bool | int | double | string => cases nested
  | array items ih =>
    obtain ⟨item,listed,deepest⟩ := deepest_item items nested
    have bound := row item depth _ (fun depth => ih item listed depth) (item_rows indent depth listed)
    rw [deepest] at bound
    cases items with
    | nil => cases listed
    | cons first rest =>
      rw [dumpInto]
      simp only [List.length_cons,List.length_append]
      rw [Value.depth]
      omega
  | object members ih =>
    obtain ⟨member,listed,deepest⟩ := deepest_member members nested
    have bound := row member.2 depth _ (fun depth => ih member listed depth) (member_rows indent depth listed)
    rw [deepest] at bound
    cases members with
    | nil => cases listed
    | cons first rest =>
      rw [dumpInto]
      simp only [List.length_cons,List.length_append]
      rw [Value.depth]
      omega

/-- Up to a gigabyte of text no padding leaves the range of `int`. -/
theorem dumpIndented_defined (indent : Int) (pretty : 0 ≤ indent) (wide : indent < 2^31) (value : Value)
    (short : (dumpInto indent 0 value).length ≤ 2^29) :
    dumpIndented indent value = some (dumpInto indent 0 value) := by
  rw [dumpIndented,if_pos]
  right
  rcases Nat.eq_zero_or_pos value.depth with flat | nested
  · rw [flat]
    omega
  · have bound := padding_le_length indent pretty value 0 nested
    have doubled : indent * (value.depth + 1) ≤ indent * (value.depth * 2) :=
      Int.mul_le_mul_of_nonneg_left (by omega) pretty
    rw [← Int.mul_assoc] at doubled
    rw [Nat.cast_zero,Int.zero_add] at bound
    omega

/-- A faithful value survives its compact text and every indented one; and the
indented text exists whenever it is no longer than the parser takes by default. -/
theorem dump_roundTrip (value : Value) (faithful : ∀ u ∈ value.subvalues, u.Faithful) (limits : ParseLimits)
    (shallow : value.depth ≤ limits.maxDepth) :
    (value.dump.length ≤ limits.maxLength → parse limits value.dump = .ok value) ∧
    ∀ indent : Int, 0 ≤ indent → indent < 2^31 →
      (∀ text, dumpIndented indent value = some text → text.length ≤ limits.maxLength →
        parse limits text = .ok value) ∧
      ((dumpInto indent 0 value).length ≤ ({} : ParseLimits).maxLength →
        dumpIndented indent value = some (dumpInto indent 0 value)) := by
  have fits : ∀ u ∈ value.subvalues, u.IntFits := fun u inside => (faithful u inside).intFits
  have same := reread_eq value faithful
  refine ⟨fun short => ?_,fun indent pretty wide => ⟨fun text rendered short => ?_,fun short => ?_⟩⟩
  · rw [parse_dump limits value fits shallow short,same]
  · have text_eq : dumpInto indent 0 value = text := by
      unfold dumpIndented at rendered
      split at rendered
      · exact Option.some.inj rendered
      · cases rendered
    rw [← text_eq] at short ⊢
    rw [parse_dumpInto limits indent 0 value fits shallow short,same]
  · exact dumpIndented_defined indent pretty wide value (Nat.le_trans short (by decide))

instance (value : Value) : Decidable value.IntFits :=
  match value with
  | .int z => inferInstanceAs (Decidable (-2^63 ≤ z ∧ z < 2^63))
  | .null | .bool _ | .double _ | .string _ | .array _ | .object _ => .isTrue trivial

instance (value : Value) : Decidable value.Faithful :=
  match value with
  | .double d => inferInstanceAs (Decidable (d.isFinite = true))
  | .object members => inferInstanceAs (Decidable (members.map (·.1)).Nodup)
  | .int z => inferInstanceAs (Decidable (Value.int z).IntFits)
  | .null | .bool _ | .string _ | .array _ => .isTrue trivial

/-- 0.1, -0.0, a control character and an empty object, two levels deep. -/
def sampleDocument : Value :=
  .object [(ascii "a",.array [.int (-3),.double ⟨0x3FB999999999999A⟩,.double ⟨0x8000000000000000⟩,.null]),
    (ascii "b",.object [(ascii "",.string [1,34,195,169]),(ascii "c",.object [])])]

theorem dump_roundTrip_sample :
    parse {} sampleDocument.dump = .ok sampleDocument ∧
      ∀ text, dumpIndented 2 sampleDocument = some text → text.length ≤ 16 * 1024 * 1024 →
        parse {} text = .ok sampleDocument := by
  have whole := dump_roundTrip sampleDocument (by decide) {} (by decide)
  exact ⟨whole.1 (by decide +kernel),(whole.2 2 (by decide) (by decide)).1⟩

end Value

/-! ### Accepted texts -/

theorem Node.induction {motive : Node → Prop} (null : motive .null) (bool : ∀ b, motive (.bool b))
    (number : ∀ n, motive (.number n)) (string : ∀ units, motive (.string units))
    (array : ∀ items, (∀ item ∈ items, motive item) → motive (.array items))
    (object : ∀ members, (∀ member ∈ members, motive member.2) → motive (.object members))
    (node : Node) : motive node := by
  refine @Node.rec motive (fun items => ∀ item ∈ items, motive item)
    (fun members => ∀ member ∈ members, motive member.2) (fun member => motive member.2)
    null bool number string array object ?_ ?_ ?_ ?_ ?_ node
  · simp
  · intro item rest first others
    simpa using ⟨first,others⟩
  · simp
  · intro member rest first others x inside
    rcases List.mem_cons.mp inside with rfl | inside
    · exact first
    · exact others x inside
  · exact fun _ _ known => known

theorem lastWins_subset {members : List (Bytes × Value)} {member : Bytes × Value}
    (listed : member ∈ lastWins members) : member ∈ members := by
  obtain ⟨key,-,found⟩ := List.mem_filterMap.mp listed
  simpa using List.mem_of_find?_eq_some found

theorem lastWins_keys (members : List (Bytes × Value)) : ((lastWins members).map (·.1)).Nodup := by
  have kept : ((lastWins members).map (·.1)).Sublist (members.map (·.1)).reverse.dedup.reverse := by
    unfold lastWins
    induction (members.map (·.1)).reverse.dedup.reverse with
    | nil => simp
    | cons key keys ih =>
      cases found : members.reverse.find? fun member => decide (member.1 = key) with
      | none =>
        simpa only [List.filterMap_cons,found] using ih.cons key
      | some member =>
        have named : member.1 = key := by simpa using List.find?_some found
        simp only [List.filterMap_cons,found,List.map_cons,named]
        exact ih.cons_cons key
  exact kept.nodup (List.nodup_reverse.mpr (List.nodup_dedup _))

namespace Value

/-- What every value inside a parsed one satisfies: integers fit and keys are unique. -/
def Parsed : Value → Prop
  | .object members => (members.map (·.1)).Nodup
  | value => value.IntFits

theorem Parsed.intFits {value : Value} (parsed : value.Parsed) : value.IntFits := by
  cases value with
  | int z => exact parsed
  | null | bool | double | string | array | object => trivial

theorem subvalues_array (items : List Value) (u : Value) :
    u ∈ (array items).subvalues ↔ u = .array items ∨ ∃ item ∈ items, u ∈ item.subvalues := by
  simp [subvalues,itemSubvalues_eq]

theorem subvalues_object (members : List (Bytes × Value)) (u : Value) :
    u ∈ (object members).subvalues ↔ u = .object members ∨ ∃ member ∈ members, u ∈ member.2.subvalues := by
  simp [subvalues,memberSubvalues_eq]

/-- What a tree denotes is well formed and no deeper than the tree. -/
theorem denoted (node : Node) :
    (∀ u ∈ node.value.subvalues, u.Parsed) ∧ node.value.depth ≤ node.depth := by
  induction node using Node.induction with
  | null | bool | string => exact ⟨by simp [Node.value,subvalues,Parsed,IntFits],Nat.le_refl _⟩
  | number n =>
    rw [Node.value,Numeral.value]
    split
    · next fits => exact ⟨by simpa [subvalues,Parsed,IntFits] using fits.2,Nat.le_refl _⟩
    · exact ⟨by simp [subvalues,Parsed,IntFits],Nat.le_refl _⟩
  | array items ih =>
    rw [Node.value,Node.itemValues_eq]
    constructor
    · intro u inside
      rcases (subvalues_array _ _).mp inside with rfl | ⟨item,listed,inside⟩
      · trivial
      · obtain ⟨node,member,rfl⟩ := List.mem_map.mp listed
        exact (ih node member).1 u inside
    · rw [Value.depth,itemDepth_le]
      intro item listed
      obtain ⟨node,member,rfl⟩ := List.mem_map.mp listed
      have inner := (Node.itemDepth_le items _).mp (Nat.le_refl _) node member
      exact Nat.lt_of_le_of_lt (ih node member).2 inner
  | object members ih =>
    rw [Node.value,Node.memberValues_eq]
    constructor
    · intro u inside
      rcases (subvalues_object _ _).mp inside with rfl | ⟨member,listed,inside⟩
      · exact lastWins_keys _
      · obtain ⟨tree,known,rfl⟩ := List.mem_map.mp (lastWins_subset listed)
        exact (ih tree known).1 u inside
    · rw [Value.depth,memberDepth_le]
      intro member listed
      obtain ⟨tree,known,rfl⟩ := List.mem_map.mp (lastWins_subset listed)
      have inner := (Node.memberDepth_le members _).mp (Nat.le_refl _) tree known
      exact Nat.lt_of_le_of_lt (ih tree known).2 inner

mutual
/-- Infinities turned into null. -/
def finitePart : Value → Value
  | .double value => if value.isFinite then .double value else .null
  | .array items => .array (finiteItems items)
  | .object members => .object (finiteMembers members)
  | value => value

def finiteItems : List Value → List Value
  | [] => []
  | item :: rest => item.finitePart :: finiteItems rest

def finiteMembers : List (Bytes × Value) → List (Bytes × Value)
  | [] => []
  | (key,value) :: rest => (key,value.finitePart) :: finiteMembers rest
end

theorem finiteItems_eq (items : List Value) : finiteItems items = items.map finitePart := by
  induction items with
  | nil => rfl
  | cons item rest ih => simp [finiteItems,ih]

theorem finiteMembers_eq (members : List (Bytes × Value)) :
    finiteMembers members = members.map fun member => (member.1,member.2.finitePart) := by
  induction members with
  | nil => rfl
  | cons member rest ih => simp [finiteMembers,ih]

/-- With unique keys the text loses nothing but the infinities. -/
theorem reread_parsed (value : Value) (parsed : ∀ u ∈ value.subvalues, u.Parsed) :
    value.reread = value.finitePart := by
  induction value using Value.induction with
  | null | bool | int | double | string => rfl
  | array items ih =>
    have same : items.map reread = items.map finitePart := by
      apply List.map_congr_left
      intro item listed
      exact ih item listed fun u inside => parsed u (subvalues_item listed inside)
    rw [reread,rereadItems_eq,finitePart,finiteItems_eq,same]
  | object members ih =>
    have distinct : (members.map (·.1)).Nodup := parsed _ (self_mem_subvalues _)
    have same : members.map (fun member => (member.1,member.2.reread)) =
        members.map fun member => (member.1,member.2.finitePart) := by
      apply List.map_congr_left
      intro member listed
      rw [ih member listed fun u inside => parsed u (subvalues_member listed inside)]
    rw [reread,rereadMembers_eq,finitePart,finiteMembers_eq,same,lastWins_distinct]
    simpa [Function.comp_def] using distinct

theorem map_eq_self (f : α → α) (l : List α) : l.map f = l ↔ ∀ a ∈ l, f a = a := by
  simpa using List.map_inj_left (f := f) (g := id) (l := l)

/-- Nothing is lost exactly when every double is finite. -/
theorem finitePart_eq_iff (value : Value) :
    value.finitePart = value ↔ ∀ d, .double d ∈ value.subvalues → d.isFinite = true := by
  induction value using Value.induction with
  | null | bool | int | string => simp [finitePart,subvalues]
  | double d => cases finite : d.isFinite <;> simp [finitePart,subvalues,finite]
  | array items ih =>
    rw [finitePart,finiteItems_eq,array.injEq]
    constructor
    · intro same d inside
      rcases (subvalues_array _ _).mp inside with equal | ⟨item,listed,inside⟩
      · cases equal
      · have unchanged : item.finitePart = item := (map_eq_self _ _).mp same item listed
        exact (ih item listed).mp unchanged d inside
    · intro finite
      apply (map_eq_self _ _).mpr
      intro item listed
      exact (ih item listed).mpr fun d inside => finite d (subvalues_item listed inside)
  | object members ih =>
    rw [finitePart,finiteMembers_eq,object.injEq]
    constructor
    · intro same d inside
      rcases (subvalues_object _ _).mp inside with equal | ⟨member,listed,inside⟩
      · cases equal
      · have unchanged := (map_eq_self _ _).mp same member listed
        exact (ih member listed).mp (congrArg Prod.snd unchanged) d inside
    · intro finite
      apply (map_eq_self _ _).mpr
      intro member listed
      exact Prod.ext rfl ((ih member listed).mpr fun d inside => finite d (subvalues_member listed inside))

/-- What the parser accepted can be written and read again; it comes back with null
for every number too large for a double, and so unchanged when there is none. -/
theorem reparse (limits : ParseLimits) (text : Bytes) (value : Value) (accepted : parse limits text = .ok value)
    (short : value.dump.length ≤ limits.maxLength) :
    parse limits value.dump = .ok value.finitePart ∧
      (value.finitePart = value ↔ ∀ d, .double d ∈ value.subvalues → d.isFinite = true) := by
  obtain ⟨-,node,-,shallow,rfl⟩ := (parse_iff _ _ _).mp accepted
  obtain ⟨parsed,depth⟩ := denoted node
  have fits : ∀ u ∈ node.value.subvalues, u.IntFits := fun u inside => (parsed u inside).intFits
  rw [parse_dump limits _ fits (Nat.le_trans depth shallow) short,reread_parsed _ parsed]
  exact ⟨rfl,finitePart_eq_iff _⟩

theorem reparse_sample : ∃ value, parse {} (ascii "[1e5,-0,1e400]") = .ok value ∧
    parse {} value.dump = .ok value.finitePart := by
  have read : (match parse {} (ascii "[1e5,-0,1e400]") with
      | .ok value => decide (value.dump.length ≤ 16 * 1024 * 1024)
      | _ => false) = true := by decide +kernel
  split at read
  · next value parsed => exact ⟨value,parsed,(reparse {} _ value parsed (by simpa using read)).1⟩
  · cases read

def isInfinite : Value → Bool
  | .double d => !d.isFinite
  | _ => false

theorem parse_of_toOption {limits : ParseLimits} {text : Bytes} {value : Value}
    (parsed : (parse limits text).toOption = some value) : parse limits text = .ok value := by
  cases outcome : parse limits text with
  | error _ => rw [outcome] at parsed; cases parsed
  | ok read => rw [outcome] at parsed; exact congrArg _ (Option.some.inj parsed)

/-- A number beyond the doubles comes back as null, and a text of the greatest length
may grow when it is written again. -/
theorem reparse_loses :
    (∃ value, parse {} (ascii "1e400") = .ok value ∧ parse {} value.dump = .ok .null ∧ value ≠ .null) ∧
    ∃ value, parse { maxLength := 3 } (ascii "1e5") = .ok value ∧
      ∀ other, parse { maxLength := 3 } value.dump ≠ .ok other := by
  constructor
  · have read : (parse {} (ascii "1e400")).toOption.any isInfinite = true := by decide +kernel
    obtain ⟨value,parsed,infinite⟩ := (Option.any_eq_true _ _).mp read
    cases value with
    | double d =>
      refine ⟨.double d,parse_of_toOption parsed,?_,by simp⟩
      rw [dump,formatDouble_infinite d (by simpa [isInfinite] using infinite)]
      rfl
    | _ => cases infinite
  · have read : (parse { maxLength := 3 } (ascii "1e5")).toOption.any (3 < ·.dump.length) = true := by
      decide +kernel
    obtain ⟨value,parsed,long⟩ := (Option.any_eq_true _ _).mp read
    refine ⟨value,parse_of_toOption parsed,fun other reparsed => ?_⟩
    have short := ((parse_iff _ _ _).mp reparsed).1
    exact absurd short (Nat.not_le.mpr (of_decide_eq_true long))

end Value
end TestForge.Json
