import TestForge.JsonEquality
import Mathlib.Logic.Relation

/-! `operator==` on what the parser produces: it is reflexive, symmetric and blind to the
order of members, and transitive but for doubles that several integers are rounded to. -/
namespace TestForge

open Json Strings

namespace Double

/-- Not a NaN. -/
def ordered (d : Double) : Bool := d.isFinite || d.fraction == 0

theorem equals_iff (a b : Double) : a.equals b = true ↔ a.ordered = true ∧ b.ordered = true ∧
    (a = b ∨ a.isFinite = true ∧ b.isFinite = true ∧ a.units = 0 ∧ b.units = 0) := by
  have bits : a = b ↔ a.bits = b.bits := by
    cases a
    cases b
    simp
  simp [equals,ordered,bits,and_assoc]

theorem equals_refl (d : Double) (number : d.ordered = true) : d.equals d = true :=
  (equals_iff d d).mpr ⟨number,number,.inl rfl⟩

theorem equals_symm {a b : Double} (equal : a.equals b = true) : b.equals a = true := by
  obtain ⟨first,second,same | zeros⟩ := (equals_iff a b).mp equal
  · exact (equals_iff b a).mpr ⟨second,first,.inl same.symm⟩
  · exact (equals_iff b a).mpr ⟨second,first,.inr ⟨zeros.2.1,zeros.1,zeros.2.2.2,zeros.2.2.1⟩⟩

theorem equals_trans {a b c : Double} (front : a.equals b = true) (behind : b.equals c = true) :
    a.equals c = true := by
  obtain ⟨first,-,left⟩ := (equals_iff a b).mp front
  obtain ⟨-,last,right⟩ := (equals_iff b c).mp behind
  refine (equals_iff a c).mpr ⟨first,last,?_⟩
  rcases left with rfl | left
  · exact right
  · rcases right with rfl | right
    · exact .inr left
    · exact .inr ⟨left.1,right.2.1,left.2.2.1,right.2.2.2⟩

theorem ofRatio_ordered (negative : Bool) (num den : Nat) : (ofRatio negative num den).ordered = true := by
  rw [ofRatio]
  generalize (num * 2^1074 / den).log2 - 52 = shift
  generalize shift * 2^52 + roundHalfEven (num * 2^1074) (den * 2^shift) = magnitude
  have capped : min magnitude (2047 * 2^52) ≤ 2047 * 2^52 := Nat.min_le_right _ _
  generalize min magnitude (2047 * 2^52) = kept at capped
  have word : (UInt64.ofNat ((if negative = true then 2^63 else 0) + kept)).toNat =
      (if negative = true then 2^63 else 0) + kept := by
    rw [UInt64.toNat_ofNat']
    exact Nat.mod_eq_of_lt (by split <;> omega)
  simp only [ordered,isFinite,exponentField,fraction,word,Bool.or_eq_true,decide_eq_true_eq,beq_iff_eq,ne_eq]
  split <;> omega

/-- No two integers of the source's range are rounded to the double. -/
def TellsIntegers (d : Double) : Prop :=
  ∀ x y : Int, -2^63 ≤ x ∧ x < 2^63 → -2^63 ≤ y ∧ y < 2^63 →
    (ofInt x).equals d = true → (ofInt y).equals d = true → x = y

end Double

namespace Json.Value

/-- The parser produces the value from some text. -/
def Produced (value : Value) : Prop := ∃ limits text, parse limits text = .ok value

/-- What every value inside a produced one satisfies. -/
def Comparable : Value → Prop
  | .double d => d.ordered = true
  | value => value.Parsed

def WellFormed (value : Value) : Prop := ∀ u ∈ value.subvalues, u.Comparable

theorem WellFormed.self {value : Value} (whole : value.WellFormed) : value.Comparable :=
  whole _ (self_mem_subvalues _)

theorem WellFormed.item {item : Value} {items : List Value} (whole : (array items).WellFormed)
    (listed : item ∈ items) : item.WellFormed :=
  fun u inside => whole u (subvalues_item listed inside)

theorem WellFormed.member {member : Bytes × Value} {members : List (Bytes × Value)}
    (whole : (object members).WellFormed) (listed : member ∈ members) : member.2.WellFormed :=
  fun u inside => whole u (subvalues_member listed inside)

/-! ### What is produced -/

theorem wellFormed_node (node : Node) : node.value.WellFormed := by
  induction node using Node.induction with
  | null | bool | string => simp [Node.value,WellFormed,subvalues,Comparable,Parsed,IntFits]
  | number n =>
    rw [Node.value,Numeral.value]
    split
    · next fits => simpa [WellFormed,subvalues,Comparable,Parsed,IntFits] using fits.2
    · simp only [WellFormed,subvalues,List.forall_mem_singleton]
      exact Double.ofRatio_ordered _ _ _
  | array items ih =>
    rw [Node.value,Node.itemValues_eq]
    intro u inside
    rcases (subvalues_array _ _).mp inside with rfl | ⟨item,listed,inside⟩
    · trivial
    · obtain ⟨node,member,rfl⟩ := List.mem_map.mp listed
      exact ih node member u inside
  | object members ih =>
    rw [Node.value,Node.memberValues_eq]
    intro u inside
    rcases (subvalues_object _ _).mp inside with rfl | ⟨member,listed,inside⟩
    · exact lastWins_keys _
    · obtain ⟨tree,known,rfl⟩ := List.mem_map.mp (lastWins_subset listed)
      exact ih tree known u inside

/-- Items that can be spelled one by one can be spelled in a row. -/
theorem separated_values {spells : α → Bytes → Prop} (meaning : α → β) (values : List β) (nonempty : values ≠ [])
    (each : ∀ value ∈ values, ∃ item text, spells item text ∧ meaning item = value) :
    ∃ items body, Separated spells items body ∧ items.map meaning = values := by
  have empty : Blank ([] : Bytes) := by simp [Blank]
  induction values with
  | nil => exact absurd rfl nonempty
  | cons value rest ih =>
    obtain ⟨item,text,spelled,rfl⟩ := each value (by simp)
    cases rest with
    | nil => exact ⟨[item],_,.last empty spelled empty,rfl⟩
    | cons next others =>
      obtain ⟨items,body,separated,meanings⟩ := ih (by simp) fun value listed => each value (List.mem_cons_of_mem _ listed)
      exact ⟨item :: items,_,.more empty spelled empty separated,by rw [List.map_cons,meanings]⟩

/-- The literals beyond the doubles. -/
def hugeNumeral (negative : Bool) : Numeral :=
  ⟨negative,⟨[49],by simp,by simp [isDigit]⟩,none,
    some ⟨101,none,⟨[52,48,48],by simp,by simp [isDigit]⟩,.inl rfl,by simp⟩,by simp⟩

theorem toDouble_hugeNumeral : ∀ negative, (hugeNumeral negative).toDouble.bits.toNat =
    (if negative then 2^63 else 0) + 2047 * 2^52 := by decide +kernel

theorem double_numeral (d : Double) (number : d.ordered = true) : ∃ n : Numeral, n.value = .double d := by
  cases finite : d.isFinite with
  | true =>
    obtain ⟨n,-,value⟩ := formatDouble_numeral d finite
    exact ⟨n,value⟩
  | false =>
    have fields : d.exponentField = 2047 ∧ d.fraction = 0 := by
      simp only [Double.ordered,finite,Bool.false_or,beq_iff_eq] at number
      exact ⟨by simpa [Double.isFinite] using finite,number⟩
    have magnitude : d.shift * 2^52 + d.significand = 2047 * 2^52 := by
      rw [Double.shift,Double.significand,fields.1,fields.2,if_neg (by decide)]
      decide
    have same : (hugeNumeral d.negative).toDouble = d := by
      have bits : (hugeNumeral d.negative).toDouble.bits = d.bits := by
        apply UInt64.toNat.inj
        rw [toDouble_hugeNumeral,d.bits_eq,magnitude]
      cases d
      exact congrArg Double.mk bits
    exact ⟨hugeNumeral d.negative,by rw [Numeral.value,same]; rfl⟩

theorem node_of_wellFormed (value : Value) (whole : value.WellFormed) :
    ∃ node text, Node.Spells node text ∧ node.value = value := by
  induction value using Value.induction with
  | null => exact ⟨.null,_,.null,rfl⟩
  | bool b =>
    cases b with
    | true => exact ⟨.bool true,_,.true,rfl⟩
    | false => exact ⟨.bool false,_,.false,rfl⟩
  | int z =>
    obtain ⟨low,high⟩ : IntFits (.int z) := whole.self
    obtain ⟨n,-,value⟩ := decimalInt_numeral z low high
    exact ⟨.number n,_,.number,value⟩
  | double d =>
    obtain ⟨n,value⟩ := double_numeral d (whole.self)
    exact ⟨.number n,_,.number,value⟩
  | string text =>
    obtain ⟨units,-,meaning⟩ := escape_literal text
    exact ⟨.string units,_,.string,congrArg Value.string meaning⟩
  | array items ih =>
    by_cases nonempty : items = []
    · subst nonempty
      exact ⟨.array [],_,.emptyArray (show Blank [] by simp [Blank]),rfl⟩
    · obtain ⟨nodes,body,separated,meanings⟩ := separated_values Node.value items nonempty
        fun item listed => ih item listed (whole.item listed)
      exact ⟨.array nodes,_,.array separated,by rw [Node.value,Node.itemValues_eq,meanings]⟩
  | object members ih =>
    have distinct : (members.map (·.1)).Nodup := whole.self
    by_cases nonempty : members = []
    · subst nonempty
      exact ⟨.object [],_,.emptyObject (show Blank [] by simp [Blank]),rfl⟩
    · have each : ∀ member ∈ members, ∃ tree text, Member Node.Spells tree text ∧
          (StringUnit.denote tree.1,tree.2.value) = member := by
        intro member listed
        obtain ⟨units,-,meaning⟩ := escape_literal member.1
        obtain ⟨node,text,spelled,value⟩ := ih member listed (whole.member listed)
        have empty : Blank ([] : Bytes) := by simp [Blank]
        exact ⟨(units,node),_,.intro empty empty spelled,Prod.ext meaning value⟩
      obtain ⟨trees,body,separated,meanings⟩ := separated_values
        (fun tree : List StringUnit × Node => (StringUnit.denote tree.1,tree.2.value)) members nonempty each
      refine ⟨.object trees,_,.object separated,?_⟩
      rw [Node.value,Node.memberValues_eq,meanings,lastWins_distinct members distinct]

theorem produced_iff (value : Value) : value.Produced ↔ value.WellFormed := by
  constructor
  · rintro ⟨limits,text,parsed⟩
    obtain ⟨-,node,-,-,rfl⟩ := (parse_iff _ _ _).mp parsed
    exact wellFormed_node node
  · intro whole
    obtain ⟨node,text,spelled,same⟩ := node_of_wellFormed value whole
    have empty : Blank ([] : Bytes) := by simp [Blank]
    refine ⟨⟨node.depth,text.length⟩,text,(parse_iff _ _ _).mpr ⟨Nat.le_refl _,node,?_,Nat.le_refl _,same⟩⟩
    exact ⟨[],text,[],empty,spelled,empty,by simp⟩

/-! ### The laws on sound values -/

theorem find_eq_some (members : List (Bytes × Value)) (distinct : (members.map (·.1)).Nodup) (key : Bytes)
    (value : Value) : (object members).find key = some value ↔ (key,value) ∈ members := by
  induction members with
  | nil => simp [find]
  | cons member rest ih =>
    obtain ⟨name,first⟩ := member
    obtain ⟨fresh,distinct⟩ := List.nodup_cons.mp distinct
    by_cases same : name = key
    · subst same
      have absent : (name,value) ∉ rest := fun listed => fresh (List.mem_map.mpr ⟨_,listed,rfl⟩)
      simp [find,absent,eq_comm]
    · have other : (object ((name,first) :: rest)).find key = (object rest).find key := by
        simp [find,same]
      rw [other,ih distinct,List.mem_cons,Prod.mk.injEq]
      simp [Ne.symm same]

theorem membersEqual_iff (mixed : Int → Double → Bool) (members others : List (Bytes × Value)) :
    membersEqual mixed members others = true ↔ ∀ member ∈ members,
      ∃ other, (object others).find member.1 = some other ∧ equalsBy mixed member.2 other = true := by
  induction members with
  | nil => simp [membersEqual]
  | cons member rest ih =>
    obtain ⟨key,value⟩ := member
    rw [membersEqual,Bool.and_eq_true,ih,List.forall_mem_cons]
    cases (object others).find key <;> simp

theorem equals_array_iff (items others : List Value) : (array items).equals (.array others) = true ↔
    List.Forall₂ (fun a b => a.equals b = true) items others := by
  change itemsEqual _ items others = true ↔ _
  induction items generalizing others with
  | nil => cases others <;> simp [itemsEqual]
  | cons item rest ih =>
    cases others with
    | nil => simp [itemsEqual]
    | cons other others => rw [itemsEqual,Bool.and_eq_true,ih,List.forall₂_cons,equals]

theorem equals_object_iff (members others : List (Bytes × Value)) : (object members).equals (.object others) = true ↔
    members.length = others.length ∧ ∀ member ∈ members,
      ∃ other, (object others).find member.1 = some other ∧ member.2.equals other = true := by
  rw [equals,equalsBy,Bool.and_eq_true,beq_iff_eq,membersEqual_iff]

theorem equals_refl (a : Value) (whole : a.WellFormed) : a.equals a = true := by
  induction a using Value.induction with
  | null | bool | int | string => simp [equals,equalsBy]
  | double d => exact d.equals_refl (whole.self)
  | array items ih =>
    apply (equals_array_iff _ _).mpr
    apply List.forall₂_same.mpr
    intro item listed
    exact ih item listed (whole.item listed)
  | object members ih =>
    have distinct : (members.map (·.1)).Nodup := whole.self
    refine (equals_object_iff _ _).mpr ⟨rfl,fun member listed => ⟨member.2,?_,?_⟩⟩
    · exact (find_eq_some members distinct _ _).mpr listed
    · exact ih member listed (whole.member listed)

/-- With as many members on both sides and no key twice, to find each key of the one
among the others is to find each key of the others in the one. -/
theorem keys_subset {members others : List (Bytes × Value)} (distinct : (members.map (·.1)).Nodup)
    (long : others.length ≤ members.length) (found : ∀ key ∈ members.map (·.1), key ∈ others.map (·.1)) :
    ∀ key ∈ others.map (·.1), key ∈ members.map (·.1) := by
  have within : (members.map (·.1)).Subperm (others.map (·.1)) := List.subperm_of_subset distinct found
  have perm := within.perm_of_length_le (by simpa using long)
  exact fun key listed => perm.symm.subset listed

theorem equals_symm (a b : Value) (whole : a.WellFormed) (whole' : b.WellFormed)
    (equal : a.equals b = true) : b.equals a = true := by
  induction a using Value.induction generalizing b with
  | null | bool | int | string => cases b <;> simp_all [equals,equalsBy]
  | double d =>
    cases b with
    | double e => exact Double.equals_symm equal
    | int z => exact equal
    | _ => cases equal
  | array items ih =>
    cases b with
    | array others =>
      apply (equals_array_iff _ _).mpr
      have pairs := (equals_array_iff _ _).mp equal
      apply List.forall₂_iff_get.mpr
      obtain ⟨length,each⟩ := List.forall₂_iff_get.mp pairs
      refine ⟨length.symm,fun i other item => ?_⟩
      have listed := List.get_mem items ⟨i,item⟩
      have listed' := List.get_mem others ⟨i,other⟩
      exact ih _ listed _ (whole.item listed) (whole'.item listed') (each i item other)
    | _ => cases equal
  | object members ih =>
    cases b with
    | object others =>
      have distinct : (members.map (·.1)).Nodup := whole.self
      have distinct' : (others.map (·.1)).Nodup := whole'.self
      obtain ⟨length,each⟩ := (equals_object_iff _ _).mp equal
      have found : ∀ key ∈ members.map (·.1), key ∈ others.map (·.1) := by
        intro key keyed
        obtain ⟨member,listed,rfl⟩ := List.mem_map.mp keyed
        obtain ⟨other,named,-⟩ := each _ listed
        exact List.mem_map.mpr ⟨_,(find_eq_some others distinct' _ other).mp named,rfl⟩
      refine (equals_object_iff _ _).mpr ⟨length.symm,fun other listed' => ?_⟩
      obtain ⟨member,listed,key⟩ := List.mem_map.mp
        (keys_subset distinct (Nat.le_of_eq length.symm) found other.1 (List.mem_map_of_mem listed'))
      obtain ⟨partner,named,same⟩ := each member listed
      have unique : partner = other.2 := by
        have here := (find_eq_some others distinct' other.1 other.2).mpr listed'
        rw [← key,named] at here
        exact Option.some.inj here
      rw [unique] at same
      refine ⟨member.2,(find_eq_some members distinct _ _).mpr (by rw [← key]; exact listed),?_⟩
      exact ih member listed other.2 (whole.member listed) (whole'.member listed') same
    | _ => cases equal

/-- A value in the middle passes equality on when none of its doubles is what several
integers are rounded to. -/
theorem equals_trans (a b c : Value) (whole : a.WellFormed) (whole' : b.WellFormed)
    (whole'' : c.WellFormed) (tells : ∀ d, .double d ∈ b.subvalues → d.TellsIntegers)
    (front : a.equals b = true) (behind : b.equals c = true) : a.equals c = true := by
  induction b using Value.induction generalizing a c with
  | null | bool | string => cases a <;> cases c <;> simp_all [equals,equalsBy]
  | int z =>
    cases a <;> cases c <;> simp_all [equals,equalsBy]
    exact Double.equals_trans (Double.equals_symm front) behind
  | double d =>
    have tells := tells d (self_mem_subvalues _)
    cases a with
    | int x =>
      cases c with
      | int y =>
        have same := tells x y (whole.self) (whole''.self) front behind
        rw [same]
        exact equals_refl _ whole''
      | double e => exact Double.equals_trans front behind
      | _ => cases behind
    | double e =>
      cases c with
      | int y => exact Double.equals_trans behind (Double.equals_symm front)
      | double f => exact Double.equals_trans front behind
      | _ => cases behind
    | _ => cases front
  | array items ih =>
    cases a with
    | array before =>
      cases c with
      | array after =>
        obtain ⟨length,left⟩ := List.forall₂_iff_get.mp ((equals_array_iff _ _).mp front)
        obtain ⟨length',right⟩ := List.forall₂_iff_get.mp ((equals_array_iff _ _).mp behind)
        refine (equals_array_iff _ _).mpr (List.forall₂_iff_get.mpr ⟨length.trans length',fun i first last => ?_⟩)
        have middle : i < items.length := length ▸ first
        have listed := List.get_mem items ⟨i,middle⟩
        exact ih _ listed _ _ (whole.item (List.get_mem before ⟨i,first⟩)) (whole'.item listed)
          (whole''.item (List.get_mem after ⟨i,last⟩)) (fun d inside => tells d (subvalues_item listed inside))
          (left i first middle) (right i middle last)
      | _ => cases behind
    | _ => cases front
  | object members ih =>
    cases a with
    | object before =>
      cases c with
      | object after =>
        have distinct : (members.map (·.1)).Nodup := whole'.self
        have distinct' : (after.map (·.1)).Nodup := whole''.self
        obtain ⟨length,left⟩ := (equals_object_iff _ _).mp front
        obtain ⟨length',right⟩ := (equals_object_iff _ _).mp behind
        refine (equals_object_iff _ _).mpr ⟨length.trans length',fun member listed => ?_⟩
        obtain ⟨middle,found,same⟩ := left member listed
        have inside := (find_eq_some members distinct _ _).mp found
        obtain ⟨last,found',same'⟩ := right _ inside
        have inside' := (find_eq_some after distinct' _ _).mp found'
        exact ⟨last,found',ih _ inside _ _ (whole.member listed) (whole'.member inside) (whole''.member inside')
          (fun d within => tells d (subvalues_member inside within)) same same'⟩
      | _ => cases behind
    | _ => cases front

/-! ### One place in a value -/

/-- A container with one of its values left out. -/
inductive Frame where
  | item (before after : List Value)
  | member (before : List (Bytes × Value)) (key : Bytes) (after : List (Bytes × Value))

def Frame.around : Frame → Value → Value
  | .item before after, value => .array (before ++ value :: after)
  | .member before key after, value => .object (before ++ (key,value) :: after)

/-- The value inside its frames, the outermost first. -/
def plug (frames : List Frame) (value : Value) : Value := frames.foldr Frame.around value

theorem mem_around (frame : Frame) (value u : Value) (inside : u ∈ value.subvalues) :
    u ∈ (frame.around value).subvalues := by
  cases frame with
  | item before after => exact subvalues_item (List.mem_append_right _ (List.mem_cons_self ..)) inside
  | member before key after =>
    have listed : (key,value) ∈ before ++ (key,value) :: after := List.mem_append_right _ (List.mem_cons_self ..)
    exact subvalues_member listed inside

theorem exists_plug (value u : Value) (inside : u ∈ value.subvalues) : ∃ frames, plug frames u = value := by
  induction value using Value.induction with
  | null | bool | int | double | string => exact ⟨[],List.mem_singleton.mp inside⟩
  | array items ih =>
    rcases (subvalues_array _ _).mp inside with rfl | ⟨item,listed,inside⟩
    · exact ⟨[],rfl⟩
    · obtain ⟨frames,plugged⟩ := ih item listed inside
      obtain ⟨before,after,rfl⟩ := List.append_of_mem listed
      exact ⟨.item before after :: frames,by rw [plug,List.foldr_cons,← plug,plugged,Frame.around]⟩
  | object members ih =>
    rcases (subvalues_object _ _).mp inside with rfl | ⟨member,listed,inside⟩
    · exact ⟨[],rfl⟩
    · obtain ⟨frames,plugged⟩ := ih member listed inside
      obtain ⟨before,after,rfl⟩ := List.append_of_mem listed
      exact ⟨.member before member.1 after :: frames,by rw [plug,List.foldr_cons,← plug,plugged,Frame.around]⟩

theorem WellFormed.inner (frame : Frame) {value : Value} (whole : (frame.around value).WellFormed) : value.WellFormed :=
  fun u inside => whole u (mem_around frame value u inside)

/-- Only the keys of a container matter to what stands around a value in it. -/
theorem WellFormed.replace (frame : Frame) {value other : Value} (whole : (frame.around value).WellFormed)
    (fresh : other.WellFormed) : (frame.around other).WellFormed := by
  cases frame with
  | item before after =>
    intro u inside
    rcases (subvalues_array _ _).mp inside with rfl | ⟨item,listed,within⟩
    · trivial
    · rcases List.mem_append.mp listed with front | listed
      · exact whole.item (List.mem_append_left _ front) u within
      · rcases List.mem_cons.mp listed with rfl | behind
        · exact fresh u within
        · exact whole.item (List.mem_append_right _ (List.mem_cons_of_mem _ behind)) u within
  | member before key after =>
    intro u inside
    rcases (subvalues_object _ _).mp inside with rfl | ⟨member,listed,within⟩
    · have distinct : ((before ++ (key,value) :: after).map (·.1)).Nodup := whole.self
      change ((before ++ (key,other) :: after).map (·.1)).Nodup
      simpa only [List.map_append,List.map_cons] using distinct
    · rcases List.mem_append.mp listed with front | listed
      · exact whole.member (List.mem_append_left _ front) u within
      · rcases List.mem_cons.mp listed with rfl | behind
        · exact fresh u within
        · exact whole.member (List.mem_append_right _ (List.mem_cons_of_mem _ behind)) u within

theorem WellFormed.plug_inner {frames : List Frame} {value : Value} (whole : (plug frames value).WellFormed) :
    value.WellFormed := by
  induction frames with
  | nil => exact whole
  | cons frame rest ih => exact ih (whole.inner frame)

theorem WellFormed.plug_replace {frames : List Frame} {value other : Value} (whole : (plug frames value).WellFormed)
    (fresh : other.WellFormed) : (plug frames other).WellFormed := by
  induction frames with
  | nil => exact fresh
  | cons frame rest ih =>
    have inner : (plug rest value).WellFormed := whole.inner frame
    exact whole.replace frame (ih inner)

theorem itemsEqual_append (mixed : Int → Double → Bool) (before a b : List Value)
    (same : itemsEqual mixed before before = true) :
    itemsEqual mixed (before ++ a) (before ++ b) = itemsEqual mixed a b := by
  induction before with
  | nil => rfl
  | cons item rest ih =>
    rw [itemsEqual,Bool.and_eq_true] at same
    rw [List.cons_append,List.cons_append,itemsEqual,same.1,Bool.true_and,ih same.2]

/-- What stands around two values adds nothing to their difference. -/
theorem equals_around (frame : Frame) (value other : Value) (whole : (frame.around value).WellFormed)
    (fresh : other.WellFormed) : (frame.around value).equals (frame.around other) = value.equals other := by
  cases frame with
  | item before after =>
    have self : ∀ items, (∀ item ∈ items, item ∈ before ++ value :: after) →
        (array items).equals (.array items) = true := by
      intro items within
      apply (equals_array_iff _ _).mpr
      apply List.forall₂_same.mpr
      intro item listed
      exact equals_refl item (whole.item (within item listed))
    have front : itemsEqual _ before before = true := self before fun _ listed => List.mem_append_left _ listed
    have behind : itemsEqual _ after after = true :=
      self after fun _ listed => List.mem_append_right _ (List.mem_cons_of_mem _ listed)
    change itemsEqual _ (before ++ value :: after) (before ++ other :: after) = value.equals other
    rw [itemsEqual_append _ _ _ _ front,itemsEqual,behind,Bool.and_true,equals]
  | member before key after =>
    have distinct : ((before ++ (key,other) :: after).map (·.1)).Nodup := (whole.replace _ fresh).self
    have here := find_eq_some (before ++ (key,other) :: after) distinct
    apply Bool.eq_iff_iff.mpr
    rw [Frame.around,Frame.around,equals_object_iff]
    constructor
    · rintro ⟨-,each⟩
      obtain ⟨partner,found,same⟩ := each (key,value) (List.mem_append_right _ (List.mem_cons_self ..))
      rw [(here key other).mpr (List.mem_append_right _ (List.mem_cons_self ..))] at found
      rwa [Option.some.inj found]
    · intro same
      refine ⟨by simp,fun member listed => ?_⟩
      have itself := equals_refl member.2 (whole.member listed)
      rcases List.mem_append.mp listed with front | listed
      · exact ⟨member.2,(here _ _).mpr (List.mem_append_left _ front),itself⟩
      · rcases List.mem_cons.mp listed with rfl | behind
        · exact ⟨other,(here _ _).mpr (List.mem_append_right _ (List.mem_cons_self ..)),same⟩
        · exact ⟨member.2,(here _ _).mpr (List.mem_append_right _ (List.mem_cons_of_mem _ behind)),itself⟩

theorem equals_plug (frames : List Frame) (value other : Value) (whole : (plug frames value).WellFormed)
    (fresh : other.WellFormed) : (plug frames value).equals (plug frames other) = value.equals other := by
  induction frames with
  | nil => rfl
  | cons frame rest ih =>
    have inner : (plug rest value).WellFormed := whole.inner frame
    exact (equals_around frame _ _ whole (inner.plug_replace fresh)).trans (ih inner)

/-! ### The order of members -/

/-- On either side of any comparison the one value does what the other does. -/
def Interchangeable (a b : Value) : Prop := ∀ c, a.equals c = b.equals c ∧ c.equals a = c.equals b

theorem find_around (before : List (Bytes × Value)) (key : Bytes) (value : Value) (after : List (Bytes × Value))
    (name : Bytes) : (object (before ++ (key,value) :: after)).find name =
      ((object before).find name).or (if key = name then some value else (object after).find name) := by
  simp only [find,List.find?_append,List.find?_cons,Option.map_or]
  by_cases same : key = name <;> simp [same]

theorem Interchangeable.around {a b : Value} (same : Interchangeable a b) (frame : Frame) :
    Interchangeable (frame.around a) (frame.around b) := by
  have front := fun c => (same c).1
  have behind := fun c => (same c).2
  cases frame with
  | item before after =>
    intro c
    cases c with
    | array items =>
      change itemsEqual _ (before ++ a :: after) items = itemsEqual _ (before ++ b :: after) items ∧
        itemsEqual _ items (before ++ a :: after) = itemsEqual _ items (before ++ b :: after)
      induction before generalizing items with
      | nil =>
        cases items with
        | nil => exact ⟨rfl,rfl⟩
        | cons item rest =>
          simp only [List.nil_append,itemsEqual]
          exact ⟨congrArg (· && _) (front item),congrArg (· && _) (behind item)⟩
      | cons first others ih =>
        cases items with
        | nil => exact ⟨rfl,rfl⟩
        | cons item rest =>
          simp only [List.cons_append,itemsEqual]
          exact ⟨congrArg _ (ih rest).1,congrArg _ (ih rest).2⟩
    | _ => exact ⟨rfl,rfl⟩
  | member before key after =>
    intro c
    cases c with
    | object members =>
      constructor
      · apply Bool.eq_iff_iff.mpr
        rw [Frame.around,Frame.around,equals_object_iff,equals_object_iff]
        simp only [List.forall_mem_append,List.forall_mem_cons,List.length_append,List.length_cons,front]
      · have length : (before ++ (key,a) :: after).length = (before ++ (key,b) :: after).length := by simp
        apply Bool.eq_iff_iff.mpr
        rw [Frame.around,Frame.around,equals_object_iff,equals_object_iff,length]
        refine and_congr_right fun _ => forall₂_congr fun member _ => ?_
        rw [find_around,find_around]
        cases (object before).find member.1 with
        | some other => rfl
        | none => by_cases same : key = member.1 <;> simp [same,behind]
    | _ => exact ⟨rfl,rfl⟩

theorem Interchangeable.plug {a b : Value} (same : Interchangeable a b) (frames : List Frame) :
    Interchangeable (plug frames a) (plug frames b) := by
  induction frames with
  | nil => exact same
  | cons frame rest ih => exact ih.around frame

theorem interchangeable_perm {members others : List (Bytes × Value)} (perm : members.Perm others)
    (distinct : (members.map (·.1)).Nodup) : Interchangeable (object members) (.object others) := by
  have distinct' : (others.map (·.1)).Nodup := (perm.map _).nodup_iff.mp distinct
  have found : ∀ key, (object members).find key = (object others).find key := by
    intro key
    apply Option.ext
    intro value
    rw [find_eq_some members distinct,find_eq_some others distinct',perm.mem_iff]
  intro c
  cases c with
  | object rest =>
    constructor
    · apply Bool.eq_iff_iff.mpr
      rw [equals_object_iff,equals_object_iff,perm.length_eq]
      exact and_congr_right fun _ => ⟨fun each member listed => each member (perm.mem_iff.mpr listed),
        fun each member listed => each member (perm.mem_iff.mp listed)⟩
    · apply Bool.eq_iff_iff.mpr
      rw [equals_object_iff,equals_object_iff,perm.length_eq]
      simp only [found]
  | _ => exact ⟨rfl,rfl⟩

/-- The members of one object, at whatever depth, stand in another order. -/
def Swapped (a b : Value) : Prop :=
  ∃ frames members others, members.Perm others ∧ plug frames (.object members) = a ∧ plug frames (.object others) = b

theorem Swapped.wellFormed {a b : Value} (swapped : Swapped a b) (whole : a.WellFormed) : b.WellFormed := by
  obtain ⟨frames,members,others,perm,rfl,rfl⟩ := swapped
  have inner : (object members).WellFormed := whole.plug_inner
  refine whole.plug_replace fun u inside => ?_
  rcases (subvalues_object _ _).mp inside with rfl | ⟨member,listed,within⟩
  · have distinct : (members.map (·.1)).Nodup := inner.self
    exact (perm.map _).nodup_iff.mp distinct
  · exact inner.member (perm.mem_iff.mpr listed) u within

/-- The members of any number of objects stand in another order. -/
def Reordered : Value → Value → Prop := Relation.ReflTransGen Swapped

theorem Reordered.interchangeable {a b : Value} (reordered : Reordered a b) (whole : a.WellFormed) :
    Interchangeable a b := by
  suffices both : b.WellFormed ∧ Interchangeable a b from both.2
  induction reordered with
  | refl => exact ⟨whole,fun _ => ⟨rfl,rfl⟩⟩
  | tail _ swapped ih =>
    obtain ⟨middle,same⟩ := ih
    have last := swapped.wellFormed middle
    obtain ⟨frames,members,others,perm,rfl,rfl⟩ := swapped
    have inner : (object members).WellFormed := middle.plug_inner
    have distinct : (members.map (·.1)).Nodup := inner.self
    have step := (interchangeable_perm perm distinct).plug frames
    exact ⟨last,fun c => ⟨(same c).1.trans (step c).1,(same c).2.trans (step c).2⟩⟩

/-! ### The laws of equality -/

theorem wellFormed_int (z : Int) (fits : -2^63 ≤ z ∧ z < 2^63) : (int z).WellFormed := by
  simpa [WellFormed,subvalues,Comparable,Parsed,IntFits] using fits

/-- Two integers around the double that both are rounded to. -/
theorem tells_of_trans (b : Value) (whole : b.WellFormed)
    (trans : ∀ a c : Value, a.WellFormed → c.WellFormed → a.equals b = true → b.equals c = true → a.equals c = true)
    (d : Double) (inside : .double d ∈ b.subvalues) : d.TellsIntegers := by
  intro x y low high first second
  obtain ⟨frames,rfl⟩ := exists_plug b (.double d) inside
  have left := whole.plug_replace (wellFormed_int x low)
  have right := whole.plug_replace (wellFormed_int y high)
  have inner : (double d).WellFormed := whole.plug_inner
  have front : (plug frames (.int x)).equals (plug frames (.double d)) = true := by
    rw [equals_plug frames _ _ left inner]
    exact first
  have behind : (plug frames (.double d)).equals (plug frames (.int y)) = true := by
    rw [equals_plug frames _ _ whole (wellFormed_int y high)]
    exact second
  have across := trans _ _ left right front behind
  rw [equals_plug frames _ _ left (wellFormed_int y high)] at across
  simpa [equals,equalsBy] using across

/-- On produced values equality is reflexive and symmetric and does not see the order of
members; it is transitive through exactly the values whose doubles tell integers apart. -/
theorem equals_equivalence (b : Value) (produced : b.Produced) :
    b.equals b = true ∧
    (∀ a, a.Produced → a.equals b = b.equals a) ∧
    (∀ a, Reordered b a → ∀ c, b.equals c = a.equals c ∧ c.equals b = c.equals a) ∧
    ((∀ a c : Value, a.Produced → c.Produced → a.equals b = true → b.equals c = true → a.equals c = true) ↔
      ∀ d, .double d ∈ b.subvalues → d.TellsIntegers) := by
  have whole := (produced_iff b).mp produced
  refine ⟨equals_refl b whole,fun a produced' => ?_,fun a reordered => reordered.interchangeable whole,?_⟩
  · have whole' := (produced_iff a).mp produced'
    exact Bool.eq_iff_iff.mpr ⟨equals_symm a b whole' whole,equals_symm b a whole whole'⟩
  · simp only [produced_iff]
    constructor
    · intro trans
      exact tells_of_trans b whole trans
    · intro tells a c left right
      exact equals_trans a b c left whole right tells

theorem equals_equivalence_mixed : ∃ b, parse {} (ascii "\x7b\"a\":1,\"b\":[2.5,null]\x7d") = .ok b ∧ b.equals b = true ∧
    (∀ a, Reordered b a → a.equals b = true) ∧
    ((∀ a c : Value, a.Produced → c.Produced → a.equals b = true → b.equals c = true → a.equals c = true) ↔
      ∀ d, .double d ∈ b.subvalues → d.TellsIntegers) := by
  have read : (parse {} (ascii "\x7b\"a\":1,\"b\":[2.5,null]\x7d")).toOption.isSome = true := by decide +kernel
  obtain ⟨b,parsed⟩ := Option.isSome_iff_exists.mp read
  have accepted := parse_of_toOption parsed
  obtain ⟨itself,-,order,trans⟩ := equals_equivalence b ⟨_,_,accepted⟩
  exact ⟨b,accepted,itself,fun a reordered => by rw [← (order a reordered b).1]; exact itself,trans⟩

/-- Two neighbours beyond 2^53 with the double between them. -/
theorem equals_not_transitive : ∃ a b c, parse {} (ascii "9007199254740992") = .ok a ∧
    parse {} (ascii "9007199254740992.0") = .ok b ∧ parse {} (ascii "9007199254740993") = .ok c ∧
    a.equals b = true ∧ b.equals c = true ∧ a.equals c = false := by
  have read : ((parse {} (ascii "9007199254740992")).toOption.any fun a =>
      (parse {} (ascii "9007199254740992.0")).toOption.any fun b =>
        (parse {} (ascii "9007199254740993")).toOption.any fun c =>
          a.equals b && b.equals c && !a.equals c) = true := by decide +kernel
  obtain ⟨a,first,read⟩ := (Option.any_eq_true _ _).mp read
  obtain ⟨b,second,read⟩ := (Option.any_eq_true _ _).mp read
  obtain ⟨c,third,read⟩ := (Option.any_eq_true _ _).mp read
  simp only [Bool.and_eq_true,Bool.not_eq_true',and_assoc] at read
  exact ⟨a,b,c,parse_of_toOption first,parse_of_toOption second,parse_of_toOption third,read⟩

end Json.Value
end TestForge
