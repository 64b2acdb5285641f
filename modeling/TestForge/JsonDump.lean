import TestForge.DoubleText
import TestForge.JsonLanguage

/-! Serialisation with and without indentation. Every rendering of a value is a
text of the grammar, whose meaning is the value as JSON can tell it. -/
namespace TestForge.Json

open Strings

namespace Value

def pad (indent : Int) (depth : Nat) : Bytes :=
  if 0 ≤ indent then List.replicate (indent * depth).toNat 32 else []

def newline (indent : Int) : Bytes := if 0 ≤ indent then [10] else []
def colonSpace (indent : Int) : Bytes := if 0 ≤ indent then ascii ": " else ascii ":"
def comma (rest : List α) : Bytes := if rest.isEmpty then [] else ascii ","

mutual
def dumpInto (indent : Int) (depth : Nat) : Value → Bytes
  | .null => ascii "null"
  | .bool value => if value then ascii "true" else ascii "false"
  | .int value => decimalInt value
  | .double value => formatDouble value
  | .string value => escape value
  | .array [] => ascii "[]"
  | .array (item :: rest) =>
    91 :: newline indent ++ dumpItemsInto indent depth (item :: rest) ++ pad indent depth ++ [93]
  | .object [] => ascii "\x7b\x7d"
  | .object (member :: rest) =>
    123 :: newline indent ++ dumpMembersInto indent depth (member :: rest) ++ pad indent depth ++ [125]

def dumpItemsInto (indent : Int) (depth : Nat) : List Value → Bytes
  | [] => []
  | item :: rest =>
    pad indent (depth + 1) ++ dumpInto indent (depth + 1) item ++ comma rest ++ newline indent ++
      dumpItemsInto indent depth rest

def dumpMembersInto (indent : Int) (depth : Nat) : List (Bytes × Value) → Bytes
  | [] => []
  | (key,value) :: rest =>
    pad indent (depth + 1) ++ escape key ++ colonSpace indent ++ dumpInto indent (depth + 1) value ++
      comma rest ++ newline indent ++ dumpMembersInto indent depth rest
end

mutual
/-- The most containers a value is enclosed in. -/
def depth : Value → Nat
  | .array items => itemDepth items
  | .object members => memberDepth members
  | _ => 0

def itemDepth : List Value → Nat
  | [] => 0
  | item :: rest => max (item.depth + 1) (itemDepth rest)

def memberDepth : List (Bytes × Value) → Nat
  | [] => 0
  | (_,value) :: rest => max (value.depth + 1) (memberDepth rest)
end

/-- `dump` with an argument. The width of the padding is an `int`, computed for every
value one level deeper than it stands; where it does not fit the call is undefined. -/
def dumpIndented (indent : Int) (value : Value) : Option Bytes :=
  if indent < 0 ∨ indent * (value.depth + 1) < 2^31 then some (dumpInto indent 0 value) else none

mutual
/-- The value and all the values inside it. -/
def subvalues : Value → List Value
  | .array items => .array items :: itemSubvalues items
  | .object members => .object members :: memberSubvalues members
  | value => [value]

def itemSubvalues : List Value → List Value
  | [] => []
  | item :: rest => item.subvalues ++ itemSubvalues rest

def memberSubvalues : List (Bytes × Value) → List Value
  | [] => []
  | (_,value) :: rest => value.subvalues ++ memberSubvalues rest
end

mutual
/-- The value as its text tells it: what is no number is null, and of equal keys the
last one counts. -/
def reread : Value → Value
  | .double value => if value.isFinite then .double value else .null
  | .array items => .array (rereadItems items)
  | .object members => .object (lastWins (rereadMembers members))
  | value => value

def rereadItems : List Value → List Value
  | [] => []
  | item :: rest => item.reread :: rereadItems rest

def rereadMembers : List (Bytes × Value) → List (Bytes × Value)
  | [] => []
  | (key,value) :: rest => (key,value.reread) :: rereadMembers rest
end

/-- Integers are 64-bit in the source. -/
def IntFits : Value → Prop
  | .int value => -2^63 ≤ value ∧ value < 2^63
  | _ => True

/-- What a value must be like, level by level, for its text to tell it apart. -/
def Faithful : Value → Prop
  | .double value => value.isFinite = true
  | .object members => (members.map (·.1)).Nodup
  | value => value.IntFits

/-- Induction with the items of a container at hand. -/
theorem induction {motive : Value → Prop} (null : motive .null) (bool : ∀ b, motive (.bool b))
    (int : ∀ z, motive (.int z)) (double : ∀ d, motive (.double d)) (string : ∀ s, motive (.string s))
    (array : ∀ items, (∀ item ∈ items, motive item) → motive (.array items))
    (object : ∀ members, (∀ member ∈ members, motive member.2) → motive (.object members))
    (value : Value) : motive value := by
  refine @Value.rec motive (fun items => ∀ item ∈ items, motive item)
    (fun members => ∀ member ∈ members, motive member.2) (fun member => motive member.2)
    null bool int double string array object ?_ ?_ ?_ ?_ ?_ value
  · simp
  · intro item rest first others
    simpa using ⟨first,others⟩
  · simp
  · intro member rest first others x inside
    rcases List.mem_cons.mp inside with rfl | inside
    · exact first
    · exact others x inside
  · exact fun _ _ known => known

theorem itemDepth_le (items : List Value) (n : Nat) :
    itemDepth items ≤ n ↔ ∀ item ∈ items, item.depth < n := by
  induction items with
  | nil => simp [itemDepth]
  | cons item rest ih => rw [itemDepth,Nat.max_le,ih,List.forall_mem_cons,Nat.succ_le_iff]

theorem memberDepth_le (members : List (Bytes × Value)) (n : Nat) :
    memberDepth members ≤ n ↔ ∀ member ∈ members, member.2.depth < n := by
  induction members with
  | nil => simp [memberDepth]
  | cons member rest ih =>
    obtain ⟨key,value⟩ := member
    rw [memberDepth,Nat.max_le,ih,List.forall_mem_cons,Nat.succ_le_iff]

theorem itemSubvalues_eq (items : List Value) : itemSubvalues items = items.flatMap subvalues := by
  induction items with
  | nil => rfl
  | cons item rest ih => simp [itemSubvalues,ih]

theorem memberSubvalues_eq (members : List (Bytes × Value)) :
    memberSubvalues members = members.flatMap fun member => member.2.subvalues := by
  induction members with
  | nil => rfl
  | cons member rest ih => simp [memberSubvalues,ih]

theorem self_mem_subvalues (value : Value) : value ∈ value.subvalues := by
  cases value <;> simp [subvalues]

theorem subvalues_item {item : Value} {items : List Value} (member : item ∈ items) {u : Value}
    (inside : u ∈ item.subvalues) : u ∈ (array items).subvalues := by
  rw [subvalues,itemSubvalues_eq]
  exact List.mem_cons_of_mem _ (List.mem_flatMap.mpr ⟨item,member,inside⟩)

theorem subvalues_member {member : Bytes × Value} {members : List (Bytes × Value)}
    (listed : member ∈ members) {u : Value} (inside : u ∈ member.2.subvalues) :
    u ∈ (object members).subvalues := by
  rw [subvalues,memberSubvalues_eq]
  exact List.mem_cons_of_mem _ (List.mem_flatMap.mpr ⟨member,listed,inside⟩)

theorem rereadItems_eq (items : List Value) : rereadItems items = items.map reread := by
  induction items with
  | nil => rfl
  | cons item rest ih => simp [rereadItems,ih]

theorem rereadMembers_eq (members : List (Bytes × Value)) :
    rereadMembers members = members.map fun member => (member.1,member.2.reread) := by
  induction members with
  | nil => rfl
  | cons member rest ih => simp [rereadMembers,ih]

theorem lastWins_distinct (members : List (Bytes × Value)) (distinct : (members.map (·.1)).Nodup) :
    lastWins members = members := by
  have same := (objectOf_eq members).symm.trans (objectOf_distinct members distinct)
  exact Value.object.inj same

/-- A faithful value is what its text tells. -/
theorem reread_eq (value : Value) (faithful : ∀ u ∈ value.subvalues, u.Faithful) : value.reread = value := by
  induction value using Value.induction with
  | null | bool | int | string => rfl
  | double d =>
    have finite : d.isFinite = true := faithful _ (self_mem_subvalues _)
    simp [reread,finite]
  | array items ih =>
    have same : items.map reread = items := by
      conv_rhs => rw [← List.map_id items]
      apply List.map_congr_left
      intro item listed
      exact ih item listed fun u inside => faithful u (subvalues_item listed inside)
    rw [reread,rereadItems_eq,same]
  | object members ih =>
    have distinct : (members.map (·.1)).Nodup := faithful _ (self_mem_subvalues _)
    have same : members.map (fun member => (member.1,member.2.reread)) = members := by
      conv_rhs => rw [← List.map_id members]
      apply List.map_congr_left
      intro member listed
      exact Prod.ext rfl (ih member listed fun u inside => faithful u (subvalues_member listed inside))
    rw [reread,rereadMembers_eq,same,lastWins_distinct members distinct]

end Value

/-! ### Strings, integers and doubles -/

theorem hexDigit_hexLower (n : Nat) (small : n < 16) : hexDigit (hexLower n) = some n :=
  (by decide : ∀ n, n < 16 → hexDigit (hexLower n) = some n) n small

theorem escapeByte_unit (c : UInt8) : ∃ unit : StringUnit, unit.text = escapeByte c ∧ unit.bytes = [c] ∧
    ∀ high ∈ unit.codeUnit, high < 32 := by
  have short : ∀ letter, (letter,c) ∈ shortEscapes → escapeByte c = [92,letter] →
      ∃ unit : StringUnit, unit.text = escapeByte c ∧ unit.bytes = [c] ∧ ∀ high ∈ unit.codeUnit, high < 32 :=
    fun letter known written => ⟨.short letter c known,written.symm,rfl,by simp [StringUnit.codeUnit]⟩
  by_cases quote : c = 34
  · subst quote; exact short 34 (by decide) rfl
  by_cases backslash : c = 92
  · subst backslash; exact short 92 (by decide) rfl
  by_cases backspace : c = 8
  · subst backspace; exact short 98 (by decide) rfl
  by_cases formFeed : c = 12
  · subst formFeed; exact short 102 (by decide) rfl
  by_cases lineFeed : c = 10
  · subst lineFeed; exact short 110 (by decide) rfl
  by_cases carriageReturn : c = 13
  · subst carriageReturn; exact short 114 (by decide) rfl
  by_cases tab : c = 9
  · subst tab; exact short 116 (by decide) rfl
  by_cases control : c < 32
  · have small : c.toNat < 32 := UInt8.lt_iff_toNat_lt.mp control
    have upper := hexDigit_hexLower (c.toNat / 16) (by omega)
    have lower := hexDigit_hexLower (c.toNat % 16) (by omega)
    let zero : HexDigit := ⟨48,by decide⟩
    let high : HexDigit := ⟨hexLower (c.toNat / 16),by rw [upper]; rfl⟩
    let low : HexDigit := ⟨hexLower (c.toNat % 16),by rw [lower]; rfl⟩
    have zero_eq : zero.value = 0 := rfl
    have high_eq : high.value = c.toNat / 16 := by simp [HexDigit.value,high,upper]
    have low_eq : low.value = c.toNat % 16 := by simp [HexDigit.value,low,lower]
    have unit : (StringUnit.code zero zero high low).codeUnit = some c.toNat := by
      rw [StringUnit.codeUnit,zero_eq,high_eq,low_eq,Option.some.injEq]
      omega
    refine ⟨.code zero zero high low,?_,?_,?_⟩
    · simp [StringUnit.text,escapeByte,quote,backslash,backspace,formFeed,lineFeed,carriageReturn,tab,control,
        zero,high,low]
      rfl
    · rw [bytes_codeUnit unit,← appendUtf8_eq_utf8 _ (by omega)]
      have ordinary : ¬(0xD800 ≤ c.toNat ∧ c.toNat ≤ 0xDFFF) := by omega
      simp only [appendUtf8,if_neg ordinary]
      rw [if_pos (by omega)]
      simp
    · rw [unit]
      simpa using small
  · refine ⟨.plain c ⟨by simpa using control,quote,backslash⟩,?_,rfl,by simp [StringUnit.codeUnit]⟩
    simp [StringUnit.text,escapeByte,quote,backslash,backspace,formFeed,lineFeed,carriageReturn,tab,control]

/-- An escaped text is a literal of the text: it has no surrogates to pair. -/
theorem escape_literal (text : Bytes) :
    ∃ units, escape text = StringUnit.literal units ∧ StringUnit.denote units = text := by
  suffices body : ∃ units : List StringUnit, text.flatMap escapeByte = units.flatMap StringUnit.text ∧
      StringUnit.denote units = text by
    obtain ⟨units,written,meaning⟩ := body
    exact ⟨units,by rw [escape,StringUnit.literal,written],meaning⟩
  induction text with
  | nil => exact ⟨[],rfl,rfl⟩
  | cons c rest ih =>
    obtain ⟨units,written,meaning⟩ := ih
    obtain ⟨unit,spelled,byte,small⟩ := escapeByte_unit c
    refine ⟨unit :: units,by simp [written,spelled],?_⟩
    have alone : Alone unit (units.flatMap StringUnit.text ++ []) := by
      intro high _ known surrogate
      have := small high (by simp [known])
      simp only [isHighSurrogate,Bool.and_eq_true,decide_eq_true_eq] at surrogate
      omega
    rw [denote_alone unit units [] alone,byte,meaning]
    rfl

theorem decimalInt_numeral (z : Int) (low : -2^63 ≤ z) (high : z < 2^63) :
    ∃ n : Numeral, decimalInt z = n.text ∧ n.value = .int z := by
  have plain : (decimal z.natAbs).head? = some 48 → decimal z.natAbs = [48] := by
    intro zero
    by_cases positive : 0 < z.natAbs
    · exact absurd zero (Double.decimal_head _ positive)
    · rw [show z.natAbs = 0 by omega]
      rfl
  let n : Numeral := ⟨decide (z < 0),⟨decimal z.natAbs,decimal_ne_nil _,isDigit_decimal _⟩,none,none,plain⟩
  have value : n.toInt = z := by
    simp only [Numeral.toInt,n,digitsValue_decimal,decide_eq_true_eq]
    split <;> omega
  refine ⟨n,?_,?_⟩
  · rw [decimalInt,n.text_eq]
    by_cases negative : z < 0 <;> simp [n,negative,fractionText,exponentText]
  · rw [Numeral.value,value,if_pos ⟨rfl,low,high⟩]

/-- No candidate but a zero equals another double. -/
theorem equals_eq (a b : Double) (same : a.equals b = true) : a = b ∨ b.units = 0 := by
  simp only [Double.equals,Bool.and_eq_true,Bool.or_eq_true,beq_iff_eq] at same
  rcases same.2 with bits | zeros
  · left
    cases a
    cases b
    simpa using bits
  · exact .inr zeros.2

/-- The text before a missing point is added reads back as the double. -/
theorem candidate_numeral (d : Double) (finite : d.isFinite = true) :
    ∃ n : Numeral, (((List.range 16).map fun i => d.formatG (i + 1)).find? fun text =>
      (Double.strtod text).equals d).getD (d.formatG 17) = n.text ∧ n.toDouble = d := by
  cases found : ((List.range 16).map fun i => d.formatG (i + 1)).find? fun text => (Double.strtod text).equals d with
  | none =>
    obtain ⟨n,written,-⟩ := Double.formatG_numeral 17 (by decide) d
    exact ⟨n,written,by rw [← strtod_text,← written,Double.strtod_seventeen d finite]⟩
  | some text =>
    have equal := List.find?_some found
    obtain ⟨i,-,rfl⟩ := List.mem_map.mp (List.mem_of_find?_eq_some found)
    obtain ⟨n,written,-,zeros,-⟩ := Double.formatG_numeral (i + 1) (Nat.succ_pos i) d
    refine ⟨n,written,?_⟩
    rw [written,strtod_text] at equal
    rcases equals_eq _ _ equal with same | zero
    · exact same
    · rw [zeros zero,Double.ofRatio_zero d finite zero]

def isMark (c : UInt8) : Bool := c == 46 || c == 101 || c == 69 || c == 110

/-- Only a fraction or an exponent brings a point or a letter into a literal. -/
theorem marks_iff (n : Numeral) : n.text.any isMark = !n.isInteger := by
  have digit : ∀ c, isDigit c = true → isMark c = false := by
    intro c numeric
    have range := digit_range c numeric
    simp only [isMark]
    grind
  cases integer : n.isInteger with
  | true =>
    have parts : n.fraction = none ∧ n.exponent = none := by simpa [Numeral.isInteger] using integer
    rw [Bool.not_true,List.any_eq_false,n.text_eq,parts.1,parts.2]
    intro c member
    simp only [fractionText,exponentText,Option.elim_none,List.append_nil,List.mem_append] at member
    rcases member with sign | member
    · have minus : c = 45 := by
        split at sign
        · simpa using sign
        · simp at sign
      simp [minus,isMark]
    · simp [digit c (n.whole.numeric c member)]
  | false =>
    rw [Bool.not_false,List.any_eq_true,n.text_eq]
    cases fraction : n.fraction with
    | some digits => exact ⟨46,by simp [fractionText],rfl⟩
    | none =>
      cases exponent : n.exponent with
      | none => simp [Numeral.isInteger,fraction,exponent] at integer
      | some e =>
        refine ⟨e.marker,by simp [exponentText,Exponent.text],?_⟩
        rcases e.markers with marker | marker <;> rw [marker] <;> rfl

/-- A literal without a point gets one and keeps its value. -/
theorem point_added (n : Numeral) (integer : n.isInteger = true) :
    ∃ m : Numeral, m.text = n.text ++ ascii ".0" ∧ m.isInteger = false ∧ m.toDouble = n.toDouble := by
  have parts : n.fraction = none ∧ n.exponent = none := by simpa [Numeral.isInteger] using integer
  refine ⟨⟨n.negative,n.whole,some .zero,none,n.plainWhole⟩,?_,rfl,?_⟩
  · rw [Numeral.text_eq,Numeral.text_eq,parts.1,parts.2]
    simp [fractionText,exponentText]
    rfl
  · have shifted : digitsValue (n.whole.text ++ Digits.zero.text) = 10 * digitsValue n.whole.text :=
      Double.digitsValue_snoc _ 48
    have single : Digits.zero.text.length = 1 := rfl
    simp only [Numeral.toDouble,Numeral.scale,Numeral.places,parts.1,parts.2,Option.map_some,Option.map_none,
      Option.getD_some,Option.getD_none,Option.elim_none,List.append_nil,shifted,single]
    apply Double.ofRatio_congr <;> simp
    omega

theorem formatDouble_numeral (d : Double) (finite : d.isFinite = true) :
    ∃ n : Numeral, formatDouble d = n.text ∧ n.value = .double d := by
  obtain ⟨n,written,same⟩ := candidate_numeral d finite
  have value : ∀ m : Numeral, m.isInteger = false → m.toDouble = d → m.value = .double d := by
    intro m fractional same
    simp [Numeral.value,fractional,same]
  rw [formatDouble,if_neg (by simp [finite])]
  dsimp only
  rw [written]
  change ∃ m : Numeral, (if n.text.any isMark = true then n.text else n.text ++ ascii ".0") = m.text ∧ _
  rw [marks_iff]
  cases integer : n.isInteger with
  | false => exact ⟨n,rfl,value n integer same⟩
  | true =>
    obtain ⟨m,text,fractional,equal⟩ := point_added n integer
    exact ⟨m,text.symm,value m fractional (equal.trans same)⟩

theorem formatDouble_infinite (d : Double) (infinite : d.isFinite = false) : formatDouble d = ascii "null" := by
  simp [formatDouble,infinite]

/-! ### Renderings -/

namespace Value

theorem blank_pad (indent : Int) (depth : Nat) : Blank (pad indent depth) := by
  intro c member
  unfold pad at member
  split at member
  · rw [List.eq_of_mem_replicate member]
    rfl
  · simp at member

theorem blank_newline (indent : Int) : Blank (newline indent) := by
  intro c member
  unfold newline at member
  split at member
  · rw [List.mem_singleton.mp member]
    rfl
  · simp at member

theorem Blank.append {a b : Bytes} (first : Blank a) (second : Blank b) : Blank (a ++ b) :=
  fun c member => (List.mem_append.mp member).elim (first c) (second c)

/-- The tree tells the value, as deep as the value is. -/
def Tells (node : Node) (value : Value) : Prop := node.depth = value.depth ∧ node.value = value.reread

def TellsMember (tree : List StringUnit × Node) (member : Bytes × Value) : Prop :=
  StringUnit.denote tree.1 = member.1 ∧ Tells tree.2 member.2

/-- `text` spells a tree that tells the value. -/
def Renders (value : Value) (text : Bytes) : Prop := ∃ node, Node.Spells node text ∧ Tells node value

def RendersMember (member : Bytes × Value) (text : Bytes) : Prop :=
  ∃ tree, Member Node.Spells tree text ∧ TellsMember tree member

/-- The rows of a container: each item behind its padding, with a comma behind all
but the last, and all of them on lines of their own. -/
theorem separated_rows {spells : α → Bytes → Prop} (indent : Int) (depth : Nat) (write : α → Bytes)
    (rows : List α → Bytes)
    (rows_cons : ∀ item rest, rows (item :: rest) =
      pad indent depth ++ write item ++ comma rest ++ newline indent ++ rows rest)
    (rows_nil : rows [] = []) (items : List α) (nonempty : items ≠ [])
    (written : ∀ item ∈ items, spells item (write item)) (last : Bytes) (blank : Blank last) :
    Separated spells items (newline indent ++ rows items ++ last) := by
  induction items with
  | nil => exact absurd rfl nonempty
  | cons item rest ih =>
    have lead : Blank (newline indent ++ pad indent depth) :=
      Blank.append (blank_newline indent) (blank_pad indent depth)
    have first := written item (by simp)
    cases rest with
    | nil =>
      have tail : Blank (newline indent ++ last) := Blank.append (blank_newline indent) blank
      simpa [rows_cons,rows_nil,comma] using Separated.last lead first tail
    | cons next others =>
      have remaining := ih (by simp) fun item inside => written item (List.mem_cons_of_mem _ inside)
      have none : Blank ([] : Bytes) := by simp [Blank]
      have all := Separated.more lead first none remaining
      rw [rows_cons]
      simpa [comma,ascii] using all

theorem tells_items {nodes : List Node} {items : List Value} (tell : List.Forall₂ Tells nodes items) :
    Node.itemDepth nodes = itemDepth items ∧ Node.itemValues nodes = rereadItems items := by
  induction tell with
  | nil => exact ⟨rfl,rfl⟩
  | cons first _ ih =>
    simp [Node.itemDepth,itemDepth,Node.itemValues,rereadItems,first.1,first.2,ih]

theorem tells_members {trees : List (List StringUnit × Node)} {members : List (Bytes × Value)}
    (tell : List.Forall₂ TellsMember trees members) :
    Node.memberDepth trees = memberDepth members ∧ Node.memberValues trees = rereadMembers members := by
  induction tell with
  | nil => exact ⟨rfl,rfl⟩
  | cons first _ ih =>
    simp [Node.memberDepth,memberDepth,Node.memberValues,rereadMembers,first.1,first.2.1,first.2.2,ih]

theorem renders_array (items : List Value) (body : Bytes) (rows : Separated Renders items body) :
    Renders (.array items) (91 :: body ++ [93]) := by
  obtain ⟨nodes,separated,tell⟩ := @Separated.related _ _ _ _ Node.Spells Tells rows
  obtain ⟨depths,values⟩ := tells_items tell
  exact ⟨.array nodes,.array separated,depths,by rw [Node.value,values,reread]⟩

theorem renders_object (members : List (Bytes × Value)) (body : Bytes)
    (rows : Separated RendersMember members body) : Renders (.object members) (123 :: body ++ [125]) := by
  obtain ⟨trees,separated,tell⟩ := @Separated.related _ _ _ _ (Member Node.Spells) TellsMember rows
  obtain ⟨depths,values⟩ := tells_members tell
  exact ⟨.object trees,.object separated,depths,by rw [Node.value,values,reread]⟩

theorem renders_member (indent : Int) (key : Bytes) (value : Value) (text : Bytes) (rendered : Renders value text) :
    RendersMember (key,value) (escape key ++ colonSpace indent ++ text) := by
  obtain ⟨node,spelled,tell⟩ := rendered
  obtain ⟨units,written,meaning⟩ := escape_literal key
  refine ⟨(units,node),?_,meaning,tell⟩
  rw [written]
  have empty : Blank ([] : Bytes) := by simp [Blank]
  by_cases pretty : 0 ≤ indent
  · have space : Blank [32] := by simp [Blank,isBlank]
    simpa [colonSpace,pretty,ascii] using @Member.intro Node.Spells _ _ _ _ units empty space spelled
  · simpa [colonSpace,pretty,ascii] using @Member.intro Node.Spells _ _ _ _ units empty empty spelled

/-- Whatever the indentation, a rendering spells what the value tells. -/
theorem dumpInto_renders (indent : Int) (value : Value) (fits : ∀ u ∈ value.subvalues, u.IntFits)
    (depth : Nat) : Renders value (dumpInto indent depth value) := by
  induction value using Value.induction generalizing depth with
  | null => exact ⟨.null,.null,rfl,rfl⟩
  | bool b =>
    cases b with
    | true => exact ⟨.bool true,.true,rfl,rfl⟩
    | false => exact ⟨.bool false,.false,rfl,rfl⟩
  | int z =>
    obtain ⟨low,high⟩ := fits _ (self_mem_subvalues _)
    obtain ⟨n,written,value⟩ := decimalInt_numeral z low high
    rw [dumpInto,written]
    exact ⟨.number n,.number,rfl,value⟩
  | double d =>
    rw [dumpInto]
    cases finite : d.isFinite with
    | true =>
      obtain ⟨n,written,value⟩ := formatDouble_numeral d finite
      rw [written]
      exact ⟨.number n,.number,rfl,by simp [Node.value,value,reread,finite]⟩
    | false =>
      rw [formatDouble_infinite d finite]
      exact ⟨.null,.null,rfl,by simp [Node.value,reread,finite]⟩
  | string text =>
    obtain ⟨units,written,meaning⟩ := escape_literal text
    rw [dumpInto,written]
    exact ⟨.string units,.string,rfl,by rw [Node.value,meaning]; rfl⟩
  | array items ih =>
    cases items with
    | nil => exact ⟨.array [],.emptyArray (show Blank [] by simp [Blank]),rfl,rfl⟩
    | cons item rest =>
      have rows := @separated_rows _ Renders indent (depth + 1) (dumpInto indent (depth + 1))
        (dumpItemsInto indent depth) (fun _ _ => rfl) rfl (item :: rest) (by simp)
        (fun x listed => ih x listed (fun u inside => fits u (subvalues_item listed inside)) (depth + 1))
        (pad indent depth) (blank_pad indent depth)
      exact renders_array _ _ rows
  | object members ih =>
    cases members with
    | nil => exact ⟨.object [],.emptyObject (show Blank [] by simp [Blank]),rfl,rfl⟩
    | cons member rest =>
      have rows := @separated_rows _ RendersMember indent (depth + 1)
        (fun member => escape member.1 ++ colonSpace indent ++ dumpInto indent (depth + 1) member.2)
        (dumpMembersInto indent depth) (fun _ _ => by simp [dumpMembersInto]) rfl (member :: rest) (by simp)
        (fun x listed => renders_member indent x.1 x.2 _
          (ih x listed (fun u inside => fits u (subvalues_member listed inside)) (depth + 1)))
        (pad indent depth) (blank_pad indent depth)
      exact renders_object _ _ rows

/-- Without indentation this is the compact form. -/
theorem dumpInto_compact (indent : Int) (compact : indent < 0) (value : Value) (depth : Nat) :
    dumpInto indent depth value = value.dump := by
  have plain : ¬0 ≤ indent := by omega
  induction value using Value.induction generalizing depth with
  | null | bool | int | double | string => rfl
  | array items ih =>
    have rows : ∀ rest : List Value, (∀ item ∈ rest, item ∈ items) →
        dumpItemsInto indent depth rest = dumpItems rest := by
      intro rest
      induction rest with
      | nil => exact fun _ => rfl
      | cons item rest tail =>
        intro listed
        have others := tail fun x inside => listed x (List.mem_cons_of_mem _ inside)
        have first := ih item (listed item (by simp)) (depth + 1)
        cases rest with
        | nil => simp [dumpItemsInto,dumpItems,pad,newline,plain,comma,first]
        | cons next others' =>
          rw [dumpItemsInto,others,first]
          simp [dumpItems,pad,newline,plain,comma,ascii]
    cases items with
    | nil => rfl
    | cons item rest =>
      rw [dumpInto,rows _ fun _ inside => inside,dump]
      simp [pad,newline,plain]
  | object members ih =>
    have rows : ∀ rest : List (Bytes × Value), (∀ member ∈ rest, member ∈ members) →
        dumpMembersInto indent depth rest = dumpMembers rest := by
      intro rest
      induction rest with
      | nil => exact fun _ => rfl
      | cons member rest tail =>
        intro listed
        have others := tail fun x inside => listed x (List.mem_cons_of_mem _ inside)
        have first := ih member (listed member (by simp)) (depth + 1)
        cases rest with
        | nil => simp [dumpMembersInto,dumpMembers,pad,newline,colonSpace,plain,comma,first,ascii]
        | cons next others' =>
          rw [dumpMembersInto,others,first]
          simp [dumpMembers,pad,newline,colonSpace,plain,comma,ascii]
    cases members with
    | nil => rfl
    | cons member rest =>
      rw [dumpInto,rows _ fun _ inside => inside,dump]
      simp [pad,newline,plain]

end Value
end TestForge.Json
