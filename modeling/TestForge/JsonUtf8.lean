import TestForge.JsonRoundTrip
import TestForge.Utf8

/-! UTF-8 through the parser and back: what is read from a UTF-8 text is UTF-8 in every key and
every string, and so is the text that tells it again. -/
namespace TestForge.Json

open Strings Utf8

/-- A decision on ASCII bytes, from its values on all of them. -/
theorem ascii_all (holds : UInt8 → Prop) (listed : ∀ n, n < 128 → holds (UInt8.ofNat n)) (c : UInt8) (plain : c < 128) :
    holds c := by
  have here := listed c.toNat (UInt8.lt_iff_toNat_lt.mp plain)
  rwa [UInt8.ofNat_toNat] at here

theorem isUtf8_front (front back : Bytes) (plain : ∀ c ∈ front, c < 128) : IsUtf8 (front ++ back) ↔ IsUtf8 back := by
  induction front with
  | nil => rfl
  | cons c rest ih =>
    rw [List.cons_append,isUtf8_cons _ _ (plain c (by simp)),ih fun d member => plain d (by simp [member])]

theorem isUtf8_behind (front back : Bytes) (plain : ∀ c ∈ back, c < 128) : IsUtf8 (front ++ back) ↔ IsUtf8 front := by
  cases back with
  | nil => rw [List.append_nil]
  | cons c rest =>
    rw [isUtf8_cut _ _ _ (plain c (by simp)),and_iff_left]
    exact isUtf8_plain rest fun d member => plain d (by simp [member])

theorem blank_plain {text : Bytes} (blank : Blank text) : ∀ c ∈ text, c < 128 := by
  intro c member
  have space := blank c member
  simp only [isBlank,Bool.or_eq_true,beq_iff_eq] at space
  rcases space with ((rfl | rfl) | rfl) | rfl <;> exact UInt8.lt_iff_toNat_lt.mpr (Nat.le_of_ble_eq_true rfl)

namespace StringUnit

theorem isUtf8_utf8 (cp : Nat) : IsUtf8 (utf8 cp) := ⟨[_],by rw [encode_cons,encode_nil,List.append_nil]; rfl⟩

theorem hexDigit_plain (digit : HexDigit) : digit.1 < 128 := by
  obtain ⟨c,known⟩ := digit
  by_contra large
  have high : 128 ≤ c.toNat := UInt8.le_iff_toNat_le.mp (UInt8.not_lt.mp large)
  have none : hexDigit c = none := by
    simp only [hexDigit,UInt8.le_iff_toNat_le,UInt8.reduceToNat]
    rw [if_neg (by omega),if_neg (by omega),if_neg (by omega)]
  rw [none] at known
  cases known

/-- An escape and a short escape are spelled and, but for a code point, denoted in ASCII. -/
theorem text_plain {unit : StringUnit} {value : Nat} (known : unit.codeUnit = some value) :
    unit.text ≠ [] ∧ ∀ c ∈ unit.text, c < 128 := by
  obtain ⟨a,b,c,d,rfl⟩ := codeUnit_some known
  refine ⟨by simp [text],?_⟩
  simp only [text,List.forall_mem_cons]
  exact ⟨by decide,by decide,hexDigit_plain a,hexDigit_plain b,hexDigit_plain c,hexDigit_plain d,by simp⟩

theorem short_plain {letter byte : UInt8} (known : (letter,byte) ∈ shortEscapes) : letter < 128 ∧ byte < 128 := by
  have all : shortEscapes.all (fun pair => decide (pair.1 < 128 ∧ pair.2 < 128)) = true := rfl
  exact of_decide_eq_true (List.all_eq_true.mp all _ known)

/-- One element in front of the rest of a literal, behind what was read before it. -/
theorem bytes_utf8 (unit : StringUnit) (rest meaning : Bytes)
    (others : ∀ front, IsUtf8 (front ++ rest) → IsUtf8 (front ++ meaning)) (front : Bytes)
    (valid : IsUtf8 (front ++ (unit.text ++ rest))) : IsUtf8 (front ++ (unit.bytes ++ meaning)) := by
  cases unit with
  | plain c allowed =>
    have shifted := others (front ++ [c])
    simp only [List.append_assoc,List.singleton_append] at shifted
    exact shifted valid
  | short letter byte known =>
    obtain ⟨letterPlain,bytePlain⟩ := short_plain known
    have escape : ∀ c ∈ [92,letter], c < 128 := by simp [letterPlain]
    obtain ⟨before,behind⟩ := (isUtf8_cut_plain _ _ _ escape (by simp)).mp valid
    exact (isUtf8_cut _ _ _ bytePlain).mpr ⟨before,by simpa using others [] behind⟩
  | code a b c d =>
    have plain := @text_plain (code a b c d) _ rfl
    obtain ⟨before,behind⟩ := (isUtf8_cut_plain _ _ _ plain.2 plain.1).mp valid
    rw [bytes_codeUnit rfl]
    exact before.append ((isUtf8_utf8 _).append (by simpa using others [] behind))

/-- The meaning of a literal in a UTF-8 text, whatever its escapes are. -/
theorem denote_utf8 (units : List StringUnit) (front : Bytes) (valid : IsUtf8 (front ++ units.flatMap text)) :
    IsUtf8 (front ++ denote units) := by
  induction units using denote.induct generalizing front with
  | case1 => exact valid
  | case2 unit =>
    have alone := bytes_utf8 unit [] [] (fun _ known => known) front
    simp only [List.append_nil] at alone
    exact alone (by simpa using valid)
  | case3 unit next units cp joined ih =>
    obtain ⟨high,low,known,nextKnown,-⟩ := (pair_eq_some _ _ _).mp joined
    rw [List.flatMap_cons,List.flatMap_cons] at valid
    obtain ⟨before,behind⟩ := (isUtf8_cut_plain _ _ _ (text_plain known).2 (text_plain known).1).mp valid
    have last := (isUtf8_front _ _ (text_plain nextKnown).2).mp behind
    rw [denote,joined]
    exact before.append ((isUtf8_utf8 cp).append (by simpa using ih [] last))
  | case4 unit next units separate ih =>
    rw [denote,separate]
    exact bytes_utf8 unit _ _ ih front valid

theorem literal_utf8 (units : List StringUnit) (valid : IsUtf8 (literal units)) : IsUtf8 (denote units) := by
  rw [literal,List.cons_append,isUtf8_cons _ _ (by decide),isUtf8_cut _ _ _ (by decide)] at valid
  exact denote_utf8 units [] valid.1

end StringUnit

/-! ### Values -/

namespace Value

/-- A string is UTF-8, and so are the keys of an object. -/
def Readable : Value → Prop
  | .string text => IsUtf8 text
  | .object members => ∀ member ∈ members, IsUtf8 member.1
  | _ => True

end Value

theorem separated_utf8 {spells : α → Bytes → Prop} (good : α → Prop) {items : List α} {body : Bytes}
    (rows : Separated spells items body) (valid : IsUtf8 body)
    (each : ∀ item ∈ items, ∀ text, spells item text → IsUtf8 text → good item) : ∀ item ∈ items, good item := by
  induction rows with
  | last before spelled after =>
    rw [isUtf8_behind _ _ (blank_plain after),isUtf8_front _ _ (blank_plain before)] at valid
    intro item member
    rw [List.mem_singleton.mp member]
    exact each _ (List.mem_singleton_self _) _ spelled valid
  | more before spelled after _ ih =>
    rw [isUtf8_cut _ _ _ (by decide),isUtf8_behind _ _ (blank_plain after),isUtf8_front _ _ (blank_plain before)] at valid
    intro item member
    rcases List.mem_cons.mp member with rfl | later
    · exact each _ List.mem_cons_self _ spelled valid.1
    · exact ih valid.2 (fun x listed => each x (List.mem_cons_of_mem _ listed)) item later

theorem member_utf8 {key : List StringUnit} {node : Node} {text : Bytes} (spelled : Member Node.Spells (key,node) text)
    (valid : IsUtf8 text) : IsUtf8 (StringUnit.denote key) ∧ ∃ body, node.Spells body ∧ IsUtf8 body := by
  cases spelled with
  | @intro before after _ body _ blankBefore blankAfter spelled =>
    rw [List.append_assoc,List.cons_append,isUtf8_cut _ _ _ (by decide),isUtf8_behind _ _ (blank_plain blankBefore),
      isUtf8_front _ _ (blank_plain blankAfter)] at valid
    exact ⟨StringUnit.literal_utf8 key valid.1,body,spelled,valid.2⟩

/-- What is read from a UTF-8 text is UTF-8. -/
theorem spells_utf8 (node : Node) (text : Bytes) (spelled : node.Spells text) (valid : IsUtf8 text) :
    ∀ u ∈ node.value.subvalues, u.Readable := by
  induction node using Node.induction generalizing text with
  | null | bool => simp [Node.value,Value.subvalues,Value.Readable]
  | number n =>
    rw [Node.value,Numeral.value]
    split <;> simp [Value.subvalues,Value.Readable]
  | string units =>
    cases spelled
    simpa [Node.value,Value.subvalues,Value.Readable] using StringUnit.literal_utf8 units valid
  | array items ih =>
    intro u inside
    rw [Node.value,Node.itemValues_eq] at inside
    rcases (Value.subvalues_array _ _).mp inside with rfl | ⟨item,listed,inside⟩
    · trivial
    obtain ⟨node,member,rfl⟩ := List.mem_map.mp listed
    cases spelled with
    | emptyArray => cases member
    | array rows =>
      rw [List.cons_append,isUtf8_cons _ _ (by decide),isUtf8_cut _ _ _ (by decide)] at valid
      exact separated_utf8 (fun node => ∀ u ∈ node.value.subvalues, u.Readable) rows valid.1
        (fun item known text spelled valid => ih item known text spelled valid) node member u inside
  | object members ih =>
    intro u inside
    rw [Node.value,Node.memberValues_eq] at inside
    have each : ∀ tree ∈ members, IsUtf8 (StringUnit.denote tree.1) ∧ ∀ u ∈ tree.2.value.subvalues, u.Readable := by
      cases spelled with
      | emptyObject => exact fun _ none => absurd none List.not_mem_nil
      | object rows =>
        rw [List.cons_append,isUtf8_cons _ _ (by decide),isUtf8_cut _ _ _ (by decide)] at valid
        refine separated_utf8 (fun tree =>
          IsUtf8 (StringUnit.denote tree.1) ∧ ∀ u ∈ tree.2.value.subvalues, u.Readable) rows valid.1 ?_
        intro tree known text spelled valid
        obtain ⟨key,body,inner,bodyValid⟩ := member_utf8 spelled valid
        exact ⟨key,ih tree known body inner bodyValid⟩
    rcases (Value.subvalues_object _ _).mp inside with rfl | ⟨member,listed,inside⟩
    · intro member listed
      obtain ⟨tree,known,rfl⟩ := List.mem_map.mp (lastWins_subset listed)
      exact (each tree known).1
    · obtain ⟨tree,known,rfl⟩ := List.mem_map.mp (lastWins_subset listed)
      exact (each tree known).2 u inside

/-! ### Texts of values -/

theorem escapeByte_plain (c : UInt8) (plain : c < 128) : escapeByte c ≠ [] ∧ ∀ d ∈ escapeByte c, d < 128 := by
  have listed := ascii_all (fun c => escapeByte c ≠ [] ∧ (escapeByte c).all (· < 128) = true) (by decide +kernel) c plain
  exact ⟨listed.1,fun d member => of_decide_eq_true (List.all_eq_true.mp listed.2 d member)⟩

theorem escapeByte_other (c : UInt8) (other : ¬c < 128) : escapeByte c = [c] := by
  have large : 128 ≤ c := UInt8.not_lt.mp other
  have apart (d : UInt8) (small : d < 128) : c ≠ d := fun same => other (same ▸ small)
  have high : ¬c < 32 := fun low => other (UInt8.lt_trans low (by decide))
  rw [escapeByte,if_neg (apart 34 (by decide)),if_neg (apart 92 (by decide)),if_neg (apart 8 (by decide)),
    if_neg (apart 12 (by decide)),if_neg (apart 10 (by decide)),if_neg (apart 13 (by decide)),
    if_neg (apart 9 (by decide)),if_neg high]

theorem isUtf8_escape (text : Bytes) : IsUtf8 (escape text) ↔ IsUtf8 text := by
  rw [escape,List.cons_append,isUtf8_cons _ _ (by decide),isUtf8_cut _ _ _ (by decide)]
  simpa using isUtf8_flatMap escapeByte text escapeByte_plain escapeByte_other

theorem digit_ascii (c : UInt8) (digit : isDigit c = true) : c < 128 := by
  simp only [isDigit,Bool.and_eq_true,decide_eq_true_eq] at digit
  exact UInt8.lt_of_le_of_lt digit.2 (by decide)

theorem digits_ascii (digits : Digits) : ∀ c ∈ digits.text, c < 128 :=
  fun c member => digit_ascii c (digits.numeric c member)

theorem decimalInt_plain (z : Int) : ∀ c ∈ decimalInt z, c < 128 := by
  have digits := fun c member => digit_ascii c (isDigit_decimal z.natAbs c member)
  rw [decimalInt]
  split
  · exact List.forall_mem_cons.mpr ⟨by decide,digits⟩
  · exact digits

theorem numeral_plain (n : Numeral) : ∀ c ∈ n.text, c < 128 := by
  obtain ⟨negative,whole,fraction,exponent,-⟩ := n
  have sign : ∀ c ∈ (if negative then [45] else [] : Bytes), c < 128 := by
    cases negative <;> simp
  have places : ∀ c ∈ (fraction.elim [] fun digits => 46 :: digits.text : Bytes), c < 128 := by
    cases fraction with
    | none => simp
    | some digits => simpa using digits_ascii digits
  have scale : ∀ c ∈ exponent.elim [] Exponent.text, c < 128 := by
    cases exponent with
    | none => simp
    | some e =>
      intro c member
      simp only [Option.elim_some,Exponent.text,List.cons_append,List.mem_cons,List.mem_append,Option.mem_toList]
        at member
      rcases member with rfl | signed | digit
      · rcases e.markers with same | same <;> rw [same] <;> decide
      · rcases e.signs c signed with rfl | rfl <;> decide
      · exact digits_ascii e.digits c digit
  intro c member
  rw [Numeral.text] at member
  simp only [List.mem_append] at member
  rcases member with ((front | digit) | point) | power
  · exact sign c front
  · exact digits_ascii whole c digit
  · exact places c point
  · exact scale c power

theorem formatDouble_utf8 (d : Double) : IsUtf8 (formatDouble d) := by
  cases finite : d.isFinite with
  | true =>
    obtain ⟨n,written,-⟩ := formatDouble_numeral d finite
    rw [written]
    exact isUtf8_plain _ (numeral_plain n)
  | false =>
    rw [formatDouble_infinite d finite]
    exact isUtf8_small _ rfl

namespace Value

theorem pad_utf8 (indent : Int) (depth : Nat) : IsUtf8 (pad indent depth) :=
  isUtf8_plain _ (blank_plain (blank_pad indent depth))

theorem newline_utf8 (indent : Int) : IsUtf8 (newline indent) := isUtf8_plain _ (blank_plain (blank_newline indent))

theorem comma_utf8 (rest : List α) : IsUtf8 (comma rest) := by
  rw [comma]
  split
  · exact isUtf8_nil
  · exact isUtf8_small _ rfl

theorem colonSpace_utf8 (indent : Int) : IsUtf8 (colonSpace indent) := by
  rw [colonSpace]
  split <;> exact isUtf8_small _ rfl

/-- A value with readable texts is told in UTF-8, with and without indentation. -/
theorem dumpInto_utf8 (indent : Int) (value : Value) (readable : ∀ u ∈ value.subvalues, u.Readable) (depth : Nat) :
    IsUtf8 (dumpInto indent depth value) := by
  induction value using Value.induction generalizing depth with
  | null => exact isUtf8_small _ rfl
  | bool b => cases b <;> exact isUtf8_small _ rfl
  | int z => exact isUtf8_plain _ (decimalInt_plain z)
  | double d => exact formatDouble_utf8 d
  | string text => exact (isUtf8_escape text).mpr (readable _ (self_mem_subvalues _))
  | array items ih =>
    have rows : ∀ rest : List Value, (∀ item ∈ rest, item ∈ items) → IsUtf8 (dumpItemsInto indent depth rest) := by
      intro rest listed
      induction rest with
      | nil => exact isUtf8_nil
      | cons item rest tail =>
        have member := listed item List.mem_cons_self
        have first := ih item member (fun u inside => readable u (subvalues_item member inside)) (depth + 1)
        have others := tail fun x inside => listed x (List.mem_cons_of_mem _ inside)
        exact ((((pad_utf8 indent _).append first).append (comma_utf8 rest)).append (newline_utf8 indent)).append others
    cases items with
    | nil => exact isUtf8_small _ rfl
    | cons item rest =>
      have body := ((newline_utf8 indent).append (rows _ fun _ inside => inside)).append (pad_utf8 indent depth)
      rw [dumpInto,List.cons_append,List.cons_append,List.cons_append,isUtf8_cons _ _ (by decide)]
      exact body.append (isUtf8_small _ rfl)
  | object members ih =>
    have keys : ∀ member ∈ members, IsUtf8 member.1 := readable _ (self_mem_subvalues _)
    have rows : ∀ rest : List (Bytes × Value), (∀ member ∈ rest, member ∈ members) →
        IsUtf8 (dumpMembersInto indent depth rest) := by
      intro rest listed
      induction rest with
      | nil => exact isUtf8_nil
      | cons member rest tail =>
        have here := listed member List.mem_cons_self
        have key := (isUtf8_escape member.1).mpr (keys member here)
        have value := ih member here (fun u inside => readable u (subvalues_member here inside)) (depth + 1)
        have others := tail fun x inside => listed x (List.mem_cons_of_mem _ inside)
        have row := (((pad_utf8 indent (depth + 1)).append key).append (colonSpace_utf8 indent)).append value
        exact ((row.append (comma_utf8 rest)).append (newline_utf8 indent)).append others
    cases members with
    | nil => exact isUtf8_small _ rfl
    | cons member rest =>
      have body := ((newline_utf8 indent).append (rows _ fun _ inside => inside)).append (pad_utf8 indent depth)
      rw [dumpInto,List.cons_append,List.cons_append,List.cons_append,isUtf8_cons _ _ (by decide)]
      exact body.append (isUtf8_small _ rfl)

end Value

/-- UTF-8 survives parsing, and the text of the value is UTF-8 again. -/
theorem parse_utf8 (limits : ParseLimits) (text : Bytes) (value : Value) (accepted : parse limits text = .ok value)
    (valid : IsUtf8 text) : (∀ u ∈ value.subvalues, u.Readable) ∧ IsUtf8 value.dump ∧
      ∀ indent told, value.dumpIndented indent = some told → IsUtf8 told := by
  obtain ⟨-,node,⟨before,body,after,blankBefore,spelled,blankAfter,rfl⟩,-,rfl⟩ := (parse_iff _ _ _).mp accepted
  rw [isUtf8_behind _ _ (blank_plain blankAfter),isUtf8_front _ _ (blank_plain blankBefore)] at valid
  have readable := spells_utf8 node body spelled valid
  refine ⟨readable,?_,?_⟩
  · rw [← Value.dumpInto_compact (-1) (by decide) _ 0]
    exact Value.dumpInto_utf8 _ _ readable 0
  · intro indent told defined
    rw [Value.dumpIndented] at defined
    split at defined
    · rw [← Option.some.inj defined]
      exact Value.dumpInto_utf8 _ _ readable 0
    · cases defined

/-- A lone surrogate, a pair, an escaped NUL and a raw character of two bytes. -/
theorem parse_utf8_escapes : ∃ value, parse {} (ascii "\"\\ud800\\ud83d\\ude00\\u0000" ++ [0xC3,0xA9,34]) = .ok value ∧
    (∀ u ∈ value.subvalues, u.Readable) ∧ IsUtf8 value.dump := by
  obtain ⟨value,accepted⟩ : ∃ value, parse {} (ascii "\"\\ud800\\ud83d\\ude00\\u0000" ++ [0xC3,0xA9,34]) = .ok value :=
    ⟨_,rfl⟩
  have whole := parse_utf8 {} _ value accepted (by decide +kernel)
  exact ⟨value,accepted,whole.1,whole.2.1⟩

end TestForge.Json
