import TestForge.JsonRoundTrip

/-! Reading values out of a document: members by path, numbers with a fallback, the
strings in it, and the length of its compact text. -/
namespace TestForge

open Json Strings

/-- `d >= n` as the processor compares them: false on a NaN. -/
def Double.atLeast (d : Double) (n : Nat) : Bool :=
  !d.negative && if d.isFinite then n * 2^1074 ≤ d.units else d.fraction = 0

namespace Json.Value

def typeName : Value → Bytes
  | .null => ascii "null"
  | .bool _ => ascii "boolean"
  | .int _ => ascii "integer"
  | .double _ => ascii "double"
  | .string _ => ascii "string"
  | .array _ => ascii "array"
  | .object _ => ascii "object"

/-- The text of the `TypeError` that an accessor throws. -/
def typeError (wanted : Bytes) (value : Value) : Bytes :=
  ascii "JSON value is " ++ value.typeName ++ ascii ", expected " ++ wanted

def asObject : Value → Except Bytes (List (Bytes × Value))
  | .object members => .ok members
  | value => .error (typeError (ascii "object") value)

def size : Value → Nat
  | .array items => items.length
  | .object members => members.length
  | .string text => text.length
  | _ => 0

def isEmpty (value : Value) : Bool := value.size = 0

def doubleOr (fallback : Double) : Value → Double
  | .double value => value
  | .int value => Double.ofInt value
  | _ => fallback

/-- One member after the other along a dotted path; an empty segment leads nowhere. -/
def path (dotted : Bytes) (value : Value) : Option Value :=
  (split dotted 46 false).foldlM (fun current segment => if segment = [] then none else current.find segment) value

/-! ### Strings in a value -/

/-- The string leaves of a value. Keys are no leaves. -/
def texts (value : Value) : List Bytes := value.subvalues.filterMap asString?

theorem asString?_eq_some {value : Value} {text : Bytes} : value.asString? = some text ↔ value = .string text := by
  cases value <;> simp [asString?]

theorem mem_texts {value : Value} {text : Bytes} : text ∈ value.texts ↔ .string text ∈ value.subvalues := by
  simp only [texts,List.mem_filterMap,asString?_eq_some]
  exact exists_eq_right

@[simp] theorem texts_string (text : Bytes) : texts (.string text) = [text] := rfl
@[simp] theorem texts_int (z : Int) : texts (.int z) = [] := rfl
@[simp] theorem texts_bool (b : Bool) : texts (.bool b) = [] := rfl

@[simp] theorem mem_texts_array {items : List Value} {text : Bytes} :
    text ∈ (array items).texts ↔ ∃ item ∈ items, text ∈ item.texts := by
  simp [mem_texts,subvalues_array]

@[simp] theorem mem_texts_object {members : List (Bytes × Value)} {text : Bytes} :
    text ∈ (object members).texts ↔ ∃ member ∈ members, text ∈ member.2.texts := by
  simp [mem_texts,subvalues_object]

/-! ### Objects that are set member by member -/

theorem find_setMember (key other : Bytes) (value : Value) (members : List (Bytes × Value)) :
    (object (setMember key value members)).find other =
      if key = other then some value else (object members).find other := by
  induction members with
  | nil => by_cases same : key = other <;> simp [setMember,find,same]
  | cons member rest ih =>
    simp only [find] at ih
    by_cases here : member.1 = key
    · by_cases same : key = other <;> simp [setMember,find,here,same]
    · rw [setMember,if_neg here]
      by_cases same : member.1 = other
      · have different : key ≠ other := fun equal => here (same.trans equal.symm)
        simp [find,same,different]
      · simp [find,same,ih]

/-- Of several members of one key the last counts. -/
theorem find_objectOf (members : List (Bytes × Value)) (key : Bytes) :
    (objectOf members).find key = (members.reverse.find? (·.1 = key)).map (·.2) := by
  induction members using List.reverseRecOn with
  | nil => rfl
  | append_singleton members member ih =>
    rw [objectOf,List.foldl_append,List.foldl_cons,List.foldl_nil,find_setMember,← objectOf,ih]
    by_cases same : member.1 = key <;> simp [same]

/-- A function of key and value does not change which members are kept. -/
theorem lastWins_map (f : Bytes × Value → Value) (members : List (Bytes × Value)) :
    lastWins (members.map fun member => (member.1,f member)) =
      (lastWins members).map fun member => (member.1,f member) := by
  have keys : (members.map fun member => (member.1,f member)).map (·.1) = members.map (·.1) := by simp
  rw [lastWins,keys,lastWins,List.map_filterMap]
  apply List.filterMap_congr
  intro key _
  rw [← List.map_reverse,List.find?_map]
  rfl

/-- An object of some of the members, each with what becomes of its value. -/
def select (keep : Bytes → Bool) (f : Bytes × Value → Value) (members : List (Bytes × Value)) : Value :=
  members.foldl (fun (built : Value) member => if keep member.1 then built.set member.1 (f member) else built)
    (.object [])

theorem select_eq (keep : Bytes → Bool) (f : Bytes × Value → Value) (members : List (Bytes × Value)) :
    select keep f members =
      .object ((lastWins (members.filter fun member => keep member.1)).map fun member => (member.1,f member)) := by
  have folded : ∀ built, members.foldl
      (fun (built : Value) member => if keep member.1 then built.set member.1 (f member) else built) (.object built) =
      .object (((members.filter fun member => keep member.1).map fun member => (member.1,f member)).foldl
        (fun built member => setMember member.1 member.2 built) built) := by
    induction members with
    | nil => intro built; rfl
    | cons member rest ih =>
      intro built
      cases kept : keep member.1 with
      | true => simpa [kept,set] using ih _
      | false => simpa [kept] using ih _
  rw [select,folded,← objectOf,objectOf_eq,lastWins_map]

def setSome (target : Value) (key : Bytes) : Option Value → Value
  | some value => target.set key value
  | none => target

/-- Setting what there is of distinct keys lists it in their order. -/
theorem foldl_setSome (sections : List (Bytes × Option Value)) (distinct : (sections.map (·.1)).Nodup) :
    sections.foldl (fun target entry => setSome target entry.1 entry.2) (.object []) =
      .object (sections.filterMap fun entry => entry.2.map (entry.1,·)) := by
  have folded : ∀ built : List (Bytes × Value), (∀ entry ∈ sections, entry.1 ∉ built.map (·.1)) →
      sections.foldl (fun target entry => setSome target entry.1 entry.2) (.object built) =
        .object (built ++ sections.filterMap fun entry => entry.2.map (entry.1,·)) := by
    induction sections with
    | nil => intro built fresh; simp
    | cons entry rest ih =>
      intro built fresh
      rw [List.map_cons,List.nodup_cons] at distinct
      obtain ⟨apart,distinct⟩ := distinct
      have later : ∀ other ∈ rest, other.1 ∉ built.map (·.1) := fun other member => fresh other (by simp [member])
      obtain ⟨key,value⟩ := entry
      rw [List.foldl_cons]
      cases value with
      | none => simpa [setSome] using ih distinct built later
      | some value =>
        rw [setSome,set_fresh _ _ _ (fresh _ (by simp)),ih distinct]
        · simp
        · intro other member
          simp only [List.map_append,List.map_cons,List.map_nil,List.mem_append,List.mem_singleton,not_or]
          exact ⟨later other member,fun same => apart (List.mem_map.mpr ⟨other,member,same⟩)⟩
  simpa using folded [] (by simp)

/-- An object of the keys that another one has. -/
def pick (keys : List Bytes) (source : Value) : Value :=
  keys.foldl (fun summary key => setSome summary key (source.find key)) (.object [])

theorem pick_eq (keys : List Bytes) (source : Value) (distinct : keys.Nodup) :
    pick keys source = .object (keys.filterMap fun key => (source.find key).map (key,·)) := by
  have sections := foldl_setSome (keys.map fun key => (key,source.find key)) (by simpa [Function.comp_def] using distinct)
  rwa [List.foldl_map,List.filterMap_map] at sections

/-! ### Lengths of texts -/

def textSize (text : Bytes) : Nat := (escape text).length

theorem textSize_ge (text : Bytes) : text.length + 2 ≤ textSize text := by
  have width : ∀ c ∈ text, 1 ≤ (escapeByte c).length := by
    intro c _
    unfold escapeByte
    repeat' split
    all_goals simp [ascii]
  have total : text.length ≤ (text.map fun c => (escapeByte c).length).sum := by
    induction text with
    | nil => simp
    | cons c rest ih =>
      have first := width c (by simp)
      have others := ih fun x member => width x (by simp [member])
      simp only [List.length_cons,List.map_cons,List.sum_cons]
      omega
  simp only [textSize,escape,List.length_append,List.length_cons,List.length_flatMap]
  omega

theorem textSize_le (text : Bytes) : textSize text ≤ 6 * text.length + 2 := by
  have width (c : UInt8) : (escapeByte c).length ≤ 6 := by
    unfold escapeByte
    repeat' split
    all_goals simp [ascii]
  have total : (text.map fun c => (escapeByte c).length).sum ≤ 6 * text.length := by
    induction text with
    | nil => exact Nat.le_refl 0
    | cons c rest ih =>
      have first := width c
      simp only [List.length_cons,List.map_cons,List.sum_cons]
      omega
  simp only [textSize,escape,List.length_append,List.length_cons,List.length_flatMap,List.length_nil]
  omega

/-- What braces, keys, colons and commas of an object take. -/
def frameSize (keys : List Bytes) : Nat := (keys.map fun key => textSize key + 1).sum + (keys.length - 1) + 2

theorem dumpMembers_length (members : List (Bytes × Value)) : (dumpMembers members).length =
    (members.map fun member => textSize member.1 + 1).sum + (members.length - 1) +
      (members.map fun member => member.2.dump.length).sum := by
  induction members with
  | nil => rfl
  | cons member rest ih =>
    cases rest with
    | nil => simp [dumpMembers,textSize]; omega
    | cons next rest =>
      rw [dumpMembers,List.length_append,List.length_cons,List.length_append,List.length_cons,ih]
      · simp only [List.map_cons,List.sum_cons,List.length_cons,textSize]
        omega
      · simp

theorem dump_object_length (members : List (Bytes × Value)) : (object members).dump.length =
    frameSize (members.map (·.1)) + (members.map fun member => member.2.dump.length).sum := by
  simp only [dump,List.length_append,List.length_cons,List.length_nil,dumpMembers_length,frameSize,List.length_map,
    List.map_map,Function.comp_def]
  omega

theorem dumpItems_length (items : List Value) : (dumpItems items).length =
    (items.map (·.dump.length)).sum + (items.length - 1) := by
  induction items with
  | nil => rfl
  | cons item rest ih =>
    cases rest with
    | nil => simp [dumpItems]
    | cons next rest =>
      rw [dumpItems,List.length_append,List.length_cons,ih]
      · simp only [List.map_cons,List.sum_cons,List.length_cons]
        omega
      · simp

theorem dump_array_length (items : List Value) : (array items).dump.length =
    (items.map (·.dump.length)).sum + (items.length - 1) + 2 := by
  simp only [dump,List.length_append,List.length_cons,List.length_nil,dumpItems_length]

end Json.Value
end TestForge
