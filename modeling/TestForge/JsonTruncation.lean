import TestForge.JsonRoundTrip

/-! What the parser makes of written values: it reads back exactly the faithful ones,
and nothing at all from a text that was cut. -/
namespace TestForge.Json

open Strings

/-- Where a reader stands between two bytes of a document: outside of strings, there but
behind a point, in a string, behind a backslash in it, or past two points in a row. -/
inductive Scan where
  | outside | pointed | inside | escaped | broken
  deriving DecidableEq

def Scan.next : Scan → UInt8 → Scan
  | .outside, c => if c = 34 then .inside else if c = 46 then .pointed else .outside
  | .pointed, c => if c = 34 then .inside else if c = 46 then .broken else .outside
  | .inside, c => if c = 34 then .outside else if c = 92 then .escaped else .inside
  | .escaped, _ => .inside
  | .broken, _ => .broken

def Scan.through (s : Scan) (text : Bytes) : Scan := text.foldl Scan.next s

@[simp] theorem Scan.through_nil (s : Scan) : s.through [] = s := rfl
@[simp] theorem Scan.through_cons (s : Scan) (c : UInt8) (text : Bytes) :
    s.through (c :: text) = (s.next c).through text := rfl

@[simp] theorem Scan.through_append (s : Scan) (a b : Bytes) : s.through (a ++ b) = (s.through a).through b :=
  List.foldl_append

/-- A text that leads from outside of strings back there. -/
def Closed (text : Bytes) : Prop := Scan.outside.through text = .outside

theorem Closed.append {a b : Bytes} (first : Closed a) (second : Closed b) : Closed (a ++ b) := by
  rw [Closed,Scan.through_append,first,second]

theorem closed_of_plain (text : Bytes) (plain : ∀ c ∈ text, c ≠ 34 ∧ c ≠ 46) : Closed text := by
  induction text with
  | nil => rfl
  | cons c rest ih =>
    obtain ⟨quote,point⟩ := plain c (by simp)
    have stays : Scan.outside.next c = .outside := by simp [Scan.next,quote,point]
    rw [Closed,Scan.through_cons,stays]
    exact ih fun d listed => plain d (by simp [listed])

theorem closed_blank {text : Bytes} (blank : Blank text) : Closed text := by
  apply closed_of_plain
  intro c listed
  have space := blank c listed
  simp only [isBlank,Bool.or_eq_true,beq_iff_eq] at space
  rcases space with ((rfl | rfl) | rfl) | rfl <;> decide

theorem hexDigit_plain (digit : HexDigit) : digit.1 ≠ 34 ∧ digit.1 ≠ 92 := by
  obtain ⟨c,known⟩ := digit
  constructor <;> rintro rfl <;> cases known

theorem StringUnit.through_text (unit : StringUnit) : Scan.inside.through unit.text = .inside := by
  cases unit with
  | plain c allowed => simp [StringUnit.text,Scan.next,allowed.2]
  | short => simp [StringUnit.text,Scan.next]
  | code a b c d => simp [StringUnit.text,Scan.next,hexDigit_plain]

theorem closed_literal (units : List StringUnit) : Closed (StringUnit.literal units) := by
  have body : Scan.inside.through (units.flatMap StringUnit.text) = .inside := by
    induction units with
    | nil => rfl
    | cons unit rest ih => rw [List.flatMap_cons,Scan.through_append,unit.through_text,ih]
  have opened : Scan.outside.next 34 = .inside := rfl
  have within : Scan.outside.through (34 :: units.flatMap StringUnit.text) = .inside := by
    rw [Scan.through_cons,opened,body]
  rw [Closed,StringUnit.literal,Scan.through_append,within]
  rfl

theorem digit_plain {c : UInt8} (numeric : isDigit c = true) : c ≠ 34 ∧ c ≠ 46 := by
  constructor <;> rintro rfl <;> cases numeric

theorem Digits.closed (digits : Digits) : Closed digits.text :=
  closed_of_plain _ fun c listed => digit_plain (digits.numeric c listed)

/-- A point with digits behind it. -/
theorem Digits.closed_point (digits : Digits) : Closed (46 :: digits.text) := by
  obtain ⟨text,nonempty,numeric⟩ := digits
  cases text with
  | nil => contradiction
  | cons c rest =>
    obtain ⟨quote,point⟩ := digit_plain (numeric c (by simp))
    have left : (Scan.outside.next 46).next c = .outside := by simp [Scan.next,quote,point]
    rw [Closed,Scan.through_cons,Scan.through_cons,left]
    exact closed_of_plain _ fun d listed => digit_plain (numeric d (by simp [listed]))

theorem Exponent.closed (e : Exponent) : Closed e.text := by
  have marked : Closed (e.marker :: e.sign.toList) := by
    apply closed_of_plain
    intro c listed
    rcases List.mem_cons.mp listed with rfl | listed
    · rcases e.markers with marker | marker <;> rw [marker] <;> decide
    · rcases e.signs c (by simpa using listed) with rfl | rfl <;> decide
  exact marked.append e.digits.closed

theorem Numeral.closed (n : Numeral) : Closed n.text := by
  have sign : Closed (if n.negative then [45] else []) := by split <;> rfl
  have fraction : Closed (n.fraction.elim [] fun digits => 46 :: digits.text) := by
    cases n.fraction with
    | none => rfl
    | some digits => exact digits.closed_point
  have exponent : Closed (n.exponent.elim [] Exponent.text) := by
    cases n.exponent with
    | none => rfl
    | some e => exact e.closed
  exact ((sign.append n.whole.closed).append fraction).append exponent

theorem Separated.closed {spells : α → Bytes → Prop} {items : List α} {body : Bytes}
    (separated : Separated spells items body) (inner : ∀ item ∈ items, ∀ text, spells item text → Closed text) :
    Closed body := by
  induction separated with
  | last before spelled after =>
    exact ((closed_blank before).append (inner _ (by simp) _ spelled)).append (closed_blank after)
  | more before spelled after _ ih =>
    have rest : Closed (44 :: _) := ih fun item listed => inner item (by simp [listed])
    exact (((closed_blank before).append (inner _ (by simp) _ spelled)).append (closed_blank after)).append rest

/-- A text of the grammar closes what it opens and has no two points in a row outside
of strings. -/
theorem Node.Spells.closed (node : Node) : ∀ text, node.Spells text → Closed text := by
  have enclosed : ∀ (opening closing : UInt8) (body : Bytes), opening ≠ 34 ∧ opening ≠ 46 →
      closing ≠ 34 ∧ closing ≠ 46 → Closed body → Closed (opening :: body ++ [closing]) := by
    intro opening closing body opens closes inner
    have front := closed_of_plain [opening] (by simpa using opens)
    exact (front.append inner).append (closed_of_plain [closing] (by simpa using closes))
  induction node using Node.induction with
  | null => rintro _ ⟨⟩; rfl
  | bool b => rintro _ ⟨⟩ <;> rfl
  | number n => rintro _ ⟨⟩; exact n.closed
  | string units => rintro _ ⟨⟩; exact closed_literal units
  | array items ih =>
    intro text spelled
    cases spelled with
    | emptyArray blank => exact enclosed 91 93 _ (by decide) (by decide) (closed_blank blank)
    | array separated => exact enclosed 91 93 _ (by decide) (by decide) (separated.closed ih)
  | object members ih =>
    intro text spelled
    cases spelled with
    | emptyObject blank => exact enclosed 123 125 _ (by decide) (by decide) (closed_blank blank)
    | object separated =>
      apply enclosed 123 125 _ (by decide) (by decide)
      apply separated.closed
      rintro ⟨key,node⟩ listed _ ⟨before,after,spelled⟩
      have colon : Closed [58] := rfl
      exact (((closed_literal key).append (closed_blank before)).append (colon.append (closed_blank after))).append
        (ih _ listed _ spelled)

theorem Document.closed {node : Node} {text : Bytes} (document : Document node text) : Closed text := by
  obtain ⟨before,body,after,blankBefore,spelled,blankAfter,rfl⟩ := document
  exact ((closed_blank blankBefore).append (spelled.closed node _)).append (closed_blank blankAfter)

/-- Wherever the cut falls, the marker of `truncate` leaves a string open or doubles a
point. -/
theorem not_closed_marked (text : Bytes) : ¬Closed (text ++ truncationMarker) := by
  have closed : ∀ s : Scan, s.through truncationMarker ≠ .outside := by
    intro s
    cases s <;> decide
  rw [Closed,Scan.through_append]
  exact closed _

theorem tryParse_marked (limits : ParseLimits) (text : Bytes) : tryParse limits (text ++ truncationMarker) = none := by
  cases parsed : parse limits (text ++ truncationMarker) with
  | error failure => rw [tryParse,parsed]; rfl
  | ok value =>
    obtain ⟨-,node,document,-⟩ := (parse_iff _ _ _).mp parsed
    exact absurd document.closed (not_closed_marked text)

/-- Exactly the faithful values of moderate depth and length are read back. -/
theorem tryParse_dump_iff (limits : ParseLimits) (value : Value) : tryParse limits value.dump = some value ↔
    value.dump.length ≤ limits.maxLength ∧ value.depth ≤ limits.maxDepth ∧
      ∀ u ∈ value.subvalues, u.Faithful := by
  have meaning : tryParse limits value.dump = some value ↔ parse limits value.dump = .ok value := by
    rw [tryParse]
    cases parse limits value.dump <;> simp [Except.toOption]
  rw [meaning]
  constructor
  · intro parsed
    obtain ⟨short,node,-,shallow,same⟩ := (parse_iff _ _ _).mp parsed
    obtain ⟨known,depth⟩ := Value.denoted node
    rw [same] at known depth
    have deep := Nat.le_trans depth shallow
    have again := Value.parse_dump limits value (fun u inside => (known u inside).intFits) deep short
    rw [parsed,Value.reread_parsed value known] at again
    have finite := (Value.finitePart_eq_iff value).mp (Except.ok.inj again).symm
    refine ⟨short,deep,fun u inside => ?_⟩
    cases u with
    | double d => exact finite d inside
    | object members => exact known _ inside
    | int z => exact known _ inside
    | null | bool | string | array => trivial
  · rintro ⟨short,shallow,faithful⟩
    have read := Value.parse_dump limits value (fun u inside => (faithful u inside).intFits) shallow short
    rw [read,Value.reread_eq value faithful]

end TestForge.Json
