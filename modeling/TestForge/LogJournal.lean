import TestForge.JsonAccess
import TestForge.JsonRoundTrip
import TestForge.LogCapture

/-! What the sinks keep of the records they are given: a file has one JSON text to the line, the
memory the last records that fit. Whatever bytes a message or a field has, a line of the file is
one record and reads back as it. -/
namespace TestForge

open Strings Clock

namespace Json

/-! ### Texts without control characters -/

/-- No byte ends the line, and none ends the string for `fputs`. -/
def Printed (text : Bytes) : Prop := ∀ c ∈ text, 32 ≤ c

instance (text : Bytes) : Decidable (Printed text) := List.decidableBAll (32 ≤ ·) text

theorem Printed.append {a b : Bytes} (first : Printed a) (second : Printed b) : Printed (a ++ b) := by
  intro c member
  exact (List.mem_append.mp member).elim (first c) (second c)

theorem Printed.cons {c : UInt8} {rest : Bytes} (first : 32 ≤ c) (others : Printed rest) : Printed (c :: rest) :=
  List.forall_mem_cons.mpr ⟨first,others⟩

theorem Printed.absent {text : Bytes} (printed : Printed text) {c : UInt8} (control : c < 32) : c ∉ text :=
  fun member => absurd (printed c member) (UInt8.not_le.mpr control)

theorem printed_nil : Printed [] := by simp [Printed]

theorem printed_digits {text : Bytes} (numeric : ∀ c ∈ text, isDigit c = true) : Printed text := by
  intro c member
  have digit := numeric c member
  simp only [isDigit,Bool.and_eq_true,decide_eq_true_eq] at digit
  exact UInt8.le_trans (by decide) digit.1

theorem decimalInt_printed (z : Int) : Printed (decimalInt z) := by
  have digits := printed_digits (isDigit_decimal z.natAbs)
  rw [decimalInt]
  split
  · exact digits.cons (by decide)
  · exact digits

theorem numeral_printed (n : Numeral) : Printed n.text := by
  obtain ⟨negative,whole,fraction,exponent,-⟩ := n
  have sign : Printed (if negative then [45] else []) := by cases negative <;> decide
  have places : Printed (fraction.elim [] fun digits => 46 :: digits.text) := by
    cases fraction with
    | none => exact printed_nil
    | some digits => exact (printed_digits digits.numeric).cons (by decide)
  have scale : Printed (exponent.elim [] Exponent.text) := by
    cases exponent with
    | none => exact printed_nil
    | some e =>
      have signs : Printed e.sign.toList := by
        intro c member
        rcases e.signs c (Option.mem_toList.mp member) with rfl | rfl <;> decide
      refine (signs.append (printed_digits e.digits.numeric)).cons ?_
      rcases e.markers with same | same <;> rw [same] <;> decide
  exact ((sign.append (printed_digits whole.numeric)).append places).append scale

theorem formatDouble_printed (d : Double) : Printed (formatDouble d) := by
  cases finite : d.isFinite with
  | true =>
    obtain ⟨n,written,-⟩ := formatDouble_numeral d finite
    rw [written]
    exact numeral_printed n
  | false =>
    rw [formatDouble_infinite d finite]
    decide

/-- The escapes leave no control character. -/
theorem escapeByte_printed : ∀ c : UInt8, Printed (escapeByte c) := by
  have every : ∀ n : Fin 256, Printed (escapeByte (UInt8.ofNat n)) := by decide +kernel
  intro c
  simpa using every ⟨c.toNat,c.toNat_lt⟩

theorem escape_printed (text : Bytes) : Printed (escape text) := by
  have inside : Printed (text.flatMap escapeByte) := by
    intro c member
    obtain ⟨b,-,written⟩ := List.mem_flatMap.mp member
    exact escapeByte_printed b c written
  exact (inside.append (b := [34]) (by decide)).cons (by decide)

theorem Value.dump_printed (value : Value) : Printed value.dump := by
  induction value using Value.induction with
  | null => decide
  | bool b => cases b <;> decide
  | int z => exact decimalInt_printed z
  | double d => exact formatDouble_printed d
  | string text => exact escape_printed text
  | array items ih =>
    have rows : ∀ rest : List Value, (∀ item ∈ rest, item ∈ items) → Printed (dumpItems rest) := by
      intro rest
      induction rest with
      | nil => exact fun _ => printed_nil
      | cons item rest tail =>
        intro listed
        have first := ih item (listed item List.mem_cons_self)
        have others := tail fun x inside => listed x (List.mem_cons_of_mem _ inside)
        cases rest with
        | nil => exact first
        | cons next more => exact first.append (others.cons (by decide))
    exact ((rows items fun _ inside => inside).append (b := [93]) (by decide)).cons (by decide)
  | object members ih =>
    have rows : ∀ rest : List (Bytes × Value), (∀ member ∈ rest, member ∈ members) → Printed (dumpMembers rest) := by
      intro rest
      induction rest with
      | nil => exact fun _ => printed_nil
      | cons member rest tail =>
        intro listed
        have first := (escape_printed member.1).append
          ((ih member (listed member List.mem_cons_self)).cons (c := 58) (by decide))
        have others := tail fun x inside => listed x (List.mem_cons_of_mem _ inside)
        cases rest with
        | nil => exact first
        | cons next more => exact first.append (others.cons (by decide))
    exact ((rows members fun _ inside => inside).append (b := [125]) (by decide)).cons (by decide)

end Json

/-! ### Lines -/

/-- Texts that end at the end of a line; what stands behind the last one is left out. -/
def journalLines (content : Bytes) : List Bytes := (content.splitOn 10).dropLast

/-- What follows whole lines does not change them. -/
theorem journalLines_append (content rest : Bytes) (whole : content = [] ∨ content.getLast? = some 10) :
    journalLines (content ++ rest) = journalLines content ++ journalLines rest := by
  rcases whole with rfl | last
  · rfl
  · obtain ⟨before,rfl⟩ := List.getLast?_eq_some_iff.mp last
    have joined : (before ++ [10] ++ rest).splitOn 10 = before.splitOn 10 ++ rest.splitOn 10 := by
      simpa using List.splitOn_append_cons_self (a := 10) before rest
    have alone : (before ++ [10]).splitOn 10 = before.splitOn 10 ++ [[]] := by
      simpa using List.splitOn_append_cons_self (a := (10 : UInt8)) before []
    rw [journalLines,joined,List.dropLast_append_of_ne_nil (List.splitOn_ne_nil _ _),journalLines,alone,
      List.dropLast_concat,journalLines]

theorem journalLines_flatMap (lines : List Bytes) (plain : ∀ line ∈ lines, 10 ∉ line) :
    journalLines (lines.flatMap (· ++ [10])) = lines := by
  rw [journalLines,Sequence.splitOn_ended 10 lines plain,List.dropLast_concat]

/-! ### Records -/

namespace LogManager

open Json

/-- The thread's number is converted to a signed one. -/
def members (record : LogRecord) : List (Bytes × Value) :=
  [(ascii "timestamp",.string (toIso8601 record.timestamp)),
    (ascii "level",.string record.level.toString),
    (ascii "component",.string record.component),
    (ascii "message",.string record.message)] ++
  (if record.test = [] then [] else [(ascii "test",.string record.test)]) ++
  (if record.runId = [] then [] else [(ascii "run_id",.string record.runId)]) ++
  [(ascii "thread",.int (Int.bmod record.threadId (2^64)))] ++
  if record.fields = [] then [] else [(ascii "fields",.object record.fields)]

def toJson (record : LogRecord) : Value := .object (members record)

end LogManager

namespace FileLogSink

/-- What `fputs` and `fputc` add for one record. -/
def line (record : LogRecord) : Bytes := (LogManager.toJson record).dump.takeWhile (· ≠ 0) ++ [10]

def write (content : Bytes) (record : LogRecord) : Bytes := content ++ line record

theorem line_eq (record : LogRecord) : line record = (LogManager.toJson record).dump ++ [10] := by
  have whole : (LogManager.toJson record).dump.takeWhile (· ≠ 0) = (LogManager.toJson record).dump := by
    apply List.takeWhile_eq_self_iff.mpr
    intro c member
    have absent := (Json.Value.dump_printed (LogManager.toJson record)).absent (c := 0) (by decide)
    simpa using fun same : c = 0 => absent (same ▸ member)
  rw [line,whole]

theorem foldl_write (content : Bytes) (records : List LogRecord) :
    records.foldl write content = content ++
      (records.map fun record => (LogManager.toJson record).dump).flatMap (· ++ [10]) := by
  induction records generalizing content with
  | nil => simp
  | cons record rest ih => simp [ih,write,line_eq]

end FileLogSink

namespace LogManager

open Json Value

/-- What a reader of its line knows of a record: of equal keys among the fields the last one
counts, and what is no number is null. -/
def retold (record : LogRecord) : LogRecord := { record with fields := lastWins (rereadMembers record.fields) }

theorem lastWins_eq_nil (members : List (Bytes × Value)) : lastWins members = [] ↔ members = [] := by
  constructor
  · intro empty
    cases members with
    | nil => rfl
    | cons member rest =>
      have found : (Value.object (lastWins (member :: rest))).find member.1 ≠ none := by
        rw [← objectOf_eq,find_objectOf]
        simp
      rw [empty] at found
      exact (found rfl).elim
  · rintro rfl
    rfl

theorem members_distinct (record : LogRecord) : ((members record).map (·.1)).Nodup := by
  have all : ([ascii "timestamp",ascii "level",ascii "component",ascii "message"] ++ [ascii "test"] ++ [ascii "run_id"] ++
      [ascii "thread"] ++ [ascii "fields"]).Nodup := by
    decide
  have optional (absent : Prop) [Decidable absent] (member : Bytes × Value) :
      ((if absent then [] else [member]).map (·.1)).Sublist [member.1] := by
    split <;> simp
  refine all.sublist ?_
  simp only [members,List.map_append]
  exact ((((List.Sublist.refl _).append (optional _ _)).append (optional _ _)).append (List.Sublist.refl _)).append
    (optional _ _)

theorem reread_toJson (record : LogRecord) : (toJson record).reread = toJson (retold record) := by
  have empty : (retold record).fields = [] ↔ record.fields = [] := by
    rw [retold,lastWins_eq_nil,rereadMembers_eq,List.map_eq_nil_iff]
  have each : (members record).map (fun member => (member.1,member.2.reread)) = members (retold record) := by
    simp only [members,empty]
    by_cases tested : record.test = [] <;> by_cases runs : record.runId = [] <;> by_cases bare : record.fields = [] <;>
      simp [tested,runs,bare,reread,retold]
  have distinct := members_distinct (retold record)
  rw [toJson,reread,rereadMembers_eq,each,lastWins_distinct _ distinct,toJson]

/-- The record can be told within the limits of a reader; integers are 64-bit in the source. -/
structure Recordable (limits : ParseLimits) (record : LogRecord) : Prop where
  integers : ∀ field ∈ record.fields, ∀ u ∈ field.2.subvalues, u.IntFits
  shallow : (toJson record).depth ≤ limits.maxDepth
  short : (toJson record).dump.length ≤ limits.maxLength

theorem Recordable.intFits {limits : ParseLimits} {record : LogRecord} (recordable : Recordable limits record) :
    ∀ u ∈ (toJson record).subvalues, u.IntFits := by
  have told (text : Bytes) : ∀ u ∈ (Value.string text).subvalues, u.IntFits := by simp [subvalues,IntFits]
  have thread : ∀ u ∈ (Value.int (Int.bmod record.threadId (2^64))).subvalues, u.IntFits := by
    have low := Int.le_bmod (x := record.threadId) (m := 2^64) (by decide)
    have high := Int.bmod_lt (x := record.threadId) (m := 2^64) (by decide)
    simp only [subvalues,List.mem_singleton,forall_eq,IntFits]
    omega
  have optional (text : Bytes) (key : Bytes) :
      ∀ member ∈ (if text = [] then [] else [(key,Value.string text)]), ∀ u ∈ member.2.subvalues, u.IntFits := by
    split
    · simp
    · simpa using told text
  have fields : ∀ member ∈ (if record.fields = [] then [] else [(ascii "fields",Value.object record.fields)]),
      ∀ u ∈ member.2.subvalues, u.IntFits := by
    split
    · simp
    · rw [List.forall_mem_singleton]
      intro u inside
      rcases (subvalues_object _ _).mp inside with rfl | ⟨field,listed,inside⟩
      · trivial
      · exact recordable.integers field listed u inside
  have each : ∀ member ∈ members record, ∀ u ∈ member.2.subvalues, u.IntFits := by
    simp only [members,List.forall_mem_append]
    refine ⟨⟨⟨⟨?_,optional _ _⟩,optional _ _⟩,?_⟩,fields⟩
    · simp only [List.forall_mem_cons]
      exact ⟨told _,told _,told _,told _,by simp⟩
    · simpa using thread
  intro u inside
  rcases (subvalues_object _ _).mp inside with rfl | ⟨member,listed,inside⟩
  · trivial
  · exact each member listed u inside

/-- The line of a record is read as the record. -/
theorem parse_line {limits : ParseLimits} {record : LogRecord} (recordable : Recordable limits record) :
    parse limits (toJson record).dump = .ok (toJson (retold record)) := by
  rw [← reread_toJson]
  exact parse_dump limits _ recordable.intFits recordable.shallow recordable.short

/-- Behind whole lines every record that is written comes to be one more line, in the order of the
writes, and each of them is read as its record, whatever bytes the texts in it have. -/
theorem journal_told (limits : ParseLimits) (content : Bytes) (records : List LogRecord)
    (whole : content = [] ∨ content.getLast? = some 10) (recordable : ∀ record ∈ records, Recordable limits record) :
    (journalLines (records.foldl FileLogSink.write content)).map (parse limits) =
      (journalLines content).map (parse limits) ++ records.map fun record => .ok (toJson (retold record)) := by
  have plain : ∀ line ∈ records.map fun record => (toJson record).dump, 10 ∉ line := by
    intro line listed
    obtain ⟨record,-,rfl⟩ := List.mem_map.mp listed
    exact (dump_printed _).absent (by decide)
  have read : (records.map fun record => (toJson record).dump).map (parse limits) =
      records.map fun record => .ok (toJson (retold record)) := by
    rw [List.map_map]
    exact List.map_congr_left fun record listed => parse_line (recordable record listed)
  rw [FileLogSink.foldl_write,journalLines_append content _ whole,journalLines_flatMap _ plain,List.map_append,read]

/-- A message that holds the end of a line, a NUL and a quote. -/
def brokenLine : LogRecord where
  level := .warn
  component := ascii "http"
  message := ascii "a" ++ [10,0,34]
  fields := [(ascii "n",.int 3),(ascii "n",.double ⟨0x7FF0000000000000⟩)]

theorem journal_told_brokenLine :
    (journalLines ([brokenLine,brokenLine].foldl FileLogSink.write (ascii "\x7b\x7d\n"))).map (parse {}) =
      (journalLines (ascii "\x7b\x7d\n")).map (parse {}) ++
        [brokenLine,brokenLine].map fun record => .ok (toJson (retold record)) := by
  have recordable : Recordable {} brokenLine := by
    refine ⟨?_,by decide +kernel,by decide +kernel⟩
    simp [brokenLine,subvalues,IntFits]
  exact journal_told {} _ [brokenLine,brokenLine] (.inr (by decide)) (by simp [recordable])

end LogManager
end TestForge
