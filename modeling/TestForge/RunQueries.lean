import TestForge.Glob
import TestForge.RunListing
import TestForge.Utf8

/-! The conditions of the statement that `listRuns` assembles, with its parameters by position, and
which runs it selects. -/
namespace TestForge.SqliteResultRepository

open Clock Strings

/-! ### The statement -/

/-- The conditions that may follow `WHERE 1 = 1`: `label LIKE ?`, `started_at_ms >= ?` and
`started_at_ms <= ?`. -/
inductive Condition where
  | labelLike
  | startedFrom
  | startedUntil
  deriving DecidableEq, Repr

/-- A condition stands there when its value is given. -/
def RunQuery.conditions (query : RunQuery) : List Condition :=
  (if query.labelContains.isSome then [.labelLike] else []) ++
    (if query.since.isSome then [.startedFrom] else []) ++
      if query.untilTime.isSome then [.startedUntil] else []

inductive Parameter where
  | text (value : Bytes)
  | integer (value : Int)
  deriving DecidableEq

/-- What is bound, in the order of `++index`. -/
def RunQuery.parameters (query : RunQuery) : List Parameter :=
  (query.labelContains.map fun part => .text (37 :: part ++ [37])).toList ++
    (query.since.map fun instant => .integer (toEpochMillis instant)).toList ++
      (query.untilTime.map fun instant => .integer (toEpochMillis instant)).toList ++
        [.integer (max 1 query.limit),.integer (max 0 query.offset)]

/-! ### Its meaning -/

section Meaning

variable (like : Bytes → Bytes → Bool)

/-- A condition with its parameter; one of another type is never bound to it. -/
def Condition.test : Condition → Parameter → Option (RunRow → Bool)
  | .labelLike,.text pattern => some fun row => like pattern row.label
  | .startedFrom,.integer millis => some fun row => millis ≤ row.startedAtMs
  | .startedUntil,.integer millis => some fun row => row.startedAtMs ≤ millis
  | _,_ => none

/-- The conditions take the parameters in order; the rest is left to `LIMIT` and `OFFSET`. -/
def readWhere : List Condition → List Parameter → Option ((RunRow → Bool) × List Parameter)
  | [],parameters => some (fun _ => true,parameters)
  | condition :: conditions,parameter :: parameters =>
    match condition.test like parameter,readWhere conditions parameters with
    | some test,some (others,rest) => some (fun row => test row && others row,rest)
    | _,_ => none
  | _ :: _,[] => none

def NewestFirst (rows : List RunRow) : Prop := rows.Pairwise fun a b => b.startedAtMs ≤ a.startedAtMs

/-- What the database may answer: rows that started together come in any order. -/
def Answers (tables : Tables) (conditions : List Condition) (parameters : List Parameter) (rows : List RunRow) : Prop :=
  ∃ wanted limit offset ordered, readWhere like conditions parameters = some (wanted,[.integer limit,.integer offset]) ∧
    ordered.Perm (tables.testRuns.filter wanted) ∧ NewestFirst ordered ∧
      rows = (ordered.drop offset.toNat).take limit.toNat

/-- The lists that `listRuns` may return. -/
def Lists (tables : Tables) (query : RunQuery) (runs : List TestRun) : Prop :=
  ∃ rows, Answers like tables query.conditions query.parameters rows ∧ runs = rows.map listedRun

theorem readWhere_parameters (query : RunQuery) : readWhere like query.conditions query.parameters =
    some (query.selects like,[.integer (max 1 query.limit),.integer (max 0 query.offset)]) := by
  have shape : query.selects like = fun row => (query.labelContains.all fun part => like (37 :: part ++ [37]) row.label) &&
      (query.since.all fun instant => toEpochMillis instant ≤ row.startedAtMs) &&
        query.untilTime.all fun instant => row.startedAtMs ≤ toEpochMillis instant := rfl
  rw [shape,RunQuery.conditions,RunQuery.parameters]
  cases query.labelContains <;> cases query.since <;> cases query.untilTime <;>
    simp [readWhere,Condition.test,Bool.and_assoc]

theorem lists_iff (tables : Tables) (query : RunQuery) (runs : List TestRun) : Lists like tables query runs ↔
    ∃ ordered : List RunRow, ordered.Perm (tables.testRuns.filter (query.selects like)) ∧ NewestFirst ordered ∧
      runs = ((ordered.drop (max 0 query.offset).toNat).take (max 1 query.limit).toNat).map listedRun := by
  constructor
  · rintro ⟨rows,⟨wanted,limit,offset,ordered,read,perm,newest,rfl⟩,rfl⟩
    rw [readWhere_parameters] at read
    cases read
    exact ⟨ordered,perm,newest,rfl⟩
  · rintro ⟨ordered,perm,newest,rfl⟩
    exact ⟨_,⟨_,_,_,ordered,readWhere_parameters like query,perm,newest,rfl⟩,rfl⟩

theorem lists_listRuns (tables : Tables) (query : RunQuery) : Lists like tables query (listRuns like tables query) := by
  rw [lists_iff]
  refine ⟨_,List.mergeSort_perm _ _,?_,rfl⟩
  have transitive (a b c : RunRow) (first : decide (b.startedAtMs ≤ a.startedAtMs) = true)
      (second : decide (c.startedAtMs ≤ b.startedAtMs) = true) : decide (c.startedAtMs ≤ a.startedAtMs) = true := by
    simp only [decide_eq_true_eq] at *
    omega
  have total (a b : RunRow) : (decide (b.startedAtMs ≤ a.startedAtMs) || decide (a.startedAtMs ≤ b.startedAtMs)) = true := by
    simp only [Bool.or_eq_true,decide_eq_true_eq]
    omega
  have order := List.pairwise_mergeSort transitive total (tables.testRuns.filter (query.selects like))
  exact order.imp fun below => of_decide_eq_true below

end Meaning

/-! ### Labels -/

open Utf8 (encode)

/-- The longest pattern in bytes that `LIKE` takes. -/
def maxPatternLength : Nat := 50000

/-- `LIKE` as SQLite documents it, for texts without NUL: '%' stands for any characters, '_' for one, any other
character for itself, where letters of ASCII have no case. -/
structure Documented (like : Bytes → Bytes → Bool) : Prop where
  reads : ∀ pattern text : List Char, 0 ∉ encode pattern → 0 ∉ encode text → (encode pattern).length ≤ maxPatternLength →
    (like (encode pattern) (encode text) = true ↔
      Glob.Matches '_' '%' (pattern.map Char.toLower) (text.map Char.toLower))

/-- The label has a part that the search text matches. -/
def Shows (search label : Bytes) : Prop :=
  ∃ pattern text : List Char, encode pattern = search ∧ encode text = label ∧
    ∃ part, part <:+: text.map Char.toLower ∧ Glob.Matches '_' '%' (pattern.map Char.toLower) part

/-- A text whose bytes mean characters to the database. -/
def IsText (text : Bytes) : Prop := Utf8.IsUtf8 text ∧ 0 ∉ text

theorem Documented.like_iff {like : Bytes → Bytes → Bool} (documented : Documented like) (search label : Bytes)
    (searched : IsText search) (labelled : IsText label) (short : search.length + 2 ≤ maxPatternLength) :
    like (37 :: search ++ [37]) label = true ↔ Shows search label := by
  have percent : String.utf8EncodeChar '%' = [37] := by decide
  have around : ∀ pattern : List Char, encode ('%' :: pattern ++ ['%']) = 37 :: encode pattern ++ [37] := by
    intro pattern
    simp [percent]
  have read : ∀ pattern text : List Char, encode pattern = search → encode text = label →
      (like (37 :: search ++ [37]) label = true ↔
        ∃ part, part <:+: text.map Char.toLower ∧ Glob.Matches '_' '%' (pattern.map Char.toLower) part) := by
    rintro pattern text rfl rfl
    have told := documented.reads ('%' :: pattern ++ ['%']) text
    rw [around] at told
    rw [told _ labelled.2 _,List.map_append,List.map_cons]
    · exact Glob.matches_around
    · simp [searched.2]
    · simp only [List.cons_append,List.length_cons,List.length_append,List.length_nil]
      omega
  constructor
  · intro liked
    obtain ⟨⟨pattern,first⟩,-⟩ := searched
    obtain ⟨⟨text,second⟩,-⟩ := labelled
    exact ⟨pattern,text,first,second,(read pattern text first second).mp liked⟩
  · rintro ⟨pattern,text,first,second,shown⟩
    exact (read pattern text first second).mpr shown

theorem toLower_other {c d : Char} (other : ¬('a' ≤ d ∧ d ≤ 'z')) (same : c.toLower = d) : c = d := by
  unfold Char.toLower at same
  split at same
  · next upper =>
    exfalso
    apply other
    subst same
    have low : 65 ≤ c.val.toNat := UInt32.le_iff_toNat_le.mp upper.1
    have high : c.val.toNat ≤ 90 := UInt32.le_iff_toNat_le.mp upper.2
    have lowered : (c.val + ('a'.val - 'A'.val)).toNat = c.val.toNat + 32 := by
      rw [UInt32.toNat_add]
      exact Nat.mod_eq_of_lt (by change c.val.toNat + 32 < _; omega)
    constructor
    · change 97 ≤ (c.val + ('a'.val - 'A'.val)).toNat
      omega
    · change (c.val + ('a'.val - 'A'.val)).toNat ≤ 122
      omega
  · exact same

theorem mem_of_mem_toLower {d : Char} {text : List Char} (other : ¬('a' ≤ d ∧ d ≤ 'z'))
    (member : d ∈ text.map Char.toLower) : d ∈ text := by
  obtain ⟨c,inside,same⟩ := List.mem_map.mp member
  exact toLower_other other same ▸ inside

theorem shows_plain (pattern text : List Char) (plain : '_' ∉ pattern ∧ '%' ∉ pattern) :
    Shows (encode pattern) (encode text) ↔ pattern.map Char.toLower <:+: text.map Char.toLower := by
  have letters : '_' ∉ pattern.map Char.toLower ∧ '%' ∉ pattern.map Char.toLower :=
    ⟨fun member => plain.1 (mem_of_mem_toLower (by decide) member),fun member =>
      plain.2 (mem_of_mem_toLower (by decide) member)⟩
  constructor
  · rintro ⟨p,t,first,second,part,inside,matched⟩
    obtain rfl := Utf8.encode_injective first
    obtain rfl := Utf8.encode_injective second
    rw [(Glob.matches_plain letters).mp matched] at inside
    exact inside
  · intro inside
    exact ⟨pattern,text,rfl,rfl,_,inside,(Glob.matches_plain letters).mpr rfl⟩

/-! ### What is listed -/

/-- A row that the query asks for; instants count in whole milliseconds. -/
structure Wanted (query : RunQuery) (row : RunRow) : Prop where
  label : ∀ search ∈ query.labelContains, Shows search row.label
  since : ∀ instant ∈ query.since, toEpochMillis instant ≤ row.startedAtMs
  untilTime : ∀ instant ∈ query.untilTime, row.startedAtMs ≤ toEpochMillis instant

/-- The runs asked for, the newest first, from the offset on, at most the limit and at least one. -/
def Asked (tables : Tables) (query : RunQuery) (runs : List TestRun) : Prop :=
  ∃ ordered others : List RunRow, (ordered ++ others).Perm tables.testRuns ∧ (∀ row ∈ ordered, Wanted query row) ∧
    (∀ row ∈ others, ¬Wanted query row) ∧ NewestFirst ordered ∧
      runs = ((ordered.drop (max 0 query.offset).toNat).take (max 1 query.limit).toNat).map listedRun

/-- The search text and the labels are texts that `LIKE` is documented for. -/
structure Readable (tables : Tables) (query : RunQuery) : Prop where
  search : ∀ search ∈ query.labelContains, IsText search ∧ search.length + 2 ≤ maxPatternLength
  labels : query.labelContains.isSome = true → ∀ row ∈ tables.testRuns, IsText row.label

theorem perm_filter_iff {α : Type} (chosen rows : List α) (select : α → Bool) : chosen.Perm (rows.filter select) ↔
    ∃ others, (chosen ++ others).Perm rows ∧ (∀ x ∈ chosen, select x = true) ∧ ∀ x ∈ others, select x = false := by
  constructor
  · intro perm
    refine ⟨rows.filter (!select ·),(perm.append_right _).trans (List.filter_append_perm select rows),?_,?_⟩
    · exact fun x member => (List.mem_filter.mp (perm.mem_iff.mp member)).2
    · exact fun x member => by simpa using (List.mem_filter.mp member).2
  · rintro ⟨others,perm,kept,left⟩
    have filtered := perm.filter select
    rwa [List.filter_append,List.filter_eq_self.mpr kept,List.filter_eq_nil_iff.mpr (by simpa using left),
      List.append_nil] at filtered

theorem selects_iff {like : Bytes → Bytes → Bool} (documented : Documented like) (tables : Tables) (query : RunQuery)
    (readable : Readable tables query) (row : RunRow) (stored : row ∈ tables.testRuns) :
    query.selects like row = true ↔ Wanted query row := by
  have label : (query.labelContains.all fun part => like (37 :: part ++ [37]) row.label) = true ↔
      ∀ search ∈ query.labelContains, Shows search row.label := by
    cases given : query.labelContains with
    | none => simp
    | some search =>
      obtain ⟨searched,short⟩ := readable.search search given
      have labelled := readable.labels (by rw [given]; rfl) row stored
      simpa using documented.like_iff search row.label searched labelled short
  have instants : ∀ (limit : Option TimePoint) (inside : TimePoint → Prop) [DecidablePred inside],
      (limit.all fun instant => decide (inside instant)) = true ↔ ∀ instant ∈ limit, inside instant := by
    intro limit inside _
    cases limit <;> simp
  rw [RunQuery.selects,Bool.and_eq_true,Bool.and_eq_true,label,instants,instants]
  constructor
  · rintro ⟨⟨first,second⟩,third⟩
    exact ⟨first,second,third⟩
  · intro wanted
    exact ⟨⟨wanted.label,wanted.since⟩,wanted.untilTime⟩

/-- `listRuns` returns the runs that the query asks for, with '%' and '_' in the search text as wildcards; a search
text without them stands for itself. -/
theorem listRuns_asked (like : Bytes → Bytes → Bool) (documented : Documented like) (tables : Tables) (query : RunQuery)
    (readable : Readable tables query) :
    (∀ runs, Lists like tables query runs ↔ Asked tables query runs) ∧ Lists like tables query (listRuns like tables query) ∧
    ∀ pattern text : List Char, '_' ∉ pattern ∧ '%' ∉ pattern →
      (Shows (encode pattern) (encode text) ↔ pattern.map Char.toLower <:+: text.map Char.toLower) := by
  refine ⟨fun runs => ?_,lists_listRuns like tables query,shows_plain⟩
  have agree := selects_iff documented tables query readable
  rw [lists_iff]
  constructor
  · rintro ⟨ordered,perm,newest,rfl⟩
    obtain ⟨others,whole,kept,left⟩ := (perm_filter_iff ordered tables.testRuns _).mp perm
    have stored : ∀ row, row ∈ ordered ∨ row ∈ others → row ∈ tables.testRuns := fun row member =>
      whole.mem_iff.mp (List.mem_append.mpr member)
    refine ⟨ordered,others,whole,?_,?_,newest,rfl⟩
    · exact fun row member => (agree row (stored row (.inl member))).mp (kept row member)
    · intro row member wanted
      have chosen := (agree row (stored row (.inr member))).mpr wanted
      rw [left row member] at chosen
      cases chosen
  · rintro ⟨ordered,others,whole,kept,left,newest,rfl⟩
    have stored : ∀ row, row ∈ ordered ∨ row ∈ others → row ∈ tables.testRuns := fun row member =>
      whole.mem_iff.mp (List.mem_append.mpr member)
    refine ⟨ordered,(perm_filter_iff ordered tables.testRuns _).mpr ⟨others,whole,?_,?_⟩,newest,rfl⟩
    · exact fun row member => (agree row (stored row (.inl member))).mpr (kept row member)
    · intro row member
      exact Bool.eq_false_iff.mpr fun chosen => left row member ((agree row (stored row (.inr member))).mp chosen)

/-! ### Searches -/

open Classical in
/-- `LIKE` as documented, wherever its documentation applies. -/
noncomputable def documentedLike (pattern text : Bytes) : Bool :=
  decide (∃ p t : List Char, encode p = pattern ∧ encode t = text ∧
    Glob.Matches '_' '%' (p.map Char.toLower) (t.map Char.toLower))

open Classical in
theorem documented_documentedLike : Documented documentedLike where
  reads pattern text _ _ _ := by
    constructor
    · intro liked
      obtain ⟨p,t,first,second,matched⟩ := of_decide_eq_true liked
      obtain rfl := Utf8.encode_injective first
      obtain rfl := Utf8.encode_injective second
      exact matched
    · exact fun matched => decide_eq_true ⟨pattern,text,rfl,rfl,matched⟩

def labelledRow (label : Bytes) (startedAtMs : Int) : RunRow where
  runId := label
  label
  startedAtMs
  workers := 1
  filter := []
  gitCommit := []
  hostname := []
  environmentJson := ascii "\x7b\x7d"

def twoRows : Tables := { testRuns := [labelledRow (ascii "Nightly") 1000,labelledRow (ascii "smoke") 2000] }

theorem isText_plain {text : Bytes} (plain : text.all (fun c => c != 0 && c.toNat.blt 128) = true) : IsText text := by
  rw [List.all_eq_true] at plain
  constructor
  · refine Utf8.isUtf8_small text (List.all_eq_true.mpr fun c member => ?_)
    exact (Bool.and_eq_true_iff.mp (plain c member)).2
  · intro member
    have other := (Bool.and_eq_true_iff.mp (plain 0 member)).1
    cases other

theorem readable_twoRows (query : RunQuery) (search : ∀ search ∈ query.labelContains, IsText search ∧
    search.length + 2 ≤ maxPatternLength) : Readable twoRows query where
  search := search
  labels _ row stored := by
    rcases List.mem_pair.mp stored with rfl | rfl
    · exact isText_plain rfl
    · exact isText_plain rfl

theorem listRuns_asked_nightly : Asked twoRows { labelContains := some (ascii "n_GHT"), limit := 3 }
    (listRuns documentedLike twoRows { labelContains := some (ascii "n_GHT"), limit := 3 }) := by
  have readable : Readable twoRows { labelContains := some (ascii "n_GHT"), limit := 3 } :=
    readable_twoRows _ fun search given => Option.mem_some_iff.mp given ▸ ⟨isText_plain rfl,by decide⟩
  have asked := listRuns_asked documentedLike documented_documentedLike twoRows _ readable
  exact (asked.1 _).mp asked.2.1

/-- The search text read as it stands, and instants to the nanosecond. -/
def WantedLiterally (query : RunQuery) (row : RunRow) : Prop :=
  (∀ search ∈ query.labelContains, contains (toLower row.label) (toLower search) = true) ∧
    (∀ instant ∈ query.since, instant ≤ fromEpochMillis row.startedAtMs) ∧
      ∀ instant ∈ query.untilTime, fromEpochMillis row.startedAtMs ≤ instant

/-- The same with the limit as it is given. -/
def AskedLiterally (tables : Tables) (query : RunQuery) (runs : List TestRun) : Prop :=
  ∃ ordered others : List RunRow, (ordered ++ others).Perm tables.testRuns ∧ (∀ row ∈ ordered, WantedLiterally query row) ∧
    (∀ row ∈ others, ¬WantedLiterally query row) ∧ NewestFirst ordered ∧
      runs = ((ordered.drop query.offset.toNat).take query.limit.toNat).map listedRun

theorem AskedLiterally.none {tables : Tables} {query : RunQuery} {runs : List TestRun}
    (asked : AskedLiterally tables query runs) (none : ∀ row ∈ tables.testRuns, ¬WantedLiterally query row) : runs = [] := by
  obtain ⟨ordered,others,whole,kept,-,-,rfl⟩ := asked
  have empty : ordered = [] := by
    apply List.eq_nil_iff_forall_not_mem.mpr
    intro row member
    exact none row (whole.mem_iff.mp (List.mem_append_left _ member)) (kept row member)
  rw [empty,List.drop_nil,List.take_nil,List.map_nil]

theorem listRuns_nonempty (like : Bytes → Bytes → Bool) (tables : Tables) (query : RunQuery) (row : RunRow)
    (stored : row ∈ tables.testRuns) (selected : query.selects like row = true) (start : query.offset = 0) :
    listRuns like tables query ≠ [] := by
  have sorted := (List.mergeSort_perm (tables.testRuns.filter (query.selects like))
    fun a b => b.startedAtMs ≤ a.startedAtMs).mem_iff.mpr
    (List.mem_filter.mpr ⟨stored,selected⟩)
  have positive : (max 1 query.limit).toNat ≠ 0 := by omega
  simp only [listRuns,start,max_self,Int.toNat_zero,List.drop_zero,ne_eq,List.map_eq_nil_iff,List.take_eq_nil_iff,positive,
    false_or]
  exact List.ne_nil_of_mem sorted

/-- '_' finds what does not hold it, a nanosecond is not told from the next, and a limit of 0 lets one run through. -/
theorem listRuns_not_literal :
    (Lists documentedLike twoRows { labelContains := some (ascii "_") }
        (listRuns documentedLike twoRows { labelContains := some (ascii "_") }) ∧
      ¬AskedLiterally twoRows { labelContains := some (ascii "_") }
        (listRuns documentedLike twoRows { labelContains := some (ascii "_") })) ∧
    ¬AskedLiterally twoRows { since := some 2000000001 } (listRuns documentedLike twoRows { since := some 2000000001 }) ∧
    ¬AskedLiterally twoRows { limit := 0 } (listRuns documentedLike twoRows { limit := 0 }) := by
  refine ⟨⟨lists_listRuns _ _ _,fun asked => ?_⟩,fun asked => ?_,fun asked => ?_⟩
  · have shown : Shows (ascii "_") (ascii "Nightly") :=
      ⟨['_'],"Nightly".toList,by decide,by decide,['n'],⟨[],"ightly".toList,by decide⟩,.any 'n' .nil⟩
    have liked : documentedLike (37 :: ascii "_" ++ [37]) (ascii "Nightly") = true :=
      (documented_documentedLike.like_iff _ _ (isText_plain rfl) (isText_plain rfl) (by decide)).mpr shown
    refine listRuns_nonempty _ _ _ (labelledRow (ascii "Nightly") 1000) List.mem_cons_self ?_ rfl (asked.none ?_)
    · simpa [RunQuery.selects,labelledRow] using liked
    · intro row stored wanted
      have held := wanted.1 _ rfl
      rcases List.mem_pair.mp stored with rfl | rfl
      · exact absurd held (by decide)
      · exact absurd held (by decide)
  · refine listRuns_nonempty _ _ _ (labelledRow (ascii "smoke") 2000) (by simp [twoRows]) (by decide) rfl (asked.none ?_)
    intro row stored wanted
    have later := wanted.2.1 _ rfl
    rcases List.mem_pair.mp stored with rfl | rfl
    · exact absurd later (by decide)
    · exact absurd later (by decide)
  · obtain ⟨ordered,others,-,-,-,-,runs⟩ := asked
    exact listRuns_nonempty documentedLike twoRows { limit := 0 } _ List.mem_cons_self rfl rfl (by rw [runs]; rfl)

end TestForge.SqliteResultRepository
