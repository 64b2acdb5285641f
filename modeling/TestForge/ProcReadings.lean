import Mathlib.Data.List.Find
import TestForge.DoubleRange
import TestForge.IntegerText
import TestForge.JsonAccess
import TestForge.KeyedRows
import TestForge.SampleStatistics

/-! Memory and processes as they are read out of the text files of the kernel. A file that cannot be
opened is nothing; of every other one what was in it when it was read is given. -/
namespace TestForge.Diagnostics

open Json Strings Sequence KeyedRows

/-! ### What is told -/

structure MemoryInfo where
  totalKb : Int := -1
  availableKb : Int := -1
  freeKb : Int := -1
  buffersKb : Int := -1
  cachedKb : Int := -1
  swapTotalKb : Int := -1
  swapFreeKb : Int := -1
  processRssKb : Int := -1

structure ProcessInfo where
  pid : Int := 0
  name : Bytes := []
  state : Bytes := []
  rssKb : Int := -1
  /-- Nothing when it is not known. -/
  cpuTimeSeconds : Option Double := none

/-- `setIfKnown` of an integer. -/
def ifKnown (key : Bytes) (value : Int) : List (Bytes × Value) := if 0 ≤ value then [(key,.int value)] else []

/-- And that of a double, which is at least zero where it is known. -/
def ifMeasured (key : Bytes) (value : Option Double) : List (Bytes × Value) :=
  match value with
  | some d => if d.negative && d.units ≠ 0 then [] else [(key,.double d)]
  | none => []

def ifNotEmpty (key value : Bytes) : List (Bytes × Value) := if value = [] then [] else [(key,.string value)]

namespace MemoryInfo

/-- Nothing when it is not known. -/
def usedPercent (info : MemoryInfo) : Option Double :=
  if info.totalKb ≤ 0 ∨ info.availableKb < 0 then none
  else some (((Double.ofInt 100).mul (.ofInt (info.totalKb - info.availableKb))).div (.ofInt info.totalKb))

/-- The members with the integers they tell. -/
def members (info : MemoryInfo) : List (Bytes × Int) := [
  (ascii "total_kb",info.totalKb),
  (ascii "available_kb",info.availableKb),
  (ascii "free_kb",info.freeKb),
  (ascii "buffers_kb",info.buffersKb),
  (ascii "cached_kb",info.cachedKb),
  (ascii "swap_total_kb",info.swapTotalKb),
  (ascii "swap_free_kb",info.swapFreeKb),
  (ascii "process_rss_kb",info.processRssKb)]

def toJson (info : MemoryInfo) : Value := .object ((info.members.flatMap fun member => ifKnown member.1 member.2) ++
  ifMeasured (ascii "used_percent") info.usedPercent)

end MemoryInfo

def ProcessInfo.toJson (info : ProcessInfo) : Value := .object ([
  (ascii "pid",.int info.pid),
  (ascii "name",.string info.name)] ++
  ifNotEmpty (ascii "state") info.state ++
  ifKnown (ascii "rss_kb") info.rssKb ++
  ifMeasured (ascii "cpu_time_seconds") info.cpuTimeSeconds)

/-! ### What is read -/

namespace LinuxDiagnosticProvider

/-- The line starts with the key and a colon. -/
def hasKey (key text : Bytes) : Bool := startsWith text key && text[key.length]? = some 58

/-- The first run of digits. -/
def firstDigits (text : Bytes) : Bytes := (text.dropWhile fun c => !isDigit c).takeWhile isDigit

def parseMemInfoValue (content key : Bytes) : Int :=
  match (content.splitOn 10).find? (hasKey key) with
  | none => -1
  | some line =>
    let digits := firstDigits (line.drop (key.length + 1))
    if digits = [] then -1 else (parseInt digits).getD (-1)

def readMemoryInfo (meminfo status : Option Bytes) : MemoryInfo :=
  let read := fun key : String => (meminfo.map fun content => parseMemInfoValue (content.take 65536) (ascii key)).getD (-1)
  { totalKb := read "MemTotal"
    availableKb := read "MemAvailable"
    freeKb := read "MemFree"
    buffersKb := read "Buffers"
    cachedKb := read "Cached"
    swapTotalKb := read "SwapTotal"
    swapFreeKb := read "SwapFree"
    processRssKb := (status.map fun content => parseMemInfoValue (content.take 65536) (ascii "VmRSS")).getD (-1) }

/-- An entry of `/proc` with what its two files held; the second is read up to the end of its first line. -/
structure Entry where
  name : Bytes
  status : Option Bytes := none
  stat : Option Bytes := none

/-- The last line with the key counts. -/
def lastValue (lines : List Bytes) (key : Bytes) : Option Bytes :=
  (lines.reverse.find? fun line => startsWith line key).map fun line => trim (line.drop key.length)

/-- The sum of fields 14 and 15, counted from one; the name in the second may hold blanks and parentheses. -/
def cpuTicks (stat : Bytes) : Option Int :=
  (cutLast 41 stat).bind fun parts =>
    let fields := split parts.2 32 true
    if 14 ≤ fields.length then
      some (((fields[11]?.bind parseInt).getD 0) + ((fields[12]?.bind parseInt).getD 0))
    else none

def firstLine (content : Bytes) : Option Bytes := if content = [] then none else some (content.takeWhile (· ≠ 10))

def readProcess (ticksPerSecond : Int) (entry : Entry) : Option ProcessInfo :=
  if entry.name = [] ∨ entry.name.any (fun c => !isDigit c) then none
  else
    (parseInt entry.name).bind fun pid =>
      entry.status.map fun content =>
        let status := content.take 32768
        { pid := (Int32.ofInt pid).toInt
          name := (lastValue (splitLines status) (ascii "Name:")).getD []
          state := (lastValue (splitLines status) (ascii "State:")).getD []
          rssKb := parseMemInfoValue status (ascii "VmRSS")
          cpuTimeSeconds := if 0 < ticksPerSecond then
            ((entry.stat.bind firstLine).bind cpuTicks).map fun ticks => (Double.ofInt ticks).div (.ofInt ticksPerSecond)
            else none }

def readTopProcesses (ticksPerSecond limit : Int) (proc : List Entry) : List ProcessInfo :=
  let ranked := descending ProcessInfo.rssKb (proc.filterMap (readProcess ticksPerSecond))
  if 0 < limit ∧ limit < ranked.length then ranked.take limit.toNat else ranked

/-! ### Keyed lines -/

/-- What a file of the kernel says: a key and what is behind its colon, line by line. -/
def written (rows : List (Bytes × Bytes)) : Bytes := rows.flatMap fun row => (row.1 ++ 58 :: row.2) ++ [10]

structure Proper (row : Bytes × Bytes) : Prop where
  key : 58 ∉ row.1 ∧ 10 ∉ row.1
  value : 10 ∉ row.2

theorem splitOn_written (rows : List (Bytes × Bytes)) (proper : ∀ row ∈ rows, Proper row) :
    (written rows).splitOn 10 = (rows.map fun row => row.1 ++ 58 :: row.2) ++ [[]] := by
  have pieces := splitOn_ended 10 (rows.map fun row => row.1 ++ 58 :: row.2) (by
    intro line member
    obtain ⟨row,listed,rfl⟩ := List.mem_map.mp member
    simp [(proper row listed).key.2,(proper row listed).value])
  rw [← pieces,List.flatMap_map]
  rfl

/-- Neither holds a colon, so the line starts with the key and a colon only where it is its own. -/
theorem startsWith_keyed (key name rest : Bytes) (plain : 58 ∉ key) (fresh : 58 ∉ name) :
    startsWith (name ++ 58 :: rest) (key ++ [58]) = true ↔ name = key := by
  rw [startsWith,List.isPrefixOf_iff_prefix]
  constructor
  · rintro ⟨more,whole⟩
    have left := cut_append 58 name rest fresh
    rw [← whole,List.append_assoc,List.singleton_append,cut_append 58 key more plain] at left
    exact (congrArg Prod.fst (Option.some.inj left)).symm
  · rintro rfl
    exact ⟨rest,by simp⟩

theorem hasKey_eq (key line : Bytes) : hasKey key line = startsWith line (key ++ [58]) := by
  apply Bool.eq_iff_iff.mpr
  rw [hasKey,Bool.and_eq_true,decide_eq_true_eq,startsWith,startsWith,List.isPrefixOf_iff_prefix,List.isPrefixOf_iff_prefix]
  constructor
  · rintro ⟨⟨more,rfl⟩,colon⟩
    cases more with
    | nil => simp at colon
    | cons c more =>
      obtain rfl : c = 58 := by simpa using colon
      exact ⟨more,by simp⟩
  · rintro ⟨more,rfl⟩
    exact ⟨⟨58 :: more,by simp⟩,by simp⟩

/-- The number in a value, when there is one and it has 64 bits. -/
def number (value : Bytes) : Option Int := if firstDigits value = [] then none else parseInt (firstDigits value)

/-- The first row with the key counts. -/
def told (rows : List (Bytes × Bytes)) (key : Bytes) : Option Int := (lookup Prod.fst rows key).bind fun row => number row.2

theorem parseMemInfoValue_written (rows : List (Bytes × Bytes)) (proper : ∀ row ∈ rows, Proper row)
    (key : Bytes) (plain : 58 ∉ key) : parseMemInfoValue (written rows) key = (told rows key).getD (-1) := by
  have same : ((written rows).splitOn 10).find? (hasKey key) = (lookup Prod.fst rows key).map
      fun row => row.1 ++ 58 :: row.2 := by
    have behind : hasKey key [] = false := by simp [hasKey]
    rw [splitOn_written rows proper,List.find?_append,List.find?_map]
    have keys : rows.find? (hasKey key ∘ fun row => row.1 ++ 58 :: row.2) = lookup Prod.fst rows key := by
      apply List.find?_congr
      intro row member
      have own := startsWith_keyed key row.1 row.2 plain (proper row member).key.1
      simp only [Function.comp_apply,hasKey_eq]
      exact Bool.eq_iff_iff.mpr (own.trans (by simp))
    rw [keys]
    simp [behind]
  rw [parseMemInfoValue,same,told]
  cases found : lookup Prod.fst rows key with
  | none => rfl
  | some row =>
    have mine : row.1 = key := (lookup_key Prod.fst found).2
    have rest : (row.1 ++ 58 :: row.2).drop (key.length + 1) = row.2 := by simp [mine]
    simp only [Option.map_some,Option.bind_some,rest,number]
    split <;> rfl

/-! ### A process -/

theorem trim_tab (text : Bytes) : trim (9 :: text) = trim text := by simp [trim,isSpace]

theorem trim_stripCarriageReturn (text : Bytes) : trim (stripCarriageReturn text) = trim text := by
  rw [stripCarriageReturn]
  split
  · next last =>
    obtain ⟨front,rfl⟩ := List.getLast?_eq_some_iff.mp last
    rw [List.dropLast_concat,trim,trim]
    by_cases blank : ∀ c ∈ front, isSpace c = true
    · have all : ∀ c ∈ front ++ [13], isSpace c = true := by simpa [or_imp,forall_and] using ⟨blank,by decide⟩
      rw [List.dropWhile_eq_nil_iff.mpr blank,List.dropWhile_eq_nil_iff.mpr all]
    · have more : (front ++ [13]).dropWhile isSpace = front.dropWhile isSpace ++ [13] := by
        have visible : front.dropWhile isSpace ≠ [] := fun empty => blank (List.dropWhile_eq_nil_iff.mp empty)
        rw [List.dropWhile_append,List.isEmpty_eq_false_iff.mpr visible]
        rfl
      rw [more,List.rdropWhile_concat_pos _ _ _ (by decide)]
  · rfl

theorem stripCarriageReturn_concat (front : Bytes) (c : UInt8) :
    stripCarriageReturn (front ++ [c]) = if c = 13 then front else front ++ [c] := by
  simp [stripCarriageReturn]

theorem stripCarriageReturn_keyed (key value : Bytes) :
    stripCarriageReturn (key ++ 58 :: value) = key ++ 58 :: stripCarriageReturn value := by
  rcases List.eq_nil_or_concat' value with rfl | ⟨front,last,rfl⟩
  · exact stripCarriageReturn_concat key 58
  · have shape : key ++ 58 :: (front ++ [last]) = (key ++ 58 :: front) ++ [last] := by simp
    rw [shape,stripCarriageReturn_concat,stripCarriageReturn_concat]
    by_cases feed : last = 13 <;> simp [feed]

/-- With every key there once it does not matter from which end one looks. -/
theorem lastValue_written (rows : List (Bytes × Bytes)) (proper : ∀ row ∈ rows, Proper row)
    (unique : Unique Prod.fst rows) (row : Bytes × Bytes) (member : row ∈ rows) :
    lastValue (splitLines (written rows)) (row.1 ++ [58]) = some (trim row.2) := by
  have fresh : ∀ other ∈ rows, 58 ∉ other.1 := fun other inside => (proper other inside).key.1
  have lines : splitLines (written rows) = rows.map fun row => row.1 ++ 58 :: stripCarriageReturn row.2 := by
    simp [splitLines,split,splitOn_written rows proper,stripCarriageReturn_keyed,Function.comp_def]
    simp [stripCarriageReturn]
  have backwards : rows.reverse.find? ((fun line => startsWith line (row.1 ++ [58])) ∘
      fun other => other.1 ++ 58 :: stripCarriageReturn other.2) = some row := by
    have keys : Unique Prod.fst rows.reverse := by simpa [KeyedRows.Unique] using unique
    rw [← keys.lookup_mem Prod.fst (List.mem_reverse.mpr member)]
    apply List.find?_congr
    intro other inside
    have own := startsWith_keyed row.1 other.1 (stripCarriageReturn other.2) (fresh row member)
      (fresh other (List.mem_reverse.mp inside))
    exact Bool.eq_iff_iff.mpr (own.trans (by simp))
  have rest : (row.1 ++ 58 :: stripCarriageReturn row.2).drop (row.1.length + 1) = stripCarriageReturn row.2 := by simp
  rw [lastValue,lines,← List.map_reverse,List.find?_map,backwards,Option.map_some,Option.map_some,List.length_append,
    List.length_singleton,rest,trim_stripCarriageReturn]

/-- A number among blanks, with a unit behind it. -/
theorem number_padded (blanks : Bytes) (blank : ∀ c ∈ blanks, isSpace c = true) (n : Nat) (small : n < 2^63) :
    number (blanks ++ decimal n ++ ascii " kB") = some (n : Int) := by
  have digits : firstDigits (blanks ++ decimal n ++ ascii " kB") = decimal n := by
    have skipped : ∀ c ∈ blanks, (!isDigit c) = true := by
      intro c inside
      have space := blank c inside
      simp only [isSpace,isDigit] at space ⊢
      grind
    have unit : (ascii " kB").takeWhile isDigit = [] := by decide
    have front : (decimal n ++ ascii " kB").dropWhile (fun c => !isDigit c) = decimal n ++ ascii " kB" := by
      cases shown : decimal n with
      | nil => exact absurd shown (decimal_ne_nil n)
      | cons c rest =>
        have digit := isDigit_decimal n c (by simp [shown])
        simp [digit]
    rw [firstDigits,List.append_assoc,List.dropWhile_append_of_pos skipped,front,
      List.takeWhile_append_of_pos (isDigit_decimal n),unit,List.append_nil]
  rw [number,digits,if_neg (decimal_ne_nil n),parseInt_decimal n small]

theorem mem_join {c : UInt8} {parts : List Bytes} {separator : Bytes} (inside : c ∈ join parts separator) :
    c ∈ separator ∨ ∃ part ∈ parts, c ∈ part := by
  rw [join] at inside
  induction parts with
  | nil => simp at inside
  | cons part rest ih =>
    by_cases last : rest = []
    · rw [last,List.intercalate_singleton] at inside
      exact .inr ⟨part,List.mem_cons_self,inside⟩
    · rw [List.intercalate_cons_of_ne_nil last,List.mem_append,List.mem_append] at inside
      rcases inside with (first | between) | later
      · exact .inr ⟨part,List.mem_cons_self,first⟩
      · exact .inl between
      · exact (ih later).imp_right fun ⟨other,member,found⟩ => ⟨other,List.mem_cons_of_mem _ member,found⟩

/-- The fields behind the last parenthesis of the line; the name before it may hold anything but a line feed. -/
theorem cpuTicks_line (pid name : Bytes) (fields : List Bytes)
    (plain : ∀ field ∈ fields, field ≠ [] ∧ 32 ∉ field ∧ 41 ∉ field) (long : 14 ≤ fields.length) (user system : Nat)
    (times : fields[11]? = some (decimal user) ∧ fields[12]? = some (decimal system)) (small : user + system < 2^63) :
    cpuTicks (pid ++ ascii " (" ++ name ++ ascii ") " ++ join fields [32]) = some ((user + system : Nat) : Int) := by
  have present : fields ≠ [] := by
    rintro rfl
    simp at long
  have fresh : 41 ∉ 32 :: join fields [32] := by
    intro inside
    rcases List.mem_cons.mp inside with same | inside
    · cases same
    · rcases mem_join inside with blank | ⟨field,member,found⟩
      · simp at blank
      · exact (plain field member).2.2 found
  have cut := cutLast_append 41 (pid ++ ascii " (" ++ name) (32 :: join fields [32]) fresh
  have shape : pid ++ ascii " (" ++ name ++ ascii ") " ++ join fields [32] =
      (pid ++ ascii " (" ++ name) ++ 41 :: 32 :: join fields [32] := by
    have close : ascii ") " = [41,32] := by decide
    rw [close,List.append_assoc]
    rfl
  have pieces : split (32 :: join fields [32]) 32 true = fields := by
    have parts : (join fields [32]).splitOn 32 = fields := by
      apply List.splitOn_intercalate
      · exact fun field member => (plain field member).2.1
      · exact present
    have front : (32 :: join fields [32]).splitOn 32 = [] :: fields := by
      have first := List.splitOn_append_cons_self_of_not_mem (List.not_mem_nil (a := (32 : UInt8))) (join fields [32])
      rw [List.nil_append,parts] at first
      exact first
    have kept : fields.filter (· ≠ []) = fields :=
      List.filter_eq_self.mpr fun field member => by simpa using (plain field member).1
    rw [split,if_pos rfl,front]
    simpa using kept
  simp only [cpuTicks,shape,cut,Option.bind_some,pieces,times.1,times.2,if_pos long]
  rw [parseInt_decimal user (by omega),parseInt_decimal system (by omega)]
  simp

/-- What the kernel knows of a process; one of its own has no resident memory. The times are not known
any more when it has gone before its second file is read. -/
structure Process where
  pid : Nat
  name : Bytes
  state : Bytes
  resident : Option Nat
  times : Option (Nat × Nat)

namespace Process

variable (process : Process)

/-- The keyed lines of its status, in any order. -/
structure Status (rows : List (Bytes × Bytes)) : Prop where
  proper : ∀ row ∈ rows, Proper row
  unique : KeyedRows.Unique Prod.fst rows
  name : (ascii "Name",9 :: process.name) ∈ rows
  state : (ascii "State",9 :: process.state) ∈ rows
  resident : ∀ n ∈ process.resident, ∃ blanks, (∀ c ∈ blanks, isSpace c = true) ∧
    (ascii "VmRSS",blanks ++ decimal n ++ ascii " kB") ∈ rows
  absent : process.resident = none → ascii "VmRSS" ∉ rows.map Prod.fst

/-- The line of its times, behind a name that may hold blanks and parentheses. -/
structure Stat (user system : Nat) (name : Bytes) (fields : List Bytes) : Prop where
  name : 10 ∉ name
  plain : ∀ field ∈ fields, field ≠ [] ∧ 32 ∉ field ∧ 41 ∉ field ∧ 10 ∉ field
  long : 14 ≤ fields.length
  user : fields[11]? = some (decimal user)
  system : fields[12]? = some (decimal system)

/-- An entry of the directory that shows the process. -/
structure Shows (entry : Entry) : Prop where
  name : entry.name = decimal process.pid
  pid : process.pid < 2^31
  status : ∃ rows, process.Status rows ∧ entry.status = some (written rows) ∧ (written rows).length ≤ 32768
  resident : ∀ n ∈ process.resident, n < 2^63
  gone : process.times = none → entry.stat = none
  times : ∀ user system, process.times = some (user,system) → user + system < 2^63 ∧ ∃ name fields,
    Stat user system name fields ∧
      entry.stat = some (decimal process.pid ++ ascii " (" ++ name ++ ascii ") " ++ join fields [32] ++ [10])

/-- What is told of it. -/
def info (ticksPerSecond : Int) : ProcessInfo where
  pid := process.pid
  name := trim process.name
  state := trim process.state
  rssKb := (process.resident.map Nat.cast).getD (-1)
  cpuTimeSeconds := if 0 < ticksPerSecond then
    process.times.map fun times => (Double.ofInt ((times.1 + times.2 : Nat) : Int)).div (.ofInt ticksPerSecond)
    else none

variable {process}

theorem Status.name_read {rows : List (Bytes × Bytes)} (status : process.Status rows) :
    lastValue (splitLines (written rows)) (ascii "Name:") = some (trim process.name) :=
  (lastValue_written rows status.proper status.unique _ status.name).trans (congrArg some (trim_tab process.name))

theorem Status.state_read {rows : List (Bytes × Bytes)} (status : process.Status rows) :
    lastValue (splitLines (written rows)) (ascii "State:") = some (trim process.state) :=
  (lastValue_written rows status.proper status.unique _ status.state).trans (congrArg some (trim_tab process.state))

theorem Status.resident_read {rows : List (Bytes × Bytes)} (status : process.Status rows)
    (small : ∀ n ∈ process.resident, n < 2^63) :
    parseMemInfoValue (written rows) (ascii "VmRSS") = (process.resident.map Nat.cast).getD (-1) := by
  rw [parseMemInfoValue_written rows status.proper _ (by decide),told]
  cases known : process.resident with
  | none =>
    rw [(lookup_none Prod.fst rows _).mpr (status.absent known)]
    rfl
  | some n =>
    obtain ⟨blanks,blank,member⟩ := status.resident n known
    rw [status.unique.lookup_mem Prod.fst member,Option.bind_some,number_padded blanks blank n (small n known)]
    rfl

/-- The line ends at its line feed. -/
theorem Stat.read {user system : Nat} {name : Bytes} {fields : List Bytes} (stat : Stat user system name fields)
    (pid : Nat) (small : user + system < 2^63) :
    (firstLine (decimal pid ++ ascii " (" ++ name ++ ascii ") " ++ join fields [32] ++ [10])).bind cpuTicks =
      some ((user + system : Nat) : Int) := by
  have feedless : 10 ∉ decimal pid ++ ascii " (" ++ name ++ ascii ") " ++ join fields [32] := by
    have digits : 10 ∉ decimal pid := fun inside => by simpa [isDigit] using isDigit_decimal pid 10 inside
    have joined : 10 ∉ join fields [32] := by
      intro inside
      rcases mem_join inside with blank | ⟨field,member,found⟩
      · simp at blank
      · exact (stat.plain field member).2.2.2 found
    have before : (10 : UInt8) ∉ ascii " (" := by decide
    have after : (10 : UInt8) ∉ ascii ") " := by decide
    simp [digits,joined,before,after,stat.name]
  generalize shown : decimal pid ++ ascii " (" ++ name ++ ascii ") " ++ join fields [32] = line at feedless ⊢
  have front : firstLine (line ++ [10]) = some line := by
    have kept : line.takeWhile (· ≠ 10) = line := by
      apply List.takeWhile_eq_self_iff.mpr
      intro c inside
      simpa using fun same : c = 10 => feedless (same ▸ inside)
    rw [firstLine,if_neg (by simp),List.takeWhile_append,kept]
    simp
  rw [front,Option.bind_some,← shown]
  have plain : ∀ field ∈ fields, field ≠ [] ∧ 32 ∉ field ∧ 41 ∉ field := by
    intro field member
    obtain ⟨named,blank,paren,-⟩ := stat.plain field member
    exact ⟨named,blank,paren⟩
  exact cpuTicks_line (decimal pid) name fields plain
    stat.long user system ⟨stat.user,stat.system⟩ small

theorem Shows.read {entry : Entry} (shows : process.Shows entry) (ticksPerSecond : Int) :
    readProcess ticksPerSecond entry = some (process.info ticksPerSecond) := by
  obtain ⟨rows,status,content,short⟩ := shows.status
  have numeric : ¬(entry.name = [] ∨ entry.name.any (fun c => !isDigit c) = true) := by
    rw [shows.name,not_or]
    refine ⟨decimal_ne_nil _,?_⟩
    simpa using isDigit_decimal process.pid
  have pid : (Int32.ofInt process.pid).toInt = process.pid := by
    have bound := shows.pid
    apply Int32.toInt_ofInt_of_le <;> omega
  have times : ((entry.stat.bind firstLine).bind cpuTicks) =
      process.times.map fun times => ((times.1 + times.2 : Nat) : Int) := by
    cases known : process.times with
    | none => simp [shows.gone known]
    | some times =>
      obtain ⟨small,name,fields,stat,line⟩ := shows.times times.1 times.2 known
      rw [line,Option.bind_some,stat.read process.pid small,Option.map_some]
  have wide : process.pid < 2^63 := lt_trans shows.pid (by decide)
  rw [readProcess,if_neg numeric,shows.name,parseInt_decimal _ wide,Option.bind_some,content,Option.map_some]
  simp only [List.take_of_length_le short,status.name_read,status.state_read,status.resident_read shows.resident,times,pid,
    Option.getD_some,Option.map_map]
  rfl

end Process

/-- The directory shows some processes, among entries of another name and processes that have gone. -/
inductive Listed : List Entry → List Process → Prop
  | nil : Listed [] []
  | process {entry entries process processes} (shows : Process.Shows process entry) (rest : Listed entries processes) :
      Listed (entry :: entries) (process :: processes)
  | other {entry entries processes} (foreign : (∃ c ∈ entry.name, isDigit c = false) ∨ entry.status = none)
      (rest : Listed entries processes) : Listed (entry :: entries) processes

theorem Listed.read {entries : List Entry} {processes : List Process} (listed : Listed entries processes)
    (ticksPerSecond : Int) :
    entries.filterMap (readProcess ticksPerSecond) = processes.map (·.info ticksPerSecond) := by
  induction listed with
  | nil => rfl
  | process shows rest ih => rw [List.filterMap_cons,shows.read,ih,List.map_cons]
  | @other entry entries processes foreign rest ih =>
    have skipped : readProcess ticksPerSecond entry = none := by
      rw [readProcess]
      rcases foreign with ⟨c,inside,letter⟩ | gone
      · exact if_pos (.inr (List.any_eq_true.mpr ⟨c,inside,by simp [letter]⟩))
      · split
        · rfl
        · simp [gone]
    rw [List.filterMap_cons,skipped,ih]

/-! ### What is not known is not told -/

theorem find_append (front behind : List (Bytes × Value)) (key : Bytes) :
    (Value.object (front ++ behind)).find key = ((Value.object front).find key).or ((Value.object behind).find key) := by
  simp only [Value.find,List.find?_append]
  cases front.find? (·.1 = key) <;> rfl

theorem find_other {members : List (Bytes × Value)} {key : Bytes} (other : ∀ member ∈ members, member.1 ≠ key) :
    (Value.object members).find key = none := by
  rw [Value.find,Option.map_eq_none_iff,List.find?_eq_none]
  simpa using fun k value inside => other (k,value) inside

theorem key_ifKnown {key : Bytes} {value : Int} {member : Bytes × Value} (inside : member ∈ ifKnown key value) :
    member.1 = key := by
  rw [ifKnown] at inside
  split at inside <;> simp_all

theorem key_ifMeasured {key : Bytes} {value : Option Double} {member : Bytes × Value}
    (inside : member ∈ ifMeasured key value) : member.1 = key := by
  cases value with
  | none => cases inside
  | some d =>
    simp only [ifMeasured] at inside
    split at inside <;> simp_all

theorem key_ifNotEmpty {key value : Bytes} {member : Bytes × Value} (inside : member ∈ ifNotEmpty key value) :
    member.1 = key := by
  rw [ifNotEmpty] at inside
  split at inside <;> simp_all

theorem find_known (members : List (Bytes × Int)) (unique : KeyedRows.Unique Prod.fst members) (key : Bytes) :
    (Value.object (members.flatMap fun member => ifKnown member.1 member.2)).find key =
      (lookup Prod.fst members key).bind fun member => if 0 ≤ member.2 then some (.int member.2) else none := by
  induction members with
  | nil => rfl
  | cons member rest ih =>
    obtain ⟨fresh,others⟩ := List.nodup_cons.mp unique
    rw [List.flatMap_cons,find_append,ih others]
    by_cases mine : member.1 = key
    · have behind : lookup Prod.fst rest key = none := (lookup_none Prod.fst rest key).mpr (mine ▸ fresh)
      have here : lookup Prod.fst (member :: rest) key = some member := by simp [lookup,mine]
      rw [behind,here]
      by_cases known : 0 ≤ member.2 <;> simp [ifKnown,known,Value.find,mine]
    · have here : lookup Prod.fst (member :: rest) key = lookup Prod.fst rest key := by simp [lookup,mine]
      rw [here]
      by_cases known : 0 ≤ member.2 <;> simp [ifKnown,known,Value.find,mine]

/-- A quotient that is not negative is told. -/
theorem ifMeasured_div (key : Bytes) (a b : Double) (front : a.negative = false) (behind : b.negative = false) :
    ifMeasured key (some (a.div b)) = [(key,.double (a.div b))] := by
  have sign : (a.div b).negative = false := by
    rw [Double.div,(Double.ofRatio_fields _ _ _).1,front,behind]
    rfl
  rw [ifMeasured,sign]
  rfl

theorem ofInt_positive (z : Int) (positive : 0 ≤ z) : (Double.ofInt z).negative = false := by
  rw [Double.ofInt,(Double.ofRatio_fields _ _ _).1]
  exact decide_eq_false (by omega)

theorem number_positive {value : Bytes} {n : Int} (read : number value = some n) : 0 ≤ n := by
  rw [number] at read
  split at read
  · cases read
  · next named =>
    let digits : Digits := ⟨firstDigits value,named,fun c inside => List.mem_takeWhile_imp inside⟩
    have whole : trim digits.text = digits.text := trim_signed none digits (by simp)
    have integer : IsInteger digits.text (digitsValue digits.text) := ⟨none,digits,by simp,whole,rfl⟩
    have parsed : parseInt digits.text = some n := read
    rw [parseInt_integer _ _ integer] at parsed
    split at parsed
    · cases parsed
      omega
    · cases parsed

theorem told_positive {rows : List (Bytes × Bytes)} {key : Bytes} {n : Int} (read : told rows key = some n) : 0 ≤ n := by
  obtain ⟨row,-,number⟩ := Option.bind_eq_some_iff.mp read
  exact number_positive number

/-- The memory and the time of a process are there where they are known. -/
theorem info_told (process : Process) (ticksPerSecond : Int) :
    (process.info ticksPerSecond).toJson.find (ascii "rss_kb") = process.resident.map (fun n => .int n) ∧
      (process.info ticksPerSecond).toJson.find (ascii "cpu_time_seconds") =
        if 0 < ticksPerSecond then process.times.map fun times =>
          .double ((Double.ofInt ((times.1 + times.2 : Nat) : Int)).div (.ofInt ticksPerSecond)) else none := by
  have named : ∀ key, key = ascii "rss_kb" ∨ key = ascii "cpu_time_seconds" →
      (Value.object ([(ascii "pid",.int (process.info ticksPerSecond).pid),
        (ascii "name",.string (process.info ticksPerSecond).name)] ++
        ifNotEmpty (ascii "state") (process.info ticksPerSecond).state)).find key = none := by
    intro key wanted
    apply find_other
    intro member inside same
    have keys : member.1 = ascii "pid" ∨ member.1 = ascii "name" ∨ member.1 = ascii "state" := by
      rcases List.mem_append.mp inside with front | behind
      · rcases List.mem_pair.mp front with rfl | rfl
        · exact .inl rfl
        · exact .inr (.inl rfl)
      · exact .inr (.inr (key_ifNotEmpty behind))
    rw [same] at keys
    rcases wanted with rfl | rfl <;> revert keys <;> decide
  constructor
  · have last : (Value.object (ifMeasured (ascii "cpu_time_seconds") (process.info ticksPerSecond).cpuTimeSeconds)).find
        (ascii "rss_kb") = none := by
      apply find_other
      intro member inside
      rw [key_ifMeasured inside]
      decide
    have own : (Value.object (ifKnown (ascii "rss_kb") (process.info ticksPerSecond).rssKb)).find (ascii "rss_kb") =
        process.resident.map (fun n => .int n) := by
      cases known : process.resident with
      | none => simp [Process.info,known,ifKnown,Value.find]
      | some n => simp [Process.info,known,ifKnown,Value.find]
    rw [ProcessInfo.toJson,find_append,find_append,named _ (.inl rfl),own,last,Option.none_or,Option.or_none]
  · have first : (Value.object (ifKnown (ascii "rss_kb") (process.info ticksPerSecond).rssKb)).find
        (ascii "cpu_time_seconds") = none := by
      apply find_other
      intro member inside
      rw [key_ifKnown inside]
      decide
    have own : (Value.object (ifMeasured (ascii "cpu_time_seconds") (process.info ticksPerSecond).cpuTimeSeconds)).find
        (ascii "cpu_time_seconds") = if 0 < ticksPerSecond then process.times.map fun times =>
          .double ((Double.ofInt ((times.1 + times.2 : Nat) : Int)).div (.ofInt ticksPerSecond)) else none := by
      by_cases clock : 0 < ticksPerSecond
      · cases known : process.times with
        | none => simp [Process.info,known,ifMeasured,Value.find]
        | some times =>
          have measured := ifMeasured_div (ascii "cpu_time_seconds")
            (.ofInt ((times.1 + times.2 : Nat) : Int)) (.ofInt ticksPerSecond)
            (ofInt_positive _ (Int.natCast_nonneg _)) (ofInt_positive _ clock.le)
          simp only [Process.info,known,if_pos clock,Option.map_some,measured]
          simp [Value.find]
      · simp [Process.info,clock,ifMeasured,Value.find]
    rw [ProcessInfo.toJson,find_append,find_append,named _ (.inr rfl),first,own,Option.none_or,Option.none_or]

/-- No more are kept than the limit, where there is one. -/
theorem readTopProcesses_top (ticksPerSecond limit : Int) {entries : List Entry} {processes : List Process}
    (listed : Listed entries processes) :
    Sequence.IsTop ProcessInfo.rssKb (if 0 < limit then limit.toNat else processes.length)
      (processes.map (·.info ticksPerSecond)) (readTopProcesses ticksPerSecond limit entries) := by
  have many := (descending_perm ProcessInfo.rssKb (processes.map (·.info ticksPerSecond))).length_eq
  rw [readTopProcesses,listed.read]
  by_cases bounded : 0 < limit
  · rw [if_pos bounded]
    split
    · exact isTop_take _ _ _
    · next whole =>
      have all : (descending ProcessInfo.rssKb (processes.map (·.info ticksPerSecond))).take limit.toNat =
          descending ProcessInfo.rssKb (processes.map (·.info ticksPerSecond)) := by
        apply List.take_of_length_le
        omega
      have top := isTop_take ProcessInfo.rssKb limit.toNat (processes.map (·.info ticksPerSecond))
      rwa [all] at top
  · have unbounded : ¬(0 < limit ∧ limit < (descending ProcessInfo.rssKb
        (processes.map (·.info ticksPerSecond))).length) := fun both => bounded both.1
    have top := isTop_all ProcessInfo.rssKb (processes.map (·.info ticksPerSecond))
    rw [List.length_map] at top
    rw [if_neg bounded]
    simpa only [if_neg unbounded] using top

/-- The processes with the most resident memory come first, each with what the kernel tells of it and
with nothing that it does not tell. -/
theorem readTopProcesses_told (ticksPerSecond limit : Int) {entries : List Entry} {processes : List Process}
    (listed : Listed entries processes) :
    Sequence.IsTop ProcessInfo.rssKb (if 0 < limit then limit.toNat else processes.length)
      (processes.map (·.info ticksPerSecond)) (readTopProcesses ticksPerSecond limit entries) ∧
    ∀ process ∈ processes,
      (process.info ticksPerSecond).toJson.find (ascii "rss_kb") = process.resident.map (fun n => .int n) ∧
      (process.info ticksPerSecond).toJson.find (ascii "cpu_time_seconds") =
        if 0 < ticksPerSecond then process.times.map fun times =>
          .double ((Double.ofInt ((times.1 + times.2 : Nat) : Int)).div (.ofInt ticksPerSecond)) else none :=
  ⟨readTopProcesses_top ticksPerSecond limit listed,fun process _ => info_told process ticksPerSecond⟩

/-- A process whose name holds a blank and a parenthesis. -/
def tricky : Process := ⟨7,ascii "a) b",ascii "S (sleeping)",some 12,some (250,50)⟩

def trickyRows : List (Bytes × Bytes) :=
  [(ascii "Name",9 :: ascii "a) b"),(ascii "State",9 :: ascii "S (sleeping)"),(ascii "VmRSS",ascii "\t   12 kB")]

def trickyFields : List Bytes := [ascii "S"] ++ List.replicate 10 (ascii "1") ++ [ascii "250",ascii "50",ascii "0"]

theorem tricky_status : tricky.Status trickyRows where
  proper := by
    intro row member
    simp only [trickyRows,List.mem_cons,List.not_mem_nil,or_false] at member
    rcases member with rfl | rfl | rfl
    all_goals exact ⟨by decide,by decide⟩
  unique := by
    have keys : trickyRows.map Prod.fst = [ascii "Name",ascii "State",ascii "VmRSS"] := rfl
    rw [KeyedRows.Unique,keys]
    decide
  name := List.mem_cons_self
  state := List.mem_cons_of_mem _ List.mem_cons_self
  resident := by
    rintro n ⟨⟩
    exact ⟨ascii "\t   ",List.all_eq_true.mp (by decide),List.mem_cons_of_mem _ (List.mem_cons_of_mem _ (by decide))⟩
  absent := fun unknown => by cases unknown

theorem tricky_shows : tricky.Shows ⟨ascii "7",some (written trickyRows),
    some (ascii "7 (a) b) S 1 1 1 1 1 1 1 1 1 1 250 50 0\n")⟩ where
  name := by decide
  pid := by decide
  status := ⟨trickyRows,tricky_status,rfl,by decide⟩
  resident := by
    rintro n ⟨⟩
    decide
  gone := fun unknown => by cases unknown
  times := by
    rintro user system ⟨⟩
    exact ⟨by decide,ascii "a) b",trickyFields,⟨by decide,by decide,by decide,by decide,by decide⟩,by decide⟩

theorem readTopProcesses_told_tricky :
    Sequence.IsTop ProcessInfo.rssKb 5 [tricky.info 100] (readTopProcesses 100 5 [⟨ascii "self",none,none⟩,
      ⟨ascii "7",some (written trickyRows),some (ascii "7 (a) b) S 1 1 1 1 1 1 1 1 1 1 250 50 0\n")⟩,
      ⟨ascii "8",none,none⟩]) :=
  (readTopProcesses_told 100 5 (.other (.inl ⟨115,by decide,by decide⟩) (.process tricky_shows
    (.other (.inr rfl) .nil)))).1

/-- The members that tell of a line of the first file. -/
def sources : List (Bytes × Bytes) := [
  (ascii "total_kb",ascii "MemTotal"),
  (ascii "available_kb",ascii "MemAvailable"),
  (ascii "free_kb",ascii "MemFree"),
  (ascii "buffers_kb",ascii "Buffers"),
  (ascii "cached_kb",ascii "Cached"),
  (ascii "swap_total_kb",ascii "SwapTotal"),
  (ascii "swap_free_kb",ascii "SwapFree")]

theorem readMemoryInfo_written (rows own : List (Bytes × Bytes)) (proper : ∀ row ∈ rows ++ own, Proper row)
    (short : (written rows).length ≤ 65536 ∧ (written own).length ≤ 65536) :
    readMemoryInfo (some (written rows)) (some (written own)) = {
      totalKb := (told rows (ascii "MemTotal")).getD (-1)
      availableKb := (told rows (ascii "MemAvailable")).getD (-1)
      freeKb := (told rows (ascii "MemFree")).getD (-1)
      buffersKb := (told rows (ascii "Buffers")).getD (-1)
      cachedKb := (told rows (ascii "Cached")).getD (-1)
      swapTotalKb := (told rows (ascii "SwapTotal")).getD (-1)
      swapFreeKb := (told rows (ascii "SwapFree")).getD (-1)
      processRssKb := (told own (ascii "VmRSS")).getD (-1) } := by
  have front : ∀ row ∈ rows, Proper row := fun row member => proper row (List.mem_append_left _ member)
  have behind : ∀ row ∈ own, Proper row := fun row member => proper row (List.mem_append_right _ member)
  have read : ∀ key : Bytes, 58 ∉ key → parseMemInfoValue ((written rows).take 65536) key = (told rows key).getD (-1) := by
    intro key plain
    rw [List.take_of_length_le short.1,parseMemInfoValue_written rows front key plain]
  have resident : parseMemInfoValue ((written own).take 65536) (ascii "VmRSS") = (told own (ascii "VmRSS")).getD (-1) := by
    rw [List.take_of_length_le short.2,parseMemInfoValue_written own behind _ (by decide)]
  simp only [readMemoryInfo,Option.map_some,Option.getD_some,resident]
  congr 1
  all_goals exact read _ (by decide)

theorem members_keys (info : MemoryInfo) : info.members.map Prod.fst = [ascii "total_kb",ascii "available_kb",
    ascii "free_kb",ascii "buffers_kb",ascii "cached_kb",ascii "swap_total_kb",ascii "swap_free_kb",
    ascii "process_rss_kb"] := rfl

theorem members_unique (info : MemoryInfo) : KeyedRows.Unique Prod.fst info.members := by
  rw [KeyedRows.Unique,members_keys]
  decide

/-- The percentage stands behind the integers, under a key of its own. -/
theorem percent_apart (info : MemoryInfo) : ascii "used_percent" ∉ info.members.map Prod.fst := by
  rw [members_keys]
  decide

/-- A member of the integers is there exactly where its number is known. -/
theorem find_member (info : MemoryInfo) (rows : List (Bytes × Bytes)) (key line : Bytes)
    (member : (key,(told rows line).getD (-1)) ∈ info.members) : info.toJson.find key = (told rows line).map .int := by
  have listed := (members_unique info).lookup_mem Prod.fst member
  have percent : key ≠ ascii "used_percent" := by
    rintro rfl
    exact percent_apart info (List.mem_map_of_mem member)
  have behind : (Value.object (ifMeasured (ascii "used_percent") info.usedPercent)).find key = none :=
    find_other fun other inside same => percent (same.symm.trans (key_ifMeasured inside))
  rw [MemoryInfo.toJson,find_append,find_known _ (members_unique info),listed,behind,Option.or_none,Option.bind_some]
  cases known : told rows line with
  | none => rfl
  | some n => exact if_pos (told_positive known)

theorem find_percent (info : MemoryInfo) :
    info.toJson.find (ascii "used_percent") =
      (Value.object (ifMeasured (ascii "used_percent") info.usedPercent)).find (ascii "used_percent") := by
  have front : lookup Prod.fst info.members (ascii "used_percent") = none :=
    (lookup_none Prod.fst info.members _).mpr (percent_apart info)
  rw [MemoryInfo.toJson,find_append,find_known _ (members_unique info),front]
  rfl

/-- A member is there exactly where its line is and has a number, and it is that number; so is the share
that is used where both of its numbers are known. -/
theorem memory_told (rows own : List (Bytes × Bytes)) (proper : ∀ row ∈ rows ++ own, Proper row)
    (short : (written rows).length ≤ 65536 ∧ (written own).length ≤ 65536) :
    let json := (readMemoryInfo (some (written rows)) (some (written own))).toJson
    (∀ source ∈ sources, json.find source.1 = (told rows source.2).map .int) ∧
      json.find (ascii "process_rss_kb") = (told own (ascii "VmRSS")).map .int ∧
      (told rows (ascii "MemTotal") = none ∨ told rows (ascii "MemAvailable") = none → json.find (ascii "used_percent") = none) ∧
      ∀ total available, told rows (ascii "MemTotal") = some total → told rows (ascii "MemAvailable") = some available →
        0 < total → available ≤ total → json.find (ascii "used_percent") =
          some (.double (((Double.ofInt 100).mul (.ofInt (total - available))).div (.ofInt total))) := by
  intro json
  have info := readMemoryInfo_written rows own proper short
  refine ⟨?_,?_,?_,?_⟩
  · intro source listed
    apply find_member
    rw [info]
    simp only [sources,List.mem_cons,List.not_mem_nil,or_false] at listed
    rcases listed with rfl | rfl | rfl | rfl | rfl | rfl | rfl <;> simp [MemoryInfo.members]
  · apply find_member
    rw [info]
    simp [MemoryInfo.members]
  · intro unknown
    have percent : (readMemoryInfo (some (written rows)) (some (written own))).usedPercent = none := by
      rw [info]
      rcases unknown with total | available
      · exact if_pos (.inl (by simp [total]))
      · exact if_pos (.inr (by simp [available]))
    rw [find_percent,percent]
    rfl
  · intro total available there free positive below
    have percent : (readMemoryInfo (some (written rows)) (some (written own))).usedPercent =
        some (((Double.ofInt 100).mul (.ofInt (total - available))).div (.ofInt total)) := by
      have least := told_positive free
      have measured : ¬(total ≤ 0 ∨ available < 0) := by omega
      rw [info,MemoryInfo.usedPercent,there,free,Option.getD_some,Option.getD_some,if_neg measured]
    have used : ((Double.ofInt 100).mul (.ofInt (total - available))).negative = false := by
      rw [Double.mul,(Double.ofRatio_fields _ _ _).1,ofInt_positive 100 (by decide),ofInt_positive _ (by omega)]
      rfl
    rw [find_percent,percent,ifMeasured_div _ _ _ used (ofInt_positive total (by omega))]
    simp [Value.find]

theorem memory_told_swapless :
    let json := (readMemoryInfo (some (written [(ascii "MemTotal",ascii "  2000 kB"),(ascii "MemAvailable",ascii " 500 kB")]))
      (some (written []))).toJson
    json.find (ascii "total_kb") = some (.int 2000) ∧ json.find (ascii "swap_total_kb") = none ∧
      json.find (ascii "used_percent") = some (.double (((Double.ofInt 100).mul (.ofInt 1500)).div (.ofInt 2000))) := by
  have proper : ∀ row ∈ [(ascii "MemTotal",ascii "  2000 kB"),(ascii "MemAvailable",ascii " 500 kB")] ++ [],Proper row := by
    intro row member
    rcases List.mem_pair.mp (by simpa using member) with rfl | rfl
    all_goals exact ⟨by decide,by decide⟩
  obtain ⟨members,-,-,percent⟩ := memory_told [(ascii "MemTotal",ascii "  2000 kB"),(ascii "MemAvailable",ascii " 500 kB")] []
    proper ⟨by decide,by decide⟩
  have total : told [(ascii "MemTotal",ascii "  2000 kB"),(ascii "MemAvailable",ascii " 500 kB")] (ascii "MemTotal") =
      some 2000 := by decide
  have available : told [(ascii "MemTotal",ascii "  2000 kB"),(ascii "MemAvailable",ascii " 500 kB")]
      (ascii "MemAvailable") = some 500 := by decide
  refine ⟨?_,?_,percent 2000 500 total available (by decide) (by decide)⟩
  · rw [members _ List.mem_cons_self,total]
    rfl
  · rw [members (ascii "swap_total_kb",ascii "SwapTotal") (by simp [sources])]
    decide

end LinuxDiagnosticProvider

end TestForge.Diagnostics
