import Mathlib.Data.Finset.Card
import Mathlib.Data.Finset.Basic
import Mathlib.Logic.Function.Basic
import TestForge.Strings

/-! The `.env` file. Its assignments come into the environment of the process where nothing was
there before, and the first one of a name counts. A file of comments, blank lines and quoted
values, exported or not, is read as the values it was written from. -/
namespace TestForge.Env

open Sequence Strings

/-- What the process is told under a name. -/
abbrev Environment := Bytes → Option Bytes

/-- What a C function sees of a text. -/
def cString (text : Bytes) : Bytes := text.takeWhile (· ≠ 0)

def get (env : Environment) (name : Bytes) : Option Bytes := env (cString name)

def isSet (env : Environment) (name : Bytes) : Bool := (get env name).isSome

/-- What `getline` gives until the end of the file. -/
def fileLines (content : Bytes) : List Bytes :=
  if (content.splitOn 10).getLast? = some [] then (content.splitOn 10).dropLast else content.splitOn 10

/-- One layer of matching quotes is stripped. -/
def unquote (value : Bytes) : Bytes :=
  if 2 ≤ value.length ∧ ((value.head? = some 34 ∧ value.getLast? = some 34) ∨
    (value.head? = some 39 ∧ value.getLast? = some 39)) then (value.drop 1).dropLast
  else value

/-- Name and value, for a line that assigns something. -/
def assignment (line : Bytes) : Option (Bytes × Bytes) :=
  let trimmed := trim line
  if trimmed = [] ∨ trimmed.head? = some 35 then none
  else
    let body := if startsWith trimmed (ascii "export ") then trim (trimmed.drop 7) else trimmed
    match cut 61 body with
    | none => none
    | some (name,value) => if trim name = [] then none else some (trim name,unquote (trim value))

/-- `setenv` for a name that is not set yet; it fails on an empty one. -/
def setenv (state : Environment × Nat) (entry : Bytes × Bytes) : Environment × Nat :=
  if isSet state.1 entry.1 = true ∨ cString entry.1 = [] then state
  else (Function.update state.1 (cString entry.1) (some (cString entry.2)),state.2 + 1)

/-- The number of variables set, when the file can be read. -/
def loadDotEnv (content : Option Bytes) (env : Environment) : Option Nat × Environment :=
  match content with
  | none => (none,env)
  | some text =>
    let (env,applied) := ((fileLines text).filterMap assignment).foldl setenv (env,0)
    (some applied,env)

/-! ### The first assignment counts -/

/-- Entries as the environment takes them. -/
def shown (entries : List (Bytes × Bytes)) : List (Bytes × Bytes) :=
  (entries.map fun entry => (cString entry.1,cString entry.2)).filter (·.1 ≠ [])

/-- What a file assigns. -/
def assigned (content : Option Bytes) : List (Bytes × Bytes) :=
  shown (((content.map fileLines).getD []).filterMap assignment)

def first (entries : List (Bytes × Bytes)) (name : Bytes) : Option Bytes := (entries.find? (·.1 = name)).map (·.2)

/-- The names that an environment does not know. -/
def fresh (env : Environment) (entries : List (Bytes × Bytes)) : Finset Bytes :=
  (entries.map (·.1)).toFinset.filter (env · = none)

theorem foldl_setenv (entries : List (Bytes × Bytes)) (env : Environment) (applied : Nat) :
    (∀ name, (entries.foldl setenv (env,applied)).1 name = (env name).or (first (shown entries) name)) ∧
      (entries.foldl setenv (env,applied)).2 = applied + (fresh env (shown entries)).card := by
  induction entries generalizing env applied with
  | nil => simp [shown,first,fresh]
  | cons entry rest ih =>
    rw [List.foldl_cons,setenv]
    by_cases empty : cString entry.1 = []
    · have same : shown (entry :: rest) = shown rest := by simp [shown,empty]
      rw [if_pos (.inr empty),same]
      exact ih env applied
    have head : shown (entry :: rest) = (cString entry.1,cString entry.2) :: shown rest := by simp [shown,empty]
    rw [head]
    cases known : env (cString entry.1) with
    | some value =>
      obtain ⟨values,count⟩ := ih env applied
      rw [if_pos (.inl (by simp [isSet,get,known]))]
      refine ⟨fun name => (values name).trans ?_,count.trans ?_⟩
      · by_cases mine : cString entry.1 = name
        · simp [← mine,known]
        · simp [first,mine]
      · have skipped : fresh env ((cString entry.1,cString entry.2) :: shown rest) = fresh env (shown rest) := by
          simp [fresh,Finset.filter_insert,known]
        rw [skipped]
    | none =>
      rw [if_neg (by simp [isSet,get,known,empty])]
      obtain ⟨values,count⟩ := ih (Function.update env (cString entry.1) (some (cString entry.2))) (applied + 1)
      refine ⟨fun name => (values name).trans ?_,count.trans ?_⟩
      · by_cases mine : cString entry.1 = name
        · simp [← mine,known,first]
        · simp [first,mine,Function.update_of_ne (Ne.symm mine)]
      · have one : fresh env ((cString entry.1,cString entry.2) :: shown rest) =
            insert (cString entry.1) (fresh (Function.update env (cString entry.1) (some (cString entry.2))) (shown rest)) := by
          ext name
          by_cases mine : name = cString entry.1
          · simp [fresh,mine,known]
          · simp [fresh,mine]
        have outside : cString entry.1 ∉
            fresh (Function.update env (cString entry.1) (some (cString entry.2))) (shown rest) := by
          simp [fresh]
        rw [one,Finset.card_insert_of_notMem outside]
        omega

theorem loadDotEnv_get (content : Option Bytes) (env : Environment) :
    (∀ name, (loadDotEnv content env).2 name = (env name).or (first (assigned content) name)) ∧
      (loadDotEnv content env).1 = content.map fun _ => (fresh env (assigned content)).card := by
  cases content with
  | none => simp [loadDotEnv,assigned,shown,first]
  | some text =>
    obtain ⟨values,count⟩ := foldl_setenv ((fileLines text).filterMap assignment) env 0
    refine ⟨values,congrArg some (count.trans ?_)⟩
    rw [Nat.zero_add]
    rfl

/-- What was set stays as it is, the first assignment in the file counts for what was not, and the
number returned is that of the names that are new. Loading the file again sets nothing. -/
theorem loadDotEnv_layers (content : Option Bytes) (env : Environment) :
    (∀ name, (loadDotEnv content env).2 name = (env name).or (first (assigned content) name)) ∧
      (loadDotEnv content env).1 = content.map (fun _ => (fresh env (assigned content)).card) ∧
      loadDotEnv content (loadDotEnv content env).2 = (content.map fun _ => 0,(loadDotEnv content env).2) := by
  obtain ⟨values,count⟩ := loadDotEnv_get content env
  obtain ⟨again,none⟩ := loadDotEnv_get content (loadDotEnv content env).2
  have known : fresh (loadDotEnv content env).2 (assigned content) = ∅ := by
    apply Finset.filter_eq_empty_iff.mpr
    intro name listed unset
    obtain ⟨entry,member,rfl⟩ := List.mem_map.mp (List.mem_toFinset.mp listed)
    obtain ⟨-,absent⟩ := Option.or_eq_none_iff.mp ((values entry.1).symm.trans unset)
    have missing := List.find?_eq_none.mp (Option.map_eq_none_iff.mp absent) entry member
    simp at missing
  refine ⟨values,count,Prod.ext ?_ (funext fun name => ?_)⟩
  · rw [none,known]
    rfl
  · rw [again,values,Option.or_assoc,Option.or_self]

/-! ### A file that was written -/

/-- A line of a file: one that assigns, a comment or a blank one. -/
inductive Line where
  | assign (exported : Bool) (quote : UInt8) (name value : Bytes)
  | comment (blanks text : Bytes)
  | blank (blanks : Bytes)

namespace Line

def text : Line → Bytes
  | .assign exported quote name value =>
    (if exported then ascii "export " else []) ++ name ++ [61,quote] ++ value ++ [quote]
  | .comment blanks text => blanks ++ 35 :: text
  | .blank blanks => blanks

def entry : Line → Option (Bytes × Bytes)
  | .assign _ _ name value => some (name,value)
  | _ => none

/-- A name without blanks and signs, a value in one of the two quotes; nothing holds the end of
the line or a NUL. -/
def Proper : Line → Prop
  | .assign _ quote name value => (quote = 34 ∨ quote = 39) ∧ (name ≠ [] ∧ name.head? ≠ some 35 ∧
      ∀ c ∈ name, isSpace c = false ∧ c ≠ 61 ∧ c ≠ 0) ∧ 10 ∉ value ∧ 0 ∉ value
  | .comment blanks text => (∀ c ∈ blanks, isSpace c = true ∧ c ≠ 10) ∧ 10 ∉ text
  | .blank blanks => ∀ c ∈ blanks, isSpace c = true ∧ c ≠ 10

instance (line : Line) : Decidable line.Proper :=
  match line with
  | .assign _ _ name _ =>
    have := List.decidableBAll (fun c => isSpace c = false ∧ c ≠ 61 ∧ c ≠ 0) name
    inferInstanceAs (Decidable (_ ∧ _))
  | .comment blanks _ =>
    have := List.decidableBAll (fun c => isSpace c = true ∧ c ≠ 10) blanks
    inferInstanceAs (Decidable (_ ∧ _))
  | .blank blanks => List.decidableBAll (fun c => isSpace c = true ∧ c ≠ 10) blanks

theorem feedless (line : Line) (proper : line.Proper) : 10 ∉ line.text := by
  cases line with
  | assign exported quote name value =>
    obtain ⟨quoted,⟨-,-,plain⟩,value,-⟩ := proper
    have own : 10 ∉ name := fun member => by simpa [isSpace] using (plain 10 member).1
    have front : (10 : UInt8) ∉ (if exported then ascii "export " else []) := by cases exported <;> decide
    have mark : quote ≠ 10 := by rcases quoted with rfl | rfl <;> decide
    simp [text,front,own,value,Ne.symm mark]
  | comment blanks text =>
    have front : 10 ∉ blanks := fun member => (proper.1 10 member).2 rfl
    simp [Line.text,front,proper.2]
  | blank blanks => exact fun member => (proper 10 member).2 rfl

theorem trim_blanks (blanks rest : Bytes) (blank : ∀ c ∈ blanks, isSpace c = true) : trim (blanks ++ rest) = trim rest := by
  rw [trim,trim,List.dropWhile_append_of_pos blank]

theorem unquote_quoted (quote : UInt8) (value : Bytes) (quoted : quote = 34 ∨ quote = 39) :
    unquote (quote :: value ++ [quote]) = value := by
  have long : 2 ≤ (quote :: value ++ [quote]).length := by simp
  have ends : (quote :: value ++ [quote]).head? = some quote ∧ (quote :: value ++ [quote]).getLast? = some quote := by
    simp [List.getLast?_cons]
  rw [unquote,if_pos]
  · simp
  · refine ⟨long,?_⟩
    rcases quoted with rfl | rfl
    · exact .inl ends
    · exact .inr ends

theorem startsWith_export (name rest : Bytes) (plain : ∀ c ∈ name, isSpace c = false) :
    startsWith (name ++ 61 :: rest) (ascii "export ") = false := by
  have blank : ∀ c ∈ name, c ≠ 32 := fun c member same => by simpa [same,isSpace] using plain c member
  apply Bool.eq_false_iff.mpr
  intro starts
  have whole : ascii "export " <+: name ++ 61 :: rest := List.isPrefixOf_iff_prefix.mp starts
  rcases List.prefix_or_prefix_of_prefix whole (List.prefix_append name (61 :: rest)) with inside | ⟨tail,beyond⟩
  · exact blank 32 (inside.subset (by decide)) rfl
  · rw [← beyond,List.prefix_append_right_inj] at whole
    cases tail with
    | nil =>
      rw [List.append_nil] at beyond
      exact blank 32 (beyond ▸ by decide) rfl
    | cons c tail =>
      obtain ⟨rfl,-⟩ := List.cons_prefix_cons.mp whole
      have foreign : (61 : UInt8) ∉ ascii "export " := by decide
      exact foreign (beyond ▸ by simp)

theorem assignment_blank (blanks : Bytes) (blank : ∀ c ∈ blanks, isSpace c = true) : assignment blanks = none := by
  have empty : trim blanks = [] := by
    have same := trim_blanks blanks [] blank
    rwa [List.append_nil] at same
  simp [assignment,empty]

theorem assignment_comment (blanks text : Bytes) (blank : ∀ c ∈ blanks, isSpace c = true) :
    assignment (blanks ++ 35 :: text) = none := by
  obtain ⟨kept,shape,-⟩ := rdropWhile_append_visible [] text 35 (by decide)
  have start : (trim (blanks ++ 35 :: text)).head? = some 35 := by
    rw [trim_blanks blanks _ blank,trim_of_head 35 text (by decide)]
    rw [List.nil_append] at shape
    rw [shape]
    rfl
  simp [assignment,start]

section Assigns

variable {quote : UInt8} {name : Bytes} (quoted : quote = 34 ∨ quote = 39) (named : name ≠ [])
  (plain : ∀ c ∈ name, isSpace c = false ∧ c ≠ 61 ∧ c ≠ 0)

include quoted named plain

/-- Nothing is trimmed of a pair, with or without the keyword in front. -/
theorem trim_pair (value front : Bytes) (visible : ∀ c ∈ front.head?, isSpace c = false) :
    trim (front ++ (name ++ 61 :: (quote :: value ++ [quote]))) = front ++ (name ++ 61 :: (quote :: value ++ [quote])) := by
  have mark : isSpace quote = false := by rcases quoted with rfl | rfl <;> decide
  apply trim_of_ends
  · intro c first
    cases front with
    | nil =>
      rw [List.nil_append,List.head?_append_of_ne_nil _ named] at first
      exact (plain c (List.mem_of_mem_head? first)).1
    | cons d front => exact visible c first
  · simpa [List.getLast?_append,List.getLast?_cons] using mark

theorem read_pair (value : Bytes) : (match cut 61 (name ++ 61 :: (quote :: value ++ [quote])) with
    | none => none
    | some (name,value) => if trim name = [] then none else some (trim name,unquote (trim value))) =
    some (name,value) := by
  have mark : isSpace quote = false := by rcases quoted with rfl | rfl <;> decide
  have bare : trim name = name :=
    trim_of_ends name (fun c first => (plain c (List.mem_of_mem_head? first)).1)
      fun c last => (plain c (List.mem_of_getLast? last)).1
  have right : trim (quote :: value ++ [quote]) = quote :: value ++ [quote] := by
    apply trim_of_ends
    · simpa using mark
    · simpa [List.getLast?_cons] using mark
  have parts : cut 61 (name ++ 61 :: (quote :: value ++ [quote])) = some (name,quote :: value ++ [quote]) :=
    (cut_eq_some 61 _ _ _).mpr ⟨rfl,fun member => (plain 61 member).2.1 rfl⟩
  simp only [parts,bare,right,named,if_false,unquote_quoted quote value quoted]

theorem assignment_pair (value : Bytes) (noHash : name.head? ≠ some 35) :
    assignment (name ++ 61 :: (quote :: value ++ [quote])) = some (name,value) := by
  have body := trim_pair quoted named plain value [] (by simp)
  have front : (name ++ 61 :: (quote :: value ++ [quote])).head? ≠ some 35 := by
    rwa [List.head?_append_of_ne_nil _ named]
  have keyword := startsWith_export name (quote :: value ++ [quote]) fun c member => (plain c member).1
  rw [List.nil_append] at body
  simp only [assignment,body,keyword,front,or_false,Bool.false_eq_true,if_false]
  rw [if_neg (by simp),read_pair quoted named plain value]

theorem assignment_exported (value : Bytes) :
    assignment (ascii "export " ++ (name ++ 61 :: (quote :: value ++ [quote]))) = some (name,value) := by
  have first : (ascii "export ").head? = some 101 := by decide
  have body := trim_pair quoted named plain value [] (by simp)
  have outer := trim_pair quoted named plain value (ascii "export ") (by rw [first]; rintro c ⟨⟩; rfl)
  have keyword : startsWith (ascii "export " ++ (name ++ 61 :: (quote :: value ++ [quote]))) (ascii "export ") = true :=
    List.isPrefixOf_iff_prefix.mpr (List.prefix_append _ _)
  have dropped : (ascii "export " ++ (name ++ 61 :: (quote :: value ++ [quote]))).drop 7 =
      name ++ 61 :: (quote :: value ++ [quote]) := List.drop_left' (by decide)
  have front : (ascii "export " ++ (name ++ 61 :: (quote :: value ++ [quote]))).head? ≠ some 35 := by
    rw [List.head?_append_of_ne_nil _ (by decide),first]
    decide
  have present : ascii "export " ++ (name ++ 61 :: (quote :: value ++ [quote])) ≠ [] := by simp
  rw [List.nil_append] at body
  simp only [assignment,outer,keyword,dropped,body,front,present,or_false,if_true,if_false]
  exact read_pair quoted named plain value

end Assigns

theorem assignment_text (line : Line) (proper : line.Proper) : assignment line.text = line.entry := by
  cases line with
  | blank blanks => exact assignment_blank blanks fun c member => (proper c member).1
  | comment blanks text => exact assignment_comment blanks text fun c member => (proper.1 c member).1
  | assign exported quote name value =>
    obtain ⟨quoted,⟨named,noHash,plain⟩,-,-⟩ := proper
    cases exported with
    | false =>
      have shape : (Line.assign false quote name value).text = name ++ 61 :: (quote :: value ++ [quote]) := by
        simp [text]
      rw [shape]
      exact assignment_pair quoted named plain value noHash
    | true =>
      have shape : (Line.assign true quote name value).text =
          ascii "export " ++ (name ++ 61 :: (quote :: value ++ [quote])) := by
        simp [text]
      rw [shape]
      exact assignment_exported quoted named plain value

end Line

/-- The file of some lines. -/
def written (lines : List Line) : Bytes := lines.flatMap fun line => line.text ++ [10]

theorem fileLines_written (lines : List Line) (proper : ∀ line ∈ lines, line.Proper) :
    fileLines (written lines) = lines.map Line.text := by
  have pieces : (written lines).splitOn 10 = lines.map Line.text ++ [[]] := by
    have ended := splitOn_ended 10 (lines.map Line.text) (by
      intro text member
      obtain ⟨line,listed,rfl⟩ := List.mem_map.mp member
      exact line.feedless (proper line listed))
    rw [← ended,List.flatMap_map]
    rfl
  rw [fileLines,pieces]
  simp

theorem shown_proper (lines : List Line) (proper : ∀ line ∈ lines, line.Proper) :
    shown (lines.filterMap Line.entry) = lines.filterMap Line.entry := by
  have whole : ∀ text : Bytes, 0 ∉ text → cString text = text := by
    intro text absent
    apply List.takeWhile_eq_self_iff.mpr
    intro c member
    simpa using fun same : c = 0 => absent (same ▸ member)
  have plain : ∀ entry ∈ lines.filterMap Line.entry, (cString entry.1,cString entry.2) = entry ∧ entry.1 ≠ [] := by
    intro entry listed
    obtain ⟨line,member,told⟩ := List.mem_filterMap.mp listed
    have good := proper line member
    cases line with
    | comment | blank => simp [Line.entry] at told
    | assign exported quote name value =>
      obtain ⟨-,⟨named,-,clean⟩,-,absent⟩ := good
      obtain rfl := Option.some.inj told
      have fresh : 0 ∉ name := fun inside => (clean 0 inside).2.2 rfl
      exact ⟨by simp [whole name fresh,whole value absent],named⟩
  have same : (lines.filterMap Line.entry).map (fun entry => (cString entry.1,cString entry.2)) =
      lines.filterMap Line.entry := by
    conv_rhs => rw [← List.map_id (lines.filterMap Line.entry)]
    exact List.map_congr_left fun entry listed => (plain entry listed).1
  rw [shown,same]
  exact List.filter_eq_self.mpr fun entry listed => decide_eq_true (plain entry listed).2

theorem assigned_written (lines : List Line) (proper : ∀ line ∈ lines, line.Proper) :
    assigned (some (written lines)) = lines.filterMap Line.entry := by
  have read : (lines.map Line.text).filterMap assignment = lines.filterMap Line.entry := by
    rw [List.filterMap_map]
    exact List.filterMap_congr fun line listed => line.assignment_text (proper line listed)
  rw [assigned,Option.map_some,Option.getD_some,fileLines_written lines proper,read,shown_proper lines proper]

/-- Loading a written file gives every name that was not set the value first written for it, byte by
byte, and leaves the others. -/
theorem loadDotEnv_written (lines : List Line) (proper : ∀ line ∈ lines, line.Proper) (env : Environment) (name : Bytes) :
    (loadDotEnv (some (written lines)) env).2 name = (env name).or (first (lines.filterMap Line.entry) name) := by
  rw [(loadDotEnv_get _ env).1 name,assigned_written lines proper]

/-- A value with a quote, a sign and blanks at its ends, and a name that is already set. -/
def sampleLines : List Line :=
  [.comment [] (ascii " a comment"),.blank [32,9],.assign true 34 (ascii "TOKEN") (ascii " a\"=# "),
    .assign false 39 (ascii "PATH") (ascii "x"),.assign false 34 (ascii "TOKEN") (ascii "second")]

theorem loadDotEnv_written_sample :
    (loadDotEnv (some (written sampleLines)) fun name => if name = ascii "PATH" then some (ascii "/bin") else none).2
        (ascii "TOKEN") = some (ascii " a\"=# ") ∧
      (loadDotEnv (some (written sampleLines)) fun name => if name = ascii "PATH" then some (ascii "/bin") else none).2
        (ascii "PATH") = some (ascii "/bin") := by
  have proper : ∀ line ∈ sampleLines, line.Proper := by decide
  constructor
  · rw [loadDotEnv_written sampleLines proper]
    decide
  · rw [loadDotEnv_written sampleLines proper]
    decide

end TestForge.Env
