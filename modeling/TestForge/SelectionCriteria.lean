import TestForge.FrontEnds

/-! A selection criterion on either front end, and where it is lost on the way to the
filter. -/
namespace TestForge

open Json Strings Settings

namespace CommandLine

/-! ### The words of a command line -/

/-- An argument behind the command words, with the value that belongs to it. -/
inductive Token where
  | word (text : Bytes)
  | short (argument : Bytes)
  | switch (name : Bytes)
  | setting (name value : Bytes)
  /-- An option whose value does not come. -/
  | missing (name : Bytes)
  deriving DecidableEq

namespace Token

def accepted (command : Bytes) : Token → Bool
  | .word _ => true
  | .short argument => argument = ascii "-h" ∨ argument = ascii "-V"
  | .switch name => name = ascii "help" ∨ name = ascii "version" ∨ isKnown command name = true
  | .setting name _ => isKnown command name
  | .missing _ => false

def text? : Token → Option Bytes
  | .word text => some text
  | _ => none

def valueOf? (name : Bytes) : Token → Option Bytes
  | .setting other value => if other = name then some value else none
  | _ => none

/-- What the parser does about an accepted token. -/
def take (parsed : ParsedCommand) : Token → ParsedCommand
  | .word text => { parsed with positionals := parsed.positionals ++ [text] }
  | .short argument =>
    if argument = ascii "-h" then { parsed with helpRequested := true } else { parsed with versionRequested := true }
  | .switch name =>
    if name = ascii "help" then { parsed with helpRequested := true }
    else if name = ascii "version" then { parsed with versionRequested := true }
    else { parsed with options := ParsedCommand.append name [] parsed.options }
  | .setting name value => { parsed with options := ParsedCommand.append name [value] parsed.options }
  | .missing _ => parsed

end Token

/-- An option without `=` that is no flag takes the next argument, unless that is an option
too. All is words behind `--`. -/
def tokens : List Bytes → List Token
  | [] => []
  | argument :: rest =>
    if argument = ascii "--" then rest.map .word
    else if !startsWith argument (ascii "-") then .word argument :: tokens rest
    else if !startsWith argument (ascii "--") then .short argument :: tokens rest
    else
      let long := argument.drop 2
      let name := long.takeWhile (· ≠ 61)
      if name = ascii "help" ∨ name = ascii "version" then .switch name :: tokens rest
      else if 61 ∈ long then .setting name (long.drop (name.length + 1)) :: tokens rest
      else if isFlagOption name then .switch name :: tokens rest
      else match rest with
        | [] => [.missing name]
        | next :: later =>
          if startsWith next (ascii "--") then [.missing name] else .setting name next :: tokens later

/-- The parser reads the tokens one by one until it refuses one. -/
def Heard (parsed : ParsedCommand) (read : List Token) (result : Except ParsedCommand ParsedCommand) : Prop :=
  ((∀ token ∈ read, token.accepted parsed.command = true) ∧ result = .ok (read.foldl Token.take parsed)) ∨
    (∃ token ∈ read, token.accepted parsed.command = false) ∧ ∃ final, result = .error final ∧ final.error ≠ none

@[simp] theorem take_command (parsed : ParsedCommand) (token : Token) :
    (token.take parsed).command = parsed.command := by
  cases token <;> simp only [Token.take]
  all_goals repeat' split
  all_goals rfl

theorem heard_accepted {parsed : ParsedCommand} {token : Token} {read : List Token}
    {result : Except ParsedCommand ParsedCommand} (accepted : token.accepted parsed.command = true)
    (later : Heard (token.take parsed) read result) : Heard parsed (token :: read) result := by
  rcases later with ⟨all,final⟩ | ⟨⟨other,listed,refused⟩,final⟩
  · refine .inl ⟨?_,final⟩
    rw [take_command] at all
    exact List.forall_mem_cons.mpr ⟨accepted,all⟩
  · rw [take_command] at refused
    exact .inr ⟨⟨other,List.mem_cons_of_mem _ listed,refused⟩,final⟩

theorem heard_refused {parsed final : ParsedCommand} {token : Token} {read : List Token}
    (refused : token.accepted parsed.command = false) (error : final.error ≠ none) :
    Heard parsed (token :: read) (.error final) :=
  .inr ⟨⟨token,List.mem_cons_self,refused⟩,final,rfl,error⟩

theorem foldl_words (parsed : ParsedCommand) (words : List Bytes) :
    (words.map Token.word).foldl Token.take parsed = { parsed with positionals := parsed.positionals ++ words } := by
  induction words generalizing parsed with
  | nil => simp
  | cons word words ih =>
    rw [List.map_cons,List.foldl_cons,ih]
    simp [Token.take]

theorem long_other {argument : Bytes} (long : ¬(!startsWith argument (ascii "--")) = true) :
    argument ≠ ascii "-h" ∧ argument ≠ ascii "-V" := by
  constructor
  all_goals
    rintro rfl
    exact long rfl

section

variable {argument : Bytes} {rest : List Bytes}
  (later : ∀ (parsed : ParsedCommand) (arguments : List Bytes), arguments.length < (argument :: rest).length →
    Heard parsed (tokens arguments) (parseArguments parsed arguments))

include later

theorem heard_short (parsed : ParsedCommand) (first : argument ≠ ascii "--")
    (dash : ¬(!startsWith argument (ascii "-")) = true) (short : (!startsWith argument (ascii "--")) = true) :
    Heard parsed (tokens (argument :: rest)) (parseArguments parsed (argument :: rest)) := by
  have behind := fun parsed => later parsed rest (Nat.lt_succ_self _)
  rw [tokens,parseArguments,if_neg first,if_neg dash,if_pos short,if_neg first,if_neg dash]
  by_cases help : argument = ascii "-h"
  · rw [if_pos help]
    have taken : (Token.short argument).take parsed = { parsed with helpRequested := true } := if_pos help
    exact heard_accepted (by simp [Token.accepted,help]) (taken ▸ behind _)
  by_cases version : argument = ascii "-V"
  · rw [if_neg help,if_pos version]
    have taken : (Token.short argument).take parsed = { parsed with versionRequested := true } := if_neg help
    exact heard_accepted (by simp [Token.accepted,version]) (taken ▸ behind _)
  · rw [if_neg help,if_neg version,if_pos short]
    exact heard_refused (by simp [Token.accepted,help,version]) (by simp)

theorem heard_long (parsed : ParsedCommand) (first : argument ≠ ascii "--")
    (dash : ¬(!startsWith argument (ascii "-")) = true) (long : ¬(!startsWith argument (ascii "--")) = true) :
    Heard parsed (tokens (argument :: rest)) (parseArguments parsed (argument :: rest)) := by
  have behind := fun parsed => later parsed rest (Nat.lt_succ_self _)
  obtain ⟨noShortHelp,noShortVersion⟩ := long_other long
  rw [tokens,parseArguments,if_neg first,if_neg dash,if_neg long,if_neg first,if_neg dash,if_neg noShortHelp,
    if_neg noShortVersion,if_neg long]
  dsimp only
  generalize (argument.drop 2).takeWhile (· ≠ 61) = name
  by_cases help : name = ascii "help"
  · rw [if_pos (.inl help),if_pos help]
    have taken : (Token.switch name).take parsed = { parsed with helpRequested := true } := if_pos help
    exact heard_accepted (by simp [Token.accepted,help]) (taken ▸ behind _)
  by_cases version : name = ascii "version"
  · rw [if_pos (.inr version),if_neg help,if_pos version]
    have taken : (Token.switch name).take parsed = { parsed with versionRequested := true } :=
      (if_neg help).trans (if_pos version)
    exact heard_accepted (by simp [Token.accepted,version]) (taken ▸ behind _)
  rw [if_neg (not_or.mpr ⟨help,version⟩),if_neg help,if_neg version]
  by_cases unknown : (!isKnown parsed.command name) = true
  · rw [if_pos unknown]
    have refused : isKnown parsed.command name = false := by simpa using unknown
    split
    · exact heard_refused refused (by simp)
    split
    · exact heard_refused (by simp [Token.accepted,help,version,refused]) (by simp)
    split
    · exact heard_refused rfl (by simp)
    split
    · exact heard_refused rfl (by simp)
    · exact heard_refused refused (by simp)
  have known : isKnown parsed.command name = true := by simpa using unknown
  rw [if_neg unknown]
  by_cases inlineValue : 61 ∈ argument.drop 2
  · rw [if_pos inlineValue,if_pos inlineValue]
    exact heard_accepted known (behind _)
  by_cases flag : isFlagOption name = true
  · rw [if_neg inlineValue,if_pos flag,if_neg inlineValue,if_pos flag]
    have taken : (Token.switch name).take parsed =
        { parsed with options := ParsedCommand.append name [] parsed.options } := (if_neg help).trans (if_neg version)
    exact heard_accepted (by simp [Token.accepted,known]) (taken ▸ behind _)
  rw [if_neg inlineValue,if_neg flag,if_neg inlineValue,if_neg flag]
  cases rest with
  | nil => exact heard_refused rfl (by simp)
  | cons next others =>
    by_cases option : startsWith next (ascii "--") = true
    · simp only [if_pos option]
      exact heard_refused rfl (by simp)
    · simp only [if_neg option]
      have shorter : others.length < (argument :: next :: others).length :=
        Nat.lt_succ_of_lt (Nat.lt_succ_self _)
      exact heard_accepted known (later _ others shorter)

end

theorem parseArguments_heard (parsed : ParsedCommand) (arguments : List Bytes) :
    Heard parsed (tokens arguments) (parseArguments parsed arguments) := by
  induction size : arguments.length using Nat.strong_induction_on generalizing parsed arguments with
  | _ length ih =>
    subst size
    cases arguments with
    | nil => exact .inl ⟨by simp [tokens],rfl⟩
    | cons argument rest =>
      have later := fun parsed arguments (shorter : arguments.length < (argument :: rest).length) =>
        ih _ shorter parsed arguments rfl
      by_cases first : argument = ascii "--"
      · rw [tokens,parseArguments,if_pos first,if_pos first]
        exact .inl ⟨by simp [Token.accepted],by rw [foldl_words]⟩
      by_cases dash : (!startsWith argument (ascii "-")) = true
      · rw [tokens,parseArguments,if_neg first,if_pos dash,if_neg first,if_pos dash]
        exact heard_accepted rfl (later _ rest (Nat.lt_succ_self _))
      by_cases short : (!startsWith argument (ascii "--")) = true
      · exact heard_short later parsed first dash short
      · exact heard_long later parsed first dash short

/-! ### What the tokens leave in the options -/

/-- The values under a name. -/
def given (parsed : ParsedCommand) (name : Bytes) : List Bytes := (parsed.find name).getD []

theorem given_append (parsed : ParsedCommand) (name other : Bytes) (more : List Bytes) :
    given { parsed with options := ParsedCommand.append other more parsed.options } name =
      given parsed name ++ if other = name then more else [] := by
  unfold given ParsedCommand.find
  by_cases same : other = name
  · subst same
    rw [ParsedCommand.find_append_self,if_pos rfl]
    rfl
  · rw [ParsedCommand.find_append_other (Ne.symm same),if_neg same,List.append_nil]

theorem given_take (parsed : ParsedCommand) (name : Bytes) (token : Token) :
    given (token.take parsed) name = given parsed name ++ (token.valueOf? name).toList := by
  cases token with
  | setting other value =>
    rw [Token.take,given_append,Token.valueOf?]
    by_cases same : other = name <;> simp [same]
  | switch other =>
    rw [Token.take]
    split
    · exact (List.append_nil _).symm
    split
    · exact (List.append_nil _).symm
    rw [given_append,ite_self]
    rfl
  | short argument =>
    rw [Token.take]
    split
    all_goals exact (List.append_nil _).symm
  | word text => exact (List.append_nil _).symm
  | missing other => exact (List.append_nil _).symm

theorem take_positionals (parsed : ParsedCommand) (token : Token) :
    (token.take parsed).positionals = parsed.positionals ++ token.text?.toList := by
  cases token <;> simp only [Token.take,Token.text?]
  all_goals repeat' split
  all_goals simp

theorem take_error (parsed : ParsedCommand) (token : Token) : (token.take parsed).error = parsed.error := by
  cases token <;> simp only [Token.take]
  all_goals repeat' split
  all_goals rfl

theorem foldl_take (parsed : ParsedCommand) (read : List Token) :
    (read.foldl Token.take parsed).command = parsed.command ∧ (read.foldl Token.take parsed).error = parsed.error ∧
      (read.foldl Token.take parsed).positionals = parsed.positionals ++ read.filterMap Token.text? ∧
      ∀ name, given (read.foldl Token.take parsed) name =
        given parsed name ++ read.filterMap (Token.valueOf? name) := by
  induction read generalizing parsed with
  | nil => simp
  | cons token read ih =>
    obtain ⟨command,error,positionals,options⟩ := ih (token.take parsed)
    rw [List.foldl_cons]
    refine ⟨command.trans (take_command parsed token),error.trans (take_error parsed token),?_,fun name => ?_⟩
    · rw [positionals,take_positionals,List.append_assoc,List.filterMap_cons]
      cases token.text? <;> rfl
    · rw [options name,given_take,List.append_assoc,List.filterMap_cons]
      cases token.valueOf? name <;> rfl

/-! ### Occurrences -/

/-- `--option` or `--option=value`. -/
def Names (option argument : Bytes) : Prop :=
  argument = ascii "--" ++ option ∨ (ascii "--" ++ option ++ ascii "=") <+: argument

/-- Somewhere before `--`. -/
def Occurs (option : Bytes) (arguments : List Bytes) : Prop :=
  ∃ argument ∈ arguments.takeWhile (· ≠ ascii "--"), Names option argument

instance (option : Bytes) (arguments : List Bytes) : Decidable (Occurs option arguments) :=
  inferInstanceAs (Decidable (∃ argument ∈ _, _ ∨ _))

theorem Names.long {option argument : Bytes} (names : Names option argument) :
    startsWith argument (ascii "--") = true := by
  rcases names with rfl | ⟨value,rfl⟩
  · exact List.isPrefixOf_iff_prefix.mpr (List.prefix_append _ _)
  · rw [List.append_assoc,List.append_assoc]
    exact List.isPrefixOf_iff_prefix.mpr (List.prefix_append _ _)

/-- The name that the parser cuts out of an argument. -/
theorem Names.name {option argument : Bytes} (names : Names option argument) (plain : 61 ∉ option) :
    (argument.drop 2).takeWhile (· ≠ 61) = option := by
  have whole : option.takeWhile (· ≠ 61) = option := by
    apply List.takeWhile_eq_self_iff.mpr
    intro c inside
    simpa using fun same : c = 61 => plain (same ▸ inside)
  rcases names with rfl | ⟨value,rfl⟩
  · exact whole
  · have cut : ((ascii "--" ++ option ++ ascii "=") ++ value).drop 2 = option ++ 61 :: value := by
      rw [List.append_assoc,List.append_assoc]
      rfl
    rw [cut,List.takeWhile_append_of_pos]
    · simp
    · intro c inside
      simpa using fun same : c = 61 => plain (same ▸ inside)

theorem occurs_cons {option argument : Bytes} {rest : List Bytes} (occurs : Occurs option (argument :: rest)) :
    Names option argument ∨ Occurs option rest := by
  obtain ⟨found,listed,names⟩ := occurs
  rw [List.takeWhile_cons] at listed
  split at listed
  · rcases List.mem_cons.mp listed with rfl | later
    · exact .inl names
    · exact .inr ⟨found,later,names⟩
  · cases listed

theorem not_occurs_nil (option : Bytes) : ¬Occurs option [] := by
  rintro ⟨argument,listed,-⟩
  cases listed

/-- An option of the parser that takes a value. -/
def TakesValue (option : Bytes) : Prop :=
  61 ∉ option ∧ option ≠ ascii "help" ∧ option ≠ ascii "version" ∧ isFlagOption option = false

instance (option : Bytes) : Decidable (TakesValue option) := inferInstanceAs (Decidable (_ ∧ _ ∧ _ ∧ _))

/-- The option has a value among the tokens, or some option waits for one. -/
def Spoken (option : Bytes) (read : List Token) : Prop :=
  (∃ value, .setting option value ∈ read) ∨ ∃ name, .missing name ∈ read

theorem Spoken.later {option : Bytes} {token : Token} {read : List Token} (spoken : Spoken option read) :
    Spoken option (token :: read) := by
  rcases spoken with ⟨value,listed⟩ | ⟨name,listed⟩
  · exact .inl ⟨value,List.mem_cons_of_mem _ listed⟩
  · exact .inr ⟨name,List.mem_cons_of_mem _ listed⟩

theorem dash_of_long {argument : Bytes} (long : startsWith argument (ascii "--") = true) :
    startsWith argument (ascii "-") = true := by
  have shorter : ascii "-" <+: ascii "--" := by decide
  exact List.isPrefixOf_iff_prefix.mpr (shorter.trans (List.isPrefixOf_iff_prefix.mp long))

/-- No occurrence is passed by. -/
theorem spoken_of_occurs {option : Bytes} (takes : TakesValue option) {arguments : List Bytes}
    (occurs : Occurs option arguments) : Spoken option (tokens arguments) := by
  obtain ⟨plain,noHelp,noVersion,noFlag⟩ := takes
  fun_induction tokens arguments with
  | case1 => exact absurd occurs (not_occurs_nil option)
  | case2 words =>
    obtain ⟨argument,listed,-⟩ := occurs
    cases listed
  | case3 word rest first dash ih =>
    rcases occurs_cons occurs with here | there
    · rw [dash_of_long here.long] at dash
      cases dash
    · exact (ih there).later
  | case4 argument rest first dash long ih =>
    rcases occurs_cons occurs with here | there
    · rw [here.long] at long
      cases long
    · exact (ih there).later
  | case5 argument rest first dash long text name asked ih =>
    rcases occurs_cons occurs with here | there
    · have same : name = option := here.name plain
      rw [same] at asked
      exact absurd asked (not_or.mpr ⟨noHelp,noVersion⟩)
    · exact (ih there).later
  | case6 argument rest first dash long text name other inlineValue ih =>
    rcases occurs_cons occurs with here | there
    · have same : name = option := here.name plain
      exact .inl ⟨_,List.mem_cons.mpr (.inl (congrArg (Token.setting · _) same.symm))⟩
    · exact (ih there).later
  | case7 argument rest first dash long text name other noValue flag ih =>
    rcases occurs_cons occurs with here | there
    · have same : name = option := here.name plain
      rw [same,noFlag] at flag
      cases flag
    · exact (ih there).later
  | case8 argument first dash long text name other noValue flag => exact .inr ⟨name,List.mem_cons_self⟩
  | case9 argument first dash long text name other noValue flag next later option =>
    exact .inr ⟨name,List.mem_cons_self⟩
  | case10 argument first dash long text name other noValue flag next later value ih =>
    rcases occurs_cons occurs with here | there
    · have same : name = option := here.name plain
      exact .inl ⟨next,same ▸ List.mem_cons_self⟩
    rcases occurs_cons there with here | there
    · exact absurd here.long value
    · exact (ih there).later

/-! ### The whole line -/

def helpFlags : List Bytes := [ascii "-h",ascii "--help",ascii "-V",ascii "--version"]

def subcommandWord (command : Bytes) (rest : List Bytes) : Bytes × List Bytes :=
  if command = ascii "ai" ∨ command = ascii "db" then bareWord rest else ([],rest)

/-- The command word of a line. -/
def spokenCommand (arguments : List Bytes) : Bytes := (bareWord (arguments.dropWhile (· ∈ helpFlags))).1

/-- What stands behind the command words. -/
def spokenArguments (arguments : List Bytes) : List Bytes :=
  (subcommandWord (spokenCommand arguments) (bareWord (arguments.dropWhile (· ∈ helpFlags))).2).2

/-- An argument that the command does not take, or an option without its value. -/
def Refused (arguments : List Bytes) : Prop :=
  ∃ token ∈ tokens (spokenArguments arguments), token.accepted (spokenCommand arguments) = false

instance (arguments : List Bytes) : Decidable (Refused arguments) := inferInstanceAs (Decidable (∃ token ∈ _, _))

theorem leadingFlags_eq (parsed : ParsedCommand) (arguments : List Bytes) :
    leadingFlags parsed arguments =
      ({ parsed with
          helpRequested := (leadingFlags parsed arguments).1.helpRequested
          versionRequested := (leadingFlags parsed arguments).1.versionRequested },
        arguments.dropWhile (· ∈ helpFlags)) := by
  induction arguments generalizing parsed with
  | nil => rfl
  | cons argument rest ih =>
    rw [leadingFlags]
    by_cases help : argument = ascii "-h" ∨ argument = ascii "--help"
    · have listed : argument ∈ helpFlags := by rcases help with rfl | rfl <;> decide
      rw [if_pos help,List.dropWhile_cons_of_pos (by simpa using listed)]
      exact ih _
    by_cases version : argument = ascii "-V" ∨ argument = ascii "--version"
    · have listed : argument ∈ helpFlags := by rcases version with rfl | rfl <;> decide
      rw [if_neg help,if_pos version,List.dropWhile_cons_of_pos (by simpa using listed)]
      exact ih _
    · have unlisted : argument ∉ helpFlags := by
        simp only [helpFlags,List.mem_cons,List.not_mem_nil,or_false]
        tauto
      rw [if_neg help,if_neg version,List.dropWhile_cons_of_neg (by simpa using unlisted)]

/-- The parser before the arguments behind the command words. -/
def leading (arguments : List Bytes) : ParsedCommand where
  command := spokenCommand arguments
  subcommand :=
    (subcommandWord (spokenCommand arguments) (bareWord (arguments.dropWhile (· ∈ helpFlags))).2).1
  helpRequested := (leadingFlags {} arguments).1.helpRequested
  versionRequested := (leadingFlags {} arguments).1.versionRequested

/-- The end of a parse. -/
def finish : Except ParsedCommand ParsedCommand → ParsedCommand
  | .error parsed => parsed
  | .ok parsed =>
    let parsed := if parsed.command = [] ∧ !parsed.helpRequested ∧ !parsed.versionRequested then
      { parsed with helpRequested := true } else parsed
    if parsed.command ≠ [] ∧ !parsed.helpRequested ∧ !parsed.versionRequested ∧ parsed.command ∉ commands then
      { parsed with error := some (ascii "unknown command '" ++ parsed.command ++ ascii "'\nRun 'testforge help'.") }
    else parsed

theorem parse_eq (arguments : List Bytes) :
    parse arguments = finish (parseArguments (leading arguments) (spokenArguments arguments)) := by
  rw [parse,leadingFlags_eq]
  rfl

theorem finish_ok (parsed : ParsedCommand) : (finish (.ok parsed)).options = parsed.options ∧
    (finish (.ok parsed)).positionals = parsed.positionals ∧
    (parsed.command ∈ commands → (finish (.ok parsed)).error = parsed.error) := by
  rw [finish]
  split
  · next bare =>
    rw [if_neg (by simp)]
    exact ⟨rfl,rfl,fun _ => rfl⟩
  · split
    · next unknown => exact ⟨rfl,rfl,fun known => absurd known unknown.2.2.2⟩
    · exact ⟨rfl,rfl,fun _ => rfl⟩

theorem parse_refused {arguments : List Bytes} (refused : Refused arguments) : (parse arguments).error ≠ none := by
  rw [parse_eq]
  rcases parseArguments_heard (leading arguments) (spokenArguments arguments) with ⟨all,-⟩ | ⟨-,final,result,error⟩
  · obtain ⟨token,listed,no⟩ := refused
    rw [show token.accepted (spokenCommand arguments) = true from all token listed] at no
    cases no
  · rw [result]
    exact error

/-- A line that is not refused is read token by token. -/
theorem parse_read {arguments : List Bytes} (read : ¬Refused arguments) :
    (spokenCommand arguments ∈ commands → (parse arguments).error = none) ∧
      (parse arguments).positionals = (tokens (spokenArguments arguments)).filterMap Token.text? ∧
      ∀ name, given (parse arguments) name =
        (tokens (spokenArguments arguments)).filterMap (Token.valueOf? name) := by
  rw [parse_eq]
  rcases parseArguments_heard (leading arguments) (spokenArguments arguments) with ⟨-,result⟩ | ⟨refused,-⟩
  · obtain ⟨command,error,positionals,options⟩ := foldl_take (leading arguments) (tokens (spokenArguments arguments))
    obtain ⟨sameOptions,samePositionals,sameError⟩ :=
      finish_ok ((tokens (spokenArguments arguments)).foldl Token.take (leading arguments))
    rw [result]
    refine ⟨fun known => (sameError (command ▸ known)).trans error,samePositionals.trans positionals,fun name => ?_⟩
    rw [given,ParsedCommand.find,sameOptions]
    exact options name
  · exact absurd refused read

theorem occurs_behind_flags {option : Bytes} (takes : TakesValue option) {arguments : List Bytes}
    (occurs : Occurs option arguments) : Occurs option (arguments.dropWhile (· ∈ helpFlags)) := by
  obtain ⟨plain,noHelp,noVersion,-⟩ := takes
  induction arguments with
  | nil => exact occurs
  | cons argument rest ih =>
    by_cases flag : argument ∈ helpFlags
    · rw [List.dropWhile_cons_of_pos (by simpa using flag)]
      rcases occurs_cons occurs with here | there
      · have name := here.name plain
        have long := here.long
        simp only [helpFlags,List.mem_cons,List.not_mem_nil,or_false] at flag
        rcases flag with rfl | rfl | rfl | rfl
        · cases long
        · exact absurd name.symm noHelp
        · cases long
        · exact absurd name.symm noVersion
      · exact ih there
    · rw [List.dropWhile_cons_of_neg (by simpa using flag)]
      exact occurs

theorem occurs_behind_word {option : Bytes} {arguments : List Bytes} (occurs : Occurs option arguments) :
    Occurs option (bareWord arguments).2 := by
  cases arguments with
  | nil => exact occurs
  | cons word rest =>
    rw [bareWord]
    split
    · exact occurs
    · next bare =>
      rcases occurs_cons occurs with here | there
      · exact absurd (dash_of_long here.long) bare
      · exact there

theorem occurs_behind_command {option : Bytes} (takes : TakesValue option) {arguments : List Bytes}
    (occurs : Occurs option arguments) : Occurs option (spokenArguments arguments) := by
  have behind := occurs_behind_word (occurs_behind_flags takes occurs)
  unfold spokenArguments subcommandWord
  split
  · exact occurs_behind_word behind
  · exact behind

/-- Only a command of the table knows an option that is not global. -/
theorem command_of_known {command option : Bytes} (known : isKnown command option = true)
    (own : option ∉ globalOptions) : command ∈ commands := by
  have listed : option ∈ knownOptions command := by simpa [isKnown,own] using known
  have names : optionTable.map (·.1) = commands := rfl
  cases found : optionTable.find? (·.1 = command) with
  | none =>
    rw [knownOptions,found] at listed
    cases listed
  | some entry =>
    have same : entry.1 = command := by simpa using List.find?_some found
    rw [← names,← same]
    exact List.mem_map_of_mem (List.mem_of_find?_eq_some found)

/-- A line that is read to its end though it asks for one of the command's own options has
no error. -/
theorem no_error_of_occurs {option : Bytes} (takes : TakesValue option) (own : option ∉ globalOptions)
    {arguments : List Bytes} (occurs : Occurs option arguments) (read : ¬Refused arguments) :
    (parse arguments).error = none := by
  rcases spoken_of_occurs takes (occurs_behind_command takes occurs) with ⟨value,listed⟩ | ⟨name,listed⟩
  · have known : isKnown (spokenCommand arguments) option = true := by
      by_contra unknown
      exact read ⟨_,listed,Bool.eq_false_of_not_eq_true unknown⟩
    exact (parse_read read).1 (command_of_known known own)
  · exact absurd ⟨_,listed,rfl⟩ read

theorem values_eq (parsed : ParsedCommand) (name : Bytes) :
    parsed.values name = (given parsed name).flatMap ParsedCommand.pieces := by
  unfold ParsedCommand.values given
  cases parsed.find name <;> rfl

end CommandLine

/-! ### Usable values -/

theorem trim_ne_nil_iff (text : Bytes) : trim text ≠ [] ↔ ∃ c ∈ text, isSpace c = false := by
  have front : trim text = [] ↔ text.dropWhile isSpace = [] := by
    rw [trim,List.rdropWhile_eq_nil_iff]
    constructor
    · intro all
      by_contra some
      have first := List.head_dropWhile_not isSpace some
      rw [all _ (List.head_mem some)] at first
      cases first
    · intro none c inside
      rw [none] at inside
      cases inside
  rw [ne_eq,front,List.dropWhile_eq_nil_iff]
  simp

/-- A byte that is neither a comma nor a blank. -/
def Usable (raw : Bytes) : Prop := ∃ c ∈ raw, c ≠ 44 ∧ isSpace c = false

theorem pieces_ne_nil_iff (raw : Bytes) : ParsedCommand.pieces raw ≠ [] ↔ Usable raw := by
  have some : ParsedCommand.pieces raw ≠ [] ↔ ∃ part ∈ raw.splitOn 44, trim part ≠ [] := by
    constructor
    · intro nonempty
      obtain ⟨piece,listed⟩ := List.exists_mem_of_ne_nil _ nonempty
      obtain ⟨trimmed,visible⟩ := List.mem_filter.mp listed
      obtain ⟨part,kept,rfl⟩ := List.mem_map.mp trimmed
      exact ⟨part,(List.mem_filter.mp kept).1,by simpa using visible⟩
    · rintro ⟨part,listed,visible⟩
      have full : part ≠ [] := by
        rintro rfl
        exact visible rfl
      have kept : part ∈ split raw 44 true := List.mem_filter.mpr ⟨listed,by simpa using full⟩
      exact List.ne_nil_of_mem (List.mem_filter.mpr ⟨List.mem_map_of_mem kept,by simpa using visible⟩)
  rw [some]
  constructor
  · rintro ⟨part,listed,visible⟩
    obtain ⟨c,inside,space⟩ := (trim_ne_nil_iff part).mp visible
    obtain ⟨member,comma⟩ := (mem_parts_iff raw 44 c).mp ⟨part,listed,inside⟩
    exact ⟨c,member,comma,space⟩
  · rintro ⟨c,member,comma,space⟩
    obtain ⟨part,listed,inside⟩ := (mem_parts_iff raw 44 c).mpr ⟨member,comma⟩
    exact ⟨part,listed,(trim_ne_nil_iff part).mpr ⟨c,inside,space⟩⟩

/-! ### Criteria -/

inductive Criterion where
  | suite
  | test
  | tag
  | excludeTag
  | excludeSuite
  deriving DecidableEq

namespace Criterion

def option : Criterion → Bytes
  | .suite => ascii "suite"
  | .test => ascii "test"
  | .tag => ascii "tag"
  | .excludeTag => ascii "exclude-tag"
  | .excludeSuite => ascii "exclude-suite"

def key : Criterion → Bytes
  | .suite => ascii "suite"
  | .test => ascii "test"
  | .tag => ascii "tag"
  | .excludeTag => ascii "exclude_tag"
  | .excludeSuite => ascii "exclude_suite"

def list : Criterion → TestFilter → List Bytes
  | .suite => TestFilter.suites
  | .test => TestFilter.names
  | .tag => TestFilter.tags
  | .excludeTag => TestFilter.excludeTags
  | .excludeSuite => TestFilter.excludeSuites

/-- The list of the criterion has an item, so the filter is not the one of all tests. -/
def Narrows (criterion : Criterion) (filter : TestFilter) : Prop :=
  criterion.list filter ≠ [] ∧ filter.empty = false

instance (criterion : Criterion) (filter : TestFilter) : Decidable (criterion.Narrows filter) :=
  inferInstanceAs (Decidable (_ ∧ _))

/-- On the command line. -/
def KeptByLine (criterion : Criterion) (arguments : List Bytes) : Prop :=
  CommandLine.Occurs criterion.option arguments →
    (CommandLine.parse arguments).error ≠ none ∨
      criterion.Narrows (CommandLine.filterFrom (CommandLine.parse arguments))

/-- In the body of `POST /api/runs`. One that is no JSON is answered with an error. -/
def KeptByBody (criterion : Criterion) (text : Bytes) : Prop :=
  ∀ body ∈ RestApiServer.requestBody text, (body.find criterion.key).isSome →
    criterion.Narrows (RestApiServer.filterFromBody body)

instance (criterion : Criterion) (arguments : List Bytes) : Decidable (criterion.KeptByLine arguments) :=
  inferInstanceAs (Decidable (_ → _ ∨ _))

instance (criterion : Criterion) (text : Bytes) : Decidable (criterion.KeptByBody text) :=
  inferInstanceAs (Decidable (∀ body ∈ RestApiServer.requestBody text, _ → _))

/-- The line is refused, an occurrence has a usable value, or a bare word stands in for
`--test`. -/
def SaidInLine (criterion : Criterion) (arguments : List Bytes) : Prop :=
  CommandLine.Refused arguments ∨
    (∃ value, .setting criterion.option value ∈ CommandLine.tokens (CommandLine.spokenArguments arguments) ∧
      Usable value) ∨
    criterion = .test ∧ ∃ text, .word text ∈ CommandLine.tokens (CommandLine.spokenArguments arguments)

/-- A string that is more than commas, or an array with a string in it. -/
def Says : Value → Prop
  | .string raw => ∃ c ∈ raw, c ≠ 44
  | .array items => ∃ text, .string text ∈ items
  | _ => False

theorem narrows_iff (criterion : Criterion) (filter : TestFilter) :
    criterion.Narrows filter ↔ criterion.list filter ≠ [] := by
  refine ⟨And.left,fun some => ⟨some,?_⟩⟩
  cases criterion
  all_goals
    simp only [list] at some
    simp [TestFilter.empty,some]

theorem option_facts (criterion : Criterion) :
    CommandLine.TakesValue criterion.option ∧ criterion.option ∉ CommandLine.globalOptions := by
  cases criterion <;> decide

theorem list_filterFrom (criterion : Criterion) (parsed : ParsedCommand) :
    criterion.list (CommandLine.filterFrom parsed) =
      (CommandLine.given parsed criterion.option).flatMap ParsedCommand.pieces ++
        if criterion = .test then parsed.positionals else [] := by
  rw [← CommandLine.values_eq]
  cases criterion <;> simp [list,CommandLine.filterFrom,option]

theorem list_filterFromBody (criterion : Criterion) (body : Value) :
    criterion.list (RestApiServer.filterFromBody body) = RestApiServer.collect body criterion.key := by
  cases criterion <;> rfl

/-! ### What is lost -/

theorem split_ne_nil_iff (raw : Bytes) : split raw 44 true ≠ [] ↔ ∃ c ∈ raw, c ≠ 44 := by
  constructor
  · intro nonempty
    obtain ⟨part,listed⟩ := List.exists_mem_of_ne_nil _ nonempty
    obtain ⟨cut,full⟩ := List.mem_filter.mp listed
    obtain ⟨c,inside⟩ := List.exists_mem_of_ne_nil part (by simpa using full)
    exact ⟨c,(mem_parts_iff raw 44 c).mp ⟨part,cut,inside⟩⟩
  · rintro ⟨c,member,comma⟩
    obtain ⟨part,cut,inside⟩ := (mem_parts_iff raw 44 c).mpr ⟨member,comma⟩
    have full : part ≠ [] := List.ne_nil_of_mem inside
    exact List.ne_nil_of_mem (List.mem_filter.mpr ⟨cut,by simpa using full⟩)

theorem collect_ne_nil_iff (body : Value) (key : Bytes) :
    RestApiServer.collect body key ≠ [] ↔ ∃ value ∈ body.find key, Says value := by
  rw [RestApiServer.collect]
  cases body.find key with
  | none => simp
  | some value =>
    cases value with
    | string raw => simpa [Says] using split_ne_nil_iff raw
    | array items =>
      simp only [Option.mem_some_iff,exists_eq_left',Says,ne_eq,List.filterMap_eq_nil_iff,not_forall]
      constructor
      · rintro ⟨item,listed,found⟩
        cases item with
        | string text => exact ⟨text,listed⟩
        | _ => exact absurd rfl found
      · rintro ⟨text,listed⟩
        exact ⟨_,listed,by simp [Value.asString?]⟩
    | _ => simp [Says]

theorem keptByBody_iff (criterion : Criterion) (text : Bytes) : criterion.KeptByBody text ↔
    ∀ body ∈ RestApiServer.requestBody text, ∀ value ∈ body.find criterion.key, Says value := by
  refine forall₂_congr fun body _ => ?_
  rw [narrows_iff,list_filterFromBody,collect_ne_nil_iff]
  cases body.find criterion.key <;> simp

theorem mem_valueOf_iff (name value : Bytes) (read : List CommandLine.Token) :
    value ∈ read.filterMap (CommandLine.Token.valueOf? name) ↔ .setting name value ∈ read := by
  rw [List.mem_filterMap]
  constructor
  · rintro ⟨token,listed,found⟩
    cases token with
    | setting other held =>
      rw [CommandLine.Token.valueOf?] at found
      split at found
      · next same =>
        cases found
        exact same ▸ listed
      · cases found
    | _ => cases found
  · intro listed
    exact ⟨_,listed,if_pos rfl⟩

theorem mem_text_iff (text : Bytes) (read : List CommandLine.Token) :
    text ∈ read.filterMap CommandLine.Token.text? ↔ .word text ∈ read := by
  rw [List.mem_filterMap]
  constructor
  · rintro ⟨token,listed,found⟩
    cases token with
    | word other =>
      cases found
      exact listed
    | _ => cases found
  · intro listed
    exact ⟨_,listed,rfl⟩

/-- On a line that is not refused the list holds the usable values and, for `--test`, the
words. -/
theorem list_ne_nil_iff (criterion : Criterion) {arguments : List Bytes} (read : ¬CommandLine.Refused arguments) :
    criterion.list (CommandLine.filterFrom (CommandLine.parse arguments)) ≠ [] ↔ criterion.SaidInLine arguments := by
  obtain ⟨-,positionals,options⟩ := CommandLine.parse_read read
  have values : (CommandLine.given (CommandLine.parse arguments) criterion.option).flatMap ParsedCommand.pieces ≠ [] ↔
      ∃ value, .setting criterion.option value ∈ CommandLine.tokens (CommandLine.spokenArguments arguments) ∧
        Usable value := by
    rw [options,ne_eq,List.flatMap_eq_nil_iff,not_forall]
    refine exists_congr fun value => ?_
    rw [Classical.not_imp,mem_valueOf_iff,← ne_eq,pieces_ne_nil_iff]
  have words : (if criterion = .test then (CommandLine.parse arguments).positionals else []) ≠ [] ↔
      criterion = .test ∧ ∃ text, .word text ∈ CommandLine.tokens (CommandLine.spokenArguments arguments) := by
    rw [positionals]
    split
    · next test =>
      simp only [test,true_and,← mem_text_iff]
      exact ⟨List.exists_mem_of_ne_nil _,fun ⟨_,listed⟩ => List.ne_nil_of_mem listed⟩
    · next other => simp [other]
  rw [list_filterFrom,ne_eq,List.append_eq_nil_iff,not_and_or]
  unfold SaidInLine
  rw [← values,← words]
  simp [read]

theorem keptByLine_iff (criterion : Criterion) (arguments : List Bytes) : criterion.KeptByLine arguments ↔
    (CommandLine.Occurs criterion.option arguments → criterion.SaidInLine arguments) := by
  refine imp_congr_right fun occurs => ?_
  by_cases refused : CommandLine.Refused arguments
  · exact iff_of_true (.inl (CommandLine.parse_refused refused)) (.inl refused)
  rw [narrows_iff,criterion.list_ne_nil_iff refused]
  obtain ⟨takes,own⟩ := criterion.option_facts
  simp [CommandLine.no_error_of_occurs takes own occurs refused]

/-- A criterion is kept exactly where something usable is said about it. -/
theorem kept_iff (criterion : Criterion) (arguments : List Bytes) (text : Bytes) :
    (criterion.KeptByLine arguments ↔
      (CommandLine.Occurs criterion.option arguments → criterion.SaidInLine arguments)) ∧
    (criterion.KeptByBody text ↔
      ∀ body ∈ RestApiServer.requestBody text, ∀ value ∈ body.find criterion.key, Says value) :=
  ⟨criterion.keptByLine_iff arguments,criterion.keptByBody_iff text⟩

/-- `testforge run --suite ,` and a body whose suite is a number run all tests. -/
theorem suite_dropped : ¬(∀ criterion : Criterion, (∀ arguments, criterion.KeptByLine arguments) ∧
    ∀ text, criterion.KeptByBody text) ∧
    ¬Criterion.suite.KeptByLine [ascii "run",ascii "--suite",ascii ","] ∧
    CommandLine.filterFrom (CommandLine.parse [ascii "run",ascii "--suite",ascii ","]) = {} ∧
    ¬Criterion.suite.KeptByBody (ascii "\x7b\"suite\":42\x7d") := by
  have line : ¬Criterion.suite.KeptByLine [ascii "run",ascii "--suite",ascii ","] := by decide
  exact ⟨fun all => line ((all .suite).1 _),line,by decide,by decide⟩

end Criterion

end TestForge
