import TestForge.Selector
import TestForge.Config

/-! The command line: parsing of the arguments and the options of `testforge run`. -/
namespace TestForge

open Strings Settings

/-- `options` is the source's map, as one entry a name. -/
structure ParsedCommand where
  command : Bytes := []
  subcommand : Bytes := []
  options : List (Bytes × List Bytes) := []
  positionals : List Bytes := []
  helpRequested : Bool := false
  versionRequested : Bool := false
  error : Option Bytes := none
  deriving DecidableEq

namespace ParsedCommand

/-- `options[name]` with some more values at its end; the entry is made when it is missing. -/
def append (name : Bytes) (more : List Bytes) : List (Bytes × List Bytes) → List (Bytes × List Bytes)
  | [] => [(name,more)]
  | entry :: rest => if entry.1 = name then (name,entry.2 ++ more) :: rest else entry :: append name more rest

def find (parsed : ParsedCommand) (name : Bytes) : Option (List Bytes) :=
  (parsed.options.find? (·.1 = name)).map (·.2)

def value (parsed : ParsedCommand) (name : Bytes) (fallback : Bytes := []) : Bytes :=
  match parsed.find name with
  | some values => values.getLast?.getD fallback
  | none => fallback

/-- One occurrence may carry several values between commas. -/
def pieces (raw : Bytes) : List Bytes := ((split raw 44 true).map trim).filter (· ≠ [])

def values (parsed : ParsedCommand) (name : Bytes) : List Bytes :=
  match parsed.find name with
  | some raws => raws.flatMap pieces
  | none => []

def int64Value (parsed : ParsedCommand) (name : Bytes) (fallback : Int64) : Int64 :=
  let raw := parsed.value name
  if raw = [] then fallback else ((parseInt raw).map Int64.ofInt).getD fallback

def intValue (parsed : ParsedCommand) (name : Bytes) (fallback : Int32) : Int32 :=
  (parsed.int64Value name fallback.toInt64).toInt32

def flag (parsed : ParsedCommand) (name : Bytes) (fallback : Bool := false) : Bool :=
  match parsed.find name with
  | none => fallback
  | some values =>
    match values.getLast? with
    | none => true
    | some last => (parseBool last).getD true

end ParsedCommand

namespace CommandLine

def globalOptions : List Bytes :=
  [ascii "config",ascii "log-level",ascii "log-file",ascii "log-json",ascii "no-color",ascii "color",ascii "db",
    ascii "no-db",ascii "help",ascii "version",ascii "quiet",ascii "verbose"]

def selectionOptions : List Bytes :=
  [ascii "suite",ascii "test",ascii "tag",ascii "exclude-tag",ascii "exclude-suite",ascii "shard",ascii "shards",
    ascii "shuffle",ascii "seed",ascii "include-disabled"]

def flagOptions : List Bytes :=
  [ascii "help",ascii "version",ascii "no-color",ascii "color",ascii "log-json",ascii "quiet",ascii "verbose",
    ascii "shuffle",ascii "fail-fast",ascii "no-db",ascii "include-disabled",ascii "json",ascii "no-report",
    ascii "mock",ascii "register",ascii "watch",ascii "open",ascii "dry-run",ascii "no-persist",ascii "gpu",
    ascii "full",ascii "prune",ascii "all",ascii "execute",ascii "flaky"]

def isFlagOption (name : Bytes) : Bool := flagOptions.contains name

def optionTable : List (Bytes × List Bytes) := [
  (ascii "list",selectionOptions ++ [ascii "json",ascii "format"]),
  (ascii "run",selectionOptions ++ [ascii "workers",ascii "timeout",ascii "fail-fast",ascii "retry-failed",
    ascii "label",ascii "report-dir",ascii "no-report",ascii "json",ascii "no-persist",ascii "dry-run"]),
  (ascii "report",[ascii "run",ascii "format",ascii "output",ascii "open"]),
  (ascii "diagnose",[ascii "json",ascii "gpu",ascii "full"]),
  (ascii "history",[ascii "limit",ascii "test",ascii "json",ascii "prune",ascii "days"]),
  (ascii "stats",[ascii "runs",ascii "json",ascii "flaky",ascii "limit"]),
  (ascii "serve",[ascii "host",ascii "port",ascii "workers",ascii "static",ascii "open"]),
  (ascii "ai",[ascii "requirement",ascii "file",ascii "suite",ascii "max-tests",ascii "register",ascii "run",
    ascii "test",ascii "json",ascii "mock",ascii "limit"]),
  (ascii "spec",[ascii "file",ascii "register",ascii "execute",ascii "json",ascii "workers"]),
  (ascii "db",[ascii "json",ascii "prune",ascii "days",ascii "all"]),
  (ascii "version",[ascii "json"]),
  (ascii "help",[])]

def knownOptions (command : Bytes) : List Bytes := ((optionTable.find? (·.1 = command)).map (·.2)).getD []

def commands : List Bytes :=
  [ascii "list",ascii "run",ascii "report",ascii "diagnose",ascii "history",ascii "stats",ascii "serve",ascii "ai",
    ascii "spec",ascii "db",ascii "version",ascii "help"]

def isKnown (command name : Bytes) : Bool := (knownOptions command).contains name || globalOptions.contains name

/-- `-h` and `-V` before the command word. -/
def leadingFlags (parsed : ParsedCommand) : List Bytes → ParsedCommand × List Bytes
  | [] => (parsed,[])
  | argument :: rest =>
    if argument = ascii "-h" ∨ argument = ascii "--help" then leadingFlags { parsed with helpRequested := true } rest
    else if argument = ascii "-V" ∨ argument = ascii "--version" then
      leadingFlags { parsed with versionRequested := true } rest
    else (parsed,argument :: rest)

/-- The next word in lower case, when there is one that is no option. -/
def bareWord : List Bytes → Bytes × List Bytes
  | [] => ([],[])
  | word :: rest => if startsWith word (ascii "-") then ([],word :: rest) else (toLower word,rest)

def unknownOption (parsed : ParsedCommand) (name : Bytes) : Bytes :=
  ascii "unknown option '--" ++ name ++ ascii "'" ++
    (if parsed.command = [] then [] else ascii " for command '" ++ parsed.command ++ ascii "'") ++
    ascii "\nRun 'testforge " ++ parsed.command ++ ascii " --help' to see the options."

/-- The arguments behind the command words. An error ends the parse. -/
def parseArguments (parsed : ParsedCommand) : List Bytes → Except ParsedCommand ParsedCommand
  | [] => .ok parsed
  | argument :: rest =>
    if argument = ascii "--" then .ok { parsed with positionals := parsed.positionals ++ rest }
    else if !startsWith argument (ascii "-") then
      parseArguments { parsed with positionals := parsed.positionals ++ [argument] } rest
    else if argument = ascii "-h" then parseArguments { parsed with helpRequested := true } rest
    else if argument = ascii "-V" then parseArguments { parsed with versionRequested := true } rest
    else if !startsWith argument (ascii "--") then
      .error { parsed with error := some (ascii "unknown short option '" ++ argument ++
        ascii "' (only -h and -V are supported; use the long form otherwise)") }
    else
      let long := argument.drop 2
      let name := long.takeWhile (· ≠ 61)
      if name = ascii "help" then parseArguments { parsed with helpRequested := true } rest
      else if name = ascii "version" then parseArguments { parsed with versionRequested := true } rest
      else if !isKnown parsed.command name then .error { parsed with error := some (unknownOption parsed name) }
      else if 61 ∈ long then
        let inlineValue := long.drop (name.length + 1)
        parseArguments { parsed with options := ParsedCommand.append name [inlineValue] parsed.options } rest
      else if isFlagOption name then
        parseArguments { parsed with options := ParsedCommand.append name [] parsed.options } rest
      else
        let missing := { parsed with error := some (ascii "option '--" ++ name ++ ascii "' requires a value") }
        match rest with
        | [] => .error missing
        | next :: later =>
          if startsWith next (ascii "--") then .error missing
          else parseArguments { parsed with options := ParsedCommand.append name [next] parsed.options } later

/-- `argv` from its second entry on. -/
def parse (arguments : List Bytes) : ParsedCommand :=
  let (parsed,rest) := leadingFlags {} arguments
  let (command,rest) := bareWord rest
  let (subcommand,rest) :=
    if command = ascii "ai" ∨ command = ascii "db" then bareWord rest else ([],rest)
  match parseArguments { parsed with command, subcommand } rest with
  | .error parsed => parsed
  | .ok parsed =>
    let parsed := if parsed.command = [] ∧ !parsed.helpRequested ∧ !parsed.versionRequested then
      { parsed with helpRequested := true } else parsed
    if parsed.command ≠ [] ∧ !parsed.helpRequested ∧ !parsed.versionRequested ∧ parsed.command ∉ commands then
      { parsed with error := some (ascii "unknown command '" ++ parsed.command ++ ascii "'\nRun 'testforge help'.") }
    else parsed

def filterFrom (parsed : ParsedCommand) : TestFilter where
  suites := parsed.values (ascii "suite")
  names := parsed.values (ascii "test") ++ parsed.positionals
  tags := parsed.values (ascii "tag")
  excludeTags := parsed.values (ascii "exclude-tag")
  excludeSuites := parsed.values (ascii "exclude-suite")
  includeDisabled := parsed.flag (ascii "include-disabled")

def selectionFrom (parsed : ParsedCommand) : SelectionOptions where
  shuffle := parsed.flag (ascii "shuffle")
  seed := (parsed.int64Value (ascii "seed") 0).toUInt64
  shardCount := max 1 (parsed.intValue (ascii "shards") 1)
  shardIndex := max 0 (parsed.intValue (ascii "shard") 0)

end CommandLine

/-- The options that `Commands::run` makes of the command line. -/
def Commands.runOptions (config : Config) (parsed : ParsedCommand) : RunOptions :=
  let filter := CommandLine.filterFrom parsed
  { filter := if filter.empty then { filter with excludeSuites := config.execution.excludeSuitesByDefault } else filter
    selection := CommandLine.selectionFrom parsed
    workers := parsed.intValue (ascii "workers") 0
    failFast := parsed.flag (ascii "fail-fast") config.execution.failFast
    retryFailed := parsed.intValue (ascii "retry-failed") config.execution.retryFailed
    label := parsed.value (ascii "label")
    persist := !parsed.flag (ascii "no-persist") }

end TestForge
