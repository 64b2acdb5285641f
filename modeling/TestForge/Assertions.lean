import TestForge.Clock
import TestForge.JsonEquality
import TestForge.SoftAssertions

/-! The checks that a generated test makes: what each compares and the texts it reports. -/
namespace TestForge

open Json Strings

/-- `%.*f` for a finite value that is not negative. -/
def Double.formatFixed (places : Nat) (d : Double) : Bytes :=
  let scaled := Double.roundHalfEven (d.units * 10^places) (2^1074)
  decimal (scaled / 10^places) ++ 46 :: Clock.padTo places (decimal (scaled % 10^places))

/-- A stream with the flag `fixed`. -/
def Double.fixed (places : Nat) (d : Double) : Bytes := (if d.negative then [45] else []) ++ d.formatFixed places

/-- Milliseconds as `static_cast<double>(millis) / 1000.0`. -/
def inSeconds (millis : Int) : Double := (Double.ofInt millis).div (Double.ofInt 1000)

def formatDuration (total : Int) : Bytes :=
  if total < 0 then ascii "0ms"
  else if total < 1000 then decimalInt total ++ ascii "ms"
  else if total < 60000 then (inSeconds total).formatFixed 3 ++ ascii "s"
  else decimalInt (total / 60000) ++ ascii "m " ++ Clock.padTo 5 ((inSeconds (total % 60000)).formatFixed 2) ++ ascii "s"

/-- What a check hands to `AssertionEngine::report`, its location apart. -/
structure Report where
  succeeded : Bool
  expression : Bytes
  expected : Bytes
  actual : Bytes
  message : Bytes := []

def Report.failure (report : Report) (location : Option Bytes) : AssertionFailure where
  message := SoftAssertions.buildMessage report.message report.expression
  expression := report.expression
  expected := report.expected
  actual := report.actual
  location

namespace Assertions

/-- `detail::display` of a text. -/
def display (text : Bytes) : Bytes := 34 :: text ++ [34]

def note (text endpoint : Bytes) : Bytes := if endpoint = [] then [] else text ++ endpoint

def statusCode (actual expected : Int) (endpoint : Bytes) : Report where
  succeeded := actual == expected
  expression := ascii "response.statusCode == " ++ decimalInt expected
  expected := decimalInt expected
  actual := decimalInt actual
  message := note (ascii "unexpected HTTP status for ") endpoint

def statusCodeIn (actual : Int) (allowed : List Int) (endpoint : Bytes) : Report where
  succeeded := allowed.any (· == actual)
  expression := ascii "response.statusCode in allowed set"
  expected := ascii "one of [" ++ join (allowed.map decimalInt) (ascii ", ") ++ ascii "]"
  actual := decimalInt actual
  message := note (ascii "unexpected HTTP status for ") endpoint

def responseTime (actual budget : Int) (endpoint : Bytes) : Report where
  succeeded := actual ≤ budget
  expression := ascii "response.elapsed <= budget"
  expected := ascii "<= " ++ formatDuration budget
  actual := formatDuration actual ++
    if actual ≤ budget then [] else ascii " (over budget by " ++ formatDuration (actual - budget) ++ ascii ")"
  message := note (ascii "response time budget exceeded for ") endpoint

def containsSubstring (haystack needle expression : Bytes) : Report where
  succeeded := contains haystack needle
  expression
  expected := ascii "text containing " ++ display needle
  actual := display (truncate haystack 400)

def doesNotContainSubstring (haystack needle expression : Bytes) : Report where
  succeeded := !contains haystack needle
  expression
  expected := ascii "text NOT containing " ++ display needle
  actual := display (truncate haystack 400)

def jsonHasField (document : Value) (dottedPath : Bytes) : Report where
  succeeded := (document.path dottedPath).isSome
  expression := ascii "json has field " ++ dottedPath
  expected := ascii "field '" ++ dottedPath ++ ascii "' present"
  actual := if (document.path dottedPath).isSome then ascii "present"
    else ascii "absent; document = " ++ truncate document.dump 400

def jsonFieldEquals (document : Value) (dottedPath : Bytes) (expected : Value) : Report :=
  match document.path dottedPath with
  | none => {
      succeeded := false
      expression := ascii "json." ++ dottedPath ++ ascii " == expected"
      expected := expected.dump
      actual := ascii "field absent; document = " ++ truncate document.dump 400 }
  | some found => {
      succeeded := found.equals expected
      expression := ascii "json." ++ dottedPath ++ ascii " == expected"
      expected := expected.dump
      actual := found.dump }

end Assertions
end TestForge
