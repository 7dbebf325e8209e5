import PatternEngine.Match.Search
import PatternEngine.Text.Json

/-!
# Traces

A trace is the log of a search: every attempt of a named pattern, in the order the attempts
began, up to a limit.
-/

namespace PatternEngine

/-- Attempts kept in a trace. -/
def attemptLimit : Nat := 10000

/-- The log of a search. -/
structure Trace where
  /-- The search found a match. -/
  isMatch : Bool
  /-- A limit cut the search short. -/
  abend : Bool
  /-- The attempts in the order they began. -/
  attempts : List Attempt
  /-- There were more attempts than are kept. -/
  truncated : Bool
  deriving DecidableEq, Repr

/-- A form of output for a trace. -/
inductive TraceStyle where
  /-- Records. -/
  | json
  /-- A line for each attempt, with the text it matched. -/
  | full
  /-- A short line for each attempt. -/
  | condensed
  deriving DecidableEq, Repr

namespace TraceStyle

/-- The name of a style. -/
def name : TraceStyle → String
  | .json => "json"
  | .full => "full"
  | .condensed => "condensed"

/-- The style of a name. -/
def ofName? (text : String) : Option TraceStyle :=
  [TraceStyle.json, .full, .condensed].find? fun style => style.name == text

/-- The complaint about a name that no style has. -/
def unknownMessage (text : String) : String := "unknown trace style '" ++ text ++ "'"

end TraceStyle

/-- Search an input and keep the log. -/
def Program.trace (p : Program) (input : Bytes) (start : Nat) : Trace :=
  let (outcome, run) := p.search input start {} attemptLimit
  ⟨outcome.isMatch, outcome.abend, run.attempts.reverse, run.truncated⟩

namespace Trace

/-- The record of an attempt, its places counted from one. -/
def attemptJson (attempt : Attempt) : Json :=
  .obj ([("type", .str attempt.name), ("depth", .nat attempt.depth),
      ("s", .nat (attempt.start + 1))] ++
    (attempt.stop.map fun stop => ("e", Json.nat (stop + 1))).toList ++
    [("match", .bool attempt.stop.isSome)])

/-- The records of a trace. -/
def toJson (trace : Trace) (p : Program) : Json :=
  .obj [("expression", .str p.expression), ("matched", .bool trace.isMatch),
    ("abend", .bool trace.abend), ("truncated", .bool trace.truncated),
    ("events", .arr (trace.attempts.map attemptJson))]

/-- Two spaces for each level. -/
def indent (depth : Nat) : String := String.ofList (List.replicate (2 * depth) ' ')

/-- A short line: the name, the place and a sign. -/
def condensedLine (attempt : Attempt) : String :=
  let place := indent attempt.depth ++ attempt.name ++ " " ++ (attempt.start + 1).repr
  match attempt.stop with
  | some stop => place ++ "-" ++ (stop + 1).repr ++ " +\n"
  | none => place ++ " -\n"

/-- A line with the text that was matched. -/
def fullLine (input : Bytes) (attempt : Attempt) : String :=
  let start := (attempt.start + 1).repr
  let place := indent attempt.depth ++ attempt.name ++ " at " ++ start ++ ": "
  match attempt.stop with
  | some stop =>
    place ++ "matched " ++ Quoted.quote (Utf8.decodeLossy (input.slice attempt.start stop)) ++
      " (" ++ start ++ ".." ++ (stop + 1).repr ++ ")\n"
  | none => place ++ "no match\n"

/-- The lines above the attempts of a full trace. -/
def heading (p : Program) (input : Bytes) : String :=
  "Expression: " ++ p.expression ++ "\nInput: " ++ Quoted.quote (Utf8.decodeLossy input) ++
    " (" ++ input.length.repr ++ " bytes)\n"

/-- The lines below the attempts. -/
def footing (trace : Trace) : String :=
  (if trace.truncated then
    "... trace truncated after " ++ trace.attempts.length.repr ++ " events\n" else "") ++
  (if trace.abend then "abend: match limit reached\n" else "") ++
  (if trace.isMatch then "Matched\n" else "No match\n")

/-- The output of a trace. -/
def render (trace : Trace) (p : Program) (input : Bytes) : TraceStyle → String
  | .json => (trace.toJson p).compact
  | .full => heading p input ++ String.join (trace.attempts.map (fullLine input)) ++ trace.footing
  | .condensed => String.join (trace.attempts.map condensedLine) ++ trace.footing

end Trace

end PatternEngine
