import PatternEngine.Match.Machine

/-!
# Searching an input

A program is tried at each place of the input from the start on until it matches. The steps
and the log of attempts are shared by all places. A program that is anchored is tried at the
start of the input alone.
-/

namespace PatternEngine

/-- How far a search may go. -/
structure Limits where
  /-- Patterns tried in all. -/
  steps : Nat := 50000000
  /-- Captures nested in one another. -/
  depth : Nat := 200
  deriving DecidableEq, Repr

/-- What a search found. -/
structure Outcome where
  /-- The match. -/
  tree : Option MatchTree
  /-- Bytes behind the match, or behind the place where the search began when there is none. -/
  leftover : Nat
  /-- A limit cut the search short. -/
  abend : Bool
  deriving Repr

/-- There is a match. -/
def Outcome.isMatch (outcome : Outcome) : Bool := outcome.tree.isSome

namespace Program

/-- Make an attempt at a place and at the `more` places behind it, until one does not fail. -/
def sweep (attempt : Place → Run → Verdict × Run) : (more : Nat) → Place → Run → Verdict × Run
  | 0, place, run => attempt place run
  | more + 1, place, run =>
    match attempt place run with
    | (.failed, run) => sweep attempt more (place.advance 1) run
    | (.matched behind, run) => (.matched behind, run)
    | (.exhausted, run) => (.exhausted, run)

/-- The outcome of a search that began with `ahead` bytes before it, given what was recorded. The
match of the whole program was recorded last. -/
def outcomeOf (ahead : Nat) (captures : Array MatchTree) : Verdict → Outcome
  | .matched behind => ⟨captures.back?, behind.ahead.size, false⟩
  | .failed => ⟨none, ahead, false⟩
  | .exhausted => ⟨none, ahead, true⟩

/-- Try a program at a place with nothing recorded. -/
def attempt (p : Program) (maxDepth : Nat) (place : Place) (run : Run) : Verdict × Run :=
  p.root.eval maxDepth 0 place { run with captures := #[] }

/-- Search an input from a place on, counted from one, with room in the log for so many
attempts. A place before the first counts as the first. -/
def search (p : Program) (input : Bytes) (start : Nat) (limits : Limits) (room : Nat) :
    Outcome × Run :=
  let origin := max start 1 - 1
  let run : Run := { steps := limits.steps, room }
  let first := Place.start input
  if first.ahead.size < origin then (⟨none, 0, false⟩, run)
  else
    let place := first.advance origin
    let (verdict, run) :=
      if p.root.anchored then
        if origin = 0 then p.attempt limits.depth first run else (.failed, run)
      else sweep (p.attempt limits.depth) place.ahead.size place run
    (outcomeOf place.ahead.size run.captures verdict, run)

/-- The first match at or behind a place, counted from one. -/
def find (p : Program) (input : Bytes) (start : Nat) (limits : Limits := {}) : Outcome :=
  (p.search input start limits 0).1

end Program

end PatternEngine
