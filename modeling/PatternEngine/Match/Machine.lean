import PatternEngine.Pattern.Basic
import PatternEngine.Text.Utf8

/-!
# The matching machine

A pattern is matched at a place of the input by recursion on the pattern. Alternatives are
ordered and repetitions keep what they took, so at most one match comes out. Two limits can
cut a match short: a number of steps for the whole run, one for each pattern that is tried,
and a number of nested captures.

The matches of captures are recorded on one stack for the whole run. Whatever fails, and every
predicate, rolls the stack back to the mark where it began; a capture that matches takes all
that was recorded behind its mark into its own match. Separately a log keeps every attempt of
a capture, as far as it has room.
-/

namespace PatternEngine

/-- A place in an input. -/
structure Place where
  /-- Bytes before the place. -/
  pos : Nat
  /-- Bytes at and behind the place. -/
  ahead : SizedBytes
  deriving DecidableEq, Repr

namespace Place

/-- The first place of an input. -/
def start (input : Bytes) : Place := ⟨0, .ofBytes input⟩

/-- The place `n` bytes further on. -/
def advance (place : Place) (n : Nat) : Place := ⟨place.pos + n, place.ahead.drop n⟩

/-- The byte at the place, unless the input ends there. -/
def peek? (place : Place) : Option UInt8 := place.ahead.bytes.head?

/-- The input ends at the place. -/
def atEnd (place : Place) : Bool := place.ahead.bytes.isEmpty

end Place

/-- The recorded match of a named pattern, from offset `start` up to offset `stop`. -/
inductive MatchTree where
  /-- A match with the matches recorded inside it, in order. -/
  | node (name : String) (start stop : Nat) (subs : List MatchTree)
  deriving Repr

namespace MatchTree

/-- The name of the pattern that matched. -/
def name : MatchTree → String
  | .node name _ _ _ => name

/-- The offset of the first byte of the match. -/
def start : MatchTree → Nat
  | .node _ start _ _ => start

/-- The offset behind the last byte of the match. -/
def stop : MatchTree → Nat
  | .node _ _ stop _ => stop

/-- The matches recorded inside the match, in order. -/
def subs : MatchTree → List MatchTree
  | .node _ _ _ subs => subs

/-- The text of the match. -/
def text (input : Bytes) (tree : MatchTree) : Bytes := input.slice tree.start tree.stop

end MatchTree

/-- One attempt to match a named pattern. -/
structure Attempt where
  /-- The name of the pattern. -/
  name : String
  /-- The number of named patterns being tried around it. -/
  depth : Nat
  /-- The offset where it was tried. -/
  start : Nat
  /-- The offset where its match ended; none when it did not match or was cut short. -/
  stop : Option Nat
  deriving DecidableEq, Repr

/-- What a run has left, what it has recorded and what it has noted. -/
structure Run where
  /-- Steps that are left. -/
  steps : Nat
  /-- Attempts that the log still has room for. -/
  room : Nat
  /-- The recorded matches, oldest first. -/
  captures : Array MatchTree := #[]
  /-- The attempts noted, newest first. -/
  attempts : List Attempt := []
  /-- An attempt found no room. -/
  truncated : Bool := false
  deriving Repr

namespace Run

/-- Take one of the steps that are left. -/
def tick (run : Run) : Run := { run with steps := run.steps - 1 }

/-- Where the stack of recorded matches ends. -/
def mark (run : Run) : Nat := run.captures.size

/-- Forget the matches recorded behind a mark. -/
def rollBack (run : Run) (mark : Nat) : Run := { run with captures := run.captures.shrink mark }

/-- Take the matches recorded behind a mark into a match of their own. -/
def gather (run : Run) (mark : Nat) (name : String) (start stop : Nat) : Run :=
  let subs := (run.captures.extract mark run.captures.size).toList
  { run with captures := (run.captures.shrink mark).push (.node name start stop subs) }

/-- The run while a capture is tried: its attempt has taken its room in the log, and what is
tried inside is noted apart. -/
def enter (run : Run) : Run :=
  { run with
    room := run.room - 1
    attempts := []
    truncated := run.truncated || run.room == 0 }

/-- The run after a capture was tried: its attempt, if there was room, stands between what was
noted before it and what was tried inside. -/
def leave (run : Run) (room : Nat) (noted : List Attempt) (attempt : Attempt) : Run :=
  { run with attempts := run.attempts ++ if room == 0 then noted else attempt :: noted }

end Run

/-- How an attempt to match ended. -/
inductive Verdict where
  /-- A limit was reached. -/
  | exhausted
  /-- No match. -/
  | failed
  /-- A match up to a place. -/
  | matched (behind : Place)
  deriving DecidableEq, Repr

/-- The offset where a match ended. -/
def Verdict.stop? : Verdict → Option Nat
  | .matched behind => some behind.pos
  | _ => none

namespace Pattern

/-- A match of some bytes at a place that records nothing, if the condition holds. -/
def consume (condition : Bool) (width : Nat) (place : Place) : Verdict :=
  if condition then .matched (place.advance width) else .failed

/-- The end of a repetition after `count` copies, the first of which began at the mark. -/
def conclude (least mark count : Nat) (place : Place) (run : Run) : Verdict × Run :=
  if count < least then (.failed, run.rollBack mark) else (.matched place, run)

/-- Match further copies of a body, of which there have been `count`. A copy that consumes
nothing ends the repetition and makes up for any that are missing. All other copies consume
something, so the number of rounds is bounded by the number of bytes. -/
def repeatFrom (body : Place → Run → Verdict × Run) (least : Nat) (most : Option Nat) (mark : Nat) :
    Nat → Nat → Place → Run → Verdict × Run
  | 0, count, place, run => conclude least mark count place run
  | rounds + 1, count, place, run =>
    if most.any (· ≤ count) then conclude least mark count place run
    else
      let copy := run.mark
      match body place run with
      | (.exhausted, run) => (.exhausted, run)
      | (.failed, run) => conclude least mark count place (run.rollBack copy)
      | (.matched behind, run) =>
        if behind.pos == place.pos then conclude least mark (max count least) behind run
        else repeatFrom body least most mark rounds (count + 1) behind run

/-- The outcome of a predicate from that of its operand. -/
def foresee (kind : Lookahead) (place : Place) (mark : Nat) : Verdict × Run → Verdict × Run
  | (.exhausted, run) => (.exhausted, run)
  | (.failed, run) => (consume (kind == .absent) 0 place, run.rollBack mark)
  | (.matched _, run) => (consume (kind == .present) 0 place, run.rollBack mark)

/-- The outcome of a capture from that of its body, given the mark where the capture began, the
room there was for its attempt and what had been noted before. -/
def record (name : String) (depth : Nat) (place : Place) (mark room : Nat) (noted : List Attempt) :
    Verdict × Run → Verdict × Run
  | (verdict, run) =>
    let run := run.leave room noted ⟨name, depth, place.pos, verdict.stop?⟩
    match verdict with
    | .matched behind => (.matched behind, run.gather mark name place.pos behind.pos)
    | .failed => (.failed, run.rollBack mark)
    | .exhausted => (.exhausted, run)

mutual

/-- Match a pattern at a place, inside `depth` captures of at most `maxDepth`. -/
def eval (maxDepth : Nat) : Pattern → Nat → Place → Run → Verdict × Run
  | pattern, depth, place, run =>
    if run.steps = 0 then (.exhausted, run)
    else
      let run := run.tick
      match pattern with
      | .literal text => (consume (text.isPrefixOf place.ahead) text.size place, run)
      | .set members => (consume (place.peek?.any members.contains) 1 place, run)
      | .any =>
        match place.ahead.bytes with
        | [] => (.failed, run)
        | b :: rest => (consume true (Utf8.stepWidth b rest) place, run)
      | .inputStart => (consume (place.pos == 0) 0 place, run)
      | .inputEnd => (consume place.atEnd 0 place, run)
      | .seq items => evalSeq maxDepth items run.mark depth place run
      | .choice alternatives => evalChoice maxDepth alternatives run.mark depth place run
      | .repetition body least most =>
        repeatFrom (eval maxDepth body depth) least most run.mark (place.ahead.size + 1) 0 place run
      | .lookahead kind body => foresee kind place run.mark (eval maxDepth body depth place run)
      | .transparent body => eval maxDepth body depth place run
      | .capture name body =>
        if maxDepth ≤ depth then (.exhausted, run)
        else
          record name depth place run.mark run.room run.attempts
            (eval maxDepth body (depth + 1) place run.enter)

/-- Match all patterns of a list, one after the other; the first began at the mark. -/
def evalSeq (maxDepth : Nat) : List Pattern → Nat → Nat → Place → Run → Verdict × Run
  | [], _, _, place, run => (.matched place, run)
  | item :: items, mark, depth, place, run =>
    match eval maxDepth item depth place run with
    | (.matched behind, run) => evalSeq maxDepth items mark depth behind run
    | (.failed, run) => (.failed, run.rollBack mark)
    | (.exhausted, run) => (.exhausted, run)

/-- Match the first pattern of a list that does match; all of them begin at the mark. -/
def evalChoice (maxDepth : Nat) : List Pattern → Nat → Nat → Place → Run → Verdict × Run
  | [], _, _, _, run => (.failed, run)
  | item :: items, mark, depth, place, run =>
    match eval maxDepth item depth place run with
    | (.failed, run) => evalChoice maxDepth items mark depth place (run.rollBack mark)
    | (.matched behind, run) => (.matched behind, run)
    | (.exhausted, run) => (.exhausted, run)

end

end Pattern

end PatternEngine
