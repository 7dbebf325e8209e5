import PatternEngine.Proofs.Match.Checked
import PatternEngine.Proofs.Source.Lexemes
import PatternEngine.Proofs.Text.Boundaries
import PatternEngine.Source.Parser

/-!
# Reading with checks

The parser once more as it works on a text: a cursor that is an offset and is moved on and back, and
a counter of nested parts that goes up and down. The cursor may not leave the text, nor the counter
fall below zero; bytes are cut out between offsets of the text, and strings between boundaries of
its characters; and loops and calls have a number of rounds, which the length of the text or the
limit on nested parts sets. Each of these is checked, and a check that fails ends everything. It is
to be shown that none does, and that the parser reads what the readers on cursors read.

This module has the parser of blanks, words and names.
-/

namespace PatternEngine

/-- The cursor stands at an offset of the text, and what is ahead of it is the rest of the text. -/
def Cursor.In (c : Cursor) (text : Bytes) : Prop := (Cursor.start text).Reaches c

/-- The cursor stands between two characters of the text. -/
structure Cursor.OnChar (c : Cursor) (text : Bytes) : Prop where
  /-- The cursor is in the text. -/
  inText : c.In text
  /-- Its offset is a boundary. -/
  boundary : Utf8.isBoundary text c.pos = true

namespace CheckedParser

open Checked (minus? minus?_eq_some)

/-- How far the parser has come. -/
structure State where
  /-- The offset in the text. -/
  pos : Nat := 0
  /-- Groups, predicates, repetitions and brackets around what is read. -/
  depth : Nat := 0

/-- What is done from a state on: it comes to a value and a state, or a violation is found. There is
no outcome when a check fails. -/
structure Move (α : Type) where
  /-- The outcome from a state on. -/
  run : State → Option (Except Violation (α × State))

namespace Move

variable {α β : Type}

/-- Come to a value at once. -/
protected def pure (a : α) : Move α where
  run s := some (.ok (a, s))

/-- Go on with the value that one parser comes to. -/
protected def bind (p : Move α) (f : α → Move β) : Move β where
  run s :=
    match p.run s with
    | none => none
    | some (.error v) => some (.error v)
    | some (.ok (a, s)) => (f a).run s

instance : Monad Move where
  pure := Move.pure
  bind := Move.bind

/-- A check that failed. -/
def broken : Move α where
  run _ := none

/-- A value that has to be there. -/
def demand : Option α → Move α
  | none => broken
  | some a => pure a

/-- The offset of the parser. -/
def offset : Move Nat where
  run s := some (.ok (s.pos, s))

/-- A violation ends the parse. -/
def throw (v : Violation) : Move α where
  run _ := some (.error v)

end Move

open Move (broken demand offset throw)

variable (text : Bytes)

/-! ## Moves -/

/-- Go to an offset of the text. -/
def goTo (pos : Nat) : Move Unit where
  run s := if pos ≤ text.length then some (.ok ((), { s with pos })) else none

/-- Go on by so many bytes. -/
def advance (n : Nat) : Move Unit := do
  let pos ← offset
  goTo text (pos + n)

/-- Go back by so many bytes. -/
def back (n : Nat) : Move Unit := do
  let pos ← offset
  let start ← demand (minus? pos n)
  goTo text start

/-- The byte that is so many bytes ahead, if the text goes so far. -/
def peekAt (n : Nat) : Move (Option UInt8) := do
  let pos ← offset
  pure text[pos + n]?

/-- The byte at the cursor, unless the text ends there. -/
def peek : Move (Option UInt8) := peekAt text 0

/-- No byte is left. -/
def atEnd : Move Bool := do
  let pos ← offset
  pure (decide (text.length ≤ pos))

/-- The string between two boundaries of the text. -/
def cut (start stop : Nat) : Move String := demand (Utf8.cut? text start stop)

/-- The character at the cursor, or the null character at the end. -/
def peekChar : Move Char := do
  let pos ← offset
  let ahead ← cut text pos text.length
  pure (ahead.toList.headD (Char.ofNat 0))

/-- A violation here. It shows what lies ahead, up to sixteen bytes. -/
def refuse {α : Type} (cause : ParseCause) : Move α := do
  let pos ← offset
  let stop := min (pos + 16) text.length
  let ahead ← demand (text.slice? (min pos stop) stop)
  let fragment := Utf8.decodeLossy ahead
  throw { cause := .parsing cause, pos := some (pos + 1), fragment := some fragment }

/-- One more part around what is read. -/
def descend : Move Unit where
  run s :=
    if nestingLimit ≤ s.depth then (refuse text .nestingTooDeep).run s
    else some (.ok ((), { s with depth := s.depth + 1 }))

/-- So many parts less around what is read. -/
def ascend (n : Nat) : Move Unit where
  run s := (minus? s.depth n).map fun depth => .ok ((), { s with depth })

/-! ## Blanks, words and names -/

/-- Pass over bytes of a kind. -/
def passWhile (p : UInt8 → Bool) : (rounds : Nat) → Move Unit
  | 0 => broken
  | rounds + 1 => do
    let b ← peek text
    if b.any p then
      advance text 1
      passWhile p rounds
    else pure ()

/-- The offset behind bytes of a kind, which are looked at only. -/
def behindWhile? (p : UInt8 → Bool) : (rounds : Nat) → (pos : Nat) → Option Nat
  | 0, _ => none
  | rounds + 1, pos => if text[pos]?.any p then behindWhile? p rounds (pos + 1) else some pos

/-- The rounds that a loop over the text takes at most. -/
def rounds : Nat := text.length + 1

/-- Pass over blanks and comments. A comment ends before the line feed. -/
def skipSpaceFrom : (rounds : Nat) → Move Unit
  | 0 => broken
  | rounds + 1 => do
    let first ← peek text
    let second ← peekAt text 1
    match first with
    | none => pure ()
    | some b =>
      if Ascii.isBlank b then
        advance text 1
        skipSpaceFrom rounds
      else if b == 0x2d && second == some 0x2d then
        passWhile text (· != 0x0a) (CheckedParser.rounds text)
        skipSpaceFrom rounds
      else pure ()

/-- Pass over blanks and comments. -/
def skipSpace : Move Unit := skipSpaceFrom text (rounds text)

/-- Pass over blanks and a byte that must follow. -/
def expect (byte : UInt8) (what : Expected) : Move Unit := do
  skipSpace text
  let b ← peek text
  if b == some byte then advance text 1 else refuse text (.expected what)

/-- The text goes on with this word, and the word ends there. -/
def lookaheadKeyword (word : String) : Move Bool := do
  let pos ← offset
  let ahead ← demand (text.slice? pos text.length)
  let bytes := Bytes.ofString word
  pure (bytes.isPrefixOf ahead && !text[pos + bytes.length]?.any Ident.isPart)

/-- One of these words is ahead. -/
def lookaheadKeywords : List String → Move Bool
  | [] => pure false
  | word :: words => do
    let found ← lookaheadKeyword text word
    if found then pure true else lookaheadKeywords words

/-- Pass over so many bytes, the last of which starts a name, and over the rest of the name. -/
def passName (n : Nat) : Move Unit := do
  advance text n
  passWhile text Ident.isPart (rounds text)

/-- Pass over a dot and the name behind it, if there is one. -/
def passBase : Move Unit := do
  let first ← peek text
  let second ← peekAt text 1
  if first == some 0x2e && second.any Ident.isStart then passName text 2 else pure ()

/-- Pass over an identifier and cut it out of the text; none when none is ahead. -/
def scanIdentifier : Move (Option Ident) := do
  let start ← offset
  let first ← peek text
  if first.any Ident.isStart then
    passName text 1
    passBase text
    let stop ← offset
    let word ← cut text start stop
    pure (some (Ident.ofText word))
  else pure none

/-- Pass over a name without prefix. A name with one is passed over before it is refused. -/
def expectPlainIdentifier (what : Expected) : Move String := do
  let word ← scanIdentifier text
  match word with
  | none => refuse text (.expected what)
  | some name => if name.qualifier.isSome then refuse text (.expected what) else pure name.base

/-- A statement starts ahead: one of its keywords, or a name with an equals sign behind it that is
not doubled. Without statements there is none. -/
def atStatementStart (inSource : Bool) : Move Bool :=
  if inSource then do
    let keyword ← lookaheadKeywords text ["package", "import", "local", "alias"]
    if keyword then pure true
    else
      let pos ← offset
      if text[pos]?.any Ident.isStart then
        let behindName ← demand
          (behindWhile? text (fun b => Ident.isPart b || b == 0x2e) (rounds text) pos)
        let behind ← demand (behindWhile? text Ascii.isBlank (rounds text) behindName)
        pure (text[behind]? == some 0x3d && text[behind + 1]? != some 0x3d)
      else pure false
  else pure false

/-! ## Cursors of a text -/

variable {text : Bytes} {c d : Cursor} {n depth depth' : Nat}

theorem in_start (text : Bytes) : (Cursor.start text).In text := .refl _

theorem rest_eq (hc : c.In text) : c.rest = text.drop c.pos := by
  obtain ⟨n, -, rfl⟩ := hc
  rw [Cursor.rest_advance, Cursor.pos_advance, Cursor.start, Nat.zero_add]

theorem pos_add_length (hc : c.In text) : c.pos + c.rest.length = text.length := by
  have hend := Cursor.Reaches.end_eq hc
  rwa [Cursor.start, Nat.zero_add] at hend

theorem pos_le (hc : c.In text) : c.pos ≤ text.length := by
  have hend := pos_add_length hc
  omega

/-- A loop has rounds enough for what is ahead. -/
theorem length_lt_rounds (hc : c.In text) : c.rest.length < rounds text := by
  have hend := pos_add_length hc
  rw [rounds]
  omega

theorem getElem?_pos_add (hc : c.In text) (n : Nat) : text[c.pos + n]? = c.rest[n]? := by
  rw [rest_eq hc, List.getElem?_drop]

theorem getElem?_pos (hc : c.In text) : text[c.pos]? = c.peek? := by
  rw [Cursor.peek?, List.head?_eq_getElem?, ← getElem?_pos_add hc, Nat.add_zero]

theorem slice?_ahead (hc : c.In text) : text.slice? c.pos text.length = some c.rest := by
  rw [Bytes.slice?_length (pos_le hc), rest_eq hc]

/-! ## What a move comes to -/

variable {α β : Type} {p : Move α} {f : α → Move β} {s s' : State} {a : α}
  {result : Except ParseError (α × Cursor)} {Q Q' : Cursor → Prop}

/-- A parser comes to a state with this depth as a reader on cursors does: no check fails, both come
to the same value and the same place, for which the condition holds, or both refuse the text at a
place in it. -/
inductive Follows (text : Bytes) (depth : Nat) (Q : Cursor → Prop) {α : Type} :
    Option (Except Violation (α × State)) → Except ParseError (α × Cursor) → Prop
  /-- There is a value. -/
  | done {a : α} {d : Cursor} (h : Q d) : Follows text depth Q (some (.ok (a, ⟨d.pos, depth⟩)))
      (.ok (a, d))
  /-- There is a violation. -/
  | refused {e : ParseError} (h : e.place.In text) : Follows text depth Q
      (some (.error e.toViolation)) (.error e)

theorem run_bind (p : Move α) (f : α → Move β) (s : State) : (p >>= f).run s =
    match p.run s with
    | none => none
    | some (.error v) => some (.error v)
    | some (.ok (a, s)) => (f a).run s := rfl

theorem bind_of_done (h : p.run s = some (.ok (a, s'))) : (p >>= f).run s = (f a).run s' := by
  rw [run_bind, h]

/-- A move that comes to a value leads to the next one. -/
theorem Follows.step {result : Except ParseError (β × Cursor)} (h : p.run s = some (.ok (a, s')))
    (hf : Follows text depth Q ((f a).run s') result) :
    Follows text depth Q ((p >>= f).run s) result := by
  rwa [bind_of_done h]

/-- Moves that follow readers follow them one after the other. -/
theorem Follows.bind {g : α × Cursor → Except ParseError (β × Cursor)}
    (h : Follows text depth Q (p.run s) result)
    (hf : ∀ a d, result = .ok (a, d) → Q d →
      Follows text depth' Q' ((f a).run ⟨d.pos, depth⟩) (g (a, d))) :
    Follows text depth' Q' ((p >>= f).run s) (result >>= g) := by
  rw [run_bind]
  generalize p.run s = run at h
  cases h with
  | done h => exact hf _ _ rfl h
  | refused h => exact .refused h

/-- Branches on one condition are followed one by one. -/
theorem Follows.ite {condition : Prop} [Decidable condition] {q : Move α}
    {result' : Except ParseError (α × Cursor)}
    (h : condition → Follows text depth Q (p.run s) result)
    (h' : ¬condition → Follows text depth Q (q.run s) result') :
    Follows text depth Q ((if condition then p else q).run s)
      (if condition then result else result') := by
  split_ifs with hcondition
  · exact h hcondition
  · exact h' hcondition

theorem Follows.of_eq {run : Option (Except Violation (α × State))}
    {result' : Except ParseError (α × Cursor)} (h : Follows text depth Q run result)
    (heq : result = result') : Follows text depth Q run result' := heq ▸ h

theorem demand_some (a : α) (s : State) : (demand (some a)).run s = some (.ok (a, s)) := rfl

theorem offset_eq (s : State) : offset.run s = some (.ok (s.pos, s)) := rfl

/-! ## The moves of a cursor -/

theorem goTo_eq (hd : d.In text) (s : State) :
    (goTo text d.pos).run s = some (.ok ((), ⟨d.pos, s.depth⟩)) := if_pos (pos_le hd)

theorem advance_eq (hc : c.In text) (hn : n ≤ c.rest.length) :
    (advance text n).run ⟨c.pos, depth⟩ = some (.ok ((), ⟨(c.advance n).pos, depth⟩)) := by
  have hd : (c.advance n).In text := hc.trans (Cursor.reaches_advance hn)
  exact goTo_eq hd ⟨c.pos, depth⟩

theorem back_eq (hc : c.In text) (n : Nat) :
    (back text n).run ⟨(c.advance n).pos, depth⟩ = some (.ok ((), ⟨c.pos, depth⟩)) := by
  have hback : minus? (c.advance n).pos n = some c.pos := by
    rw [Cursor.pos_advance, minus?_eq_some (Nat.le_add_left n c.pos), Nat.add_sub_cancel]
  rw [back, bind_of_done (offset_eq _), hback, bind_of_done (demand_some _ _)]
  exact goTo_eq hc _

theorem peekAt_eq (hc : c.In text) (n : Nat) :
    (peekAt text n).run ⟨c.pos, depth⟩ = some (.ok (c.rest[n]?, ⟨c.pos, depth⟩)) := by
  rw [← getElem?_pos_add hc]
  rfl

theorem peek_eq (hc : c.In text) :
    (peek text).run ⟨c.pos, depth⟩ = some (.ok (c.peek?, ⟨c.pos, depth⟩)) := by
  rw [← getElem?_pos hc]
  rfl

theorem atEnd_eq (hc : c.In text) :
    (atEnd text).run ⟨c.pos, depth⟩ = some (.ok (c.atEnd, ⟨c.pos, depth⟩)) := by
  have hend := pos_add_length hc
  have heq : decide (text.length ≤ c.pos) = c.atEnd := by
    rw [Bool.eq_iff_iff, decide_eq_true_eq, Cursor.atEnd_iff, ← List.length_eq_zero_iff]
    omega
  rw [← heq]
  rfl

/-- A violation is found where the reader finds it. -/
theorem follows_refuse {cause : ParseCause} (hcause : cause ≠ .packageNotFirst) (hc : c.In text)
    (depth' : Nat) :
    Follows text depth Q ((refuse (α := α) text cause).run ⟨c.pos, depth'⟩) (c.fail cause) := by
  have hend := pos_add_length hc
  have hslice : text.slice? (min c.pos (min (c.pos + 16) text.length))
      (min (c.pos + 16) text.length) = some (c.rest.take 16) := by
    have hmin : min c.pos (min (c.pos + 16) text.length) = c.pos := by omega
    have htake : min (c.pos + 16) text.length - c.pos = min 16 c.rest.length := by omega
    rw [hmin, Bytes.slice?_eq_some (by omega) (Nat.min_le_right _ _), Bytes.slice, ← rest_eq hc,
      htake, ← List.take_eq_take_min]
  have hrun : (refuse (α := α) text cause).run ⟨c.pos, depth'⟩ =
      some (.error (ParseError.toViolation ⟨cause, c⟩)) := by
    rw [refuse, bind_of_done (offset_eq _)]
    dsimp only
    rw [hslice, bind_of_done (demand_some _ _), ParseError.toViolation, if_neg hcause]
    rfl
  rw [hrun]
  exact .refused hc

theorem descend_eq (h : depth < nestingLimit) (c : Cursor) :
    (descend text).run ⟨c.pos, depth⟩ = some (.ok ((), ⟨c.pos, depth + 1⟩)) :=
  if_neg (Nat.not_le.mpr h)

theorem descend_of_le (h : nestingLimit ≤ depth) (c : Cursor) :
    (descend text).run ⟨c.pos, depth⟩ = (refuse text .nestingTooDeep).run ⟨c.pos, depth⟩ :=
  if_pos h

/-- Where no more parts are allowed around what is read, there is a violation. -/
theorem follows_tooDeep (f : Unit → Move α) (h : nestingLimit ≤ depth) (hc : c.In text) :
    Follows text depth' Q ((descend text >>= f).run ⟨c.pos, depth⟩) (c.fail .nestingTooDeep) := by
  have hrefuse : Follows text depth Q ((descend text).run ⟨c.pos, depth⟩)
      (c.fail .nestingTooDeep) := by
    rw [descend_of_le h]
    exact follows_refuse (by simp) hc depth
  exact hrefuse.bind (g := fun _ => c.fail .nestingTooDeep) nofun

theorem ascend_eq (pos depth n : Nat) :
    (ascend n).run ⟨pos, depth + n⟩ = some (.ok ((), ⟨pos, depth⟩)) := by
  have hless : minus? (depth + n) n = some depth := by
    rw [minus?_eq_some (Nat.le_add_left n depth), Nat.add_sub_cancel]
  simp only [ascend, hless, Option.map_some]

/-! ## Blanks -/

variable {kind : UInt8 → Bool} {more : Nat} {b : UInt8}

/-- Passing over bytes of a kind leads behind all of them. -/
theorem passWhile_eq (kind : UInt8 → Bool) (hc : c.In text) (hmore : c.rest.length < more) :
    (passWhile text kind more).run ⟨c.pos, depth⟩ =
      some (.ok ((), ⟨(c.advance (c.rest.takeWhile kind).length).pos, depth⟩)) := by
  induction more generalizing c with
  | zero => exact absurd hmore (Nat.not_lt_zero _)
  | succ more ih =>
    rw [passWhile, bind_of_done (peek_eq hc)]
    obtain ⟨pos, bytes⟩ := c
    cases bytes with
    | nil => rfl
    | cons b bytes =>
      have hone : 1 ≤ (b :: bytes).length := Nat.succ_pos _
      have hnext : (Cursor.advance ⟨pos, b :: bytes⟩ 1).In text :=
        hc.trans (Cursor.reaches_advance hone)
      cases hb : kind b with
      | false => simp [Cursor.peek?, hb, pure, Move.pure]
      | true =>
        simp only [Cursor.peek?, List.head?_cons, Option.any_some, hb, if_true]
        rw [bind_of_done (advance_eq hc hone), ih hnext (Nat.lt_of_succ_lt_succ hmore)]
        simp [hb, Nat.add_assoc, Nat.add_comm 1]

/-- Looking at bytes of a kind leads behind all of them. -/
theorem behindWhile?_eq (kind : UInt8 → Bool) (hc : c.In text) (hmore : c.rest.length < more) :
    behindWhile? text kind more c.pos =
      some (c.advance (c.rest.takeWhile kind).length).pos := by
  induction more generalizing c with
  | zero => exact absurd hmore (Nat.not_lt_zero _)
  | succ more ih =>
    rw [behindWhile?, getElem?_pos hc]
    obtain ⟨pos, bytes⟩ := c
    cases bytes with
    | nil => rfl
    | cons b bytes =>
      have hone : 1 ≤ (b :: bytes).length := Nat.succ_pos _
      have hnext : (Cursor.advance ⟨pos, b :: bytes⟩ 1).In text :=
        hc.trans (Cursor.reaches_advance hone)
      cases hb : kind b with
      | false => simp [Cursor.peek?, hb]
      | true =>
        simp only [Cursor.peek?, List.head?_cons, Option.any_some, hb, if_true]
        refine (ih hnext (Nat.lt_of_succ_lt_succ hmore)).trans ?_
        simp [hb, Nat.add_assoc, Nat.add_comm 1]

/-- The bytes of a kind that are ahead are in the text. -/
theorem in_advance_takeWhile (kind : UInt8 → Bool) (hc : c.In text) :
    (c.advance (c.rest.takeWhile kind).length).In text :=
  hc.trans (Cursor.reaches_advance (List.takeWhile_prefix kind).length_le)

/-- A comment goes to the end of its line. -/
theorem behindBlanks_comment (pos : Nat) (bytes : Bytes) :
    Cursor.behindBlanks true pos bytes =
      (Cursor.advance ⟨pos, bytes⟩ (bytes.takeWhile (· != 0x0a)).length).skipBlanks := by
  induction bytes generalizing pos with
  | nil => rfl
  | cons b bytes ih =>
    rw [Cursor.behindBlanks]
    cases hb : b != 0x0a with
    | false =>
      obtain rfl : b = 0x0a := by simpa using hb
      rfl
    | true =>
      have hpass : (b :: bytes).takeWhile (· != 0x0a) = b :: bytes.takeWhile (· != 0x0a) :=
        List.takeWhile_cons_of_pos hb
      rw [ih, hpass, List.length_cons, Nat.add_comm (List.length _) 1, ← Cursor.advance_advance]
      rfl

/-- Blanks and comments are passed over as by the reader. -/
theorem skipSpaceFrom_eq (hc : c.In text) (hmore : c.rest.length < more) :
    (skipSpaceFrom text more).run ⟨c.pos, depth⟩ = some (.ok ((), ⟨c.skipBlanks.pos, depth⟩)) := by
  induction more generalizing c with
  | zero => exact absurd hmore (Nat.not_lt_zero _)
  | succ more ih =>
    rw [skipSpaceFrom, bind_of_done (peek_eq hc), bind_of_done (peekAt_eq hc 1)]
    obtain ⟨pos, bytes⟩ := c
    cases bytes with
    | nil => rfl
    | cons b bytes =>
      have hone : 1 ≤ (b :: bytes).length := Nat.succ_pos _
      have hnext : (Cursor.advance ⟨pos, b :: bytes⟩ 1).In text :=
        hc.trans (Cursor.reaches_advance hone)
      simp only [Cursor.peek?, List.head?_cons, Cursor.skipBlanks, Cursor.behindBlanks,
        List.getElem?_cons_succ, ← List.head?_eq_getElem?]
      split
      · rw [bind_of_done (advance_eq hc hone), ih hnext (Nat.lt_of_succ_lt_succ hmore)]
        rfl
      split
      · rename_i hdashes
        -- The comment is passed over from its first dash on, which is on the same line.
        obtain rfl : b = 0x2d := by
          rw [Bool.and_eq_true, beq_iff_eq] at hdashes
          exact hdashes.1
        have hbehind := in_advance_takeWhile (· != 0x0a) hc
        have hcomment := behindBlanks_comment pos (0x2d :: bytes)
        rw [bind_of_done (passWhile_eq (· != 0x0a) hc (length_lt_rounds hc)), ih hbehind,
          ← hcomment]
        · rfl
        · have hpass : (0x2d :: bytes).takeWhile (· != 0x0a) =
              0x2d :: bytes.takeWhile (· != 0x0a) := rfl
          rw [Cursor.rest_advance, hpass, List.length_cons, List.drop_succ_cons, List.length_drop]
          exact (Nat.sub_le _ _).trans_lt (Nat.lt_of_succ_lt_succ hmore)
      · rfl

theorem skipSpace_eq (hc : c.In text) :
    (skipSpace text).run ⟨c.pos, depth⟩ = some (.ok ((), ⟨c.skipBlanks.pos, depth⟩)) :=
  skipSpaceFrom_eq hc (length_lt_rounds hc)

/-! ## Places between characters -/

theorem onChar_of_nil (hc : c.In text) (h : c.rest = []) : c.OnChar text := by
  have hend := pos_add_length hc
  rw [h, List.length_nil, Nat.add_zero] at hend
  refine ⟨hc, ?_⟩
  rw [hend]
  exact Utf8.isBoundary_length text

theorem advance_one_eq (hc : c.In text) (hb : c.peek? = some b) :
    (advance text 1).run ⟨c.pos, depth⟩ = some (.ok ((), ⟨(c.advance 1).pos, depth⟩)) := by
  obtain ⟨bytes, hbytes⟩ := List.head?_eq_some_iff.mp hb
  refine advance_eq hc ?_
  rw [hbytes, List.length_cons]
  exact Nat.succ_pos _

theorem in_advance_one (hc : c.In text) (hb : c.peek? = some b) : (c.advance 1).In text :=
  hc.trans (Cursor.passes_of_peek hb).reaches

/-- Behind a byte of ASCII the next character starts. -/
theorem onChar_advance_one (ht : Utf8.IsText text) (hc : c.In text) (hb : c.peek? = some b)
    (h : b < 0x80) : (c.advance 1).OnChar text :=
  ⟨in_advance_one hc hb, ht.isBoundary_succ (getElem?_pos hc ▸ hb) h⟩

/-- A mark of one byte of ASCII is passed over. -/
theorem follows_mark (ht : Utf8.IsText text) (hc : c.In text) (hb : c.peek? = some b)
    (h : b < 0x80) (a : α) :
    Follows text depth (fun d => d.OnChar text)
      ((advance text 1 >>= fun _ => pure a).run ⟨c.pos, depth⟩) (.ok (a, c.advance 1)) :=
  .step (advance_one_eq hc hb) (.done (onChar_advance_one ht hc hb h))

theorem isAscii_of_beq {mark : UInt8} (h : (b == mark) = true) (hmark : mark < 0x80) : b < 0x80 :=
  beq_iff_eq.mp h ▸ hmark

theorem isAscii_of_isBlank (h : Ascii.isBlank b = true) : b < 0x80 := by
  revert b
  decide +kernel

/-- Blanks and comments end between two characters, though a comment may have any in it. -/
theorem onChar_behindBlanks (ht : Utf8.IsText text) (comment : Bool) {pos : Nat} {bytes : Bytes}
    (hc : (⟨pos, bytes⟩ : Cursor).In text)
    (h : comment = false → Utf8.isBoundary text pos = true) :
    (Cursor.behindBlanks comment pos bytes).OnChar text := by
  induction bytes generalizing comment pos with
  | nil =>
    have hnil := onChar_of_nil hc rfl
    cases comment <;> exact hnil
  | cons b bytes ih =>
    have hnext : (⟨pos + 1, bytes⟩ : Cursor).In text := in_advance_one hc rfl
    have hbehind : b < 0x80 → Utf8.isBoundary text (pos + 1) = true := fun hascii =>
      (onChar_advance_one ht hc rfl hascii).boundary
    cases comment with
    | true =>
      refine ih _ hnext fun hfeed => hbehind ?_
      obtain rfl : b = 0x0a := by simpa using hfeed
      decide
    | false =>
      rw [Cursor.behindBlanks]
      split
      · rename_i hblank
        exact ih _ hnext fun _ => hbehind (isAscii_of_isBlank hblank)
      split
      · exact ih _ hnext fun h => Bool.noConfusion h
      · exact ⟨hc, h rfl⟩

theorem onChar_skipBlanks (ht : Utf8.IsText text) (hc : c.OnChar text) :
    c.skipBlanks.OnChar text := onChar_behindBlanks ht false hc.inText fun _ => hc.boundary

/-! ## Words and names -/

theorem lookaheadKeyword_eq (hc : c.In text) (word : String) :
    (lookaheadKeyword text word).run ⟨c.pos, depth⟩ =
      some (.ok (c.atWord word, ⟨c.pos, depth⟩)) := by
  rw [lookaheadKeyword, bind_of_done (offset_eq _)]
  dsimp only
  rw [slice?_ahead hc, bind_of_done (demand_some _ _), getElem?_pos_add hc, ← List.head?_drop]
  rfl

theorem lookaheadKeywords_eq (hc : c.In text) (words : List String) :
    (lookaheadKeywords text words).run ⟨c.pos, depth⟩ =
      some (.ok (words.any c.atWord, ⟨c.pos, depth⟩)) := by
  induction words with
  | nil => rfl
  | cons word words ih =>
    rw [lookaheadKeywords, bind_of_done (lookaheadKeyword_eq hc word), List.any_cons]
    cases c.atWord word with
    | true => rfl
    | false => exact ih

/-- A statement starts where the reader sees one. -/
theorem atStatementStart_eq (hc : c.In text) (inSource : Bool) :
    (atStatementStart text inSource).run ⟨c.pos, depth⟩ =
      some (.ok (inSource && Expr.startsStatement c, ⟨c.pos, depth⟩)) := by
  cases inSource with
  | false => rfl
  | true =>
    rw [atStatementStart, if_pos rfl, bind_of_done (lookaheadKeywords_eq hc _), Bool.true_and,
      Expr.startsStatement]
    cases ["package", "import", "local", "alias"].any c.atWord with
    | true => rfl
    | false =>
      simp only [Bool.false_eq_true, if_false, Bool.false_or]
      rw [bind_of_done (offset_eq _)]
      dsimp only
      rw [getElem?_pos hc]
      cases c.peek?.any Ident.isStart with
      | false => rfl
      | true =>
        have hname := in_advance_takeWhile (fun b => Ident.isPart b || b == 0x2e) hc
        have hblanks := in_advance_takeWhile Ascii.isBlank hname
        rw [if_pos rfl, behindWhile?_eq _ hc (length_lt_rounds hc), bind_of_done (demand_some _ _),
          behindWhile?_eq _ hname (length_lt_rounds hname), bind_of_done (demand_some _ _),
          getElem?_pos hblanks, getElem?_pos_add hblanks]
        simp only [Cursor.peek?, Cursor.rest_advance, Bytes.drop_length_takeWhile, Bool.true_and]
        rfl

/-- A name is passed over that starts at the last of so many bytes. -/
theorem passName_eq (hc : c.In text) (n : Nat) (h : Ident.nameAhead (c.rest.drop n) ≠ []) :
    (passName text (n + 1)).run ⟨c.pos, depth⟩ = some (.ok ((),
      ⟨(c.advance (n + (Ident.nameAhead (c.rest.drop n)).length)).pos, depth⟩)) := by
  cases hrest : c.rest.drop n with
  | nil =>
    rw [hrest] at h
    exact absurd rfl h
  | cons b bytes =>
    rw [hrest, Ident.nameAhead] at h
    have hlen := congrArg List.length hrest
    rw [List.length_drop, List.length_cons] at hlen
    have hle : n + 1 ≤ c.rest.length := by omega
    have hnext : (c.advance (n + 1)).In text := hc.trans (Cursor.reaches_advance hle)
    have hbytes : (c.advance (n + 1)).rest = bytes := by
      rw [Cursor.rest_advance, ← List.drop_drop, hrest]
      rfl
    have hpass : (passWhile text Ident.isPart (rounds text)).run
        ⟨(c.advance (n + 1)).pos, depth⟩ = _ :=
      passWhile_eq Ident.isPart hnext (length_lt_rounds hnext)
    rw [hbytes, Cursor.advance_advance] at hpass
    have hstart : Ident.isStart b = true := by
      by_contra hb
      exact h (if_neg hb)
    rw [passName, bind_of_done (advance_eq hc hle), hpass, Ident.nameAhead, if_pos hstart,
      List.length_cons, Nat.add_assoc, Nat.add_comm 1]

/-- What is cut out for an identifier: a name, or two names joined by a dot. -/
theorem take_ahead? {bytes : Bytes} {name : Ident} {width : Nat}
    (h : Ident.ahead? bytes = some (name, width)) :
    (∃ first : Bytes, (∀ b ∈ first, Ident.isPart b = true) ∧ bytes.take width = first ∧
        name = ⟨none, first.toAscii⟩) ∨
      ∃ first second : Bytes, (∀ b ∈ first, Ident.isPart b = true) ∧
        (∀ b ∈ second, Ident.isPart b = true) ∧ bytes.take width = first ++ 0x2e :: second ∧
        name = ⟨some first.toAscii, second.toAscii⟩ := by
  have hfirst := List.prefix_iff_eq_append.mp (Ident.nameAhead_isPrefixOf bytes)
  obtain ⟨-, ⟨rfl, rfl⟩ | ⟨rest, hrest, -, rfl, rfl⟩⟩ := Ident.ahead?_cases h
  · exact .inl ⟨_, fun _ => Ident.isPart_of_mem_nameAhead,
      (List.prefix_iff_eq_take.mp (Ident.nameAhead_isPrefixOf bytes)).symm, rfl⟩
  · obtain ⟨more, hmore⟩ := Ident.nameAhead_isPrefixOf rest
    have hprefix : Ident.nameAhead bytes ++ 0x2e :: Ident.nameAhead rest <+: bytes := by
      refine ⟨more, ?_⟩
      rw [List.append_assoc, List.cons_append, hmore, ← hrest, hfirst]
    refine .inr ⟨_, _, fun _ => Ident.isPart_of_mem_nameAhead,
      fun _ => Ident.isPart_of_mem_nameAhead, ?_, rfl⟩
    have htake := List.prefix_iff_eq_take.mp hprefix
    rw [List.length_append, List.length_cons] at htake
    rw [Nat.add_assoc, Nat.add_comm 1]
    exact htake.symm

/-- An identifier is cut out of ASCII. -/
theorem isAscii_ahead? {bytes : Bytes} {name : Ident} {width : Nat}
    (h : Ident.ahead? bytes = some (name, width)) : Bytes.IsAscii (bytes.take width) := by
  rcases take_ahead? h with ⟨first, hfirst, htake, -⟩ | ⟨first, second, hfirst, hsecond, htake, -⟩
  · rw [htake]
    exact fun b hb => Ident.lt_of_isPart (hfirst b hb)
  · rw [htake]
    refine List.forall_mem_append.mpr ⟨fun b hb => Ident.lt_of_isPart (hfirst b hb), ?_⟩
    exact List.forall_mem_cons.mpr ⟨by decide, fun b hb => Ident.lt_of_isPart (hsecond b hb)⟩

/-- The first dot is behind the first name. -/
theorem span_name {bytes : Bytes} (h : ∀ b ∈ bytes, Ident.isPart b = true) (rest : List Char)
    (hrest : ∀ c ∈ rest.head?, c = '.') :
    (bytes.map Ascii.toChar ++ rest).span (· != '.') = (bytes.map Ascii.toChar, rest) := by
  have hname : ∀ c ∈ bytes.map Ascii.toChar, (c != '.') = true := by
    intro c hc
    obtain ⟨b, hb, rfl⟩ := List.mem_map.mp hc
    rw [bne_iff_ne]
    intro hdot
    obtain rfl : b = 0x2e := Ascii.toChar_injective hdot
    cases h 0x2e hb
  rw [List.span_eq_takeWhile_dropWhile, List.takeWhile_append_of_pos hname,
    List.dropWhile_append_of_pos hname]
  cases rest with
  | nil => simp
  | cons c rest =>
    obtain rfl := hrest c rfl
    simp

/-- An identifier that is cut out is split where the reader splits it. -/
theorem ofText_ahead? {bytes : Bytes} {name : Ident} {width : Nat}
    (h : Ident.ahead? bytes = some (name, width)) :
    Ident.ofText (Bytes.toAscii (bytes.take width)) = name := by
  rcases take_ahead? h with ⟨first, hfirst, htake, rfl⟩ |
    ⟨first, second, hfirst, -, htake, rfl⟩
  · have hspan := span_name hfirst [] nofun
    rw [List.append_nil] at hspan
    rw [htake, Ident.ofText, Bytes.toAscii, String.toList_ofList, hspan]
  · have hspan := span_name hfirst ('.' :: second.map Ascii.toChar) (by simp)
    have hchars : (first ++ 0x2e :: second).map Ascii.toChar =
        first.map Ascii.toChar ++ '.' :: second.map Ascii.toChar := by
      rw [List.map_append, List.map_cons]
      rfl
    rw [htake, Ident.ofText, Bytes.toAscii, String.toList_ofList, hchars, hspan]
    rfl

/-- Behind the first name of an identifier the second is passed over, if there is one. -/
theorem passBase_eq (hd : d.In text) {name : Ident} {width : Nat}
    (h : Ident.ahead? c.rest = some (name, width))
    (hfirst : d = c.advance (Ident.nameAhead c.rest).length) :
    (passBase text).run ⟨d.pos, depth⟩ = some (.ok ((), ⟨(c.advance width).pos, depth⟩)) := by
  have hrest : c.rest.drop (Ident.nameAhead c.rest).length = d.rest := by
    rw [hfirst, Cursor.rest_advance]
  rw [passBase, bind_of_done (peek_eq hd), bind_of_done (peekAt_eq hd 1), Cursor.peek?]
  unfold Ident.ahead? at h
  split at h
  · cases h
  · rw [hrest] at h
    split at h
    · rename_i bytes hdot
      have hdrop : d.rest.drop 1 = bytes := by
        rw [hdot]
        rfl
      have hsecond : d.rest[1]?.any Ident.isStart = bytes.head?.any Ident.isStart := by
        rw [hdot, List.getElem?_cons_succ, ← List.head?_eq_getElem?]
      rw [hsecond, hdot]
      split at h
      · rename_i hname
        cases h
        rw [Ident.nameAhead_eq_nil_iff.mp hname, hfirst]
        rfl
      · rename_i hname
        cases h
        have hne : Ident.nameAhead (d.rest.drop 1) ≠ [] := by rwa [hdrop]
        have hstart : bytes.head?.any Ident.isStart = true := by
          by_contra hstart
          exact hname (Ident.nameAhead_eq_nil_iff.mpr (Bool.eq_false_iff.mpr hstart))
        rw [hstart]
        refine (passName_eq hd _ hne).trans ?_
        rw [hdrop, hfirst, Cursor.advance_advance, Nat.add_assoc]
    · rename_i hdot
      cases h
      have hno : (d.rest.head? == some 0x2e) = false := by
        rw [beq_eq_false_iff_ne]
        intro hhead
        obtain ⟨bytes, hbytes⟩ := List.head?_eq_some_iff.mp hhead
        exact hdot bytes hbytes
      rw [hno, hfirst]
      rfl

theorem scanIdentifier_of_none (hc : c.In text) (h : Ident.ahead? c.rest = none) :
    (scanIdentifier text).run ⟨c.pos, depth⟩ = some (.ok (none, ⟨c.pos, depth⟩)) := by
  have hstart : c.peek?.any Ident.isStart = false :=
    Ident.nameAhead_eq_nil_iff.mp (Ident.ahead?_eq_none_iff.mp h)
  rw [scanIdentifier, bind_of_done (offset_eq _), bind_of_done (peek_eq hc), hstart]
  rfl

/-- An identifier ends between two characters. -/
theorem onChar_advance_ahead? (ht : Utf8.IsText text) (hc : c.OnChar text) {name : Ident}
    {width : Nat} (h : Ident.ahead? c.rest = some (name, width)) :
    (c.advance width).OnChar text := by
  have hle := (Ident.ahead?_width h).2
  have hprefix : c.rest.take width <+: text.drop c.pos := by
    rw [← rest_eq hc.inText]
    exact List.take_prefix _ _
  have hbound := ht.isBoundary_add hc.boundary hprefix (isAscii_ahead? h)
  rw [List.length_take_of_le hle] at hbound
  exact ⟨hc.inText.trans (Cursor.reaches_advance hle), hbound⟩

/-- An identifier is cut out between two characters. -/
theorem scanIdentifier_of_some (ht : Utf8.IsText text) (hc : c.OnChar text) {name : Ident}
    {width : Nat} (h : Ident.ahead? c.rest = some (name, width)) :
    (scanIdentifier text).run ⟨c.pos, depth⟩ =
      some (.ok (some name, ⟨(c.advance width).pos, depth⟩)) := by
  have hne := (Ident.ahead?_cases h).1
  have hstart : c.peek?.any Ident.isStart = true := by
    by_contra hstart
    exact hne (Ident.nameAhead_eq_nil_iff.mpr (Bool.eq_false_iff.mpr hstart))
  have hfirst : (c.advance (Ident.nameAhead c.rest).length).In text :=
    hc.inText.trans (Cursor.reaches_advance (Ident.nameAhead_isPrefixOf c.rest).length_le)
  have hname : (passName text 1).run ⟨c.pos, depth⟩ = _ := passName_eq hc.inText 0 hne
  rw [List.drop_zero, Nat.zero_add] at hname
  have hprefix : c.rest.take width <+: text.drop c.pos := by
    rw [← rest_eq hc.inText]
    exact List.take_prefix _ _
  have hcut := ht.cut?_ascii hc.boundary hprefix (isAscii_ahead? h)
  rw [List.length_take_of_le (Ident.ahead?_width h).2] at hcut
  rw [scanIdentifier, bind_of_done (offset_eq _), bind_of_done (peek_eq hc.inText), hstart,
    if_pos rfl, bind_of_done hname, bind_of_done (passBase_eq hfirst h rfl),
    bind_of_done (offset_eq _)]
  dsimp only
  rw [cut, Cursor.pos_advance, hcut, bind_of_done (demand_some _ _), ofText_ahead? h]
  rfl

theorem follows_expectPlainIdentifier (ht : Utf8.IsText text) (hc : c.OnChar text)
    (what : Expected) :
    Follows text depth (fun d => d.OnChar text)
      ((expectPlainIdentifier text what).run ⟨c.pos, depth⟩) (Statement.plainName what c) := by
  unfold expectPlainIdentifier Statement.plainName
  cases h : Ident.ahead? c.rest with
  | none =>
    exact .step (scanIdentifier_of_none hc.inText h) (follows_refuse (by simp) hc.inText depth)
  | some ahead =>
    obtain ⟨name, width⟩ := ahead
    have hbehind := onChar_advance_ahead? ht hc h
    refine .step (scanIdentifier_of_some ht hc h) ?_
    dsimp only
    split
    · exact follows_refuse (by simp) hbehind.inText depth
    · exact .done hbehind

/-- The character ahead is cut out of the text. -/
theorem peekChar_eq (ht : Utf8.IsText text) (hc : c.OnChar text) :
    (peekChar text).run ⟨c.pos, depth⟩ = some (.ok (Utf8.firstChar c.rest, ⟨c.pos, depth⟩)) := by
  obtain ⟨ahead, hcut, hbytes⟩ :=
    ht.exists_cut? (pos_le hc.inText) hc.boundary (Utf8.isBoundary_length text)
  have hrest : c.rest = Bytes.ofString ahead := by
    rw [hbytes, rest_eq hc.inText, Bytes.slice, List.take_of_length_le (by simp)]
  rw [peekChar, bind_of_done (offset_eq _), cut, hcut, bind_of_done (demand_some _ _), hrest,
    Utf8.firstChar_ofString]
  rfl

/-- What must follow is passed over behind blanks. -/
theorem follows_expect (ht : Utf8.IsText text) (hc : c.In text) {byte : UInt8} (hbyte : byte < 0x80)
    (what : Expected) :
    Follows text depth (fun d => d.OnChar text) ((expect text byte what).run ⟨c.pos, depth⟩)
      (if c.skipBlanks.peek? == some byte then .ok ((), c.skipBlanks.advance 1)
        else c.skipBlanks.fail (.expected what)) := by
  have hd : c.skipBlanks.In text := hc.trans (Cursor.reaches_skipBlanks c)
  refine .step (skipSpace_eq hc) (.step (peek_eq hd) ?_)
  split
  · rename_i hb
    have hpeek := beq_iff_eq.mp hb
    rw [advance_one_eq hd hpeek]
    exact .done (onChar_advance_one ht hd hpeek hbyte)
  · exact follows_refuse (by simp) hd depth

end CheckedParser

end PatternEngine
