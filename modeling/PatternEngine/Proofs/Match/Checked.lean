import PatternEngine.Proofs.Match.Trees

/-!
# Offsets that are checked

The machine once more as it works on a buffer: a place is an offset, what lies ahead is cut out of
the input, the number of captures around a pattern is counted up and down, and an attempt stands in
the log at an index from its beginning on and is completed there. Every cut, every subtraction and
every index is checked, and a check that fails ends everything.

No check ever fails. Each step of the machine on places is followed by one on offsets, and what
is needed for it is that every evaluation starts and ends within the input.
-/

namespace PatternEngine

namespace Bytes

/-- The bytes from one offset up to another, if both are offsets of the text and in order. -/
def slice? (bytes : Bytes) (start stop : Nat) : Option Bytes :=
  if start ≤ stop ∧ stop ≤ bytes.length then some (bytes.slice start stop) else none

theorem slice?_eq_some {bytes : Bytes} {start stop : Nat} (hle : start ≤ stop)
    (hstop : stop ≤ bytes.length) : bytes.slice? start stop = some (bytes.slice start stop) :=
  if_pos ⟨hle, hstop⟩

/-- What is cut out up to the end is what is left when the start is dropped. -/
theorem slice?_length {bytes : Bytes} {start : Nat} (hle : start ≤ bytes.length) :
    bytes.slice? start bytes.length = some (bytes.drop start) := by
  rw [slice?_eq_some hle (Nat.le_refl _), slice, List.take_of_length_le (by simp)]

end Bytes

namespace Checked

/-- The difference of two numbers, if the second is not the greater one. -/
def minus? (m n : Nat) : Option Nat := if n ≤ m then some (m - n) else none

theorem minus?_eq_some {m n : Nat} (h : n ≤ m) : minus? m n = some (m - n) := if_pos h

/-- How many bytes the character at the start of a text takes up, if there is one. The bytes behind
the first are looked at only where the text is long enough. -/
def stepWidth? (ahead : Bytes) : Option Nat := do
  let b ← ahead[0]?
  let width := Utf8.announcedWidth b
  if width ≤ ahead.length then
    let rest ← ahead.slice? 1 width
    pure (if rest.all Utf8.isContinuation then width else 1)
  else pure 1

/-- What the machine on offsets has at hand. -/
structure State where
  /-- Steps that are left. -/
  steps : Nat
  /-- Captures around the pattern that is tried. -/
  depth : Nat := 0
  /-- The recorded matches, oldest first. -/
  captures : Array MatchTree := #[]
  /-- The attempts noted, oldest first. -/
  log : Array Attempt := #[]
  /-- Attempts that the log holds at most. -/
  capacity : Nat
  /-- An attempt found no room. -/
  truncated : Bool := false

/-- How an evaluation ends. -/
inductive Ending where
  /-- A limit was reached. -/
  | exhausted
  /-- No match. -/
  | failed
  /-- A match up to an offset. -/
  | matched (stop : Nat)

namespace Ending

/-- The offset where a match ended. -/
def stop? : Ending → Option Nat
  | .matched stop => some stop
  | _ => none

/-- A match up to an offset that records nothing, if the condition holds. -/
def test (condition : Bool) (stop : Nat) : Ending := if condition then .matched stop else .failed

end Ending

namespace State

/-- Forget the matches recorded behind a mark. -/
def rollBack (s : State) (mark : Nat) : State := { s with captures := s.captures.shrink mark }

/-- Take the matches behind a mark, which the stack has to reach, into a match of their own. -/
def gather? (s : State) (mark : Nat) (name : String) (start stop : Nat) : Option State :=
  if mark ≤ s.captures.size then
    let subs := (s.captures.extract mark s.captures.size).toList
    some { s with captures := (s.captures.shrink mark).push (.node name start stop subs) }
  else none

/-- Note an attempt that begins, if there is room, and give its index. -/
def note? (s : State) (name : String) (start : Nat) : Option (Option Nat × State) :=
  if s.capacity ≤ s.log.size then some (none, { s with truncated := true })
  else do
    let log := s.log.push ⟨name, s.depth, start, none⟩
    let index ← minus? log.size 1
    pure (some index, { s with log })

/-- Complete the attempt at an index. -/
def complete? (s : State) (index : Option Nat) (stop : Option Nat) : Option State :=
  match index with
  | none => some s
  | some index => do
    let attempt ← s.log[index]?
    pure { s with log := s.log.setIfInBounds index { attempt with stop } }

end State

/-- The end of a repetition after `count` copies, the first of which began at the mark. -/
def conclude (least mark count stop : Nat) (s : State) : Ending × State :=
  if count < least then (.failed, s.rollBack mark) else (.matched stop, s)

/-- Match further copies of a body, of which there have been `count`. -/
def repeatFrom (body : Nat → State → Option (Ending × State)) (least : Nat) (most : Option Nat)
    (mark : Nat) : Nat → Nat → Nat → State → Option (Ending × State)
  | 0, count, pos, s => some (conclude least mark count pos s)
  | rounds + 1, count, pos, s =>
    if most.any (· ≤ count) then some (conclude least mark count pos s)
    else do
      let copy := s.captures.size
      match ← body pos s with
      | (.exhausted, s) => pure (.exhausted, s)
      | (.failed, s) => pure (conclude least mark count pos (s.rollBack copy))
      | (.matched stop, s) =>
        if stop == pos then pure (conclude least mark (max count least) stop s)
        else repeatFrom body least most mark rounds (count + 1) stop s

/-- The outcome of a predicate from that of its operand. -/
def foresee (kind : Lookahead) (pos mark : Nat) : Ending × State → Ending × State
  | (.exhausted, s) => (.exhausted, s)
  | (.failed, s) => (.test (kind == .absent) pos, s.rollBack mark)
  | (.matched _, s) => (.test (kind == .present) pos, s.rollBack mark)

/-- The outcome of a capture from that of its body, given the mark where the capture began and the
index of its attempt. -/
def record? (name : String) (start mark : Nat) (index : Option Nat) :
    Ending × State → Option (Ending × State)
  | (ending, s) => do
    let depth ← minus? s.depth 1
    let s := { s with depth }
    match ending with
    | .exhausted => pure (.exhausted, s)
    | .failed =>
      let s ← (s.rollBack mark).complete? index none
      pure (.failed, s)
    | .matched stop =>
      let s ← s.gather? mark name start stop
      let s ← s.complete? index (some stop)
      pure (.matched stop, s)

mutual

/-- Match a pattern at an offset of the input. -/
def eval (input : Bytes) (maxDepth : Nat) : Pattern → Nat → State → Option (Ending × State)
  | pattern, pos, s =>
    if s.steps = 0 then some (.exhausted, s)
    else do
      let steps ← minus? s.steps 1
      let s := { s with steps }
      match pattern with
      | .literal text =>
        let ahead ← input.slice? pos input.length
        pure (.test (text.bytes.isPrefixOf ahead) (pos + text.bytes.length), s)
      | .set members => pure (.test (input[pos]?.any members.contains) (pos + 1), s)
      | .any =>
        if pos < input.length then
          let ahead ← input.slice? pos input.length
          let width ← stepWidth? ahead
          pure (.matched (pos + width), s)
        else pure (.failed, s)
      | .inputStart => pure (.test (pos == 0) pos, s)
      | .inputEnd => pure (.test (pos == input.length) pos, s)
      | .seq items => evalSeq input maxDepth items s.captures.size pos s
      | .choice alternatives => evalChoice input maxDepth alternatives s.captures.size pos s
      | .repetition body least most =>
        repeatFrom (eval input maxDepth body) least most s.captures.size (input.length - pos + 1) 0
          pos s
      | .lookahead kind body =>
        let outcome ← eval input maxDepth body pos s
        pure (foresee kind pos s.captures.size outcome)
      | .transparent body => eval input maxDepth body pos s
      | .capture name body =>
        if maxDepth ≤ s.depth then pure (.exhausted, s)
        else
          let (index, s) ← s.note? name pos
          let outcome ← eval input maxDepth body pos { s with depth := s.depth + 1 }
          record? name pos s.captures.size index outcome

/-- Match all patterns of a list, one after the other; the first began at the mark. -/
def evalSeq (input : Bytes) (maxDepth : Nat) :
    List Pattern → Nat → Nat → State → Option (Ending × State)
  | [], _, pos, s => some (.matched pos, s)
  | item :: items, mark, pos, s => do
    match ← eval input maxDepth item pos s with
    | (.matched stop, s) => evalSeq input maxDepth items mark stop s
    | (.failed, s) => pure (.failed, s.rollBack mark)
    | (.exhausted, s) => pure (.exhausted, s)

/-- Match the first pattern of a list that does match; all of them begin at the mark. -/
def evalChoice (input : Bytes) (maxDepth : Nat) :
    List Pattern → Nat → Nat → State → Option (Ending × State)
  | [], _, _, s => some (.failed, s)
  | item :: items, mark, pos, s => do
    match ← eval input maxDepth item pos s with
    | (.failed, s) => evalChoice input maxDepth items mark pos (s.rollBack mark)
    | (.matched stop, s) => pure (.matched stop, s)
    | (.exhausted, s) => pure (.exhausted, s)

end

/-- Try a pattern at an offset and behind it up to a last one, until it does not fail. -/
def sweep (input : Bytes) (maxDepth : Nat) (root : Pattern) (last : Nat) :
    Nat → Nat → State → Option (Ending × State)
  | 0, _, s => some (.failed, s)
  | rounds + 1, pos, s =>
    if pos ≤ last then do
      match ← eval input maxDepth root pos { s with captures := #[] } with
      | (.failed, s) => sweep input maxDepth root last rounds (pos + 1) s
      | (.matched stop, s) => pure (.matched stop, s)
      | (.exhausted, s) => pure (.exhausted, s)
    else some (.failed, s)

/-- Search an input from a place on, counted from one, with a log for so many attempts. -/
def search (p : Program) (input : Bytes) (start : Nat) (limits : Limits) (capacity : Nat) :
    Option (Outcome × State) := do
  let origin ← minus? (max start 1) 1
  let s : State := { steps := limits.steps, capacity }
  if input.length < origin then pure (⟨none, 0, false⟩, s)
  else
    let last := if p.root.anchored then 0 else input.length
    let (ending, s) ← sweep input limits.depth p.root last (last + 1) origin s
    match ending with
    | .matched stop =>
      let leftover ← minus? input.length stop
      pure (⟨s.captures.back?, leftover, false⟩, s)
    | .failed =>
      let leftover ← minus? input.length origin
      pure (⟨none, leftover, false⟩, s)
    | .exhausted =>
      let leftover ← minus? input.length origin
      pure (⟨none, leftover, true⟩, s)

/-! ## The two machines side by side -/

/-- How an evaluation on offsets ends where the one on places has a verdict. -/
def Ending.ofVerdict : Verdict → Ending
  | .exhausted => .exhausted
  | .failed => .failed
  | .matched behind => .matched behind.pos

/-- The state is that of the run inside so many captures. The log begins with the attempts that
were noted before the run's own, which it keeps the other way round. -/
structure State.Mirrors (s : State) (before : List Attempt) (depth : Nat) (run : Run) : Prop where
  steps : s.steps = run.steps
  depth : s.depth = depth
  captures : s.captures = run.captures
  log : s.log.toList = before ++ run.attempts.reverse
  room : s.log.size + run.room = s.capacity
  truncated : s.truncated = run.truncated

/-- No check fails, and the evaluation on offsets ends as the one on places, in a state that mirrors
the run. -/
def Follows (before : List Attempt) (depth : Nat) (outcome : Verdict × Run)
    (result : Option (Ending × State)) : Prop :=
  ∃ s, result = some (.ofVerdict outcome.1, s) ∧ s.Mirrors before depth outcome.2

variable {input : Bytes} {before : List Attempt} {depth pos maxDepth : Nat} {run : Run} {s : State}
  {outcome : Verdict × Run} {result : Option (Ending × State)}

theorem State.Mirrors.rollBack (h : s.Mirrors before depth run) (mark : Nat) :
    (s.rollBack mark).Mirrors before depth (run.rollBack mark) where
  steps := h.steps
  depth := h.depth
  captures := by rw [State.rollBack, Run.rollBack, h.captures]
  log := h.log
  room := h.room
  truncated := h.truncated

theorem State.Mirrors.mark (h : s.Mirrors before depth run) : s.captures.size = run.mark := by
  rw [h.captures, Run.mark]

theorem follows_of_mirrors (h : s.Mirrors before depth run) (verdict : Verdict) :
    Follows before depth (verdict, run) (some (.ofVerdict verdict, s)) :=
  ⟨s, rfl, h⟩

/-- What goes on after an evaluation goes on from how it ends on places. -/
theorem Follows.bind {before' : List Attempt} {depth' : Nat} {outcome' : Verdict × Run}
    {next : Ending × State → Option (Ending × State)} (h : Follows before depth outcome result)
    (hnext : ∀ s : State, s.Mirrors before depth outcome.2 →
      Follows before' depth' outcome' (next (.ofVerdict outcome.1, s))) :
    Follows before' depth' outcome' (result >>= next) := by
  obtain ⟨s, rfl, hs⟩ := h
  exact hnext s hs

/-- Where a step is left, one can be taken off. -/
theorem follows_tick {next : Nat → Option (Ending × State)} (h : s.Mirrors before depth run)
    (hnext : ({ s with steps := s.steps - 1 } : State).Mirrors before depth run.tick →
      Follows before depth outcome (next (s.steps - 1))) :
    Follows before depth (if run.steps = 0 then (.exhausted, run) else outcome)
      (if s.steps = 0 then some (.exhausted, s) else minus? s.steps 1 >>= next) := by
  rw [h.steps]
  by_cases hs : run.steps = 0
  · rw [if_pos hs, if_pos hs]
    exact follows_of_mirrors h .exhausted
  · rw [if_neg hs, if_neg hs, minus?_eq_some (Nat.one_le_iff_ne_zero.mpr hs)]
    rw [h.steps] at hnext
    exact hnext { h with steps := rfl }

theorem ofVerdict_consume (condition : Bool) (width : Nat) (place : Place) :
    Ending.ofVerdict (Pattern.consume condition width place) =
      .test condition (place.pos + width) := by
  cases condition <;> rfl

/-- What is tested without a look ahead ends alike. -/
theorem follows_consume {condition : Bool} {width : Nat} (h : s.Mirrors before depth run) :
    Follows before depth (Pattern.consume condition width (.within input pos), run)
      (some (.test condition (pos + width), s)) :=
  ⟨s, by rw [ofVerdict_consume, Place.pos_within], h⟩

theorem follows_literal (h : s.Mirrors before depth run) (hpos : pos ≤ input.length)
    (text : SizedBytes) :
    Follows before depth
      (Pattern.consume (text.isPrefixOf (Place.within input pos).ahead) text.size
        (.within input pos), run)
      (input.slice? pos input.length >>= fun ahead =>
        pure (.test (text.bytes.isPrefixOf ahead) (pos + text.bytes.length), s)) := by
  rw [Bytes.slice?_length hpos, SizedBytes.isPrefixOf_eq, Place.bytes_within, text.size_eq]
  exact follows_consume h

theorem follows_set (h : s.Mirrors before depth run) (members : ByteSet) :
    Follows before depth
      (Pattern.consume ((Place.within input pos).peek?.any members.contains) 1 (.within input pos),
        run)
      (pure (.test (input[pos]?.any members.contains) (pos + 1), s)) := by
  rw [Place.peek?, Place.bytes_within, List.head?_drop]
  exact follows_consume h

theorem one_le_announcedWidth (b : UInt8) : 1 ≤ Utf8.announcedWidth b := by
  unfold Utf8.announcedWidth
  split_ifs <;> omega

/-- A character has a width, for which no byte behind the text is looked at. -/
theorem stepWidth?_cons (b : UInt8) (rest : Bytes) :
    stepWidth? (b :: rest) = some (Utf8.stepWidth b rest) := by
  have hone := one_le_announcedWidth b
  by_cases hlen : Utf8.announcedWidth b ≤ rest.length + 1
  · have hslice : Bytes.slice? (b :: rest) 1 (Utf8.announcedWidth b) =
        some (rest.take (Utf8.announcedWidth b - 1)) :=
      Bytes.slice?_eq_some hone hlen
    simp [stepWidth?, Utf8.stepWidth, hlen, hslice, Nat.sub_add_cancel hone]
  · have hshort : min (Utf8.announcedWidth b - 1) rest.length + 1 ≠ Utf8.announcedWidth b := by
      omega
    simp [stepWidth?, Utf8.stepWidth, hlen, hshort]

theorem follows_any (h : s.Mirrors before depth run) :
    Follows before depth
      (match (Place.within input pos).ahead.bytes with
        | [] => (.failed, run)
        | b :: rest => (Pattern.consume true (Utf8.stepWidth b rest) (.within input pos), run))
      (if pos < input.length then
        input.slice? pos input.length >>= fun ahead =>
          stepWidth? ahead >>= fun width => pure (.matched (pos + width), s)
      else pure (.failed, s)) := by
  rw [Place.bytes_within]
  by_cases hpos : pos < input.length
  · rw [if_pos hpos, Bytes.slice?_length hpos.le, List.drop_eq_getElem_cons hpos]
    simp only [Option.bind_eq_bind, Option.bind_some, stepWidth?_cons]
    have hconsume (width : Nat) : Follows before depth
        (Pattern.consume true width (.within input pos), run)
        (some (.test true (pos + width), s)) := follows_consume h
    exact hconsume _
  · rw [if_neg hpos, List.drop_eq_nil_of_le (Nat.le_of_not_lt hpos)]
    exact follows_of_mirrors h .failed

theorem follows_inputStart (h : s.Mirrors before depth run) :
    Follows before depth
      (Pattern.consume ((Place.within input pos).pos == 0) 0 (.within input pos), run)
      (pure (.test (pos == 0) pos, s)) := by
  rw [Place.pos_within]
  exact follows_consume h

theorem follows_inputEnd (h : s.Mirrors before depth run) (hpos : pos ≤ input.length) :
    Follows before depth
      (Pattern.consume (Place.within input pos).atEnd 0 (.within input pos), run)
      (pure (.test (pos == input.length) pos, s)) := by
  have hend : (Place.within input pos).atEnd = (pos == input.length) := by
    rw [Bool.eq_iff_iff, Place.atEnd, Place.bytes_within, List.isEmpty_iff, List.drop_eq_nil_iff,
      beq_iff_eq]
    omega
  rw [hend]
  exact follows_consume h

theorem follows_conclude (h : s.Mirrors before depth run) (least mark count : Nat) :
    Follows before depth (Pattern.conclude least mark count (.within input pos) run)
      (some (conclude least mark count pos s)) := by
  unfold Pattern.conclude conclude
  split
  · exact follows_of_mirrors (h.rollBack mark) .failed
  · exact ⟨s, by rw [Ending.ofVerdict, Place.pos_within], h⟩

/-- What an attempt adds to the log: itself, if there was room. -/
def entry (room : Nat) (attempt : Attempt) : List Attempt := if room = 0 then [] else [attempt]

/-- The index of an attempt behind others, if there was room. -/
def indexBehind (others : List Attempt) (room : Nat) : Option Nat :=
  if room = 0 then none else some others.length

variable {name : String} {noted : List Attempt} {room : Nat}

/-- An attempt that begins is noted at the end of the log, if there is room, and what is tried inside
is noted behind it. -/
theorem State.Mirrors.enter (h : s.Mirrors before depth run) (name : String) (start : Nat) :
    ∃ s' : State,
      s.note? name start = some (indexBehind (before ++ run.attempts.reverse) run.room, s') ∧
      s'.captures = s.captures ∧
      ({ s' with depth := s'.depth + 1 } : State).Mirrors
        (before ++ run.attempts.reverse ++ entry run.room ⟨name, depth, start, none⟩) (depth + 1)
        run.enter := by
  have hsize : s.log.size = (before ++ run.attempts.reverse).length := by
    rw [← h.log, Array.length_toList]
  have hroom := h.room
  by_cases hz : run.room = 0
  · refine ⟨{ s with truncated := true }, ?_, rfl, ?_⟩
    · rw [State.note?, if_pos (by omega), indexBehind, if_pos hz]
    · exact {
        steps := h.steps
        depth := congrArg (· + 1) h.depth
        captures := h.captures
        log := by simp [entry, hz, h.log, Run.enter]
        room := by simp [Run.enter, hz, ← hroom]
        truncated := by simp [Run.enter, hz] }
  · refine ⟨{ s with log := s.log.push ⟨name, depth, start, none⟩ }, ?_, rfl, ?_⟩
    · rw [State.note?, if_neg (by omega), indexBehind, if_neg hz, ← hsize, h.depth]
      simp [minus?]
    · exact {
        steps := h.steps
        depth := congrArg (· + 1) h.depth
        captures := h.captures
        log := by simp [entry, hz, h.log, Run.enter]
        room := by
          simp only [Run.enter, Array.size_push]
          omega
        truncated := by simp [Run.enter, hz, h.truncated] }

/-- An attempt that is cut short stays in the log as it was noted. -/
theorem State.Mirrors.leave {attempt : Attempt}
    (h : s.Mirrors (before ++ noted.reverse ++ entry room attempt) depth run) :
    s.Mirrors before depth (run.leave room noted attempt) :=
  { h with
    log := by
      rw [h.log]
      by_cases hz : room = 0 <;> simp [Run.leave, entry, hz] }

/-- An attempt that ends is completed where it was noted. -/
theorem State.Mirrors.complete {start tried : Nat}
    (h : s.Mirrors (before ++ noted.reverse ++ entry room ⟨name, tried, start, none⟩) depth run)
    (stop : Option Nat) :
    ∃ s' : State, s.complete? (indexBehind (before ++ noted.reverse) room) stop = some s' ∧
      s'.Mirrors before depth (run.leave room noted ⟨name, tried, start, stop⟩) := by
  by_cases hz : room = 0
  · refine ⟨s, by rw [indexBehind, if_pos hz, State.complete?], State.Mirrors.leave ?_⟩
    simpa [entry, hz] using h
  · have hlog : s.log.toList =
        (before ++ noted.reverse) ++ ⟨name, tried, start, none⟩ :: run.attempts.reverse := by
      rw [h.log, entry, if_neg hz, List.append_assoc, List.singleton_append]
    have hfound : s.log[(before ++ noted.reverse).length]? = some ⟨name, tried, start, none⟩ := by
      rw [← Array.getElem?_toList, hlog, List.getElem?_append_right (Nat.le_refl _), Nat.sub_self,
        List.getElem?_cons_zero]
    have hset : (s.log.setIfInBounds (before ++ noted.reverse).length
        ⟨name, tried, start, stop⟩).toList =
          before ++ noted.reverse ++ entry room ⟨name, tried, start, stop⟩ ++
            run.attempts.reverse := by
      rw [Array.toList_setIfInBounds, hlog, List.set_append_right _ _ (Nat.le_refl _),
        Nat.sub_self, List.set_cons_zero, List.append_cons, entry, if_neg hz]
    refine ⟨_, by rw [indexBehind, if_neg hz, State.complete?, hfound]; rfl, ?_⟩
    exact State.Mirrors.leave { h with
      log := hset
      room := by rw [Array.size_setIfInBounds, h.room] }

/-- A stack that reaches the mark can be gathered. -/
theorem State.Mirrors.gather (h : s.Mirrors before depth run) {mark : Nat}
    (hmark : mark ≤ run.captures.size) (name : String) (start stop : Nat) :
    ∃ s' : State, s.gather? mark name start stop = some s' ∧
      s'.Mirrors before depth (run.gather mark name start stop) := by
  rw [← h.captures] at hmark
  refine ⟨_, if_pos hmark, { h with captures := ?_ }⟩
  simp only [Run.gather, h.captures]

theorem follows_record
    (h : Follows (before ++ noted.reverse ++ entry room ⟨name, depth, pos, none⟩) (depth + 1)
      outcome result) {mark : Nat}
    (hmark : ∀ behind, outcome.1 = .matched behind → mark ≤ outcome.2.captures.size) :
    Follows before depth (Pattern.record name depth (.within input pos) mark room noted outcome)
      (result >>= record? name pos mark (indexBehind (before ++ noted.reverse) room)) := by
  refine h.bind fun s hs => ?_
  obtain ⟨verdict, run⟩ := outcome
  have hout : ({ s with depth := depth } : State).Mirrors
      (before ++ noted.reverse ++ entry room ⟨name, depth, pos, none⟩) depth run :=
    { hs with depth := rfl }
  have hdepth : minus? s.depth 1 = some depth := by
    rw [hs.depth, minus?_eq_some (Nat.le_add_left 1 depth), Nat.add_sub_cancel]
  simp only [record?, hdepth, Pattern.record, Place.pos_within]
  cases verdict with
  | exhausted => exact follows_of_mirrors hout.leave .exhausted
  | failed =>
    obtain ⟨s', hs', hm⟩ := (hout.rollBack mark).complete none
    exact ⟨s', by simp [Ending.ofVerdict, hs'], hm⟩
  | matched behind =>
    obtain ⟨gathered, hgathered, hg⟩ := hout.gather (hmark behind rfl) name pos behind.pos
    obtain ⟨s', hs', hm⟩ := hg.complete (some behind.pos)
    exact ⟨s', by simp [Ending.ofVerdict, hgathered, hs'], hm⟩

theorem follows_foresee (h : Follows before depth outcome result) (kind : Lookahead) (mark : Nat) :
    Follows before depth (Pattern.foresee kind (.within input pos) mark outcome)
      (result >>= fun outcome => pure (foresee kind pos mark outcome)) := by
  refine h.bind fun s hs => ?_
  obtain ⟨verdict, run⟩ := outcome
  cases verdict with
  | exhausted => exact follows_of_mirrors hs .exhausted
  | failed | matched => exact follows_consume (hs.rollBack mark)

open Pattern (EndsWithin endsWithin_eval)

/-- An evaluation that matches leaves what was recorded before it. -/
theorem mark_le_of_matched {p : Pattern} {behind : Place} (hpos : pos ≤ input.length)
    (h : (p.eval maxDepth depth (.within input pos) run).1 = .matched behind) :
    run.mark ≤ (p.eval maxDepth depth (.within input pos) run).2.captures.size := by
  have ha : Pattern.Agrees input p pos run.recorded run.recorded
      (p.eval maxDepth depth (.within input pos) run) := Pattern.agrees_eval p hpos
  cases he : p.eval maxDepth depth (.within input pos) run with
  | mk verdict after =>
    rw [he] at h ha
    subst h
    obtain ⟨stop, forest, -, -, hr⟩ := ha
    have hsize := congrArg List.length hr
    rw [List.length_append] at hsize
    exact Nat.le_of_add_right_le hsize.ge

/-- The copies of a repetition end alike when each copy does. -/
theorem follows_repeatFrom {copy : Place → Run → Verdict × Run}
    {copy' : Nat → State → Option (Ending × State)}
    (hends : ∀ pos run, pos ≤ input.length →
      EndsWithin input pos (copy (.within input pos) run).1)
    (hcopy : ∀ (pos : Nat) (run : Run) (s : State), pos ≤ input.length →
      s.Mirrors before depth run →
        Follows before depth (copy (.within input pos) run) (copy' pos s))
    {least mark rounds : Nat} {most : Option Nat} :
    ∀ {count pos : Nat} {run : Run} {s : State}, pos ≤ input.length → s.Mirrors before depth run →
      Follows before depth
        (Pattern.repeatFrom copy least most mark rounds count (.within input pos) run)
        (repeatFrom copy' least most mark rounds count pos s) := by
  induction rounds with
  | zero =>
    intro count pos run s _ h
    exact follows_conclude h least mark count
  | succ rounds ih =>
    intro count pos run s hpos h
    have hc := hcopy pos run s hpos h
    have hend := hends pos run hpos
    rw [Pattern.repeatFrom, repeatFrom]
    by_cases hfull : most.any (· ≤ count) = true
    · rw [if_pos hfull, if_pos hfull]
      exact follows_conclude h least mark count
    · rw [if_neg hfull, if_neg hfull, h.mark]
      cases he : copy (.within input pos) run with
      | mk verdict after =>
        rw [he] at hc hend
        refine hc.bind fun s' hs' => ?_
        cases verdict with
        | exhausted => exact follows_of_mirrors hs' .exhausted
        | failed => exact follows_conclude (hs'.rollBack run.mark) least mark count
        | matched behind =>
          obtain ⟨stop, rfl, -, hstop⟩ := hend behind rfl
          simp only [Ending.ofVerdict, Place.pos_within]
          split
          · exact follows_conclude hs' least mark (max count least)
          · exact ih hstop hs'

mutual

/-- An evaluation on offsets ends as the one on places. -/
theorem follows_eval : ∀ (p : Pattern) {before : List Attempt} {depth pos : Nat} {run : Run}
    {s : State}, pos ≤ input.length → s.Mirrors before depth run →
    Follows before depth (p.eval maxDepth depth (.within input pos) run)
      (eval input maxDepth p pos s)
  | .literal text, _, _, _, _, _, hpos, h => by
    rw [Pattern.eval, eval]
    exact follows_tick h fun hs => follows_literal hs hpos text
  | .set members, _, _, _, _, _, _, h => by
    rw [Pattern.eval, eval]
    exact follows_tick h fun hs => follows_set hs members
  | .any, _, _, _, _, _, _, h => by
    rw [Pattern.eval, eval]
    exact follows_tick h fun hs => follows_any hs
  | .inputStart, _, _, _, _, _, _, h => by
    rw [Pattern.eval, eval]
    exact follows_tick h fun hs => follows_inputStart hs
  | .inputEnd, _, _, _, _, _, hpos, h => by
    rw [Pattern.eval, eval]
    exact follows_tick h fun hs => follows_inputEnd hs hpos
  | .seq items, _, _, _, _, _, hpos, h => by
    rw [Pattern.eval, eval]
    refine follows_tick h fun hs => ?_
    dsimp only
    rw [h.mark]
    exact follows_evalSeq items hpos hs
  | .choice alternatives, _, _, _, _, _, hpos, h => by
    rw [Pattern.eval, eval]
    refine follows_tick h fun hs => ?_
    dsimp only
    rw [h.mark]
    exact follows_evalChoice alternatives hpos hs
  | .repetition body least most, _, _, _, _, _, hpos, h => by
    rw [Pattern.eval, eval]
    refine follows_tick h fun hs => ?_
    dsimp only
    rw [h.mark]
    exact follows_repeatFrom (fun _ run hpos => endsWithin_eval body hpos run)
      (fun _ _ _ => follows_eval body) hpos hs
  | .lookahead kind body, _, _, _, _, _, hpos, h => by
    rw [Pattern.eval, eval]
    refine follows_tick h fun hs => ?_
    dsimp only
    rw [h.mark]
    exact follows_foresee (follows_eval body hpos hs) kind _
  | .transparent body, _, _, _, _, _, hpos, h => by
    rw [Pattern.eval, eval]
    exact follows_tick h fun hs => follows_eval body hpos hs
  | .capture name body, _, depth, pos, run, s, hpos, h => by
    obtain rfl := h.depth
    rw [Pattern.eval, eval]
    refine follows_tick h fun hs => ?_
    dsimp only
    split
    · exact follows_of_mirrors hs .exhausted
    · obtain ⟨s', hnote, hcaptures, hs'⟩ := hs.enter name pos
      have hmark : s'.captures.size = run.tick.mark := by rw [hcaptures, hs.mark]
      rw [hnote]
      change Follows _ s.depth _ (_ >>= record? name pos s'.captures.size _)
      rw [hmark]
      have hend : ∀ behind,
          (body.eval maxDepth (s.depth + 1) (.within input pos) run.tick.enter).1 =
            .matched behind →
          run.tick.enter.mark ≤
            (body.eval maxDepth (s.depth + 1) (.within input pos) run.tick.enter).2.captures.size :=
        fun _ hb => mark_le_of_matched hpos hb
      exact follows_record (follows_eval body hpos hs') hend

/-- The items of a sequence end alike. -/
theorem follows_evalSeq : ∀ (items : List Pattern) {before : List Attempt} {mark depth pos : Nat}
    {run : Run} {s : State}, pos ≤ input.length → s.Mirrors before depth run →
    Follows before depth (Pattern.evalSeq maxDepth items mark depth (.within input pos) run)
      (evalSeq input maxDepth items mark pos s)
  | [], _, _, _, pos, _, s, _, h =>
    ⟨s, by rw [evalSeq, Pattern.evalSeq]; simp [Ending.ofVerdict], h⟩
  | item :: items, _, mark, depth, pos, run, s, hpos, h => by
    have hend : EndsWithin input pos (item.eval maxDepth depth (.within input pos) run).1 :=
      endsWithin_eval item hpos run
    have hitem : Follows _ depth (item.eval maxDepth depth (.within input pos) run)
        (eval input maxDepth item pos s) := follows_eval item hpos h
    rw [Pattern.evalSeq, evalSeq]
    cases he : item.eval maxDepth depth (.within input pos) run with
    | mk verdict after =>
      rw [he] at hitem hend
      refine hitem.bind fun s' hs' => ?_
      cases verdict with
      | exhausted => exact follows_of_mirrors hs' .exhausted
      | failed => exact follows_of_mirrors (hs'.rollBack mark) .failed
      | matched behind =>
        obtain ⟨stop, rfl, -, hstop⟩ := hend behind rfl
        simp only [Ending.ofVerdict, Place.pos_within]
        exact follows_evalSeq items hstop hs'

/-- The alternatives of a choice end alike. -/
theorem follows_evalChoice : ∀ (items : List Pattern) {before : List Attempt}
    {mark depth pos : Nat} {run : Run} {s : State}, pos ≤ input.length →
    s.Mirrors before depth run →
    Follows before depth (Pattern.evalChoice maxDepth items mark depth (.within input pos) run)
      (evalChoice input maxDepth items mark pos s)
  | [], _, _, _, _, _, s, _, h => ⟨s, by rw [evalChoice, Pattern.evalChoice]; rfl, h⟩
  | item :: items, _, mark, depth, pos, run, s, hpos, h => by
    have hitem : Follows _ depth (item.eval maxDepth depth (.within input pos) run)
        (eval input maxDepth item pos s) := follows_eval item hpos h
    rw [Pattern.evalChoice, evalChoice]
    cases he : item.eval maxDepth depth (.within input pos) run with
    | mk verdict after =>
      rw [he] at hitem
      refine hitem.bind fun s' hs' => ?_
      cases verdict with
      | exhausted => exact follows_of_mirrors hs' .exhausted
      | failed => exact follows_evalChoice items hpos (hs'.rollBack mark)
      | matched behind => exact follows_of_mirrors hs' (.matched behind)

end

/-! ## Searches -/

variable {p : Program} {origin start : Nat} {limits : Limits}

theorem follows_attempt (h : s.Mirrors before 0 run) (hpos : pos ≤ input.length) :
    Follows before 0 (p.attempt maxDepth (.within input pos) run)
      (eval input maxDepth p.root pos { s with captures := #[] }) :=
  follows_eval p.root hpos { h with captures := rfl }

/-- Behind the last offset nothing is tried. -/
theorem sweep_of_lt {last : Nat} (h : last < origin) (rounds : Nat) (s : State) :
    sweep input maxDepth p.root last rounds origin s = some (.failed, s) := by
  cases rounds with
  | zero => rfl
  | succ rounds => rw [sweep, if_neg (Nat.not_le_of_lt h)]

/-- A sweep up to a last offset ends as the one over so many places, if its rounds do not run out. -/
theorem follows_sweep {more last rounds : Nat} (hlast : origin + more = last)
    (hlen : last ≤ input.length) (hrounds : more < rounds) (h : s.Mirrors before 0 run) :
    Follows before 0 (Program.sweep (p.attempt maxDepth) more (.within input origin) run)
      (sweep input maxDepth p.root last rounds origin s) := by
  induction more generalizing origin run s rounds with
  | zero =>
    obtain ⟨rounds, rfl⟩ := Nat.exists_eq_add_of_lt hrounds
    have hpos : origin ≤ input.length := by omega
    have hfirst : Follows before 0 (p.attempt maxDepth (.within input origin) run)
        (eval input maxDepth p.root origin { s with captures := #[] }) := follows_attempt h hpos
    rw [Program.sweep, sweep, if_pos (by omega)]
    cases he : p.attempt maxDepth (.within input origin) run with
    | mk verdict after =>
      rw [he] at hfirst
      refine hfirst.bind fun s' hs' => ?_
      cases verdict with
      | exhausted => exact follows_of_mirrors hs' .exhausted
      | matched behind => exact follows_of_mirrors hs' (.matched behind)
      | failed => exact ⟨s', sweep_of_lt (by omega) _ s', hs'⟩
  | succ more ih =>
    obtain ⟨rounds, rfl⟩ := Nat.exists_eq_add_of_lt hrounds
    have hpos : origin ≤ input.length := by omega
    have hfirst : Follows before 0 (p.attempt maxDepth (.within input origin) run)
        (eval input maxDepth p.root origin { s with captures := #[] }) := follows_attempt h hpos
    rw [Program.sweep, sweep, if_pos (by omega)]
    cases he : p.attempt maxDepth (.within input origin) run with
    | mk verdict after =>
      rw [he] at hfirst
      refine hfirst.bind fun s' hs' => ?_
      cases verdict with
      | exhausted => exact follows_of_mirrors hs' .exhausted
      | matched behind => exact follows_of_mirrors hs' (.matched behind)
      | failed =>
        simp only [Place.advance_within]
        exact ih (by omega) (by omega) hs'

/-- A sweep up to the last offset where the program can match ends as a scan. -/
theorem follows_scan (hfrom : origin ≤ input.length) (h : s.Mirrors before 0 run) {last : Nat}
    (hlast : last = if p.root.anchored then 0 else input.length) :
    Follows before 0 (p.scan input origin limits run)
      (sweep input limits.depth p.root last (last + 1) origin s) := by
  unfold Program.scan
  split
  · rename_i ha
    rw [if_pos ha] at hlast
    subst hlast
    split
    · rename_i hzero
      subst hzero
      have hsweep : Follows before 0
          (Program.sweep (p.attempt limits.depth) 0 (.within input 0) run)
          (sweep input limits.depth p.root 0 1 0 s) := follows_sweep rfl hfrom Nat.zero_lt_one h
      exact hsweep
    · rename_i hne
      rw [sweep_of_lt (Nat.pos_of_ne_zero hne)]
      exact follows_of_mirrors h .failed
  · rename_i ha
    rw [if_neg ha] at hlast
    exact follows_sweep (by omega) (by omega) (by omega) h

/-- No check of a search fails, and it finds and notes what the search on places does. -/
theorem search_eq_some (p : Program) (input : Bytes) (start : Nat) (limits : Limits) (room : Nat) :
    ∃ s, search p input start limits room = some ((p.search input start limits room).1, s) ∧
      s.log.toList = (p.search input start limits room).2.attempts.reverse ∧
      s.truncated = (p.search input start limits room).2.truncated := by
  have horigin : minus? (max start 1) 1 = some (max start 1 - 1) :=
    minus?_eq_some (Nat.le_max_right start 1)
  have hmirrors : ({ steps := limits.steps, capacity := room } : State).Mirrors [] 0
      { steps := limits.steps, room } :=
    { steps := rfl, depth := rfl, captures := rfl, log := rfl, room := by simp, truncated := rfl }
  by_cases hfrom : max start 1 - 1 ≤ input.length
  · have hscan : Follows [] 0
        (p.scan input (max start 1 - 1) limits { steps := limits.steps, room }) _ :=
      follows_scan hfrom hmirrors rfl
    obtain ⟨s, hsweep, hm⟩ := hscan
    have hs : p.Swept input (max start 1 - 1)
        (p.scan input (max start 1 - 1) limits { steps := limits.steps, room }) :=
      Program.swept_scan hfrom
    have hleftover := minus?_eq_some hfrom
    rw [Program.search_eq_scan hfrom]
    refine ⟨s, ?_, hm.log, hm.truncated⟩
    simp only [search, horigin, Option.bind_eq_bind, Option.bind_some, Nat.not_lt.mpr hfrom,
      if_false, hsweep]
    cases hscan : p.scan input (max start 1 - 1) limits { steps := limits.steps, room } with
    | mk verdict after =>
      rw [hscan] at hs hm
      cases verdict with
      | exhausted | failed => simp [Ending.ofVerdict, Program.outcomeOf, hleftover]
      | matched behind =>
        obtain ⟨pos, stop, tree, -, hpos, -, hmatch, rfl, -⟩ := hs
        have hstop := minus?_eq_some ((hmatch.yields hpos).bounds hpos).2
        simp [Ending.ofVerdict, Program.outcomeOf, hstop, hm.captures]
  · have hlt : input.length < max start 1 - 1 := Nat.lt_of_not_le hfrom
    refine ⟨{ steps := limits.steps, capacity := room }, ?_, ?_⟩
    · simp [search, Program.search, horigin, hlt]
    · simp [Program.search, hlt]

end Checked

end PatternEngine
