import PatternEngine.Proofs.Match.Semantics

/-!
# The machine against the relation

Unless a limit cuts it short, the machine ends with the result that the pattern has at the
place, and its stack of recorded matches has grown by exactly the forest of a match and is
otherwise the one it began with. The stack is looked at as a list: a mark is a length, rolling
back keeps the first matches, and gathering puts the others into one.

Parts of a sequence or repetition begin above the mark of the whole, so the statement carried
through the evaluation tells the stack at the mark, which a failure restores, from the stack
at the place, which a match extends.
-/

namespace PatternEngine

/-- The place at an offset of an input. -/
def Place.within (input : Bytes) (pos : Nat) : Place := (Place.start input).advance pos

namespace Place

variable {input : Bytes} {pos : Nat}

@[simp] theorem pos_within : (within input pos).pos = pos := Nat.zero_add pos

@[simp] theorem bytes_within : (within input pos).ahead.bytes = input.drop pos := rfl

@[simp] theorem size_within : (within input pos).ahead.size = input.length - pos := rfl

/-- Going on from an offset leads to a later offset of the same input. -/
@[simp] theorem advance_within (n : Nat) :
    (within input pos).advance n = within input (pos + n) := by
  simp only [within, advance, start, SizedBytes.drop, SizedBytes.ofBytes, List.drop_drop,
    Nat.sub_sub, Nat.add_assoc]

end Place

namespace Run

/-- The recorded matches as a list. -/
def recorded (run : Run) : List MatchTree := run.captures.toList

@[simp] theorem mark_eq_length (run : Run) : run.mark = run.recorded.length := rfl

@[simp] theorem recorded_tick (run : Run) : run.tick.recorded = run.recorded := rfl

@[simp] theorem recorded_enter (run : Run) : run.enter.recorded = run.recorded := rfl

@[simp] theorem recorded_leave (run : Run) (room : Nat) (noted : List Attempt)
    (attempt : Attempt) : (run.leave room noted attempt).recorded = run.recorded := rfl

@[simp] theorem recorded_rollBack (run : Run) (mark : Nat) :
    (run.rollBack mark).recorded = run.recorded.take mark :=
  Array.toList_shrink

@[simp] theorem recorded_gather (run : Run) (mark : Nat) (name : String) (start stop : Nat) :
    (run.gather mark name start stop).recorded =
      run.recorded.take mark ++ [.node name start stop (run.recorded.drop mark)] := by
  have hsubs : (run.captures.extract mark run.captures.size).toList =
      run.captures.toList.drop mark := by
    rw [Array.toList_extract, List.extract_eq_take_drop]
    exact List.take_of_length_le (by simp)
  simp only [gather, recorded, Array.toList_push, Array.toList_shrink, hsubs]

end Run

namespace Pattern

variable {input : Bytes} {maxDepth : Nat}

/-- A verdict at an offset is the result of the pattern there. After a failure the stack is that
at the mark, after a match it is that at the offset with the forest of the match. -/
def Agrees (input : Bytes) (p : Pattern) (pos : Nat) (atMark atPos : List MatchTree) :
    Verdict × Run → Prop
  | (.exhausted, _) => True
  | (.failed, run) => p.Yields input pos .failure ∧ run.recorded = atMark
  | (.matched behind, run) =>
    ∃ stop forest, behind = .within input stop ∧ p.Yields input pos (.success stop forest) ∧
      run.recorded = atPos ++ forest

variable {p body : Pattern} {pos : Nat} {atMark atPos : List MatchTree} {run : Run}

/-- Either step limit or the rest of the evaluation decides. -/
theorem agrees_tick {run : Run} {outcome : Verdict × Run}
    (h : Agrees input p pos atMark atPos outcome) :
    Agrees input p pos atMark atPos (if run.steps = 0 then (.exhausted, run) else outcome) := by
  split
  · trivial
  · exact h

theorem agrees_consume {condition : Bool} {width : Nat}
    (hyes : condition = true → p.Yields input pos (.success (pos + width) []))
    (hno : condition = false → p.Yields input pos .failure) (hrun : run.recorded = atPos) :
    Agrees input p pos atPos atPos (consume condition width (.within input pos), run) := by
  subst hrun
  cases condition with
  | true => exact ⟨_, [], Place.advance_within width, hyes rfl, by simp⟩
  | false => exact ⟨hno rfl, rfl⟩

/-- What is tested without consuming anything agrees with the test. -/
theorem agrees_test {condition : Bool} {holds : Prop} [Decidable holds]
    (hc : condition = true ↔ holds) (h : p.Yields input pos (.ofTest holds pos))
    (hrun : run.recorded = atPos) :
    Agrees input p pos atPos atPos (consume condition 0 (.within input pos), run) := by
  by_cases hh : holds
  · rw [Result.ofTest, if_pos hh] at h
    exact agrees_consume (fun _ => h) (fun hn => by simp [hc.mpr hh] at hn) hrun
  · rw [Result.ofTest, if_neg hh] at h
    exact agrees_consume (fun hy => absurd (hc.mp hy) hh) (fun _ => h) hrun

theorem agrees_literal (text : SizedBytes) (hrun : run.recorded = atPos) :
    Agrees input (.literal text) pos atPos atPos
      (consume (text.isPrefixOf (Place.within input pos).ahead) text.size (.within input pos),
        run) := by
  have hp : text.isPrefixOf (Place.within input pos).ahead = true ↔
      text.bytes <+: input.drop pos := by
    rw [SizedBytes.isPrefixOf_eq, Place.bytes_within, List.isPrefixOf_iff_prefix]
  refine agrees_consume (fun h => ?_) (fun h => ?_) hrun
  · rw [text.size_eq]
    exact .literal (hp.mp h)
  · exact .notLiteral fun hn => by simp [hp.mpr hn] at h

theorem agrees_set (members : ByteSet) (hrun : run.recorded = atPos) :
    Agrees input (.set members) pos atPos atPos
      (consume ((Place.within input pos).peek?.any members.contains) 1 (.within input pos),
        run) := by
  have hpeek : (Place.within input pos).peek? = input[pos]? := by
    rw [Place.peek?, Place.bytes_within, List.head?_drop]
  rw [hpeek]
  refine agrees_consume (fun h => ?_) (fun h => ?_) hrun
  · obtain ⟨b, hb, hm⟩ := (Option.any_eq_true _ _).mp h
    exact .set hb hm
  · exact .notSet fun b hb => by simpa [hb] using h

theorem agrees_any (hrun : run.recorded = atPos) :
    Agrees input .any pos atPos atPos
      (match (Place.within input pos).ahead.bytes with
        | [] => (.failed, run)
        | b :: rest => (consume true (Utf8.stepWidth b rest) (.within input pos), run)) := by
  cases h : (Place.within input pos).ahead.bytes with
  | nil => exact ⟨.notAny h, hrun⟩
  | cons b rest => exact agrees_consume (fun _ => .any h) (fun hn => by cases hn) hrun

/-- A predicate rolls the stack back, whatever its operand did. -/
theorem agrees_foresee {kind : Lookahead} {outcome : Verdict × Run}
    (h : Agrees input body pos atPos atPos outcome) :
    Agrees input (.lookahead kind body) pos atPos atPos
      (foresee kind (.within input pos) atPos.length outcome) := by
  obtain ⟨verdict, run⟩ := outcome
  cases verdict with
  | exhausted => trivial
  | failed =>
    exact agrees_test (by simp) (.lookaheadFailure h.1) (by simp [h.2])
  | matched behind =>
    obtain ⟨stop, forest, -, hy, hr⟩ := h
    exact agrees_test (by simp) (.lookaheadSuccess hy) (by simp [hr])

/-- A capture gathers exactly the forest of its body. -/
theorem agrees_record {name : String} {depth room : Nat} {noted : List Attempt}
    {outcome : Verdict × Run} (h : Agrees input body pos atPos atPos outcome) :
    Agrees input (.capture name body) pos atPos atPos
      (record name depth (.within input pos) atPos.length room noted outcome) := by
  obtain ⟨verdict, run⟩ := outcome
  cases verdict with
  | exhausted => trivial
  | failed => exact ⟨.captureFailure h.1, by simp [h.2]⟩
  | matched behind =>
    obtain ⟨stop, forest, rfl, hy, hr⟩ := h
    exact ⟨stop, _, rfl, .captureSuccess hy, by simp [hr]⟩

/-- An alias agrees with its body. -/
theorem agrees_transparent {outcome : Verdict × Run}
    (h : Agrees input body pos atMark atPos outcome) :
    Agrees input (.transparent body) pos atMark atPos outcome := by
  obtain ⟨verdict, run⟩ := outcome
  cases verdict with
  | exhausted => trivial
  | failed => exact ⟨.transparent h.1, h.2⟩
  | matched behind =>
    obtain ⟨stop, forest, rfl, hy, hr⟩ := h
    exact ⟨stop, forest, rfl, .transparent hy, hr⟩

/-- A sequence goes on behind its first item, whose forest is already on the stack. -/
theorem agrees_seqCons {item : Pattern} {items : List Pattern} {mid : Nat}
    {forest : List MatchTree} {outcome : Verdict × Run}
    (h : item.Yields input pos (.success mid forest)) (hrun : run.recorded = atPos ++ forest)
    (hrest : Agrees input (.seq items) mid atMark run.recorded outcome) :
    Agrees input (.seq (item :: items)) pos atMark atPos outcome := by
  obtain ⟨verdict, after⟩ := outcome
  cases verdict with
  | exhausted => trivial
  | failed => exact ⟨.seqCons h hrest.1, hrest.2⟩
  | matched behind =>
    obtain ⟨stop, later, rfl, hy, hr⟩ := hrest
    exact ⟨stop, forest ++ later, rfl, .seqCons h hy, by rw [hr, hrun, List.append_assoc]⟩

/-- A choice goes on behind an alternative that fails. -/
theorem agrees_choiceTail {item : Pattern} {items : List Pattern} {outcome : Verdict × Run}
    (h : item.Yields input pos .failure)
    (hrest : Agrees input (.choice items) pos atMark atPos outcome) :
    Agrees input (.choice (item :: items)) pos atMark atPos outcome := by
  obtain ⟨verdict, after⟩ := outcome
  cases verdict with
  | exhausted => trivial
  | failed => exact ⟨.choiceTail h hrest.1, hrest.2⟩
  | matched behind =>
    obtain ⟨stop, forest, rfl, hy, hr⟩ := hrest
    exact ⟨stop, forest, rfl, .choiceTail h hy, hr⟩

/-- The end of a repetition agrees with the test for missing copies. -/
theorem agrees_conclude {least count : Nat} {most : Option Nat} {sofar : List MatchTree}
    (h : (Pattern.repetition body (least - count) most).Yields input pos
      (.ofTest (least - count = 0) pos))
    (hrun : run.recorded = atMark ++ sofar) :
    Agrees input (.repetition body (least - count) most) pos atMark (atMark ++ sofar)
      (conclude least atMark.length count (.within input pos) run) := by
  unfold conclude
  split
  · rw [Result.ofTest, if_neg (by omega)] at h
    exact ⟨h, by simp [hrun]⟩
  · rw [Result.ofTest, if_pos (by omega)] at h
    exact ⟨pos, [], rfl, h, by simp [hrun]⟩

/-- Behind a copy that consumes something a repetition goes on with both bounds one less. -/
theorem agrees_more {least count mid : Nat} {most : Option Nat} {sofar forest : List MatchTree}
    {outcome : Verdict × Run} (hm : most.map (· - count) ≠ some 0)
    (h : body.Yields input pos (.success mid forest)) (hne : mid ≠ pos)
    (hnext : Agrees input (.repetition body (least - (count + 1)) (most.map (· - (count + 1)))) mid
      atMark (atMark ++ (sofar ++ forest)) outcome) :
    Agrees input (.repetition body (least - count) (most.map (· - count))) pos atMark
      (atMark ++ sofar) outcome := by
  have hleast : least - (count + 1) = least - count - 1 := by omega
  have hmost : most.map (· - (count + 1)) = (most.map (· - count)).map (· - 1) := by
    simp [Function.comp_def, Nat.sub_sub]
  rw [hleast, hmost] at hnext
  obtain ⟨verdict, run⟩ := outcome
  cases verdict with
  | exhausted => trivial
  | failed => exact ⟨.repetitionMore hm h hne hnext.1, hnext.2⟩
  | matched behind =>
    obtain ⟨stop, later, rfl, hy, hr⟩ := hnext
    exact ⟨stop, forest ++ later, rfl, .repetitionMore hm h hne hy, by simp [hr]⟩

/-- The rounds of a repetition agree with the repetition with the copies made so far taken off
its bounds. There are more rounds than bytes, so they never run out. -/
theorem agrees_repeatFrom {copy : Place → Run → Verdict × Run}
    (hcopy : ∀ pos run, pos ≤ input.length →
      Agrees input body pos run.recorded run.recorded (copy (.within input pos) run))
    {least : Nat} {most : Option Nat} {rounds : Nat} :
    ∀ {count pos : Nat} {run : Run} {sofar : List MatchTree}, pos ≤ input.length →
      input.length - pos < rounds → run.recorded = atMark ++ sofar →
      Agrees input (.repetition body (least - count) (most.map (· - count))) pos atMark
        (atMark ++ sofar)
        (repeatFrom copy least most atMark.length rounds count (.within input pos) run) := by
  induction rounds with
  | zero =>
    intro count pos run sofar _ hrounds
    omega
  | succ rounds ih =>
    intro count pos run sofar hpos hrounds hrun
    rw [repeatFrom]
    by_cases hfull : most.any (· ≤ count) = true
    · rw [if_pos hfull]
      obtain ⟨m, rfl, hm⟩ := (Option.any_eq_true _ _).mp hfull
      have hzero : (some m).map (· - count) = some 0 := by
        simpa [Nat.sub_eq_zero_iff_le] using hm
      rw [hzero]
      exact agrees_conclude .repetitionFull hrun
    · rw [if_neg hfull]
      have hmost : most.map (· - count) ≠ some 0 := by
        intro he
        obtain ⟨m, rfl, hm⟩ := Option.map_eq_some_iff.mp he
        exact hfull (by simpa [Nat.sub_eq_zero_iff_le] using hm)
      have h := hcopy pos run hpos
      cases hb : copy (.within input pos) run with
      | mk verdict after =>
        rw [hb] at h
        cases verdict with
        | exhausted => trivial
        | failed =>
          have hback : (after.rollBack run.mark).recorded = atMark ++ sofar := by
            rw [Run.recorded_rollBack, h.2, Run.mark_eq_length, List.take_length, hrun]
          exact agrees_conclude (.repetitionDone hmost h.1) hback
        | matched behind =>
          obtain ⟨mid, forest, rfl, hy, hr⟩ := h
          have hrun' : after.recorded = atMark ++ (sofar ++ forest) := by
            rw [hr, hrun, List.append_assoc]
          simp only [Place.pos_within, beq_iff_eq]
          by_cases hmid : mid = pos
          · subst hmid
            rw [if_pos rfl, conclude, if_neg (by omega)]
            exact ⟨mid, forest, rfl, .repetitionEmpty hmost hy, by
              rw [hrun', List.append_assoc]⟩
          · rw [if_neg hmid]
            have hb := hy.bounds hpos
            exact agrees_more hmost hy hmid (ih hb.2 (by omega) hrun')

mutual

/-- The evaluation of a pattern agrees with its result. -/
theorem agrees_eval : ∀ (p : Pattern) {depth pos : Nat} {run : Run}, pos ≤ input.length →
    Agrees input p pos run.recorded run.recorded (p.eval maxDepth depth (.within input pos) run)
  | .literal text, _, _, _, _ => by
    rw [eval]
    exact agrees_tick (agrees_literal text rfl)
  | .set members, _, _, _, _ => by
    rw [eval]
    exact agrees_tick (agrees_set members rfl)
  | .any, _, _, _, _ => by
    rw [eval]
    exact agrees_tick (agrees_any rfl)
  | .inputStart, _, _, _, _ => by
    rw [eval]
    exact agrees_tick (agrees_test (by simp) .inputStart rfl)
  | .inputEnd, _, pos, _, hpos => by
    rw [eval]
    have hend : (Place.within input pos).atEnd = true ↔ pos = input.length := by
      rw [Place.atEnd, Place.bytes_within, List.isEmpty_iff, List.drop_eq_nil_iff]
      omega
    exact agrees_tick (agrees_test hend .inputEnd rfl)
  | .seq items, _, _, run, hpos => by
    rw [eval]
    exact agrees_tick (agrees_evalSeq items hpos (List.append_nil _).symm)
  | .choice alternatives, _, _, run, hpos => by
    rw [eval]
    exact agrees_tick (agrees_evalChoice alternatives hpos rfl)
  | .repetition body least most, depth, pos, run, hpos => by
    rw [eval]
    have h : Agrees input (.repetition body (least - 0) (most.map (· - 0))) pos run.tick.recorded
        (run.tick.recorded ++ []) (repeatFrom (body.eval maxDepth depth) least most
          run.tick.recorded.length (input.length - pos + 1) 0 (.within input pos) run.tick) :=
      agrees_repeatFrom (fun _ _ => agrees_eval body) hpos (by omega) (List.append_nil _).symm
    exact agrees_tick (by simpa using h)
  | .lookahead kind body, _, _, run, hpos => by
    rw [eval]
    exact agrees_tick (agrees_foresee (agrees_eval body hpos))
  | .transparent body, _, _, run, hpos => by
    rw [eval]
    exact agrees_tick (agrees_transparent (agrees_eval body hpos))
  | .capture name body, depth, _, run, hpos => by
    rw [eval]
    refine agrees_tick ?_
    dsimp only
    split
    · trivial
    · exact agrees_record (agrees_eval body hpos)

/-- The evaluation of the items that are left agrees with the sequence of them. -/
theorem agrees_evalSeq : ∀ (items : List Pattern) {depth pos : Nat} {run : Run}
    {atMark sofar : List MatchTree}, pos ≤ input.length → run.recorded = atMark ++ sofar →
    Agrees input (.seq items) pos atMark run.recorded
      (evalSeq maxDepth items atMark.length depth (.within input pos) run)
  | [], _, pos, _, _, _, _, _ => ⟨pos, [], rfl, .seqNil, by simp⟩
  | item :: items, depth, pos, run, atMark, sofar, hpos, hrun => by
    rw [evalSeq]
    have h : Agrees input item pos run.recorded run.recorded
        (item.eval maxDepth depth (.within input pos) run) := agrees_eval item hpos
    cases he : item.eval maxDepth depth (.within input pos) run with
    | mk verdict after =>
      rw [he] at h
      cases verdict with
      | exhausted => trivial
      | failed => exact ⟨.seqFailure h.1, by simp [h.2, hrun]⟩
      | matched behind =>
        obtain ⟨mid, forest, rfl, hy, hr⟩ := h
        have hafter : after.recorded = atMark ++ (sofar ++ forest) := by
          rw [hr, hrun, List.append_assoc]
        exact agrees_seqCons hy hr (agrees_evalSeq items (hy.bounds hpos).2 hafter)

/-- The evaluation of the alternatives that are left agrees with the choice between them. -/
theorem agrees_evalChoice : ∀ (items : List Pattern) {depth pos : Nat} {run : Run}
    {atMark : List MatchTree}, pos ≤ input.length → run.recorded = atMark →
    Agrees input (.choice items) pos atMark atMark
      (evalChoice maxDepth items atMark.length depth (.within input pos) run)
  | [], _, _, _, _, _, hrun => ⟨.choiceNil, hrun⟩
  | item :: items, depth, pos, run, atMark, hpos, hrun => by
    rw [evalChoice]
    have h : Agrees input item pos run.recorded run.recorded
        (item.eval maxDepth depth (.within input pos) run) := agrees_eval item hpos
    cases he : item.eval maxDepth depth (.within input pos) run with
    | mk verdict after =>
      rw [he, hrun] at h
      cases verdict with
      | exhausted => trivial
      | failed =>
        have hback : (after.rollBack atMark.length).recorded = atMark := by simp [h.2]
        exact agrees_choiceTail h.1 (agrees_evalChoice items hpos hback)
      | matched behind =>
        obtain ⟨stop, forest, rfl, hy, hr⟩ := h
        exact ⟨stop, forest, rfl, .choiceHead hy, hr⟩

end

/-- A pattern that records and discards at every turn: a predicate, an alternative that fails
late, and a repetition whose last copy is empty. -/
def discardingPattern : Pattern :=
  .seq [.lookahead .present (.capture "ahead" .any),
    .choice [.seq [.capture "first" (.literal (.ofBytes [0x78])), .literal (.ofBytes [0x7a])],
      .repetition (.capture "copy" (.choice [.literal (.ofBytes [0x78]), .literal (.ofBytes [])]))
        3 none]]

end Pattern

end PatternEngine
