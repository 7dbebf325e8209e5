import PatternEngine.Proofs.Match.LargerLimits
import PatternEngine.Proofs.Match.Termination

/-!
# The attempts of a search

Which named patterns a search attempts does not depend on the log that they are noted in. They are
listed here by an evaluation that keeps no stack of matches and no log: it is cut short by the same
limits, ends the same way and leaves the same steps, and gives one attempt for each capture that is
tried, in the order they begin, with the offset where its match ended.

The log of a search holds the first of these attempts, as many as it has room for, and is marked as
truncated exactly when there are more.
-/

namespace PatternEngine

/-- What trying a pattern comes to, apart from the matches recorded. -/
structure Trial where
  /-- How it ends. -/
  verdict : Verdict
  /-- Steps that are left. -/
  steps : Nat
  /-- The attempts made, in the order they begin. -/
  attempts : List Attempt := []

namespace Trial

/-- The trial with earlier attempts in front of its own. -/
def behind (earlier : List Attempt) (trial : Trial) : Trial :=
  { trial with attempts := earlier ++ trial.attempts }

/-- The trial with another verdict. -/
def withVerdict (trial : Trial) (verdict : Verdict) : Trial := { trial with verdict }

/-- The attempts that came to an end with a match. -/
def completed (trial : Trial) : List Attempt := trial.attempts.filter (·.stop.isSome)

@[simp] theorem verdict_behind (earlier : List Attempt) (trial : Trial) :
    (trial.behind earlier).verdict = trial.verdict := rfl

@[simp] theorem verdict_withVerdict (trial : Trial) (verdict : Verdict) :
    (trial.withVerdict verdict).verdict = verdict := rfl

@[simp] theorem completed_withVerdict (trial : Trial) (verdict : Verdict) :
    (trial.withVerdict verdict).completed = trial.completed := rfl

@[simp] theorem completed_behind (first trial : Trial) :
    (trial.behind first.attempts).completed = first.completed ++ trial.completed := by
  simp [completed, behind]

/-- Attempts in front are passed over. -/
theorem sublist_behind (first trial : Trial) :
    trial.completed.Sublist (trial.behind first.attempts).completed := by
  rw [completed_behind]
  exact List.sublist_append_right _ _

end Trial

namespace Pattern

/-- The verdict of a repetition after `count` copies. -/
def concluded (least count : Nat) (place : Place) : Verdict :=
  if count < least then .failed else .matched place

/-- Try further copies of a body, of which there have been `count`. -/
def tryCopies (body : Place → Nat → Trial) (least : Nat) (most : Option Nat) :
    Nat → Nat → Place → Nat → Trial
  | 0, count, place, steps => ⟨concluded least count place, steps, []⟩
  | rounds + 1, count, place, steps =>
    if most.any (· ≤ count) then ⟨concluded least count place, steps, []⟩
    else
      let copy := body place steps
      match copy.verdict with
      | .exhausted => copy
      | .failed => copy.withVerdict (concluded least count place)
      | .matched behind =>
        if behind.pos == place.pos then
          copy.withVerdict (concluded least (max count least) behind)
        else (tryCopies body least most rounds (count + 1) behind copy.steps).behind copy.attempts

/-- The verdict of a predicate from that of its operand. -/
def foreseen (kind : Lookahead) (place : Place) : Verdict → Verdict
  | .exhausted => .exhausted
  | .failed => consume (kind == .absent) 0 place
  | .matched _ => consume (kind == .present) 0 place

mutual

/-- Try a pattern at a place with so many steps, inside `depth` captures of at most `maxDepth`. -/
def trial (maxDepth : Nat) : Pattern → Nat → Place → Nat → Trial
  | pattern, depth, place, steps =>
    if steps = 0 then ⟨.exhausted, steps, []⟩
    else
      let left := steps - 1
      match pattern with
      | .literal text => ⟨consume (text.isPrefixOf place.ahead) text.size place, left, []⟩
      | .set members => ⟨consume (place.peek?.any members.contains) 1 place, left, []⟩
      | .any =>
        match place.ahead.bytes with
        | [] => ⟨.failed, left, []⟩
        | b :: rest => ⟨consume true (Utf8.stepWidth b rest) place, left, []⟩
      | .inputStart => ⟨consume (place.pos == 0) 0 place, left, []⟩
      | .inputEnd => ⟨consume place.atEnd 0 place, left, []⟩
      | .seq items => trialSeq maxDepth items depth place left
      | .choice alternatives => trialChoice maxDepth alternatives depth place left
      | .repetition body least most =>
        tryCopies (trial maxDepth body depth) least most (place.ahead.size + 1) 0 place left
      | .lookahead kind body =>
        let operand := trial maxDepth body depth place left
        operand.withVerdict (foreseen kind place operand.verdict)
      | .transparent body => trial maxDepth body depth place left
      | .capture name body =>
        if maxDepth ≤ depth then ⟨.exhausted, left, []⟩
        else
          let inside := trial maxDepth body (depth + 1) place left
          inside.behind [⟨name, depth, place.pos, inside.verdict.stop?⟩]

/-- Try all patterns of a list, one after the other. -/
def trialSeq (maxDepth : Nat) : List Pattern → Nat → Place → Nat → Trial
  | [], _, place, steps => ⟨.matched place, steps, []⟩
  | item :: items, depth, place, steps =>
    let first := trial maxDepth item depth place steps
    match first.verdict with
    | .matched behind => (trialSeq maxDepth items depth behind first.steps).behind first.attempts
    | .failed | .exhausted => first

/-- Try the patterns of a list until one matches. -/
def trialChoice (maxDepth : Nat) : List Pattern → Nat → Place → Nat → Trial
  | [], _, _, steps => ⟨.failed, steps, []⟩
  | item :: items, depth, place, steps =>
    let first := trial maxDepth item depth place steps
    match first.verdict with
    | .failed => (trialChoice maxDepth items depth place first.steps).behind first.attempts
    | .matched _ | .exhausted => first

end

end Pattern

/-! ## The log -/

/-- An evaluation that began with a run ends as the trial does, and its log has grown by the
attempts of the trial as far as there was room. -/
structure Run.Logs (before : Run) (trial : Trial) (outcome : Verdict × Run) : Prop where
  verdict : outcome.1 = trial.verdict
  steps : outcome.2.steps = trial.steps
  room : outcome.2.room = before.room - trial.attempts.length
  attempts : outcome.2.attempts =
    (trial.attempts.take before.room).reverse ++ before.attempts
  truncated : outcome.2.truncated =
    (before.truncated || decide (before.room < trial.attempts.length))

namespace Run.Logs

variable {before mid after : Run} {trial next : Trial} {outcome : Verdict × Run}
  {verdict : Verdict}

/-- What makes no attempts leaves the log as it is. -/
theorem nothing (run : Run) (verdict : Verdict) :
    run.Logs ⟨verdict, run.steps, []⟩ (verdict, run) where
  verdict := rfl
  steps := rfl
  room := rfl
  attempts := by simp
  truncated := by simp

/-- The steps at the start and the matches recorded play no part. -/
theorem congr (h : mid.Logs trial outcome) (hroom : mid.room = before.room)
    (hattempts : mid.attempts = before.attempts) (htruncated : mid.truncated = before.truncated) :
    before.Logs trial outcome where
  verdict := h.verdict
  steps := h.steps
  room := hroom ▸ h.room
  attempts := hroom ▸ hattempts ▸ h.attempts
  truncated := hroom ▸ htruncated ▸ h.truncated

/-- Rolling back the stack of matches leaves the log as it is, as does another verdict. -/
theorem rollBack (h : before.Logs trial (verdict, after)) (other : Verdict) (mark : Nat) :
    before.Logs (trial.withVerdict other) (other, after.rollBack mark) :=
  ⟨rfl, h.steps, h.room, h.attempts, h.truncated⟩

theorem withVerdict (h : before.Logs trial (verdict, after)) (other : Verdict) :
    before.Logs (trial.withVerdict other) (other, after) :=
  ⟨rfl, h.steps, h.room, h.attempts, h.truncated⟩

/-- The attempts of two parts are logged one after the other. -/
theorem behind (h : before.Logs trial (verdict, mid)) (hnext : mid.Logs next outcome) :
    before.Logs (next.behind trial.attempts) outcome where
  verdict := hnext.verdict
  steps := hnext.steps
  room := by
    have hroom := h.room
    have hlast := hnext.room
    dsimp only at hroom
    simp only [Trial.behind, List.length_append]
    omega
  attempts := by
    have hroom := h.room
    have hattempts := h.attempts
    dsimp only at hroom hattempts
    rw [hnext.attempts, hattempts, hroom]
    simp [Trial.behind, List.take_append]
  truncated := by
    have hroom := h.room
    have htruncated := h.truncated
    dsimp only at hroom htruncated
    rw [hnext.truncated, htruncated, hroom, Bool.or_assoc, ← Bool.decide_or]
    simp only [Trial.behind, List.length_append]
    congr 2
    rw [eq_iff_iff]
    omega

/-- An attempt is logged in front of those that are made inside it. -/
theorem leave (h : before.enter.Logs trial (verdict, after)) (attempt : Attempt) :
    before.Logs (trial.behind [attempt])
      (verdict, after.leave before.room before.attempts attempt) where
  verdict := h.verdict
  steps := h.steps
  room := by
    have hroom := h.room
    simp only [Run.leave, Run.enter, Trial.behind, List.singleton_append, List.length_cons]
      at hroom ⊢
    omega
  attempts := by
    have hattempts := h.attempts
    simp only [Run.enter, List.append_nil] at hattempts
    by_cases hzero : before.room = 0
    · simp [Run.leave, hattempts, hzero]
    · obtain ⟨room, hroom⟩ := Nat.exists_eq_succ_of_ne_zero hzero
      simp [Run.leave, Trial.behind, hattempts, hroom]
  truncated := by
    have htruncated : after.truncated = (before.truncated || before.room == 0 ||
        decide (before.room - 1 < trial.attempts.length)) := h.truncated
    change after.truncated =
      (before.truncated || decide (before.room < trial.attempts.length + 1))
    rw [htruncated, Bool.eq_iff_iff]
    simp only [Bool.or_eq_true, beq_iff_eq, decide_eq_true_eq, or_assoc]
    apply or_congr_right
    omega

end Run.Logs

namespace Pattern

open Run (Logs)

variable {maxDepth : Nat} {before run : Run} {t : Trial}

/-- The end of a repetition logs nothing more. -/
theorem logs_conclude {verdict : Verdict} (h : before.Logs t (verdict, run))
    (least mark count : Nat) (place : Place) :
    before.Logs (t.withVerdict (concluded least count place))
      (conclude least mark count place run) := by
  unfold conclude concluded
  split
  · exact h.rollBack .failed mark
  · exact h.withVerdict (.matched place)

/-- A predicate logs what its operand does, whatever it makes of it. -/
theorem logs_foresee {outcome : Verdict × Run} (h : before.Logs t outcome) (kind : Lookahead)
    (place : Place) (mark : Nat) :
    before.Logs (t.withVerdict (foreseen kind place t.verdict))
      (foresee kind place mark outcome) := by
  obtain ⟨verdict, run⟩ := outcome
  have hverdict : verdict = t.verdict := h.verdict
  rw [← hverdict]
  cases verdict with
  | exhausted => exact h.withVerdict .exhausted
  | failed => exact h.rollBack _ mark
  | matched behind => exact h.rollBack _ mark

/-- A capture logs its attempt, whether it matches, fails or is cut short. -/
theorem logs_record {outcome : Verdict × Run} (h : before.enter.Logs t outcome) (name : String)
    (depth : Nat) (place : Place) (mark : Nat) :
    before.Logs (t.behind [⟨name, depth, place.pos, t.verdict.stop?⟩])
      (record name depth place mark before.room before.attempts outcome) := by
  obtain ⟨verdict, run⟩ := outcome
  have hverdict : verdict = t.verdict := h.verdict
  have hleave := h.leave ⟨name, depth, place.pos, t.verdict.stop?⟩
  rw [← hverdict] at hleave ⊢
  cases verdict with
  | exhausted => exact hleave
  | failed => exact ⟨hverdict, hleave.steps, hleave.room, hleave.attempts, hleave.truncated⟩
  | matched behind =>
    exact ⟨hverdict, hleave.steps, hleave.room, hleave.attempts, hleave.truncated⟩

/-- The rounds of a repetition log what its copies do. -/
theorem logs_repeatFrom {copy : Place → Run → Verdict × Run} {tryCopy : Place → Nat → Trial}
    (hcopy : ∀ place (run : Run), run.Logs (tryCopy place run.steps) (copy place run)) {least : Nat}
    {most : Option Nat} {mark rounds : Nat} : ∀ {count : Nat} {place : Place} {run : Run},
      run.Logs (tryCopies tryCopy least most rounds count place run.steps)
        (repeatFrom copy least most mark rounds count place run) := by
  -- The induction is on the rounds that are left; place and run change from copy to copy.
  induction rounds with
  | zero =>
    intro count place run
    exact logs_conclude (.nothing run .failed) least mark count place
  | succ rounds ih =>
    intro count place run
    rw [repeatFrom, tryCopies]
    by_cases hfull : most.any (· ≤ count) = true
    · rw [if_pos hfull, if_pos hfull]
      exact logs_conclude (.nothing run .failed) least mark count place
    · rw [if_neg hfull, if_neg hfull]
      have h := hcopy place run
      cases he : copy place run with
      | mk verdict after =>
        rw [he] at h
        have hverdict : (tryCopy place run.steps).verdict = verdict := h.verdict.symm
        have hsteps : (tryCopy place run.steps).steps = after.steps := h.steps.symm
        dsimp only
        rw [hverdict, hsteps]
        cases verdict with
        | exhausted => exact h
        | failed => exact logs_conclude (h.rollBack .failed run.mark) least mark count place
        | matched behind =>
          dsimp only
          split
          · exact logs_conclude h least mark (max count least) behind
          · exact h.behind ih

/-- Without a step left nothing is tried, and the step itself leaves the log as it is. -/
theorem logs_tick {outcome : Verdict × Run} (h : run.tick.Logs t outcome) :
    run.Logs (if run.steps = 0 then ⟨.exhausted, run.steps, []⟩ else t)
      (if run.steps = 0 then (.exhausted, run) else outcome) := by
  split
  · exact .nothing run .exhausted
  · exact h.congr rfl rfl rfl

mutual

/-- An evaluation logs the attempts of the trial with the same steps. -/
theorem logs_eval : ∀ (p : Pattern) {depth : Nat} {place : Place} {run : Run},
    run.Logs (p.trial maxDepth depth place run.steps) (p.eval maxDepth depth place run)
  | .literal _, _, _, run | .set _, _, _, run | .inputStart, _, _, run
  | .inputEnd, _, _, run => by
    rw [eval, trial]
    exact logs_tick (.nothing run.tick _)
  | .any, _, place, run => by
    rw [eval, trial]
    refine logs_tick ?_
    dsimp only
    cases place.ahead.bytes with
    | nil => exact .nothing run.tick .failed
    | cons b rest => exact .nothing run.tick _
  | .seq items, _, _, _ => by
    rw [eval, trial]
    exact logs_tick (logs_evalSeq items)
  | .choice alternatives, _, _, _ => by
    rw [eval, trial]
    exact logs_tick (logs_evalChoice alternatives)
  | .repetition body _ _, _, _, _ => by
    rw [eval, trial]
    exact logs_tick (logs_repeatFrom fun _ _ => logs_eval body)
  | .lookahead kind body, _, place, run => by
    rw [eval, trial]
    exact logs_tick (logs_foresee (logs_eval body) kind place run.tick.mark)
  | .transparent body, _, _, _ => by
    rw [eval, trial]
    exact logs_tick (logs_eval body)
  | .capture name body, depth, place, run => by
    rw [eval, trial]
    refine logs_tick ?_
    dsimp only
    split
    · exact .nothing run.tick .exhausted
    · exact logs_record (logs_eval body) name depth place run.tick.mark

/-- The items of a sequence are logged one after the other. -/
theorem logs_evalSeq : ∀ (items : List Pattern) {mark depth : Nat} {place : Place} {run : Run},
    run.Logs (trialSeq maxDepth items depth place run.steps)
      (evalSeq maxDepth items mark depth place run)
  | [], _, _, place, run => .nothing run (.matched place)
  | item :: items, mark, depth, place, run => by
    rw [evalSeq, trialSeq]
    have h : run.Logs (item.trial maxDepth depth place run.steps)
        (item.eval maxDepth depth place run) := logs_eval item
    cases he : item.eval maxDepth depth place run with
    | mk verdict after =>
      rw [he] at h
      have hverdict := h.verdict.symm
      have hsteps := h.steps.symm
      dsimp only at hverdict hsteps ⊢
      rw [hverdict, hsteps]
      cases verdict with
      | exhausted => exact h
      | failed => exact ⟨h.verdict, h.steps, h.room, h.attempts, h.truncated⟩
      | matched behind => exact h.behind (logs_evalSeq items)

/-- The alternatives of a choice are logged one after the other. -/
theorem logs_evalChoice : ∀ (items : List Pattern) {mark depth : Nat} {place : Place} {run : Run},
    run.Logs (trialChoice maxDepth items depth place run.steps)
      (evalChoice maxDepth items mark depth place run)
  | [], _, _, _, run => .nothing run .failed
  | item :: items, mark, depth, place, run => by
    rw [evalChoice, trialChoice]
    have h : run.Logs (item.trial maxDepth depth place run.steps)
        (item.eval maxDepth depth place run) := logs_eval item
    cases he : item.eval maxDepth depth place run with
    | mk verdict after =>
      rw [he] at h
      have hverdict := h.verdict.symm
      have hsteps := h.steps.symm
      dsimp only at hverdict hsteps ⊢
      rw [hverdict, hsteps]
      cases verdict with
      | exhausted => exact h
      | failed => exact (h.rollBack .failed mark).behind (logs_evalChoice items)
      | matched behind => exact h

end

end Pattern

/-! ## Searches -/

namespace Program

open Run (Logs)

/-- Make a trial at a place and at the `more` places behind it, until one does not fail. -/
def trySweep (trial : Place → Nat → Trial) : (more : Nat) → Place → Nat → Trial
  | 0, place, steps => trial place steps
  | more + 1, place, steps =>
    let first := trial place steps
    match first.verdict with
    | .failed => (trySweep trial more (place.advance 1) first.steps).behind first.attempts
    | .matched _ | .exhausted => first

/-- Try a program from an offset on; one that is anchored at the start of the input alone. -/
def tryScan (p : Program) (input : Bytes) (origin : Nat) (limits : Limits) : Trial :=
  let root := p.root.trial limits.depth 0
  if p.root.anchored then
    if origin = 0 then root (.within input 0) limits.steps else ⟨.failed, limits.steps, []⟩
  else trySweep root (input.length - origin) (.within input origin) limits.steps

/-- The attempts of a search from a place on, counted from one, in the order they begin. A place
behind the input leaves nothing to attempt. -/
def attempted (p : Program) (input : Bytes) (start : Nat) (limits : Limits) : List Attempt :=
  if max start 1 - 1 ≤ input.length then (p.tryScan input (max start 1 - 1) limits).attempts
  else []

variable {p : Program} {input : Bytes} {maxDepth origin start room : Nat} {limits : Limits}

/-- An attempt of a program logs what trying its root does, whatever was recorded before it. -/
theorem logs_attempt (place : Place) (run : Run) :
    run.Logs (p.root.trial maxDepth 0 place run.steps) (p.attempt maxDepth place run) := by
  have h : Run.Logs { run with captures := #[] } (p.root.trial maxDepth 0 place run.steps)
      (p.attempt maxDepth place run) := Pattern.logs_eval p.root
  exact h.congr rfl rfl rfl

/-- A sweep logs what its attempts do, one after the other. -/
theorem logs_sweep {more : Nat} {place : Place} {run : Run} :
    run.Logs (trySweep (p.root.trial maxDepth 0) more place run.steps)
      (sweep (p.attempt maxDepth) more place run) := by
  induction more generalizing place run with
  | zero => exact logs_attempt place run
  | succ more ih =>
    rw [sweep, trySweep]
    have h : run.Logs (p.root.trial maxDepth 0 place run.steps) (p.attempt maxDepth place run) :=
      logs_attempt place run
    cases he : p.attempt maxDepth place run with
    | mk verdict after =>
      rw [he] at h
      have hverdict := h.verdict.symm
      have hsteps := h.steps.symm
      dsimp only at hverdict hsteps ⊢
      rw [hverdict, hsteps]
      cases verdict with
      | exhausted => exact h
      | failed => exact h.behind ih
      | matched behind => exact h

/-- A scan logs what is tried from its first offset on. -/
theorem logs_scan {run : Run} (hsteps : run.steps = limits.steps) :
    run.Logs (p.tryScan input origin limits) (p.scan input origin limits run) := by
  unfold scan tryScan
  rw [← hsteps]
  split
  · split
    · exact logs_attempt _ run
    · exact .nothing run .failed
  · exact logs_sweep

/-- The log of a search holds as many of its attempts as there is room for, and is marked as
truncated exactly when there are more. -/
theorem log_of_search (p : Program) (input : Bytes) (start : Nat) (limits : Limits) (room : Nat) :
    (p.search input start limits room).2.attempts.reverse =
        (p.attempted input start limits).take room ∧
      (p.search input start limits room).2.truncated =
        decide (room < (p.attempted input start limits).length) := by
  unfold attempted
  by_cases hfrom : max start 1 - 1 ≤ input.length
  · have h : Logs { steps := limits.steps, room } (p.tryScan input (max start 1 - 1) limits)
        (p.scan input (max start 1 - 1) limits { steps := limits.steps, room }) := logs_scan rfl
    rw [search_eq_scan hfrom, if_pos hfrom]
    exact ⟨by simp [h.attempts], by simp [h.truncated]⟩
  · simp [search, Nat.not_le.mp hfrom, hfrom]

end Program

end PatternEngine
