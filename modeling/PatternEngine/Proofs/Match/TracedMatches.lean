import PatternEngine.Proofs.Match.Attempts
import PatternEngine.Trace

/-!
# Traces and matches

A trace tells of the search that it logs. It ends as the search without a log does, and the match
that this finds can be read off a log that was not truncated: its nodes, each in front of those
inside it, are attempts that came to an end with a match, at the depth where they stand in the
tree. Between them may stand attempts whose matches were discarded.

A pattern that is tried makes the attempts of its parts in the order in which a match puts their
forests one behind the other, so the claim follows the parts of the pattern; only a part that
failed, or that a predicate looked at, has no share in the forest.
-/

namespace PatternEngine

namespace MatchTree

mutual

/-- The nodes of a tree that stands at a depth, each in front of those inside it, as the attempts
that they come from. -/
def preorder : MatchTree → Nat → List Attempt
  | .node name start stop subs, depth =>
    ⟨name, depth, start, some stop⟩ :: preorderAll subs (depth + 1)

/-- The nodes of the trees of a list, one tree after the other. -/
def preorderAll : List MatchTree → Nat → List Attempt
  | [], _ => []
  | tree :: trees, depth => tree.preorder depth ++ preorderAll trees depth

end

@[simp] theorem preorderAll_nil (depth : Nat) : preorderAll [] depth = [] := by
  rw [preorderAll]

@[simp] theorem preorderAll_append (trees later : List MatchTree) (depth : Nat) :
    preorderAll (trees ++ later) depth = preorderAll trees depth ++ preorderAll later depth := by
  induction trees with
  | nil => simp
  | cons tree trees ih => simp [preorderAll, ih]

@[simp] theorem preorderAll_singleton (tree : MatchTree) (depth : Nat) :
    preorderAll [tree] depth = tree.preorder depth := by
  simp [preorderAll]

end MatchTree

namespace Pattern

open MatchTree (preorderAll)

variable {input : Bytes} {p body : Pattern} {maxDepth depth pos steps : Nat} {t : Trial}

/-- Trying a pattern is cut short, or fails where the pattern does, or matches as the pattern
does. -/
theorem trial_cases (p : Pattern) (maxDepth depth steps : Nat) (hpos : pos ≤ input.length) :
    (p.trial maxDepth depth (.within input pos) steps).verdict = .exhausted ∨
      ((p.trial maxDepth depth (.within input pos) steps).verdict = .failed ∧
        p.Yields input pos .failure) ∨
      ∃ stop forest, (p.trial maxDepth depth (.within input pos) steps).verdict =
        .matched (.within input stop) ∧ p.Yields input pos (.success stop forest) := by
  have hlogs : Run.Logs { steps, room := 0 } (p.trial maxDepth depth (.within input pos) steps)
      (p.eval maxDepth depth (.within input pos) { steps, room := 0 }) := logs_eval p
  have hagrees : Agrees input p pos [] []
      (p.eval maxDepth depth (.within input pos) { steps, room := 0 }) := agrees_eval p hpos
  cases he : p.eval maxDepth depth (.within input pos) { steps, room := 0 } with
  | mk verdict after =>
    rw [he] at hlogs hagrees
    rw [← hlogs.verdict]
    cases verdict with
    | exhausted => exact .inl rfl
    | failed => exact .inr (.inl ⟨rfl, hagrees.1⟩)
    | matched behind =>
      obtain ⟨stop, forest, rfl, hy, -⟩ := hagrees
      exact .inr (.inr ⟨stop, forest, rfl, hy⟩)

/-- Where the pattern matches, the trial is cut short or matches up to there. -/
theorem trial_of_success {stop : Nat} {forest : List MatchTree} (maxDepth depth steps : Nat)
    (hpos : pos ≤ input.length) (hy : p.Yields input pos (.success stop forest)) :
    (p.trial maxDepth depth (.within input pos) steps).verdict = .exhausted ∨
      (p.trial maxDepth depth (.within input pos) steps).verdict =
        .matched (.within input stop) := by
  rcases trial_cases p maxDepth depth steps hpos with he | ⟨-, hn⟩ | ⟨_, _, hv, hy'⟩
  · exact .inl he
  · cases hy.unique hn
  · cases hy.unique hy'
    exact .inr hv

/-- Where the pattern fails, the trial is cut short or fails. -/
theorem trial_of_failure (maxDepth depth steps : Nat) (hpos : pos ≤ input.length)
    (hy : p.Yields input pos .failure) :
    (p.trial maxDepth depth (.within input pos) steps).verdict = .exhausted ∨
      (p.trial maxDepth depth (.within input pos) steps).verdict = .failed := by
  rcases trial_cases p maxDepth depth steps hpos with he | ⟨hv, -⟩ | ⟨_, _, -, hy'⟩
  · exact .inl he
  · exact .inr hv
  · cases hy.unique hy'

/-- Unless it was cut short, the trial completed an attempt for each node that the pattern leaves,
in preorder. -/
def Tells (input : Bytes) (p : Pattern) (depth pos : Nat) (t : Trial) : Prop :=
  t.verdict ≠ .exhausted → ∀ stop forest, p.Yields input pos (.success stop forest) →
    (preorderAll forest depth).Sublist t.completed

/-- A pattern that leaves nothing is told of by any trial. -/
theorem tells_of_nothing
    (h : ∀ stop forest, p.Yields input pos (.success stop forest) → forest = []) :
    Tells input p depth pos t := by
  intro _ stop forest hy
  rw [h stop forest hy, MatchTree.preorderAll_nil]
  exact List.nil_sublist _

/-- Without a step left the trial is cut short. -/
theorem tells_tick (h : Tells input p depth pos t) :
    Tells input p depth pos (if steps = 0 then ⟨.exhausted, steps, []⟩ else t) := by
  split
  · exact fun hv => absurd rfl hv
  · exact h

/-- The attempts of a first part whose forest counts come in front of those of the rest. -/
theorem sublist_behind {first rest : Trial} {forest later : List MatchTree}
    (hfirst : (preorderAll forest depth).Sublist first.completed)
    (hrest : (preorderAll later depth).Sublist rest.completed) :
    (preorderAll (forest ++ later) depth).Sublist (rest.behind first.attempts).completed := by
  rw [MatchTree.preorderAll_append, Trial.completed_behind]
  exact hfirst.append hrest

/-- A capture completes its own attempt in front of those inside it. -/
theorem tells_capture {name : String} (hpos : pos ≤ input.length)
    (h : Tells input body (depth + 1) pos
      (body.trial maxDepth (depth + 1) (.within input pos) steps)) :
    let inside := body.trial maxDepth (depth + 1) (.within input pos) steps
    Tells input (.capture name body) depth pos
      (inside.behind [⟨name, depth, pos, inside.verdict.stop?⟩]) := by
  intro inside hv stop forest hy
  cases hy with
  | captureSuccess hbody =>
    have hsub := h hv stop _ hbody
    rcases trial_of_success maxDepth (depth + 1) steps hpos hbody with he | he
    · exact absurd he hv
    · have hstop : inside.verdict.stop? = some stop := by
        rw [he]
        simp [Verdict.stop?]
      rw [hstop, MatchTree.preorderAll_singleton, MatchTree.preorder]
      exact hsub.cons_cons _

/-- A repetition of which a copy is still missing is not full. -/
theorem not_any_le {most : Option Nat} {count : Nat} (h : most.map (· - count) ≠ some 0) :
    ¬ most.any (· ≤ count) = true := by
  intro hfull
  obtain ⟨m, rfl, hm⟩ := (Option.any_eq_true _ _).mp hfull
  apply h
  simpa [Nat.sub_eq_zero_iff_le] using hm

/-- The rounds of a repetition tell of the repetition with the copies made so far taken off its
bounds. -/
theorem tells_tryCopies (hbody : ∀ pos steps, pos ≤ input.length →
      Tells input body depth pos (body.trial maxDepth depth (.within input pos) steps))
    {least : Nat} {most : Option Nat} {rounds : Nat} : ∀ {count pos steps : Nat},
      pos ≤ input.length → input.length - pos < rounds →
      Tells input (.repetition body (least - count) (most.map (· - count))) depth pos
        (tryCopies (body.trial maxDepth depth) least most rounds count (.within input pos)
          steps) := by
  induction rounds with
  | zero =>
    -- There are more rounds than bytes ahead, so they do not run out.
    intro count pos steps _ hrounds
    omega
  | succ rounds ih =>
    intro count pos steps hpos hrounds hv stop forest hy
    generalize hr : Result.success stop forest = r at hy
    generalize hcopies : most.map (· - count) = copies at hy
    cases hy with
    | repetitionFull | repetitionDone =>
      obtain ⟨-, rfl⟩ := ofTest_eq_success hr.symm
      simp
    | repetitionEmpty hmost h =>
      cases hr
      rw [tryCopies, if_neg (not_any_le (hcopies ▸ hmost))] at hv ⊢
      rcases trial_of_success maxDepth depth steps hpos h with he | he
      · simp [he] at hv
      · have hsub := hbody pos steps hpos (by simp [he]) _ _ h
        simpa [he] using hsub
    | @repetitionMore _ _ _ mid _ forest r hmost h hne hrest =>
      -- The repetition that goes on behind the copy is the one with a copy more taken off.
      obtain ⟨later, rfl, rfl⟩ := behind_eq_success hr.symm
      rw [tryCopies, if_neg (not_any_le (hcopies ▸ hmost))] at hv ⊢
      rcases trial_of_success maxDepth depth steps hpos h with he | he
      · simp [he] at hv
      · have hsub := hbody pos steps hpos (by simp [he]) _ _ h
        have hbounds := h.bounds hpos
        have hleast : least - count - 1 = least - (count + 1) := by omega
        have hmost' : copies.map (· - 1) = most.map (· - (count + 1)) := by
          simp [← hcopies, Function.comp_def, Nat.sub_sub]
        rw [hleast, hmost'] at hrest
        simp only [he, Place.pos_within, beq_iff_eq, hne, if_false] at hv ⊢
        exact sublist_behind hsub (ih hbounds.2 (by omega) hv _ _ hrest)

mutual

/-- The trial of a pattern tells of what the pattern leaves. -/
theorem tells_trial : ∀ (p : Pattern) {depth pos steps : Nat}, pos ≤ input.length →
    Tells input p depth pos (p.trial maxDepth depth (.within input pos) steps)
  | .literal _, _, _, _, _ | .set _, _, _, _, _ | .any, _, _, _, _ =>
    tells_of_nothing fun _ _ hy => by cases hy; rfl
  | .inputStart, _, _, _, _ | .inputEnd, _, _, _, _ | .lookahead _ _, _, _, _, _ =>
    tells_of_nothing fun stop forest hy => by
      generalize hr : Result.success stop forest = r at hy
      cases hy <;> exact (ofTest_eq_success hr.symm).2
  | .seq items, _, _, _, hpos => by
    rw [trial]
    exact tells_tick (tells_trialSeq items hpos)
  | .choice alternatives, _, _, _, hpos => by
    rw [trial]
    exact tells_tick (tells_trialChoice alternatives hpos)
  | .repetition body least most, depth, pos, steps, hpos => by
    rw [trial]
    have h : Tells input (.repetition body (least - 0) (most.map (· - 0))) depth pos
        (tryCopies (body.trial maxDepth depth) least most (input.length - pos + 1) 0
          (.within input pos) (steps - 1)) :=
      tells_tryCopies (fun _ _ => tells_trial body) hpos (by omega)
    exact tells_tick (by simpa using h)
  | .transparent body, _, _, steps, hpos => by
    rw [trial]
    refine tells_tick fun hv stop forest hy => ?_
    cases hy with
    | transparent h => exact tells_trial body hpos hv stop forest h
  | .capture name body, depth, _, steps, hpos => by
    rw [trial]
    refine tells_tick ?_
    dsimp only
    split
    · exact fun hv => absurd rfl hv
    · simpa using tells_capture hpos (tells_trial body hpos)

/-- The trial of the items that are left tells of the sequence of them. -/
theorem tells_trialSeq : ∀ (items : List Pattern) {depth pos steps : Nat}, pos ≤ input.length →
    Tells input (.seq items) depth pos
      (trialSeq maxDepth items depth (.within input pos) steps)
  | [], _, _, _, _ => tells_of_nothing fun _ _ hy => by cases hy; rfl
  | item :: items, depth, pos, steps, hpos => by
    intro hv stop forest hy
    rw [trialSeq] at hv ⊢
    generalize hr : Result.success stop forest = r at hy
    cases hy with
    | seqFailure => cases hr
    | seqCons hfirst hrest =>
      obtain ⟨later, rfl, rfl⟩ := behind_eq_success hr.symm
      have hle := (hfirst.bounds hpos).2
      rcases trial_of_success maxDepth depth steps hpos hfirst with he | he
      · simp [he] at hv
      · have htells : Tells input item depth pos
            (item.trial maxDepth depth (.within input pos) steps) := tells_trial item hpos
        have hsub := htells (by simp [he]) _ _ hfirst
        simp only [he] at hv ⊢
        exact sublist_behind hsub (tells_trialSeq items hle hv _ _ hrest)

/-- The trial of the alternatives that are left tells of the choice between them. -/
theorem tells_trialChoice : ∀ (items : List Pattern) {depth pos steps : Nat},
    pos ≤ input.length → Tells input (.choice items) depth pos
      (trialChoice maxDepth items depth (.within input pos) steps)
  | [], _, _, _, _ => tells_of_nothing fun _ _ hy => by cases hy
  | item :: items, depth, pos, steps, hpos => by
    intro hv stop forest hy
    rw [trialChoice] at hv ⊢
    cases hy with
    | choiceHead hfirst =>
      rcases trial_of_success maxDepth depth steps hpos hfirst with he | he
      · simp [he] at hv
      · have htells : Tells input item depth pos
            (item.trial maxDepth depth (.within input pos) steps) := tells_trial item hpos
        simp only [he]
        exact htells (by simp [he]) _ _ hfirst
    | choiceTail hfirst hrest =>
      rcases trial_of_failure maxDepth depth steps hpos hfirst with he | he
      · simp [he] at hv
      · simp only [he] at hv ⊢
        exact (tells_trialChoice items hpos hv _ _ hrest).trans (Trial.sublist_behind _ _)

end

end Pattern

namespace Program

open Pattern (Tells)

variable {p : Program} {input : Bytes} {maxDepth origin start : Nat} {limits : Limits}

/-- An attempt that matches records one tree, which its trial tells of. -/
theorem tells_attempt {run after : Run} {behind : Place} (hpos : origin ≤ input.length)
    (h : p.attempt maxDepth (.within input origin) run = (.matched behind, after)) :
    ∃ tree, after.captures = #[tree] ∧ (tree.preorder 0).Sublist
      (p.root.trial maxDepth 0 (.within input origin) run.steps).completed := by
  have hlogs : run.Logs (p.root.trial maxDepth 0 (.within input origin) run.steps)
      (p.attempt maxDepth (.within input origin) run) := logs_attempt _ run
  rcases attempt_cases maxDepth run hpos with ⟨_, hx⟩ | ⟨_, hx, -⟩ | ⟨stop, tree, _, hx, hc, hy⟩
  · cases h.symm.trans hx
  · cases h.symm.trans hx
  · cases h.symm.trans hx
    rw [h] at hlogs
    have htells : Tells input p.root 0 origin
        (p.root.trial maxDepth 0 (.within input origin) run.steps) :=
      Pattern.tells_trial p.root hpos
    have hverdict := hlogs.verdict
    have hsub := htells (by simp [← hverdict]) stop [tree] hy
    exact ⟨tree, hc, by simpa using hsub⟩

/-- A sweep that matches records one tree, which its trials tell of. -/
theorem tells_sweep {more : Nat} {run after : Run} {behind : Place}
    (hlen : origin + more = input.length)
    (h : sweep (p.attempt maxDepth) more (.within input origin) run = (.matched behind, after)) :
    ∃ tree, after.captures = #[tree] ∧ (tree.preorder 0).Sublist
      (trySweep (p.root.trial maxDepth 0) more (.within input origin) run.steps).completed := by
  induction more generalizing origin run with
  | zero => exact tells_attempt (by omega) h
  | succ more ih =>
    rw [sweep] at h
    rw [trySweep]
    have hlogs : run.Logs (p.root.trial maxDepth 0 (.within input origin) run.steps)
        (p.attempt maxDepth (.within input origin) run) := logs_attempt _ run
    cases he : p.attempt maxDepth (.within input origin) run with
    | mk verdict mid =>
      rw [he] at h hlogs
      have hverdict := hlogs.verdict.symm
      have hsteps := hlogs.steps.symm
      dsimp only at hverdict hsteps ⊢
      rw [hverdict]
      cases verdict with
      | exhausted => cases h
      | failed =>
        rw [Place.advance_within] at h
        obtain ⟨tree, hc, hsub⟩ := ih (by omega) h
        rw [Place.advance_within, hsteps]
        exact ⟨tree, hc, hsub.trans (Trial.sublist_behind _ _)⟩
      | matched _ =>
        cases h
        exact tells_attempt (by omega) he

/-- A scan that matches records one tree, which its trials tell of. -/
theorem tells_scan {run after : Run} {behind : Place} (hfrom : origin ≤ input.length)
    (hsteps : run.steps = limits.steps)
    (h : p.scan input origin limits run = (.matched behind, after)) :
    ∃ tree, after.captures = #[tree] ∧
      (tree.preorder 0).Sublist (p.tryScan input origin limits).completed := by
  unfold scan at h
  unfold tryScan
  rw [← hsteps]
  by_cases hanchored : p.root.anchored = true
  · rw [if_pos hanchored] at h ⊢
    by_cases hzero : origin = 0
    · rw [if_pos hzero] at h ⊢
      exact tells_attempt (Nat.zero_le _) h
    · rw [if_neg hzero] at h
      cases h
  · rw [if_neg hanchored] at h ⊢
    exact tells_sweep (by omega) h

variable {room : Nat}

/-- The match that a search finds can be read off its attempts. -/
theorem tells_search {tree : MatchTree}
    (h : (p.search input start limits room).1.tree = some tree) :
    (tree.preorder 0).Sublist ((p.attempted input start limits).filter (·.stop.isSome)) := by
  unfold attempted
  by_cases hfrom : max start 1 - 1 ≤ input.length
  · rw [search_eq hfrom] at h
    rw [if_pos hfrom]
    cases he : p.scan input (max start 1 - 1) limits { steps := limits.steps, room } with
    | mk verdict after =>
      rw [he] at h
      cases verdict with
      | exhausted | failed => cases h
      | matched behind =>
        obtain ⟨tree', hc, hsub⟩ := tells_scan hfrom rfl he
        have htree : tree' = tree := by simpa [outcomeOf, hc] using h
        rwa [htree] at hsub
  · rw [search_of_behind hfrom] at h
    cases h

/-- Room in the log plays no part in what a search finds. -/
theorem search_room (p : Program) (input : Bytes) (start : Nat) (limits : Limits)
    (room room' : Nat) :
    (p.search input start limits room).1 = (p.search input start limits room').1 := by
  cases habend' : (p.search input start limits room').1.abend with
  | false => exact search_eq_of_le (Nat.le_refl _) (Nat.le_refl _) habend'
  | true =>
    cases habend : (p.search input start limits room).1.abend with
    | false => exact (search_eq_of_le (Nat.le_refl _) (Nat.le_refl _) habend).symm
    | true => rw [(search_of_abend habend).2, (search_of_abend habend').2]

/-- A trace tells the truth about a search: it ends as the search without a log does; it holds the
first of the attempts, as many as are kept, and is marked as truncated exactly when there are more;
and the nodes of the match that is found, in preorder, are among the attempts of a trace that is not
truncated that came to an end with a match. -/
theorem trace_tells (p : Program) (input : Bytes) (start : Nat) :
    (p.trace input start).isMatch = (p.find input start).isMatch ∧
      (p.trace input start).abend = (p.find input start).abend ∧
      (p.trace input start).attempts = (p.attempted input start {}).take attemptLimit ∧
      ((p.trace input start).truncated = true ↔
        attemptLimit < (p.attempted input start {}).length) ∧
      ∀ tree, (p.trace input start).truncated = false → (p.find input start).tree = some tree →
        (tree.preorder 0).Sublist
          ((p.trace input start).attempts.filter (·.stop.isSome)) := by
  obtain ⟨hattempts, htruncated⟩ := log_of_search p input start {} attemptLimit
  have houtcome : (p.search input start {} attemptLimit).1 = p.find input start :=
    search_room p input start {} attemptLimit 0
  have hlog : (p.trace input start).attempts = (p.attempted input start {}).take attemptLimit :=
    hattempts
  have hmark : (p.trace input start).truncated = true ↔
      attemptLimit < (p.attempted input start {}).length := by
    rw [show (p.trace input start).truncated = _ from htruncated, decide_eq_true_iff]
  refine ⟨congrArg Outcome.isMatch houtcome, congrArg Outcome.abend houtcome, hlog, hmark, ?_⟩
  intro tree hwhole hfound
  have hall : (p.attempted input start {}).length ≤ attemptLimit := by
    rw [← Nat.not_lt, ← hmark, hwhole]
    exact Bool.false_ne_true
  rw [hlog, List.take_of_length_le hall]
  exact tells_search hfound

/-- A pair of characters, of which an alternative that was tried before it found the first. -/
def pairBehindDiscard : Program where
  typeName := "pair"
  body := .choice
    [.seq [.capture "left" .any, .literal (.ofBytes [0x78])],
      .seq [.capture "left" .any, .capture "right" .any]]
  expression := "left \"x\" / left right"

/-- In `ab` the trace holds four attempts, of which the second was discarded; the match has the
other three as its nodes. -/
theorem trace_tells_pairBehindDiscard :
    let trace := pairBehindDiscard.trace [0x61, 0x62] 1
    let tree : MatchTree := .node "pair" 0 2 [.node "left" 0 1 [], .node "right" 1 2 []]
    trace.truncated = false ∧ (pairBehindDiscard.find [0x61, 0x62] 1).tree = some tree ∧
      trace.attempts =
        [⟨"pair", 0, 0, some 2⟩, ⟨"left", 1, 0, some 1⟩, ⟨"left", 1, 0, some 1⟩,
          ⟨"right", 1, 1, some 2⟩] ∧
      (tree.preorder 0).Sublist (trace.attempts.filter (·.stop.isSome)) := by
  intro trace tree
  obtain ⟨-, -, -, -, hnodes⟩ := pairBehindDiscard.trace_tells [0x61, 0x62] 1
  have hwhole : trace.truncated = false := by rfl
  have hfound : (pairBehindDiscard.find [0x61, 0x62] 1).tree = some tree := by rfl
  exact ⟨hwhole, hfound, by rfl, hnodes tree hwhole hfound⟩

end Program

end PatternEngine
