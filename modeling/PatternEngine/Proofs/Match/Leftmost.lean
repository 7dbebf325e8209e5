import Mathlib.Order.Bounds.Basic
import PatternEngine.Match.Search
import PatternEngine.Proofs.Match.Limits
import PatternEngine.Proofs.Match.Refinement

/-!
# The leftmost match

A search that no limit cuts short gives the match of the program at the least offset where it
matches at all, and the match does not depend on how many offsets in front were tried in vain.
Whether a program matches at an offset is asked without limits: some limits let the machine match
there.

An anchored program is tried at the start of the input alone. It matches nowhere else, so trying
it at the other offsets as well changes nothing.
-/

namespace PatternEngine

variable {input : Bytes}

@[simp] theorem Place.start_eq_within : Place.start input = .within input 0 := by
  simp [Place.within, Place.advance, Place.start, SizedBytes.drop, SizedBytes.ofBytes]

namespace Pattern

/-- A match of an anchored pattern starts where the input does. -/
theorem Yields.pos_eq_zero {p : Pattern} {pos stop : Nat} {forest : List MatchTree}
    (h : p.Yields input pos (.success stop forest)) (ha : p.anchored = true) : pos = 0 := by
  generalize hr : Result.success stop forest = r at h
  induction h generalizing stop forest with
  | inputStart =>
    by_contra hpos
    rw [Result.ofTest, if_neg hpos] at hr
    cases hr
  | @seqCons item items pos mid first r _ _ ih _ =>
    exact ih (by simpa [anchored, firstAnchored] using ha) rfl
  | @choiceHead item items pos stop' first _ ih =>
    simp only [anchored, allAnchored, Bool.and_eq_true] at ha
    exact ih ha.2.1 hr
  | @choiceTail item items pos r _ hrest _ ih =>
    simp only [anchored, allAnchored, Bool.and_eq_true] at ha
    cases items with
    | nil =>
      cases hrest
      cases hr
    | cons next items => exact ih (by simpa [anchored, allAnchored] using ha.2.2) hr
  | captureSuccess _ ih => exact ih (by simpa [anchored] using ha) rfl
  | transparent _ ih => exact ih (by simpa [anchored] using ha) hr
  | seqNil => simp [anchored, firstAnchored] at ha
  | literal | set | any | inputEnd | repetitionFull | repetitionDone | repetitionEmpty
  | repetitionMore | lookaheadFailure | lookaheadSuccess => simp [anchored] at ha
  | notLiteral | notSet | notAny | seqFailure | choiceNil | captureFailure => cases hr

end Pattern

namespace Program

open Pattern (Yields Result Outlasts)

variable {p : Program} {pos stop origin : Nat} {tree : MatchTree} {maxDepth : Nat}
  {run other : Run}

/-- Without limits the program matches from an offset up to another and records this: there are
limits within which it does. -/
def MatchesUpTo (p : Program) (input : Bytes) (pos stop : Nat) (tree : MatchTree) : Prop :=
  ∃ maxDepth run after, p.attempt maxDepth (.within input pos) run =
    (.matched (.within input stop), after) ∧ after.captures = #[tree]

/-- Without limits the program matches at an offset. -/
def MatchesAt (p : Program) (input : Bytes) (pos : Nat) : Prop :=
  ∃ stop tree, p.MatchesUpTo input pos stop tree

/-- A match of a program is recorded as one match. -/
theorem forest_of_yields {forest : List MatchTree}
    (h : p.root.Yields input pos (.success stop forest)) : ∃ tree, forest = [tree] := by
  cases h with
  | captureSuccess _ => exact ⟨_, rfl⟩

/-- An attempt that no limit cuts short fails where the root of the program does, and else is a
match without limits. -/
theorem attempt_cases (maxDepth : Nat) (run : Run) (hpos : pos ≤ input.length) :
    (∃ after, p.attempt maxDepth (.within input pos) run = (.exhausted, after)) ∨
      (∃ after, p.attempt maxDepth (.within input pos) run = (.failed, after) ∧
        p.root.Yields input pos .failure) ∨
      ∃ stop tree after, p.attempt maxDepth (.within input pos) run =
          (.matched (.within input stop), after) ∧ after.captures = #[tree] ∧
        p.root.Yields input pos (.success stop [tree]) := by
  have h : Pattern.Agrees input p.root pos [] [] (p.attempt maxDepth (.within input pos) run) :=
    Pattern.agrees_eval p.root hpos
  cases he : p.attempt maxDepth (.within input pos) run with
  | mk verdict after =>
    rw [he] at h
    cases verdict with
    | exhausted => exact .inl ⟨after, rfl⟩
    | failed => exact .inr (.inl ⟨after, rfl, h.1⟩)
    | matched behind =>
      obtain ⟨stop, forest, rfl, hy, hr⟩ := h
      obtain ⟨tree, rfl⟩ := forest_of_yields hy
      exact .inr (.inr ⟨stop, tree, after, rfl, Array.ext' hr, hy⟩)

/-- What the program matches without limits is what its root does. -/
theorem MatchesUpTo.yields (h : p.MatchesUpTo input pos stop tree) (hpos : pos ≤ input.length) :
    p.root.Yields input pos (.success stop [tree]) := by
  obtain ⟨maxDepth, run, after, he, hc⟩ := h
  rcases attempt_cases maxDepth run hpos with ⟨_, hx⟩ | ⟨_, hx, -⟩ | ⟨stop', tree', _, hx, hc', hy⟩
  · cases he.symm.trans hx
  · cases he.symm.trans hx
  · rw [hx] at he
    obtain ⟨hv, rfl⟩ := Prod.mk.inj he
    have hstop : stop' = stop := by simpa using congrArg Place.pos (Verdict.matched.inj hv)
    have htree : tree' = tree := by simpa using hc'.symm.trans hc
    rwa [hstop, htree] at hy

/-- Where the root of the program fails there is no match. -/
theorem not_matchesAt (h : p.root.Yields input pos .failure) (hpos : pos ≤ input.length) :
    ¬ p.MatchesAt input pos := by
  rintro ⟨stop, tree, hm⟩
  cases h.unique (hm.yields hpos)

/-- There is one match at an offset. -/
theorem MatchesUpTo.unique {stop' : Nat} {tree' : MatchTree}
    (h : p.MatchesUpTo input pos stop tree) (h' : p.MatchesUpTo input pos stop' tree')
    (hpos : pos ≤ input.length) : stop = stop' ∧ tree = tree' := by
  cases (h.yields hpos).unique (h'.yields hpos)
  exact ⟨rfl, rfl⟩

/-! ## Sweeps -/

/-- How trying a program from an offset to the end of the input can end: cut short, or without a
match at any of the offsets, or with the match at the first offset where there is one. -/
def Swept (p : Program) (input : Bytes) (origin : Nat) : Verdict × Run → Prop
  | (.exhausted, _) => True
  | (.failed, _) => ∀ pos, origin ≤ pos → pos ≤ input.length → ¬ p.MatchesAt input pos
  | (.matched behind, run) =>
    ∃ pos stop tree, origin ≤ pos ∧ pos ≤ input.length ∧
      (∀ early, origin ≤ early → early < pos → ¬ p.MatchesAt input early) ∧
      p.MatchesUpTo input pos stop tree ∧ behind = .within input stop ∧ run.captures = #[tree]

/-- An offset without a match may be left out in front. -/
theorem Swept.cons {outcome : Verdict × Run} (hno : ¬ p.MatchesAt input origin)
    (h : p.Swept input (origin + 1) outcome) : p.Swept input origin outcome := by
  obtain ⟨verdict, run⟩ := outcome
  cases verdict with
  | exhausted => trivial
  | failed =>
    intro pos hle hpos
    rcases Nat.eq_or_lt_of_le hle with rfl | hlt
    · exact hno
    · exact h pos hlt hpos
  | matched behind =>
    obtain ⟨pos, stop, tree, hle, hpos, hearly, hm⟩ := h
    refine ⟨pos, stop, tree, Nat.le_of_succ_le hle, hpos, fun early hlo hlt => ?_, hm⟩
    rcases Nat.eq_or_lt_of_le hlo with rfl | hlo
    · exact hno
    · exact hearly early hlo hlt

/-- One attempt is a sweep over one offset, as far as it goes. -/
theorem swept_attempt (hpos : origin ≤ input.length)
    (hrest : ∀ pos, origin < pos → pos ≤ input.length → ¬ p.MatchesAt input pos) :
    p.Swept input origin (p.attempt maxDepth (.within input origin) run) := by
  rcases attempt_cases maxDepth run hpos with ⟨after, he⟩ | ⟨after, he, hy⟩ |
    ⟨stop, tree, after, he, hc, -⟩
  · rw [he]
    trivial
  · rw [he]
    intro pos hle hp
    rcases Nat.eq_or_lt_of_le hle with rfl | hlt
    · exact not_matchesAt hy hpos
    · exact hrest pos hlt hp
  · have hm : p.MatchesUpTo input origin stop tree := ⟨maxDepth, run, after, he, hc⟩
    rw [he]
    refine ⟨origin, stop, tree, Nat.le_refl _, hpos, fun early hle hlt => ?_, hm, rfl, hc⟩
    omega

/-- A sweep to the end of the input finds the first match. -/
theorem swept_sweep {more : Nat} (hlen : origin + more = input.length) :
    p.Swept input origin (sweep (p.attempt maxDepth) more (.within input origin) run) := by
  induction more generalizing origin run with
  | zero => exact swept_attempt (by omega) (by omega)
  | succ more ih =>
    rw [sweep]
    rcases attempt_cases maxDepth run (show origin ≤ input.length by omega) with
      ⟨after, he⟩ | ⟨after, he, hy⟩ | ⟨stop, tree, after, he, hc, -⟩
    · rw [he]
      trivial
    · rw [he, Place.advance_within]
      exact (ih (by omega)).cons (not_matchesAt hy (by omega))
    · have hm : p.MatchesUpTo input origin stop tree := ⟨maxDepth, run, after, he, hc⟩
      rw [he]
      refine ⟨origin, stop, tree, Nat.le_refl _, by omega, fun early hle hlt => ?_, hm, rfl, hc⟩
      omega

/-- An anchored program matches behind the start of no input. -/
theorem not_matchesAt_of_anchored (ha : p.root.anchored = true) (hpos : 0 < pos)
    (hlen : pos ≤ input.length) : ¬ p.MatchesAt input pos := by
  rintro ⟨stop, tree, hm⟩
  have h := (hm.yields hlen).pos_eq_zero ha
  omega

/-! ## Larger limits -/

/-- An attempt with larger limits ends alike, whatever was recorded before it. -/
theorem outlasts_attempt {more budget maxDepth' : Nat} (hdepth : maxDepth ≤ maxDepth')
    (hsteps : other.steps = run.steps + more) (hbudget : run.steps ≤ budget) (place : Place) :
    Outlasts more budget (p.attempt maxDepth place run) (p.attempt maxDepth' place other) :=
  Pattern.outlasts_eval hdepth p.root { captures := rfl, steps := hsteps, budget := hbudget }

/-- A sweep with larger limits ends alike, as each of its attempts does. -/
theorem outlasts_sweep {more budget maxDepth' : Nat} (hdepth : maxDepth ≤ maxDepth')
    (hsteps : other.steps = run.steps + more) (hbudget : run.steps ≤ budget) (places : Nat)
    (place : Place) :
    Outlasts more budget (sweep (p.attempt maxDepth) places place run)
      (sweep (p.attempt maxDepth') places place other) := by
  induction places generalizing place run other with
  | zero => exact outlasts_attempt hdepth hsteps hbudget place
  | succ places ih =>
    rw [sweep, sweep]
    have hfirst : Outlasts more budget (p.attempt maxDepth place run)
        (p.attempt maxDepth' place other) := outlasts_attempt hdepth hsteps hbudget place
    cases he : p.attempt maxDepth place run with
    | mk verdict after =>
      cases he' : p.attempt maxDepth' place other with
      | mk verdict' after' =>
        rw [he, he'] at hfirst
        cases verdict with
        | exhausted => trivial
        | failed =>
          obtain ⟨rfl, hafter⟩ := hfirst
          exact ih hafter.steps hafter.budget _
        | matched behind =>
          obtain ⟨rfl, hafter⟩ := hfirst
          exact ⟨rfl, hafter⟩

/-- A sweep with more steps finds the same match. -/
theorem sweep_of_more_steps {more : Nat} {place behind : Place} {after : Run}
    (hsteps : run.steps ≤ other.steps)
    (h : sweep (p.attempt maxDepth) more place run = (.matched behind, after)) :
    ∃ after', sweep (p.attempt maxDepth) more place other = (.matched behind, after') ∧
      after'.captures = after.captures := by
  have ho : Outlasts (other.steps - run.steps) run.steps
      (sweep (p.attempt maxDepth) more place run) (sweep (p.attempt maxDepth) more place other) :=
    outlasts_sweep (Nat.le_refl _) (Nat.add_sub_cancel' hsteps).symm (Nat.le_refl _) more place
  rw [h] at ho
  obtain ⟨hverdict, hafter⟩ := ho
  exact ⟨_, Prod.ext hverdict rfl, hafter.captures⟩

/-- A sweep that begins later, but not behind the first match, finds the same match. -/
theorem sweep_of_later {skip more : Nat} {behind : Place} {after : Run}
    (hlen : origin + (skip + more) = input.length) (hsteps : run.steps ≤ other.steps)
    (hno : ∀ early, origin ≤ early → early < origin + skip → ¬ p.MatchesAt input early)
    (h : sweep (p.attempt maxDepth) (skip + more) (.within input origin) run =
      (.matched behind, after)) :
    ∃ after', sweep (p.attempt maxDepth) more (.within input (origin + skip)) other =
      (.matched behind, after') ∧ after'.captures = after.captures := by
  induction skip generalizing origin run with
  | zero =>
    rw [Nat.zero_add] at h
    exact sweep_of_more_steps hsteps h
  | succ skip ih =>
    rw [Nat.add_right_comm, sweep] at h
    have hself : Outlasts 0 run.steps (p.attempt maxDepth (.within input origin) run)
        (p.attempt maxDepth (.within input origin) run) :=
      outlasts_attempt (Nat.le_refl _) rfl (Nat.le_refl _) _
    rcases attempt_cases maxDepth run (show origin ≤ input.length by omega) with
      ⟨mid, he⟩ | ⟨mid, he, -⟩ | ⟨stop, tree, mid, he, hc, -⟩
    · rw [he] at h
      cases h
    · rw [he] at h hself
      have hmid := hself.2.budget
      rw [Place.advance_within] at h
      have hnext := ih (by omega) (by omega)
        (fun early hlo hhi => hno early (by omega) (by omega)) h
      rwa [Nat.add_assoc, Nat.add_comm 1 skip] at hnext
    · exact absurd ⟨stop, tree, maxDepth, run, mid, he, hc⟩ (hno origin (Nat.le_refl _) (by omega))

/-! ## Searches -/

/-- The offsets from `origin` on where the program matches. -/
def matchOffsets (p : Program) (input : Bytes) (origin : Nat) : Set Nat :=
  {pos | origin ≤ pos ∧ pos ≤ input.length ∧ p.MatchesAt input pos}

/-- The outcome tells of the match at the least offset from `origin` on where there is one, or
that there is none. -/
inductive Leftmost (p : Program) (input : Bytes) (origin : Nat) : Outcome → Prop
  | found {pos stop : Nat} {tree : MatchTree} (hleast : IsLeast (p.matchOffsets input origin) pos)
      (hm : p.MatchesUpTo input pos stop tree) (hstop : stop ≤ input.length) :
      Leftmost p input origin ⟨some tree, input.length - stop, false⟩
  | absent (hno : p.matchOffsets input origin = ∅) :
      Leftmost p input origin ⟨none, input.length - origin, false⟩

/-- There is one such outcome. -/
theorem Leftmost.unique {o o' : Outcome} (h : p.Leftmost input origin o)
    (h' : p.Leftmost input origin o') : o = o' := by
  cases h with
  | found hleast hm _ =>
    cases h' with
    | found hleast' hm' _ =>
      cases hleast.unique hleast'
      obtain ⟨rfl, rfl⟩ := hm.unique hm' hleast.1.2.1
      rfl
    | absent hno => exact absurd hleast.1 (by simp [hno])
  | absent hno =>
    cases h' with
    | found hleast _ _ => exact absurd hleast.1 (by simp [hno])
    | absent _ => rfl

/-- A sweep that is not cut short gives the leftmost match. -/
theorem Swept.leftmost {verdict : Verdict} {run : Run} (h : p.Swept input origin (verdict, run))
    (hv : (outcomeOf (input.length - origin) run.captures verdict).abend = false) :
    p.Leftmost input origin (outcomeOf (input.length - origin) run.captures verdict) := by
  cases verdict with
  | exhausted => cases hv
  | failed =>
    refine .absent (Set.eq_empty_of_forall_notMem ?_)
    rintro pos ⟨hle, hpos, hm⟩
    exact h pos hle hpos hm
  | matched behind =>
    obtain ⟨pos, stop, tree, hle, hpos, hearly, hm, rfl, hc⟩ := h
    have hleast : IsLeast (p.matchOffsets input origin) pos := by
      refine ⟨⟨hle, hpos, stop, tree, hm⟩, ?_⟩
      rintro other ⟨hlo, -, hother⟩
      by_contra hlt
      exact hearly other hlo (Nat.lt_of_not_le hlt) hother
    have hf := Leftmost.found hleast hm ((hm.yields hpos).bounds hpos).2
    simpa [outcomeOf, hc] using hf

/-- Search an input as if no program were anchored. -/
def searchEverywhere (p : Program) (input : Bytes) (start : Nat) (limits : Limits) (room : Nat) :
    Outcome × Run :=
  let origin := max start 1 - 1
  let run : Run := { steps := limits.steps, room }
  let first := Place.start input
  if first.ahead.size < origin then (⟨none, 0, false⟩, run)
  else
    let place := first.advance origin
    let (verdict, run) := sweep (p.attempt limits.depth) place.ahead.size place run
    (outcomeOf place.ahead.size run.captures verdict, run)

/-- What a search tries from an offset on. -/
def scan (p : Program) (input : Bytes) (origin : Nat) (limits : Limits) (run : Run) :
    Verdict × Run :=
  if p.root.anchored then
    if origin = 0 then p.attempt limits.depth (.within input 0) run else (.failed, run)
  else sweep (p.attempt limits.depth) (input.length - origin) (.within input origin) run

variable {start : Nat} {limits : Limits} {room : Nat}

/-- A search whose first offset is within the input is a scan from there on. -/
theorem search_eq_scan (hfrom : max start 1 - 1 ≤ input.length) :
    p.search input start limits room =
      let result := p.scan input (max start 1 - 1) limits { steps := limits.steps, room }
      (outcomeOf (input.length - (max start 1 - 1)) result.2.captures result.1, result.2) := by
  simp [search, scan, Nat.not_lt.mpr hfrom]

/-- The outcome of a search whose first offset is within the input. -/
theorem search_eq (hfrom : max start 1 - 1 ≤ input.length) :
    (p.search input start limits room).1 =
      let result := p.scan input (max start 1 - 1) limits { steps := limits.steps, room }
      outcomeOf (input.length - (max start 1 - 1)) result.2.captures result.1 := by
  rw [search_eq_scan hfrom]

/-- The outcome of a search that does not look for anchors. -/
theorem searchEverywhere_eq (hfrom : max start 1 - 1 ≤ input.length) :
    (p.searchEverywhere input start limits room).1 =
      let result := sweep (p.attempt limits.depth) (input.length - (max start 1 - 1))
        (.within input (max start 1 - 1)) { steps := limits.steps, room }
      outcomeOf (input.length - (max start 1 - 1)) result.2.captures result.1 := by
  simp [searchEverywhere, Nat.not_lt.mpr hfrom]

/-- A scan finds the first match, whether the program is anchored or not. -/
theorem swept_scan (hfrom : origin ≤ input.length) :
    p.Swept input origin (p.scan input origin limits run) := by
  unfold scan
  split
  · rename_i ha
    split
    · rename_i hzero
      subst hzero
      exact swept_attempt hfrom fun pos hpos hlen => not_matchesAt_of_anchored ha hpos hlen
    · intro pos hle hlen
      exact not_matchesAt_of_anchored ha (by omega) hlen
  · exact swept_sweep (by omega)

/-- An outcome says that it was cut short exactly when its verdict is that. -/
theorem abend_outcomeOf (ahead : Nat) (captures : Array MatchTree) (verdict : Verdict) :
    (outcomeOf ahead captures verdict).abend = true ↔ verdict = .exhausted := by
  cases verdict <;> simp [outcomeOf]

/-- A scan is cut short only where a sweep over all offsets is, too. -/
theorem scan_ne_exhausted
    (h : (sweep (p.attempt limits.depth) (input.length - origin) (.within input origin) run).1 ≠
      .exhausted) : (p.scan input origin limits run).1 ≠ .exhausted := by
  unfold scan
  split
  · split
    · rename_i hzero
      subst hzero
      intro he
      cases hx : p.attempt limits.depth (.within input 0) run with
      | mk verdict after =>
        rw [hx] at he
        subst he
        apply h
        cases input.length - 0 with
        | zero => rw [sweep, hx]
        | succ more => rw [sweep, hx]
    · nofun
  · exact h

/-- A scan that begins later, but not behind the first match, finds the same match, whatever room
there is in the log. -/
theorem scan_of_later {later : Nat} {behind : Place} {after : Run} (hlo : origin ≤ later)
    (hlen : later ≤ input.length) (hsteps : run.steps = other.steps)
    (hno : ∀ early, origin ≤ early → early < later → ¬ p.MatchesAt input early)
    (hlater : p.root.anchored = true → later = origin)
    (h : p.scan input origin limits run = (.matched behind, after)) :
    ∃ after', p.scan input later limits other = (.matched behind, after') ∧
      after'.captures = after.captures := by
  unfold scan at h ⊢
  split at h
  · rename_i ha
    cases hlater ha
    split at h
    · rename_i hzero
      subst hzero
      rw [if_pos ha, if_pos rfl]
      have hone : sweep (p.attempt limits.depth) 0 (.within input 0) run =
          (.matched behind, after) := h
      exact sweep_of_more_steps (Nat.le_of_eq hsteps) hone
    · cases h
  · rename_i ha
    rw [if_neg ha]
    obtain ⟨skip, rfl⟩ := Nat.exists_eq_add_of_le hlo
    have hsplit : input.length - origin = skip + (input.length - (origin + skip)) := by omega
    rw [hsplit] at h
    exact sweep_of_later (by omega) (Nat.le_of_eq hsteps) hno h

/-- A search that no limit cuts short gives the leftmost match. -/
theorem leftmost_search (hfrom : max start 1 - 1 ≤ input.length)
    (habend : (p.search input start limits room).1.abend = false) :
    p.Leftmost input (max start 1 - 1) (p.search input start limits room).1 := by
  have hs : p.Swept input (max start 1 - 1)
      (p.scan input (max start 1 - 1) limits { steps := limits.steps, room }) := swept_scan hfrom
  rw [search_eq hfrom] at habend ⊢
  exact hs.leftmost habend

/-- A search that finds a match gives it again when it is started anywhere up to the match. -/
theorem search_eq_of_later {later room' : Nat} (hfrom : max start 1 - 1 ≤ input.length)
    (habend : (p.search input start limits room).1.abend = false)
    (hleast : IsLeast (p.matchOffsets input (max start 1 - 1)) pos) (hlo : max start 1 ≤ later)
    (hhi : later ≤ pos + 1) :
    (p.search input later limits room').1 = (p.search input start limits room).1 := by
  have hlater : max later 1 - 1 = later - 1 := by omega
  have hpos : pos ≤ input.length := hleast.1.2.1
  have hfrom' : max later 1 - 1 ≤ input.length := by omega
  have hs : p.Swept input (max start 1 - 1)
      (p.scan input (max start 1 - 1) limits { steps := limits.steps, room }) := swept_scan hfrom
  rw [search_eq hfrom] at habend ⊢
  rw [search_eq hfrom', hlater]
  cases hscan : p.scan input (max start 1 - 1) limits { steps := limits.steps, room } with
  | mk verdict after =>
    rw [hscan] at habend hs
    cases verdict with
    | exhausted => cases habend
    | failed => exact absurd hleast.1.2.2 (hs pos hleast.1.1 hpos)
    | matched behind =>
      have hno (early : Nat) (hle : max start 1 - 1 ≤ early) (hlt : early < later - 1) :
          ¬ p.MatchesAt input early := by
        intro hm
        have hge : pos ≤ early := hleast.2 ⟨hle, by omega, hm⟩
        omega
      have hanchored (ha : p.root.anchored = true) : later - 1 = max start 1 - 1 := by
        by_contra hne
        exact not_matchesAt_of_anchored ha (by omega) hpos hleast.1.2.2
      have hsteps : ({ steps := limits.steps, room } : Run).steps =
          ({ steps := limits.steps, room := room' } : Run).steps := rfl
      obtain ⟨after', hscan', hc⟩ := scan_of_later (by omega) (by omega) hsteps hno hanchored hscan
      rw [hscan']
      simp only [outcomeOf, hc]

/-- Where a search that tries every offset is not cut short, one that knows of anchors gives the
same. -/
theorem search_eq_searchEverywhere (hfrom : max start 1 - 1 ≤ input.length)
    (habend : (p.searchEverywhere input start limits room).1.abend = false) :
    (p.search input start limits room).1 = (p.searchEverywhere input start limits room).1 := by
  have hs : p.Swept input (max start 1 - 1) (sweep (p.attempt limits.depth)
      (input.length - (max start 1 - 1)) (.within input (max start 1 - 1))
      { steps := limits.steps, room }) := swept_sweep (by omega)
  have habend' : (p.search input start limits room).1.abend = false := by
    rw [searchEverywhere_eq hfrom, ← Bool.not_eq_true, abend_outcomeOf] at habend
    rw [search_eq hfrom, ← Bool.not_eq_true, abend_outcomeOf]
    exact scan_ne_exhausted habend
  have hleft := leftmost_search hfrom habend'
  rw [searchEverywhere_eq hfrom] at habend ⊢
  exact hleft.unique (hs.leftmost habend)

/-- A search that no limit cuts short gives the match at the least offset from its start on where
the program matches without limits, or tells that there is none; started anywhere up to that offset
it gives the same. Where even trying every offset is not cut short, that gives the same as well. -/
theorem search_leftmost (hfrom : max start 1 - 1 ≤ input.length) :
    ((p.search input start limits room).1.abend = false →
      p.Leftmost input (max start 1 - 1) (p.search input start limits room).1 ∧
      ∀ pos, IsLeast (p.matchOffsets input (max start 1 - 1)) pos →
        ∀ later room', max start 1 ≤ later → later ≤ pos + 1 →
          (p.search input later limits room').1 = (p.search input start limits room).1) ∧
      ((p.searchEverywhere input start limits room).1.abend = false →
        (p.search input start limits room).1 =
          (p.searchEverywhere input start limits room).1) := by
  refine ⟨fun habend => ⟨leftmost_search hfrom habend, fun pos hleast later room' hlo hhi => ?_⟩,
    search_eq_searchEverywhere hfrom⟩
  exact search_eq_of_later hfrom habend hleast hlo hhi

/-- The letter `b` at the start of the input, or the letter `c` anywhere. -/
def firstOrSecondLetter : Program where
  typeName := "*"
  body := .choice [.seq [.inputStart, .literal (.ofBytes [0x62])], .literal (.ofBytes [0x63])]
  expression := "^ \"b\" / \"c\""

/-- In `abc` only the last letter matches. -/
theorem isLeast_matchOffsets_abc :
    IsLeast (firstOrSecondLetter.matchOffsets [0x61, 0x62, 0x63] 0) 2 := by
  have hmatch : firstOrSecondLetter.MatchesAt [0x61, 0x62, 0x63] 2 :=
    ⟨3, .node "*" 2 3 [], 5, { steps := 20, room := 0 }, _, rfl, rfl⟩
  have hfirst : ¬ firstOrSecondLetter.MatchesAt [0x61, 0x62, 0x63] 0 :=
    not_matchesAt (.captureFailure (.choiceTail
      (.seqCons (.inputStart) (.seqFailure (.notLiteral (by decide))))
      (.choiceTail (.notLiteral (by decide)) .choiceNil))) (by decide)
  have hsecond : ¬ firstOrSecondLetter.MatchesAt [0x61, 0x62, 0x63] 1 :=
    not_matchesAt (.captureFailure (.choiceTail (.seqFailure .inputStart)
      (.choiceTail (.notLiteral (by decide)) .choiceNil))) (by decide)
  refine ⟨⟨Nat.zero_le _, by decide, hmatch⟩, ?_⟩
  rintro pos ⟨-, -, hm⟩
  match pos with
  | 0 => exact absurd hm hfirst
  | 1 => exact absurd hm hsecond
  | pos + 2 => exact Nat.le_add_left 2 pos

/-- A search of `abc` finds the last letter, and so does the one that begins there. -/
theorem search_leftmost_abc :
    max 1 1 - 1 ≤ ([0x61, 0x62, 0x63] : Bytes).length ∧
      (firstOrSecondLetter.search [0x61, 0x62, 0x63] 1 ⟨20, 5⟩ 0).1.abend = false ∧
      firstOrSecondLetter.Leftmost [0x61, 0x62, 0x63] 0 ⟨some (.node "*" 2 3 []), 0, false⟩ ∧
      (firstOrSecondLetter.search [0x61, 0x62, 0x63] 3 ⟨20, 5⟩ 0).1 =
        (firstOrSecondLetter.search [0x61, 0x62, 0x63] 1 ⟨20, 5⟩ 0).1 ∧
      (firstOrSecondLetter.searchEverywhere [0x61, 0x62, 0x63] 1 ⟨20, 5⟩ 0).1.abend = false ∧
      (firstOrSecondLetter.search [0x61, 0x62, 0x63] 1 ⟨20, 5⟩ 0).1 =
        (firstOrSecondLetter.searchEverywhere [0x61, 0x62, 0x63] 1 ⟨20, 5⟩ 0).1 := by
  have hfrom : max 1 1 - 1 ≤ ([0x61, 0x62, 0x63] : Bytes).length := by decide
  have hfound : (firstOrSecondLetter.search [0x61, 0x62, 0x63] 1 ⟨20, 5⟩ 0).1 =
      ⟨some (.node "*" 2 3 []), 0, false⟩ := by rfl
  have habend : (firstOrSecondLetter.search [0x61, 0x62, 0x63] 1 ⟨20, 5⟩ 0).1.abend = false := by
    rw [hfound]
  have heverywhere :
      (firstOrSecondLetter.searchEverywhere [0x61, 0x62, 0x63] 1 ⟨20, 5⟩ 0).1.abend = false := by
    rfl
  obtain ⟨hleft, hlater⟩ := (search_leftmost hfrom).1 habend
  exact ⟨hfrom, habend, hfound ▸ hleft,
    hlater 2 isLeast_matchOffsets_abc 3 0 (by decide) (by decide), heverywhere,
    (search_leftmost hfrom).2 heverywhere⟩

end Program

end PatternEngine
