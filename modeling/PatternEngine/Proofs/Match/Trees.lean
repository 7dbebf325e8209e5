import PatternEngine.Proofs.Match.Leftmost

/-!
# The trees of matches

The matches inside a match lie within it, in order and without overlap, and there are no more
levels of them than captures may be nested. The attempts in the log lie within the input, whether
they came to an end or were cut short.

Where matches lie is read off the relation, in which a whole leaves the forests of its parts one
behind the other. How deep they are nested, and what is in the log, is not in the relation and is
carried through the evaluation.
-/

namespace PatternEngine

namespace MatchTree

/-- A match ends no earlier than it starts, and the matches inside it lie within it, in order and
without overlap, and are so themselves. -/
inductive WellFormed : MatchTree → Prop
  | node {name : String} {start stop : Nat} {subs : List MatchTree} (hle : start ≤ stop)
      (hwithin : ∀ sub ∈ subs, start ≤ sub.start ∧ sub.stop ≤ stop)
      (hordered : subs.Pairwise fun first second => first.stop ≤ second.start)
      (hsubs : ∀ sub ∈ subs, WellFormed sub) : WellFormed (.node name start stop subs)

mutual

/-- The number of matches that are nested in one another at most. -/
def levels : MatchTree → Nat
  | .node _ _ _ subs => levelsOfAll subs + 1

/-- The greatest such number of the matches of a list. -/
def levelsOfAll : List MatchTree → Nat
  | [] => 0
  | tree :: trees => max (levels tree) (levelsOfAll trees)

end

theorem levelsOfAll_le_iff {trees : List MatchTree} {n : Nat} :
    levelsOfAll trees ≤ n ↔ ∀ tree ∈ trees, tree.levels ≤ n := by
  induction trees with
  | nil => simp [levelsOfAll]
  | cons tree trees ih => simp [levelsOfAll, ih]

/-- Matches lie between two offsets, in order and without overlap. -/
structure Between (start stop : Nat) (forest : List MatchTree) : Prop where
  le : start ≤ stop
  within : ∀ tree ∈ forest, start ≤ tree.start ∧ tree.stop ≤ stop
  ordered : forest.Pairwise fun first second => first.stop ≤ second.start
  wellFormed : ∀ tree ∈ forest, tree.WellFormed

namespace Between

variable {start mid stop : Nat} {forest later : List MatchTree}

theorem nil (hle : start ≤ stop) : Between start stop [] :=
  ⟨hle, by simp, .nil, by simp⟩

/-- What lies behind comes in order behind. -/
theorem append (h : Between start mid forest) (h' : Between mid stop later) :
    Between start stop (forest ++ later) where
  le := h.le.trans h'.le
  within tree htree := by
    rcases List.mem_append.mp htree with hf | hl
    · exact ⟨(h.within tree hf).1, (h.within tree hf).2.trans h'.le⟩
    · exact ⟨h.le.trans (h'.within tree hl).1, (h'.within tree hl).2⟩
  ordered := List.pairwise_append.mpr ⟨h.ordered, h'.ordered, fun first hf second hl =>
    (h.within first hf).2.trans (h'.within second hl).1⟩
  wellFormed tree htree := (List.mem_append.mp htree).elim (h.wellFormed tree) (h'.wellFormed tree)

/-- A match around matches lies where they do. -/
theorem node (h : Between start stop forest) (name : String) :
    Between start stop [.node name start stop forest] where
  le := h.le
  within tree htree := by
    cases List.mem_singleton.mp htree
    exact ⟨Nat.le_refl _, Nat.le_refl _⟩
  ordered := List.pairwise_singleton _ _
  wellFormed tree htree := by
    cases List.mem_singleton.mp htree
    exact .node h.le h.within h.ordered h.wellFormed

end Between

end MatchTree

namespace Pattern

open MatchTree (Between)

variable {input : Bytes} {p : Pattern} {pos stop : Nat} {forest : List MatchTree}

/-- The matches in a match lie between where it starts and where it ends. -/
theorem Yields.between (h : p.Yields input pos (.success stop forest))
    (hpos : pos ≤ input.length) : Between pos stop forest := by
  have hle := (h.bounds hpos).1
  generalize hr : Result.success stop forest = r at h
  induction h generalizing stop forest with
  | literal | set | any | seqNil =>
    cases hr
    exact .nil hle
  | notLiteral | notSet | notAny | seqFailure | choiceNil | captureFailure => cases hr
  | inputStart | inputEnd | repetitionFull | repetitionDone | lookaheadFailure
  | lookaheadSuccess =>
    obtain ⟨rfl, rfl⟩ := ofTest_eq_success hr.symm
    exact .nil hle
  | seqCons hfirst hrest ih ihr | repetitionMore _ hfirst _ hrest ih ihr =>
    obtain ⟨later, rfl, rfl⟩ := behind_eq_success hr.symm
    have hmid := hfirst.bounds hpos
    exact (ih hpos hmid.1 rfl).append (ihr hmid.2 (hrest.bounds hmid.2).1 rfl)
  | choiceHead _ ih | transparent _ ih => exact ih hpos hle hr
  | choiceTail _ _ _ ihr => exact ihr hpos hle hr
  | repetitionEmpty _ _ ih =>
    cases hr
    exact ih hpos hle rfl
  | @captureSuccess name _ _ _ _ _ ih =>
    cases hr
    exact (ih hpos hle rfl).node name

/-- An evaluation from a place of the input that matches ends at a place of the input that is not
before it. -/
theorem eval_bounds {maxDepth depth : Nat} {run after : Run} {behind : Place}
    (hpos : pos ≤ input.length)
    (he : p.eval maxDepth depth (.within input pos) run = (.matched behind, after)) :
    ∃ stop, behind = .within input stop ∧ pos ≤ stop ∧ stop ≤ input.length := by
  have h : Agrees input p pos run.recorded run.recorded
      (p.eval maxDepth depth (.within input pos) run) := agrees_eval p hpos
  rw [he] at h
  obtain ⟨stop, forest, rfl, hy, -⟩ := h
  exact ⟨stop, rfl, hy.bounds hpos⟩

end Pattern

/-! ## Levels and attempts -/

/-- An attempt was made at a place of the input, and its match ended at one that is not before it. -/
structure Attempt.Within (input : Bytes) (attempt : Attempt) : Prop where
  start : attempt.start ≤ input.length
  stop : ∀ stop ∈ attempt.stop, attempt.start ≤ stop ∧ stop ≤ input.length

/-- What was recorded from a mark on has no more than so many levels, and what was noted lies within
the input. -/
structure Run.Keeps (input : Bytes) (base bound : Nat) (run : Run) : Prop where
  levels : ∀ tree ∈ run.recorded.drop base, tree.levels ≤ bound
  attempts : ∀ attempt ∈ run.attempts, attempt.Within input

namespace Run.Keeps

variable {input : Bytes} {base bound : Nat} {run : Run}

theorem tick (h : run.Keeps input base bound) : run.tick.Keeps input base bound :=
  ⟨h.levels, h.attempts⟩

/-- Of what is rolled back nothing new is left. -/
theorem rollBack (h : run.Keeps input base bound) (mark : Nat) :
    (run.rollBack mark).Keeps input base bound where
  levels tree htree := by
    rw [recorded_rollBack, List.drop_take] at htree
    exact h.levels tree (List.mem_of_mem_take htree)
  attempts := h.attempts

theorem enter (h : run.Keeps input base bound) : run.enter.Keeps input base bound :=
  ⟨h.levels, by simp [Run.enter]⟩

/-- Inside a capture nothing is recorded at first. -/
theorem enter_mark (input : Bytes) (bound : Nat) (run : Run) :
    run.enter.Keeps input run.mark bound :=
  ⟨by simp, by simp [Run.enter]⟩

theorem leave (h : run.Keeps input base bound) {noted : List Attempt} {attempt : Attempt}
    (hnoted : ∀ other ∈ noted, other.Within input) (hattempt : attempt.Within input) (room : Nat) :
    (run.leave room noted attempt).Keeps input base bound where
  levels := h.levels
  attempts other hother := by
    rcases List.mem_append.mp hother with hold | hnew
    · exact h.attempts other hold
    · split at hnew
      · exact hnoted other hnew
      · rcases List.mem_cons.mp hnew with rfl | hnew
        · exact hattempt
        · exact hnoted other hnew

/-- A match has one level more than the matches that it gathers. -/
theorem gather (h : run.Keeps input base (bound + 1)) {mark : Nat}
    (hinside : run.Keeps input mark bound) (name : String) (start stop : Nat) :
    (run.gather mark name start stop).Keeps input base (bound + 1) where
  levels tree htree := by
    rw [recorded_gather, List.drop_append, List.drop_take] at htree
    rcases List.mem_append.mp htree with hold | hnew
    · exact h.levels tree (List.mem_of_mem_take hold)
    · cases List.mem_singleton.mp (List.mem_of_mem_drop hnew)
      rw [MatchTree.levels]
      exact Nat.succ_le_succ (MatchTree.levelsOfAll_le_iff.mpr hinside.levels)
  attempts := h.attempts

end Run.Keeps

namespace Pattern

variable {input : Bytes} {base bound maxDepth : Nat} {run : Run} {outcome : Verdict × Run}

/-- A match from an offset on, if there was one, ended within the input and not before the offset. -/
def EndsWithin (input : Bytes) (pos : Nat) (verdict : Verdict) : Prop :=
  ∀ behind, verdict = .matched behind →
    ∃ stop, behind = .within input stop ∧ pos ≤ stop ∧ stop ≤ input.length

theorem endsWithin_eval (p : Pattern) {depth pos : Nat} (hpos : pos ≤ input.length) (run : Run) :
    EndsWithin input pos (p.eval maxDepth depth (.within input pos) run).1 := by
  intro behind hv
  have he : p.eval maxDepth depth (.within input pos) run =
      (.matched behind, (p.eval maxDepth depth (.within input pos) run).2) := Prod.ext hv rfl
  exact eval_bounds hpos he

theorem keeps_conclude (h : run.Keeps input base bound) (least mark count : Nat) (place : Place) :
    (conclude least mark count place run).2.Keeps input base bound := by
  unfold conclude
  split
  · exact h.rollBack mark
  · exact h

theorem keeps_foresee (h : outcome.2.Keeps input base bound) (kind : Lookahead) (place : Place)
    (mark : Nat) : (foresee kind place mark outcome).2.Keeps input base bound := by
  obtain ⟨verdict, run⟩ := outcome
  cases verdict with
  | exhausted => exact h
  | failed | matched => exact h.rollBack mark

/-- A capture adds a level to what was recorded inside it. -/
theorem keeps_record {pos mark : Nat} {noted : List Attempt}
    (h : outcome.2.Keeps input base (bound + 1)) (hinside : outcome.2.Keeps input mark bound)
    (hpos : pos ≤ input.length) (hends : EndsWithin input pos outcome.1)
    (hnoted : ∀ attempt ∈ noted, attempt.Within input) (name : String) (depth room : Nat) :
    (record name depth (.within input pos) mark room noted outcome).2.Keeps input base
      (bound + 1) := by
  obtain ⟨verdict, run⟩ := outcome
  have hattempt : Attempt.Within input ⟨name, depth, pos, verdict.stop?⟩ := by
    refine ⟨hpos, fun stop hstop => ?_⟩
    cases verdict with
    | exhausted | failed => cases hstop
    | matched behind =>
      obtain ⟨stop', rfl, hle⟩ := hends behind rfl
      cases hstop
      simpa using hle
  have hleave := h.leave hnoted hattempt room
  have hinside' := hinside.leave hnoted hattempt room
  simp only [record, Place.pos_within]
  cases verdict with
  | exhausted => exact hleave
  | failed => exact hleave.rollBack mark
  | matched behind => exact hleave.gather hinside' name pos behind.pos

/-- The copies of a repetition keep what each copy keeps. -/
theorem keeps_repeatFrom {copy : Place → Run → Verdict × Run}
    (hends : ∀ pos run, pos ≤ input.length →
      EndsWithin input pos (copy (.within input pos) run).1)
    (hcopy : ∀ pos run, pos ≤ input.length → run.Keeps input base bound →
      (copy (.within input pos) run).2.Keeps input base bound)
    {least mark rounds : Nat} {most : Option Nat} :
    ∀ {count pos : Nat} {run : Run}, pos ≤ input.length → run.Keeps input base bound →
      (repeatFrom copy least most mark rounds count (.within input pos) run).2.Keeps input base
        bound := by
  induction rounds with
  | zero =>
    intro count pos run _ h
    exact keeps_conclude h ..
  | succ rounds ih =>
    intro count pos run hpos h
    have hafter := hcopy pos run hpos h
    have hend := hends pos run hpos
    rw [repeatFrom]
    split
    · exact keeps_conclude h ..
    · cases hc : copy (.within input pos) run with
      | mk verdict after =>
        rw [hc] at hafter hend
        cases verdict with
        | exhausted => exact hafter
        | failed => exact keeps_conclude (hafter.rollBack _) ..
        | matched behind =>
          obtain ⟨stop, rfl, -, hstop⟩ := hend behind rfl
          dsimp only
          split
          · exact keeps_conclude hafter ..
          · exact ih hstop hafter

/-- Either the step limit or the rest of the evaluation decides. -/
theorem keeps_tick (h : run.Keeps input base bound)
    (hnext : run.tick.Keeps input base bound → outcome.2.Keeps input base bound) :
    (if run.steps = 0 then (.exhausted, run) else outcome).2.Keeps input base bound := by
  split
  · exact h
  · exact hnext h.tick

mutual

/-- An evaluation inside some captures records no more levels than there may be more of them. -/
theorem keeps_eval : ∀ (p : Pattern) {base bound depth pos : Nat} {run : Run},
    maxDepth ≤ bound + depth → pos ≤ input.length → run.Keeps input base bound →
    (p.eval maxDepth depth (.within input pos) run).2.Keeps input base bound
  | .literal text, _, _, _, _, _, _, _, h => by
    rw [eval]
    exact keeps_tick h id
  | .set members, _, _, _, _, _, _, _, h => by
    rw [eval]
    exact keeps_tick h id
  | .any, _, _, _, _, _, _, _, h => by
    rw [eval]
    refine keeps_tick h fun hr => ?_
    dsimp only
    split
    · exact hr
    · exact hr
  | .inputStart, _, _, _, _, _, _, _, h => by
    rw [eval]
    exact keeps_tick h id
  | .inputEnd, _, _, _, _, _, _, _, h => by
    rw [eval]
    exact keeps_tick h id
  | .seq items, _, _, _, _, _, hbound, hpos, h => by
    rw [eval]
    exact keeps_tick h fun hr => keeps_evalSeq items hbound hpos hr
  | .choice alternatives, _, _, _, _, _, hbound, hpos, h => by
    rw [eval]
    exact keeps_tick h fun hr => keeps_evalChoice alternatives hbound hpos hr
  | .repetition body least most, _, _, _, _, _, hbound, hpos, h => by
    rw [eval]
    exact keeps_tick h fun hr => keeps_repeatFrom (fun _ run hpos => endsWithin_eval body hpos run)
      (fun _ _ => keeps_eval body hbound) hpos hr
  | .lookahead kind body, _, _, _, _, _, hbound, hpos, h => by
    rw [eval]
    exact keeps_tick h fun hr => keeps_foresee (keeps_eval body hbound hpos hr) ..
  | .transparent body, _, _, _, _, _, hbound, hpos, h => by
    rw [eval]
    exact keeps_tick h fun hr => keeps_eval body hbound hpos hr
  | .capture name body, base, bound, depth, pos, run, hbound, hpos, h => by
    rw [eval]
    refine keeps_tick h fun hr => ?_
    dsimp only
    split
    · exact hr
    · obtain ⟨inner, rfl⟩ : ∃ inner, bound = inner + 1 := ⟨bound - 1, by omega⟩
      exact keeps_record (keeps_eval body (by omega) hpos hr.enter)
        (keeps_eval body (by omega) hpos (.enter_mark input inner run.tick)) hpos
        (endsWithin_eval body hpos _) hr.attempts ..

/-- The items of a sequence keep what each item keeps. -/
theorem keeps_evalSeq : ∀ (items : List Pattern) {base bound mark depth pos : Nat} {run : Run},
    maxDepth ≤ bound + depth → pos ≤ input.length → run.Keeps input base bound →
    (evalSeq maxDepth items mark depth (.within input pos) run).2.Keeps input base bound
  | [], _, _, _, _, _, _, _, _, h => h
  | item :: items, _, _, mark, depth, pos, run, hbound, hpos, h => by
    have hitem := keeps_eval item hbound hpos h
    have hend : EndsWithin input pos (item.eval maxDepth depth (.within input pos) run).1 :=
      endsWithin_eval item hpos run
    rw [evalSeq]
    cases he : item.eval maxDepth depth (.within input pos) run with
    | mk verdict after =>
      rw [he] at hitem hend
      cases verdict with
      | exhausted => exact hitem
      | failed => exact hitem.rollBack mark
      | matched behind =>
        obtain ⟨stop, rfl, -, hstop⟩ := hend behind rfl
        exact keeps_evalSeq items hbound hstop hitem

/-- The alternatives of a choice keep what each alternative keeps. -/
theorem keeps_evalChoice : ∀ (items : List Pattern) {base bound mark depth pos : Nat} {run : Run},
    maxDepth ≤ bound + depth → pos ≤ input.length → run.Keeps input base bound →
    (evalChoice maxDepth items mark depth (.within input pos) run).2.Keeps input base bound
  | [], _, _, _, _, _, _, _, _, h => h
  | item :: items, _, _, mark, depth, pos, run, hbound, hpos, h => by
    have hitem := keeps_eval item hbound hpos h
    rw [evalChoice]
    cases he : item.eval maxDepth depth (.within input pos) run with
    | mk verdict after =>
      rw [he] at hitem
      cases verdict with
      | exhausted => exact hitem
      | failed => exact keeps_evalChoice items hbound hpos (hitem.rollBack mark)
      | matched behind => exact hitem

end

end Pattern

namespace Program

open Pattern (EndsWithin)

variable {p : Program} {input : Bytes} {origin maxDepth : Nat} {run : Run}

/-- An attempt with nothing recorded records as many levels as captures may be nested. -/
theorem keeps_attempt (hpos : origin ≤ input.length)
    (hnoted : ∀ attempt ∈ run.attempts, attempt.Within input) :
    (p.attempt maxDepth (.within input origin) run).2.Keeps input 0 maxDepth :=
  Pattern.keeps_eval p.root (Nat.le_refl _) hpos ⟨by simp [Run.recorded], hnoted⟩

theorem keeps_sweep {more : Nat} (hlen : origin + more ≤ input.length)
    (hnoted : ∀ attempt ∈ run.attempts, attempt.Within input) :
    (sweep (p.attempt maxDepth) more (.within input origin) run).2.Keeps input 0 maxDepth := by
  induction more generalizing origin run with
  | zero => exact keeps_attempt hlen hnoted
  | succ more ih =>
    have hfirst : (p.attempt maxDepth (.within input origin) run).2.Keeps input 0 maxDepth :=
      keeps_attempt (Nat.le_of_add_right_le hlen) hnoted
    rw [sweep]
    cases he : p.attempt maxDepth (.within input origin) run with
    | mk verdict after =>
      rw [he] at hfirst
      cases verdict with
      | exhausted | matched => exact hfirst
      | failed =>
        simp only [Place.advance_within]
        exact ih (by omega) hfirst.attempts

theorem keeps_scan {limits : Limits} (hpos : origin ≤ input.length) (hrun : run.captures = #[])
    (hnoted : ∀ attempt ∈ run.attempts, attempt.Within input) :
    (p.scan input origin limits run).2.Keeps input 0 limits.depth := by
  unfold scan
  split
  · split
    · exact keeps_attempt (Nat.zero_le _) hnoted
    · exact ⟨by simp [Run.recorded, hrun], hnoted⟩
  · exact keeps_sweep (by omega) hnoted

variable {start room : Nat} {limits : Limits}

/-- The attempts that a search notes lie within the input. -/
theorem within_of_search :
    ∀ attempt ∈ (p.search input start limits room).2.attempts, attempt.Within input := by
  by_cases hfrom : max start 1 - 1 ≤ input.length
  · have h : (p.scan input (max start 1 - 1) limits { steps := limits.steps, room }).2.Keeps input 0
        limits.depth := keeps_scan hfrom rfl (by simp)
    rw [search_eq_scan hfrom]
    exact h.attempts
  · simp [search, Nat.lt_of_not_le hfrom]

/-- A match that a search finds begins where the search does or behind, and what is behind it is
left over. It is well formed and has no more levels than captures may be nested. -/
theorem search_tree {tree : MatchTree} (h : (p.search input start limits room).1.tree = some tree) :
    max start 1 - 1 ≤ tree.start ∧
      tree.stop + (p.search input start limits room).1.leftover = input.length ∧
      tree.WellFormed ∧ tree.levels ≤ limits.depth := by
  have hfrom : max start 1 - 1 ≤ input.length := by
    by_contra hfrom
    simp [search, Nat.lt_of_not_le hfrom] at h
  have hkeeps : (p.scan input (max start 1 - 1) limits { steps := limits.steps, room }).2.Keeps
      input 0 limits.depth := keeps_scan hfrom rfl (by simp)
  have hs : p.Swept input (max start 1 - 1)
      (p.scan input (max start 1 - 1) limits { steps := limits.steps, room }) := swept_scan hfrom
  rw [search_eq hfrom] at h ⊢
  cases hscan : p.scan input (max start 1 - 1) limits { steps := limits.steps, room } with
  | mk verdict after =>
    rw [hscan] at h hkeeps hs
    cases verdict with
    | exhausted | failed => cases h
    | matched behind =>
      obtain ⟨pos, stop, tree', hle, hpos, -, hm, rfl, hc⟩ := hs
      have htree : tree' = tree := by simpa [outcomeOf, hc] using h
      subst htree
      have hy := hm.yields hpos
      have hstop := (hy.bounds hpos).2
      have hlevels : tree'.levels ≤ limits.depth := hkeeps.levels tree' (by simp [Run.recorded, hc])
      cases hy with
      | @captureSuccess name _ _ _ forest _ =>
        have hplaced := (hm.yields hpos).between hpos
        refine ⟨hle, ?_, hplaced.wellFormed _ (by simp), hlevels⟩
        simp only [outcomeOf, Place.size_within, MatchTree.stop]
        omega

end Program

end PatternEngine
