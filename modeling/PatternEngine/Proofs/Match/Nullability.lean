import Mathlib
import PatternEngine.Environment.Compile
import PatternEngine.Proofs.Match.LargerLimits

/-!
# Matches that consume nothing

A pattern that matches without consuming anything is nullable, so a pattern that is not consumes
at least one byte wherever it matches. The test does not look at the input and takes every
predicate and every anchor to match; what it must not miss is a match of parts none of which
consumes anything, and a repetition whose missing copies are made up for by an empty one.

A program that was compiled without a warning has a root that is not nullable, and all that a search
finds is a match of the root.
-/

namespace PatternEngine

namespace Pattern

variable {input : Bytes} {p : Pattern} {ps : List Pattern} {pos stop : Nat}
  {forest : List MatchTree}

theorem nullable_seq_cons :
    (seq (p :: ps)).nullable = true ↔ p.nullable = true ∧ (seq ps).nullable = true := by
  simp [nullable, allNullable]

theorem nullable_choice_cons :
    (choice (p :: ps)).nullable = true ↔ p.nullable = true ∨ (choice ps).nullable = true := by
  simp [nullable, anyNullable]

theorem nullable_repetition {least : Nat} {most : Option Nat} :
    (repetition p least most).nullable = true ↔ least = 0 ∨ p.nullable = true := by
  simp [nullable]

/-- A character has at least one byte. -/
theorem one_le_stepWidth (b : UInt8) (rest : Bytes) : 1 ≤ Utf8.stepWidth b rest := by
  simp only [Utf8.stepWidth]
  split
  · rename_i h
    simp only [Bool.and_eq_true, beq_iff_eq] at h
    omega
  · exact Nat.le_refl 1

/-- What matches without consuming anything is nullable. -/
theorem Yields.nullable (h : p.Yields input pos (.success pos forest)) (hpos : pos ≤ input.length) :
    p.nullable = true := by
  generalize hr : Result.success pos forest = r at h
  induction h generalizing forest with
  | @literal text pos h =>
    have hstop := (Result.success.inj hr).1
    have hempty : text.bytes = [] := List.length_eq_zero_iff.mp (by omega)
    simp [Pattern.nullable, hempty]
  | set hb h =>
    have hstop := (Result.success.inj hr).1
    omega
  | @any pos b rest h =>
    have hstop := (Result.success.inj hr).1
    have hone := one_le_stepWidth b rest
    omega
  | notLiteral | notSet | notAny | seqFailure | choiceNil | captureFailure => cases hr
  | inputStart | inputEnd | lookaheadFailure | lookaheadSuccess => simp [Pattern.nullable]
  | seqNil => simp [Pattern.nullable, allNullable]
  | @seqCons item items pos mid first r hfirst hrest ih ihr =>
    obtain ⟨later, rfl, -⟩ := behind_eq_success hr.symm
    -- Both parts end where they start, since the second ends where the first started.
    have hmid := hfirst.bounds hpos
    have hback := hrest.bounds hmid.2
    obtain rfl : mid = pos := by omega
    exact nullable_seq_cons.mpr ⟨ih hpos rfl, ihr hpos rfl⟩
  | choiceHead _ ih => exact nullable_choice_cons.mpr (.inl (ih hpos hr))
  | choiceTail _ _ _ ihr => exact nullable_choice_cons.mpr (.inr (ihr hpos hr))
  | @repetitionFull body least pos | @repetitionDone body least pos most _ _ _ =>
    have hleast : least = 0 := by
      by_contra hne
      rw [Result.ofTest, if_neg hne] at hr
      cases hr
    exact nullable_repetition.mpr (.inl hleast)
  | repetitionEmpty _ _ ih => exact nullable_repetition.mpr (.inr (ih hpos rfl))
  | @repetitionMore body least pos mid most first r _ hfirst hne hrest _ _ =>
    -- A copy that consumes something cannot be undone by what is behind it.
    obtain ⟨later, rfl, -⟩ := behind_eq_success hr.symm
    have hmid := hfirst.bounds hpos
    have hback := hrest.bounds hmid.2
    omega
  | captureSuccess _ ih =>
    obtain ⟨rfl, -⟩ := Result.success.inj hr
    simpa [Pattern.nullable] using ih hpos rfl
  | transparent _ ih => simpa [Pattern.nullable] using ih hpos hr

/-- What is not nullable consumes something when it matches. -/
theorem Yields.lt_of_not_nullable (h : p.Yields input pos (.success stop forest))
    (hpos : pos ≤ input.length) (hn : p.nullable = false) : pos < stop := by
  have hle := (h.bounds hpos).1
  by_contra hlt
  obtain rfl : stop = pos := by omega
  simp [h.nullable hpos] at hn

/-- No evaluation of what is not nullable matches without going on. -/
theorem lt_of_eval_matched {maxDepth depth : Nat} {run after : Run} {behind : Place}
    (hn : p.nullable = false) (hpos : pos ≤ input.length)
    (he : p.eval maxDepth depth (.within input pos) run = (.matched behind, after)) :
    pos < behind.pos := by
  have h : Agrees input p pos run.recorded run.recorded
      (p.eval maxDepth depth (.within input pos) run) := agrees_eval p hpos
  rw [he] at h
  obtain ⟨stop, forest, rfl, hy, -⟩ := h
  simpa using hy.lt_of_not_nullable hpos hn

end Pattern

/-- What a search finds is a match of the root at some offset of the input. -/
theorem Program.yields_of_search {p : Program} {input : Bytes} {start room : Nat} {limits : Limits}
    {tree : MatchTree} (h : (p.search input start limits room).1.tree = some tree) :
    ∃ pos stop, pos ≤ input.length ∧ p.root.Yields input pos (.success stop [tree]) := by
  have hfrom : max start 1 - 1 ≤ input.length := by
    by_contra hfrom
    simp [search_of_behind hfrom] at h
  have habend : (p.search input start limits room).1.abend = false := by
    by_contra habend
    simp [(search_of_abend (Bool.not_eq_false _ ▸ habend)).2] at h
  have hleft := leftmost_search hfrom habend
  generalize (p.search input start limits room).1 = outcome at h hleft
  cases hleft with
  | found hleast hm _ =>
    cases h
    exact ⟨_, _, hleast.1.2.1, hm.yields hleast.1.2.1⟩
  | absent => cases h

/-- A match that a search finds is not empty unless the root is nullable. -/
theorem Program.lt_of_search {p : Program} {input : Bytes} {start room : Nat} {limits : Limits}
    {tree : MatchTree} (hn : p.root.nullable = false)
    (h : (p.search input start limits room).1.tree = some tree) : tree.start < tree.stop := by
  obtain ⟨pos, stop, hpos, hy⟩ := yields_of_search h
  have hlt := hy.lt_of_not_nullable hpos hn
  cases hy with
  | captureSuccess _ => exact hlt

namespace Environment

variable {env : Environment} {text : String} {compiled : Compiled}

/-- A compiled expression comes with the warning exactly when the root of its program is
nullable. -/
theorem mem_warnings_iff (h : env.compile text = .ok compiled) :
    emptyMatchWarning text ∈ compiled.warnings ↔ compiled.program.root.nullable = true := by
  unfold compile at h
  split at h
  · cases h
  · rename_i e he
    unfold compileExpr at h
    generalize (env.expand patternDepthLimit [] none e).run {} = outcome at h
    obtain ⟨sized, state⟩ := outcome
    dsimp only at h
    split at h
    · cases h
      by_cases hn : (Program.ofPattern sized.pattern text).root.nullable = true
      · simp [hn]
      · simp [hn]
    · cases h

/-- A pattern that is not nullable goes on with every match, at every offset of every input. So
every match of a program that was compiled without the warning is that of at least one byte. -/
theorem matches_consume :
    (∀ p : Pattern, p.nullable = false →
      ∀ (input : Bytes) (pos maxDepth depth : Nat) (run after : Run) (behind : Place),
        pos ≤ input.length →
          p.eval maxDepth depth (.within input pos) run = (.matched behind, after) →
            pos < behind.pos) ∧
      ∀ (env : Environment) (text : String) (compiled : Compiled),
        env.compile text = .ok compiled → emptyMatchWarning text ∉ compiled.warnings →
          ∀ (input : Bytes) (start : Nat) (limits : Limits) (room : Nat) (tree : MatchTree),
            (compiled.program.search input start limits room).1.tree = some tree →
              tree.start < tree.stop := by
  constructor
  · intro p hn input pos maxDepth depth run after behind hpos he
    exact Pattern.lt_of_eval_matched hn hpos he
  · intro env text compiled h hw input start limits room tree htree
    have hn : compiled.program.root.nullable = false :=
      Bool.eq_false_iff.mpr fun hn => hw ((mem_warnings_iff h).mpr hn)
    exact Program.lt_of_search hn htree

/-- Any number of letters `a`, and then one character, which is the letter `b`. -/
def lettersBefore : Program where
  typeName := "*"
  body := .seq [.repetition (.literal (.ofBytes [0x61])) 0 none,
    .lookahead .present (.literal (.ofBytes [0x62])), .any]
  expression := "(\"a\"* >\"b\" .)"

/-- Two of its three parts are nullable and consume nothing of `ba`; the third consumes a byte. -/
theorem matches_consume_lettersBefore :
    ({} : Environment).compile lettersBefore.expression = .ok ⟨lettersBefore, []⟩ ∧
      (∃ after, lettersBefore.body.eval 5 0 (.within [0x62, 0x61] 0) { steps := 20, room := 0 } =
        (.matched (.within [0x62, 0x61] 1), after) ∧ 0 < (Place.within [0x62, 0x61] 1).pos) ∧
      ∃ tree, (lettersBefore.search [0x62, 0x61] 1 {} 0).1.tree = some tree ∧
        tree.start < tree.stop := by
  have hcompile : ({} : Environment).compile lettersBefore.expression =
      .ok ⟨lettersBefore, []⟩ := by cbv
  have heval : lettersBefore.body.eval 5 0 (.within [0x62, 0x61] 0) { steps := 20, room := 0 } =
      (.matched (.within [0x62, 0x61] 1), { steps := 14, room := 0 }) := by rfl
  have hfound : (lettersBefore.search [0x62, 0x61] 1 {} 0).1.tree = some (.node "*" 0 1 []) := by
    rfl
  refine ⟨hcompile, ⟨_, heval, ?_⟩, _, hfound, ?_⟩
  · exact matches_consume.1 _ rfl _ _ _ _ _ _ _ (Nat.zero_le _) heval
  · exact matches_consume.2 {} _ _ hcompile (by simp) _ _ _ _ _ hfound

end Environment

end PatternEngine
