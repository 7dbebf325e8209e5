import PatternEngine.Match.Machine

/-!
# Matching as a relation

What a pattern does at a position of an input is said here without steps, limits or a stack of
recorded matches: it fails, or it matches up to a position and leaves a forest of named matches.
Sequences, choices and repetitions are taken apart from the left, so a repetition whose first
copy consumes something goes on as the repetition with both bounds one less.

The relation determines its result, and a match ends between where it starts and the end of
the input.
-/

namespace PatternEngine.Pattern

/-- What a pattern does at a position. -/
inductive Result where
  /-- It does not match. -/
  | failure
  /-- It matches up to an offset, with these named matches in it. -/
  | success (stop : Nat) (forest : List MatchTree)

/-- The result of a whole from that of its rest, behind a first part that left a forest. -/
def Result.behind (forest : List MatchTree) : Result → Result
  | .failure => .failure
  | .success stop later => .success stop (forest ++ later)

@[simp] theorem Result.behind_failure (forest : List MatchTree) :
    Result.failure.behind forest = .failure := rfl

@[simp] theorem Result.behind_success (forest later : List MatchTree) (stop : Nat) :
    (Result.success stop later).behind forest = .success stop (forest ++ later) := rfl

/-- The result of a predicate: it leaves nothing and consumes nothing. -/
def Result.ofTest (holds : Prop) [Decidable holds] (pos : Nat) : Result :=
  if holds then .success pos [] else .failure

/-- The pattern has this result at this offset of the input. -/
inductive Yields (input : Bytes) : Pattern → Nat → Result → Prop where
  | literal {text : SizedBytes} {pos : Nat} (h : text.bytes <+: input.drop pos) :
      Yields input (.literal text) pos (.success (pos + text.bytes.length) [])
  | notLiteral {text : SizedBytes} {pos : Nat} (h : ¬ text.bytes <+: input.drop pos) :
      Yields input (.literal text) pos .failure
  | set {members : ByteSet} {pos : Nat} {b : UInt8} (hb : input[pos]? = some b)
      (h : members.contains b = true) : Yields input (.set members) pos (.success (pos + 1) [])
  | notSet {members : ByteSet} {pos : Nat}
      (h : ∀ b, input[pos]? = some b → members.contains b = false) :
      Yields input (.set members) pos .failure
  | any {pos : Nat} {b : UInt8} {rest : Bytes} (h : input.drop pos = b :: rest) :
      Yields input .any pos (.success (pos + Utf8.stepWidth b rest) [])
  | notAny {pos : Nat} (h : input.drop pos = []) : Yields input .any pos .failure
  | inputStart {pos : Nat} : Yields input .inputStart pos (.ofTest (pos = 0) pos)
  | inputEnd {pos : Nat} : Yields input .inputEnd pos (.ofTest (pos = input.length) pos)
  /-- Nothing is left to match. -/
  | seqNil {pos : Nat} : Yields input (.seq []) pos (.success pos [])
  /-- The first item of a sequence does not match. -/
  | seqFailure {item : Pattern} {items : List Pattern} {pos : Nat}
      (h : Yields input item pos .failure) : Yields input (.seq (item :: items)) pos .failure
  /-- The other items of a sequence are matched behind the first. -/
  | seqCons {item : Pattern} {items : List Pattern} {pos mid : Nat} {forest : List MatchTree}
      {r : Result} (h : Yields input item pos (.success mid forest))
      (hrest : Yields input (.seq items) mid r) :
      Yields input (.seq (item :: items)) pos (r.behind forest)
  /-- No alternative is left. -/
  | choiceNil {pos : Nat} : Yields input (.choice []) pos .failure
  /-- The first alternative that matches counts. -/
  | choiceHead {item : Pattern} {items : List Pattern} {pos stop : Nat} {forest : List MatchTree}
      (h : Yields input item pos (.success stop forest)) :
      Yields input (.choice (item :: items)) pos (.success stop forest)
  /-- A later alternative counts only where the earlier ones do not match. -/
  | choiceTail {item : Pattern} {items : List Pattern} {pos : Nat} {r : Result}
      (h : Yields input item pos .failure) (hrest : Yields input (.choice items) pos r) :
      Yields input (.choice (item :: items)) pos r
  /-- No further copy is allowed. -/
  | repetitionFull {body : Pattern} {least pos : Nat} :
      Yields input (.repetition body least (some 0)) pos (.ofTest (least = 0) pos)
  /-- No further copy matches. -/
  | repetitionDone {body : Pattern} {least pos : Nat} {most : Option Nat} (hm : most ≠ some 0)
      (h : Yields input body pos .failure) :
      Yields input (.repetition body least most) pos (.ofTest (least = 0) pos)
  /-- A copy that consumes nothing is the last and stands for all that are missing. -/
  | repetitionEmpty {body : Pattern} {least pos : Nat} {most : Option Nat}
      {forest : List MatchTree} (hm : most ≠ some 0)
      (h : Yields input body pos (.success pos forest)) :
      Yields input (.repetition body least most) pos (.success pos forest)
  /-- Behind a copy that consumes something as many further ones are matched as there are. -/
  | repetitionMore {body : Pattern} {least pos mid : Nat} {most : Option Nat}
      {forest : List MatchTree} {r : Result} (hm : most ≠ some 0)
      (h : Yields input body pos (.success mid forest)) (hne : mid ≠ pos)
      (hrest : Yields input (.repetition body (least - 1) (most.map (· - 1))) mid r) :
      Yields input (.repetition body least most) pos (r.behind forest)
  /-- The operand of a predicate does not match. -/
  | lookaheadFailure {kind : Lookahead} {body : Pattern} {pos : Nat}
      (h : Yields input body pos .failure) :
      Yields input (.lookahead kind body) pos (.ofTest (kind = .absent) pos)
  /-- The operand of a predicate matches, of which nothing is kept. -/
  | lookaheadSuccess {kind : Lookahead} {body : Pattern} {pos stop : Nat}
      {forest : List MatchTree} (h : Yields input body pos (.success stop forest)) :
      Yields input (.lookahead kind body) pos (.ofTest (kind = .present) pos)
  /-- What is not matched is not recorded. -/
  | captureFailure {name : String} {body : Pattern} {pos : Nat}
      (h : Yields input body pos .failure) : Yields input (.capture name body) pos .failure
  /-- A capture makes one named match of all that its body leaves. -/
  | captureSuccess {name : String} {body : Pattern} {pos stop : Nat} {forest : List MatchTree}
      (h : Yields input body pos (.success stop forest)) :
      Yields input (.capture name body) pos (.success stop [.node name pos stop forest])
  /-- An alias leaves what its body leaves. -/
  | transparent {body : Pattern} {pos : Nat} {r : Result} (h : Yields input body pos r) :
      Yields input (.transparent body) pos r

variable {input : Bytes}

/-- Two successes at one offset are the same. -/
private theorem success_unique {p : Pattern} {pos stop stop' : Nat}
    {forest forest' : List MatchTree}
    (ih : ∀ {r : Result}, p.Yields input pos r → .success stop forest = r)
    (h : p.Yields input pos (.success stop' forest')) : stop = stop' ∧ forest = forest' :=
  Result.success.inj (ih h)

/-- A pattern has one result at each offset. -/
theorem Yields.unique {p : Pattern} {pos : Nat} {r r' : Result} (h : p.Yields input pos r)
    (h' : p.Yields input pos r') : r = r' := by
  induction h generalizing r' with
  | literal h =>
    cases h' with
    | literal _ => rfl
    | notLiteral hn => exact absurd h hn
  | notLiteral hn =>
    cases h' with
    | literal h => exact absurd h hn
    | notLiteral _ => rfl
  | set hb h =>
    cases h' with
    | set _ _ => rfl
    | notSet hn => exact absurd (hn _ hb) (by simp [h])
  | notSet hn =>
    cases h' with
    | set hb h => exact absurd (hn _ hb) (by simp [h])
    | notSet _ => rfl
  | any h =>
    cases h' with
    | any he =>
      obtain ⟨rfl, rfl⟩ := List.cons.inj (h.symm.trans he)
      rfl
    | notAny hn => exact absurd (h.symm.trans hn) (by simp)
  | notAny hn =>
    cases h' with
    | any h => exact absurd (h.symm.trans hn) (by simp)
    | notAny _ => rfl
  | inputStart => cases h'; rfl
  | inputEnd => cases h'; rfl
  | seqNil => cases h'; rfl
  | seqFailure _ ih =>
    cases h' with
    | seqFailure _ => rfl
    | seqCons h _ => exact absurd (ih h) (by simp)
  | seqCons _ _ ih ihr =>
    cases h' with
    | seqFailure h => exact absurd (ih h) (by simp)
    | seqCons h hr =>
      obtain ⟨rfl, rfl⟩ := success_unique ih h
      rw [ihr hr]
  | choiceNil => cases h'; rfl
  | choiceHead _ ih =>
    cases h' with
    | choiceHead h => exact ih h
    | choiceTail h _ => exact absurd (ih h) (by simp)
  | choiceTail _ _ ih ihr =>
    cases h' with
    | choiceHead h => exact absurd (ih h) (by simp)
    | choiceTail _ hr => exact ihr hr
  | repetitionFull =>
    cases h' with
    | repetitionFull => rfl
    | repetitionDone hm _ | repetitionEmpty hm _ | repetitionMore hm _ _ _ => exact absurd rfl hm
  | repetitionDone hm _ ih =>
    cases h' with
    | repetitionFull => exact absurd rfl hm
    | repetitionDone _ _ => rfl
    | repetitionEmpty _ h | repetitionMore _ h _ _ => exact absurd (ih h) (by simp)
  | repetitionEmpty hm _ ih =>
    cases h' with
    | repetitionFull => exact absurd rfl hm
    | repetitionDone _ h => exact absurd (ih h) (by simp)
    | repetitionEmpty _ h => exact ih h
    | repetitionMore _ h hne _ => exact absurd (success_unique ih h).1.symm hne
  | repetitionMore hm _ hne _ ih ihr =>
    cases h' with
    | repetitionFull => exact absurd rfl hm
    | repetitionDone _ h => exact absurd (ih h) (by simp)
    | repetitionEmpty _ h => exact absurd (success_unique ih h).1 hne
    | repetitionMore _ h _ hr =>
      obtain ⟨rfl, rfl⟩ := success_unique ih h
      rw [ihr hr]
  | lookaheadFailure _ ih =>
    cases h' with
    | lookaheadFailure _ => rfl
    | lookaheadSuccess h => exact absurd (ih h) (by simp)
  | lookaheadSuccess _ ih =>
    cases h' with
    | lookaheadFailure h => exact absurd (ih h) (by simp)
    | lookaheadSuccess _ => rfl
  | captureFailure _ ih =>
    cases h' with
    | captureFailure _ => rfl
    | captureSuccess h => exact absurd (ih h) (by simp)
  | captureSuccess _ ih =>
    cases h' with
    | captureFailure h => exact absurd (ih h) (by simp)
    | captureSuccess h =>
      obtain ⟨rfl, rfl⟩ := success_unique ih h
      rfl
  | transparent _ ih =>
    cases h' with
    | transparent h => exact ih h

/-- The result of a test that succeeds ends where it starts. -/
theorem ofTest_eq_success {holds : Prop} [Decidable holds] {pos stop : Nat}
    {forest : List MatchTree} (h : Result.ofTest holds pos = .success stop forest) :
    stop = pos ∧ forest = [] := by
  unfold Result.ofTest at h
  split at h
  · cases h
    exact ⟨rfl, rfl⟩
  · cases h

/-- The result of a whole that succeeds comes from a rest that succeeds. -/
theorem behind_eq_success {r : Result} {forest all : List MatchTree} {stop : Nat}
    (h : r.behind forest = .success stop all) :
    ∃ later, r = .success stop later ∧ all = forest ++ later := by
  cases r with
  | failure => cases h
  | success stop' later =>
    cases h
    exact ⟨later, rfl, rfl⟩

/-- A character ends within the input. -/
theorem stepWidth_le (b : UInt8) (rest : Bytes) : Utf8.stepWidth b rest ≤ rest.length + 1 := by
  simp only [Utf8.stepWidth]
  split
  · rename_i h
    simp only [Bool.and_eq_true, beq_iff_eq, List.length_take] at h
    omega
  · omega

/-- A match ends between where it starts and the end of the input. -/
theorem Yields.bounds {p : Pattern} {pos stop : Nat} {forest : List MatchTree}
    (h : p.Yields input pos (.success stop forest)) (hpos : pos ≤ input.length) :
    pos ≤ stop ∧ stop ≤ input.length := by
  generalize hr : Result.success stop forest = r at h
  induction h generalizing stop forest with
  | literal h =>
    cases hr
    have hl := h.length_le
    rw [List.length_drop] at hl
    omega
  | set hb h =>
    cases hr
    have hl := (List.getElem?_eq_some_iff.mp hb).1
    omega
  | @any pos b rest h =>
    cases hr
    have hl := congrArg List.length h
    have hw := stepWidth_le b rest
    rw [List.length_drop, List.length_cons] at hl
    omega
  | notLiteral | notSet | notAny | seqFailure | choiceNil | captureFailure => cases hr
  | inputStart | inputEnd | repetitionFull | repetitionDone | lookaheadFailure
  | lookaheadSuccess =>
    obtain ⟨rfl, -⟩ := ofTest_eq_success hr.symm
    exact ⟨Nat.le_refl _, hpos⟩
  | seqNil =>
    cases hr
    exact ⟨Nat.le_refl _, hpos⟩
  | seqCons _ _ ih ihr | repetitionMore _ _ _ _ ih ihr =>
    obtain ⟨later, rfl, -⟩ := behind_eq_success hr.symm
    have hfirst := ih hpos rfl
    have hlater := ihr hfirst.2 rfl
    exact ⟨Nat.le_trans hfirst.1 hlater.1, hlater.2⟩
  | choiceHead _ ih | transparent _ ih => exact ih hpos hr
  | choiceTail _ _ _ ihr => exact ihr hpos hr
  | repetitionEmpty _ _ _ =>
    cases hr
    exact ⟨Nat.le_refl _, hpos⟩
  | captureSuccess _ ih =>
    cases hr
    exact ih hpos rfl

end PatternEngine.Pattern
