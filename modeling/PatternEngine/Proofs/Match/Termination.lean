import PatternEngine.Proofs.Match.Leftmost

/-!
# Termination

A search comes to an end by itself. From each offset a pattern takes a number of steps that depends
on nothing but the input: with fewer steps the evaluation is cut short, and with as many it ends and
takes exactly these, as long as it may nest as many captures as the pattern does. The numbers of the
parts add up. A repetition goes on only behind a copy that consumed something, so the bytes ahead
bound it, whatever its body can match without consuming anything; the rounds that the machine
allows a repetition play no part in this.
-/

namespace PatternEngine

namespace Pattern

mutual

/-- The number of captures that are nested in one another at most. -/
def captureDepth : Pattern → Nat
  | .literal _ | .set _ | .any | .inputStart | .inputEnd => 0
  | .seq items | .choice items => captureDepthOfAll items
  | .repetition body _ _ | .lookahead _ body | .transparent body => captureDepth body
  | .capture _ body => captureDepth body + 1

/-- The greatest such number of the patterns of a list. -/
def captureDepthOfAll : List Pattern → Nat
  | [] => 0
  | item :: items => max (captureDepth item) (captureDepthOfAll items)

end

/-! ## Steps -/

/-- An evaluation takes so many steps: with fewer it is cut short, else it ends and takes them. -/
structure Spends (n : Nat) (evaluate : Run → Verdict × Run) : Prop where
  exhausted_iff : ∀ run, (evaluate run).1 = .exhausted ↔ run.steps < n
  steps : ∀ run, n ≤ run.steps → (evaluate run).2.steps + n = run.steps

namespace Spends

variable {n more : Nat} {f g next : Run → Verdict × Run}

/-- What ends at once takes no steps. -/
theorem of_ends (h : ∀ run, (f run).1 ≠ .exhausted ∧ (f run).2.steps = run.steps) : Spends 0 f where
  exhausted_iff run := iff_of_false (h run).1 (Nat.not_lt_zero _)
  steps run _ := (h run).2

/-- Each evaluation takes a step of its own. -/
theorem tick (h : Spends n f)
    (heq : ∀ run, g run = if run.steps = 0 then (.exhausted, run) else f run.tick) :
    Spends (n + 1) g where
  exhausted_iff run := by
    rw [heq]
    split
    · rename_i hzero
      exact iff_of_true rfl (by omega)
    · have htick : run.tick.steps = run.steps - 1 := rfl
      rw [h.exhausted_iff, htick]
      omega
  steps run hn := by
    have htick : run.tick.steps = run.steps - 1 := rfl
    have hrest := h.steps run.tick (by omega)
    rw [heq, if_neg (by omega)]
    omega

/-- What changes neither the steps nor whether there was an end takes the same steps. -/
theorem of_same (h : Spends n f)
    (hsame : ∀ run, ((g run).1 = .exhausted ↔ (f run).1 = .exhausted) ∧
      (g run).2.steps = (f run).2.steps) : Spends n g where
  exhausted_iff run := (hsame run).1.trans (h.exhausted_iff run)
  steps run hn := (hsame run).2 ▸ h.steps run hn

/-- The steps of two parts add up, of which the second begins with what the first has left. -/
theorem andThen (h : Spends n f) (hnext : Spends more next)
    (hseam : ∀ run, (f run).1 = .exhausted ∧ (g run).1 = .exhausted ∨
      (f run).1 ≠ .exhausted ∧ ∃ after, after.steps = (f run).2.steps ∧ g run = next after) :
    Spends (n + more) g where
  exhausted_iff run := by
    rcases hseam run with ⟨hf, hg⟩ | ⟨hf, after, hafter, hg⟩
    · have hlt := (h.exhausted_iff run).mp hf
      exact iff_of_true hg (by omega)
    · have hle := Nat.not_lt.mp (mt (h.exhausted_iff run).mpr hf)
      have hsteps := h.steps run hle
      rw [hg, hnext.exhausted_iff]
      omega
  steps run hn := by
    have hsteps := h.steps run (by omega)
    rcases hseam run with ⟨hf, -⟩ | ⟨-, after, hafter, hg⟩
    · have hlt := (h.exhausted_iff run).mp hf
      omega
    · have hrest := hnext.steps after (by omega)
      rw [hg]
      omega

/-- The mark of a whole, where its parts roll back to, plays no part. -/
theorem atMark {f : Nat → Run → Verdict × Run} (h : ∀ mark, Spends n (f mark)) :
    Spends n fun run => f run.mark run :=
  ⟨fun run => (h run.mark).exhausted_iff run, fun run => (h run.mark).steps run⟩

end Spends

variable {input : Bytes} {p body item : Pattern} {items : List Pattern} {r : Result}
  {forest : List MatchTree} {pos mid n more maxDepth depth mark least rounds count : Nat}
  {most : Option Nat} {run : Run}

/-- From an offset the pattern takes so many steps, given the captures that it nests. -/
def Takes (input : Bytes) (p : Pattern) (pos n : Nat) : Prop :=
  ∀ maxDepth depth, depth + p.captureDepth ≤ maxDepth →
    Spends n (p.eval maxDepth depth (.within input pos))

/-- The verdict that tells of a result. -/
def Result.verdict (input : Bytes) : Result → Verdict
  | .failure => .failed
  | .success stop _ => .matched (.within input stop)

/-- Nothing is cut short that tells of a result. -/
theorem Result.verdict_ne_exhausted (input : Bytes) (r : Result) :
    r.verdict input ≠ .exhausted := by
  cases r with
  | failure => nofun
  | success stop forest => nofun

/-- An evaluation is cut short or tells of a result of the pattern. -/
theorem eval_cases (p : Pattern) (hpos : pos ≤ input.length) (maxDepth depth : Nat) (run : Run) :
    ∃ after, p.eval maxDepth depth (.within input pos) run = (.exhausted, after) ∨
      ∃ r, p.Yields input pos r ∧
        p.eval maxDepth depth (.within input pos) run = (r.verdict input, after) := by
  have hagrees : Agrees input p pos run.recorded run.recorded
      (p.eval maxDepth depth (.within input pos) run) := agrees_eval p hpos
  generalize p.eval maxDepth depth (.within input pos) run = outcome at hagrees ⊢
  obtain ⟨verdict, after⟩ := outcome
  cases verdict with
  | exhausted => exact ⟨after, .inl rfl⟩
  | failed => exact ⟨after, .inr ⟨.failure, hagrees.1, rfl⟩⟩
  | matched behind =>
    obtain ⟨stop, forest, rfl, hy, -⟩ := hagrees
    exact ⟨after, .inr ⟨.success stop forest, hy, rfl⟩⟩

/-- All evaluations that are not cut short tell of the one result of the pattern. -/
theorem Yields.eval_cases (h : p.Yields input pos r) (hpos : pos ≤ input.length)
    (maxDepth depth : Nat) (run : Run) :
    ∃ after, p.eval maxDepth depth (.within input pos) run = (.exhausted, after) ∨
      p.eval maxDepth depth (.within input pos) run = (r.verdict input, after) := by
  obtain ⟨after, he | ⟨r', hr', he⟩⟩ := p.eval_cases hpos maxDepth depth run
  · exact ⟨after, .inl he⟩
  · exact ⟨after, .inr (h.unique hr' ▸ he)⟩

/-- What takes a number of steps has a result. -/
theorem Takes.exists_yields (h : p.Takes input pos n) (hpos : pos ≤ input.length) :
    ∃ r, p.Yields input pos r := by
  have hspends := h p.captureDepth 0 (Nat.le_of_eq (Nat.zero_add _))
  obtain ⟨after, he | ⟨r, hr, -⟩⟩ := p.eval_cases hpos p.captureDepth 0 { steps := n, room := 0 }
  · exact absurd ((hspends.exhausted_iff _).mp (by rw [he])) (Nat.lt_irrefl n)
  · exact ⟨r, hr⟩

/-! ## Parts of patterns -/

theorem consume_ne_exhausted (condition : Bool) (width : Nat) (place : Place) :
    consume condition width place ≠ .exhausted := by
  cases condition <;> nofun

/-- A test of what lies ahead takes no steps beside that of the pattern. -/
theorem spends_consume (condition : Bool) (width : Nat) (place : Place) :
    Spends 0 fun run => (consume condition width place, run) :=
  .of_ends fun _ => ⟨consume_ne_exhausted condition width place, rfl⟩

/-- The end of a repetition takes no steps. -/
theorem conclude_ends (least mark count : Nat) (place : Place) (run : Run) :
    (conclude least mark count place run).1 ≠ .exhausted ∧
      (conclude least mark count place run).2.steps = run.steps := by
  unfold conclude
  split
  · exact ⟨nofun, rfl⟩
  · exact ⟨nofun, rfl⟩

/-- A predicate takes the steps of its operand. -/
theorem Spends.foresee {f : Run → Verdict × Run} (h : Spends n f) (kind : Lookahead)
    (place : Place) : Spends n fun run => foresee kind place run.mark (f run) := by
  refine h.of_same fun run => ?_
  obtain ⟨verdict, after⟩ := f run
  cases verdict with
  | exhausted => exact ⟨Iff.rfl, rfl⟩
  | failed => exact ⟨iff_of_false (consume_ne_exhausted _ _ _) nofun, rfl⟩
  | matched behind => exact ⟨iff_of_false (consume_ne_exhausted _ _ _) nofun, rfl⟩

/-- A capture takes the steps of its body. -/
theorem Spends.record {f : Run → Verdict × Run} (h : Spends n f) (name : String) (depth : Nat)
    (place : Place) : Spends n fun run =>
      record name depth place run.mark run.room run.attempts (f run.enter) := by
  have henter : Spends n fun run => f run.enter :=
    ⟨fun run => h.exhausted_iff run.enter, fun run => h.steps run.enter⟩
  refine henter.of_same fun run => ?_
  obtain ⟨verdict, after⟩ := f run.enter
  cases verdict with
  | exhausted => exact ⟨Iff.rfl, rfl⟩
  | failed => exact ⟨iff_of_false nofun nofun, rfl⟩
  | matched behind => exact ⟨iff_of_false nofun nofun, rfl⟩

/-- A sequence takes no further steps behind an item that fails. -/
theorem Spends.evalSeq_failure (h : Spends n (item.eval maxDepth depth (.within input pos)))
    (hr : item.Yields input pos .failure) (hpos : pos ≤ input.length) :
    Spends n (evalSeq maxDepth (item :: items) mark depth (.within input pos)) := by
  refine h.of_same fun run => ?_
  obtain ⟨after, he | he⟩ := hr.eval_cases hpos maxDepth depth run
  · simp [evalSeq, he]
  · simp [evalSeq, he, Result.verdict, Run.rollBack]

/-- Behind an item that matches the other items of a sequence add their steps. -/
theorem Spends.evalSeq_cons (h : Spends n (item.eval maxDepth depth (.within input pos)))
    (hr : item.Yields input pos (.success mid forest)) (hpos : pos ≤ input.length)
    (hrest : Spends more (evalSeq maxDepth items mark depth (.within input mid))) :
    Spends (n + more) (evalSeq maxDepth (item :: items) mark depth (.within input pos)) := by
  refine h.andThen hrest fun run => ?_
  obtain ⟨after, he | he⟩ := hr.eval_cases hpos maxDepth depth run
  · exact .inl ⟨by rw [he], by rw [evalSeq, he]⟩
  · have hends : (item.eval maxDepth depth (.within input pos) run).1 ≠ .exhausted := by
      rw [he]
      exact Result.verdict_ne_exhausted input (.success mid forest)
    exact .inr ⟨hends, after, by rw [he], by rw [evalSeq, he]; rfl⟩

/-- A choice takes no further steps behind an alternative that matches. -/
theorem Spends.evalChoice_success (h : Spends n (item.eval maxDepth depth (.within input pos)))
    (hr : item.Yields input pos (.success mid forest)) (hpos : pos ≤ input.length) :
    Spends n (evalChoice maxDepth (item :: items) mark depth (.within input pos)) := by
  refine h.of_same fun run => ?_
  obtain ⟨after, he | he⟩ := hr.eval_cases hpos maxDepth depth run
  · simp [evalChoice, he]
  · simp [evalChoice, he, Result.verdict]

/-- Behind an alternative that fails the other alternatives of a choice add their steps. -/
theorem Spends.evalChoice_cons (h : Spends n (item.eval maxDepth depth (.within input pos)))
    (hr : item.Yields input pos .failure) (hpos : pos ≤ input.length)
    (hrest : Spends more (evalChoice maxDepth items mark depth (.within input pos))) :
    Spends (n + more) (evalChoice maxDepth (item :: items) mark depth (.within input pos)) := by
  refine h.andThen hrest fun run => ?_
  obtain ⟨after, he | he⟩ := hr.eval_cases hpos maxDepth depth run
  · exact .inl ⟨by rw [he], by rw [evalChoice, he]⟩
  · have hends : (item.eval maxDepth depth (.within input pos) run).1 ≠ .exhausted := by
      rw [he]
      exact Result.verdict_ne_exhausted input .failure
    exact .inr ⟨hends, after.rollBack mark, by rw [he]; rfl, by rw [evalChoice, he]; rfl⟩

/-! ## Repetitions -/

/-- A repetition that has all its copies takes no further steps. -/
theorem spends_repeatFrom_full (hfull : most.any (· ≤ count) = true)
    (copy : Place → Run → Verdict × Run) (place : Place) :
    Spends 0 (repeatFrom copy least most mark (rounds + 1) count place) := by
  refine .of_ends fun run => ?_
  rw [repeatFrom, if_pos hfull]
  exact conclude_ends _ _ _ _ _

/-- A copy that fails is the last. -/
theorem Spends.repeatFrom_failure (h : Spends n (body.eval maxDepth depth (.within input pos)))
    (hr : body.Yields input pos .failure) (hpos : pos ≤ input.length)
    (hfull : ¬ most.any (· ≤ count) = true) :
    Spends n (repeatFrom (body.eval maxDepth depth) least most mark (rounds + 1) count
      (.within input pos)) := by
  refine h.of_same fun run => ?_
  rw [repeatFrom, if_neg hfull]
  obtain ⟨after, he | he⟩ := hr.eval_cases hpos maxDepth depth run
  · rw [he]
    exact ⟨Iff.rfl, rfl⟩
  · rw [he]
    exact ⟨iff_of_false (conclude_ends _ _ _ _ _).1 (Result.verdict_ne_exhausted input .failure),
      (conclude_ends _ _ _ _ _).2⟩

/-- A copy that consumes nothing is the last. -/
theorem Spends.repeatFrom_empty (h : Spends n (body.eval maxDepth depth (.within input pos)))
    (hr : body.Yields input pos (.success pos forest)) (hpos : pos ≤ input.length)
    (hfull : ¬ most.any (· ≤ count) = true) :
    Spends n (repeatFrom (body.eval maxDepth depth) least most mark (rounds + 1) count
      (.within input pos)) := by
  refine h.of_same fun run => ?_
  rw [repeatFrom, if_neg hfull]
  obtain ⟨after, he | he⟩ := hr.eval_cases hpos maxDepth depth run
  · rw [he]
    exact ⟨Iff.rfl, rfl⟩
  · rw [he]
    dsimp only [Result.verdict]
    rw [if_pos (beq_self_eq_true _)]
    exact ⟨iff_of_false (conclude_ends _ _ _ _ _).1
      (Result.verdict_ne_exhausted input (.success pos forest)), (conclude_ends _ _ _ _ _).2⟩

/-- Behind a copy that consumes something the others add their steps. -/
theorem Spends.repeatFrom_more (h : Spends n (body.eval maxDepth depth (.within input pos)))
    (hr : body.Yields input pos (.success mid forest)) (hpos : pos ≤ input.length)
    (hne : mid ≠ pos) (hfull : ¬ most.any (· ≤ count) = true)
    (hrest : Spends more (repeatFrom (body.eval maxDepth depth) least most mark rounds (count + 1)
      (.within input mid))) :
    Spends (n + more) (repeatFrom (body.eval maxDepth depth) least most mark (rounds + 1) count
      (.within input pos)) := by
  refine h.andThen hrest fun run => ?_
  rw [repeatFrom, if_neg hfull]
  obtain ⟨after, he | he⟩ := hr.eval_cases hpos maxDepth depth run
  · rw [he]
    exact .inl ⟨rfl, rfl⟩
  · rw [he]
    dsimp only [Result.verdict]
    rw [if_neg (by simpa using hne)]
    exact .inr ⟨Result.verdict_ne_exhausted input (.success mid forest), after, rfl, rfl⟩

/-- The copies that a repetition still makes take a number of steps that does not depend on the
rounds it is given beyond the bytes ahead. -/
theorem exists_spends_repeatFrom (hbody : ∀ pos ≤ input.length, ∃ n, body.Takes input pos n)
    (least : Nat) (most : Option Nat) (count : Nat) (hpos : pos ≤ input.length) :
    ∃ n, ∀ maxDepth depth, depth + body.captureDepth ≤ maxDepth → ∀ mark rounds,
      input.length - pos ≤ rounds →
        Spends n (repeatFrom (body.eval maxDepth depth) least most mark (rounds + 1) count
          (.within input pos)) := by
  -- The bytes ahead are the variant: a copy that is not the last one consumes some of them.
  induction hahead : input.length - pos using Nat.strong_induction_on generalizing pos count with
  | _ ahead ih =>
    subst hahead
    by_cases hfull : most.any (· ≤ count) = true
    · exact ⟨0, fun _ _ _ _ _ _ => spends_repeatFrom_full hfull _ _⟩
    obtain ⟨n, hn⟩ := hbody pos hpos
    obtain ⟨r, hr⟩ := hn.exists_yields hpos
    cases r with
    | failure =>
      exact ⟨n, fun maxDepth depth hdepth _ _ _ =>
        (hn maxDepth depth hdepth).repeatFrom_failure hr hpos hfull⟩
    | success mid forest =>
      by_cases hmid : mid = pos
      · subst hmid
        exact ⟨n, fun maxDepth depth hdepth _ _ _ =>
          (hn maxDepth depth hdepth).repeatFrom_empty hr hpos hfull⟩
      · have hbounds := hr.bounds hpos
        obtain ⟨more, hmore⟩ := ih (input.length - mid) (by omega) (count + 1) hbounds.2 rfl
        refine ⟨n + more, fun maxDepth depth hdepth mark rounds hrounds => ?_⟩
        obtain ⟨rounds, rfl⟩ := Nat.exists_eq_succ_of_ne_zero (show rounds ≠ 0 by omega)
        exact (hn maxDepth depth hdepth).repeatFrom_more hr hpos hmid hfull
          (hmore maxDepth depth hdepth mark rounds (by omega))

/-! ## Whole patterns -/

/-- A pattern without parts takes one step. -/
theorem takes_one {f : Place → Run → Verdict × Run}
    (heval : ∀ maxDepth depth place run, p.eval maxDepth depth place run =
      if run.steps = 0 then (.exhausted, run) else f place run.tick)
    (hf : ∀ place, Spends 0 (f place)) : p.Takes input pos 1 :=
  fun maxDepth depth _ => (hf (.within input pos)).tick (heval maxDepth depth _)

/-- A list nests as many captures as its first pattern or the others do. -/
theorem captureDepth_cons (h : depth + captureDepthOfAll (item :: items) ≤ maxDepth) :
    depth + item.captureDepth ≤ maxDepth ∧ depth + captureDepthOfAll items ≤ maxDepth := by
  rw [captureDepthOfAll] at h
  omega

mutual

/-- From each offset a pattern takes some number of steps. -/
theorem exists_takes : ∀ (p : Pattern) {pos : Nat}, pos ≤ input.length → ∃ n, p.Takes input pos n
  | .literal text, _, _ =>
    ⟨1, takes_one (fun _ _ _ _ => by rw [eval]) fun place => spends_consume _ text.size place⟩
  | .set members, _, _ =>
    ⟨1, takes_one (fun _ _ _ _ => by rw [eval]) fun place => spends_consume _ 1 place⟩
  | .any, pos, _ => by
    refine ⟨1, fun maxDepth depth _ => ?_⟩
    cases hahead : (Place.within input pos).ahead.bytes with
    | nil =>
      have hends : Spends 0 fun run => (.failed, run) := .of_ends fun _ => ⟨nofun, rfl⟩
      exact hends.tick fun run => by rw [eval, hahead]
    | cons b rest =>
      exact (spends_consume true (Utf8.stepWidth b rest) (.within input pos)).tick
        fun run => by rw [eval, hahead]
  | .inputStart, _, _ =>
    ⟨1, takes_one (fun _ _ _ _ => by rw [eval]) fun place => spends_consume _ 0 place⟩
  | .inputEnd, _, _ =>
    ⟨1, takes_one (fun _ _ _ _ => by rw [eval]) fun place => spends_consume _ 0 place⟩
  | .seq items, _, hpos => by
    obtain ⟨n, hn⟩ := exists_spends_evalSeq items hpos
    exact ⟨n + 1, fun maxDepth depth hdepth =>
      (Spends.atMark (hn maxDepth depth hdepth)).tick fun run => by rw [eval]⟩
  | .choice items, _, hpos => by
    obtain ⟨n, hn⟩ := exists_spends_evalChoice items hpos
    exact ⟨n + 1, fun maxDepth depth hdepth =>
      (Spends.atMark (hn maxDepth depth hdepth)).tick fun run => by rw [eval]⟩
  | .repetition body least most, pos, hpos => by
    have hbody (pos : Nat) (hpos : pos ≤ input.length) : ∃ n, body.Takes input pos n :=
      exists_takes body hpos
    obtain ⟨n, hn⟩ := exists_spends_repeatFrom hbody least most 0 hpos
    exact ⟨n + 1, fun maxDepth depth hdepth =>
      (Spends.atMark fun mark => hn maxDepth depth hdepth mark _ (Nat.le_refl _)).tick
        fun run => by rw [eval, Place.size_within]⟩
  | .lookahead kind body, _, hpos => by
    obtain ⟨n, hn⟩ := exists_takes body hpos
    exact ⟨n + 1, fun maxDepth depth hdepth =>
      ((hn maxDepth depth hdepth).foresee kind _).tick fun run => by rw [eval]⟩
  | .transparent body, _, hpos => by
    obtain ⟨n, hn⟩ := exists_takes body hpos
    exact ⟨n + 1, fun maxDepth depth hdepth =>
      (hn maxDepth depth hdepth).tick fun run => by rw [eval]⟩
  | .capture name body, pos, hpos => by
    obtain ⟨n, hn⟩ := exists_takes body hpos
    refine ⟨n + 1, fun maxDepth depth hdepth => ?_⟩
    rw [captureDepth] at hdepth
    have hinside : ¬ maxDepth ≤ depth := by omega
    exact ((hn maxDepth (depth + 1) (by omega)).record name depth (.within input pos)).tick
      fun run => by
        rw [eval]
        dsimp only
        rw [if_neg hinside]

/-- The items of a sequence take some number of steps. -/
theorem exists_spends_evalSeq : ∀ (items : List Pattern) {pos : Nat}, pos ≤ input.length →
    ∃ n, ∀ maxDepth depth, depth + captureDepthOfAll items ≤ maxDepth → ∀ mark,
      Spends n (evalSeq maxDepth items mark depth (.within input pos))
  | [], _, _ => ⟨0, fun _ _ _ _ => .of_ends fun _ => ⟨nofun, rfl⟩⟩
  | item :: items, _, hpos => by
    obtain ⟨n, hn⟩ := exists_takes item hpos
    obtain ⟨r, hr⟩ := hn.exists_yields hpos
    cases r with
    | failure =>
      exact ⟨n, fun maxDepth depth hdepth mark =>
        (hn maxDepth depth (captureDepth_cons hdepth).1).evalSeq_failure hr hpos⟩
    | success mid forest =>
      obtain ⟨more, hmore⟩ := exists_spends_evalSeq items (hr.bounds hpos).2
      exact ⟨n + more, fun maxDepth depth hdepth mark =>
        (hn maxDepth depth (captureDepth_cons hdepth).1).evalSeq_cons hr hpos
          (hmore maxDepth depth (captureDepth_cons hdepth).2 mark)⟩

/-- The alternatives of a choice take some number of steps. -/
theorem exists_spends_evalChoice : ∀ (items : List Pattern) {pos : Nat}, pos ≤ input.length →
    ∃ n, ∀ maxDepth depth, depth + captureDepthOfAll items ≤ maxDepth → ∀ mark,
      Spends n (evalChoice maxDepth items mark depth (.within input pos))
  | [], _, _ => ⟨0, fun _ _ _ _ => .of_ends fun _ => ⟨nofun, rfl⟩⟩
  | item :: items, _, hpos => by
    obtain ⟨n, hn⟩ := exists_takes item hpos
    obtain ⟨r, hr⟩ := hn.exists_yields hpos
    cases r with
    | failure =>
      obtain ⟨more, hmore⟩ := exists_spends_evalChoice items hpos
      exact ⟨n + more, fun maxDepth depth hdepth mark =>
        (hn maxDepth depth (captureDepth_cons hdepth).1).evalChoice_cons hr hpos
          (hmore maxDepth depth (captureDepth_cons hdepth).2 mark)⟩
    | success mid forest =>
      exact ⟨n, fun maxDepth depth hdepth mark =>
        (hn maxDepth depth (captureDepth_cons hdepth).1).evalChoice_success hr hpos⟩

end

/-- At each offset a pattern has a result, which no limit has a part in. -/
theorem exists_yields (p : Pattern) (hpos : pos ≤ input.length) : ∃ r, p.Yields input pos r := by
  obtain ⟨n, hn⟩ := p.exists_takes hpos
  exact hn.exists_yields hpos

end Pattern

namespace Program

open Pattern (Spends Takes Yields Result)

variable {input : Bytes} {p : Program} {pos origin stop n rest maxDepth more : Nat}
  {forest : List MatchTree} {r : Result} {limits : Limits}

/-! ## Searches -/

/-- An attempt takes the steps of the whole pattern. -/
theorem spends_attempt (h : p.root.Takes input pos n) (hdepth : p.root.captureDepth ≤ maxDepth) :
    Spends n (p.attempt maxDepth (.within input pos)) := by
  have heval := h maxDepth 0 (by omega)
  exact ⟨fun run => heval.exhausted_iff { run with captures := #[] },
    fun run => heval.steps { run with captures := #[] }⟩

/-- All attempts that are not cut short tell of the one result of the program. -/
theorem attempt_of_yields (h : p.root.Yields input pos r) (hpos : pos ≤ input.length)
    (maxDepth : Nat) (run : Run) :
    ∃ after, p.attempt maxDepth (.within input pos) run = (.exhausted, after) ∨
      p.attempt maxDepth (.within input pos) run = (r.verdict input, after) :=
  h.eval_cases hpos maxDepth 0 { run with captures := #[] }

/-- A sweep takes no further steps behind an offset where the program matches. -/
theorem spends_sweep_success (h : Spends n (p.attempt maxDepth (.within input pos)))
    (hr : p.root.Yields input pos (.success stop forest)) (hpos : pos ≤ input.length) :
    Spends n (sweep (p.attempt maxDepth) (more + 1) (.within input pos)) := by
  refine h.of_same fun run => ?_
  obtain ⟨after, he | he⟩ := attempt_of_yields hr hpos maxDepth run
  · simp [sweep, he]
  · simp [sweep, he, Result.verdict]

/-- Behind an offset without a match the other offsets of a sweep add their steps. -/
theorem spends_sweep_failure (h : Spends n (p.attempt maxDepth (.within input pos)))
    (hr : p.root.Yields input pos .failure) (hpos : pos ≤ input.length)
    (hrest : Spends rest (sweep (p.attempt maxDepth) more (.within input (pos + 1)))) :
    Spends (n + rest) (sweep (p.attempt maxDepth) (more + 1) (.within input pos)) := by
  refine h.andThen hrest fun run => ?_
  obtain ⟨after, he | he⟩ := attempt_of_yields hr hpos maxDepth run
  · exact .inl ⟨by rw [he], by rw [sweep, he]⟩
  · have hends : (p.attempt maxDepth (.within input pos) run).1 ≠ .exhausted := by
      rw [he]
      exact Result.verdict_ne_exhausted input .failure
    refine .inr ⟨hends, after, by rw [he], ?_⟩
    rw [sweep, he]
    dsimp only [Result.verdict]
    rw [Place.advance_within]

/-- A sweep takes some number of steps. -/
theorem exists_spends_sweep (p : Program) (hlen : pos + more ≤ input.length) :
    ∃ n, ∀ maxDepth, p.root.captureDepth ≤ maxDepth →
      Spends n (sweep (p.attempt maxDepth) more (.within input pos)) := by
  induction more generalizing pos with
  | zero =>
    obtain ⟨n, hn⟩ := p.root.exists_takes hlen
    exact ⟨n, fun _ hdepth => spends_attempt hn hdepth⟩
  | succ more ih =>
    have hpos : pos ≤ input.length := by omega
    obtain ⟨n, hn⟩ := p.root.exists_takes hpos
    obtain ⟨r, hr⟩ := hn.exists_yields hpos
    cases r with
    | failure =>
      obtain ⟨rest, hrest⟩ := ih (by omega : pos + 1 + more ≤ input.length)
      exact ⟨n + rest, fun maxDepth hdepth =>
        spends_sweep_failure (spends_attempt hn hdepth) hr hpos (hrest maxDepth hdepth)⟩
    | success stop forest =>
      exact ⟨n, fun _ hdepth => spends_sweep_success (spends_attempt hn hdepth) hr hpos⟩

/-- What a search tries takes some number of steps. -/
theorem exists_spends_scan (p : Program) (hfrom : origin ≤ input.length) :
    ∃ n, ∀ limits : Limits, p.root.captureDepth ≤ limits.depth →
      Spends n (p.scan input origin limits) := by
  by_cases hanchored : p.root.anchored = true
  · by_cases hzero : origin = 0
    · obtain ⟨n, hn⟩ := p.root.exists_takes (Nat.zero_le input.length)
      refine ⟨n, fun limits hdepth => (spends_attempt hn hdepth).of_same fun run => ?_⟩
      rw [scan, if_pos hanchored, if_pos hzero]
      exact ⟨Iff.rfl, rfl⟩
    · refine ⟨0, fun limits _ => .of_ends fun run => ?_⟩
      rw [scan, if_pos hanchored, if_neg hzero]
      exact ⟨nofun, rfl⟩
  · obtain ⟨n, hn⟩ := p.exists_spends_sweep (Nat.le_of_eq (Nat.add_sub_cancel' hfrom))
    refine ⟨n, fun limits hdepth => (hn limits.depth hdepth).of_same fun run => ?_⟩
    rw [scan, if_neg hanchored]
    exact ⟨Iff.rfl, rfl⟩

/-- A search ends by itself: for a number of steps that depends on the program, the input and the
start alone, it is cut short exactly when it is given fewer, as long as it may nest as many captures
as the program does. The limits have no part in what there is to find: at each offset the program
matches or does not. -/
theorem search_terminates (p : Program) (input : Bytes) (start : Nat) :
    (∀ pos ≤ input.length, ∃ r, p.root.Yields input pos r) ∧
      ∃ enough, ∀ (limits : Limits) (room : Nat), p.root.captureDepth ≤ limits.depth →
        ((p.search input start limits room).1.abend = false ↔ enough ≤ limits.steps) := by
  refine ⟨fun pos hpos => p.root.exists_yields hpos, ?_⟩
  by_cases hfrom : max start 1 - 1 ≤ input.length
  · obtain ⟨enough, henough⟩ := p.exists_spends_scan hfrom
    refine ⟨enough, fun limits room hdepth => ?_⟩
    rw [search_eq hfrom, ← Bool.not_eq_true, abend_outcomeOf,
      (henough limits hdepth).exhausted_iff, Nat.not_lt]
  · refine ⟨0, fun limits room _ => iff_of_true ?_ (Nat.zero_le _)⟩
    have hsize : (Place.start input).ahead.size = input.length := by simp
    rw [search]
    dsimp only
    rw [hsize, if_pos (Nat.not_le.mp hfrom)]

/-- Any number of copies of any number of the letter `a`. -/
def repeatedLetters : Program where
  typeName := "*"
  body := .repetition (.repetition (.literal (.ofBytes [0x61])) 0 none) 0 none
  expression := "\x7b\x7b\"a\"\x7d*\x7d*"

/-- Although a copy of the outer repetition may consume nothing, eight steps are enough for `aab`
and no fewer are. -/
theorem search_terminates_repeatedLetters :
    repeatedLetters.root.captureDepth = 1 ∧
      ∃ enough, enough = 8 ∧
        (repeatedLetters.search [0x61, 0x61, 0x62] 1 ⟨enough, 1⟩ 0).1.abend = false := by
  obtain ⟨-, enough, henough⟩ := repeatedLetters.search_terminates [0x61, 0x61, 0x62] 1
  have hdepth : repeatedLetters.root.captureDepth = 1 := rfl
  have height : enough ≤ 8 := (henough ⟨8, 1⟩ 0 (Nat.le_of_eq hdepth)).mp rfl
  have hseven : ¬ enough ≤ 7 := fun hle =>
    absurd ((henough ⟨7, 1⟩ 0 (Nat.le_of_eq hdepth)).mpr hle) (by decide)
  exact ⟨hdepth, enough, by omega,
    (henough ⟨enough, 1⟩ 0 (Nat.le_of_eq hdepth)).mpr (Nat.le_refl _)⟩

end Program

end PatternEngine
