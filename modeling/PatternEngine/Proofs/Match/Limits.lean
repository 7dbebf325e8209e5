import PatternEngine.Match.Search

/-!
# Larger limits

An evaluation that no limit cuts short does not show how much the limits left: with more steps at
its start, more captures allowed or other room in the log it ends the same way, leaves the same
stack of recorded matches and takes the same number of steps.

Two evaluations are followed side by side. The second has recorded what the first has and is ahead
by a fixed number of steps, and each operation of the machine keeps it so. That no evaluation gains
steps is carried along: the steps that the first has left stay within a budget.
-/

namespace PatternEngine

/-- The run keeps within a budget of steps, and the other run has recorded the same matches and has
so many more steps left. -/
structure Run.Leads (more budget : Nat) (run other : Run) : Prop where
  captures : other.captures = run.captures
  steps : other.steps = run.steps + more
  budget : run.steps ≤ budget

namespace Run.Leads

variable {more budget : Nat} {run other : Run}

theorem mark (h : run.Leads more budget other) : other.mark = run.mark := by
  rw [Run.mark, Run.mark, h.captures]

theorem tick (h : run.Leads more budget other) (hsteps : run.steps ≠ 0) :
    run.tick.Leads more budget other.tick where
  captures := h.captures
  steps := by
    have hs := h.steps
    simp only [Run.tick]
    omega
  budget := Nat.le_trans (Nat.sub_le _ _) h.budget

theorem rollBack (h : run.Leads more budget other) (mark : Nat) :
    (run.rollBack mark).Leads more budget (other.rollBack mark) where
  captures := by rw [Run.rollBack, Run.rollBack, h.captures]
  steps := h.steps
  budget := h.budget

theorem gather (h : run.Leads more budget other) (mark : Nat) (name : String) (start stop : Nat) :
    (run.gather mark name start stop).Leads more budget (other.gather mark name start stop) where
  captures := by simp only [Run.gather, h.captures]
  steps := h.steps
  budget := h.budget

theorem enter (h : run.Leads more budget other) : run.enter.Leads more budget other.enter where
  captures := h.captures
  steps := h.steps
  budget := h.budget

theorem leave (h : run.Leads more budget other) (room room' : Nat) (noted noted' : List Attempt)
    (attempt : Attempt) :
    (run.leave room noted attempt).Leads more budget (other.leave room' noted' attempt) where
  captures := h.captures
  steps := h.steps
  budget := h.budget

end Run.Leads

namespace Pattern

/-- The first outcome was cut short, or the second has the same verdict and a run that leads. -/
def Outlasts (more budget : Nat) : Verdict × Run → Verdict × Run → Prop
  | (.exhausted, _), _ => True
  | (verdict, run), (verdict', run') => verdict' = verdict ∧ run.Leads more budget run'

variable {more budget maxDepth maxDepth' : Nat} {run other : Run}
  {outcome outcome' : Verdict × Run}

/-- An outcome that was not cut short is the verdict of both evaluations. -/
theorem Outlasts.same (h : Outlasts more budget outcome outcome') (hv : outcome.1 ≠ .exhausted) :
    outcome'.1 = outcome.1 ∧ outcome.2.Leads more budget outcome'.2 := by
  obtain ⟨verdict, run⟩ := outcome
  cases verdict with
  | exhausted => exact absurd rfl hv
  | failed => exact h
  | matched behind => exact h

/-- What records nothing ends alike in both runs. -/
theorem outlasts_of_leads (h : run.Leads more budget other) (verdict : Verdict) :
    Outlasts more budget (verdict, run) (verdict, other) := by
  cases verdict with
  | exhausted => trivial
  | failed => exact ⟨rfl, h⟩
  | matched behind => exact ⟨rfl, h⟩

/-- Where the first run still has a step, so has the second. -/
theorem outlasts_tick (h : run.Leads more budget other)
    (hnext : run.tick.Leads more budget other.tick → Outlasts more budget outcome outcome') :
    Outlasts more budget (if run.steps = 0 then (.exhausted, run) else outcome)
      (if other.steps = 0 then (.exhausted, other) else outcome') := by
  by_cases hs : run.steps = 0
  · rw [if_pos hs]
    trivial
  · have hs' : other.steps ≠ 0 := by
      have he := h.steps
      omega
    rw [if_neg hs, if_neg hs']
    exact hnext (h.tick hs)

theorem outlasts_conclude (h : run.Leads more budget other) (least mark count : Nat)
    (place : Place) : Outlasts more budget (conclude least mark count place run)
      (conclude least mark count place other) := by
  unfold conclude
  split
  · exact ⟨rfl, h.rollBack mark⟩
  · exact ⟨rfl, h⟩

theorem outlasts_foresee (h : Outlasts more budget outcome outcome') (kind : Lookahead)
    (place : Place) (mark : Nat) :
    Outlasts more budget (foresee kind place mark outcome) (foresee kind place mark outcome') := by
  obtain ⟨verdict, run⟩ := outcome
  cases verdict with
  | exhausted => trivial
  | failed =>
    obtain ⟨verdict', run'⟩ := outcome'
    obtain ⟨rfl, hr⟩ := h
    exact outlasts_of_leads (hr.rollBack mark) _
  | matched behind =>
    obtain ⟨verdict', run'⟩ := outcome'
    obtain ⟨rfl, hr⟩ := h
    exact outlasts_of_leads (hr.rollBack mark) _

theorem outlasts_record (h : Outlasts more budget outcome outcome') (name : String) (depth : Nat)
    (place : Place) (mark room room' : Nat) (noted noted' : List Attempt) :
    Outlasts more budget (record name depth place mark room noted outcome)
      (record name depth place mark room' noted' outcome') := by
  obtain ⟨verdict, run⟩ := outcome
  cases verdict with
  | exhausted => trivial
  | failed =>
    obtain ⟨verdict', run'⟩ := outcome'
    obtain ⟨rfl, hr⟩ := h
    exact ⟨rfl, (hr.leave ..).rollBack mark⟩
  | matched behind =>
    obtain ⟨verdict', run'⟩ := outcome'
    obtain ⟨rfl, hr⟩ := h
    exact ⟨rfl, (hr.leave ..).gather ..⟩

/-- The copies of a repetition end alike when each copy does. -/
theorem outlasts_repeatFrom {copy copy' : Place → Run → Verdict × Run}
    (hcopy : ∀ (place : Place) (run other : Run), run.Leads more budget other →
      Outlasts more budget (copy place run) (copy' place other))
    {least mark rounds : Nat} {most : Option Nat} :
    ∀ {count : Nat} {place : Place} {run other : Run}, run.Leads more budget other →
      Outlasts more budget (repeatFrom copy least most mark rounds count place run)
        (repeatFrom copy' least most mark rounds count place other) := by
  induction rounds with
  | zero =>
    intro count place run other h
    exact outlasts_conclude h least mark count place
  | succ rounds ih =>
    intro count place run other h
    rw [repeatFrom, repeatFrom]
    by_cases hfull : most.any (· ≤ count) = true
    · rw [if_pos hfull, if_pos hfull]
      exact outlasts_conclude h least mark count place
    · rw [if_neg hfull, if_neg hfull]
      have hb := hcopy place run other h
      cases hc : copy place run with
      | mk verdict after =>
        cases hc' : copy' place other with
        | mk verdict' after' =>
          rw [hc, hc'] at hb
          cases verdict with
          | exhausted => trivial
          | failed =>
            obtain ⟨rfl, hr⟩ := hb
            dsimp only
            rw [h.mark]
            exact outlasts_conclude (hr.rollBack run.mark) least mark count place
          | matched behind =>
            obtain ⟨rfl, hr⟩ := hb
            dsimp only
            by_cases hstay : behind.pos == place.pos
            · rw [if_pos hstay, if_pos hstay]
              exact outlasts_conclude hr least mark (max count least) behind
            · rw [if_neg hstay, if_neg hstay]
              exact ih hr

mutual

/-- Evaluating a pattern with larger limits ends alike. -/
theorem outlasts_eval (hdepth : maxDepth ≤ maxDepth') : ∀ (p : Pattern) {depth : Nat}
    {place : Place} {run other : Run}, run.Leads more budget other →
    Outlasts more budget (p.eval maxDepth depth place run) (p.eval maxDepth' depth place other)
  | .literal text, _, _, _, _, h => by
    rw [eval, eval]
    exact outlasts_tick h fun hr => outlasts_of_leads hr _
  | .set members, _, _, _, _, h => by
    rw [eval, eval]
    exact outlasts_tick h fun hr => outlasts_of_leads hr _
  | .any, _, place, _, _, h => by
    rw [eval, eval]
    refine outlasts_tick h fun hr => ?_
    dsimp only
    split
    · exact outlasts_of_leads hr _
    · exact outlasts_of_leads hr _
  | .inputStart, _, _, _, _, h => by
    rw [eval, eval]
    exact outlasts_tick h fun hr => outlasts_of_leads hr _
  | .inputEnd, _, _, _, _, h => by
    rw [eval, eval]
    exact outlasts_tick h fun hr => outlasts_of_leads hr _
  | .seq items, _, _, _, _, h => by
    rw [eval, eval]
    refine outlasts_tick h fun hr => ?_
    dsimp only
    rw [hr.mark]
    exact outlasts_evalSeq hdepth items hr
  | .choice alternatives, _, _, _, _, h => by
    rw [eval, eval]
    refine outlasts_tick h fun hr => ?_
    dsimp only
    rw [hr.mark]
    exact outlasts_evalChoice hdepth alternatives hr
  | .repetition body least most, depth, _, _, _, h => by
    rw [eval, eval]
    refine outlasts_tick h fun hr => ?_
    have hcopy (place : Place) (run other : Run) (h : run.Leads more budget other) :
        Outlasts more budget (body.eval maxDepth depth place run)
          (body.eval maxDepth' depth place other) :=
      outlasts_eval hdepth body h
    dsimp only
    rw [hr.mark]
    exact outlasts_repeatFrom hcopy hr
  | .lookahead kind body, _, place, _, _, h => by
    rw [eval, eval]
    refine outlasts_tick h fun hr => ?_
    dsimp only
    rw [hr.mark]
    exact outlasts_foresee (outlasts_eval hdepth body hr) kind place _
  | .transparent body, _, _, _, _, h => by
    rw [eval, eval]
    exact outlasts_tick h fun hr => outlasts_eval hdepth body hr
  | .capture name body, depth, place, _, _, h => by
    rw [eval, eval]
    refine outlasts_tick h fun hr => ?_
    dsimp only
    by_cases hd : maxDepth ≤ depth
    · rw [if_pos hd]
      trivial
    · rw [if_neg hd, hr.mark]
      by_cases hd' : maxDepth' ≤ depth
      · exact absurd (Nat.le_trans hdepth hd') hd
      · rw [if_neg hd']
        exact outlasts_record (outlasts_eval hdepth body hr.enter) ..

/-- Evaluating the items of a sequence with larger limits ends alike. -/
theorem outlasts_evalSeq (hdepth : maxDepth ≤ maxDepth') : ∀ (items : List Pattern)
    {mark depth : Nat} {place : Place} {run other : Run}, run.Leads more budget other →
    Outlasts more budget (evalSeq maxDepth items mark depth place run)
      (evalSeq maxDepth' items mark depth place other)
  | [], _, _, _, _, _, h => ⟨rfl, h⟩
  | item :: items, mark, depth, place, run, other, h => by
    rw [evalSeq, evalSeq]
    have hi : Outlasts more budget (item.eval maxDepth depth place run)
        (item.eval maxDepth' depth place other) := outlasts_eval hdepth item h
    cases he : item.eval maxDepth depth place run with
    | mk verdict after =>
      cases he' : item.eval maxDepth' depth place other with
      | mk verdict' after' =>
        rw [he, he'] at hi
        cases verdict with
        | exhausted => trivial
        | failed =>
          obtain ⟨rfl, hr⟩ := hi
          exact ⟨rfl, hr.rollBack mark⟩
        | matched behind =>
          obtain ⟨rfl, hr⟩ := hi
          exact outlasts_evalSeq hdepth items hr

/-- Evaluating alternatives with larger limits ends alike. -/
theorem outlasts_evalChoice (hdepth : maxDepth ≤ maxDepth') : ∀ (items : List Pattern)
    {mark depth : Nat} {place : Place} {run other : Run}, run.Leads more budget other →
    Outlasts more budget (evalChoice maxDepth items mark depth place run)
      (evalChoice maxDepth' items mark depth place other)
  | [], _, _, _, _, _, h => ⟨rfl, h⟩
  | item :: items, mark, depth, place, run, other, h => by
    rw [evalChoice, evalChoice]
    have hi : Outlasts more budget (item.eval maxDepth depth place run)
        (item.eval maxDepth' depth place other) := outlasts_eval hdepth item h
    cases he : item.eval maxDepth depth place run with
    | mk verdict after =>
      cases he' : item.eval maxDepth' depth place other with
      | mk verdict' after' =>
        rw [he, he'] at hi
        cases verdict with
        | exhausted => trivial
        | failed =>
          obtain ⟨rfl, hr⟩ := hi
          exact outlasts_evalChoice hdepth items (hr.rollBack mark)
        | matched behind =>
          obtain ⟨rfl, hr⟩ := hi
          exact ⟨rfl, hr⟩

end

end Pattern

end PatternEngine
