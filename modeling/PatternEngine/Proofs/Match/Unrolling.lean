import PatternEngine.Proofs.Match.Termination

/-!
# Repetitions unrolled

A repetition with bounds is as many copies of its body as there must be, one after the other, and
then as many optional copies as there may be more, each inside the one before it. The two match at
the same offsets and end at the same offset, although a repetition stops at a copy that consumes
nothing while its unrolling goes on: from there on each copy consumes nothing again. What they
record may differ for the same reason.

Without an upper bound there are at most as many copies that consume something as there are bytes
ahead, so a bound beyond that changes nothing.
-/

namespace PatternEngine.Pattern

/-- The offset where a match ends. -/
def Result.stop? : Result → Option Nat
  | .failure => none
  | .success stop _ => some stop

/-- Optional copies, each with the others inside it. -/
def optionals (body : Pattern) : Nat → List Pattern
  | 0 => []
  | n + 1 => [.repetition (.seq (body :: optionals body n)) 0 (some 1)]

/-- So many copies, and then so many optional ones. -/
def unrolled (body : Pattern) (least optional : Nat) : Pattern :=
  .seq (List.replicate least body ++ optionals body optional)

variable {input : Bytes} {body : Pattern} {items : List Pattern} {least extra pos stop : Nat}
  {most : Option Nat} {r : Result} {forest : List MatchTree}

@[simp] theorem Result.stop?_behind (forest : List MatchTree) (r : Result) :
    (r.behind forest).stop? = r.stop? := by
  cases r <;> rfl

/-- The pattern matches up to an offset, or it does not match. -/
def Ends (input : Bytes) (p : Pattern) (pos : Nat) (stop? : Option Nat) : Prop :=
  ∃ r, p.Yields input pos r ∧ r.stop? = stop?

theorem Yields.ends {p : Pattern} (h : p.Yields input pos r) : p.Ends input pos r.stop? :=
  ⟨r, h, rfl⟩

theorem Ends.exists_success {p : Pattern} (h : p.Ends input pos (some stop)) :
    ∃ forest, p.Yields input pos (.success stop forest) := by
  obtain ⟨r, hr, hstop⟩ := h
  cases r with
  | failure => cases hstop
  | success stop' forest =>
    cases hstop
    exact ⟨forest, hr⟩

/-- A sequence ends where its rest does behind a first item that matches. -/
theorem Ends.seq_cons {item : Pattern} {mid : Nat} {stop? : Option Nat}
    (hrest : (Pattern.seq items).Ends input mid stop?)
    (h : item.Yields input pos (.success mid forest)) :
    (Pattern.seq (item :: items)).Ends input pos stop? := by
  obtain ⟨r, hr, rfl⟩ := hrest
  exact ⟨_, .seqCons h hr, by simp⟩

/-- A sequence of one optional part ends where the part does, or where it starts. -/
theorem ends_optional {p : Pattern} {stop? : Option Nat} (h : p.Ends input pos stop?) :
    (Pattern.seq [.repetition p 0 (some 1)]).Ends input pos (some (stop?.getD pos)) := by
  suffices hrep : (Pattern.repetition p 0 (some 1)).Ends input pos (some (stop?.getD pos)) by
    obtain ⟨forest, hy⟩ := hrep.exists_success
    exact (Yields.ends .seqNil).seq_cons hy
  obtain ⟨r, hr, rfl⟩ := h
  cases r with
  | failure => exact (Yields.repetitionDone (by simp) hr).ends
  | success stop forest =>
    by_cases hstop : stop = pos
    · subst hstop
      exact (Yields.repetitionEmpty (by simp) hr).ends
    · have hfull : (Pattern.repetition p (0 - 1) ((some 1).map (· - 1))).Yields input stop
          (.success stop []) := .repetitionFull
      exact (Yields.repetitionMore (by simp) hr hstop hfull).ends

/-- A repetition that needs no copies always matches. -/
theorem Yields.exists_success_of_zero (h : (Pattern.repetition body 0 most).Yields input pos r) :
    ∃ stop forest, r = .success stop forest := by
  generalize hp : Pattern.repetition body 0 most = p at h
  induction h generalizing most with
  | repetitionFull | repetitionDone =>
    cases hp
    exact ⟨_, _, rfl⟩
  | repetitionEmpty =>
    exact ⟨_, _, rfl⟩
  | repetitionMore _ _ _ _ _ ihr =>
    cases hp
    obtain ⟨stop, later, rfl⟩ := ihr rfl
    exact ⟨_, _, rfl⟩
  | _ => cases hp

/-- Where the body matches without consuming anything, so does every repetition of it that allows
the copies it needs. -/
theorem ends_repetition_of_empty (h : body.Yields input pos (.success pos forest))
    (hbounds : ∀ m ∈ most, least ≤ m) :
    (Pattern.repetition body least most).Ends input pos (some pos) := by
  by_cases hm : most = some 0
  · subst hm
    obtain rfl : least = 0 := Nat.le_zero.mp (hbounds 0 rfl)
    exact Yields.ends .repetitionFull
  · exact (Yields.repetitionEmpty hm h).ends

/-- Optional copies end where the repetition of as many copies at most does. -/
theorem ends_optionals (hpos : pos ≤ input.length)
    (h : (Pattern.repetition body 0 (some extra)).Yields input pos r) :
    (Pattern.seq (optionals body extra)).Ends input pos r.stop? := by
  induction extra generalizing pos r with
  | zero =>
    cases h with
    | repetitionFull => exact Yields.ends .seqNil
    | repetitionDone hm _ | repetitionEmpty hm _ | repetitionMore hm _ _ _ => exact absurd rfl hm
  | succ extra ih =>
    cases h with
    | repetitionDone _ hbody => exact ends_optional (Yields.seqFailure hbody).ends
    | repetitionEmpty _ hbody =>
      -- The other copies are empty as well.
      have hends : (Pattern.repetition body 0 (some extra)).Ends input pos (some pos) :=
        ends_repetition_of_empty hbody (by simp)
      obtain ⟨later, hrest⟩ := hends.exists_success
      exact ends_optional ((ih hpos hrest).seq_cons hbody)
    | repetitionMore _ hbody _ hrest =>
      obtain ⟨stop, later, rfl⟩ := hrest.exists_success_of_zero
      exact ends_optional ((ih (hbody.bounds hpos).2 hrest).seq_cons hbody)

/-- The unrolling of a repetition ends where the repetition does. -/
theorem ends_unrolled (hpos : pos ≤ input.length)
    (h : (Pattern.repetition body least (some (least + extra))).Yields input pos r) :
    (unrolled body least extra).Ends input pos r.stop? := by
  induction least generalizing pos r with
  | zero => simpa [unrolled] using ends_optionals hpos (by simpa using h)
  | succ least ih =>
    rw [Nat.add_right_comm] at h
    simp only [unrolled, List.replicate_succ, List.cons_append] at ih ⊢
    cases h with
    | repetitionDone _ hbody => exact (Yields.seqFailure hbody).ends
    | repetitionEmpty _ hbody =>
      have hends : (Pattern.repetition body least (some (least + extra))).Ends input pos
          (some pos) := ends_repetition_of_empty hbody (by simp)
      obtain ⟨later, hrest⟩ := hends.exists_success
      exact (ih hpos hrest).seq_cons hbody
    | repetitionMore _ hbody _ hrest =>
      simpa using (ih (hbody.bounds hpos).2 hrest).seq_cons hbody

/-- An upper bound beyond the bytes ahead is no bound. -/
theorem Yields.bounded {m : Nat} (h : (Pattern.repetition body least none).Yields input pos r)
    (hpos : pos ≤ input.length) (hm : input.length - pos < m) :
    (Pattern.repetition body least (some m)).Yields input pos r := by
  generalize hp : Pattern.repetition body least none = p at h
  induction h generalizing least m with
  | repetitionFull => cases hp
  | repetitionDone _ hbody =>
    cases hp
    exact .repetitionDone (by simp; omega) hbody
  | repetitionEmpty _ hbody =>
    cases hp
    exact .repetitionEmpty (by simp; omega) hbody
  | @repetitionMore _ _ _ mid _ _ _ _ hbody hne _ _ ihr =>
    cases hp
    have hmid := hbody.bounds hpos
    have hless : input.length - mid < m - 1 := by omega
    exact .repetitionMore (by simp; omega) hbody hne (ihr hmid.2 hless rfl)
  | _ => cases hp

/-- Patterns that end alike at an offset have the same verdict in all evaluations there that no
limit cuts short. -/
theorem verdict_eq_of_ends {p q : Pattern} (hpos : pos ≤ input.length)
    (h : ∀ r, p.Yields input pos r → q.Ends input pos r.stop?)
    {maxDepth depth maxDepth' depth' : Nat} {run run' : Run}
    (hp : (p.eval maxDepth depth (.within input pos) run).1 ≠ .exhausted)
    (hq : (q.eval maxDepth' depth' (.within input pos) run').1 ≠ .exhausted) :
    (p.eval maxDepth depth (.within input pos) run).1 =
      (q.eval maxDepth' depth' (.within input pos) run').1 := by
  obtain ⟨after, he | ⟨r, hr, he⟩⟩ := p.eval_cases hpos maxDepth depth run
  · exact absurd (by rw [he]) hp
  obtain ⟨r', hr', hstop⟩ := h r hr
  obtain ⟨after', he' | he'⟩ := hr'.eval_cases hpos maxDepth' depth' run'
  · exact absurd (by rw [he']) hq
  rw [he, he']
  cases r with
  | failure =>
    cases r' with
    | failure => rfl
    | success => cases hstop
  | success =>
    cases r' with
    | failure => cases hstop
    | success =>
      cases hstop
      rfl

/-- The letter `x`, or nothing. -/
def letterOrNothing : Pattern := .choice [.literal (.ofBytes [0x78]), .literal (.ofBytes [])]

end PatternEngine.Pattern
