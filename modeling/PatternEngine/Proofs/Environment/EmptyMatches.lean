import PatternEngine.Proofs.Environment.Compilation
import PatternEngine.Proofs.Match.Nullability

/-!
# The warning about empty matches

Whether something can match without consuming anything is asked of two trees: of an expression as
it was written, whose references are taken to consume, and of the pattern that it stands for, where
nothing is left to look up. A compiled expression comes with the warning by the second answer.

Both trees are gone through in the same way, so the answers can only part at a reference, and a
nullable pattern in place of a reference can only make the whole nullable too. So the first answer
is never yes without the second; where only the second is yes, the expression itself refers to a
binding whose pattern is nullable.
-/

namespace PatternEngine

/-- Recording a match changes nothing about whether it can be empty. -/
theorem Pattern.nullable_captured (p : Pattern) : p.captured.nullable = p.nullable := by
  cases p <;> simp [captured, nullable]

namespace Expr

variable {e : Expr} {es : List Expr}

theorem nullable_seq_cons :
    (seq (e :: es)).nullable = true ↔ e.nullable = true ∧ (seq es).nullable = true := by
  simp [nullable, allNullable]

theorem nullable_choice_cons :
    (choice (e :: es)).nullable = true ↔ e.nullable = true ∨ (choice es).nullable = true := by
  simp [nullable, anyNullable]

theorem nullable_repetition {least : Nat} {most : Option Nat} :
    (repetition e least most).nullable = true ↔ least = 0 ∨ e.nullable = true := by
  simp [nullable]

end Expr

namespace Environment

variable {env : Environment} {owner : Option String} {e : Expr} {p : Pattern} {text : String}
  {compiled : Compiled}

/-- The expression itself refers to a binding whose pattern is nullable. -/
def RefersToNullable (env : Environment) (owner : Option String) (e : Expr) : Prop :=
  ∃ key entry body, env.Refers owner e key ∧ env.binding? key = some entry ∧
    env.Inlines key.owner entry.body body ∧ (entry.around key body).nullable = true

/-- An expression refers to all that its parts refer to. -/
theorem RefersToNullable.mono {e' : Expr} (h : env.RefersToNullable owner e)
    (hsub : e.references ⊆ e'.references) : env.RefersToNullable owner e' := by
  obtain ⟨key, entry, body, ⟨name, pos, found, hm, hr⟩, hbody⟩ := h
  exact ⟨key, entry, body, ⟨name, pos, found, hsub hm, hr⟩, hbody⟩

/-- Without references there is none to a nullable binding. -/
theorem not_refersToNullable_of_references (h : e.references = []) :
    ¬ env.RefersToNullable owner e := by
  rintro ⟨key, entry, body, ⟨name, pos, found, hm, -⟩, -⟩
  simp [h] at hm

/-- Putting patterns in place of references leaves a nullable expression nullable. -/
theorem Inlines.nullable (h : env.Inlines owner e p) (hn : e.nullable = true) :
    p.nullable = true := by
  induction h with
  | literal => simpa [Expr.nullable, Pattern.nullable, SizedBytes.ofBytes] using hn
  | set | any | ref => simp [Expr.nullable] at hn
  | inputStart | inputEnd | lookahead => simp [Pattern.nullable]
  | seqNil => simp [Pattern.nullable, Pattern.allNullable]
  | seqCons _ _ ih ihr =>
    obtain ⟨hfirst, hrest⟩ := Expr.nullable_seq_cons.mp hn
    exact Pattern.nullable_seq_cons.mpr ⟨ih hfirst, ihr hrest⟩
  | choiceNil => simp [Expr.nullable, Expr.anyNullable] at hn
  | choiceCons _ _ ih ihr =>
    exact Pattern.nullable_choice_cons.mpr ((Expr.nullable_choice_cons.mp hn).imp ih ihr)
  | repetition _ ih =>
    exact Pattern.nullable_repetition.mpr ((Expr.nullable_repetition.mp hn).imp_right ih)

/-- Where a pattern is nullable, the expression is, unless it refers to a nullable binding. -/
theorem Inlines.nullable_or_refersToNullable (h : env.Inlines owner e p)
    (hn : p.nullable = true) : e.nullable = true ∨ env.RefersToNullable owner e := by
  induction h with
  | literal =>
    exact .inl (by simpa [Expr.nullable, Pattern.nullable, SizedBytes.ofBytes] using hn)
  | set | any => simp [Pattern.nullable] at hn
  | inputStart | inputEnd | lookahead => exact .inl (by simp [Expr.nullable])
  | seqNil => exact .inl (by simp [Expr.nullable, Expr.allNullable])
  | seqCons _ _ ih ihr =>
    -- Every item is nullable, so one reference to blame is enough.
    obtain ⟨hfirst, hrest⟩ := Pattern.nullable_seq_cons.mp hn
    rcases ih hfirst with hfirst | hblame
    · rcases ihr hrest with hrest | hblame
      · exact .inl (Expr.nullable_seq_cons.mpr ⟨hfirst, hrest⟩)
      · exact .inr (hblame.mono (List.subset_append_right _ _))
    · exact .inr (hblame.mono (List.subset_append_left _ _))
  | choiceNil => simp [Pattern.nullable, Pattern.anyNullable] at hn
  | choiceCons _ _ ih ihr =>
    -- One alternative is nullable, and it alone has to be looked at.
    rcases Pattern.nullable_choice_cons.mp hn with hfirst | hrest
    · rcases ih hfirst with hfirst | hblame
      · exact .inl (Expr.nullable_choice_cons.mpr (.inl hfirst))
      · exact .inr (hblame.mono (List.subset_append_left _ _))
    · rcases ihr hrest with hrest | hblame
      · exact .inl (Expr.nullable_choice_cons.mpr (.inr hrest))
      · exact .inr (hblame.mono (List.subset_append_right _ _))
  | repetition _ ih =>
    rcases Pattern.nullable_repetition.mp hn with hleast | hbody
    · exact .inl (Expr.nullable_repetition.mpr (.inl hleast))
    · exact (ih hbody).imp (fun hbody => Expr.nullable_repetition.mpr (.inr hbody)) id
  | @ref owner name pos key entry p hr h _ =>
    have hrefers : env.Refers owner (.ref name pos) key :=
      ⟨name, pos, entry, by simp [Expr.references], hr⟩
    exact .inr ⟨key, entry, p, hrefers, hr.binding?_eq, h, hn⟩

/-- An expression that is compiled stands for a pattern, and there is the warning exactly when
this pattern is nullable. -/
theorem exists_inlines_of_compile (h : env.compile text = .ok compiled) :
    ∃ e p, Expr.ofText text = .ok e ∧ env.Inlines none e p ∧
      (emptyMatchWarning text ∈ compiled.warnings ↔ p.nullable = true) := by
  have hwarns := mem_warnings_iff h
  unfold compile at h
  split at h
  · cases h
  · rename_i e he
    obtain ⟨p, hp, -, hprogram⟩ := inlines_of_compileExpr h
    rw [hprogram, Program.root_ofPattern, Pattern.nullable_captured] at hwarns
    exact ⟨e, p, he, hp, hwarns⟩

/-- Where a nullable expression is compiled, there is the warning about empty matches. Where an
expression is compiled that refers to no nullable binding, as one without references does, there is
the warning only if the expression is nullable. -/
theorem nullability_agrees (h : env.compile text = .ok compiled) :
    ∃ e, Expr.ofText text = .ok e ∧
      (e.nullable = true → emptyMatchWarning text ∈ compiled.warnings) ∧
      (¬ env.RefersToNullable none e → emptyMatchWarning text ∈ compiled.warnings →
        e.nullable = true) ∧
      (e.references = [] → (emptyMatchWarning text ∈ compiled.warnings ↔ e.nullable = true)) := by
  obtain ⟨e, p, he, hp, hwarns⟩ := exists_inlines_of_compile h
  have hnullable : e.nullable = true → emptyMatchWarning text ∈ compiled.warnings :=
    fun hn => hwarns.mpr (hp.nullable hn)
  have honly : ¬ env.RefersToNullable none e → emptyMatchWarning text ∈ compiled.warnings →
      e.nullable = true :=
    fun hnone hw => (hp.nullable_or_refersToNullable (hwarns.mp hw)).resolve_right hnone
  exact ⟨e, he, hnullable, honly, fun hrefs =>
    ⟨honly (not_refersToNullable_of_references hrefs), hnullable⟩⟩

/-- A binding that consumes, and an alias of any number of copies of it, which need not. -/
def blanksBound : Environment where
  top.bindings := ⟨[("blank", ⟨.literal [0x20], false, false⟩),
    ("blanks", ⟨.repetition (.ref ⟨none, "blank"⟩ 1) 0 none, true, false⟩)]⟩

/-- At most one blank, and none behind it. -/
def oneBlank : Expr :=
  .seq [.repetition (.ref ⟨none, "blank"⟩ 2) 0 (some 1),
    .lookahead .absent (.ref ⟨none, "blank"⟩ 10)]

/-- Both references are to the binding that consumes. -/
theorem not_refersToNullable_oneBlank : ¬ blanksBound.RefersToNullable none oneBlank := by
  rintro ⟨key, entry, body, ⟨name, pos, found, hm, hr⟩, hentry, hbody, hn⟩
  obtain rfl : name = ⟨none, "blank"⟩ := by
    simp only [oneBlank, Expr.references, Expr.referencesOfAll, List.append_nil,
      List.singleton_append, List.mem_cons, Prod.mk.injEq, List.not_mem_nil, or_false] at hm
    exact hm.elim (·.1) (·.1)
  have hlookup : blanksBound.lookup ⟨none, "blank"⟩ none =
      .ok (⟨none, "blank"⟩, ⟨.literal [0x20], false, false⟩) := by cbv
  obtain ⟨rfl, rfl⟩ := hr.unique (lookup_eq_ok.mp hlookup)
  cases hr.binding?_eq.symm.trans hentry
  cases hbody
  cases hn

/-- The first expression is nullable whatever its references stand for, the second only because of
what its reference stands for, and the third has no references. -/
theorem nullability_agrees_blanks :
    (∃ compiled, blanksBound.compile "(blank? !blank)" = .ok compiled ∧
      ¬ blanksBound.RefersToNullable none oneBlank ∧
      emptyMatchWarning "(blank? !blank)" ∈ compiled.warnings ∧ oneBlank.nullable = true) ∧
      (∃ compiled, blanksBound.compile "blanks" = .ok compiled ∧
        (Expr.ref ⟨none, "blanks"⟩ 1).nullable = false ∧
        emptyMatchWarning "blanks" ∈ compiled.warnings ∧
        blanksBound.RefersToNullable none (.ref ⟨none, "blanks"⟩ 1)) ∧
      ∃ compiled, blanksBound.compile "(^ .*)" = .ok compiled ∧
        emptyMatchWarning "(^ .*)" ∈ compiled.warnings := by
  refine ⟨?_, ?_, ?_⟩
  · have hcompile : blanksBound.compile "(blank? !blank)" =
        .ok ⟨⟨"*", .seq [.repetition (.capture "blank" (.literal (.ofBytes [0x20]))) 0 (some 1),
          .lookahead .absent (.capture "blank" (.literal (.ofBytes [0x20])))],
          "(blank? !blank)"⟩, [emptyMatchWarning "(blank? !blank)"]⟩ := by cbv
    have hread : Expr.ofText "(blank? !blank)" = .ok oneBlank := by cbv
    obtain ⟨e, he, hwarns, honly, -⟩ := nullability_agrees hcompile
    cases hread.symm.trans he
    have hw := hwarns rfl
    exact ⟨_, hcompile, not_refersToNullable_oneBlank, hw,
      honly not_refersToNullable_oneBlank hw⟩
  · have hcompile : blanksBound.compile "blanks" =
        .ok ⟨⟨"*", .transparent (.repetition (.capture "blank" (.literal (.ofBytes [0x20]))) 0
          none), "blanks"⟩, [emptyMatchWarning "blanks"]⟩ := by cbv
    have hread : Expr.ofText "blanks" = .ok (.ref ⟨none, "blanks"⟩ 1) := by cbv
    obtain ⟨e, he, -, honly, -⟩ := nullability_agrees hcompile
    cases hread.symm.trans he
    have hw : emptyMatchWarning "blanks" ∈ [emptyMatchWarning "blanks"] := List.mem_cons_self
    refine ⟨_, hcompile, rfl, hw, ?_⟩
    by_contra hnone
    cases honly hnone hw
  · have hcompile : blanksBound.compile "(^ .*)" =
        .ok ⟨⟨"*", .seq [.inputStart, .repetition .any 0 none],
          "(^ .*)"⟩, [emptyMatchWarning "(^ .*)"]⟩ := by cbv
    have hread : Expr.ofText "(^ .*)" =
        .ok (.seq [.inputStart, .repetition .any 0 none]) := by cbv
    obtain ⟨e, he, -, -, hplain⟩ := nullability_agrees hcompile
    cases hread.symm.trans he
    exact ⟨_, hcompile, (hplain rfl).mpr rfl⟩

end Environment

end PatternEngine
