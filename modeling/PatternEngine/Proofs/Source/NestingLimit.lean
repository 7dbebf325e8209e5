import PatternEngine.Proofs.Source.Grammar
import PatternEngine.Proofs.Source.Statements

/-!
# What the limit on nesting bounds

Texts and sources that are well formed are read if the load of their expressions is within the
limit, and refused for their nesting if it is not. The load is not the nesting: a reader gives back
the levels inside an operand before it comes to the repetition marks behind it. So nothing is
refused whose nesting is within the limit, and where operands that open levels are repeated the
nesting of what is read can go beyond the limit.
-/

namespace PatternEngine

/-- The outcome is a violation for nesting too deep. -/
def RefusedForNesting {α : Type} (result : Except Violation α) : Prop :=
  ∃ place : Cursor, result = .error (ParseError.toViolation ⟨.nestingTooDeep, place⟩)

theorem TooDeep.refused {α : Type} {x : Except ParseError α} (h : TooDeep x) :
    RefusedForNesting (x.mapError ParseError.toViolation) := by
  obtain ⟨place, rfl⟩ := h
  exact ⟨place, rfl⟩

namespace Written

/-- The alternatives of an expression, each of them the items of a sequence. -/
abbrev Body := List (List Written)

variable {text : Bytes} {body : Body} {bodies : List Body} {e : Expr}

/-- The greatest load of some expressions. -/
def greatestLoad (bodies : List Body) : Nat := (bodies.map loadOf).foldr max 0

@[simp] theorem greatestLoad_nil : greatestLoad [] = 0 := rfl

@[simp] theorem greatestLoad_cons (body : Body) (bodies : List Body) :
    greatestLoad (body :: bodies) = max (loadOf body) (greatestLoad bodies) := rfl

theorem greatestLoad_le_iff {n : Nat} :
    greatestLoad bodies ≤ n ↔ ∀ body ∈ bodies, loadOf body ≤ n := by
  induction bodies with
  | nil => simp
  | cons body bodies ih => simp [ih]

/-! ## Texts -/

/-- A text is an expression with nothing but blanks and comments around it. -/
inductive TextOf (text : Bytes) : Expr → List Body → Prop
  | intro {body : Body} {d : Cursor} (hne : (Cursor.start text).skipBlanks.atEnd = false)
      (h : WrittenAt false (Cursor.start text).skipBlanks body d)
      (hend : d.skipBlanks.atEnd = true) : TextOf text (exprOf body) [body]

/-- A text that is an expression is decided. -/
theorem TextOf.decides (h : TextOf text e bodies) :
    Decides nestingLimit (greatestLoad bodies) e (Expr.ofBytes text) := by
  cases h with
  | intro hne h hend =>
    rw [Expr.ofBytes, if_neg (Bool.eq_false_iff.mp hne), greatestLoad_cons, greatestLoad_nil,
      Nat.max_zero]
    exact h.decides.map fun _ => if_pos hend

/-- A text that is read is an expression. -/
theorem textOf_of_ofBytes (h : Expr.ofBytes text = .ok e) :
    ∃ bodies, TextOf text e bodies ∧ greatestLoad bodies ≤ nestingLimit := by
  rw [Expr.ofBytes] at h
  split at h
  · cases h
  · rename_i hne
    obtain ⟨⟨e, d⟩, hread, h⟩ := Except.exists_of_bind_eq_ok h
    obtain ⟨body, hwritten, rfl, hload⟩ := writtenAt_of_expression hread
    dsimp only at h
    split at h
    · rename_i hend
      cases h
      exact ⟨[body], .intro (Bool.eq_false_iff.mpr hne) hwritten hend, by simpa using hload⟩
    · cases h

/-! ## Sources -/

open Statement (Modifiers modifiersFrom binding statement statementsFrom listOfBytes)

variable {c d first : Cursor} {word : Ident} {definition : Binding} {s : Statement}
  {ss : List Statement}

/-- A binding behind its first word, and its expression as it is written. -/
inductive BindingAt (first : Cursor) (word : Ident) :
    Cursor → Binding → Body → Cursor → Prop
  | intro {c c' d : Cursor} {modifiers : Modifiers} {name : Ident} {body : Body}
      (hname : modifiersFrom 3 {} word c = .ok ((modifiers, name), c'))
      (hplain : name.qualifier.isSome = false) (hkeyword : name.isKeyword = false)
      (hp : c'.skipBlanks.peek? = some 0x3d)
      (hne : (c'.skipBlanks.advance 1).skipBlanks.atEnd = false)
      (h : WrittenAt true (c'.skipBlanks.advance 1).skipBlanks body d) :
      BindingAt first word c
        ⟨name.base, exprOf body, modifiers.isAlias, modifiers.isLocal, first.pos + 1⟩ body d

/-- A statement, and the alternatives of its expression as they are written. There are none if it
is no binding. -/
inductive StatementAt : Cursor → Statement → Body → Cursor → Prop
  | plain {c d : Cursor} {s : Statement} (h : statement c = .ok (s, d))
      (hplain : s.isBinding = false) : StatementAt c s [] d
  | bind {c d : Cursor} {word : Ident} {width : Nat} {definition : Binding}
      {body : Body} (hword : Ident.ahead? c.rest = some (word, width))
      (hpackage : word ≠ ⟨none, "package"⟩) (himport : word ≠ ⟨none, "import"⟩)
      (h : BindingAt c word (c.advance width) definition body d) :
      StatementAt c (.bind definition) body d

/-- Statements up to the end of the text, and the expressions in them. -/
inductive StatementsAt : Cursor → List Statement → List Body → Prop
  | done {c : Cursor} (h : c.skipBlanks.atEnd = true) : StatementsAt c [] []
  | step {c d : Cursor} {s : Statement} {ss : List Statement} {body : Body}
      {bodies : List Body} (hne : c.skipBlanks.atEnd = false)
      (h : StatementAt c.skipBlanks s body d) (hrest : StatementsAt d ss bodies) :
      StatementsAt c (s :: ss) (body :: bodies)

/-- A source consists of statements of which only the first may declare a package. -/
structure SourceOf (text : Bytes) (ss : List Statement) (bodies : List Body) :
    Prop where
  written : StatementsAt (Cursor.start text) ss bodies
  package : ∀ s ∈ ss.tail, s.isPackage = false

/-- A binding is decided. -/
theorem BindingAt.decides (h : BindingAt first word c definition body d) :
    Decides nestingLimit (loadOf body) (definition, d) (binding first word c) := by
  cases h with
  | intro hname hplain hkeyword hp hne h =>
    rw [binding, Except.bind_of_eq_ok hname]
    dsimp only
    rw [if_neg (Bool.eq_false_iff.mp hplain), if_neg (Bool.eq_false_iff.mp hkeyword),
      if_neg (by simp [hp]), if_neg (Bool.eq_false_iff.mp hne)]
    exact h.decides.map fun _ => rfl

/-- A statement is decided. -/
theorem StatementAt.decides (h : StatementAt c s body d) :
    Decides nestingLimit (loadOf body) (s, d) (statement c) := by
  cases h with
  | plain h hplain =>
    rw [loadOf_nil]
    exact .of_eq h
  | bind hword hpackage himport h =>
    rw [statement, hword]
    dsimp only
    rw [if_neg hpackage, if_neg himport]
    exact h.decides.map fun _ => rfl

/-- Statements are decided. -/
theorem StatementsAt.decides (h : StatementsAt c ss bodies) (steps : Nat)
    (hsteps : c.rest.length < steps) (read : List Statement)
    (hpackage : ∀ s ∈ (read.reverse ++ ss).tail, s.isPackage = false) :
    Decides nestingLimit (greatestLoad bodies) (read.reverse ++ ss)
      (statementsFrom steps read c) := by
  induction h generalizing steps read with
  | @done c h =>
    cases steps with
    | zero => exact absurd hsteps (Nat.not_lt_zero _)
    | succ steps =>
      rw [List.append_nil, statementsFrom]
      exact .of_eq (if_pos h)
  | @step c d s ss body bodies hne h hrest ih =>
    cases steps with
    | zero => exact absurd hsteps (Nat.not_lt_zero _)
    | succ steps =>
      rw [statementsFrom]
      dsimp only
      rw [if_neg (Bool.eq_false_iff.mp hne)]
      refine h.decides.bind fun hload => ?_
      have hlt := ((Cursor.reaches_skipBlanks c).trans_passes
        (Statement.passes_of_statement (h.decides.accepts hload))).length_lt
      have hfirst : (s.isPackage && !read.isEmpty) = false := by
        cases hread : read.reverse with
        | nil => simp [List.reverse_eq_nil_iff.mp hread]
        | cons first more =>
          have hs : s.isPackage = false := hpackage s (by simp [hread])
          rw [hs, Bool.false_and]
      have hothers := ih steps (by omega) (s :: read) (by simpa using hpackage)
      rw [if_neg (Bool.eq_false_iff.mp hfirst)]
      rw [List.reverse_cons, List.append_assoc, List.singleton_append] at hothers
      exact hothers

/-- A source is decided. -/
theorem SourceOf.decides (h : SourceOf text ss bodies) :
    Decides nestingLimit (greatestLoad bodies) ss (listOfBytes text) :=
  h.written.decides (text.length + 1) (Nat.lt_succ_self _) [] h.package

/-- A binding that is read is written so. -/
theorem bindingAt_of_binding (h : binding first word c = .ok (definition, d)) :
    ∃ body, BindingAt first word c definition body d ∧ loadOf body ≤ nestingLimit := by
  obtain ⟨⟨⟨modifiers, name⟩, c'⟩, hname, h⟩ := Except.exists_of_bind_eq_ok h
  dsimp only at h
  split at h
  · cases h
  rename_i hplain
  split at h
  · cases h
  rename_i hkeyword
  split at h
  · cases h
  rename_i hp
  split at h
  · cases h
  rename_i hne
  obtain ⟨⟨e, f⟩, hread, h⟩ := Except.exists_of_bind_eq_ok h
  obtain ⟨body, hwritten, rfl, hload⟩ := writtenAt_of_expression hread
  cases h
  exact ⟨body, .intro hname (Bool.eq_false_iff.mpr hplain) (Bool.eq_false_iff.mpr hkeyword)
    (by simpa using hp) (Bool.eq_false_iff.mpr hne) hwritten, hload⟩

/-- A statement that is read is written so. -/
theorem statementAt_of_statement (h : statement c = .ok (s, d)) :
    ∃ body, StatementAt c s body d ∧ loadOf body ≤ nestingLimit := by
  cases hs : s.isBinding with
  | false => exact ⟨[], .plain h hs, by simp⟩
  | true =>
    rw [statement] at h
    split at h
    · cases h
    rename_i word width hword
    dsimp only at h
    split at h
    · obtain ⟨_, _, h⟩ := Except.exists_of_bind_eq_ok h
      cases h
      cases hs
    rename_i hpackage
    split at h
    · obtain ⟨_, _, h⟩ := Except.exists_of_bind_eq_ok h
      cases h
      cases hs
    rename_i himport
    obtain ⟨⟨definition, f⟩, hdefinition, h⟩ := Except.exists_of_bind_eq_ok h
    obtain ⟨body, hwritten, hload⟩ := bindingAt_of_binding hdefinition
    cases h
    exact ⟨body, .bind hword hpackage himport hwritten, hload⟩

/-- Statements that are read are written so. -/
theorem statementsAt_of_reads (h : Statement.Reads c ss) :
    ∃ bodies, StatementsAt c ss bodies ∧ greatestLoad bodies ≤ nestingLimit := by
  induction h with
  | done h => exact ⟨[], .done (Cursor.atEnd_iff.mpr h), Nat.zero_le _⟩
  | @step c d s ss h hrest ih =>
    obtain ⟨body, hbody, hload⟩ := statementAt_of_statement h
    obtain ⟨bodies, hbodies, hloads⟩ := ih
    have hne : c.skipBlanks.atEnd = false := Bool.eq_false_iff.mpr fun hend =>
      (Statement.passes_of_statement h).rest_ne_nil (Cursor.atEnd_iff.mp hend)
    exact ⟨body :: bodies, .step hne hbody hbodies, max_le hload hloads⟩

/-- A source that is read is written so. -/
theorem sourceOf_of_listOfBytes (h : listOfBytes text = .ok ss) :
    ∃ bodies, SourceOf text ss bodies ∧ greatestLoad bodies ≤ nestingLimit := by
  obtain ⟨hreads, hpackage⟩ := Statement.listOfBytes_eq_ok_iff.mp h
  obtain ⟨bodies, hwritten, hload⟩ := statementsAt_of_reads hreads
  exact ⟨bodies, ⟨hwritten, hpackage⟩, hload⟩

/-! ## The limit -/

/-- How a reader whose expressions are written so keeps the limit: it reads those whose load is
within the limit and refuses the others for their nesting, and some expression of what it refuses
so is nested beyond the limit. -/
structure LimitsLoad {α : Type} (written : α → List Body → Prop) (result : Except Violation α) :
    Prop where
  read_iff : ∀ a, result = .ok a ↔
    ∃ bodies, written a bodies ∧ ∀ body ∈ bodies, loadOf body ≤ nestingLimit
  refused : ∀ a bodies, written a bodies → (∃ body ∈ bodies, nestingLimit < loadOf body) →
    RefusedForNesting result
  nested : ∀ a bodies, written a bodies → RefusedForNesting result →
    ∃ body ∈ bodies, nestingLimit < nestingOf body

/-- Where what is written is decided and what is read is written, it is the load that is limited. -/
theorem LimitsLoad.of_decides {α : Type} {written : α → List Body → Prop}
    {x : Except ParseError α}
    (hdecides : ∀ a bodies, written a bodies → Decides nestingLimit (greatestLoad bodies) a x)
    (hwritten : ∀ a, x = .ok a → ∃ bodies, written a bodies ∧ greatestLoad bodies ≤ nestingLimit) :
    LimitsLoad written (x.mapError ParseError.toViolation) where
  read_iff a := by
    rw [Except.mapError_eq_ok]
    constructor
    · intro h
      obtain ⟨bodies, hbodies, hload⟩ := hwritten a h
      exact ⟨bodies, hbodies, greatestLoad_le_iff.mp hload⟩
    · rintro ⟨bodies, hbodies, hload⟩
      exact (hdecides a bodies hbodies).accepts (greatestLoad_le_iff.mpr hload)
  refused a bodies hbodies hload := by
    have hlt : nestingLimit < greatestLoad bodies := by
      obtain ⟨body, hbody, hlt⟩ := hload
      exact Nat.lt_of_lt_of_le hlt (greatestLoad_le_iff.mp le_rfl body hbody)
    exact ((hdecides a bodies hbodies).refuses hlt).refused
  nested a bodies hbodies hrefused := by
    by_contra hnone
    push Not at hnone
    have hload : greatestLoad bodies ≤ nestingLimit := greatestLoad_le_iff.mpr fun body hbody =>
      (loadOf_le_nestingOf body).trans (hnone body hbody)
    obtain ⟨place, hplace⟩ := hrefused
    rw [(hdecides a bodies hbodies).accepts hload] at hplace
    cases hplace

/-- **The limit on nesting is a limit on the load.** A text is read as an expression, or as a
source, exactly if it is well formed and the load of its expressions is within the limit, and it is
refused for its nesting if it is well formed and some load is not; then some expression is nested
beyond the limit. The expressions of what is read are nested no deeper than the load allows, which
is far beyond the limit, and no deeper than the limit where no operand that opens levels is
repeated. -/
theorem nestingLimit_limits_load (text : String) :
    LimitsLoad (TextOf (Bytes.ofString text)) (Expr.ofText text) ∧
    LimitsLoad (SourceOf (Bytes.ofString text)) (Statement.listOfText text) ∧
    ∀ body : Body, (exprOf body).nesting ≤ nestingOf body ∧
      2 * nestingOf body ≤ loadOf body * (loadOf body + 3) ∧
      ((∀ items ∈ body, ∀ item ∈ items, item.Flat) → nestingOf body = loadOf body) :=
  ⟨.of_decides (fun _ _ => TextOf.decides) fun _ => textOf_of_ofBytes,
    .of_decides (fun _ _ => SourceOf.decides) fun _ => sourceOf_of_listOfBytes,
    fun body => ⟨nesting_exprOf_le body, nestingOf_le body, nestingOf_eq_of_flat⟩⟩

/-- A group of a literal that is optional sixty times over, which is so itself. -/
def optionalGroup : String :=
  "(\"a\"????????????????????????????????????????????????????????????)" ++
    "????????????????????????????????????????????????????????????"

theorem nesting_optionalGroup : (Expr.ofText optionalGroup).map Expr.nesting = .ok 120 := by cbv

/-- The limit is none on the repetitions around a literal: the group and the marks behind it take
sixty-one levels and sixty levels of the same hundred. -/
theorem not_nesting_le_nestingLimit :
    ¬∀ (text : String) (e : Expr), Expr.ofText text = .ok e → e.nesting ≤ nestingLimit := by
  intro h
  have hnesting := nesting_optionalGroup
  cases hread : Expr.ofText optionalGroup with
  | error v =>
    rw [hread] at hnesting
    cases hnesting
  | ok e =>
    rw [hread] at hnesting
    have hle := h optionalGroup e hread
    rw [Except.ok.inj hnesting] at hle
    exact absurd hle (by decide)

end Written

end PatternEngine
