import PatternEngine.Proofs.Source.Expressions
import PatternEngine.Source.Parser

/-!
# Statements in a longer text

A statement is read alike in a text and in a longer one, but that its positions move with the bytes
in front. At the end of the text it goes on into the lines behind, up to the next word: nothing
there may be a part of the statement.
-/

namespace PatternEngine.Statement

open Cursor (seam)

variable {c d first : Cursor} {k : Nat} {tail : Bytes} {s : Statement}

/-- The statement with its positions `k` bytes further on. -/
def shift (k : Nat) : Statement → Statement
  | .package name pos => .package name (k + pos)
  | .imports decls pos => .imports decls (k + pos)
  | .bind binding => .bind { binding with body := binding.body.shift k, pos := k + binding.pos }

@[simp] theorem shift_zero (s : Statement) : s.shift 0 = s := by
  cases s <;> simp [shift, Expr.shift_zero]

@[simp] theorem isPackage_shift (k : Nat) (s : Statement) :
    (s.shift k).isPackage = s.isPackage := by
  cases s <;> rfl

/-- The statement is a binding. -/
def isBinding : Statement → Bool
  | .bind _ => true
  | _ => false

/-- Lines that can stand behind statements: besides no equals sign, no second half of an import is
the first thing on them. -/
structure Follows (tail : Bytes) : Prop extends Expr.Follows tail where
  no_as : ∀ pos, (seam pos tail).atWord "as" = false
  no_comma : ∀ pos, (seam pos tail).peek? ≠ some 0x2c

theorem follows_nil : Follows [] where
  toFollows := Expr.follows_nil
  no_as _ := rfl
  no_comma _ := nofun

/-! ## Names -/

/-- A name without prefix is read alike. -/
theorem carries_plainName (htail : tail.OnNewLine) (what : Expected) :
    Parse.Carries k tail (plainName what) (plainName what) := by
  intro c name d h
  unfold plainName at h ⊢
  rw [Cursor.rest_embed, Ident.ahead?_append (Ident.not_part_of_onNewLine htail)]
  split at h
  · cases h
  · rename_i word width hword
    obtain ⟨hpos, hle⟩ := Ident.ahead?_width hword
    split at h
    · cases h
    · rename_i hplain
      cases h
      refine ⟨Cursor.passes_advance hpos hle, ?_⟩
      rw [Cursor.embed_advance hle]
      exact if_neg hplain

/-- A name without prefix is read alike behind blanks. -/
theorem carries_plainName_skipBlanks (htail : tail.OnNewLine) {what : Expected} {name : String}
    (h : plainName what c.skipBlanks = .ok (name, d)) :
    c.Passes d ∧ plainName what (c.embed k tail).skipBlanks = .ok (name, d.embed k tail) := by
  obtain ⟨hpass, hcarried⟩ := carries_plainName (k := k) htail what h
  rw [Cursor.skipBlanks_embed htail hpass.rest_ne_nil]
  exact ⟨(Cursor.reaches_skipBlanks c).trans_passes hpass, hcarried⟩

/-! ## Imports -/

/-- The word that renames an import is seen where it is seen without the lines behind. -/
theorem atWord_as_embed (htail : Follows tail) (hblank : c.skipBlanks = c) :
    (c.embed k tail).skipBlanks.atWord "as" = c.atWord "as" := by
  by_cases hc : c.rest = []
  · rw [Cursor.skipBlanks_embed_of_nil htail.onNewLine (hblank.symm ▸ hc), htail.no_as]
    rw [Cursor.atWord, hc]
    rfl
  · rw [Cursor.skipBlanks_embed htail.onNewLine (hblank.symm ▸ hc), hblank,
      Cursor.atWord_embed htail.onNewLine (by decide)]

/-- One entry of an import is read alike, up to the blanks behind it. -/
theorem importDecl_embed (htail : Follows tail) {decl : ImportDecl}
    (h : importDecl c = .ok (decl, d)) : c.Passes d ∧ ∃ d', importDecl (c.embed k tail) =
      .ok (decl, d') ∧ d'.skipBlanks = (d.embed k tail).skipBlanks := by
  obtain ⟨⟨name, e⟩, hname, h⟩ := Except.exists_of_bind_eq_ok h
  obtain ⟨hpass, hname'⟩ := carries_plainName_skipBlanks (k := k) htail.onNewLine hname
  have hskip : (e.embed k tail).skipBlanks = (e.skipBlanks.embed k tail).skipBlanks :=
    (Cursor.skipBlanks_embed_skipBlanks htail.onNewLine e).symm
  have has : (e.embed k tail).skipBlanks.atWord "as" = e.skipBlanks.atWord "as" := by
    rw [hskip, atWord_as_embed htail (Cursor.skipBlanks_skipBlanks e)]
  change (if e.skipBlanks.atWord "as" then _ else _) = _ at h
  split at h
  · rename_i hword
    obtain ⟨⟨rename, f⟩, hrename, h⟩ := Except.exists_of_bind_eq_ok h
    obtain ⟨rfl, rfl⟩ := Prod.mk.inj (Except.ok.inj h)
    have hlen : 2 ≤ e.skipBlanks.rest.length := by
      rw [Cursor.atWord, Bool.and_eq_true] at hword
      exact (List.isPrefixOf_iff_prefix.mp hword.1).length_le
    have hne : e.skipBlanks.rest ≠ [] := List.length_pos_iff.mp (by omega)
    obtain ⟨hpass', hrename'⟩ := carries_plainName_skipBlanks (k := k) htail.onNewLine hrename
    refine ⟨hpass.trans_reaches ((Cursor.reaches_skipBlanks e).trans
      ((Cursor.reaches_advance hlen).trans hpass'.reaches)), f.embed k tail, ?_, rfl⟩
    refine (Except.bind_of_eq_ok hname').trans ((if_pos (has.trans hword)).trans ?_)
    rw [Cursor.skipBlanks_embed htail.onNewLine hne, ← Cursor.embed_advance hlen]
    exact Except.bind_of_eq_ok hrename'
  · rename_i hword
    obtain ⟨rfl, rfl⟩ := Prod.mk.inj (Except.ok.inj h)
    refine ⟨hpass.trans_reaches (Cursor.reaches_skipBlanks e), (e.embed k tail).skipBlanks, ?_, ?_⟩
    · exact (Except.bind_of_eq_ok hname').trans (if_neg (has ▸ hword))
    · rw [Cursor.skipBlanks_skipBlanks, hskip]

/-- A comma that goes on with an import is one of the text. -/
theorem comma_embed (htail : Follows tail) (hblank : c.skipBlanks = c) :
    (c.embed k tail).skipBlanks.peek? = some 0x2c ↔ c.peek? = some 0x2c := by
  by_cases hc : c.rest = []
  · rw [Cursor.skipBlanks_embed_of_nil htail.onNewLine (hblank.symm ▸ hc),
      Cursor.peek?_eq_none_iff.mpr hc]
    exact ⟨fun h => absurd h (htail.no_comma _), nofun⟩
  · rw [Cursor.skipBlanks_embed htail.onNewLine (hblank.symm ▸ hc), hblank,
      Cursor.peek?_embed_of_ne_nil hc]

/-- The entries of an import are read alike, up to the blanks behind them. -/
theorem importDeclsFrom_embed (htail : Follows tail) (steps : Nat) {read decls : List ImportDecl}
    {c d : Cursor} (hsteps : c.rest.length < steps)
    (h : importDeclsFrom steps read c = .ok (decls, d)) :
    c.Passes d ∧ ∃ d', importDeclsFrom (steps + tail.length) read (c.embed k tail) =
      .ok (decls, d') ∧ d'.skipBlanks = (d.embed k tail).skipBlanks := by
  induction steps generalizing read c with
  | zero => exact absurd hsteps (Nat.not_lt_zero _)
  | succ steps ih =>
    rw [importDeclsFrom] at h
    rw [Nat.succ_add, importDeclsFrom]
    obtain ⟨⟨decl, e⟩, hdecl, h⟩ := Except.exists_of_bind_eq_ok h
    obtain ⟨hpass, e', hdecl', hblank⟩ := importDecl_embed (k := k) htail hdecl
    have hskip : e'.skipBlanks = (e.skipBlanks.embed k tail).skipBlanks := by
      rw [hblank, Cursor.skipBlanks_embed_skipBlanks htail.onNewLine]
    have hcomma := comma_embed (k := k) htail (Cursor.skipBlanks_skipBlanks e)
    rw [← hskip] at hcomma
    change (if e.skipBlanks.peek? == some 0x2c then _ else _) = _ at h
    split at h
    · rename_i hmark
      have hpeek := beq_iff_eq.mp hmark
      have hne := Cursor.rest_ne_nil_of_peek hpeek
      have hpass' : c.Passes (e.skipBlanks.advance 1) := (hpass.trans_reaches
        (Cursor.reaches_skipBlanks e)).trans (Cursor.passes_of_peek hpeek)
      have hlt := hpass'.length_lt
      obtain ⟨hpass'', d', hrest, hend⟩ := ih (by omega) h
      refine ⟨hpass'.trans hpass'', d', ?_, hend⟩
      refine (Except.bind_of_eq_ok hdecl').trans
        ((if_pos (beq_iff_eq.mpr (hcomma.mpr hpeek))).trans ?_)
      rw [hblank, Cursor.skipBlanks_embed htail.onNewLine hne, ← Cursor.embed_advance_one hpeek]
      exact hrest
    · rename_i hmark
      obtain ⟨rfl, rfl⟩ := Prod.mk.inj (Except.ok.inj h)
      refine ⟨hpass.trans_reaches (Cursor.reaches_skipBlanks e), e'.skipBlanks, ?_, ?_⟩
      · refine (Except.bind_of_eq_ok hdecl').trans (if_neg fun hmark' => hmark ?_)
        exact beq_iff_eq.mpr (hcomma.mp (beq_iff_eq.mp hmark'))
      · rw [Cursor.skipBlanks_skipBlanks, hskip]

/-! ## Bindings -/

/-- The modifiers of a binding and its name are read alike. -/
theorem modifiersFrom_embed (htail : tail.OnNewLine) (steps : Nat) {modifiers : Modifiers}
    {word : Ident} {result : Modifiers × Ident} {c d : Cursor}
    (h : modifiersFrom steps modifiers word c = .ok (result, d)) :
    c.Reaches d ∧ modifiersFrom steps modifiers word (c.embed k tail) =
      .ok (result, d.embed k tail) := by
  induction steps generalizing modifiers word c with
  | zero =>
    cases h
    exact ⟨.refl _, rfl⟩
  | succ steps ih =>
    rw [modifiersFrom] at h ⊢
    split at h
    · cases h
      exact ⟨.refl _, rfl⟩
    · dsimp only at h ⊢
      split at h
      · cases h
      · rename_i next width hnext
        obtain ⟨hpos, hle⟩ := Ident.ahead?_width hnext
        have hne : c.skipBlanks.rest ≠ [] := List.length_pos_iff.mp (by omega)
        obtain ⟨hreach, hrest⟩ := ih h
        refine ⟨(Cursor.reaches_skipBlanks c).trans ((Cursor.reaches_advance hle).trans hreach), ?_⟩
        rw [Cursor.skipBlanks_embed htail hne, Cursor.rest_embed,
          Ident.ahead?_append (Ident.not_part_of_onNewLine htail), hnext]
        dsimp only
        rw [← Cursor.embed_advance hle]
        exact hrest

/-- A binding is read alike up to its expression. -/
theorem binding_embed_eq (htail : tail.OnNewLine) {word : Ident} {definition : Binding}
    (h : binding first word c = .ok (definition, d)) : ∃ e, c.Passes e ∧
      Expr.expression true e = .ok (definition.body, d) ∧
      binding (first.embed k tail) word (c.embed k tail) = (do
        let (body, d') ← Expr.expression true (e.embed k tail)
        .ok ({ definition with body := body, pos := k + definition.pos }, d')) := by
  obtain ⟨⟨⟨modifiers, name⟩, e⟩, hname, h⟩ := Except.exists_of_bind_eq_ok h
  obtain ⟨hreach, hname'⟩ := modifiersFrom_embed (k := k) htail 3 hname
  dsimp only at h
  split at h
  · cases h
  rename_i hqualifier
  split at h
  · cases h
  rename_i hkeyword
  split at h
  · cases h
  rename_i hequals
  split at h
  · cases h
  rename_i hend
  obtain ⟨⟨body, f⟩, hbody, h⟩ := Except.exists_of_bind_eq_ok h
  obtain ⟨rfl, rfl⟩ := Prod.mk.inj (Except.ok.inj h)
  have hpeek : e.skipBlanks.peek? = some 0x3d := by simpa using hequals
  have hne : (e.skipBlanks.advance 1).skipBlanks.rest ≠ [] := fun hc =>
    hend (Cursor.atEnd_iff.mpr hc)
  refine ⟨(e.skipBlanks.advance 1).skipBlanks, hreach.trans_passes ((Cursor.reaches_skipBlanks
    e).trans_passes ((Cursor.passes_of_peek hpeek).trans_reaches (Cursor.reaches_skipBlanks _))),
    hbody, ?_⟩
  refine (Except.bind_of_eq_ok hname').trans ((if_neg hqualifier).trans
    ((if_neg hkeyword).trans ?_))
  have hpeek' : (e.skipBlanks.embed k tail).peek? = some 0x3d := Cursor.peek?_embed hpeek
  have hmark : ¬((e.skipBlanks.embed k tail).peek? != some 0x3d) = true := by
    rw [hpeek']
    decide
  have hend' : ¬((e.skipBlanks.advance 1).skipBlanks.embed k tail).atEnd = true := by
    rw [Cursor.atEnd_iff, Cursor.rest_embed]
    exact fun hnil => hne (List.append_eq_nil_iff.mp hnil).1
  dsimp only
  rw [Cursor.skipBlanks_embed htail (Cursor.rest_ne_nil_of_peek hpeek), if_neg hmark,
    ← Cursor.embed_advance_one hpeek, Cursor.skipBlanks_embed htail hne, if_neg hend']
  rfl

/-- A binding is read alike with its positions moved, if one that goes to the end of the text ends
there. -/
theorem binding_embed (htail : Expr.Follows tail) {word : Ident} {definition : Binding}
    (h : binding first word c = .ok (definition, d)) : c.Passes d ∧ d.skipBlanks = d ∧
      ((d.rest = [] → Expr.Ends true tail) →
        binding (first.embed k tail) word (c.embed k tail) = .ok ({ definition with
          body := definition.body.shift k, pos := k + definition.pos },
          (d.embed k tail).skipBlanks)) := by
  obtain ⟨e, hway, hbody, heq⟩ := binding_embed_eq (k := k) htail.onNewLine h
  obtain ⟨hpass, hblank, hcarried⟩ := Expr.expression_movesOn (k := k) htail hbody
  exact ⟨hway.trans hpass, hblank, fun hends => heq.trans (Except.bind_of_eq_ok (hcarried hends))⟩

/-- A statement is read alike with its positions moved, if a binding that goes to the end of the
text ends there. -/
theorem statement_embed (htail : Follows tail) (h : statement c = .ok (s, d)) : c.Passes d ∧
    (s.isBinding = true → d.skipBlanks = d) ∧
    ((s.isBinding = true → d.rest = [] → Expr.Ends true tail) →
      ∃ d', statement (c.embed k tail) = .ok (s.shift k, d') ∧
        d'.skipBlanks = (d.embed k tail).skipBlanks) := by
  unfold statement at h ⊢
  rw [Cursor.rest_embed, Ident.ahead?_append (Ident.not_part_of_onNewLine htail.onNewLine)]
  split at h
  · cases h
  rename_i word width hword
  obtain ⟨hpos, hle⟩ := Ident.ahead?_width hword
  have hone := Cursor.passes_advance hpos hle
  dsimp only at h ⊢
  rw [← Cursor.embed_advance hle]
  split at h
  · rename_i hpackage
    rw [if_pos hpackage]
    obtain ⟨⟨name, e⟩, hname, h⟩ := Except.exists_of_bind_eq_ok h
    obtain ⟨rfl, rfl⟩ := Prod.mk.inj (Except.ok.inj h)
    obtain ⟨hpass, hname'⟩ := carries_plainName_skipBlanks (k := k) htail.onNewLine hname
    refine ⟨hone.trans hpass, nofun, fun _ => ⟨e.embed k tail, ?_, rfl⟩⟩
    exact Except.bind_of_eq_ok hname'
  rename_i hpackage
  rw [if_neg hpackage]
  split at h
  · rename_i himport
    rw [if_pos himport]
    obtain ⟨⟨decls, e⟩, hdecls, h⟩ := Except.exists_of_bind_eq_ok h
    obtain ⟨rfl, rfl⟩ := Prod.mk.inj (Except.ok.inj h)
    obtain ⟨hpass, d', hdecls', hblank⟩ :=
      importDeclsFrom_embed (k := k) htail _ (Nat.lt_succ_self _) hdecls
    refine ⟨hone.trans hpass, nofun, fun _ => ⟨d', ?_, hblank⟩⟩
    have hsteps : ((c.advance width).embed k tail).rest.length + 1 =
        (c.advance width).rest.length + 1 + tail.length := by
      rw [Cursor.rest_embed, List.length_append]
      omega
    rw [hsteps]
    exact Except.bind_of_eq_ok hdecls'
  · rename_i himport
    rw [if_neg himport]
    obtain ⟨⟨definition, e⟩, hdefinition, h⟩ := Except.exists_of_bind_eq_ok h
    obtain ⟨rfl, rfl⟩ := Prod.mk.inj (Except.ok.inj h)
    obtain ⟨hpass, hblank, hcarried⟩ := binding_embed (k := k) htail.toFollows hdefinition
    refine ⟨hone.trans hpass, fun _ => hblank, fun hends => ⟨_, ?_, Cursor.skipBlanks_skipBlanks _⟩⟩
    exact Except.bind_of_eq_ok (hcarried (hends rfl))

/-! ## Whole sources -/

variable {ss ts : List Statement} {text : Bytes}

/-- From a place on, a text consists of these statements. -/
inductive Reads : Cursor → List Statement → Prop
  /-- Only blanks are left. -/
  | done {c : Cursor} (h : c.skipBlanks.rest = []) : Reads c []
  /-- A statement behind blanks, and those behind it. -/
  | step {c d : Cursor} {s : Statement} {ss : List Statement}
    (h : statement c.skipBlanks = .ok (s, d)) (hrest : Reads d ss) : Reads c (s :: ss)

/-- Blanks in front make no difference. -/
theorem Reads.congr (h : Reads c ss) (hblank : d.skipBlanks = c.skipBlanks) : Reads d ss := by
  cases h with
  | done h => exact .done (hblank.symm ▸ h)
  | step h hrest => exact .step (hblank.symm ▸ h) hrest

/-- A statement takes at least one byte. -/
theorem passes_of_statement (h : statement c = .ok (s, d)) : c.Passes d :=
  (statement_embed (k := 0) follows_nil h).1

/-- Behind a first statement, reading on succeeds where the text consists of statements none of
which declares a package. -/
theorem statementsFrom_eq_ok_iff (steps : Nat) {read : List Statement} {c : Cursor}
    (hsteps : c.rest.length < steps) (hread : read ≠ []) :
    statementsFrom steps read c = .ok ss ↔
      ∃ more, ss = read.reverse ++ more ∧ Reads c more ∧ ∀ s ∈ more, s.isPackage = false := by
  induction steps generalizing read c with
  | zero => exact absurd hsteps (Nat.not_lt_zero _)
  | succ steps ih =>
    rw [statementsFrom]
    dsimp only
    have hempty : (!read.isEmpty) = true := by simpa using hread
    constructor
    · intro h
      split at h
      · rename_i hend
        cases h
        exact ⟨[], (List.append_nil _).symm, .done (Cursor.atEnd_iff.mp hend), nofun⟩
      · obtain ⟨⟨next, d⟩, hnext, h⟩ := Except.exists_of_bind_eq_ok h
        have hlt :=
          ((Cursor.reaches_skipBlanks c).trans_passes (passes_of_statement hnext)).length_lt
        have hsteps' : d.rest.length < steps := by omega
        change (if next.isPackage && !read.isEmpty then _ else _) = _ at h
        split at h
        · cases h
        · rename_i hpackage
          rw [hempty, Bool.and_true] at hpackage
          obtain ⟨more, rfl, hmore, hnone⟩ := (ih hsteps' (List.cons_ne_nil next read)).mp h
          refine ⟨next :: more, ?_, .step hnext hmore, ?_⟩
          · rw [List.reverse_cons, List.append_assoc]
            rfl
          · exact List.forall_mem_cons.mpr ⟨Bool.eq_false_iff.mpr hpackage, hnone⟩
    · rintro ⟨more, rfl, hmore, hnone⟩
      cases hmore with
      | done h => rw [if_pos (Cursor.atEnd_iff.mpr h), List.append_nil]
      | step hnext hrest =>
        rename_i d next more
        obtain ⟨hfirst, hnone⟩ := List.forall_mem_cons.mp hnone
        have hpass := passes_of_statement hnext
        have hlt := ((Cursor.reaches_skipBlanks c).trans_passes hpass).length_lt
        have hsteps' : d.rest.length < steps := by omega
        have hend : ¬c.skipBlanks.atEnd = true := fun h =>
          hpass.rest_ne_nil (Cursor.atEnd_iff.mp h)
        have hpackage : ¬(next.isPackage && !read.isEmpty) = true := by
          rw [hfirst]
          nofun
        refine (if_neg hend).trans ((Except.bind_of_eq_ok hnext).trans ((if_neg hpackage).trans ?_))
        refine (ih hsteps' (List.cons_ne_nil next read)).mpr ⟨more, ?_, hrest, hnone⟩
        rw [List.reverse_cons, List.append_assoc]
        rfl

/-- A source is accepted where it consists of statements of which only the first may declare a
package. -/
theorem listOfBytes_eq_ok_iff : listOfBytes text = .ok ss ↔
    Reads (Cursor.start text) ss ∧ ∀ s ∈ ss.tail, s.isPackage = false := by
  rw [listOfBytes, statementsFrom]
  dsimp only
  constructor
  · intro h
    split at h
    · rename_i hend
      cases h
      exact ⟨.done (Cursor.atEnd_iff.mp hend), nofun⟩
    · obtain ⟨⟨first, d⟩, hfirst, h⟩ := Except.exists_of_bind_eq_ok h
      have hlt : d.rest.length < text.length :=
        ((Cursor.reaches_skipBlanks _).trans_passes (passes_of_statement hfirst)).length_lt
      change (if first.isPackage && false then _ else _) = _ at h
      rw [Bool.and_false, if_neg Bool.false_ne_true] at h
      obtain ⟨more, rfl, hmore, hnone⟩ :=
        (statementsFrom_eq_ok_iff text.length hlt (List.cons_ne_nil first [])).mp h
      exact ⟨.step hfirst hmore, hnone⟩
  · rintro ⟨hreads, hnone⟩
    cases hreads with
    | done h => exact if_pos (Cursor.atEnd_iff.mpr h)
    | step hfirst hrest =>
      rename_i d first more
      have hpass := passes_of_statement hfirst
      have hlt : d.rest.length < text.length :=
        ((Cursor.reaches_skipBlanks (Cursor.start text)).trans_passes hpass).length_lt
      have hend : ¬(Cursor.start text).skipBlanks.atEnd = true := fun h =>
        hpass.rest_ne_nil (Cursor.atEnd_iff.mp h)
      have hpackage : ¬(first.isPackage && !List.isEmpty ([] : List Statement)) = true := by
        rw [List.isEmpty_nil, Bool.not_true, Bool.and_false]
        exact Bool.false_ne_true
      refine (if_neg hend).trans ((Except.bind_of_eq_ok hfirst).trans ((if_neg hpackage).trans ?_))
      exact (statementsFrom_eq_ok_iff text.length hlt (List.cons_ne_nil first [])).mpr
        ⟨more, rfl, hrest, hnone⟩

/-- The end of a text consists of no statements. -/
theorem Reads.eq_nil (h : Reads c ss) (hc : c.skipBlanks.rest = []) : ss = [] := by
  cases h with
  | done _ => rfl
  | step h _ => exact absurd hc (passes_of_statement h).rest_ne_nil

/-- The statements of a text are followed by those of the lines behind it, if a binding at its end
ends there. -/
theorem Reads.append (htail : Follows tail) (h : Reads c ss)
    (hends : ∀ s ∈ ss.getLast?, s.isBinding = true → Expr.Ends true tail)
    (hrest : Reads (seam (k + (c.pos + c.rest.length)) tail) ts) :
    Reads (c.embed k tail) (ss.map (shift k) ++ ts) := by
  induction h with
  | done h =>
    refine hrest.congr ?_
    rw [Cursor.skipBlanks_seam, Cursor.skipBlanks_embed_of_nil htail.onNewLine h]
  | step h hreads ih =>
    rename_i c d s ss
    obtain ⟨hpass, hblank, hcarried⟩ := statement_embed (k := k) htail h
    have hend : d.pos + d.rest.length = c.pos + c.rest.length :=
      ((Cursor.reaches_skipBlanks c).trans hpass.reaches).end_eq
    -- Only the last statement can go to the end of the text.
    obtain ⟨d', hs, hd'⟩ := hcarried fun hbinding hd => by
      have hnil : ss = [] := hreads.eq_nil ((hblank hbinding).symm ▸ hd)
      subst hnil
      exact hends s rfl hbinding
    have hmore : Reads (d.embed k tail) (ss.map (shift k) ++ ts) := by
      refine ih ?_ (hend ▸ hrest)
      intro last hlast
      refine hends last ?_
      rw [List.getLast?_cons, hlast]
      rfl
    refine .step ?_ (hmore.congr hd')
    rwa [Cursor.skipBlanks_embed htail.onNewLine hpass.rest_ne_nil]

end PatternEngine.Statement
