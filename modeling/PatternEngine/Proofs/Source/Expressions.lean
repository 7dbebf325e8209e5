import PatternEngine.Expr.Parser
import PatternEngine.Proofs.Source.Lexemes

/-!
# Expressions in a longer text

An expression is read alike in a text and in a longer one, but that its references move with the
bytes in front. Where the expression goes to the end of the text, this takes that the lines behind
begin with something that ends a sequence.
-/

namespace PatternEngine.Expr

open Cursor (seam)

variable {c d : Cursor} {k : Nat} {tail : Bytes} {inSource : Bool} {e : Expr}

/-! ## Moving references -/

mutual

/-- The expression with each reference `k` bytes further on. -/
def shift (k : Nat) : Expr → Expr
  | .literal bytes => .literal bytes
  | .set members => .set members
  | .any => .any
  | .inputStart => .inputStart
  | .inputEnd => .inputEnd
  | .ref name pos => .ref name (k + pos)
  | .seq items => .seq (shiftAll k items)
  | .choice alternatives => .choice (shiftAll k alternatives)
  | .repetition body least most => .repetition (shift k body) least most
  | .lookahead kind body => .lookahead kind (shift k body)

/-- The expressions of a list with each reference `k` bytes further on. -/
def shiftAll (k : Nat) : List Expr → List Expr
  | [] => []
  | item :: items => shift k item :: shiftAll k items

end

@[simp] theorem shiftAll_eq_map (k : Nat) (items : List Expr) :
    shiftAll k items = items.map (shift k) := by
  induction items with
  | nil => rfl
  | cons item items ih => rw [shiftAll, ih, List.map_cons]

theorem shift_ofItems (k : Nat) (items : List Expr) :
    (ofItems items).shift k = ofItems (items.map (shift k)) := by
  match items with
  | [] => rfl
  | [item] => rfl
  | item :: item' :: items => simp [ofItems, shift]

theorem shift_ofAlternatives (k : Nat) (alternatives : List Expr) :
    (ofAlternatives alternatives).shift k = ofAlternatives (alternatives.map (shift k)) := by
  match alternatives with
  | [] => rfl
  | [alternative] => rfl
  | alternative :: alternative' :: alternatives => simp [ofAlternatives, shift]

mutual

/-- Moving an expression moves its references and keeps their names. -/
theorem references_shift (k : Nat) : ∀ e : Expr,
    (e.shift k).references = e.references.map fun (name, pos) => (name, k + pos)
  | .literal _ | .set _ | .any | .inputStart | .inputEnd | .ref _ _ => rfl
  | .seq items | .choice items => by
    rw [shift, references, references]
    exact referencesOfAll_shift k items
  | .repetition body _ _ | .lookahead _ body => by
    rw [shift, references, references]
    exact references_shift k body

/-- Moving the expressions of a list moves their references and keeps their names. -/
theorem referencesOfAll_shift (k : Nat) : ∀ items : List Expr, referencesOfAll (shiftAll k items) =
    (referencesOfAll items).map fun (name, pos) => (name, k + pos)
  | [] => rfl
  | item :: items => by
    rw [shiftAll, referencesOfAll, referencesOfAll, List.map_append, references_shift k item,
      referencesOfAll_shift k items]

end

mutual

/-- Moving nothing is doing nothing. -/
theorem shift_zero : ∀ e : Expr, e.shift 0 = e
  | .literal _ | .set _ | .any | .inputStart | .inputEnd => rfl
  | .ref name pos => by rw [shift, Nat.zero_add]
  | .seq items | .choice items => by rw [shift, shiftAll_zero items]
  | .repetition body _ _ | .lookahead _ body => by rw [shift, shift_zero body]

/-- Moving nothing in a list is doing nothing. -/
theorem shiftAll_zero : ∀ items : List Expr, shiftAll 0 items = items
  | [] => rfl
  | item :: items => by rw [shiftAll, shift_zero item, shiftAll_zero items]

end

/-! ## Where sequences end -/

/-- Lines that can stand behind a text: they begin a new line, and no equals sign is the first thing
on them. -/
structure Follows (tail : Bytes) : Prop where
  onNewLine : tail.OnNewLine
  no_equals : (tail.dropWhile Ascii.isBlank).head? ≠ some 0x3d

theorem follows_nil : Follows [] := ⟨Bytes.onNewLine_nil, by simp⟩

/-- Lines behind a text that end an expression which goes to the end of the text. -/
structure Ends (inSource : Bool) (tail : Bytes) : Prop where
  endsSequence : ∀ pos, endsSequence inSource (seam pos tail) = true
  no_slash : ∀ pos, (seam pos tail).peek? ≠ some 0x2f

theorem ends_nil (inSource : Bool) : Ends inSource [] := ⟨fun _ => rfl, fun _ => nofun⟩

/-- An equals sign that is not doubled stands behind blanks. -/
def equalsAhead (bytes : Bytes) : Bool :=
  (bytes.dropWhile Ascii.isBlank).head? == some 0x3d &&
    (bytes.dropWhile Ascii.isBlank)[1]? != some 0x3d

/-- An equals sign behind blanks is that of the text itself. -/
theorem equalsAhead_append (htail : Follows tail) (bytes : Bytes) :
    equalsAhead (bytes ++ tail) = equalsAhead bytes := by
  have hno := htail.no_equals
  unfold equalsAhead
  cases hall : bytes.dropWhile Ascii.isBlank with
  | nil =>
    have hblank : ∀ b ∈ bytes, Ascii.isBlank b = true := List.dropWhile_eq_nil_iff.mp hall
    rw [List.dropWhile_append_of_pos hblank, beq_eq_false_iff_ne.mpr hno]
    rfl
  | cons b behind =>
    have hcut : (bytes ++ tail).dropWhile Ascii.isBlank = b :: (behind ++ tail) := by
      rw [List.dropWhile_append, hall]
      rfl
    rw [hcut]
    cases behind with
    | nil =>
      rcases htail.onNewLine with rfl | ⟨rest, rfl⟩
      · rfl
      · rfl
    | cons _ _ => rfl

theorem startsStatement_eq (c : Cursor) : startsStatement c =
    (["package", "import", "local", "alias"].any c.atWord || (c.peek?.any Ident.isStart &&
      equalsAhead (c.rest.dropWhile fun b => Ident.isPart b || b == 0x2e))) := rfl

/-- A statement starts in the longer text where it starts in the text. -/
theorem startsStatement_embed (htail : Follows tail) (hne : c.rest ≠ []) :
    startsStatement (c.embed k tail) = startsStatement c := by
  have hword : ∀ word ∈ ["package", "import", "local", "alias"],
      (c.embed k tail).atWord word = c.atWord word := by
    intro word hmem
    have hline : 0x0a ∉ Bytes.ofString word := by
      revert word
      decide
    exact Cursor.atWord_embed htail.onNewLine hline
  have hany : ["package", "import", "local", "alias"].any (c.embed k tail).atWord =
      ["package", "import", "local", "alias"].any c.atWord := by
    rw [Bool.eq_iff_iff, List.any_eq_true, List.any_eq_true]
    exact exists_congr fun word => and_congr_right fun hmem => by rw [hword word hmem]
  rw [startsStatement_eq, startsStatement_eq, hany, Cursor.peek?_embed_of_ne_nil hne,
    Cursor.rest_embed, Bytes.dropWhile_append_tail (htail.onNewLine.stops (by decide)),
    equalsAhead_append htail]

/-- A sequence ends with its text. -/
theorem endsSequence_of_nil (hc : c.rest = []) : endsSequence inSource c = true := by
  rw [endsSequence, Cursor.peek?_eq_none_iff.mpr hc]

/-- A sequence ends in the longer text where it ends in the text. -/
theorem endsSequence_embed (htail : Follows tail) (hne : c.rest ≠ []) :
    endsSequence inSource (c.embed k tail) = endsSequence inSource c := by
  rw [endsSequence, endsSequence, Cursor.peek?_embed_of_ne_nil hne, startsStatement_embed htail hne]

/-! ## Sequences -/

/-- The reader takes at least one byte, and reads the same in the longer text with its references
moved. -/
def Moves (k : Nat) (tail : Bytes) (read : Parse Expr) : Prop :=
  ∀ ⦃c : Cursor⦄ ⦃e : Expr⦄ ⦃d : Cursor⦄, read c = .ok (e, d) →
    c.Passes d ∧ read (c.embed k tail) = .ok (e.shift k, d.embed k tail)

/-- The reader takes at least one byte and goes on to the next thing that is no blank. It reads the
same in the longer text with its references moved, if what goes to the end of the text ends
there. -/
def MovesOn (inSource : Bool) (k : Nat) (tail : Bytes) (read : Parse Expr) : Prop :=
  ∀ ⦃c : Cursor⦄ ⦃e : Expr⦄ ⦃d : Cursor⦄, read c = .ok (e, d) →
    c.Passes d ∧ d.skipBlanks = d ∧ ((d.rest = [] → Ends inSource tail) →
      read (c.embed k tail) = .ok (e.shift k, (d.embed k tail).skipBlanks))

/-- What does not go to the end of the text ends at the same byte of the longer text. -/
theorem MovesOn.of_ne_nil {read : Parse Expr} (hread : MovesOn inSource k tail read)
    (htail : Follows tail) (h : read c = .ok (e, d)) (hd : d.rest ≠ []) :
    read (c.embed k tail) = .ok (e.shift k, d.embed k tail) := by
  obtain ⟨-, hblank, hcarried⟩ := hread h
  rw [hcarried fun hc => absurd hc hd, Cursor.skipBlanks_embed_self htail.onNewLine hblank hd]

variable {item : Parse Expr}

/-- Blanks that lead to the end of a sequence in the text do so in the longer text. -/
theorem endsSequence_skipBlanks_embed (htail : Follows tail)
    (hends : c.skipBlanks.rest = [] → Ends inSource tail)
    (h : endsSequence inSource c.skipBlanks = true) :
    endsSequence inSource (c.embed k tail).skipBlanks = true := by
  by_cases hc : c.skipBlanks.rest = []
  · rw [Cursor.skipBlanks_embed_of_nil htail.onNewLine hc]
    exact (hends hc).endsSequence _
  · rw [Cursor.skipBlanks_embed htail.onNewLine hc, endsSequence_embed htail hc]
    exact h

/-- Where a sequence ends there are no further items. -/
theorem itemsFrom_of_ends (steps : Bytes) (read : List Expr) (hsteps : c.rest.length ≤ steps.length)
    (h : endsSequence inSource c.skipBlanks = true) :
    itemsFrom inSource item steps read c = .ok (read.reverse, c.skipBlanks) := by
  cases steps with
  | nil =>
    rw [Cursor.skipBlanks_of_nil (List.length_eq_zero_iff.mp (Nat.le_zero.mp hsteps))]
    rfl
  | cons step steps =>
    rw [itemsFrom]
    exact if_pos h

/-- Where a sequence ends in the text it ends in the longer text. -/
theorem itemsFrom_embed_of_ends (htail : Follows tail) (steps : Bytes) (read : List Expr)
    (hsteps : c.rest.length ≤ steps.length) (hends : c.skipBlanks.rest = [] → Ends inSource tail)
    (h : endsSequence inSource c.skipBlanks = true) :
    itemsFrom inSource item (steps ++ tail) (read.map (shift k)) (c.embed k tail) =
      .ok (read.reverse.map (shift k), (c.skipBlanks.embed k tail).skipBlanks) := by
  have hlong : (c.embed k tail).rest.length ≤ (steps ++ tail).length := by
    rw [Cursor.rest_embed, List.length_append, List.length_append]
    exact Nat.add_le_add_right hsteps _
  rw [itemsFrom_of_ends _ _ hlong (endsSequence_skipBlanks_embed htail hends h),
    Cursor.skipBlanks_embed_skipBlanks htail.onNewLine, List.map_reverse]

/-- An item of the text is one of the longer text. -/
theorem itemsFrom_embed_of_item (htail : Follows tail) (hitem : Moves k tail item) {next : Expr}
    (hnow : ¬endsSequence inSource c.skipBlanks = true) (hnext : item c.skipBlanks = .ok (next, d))
    (step : UInt8) (steps : Bytes) (read : List Expr) :
    itemsFrom inSource item (step :: steps) read (c.embed k tail) =
      itemsFrom inSource item steps (next.shift k :: read) (d.embed k tail) := by
  obtain ⟨hpass, hcarried⟩ := hitem hnext
  have hskip := Cursor.skipBlanks_embed (k := k) htail.onNewLine hpass.rest_ne_nil
  have hnow' : ¬endsSequence inSource (c.embed k tail).skipBlanks = true := by
    rwa [hskip, endsSequence_embed htail hpass.rest_ne_nil]
  rw [itemsFrom]
  refine (if_neg hnow').trans ?_
  rw [hskip, hcarried]
  rfl

/-- Items are read alike with their references moved. -/
theorem itemsFrom_embed (htail : Follows tail) (hitem : Moves k tail item) (steps : Bytes)
    {read items : List Expr} {c d : Cursor} (hsteps : c.rest.length ≤ steps.length)
    (h : itemsFrom inSource item steps read c = .ok (items, d)) :
    (items = read.reverse ∧ c.Reaches d ∨ c.Passes d) ∧ d.skipBlanks = d ∧
      ((d.rest = [] → Ends inSource tail) →
        itemsFrom inSource item (steps ++ tail) (read.map (shift k)) (c.embed k tail) =
          .ok (items.map (shift k), (d.embed k tail).skipBlanks)) := by
  induction steps generalizing read c with
  | nil =>
    have hc : c.rest = [] := List.length_eq_zero_iff.mp (Nat.le_zero.mp hsteps)
    have hnow : endsSequence inSource c.skipBlanks = true := by
      rw [Cursor.skipBlanks_of_nil hc, endsSequence_of_nil hc]
    rw [itemsFrom_of_ends [] read hsteps hnow] at h
    cases h
    exact ⟨.inl ⟨rfl, Cursor.reaches_skipBlanks c⟩, Cursor.skipBlanks_skipBlanks c,
      fun hends => itemsFrom_embed_of_ends htail [] read hsteps hends hnow⟩
  | cons step steps ih =>
    by_cases hnow : endsSequence inSource c.skipBlanks = true
    · rw [itemsFrom_of_ends _ read hsteps hnow] at h
      cases h
      exact ⟨.inl ⟨rfl, Cursor.reaches_skipBlanks c⟩, Cursor.skipBlanks_skipBlanks c,
        fun hends => itemsFrom_embed_of_ends htail _ read hsteps hends hnow⟩
    · rw [itemsFrom] at h
      obtain ⟨⟨next, c'⟩, hnext, h⟩ := Except.exists_of_bind_eq_ok ((if_neg hnow).symm.trans h)
      have hpass' : c.Passes c' := (Cursor.reaches_skipBlanks c).trans_passes (hitem hnext).1
      obtain ⟨hway, hblank, hrest⟩ := ih (hpass'.steps_left hsteps) h
      refine ⟨.inr ?_, hblank, fun hends => ?_⟩
      · rcases hway with ⟨-, hreach⟩ | hpass''
        · exact hpass'.trans_reaches hreach
        · exact hpass'.trans hpass''
      · rw [List.cons_append, itemsFrom_embed_of_item htail hitem hnow hnext]
        exact hrest hends

/-- A sequence is read alike with its references moved. -/
theorem sequence_movesOn (htail : Follows tail) (hitem : Moves k tail item) :
    MovesOn inSource k tail (sequence inSource item) := by
  intro c e d h
  obtain ⟨⟨items, c'⟩, hitems, h⟩ := Except.exists_of_bind_eq_ok h
  obtain ⟨hway, hblank, hcarried⟩ := itemsFrom_embed htail hitem c.rest le_rfl hitems
  change (if items.isEmpty then _ else _) = _ at h
  split at h
  · cases h
  · rename_i hne
    obtain ⟨rfl, rfl⟩ := Prod.mk.inj (Except.ok.inj h)
    refine ⟨?_, hblank, fun hends => ?_⟩
    · rcases hway with ⟨hnone, -⟩ | hpass
      · exact absurd (by rw [hnone]; rfl) hne
      · exact hpass
    · have hne' : ¬(items.map (shift k)).isEmpty = true := by
        rwa [List.isEmpty_map]
      refine (Except.bind_of_eq_ok (hcarried hends)).trans ((if_neg hne').trans ?_)
      rw [shift_ofItems]

/-! ## Alternatives -/

/-- Without a slash there are no further alternatives. -/
theorem alternativesFrom_of_no_slash (steps : Bytes) (read : List Expr) (hblank : c.skipBlanks = c)
    (h : c.peek? ≠ some 0x2f) :
    alternativesFrom inSource item steps read c = .ok (read.reverse, c) := by
  cases steps with
  | nil => rfl
  | cons step steps =>
    rw [alternativesFrom, hblank]
    exact if_neg (by simpa using h)

/-- Without a slash in the text there is none in the longer text. -/
theorem no_slash_embed (htail : Follows tail) (hends : c.rest = [] → Ends inSource tail)
    (hblank : c.skipBlanks = c) (h : c.peek? ≠ some 0x2f) :
    (c.embed k tail).skipBlanks.peek? ≠ some 0x2f := by
  by_cases hc : c.rest = []
  · rw [Cursor.skipBlanks_embed_of_nil htail.onNewLine (hblank.symm ▸ hc)]
    exact (hends hc).no_slash _
  · rw [Cursor.skipBlanks_embed_self htail.onNewLine hblank hc, Cursor.peek?_embed_of_ne_nil hc]
    exact h

/-- Behind a slash of the text the next alternative is one of the text. -/
theorem alternativesFrom_embed_of_slash (htail : Follows tail) (hblank : c.skipBlanks = c)
    (hslash : c.peek? = some 0x2f) (hne : (c.advance 1).skipBlanks.rest ≠ []) (step : UInt8)
    (steps : Bytes) (read : List Expr) :
    alternativesFrom inSource item (step :: steps) read (c.embed k tail) = (do
      let (next, d) ← sequence inSource item ((c.advance 1).skipBlanks.embed k tail)
      alternativesFrom inSource item steps (next :: read) d) := by
  have hskip : (c.embed k tail).skipBlanks = c.embed k tail :=
    Cursor.skipBlanks_embed_self htail.onNewLine hblank (Cursor.rest_ne_nil_of_peek hslash)
  have hpeek : (c.embed k tail).peek? = some 0x2f := Cursor.peek?_embed hslash
  rw [alternativesFrom, hskip]
  refine (if_pos (beq_iff_eq.mpr hpeek)).trans ?_
  rw [← Cursor.embed_advance_one hslash, Cursor.skipBlanks_embed htail.onNewLine hne]

/-- Further alternatives are read alike with their references moved. -/
theorem alternativesFrom_embed (htail : Follows tail) (hitem : Moves k tail item) (steps : Bytes)
    {read alternatives : List Expr} {c d : Cursor} (hsteps : c.rest.length ≤ steps.length)
    (hblank : c.skipBlanks = c)
    (h : alternativesFrom inSource item steps read c = .ok (alternatives, d)) :
    c.Reaches d ∧ d.skipBlanks = d ∧ ((d.rest = [] → Ends inSource tail) →
      ∀ steps' : Bytes, (c.embed k tail).skipBlanks.rest.length ≤ steps'.length →
        alternativesFrom inSource item steps' (read.map (shift k)) (c.embed k tail).skipBlanks =
          .ok (alternatives.map (shift k), (d.embed k tail).skipBlanks)) := by
  induction steps generalizing read c with
  | nil =>
    have hslash : c.peek? ≠ some 0x2f := by
      rw [Cursor.peek?_eq_none_iff.mpr (List.length_eq_zero_iff.mp (Nat.le_zero.mp hsteps))]
      nofun
    rw [alternativesFrom_of_no_slash [] read hblank hslash] at h
    cases h
    refine ⟨.refl _, hblank, fun hends steps' _ => ?_⟩
    rw [alternativesFrom_of_no_slash steps' _ (Cursor.skipBlanks_skipBlanks _)
      (no_slash_embed htail hends hblank hslash), List.map_reverse]
  | cons step steps ih =>
    by_cases hslash : c.peek? = some 0x2f
    · rw [alternativesFrom, hblank] at h
      obtain ⟨⟨next, c'⟩, hnext, h⟩ :=
        Except.exists_of_bind_eq_ok ((if_pos (beq_iff_eq.mpr hslash)).symm.trans h)
      obtain ⟨hpass, hblank', hcarried⟩ := sequence_movesOn (k := k) htail hitem hnext
      have hpass' : c.Passes c' :=
        (Cursor.passes_of_peek hslash).trans ((Cursor.reaches_skipBlanks _).trans_passes hpass)
      have hlt := hpass'.length_lt
      have hsteps' : c'.rest.length ≤ steps.length := by
        rw [List.length_cons] at hsteps
        omega
      obtain ⟨hreach, hend, hrest⟩ := ih hsteps' hblank' h
      refine ⟨hpass'.reaches.trans hreach, hend, fun hends steps' hlong => ?_⟩
      have hends' : c'.rest = [] → Ends inSource tail := fun hc' => hends (hreach.eq_of_nil hc')
      rw [Cursor.skipBlanks_embed_self htail.onNewLine hblank
        (Cursor.rest_ne_nil_of_peek hslash)] at hlong ⊢
      rw [Cursor.rest_embed, List.length_append] at hlong
      cases steps' with
      | nil =>
        rw [List.length_nil] at hlong
        omega
      | cons step' steps' =>
        have hlong' : (c'.embed k tail).skipBlanks.rest.length ≤ steps'.length := by
          have hle := (Cursor.reaches_skipBlanks (c'.embed k tail)).length_le
          rw [Cursor.rest_embed, List.length_append] at hle
          rw [List.length_cons] at hlong
          omega
        rw [alternativesFrom_embed_of_slash htail hblank hslash hpass.rest_ne_nil, hcarried hends']
        exact hrest hends steps' hlong'
    · rw [alternativesFrom_of_no_slash _ read hblank hslash] at h
      cases h
      refine ⟨.refl _, hblank, fun hends steps' _ => ?_⟩
      rw [alternativesFrom_of_no_slash steps' _ (Cursor.skipBlanks_skipBlanks _)
        (no_slash_embed htail hends hblank hslash), List.map_reverse]

/-- Alternatives are read alike with their references moved. -/
theorem choiceOf_movesOn (htail : Follows tail) (hitem : Moves k tail item) :
    MovesOn inSource k tail (choiceOf inSource item) := by
  intro c e d h
  obtain ⟨⟨first, c'⟩, hfirst, h⟩ := Except.exists_of_bind_eq_ok h
  obtain ⟨hpass, hblank, hcarried⟩ := sequence_movesOn htail hitem hfirst
  obtain ⟨⟨alternatives, d'⟩, hmore, h⟩ := Except.exists_of_bind_eq_ok h
  obtain ⟨rfl, rfl⟩ := Prod.mk.inj (Except.ok.inj h)
  obtain ⟨hreach, hend, hrest⟩ := alternativesFrom_embed htail hitem c'.rest le_rfl hblank hmore
  refine ⟨hpass.trans_reaches hreach, hend, fun hends => ?_⟩
  have hends' : c'.rest = [] → Ends inSource tail := fun hc' => hends (hreach.eq_of_nil hc')
  have hmore' : alternativesFrom inSource item (c'.embed k tail).skipBlanks.rest [first.shift k]
      (c'.embed k tail).skipBlanks = _ := hrest hends _ le_rfl
  rw [shift_ofAlternatives]
  exact (Except.bind_of_eq_ok (hcarried hends')).trans (Except.bind_of_eq_ok hmore')

/-! ## Items -/

variable {inner : Option (Parse Expr)}

/-- A group is read alike with its references moved. -/
theorem group_moves (htail : Follows tail) (hinner : ∀ item ∈ inner, Moves k tail item)
    (close : UInt8) (what : Expected) : Moves k tail (group inSource inner close what) := by
  intro c e d h
  cases inner with
  | none => cases h
  | some item =>
    obtain ⟨⟨body, c'⟩, hbody, h⟩ := Except.exists_of_bind_eq_ok h
    have hmoves : MovesOn inSource k tail (choiceOf inSource item) :=
      choiceOf_movesOn htail (hinner item rfl)
    obtain ⟨hpass, hblank, -⟩ := hmoves hbody
    change (if c'.skipBlanks.peek? == some close then _ else _) = _ at h
    rw [hblank] at h
    split at h
    · rename_i hclose
      obtain ⟨rfl, rfl⟩ := Prod.mk.inj (Except.ok.inj h)
      have hpeek := beq_iff_eq.mp hclose
      have hne : c'.rest ≠ [] := Cursor.rest_ne_nil_of_peek hpeek
      have hskip := Cursor.skipBlanks_embed_self (k := k) htail.onNewLine hblank hne
      have hclose' : (c'.embed k tail).skipBlanks.peek? = some close := by
        rw [hskip]
        exact Cursor.peek?_embed hpeek
      refine ⟨((Cursor.reaches_skipBlanks c).trans_passes hpass).trans
        (Cursor.passes_of_peek hpeek), ?_⟩
      unfold group
      dsimp only
      rw [Cursor.skipBlanks_embed htail.onNewLine hpass.rest_ne_nil]
      refine (Except.bind_of_eq_ok (hmoves.of_ne_nil htail hbody hne)).trans
        ((if_pos (beq_iff_eq.mpr hclose')).trans ?_)
      rw [hskip, Cursor.embed_advance_one hpeek]
    · cases h

/-- What is read at a place takes at least one byte, and what is read there in the longer text is
the same with its references moved. -/
def MovesAt (k : Nat) (tail : Bytes) (c : Cursor) (read read' : Except ParseError (Expr × Cursor)) :
    Prop :=
  ∀ ⦃e : Expr⦄ ⦃d : Cursor⦄, read = .ok (e, d) →
    c.Passes d ∧ read' = .ok (e.shift k, d.embed k tail)

/-- The cases of a reader can be looked at one by one. -/
theorem MovesAt.ite {p : Prop} [Decidable p]
    {one one' other other' : Except ParseError (Expr × Cursor)}
    (hone : MovesAt k tail c one one') (hother : MovesAt k tail c other other') :
    MovesAt k tail c (if p then one else other) (if p then one' else other') := by
  by_cases hp : p
  · rwa [if_pos hp, if_pos hp]
  · rwa [if_neg hp, if_neg hp]

/-- What passes the first byte and goes on from there. -/
theorem Moves.behind {read : Parse Expr} (hread : Moves k tail read) (h : c.Passes d) :
    MovesAt k tail c (read d) (read (d.embed k tail)) := by
  intro e f hf
  obtain ⟨hpass, hcarried⟩ := hread hf
  exact ⟨h.trans hpass, hcarried⟩

/-- An expression that is a single byte is read alike. -/
theorem movesAt_advance (h : c.Passes (c.advance 1)) (hshift : e.shift k = e) :
    MovesAt k tail c (.ok (e, c.advance 1)) (.ok (e, (c.advance 1).embed k tail)) := by
  intro e' d hread
  cases hread
  exact ⟨h, by rw [hshift]⟩

/-- A name is read alike but that it moves, and a keyword is none. -/
theorem movesAt_name (htail : tail.OnNewLine) : MovesAt k tail c
    (match Ident.ahead? c.rest with
      | some (name, width) =>
        if name.isKeyword then c.fail (.reservedWord name)
        else .ok (.ref name (c.pos + 1), c.advance width)
      | none => c.fail (.unexpected (Utf8.firstChar c.rest)))
    (match Ident.ahead? (c.embed k tail).rest with
      | some (name, width) =>
        if name.isKeyword then (c.embed k tail).fail (.reservedWord name)
        else .ok (.ref name ((c.embed k tail).pos + 1), (c.embed k tail).advance width)
      | none => (c.embed k tail).fail (.unexpected (Utf8.firstChar (c.embed k tail).rest))) := by
  intro e d h
  rw [Cursor.rest_embed, Ident.ahead?_append (Ident.not_part_of_onNewLine htail)]
  split at h
  · rename_i name width hname
    obtain ⟨hpos, hle⟩ := Ident.ahead?_width hname
    split at h
    · cases h
    · rename_i hkeyword
      cases h
      refine ⟨Cursor.passes_advance hpos hle, (if_neg hkeyword).trans ?_⟩
      rw [Cursor.embed_advance hle]
      rfl
  · cases h

/-- An operand is read alike with its references moved. -/
theorem operand_moves (htail : Follows tail) (hinner : ∀ item ∈ inner, Moves k tail item)
    (levels : Nat) : Moves k tail (operand inSource levels inner) := by
  intro c
  change MovesAt k tail c (operand inSource levels inner c)
    (operand inSource levels inner (c.embed k tail))
  unfold operand
  cases hp : c.peek? with
  | none => nofun
  | some b =>
    have hone : c.Passes (c.advance 1) := Cursor.passes_of_peek hp
    have hgroup : ∀ close what, Moves k tail (group inSource inner close what) :=
      group_moves htail hinner
    rw [Cursor.peek?_embed hp, ← Cursor.embed_advance_one hp]
    dsimp only
    refine .ite ?literal (.ite ?set (.ite ?any (.ite ?inputStart (.ite ?inputEnd (.ite ?round
      (.ite ?curly ?name))))))
    case literal =>
      intro e d h
      obtain ⟨⟨bytes, c'⟩, hread, h⟩ := Except.exists_of_bind_eq_ok h
      obtain ⟨rfl, rfl⟩ := Prod.mk.inj (Except.ok.inj h)
      obtain ⟨hpass, hcarried⟩ := Literal.carries_literal hread
      exact ⟨hpass, Except.bind_of_eq_ok hcarried⟩
    case set =>
      intro e d h
      obtain ⟨⟨members, c'⟩, hread, h⟩ := Except.exists_of_bind_eq_ok h
      obtain ⟨rfl, rfl⟩ := Prod.mk.inj (Except.ok.inj h)
      obtain ⟨hpass, hcarried⟩ :=
        Bracket.carries_bracket htail.onNewLine levels c (c.embed k tail) hread
      exact ⟨hone.trans hpass, Except.bind_of_eq_ok hcarried⟩
    case any => exact movesAt_advance hone rfl
    case inputStart => exact movesAt_advance hone rfl
    case inputEnd => exact movesAt_advance hone rfl
    case round => exact (hgroup _ _).behind hone
    case curly => exact (hgroup _ _).behind hone
    case name => exact movesAt_name htail.onNewLine

/-- A repetition mark is read alike. -/
theorem repetitionMark_embed (htail : Follows tail) {mark : Option (Nat × Option Nat)}
    (h : repetitionMark c = .ok (mark, d)) :
    c.Reaches d ∧ repetitionMark (c.embed k tail) = .ok (mark, d.embed k tail) := by
  by_cases hne : c.rest = []
  · rw [repetitionMark, Cursor.peek?_eq_none_iff.mpr hne] at h
    cases h
    refine ⟨.refl c, ?_⟩
    rw [repetitionMark, Cursor.peek?, Cursor.rest_embed, hne]
    rcases htail.onNewLine with rfl | ⟨rest, rfl⟩
    · rfl
    · rfl
  · unfold repetitionMark at h ⊢
    rw [Cursor.peek?_embed_of_ne_nil hne]
    split at h
    · obtain ⟨hway, hcarried⟩ := Bounds.bounds_embed (k := k) htail.onNewLine hne h
      refine ⟨?_, hcarried⟩
      rcases hway with ⟨-, rfl⟩ | hpass
      · exact .refl _
      · exact hpass.reaches
    · rename_i hp
      cases h
      exact ⟨(Cursor.passes_of_peek hp).reaches, by rw [Cursor.embed_advance_one hp]⟩
    · rename_i hp
      cases h
      exact ⟨(Cursor.passes_of_peek hp).reaches, by rw [Cursor.embed_advance_one hp]⟩
    · rename_i hp
      cases h
      exact ⟨(Cursor.passes_of_peek hp).reaches, by rw [Cursor.embed_advance_one hp]⟩
    · cases h
      exact ⟨.refl _, rfl⟩

/-- The repetitions of an operand are read alike with their references moved. -/
theorem repeated_embed (htail : Follows tail) (levels : Nat) {body : Expr} {c d : Cursor}
    (h : repeated levels body c = .ok (e, d)) :
    c.Reaches d ∧
      repeated levels (body.shift k) (c.embed k tail) = .ok (e.shift k, d.embed k tail) := by
  induction levels generalizing body c with
  | zero =>
    unfold repeated at h ⊢
    obtain ⟨⟨mark, c'⟩, hmark, h⟩ := Except.exists_of_bind_eq_ok h
    obtain ⟨hreach, hcarried⟩ := repetitionMark_embed htail hmark
    cases mark with
    | none =>
      cases h
      exact ⟨hreach, Except.bind_of_eq_ok hcarried⟩
    | some bounds => cases h
  | succ levels ih =>
    unfold repeated at h ⊢
    obtain ⟨⟨mark, c'⟩, hmark, h⟩ := Except.exists_of_bind_eq_ok h
    obtain ⟨hreach, hcarried⟩ := repetitionMark_embed htail hmark
    cases mark with
    | none =>
      cases h
      exact ⟨hreach, Except.bind_of_eq_ok hcarried⟩
    | some bounds =>
      obtain ⟨hreach', hrest⟩ := ih h
      exact ⟨hreach.trans hreach', (Except.bind_of_eq_ok hcarried).trans hrest⟩

/-- An item is read alike with its references moved where the next level down is. -/
theorem itemOf_moves (htail : Follows tail) (hinner : ∀ item ∈ inner, Moves k tail item)
    (levels : Nat) : Moves k tail (itemOf inSource levels inner) := by
  intro c e d h
  by_cases hne : c.rest = []
  · have hpeek : c.peek? = none := Cursor.peek?_eq_none_iff.mpr hne
    rw [itemOf, hpeek] at h
    obtain ⟨read, hread, -⟩ := Except.exists_of_bind_eq_ok h
    rw [operand, hpeek] at hread
    cases hread
  unfold itemOf at h ⊢
  rw [Cursor.peek?_embed_of_ne_nil hne]
  split at h
  · rename_i kind hkind
    obtain ⟨b, hb, -⟩ := Option.bind_eq_some_iff.mp hkind
    cases inner with
    | none => cases h
    | some item =>
      obtain ⟨⟨body, c'⟩, hbody, h⟩ := Except.exists_of_bind_eq_ok h
      obtain ⟨rfl, rfl⟩ := Prod.mk.inj (Except.ok.inj h)
      obtain ⟨hpass, hcarried⟩ := hinner item rfl hbody
      have hne' : (c.advance 1).skipBlanks.rest ≠ [] := hpass.rest_ne_nil
      refine ⟨(Cursor.passes_of_peek hb).trans
        ((Cursor.reaches_skipBlanks _).trans_passes hpass), ?_⟩
      dsimp only
      rw [← Cursor.embed_advance_one hb, Cursor.skipBlanks_embed htail.onNewLine hne']
      exact Except.bind_of_eq_ok hcarried
  · obtain ⟨⟨body, c'⟩, hbody, h⟩ := Except.exists_of_bind_eq_ok h
    obtain ⟨hpass, hcarried⟩ := operand_moves htail hinner levels hbody
    obtain ⟨hreach, hrest⟩ := repeated_embed htail levels h
    exact ⟨hpass.trans_reaches hreach, (Except.bind_of_eq_ok hcarried).trans hrest⟩

/-- An item is read alike with its references moved. -/
theorem item_moves (htail : Follows tail) (levels : Nat) :
    Moves k tail (Expr.item inSource levels) := by
  induction levels with
  | zero => exact itemOf_moves htail (by simp) 0
  | succ levels ih =>
    refine itemOf_moves htail (fun item hitem => ?_) _
    cases hitem
    exact ih

/-- An expression is read alike with its references moved, if what goes to the end of the text ends
there. -/
theorem expression_movesOn (htail : Follows tail) :
    MovesOn inSource k tail (expression inSource) :=
  choiceOf_movesOn htail (item_moves htail nestingLimit)

end PatternEngine.Expr
