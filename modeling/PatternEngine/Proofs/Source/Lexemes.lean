import PatternEngine.Expr.Bounds
import PatternEngine.Expr.Bracket
import PatternEngine.Proofs.Source.Cursors

/-!
# Lexemes in a longer text

Names, literals, bracket expressions and repetition bounds are read alike in a text and in a longer
one, and all but bounds take at least one byte. A dash that is the last byte of the text would make
a range with the line behind it, but no bracket expression that is read to its end comes to such a
dash.
-/

namespace PatternEngine

variable {c d opening : Cursor} {k : Nat} {tail : Bytes}

namespace Ident

variable {bytes : Bytes} {name : Ident} {width : Nat}

/-- The bytes of a name are those of the text. -/
theorem nameAhead_isPrefixOf (bytes : Bytes) : nameAhead bytes <+: bytes := by
  cases bytes with
  | nil => exact List.nil_prefix
  | cons b bytes =>
    rw [nameAhead]
    split
    · exact List.prefix_cons_iff.mpr (.inr ⟨_, rfl, List.takeWhile_prefix _⟩)
    · exact List.nil_prefix

/-- A text starts with a name where it starts with a byte that may begin one. -/
theorem nameAhead_eq_nil_iff : nameAhead bytes = [] ↔ bytes.head?.any isStart = false := by
  cases bytes with
  | nil => simp [nameAhead]
  | cons b bytes =>
    cases hb : isStart b <;> simp [nameAhead, hb]

/-- What a text starts with that starts with an identifier. -/
theorem ahead?_cases (h : ahead? bytes = some (name, width)) : nameAhead bytes ≠ [] ∧
    (name = ⟨none, (nameAhead bytes).toAscii⟩ ∧ width = (nameAhead bytes).length ∨
      ∃ rest, bytes.drop (nameAhead bytes).length = 0x2e :: rest ∧ nameAhead rest ≠ [] ∧
        name = ⟨some (nameAhead bytes).toAscii, (nameAhead rest).toAscii⟩ ∧
        width = (nameAhead bytes).length + 1 + (nameAhead rest).length) := by
  unfold ahead? at h
  split at h
  · cases h
  · rename_i first hfirst
    refine ⟨hfirst, ?_⟩
    split at h
    · rename_i rest hrest
      split at h
      · cases h
        exact .inl ⟨rfl, rfl⟩
      · rename_i second hsecond
        cases h
        exact .inr ⟨rest, hrest, hsecond, rfl, rfl⟩
    · cases h
      exact .inl ⟨rfl, rfl⟩

/-- An identifier without prefix is the name that the text starts with. -/
theorem ahead?_plain {base : String} (h : ahead? bytes = some (⟨none, base⟩, width)) :
    nameAhead bytes ≠ [] ∧ base = (nameAhead bytes).toAscii ∧ width = (nameAhead bytes).length := by
  obtain ⟨hne, hcases⟩ := ahead?_cases h
  rcases hcases with ⟨heq, hwidth⟩ | ⟨rest, -, -, heq, -⟩
  · cases heq
    exact ⟨hne, rfl, hwidth⟩
  · cases heq

/-- A text starts with an identifier where it starts with a name. -/
theorem ahead?_eq_none_iff : ahead? bytes = none ↔ nameAhead bytes = [] := by
  unfold ahead?
  constructor
  · intro h
    split at h
    · assumption
    · split at h
      · split at h <;> cases h
      · cases h
  · intro h
    rw [h]

/-- An identifier takes at least one byte. -/
theorem ahead?_width (h : ahead? bytes = some (name, width)) :
    0 < width ∧ width ≤ bytes.length := by
  obtain ⟨hfirst, hcases⟩ := ahead?_cases h
  have hpos := List.length_pos_iff.mpr hfirst
  have hle := (nameAhead_isPrefixOf bytes).length_le
  rcases hcases with ⟨-, rfl⟩ | ⟨rest, hrest, -, -, rfl⟩
  · exact ⟨hpos, hle⟩
  · have hlen := congrArg List.length hrest
    have hsecond := (nameAhead_isPrefixOf rest).length_le
    rw [List.length_drop, List.length_cons] at hlen
    omega

theorem isPart_of_isStart {b : UInt8} (h : isStart b = true) : isPart b = true := by
  rw [isStart, Bool.or_eq_true] at h
  rw [isPart, Ascii.isAlnum, Bool.or_eq_true, Bool.or_eq_true]
  exact h.imp .inl id

/-- A name ends before a byte that is no part of one. -/
theorem nameAhead_append (htail : ∀ b ∈ tail.head?, isPart b = false) (bytes : Bytes) :
    nameAhead (bytes ++ tail) = nameAhead bytes := by
  cases bytes with
  | nil =>
    cases tail with
    | nil => rfl
    | cons b tail =>
      have hstart : isStart b = false := by
        refine Bool.eq_false_iff.mpr fun hstart => ?_
        cases (isPart_of_isStart hstart).symm.trans (htail b rfl)
      exact if_neg (Bool.eq_false_iff.mp hstart)
  | cons b bytes => simp only [List.cons_append, nameAhead, Bytes.takeWhile_append_tail htail]

/-- Every byte of a name may stand in one. -/
theorem isPart_of_mem_nameAhead {b : UInt8} (hb : b ∈ nameAhead bytes) : isPart b = true := by
  cases bytes with
  | nil => cases hb
  | cons first bytes =>
    rw [nameAhead] at hb
    split at hb
    · rename_i hfirst
      rcases List.mem_cons.mp hb with rfl | hb
      · exact isPart_of_isStart hfirst
      · exact List.mem_takeWhile_imp hb
    · cases hb

/-- A name takes as many bytes as can belong to it. -/
theorem not_isPart_behind_name (h : nameAhead bytes ≠ []) :
    (bytes.drop (nameAhead bytes).length).head?.any isPart = false := by
  cases bytes with
  | nil => exact absurd rfl h
  | cons first bytes =>
    rw [nameAhead] at h ⊢
    split at h
    · rename_i hfirst
      rw [if_pos hfirst, List.length_cons, List.drop_succ_cons, Bytes.drop_length_takeWhile]
      have hhead := List.head?_dropWhile_not isPart bytes
      cases hb : (bytes.dropWhile isPart).head? with
      | none => rfl
      | some b =>
        rw [hb] at hhead
        exact hhead
    · exact absurd rfl h

/-- An identifier ends before a byte that is neither a part of a name nor a dot. -/
theorem ahead?_append (htail : ∀ b ∈ tail.head?, isPart b = false ∧ b ≠ 0x2e) (bytes : Bytes) :
    ahead? (bytes ++ tail) = ahead? bytes := by
  have hpart : ∀ b ∈ tail.head?, isPart b = false := fun b hb => (htail b hb).1
  have hle := (nameAhead_isPrefixOf bytes).length_le
  unfold ahead?
  rw [nameAhead_append hpart]
  cases hfirst : nameAhead bytes with
  | nil => rfl
  | cons b first =>
    rw [hfirst] at hle
    simp only [List.drop_append_of_le_length hle]
    cases bytes.drop (b :: first).length with
    | nil =>
      cases tail with
      | nil => rfl
      | cons dot rest => simp [(htail dot rfl).2]
    | cons dot rest =>
      by_cases hdot : dot = 0x2e
      · subst hdot
        simp only [List.cons_append, nameAhead_append hpart]
      · simp [hdot]

/-- A line feed ends an identifier. -/
theorem not_part_of_onNewLine (htail : tail.OnNewLine) :
    ∀ b ∈ tail.head?, isPart b = false ∧ b ≠ 0x2e := by
  rcases htail with rfl | ⟨rest, rfl⟩
  · nofun
  · intro b hb
    cases hb
    decide

end Ident

/-- What the first reader reads takes at least one byte, and the second reads the same in the longer
text. -/
def Parse.Carries {α : Type} (k : Nat) (tail : Bytes) (read read' : Parse α) : Prop :=
  ∀ ⦃c : Cursor⦄ ⦃value : α⦄ ⦃d : Cursor⦄, read c = .ok (value, d) →
    c.Passes d ∧ read' (c.embed k tail) = .ok (value, d.embed k tail)

/-- The code point of the character of a byte is the byte. -/
theorem Ascii.toNat_toChar (b : UInt8) : (toChar b).toNat = b.toNat := by
  have hlt := b.toNat_lt
  rw [Ascii.toChar, Char.ofNat, dif_pos (Or.inl (by omega))]
  rfl

/-- Different bytes stand for different characters. -/
theorem Ascii.toChar_injective : Function.Injective Ascii.toChar := by
  intro a b h
  have hnat := congrArg Char.toNat h
  rw [toNat_toChar, toNat_toChar] at hnat
  exact UInt8.toNat_inj.mp hnat

/-- Different texts of bytes are different strings. -/
theorem Bytes.toAscii_injective : Function.Injective Bytes.toAscii := fun _ _ h =>
  List.map_injective_iff.mpr Ascii.toChar_injective (String.ofList_injective h)

/-! ## Literals -/

namespace Literal

/-- An escape is read from the bytes that it consists of. -/
theorem carries_escape : Parse.Carries k tail escape escape := by
  intro c value d h
  obtain ⟨pos, bytes⟩ := c
  rcases bytes with _ | ⟨slash, _ | ⟨b, rest⟩⟩
  · cases h
  · cases h
  · simp only [escape, List.drop_succ_cons, List.drop_zero] at h
    simp only [escape, Cursor.embed, List.cons_append, List.drop_succ_cons, List.drop_zero]
    have htwo : (⟨pos, slash :: b :: rest⟩ : Cursor).Passes ⟨pos + 2, rest⟩ :=
      ⟨2, by decide, by simp, rfl⟩
    split at h
    · rename_i hb
      cases h
      exact ⟨htwo, by rw [if_pos hb]; rfl⟩
    rename_i hb
    rw [if_neg hb]
    split at h
    · rename_i hb
      cases h
      exact ⟨htwo, by rw [if_pos hb]; rfl⟩
    rename_i hb
    rw [if_neg hb]
    split at h
    · rename_i hb
      cases h
      exact ⟨htwo, by rw [if_pos hb]; rfl⟩
    rename_i hb
    rw [if_neg hb]
    split at h
    · rename_i hb
      rw [if_pos hb]
      rcases rest with _ | ⟨first, _ | ⟨second, rest⟩⟩
      · cases h
      · cases h
      · dsimp only at h
        dsimp only [List.cons_append]
        split at h
        · rename_i value hvalue
          cases h
          exact ⟨⟨4, by decide, by simp, rfl⟩, rfl⟩
        · cases h
    rename_i hb
    rw [if_neg hb]
    split at h
    · rename_i hb
      cases h
      exact ⟨htwo, by rw [if_pos hb]; rfl⟩
    · cases h

/-- The bytes of a literal are read up to its closing quote, wherever a missing one would be
reported. -/
theorem bodyFrom_embed {opening' : Cursor} (steps : Bytes) {read value : Bytes} {c d : Cursor}
    (h : bodyFrom opening steps read c = .ok (value, d)) :
    c.Passes d ∧ bodyFrom opening' (steps ++ tail) read (c.embed k tail) =
      .ok (value, d.embed k tail) := by
  induction steps generalizing read c with
  | nil => cases h
  | cons step steps ih =>
    rw [bodyFrom] at h
    rw [List.cons_append, bodyFrom]
    cases hp : c.peek? with
    | none =>
      rw [hp] at h
      cases h
    | some b =>
      have hone : c.Passes (c.advance 1) := Cursor.passes_of_peek hp
      have hembed : (c.advance 1).embed k tail = (c.embed k tail).advance 1 :=
        Cursor.embed_advance_one hp
      rw [hp] at h
      rw [Cursor.peek?_embed hp]
      dsimp only at h ⊢
      split at h
      · rename_i hb
        cases h
        rw [if_pos hb, hembed]
        exact ⟨hone, rfl⟩
      rename_i hb
      rw [if_neg hb]
      split at h
      · rename_i hb
        obtain ⟨⟨escaped, e⟩, he, h⟩ := Except.exists_of_bind_eq_ok h
        obtain ⟨hce, hcarried⟩ := carries_escape he
        obtain ⟨hed, hrest⟩ := ih h
        rw [if_pos hb, hcarried]
        exact ⟨hce.trans hed, hrest⟩
      · rename_i hb
        rw [if_neg hb, ← hembed]
        obtain ⟨hcd, hrest⟩ := ih h
        exact ⟨hone.trans hcd, hrest⟩

/-- A literal is read from the bytes that it consists of. -/
theorem carries_literal : Parse.Carries k tail literal literal := by
  intro c value d h
  cases hp : c.peek? with
  | none =>
    rw [literal, Cursor.peek?_eq_none_iff.mp hp] at h
    cases h
  | some b =>
    obtain ⟨hd, hembed⟩ := bodyFrom_embed c.rest h
    refine ⟨(Cursor.passes_of_peek hp).trans hd, ?_⟩
    rw [literal, ← Cursor.embed_advance_one hp]
    exact hembed

end Literal

/-! ## Bracket expressions -/

namespace Bracket

variable {opening' : Cursor} {members : ByteSet}

/-- The name of a class ends at the colon behind it. -/
theorem carries_namedClass (htail : tail.OnNewLine) :
    Parse.Carries k tail (namedClass opening) (namedClass opening') := by
  intro c value d h
  have hne : c.rest ≠ [] := by
    intro hc
    simp [namedClass, hc, Cursor.fail] at h
  have hpos : 1 ≤ c.rest.length := List.length_pos_iff.mpr hne
  have hrun : ((c.rest ++ tail).drop 1).takeWhile isClassPart =
      (c.rest.drop 1).takeWhile isClassPart := by
    rw [List.drop_append_of_le_length hpos]
    exact Bytes.takeWhile_append_tail (htail.stops (by decide)) _
  have hle : 1 + ((c.rest.drop 1).takeWhile isClassPart).length ≤ c.rest.length := by
    have hrunle := (List.takeWhile_prefix isClassPart (l := c.rest.drop 1)).length_le
    rw [List.length_drop] at hrunle
    omega
  have hreach := Cursor.reaches_advance hle
  have hbehind : (c.advance _).embed k tail = (c.embed k tail).advance _ := Cursor.embed_advance hle
  unfold namedClass at h ⊢
  simp only [Cursor.rest_embed, hrun, ← hbehind] at h ⊢
  generalize c.advance (1 + ((c.rest.drop 1).takeWhile isClassPart).length) = behind at h hreach ⊢
  obtain ⟨pos, bytes⟩ := behind
  dsimp only at h
  split at h
  · rename_i rest
    simp only [Cursor.embed, List.cons_append]
    split at h
    · rename_i named hnamed
      cases h
      have htwo : (⟨pos, 0x3a :: 0x5d :: rest⟩ : Cursor).Passes ⟨pos + 2, rest⟩ :=
        ⟨2, by decide, by simp, rfl⟩
      exact ⟨hreach.trans_passes htwo, rfl⟩
    · cases h
  · cases h

/-- A byte is read from what it is written with. -/
theorem carries_byte : Parse.Carries k tail byte byte := by
  intro c value d h
  unfold byte at h ⊢
  cases hp : c.peek? with
  | none =>
    rw [hp] at h
    cases h
  | some b =>
    rw [hp] at h
    rw [Cursor.peek?_embed hp]
    dsimp only at h ⊢
    split at h
    · rename_i hb
      rw [if_pos hb]
      exact Literal.carries_escape h
    · rename_i hb
      cases h
      rw [if_neg hb, Cursor.embed_advance_one hp]
      exact ⟨Cursor.passes_of_peek hp, rfl⟩

variable {lo next : UInt8} {rest : Bytes}

/-- A dash with a byte behind it makes a range unless that byte is the closing bracket. -/
theorem byteOrRange_of_dash (hlo : byte c = .ok (lo, d)) (h : d.rest = 0x2d :: next :: rest) :
    byteOrRange c = if next == 0x5d then .ok (.singleton lo, d) else (do
      let (hi, e) ← byte (d.advance 1)
      if hi < lo then e.fail .reversedRange else .ok (.range lo hi, e)) := by
  obtain ⟨pos, bytes⟩ := d
  cases h
  rw [byteOrRange, hlo]
  rfl

/-- Without a dash and a byte behind it there is no range. -/
theorem byteOrRange_of_no_dash (hlo : byte c = .ok (lo, d))
    (h : ∀ next rest, d.rest ≠ 0x2d :: next :: rest) :
    byteOrRange c = .ok (.singleton lo, d) := by
  rw [byteOrRange, hlo]
  dsimp only [bind, Except.bind]
  split
  · rename_i next rest hd
    exact absurd hd (h next rest)
  · rfl

/-- A byte or a range is read alike unless a dash behind it ends the text. -/
theorem byteOrRange_embed (htail : tail.OnNewLine) (h : byteOrRange c = .ok (members, d)) :
    c.Passes d ∧ (d.rest ≠ [0x2d] →
      byteOrRange (c.embed k tail) = .ok (members, d.embed k tail)) := by
  obtain ⟨⟨lo, e⟩, hlo, -⟩ := Except.exists_of_bind_eq_ok h
  obtain ⟨hce, hlo'⟩ : c.Passes e ∧ byte (c.embed k tail) = .ok (lo, e.embed k tail) :=
    carries_byte hlo
  by_cases hdash : ∃ next rest, e.rest = 0x2d :: next :: rest
  · obtain ⟨next, rest, he⟩ := hdash
    have he' : (e.embed k tail).rest = 0x2d :: next :: (rest ++ tail) := by
      rw [Cursor.rest_embed, he]
      rfl
    have hdash : e.peek? = some 0x2d := by rw [Cursor.peek?, he]; rfl
    rw [byteOrRange_of_dash hlo he] at h
    rw [byteOrRange_of_dash hlo' he']
    split at h
    · rename_i hclose
      cases h
      exact ⟨hce, fun _ => if_pos hclose⟩
    · rename_i hclose
      obtain ⟨⟨hi, f⟩, hhi, h⟩ := Except.exists_of_bind_eq_ok h
      obtain ⟨hef, hhi'⟩ : (e.advance 1).Passes f ∧
          byte ((e.advance 1).embed k tail) = .ok (hi, f.embed k tail) := carries_byte hhi
      rw [if_neg hclose, ← Cursor.embed_advance_one hdash, hhi']
      change (if hi < lo then _ else _) = _ at h
      split at h
      · cases h
      · rename_i hle
        obtain ⟨rfl, rfl⟩ := Prod.mk.inj (Except.ok.inj h)
        exact ⟨hce.trans ((Cursor.passes_of_peek hdash).trans hef), fun _ => if_neg hle⟩
  · simp only [not_exists] at hdash
    rw [byteOrRange_of_no_dash hlo hdash] at h
    cases h
    refine ⟨hce, fun hlast => byteOrRange_of_no_dash hlo' fun next rest hd => ?_⟩
    rw [Cursor.rest_embed] at hd
    rcases hrest : d.rest with _ | ⟨b, _ | ⟨next', rest'⟩⟩
    · rw [hrest] at hd
      rcases htail with rfl | ⟨_, rfl⟩
      · cases hd
      · simp at hd
    · rw [hrest] at hd hlast
      simp only [List.cons_append, List.cons.injEq] at hd
      exact hlast (congrArg (· :: []) hd.1)
    · rw [hrest] at hd
      simp only [List.cons_append, List.cons.injEq] at hd
      exact hdash next' rest' (hd.1 ▸ hrest)

variable {nested : Option (Cursor → Parse ByteSet)}

/-- At the end of the text the closing bracket is missing. -/
theorem itemsFrom_of_nil (steps : Bytes) (s : ByteSet) (hc : c.rest = []) :
    itemsFrom nested opening steps s c = opening.fail .unterminatedSet := by
  have hpeek : c.peek? = none := Cursor.peek?_eq_none_iff.mpr hc
  cases steps with
  | nil => rfl
  | cons _ _ => simp only [itemsFrom.eq_def, hpeek]

/-- No bracket expression ends with a dash. -/
theorem itemsFrom_of_dash (steps : Bytes) (s : ByteSet) (hc : c.rest = [0x2d]) :
    itemsFrom nested opening steps s c = opening.fail .unterminatedSet := by
  have hpeek : c.peek? = some 0x2d := by
    rw [Cursor.peek?, hc]
    rfl
  have hbyte : byte c = .ok (0x2d, c.advance 1) := by
    rw [byte, hpeek]
    rfl
  have hend : (c.advance 1).rest = [] := by
    rw [Cursor.rest_advance, hc]
    rfl
  have hone : byteOrRange c = .ok (.singleton 0x2d, c.advance 1) := by
    refine byteOrRange_of_no_dash hbyte fun next rest hrest => ?_
    rw [hend] at hrest
    cases hrest
  cases steps with
  | nil => rfl
  | cons step steps =>
    rw [itemsFrom.eq_def]
    dsimp only
    rw [hpeek]
    exact (Except.bind_of_eq_ok hone).trans (itemsFrom_of_nil steps _ hend)

/-- The items of a bracket expression are read alike where nested ones are. -/
theorem itemsFrom_embed (htail : tail.OnNewLine)
    (hnested : ∀ bracket ∈ nested, ∀ opening opening',
      Parse.Carries k tail (bracket opening) (bracket opening'))
    (steps : Bytes) {s : ByteSet} {c d : Cursor}
    (h : itemsFrom nested opening steps s c = .ok (members, d)) :
    c.Passes d ∧ itemsFrom nested opening' (steps ++ tail) s (c.embed k tail) =
      .ok (members, d.embed k tail) := by
  induction steps generalizing s c with
  | nil => cases h
  | cons step steps ih =>
    rw [itemsFrom.eq_def] at h
    rw [List.cons_append, itemsFrom.eq_def]
    dsimp only at h ⊢
    cases hp : c.peek? with
    | none =>
      rw [hp] at h
      cases h
    | some b =>
      have hone : c.Passes (c.advance 1) := Cursor.passes_of_peek hp
      have hembed : (c.advance 1).embed k tail = (c.embed k tail).advance 1 :=
        Cursor.embed_advance_one hp
      rw [hp] at h
      rw [Cursor.peek?_embed hp, ← hembed]
      dsimp only at h ⊢
      split at h
      · rename_i hb
        cases h
        rw [if_pos hb]
        exact ⟨hone, rfl⟩
      rename_i hb
      rw [if_neg hb]
      split at h
      · rename_i hb
        rw [if_pos hb]
        cases nested with
        | none => cases h
        | some bracket =>
          obtain ⟨⟨t, e⟩, he, h⟩ := Except.exists_of_bind_eq_ok h
          obtain ⟨hce, hcarried⟩ := hnested bracket rfl c (c.embed k tail) he
          obtain ⟨hed, hrest⟩ := ih h
          exact ⟨hone.trans (hce.trans hed), (Except.bind_of_eq_ok hcarried).trans hrest⟩
      · rename_i hb
        rw [if_neg hb]
        obtain ⟨⟨t, e⟩, he, h⟩ := Except.exists_of_bind_eq_ok h
        have hlast : e.rest ≠ [0x2d] := by
          intro hlast
          cases (itemsFrom_of_dash steps (s.union t) hlast).symm.trans h
        obtain ⟨hce, hcarried⟩ := byteOrRange_embed (k := k) htail he
        obtain ⟨hed, hrest⟩ := ih h
        exact ⟨hce.trans hed, (Except.bind_of_eq_ok (hcarried hlast)).trans hrest⟩

/-- A bracket expression is read alike where nested ones are. -/
theorem carries_bracketOf (htail : tail.OnNewLine)
    (hnested : ∀ bracket ∈ nested, ∀ opening opening',
      Parse.Carries k tail (bracket opening) (bracket opening')) :
    Parse.Carries k tail (bracketOf nested opening) (bracketOf nested opening') := by
  intro c value d h
  have hne : c.rest ≠ [] := by
    intro hc
    have hpeek : c.peek? = none := Cursor.peek?_eq_none_iff.mpr hc
    rw [bracketOf, hpeek] at h
    obtain ⟨read, hitems, -⟩ := Except.exists_of_bind_eq_ok h
    cases (itemsFrom_of_nil c.rest .empty hc).symm.trans hitems
  unfold bracketOf at h ⊢
  rw [Cursor.peek?_embed_of_ne_nil hne]
  split at h
  · rename_i hcolon
    rw [if_pos hcolon]
    exact carries_namedClass htail h
  · rename_i hcolon
    rw [if_neg hcolon]
    -- Where the items start: behind the caret, if there is one.
    have hcaret : c.Reaches (if c.peek? == some 0x5e then c.advance 1 else c) ∧
        (if c.peek? == some 0x5e then (c.embed k tail).advance 1 else c.embed k tail) =
          (if c.peek? == some 0x5e then c.advance 1 else c).embed k tail := by
      split
      · rename_i hb
        exact ⟨(Cursor.passes_of_peek (beq_iff_eq.mp hb)).reaches,
          (Cursor.embed_advance_one (beq_iff_eq.mp hb)).symm⟩
      · exact ⟨.refl c, rfl⟩
    dsimp only at h ⊢
    rw [hcaret.2]
    obtain ⟨⟨s, e⟩, he, h⟩ := Except.exists_of_bind_eq_ok h
    obtain ⟨rfl, rfl⟩ := Prod.mk.inj (Except.ok.inj h)
    obtain ⟨hpass, hcarried⟩ := itemsFrom_embed htail hnested _ he
    exact ⟨hcaret.1.trans_passes hpass, Except.bind_of_eq_ok hcarried⟩

/-- A bracket expression is read alike, wherever a missing end would be reported. -/
theorem carries_bracket (htail : tail.OnNewLine) (levels : Nat) (opening opening' : Cursor) :
    Parse.Carries k tail (bracket levels opening) (bracket levels opening') := by
  induction levels generalizing opening opening' with
  | zero => exact carries_bracketOf htail (by simp)
  | succ levels ih =>
    refine carries_bracketOf htail fun bracket hbracket => ?_
    cases hbracket
    exact ih

end Bracket

/-! ## Repetition bounds -/

namespace Bounds

/-- What a number is does not depend on where a fault would be reported. -/
theorem number_ok {digits : Bytes} {n : Option Nat} (h : number c digits = .ok n) (c' : Cursor) :
    number c' digits = .ok n := by
  unfold number at h ⊢
  split at h
  · rename_i hempty
    rwa [if_pos hempty]
  · rename_i hempty
    rw [if_neg hempty]
    split at h
    · rename_i hlt
      rwa [if_pos hlt]
    · cases h

/-- What bounds are does not depend on where a fault would be reported. -/
theorem ofBody_ok {body : Bytes} {pair : Nat × Option Nat} (h : ofBody c body = .ok pair)
    (c' : Cursor) : ofBody c' body = .ok pair := by
  unfold ofBody at h ⊢
  split at h
  · split at h
    · cases h
    · rename_i hempty
      obtain ⟨n, hn, h⟩ := Except.exists_of_bind_eq_ok h
      rw [if_neg hempty, number_ok hn c']
      exact h
  · obtain ⟨least, hleast, h⟩ := Except.exists_of_bind_eq_ok h
    obtain ⟨most, hmost, h⟩ := Except.exists_of_bind_eq_ok h
    rw [number_ok hleast c', number_ok hmost c']
    dsimp only [bind, Except.bind]
    split at h
    · cases h
    · rename_i hle
      rwa [if_neg hle]
  · cases h

/-- Bounds are read alike, and so is a brace that opens a group. -/
theorem bounds_embed (htail : tail.OnNewLine) {mark : Option (Nat × Option Nat)} (hne : c.rest ≠ [])
    (h : bounds c = .ok (mark, d)) :
    (mark = none ∧ d = c ∨ c.Passes d) ∧ bounds (c.embed k tail) = .ok (mark, d.embed k tail) := by
  have hpos : 1 ≤ c.rest.length := List.length_pos_iff.mpr hne
  have hrun : ((c.rest ++ tail).drop 1).takeWhile isPart = (c.rest.drop 1).takeWhile isPart := by
    rw [List.drop_append_of_le_length hpos]
    exact Bytes.takeWhile_append_tail (htail.stops (by decide)) _
  have hle : 1 + ((c.rest.drop 1).takeWhile isPart).length ≤ c.rest.length := by
    have hrunle := (List.takeWhile_prefix isPart (l := c.rest.drop 1)).length_le
    rw [List.length_drop] at hrunle
    omega
  have hreach : c.Passes (c.advance (1 + ((c.rest.drop 1).takeWhile isPart).length)) :=
    Cursor.passes_advance (by omega) hle
  have hbehind : (c.advance _).embed k tail = (c.embed k tail).advance _ := Cursor.embed_advance hle
  unfold bounds at h ⊢
  simp only [Cursor.rest_embed, hrun, ← hbehind] at h ⊢
  generalize c.advance (1 + ((c.rest.drop 1).takeWhile isPart).length) = behind at h hreach ⊢
  have hclose : ((behind.embed k tail).peek? == some 0x7d) = (behind.peek? == some 0x7d) := by
    rw [Bool.eq_iff_iff, beq_iff_eq, beq_iff_eq]
    exact Bytes.head?_append_tail htail (by decide) _
  rw [hclose]
  split at h
  · rename_i hb
    obtain ⟨pair, hpair, h⟩ := Except.exists_of_bind_eq_ok h
    obtain ⟨rfl, rfl⟩ := Prod.mk.inj (Except.ok.inj h)
    have hpeek := beq_iff_eq.mp hb
    rw [if_pos hb, ofBody_ok hpair, Cursor.embed_advance_one hpeek]
    exact ⟨.inr (hreach.trans (Cursor.passes_of_peek hpeek)), rfl⟩
  · rename_i hb
    obtain ⟨rfl, rfl⟩ := Prod.mk.inj (Except.ok.inj h)
    rw [if_neg hb]
    exact ⟨.inl ⟨rfl, rfl⟩, rfl⟩

end Bounds

end PatternEngine
