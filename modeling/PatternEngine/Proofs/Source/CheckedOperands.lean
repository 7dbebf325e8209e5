import PatternEngine.Proofs.Source.CheckedLexemes
import PatternEngine.Proofs.Source.NestedBrackets

/-!
# Reading operands with checks

The parser with checks of literals, bracket expressions and repetition bounds. It goes through
literals and bracket expressions byte by byte, and so through the middle of characters; but both end
with a byte of ASCII, so that what is behind them starts with a character again.
-/

namespace PatternEngine.CheckedParser

open Move (broken demand offset)

variable (text : Bytes)

/-- The byte that a string of two bytes writes in hexadecimal. -/
def radix16? (hex : String) : Option UInt8 :=
  match Bytes.ofString hex with
  | [first, second] => Literal.hexByte? first second
  | _ => none

/-- Pass over the rest of an escape, behind its backslash. Two bytes are looked at as a string only
where characters end there. -/
def parseEscape : Move UInt8 := do
  let ahead ← peek text
  match ahead with
  | none => refuse text .unterminatedEscape
  | some b =>
    advance text 1
    if b == 0x6e then pure 0x0a
    else if b == 0x72 then pure 0x0d
    else if b == 0x74 then pure 0x09
    else if b == 0x78 then
      let pos ← offset
      match radix16? ((Utf8.cut? text pos (pos + 2)).getD "") with
      | none => refuse text .invalidHexEscape
      | some value =>
        advance text 2
        pure value
    else if b == 0x22 || b == 0x5c || b == 0x5b || b == 0x5d || b == 0x2d || b == 0x5e then pure b
    else
      back text 2
      refuse text (.invalidEscape (Ascii.toChar b))

/-- Pass over the bytes of a literal and its closing quote. The bytes read so far are in reverse. -/
def literalFrom (start : Nat) : (rounds : Nat) → Bytes → Move Bytes
  | 0, _ => broken
  | rounds + 1, read => do
    let ahead ← peek text
    match ahead with
    | none =>
      goTo text start
      refuse text .unterminatedLiteral
    | some b =>
      if b == 0x22 then
        advance text 1
        pure read.reverse
      else if b == 0x5c then
        advance text 1
        let value ← parseEscape text
        literalFrom start rounds (value :: read)
      else
        advance text 1
        literalFrom start rounds (b :: read)

/-- Pass over a literal. -/
def parseLiteral : Move Bytes := do
  let start ← offset
  advance text 1
  literalFrom text start (rounds text) []

/-- Pass over a byte of a bracket expression, plain or escaped. -/
def setByte : Move UInt8 := do
  let ahead ← peek text
  match ahead with
  | none => refuse text .unterminatedSet
  | some b =>
    advance text 1
    if b == 0x5c then parseEscape text else pure b

/-- Pass over a byte or a range. -/
def setItem : Move ByteSet := do
  let lo ← setByte text
  let dash ← peek text
  let next ← peekAt text 1
  if dash == some 0x2d && next.any (· != 0x5d) then
    advance text 1
    let hi ← setByte text
    if hi < lo then refuse text .reversedRange else pure (.range lo hi)
  else pure (.singleton lo)

/-- Pass over the name of a class from the colon before it on. -/
def parseClass (start : Nat) : Move ByteSet := do
  let pos ← offset
  let stop ← demand (behindWhile? text Bracket.isClassPart (rounds text) (pos + 1))
  if text[stop]? == some 0x3a && text[stop + 1]? == some 0x5d then
    let body ← cut text (pos + 1) stop
    let complemented := body.toList.head? == some '^'
    let name := if complemented then String.ofList body.toList.tail else body
    match NamedClass.ofName? name with
    | none => refuse text (.unknownClass name)
    | some named =>
      goTo text (stop + 2)
      pure (Bracket.complementIf complemented named.toByteSet)
  else
    goTo text start
    refuse text .unterminatedSet

/-- Pass over the items of a bracket expression and its closing bracket and unite them with a set. A
nested bracket expression is one part more around what is read. -/
def setItemsFrom (nested : Nat → Move ByteSet) (start : Nat) :
    (rounds : Nat) → ByteSet → Move ByteSet
  | 0, _ => broken
  | rounds + 1, s => do
    let pos ← offset
    let ahead ← peek text
    match ahead with
    | none =>
      goTo text start
      refuse text .unterminatedSet
    | some b =>
      if b == 0x5d then
        advance text 1
        pure s
      else if b == 0x5b then
        advance text 1
        descend text
        let t ← nested pos
        ascend 1
        setItemsFrom nested start rounds (s.union t)
      else
        let t ← setItem text
        setItemsFrom nested start rounds (s.union t)

/-- Pass over a bracket expression behind its opening bracket, the offset of which is given. -/
def parseSetOf (nested : Nat → Move ByteSet) (start : Nat) : Move ByteSet := do
  let ahead ← peek text
  if ahead == some 0x3a then parseClass text start
  else if ahead == some 0x5e then
    advance text 1
    let s ← setItemsFrom text nested start (rounds text) .empty
    pure s.complement
  else setItemsFrom text nested start (rounds text) .empty

/-- Pass over a bracket expression, with at most so many calls one within the other. -/
def parseSet : (calls : Nat) → (start : Nat) → Move ByteSet
  | 0 => fun _ => broken
  | calls + 1 => parseSetOf text (parseSet calls)

/-- Go on with what was worked out from a part of the text; a violation is one here. -/
def settle {α : Type} : Except ParseError α → Move α
  | .error e => refuse text e.cause
  | .ok a => pure a

/-- Pass over repetition bounds from the opening brace on; none when the brace opens a group. -/
def scanBounds : Move (Option (Nat × Option Nat)) := do
  let start ← offset
  let stop ← demand (behindWhile? text Bounds.isPart (rounds text) (start + 1))
  if text[stop]? == some 0x7d then
    let inside ← cut text (start + 1) stop
    let pair ← settle text
      (Bounds.ofBody (Cursor.start text) ((Bytes.ofString inside).filter (· != 0x20)))
    goTo text (stop + 1)
    pure (some pair)
  else pure none

/-! ## Escapes and literals -/

variable {text : Bytes} {c d opening : Cursor} {depth more : Nat} {b : UInt8}

theorem isAscii_of_hexValue? {value : UInt8} (h : Ascii.hexValue? b = some value) : b < 0x80 := by
  have hsome : (Ascii.hexValue? b).isSome = true := Option.isSome_of_eq_some h
  clear h
  revert b
  decide +kernel

theorem isAscii_of_hexByte? {first second value : UInt8}
    (h : Literal.hexByte? first second = some value) : second < 0x80 := by
  unfold Literal.hexByte? at h
  split at h
  · exact isAscii_of_hexValue? h
  · obtain ⟨high, -, h⟩ := Option.bind_eq_some_iff.mp h
    obtain ⟨low, hlow, -⟩ := Option.bind_eq_some_iff.mp h
    exact isAscii_of_hexValue? hlow

/-- Where no string can be cut out there is no byte in hexadecimal either. -/
theorem radix16?_cut? (ht : Utf8.IsText text) (hc : c.OnChar text) :
    radix16? ((Utf8.cut? text c.pos (c.pos + 2)).getD "") =
      match c.rest with
      | first :: second :: _ => Literal.hexByte? first second
      | _ => none := by
  have hslice : text.slice c.pos (c.pos + 2) = c.rest.take 2 := by
    rw [Bytes.slice, ← rest_eq hc.inText, Nat.add_sub_cancel_left]
  cases hcut : Utf8.cut? text c.pos (c.pos + 2) with
  | some s =>
    have hbytes := ht.of_cut? hcut
    rw [hslice] at hbytes
    rw [Option.getD_some, radix16?, hbytes]
    rcases c.rest with _ | ⟨first, _ | ⟨second, rest⟩⟩ <;> rfl
  | none =>
    rcases hrest : c.rest with _ | ⟨first, _ | ⟨second, rest⟩⟩
    · rfl
    · rfl
    · cases hvalue : Literal.hexByte? first second with
      | none => exact hvalue.symm
      | some value =>
        -- The second digit is ASCII, so that there is a boundary behind it.
        have hsecond : text[c.pos + 1]? = some second := by
          rw [getElem?_pos_add hc.inText, hrest]
          rfl
        have hstop := ht.isBoundary_succ hsecond (isAscii_of_hexByte? hvalue)
        obtain ⟨s, hs, -⟩ := ht.exists_cut? (Nat.le_add_right _ 2) hc.boundary hstop
        cases hcut.symm.trans hs

/-- An escape is passed over behind its backslash. -/
theorem follows_parseEscape (ht : Utf8.IsText text) (hc : c.In text)
    (hslash : c.peek? = some 0x5c) :
    Follows text depth (fun d => d.In text) ((parseEscape text).run ⟨(c.advance 1).pos, depth⟩)
      (Literal.escape c) := by
  have hone := in_advance_one hc hslash
  unfold parseEscape Literal.escape
  refine .step (peek_eq hone) ?_
  cases hrest : c.rest.drop 1 with
  | nil =>
    have hnone : (c.advance 1).peek? = none := by
      rw [Cursor.peek?, Cursor.rest_advance, hrest]
      rfl
    rw [hnone]
    exact follows_refuse (by simp) hone depth
  | cons b rest =>
    have hb : (c.advance 1).peek? = some b := by
      rw [Cursor.peek?, Cursor.rest_advance, hrest]
      rfl
    have htwo : (c.advance 2).In text := Cursor.advance_advance (c := c) 1 ▸ in_advance_one hone hb
    have hbehind : (c.advance 2).rest = rest := by
      have hdrop := congrArg (List.drop 1) hrest
      rwa [List.drop_drop] at hdrop
    rw [hb]
    refine .step (advance_one_eq hone hb) ?_
    rw [Cursor.advance_advance]
    dsimp only
    split_ifs with hn hr ht' hx hself
    · exact .done htwo
    · exact .done htwo
    · exact .done htwo
    · -- Two digits are looked at where a character starts, since the letter is ASCII.
      have hchar : (c.advance 2).OnChar text := Cursor.advance_advance (c := c) 1 ▸
        onChar_advance_one ht hone hb (isAscii_of_beq hx (by decide))
      refine .step (offset_eq _) ?_
      dsimp only
      rw [radix16?_cut? ht hchar, hbehind]
      rcases rest with _ | ⟨first, _ | ⟨second, rest⟩⟩
      · exact follows_refuse (by simp) htwo depth
      · exact follows_refuse (by simp) htwo depth
      · dsimp only
        cases Literal.hexByte? first second with
        | none => exact follows_refuse (by simp) htwo depth
        | some value =>
          have hlen : 2 ≤ (c.advance 2).rest.length := by
            rw [hbehind]
            exact Nat.le_add_left 2 _
          refine .step (advance_eq htwo hlen) ?_
          rw [Cursor.advance_advance]
          refine .done ?_
          exact Cursor.advance_advance (c := c) 2 ▸ htwo.trans (Cursor.reaches_advance hlen)
    · exact .done htwo
    · exact .step (back_eq hc 2) (follows_refuse (by simp) hc depth)

/-- The bytes of a literal are passed over up to its closing quote. -/
theorem follows_literalFrom (ht : Utf8.IsText text) (hopening : opening.In text)
    {steps read : Bytes} (hc : c.In text) (hsteps : c.rest.length ≤ steps.length)
    (hmore : c.rest.length < more) :
    Follows text depth (fun d => d.OnChar text)
      ((literalFrom text opening.pos more read).run ⟨c.pos, depth⟩)
      (Literal.bodyFrom opening steps read c) := by
  induction more generalizing c steps read with
  | zero => exact absurd hmore (Nat.not_lt_zero _)
  | succ more ih =>
    have hmissing : Follows text depth (fun d => d.OnChar text)
        ((goTo text opening.pos >>= fun _ =>
          refuse (α := Bytes) text .unterminatedLiteral).run ⟨c.pos, depth⟩)
        (opening.fail .unterminatedLiteral) :=
      .step (goTo_eq hopening _) (follows_refuse (by simp) hopening depth)
    rw [literalFrom]
    refine .step (peek_eq hc) ?_
    cases steps with
    | nil =>
      rw [Cursor.peek?_eq_none_iff.mpr (List.length_eq_zero_iff.mp (Nat.le_zero.mp hsteps))]
      exact hmissing
    | cons step steps =>
      rw [Literal.bodyFrom]
      cases hb : c.peek? with
      | none => exact hmissing
      | some b =>
        have hnext := in_advance_one hc hb
        have hpass := Cursor.passes_of_peek hb
        dsimp only
        split_ifs with hquote hslash
        · exact .step (advance_one_eq hc hb)
            (.done (onChar_advance_one ht hc hb (isAscii_of_beq hquote (by decide))))
        · rw [beq_iff_eq.mp hslash] at hb
          refine .step (advance_one_eq hc hb) ((follows_parseEscape ht hc hb).bind ?_)
          intro value d hd hin
          have hcarried : Parse.Carries 0 [] Literal.escape Literal.escape :=
            Literal.carries_escape
          have hbehind : c.Passes d := (hcarried hd).1
          exact ih hin (hbehind.steps_left hsteps)
            (hbehind.rounds_left hmore)
        · exact .step (advance_one_eq hc hb) (ih hnext (hpass.steps_left hsteps)
            (hpass.rounds_left hmore))

/-- A literal is passed over from its opening quote on. -/
theorem follows_parseLiteral (ht : Utf8.IsText text) (hc : c.In text) (hb : c.peek? = some b) :
    Follows text depth (fun d => d.OnChar text) ((parseLiteral text).run ⟨c.pos, depth⟩)
      (Literal.literal c) := by
  have hnext := in_advance_one hc hb
  exact .step (offset_eq _) (.step (advance_one_eq hc hb) (follows_literalFrom ht hc hnext
    (Cursor.passes_of_peek hb).reaches.length_le (length_lt_rounds hnext)))

/-! ## Bracket expressions -/

/-- A byte of a bracket expression is passed over. -/
theorem follows_setByte (ht : Utf8.IsText text) (hc : c.In text) :
    Follows text depth (fun d => d.In text) ((setByte text).run ⟨c.pos, depth⟩)
      (Bracket.byte c) := by
  unfold setByte Bracket.byte
  refine .step (peek_eq hc) ?_
  cases hb : c.peek? with
  | none => exact follows_refuse (by simp) hc depth
  | some b =>
    refine .step (advance_one_eq hc hb) ?_
    dsimp only
    split_ifs with hslash
    · rw [beq_iff_eq.mp hslash] at hb
      exact follows_parseEscape ht hc hb
    · exact .done (in_advance_one hc hb)

/-- A byte or a range is passed over. -/
theorem follows_setItem (ht : Utf8.IsText text) (hc : c.In text) :
    Follows text depth (fun d => d.In text) ((setItem text).run ⟨c.pos, depth⟩)
      (Bracket.byteOrRange c) := by
  unfold setItem Bracket.byteOrRange
  refine (follows_setByte ht hc).bind fun lo d _ hd => ?_
  refine .step (peek_eq hd) (.step (peekAt_eq hd 1) ?_)
  dsimp only
  rw [Cursor.peek?]
  generalize hrun : Move.run _ _ = run
  split
  · rename_i next rest hrest
    subst hrun
    have hdash : d.peek? = some 0x2d := by
      rw [Cursor.peek?, hrest]
      rfl
    have hnext := in_advance_one hd hdash
    have hcond : (d.rest.head? == some 0x2d && d.rest[1]?.any (· != 0x5d)) = (next != 0x5d) := by
      rw [hrest]
      rfl
    rw [hcond]
    cases hclose : next == 0x5d with
    | true =>
      rw [bne, hclose]
      exact .done hd
    | false =>
      rw [bne, hclose]
      refine .step (advance_one_eq hd hdash) ((follows_setByte ht hnext).bind fun hi e _ he => ?_)
      dsimp only
      split
      · exact follows_refuse (by simp) he depth
      · exact .done he
  · rename_i hrest
    subst hrun
    have hcond : (d.rest.head? == some 0x2d && d.rest[1]?.any (· != 0x5d)) = false := by
      rcases hbytes : d.rest with _ | ⟨b, _ | ⟨next, rest⟩⟩
      · rfl
      · exact Bool.and_false _
      · have hne : (b == 0x2d) = false := by
          rw [beq_eq_false_iff_ne]
          rintro rfl
          exact hrest next rest hbytes
        rw [List.head?_cons, Option.some_beq_some, hne, Bool.false_and]
    rw [hcond]
    exact .done hd

theorem isAscii_of_isClassPart (h : Bracket.isClassPart b = true) : b < 0x80 := by
  revert b
  decide +kernel

theorem head?_toAscii (bytes : Bytes) (b : UInt8) :
    (bytes.toAscii.toList.head? == some (Ascii.toChar b)) = (bytes.head? == some b) := by
  rw [Bytes.toAscii, String.toList_ofList]
  cases bytes with
  | nil => rfl
  | cons first bytes =>
    rw [Bool.eq_iff_iff, beq_iff_eq, beq_iff_eq]
    exact ⟨fun h => congrArg some (Ascii.toChar_injective (Option.some.inj h)),
      fun h => congrArg some (congrArg Ascii.toChar (Option.some.inj h))⟩

theorem ofList_tail_toAscii (bytes : Bytes) :
    String.ofList bytes.toAscii.toList.tail = Bytes.toAscii (bytes.drop 1) := by
  rw [Bytes.toAscii, String.toList_ofList, ← List.map_tail, List.drop_one]
  rfl

/-- Two bytes of ASCII are passed over. -/
theorem onChar_advance_two (ht : Utf8.IsText text) (hc : c.In text) {first second : UInt8}
    {rest : Bytes} (hrest : c.rest = first :: second :: rest) (hsecond : second < 0x80) :
    (c.advance 2).OnChar text := by
  have hfirst : c.peek? = some first := by
    rw [Cursor.peek?, hrest]
    rfl
  have hpeek : (c.advance 1).peek? = some second := by
    rw [Cursor.peek?, Cursor.rest_advance, hrest]
    rfl
  exact Cursor.advance_advance (c := c) 1 ▸
    onChar_advance_one ht (in_advance_one hc hfirst) hpeek hsecond

/-- Bytes of ASCII of a kind are looked at and cut out behind a byte of ASCII. -/
theorem exists_cut_behind (ht : Utf8.IsText text) (hc : c.In text) (hb : c.peek? = some b)
    (hascii : b < 0x80) {kind : UInt8 → Bool} (hkind : ∀ b, kind b = true → b < 0x80) :
    ∃ d, c.advance (1 + ((c.rest.drop 1).takeWhile kind).length) = d ∧ d.In text ∧
      behindWhile? text kind (rounds text) (c.pos + 1) = some d.pos ∧
      Utf8.cut? text (c.pos + 1) d.pos =
        some (Bytes.toAscii ((c.rest.drop 1).takeWhile kind)) := by
  have hone := onChar_advance_one ht hc hb hascii
  have hinside : Bytes.IsAscii ((c.advance 1).rest.takeWhile kind) := fun b hb =>
    hkind b (List.mem_takeWhile_imp hb)
  have hcut := ht.cut?_ascii hone.boundary
    (rest_eq hone.inText ▸ List.takeWhile_prefix kind) hinside
  rw [← Cursor.advance_advance]
  exact ⟨_, rfl, in_advance_takeWhile kind hone.inText,
    behindWhile?_eq kind hone.inText (length_lt_rounds hone.inText), hcut⟩

/-- The name of a class is cut out behind its colon, which is ASCII. -/
theorem follows_parseClass (ht : Utf8.IsText text) (hopening : opening.In text) (hc : c.In text)
    (hcolon : c.peek? = some 0x3a) :
    Follows text depth (fun d => d.OnChar text)
      ((parseClass text opening.pos).run ⟨c.pos, depth⟩) (Bracket.namedClass opening c) := by
  obtain ⟨d, hd, hbehind, hstop, hcut⟩ :=
    exists_cut_behind ht hc hcolon (by decide) @isAscii_of_isClassPart
  unfold parseClass Bracket.namedClass
  refine .step (offset_eq _) ?_
  simp only [hd, hstop]
  generalize (c.rest.drop 1).takeWhile Bracket.isClassPart = body at hcut
  refine .step (demand_some _ _) ?_
  simp only [getElem?_pos_add hbehind, getElem?_pos hbehind, Cursor.peek?]
  generalize hrun : Move.run _ _ = run
  split
  · rename_i rest hrest
    subst hrun
    have hclose : (d.rest.head? == some 0x3a && d.rest[1]? == some 0x5d) = true := by
      rw [hrest]
      rfl
    have hafter := onChar_advance_two ht hbehind hrest (by decide)
    have hcaret : ((Bytes.toAscii body).toList.head? == some '^') = (body.head? == some 0x5e) :=
      head?_toAscii body 0x5e
    have hname : (if (body.head? == some 0x5e) = true then
        String.ofList (Bytes.toAscii body).toList.tail else Bytes.toAscii body) =
          Bytes.toAscii (if (body.head? == some 0x5e) = true then body.drop 1 else body) := by
      rw [ofList_tail_toAscii]
      split <;> rfl
    rw [hclose, if_pos rfl, cut, hcut]
    refine .step (demand_some _ _) ?_
    simp only [hcaret, hname]
    cases NamedClass.ofName? _ with
    | none => exact follows_refuse (by simp) hc depth
    | some named => exact .step (goTo_eq hafter.inText _) (.done hafter)
  · rename_i hrest
    subst hrun
    have hopen : (d.rest.head? == some 0x3a && d.rest[1]? == some 0x5d) = false := by
      rcases hbytes : d.rest with _ | ⟨first, _ | ⟨second, rest⟩⟩
      · rfl
      · exact Bool.and_false _
      · simp only [List.head?_cons, List.getElem?_cons_succ, List.getElem?_cons_zero,
          Option.some_beq_some, Bool.and_eq_false_iff, beq_eq_false_iff_ne]
        by_contra hboth
        rw [not_or, not_not, not_not] at hboth
        obtain ⟨rfl, rfl⟩ := hboth
        exact hrest rest hbytes
    rw [hopen]
    exact .step (goTo_eq hopening _) (follows_refuse (by simp) hopening depth)

/-- Bracket expressions one level further down are passed over as they are read; where no level is
left there is none. -/
def FollowsNested (text : Bytes) (depth : Nat) (move : Nat → Move ByteSet) :
    Option (Cursor → Parse ByteSet) → Prop
  | none => nestingLimit ≤ depth
  | some bracket => depth < nestingLimit ∧ ∀ ⦃opening c : Cursor⦄, opening.In text → c.In text →
    Follows text (depth + 1) (fun d => d.OnChar text) ((move opening.pos).run ⟨c.pos, depth + 1⟩)
        (bracket opening c) ∧
      ∀ members d, bracket opening c = .ok (members, d) → c.Passes d

variable {move : Nat → Move ByteSet} {nested : Option (Cursor → Parse ByteSet)}

/-- The items of a bracket expression are passed over where nested ones are. -/
theorem follows_setItemsFrom (ht : Utf8.IsText text)
    (hnested : FollowsNested text depth move nested) (hopening : opening.In text)
    (steps : Bytes) (s : ByteSet) (hc : c.In text)
    (hsteps : c.rest.length ≤ steps.length) (hmore : c.rest.length < more) :
    Follows text depth (fun d => d.OnChar text)
      ((setItemsFrom text move opening.pos more s).run ⟨c.pos, depth⟩)
      (Bracket.itemsFrom nested opening steps s c) := by
  induction more generalizing c steps s with
  | zero => exact absurd hmore (Nat.not_lt_zero _)
  | succ more ih =>
    rw [setItemsFrom]
    refine .step (offset_eq _) (.step (peek_eq hc) ?_)
    have hmissing : Follows text depth (fun d => d.OnChar text)
        ((goTo text opening.pos >>= fun _ =>
          refuse (α := ByteSet) text .unterminatedSet).run ⟨c.pos, depth⟩)
        (opening.fail .unterminatedSet) :=
      .step (goTo_eq hopening _) (follows_refuse (by simp) hopening depth)
    cases hb : c.peek? with
    | none =>
      rw [Bracket.itemsFrom_of_nil steps s (Cursor.peek?_eq_none_iff.mp hb)]
      exact hmissing
    | some b =>
      cases steps with
      | nil =>
        rw [Cursor.peek?_eq_none_iff.mpr (List.length_eq_zero_iff.mp (Nat.le_zero.mp hsteps))] at hb
        cases hb
      | cons step steps =>
        have hnext := in_advance_one hc hb
        rw [Bracket.itemsFrom_of_peek hb]
        dsimp only
        split_ifs with hclose hopen
        · exact .step (advance_one_eq hc hb)
            (.done (onChar_advance_one ht hc hb (isAscii_of_beq hclose (by decide))))
        · refine .step (advance_one_eq hc hb) ?_
          cases nested with
          | none => exact follows_tooDeep _ hnested hnext
          | some bracket =>
            obtain ⟨hless, hbracket⟩ := hnested
            obtain ⟨hfollows, hpasses⟩ := hbracket hc hnext
            refine .step (descend_eq hless _) (hfollows.bind fun t d ht hd => ?_)
            have hpass := (Cursor.passes_of_peek hb).trans (hpasses t d ht)
            exact .step (ascend_eq d.pos depth 1) (ih _ _ hd.inText (hpass.steps_left hsteps)
              (hpass.rounds_left hmore))
        · refine (follows_setItem ht hc).bind fun t d hd hin => ?_
          have hpass := (Bracket.byteOrRange_embed (k := 0) Bytes.onNewLine_nil hd).1
          exact ih _ _ hin (hpass.steps_left hsteps)
            (hpass.rounds_left hmore)

/-- What stands behind an opening bracket is passed over where nested bracket expressions are. -/
theorem follows_parseSetOf (ht : Utf8.IsText text) (hnested : FollowsNested text depth move nested)
    (hopening : opening.In text) (hc : c.In text) :
    Follows text depth (fun d => d.OnChar text)
      ((parseSetOf text move opening.pos).run ⟨c.pos, depth⟩)
      (Bracket.bracketOf nested opening c) := by
  unfold parseSetOf Bracket.bracketOf
  refine .step (peek_eq hc) ?_
  dsimp only
  split_ifs with hcolon hcaret
  · exact follows_parseClass ht hopening hc (beq_iff_eq.mp hcolon)
  · have hpeek := beq_iff_eq.mp hcaret
    have hnext := in_advance_one hc hpeek
    rw [hcaret]
    refine .step (advance_one_eq hc hpeek) ((follows_setItemsFrom ht hnested hopening _ _ hnext
      (Nat.le_refl _) (length_lt_rounds hnext)).bind fun s d _ hd => ?_)
    exact .done hd
  · have hplain : (c.peek? == some 0x5e) = false := Bool.eq_false_iff.mpr hcaret
    have hsame : ∀ result : Except ParseError (ByteSet × Cursor),
        (result >>= fun read => .ok (Bracket.complementIf false read.1, read.2)) = result := by
      intro result
      cases result <;> rfl
    rw [hplain]
    refine (follows_setItemsFrom ht hnested hopening c.rest .empty hc
      (Nat.le_refl _) (length_lt_rounds hc)).of_eq ?_
    exact (hsame _).symm

/-- Bracket expressions are passed over as long as a level is left for each. -/
theorem follows_parseSet (ht : Utf8.IsText text) {calls levels : Nat} (hcalls : levels < calls)
    (hlevels : depth + levels = nestingLimit) (hopening : opening.In text) (hc : c.In text) :
    Follows text depth (fun d => d.OnChar text)
      ((parseSet text calls opening.pos).run ⟨c.pos, depth⟩)
      (Bracket.bracket levels opening c) := by
  induction calls generalizing levels depth opening c with
  | zero => exact absurd hcalls (Nat.not_lt_zero _)
  | succ calls ih =>
    rw [parseSet, Bracket.bracket_eq]
    refine follows_parseSetOf ht ?_ hopening hc
    cases levels with
    | zero => exact hlevels.ge
    | succ levels =>
      have hdeeper : depth + 1 + levels = nestingLimit := by omega
      refine ⟨by omega, fun opening c hopening hc => ?_⟩
      exact ⟨ih (Nat.lt_of_succ_lt_succ hcalls) hdeeper hopening hc,
        fun _ _ => Bracket.passes_bracket⟩

/-! ## Repetition bounds -/

/-- The outcome is the same at every place, and its violation is one there. -/
def SameEverywhere {α : Type} (outcome : Cursor → Except ParseError α) : Prop :=
  (∃ a, ∀ c, outcome c = .ok a) ∨
    ∃ cause, cause ≠ .packageNotFirst ∧ ∀ c, outcome c = c.fail cause

theorem sameEverywhere_ok {α : Type} (a : α) : SameEverywhere fun _ => .ok a :=
  .inl ⟨a, fun _ => rfl⟩

theorem sameEverywhere_fail {α : Type} {cause : ParseCause} (h : cause ≠ .packageNotFirst) :
    SameEverywhere fun c => (c.fail cause : Except ParseError α) :=
  .inr ⟨cause, h, fun _ => rfl⟩

theorem SameEverywhere.bind {α β : Type} {outcome : Cursor → Except ParseError α}
    {f : Cursor → α → Except ParseError β} (h : SameEverywhere outcome)
    (hf : ∀ a, SameEverywhere fun c => f c a) : SameEverywhere fun c => outcome c >>= f c := by
  rcases h with ⟨a, ha⟩ | ⟨cause, hcause, hfail⟩
  · simp only [ha]
    exact hf a
  · simp only [hfail]
    exact .inr ⟨cause, hcause, fun _ => rfl⟩

theorem sameEverywhere_number (digits : Bytes) :
    SameEverywhere fun c => Bounds.number c digits := by
  unfold Bounds.number
  split_ifs
  · exact sameEverywhere_ok none
  · exact sameEverywhere_ok _
  · exact sameEverywhere_fail (by simp)

/-- Bounds are worked out from the text between the braces alone. -/
theorem sameEverywhere_ofBody (body : Bytes) : SameEverywhere fun c => Bounds.ofBody c body := by
  unfold Bounds.ofBody
  split
  · split_ifs
    · exact sameEverywhere_fail (by simp)
    · exact (sameEverywhere_number _).bind fun n => sameEverywhere_ok _
  · refine (sameEverywhere_number _).bind fun least => (sameEverywhere_number _).bind fun most => ?_
    split_ifs
    · exact sameEverywhere_fail (by simp)
    · exact sameEverywhere_ok _
  · exact sameEverywhere_fail (by simp)

/-- What is worked out from a part of the text alone is refused where the cursor stands. -/
theorem follows_settle {α β : Type} {outcome : Cursor → Except ParseError α}
    (h : SameEverywhere outcome) (hc : c.In text) {Q : Cursor → Prop} {f : α → Move β}
    {g : α → Except ParseError (β × Cursor)}
    (hf : ∀ a, Follows text depth Q ((f a).run ⟨c.pos, depth⟩) (g a)) :
    Follows text depth Q ((settle text (outcome (Cursor.start text)) >>= f).run ⟨c.pos, depth⟩)
      (outcome c >>= g) := by
  rcases h with ⟨a, ha⟩ | ⟨cause, hcause, hfail⟩
  · rw [ha, ha]
    exact .step rfl (hf a)
  · rw [hfail, hfail]
    have hrefuse : Follows text depth Q
        ((settle (α := α) text ((Cursor.start text).fail cause)).run ⟨c.pos, depth⟩)
        (c.fail cause) := follows_refuse hcause hc depth
    exact hrefuse.bind (g := fun read => g read.1) nofun

theorem isAscii_of_isBoundsPart (h : Bounds.isPart b = true) : b < 0x80 := by
  revert b
  decide +kernel

/-- Bounds are passed over from the brace on, and a brace that opens a group is not. -/
theorem follows_scanBounds (ht : Utf8.IsText text) (hc : c.OnChar text)
    (hbrace : c.peek? = some 0x7b) :
    Follows text depth (fun d => d.OnChar text) ((scanBounds text).run ⟨c.pos, depth⟩)
      (Bounds.bounds c) := by
  obtain ⟨d, hd, hbehind, hstop, hcut⟩ :=
    exists_cut_behind ht hc.inText hbrace (by decide) @isAscii_of_isBoundsPart
  have hascii : Bytes.IsAscii ((c.rest.drop 1).takeWhile Bounds.isPart) := fun b hb =>
    isAscii_of_isBoundsPart (List.mem_takeWhile_imp hb)
  unfold scanBounds Bounds.bounds
  refine .step (offset_eq _) ?_
  simp only [hd, hstop]
  refine .step (demand_some _ _) ?_
  rw [getElem?_pos hbehind]
  split_ifs with hclose
  · have hpeek := beq_iff_eq.mp hclose
    have hafter := onChar_advance_one ht hbehind hpeek (by decide)
    rw [cut, hcut]
    refine .step (demand_some _ _) ?_
    rw [Bytes.ofString_toAscii hascii]
    refine follows_settle (sameEverywhere_ofBody _) hc.inText fun pair => ?_
    exact .step (goTo_eq hafter.inText _) (.done hafter)
  · exact .done hc

end PatternEngine.CheckedParser
