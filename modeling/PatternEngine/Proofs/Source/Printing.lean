import PatternEngine.Proofs.Source.Literals
import PatternEngine.Proofs.Source.Names
import PatternEngine.Proofs.Source.NestingLimit

/-!
# Printed expressions

An expression is printed with every byte of a literal or a set as a hexadecimal escape, with bounds
for every repetition, and with every operand of a sequence, choice, repetition or predicate between
parentheses. A layout says which blanks stand between operands and how hexadecimal digits are
written. What is printed is a list of lexemes, in which the names stand apart, so that their places
in the text can be told.

Here are the printed forms and how each lexeme that is not a single mark is read.
-/

namespace PatternEngine

/-- How expressions are printed. -/
structure Layout where
  /-- What stands between two operands, and beside the slash between two alternatives. -/
  gap : Bytes
  /-- It consists of blanks. -/
  gap_blank : ∀ b ∈ gap, Ascii.isBlank b = true
  /-- Hexadecimal digits above nine are capital letters. -/
  capitals : Bool

/-- A part of a printed expression. -/
inductive Lexeme where
  /-- Anything but a name. -/
  | mark (bytes : Bytes)
  /-- The name of a reference. -/
  | name (ident : Ident)

namespace Lexeme

/-- The bytes that are printed. -/
def bytes : Lexeme → Bytes
  | .mark bytes => bytes
  | .name ident => Bytes.ofString ident.toText

/-- The bytes that are printed for some lexemes. -/
def print (lexemes : List Lexeme) : Bytes := lexemes.flatMap bytes

/-- The names among some lexemes, each with its place in the text that is printed from an offset on,
counted from one. -/
def places : Nat → List Lexeme → List (Ident × Nat)
  | _, [] => []
  | offset, .mark bytes :: lexemes => places (offset + bytes.length) lexemes
  | offset, .name ident :: lexemes =>
    (ident, offset + 1) :: places (offset + (Bytes.ofString ident.toText).length) lexemes

/-- Lexemes between parentheses. -/
def enclosed (lexemes : List Lexeme) : List Lexeme :=
  .mark [0x28] :: lexemes ++ [.mark [0x29]]

end Lexeme

namespace Layout

variable (layout : Layout)

/-- A byte as a hexadecimal escape. -/
def escape (b : UInt8) : Bytes :=
  [0x5c, 0x78, Ascii.hexDigit layout.capitals (b.toNat / 16),
    Ascii.hexDigit layout.capitals (b.toNat % 16)]

/-- The decimal digits of a number. -/
def digits (n : Nat) : Bytes := (Nat.toDigits 10 n).map fun c => UInt8.ofNat c.toNat

/-- What stands between the braces of repetition bounds. -/
def boundsBody (least : Nat) : Option Nat → Bytes
  | none => digits least ++ [0x2c]
  | some most => if most = least then digits least else digits least ++ 0x2c :: digits most

/-- Repetition bounds. -/
def bounds (least : Nat) (most : Option Nat) : Bytes := 0x7b :: boundsBody least most ++ [0x7d]

/-- What stands between two alternatives. -/
def slash : Bytes := layout.gap ++ 0x2f :: layout.gap

/-- The mark of a predicate. -/
def lookaheadMark : Lookahead → UInt8
  | .present => 0x3e
  | .absent => 0x21

mutual

/-- The lexemes of an expression. -/
def lexemes : Expr → List Lexeme
  | .literal bytes => [.mark (0x22 :: bytes.flatMap layout.escape ++ [0x22])]
  | .set members => [.mark (0x5b :: members.toList.flatMap layout.escape ++ [0x5d])]
  | .any => [.mark [0x2e]]
  | .inputStart => [.mark [0x5e]]
  | .inputEnd => [.mark [0x24]]
  | .ref name _ => [.name name]
  | .seq items => operands [] layout.gap items
  | .choice items => operands [] layout.slash items
  | .repetition body least most => Lexeme.enclosed (lexemes body) ++ [.mark (bounds least most)]
  | .lookahead kind body => .mark [lookaheadMark kind] :: Lexeme.enclosed (lexemes body)

/-- The lexemes of operands, with one text before the first of them and another before each of the
others. -/
def operands (lead separator : Bytes) : List Expr → List Lexeme
  | [] => []
  | item :: items =>
    .mark lead :: Lexeme.enclosed (lexemes item) ++ operands separator separator items

end

/-- The bytes of an expression. -/
def print (e : Expr) : Bytes := Lexeme.print (layout.lexemes e)

/-- The text of an expression. -/
def text (e : Expr) : String := (layout.print e).toAscii

end Layout

/-! ## What can be printed -/

/-- The string can be written as a name. -/
def IsIdentifier (name : String) : Prop :=
  ∃ (b : UInt8) (bytes : Bytes), Ident.isStart b = true ∧ (∀ b ∈ bytes, Ident.isPart b = true) ∧
    name = Bytes.toAscii (b :: bytes)

/-- The identifier can be referred to. -/
structure Ident.Referable (name : Ident) : Prop where
  base : IsIdentifier name.base
  qualifier : ∀ qualifier ∈ name.qualifier, IsIdentifier qualifier
  not_keyword : name.isKeyword = false

namespace Expr

/-- The expression can be printed: sequences and choices have at least two members, bounds are in
order and fit in 32 bits, and references can be written. -/
inductive Printable : Expr → Prop
  | literal (bytes : Bytes) : Printable (.literal bytes)
  | set (members : ByteSet) : Printable (.set members)
  | any : Printable .any
  | inputStart : Printable .inputStart
  | inputEnd : Printable .inputEnd
  | ref {name : Ident} (h : name.Referable) (pos : Nat) : Printable (.ref name pos)
  | seq {items : List Expr} (hlen : 2 ≤ items.length) (h : ∀ item ∈ items, Printable item) :
    Printable (.seq items)
  | choice {items : List Expr} (hlen : 2 ≤ items.length) (h : ∀ item ∈ items, Printable item) :
    Printable (.choice items)
  | repetition {body : Expr} {least : Nat} {most : Option Nat} (h : Printable body)
      (hleast : least < Bounds.limit) (hmost : ∀ m ∈ most, least ≤ m ∧ m < Bounds.limit) :
      Printable (.repetition body least most)
  | lookahead {body : Expr} (kind : Lookahead) (h : Printable body) :
      Printable (.lookahead kind body)

mutual

/-- The greatest number of groups and predicates around a part of the printed expression. The
repetition marks are no part of this: each stands behind a group that is closed. -/
def printedLevels : Expr → Nat
  | .literal _ | .set _ | .any | .inputStart | .inputEnd | .ref _ _ => 0
  | .seq items | .choice items => levelsOfOperands items
  | .repetition body _ _ => printedLevels body + 1
  | .lookahead _ body => printedLevels body + 2

/-- The greatest number of levels of some operands, each of which is a group. -/
def levelsOfOperands : List Expr → Nat
  | [] => 0
  | item :: items => max (printedLevels item + 1) (levelsOfOperands items)

end

mutual

/-- The expression without the positions of its references. -/
def unplaced : Expr → Expr
  | .literal bytes => .literal bytes
  | .set members => .set members
  | .any => .any
  | .inputStart => .inputStart
  | .inputEnd => .inputEnd
  | .ref name _ => .ref name 0
  | .seq items => .seq (unplacedAll items)
  | .choice items => .choice (unplacedAll items)
  | .repetition body least most => .repetition (unplaced body) least most
  | .lookahead kind body => .lookahead kind (unplaced body)

/-- The expressions of a list without the positions of their references. -/
def unplacedAll : List Expr → List Expr
  | [] => []
  | item :: items => unplaced item :: unplacedAll items

end

end Expr

/-! ## Lexemes -/

namespace Lexeme

variable {offset : Nat} {ident : Ident} {lexemes : List Lexeme}

@[simp] theorem print_nil : print [] = [] := rfl

@[simp] theorem print_cons (lexeme : Lexeme) (lexemes : List Lexeme) :
    print (lexeme :: lexemes) = lexeme.bytes ++ print lexemes := List.flatMap_cons

@[simp] theorem print_append (first second : List Lexeme) :
    print (first ++ second) = print first ++ print second := List.flatMap_append

@[simp] theorem print_enclosed (lexemes : List Lexeme) :
    print (enclosed lexemes) = 0x28 :: print lexemes ++ [0x29] := by simp [enclosed, bytes]

theorem places_append (offset : Nat) (first second : List Lexeme) :
    places offset (first ++ second) =
      places offset first ++ places (offset + (print first).length) second := by
  induction first generalizing offset with
  | nil => simp [places]
  | cons lexeme first ih =>
    cases lexeme with
    | mark bytes => simp [places, ih, Lexeme.bytes, Nat.add_assoc]
    | name ident => simp [places, ih, Lexeme.bytes, Nat.add_assoc]

@[simp] theorem places_enclosed (offset : Nat) (lexemes : List Lexeme) :
    places offset (enclosed lexemes) = places (offset + 1) lexemes := by
  simp [enclosed, places, places_append]

/-- The place of a name is where it is printed. -/
theorem places_spec {place : Nat} (h : (ident, place) ∈ places offset lexemes) :
    ∃ before, place = offset + before + 1 ∧
      Bytes.ofString ident.toText <+: (print lexemes).drop before := by
  induction lexemes generalizing offset with
  | nil => cases h
  | cons lexeme lexemes ih =>
    have hlater (h : (ident, place) ∈ places (offset + lexeme.bytes.length) lexemes) :
        ∃ before, place = offset + before + 1 ∧
          Bytes.ofString ident.toText <+: (print (lexeme :: lexemes)).drop before := by
      obtain ⟨before, hplace, hbegins⟩ := ih h
      refine ⟨lexeme.bytes.length + before, by omega, ?_⟩
      rwa [print_cons, List.drop_length_add_append]
    cases lexeme with
    | mark bytes => exact hlater h
    | name other =>
      rcases List.mem_cons.mp h with heq | hrest
      · cases heq
        exact ⟨0, rfl, List.prefix_append _ _⟩
      · exact hlater hrest

end Lexeme

namespace Layout

variable (layout : Layout)

theorem print_literal (bytes : Bytes) :
    layout.print (.literal bytes) = 0x22 :: bytes.flatMap layout.escape ++ [0x22] := by
  rw [print, lexemes, Lexeme.print_cons, Lexeme.print_nil, List.append_nil, Lexeme.bytes]

theorem print_set (members : ByteSet) :
    layout.print (.set members) = 0x5b :: members.toList.flatMap layout.escape ++ [0x5d] := by
  rw [print, lexemes, Lexeme.print_cons, Lexeme.print_nil, List.append_nil, Lexeme.bytes]

theorem print_ref (name : Ident) (pos : Nat) :
    layout.print (.ref name pos) = Bytes.ofString name.toText := by
  rw [print, lexemes, Lexeme.print_cons, Lexeme.print_nil, List.append_nil, Lexeme.bytes]

theorem print_repetition (body : Expr) (least : Nat) (most : Option Nat) :
    layout.print (.repetition body least most) =
      Lexeme.print (Lexeme.enclosed (layout.lexemes body)) ++ bounds least most := by
  rw [print, lexemes, Lexeme.print_append, Lexeme.print_cons, Lexeme.print_nil, List.append_nil,
    Lexeme.bytes]

theorem print_lookahead (kind : Lookahead) (body : Expr) :
    layout.print (.lookahead kind body) =
      lookaheadMark kind :: Lexeme.print (Lexeme.enclosed (layout.lexemes body)) := by
  rw [print, lexemes, Lexeme.print_cons, Lexeme.bytes, List.singleton_append]

/-- Operands are printed one behind the other. -/
theorem print_operands_cons {lead separator : Bytes} {items : List Expr} (item : Expr) :
    Lexeme.print (layout.operands lead separator (item :: items)) =
      lead ++ (Lexeme.print (Lexeme.enclosed (layout.lexemes item)) ++
        Lexeme.print (layout.operands separator separator items)) := by
  rw [operands, List.cons_append, Lexeme.print_cons, Lexeme.print_append, Lexeme.bytes]

end Layout

/-! ## How lexemes are read -/

namespace Cursor

variable {c : Cursor} {bytes tail : Bytes}

/-- Behind the first bytes of a text is the rest of it. -/
theorem rest_advance_append (h : c.rest = bytes ++ tail) :
    (c.advance bytes.length).rest = tail := by
  rw [rest_advance, h, List.drop_left]

theorem peek?_of_cons {b : UInt8} (h : c.rest = b :: tail) : c.peek? = some b := by
  rw [peek?, h, List.head?_cons]

end Cursor

namespace Layout

variable {layout : Layout} {c : Cursor} {tail : Bytes}

/-- A printed escape is a unit of a literal. -/
theorem spells_escape (b : UInt8) : Literal.Spells (layout.escape b) b := by
  have hlt := b.toNat_lt
  have hvalue : UInt8.ofNat (16 * (b.toNat / 16) + b.toNat % 16) = b := by
    rw [Nat.div_add_mod, UInt8.ofNat_toNat]
  have hunit : Literal.Spells (layout.escape b)
      (UInt8.ofNat (16 * (b.toNat / 16) + b.toNat % 16)) :=
    .hex _ _ (by omega) (Nat.mod_lt _ (by decide))
  rwa [hvalue] at hunit

/-- An escape is read as its byte. -/
theorem escape_eq_ok {b : UInt8} (h : c.rest = layout.escape b ++ tail) :
    Literal.escape c = .ok (b, c.advance (layout.escape b).length) := by
  obtain ⟨pos, bytes⟩ := c
  cases h
  exact Literal.escape_of_unit (.inl (spells_escape b)) pos tail

/-- Printed escapes are the units of a literal. -/
theorem units_escapes (bytes : Bytes) :
    Literal.Units Literal.SpellsLoosely (bytes.flatMap layout.escape) bytes := by
  induction bytes with
  | nil => exact .nil
  | cons b bytes ih => exact .cons (.inl (spells_escape b)) ih

/-- A literal is read as its bytes. -/
theorem literal_eq_ok {bytes : Bytes}
    (h : c.rest = (0x22 :: bytes.flatMap layout.escape ++ [0x22]) ++ tail) :
    Literal.literal c =
      .ok (bytes, c.advance (0x22 :: bytes.flatMap layout.escape ++ [0x22]).length) := by
  obtain ⟨pos, text⟩ := c
  have hbehind := Cursor.rest_advance_append h
  obtain rfl : text = 0x22 :: (bytes.flatMap layout.escape ++ 0x22 :: tail) := by simpa using h
  refine Literal.literal_eq_ok_iff.mpr ⟨_, tail, units_escapes bytes, rfl, ?_⟩
  exact (Cursor.mk.injEq ..).mpr ⟨by simp, hbehind⟩

/-- What stands behind an escape in a set is no dash. -/
theorem ne_dash {bytes : Bytes} (h : c.rest = bytes.flatMap layout.escape ++ 0x5d :: tail)
    (next : UInt8) (rest : Bytes) : c.rest ≠ 0x2d :: next :: rest := by
  rw [h]
  cases bytes <;> simp [escape]

theorem items_escapes {R : Cursor → Cursor → ByteSet → Nat → Cursor → Prop} {bytes : Bytes}
    {s : ByteSet} (h : c.rest = bytes.flatMap layout.escape ++ 0x5d :: tail) :
    Bracket.Items R s c (bytes.foldl (fun s b => s.union (.singleton b)) s) 0
      (c.advance (bytes.flatMap layout.escape ++ [0x5d]).length) := by
  induction bytes generalizing s c with
  | nil => exact .closed (Cursor.peek?_of_cons h)
  | cons b bytes ih =>
    rw [List.flatMap_cons, List.append_assoc] at h
    have hp : c.peek? = some 0x5c := Cursor.peek?_of_cons h
    have hrest := Cursor.rest_advance_append h
    have hbyte : Bracket.byte c = .ok (b, c.advance (layout.escape b).length) := by
      rw [Bracket.byte, hp]
      exact escape_eq_ok h
    have hsingle := Bracket.byteOrRange_of_no_dash hbyte (ne_dash hrest)
    have hitems := ih (s := s.union (.singleton b)) hrest
    rw [Cursor.advance_advance, ← List.length_append, ← List.append_assoc] at hitems
    exact .single hp (by decide) (by decide) hsingle hitems

theorem contains_foldl_union (bytes : Bytes) (s : ByteSet) (b : UInt8) :
    (bytes.foldl (fun s b => s.union (.singleton b)) s).contains b =
      (s.contains b || decide (b ∈ bytes)) := by
  induction bytes generalizing s with
  | nil => simp
  | cons b' bytes ih =>
    rw [List.foldl_cons, ih, ByteSet.contains_union, ByteSet.contains_singleton, Bool.or_assoc]
    simp [List.mem_cons, eq_comm]

/-- A set is the union of its members. -/
theorem foldl_union_toList (members : ByteSet) :
    members.toList.foldl (fun s b => s.union (.singleton b)) .empty = members := by
  refine ByteSet.ext fun b => ?_
  have hmem : b ∈ members.toList ↔ members.contains b = true := by
    rw [ByteSet.toList, List.mem_filter, and_iff_right_iff_imp]
    intro _
    exact List.mem_map.mpr ⟨b.toNat, List.mem_range.mpr b.toNat_lt, UInt8.ofNat_toNat⟩
  rw [contains_foldl_union, ByteSet.contains_empty, Bool.false_or, Bool.eq_iff_iff,
    decide_eq_true_iff, hmem]

/-- A set is written as it is printed. -/
theorem bracket_members {members : ByteSet}
    (h : c.rest = (0x5b :: members.toList.flatMap layout.escape ++ [0x5d]) ++ tail) :
    Bracket.WrittenWithin 0 c (c.advance 1) members 0
      (c.advance (0x5b :: members.toList.flatMap layout.escape ++ [0x5d]).length) := by
  have hrest : (c.advance 1).rest = members.toList.flatMap layout.escape ++ 0x5d :: tail := by
    rw [Cursor.rest_advance, h]
    simp
  have hp : (c.advance 1).peek? = some 0x5c ∨ (c.advance 1).peek? = some 0x5d := by
    rw [Cursor.peek?, hrest]
    cases members.toList <;> simp [escape]
  have hcaret : ((c.advance 1).peek? == some 0x5e) = false := by
    rcases hp with hp | hp <;> rw [hp] <;> rfl
  have hcolon : (c.advance 1).peek? ≠ some 0x3a := by
    rcases hp with hp | hp <;> rw [hp] <;> decide
  have hitems := items_escapes (R := fun _ _ _ _ _ => False) (s := .empty) hrest
  rw [foldl_union_toList, Cursor.advance_advance] at hitems
  have hlist : Bracket.WrittenOf (fun _ _ _ _ _ => False) c (c.advance 1)
      (Bracket.complementIf ((c.advance 1).peek? == some 0x5e) members) 0 _ :=
    .list hcolon (by rwa [hcaret, if_neg Bool.false_ne_true])
  rw [hcaret, Nat.add_comm 1] at hlist
  exact hlist

/-! ## Bounds -/

theorem digits_ne_nil (n : Nat) : digits n ≠ [] := fun hnil =>
  Nat.toDigits_ne_nil (List.map_eq_nil_iff.mp hnil)

/-- The code points of the digits of a number. -/
theorem toNat_of_mem_toDigits {n : Nat} {c : Char} (hc : c ∈ Nat.toDigits 10 n) :
    48 ≤ c.toNat ∧ c.toNat ≤ 57 := by
  have hdigit := Nat.isDigit_of_mem_toDigits (b := 10) (n := n) (by decide) (by decide) hc
  simp only [Char.isDigit, Bool.and_eq_true, decide_eq_true_eq, UInt32.le_iff_toNat_le] at hdigit
  exact hdigit

theorem isDigit_of_mem_digits {n : Nat} {b : UInt8} (hb : b ∈ digits n) :
    Ascii.isDigit b = true := by
  obtain ⟨c, hc, rfl⟩ := List.mem_map.mp hb
  obtain ⟨hlo, hhi⟩ := toNat_of_mem_toDigits hc
  simp only [Ascii.isDigit, Bool.and_eq_true, decide_eq_true_eq, UInt8.le_iff_toNat_le,
    UInt8.toNat_ofNat', UInt8.reduceToNat]
  omega

/-- The digits of a number write it. -/
theorem decimal_digits (n : Nat) : Bounds.decimal (digits n) = n := by
  have hvalue : Nat.ofDigitChars 10 (Nat.toDigits 10 n) 0 = n :=
    Nat.ofDigitChars_toDigits (by decide) (by decide)
  refine Eq.trans ?_ hvalue
  rw [Bounds.decimal, digits, List.foldl_map, Nat.ofDigitChars]
  refine List.foldl_ext _ _ _ fun sofar c hc => ?_
  obtain ⟨-, hhi⟩ := toNat_of_mem_toDigits hc
  rw [UInt8.toNat_ofNat', Nat.mod_eq_of_lt (by omega)]
  rfl

theorem number_digits {n : Nat} (hn : n < Bounds.limit) :
    Bounds.number c (digits n) = .ok (some n) := by
  rw [Bounds.number, if_neg (by simpa using digits_ne_nil n), decimal_digits, if_pos hn]

theorem comma_not_mem_digits (n : Nat) : 0x2c ∉ digits n := fun hb =>
  absurd (isDigit_of_mem_digits hb) (by decide)

/-- What stands between braces is read as the bounds that are printed. -/
theorem ofBody_boundsBody {least : Nat} {most : Option Nat} (hleast : least < Bounds.limit)
    (hmost : ∀ m ∈ most, least ≤ m ∧ m < Bounds.limit) :
    Bounds.ofBody c (boundsBody least most) = .ok (least, most) := by
  have hlower := Bytes.splitOn_of_not_mem (comma_not_mem_digits least)
  cases most with
  | none =>
    have hpieces : Bytes.splitOn 0x2c (boundsBody least none) = [digits least, []] := by
      rw [boundsBody, Bytes.splitOn_append, hlower]
      rfl
    rw [Bounds.ofBody, hpieces]
    exact Except.bind_of_eq_ok (number_digits hleast)
  | some m =>
    obtain ⟨hle, hm⟩ := hmost m rfl
    by_cases heq : m = least
    · subst heq
      rw [boundsBody, if_pos rfl, Bounds.ofBody, hlower]
      dsimp only
      rw [if_neg (by simpa using digits_ne_nil m)]
      exact Except.bind_of_eq_ok (number_digits hleast)
    · have hpieces : Bytes.splitOn 0x2c (boundsBody least (some m)) = [digits least, digits m] := by
        rw [boundsBody, if_neg heq, Bytes.splitOn_append, hlower,
          Bytes.splitOn_of_not_mem (comma_not_mem_digits m)]
        rfl
      rw [Bounds.ofBody, hpieces]
      refine (Except.bind_of_eq_ok (number_digits hleast)).trans
        ((Except.bind_of_eq_ok (number_digits hm)).trans ?_)
      simp [Nat.not_lt.mpr hle]

theorem isPart_of_mem_boundsBody {least : Nat} {most : Option Nat} {b : UInt8}
    (hb : b ∈ boundsBody least most) : (Ascii.isDigit b || b == 0x2c) = true := by
  have hdigit {n : Nat} (hb : b ∈ digits n) : (Ascii.isDigit b || b == 0x2c) = true := by
    rw [isDigit_of_mem_digits hb, Bool.true_or]
  cases most with
  | none =>
    rcases List.mem_append.mp hb with hb | hb
    · exact hdigit hb
    · rw [List.mem_singleton.mp hb]
      rfl
  | some m =>
    rw [boundsBody] at hb
    split at hb
    · exact hdigit hb
    · rcases List.mem_append.mp hb with hb | hb
      · exact hdigit hb
      · rcases List.mem_cons.mp hb with rfl | hb
        · rfl
        · exact hdigit hb

/-- Bounds are read as they are printed. -/
theorem repetitionMark_bounds {least : Nat} {most : Option Nat} (hleast : least < Bounds.limit)
    (hmost : ∀ m ∈ most, least ≤ m ∧ m < Bounds.limit)
    (h : c.rest = bounds least most ++ tail) :
    Expr.repetitionMark c =
      .ok (some (least, most), c.advance (bounds least most).length) := by
  have hinside : (c.rest.drop 1).takeWhile Bounds.isPart = boundsBody least most := by
    have hpart : ∀ b ∈ boundsBody least most, Bounds.isPart b = true := fun b hb => by
      rw [Bounds.isPart, isPart_of_mem_boundsBody hb, Bool.true_or]
    have hdrop : c.rest.drop 1 = boundsBody least most ++ 0x7d :: tail := by simp [h, bounds]
    rw [hdrop, List.takeWhile_append_of_pos hpart]
    exact List.append_nil _
  have hspaces : (boundsBody least most).filter (· != 0x20) = boundsBody least most := by
    refine List.filter_eq_self.mpr fun b hb => ?_
    rw [bne_iff_ne]
    rintro rfl
    exact absurd (isPart_of_mem_boundsBody hb) (by decide)
  have hbehind : (c.advance (1 + (boundsBody least most).length)).rest = 0x7d :: tail := by
    have hrest : c.rest = (0x7b :: boundsBody least most) ++ 0x7d :: tail := by simp [h, bounds]
    rw [Nat.add_comm]
    exact Cursor.rest_advance_append hrest
  have hbounds :
      Bounds.bounds c = .ok (some (least, most), c.advance (bounds least most).length) := by
    rw [Bounds.bounds, hinside, if_pos (beq_iff_eq.mpr (Cursor.peek?_of_cons hbehind)), hspaces]
    refine (Except.bind_of_eq_ok (ofBody_boundsBody hleast hmost)).trans ?_
    rw [Cursor.advance_advance, bounds]
    simp [Nat.add_comm]
  have hp : c.peek? = some 0x7b := Cursor.peek?_of_cons h
  rw [Expr.repetitionMark, hp]
  exact hbounds

end Layout

/-! ## Names -/

namespace IsIdentifier

variable {name : String} {tail : Bytes}

/-- A text that starts with an identifier starts with its name. -/
theorem nameAhead_append (h : IsIdentifier name)
    (htail : ∀ b ∈ tail.head?, Ident.isPart b = false) :
    Ident.nameAhead (Bytes.ofString name ++ tail) = Bytes.ofString name := by
  obtain ⟨b, bytes, hstart, hpart, rfl⟩ := h
  have hall : ∀ b' ∈ b :: bytes, Ident.isPart b' = true :=
    List.forall_mem_cons.mpr ⟨Ident.isPart_of_isStart hstart, hpart⟩
  have hstop : tail.takeWhile Ident.isPart = [] := by
    cases tail with
    | nil => rfl
    | cons b' tail => simp [htail b' rfl]
  rw [Bytes.ofString_toAscii fun b' hb => Ident.lt_of_isPart (hall b' hb), List.cons_append,
    Ident.nameAhead, if_pos hstart, List.takeWhile_append_of_pos hpart, hstop, List.append_nil]

/-- An identifier is a name. -/
theorem isName (h : IsIdentifier name) : IsName name := by
  obtain ⟨b, bytes, hstart, hpart, rfl⟩ := h
  exact ⟨b :: bytes, List.forall_mem_cons.mpr ⟨Ident.isPart_of_isStart hstart, hpart⟩, rfl⟩

/-- The first byte of an identifier. -/
theorem exists_start (h : IsIdentifier name) :
    ∃ b bytes, Bytes.ofString name = b :: bytes ∧ Ident.isStart b = true := by
  obtain ⟨b, bytes, hstart, hpart, rfl⟩ := h
  have hall : ∀ b' ∈ b :: bytes, Ident.isPart b' = true :=
    List.forall_mem_cons.mpr ⟨Ident.isPart_of_isStart hstart, hpart⟩
  exact ⟨b, bytes, Bytes.ofString_toAscii fun b' hb => Ident.lt_of_isPart (hall b' hb), hstart⟩

end IsIdentifier

namespace Ident

variable {name : Ident} {tail : Bytes}

/-- The bytes of an identifier behind a prefix. -/
theorem ofString_toText_some (qualifier base : String) :
    Bytes.ofString (toText ⟨some qualifier, base⟩) =
      Bytes.ofString qualifier ++ 0x2e :: Bytes.ofString base := by
  rw [toText, Bytes.ofString_append, Bytes.ofString_append, List.append_assoc]
  rfl

/-- A reference is read as it is printed, unless what stands behind goes on with it. -/
theorem Referable.ahead?_eq_some (h : name.Referable)
    (htail : ∀ b ∈ tail.head?, isPart b = false ∧ b ≠ 0x2e) :
    ahead? (Bytes.ofString name.toText ++ tail) =
      some (name, (Bytes.ofString name.toText).length) := by
  rw [ahead?_append htail]
  obtain ⟨qualifier, base⟩ := name
  have hbase : nameAhead (Bytes.ofString base) = Bytes.ofString base := by
    have happend : nameAhead (Bytes.ofString base ++ []) = Bytes.ofString base :=
      h.base.nameAhead_append (by simp)
    rwa [List.append_nil] at happend
  obtain ⟨b, bytes, hbytes, -⟩ := h.base.exists_start
  have hascii := h.base.isName.toAscii_ofString
  cases qualifier with
  | none =>
    rw [toText, ahead?, hbase, hbytes]
    simp [← hbytes, hascii]
  | some qualifier =>
    have hq : IsIdentifier qualifier := h.qualifier qualifier rfl
    obtain ⟨b', bytes', hbytes', -⟩ := hq.exists_start
    have hfirst : nameAhead (Bytes.ofString qualifier ++ 0x2e :: Bytes.ofString base) =
        Bytes.ofString qualifier :=
      hq.nameAhead_append (by simp; decide)
    rw [ofString_toText_some, ahead?, hfirst, hbytes']
    simp only [← hbytes', List.drop_left, hbase]
    dsimp only at hbytes hascii
    rw [hbytes]
    dsimp only
    rw [← hbytes, hascii, hq.isName.toAscii_ofString, List.length_append, List.length_cons,
      Nat.add_assoc, Nat.add_comm 1]

/-- A reference is in ASCII. -/
theorem Referable.isAscii (h : name.Referable) : Bytes.IsAscii (Bytes.ofString name.toText) := by
  obtain ⟨qualifier, base⟩ := name
  have hbase := h.base.isName.isAscii
  cases qualifier with
  | none => exact hbase
  | some qualifier =>
    rw [ofString_toText_some]
    exact List.forall_mem_append.mpr ⟨(h.qualifier qualifier rfl).isName.isAscii,
      List.forall_mem_cons.mpr ⟨by decide, hbase⟩⟩

/-- The first byte of a reference. -/
theorem Referable.exists_start (h : name.Referable) :
    ∃ b bytes, Bytes.ofString name.toText = b :: bytes ∧ isStart b = true := by
  obtain ⟨qualifier, base⟩ := name
  cases qualifier with
  | none => exact h.base.exists_start
  | some qualifier =>
    obtain ⟨b, bytes, hbytes, hstart⟩ := (h.qualifier qualifier rfl).exists_start
    exact ⟨b, _, by rw [ofString_toText_some, hbytes, List.cons_append], hstart⟩

end Ident

end PatternEngine
