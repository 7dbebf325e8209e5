import PatternEngine.Expr.Parser
import PatternEngine.Proofs.Source.Literals
import PatternEngine.Proofs.Source.NestedBrackets

/-!
# The sets that bracket expressions spell

A bracket expression is spelled with items: bytes and ranges of bytes in hexadecimal, named classes
and further bracket expressions. It is read as the set of the bytes that belong to one of its items,
or to none of them behind a caret, if there are levels for it. A named class has brackets of its
own, so that it needs a level like any other bracket expression inside of one.
-/

namespace PatternEngine

namespace ByteSet

theorem union_assoc (s t u : ByteSet) : (s.union t).union u = s.union (t.union u) :=
  ext fun b => by simp [Bool.or_assoc]

theorem union_empty (s : ByteSet) : s.union .empty = s := ext fun b => by simp

theorem empty_union (s : ByteSet) : ByteSet.empty.union s = s := ext fun b => by simp

end ByteSet

namespace NamedClass

/-- The name of a class. -/
def name : NamedClass → String
  | .alpha => "alpha"
  | .digit => "digit"
  | .alnum => "alnum"
  | .space => "space"
  | .upper => "upper"
  | .lower => "lower"
  | .punct => "punct"
  | .xdigit => "xdigit"
  | .print => "print"
  | .graph => "graph"
  | .cntrl => "cntrl"

/-- A class is found by its name. -/
theorem ofName?_name (cls : NamedClass) :
    ofName? (Bytes.ofString cls.name).toAscii = some cls := by
  cases cls <;> cbv

/-- The name of a class consists of letters. -/
theorem all_isAlpha_name (cls : NamedClass) :
    (Bytes.ofString cls.name).all Ascii.isAlpha = true := by
  cases cls <;> cbv

end NamedClass

namespace Bracket

/-- A byte in hexadecimal, each of its two digits in either case. -/
structure HexByte where
  /-- The byte. -/
  value : UInt8
  /-- The first digit is a capital. -/
  capital : Bool
  /-- The second digit is a capital. -/
  capital' : Bool

/-- The escape that a byte is written as. -/
def HexByte.text (x : HexByte) : Bytes :=
  [0x5c, 0x78, Ascii.hexDigit x.capital (x.value.toNat / 16),
    Ascii.hexDigit x.capital' (x.value.toNat % 16)]

/-- An item of a bracket expression. -/
inductive SetItem where
  /-- One byte. -/
  | byte (x : HexByte)
  /-- The bytes from one up to and including another. -/
  | range (lo hi : HexByte) (h : lo.value ≤ hi.value)
  /-- A class, or what does not belong to it. -/
  | named (complemented : Bool) (cls : NamedClass)
  /-- A bracket expression, or what does not belong to it. -/
  | nested (complemented : Bool) (items : List SetItem)

/-- The mark of a complement. -/
def caret (complemented : Bool) : Bytes := if complemented then [0x5e] else []

/-- The statement, or its contrary if the complement is asked for. -/
def Complemented (complemented : Bool) (p : Prop) : Prop := if complemented then ¬p else p

namespace SetItem

mutual

/-- What is written for an item. -/
def text : SetItem → Bytes
  | .byte x => x.text
  | .range lo hi _ => lo.text ++ 0x2d :: hi.text
  | .named complemented cls =>
    0x5b :: 0x3a :: (caret complemented ++ Bytes.ofString cls.name ++ [0x3a, 0x5d])
  | .nested complemented items => 0x5b :: (caret complemented ++ textOf items ++ [0x5d])

/-- What is written for items one after the other. -/
def textOf : List SetItem → Bytes
  | [] => []
  | item :: items => item.text ++ textOf items

end

mutual

/-- The byte belongs to an item. -/
def Mem (b : UInt8) : SetItem → Prop
  | .byte x => b = x.value
  | .range lo hi _ => lo.value ≤ b ∧ b ≤ hi.value
  | .named complemented cls => Complemented complemented (cls.contains b = true)
  | .nested complemented items => Complemented complemented (MemOf b items)

/-- The byte belongs to one of the items. -/
def MemOf (b : UInt8) : List SetItem → Prop
  | [] => False
  | item :: items => item.Mem b ∨ MemOf b items

end

mutual

/-- How deep bracket expressions are nested in an item, where a named class counts for so much. -/
def depth (ofClass : Nat) : SetItem → Nat
  | .byte _ => 0
  | .range _ _ _ => 0
  | .named _ _ => ofClass
  | .nested _ items => depthOf ofClass items + 1

/-- How deep bracket expressions are nested in one of the items. -/
def depthOf (ofClass : Nat) : List SetItem → Nat
  | [] => 0
  | item :: items => max (item.depth ofClass) (depthOf ofClass items)

end

mutual

/-- The set of an item. -/
def set : SetItem → ByteSet
  | .byte x => .singleton x.value
  | .range lo hi _ => .range lo.value hi.value
  | .named complemented cls => complementIf complemented cls.toByteSet
  | .nested complemented items => complementIf complemented (setOf items)

/-- The set of all items together. -/
def setOf : List SetItem → ByteSet
  | [] => .empty
  | item :: items => item.set.union (setOf items)

end

variable {b : UInt8} {items : List SetItem}

theorem memOf_iff : MemOf b items ↔ ∃ item ∈ items, item.Mem b := by
  induction items with
  | nil => simp [MemOf]
  | cons item items ih => simp [MemOf, ih]

/-- Items begin with a bracket or a backslash, and so does what is behind them. -/
theorem exists_head_textOf (items : List SetItem) (tail : Bytes) :
    ∃ b rest, textOf items ++ 0x5d :: tail = b :: rest ∧ b ∈ [0x5b, 0x5c, 0x5d] := by
  rcases items with _ | ⟨_ | _ | _ | _, items⟩ <;>
    exact ⟨_, _, rfl, by simp⟩

end SetItem

/-! ## Members -/

theorem contains_complementIf {s : ByteSet} {b : UInt8} {p : Prop} (complemented : Bool)
    (h : s.contains b = true ↔ p) :
    (complementIf complemented s).contains b = true ↔ Complemented complemented p := by
  cases complemented <;> simp [complementIf, Complemented, ← h]

mutual

/-- The members of the set of an item belong to the item. -/
theorem SetItem.contains_set (b : UInt8) : ∀ item : SetItem,
    item.set.contains b = true ↔ item.Mem b
  | .byte x => by simp [set, Mem, eq_comm]
  | .range lo hi h => by simp [set, Mem]
  | .named complemented cls => contains_complementIf complemented (by simp)
  | .nested complemented items => contains_complementIf complemented (contains_setOf b items)

/-- The members of the set of all items belong to one of them. -/
theorem SetItem.contains_setOf (b : UInt8) : ∀ items : List SetItem,
    (setOf items).contains b = true ↔ MemOf b items
  | [] => by simp [setOf, MemOf]
  | item :: items => by
    rw [setOf, MemOf, ByteSet.contains_union, Bool.or_eq_true, contains_set b item,
      contains_setOf b items]

end

/-! ## Bytes, ranges and classes -/

variable {opening d : Cursor}

/-- A byte in hexadecimal is read as the byte. -/
theorem byte_text (x : HexByte) (pos : Nat) (tail : Bytes) :
    byte ⟨pos, x.text ++ tail⟩ = .ok (x.value, ⟨pos + 4, tail⟩) := by
  have hlt := x.value.toNat_lt
  have hspells : Literal.Spells x.text x.value := by
    have h := @Literal.Spells.hex (x.value.toNat / 16) (x.value.toNat % 16) x.capital x.capital'
      (by omega) (by omega)
    rwa [Nat.div_add_mod, UInt8.ofNat_toNat] at h
  exact Literal.escape_of_unit (.inl hspells) pos tail

/-- The name of a class is read as the class. -/
theorem namedClass_name (complemented : Bool) (cls : NamedClass) (pos : Nat) (tail : Bytes) :
    namedClass opening
        ⟨pos, 0x3a :: (caret complemented ++ Bytes.ofString cls.name ++ 0x3a :: 0x5d :: tail)⟩ =
      .ok (complementIf complemented cls.toByteSet,
        ⟨pos + ((caret complemented ++ Bytes.ofString cls.name).length + 3), tail⟩) := by
  have hname := List.all_eq_true.mp cls.all_isAlpha_name
  have hparts : ∀ b ∈ caret complemented ++ Bytes.ofString cls.name, isClassPart b = true := by
    intro b hb
    rcases List.mem_append.mp hb with hb | hb
    · cases complemented
      · cases hb
      · rw [List.mem_singleton.mp hb]
        rfl
    · rw [isClassPart, hname b hb, Bool.true_or]
  have hbody : (caret complemented ++ Bytes.ofString cls.name ++ 0x3a :: 0x5d :: tail).takeWhile
      isClassPart = caret complemented ++ Bytes.ofString cls.name := by
    rw [List.takeWhile_append_of_pos hparts]
    exact List.append_nil _
  have hcaret : ((caret complemented ++ Bytes.ofString cls.name).head? == some 0x5e) =
      complemented := by
    cases complemented with
    | true => rfl
    | false =>
      refine beq_eq_false_iff_ne.mpr fun h => ?_
      exact absurd (hname 0x5e (List.mem_of_head? h)) (by decide)
  have hdrop : (if complemented then (caret complemented ++ Bytes.ofString cls.name).drop 1
      else caret complemented ++ Bytes.ofString cls.name) = Bytes.ofString cls.name := by
    cases complemented <;> rfl
  unfold namedClass
  simp only [List.drop_succ_cons, List.drop_zero, hbody, hcaret, hdrop, Cursor.advance,
    Nat.add_comm 1, List.drop_left, NamedClass.ofName?_name]
  rfl

/-! ## Bracket expressions -/

/-- What stands behind an opening bracket is decided. -/
def Decided (opening c : Cursor) (members : ByteSet) (needed : Nat) (d : Cursor) : Prop :=
  ∀ levels, Decides levels needed (members, d) (bracket levels opening c)

/-- A bracket expression is decided where the bracket expressions inside of it are. -/
theorem decided_of_writtenOf {c : Cursor} {members : ByteSet} {needed : Nat}
    (h : WrittenOf Decided opening c members needed d) : Decided opening c members needed d :=
  fun levels => WrittenOf.decides (R := Decided) (fun levels _ _ _ _ _ hR => hR levels) h levels

/-- A named class is decided, and opens no level inside of its brackets. -/
theorem decided_named (complemented : Bool) (cls : NamedClass) (pos : Nat) (tail : Bytes) :
    Decided opening
      ⟨pos, 0x3a :: (caret complemented ++ Bytes.ofString cls.name ++ 0x3a :: 0x5d :: tail)⟩
      (complementIf complemented cls.toByteSet) 0
      ⟨pos + ((caret complemented ++ Bytes.ofString cls.name).length + 3), tail⟩ :=
  decided_of_writtenOf (.named rfl (namedClass_name complemented cls pos tail))

/-- Without a caret the items begin right behind the opening bracket. -/
theorem WrittenOf.uncomplemented {R : Cursor → Cursor → ByteSet → Nat → Cursor → Prop} {b : UInt8}
    {c : Cursor} {members : ByteSet} {needed : Nat} (hp : c.peek? = some b) (hcolon : b ≠ 0x3a)
    (hcaret : b ≠ 0x5e) (h : Items R .empty c members needed d) :
    WrittenOf R opening c members needed d := by
  have hplain : (c.peek? == some 0x5e) = false := by simpa [hp] using hcaret
  have hlist := @WrittenOf.list R opening c d members needed (by simpa [hp] using hcolon)
  rw [hplain] at hlist
  exact hlist h

/-- What is written behind the opening bracket of a bracket expression. -/
def behindOpening (complemented : Bool) (items : List SetItem) : Bytes :=
  caret complemented ++ SetItem.textOf items ++ [0x5d]

theorem behindOpening_append (complemented : Bool) (items : List SetItem) (tail : Bytes) :
    behindOpening complemented items ++ tail =
      caret complemented ++ (SetItem.textOf items ++ 0x5d :: tail) := by
  simp [behindOpening]

/-- A list of items is decided, behind a caret or without one, where its items are. -/
theorem decided_list {items : List SetItem} {members : ByteSet} {needed : Nat}
    (complemented : Bool) (pos : Nat) (tail : Bytes)
    (h : Items Decided .empty ⟨pos + (caret complemented).length,
      SetItem.textOf items ++ 0x5d :: tail⟩ members needed d) :
    Decided opening ⟨pos, behindOpening complemented items ++ tail⟩
      (complementIf complemented members) needed d := by
  apply decided_of_writtenOf
  rw [behindOpening_append]
  cases complemented with
  | true => exact .list (by simp [Cursor.peek?, caret]) h
  | false =>
    obtain ⟨b, rest, hhead, hb⟩ := SetItem.exists_head_textOf items tail
    have hpeek : (⟨pos, SetItem.textOf items ++ 0x5d :: tail⟩ : Cursor).peek? = some b := by
      rw [Cursor.peek?, hhead]
      rfl
    exact .uncomplemented hpeek (fun heq => absurd (heq ▸ hb) (by decide))
      (fun heq => absurd (heq ▸ hb) (by decide)) h

/-! ## Items -/

/-- What is behind items does not begin with a dash. -/
theorem byteOrRange_byte (x : HexByte) (items : List SetItem) (pos : Nat) (tail : Bytes) :
    byteOrRange ⟨pos, x.text ++ (SetItem.textOf items ++ 0x5d :: tail)⟩ =
      .ok (.singleton x.value, ⟨pos + 4, SetItem.textOf items ++ 0x5d :: tail⟩) := by
  refine byteOrRange_of_no_dash (byte_text x pos _) fun next rest hrest => ?_
  obtain ⟨b, behind, hhead, hb⟩ := SetItem.exists_head_textOf items tail
  obtain ⟨rfl, -⟩ := List.cons.inj (hhead.symm.trans hrest)
  exact absurd hb (by decide)

/-- What is behind the dash of a range does not begin with a closing bracket. -/
theorem byteOrRange_range {lo hi : HexByte} (h : lo.value ≤ hi.value) (pos : Nat) (tail : Bytes) :
    byteOrRange ⟨pos, lo.text ++ 0x2d :: (hi.text ++ tail)⟩ =
      .ok (.range lo.value hi.value, ⟨pos + 9, tail⟩) := by
  have hlo := byte_text lo pos (0x2d :: (hi.text ++ tail))
  have hhi : byte ((⟨pos + 4, 0x2d :: (hi.text ++ tail)⟩ : Cursor).advance 1) = _ :=
    byte_text hi (pos + 5) tail
  refine (byteOrRange_of_dash hlo (by rfl)).trans ?_
  rw [if_neg (by decide), Except.bind_of_eq_ok hhi]
  exact if_neg (UInt8.not_lt.mpr h)

mutual

/-- An item takes what is written for it out of the text and unites its set with the others. -/
theorem items_text {members : ByteSet} {needed : Nat} {e : Cursor} (s : ByteSet) (pos : Nat)
    (tail : Bytes) (items : List SetItem) : ∀ item : SetItem,
    Items Decided (s.union item.set)
        ⟨pos + item.text.length, SetItem.textOf items ++ 0x5d :: tail⟩ members needed e →
      Items Decided s ⟨pos, item.text ++ (SetItem.textOf items ++ 0x5d :: tail)⟩ members
        (max (item.depth 1) needed) e
  | .byte x => by
    intro hrest
    rw [SetItem.depth, Nat.zero_max]
    exact .single rfl (by decide) (by decide) (byteOrRange_byte x items pos tail) hrest
  | .range lo hi h => by
    intro hrest
    rw [SetItem.depth, Nat.zero_max, SetItem.text, List.append_assoc]
    exact .single rfl (by decide) (by decide) (byteOrRange_range h pos _) hrest
  | .named complemented cls => by
    intro hrest
    have htext : SetItem.text (.named complemented cls) ++ (SetItem.textOf items ++ 0x5d :: tail) =
        0x5b :: 0x3a :: (caret complemented ++ Bytes.ofString cls.name ++
          0x3a :: 0x5d :: (SetItem.textOf items ++ 0x5d :: tail)) := by
      simp [SetItem.text]
    have hlength : pos + (SetItem.text (.named complemented cls)).length =
        pos + 1 + ((caret complemented ++ Bytes.ofString cls.name).length + 3) := by
      simp only [SetItem.text, List.length_append, List.length_cons, List.length_nil]
      omega
    rw [hlength] at hrest
    rw [htext]
    exact .nested rfl (decided_named complemented cls (pos + 1) _) hrest
  | .nested complemented inner => by
    intro hrest
    have hinner := items_textOf .empty (pos + 1 + (caret complemented).length)
      (SetItem.textOf items ++ 0x5d :: tail) inner
    rw [ByteSet.empty_union] at hinner
    have htext : SetItem.text (.nested complemented inner) ++
        (SetItem.textOf items ++ 0x5d :: tail) =
        0x5b :: (behindOpening complemented inner ++ (SetItem.textOf items ++ 0x5d :: tail)) := rfl
    have hlength : pos + (SetItem.text (.nested complemented inner)).length =
        pos + 1 + (caret complemented).length + ((SetItem.textOf inner).length + 1) := by
      simp only [SetItem.text, List.length_append, List.length_cons, List.length_nil]
      omega
    rw [hlength] at hrest
    rw [htext]
    exact .nested rfl (decided_list complemented (pos + 1) _ hinner) hrest

/-- Items take what is written for them out of the text and unite their sets with the others. -/
theorem items_textOf (s : ByteSet) (pos : Nat) (tail : Bytes) : ∀ items : List SetItem,
    Items Decided s ⟨pos, SetItem.textOf items ++ 0x5d :: tail⟩ (s.union (SetItem.setOf items))
      (SetItem.depthOf 1 items) ⟨pos + ((SetItem.textOf items).length + 1), tail⟩
  | [] => by
    rw [SetItem.setOf, ByteSet.union_empty]
    exact .closed rfl
  | item :: items => by
    have hrest := items_textOf (s.union item.set) (pos + item.text.length) tail items
    have hitem := items_text s pos tail items item hrest
    rw [ByteSet.union_assoc, Nat.add_assoc, ← Nat.add_assoc item.text.length, ← List.length_append,
      ← List.append_assoc] at hitem
    exact hitem

end

/-! ## The sets -/

variable {levels : Nat}

/-- What is written for a bracket expression is decided. -/
theorem decided_behindOpening (complemented : Bool) (items : List SetItem) (pos : Nat)
    (tail : Bytes) :
    Decided opening ⟨pos, behindOpening complemented items ++ tail⟩
      (complementIf complemented (SetItem.setOf items)) (SetItem.depthOf 1 items)
      ⟨pos + (behindOpening complemented items).length, tail⟩ := by
  have hitems := items_textOf .empty (pos + (caret complemented).length) tail items
  have hlength : pos + (behindOpening complemented items).length =
      pos + (caret complemented).length + ((SetItem.textOf items).length + 1) := by
    simp only [behindOpening, List.length_append, List.length_cons, List.length_nil]
    omega
  rw [ByteSet.empty_union] at hitems
  rw [hlength]
  exact decided_list complemented pos tail hitems

/-- A bracket expression is read up to its closing bracket where there are levels for what is nested
in it. A byte is a member of the set that is read exactly where it belongs to one of the items, or
to none of them behind a caret. -/
theorem bracket_denotes (complemented : Bool) (items : List SetItem) (opening : Cursor) (pos : Nat)
    (tail : Bytes) (hlevels : SetItem.depthOf 1 items ≤ levels) :
    ∃ members,
      bracket levels opening ⟨pos, behindOpening complemented items ++ tail⟩ =
        .ok (members, ⟨pos + (behindOpening complemented items).length, tail⟩) ∧
      ∀ b, members.contains b = true ↔ Complemented complemented (∃ item ∈ items, item.Mem b) := by
  have hdecided := @decided_behindOpening opening complemented items pos tail levels
  refine ⟨_, hdecided.accepts hlevels, fun b => ?_⟩
  apply contains_complementIf
  rw [SetItem.contains_setOf, SetItem.memOf_iff]

/-- The digits, the capitals and what is outside of ASCII. -/
def digitsCapitalsOthers : List SetItem :=
  [.named false .digit, .range ⟨0x41, false, false⟩ ⟨0x5a, false, false⟩ (by decide),
    .nested true [.range ⟨0x00, false, false⟩ ⟨0x7f, false, true⟩ (by decide)]]

/-- A small letter is none of the digits, the capitals and what is outside of ASCII. -/
theorem bracket_denotes_mixed :
    ∃ members,
      bracket nestingLimit ⟨0, Bytes.ofString "[^[:digit:]\\x41-\\x5a[^\\x00-\\x7F]]"⟩
          ⟨1, Bytes.ofString "^[:digit:]\\x41-\\x5a[^\\x00-\\x7F]]"⟩ = .ok (members, ⟨33, []⟩) ∧
        members.contains 0x61 = true ∧ members.contains 0x42 = false := by
  have htext : behindOpening true digitsCapitalsOthers =
      Bytes.ofString "^[:digit:]\\x41-\\x5a[^\\x00-\\x7F]]" := by cbv
  obtain ⟨members, hread, hmem⟩ := bracket_denotes true digitsCapitalsOthers
    ⟨0, Bytes.ofString "[^[:digit:]\\x41-\\x5a[^\\x00-\\x7F]]"⟩ 1 []
    (show _ ≤ nestingLimit by decide)
  rw [List.append_nil, htext] at hread
  refine ⟨members, hread, ?_, ?_⟩
  · rw [hmem]
    simp [digitsCapitalsOthers, Complemented, SetItem.Mem, SetItem.MemOf, NamedClass.contains,
      Ascii.isDigit, UInt8.le_iff_toNat_le]
  · rw [Bool.eq_false_iff, Ne, hmem]
    simp [digitsCapitalsOthers, Complemented, SetItem.Mem, UInt8.le_iff_toNat_le]

/-- Where levels are missing for what is nested in a bracket expression it is refused for that. -/
theorem tooDeep_of_levels_lt (complemented : Bool) (items : List SetItem) (opening : Cursor)
    (pos : Nat) (tail : Bytes) (hlevels : levels < SetItem.depthOf 1 items) :
    TooDeep (bracket levels opening ⟨pos, behindOpening complemented items ++ tail⟩) :=
  (decided_behindOpening complemented items pos tail levels).refuses hlevels

/-- Items inside of so many brackets. -/
def nest : Nat → List SetItem → List SetItem
  | 0, items => items
  | n + 1, items => [.nested false (nest n items)]

theorem depthOf_nest (ofClass n : Nat) (items : List SetItem) :
    SetItem.depthOf ofClass (nest n items) = SetItem.depthOf ofClass items + n := by
  induction n with
  | zero => rfl
  | succ n ih =>
    simp only [nest, SetItem.depthOf, SetItem.depth, ih, Nat.max_zero]
    omega

theorem textOf_nest (n : Nat) (items : List SetItem) :
    SetItem.textOf (nest n items) =
      List.replicate n 0x5b ++ SetItem.textOf items ++ List.replicate n 0x5d := by
  induction n with
  | zero => simp [nest]
  | succ n ih =>
    rw [List.replicate_succ, List.replicate_succ']
    simp [nest, SetItem.textOf, SetItem.text, ih, caret]

/-- A named class in the innermost of a hundred nested brackets is one level too many. -/
theorem not_bracket_denotes_innermost_class :
    SetItem.depthOf 0 (nest 100 [.named false .alpha]) = 100 ∧
      behindOpening false (nest 100 [.named false .alpha]) =
        List.replicate 100 0x5b ++ Bytes.ofString "[:alpha:]" ++ List.replicate 101 0x5d ∧
      TooDeep (bracket nestingLimit
        ⟨0, 0x5b :: behindOpening false (nest 100 [.named false .alpha])⟩
        ⟨1, behindOpening false (nest 100 [.named false .alpha])⟩) := by
  refine ⟨depthOf_nest 0 100 _, ?_, ?_⟩
  · have hclass : SetItem.textOf [.named false .alpha] = Bytes.ofString "[:alpha:]" := by cbv
    rw [behindOpening, textOf_nest, hclass, List.replicate_succ' (n := 100), caret,
      List.append_assoc]
    rfl
  · have hdeep := @tooDeep_of_levels_lt nestingLimit false (nest 100 [.named false .alpha])
      ⟨0, 0x5b :: behindOpening false (nest 100 [.named false .alpha])⟩ 1 []
      (by rw [depthOf_nest]; decide)
    rwa [List.append_nil] at hdeep

end Bracket

end PatternEngine
