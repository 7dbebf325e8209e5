import PatternEngine.Bytes

/-!
# Byte sets

A set of bytes is a vector of 256 bits. The view of a set is membership, and every
operation is stated by what it does to membership; `ext` says that the view decides
the set.
-/

namespace PatternEngine

/-- A set of bytes. -/
structure ByteSet where
  /-- Bit `b` is set when byte `b` is a member. -/
  bits : BitVec 256
  deriving DecidableEq, Repr

namespace ByteSet

/-- Membership of a byte. -/
def contains (s : ByteSet) (b : UInt8) : Bool := s.bits.getLsbD b.toNat

/-- Two sets with the same members are equal. -/
theorem ext {s t : ByteSet} (h : ∀ b, s.contains b = t.contains b) : s = t := by
  obtain ⟨x⟩ := s
  obtain ⟨y⟩ := t
  congr
  apply BitVec.eq_of_getLsbD_eq
  intro i hi
  have hb := h (UInt8.ofNat i)
  simpa [contains, UInt8.toNat_ofNat', Nat.mod_eq_of_lt hi] using hb

/-- The bytes that satisfy a predicate. -/
def ofPred (p : UInt8 → Bool) : ByteSet :=
  ⟨(BitVec.ofBoolListLE ((List.range 256).map fun n => p (UInt8.ofNat n))).setWidth 256⟩

/-- A predicate is the membership of its set. -/
@[simp] theorem contains_ofPred (p : UInt8 → Bool) (b : UInt8) :
    (ofPred p).contains b = p b := by
  have hb : b.toNat < 256 := b.toNat_lt
  simp only [ofPred, contains, BitVec.getLsbD_setWidth, BitVec.getLsbD_ofBoolListLE]
  simp [hb]

/-- The set without members. -/
def empty : ByteSet := ⟨0⟩

/-- Nothing is a member of the empty set. -/
@[simp] theorem contains_empty (b : UInt8) : empty.contains b = false := by
  simp [empty, contains]

/-- The set of one byte. -/
def singleton (b : UInt8) : ByteSet := ⟨BitVec.twoPow 256 b.toNat⟩

/-- The one member of a singleton is its byte. -/
@[simp] theorem contains_singleton (a b : UInt8) :
    (singleton a).contains b = decide (a = b) := by
  have ha : a.toNat < 256 := a.toNat_lt
  simp [singleton, contains, BitVec.getLsbD_twoPow, ha, ← UInt8.toNat_inj]

/-- The bytes from `lo` up to and including `hi`; none when they are reversed. -/
def range (lo hi : UInt8) : ByteSet := ofPred fun b => lo ≤ b && b ≤ hi

/-- The members of a range lie between its ends. -/
@[simp] theorem contains_range (lo hi b : UInt8) :
    (range lo hi).contains b = (decide (lo ≤ b) && decide (b ≤ hi)) := by
  simp [range]

/-- The bytes that belong to either set. -/
def union (s t : ByteSet) : ByteSet := ⟨s.bits ||| t.bits⟩

/-- A member of a union is a member of one of the two sets. -/
@[simp] theorem contains_union (s t : ByteSet) (b : UInt8) :
    (s.union t).contains b = (s.contains b || t.contains b) := by
  simp [union, contains]

/-- The bytes that do not belong to the set. -/
def complement (s : ByteSet) : ByteSet := ⟨~~~s.bits⟩

/-- A member of the complement is no member of the set. -/
@[simp] theorem contains_complement (s : ByteSet) (b : UInt8) :
    s.complement.contains b = !s.contains b := by
  have hb : b.toNat < 256 := b.toNat_lt
  simp [complement, contains, hb]

/-- The members in ascending order. -/
def toList (s : ByteSet) : List UInt8 :=
  ((List.range 256).map UInt8.ofNat).filter s.contains

/-- The number of members. -/
def size (s : ByteSet) : Nat := s.toList.length

/-- The set has no member. -/
def isEmpty (s : ByteSet) : Bool := s.bits == 0

/-- Put a byte before a list of ranges that lie above it, joined to the first of them
when the two are neighbours. -/
def consRun (b : UInt8) : List (UInt8 × UInt8) → List (UInt8 × UInt8)
  | [] => [(b, b)]
  | (lo, hi) :: runs =>
    if b.toNat + 1 == lo.toNat then (b, hi) :: runs else (b, b) :: (lo, hi) :: runs

/-- The maximal ranges of members in ascending order. -/
def runs (s : ByteSet) : List (UInt8 × UInt8) := s.toList.foldr consRun []

/-- A byte in a bracket expression: itself when it is graphic, and otherwise two
hexadecimal digits. -/
def showByte (b : UInt8) : List Char :=
  if Ascii.isGraphic b then [Ascii.toChar b]
  else ['\\', 'x', Nat.digitChar (b.toNat / 16), Nat.digitChar (b.toNat % 16)]

/-- A range in a bracket expression, a single byte without a dash. -/
def showRun : UInt8 × UInt8 → List Char
  | (lo, hi) => if lo = hi then showByte lo else showByte lo ++ '-' :: showByte hi

/-- The set as a bracket expression of its maximal ranges. -/
def toText (s : ByteSet) : String := String.ofList ('[' :: s.runs.flatMap showRun ++ [']'])

end ByteSet

end PatternEngine
