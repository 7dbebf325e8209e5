/-!
# Handles

An engine hands out its patterns as positive numbers of 31 bits. The low 20 bits are the number
of a slot, counted from one, and the high 11 bits its generation. A slot that is given up is
used again for the next pattern, and its generation moves on, so that the old number does not
lead to the new pattern. Generations are counted modulo 2048.
-/

namespace PatternEngine

/-- A place for a value. -/
structure Slot (α : Type) where
  /-- How often the slot was given up, modulo 2048. -/
  generation : Nat
  /-- The value, while there is one. -/
  value : Option α
  deriving DecidableEq, Repr

/-- Values under numbers. -/
structure HandleTable (α : Type) where
  /-- All slots that were ever used. -/
  slots : List (Slot α) := []
  /-- The slots without a value, the one given up last at the front. -/
  free : List Nat := []
  /-- The number of values. -/
  live : Nat := 0
  deriving DecidableEq, Repr

namespace HandleTable

variable {α : Type}

/-- Numbers of slots have 20 bits. -/
def indexLimit : Nat := 1048576

/-- Generations have 11 bits. -/
def generationLimit : Nat := 2048

/-- The greatest number of values. -/
def capacity : Nat := indexLimit - 1

/-- The number of a slot and its generation as one number. -/
def encode (index generation : Nat) : Int32 :=
  Int32.ofNat (generation * indexLimit + (index + 1))

/-- The slot and the generation that a number stands for. -/
def decode? (raw : Int32) : Option (Nat × Nat) :=
  if raw ≤ 0 then none
  else
    let n := raw.toNatClampNeg
    match n % indexLimit with
    | 0 => none
    | index + 1 => some (index, n / indexLimit)

/-- The number of a slot and its generation fit in 31 bits. -/
theorem toInt_encode {index generation : Nat} (hi : index < capacity)
    (hg : generation < generationLimit) :
    (encode index generation).toInt = (generation * indexLimit + (index + 1) : Nat) := by
  have hn : generation * indexLimit + (index + 1) < 2 ^ 31 := by
    simp only [capacity, indexLimit, generationLimit] at *
    omega
  rw [encode, Int32.toInt_ofNat_of_lt hn]

/-- The number of a slot leads back to the slot and its generation. -/
theorem decode?_encode {index generation : Nat} (hi : index < capacity)
    (hg : generation < generationLimit) :
    decode? (encode index generation) = some (index, generation) := by
  have hv := toInt_encode hi hg
  have hpos : ¬ encode index generation ≤ 0 := by
    rw [Int32.le_iff_toInt_le, hv, Int32.toInt_zero]
    omega
  have hnat : (encode index generation).toNatClampNeg = generation * indexLimit + (index + 1) := by
    rw [Int32.toNatClampNeg, hv]
    rfl
  have hmod : (generation * indexLimit + (index + 1)) % indexLimit = index + 1 := by
    simp only [capacity, indexLimit] at *
    omega
  have hdiv : (generation * indexLimit + (index + 1)) / indexLimit = generation := by
    simp only [capacity, indexLimit] at *
    omega
  rw [decode?, if_neg hpos]
  simp only [hnat, hmod, hdiv]

/-- Put a value into a slot. -/
def fill (table : HandleTable α) (index : Nat) (slot : Slot α) (value : α) :
    Int32 × HandleTable α :=
  (encode index slot.generation,
    { table with
      slots := table.slots.set index { slot with value := some value }
      live := table.live + 1 })

/-- Store a value and give its number, unless the table is full. -/
def insert (table : HandleTable α) (value : α) : Option (Int32 × HandleTable α) :=
  match table.free with
  | index :: free =>
    (table.slots[index]?).map fun slot => { table with free }.fill index slot value
  | [] =>
    if capacity ≤ table.slots.length then none
    else
      let slot : Slot α := ⟨0, none⟩
      some ({ table with slots := table.slots ++ [slot] }.fill table.slots.length slot value)

/-- The slot that a number leads to, if it is of the generation of the number. -/
def slotOf? (table : HandleTable α) (raw : Int32) : Option (Nat × Slot α) := do
  let (index, generation) ← decode? raw
  let slot ← table.slots[index]?
  if slot.generation = generation then some (index, slot) else none

/-- The value of a number. -/
def get? (table : HandleTable α) (raw : Int32) : Option α :=
  (table.slotOf? raw).bind (·.2.value)

/-- Give up the value of a number. -/
def remove (table : HandleTable α) (raw : Int32) : Option (α × HandleTable α) := do
  let (index, slot) ← table.slotOf? raw
  let value ← slot.value
  let emptied : Slot α := ⟨(slot.generation + 1) % generationLimit, none⟩
  some (value,
    { slots := table.slots.set index emptied
      free := index :: table.free
      live := table.live - 1 })

end HandleTable

end PatternEngine
