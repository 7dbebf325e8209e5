import PatternEngine.Engine.HandleTable

/-!
# Generations of slots

A number leads to what is in its slot while the slot is of the generation of the number. Storing a
value keeps the generation of every slot, and giving up a value moves on the generation of its own
slot and of no other, modulo the number of generations.
-/

namespace PatternEngine.HandleTable

variable {α : Type} {table after : HandleTable α} {raw : Int32} {index generation other : Nat}
  {value : α}

/-- The generation of a slot. -/
def generation? (table : HandleTable α) (index : Nat) : Option Nat :=
  table.slots[index]?.map (·.generation)

/-- What is in a slot. -/
def content? (table : HandleTable α) (index : Nat) : Option α := table.slots[index]?.bind (·.value)

/-- A number holds a generation that a slot can have. -/
theorem decode?_generation_lt (h : decode? raw = some (index, generation)) :
    generation < generationLimit := by
  unfold decode? at h
  split at h
  · cases h
  · dsimp only at h
    split at h
    · cases h
    · cases h
      have hlt : raw.toNatClampNeg < 2 ^ 31 := raw.toNatClampNeg_lt
      simp only [indexLimit, generationLimit]
      omega

/-- A number leads to the slot that it holds, where that is of the generation that it holds. -/
theorem slotOf?_eq_some_iff {slot : Slot α} : table.slotOf? raw = some (index, slot) ↔
    decode? raw = some (index, slot.generation) ∧ table.slots[index]? = some slot := by
  unfold slotOf?
  constructor
  · intro h
    obtain ⟨⟨i, g⟩, hd, h⟩ := Option.bind_eq_some_iff.mp h
    obtain ⟨found, hs, h⟩ := Option.bind_eq_some_iff.mp h
    split at h
    · rename_i hg
      cases h
      exact ⟨by rw [hd, hg], hs⟩
    · cases h
  · rintro ⟨hd, hs⟩
    simp [hd, hs]

/-- A number leads to what is in its slot while that is of its generation. -/
theorem get?_isSome_iff (hd : decode? raw = some (index, generation)) :
    (table.get? raw).isSome ↔
      table.generation? index = some generation ∧ (table.content? index).isSome := by
  unfold get? generation? content?
  constructor
  · intro h
    obtain ⟨value, h⟩ := Option.isSome_iff_exists.mp h
    obtain ⟨⟨i, slot⟩, hs, hv⟩ := Option.bind_eq_some_iff.mp h
    obtain ⟨hd', hslot⟩ := slotOf?_eq_some_iff.mp hs
    cases hd.symm.trans hd'
    dsimp only at hv
    simp [hslot, hv]
  · rintro ⟨hg, hv⟩
    obtain ⟨slot, hslot, rfl⟩ := Option.map_eq_some_iff.mp hg
    rw [hslot] at hv
    simpa [slotOf?_eq_some_iff.mpr ⟨hd, hslot⟩] using hv

/-- A number that leads to a value holds a slot and a generation. -/
theorem exists_decode? (h : (table.get? raw).isSome) :
    ∃ index generation, decode? raw = some (index, generation) := by
  obtain ⟨value, h⟩ := Option.isSome_iff_exists.mp h
  obtain ⟨⟨index, slot⟩, hs, -⟩ := Option.bind_eq_some_iff.mp h
  exact ⟨index, slot.generation, (slotOf?_eq_some_iff.mp hs).1⟩

/-- What a number leads to is what is given up under it. -/
theorem map_remove : (table.remove raw).map (·.1) = table.get? raw := by
  unfold remove get?
  cases table.slotOf? raw with
  | none => rfl
  | some found => cases h : found.2.value <;> simp [h]

/-- Storing a value keeps the generation of every slot. -/
theorem generation?_insert (h : table.insert value = some (raw, after))
    (hg : table.generation? index = some generation) :
    after.generation? index = some generation := by
  unfold insert fill at h
  split at h
  · rename_i first free _
    obtain ⟨slot, hs, h⟩ := Option.map_eq_some_iff.mp h
    cases h
    by_cases hi : first = index
    · subst hi
      have hlt := (List.getElem?_eq_some_iff.mp hs).1
      rw [generation?, hs] at hg
      simpa [generation?, hlt] using hg
    · simpa [generation?, List.getElem?_set_ne hi] using hg
  · split at h
    · cases h
    · cases h
      obtain ⟨slot, hs, rfl⟩ := Option.map_eq_some_iff.mp hg
      have hlt := (List.getElem?_eq_some_iff.mp hs).1
      simp [generation?, List.getElem?_append_left hlt, hs]

/-- Giving up a value moves on the generation of its slot and of no other. -/
theorem generation?_remove (h : table.remove raw = some (value, after))
    (hd : decode? raw = some (index, generation)) : after.generation? other =
      if other = index then some ((generation + 1) % generationLimit)
      else table.generation? other := by
  obtain ⟨⟨i, slot⟩, hs, h⟩ := Option.bind_eq_some_iff.mp h
  obtain ⟨found, hv, h⟩ := Option.bind_eq_some_iff.mp h
  obtain ⟨hd', hslot⟩ := slotOf?_eq_some_iff.mp hs
  cases hd.symm.trans hd'
  cases h
  unfold generation?
  split
  · rename_i ho
    subst ho
    have hlt := (List.getElem?_eq_some_iff.mp hslot).1
    simp [hlt]
  · rename_i ho
    rw [List.getElem?_set_ne (Ne.symm ho)]

end PatternEngine.HandleTable
