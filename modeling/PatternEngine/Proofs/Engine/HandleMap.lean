import Mathlib.Data.Finmap
import PatternEngine.Proofs.Engine.Generations

/-!
# Handles as a finite map

Whatever is stored, looked up and given up, a table of handles answers as a finite map from numbers
to values does that picks the numbers itself: a number it picks is positive and not in use, a number
in use leads to its value and is given up once, and no other number leads anywhere. What carries
this is that the list of free slots, the count of values and the slots themselves stay in step.
-/

namespace PatternEngine.HandleTable

variable {α : Type} {table after : HandleTable α} {raw other : Int32} {index generation : Nat}
  {value : α}

/-! ## Numbers -/

/-- A number holds the number of a slot that there can be, and is made of it and its generation. -/
theorem encode_of_decode? (h : decode? raw = some (index, generation)) :
    index < capacity ∧ encode index generation = raw := by
  unfold decode? at h
  split at h
  · cases h
  · rename_i hpos
    dsimp only at h
    split at h
    · cases h
    · rename_i slot hslot
      obtain ⟨rfl, rfl⟩ := Prod.mk.inj (Option.some.inj h)
      have hmod : raw.toNatClampNeg % indexLimit < indexLimit := Nat.mod_lt _ (by decide)
      have hsum := Nat.div_add_mod' raw.toNatClampNeg indexLimit
      have hle : (0 : Int32) ≤ raw := by
        rw [Int32.le_iff_toInt_le, Int32.toInt_zero] at hpos ⊢
        omega
      constructor
      · rw [capacity]
        omega
      · rw [encode, ← Nat.succ_eq_add_one, ← hslot, hsum, Int32.ofNat_toNatClampNeg raw hle]

/-- The number of a slot and its generation is positive. -/
theorem encode_pos (hi : index < capacity) (hg : generation < generationLimit) :
    0 < encode index generation := by
  rw [Int32.lt_iff_toInt_lt, toInt_encode hi hg, Int32.toInt_zero]
  omega

/-- A number leads to a value where its slot is of its generation and holds the value. -/
theorem get?_eq_some_iff : table.get? raw = some value ↔ ∃ index generation,
    decode? raw = some (index, generation) ∧
      table.slots[index]? = some ⟨generation, some value⟩ := by
  unfold get?
  constructor
  · intro h
    obtain ⟨⟨index, slot⟩, hslot, hvalue⟩ := Option.bind_eq_some_iff.mp h
    obtain ⟨hd, hs⟩ := slotOf?_eq_some_iff.mp hslot
    obtain ⟨generation, content⟩ := slot
    cases hvalue
    exact ⟨index, generation, hd, hs⟩
  · rintro ⟨index, generation, hd, hs⟩
    rw [slotOf?_eq_some_iff.mpr ⟨hd, hs⟩]
    rfl

/-! ## What holds at all times -/

/-- The free slots are those without a value, the count is that of the values, and slots and
generations are few enough to be held by a number. -/
structure Sound (table : HandleTable α) : Prop where
  free_nodup : table.free.Nodup
  mem_free_iff : ∀ index, index ∈ table.free ↔
    ∃ generation, table.slots[index]? = some ⟨generation, none⟩
  live_eq : table.live = table.slots.countP (·.value.isSome)
  generation_lt : ∀ slot ∈ table.slots, slot.generation < generationLimit
  length_le : table.slots.length ≤ capacity

theorem sound_empty : ({} : HandleTable α).Sound where
  free_nodup := List.nodup_nil
  mem_free_iff := by simp
  live_eq := rfl
  generation_lt := by simp
  length_le := Nat.zero_le _

namespace Sound

/-- A slot and its generation can be held by a number. -/
theorem bounds (hs : table.Sound) {slot : Slot α} (h : table.slots[index]? = some slot) :
    index < capacity ∧ slot.generation < generationLimit := by
  have hlt := (List.getElem?_eq_some_iff.mp h).1
  exact ⟨hlt.trans_le hs.length_le, hs.generation_lt slot (List.mem_of_getElem? h)⟩

end Sound

/-- What storing a value does: the slot that was given up last is used again, and where none is
free there is a new one. -/
inductive Inserts (table : HandleTable α) (value : α) : Int32 → HandleTable α → Prop
  | reused {index generation : Nat} {free : List Nat} (hfree : table.free = index :: free)
      (hslot : table.slots[index]? = some ⟨generation, none⟩) :
      Inserts table value (encode index generation)
        ⟨table.slots.set index ⟨generation, some value⟩, free, table.live + 1⟩
  | added (hfree : table.free = []) (hlt : table.slots.length < capacity) :
      Inserts table value (encode table.slots.length 0)
        ⟨table.slots ++ [⟨0, some value⟩], table.free, table.live + 1⟩

theorem inserts_of_insert (hs : table.Sound) (h : table.insert value = some (raw, after)) :
    Inserts table value raw after := by
  unfold insert fill at h
  split at h
  · rename_i index free hfree
    obtain ⟨slot, hslot, h⟩ := Option.map_eq_some_iff.mp h
    cases h
    obtain ⟨generation, hvacant⟩ :=
      (hs.mem_free_iff index).mp (hfree ▸ List.mem_cons_self)
    cases hslot.symm.trans hvacant
    exact .reused hfree hslot
  · rename_i hfree
    split at h
    · cases h
    · rename_i hlt
      cases h
      have hset : (table.slots ++ [(⟨0, none⟩ : Slot α)]).set table.slots.length ⟨0, some value⟩ =
          table.slots ++ [⟨0, some value⟩] := by simp
      rw [hset]
      exact .added hfree (Nat.lt_of_not_le hlt)

/-- What giving up a value does: its slot is emptied, moves on a generation and is free. -/
inductive Removes (table : HandleTable α) (raw : Int32) : α → HandleTable α → Prop
  | emptied {index generation : Nat} {value : α} (hd : decode? raw = some (index, generation))
      (hslot : table.slots[index]? = some ⟨generation, some value⟩) :
      Removes table raw value
        ⟨table.slots.set index ⟨(generation + 1) % generationLimit, none⟩, index :: table.free,
          table.live - 1⟩

theorem removes_of_remove (h : table.remove raw = some (value, after)) :
    Removes table raw value after := by
  obtain ⟨⟨index, slot⟩, hslot, h⟩ := Option.bind_eq_some_iff.mp h
  obtain ⟨found, hvalue, h⟩ := Option.bind_eq_some_iff.mp h
  obtain ⟨hd, hs⟩ := slotOf?_eq_some_iff.mp hslot
  obtain ⟨generation, content⟩ := slot
  cases hvalue
  cases h
  exact .emptied hd hs

namespace Sound

/-- Storing a value keeps all in step. -/
theorem insert (hs : table.Sound) (h : table.insert value = some (raw, after)) : after.Sound := by
  cases inserts_of_insert hs h with
  | @reused index generation free hfree hslot =>
    have hlt := (List.getElem?_eq_some_iff.mp hslot).1
    have hnodup := List.nodup_cons.mp (hfree ▸ hs.free_nodup)
    refine ⟨hnodup.2, fun i => ?_, ?_, fun slot hmem => ?_, by simpa using hs.length_le⟩
    · have hfree' := hs.mem_free_iff i
      rw [hfree, List.mem_cons] at hfree'
      by_cases hi : i = index
      · subst hi
        simp [hlt, hnodup.1]
      · simpa [hi, List.getElem?_set_ne (Ne.symm hi)] using hfree'
    · have hvacant : table.slots[index] = ⟨generation, none⟩ :=
        (List.getElem?_eq_some_iff.mp hslot).2
      simp [hs.live_eq, List.countP_set hlt, hvacant]
    · rcases List.mem_or_eq_of_mem_set hmem with hmem | rfl
      · exact hs.generation_lt slot hmem
      · exact (hs.bounds hslot).2
  | added hfree hlt =>
    refine ⟨hs.free_nodup, fun i => ?_, ?_, fun slot hmem => ?_, ?_⟩
    · have hnone := hs.mem_free_iff i
      rw [hfree] at hnone ⊢
      by_cases hi : i < table.slots.length
      · simpa [List.getElem?_append_left hi] using hnone
      · by_cases heq : i = table.slots.length
        · simp [heq]
        · have hbeyond : (table.slots ++ [(⟨0, some value⟩ : Slot α)]).length ≤ i := by
            rw [List.length_append, List.length_singleton]
            omega
          simp [List.getElem?_eq_none hbeyond]
    · simp [hs.live_eq]
    · rcases List.mem_append.mp hmem with hmem | hmem
      · exact hs.generation_lt slot hmem
      · rw [List.mem_singleton.mp hmem]
        exact Nat.zero_lt_succ _
    · rw [List.length_append]
      exact hlt

/-- Giving up a value keeps all in step. -/
theorem remove (hs : table.Sound) (h : table.remove raw = some (value, after)) : after.Sound := by
  cases removes_of_remove h with
  | @emptied index generation _ hd hslot =>
    have hlt := (List.getElem?_eq_some_iff.mp hslot).1
    have hfilled : index ∉ table.free := by
      intro hmem
      obtain ⟨other, hvacant⟩ := (hs.mem_free_iff index).mp hmem
      cases hslot.symm.trans hvacant
    refine ⟨hs.free_nodup.cons hfilled, fun i => ?_, ?_, fun slot hmem => ?_,
      by simpa using hs.length_le⟩
    · by_cases hi : i = index
      · subst hi
        simp [hlt]
      · simpa [hi, List.getElem?_set_ne (Ne.symm hi)] using hs.mem_free_iff i
    · have hvalue : table.slots[index] = ⟨generation, some value⟩ :=
        (List.getElem?_eq_some_iff.mp hslot).2
      simp [hs.live_eq, List.countP_set hlt, hvalue]
    · rcases List.mem_or_eq_of_mem_set hmem with hmem | rfl
      · exact hs.generation_lt slot hmem
      · exact Nat.mod_lt _ (by decide)

/-- No room is left exactly when there are as many values as there can be. -/
theorem insert_eq_none_iff (hs : table.Sound) :
    table.insert value = none ↔ table.live = capacity := by
  -- Without a free slot all slots hold values.
  have hfull : table.free = [] ↔ table.live = table.slots.length := by
    rw [hs.live_eq, List.countP_eq_length, List.eq_nil_iff_forall_not_mem]
    constructor
    · intro hfree slot hmem
      obtain ⟨index, hslot⟩ := List.mem_iff_getElem?.mp hmem
      obtain ⟨generation, content⟩ := slot
      cases content with
      | none => exact absurd ((hs.mem_free_iff index).mpr ⟨generation, hslot⟩) (hfree index)
      | some value => rfl
    · intro hall index hmem
      obtain ⟨generation, hslot⟩ := (hs.mem_free_iff index).mp hmem
      exact absurd (hall _ (List.mem_of_getElem? hslot)) (by simp)
  have hle : table.live ≤ table.slots.length := hs.live_eq ▸ List.countP_le_length
  have hlimit := hs.length_le
  cases hfree : table.free with
  | nil =>
    have hlive := hfull.mp hfree
    rw [HandleTable.insert, hfree]
    dsimp only
    split
    · simp only [true_iff]
      omega
    · simp only [reduceCtorEq, false_iff]
      omega
  | cons index free =>
    obtain ⟨generation, hslot⟩ := (hs.mem_free_iff index).mp (hfree ▸ List.mem_cons_self)
    have hne : table.live ≠ table.slots.length := fun heq => by
      rw [hfull.mpr heq] at hfree
      cases hfree
    rw [HandleTable.insert, hfree]
    simp only [hslot, Option.map_some, reduceCtorEq, false_iff]
    omega

end Sound

/-! ## What numbers lead to -/

/-- A number leads to the same where its slot holds the same of its generation. -/
theorem get?_congr (h : ∀ index generation, decode? raw = some (index, generation) → ∀ value,
    after.slots[index]? = some ⟨generation, some value⟩ ↔
      table.slots[index]? = some ⟨generation, some value⟩) : after.get? raw = table.get? raw := by
  apply Option.ext
  intro value
  rw [get?_eq_some_iff, get?_eq_some_iff]
  exact exists_congr fun index => exists_congr fun generation =>
    and_congr_right fun hd => h index generation hd value

/-- A value is stored in one slot, which held none and keeps its generation. -/
theorem Inserts.exists_slot (h : Inserts table value raw after) (hs : table.Sound) :
    ∃ index generation, decode? raw = some (index, generation) ∧ 0 < raw ∧
      after.slots[index]? = some ⟨generation, some value⟩ ∧
      (∀ g content, table.slots[index]? = some ⟨g, content⟩ → g = generation ∧ content = none) ∧
      ∀ i, i ≠ index → after.slots[i]? = table.slots[i]? := by
  cases h with
  | @reused index generation free hfree hslot =>
    obtain ⟨hi, hg⟩ := hs.bounds hslot
    have hlt := (List.getElem?_eq_some_iff.mp hslot).1
    refine ⟨index, generation, decode?_encode hi hg, encode_pos hi hg, by simp [hlt],
      fun g content hold => ?_, fun i hne => List.getElem?_set_ne (Ne.symm hne)⟩
    cases hslot.symm.trans hold
    exact ⟨rfl, rfl⟩
  | added hfree hlt =>
    have hg : 0 < generationLimit := by decide
    refine ⟨table.slots.length, 0, decode?_encode hlt hg, encode_pos hlt hg, by simp, by simp,
      fun i hne => ?_⟩
    by_cases hi : i < table.slots.length
    · exact List.getElem?_append_left hi
    · have hbeyond : (table.slots ++ [(⟨0, some value⟩ : Slot α)]).length ≤ i := by
        rw [List.length_append, List.length_singleton]
        omega
      rw [List.getElem?_eq_none hbeyond, List.getElem?_eq_none (by omega)]

/-- The number that a value is stored under is positive and led nowhere. It leads to the value from
then on, and all other numbers lead where they led. -/
theorem get?_insert (hs : table.Sound) (h : table.insert value = some (raw, after)) :
    0 < raw ∧ table.get? raw = none ∧
      ∀ other, after.get? other = if other = raw then some value else table.get? other := by
  obtain ⟨index, generation, hd, hpos, hfilled, hvacant, hsame⟩ :=
    (inserts_of_insert hs h).exists_slot hs
  refine ⟨hpos, ?_, fun other => ?_⟩
  · refine Option.eq_none_iff_forall_ne_some.mpr fun content hcontent => ?_
    obtain ⟨i, g, hd', hslot⟩ := get?_eq_some_iff.mp hcontent
    cases hd.symm.trans hd'
    cases (hvacant _ _ hslot).2
  · split
    · rename_i heq
      subst heq
      exact get?_eq_some_iff.mpr ⟨index, generation, hd, hfilled⟩
    · rename_i hne
      refine get?_congr fun i g hd' content => ?_
      by_cases hi : i = index
      · -- The number is of another generation, which the slot has neither before nor after.
        subst hi
        have hother : g ≠ generation := by
          rintro rfl
          exact hne ((encode_of_decode? hd').2.symm.trans (encode_of_decode? hd).2)
        constructor
        · intro hslot
          cases hfilled.symm.trans hslot
          exact absurd rfl hother
        · intro hslot
          exact absurd (hvacant _ _ hslot).1 hother
      · rw [hsame i hi]

/-- The number that is given up led to the value and leads nowhere from then on, and all other
numbers lead where they led. -/
theorem get?_remove (h : table.remove raw = some (value, after)) :
    table.get? raw = some value ∧
      ∀ other, after.get? other = if other = raw then none else table.get? other := by
  cases removes_of_remove h with
  | @emptied index generation _ hd hslot =>
    have hlt := (List.getElem?_eq_some_iff.mp hslot).1
    refine ⟨get?_eq_some_iff.mpr ⟨index, generation, hd, hslot⟩, fun other => ?_⟩
    split
    · rename_i heq
      subst heq
      refine Option.eq_none_iff_forall_ne_some.mpr fun content hcontent => ?_
      obtain ⟨i, g, hd', hslot'⟩ := get?_eq_some_iff.mp hcontent
      cases hd.symm.trans hd'
      simp [hlt] at hslot'
    · rename_i hne
      refine get?_congr fun i g hd' content => ?_
      by_cases hi : i = index
      · subst hi
        have hother : generation ≠ g := by
          rintro rfl
          exact hne ((encode_of_decode? hd').2.symm.trans (encode_of_decode? hd).2)
        rw [hslot]
        simp [hlt, hother]
      · rw [List.getElem?_set_ne (Ne.symm hi)]

/-- A number that leads nowhere cannot be given up. -/
theorem remove_eq_none_iff : table.remove raw = none ↔ table.get? raw = none := by
  rw [← map_remove, Option.map_eq_none_iff]

/-! ## The map that a table stands for -/

/-- Something that is asked of a table. -/
inductive Request (α : Type) where
  /-- Store a value. -/
  | insert (value : α)
  /-- Look up what a number leads to. -/
  | get (raw : Int32)
  /-- Give up what a number leads to. -/
  | remove (raw : Int32)
  deriving DecidableEq, Repr

/-- What a table answers. -/
inductive Reply (α : Type) where
  /-- The number that a value was stored under, if there was room. -/
  | handle (raw : Option Int32)
  /-- The value that a number led to, if it led somewhere. -/
  | value (value : Option α)
  deriving DecidableEq, Repr

/-- The answer to a request, and the table after it. -/
def answer (table : HandleTable α) : Request α → Reply α × HandleTable α
  | .insert value =>
    match table.insert value with
    | some (raw, table) => (.handle (some raw), table)
    | none => (.handle none, table)
  | .get raw => (.value (table.get? raw), table)
  | .remove raw =>
    match table.remove raw with
    | some (value, table) => (.value (some value), table)
    | none => (.value none, table)

theorem answer_insert_some (h : table.insert value = some (raw, after)) :
    table.answer (.insert value) = (.handle (some raw), after) := by rw [answer, h]

theorem answer_insert_none (h : table.insert value = none) :
    table.answer (.insert value) = (.handle none, table) := by rw [answer, h]

theorem answer_remove_some (h : table.remove raw = some (value, after)) :
    table.answer (.remove raw) = (.value (some value), after) := by rw [answer, h]

theorem answer_remove_none (h : table.remove raw = none) :
    table.answer (.remove raw) = (.value none, table) := by rw [answer, h]

/-- The answers to several requests, and the table after them. -/
def answerAll (table : HandleTable α) : List (Request α) → List (Reply α) × HandleTable α
  | [] => ([], table)
  | request :: requests =>
    let (reply, table) := table.answer request
    let (replies, table) := table.answerAll requests
    (reply :: replies, table)

/-- A finite map from numbers. -/
abbrev NumberMap (α : Type) := Finmap fun _ : Int32 => α

/-- How a finite map answers a request that picks the numbers itself: any positive number that is
not in use, and none only if there are as many values as there can be. -/
inductive MapAnswers (m : NumberMap α) : Request α → Reply α → NumberMap α → Prop
  | inserted {value : α} {raw : Int32} (hpos : 0 < raw) (hnew : raw ∉ m) :
      MapAnswers m (.insert value) (.handle (some raw)) (m.insert raw value)
  | full {value : α} (hfull : m.keys.card = capacity) :
      MapAnswers m (.insert value) (.handle none) m
  | got (raw : Int32) : MapAnswers m (.get raw) (.value (m.lookup raw)) m
  | removed (raw : Int32) : MapAnswers m (.remove raw) (.value (m.lookup raw)) (m.erase raw)

/-- How a finite map answers several requests. -/
inductive MapRun : NumberMap α → List (Request α) → List (Reply α) → NumberMap α → Prop
  | nil (m : NumberMap α) : MapRun m [] [] m
  | cons {m m' m'' : NumberMap α} {request : Request α} {requests : List (Request α)}
      {reply : Reply α} {replies : List (Reply α)} (hfirst : MapAnswers m request reply m')
      (hrest : MapRun m' requests replies m'') :
      MapRun m (request :: requests) (reply :: replies) m''

/-- The table stands for the map: it is in step, its numbers lead where those of the map do, and it
counts them. -/
structure Represents (table : HandleTable α) (m : NumberMap α) : Prop where
  sound : table.Sound
  get? : ∀ raw, table.get? raw = m.lookup raw
  live : table.live = m.keys.card

theorem get?_empty (raw : Int32) : ({} : HandleTable α).get? raw = none := by
  rw [Option.eq_none_iff_forall_ne_some]
  intro value h
  obtain ⟨index, generation, -, hslot⟩ := get?_eq_some_iff.mp h
  cases hslot

theorem represents_empty : ({} : HandleTable α).Represents ∅ where
  sound := sound_empty
  get? raw := by rw [Finmap.lookup_empty, get?_empty]
  live := rfl

variable {m : NumberMap α} {request : Request α}

/-- A table answers a request as the map does that it stands for. -/
theorem Represents.answer (h : table.Represents m) (request : Request α) :
    ∃ m', MapAnswers m request (table.answer request).1 m' ∧
      (table.answer request).2.Represents m' := by
  cases request with
  | insert value =>
    cases hinsert : table.insert value with
    | none =>
      rw [answer_insert_none hinsert]
      have hfull := h.sound.insert_eq_none_iff.mp hinsert
      exact ⟨m, .full (h.live.symm.trans hfull), h⟩
    | some stored =>
      obtain ⟨raw, after⟩ := stored
      rw [answer_insert_some hinsert]
      obtain ⟨hpos, hnew, hget⟩ := get?_insert h.sound hinsert
      have hmem : raw ∉ m := Finmap.lookup_eq_none.mp ((h.get? raw).symm.trans hnew)
      refine ⟨m.insert raw value, .inserted hpos hmem, h.sound.insert hinsert, fun other => ?_, ?_⟩
      · by_cases heq : other = raw
        · subst heq
          rw [hget, if_pos rfl, Finmap.lookup_insert]
        · rw [hget, if_neg heq, h.get?, Finmap.lookup_insert_of_ne m heq]
      · have hkeys : (m.insert raw value).keys = Insert.insert raw m.keys := by
          ext other
          simp [Finmap.mem_keys, Finmap.mem_insert]
        have hlive : after.live = table.live + 1 := by
          cases inserts_of_insert h.sound hinsert <;> rfl
        rw [hkeys, Finset.card_insert_of_notMem (mt Finmap.mem_keys.mp hmem), hlive, h.live]
  | get raw =>
    refine ⟨m, ?_, h⟩
    have hreply : (table.answer (.get raw)).1 = .value (m.lookup raw) := congrArg _ (h.get? raw)
    rw [hreply]
    exact .got raw
  | remove raw =>
    refine ⟨m.erase raw, ?_⟩
    cases hremove : table.remove raw with
    | none =>
      have hnone : m.lookup raw = none := (h.get? raw).symm.trans (remove_eq_none_iff.mp hremove)
      have herase : m.erase raw = m := by
        refine Finmap.ext_lookup fun other => ?_
        by_cases heq : other = raw
        · rw [heq, Finmap.lookup_erase, hnone]
        · rw [Finmap.lookup_erase_ne heq]
      rw [answer_remove_none hremove, ← hnone]
      exact ⟨.removed raw, herase.symm ▸ h⟩
    | some removed =>
      obtain ⟨value, after⟩ := removed
      obtain ⟨hvalue, hget⟩ := get?_remove hremove
      have hlookup : m.lookup raw = some value := (h.get? raw).symm.trans hvalue
      rw [answer_remove_some hremove, ← hlookup]
      refine ⟨.removed raw, h.sound.remove hremove, fun other => ?_, ?_⟩
      · by_cases heq : other = raw
        · subst heq
          rw [hget, if_pos rfl, Finmap.lookup_erase]
        · rw [hget, if_neg heq, h.get?, Finmap.lookup_erase_ne heq]
      · have hmem : raw ∈ m.keys := Finmap.mem_keys.mpr (Finmap.mem_of_lookup_eq_some hlookup)
        have hlive : after.live = table.live - 1 := by
          cases removes_of_remove hremove
          rfl
        rw [Finmap.keys_erase, Finset.card_erase_of_mem hmem, hlive, h.live]

/-- A table answers requests as the map does that it stands for. -/
theorem Represents.answerAll (h : table.Represents m) (requests : List (Request α)) :
    ∃ m', MapRun m requests (table.answerAll requests).1 m' ∧
      (table.answerAll requests).2.Represents m' := by
  induction requests generalizing table m with
  | nil => exact ⟨m, .nil m, h⟩
  | cons request requests ih =>
    obtain ⟨middle, hfirst, hmiddle⟩ := h.answer request
    obtain ⟨last, hrest, hlast⟩ := ih hmiddle
    exact ⟨last, .cons hfirst hrest, hlast⟩

/-- A number that leads nowhere is answered with nothing, and changes nothing. -/
theorem Represents.answer_of_not_mem (h : table.Represents m) (hraw : raw ∉ m) :
    table.answer (.get raw) = (.value none, table) ∧
      table.answer (.remove raw) = (.value none, table) := by
  have hnone : table.get? raw = none := (h.get? raw).trans (Finmap.lookup_eq_none.mpr hraw)
  constructor
  · rw [HandleTable.answer, hnone]
  · exact answer_remove_none (remove_eq_none_iff.mpr hnone)

/-- A table that was empty at first answers any requests as a finite map does, stands for that map
after them, and passes over all numbers that are not in use. -/
theorem answerAll_refines_map (requests : List (Request α)) :
    ∃ m, MapRun ∅ requests (answerAll {} requests).1 m ∧ (answerAll {} requests).2.Represents m ∧
      ∀ raw ∉ m, (answerAll {} requests).2.answer (.get raw) =
          (.value none, (answerAll {} requests).2) ∧
        (answerAll {} requests).2.answer (.remove raw) =
          (.value none, (answerAll {} requests).2) := by
  obtain ⟨m, hrun, hrepresents⟩ := represents_empty.answerAll requests
  exact ⟨m, hrun, hrepresents, fun raw hraw => hrepresents.answer_of_not_mem hraw⟩

end PatternEngine.HandleTable
