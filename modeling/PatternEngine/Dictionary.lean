import PatternEngine.Lookup

/-!
# Dictionaries

A finite map from strings, kept as a list of pairs. Its view is `find?`, and every
operation is stated by what it does to the view.
-/

namespace PatternEngine

/-- A finite map from strings. The first pair of a key is the one that counts. -/
structure Dictionary (α : Type) where
  /-- The pairs, latest first. -/
  entries : List (String × α)
  deriving Repr

namespace Dictionary

variable {α : Type}

/-- The map without keys. -/
def empty : Dictionary α := ⟨[]⟩

/-- The value of a key. -/
def find? (d : Dictionary α) (key : String) : Option α := d.entries.lookup key

/-- The key has a value. -/
def contains (d : Dictionary α) (key : String) : Bool := (d.find? key).isSome

/-- Give a key a value, in place of the one it had. -/
def insert (d : Dictionary α) (key : String) (value : α) : Dictionary α :=
  ⟨(key, value) :: d.entries.filter fun entry => entry.1 != key⟩

/-- All pairs of `later`, and those of `d` whose keys `later` does not have. -/
def override (d later : Dictionary α) : Dictionary α :=
  ⟨later.entries ++ d.entries.filter fun entry => !later.contains entry.1⟩

/-- The map of a list of pairs, of which later ones take the place of earlier ones. -/
def ofList (pairs : List (String × α)) : Dictionary α :=
  pairs.foldl (fun d pair => d.insert pair.1 pair.2) empty

/-- The keys. -/
def keys (d : Dictionary α) : List String := d.entries.map (·.1)

/-- The empty map has no values. -/
@[simp] theorem find?_empty (key : String) : (empty : Dictionary α).find? key = none := rfl

/-- An insertion changes the value of its key alone. -/
theorem find?_insert (d : Dictionary α) (key other : String) (value : α) :
    (d.insert key value).find? other = if other = key then some value else d.find? other := by
  by_cases h : other = key
  · simp [find?, insert, h]
  · simp [find?, insert, lookup_cons_ite, h, lookup_filter_key (· != key)]

/-- A later map takes precedence. -/
theorem find?_override (d later : Dictionary α) (key : String) :
    (d.override later).find? key = (later.find? key).or (d.find? key) := by
  have h := lookup_filter_key (fun k => !(later.entries.lookup k).isSome) key d.entries
  simp only [find?, override, contains, List.lookup_append]
  rw [h]
  cases later.entries.lookup key <;> simp

end Dictionary

end PatternEngine
