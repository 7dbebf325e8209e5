/-!
# Looking up in lists of pairs

Small finite maps are kept as lists of pairs, of which the first pair of a key counts. The two
laws here say what adding a pair and removing pairs by their keys do to a look-up.
-/

namespace PatternEngine

variable {κ α : Type} [BEq κ] [LawfulBEq κ]

/-- A pair in front hides the later pairs of its key and no others. -/
theorem lookup_cons_ite [DecidableEq κ] (key other : κ) (value : α) (entries : List (κ × α)) :
    ((key, value) :: entries).lookup other =
      if other = key then some value else entries.lookup other := by
  by_cases h : other = key
  · simp [h]
  · simp [List.lookup_cons, beq_eq_false_iff_ne.2 h, h]

/-- Removing pairs by a test of their keys keeps the values of the keys that pass it. -/
theorem lookup_filter_key (p : κ → Bool) (other : κ) (entries : List (κ × α)) :
    (entries.filter fun entry => p entry.1).lookup other =
      if p other then entries.lookup other else none := by
  induction entries with
  | nil => simp
  | cons entry entries ih =>
    obtain ⟨k, v⟩ := entry
    by_cases hk : p k <;> by_cases ho : other = k
    · subst ho; simp [hk]
    · simp [hk, ih, List.lookup_cons, beq_eq_false_iff_ne.2 ho]
    · subst ho; simp [hk, ih]
    · simp [hk, ih, List.lookup_cons, beq_eq_false_iff_ne.2 ho]

end PatternEngine
