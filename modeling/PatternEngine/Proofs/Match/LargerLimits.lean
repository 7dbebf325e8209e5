import PatternEngine.Proofs.Match.Leftmost

/-!
# Searches with larger limits

Limits cut a search off and have no other part in it. A search that is not cut short has the same
outcome with larger limits, whatever room there is in the log, and one that is cut short tells of
no match: running out is never read as a failure, so no predicate succeeds and no later alternative
or offset is tried because of it.
-/

namespace PatternEngine.Program

open Pattern (Outlasts)

variable {p : Program} {input : Bytes} {more budget origin start room room' : Nat}
  {limits limits' : Limits} {run other : Run}

/-- What a search tries ends alike with larger limits. -/
theorem outlasts_scan (hdepth : limits.depth ≤ limits'.depth) (h : run.Leads more budget other) :
    Outlasts more budget (p.scan input origin limits run) (p.scan input origin limits' other) := by
  unfold scan
  split
  · split
    · exact outlasts_attempt hdepth h.steps h.budget _
    · exact ⟨rfl, h⟩
  · exact outlasts_sweep hdepth h.steps h.budget _ _

/-- A search whose start is behind the input finds nothing and has nothing left over. -/
theorem search_of_behind (hfrom : ¬ max start 1 - 1 ≤ input.length) :
    (p.search input start limits room).1 = ⟨none, 0, false⟩ := by
  have hsize : (Place.start input).ahead.size = input.length := rfl
  rw [search]
  dsimp only
  rw [hsize, if_pos (Nat.not_le.mp hfrom)]

/-- A search that is not cut short has the same outcome with larger limits. -/
theorem search_eq_of_le (hsteps : limits.steps ≤ limits'.steps)
    (hdepth : limits.depth ≤ limits'.depth)
    (habend : (p.search input start limits room).1.abend = false) :
    (p.search input start limits' room').1 = (p.search input start limits room).1 := by
  by_cases hfrom : max start 1 - 1 ≤ input.length
  · have hleads : Run.Leads (limits'.steps - limits.steps) limits.steps
        { steps := limits.steps, room } { steps := limits'.steps, room := room' } :=
      { captures := rfl, steps := (Nat.add_sub_cancel' hsteps).symm, budget := Nat.le_refl _ }
    have hscan : Outlasts (limits'.steps - limits.steps) limits.steps
        (p.scan input (max start 1 - 1) limits { steps := limits.steps, room })
        (p.scan input (max start 1 - 1) limits' { steps := limits'.steps, room := room' }) :=
      outlasts_scan hdepth hleads
    rw [search_eq hfrom, ← Bool.not_eq_true, abend_outcomeOf] at habend
    obtain ⟨hverdict, hafter⟩ := hscan.same habend
    rw [search_eq hfrom, search_eq hfrom]
    dsimp only
    rw [hverdict, hafter.captures]
  · rw [search_of_behind hfrom, search_of_behind hfrom]

/-- A search that is cut short began within the input, and tells of no match and of all bytes from
its start on. -/
theorem search_of_abend (habend : (p.search input start limits room).1.abend = true) :
    max start 1 - 1 ≤ input.length ∧
      (p.search input start limits room).1 = ⟨none, input.length - (max start 1 - 1), true⟩ := by
  by_cases hfrom : max start 1 - 1 ≤ input.length
  · rw [search_eq hfrom, abend_outcomeOf] at habend
    refine ⟨hfrom, ?_⟩
    rw [search_eq hfrom]
    dsimp only
    rw [habend]
    rfl
  · rw [search_of_behind hfrom] at habend
    cases habend

/-- Limits only ever cut a search off. One that is not cut short has the same outcome with any
larger limits, and one that is cut short tells of no match and of all bytes from its start on. -/
theorem search_limits (p : Program) (input : Bytes) (start : Nat) :
    (∀ (limits limits' : Limits) (room room' : Nat), limits.steps ≤ limits'.steps →
      limits.depth ≤ limits'.depth → (p.search input start limits room).1.abend = false →
        (p.search input start limits' room').1 = (p.search input start limits room).1) ∧
    ∀ (limits : Limits) (room : Nat), (p.search input start limits room).1.abend = true →
      max start 1 - 1 ≤ input.length ∧ (p.search input start limits room).1.tree = none ∧
        (p.search input start limits room).1.leftover = input.length - (max start 1 - 1) := by
  refine ⟨fun _ _ _ _ hsteps hdepth => search_eq_of_le hsteps hdepth, fun limits room h => ?_⟩
  obtain ⟨hfrom, houtcome⟩ := search_of_abend h
  rw [houtcome]
  exact ⟨hfrom, rfl, rfl⟩

/-- One character before which there are not two letters `a`, or else any two characters. -/
def oneUnlessDoubled : Program where
  typeName := "*"
  body := .choice
    [.seq [.lookahead .absent (.seq [.literal (.ofBytes [0x61]), .literal (.ofBytes [0x61])]), .any],
      .seq [.any, .any]]
  expression := "!(\"a\" \"a\") . / . ."

/-- In `aab` ten steps find the first two letters, as do more. Six end within the predicate, which
does not make it succeed, and find nothing. -/
theorem search_limits_doubled :
    (oneUnlessDoubled.search [0x61, 0x61, 0x62] 1 ⟨50, 200⟩ 5).1 =
        ⟨some (.node "*" 0 2 []), 1, false⟩ ∧
      (oneUnlessDoubled.search [0x61, 0x61, 0x62] 1 ⟨6, 1⟩ 0).1.abend = true ∧
      (oneUnlessDoubled.search [0x61, 0x61, 0x62] 1 ⟨6, 1⟩ 0).1.tree = none ∧
      (oneUnlessDoubled.search [0x61, 0x61, 0x62] 1 ⟨6, 1⟩ 0).1.leftover = 3 := by
  obtain ⟨hlarger, hcut⟩ := oneUnlessDoubled.search_limits [0x61, 0x61, 0x62] 1
  have hten : (oneUnlessDoubled.search [0x61, 0x61, 0x62] 1 ⟨10, 1⟩ 0).1 =
      ⟨some (.node "*" 0 2 []), 1, false⟩ := by rfl
  have hfound := hlarger ⟨10, 1⟩ ⟨50, 200⟩ 0 5 (by decide) (by decide) (by rw [hten])
  have hsix : (oneUnlessDoubled.search [0x61, 0x61, 0x62] 1 ⟨6, 1⟩ 0).1.abend = true := by rfl
  obtain ⟨-, htree, hleftover⟩ := hcut ⟨6, 1⟩ 0 hsix
  exact ⟨hfound.trans hten, hsix, htree, hleftover⟩

end PatternEngine.Program
