import PatternEngine.Proofs.Match.LargerLimits
import PatternEngine.Proofs.Match.Termination

/-!
# Matches without the nodes of a name

When all bindings of one name are made aliases, a pattern matches where it matched and as far. The
matches of the name are not recorded any more, and in the place of each stand those inside it.
-/

namespace PatternEngine

namespace MatchTree

mutual

/-- The forest that is left of a match when all matches of a name in it give way to those inside
them. -/
def dissolve (name : String) : MatchTree → List MatchTree
  | .node other start stop subs =>
    if other = name then dissolveAll name subs
    else [.node other start stop (dissolveAll name subs)]

/-- The forest that is left of a forest when all matches of a name give way to those inside them. -/
def dissolveAll (name : String) : List MatchTree → List MatchTree
  | [] => []
  | tree :: trees => dissolve name tree ++ dissolveAll name trees

end

variable {name : String}

/-- The parts of a forest are dissolved on their own. -/
theorem dissolveAll_append (trees more : List MatchTree) :
    dissolveAll name (trees ++ more) = dissolveAll name trees ++ dissolveAll name more := by
  induction trees with
  | nil => rfl
  | cons tree trees ih => rw [List.cons_append, dissolveAll, dissolveAll, ih, List.append_assoc]

theorem dissolveAll_singleton (tree : MatchTree) :
    dissolveAll name [tree] = tree.dissolve name := by
  rw [dissolveAll, dissolveAll, List.append_nil]

/-- Of a match with another name the match itself stays. -/
theorem dissolve_of_ne {tree : MatchTree} (h : tree.name ≠ name) :
    tree.dissolve name =
      [.node tree.name tree.start tree.stop (dissolveAll name tree.subs)] := by
  obtain ⟨other, start, stop, subs⟩ := tree
  exact if_neg h

end MatchTree

namespace Pattern

mutual

/-- The pattern in which all bindings of a name are aliases. -/
def aliased (name : String) : Pattern → Pattern
  | .literal text => .literal text
  | .set members => .set members
  | .any => .any
  | .inputStart => .inputStart
  | .inputEnd => .inputEnd
  | .seq items => .seq (aliasedAll name items)
  | .choice items => .choice (aliasedAll name items)
  | .repetition body least most => .repetition (aliased name body) least most
  | .lookahead kind body => .lookahead kind (aliased name body)
  | .capture other body =>
    if other = name then .transparent (aliased name body) else .capture other (aliased name body)
  | .transparent body => .transparent (aliased name body)

/-- The patterns in which all bindings of a name are aliases. -/
def aliasedAll (name : String) : List Pattern → List Pattern
  | [] => []
  | item :: items => aliased name item :: aliasedAll name items

end

/-- The result when all matches of a name give way to those inside them. -/
def Result.dissolve (name : String) : Result → Result
  | .failure => .failure
  | .success stop forest => .success stop (MatchTree.dissolveAll name forest)

variable {name : String} {input : Bytes} {p : Pattern} {pos stop : Nat} {r : Result}

/-- The first part and the rest of a match are dissolved on their own. -/
theorem Result.dissolve_behind (r : Result) (forest : List MatchTree) :
    (r.behind forest).dissolve name =
      (r.dissolve name).behind (MatchTree.dissolveAll name forest) := by
  cases r with
  | failure => rfl
  | success stop later => exact congrArg (Result.success stop) (MatchTree.dissolveAll_append _ _)

/-- In what is left by a test nothing is dissolved. -/
theorem Result.dissolve_ofTest (holds : Prop) [Decidable holds] (pos : Nat) :
    (Result.ofTest holds pos).dissolve name = .ofTest holds pos := by
  unfold Result.ofTest
  split <;> rfl

/-- With aliases in place of the bindings of a name a pattern has the same result, but for the
matches of the name, each of which gives way to those inside it. -/
theorem Yields.aliased (h : p.Yields input pos r) :
    (p.aliased name).Yields input pos (r.dissolve name) := by
  induction h with
  | literal h => exact .literal h
  | notLiteral h => exact .notLiteral h
  | set hb h => exact .set hb h
  | notSet h => exact .notSet h
  | any h => exact .any h
  | notAny h => exact .notAny h
  | inputStart =>
    rw [Result.dissolve_ofTest]
    exact .inputStart
  | inputEnd =>
    rw [Result.dissolve_ofTest]
    exact .inputEnd
  | seqNil => exact .seqNil
  | seqFailure _ ih => exact .seqFailure ih
  | seqCons _ _ ih ihrest =>
    rw [Result.dissolve_behind]
    exact .seqCons ih ihrest
  | choiceNil => exact .choiceNil
  | choiceHead _ ih => exact .choiceHead ih
  | choiceTail _ _ ih ihrest => exact .choiceTail ih ihrest
  | repetitionFull =>
    rw [Result.dissolve_ofTest]
    exact .repetitionFull
  | repetitionDone hm _ ih =>
    rw [Result.dissolve_ofTest]
    exact .repetitionDone hm ih
  | repetitionEmpty hm _ ih => exact .repetitionEmpty hm ih
  | repetitionMore hm _ hne _ ih ihrest =>
    rw [Result.dissolve_behind]
    exact .repetitionMore hm ih hne ihrest
  | lookaheadFailure _ ih =>
    rw [Result.dissolve_ofTest]
    exact .lookaheadFailure ih
  | lookaheadSuccess _ ih =>
    rw [Result.dissolve_ofTest]
    exact .lookaheadSuccess ih
  | captureFailure _ ih =>
    rw [Pattern.aliased]
    split
    · exact .transparent ih
    · exact .captureFailure ih
  | captureSuccess _ ih =>
    rw [Pattern.aliased, Result.dissolve, MatchTree.dissolveAll_singleton, MatchTree.dissolve]
    split
    · exact .transparent ih
    · exact .captureSuccess ih
  | transparent _ ih => exact .transparent ih

end Pattern

/-- The second outcome is the first without the matches of a name: both are a match or neither is,
with the same bytes behind, and the tree of the second has the same bounds and is what is left of
that of the first when each match of the name in it gives way to those inside it. -/
structure Outcome.DissolvesTo (name : String) (o o' : Outcome) : Prop where
  isMatch : o'.isMatch = o.isMatch
  leftover : o'.leftover = o.leftover
  tree : ∀ tree, o.tree = some tree → ∃ tree', o'.tree = some tree' ∧
    tree'.start = tree.start ∧ tree'.stop = tree.stop ∧ tree.dissolve name = [tree']

namespace Program

open Pattern (Yields Result)

variable {p p' : Program} {input : Bytes} {name : String} {pos stop start origin : Nat}
  {tree : MatchTree} {o o' : Outcome}

/-- Without limits a program matches what its root does. -/
theorem matchesUpTo_iff_yields (hpos : pos ≤ input.length) :
    p.MatchesUpTo input pos stop tree ↔ p.root.Yields input pos (.success stop [tree]) := by
  refine ⟨fun h => h.yields hpos, fun h => ?_⟩
  obtain ⟨n, hn⟩ := p.root.exists_takes hpos
  have hspends := spends_attempt hn (Nat.le_refl _)
  let run : Run := { steps := n + 1, room := 0 }
  rcases attempt_cases p.root.captureDepth run hpos with ⟨after, he⟩ | ⟨after, he, hy⟩ |
    ⟨stop', tree', after, he, hc, hy⟩
  · have hlt := (hspends.exhausted_iff run).mp (by rw [he])
    exact absurd hlt (Nat.not_lt.mpr (Nat.le_succ n))
  · cases h.unique hy
  · cases h.unique hy
    exact ⟨_, run, after, he, hc⟩

/-- A match of a program bears its name. -/
theorem name_of_yields (h : p.root.Yields input pos (.success stop [tree])) :
    tree.name = p.typeName := by
  cases h
  rfl

/-- With aliases in place of the bindings of another name a program matches where it matched and as
far, and each match of that name in its tree gives way to those inside it. -/
theorem MatchesUpTo.aliased (hroot : p'.root = p.root.aliased name) (hname : p.typeName ≠ name)
    (hpos : pos ≤ input.length) (h : p.MatchesUpTo input pos stop tree) :
    ∃ tree', p'.MatchesUpTo input pos stop tree' ∧ tree'.start = tree.start ∧
      tree'.stop = tree.stop ∧ tree.dissolve name = [tree'] := by
  have hyields := (matchesUpTo_iff_yields hpos).mp h
  have hne : tree.name ≠ name := (name_of_yields hyields).trans_ne hname
  have hdissolve := MatchTree.dissolve_of_ne hne
  have hyields' : p'.root.Yields input pos (.success stop (tree.dissolve name)) := by
    rw [hroot, ← MatchTree.dissolveAll_singleton]
    exact hyields.aliased
  rw [hdissolve] at hyields'
  exact ⟨_, (matchesUpTo_iff_yields hpos).mpr hyields', rfl, rfl, hdissolve⟩

/-- With aliases in place of the bindings of another name a program matches nowhere else. -/
theorem MatchesAt.of_aliased (hroot : p'.root = p.root.aliased name) (hpos : pos ≤ input.length)
    (h : p'.MatchesAt input pos) : p.MatchesAt input pos := by
  -- The first program has a result everywhere, and a failure would be one of the second as well.
  obtain ⟨r, hr⟩ := p.root.exists_yields hpos
  cases r with
  | failure =>
    have hfailure : p'.root.Yields input pos .failure := hroot ▸ hr.aliased
    exact absurd h (not_matchesAt hfailure hpos)
  | success stop forest =>
    obtain ⟨tree, rfl⟩ := forest_of_yields hr
    exact ⟨stop, tree, (matchesUpTo_iff_yields hpos).mpr hr⟩

/-- With aliases in place of the bindings of another name a program matches at the same offsets. -/
theorem matchOffsets_aliased (hroot : p'.root = p.root.aliased name) (hname : p.typeName ≠ name) :
    p'.matchOffsets input origin = p.matchOffsets input origin := by
  ext pos
  refine and_congr_right fun _ => and_congr_right fun hpos => ⟨.of_aliased hroot hpos, ?_⟩
  rintro ⟨stop, tree, h⟩
  obtain ⟨tree', h', -⟩ := h.aliased hroot hname hpos
  exact ⟨stop, tree', h'⟩

/-- The leftmost match stays leftmost, and each match of the name in it gives way to those inside
it. -/
theorem Leftmost.aliased (hroot : p'.root = p.root.aliased name) (hname : p.typeName ≠ name)
    (h : p.Leftmost input origin o) :
    ∃ o', p'.Leftmost input origin o' ∧ o.DissolvesTo name o' := by
  have hoffsets : p'.matchOffsets input origin = p.matchOffsets input origin :=
    matchOffsets_aliased hroot hname
  cases h with
  | found hleast hm hstop =>
    obtain ⟨tree', hm', htree⟩ := hm.aliased hroot hname hleast.1.2.1
    refine ⟨_, .found (hoffsets ▸ hleast) hm' hstop, rfl, rfl, fun tree htree' => ?_⟩
    cases htree'
    exact ⟨tree', rfl, htree⟩
  | absent hno => exact ⟨_, .absent (hoffsets ▸ hno), rfl, rfl, nofun⟩

/-- With aliases in place of the bindings of another name a search that no limit cuts short finds
the same match, in which each match of that name gives way to those inside it. -/
theorem search_aliased {limits limits' : Limits} {room room' : Nat}
    (hroot : p'.root = p.root.aliased name) (hname : p.typeName ≠ name)
    (habend : (p.search input start limits room).1.abend = false)
    (habend' : (p'.search input start limits' room').1.abend = false) :
    (p.search input start limits room).1.DissolvesTo name
      (p'.search input start limits' room').1 := by
  by_cases hfrom : max start 1 - 1 ≤ input.length
  · obtain ⟨o', hleft, hdissolves⟩ := (leftmost_search hfrom habend).aliased hroot hname
    rwa [← hleft.unique (leftmost_search hfrom habend')]
  · rw [search_of_behind hfrom, search_of_behind hfrom]
    exact ⟨rfl, rfl, nofun⟩

end Program

end PatternEngine
