import Mathlib.Algebra.Ring.Int.Defs
import Mathlib.Algebra.Ring.Nat
import Mathlib.Data.List.Induction
import PatternEngine.Engine.Basic

/-!
# The history of a limit on memory

A governor knows nothing of its past but the limit in force, which is the last one that was set,
unless the limit was removed since. Limits that are refused leave no trace, nor do questions.

The usage that a limit allows is a sum in words of 64 bits. Where it does not fit in them it wraps
around, to less than the usage when the limit was set.
-/

namespace PatternEngine

namespace Governor

/-! ## Requests -/

/-- What a governor can be asked for. -/
inductive Request where
  /-- A limit in megabytes over a usage in kilobytes. -/
  | set (limitMb : Int32) (usageKb : Int64)
  /-- No limit any more. -/
  | disable
  /-- Whether a usage in kilobytes is more than the limit allows. -/
  | exceeded (usageKb : Int64)
  deriving DecidableEq, Repr

/-- Answer a request: whether the limit was set, or whether the usage is too much. A limit that is
too small leaves the governor as it is. -/
def answer (g : Governor) : Request → Option Bool × Governor
  | .set limitMb usageKb =>
    match set? limitMb usageKb with
    | some g => (some true, g)
    | none => (some false, g)
  | .disable => (none, disabled)
  | .exceeded usageKb => (some (g.exceeded usageKb), g)

/-- A fresh governor after some requests, the first of which comes first. -/
def after (history : List Request) : Governor :=
  history.foldl (fun g request => (g.answer request).2) {}

/-- The request sets a limit that is large enough, or removes the limit. -/
def Request.Changes : Request → Prop
  | .set limitMb _ => 10 ≤ limitMb.toInt
  | .disable => True
  | .exceeded _ => False

/-- The limit was set over the usage, and since then no other was set and it was not removed. -/
def InForce (history : List Request) (limitMb : Int32) (usageKb : Int64) : Prop :=
  ∃ before since, history = before ++ .set limitMb usageKb :: since ∧ 10 ≤ limitMb.toInt ∧
    ∀ request ∈ since, ¬request.Changes

/-- The limit that is told: the one in force, or zero when there is none. -/
def Tells (history : List Request) (limitMb : Int32) : Prop :=
  (∃ usageKb, InForce history limitMb usageKb) ∨
    limitMb = 0 ∧ ∀ limitMb usageKb, ¬InForce history limitMb usageKb

/-- A limit in force is large enough. -/
theorem InForce.le {history : List Request} {limitMb : Int32} {usageKb : Int64}
    (h : InForce history limitMb usageKb) : 10 ≤ limitMb.toInt := by
  obtain ⟨before, since, -, hlimit, -⟩ := h
  exact hlimit

variable {g : Governor} {history : List Request} {request : Request} {limitMb limitMb' : Int32}
  {usageKb usageKb' : Int64}

theorem leastLimitMb_le_iff : leastLimitMb ≤ limitMb ↔ 10 ≤ limitMb.toInt :=
  Int32.le_iff_toInt_le

theorem set?_eq_some (h : 10 ≤ limitMb.toInt) : set? limitMb usageKb = some ⟨limitMb, usageKb⟩ :=
  if_neg (Int32.not_lt.mpr (leastLimitMb_le_iff.mpr h))

theorem set?_eq_none (h : limitMb.toInt < 10) : set? limitMb usageKb = none :=
  if_pos (Int32.not_le.mp (mt leastLimitMb_le_iff.mp (Int.not_le.mpr h)))

/-- What a request to set a limit gives. -/
theorem answer_set (g : Governor) (limitMb : Int32) (usageKb : Int64) :
    g.answer (.set limitMb usageKb) =
      if limitMb.toInt < 10 then (some false, g) else (some true, ⟨limitMb, usageKb⟩) := by
  split_ifs with h
  · simp only [answer, set?_eq_none h]
  · simp only [answer, set?_eq_some (Int.not_lt.mp h)]

/-- Requests that change nothing leave the governor as it is. -/
theorem answer_of_not_changes (h : ¬request.Changes) : (g.answer request).2 = g := by
  cases request with
  | set limitMb usageKb => rw [answer_set, if_pos (Int.not_le.mp h)]
  | disable => exact absurd trivial h
  | exceeded usageKb => rfl

/-! ## The limit in force -/

/-- The last request sets the limit in force, or leaves it in force. -/
theorem inForce_concat_iff : InForce (history ++ [request]) limitMb usageKb ↔
    request = .set limitMb usageKb ∧ 10 ≤ limitMb.toInt ∨
      ¬request.Changes ∧ InForce history limitMb usageKb := by
  constructor
  · rintro ⟨before, since, heq, hlimit, hsince⟩
    rcases List.eq_nil_or_concat since with rfl | ⟨since, last, rfl⟩
    · obtain ⟨-, hlast⟩ := List.append_inj' heq rfl
      exact .inl ⟨List.singleton_inj.mp hlast, hlimit⟩
    · rw [List.concat_eq_append] at heq hsince
      rw [← List.cons_append, ← List.append_assoc] at heq
      obtain ⟨rfl, hlast⟩ := List.append_inj' heq rfl
      obtain rfl := List.singleton_inj.mp hlast
      refine .inr ⟨hsince _ (by simp), before, since, rfl, hlimit, fun request hmem => ?_⟩
      exact hsince request (List.mem_append_left _ hmem)
  · rintro (⟨rfl, hlimit⟩ | ⟨hrequest, before, since, rfl, hlimit, hsince⟩)
    · exact ⟨history, [], rfl, hlimit, by simp⟩
    · refine ⟨before, since ++ [request], by simp, hlimit, fun other hmem => ?_⟩
      rcases List.mem_append.mp hmem with hmem | hmem
      · exact hsince other hmem
      · rwa [List.mem_singleton.mp hmem]

/-- The governor holds the limit in force and the usage it was set over, and nothing when there is
none. -/
structure Tracks (g : Governor) (history : List Request) : Prop where
  eq_of_inForce : ∀ {limitMb usageKb}, InForce history limitMb usageKb → g = ⟨limitMb, usageKb⟩
  eq_of_none : (∀ limitMb usageKb, ¬InForce history limitMb usageKb) → g = {}

theorem tracks_nil : ({} : Governor).Tracks [] where
  eq_of_inForce := by
    rintro limitMb usageKb ⟨before, since, heq, -⟩
    simp at heq
  eq_of_none _ := rfl

/-- A governor keeps track of one more request. -/
theorem Tracks.answer (h : g.Tracks history) (request : Request) :
    (g.answer request).2.Tracks (history ++ [request]) := by
  by_cases hchanges : request.Changes
  · cases request with
    | set limitMb usageKb =>
      have hnew : InForce (history ++ [.set limitMb usageKb]) limitMb usageKb :=
        inForce_concat_iff.mpr (.inl ⟨rfl, hchanges⟩)
      rw [answer_set, if_neg (Int.not_lt.mpr hchanges)]
      refine ⟨fun hforce => ?_, fun hnone => absurd hnew (hnone _ _)⟩
      rcases inForce_concat_iff.mp hforce with ⟨heq, -⟩ | ⟨hrefused, -⟩
      · cases heq
        rfl
      · exact absurd hchanges hrefused
    | disable =>
      refine ⟨fun hforce => ?_, fun _ => rfl⟩
      rcases inForce_concat_iff.mp hforce with ⟨heq, -⟩ | ⟨hkept, -⟩
      · cases heq
      · exact absurd trivial hkept
    | exceeded usageKb => exact absurd hchanges id
  · rw [answer_of_not_changes hchanges]
    refine ⟨fun hforce => ?_, fun hnone => h.eq_of_none fun limitMb usageKb hforce => ?_⟩
    · rcases inForce_concat_iff.mp hforce with ⟨rfl, hlimit⟩ | ⟨-, hforce⟩
      · exact absurd hlimit hchanges
      · exact h.eq_of_inForce hforce
    · exact hnone limitMb usageKb (inForce_concat_iff.mpr (.inr ⟨hchanges, hforce⟩))

theorem after_concat (history : List Request) (request : Request) :
    after (history ++ [request]) = ((after history).answer request).2 := by
  simp [after]

/-- A governor keeps track of all that it was asked for. -/
theorem tracks_after (history : List Request) : (after history).Tracks history := by
  induction history using List.reverseRecOn with
  | nil => exact tracks_nil
  | append_singleton history request ih =>
    rw [after_concat]
    exact ih.answer request

theorem Tracks.tells (h : g.Tracks history) : Tells history g.limitMb := by
  by_cases hforce : ∃ limitMb usageKb, InForce history limitMb usageKb
  · obtain ⟨limitMb, usageKb, hforce⟩ := hforce
    rw [h.eq_of_inForce hforce]
    exact .inl ⟨usageKb, hforce⟩
  · have hnone : ∀ limitMb usageKb, ¬InForce history limitMb usageKb := by simpa using hforce
    rw [h.eq_of_none hnone]
    exact .inr ⟨rfl, hnone⟩

/-! ## The usage that is allowed -/

/-- What 64 bits hold of a number that is less than twice the greatest they can hold. -/
def wrapped (n : Int) : Int := if n < 2 ^ 63 then n else n - 2 ^ 64

theorem bmod_eq_wrapped {n : Int} (hlower : -2 ^ 63 ≤ n) (hupper : n < 2 ^ 64) :
    n.bmod (2 ^ 64) = wrapped n := by
  unfold wrapped
  split_ifs with h
  · exact Int.bmod_eq_of_le (by omega) (by omega)
  · rw [Int.bmod_def]
    omega

/-- The usage that a limit allows, as it is held. -/
theorem toInt_ceiling (h : 10 ≤ limitMb.toInt) :
    (usageKb + limitMb.toInt64 * 1024).toInt = wrapped (usageKb.toInt + 1024 * limitMb.toInt) := by
  have hlimit : limitMb.toInt < 2 ^ 31 := Int32.toInt_lt limitMb
  have hlower : -2 ^ 63 ≤ usageKb.toInt := Int64.le_toInt usageKb
  have hupper : usageKb.toInt < 2 ^ 63 := Int64.toInt_lt usageKb
  have hscaled : (limitMb.toInt64 * 1024).toInt = 1024 * limitMb.toInt := by
    rw [Int64.toInt_mul, Int32.toInt_toInt64, show (1024 : Int64).toInt = 1024 by decide,
      Int.mul_comm]
    exact Int.bmod_eq_of_le (by omega) (by omega)
  rw [Int64.toInt_add, hscaled]
  exact bmod_eq_wrapped (by omega) (by omega)

theorem exceeded_mk_iff (h : 10 ≤ limitMb.toInt) (spentKb : Int64) :
    (⟨limitMb, usageKb⟩ : Governor).exceeded spentKb = true ↔
      wrapped (usageKb.toInt + 1024 * limitMb.toInt) < spentKb.toInt := by
  have hlimited : (⟨limitMb, usageKb⟩ : Governor).isLimited = true := by
    rw [isLimited, decide_eq_true_iff, Int32.lt_iff_toInt_lt, Int32.toInt_zero]
    exact Int.lt_of_lt_of_le (by decide) h
  rw [exceeded, ceilingKb?, if_pos hlimited, Option.any_some, decide_eq_true_iff,
    Int64.lt_iff_toInt_lt, toInt_ceiling h]

/-- A usage is too much when it is more than the limit in force allows. -/
theorem Tracks.exceeded_iff (h : g.Tracks history) (spentKb : Int64) :
    g.exceeded spentKb = true ↔ ∃ limitMb usageKb, InForce history limitMb usageKb ∧
      wrapped (usageKb.toInt + 1024 * limitMb.toInt) < spentKb.toInt := by
  constructor
  · intro hexceeded
    by_cases hforce : ∃ limitMb usageKb, InForce history limitMb usageKb
    · obtain ⟨limitMb, usageKb, hforce⟩ := hforce
      rw [h.eq_of_inForce hforce, exceeded_mk_iff hforce.le] at hexceeded
      exact ⟨limitMb, usageKb, hforce, hexceeded⟩
    · rw [h.eq_of_none (by simpa using hforce)] at hexceeded
      cases hexceeded
  · rintro ⟨limitMb, usageKb, hforce, hlt⟩
    rw [h.eq_of_inForce hforce]
    exact (exceeded_mk_iff hforce.le spentKb).mpr hlt

/-- There is at most one limit in force. -/
theorem Tracks.inForce_unique (h : g.Tracks history)
    (hforce : InForce history limitMb usageKb) (hforce' : InForce history limitMb' usageKb') :
    limitMb = limitMb' ∧ usageKb = usageKb' := by
  cases (h.eq_of_inForce hforce).symm.trans (h.eq_of_inForce hforce')
  exact ⟨rfl, rfl⟩

/-- The answer is that of the sum itself where the sum is in the range of 64 bits, and beyond it
only for a usage that is below the sum that wrapped around as well. -/
theorem Tracks.exceeded_iff_sum_lt_iff (h : g.Tracks history) (spentKb : Int64) :
    (g.exceeded spentKb = true ↔ ∃ limitMb usageKb, InForce history limitMb usageKb ∧
      usageKb.toInt + 1024 * limitMb.toInt < spentKb.toInt) ↔
    ∀ limitMb usageKb, InForce history limitMb usageKb →
      usageKb.toInt + 1024 * limitMb.toInt < 2 ^ 63 ∨
        spentKb.toInt ≤ usageKb.toInt + 1024 * limitMb.toInt - 2 ^ 64 := by
  have hspent := Int64.toInt_lt spentKb
  rw [h.exceeded_iff]
  constructor
  · intro hiff limitMb usageKb hforce
    refine or_iff_not_imp_left.mpr fun hbeyond => Int.not_lt.mp fun hless => ?_
    have hwrapped : wrapped (usageKb.toInt + 1024 * limitMb.toInt) < spentKb.toInt := by
      rwa [wrapped, if_neg hbeyond]
    obtain ⟨limitMb', usageKb', hforce', hlt⟩ := hiff.mp ⟨limitMb, usageKb, hforce, hwrapped⟩
    obtain ⟨rfl, rfl⟩ := h.inForce_unique hforce hforce'
    omega
  · intro hrange
    refine exists₂_congr fun limitMb usageKb => and_congr_right fun hforce => ?_
    have hsum := hrange limitMb usageKb hforce
    rw [wrapped]
    split_ifs <;> omega

end Governor

/-! ## Engines -/

namespace Engine

/-- A request about the memory of an engine. -/
structure AllocationRequest where
  /-- The usage in kilobytes at that time. -/
  usageKb : Int64
  /-- The limit in megabytes that is asked for, if any is. -/
  limitMb : Option Int32
  deriving DecidableEq, Repr

/-- What the governor is asked for: no number and -1 ask for nothing, zero for no limit, and any
other number for that limit. -/
def AllocationRequest.asks (request : AllocationRequest) : List Governor.Request :=
  match request.limitMb with
  | none => []
  | some limitMb =>
    if limitMb = -1 then []
    else if limitMb = 0 then [.disable]
    else [.set limitMb request.usageKb]

/-- The engine after some requests, the first of which comes first. -/
def allocate (e : Engine) (requests : List AllocationRequest) : Engine :=
  requests.foldl (fun e request => (e.allocationLimit request.usageKb request.limitMb).2) e

variable {e : Engine} {limitMb : Int32} {usageKb : Int64}

theorem allocationLimit_of_query {request : Option Int32}
    (h : request = none ∨ request = some (-1)) :
    e.allocationLimit usageKb request = (.ok ⟨e.governor.limitMb, usageKb⟩, e) := by
  rcases h with rfl | rfl
  · rfl
  · rfl

theorem allocationLimit_of_refused (h : limitMb.toInt < 10) (hzero : limitMb ≠ 0)
    (hquery : limitMb ≠ -1) : e.allocationLimit usageKb (some limitMb) =
      (.error (.callFailed "allocation limit must be at least 10 MB"), e) := by
  simp only [allocationLimit, if_neg hquery, if_neg hzero, Governor.set?_eq_none h]
  cbv

theorem allocationLimit_of_accepted (h : 10 ≤ limitMb.toInt) :
    e.allocationLimit usageKb (some limitMb) =
      (.ok ⟨limitMb, usageKb⟩, { e with governor := ⟨limitMb, usageKb⟩ }) := by
  have hquery : limitMb ≠ -1 := by
    rintro rfl
    exact absurd h (by decide)
  have hzero : limitMb ≠ 0 := by
    rintro rfl
    exact absurd h (by decide)
  simp only [allocationLimit, if_neg hquery, if_neg hzero, Governor.set?_eq_some h]

/-- A request about memory asks the governor and leaves all else as it is. -/
theorem allocationLimit_snd (e : Engine) (request : AllocationRequest) :
    (e.allocationLimit request.usageKb request.limitMb).2 =
      { e with governor := request.asks.foldl (fun g ask => (g.answer ask).2) e.governor } := by
  obtain ⟨usageKb, _ | limitMb⟩ := request
  · rfl
  · by_cases hquery : limitMb = -1
    · subst hquery
      rfl
    by_cases hzero : limitMb = 0
    · subst hzero
      rfl
    by_cases hrefused : limitMb.toInt < 10
    · rw [allocationLimit_of_refused hrefused hzero hquery]
      simp [AllocationRequest.asks, hquery, hzero, Governor.answer_set, hrefused]
    · rw [allocationLimit_of_accepted (Int.not_lt.mp hrefused)]
      simp [AllocationRequest.asks, hquery, hzero, Governor.answer_set, hrefused]

theorem allocate_concat (e : Engine) (requests : List AllocationRequest)
    (request : AllocationRequest) : e.allocate (requests ++ [request]) =
      ((e.allocate requests).allocationLimit request.usageKb request.limitMb).2 := by
  simp [allocate]

/-- An engine that is asked about memory differs from before in its governor alone, which was asked
for all that the engine was asked for. -/
theorem allocate_eq (e : Engine) (requests : List AllocationRequest) :
    ({ e with governor := {} } : Engine).allocate requests =
      { e with governor := .after (requests.flatMap (·.asks)) } := by
  induction requests using List.reverseRecOn with
  | nil => rfl
  | append_singleton requests request ih =>
    rw [allocate_concat, ih, allocationLimit_snd]
    simp [Governor.after]

/-- The limit on memory follows its history. A limit that is too small is refused and changes
nothing, the limit that is told is the one in force, and a usage is too much if and only if it is
more than the sum of the limit in force and the usage it was set over, as 64 bits hold the sum. That
is the sum itself as long as it is below `2 ^ 63`. The same history is that of an engine: what is
refused and what only asks leave the engine as it is. -/
theorem limits_follow_history (history : List Governor.Request) (e : Engine)
    (requests : List AllocationRequest) :
    let g := Governor.after history
    let now := ({ e with governor := {} } : Engine).allocate requests
    let asked := requests.flatMap (·.asks)
    ((∀ limitMb usageKb, g.answer (.set limitMb usageKb) =
        if limitMb.toInt < 10 then (some false, g) else (some true, ⟨limitMb, usageKb⟩)) ∧
      Governor.Tells history g.limitMb ∧
      ∀ spentKb, (g.answer (.exceeded spentKb)).2 = g ∧
        ((g.answer (.exceeded spentKb)).1 = some true ↔
          ∃ limitMb usageKb, Governor.InForce history limitMb usageKb ∧
            Governor.wrapped (usageKb.toInt + 1024 * limitMb.toInt) < spentKb.toInt) ∧
        (((g.answer (.exceeded spentKb)).1 = some true ↔
          ∃ limitMb usageKb, Governor.InForce history limitMb usageKb ∧
            usageKb.toInt + 1024 * limitMb.toInt < spentKb.toInt) ↔
          ∀ limitMb usageKb, Governor.InForce history limitMb usageKb →
            usageKb.toInt + 1024 * limitMb.toInt < 2 ^ 63 ∨
              spentKb.toInt ≤ usageKb.toInt + 1024 * limitMb.toInt - 2 ^ 64)) ∧
    now = { e with governor := .after asked } ∧
    Governor.Tells asked now.governor.limitMb ∧
    ∀ usageKb,
      now.allocationLimit usageKb none = (.ok ⟨now.governor.limitMb, usageKb⟩, now) ∧
      now.allocationLimit usageKb (some (-1)) = (.ok ⟨now.governor.limitMb, usageKb⟩, now) ∧
      (∀ limitMb : Int32, limitMb.toInt < 10 → limitMb ≠ 0 → limitMb ≠ -1 →
        now.allocationLimit usageKb (some limitMb) =
          (.error (.callFailed "allocation limit must be at least 10 MB"), now)) ∧
      ∀ limitMb : Int32, 10 ≤ limitMb.toInt →
        (now.allocationLimit usageKb (some limitMb)).1 = .ok ⟨limitMb, usageKb⟩ := by
  intro g now asked
  constructor
  · have htracks := Governor.tracks_after history
    refine ⟨Governor.answer_set _, htracks.tells, fun spentKb => ?_⟩
    have hanswer : (g.answer (.exceeded spentKb)).1 = some true ↔ g.exceeded spentKb = true :=
      (Option.some.injEq _ _).to_iff
    rw [hanswer]
    exact ⟨rfl, htracks.exceeded_iff spentKb, htracks.exceeded_iff_sum_lt_iff spentKb⟩
  · have hnow : now = { e with governor := .after asked } := allocate_eq e requests
    refine ⟨hnow, ?_, fun usageKb => ⟨?_, ?_, ?_, ?_⟩⟩
    · rw [hnow]
      exact (Governor.tracks_after asked).tells
    · exact allocationLimit_of_query (.inl rfl)
    · exact allocationLimit_of_query (.inr rfl)
    · exact fun limitMb => allocationLimit_of_refused
    · intro limitMb hlimit
      rw [allocationLimit_of_accepted hlimit]

/-- An engine that was never asked about memory. -/
def unasked : Engine :=
  .boot 1 ⟨"/opt", "/opt/lib/boot.lua", "/opt/rpl", .installation, "/root/.rc"⟩

/-- Twenty megabytes stay in force when nine are asked for, until ten are. -/
theorem limits_follow_history_refusedNine :
    (Governor.after [.set 20 500, .set 9 700]).exceeded 20981 = true ∧
      let now := unasked.allocate [⟨500, some 20⟩, ⟨700, some 9⟩]
      now.governor = ⟨20, 500⟩ ∧
        now.allocationLimit 900 (some 9) =
          (.error (.callFailed "allocation limit must be at least 10 MB"), now) ∧
        (now.allocationLimit 900 (some 10)).1 = .ok ⟨10, 900⟩ := by
  obtain ⟨⟨-, -, hasked⟩, hnow, -, hrequests⟩ := limits_follow_history
    [.set 20 500, .set 9 700] unasked [⟨500, some 20⟩, ⟨700, some 9⟩]
  obtain ⟨-, -, hrefused, haccepted⟩ := hrequests 900
  have hforce : Governor.InForce [.set 20 500, .set 9 700] 20 500 :=
    ⟨[], [.set 9 700], rfl, by decide, by simp [Governor.Request.Changes]⟩
  refine ⟨?_, (congrArg Engine.governor hnow).trans (by decide), ?_, ?_⟩
  · exact Option.some.inj ((hasked 20981).2.1.mpr ⟨20, 500, hforce, by decide⟩)
  · exact hrefused 9 (by decide) (by decide) (by decide)
  · exact haccepted 10 (by decide)

/-- Not the sum itself is what a usage is compared with: over the greatest usage of all a limit of
ten megabytes is exceeded at once. -/
theorem not_exceeded_iff_sum_lt :
    ¬∀ (history : List Governor.Request) (spentKb : Int64),
      (Governor.after history).exceeded spentKb = true ↔
        ∃ limitMb usageKb, Governor.InForce history limitMb usageKb ∧
          usageKb.toInt + 1024 * limitMb.toInt < spentKb.toInt := by
  intro h
  have hexceeded : (Governor.after [.set 10 Int64.maxValue]).exceeded Int64.maxValue = true := by
    decide
  obtain ⟨limitMb, usageKb, hforce, hlt⟩ := (h _ _).mp hexceeded
  have heq : (⟨10, Int64.maxValue⟩ : Governor) = ⟨limitMb, usageKb⟩ :=
    (Governor.tracks_after [.set 10 Int64.maxValue]).eq_of_inForce hforce
  cases heq
  exact absurd hlt (by decide)

end Engine

end PatternEngine
