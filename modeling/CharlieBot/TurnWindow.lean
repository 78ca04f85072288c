import Mathlib.Algebra.Order.BigOperators.Group.List
import Mathlib.Data.List.GetD
import Mathlib.Order.Interval.Finset.Nat
import Mathlib.Tactic.Linarith

/-!
# The window of rows

The rows of a chat stand one under the other, each with a height that was measured or estimated.
Only those near the viewport are in the document: the ones between two bounds, two screens above
and two screens below, and never more than a cap. Where more rows lie between the bounds, rows are
taken away one by one, from the end that is farther out.

How far out an end is, is told from the bottom edge of its row, at both ends; so of two rows that
are one cap apart the one goes whose bottom edge is farther from the middle of the bounds
(`trim_spec`). At the top of the chat the upper bound is cut off and the middle is not that of the
viewport, and the bottom edge of a tall row is far out while the row fills the viewport: rows that
are seen are then taken away for rows that are not. **The window is right exactly where of any two
rows between the bounds, one cap apart, the one that goes is seen only if the other is too**
(`ranges_right_iff`), and at the bottom, where the rows are counted from the end, where the count
comes as far up as the viewport.
-/

namespace TurnWindow

def windowMarginScreens : ℚ := 2

def maxWindowTurns : ℕ := 256

/-- A range of rows, both ends in it; the empty one ends before it starts. -/
structure TurnRange where
  start : ℕ
  stop : ℤ
  deriving DecidableEq, Repr

def TurnRange.Has (r : TurnRange) (i : ℕ) : Prop := r.start ≤ i ∧ (i : ℤ) ≤ r.stop

section Source

variable (heights : List ℚ)

/-- `heightOf`, of the row at an index. -/
def heightAt (i : ℕ) : ℚ := heights.getD i 0

/-- `ensureOffsets`: where each row starts, from a height on. -/
def offsetsFrom (total : ℚ) : List ℚ → List ℚ
  | [] => []
  | height :: heights => total :: offsetsFrom (total + height) heights

/-- `this.offsets[i]`. -/
def offset (i : ℕ) : ℚ := (offsetsFrom 0 heights).getD i 0

/-- The bottom edge of a row: `this.offsets[i] + this.heightOf(this.segments[i])`. -/
def bottom (i : ℕ) : ℚ := offset heights i + heightAt heights i

/-- The first row that does not end above a bound, from a row on. -/
def firstFrom (lowBound : ℚ) (first : ℕ) : ℕ :=
  if first < heights.length ∧ bottom heights first < lowBound then firstFrom lowBound (first + 1)
  else first
termination_by heights.length - first

/-- The last row before one that starts below a bound, from a row on. -/
def endFrom (highBound : ℚ) (stop : ℕ) : ℕ :=
  if stop + 1 < heights.length ∧ offset heights (stop + 1) < highBound then
    endFrom highBound (stop + 1)
  else stop
termination_by heights.length - stop

/-- The loop that trims a range to the cap. -/
def trim (lowBound highBound : ℚ) (first stop : ℕ) : ℕ × ℕ :=
  if maxWindowTurns < stop - first + 1 then
    let lowSlack := lowBound - bottom heights first
    let highSlack := bottom heights stop - highBound
    if highSlack < lowSlack then trim lowBound highBound (first + 1) stop
    else trim lowBound highBound first (stop - 1)
  else (first, stop)
termination_by stop - first
decreasing_by all_goals (unfold maxWindowTurns at *; omega)

def lowBound (scrollTop viewport : ℚ) : ℚ := max 0 (scrollTop - windowMarginScreens * viewport)

def highBound (scrollTop viewport : ℚ) : ℚ :=
  scrollTop + viewport + windowMarginScreens * viewport

/-- The rows between the bounds, of which there is at least one. -/
def band (scrollTop viewport : ℚ) : ℕ × ℕ :=
  let first := firstFrom heights (lowBound scrollTop viewport) 0
  let first := if heights.length ≤ first then heights.length - 1 else first
  (first, endFrom heights (highBound scrollTop viewport) first)

/-- **`computeTargetRange`**. -/
def computeTargetRange (scrollTop viewport : ℚ) : TurnRange :=
  if heights.length = 0 then ⟨0, -1⟩
  else
    let rows := band heights scrollTop viewport
    let kept := trim heights (lowBound scrollTop viewport) (highBound scrollTop viewport)
      rows.1 rows.2
    ⟨kept.1, kept.2⟩

/-- The walk back from the end: rows are taken in until they are high enough. -/
def walkBack (need total : ℚ) : ℕ → ℕ
  | 0 => 0
  | start + 1 =>
    if total < need then walkBack need (total + heightAt heights (start + 1)) start
    else start + 1

/-- The first row of the pinned range before it is trimmed. -/
def pinnedStart (viewport : ℚ) : ℕ :=
  walkBack heights ((windowMarginScreens + 1) * viewport) 0 (heights.length - 1)

/-- The loop that trims the pinned range. -/
def trimStart (count start : ℕ) : ℕ :=
  if maxWindowTurns < count - start then trimStart count (start + 1) else start
termination_by count - start
decreasing_by (unfold maxWindowTurns at *; omega)

/-- **`pinnedRange`**. -/
def pinnedRange (viewport : ℚ) : TurnRange :=
  if heights.length = 0 then ⟨0, -1⟩
  else ⟨trimStart heights.length (pinnedStart heights viewport), heights.length - 1⟩

end Source

/-! ## Edges -/

section Edges

variable {heights : List ℚ}

/-- Where the row with a number starts, and the one before it ends. -/
def edge (heights : List ℚ) (k : ℕ) : ℚ := (heights.take k).sum

theorem offsetsFrom_getD (total : ℚ) {i : ℕ} (hi : i < heights.length) :
    (offsetsFrom total heights).getD i 0 = total + edge heights i := by
  induction heights generalizing total i with
  | nil => cases hi
  | cons height heights ih =>
    unfold edge
    cases i with
    | zero => exact (add_zero total).symm
    | succ i =>
      rw [List.take_succ_cons, List.sum_cons, ← add_assoc]
      exact ih (total + height) (Nat.lt_of_succ_lt_succ hi)

theorem offset_eq {i : ℕ} (hi : i < heights.length) : offset heights i = edge heights i := by
  unfold offset
  rw [offsetsFrom_getD 0 hi, zero_add]

theorem bottom_eq {i : ℕ} (hi : i < heights.length) :
    bottom heights i = edge heights (i + 1) := by
  unfold bottom heightAt edge
  rw [offset_eq hi, edge, List.getD_eq_getElem _ _ hi, List.take_add_one,
    List.getElem?_eq_getElem hi, List.sum_append, Option.toList_some, List.sum_singleton]

theorem edge_zero : edge heights 0 = 0 := rfl

variable (hheights : ∀ height ∈ heights, 0 ≤ height)
include hheights

theorem edge_mono {k l : ℕ} (h : k ≤ l) : edge heights k ≤ edge heights l := by
  obtain ⟨m, rfl⟩ := Nat.exists_eq_add_of_le h
  unfold edge
  rw [List.take_add, List.sum_append]
  refine le_add_of_nonneg_right (List.sum_nonneg fun height hmem => hheights height ?_)
  exact List.mem_of_mem_drop (List.mem_of_mem_take hmem)

theorem bottom_mono {i j : ℕ} (h : i ≤ j) (hj : j < heights.length) :
    bottom heights i ≤ bottom heights j := by
  rw [bottom_eq (Nat.lt_of_le_of_lt h hj), bottom_eq hj]
  exact edge_mono hheights (Nat.succ_le_succ h)

theorem offset_mono {i j : ℕ} (h : i ≤ j) (hj : j < heights.length) :
    offset heights i ≤ offset heights j := by
  rw [offset_eq (Nat.lt_of_le_of_lt h hj), offset_eq hj]
  exact edge_mono hheights h

end Edges

/-! ## The loops -/

section Loops

variable {heights : List ℚ}

theorem firstFrom_spec (bound : ℚ) (first : ℕ) :
    first ≤ firstFrom heights bound first
      ∧ (∀ i, first ≤ i → i < firstFrom heights bound first → bottom heights i < bound)
      ∧ (firstFrom heights bound first < heights.length →
        bound ≤ bottom heights (firstFrom heights bound first)) := by
  fun_induction firstFrom heights bound first with
  | case1 first hcond ih =>
    refine ⟨by omega, fun i hi hlt => ?_, ih.2.2⟩
    rcases Nat.lt_or_eq_of_le hi with hi | rfl
    · exact ih.2.1 i hi hlt
    · exact hcond.2
  | case2 first hcond =>
    refine ⟨le_rfl, fun i hi hlt => absurd hlt (Nat.not_lt.mpr hi), fun hlt => ?_⟩
    exact not_lt.mp fun hbound => hcond ⟨hlt, hbound⟩

theorem endFrom_spec (bound : ℚ) {stop : ℕ} (hstop : stop < heights.length) :
    stop ≤ endFrom heights bound stop ∧ endFrom heights bound stop < heights.length
      ∧ (∀ i, stop < i → i ≤ endFrom heights bound stop → offset heights i < bound)
      ∧ (endFrom heights bound stop + 1 < heights.length →
        bound ≤ offset heights (endFrom heights bound stop + 1)) := by
  fun_induction endFrom heights bound stop with
  | case1 stop hcond ih =>
    obtain ⟨hle, hlt, hinside, hbeyond⟩ := ih hcond.1
    refine ⟨by omega, hlt, fun i hi hi' => ?_, hbeyond⟩
    rcases Nat.lt_or_eq_of_le (Nat.succ_le_of_lt hi) with hi | rfl
    · exact hinside i hi hi'
    · exact hcond.2
  | case2 stop hcond =>
    refine ⟨le_rfl, hstop, fun i hi hi' => absurd hi (Nat.not_lt.mpr hi'), fun hlt => ?_⟩
    exact not_lt.mp fun hbound => hcond ⟨hlt, hbound⟩

/-- **What the trimming loop does**: it takes rows from both ends until the cap is reached, each
when it was farther out than the row at the other end. -/
structure Trimmed (heights : List ℚ) (low high : ℚ) (first stop : ℕ) (kept : ℕ × ℕ) : Prop where
  first_le : first ≤ kept.1
  le : kept.1 ≤ kept.2
  le_stop : kept.2 ≤ stop
  size : kept.2 - kept.1 + 1 ≤ maxWindowTurns
  all : stop - first + 1 ≤ maxWindowTurns → kept = (first, stop)
  full : maxWindowTurns < stop - first + 1 → kept.2 = kept.1 + 255
  above : ∀ i, first ≤ i → i < kept.1 → ∃ j, i + 256 ≤ j ∧ j ≤ stop
    ∧ bottom heights i + bottom heights j < low + high
  below : ∀ j, kept.2 < j → j ≤ stop → ∃ i, i ≤ kept.1 ∧ i + 256 ≤ j
    ∧ low + high ≤ bottom heights i + bottom heights j

theorem trim_spec (low high : ℚ) {first stop : ℕ} (h : first ≤ stop) :
    Trimmed heights low high first stop (trim heights low high first stop) := by
  fun_induction trim heights low high first stop with
  | case1 first stop hcap lowSlack highSlack hslack ih =>
    unfold maxWindowTurns at hcap
    have hthis := ih (by omega)
    refine ⟨by have := hthis.first_le; omega, hthis.le, hthis.le_stop, hthis.size,
      fun hall => ?_, fun _ => ?_, fun i hi hlt => ?_, hthis.below⟩
    · unfold maxWindowTurns at hall
      omega
    · by_cases hone : maxWindowTurns < stop - (first + 1) + 1
      · exact hthis.full hone
      · rw [hthis.all (Nat.not_lt.mp hone)]
        unfold maxWindowTurns at hone
        dsimp only
        omega
    · rcases Nat.lt_or_eq_of_le hi with hi | rfl
      · exact hthis.above i hi hlt
      · exact ⟨stop, by omega, le_rfl, by linarith⟩
  | case2 first stop hcap lowSlack highSlack hslack ih =>
    unfold maxWindowTurns at hcap
    have hthis := ih (by omega)
    have hlestop := hthis.le_stop
    refine ⟨hthis.first_le, hthis.le, by omega, hthis.size,
      fun hall => ?_, fun _ => ?_, fun i hi hlt => ?_, fun j hj hle => ?_⟩
    · unfold maxWindowTurns at hall
      omega
    · by_cases hone : maxWindowTurns < stop - 1 - first + 1
      · exact hthis.full hone
      · rw [hthis.all (Nat.not_lt.mp hone)]
        unfold maxWindowTurns at hone
        dsimp only
        omega
    · obtain ⟨j, hj, hle, hsum⟩ := hthis.above i hi hlt
      exact ⟨j, hj, by omega, hsum⟩
    · rcases Nat.lt_or_eq_of_le hle with hle | rfl
      · exact hthis.below j hj (by omega)
      · exact ⟨first, hthis.first_le, by omega, by linarith⟩
  | case3 first stop hcap =>
    refine ⟨le_rfl, h, le_rfl, Nat.not_lt.mp hcap, fun _ => rfl, fun hfull => absurd hfull hcap,
      fun i hi hlt => absurd hlt (Nat.not_lt.mpr hi),
      fun j hj hle => absurd hj (Nat.not_lt.mpr hle)⟩

/-- Of two rows one cap apart, the upper one goes where their bottom edges are nearer to the lower
bound than to the upper. -/
theorem Trimmed.lt_iff {low high : ℚ} {first stop : ℕ} {kept : ℕ × ℕ}
    (h : Trimmed heights low high first stop kept)
    (hheights : ∀ height ∈ heights, 0 ≤ height) (hstop : stop < heights.length) {i : ℕ}
    (hi : first ≤ i) (hi' : i + 256 ≤ stop) :
    i < kept.1 ↔ bottom heights i + bottom heights (i + 256) < low + high := by
  constructor
  · intro hlt
    obtain ⟨j, hj, hle, hsum⟩ := h.above i hi hlt
    have hmono := bottom_mono hheights hj (Nat.lt_of_le_of_lt hle hstop)
    linarith
  · intro hsum
    by_contra hkept
    have hfull := h.full (by unfold maxWindowTurns; omega)
    obtain ⟨i', hi', hle, hsum'⟩ := h.below (i + 256) (by omega) hi'
    have hmono := bottom_mono hheights (show i' ≤ i by omega) (by omega)
    linarith

end Loops

/-! ## What is asked of a range -/

section Viewport

variable (heights : List ℚ) (scrollTop viewport : ℚ)

/-- A row meets the viewport. -/
def Meets (i : ℕ) : Prop :=
  i < heights.length ∧ offset heights i < scrollTop + viewport ∧ scrollTop < bottom heights i

instance (i : ℕ) : Decidable (Meets heights scrollTop viewport i) :=
  inferInstanceAs (Decidable (_ ∧ _ ∧ _))

/-- How many rows meet the viewport. -/
def seenCount : ℕ :=
  ((Finset.range heights.length).filter (Meets heights scrollTop viewport)).card

/-- **A range is right**: it is one, within the cap; it has every row that meets the viewport, if
the cap allows; and of the rows it was made from it leaves out none that meets the viewport while it
has one that does not. -/
structure RangeRight (rows : ℕ × ℕ) (r : TurnRange) : Prop where
  nonempty : (r.start : ℤ) ≤ r.stop
  inside : r.stop < heights.length
  size : r.stop - r.start + 1 ≤ maxWindowTurns
  seen : seenCount heights scrollTop viewport ≤ maxWindowTurns →
    ∀ i, Meets heights scrollTop viewport i → r.Has i
  fair : ∀ i, rows.1 ≤ i → i ≤ rows.2 → Meets heights scrollTop viewport i → ¬ r.Has i →
    ∀ j, r.Has j → Meets heights scrollTop viewport j

def RangesRight : Prop :=
  RangeRight heights scrollTop viewport (band heights scrollTop viewport)
      (computeTargetRange heights scrollTop viewport)
    ∧ RangeRight heights scrollTop viewport (pinnedStart heights viewport, heights.length - 1)
      (pinnedRange heights viewport)

/-- **The condition**: there are rows; of two rows between the bounds, one cap apart, the one that
goes meets the viewport only if the other does; and the rows that are counted from the end come as
far up as the viewport, and none of them that meets it is one cap above one that does not. -/
structure Told : Prop where
  ne_nil : heights ≠ []
  pair : ∀ i, i + 256 < heights.length → lowBound scrollTop viewport ≤ bottom heights i →
    offset heights (i + 256) < highBound scrollTop viewport →
    if bottom heights i + bottom heights (i + 256)
        < lowBound scrollTop viewport + highBound scrollTop viewport then
      Meets heights scrollTop viewport i → Meets heights scrollTop viewport (i + 256)
    else Meets heights scrollTop viewport (i + 256) → Meets heights scrollTop viewport i
  pinned : seenCount heights scrollTop viewport ≤ maxWindowTurns →
    ∀ i, Meets heights scrollTop viewport i →
      (heights.drop (i + 2)).sum < (windowMarginScreens + 1) * viewport
  pinnedPair : ∀ i, i + 256 < heights.length →
    (heights.drop (i + 2)).sum < (windowMarginScreens + 1) * viewport →
    Meets heights scrollTop viewport i → Meets heights scrollTop viewport (i + 256)

end Viewport

/-! ## A cap on rows between two ends -/

/-- **Rows of which some stretch meets**: none that meets is left out for one that does not, exactly
if this is so of any two that are one cap apart. -/
theorem fair_iff {P : ℕ → Prop} (hconvex : ∀ i j k, i ≤ j → j ≤ k → P i → P k → P j)
    {first stop f e : ℕ} (hfirst : first ≤ f) (hle : f ≤ e) (hstop : e ≤ stop)
    (hall : stop - first + 1 ≤ 256 → f = first ∧ e = stop)
    (hfull : 256 < stop - first + 1 → e = f + 255) :
    (∀ i, first ≤ i → i ≤ stop → P i → ¬(f ≤ i ∧ i ≤ e) → ∀ j, f ≤ j → j ≤ e → P j)
      ↔ ∀ i, first ≤ i → i + 256 ≤ stop →
        (i < f → P i → P (i + 256)) ∧ (f ≤ i → P (i + 256) → P i) := by
  constructor
  · intro hfair i hi hi'
    have he : e = f + 255 := hfull (by omega)
    refine ⟨fun hlt hP => ?_, fun hge hP => ?_⟩
    · have hend := hfair i hi (by omega) hP (by omega) e hle le_rfl
      exact hconvex i (i + 256) e (by omega) (by omega) hP hend
    · have hstart := hfair (i + 256) (by omega) hi' hP (by omega) f le_rfl hle
      exact hconvex f i (i + 256) hge (by omega) hstart hP
  · intro hpair i hi hi' hP hout j hj hj'
    have hlong : 256 < stop - first + 1 := by
      by_contra hshort
      obtain ⟨rfl, rfl⟩ := hall (by omega)
      exact hout ⟨hi, hi'⟩
    have he := hfull hlong
    -- a row above the range goes up the other end, one cap after the other
    have habove : ∀ m i, f - i ≤ m → first ≤ i → i < f → P i → P e := by
      intro m
      induction m with
      | zero => exact fun i hm _ hlt _ => absurd hlt (by omega)
      | succ m ih =>
        intro i hm hi hlt hP
        have hnext := (hpair i hi (by omega)).1 hlt hP
        by_cases hreach : f ≤ i + 256
        · have hlast := hconvex i (f - 1) (i + 256) (by omega) (by omega) hP hnext
          have hend := (hpair (f - 1) (by omega) (by omega)).1 (by omega) hlast
          rwa [show f - 1 + 256 = e by omega] at hend
        · exact ih (i + 256) (by omega) (by omega) (by omega) hnext
    have hbelow : ∀ m i, i - e ≤ m → i ≤ stop → e < i → P i → P f := by
      intro m
      induction m with
      | zero => exact fun i hm _ hlt _ => absurd hlt (by omega)
      | succ m ih =>
        intro i hm hi hlt hP
        obtain ⟨k, rfl⟩ : ∃ k, i = k + 256 := ⟨i - 256, by omega⟩
        have hnext := (hpair k (by omega) hi).2 (by omega) hP
        by_cases hreach : k ≤ e
        · have hlast := hconvex k (f + 256) (k + 256) (by omega) (by omega) hnext hP
          exact (hpair f hfirst (by omega)).2 le_rfl hlast
        · exact ih k (by omega) (by omega) (by omega) hnext
    by_cases hlt : i < f
    · exact hconvex i j e (by omega) hj' hP (habove (f - i) i le_rfl hi hlt hP)
    · exact hconvex f j i hj (by omega) (hbelow (i - e) i le_rfl hi' (by omega) hP) hP

section Right

variable {heights : List ℚ} {scrollTop viewport : ℚ}

theorem meets_convex (hheights : ∀ height ∈ heights, 0 ≤ height) (i j k : ℕ) (hij : i ≤ j)
    (hjk : j ≤ k) (hi : Meets heights scrollTop viewport i)
    (hk : Meets heights scrollTop viewport k) : Meets heights scrollTop viewport j := by
  have hj : j < heights.length := Nat.lt_of_le_of_lt hjk hk.1
  exact ⟨hj, (offset_mono hheights hjk hk.1).trans_lt hk.2.1,
    hi.2.2.trans_le (bottom_mono hheights hij hj)⟩

theorem lt_seenCount {f i : ℕ}
    (hfull : ∀ j, f ≤ j → j ≤ f + 255 → Meets heights scrollTop viewport j)
    (hi : Meets heights scrollTop viewport i) (hout : ¬(f ≤ i ∧ i ≤ f + 255)) :
    maxWindowTurns < seenCount heights scrollTop viewport := by
  have hsub : insert i (Finset.Icc f (f + 255))
      ⊆ (Finset.range heights.length).filter (Meets heights scrollTop viewport) := by
    intro j hj
    rw [Finset.mem_filter, Finset.mem_range]
    rcases Finset.mem_insert.mp hj with rfl | hj
    · exact ⟨hi.1, hi⟩
    · obtain ⟨hlow, hhigh⟩ := Finset.mem_Icc.mp hj
      exact ⟨(hfull j hlow hhigh).1, hfull j hlow hhigh⟩
  have hcard := Finset.card_le_card hsub
  rw [Finset.card_insert_of_notMem (by rwa [Finset.mem_Icc]), Nat.card_Icc] at hcard
  show 256 < _
  unfold seenCount
  omega

/-- **A range that was cut to the cap** is right exactly if it is fair, and was made of rows that
have all that meet the viewport. -/
theorem rangeRight_iff (hheights : ∀ height ∈ heights, 0 ≤ height) {first stop f e : ℕ}
    (hfirst : first ≤ f) (hle : f ≤ e) (hstop : e ≤ stop) (hlt : stop < heights.length)
    (hsize : e - f + 1 ≤ 256) (hall : stop - first + 1 ≤ 256 → f = first ∧ e = stop)
    (hfull : 256 < stop - first + 1 → e = f + 255) :
    RangeRight heights scrollTop viewport (first, stop) ⟨f, e⟩ ↔
      (∀ i, first ≤ i → i + 256 ≤ stop →
        (i < f → Meets heights scrollTop viewport i → Meets heights scrollTop viewport (i + 256))
          ∧ (f ≤ i → Meets heights scrollTop viewport (i + 256) →
            Meets heights scrollTop viewport i))
        ∧ (seenCount heights scrollTop viewport ≤ maxWindowTurns →
          ∀ i, Meets heights scrollTop viewport i → first ≤ i ∧ i ≤ stop) := by
  have hhas : ∀ i, TurnRange.Has ⟨f, e⟩ i ↔ f ≤ i ∧ i ≤ e := fun i =>
    and_congr_right fun _ => Int.ofNat_le
  rw [← fair_iff (meets_convex hheights) hfirst hle hstop hall hfull]
  constructor
  · intro h
    refine ⟨fun i hi hi' hmeets hout j hj hj' => ?_, fun hcount i hmeets => ?_⟩
    · exact h.fair i hi hi' hmeets (fun hin => hout ((hhas i).mp hin)) j ((hhas j).mpr ⟨hj, hj'⟩)
    · have hin := (hhas i).mp (h.seen hcount i hmeets)
      omega
  · rintro ⟨hfair, hrows⟩
    refine ⟨Int.ofNat_le.mpr hle, ?_, ?_, fun hcount i hmeets => ?_,
      fun i hi hi' hmeets hout j hj => ?_⟩
    · show (e : ℤ) < heights.length
      omega
    · show (e : ℤ) - f + 1 ≤ (256 : ℕ)
      omega
    · obtain ⟨hi, hi'⟩ := hrows hcount i hmeets
      by_contra hout
      rw [hhas] at hout
      have hlong : 256 < stop - first + 1 := by
        by_contra hshort
        obtain ⟨rfl, rfl⟩ := hall (by omega)
        exact hout ⟨hi, hi'⟩
      have he := hfull hlong
      subst he
      exact absurd hcount (Nat.not_le.mpr (lt_seenCount (hfair i hi hi' hmeets hout) hmeets hout))
    · obtain ⟨hj, hj'⟩ := (hhas j).mp hj
      exact hfair i hi hi' hmeets (fun hin => hout ((hhas i).mpr hin)) j hj hj'

end Right

/-! ## The rows the ranges are made of -/

section Rows

variable {heights : List ℚ} {scrollTop viewport : ℚ}

/-- A position the chat can be scrolled to. -/
def InScrollRange (heights : List ℚ) (scrollTop viewport : ℚ) : Prop :=
  0 ≤ scrollTop ∧ (scrollTop = 0 ∨ scrollTop + viewport ≤ heights.sum)

theorem lowBound_le (hviewport : 0 < viewport) (hscroll : 0 ≤ scrollTop) :
    lowBound scrollTop viewport ≤ scrollTop := by
  unfold lowBound windowMarginScreens
  exact max_le hscroll (by linarith)

theorem le_highBound (hviewport : 0 < viewport) :
    scrollTop + viewport ≤ highBound scrollTop viewport := by
  unfold highBound windowMarginScreens
  linarith

variable (hheights : ∀ height ∈ heights, 0 ≤ height) (hviewport : 0 < viewport)
  (hscroll : InScrollRange heights scrollTop viewport) (hne : heights ≠ [])
include hheights hviewport hscroll hne

theorem lowBound_le_bottom :
    lowBound scrollTop viewport ≤ bottom heights (heights.length - 1) := by
  have hlength := List.length_pos_of_ne_nil hne
  have hsum : bottom heights (heights.length - 1) = heights.sum := by
    rw [bottom_eq (by omega), Nat.sub_add_cancel hlength]
    unfold edge
    rw [List.take_length]
  rw [hsum]
  rcases hscroll.2 with hzero | hle
  · have hlow := lowBound_le hviewport hscroll.1
    rw [hzero] at hlow ⊢
    exact hlow.trans (List.sum_nonneg hheights)
  · exact (lowBound_le hviewport hscroll.1).trans (by linarith)

theorem band_spec : (band heights scrollTop viewport).1 ≤ (band heights scrollTop viewport).2
    ∧ (band heights scrollTop viewport).2 < heights.length
    ∧ ∀ i, i < heights.length →
      ((band heights scrollTop viewport).1 ≤ i ↔ lowBound scrollTop viewport ≤ bottom heights i)
      ∧ (i ≤ (band heights scrollTop viewport).2
        ↔ offset heights i < highBound scrollTop viewport) := by
  have hlength := List.length_pos_of_ne_nil hne
  obtain ⟨-, habove, hfirst⟩ := @firstFrom_spec heights (lowBound scrollTop viewport) 0
  have hbounds : lowBound scrollTop viewport < highBound scrollTop viewport :=
    lt_of_le_of_lt (lowBound_le hviewport hscroll.1)
      (lt_of_lt_of_le (lt_add_of_pos_right _ hviewport) (le_highBound hviewport))
  obtain ⟨first, hdef⟩ : ∃ first, firstFrom heights (lowBound scrollTop viewport) 0 = first :=
    ⟨_, rfl⟩
  rw [hdef] at habove hfirst
  have hlt : first < heights.length := by
    by_contra hge
    have hlast := habove (heights.length - 1) (Nat.zero_le _) (by omega)
    exact absurd (lowBound_le_bottom hheights hviewport hscroll hne) (not_le.mpr hlast)
  have hband : band heights scrollTop viewport
      = (first, endFrom heights (highBound scrollTop viewport) first) := by
    unfold band
    rw [hdef]
    dsimp only
    rw [if_neg (by omega)]
  have hstart : offset heights first < highBound scrollTop viewport := by
    rw [offset_eq hlt]
    cases first with
    | zero => exact lt_of_le_of_lt (le_max_left _ _) hbounds
    | succ k =>
      have hk := habove k (Nat.zero_le k) (Nat.lt_succ_self k)
      rw [bottom_eq (by omega)] at hk
      exact hk.trans hbounds
  obtain ⟨hle, hend, hinside, hbeyond⟩ := endFrom_spec (highBound scrollTop viewport) hlt
  rw [hband]
  refine ⟨hle, hend, fun i hi =>
    ⟨⟨fun hfi => ?_, fun hlow => ?_⟩, ⟨fun hie => ?_, fun hhigh => ?_⟩⟩⟩
  · exact (hfirst hlt).trans (bottom_mono hheights hfi hi)
  · by_contra hout
    exact absurd (habove i (Nat.zero_le i) (Nat.not_le.mp hout)) (not_lt.mpr hlow)
  · by_cases hfi : i ≤ first
    · exact lt_of_le_of_lt (offset_mono hheights hfi hlt) hstart
    · exact hinside i (Nat.not_le.mp hfi) hie
  · by_contra hout
    have hout : endFrom heights (highBound scrollTop viewport) first + 1 ≤ i :=
      Nat.lt_of_not_le hout
    have hbound := (hbeyond (Nat.lt_of_le_of_lt hout hi)).trans (offset_mono hheights hout hi)
    exact absurd hhigh (not_lt.mpr hbound)

theorem mem_band_of_meets {i : ℕ} (h : Meets heights scrollTop viewport i) :
    (band heights scrollTop viewport).1 ≤ i ∧ i ≤ (band heights scrollTop viewport).2 := by
  obtain ⟨-, -, hiff⟩ := band_spec hheights hviewport hscroll hne
  obtain ⟨hlow, hhigh⟩ := hiff i h.1
  exact ⟨hlow.mpr ((lowBound_le hviewport hscroll.1).trans h.2.2.le),
    hhigh.mpr (h.2.1.trans_le (le_highBound hviewport))⟩

omit hscroll hne in
theorem walkBack_le_iff {need : ℚ} (start : ℕ) {i : ℕ} (hi : i ≤ start)
    (hstart : start < heights.length) :
    walkBack heights need (heights.drop (start + 1)).sum start ≤ i
      ↔ i = start ∨ (heights.drop (i + 2)).sum < need := by
  have hmono : ∀ {k l : ℕ}, k ≤ l → (heights.drop l).sum ≤ (heights.drop k).sum := by
    intro k l hkl
    obtain ⟨m, rfl⟩ := Nat.exists_eq_add_of_le hkl
    rw [← List.drop_drop]
    conv_rhs => rw [← List.take_append_drop m (heights.drop k), List.sum_append]
    refine le_add_of_nonneg_left (List.sum_nonneg fun height hmem => hheights height ?_)
    exact List.mem_of_mem_drop (List.mem_of_mem_take hmem)
  induction start generalizing i with
  | zero =>
    obtain rfl := Nat.le_zero.mp hi
    exact ⟨fun _ => .inl rfl, fun _ => le_rfl⟩
  | succ start ih =>
    have hsum : (heights.drop (start + 1 + 1)).sum + heightAt heights (start + 1)
        = (heights.drop (start + 1)).sum := by
      rw [List.drop_eq_getElem_cons hstart, List.sum_cons, heightAt,
        List.getD_eq_getElem _ _ hstart, add_comm]
    unfold walkBack
    by_cases hneed : (heights.drop (start + 1 + 1)).sum < need
    · rw [if_pos hneed, hsum]
      rcases Nat.lt_or_eq_of_le hi with hlt | rfl
      · have hrest : walkBack heights need (heights.drop (start + 1)).sum start ≤ i
            ↔ i = start ∨ (heights.drop (i + 2)).sum < need :=
          ih (Nat.le_of_lt_succ hlt) (Nat.lt_of_succ_lt hstart)
        rw [hrest]
        constructor
        · rintro (rfl | hless)
          · exact .inr hneed
          · exact .inr hless
        · rintro (heq | hless)
          · omega
          · exact .inr hless
      · refine ⟨fun _ => .inl rfl, fun _ => ?_⟩
        exact ((ih le_rfl (by omega)).mpr (.inl rfl)).trans (Nat.le_succ start)
    · rw [if_neg hneed]
      constructor
      · intro hle
        exact .inl (by omega)
      · rintro (rfl | hless)
        · exact le_rfl
        · by_contra hlt
          have hi' := hmono (show i + 2 ≤ start + 1 + 1 by omega)
          exact hneed (lt_of_le_of_lt hi' hless)

omit hscroll in
theorem pinnedStart_le_iff {i : ℕ} (hi : i < heights.length) : pinnedStart heights viewport ≤ i
    ↔ (heights.drop (i + 2)).sum < (windowMarginScreens + 1) * viewport := by
  have hlength := List.length_pos_of_ne_nil hne
  have hneed : 0 < (windowMarginScreens + 1) * viewport := by
    unfold windowMarginScreens
    linarith
  have hwalk := @walkBack_le_iff heights viewport hheights hviewport
    ((windowMarginScreens + 1) * viewport) (heights.length - 1) i (by omega) (by omega)
  rw [Nat.sub_add_cancel hlength, List.drop_length, List.sum_nil] at hwalk
  unfold pinnedStart
  rw [hwalk, or_iff_right_iff_imp]
  rintro rfl
  rw [List.drop_eq_nil_of_le (by omega)]
  exact hneed

omit hheights hviewport hscroll hne in
theorem trimStart_eq (count start : ℕ) :
    trimStart count start = if 256 < count - start then count - 256 else start := by
  fun_induction trimStart count start with
  | case1 start hcap ih =>
    unfold maxWindowTurns at hcap
    rw [ih]
    split_ifs <;> omega
  | case2 start hcap =>
    unfold maxWindowTurns at hcap
    rw [if_neg hcap]

/-- **The range around the viewport** is right exactly if of two rows between the bounds, one cap
apart, the one that goes meets the viewport only if the other does. -/
theorem computeTargetRange_right_iff :
    RangeRight heights scrollTop viewport (band heights scrollTop viewport)
        (computeTargetRange heights scrollTop viewport)
      ↔ ∀ i, i + 256 < heights.length → lowBound scrollTop viewport ≤ bottom heights i →
        offset heights (i + 256) < highBound scrollTop viewport →
        if bottom heights i + bottom heights (i + 256)
            < lowBound scrollTop viewport + highBound scrollTop viewport then
          Meets heights scrollTop viewport i → Meets heights scrollTop viewport (i + 256)
        else Meets heights scrollTop viewport (i + 256) → Meets heights scrollTop viewport i := by
  obtain ⟨hrows, hend, hiff⟩ := band_spec hheights hviewport hscroll hne
  have hmem := @mem_band_of_meets heights scrollTop viewport hheights hviewport hscroll hne
  have hrange : computeTargetRange heights scrollTop viewport
      = ⟨(trim heights (lowBound scrollTop viewport) (highBound scrollTop viewport)
            (band heights scrollTop viewport).1 (band heights scrollTop viewport).2).1,
          (trim heights (lowBound scrollTop viewport) (highBound scrollTop viewport)
            (band heights scrollTop viewport).1 (band heights scrollTop viewport).2).2⟩ :=
    if_neg fun hzero => hne (List.length_eq_zero_iff.mp hzero)
  rw [hrange]
  have htrimmed := @trim_spec heights (lowBound scrollTop viewport) (highBound scrollTop viewport)
    _ _ hrows
  obtain ⟨⟨first, stop⟩, hband⟩ : ∃ rows, band heights scrollTop viewport = rows := ⟨_, rfl⟩
  rw [hband] at hrows hend hiff hmem htrimmed ⊢
  dsimp only at hrows hend hiff hmem htrimmed ⊢
  generalize trim heights _ _ first stop = kept at htrimmed ⊢
  rw [rangeRight_iff hheights htrimmed.first_le htrimmed.le htrimmed.le_stop hend htrimmed.size
    (fun hall => by rw [htrimmed.all hall]; exact ⟨rfl, rfl⟩) htrimmed.full,
    and_iff_left fun _ i hmeets => hmem hmeets]
  constructor
  · intro hpair i hi hlow hhigh
    have hfi := (hiff i (by omega)).1.mpr hlow
    have hie := (hiff (i + 256) hi).2.mpr hhigh
    split_ifs with hsum
    · exact (hpair i hfi hie).1 ((htrimmed.lt_iff hheights hend hfi hie).mpr hsum)
    · exact (hpair i hfi hie).2
        (Nat.not_lt.mp fun hlt => hsum ((htrimmed.lt_iff hheights hend hfi hie).mp hlt))
  · intro htold i hfi hie
    have hpair := htold i (by omega) ((hiff i (by omega)).1.mp hfi) ((hiff _ (by omega)).2.mp hie)
    refine ⟨fun hlt => ?_, fun hge => ?_⟩
    · rwa [if_pos ((htrimmed.lt_iff hheights hend hfi hie).mp hlt)] at hpair
    · rwa [if_neg fun hsum => absurd ((htrimmed.lt_iff hheights hend hfi hie).mpr hsum)
        (Nat.not_lt.mpr hge)] at hpair

omit hscroll in
/-- **The range at the end** is right exactly if the rows that are counted come up to the viewport,
and none of them that meets it is one cap above one that does not. -/
theorem pinnedRange_right_iff :
    RangeRight heights scrollTop viewport (pinnedStart heights viewport, heights.length - 1)
        (pinnedRange heights viewport)
      ↔ (seenCount heights scrollTop viewport ≤ maxWindowTurns →
          ∀ i, Meets heights scrollTop viewport i →
            (heights.drop (i + 2)).sum < (windowMarginScreens + 1) * viewport)
        ∧ ∀ i, i + 256 < heights.length →
          (heights.drop (i + 2)).sum < (windowMarginScreens + 1) * viewport →
          Meets heights scrollTop viewport i → Meets heights scrollTop viewport (i + 256) := by
  have hlength := List.length_pos_of_ne_nil hne
  have hiff := @pinnedStart_le_iff heights viewport hheights hviewport hne
  have hstart : pinnedStart heights viewport ≤ heights.length - 1 := by
    rw [hiff (by omega), List.drop_eq_nil_of_le (by omega)]
    unfold windowMarginScreens
    rw [List.sum_nil]
    linarith
  have hrange : pinnedRange heights viewport
      = ⟨trimStart heights.length (pinnedStart heights viewport), (heights.length - 1 : ℕ)⟩ := by
    unfold pinnedRange
    rw [if_neg fun hzero => hne (List.length_eq_zero_iff.mp hzero), Int.natCast_pred_of_pos hlength]
  have htrim := trimStart_eq heights.length (pinnedStart heights viewport)
  rw [hrange]
  generalize trimStart heights.length (pinnedStart heights viewport) = f at htrim ⊢
  rw [rangeRight_iff hheights (by split_ifs at htrim <;> omega) (by split_ifs at htrim <;> omega)
    le_rfl (by omega) (by split_ifs at htrim <;> omega)
    (fun hall => ⟨by rw [htrim, if_neg (by omega)], rfl⟩)
    (fun hfull => by rw [htrim, if_pos (by omega)]; omega), and_comm]
  refine and_congr (imp_congr_right fun _ => forall₂_congr fun i hmeets => ?_)
    (forall_congr' fun i => ?_)
  · have hi := hmeets.1
    rw [hiff hi]
    exact and_iff_left (by omega)
  · constructor
    · intro hpair hi hsum
      have hfi := (hiff (by omega)).mpr hsum
      exact (hpair hfi (by omega)).1 (by split_ifs at htrim <;> omega)
    · intro htold hfi hie
      refine ⟨fun _ => htold (by omega) ((hiff (by omega)).mp hfi), fun hge => ?_⟩
      split_ifs at htrim <;> omega

end Rows

/-- **The window is right exactly where its condition is met**, for rows of any heights. -/
theorem ranges_right_iff {heights : List ℚ} {scrollTop viewport : ℚ}
    (hheights : ∀ height ∈ heights, 0 ≤ height) (hviewport : 0 < viewport)
    (hscroll : InScrollRange heights scrollTop viewport) :
    RangesRight heights scrollTop viewport ↔ Told heights scrollTop viewport := by
  unfold RangesRight
  by_cases hne : heights = []
  · subst hne
    refine ⟨fun h => ?_, fun h => absurd rfl h.ne_nil⟩
    have hnonempty : (0 : ℤ) ≤ -1 := h.1.nonempty
    exact absurd hnonempty (by decide)
  · rw [computeTargetRange_right_iff hheights hviewport hscroll hne,
      pinnedRange_right_iff hheights hviewport hne]
    exact ⟨fun ⟨hpair, hpinned, hpinnedPair⟩ => ⟨hne, hpair, hpinned, hpinnedPair⟩,
      fun h => ⟨h.pair, h.pinned, h.pinnedPair⟩⟩

/-- Three rows, all of them seen. -/
theorem ranges_right_iff_threeRows :
    RangesRight [40, 40, 40] 0 800 ↔ Told [40, 40, 40] 0 800 :=
  ranges_right_iff (by decide) (by decide) ⟨le_rfl, .inl rfl⟩

/-- Three hundred folded rows. -/
def foldedRows : List ℚ := List.replicate 300 40

theorem edge_foldedRows {k : ℕ} (hk : k ≤ 300) : edge foldedRows k = k * 40 := by
  unfold edge foldedRows
  rw [List.take_replicate, List.sum_replicate, Nat.min_eq_left hk, nsmul_eq_mul]

/-- **At the top of the chat the first rows are taken away**: in a window that shows two hundred of
three hundred rows, the first row goes and the last stays. -/
theorem not_rangesRight_foldedRows : (∀ height ∈ foldedRows, 0 ≤ height)
    ∧ InScrollRange foldedRows 0 8000 ∧ ¬ RangesRight foldedRows 0 8000 := by
  have hheights : ∀ height ∈ foldedRows, (0 : ℚ) ≤ height := fun height hmem => by
    rw [List.eq_of_mem_replicate hmem]
    decide
  have hscroll : InScrollRange foldedRows 0 8000 := ⟨le_rfl, .inl rfl⟩
  have hlength : foldedRows.length = 300 := List.length_replicate
  have hne : foldedRows ≠ [] := fun hnil => by
    rw [hnil] at hlength
    cases hlength
  have hlow : lowBound 0 8000 = 0 := by
    unfold lowBound windowMarginScreens
    norm_num
  have hhigh : highBound 0 8000 = 24000 := by
    unfold highBound windowMarginScreens
    norm_num
  have hfirst : bottom foldedRows 0 = 40 := by
    rw [bottom_eq (by omega), edge_foldedRows (by decide)]
    norm_num
  have hlast : bottom foldedRows 256 = 10280 := by
    rw [bottom_eq (by omega), edge_foldedRows (by decide)]
    norm_num
  have hstart : offset foldedRows 256 = 10240 := by
    rw [offset_eq (by omega), edge_foldedRows (by decide)]
    norm_num
  refine ⟨hheights, hscroll, fun h => ?_⟩
  have hpair := (computeTargetRange_right_iff hheights (by decide) hscroll hne).mp h.1 0 (by omega)
    (by rw [hlow, hfirst]; norm_num) (by rw [Nat.zero_add, hstart, hhigh]; norm_num)
  rw [Nat.zero_add, hfirst, hlast, hlow, hhigh, if_pos (by norm_num)] at hpair
  have hmeets : Meets foldedRows 0 8000 0 := by
    refine ⟨by omega, ?_, by rw [hfirst]; norm_num⟩
    rw [offset_eq (by omega), edge_zero]
    norm_num
  have hseen := (hpair hmeets).2.1
  rw [hstart] at hseen
  exact absurd hseen (by norm_num)

end TurnWindow
