import CharlieBot.Lib.RangeTable
import CharlieBot.Lib.Utf16
import Mathlib.Order.Monotone.Basic

/-!
# Wide characters in a code block

In a terminal grid a wide character takes two columns, so each is put in a box that is two columns
wide, with the combining marks behind it. The HTML of a code block is cut into tags and text, and
only text is looked at.

The scan goes over UTF-16 units and asks for code points: where the code point is not wide it takes
one unit, and is then inside a pair if the code point was one. That does no harm, since no half of a
pair is wide (`not_wide_low`). **The boxes are what one would draw over the code points of each
text**: each begins with a wide one and has the marks behind it, and every wide code point is in one
(`wrapWideChars_boxes`).
-/

namespace WideChars

open Utf16

/-! ## Which code points are wide -/

def wc2chRanges : List (ℕ × ℕ) :=
  [(0x1100, 0x115F), (0x231A, 0x231B), (0x2329, 0x2329), (0x232A, 0x232A), (0x23E9, 0x23EC),
    (0x23F0, 0x23F0), (0x23F3, 0x23F3), (0x25FD, 0x25FE), (0x2614, 0x2615), (0x2630, 0x2637),
    (0x2648, 0x2653), (0x267F, 0x267F), (0x268A, 0x268F), (0x2693, 0x2693), (0x26A1, 0x26A1),
    (0x26AA, 0x26AB), (0x26BD, 0x26BE), (0x26C4, 0x26C5), (0x26CE, 0x26CE), (0x26D4, 0x26D4),
    (0x26EA, 0x26EA), (0x26F2, 0x26F3), (0x26F5, 0x26F5), (0x26FA, 0x26FA), (0x26FD, 0x26FD),
    (0x2705, 0x2705), (0x270A, 0x270B), (0x2728, 0x2728), (0x274C, 0x274C), (0x274E, 0x274E),
    (0x2753, 0x2755), (0x2757, 0x2757), (0x2795, 0x2797), (0x27B0, 0x27B0), (0x27BF, 0x27BF),
    (0x2B1B, 0x2B1C), (0x2B50, 0x2B50), (0x2B55, 0x2B55), (0x2E80, 0x2E99), (0x2E9B, 0x2EF3),
    (0x2F00, 0x2FD5), (0x2FF0, 0x2FFF), (0x3000, 0x3000), (0x3001, 0x3003), (0x3004, 0x3004),
    (0x3005, 0x3005), (0x3006, 0x3006), (0x3007, 0x3007), (0x3008, 0x3008), (0x3009, 0x3009),
    (0x300A, 0x300A), (0x300B, 0x300B), (0x300C, 0x300C), (0x300D, 0x300D), (0x300E, 0x300E),
    (0x300F, 0x300F), (0x3010, 0x3010), (0x3011, 0x3011), (0x3012, 0x3013), (0x3014, 0x3014),
    (0x3015, 0x3015), (0x3016, 0x3016), (0x3017, 0x3017), (0x3018, 0x3018), (0x3019, 0x3019),
    (0x301A, 0x301A), (0x301B, 0x301B), (0x301C, 0x301C), (0x301D, 0x301D), (0x301E, 0x301F),
    (0x3020, 0x3020), (0x3021, 0x3029), (0x302A, 0x302D), (0x302E, 0x302F), (0x3030, 0x3030),
    (0x3031, 0x3035), (0x3036, 0x3037), (0x3038, 0x303A), (0x303B, 0x303B), (0x303C, 0x303C),
    (0x303D, 0x303D), (0x303E, 0x303E), (0x3041, 0x3096), (0x3099, 0x309A), (0x309B, 0x309C),
    (0x309D, 0x309E), (0x309F, 0x309F), (0x30A0, 0x30A0), (0x30A1, 0x30FA), (0x30FB, 0x30FB),
    (0x30FC, 0x30FE), (0x30FF, 0x30FF), (0x3105, 0x312F), (0x3131, 0x318E), (0x3190, 0x3191),
    (0x3192, 0x3195), (0x3196, 0x319F), (0x31A0, 0x31BF), (0x31C0, 0x31E5), (0x31EF, 0x31EF),
    (0x31F0, 0x31FF), (0x3200, 0x321E), (0x3220, 0x3229), (0x322A, 0x3247), (0x3250, 0x3250),
    (0x3251, 0x325F), (0x3260, 0x327F), (0x3280, 0x3289), (0x328A, 0x32B0), (0x32B1, 0x32BF),
    (0x32C0, 0x32FF), (0x3300, 0x33FF), (0x3400, 0x4DBF), (0x4DC0, 0x4DFF), (0x4E00, 0x9FFF),
    (0xA000, 0xA014), (0xA015, 0xA015), (0xA016, 0xA48C), (0xA490, 0xA4C6), (0xA960, 0xA97C),
    (0xAC00, 0xD7A3), (0xF900, 0xFA6D), (0xFA6E, 0xFA6F), (0xFA70, 0xFAD9), (0xFADA, 0xFAFF),
    (0xFE10, 0xFE16), (0xFE17, 0xFE17), (0xFE18, 0xFE18), (0xFE19, 0xFE19), (0xFE30, 0xFE30),
    (0xFE31, 0xFE32), (0xFE33, 0xFE34), (0xFE35, 0xFE35), (0xFE36, 0xFE36), (0xFE37, 0xFE37),
    (0xFE38, 0xFE38), (0xFE39, 0xFE39), (0xFE3A, 0xFE3A), (0xFE3B, 0xFE3B), (0xFE3C, 0xFE3C),
    (0xFE3D, 0xFE3D), (0xFE3E, 0xFE3E), (0xFE3F, 0xFE3F), (0xFE40, 0xFE40), (0xFE41, 0xFE41),
    (0xFE42, 0xFE42), (0xFE43, 0xFE43), (0xFE44, 0xFE44), (0xFE45, 0xFE46), (0xFE47, 0xFE47),
    (0xFE48, 0xFE48), (0xFE49, 0xFE4C), (0xFE4D, 0xFE4F), (0xFE50, 0xFE52), (0xFE54, 0xFE57),
    (0xFE58, 0xFE58), (0xFE59, 0xFE59), (0xFE5A, 0xFE5A), (0xFE5B, 0xFE5B), (0xFE5C, 0xFE5C),
    (0xFE5D, 0xFE5D), (0xFE5E, 0xFE5E), (0xFE5F, 0xFE61), (0xFE62, 0xFE62), (0xFE63, 0xFE63),
    (0xFE64, 0xFE66), (0xFE68, 0xFE68), (0xFE69, 0xFE69), (0xFE6A, 0xFE6B), (0xFF01, 0xFF03),
    (0xFF04, 0xFF04), (0xFF05, 0xFF07), (0xFF08, 0xFF08), (0xFF09, 0xFF09), (0xFF0A, 0xFF0A),
    (0xFF0B, 0xFF0B), (0xFF0C, 0xFF0C), (0xFF0D, 0xFF0D), (0xFF0E, 0xFF0F), (0xFF10, 0xFF19),
    (0xFF1A, 0xFF1B), (0xFF1C, 0xFF1E), (0xFF1F, 0xFF20), (0xFF21, 0xFF3A), (0xFF3B, 0xFF3B),
    (0xFF3C, 0xFF3C), (0xFF3D, 0xFF3D), (0xFF3E, 0xFF3E), (0xFF3F, 0xFF3F), (0xFF40, 0xFF40),
    (0xFF41, 0xFF5A), (0xFF5B, 0xFF5B), (0xFF5C, 0xFF5C), (0xFF5D, 0xFF5D), (0xFF5E, 0xFF5E),
    (0xFF5F, 0xFF5F), (0xFF60, 0xFF60), (0xFFE0, 0xFFE1), (0xFFE2, 0xFFE2), (0xFFE3, 0xFFE3),
    (0xFFE4, 0xFFE4), (0xFFE5, 0xFFE6), (0x16FE0, 0x16FE1), (0x16FE2, 0x16FE2), (0x16FE3, 0x16FE3),
    (0x16FE4, 0x16FE4), (0x16FF0, 0x16FF1), (0x17000, 0x187F7), (0x18800, 0x18AFF),
    (0x18B00, 0x18CD5), (0x18CFF, 0x18CFF), (0x18D00, 0x18D08), (0x1AFF0, 0x1AFF3),
    (0x1AFF5, 0x1AFFB), (0x1AFFD, 0x1AFFE), (0x1B000, 0x1B0FF), (0x1B100, 0x1B122),
    (0x1B132, 0x1B132), (0x1B150, 0x1B152), (0x1B155, 0x1B155), (0x1B164, 0x1B167),
    (0x1B170, 0x1B2FB), (0x1D300, 0x1D356), (0x1D360, 0x1D376), (0x1F004, 0x1F004),
    (0x1F0CF, 0x1F0CF), (0x1F18E, 0x1F18E), (0x1F191, 0x1F19A), (0x1F200, 0x1F202),
    (0x1F210, 0x1F23B), (0x1F240, 0x1F248), (0x1F250, 0x1F251), (0x1F260, 0x1F265),
    (0x1F300, 0x1F320), (0x1F32D, 0x1F335), (0x1F337, 0x1F37C), (0x1F37E, 0x1F393),
    (0x1F3A0, 0x1F3CA), (0x1F3CF, 0x1F3D3), (0x1F3E0, 0x1F3F0), (0x1F3F4, 0x1F3F4),
    (0x1F3F8, 0x1F3FA), (0x1F3FB, 0x1F3FF), (0x1F400, 0x1F43E), (0x1F440, 0x1F440),
    (0x1F442, 0x1F4FC), (0x1F4FF, 0x1F53D), (0x1F54B, 0x1F54E), (0x1F550, 0x1F567),
    (0x1F57A, 0x1F57A), (0x1F595, 0x1F596), (0x1F5A4, 0x1F5A4), (0x1F5FB, 0x1F5FF),
    (0x1F600, 0x1F64F), (0x1F680, 0x1F6C5), (0x1F6CC, 0x1F6CC), (0x1F6D0, 0x1F6D2),
    (0x1F6D5, 0x1F6D7), (0x1F6DC, 0x1F6DF), (0x1F6EB, 0x1F6EC), (0x1F6F4, 0x1F6FC),
    (0x1F7E0, 0x1F7EB), (0x1F7F0, 0x1F7F0), (0x1F90C, 0x1F93A), (0x1F93C, 0x1F945),
    (0x1F947, 0x1F9FF), (0x1FA70, 0x1FA7C), (0x1FA80, 0x1FA89), (0x1FA8F, 0x1FAC6),
    (0x1FACE, 0x1FADC), (0x1FADF, 0x1FAE9), (0x1FAF0, 0x1FAF8), (0x20000, 0x2A6DF),
    (0x2A6E0, 0x2A6FF), (0x2A700, 0x2B739), (0x2B73A, 0x2B73F), (0x2B740, 0x2B81D),
    (0x2B81E, 0x2B81F), (0x2B820, 0x2CEA1), (0x2CEA2, 0x2CEAF), (0x2CEB0, 0x2EBE0),
    (0x2EBE1, 0x2EBEF), (0x2EBF0, 0x2EE5D), (0x2EE5E, 0x2F7FF), (0x2F800, 0x2FA1D),
    (0x2FA1E, 0x2FA1F), (0x2FA20, 0x2FFFD), (0x30000, 0x3134A), (0x3134B, 0x3134F),
    (0x31350, 0x323AF), (0x323B0, 0x3FFFD)]

/-- **`wc2chIsWide`**. -/
def wc2chIsWide (cp : ℕ) : Bool := RangeTable.search wc2chRanges cp 0 wc2chRanges.length

theorem isTable_wc2chRanges : RangeTable.IsTable wc2chRanges :=
  RangeTable.IsTable.of_isChain (by decide +kernel)

theorem wc2chIsWide_iff {cp : ℕ} :
    wc2chIsWide cp = true ↔ ∃ r ∈ wc2chRanges, r.1 ≤ cp ∧ cp ≤ r.2 :=
  RangeTable.search_eq_true_iff isTable_wc2chRanges

theorem not_wide_low {v : UInt16} (h : isLow v = true) : wc2chIsWide v.toNat = false := by
  have hranges : ∀ r ∈ wc2chRanges, r.2 < 0xD800 ∨ 0xDFFF < r.1 := by decide +kernel
  simp only [isLow, Bool.and_eq_true, decide_eq_true_eq] at h
  rw [← Bool.not_eq_true, wc2chIsWide_iff]
  rintro ⟨r, hr, hbounds⟩
  have := hranges r hr
  omega

/-! ## The scan of a text -/

/-- What the scan puts out: units as they are, or in a box. -/
inductive Piece where
  | copied (units : List UInt16)
  | boxed (units : List UInt16)
deriving DecidableEq

def Piece.units : Piece → List UInt16
  | copied units | boxed units => units

/-- Text of the source, as units. -/
def unitsOf (s : String) : List UInt16 := s.toList.map fun c => UInt16.ofNat c.toNat

/-- What is pushed to the output. -/
def Piece.html : Piece → List UInt16
  | copied text => text
  | boxed text => unitsOf "<span class=\"wc2ch\">" ++ text ++ unitsOf "</span>"

section Scan

variable (isMark : ℕ → Bool)

/-- Whether a code point goes into the box in front of it: U+FE0F, and what `WC2CH_MARK_RE` finds. -/
def joins (cp : ℕ) : Bool := cp = 0xFE0F || isMark cp

/-- The inner loop of `wc2chWrapText`: how many units join. -/
def tailLength : List UInt16 → ℕ
  | [] => 0
  | u :: rest =>
    let tail := codePointAt (u :: rest)
    if joins isMark tail then width tail + tailLength ((u :: rest).drop (width tail)) else 0
termination_by text => text.length
decreasing_by
  rw [List.length_drop]
  exact Nat.sub_lt (Nat.succ_pos _) (width_pos _)

/-- **`wc2chWrapText`**. -/
def wrapText : List UInt16 → List Piece
  | [] => []
  | u :: rest =>
    let cp := codePointAt (u :: rest)
    if wc2chIsWide cp then
      let stop := width cp + tailLength isMark ((u :: rest).drop (width cp))
      .boxed ((u :: rest).take stop) :: wrapText ((u :: rest).drop stop)
    else .copied [u] :: wrapText rest
termination_by text => text.length
decreasing_by
  · rw [List.length_drop]
    exact Nat.sub_lt (Nat.succ_pos _) (Nat.add_pos_left (width_pos _) _)
  · exact Nat.lt_succ_self _

theorem wrapText_wide {u : UInt16} {rest : List UInt16}
    (h : wc2chIsWide (codePointAt (u :: rest)) = true) {stop : ℕ}
    (hstop : stop = width (codePointAt (u :: rest))
      + tailLength isMark ((u :: rest).drop (width (codePointAt (u :: rest))))) :
    wrapText isMark (u :: rest)
      = .boxed ((u :: rest).take stop) :: wrapText isMark ((u :: rest).drop stop) := by
  rw [wrapText, if_pos h, hstop]

theorem wrapText_narrow {u : UInt16} {rest : List UInt16}
    (h : wc2chIsWide (codePointAt (u :: rest)) = false) :
    wrapText isMark (u :: rest) = .copied [u] :: wrapText isMark rest := by
  rw [wrapText, h, if_neg Bool.false_ne_true]

/-! ## Boxes over code points -/

/-- A code point that is not wide, or one that is with the marks behind it. -/
inductive Run where
  | plain (point : List UInt16)
  | box (point : List UInt16) (marks : List (List UInt16))

def Run.points : Run → List (List UInt16)
  | plain point => [point]
  | box point marks => point :: marks

def Run.pieces : Run → List Piece
  | plain point => point.map fun u => .copied [u]
  | box point marks => [.boxed (point ++ marks.flatten)]

/-- Whether a code point, by its units, goes into the box in front of it. -/
def joinsPoint (point : List UInt16) : Bool := joins isMark (codePointAt point)

/-- **The runs of code points**: this is what the boxes are for. -/
def runsOf : List (List UInt16) → List Run
  | [] => []
  | point :: points =>
    if wc2chIsWide (codePointAt point) then
      .box point (points.takeWhile (joinsPoint isMark))
        :: runsOf (points.dropWhile (joinsPoint isMark))
    else .plain point :: runsOf points
termination_by points => points.length
decreasing_by
  · exact Nat.lt_succ_of_le (List.dropWhile_sublist _).length_le
  · exact Nat.lt_succ_self _

theorem tailLength_spec (text : List UInt16) :
    ((codePoints text).takeWhile (joinsPoint isMark)).flatten = text.take (tailLength isMark text)
      ∧ (codePoints text).dropWhile (joinsPoint isMark)
        = codePoints (text.drop (tailLength isMark text)) := by
  fun_induction tailLength isMark text with
  | case1 => exact ⟨rfl, rfl⟩
  | case2 u rest tail hjoins ih =>
    have hhead : joinsPoint isMark ((u :: rest).take (width tail)) = true := by
      rw [joinsPoint, codePointAt_take]
      exact hjoins
    rw [codePoints_cons, List.takeWhile_cons_of_pos hhead, List.dropWhile_cons_of_pos hhead,
      List.flatten_cons, ih.1, ih.2, List.drop_drop]
    exact ⟨List.take_add.symm, rfl⟩
  | case3 u rest tail hjoins =>
    have hhead : ¬ joinsPoint isMark ((u :: rest).take (width tail)) = true := by
      rw [joinsPoint, codePointAt_take]
      exact hjoins
    rw [codePoints_cons, List.takeWhile_cons_of_neg hhead, List.dropWhile_cons_of_neg hhead,
      ← codePoints_cons]
    exact ⟨rfl, rfl⟩

theorem wrapText_eq (text : List UInt16) :
    wrapText isMark text = (runsOf isMark (codePoints text)).flatMap Run.pieces := by
  induction hn : text.length using Nat.strongRecOn generalizing text with
  | ind n ih =>
    cases text with
    | nil => rw [wrapText, codePoints, runsOf, List.flatMap_nil]
    | cons u rest =>
      have hpos := width_pos (codePointAt (u :: rest))
      rw [codePoints_cons, runsOf, codePointAt_take]
      by_cases hwide : wc2chIsWide (codePointAt (u :: rest)) = true
      · obtain ⟨htake, hdrop⟩ :=
          tailLength_spec isMark ((u :: rest).drop (width (codePointAt (u :: rest))))
        rw [wrapText_wide isMark hwide rfl, if_pos hwide, List.flatMap_cons, Run.pieces, htake,
          hdrop, List.drop_drop, List.take_add, ih _ ?_ _ rfl]
        · rfl
        · rw [← hn, List.length_drop]
          exact Nat.sub_lt (Nat.succ_pos _) (Nat.add_pos_left hpos _)
      · have hnarrow := eq_false_of_ne_true hwide
        have hlt : rest.length < n := by
          rw [← hn]
          exact Nat.lt_succ_self _
        rw [wrapText_narrow isMark hnarrow, if_neg hwide, List.flatMap_cons, Run.pieces]
        have hwidth : width (codePointAt (u :: rest)) = 1 ∨ width (codePointAt (u :: rest)) = 2 := by
          rw [width]
          split
          · exact .inr rfl
          · exact .inl rfl
        rcases hwidth with hone | htwo
        · rw [hone, ih _ hlt _ rfl]
          rfl
        · -- the second unit of a pair is looked at by itself
          obtain ⟨v, more, rfl, hlow, hcp⟩ := second_of_width_two htwo
          have hnarrow' : wc2chIsWide (codePointAt (v :: more)) = false := by
            rw [hcp]
            exact not_wide_low hlow
          rw [htwo, wrapText_narrow isMark hnarrow',
            ih _ (Nat.lt_trans (Nat.lt_succ_self _) hlt) _ rfl]
          rfl

/-- Where a run begins among the code points. -/
def start (runs : List Run) (j : ℕ) : ℕ := ((runs.take j).flatMap Run.points).length

/-- **The boxes of some code points**: the runs are all of them, in their order; what stands by
itself is not wide; a box begins with a wide code point, has marks behind it, and no mark follows
it; and every wide code point is in one box. -/
structure IsBoxing (points : List (List UInt16)) (runs : List Run) : Prop where
  all : runs.flatMap Run.points = points
  plain : ∀ c, .plain c ∈ runs → wc2chIsWide (codePointAt c) = false
  wide : ∀ c marks, .box c marks ∈ runs → wc2chIsWide (codePointAt c) = true
    ∧ ∀ m ∈ marks, joinsPoint isMark m = true
  maximal : ∀ before c marks after, runs = before ++ .box c marks :: after →
    ∀ d ∈ (after.flatMap Run.points).head?, joinsPoint isMark d = false
  covered : ∀ (k : ℕ) (c : List UInt16), points[k]? = some c → wc2chIsWide (codePointAt c) = true →
    ∃! j : ℕ, ∃ b marks, runs[j]? = some (.box b marks)
      ∧ start runs j ≤ k ∧ k < start runs j + (Run.box b marks).points.length

theorem start_succ {runs : List Run} {j : ℕ} {run : Run} (h : runs[j]? = some run) :
    start runs (j + 1) = start runs j + run.points.length := by
  obtain ⟨hj, rfl⟩ := List.getElem?_eq_some_iff.mp h
  rw [start, start, List.take_succ_eq_append_getElem hj, List.flatMap_append, List.length_append,
    List.flatMap_singleton]

theorem start_mono (runs : List Run) : Monotone (start runs) := by
  refine monotone_nat_of_le_succ fun j => ?_
  cases h : runs[j]? with
  | some run =>
    rw [start_succ h]
    exact Nat.le_add_right _ _
  | none =>
    have hle := List.getElem?_eq_none_iff.mp h
    rw [start, start, List.take_of_length_le hle, List.take_of_length_le (hle.trans (Nat.le_succ j))]

theorem exists_run {runs : List Run} {k : ℕ} {c : List UInt16}
    (h : (runs.flatMap Run.points)[k]? = some c) : ∃ j run, runs[j]? = some run
      ∧ start runs j ≤ k ∧ k < start runs j + run.points.length
      ∧ run.points[k - start runs j]? = some c := by
  induction runs generalizing k with
  | nil => exact nomatch h
  | cons run runs ih =>
    rw [List.flatMap_cons] at h
    by_cases hk : k < run.points.length
    · rw [List.getElem?_append_left hk] at h
      exact ⟨0, run, rfl, Nat.zero_le k, by rwa [start, List.take_zero, List.flatMap_nil,
        List.length_nil, Nat.zero_add], h⟩
    · have hle := Nat.le_of_not_lt hk
      rw [List.getElem?_append_right hle] at h
      obtain ⟨j, r, hr, hlo, hhi, hc⟩ := ih h
      have hstart : start (run :: runs) (j + 1) = run.points.length + start runs j := by
        rw [start, List.take_succ_cons, List.flatMap_cons, List.length_append, start]
      refine ⟨j + 1, r, hr, ?_, ?_, ?_⟩
      · rw [hstart]
        omega
      · rw [hstart]
        omega
      · rwa [hstart, ← Nat.sub_sub]

theorem flatMap_runsOf (points : List (List UInt16)) :
    (runsOf isMark points).flatMap Run.points = points := by
  fun_induction runsOf isMark points with
  | case1 => rfl
  | case2 point points hwide ih =>
    rw [List.flatMap_cons, Run.points, ih, List.cons_append, List.takeWhile_append_dropWhile]
  | case3 point points hwide ih => rw [List.flatMap_cons, Run.points, ih, List.singleton_append]

theorem plain_runsOf (points : List (List UInt16)) {c : List UInt16}
    (h : .plain c ∈ runsOf isMark points) : wc2chIsWide (codePointAt c) = false := by
  fun_induction runsOf isMark points with
  | case1 => exact absurd h List.not_mem_nil
  | case2 point points hwide ih => exact ih ((List.mem_cons.mp h).resolve_left Run.noConfusion)
  | case3 point points hwide ih =>
    rcases List.mem_cons.mp h with heq | h
    · cases heq
      exact eq_false_of_ne_true hwide
    · exact ih h

theorem box_runsOf (points : List (List UInt16)) {c : List UInt16} {marks : List (List UInt16)}
    (h : .box c marks ∈ runsOf isMark points) : wc2chIsWide (codePointAt c) = true
      ∧ ∀ m ∈ marks, joinsPoint isMark m = true := by
  fun_induction runsOf isMark points with
  | case1 => exact absurd h List.not_mem_nil
  | case2 point points hwide ih =>
    rcases List.mem_cons.mp h with heq | h
    · cases heq
      exact ⟨hwide, fun m hm => List.all_eq_true.mp List.all_takeWhile m hm⟩
    · exact ih h
  | case3 point points hwide ih => exact ih ((List.mem_cons.mp h).resolve_left Run.noConfusion)

theorem maximal_runsOf (points : List (List UInt16)) {before after : List Run} {c : List UInt16}
    {marks : List (List UInt16)} (h : runsOf isMark points = before ++ .box c marks :: after) :
    ∀ d ∈ (after.flatMap Run.points).head?, joinsPoint isMark d = false := by
  fun_induction runsOf isMark points generalizing before with
  | case1 =>
    exact absurd h.symm (List.append_ne_nil_of_right_ne_nil before (List.cons_ne_nil _ _))
  | case2 point points hwide ih =>
    cases before with
    | nil =>
      obtain ⟨-, rfl⟩ := List.cons.inj h
      rw [flatMap_runsOf]
      intro d hd
      have hnot := List.head?_dropWhile_not (joinsPoint isMark) points
      rwa [Option.mem_def.mp hd] at hnot
    | cons r before => exact ih (List.cons.inj h).2
  | case3 point points hwide ih =>
    cases before with
    | nil => exact nomatch (List.cons.inj h).1
    | cons r before => exact ih (List.cons.inj h).2

theorem isBoxing_runsOf (points : List (List UInt16)) :
    IsBoxing isMark points (runsOf isMark points) where
  all := flatMap_runsOf isMark points
  plain _ h := plain_runsOf isMark points h
  wide _ _ h := box_runsOf isMark points h
  maximal _ _ _ _ h := maximal_runsOf isMark points h
  covered k c hk hwide := by
    rw [← flatMap_runsOf isMark points] at hk
    obtain ⟨j, run, hrun, hlo, hhi, hc⟩ := exists_run hk
    -- the run is no code point by itself, since that would not be wide
    have hbox : ∃ b marks, run = .box b marks := by
      cases run with
      | box b marks => exact ⟨b, marks, rfl⟩
      | plain point =>
        have hzero : k - start (runsOf isMark points) j = 0 := by
          have hone : (Run.plain point).points.length = 1 := rfl
          omega
        rw [hzero] at hc
        obtain rfl := Option.some.inj hc
        have hnarrow := plain_runsOf isMark points (List.mem_of_getElem? hrun)
        exact absurd (hnarrow.symm.trans hwide) Bool.false_ne_true
    obtain ⟨b, marks, rfl⟩ := hbox
    refine ⟨j, ⟨b, marks, hrun, hlo, hhi⟩, ?_⟩
    rintro l ⟨b', marks', hrun', hlo', hhi'⟩
    rcases Nat.lt_trichotomy l j with hlt | rfl | hlt
    · have hmono := start_mono (runsOf isMark points) (Nat.succ_le_of_lt hlt)
      have hnext := start_succ hrun'
      have hle : start (runsOf isMark points) (l + 1) ≤ start (runsOf isMark points) j := hmono
      omega
    · rfl
    · have hmono := start_mono (runsOf isMark points) (Nat.succ_le_of_lt hlt)
      have hnext := start_succ hrun
      have hle : start (runsOf isMark points) (j + 1) ≤ start (runsOf isMark points) l := hmono
      omega

end Scan

/-! ## Tags and text -/

/-- `<`. -/
def lessThan : UInt16 := 0x3C

/-- `>`. -/
def greaterThan : UInt16 := 0x3E

/-- The rest of a tag, behind its `<`, and what follows it. -/
def cutTag : List UInt16 → Option (List UInt16 × List UInt16)
  | [] => none
  | u :: rest =>
    if u = greaterThan then some ([], rest) else (cutTag rest).map fun (body, after) => (u :: body, after)

theorem length_cutTag {html body after : List UInt16} (h : cutTag html = some (body, after)) :
    after.length < html.length := by
  induction html generalizing body with
  | nil => exact nomatch h
  | cons u rest ih =>
    rw [cutTag] at h
    split at h
    · cases h
      exact Nat.lt_succ_self _
    · obtain ⟨⟨body', after'⟩, hcut, h⟩ := Option.map_eq_some_iff.mp h
      cases h
      exact Nat.lt_succ_of_lt (ih hcut)

/-- `html.split(WC2CH_TAG_SPLIT_RE)`, behind some text: text and tags in turn. -/
def splitTags (text : List UInt16) : List UInt16 → List (List UInt16)
  | [] => [text]
  | u :: rest =>
    if u = lessThan then
      match _h : cutTag rest with
      | some (body, after) => text :: (lessThan :: body ++ [greaterThan]) :: splitTags [] after
      | none => splitTags (text ++ [u]) rest
    else splitTags (text ++ [u]) rest
termination_by html => html.length
decreasing_by
  · exact Nat.lt_succ_of_lt (length_cutTag _h)
  · exact Nat.lt_succ_self _
  · exact Nat.lt_succ_self _

/-- The loop of `wrapWideChars`: the parts with an odd index are tags. -/
def wrapParts (isMark : ℕ → Bool) : Bool → List (List UInt16) → List Piece
  | _, [] => []
  | odd, part :: parts =>
    (if odd then [.copied part] else wrapText isMark part) ++ wrapParts isMark (!odd) parts

/-- **`wrapWideChars`**. -/
def wrapWideChars (isMark : ℕ → Bool) (html : List UInt16) : List UInt16 :=
  (wrapParts isMark false (splitTags [] html)).flatMap Piece.html

/-- A tag: there is no `>` in it but the last. -/
structure Tag where
  body : List UInt16
  closed : greaterThan ∉ body

/-- Text that is escaped: there is no `<` in it. -/
structure Escaped where
  units : List UInt16
  escaped : lessThan ∉ units

/-- **The HTML of a code block**: text, and tags with the text behind them. -/
structure CodeHtml where
  head : Escaped
  rest : List (Tag × Escaped)

def Tag.html (tag : Tag) : List UInt16 := lessThan :: tag.body ++ [greaterThan]

def CodeHtml.html (code : CodeHtml) : List UInt16 :=
  code.head.units ++ code.rest.flatMap fun part => part.1.html ++ part.2.units

def CodeHtml.texts (code : CodeHtml) : List (List UInt16) :=
  code.head.units :: code.rest.map fun part => part.2.units

/-- The tags as they are, and each text scanned. -/
def CodeHtml.wrapped (isMark : ℕ → Bool) (code : CodeHtml) : List Piece :=
  wrapText isMark code.head.units
    ++ code.rest.flatMap fun part => .copied part.1.html :: wrapText isMark part.2.units

theorem cutTag_append {body : List UInt16} (h : greaterThan ∉ body) (after : List UInt16) :
    cutTag (body ++ greaterThan :: after) = some (body, after) := by
  induction body with
  | nil => rfl
  | cons u body ih =>
    rw [List.cons_append, cutTag, if_neg (Ne.symm (List.ne_of_not_mem_cons h)),
      ih (List.not_mem_of_not_mem_cons h)]
    rfl

theorem splitTags_text {text : List UInt16} (h : lessThan ∉ text) (before rest : List UInt16) :
    splitTags before (text ++ rest) = splitTags (before ++ text) rest := by
  induction text generalizing before with
  | nil => rw [List.nil_append, List.append_nil]
  | cons u text ih =>
    rw [List.cons_append, splitTags, if_neg (Ne.symm (List.ne_of_not_mem_cons h)),
      ih (List.not_mem_of_not_mem_cons h), List.append_assoc, List.singleton_append]

theorem splitTags_tag (tag : Tag) (text rest : List UInt16) :
    splitTags text (tag.html ++ rest) = text :: tag.html :: splitTags [] rest := by
  have hcut := cutTag_append tag.closed rest
  show splitTags text (lessThan :: ((tag.body ++ [greaterThan]) ++ rest)) = _
  rw [List.append_assoc, List.singleton_append, splitTags, if_pos rfl]
  split
  · next body after heq =>
    rw [hcut] at heq
    cases heq
    rfl
  · next heq =>
    rw [hcut] at heq
    exact nomatch heq

theorem wrapParts_splitTags (isMark : ℕ → Bool) (head : Escaped) (rest : List (Tag × Escaped)) :
    wrapParts isMark false (splitTags [] (CodeHtml.html ⟨head, rest⟩))
      = CodeHtml.wrapped isMark ⟨head, rest⟩ := by
  rw [CodeHtml.html, splitTags_text head.escaped, List.nil_append, CodeHtml.wrapped]
  induction rest generalizing head with
  | nil =>
    rw [List.flatMap_nil, List.flatMap_nil, splitTags, wrapParts, wrapParts]
    rfl
  | cons part rest ih =>
    obtain ⟨tag, text⟩ := part
    have hrest := ih text
    rw [List.flatMap_cons, List.append_assoc, splitTags_tag, splitTags_text text.escaped,
      List.nil_append, wrapParts, wrapParts]
    show wrapText isMark head.units ++ ([Piece.copied tag.html]
      ++ wrapParts isMark false (splitTags text.units _)) = _
    rw [hrest]
    rfl

theorem flatMap_units_wrapText (isMark : ℕ → Bool) (text : List UInt16) :
    (wrapText isMark text).flatMap Piece.units = text := by
  fun_induction wrapText isMark text with
  | case1 => rfl
  | case2 u rest cp hwide stop ih =>
    rw [List.flatMap_cons, ih]
    exact List.take_append_drop _ _
  | case3 u rest cp hnarrow ih =>
    rw [List.flatMap_cons, ih]
    rfl

theorem flatMap_units_wrapped (isMark : ℕ → Bool) (code : CodeHtml) :
    (code.wrapped isMark).flatMap Piece.units = code.html := by
  rw [CodeHtml.wrapped, CodeHtml.html, List.flatMap_append, flatMap_units_wrapText,
    List.flatMap_assoc]
  congr 1
  refine List.flatMap_congr fun part _ => ?_
  rw [List.flatMap_cons, flatMap_units_wrapText]
  rfl

/-- **Boxing wide characters**: the output is the tags as they are and each text in pieces, which
without the boxes are the HTML; the boxes of each text are drawn over its code points; and what
counts as wide is what a range of the table has. -/
theorem wrapWideChars_boxes (isMark : ℕ → Bool) (code : CodeHtml) :
    wrapWideChars isMark code.html = (code.wrapped isMark).flatMap Piece.html
      ∧ (code.wrapped isMark).flatMap Piece.units = code.html
      ∧ (∀ text ∈ code.texts, ∃ runs, wrapText isMark text = runs.flatMap Run.pieces
        ∧ IsBoxing isMark (codePoints text) runs)
      ∧ ∀ cp, wc2chIsWide cp = true ↔ ∃ r ∈ wc2chRanges, r.1 ≤ cp ∧ cp ≤ r.2 :=
  ⟨congrArg (List.flatMap Piece.html) (wrapParts_splitTags isMark code.head code.rest),
    flatMap_units_wrapped isMark code,
    fun text _ => ⟨runsOf isMark (codePoints text), wrapText_eq isMark text,
      isBoxing_runsOf isMark (codePoints text)⟩, fun _ => wc2chIsWide_iff⟩

end WideChars
