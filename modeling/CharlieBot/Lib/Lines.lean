import Mathlib.Data.List.Basic
import Mathlib.Data.PNat.Defs

/-!
# The lines of a byte file

A text file is a list of bytes, and a line of it ends with a line feed or
with a carriage return and a line feed. A line is a structure whose text
holds neither byte (`TextLine`), so that a list of lines and the bytes it
makes up (`bytesOf`) determine each other, and every way of taking a file
apart is compared with the lines it is made of.

There are three: splitting the translated text (`segments`), scanning for
the raw spans of the lines (`rawSpans`), and walking from the end in
chunks until enough lines are complete (`walkTail`). The first two give
the lines of a file that ends with one (`segments_bytesOf`,
`rawSpans_bytesOf`), and **a walk that succeeds gives the last lines of
it, and where they begin, whatever the chunks cut through**
(`walkTail_eq_some`).
-/

def lineFeed : UInt8 := 10

def carriageReturn : UInt8 := 13

theorem carriageReturn_ne_lineFeed : carriageReturn ≠ lineFeed := by decide

/-- **A line of a text file.** -/
structure TextLine where
  text : List UInt8
  /-- Whether a carriage return precedes the line feed. -/
  crlf : Bool := false
  noLineFeed : lineFeed ∉ text
  noCarriageReturn : carriageReturn ∉ text

namespace TextLine

def terminator (l : TextLine) : List UInt8 :=
  if l.crlf then [carriageReturn, lineFeed] else [lineFeed]

def bytes (l : TextLine) : List UInt8 := l.text ++ l.terminator

/-- The line ended by a line feed alone. -/
def plain (l : TextLine) : TextLine := { l with crlf := false }

theorem length_terminator_pos (l : TextLine) : 0 < l.terminator.length := by
  unfold terminator
  split <;> decide

end TextLine

def bytesOf (ls : List TextLine) : List UInt8 := ls.flatMap TextLine.bytes

@[simp] theorem bytesOf_nil : bytesOf [] = [] := rfl

@[simp] theorem bytesOf_cons (l : TextLine) (ls : List TextLine) :
    bytesOf (l :: ls) = l.bytes ++ bytesOf ls := rfl

@[simp] theorem bytesOf_append (ls ls' : List TextLine) :
    bytesOf (ls ++ ls') = bytesOf ls ++ bytesOf ls' := List.flatMap_append

/-! ## Segments -/

/-- Ends every line with a line feed alone. -/
def translateNewlines : List UInt8 → List UInt8
  | [] => []
  | b :: rest =>
    if b = carriageReturn then
      match rest with
      | c :: rest' =>
        if c = lineFeed then lineFeed :: translateNewlines rest'
        else lineFeed :: translateNewlines (c :: rest')
      | [] => [lineFeed]
    else b :: translateNewlines rest

/-- The lines of a file, and whether it ends with the end of one. -/
def segments (buf : List UInt8) : List (List UInt8) × Bool :=
  if buf.isEmpty then ([], true)
  else
    let text := translateNewlines buf
    let endsWithNewline := text.getLast? == some lineFeed
    let pieces := text.splitOn lineFeed
    (if endsWithNewline then pieces.dropLast else pieces, endsWithNewline)

theorem translateNewlines_append {t : List UInt8} (h : carriageReturn ∉ t)
    (rest : List UInt8) :
    translateNewlines (t ++ rest) = t ++ translateNewlines rest := by
  induction t with
  | nil => rfl
  | cons b t ih =>
    rw [List.mem_cons, not_or] at h
    rw [List.cons_append, List.cons_append]
    conv_lhs => unfold translateNewlines
    rw [if_neg (Ne.symm h.1), ih h.2]

theorem translateNewlines_terminator (l : TextLine) (rest : List UInt8) :
    translateNewlines (l.terminator ++ rest) = lineFeed :: translateNewlines rest := by
  unfold TextLine.terminator
  split
  · rw [List.cons_append, List.cons_append, List.nil_append]
    conv_lhs => unfold translateNewlines
    rw [if_pos rfl]
    rfl
  · rw [List.cons_append, List.nil_append]
    conv_lhs => unfold translateNewlines
    rw [if_neg carriageReturn_ne_lineFeed.symm]

theorem translateNewlines_bytesOf (ls : List TextLine) :
    translateNewlines (bytesOf ls) = bytesOf (ls.map TextLine.plain) := by
  induction ls with
  | nil => rfl
  | cons l ls ih =>
    rw [bytesOf_cons, List.map_cons, bytesOf_cons]
    unfold TextLine.bytes
    rw [List.append_assoc, translateNewlines_append l.noCarriageReturn,
      translateNewlines_terminator, ih]
    show _ = (l.text ++ [lineFeed]) ++ _
    rw [List.append_assoc]
    rfl

theorem splitOn_bytesOf_plain (ls : List TextLine) :
    (bytesOf (ls.map TextLine.plain)).splitOn lineFeed
      = ls.map TextLine.text ++ [[]] := by
  induction ls with
  | nil => rfl
  | cons l ls ih =>
    rw [List.map_cons, bytesOf_cons]
    show ((l.text ++ [lineFeed]) ++ bytesOf (ls.map TextLine.plain)).splitOn lineFeed = _
    rw [List.append_assoc, List.cons_append, List.nil_append,
      List.splitOn_append_cons_self_of_not_mem l.noLineFeed, ih]
    rfl

theorem bytesOf_ne_nil {ls : List TextLine} (h : ls ≠ []) : bytesOf ls ≠ [] := by
  cases ls with
  | nil => exact absurd rfl h
  | cons l ls =>
    intro hnil
    have hlen := congrArg List.length hnil
    have := l.length_terminator_pos
    rw [bytesOf_cons, TextLine.bytes, List.length_append, List.length_append] at hlen
    simp only [List.length_nil] at hlen
    omega

theorem getLast?_bytesOf {ls : List TextLine} (h : ls ≠ []) :
    (bytesOf ls).getLast? = some lineFeed := by
  have hlast : ∀ l : TextLine, l.bytes.getLast? = some lineFeed := fun l => by
    unfold TextLine.bytes TextLine.terminator
    rw [List.getLast?_append]
    split <;> rfl
  obtain ⟨ls', l, rfl⟩ : ∃ ls' l, ls = ls' ++ [l] :=
    ⟨ls.dropLast, ls.getLast h, (List.dropLast_append_getLast h).symm⟩
  rw [bytesOf_append, bytesOf_cons, bytesOf_nil, List.append_nil, List.getLast?_append,
    hlast]
  rfl

theorem TextLine.countP_bytes (l : TextLine) : l.bytes.countP (· == lineFeed) = 1 := by
  have htext : l.text.countP (· == lineFeed) = 0 :=
    List.countP_eq_zero.mpr fun b hb hlf => l.noLineFeed (by rw [← eq_of_beq hlf]; exact hb)
  unfold TextLine.bytes TextLine.terminator
  rw [List.countP_append, htext]
  split <;> rfl

theorem countP_bytesOf (ls : List TextLine) :
    (bytesOf ls).countP (· == lineFeed) = ls.length := by
  induction ls with
  | nil => rfl
  | cons l ls ih =>
    rw [bytesOf_cons, List.countP_append, l.countP_bytes, ih, List.length_cons, Nat.add_comm]

/-- **The segments of lines are their texts.** -/
theorem segments_bytesOf (ls : List TextLine) :
    segments (bytesOf ls) = (ls.map TextLine.text, true) := by
  unfold segments
  by_cases hnil : ls = []
  · subst hnil
    rfl
  · rw [if_neg (by rw [List.isEmpty_iff]; exact bytesOf_ne_nil hnil)]
    have hlast : (bytesOf (ls.map TextLine.plain)).getLast? = some lineFeed :=
      getLast?_bytesOf fun h => hnil (List.map_eq_nil_iff.mp h)
    dsimp only
    rw [translateNewlines_bytesOf, hlast, splitOn_bytesOf_plain]
    simp only [beq_self_eq_true, if_true, List.dropLast_concat]

/-! ## Raw spans -/

/-- The spans of the lines of `buf`, whose first byte is at `pos` and
belongs to a line that began at `start`; and whether it ends with the end
of a line. -/
def rawSpansFrom : ℕ → ℕ → List UInt8 → List (ℕ × ℕ) × Bool
  | start, pos, [] => if start = pos then ([], true) else ([(start, pos)], false)
  | start, pos, b :: rest =>
    if b = carriageReturn then
      match rest with
      | c :: rest' =>
        if c = lineFeed then
          let r := rawSpansFrom (pos + 2) (pos + 2) rest'
          ((start, pos) :: r.1, r.2)
        else
          let r := rawSpansFrom (pos + 1) (pos + 1) (c :: rest')
          ((start, pos) :: r.1, r.2)
      | [] => ([(start, pos)], true)
    else if b = lineFeed then
      let r := rawSpansFrom (pos + 1) (pos + 1) rest
      ((start, pos) :: r.1, r.2)
    else rawSpansFrom start (pos + 1) rest

def rawSpans (buf : List UInt8) : List (ℕ × ℕ) × Bool := rawSpansFrom 0 0 buf

/-- Where the texts of lines stand that begin at an offset. -/
def spansOf : ℕ → List TextLine → List (ℕ × ℕ)
  | _, [] => []
  | o, l :: ls => (o, o + l.text.length) :: spansOf (o + l.bytes.length) ls

theorem spansOf_cons (o : ℕ) (l : TextLine) (ls : List TextLine) :
    spansOf o (l :: ls) = (o, o + l.text.length) :: spansOf (o + l.bytes.length) ls := rfl

@[simp] theorem length_spansOf (o : ℕ) (ls : List TextLine) :
    (spansOf o ls).length = ls.length := by
  induction ls generalizing o with
  | nil => rfl
  | cons l ls ih => exact congrArg Nat.succ (ih _)

theorem spansOf_append (o : ℕ) (ls ls' : List TextLine) :
    spansOf o (ls ++ ls') = spansOf o ls ++ spansOf (o + (bytesOf ls).length) ls' := by
  induction ls generalizing o with
  | nil => rfl
  | cons l ls ih =>
    rw [List.cons_append, spansOf_cons, spansOf_cons, ih, bytesOf_cons,
      List.length_append, Nat.add_assoc]
    rfl

theorem rawSpansFrom_append {t : List UInt8} (hlf : lineFeed ∉ t)
    (hcr : carriageReturn ∉ t) (start pos : ℕ) (rest : List UInt8) :
    rawSpansFrom start pos (t ++ rest) = rawSpansFrom start (pos + t.length) rest := by
  induction t generalizing pos with
  | nil => rfl
  | cons b t ih =>
    rw [List.mem_cons, not_or] at hlf hcr
    rw [List.cons_append]
    conv_lhs => unfold rawSpansFrom
    rw [if_neg (Ne.symm hcr.1), if_neg (Ne.symm hlf.1), ih hlf.2 hcr.2, List.length_cons]
    congr 1
    omega

theorem rawSpansFrom_terminator (l : TextLine) (start pos : ℕ) (rest : List UInt8) :
    rawSpansFrom start pos (l.terminator ++ rest)
      = ((start, pos) :: (rawSpansFrom (pos + l.terminator.length)
          (pos + l.terminator.length) rest).1,
        (rawSpansFrom (pos + l.terminator.length) (pos + l.terminator.length) rest).2) := by
  unfold TextLine.terminator
  split
  · rw [List.cons_append, List.cons_append, List.nil_append]
    conv_lhs => unfold rawSpansFrom
    rw [if_pos rfl]
    rfl
  · rw [List.cons_append, List.nil_append]
    conv_lhs => unfold rawSpansFrom
    rw [if_neg carriageReturn_ne_lineFeed.symm, if_pos rfl]
    rfl

/-- **The raw spans of lines are where their texts stand.** -/
theorem rawSpansFrom_bytesOf (o : ℕ) (ls : List TextLine) :
    rawSpansFrom o o (bytesOf ls) = (spansOf o ls, true) := by
  induction ls generalizing o with
  | nil =>
    unfold rawSpansFrom bytesOf
    exact if_pos rfl
  | cons l ls ih =>
    rw [bytesOf_cons, TextLine.bytes, List.append_assoc,
      rawSpansFrom_append l.noLineFeed l.noCarriageReturn, rawSpansFrom_terminator,
      Nat.add_assoc, ← List.length_append]
    show (_ :: (rawSpansFrom (o + l.bytes.length) (o + l.bytes.length) (bytesOf ls)).1,
      (rawSpansFrom (o + l.bytes.length) (o + l.bytes.length) (bytesOf ls)).2) = _
    rw [ih]
    rfl

theorem rawSpans_bytesOf (ls : List TextLine) :
    rawSpans (bytesOf ls) = (spansOf 0 ls, true) := rawSpansFrom_bytesOf 0 ls

def sliceOf (buf : List UInt8) (span : ℕ × ℕ) : List UInt8 :=
  (buf.take span.2).drop span.1

/-- **What stands at the spans are the texts.** -/
theorem map_sliceOf_spansOf (before : List UInt8) (ls : List TextLine) :
    (spansOf before.length ls).map (sliceOf (before ++ bytesOf ls))
      = ls.map TextLine.text := by
  induction ls generalizing before with
  | nil => rfl
  | cons l ls ih =>
    rw [spansOf_cons, List.map_cons, List.map_cons]
    congr 1
    · unfold sliceOf
      rw [bytesOf_cons, TextLine.bytes, ← List.append_assoc, ← List.append_assoc,
        List.append_assoc (before ++ l.text), List.take_left' (by rw [List.length_append]),
        List.drop_left' rfl]
    · have h := ih (before ++ l.bytes)
      rw [List.length_append] at h
      rw [bytesOf_cons, ← List.append_assoc]
      exact h

/-! ## Walking from the end -/

/-- The last `count` lines of the bytes read, when enough of them are
complete: the first one may be cut unless the file begins with it. -/
def lastLines (count pos : ℕ) (buf : List UInt8) :
    Option (List (List UInt8) × ℕ × Bool) :=
  let (spans, ends) := rawSpans buf
  let complete := spans.length - (if 0 < pos then 1 else 0)
  if count ≤ complete then
    let take := spans.drop (spans.length - count)
    some (take.map (sliceOf buf), pos + (take.headD (0, 0)).1, ends)
  else none

/-- How many line feeds and carriage returns a chunk holds. -/
def countTerminators (buf : List UInt8) : ℕ :=
  buf.countP fun b => b == lineFeed || b == carriageReturn

/-- Reads `file` in chunks, backward from `pos`, until the last `count`
lines are complete; `bound` counts the terminators read. Gives up when
`budget` bytes are exceeded. -/
def walkFrom (chunk : ℕ+) (budget : ℕ) (file : List UInt8) (count pos : ℕ)
    (buf : List UInt8) (bound accumulated : ℕ) : Option (List (List UInt8) × ℕ × Bool) :=
  match if count + 2 ≤ bound ∨ pos = 0 then lastLines count pos buf else none with
  | some r => some r
  | none =>
    if _h : pos = 0 then none
    else if budget < accumulated then none
    else
      let step := min (chunk : ℕ) pos
      let read := (file.drop (pos - step)).take step
      walkFrom chunk budget file count (pos - step) (read ++ buf)
        (bound + countTerminators read) (accumulated + step)
termination_by pos
decreasing_by
  have := chunk.pos
  omega

/-- The last `count` lines of the first `size` bytes of a file, where they
begin, and whether these bytes end with the end of a line. -/
def walkTail (chunk : ℕ+) (budget : ℕ) (file : List UInt8) (size count : ℕ) :
    Option (List (List UInt8) × ℕ × Bool) :=
  if count = 0 then some ([], size, true)
  else walkFrom chunk budget file count size [] 0 0

theorem TextLine.exists_drop (l : TextLine) {n : ℕ} (h : n < l.bytes.length) :
    ∃ l' : TextLine, l.bytes.drop n = l'.bytes := by
  by_cases hn : n ≤ l.text.length
  · refine ⟨⟨l.text.drop n, l.crlf, fun hm => l.noLineFeed (List.mem_of_mem_drop hm),
      fun hm => l.noCarriageReturn (List.mem_of_mem_drop hm)⟩, ?_⟩
    exact List.drop_append_of_le_length hn
  · -- the cut falls between carriage return and line feed
    refine ⟨⟨[], false, List.not_mem_nil, List.not_mem_nil⟩, ?_⟩
    have hcrlf : l.crlf = true := by
      by_contra hfalse
      unfold TextLine.bytes TextLine.terminator at h
      rw [if_neg hfalse, List.length_append, List.length_singleton] at h
      omega
    have hlen : n = l.text.length + 1 := by
      unfold TextLine.bytes TextLine.terminator at h
      rw [if_pos hcrlf, List.length_append] at h
      simp only [List.length_cons, List.length_nil] at h
      omega
    unfold TextLine.bytes TextLine.terminator
    rw [if_pos hcrlf, hlen, ← List.drop_drop, List.drop_left' rfl]
    rfl

/-- **The bytes behind a cut are those of lines**: the ones behind it, and
what is left of the one cut. -/
theorem exists_drop_bytesOf (ls : List TextLine) (n : ℕ) :
    ∃ ls₁ cut ls₂, ls = ls₁ ++ ls₂ ∧ (bytesOf ls).drop n = bytesOf (cut ++ ls₂)
      ∧ cut.length ≤ 1 ∧ (n = 0 → cut = []) := by
  induction ls generalizing n with
  | nil => exact ⟨[], [], [], rfl, List.drop_nil, Nat.zero_le _, fun _ => rfl⟩
  | cons l ls ih =>
    by_cases hzero : n = 0
    · subst hzero
      exact ⟨[], [], l :: ls, rfl, rfl, Nat.zero_le _, fun _ => rfl⟩
    · by_cases hlt : n < l.bytes.length
      · obtain ⟨l', hl'⟩ := l.exists_drop hlt
        refine ⟨[l], [l'], ls, rfl, ?_, le_refl _, fun h => absurd h hzero⟩
        rw [bytesOf_cons, List.drop_append_of_le_length (Nat.le_of_lt hlt), hl']
        rfl
      · obtain ⟨ls₁, cut, ls₂, rfl, hdrop, hcut, -⟩ := ih (n - l.bytes.length)
        refine ⟨l :: ls₁, cut, ls₂, rfl, ?_, hcut, fun h => absurd h hzero⟩
        rw [bytesOf_cons, List.drop_append, List.drop_of_length_le (Nat.not_lt.mp hlt),
          List.nil_append, hdrop]

/-- **Lines found complete behind a cut are the last lines.** -/
theorem lastLines_eq_some {ls : List TextLine} {count pos : ℕ} (hcount : 0 < count)
    (hpos : pos ≤ (bytesOf ls).length) {texts : List (List UInt8)} {start : ℕ} {ends : Bool}
    (h : lastLines count pos ((bytesOf ls).drop pos) = some (texts, start, ends)) :
    ∃ ls₁ ls₂, ls = ls₁ ++ ls₂ ∧ ls₂.length = count ∧ texts = ls₂.map TextLine.text
      ∧ start = (bytesOf ls₁).length ∧ ends = true := by
  obtain ⟨ls₁, cut, ls₂, hls, hdrop, hcut, hzero⟩ := exists_drop_bytesOf ls pos
  have htotal : pos + (bytesOf (cut ++ ls₂)).length = (bytesOf ls).length := by
    rw [← hdrop, List.length_drop]
    omega
  unfold lastLines at h
  rw [hdrop, rawSpans_bytesOf] at h
  dsimp only at h
  rw [length_spansOf] at h
  have hle : count ≤ (cut ++ ls₂).length - if 0 < pos then 1 else 0 := by
    by_contra hle
    rw [if_neg hle] at h
    cases h
  rw [if_pos hle] at h
  have hcomplete : count ≤ ls₂.length := by
    rw [List.length_append] at hle
    by_cases hp : 0 < pos
    · rw [if_pos hp] at hle
      omega
    · rw [if_neg hp, hzero (by omega), List.length_nil] at hle
      omega
  -- the lines asked for are behind the cut
  obtain ⟨ls₃, ls₄, rfl, hlen⟩ : ∃ ls₃ ls₄, ls₂ = ls₃ ++ ls₄ ∧ ls₄.length = count :=
    ⟨ls₂.take (ls₂.length - count), ls₂.drop (ls₂.length - count),
      (List.take_append_drop _ _).symm, by rw [List.length_drop]; omega⟩
  have hspans : (spansOf 0 (cut ++ (ls₃ ++ ls₄))).drop
        ((cut ++ (ls₃ ++ ls₄)).length - count)
      = spansOf (bytesOf (cut ++ ls₃)).length ls₄ := by
    rw [← List.append_assoc, spansOf_append, Nat.zero_add, List.drop_left']
    simp only [length_spansOf, List.length_append, hlen]
    omega
  rw [hspans] at h
  cases h
  refine ⟨ls₁ ++ ls₃, ls₄, by rw [hls, List.append_assoc], hlen, ?_, ?_, rfl⟩
  · rw [← List.append_assoc, bytesOf_append]
    exact map_sliceOf_spansOf (bytesOf (cut ++ ls₃)) ls₄
  · cases ls₄ with
    | nil =>
      rw [List.length_nil] at hlen
      omega
    | cons l ls₄ =>
      rw [spansOf_cons, List.headD_cons]
      rw [hls] at htotal
      simp only [bytesOf_append, List.length_append] at htotal ⊢
      omega

/-- **A walk that succeeds gives the last lines**, and where they begin. -/
theorem walkFrom_eq_some {chunk : ℕ+} {budget : ℕ} {file : List UInt8}
    {ls : List TextLine} (hfile : file.take (bytesOf ls).length = bytesOf ls)
    {count : ℕ} (hcount : 0 < count) {pos : ℕ} (hpos : pos ≤ (bytesOf ls).length)
    (bound accumulated : ℕ) {texts : List (List UInt8)} {start : ℕ} {ends : Bool}
    (h : walkFrom chunk budget file count pos ((bytesOf ls).drop pos) bound accumulated
      = some (texts, start, ends)) :
    ∃ ls₁ ls₂, ls = ls₁ ++ ls₂ ∧ ls₂.length = count ∧ texts = ls₂.map TextLine.text
      ∧ start = (bytesOf ls₁).length ∧ ends = true := by
  induction pos using Nat.strong_induction_on generalizing bound accumulated with
  | _ pos ih =>
  unfold walkFrom at h
  split at h
  · next r hfound =>
    cases h
    split at hfound
    · exact lastLines_eq_some hcount hpos hfound
    · cases hfound
  · split at h
    · cases h
    · next hne =>
      split at h
      · cases h
      · have hchunk := chunk.pos
        -- the chunk read continues the bytes in hand
        have hread : (file.drop (pos - min (chunk : ℕ) pos)).take (min (chunk : ℕ) pos)
              ++ (bytesOf ls).drop pos
            = (bytesOf ls).drop (pos - min (chunk : ℕ) pos) := by
          have hpast : pos - min (chunk : ℕ) pos + min (chunk : ℕ) pos = pos := by omega
          have hsame : (file.drop (pos - min (chunk : ℕ) pos)).take (min (chunk : ℕ) pos)
              = ((bytesOf ls).drop (pos - min (chunk : ℕ) pos)).take
                  (min (chunk : ℕ) pos) := by
            rw [← hfile, List.drop_take, List.take_take]
            congr 1
            omega
          have hrest : (bytesOf ls).drop pos
              = ((bytesOf ls).drop (pos - min (chunk : ℕ) pos)).drop
                  (min (chunk : ℕ) pos) := by
            rw [List.drop_drop, hpast]
          rw [hsame, hrest, List.take_append_drop]
        dsimp only at h
        rw [hread] at h
        exact ih _ (by omega) (by omega) _ _ h

theorem walkTail_eq_some {chunk : ℕ+} {budget : ℕ} {file : List UInt8}
    {ls : List TextLine} (hfile : file.take (bytesOf ls).length = bytesOf ls)
    {count : ℕ} {texts : List (List UInt8)} {start : ℕ} {ends : Bool}
    (h : walkTail chunk budget file (bytesOf ls).length count = some (texts, start, ends)) :
    ∃ ls₁ ls₂, ls = ls₁ ++ ls₂ ∧ ls₂.length = count ∧ texts = ls₂.map TextLine.text
      ∧ start = (bytesOf ls₁).length ∧ ends = true := by
  unfold walkTail at h
  split at h
  · next hzero =>
    cases h
    exact ⟨ls, [], (List.append_nil ls).symm, hzero.symm, rfl, rfl, rfl⟩
  · next hne =>
    have hnil : (bytesOf ls).drop (bytesOf ls).length = [] := List.drop_length
    rw [← hnil] at h
    exact walkFrom_eq_some hfile (Nat.pos_of_ne_zero hne) (le_refl _) 0 0 h
