import CharlieBot.Lib.LineEnds
import CharlieBot.Lib.Lines
import CharlieBot.Lib.Pieces
import CharlieBot.Lib.Utf8

/-!
# The framing of server-sent events

A line of an event stream ends at a carriage return, at a line feed, or at the two together, and at
no other character that a language may take for the end of a line. `split_sse_lines` cuts a text
that is there as a whole; the framer is fed the stream chunk by chunk and searches each chunk once:
what it has of a line is a list of fragments, a carriage return at the end of a chunk is held back
for the next to settle, and the position of the next carriage return is kept from line to line. The
kept position is the one a search would find (`Cursor.cached`), so a pass of the loop cuts at the
first terminator of what is left (`Cursor.terminator_lf`, `Cursor.terminator_cr`), and a chunk does
what reading its bytes one by one does (`feed_spec`).

**However a stream is cut into chunks, its lines are those of the whole** (`iterSseLines_eq`), as
bytes and as text: a terminator is a byte below 128, so that no character is cut at it
(`lines_decodeReplacing`).
-/

namespace SseFraming

def byteEnds : LineEnds UInt8 := ⟨carriageReturn, lineFeed, carriageReturn_ne_lineFeed⟩

def charEnds : LineEnds Char := ⟨'\r', '\n', by decide⟩

/-! ## A text that is there as a whole -/

section Whole

variable {α : Type*} [DecidableEq α]

/-- `buffer[start:stop]`. -/
def slice (buffer : List α) (start stop : ℕ) : List α := (buffer.take stop).drop start

/-- `_TERMINATOR_RE.finditer`, from a position on: where each terminator starts and ends. -/
def terminatorsFrom (e : LineEnds α) : ℕ → List α → List (ℕ × ℕ)
  | _, [] => []
  | pos, [c] => if c = e.cr ∨ c = e.lf then [(pos, pos + 1)] else []
  | pos, c :: d :: rest =>
    if c = e.cr ∧ d = e.lf then (pos, pos + 2) :: terminatorsFrom e (pos + 2) rest
    else if c = e.cr ∨ c = e.lf then (pos, pos + 1) :: terminatorsFrom e (pos + 1) (d :: rest)
    else terminatorsFrom e (pos + 1) (d :: rest)

/-- The lines between terminators, and where the last one ends. -/
def cutAt (buffer : List α) : ℕ → List (ℕ × ℕ) → List (List α) × ℕ
  | start, [] => ([], start)
  | start, m :: found =>
    (slice buffer start m.1 :: (cutAt buffer m.2 found).1, (cutAt buffer m.2 found).2)

/-- **`split_sse_lines`**: the lines, and the remainder. -/
def splitSseLines (e : LineEnds α) (buffer : List α) (final : Bool) :
    List (List α) × List α :=
  let stop :=
    if !final && buffer.getLast? = some e.cr then buffer.length - 1 else buffer.length
  let cut := cutAt buffer 0 (terminatorsFrom e 0 (buffer.take stop))
  if final then
    (cut.1 ++ if cut.2 < buffer.length then [buffer.drop cut.2] else [], [])
  else (cut.1, buffer.drop cut.2)

end Whole

/-! ## A stream of chunks -/

/-- `text.find(b, start, stop)`. -/
def find (b : UInt8) (text : List UInt8) (start stop : ℕ) : Option ℕ :=
  ((slice text start stop).idxOf? b).map (start + ·)

/-- **Where the loop is in a chunk**: behind the last terminator, with the position of the next
carriage return. -/
structure Cursor (text : List UInt8) (stop : ℕ) where
  start : ℕ
  cr : Option ℕ
  /-- The position is the one that a search finds. -/
  cached : cr = find carriageReturn text start stop

variable {text : List UInt8} {stop : ℕ}

/-- The next terminator and its length. -/
def Cursor.terminator (c : Cursor text stop) : Option (ℕ × ℕ) :=
  match find lineFeed text c.start stop with
  | none => c.cr.map (·, 1)
  | some lf =>
    match c.cr with
    | none => some (lf, 1)
    | some cr =>
      if lf < cr then some (lf, 1)
      else some (cr, if text[cr + 1]? = some lineFeed then 2 else 1)

theorem mem_slice_of_find {b : UInt8} {start n : ℕ} (h : find b text start stop = some n) :
    ∃ before after, slice text start stop = before ++ b :: after ∧ b ∉ before
      ∧ n = start + before.length := by
  obtain ⟨i, hi, rfl⟩ := Option.map_eq_some_iff.mp h
  have hmem : b ∈ slice text start stop := by
    by_contra hnone
    rw [List.idxOf?_eq_none_iff.mpr hnone] at hi
    cases hi
  obtain ⟨before, after, hsplit, hbefore⟩ := List.eq_append_cons_of_mem hmem
  rw [hsplit, List.idxOf?_append_cons hbefore] at hi
  exact ⟨before, after, hsplit, hbefore, by rw [Option.some.inj hi]⟩

theorem find_of_split {b : UInt8} {start : ℕ} {before after : List UInt8}
    (h : slice text start stop = before ++ b :: after) (hbefore : b ∉ before) :
    find b text start stop = some (start + before.length) := by
  unfold find
  rw [h, List.idxOf?_append_cons hbefore]
  rfl

theorem find_eq_none {b : UInt8} {start : ℕ} :
    find b text start stop = none ↔ b ∉ slice text start stop := by
  unfold find
  rw [Option.map_eq_none_iff, List.idxOf?_eq_none_iff]

theorem slice_of_le {α : Type*} (buffer : List α) {start start' stop : ℕ} (h : start ≤ start') :
    slice buffer start' stop = (slice buffer start stop).drop (start' - start) := by
  unfold slice
  rw [List.drop_drop, Nat.add_sub_cancel' h]

theorem find_of_le {b : UInt8} {start start' : ℕ} (hle : start ≤ start')
    (h : ∀ n ∈ find b text start stop, start' ≤ n) :
    find b text start' stop = find b text start stop := by
  cases hfind : find b text start stop with
  | none =>
    rw [find_eq_none] at hfind ⊢
    rw [slice_of_le text hle]
    exact fun hmem => hfind (List.mem_of_mem_drop hmem)
  | some n =>
    have hn : start' ≤ n := h n hfind
    obtain ⟨before, after, hsplit, hbefore, rfl⟩ := mem_slice_of_find hfind
    have hdrop : slice text start' stop = before.drop (start' - start) ++ b :: after := by
      rw [slice_of_le text hle, hsplit, List.drop_append_of_le_length (by omega)]
    rw [find_of_split hdrop fun hmem => hbefore (List.mem_of_mem_drop hmem), List.length_drop]
    exact congrArg some (by omega)

theorem find_bounds {b : UInt8} {start n : ℕ} (h : find b text start stop = some n) :
    start ≤ n ∧ n < stop := by
  obtain ⟨before, after, hsplit, -, rfl⟩ := mem_slice_of_find h
  have hlen := congrArg List.length hsplit
  unfold slice at hlen
  rw [List.length_drop, List.length_take, List.length_append, List.length_cons] at hlen
  omega

theorem Cursor.terminator_bounds {c : Cursor text stop} {p : ℕ × ℕ}
    (h : c.terminator = some p) : c.start ≤ p.1 ∧ p.1 < stop ∧ 0 < p.2 := by
  have hcr : ∀ n, c.cr = some n → c.start ≤ n ∧ n < stop := fun n hn =>
    find_bounds (c.cached ▸ hn)
  unfold Cursor.terminator at h
  cases hlf : find lineFeed text c.start stop with
  | none =>
    rw [hlf] at h
    obtain ⟨n, hn, rfl⟩ := Option.map_eq_some_iff.mp h
    exact ⟨(hcr n hn).1, (hcr n hn).2, Nat.one_pos⟩
  | some lf =>
    rw [hlf] at h
    have hlf := find_bounds hlf
    cases hc : c.cr with
    | none =>
      rw [hc] at h
      cases h
      exact ⟨hlf.1, hlf.2, Nat.one_pos⟩
    | some cr =>
      rw [hc] at h
      have hcr := hcr cr hc
      by_cases hlt : lf < cr
      · obtain rfl := Option.some.inj ((if_pos hlt).symm.trans h)
        exact ⟨hlf.1, hlf.2, Nat.one_pos⟩
      · obtain rfl := Option.some.inj ((if_neg hlt).symm.trans h)
        refine ⟨hcr.1, hcr.2, ?_⟩
        dsimp only
        split <;> omega

/-- Behind a terminator, the kept position is searched for again where it was passed. -/
def Cursor.advance (c : Cursor text stop) {p : ℕ × ℕ} (h : c.terminator = some p) :
    Cursor text stop where
  start := p.1 + p.2
  cr := if c.cr.any (· < p.1 + p.2) then find carriageReturn text (p.1 + p.2) stop else c.cr
  cached := by
    split
    · rfl
    · next hpassed =>
      have hle := c.terminator_bounds h
      rw [c.cached]
      refine (find_of_le (by omega) fun n hn => ?_).symm
      by_contra hlt
      refine hpassed ?_
      rw [c.cached, Option.mem_def.mp hn]
      exact decide_eq_true (Nat.not_le.mp hlt)

/-- The loop of `feed`: the lines it completes, and the fragments it leaves. -/
def feedFrom (c : Cursor text stop) (pieces : List (List UInt8)) :
    List (List UInt8) × List (List UInt8) :=
  match h : c.terminator with
  | none => ([], if c.start < text.length then pieces ++ [text.drop c.start] else pieces)
  | some p =>
    let tail := slice text c.start p.1
    let line := if pieces.isEmpty then tail else (pieces ++ [tail]).flatten
    let rest := feedFrom (c.advance h) []
    (line :: rest.1, rest.2)
termination_by stop + 2 - c.start
decreasing_by
  have hle := c.terminator_bounds h
  show stop + 2 - (p.1 + p.2) < stop + 2 - c.start
  omega

/-- A carriage return that was held back ends its line; its line feed is passed over. -/
def resolveHeld (pieces : List (List UInt8)) (text : List UInt8) :
    List (List UInt8) × List (List UInt8) × ℕ :=
  match pieces.getLast? with
  | none => ([], pieces, 0)
  | some last =>
    if last.getLast? = some carriageReturn then
      ([(pieces.dropLast ++ [last.dropLast]).flatten], [],
        if text.head? = some lineFeed then 1 else 0)
    else ([], pieces, 0)

/-- `end`: a carriage return at the end of a chunk is not searched for. -/
def stopOf (text : List UInt8) (start : ℕ) (final : Bool) : ℕ :=
  if !final && start < text.length && text[text.length - 1]? = some carriageReturn then
    text.length - 1
  else text.length

def Cursor.first (text : List UInt8) (start : ℕ) (final : Bool) :
    Cursor text (stopOf text start final) :=
  ⟨start, _, rfl⟩

/-- **`_ChunkedFramer.feed`**: the lines a chunk completes, and the fragments behind it. -/
def feed (pieces : List (List UInt8)) (text : List UInt8) (final : Bool) :
    List (List UInt8) × List (List UInt8) :=
  let resolved := resolveHeld pieces text
  let rest := feedFrom (Cursor.first text resolved.2.2 final) resolved.2.1
  (resolved.1 ++ rest.1, rest.2)

/-- The lines that `iter_sse_lines` frames, from the fragments of a framer on. -/
def framed (pieces : List (List UInt8)) : List (List UInt8) → List (List UInt8)
  | [] =>
    let last := feed pieces [] true
    last.1 ++ if last.2.isEmpty then [] else [last.2.flatten]
  | chunk :: chunks =>
    if chunk.isEmpty then framed pieces chunks
    else
      let fed := feed pieces chunk false
      fed.1 ++ framed fed.2 chunks

/-- **`iter_sse_lines`**, of a response that yields these chunks. -/
def iterSseLines (linesAsBytes : Bool) (chunks : List (List UInt8)) :
    List (List UInt8 ⊕ List Char) :=
  (framed [] chunks).map fun line =>
    if linesAsBytes then .inl line else .inr (Utf8.decodeReplacing line)

/-! ## The whole text is cut where its lines end -/

section Whole

variable {α : Type*} [DecidableEq α] (e : LineEnds α)

theorem terminatorsFrom_clean (pos : ℕ) {before : List α} (h : e.Clean before) (rest : List α) :
    terminatorsFrom e pos (before ++ rest) = terminatorsFrom e (pos + before.length) rest := by
  induction before generalizing pos with
  | nil => rfl
  | cons c before ih =>
    obtain ⟨hc, hbefore⟩ := List.forall_mem_cons.mp h
    have hnone : ¬(c = e.cr ∨ c = e.lf) := not_or.mpr hc
    have hstep : terminatorsFrom e pos (c :: (before ++ rest))
        = terminatorsFrom e (pos + 1) (before ++ rest) := by
      cases before ++ rest with
      | nil => exact if_neg hnone
      | cons d more => exact (if_neg fun hboth => hc.1 hboth.1).trans (if_neg hnone)
    rw [List.cons_append, hstep, ih _ hbefore, List.length_cons, Nat.add_assoc, Nat.add_comm 1]

/-- **A terminator in front**: the two characters together, or one of them. -/
inductive Terminator : List α → List α → Prop
  | lf (after : List α) : Terminator [e.lf] after
  | both (after : List α) : Terminator [e.cr, e.lf] after
  | cr {after : List α} (h : after.head? ≠ some e.lf) : Terminator [e.cr] after

variable {e}

theorem terminatorsFrom_terminator (pos : ℕ) {term after : List α} (h : Terminator e term after) :
    terminatorsFrom e pos (term ++ after)
      = (pos, pos + term.length) :: terminatorsFrom e (pos + term.length) after := by
  cases h with
  | lf =>
    cases after with
    | nil => exact if_pos (.inr rfl)
    | cons d more =>
      exact (if_neg fun hboth => e.ne hboth.1.symm).trans (if_pos (.inr rfl))
  | both => exact if_pos ⟨rfl, rfl⟩
  | cr hafter =>
    cases after with
    | nil => exact if_pos (.inl rfl)
    | cons d more =>
      exact (if_neg fun hboth => hafter (congrArg some hboth.2)).trans (if_pos (.inl rfl))

theorem lines_terminator {before term after : List α} (hbefore : e.Clean before)
    (h : Terminator e term after) :
    e.lines (before ++ (term ++ after)) = before :: e.lines after := by
  cases h with
  | lf => exact e.lines_append_lf hbefore after
  | both => exact e.lines_append_both hbefore after
  | cr hafter => exact e.lines_append_cr hbefore hafter

theorem exists_terminator (e : LineEnds α) (text : List α) : e.Clean text ∨
    ∃ before term after, text = before ++ (term ++ after) ∧ e.Clean before
      ∧ Terminator e term after := by
  rcases e.exists_first_end text with h | ⟨before, c, after, rfl, hbefore, rfl | rfl⟩
  · exact .inl h
  · by_cases hafter : after.head? = some e.lf
    · obtain ⟨more, rfl⟩ := List.head?_eq_some_iff.mp hafter
      exact .inr ⟨before, _, more, rfl, hbefore, .both more⟩
    · exact .inr ⟨before, _, after, rfl, hbefore, .cr hafter⟩
  · exact .inr ⟨before, _, after, rfl, hbefore, .lf after⟩

omit [DecidableEq α] in
theorem length_pos_of_terminator {term after : List α} (h : Terminator e term after) :
    0 < term.length := by
  cases h <;> exact Nat.succ_pos _

theorem cutAt_terminatorsFrom (passed rest : List α) :
    (cutAt (passed ++ rest) passed.length (terminatorsFrom e passed.length rest)).1
        ++ (if (cutAt (passed ++ rest) passed.length (terminatorsFrom e passed.length rest)).2
              < (passed ++ rest).length then
            [(passed ++ rest).drop
              (cutAt (passed ++ rest) passed.length (terminatorsFrom e passed.length rest)).2]
          else [])
      = e.lines rest := by
  rcases exists_terminator e rest with hclean | ⟨before, term, after, hrest, hbefore, hterm⟩
  · have hnone : terminatorsFrom e passed.length rest = [] := by
      rw [← List.append_nil rest, terminatorsFrom_clean e _ hclean]
      rfl
    rw [hnone, e.lines_of_clean hclean]
    show [] ++ (if passed.length < (passed ++ rest).length then
      [(passed ++ rest).drop passed.length] else []) = _
    rw [List.nil_append, List.drop_left' rfl, List.length_append]
    cases rest with
    | nil => exact if_neg (Nat.lt_irrefl _)
    | cons c rest =>
      rw [if_pos (by rw [List.length_cons]; omega), if_neg (List.cons_ne_nil _ _)]
  · have hlt : after.length < rest.length := by
      have hpos := length_pos_of_terminator hterm
      rw [hrest, List.length_append, List.length_append]
      omega
    have ih := cutAt_terminatorsFrom (passed ++ before ++ term) after
    have hbuffer : passed ++ before ++ term ++ after = passed ++ (before ++ (term ++ after)) := by
      rw [List.append_assoc, List.append_assoc]
    have hlength : (passed ++ before ++ term).length
        = passed.length + before.length + term.length := by
      rw [List.length_append, List.length_append]
    have hslice : slice (passed ++ (before ++ (term ++ after))) passed.length
        (passed.length + before.length) = before := by
      unfold slice
      rw [← List.append_assoc, List.take_left' (by rw [List.length_append]), List.drop_left' rfl]
    rw [hbuffer, hlength] at ih
    rw [hrest, lines_terminator hbefore hterm, ← ih, terminatorsFrom_clean e _ hbefore,
      terminatorsFrom_terminator _ hterm]
    show (slice (passed ++ (before ++ (term ++ after))) passed.length
      (passed.length + before.length) :: _) ++ _ = _
    rw [hslice]
    rfl
termination_by rest.length

/-- **A text that is there as a whole** is cut into its lines. -/
theorem splitSseLines_final (e : LineEnds α) (buffer : List α) :
    splitSseLines e buffer true = (e.lines buffer, []) := by
  have hcut := @cutAt_terminatorsFrom α _ e [] buffer
  rw [List.nil_append] at hcut
  unfold splitSseLines
  simp only [Bool.not_true, Bool.false_and, Bool.false_eq_true, if_false, if_true,
    List.take_length]
  exact congrArg (·, []) hcut

end Whole

/-! ## A chunk is read byte by byte -/

/-- **Where the search of a chunk stops**: at its end, or before the carriage return it ends in. -/
structure Stops (text : List UInt8) (stop : ℕ) : Prop where
  le : stop ≤ text.length
  held : text.drop stop = [] ∧ text.getLast? ≠ some carriageReturn
    ∨ text.drop stop = [carriageReturn]

/-- **The fragments hold what is in hand.** -/
structure Holds (pieces : List (List UInt8)) (p : LineEnds.Pending UInt8) : Prop where
  flatten : pieces.flatten = p.line ++ if p.held then [carriageReturn] else []
  clean : byteEnds.Clean p.line
  ne_nil : [] ∉ pieces

theorem Holds.nil : Holds [] {} :=
  ⟨rfl, byteEnds.clean_nil, List.not_mem_nil⟩

theorem Stops.drop_eq (h : Stops text stop) {start : ℕ} (hstart : start ≤ stop) :
    text.drop start = slice text start stop ++ text.drop stop := by
  unfold slice
  have hsplit := List.take_append_drop stop text
  conv_lhs => rw [← hsplit]
  rw [List.drop_append_of_le_length (by rw [List.length_take]; have := h.le; omega)]

theorem length_lt_of_split {x y : UInt8} {before more before' more' : List UInt8}
    (h : before ++ x :: more = before' ++ y :: more') (hy : y ∉ before) (hne : x ≠ y) :
    before.length < before'.length := by
  rcases List.append_eq_append_iff.mp h with ⟨as, rfl, hrest⟩ | ⟨bs, rfl, hrest⟩
  · cases as with
    | nil => exact absurd (List.cons.inj hrest).1 hne
    | cons a as =>
      rw [List.length_append, List.length_cons]
      omega
  · cases bs with
    | nil => exact absurd (List.cons.inj hrest).1.symm hne
    | cons b bs =>
      have hb : y = b := (List.cons.inj hrest).1
      exact absurd (List.mem_append_right _ (hb ▸ List.mem_cons_self)) hy

theorem find_gt {b x : UInt8} {start n : ℕ} {before more : List UInt8}
    (hsplit : slice text start stop = before ++ x :: more) (hb : b ∉ before) (hne : x ≠ b)
    (h : find b text start stop = some n) : start + before.length < n := by
  obtain ⟨before', more', hsplit', -, rfl⟩ := mem_slice_of_find h
  have hlt := length_lt_of_split (hsplit.symm.trans hsplit') hb hne
  omega

theorem Cursor.terminator_lf (c : Cursor text stop) {before more : List UInt8}
    (hsplit : slice text c.start stop = before ++ lineFeed :: more)
    (hbefore : byteEnds.Clean before) :
    c.terminator = some (c.start + before.length, 1) := by
  have hlf := find_of_split hsplit fun hmem => (hbefore _ hmem).2 rfl
  unfold Cursor.terminator
  rw [hlf]
  cases hcr : c.cr with
  | none => rfl
  | some cr =>
    rw [c.cached] at hcr
    exact if_pos (find_gt hsplit (fun hmem => (hbefore _ hmem).1 rfl)
      carriageReturn_ne_lineFeed.symm hcr)

theorem Cursor.terminator_cr (c : Cursor text stop) {before more : List UInt8}
    (hsplit : slice text c.start stop = before ++ carriageReturn :: more)
    (hbefore : byteEnds.Clean before)
    (hnext : lineFeed ∉ slice text c.start stop →
      text[c.start + before.length + 1]? ≠ some lineFeed) :
    c.terminator = some (c.start + before.length,
      if text[c.start + before.length + 1]? = some lineFeed then 2 else 1) := by
  have hcr := find_of_split hsplit fun hmem => (hbefore _ hmem).1 rfl
  unfold Cursor.terminator
  rw [c.cached, hcr]
  cases hlf : find lineFeed text c.start stop with
  | none => rw [if_neg (hnext (find_eq_none.mp hlf))]; rfl
  | some lf =>
    have hgt := find_gt hsplit (fun hmem => (hbefore _ hmem).2 rfl)
      carriageReturn_ne_lineFeed hlf
    exact if_neg (by omega)

theorem Cursor.terminator_none (c : Cursor text stop)
    (h : byteEnds.Clean (slice text c.start stop)) : c.terminator = none := by
  have hlf : find lineFeed text c.start stop = none :=
    find_eq_none.mpr fun hmem => (h _ hmem).2 rfl
  have hcr : find carriageReturn text c.start stop = none :=
    find_eq_none.mpr fun hmem => (h _ hmem).1 rfl
  unfold Cursor.terminator
  rw [c.cached, hlf, hcr]
  rfl

/-- **A pass of the loop** cuts at the first terminator of what is left, or finds none. -/
theorem Cursor.terminator_spec (hstops : Stops text stop) (c : Cursor text stop)
    (hstart : c.start ≤ stop) :
    byteEnds.Clean (slice text c.start stop) ∧ c.terminator = none
      ∨ ∃ before term after, text.drop c.start = before ++ (term ++ after)
        ∧ byteEnds.Clean before ∧ Terminator byteEnds term after
        ∧ c.terminator = some (c.start + before.length, term.length)
        ∧ c.start + before.length + term.length ≤ stop
        ∧ (term = [carriageReturn] → after ≠ []) := by
  have hdrop := hstops.drop_eq hstart
  have hlength : (slice text c.start stop).length = stop - c.start := by
    unfold slice
    rw [List.length_drop, List.length_take]
    have := hstops.le
    omega
  rcases byteEnds.exists_first_end (slice text c.start stop) with
    h | ⟨before, b, more, hsplit, hbefore, rfl | rfl⟩
  · exact .inl ⟨h, c.terminator_none h⟩
  · have hheld : (more ++ text.drop stop).head? = some lineFeed →
        ∃ more', more = lineFeed :: more' := by
      intro hhead
      cases more with
      | nil =>
        rcases hstops.held with ⟨hnil, -⟩ | hcr
        · rw [hnil] at hhead
          cases hhead
        · rw [hcr] at hhead
          exact absurd (Option.some.inj hhead) carriageReturn_ne_lineFeed
      | cons d more => exact ⟨more, by rw [Option.some.inj hhead]⟩
    rw [hsplit, List.append_assoc, List.cons_append] at hdrop
    have hnext : text[c.start + before.length + 1]? = (more ++ text.drop stop).head? := by
      rw [Nat.add_assoc, ← List.getElem?_drop, hdrop, List.getElem?_append_right (by omega),
        Nat.add_sub_cancel_left, List.head?_eq_getElem?]
      rfl
    have hterminator := c.terminator_cr hsplit hbefore fun hnone hnext' => by
      obtain ⟨more', rfl⟩ := hheld (hnext ▸ hnext')
      exact hnone (hsplit ▸ by simp)
    rw [hnext] at hterminator
    rw [hsplit] at hlength
    by_cases hlf : (more ++ text.drop stop).head? = some lineFeed
    · obtain ⟨more', rfl⟩ := hheld hlf
      rw [if_pos hlf] at hterminator
      refine .inr ⟨before, [carriageReturn, lineFeed], more' ++ text.drop stop, hdrop, hbefore,
        .both _, hterminator, ?_, fun h => (nomatch (List.cons.inj h).2)⟩
      rw [List.length_append, List.length_cons, List.length_cons] at hlength
      show c.start + before.length + 2 ≤ stop
      omega
    · rw [if_neg hlf] at hterminator
      refine .inr ⟨before, [carriageReturn], more ++ text.drop stop, hdrop, hbefore,
        .cr hlf, hterminator, ?_, fun _ hnil => ?_⟩
      · rw [List.length_append, List.length_cons] at hlength
        show c.start + before.length + 1 ≤ stop
        omega
      · obtain ⟨rfl, hstop⟩ := List.append_eq_nil_iff.mp hnil
        rcases hstops.held with ⟨-, hlast⟩ | hcr
        · refine hlast ?_
          have hend : (text.drop c.start).getLast? = some carriageReturn := by
            rw [hdrop, hstop, List.append_nil]
            exact List.getLast?_concat
          rw [← List.take_append_drop c.start text, List.getLast?_append, hend]
          rfl
        · rw [hcr] at hstop
          cases hstop
  · rw [hsplit, List.append_assoc, List.cons_append] at hdrop
    refine .inr ⟨before, [lineFeed], more ++ text.drop stop, hdrop, hbefore, .lf _,
      c.terminator_lf hsplit hbefore, ?_, fun h =>
        absurd (List.cons.inj h).1 carriageReturn_ne_lineFeed.symm⟩
    rw [hsplit, List.length_append, List.length_cons] at hlength
    show c.start + before.length + 1 ≤ stop
    omega

theorem read_terminator {before term after : List UInt8} (hbefore : byteEnds.Clean before)
    (h : Terminator byteEnds term after) (hne : term = [carriageReturn] → after ≠ [])
    (line : List UInt8) : byteEnds.read { line } (before ++ (term ++ after))
      = ((line ++ before) :: (byteEnds.read {} after).1, (byteEnds.read {} after).2) := by
  cases h with
  | lf => exact byteEnds.read_append_lf hbefore line after
  | both => exact byteEnds.read_append_both hbefore line after
  | cr hafter => exact byteEnds.read_append_cr hbefore hafter (hne rfl) line

theorem feedFrom_none {c : Cursor text stop} (h : c.terminator = none)
    (pieces : List (List UInt8)) : feedFrom c pieces
      = ([], if c.start < text.length then pieces ++ [text.drop c.start] else pieces) := by
  rw [feedFrom]
  split
  · rfl
  · next p hp =>
    rw [h] at hp
    cases hp

theorem feedFrom_some {c : Cursor text stop} {p : ℕ × ℕ} (h : c.terminator = some p)
    (pieces : List (List UInt8)) : feedFrom c pieces
      = ((pieces.flatten ++ slice text c.start p.1) :: (feedFrom (c.advance h) []).1,
          (feedFrom (c.advance h) []).2) := by
  rw [feedFrom]
  split
  · next hnone =>
    rw [h] at hnone
    cases hnone
  · next q hq =>
    obtain rfl := Option.some.inj (h.symm.trans hq)
    cases pieces with
    | nil => rfl
    | cons piece pieces =>
      dsimp only
      rw [if_neg (by simp), List.flatten_append, List.flatten_singleton]

/-- **The loop reads what is left of the chunk.** -/
theorem feedFrom_spec (hstops : Stops text stop) (c : Cursor text stop) (hstart : c.start ≤ stop)
    {pieces : List (List UInt8)} (hclean : byteEnds.Clean pieces.flatten) (hne : [] ∉ pieces) :
    (feedFrom c pieces).1 = (byteEnds.read { line := pieces.flatten } (text.drop c.start)).1
      ∧ Holds (feedFrom c pieces).2
        (byteEnds.read { line := pieces.flatten } (text.drop c.start)).2 := by
  rcases c.terminator_spec hstops hstart with
    ⟨hrest, hnone⟩ | ⟨before, term, after, hdrop, hbefore, hterm, hsome, hle, hafter⟩
  · have hread : byteEnds.read { line := pieces.flatten } (text.drop c.start)
        = ([], { line := pieces.flatten ++ slice text c.start stop,
                 held := !(text.drop stop).isEmpty }) := by
      rw [hstops.drop_eq hstart]
      rcases hstops.held with ⟨hnil, -⟩ | hcr
      · rw [hnil, List.append_nil]
        exact byteEnds.read_clean hrest _
      · rw [hcr]
        exact byteEnds.read_concat_cr hrest _
    have hheld : text.drop stop = if !(text.drop stop).isEmpty then [carriageReturn] else [] := by
      rcases hstops.held with ⟨hnil, -⟩ | hcr
      · rw [hnil]
        rfl
      · rw [hcr]
        rfl
    rw [feedFrom_none hnone, hread]
    refine ⟨rfl, ?_, hclean.append hrest, ?_⟩
    · show List.flatten (if _ then _ else _) = _
      split
      · rw [List.flatten_append, List.flatten_singleton, hstops.drop_eq hstart, List.append_assoc,
          ← hheld]
      · next hend =>
        have hnil : text.drop c.start = [] := List.drop_eq_nil_of_le (by omega)
        rw [hstops.drop_eq hstart] at hnil
        rw [List.append_assoc, ← hheld, hnil, List.append_nil]
    · show [] ∉ (if _ then _ else _)
      split
      · next hlt =>
        intro hmem
        rcases List.mem_append.mp hmem with hmem | hmem
        · exact hne hmem
        · have hnil := List.drop_eq_nil_iff.mp (List.mem_singleton.mp hmem).symm
          omega
      · exact hne
  · have hslice : slice text c.start (c.start + before.length) = before := by
      unfold slice
      rw [List.drop_take, hdrop, Nat.add_sub_cancel_left, List.take_left' rfl]
    have hnext : text.drop (c.advance hsome).start = after := by
      show text.drop (c.start + before.length + term.length) = after
      rw [Nat.add_assoc, ← List.drop_drop, hdrop, ← List.append_assoc,
        List.drop_left' (by rw [List.length_append])]
    have hpos := length_pos_of_terminator hterm
    have ih := @feedFrom_spec hstops (c.advance hsome) hle [] byteEnds.clean_nil List.not_mem_nil
    rw [hnext] at ih
    rw [feedFrom_some hsome, hslice, hdrop, read_terminator hbefore hterm hafter]
    exact ⟨congrArg (_ :: ·) ih.1, ih.2⟩
termination_by stop - c.start
decreasing_by
  show stop - (c.start + before.length + term.length) < stop - c.start
  omega

/-! ## What was held back -/

theorem eq_nil_or_last {pieces : List (List UInt8)} (h : [] ∉ pieces) :
    pieces = [] ∨ ∃ before init b, pieces = before ++ [init ++ [b]] := by
  rcases List.eq_nil_or_concat pieces with hnil | ⟨before, last, rfl⟩
  · exact .inl hnil
  · rw [List.concat_eq_append] at h ⊢
    rcases List.eq_nil_or_concat last with rfl | ⟨init, b, rfl⟩
    · exact absurd (List.mem_append_right before List.mem_cons_self) h
    · exact .inr ⟨before, init, b, by rw [List.concat_eq_append]⟩

theorem flatten_last (before : List (List UInt8)) (init : List UInt8) (b : UInt8) :
    (before ++ [init ++ [b]]).flatten = (before.flatten ++ init) ++ [b] := by
  rw [List.flatten_append, List.flatten_singleton, List.append_assoc]

theorem resolveHeld_last (before : List (List UInt8)) (init : List UInt8) (b : UInt8)
    (text : List UInt8) : resolveHeld (before ++ [init ++ [b]]) text
      = if b = carriageReturn then
          ([before.flatten ++ init], [], if text.head? = some lineFeed then 1 else 0)
        else ([], before ++ [init ++ [b]], 0) := by
  unfold resolveHeld
  rw [List.getLast?_concat]
  dsimp only
  rw [List.getLast?_concat, List.dropLast_concat, List.dropLast_concat, List.flatten_append,
    List.flatten_singleton]
  by_cases hb : b = carriageReturn
  · rw [if_pos hb, if_pos (congrArg some hb)]
  · rw [if_neg hb, if_neg fun h => hb (Option.some.inj h)]

variable {pieces : List (List UInt8)} {p : LineEnds.Pending UInt8}

theorem Holds.resolve (h : Holds pieces p) (hheld : p.held = true) (text : List UInt8) :
    resolveHeld pieces text
      = ([p.line], [], if text.head? = some lineFeed then 1 else 0) := by
  have hflatten := h.flatten
  rw [hheld, if_pos rfl] at hflatten
  rcases eq_nil_or_last h.ne_nil with rfl | ⟨before, init, b, rfl⟩
  · exact absurd hflatten.symm (List.append_ne_nil_of_right_ne_nil _ (List.cons_ne_nil _ _))
  · rw [flatten_last] at hflatten
    obtain ⟨hline, hb⟩ := List.append_inj' hflatten rfl
    rw [resolveHeld_last, if_pos (List.cons.inj hb).1, hline]

theorem Holds.resolve_open (h : Holds pieces p) (hheld : p.held = false) (text : List UInt8) :
    p.line = pieces.flatten ∧ resolveHeld pieces text = ([], pieces, 0) := by
  have hflatten := h.flatten
  rw [hheld, if_neg Bool.false_ne_true, List.append_nil] at hflatten
  refine ⟨hflatten.symm, ?_⟩
  rcases eq_nil_or_last h.ne_nil with rfl | ⟨before, init, b, rfl⟩
  · rfl
  · rw [flatten_last] at hflatten
    have hb := h.clean b (by rw [← hflatten]; exact List.mem_concat_self)
    exact (resolveHeld_last before init b text).trans (if_neg hb.1)

theorem stops_stopOf {start : ℕ} (hle : start ≤ text.length)
    (hend : start = text.length → text.getLast? ≠ some carriageReturn) :
    Stops text (stopOf text start false) ∧ start ≤ stopOf text start false := by
  unfold stopOf
  rw [← List.getLast?_eq_getElem?]
  by_cases hcr : start < text.length ∧ text.getLast? = some carriageReturn
  · obtain ⟨init, rfl⟩ := List.getLast?_eq_some_iff.mp hcr.2
    have hlength : (init ++ [carriageReturn]).length - 1 = init.length := by
      rw [List.length_append]
      rfl
    rw [if_pos (by simpa using hcr.1), hlength]
    refine ⟨⟨by simp, .inr (List.drop_left' rfl)⟩, ?_⟩
    have hlt := hcr.1
    rw [List.length_append, List.length_singleton] at hlt
    omega
  · rw [if_neg (by simpa using fun hlt => not_and.mp hcr hlt)]
    refine ⟨⟨le_rfl, .inl ⟨List.drop_length, fun hlast => ?_⟩⟩, hle⟩
    rcases Nat.lt_or_eq_of_le hle with hlt | heq
    · exact hcr ⟨hlt, hlast⟩
    · exact hend heq hlast

theorem feed_of_resolve {lines pieces' : List (List UInt8)} {start : ℕ} {final : Bool}
    (h : resolveHeld pieces text = (lines, pieces', start)) : feed pieces text final
      = (lines ++ (feedFrom (Cursor.first text start final) pieces').1,
          (feedFrom (Cursor.first text start final) pieces').2) := by
  unfold feed
  rw [h]

/-- **A chunk does what reading its bytes does.** -/
theorem Holds.feed (h : Holds pieces p) (htext : text ≠ []) :
    (feed pieces text false).1 = (byteEnds.read p text).1
      ∧ Holds (feed pieces text false).2 (byteEnds.read p text).2 := by
  have hlength : 0 < text.length := List.length_pos_of_ne_nil htext
  obtain ⟨line, held⟩ := p
  cases held with
  | false =>
    obtain ⟨hline, hresolve⟩ := h.resolve_open rfl text
    obtain ⟨hstops, hstart⟩ := @stops_stopOf text 0 (Nat.zero_le _) (by omega)
    have hclean : byteEnds.Clean pieces.flatten := hline ▸ h.clean
    have hspec := feedFrom_spec hstops (Cursor.first text 0 false) hstart hclean h.ne_nil
    rw [← hline] at hspec
    rw [feed_of_resolve hresolve]
    exact hspec
  | true =>
    rw [feed_of_resolve (h.resolve rfl text)]
    by_cases hlf : text.head? = some lineFeed
    · obtain ⟨more, rfl⟩ := List.head?_eq_some_iff.mp hlf
      obtain ⟨hstops, hstart⟩ := @stops_stopOf (lineFeed :: more) 1 hlength fun hone => by
        cases more with
        | nil => exact fun hlast => carriageReturn_ne_lineFeed (Option.some.inj hlast).symm
        | cons b more =>
          rw [List.length_cons, List.length_cons] at hone
          omega
      have hspec := @feedFrom_spec _ _ hstops (Cursor.first _ 1 false) hstart []
        byteEnds.clean_nil List.not_mem_nil
      have hread : byteEnds.read { line, held := true } (lineFeed :: more)
          = (line :: (byteEnds.read {} more).1, (byteEnds.read {} more).2) := by
        have hpush : byteEnds.push { line, held := true } lineFeed = ([line], {}) :=
          byteEnds.push_held_lf line
        rw [LineEnds.read_cons, hpush]
        rfl
      rw [hread, if_pos hlf]
      exact ⟨congrArg (line :: ·) hspec.1, hspec.2⟩
    · obtain ⟨hstops, hstart⟩ := @stops_stopOf text 0 (Nat.zero_le _) (by omega)
      have hspec := @feedFrom_spec _ _ hstops (Cursor.first text 0 false) hstart []
        byteEnds.clean_nil List.not_mem_nil
      have hread := byteEnds.read_held hlf htext line
      rw [if_neg hlf, hread]
      exact ⟨congrArg (line :: ·) hspec.1, hspec.2⟩

theorem feedFrom_final (pieces : List (List UInt8)) :
    feedFrom (Cursor.first [] 0 true) pieces = ([], pieces) := by
  rw [feedFrom_none rfl]
  rfl

theorem Holds.feed_final (h : Holds pieces p) :
    (SseFraming.feed pieces [] true).1
        ++ (if (SseFraming.feed pieces [] true).2.isEmpty then []
          else [(SseFraming.feed pieces [] true).2.flatten])
      = p.flush := by
  obtain ⟨line, held⟩ := p
  cases held with
  | true =>
    rw [feed_of_resolve (h.resolve rfl [])]
    show [line] ++ (feedFrom (Cursor.first [] 0 true) []).1
      ++ (if (feedFrom (Cursor.first [] 0 true) []).2.isEmpty then [] else _) = _
    rw [feedFrom_final]
    rfl
  | false =>
    obtain ⟨hline, hresolve⟩ := h.resolve_open rfl []
    rw [feed_of_resolve hresolve, feedFrom_final]
    show (if pieces.isEmpty then [] else [pieces.flatten])
      = if (false || !line.isEmpty) = true then [line] else []
    have hline : line = pieces.flatten := hline
    rcases eq_nil_or_last h.ne_nil with rfl | ⟨before, init, b, rfl⟩
    · rw [hline]
      rfl
    · rw [hline, flatten_last, if_neg (by simp), if_pos (by simp)]

/-- **However a stream is cut into chunks**, what is framed is what is read of the whole. -/
theorem Holds.framed (h : Holds pieces p) (chunks : List (List UInt8)) :
    SseFraming.framed pieces chunks
      = (byteEnds.read p chunks.flatten).1 ++ (byteEnds.read p chunks.flatten).2.flush := by
  induction chunks generalizing pieces p with
  | nil => exact h.feed_final
  | cons chunk chunks ih =>
    unfold SseFraming.framed
    by_cases hchunk : chunk = []
    · subst hchunk
      exact ih h
    · obtain ⟨hlines, hholds⟩ := h.feed hchunk
      rw [if_neg (by simpa using hchunk), List.flatten_cons, LineEnds.read_append]
      dsimp only
      rw [hlines, ih hholds, List.append_assoc]

/-! ## The text of the lines -/

/-- **The lines of a text are those of its bytes**, decoded. -/
theorem lines_decodeReplacing (bytes : List UInt8) :
    charEnds.lines (Utf8.decodeReplacing bytes)
      = (byteEnds.lines bytes).map Utf8.decodeReplacing := by
  have hclean : ∀ {text : List UInt8}, byteEnds.Clean text →
      charEnds.Clean (Utf8.decodeReplacing text) := fun h c hc => by
    constructor
    · rintro rfl
      exact @Utf8.not_mem_decodeReplacing _ carriageReturn (by decide)
        (fun hmem => (h _ hmem).1 rfl) hc
    · rintro rfl
      exact @Utf8.not_mem_decodeReplacing _ lineFeed (by decide)
        (fun hmem => (h _ hmem).2 rfl) hc
  rcases exists_terminator byteEnds bytes with h | ⟨before, term, after, hbytes, hbefore, hterm⟩
  · rw [byteEnds.lines_of_clean h, charEnds.lines_of_clean (hclean h)]
    simp only [Utf8.decodeReplacing_eq_nil]
    split <;> rfl
  · have hlt : after.length < bytes.length := by
      have hpos := length_pos_of_terminator hterm
      rw [hbytes, List.length_append, List.length_append]
      omega
    have ih := lines_decodeReplacing after
    have hcr (rest : List UInt8) : Utf8.decodeReplacing (before ++ carriageReturn :: rest)
        = Utf8.decodeReplacing before ++ '\r' :: Utf8.decodeReplacing rest :=
      Utf8.decodeReplacing_append_ascii before (by decide) rest
    have hlf (front rest : List UInt8) : Utf8.decodeReplacing (front ++ lineFeed :: rest)
        = Utf8.decodeReplacing front ++ '\n' :: Utf8.decodeReplacing rest :=
      Utf8.decodeReplacing_append_ascii front (by decide) rest
    have hcut : Terminator charEnds (Utf8.decodeReplacing term) (Utf8.decodeReplacing after)
        ∧ Utf8.decodeReplacing (before ++ (term ++ after))
          = Utf8.decodeReplacing before
            ++ (Utf8.decodeReplacing term ++ Utf8.decodeReplacing after) := by
      cases hterm with
      | lf => exact ⟨.lf _, hlf before after⟩
      | both => exact ⟨.both _, (hcr _).trans (congrArg (_ ++ '\r' :: ·) (hlf [] after))⟩
      | cr hafter =>
        exact ⟨.cr (Utf8.head?_decodeReplacing_ne (by decide) hafter), hcr after⟩
    rw [hbytes, hcut.2, lines_terminator (hclean hbefore) hcut.1, ih,
      lines_terminator hbefore hterm, List.map_cons]
termination_by bytes.length

/-- **However a response is cut into chunks, its lines are those of the whole**, in bytes and in
characters. -/
theorem iterSseLines_eq (chunks : List (List UInt8)) :
    iterSseLines true chunks = (splitSseLines byteEnds chunks.flatten true).1.map .inl
      ∧ iterSseLines false chunks
        = (splitSseLines charEnds (Utf8.decodeReplacing chunks.flatten) true).1.map .inr := by
  have hframed : framed [] chunks = byteEnds.lines chunks.flatten := Holds.nil.framed chunks
  constructor
  · rw [splitSseLines_final, ← hframed]
    rfl
  · rw [splitSseLines_final, lines_decodeReplacing, ← hframed, List.map_map]
    rfl

end SseFraming
