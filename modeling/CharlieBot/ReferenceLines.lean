import CharlieBot.TailIndices

/-!
# The lines a successor inherits

A successor session is given the first event lines of its parent. The bytes
of the parent's file go over line by line: a line that holds only white
space is passed over, one that stands in braces is written, and any other
raises. `_stream_reference_lines` first tries all of them at once. It looks
for the line feeds, in chunks, compares the byte at either end of every
line, and writes one window of the file when all of them are braces and
nothing has to be folded or passed over; else it goes line by line.

Both are compared with the same plain account, over the list of the lines
the budget reaches: what is written is their content up to the first that
has to raise. The byte positions of the fast pass are, on a file that is
taken apart at its line feeds, where its lines begin and end.
-/

namespace ReferenceLines

open TailIndices

/-- What a stream of lines raises. -/
inductive Failure
  /-- The bytes are no UTF-8. -/
  | undecodable
  /-- A `ValueError`. -/
  | valueError (message : String)
  deriving DecidableEq, Repr

/-- What a stream of lines has written, and what it returned or raised: the
lines it spent of its budget, and those it wrote. -/
structure Streamed where
  out : List UInt8
  outcome : Except Failure (ℕ × ℕ)

/-- `{`. -/
def leftBrace : UInt8 := 0x7B

/-- `}`. -/
def rightBrace : UInt8 := 0x7D

/-- A line without the white space at its ends. -/
def content (frame : List UInt8) : List UInt8 :=
  (frame.dropWhile isSpaceByte).rdropWhile isSpaceByte

/-- Whether a line's content stands in braces. -/
def isWrapped (frame : List UInt8) : Bool :=
  (content frame).head? == some leftBrace && (content frame).getLast? == some rightBrace

/-- A line without the carriage return at its end. -/
def foldReturn (frame : List UInt8) : List UInt8 :=
  if frame.getLast? = some carriageReturn then frame.dropLast else frame

/-- What is said of a line that does not stand in braces. -/
def notAnObject (frame : List UInt8) : Failure :=
  .valueError ("parent event line is not a serialized event object: " ++
    String.ofList (Text.reprStr ((Text.strip (Utf8.decodeReplacing frame)).take 80)))

/-! ## Line by line -/

/-- The loop over the lines, `rest` being what stands behind the position. -/
def perFrame : ℕ → List UInt8 → ℕ → ℕ → Streamed
  | 0, _, raw, appended => ⟨[], .ok (raw, appended)⟩
  | budget + 1, rest, raw, appended =>
    if rest = [] then ⟨[], .ok (raw, appended)⟩
    else
      let frame := rest.takeWhile (· ≠ lineFeed)
      let after := (rest.dropWhile (· ≠ lineFeed)).drop 1
      if content frame = [] then perFrame budget after (raw + 1) appended
      else if isWrapped frame then
        let streamed := perFrame budget after (raw + 1) (appended + 1)
        { streamed with out := foldReturn frame ++ [lineFeed] ++ streamed.out }
      else ⟨[], .error (notAnObject frame)⟩

/-! ## All at once -/

/-- `_REFERENCE_SCAN_CHUNK`. -/
def scanChunk : ℕ := 1 <<< 20

/-- Where the line feeds of a window stand that begins at an offset. -/
def lineFeedsFrom : ℕ → List UInt8 → List ℕ
  | _, [] => []
  | offset, b :: rest =>
    if b = lineFeed then offset :: lineFeedsFrom (offset + 1) rest
    else lineFeedsFrom (offset + 1) rest

/-- Where the line feeds stand, looked for chunk by chunk. -/
def referenceNewlines (chunk : ℕ) (data : List UInt8) : List ℕ :=
  (List.range ((data.length + chunk - 1) / chunk)).flatMap fun i =>
    lineFeedsFrom (i * chunk) ((data.drop (i * chunk)).take chunk)

/-- Whether the line between two positions holds something and stands in
braces; an empty line does not, whatever bytes stand around it. -/
def frameOk (data : List UInt8) (span : ℕ × ℕ) : Bool :=
  decide (span.1 < span.2) && data[span.1]? == some leftBrace &&
    data[span.2 - 1]? == some rightBrace

/-- The number of lines within a budget, and the window of the file they
take up, which lacks the last line's end or not. Nothing when a line is
blank, ends with a carriage return or does not stand in braces. -/
def fastReferenceFrames (data : List UInt8) (take : ℤ) : Option (ℕ × ℕ × ℕ × Bool) :=
  let nls := referenceNewlines scanChunk data
  if take ≤ 0 then some (0, 0, 0, false)
  else
    let terminated := nls.take take.toNat
    let starts := if terminated = [] then [] else 0 :: terminated.dropLast.map (· + 1)
    let tailStart := (terminated.getLast?.map (· + 1)).getD 0
    let needsNewline :=
      decide (terminated.length < take.toNat) && decide (tailStart < data.length)
    let starts := if needsNewline then starts ++ [tailStart] else starts
    let ends := if needsNewline then terminated ++ [data.length] else terminated
    let raw := starts.length
    if raw = 0 then some (0, 0, 0, false)
    else if (starts.zip ends).all (frameOk data) then
      some (raw, starts.headD 0, ends.getLastD 0 + (if needsNewline then 0 else 1), needsNewline)
    else none

/-- Whether the bytes are all below 128. -/
def isAscii (data : List UInt8) : Bool := data.all (·.toNat < 128)

/-- What the fast pass leads to: its window is written, with the line feed it lacks. -/
def writeWindow (data : List UInt8) : ℕ × ℕ × ℕ × Bool → Streamed
  | (raw, start, stop, needsNewline) =>
    if start < stop then
      ⟨(data.drop start).take (stop - start) ++ (if needsNewline then [lineFeed] else []),
        .ok (raw, raw)⟩
    else ⟨[], .ok (raw, raw)⟩

def streamReferenceLines (data : List UInt8) (take : ℤ) : Streamed :=
  if !isAscii data && (Utf8.decode data).isNone then ⟨[], .error .undecodable⟩
  else
    match fastReferenceFrames data take with
    | some fast => writeWindow data fast
    | none => perFrame take.toNat data 0 0

/-- The same without the fast pass. -/
def streamPerFrame (data : List UInt8) (take : ℤ) : Streamed :=
  if !isAscii data && (Utf8.decode data).isNone then ⟨[], .error .undecodable⟩
  else perFrame take.toNat data 0 0

/-! ## The lines of a file -/

theorem fileLines_ended {pieces : List (List UInt8)} {rest : List UInt8}
    (clean : ∀ piece ∈ pieces, lineFeed ∉ piece) (open_ : lineFeed ∉ rest) :
    fileLines (List.ended lineFeed pieces ++ rest) =
      if rest = [] then pieces else pieces ++ [rest] := by
  simp [fileLines, List.splitOn_ended clean open_]

/-- The loop over the lines within the budget. -/
def framesFrom : List (List UInt8) → ℕ → ℕ → Streamed
  | [], raw, appended => ⟨[], .ok (raw, appended)⟩
  | frame :: frames, raw, appended =>
    if content frame = [] then framesFrom frames (raw + 1) appended
    else if isWrapped frame then
      let streamed := framesFrom frames (raw + 1) (appended + 1)
      { streamed with out := foldReturn frame ++ [lineFeed] ++ streamed.out }
    else ⟨[], .error (notAnObject frame)⟩

theorem cut_line {piece : List UInt8} (clean : lineFeed ∉ piece) (after : List UInt8) :
    (piece ++ lineFeed :: after).takeWhile (· ≠ lineFeed) = piece ∧
      (piece ++ lineFeed :: after).dropWhile (· ≠ lineFeed) = lineFeed :: after := by
  induction piece with
  | nil => simp
  | cons b piece ih =>
    have hb : b ≠ lineFeed := fun same => clean (same ▸ List.mem_cons_self)
    have := ih fun mem => clean (List.mem_cons_of_mem b mem)
    simpa [hb] using this

/-- **The loop takes the lines of the file**, as many as the budget reaches. -/
theorem perFrame_eq (budget : ℕ) (data : List UInt8) (raw appended : ℕ) :
    perFrame budget data raw appended =
      framesFrom ((fileLines data).take budget) raw appended := by
  obtain ⟨pieces, rest, clean, open_, rfl⟩ := List.exists_ended lineFeed data
  rw [fileLines_ended clean open_]
  induction pieces generalizing budget raw appended with
  | nil =>
    -- what is left is a line without an end, if it is any
    have whole : rest.takeWhile (· ≠ lineFeed) = rest ∧
        rest.dropWhile (· ≠ lineFeed) = [] := by
      rw [List.takeWhile_eq_self_iff, List.dropWhile_eq_nil_iff]
      have passes : ∀ b ∈ rest, decide (b ≠ lineFeed) = true := fun b hb =>
        decide_eq_true fun same => open_ (same ▸ hb)
      exact ⟨passes, passes⟩
    have overrun : ∀ n raw appended, perFrame n [] raw appended = ⟨[], .ok (raw, appended)⟩ := by
      rintro (_ | n) raw appended <;> rfl
    cases budget with
    | zero => simp [perFrame, framesFrom]
    | succ budget =>
      by_cases empty : rest = []
      · simp [empty, perFrame, framesFrom]
      · rw [if_neg empty, List.nil_append, List.ended_nil, List.nil_append, perFrame, if_neg empty,
          whole.1, whole.2]
        simp [framesFrom, overrun]
  | cons piece pieces ih =>
    obtain ⟨cleanPiece, cleanPieces⟩ := List.forall_mem_cons.1 clean
    cases budget with
    | zero => simp [perFrame, framesFrom]
    | succ budget =>
      have cut := cut_line cleanPiece (List.ended lineFeed pieces ++ rest)
      have more : (if rest = [] then piece :: pieces else (piece :: pieces) ++ [rest]) =
          piece :: (if rest = [] then pieces else pieces ++ [rest]) := by
        split <;> rfl
      rw [more, List.take_succ_cons, List.ended_cons, List.append_assoc, List.cons_append,
        perFrame, framesFrom, cut.1, cut.2]
      simp [ih _ _ _ cleanPieces]

/-! ## Where the lines stand -/

/-- Where lines begin and end in a file in which they stand one after another. -/
def windows : ℕ → List (List UInt8) → List (ℕ × ℕ)
  | _, [] => []
  | start, frame :: frames =>
    (start, start + frame.length) :: windows (start + frame.length + 1) frames

theorem length_windows (start : ℕ) (frames : List (List UInt8)) :
    (windows start frames).length = frames.length := by
  induction frames generalizing start with
  | nil => rfl
  | cons frame frames ih => simp [windows, ih]

theorem windows_take (start n : ℕ) (frames : List (List UInt8)) :
    windows start (frames.take n) = (windows start frames).take n := by
  induction frames generalizing start n with
  | nil => simp [windows]
  | cons frame frames ih =>
    cases n with
    | zero => rfl
    | succ n => simp [windows, ih]

theorem windows_concat (start : ℕ) (frames : List (List UInt8)) (last : List UInt8) :
    windows start (frames ++ [last]) =
      windows start frames ++ [(start + (List.ended lineFeed frames).length,
        start + (List.ended lineFeed frames ++ last).length)] := by
  induction frames generalizing start with
  | nil => simp [windows]
  | cons frame frames ih =>
    simp [windows, ih]
    omega

theorem lineFeedsFrom_append (offset : ℕ) (bytes more : List UInt8) :
    lineFeedsFrom offset (bytes ++ more) =
      lineFeedsFrom offset bytes ++ lineFeedsFrom (offset + bytes.length) more := by
  induction bytes generalizing offset with
  | nil => rfl
  | cons b bytes ih =>
    have shift : offset + 1 + bytes.length = offset + (bytes.length + 1) := by omega
    by_cases hb : b = lineFeed <;> simp [lineFeedsFrom, hb, ih, shift]

theorem lineFeedsFrom_of_not_mem {bytes : List UInt8} (clean : lineFeed ∉ bytes) (offset : ℕ) :
    lineFeedsFrom offset bytes = [] := by
  induction bytes generalizing offset with
  | nil => rfl
  | cons b bytes ih =>
    obtain ⟨hb, clean⟩ := not_or.1 fun mem => clean (List.mem_cons.2 mem)
    rw [lineFeedsFrom, if_neg (Ne.symm hb), ih clean]

/-- **No chunk loses a line feed**, and none is found twice. -/
theorem referenceNewlines_eq {chunk : ℕ} (pos : 0 < chunk) (data : List UInt8) :
    referenceNewlines chunk data = lineFeedsFrom 0 data := by
  have upTo : ∀ n, ((List.range n).flatMap fun i =>
      lineFeedsFrom (i * chunk) ((data.drop (i * chunk)).take chunk)) =
        lineFeedsFrom 0 (data.take (n * chunk)) := by
    intro n
    induction n with
    | zero => simp [lineFeedsFrom]
    | succ n ih =>
      rw [List.range_succ, List.flatMap_append, ih, List.flatMap_singleton, Nat.succ_mul,
        List.take_add, lineFeedsFrom_append, Nat.zero_add, List.length_take]
      by_cases within : n * chunk ≤ data.length
      · rw [min_eq_left within]
      · rw [List.drop_of_length_le (by omega), List.take_nil]
        rfl
  have enough : data.length ≤ (data.length + chunk - 1) / chunk * chunk := by
    have := Nat.div_add_mod (data.length + chunk - 1) chunk
    have := Nat.mod_lt (data.length + chunk - 1) pos
    rw [Nat.mul_comm]
    omega
  rw [referenceNewlines, upTo, List.take_of_length_le enough]

theorem lineFeedsFrom_ended {pieces : List (List UInt8)} {rest : List UInt8}
    (clean : ∀ piece ∈ pieces, lineFeed ∉ piece) (open_ : lineFeed ∉ rest) (start : ℕ) :
    lineFeedsFrom start (List.ended lineFeed pieces ++ rest) =
      (windows start pieces).map Prod.snd := by
  induction pieces generalizing start with
  | nil => exact lineFeedsFrom_of_not_mem open_ start
  | cons piece pieces ih =>
    obtain ⟨cleanPiece, cleanPieces⟩ := List.forall_mem_cons.1 clean
    rw [List.ended_cons, List.append_assoc, List.cons_append, lineFeedsFrom_append,
      lineFeedsFrom_of_not_mem cleanPiece, List.nil_append, lineFeedsFrom, if_pos rfl,
      ih cleanPieces]
    rfl

theorem starts_windows (start : ℕ) {frames : List (List UInt8)} (some_ : frames ≠ []) :
    start :: ((windows start frames).map Prod.snd).dropLast.map (· + 1) =
      (windows start frames).map Prod.fst := by
  induction frames generalizing start with
  | nil => exact absurd rfl some_
  | cons frame frames ih =>
    cases frames with
    | nil => rfl
    | cons next frames =>
      have := ih (start + frame.length + 1) (List.cons_ne_nil next frames)
      simp only [windows, List.map_cons, List.dropLast_cons_cons] at this ⊢
      rw [this]

theorem tailStart_windows (start : ℕ) (frames : List (List UInt8)) :
    (((windows start frames).map Prod.snd).getLast?.map (· + 1)).getD start =
      start + (List.ended lineFeed frames).length := by
  induction frames using List.reverseRecOn with
  | nil => rfl
  | append_singleton frames last ih =>
    simp [windows_concat, List.ended_append]
    omega

/-! ## The lines the fast pass takes -/

/-- A line that begins and ends with its braces. -/
def isBraced (frame : List UInt8) : Bool :=
  frame.head? == some leftBrace && frame.getLast? == some rightBrace

theorem isBraced.ne_nil {frame : List UInt8} (braced : isBraced frame = true) : frame ≠ [] := by
  rintro rfl
  cases braced

theorem frameOk_append (before frame after : List UInt8) :
    frameOk (before ++ frame ++ after) (before.length, before.length + frame.length) =
      isBraced frame := by
  cases frame with
  | nil => simp [frameOk, isBraced]
  | cons b frame =>
    have first : (before ++ (b :: frame) ++ after)[before.length]? = some b := by simp
    have last : (before ++ (b :: frame) ++ after)[before.length + (b :: frame).length - 1]? =
        (b :: frame).getLast? := by
      rw [List.append_assoc, List.getElem?_append_right (by simp),
        List.getElem?_append_left (by simp), List.getLast?_eq_getElem?]
      congr 1
      simp only [List.length_cons]
      omega
    simp only [frameOk, isBraced, first, last]
    simp

theorem all_windows (before : List UInt8) (frames : List (List UInt8)) (after : List UInt8) :
    (windows before.length frames).all
        (frameOk (before ++ List.ended lineFeed frames ++ after)) = frames.all isBraced := by
  induction frames generalizing before with
  | nil => rfl
  | cons frame frames ih =>
    have rest := ih (before ++ frame ++ [lineFeed])
    simp only [List.length_append, List.length_singleton] at rest
    have whole : before ++ List.ended lineFeed (frame :: frames) ++ after =
        before ++ frame ++ [lineFeed] ++ List.ended lineFeed frames ++ after := by
      simp
    have here : frameOk (before ++ frame ++ [lineFeed] ++ List.ended lineFeed frames ++ after)
        (before.length, before.length + frame.length) = isBraced frame := by
      have := frameOk_append before frame ([lineFeed] ++ List.ended lineFeed frames ++ after)
      simpa using this
    rw [windows, List.all_cons, List.all_cons, whole, here, rest]

theorem windows_eq_nil_iff {start : ℕ} {frames : List (List UInt8)} :
    windows start frames = [] ↔ frames = [] := by
  rw [← List.length_eq_zero_iff, length_windows, List.length_eq_zero_iff]

theorem map_writeWindow_windows {data : List UInt8} {frames : List (List UInt8)} {stop : ℕ}
    {needsNewline : Bool} (more : frames ≠ [] → 0 < stop)
    (written : data.take stop ++ (if needsNewline then [lineFeed] else []) =
      List.ended lineFeed frames) :
    Option.map (writeWindow data)
      (if frames.length = 0 then some (0, 0, 0, false)
      else if frames.all isBraced then
        some (frames.length, ((windows 0 frames).map Prod.fst).headD 0, stop, needsNewline)
      else none) =
    if frames.all isBraced then
      some ⟨List.ended lineFeed frames, .ok (frames.length, frames.length)⟩
    else none := by
  cases frames with
  | nil => rfl
  | cons frame frames =>
    have some_ := more (List.cons_ne_nil frame frames)
    rw [List.length_cons, if_neg (Nat.add_one_ne_zero _)]
    split
    · rw [Option.map_some, ← written]
      simp [writeWindow, windows, some_]
    · rfl

/-- **The fast pass.** It takes the lines within the budget when each begins
and ends with its braces, and writes them as they are. -/
theorem map_writeWindow (data : List UInt8) (take : ℤ) :
    (fastReferenceFrames data take).map (writeWindow data) =
      if ((fileLines data).take take.toNat).all isBraced then
        some ⟨List.ended lineFeed ((fileLines data).take take.toNat),
          .ok (((fileLines data).take take.toNat).length,
            ((fileLines data).take take.toNat).length)⟩
      else none := by
  by_cases spent : take ≤ 0
  · rw [fastReferenceFrames, if_pos spent, Int.toNat_of_nonpos spent]
    rfl
  obtain ⟨pieces, rest, clean, open_, hdata⟩ := List.exists_ended lineFeed data
  have lines : fileLines data = if rest = [] then pieces else pieces ++ [rest] :=
    hdata ▸ fileLines_ended clean open_
  have found : referenceNewlines scanChunk data = (windows 0 pieces).map Prod.snd := by
    rw [referenceNewlines_eq (by decide), hdata, lineFeedsFrom_ended clean open_]
  generalize hn : take.toNat = n
  have hstarts : (if (windows 0 (pieces.take n)).map Prod.snd = [] then []
      else 0 :: ((windows 0 (pieces.take n)).map Prod.snd).dropLast.map (· + 1)) =
        (windows 0 (pieces.take n)).map Prod.fst := by
    by_cases none_ : pieces.take n = []
    · simp [none_, windows]
    · rw [if_neg (by simpa [windows_eq_nil_iff] using none_), starts_windows 0 none_]
  have htail := tailStart_windows 0 (pieces.take n)
  have hzip : ∀ l : List (ℕ × ℕ), (l.map Prod.fst).zip (l.map Prod.snd) = l := fun l => by
    simp [List.zip_map']
  unfold fastReferenceFrames
  rw [if_neg spent, found, hn, ← List.map_take, ← windows_take]
  simp only [hstarts, htail, Nat.zero_add, List.length_map, length_windows]
  by_cases needs : (pieces.take n).length < n ∧
      (List.ended lineFeed (pieces.take n)).length < data.length
  · have all : pieces.take n = pieces := by
      refine List.take_of_length_le ?_
      have := needs.1
      rw [List.length_take] at this
      omega
    rw [all] at needs
    have some_ : rest ≠ [] := by
      rintro rfl
      simp [hdata] at needs
    have frames : (fileLines data).take n = pieces ++ [rest] := by
      rw [lines, if_neg some_, List.take_of_length_le (by simp; omega)]
    have ends : (windows 0 pieces).map Prod.snd ++ [data.length] =
        (windows 0 (pieces ++ [rest])).map Prod.snd := by
      simp [windows_concat, hdata]
    have starts : (windows 0 pieces).map Prod.fst ++ [(List.ended lineFeed pieces).length] =
        (windows 0 (pieces ++ [rest])).map Prod.fst := by
      simp [windows_concat]
    have passes : (windows 0 (pieces ++ [rest])).all (frameOk data) =
        (pieces ++ [rest]).all isBraced := by
      have inner : (windows 0 pieces).all (frameOk (List.ended lineFeed pieces ++ rest)) =
          pieces.all isBraced := all_windows [] pieces rest
      have outer := frameOk_append (List.ended lineFeed pieces) rest []
      rw [List.append_nil] at outer
      rw [windows_concat, List.all_append, List.all_append, hdata]
      simp [outer, inner]
    simp only [all, needs, decide_true, Bool.and_self, if_true, ends, starts, hzip, passes, frames,
      List.length_map, length_windows]
    have full : data.take data.length ++ [lineFeed] =
        List.ended lineFeed (pieces ++ [rest]) := by
      rw [List.take_length, List.ended_append, List.ended_cons, List.ended_nil, hdata]
      simp
    have stops : ((windows 0 (pieces ++ [rest])).map Prod.snd).getLastD 0 + 0 =
        data.length := by
      rw [← ends, List.getLastD_concat, Nat.add_zero]
    have more : 0 < data.length := Nat.zero_lt_of_lt needs.2
    rw [stops]
    exact map_writeWindow_windows (fun _ => more) full
  · have noMore : (decide ((pieces.take n).length < n) &&
        decide ((List.ended lineFeed (pieces.take n)).length < data.length)) = false := by
      simpa using needs
    have frames : (fileLines data).take n = pieces.take n := by
      rw [lines]
      split
      · rfl
      · next some_ =>
        refine List.take_append_of_le_length (Nat.le_of_not_lt fun short => needs ?_)
        rw [List.take_of_length_le short.le]
        refine ⟨short, ?_⟩
        rw [hdata, List.length_append]
        have := List.length_pos_iff.2 some_
        omega
    have parts : data = List.ended lineFeed (pieces.take n) ++
        (List.ended lineFeed (pieces.drop n) ++ rest) := by
      rw [← List.append_assoc, ← List.ended_append, List.take_append_drop, hdata]
    have passes : (windows 0 (pieces.take n)).all (frameOk data) =
        (pieces.take n).all isBraced := by
      conv_lhs => rw [parts]
      exact all_windows [] (pieces.take n) _
    have written : data.take (List.ended lineFeed (pieces.take n)).length =
        List.ended lineFeed (pieces.take n) := by
      conv_lhs => rw [parts, List.take_left]
    simp only [noMore, frames, Bool.false_eq_true, if_false, hzip, passes, List.length_map,
      length_windows]
    by_cases none_ : pieces.take n = []
    · simp [none_, writeWindow]
    · have stops : ((windows 0 (pieces.take n)).map Prod.snd).getLastD 0 + 1 =
          (List.ended lineFeed (pieces.take n)).length := by
        have some_ : (windows 0 (pieces.take n)).map Prod.snd ≠ [] := by
          simpa [windows_eq_nil_iff] using none_
        rw [Nat.zero_add, List.getLast?_eq_some_getLast some_] at htail
        rw [← htail, List.getLastD_eq_getLast?, List.getLast?_eq_some_getLast some_]
        rfl
      rw [stops]
      refine map_writeWindow_windows (fun _ => ?_) (by rw [written]; simp)
      rw [← stops]
      exact Nat.succ_pos _

/-! ## The two passes -/

theorem content_of_isBraced {frame : List UInt8} (braced : isBraced frame = true) :
    content frame = frame ∧ foldReturn frame = frame := by
  obtain ⟨first, last⟩ := Bool.and_eq_true_iff.1 braced
  have hfirst : frame.head? = some leftBrace := eq_of_beq first
  have hlast : frame.getLast? = some rightBrace := eq_of_beq last
  have kept : frame.dropWhile isSpaceByte = frame := by
    cases frame with
    | nil => rfl
    | cons b frame =>
      obtain rfl : b = leftBrace := by simpa using hfirst
      rfl
  refine ⟨?_, ?_⟩
  · rw [content, kept]
    obtain ⟨front, rfl⟩ : ∃ front, frame = front ++ [rightBrace] :=
      ⟨frame.dropLast, (List.dropLast_append_getLast? _ hlast).symm⟩
    exact List.rdropWhile_concat_neg _ _ _ (by decide)
  · rw [foldReturn, hlast, if_neg (by decide)]

theorem isWrapped_of_isBraced {frame : List UInt8} (braced : isBraced frame = true) :
    isWrapped frame = true := by
  rw [isWrapped, (content_of_isBraced braced).1]
  exact braced

theorem framesFrom_of_isBraced {frames : List (List UInt8)} (raw appended : ℕ)
    (braced : frames.all isBraced = true) :
    framesFrom frames raw appended =
      ⟨List.ended lineFeed frames, .ok (raw + frames.length, appended + frames.length)⟩ := by
  induction frames generalizing raw appended with
  | nil => rfl
  | cons frame frames ih =>
    rw [List.all_cons, Bool.and_eq_true] at braced
    have same := content_of_isBraced braced.1
    have holds : content frame ≠ [] := same.1.symm ▸ isBraced.ne_nil braced.1
    rw [framesFrom, if_neg holds, if_pos (isWrapped_of_isBraced braced.1), ih _ _ braced.2, same.2]
    simp [Nat.add_assoc, Nat.add_comm 1]

/-- **The fast pass writes what the loop writes.** -/
theorem streamReferenceLines_eq_perFrame (data : List UInt8) (take : ℤ) :
    streamReferenceLines data take = streamPerFrame data take := by
  unfold streamReferenceLines streamPerFrame
  split
  · rfl
  have fast := map_writeWindow data take
  split
  · next window found =>
    rw [found, Option.map_some] at fast
    split at fast
    · next braced =>
      rw [Option.some.inj fast, perFrame_eq, framesFrom_of_isBraced 0 0 braced]
      simp
    · cases fast
  · rfl

theorem isSome_decode_of_isAscii {data : List UInt8} (ascii : isAscii data = true) :
    (Utf8.decode data).isSome = true := by
  induction data with
  | nil => rfl
  | cons b data ih =>
    rw [isAscii, List.all_cons, Bool.and_eq_true] at ascii
    have := Utf8.decode_append_ascii [] (of_decide_eq_true ascii.1) data
    rw [List.nil_append] at this
    obtain ⟨text, decoded⟩ := Option.isSome_iff_exists.1 (ih ascii.2)
    rw [this, decoded]
    rfl

/-- A line that holds nothing but white space. -/
def isBlank (frame : List UInt8) : Bool := (content frame).isEmpty

/-- A line that raises: it holds something that does not stand in braces. -/
def isCorrupt (frame : List UInt8) : Bool := !isBlank frame && !isWrapped frame

/-- A line as it is written: without its carriage return, with a line feed. -/
def referenceLine (frame : List UInt8) : List UInt8 := foldReturn frame ++ [lineFeed]

/-- What is to be made of lines: those that hold something are written, up to
the first that has to raise. -/
def account (frames : List (List UInt8)) : Streamed where
  out := ((frames.takeWhile (!isCorrupt ·)).filter (!isBlank ·)).flatMap referenceLine
  outcome :=
    match frames.find? isCorrupt with
    | some frame => .error (notAnObject frame)
    | none => .ok (frames.length, (frames.filter (!isBlank ·)).length)

theorem framesFrom_eq (frames : List (List UInt8)) (raw appended : ℕ) :
    framesFrom frames raw appended =
      ⟨(account frames).out, (account frames).outcome.map fun counts =>
        (raw + counts.1, appended + counts.2)⟩ := by
  induction frames generalizing raw appended with
  | nil => rfl
  | cons frame frames ih =>
    by_cases blank : content frame = []
    · have isBlank_ : isBlank frame = true := by simp [isBlank, blank]
      have sound : isCorrupt frame = false := by simp [isCorrupt, isBlank_]
      rw [framesFrom, if_pos blank, ih]
      simp only [account, List.takeWhile_cons, List.find?_cons, List.filter_cons, sound, isBlank_,
        Bool.not_true, Bool.not_false, if_true, Bool.false_eq_true, if_false, List.length_cons]
      cases frames.find? isCorrupt with
      | none =>
        simp [Except.map]
        omega
      | some corrupt => rfl
    · have holds : isBlank frame = false := by simpa [isBlank] using blank
      rw [framesFrom, if_neg blank]
      cases wrapped : isWrapped frame with
      | true =>
        have sound : isCorrupt frame = false := by simp [isCorrupt, wrapped]
        rw [if_pos rfl, ih]
        simp only [account, List.takeWhile_cons, List.find?_cons, List.filter_cons, sound, holds,
          Bool.not_false, if_true, List.length_cons, List.flatMap_cons, referenceLine]
        cases frames.find? isCorrupt with
        | none =>
          simp [Except.map]
          omega
        | some corrupt => rfl
      | false =>
        have corrupt : isCorrupt frame = true := by simp [isCorrupt, holds, wrapped]
        simp [account, corrupt, Except.map]

/-- **What a stream of lines writes and raises.** With its fast pass it is the
loop alone. Bytes that are no text raise before anything is written; else the
lines within the budget are accounted for. -/
theorem stream_reference_lines (data : List UInt8) (take : ℤ) :
    streamReferenceLines data take = streamPerFrame data take ∧
    streamReferenceLines data take =
      if Utf8.decode data = none then ⟨[], .error .undecodable⟩
      else account ((fileLines data).take take.toNat) := by
  refine ⟨streamReferenceLines_eq_perFrame data take, ?_⟩
  rw [streamReferenceLines_eq_perFrame, streamPerFrame]
  by_cases undecodable : Utf8.decode data = none
  · have wide : isAscii data = false := by
      by_contra ascii
      have := isSome_decode_of_isAscii (Bool.not_eq_false _ |>.mp ascii)
      rw [undecodable] at this
      cases this
    simp [undecodable, wide]
  · have some_ : (Utf8.decode data).isNone = false :=
      Option.isNone_eq_false_iff.2 (Option.isSome_iff_ne_none.2 undecodable)
    rw [some_, Bool.and_false, if_neg Bool.false_ne_true, if_neg undecodable, perFrame_eq,
      framesFrom_eq]
    generalize account ((fileLines data).take take.toNat) = streamed
    obtain ⟨out, raised | counts⟩ := streamed <;> simp [Except.map]

/-- How every JSON object begins: behind its brace and white space stands the
quote of a name, or the brace that closes it. -/
def beginsObject (text : List UInt8) : Bool :=
  match text with
  | [] => false
  | b :: rest =>
    b == leftBrace &&
      [some (0x22 : UInt8), some rightBrace].contains (rest.dropWhile isSpaceByte).head?

/-- The line `{x}`, which stands in braces and is no JSON object. -/
def bracedLine : List UInt8 := [0x7B, 0x78, 0x7D]

/-- It is written all the same, by the fast pass and by the loop. -/
theorem writes_no_object :
    (streamReferenceLines (bracedLine ++ [lineFeed]) 1).out = bracedLine ++ [lineFeed] ∧
    beginsObject bracedLine = false := by
  decide +kernel

end ReferenceLines
