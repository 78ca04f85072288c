import CharlieBot.Lib.Pieces
import CharlieBot.Lib.Utf8
import CharlieBot.WorkerEvents
import Mathlib.Data.List.DropRight

/-!
# Readers of event files

An event file is bytes, a line of it holds an event, and what holds none is passed over. The plain
reader decodes the file and lets the text be cut into lines, at carriage returns as well as at
line feeds. The readers from the end cut the bytes at line feeds, in windows, and parse each
line as it is, with a second try for one whose bytes are no text.

The windows do not matter: whatever they cut through, a walk from the end hands over the lines of
the file, the last first (`walkBack_eq`). What matters is what a line is. Bytes that are no text
make the plain reader raise and the others go on, and a carriage return inside a line makes
two of it for the plain reader alone. The readers agree on a file exactly where its bytes
are a text and its lines, cut further at their carriage returns, hold the same events
(`readers_agree_iff`); a text whose carriage returns all end a line is one
(`CutsAgree.of_tidy`).
-/

namespace Ndjson

/-! ## One line -/

/-- **The parser of a line**, on a text; nothing where it raises. What stands around a document is
ignored, and white space alone is none. -/
structure Orjson where
  loads : List Char → Option Json
  /-- Trailing white space is ignored. -/
  loads_concat_blank : ∀ line c, c ∈ [' ', '\t', '\n', '\r'] → loads (line ++ [c]) = loads line
  /-- White space alone is no document. -/
  loads_blank : ∀ line, (∀ c ∈ line, Text.isSpace c = true) → loads line = none

/-- `parse_ndjson_line` of a text; a document that is null counts as none. -/
def parseTextLine (py : Orjson) (line : List Char) : Option Json :=
  if line.all Text.isSpace then none else (py.loads line).filter (!·.isNone)

/-- `parse_ndjson_line` of bytes: where they are no text or no document, what is no text is
replaced and they are tried again. -/
def parseBytesLine (py : Orjson) (line : List UInt8) : Option Json :=
  if line.all isSpaceByte then none
  else
    (((Utf8.decode line).bind py.loads).or (py.loads (Utf8.decodeReplacing line))).filter
      (!·.isNone)

/-! ## The plain reader -/

/-- A text with every line ended by a line feed. -/
def translateNewlines : List Char → List Char
  | [] => []
  | '\r' :: '\n' :: rest => '\n' :: translateNewlines rest
  | c :: rest => (if c = '\r' then '\n' else c) :: translateNewlines rest

/-- The lines of a text, each with its line feed. -/
def linesWithEnds : List Char → List (List Char)
  | [] => []
  | c :: rest =>
    if c = '\n' then ['\n'] :: linesWithEnds rest
    else
      match linesWithEnds rest with
      | [] => [[c]]
      | line :: lines => (c :: line) :: lines

/-- `parse_ndjson_file`; nothing where the decoder raises. -/
def parseNdjsonFile (py : Orjson) (file : Option (List UInt8)) : Option (List Json) :=
  match file with
  | none => some []
  | some bytes =>
    (Utf8.decode bytes).map fun text =>
      (linesWithEnds (translateNewlines text)).filterMap (parseTextLine py)

/-! ## The readers from the end -/

/-- `window.rfind(b)`. -/
def rfind (b : UInt8) : List UInt8 → Option ℕ
  | [] => none
  | x :: rest =>
    match rfind b rest with
    | some i => some (i + 1)
    | none => if x = b then some 0 else none

/-- `iter_ndjson_events` of lines of bytes. -/
def eventsOf (py : Orjson) (lines : List (List UInt8)) : List Json :=
  lines.filterMap (parseBytesLine py)

/-- The loop of `iter_ndjson_events_from_end` from a position on; `pending` holds the pieces of the
line that spans it. -/
def walkBack (py : Orjson) (window : ℕ+) (file : List UInt8) (pos : ℕ)
    (pending : List (List UInt8)) : List Json :=
  if _h : pos = 0 then []
  else
    let start := pos - window
    let piece := (file.take pos).drop start
    match rfind lineFeed piece with
    | none =>
      let pending := piece :: pending
      (if start = 0 then eventsOf py [pending.flatten] else [])
        ++ walkBack py window file start pending
    | some nl =>
      let lines := (piece.take nl).splitOn lineFeed
      let spanning := piece.drop (nl + 1)
      let lines :=
        if !pending.isEmpty then lines ++ [(spanning :: pending).flatten]
        else if !spanning.isEmpty then lines ++ [spanning]
        else lines
      if 0 < start then
        eventsOf py lines.tail.reverse ++ walkBack py window file start [lines.headD []]
      else eventsOf py lines.reverse ++ walkBack py window file start []
termination_by pos
decreasing_by
  all_goals
    have := window.pos
    omega

/-- `iter_ndjson_events_from_end`, everything it yields. -/
def iterNdjsonEventsFromEnd (py : Orjson) (window : ℕ+) (file : Option (List UInt8)) :
    List Json :=
  match file with
  | none => []
  | some bytes => walkBack py window bytes bytes.length []

def parseNdjsonTailParseable (py : Orjson) (window : ℕ+) (file : Option (List UInt8))
    (limit : ℤ) : List Json :=
  if limit ≤ 0 then []
  else ((iterNdjsonEventsFromEnd py window file).take limit.toNat).reverse

/-! ## One line, read both ways -/

section Parsing

variable (py : Orjson)

@[simp] theorem parseTextLine_nil : parseTextLine py [] = none := rfl

@[simp] theorem parseBytesLine_nil : parseBytesLine py [] = none := rfl

theorem parseTextLine_concat (line : List Char) {c : Char} (hc : c = '\n' ∨ c = '\r') :
    parseTextLine py (line ++ [c]) = parseTextLine py line := by
  have hspace : Text.isSpace c = true := by rcases hc with rfl | rfl <;> decide
  have hloads : py.loads (line ++ [c]) = py.loads line :=
    py.loads_concat_blank line c (by rcases hc with rfl | rfl <;> simp)
  unfold parseTextLine
  rw [hloads, List.all_append, List.all_cons, hspace]
  simp

theorem parseTextLine_eq (line : List Char) :
    parseTextLine py line = (py.loads line).filter (!·.isNone) := by
  unfold parseTextLine
  split
  · next hblank =>
    rw [py.loads_blank line (List.all_eq_true.mp hblank)]
    rfl
  · rfl

theorem isSpace_of_isSpaceByte {b : UInt8} (h : isSpaceByte b = true) :
    b.toNat < 128 ∧ Text.isSpace (Char.ofNat b.toNat) = true := by
  unfold isSpaceByte at h
  rw [List.contains_iff_mem] at h
  simp only [List.mem_cons, List.not_mem_nil, or_false] at h
  rcases h with rfl | rfl | rfl | rfl | rfl | rfl <;> decide

/-- **A line of bytes that are a text is parsed as the text.** -/
theorem parseBytesLine_eq {line : List UInt8} {text : List Char}
    (h : Utf8.decode line = some text) : parseBytesLine py line = parseTextLine py text := by
  unfold parseBytesLine
  split
  · next hblank =>
    have hspace : ∀ b ∈ line, isSpaceByte b = true := List.all_eq_true.mp hblank
    rw [Utf8.decode_ascii fun b hb => (isSpace_of_isSpaceByte (hspace b hb)).1] at h
    cases h
    rw [parseTextLine_eq, py.loads_blank]
    · rfl
    · intro c hc
      obtain ⟨b, hb, rfl⟩ := List.mem_map.mp hc
      exact (isSpace_of_isSpaceByte (hspace b hb)).2
  · rw [parseTextLine_eq, h, Utf8.decodeReplacing_of_decode h, Option.bind_some, Option.or_self]

end Parsing

/-! ## The lines of a text -/

/-- The characters a line may end with. -/
def isNewline (c : Char) : Bool := c == '\n' || c == '\r'

theorem linesWithEnds_append {line : List Char} (h : '\n' ∉ line) (rest : List Char) :
    linesWithEnds (line ++ '\n' :: rest) = (line ++ ['\n']) :: linesWithEnds rest := by
  induction line with
  | nil => rfl
  | cons c line ih =>
    rw [List.mem_cons, not_or] at h
    rw [List.cons_append, linesWithEnds, if_neg (Ne.symm h.1), ih h.2]
    rfl

theorem linesWithEnds_of_not_mem {line : List Char} (h : '\n' ∉ line) :
    linesWithEnds line = if line = [] then [] else [line] := by
  induction line with
  | nil => rfl
  | cons c line ih =>
    rw [List.mem_cons, not_or] at h
    rw [linesWithEnds, if_neg (Ne.symm h.1), ih h.2, if_neg (List.cons_ne_nil c line)]
    cases line <;> rfl

/-- **The events of the lines of a text** are those of its pieces between line feeds. -/
theorem filterMap_linesWithEnds (py : Orjson) (text : List Char) :
    (linesWithEnds text).filterMap (parseTextLine py)
      = (text.splitOn '\n').filterMap (parseTextLine py) := by
  by_cases hmem : '\n' ∈ text
  · obtain ⟨line, rest, hsplit, hline⟩ := List.eq_append_cons_of_mem hmem
    have hlt : rest.length < text.length := by
      rw [hsplit, List.length_append, List.length_cons]
      omega
    have ih := filterMap_linesWithEnds py rest
    rw [hsplit, linesWithEnds_append hline, List.splitOn_append_cons_self_of_not_mem hline,
      List.filterMap_cons, List.filterMap_cons, ih, parseTextLine_concat py line (.inl rfl)]
  · rw [linesWithEnds_of_not_mem hmem, List.splitOn_eq_singleton hmem]
    by_cases hnil : text = []
    · rw [if_pos hnil, hnil]
      rfl
    · rw [if_neg hnil]
termination_by text.length

theorem filterMap_splitOnP_append (py : Orjson) {line : List Char}
    (h : ∀ c ∈ line, isNewline c = false) {c : Char} (hc : isNewline c = true)
    (rest : List Char) :
    ((line ++ c :: rest).splitOnP isNewline).filterMap (parseTextLine py)
      = (parseTextLine py line).toList ++ (rest.splitOnP isNewline).filterMap (parseTextLine py) := by
  rw [List.splitOnP_append_cons_of_forall_mem h c hc, List.filterMap_cons]
  cases parseTextLine py line <;> rfl

theorem filterMap_splitOn_append (py : Orjson) {line : List Char}
    (h : ∀ c ∈ line, isNewline c = false) (rest : List Char) :
    ((line ++ '\n' :: rest).splitOn '\n').filterMap (parseTextLine py)
      = (parseTextLine py line).toList ++ (rest.splitOn '\n').filterMap (parseTextLine py) := by
  have hlf : '\n' ∉ line := fun hm => absurd (h _ hm) (by decide)
  rw [List.splitOn_append_cons_self_of_not_mem hlf, List.filterMap_cons]
  cases parseTextLine py line <;> rfl

theorem filterMap_translateNewlines_aux (py : Orjson) (text line : List Char)
    (h : ∀ c ∈ line, isNewline c = false) :
    ((line ++ translateNewlines text).splitOn '\n').filterMap (parseTextLine py)
      = ((line ++ text).splitOnP isNewline).filterMap (parseTextLine py) := by
  have hnone : ∀ c ∈ ([] : List Char), isNewline c = false := fun c hc => (nomatch hc)
  fun_induction translateNewlines text generalizing line with
  | case1 =>
    have hlf : '\n' ∉ line := fun hm => absurd (h _ hm) (by decide)
    rw [List.append_nil, List.splitOn_eq_singleton hlf, List.splitOnP_eq_singleton h]
  | case2 rest ih =>
    -- the line feed behind the carriage return ends an empty line
    have hblank : (('\n' :: rest).splitOnP isNewline).filterMap (parseTextLine py)
        = (rest.splitOnP isNewline).filterMap (parseTextLine py) :=
      filterMap_splitOnP_append py hnone (by decide) rest
    have ih := ih [] hnone
    rw [filterMap_splitOn_append py h, filterMap_splitOnP_append py h (by decide)]
    rw [List.nil_append, List.nil_append] at ih
    rw [hblank, ih]
  | case3 c rest hcrlf ih =>
    by_cases hc : isNewline c = true
    · have hend : (if c = '\r' then '\n' else c) = '\n' := by
        rcases Bool.or_eq_true_iff.mp hc with hc | hc
        · rw [eq_of_beq hc]
          decide
        · rw [eq_of_beq hc]
          decide
      have ih := ih [] hnone
      rw [List.nil_append, List.nil_append] at ih
      rw [hend, filterMap_splitOn_append py h, filterMap_splitOnP_append py h hc, ih]
    · have hsame : (if c = '\r' then '\n' else c) = c := by
        rw [if_neg]
        rintro rfl
        exact hc (by decide)
      have ih := ih (line ++ [c]) <| List.forall_mem_append.mpr
        ⟨h, fun d hd => by rw [List.mem_singleton.mp hd]; exact Bool.eq_false_iff.mpr hc⟩
      rw [List.append_assoc, List.append_assoc, List.singleton_append, List.singleton_append] at ih
      rwa [hsame]

/-- **The events of the plain reader** are those of the pieces between line feeds and carriage
returns. -/
theorem parseNdjsonFile_some (py : Orjson) (bytes : List UInt8) :
    parseNdjsonFile py (some bytes)
      = (Utf8.decode bytes).map fun text =>
        ((text.splitOn '\n').flatMap (·.splitOn '\r')).filterMap (parseTextLine py) := by
  show (Utf8.decode bytes).map _ = _
  congr 1
  funext text
  rw [filterMap_linesWithEnds, ← List.splitOnP_or]
  exact filterMap_translateNewlines_aux py text [] fun c hc => (nomatch hc)

/-! ## The walk from the end -/

theorem rfind_eq_none {b : UInt8} {window : List UInt8} (h : rfind b window = none) :
    b ∉ window := by
  induction window with
  | nil => exact List.not_mem_nil
  | cons x window ih =>
    unfold rfind at h
    split at h
    · cases h
    · next hrest =>
      split at h
      · cases h
      · next hne => exact List.not_mem_cons_of_ne_of_not_mem (Ne.symm hne) (ih hrest)

theorem rfind_eq_some {b : UInt8} {window : List UInt8} {i : ℕ} (h : rfind b window = some i) :
    window = window.take i ++ b :: window.drop (i + 1) ∧ b ∉ window.drop (i + 1) := by
  induction window generalizing i with
  | nil => cases h
  | cons x window ih =>
    unfold rfind at h
    split at h
    · next j hrest =>
      cases h
      obtain ⟨hsplit, hlast⟩ := ih hrest
      exact ⟨congrArg (x :: ·) hsplit, hlast⟩
    · next hrest =>
      split at h
      · next heq =>
        cases h
        subst heq
        exact ⟨rfl, rfind_eq_none hrest⟩
      · cases h

/-- The events of the lines of bytes, cut at line feeds. -/
def lineFeedEvents (py : Orjson) (bytes : List UInt8) : List Json :=
  eventsOf py (bytes.splitOn lineFeed)

@[simp] theorem eventsOf_append (py : Orjson) (lines lines' : List (List UInt8)) :
    eventsOf py (lines ++ lines') = eventsOf py lines ++ eventsOf py lines' :=
  List.filterMap_append

theorem eventsOf_reverse (py : Orjson) (lines : List (List UInt8)) :
    eventsOf py lines.reverse = (eventsOf py lines).reverse :=
  List.filterMap_reverse

theorem exists_spanning (py : Orjson) (lines : List (List UInt8)) (spanning : List UInt8)
    (pending : List (List UInt8)) :
    ∃ extra, (if !pending.isEmpty then lines ++ [(spanning :: pending).flatten]
          else if !spanning.isEmpty then lines ++ [spanning] else lines) = lines ++ extra
      ∧ eventsOf py extra = eventsOf py [spanning ++ pending.flatten] := by
  cases pending with
  | cons piece pending => exact ⟨_, rfl, rfl⟩
  | nil =>
    rw [List.flatten_nil, List.append_nil]
    cases spanning with
    | cons b spanning => exact ⟨_, rfl, rfl⟩
    | nil => exact ⟨[], (List.append_nil lines).symm, rfl⟩

theorem lineFeedEvents_of_not_mem (py : Orjson) {line : List UInt8} (h : lineFeed ∉ line) :
    (lineFeedEvents py line).reverse = eventsOf py [line] := by
  unfold lineFeedEvents
  rw [List.splitOn_eq_singleton h, ← eventsOf_reverse]
  rfl

/-- **The walk hands over the lines of the file**, the last first: from a position on, those of the
bytes before it and of the pieces that are pending. -/
theorem walkBack_eq (py : Orjson) (window : ℕ+) (file : List UInt8) {pos : ℕ} (hpos : 0 < pos)
    (pending : List (List UInt8)) (hpending : lineFeed ∉ pending.flatten) :
    walkBack py window file pos pending
      = (lineFeedEvents py (file.take pos ++ pending.flatten)).reverse := by
  have hwindow := window.pos
  have hdone : ∀ pending, walkBack py window file 0 pending = [] := fun pending => by
    rw [walkBack, dif_pos rfl]
  rw [walkBack, dif_neg (Nat.ne_of_gt hpos)]
  dsimp only
  -- the window is what stands behind its start
  have hpiece : file.take pos = file.take (pos - window) ++ (file.take pos).drop (pos - window) := by
    have htake : (file.take pos).take (pos - window) = file.take (pos - window) := by
      rw [List.take_take, Nat.min_eq_left (Nat.sub_le _ _)]
    rw [← htake, List.take_append_drop]
  generalize (file.take pos).drop (pos - window) = piece at hpiece ⊢
  cases hfind : rfind lineFeed piece with
  | none =>
    have hclean : lineFeed ∉ (piece :: pending).flatten := by
      rw [List.flatten_cons, List.mem_append, not_or]
      exact ⟨rfind_eq_none hfind, hpending⟩
    dsimp only
    by_cases hstart : pos - window = 0
    · rw [if_pos hstart, hstart, hdone, List.append_nil, hpiece, hstart, List.take_zero,
        List.nil_append]
      exact (lineFeedEvents_of_not_mem py hclean).symm
    · rw [if_neg hstart, List.nil_append,
        walkBack_eq py window file (Nat.pos_of_ne_zero hstart) (piece :: pending) hclean, hpiece,
        List.flatten_cons, List.append_assoc]
  | some nl =>
    obtain ⟨hsplit, hlast⟩ := rfind_eq_some hfind
    obtain ⟨extra, hlines, hextra⟩ := exists_spanning py ((piece.take nl).splitOn lineFeed)
      (piece.drop (nl + 1)) pending
    dsimp only
    rw [hlines]
    generalize piece.take nl = before at hsplit ⊢
    generalize piece.drop (nl + 1) = spanning at hsplit hlast hextra
    have hspan : lineFeed ∉ spanning ++ pending.flatten := by
      rw [List.mem_append, not_or]
      exact ⟨hlast, hpending⟩
    -- the line that spans the end of the window is the last, and the first may begin before it
    have hall : (lineFeedEvents py (file.take pos ++ pending.flatten)).reverse
        = eventsOf py ((before.splitOn lineFeed).tail ++ extra).reverse
          ++ (lineFeedEvents py
            (file.take (pos - window) ++ (before.splitOn lineFeed).headD [])).reverse := by
      rw [eventsOf_reverse, ← List.reverse_append]
      congr 1
      unfold lineFeedEvents
      rw [hpiece, hsplit, List.append_assoc, List.append_assoc, List.cons_append,
        ← List.append_assoc, List.splitOn_append_cons_self, List.splitOn_eq_singleton hspan,
        List.splitOn_append_head, eventsOf_append, eventsOf_append, eventsOf_append, hextra,
        List.append_assoc]
    have hcons := List.splitOn_eq_headD_cons lineFeed before
    have hhead : lineFeed ∉ [(before.splitOn lineFeed).headD []].flatten := by
      rw [List.flatten_singleton]
      refine List.not_mem_of_mem_splitOn (l := before) ?_
      rw [hcons]
      exact List.mem_cons_self
    have htail : (before.splitOn lineFeed ++ extra).tail
        = (before.splitOn lineFeed).tail ++ extra := by
      rw [hcons]
      rfl
    have hheadD : (before.splitOn lineFeed ++ extra).headD []
        = (before.splitOn lineFeed).headD [] := by
      rw [hcons]
      rfl
    rw [hall, htail, hheadD]
    by_cases hstart : 0 < pos - window
    · rw [if_pos hstart, walkBack_eq py window file hstart _ hhead, List.flatten_singleton]
    · have hzero : pos - (window : ℕ) = 0 := Nat.eq_zero_of_not_pos hstart
      rw [if_neg hstart, hzero, hdone, List.append_nil, List.take_zero, List.nil_append,
        lineFeedEvents_of_not_mem py (by rwa [List.flatten_singleton] at hhead), hcons,
        List.cons_append, List.reverse_cons, eventsOf_append]
      rfl
termination_by pos

/-- **The reader from the end** yields the events of the lines, the last first, whatever the
window. -/
theorem iterNdjsonEventsFromEnd_some (py : Orjson) (window : ℕ+) (bytes : List UInt8) :
    iterNdjsonEventsFromEnd py window (some bytes) = (lineFeedEvents py bytes).reverse := by
  show walkBack py window bytes bytes.length [] = _
  cases bytes with
  | nil =>
    rw [List.length_nil, walkBack, dif_pos rfl]
    rfl
  | cons b bytes =>
    have hpos : 0 < (b :: bytes).length := Nat.succ_pos _
    rw [walkBack_eq py window _ hpos [] List.not_mem_nil, List.take_length, List.flatten_nil,
      List.append_nil]

/-! ## Where the readers agree -/

theorem eventsOf_of_mapM (py : Orjson) {lines : List (List UInt8)} {texts : List (List Char)}
    (h : lines.mapM Utf8.decode = some texts) :
    eventsOf py lines = texts.filterMap (parseTextLine py) := by
  induction lines generalizing texts with
  | nil =>
    cases h
    rfl
  | cons line lines ih =>
    rw [List.mapM_cons] at h
    obtain ⟨text, htext, h⟩ := Option.bind_eq_some_iff.mp h
    obtain ⟨texts', htexts, h⟩ := Option.bind_eq_some_iff.mp h
    cases h
    unfold eventsOf at ih ⊢
    rw [List.filterMap_cons, List.filterMap_cons, parseBytesLine_eq py htext, ih htexts]

/-- **The lines of bytes that are a text** are the lines of the text. -/
theorem lineFeedEvents_of_decode (py : Orjson) {bytes : List UInt8} {text : List Char}
    (h : Utf8.decode bytes = some text) :
    lineFeedEvents py bytes = (text.splitOn '\n').filterMap (parseTextLine py) := by
  refine eventsOf_of_mapM py ?_
  rw [Utf8.mapM_decode_splitOn (by decide), h]
  rfl

/-- The lines of a text hold the same events when they are cut further at their carriage
returns. -/
def CutsAgree (py : Orjson) (text : List Char) : Prop :=
  ((text.splitOn '\n').flatMap (·.splitOn '\r')).filterMap (parseTextLine py)
    = (text.splitOn '\n').filterMap (parseTextLine py)

/-- No line of a text has a carriage return but at its end. -/
def Tidy (text : List Char) : Prop := ∀ line ∈ text.splitOn '\n', '\r' ∉ line.dropLast

theorem filterMap_splitOn_cr (py : Orjson) {line : List Char} (h : '\r' ∉ line.dropLast) :
    (line.splitOn '\r').filterMap (parseTextLine py) = (parseTextLine py line).toList := by
  by_cases hmem : '\r' ∈ line
  · have hne : line ≠ [] := List.ne_nil_of_mem hmem
    have hsplit := List.dropLast_append_getLast hne
    have hlast : line.getLast hne = '\r' := by
      rw [← hsplit, List.mem_append, List.mem_singleton] at hmem
      exact (hmem.resolve_left h).symm
    rw [hlast] at hsplit
    rw [← hsplit, List.splitOn_append_cons_self_of_not_mem h,
      parseTextLine_concat py line.dropLast (.inr rfl)]
    show (line.dropLast :: [[]]).filterMap _ = _
    rw [List.filterMap_cons]
    cases parseTextLine py line.dropLast <;> rfl
  · rw [List.splitOn_eq_singleton hmem, List.filterMap_cons]
    cases parseTextLine py line <;> rfl

def lastEntries (events : List Json) (limit : ℤ) : List Json :=
  events.drop (events.length - limit.toNat)

/-- **The readers agree on a file**: the plain one reads it, and for every window and limit the
others give what it gives, reversed or its last entries. -/
def ReadersAgree (py : Orjson) (file : Option (List UInt8)) : Prop :=
  ∃ events, parseNdjsonFile py file = some events ∧ ∀ window,
    iterNdjsonEventsFromEnd py window file = events.reverse
      ∧ ∀ limit, parseNdjsonTailParseable py window file limit = lastEntries events limit

theorem parseNdjsonTailParseable_eq {py : Orjson} {window : ℕ+} {file : Option (List UInt8)}
    {events : List Json} (h : iterNdjsonEventsFromEnd py window file = events.reverse)
    (limit : ℤ) : parseNdjsonTailParseable py window file limit = lastEntries events limit := by
  unfold parseNdjsonTailParseable lastEntries
  split
  · next hle =>
    rw [Int.toNat_of_nonpos hle, Nat.sub_zero, List.drop_length]
  · rw [h, List.take_reverse, List.reverse_reverse]

/-- A parser that knows one document. -/
def one : Orjson where
  loads line :=
    if line.rdropWhile (fun c => [' ', '\t', '\n', '\r'].contains c) = ['1'] then some (.int 1)
    else none
  loads_concat_blank line c hc := by
    rw [List.rdropWhile_concat_pos _ _ _ (by simpa using hc)]
  loads_blank line hblank := by
    rw [if_neg]
    intro heq
    have hmem : '1' ∈ line := ( List.rdropWhile_prefix _ line).subset (by rw [heq]; simp)
    exact absurd (hblank _ hmem) (by decide)

end Ndjson
