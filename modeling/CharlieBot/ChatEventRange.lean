import CharlieBot.EventTypes
import CharlieBot.Lib.KeyedLog
import CharlieBot.Lib.Lines
import CharlieBot.Lib.Stamped
import CharlieBot.Lib.Transition

/-!
# Reading a range of chat events

A session's events are the lines of its archive files and, behind them, of
its live file. A page asks for a range of them by global index. The
archived part is served from parsed files, memoized on their signature;
the live part from a memo that covers the file from some line to its end
and is extended: forward when the file has grown, backward by a walk from
the covered part's first byte when a page reaches further up, and from the
end of the file when nothing is covered. Where none of that works the file
is read whole.

Whatever was read before, **a range read returns the events of the range**
(`loadChatEventsRange_eq_slice`), provided the memo is true to the file.
Appends keep it so. An archive rotation does as well, unless it gives the
live file the very inode number the resident memo was built on: the memo
tells a grown file from a replaced one by that number alone
(`slice_of_guarded`).
-/

/-! ## The files -/

section

variable (parse : List UInt8 → Option Event)

/-- **A line that holds an event.** -/
structure EventRow extends TextLine where
  event : Event
  parses : parse text = some event

/-- **The live file.** -/
structure LiveFile where
  rows : List (EventRow parse) := []
  /-- The modification time. -/
  mtime : ℕ := 0
  ino : ℕ := 0
  past : List StatSignature := []

/-- **The files of a session.** -/
structure ChatFiles where
  /-- The archive files, by week. -/
  archive : KeyedLog (EventRow parse) := KeyedLog.empty
  /-- The modification time of a week's file. -/
  archiveMtime : ℕ → ℕ := fun _ => 0
  /-- The signatures a week's file had before. -/
  archivePast : ℕ → List StatSignature := fun _ => []
  archivesDir : StatSignature := (0, 0)
  archivesDirPast : List StatSignature := []
  live : LiveFile parse := {}
  /-- The number of archived events, from the session's metadata. -/
  archiveOffset : ℕ := 0

end

variable {parse : List UInt8 → Option Event}

/-- The line, ended by a line feed alone. -/
def EventRow.plain (r : EventRow parse) : EventRow parse :=
  { r with toTextLine := r.toTextLine.plain }

def rowBytes (rows : List (EventRow parse)) : List UInt8 :=
  bytesOf (rows.map EventRow.toTextLine)

def rowEvents (rows : List (EventRow parse)) : List Event := rows.map EventRow.event

theorem rowBytes_append (rows rows' : List (EventRow parse)) :
    rowBytes (rows ++ rows') = rowBytes rows ++ rowBytes rows' := by
  unfold rowBytes
  rw [List.map_append, bytesOf_append]

theorem map_parse_rows (rows : List (EventRow parse)) :
    ((rows.map EventRow.toTextLine).map TextLine.text).map parse
      = rows.map fun r => some r.event := by
  rw [List.map_map, List.map_map]
  exact List.map_congr_left fun r _ => r.parses

namespace LiveFile

def bytes (f : LiveFile parse) : List UInt8 := rowBytes f.rows

/-- `st_size`. -/
def size (f : LiveFile parse) : ℕ := f.bytes.length

def source {S : Type*} (f : LiveFile parse) (value : S) : StampedSource StatSignature S :=
  ⟨⟨value, (f.mtime, f.size)⟩, f.past⟩

end LiveFile

namespace ChatFiles

/-- The lines of a week's file. -/
def archiveRows (f : ChatFiles parse) (week : ℕ) : List (EventRow parse) :=
  (f.archive.files.lookup week).getD []

/-- The events of a week's file, under its signature. -/
def archiveSource (f : ChatFiles parse) (week : ℕ) :
    StampedSource StatSignature (List Event) :=
  ⟨⟨rowEvents (f.archiveRows week),
    (f.archiveMtime week, (rowBytes (f.archiveRows week)).length)⟩, f.archivePast week⟩

/-- The list of archive files, under the directory's signature. -/
def archivesDirSource (f : ChatFiles parse) : StampedSource StatSignature (List ℕ) :=
  ⟨⟨f.archive.files.map Prod.fst, f.archivesDir⟩, f.archivesDirPast⟩

end ChatFiles

/-- **The whole sequence of events**: archive, then live. -/
def ChatFiles.events (f : ChatFiles parse) : List Event :=
  rowEvents (f.archive.entries ++ f.live.rows)

/-- The parsed events of a file's bytes. -/
def parsedEvents (parse : List UInt8 → Option Event) (buf : List UInt8) : List Event :=
  (segments buf).1.filterMap parse

theorem parsedEvents_rowBytes (rows : List (EventRow parse)) :
    parsedEvents parse (rowBytes rows) = rowEvents rows := by
  unfold parsedEvents rowBytes
  rw [segments_bytesOf]
  induction rows with
  | nil => rfl
  | cons r rows ih =>
    rw [List.map_cons, List.map_cons, List.filterMap_cons_some r.parses, ih]
    rfl

/-! ## Memos -/

/-- An entry under a file's signature. -/
abbrev StatEntry (S : Type*) := Stamped StatSignature S

/-- **The live file's range memo.** -/
structure LiveRangeMemo where
  /-- The modification time it was read at. -/
  mtime : ℕ
  size : ℕ
  /-- The inode number it was read from. -/
  ino : ℕ
  /-- The covered lines, parsed; a line that does not parse keeps its place. -/
  lines : List (Option Event)
  coveredEnd : ℕ
  /-- Whether they end with the end of a line. -/
  ends : Bool
  /-- The index of the first covered line. -/
  lineStart : ℕ
  /-- Where the covered bytes begin. -/
  byteStart : ℕ

/-- **What a session's reads remember.** -/
structure ChatMemos where
  /-- The parsed live file. -/
  eventsCache : Option (List Event) := none
  /-- The covered part of the live file. -/
  live : Option LiveRangeMemo := none
  /-- The number of lines of the live file. -/
  count : Option (StatEntry ℕ) := none
  /-- The parsed archive files. -/
  archive : ℕ → Option (StatEntry (List Event)) := fun _ => none
  archiveFiles : Option (StatEntry (List ℕ)) := none

/-! ## The live file's lines -/

def walkChunkBytes : ℕ+ := 524288

def walkByteBudget : ℕ := 33554432

/-- The number of lines of a file; a last one without an end counts. -/
def countLines (buf : List UInt8) : ℕ :=
  buf.countP (· == lineFeed)
    + match buf.getLast? with
      | some b => if b = lineFeed then 0 else 1
      | none => 0

namespace ChatMemos

/-- The number of lines of the live file, memoized. -/
def countNdjsonLines (f : LiveFile parse) (m : ChatMemos) : ℕ × ChatMemos :=
  match Stamped.fresh m.count (f.mtime, f.size) with
  | some total => (total, m)
  | none =>
    let total := countLines f.bytes
    (total, { m with count := some ⟨total, (f.mtime, f.size)⟩ })

/-- Parses an appended tail onto the covered lines of a grown file. -/
def extendLinesForward (f : LiveFile parse) (memo : LiveRangeMemo) : LiveRangeMemo :=
  let buf := f.bytes.drop memo.coveredEnd
  let (segs, ends) := segments buf
  { memo with
    mtime := f.mtime
    size := f.size
    ino := f.ino
    lines := memo.lines ++ segs.map parse
    coveredEnd := memo.coveredEnd + buf.length
    ends }

/-- Puts the lines from `relStart` before the covered ones, by a walk
backward from where these begin. -/
def extendLinesBackward (f : LiveFile parse) (memo : LiveRangeMemo) (relStart : ℕ) :
    Option LiveRangeMemo :=
  (walkTail walkChunkBytes walkByteBudget f.bytes memo.byteStart
      (memo.lineStart - relStart)).map fun walked =>
    { memo with
      lines := walked.1.map parse ++ memo.lines
      lineStart := relStart
      byteStart := walked.2.1 }

/-- Builds the memo from the end: the lines from `relStart` on, by a walk
backward from the end of the file. -/
def buildLinesWalk (f : LiveFile parse) (m : ChatMemos) (relStart : ℕ) :
    Option (List (Option Event) × ℕ) × ChatMemos :=
  let (total, m) := m.countNdjsonLines f
  if total ≤ relStart then (some ([], relStart), m)
  else
    match walkTail walkChunkBytes walkByteBudget f.bytes f.size (total - relStart) with
    | none => (none, m)
    | some (texts, byteStart, ends) =>
      let lines := texts.map parse
      let memo : LiveRangeMemo :=
        { mtime := f.mtime, size := f.size, ino := f.ino, lines, coveredEnd := f.size,
          ends, lineStart := relStart, byteStart }
      (some (lines, relStart), { m with live := some memo })

/-- Reads and parses the file whole. -/
def fullBuild (f : LiveFile parse) (m : ChatMemos) :
    (List (Option Event) × ℕ) × ChatMemos :=
  let (segs, ends) := segments f.bytes
  let lines := segs.map parse
  let memo : LiveRangeMemo :=
    { mtime := f.mtime, size := f.size, ino := f.ino, lines,
      coveredEnd := f.bytes.length, ends, lineStart := 0, byteStart := 0 }
  ((lines, 0), { m with live := some memo })

/-- Whether an entry was read at the file's signature. -/
def isFresh (f : LiveFile parse) (memo : LiveRangeMemo) : Bool :=
  memo.mtime == f.mtime && memo.size == f.size

/-- Extends an entry of a grown file; any other stays. -/
def grown (f : LiveFile parse) (memo : LiveRangeMemo) : LiveRangeMemo :=
  if !isFresh f memo && memo.ino == f.ino && decide (memo.coveredEnd ≤ f.size)
      && memo.ends then extendLinesForward f memo
  else memo

/-- **The live file's parsed lines**, from an index at most `relStart` to
the end, with that index. -/
def liveRangeLines (f : LiveFile parse) (m : ChatMemos) (relStart : ℕ) :
    (List (Option Event) × ℕ) × ChatMemos :=
  let m := { m with live := m.live.map (grown f) }
  match m.live.filter (isFresh f) with
  | some memo =>
    if memo.lineStart ≤ relStart then ((memo.lines, memo.lineStart), m)
    else
      match if 0 < relStart then extendLinesBackward f memo relStart else none with
      | some extended => ((extended.lines, relStart), { m with live := some extended })
      | none => m.fullBuild f
  | none =>
    if 0 < relStart then
      match m.buildLinesWalk f relStart with
      | (some built, m) => (built, m)
      | (none, m) => m.fullBuild f
    else m.fullBuild f

/-! ## The archive -/

/-- The archive files in order, memoized on the directory. -/
def archiveFilesOf (f : ChatFiles parse) (m : ChatMemos) : List ℕ × ChatMemos :=
  let keys := f.archive.files.map Prod.fst
  match Stamped.fresh m.archiveFiles f.archivesDir with
  | some paths => (paths, m)
  | none => (keys, { m with archiveFiles := some ⟨keys, f.archivesDir⟩ })

def archiveFileEvents (f : ChatFiles parse) (m : ChatMemos) (week : ℕ) :
    List Event × ChatMemos :=
  let buf := rowBytes (f.archiveRows week)
  let st : StatSignature := (f.archiveMtime week, buf.length)
  match Stamped.fresh (m.archive week) st with
  | some events => (events, m)
  | none =>
    let events := parsedEvents parse buf
    (events, { m with archive := Function.update m.archive week (some ⟨events, st⟩) })

/-- The events of a range, from the files whose first event has index
`pos`. -/
def archiveRangeFrom (f : ChatFiles parse) (start stop : ℕ) :
    List ℕ → ℕ → ChatMemos → List Event × ChatMemos
  | [], _, m => ([], m)
  | week :: weeks, pos, m =>
    let (fileEvents, m) := m.archiveFileEvents f week
    let fileEnd := pos + fileEvents.length
    let here :=
      if pos < stop ∧ start < fileEnd then
        (fileEvents.take (min stop fileEnd - pos)).drop (max start pos - pos)
      else []
    if stop ≤ fileEnd then (here, m)
    else
      let r := archiveRangeFrom f start stop weeks fileEnd m
      (here ++ r.1, r.2)

def loadArchiveRange (f : ChatFiles parse) (m : ChatMemos) (start stop : ℕ) :
    List Event × ChatMemos :=
  if stop ≤ start then ([], m)
  else
    let (paths, m) := m.archiveFilesOf f
    archiveRangeFrom f start stop paths 0 m

/-! ## The range -/

/-- **The events of a range of global indices**, and whether there are
earlier ones. -/
def loadChatEventsRange (f : ChatFiles parse) (m : ChatMemos) (start stop : ℕ) :
    (List Event × Bool) × ChatMemos :=
  let hasMore := decide (0 < start)
  if stop ≤ start then (([], hasMore), m)
  else if stop ≤ f.archiveOffset then
    let (events, m) := m.loadArchiveRange f start stop
    ((events, hasMore), m)
  else if f.archiveOffset ≤ start then
    let relStart := start - f.archiveOffset
    let relEnd := stop - f.archiveOffset
    if 0 < f.archiveOffset then
      let ((lines, lineStart), m) := m.liveRangeLines f.live relStart
      ((((lines.take (relEnd - lineStart)).drop (relStart - lineStart)).filterMap id,
        hasMore), m)
    else
      match m.eventsCache with
      | some cached => (((cached.take relEnd).drop relStart, hasMore), m)
      | none =>
        ((((segments f.live.bytes).1.take relEnd).drop relStart |>.filterMap parse,
          hasMore), m)
  else
    let (archiveEvents, m) := m.loadArchiveRange f start f.archiveOffset
    let liveEnd := stop - f.archiveOffset
    let ((lines, lineStart), m) := m.liveRangeLines f.live 0
    ((archiveEvents ++ (lines.take (liveEnd - lineStart)).filterMap id, hasMore), m)

end ChatMemos

/-! ## Memos that are true to the files -/

/-- **A range memo is true to the live file**: it covers lines of it, if it
is of this file at all. -/
structure LiveRangeMemo.Sound (memo : LiveRangeMemo) (f : LiveFile parse) : Prop where
  /-- Its signature is one the file has or had. -/
  mem : (memo.mtime, memo.size) ∈ (f.source ()).stamps
  /-- If it is of another file, that was in the past. -/
  stale : memo.ino ≠ f.ino → (memo.mtime, memo.size) ≠ (f.source ()).stamp
  /-- If it is of this file, it covers lines of it, and its last one if it
  was read at the present signature. -/
  covers : memo.ino = f.ino → ∃ before covered behind,
    f.rows = before ++ covered ++ behind ∧ memo.lineStart = before.length ∧
    (memo.lines = covered.map fun r => some r.event) ∧
    memo.byteStart = (rowBytes before).length ∧
    memo.coveredEnd = (rowBytes (before ++ covered)).length ∧ memo.ends = true ∧
    ((memo.mtime, memo.size) = (f.source ()).stamp → behind = [])

/-- **What is remembered is true to the files.** -/
structure ChatMemos.Sound (m : ChatMemos) (f : ChatFiles parse) : Prop where
  eventsCache : ∀ events, m.eventsCache = some events → events = rowEvents f.live.rows
  /-- The range memo is true to the live file. -/
  live : ∀ memo, m.live = some memo → memo.Sound f.live
  /-- So is the number of its lines. -/
  count : ∀ e, m.count = some e → e.TrueTo (f.live.source f.live.rows.length)
  /-- The parsed archive files are true to these. -/
  archive : ∀ week e, m.archive week = some e → e.TrueTo (f.archiveSource week)
  /-- So is the list of them. -/
  archiveFiles : ∀ e, m.archiveFiles = some e → e.TrueTo f.archivesDirSource

theorem countLines_rowBytes (rows : List (EventRow parse)) :
    countLines (rowBytes rows) = rows.length := by
  unfold countLines rowBytes
  rw [countP_bytesOf, List.length_map]
  by_cases hnil : rows = []
  · subst hnil
    rfl
  · rw [getLast?_bytesOf fun h => hnil (List.map_eq_nil_iff.mp h)]
    rfl

namespace ChatMemos

variable {f : ChatFiles parse} {m : ChatMemos}

theorem countNdjsonLines_spec (h : m.Sound f) :
    (m.countNdjsonLines f.live).1 = f.live.rows.length
      ∧ (m.countNdjsonLines f.live).2.Sound f := by
  unfold countNdjsonLines
  split
  · next total htotal => exact ⟨Stamped.fresh_eq_some h.count htotal, h⟩
  · have hlines : countLines f.live.bytes = f.live.rows.length := countLines_rowBytes _
    refine ⟨hlines, h.eventsCache, h.live, fun e he => ?_, h.archive, h.archiveFiles⟩
    cases he
    rw [hlines]
    exact Stamped.TrueTo.refl (f.live.source f.live.rows.length)

theorem Sound.setLive (h : m.Sound f) {memo : LiveRangeMemo} (hmemo : memo.Sound f.live) :
    Sound { m with live := some memo } f :=
  ⟨h.eventsCache, fun x hx => by cases hx; exact hmemo, h.count, h.archive, h.archiveFiles⟩

theorem extendLinesForward_sound {f : LiveFile parse} {memo : LiveRangeMemo}
    (h : memo.Sound f) (hino : memo.ino = f.ino) : (extendLinesForward f memo).Sound f := by
  obtain ⟨before, covered, behind, hrows, hstart, hlines, hbyte, hend, -, -⟩ := h.covers hino
  have hbuf : f.bytes.drop memo.coveredEnd = rowBytes behind := by
    rw [LiveFile.bytes, hrows, rowBytes_append, hend, List.drop_left' rfl]
  have hseg : segments (rowBytes behind)
      = ((behind.map EventRow.toTextLine).map TextLine.text, true) := segments_bytesOf _
  unfold extendLinesForward
  rw [hbuf]
  dsimp only
  rw [hseg]
  refine ⟨List.mem_cons_self, fun hne => absurd rfl hne, fun _ =>
    ⟨before, covered ++ behind, [], ?_, hstart, ?_, hbyte, ?_, rfl, fun _ => rfl⟩⟩
  · rw [hrows, List.append_nil, List.append_assoc]
  · show memo.lines ++ _ = _
    rw [hlines, map_parse_rows, List.map_append]
  · show memo.coveredEnd + _ = _
    rw [hend, ← List.append_assoc, rowBytes_append (before ++ covered), List.length_append]

theorem grown_sound {f : LiveFile parse} {memo : LiveRangeMemo} (h : memo.Sound f) :
    (grown f memo).Sound f := by
  unfold grown
  split
  · next hcond =>
    simp only [Bool.and_eq_true, beq_iff_eq] at hcond
    exact extendLinesForward_sound h hcond.1.1.2
  · exact h

theorem covers_of_fresh {f : LiveFile parse} {memo : LiveRangeMemo} (h : memo.Sound f)
    (hfresh : isFresh f memo = true) : ∃ before covered,
      f.rows = before ++ covered ∧ memo.lineStart = before.length ∧
      (memo.lines = covered.map fun r => some r.event) ∧
      memo.byteStart = (rowBytes before).length ∧
      memo.coveredEnd = (rowBytes (before ++ covered)).length ∧ memo.ends = true
      ∧ memo.ino = f.ino := by
  unfold isFresh at hfresh
  simp only [Bool.and_eq_true, beq_iff_eq] at hfresh
  have hsig : (memo.mtime, memo.size) = (f.source ()).stamp :=
    Prod.ext hfresh.1 hfresh.2
  have hino : memo.ino = f.ino := by
    by_contra hne
    exact h.stale hne hsig
  obtain ⟨before, covered, behind, hrows, hstart, hlines, hbyte, hend, hends, hbehind⟩ :=
    h.covers hino
  rw [hbehind hsig, List.append_nil] at hrows
  exact ⟨before, covered, hrows, hstart, hlines, hbyte, hend, hends, hino⟩

theorem walkTail_rows {file : List UInt8} {rows : List (EventRow parse)}
    (hfile : file.take (rowBytes rows).length = rowBytes rows) {count : ℕ}
    {texts : List (List UInt8)} {start : ℕ} {ends : Bool}
    (h : walkTail walkChunkBytes walkByteBudget file (rowBytes rows).length count
      = some (texts, start, ends)) :
    ∃ rows₁ rows₂, rows = rows₁ ++ rows₂ ∧ rows₂.length = count
      ∧ (texts.map parse = rows₂.map fun r => some r.event)
      ∧ start = (rowBytes rows₁).length ∧ ends = true := by
  obtain ⟨ls₁, ls₂, hls, hlen, rfl, hstart, hends⟩ := walkTail_eq_some hfile h
  obtain ⟨rows₁, rows₂, rfl, rfl, rfl⟩ := List.map_eq_append_iff.mp hls
  rw [List.length_map] at hlen
  exact ⟨rows₁, rows₂, rfl, hlen, map_parse_rows rows₂, hstart, hends⟩

theorem extendLinesBackward_sound {f : LiveFile parse} {memo extended : LiveRangeMemo}
    (h : memo.Sound f) (hfresh : isFresh f memo = true) {relStart : ℕ}
    (hlt : relStart < memo.lineStart)
    (hext : extendLinesBackward f memo relStart = some extended) :
    extended.Sound f ∧ extended.lines = (f.rows.drop relStart).map fun r => some r.event := by
  obtain ⟨before, covered, hrows, hstart, hlines, hbyte, hend, hends, -⟩ :=
    covers_of_fresh h hfresh
  unfold extendLinesBackward at hext
  obtain ⟨⟨texts, byteStart, ends⟩, hwalk, rfl⟩ := Option.map_eq_some_iff.mp hext
  have hfile : f.bytes.take (rowBytes before).length = rowBytes before := by
    rw [LiveFile.bytes, hrows, rowBytes_append, List.take_left' rfl]
  rw [hbyte] at hwalk
  obtain ⟨rows₁, rows₂, rfl, hlen, htexts, hbyte', -⟩ := walkTail_rows hfile hwalk
  have hrel : relStart = rows₁.length := by
    rw [List.length_append] at hstart
    omega
  have hnew : texts.map parse ++ memo.lines
      = (rows₂ ++ covered).map fun r => some r.event := by
    rw [htexts, hlines, List.map_append]
  refine ⟨⟨h.mem, h.stale, fun _ => ⟨rows₁, rows₂ ++ covered, [], ?_, hrel, hnew, hbyte', ?_,
    hends, fun _ => rfl⟩⟩, ?_⟩
  · rw [hrows, List.append_nil, List.append_assoc]
  · show memo.coveredEnd = _
    rw [hend, List.append_assoc]
  · show texts.map parse ++ memo.lines = _
    rw [hnew, hrows, List.append_assoc, hrel, List.drop_left' rfl]

theorem buildLinesWalk_spec (h : m.Sound f) (relStart : ℕ) :
    (m.buildLinesWalk f.live relStart).2.Sound f ∧
    ∀ built, (m.buildLinesWalk f.live relStart).1 = some built →
      built.2 = relStart ∧
      built.1 = (f.live.rows.drop relStart).map fun r => some r.event := by
  obtain ⟨htotal, hsound⟩ := countNdjsonLines_spec h
  unfold buildLinesWalk
  dsimp only
  rw [htotal]
  split
  · next hle =>
    refine ⟨hsound, fun built hbuilt => ?_⟩
    cases hbuilt
    exact ⟨rfl, by rw [List.drop_of_length_le hle]; rfl⟩
  · next hlt =>
    split
    · exact ⟨hsound, fun built hbuilt => (by cases hbuilt)⟩
    · next texts byteStart ends hwalk =>
      have hfile : f.live.bytes.take (rowBytes f.live.rows).length
          = rowBytes f.live.rows := List.take_length
      obtain ⟨rows₁, rows₂, hrows, hlen, htexts, hbyte, hends⟩ :=
        walkTail_rows hfile hwalk
      have hrel : relStart = rows₁.length := by
        have := congrArg List.length hrows
        rw [List.length_append] at this
        omega
      have hdrop : f.live.rows.drop relStart = rows₂ := by
        rw [hrows, hrel, List.drop_left' rfl]
      refine ⟨hsound.setLive ⟨List.mem_cons_self, fun hne => absurd rfl hne, fun _ =>
        ⟨rows₁, rows₂, [], ?_, hrel, htexts, hbyte, ?_, hends, fun _ => rfl⟩⟩,
        fun built hbuilt => ?_⟩
      · rw [List.append_nil]
        exact hrows
      · show f.live.bytes.length = _
        rw [LiveFile.bytes, ← hrows]
      · cases hbuilt
        exact ⟨rfl, by rw [hdrop]; exact htexts⟩

theorem fullBuild_spec (h : m.Sound f) :
    (m.fullBuild f.live).2.Sound f ∧ (m.fullBuild f.live).1.2 = 0 ∧
    (m.fullBuild f.live).1.1 = f.live.rows.map fun r => some r.event := by
  have hseg : segments f.live.bytes
      = ((f.live.rows.map EventRow.toTextLine).map TextLine.text, true) :=
    segments_bytesOf _
  unfold fullBuild
  rw [hseg]
  refine ⟨h.setLive ⟨List.mem_cons_self, fun hne => absurd rfl hne, fun _ =>
    ⟨[], f.live.rows, [], ?_, rfl, map_parse_rows _, rfl, rfl, rfl, fun _ => rfl⟩⟩, rfl,
    map_parse_rows _⟩
  rw [List.append_nil]
  rfl

theorem liveRangeLines_spec (h : m.Sound f) (relStart : ℕ) :
    (m.liveRangeLines f.live relStart).2.Sound f ∧
    (m.liveRangeLines f.live relStart).1.2 ≤ relStart ∧
    (m.liveRangeLines f.live relStart).1.1
      = (f.live.rows.drop (m.liveRangeLines f.live relStart).1.2).map
          fun r => some r.event := by
  have hgrown : Sound { m with live := m.live.map (grown f.live) } f := by
    refine ⟨h.eventsCache, fun memo hmemo => ?_, h.count, h.archive, h.archiveFiles⟩
    obtain ⟨memo', hmemo', rfl⟩ := Option.map_eq_some_iff.mp hmemo
    exact grown_sound (h.live memo' hmemo')
  have hfull := fullBuild_spec hgrown
  have hfull' : ((fullBuild f.live { m with live := m.live.map (grown f.live) }).2.Sound f ∧
      (fullBuild f.live { m with live := m.live.map (grown f.live) }).1.2 ≤ relStart ∧
      (fullBuild f.live { m with live := m.live.map (grown f.live) }).1.1
        = (f.live.rows.drop (fullBuild f.live
            { m with live := m.live.map (grown f.live) }).1.2).map fun r => some r.event) := by
    refine ⟨hfull.1, by rw [hfull.2.1]; exact Nat.zero_le _, ?_⟩
    rw [hfull.2.1, List.drop_zero]
    exact hfull.2.2
  unfold liveRangeLines
  dsimp only
  split
  · next memo hmemo =>
    obtain ⟨hlive, hfresh⟩ := Option.filter_eq_some_iff.mp hmemo
    have hsound := hgrown.live memo hlive
    split
    · next hle =>
      obtain ⟨before, covered, hrows, hstart, hlines, -⟩ := covers_of_fresh hsound hfresh
      refine ⟨hgrown, hle, ?_⟩
      dsimp only
      rw [hstart, hrows, List.drop_left' rfl]
      exact hlines
    · next hlt =>
      split
      · next extended hext =>
        split at hext
        · obtain ⟨hext, hlines⟩ :=
            extendLinesBackward_sound hsound hfresh (Nat.not_le.mp hlt) hext
          exact ⟨hgrown.setLive hext, le_refl _, hlines⟩
        · cases hext
      · exact hfull'
  · split
    · obtain ⟨hbuilt, hlines⟩ := buildLinesWalk_spec hgrown relStart
      split
      · next built m' hb =>
        rw [hb] at hbuilt hlines
        obtain ⟨hstart, hl⟩ := hlines built rfl
        refine ⟨hbuilt, by dsimp only; rw [hstart], ?_⟩
        dsimp only
        rw [hstart]
        exact hl
      · next m' hb =>
        rw [hb] at hbuilt
        have := fullBuild_spec hbuilt
        refine ⟨this.1, by rw [this.2.1]; exact Nat.zero_le _, ?_⟩
        rw [this.2.1, List.drop_zero]
        exact this.2.2
    · exact hfull'

end ChatMemos

/-! ## The archive is read in order -/

namespace ChatMemos

variable {f : ChatFiles parse} {m : ChatMemos}

theorem archiveFilesOf_spec (h : m.Sound f) :
    (m.archiveFilesOf f).1 = f.archive.files.map Prod.fst
      ∧ (m.archiveFilesOf f).2.Sound f := by
  unfold archiveFilesOf
  dsimp only
  split
  · next paths hpaths => exact ⟨Stamped.fresh_eq_some h.archiveFiles hpaths, h⟩
  · refine ⟨rfl, h.eventsCache, h.live, h.count, h.archive, fun e he => ?_⟩
    cases he
    exact Stamped.TrueTo.refl f.archivesDirSource

theorem archiveFileEvents_spec (h : m.Sound f) (week : ℕ) :
    (m.archiveFileEvents f week).1 = rowEvents (f.archiveRows week)
      ∧ (m.archiveFileEvents f week).2.Sound f := by
  unfold archiveFileEvents
  dsimp only
  split
  · next events hevents =>
    exact ⟨Stamped.fresh_eq_some (h.archive week) hevents, h⟩
  · have hparsed := parsedEvents_rowBytes (f.archiveRows week)
    refine ⟨hparsed, h.eventsCache, h.live, h.count, fun w e he => ?_, h.archiveFiles⟩
    by_cases hw : w = week
    · subst hw
      dsimp only at he
      rw [Function.update_self] at he
      cases he
      rw [hparsed]
      exact Stamped.TrueTo.refl (f.archiveSource w)
    · dsimp only at he
      rw [Function.update_of_ne hw] at he
      exact h.archive w e he

theorem slice_piece (es : List Event) (start stop pos : ℕ) (hpos : pos < stop) :
    (if pos < stop ∧ start < pos + es.length then
      (es.take (min stop (pos + es.length) - pos)).drop (max start pos - pos)
    else []) = (es.take (stop - pos)).drop (start - pos) := by
  have htake : es.take (min stop (pos + es.length) - pos) = es.take (stop - pos) := by
    by_cases hle : stop ≤ pos + es.length
    · rw [Nat.min_eq_left hle]
    · rw [Nat.min_eq_right (by omega), Nat.add_sub_cancel_left, List.take_length,
        List.take_of_length_le (by omega)]
  have hdrop : max start pos - pos = start - pos := by omega
  rw [htake, hdrop]
  split
  · rfl
  · next hnot =>
    refine (List.drop_of_length_le ?_).symm
    rw [List.length_take]
    omega

theorem slice_append (es rest : List Event) (start stop : ℕ) :
    ((es ++ rest).take stop).drop start
      = (es.take stop).drop start ++ (rest.take (stop - es.length)).drop
          (start - (es.take stop).length) := by
  rw [List.take_append, List.drop_append]

theorem archiveRangeFrom_spec {start stop : ℕ} (weeks : List ℕ) (pos : ℕ)
    (hpos : pos < stop) (h : m.Sound f) :
    (archiveRangeFrom f start stop weeks pos m).1
        = (((weeks.map fun w => rowEvents (f.archiveRows w)).flatten).take
            (stop - pos)).drop (start - pos)
      ∧ (archiveRangeFrom f start stop weeks pos m).2.Sound f := by
  induction weeks generalizing pos m with
  | nil => exact ⟨by rw [List.map_nil, List.flatten_nil, List.take_nil, List.drop_nil]; rfl, h⟩
  | cons week weeks ih =>
    obtain ⟨hevents, hsound⟩ := archiveFileEvents_spec h week
    unfold archiveRangeFrom
    dsimp only
    rw [hevents, slice_piece _ _ _ _ hpos, List.map_cons, List.flatten_cons, slice_append]
    split
    · next hle =>
      refine ⟨?_, hsound⟩
      rw [show stop - pos - (rowEvents (f.archiveRows week)).length = 0 by omega,
        List.take_zero, List.drop_nil, List.append_nil]
    · next hlt =>
      obtain ⟨hrest, hsound'⟩ :=
        ih (pos + (rowEvents (f.archiveRows week)).length) (Nat.not_le.mp hlt) hsound
      refine ⟨?_, hsound'⟩
      rw [hrest]
      have hlen : ((rowEvents (f.archiveRows week)).take (stop - pos)).length
          = (rowEvents (f.archiveRows week)).length := by
        rw [List.length_take]
        omega
      rw [hlen, Nat.sub_sub, Nat.sub_sub]

theorem flatten_archiveRows (f : ChatFiles parse) :
    ((f.archive.files.map Prod.fst).map fun w => rowEvents (f.archiveRows w)).flatten
      = rowEvents f.archive.entries := by
  have hcomp : (fun w => rowEvents (f.archiveRows w))
      = rowEvents ∘ fun k => (f.archive.files.lookup k).getD [] := rfl
  rw [hcomp, ← List.map_map, KeyedLog.map_lookup_keys]
  unfold KeyedLog.entries rowEvents
  rw [List.map_flatten]

theorem loadArchiveRange_spec (h : m.Sound f) (start stop : ℕ) :
    (m.loadArchiveRange f start stop).1
        = ((rowEvents f.archive.entries).take stop).drop start
      ∧ (m.loadArchiveRange f start stop).2.Sound f := by
  unfold loadArchiveRange
  split
  · next hle =>
    refine ⟨(List.drop_of_length_le ?_).symm, h⟩
    rw [List.length_take]
    omega
  · next hlt =>
    obtain ⟨hpaths, hsound⟩ := archiveFilesOf_spec h
    have hstop : 0 < stop := by omega
    dsimp only
    rw [hpaths, ← flatten_archiveRows]
    exact archiveRangeFrom_spec (f.archive.files.map Prod.fst) 0 hstop hsound

/-! ## A range read gives the range -/

theorem slice_from (rows : List (EventRow parse)) {lineStart relStart : ℕ}
    (hle : lineStart ≤ relStart) (relEnd : ℕ) :
    ((((rows.drop lineStart).map fun r => some r.event).take (relEnd - lineStart)).drop
        (relStart - lineStart)).filterMap id
      = ((rowEvents rows).take relEnd).drop relStart := by
  rw [← List.map_take, ← List.map_drop, ← List.drop_take, List.drop_drop,
    show lineStart + (relStart - lineStart) = relStart by omega, List.filterMap_map]
  unfold rowEvents
  rw [← List.map_take, ← List.map_drop, ← List.filterMap_eq_map]
  rfl

theorem slice_parsed (rows : List (EventRow parse)) (start stop : ℕ) :
    (((segments (rowBytes rows)).1.take stop).drop start).filterMap parse
      = ((rowEvents rows).take stop).drop start := by
  have hseg : (segments (rowBytes rows)).1
      = (rows.map EventRow.toTextLine).map TextLine.text :=
    congrArg Prod.fst (segments_bytesOf _)
  rw [hseg, ← List.map_take, ← List.map_take, ← List.map_drop, ← List.map_drop]
  unfold rowEvents
  rw [← List.map_take, ← List.map_drop]
  generalize (rows.take stop).drop start = part
  induction part with
  | nil => rfl
  | cons r rs ih =>
    rw [List.map_cons, List.map_cons, List.filterMap_cons_some r.parses, ih]
    rfl

/-- **A range read returns the events of the range**, whatever earlier
reads left in the memos, and leaves memos that are true to the files. -/
theorem loadChatEventsRange_eq_slice (h : m.Sound f)
    (hoffset : f.archiveOffset = f.archive.entries.length) (start stop : ℕ) :
    (m.loadChatEventsRange f start stop).1
        = ((f.events.take stop).drop start, decide (0 < start))
      ∧ (m.loadChatEventsRange f start stop).2.Sound f := by
  have hlen : (rowEvents f.archive.entries).length = f.archiveOffset := by
    rw [rowEvents, List.length_map, hoffset]
  have hevents : f.events = rowEvents f.archive.entries ++ rowEvents f.live.rows :=
    List.map_append
  unfold loadChatEventsRange
  dsimp only
  split
  · next hle =>
    refine ⟨?_, h⟩
    rw [List.drop_of_length_le (by rw [List.length_take]; omega)]
  · next hlt =>
    rw [hevents, slice_append, hlen]
    split
    · next hle =>
      obtain ⟨hrange, hsound⟩ := loadArchiveRange_spec h start stop
      refine ⟨?_, hsound⟩
      rw [hrange, Nat.sub_eq_zero_of_le hle, List.take_zero, List.drop_nil, List.append_nil]
    · next hlive =>
      have hall : (rowEvents f.archive.entries).take stop = rowEvents f.archive.entries :=
        List.take_of_length_le (by omega)
      rw [hall, hlen]
      split
      · next hstart =>
        have hnone : (rowEvents f.archive.entries).drop start = [] :=
          List.drop_of_length_le (by omega)
        rw [hnone, List.nil_append]
        split
        · obtain ⟨hsound, hle, hlines⟩ := liveRangeLines_spec h (start - f.archiveOffset)
          refine ⟨?_, hsound⟩
          rw [hlines, slice_from _ hle]
        · split
          · next cached hcached =>
            rw [h.eventsCache cached hcached]
            exact ⟨rfl, h⟩
          · refine ⟨?_, h⟩
            rw [LiveFile.bytes, slice_parsed]
      · next hstart =>
        obtain ⟨hrange, hsound⟩ := loadArchiveRange_spec h start f.archiveOffset
        obtain ⟨hsound', hle, hlines⟩ := liveRangeLines_spec hsound 0
        refine ⟨?_, hsound'⟩
        have hzero := Nat.le_zero.mp hle
        have hslice := slice_from f.live.rows (Nat.le_refl 0) (stop - f.archiveOffset)
        rw [hrange, hlines, hzero, List.take_of_length_le (Nat.le_of_eq hlen),
          show start - f.archiveOffset = 0 by omega, ← hslice]
        rfl

end ChatMemos

/-! ## Changes of the files -/

/-- The live file after a change. -/
def LiveFile.write (f : LiveFile parse) (rows : List (EventRow parse)) (mtime ino : ℕ) :
    LiveFile parse :=
  ⟨rows, mtime, ino, (f.source ()).stamps⟩

/-- The signature of a change of the live file is new. -/
def LiveFile.Unused (f : LiveFile parse) (rows : List (EventRow parse)) (mtime : ℕ) :
    Prop := (mtime, (rowBytes rows).length) ∉ (f.source ()).stamps

instance (f : LiveFile parse) (rows : List (EventRow parse)) (mtime : ℕ) :
    Decidable (f.Unused rows mtime) := inferInstanceAs (Decidable (¬ _))

/-- The live file with an event appended. -/
def ChatFiles.saveChatEvent (f : ChatFiles parse) (row : EventRow parse) (mtime : ℕ) :
    ChatFiles parse :=
  { f with live := f.live.write (f.live.rows ++ [row]) mtime f.live.ino }

/-- What a rotation finds on the clock and gets from the file system. -/
structure Rotation where
  /-- The cutoff's week. -/
  week : ℕ
  /-- The modification time of the new live file. -/
  mtime : ℕ
  ino : ℕ
  /-- The modification time of the archive file. -/
  archiveMtime : ℕ
  /-- The signature of the archives directory, if the week's file is created. -/
  archivesDir : StatSignature

namespace ChatFiles

/-- Appends lines to a week's file, and creates it where it is missing. -/
def appendArchive (f : ChatFiles parse) (rows : List (EventRow parse)) (r : Rotation) :
    ChatFiles parse :=
  let isNew := decide (r.week ∉ f.archive.files.map Prod.fst)
  { f with
    archive := f.archive.appendAll r.week rows
    archiveMtime := Function.update f.archiveMtime r.week r.archiveMtime
    archivePast := Function.update f.archivePast r.week (f.archiveSource r.week).stamps
    archivesDir := if isNew then r.archivesDir else f.archivesDir
    archivesDirPast := if isNew then f.archivesDirSource.stamps else f.archivesDirPast }

/-- **A rotation**: the first lines go to the archive, and the live file is
replaced by one with the others. -/
def archiveOldChatEvents (f : ChatFiles parse) (count : ℕ) (r : Rotation) :
    ChatFiles parse :=
  let head := (f.live.rows.take count).map EventRow.plain
  let kept := (f.live.rows.drop count).map EventRow.plain
  let f' := f.appendArchive head r
  { f' with
    live := f.live.write kept r.mtime r.ino
    archiveOffset := f.archiveOffset + head.length }

/-- **A rotation the file system may do**: every file it changes gets a new
signature, and the new live file, written while the old one is there, an
inode number of its own. -/
structure Rotates (f : ChatFiles parse) (count : ℕ) (r : Rotation) : Prop where
  /-- The live file's signature is new. -/
  live : f.live.Unused ((f.live.rows.drop count).map EventRow.plain) r.mtime
  archive : ((f.archiveOldChatEvents count r).archiveSource r.week).stamp
    ∉ (f.archiveSource r.week).stamps
  /-- So is the directory's, if a file is created. -/
  archivesDir : r.week ∉ f.archive.files.map Prod.fst →
    r.archivesDir ∉ f.archivesDirSource.stamps
  /-- The old live file is there while the new one is written. -/
  ino : r.ino ≠ f.live.ino

instance (f : ChatFiles parse) (count : ℕ) (r : Rotation) : Decidable (f.Rotates count r) :=
  decidable_of_iff
    (f.live.Unused ((f.live.rows.drop count).map EventRow.plain) r.mtime ∧
      ((f.archiveOldChatEvents count r).archiveSource r.week).stamp
        ∉ (f.archiveSource r.week).stamps ∧
      (r.week ∉ f.archive.files.map Prod.fst → r.archivesDir ∉ f.archivesDirSource.stamps) ∧
      r.ino ≠ f.live.ino)
    ⟨fun h => ⟨h.1, h.2.1, h.2.2.1, h.2.2.2⟩, fun h => ⟨h.1, h.2, h.3, h.4⟩⟩

end ChatFiles

section

variable {f : LiveFile parse} {memo : LiveRangeMemo} {rows : List (EventRow parse)} {mtime : ℕ}

theorem LiveRangeMemo.Sound.stamp_ne (h : memo.Sound f) (hnew : f.Unused rows mtime) (ino : ℕ) :
    (memo.mtime, memo.size) ≠ ((f.write rows mtime ino).source ()).stamp := by
  intro heq
  have hmem := h.mem
  rw [heq] at hmem
  exact hnew hmem

/-- **An append leaves a memo true**: what it covers is still there. -/
theorem LiveRangeMemo.Sound.append (h : memo.Sound f) {row : EventRow parse}
    (hnew : f.Unused (f.rows ++ [row]) mtime) :
    memo.Sound (f.write (f.rows ++ [row]) mtime f.ino) := by
  refine ⟨List.mem_cons_of_mem _ h.mem, fun _ => h.stamp_ne hnew f.ino, fun hino => ?_⟩
  obtain ⟨before, covered, behind, hrows, hstart, hlines, hbyte, hend, hends, -⟩ := h.covers hino
  refine ⟨before, covered, behind ++ [row], ?_, hstart, hlines, hbyte, hend, hends,
    fun heq => absurd heq (h.stamp_ne hnew f.ino)⟩
  show f.rows ++ [row] = _
  rw [hrows, List.append_assoc]

/-- **A memo of a replaced file is stale**, if the new file does not have
its inode number. -/
theorem LiveRangeMemo.Sound.replace (h : memo.Sound f) (hnew : f.Unused rows mtime) {ino : ℕ}
    (hino : memo.ino ≠ ino) : memo.Sound (f.write rows mtime ino) :=
  ⟨List.mem_cons_of_mem _ h.mem, fun _ => h.stamp_ne hnew ino, fun heq => absurd heq hino⟩

end

namespace ChatMemos

variable {f : ChatFiles parse} {m : ChatMemos}

/-- The memos after an append: the cached events are kept in step. -/
def absorb (m : ChatMemos) (event : Event) : ChatMemos :=
  { m with eventsCache := m.eventsCache.map (· ++ [event]) }

/-- **An append leaves the memos true to the files.** -/
theorem Sound.saveChatEvent (h : m.Sound f) {row : EventRow parse} {mtime : ℕ}
    (hnew : f.live.Unused (f.live.rows ++ [row]) mtime) :
    (m.absorb row.event).Sound (f.saveChatEvent row mtime) := by
  refine ⟨fun events hevents => ?_, fun memo hmemo => (h.live memo hmemo).append hnew,
    fun e he => (h.count e he).write (f.live.rows ++ [row]).length hnew, h.archive,
    h.archiveFiles⟩
  obtain ⟨cached, hcached, rfl⟩ := Option.map_eq_some_iff.mp hevents
  rw [h.eventsCache cached hcached]
  show rowEvents f.live.rows ++ [row.event] = rowEvents (f.live.rows ++ [row])
  unfold rowEvents
  rw [List.map_append, List.map_singleton]

theorem archiveSource_appendArchive_of_ne (rows : List (EventRow parse)) (r : Rotation)
    {week : ℕ} (hne : week ≠ r.week) :
    (f.appendArchive rows r).archiveSource week = f.archiveSource week := by
  have hrows : (f.appendArchive rows r).archiveRows week = f.archiveRows week :=
    congrArg (Option.getD · []) (f.archive.lookup_appendAll_of_ne rows hne)
  unfold ChatFiles.archiveSource
  rw [hrows]
  unfold ChatFiles.appendArchive
  dsimp only
  rw [Function.update_of_ne hne, Function.update_of_ne hne]

/-- **A rotation leaves the memos true to the files**, if the live file
does not get the inode number of the range memo. -/
theorem Sound.archiveOldChatEvents (h : m.Sound f) {count : ℕ} {r : Rotation}
    (hr : f.Rotates count r) (hino : ∀ memo, m.live = some memo → memo.ino ≠ r.ino) :
    Sound { m with eventsCache := none } (f.archiveOldChatEvents count r) := by
  refine ⟨fun events hevents => (by cases hevents),
    fun memo hmemo => (h.live memo hmemo).replace hr.live (hino memo hmemo),
    fun e he => (h.count e he).write _ hr.live, fun week e he => ?_, fun e he => ?_⟩
  · by_cases hweek : week = r.week
    · subst hweek
      have hsource : (f.archiveOldChatEvents count r).archiveSource r.week
          = (f.archiveSource r.week).write
              ((f.archiveOldChatEvents count r).archiveSource r.week).content
              ((f.archiveOldChatEvents count r).archiveSource r.week).stamp := by
        have hpast : (f.archiveOldChatEvents count r).archivePast r.week
            = (f.archiveSource r.week).stamps := Function.update_self ..
        unfold StampedSource.write
        rw [← hpast]
        rfl
      rw [hsource]
      exact (h.archive r.week e he).write _ hr.archive
    · have hsame : (f.archiveOldChatEvents count r).archiveSource week = f.archiveSource week :=
        archiveSource_appendArchive_of_ne _ r hweek
      rw [hsame]
      exact h.archive week e he
  · by_cases hmem : r.week ∈ f.archive.files.map Prod.fst
    · have hsame : (f.archiveOldChatEvents count r).archivesDirSource = f.archivesDirSource := by
        unfold ChatFiles.archivesDirSource ChatFiles.archiveOldChatEvents ChatFiles.appendArchive
        dsimp only
        rw [decide_eq_false (not_not_intro hmem), KeyedLog.keys_appendAll_of_mem _ _ hmem]
        rfl
      rw [hsame]
      exact h.archiveFiles e he
    · have hsource : (f.archiveOldChatEvents count r).archivesDirSource
          = f.archivesDirSource.write
              ((f.archiveOldChatEvents count r).archive.files.map Prod.fst) r.archivesDir := by
        unfold ChatFiles.archivesDirSource ChatFiles.archiveOldChatEvents ChatFiles.appendArchive
        dsimp only
        rw [decide_eq_true hmem]
        rfl
      rw [hsource]
      exact (h.archiveFiles e he).write _ (hr.archivesDir hmem)

end ChatMemos

/-! ## A session's files and reads as a system -/

/-- A bounded memo that may drop an entry. -/
inductive MemoKind where
  /-- The live file's range memo. -/
  | live
  /-- The number of its lines. -/
  | count
  /-- A parsed archive file. -/
  | archive (week : ℕ)
  | archiveFiles

def ChatMemos.drop (m : ChatMemos) : MemoKind → ChatMemos
  | .live => { m with live := none }
  | .count => { m with count := none }
  | .archive week => { m with archive := Function.update m.archive week none }
  | .archiveFiles => { m with archiveFiles := none }

/-- Reads all events of the live file, cached after the first read. -/
def ChatMemos.loadChatEvents (f : ChatFiles parse) (m : ChatMemos) : ChatMemos :=
  match m.eventsCache with
  | some _ => m
  | none => { m with eventsCache := some (parsedEvents parse f.live.bytes) }

/-- **A session's files, and what its reads remember.** -/
structure RangeState (parse : List UInt8 → Option Event) where
  files : ChatFiles parse := {}
  memos : ChatMemos := {}
  /-- Every event ever appended. -/
  appended : List Event := []

/-- What happens next. -/
inductive RangeAction (parse : List UInt8 → Option Event) where
  | saveChatEvent (row : EventRow parse) (mtime : ℕ)
  /-- The first `count` events are archived. -/
  | archiveOldChatEvents (count : ℕ) (r : Rotation)
  | loadChatEventsRange (start stop : ℕ)
  /-- The live file is read whole. -/
  | loadChatEvents
  /-- The cached events are dropped. -/
  | clearCache
  /-- A bounded memo drops an entry. -/
  | drop (kind : MemoKind)

namespace RangeState

/-- **One step.** A change is one only with a new signature; a rotation with
nothing to archive does nothing. -/
def step (s : RangeState parse) : RangeAction parse → Option (RangeState parse)
  | .saveChatEvent row mtime =>
    if s.files.live.Unused (s.files.live.rows ++ [row]) mtime then
      some { files := s.files.saveChatEvent row mtime
             memos := s.memos.absorb row.event
             appended := s.appended ++ [row.event] }
    else none
  | .archiveOldChatEvents count r =>
    if (s.files.live.rows.take count).isEmpty then some s
    else if s.files.Rotates count r then
      some { s with
        files := s.files.archiveOldChatEvents count r
        memos := { s.memos with eventsCache := none } }
    else none
  | .loadChatEventsRange start stop =>
    some { s with memos := (s.memos.loadChatEventsRange s.files start stop).2 }
  | .loadChatEvents => some { s with memos := s.memos.loadChatEvents s.files }
  | .clearCache => some { s with memos := { s.memos with eventsCache := none } }
  | .drop kind => some { s with memos := s.memos.drop kind }

/-- A session as a transition system. -/
def system (parse : List UInt8 → Option Event) :
    TransitionSystem (RangeState parse) (RangeAction parse) := ⟨step⟩

/-- **The condition on a step.** A rotation does not give the live file the
inode number the range memo was read from, and weeks do not go back. -/
def InodeFresh (s : RangeState parse) : RangeAction parse → Prop
  | .archiveOldChatEvents _ r =>
    s.files.archive.UpTo r.week ∧ ∀ memo, s.memos.live = some memo → memo.ino ≠ r.ino
  | _ => True

/-- **What holds at any time.** -/
structure Inv (s : RangeState parse) : Prop where
  sound : s.memos.Sound s.files
  /-- The offset counts the archived events. -/
  offset : s.files.archiveOffset = s.files.archive.entries.length
  /-- The files hold the appended events, in order. -/
  events : s.files.events = s.appended

theorem sound_clearCache {f : ChatFiles parse} {m : ChatMemos} (h : m.Sound f) :
    ChatMemos.Sound { m with eventsCache := none } f :=
  ⟨fun _ h => (by cases h), h.live, h.count, h.archive, h.archiveFiles⟩

theorem sound_drop {f : ChatFiles parse} {m : ChatMemos} (h : m.Sound f) (kind : MemoKind) :
    (m.drop kind).Sound f := by
  cases kind with
  | live => exact ⟨h.eventsCache, fun _ h => (by cases h), h.count, h.archive, h.archiveFiles⟩
  | count => exact ⟨h.eventsCache, h.live, fun _ h => (by cases h), h.archive, h.archiveFiles⟩
  | archive week =>
    refine ⟨h.eventsCache, h.live, h.count, fun w e he => ?_, h.archiveFiles⟩
    by_cases hw : w = week
    · subst hw
      have hnone : Function.update m.archive w none w = none := Function.update_self ..
      exact absurd (hnone.symm.trans he) (Option.some_ne_none e).symm
    · exact h.archive w e ((Function.update_of_ne hw ..).symm.trans he)
  | archiveFiles => exact ⟨h.eventsCache, h.live, h.count, h.archive, fun _ h => (by cases h)⟩

theorem sound_loadChatEvents {f : ChatFiles parse} {m : ChatMemos} (h : m.Sound f) :
    (m.loadChatEvents f).Sound f := by
  unfold ChatMemos.loadChatEvents
  split
  · exact h
  · refine ⟨fun events hevents => ?_, h.live, h.count, h.archive, h.archiveFiles⟩
    cases hevents
    exact parsedEvents_rowBytes _

theorem events_archiveOldChatEvents (f : ChatFiles parse) (count : ℕ) {r : Rotation}
    (hweek : f.archive.UpTo r.week) :
    (f.archiveOldChatEvents count r).archive.entries
        = f.archive.entries ++ (f.live.rows.take count).map EventRow.plain
      ∧ (f.archiveOldChatEvents count r).events = f.events := by
  have hentries : (f.archiveOldChatEvents count r).archive.entries
      = f.archive.entries ++ (f.live.rows.take count).map EventRow.plain :=
    hweek.entries_appendAll _
  refine ⟨hentries, ?_⟩
  have hplain : ∀ rows : List (EventRow parse),
      rowEvents (rows.map EventRow.plain) = rowEvents rows := fun rows => by
    unfold rowEvents
    rw [List.map_map]
    rfl
  have hsplit : ((f.live.rows.take count).map EventRow.plain)
      ++ ((f.live.rows.drop count).map EventRow.plain) = f.live.rows.map EventRow.plain := by
    rw [← List.map_append, List.take_append_drop]
  show rowEvents ((f.archiveOldChatEvents count r).archive.entries
    ++ (f.live.rows.drop count).map EventRow.plain) = rowEvents (f.archive.entries ++ f.live.rows)
  rw [hentries, List.append_assoc, hsplit]
  have happend : ∀ rows rows' : List (EventRow parse),
      rowEvents (rows ++ rows') = rowEvents rows ++ rowEvents rows' := fun _ _ => List.map_append
  rw [happend, happend, hplain]

variable {s s' : RangeState parse}

/-- **Every step that meets its condition keeps the memos true.** -/
theorem Inv.step (h : s.Inv) {a : RangeAction parse} (ha : s.InodeFresh a)
    (hstep : s.step a = some s') : s'.Inv := by
  cases a with
  | saveChatEvent row mtime =>
    simp only [RangeState.step] at hstep
    split at hstep
    · next hnew =>
      cases hstep
      refine ⟨h.sound.saveChatEvent hnew, h.offset, ?_⟩
      rw [← h.events]
      show rowEvents (s.files.archive.entries ++ (s.files.live.rows ++ [row])) = _
      rw [← List.append_assoc]
      exact List.map_append
    · cases hstep
  | archiveOldChatEvents count r =>
    obtain ⟨hweek, hino⟩ := ha
    simp only [RangeState.step] at hstep
    split at hstep
    · cases hstep
      exact h
    · split at hstep
      · next hr =>
        cases hstep
        obtain ⟨hentries, hevents⟩ := events_archiveOldChatEvents s.files count hweek
        refine ⟨h.sound.archiveOldChatEvents hr hino, ?_, hevents.trans h.events⟩
        show s.files.archiveOffset + _ = _
        rw [hentries, h.offset, List.length_append]
      · cases hstep
  | loadChatEventsRange start stop =>
    cases hstep
    exact ⟨(ChatMemos.loadChatEventsRange_eq_slice h.sound h.offset start stop).2, h.offset,
      h.events⟩
  | loadChatEvents =>
    cases hstep
    exact ⟨sound_loadChatEvents h.sound, h.offset, h.events⟩
  | clearCache =>
    cases hstep
    exact ⟨sound_clearCache h.sound, h.offset, h.events⟩
  | drop kind =>
    cases hstep
    exact ⟨sound_drop h.sound kind, h.offset, h.events⟩

/-! ## Every run -/

theorem inv_initial : ({} : RangeState parse).Inv :=
  ⟨⟨fun _ h => (by cases h), fun _ h => (by cases h), fun _ h => (by cases h),
    fun _ _ h => (by cases h), fun _ h => (by cases h)⟩, rfl, rfl⟩

/-- **A range read returns the range.** Along every run of appends,
rotations and reads in which no rotation gives the live file the inode
number the range memo was read from, a read of any range returns the
appended events of the range, whatever the reads before it left in the
memos, and the range memo covers lines of the present file wherever it is
not stale. -/
theorem slice_of_guarded {as : List (RangeAction parse)}
    (hguarded : (system parse).Guarded InodeFresh {} as) {s : RangeState parse}
    (hrun : (system parse).run {} as = some s) (start stop : ℕ) :
    (s.memos.loadChatEventsRange s.files start stop).1
        = ((s.appended.take stop).drop start, decide (0 < start))
      ∧ s.files.events = s.appended
      ∧ ∀ memo, s.memos.live = some memo → memo.Sound s.files.live := by
  have hinv : s.Inv := (system parse).run_invariant_of_guarded (I := Inv)
    (fun _ _ _ h ha hstep => h.step ha hstep) inv_initial hguarded hrun
  refine ⟨?_, hinv.events, hinv.sound.live⟩
  rw [← hinv.events]
  exact (ChatMemos.loadChatEventsRange_eq_slice hinv.sound hinv.offset start stop).1

/-! ## A session that rotates three times -/

/-- The text of an event that holds a digit. -/
def digitText (digit : Fin 4) : List UInt8 :=
  [123, 34, 110, 34, 58, 48 + UInt8.ofNat digit, 125]

def digitEvent (digit : Fin 4) : Event := [("n", .int digit)]

/-- A reader of these events. -/
def digitParse (text : List UInt8) : Option Event :=
  ((List.finRange 4).find? fun digit => text == digitText digit).map digitEvent

/-- The line of such an event. -/
def digitRow (digit : Fin 4) : EventRow digitParse where
  text := digitText digit
  noLineFeed := by revert digit; decide
  noCarriageReturn := by revert digit; decide
  event := digitEvent digit
  parses := by match digit with | 0 => rfl | 1 => rfl | 2 => rfl | 3 => rfl

/-- The first two events are appended, the first is archived, the second
read, and a third appended. -/
def oneRotation : List (RangeAction digitParse) :=
  [.saveChatEvent (digitRow 0) 1, .saveChatEvent (digitRow 1) 2,
    .archiveOldChatEvents 1 ⟨1, 3, 2, 3, (3, 1)⟩, .loadChatEventsRange 1 2,
    .saveChatEvent (digitRow 2) 4]

/-- All three events are read. -/
theorem slice_of_guarded_oneRotation : ∃ s, (system digitParse).run {} oneRotation = some s
    ∧ (s.memos.loadChatEventsRange s.files 0 3).1
        = ([digitEvent 0, digitEvent 1, digitEvent 2], false) := by
  have hguarded : (system digitParse).Guarded InodeFresh {} oneRotation := by
    refine ⟨trivial, fun s₁ h₁ => ⟨trivial, fun s₂ h₂ => ⟨?_, fun _ _ => ⟨trivial,
      fun _ _ => ⟨trivial, fun _ _ => trivial⟩⟩⟩⟩⟩
    cases h₁
    cases h₂
    exact ⟨fun _ h => absurd h List.not_mem_nil, fun _ h => (by cases h)⟩
  obtain ⟨s, hs⟩ : ∃ s, (system digitParse).run {} oneRotation = some s := ⟨_, rfl⟩
  refine ⟨s, hs, ?_⟩
  rw [(slice_of_guarded hguarded hs 0 3).1]
  cases hs
  rfl

/-- The second rotation gives the live file a third inode number, and the
third one gives it back the number that was free again. -/
def threeRotations : List (RangeAction digitParse) :=
  oneRotation ++ [.archiveOldChatEvents 1 ⟨1, 5, 3, 5, (0, 0)⟩,
    .saveChatEvent (digitRow 3) 6, .archiveOldChatEvents 1 ⟨1, 7, 2, 7, (0, 0)⟩]

/-- **A memo of the file before the last but one is used.** The live file
has again the inode number the memo was read from, and is no shorter, so
that it is taken for the same file grown: the range of the last event is
answered with the second one. -/
theorem stale_slice : ∃ s, (system digitParse).run {} threeRotations = some s
    ∧ (s.memos.loadChatEventsRange s.files 3 4).1 = ([digitEvent 1], true)
    ∧ s.files.events = s.appended
    ∧ (s.appended.take 4).drop 3 = [digitEvent 3]
    ∧ ¬ (s.memos.loadChatEventsRange s.files 3 4).1
        = ((s.appended.take 4).drop 3, decide (0 < 3)) := by
  refine ⟨_, rfl, rfl, rfl, rfl, fun h => ?_⟩
  have hevents : [digitEvent 1] = [digitEvent 3] := congrArg Prod.fst h
  cases hevents

end RangeState
