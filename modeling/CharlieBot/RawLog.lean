import CharlieBot.Ndjson
import CharlieBot.TurnVerdict

/-!
# The raw log of a run

What a worker's process prints is kept as it is, and read again when the run is over: each line
is parsed, each document is translated into events, and the last result among them is how the run
ended.

The log has a reader of its own, which tries each line as it is before it takes the way of the
other readers. On a line that holds an object the two ways give the same. A line that holds null
is an event to this reader alone; and whatever the reader, a document that is no object is none a
translator can ask for its type. What the reader gives is what the others give, and can be
translated, exactly where no line holds such a document (`log_reads_iff`).
-/

namespace RawLog

open Ndjson

variable {σ : Type}

/-- One line of `parse_raw_lines`: the strict parse, and where it fails that of the line with what
is no text replaced. -/
def parseRawLine (py : Orjson) (piece : List UInt8) : List Json :=
  match (Utf8.decode piece).bind py.loads with
  | some event => [event]
  | none => (parseTextLine py (Utf8.decodeReplacing piece)).toList

def parseRawLines (py : Orjson) (rawBytes : List UInt8) : List Json :=
  if _h : rawBytes = [] then []
  else
    match rawBytes.idxOf? lineFeed with
    | none => parseRawLine py rawBytes
    | some stop => parseRawLine py (rawBytes.take stop) ++ parseRawLines py (rawBytes.drop (stop + 1))
termination_by rawBytes.length
decreasing_by
  have := List.length_pos_iff.mpr _h
  rw [List.length_drop]
  omega

/-- `project_raw_events` with a translator that keeps a state; nothing where an event is no object,
which has no type to be asked for. -/
def projectRawEvents (translate : σ → Dict → σ × List Event) : σ → List Json → Option (List Event)
  | _, [] => some []
  | s, event :: events => do
    let fields ← event.asDict
    let (s', out) := translate s fields
    let rest ← projectRawEvents translate s' events
    pure (out ++ rest)

/-- `scan_result_exit`; nothing where it raises. -/
def scanResultExit (py : Orjson) (translate : σ → Dict → σ × List Event) (s : σ)
    (rawFile : Option (List UInt8)) : Option (List Event × Option Event × ℤ) := do
  let events ←
    match rawFile with
    | none => some []
    | some rawBytes => projectRawEvents translate s (parseRawLines py rawBytes)
  pure (events, Runs.summarizeResult events, TurnVerdict.scanExitCode events)

/-! ## Lines -/

theorem parseRawLine_nil (py : Orjson) : parseRawLine py [] = [] := by
  have hloads : py.loads [] = none := py.loads_blank [] fun c hc => absurd hc List.not_mem_nil
  have hstrict : (Utf8.decode []).bind py.loads = none := hloads
  unfold parseRawLine
  rw [hstrict]
  rfl

theorem parseRawLines_eq (py : Orjson) (rawBytes : List UInt8) :
    parseRawLines py rawBytes = (rawBytes.splitOn lineFeed).flatMap (parseRawLine py) := by
  by_cases hnil : rawBytes = []
  · subst hnil
    rw [parseRawLines, dif_pos rfl]
    show [] = [[]].flatMap (parseRawLine py)
    rw [List.flatMap_singleton, parseRawLine_nil]
  rw [parseRawLines, dif_neg hnil]
  by_cases hmem : lineFeed ∈ rawBytes
  · obtain ⟨before, after, hsplit, hbefore⟩ := List.eq_append_cons_of_mem hmem
    have hlt : after.length < rawBytes.length := by
      rw [hsplit, List.length_append, List.length_cons]
      omega
    have ih := parseRawLines_eq py after
    rw [hsplit, List.idxOf?_append_cons hbefore, List.splitOn_append_cons_self_of_not_mem hbefore,
      List.flatMap_cons, ← ih]
    dsimp only
    rw [List.take_left' rfl, ← List.drop_drop, List.drop_left' rfl, List.drop_one, List.tail_cons]
  · rw [List.idxOf?_eq_none_iff.mpr hmem, List.splitOn_eq_singleton hmem, List.flatMap_singleton]
termination_by rawBytes.length

/-! ## Where the reader gives what the others give -/

/-- What a line holds for the reader: its document, and where it has none that of the line with
what is no text replaced. -/
def documentOf (py : Orjson) (line : List UInt8) : Option Json :=
  ((Utf8.decode line).bind py.loads).or
    ((py.loads (Utf8.decodeReplacing line)).filter (!·.isNone))

theorem parseRawLine_eq (py : Orjson) (line : List UInt8) :
    parseRawLine py line = (documentOf py line).toList := by
  unfold parseRawLine documentOf
  cases (Utf8.decode line).bind py.loads with
  | none => rw [parseTextLine_eq, Option.none_or]
  | some event => rfl

theorem parseBytesLine_eq_filter (py : Orjson) (line : List UInt8) :
    parseBytesLine py line = (documentOf py line).filter (!·.isNone) := by
  unfold parseBytesLine documentOf
  by_cases hblank : line.all isSpaceByte
  · -- a blank line is no document
    have hspace : ∀ b ∈ line, isSpaceByte b = true := List.all_eq_true.mp hblank
    have hdecode := Utf8.decode_ascii fun b hb => (isSpace_of_isSpaceByte (hspace b hb)).1
    have hloads : py.loads (line.map fun b => Char.ofNat b.toNat) = none := by
      refine py.loads_blank _ fun c hc => ?_
      obtain ⟨b, hb, rfl⟩ := List.mem_map.mp hc
      exact (isSpace_of_isSpaceByte (hspace b hb)).2
    rw [if_pos hblank, Utf8.decodeReplacing_of_decode hdecode, hdecode, Option.bind_some, hloads]
    rfl
  · rw [if_neg hblank]
    cases (Utf8.decode line).bind py.loads with
    | some event => rfl
    | none =>
      rw [Option.none_or, Option.none_or, Option.filter_filter]
      simp

def IsObject (event : Json) : Prop := event.asDict.isSome = true

/-- **Every document of the log is an object.** -/
def HoldsObjects (py : Orjson) (rawBytes : List UInt8) : Prop :=
  ∀ line ∈ rawBytes.splitOn lineFeed, ∀ event ∈ documentOf py line, IsObject event

theorem not_isNone_of_isObject {event : Json} (h : IsObject event) : event.isNone = false := by
  cases event with
  | null => cases h
  | bool | int | float | str | arr | obj => rfl

theorem holdsObjects_iff (py : Orjson) (rawBytes : List UInt8) :
    HoldsObjects py rawBytes ↔ ∀ event ∈ parseRawLines py rawBytes, IsObject event := by
  unfold HoldsObjects
  simp only [parseRawLines_eq, parseRawLine_eq, List.mem_flatMap, Option.mem_toList]
  exact ⟨fun h event ⟨line, hline, hevent⟩ => h line hline event hevent,
    fun h line hline event hevent => h event ⟨line, hline, hevent⟩⟩

theorem HoldsObjects.same {py : Orjson} {rawBytes : List UInt8} (h : HoldsObjects py rawBytes) :
    parseRawLines py rawBytes = eventsOf py (rawBytes.splitOn lineFeed) := by
  unfold HoldsObjects at h
  rw [parseRawLines_eq]
  unfold eventsOf
  generalize rawBytes.splitOn lineFeed = lines at h ⊢
  induction lines with
  | nil => rfl
  | cons line lines ih =>
    obtain ⟨hline, hlines⟩ := List.forall_mem_cons.mp h
    rw [List.flatMap_cons, ih hlines, List.filterMap_cons, parseRawLine_eq,
      parseBytesLine_eq_filter]
    cases hevent : documentOf py line with
    | none => rfl
    | some event =>
      have hnull := not_isNone_of_isObject (hline event hevent)
      rw [Option.filter_some, hnull]
      rfl

/-- **A projection succeeds** where every event is an object. -/
theorem isSome_projectRawEvents (translate : σ → Dict → σ × List Event) (s : σ)
    {events : List Json} (h : ∀ event ∈ events, IsObject event) :
    (projectRawEvents translate s events).isSome = true := by
  induction events generalizing s with
  | nil => rfl
  | cons event events ih =>
    obtain ⟨hevent, hevents⟩ := List.forall_mem_cons.mp h
    obtain ⟨fields, hfields⟩ := Option.isSome_iff_exists.mp hevent
    obtain ⟨rest, hrest⟩ := Option.isSome_iff_exists.mp (ih (translate s fields).1 hevents)
    unfold projectRawEvents
    rw [hfields]
    show Option.isSome ((projectRawEvents translate (translate s fields).1 events).bind _) = true
    rw [hrest]
    rfl

/-- **A log is read.** Its reader gives what the others give, each an object, and whatever
translates objects, neither the projection of the log nor the scan for its result raises. -/
structure Reads (py : Orjson) (rawBytes : List UInt8) : Prop where
  same : parseRawLines py rawBytes = eventsOf py (rawBytes.splitOn lineFeed)
  objects : ∀ event ∈ parseRawLines py rawBytes, IsObject event
  projected : ∀ {σ : Type} (translate : σ → Dict → σ × List Event) (s : σ),
    (projectRawEvents translate s (parseRawLines py rawBytes)).isSome = true
  scanned : ∀ {σ : Type} (translate : σ → Dict → σ × List Event) (s : σ),
    (scanResultExit py translate s (some rawBytes)).isSome = true

/-- **Exactly when a log is read**: every line that holds a document holds an object. -/
theorem log_reads_iff (py : Orjson) (rawBytes : List UInt8) :
    Reads py rawBytes ↔ HoldsObjects py rawBytes := by
  constructor
  · intro h
    exact (holdsObjects_iff py rawBytes).mpr h.objects
  · intro h
    have hobjects := (holdsObjects_iff py rawBytes).mp h
    refine ⟨h.same, hobjects, fun translate s => isSome_projectRawEvents translate s hobjects,
      fun translate s => ?_⟩
    obtain ⟨events, hevents⟩ :=
      Option.isSome_iff_exists.mp (isSome_projectRawEvents translate s hobjects)
    unfold scanResultExit
    dsimp only
    rw [hevents]
    rfl

/-! ## A line that holds null -/

def knowsNull : Orjson where
  loads line :=
    if line.rdropWhile (fun c => [' ', '\t', '\n', '\r'].contains c) = ['n', 'u', 'l', 'l'] then
      some .null
    else none
  loads_concat_blank line c hc := by
    rw [List.rdropWhile_concat_pos _ _ _ (by simpa using hc)]
  loads_blank line hblank := by
    rw [if_neg]
    intro heq
    have hmem : 'n' ∈ line := ( List.rdropWhile_prefix _ line).subset (by rw [heq]; simp)
    exact absurd (hblank _ hmem) (by decide)

def nullLine : List UInt8 := [0x6E, 0x75, 0x6C, 0x6C, 10]

/-- **A line that holds null is an event to the reader of logs alone**, and the scan for the
result raises on it. -/
theorem not_reads_null :
    ¬ Reads knowsNull nullLine
      ∧ parseRawLines knowsNull nullLine = [.null]
      ∧ eventsOf knowsNull (nullLine.splitOn lineFeed) = []
      ∧ scanResultExit knowsNull (fun _ fields => ((), [fields])) () (some nullLine) = none := by
  have hlog : parseRawLines knowsNull nullLine = [.null] := by
    rw [parseRawLines_eq]
    rfl
  have hothers : eventsOf knowsNull (nullLine.splitOn lineFeed) = [] := rfl
  refine ⟨fun h => ?_, hlog, hothers, ?_⟩
  · have hsame := h.same
    rw [hlog, hothers] at hsame
    cases hsame
  · unfold scanResultExit
    dsimp only
    rw [hlog]
    rfl

end RawLog
