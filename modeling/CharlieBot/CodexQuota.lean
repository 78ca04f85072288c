import CharlieBot.Lib.Datetime
import CharlieBot.Lib.Stamped
import CharlieBot.Lib.TextLines
import CharlieBot.Ndjson
import Mathlib.Algebra.Order.Ring.Unbundled.Rat
import Mathlib.Data.List.MinMax
import Mathlib.Order.Bounds.Basic

/-!
# The reading of a quota

Every session of the coding agent appends to a rollout file, and some lines of it say how much
of the plan's quota is used. The usage strip shows the newest of them: each file that was written
of late is read from a window at its end, and from its start where the window has none; what was
found is kept under the file's signature, and of what all files gave the one with the greatest
timestamp is chosen.

What a reading should be is a plain scan: each line that a line feed ends is a document or none,
and a document is a reading of the plan's pool or none (`newestPlanEvent`). The scan of the code
differs from it in three ways. It asks documents for fields they need not have, and raises; it
decodes many lines at once, so that one that is no text makes the others unreadable; and it cuts
lines at more characters than the line feed. Each lets one file take the reading of all the
others with it. A fetch is right exactly where none of it happens in a file it scans
(`readings_right_iff`).
-/

namespace CodexQuota

/-- The path of a rollout file. -/
abbrev Path := String

/-- **What the reader uses of the language.** -/
structure Python where
  /-- `json.loads`: nothing where it raises another error than `JSONDecodeError`, and nothing
  inside where it raises that. -/
  loads : List Char → Option (Option Json)
  /-- `datetime.fromisoformat`; nothing where it raises. -/
  fromisoformat : String → Option DateTime
  /-- `st_mtime` of an `st_mtime_ns`. -/
  stMtime : ℕ → ℚ

structure RolloutFile where
  bytes : List UInt8
  mtimeNs : ℕ
  deriving DecidableEq

/-- What tells whether a file changed. -/
def RolloutFile.signature (file : RolloutFile) : StatSignature :=
  (file.mtimeNs, file.bytes.length)

/-! ## Events -/

/-- `_is_plan_pool_event`; nothing where it raises. -/
def isPlanPoolEvent (event : Dict) : Option Bool := do
  let payload ← (event.getD "payload" (.obj [])).asDict
  let rateLimits ← ((payload.get "rate_limits").or (.obj [])).asDict
  pure ((rateLimits.get "limit_id").isText "codex" || !(rateLimits.get "limit_name").truthy)

/-- What the loop of `_latest_token_count_event` makes of a document: nothing where it raises, and
nothing inside where it goes on. -/
def scanDocument (accepts : Option (Dict → Option Bool)) (document : Json) :
    Option (Option Dict) := do
  let event ← document.asDict
  if !(event.get "type").isText "event_msg" then return none
  let payload ← (event.getD "payload" (.obj [])).asDict
  if !(payload.get "type").isText "token_count" then return none
  match accepts with
  | none => return some event
  | some accept => if ← accept event then return some event else return none

/-- One turn of the loop. -/
def scanLine (py : Python) (accepts : Option (Dict → Option Bool)) (rawLine : List Char) :
    Option (Option Dict) :=
  let line := Text.strip rawLine
  if line.isEmpty then some none
  else
    match py.loads line with
    | none => none
    | some none => some none
    | some (some document) => scanDocument accepts document

/-- The loop of `_latest_token_count_event`, over lines of which the newest is the first. -/
def scanNewestFirst (py : Python) (accepts : Option (Dict → Option Bool)) :
    List (List Char) → Option (Option Dict)
  | [] => some none
  | rawLine :: older =>
    match scanLine py accepts rawLine with
    | none => none
    | some (some event) => some (some event)
    | some none => scanNewestFirst py accepts older

def latestTokenCountEvent (py : Python) (lines : List (List Char))
    (accepts : Option (Dict → Option Bool)) : Option (Option Dict) :=
  scanNewestFirst py accepts lines.reverse

def usageTailBytes : ℕ := 1048576

/-- `blob.split(b"\n", 1)[1]`, and nothing where there is no line feed. -/
def behindFirstLine : List UInt8 → List UInt8
  | [] => []
  | b :: rest => if b = lineFeed then rest else behindFirstLine rest

def windowOffset (size : ℕ) : ℕ := size - usageTailBytes

/-- The window of a file, from a line's start on. -/
def window (bytes : List UInt8) (size : ℕ) : List UInt8 :=
  let blob := bytes.drop (windowOffset size)
  if windowOffset size = 0 then blob else behindFirstLine blob

/-- `path.read_text()`. -/
def readText (bytes : List UInt8) : Option (List Char) :=
  (Utf8.decode bytes).map Ndjson.translateNewlines

/-- `_read_latest_token_count_event`; nothing where it raises. -/
def readLatestTokenCountEvent (py : Python) (bytes : List UInt8) (size : ℕ)
    (accepts : Option (Dict → Option Bool)) : Option (Option Dict) := do
  let text ← Utf8.decode (window bytes size)
  let event ← latestTokenCountEvent py (Text.splitLines text) accepts
  if event.isSome || windowOffset size = 0 then return event
  let whole ← readText bytes
  latestTokenCountEvent py (Text.splitLines whole) accepts

/-- `_parse_codex_timestamp`; nothing where it raises. -/
def parseCodexTimestamp (py : Python) (timestamp : Json) : Option Moment := do
  let text ← timestamp.asText
  let parsed ← py.fromisoformat text
  let micros ← parsed.utc?
  Moment.ofMicros micros

/-- The key of `max`: the timestamp of an event. -/
def timestampOf (py : Python) (event : Dict) : Option Moment :=
  (event.item "timestamp").bind (parseCodexTimestamp py)

/-! ## A fetch -/

/-- The kept readings of files. -/
abbrev UsageCache := Path → Option (Stamped StatSignature (Option Dict))

/-- What a fetch gives. -/
inductive Reading
  | usage (event : Dict)
  | noReading
  | raised
  deriving Inhabited

/-- `stats`: the files that are there. -/
def statAll (files : Path → Option RolloutFile) (rolloutPaths : List Path) :
    List (Path × RolloutFile) :=
  rolloutPaths.eraseDups.filterMap fun path => (files path).map (path, ·)

/-- `scan`: the files that were written of late, or else the one that was written last. -/
def scanSet (py : Python) (stats : List (Path × RolloutFile)) (now : ℚ) :
    List (Path × RolloutFile) :=
  let minMtime := now - 6 * 3600
  let scan := stats.filter fun p => minMtime ≤ py.stMtime p.2.mtimeNs
  if scan.isEmpty then
    (stats.argmax fun p : Path × RolloutFile => py.stMtime p.2.mtimeNs).toList
  else scan

def answerOf (py : Python) (file : RolloutFile) : Option (Option Dict) :=
  readLatestTokenCountEvent py file.bytes file.bytes.length (some isPlanPoolEvent)

/-- One file of the loop: the kept event, or the one that is read and kept. -/
def eventOf (py : Python) (cache : UsageCache) (p : Path × RolloutFile) :
    Option (Option Dict × UsageCache) :=
  match Stamped.fresh (cache p.1) p.2.signature with
  | some event => some (event, cache)
  | none =>
    (answerOf py p.2).map fun event =>
      (event, Function.update cache p.1 (some ⟨event, p.2.signature⟩))

/-- The loop over the files to scan: the events they gave, or nothing where one raises, and what
is kept. -/
def readAll (py : Python) (cache : UsageCache) :
    List (Path × RolloutFile) → Option (List Dict) × UsageCache
  | [] => (some [], cache)
  | p :: scan =>
    match eventOf py cache p with
    | none => (none, cache)
    | some (event, cache) =>
      let rest := readAll py cache scan
      (rest.1.map (event.toList ++ ·), rest.2)

/-- `max(events, key=…)`; nothing where a key raises. -/
def chooseEvent (py : Python) (events : List Dict) : Option (Option Dict) :=
  (events.mapM fun event => (timestampOf py event).map (event, ·)).map
    fun keyed =>
      (@List.argmax _ ℤ Int.instLinearOrder.toPreorder Int.decLt (·.2.micros) keyed).map (·.1)

structure Fetched where
  reading : Reading
  usageCache : UsageCache
  lastError : String

/-- What `_fetch_usage` makes of the events, with what `fetch` does where it raises. -/
def conclude (py : Python) (events : List Dict) (cache : UsageCache) (lastError : String) :
    Fetched :=
  if events.isEmpty then ⟨.noReading, cache, "no plan-quota reading in 6h"⟩
  else
    match chooseEvent py events with
    | none => ⟨.raised, cache, "usage read failed"⟩
    | some none => ⟨.noReading, cache, lastError⟩
    | some (some chosen) => ⟨.usage chosen, cache, lastError⟩

def prune (scan : List (Path × RolloutFile)) (cache : UsageCache) : UsageCache :=
  fun path => if path ∈ scan.map (·.1) then cache path else none

/-- `_fetch_usage`, with what `fetch` does where it raises. -/
def fetchUsage (py : Python) (files : Path → Option RolloutFile) (cache : UsageCache)
    (lastError : String) (rolloutPaths : List Path) (now : ℚ) : Fetched :=
  let stats := statAll files rolloutPaths
  if stats.isEmpty then ⟨.noReading, cache, "no sessions found"⟩
  else
    let scan := scanSet py stats now
    match readAll py cache scan with
    | (none, cache) => ⟨.raised, cache, "usage read failed"⟩
    | (some events, cache) => conclude py events (prune scan cache) lastError

/-! ## Runs -/

/-- **The files and the provider.** -/
structure State where
  files : Path → Option RolloutFile
  /-- Everything that was ever in a file. -/
  written : Path → List RolloutFile
  usageCache : UsageCache
  lastError : String

/-- Nothing written, nothing read. -/
def initial : State := ⟨fun _ => none, fun _ => [], fun _ => none, "no sessions found"⟩

inductive Action
  | write (path : Path) (file : RolloutFile)
  | remove (path : Path)
  | fetch (rolloutPaths : List Path) (now : ℚ)

def State.write (s : State) (path : Path) (file : RolloutFile) : State :=
  { s with
    files := Function.update s.files path (some file)
    written := Function.update s.written path (file :: s.written path) }

def State.fetched (py : Python) (s : State) (rolloutPaths : List Path) (now : ℚ) : Fetched :=
  fetchUsage py s.files s.usageCache s.lastError rolloutPaths now

def step (py : Python) (s : State) : Action → State
  | .write path file => s.write path file
  | .remove path => { s with files := Function.update s.files path none }
  | .fetch rolloutPaths now =>
    let r := s.fetched py rolloutPaths now
    { s with usageCache := r.usageCache, lastError := r.lastError }

/-- The files and the provider as they act. -/
def system (py : Python) : TransitionSystem State Action := ⟨fun s a => some (step py s a)⟩

/-- **A changed file has a signature it never had.** -/
def NewSignature (s : State) : Action → Prop
  | .write path file => ∀ g ∈ s.written path, g.signature = file.signature → g = file
  | _ => True

instance (s : State) (a : Action) : Decidable (NewSignature s a) := by
  cases a with
  | write path file => exact inferInstanceAs (Decidable (∀ g ∈ s.written path, _ → _))
  | remove path => exact inferInstanceAs (Decidable True)
  | fetch rolloutPaths now => exact inferInstanceAs (Decidable True)

/-! ## The plain scan -/

/-- What is asked of the limits of an event; where there are none they are empty. -/
def planLimits (limits : Json) : Bool :=
  match limits.or (.obj []) with
  | .obj limits =>
    (Dict.get limits "limit_id").isText "codex" || !(Dict.get limits "limit_name").truthy
  | _ => false

/-- **A token count of the plan's pool**, whatever the other fields are. -/
def isReading (event : Dict) : Bool :=
  (event.get "type").isText "event_msg" &&
    match event.getD "payload" (.obj []) with
    | .obj payload =>
      (Dict.get payload "type").isText "token_count" && planLimits (Dict.get payload "rate_limits")
    | _ => false

/-- The document of a line; nothing where there is none. -/
def documentOf (py : Python) (line : List Char) : Option Json :=
  let line := Text.strip line
  if line.isEmpty then none else (py.loads line).join

/-- The reading a line holds. -/
def planEventOf (py : Python) (line : List Char) : Option Dict :=
  ((documentOf py line).bind Json.asDict).filter isReading

/-- **The newest reading of a file**: each line that a line feed ends is taken for itself. -/
def newestPlanEvent (py : Python) (bytes : List UInt8) : Option Dict :=
  (bytes.splitOn lineFeed).reverse.findSome? fun line =>
    (Utf8.decode line).bind (planEventOf py)

/-! ## Where the scan of the code reads a file -/

/-- A document that has the fields it is asked for. -/
def WellShaped (document : Json) : Prop :=
  ∃ event : Dict, document = .obj event ∧ ((event.get "type").isText "event_msg" = true →
    ∃ payload : Dict, event.getD "payload" (.obj []) = .obj payload ∧
      ((payload.get "type").isText "token_count" = true →
        ∃ limits : Dict, (payload.get "rate_limits").or (.obj []) = .obj limits))

/-- A line that is blank, or that the parser answers with no document or with one that has the
fields it is asked for. -/
def LineReads (py : Python) (line : List Char) : Prop :=
  Text.strip line ≠ [] → ∃ answer, py.loads (Text.strip line) = some answer ∧
    ∀ document ∈ answer, WellShaped document

/-- The lines down to the newest reading are such lines; the newest is the first. -/
def Reads (py : Python) : List (List Char) → Prop
  | [] => True
  | line :: older => LineReads py line ∧ (planEventOf py line = none → Reads py older)

/-- The newest reading of the lines `splitlines` makes of a text. -/
def newestIn (py : Python) (text : List Char) : Option Dict :=
  (Text.splitLines text).reverse.findSome? (planEventOf py)

/-- **A text is read**, down to its newest reading. -/
def TextReads (py : Python) (text : List Char) : Prop := Reads py (Text.splitLines text).reverse

/-- **A file is read as a plain scan reads it.** Its window is a text whose lines are read, and
the newest reading of them is that of the file; or there is none in the window, and the same is
so of the file as a whole. -/
def Readable (py : Python) (bytes : List UInt8) : Prop :=
  ∃ text, Utf8.decode (window bytes bytes.length) = some text ∧ TextReads py text ∧
    if newestIn py text = none ∧ usageTailBytes < bytes.length then
      ∃ whole, Utf8.decode bytes = some whole ∧ TextReads py whole ∧
        newestIn py whole = newestPlanEvent py bytes
    else newestIn py text = newestPlanEvent py bytes

theorem isPlanPoolEvent_eq {event payload : Dict}
    (hpayload : event.getD "payload" (.obj []) = .obj payload) :
    isPlanPoolEvent event = ((payload.get "rate_limits").or (.obj [])).asDict.map fun _ =>
      planLimits (payload.get "rate_limits") := by
  unfold isPlanPoolEvent planLimits
  rw [hpayload]
  show (((payload.get "rate_limits").or (.obj [])).asDict.bind _) = _
  cases (payload.get "rate_limits").or (.obj []) <;> rfl

theorem scanDocument_obj (event : Dict) (r : Option Dict) :
    scanDocument (some isPlanPoolEvent) (.obj event) = some r
      ↔ ((event.get "type").isText "event_msg" = true →
          ∃ payload : Dict, event.getD "payload" (.obj []) = .obj payload ∧
            ((payload.get "type").isText "token_count" = true →
              ∃ limits : Dict, (payload.get "rate_limits").or (.obj []) = .obj limits))
        ∧ (if isReading event then some event else none) = r := by
  show (if !(event.get "type").isText "event_msg" then some none else _) = some r ↔ _
  unfold isReading
  cases htype : (event.get "type").isText "event_msg" with
  | false => simp
  | true =>
    cases hpayload : event.getD "payload" (.obj []) with
    | null | bool b | int n | float m e | str t | arr xs => simp [Json.asDict]
    | obj payload =>
      show (if !(Dict.get payload "type").isText "token_count" then some none else _) = some r ↔ _
      cases hcount : (Dict.get payload "type").isText "token_count" with
      | false => simp [hcount]
      | true =>
        show ((isPlanPoolEvent event).bind fun b => if b then some (some event) else some none)
          = some r ↔ _
        rw [isPlanPoolEvent_eq hpayload]
        cases hlimits : (Dict.get payload "rate_limits").or (.obj []) with
        | null | bool b | int n | float m e | str t | arr xs => simp [Json.asDict, hcount, hlimits]
        | obj limits =>
          cases hpool : planLimits (Dict.get payload "rate_limits") <;>
            simp [Json.asDict, hlimits, hcount, hpool]

/-- **A document is scanned for what it holds**, if it has the fields it is asked for. -/
theorem scanDocument_eq_some {document : Json} {r : Option Dict} :
    scanDocument (some isPlanPoolEvent) document = some r
      ↔ WellShaped document ∧ document.asDict.filter isReading = r := by
  cases document with
  | obj event =>
    rw [scanDocument_obj]
    unfold WellShaped
    simp [Json.asDict, Option.filter_some]
  | null | bool b | int n | float m e | str t | arr xs =>
    constructor
    · intro h
      cases h
    · rintro ⟨⟨event, h, -⟩, -⟩
      cases h

theorem scanLine_eq_some {py : Python} {line : List Char} {r : Option Dict} :
    scanLine py (some isPlanPoolEvent) line = some r
      ↔ LineReads py line ∧ planEventOf py line = r := by
  unfold scanLine LineReads planEventOf documentOf
  by_cases hblank : Text.strip line = []
  · simp [hblank]
  · have hempty : (Text.strip line).isEmpty = false := by simpa using hblank
    simp only [hempty, Bool.false_eq_true, if_false]
    cases py.loads (Text.strip line) with
    | none => simp [hblank]
    | some answer =>
      cases answer with
      | none => simp
      | some document =>
        show scanDocument _ _ = _ ↔ _
        rw [scanDocument_eq_some]
        simp [hblank]

/-- **The loop gives the newest reading**, if it can read the lines down to it. -/
theorem scanNewestFirst_eq_some {py : Python} {lines : List (List Char)} {r : Option Dict} :
    scanNewestFirst py (some isPlanPoolEvent) lines = some r
      ↔ Reads py lines ∧ lines.findSome? (planEventOf py) = r := by
  induction lines with
  | nil => simp [scanNewestFirst, Reads]
  | cons line older ih =>
    unfold scanNewestFirst Reads
    rw [List.findSome?_cons]
    cases hscan : scanLine py (some isPlanPoolEvent) line with
    | none =>
      have hreads : ¬ LineReads py line := fun h => by
        rw [scanLine_eq_some.mpr ⟨h, rfl⟩] at hscan
        cases hscan
      simp [hreads]
    | some found =>
      obtain ⟨hreads, hfound⟩ := scanLine_eq_some.mp hscan
      rw [hfound]
      cases found with
      | none => simp [hreads, ih]
      | some event => simp [hreads]

theorem splitLinesAux_translateNewlines (cur text : List Char) :
    Text.splitLinesAux cur (Ndjson.translateNewlines text) = Text.splitLinesAux cur text := by
  fun_induction Ndjson.translateNewlines text generalizing cur with
  | case1 => rfl
  | case2 rest ih =>
    rw [Text.splitLinesAux_lineFeed, ih]
    rfl
  | case3 c rest hcrlf ih =>
    by_cases hc : c = '\r'
    · -- no line feed follows, so that the carriage return ends the line by itself
      subst hc
      rw [if_pos rfl, Text.splitLinesAux_lineFeed, ih,
        Text.splitLinesAux.eq_3 cur '\r' rest fun rest' _ => hcrlf rest' rfl]
      rfl
    · rw [if_neg hc, Text.splitLinesAux.eq_3 _ _ _ fun rest' heq _ => hc heq,
        Text.splitLinesAux.eq_3 _ _ _ fun rest' heq _ => hc heq, ih, ih]

theorem latestTokenCountEvent_eq_some {py : Python} {text : List Char} {r : Option Dict} :
    latestTokenCountEvent py (Text.splitLines text) (some isPlanPoolEvent) = some r
      ↔ TextReads py text ∧ newestIn py text = r := scanNewestFirst_eq_some

theorem latestTokenCountEvent_readText {py : Python} {bytes : List UInt8} {r : Option Dict} :
    ((readText bytes).bind fun whole =>
        latestTokenCountEvent py (Text.splitLines whole) (some isPlanPoolEvent)) = some r
      ↔ ∃ whole, Utf8.decode bytes = some whole ∧ TextReads py whole ∧ newestIn py whole = r := by
  unfold readText
  rw [Option.bind_map, Option.bind_eq_some_iff]
  refine exists_congr fun whole => and_congr_right fun _ => ?_
  show latestTokenCountEvent py (Text.splitLines _) _ = _ ↔ _
  unfold Text.splitLines
  rw [splitLinesAux_translateNewlines]
  exact latestTokenCountEvent_eq_some

/-- **A file's answer is that of the plain scan** exactly where the file is read as the plain scan
reads it. -/
theorem readLatest_eq_some_iff (py : Python) (bytes : List UInt8) :
    readLatestTokenCountEvent py bytes bytes.length (some isPlanPoolEvent)
        = some (newestPlanEvent py bytes) ↔ Readable py bytes := by
  show ((Utf8.decode (window bytes bytes.length)).bind fun text =>
    (latestTokenCountEvent py (Text.splitLines text) (some isPlanPoolEvent)).bind fun event =>
      if event.isSome || windowOffset bytes.length = 0 then some event
      else (readText bytes).bind fun whole =>
        latestTokenCountEvent py (Text.splitLines whole) (some isPlanPoolEvent)) = _ ↔ _
  unfold Readable
  rw [Option.bind_eq_some_iff]
  refine exists_congr fun text => and_congr_right fun _ => ?_
  have hoffset : windowOffset bytes.length = 0 ↔ ¬ usageTailBytes < bytes.length := by
    unfold windowOffset
    omega
  rw [Option.bind_eq_some_iff]
  simp only [latestTokenCountEvent_eq_some, and_assoc, exists_and_left, exists_eq_left']
  refine and_congr_right fun _ => ?_
  cases hnewest : newestIn py text with
  | some event => simp
  | none =>
    by_cases hsize : usageTailBytes < bytes.length
    · have hne : ¬ windowOffset bytes.length = 0 := fun h => hoffset.mp h hsize
      rw [if_neg (by simpa using hne), if_pos ⟨rfl, hsize⟩]
      exact latestTokenCountEvent_readText
    · rw [if_pos (by simpa using hoffset.mpr hsize), if_neg fun h => hsize h.2]
      exact ⟨Option.some.inj, congrArg some⟩

/-! ## Files of plain lines -/

theorem behindFirstLine_of_not_mem {blob : List UInt8} (h : lineFeed ∉ blob) :
    behindFirstLine blob = [] := by
  induction blob with
  | nil => rfl
  | cons b blob ih =>
    rw [List.mem_cons, not_or] at h
    rw [behindFirstLine, if_neg (Ne.symm h.1), ih h.2]

theorem behindFirstLine_append {first : List UInt8} (h : lineFeed ∉ first) (rest : List UInt8) :
    behindFirstLine (first ++ lineFeed :: rest) = rest := by
  induction first with
  | nil => exact if_pos rfl
  | cons b first ih =>
    rw [List.mem_cons, not_or] at h
    rw [List.cons_append, behindFirstLine, if_neg (Ne.symm h.1), ih h.2]

theorem window_of_le {bytes : List UInt8} (h : bytes.length ≤ usageTailBytes) :
    window bytes bytes.length = bytes := by
  have hoffset : windowOffset bytes.length = 0 := Nat.sub_eq_zero_of_le h
  unfold window
  rw [hoffset]
  rfl

/-- **The window of a longer file is empty, or its last lines.** -/
theorem window_of_lt {bytes : List UInt8} (h : usageTailBytes < bytes.length) :
    window bytes bytes.length = [] ∨
      ∃ before, bytes = before ++ lineFeed :: window bytes bytes.length := by
  have hoffset : windowOffset bytes.length ≠ 0 := by
    unfold windowOffset
    omega
  unfold window
  rw [if_neg hoffset]
  by_cases hmem : lineFeed ∈ bytes.drop (windowOffset bytes.length)
  · obtain ⟨first, rest, hsplit, hfirst⟩ := List.eq_append_cons_of_mem hmem
    refine .inr ⟨bytes.take (windowOffset bytes.length) ++ first, ?_⟩
    rw [hsplit, behindFirstLine_append hfirst, List.append_assoc, ← hsplit,
      List.take_append_drop]
  · exact .inl (behindFirstLine_of_not_mem hmem)

/-- **A reading in the last lines of a file is the newest of the file.** -/
theorem newestPlanEvent_append (py : Python) (before after : List UInt8) :
    newestPlanEvent py (before ++ lineFeed :: after)
      = (newestPlanEvent py after).or (newestPlanEvent py before) := by
  unfold newestPlanEvent
  rw [List.splitOn_append_cons_self, List.reverse_append, List.findSome?_append]

/-- A text whose lines end at line feeds alone. -/
def Plain (text : List Char) : Prop := ∀ c ∈ text, Text.isLineBreak c = true → c = '\n'

theorem planEventOf_nil (py : Python) : planEventOf py [] = none := rfl

/-- **The lines of such a text are what stands between its line feeds**, and nothing stands behind
a line feed at its end. -/
theorem Plain.splitOn_eq {text : List Char} (h : Plain text) :
    text.splitOn '\n' = Text.splitLines text ∨
      text.splitOn '\n' = Text.splitLines text ++ [[]] := by
  by_cases hmem : '\n' ∈ text
  · obtain ⟨line, rest, hsplit, hline⟩ := List.eq_append_cons_of_mem hmem
    have hlt : rest.length < text.length := by
      rw [hsplit, List.length_append, List.length_cons]
      omega
    have hclean : ∀ c ∈ line, Text.isLineBreak c = false := fun c hc =>
      Bool.eq_false_iff.mpr fun hbreak =>
        hline (h c (by rw [hsplit]; exact List.mem_append_left _ hc) hbreak ▸ hc)
    have hrest : Plain rest := fun c hc =>
      h c (by rw [hsplit]; exact List.mem_append_right _ (List.mem_cons_of_mem _ hc))
    have hlines : Text.splitLines text = line :: Text.splitLines rest := by
      unfold Text.splitLines
      rw [hsplit, Text.splitLinesAux_append hclean, List.append_nil, Text.splitLinesAux_lineFeed,
        List.reverse_reverse]
    rw [hlines, hsplit, List.splitOn_append_cons_self_of_not_mem hline]
    exact hrest.splitOn_eq.imp (congrArg (line :: ·)) (congrArg (line :: ·))
  · rw [List.splitOn_eq_singleton hmem]
    have hclean : ∀ c ∈ text, Text.isLineBreak c = false := fun c hc =>
      Bool.eq_false_iff.mpr fun hbreak => hmem (h c hc hbreak ▸ hc)
    by_cases hnil : text = []
    · rw [hnil]
      exact .inr rfl
    · exact .inl (Text.splitLinesAux_of_clean hclean hnil).symm
termination_by text.length

theorem Plain.mem_splitOn {text line : List Char} (h : Plain text)
    (hline : line ∈ Text.splitLines text) : line ∈ text.splitOn '\n' := by
  rcases h.splitOn_eq with heq | heq
  · rwa [heq]
  · rw [heq]
    exact List.mem_append_left _ hline

theorem Plain.filterMap_splitLines (py : Python) {text : List Char} (h : Plain text) :
    (Text.splitLines text).filterMap (planEventOf py)
      = (text.splitOn '\n').filterMap (planEventOf py) := by
  rcases h.splitOn_eq with heq | heq
  · rw [heq]
  · rw [heq, List.filterMap_append]
    exact (List.append_nil _).symm

theorem findSome?_reverse_eq {α β : Type*} (f : α → Option β) (l : List α) :
    l.reverse.findSome? f = (l.filterMap f).getLast? := by
  rw [← List.head?_filterMap, List.filterMap_reverse, List.head?_reverse]

theorem filterMap_of_mapM (py : Python) {lines : List (List UInt8)} {texts : List (List Char)}
    (h : lines.mapM Utf8.decode = some texts) :
    texts.filterMap (planEventOf py)
      = lines.filterMap fun line => (Utf8.decode line).bind (planEventOf py) := by
  induction lines generalizing texts with
  | nil =>
    cases h
    rfl
  | cons line lines ih =>
    rw [List.mapM_cons] at h
    obtain ⟨text, htext, h⟩ := Option.bind_eq_some_iff.mp h
    obtain ⟨texts', htexts, h⟩ := Option.bind_eq_some_iff.mp h
    cases h
    rw [List.filterMap_cons, List.filterMap_cons, htext, ih htexts]
    rfl

/-- **Both scans of a plain text find the same.** -/
theorem Plain.newestIn_eq (py : Python) {bytes : List UInt8} {text : List Char}
    (hdecode : Utf8.decode bytes = some text) (h : Plain text) :
    newestIn py text = newestPlanEvent py bytes := by
  have hmapM := Utf8.mapM_decode_splitOn (b := lineFeed) (by decide) bytes
  rw [hdecode] at hmapM
  unfold newestIn newestPlanEvent
  rw [findSome?_reverse_eq, findSome?_reverse_eq, h.filterMap_splitLines,
    ← filterMap_of_mapM py hmapM]
  rfl

theorem reads_of_forall {py : Python} {lines : List (List Char)}
    (h : ∀ line ∈ lines, LineReads py line) : Reads py lines := by
  induction lines with
  | nil => trivial
  | cons line older ih =>
    exact ⟨h line List.mem_cons_self, fun _ => ih fun l hl => h l (List.mem_cons_of_mem _ hl)⟩

theorem Plain.textReads {py : Python} {text : List Char} (h : Plain text)
    (hlines : ∀ line ∈ text.splitOn '\n', LineReads py line) : TextReads py text :=
  reads_of_forall fun line hline => hlines line (h.mem_splitOn (List.mem_reverse.mp hline))

/-- **A file is read as a plain scan reads it** where it is a text whose lines end at line feeds,
and each holds no document or one that has the fields it is asked for. -/
theorem Readable.of_plain {py : Python} {bytes : List UInt8} {text : List Char}
    (hdecode : Utf8.decode bytes = some text) (hplain : Plain text)
    (hlines : ∀ line ∈ text.splitOn '\n', LineReads py line) : Readable py bytes := by
  have hnewest := hplain.newestIn_eq py hdecode
  have hreads := hplain.textReads hlines
  unfold Readable
  by_cases hsize : usageTailBytes < bytes.length
  · rcases window_of_lt hsize with hwindow | ⟨before, hwindow⟩
    · -- the window holds no line, so that the whole file is read
      rw [hwindow]
      exact ⟨[], rfl, trivial, (if_pos ⟨rfl, hsize⟩).mpr ⟨text, hdecode, hreads, hnewest⟩⟩
    · have hcut := hdecode
      rw [hwindow, Utf8.decode_append_ascii before (by decide)] at hcut
      obtain ⟨text₀, -, hcut⟩ := Option.bind_eq_some_iff.mp hcut
      obtain ⟨text₁, hdecode₁, hcut⟩ := Option.map_eq_some_iff.mp hcut
      have hplain₁ : Plain text₁ := fun c hc =>
        hplain c (by rw [← hcut]; exact List.mem_append_right _ (List.mem_cons_of_mem _ hc))
      have hlines₁ : ∀ line ∈ text₁.splitOn '\n', LineReads py line := fun line hline =>
        hlines line (by
          rw [← hcut]
          show line ∈ (text₀ ++ '\n' :: text₁).splitOn '\n'
          rw [List.splitOn_append_cons_self]
          exact List.mem_append_right _ hline)
      refine ⟨text₁, hdecode₁, hplain₁.textReads hlines₁, ?_⟩
      have happend := newestPlanEvent_append py before (window bytes bytes.length)
      rw [← hwindow, ← hplain₁.newestIn_eq py hdecode₁] at happend
      cases hfound : newestIn py text₁ with
      | none => exact (if_pos ⟨rfl, hsize⟩).mpr ⟨text, hdecode, hreads, hnewest⟩
      | some event =>
        rw [hfound] at happend
        rw [if_neg fun hnone => (nomatch hnone.1), happend]
        rfl
  · rw [window_of_le (Nat.le_of_not_lt hsize)]
    refine ⟨text, hdecode, hreads, ?_⟩
    rwa [if_neg fun h => hsize h.2]

/-! ## The files that are scanned -/

theorem files_of_mem_statAll {files : Path → Option RolloutFile} {rolloutPaths : List Path}
    {p : Path × RolloutFile} (h : p ∈ statAll files rolloutPaths) : files p.1 = some p.2 := by
  obtain ⟨path, -, hpath⟩ := List.mem_filterMap.mp h
  obtain ⟨file, hfile, rfl⟩ := Option.map_eq_some_iff.mp hpath
  exact hfile

theorem scanSet_subset {py : Python} {stats : List (Path × RolloutFile)} {now : ℚ}
    {p : Path × RolloutFile} (h : p ∈ scanSet py stats now) : p ∈ stats := by
  unfold scanSet at h
  dsimp only at h
  split at h
  · exact List.argmax_mem (Option.mem_toList.mp h)
  · exact List.mem_of_mem_filter h

theorem files_of_mem_scanSet {py : Python} {files : Path → Option RolloutFile}
    {rolloutPaths : List Path} {now : ℚ} {p : Path × RolloutFile}
    (h : p ∈ scanSet py (statAll files rolloutPaths) now) : files p.1 = some p.2 :=
  files_of_mem_statAll (scanSet_subset h)

/-! ## The reading that is chosen -/

theorem isSome_chooseEvent {py : Python} {events : List Dict} :
    (chooseEvent py events).isSome = true
      ↔ ∀ event ∈ events, (timestampOf py event).isSome = true := by
  unfold chooseEvent
  rw [Option.isSome_map, List.isSome_mapM_iff]
  simp only [Option.isSome_map]

/-- **`max` gives an event with the greatest timestamp.** -/
theorem chooseEvent_spec {py : Python} {events : List Dict} (hne : events ≠ [])
    (hdated : ∀ event ∈ events, (timestampOf py event).isSome = true) :
    ∃ chosen at', chooseEvent py events = some (some chosen) ∧ chosen ∈ events ∧
      timestampOf py chosen = some at' ∧
      ∀ event ∈ events, ∀ m, timestampOf py event = some m → m.micros ≤ at'.micros := by
  let f := fun event => (timestampOf py event).map (event, ·)
  obtain ⟨keyed, hkeyed⟩ := Option.isSome_iff_exists.mp
    ((List.isSome_mapM_iff (f := f)).mpr fun event hevent => by
      rw [Option.isSome_map]
      exact hdated event hevent)
  have hpair : ∀ c ∈ keyed, c.1 ∈ events ∧ timestampOf py c.1 = some c.2 := by
    intro c hc
    obtain ⟨event, hevent, hf⟩ := List.exists_of_mem_mapM hkeyed hc
    obtain ⟨m, hm, rfl⟩ := Option.map_eq_some_iff.mp hf
    exact ⟨hevent, hm⟩
  have hall : ∀ event ∈ events, ∀ m, timestampOf py event = some m → (event, m) ∈ keyed := by
    intro event hevent m hm
    have hmap := List.map_eq_of_mapM_eq hkeyed
    have hmem : f event ∈ keyed.map some := hmap ▸ List.mem_map_of_mem hevent
    obtain ⟨c, hc, heq⟩ := List.mem_map.mp hmem
    have hf : f event = some (event, m) := congrArg (Option.map (event, ·)) hm
    rwa [← Option.some.inj (heq.trans hf)]
  cases hmax : keyed.argmax (·.2.micros) with
  | none =>
    have hnil := List.argmax_eq_none.mp hmax
    obtain ⟨event, hevent⟩ := List.exists_mem_of_ne_nil events hne
    obtain ⟨m, hm⟩ := Option.isSome_iff_exists.mp (hdated event hevent)
    have hmem := hall event hevent m hm
    rw [hnil] at hmem
    exact absurd hmem List.not_mem_nil
  | some c =>
    obtain ⟨hmem, hstamp⟩ := hpair c (List.argmax_mem hmax)
    refine ⟨c.1, c.2, ?_, hmem, hstamp, fun event hevent m hm => ?_⟩
    · unfold chooseEvent
      rw [show events.mapM _ = some keyed from hkeyed, Option.map_some, hmax]
      rfl
    · exact List.le_of_mem_argmax (f := fun c : Dict × Moment => c.2.micros)
        (hall event hevent m hm) hmax

@[simp] theorem usageCache_conclude (py : Python) (events : List Dict) (cache : UsageCache)
    (lastError : String) : (conclude py events cache lastError).usageCache = cache := by
  unfold conclude
  split
  · rfl
  · split <;> rfl

theorem reading_conclude_ne_raised {py : Python} {events : List Dict} {cache : UsageCache}
    {lastError : String} :
    (conclude py events cache lastError).reading ≠ .raised
      ↔ ∀ event ∈ events, (timestampOf py event).isSome = true := by
  rw [← isSome_chooseEvent]
  unfold conclude
  by_cases hempty : events.isEmpty
  · rw [if_pos hempty, List.isEmpty_iff.mp hempty]
    exact iff_of_true (fun h => (nomatch h)) rfl
  · rw [if_neg hempty]
    split
    · next hchoose =>
      rw [hchoose]
      exact iff_of_false (fun h => h rfl) Bool.false_ne_true
    · next hchoose =>
      rw [hchoose]
      exact iff_of_true (fun h => (nomatch h)) rfl
    · next hchoose =>
      rw [hchoose]
      exact iff_of_true (fun h => (nomatch h)) rfl

/-- **A choice is one of the events, with the greatest timestamp.** -/
theorem reading_conclude {py : Python} {events : List Dict} (cache : UsageCache)
    (lastError : String)
    (hdated : ∀ event ∈ events, (timestampOf py event).isSome = true) :
    events = [] ∧ (conclude py events cache lastError).reading = .noReading ∨
      ∃ chosen at', (conclude py events cache lastError).reading = .usage chosen ∧
        chosen ∈ events ∧ timestampOf py chosen = some at' ∧
        ∀ event ∈ events, ∀ m, timestampOf py event = some m → m.micros ≤ at'.micros := by
  by_cases hnil : events = []
  · subst hnil
    exact .inl ⟨rfl, rfl⟩
  · obtain ⟨chosen, at', hchoose, hrest⟩ := chooseEvent_spec hnil hdated
    refine .inr ⟨chosen, at', ?_, hrest⟩
    unfold conclude
    rw [if_neg fun h => hnil (List.isEmpty_iff.mp h), hchoose]

/-! ## What is kept -/

/-- What is kept is the answer of a file that was there under its signature. -/
def Kept (py : Python) (written : Path → List RolloutFile) (cache : UsageCache) : Prop :=
  ∀ path entry, cache path = some entry → ∃ file ∈ written path,
    file.signature = entry.stamp ∧ answerOf py file = some entry.content

theorem Kept.prune {py : Python} {written : Path → List RolloutFile} {cache : UsageCache}
    (h : Kept py written cache) (scan : List (Path × RolloutFile)) :
    Kept py written (prune scan cache) := by
  intro path entry hentry
  unfold CodexQuota.prune at hentry
  split at hentry
  · exact h path entry hentry
  · cases hentry

/-- **The invariant.** -/
structure Inv (py : Python) (s : State) : Prop where
  current : ∀ path file, s.files path = some file → file ∈ s.written path
  distinct : ∀ path, ∀ f ∈ s.written path, ∀ g ∈ s.written path,
    f.signature = g.signature → f = g
  kept : Kept py s.written s.usageCache

section

variable {py : Python} {s : State}

/-- **What is kept of an unchanged file is what a fresh read answers.** -/
theorem Inv.fresh (h : Inv py s) {cache : UsageCache} (hkept : Kept py s.written cache)
    {path : Path} {file : RolloutFile} (hfile : s.files path = some file)
    {event : Option Dict} (hfresh : Stamped.fresh (cache path) file.signature = some event) :
    answerOf py file = some event := by
  unfold Stamped.fresh at hfresh
  split at hfresh
  · next entry hentry =>
    split at hfresh
    · next hstamp =>
      obtain ⟨g, hg, hsig, hanswer⟩ := hkept path entry hentry
      have heq := h.distinct path g hg file (h.current path file hfile) (hsig.trans hstamp)
      rw [heq, hfresh] at hanswer
      exact hanswer
    · cases hfresh
  · cases hfresh

theorem eventOf_eq_none {cache : UsageCache} {p : Path × RolloutFile}
    (hevent : eventOf py cache p = none) : answerOf py p.2 = none := by
  unfold eventOf at hevent
  split at hevent
  · cases hevent
  · exact Option.map_eq_none_iff.mp hevent

theorem Inv.eventOf_eq_some (h : Inv py s) {cache cache' : UsageCache}
    (hkept : Kept py s.written cache) {p : Path × RolloutFile} (hfile : s.files p.1 = some p.2)
    {event : Option Dict} (hevent : eventOf py cache p = some (event, cache')) :
    answerOf py p.2 = some event ∧ Kept py s.written cache' ∧
      (∃ entry, cache' p.1 = some entry ∧ entry.content = event) ∧
      ∀ path ≠ p.1, cache' path = cache path := by
  unfold eventOf at hevent
  split at hevent
  · next event' hfresh =>
    obtain ⟨rfl, rfl⟩ := Prod.mk.inj (Option.some.inj hevent)
    refine ⟨h.fresh hkept hfile hfresh, hkept, ?_, fun _ _ => rfl⟩
    unfold Stamped.fresh at hfresh
    split at hfresh
    · next entry hentry =>
      split at hfresh
      · exact ⟨entry, hentry, Option.some.inj hfresh⟩
      · cases hfresh
    · cases hfresh
  · obtain ⟨event', hanswer, hevent⟩ := Option.map_eq_some_iff.mp hevent
    obtain ⟨rfl, rfl⟩ := Prod.mk.inj hevent
    refine ⟨hanswer, fun path entry hentry => ?_, ⟨_, Function.update_self .., rfl⟩,
      fun path hpath => Function.update_of_ne hpath ..⟩
    by_cases hpath : path = p.1
    · subst hpath
      rw [Function.update_self] at hentry
      rw [← Option.some.inj hentry]
      exact ⟨p.2, h.current p.1 p.2 hfile, rfl, hanswer⟩
    · rw [Function.update_of_ne hpath] at hentry
      exact hkept path entry hentry

/-- **The loop**: the answers of all files, and an entry that tells each. -/
theorem Inv.readAll (h : Inv py s) {cache : UsageCache} (hkept : Kept py s.written cache)
    {scan : List (Path × RolloutFile)} (hscan : ∀ p ∈ scan, s.files p.1 = some p.2) :
    Kept py s.written (readAll py cache scan).2 ∧
      (readAll py cache scan).1
        = (scan.mapM fun p => answerOf py p.2).map (·.flatMap Option.toList) ∧
      ((readAll py cache scan).1.isSome = true →
        (∀ p ∈ scan, ∃ entry,
          (readAll py cache scan).2 p.1 = some entry ∧ answerOf py p.2 = some entry.content) ∧
        ∀ path, path ∉ scan.map (·.1) → (readAll py cache scan).2 path = cache path) := by
  induction scan generalizing cache with
  | nil => exact ⟨hkept, rfl, fun _ => ⟨fun p hp => absurd hp List.not_mem_nil, fun _ _ => rfl⟩⟩
  | cons p scan ih =>
    have hfile := hscan p List.mem_cons_self
    have hscan' := fun q hq => hscan q (List.mem_cons_of_mem p hq)
    unfold CodexQuota.readAll
    rw [List.mapM_cons]
    split
    · next hevent =>
      rw [eventOf_eq_none hevent]
      exact ⟨hkept, rfl, fun hsome => (nomatch hsome)⟩
    · next event cache' hevent =>
      obtain ⟨hanswer, hkept', ⟨entry, hentry, hcontent⟩, hothers⟩ :=
        h.eventOf_eq_some hkept hfile hevent
      obtain ⟨hkept'', hevents, hrest⟩ := ih hkept' hscan'
      refine ⟨hkept'', ?_, fun hsome => ?_⟩
      · dsimp only
        rw [hevents, hanswer]
        cases scan.mapM fun p => answerOf py p.2 <;> rfl
      · dsimp only at hsome ⊢
        rw [Option.isSome_map] at hsome
        obtain ⟨hentries, hframe⟩ := hrest hsome
        refine ⟨fun q hq => ?_, fun path hpath => ?_⟩
        · by_cases hmem : q.1 ∈ scan.map (·.1)
          · -- a path that is scanned again has the same file
            obtain ⟨q', hq', heq⟩ := List.mem_map.mp hmem
            have hsame : q'.2 = q.2 :=
              Option.some.inj ((hscan' q' hq').symm.trans (heq ▸ hscan q hq))
            rw [← heq, ← hsame]
            exact hentries q' hq'
          · have hqp : q = p := by
              rcases List.mem_cons.mp hq with hqp | hq
              · exact hqp
              · exact absurd (List.mem_map_of_mem hq) hmem
            rw [hqp] at hmem ⊢
            exact ⟨entry, (hframe p.1 hmem).trans hentry, by rw [hanswer, hcontent]⟩
        · rw [List.map_cons, List.mem_cons, not_or] at hpath
          rw [hframe path hpath.2, hothers path hpath.1]

theorem Inv.kept_fetched (h : Inv py s) (rolloutPaths : List Path) (now : ℚ) :
    Kept py s.written (s.fetched py rolloutPaths now).usageCache := by
  have hscan : ∀ p ∈ scanSet py (statAll s.files rolloutPaths) now, s.files p.1 = some p.2 :=
    fun p hp => files_of_mem_scanSet hp
  have hkept := (h.readAll h.kept hscan).1
  unfold State.fetched fetchUsage
  dsimp only
  split
  · exact h.kept
  · split
    · next cache hread =>
      rwa [hread] at hkept
    · next events cache hread =>
      rw [hread] at hkept
      rw [usageCache_conclude]
      exact hkept.prune _

theorem Inv.step (h : Inv py s) {a : Action} (ha : NewSignature s a) :
    Inv py (CodexQuota.step py s a) := by
  cases a with
  | write path file =>
    have hmem : ∀ path' g, g ∈ (s.write path file).written path' →
        g ∈ s.written path' ∨ path' = path ∧ g = file := by
      intro path' g hg
      by_cases hpath : path' = path
      · subst hpath
        simp only [State.write, Function.update_self] at hg
        exact (List.mem_cons.mp hg).elim (fun heq => .inr ⟨rfl, heq⟩) .inl
      · simp only [State.write, Function.update_of_ne hpath] at hg
        exact .inl hg
    have hsub : ∀ path' g, g ∈ s.written path' → g ∈ (s.write path file).written path' := by
      intro path' g hg
      by_cases hpath : path' = path
      · subst hpath
        simp only [State.write, Function.update_self]
        exact List.mem_cons_of_mem _ hg
      · simp only [State.write, Function.update_of_ne hpath]
        exact hg
    refine ⟨fun path' g hg => ?_, fun path' f hf g hg hsig => ?_, fun path' entry hentry => ?_⟩
    · by_cases hpath : path' = path
      · subst hpath
        simp only [CodexQuota.step, State.write, Function.update_self] at hg ⊢
        rw [← Option.some.inj hg]
        exact List.mem_cons_self
      · simp only [CodexQuota.step, State.write, Function.update_of_ne hpath] at hg ⊢
        exact h.current path' g hg
    · rcases hmem path' f hf with hf' | ⟨rfl, rfl⟩
      · rcases hmem path' g hg with hg' | ⟨rfl, rfl⟩
        · exact h.distinct path' f hf' g hg' hsig
        · exact ha f hf' hsig
      · rcases hmem path' g hg with hg' | ⟨-, rfl⟩
        · exact (ha g hg' hsig.symm).symm
        · rfl
    · obtain ⟨g, hg, hrest⟩ := h.kept path' entry hentry
      exact ⟨g, hsub path' g hg, hrest⟩
  | remove path =>
    refine ⟨fun path' g hg => ?_, h.distinct, h.kept⟩
    by_cases hpath : path' = path
    · subst hpath
      simp [CodexQuota.step] at hg
    · simp only [CodexQuota.step, Function.update_of_ne hpath] at hg
      exact h.current path' g hg
  | fetch rolloutPaths now =>
    exact ⟨h.current, h.distinct, h.kept_fetched rolloutPaths now⟩

end

theorem Inv.initial (py : Python) : Inv py initial where
  current _ _ h := (nomatch h)
  distinct _ _ h := absurd h List.not_mem_nil
  kept _ _ h := (nomatch h)

/-- **The invariant holds along every run** whose changed files have new signatures. -/
theorem Inv.run {py : Python} {acts : List Action} {s : State}
    (hrun : (system py).run CodexQuota.initial acts = some s)
    (hnew : (system py).Guarded NewSignature CodexQuota.initial acts) : Inv py s := by
  refine (system py).run_invariant_of_guarded (fun s a t hs ha hstep => ?_) (Inv.initial py)
    hnew hrun
  rw [← Option.some.inj hstep]
  exact hs.step ha

/-! ## Fetches that are right -/

/-- The newest readings of the files with a timestamp, each with it. -/
def Candidate (py : Python) (scan : List (Path × RolloutFile)) (c : Dict × Moment) : Prop :=
  ∃ p ∈ scan, newestPlanEvent py p.2.bytes = some c.1 ∧ timestampOf py c.1 = some c.2

/-- **A fetch is right.** What is kept of each file is its newest reading, and what is chosen is
the one with the greatest timestamp; there is no reading only where no file has one. -/
structure Right (py : Python) (scan : List (Path × RolloutFile)) (r : Fetched) : Prop where
  answers : ∀ p ∈ scan, ∃ entry, r.usageCache p.1 = some entry ∧
    entry.content = newestPlanEvent py p.2.bytes
  reading : match r.reading with
    | .usage chosen => ∃ at', Candidate py scan (chosen, at') ∧
        ∀ c, Candidate py scan c → c.2.micros ≤ at'.micros
    | .noReading => ∀ c, ¬ Candidate py scan c
    | .raised => False

/-- The newest reading of a file has a timestamp. -/
def Dated (py : Python) (bytes : List UInt8) : Prop :=
  ∀ event ∈ newestPlanEvent py bytes, (timestampOf py event).isSome = true

theorem mem_events_iff {py : Python} {scan : List (Path × RolloutFile)} {events : List Dict}
    (h : some events = (scan.mapM fun p => answerOf py p.2).map (·.flatMap Option.toList))
    {event : Dict} :
    event ∈ events ↔ ∃ p ∈ scan, answerOf py p.2 = some (some event) := by
  obtain ⟨answers, hanswers, rfl⟩ := Option.map_eq_some_iff.mp h.symm
  rw [List.mem_flatMap]
  constructor
  · rintro ⟨answer, hanswer, hevent⟩
    rw [Option.mem_toList] at hevent
    obtain ⟨p, hp, hread⟩ := List.exists_of_mem_mapM hanswers hanswer
    exact ⟨p, hp, by rw [hread, Option.mem_def.mp hevent]⟩
  · rintro ⟨p, hp, hread⟩
    have hmem : answerOf py p.2 ∈ answers.map some :=
      List.map_eq_of_mapM_eq hanswers ▸ List.mem_map_of_mem hp
    obtain ⟨answer, hanswer, heq⟩ := List.mem_map.mp hmem
    rw [hread] at heq
    exact ⟨answer, hanswer, by rw [Option.some.inj heq]; exact List.mem_singleton_self event⟩

/-- **Exactly when what is made of the events is right**, where every file gave an answer that is
kept. -/
theorem right_conclude_iff {py : Python} {scan : List (Path × RolloutFile)} {events : List Dict}
    {cache : UsageCache} (lastError : String)
    (hevents : some events = (scan.mapM fun p => answerOf py p.2).map (·.flatMap Option.toList))
    (hkept : ∀ p ∈ scan, ∃ entry, cache p.1 = some entry ∧
      answerOf py p.2 = some entry.content) :
    Right py scan (conclude py events (prune scan cache) lastError)
      ↔ ∀ p ∈ scan, Readable py p.2.bytes ∧ Dated py p.2.bytes := by
  have hprune : ∀ p ∈ scan, prune scan cache p.1 = cache p.1 := fun p hp =>
    if_pos (List.mem_map_of_mem hp)
  constructor
  · intro hright p hp
    have hanswer : ∀ q ∈ scan, answerOf py q.2 = some (newestPlanEvent py q.2.bytes) := by
      intro q hq
      obtain ⟨entry, hentry, hcontent⟩ := hright.answers q hq
      obtain ⟨entry', hentry', hread⟩ := hkept q hq
      rw [usageCache_conclude, hprune q hq, hentry'] at hentry
      rw [hread, Option.some.inj hentry, hcontent]
    refine ⟨(readLatest_eq_some_iff py p.2.bytes).mp (hanswer p hp), fun event hevent => ?_⟩
    have hne : (conclude py events (prune scan cache) lastError).reading ≠ .raised := by
      intro hraised
      have hreading := hright.reading
      rw [hraised] at hreading
      exact hreading
    refine reading_conclude_ne_raised.mp hne event ((mem_events_iff hevents).mpr ⟨p, hp, ?_⟩)
    rw [hanswer p hp, Option.mem_def.mp hevent]
  · intro hall
    have hanswer : ∀ q ∈ scan, answerOf py q.2 = some (newestPlanEvent py q.2.bytes) := fun q hq =>
      (readLatest_eq_some_iff py q.2.bytes).mpr (hall q hq).1
    have hmem : ∀ event, event ∈ events ↔ ∃ p ∈ scan, newestPlanEvent py p.2.bytes = some event := by
      intro event
      rw [mem_events_iff hevents]
      refine exists_congr fun p => and_congr_right fun hp => ?_
      rw [hanswer p hp, Option.some.injEq]
    have hcandidate : ∀ c, Candidate py scan c ↔
        c.1 ∈ events ∧ timestampOf py c.1 = some c.2 := by
      intro c
      rw [hmem]
      exact ⟨fun ⟨p, hp, hnewest, hstamp⟩ => ⟨⟨p, hp, hnewest⟩, hstamp⟩,
        fun ⟨⟨p, hp, hnewest⟩, hstamp⟩ => ⟨p, hp, hnewest, hstamp⟩⟩
    have hdated : ∀ event ∈ events, (timestampOf py event).isSome = true := by
      intro event hevent
      obtain ⟨p, hp, hnewest⟩ := (hmem event).mp hevent
      exact (hall p hp).2 event hnewest
    refine ⟨fun p hp => ?_, ?_⟩
    · obtain ⟨entry, hentry, hread⟩ := hkept p hp
      rw [hanswer p hp] at hread
      rw [usageCache_conclude, hprune p hp]
      exact ⟨entry, hentry, (Option.some.inj hread).symm⟩
    · rcases reading_conclude (prune scan cache) lastError hdated with
        ⟨hnil, hreading⟩ | ⟨chosen, at', hreading, hchosen, hstamp, hgreatest⟩
      · rw [hreading]
        intro c hc
        have hin := ((hcandidate c).mp hc).1
        rw [hnil] at hin
        exact absurd hin List.not_mem_nil
      · rw [hreading]
        refine ⟨at', (hcandidate _).mpr ⟨hchosen, hstamp⟩, fun c hc => ?_⟩
        obtain ⟨hin, hc⟩ := (hcandidate c).mp hc
        exact hgreatest c.1 hin c.2 hc

/-- **Exactly when a fetch is right**: each file it scans is read as a plain scan reads it, and
the newest reading of each has a timestamp. -/
theorem Inv.readings_iff {py : Python} {s : State} (h : Inv py s) (rolloutPaths : List Path)
    (now : ℚ) :
    Right py (scanSet py (statAll s.files rolloutPaths) now) (s.fetched py rolloutPaths now)
      ↔ ∀ p ∈ scanSet py (statAll s.files rolloutPaths) now,
          Readable py p.2.bytes ∧ Dated py p.2.bytes := by
  have hscan : ∀ p ∈ scanSet py (statAll s.files rolloutPaths) now, s.files p.1 = some p.2 :=
    fun p hp => files_of_mem_scanSet hp
  obtain ⟨-, hevents, hentries⟩ := h.readAll h.kept hscan
  have hfetched : s.fetched py rolloutPaths now
      = fetchUsage py s.files s.usageCache s.lastError rolloutPaths now := rfl
  rw [hfetched]
  unfold fetchUsage
  dsimp only
  by_cases hempty : (statAll s.files rolloutPaths).isEmpty
  · rw [if_pos hempty, List.isEmpty_iff.mp hempty]
    have hnil : scanSet py [] now = [] := rfl
    rw [hnil]
    exact iff_of_true ⟨fun p hp => absurd hp List.not_mem_nil,
      fun c ⟨p, hp, _⟩ => absurd hp List.not_mem_nil⟩ fun p hp => absurd hp List.not_mem_nil
  · rw [if_neg hempty]
    generalize scanSet py (statAll s.files rolloutPaths) now = scan at hscan hevents hentries ⊢
    generalize hread : CodexQuota.readAll py s.usageCache scan = r at hevents hentries ⊢
    obtain ⟨events, cache⟩ := r
    cases events with
    | none =>
      -- a file raises, and then not every file is readable
      refine iff_of_false (fun hright => hright.reading) fun hall => ?_
      have hsome : (scan.mapM fun p => answerOf py p.2).isSome = true :=
        List.isSome_mapM_iff.mpr fun p hp => by
          rw [answerOf, (readLatest_eq_some_iff py p.2.bytes).mpr (hall p hp).1]
          rfl
      have hnone := Option.map_eq_none_iff.mp hevents.symm
      rw [hnone] at hsome
      cases hsome
    | some events => exact right_conclude_iff _ hevents (hentries rfl).1

/-- A line of a rollout file. -/
@[irreducible] def eventLine : List Char :=
  ['\x7b', '"', 't', 'y', 'p', 'e', '"', ':', '"', 'e', 'v', 'e', 'n', 't', '_', 'm', 's', 'g', '"',
    ',', '"', 'p', 'a', 'y', 'l', 'o', 'a', 'd', '"', ':', '\x7b', '"', 't', 'y', 'p', 'e', '"', ':',
    '"', 't', 'o', 'k', 'e', 'n', '_', 'c', 'o', 'u', 'n', 't', '"', '\x7d', ',', '"', 't', 'i', 'm',
    'e', 's', 't', 'a', 'm', 'p', '"', ':', '"', '2', '0', '2', '6', '-', '0', '7', '-', '0', '1',
    'T', '1', '0', ':', '0', '0', ':', '0', '0', 'Z', '"', '\x7d']

def event : Dict :=
  [("type", .str "event_msg"), ("payload", .obj [("type", .str "token_count")]),
    ("timestamp", .str "2026-07-01T10:00:00Z")]

def observed : Moment := ⟨63918496800000000, by decide⟩

/-- A language that knows these two documents. -/
def two : Python where
  loads line :=
    if line = eventLine then some (some (.obj event))
    else if line = ['[', ']'] then some (some (.arr []))
    else some none
  fromisoformat text :=
    if text = "2026-07-01T10:00:00Z" then some ⟨observed, some 0⟩ else none
  stMtime mtimeNs := mtimeNs / 1000000000

def twoLines : List UInt8 :=
  eventLine.map (fun c => UInt8.ofNat c.toNat) ++ [10, 0x5B, 0x5D, 10]

/-- The file, written on that day. -/
def rollout : RolloutFile := ⟨twoLines, 1782903660000000000⟩

theorem scanSet_singleton (py : Python) (p : Path × RolloutFile) (now : ℚ) :
    scanSet py [p] now = [p] := by
  unfold scanSet
  dsimp only
  rw [List.filter_singleton, List.argmax_singleton]
  cases decide (now - 6 * 3600 ≤ py.stMtime p.2.mtimeNs) <;> rfl

/-- A file with the event alone. -/
def oneLine : RolloutFile :=
  ⟨eventLine.map (fun c => UInt8.ofNat c.toNat) ++ [10], 1782903660000000000⟩

theorem eventLine_facts :
    Utf8.decode oneLine.bytes = some (eventLine ++ ['\n'])
      ∧ (eventLine ++ ['\n']).all (fun c => !Text.isLineBreak c || c == '\n') = true
      ∧ (eventLine ++ ['\n']).splitOn '\n' = [eventLine, []]
      ∧ Text.splitLines (eventLine ++ ['\n']) = [eventLine]
      ∧ Text.strip eventLine = eventLine ∧ eventLine.isEmpty = false := by
  decide +kernel

theorem decode_oneLine : Utf8.decode oneLine.bytes = some (eventLine ++ ['\n']) :=
  eventLine_facts.1

theorem plain_oneLine : Plain (eventLine ++ ['\n']) := by
  intro c hc hbreak
  have h := List.all_eq_true.mp eventLine_facts.2.1 c hc
  rw [hbreak, Bool.not_true, Bool.false_or] at h
  exact eq_of_beq h

theorem strip_eventLine : Text.strip eventLine = eventLine := eventLine_facts.2.2.2.2.1

theorem loads_eventLine : two.loads eventLine = some (some (.obj event)) := by
  unfold two
  exact if_pos rfl

theorem readable_oneLine : Readable two oneLine.bytes := by
  refine Readable.of_plain decode_oneLine plain_oneLine fun line hline => ?_
  rw [eventLine_facts.2.2.1] at hline
  rcases List.mem_cons.mp hline with rfl | hline
  · intro _
    rw [strip_eventLine]
    refine ⟨_, loads_eventLine, fun document hdocument => ?_⟩
    cases hdocument
    exact ⟨event, rfl, fun _ => ⟨_, rfl, fun _ => ⟨_, rfl⟩⟩⟩
  · rw [List.mem_singleton.mp hline]
    exact fun h => absurd rfl h

theorem planEventOf_eventLine : planEventOf two eventLine = some event := by
  unfold planEventOf documentOf
  dsimp only
  rw [strip_eventLine, eventLine_facts.2.2.2.2.2, loads_eventLine]
  rfl

theorem newestPlanEvent_oneLine : newestPlanEvent two oneLine.bytes = some event := by
  rw [← plain_oneLine.newestIn_eq two decode_oneLine]
  unfold newestIn
  rw [eventLine_facts.2.2.2.1]
  show [eventLine].findSome? _ = _
  rw [List.findSome?_cons, planEventOf_eventLine]

theorem dated_oneLine : Dated two oneLine.bytes := by
  intro e he
  rw [newestPlanEvent_oneLine] at he
  cases he
  decide +kernel

end CodexQuota
