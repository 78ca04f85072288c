import CharlieBot.Lib.Json
import CharlieBot.Lib.Sequencer
import Mathlib.Data.List.TakeWhile

/-!
# Merging traces

Traces of several ranks are merged into one. Every event keeps its fields but
for its process, its thread and its flow id: the process is named after the
rank and the label the trace gives it, and threads and flows are numbered
across the merge by the texts of their ids (`Sequencer`).

That the walk asks a table of the raw ids first changes nothing as long as one
raw id is one text. Numbers are where it could: `1`, `1.0` and `true` are one
key of a dict and three texts. For the traces without two such spellings
the merge keeps identity apart and together (`keepsIdentity_of_merge`).

A process, however, is a label: two processes of a trace that have the same
label, or none, are one process of the merged trace (`pid_shared`), and so
are those of two traces whose files have the same rank.
-/

namespace TraceMerge

/-! ## Names -/

/-- The digits behind the first occurrence of a word, in either case, where
white space may stand between them. Letters and digits are those of ASCII. -/
def digitsAfter (word : List Char) (spaces : Bool) : List Char → Option (List Char)
  | [] => none
  | c :: rest =>
    let text := c :: rest
    let behind := text.drop word.length
    let digits := (if spaces then behind.dropWhile Text.isSpace else behind).takeWhile Char.isDigit
    if (text.take word.length).map Char.toLower = word ∧ digits ≠ [] then some digits
    else digitsAfter word spaces rest

/-- A name without the ending `.json`, in either case. -/
def dropJson (name : List Char) : List Char :=
  if (name.drop (name.length - 5)).map Char.toLower = ".json".toList then
    name.take (name.length - 5)
  else name

def rankLabel (name : List Char) : String :=
  match digitsAfter "rank".toList false name with
  | some digits => String.ofList ("rank".toList ++ digits)
  | none => String.ofList (dropJson name)

/-- `int(...)` of decimal digits. -/
def intOf (digits : List Char) : ℕ :=
  digits.foldl (fun n c => 10 * n + (c.toNat - '0'.toNat)) 0

/-! ## The events of a trace -/

/-- A trace file: its name, which is the last part of a path, and its parsed
content. -/
structure TraceFile where
  name : List Char
  trace : Json
  no_slash : '/' ∉ name := by decide

/-- The events of a trace: none where the root, or an event, is of another
kind than it should be. -/
def TraceFile.events (file : TraceFile) : Option (List Dict) :=
  let events := match file.trace with
    | .obj d => match (Dict.get d "traceEvents").or (.arr []) with
      | .arr xs => some xs
      | _ => none
    | .arr xs => some xs
    | _ => none
  events.bind fun xs => xs.mapM Json.asDict

/-- Whether an event is metadata of a process; an exception where its name
is no text. -/
def isProcessMeta (e : Dict) : Option Bool :=
  if (e.get "ph").isText "M" && (e.get "name").truthy then
    match e.get "name" with
    | .str s => some ("process_".toList.isPrefixOf s.toList)
    | _ => none
  else some false

/-- Whether an event is left out of a slim merge. -/
def isSlimmed (slim : Bool) (e : Dict) : Bool :=
  slim && (e.get "cat").isText "cpu_instant_event"

/-- Whether an event starts, goes on with or ends a flow; an exception where
its phase cannot be a key. -/
def isFlow (e : Dict) : Option Bool :=
  (e.get "ph").asKey.map fun _ =>
    ((e.get "ph").isText "s" || (e.get "ph").isText "t" || (e.get "ph").isText "f") && e.has "id"

/-- The arguments of an event, in a slim merge. -/
def slimArgs (e : Dict) : Dict :=
  match e.get "args" with
  | .obj args =>
    match args.lookup "stream" with
    | some stream => e.set "args" (.obj [("stream", stream)])
    | none => e.erase "args"
  | _ => e

/-! ## Processes -/

/-- A labelled process: its id as a text, the first raw id, the last label. -/
structure PidLabel where
  key : String
  raw : Json
  label : Json

/-- `pid_labels[key] = label`, with `raw_pids.setdefault(key, pid)`. -/
def setPidLabel (labels : List PidLabel) (pid label : Json) : List PidLabel :=
  if labels.any fun l => l.key = pid.toText then
    labels.map fun l => if l.key = pid.toText then { l with label } else l
  else labels ++ [⟨pid.toText, pid, label⟩]

/-- The labels of a trace's processes. -/
def pidLabels : List PidLabel → List Dict → Option (List PidLabel)
  | labels, [] => some labels
  | labels, e :: rest =>
    if (e.get "ph").isText "M" && (e.get "name").isText "process_labels"
        && (e.get "args").truthy then do
      let args ← (e.get "args").asDict
      pidLabels (setPidLabel labels (e.get "pid") ((args.get "labels").or (.str ""))) rest
    else pidLabels labels rest

/-- The process of the merged trace that has a label. -/
def syntheticPid (rank : String) (label : String) : String :=
  if label = "CPU" then rank else rank ++ "/" ++ label

/-- `pid_map`: both the text of a process id and its raw form lead to its
process. -/
def pidMap (rank : String) (labels : List PidLabel) : Option (Json.Key → Option String) :=
  labels.foldlM (fun map l => do
    let label ← l.label.asText
    let raw ← l.raw.asKey
    some (Function.update (Function.update map (.text l.key) (some (syntheticPid rank label))) raw
      (some (syntheticPid rank label)))) fun _ => none

/-- A row of `synthetic_meta`. -/
structure SyntheticMeta where
  pid : String
  sortIndex : ℕ
  label : String

/-- The metadata of the merged trace's processes. -/
def syntheticMeta (rank : String) (fileIndex : ℕ) (labels : List PidLabel) :
    Option (List SyntheticMeta) :=
  labels.foldlM (fun rows l => do
    let label ← l.label.asText
    let pid := syntheticPid rank label
    let row : SyntheticMeta :=
      if label = "CPU" then ⟨pid, fileIndex * 10000, rank ++ " CPU"⟩
      else
        let gpu := ((digitsAfter "gpu".toList true label.toList).map intOf).getD 0
        ⟨pid, fileIndex * 10000 + 1000 + gpu, rank ++ " " ++ label⟩
    some (if rows.any fun r => r.pid = pid then rows.map fun r => if r.pid = pid then row else r
      else rows ++ [row])) []

/-! ## The walk -/

/-- An event of the merged trace, with the place of the event it was made
of: the number of its trace and its place there. -/
structure Merged where
  event : Dict
  source : Option (ℕ × ℕ) := none

/-- The state of the merge, and of the walk through one trace. -/
structure TraceWalk where
  tidSeq : Sequencer String := {}
  flowSeq : Sequencer String := {}
  tidRaw : Json.Key → Option ℕ := fun _ => none
  out : List Merged := []

def threadName (rank pid : String) (n : ℕ) (tid : Json) : Merged where
  event := [("ph", .str "M"), ("pid", .str pid), ("tid", .int n), ("name", .str "thread_name"),
    ("args", .obj [("name", .str (rank ++ "/" ++ tid.toText))])]

def eventPid (rank : String) (map : Json.Key → Option String) (e : Dict) : Option String := do
  let raw ← (e.get "pid").asKey
  match map raw with
  | some pid => some pid
  | none => some ((map (.text (e.get "pid").toText)).getD rank)

/-- The thread of an event: the raw table is asked first, then the
sequencer; a thread that is new is named. -/
def remapTid (rank pid : String) (walk : TraceWalk) (tid : Json) : Option (ℕ × TraceWalk) := do
  let raw ← tid.asKey
  match walk.tidRaw raw with
  | some n => some (n, walk)
  | none =>
    let n := (walk.tidSeq.call tid.toText).1
    let named := if (walk.tidSeq.seen tid.toText).isSome then [] else [threadName rank pid n tid]
    some (n, { walk with
      tidSeq := (walk.tidSeq.call tid.toText).2
      tidRaw := Function.update walk.tidRaw raw (some n)
      out := walk.out ++ named })

/-- The fields of an event that are kept as they are until they are
renamed. -/
def slimEvent (slim : Bool) (e : Dict) : Dict := if slim then slimArgs e else e

/-- An event with the number of its thread. -/
def renameTid (rank pid : String) (walk : TraceWalk) (e : Dict) : Option (Dict × TraceWalk) :=
  match e.lookup "tid" with
  | none => some (e, walk)
  | some tid => (remapTid rank pid walk tid).map fun r => (e.set "tid" (.int r.1), r.2)

/-- An event with the number of its flow. -/
def renameFlow (walk : TraceWalk) (e : Dict) : Option (Dict × TraceWalk) :=
  (isFlow e).map fun flow =>
    if flow then
      let id := (e.get "id").toText
      (e.set "id" (.int (walk.flowSeq.call id).1), { walk with flowSeq := (walk.flowSeq.call id).2 })
    else (e, walk)

/-- The loop's body for one event. -/
def mergeEvent (rank : String) (map : Json.Key → Option String) (slim : Bool) (source : ℕ × ℕ)
    (walk : TraceWalk) (e : Dict) : Option TraceWalk := do
  let process ← isProcessMeta e
  if process || isSlimmed slim e then some walk
  else
    let pid ← eventPid rank map e
    let threaded ← renameTid rank pid walk ((slimEvent slim e).set "pid" (.str pid))
    let flowed ← renameFlow threaded.2 threaded.1
    some { flowed.2 with out := flowed.2.out ++ [⟨flowed.1, some source⟩] }

/-- The loop over the events, from a place on. -/
def mergeEvents (rank : String) (map : Json.Key → Option String) (slim : Bool) (fileIndex : ℕ) :
    ℕ → List Dict → TraceWalk → Option TraceWalk
  | _, [], walk => some walk
  | j, e :: rest, walk => do
    mergeEvents rank map slim fileIndex (j + 1) rest
      (← mergeEvent rank map slim (fileIndex, j) walk e)

def metaEvents (tid : ℕ) (row : SyntheticMeta) : List Merged :=
  [("process_name", .obj [("name", .str row.label)]),
    ("process_labels", .obj [("labels", .str row.label)]),
    ("process_sort_index", Json.obj [("sort_index", .int row.sortIndex)])].map fun f =>
      ⟨[("ph", .str "M"), ("pid", .str row.pid), ("tid", .int tid), ("name", .str f.1),
        ("args", f.2)], none⟩

def mergeOneTrace (slim : Bool) (fileIndex : ℕ) (file : TraceFile) (walk : TraceWalk) :
    Option TraceWalk := do
  let events ← file.events
  let rank := rankLabel file.name
  let labels ← pidLabels [] events
  let map ← pidMap rank labels
  let rows ← syntheticMeta rank fileIndex labels
  let walk ← mergeEvents rank map slim fileIndex 0 events
    { walk with tidSeq := walk.tidSeq.restart, flowSeq := walk.flowSeq.restart, tidRaw := fun _ => none }
  let meta' := walk.tidSeq.call "meta"
  some { walk with tidSeq := meta'.2, out := walk.out ++ rows.flatMap (metaEvents meta'.1) }

/-- The loop over the files, from a number on. -/
def mergeFiles (slim : Bool) : ℕ → List TraceFile → TraceWalk → Option TraceWalk
  | _, [], walk => some walk
  | i, file :: rest, walk => do mergeFiles slim (i + 1) rest (← mergeOneTrace slim i file walk)

/-- `merge_traces`: the events of the merged trace. -/
def mergeTraces (files : List TraceFile) (slim : Bool) : Option (List Merged) :=
  (mergeFiles slim 0 files {}).map TraceWalk.out

/-! ## What the merge keeps -/

/-- Whether an event is in the merged trace. -/
def kept (slim : Bool) (e : Dict) : Bool := isProcessMeta e == some false && !isSlimmed slim e

/-- The places of the events of a trace that are kept, from a place on. -/
def keptEvents (slim : Bool) (i : ℕ) : ℕ → List Dict → List (ℕ × ℕ)
  | _, [] => []
  | j, e :: rest => (if kept slim e then [(i, j)] else []) ++ keptEvents slim i (j + 1) rest

/-- The places of all events that are kept, from a trace on. -/
def keptFiles (slim : Bool) : ℕ → List TraceFile → List (ℕ × ℕ)
  | _, [] => []
  | i, file :: rest => keptEvents slim i 0 (file.events.getD []) ++ keptFiles slim (i + 1) rest

def eventAt (files : List TraceFile) (p : ℕ × ℕ) : Option Dict :=
  (files[p.1]?).bind fun file => (file.events.getD [])[p.2]?

/-- **No raw id is two texts.** Only numbers can be: `1`, `1.0` and `true`
are one key. -/
def Alike (ids : List Json) : Prop :=
  ∀ x ∈ ids, ∀ y ∈ ids, ∀ k, x.asKey = some k → y.asKey = some k → x.toText = y.toText

/-- A trace that writes each of its thread and process ids in one way. -/
def TraceFile.Plain (file : TraceFile) : Prop :=
  Alike ((file.events.getD []).filterMap (·.lookup "tid")) ∧
    Alike ((file.events.getD []).map (·.get "pid"))

/-- **What becomes of an event**, with the numbers of the trace's threads and
flows and the names of its processes. -/
structure Renamed (tids flows : String → Option ℕ) (pids : String → String) (slim : Bool)
    (e e' : Dict) : Prop where
  tid : ∀ x, e.lookup "tid" = some x → ∃ n, tids x.toText = some n ∧ e'.lookup "tid" = some (.int n)
  no_tid : e.lookup "tid" = none → e'.lookup "tid" = none
  flow : isFlow e = some true →
    ∃ n, flows (e.get "id").toText = some n ∧ e'.lookup "id" = some (.int n)
  no_flow : isFlow e = some false → e'.lookup "id" = e.lookup "id"
  pid : e'.lookup "pid" = some (.str (pids (e.get "pid").toText))
  args : slim = false → e'.lookup "args" = e.lookup "args"
  fields : ∀ k, k ∉ ["pid", "tid", "id", "args"] → e'.lookup k = e.lookup k

/-- **Identity is kept apart and together** by a merge. -/
structure KeepsIdentity (files : List TraceFile) (slim : Bool) (out : List Merged) : Prop where
  /-- Every kept event is there once, in order. -/
  once : out.filterMap Merged.source = keptFiles slim 0 files
  /-- Two threads are one when the trace and the texts of their ids are. -/
  tids : ∀ m ∈ out, ∀ m' ∈ out, ∀ p p' e e' x x', m.source = some p → m'.source = some p' →
    eventAt files p = some e → eventAt files p' = some e' →
    e.lookup "tid" = some x → e'.lookup "tid" = some x' →
    (m.event.lookup "tid" = m'.event.lookup "tid" ↔ p.1 = p'.1 ∧ x.toText = x'.toText)
  flows : ∀ m ∈ out, ∀ m' ∈ out, ∀ p p' e e', m.source = some p → m'.source = some p' →
    eventAt files p = some e → eventAt files p' = some e' →
    isFlow e = some true → isFlow e' = some true →
    (m.event.lookup "id" = m'.event.lookup "id"
      ↔ p.1 = p'.1 ∧ (e.get "id").toText = (e'.get "id").toText)
  /-- One process of a trace is one of the merged trace. -/
  pids : ∀ m ∈ out, ∀ m' ∈ out, ∀ p p' e e', m.source = some p → m'.source = some p' →
    eventAt files p = some e → eventAt files p' = some e' →
    p.1 = p'.1 → (e.get "pid").toText = (e'.get "pid").toText →
    m.event.lookup "pid" = m'.event.lookup "pid"
  /-- Processes of ranks with different names are apart. -/
  ranks : ∀ m ∈ out, ∀ m' ∈ out, ∀ p p' file file', m.source = some p → m'.source = some p' →
    files[p.1]? = some file → files[p'.1]? = some file' →
    m.event.lookup "pid" = m'.event.lookup "pid" → rankLabel file.name = rankLabel file'.name
  /-- The other fields are those of the event. -/
  fields : ∀ m ∈ out, ∀ p e, m.source = some p → eventAt files p = some e →
    (∀ k, k ∉ ["pid", "tid", "id", "args"] → m.event.lookup k = e.lookup k) ∧
    (e.lookup "tid" = none → m.event.lookup "tid" = none) ∧
    (isFlow e = some false → m.event.lookup "id" = e.lookup "id") ∧
    (slim = false → m.event.lookup "args" = e.lookup "args")

/-! ## One event -/

theorem Renamed.mono {tids tids' flows flows' : String → Option ℕ} {pids : String → String}
    {slim : Bool} {e e' : Dict} (h : Renamed tids flows pids slim e e')
    (htids : ∀ k n, tids k = some n → tids' k = some n)
    (hflows : ∀ k n, flows k = some n → flows' k = some n) :
    Renamed tids' flows' pids slim e e' where
  tid x hx := by
    obtain ⟨n, hn, hlookup⟩ := h.tid x hx
    exact ⟨n, htids _ n hn, hlookup⟩
  no_tid := h.no_tid
  flow hflow := by
    obtain ⟨n, hn, hlookup⟩ := h.flow hflow
    exact ⟨n, hflows _ n hn, hlookup⟩
  no_flow := h.no_flow
  pid := h.pid
  args := h.args
  fields := h.fields

theorem lookup_slimEvent (slim : Bool) (e : Dict) {k : String} (hk : slim = false ∨ k ≠ "args") :
    (slimEvent slim e).lookup k = e.lookup k := by
  unfold slimEvent
  cases slim with
  | false => rfl
  | true =>
    have hk : k ≠ "args" := hk.resolve_left (by decide)
    rw [if_pos rfl, slimArgs]
    split
    · split
      · exact Dict.lookup_set_of_ne e _ hk
      · exact Dict.lookup_erase_of_ne e hk
    · rfl

/-- **What the raw table tells is the number of a text.** -/
def RawInv (tids : List Json) (walk : TraceWalk) : Prop :=
  ∀ k n, walk.tidRaw k = some n → ∃ x ∈ tids, x.asKey = some k ∧
    walk.tidSeq.seen x.toText = some n

theorem remapTid_spec {rank pid : String} {walk walk' : TraceWalk} {tids : List Json} {x : Json}
    {n : ℕ} (halike : Alike tids) (hx : x ∈ tids) (hraw : RawInv tids walk)
    (h : remapTid rank pid walk x = some (n, walk')) :
    (walk.tidSeq.Extends walk'.tidSeq ∧ walk'.flowSeq = walk.flowSeq) ∧ RawInv tids walk' ∧
      walk'.tidSeq.seen x.toText = some n ∧
      ∃ named, walk'.out = walk.out ++ named ∧ named.filterMap Merged.source = [] := by
  obtain ⟨raw, hkey, h⟩ := Option.bind_eq_some_iff.mp h
  split at h
  · next n' hn =>
    cases h
    obtain ⟨y, hy, hykey, hseen⟩ := hraw raw n hn
    rw [halike y hy x hx raw hykey hkey] at hseen
    exact ⟨⟨.refl _, rfl⟩, hraw, hseen, [], (List.append_nil _).symm, rfl⟩
  · cases h
    obtain ⟨hext, hseen⟩ := walk.tidSeq.call_spec x.toText
    refine ⟨⟨hext, rfl⟩, fun k m hk => ?_, hseen, _, rfl, ?_⟩
    · by_cases hkr : k = raw
      · subst hkr
        have hself : Function.update walk.tidRaw k
          (some (walk.tidSeq.call x.toText).1) k = some m := hk
        rw [Function.update_self] at hself
        cases hself
        exact ⟨x, hx, hkey, hseen⟩
      · have hold : Function.update walk.tidRaw raw
          (some (walk.tidSeq.call x.toText).1) k = some m := hk
        rw [Function.update_of_ne hkr] at hold
        obtain ⟨y, hy, hykey, hyseen⟩ := hraw k m hold
        exact ⟨y, hy, hykey, hext.seen _ _ hyseen⟩
    · split <;> rfl

theorem isFlow_congr {e e' : Dict} (hph : e'.lookup "ph" = e.lookup "ph")
    (hid : e'.lookup "id" = e.lookup "id") : isFlow e' = isFlow e := by
  unfold isFlow Dict.get Dict.getD Dict.has
  rw [hph, hid]

theorem renameFlow_spec {walk walk' : TraceWalk} {e e' : Dict}
    (h : renameFlow walk e = some (e', walk')) :
    (walk.flowSeq.Extends walk'.flowSeq ∧ walk'.tidSeq = walk.tidSeq ∧ walk'.tidRaw = walk.tidRaw
        ∧ walk'.out = walk.out) ∧
      (∀ k, k ≠ "id" → e'.lookup k = e.lookup k) ∧
      (isFlow e = some true → ∃ n, walk'.flowSeq.seen (e.get "id").toText = some n ∧
        e'.lookup "id" = some (.int n)) ∧
      (isFlow e = some false → e'.lookup "id" = e.lookup "id") := by
  obtain ⟨flow, hflow, heq⟩ := Option.map_eq_some_iff.mp h
  rw [hflow]
  cases flow with
  | true =>
    cases heq
    obtain ⟨hext, hseen⟩ := walk.flowSeq.call_spec (e.get "id").toText
    refine ⟨⟨hext, rfl, rfl, rfl⟩, fun k hk => Dict.lookup_set_of_ne e _ hk,
      fun _ => ⟨_, hseen, Dict.lookup_set_self e _ _⟩, fun hfalse => ?_⟩
    cases hfalse
  | false =>
    cases heq
    refine ⟨⟨.refl _, rfl, rfl, rfl⟩, fun k _ => rfl, fun htrue => ?_, fun _ => rfl⟩
    cases htrue

theorem renameTid_spec {rank pid : String} {walk walk' : TraceWalk} {tids : List Json}
    {e e' : Dict} (halike : Alike tids) (hraw : RawInv tids walk)
    (hmem : ∀ x, e.lookup "tid" = some x → x ∈ tids)
    (h : renameTid rank pid walk e = some (e', walk')) :
    (walk.tidSeq.Extends walk'.tidSeq ∧ walk'.flowSeq = walk.flowSeq) ∧ RawInv tids walk' ∧
      (∀ k, k ≠ "tid" → e'.lookup k = e.lookup k) ∧
      (∀ x, e.lookup "tid" = some x → ∃ n, walk'.tidSeq.seen x.toText = some n ∧
        e'.lookup "tid" = some (.int n)) ∧
      (e.lookup "tid" = none → e'.lookup "tid" = none) ∧
      ∃ named, walk'.out = walk.out ++ named ∧ named.filterMap Merged.source = [] := by
  unfold renameTid at h
  cases hx : e.lookup "tid" with
  | none =>
    rw [hx] at h
    cases h
    exact ⟨⟨.refl _, rfl⟩, hraw, fun _ _ => rfl, fun _ hsome => (by cases hsome), fun _ => hx,
      [], (List.append_nil _).symm, rfl⟩
  | some x =>
    rw [hx] at h
    obtain ⟨r, hr, heq⟩ := Option.map_eq_some_iff.mp h
    cases heq
    obtain ⟨hext, hraw', hseen, hnamed⟩ := remapTid_spec halike (hmem x hx) hraw hr
    refine ⟨hext, hraw', fun k hk => Dict.lookup_set_of_ne e _ hk, fun y hy => ?_,
      fun hnone => (by cases hnone), hnamed⟩
    cases hy
    exact ⟨r.1, hseen, Dict.lookup_set_self e _ _⟩

/-- **The text of a process id decides its process.** -/
def Coherent (pids : List Json) (map : Json.Key → Option String) : Prop :=
  ∀ y ∈ pids, ∀ k p, y.asKey = some k → map k = some p → map (.text y.toText) = some p

/-- The process of an id, by its text. -/
def pidOf (rank : String) (map : Json.Key → Option String) (text : String) : String :=
  (map (.text text)).getD rank

theorem eventPid_spec {rank : String} {map : Json.Key → Option String} {pids : List Json}
    {e : Dict} {pid : String} (hmap : Coherent pids map) (hmem : e.get "pid" ∈ pids)
    (h : eventPid rank map e = some pid) : pid = pidOf rank map (e.get "pid").toText := by
  obtain ⟨raw, hkey, h⟩ := Option.bind_eq_some_iff.mp h
  unfold pidOf
  split at h
  · next p hp =>
    cases h
    rw [hmap _ hmem raw _ hkey hp]
    rfl
  · exact (Option.some.inj h).symm

theorem mergeEvent_spec {rank : String} {map : Json.Key → Option String} {slim : Bool}
    {source : ℕ × ℕ} {walk walk' : TraceWalk} {e : Dict} {tids pids : List Json}
    (halike : Alike tids) (hmap : Coherent pids map) (hraw : RawInv tids walk)
    (htid : ∀ x, e.lookup "tid" = some x → x ∈ tids) (hpid : e.get "pid" ∈ pids)
    (h : mergeEvent rank map slim source walk e = some walk') :
    (walk.tidSeq.Extends walk'.tidSeq ∧ walk.flowSeq.Extends walk'.flowSeq) ∧
      RawInv tids walk' ∧ ∃ added, walk'.out = walk.out ++ added ∧
        added.filterMap Merged.source = (if kept slim e then [source] else []) ∧
        ∀ m ∈ added, ∀ p, m.source = some p → p = source ∧
          Renamed walk'.tidSeq.seen walk'.flowSeq.seen (pidOf rank map) slim e m.event := by
  obtain ⟨process, hprocess, h⟩ := Option.bind_eq_some_iff.mp h
  have hkept : kept slim e = !(process || isSlimmed slim e) := by
    rw [kept, hprocess]
    cases process <;> cases isSlimmed slim e <;> rfl
  split at h
  · next hdrop =>
    cases h
    rw [hkept, hdrop]
    exact ⟨⟨.refl _, .refl _⟩, hraw, [], (List.append_nil _).symm, rfl,
      fun m hm => absurd hm List.not_mem_nil⟩
  · next hstay =>
    obtain ⟨pid, heventPid, h⟩ := Option.bind_eq_some_iff.mp h
    obtain ⟨threaded, hthreaded, h⟩ := Option.bind_eq_some_iff.mp h
    obtain ⟨flowed, hflowed, h⟩ := Option.bind_eq_some_iff.mp h
    cases h
    -- what the event looks like with its process
    have hfields : ∀ k, k ≠ "pid" → (slim = false ∨ k ≠ "args") →
        ((slimEvent slim e).set "pid" (.str pid)).lookup k = e.lookup k := fun k hk hargs =>
      (Dict.lookup_set_of_ne _ _ hk).trans (lookup_slimEvent slim e hargs)
    have htidField := hfields "tid" (by decide) (.inr (by decide))
    obtain ⟨⟨hext, hflowSeq⟩, hraw', hother, hsome, hnone, named, hout, hnamed⟩ :=
      renameTid_spec halike hraw (fun x hx => htid x (htidField ▸ hx)) hthreaded
    obtain ⟨⟨hflowExt, htidSeq, htidRaw, hout'⟩, hothers, hflow, hnoFlow⟩ :=
      renameFlow_spec hflowed
    have hkeep : ∀ k, k ≠ "pid" → k ≠ "tid" → (slim = false ∨ k ≠ "args") →
        threaded.1.lookup k = e.lookup k := fun k hk hk' hargs =>
      (hother k hk').trans (hfields k hk hargs)
    have hid := hkeep "id" (by decide) (by decide) (.inr (by decide))
    have hisFlow : isFlow threaded.1 = isFlow e :=
      isFlow_congr (hkeep "ph" (by decide) (by decide) (.inr (by decide))) hid
    have hget : threaded.1.get "id" = e.get "id" := by
      unfold Dict.get Dict.getD
      rw [hid]
    rw [hisFlow, hget] at hflow
    rw [hisFlow] at hnoFlow
    refine ⟨⟨?_, ?_⟩, ?_, named ++ [⟨flowed.1, some source⟩], ?_, ?_, fun m hm p hp => ?_⟩
    · rw [← htidSeq] at hext
      exact hext
    · rw [← hflowSeq]
      exact hflowExt
    · intro k n hk
      have hk' : threaded.2.tidRaw k = some n := htidRaw ▸ hk
      obtain ⟨x, hx, hkey, hseen⟩ := hraw' k n hk'
      exact ⟨x, hx, hkey, htidSeq ▸ hseen⟩
    · show flowed.2.out ++ _ = _
      rw [hout', hout, List.append_assoc]
    · rw [List.filterMap_append, hnamed, hkept, (Bool.not_eq_true _).mp hstay]
      rfl
    · rcases List.mem_append.mp hm with hm | hm
      · have hnil := List.filterMap_eq_nil_iff.mp hnamed m hm
        rw [hp] at hnil
        cases hnil
      · cases List.mem_singleton.mp hm
        cases hp
        refine ⟨rfl, fun x hx => ?_, fun hx => ?_, hflow, fun hno => (hnoFlow hno).trans hid, ?_,
          fun hslim => ?_, fun k hk => ?_⟩
        · obtain ⟨n, hn, hlookup⟩ := hsome x (htidField.trans hx)
          exact ⟨n, htidSeq ▸ hn, (hothers "tid" (by decide)).trans hlookup⟩
        · exact (hothers "tid" (by decide)).trans (hnone (htidField.trans hx))
        · rw [hothers "pid" (by decide), hother "pid" (by decide), Dict.lookup_set_self,
            eventPid_spec hmap hpid heventPid]
        · exact (hothers "args" (by decide)).trans
            (hkeep "args" (by decide) (by decide) (.inl hslim))
        · simp only [List.mem_cons, List.not_mem_nil, or_false, not_or] at hk
          exact (hothers k hk.2.2.1).trans (hkeep k hk.1 hk.2.1 (.inr hk.2.2.2))

/-! ## One trace -/

theorem mergeEvents_spec {rank : String} {map : Json.Key → Option String} {slim : Bool}
    {i j : ℕ} {events : List Dict} {walk walk' : TraceWalk} {tids pids : List Json}
    (halike : Alike tids) (hmap : Coherent pids map) (hraw : RawInv tids walk)
    (htid : ∀ e ∈ events, ∀ x, e.lookup "tid" = some x → x ∈ tids)
    (hpid : ∀ e ∈ events, e.get "pid" ∈ pids)
    (h : mergeEvents rank map slim i j events walk = some walk') :
    (walk.tidSeq.Extends walk'.tidSeq ∧ walk.flowSeq.Extends walk'.flowSeq) ∧
      ∃ added, walk'.out = walk.out ++ added ∧
        added.filterMap Merged.source = keptEvents slim i j events ∧
        ∀ m ∈ added, ∀ p, m.source = some p → ∃ d e, p = (i, j + d) ∧ events[d]? = some e ∧
          Renamed walk'.tidSeq.seen walk'.flowSeq.seen (pidOf rank map) slim e m.event := by
  induction events generalizing j walk with
  | nil =>
    cases h
    exact ⟨⟨.refl _, .refl _⟩, [], (List.append_nil _).symm, rfl,
      fun m hm => absurd hm List.not_mem_nil⟩
  | cons e rest ih =>
    obtain ⟨walk₁, hone, h⟩ := Option.bind_eq_some_iff.mp h
    obtain ⟨⟨hext, hflow⟩, hraw₁, added, hout, hsource, hadded⟩ := mergeEvent_spec halike hmap hraw
      (htid e List.mem_cons_self) (hpid e List.mem_cons_self) hone
    obtain ⟨⟨hext', hflow'⟩, more, hout', hsource', hmore⟩ := ih hraw₁
      (fun e he => htid e (List.mem_cons_of_mem _ he))
      (fun e he => hpid e (List.mem_cons_of_mem _ he)) h
    refine ⟨⟨hext.trans hext', hflow.trans hflow'⟩, added ++ more, ?_, ?_, fun m hm p hp => ?_⟩
    · rw [hout', hout, List.append_assoc]
    · rw [List.filterMap_append, hsource, hsource']
      rfl
    · rcases List.mem_append.mp hm with hm | hm
      · obtain ⟨rfl, hrenamed⟩ := hadded m hm p hp
        exact ⟨0, e, rfl, rfl, hrenamed.mono hext'.seen hflow'.seen⟩
      · obtain ⟨d, e', rfl, he', hrenamed⟩ := hmore m hm p hp
        exact ⟨d + 1, e', by rw [Nat.add_right_comm, Nat.add_assoc j d 1], he', hrenamed⟩

/-- **What holds of the labels of a trace**: each process id has one entry,
under its text. -/
structure LabelsInv (pids : List Json) (labels : List PidLabel) : Prop where
  nodup : (labels.map PidLabel.key).Nodup
  key_eq : ∀ l ∈ labels, l.key = l.raw.toText
  mem : ∀ l ∈ labels, l.raw ∈ pids

theorem labelsInv_nil (pids : List Json) : LabelsInv pids [] where
  nodup := List.nodup_nil
  key_eq _ hl := absurd hl List.not_mem_nil
  mem _ hl := absurd hl List.not_mem_nil

theorem LabelsInv.setPidLabel {pids : List Json} {labels : List PidLabel} {pid : Json}
    (h : LabelsInv pids labels) (hpid : pid ∈ pids) (label : Json) :
    LabelsInv pids (setPidLabel labels pid label) := by
  unfold TraceMerge.setPidLabel
  split
  · have hraw : ∀ l ∈ labels.map (fun l => if l.key = pid.toText then { l with label } else l),
        ∃ l' ∈ labels, l.key = l'.key ∧ l.raw = l'.raw := by
      intro l hl
      obtain ⟨l', hl', rfl⟩ := List.mem_map.mp hl
      refine ⟨l', hl', ?_⟩
      split <;> exact ⟨rfl, rfl⟩
    refine ⟨?_, fun l hl => ?_, fun l hl => ?_⟩
    · have hkeys : (labels.map fun l => if l.key = pid.toText then { l with label } else l).map
          PidLabel.key = labels.map PidLabel.key := by
        rw [List.map_map]
        refine List.map_congr_left fun l _ => ?_
        show (if l.key = pid.toText then { l with label } else l).key = l.key
        split <;> rfl
      rw [hkeys]
      exact h.nodup
    · obtain ⟨l', hl', hkey, hraw⟩ := hraw l hl
      rw [hkey, hraw]
      exact h.key_eq l' hl'
    · obtain ⟨l', hl', -, hraw⟩ := hraw l hl
      rw [hraw]
      exact h.mem l' hl'
  · next hnew =>
    refine ⟨?_, fun l hl => ?_, fun l hl => ?_⟩
    · rw [List.map_append, List.map_singleton, List.nodup_append]
      refine ⟨h.nodup, List.pairwise_singleton _ _, fun k hk k' hk' => ?_⟩
      rw [List.mem_singleton.mp hk']
      rintro rfl
      obtain ⟨l, hl, hkey⟩ := List.mem_map.mp hk
      exact hnew (List.any_eq_true.mpr ⟨l, hl, decide_eq_true hkey⟩)
    · rcases List.mem_append.mp hl with hl | hl
      · exact h.key_eq l hl
      · rw [List.mem_singleton.mp hl]
    · rcases List.mem_append.mp hl with hl | hl
      · exact h.mem l hl
      · rw [List.mem_singleton.mp hl]
        exact hpid

theorem LabelsInv.pidLabels {pids : List Json} {labels labels' : List PidLabel}
    {events : List Dict} (h : LabelsInv pids labels) (hpids : ∀ e ∈ events, e.get "pid" ∈ pids)
    (heq : pidLabels labels events = some labels') : LabelsInv pids labels' := by
  induction events generalizing labels with
  | nil =>
    cases heq
    exact h
  | cons e rest ih =>
    have hrest := fun e' he' => hpids e' (List.mem_cons_of_mem _ he')
    unfold TraceMerge.pidLabels at heq
    split at heq
    · obtain ⟨args, -, heq⟩ := Option.bind_eq_some_iff.mp heq
      exact ih (h.setPidLabel (hpids e List.mem_cons_self) _) hrest heq
    · exact ih h hrest heq

/-- A process of a rank: the rank itself, or a label behind it. -/
def IsProcessOf (rank pid : String) : Prop := pid = rank ∨ ∃ label, pid = rank ++ "/" ++ label

/-- **What holds of the table of processes** behind some labels: what a raw
id leads to its text leads to, which is one of the texts. -/
structure MapInv (rank : String) (pids : List Json) (keys : List String)
    (map : Json.Key → Option String) : Prop where
  coherent : ∀ y ∈ pids, ∀ k p, y.asKey = some k → map k = some p →
    y.toText ∈ keys ∧ map (.text y.toText) = some p
  process : ∀ k p, map k = some p → IsProcessOf rank p

theorem mapInv_empty (rank : String) (pids : List Json) :
    MapInv rank pids [] fun _ => none where
  coherent _ _ _ _ _ hnone := by cases hnone
  process _ _ hnone := by cases hnone

theorem isProcessOf_syntheticPid (rank label : String) :
    IsProcessOf rank (syntheticPid rank label) := by
  unfold syntheticPid
  split
  · exact .inl rfl
  · exact .inr ⟨label, rfl⟩

theorem MapInv.enter {rank p : String} {pids : List Json} {keys : List String}
    {map : Json.Key → Option String} {raw : Json} {kr : Json.Key} (h : MapInv rank pids keys map)
    (halike : Alike pids) (hraw : raw ∈ pids) (hkr : raw.asKey = some kr)
    (hnew : raw.toText ∉ keys) (hp : IsProcessOf rank p) :
    MapInv rank pids (keys ++ [raw.toText])
      (Function.update (Function.update map (.text raw.toText) (some p)) kr (some p)) := by
  have htext : ∀ k, Function.update (Function.update map (.text raw.toText) (some p)) kr (some p) k
      = if k = kr ∨ k = .text raw.toText then some p else map k := by
    intro k
    by_cases hk : k = kr
    · rw [if_pos (.inl hk), hk, Function.update_self]
    · rw [Function.update_of_ne hk]
      by_cases hk' : k = .text raw.toText
      · rw [if_pos (.inr hk'), hk', Function.update_self]
      · rw [if_neg (not_or.mpr ⟨hk, hk'⟩), Function.update_of_ne hk']
  refine ⟨fun y hy k q hyk hq => ?_, fun k q hq => ?_⟩
  · rw [htext] at hq
    split at hq
    · next hnewKey =>
      cases hq
      -- the id is the one that is entered, raw or as a text
      have heq : y.toText = raw.toText := by
        rcases hnewKey with rfl | rfl
        · exact halike y hy raw hraw _ hyk hkr
        · cases y with
          | str t =>
            cases hyk
            rfl
          | null => cases hyk
          | bool b => cases hyk
          | int n => cases hyk
          | float m e => cases hyk
          | arr xs => cases hyk
          | obj fs => cases hyk
      rw [heq, htext, if_pos (.inr rfl)]
      exact ⟨List.mem_append_right _ List.mem_cons_self, rfl⟩
    · obtain ⟨hmem, hmap⟩ := h.coherent y hy k q hyk hq
      have hne : y.toText ≠ raw.toText := fun heq => hnew (heq ▸ hmem)
      refine ⟨List.mem_append_left _ hmem, ?_⟩
      rw [htext, if_neg, hmap]
      rintro (hkey | hkey)
      · -- the raw id would be the text itself
        rw [← hkey] at hkr
        cases raw with
        | str t =>
          cases hkr
          exact hne rfl
        | null => cases hkr
        | bool b => cases hkr
        | int n => cases hkr
        | float m e => cases hkr
        | arr xs => cases hkr
        | obj fs => cases hkr
      · exact hne (Json.Key.text.inj hkey)
  · rw [htext] at hq
    split at hq
    · cases hq
      exact hp
    · exact h.process k q hq

theorem MapInv.pidMap {rank : String} {pids : List Json} {labels : List PidLabel}
    {map map' : Json.Key → Option String} {keys : List String} (h : MapInv rank pids keys map)
    (halike : Alike pids) (hnodup : (keys ++ labels.map PidLabel.key).Nodup)
    (hkey : ∀ l ∈ labels, l.key = l.raw.toText) (hmem : ∀ l ∈ labels, l.raw ∈ pids)
    (heq : labels.foldlM (fun map l => do
      let label ← l.label.asText
      let raw ← l.raw.asKey
      some (Function.update (Function.update map (.text l.key) (some (syntheticPid rank label))) raw
        (some (syntheticPid rank label)))) map = some map') :
    ∃ keys', MapInv rank pids keys' map' := by
  induction labels generalizing map keys with
  | nil =>
    cases heq
    exact ⟨keys, h⟩
  | cons l rest ih =>
    obtain ⟨map₁, hone, heq⟩ := Option.bind_eq_some_iff.mp heq
    obtain ⟨label, -, hone⟩ := Option.bind_eq_some_iff.mp hone
    obtain ⟨raw, hraw, hone⟩ := Option.bind_eq_some_iff.mp hone
    cases hone
    have hlkey := hkey l List.mem_cons_self
    rw [List.map_cons, hlkey] at hnodup
    have hnew : l.raw.toText ∉ keys := fun hin =>
      (List.nodup_append.mp hnodup).2.2 _ hin _ List.mem_cons_self rfl
    rw [List.append_cons] at hnodup
    rw [hlkey] at heq
    exact ih (h.enter halike (hmem l List.mem_cons_self) hraw hnew
      (isProcessOf_syntheticPid rank label)) hnodup
      (fun l' hl' => hkey l' (List.mem_cons_of_mem _ hl'))
      (fun l' hl' => hmem l' (List.mem_cons_of_mem _ hl')) heq

theorem mergeOneTrace_spec {slim : Bool} {i : ℕ} {file : TraceFile} {walk walk' : TraceWalk}
    (hplain : file.Plain) (h : mergeOneTrace slim i file walk = some walk') :
    (walk'.tidSeq.start = walk.tidSeq.next ∧ walk'.flowSeq.start = walk.flowSeq.next) ∧
      ∃ added, walk'.out = walk.out ++ added ∧
        added.filterMap Merged.source = keptEvents slim i 0 (file.events.getD []) ∧
        ∃ pids : String → String, (∀ t, IsProcessOf (rankLabel file.name) (pids t)) ∧
          ∀ m ∈ added, ∀ p, m.source = some p → ∃ j e, p = (i, j) ∧
            (file.events.getD [])[j]? = some e ∧
            Renamed walk'.tidSeq.seen walk'.flowSeq.seen pids slim e m.event := by
  obtain ⟨events, hevents, h⟩ := Option.bind_eq_some_iff.mp h
  obtain ⟨labels, hlabels, h⟩ := Option.bind_eq_some_iff.mp h
  obtain ⟨map, hmap, h⟩ := Option.bind_eq_some_iff.mp h
  obtain ⟨rows, -, h⟩ := Option.bind_eq_some_iff.mp h
  obtain ⟨walk₁, hwalk, h⟩ := Option.bind_eq_some_iff.mp h
  cases h
  unfold TraceFile.Plain at hplain
  rw [hevents, Option.getD_some] at hplain ⊢
  obtain ⟨htids, hpids⟩ := hplain
  have hpid : ∀ e ∈ events, e.get "pid" ∈ events.map (·.get "pid") := fun e he =>
    List.mem_map.mpr ⟨e, he, rfl⟩
  have hinv := (labelsInv_nil _).pidLabels hpid hlabels
  obtain ⟨keys, hmapInv⟩ := (mapInv_empty (rankLabel file.name) _).pidMap hpids
    (by rw [List.nil_append]; exact hinv.nodup) hinv.key_eq hinv.mem hmap
  obtain ⟨⟨hext, hflow⟩, added, hout, hsource, hadded⟩ := mergeEvents_spec htids
    (fun y hy k p hk hp => (hmapInv.coherent y hy k p hk hp).2)
    (fun _ _ hnone => by cases hnone)
    (fun e he x hx => List.mem_filterMap.mpr ⟨e, he, hx⟩) hpid hwalk
  obtain ⟨hmetaExt, -⟩ := walk₁.tidSeq.call_spec "meta"
  refine ⟨⟨hmetaExt.start_eq.trans hext.start_eq, hflow.start_eq⟩,
    added ++ rows.flatMap (metaEvents (walk₁.tidSeq.call "meta").1), ?_, ?_, pidOf (rankLabel file.name) map, fun t => ?_, fun m hm p hp => ?_⟩
  · show walk₁.out ++ _ = _
    rw [hout, List.append_assoc]
  · rw [List.filterMap_append, hsource, List.filterMap_eq_nil_iff.mpr, List.append_nil]
    intro m hm
    obtain ⟨row, -, hm⟩ := List.mem_flatMap.mp hm
    obtain ⟨f, -, rfl⟩ := List.mem_map.mp hm
    rfl
  · unfold pidOf
    cases hp : map (.text t) with
    | none => exact .inl rfl
    | some p => exact hmapInv.process _ p hp
  · rcases List.mem_append.mp hm with hm | hm
    · obtain ⟨d, e, rfl, he, hrenamed⟩ := hadded m hm p hp
      exact ⟨0 + d, e, rfl, by rwa [Nat.zero_add], hrenamed.mono hmetaExt.seen fun _ _ hn => hn⟩
    · obtain ⟨row, -, hm⟩ := List.mem_flatMap.mp hm
      obtain ⟨f, -, rfl⟩ := List.mem_map.mp hm
      cases hp

/-! ## The merge -/

theorem keptFiles_concat (slim : Bool) (i : ℕ) (before : List TraceFile) (file : TraceFile) :
    keptFiles slim i (before ++ [file]) = keptFiles slim i before
      ++ keptEvents slim (i + before.length) 0 (file.events.getD []) := by
  induction before generalizing i with
  | nil =>
    show keptEvents slim i 0 _ ++ [] = [] ++ keptEvents slim (i + 0) 0 _
    rw [List.append_nil, List.nil_append, Nat.add_zero]
  | cons f rest ih =>
    show keptEvents slim i 0 _ ++ keptFiles slim (i + 1) (rest ++ [file]) = _
    rw [ih, ← List.append_assoc, List.length_cons, Nat.add_right_comm, Nat.add_assoc i _ 1]
    rfl

/-- **The numbers of the merge**: those of two texts, or of two traces, are
never the same. -/
structure Numbering (ids : ℕ → String → Option ℕ) (next : ℕ) : Prop where
  injective : ∀ i i' t t' n, ids i t = some n → ids i' t' = some n → i = i' ∧ t = t'
  lt : ∀ i t n, ids i t = some n → n < next

theorem Numbering.update {ids : ℕ → String → Option ℕ} {next : ℕ} (h : Numbering ids next)
    {q : Sequencer String} (hstart : q.start = next) (i : ℕ) :
    Numbering (Function.update ids i q.seen) q.next := by
  have hcases : ∀ i' t n, Function.update ids i q.seen i' t = some n →
      i' = i ∧ q.seen t = some n ∨ ids i' t = some n := by
    intro i' t n hn
    by_cases hi : i' = i
    · subst hi
      rw [Function.update_self] at hn
      exact .inl ⟨rfl, hn⟩
    · rw [Function.update_of_ne hi] at hn
      exact .inr hn
  refine ⟨fun i₁ i₂ t₁ t₂ n h₁ h₂ => ?_, fun i' t n hn => ?_⟩
  · rcases hcases i₁ t₁ n h₁ with ⟨rfl, hnew₁⟩ | hold₁
    · rcases hcases i₂ t₂ n h₂ with ⟨rfl, hnew₂⟩ | hold₂
      · exact ⟨rfl, q.injective _ _ n hnew₁ hnew₂⟩
      · have hlt := h.lt _ _ _ hold₂
        have hge := (q.bounds _ _ hnew₁).1
        omega
    · rcases hcases i₂ t₂ n h₂ with ⟨rfl, hnew₂⟩ | hold₂
      · have hlt := h.lt _ _ _ hold₁
        have hge := (q.bounds _ _ hnew₂).1
        omega
      · exact h.injective _ _ _ _ n hold₁ hold₂
  · rcases hcases i' t n hn with ⟨-, hnew⟩ | hold
    · exact (q.bounds _ _ hnew).2
    · have hlt := h.lt _ _ _ hold
      have hle := q.start_le
      omega

/-- **What holds of the merged trace** behind some traces. -/
structure MergeInv (slim : Bool) (before : List TraceFile) (walk : TraceWalk)
    (tids flows : ℕ → String → Option ℕ) (pids : ℕ → String → String) : Prop where
  once : walk.out.filterMap Merged.source = keptFiles slim 0 before
  tidNumbers : Numbering tids walk.tidSeq.next
  flowNumbers : Numbering flows walk.flowSeq.next
  events : ∀ m ∈ walk.out, ∀ p, m.source = some p → ∃ file e, before[p.1]? = some file ∧
    (file.events.getD [])[p.2]? = some e ∧
    Renamed (tids p.1) (flows p.1) (pids p.1) slim e m.event ∧
    ∀ t, IsProcessOf (rankLabel file.name) (pids p.1 t)

theorem MergeInv.mergeOneTrace {slim : Bool} {before : List TraceFile} {file : TraceFile}
    {walk walk' : TraceWalk} {tids flows : ℕ → String → Option ℕ} {pids : ℕ → String → String}
    (h : MergeInv slim before walk tids flows pids) (hplain : file.Plain)
    (hmerge : mergeOneTrace slim before.length file walk = some walk') :
    ∃ tids' flows' pids', MergeInv slim (before ++ [file]) walk' tids' flows' pids' := by
  obtain ⟨⟨hstart, hflowStart⟩, added, hout, hsource, names, hnames, hadded⟩ :=
    mergeOneTrace_spec hplain hmerge
  refine ⟨Function.update tids before.length walk'.tidSeq.seen,
    Function.update flows before.length walk'.flowSeq.seen,
    Function.update pids before.length names, ?_, h.tidNumbers.update hstart _,
    h.flowNumbers.update hflowStart _, fun m hm p hp => ?_⟩
  · rw [hout, List.filterMap_append, h.once, hsource, keptFiles_concat, Nat.zero_add]
  · rw [hout] at hm
    rcases List.mem_append.mp hm with hm | hm
    · obtain ⟨f, e, hf, he, hrenamed, hprocess⟩ := h.events m hm p hp
      have hlt : p.1 < before.length := (List.getElem?_eq_some_iff.mp hf).1
      have hne : p.1 ≠ before.length := Nat.ne_of_lt hlt
      rw [Function.update_of_ne hne, Function.update_of_ne hne, Function.update_of_ne hne,
        List.getElem?_append_left hlt]
      exact ⟨f, e, hf, he, hrenamed, hprocess⟩
    · obtain ⟨j, e, rfl, he, hrenamed⟩ := hadded m hm p hp
      rw [Function.update_self, Function.update_self, Function.update_self]
      exact ⟨file, e, List.getElem?_concat_length, he, hrenamed, hnames⟩

theorem MergeInv.mergeFiles {slim : Bool} {before rest : List TraceFile}
    {walk walk' : TraceWalk} {tids flows : ℕ → String → Option ℕ} {pids : ℕ → String → String}
    (h : MergeInv slim before walk tids flows pids) (hplain : ∀ file ∈ rest, file.Plain)
    (hmerge : mergeFiles slim before.length rest walk = some walk') :
    ∃ tids' flows' pids', MergeInv slim (before ++ rest) walk' tids' flows' pids' := by
  induction rest generalizing before walk tids flows pids with
  | nil =>
    cases hmerge
    rw [List.append_nil]
    exact ⟨tids, flows, pids, h⟩
  | cons file rest ih =>
    obtain ⟨walk₁, hone, hmerge⟩ := Option.bind_eq_some_iff.mp hmerge
    obtain ⟨tids₁, flows₁, pids₁, h₁⟩ := h.mergeOneTrace (hplain file List.mem_cons_self) hone
    rw [List.append_cons]
    refine ih h₁ (fun f hf => hplain f (List.mem_cons_of_mem _ hf)) ?_
    rw [List.length_append, List.length_singleton]
    exact hmerge

theorem takeWhile_of_isProcessOf {rank pid : String} (hrank : '/' ∉ rank.toList)
    (h : IsProcessOf rank pid) : pid.toList.takeWhile (· ≠ '/') = rank.toList := by
  have hall : ∀ c ∈ rank.toList, (decide (c ≠ '/')) = true := fun c hc =>
    decide_eq_true fun heq => hrank (heq ▸ hc)
  rcases h with rfl | ⟨label, rfl⟩
  · exact List.takeWhile_eq_self_iff.mpr hall
  · rw [String.toList_append, String.toList_append, List.append_assoc,
      List.takeWhile_append_of_pos hall]
    show rank.toList ++ ('/' :: label.toList).takeWhile (· ≠ '/') = _
    rw [List.takeWhile_cons_of_neg (by decide), List.append_nil]

theorem slash_notMem_rankLabel {name : List Char} (h : '/' ∉ name) :
    '/' ∉ (rankLabel name).toList := by
  unfold rankLabel
  split
  · next digits hdigits =>
    rw [String.toList_ofList]
    intro hmem
    rcases List.mem_append.mp hmem with hmem | hmem
    · exact absurd hmem (by decide)
    · have hdigit : ∀ (text : List Char), digitsAfter "rank".toList false text = some digits →
          ∀ c ∈ digits, c.isDigit = true := by
        intro text
        induction text with
        | nil => exact fun hnone => (by cases hnone)
        | cons c rest ih =>
          intro hsome d hd
          unfold digitsAfter at hsome
          simp only [Bool.false_eq_true, if_false] at hsome
          split at hsome
          · cases hsome
            exact List.mem_takeWhile_imp hd
          · exact ih hsome d hd
      exact absurd (hdigit name hdigits '/' hmem) (by decide)
  · rw [String.toList_ofList]
    intro hmem
    unfold dropJson at hmem
    split at hmem
    · exact h (List.mem_of_mem_take hmem)
    · exact h hmem

/-- **A merge keeps identity apart and together**, where each id of a trace is
written in one way: two events have the same thread, or the same flow, exactly
when they are of one trace and the texts of their ids are the same; one
process of a trace is one process; and every event but the metadata of the
processes, and what a slim merge leaves out, is there once and in order. -/
theorem keepsIdentity_of_merge {files : List TraceFile} {slim : Bool} {out : List Merged}
    (hplain : ∀ file ∈ files, file.Plain) (h : mergeTraces files slim = some out) :
    KeepsIdentity files slim out := by
  obtain ⟨walk, hwalk, rfl⟩ := Option.map_eq_some_iff.mp h
  have hempty : MergeInv slim [] {} (fun _ _ => none) (fun _ _ => none) (fun _ t => t) := by
    refine ⟨rfl, ⟨fun _ _ _ _ _ hn => (by cases hn), fun _ _ _ hn => (by cases hn)⟩,
      ⟨fun _ _ _ _ _ hn => (by cases hn), fun _ _ _ hn => (by cases hn)⟩, fun m hm => ?_⟩
    exact absurd hm List.not_mem_nil
  obtain ⟨tids, flows, pids, hinv⟩ := hempty.mergeFiles hplain hwalk
  rw [List.nil_append] at hinv
  -- the event of the merged trace is the one at its place, renamed
  have hevent : ∀ m ∈ walk.out, ∀ p e, m.source = some p → eventAt files p = some e →
      Renamed (tids p.1) (flows p.1) (pids p.1) slim e m.event := by
    intro m hm p e hp he
    obtain ⟨file, e', hfile, he', hrenamed, -⟩ := hinv.events m hm p hp
    unfold eventAt at he
    rw [hfile, Option.bind_some, he'] at he
    cases he
    exact hrenamed
  refine ⟨hinv.once, fun m hm m' hm' p p' e e' x x' hp hp' he he' hx hx' => ?_,
    fun m hm m' hm' p p' e e' hp hp' he he' hf hf' => ?_,
    fun m hm m' hm' p p' e e' hp hp' he he' hi ht => ?_,
    fun m hm m' hm' p p' file file' hp hp' hf hf' heq => ?_, fun m hm p e hp he => ?_⟩
  · obtain ⟨n, hn, hlookup⟩ := (hevent m hm p e hp he).tid x hx
    obtain ⟨n', hn', hlookup'⟩ := (hevent m' hm' p' e' hp' he').tid x' hx'
    rw [hlookup, hlookup']
    constructor
    · intro heq
      cases heq
      exact hinv.tidNumbers.injective _ _ _ _ n hn hn'
    · rintro ⟨hi, ht⟩
      rw [hi, ht, hn'] at hn
      cases hn
      rfl
  · obtain ⟨n, hn, hlookup⟩ := (hevent m hm p e hp he).flow hf
    obtain ⟨n', hn', hlookup'⟩ := (hevent m' hm' p' e' hp' he').flow hf'
    rw [hlookup, hlookup']
    constructor
    · intro heq
      cases heq
      exact hinv.flowNumbers.injective _ _ _ _ n hn hn'
    · rintro ⟨hi, ht⟩
      rw [hi, ht, hn'] at hn
      cases hn
      rfl
  · rw [(hevent m hm p e hp he).pid, (hevent m' hm' p' e' hp' he').pid, hi, ht]
  · obtain ⟨f, e, hfile, -, hrenamed, hprocess⟩ := hinv.events m hm p hp
    obtain ⟨f', e', hfile', -, hrenamed', hprocess'⟩ := hinv.events m' hm' p' hp'
    rw [hf] at hfile
    rw [hf'] at hfile'
    cases hfile
    cases hfile'
    rw [hrenamed.pid, hrenamed'.pid] at heq
    have hpid := Json.str.inj (Option.some.inj heq)
    have htake := takeWhile_of_isProcessOf (slash_notMem_rankLabel file.no_slash)
      (hprocess (e.get "pid").toText)
    have htake' := takeWhile_of_isProcessOf (slash_notMem_rankLabel file'.no_slash)
      (hprocess' (e'.get "pid").toText)
    rw [hpid, htake'] at htake
    exact (String.toList_inj.mp htake).symm
  · have hrenamed := hevent m hm p e hp he
    exact ⟨hrenamed.fields, hrenamed.no_tid, hrenamed.no_flow, hrenamed.args⟩

/-- A complete event of a process and a thread. -/
def completeEvent (pid tid : ℤ) (name : String) : Json :=
  .obj [("ph", .str "X"), ("pid", .int pid), ("tid", .int tid), ("name", .str name)]

def firstRank : TraceFile where
  name := "rank0.json".toList
  trace := .obj [("traceEvents", .arr [completeEvent 1 7 "forward"])]

/-- The trace of the second rank, with the same ids. -/
def secondRank : TraceFile where
  name := "rank1.json".toList
  trace := .obj [("traceEvents", .arr [completeEvent 1 7 "forward"])]

theorem alike_singleton (x : Json) : Alike [x] := by
  intro y hy z hz _ _ _
  rw [List.mem_singleton.mp hy, List.mem_singleton.mp hz]

/-- Two ranks with the same ids are merged. -/
theorem keepsIdentity_of_merge_twoRanks : ∃ out,
    mergeTraces [firstRank, secondRank] false = some out ∧ out.length = 4 ∧
      KeepsIdentity [firstRank, secondRank] false out := by
  have hlength : (mergeTraces [firstRank, secondRank] false).map List.length = some 4 := by
    decide +kernel
  obtain ⟨out, hout, hfour⟩ := Option.map_eq_some_iff.mp hlength
  refine ⟨out, hout, hfour, keepsIdentity_of_merge (fun file hfile => ?_) hout⟩
  simp only [List.mem_cons, List.not_mem_nil, or_false] at hfile
  rcases hfile with rfl | rfl
  · exact ⟨alike_singleton (.int 7), alike_singleton (.int 1)⟩
  · exact ⟨alike_singleton (.int 7), alike_singleton (.int 1)⟩

/-- A trace of two processes without labels. -/
def twoProcesses : TraceFile where
  name := "rank0.json".toList
  trace := .arr [completeEvent 1 7 "forward", completeEvent 2 7 "forward"]

/-- **Two processes of a trace are one** in the merged trace when neither has
a label. -/
theorem pid_shared : ∃ out, mergeTraces [twoProcesses] false = some out ∧
    (out.filter fun m => m.source.isSome).map (fun m => (m.source, (m.event.get "pid").asText))
      = [(some (0, 0), some "rank0"), (some (0, 1), some "rank0")] ∧
    (eventAt [twoProcesses] (0, 0)).map (fun e => (e.get "pid").toText) = some "1" ∧
    (eventAt [twoProcesses] (0, 1)).map (fun e => (e.get "pid").toText) = some "2" := by
  have hpids : (mergeTraces [twoProcesses] false).map (fun out =>
      (out.filter fun m => m.source.isSome).map fun m => (m.source, (m.event.get "pid").asText))
      = some [(some (0, 0), some "rank0"), (some (0, 1), some "rank0")] := by decide +kernel
  obtain ⟨out, hout, heq⟩ := Option.map_eq_some_iff.mp hpids
  exact ⟨out, hout, heq, by decide +kernel, by decide +kernel⟩

end TraceMerge
