import CharlieBot.EventTypes
import CharlieBot.Lib.Traverse
import Mathlib.Data.List.Induction

/-!
# Shaping raw events for the chat

The input half of the message pipeline: what a raw user event displays,
and the order the history renders a stream in.

A turn of the OpenCode backend opens with an event that carries a session
id and no type, and closes with a `master_done`. A user who types while
the turn runs has the message persisted inside that interval although it
is answered only after it. `stableHistoryProjection` therefore moves the
queued users of every *completed* interval behind its end; an interval
still open is left as it is, since nothing says yet where it ends.
`stableClosedPrefixLen` is the longest prefix that ends outside every
open interval.

The two walk the same intervals, and what the rest of the development
uses of them is `stableHistoryProjection_append`: **a stream cut where no
interval is open is projected piece by piece**.
-/

namespace MessageEvents

/-- The line a legacy attachment footer starts with. -/
def attachedFilesMarker : List Char := "\n\n[Attached files]\n".toList

/-- Display file name of an attachment path; a path with no final segment
comes back unchanged. -/
def filenameFromPath (path : String) : String :=
  let slashed := path.toList.map fun c => if c = '\\' then '/' else c
  let trimmed := ((slashed.reverse).dropWhile (· == '/')).reverse
  let last := (Text.splitOnChar '/' trimmed).getLastD []
  if last.isEmpty then path else String.ofList last

def fileOfPath (path : String) : Json :=
  .obj [("filename", .str (filenameFromPath path)), ("path", .str path)]

/-- Uploads of a raw event as dicts: a dict stands for itself, a text is
a path, anything else raises. -/
def serializeUploadedFiles (uploadedFiles : Json) : Option (List Json) := do
  let items ← (uploadedFiles.or (.arr [])).iter
  items.mapM fun
    | .obj fs => some (.obj fs)
    | .str path => some (fileOfPath path)
    | _ => none

/-- The attachments a legacy footer lists, or nothing when a line is not
of the form `- path`. -/
def footerFiles (block : List Char) : Option (List Json) :=
  (Text.splitLines block).mapM fun line =>
    if "- ".toList.isPrefixOf line then
      let path := Text.strip (line.drop 2)
      if path.isEmpty then none else some (fileOfPath (String.ofList path))
    else none

/-- Splits a legacy attachment footer from user-visible content. The
marker test is `in`, which a list and a dict answer too – with no
footer – and which raises on anything else. -/
def stripAttachedFilesBlock : Json → Option (Json × List Json)
  | .str content =>
    match Text.rpartition attachedFilesMarker content.toList with
    | none => some (.str content, [])
    | some (body, block) =>
      match footerFiles block with
      | none => some (.str content, [])
      | some files => some (.str (String.ofList body), files)
  | .arr xs =>
    -- a list that holds the marker itself has no `rpartition`
    if xs.any (·.isText (String.ofList attachedFilesMarker)) then none
    else some (.arr xs, [])
  | .obj fs =>
    if Dict.has fs (String.ofList attachedFilesMarker) then none
    else some (.obj fs, [])
  | _ => none

/-- Display content and structured uploads of a raw user event. -/
def normalizeUserMessageEvent (ev : Event) : Option (Json × List Json) := do
  let content := ev.getD "content" (.str "")
  let uploadedFiles ← serializeUploadedFiles (ev.get "uploaded_files")
  if uploadedFiles.isEmpty then stripAttachedFilesBlock content
  else return (content, uploadedFiles)

/-! ## Run intervals -/

/-- The first event of an OpenCode run: a session id and no type. -/
def isRunMarker (ev : Event) : Bool :=
  (ev.get "type").isNone && (ev.get "session_id").truthy

/-- The last event of a run. -/
def isMasterDone (ev : Event) : Bool := ev.hasType ET.masterDone

theorem isRunMarker_eq_false_of_isMasterDone {ev : Event}
    (h : isMasterDone ev = true) : isRunMarker ev = false := by
  unfold isMasterDone Event.hasType Json.isText at h
  unfold isRunMarker
  split at h
  · next s hs => rw [hs]; rfl
  · exact absurd h Bool.false_ne_true

/-- What the interval scan remembers after an event: the index an open
interval starts at. A second marker restarts the interval. -/
def scanStart (idx : ℕ) (start : Option ℕ) (ev : Event) : Option ℕ :=
  if isRunMarker ev then some idx
  else if isMasterDone ev then none
  else start

/-- The interval an event completes, as a pair of indices. -/
def completedAt (idx : ℕ) (start : Option ℕ) (ev : Event) : List (ℕ × ℕ) :=
  if isRunMarker ev then []
  else if isMasterDone ev then (start.map fun s => (s, idx)).toList
  else []

/-- The completed intervals of a stream scanned from index `idx` with the
given interval open. -/
def scanIntervals : ℕ → Option ℕ → List Event → List (ℕ × ℕ)
  | _, _, [] => []
  | idx, start, ev :: evs =>
    completedAt idx start ev ++ scanIntervals (idx + 1) (scanStart idx start ev) evs

def completeIntervals (events : List Event) : List (ℕ × ℕ) :=
  scanIntervals 0 none events

/-- Whether an event of a completed interval is a queued user to be
moved. Tool results travel as user events with a `message`; a slash
command is answered on the spot. -/
def isDeferred (ev : Event) : Option Bool := do
  if !ev.hasType ET.user then return false
  if ev.has "message" && !ev.has "content" then return false
  let (content, _) ← normalizeUserMessageEvent ev
  let text ← content.asText
  return !("/".toList.isPrefixOf text.toList)

/-- The queued users among indexed events. -/
def collectDeferred : List (Event × ℕ) → Option (List (ℕ × Event))
  | [] => some []
  | (ev, idx) :: rest => do
    let queued ← isDeferred ev
    let more ← collectDeferred rest
    return if queued then (idx, ev) :: more else more

/-- Whether an indexed event lies strictly inside an interval. -/
def inside (iv : ℕ × ℕ) (e : Event × ℕ) : Bool :=
  decide (iv.1 < e.2) && decide (e.2 < iv.2)

/-- The queued users strictly inside an interval. -/
def deferredIn (events : List Event) (iv : ℕ × ℕ) : Option (List (ℕ × Event)) :=
  collectDeferred (events.zipIdx.filter (inside iv))

/-- The queued users of every completed interval, under the index of the
interval's end. -/
def deferredByEnd (events : List Event) : Option (List (ℕ × List (ℕ × Event))) :=
  (completeIntervals events).mapM fun iv =>
    (deferredIn events iv).map fun deferred => (iv.2, deferred)

/-- The indices of the queued users. -/
def deferredIndices (byEnd : List (ℕ × List (ℕ × Event))) : List ℕ :=
  byEnd.flatMap fun d => d.2.map Prod.fst

/-- What the history renders at an event's place: the event itself unless
it is queued, and, where a run ends, the users queued in it. -/
def placed (byEnd : List (ℕ × List (ℕ × Event))) (e : Event × ℕ) :
    List (ℕ × Event) :=
  (if e.2 ∈ deferredIndices byEnd then [] else [(e.2, e.1)])
    ++ (byEnd.lookup e.2).getD []

/-- **The order the history renders a stream in**: queued users move
behind the completed run they were queued in, everything else stays, and
every event keeps its index. -/
def stableHistoryProjection (events : List Event) : Option (List (ℕ × Event)) :=
  (deferredByEnd events).map fun byEnd => events.zipIdx.flatMap (placed byEnd)

/-- One step of the closed-prefix scan: whether an interval is open, and
the longest prefix so far that ends outside every open one. -/
def closedStep (acc : Bool × ℕ) (e : Event × ℕ) : Bool × ℕ :=
  let isOpen :=
    if isRunMarker e.1 then true
    else if isMasterDone e.1 && acc.1 then false
    else acc.1
  (isOpen, if isOpen then acc.2 else e.2 + 1)

/-- **The longest prefix whose projected order is final**: it ends
outside every open run interval. -/
def stableClosedPrefixLen (events : List Event) : ℕ :=
  (events.zipIdx.foldl closedStep (false, 0)).2

/-! ## Whether an interval is open -/

/-- Whether an interval is open behind an event. -/
def openStep (isOpen : Bool) (ev : Event) : Bool :=
  if isRunMarker ev then true else if isMasterDone ev then false else isOpen

/-- Whether an interval is open at the end of a stream. -/
def endsOpen (events : List Event) : Bool := events.foldl openStep false

/-- The interval open at the end of a scan. -/
def scanEnd : ℕ → Option ℕ → List Event → Option ℕ
  | _, start, [] => start
  | idx, start, ev :: evs => scanEnd (idx + 1) (scanStart idx start ev) evs

theorem isSome_scanEnd (idx : ℕ) (start : Option ℕ) (events : List Event) :
    (scanEnd idx start events).isSome = events.foldl openStep start.isSome := by
  induction events generalizing idx start with
  | nil => rfl
  | cons ev evs ih =>
    have h : (scanStart idx start ev).isSome = openStep start.isSome ev := by
      unfold scanStart openStep
      split
      · rfl
      · split <;> rfl
    unfold scanEnd
    rw [ih, h, List.foldl_cons]

theorem scanEnd_eq_none {events : List Event} (h : endsOpen events = false) :
    scanEnd 0 none events = none := by
  have hs := isSome_scanEnd 0 none events
  rw [Option.isSome_none] at hs
  unfold endsOpen at h
  rw [h] at hs
  exact Option.not_isSome_iff_eq_none.mp (by rw [hs]; exact Bool.false_ne_true)

theorem endsOpen_append {P Q : List Event} (h : endsOpen P = false) :
    endsOpen (P ++ Q) = endsOpen Q := by
  unfold endsOpen at h ⊢
  rw [List.foldl_append, h]

/-! ## The interval scan -/

theorem scanIntervals_cons (idx : ℕ) (start : Option ℕ) (ev : Event)
    (evs : List Event) :
    scanIntervals idx start (ev :: evs) = completedAt idx start ev
      ++ scanIntervals (idx + 1) (scanStart idx start ev) evs := rfl

theorem scanIntervals_append (idx : ℕ) (start : Option ℕ) (P Q : List Event) :
    scanIntervals idx start (P ++ Q) = scanIntervals idx start P
      ++ scanIntervals (idx + P.length) (scanEnd idx start P) Q := by
  induction P generalizing idx start with
  | nil => rfl
  | cons ev evs ih =>
    have hlen : idx + (ev :: evs).length = idx + 1 + evs.length := by
      rw [List.length_cons]; omega
    rw [List.cons_append, scanIntervals_cons, scanIntervals_cons, ih, hlen,
      List.append_assoc]
    rfl

/-- An interval moved by `n` events. -/
def movedBy (n : ℕ) (iv : ℕ × ℕ) : ℕ × ℕ := (iv.1 + n, iv.2 + n)

theorem scanStart_add (n idx : ℕ) (start : Option ℕ) (ev : Event) :
    scanStart (idx + n) (start.map (· + n)) ev
      = (scanStart idx start ev).map (· + n) := by
  unfold scanStart
  split
  · rfl
  · split <;> rfl

theorem completedAt_add (n idx : ℕ) (start : Option ℕ) (ev : Event) :
    completedAt (idx + n) (start.map (· + n)) ev
      = (completedAt idx start ev).map (movedBy n) := by
  unfold completedAt
  split
  · rfl
  · split
    · cases start <;> rfl
    · rfl

theorem scanIntervals_add (n idx : ℕ) (start : Option ℕ) (events : List Event) :
    scanIntervals (idx + n) (start.map (· + n)) events
      = (scanIntervals idx start events).map (movedBy n) := by
  induction events generalizing idx start with
  | nil => rfl
  | cons ev evs ih =>
    have hi : idx + n + 1 = idx + 1 + n := by omega
    rw [scanIntervals_cons, scanIntervals_cons, List.map_append, scanStart_add,
      completedAt_add, hi, ih]

theorem scanStart_lt {idx : ℕ} {start : Option ℕ} (hstart : ∀ s ∈ start, s < idx)
    (ev : Event) : ∀ s ∈ scanStart idx start ev, s < idx + 1 := by
  intro s hs
  unfold scanStart at hs
  split at hs
  · cases hs
    omega
  · split at hs
    · cases hs
    · have := hstart s hs
      omega

theorem scanIntervals_bound {idx : ℕ} {start : Option ℕ} {events : List Event}
    (hstart : ∀ s ∈ start, s < idx) {iv : ℕ × ℕ}
    (h : iv ∈ scanIntervals idx start events) :
    iv.1 < iv.2 ∧ iv.2 < idx + events.length := by
  induction events generalizing idx start with
  | nil => exact absurd h List.not_mem_nil
  | cons ev evs ih =>
    rw [scanIntervals_cons, List.mem_append] at h
    rw [List.length_cons]
    rcases h with h | h
    · unfold completedAt at h
      split at h
      · exact absurd h List.not_mem_nil
      · split at h
        · simp only [Option.mem_toList, Option.map_eq_some_iff] at h
          obtain ⟨s, hs, rfl⟩ := h
          have hlt := hstart s hs
          exact ⟨hlt, by omega⟩
        · exact absurd h List.not_mem_nil
    · have hb := ih (scanStart_lt hstart ev) h
      exact ⟨hb.1, by omega⟩

/-- **Behind a stream that ends outside every interval, the intervals of
the rest are its own, moved.** -/
theorem completeIntervals_append {P : List Event} (h : endsOpen P = false)
    (Q : List Event) :
    completeIntervals (P ++ Q) = completeIntervals P
      ++ (completeIntervals Q).map (movedBy P.length) := by
  unfold completeIntervals
  rw [scanIntervals_append, scanEnd_eq_none h, Nat.zero_add]
  have := scanIntervals_add P.length 0 none Q
  rw [Nat.zero_add, Option.map_none] at this
  rw [this]

/-! ## Moving a projection -/

/-- An indexed event moved by `n`. -/
def shiftIdx (n : ℕ) (e : ℕ × Event) : ℕ × Event := (e.1 + n, e.2)

/-- The users queued before an interval's end, all moved by `n`. -/
def shiftEnd (n : ℕ) (d : ℕ × List (ℕ × Event)) : ℕ × List (ℕ × Event) :=
  (d.1 + n, d.2.map (shiftIdx n))

theorem zipIdx_eq_map (n : ℕ) (events : List Event) :
    events.zipIdx n = events.zipIdx.map fun e => (e.1, e.2 + n) := by
  rw [List.zipIdx_eq_map_add]
  refine List.map_congr_left (fun e _ => ?_)
  exact Prod.ext rfl (Nat.add_comm n e.2)

theorem lt_of_mem_zipIdx {events : List Event} {e : Event × ℕ}
    (h : e ∈ events.zipIdx) : e.2 < events.length := (List.mem_zipIdx' h).1

theorem collectDeferred_cons (e : Event × ℕ) (es : List (Event × ℕ)) :
    collectDeferred (e :: es) = (isDeferred e.1).bind fun queued =>
      (collectDeferred es).map fun more =>
        if queued then (e.2, e.1) :: more else more := by
  show (do
    let queued ← isDeferred e.1
    let more ← collectDeferred es
    return if queued then (e.2, e.1) :: more else more) = _
  cases isDeferred e.1 with
  | none => rfl
  | some queued => cases collectDeferred es <;> rfl

theorem collectDeferred_map (n : ℕ) (es : List (Event × ℕ)) :
    collectDeferred (es.map fun e => (e.1, e.2 + n))
      = (collectDeferred es).map (List.map (shiftIdx n)) := by
  induction es with
  | nil => rfl
  | cons e es ih =>
    rw [List.map_cons, collectDeferred_cons, collectDeferred_cons, ih]
    cases isDeferred e.1 with
    | none => rfl
    | some queued =>
      cases collectDeferred es with
      | none => rfl
      | some more => cases queued <;> rfl

theorem mem_of_mem_collectDeferred {es : List (Event × ℕ)}
    {ds : List (ℕ × Event)} (h : collectDeferred es = some ds)
    {d : ℕ × Event} (hd : d ∈ ds) : (d.2, d.1) ∈ es := by
  induction es generalizing ds with
  | nil =>
    cases h
    exact absurd hd List.not_mem_nil
  | cons e es ih =>
    rw [collectDeferred_cons] at h
    obtain ⟨queued, -, h⟩ := Option.bind_eq_some_iff.mp h
    obtain ⟨more, hmore, rfl⟩ := Option.map_eq_some_iff.mp h
    cases queued with
    | false => exact List.mem_cons_of_mem _ (ih hmore hd)
    | true =>
      rcases List.mem_cons.mp hd with rfl | hd
      · exact List.mem_cons_self
      · exact List.mem_cons_of_mem _ (ih hmore hd)

theorem deferredIn_append_left (P Q : List Event) {iv : ℕ × ℕ}
    (h : iv.2 < P.length) : deferredIn (P ++ Q) iv = deferredIn P iv := by
  have hQ : (Q.zipIdx (0 + P.length)).filter (inside iv) = [] := by
    refine List.filter_eq_nil_iff.mpr (fun e he => ?_)
    have hle := (List.mem_zipIdx he).1
    unfold inside
    simp only [Bool.and_eq_true, decide_eq_true_eq, not_and]
    intro _
    omega
  unfold deferredIn
  rw [List.zipIdx_append, List.filter_append, hQ, List.append_nil]

theorem deferredIn_append_right (P Q : List Event) (iv : ℕ × ℕ) :
    deferredIn (P ++ Q) (movedBy P.length iv)
      = (deferredIn Q iv).map (List.map (shiftIdx P.length)) := by
  have hP : P.zipIdx.filter (inside (movedBy P.length iv)) = [] := by
    refine List.filter_eq_nil_iff.mpr (fun e he => ?_)
    have hlt := lt_of_mem_zipIdx he
    unfold inside movedBy
    simp only [Bool.and_eq_true, decide_eq_true_eq, not_and]
    intro h
    omega
  have hQ : inside (movedBy P.length iv) ∘ (fun e : Event × ℕ => (e.1, e.2 + P.length))
      = inside iv := by
    funext e
    show (decide (iv.1 + P.length < e.2 + P.length)
      && decide (e.2 + P.length < iv.2 + P.length)) = inside iv e
    simp only [Nat.add_lt_add_iff_right]
    rfl
  unfold deferredIn
  rw [List.zipIdx_append, List.filter_append, hP, List.nil_append, Nat.zero_add,
    zipIdx_eq_map, List.filter_map, hQ, collectDeferred_map]

theorem deferredByEnd_append {P : List Event} (h : endsOpen P = false)
    (Q : List Event) :
    deferredByEnd (P ++ Q) = (deferredByEnd P).bind fun a =>
      (deferredByEnd Q).map fun b => a ++ b.map (shiftEnd P.length) := by
  have hP : (completeIntervals P).mapM
      (fun iv => (deferredIn (P ++ Q) iv).map fun ds => (iv.2, ds))
      = deferredByEnd P := by
    refine List.mapM_congr_mem (fun iv hiv => ?_)
    have hb := scanIntervals_bound (by intro s hs; cases hs) hiv
    rw [deferredIn_append_left P Q (by omega)]
  have hQ : ((completeIntervals Q).map (movedBy P.length)).mapM
      (fun iv => (deferredIn (P ++ Q) iv).map fun ds => (iv.2, ds))
      = (deferredByEnd Q).map (List.map (shiftEnd P.length)) := by
    rw [List.mapM_map]
    refine List.mapM_eq_map (fun iv _ => ?_)
    show (deferredIn (P ++ Q) (movedBy P.length iv)).map
      (fun ds => ((movedBy P.length iv).2, ds)) = _
    rw [deferredIn_append_right]
    cases deferredIn Q iv <;> rfl
  show (completeIntervals (P ++ Q)).mapM _ = _
  rw [completeIntervals_append h, List.mapM_append, hP, hQ]
  cases deferredByEnd P with
  | none => rfl
  | some a => cases deferredByEnd Q <;> rfl

theorem deferredByEnd_bound {events : List Event}
    {byEnd : List (ℕ × List (ℕ × Event))} (h : deferredByEnd events = some byEnd)
    {d : ℕ × List (ℕ × Event)} (hd : d ∈ byEnd) :
    d.1 < events.length ∧ ∀ e ∈ d.2, e.1 < events.length := by
  obtain ⟨iv, hiv, heq⟩ := List.exists_of_mem_mapM h hd
  obtain ⟨ds, hds, rfl⟩ := Option.map_eq_some_iff.mp heq
  have hb := scanIntervals_bound (by intro s hs; cases hs) hiv
  refine ⟨by omega, fun e he => ?_⟩
  exact lt_of_mem_zipIdx (List.mem_of_mem_filter (mem_of_mem_collectDeferred hds he))

/-! ## Projecting piece by piece -/

theorem deferredIndices_append (a b : List (ℕ × List (ℕ × Event))) :
    deferredIndices (a ++ b) = deferredIndices a ++ deferredIndices b :=
  List.flatMap_append

theorem deferredIndices_map (n : ℕ) (b : List (ℕ × List (ℕ × Event))) :
    deferredIndices (b.map (shiftEnd n)) = (deferredIndices b).map (· + n) := by
  unfold deferredIndices
  rw [List.flatMap_map, List.map_flatMap]
  congr 1
  funext d
  show (d.2.map (shiftIdx n)).map Prod.fst = (d.2.map Prod.fst).map (· + n)
  rw [List.map_map, List.map_map]
  rfl

section Placed

variable {n : ℕ} {a : List (ℕ × List (ℕ × Event))}
  (ha : ∀ d ∈ a, d.1 < n ∧ ∀ e ∈ d.2, e.1 < n)
  (b : List (ℕ × List (ℕ × Event)))

theorem placed_append_left {e : Event × ℕ} (he : e.2 < n) :
    placed (a ++ b.map (shiftEnd n)) e = placed a e := by
  have hidx : e.2 ∈ deferredIndices (a ++ b.map (shiftEnd n))
      ↔ e.2 ∈ deferredIndices a := by
    rw [deferredIndices_append, deferredIndices_map, List.mem_append, or_iff_left]
    intro h
    obtain ⟨i, -, hi⟩ := List.mem_map.mp h
    omega
  have hlook : (b.map (shiftEnd n)).lookup e.2 = none := by
    refine List.lookup_eq_none_iff.mpr (fun p hp => ?_)
    obtain ⟨d, -, rfl⟩ := List.mem_map.mp hp
    simp only [shiftEnd, bne_iff_ne]
    omega
  unfold placed
  rw [List.lookup_append, hlook, Option.or_none]
  simp only [hidx]

include ha in
theorem placed_append_right (e : Event × ℕ) :
    placed (a ++ b.map (shiftEnd n)) (e.1, e.2 + n)
      = (placed b e).map (shiftIdx n) := by
  have hidx : e.2 + n ∈ deferredIndices (a ++ b.map (shiftEnd n))
      ↔ e.2 ∈ deferredIndices b := by
    rw [deferredIndices_append, deferredIndices_map, List.mem_append, or_iff_right]
    · exact List.mem_map_of_injective fun _ _ h => Nat.add_right_cancel h
    · intro h
      obtain ⟨d, hd, hx⟩ := List.mem_flatMap.mp h
      obtain ⟨x, hx, hxe⟩ := List.mem_map.mp hx
      have := (ha d hd).2 x hx
      omega
  have hlook : a.lookup (e.2 + n) = none := by
    refine List.lookup_eq_none_iff.mpr (fun p hp => ?_)
    have := (ha p hp).1
    rw [bne_iff_ne]
    omega
  have hshift : ((b.map (shiftEnd n)).lookup (e.2 + n)).getD []
      = ((b.lookup e.2).getD []).map (shiftIdx n) := by
    clear hidx hlook
    induction b with
    | nil => rfl
    | cons d b ih =>
      rw [List.map_cons, List.lookup_cons, List.lookup_cons]
      have hbeq : (e.2 + n == (shiftEnd n d).1) = (e.2 == d.1) := by
        simp only [shiftEnd, Nat.add_right_cancel_iff, beq_eq_beq]
      rw [hbeq]
      cases e.2 == d.1
      · exact ih
      · rfl
  unfold placed
  rw [List.lookup_append, hlook, Option.none_or, hshift, List.map_append]
  simp only [hidx]
  split <;> rfl

end Placed

/-- **A stream cut where no interval is open is projected piece by
piece.** -/
theorem stableHistoryProjection_append {P : List Event}
    (h : endsOpen P = false) (Q : List Event) :
    stableHistoryProjection (P ++ Q) = (stableHistoryProjection P).bind fun xs =>
      (stableHistoryProjection Q).map fun ys => xs ++ ys.map (shiftIdx P.length) := by
  unfold stableHistoryProjection
  rw [deferredByEnd_append h]
  cases ha : deferredByEnd P with
  | none => rfl
  | some a =>
    cases hb : deferredByEnd Q with
    | none => rfl
    | some b =>
      have hbound := fun d (hd : d ∈ a) => deferredByEnd_bound ha hd
      show some ((P ++ Q).zipIdx.flatMap (placed (a ++ b.map (shiftEnd P.length))))
        = some (P.zipIdx.flatMap (placed a)
          ++ (Q.zipIdx.flatMap (placed b)).map (shiftIdx P.length))
      congr 1
      rw [List.zipIdx_append, List.flatMap_append, Nat.zero_add,
        zipIdx_eq_map P.length, List.flatMap_map, List.map_flatMap]
      congr 1
      · exact List.flatMap_congr fun e he =>
          placed_append_left b (lt_of_mem_zipIdx he)
      · exact List.flatMap_congr fun e _ => placed_append_right hbound b e

/-! ## The closed prefix -/

theorem isMasterDone_eq_false_of_openStep {isOpen : Bool} {ev : Event}
    (h : openStep isOpen ev = true) : isMasterDone ev = false := by
  by_contra hd
  have hdone : isMasterDone ev = true := Bool.not_eq_false _ |>.mp hd
  unfold openStep at h
  rw [isRunMarker_eq_false_of_isMasterDone hdone, hdone] at h
  exact absurd h Bool.false_ne_true

theorem closedStep_fst (acc : Bool × ℕ) (e : Event × ℕ) :
    (closedStep acc e).1 = openStep acc.1 e.1 := by
  unfold closedStep openStep
  cases isRunMarker e.1 <;> cases isMasterDone e.1 <;> cases acc.1 <;> rfl

/-- **The closed-prefix scan**: its flag is the open flag, the prefix it
has found ends outside every interval, and no interval ends behind it. -/
theorem closedScan (events : List Event) :
    let acc := events.zipIdx.foldl closedStep (false, 0)
    acc.1 = endsOpen events ∧ acc.2 ≤ events.length
      ∧ endsOpen (events.take acc.2) = false
      ∧ ∀ ev ∈ events.drop acc.2, isMasterDone ev = false := by
  induction events using List.reverseRecOn with
  | nil => exact ⟨rfl, le_refl _, rfl, fun _ h => absurd h List.not_mem_nil⟩
  | append_singleton evs ev ih =>
    intro acc
    have hacc : acc = closedStep (evs.zipIdx.foldl closedStep (false, 0))
        (ev, evs.length) := by
      show List.foldl closedStep (false, 0) (evs ++ [ev]).zipIdx = _
      rw [List.zipIdx_append, List.foldl_append, Nat.zero_add]
      rfl
    obtain ⟨hopen, hle, htake, hdrop⟩ := ih
    generalize evs.zipIdx.foldl closedStep (false, 0) = before at *
    have hfst : acc.1 = endsOpen (evs ++ [ev]) := by
      rw [hacc, closedStep_fst, hopen]
      show _ = (evs ++ [ev]).foldl openStep false
      rw [List.foldl_append]
      rfl
    have hsnd : acc.2 = if acc.1 then before.2 else evs.length + 1 := by
      rw [hacc]
      rfl
    refine ⟨hfst, ?_⟩
    cases hcase : acc.1 with
    | false =>
      rw [hcase, if_neg Bool.false_ne_true] at hsnd
      have hlen : acc.2 = (evs ++ [ev]).length := by
        rw [hsnd, List.length_append]
        rfl
      rw [hlen, List.take_length, List.drop_length, ← hfst, hcase]
      exact ⟨le_refl _, rfl, fun _ h => absurd h List.not_mem_nil⟩
    | true =>
      rw [hcase, if_pos rfl] at hsnd
      rw [hsnd, List.take_append_of_le_length hle, List.drop_append_of_le_length hle]
      refine ⟨by rw [List.length_append]; omega, htake, fun x hx => ?_⟩
      rcases List.mem_append.mp hx with hx | hx
      · exact hdrop x hx
      · obtain rfl := List.mem_singleton.mp hx
        rw [hacc, closedStep_fst] at hcase
        exact isMasterDone_eq_false_of_openStep hcase

/-- **The closed prefix ends outside every interval.** -/
theorem endsOpen_take_closed (events : List Event) :
    endsOpen (events.take (stableClosedPrefixLen events)) = false :=
  (closedScan events).2.2.1

/-- **No interval ends behind the closed prefix.** -/
theorem isMasterDone_of_mem_drop_closed {events : List Event} {ev : Event}
    (h : ev ∈ events.drop (stableClosedPrefixLen events)) :
    isMasterDone ev = false :=
  (closedScan events).2.2.2 ev h

theorem stableClosedPrefixLen_le (events : List Event) :
    stableClosedPrefixLen events ≤ events.length := (closedScan events).2.1

theorem scanIntervals_eq_nil (idx : ℕ) (start : Option ℕ) {events : List Event}
    (h : ∀ ev ∈ events, isMasterDone ev = false) :
    scanIntervals idx start events = [] := by
  induction events generalizing idx start with
  | nil => rfl
  | cons ev evs ih =>
    have hev : completedAt idx start ev = [] := by
      unfold completedAt
      rw [h ev List.mem_cons_self]
      split <;> rfl
    rw [scanIntervals_cons, hev, ih _ _ fun e he => h e (List.mem_cons_of_mem _ he)]
    rfl

theorem stableHistoryProjection_of_noDone {events : List Event}
    (h : ∀ ev ∈ events, isMasterDone ev = false) :
    stableHistoryProjection events
      = some (events.zipIdx.map fun e => (e.2, e.1)) := by
  have hnil : deferredByEnd events = some [] := by
    unfold deferredByEnd completeIntervals
    rw [scanIntervals_eq_nil 0 none h]
    rfl
  unfold stableHistoryProjection
  rw [hnil, Option.map_some]
  exact congrArg some List.map_eq_flatMap.symm

end MessageEvents
