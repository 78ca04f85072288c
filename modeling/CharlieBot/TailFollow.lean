import CharlieBot.EventTypes
import CharlieBot.Lib.Lines
import CharlieBot.Lib.Machine
import CharlieBot.Lib.Records
import CharlieBot.Lib.Transition
import Mathlib.Data.List.Forall2

/-!
# Following a raw log

A run's process appends its events to a raw log, one line each, and a
follower reads the log from a byte offset on: in chunks, into a buffer it
takes the complete lines from, translating each line's event and yielding
what the translation gives. When the caller has taken all of a line's
events the follower writes its offset to a cursor file, and when it is
stopped another one starts from there. It ends when a read comes back empty
and the process is gone, when a result was seen and nothing has come for a
while, or when a translation fails.

The module proves that **every follower yields, in order, the translations
of the lines from the cursor on**, so that all of them together go through
the log line by line and repeat no more than the lines behind the last
cursor (`inOrder_of_run`), however the process appends and whenever a
follower is stopped. **One that ends because the process is gone has yielded
every complete line** if nothing was appended between its last empty read
and the look at the process (`complete_of_guarded`); what is appended in
between is lost (`line_lost`).
-/

/-- **A translator**: it turns one raw event into the events to yield, may
remember, and may fail. -/
structure Translator (τ : Type*) extends Machine τ Event Event where
  /-- What it remembers at first. -/
  fresh : τ

/-- A line of the log, without its line feed. -/
abbrev RawLine := List UInt8

/-- The translation of lines, one by one; a line that does not parse has
none. -/
def Translator.translateLines {τ : Type*} (parse : RawLine → Option Event)
    (T : Translator τ) (st : τ) (lines : List RawLine) : Option (τ × List Event) :=
  T.run st (lines.filterMap parse)

/-- Gives an event that has no time the time it is read. -/
def clampEventTimestamp (translated : Event) (stamp : String) : Event :=
  if (translated.get "timestamp").truthy then translated
  else translated.set "timestamp" (.str stamp)

/-- Yielded events: translated ones with a time. -/
def Stamps : List Event → List Event → Prop :=
  List.Forall₂ fun translated y => ∃ stamp, y = clampEventTimestamp translated stamp

/-! ## The follower -/

/-- Why a follower ended. -/
inductive EndCause where
  | producerGone
  /-- Nothing came for too long after the result. -/
  | postResultTimeout
  /-- A translation failed. -/
  | raised
  deriving DecidableEq

inductive FollowPhase where
  /-- Before the log is there. -/
  | waiting
  /-- It is not; the process is to be looked at. -/
  | waitingProbe
  | reading
  /-- Behind one: the buffer is searched for a line. -/
  | scanning
  /-- Events of a line are to be yielded, and the cursor written behind them. -/
  | yielding (pending : List Event)
  /-- A read came back empty; the process is to be looked at. -/
  | probing
  | ended (cause : EndCause)

/-- The events still to be yielded. -/
def FollowPhase.pending : FollowPhase → List Event
  | .yielding pending => pending
  | _ => []

/-- Whether all of the buffer was searched. -/
def FollowPhase.searched : FollowPhase → Bool
  | .scanning => false
  | .yielding _ => false
  | .ended .raised => false
  | _ => true

/-- **What a follower has done**: the lines it took and the events it
yielded, up to its last cursor and since. -/
structure Incarnation where
  start : ℕ
  /-- The lines up to the cursor. -/
  keptLines : List RawLine := []
  /-- The events yielded up to the cursor. -/
  kept : List Event := []
  sinceLines : List RawLine := []
  since : List Event := []

/-- **A follower.** -/
structure Follower (τ : Type*) where
  phase : FollowPhase := .waiting
  /-- The offset behind the last line it took. -/
  offset : ℕ
  /-- The position of its next read. -/
  pos : ℕ
  /-- The bytes it read. -/
  buf : List UInt8 := []
  /-- How many of them are of lines it took. -/
  consumed : ℕ := 0
  /-- How many were searched for a line feed. -/
  scanned : ℕ := 0
  /-- What its translator remembers. -/
  state : τ
  sawResult : Bool := false
  /-- The tool calls without a result. -/
  pendingToolCalls : List String := []
  incarnation : Incarnation

/-- The ids, under a field, of the items of a kind in an event's message. -/
def toolIdsOf (translated : Event) (kind idField : String) : List String :=
  let message := (translated.get "message").asDict.getD []
  let content := (message.get "content").iter.getD []
  content.filterMap fun item =>
    match item.asDict with
    | some item =>
      if Event.hasType item kind then (item.get idField).asText.filter (· != "") else none
    | none => none

/-- The tool calls without a result, after an event. -/
def trackToolCalls (pendingToolCalls : List String) (translated : Event) : List String :=
  if translated.hasType ET.assistant then
    (toolIdsOf translated ET.toolUse "id").foldl (fun ids id => ids.insert id) pendingToolCalls
  else if translated.hasType ET.toolUse then
    match (translated.get "id").asText.filter (· != "") with
    | some id => pendingToolCalls.insert id
    | none => pendingToolCalls
  else if translated.hasType ET.toolResult then
    match (translated.get "tool_use_id").asText with
    | some id => pendingToolCalls.erase id
    | none => pendingToolCalls
  else if translated.hasType ET.user then
    (toolIdsOf translated ET.toolResult "tool_use_id").foldl List.erase pendingToolCalls
  else pendingToolCalls

/-- The number of bytes of a read. -/
def readSize : ℕ := 65536

namespace Follower

variable {τ : Type*}

def mount (T : Translator τ) (startOffset : ℕ) : Follower τ :=
  { offset := startOffset, pos := startOffset, state := T.fresh,
    incarnation := { start := startOffset } }

/-- A read of some bytes: the taken lines leave the buffer first. -/
def readChunk (f : Follower τ) (file : List UInt8) (n : ℕ) : Follower τ :=
  let chunk := (file.drop f.pos).take n
  { f with
    phase := .scanning
    pos := f.pos + chunk.length
    buf := f.buf.drop f.consumed ++ chunk
    scanned := f.scanned - f.consumed
    consumed := 0 }

/-- Takes the next complete line of the buffer, if there is one. -/
def scanLine (parse : RawLine → Option Event) (T : Translator τ) (f : Follower τ) :
    Follower τ :=
  match (f.buf.drop f.scanned).findIdx? (· == lineFeed) with
  | none => { f with scanned := f.buf.length, phase := .reading }
  | some k =>
    let nl := f.scanned + k
    let rawLine := (f.buf.take nl).drop f.consumed
    let taken := { f with
      consumed := nl + 1
      scanned := nl + 1
      offset := f.offset + rawLine.length + 1
      incarnation := { f.incarnation with
        sinceLines := f.incarnation.sinceLines ++ [rawLine] } }
    match parse rawLine with
    | none => taken
    | some event =>
      match T.step f.state event with
      | none => { f with phase := .ended .raised }
      | some (state, out) => { taken with state, phase := .yielding out }

/-- Yields an event. A result ends nothing, and counts only while no tool
call waits. -/
def yieldEvent (f : Follower τ) (translated : Event) (rest : List Event) (stamp : String) :
    Follower τ :=
  let pendingToolCalls := trackToolCalls f.pendingToolCalls translated
  { f with
    phase := .yielding rest
    pendingToolCalls
    sawResult := f.sawResult
      || (translated.hasType ET.result && pendingToolCalls.isEmpty)
    incarnation := { f.incarnation with
      since := f.incarnation.since ++ [clampEventTimestamp translated stamp] } }

/-- The cursor is written: what was done since the last one is kept. -/
def checkpoint (f : Follower τ) : Follower τ :=
  { f with
    phase := .scanning
    incarnation :=
      { start := f.incarnation.start
        keptLines := f.incarnation.keptLines ++ f.incarnation.sinceLines
        kept := f.incarnation.kept ++ f.incarnation.since } }

end Follower

/-! ## The log and its followers as a system -/

/-- **A raw log, its process and its followers.** -/
structure TransportState (τ : Type*) where
  file : List UInt8 := []
  created : Bool := false
  /-- Whether the process is. -/
  alive : Bool := true
  cursor : ℕ := 0
  /-- What earlier followers did. -/
  past : List Incarnation := []
  follower : Option (Follower τ) := none
  yielded : List Event := []

/-- What happens next. -/
inductive TransportAction where
  | append (bytes : List UInt8)
  | die
  /-- A follower starts from the cursor. -/
  | start
  | stop
  /-- The follower looks for the log. -/
  | look
  | read (n : ℕ)
  /-- It looks for a line. -/
  | scan
  | yieldEvent (stamp : String)
  /-- It writes the cursor. -/
  | checkpoint
  /-- It reads nothing; `late` when nothing has come for too long. -/
  | emptyRead (late : Bool)
  /-- It looks at the process. -/
  | probe
  /-- Another process is spawned into the place. -/
  | respawn

namespace TransportState

variable {τ : Type*} (parse : RawLine → Option Event) (T : Translator τ)

/-- Moves a previous attempt's log and its cursor out of the way. -/
def rotateStaleTransport (s : TransportState τ) : TransportState τ :=
  if s.file.isEmpty then s else { s with file := [], created := false, cursor := 0 }

/-- What the followers have done, the present one last. -/
def incarnations (s : TransportState τ) : List Incarnation :=
  s.past ++ (s.follower.map Follower.incarnation).toList

/-- **One step.** -/
def step (s : TransportState τ) : TransportAction → Option (TransportState τ)
  | .append bytes =>
    if s.alive then some { s with file := s.file ++ bytes, created := true } else none
  | .die => some { s with alive := false }
  | .start =>
    match s.follower with
    | none => some { s with follower := some (Follower.mount T s.cursor) }
    | some _ => none
  | .stop => some { s with past := s.incarnations, follower := none }
  | .look =>
    match s.follower with
    | some f =>
      match f.phase with
      | .waiting =>
        let phase := if s.created then FollowPhase.reading else .waitingProbe
        some { s with follower := some { f with phase } }
      | _ => none
    | none => none
  | .read n =>
    match s.follower with
    | some f =>
      match f.phase with
      | .reading =>
        if 0 < n ∧ n ≤ readSize ∧ f.pos + n ≤ s.file.length then
          some { s with follower := some (f.readChunk s.file n) }
        else none
      | _ => none
    | none => none
  | .scan =>
    match s.follower with
    | some f =>
      match f.phase with
      | .scanning => some { s with follower := some (f.scanLine parse T) }
      | _ => none
    | none => none
  | .yieldEvent stamp =>
    match s.follower with
    | some f =>
      match f.phase with
      | .yielding (translated :: rest) =>
        some { s with
          follower := some (f.yieldEvent translated rest stamp)
          yielded := s.yielded ++ [clampEventTimestamp translated stamp] }
      | _ => none
    | none => none
  | .checkpoint =>
    match s.follower with
    | some f =>
      match f.phase with
      | .yielding [] => some { s with cursor := f.offset, follower := some f.checkpoint }
      | _ => none
    | none => none
  | .emptyRead late =>
    match s.follower with
    | some f =>
      match f.phase with
      | .reading =>
        if s.file.length ≤ f.pos then
          let phase :=
            if f.sawResult && late then FollowPhase.ended .postResultTimeout else .probing
          some { s with follower := some { f with phase } }
        else none
      | _ => none
    | none => none
  | .probe =>
    match s.follower with
    | some f =>
      match f.phase with
      | .probing =>
        let phase := if s.alive then FollowPhase.reading else .ended .producerGone
        some { s with follower := some { f with phase } }
      | .waitingProbe =>
        let phase := if s.alive then FollowPhase.waiting else .ended .producerGone
        some { s with follower := some { f with phase } }
      | _ => none
    | none => none
  | .respawn =>
    match s.follower with
    | none =>
      if s.alive then none
      else some { s.rotateStaleTransport with
        alive := true, past := [], follower := none, yielded := [] }
    | some _ => none

/-- A raw log as a transition system. -/
def system : TransitionSystem (TransportState τ) TransportAction := ⟨step parse T⟩

end TransportState

/-! ## What followers have done -/

section

variable {τ : Type*} (parse : RawLine → Option Event) (T : Translator τ)

theorem Translator.translateLines_concat {st st' : τ} {lines : List RawLine} {line : RawLine}
    {out : List Event} (h : T.translateLines parse st lines = some (st', out)) :
    (parse line = none → T.translateLines parse st (lines ++ [line]) = some (st', out)) ∧
    ∀ event st'' out', parse line = some event → T.step st' event = some (st'', out') →
      T.translateLines parse st (lines ++ [line]) = some (st'', out ++ out') := by
  unfold Translator.translateLines at h ⊢
  rw [List.filterMap_append]
  refine ⟨fun hline => ?_, fun event st'' out' hline hstep => ?_⟩
  · rw [List.filterMap_cons_none hline, List.filterMap_nil, List.append_nil]
    exact h
  · rw [List.filterMap_cons_some hline, List.filterMap_nil]
    refine Machine.run_append_of_eq_some h ?_
    rw [Machine.run_cons, hstep, Option.bind_some, Machine.run_nil, Option.map_some,
      List.append_nil]

/-- The lines a follower took. -/
def Incarnation.lines (inc : Incarnation) : List RawLine := inc.keptLines ++ inc.sinceLines

/-- **A follower yielded the translations of the lines it took**, in order
and by its own translator, but for what is still pending; and up to its last
cursor those of the lines up to there. -/
structure Incarnation.Translates (inc : Incarnation) (st : τ) (pending : List Event) :
    Prop where
  /-- Up to the cursor. -/
  kept : ∃ st' out, T.translateLines parse T.fresh inc.keptLines = some (st', out)
    ∧ Stamps out inc.kept
  since : ∃ out, T.translateLines parse T.fresh inc.lines = some (st, out ++ pending)
    ∧ Stamps out (inc.kept ++ inc.since)

/-- **Followers go through lines in order**: each starts behind the lines
up to the cursor of the one before it, takes the lines from there on, and
yields their translations. -/
def InOrder (lines : List RawLine) : List RawLine → List Incarnation → Prop
  | _, [] => True
  | done, inc :: incs =>
    inc.start = (joinRecords lineFeed done).length
      ∧ (∃ st pending, inc.Translates parse T st pending)
      ∧ done ++ inc.lines <+: lines
      ∧ InOrder lines (done ++ inc.keptLines) incs

/-- A follower's lines are lines of the log. -/
structure Incarnation.Fits (inc : Incarnation) (file : List UInt8) (done : List RawLine) :
    Prop where
  /-- It started behind the lines before. -/
  start : inc.start = (joinRecords lineFeed done).length
  translates : ∃ st pending, inc.Translates parse T st pending
  lines : ∀ l ∈ inc.lines, lineFeed ∉ l
  /-- They come next in the log. -/
  isPrefix : joinRecords lineFeed (done ++ inc.lines) <+: file

/-- So are those of several. -/
def Covers (file : List UInt8) : List RawLine → List Incarnation → Prop
  | _, [] => True
  | done, inc :: incs =>
    inc.Fits parse T file done ∧ Covers file (done ++ inc.keptLines) incs

variable {parse T} {file : List UInt8} {done : List RawLine} {incs : List Incarnation}

theorem Covers.append (h : Covers parse T file done incs) {inc : Incarnation}
    (hinc : inc.Fits parse T file (done ++ incs.flatMap Incarnation.keptLines)) :
    Covers parse T file done (incs ++ [inc]) := by
  induction incs generalizing done with
  | nil =>
    rw [List.flatMap_nil, List.append_nil] at hinc
    exact ⟨hinc, trivial⟩
  | cons i incs ih =>
    refine ⟨h.1, ih h.2 ?_⟩
    rw [List.append_assoc, ← List.flatMap_cons]
    exact hinc

theorem Covers.grow (h : Covers parse T file done incs) (bytes : List UInt8) :
    Covers parse T (file ++ bytes) done incs := by
  induction incs generalizing done with
  | nil => trivial
  | cons i incs ih =>
    exact ⟨⟨h.1.start, h.1.translates, h.1.lines,
      h.1.isPrefix.trans (List.prefix_append _ _)⟩, ih h.2⟩

theorem Covers.notMem (h : Covers parse T file done incs) :
    ∀ l ∈ incs.flatMap Incarnation.keptLines, lineFeed ∉ l := by
  induction incs generalizing done with
  | nil => exact fun _ h => absurd h List.not_mem_nil
  | cons i incs ih =>
    intro l hl
    rw [List.flatMap_cons] at hl
    rcases List.mem_append.mp hl with hl | hl
    · exact h.1.lines l (List.mem_append_left _ hl)
    · exact ih h.2 l hl

/-- **What is covered is in order.** -/
theorem Covers.inOrder (h : Covers parse T file done incs)
    (hdone : ∀ l ∈ done, lineFeed ∉ l) :
    InOrder parse T (records lineFeed file).1 done incs := by
  induction incs generalizing done with
  | nil => trivial
  | cons i incs ih =>
    refine ⟨h.1.start, h.1.translates, isPrefix_records ?_ h.1.isPrefix, ih h.2 ?_⟩
    · exact List.forall_mem_append.mpr ⟨hdone, h.1.lines⟩
    · exact List.forall_mem_append.mpr
        ⟨hdone, fun l hl => h.1.lines l (List.mem_append_left _ hl)⟩

end

/-! ## A follower's buffer -/

section

variable {τ : Type*} (parse : RawLine → Option Event) (T : Translator τ)

/-- **What holds of a follower**: its buffer continues the lines it took to
its position in the log, and has no line feed where it was searched. -/
structure Follower.Inv (f : Follower τ) (file : List UInt8) (done : List RawLine) : Prop where
  /-- It started behind the lines before. -/
  start : f.incarnation.start = (joinRecords lineFeed done).length
  /-- It translated its own, and its translator remembers them. -/
  translates : f.incarnation.Translates parse T f.state f.phase.pending
  lines : ∀ l ∈ f.incarnation.lines, lineFeed ∉ l
  /-- It has not read past the end. -/
  le : f.pos ≤ file.length
  /-- What it read is the lines it took and the rest of the buffer. -/
  bytes : file.take f.pos
    = joinRecords lineFeed (done ++ f.incarnation.lines) ++ f.buf.drop f.consumed
  /-- Its offset is behind the lines it took. -/
  offset : f.offset = (joinRecords lineFeed (done ++ f.incarnation.lines)).length
  /-- What is of taken lines was searched. -/
  consumed : f.consumed ≤ f.scanned
  scanned : f.scanned ≤ f.buf.length
  clean : lineFeed ∉ (f.buf.take f.scanned).drop f.consumed
  /-- Between reads all was searched. -/
  searched : f.phase.searched = true → f.scanned = f.buf.length

variable {parse T} {f : Follower τ} {file : List UInt8} {done : List RawLine}

namespace Follower

theorem inv_mount (hdone : joinRecords lineFeed done <+: file) :
    (mount T (joinRecords lineFeed done).length).Inv parse T file done where
  start := rfl
  translates := ⟨⟨T.fresh, [], rfl, .nil⟩, [], rfl, .nil⟩
  lines := fun _ h => absurd h List.not_mem_nil
  le := hdone.length_le
  bytes := by
    show file.take (joinRecords lineFeed done).length = joinRecords lineFeed (done ++ []) ++ []
    rw [List.append_nil, List.append_nil]
    exact (List.prefix_iff_eq_take.mp hdone).symm
  offset := by
    show _ = (joinRecords lineFeed (done ++ [])).length
    rw [List.append_nil]
    rfl
  consumed := Nat.le_refl 0
  scanned := Nat.le_refl 0
  clean := List.not_mem_nil
  searched := fun _ => rfl

theorem Inv.setPhase (h : f.Inv parse T file done) {phase : FollowPhase}
    (hpending : f.phase.pending = []) (hphase : phase.pending = [])
    (hsearched : f.phase.searched = true) :
    ({ f with phase } : Follower τ).Inv parse T file done where
  start := h.start
  translates := by
    show f.incarnation.Translates parse T f.state phase.pending
    rw [hphase, ← hpending]
    exact h.translates
  lines := h.lines
  le := h.le
  bytes := h.bytes
  offset := h.offset
  consumed := h.consumed
  scanned := h.scanned
  clean := h.clean
  searched := fun _ => h.searched hsearched

theorem Inv.grow (h : f.Inv parse T file done) (bytes : List UInt8) :
    f.Inv parse T (file ++ bytes) done where
  start := h.start
  translates := h.translates
  lines := h.lines
  le := by
    rw [List.length_append]
    exact Nat.le_add_right_of_le h.le
  bytes := by
    rw [List.take_append_of_le_length h.le]
    exact h.bytes
  offset := h.offset
  consumed := h.consumed
  scanned := h.scanned
  clean := h.clean
  searched := h.searched

theorem Inv.readChunk (h : f.Inv parse T file done) (hpending : f.phase.pending = [])
    {n : ℕ} (hn : f.pos + n ≤ file.length) : (f.readChunk file n).Inv parse T file done := by
  have hlen : ((file.drop f.pos).take n).length = n := by
    rw [List.length_take, List.length_drop]
    omega
  have hsearched : f.scanned - f.consumed ≤ (f.buf.drop f.consumed).length := by
    rw [List.length_drop]
    have := h.scanned
    omega
  refine ⟨h.start, ?_, h.lines, ?_, ?_, h.offset, Nat.zero_le _, ?_, ?_,
    fun h => (by cases h)⟩
  · show f.incarnation.Translates parse T f.state []
    rw [← hpending]
    exact h.translates
  · show f.pos + _ ≤ _
    rw [hlen]
    exact hn
  · show file.take (f.pos + _) = _ ++ (f.buf.drop f.consumed ++ _)
    rw [hlen, List.take_add, h.bytes, List.append_assoc]
    rfl
  · show f.scanned - f.consumed ≤ (f.buf.drop f.consumed ++ _).length
    rw [List.length_append]
    exact Nat.le_add_right_of_le hsearched
  · show lineFeed ∉ ((f.buf.drop f.consumed ++ _).take (f.scanned - f.consumed)).drop 0
    rw [List.drop_zero, List.take_append_of_le_length hsearched, ← List.drop_take]
    exact h.clean

theorem Inv.rawLine (h : f.Inv parse T file done) {k : ℕ}
    (hk : (f.buf.drop f.scanned).findIdx? (· == lineFeed) = some k) :
    lineFeed ∉ (f.buf.take (f.scanned + k)).drop f.consumed ∧
    f.scanned + k + 1 ≤ f.buf.length ∧
    f.buf.drop f.consumed = (f.buf.take (f.scanned + k)).drop f.consumed ++ [lineFeed]
      ++ f.buf.drop (f.scanned + k + 1) := by
  obtain ⟨hlt, hfound, hbefore⟩ := List.findIdx?_eq_some_iff_getElem.mp hk
  rw [List.length_drop] at hlt
  have hle : f.consumed ≤ f.scanned + k := Nat.le_add_right_of_le h.consumed
  have htake : f.buf.take (f.scanned + k)
      = f.buf.take f.scanned ++ (f.buf.drop f.scanned).take k := List.take_add
  refine ⟨?_, by omega, ?_⟩
  · have hconsumed : f.consumed ≤ (f.buf.take f.scanned).length := by
      rw [List.length_take, Nat.min_eq_left h.scanned]
      exact h.consumed
    rw [htake, List.drop_append_of_le_length hconsumed, List.mem_append, not_or]
    refine ⟨h.clean, fun hmem => ?_⟩
    obtain ⟨i, hi, heq⟩ := List.getElem_of_mem hmem
    rw [List.length_take] at hi
    rw [List.getElem_take] at heq
    have hne := hbefore i (by omega)
    rw [heq] at hne
    exact hne (beq_self_eq_true lineFeed)
  · have hcut : f.buf = f.buf.take (f.scanned + k) ++ [lineFeed]
        ++ f.buf.drop (f.scanned + k + 1) := by
      have hlt : f.scanned + k < f.buf.length := by omega
      have hget : f.buf[f.scanned + k] = lineFeed := by
        rw [List.getElem_drop] at hfound
        exact eq_of_beq hfound
      rw [← hget, List.append_assoc, List.singleton_append, ← List.drop_eq_getElem_cons,
        List.take_append_drop]
    conv_lhs => rw [hcut]
    rw [List.append_assoc, List.drop_append_of_le_length, ← List.append_assoc]
    rw [List.length_take]
    omega

/-- **Taking a line keeps the buffer in step**, and its events are to be
yielded. -/
theorem Inv.scanLine (h : f.Inv parse T file done) (hpending : f.phase.pending = [])
    (hscanning : f.phase.searched = false) :
    (f.scanLine parse T).Inv parse T file done := by
  unfold Follower.scanLine
  split
  · next hnone =>
    refine ⟨h.start, ?_, h.lines, h.le, h.bytes, h.offset,
      h.consumed.trans h.scanned, Nat.le_refl _, ?_, fun _ => rfl⟩
    · show f.incarnation.Translates parse T f.state []
      rw [← hpending]
      exact h.translates
    · show lineFeed ∉ (f.buf.take f.buf.length).drop f.consumed
      rw [← List.take_append_drop f.scanned f.buf, List.take_length,
        List.drop_append_of_le_length, List.mem_append, not_or]
      · refine ⟨h.clean, fun hmem => ?_⟩
        have := List.findIdx?_eq_none_iff.mp hnone lineFeed hmem
        exact absurd this (by decide)
      · rw [List.length_take, Nat.min_eq_left h.scanned]
        exact h.consumed
  · next k hk =>
    obtain ⟨hline, hle, hcut⟩ := h.rawLine hk
    have hlines : f.incarnation.keptLines ++ (f.incarnation.sinceLines
        ++ [(f.buf.take (f.scanned + k)).drop f.consumed])
        = f.incarnation.lines ++ [(f.buf.take (f.scanned + k)).drop f.consumed] :=
      (List.append_assoc ..).symm
    obtain ⟨out, htrans, hstamps⟩ := h.translates.since
    rw [hpending, List.append_nil] at htrans
    obtain ⟨hskip, htake⟩ := Translator.translateLines_concat parse T htrans
    -- what holds of the follower with the line taken, whatever it translates to
    have htaken : ∀ (phase : FollowPhase) (state : τ), phase.searched = false →
        T.translateLines parse T.fresh (f.incarnation.lines
          ++ [(f.buf.take (f.scanned + k)).drop f.consumed])
            = some (state, out ++ phase.pending) →
        ({ f with
          phase
          state
          consumed := f.scanned + k + 1
          scanned := f.scanned + k + 1
          offset := f.offset + ((f.buf.take (f.scanned + k)).drop f.consumed).length + 1
          incarnation := { f.incarnation with
            sinceLines := f.incarnation.sinceLines
              ++ [(f.buf.take (f.scanned + k)).drop f.consumed] } } : Follower τ).Inv
          parse T file done := by
      intro phase state hphase hout
      refine ⟨h.start, ⟨h.translates.kept, out, ?_, hstamps⟩, ?_, h.le, ?_, ?_,
        Nat.le_refl _, hle, ?_, fun hs => ?_⟩
      · unfold Incarnation.lines
        dsimp only
        rw [hlines]
        exact hout
      · unfold Incarnation.lines
        dsimp only
        rw [hlines]
        refine List.forall_mem_append.mpr ⟨h.lines, fun l hl => ?_⟩
        rw [List.mem_singleton.mp hl]
        exact hline
      · unfold Incarnation.lines
        dsimp only
        rw [hlines, h.bytes, hcut]
        simp only [joinRecords_append, joinRecords_cons, joinRecords_nil, List.append_assoc,
          List.append_nil]
      · unfold Incarnation.lines
        dsimp only
        rw [hlines, h.offset]
        simp only [joinRecords_append, joinRecords_cons, joinRecords_nil, List.length_append,
          List.length_singleton, List.append_nil]
        omega
      · rw [List.drop_of_length_le (List.length_take_le _ _)]
        exact List.not_mem_nil
      · rw [hphase] at hs
        cases hs
    dsimp only
    split
    · next hparse =>
      exact htaken f.phase f.state hscanning
        (by rw [hpending, List.append_nil]; exact hskip hparse)
    · next event hparse =>
      split
      · refine ⟨h.start, ?_, h.lines, h.le, h.bytes, h.offset, h.consumed, h.scanned,
          h.clean, fun h => (by cases h)⟩
        show f.incarnation.Translates parse T f.state []
        rw [← hpending]
        exact h.translates
      · next state out' hstep =>
        exact htaken (.yielding out') state rfl (htake event state out' hparse hstep)

theorem kept_scanLine (parse : RawLine → Option Event) (T : Translator τ) (f : Follower τ) :
    (f.scanLine parse T).incarnation.keptLines = f.incarnation.keptLines
      ∧ (f.scanLine parse T).incarnation.kept ++ (f.scanLine parse T).incarnation.since
        = f.incarnation.kept ++ f.incarnation.since := by
  unfold Follower.scanLine
  split
  · exact ⟨rfl, rfl⟩
  · dsimp only
    split
    · exact ⟨rfl, rfl⟩
    · split <;> exact ⟨rfl, rfl⟩

theorem phase_scanLine (parse : RawLine → Option Event) (T : Translator τ) (f : Follower τ)
    (hphase : f.phase = .scanning) :
    (f.scanLine parse T).phase ≠ .ended .producerGone := by
  unfold Follower.scanLine
  split
  · exact FollowPhase.noConfusion
  · dsimp only
    split
    · rw [hphase]
      exact FollowPhase.noConfusion
    · split
      · intro h
        cases h
      · exact FollowPhase.noConfusion

theorem Inv.yieldEvent (h : f.Inv parse T file done) {translated : Event} {rest : List Event}
    (hphase : f.phase = .yielding (translated :: rest)) (stamp : String) :
    (f.yieldEvent translated rest stamp).Inv parse T file done := by
  obtain ⟨out, hsince, hstamps⟩ := h.translates.since
  rw [hphase] at hsince
  refine ⟨h.start, ⟨h.translates.kept, out ++ [translated], ?_, ?_⟩, h.lines, h.le,
    h.bytes, h.offset, h.consumed, h.scanned, h.clean, fun h => (by cases h)⟩
  · show T.translateLines parse T.fresh f.incarnation.lines = _
    rw [hsince, List.append_assoc]
    rfl
  · show Stamps _ (f.incarnation.kept ++ (f.incarnation.since ++ [_]))
    rw [← List.append_assoc]
    exact List.rel_append hstamps (.cons ⟨stamp, rfl⟩ .nil)

theorem Inv.checkpoint (h : f.Inv parse T file done) (hphase : f.phase = .yielding []) :
    f.checkpoint.Inv parse T file done := by
  have hlines : f.checkpoint.incarnation.lines = f.incarnation.lines := List.append_nil _
  obtain ⟨out, hsince, hstamps⟩ := h.translates.since
  rw [hphase] at hsince
  have hout : T.translateLines parse T.fresh f.incarnation.lines = some (f.state, out) :=
    hsince.trans (congrArg (fun o => some (f.state, o)) (List.append_nil out))
  refine ⟨h.start, ⟨⟨f.state, out, hout, hstamps⟩, out, ?_, ?_⟩, ?_, h.le, ?_, ?_,
    h.consumed, h.scanned, h.clean, fun h => (by cases h)⟩
  · rw [hlines]
    exact hsince
  · show Stamps out ((f.incarnation.kept ++ f.incarnation.since) ++ [])
    rw [List.append_nil]
    exact hstamps
  · rw [hlines]
    exact h.lines
  · rw [hlines]
    exact h.bytes
  · rw [hlines]
    exact h.offset

theorem Inv.fits (h : f.Inv parse T file done) : f.incarnation.Fits parse T file done where
  start := h.start
  translates := ⟨_, _, h.translates⟩
  lines := h.lines
  isPrefix := by
    have hbytes : joinRecords lineFeed (done ++ f.incarnation.lines) <+: file.take f.pos := by
      rw [h.bytes]
      exact List.prefix_append _ _
    exact hbytes.trans (List.take_prefix _ _)

/-- **Where all is read and searched, all lines are taken.** -/
theorem Inv.all_lines (h : f.Inv parse T file done) (hdone : ∀ l ∈ done, lineFeed ∉ l)
    (hall : file.length ≤ f.pos) (hsearched : f.phase.searched = true) :
    (records lineFeed file).1 = done ++ f.incarnation.lines := by
  have hclean := h.clean
  rw [h.searched hsearched, List.take_length] at hclean
  have hbytes := h.bytes
  rw [List.take_of_length_le hall] at hbytes
  exact records_eq_of_rest (List.forall_mem_append.mpr ⟨hdone, h.lines⟩) hclean hbytes

end Follower

end

/-! ## Every run -/

namespace TransportState

section

variable {τ : Type*} (parse : RawLine → Option Event) (T : Translator τ)

/-- **What holds at any time.** -/
structure Inv (s : TransportState τ) : Prop where
  /-- Earlier followers went through the log in order. -/
  covers : Covers parse T s.file [] s.past
  /-- The cursor is behind the lines that are kept. -/
  cursor : s.cursor
    = (joinRecords lineFeed (s.incarnations.flatMap Incarnation.keptLines)).length
  /-- These are lines of the log. -/
  isPrefix : joinRecords lineFeed (s.incarnations.flatMap Incarnation.keptLines) <+: s.file
  /-- The follower goes on behind the earlier ones. -/
  follower : ∀ f, s.follower = some f →
    f.Inv parse T s.file (s.past.flatMap Incarnation.keptLines)
  /-- What was yielded is what the followers yielded. -/
  yielded : s.yielded = s.incarnations.flatMap fun inc => inc.kept ++ inc.since

variable {parse T} {s s' : TransportState τ}

theorem incarnations_of_some {f : Follower τ} (h : s.follower = some f) :
    s.incarnations = s.past ++ [f.incarnation] := by
  unfold incarnations
  rw [h]
  rfl

theorem incarnations_of_none (h : s.follower = none) : s.incarnations = s.past := by
  unfold incarnations
  rw [h]
  exact List.append_nil _

/-- **The follower moves on** and yields what it yields, its cursor as it
was. -/
theorem Inv.setFollower (h : s.Inv parse T) {f g : Follower τ} (hf : s.follower = some f)
    (hg : g.Inv parse T s.file (s.past.flatMap Incarnation.keptLines))
    (hkept : g.incarnation.keptLines = f.incarnation.keptLines) {out : List Event}
    (hout : g.incarnation.kept ++ g.incarnation.since
      = f.incarnation.kept ++ f.incarnation.since ++ out) :
    ({ s with follower := some g, yielded := s.yielded ++ out } :
      TransportState τ).Inv parse T := by
  have hlines : (s.past ++ [g.incarnation]).flatMap Incarnation.keptLines
      = s.incarnations.flatMap Incarnation.keptLines := by
    rw [incarnations_of_some hf, List.flatMap_append, List.flatMap_append,
      List.flatMap_singleton, List.flatMap_singleton, hkept]
  refine ⟨h.covers, ?_, ?_, fun x hx => by cases hx; exact hg, ?_⟩
  · show s.cursor = (joinRecords lineFeed ((s.past ++ [g.incarnation]).flatMap _)).length
    rw [hlines]
    exact h.cursor
  · show joinRecords lineFeed ((s.past ++ [g.incarnation]).flatMap _) <+: _
    rw [hlines]
    exact h.isPrefix
  · show s.yielded ++ out = (s.past ++ [g.incarnation]).flatMap _
    rw [h.yielded, incarnations_of_some hf, List.flatMap_append, List.flatMap_append,
      List.flatMap_singleton, List.flatMap_singleton, hout, List.append_assoc]

theorem Inv.setFollower' (h : s.Inv parse T) {f g : Follower τ} (hf : s.follower = some f)
    (hg : g.Inv parse T s.file (s.past.flatMap Incarnation.keptLines))
    (hkept : g.incarnation.keptLines = f.incarnation.keptLines)
    (hout : g.incarnation.kept ++ g.incarnation.since
      = f.incarnation.kept ++ f.incarnation.since) :
    ({ s with follower := some g } : TransportState τ).Inv parse T := by
  have := @Inv.setFollower _ _ _ _ h _ _ hf hg hkept [] (by rw [hout, List.append_nil])
  rw [List.append_nil] at this
  exact this

theorem Inv.step (h : s.Inv parse T) {a : TransportAction}
    (hstep : s.step parse T a = some s') : s'.Inv parse T := by
  cases a with
  | append bytes =>
    simp only [TransportState.step] at hstep
    split at hstep
    · cases hstep
      exact ⟨h.covers.grow bytes, h.cursor, h.isPrefix.trans (List.prefix_append _ _),
        fun f hf => (h.follower f hf).grow bytes, h.yielded⟩
    · cases hstep
  | die =>
    cases hstep
    exact ⟨h.covers, h.cursor, h.isPrefix, h.follower, h.yielded⟩
  | start =>
    simp only [TransportState.step] at hstep
    split at hstep
    · next hnone =>
      cases hstep
      have hpast : ∀ {β : Type} (g : Incarnation → List β),
          g (Follower.mount T s.cursor).incarnation = [] →
          (s.past ++ [(Follower.mount T s.cursor).incarnation]).flatMap g
            = s.incarnations.flatMap g := by
        intro β g hg
        rw [incarnations_of_none hnone, List.flatMap_append, List.flatMap_singleton, hg,
          List.append_nil]
      refine ⟨h.covers, ?_, ?_, fun f hf => ?_, ?_⟩
      · exact h.cursor.trans (congrArg (fun ls => (joinRecords lineFeed ls).length)
          (hpast Incarnation.keptLines rfl).symm)
      · show joinRecords lineFeed ((s.past ++ [_]).flatMap _) <+: s.file
        rw [hpast Incarnation.keptLines rfl]
        exact h.isPrefix
      · cases hf
        have hcursor := h.cursor
        have hprefix := h.isPrefix
        rw [incarnations_of_none hnone] at hcursor hprefix
        show (Follower.mount T s.cursor).Inv parse T s.file _
        rw [hcursor]
        exact Follower.inv_mount hprefix
      · show s.yielded = (s.past ++ [_]).flatMap _
        rw [hpast _ rfl]
        exact h.yielded
    · cases hstep
  | stop =>
    cases hstep
    have hincs : ∀ incs, ({ s with past := incs, follower := none } :
        TransportState τ).incarnations = incs := fun incs => List.append_nil incs
    refine ⟨?_, ?_, ?_, fun _ hf => (by cases hf), ?_⟩
    · show Covers parse T s.file [] s.incarnations
      cases hf : s.follower with
      | none =>
        rw [incarnations_of_none hf]
        exact h.covers
      | some f =>
        rw [incarnations_of_some hf]
        exact h.covers.append (h.follower f hf).fits
    · rw [hincs]
      exact h.cursor
    · rw [hincs]
      exact h.isPrefix
    · rw [hincs]
      exact h.yielded
  | look =>
    simp only [TransportState.step] at hstep
    split at hstep
    · next f hf =>
      split at hstep
      · next hphase =>
        cases hstep
        refine h.setFollower' hf ((h.follower f hf).setPhase (by rw [hphase]; rfl) ?_
          (by rw [hphase]; rfl)) rfl rfl
        split <;> rfl
      · cases hstep
    · cases hstep
  | read n =>
    simp only [TransportState.step] at hstep
    split at hstep
    · next f hf =>
      split at hstep
      · next hphase =>
        split at hstep
        · next hn =>
          cases hstep
          exact h.setFollower' hf
            ((h.follower f hf).readChunk (by rw [hphase]; rfl) hn.2.2) rfl rfl
        · cases hstep
      · cases hstep
    · cases hstep
  | scan =>
    simp only [TransportState.step] at hstep
    split at hstep
    · next f hf =>
      split at hstep
      · next hphase =>
        cases hstep
        obtain ⟨hkept, hout⟩ := f.kept_scanLine parse T
        exact h.setFollower' hf ((h.follower f hf).scanLine (by rw [hphase]; rfl)
          (by rw [hphase]; rfl)) hkept hout
      · cases hstep
    · cases hstep
  | yieldEvent stamp =>
    simp only [TransportState.step] at hstep
    split at hstep
    · next f hf =>
      split at hstep
      · next translated rest hphase =>
        cases hstep
        exact h.setFollower hf ((h.follower f hf).yieldEvent hphase stamp) rfl
          (List.append_assoc ..).symm
      · cases hstep
    · cases hstep
  | checkpoint =>
    simp only [TransportState.step] at hstep
    split at hstep
    · next f hf =>
      split at hstep
      · next hphase =>
        cases hstep
        have hinv := h.follower f hf
        have hlines : (s.past ++ [f.checkpoint.incarnation]).flatMap Incarnation.keptLines
            = s.past.flatMap Incarnation.keptLines ++ f.incarnation.lines := by
          rw [List.flatMap_append, List.flatMap_singleton]
          rfl
        refine ⟨h.covers, ?_, ?_, fun g hg => by cases hg; exact hinv.checkpoint hphase, ?_⟩
        · show f.offset = (joinRecords lineFeed ((s.past ++ [_]).flatMap _)).length
          rw [hlines]
          exact hinv.offset
        · show joinRecords lineFeed ((s.past ++ [_]).flatMap _) <+: s.file
          rw [hlines]
          exact hinv.fits.isPrefix
        · show s.yielded = (s.past ++ [_]).flatMap _
          rw [h.yielded, incarnations_of_some hf, List.flatMap_append, List.flatMap_append,
            List.flatMap_singleton, List.flatMap_singleton]
          exact congrArg (_ ++ ·) (List.append_nil _).symm
      · cases hstep
    · cases hstep
  | emptyRead late =>
    simp only [TransportState.step] at hstep
    split at hstep
    · next f hf =>
      split at hstep
      · next hphase =>
        split at hstep
        · cases hstep
          refine h.setFollower' hf ((h.follower f hf).setPhase (by rw [hphase]; rfl) ?_
            (by rw [hphase]; rfl)) rfl rfl
          split <;> rfl
        · cases hstep
      · cases hstep
    · cases hstep
  | probe =>
    simp only [TransportState.step] at hstep
    split at hstep
    · next f hf =>
      split at hstep
      · next hphase =>
        cases hstep
        refine h.setFollower' hf ((h.follower f hf).setPhase (by rw [hphase]; rfl) ?_
          (by rw [hphase]; rfl)) rfl rfl
        split <;> rfl
      · next hphase =>
        cases hstep
        refine h.setFollower' hf ((h.follower f hf).setPhase (by rw [hphase]; rfl) ?_
          (by rw [hphase]; rfl)) rfl rfl
        split <;> rfl
      · cases hstep
    · cases hstep
  | respawn =>
    simp only [TransportState.step] at hstep
    split at hstep
    · next hnone =>
      split at hstep
      · cases hstep
      · cases hstep
        have hcursor : s.rotateStaleTransport.cursor = 0 := by
          unfold rotateStaleTransport
          split
          · next hempty =>
            have hle := h.isPrefix.length_le
            rw [List.isEmpty_iff.mp hempty, ← h.cursor] at hle
            exact Nat.le_zero.mp hle
          · rfl
        exact ⟨trivial, hcursor, List.nil_prefix, fun f hf => (by cases hf), rfl⟩
    · cases hstep

theorem inv_initial : ({} : TransportState τ).Inv parse T :=
  ⟨trivial, rfl, List.prefix_refl _, fun _ h => (by cases h), rfl⟩

/-- **Followers go through the log in order.** Along every run, what was
yielded is what the followers yielded one after the other; each starts
behind the lines up to the last cursor of the ones before, and yields the
translations of the lines from there on. -/
theorem inOrder_of_run {as : List TransportAction}
    (hrun : (system parse T).run {} as = some s) :
    s.yielded = s.incarnations.flatMap (fun inc => inc.kept ++ inc.since)
      ∧ InOrder parse T (records lineFeed s.file).1 [] s.incarnations := by
  have h : s.Inv parse T := (system parse T).run_invariant (I := Inv parse T)
    (fun _ _ _ h hstep => h.step hstep) inv_initial as hrun
  refine ⟨h.yielded, ?_⟩
  have hcovers : Covers parse T s.file [] s.incarnations := by
    cases hf : s.follower with
    | none =>
      rw [incarnations_of_none hf]
      exact h.covers
    | some f =>
      rw [incarnations_of_some hf]
      exact h.covers.append (h.follower f hf).fits
  exact hcovers.inOrder fun _ h => absurd h List.not_mem_nil

/-- **The condition on a step.** At the look that finds the process gone
nothing is in the log that was not there at the empty read before it. -/
def NothingUnread (s : TransportState τ) : TransportAction → Prop
  | .probe => s.alive = false → ∀ f, s.follower = some f → s.file.length ≤ f.pos
  | _ => True

/-- A follower that ended because the process is gone has read all there
is. -/
def Drained (s : TransportState τ) : Prop :=
  ∀ f, s.follower = some f → f.phase = .ended .producerGone →
    s.alive = false ∧ s.file.length ≤ f.pos

theorem Drained.step (h : s.Drained) {a : TransportAction} (ha : s.NothingUnread a)
    (hstep : s.step parse T a = some s') : s'.Drained := by
  cases a with
  | append bytes =>
    simp only [TransportState.step] at hstep
    split at hstep
    · next halive =>
      cases hstep
      intro f hf hphase
      rw [(h f hf hphase).1] at halive
      cases halive
    · cases hstep
  | die =>
    cases hstep
    exact fun f hf hphase => ⟨rfl, (h f hf hphase).2⟩
  | probe =>
    simp only [TransportState.step] at hstep
    split at hstep
    · next f hf =>
      have hgone : s.alive = false → s.file.length ≤ f.pos := fun hdead => ha hdead f hf
      split at hstep
      all_goals first
        | cases hstep
          intro g hg hphase
          cases hg
          cases halive : s.alive with
          | false => exact ⟨rfl, hgone halive⟩
          | true => rw [halive] at hphase; cases hphase
        | cases hstep
    · cases hstep
  | scan =>
    simp only [TransportState.step] at hstep
    split at hstep
    · next f hf =>
      split at hstep
      · next hphase =>
        cases hstep
        intro g hg hended
        cases hg
        exact absurd hended (f.phase_scanLine parse T hphase)
      · cases hstep
    · cases hstep
  | emptyRead late =>
    simp only [TransportState.step] at hstep
    split at hstep
    · next f hf =>
      split at hstep
      · split at hstep
        · cases hstep
          intro g hg hended
          cases hg
          dsimp only at hended
          split at hended <;> cases hended
        · cases hstep
      · cases hstep
    · cases hstep
  | look =>
    simp only [TransportState.step] at hstep
    split at hstep
    · next f hf =>
      split at hstep
      · cases hstep
        intro g hg hended
        cases hg
        dsimp only at hended
        split at hended <;> cases hended
      · cases hstep
    · cases hstep
  | _ =>
    simp only [TransportState.step] at hstep
    repeat' split at hstep
    all_goals cases hstep
    all_goals
      intro g hg hended
      cases hg
      try cases hended

/-- **A follower that ends because the process is gone has yielded every
complete line.** Along every run in which nothing is appended between an
empty read and a look that finds the process gone, the followers go through
the log in order; and when one ends because the process is gone, the lines
up to the cursors of the ones before it and the lines it took are all
complete lines of the log, and it yielded the translations of its own. -/
theorem complete_of_guarded {as : List TransportAction}
    (hguarded : (system parse T).Guarded NothingUnread {} as)
    (hrun : (system parse T).run {} as = some s) :
    s.yielded = s.incarnations.flatMap (fun inc => inc.kept ++ inc.since)
      ∧ InOrder parse T (records lineFeed s.file).1 [] s.incarnations
      ∧ ∀ f, s.follower = some f → f.phase = .ended .producerGone →
        s.past.flatMap Incarnation.keptLines ++ f.incarnation.lines
            = (records lineFeed s.file).1
          ∧ ∃ st out, T.translateLines parse T.fresh f.incarnation.lines = some (st, out)
            ∧ Stamps out (f.incarnation.kept ++ f.incarnation.since) := by
  have h : s.Inv parse T := (system parse T).run_invariant (I := Inv parse T)
    (fun _ _ _ h hstep => h.step hstep) inv_initial as hrun
  have hdrained : s.Drained := (system parse T).run_invariant_of_guarded (I := Drained)
    (fun _ _ _ h ha hstep => h.step ha hstep) (fun _ h => (by cases h)) hguarded hrun
  obtain ⟨hyielded, horder⟩ := inOrder_of_run hrun
  refine ⟨hyielded, horder, fun f hf hphase => ?_⟩
  have hinv := h.follower f hf
  obtain ⟨out, hsince, hstamps⟩ := hinv.translates.since
  rw [hphase] at hsince
  exact ⟨(hinv.all_lines h.covers.notMem (hdrained f hf hphase).2
    (by rw [hphase]; rfl)).symm, f.state, out ++ [], hsince, by
    rw [List.append_nil]; exact hstamps⟩

end

/-! ## A log of two lines -/

def byteParse (line : RawLine) : Option Event :=
  match line with
  | [b] => some [("n", .int b.toNat)]
  | _ => none

/-- The translator that yields every event as it is. -/
def identityTranslator : Translator Unit := ⟨⟨fun _ event => some ((), [event])⟩, ()⟩

/-- A follower takes the first line; half of the second is there. -/
def firstLine : List TransportAction :=
  [.append [97, 10, 98], .start, .look, .read 3, .scan, .yieldEvent "t", .checkpoint, .scan]

/-- It is stopped, the process ends the line and is gone, and another one
takes the line and ends. -/
def secondLine : List TransportAction :=
  [.stop, .append [10], .die, .start, .look, .read 2, .scan, .yieldEvent "t", .checkpoint,
    .scan, .emptyRead false]

/-- Both lines are yielded, one by each follower. -/
theorem complete_of_guarded_twoLines : ∃ s f,
    (system byteParse identityTranslator).run {} (firstLine ++ secondLine ++ [.probe]) = some s
      ∧ s.follower = some f ∧ f.phase = .ended .producerGone
      ∧ s.past.flatMap Incarnation.keptLines = [[97]]
      ∧ [[97]] ++ f.incarnation.lines = (records lineFeed s.file).1 := by
  have hguarded : (system byteParse identityTranslator).Guarded NothingUnread {}
      (firstLine ++ secondLine ++ [.probe]) := by
    refine TransitionSystem.guarded_append ?_ fun t ht => ⟨fun _ f hf => ?_, fun _ _ => trivial⟩
    · refine TransitionSystem.guarded_of_invariant _ (I := fun _ => True)
        (P := fun a => a ≠ .probe) (fun s a _ ha => ?_) (fun _ _ _ _ _ _ => trivial) trivial ?_
      · cases a with
        | probe => exact absurd rfl ha
        | _ => trivial
      · simp [firstLine, secondLine]
    · cases ht
      cases hf
      decide
  obtain ⟨s, hs⟩ : ∃ s, (system byteParse identityTranslator).run {}
      (firstLine ++ secondLine ++ [.probe]) = some s := ⟨_, rfl⟩
  obtain ⟨-, -, hcomplete⟩ := complete_of_guarded hguarded hs
  obtain ⟨f, hf, hphase, hkept⟩ : ∃ f, s.follower = some f
      ∧ f.phase = .ended .producerGone ∧ s.past.flatMap Incarnation.keptLines = [[97]] := by
    cases hs
    exact ⟨_, rfl, rfl, rfl⟩
  have hlines := (hcomplete f hf hphase).1
  rw [hkept] at hlines
  exact ⟨s, f, hs, hf, hphase, hkept, hlines⟩

/-- **A line is lost.** The process appends its last line and is gone
between the follower's empty read and its look at the process. -/
theorem line_lost : ∃ s f, (system byteParse identityTranslator).run {}
    [.append [97, 10], .start, .look, .read 2, .scan, .yieldEvent "t", .checkpoint, .scan,
      .emptyRead false, .append [98, 10], .die, .probe] = some s
      ∧ s.follower = some f ∧ f.phase = .ended .producerGone
      ∧ (records lineFeed s.file).1 = [[97], [98]]
      ∧ s.past.flatMap Incarnation.keptLines ++ f.incarnation.lines = [[97]]
      ∧ s.yielded.length = 1
      ∧ ¬ s.past.flatMap Incarnation.keptLines ++ f.incarnation.lines
        = (records lineFeed s.file).1 := by
  refine ⟨_, _, rfl, rfl, rfl, rfl, rfl, rfl, fun h => ?_⟩
  exact absurd (congrArg List.length h) (by decide)

end TransportState
