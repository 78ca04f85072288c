import CharlieBot.Lib.Json
import CharlieBot.Lib.Spans

/-!
# The segments of the turn engine

The engine keeps the messages of a session as segments: a separator closes a
span, a closed span is a turn or stays flat, and what is behind the last
separator is one flat segment that is pending. A page derives all of it at
once. Older pages are put in front, and only the open tail of a page is merged
with the segment it runs into; live messages go into the pending segment, and
a separator closes it in place. Nothing else is derived again.

**However the messages come in, the segments are those of one derivation over
the whole list** (`segments_of_ingest`): what is settled is a list of closed
spans, and spans are cut at any point of the list (`Spans.cut_append`,
`Spans.cut_flatten`). The whole list is what the pages and the live messages
bring, older pages without the stable messages that are known already
(`wholeList`).
-/

/-! ## Messages and spans -/

structure TurnMessage where
  id : Option String
  role : String
  content : String
  timestamp : Option String
  thinkingSeconds : Option Json

namespace TurnMessage

/-- Whether a message has an identity. -/
def hasId (msg : TurnMessage) : Bool := msg.id.isSome && msg.id != some ""

def isStable (msg : TurnMessage) : Bool := msg.hasId && msg.role != ""

/-- `String(msg.id)`. -/
def idText (msg : TurnMessage) : String := msg.id.getD "null"

def closes (msg : TurnMessage) : Bool := msg.isStable && msg.role == "separator"

end TurnMessage

def stimulusRoles : List String := ["user", "scheduled_trigger", "agent_message", "worker_summary"]

/-- A turn within a span. -/
structure MessageTurn where
  head : TurnMessage
  conclusion : Option TurnMessage
  separator : TurnMessage
  fold : List TurnMessage

/-- The last index of a list at which a message is as asked. -/
def lastIndexWhere (p : TurnMessage → Bool) (msgs : List TurnMessage) : Option ℕ :=
  (msgs.zipIdx.filter fun m => p m.1).getLast?.map Prod.snd

/-- The message that opened the turn: going back from the conclusion, the
first user message, or else the first stimulus there was. -/
def stimulusIndex (before : List TurnMessage) : Option ℕ :=
  (lastIndexWhere (fun m => m.role == "user") before).or
    (lastIndexWhere (fun m => stimulusRoles.contains m.role) before)

/-- `describeSpan`: any span with a separator and a body is a turn. -/
def describeSpan (span : List TurnMessage) : Option MessageTurn :=
  let stable := span.filter TurnMessage.isStable
  stable.getLast?.bind fun separator =>
    let body := stable.dropLast
    let conclusion := lastIndexWhere (fun m => m.role == "assistant") body
    let limit := conclusion.getD body.length
    let headIndex := (stimulusIndex (body.take limit)).getD 0
    body[headIndex]?.map fun head =>
      { head, separator
        conclusion := conclusion.bind fun i => body[i]?
        fold := match conclusion with
          | some i => (body.take i).drop (headIndex + 1)
          | none => [] }

def turnKeyOf (turn : MessageTurn) : String :=
  "|".intercalate [turn.head.idText, (turn.conclusion.map TurnMessage.idText).getD "",
    turn.separator.idText]

/-- What the folded row of a turn shows. -/
structure RowSpec where
  headRole : String
  headText : String
  headTs : Option String
  conclusionText : Option String
  thinkingSeconds : Option Json
  foldCount : ℕ

def rowSpecOf (turn : MessageTurn) : RowSpec where
  headRole := turn.head.role
  headText := turn.head.content
  headTs := turn.head.timestamp.filter (· != "")
  conclusionText := turn.conclusion.map TurnMessage.content
  thinkingSeconds := turn.separator.thinkingSeconds
  foldCount := turn.fold.length

/-- **A segment.** -/
inductive Segment where
  | flat (entries : List TurnMessage) (pending : Bool)
  | turn (key : String) (entries foldEntries : List TurnMessage) (separator : TurnMessage)
    (rowSpec : RowSpec)

def Segment.entries : Segment → List TurnMessage
  | flat entries _ => entries
  | turn _ entries _ _ _ => entries

def closeSpan (span : List TurnMessage) : Segment :=
  match describeSpan span with
  | none => .flat span false
  | some turn => .turn (turnKeyOf turn) span turn.fold turn.separator (rowSpecOf turn)

/-- One message of `deriveSegments`. -/
def deriveStep (acc : List Segment × List TurnMessage) (entry : TurnMessage) :
    List Segment × List TurnMessage :=
  let span := acc.2 ++ [entry]
  if entry.closes then (acc.1 ++ [closeSpan span], []) else (acc.1, span)

/-- `deriveSegments`: the segments of a run of messages, and its open tail. -/
def deriveSegments (entries : List TurnMessage) : List Segment × List TurnMessage :=
  entries.foldl deriveStep ([], [])

def pendingSegment (tail : List TurnMessage) : List Segment :=
  if tail.isEmpty then [] else [.flat tail true]

/-- **One derivation over a whole list.** -/
def segmentsOf (entries : List TurnMessage) : List Segment :=
  let derived := deriveSegments entries
  derived.1 ++ pendingSegment derived.2

/-! ## The engine -/

structure TurnEngine where
  sessionId : String
  segments : List Segment
  knownIds : List String
  liveMessageSequence : ℕ := 0

/-- The identities messages add to the known ones. -/
def stableIds (msgs : List TurnMessage) : List String :=
  (msgs.filter TurnMessage.isStable).map TurnMessage.idText

/-- The merge of a page's open tail with the segments behind it: it runs into
one after the other until it is closed. -/
def mergeRegion (region : List TurnMessage) : List Segment → List Segment
  | [] => pendingSegment region
  | seg :: segments =>
    if region.isEmpty then seg :: segments
    else
      let boundary := deriveSegments (region ++ seg.entries)
      boundary.1 ++ if boundary.2.isEmpty then segments else mergeRegion boundary.2 segments

/-- A live message without an identity is given one of the client's. -/
def identify (sessionId : String) (seq : ℕ) (msg : TurnMessage) : TurnMessage × ℕ :=
  if msg.hasId then (msg, seq)
  else ({ msg with id := some s!"client:{sessionId}:{seq + 1}" }, seq + 1)

namespace TurnEngine

variable (s : TurnEngine)

def mount (sessionId : String) (messages : List TurnMessage) : TurnEngine where
  sessionId := sessionId
  segments := segmentsOf messages
  knownIds := stableIds messages

def prependMessages (messages : List TurnMessage) : TurnEngine :=
  let fresh := messages.filter fun msg => !msg.isStable || !s.knownIds.contains msg.idText
  if fresh.isEmpty then s
  else
    let firstPage := deriveSegments fresh
    { s with
      segments := firstPage.1 ++ mergeRegion firstPage.2 s.segments
      knownIds := s.knownIds ++ stableIds fresh }

/-- The settled segments, and what is pending behind them. -/
def splitPending : List Segment × List TurnMessage :=
  match s.segments.getLast? with
  | some (.flat entries true) => (s.segments.dropLast, entries)
  | _ => (s.segments, [])

def appendMessage (msg : TurnMessage) : TurnEngine :=
  let (msg, seq) := identify s.sessionId s.liveMessageSequence msg
  let (settled, pending) := s.splitPending
  let entries := pending ++ [msg]
  { s with
    segments := settled ++ [if msg.closes then closeSpan entries else .flat entries true]
    knownIds := s.knownIds ++ stableIds [msg]
    liveMessageSequence := seq }

end TurnEngine

/-- What comes behind the mount. -/
inductive Ingest where
  | prepend (page : List TurnMessage)
  | append (msg : TurnMessage)

def TurnEngine.ingest (s : TurnEngine) : Ingest → TurnEngine
  | .prepend page => s.prependMessages page
  | .append msg => s.appendMessage msg

/-! ## The whole list -/

/-- A stable message that a list has already. -/
def repeats (list : List TurnMessage) (msg : TurnMessage) : Bool :=
  msg.isStable && list.any fun known => known.isStable && known.idText == msg.idText

/-- The list, and how many live messages had no identity, behind one more page
or message. -/
def bring (sessionId : String) (w : List TurnMessage × ℕ) : Ingest → List TurnMessage × ℕ
  | .prepend page => (page.filter (fun msg => !repeats w.1 msg) ++ w.1, w.2)
  | .append msg =>
    let (msg, seq) := identify sessionId w.2 msg
    (w.1 ++ [msg], seq)

/-- **The whole list**: the mounted messages, before them what older pages have
that is not known, behind them the live messages. -/
def wholeList (sessionId : String) (mounted : List TurnMessage) (ops : List Ingest) :
    List TurnMessage := (ops.foldl (bring sessionId) (mounted, 0)).1

/-- A page that is cut so that it ends in messages the list has already brings
the rest: where identities tell messages apart, the list it was cut from. -/
theorem bring_overlapping (sessionId : String) {list chunk overlap : List TurnMessage} (n : ℕ)
    (hchunk : ∀ msg ∈ chunk, repeats list msg = false)
    (hoverlap : ∀ msg ∈ overlap, msg ∈ list ∧ msg.isStable = true) :
    bring sessionId (list, n) (.prepend (chunk ++ overlap)) = (chunk ++ list, n) := by
  have hfirst : chunk.filter (fun msg => !repeats list msg) = chunk :=
    List.filter_eq_self.mpr fun msg hmsg => by rw [hchunk msg hmsg]; rfl
  have hsecond : overlap.filter (fun msg => !repeats list msg) = [] := by
    refine List.filter_eq_nil_iff.mpr fun msg hmsg => ?_
    obtain ⟨hmem, hstable⟩ := hoverlap msg hmsg
    have hrepeats : repeats list msg = true := by
      unfold repeats
      rw [hstable, Bool.true_and, List.any_eq_true]
      exact ⟨msg, hmem, by rw [hstable, beq_self_eq_true]; rfl⟩
    rw [hrepeats]
    decide
  show ((chunk ++ overlap).filter (fun msg => !repeats list msg) ++ list, n) = _
  rw [List.filter_append, hfirst, hsecond, List.append_nil]

/-! ## Derivation is cutting into spans -/

@[simp] theorem entries_closeSpan (span : List TurnMessage) : (closeSpan span).entries = span := by
  unfold closeSpan
  cases describeSpan span <;> rfl

/-- **The segments of a derivation are the closed spans.** -/
theorem deriveSegments_eq (entries : List TurnMessage) :
    deriveSegments entries
      = ((Spans.cut TurnMessage.closes entries).1.map closeSpan,
        (Spans.cut TurnMessage.closes entries).2) := by
  have key : ∀ (closed : List (List TurnMessage)) (span : List TurnMessage),
      entries.foldl deriveStep (closed.map closeSpan, span)
        = ((entries.foldl (Spans.step TurnMessage.closes) (closed, span)).1.map closeSpan,
          (entries.foldl (Spans.step TurnMessage.closes) (closed, span)).2) := by
    induction entries with
    | nil => exact fun _ _ => rfl
    | cons entry entries ih =>
      intro closed span
      rw [List.foldl_cons, List.foldl_cons]
      unfold deriveStep Spans.step
      dsimp only
      split
      · rw [show closed.map closeSpan ++ [closeSpan (span ++ [entry])]
          = (closed ++ [span ++ [entry]]).map closeSpan by rw [List.map_append]; rfl]
        exact ih _ _
      · exact ih _ _
  exact key [] []

/-- **Segments that are one derivation**: closed spans, and a pending one. -/
structure Segmented (segments : List Segment) (list : List TurnMessage) where
  closed : List (List TurnMessage)
  tail : List TurnMessage
  isClosed : ∀ span ∈ closed, Spans.IsClosed TurnMessage.closes span
  isOpen : Spans.IsOpen TurnMessage.closes tail
  list_eq : list = closed.flatten ++ tail
  segments_eq : segments = closed.map closeSpan ++ pendingSegment tail

/-- One derivation is closed spans and a pending one. -/
def segmented (list : List TurnMessage) : Segmented (segmentsOf list) list where
  closed := (Spans.cut TurnMessage.closes list).1
  tail := (Spans.cut TurnMessage.closes list).2
  isClosed := Spans.isClosed_cut list
  isOpen := Spans.isOpen_cut list
  list_eq := (Spans.flatten_cut list).symm
  segments_eq := by
    unfold segmentsOf
    rw [deriveSegments_eq]

theorem flatMap_entries_segmentsOf (list : List TurnMessage) :
    (segmentsOf list).flatMap Segment.entries = list := by
  have h := segmented list
  rw [h.segments_eq, List.flatMap_append]
  conv_rhs => rw [h.list_eq]
  have hclosed : (h.closed.map closeSpan).flatMap Segment.entries = h.closed.flatten := by
    rw [List.flatMap_map, List.flatten_eq_flatMap]
    exact List.flatMap_congr fun span _ => entries_closeSpan span
  have htail : (pendingSegment h.tail).flatMap Segment.entries = h.tail := by
    unfold pendingSegment
    split
    · next hnil => exact (List.isEmpty_iff.mp hnil).symm
    · exact List.append_nil _
  rw [hclosed, htail]

/-! ## Older pages -/

/-- **The open tail of a page, merged with the segments behind it**, gives the
derivation of both. -/
theorem mergeRegion_eq {region : List TurnMessage} (hregion : Spans.IsOpen TurnMessage.closes region)
    (list : List TurnMessage) :
    mergeRegion region (segmentsOf list) = segmentsOf (region ++ list) := by
  obtain ⟨closed, tail, hclosed, htail, hlist, hsegments⟩ := segmented list
  rw [hsegments]
  cases closed with
  | nil =>
    -- there is only the pending segment, or nothing
    have hopen := Spans.cut_of_isOpen (hregion.append htail)
    have hwhole : segmentsOf (region ++ list) = pendingSegment (region ++ tail) := by
      unfold segmentsOf
      rw [deriveSegments_eq, hlist, List.flatten_nil, List.nil_append, hopen]
      rfl
    rw [hwhole, List.map_nil, List.nil_append]
    unfold pendingSegment
    by_cases hnil : tail = []
    · rw [hnil, List.append_nil]
      rfl
    · rw [if_neg (by rwa [List.isEmpty_iff])]
      unfold mergeRegion
      have hne : ¬ (region ++ tail).isEmpty = true := by
        rw [List.isEmpty_iff, List.append_eq_nil_iff]
        exact fun h => hnil h.2
      have hderive : deriveSegments (region ++ tail) = ([], region ++ tail) := by
        rw [deriveSegments_eq, hopen]
        rfl
      by_cases hr : region = []
      · rw [hr, if_pos (by rfl), List.nil_append, if_neg (by rwa [List.isEmpty_iff])]
      · rw [if_neg (by rwa [List.isEmpty_iff])]
        show (deriveSegments (region ++ tail)).1 ++ (if (deriveSegments (region ++ tail)).2.isEmpty
          then [] else mergeRegion (deriveSegments (region ++ tail)).2 []) = _
        rw [hderive, if_neg hne, if_neg hne]
        unfold mergeRegion pendingSegment
        rw [if_neg hne]
        rfl
  | cons span closed =>
    have hspan := hclosed span List.mem_cons_self
    have hrest : ∀ s ∈ closed, Spans.IsClosed TurnMessage.closes s :=
      fun s hs => hclosed s (List.mem_cons_of_mem _ hs)
    have hfirst : Spans.IsClosed TurnMessage.closes (region ++ span) := hspan.append hregion
    have hwhole : segmentsOf (region ++ list)
        = closeSpan (region ++ span) :: (closed.map closeSpan ++ pendingSegment tail) := by
      unfold segmentsOf
      rw [deriveSegments_eq, hlist, List.flatten_cons, List.append_assoc, ← List.append_assoc region,
        Spans.cut_closed_append hfirst, Spans.cut_flatten hrest htail]
      rfl
    rw [hwhole, List.map_cons, List.cons_append]
    unfold mergeRegion
    split
    · next hnil =>
      rw [List.isEmpty_iff.mp hnil, List.nil_append]
    · rw [entries_closeSpan, deriveSegments_eq, Spans.cut_of_isClosed hfirst]
      rfl

/-- **A page in front** has the segments of the whole. -/
theorem segmentsOf_append (fresh list : List TurnMessage) :
    (deriveSegments fresh).1 ++ mergeRegion (deriveSegments fresh).2 (segmentsOf list)
      = segmentsOf (fresh ++ list) := by
  have hopen : Spans.IsOpen TurnMessage.closes (deriveSegments fresh).2 := by
    rw [deriveSegments_eq]
    exact Spans.isOpen_cut fresh
  rw [mergeRegion_eq hopen]
  unfold segmentsOf
  rw [deriveSegments_eq fresh, deriveSegments_eq (fresh ++ list), Spans.cut_append, deriveSegments_eq]
  simp only [List.map_append, List.append_assoc]

/-! ## Live messages -/

theorem splitPending_eq {s : TurnEngine} {list : List TurnMessage}
    (hs : s.segments = segmentsOf list) : s.splitPending = deriveSegments list := by
  unfold TurnEngine.splitPending
  rw [hs]
  unfold segmentsOf
  rw [deriveSegments_eq]
  dsimp only
  unfold pendingSegment
  by_cases hnil : (Spans.cut TurnMessage.closes list).2 = []
  · -- the last segment is settled, if there is one
    rw [if_pos (by rwa [List.isEmpty_iff]), List.append_nil, hnil]
    cases hlast : ((Spans.cut TurnMessage.closes list).1.map closeSpan).getLast? with
    | none => rfl
    | some seg =>
      obtain ⟨span, -, rfl⟩ := List.mem_map.mp (List.mem_of_getLast? hlast)
      unfold closeSpan
      cases describeSpan span <;> rfl
  · rw [if_neg (by rwa [List.isEmpty_iff]), List.getLast?_concat, List.dropLast_concat]

/-- **A live message behind** has the segments of the whole. -/
theorem segmentsOf_concat (list : List TurnMessage) (msg : TurnMessage) :
    (deriveSegments list).1
        ++ [if msg.closes then closeSpan ((deriveSegments list).2 ++ [msg])
          else .flat ((deriveSegments list).2 ++ [msg]) true]
      = segmentsOf (list ++ [msg]) := by
  have hstep : deriveSegments (list ++ [msg]) = deriveStep (deriveSegments list) msg := by
    unfold deriveSegments
    rw [List.foldl_append]
    rfl
  unfold segmentsOf
  rw [hstep]
  unfold deriveStep
  dsimp only
  split
  · exact (List.append_nil _).symm
  · have hne : ¬ ((deriveSegments list).2 ++ [msg]).isEmpty = true := by
      rw [List.isEmpty_iff]
      exact List.append_ne_nil_of_right_ne_nil _ (List.cons_ne_nil _ _)
    unfold pendingSegment
    rw [if_neg hne]

/-! ## Every way in -/

/-- **The engine holds a list**: its segments are one derivation over it, and
it knows the identities of its stable messages. -/
structure TurnEngine.Holds (s : TurnEngine) (w : List TurnMessage × ℕ) : Prop where
  segments : s.segments = segmentsOf w.1
  known : s.knownIds.Perm (stableIds w.1)
  sequence : s.liveMessageSequence = w.2

theorem stableIds_append (xs ys : List TurnMessage) :
    stableIds (xs ++ ys) = stableIds xs ++ stableIds ys := by
  unfold stableIds
  rw [List.filter_append, List.map_append]

theorem contains_stableIds (list : List TurnMessage) (msg : TurnMessage) :
    (stableIds list).contains msg.idText
      = list.any fun known => known.isStable && known.idText == msg.idText := by
  unfold stableIds
  induction list with
  | nil => rfl
  | cons m list ih =>
    rw [List.filter_cons, List.any_cons]
    cases hm : m.isStable with
    | false => exact ih
    | true =>
      rw [if_pos rfl, List.map_cons, List.contains_cons, ih, Bool.true_and]
      exact congrArg (· || _) (Bool.beq_comm)

namespace TurnEngine.Holds

variable {s : TurnEngine} {w : List TurnMessage × ℕ}

theorem mount (sessionId : String) (messages : List TurnMessage) :
    (mount sessionId messages).Holds (messages, 0) :=
  ⟨rfl, List.Perm.refl _, rfl⟩

theorem fresh_eq (h : s.Holds w) (page : List TurnMessage) :
    (page.filter fun msg => !msg.isStable || !s.knownIds.contains msg.idText)
      = page.filter fun msg => !repeats w.1 msg := by
  refine List.filter_congr fun msg _ => ?_
  have hcontains : s.knownIds.contains msg.idText = (stableIds w.1).contains msg.idText := by
    rw [Bool.eq_iff_iff, List.contains_iff_mem, List.contains_iff_mem]
    exact h.known.mem_iff
  rw [hcontains, contains_stableIds]
  unfold repeats
  rw [Bool.not_and]

theorem prependMessages (h : s.Holds w) (page : List TurnMessage) :
    (s.prependMessages page).Holds (bring s.sessionId w (.prepend page)) := by
  unfold TurnEngine.prependMessages bring
  rw [h.fresh_eq page]
  set fresh := page.filter fun msg => !repeats w.1 msg
  dsimp only
  split
  · next hnil =>
    show s.Holds (fresh ++ w.1, w.2)
    rw [List.isEmpty_iff.mp hnil, List.nil_append]
    exact h
  · refine ⟨?_, ?_, h.sequence⟩
    · show (deriveSegments fresh).1 ++ mergeRegion (deriveSegments fresh).2 s.segments = _
      rw [h.segments]
      exact segmentsOf_append fresh w.1
    · show (s.knownIds ++ stableIds fresh).Perm (stableIds (fresh ++ w.1))
      rw [stableIds_append]
      exact (h.known.append_right _).trans List.perm_append_comm

theorem appendMessage (h : s.Holds w) (msg : TurnMessage) :
    (s.appendMessage msg).Holds (bring s.sessionId w (.append msg)) := by
  unfold TurnEngine.appendMessage bring
  rw [h.sequence, splitPending_eq h.segments]
  refine ⟨?_, ?_, rfl⟩
  · exact segmentsOf_concat w.1 (identify s.sessionId w.2 msg).1
  · show (s.knownIds ++ stableIds [_]).Perm (stableIds (w.1 ++ [_]))
    rw [stableIds_append]
    exact h.known.append_right _

/-- **The engine takes in a page or a message as the list does.** -/
theorem ingest (h : s.Holds w) (op : Ingest) : (s.ingest op).Holds (bring s.sessionId w op) := by
  cases op with
  | prepend page => exact h.prependMessages page
  | append msg => exact h.appendMessage msg

theorem sessionId_ingest (s : TurnEngine) (op : Ingest) : (s.ingest op).sessionId = s.sessionId := by
  cases op with
  | prepend page =>
    show (s.prependMessages page).sessionId = _
    unfold TurnEngine.prependMessages
    dsimp only
    split <;> rfl
  | append msg => rfl

theorem ingestAll (h : s.Holds w) (ops : List Ingest) :
    (ops.foldl TurnEngine.ingest s).Holds (ops.foldl (bring s.sessionId) w) := by
  induction ops generalizing s w with
  | nil => exact h
  | cons op ops ih =>
    rw [List.foldl_cons, List.foldl_cons, ← sessionId_ingest s op]
    refine ih ?_
    rw [sessionId_ingest s op]
    exact h.ingest op

end TurnEngine.Holds

/-- **However the messages come in, the segments are those of one derivation
over the whole list.** Let a session be mounted with some messages, and take
in older pages and live messages in any order. Then the segments are the ones
a mount of the whole list derives, with their kinds, keys, entries, folds and
the pending tail; they make up the list in order; and every message of it lies
in exactly one of them. -/
theorem segments_of_ingest (sessionId : String) (mounted : List TurnMessage) (ops : List Ingest) :
    let engine := ops.foldl TurnEngine.ingest (TurnEngine.mount sessionId mounted)
    let list := wholeList sessionId mounted ops
    engine.segments = segmentsOf list
      ∧ engine.segments.flatMap Segment.entries = list
      ∧ ∀ i < list.length, ∃! j,
        lengthBefore (engine.segments.map Segment.entries) j ≤ i
          ∧ i < lengthBefore (engine.segments.map Segment.entries) (j + 1) := by
  intro engine list
  have hsegments : engine.segments = segmentsOf list :=
    ((TurnEngine.Holds.mount sessionId mounted).ingestAll ops).segments
  have hflat : engine.segments.flatMap Segment.entries = list := by
    rw [hsegments]
    exact flatMap_entries_segmentsOf list
  refine ⟨hsegments, hflat, fun i hi => existsUnique_block ?_⟩
  rw [← List.flatMap_def, hflat]
  exact hi
