import CharlieBot.SessionTasks
import Mathlib.Data.List.Dedup
import Mathlib.Data.List.Sort
import Mathlib.Data.String.Basic
import Mathlib.Order.WithBot

/-!
# The read watermark of a Slack thread

A session that was summoned from a Slack thread keeps, among its metadata, how
far the thread is read. A mention moves the watermark to itself. An
acknowledgement names messages: it reads the metadata, asks Slack for the
thread, refuses the set if it names what is not there or passes over what is
not read, and otherwise moves the watermark to the last message it names and
saves the object it read before it asked.

The module puts both on top of the session's metadata, whose tasks read and
save in steps of their own, with any other readers and writers. The object an
acknowledgement saves is as old as the answer of Slack is slow: a mention that
was consumed meanwhile is undone, and with it the watermark goes back
(`set_back`). **As long as every save replaces the file its object was read
from, the watermark never goes back, a refused acknowledgement writes nothing,
an accepted one writes the watermark and nothing else, and what lies below the
watermark was acknowledged or consumed by a mention** (`kept_of_run`).
-/

/-! ## The thread, and what an acknowledgement is refused for -/

/-- A message of a Slack thread, with what its eligibility reads. -/
structure SlackMessage where
  ts : String
  user : Option String := none
  subtype : Option String := none
  botId : Option String := none
  deriving DecidableEq

structure SlackReplyError where
  status : ℕ
  detail : String
  deriving DecidableEq

namespace SlackWatermark

def eligibleThreadMessage (allowedUserIds : List String) (message : SlackMessage) : Bool :=
  message.subtype.isNone && message.botId.isNone
    && message.user.any fun user => decide (user ∈ allowedUserIds)

/-- `meta.slack_watermark_ts`; no watermark is below every message. -/
def watermarkTs (m : SessionMetadata) : WithBot String :=
  match m .slackWatermarkTs with
  | .str ts => ts
  | _ => ⊥

/-- `sorted(set(texts))`. -/
def sortedSet (texts : List String) : List String := texts.dedup.insertionSort (· ≤ ·)

theorem mem_sortedSet {texts : List String} {text : String} :
    text ∈ sortedSet texts ↔ text ∈ texts := by
  rw [sortedSet, List.mem_insertionSort, List.mem_dedup]

/-- What an acknowledgement checks before it asks Slack. -/
def requireSlackThread (m : SessionMetadata) (ids : List String) : Option SlackReplyError :=
  if (m .slackOrigin).isNone then some ⟨409, "Session has no Slack thread"⟩
  else if ids = [] then some ⟨422, "message_ids is empty"⟩
  else none

/-- The timestamps an acknowledgement may name. -/
def eligibleTs (allowedUserIds : List String) (messages : List SlackMessage) : List String :=
  (messages.filter (eligibleThreadMessage allowedUserIds)).map SlackMessage.ts

/-- What an acknowledgement that reaches to `ceiling` passes over. -/
def skipped (eligible : List String) (watermark : WithBot String) (ids : List String)
    (ceiling : String) : List String :=
  (sortedSet eligible).filter fun ts =>
    decide (watermark < (ts : WithBot String) ∧ ts ≤ ceiling ∧ ts ∉ ids)

/-- What an acknowledgement does with the answer of Slack: the last message it
names, or why it is refused. -/
def checkIds (allowedUserIds : List String) (messages : List SlackMessage)
    (watermark : WithBot String) (ids : List String) : Except SlackReplyError String :=
  let eligible := eligibleTs allowedUserIds messages
  match ids.filter fun ts => decide (ts ∉ eligible) with
  | unknown :: _ => .error ⟨422, "Unknown or ineligible message id: " ++ unknown⟩
  | [] =>
    let ceiling := ids.getLast?.getD ""
    match skipped eligible watermark ids ceiling with
    | ts :: _ =>
      .error ⟨422, "Skipped eligible message id at or below " ++ ceiling ++ ": " ++ ts⟩
    | [] => .ok ceiling

variable {allowedUserIds : List String}

/-- **An accepted set leaves nothing behind**: it names the ceiling, which is in
the thread, and every eligible message up to it that was above the
watermark. -/
theorem checkIds_ok {messages : List SlackMessage} {watermark : WithBot String}
    {ids : List String} {ceiling : String} (hids : ids ≠ [])
    (h : checkIds allowedUserIds messages watermark ids = .ok ceiling) :
    (∃ m ∈ messages, m.ts = ceiling) ∧
    ∀ m ∈ messages, eligibleThreadMessage allowedUserIds m = true → m.ts ≤ ceiling →
      (m.ts : WithBot String) ≤ watermark ∨ m.ts ∈ ids := by
  unfold checkIds at h
  dsimp only at h
  split at h
  · cases h
  · next hunknown =>
    have hknown : ∀ ts ∈ ids, ts ∈ eligibleTs allowedUserIds messages := fun ts hts =>
      not_not.mp fun hnot => by
        have := List.filter_eq_nil_iff.mp hunknown ts hts
        exact this (decide_eq_true hnot)
    split at h
    · cases h
    · next hskipped =>
      cases h
      refine ⟨?_, fun m hm heligible hle => ?_⟩
      · have hlast : ids.getLast?.getD "" ∈ ids := by
          rw [List.getLast?_eq_some_getLast hids]
          exact List.getLast_mem hids
        obtain ⟨m, hm, hts⟩ := List.mem_map.mp (hknown _ hlast)
        exact ⟨m, List.mem_of_mem_filter hm, hts⟩
      · by_contra hnot
        rw [not_or, not_le] at hnot
        have hmem : m.ts ∈ sortedSet (eligibleTs allowedUserIds messages) :=
          mem_sortedSet.mpr (List.mem_map_of_mem (List.mem_filter.mpr ⟨hm, heligible⟩))
        exact List.filter_eq_nil_iff.mp hskipped _ hmem
          (decide_eq_true ⟨hnot.1, hle, hnot.2⟩)

/-! ## The saves of a mention and of an acknowledgement -/

/-- Sets the watermark and the time of the change. -/
def advanceTo (ts : String) (utcNow : Json) : Update :=
  .assign [.slackWatermarkTs, .updatedAt] fun _ => Update.either .slackWatermarkTs (.str ts) utcNow

/-- What a mention sets: the watermark, where it is below the mention. -/
def markConsumed (mentionTs : String) (utcNow : Json) : Update :=
  (advanceTo mentionTs utcNow).skipIf fun m =>
    !decide (watermarkTs m < (mentionTs : WithBot String))

/-- `_consume_mention`, up to its cancelling of triggers. -/
def consumeMention (mentionTs : String) (utcNow : Json) : Mutator :=
  { locked := false, saves := [markConsumed mentionTs utcNow] }

theorem watermarkTs_congr {m m' : SessionMetadata}
    (h : m' .slackWatermarkTs = m .slackWatermarkTs) : watermarkTs m' = watermarkTs m := by
  unfold watermarkTs
  rw [h]

theorem watermarkTs_apply {u : Update} {m m' : SessionMetadata} (h : u.apply m = some m')
    (howns : u.owns .slackWatermarkTs = false) : watermarkTs m' = watermarkTs m :=
  watermarkTs_congr (u.frame m m' _ h howns)

theorem watermarkTs_advanceTo {ts : String} {utcNow : Json} {m m' : SessionMetadata}
    (h : (advanceTo ts utcNow).apply m = some m') : watermarkTs m' = (ts : WithBot String) := by
  cases h
  rfl

theorem advanceTo_frame {ts : String} {utcNow : Json} {m m' : SessionMetadata} {f : MetaField}
    (h : (advanceTo ts utcNow).apply m = some m') (hwatermark : f ≠ .slackWatermarkTs)
    (hupdated : f ≠ .updatedAt) : m' f = m f := by
  refine (advanceTo ts utcNow).frame m m' f h (decide_eq_false ?_)
  simp [hwatermark, hupdated]

theorem markConsumed_apply {ts : String} {utcNow : Json} {m m' : SessionMetadata}
    (h : (markConsumed ts utcNow).apply m = some m') :
    watermarkTs m < (ts : WithBot String) ∧ watermarkTs m' = (ts : WithBot String) := by
  unfold markConsumed Update.skipIf at h
  dsimp only at h
  split at h
  · cases h
  · next hlt =>
    rw [Bool.not_eq_true, Bool.not_eq_false'] at hlt
    exact ⟨of_decide_eq_true hlt, watermarkTs_advanceTo h⟩

/-! ## The session and its thread -/

/-- What a task is for, and how far an acknowledgement is. -/
inductive Role where
  /-- Anything that is not about the watermark. -/
  | other
  | mention (mentionTs : String)
  /-- An acknowledgement reads the metadata. -/
  | reading (ids : List String)
  /-- It waits for the answer of Slack. -/
  | awaiting (ids : List String)
  | answered (ids : List String) (messages : List SlackMessage)
  /-- It is accepted, and saves what it has to. -/
  | settling (ids : List String) (watermark : WithBot String)
  | acked (ids : List String) (watermark : WithBot String)
  | refused (error : SlackReplyError)
  /-- Slack could not be asked. -/
  | raised

namespace Role

/-- Whether the task acknowledges. -/
def isAck : Role → Bool
  | .other => false
  | .mention _ => false
  | _ => true

/-- Whether an acknowledgement was accepted. -/
def isAccepted : Role → Bool
  | .settling _ _ => true
  | .acked _ _ => true
  | _ => false

/-- Whether an acknowledgement is under way. -/
def isRunning : Role → Bool
  | .reading _ => true
  | .awaiting _ => true
  | .answered _ _ => true
  | .settling _ _ => true
  | _ => false

end Role

/-- A write of the metadata file. -/
structure MetadataSave where
  /-- The task that writes, and what it is for at that time. -/
  task : ℕ
  role : Role
  before : SessionMetadata
  after : SessionMetadata

structure SlackAckEvent where
  content : String
  messageIds : List String
  watermarkTs : WithBot String

def slackAckEvent (ids : List String) (watermark : WithBot String) : SlackAckEvent where
  content := "Slack thread ack: " ++ toString ids.length ++ " message(s) read through "
    ++ ids.getLast?.getD ""
  messageIds := ids
  watermarkTs := watermark

end SlackWatermark

open SlackWatermark

/-- **A session that follows a thread.** -/
structure WatermarkState where
  /-- The metadata, and the tasks that read and save it. -/
  session : SessionState
  /-- The thread, oldest first. -/
  thread : List SlackMessage := []
  roles : ℕ → Role := fun _ => .other
  /-- The writes of the metadata file, last first. -/
  saves : List MetadataSave := []
  /-- The recorded acknowledgements, with their tasks. -/
  acks : List (ℕ × SlackAckEvent) := []

/-- What happens next. -/
inductive WatermarkAction where
  /-- Somebody posts; Slack numbers the messages of a thread in order. -/
  | post (message : SlackMessage)
  /-- A reader or a writer of other fields starts. -/
  | call (t : ℕ) (m : Mutator)
  | consumeMention (t : ℕ) (mentionTs : String) (utcNow : Json)
  | ackMessages (t : ℕ) (messageIds : List String)
  /-- A task reads, serializes or saves. -/
  | session (a : SessionAction)
  /-- The metadata is there; Slack is asked if it is a thread's. -/
  | requireSlackThread (t : ℕ)
  /-- Slack reads the thread for an acknowledgement. -/
  | getThreadReplies (t : ℕ)
  /-- Slack fails an acknowledgement. -/
  | slackError (t : ℕ)
  /-- The answer is there, and the set is checked. -/
  | check (t : ℕ) (utcNow : Json)
  /-- The acknowledgement is recorded. -/
  | persist (t : ℕ)

namespace WatermarkState

/-- The session before anything happened: it was created, and has no watermark. -/
def initial (m : SessionMetadata) (thread : List SlackMessage) : WatermarkState :=
  { session := SessionState.initial (Function.update m .slackWatermarkTs .null), thread := thread }

def watermark (s : WatermarkState) : WithBot String := watermarkTs s.session.disk.content

/-- A task turns to something else. -/
def turn (s : WatermarkState) (t : ℕ) (role : Role) (p : TaskPhase) : WatermarkState :=
  { s with session := s.session.setTask t p, roles := Function.update s.roles t role }

/-- A task starts on a session's metadata. -/
def begin (s : WatermarkState) (t : ℕ) (role : Role) (m : Mutator) : Option WatermarkState :=
  match s.session.tasks t with
  | .idle => if (s.roles t).isAck then none else some (s.turn t role (.waiting m))
  | _ => none

/-- Whether a task's next step is its own to take: an acknowledgement that has
nothing to save goes on by itself. -/
def owed (s : WatermarkState) : SessionAction → Bool
  | .call _ _ => true
  | .modify t =>
    (s.roles t).isRunning && match s.session.tasks t with
      | .held _ _ [] => true
      | _ => false
  | _ => false

/-- The writes, with the write of a step. -/
def saved (s : WatermarkState) (a : SessionAction) (after : SessionState) : List MetadataSave :=
  match a with
  | .publish t => ⟨t, s.roles t, s.session.disk.content, after.disk.content⟩ :: s.saves
  | _ => s.saves

/-- **One step.** -/
def step (allowedUserIds : List String) (s : WatermarkState) :
    WatermarkAction → Option WatermarkState
  | .post message =>
    if ∀ m ∈ s.thread, m.ts < message.ts then some { s with thread := s.thread ++ [message] }
    else none
  | .call t m =>
    if ∀ u ∈ m.saves, u.owns .slackWatermarkTs = false then s.begin t .other m else none
  | .consumeMention t mentionTs utcNow =>
    s.begin t (.mention mentionTs) (SlackWatermark.consumeMention mentionTs utcNow)
  | .ackMessages t messageIds => s.begin t (.reading (sortedSet messageIds)) .getSession
  | .session a =>
    if s.owed a then none
    else (s.session.step a).map fun after =>
      { s with session := after, saves := s.saved a after }
  | .requireSlackThread t =>
    match s.roles t, s.session.tasks t with
    | .reading ids, .held m snap [] =>
      match SlackWatermark.requireSlackThread snap.content ids with
      | some error => some (s.turn t (.refused error) .idle)
      | none => some (s.turn t (.awaiting ids) (.held m snap []))
    | _, _ => none
  | .getThreadReplies t =>
    match s.roles t, s.session.tasks t with
    | .awaiting ids, .held m snap [] =>
      some (s.turn t (.answered ids s.thread) (.held m snap []))
    | _, _ => none
  | .slackError t =>
    match s.roles t, s.session.tasks t with
    | .awaiting _, .held _ _ [] => some (s.turn t .raised .idle)
    | _, _ => none
  | .check t utcNow =>
    match s.roles t, s.session.tasks t with
    | .answered ids messages, .held m snap [] =>
      let watermark := watermarkTs snap.content
      match checkIds allowedUserIds messages watermark ids with
      | .error error => some (s.turn t (.refused error) .idle)
      | .ok ceiling =>
        if watermark < (ceiling : WithBot String) then
          some (s.turn t (.settling ids ceiling) (.held m snap [advanceTo ceiling utcNow]))
        else some (s.turn t (.settling ids watermark) (.held m snap []))
    | _, _ => none
  | .persist t =>
    match s.roles t, s.session.tasks t with
    | .settling ids watermark, .held _ _ [] =>
      some { s.turn t (.acked ids watermark) .idle with
        acks := (t, slackAckEvent ids watermark) :: s.acks }
    | _, _ => none

/-- A session that follows a thread, as a transition system. -/
def system (allowedUserIds : List String) : TransitionSystem WatermarkState WatermarkAction :=
  ⟨step allowedUserIds⟩

/-! ## What holds of it -/

/-- An acknowledgement that named the message was saved. -/
def Acked (s : WatermarkState) (ts : String) : Prop :=
  ∃ r ∈ s.saves, ∃ ids w, r.role = .settling ids w ∧ watermarkTs r.after = w ∧ ts ∈ ids

/-- A mention that is not below the message moved the watermark to itself. -/
def Consumed (s : WatermarkState) (ts : String) : Prop :=
  ∃ r ∈ s.saves, ∃ mentionTs : String, r.role = .mention mentionTs
    ∧ watermarkTs r.after = (mentionTs : WithBot String) ∧ ts ≤ mentionTs

/-- **What the watermark is worth.** -/
structure Kept (allowedUserIds : List String) (s : WatermarkState) : Prop where
  /-- A refused acknowledgement changes no metadata, and is not recorded. -/
  refused : ∀ t error, s.roles t = .refused error →
    (∀ r ∈ s.saves, r.task = t → r.role.isAck = true → r.after = r.before) ∧
    ∀ a ∈ s.acks, a.1 ≠ t
  /-- An acknowledgement changes no field but the watermark and the time. -/
  framed : ∀ r ∈ s.saves, r.role.isAck = true →
    ∀ f, f ≠ .slackWatermarkTs → f ≠ .updatedAt → r.after f = r.before f
  /-- What is not above the watermark was acknowledged, or a mention consumed it. -/
  accounted : ∀ m ∈ s.thread, eligibleThreadMessage allowedUserIds m = true →
    (m.ts : WithBot String) ≤ s.watermark → s.Acked m.ts ∨ s.Consumed m.ts

/-- **The condition on a step.** A save replaces the version of the file that its object is
of. -/
def Meets (s : WatermarkState) : WatermarkAction → Prop
  | .session (.publish t) =>
    match s.session.tasks t with
    | .saving _ snap _ _ _ => snap.version = s.session.disk.version
    | _ => True
  | _ => True

end WatermarkState

/-! ## What a task may have in hand -/

namespace SlackWatermark

variable {allowedUserIds : List String} {thread : List SlackMessage}

/-- **What an accepted acknowledgement may set**: the watermark, to a message of
the thread that is above it, with nothing between them that is not named. -/
structure Justified (allowedUserIds : List String) (thread : List SlackMessage)
    (ids : List String) (ceiling : String) (m : SessionMetadata) : Prop where
  below : watermarkTs m < (ceiling : WithBot String)
  reached : ∃ msg ∈ thread, msg.ts = ceiling
  covered : ∀ msg ∈ thread, eligibleThreadMessage allowedUserIds msg = true →
    msg.ts ≤ ceiling → (msg.ts : WithBot String) ≤ watermarkTs m ∨ msg.ts ∈ ids

theorem Justified.post {ids : List String} {ceiling : String} {m : SessionMetadata}
    (h : Justified allowedUserIds thread ids ceiling m) {message : SlackMessage}
    (hlater : ∀ msg ∈ thread, msg.ts < message.ts) :
    Justified allowedUserIds (thread ++ [message]) ids ceiling m := by
  obtain ⟨last, hlast, hceiling⟩ := h.reached
  refine ⟨h.below, ⟨last, List.mem_append_left _ hlast, hceiling⟩, fun msg hmsg heligible hle => ?_⟩
  rcases List.mem_append.mp hmsg with hold | hnew
  · exact h.covered msg hold heligible hle
  · rw [List.mem_singleton] at hnew
    subst hnew
    have habove : ceiling < msg.ts := hceiling ▸ hlater last hlast
    exact absurd hle (not_le.mpr habove)

/-- What Slack had of the thread when it was asked. -/
def ReadFrom (thread messages : List SlackMessage) : Prop :=
  ∃ later, thread = messages ++ later ∧ ∀ m ∈ messages, ∀ m' ∈ later, m.ts < m'.ts

theorem ReadFrom.post {messages : List SlackMessage} (h : ReadFrom thread messages)
    {message : SlackMessage} (hlater : ∀ m ∈ thread, m.ts < message.ts) :
    ReadFrom (thread ++ [message]) messages := by
  obtain ⟨later, hthread, habove⟩ := h
  refine ⟨later ++ [message], by rw [hthread, List.append_assoc], fun m hm m' hm' => ?_⟩
  rcases List.mem_append.mp hm' with hold | hnew
  · exact habove m hm m' hold
  · rw [List.mem_singleton] at hnew
    subst hnew
    exact hlater m (hthread ▸ List.mem_append_left _ hm)

/-- An accepted set is justified by the thread as it is, though it was checked
against what Slack had of it. -/
theorem justified_of_checkIds {messages : List SlackMessage} {m : SessionMetadata}
    {ids : List String} {ceiling : String} (hread : ReadFrom thread messages) (hids : ids ≠ [])
    (hcheck : checkIds allowedUserIds messages (watermarkTs m) ids = .ok ceiling)
    (hbelow : watermarkTs m < (ceiling : WithBot String)) :
    Justified allowedUserIds thread ids ceiling m := by
  obtain ⟨⟨last, hlast, hceiling⟩, hcovered⟩ := checkIds_ok hids hcheck
  obtain ⟨later, rfl, habove⟩ := hread
  refine ⟨hbelow, ⟨last, List.mem_append_left _ hlast, hceiling⟩, fun msg hmsg heligible hle => ?_⟩
  rcases List.mem_append.mp hmsg with hold | hnew
  · exact hcovered msg hold heligible hle
  · have : ceiling < msg.ts := hceiling ▸ habove last hlast msg hnew
    exact absurd hle (not_le.mpr this)

/-- An accepted acknowledgement, from the check to its record: it has one save,
which is justified, or none left. -/
def Settles (allowedUserIds : List String) (thread : List SlackMessage) (ids : List String)
    (w : WithBot String) : TaskPhase → Prop
  | .held _ snap rest => rest = [] ∨ ∃ (ceiling : String) (utcNow : Json),
      rest = [advanceTo ceiling utcNow] ∧ w = (ceiling : WithBot String)
        ∧ Justified allowedUserIds thread ids ceiling snap.content
  | .saving _ snap u _ rest => rest = [] ∧ ∃ (ceiling : String) (utcNow : Json),
      u = advanceTo ceiling utcNow ∧ w = (ceiling : WithBot String)
        ∧ Justified allowedUserIds thread ids ceiling snap.content
  | .published _ _ _ rest => rest = []
  | _ => False

/-- **What a task has to save fits what it is for.** -/
def Role.Fits (allowedUserIds : List String) (thread : List SlackMessage) :
    Role → TaskPhase → Prop
  | .other, p => ∀ u ∈ p.pending, u.owns .slackWatermarkTs = false
  | .mention mentionTs, p => ∀ u ∈ p.pending,
      u.owns .slackWatermarkTs = false ∨ ∃ utcNow, u = markConsumed mentionTs utcNow
  | .reading _, p => ∀ u ∈ p.pending, ∀ f, u.owns f = false
  | .awaiting ids, p => ids ≠ [] ∧ ∃ m snap, p = .held m snap []
  | .answered ids messages, p =>
      ids ≠ [] ∧ (∃ m snap, p = .held m snap []) ∧ ReadFrom thread messages
  | .settling ids w, p => Settles allowedUserIds thread ids w p
  | _, p => p = .idle

theorem Settles.post {ids : List String} {w : WithBot String} {p : TaskPhase}
    (h : Settles allowedUserIds thread ids w p) {message : SlackMessage}
    (hlater : ∀ m ∈ thread, m.ts < message.ts) :
    Settles allowedUserIds (thread ++ [message]) ids w p := by
  cases p with
  | held _ snap rest =>
    rcases h with hdone | ⟨ceiling, utcNow, hrest, hw, hjust⟩
    · exact .inl hdone
    · exact .inr ⟨ceiling, utcNow, hrest, hw, hjust.post hlater⟩
  | saving _ snap u _ rest =>
    obtain ⟨hrest, ceiling, utcNow, hu, hw, hjust⟩ := h
    exact ⟨hrest, ceiling, utcNow, hu, hw, hjust.post hlater⟩
  | published _ _ _ _ => exact h
  | _ => exact h.elim

theorem Role.Fits.post {role : Role} {p : TaskPhase} (h : role.Fits allowedUserIds thread p)
    {message : SlackMessage} (hlater : ∀ m ∈ thread, m.ts < message.ts) :
    role.Fits allowedUserIds (thread ++ [message]) p := by
  cases role with
  | answered ids messages => exact ⟨h.1, h.2.1, h.2.2.post hlater⟩
  | settling ids w => exact Settles.post h hlater
  | _ => exact h

theorem owns_migrate (f : MetaField) : Update.migrateRoundRatingKeys.owns f = false := by
  simp [Update.migrateRoundRatingKeys, Update.assign]

theorem Settles.move {ids : List String} {w : WithBot String} {p p' : TaskPhase}
    (h : Settles allowedUserIds thread ids w p) (hmove : TaskMove p p') :
    Settles allowedUserIds thread ids w p' := by
  cases hmove with
  | skip m snap u rest =>
    rcases h with hnil | ⟨ceiling, utcNow, hrest, -, -⟩
    · cases hnil
    · cases hrest
      exact .inl rfl
  | serialize m snap u new rest =>
    rcases h with hnil | ⟨ceiling, utcNow, hrest, hw, hjust⟩
    · cases hnil
    · cases hrest
      exact ⟨rfl, ceiling, utcNow, rfl, hw, hjust⟩
  | publish m snap u new nv rest => exact h.1
  | refresh m u nv rest => exact .inl h
  | _ => exact h.elim

/-- **What a task has to save keeps fitting as it moves on.** -/
theorem Role.Fits.move {role : Role} {p p' : TaskPhase}
    (h : role.Fits allowedUserIds thread p) (hmove : TaskMove p p') :
    role.Fits allowedUserIds thread p' := by
  cases role with
  | other =>
    intro u hu
    rcases hmove.pending hu with hold | rfl
    · exact h u hold
    · exact owns_migrate _
  | mention mentionTs =>
    intro u hu
    rcases hmove.pending hu with hold | rfl
    · exact h u hold
    · exact .inl (owns_migrate _)
  | reading ids =>
    intro u hu
    rcases hmove.pending hu with hold | rfl
    · exact h u hold
    · exact owns_migrate
  | awaiting ids =>
    obtain ⟨-, m, snap, rfl⟩ := h
    cases hmove
  | answered ids messages =>
    obtain ⟨-, ⟨m, snap, rfl⟩, -⟩ := h
    cases hmove
  | settling ids w => exact Settles.move h hmove
  | _ =>
    cases (show p = .idle from h)
    cases hmove

/-- A task that has nothing more to save, and is not an acknowledgement under way, is done
with. -/
theorem Role.Fits.done {role : Role} {m : Mutator} {snap : Versioned SessionMetadata}
    {p' : TaskPhase} (h : role.Fits allowedUserIds thread (.held m snap []))
    (hidle : role.isRunning = false) (hpending : p'.pending = []) :
    role.Fits allowedUserIds thread p' := by
  have hnone : ∀ u, u ∉ p'.pending := fun u hu => by
    rw [hpending] at hu
    cases hu
  cases role with
  | other => exact fun u hu => absurd hu (hnone u)
  | mention _ => exact fun u hu => absurd hu (hnone u)
  | acked _ _ => cases (show TaskPhase.held m snap [] = .idle from h)
  | refused _ => cases (show TaskPhase.held m snap [] = .idle from h)
  | raised => cases (show TaskPhase.held m snap [] = .idle from h)
  | _ => cases hidle

section Published

variable {role : Role} {m : Mutator} {snap : Versioned SessionMetadata} {u : Update}
  {new : SessionMetadata} {rest : List Update}
  (h : role.Fits allowedUserIds thread (.saving m snap u new rest))
  (happly : u.apply snap.content = some new)
include h happly

theorem Role.Fits.unaccepted (hack : role.isAck = true) (hacc : role.isAccepted = false) :
    new = snap.content := by
  cases role with
  | other => cases hack
  | mention _ => cases hack
  | reading ids =>
    funext f
    exact u.frame _ _ f happly (h u List.mem_cons_self f)
  | awaiting _ =>
    obtain ⟨-, _, _, hp⟩ := h
    cases hp
  | answered _ _ =>
    obtain ⟨-, ⟨_, _, hp⟩, -⟩ := h
    cases hp
  | settling _ _ => cases hacc
  | acked _ _ => cases hacc
  | refused _ => cases (show TaskPhase.saving m snap u new rest = .idle from h)
  | raised => cases (show TaskPhase.saving m snap u new rest = .idle from h)

theorem Role.Fits.framed (hack : role.isAck = true) {f : MetaField}
    (hwatermark : f ≠ .slackWatermarkTs) (hupdated : f ≠ .updatedAt) :
    new f = snap.content f := by
  by_cases hacc : role.isAccepted = false
  · rw [h.unaccepted happly hack hacc]
  · cases role with
    | settling ids w =>
      obtain ⟨-, ceiling, utcNow, rfl, -, -⟩ := h
      exact advanceTo_frame happly hwatermark hupdated
    | acked _ _ => cases (show TaskPhase.saving m snap u new rest = .idle from h)
    | _ => exact absurd rfl hacc

/-- **Who moves the watermark**: a mention, up to itself, or an acknowledgement, as far as
it is justified. -/
theorem Role.Fits.watermark :
    watermarkTs new = watermarkTs snap.content ∨
    (∃ mentionTs : String, role = .mention mentionTs
      ∧ watermarkTs snap.content < (mentionTs : WithBot String)
      ∧ watermarkTs new = (mentionTs : WithBot String)) ∨
    ∃ ids, ∃ ceiling : String, role = .settling ids ceiling
      ∧ watermarkTs new = (ceiling : WithBot String)
      ∧ Justified allowedUserIds thread ids ceiling snap.content := by
  by_cases hack : role.isAck = true
  · by_cases hacc : role.isAccepted = false
    · rw [h.unaccepted happly hack hacc]
      exact .inl rfl
    · cases role with
      | settling ids w =>
        obtain ⟨-, ceiling, utcNow, rfl, rfl, hjust⟩ := h
        exact .inr (.inr ⟨ids, ceiling, rfl, watermarkTs_advanceTo happly, hjust⟩)
      | acked _ _ => cases (show TaskPhase.saving m snap u new rest = .idle from h)
      | _ => exact absurd rfl hacc
  · cases role with
    | other => exact .inl (watermarkTs_apply happly (h u List.mem_cons_self))
    | mention mentionTs =>
      rcases h u List.mem_cons_self with howns | ⟨utcNow, rfl⟩
      · exact .inl (watermarkTs_apply happly howns)
      · obtain ⟨hlt, hnew⟩ := markConsumed_apply happly
        exact .inr (.inl ⟨mentionTs, rfl, hlt, hnew⟩)
    | _ => exact absurd rfl hack

end Published

end SlackWatermark

namespace WatermarkState

/-! ## One step -/

variable {allowedUserIds : List String} {s s' : WatermarkState}

/-- **What holds of the session at any time**, when every save was current. -/
structure Inv (allowedUserIds : List String) (s : WatermarkState) : Prop where
  truthful : s.session.Truthful
  fits : ∀ t, (s.roles t).Fits allowedUserIds s.thread (s.session.tasks t)
  /-- Before it is accepted, an acknowledgement has changed nothing. -/
  unsaved : ∀ t, (s.roles t).isAccepted = false →
    ∀ r ∈ s.saves, r.task = t → r.role.isAck = true → r.after = r.before
  framed : ∀ r ∈ s.saves, r.role.isAck = true →
    ∀ f, f ≠ .slackWatermarkTs → f ≠ .updatedAt → r.after f = r.before f
  recorded : ∀ a ∈ s.acks, ∃ ids w, s.roles a.1 = .acked ids w
  accounted : ∀ m ∈ s.thread, eligibleThreadMessage allowedUserIds m = true →
    (m.ts : WithBot String) ≤ s.watermark → s.Acked m.ts ∨ s.Consumed m.ts
  /-- The watermark is of the thread, or a mention's. -/
  source : ∀ ts : String, s.watermark = ts → (∃ m ∈ s.thread, m.ts = ts) ∨ s.Consumed ts

theorem Consumed.mono {ts ts' : String} (h : s.Consumed ts) (hle : ts' ≤ ts) : s.Consumed ts' := by
  obtain ⟨r, hr, mentionTs, hrole, hafter, hts⟩ := h
  exact ⟨r, hr, mentionTs, hrole, hafter, hle.trans hts⟩

theorem Inv.kept (h : s.Inv allowedUserIds) : s.Kept allowedUserIds := by
  refine ⟨fun t error ht => ⟨h.unsaved t (by rw [ht]; rfl), fun a ha hat => ?_⟩,
    h.framed, h.accounted⟩
  obtain ⟨ids, w, hrole⟩ := h.recorded a ha
  rw [hat, ht] at hrole
  cases hrole

theorem watermark_initial (m : SessionMetadata) (thread : List SlackMessage) :
    (WatermarkState.initial m thread).watermark = ⊥ := by
  show watermarkTs (Function.update m .slackWatermarkTs .null) = ⊥
  unfold watermarkTs
  rw [Function.update_self]

theorem Inv.initial (m : SessionMetadata) (thread : List SlackMessage) :
    (WatermarkState.initial m thread).Inv allowedUserIds where
  truthful := .initial _
  fits _ := fun _ hu => (by cases hu)
  unsaved _ _ _ hr := (by cases hr)
  framed _ hr := (by cases hr)
  recorded _ ha := (by cases ha)
  accounted msg _ _ hle := by
    rw [watermark_initial, le_bot_iff] at hle
    exact absurd hle WithBot.coe_ne_bot
  source ts hts := by
    rw [watermark_initial] at hts
    exact absurd hts.symm WithBot.coe_ne_bot

theorem Inv.post (h : s.Inv allowedUserIds) {message : SlackMessage}
    (hlater : ∀ m ∈ s.thread, m.ts < message.ts) :
    Inv allowedUserIds { s with thread := s.thread ++ [message] } where
  truthful := h.truthful
  fits t := (h.fits t).post hlater
  unsaved := h.unsaved
  framed := h.framed
  recorded := h.recorded
  accounted m hm heligible hle := by
    rcases List.mem_append.mp hm with hold | hnew
    · exact h.accounted m hold heligible hle
    · rw [List.mem_singleton] at hnew
      subst hnew
      obtain ⟨ts, hts⟩ := WithBot.ne_bot_iff_exists.mp
        (ne_bot_of_le_ne_bot WithBot.coe_ne_bot hle)
      have hbelow : m.ts ≤ ts := WithBot.coe_le_coe.mp (hts ▸ hle)
      rcases h.source ts hts.symm with ⟨last, hlast, rfl⟩ | hconsumed
      · exact absurd hbelow (not_le.mpr (hlater last hlast))
      · exact .inr (Consumed.mono hconsumed hbelow)
  source ts hts := by
    rcases h.source ts hts with ⟨last, hlast, hlastTs⟩ | hconsumed
    · exact .inl ⟨last, List.mem_append_left _ hlast, hlastTs⟩
    · exact .inr hconsumed

theorem Inv.turn (h : s.Inv allowedUserIds) {t : ℕ} {role : Role} {p : TaskPhase}
    (hp : p.Sound s.session.disk) (hfits : role.Fits allowedUserIds s.thread p)
    (hreturned : ∀ ids w, s.roles t ≠ .acked ids w)
    (haccepted : role.isAccepted = false → (s.roles t).isAccepted = false) :
    (s.turn t role p).Inv allowedUserIds where
  truthful := h.truthful.setTask hp
  fits t' := by
    show (Function.update s.roles t role t').Fits allowedUserIds s.thread
      (Function.update s.session.tasks t p t')
    by_cases ht : t' = t
    · subst ht
      rwa [Function.update_self, Function.update_self]
    · rw [Function.update_of_ne ht, Function.update_of_ne ht]
      exact h.fits t'
  unsaved t' ht' := by
    refine h.unsaved t' ?_
    change (Function.update s.roles t role t').isAccepted = false at ht'
    by_cases ht : t' = t
    · subst ht
      rw [Function.update_self] at ht'
      exact haccepted ht'
    · rwa [Function.update_of_ne ht] at ht'
  framed := h.framed
  recorded a ha := by
    obtain ⟨ids, w, hrole⟩ := h.recorded a ha
    have hne : a.1 ≠ t := fun hat => by
      rw [hat] at hrole
      exact hreturned ids w hrole
    refine ⟨ids, w, ?_⟩
    show Function.update s.roles t role a.1 = .acked ids w
    rw [Function.update_of_ne hne, hrole]
  accounted := h.accounted
  source := h.source

theorem Inv.begin (h : s.Inv allowedUserIds) {t : ℕ} {role : Role} {m : Mutator}
    (hstep : s.begin t role m = some s') (hfits : role.Fits allowedUserIds s.thread (.waiting m)) :
    s'.Inv allowedUserIds := by
  unfold WatermarkState.begin at hstep
  split at hstep
  · split at hstep
    · cases hstep
    · next hack =>
      cases hstep
      refine h.turn trivial hfits (fun ids w hrole => hack (by rw [hrole]; rfl)) fun _ => ?_
      cases hrole : s.roles t with
      | settling _ _ => exact absurd (by rw [hrole]; rfl) hack
      | acked _ _ => exact absurd (by rw [hrole]; rfl) hack
      | _ => rfl
  · cases hstep

theorem watermark_begin {t : ℕ} {role : Role} {m : Mutator}
    (hstep : s.begin t role m = some s') : s'.watermark = s.watermark := by
  unfold WatermarkState.begin at hstep
  split at hstep
  · split at hstep
    · cases hstep
    · cases hstep
      rfl
  · cases hstep

theorem Inv.quiet (h : s.Inv allowedUserIds) {after : SessionState}
    (htruthful : after.Truthful)
    (hfits : ∀ t, (s.roles t).Fits allowedUserIds s.thread (after.tasks t))
    (hdisk : after.disk = s.session.disk) : Inv allowedUserIds { s with session := after } where
  truthful := htruthful
  fits := hfits
  unsaved := h.unsaved
  framed := h.framed
  recorded := h.recorded
  accounted := by
    unfold WatermarkState.watermark
    rw [hdisk]
    exact h.accounted
  source := by
    unfold WatermarkState.watermark
    rw [hdisk]
    exact h.source

/-- The state after a write of the file. -/
def written (s : WatermarkState) (t : ℕ) (after : SessionState) : WatermarkState :=
  { s with
    session := after
    saves := ⟨t, s.roles t, s.session.disk.content, after.disk.content⟩ :: s.saves }

theorem Acked.written {ts : String} (h : s.Acked ts) (t : ℕ) (after : SessionState) :
    (s.written t after).Acked ts := by
  obtain ⟨r, hr, hrole⟩ := h
  exact ⟨r, List.mem_cons_of_mem _ hr, hrole⟩

theorem Consumed.written {ts : String} (h : s.Consumed ts) (t : ℕ) (after : SessionState) :
    (s.written t after).Consumed ts := by
  obtain ⟨r, hr, hrole⟩ := h
  exact ⟨r, List.mem_cons_of_mem _ hr, hrole⟩

section Written

variable {t : ℕ} {m : Mutator} {snap : Versioned SessionMetadata} {u : Update}
  {new : SessionMetadata} {rest : List Update} {after : SessionState}

theorem Inv.written (h : s.Inv allowedUserIds) (ht : s.session.tasks t = .saving m snap u new rest)
    (hcurrent : snap.content = s.session.disk.content) (happly : u.apply snap.content = some new)
    (hafter : after.disk.content = new) (htruthful : after.Truthful)
    (hfits : ∀ t, (s.roles t).Fits allowedUserIds s.thread (after.tasks t)) :
    (s.written t after).Inv allowedUserIds := by
  have hfit : (s.roles t).Fits allowedUserIds s.thread (.saving m snap u new rest) := ht ▸ h.fits t
  have hmark := hfit.watermark happly
  have hunaccepted := hfit.unaccepted happly
  have hframed := fun hack f => hfit.framed (f := f) happly hack
  rw [hcurrent, ← hafter] at hmark hunaccepted hframed
  have hnow : (s.written t after).watermark = watermarkTs after.disk.content := rfl
  refine ⟨htruthful, hfits, fun t' hacc r hr hrt hack => ?_, fun r hr hack => ?_, h.recorded,
    fun msg hmsg heligible hle => ?_, fun ts hts => ?_⟩
  · rcases List.mem_cons.mp hr with rfl | hold
    · subst hrt
      exact hunaccepted hack hacc
    · exact h.unsaved t' hacc r hold hrt hack
  · rcases List.mem_cons.mp hr with rfl | hold
    · exact hframed hack
    · exact h.framed r hold hack
  · rw [hnow] at hle
    have hbefore : (msg.ts : WithBot String) ≤ watermarkTs s.session.disk.content →
        (s.written t after).Acked msg.ts ∨ (s.written t after).Consumed msg.ts := fun hbelow =>
      (h.accounted msg hmsg heligible hbelow).imp (·.written t after) (·.written t after)
    rcases hmark with heq | ⟨mentionTs, hrole, -, hnew⟩ | ⟨ids, ceiling, hrole, hnew, hjust⟩
    · exact hbefore (heq ▸ hle)
    · rw [hnew] at hle
      exact .inr ⟨_, List.mem_cons_self, mentionTs, hrole, hnew, WithBot.coe_le_coe.mp hle⟩
    · rw [hnew] at hle
      rcases hjust.covered msg hmsg heligible (WithBot.coe_le_coe.mp hle) with hbelow | hnamed
      · exact hbefore hbelow
      · exact .inl ⟨_, List.mem_cons_self, ids, ceiling, hrole, hnew, hnamed⟩
  · rw [hnow] at hts
    rcases hmark with heq | ⟨mentionTs, hrole, -, hnew⟩ | ⟨ids, ceiling, -, hnew, hjust⟩
    · rw [heq] at hts
      exact (h.source ts hts).imp_right (·.written t after)
    · rw [hnew] at hts
      exact .inr ⟨_, List.mem_cons_self, mentionTs, hrole, hnew, (WithBot.coe_inj.mp hts).ge⟩
    · rw [hnew] at hts
      exact .inl (WithBot.coe_inj.mp hts ▸ hjust.reached)

end Written

theorem Inv.fits_session (h : s.Inv allowedUserIds) {a : SessionAction} {after : SessionState}
    (howed : s.owed a = false) (hstep : s.session.step a = some after) (t : ℕ) :
    (s.roles t).Fits allowedUserIds s.thread (after.tasks t) := by
  have hbegins : ¬ SessionState.Begins a := fun hbegins => by
    cases a with
    | call _ _ => cases howed
    | _ => exact hbegins
  have hfit := h.fits t
  rcases SessionState.step_moves hbegins hstep t with hsame | hmove | ⟨rfl, ⟨m, snap, ht⟩, hpending⟩
  · rwa [hsame]
  · exact hfit.move hmove
  · rw [ht] at hfit
    refine hfit.done ?_ hpending
    simpa only [WatermarkState.owed, ht, Bool.and_true] using howed

theorem Inv.session (h : s.Inv allowedUserIds) {a : SessionAction} (hmeets : s.Meets (.session a))
    (hstep : s.step allowedUserIds (.session a) = some s') :
    s'.Inv allowedUserIds ∧ s.watermark ≤ s'.watermark := by
  simp only [WatermarkState.step] at hstep
  split at hstep
  · cases hstep
  next howed =>
  obtain ⟨after, hafter, rfl⟩ := Option.map_eq_some_iff.mp hstep
  have hfits := h.fits_session (Bool.eq_false_iff.mpr howed) hafter
  have htruthful := h.truthful.step hafter
  rcases h.truthful.disk_step hafter with
    ⟨hdisk, hother⟩ | ⟨t, m, snap, u, new, rest, rfl, ht, hdisk, hcontent, happly⟩
  · have hsaved : s.saved a after = s.saves := by
      cases a with
      | publish t => exact absurd rfl (hother t)
      | _ => rfl
    rw [hsaved]
    refine ⟨h.quiet htruthful hfits hdisk, le_of_eq ?_⟩
    unfold WatermarkState.watermark
    rw [hdisk]
  · have hcurrent : snap.content = s.session.disk.content := by
      simp only [Meets, ht] at hmeets
      exact hcontent hmeets
    have hnew : after.disk.content = new := by rw [hdisk, Versioned.content_write]
    refine ⟨h.written ht hcurrent happly hnew htruthful hfits, ?_⟩
    have hfit : (s.roles t).Fits allowedUserIds s.thread (.saving m snap u new rest) :=
      ht ▸ h.fits t
    show watermarkTs s.session.disk.content ≤ watermarkTs after.disk.content
    rw [hnew, ← hcurrent]
    rcases hfit.watermark happly with heq | ⟨_, -, hlt, hts⟩ | ⟨_, _, -, hts, hjust⟩
    · exact heq.ge
    · rw [hts]
      exact hlt.le
    · rw [hts]
      exact hjust.below.le

theorem Inv.sound_held (h : s.Inv allowedUserIds) {t : ℕ} {m : Mutator}
    {snap : Versioned SessionMetadata} {rest : List Update}
    (ht : s.session.tasks t = .held m snap rest) : snap.TrueTo s.session.disk :=
  show TaskPhase.Sound s.session.disk (.held m snap rest) from ht ▸ h.truthful.tasks t

theorem Inv.turn_ack (h : s.Inv allowedUserIds) {t : ℕ} {role : Role} {p : TaskPhase}
    (hrole : (s.roles t).isRunning = true) (hold : (s.roles t).isAccepted = false)
    (hp : p.Sound s.session.disk) (hfits : role.Fits allowedUserIds s.thread p) :
    (s.turn t role p).Inv allowedUserIds := by
  refine h.turn hp hfits (fun ids w hacked => ?_) fun _ => hold
  rw [hacked] at hrole
  cases hrole

/-- **Every step that meets its condition keeps the invariant, and the watermark does not
go back.** -/
theorem Inv.step (h : s.Inv allowedUserIds) {a : WatermarkAction} (hmeets : s.Meets a)
    (hstep : s.step allowedUserIds a = some s') :
    s'.Inv allowedUserIds ∧ s.watermark ≤ s'.watermark := by
  cases a with
  | session a => exact h.session hmeets hstep
  | post message =>
    simp only [WatermarkState.step] at hstep
    split at hstep
    · next hlater =>
      cases hstep
      exact ⟨h.post hlater, le_refl _⟩
    · cases hstep
  | call t m =>
    simp only [WatermarkState.step] at hstep
    split at hstep
    · next howns => exact ⟨h.begin hstep howns, (watermark_begin hstep).ge⟩
    · cases hstep
  | consumeMention t mentionTs utcNow =>
    refine ⟨h.begin hstep fun u hu => .inr ⟨utcNow, ?_⟩, (watermark_begin hstep).ge⟩
    exact List.mem_singleton.mp hu
  | ackMessages t messageIds =>
    exact ⟨h.begin hstep fun u hu => (by cases hu), (watermark_begin hstep).ge⟩
  | requireSlackThread t =>
    simp only [WatermarkState.step] at hstep
    split at hstep
    · next ids m snap hrole ht =>
      have hheld := h.sound_held ht
      split at hstep
      · cases hstep
        exact ⟨h.turn_ack (by rw [hrole]; rfl) (by rw [hrole]; rfl) trivial rfl, le_refl _⟩
      · next hnone =>
        have hids : ids ≠ [] := fun hnil => by
          rw [SlackWatermark.requireSlackThread, hnil] at hnone
          split at hnone <;> cases hnone
        cases hstep
        exact ⟨h.turn_ack (by rw [hrole]; rfl) (by rw [hrole]; rfl) hheld ⟨hids, m, snap, rfl⟩,
          le_refl _⟩
    · cases hstep
  | getThreadReplies t =>
    simp only [WatermarkState.step] at hstep
    split at hstep
    · next ids m snap hrole ht =>
      have hfit : (Role.awaiting ids).Fits allowedUserIds s.thread (.held m snap []) := by
        rw [← hrole, ← ht]
        exact h.fits t
      cases hstep
      refine ⟨h.turn_ack (by rw [hrole]; rfl) (by rw [hrole]; rfl) (h.sound_held ht)
        ⟨hfit.1, ⟨m, snap, rfl⟩, [], (List.append_nil _).symm, fun _ _ _ hm => ?_⟩, le_refl _⟩
      cases hm
    · cases hstep
  | slackError t =>
    simp only [WatermarkState.step] at hstep
    split at hstep
    · next ids m snap hrole ht =>
      cases hstep
      exact ⟨h.turn_ack (by rw [hrole]; rfl) (by rw [hrole]; rfl) trivial rfl, le_refl _⟩
    · cases hstep
  | check t utcNow =>
    simp only [WatermarkState.step] at hstep
    split at hstep
    · next ids messages m snap hrole ht =>
      obtain ⟨hids, -, hread⟩ :
          (Role.answered ids messages).Fits allowedUserIds s.thread (.held m snap []) := by
        rw [← hrole, ← ht]
        exact h.fits t
      have hturn : ∀ role p, TaskPhase.Sound s.session.disk p →
          role.Fits allowedUserIds s.thread p → (s.turn t role p).Inv allowedUserIds :=
        fun role p => h.turn_ack (by rw [hrole]; rfl) (by rw [hrole]; rfl)
      split at hstep
      · cases hstep
        exact ⟨hturn _ _ trivial rfl, le_refl _⟩
      · next ceiling hcheck =>
        split at hstep
        · next hbelow =>
          cases hstep
          exact ⟨hturn _ _ (h.sound_held ht) (.inr ⟨ceiling, utcNow, rfl, rfl,
            justified_of_checkIds hread hids hcheck hbelow⟩), le_refl _⟩
        · cases hstep
          exact ⟨hturn _ _ (h.sound_held ht) (.inl rfl), le_refl _⟩
    · cases hstep
  | persist t =>
    simp only [WatermarkState.step] at hstep
    split at hstep
    · next ids w m snap hrole ht =>
      cases hstep
      have hturn : (s.turn t (.acked ids w) .idle).Inv allowedUserIds :=
        h.turn trivial rfl (fun _ _ hacked => by rw [hrole] at hacked; cases hacked)
          fun hacc => (by cases hacc)
      refine ⟨{ hturn with recorded := fun a ha => ?_ }, le_refl _⟩
      rcases List.mem_cons.mp ha with rfl | hold
      · exact ⟨ids, w, Function.update_self ..⟩
      · exact hturn.recorded a hold
    · cases hstep

/-! ## Runs -/

instance (s : WatermarkState) (a : WatermarkAction) : Decidable (s.Meets a) := by
  cases a with
  | session a =>
    cases a with
    | publish t =>
      unfold Meets
      dsimp only
      split <;> infer_instance
    | _ => exact .isTrue trivial
  | _ => exact .isTrue trivial

/-- **Along every run whose saves each replace the version of the file that their object is
of**, the watermark never goes back, a refused acknowledgement changes nothing, an accepted
one changes nothing else, and what is not above the watermark was acknowledged or consumed by
a mention. -/
theorem kept_of_run (m : SessionMetadata) (thread : List SlackMessage)
    {as bs : List WatermarkAction}
    (hG : (system allowedUserIds).Guarded Meets (.initial m thread) (as ++ bs))
    (h : (system allowedUserIds).run (.initial m thread) as = some s)
    (h' : (system allowedUserIds).run s bs = some s') :
    s.watermark ≤ s'.watermark ∧ s'.Kept allowedUserIds := by
  obtain ⟨has, hbs⟩ := hG.append
  have hinv : s.Inv allowedUserIds :=
    (system allowedUserIds).run_invariant_of_guarded (fun _ _ _ hi hmeets hstep =>
      (hi.step hmeets hstep).1) (Inv.initial m thread) has h
  obtain ⟨hle, hinv'⟩ := (system allowedUserIds).run_invariant_of_guarded
    (I := fun t => s.watermark ≤ t.watermark ∧ t.Inv allowedUserIds)
    (fun _ _ _ hi hmeets hstep =>
      ⟨hi.1.trans (hi.2.step hmeets hstep).2, (hi.2.step hmeets hstep).1⟩)
    ⟨le_refl _, hinv⟩ (hbs s h) h'
  exact ⟨hle, hinv'.kept⟩

def exampleMeta : SessionMetadata
  | .slackOrigin => .obj [("channel_id", .str "C1"), ("thread_ts", .str "100")]
  | .updatedAt => .str "t0"
  | _ => .null

/-- The mention that summoned the session, and a message behind it. -/
def exampleThread : List SlackMessage :=
  [{ ts := "100", user := some "U1" }, { ts := "110", user := some "U1" }]

/-- The mention is consumed. -/
def summoned : List WatermarkAction :=
  [.consumeMention 0 "100" (.str "t1"), .session (.enter 0 false false), .session (.read 0),
    .session (.fill 0 false), .session (.modify 0), .session (.publish 0),
    .session (.refresh 0), .session (.modify 0)]

/-- An acknowledgement of the message behind it, up to the answer of Slack. -/
def asked : List WatermarkAction :=
  [.ackMessages 1 ["110"], .session (.enter 1 false false), .requireSlackThread 1,
    .getThreadReplies 1]

/-- Somebody posts a mention, and it is consumed. -/
def mentioned : List WatermarkAction :=
  [.post { ts := "120", user := some "U1" }, .consumeMention 2 "120" (.str "t2"),
    .session (.enter 2 false false), .session (.modify 2), .session (.publish 2),
    .session (.refresh 2), .session (.modify 2)]

/-- The set is checked and the object saved. -/
def settled : List WatermarkAction :=
  [.check 1 (.str "t3"), .session (.modify 1), .session (.publish 1)]

/-- The acknowledgement alone. -/
theorem kept_of_run_asked :
    ∃ s s', (system ["U1"]).run (.initial exampleMeta exampleThread) summoned = some s
      ∧ (system ["U1"]).run s (asked ++ settled) = some s'
      ∧ s'.watermark = ("110" : String) ∧ s.watermark ≤ s'.watermark ∧ s'.Kept ["U1"] := by
  have hrun : ((system ["U1"]).run (.initial exampleMeta exampleThread)
      (summoned ++ (asked ++ settled))).map watermark
      = some (("110" : String) : WithBot String) := by
    decide +kernel
  obtain ⟨s', h, hwatermark⟩ := Option.map_eq_some_iff.mp hrun
  rw [TransitionSystem.run_append] at h
  obtain ⟨s, hs, hs'⟩ := Option.bind_eq_some_iff.mp h
  obtain ⟨hle, hkept⟩ := kept_of_run exampleMeta exampleThread
    (TransitionSystem.guarded_of_check (by decide +kernel)) hs hs'
  exact ⟨s, s', hs, hs', hwatermark, hle, hkept⟩

/-- **A mention that is consumed while Slack answers is undone**: the acknowledgement saves
the object it read before, and the watermark goes back. And an accepted acknowledgement sets
the time of the change besides the watermark. -/
theorem set_back :
    (∃ s s', (system ["U1"]).run (.initial exampleMeta exampleThread)
        (summoned ++ asked ++ mentioned) = some s
      ∧ (system ["U1"]).run s settled = some s' ∧ s'.watermark < s.watermark) ∧
    ∃ s, (system ["U1"]).run (.initial exampleMeta exampleThread)
        (summoned ++ asked ++ settled) = some s
      ∧ ∃ r ∈ s.saves, r.role.isAccepted = true ∧ r.after .updatedAt ≠ r.before .updatedAt := by
  refine ⟨?_, ?_⟩
  · have hbefore : ((system ["U1"]).run (.initial exampleMeta exampleThread)
        (summoned ++ asked ++ mentioned)).map watermark
        = some (("120" : String) : WithBot String) := by decide +kernel
    have hafter : ((system ["U1"]).run (.initial exampleMeta exampleThread)
        (summoned ++ asked ++ mentioned ++ settled)).map watermark
        = some (("110" : String) : WithBot String) := by decide +kernel
    obtain ⟨s', h, hs'⟩ := Option.map_eq_some_iff.mp hafter
    rw [TransitionSystem.run_append] at h
    obtain ⟨s, hs, h⟩ := Option.bind_eq_some_iff.mp h
    refine ⟨s, s', hs, h, ?_⟩
    rw [hs', TransitionSystem.eq_of_run_map hbefore hs]
    decide +kernel
  · have hrun : ((system ["U1"]).run (.initial exampleMeta exampleThread)
        (summoned ++ asked ++ settled)).map (fun s => s.saves.any fun r =>
          r.role.isAccepted && (r.after .updatedAt).isText "t3"
            && !(r.before .updatedAt).isText "t3") = some true := by decide +kernel
    obtain ⟨s, hs, hany⟩ := Option.map_eq_some_iff.mp hrun
    obtain ⟨r, hr, hall⟩ := List.any_eq_true.mp hany
    simp only [Bool.and_eq_true, Bool.not_eq_true'] at hall
    obtain ⟨⟨haccepted, hafter⟩, hbefore⟩ := hall
    refine ⟨s, hs, r, hr, haccepted, fun heq => ?_⟩
    rw [heq, hbefore] at hafter
    cases hafter

end WatermarkState
