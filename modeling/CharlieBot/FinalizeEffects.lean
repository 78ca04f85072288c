import CharlieBot.EventTypes
import Mathlib.Data.List.Induction

/-!
# What a finished worker leaves in the chat

When a worker is done its session is told: a summary is appended to the
chat, the master is woken, a reviewer is started. Each of these is done at
most once, and whether it was done is read off what it leaves. The summary is
looked for in the chat (`terminalSummaryPresent`), of which a fold is kept
that answers the question at once (`summaryPresent_build`).
-/

inductive ThreadStatus where
  | idle
  | running
  | completed
  | failed
  | cancelled
  deriving DecidableEq

/-- The worker will say no more. -/
def ThreadStatus.isTerminal : ThreadStatus → Bool
  | .completed => true
  | .failed => true
  | .cancelled => true
  | _ => false

/-- A thread's record. -/
structure ThreadMetadata where
  id : String
  sessionId : String
  description : String := ""
  status : ThreadStatus := .idle
  exitCode : Option ℤ := none
  backend : Option String := none
  model : Option String := none
  reviewOf : Option String := none
  requireReview : Bool := true
  repoPath : Option String := none
  branchName : Option String := none
  worktreePath : Option String := none
  baseBranch : Option String := none
  /-- What it was told about its task. -/
  context : Option String := none
  /-- Whether its worktree stays. -/
  keepWorktree : Bool := false
  triedBackends : List String := []
  /-- The first thread of its chain of steps. -/
  chainRoot : Option String := none
  stepIndex : Option ℕ := none

structure WorkerRunOutcome where
  exitCode : ℤ
  /-- Whether it ran into its quota. -/
  quotaExhausted : Bool
  /-- What went wrong with it. -/
  error : String

/-! ## The summary -/

def exitStatusLabel (exitCode : ℤ) : String := if exitCode = 0 then "completed" else "failed"

def workerLocatorSummary (threadId status timestamp : String) : String :=
  "Worker `" ++ String.ofList (threadId.toList.take 8) ++ "` | thread `" ++ threadId
    ++ "` | status: " ++ status ++ " | time: " ++ timestamp
    ++ " | find in Workers panel by thread ID"

def optionalField (name : String) (value : Option String) : Dict :=
  match value.filter (· != "") with
  | some value => [(name, .str value)]
  | none => []

def threadWorkerEvent (thread : ThreadMetadata) (status fullContent content : String) : Event :=
  [("type", .str ET.workerSummary), ("thread_id", .str thread.id), ("content", .str content),
    ("status", .str status), ("full_content", .str fullContent)]
    ++ optionalField "resolved_backend" thread.backend
    ++ optionalField "resolved_model" thread.model

/-- What is read for a summary: whether the thread was cancelled, the report of
a verifier, the summary of the thread's events, and the time. -/
structure SummaryRead where
  /-- Whether the thread was cancelled. -/
  cancelled : Bool
  verifyReport : Option String
  eventsSummary : String
  timestamp : String

/-- The end of a summary's text. -/
def summarySuffix (outcome : WorkerRunOutcome) (read : SummaryRead) : String :=
  if read.cancelled then "\n\n*Cancelled by user.*"
  else if outcome.quotaExhausted then
    "\n\n*Worker stopped: API quota exhausted.*"
      ++ (if outcome.error = "" then "" else " " ++ outcome.error)
  else if outcome.error ≠ "" then
    if read.verifyReport.isSome then
      "\n\n*Verifier completion failed: " ++ outcome.error ++ "*"
    else "\n\n*Worker error: " ++ outcome.error ++ "*"
  else if outcome.exitCode ≠ 0 then
    "\n\n*Worker exited with code " ++ toString outcome.exitCode ++ ".*"
  else ""

def fullSummary (thread : ThreadMetadata) (outcome : WorkerRunOutcome) (read : SummaryRead) :
    String :=
  (match read.verifyReport with
    | some report =>
      "**Verifier completion: thread `" ++ thread.id ++ "`**\n\n"
        ++ (if report = "" then "(no verifier final report)" else report)
    | none => "**Worker finished: " ++ thread.description ++ "**\n\n" ++ read.eventsSummary)
    ++ summarySuffix outcome read

/-- **The summary of a thread.** -/
def completionEvent (thread : ThreadMetadata) (outcome : WorkerRunOutcome) (read : SummaryRead) :
    Event :=
  let status := if read.cancelled then "cancelled" else exitStatusLabel outcome.exitCode
  threadWorkerEvent thread status (fullSummary thread outcome read)
    (workerLocatorSummary thread.id status read.timestamp)

/-- **The summary that says why there is none.** -/
def fallbackEvent (thread : ThreadMetadata) (outcome : WorkerRunOutcome)
    (error timestamp : String) : Event :=
  let status := exitStatusLabel outcome.exitCode
  let fallback := workerLocatorSummary thread.id status timestamp
  threadWorkerEvent thread status
    (fallback ++ "\n\n*(summary unavailable: " ++ error ++ ")*") fallback

/-! ## What was done -/

def isTerminalWorkerSummary (event : Event) (threadId : String) : Bool :=
  event.hasType ET.workerSummary && (event.get "thread_id").isText threadId
    && !(event.get "status").isText "running"

def masterOutputTypes : List String := [ET.assistant, ET.masterDone, ET.assistantError]

def isMasterOutput (event : Event) : Bool := masterOutputTypes.any event.hasType

def terminalSummaryPresent (chatEvents : List Event) (threadId : String) : Bool :=
  chatEvents.any (isTerminalWorkerSummary · threadId)

/-- `master_woke_after_summary`: whether an output of the master follows the last
summary. -/
def masterWokeAfterSummary (chatEvents : List Event) (threadId : String) : Bool :=
  match chatEvents.reverse.findIdx? (isTerminalWorkerSummary · threadId) with
  | none => false
  | some k => (chatEvents.reverse.take k).any isMasterOutput

def reviewerThreadExists (threads : List ThreadMetadata) (originalThreadId : String)
    (excludeThreadId : Option String) : Bool :=
  threads.any fun t => t.reviewOf = some originalThreadId && some t.id ≠ excludeThreadId

/-- Whether a field has a text. -/
def hasText (value : Option String) : Bool := value.any (· != "")

def effectsMaybeMissing (thread : ThreadMetadata) (chatEvents : List Event)
    (sessionThreads : List ThreadMetadata) : Bool :=
  if !terminalSummaryPresent chatEvents thread.id then true
  else if !masterWokeAfterSummary chatEvents thread.id then true
  else if thread.status = .completed && thread.requireReview && !hasText thread.reviewOf
      && hasText thread.repoPath && hasText thread.branchName && hasText thread.worktreePath then
    !reviewerThreadExists sessionThreads thread.id (some thread.id)
  else false

/-! ## The fold -/

/-- **What is kept of a chat** to answer both questions at once. -/
structure FinalizeFold where
  /-- Of every thread with a summary, how many outputs of the master stood before
  the last. -/
  summaryMarks : List (String × ℕ) := []
  masterOutputs : ℕ := 0

namespace FinalizeFold

/-- `absorb`: one event. -/
def absorb (fold : FinalizeFold) (event : Event) : FinalizeFold :=
  if isMasterOutput event then { fold with masterOutputs := fold.masterOutputs + 1 }
  else
    match (event.get "thread_id").asText with
    | some threadId =>
      if isTerminalWorkerSummary event threadId then
        { fold with summaryMarks := (threadId, fold.masterOutputs) :: fold.summaryMarks }
      else fold
    | none => fold

def build (events : List Event) : FinalizeFold := events.foldl absorb {}

def summaryPresent (fold : FinalizeFold) (threadId : String) : Bool :=
  (fold.summaryMarks.lookup threadId).isSome

def masterWoke (fold : FinalizeFold) (threadId : String) : Bool :=
  (fold.summaryMarks.lookup threadId).any (· < fold.masterOutputs)

end FinalizeFold

theorem eq_of_isTerminalWorkerSummary {event : Event} {t u : String}
    (ht : isTerminalWorkerSummary event t = true) (hu : isTerminalWorkerSummary event u = true) :
    t = u := by
  simp only [isTerminalWorkerSummary, Bool.and_eq_true] at ht hu
  have ht' := ht.1.2
  have hu' := hu.1.2
  unfold Json.isText at ht' hu'
  split at ht'
  · next s hs =>
    rw [hs] at hu'
    rw [← eq_of_beq ht', ← eq_of_beq hu']
  · cases ht'

theorem isMasterOutput_of_isTerminalWorkerSummary {event : Event} {t : String}
    (ht : isTerminalWorkerSummary event t = true) : isMasterOutput event = false := by
  simp only [isTerminalWorkerSummary, Bool.and_eq_true] at ht
  refine eq_false_of_ne_true fun hout => ?_
  obtain ⟨name, hname, htype⟩ := List.any_eq_true.mp hout
  have heq := Event.hasType_unique ht.1.1 htype
  rw [← heq] at hname
  exact absurd hname (by decide)

theorem summaryPresent_absorb (fold : FinalizeFold) (event : Event) (threadId : String) :
    (fold.absorb event).summaryPresent threadId
      = (fold.summaryPresent threadId || isTerminalWorkerSummary event threadId) := by
  cases hterminal : isTerminalWorkerSummary event threadId with
  | true =>
    have hid : (event.get "thread_id").asText = some threadId := by
      simp only [isTerminalWorkerSummary, Bool.and_eq_true] at hterminal
      have htext := hterminal.1.2
      unfold Json.isText at htext
      split at htext
      · next s hs =>
        rw [hs, eq_of_beq htext]
        rfl
      · cases htext
    rw [FinalizeFold.absorb, isMasterOutput_of_isTerminalWorkerSummary hterminal, hid]
    simp [hterminal, FinalizeFold.summaryPresent]
  | false =>
    rw [Bool.or_false, FinalizeFold.absorb]
    split
    · rfl
    · split
      · next u hu =>
        split
        · next hother =>
          have hne : u ≠ threadId := fun h => by
            rw [h, hterminal] at hother
            cases hother
          rw [FinalizeFold.summaryPresent, List.lookup_cons, beq_false_of_ne (Ne.symm hne)]
          rfl
        · rfl
      · rfl

/-- **The fold and the scan agree.** -/
theorem summaryPresent_build (events : List Event) (threadId : String) :
    (FinalizeFold.build events).summaryPresent threadId
      = terminalSummaryPresent events threadId := by
  have key : ∀ fold : FinalizeFold, (events.foldl FinalizeFold.absorb fold).summaryPresent threadId
      = (fold.summaryPresent threadId || terminalSummaryPresent events threadId) := by
    induction events with
    | nil => exact fun fold => (Bool.or_false _).symm
    | cons event events ih =>
      intro fold
      rw [List.foldl_cons, ih, summaryPresent_absorb, Bool.or_assoc]
      rfl
  exact key {}

theorem threadId_of_isTerminalWorkerSummary {event : Event} {t : String}
    (h : isTerminalWorkerSummary event t = true) : (event.get "thread_id").asText = some t := by
  simp only [isTerminalWorkerSummary, Bool.and_eq_true] at h
  have htext := h.1.2
  unfold Json.isText at htext
  split at htext
  · next s hs =>
    rw [hs, eq_of_beq htext]
    rfl
  · cases htext

theorem terminalSummaryPresent_concat (events : List Event) (event : Event) (threadId : String) :
    terminalSummaryPresent (events ++ [event]) threadId
      = (terminalSummaryPresent events threadId || isTerminalWorkerSummary event threadId) := by
  rw [terminalSummaryPresent, List.any_append, List.any_cons, List.any_nil, Bool.or_false,
    terminalSummaryPresent]

/-- **One event more**: a summary starts anew, and an output of the master counts
when there is a summary. -/
theorem masterWokeAfterSummary_concat (events : List Event) (event : Event) (threadId : String) :
    masterWokeAfterSummary (events ++ [event]) threadId
      = (!isTerminalWorkerSummary event threadId && (masterWokeAfterSummary events threadId
        || isMasterOutput event && terminalSummaryPresent events threadId)) := by
  unfold masterWokeAfterSummary
  rw [List.reverse_append, List.reverse_singleton, List.singleton_append, List.findIdx?_cons]
  cases hterminal : isTerminalWorkerSummary event threadId with
  | true => rfl
  | false =>
    have hpresent : terminalSummaryPresent events threadId
        = (events.reverse.findIdx? (isTerminalWorkerSummary · threadId)).isSome := by
      rw [List.findIdx?_isSome, List.any_reverse, terminalSummaryPresent]
    rw [hpresent, Bool.not_false, Bool.true_and]
    cases events.reverse.findIdx? (isTerminalWorkerSummary · threadId) with
    | none => simp
    | some k =>
      show ((event :: events.reverse).take (k + 1)).any isMasterOutput = _
      rw [List.take_succ_cons, List.any_cons, Option.isSome_some, Bool.and_true, Bool.or_comm]

/-- Of every thread, no more outputs stood before its summary than there are. -/
def FinalizeFold.Counted (fold : FinalizeFold) : Prop :=
  ∀ t mark, fold.summaryMarks.lookup t = some mark → mark ≤ fold.masterOutputs

/-- One event more: the marks stay below the count, and the master woke if it had, or
this is an output behind a summary. -/
theorem masterWoke_absorb {fold : FinalizeFold} (h : fold.Counted) (event : Event) :
    (fold.absorb event).Counted ∧ ∀ threadId, (fold.absorb event).masterWoke threadId
      = (!isTerminalWorkerSummary event threadId && (fold.masterWoke threadId
        || isMasterOutput event && fold.summaryPresent threadId)) := by
  unfold FinalizeFold.absorb
  cases hout : isMasterOutput event with
  | true =>
    have hnone : ∀ t, isTerminalWorkerSummary event t = false := fun t => by
      refine eq_false_of_ne_true fun hterminal => ?_
      rw [isMasterOutput_of_isTerminalWorkerSummary hterminal] at hout
      cases hout
    refine ⟨fun t mark hmark => Nat.le_succ_of_le (h t mark hmark), fun threadId => ?_⟩
    rw [hnone, Bool.not_false, Bool.true_and, Bool.true_and]
    unfold FinalizeFold.masterWoke FinalizeFold.summaryPresent
    simp only [if_true]
    cases hmark : fold.summaryMarks.lookup threadId with
    | none => rfl
    | some mark =>
      have hlt : mark < fold.masterOutputs + 1 := Nat.lt_succ_of_le (h threadId mark hmark)
      show decide (mark < fold.masterOutputs + 1) = (decide (mark < fold.masterOutputs) || true)
      rw [Bool.or_true, decide_eq_true hlt]
  | false =>
    have hnot : ∀ {threadId}, (event.get "thread_id").asText ≠ some threadId →
        isTerminalWorkerSummary event threadId = false := fun hne =>
      eq_false_of_ne_true fun hterminal => hne (threadId_of_isTerminalWorkerSummary hterminal)
    simp only [Bool.false_eq_true, if_false, Bool.false_and, Bool.or_false]
    split
    · next u hu =>
      split
      · next hterminal =>
        refine ⟨fun t mark hmark => ?_, fun threadId => ?_⟩
        · rw [List.lookup_cons] at hmark
          split at hmark
          · cases hmark
            exact Nat.le_refl _
          · exact h t mark hmark
        · unfold FinalizeFold.masterWoke
          rw [List.lookup_cons]
          by_cases hsame : threadId = u
          · subst hsame
            simp [hterminal]
          · rw [beq_false_of_ne hsame, hnot fun heq => hsame (Option.some.inj (heq.symm.trans hu))]
            rfl
      · next hother =>
        refine ⟨h, fun threadId => ?_⟩
        have hfalse : isTerminalWorkerSummary event threadId = false := by
          by_cases hsame : u = threadId
          · exact hsame ▸ eq_false_of_ne_true hother
          · exact hnot fun heq => hsame (Option.some.inj (hu.symm.trans heq))
        rw [hfalse]
        rfl
    · next hu =>
      refine ⟨h, fun threadId => ?_⟩
      rw [hnot fun heq => by rw [hu] at heq; cases heq]
      rfl

/-- **The fold and the scan agree on whether the master woke.** -/
theorem masterWoke_build (events : List Event) (threadId : String) :
    (FinalizeFold.build events).masterWoke threadId
      = masterWokeAfterSummary events threadId := by
  have key : (FinalizeFold.build events).Counted ∧ ∀ t,
      (FinalizeFold.build events).masterWoke t = masterWokeAfterSummary events t := by
    induction events using List.reverseRecOn with
    | nil => exact ⟨fun t mark hmark => (by cases hmark), fun t => rfl⟩
    | append_singleton events event ih =>
      have hbuild : FinalizeFold.build (events ++ [event])
          = (FinalizeFold.build events).absorb event := by
        rw [FinalizeFold.build, List.foldl_append]
        rfl
      obtain ⟨hcounted, hwoke⟩ := masterWoke_absorb ih.1 event
      rw [hbuild]
      refine ⟨hcounted, fun t => ?_⟩
      rw [hwoke, ih.2, summaryPresent_build, masterWokeAfterSummary_concat]
  exact key.2 threadId

/-- **A summary with a status that is final is one of its thread.** -/
theorem isTerminal_threadWorkerEvent (thread : ThreadMetadata) {status : String}
    (hstatus : status ≠ "running") (fullContent content : String) :
    isTerminalWorkerSummary (threadWorkerEvent thread status fullContent content) thread.id
      = true := by
  have htype : (threadWorkerEvent thread status fullContent content).get "type"
      = .str ET.workerSummary := rfl
  have hid : (threadWorkerEvent thread status fullContent content).get "thread_id"
      = .str thread.id := rfl
  have hstat : (threadWorkerEvent thread status fullContent content).get "status"
      = .str status := rfl
  rw [isTerminalWorkerSummary, Event.hasType, htype, hid, hstat]
  simp [Json.isText, hstatus]

theorem exitStatusLabel_ne (exitCode : ℤ) : exitStatusLabel exitCode ≠ "running" := by
  unfold exitStatusLabel
  split <;> decide

theorem isTerminal_completionEvent (thread : ThreadMetadata) (outcome : WorkerRunOutcome)
    (read : SummaryRead) :
    isTerminalWorkerSummary (completionEvent thread outcome read) thread.id = true := by
  refine isTerminal_threadWorkerEvent thread ?_ _ _
  split
  · decide
  · exact exitStatusLabel_ne _

theorem isTerminal_fallbackEvent (thread : ThreadMetadata) (outcome : WorkerRunOutcome)
    (error timestamp : String) :
    isTerminalWorkerSummary (fallbackEvent thread outcome error timestamp) thread.id = true :=
  isTerminal_threadWorkerEvent thread (exitStatusLabel_ne _) _ _

/-! ## Types that cannot be looked up

The outputs of the master are a set of types, and a type that is a list or a dict cannot be looked
up in it. The fold looks up the type of every event, the scans only those behind a summary. -/

/-- An event's type can be looked up. -/
def Event.Hashable (event : Event) : Prop := (event.get "type").asKey.isSome = true

instance (event : Event) : Decidable event.Hashable := inferInstanceAs (Decidable (_ = true))

/-- `event.get("type") in _MASTER_OUTPUT_TYPES`; nothing where it raises. -/
def typeInOutputs (event : Event) : Option Bool :=
  (event.get "type").asKey.map fun _ => isMasterOutput event

/-- `absorb`; nothing where it raises. -/
def FinalizeFold.tryAbsorb (fold : FinalizeFold) (event : Event) : Option FinalizeFold :=
  (typeInOutputs event).map fun _ => fold.absorb event

/-- The fold of an event file that is fed to it in segments: the first is what the file held when
it was loaded, the others what was appended. -/
def FinalizeFold.feed (segments : List (List Event)) : Option FinalizeFold :=
  segments.foldlM (fun fold segment => segment.foldlM FinalizeFold.tryAbsorb fold) {}

/-- The generator of `master_woke_after_summary`, asked for any output: it is asked no further
than the first. -/
def anyOutput : List Event → Option Bool
  | [] => some false
  | event :: rest => (typeInOutputs event).bind fun out => if out then some true else anyOutput rest

/-- `master_woke_after_summary`; nothing where it raises. -/
def masterWokeScan (chatEvents : List Event) (threadId : String) : Option Bool :=
  match chatEvents.reverse.findIdx? (isTerminalWorkerSummary · threadId) with
  | none => some false
  | some k => anyOutput (chatEvents.reverse.take k).reverse

theorem typeInOutputs_of_hashable {event : Event} (h : event.Hashable) :
    typeInOutputs event = some (isMasterOutput event) := by
  obtain ⟨key, hkey⟩ := Option.isSome_iff_exists.mp h
  rw [typeInOutputs, hkey]
  rfl

theorem typeInOutputs_eq_none {event : Event} (h : ¬ event.Hashable) :
    typeInOutputs event = none := by
  rw [typeInOutputs, Option.map_eq_none_iff, ← Option.not_isSome_iff_eq_none]
  exact h

theorem anyOutput_of_hashable {events : List Event} (h : ∀ event ∈ events, event.Hashable) :
    anyOutput events = some (events.any isMasterOutput) := by
  induction events with
  | nil => rfl
  | cons event rest ih =>
    rw [anyOutput, typeInOutputs_of_hashable (h event List.mem_cons_self), Option.bind_some,
      List.any_cons, ih fun e he => h e (List.mem_cons_of_mem _ he)]
    cases isMasterOutput event <;> rfl

theorem masterWokeScan_of_hashable {events : List Event} (h : ∀ event ∈ events, event.Hashable)
    (threadId : String) :
    masterWokeScan events threadId = some (masterWokeAfterSummary events threadId) := by
  unfold masterWokeScan masterWokeAfterSummary
  split
  · rfl
  · next k hk =>
    rw [anyOutput_of_hashable fun event he => h event
      (List.mem_reverse.mp (List.mem_of_mem_take (List.mem_reverse.mp he))), List.any_reverse]

theorem FinalizeFold.feed_eq (segments : List (List Event)) :
    feed segments = segments.flatten.foldlM tryAbsorb {} := by
  unfold feed
  generalize ({} : FinalizeFold) = fold
  induction segments generalizing fold with
  | nil => rfl
  | cons segment segments ih =>
    rw [List.foldlM_cons, List.flatten_cons, List.foldlM_append]
    exact congrArg _ (funext ih)

/-- **The fold is built** exactly where each type can be looked up. -/
theorem FinalizeFold.foldlM_tryAbsorb (fold : FinalizeFold) (events : List Event) :
    (∀ event ∈ events, event.Hashable) ∧
        events.foldlM tryAbsorb fold = some (events.foldl absorb fold)
      ∨ (∃ event ∈ events, ¬ event.Hashable) ∧ events.foldlM tryAbsorb fold = none := by
  induction events generalizing fold with
  | nil => exact .inl ⟨fun _ h => absurd h List.not_mem_nil, rfl⟩
  | cons event events ih =>
    rw [List.foldlM_cons, List.foldl_cons]
    by_cases h : event.Hashable
    · have hstep : fold.tryAbsorb event = some (fold.absorb event) := by
        rw [tryAbsorb, typeInOutputs_of_hashable h]
        rfl
      rw [hstep]
      rcases ih (fold.absorb event) with ⟨hall, heq⟩ | ⟨⟨e, he, hbad⟩, heq⟩
      · exact .inl ⟨List.forall_mem_cons.mpr ⟨h, hall⟩, heq⟩
      · exact .inr ⟨⟨e, List.mem_cons_of_mem _ he, hbad⟩, heq⟩
    · have hstep : fold.tryAbsorb event = none := by
        rw [tryAbsorb, typeInOutputs_eq_none h]
        rfl
      rw [hstep]
      exact .inr ⟨⟨event, List.mem_cons_self, h⟩, rfl⟩

/-- **The fold answers as the scans do**, of every thread and however the events are cut into the
segments it is fed with. -/
def FoldAnswers (events : List Event) : Prop :=
  ∀ segments : List (List Event), segments.flatten = events → ∃ fold,
    FinalizeFold.feed segments = some fold ∧ ∀ threadId,
      fold.summaryPresent threadId = terminalSummaryPresent events threadId ∧
        some (fold.masterWoke threadId) = masterWokeScan events threadId

/-- **Exactly when the fold answers as the scans do**: no event has a list or a dict for its
type. -/
theorem fold_answers_iff (events : List Event) :
    FoldAnswers events ↔ ∀ event ∈ events, event.Hashable := by
  constructor
  · intro h
    obtain ⟨fold, hfeed, -⟩ := h [events] List.flatten_singleton
    rw [FinalizeFold.feed_eq, List.flatten_singleton] at hfeed
    rcases FinalizeFold.foldlM_tryAbsorb {} events with ⟨hall, -⟩ | ⟨-, hnone⟩
    · exact hall
    · rw [hnone] at hfeed
      cases hfeed
  · rintro hall segments rfl
    rcases FinalizeFold.foldlM_tryAbsorb {} segments.flatten with ⟨-, hsome⟩ | ⟨⟨e, he, hbad⟩, -⟩
    · refine ⟨FinalizeFold.build segments.flatten, ?_, fun threadId => ?_⟩
      · rw [FinalizeFold.feed_eq, hsome]
        rfl
      · rw [masterWokeScan_of_hashable hall, summaryPresent_build, masterWoke_build]
        exact ⟨rfl, rfl⟩
    · exact absurd (hall e he) hbad

/-- **An event whose type is a list**: the scans pass over it, and the fold raises. -/
theorem fold_raises_on_list_type :
    ¬ FoldAnswers [[("type", .arr [])]]
      ∧ FinalizeFold.feed [[[("type", .arr [])]]] = none
      ∧ terminalSummaryPresent [[("type", .arr [])]] "a" = false
      ∧ masterWokeScan [[("type", .arr [])]] "a" = some false := by
  refine ⟨fun h => ?_, rfl, rfl, rfl⟩
  obtain ⟨fold, hfeed, -⟩ := h [[[("type", .arr [])]]] rfl
  cases hfeed
