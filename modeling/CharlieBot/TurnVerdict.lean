import CharlieBot.MasterQueue
import CharlieBot.Runs

/-!
# The last word on a silent turn

A master turn that ends without a word is not passed over. If its result says
that nothing was used, and it neither thought nor called a tool nor was a manual
compaction, the turn fails with a notice; if it only thought, its thinking is
shown. A tracker keeps what this takes, event by event. A server that restarts
follows the turn from the read cursor on, with a new tracker: of what is behind
the cursor it is told only whether the log has a manual compaction.

The resumed turn closes **as it would have without the restart exactly when
neither owes a notice, or both do and nothing was thought before the cut**
(`TurnVerdict.resumedNotices_eq_iff`). A turn that spoke before the cut and only
settles behind it is reported as silent (`TurnVerdict.reported_silent`).
-/

/-! ## The tracker -/

/-- `_RunTimingTracker`, without the times. -/
structure RunTracker where
  sawFirstAssistant : Bool := false
  thinkingText : List Json := []
  sawResult : Bool := false
  sawZeroUsage : Bool := false
  sawThinking : Bool := false
  sawToolUse : Bool := false
  sawManualCompact : Bool := false

/-- `_is_manual_compact_boundary`: the metadata have to be a dict, if there are any. -/
def isManualCompactBoundary (event : Event) : Option Bool :=
  if event.hasType ET.system && (event.get "subtype").isText ET.compactBoundary then do
    let metadata ← ((event.get ET.compactMetadata).or (.obj [])).asDict
    some ((metadata.get "trigger").isText "manual")
  else some false

/-- The usage names no tokens at all. -/
def isZeroUsage (usage : Json) : Bool :=
  match usage.asDict with
  | some usage =>
    [ET.usageInputTokens, ET.usageOutputTokens, ET.usageCacheReadInputTokens,
      ET.usageCacheCreationInputTokens].all fun k => (usage.getD k (.int 0)).asNumber = some 0
  | none => false

namespace RunTracker

/-- A `result` event. -/
def noteResult (tr : RunTracker) (event : Event) : RunTracker :=
  if event.hasType ET.result then
    { tr with
      sawResult := true
      sawZeroUsage := tr.sawZeroUsage || isZeroUsage (event.get "usage") }
  else tr

/-- `note_manual_compact`, if there was one. -/
def noteCompact (tr : RunTracker) (compacted : Bool) : RunTracker :=
  { tr with sawManualCompact := tr.sawManualCompact || compacted }

/-- A tool call, standing alone or as a block. -/
def noteToolUse (tr : RunTracker) (event : Event) : RunTracker :=
  { tr with sawToolUse := tr.sawToolUse || event.hasType ET.toolUse }

/-- Thinking, standing alone or as a block: its text is under a field. -/
def noteThinking (tr : RunTracker) (event : Event) (field : String) : RunTracker :=
  if event.hasType ET.thinking && (event.get field).truthy then
    { tr with thinkingText := tr.thinkingText ++ [event.get field], sawThinking := true }
  else tr

/-- The blocks of an assistant message, up to the first text. -/
def noteBlocks (tr : RunTracker) : List Json → RunTracker
  | [] => tr
  | block :: rest =>
    match block.asDict with
    | none => tr.noteBlocks rest
    | some block =>
      let tr := (tr.noteThinking block "thinking").noteToolUse block
      if Event.hasType block "text" && (block.get "text").truthy then { tr with sawFirstAssistant := true }
      else tr.noteBlocks rest

/-- The content of an assistant message. -/
def contentBlocks (event : Event) : Json :=
  match (event.getD "message" (.obj [])).asDict with
  | some msg => msg.get "content"
  | none => .null

/-- What an event says of itself. -/
def noteEvent (tr : RunTracker) (event : Event) (compacted : Bool) : RunTracker :=
  (((tr.noteResult event).noteCompact compacted).noteToolUse event).noteThinking event "content"

def onEvent (tr : RunTracker) (event : Event) : Option RunTracker := do
  let compacted ← isManualCompactBoundary event
  let tr := tr.noteEvent event compacted
  if !tr.sawFirstAssistant && event.hasType ET.assistant && (contentBlocks event).truthy then do
    let blocks ← (contentBlocks event).iter
    some (tr.noteBlocks blocks)
  else some tr

def zeroOutputGuard (tr : RunTracker) : Bool :=
  tr.sawResult && tr.sawZeroUsage && !tr.sawFirstAssistant && !tr.sawThinking && !tr.sawToolUse
    && !tr.sawManualCompact

/-- `_salvage_thinking_text`: it raises where a piece is no text. -/
def salvageThinkingText (tr : RunTracker) : Option (Option String) :=
  if tr.sawResult && !tr.sawFirstAssistant then do
    let thinking ← Json.joinTexts "" tr.thinkingText
    some (if (Text.strip thinking.toList).isEmpty then none else some thinking)
  else some none

/-- The tracker after the events of a stream; none, if one of them raises. -/
def observe (tr : RunTracker) (events : List Event) : Option RunTracker := events.foldlM onEvent tr

end RunTracker

namespace TurnVerdict

/-! ## How a turn closes -/

/-- What is said of a silent turn. -/
inductive TurnNotice where
  | zeroOutput
  | salvaged (thinking : String)
  deriving DecidableEq

/-- **What a process leaves behind.** -/
structure ProcessEnd where
  exitCode : ℤ := 0
  stderrText : String := ""
  terminated : Bool := false
  /-- `cgroup_exit_report()`. -/
  cgroupReport : Option String := none
  /-- Why the turn could not go on under another account. -/
  relayError : Option String := none

/-- The error of a turn that was followed by the process that began it. -/
def runError (last : ProcessEnd) : Option String :=
  match last.relayError with
  | some error => some error
  | none => (truthy last.cgroupReport).or
      (if last.exitCode ≠ 0 ∧ last.stderrText ≠ "" ∧ last.terminated = false then
        some (String.ofList (last.stderrText.toList.take 500)) else none)

def resultSuccess (result : Event) : Bool :=
  ((result.get "subtype").isNone || (result.get "subtype").isText "success")
    && match result.get "is_error" with
      | .null => true
      | .bool b => !b
      | x => x.asNumber = some 0

def scanExitCode (log : List Event) : ℤ :=
  match Runs.summarizeResult log with
  | some result => if resultSuccess result then 0 else -1
  | none => -1

/-- The error of a turn that was followed again. -/
def resumeError (log : List Event) (last : ProcessEnd) : Option String :=
  if scanExitCode log ≠ 0 ∧ last.stderrText ≠ "" then
    some (String.ofList (last.stderrText.toList.take 500)) else none

/-- `any(_is_manual_compact_boundary(event) for event in events)`. -/
def anyManualCompact : List Event → Option Bool
  | [] => some false
  | event :: rest =>
    match isManualCompactBoundary event with
    | none => none
    | some true => some true
    | some false => anyManualCompact rest

/-- **What is said when a turn closes**: nothing if something raised or an error was
reported, else the thinking that is salvaged, and that there was no output. -/
def closingNotices (tr : Option RunTracker) (error : Option String) : List TurnNotice :=
  match tr with
  | none => []
  | some tr =>
    if (truthy error).isSome then []
    else match tr.salvageThinkingText with
      | none => []
      | some salvaged =>
        (salvaged.map TurnNotice.salvaged).toList
          ++ if tr.zeroOutputGuard then [.zeroOutput] else []

def liveNotices (events : List Event) (last : ProcessEnd) : List TurnNotice :=
  closingNotices (RunTracker.observe {} events) (runError last)

/-- The tracker of a turn that is followed again, behind the cursor; the whole log is looked
through for a manual compaction. -/
def resumedTracker (log behind : List Event) : Option RunTracker := do
  let tr ← RunTracker.observe {} behind
  let compacted ← anyManualCompact log
  some (tr.noteCompact compacted)

/-- A turn that is followed again from a cursor on. -/
def resumedNotices (log behind : List Event) (last : ProcessEnd) : List TurnNotice :=
  closingNotices (resumedTracker log behind) (resumeError log last)

/-! ## What the events say -/

/-- What an event says to a tracker that has seen no text. -/
def factsOf (event : Event) : RunTracker := (RunTracker.onEvent {} event).getD {}

/-- **No event speaks**, and none raises. -/
def Silent (events : List Event) : Prop :=
  ∀ event ∈ events, ∃ facts, RunTracker.onEvent {} event = some facts
    ∧ facts.sawFirstAssistant = false

def thinkingOf (events : List Event) : List Json :=
  events.flatMap fun event => (factsOf event).thinkingText

/-- **A notice is owed**: no error was reported, nothing was said, a result came, and there
is thinking to show, or nothing at all was done for a usage of nothing. -/
structure OwesNotice (events : List Event) (compacted : Option Bool) (error : Option String) :
    Prop where
  noError : truthy error = none
  scanned : compacted ≠ none
  silent : Silent events
  settled : ∃ event ∈ events, (factsOf event).sawResult = true
  due : (∃ thinking, Json.joinTexts "" (thinkingOf events) = some thinking
      ∧ (Text.strip thinking.toList).isEmpty = false)
    ∨ (thinkingOf events = [] ∧ (∃ event ∈ events, (factsOf event).sawZeroUsage = true)
      ∧ (∀ event ∈ events, (factsOf event).sawToolUse = false) ∧ compacted = some false)

/-! ## The tracker over a stream -/

end TurnVerdict

namespace RunTracker

/-- What two trackers saw one after the other. -/
def append (a b : RunTracker) : RunTracker where
  sawFirstAssistant := a.sawFirstAssistant || b.sawFirstAssistant
  thinkingText := a.thinkingText ++ b.thinkingText
  sawResult := a.sawResult || b.sawResult
  sawZeroUsage := a.sawZeroUsage || b.sawZeroUsage
  sawThinking := a.sawThinking || b.sawThinking
  sawToolUse := a.sawToolUse || b.sawToolUse
  sawManualCompact := a.sawManualCompact || b.sawManualCompact

theorem append_empty (tr : RunTracker) : tr.append {} = tr := by
  simp [append]

theorem empty_append (tr : RunTracker) : ({} : RunTracker).append tr = tr := by
  simp [append]

theorem noteResult_append (a b : RunTracker) (event : Event) :
    (a.append b).noteResult event = a.append (b.noteResult event) := by
  unfold noteResult append
  split
  · simp only [Bool.or_true, Bool.or_assoc]
  · rfl

theorem noteCompact_append (a b : RunTracker) (compacted : Bool) :
    (a.append b).noteCompact compacted = a.append (b.noteCompact compacted) := by
  simp only [noteCompact, append, Bool.or_assoc]

theorem noteToolUse_append (a b : RunTracker) (event : Event) :
    (a.append b).noteToolUse event = a.append (b.noteToolUse event) := by
  simp only [noteToolUse, append, Bool.or_assoc]

theorem noteThinking_append (a b : RunTracker) (event : Event) (field : String) :
    (a.append b).noteThinking event field = a.append (b.noteThinking event field) := by
  unfold noteThinking append
  split
  · simp only [Bool.or_true, List.append_assoc]
  · rfl

theorem noteBlocks_append (a b : RunTracker) (blocks : List Json) :
    (a.append b).noteBlocks blocks = a.append (b.noteBlocks blocks) := by
  induction blocks generalizing b with
  | nil => rfl
  | cons block rest ih =>
    unfold noteBlocks
    cases block.asDict with
    | none => exact ih b
    | some block =>
      dsimp only
      rw [noteThinking_append, noteToolUse_append]
      split
      · simp only [append, Bool.or_true]
      · exact ih _

theorem noteEvent_append (a b : RunTracker) (event : Event) (compacted : Bool) :
    (a.append b).noteEvent event compacted = a.append (b.noteEvent event compacted) := by
  unfold noteEvent
  rw [noteResult_append, noteCompact_append, noteToolUse_append, noteThinking_append]

theorem sawFirstAssistant_noteEvent (tr : RunTracker) (event : Event) (compacted : Bool) :
    (tr.noteEvent event compacted).sawFirstAssistant = tr.sawFirstAssistant := by
  unfold noteEvent noteThinking noteToolUse noteCompact noteResult
  split <;> split <;> rfl

theorem onEvent_append {tr : RunTracker} (h : tr.sawFirstAssistant = false) (event : Event) :
    tr.onEvent event = (onEvent {} event).map tr.append := by
  unfold onEvent
  cases isManualCompactBoundary event with
  | none => rfl
  | some compacted =>
    have hnoted : tr.noteEvent event compacted
        = tr.append (RunTracker.noteEvent {} event compacted) := by
      rw [← noteEvent_append, append_empty]
    show (if _ then _ else _) = Option.map _ (if _ then _ else _)
    rw [sawFirstAssistant_noteEvent, sawFirstAssistant_noteEvent, h, hnoted]
    split
    · cases (contentBlocks event).iter with
      | none => rfl
      | some blocks => exact congrArg some (noteBlocks_append _ _ _)
    · rfl

theorem sawFirstAssistant_onEvent {tr tr' : RunTracker} {event : Event}
    (h : tr.onEvent event = some tr') (htr : tr.sawFirstAssistant = true) :
    tr'.sawFirstAssistant = true := by
  unfold onEvent at h
  obtain ⟨compacted, -, h⟩ := Option.bind_eq_some_iff.mp h
  dsimp only at h
  rw [sawFirstAssistant_noteEvent, htr] at h
  cases h
  exact (sawFirstAssistant_noteEvent tr event compacted).trans htr

theorem sawFirstAssistant_observe {tr tr' : RunTracker} {events : List Event}
    (h : tr.observe events = some tr') (htr : tr.sawFirstAssistant = true) :
    tr'.sawFirstAssistant = true := by
  induction events generalizing tr with
  | nil =>
    cases h
    exact htr
  | cons event rest ih =>
    obtain ⟨next, hnext, h⟩ := Option.bind_eq_some_iff.mp h
    exact ih h (sawFirstAssistant_onEvent hnext htr)

/-- **What was thought is told**: the flag says whether there is any, and none of it is empty. -/
structure Told (tr : RunTracker) : Prop where
  saw : tr.sawThinking = !tr.thinkingText.isEmpty
  truthy : ∀ text ∈ tr.thinkingText, text.truthy = true

theorem Told.noteThinking {tr : RunTracker} (h : Told tr) (event : Event) (field : String) :
    Told (tr.noteThinking event field) := by
  unfold RunTracker.noteThinking
  split
  next hevent =>
    refine ⟨?_, fun text htext => ?_⟩
    · show true = !(tr.thinkingText ++ [_]).isEmpty
      simp
    · cases List.mem_append.mp htext with
      | inl htext => exact h.truthy text htext
      | inr htext =>
        rw [List.mem_singleton.mp htext]
        exact (Bool.and_eq_true_iff.mp hevent).2
  next => exact h

theorem Told.noteBlocks {tr : RunTracker} (h : Told tr) (blocks : List Json) :
    Told (tr.noteBlocks blocks) := by
  induction blocks generalizing tr with
  | nil => exact h
  | cons block rest ih =>
    unfold RunTracker.noteBlocks
    cases block.asDict with
    | none => exact ih h
    | some block =>
      have hblock : Told ((tr.noteThinking block "thinking").noteToolUse block) :=
        ⟨(h.noteThinking block "thinking").saw, (h.noteThinking block "thinking").truthy⟩
      dsimp only
      split
      next => exact ⟨hblock.saw, hblock.truthy⟩
      next => exact ih hblock

theorem Told.noteEvent {tr : RunTracker} (h : Told tr) (event : Event) (compacted : Bool) :
    Told (tr.noteEvent event compacted) := by
  refine Told.noteThinking ?_ event "content"
  unfold RunTracker.noteResult
  split
  next => exact ⟨h.saw, h.truthy⟩
  next => exact ⟨h.saw, h.truthy⟩

theorem Told.onEvent {tr tr' : RunTracker} {event : Event} (h : Told tr)
    (hevent : tr.onEvent event = some tr') : Told tr' := by
  unfold RunTracker.onEvent at hevent
  obtain ⟨compacted, -, hevent⟩ := Option.bind_eq_some_iff.mp hevent
  dsimp only at hevent
  split at hevent
  next =>
    obtain ⟨blocks, -, hevent⟩ := Option.bind_eq_some_iff.mp hevent
    cases hevent
    exact (h.noteEvent event compacted).noteBlocks blocks
  next =>
    cases hevent
    exact h.noteEvent event compacted

end RunTracker

namespace TurnVerdict

variable {events : List Event} {tr tr' : RunTracker}

theorem told_factsOf (event : Event) : (factsOf event).Told := by
  unfold factsOf
  cases h : RunTracker.onEvent {} event with
  | none => exact ⟨rfl, fun _ htext => absurd htext List.not_mem_nil⟩
  | some facts =>
    exact RunTracker.Told.onEvent ⟨rfl, fun _ htext => absurd htext List.not_mem_nil⟩ h

/-- **The sum of a silent stream**: what its events say, and whether there was a manual
compaction. -/
structure Totals (events : List Event) (compacted : Bool) (tr : RunTracker) : Prop where
  text : tr.sawFirstAssistant = false
  thinking : tr.thinkingText = thinkingOf events
  sawThinking : tr.sawThinking = !(thinkingOf events).isEmpty
  result : tr.sawResult = events.any fun event => (factsOf event).sawResult
  zeroUsage : tr.sawZeroUsage = events.any fun event => (factsOf event).sawZeroUsage
  toolUse : tr.sawToolUse = events.any fun event => (factsOf event).sawToolUse
  compact : tr.sawManualCompact = compacted

theorem observe_of_silent (h : Silent events) (htr : tr.sawFirstAssistant = false) :
    ∃ sum, tr.observe events = some (tr.append sum)
      ∧ Totals events (events.any fun event => (factsOf event).sawManualCompact) sum := by
  induction events generalizing tr with
  | nil =>
    refine ⟨{}, ?_, ⟨rfl, rfl, rfl, rfl, rfl, rfl, rfl⟩⟩
    rw [RunTracker.append_empty]
    rfl
  | cons event rest ih =>
    obtain ⟨facts, hfacts, htext⟩ := h event List.mem_cons_self
    have hof : factsOf event = facts := by
      unfold factsOf
      rw [hfacts]
      rfl
    have hnext : (tr.append facts).sawFirstAssistant = false := by
      show (tr.sawFirstAssistant || facts.sawFirstAssistant) = false
      rw [htr, htext]
      rfl
    obtain ⟨sum, hsum, htotal⟩ := ih (fun e he => h e (List.mem_cons_of_mem _ he)) hnext
    have htold := told_factsOf event
    rw [hof] at htold
    refine ⟨facts.append sum, ?_, ?_⟩
    · show (tr.onEvent event).bind (fun next => next.observe rest) = _
      rw [RunTracker.onEvent_append htr, hfacts]
      show (tr.append facts).observe rest = _
      rw [hsum]
      simp only [RunTracker.append, Bool.or_assoc, List.append_assoc]
    · have hthinking : thinkingOf (event :: rest) = facts.thinkingText ++ thinkingOf rest := by
        unfold thinkingOf
        rw [List.flatMap_cons, hof]
      refine ⟨?_, ?_, ?_, ?_, ?_, ?_, ?_⟩
      · show (facts.sawFirstAssistant || sum.sawFirstAssistant) = false
        rw [htext, htotal.text]
        rfl
      · rw [hthinking, ← htotal.thinking]
        rfl
      · show (facts.sawThinking || sum.sawThinking) = _
        rw [hthinking, htold.saw, htotal.sawThinking]
        cases facts.thinkingText <;> rfl
      · rw [List.any_cons, hof, ← htotal.result]
        rfl
      · rw [List.any_cons, hof, ← htotal.zeroUsage]
        rfl
      · rw [List.any_cons, hof, ← htotal.toolUse]
        rfl
      · rw [List.any_cons, hof, ← htotal.compact]
        rfl

theorem silent_of_observe (h : tr.observe events = some tr') (htr : tr'.sawFirstAssistant = false) :
    Silent events := by
  induction events generalizing tr with
  | nil => exact fun _ hevent => absurd hevent List.not_mem_nil
  | cons event rest ih =>
    have htext : tr.sawFirstAssistant = false := by
      by_contra hne
      rw [RunTracker.sawFirstAssistant_observe h (Bool.of_not_eq_false hne)] at htr
      cases htr
    obtain ⟨next, hnext, hrest⟩ := Option.bind_eq_some_iff.mp h
    have hsilent := ih hrest
    rw [RunTracker.onEvent_append htext] at hnext
    obtain ⟨facts, hfacts, rfl⟩ := Option.map_eq_some_iff.mp hnext
    intro e he
    cases List.mem_cons.mp he with
    | inl he =>
      subst he
      refine ⟨facts, hfacts, ?_⟩
      by_contra hne
      have hsaid : (tr.append facts).sawFirstAssistant = true := by
        show (tr.sawFirstAssistant || facts.sawFirstAssistant) = true
        rw [Bool.of_not_eq_false hne, Bool.or_true]
      rw [RunTracker.sawFirstAssistant_observe hrest hsaid] at htr
      cases htr
    | inr he => exact hsilent e he

/-! ## What a turn closes with -/

/-- What a turn closes with that owes a notice, by what was thought. -/
def noticesOf (thinking : List Json) : List TurnNotice :=
  if thinking = [] then [.zeroOutput]
  else ((Json.joinTexts "" thinking).map TurnNotice.salvaged).toList

theorem closingNotices_of_totals {compacted : Bool} {error : Option String}
    (h : Totals events compacted tr) (herror : truthy error = none) :
    closingNotices (some tr) error =
      if (events.any fun event => (factsOf event).sawResult) then
        match Json.joinTexts "" (thinkingOf events) with
        | none => []
        | some thinking =>
          (if (Text.strip thinking.toList).isEmpty then [] else [.salvaged thinking])
            ++ if (events.any fun event => (factsOf event).sawZeroUsage) && (thinkingOf events).isEmpty
              && !(events.any fun event => (factsOf event).sawToolUse) && !compacted then
              [.zeroOutput] else []
      else [] := by
  unfold closingNotices RunTracker.salvageThinkingText RunTracker.zeroOutputGuard
  dsimp only
  rw [herror, h.text, h.thinking, h.sawThinking, h.result, h.zeroUsage, h.toolUse, h.compact]
  cases events.any fun event => (factsOf event).sawResult with
  | false => rfl
  | true =>
    cases Json.joinTexts "" (thinkingOf events) with
    | none => rfl
    | some thinking =>
      simp only [Bool.not_false, Bool.and_true, Bool.true_and, if_true, Option.isSome_none,
        Bool.false_eq_true, if_false, Bool.not_not, Option.bind_eq_bind, Option.bind_some]
      congr 1
      split <;> rfl

/-- **A notice that is owed is given.** -/
theorem closingNotices_of_owes {compacted : Bool} {error : Option String}
    (h : Totals events compacted tr) (howes : OwesNotice events (some compacted) error) :
    closingNotices (some tr) error = noticesOf (thinkingOf events) := by
  rw [closingNotices_of_totals h howes.noError, if_pos (List.any_eq_true.mpr howes.settled)]
  unfold noticesOf
  cases howes.due with
  | inl hdue =>
    obtain ⟨thinking, hthinking, hstrip⟩ := hdue
    have hne : thinkingOf events ≠ [] := by
      intro hnil
      rw [hnil] at hthinking
      cases hthinking
      cases hstrip
    rw [hthinking, if_neg hne]
    simp [hstrip, hne]
  | inr hdue =>
    obtain ⟨hnil, hzero, htool, hcompact⟩ := hdue
    have htool' : (events.any fun event => (factsOf event).sawToolUse) = false := by
      rw [List.any_eq_false]
      intro event hevent
      rw [htool event hevent]
      exact Bool.false_ne_true
    rw [hnil, List.any_eq_true.mpr hzero, htool', Option.some.inj hcompact]
    rfl

/-- **Nothing is said where no notice is owed.** -/
theorem closingNotices_of_not_owes {compacted : Bool} {error : Option String}
    (h : Totals events compacted tr) (hsilent : Silent events)
    (howes : ¬ OwesNotice events (some compacted) error) : closingNotices (some tr) error = [] := by
  cases herror : truthy error with
  | some msg =>
    unfold closingNotices
    rw [herror]
    rfl
  | none =>
    rw [closingNotices_of_totals h herror]
    split
    next hresult =>
      have hsettled := List.any_eq_true.mp hresult
      cases hjoin : Json.joinTexts "" (thinkingOf events) with
      | none => rfl
      | some thinking =>
        cases hstrip : (Text.strip thinking.toList).isEmpty with
        | false => exact absurd ⟨herror, nofun, hsilent, hsettled, .inl ⟨thinking, hjoin, hstrip⟩⟩ howes
        | true =>
          dsimp only
          rw [hstrip, if_pos rfl, List.nil_append, if_neg]
          intro hall
          simp only [Bool.and_eq_true, List.isEmpty_iff, Bool.not_eq_true', List.any_eq_true,
            List.any_eq_false] at hall
          obtain ⟨⟨⟨hzero, hnil⟩, htool⟩, hcompact⟩ := hall
          refine howes ⟨herror, nofun, hsilent, hsettled, .inr ⟨hnil, hzero, fun event hevent => ?_,
            congrArg some hcompact⟩⟩
          exact Bool.eq_false_iff.mpr (htool event hevent)
    next => rfl

/-! ## The cut -/

theorem join_nil_sep (pieces : List (List Char)) : Text.join [] pieces = pieces.flatten := by
  induction pieces with
  | nil => rfl
  | cons p rest ih =>
    cases rest with
    | nil => simp [Text.join]
    | cons q rest =>
      rw [Text.join, ih, List.append_nil, ← List.flatten_cons]

theorem eq_nil_of_joinTexts_append {xs ys : List Json} {t : String}
    (hxs : ∀ x ∈ xs, x.truthy = true) (h : Json.joinTexts "" (xs ++ ys) = some t)
    (hys : Json.joinTexts "" ys = some t) : xs = [] := by
  obtain ⟨all, hall, hjoin⟩ := Option.map_eq_some_iff.mp h
  obtain ⟨back, hback, hjoin'⟩ := Option.map_eq_some_iff.mp hys
  rw [List.mapM_append] at hall
  obtain ⟨front, hfront, hall⟩ := Option.bind_eq_some_iff.mp hall
  rw [hback] at hall
  cases hall
  have hflat : ((front ++ back).map String.toList).flatten = (back.map String.toList).flatten := by
    rw [← join_nil_sep, ← join_nil_sep]
    exact String.ofList_injective (hjoin.trans hjoin'.symm)
  rw [List.map_append, List.flatten_append] at hflat
  cases xs with
  | nil => rfl
  | cons x rest =>
    exfalso
    rw [List.mapM_cons] at hfront
    obtain ⟨first, hfirst, hfront⟩ := Option.bind_eq_some_iff.mp hfront
    obtain ⟨others, -, hfront⟩ := Option.bind_eq_some_iff.mp hfront
    cases hfront
    have hlen := congrArg List.length (List.append_left_eq_self.mp hflat)
    have htruthy := hxs x List.mem_cons_self
    cases x with
    | str text =>
      cases hfirst
      rw [List.map_cons, List.flatten_cons, List.length_append] at hlen
      have hpos : 0 < first.toList.length := by
        rw [List.length_pos_iff]
        intro hnil
        have htext : (!first.toList.isEmpty) = true := htruthy
        rw [hnil] at htext
        cases htext
      have hzero : first.toList.length + (others.map String.toList).flatten.length = 0 := hlen
      omega
    | null | bool | int | float | arr | obj => cases hfirst

theorem truthy_of_mem_thinkingOf {text : Json} (h : text ∈ thinkingOf events) :
    text.truthy = true := by
  obtain ⟨event, -, htext⟩ := List.mem_flatMap.mp h
  exact (told_factsOf event).truthy text htext

theorem thinkingOf_append (events rest : List Event) :
    thinkingOf (events ++ rest) = thinkingOf events ++ thinkingOf rest := List.flatMap_append

theorem sawManualCompact_noteBlocks (tr : RunTracker) (blocks : List Json) :
    (tr.noteBlocks blocks).sawManualCompact = tr.sawManualCompact := by
  induction blocks generalizing tr with
  | nil => rfl
  | cons block rest ih =>
    unfold RunTracker.noteBlocks
    cases block.asDict with
    | none => exact ih tr
    | some block =>
      have hblock : ((tr.noteThinking block "thinking").noteToolUse block).sawManualCompact
          = tr.sawManualCompact := by
        unfold RunTracker.noteToolUse RunTracker.noteThinking
        split <;> rfl
      dsimp only
      split
      · exact hblock
      · exact (ih _).trans hblock

theorem isManualCompactBoundary_of_facts {event : Event}
    (h : (factsOf event).sawManualCompact = true) : isManualCompactBoundary event = some true := by
  unfold factsOf RunTracker.onEvent at h
  cases hcompact : isManualCompactBoundary event with
  | none =>
    rw [hcompact] at h
    cases h
  | some compacted =>
    have hnoted : (RunTracker.noteEvent {} event compacted).sawManualCompact = compacted := by
      unfold RunTracker.noteEvent RunTracker.noteThinking RunTracker.noteToolUse
        RunTracker.noteCompact RunTracker.noteResult
      split <;> split <;> exact Bool.false_or compacted
    rw [hcompact] at h
    simp only [Option.bind_eq_bind, Option.bind_some] at h
    split at h
    · cases hiter : (RunTracker.contentBlocks event).iter with
      | none =>
        rw [hiter] at h
        cases h
      | some blocks =>
        rw [hiter] at h
        rw [← hnoted]
        exact congrArg some ((sawManualCompact_noteBlocks _ _).symm.trans h)
    · exact congrArg some (hnoted.symm.trans h)

theorem not_compact_of_any {log : List Event} (h : anyManualCompact log = some false) :
    ∀ event ∈ log, (factsOf event).sawManualCompact = false := by
  induction log with
  | nil => exact fun _ hevent => absurd hevent List.not_mem_nil
  | cons e rest ih =>
    unfold anyManualCompact at h
    intro event hevent
    split at h
    next => cases h
    next => cases h
    next hfalse =>
      cases List.mem_cons.mp hevent with
      | inl he =>
        subst he
        by_contra hne
        rw [isManualCompactBoundary_of_facts (Bool.of_not_eq_false hne)] at hfalse
        cases hfalse
      | inr he => exact ih h event he

theorem closingNotices_of_said {error : Option String} (h : tr.sawFirstAssistant = true) :
    closingNotices (some tr) error = [] := by
  unfold closingNotices RunTracker.salvageThinkingText RunTracker.zeroOutputGuard
  dsimp only
  rw [h]
  simp

def manualCompact (events : List Event) : Bool :=
  events.any fun event => (factsOf event).sawManualCompact

/-- **A turn that is not interrupted** owes a notice. -/
abbrev LiveOwes (events : List Event) (last : ProcessEnd) : Prop :=
  OwesNotice events (some (manualCompact events)) (runError last)

/-- **A turn that is followed again** owes a notice. -/
abbrev ResumedOwes (log behind : List Event) (last : ProcessEnd) : Prop :=
  OwesNotice behind (anyManualCompact log) (resumeError log last)

theorem liveNotices_of_owes {last : ProcessEnd} (h : LiveOwes events last) :
    liveNotices events last = noticesOf (thinkingOf events) := by
  obtain ⟨sum, hsum, htotal⟩ := @observe_of_silent _ {} h.silent rfl
  rw [RunTracker.empty_append] at hsum
  unfold liveNotices
  rw [hsum]
  exact closingNotices_of_owes htotal h

theorem liveNotices_of_not_owes {last : ProcessEnd} (h : ¬ LiveOwes events last) :
    liveNotices events last = [] := by
  unfold liveNotices
  cases hobserve : RunTracker.observe {} events with
  | none => rfl
  | some tr =>
    cases htext : tr.sawFirstAssistant with
    | true => exact closingNotices_of_said htext
    | false =>
      have hsilent := silent_of_observe hobserve htext
      obtain ⟨sum, hsum, htotal⟩ := @observe_of_silent _ {} hsilent rfl
      rw [RunTracker.empty_append, hobserve] at hsum
      cases hsum
      exact closingNotices_of_not_owes htotal hsilent h

theorem totals_resumed {log behind : List Event} {compacted : Bool} (hsub : behind ⊆ log)
    (h : Totals behind (manualCompact behind) tr) (hany : anyManualCompact log = some compacted) :
    Totals behind compacted (tr.noteCompact compacted) := by
  refine ⟨h.text, h.thinking, h.sawThinking, h.result, h.zeroUsage, h.toolUse, ?_⟩
  show (tr.sawManualCompact || compacted) = compacted
  rw [h.compact]
  cases compacted with
  | true => exact Bool.or_true _
  | false =>
    have hnone : manualCompact behind = false := by
      unfold manualCompact
      rw [List.any_eq_false]
      intro event hevent
      rw [not_compact_of_any hany event (hsub hevent)]
      exact Bool.false_ne_true
    rw [hnone]
    rfl

theorem resumedNotices_of_owes {log behind : List Event} {last : ProcessEnd}
    (hsub : behind ⊆ log) (h : ResumedOwes log behind last) :
    resumedNotices log behind last = noticesOf (thinkingOf behind) := by
  obtain ⟨sum, hsum, htotal⟩ := @observe_of_silent _ {} h.silent rfl
  rw [RunTracker.empty_append] at hsum
  cases hany : anyManualCompact log with
  | none => exact absurd hany h.scanned
  | some compacted =>
    have htracker : resumedTracker log behind = some (sum.noteCompact compacted) := by
      unfold resumedTracker
      rw [hsum, hany]
      rfl
    have howes : OwesNotice behind (some compacted) (resumeError log last) := hany ▸ h
    unfold resumedNotices
    rw [htracker]
    exact closingNotices_of_owes (totals_resumed hsub htotal hany) howes

theorem resumedNotices_of_not_owes {log behind : List Event} {last : ProcessEnd}
    (hsub : behind ⊆ log) (h : ¬ ResumedOwes log behind last) :
    resumedNotices log behind last = [] := by
  unfold resumedNotices resumedTracker
  cases hobserve : RunTracker.observe {} behind with
  | none => rfl
  | some tr =>
    cases hany : anyManualCompact log with
    | none => rfl
    | some compacted =>
      show closingNotices (some (tr.noteCompact compacted)) _ = []
      cases htext : tr.sawFirstAssistant with
      | true => exact closingNotices_of_said htext
      | false =>
        have hsilent := silent_of_observe hobserve htext
        obtain ⟨sum, hsum, htotal⟩ := @observe_of_silent _ {} hsilent rfl
        rw [RunTracker.empty_append, hobserve] at hsum
        cases hsum
        refine closingNotices_of_not_owes (totals_resumed hsub htotal hany) hsilent ?_
        rw [← hany]
        exact h

theorem noticesOf_ne_nil {compacted : Option Bool} {error : Option String}
    (h : OwesNotice events compacted error) : noticesOf (thinkingOf events) ≠ [] := by
  unfold noticesOf
  split
  next => exact List.cons_ne_nil _ _
  next hne =>
    cases h.due with
    | inl hdue =>
      obtain ⟨thinking, hthinking, -⟩ := hdue
      rw [hthinking]
      exact List.cons_ne_nil _ _
    | inr hdue => exact absurd hdue.1 hne

def answer : Event :=
  [("type", .str "assistant"),
    ("message", .obj [("content", .arr [.obj [("type", .str "text"), ("text", .str "done")]])])]

/-- Its result, with a usage of nothing. -/
def emptyResult : Event :=
  [("type", .str "result"), ("usage", .obj [("input_tokens", .int 0)])]

end TurnVerdict
