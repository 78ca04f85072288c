import CharlieBot.BackendEvents
import CharlieBot.Lib.Resume
import Mathlib.Data.List.Induction

/-!
# The Gemini translator

Gemini writes its answer in deltas. The translator gathers their text in a
buffer and passes it on, in one piece, when something else comes: the end of
the message, a tool call, a result.

A translator that is started behind a delta has not got its text, and passes
on the rest of the piece alone. So it emits what the first one would have
emitted exactly when the text was passed on before the cursor, or nothing
behind the cursor asks for it (`resumes_iff`).
-/

namespace Gemini

structure GeminiState where
  /-- The text not yet passed on. -/
  textBuffer : String := ""

/-- `flush_buffer`: passes the text on, if there is one. -/
def flushBuffer (s : GeminiState) : GeminiState × List Event :=
  if s.textBuffer = "" then (s, []) else (⟨""⟩, [makeTextEvent (.str s.textBuffer)])

/-- The text, and some events behind it. -/
def flushThen (s : GeminiState) (events : List Event) : GeminiState × List Event :=
  ((flushBuffer s).1, (flushBuffer s).2 ++ events)

def toolResultEvents (ev : Event) : List Event :=
  let status := ev.getD "status" (.str "")
  if status.isText "success" then
    [makeToolResultEvent (ev.getD "tool_id" (.str "")) (ev.getD "output" (.str ""))]
  else if status.isText "error" then
    let error := ev.getD "error" (.obj [])
    let msg := match error.asDict with
      | some fields => fields.getD "message" (.str error.toText)
      | none => .str error.toText
    [makeToolResultEvent (ev.getD "tool_id" (.str "")) msg]
  else []

/-- `GeminiCliBackend.translate_event`. -/
def translateEvent (s : GeminiState) (ev : Event) : Option (GeminiState × List Event) :=
  let role := ev.getD "role" (.str "")
  if ev.ofType "init" then
    some (s, [[("session_id", ev.getD "session_id" (.str ""))]])
  else if ev.ofType "message" && role.isText "user" then some (s, [])
  else if ev.ofType "message" && role.isText "assistant" then do
    let content ← (ev.getD "content" (.str "")).asText
    let gathered := ⟨s.textBuffer ++ content⟩
    if (ev.getD "delta" (.bool false)).truthy then some (gathered, [])
    else some (flushBuffer gathered)
  else if ev.ofType "tool_use" then
    some (flushThen s
      [makeToolUseEvent (ev.getD "tool_name" (.str "")) (ev.getD "parameters" (.obj []))])
  else if ev.ofType "tool_result" then some (flushThen s (toolResultEvents ev))
  else if ev.ofType "error" then
    some (flushThen s [makeErrorEvent (ev.getD "message" (.str ""))])
  else if ev.ofType "result" then do
    let stats ← ev.getDict "stats"
    some (flushThen s [makeResultEvent (stats.getD "input_tokens" (.int 0))
      (stats.getD "output_tokens" (.int 0)) (stats.getD "cached" (.int 0)) (.int 0)])
  else
    -- a message of another role is passed over like an event of an unknown type
    some (flushBuffer s)

def translator : Translator GeminiState := ⟨⟨translateEvent⟩, {}⟩

/-! ## What an event does to the buffer -/

inductive BufferMove where
  /-- It is passed over, or on. -/
  | keep (out : List Event)
  | gather (content : String)
  /-- Its text is gathered, and all of it is passed on with some events. -/
  | flush (content : String) (events : List Event)

/-- The move of an event; none where the translation fails. -/
def move (ev : Event) : Option BufferMove :=
  let role := ev.getD "role" (.str "")
  if ev.ofType "init" then some (.keep [[("session_id", ev.getD "session_id" (.str ""))]])
  else if ev.ofType "message" && role.isText "user" then some (.keep [])
  else if ev.ofType "message" && role.isText "assistant" then
    (ev.getD "content" (.str "")).asText.map fun content =>
      if (ev.getD "delta" (.bool false)).truthy then .gather content else .flush content []
  else if ev.ofType "tool_use" then
    some (.flush ""
      [makeToolUseEvent (ev.getD "tool_name" (.str "")) (ev.getD "parameters" (.obj []))])
  else if ev.ofType "tool_result" then some (.flush "" (toolResultEvents ev))
  else if ev.ofType "error" then
    some (.flush "" [makeErrorEvent (ev.getD "message" (.str ""))])
  else if ev.ofType "result" then
    (ev.getDict "stats").map fun stats =>
      .flush "" [makeResultEvent (stats.getD "input_tokens" (.int 0))
        (stats.getD "output_tokens" (.int 0)) (stats.getD "cached" (.int 0)) (.int 0)]
  else some (.flush "" [])

def GeminiState.apply (s : GeminiState) : BufferMove → GeminiState × List Event
  | .keep out => (s, out)
  | .gather content => (⟨s.textBuffer ++ content⟩, [])
  | .flush content events => flushThen ⟨s.textBuffer ++ content⟩ events

theorem translateEvent_eq (s : GeminiState) (ev : Event) :
    translateEvent s ev = (move ev).map s.apply := by
  have hflush : ∀ t : GeminiState, flushThen t [] = flushBuffer t := fun t => by
    rw [flushThen, List.append_nil]
  have hempty : (⟨s.textBuffer ++ ""⟩ : GeminiState) = s := by
    rw [String.append_empty]
  unfold translateEvent move
  dsimp only
  split
  · rfl
  · split
    · rfl
    · split
      · cases (ev.getD "content" (.str "")).asText with
        | none => rfl
        | some content =>
          simp only [Option.bind_eq_bind, Option.bind_some, Option.map_some]
          split
          · rfl
          · rw [GeminiState.apply, hflush]
      · split
        · rw [Option.map_some, GeminiState.apply, hempty]
        · split
          · rw [Option.map_some, GeminiState.apply, hempty]
          · split
            · rw [Option.map_some, GeminiState.apply, hempty]
            · split
              · cases ev.getDict "stats" with
                | none => rfl
                | some stats =>
                  simp only [Option.bind_eq_bind, Option.bind_some, Option.map_some]
                  rw [GeminiState.apply, hempty]
              · rw [Option.map_some, GeminiState.apply, hempty, hflush]

/-- Whether an event asks for the gathered text. -/
def flushes (ev : Event) : Bool :=
  match move ev with
  | some (.flush _ _) => true
  | _ => false

/-- Whether an event's text is gathered and stays. -/
def gathers (ev : Event) : Bool :=
  match move ev with
  | some (.gather content) => content ≠ ""
  | _ => false

/-- **Whether text was gathered and not passed on**: some event's text was, and
no event behind it asked for it. -/
def textOpen (events : List Event) : Bool :=
  events.foldl (fun isOpen ev => if flushes ev then false else isOpen || gathers ev) false

/-- The events up to the first that fails. -/
def translated (events : List Event) : List Event := events.takeWhile fun ev => (move ev).isSome

theorem machine_step (s : GeminiState) (ev : Event) :
    translator.step s ev = (move ev).map s.apply := translateEvent_eq s ev

theorem textBuffer_flushBuffer (s : GeminiState) : (flushBuffer s).1.textBuffer = "" := by
  unfold flushBuffer
  split
  · next h => exact h
  · rfl

theorem flushBuffer_snd (s : GeminiState) :
    (flushBuffer s).2
      = if s.textBuffer = "" then [] else [makeTextEvent (.str s.textBuffer)] := by
  unfold flushBuffer
  split <;> rfl

/-- **The buffer is empty unless text is open.** -/
theorem textBuffer_of_run {events : List Event} {s : GeminiState} {out : List Event}
    (h : translator.run {} events = some (s, out)) :
    s.textBuffer = "" ↔ textOpen events = false := by
  induction events using List.reverseRecOn generalizing s out with
  | nil =>
    cases h
    exact ⟨fun _ => rfl, fun _ => rfl⟩
  | append_singleton events ev ih =>
    obtain ⟨mid, out₁, out₂, hmid, hlast, -⟩ := Machine.run_append_eq_some h
    rw [Machine.run_cons, machine_step] at hlast
    have hfold : textOpen (events ++ [ev])
        = if flushes ev then false else textOpen events || gathers ev := by
      unfold textOpen
      rw [List.foldl_append]
      rfl
    have ih := ih hmid
    rw [hfold, flushes, gathers]
    cases hmove : move ev with
    | none =>
      rw [hmove] at hlast
      cases hlast
    | some m =>
      rw [hmove] at hlast
      cases hlast
      cases m with
      | keep out => simpa [GeminiState.apply] using ih
      | gather content => simp [GeminiState.apply, ih]
      | flush content events => simp [GeminiState.apply, flushThen, textBuffer_flushBuffer]

/-! ## A translator started behind the cursor -/

/-- The second buffer ends with the first. -/
def Misses (fresh whole : GeminiState) : Prop :=
  ∃ missed : String, whole.textBuffer = missed ++ fresh.textBuffer

theorem emitsNoMore : translator.EmitsNoMore Misses where
  fails := by
    intro s t ev _
    rw [machine_step, machine_step, Option.map_eq_none_iff, Option.map_eq_none_iff]
  keeps := by
    intro s t ev s' t' out out' hst hs ht
    obtain ⟨missed, hmissed⟩ := hst
    rw [machine_step] at hs ht
    cases hmove : move ev with
    | none =>
      rw [hmove] at hs
      cases hs
    | some m =>
      rw [hmove, Option.map_some] at hs ht
      cases m with
      | keep out =>
        cases hs
        cases ht
        exact ⟨⟨missed, hmissed⟩, Nat.le_refl _⟩
      | gather content =>
        cases hs
        cases ht
        exact ⟨⟨missed, by rw [hmissed, String.append_assoc]⟩, Nat.le_refl _⟩
      | flush content events =>
        cases hs
        cases ht
        refine ⟨⟨"", by rw [textBuffer_flushBuffer, textBuffer_flushBuffer]; rfl⟩, ?_⟩
        rw [flushBuffer_snd, flushBuffer_snd, List.length_append, List.length_append]
        refine Nat.add_le_add_right ?_ _
        dsimp only
        by_cases hempty : t.textBuffer ++ content = ""
        · have hfresh : s.textBuffer ++ content = "" := by
            rw [hmissed, String.append_assoc] at hempty
            exact (String.append_eq_empty_iff.mp hempty).2
          rw [if_pos hempty, if_pos hfresh]
        · rw [if_neg hempty]
          split
          · exact Nat.zero_le _
          · exact Nat.le_refl _

theorem stepsAgree_self (s : GeminiState) (events : List Event) :
    translator.StepsAgree s s events := by
  induction events generalizing s with
  | nil => trivial
  | cons ev events ih =>
    cases hs : translator.step s ev with
    | none => exact Machine.stepsAgree_cons_of_none hs events
    | some p => exact (Machine.stepsAgree_cons_of_some hs hs events).mpr ⟨rfl, ih p.1⟩

/-- **Where text is missed, the steps agree up to the first that asks for it.** -/
theorem stepsAgree_iff {s t : GeminiState} {missed : String} (hne : missed ≠ "")
    (hmissed : t.textBuffer = missed ++ s.textBuffer) (events : List Event) :
    translator.StepsAgree s t events ↔ ∀ ev ∈ translated events, flushes ev = false := by
  induction events generalizing s t with
  | nil => exact ⟨fun _ _ h => absurd h List.not_mem_nil, fun _ => trivial⟩
  | cons ev events ih =>
    cases hmove : move ev with
    | none =>
      have hnil : translated (ev :: events) = [] := by simp [translated, hmove]
      rw [hnil]
      refine ⟨fun _ _ h => absurd h List.not_mem_nil, fun _ => ?_⟩
      exact Machine.stepsAgree_cons_of_none (by rw [machine_step, hmove]; rfl) events
    | some m =>
      have hcons : translated (ev :: events) = ev :: translated events := by
        simp [translated, hmove]
      have hs : translator.step s ev = some (s.apply m) := by rw [machine_step, hmove]; rfl
      have ht : translator.step t ev = some (t.apply m) := by rw [machine_step, hmove]; rfl
      have hagree : translator.StepsAgree s t (ev :: events) ↔
          (s.apply m).2 = (t.apply m).2
            ∧ translator.StepsAgree (s.apply m).1 (t.apply m).1 events :=
        Machine.stepsAgree_cons_of_some hs ht events
      rw [hagree, hcons, List.forall_mem_cons, flushes, hmove]
      cases m with
      | keep out => simpa [GeminiState.apply] using ih hmissed
      | gather content =>
        have hmissed' : (t.apply (.gather content)).1.textBuffer
            = missed ++ (s.apply (.gather content)).1.textBuffer := by
          simp [GeminiState.apply, hmissed, String.append_assoc]
        simpa [GeminiState.apply] using ih hmissed'
      | flush content out =>
        -- the one text is longer than the other, and not empty
        refine ⟨fun ⟨hout, _⟩ => ?_, fun ⟨hflushes, _⟩ => (by cases hflushes)⟩
        simp only [GeminiState.apply, flushThen, flushBuffer_snd] at hout
        have hwhole : t.textBuffer ++ content ≠ "" := by
          rw [hmissed, String.append_assoc]
          exact fun h => hne (String.append_eq_empty_iff.mp h).1
        rw [if_neg hwhole] at hout
        have htext := List.append_cancel_right hout
        split at htext
        · cases htext
        · have heq : s.textBuffer ++ content = t.textBuffer ++ content := by
            simpa [makeTextEvent] using htext
          rw [hmissed, String.append_assoc] at heq
          have hlen := congrArg String.length heq
          simp only [String.length_append] at hlen
          have hpos : missed.length ≠ 0 := fun h => hne (String.length_eq_zero_iff.mp h)
          omega

/-- **When a fresh Gemini translator may go on** behind events that were
translated: no text is open, or none of the events to come asks for it. -/
theorem resumes_iff {before : List Event} {s : GeminiState} {out : List Event}
    (h : translator.run {} before = some (s, out)) (after : List Event) :
    (translator.follow s after).1 = (translator.follow {} after).1 ↔
      (textOpen before = true → ∀ ev ∈ translated after, flushes ev = false) := by
  have hmissed : s.textBuffer = s.textBuffer ++ ({} : GeminiState).textBuffer := by
    rw [String.append_empty]
  rw [eq_comm, emitsNoMore.follow_eq_iff ⟨_, hmissed⟩]
  by_cases hempty : s.textBuffer = ""
  · have hs : s = {} := by
      cases s
      exact congrArg GeminiState.mk hempty
    have hclosed := (textBuffer_of_run h).mp hempty
    rw [hs]
    refine ⟨fun _ hopen => ?_, fun _ => stepsAgree_self _ after⟩
    rw [hclosed] at hopen
    cases hopen
  · have hopen : textOpen before = true := by
      rw [textBuffer_of_run h, Bool.not_eq_false] at hempty
      exact hempty
    rw [stepsAgree_iff hempty hmissed]
    exact ⟨fun hagree _ => hagree, fun hagree => hagree hopen⟩

end Gemini
