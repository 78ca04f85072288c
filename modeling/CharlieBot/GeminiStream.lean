import CharlieBot.GeminiTranslator

/-!
# What a Gemini stream comes to

The assistant of a Gemini stream speaks in pieces, calls tools and is given their
results. Of what the translator passes on four things are asked: the texts join to
what was said; what was said stands before the translation of the next event that is
no message; every call and every result is passed on once, in order; and a result
names the call it belongs to and no other.

The buffer makes the first two true of everything but two places. What is gathered
when the stream ends is passed on by nobody, and an `init` does not ask for it. A
result whose status is neither `success` nor `error` is passed over, and what a
call is known by behind the translator is the name of its tool, what a result names is
the id of its call. These are all: the four hold if and only if none of this occurs
(`conserved_iff`).
-/

namespace Gemini

/-! ## What is said -/

/-- The text of a piece of an answer; other events have none. -/
def contentOf (ev : Event) : String :=
  if ev.ofType "message" && (ev.getD "role" (.str "")).isText "assistant" then
    ((ev.getD "content" (.str "")).asText).getD ""
  else ""

/-- What the assistant says. -/
def said (events : List Event) : String := String.join (events.map contentOf)

/-- An event of the format: the content of an answer is a text, the numbers of a result
are a dict. -/
def StreamEvent (ev : Event) : Prop :=
  (ev.ofType "message" && (ev.getD "role" (.str "")).isText "assistant" →
    (ev.getD "content" (.str "")).asText.isSome = true)
  ∧ (ev.ofType "result" → (ev.getDict "stats").isSome = true)

instance (ev : Event) : Decidable (StreamEvent ev) := by unfold StreamEvent; infer_instance

/-- Whether an event is about a tool. -/
def isTool (ev : Event) : Bool := ev.ofType "tool_use" || ev.ofType "tool_result"

def blockText : Json → String
  | .obj block => ((Dict.get block "text").asText).getD ""
  | _ => ""

/-- The text of a text event; other events have none. -/
def textOf (out : Event) : String :=
  if out.ofType ET.assistant then
    match out.get "message" with
    | .obj message =>
      match Dict.get message "content" with
      | .arr blocks => String.join (blocks.map blockText)
      | _ => ""
    | _ => ""
  else ""

def told (out : List Event) : String := String.join (out.map textOf)

/-- What is passed on of a stream. -/
def emitted (events : List Event) : List Event := (translator.follow {} events).1

/-- What an event is translated to, the text before it apart. -/
def ownEvents (ev : Event) : List Event :=
  match move ev with
  | some (.keep out) => out
  | some (.flush _ events) => events
  | _ => []

/-- The translation of a call or of a result; what failed is told by its error. -/
def toolTranslation (ev : Event) : Event :=
  if ev.ofType "tool_use" then
    makeToolUseEvent (ev.getD "tool_name" (.str "")) (ev.getD "parameters" (.obj []))
  else
    let output := ev.getD "output" (.str "")
    let error := ev.getD "error" (.obj [])
    let message := match error.asDict with
      | some fields => fields.getD "message" (.str error.toText)
      | none => .str error.toText
    makeToolResultEvent (ev.getD "tool_id" (.str ""))
      (if (ev.getD "status" (.str "")).isText "error" then message else output)

/-! ## What is claimed -/

/-- **A stream is told as it is.** -/
structure Conserved (events : List Event) : Prop where
  texts : told (emitted events) = said events
  /-- What was said stands before the translation of the next event that is no message. -/
  ordered : ∀ before ev after, events = before ++ ev :: after →
    ev.ofType "message" = false → ownEvents ev ≠ [] →
    ∃ front, emitted (before ++ [ev]) = front ++ ownEvents ev ∧ told front = said before
  /-- Every call and every result is passed on once, in order. -/
  tools : (emitted events).filter isTool = (events.filter isTool).map toolTranslation
  /-- A result names the call it belongs to, and no other before it. -/
  named : ∀ before call mid result after, events = before ++ call :: mid ++ result :: after →
    call.ofType "tool_use" = true → result.ofType "tool_result" = true →
    ((toolTranslation call).get "name" = (toolTranslation result).get "tool_name"
      ↔ call.getD "tool_id" (.str "") = result.getD "tool_id" (.str ""))

/-- A result whose status is one of the two there are. -/
def KnownStatus (ev : Event) : Prop :=
  ev.ofType "tool_result" = true → (ev.getD "status" (.str "")).isText "success" = true
    ∨ (ev.getD "status" (.str "")).isText "error" = true

instance (ev : Event) : Decidable (KnownStatus ev) := by unfold KnownStatus; infer_instance

/-- The condition on a stream. -/
structure Plain (events : List Event) : Prop where
  /-- It does not end within an answer. -/
  closed : textOpen events = false
  /-- No `init` comes within an answer. -/
  init : ∀ before ev after, events = before ++ ev :: after → ev.ofType "init" = true →
    textOpen before = false
  /-- A result has one of two statuses. -/
  statuses : ∀ ev ∈ events, KnownStatus ev
  /-- The id of a result is the name of the tools whose calls have it. -/
  ids : ∀ before call mid result after, events = before ++ call :: mid ++ result :: after →
    call.ofType "tool_use" = true → result.ofType "tool_result" = true →
    (call.getD "tool_name" (.str "") = result.getD "tool_id" (.str "")
      ↔ call.getD "tool_id" (.str "") = result.getD "tool_id" (.str ""))

/-! ## Texts -/

theorem told_append (xs ys : List Event) : told (xs ++ ys) = told xs ++ told ys := by
  rw [told, List.map_append, String.join_append]
  rfl

theorem said_concat (events : List Event) (ev : Event) :
    said (events ++ [ev]) = said events ++ contentOf ev := by
  rw [said, List.map_append, String.join_append]
  simp [said]

theorem textOf_makeTextEvent (text : String) : textOf (makeTextEvent (.str text)) = text := by
  show String.join [text] = text
  rw [String.join_cons, String.join_nil, String.append_empty]

theorem told_flushBuffer (s : GeminiState) : told (flushBuffer s).2 = s.textBuffer := by
  rw [flushBuffer_snd]
  split
  next hempty => exact hempty.symm
  · simp [told, textOf_makeTextEvent]

/-! ## What an event is translated to -/

theorem ofType_of_ofType {ev : Event} {t u : String} (h : ev.ofType t = true) (hne : t ≠ u) :
    ev.ofType u = false := Json.isText_of_isText h hne

inductive Moves (ev : Event) : Option BufferMove → Prop
  | init (kind : ev.ofType "init" = true) :
    Moves ev (some (.keep [[("session_id", ev.getD "session_id" (.str ""))]]))
  | user (kind : ev.ofType "message" = true)
    (role : (ev.getD "role" (.str "")).isText "assistant" = false) : Moves ev (some (.keep []))
  | gather (kind : ev.ofType "message" = true) (content : String) (htold : contentOf ev = content) :
    Moves ev (some (.gather content))
  | answer (kind : ev.ofType "message" = true) (content : String) (htold : contentOf ev = content) :
    Moves ev (some (.flush content []))
  | toolUse (kind : ev.ofType "tool_use" = true) :
    Moves ev (some (.flush "" [toolTranslation ev]))
  | toolResult (kind : ev.ofType "tool_result" = true) :
    Moves ev (some (.flush "" (toolResultEvents ev)))
  | error (kind : ev.ofType "error" = true) :
    Moves ev (some (.flush "" [makeErrorEvent (ev.getD "message" (.str ""))]))
  | result (kind : ev.ofType "result" = true) (input output cached : Json) :
    Moves ev (some (.flush "" [makeResultEvent input output cached (.int 0)]))
  | other (tool : isTool ev = false) (htold : contentOf ev = "") : Moves ev (some (.flush "" []))
  | raises (h : ¬ StreamEvent ev) : Moves ev none

theorem moves_move (ev : Event) : Moves ev (move ev) := by
  unfold move
  dsimp only
  split
  next h => exact .init h
  · split
    next h =>
      obtain ⟨hmessage, huser⟩ := Bool.and_eq_true _ _ ▸ h
      exact .user hmessage (Json.isText_of_isText huser (by decide))
    · split
      next h =>
        cases hcontent : (ev.getD "content" (.str "")).asText with
        | none =>
          refine .raises fun hform => ?_
          have hsome := hform.1 h
          rw [hcontent] at hsome
          cases hsome
        | some content =>
          have htold : contentOf ev = content := by rw [contentOf, if_pos h, hcontent]; rfl
          rw [Option.map_some]
          split
          · exact .gather (Bool.and_eq_true _ _ ▸ h).1 content htold
          · exact .answer (Bool.and_eq_true _ _ ▸ h).1 content htold
      next hassistant =>
        split
        next h =>
          have htranslation : toolTranslation ev = makeToolUseEvent
              (ev.getD "tool_name" (.str "")) (ev.getD "parameters" (.obj [])) := if_pos h
          rw [← htranslation]
          exact .toolUse h
        next huse =>
          split
          next h => exact .toolResult h
          next hresult =>
            split
            next h => exact .error h
            · split
              next h =>
                cases hstats : ev.getDict "stats" with
                | none =>
                  refine .raises fun hform => ?_
                  have hsome := hform.2 h
                  rw [hstats] at hsome
                  cases hsome
                | some stats => exact .result h _ _ _
              · refine .other ?_ (if_neg hassistant)
                rw [isTool, Bool.or_eq_false_iff]
                exact ⟨Bool.eq_false_iff.mpr huse, Bool.eq_false_iff.mpr hresult⟩

theorem isTool_makeTextEvent (text : Json) : isTool (makeTextEvent text) = false := rfl

theorem told_toolResultEvents (ev : Event) : told (toolResultEvents ev) = "" := by
  unfold toolResultEvents
  dsimp only
  split
  · rfl
  · split
    · rfl
    · rfl

theorem told_ownEvents (ev : Event) : told (ownEvents ev) = "" := by
  have hmove := moves_move ev
  unfold ownEvents
  generalize move ev = m at hmove
  cases hmove with
  | toolUse kind =>
    show told [toolTranslation ev] = ""
    rw [toolTranslation, if_pos kind]
    rfl
  | toolResult kind => exact told_toolResultEvents ev
  | _ => rfl

/-- The text that is passed on before an event is translated. -/
def front (s : GeminiState) (ev : Event) : List Event :=
  match move ev with
  | some (.flush content _) => (flushBuffer ⟨s.textBuffer ++ content⟩).2
  | _ => []

def behind (s : GeminiState) (ev : Event) : GeminiState :=
  match move ev with
  | some m => (s.apply m).1
  | none => s

/-- **A step passes on the text, then the translation.** -/
theorem step_eq (s : GeminiState) {ev : Event} (h : StreamEvent ev) :
    translator.step s ev = some (behind s ev, front s ev ++ ownEvents ev) := by
  rw [machine_step, behind, front, ownEvents]
  have hmove := moves_move ev
  cases hcase : move ev with
  | none =>
    rw [hcase] at hmove
    cases hmove with
    | raises hraises => exact absurd h hraises
  | some m => cases m <;> rfl

theorem told_front (s : GeminiState) {ev : Event} (h : StreamEvent ev) :
    told (front s ev) ++ (behind s ev).textBuffer = s.textBuffer ++ contentOf ev := by
  have hmove := moves_move ev
  unfold front behind
  have hflush : ∀ (content : String) (events : List Event),
      told (flushBuffer ⟨s.textBuffer ++ content⟩).2
        ++ (s.apply (.flush content events)).1.textBuffer = s.textBuffer ++ content := by
    intro content events
    show _ ++ (flushBuffer ⟨s.textBuffer ++ content⟩).1.textBuffer = _
    rw [told_flushBuffer, textBuffer_flushBuffer, String.append_empty]
  have hsilent : ∀ t : String, ev.ofType t = true → t ≠ "message" → contentOf ev = "" := by
    intro t kind hne
    rw [contentOf, ofType_of_ofType kind hne]
    rfl
  generalize move ev = m at hmove
  cases hmove with
  | init kind => rw [hsilent _ kind (by decide)]; exact (String.append_empty).symm
  | user kind role =>
    rw [contentOf, role, Bool.and_false]
    exact (String.append_empty).symm
  | gather kind content htold => rw [htold]; exact String.empty_append
  | answer kind content htold => rw [htold]; exact hflush content []
  | toolUse kind => rw [hsilent _ kind (by decide)]; exact hflush "" _
  | toolResult kind => rw [hsilent _ kind (by decide)]; exact hflush "" _
  | error kind => rw [hsilent _ kind (by decide)]; exact hflush "" _
  | result kind input output cached => rw [hsilent _ kind (by decide)]; exact hflush "" _
  | other tool htold => rw [htold]; exact hflush "" _
  | raises hraises => exact absurd h hraises

theorem filter_front (s : GeminiState) (ev : Event) : (front s ev).filter isTool = [] := by
  unfold front
  split
  · rw [flushBuffer_snd]
    split
    · rfl
    · rfl
  · rfl

/-! ## What is passed on of a stream -/

/-- Where the translator stands behind a stream. -/
structure Told (events : List Event) (s : GeminiState) : Prop where
  run : translator.run {} events = some (s, emitted events)
  texts : told (emitted events) ++ s.textBuffer = said events
  tools : (emitted events).filter isTool = (events.flatMap ownEvents).filter isTool

theorem emitted_eq {events : List Event} {s : GeminiState} {out : List Event}
    (h : translator.run {} events = some (s, out)) : emitted events = out := by
  rw [emitted, Machine.follow_of_run h]

theorem Told.concat {events : List Event} {s : GeminiState} (h : Told events s) {ev : Event}
    (hev : StreamEvent ev) :
    Told (events ++ [ev]) (behind s ev)
      ∧ emitted (events ++ [ev]) = emitted events ++ (front s ev ++ ownEvents ev) := by
  have hrun : translator.run {} (events ++ [ev])
      = some (behind s ev, emitted events ++ (front s ev ++ ownEvents ev)) :=
    Machine.run_append_of_eq_some h.run (by rw [Machine.run_singleton, step_eq s hev])
  have hemitted := emitted_eq hrun
  refine ⟨⟨by rw [hemitted, hrun], ?_, ?_⟩, hemitted⟩
  · calc told (emitted (events ++ [ev])) ++ (behind s ev).textBuffer
        = told (emitted events) ++ (told (front s ev) ++ (behind s ev).textBuffer) := by
          rw [hemitted, told_append, told_append, told_ownEvents, String.append_empty,
            String.append_assoc]
      _ = told (emitted events) ++ s.textBuffer ++ contentOf ev := by
          rw [told_front s hev, String.append_assoc]
      _ = said (events ++ [ev]) := by rw [h.texts, said_concat]
  · rw [hemitted, List.filter_append, List.filter_append, filter_front, List.nil_append, h.tools,
      List.flatMap_append, List.filter_append, List.flatMap_singleton]

/-- **A stream is translated**: what was said is told or gathered. -/
theorem told_of_streamEvents {events : List Event} (h : ∀ ev ∈ events, StreamEvent ev) :
    ∃ s, Told events s := by
  induction events using List.reverseRecOn with
  | nil => exact ⟨{}, rfl, rfl, rfl⟩
  | append_singleton events ev ih =>
    obtain ⟨s, hs⟩ := ih fun ev hev => h ev (List.mem_append_left _ hev)
    exact ⟨_, (hs.concat (h ev (List.mem_append_right _ List.mem_cons_self))).1⟩

theorem toolResultEvents_eq {ev : Event} (kind : ev.ofType "tool_result" = true) :
    (toolResultEvents ev).filter isTool
      = if KnownStatus ev then [toolTranslation ev] else [] := by
  have huse : ¬ ev.ofType "tool_use" = true := by
    rw [ofType_of_ofType kind (by decide)]
    exact Bool.false_ne_true
  unfold toolResultEvents
  dsimp only
  by_cases hsuccess : (ev.getD "status" (.str "")).isText "success" = true
  · have hknown : KnownStatus ev := fun _ => .inl hsuccess
    rw [if_pos hsuccess, if_pos hknown, toolTranslation, if_neg huse,
      Json.isText_of_isText hsuccess (by decide)]
    rfl
  · rw [if_neg hsuccess]
    by_cases herror : (ev.getD "status" (.str "")).isText "error" = true
    · have hknown : KnownStatus ev := fun _ => .inr herror
      rw [if_pos herror, if_pos hknown, toolTranslation, if_neg huse, herror]
      rfl
    · rw [if_neg herror, if_neg fun h => (h kind).elim hsuccess herror]
      rfl

theorem filter_ownEvents {ev : Event} (h : StreamEvent ev) :
    (ownEvents ev).filter isTool
      = if isTool ev = true ∧ KnownStatus ev then [toolTranslation ev] else [] := by
  have hmove := moves_move ev
  have hnone : ∀ t : String, ev.ofType t = true → t ≠ "tool_use" → t ≠ "tool_result" →
      ¬ (isTool ev = true ∧ KnownStatus ev) := by
    intro t kind huse hresult htool
    rw [isTool, ofType_of_ofType kind huse, ofType_of_ofType kind hresult] at htool
    exact Bool.false_ne_true htool.1
  unfold ownEvents
  generalize move ev = m at hmove
  cases hmove with
  | init kind => rw [if_neg (hnone _ kind (by decide) (by decide))]; rfl
  | user kind role => rw [if_neg (hnone _ kind (by decide) (by decide))]; rfl
  | gather kind content htold => rw [if_neg (hnone _ kind (by decide) (by decide))]; rfl
  | answer kind content htold => rw [if_neg (hnone _ kind (by decide) (by decide))]; rfl
  | toolUse kind =>
    have hknown : KnownStatus ev := fun hresult => by
      rw [ofType_of_ofType kind (by decide)] at hresult
      cases hresult
    rw [if_pos ⟨by rw [isTool, kind, Bool.true_or], hknown⟩, toolTranslation, if_pos kind]
    rfl
  | toolResult kind =>
    show (toolResultEvents ev).filter isTool = _
    have htool : isTool ev = true := by rw [isTool, kind, Bool.or_true]
    rw [toolResultEvents_eq kind]
    simp only [htool, true_and]
  | error kind => rw [if_neg (hnone _ kind (by decide) (by decide))]; rfl
  | result kind input output cached =>
    rw [if_neg (hnone _ kind (by decide) (by decide))]
    rfl
  | other tool htold => rw [if_neg fun hboth => by rw [tool] at hboth; cases hboth.1]; rfl
  | raises hraises => exact absurd h hraises

/-! ## When the four hold -/

section Parts

variable {events : List Event}

theorem texts_iff (hform : ∀ ev ∈ events, StreamEvent ev) :
    told (emitted events) = said events ↔ textOpen events = false := by
  obtain ⟨s, hs⟩ := told_of_streamEvents hform
  rw [← textBuffer_of_run hs.run, ← hs.texts, eq_comm, String.append_eq_left_iff]

/-- **What comes before a translation** is all that was said, unless an `init` comes within
an answer. -/
theorem ordered_iff {before : List Event} (hform : ∀ ev ∈ before, StreamEvent ev) {ev : Event}
    (hev : StreamEvent ev) (hmessage : ev.ofType "message" = false) (hown : ownEvents ev ≠ []) :
    (∃ text, emitted (before ++ [ev]) = text ++ ownEvents ev ∧ told text = said before)
      ↔ (ev.ofType "init" = true → textOpen before = false) := by
  obtain ⟨s, hs⟩ := told_of_streamEvents hform
  have hunique : (∃ text, emitted (before ++ [ev]) = text ++ ownEvents ev ∧ told text = said before)
      ↔ told (emitted before) ++ told (front s ev) = said before := by
    rw [(hs.concat hev).2, ← List.append_assoc, ← told_append]
    constructor
    · rintro ⟨text, heq, htold⟩
      rw [List.append_cancel_right heq]
      exact htold
    · exact fun htold => ⟨_, rfl, htold⟩
  have hflush : ∀ events, move ev = some (.flush "" events) →
      told (emitted before) ++ told (front s ev) = said before := by
    intro events heq
    rw [front, heq]
    dsimp only
    rw [String.append_empty, told_flushBuffer, hs.texts]
  have hother : ∀ events t, move ev = some (.flush "" events) → ev.ofType t = true → t ≠ "init" →
      (told (emitted before) ++ told (front s ev) = said before
        ↔ (ev.ofType "init" = true → textOpen before = false)) := by
    intro events t heq kind hne
    refine iff_of_true (hflush events heq) fun hinit => ?_
    rw [ofType_of_ofType kind hne] at hinit
    cases hinit
  rw [hunique]
  have hmove := moves_move ev
  generalize hcase : move ev = m at hmove
  cases hmove with
  | init kind =>
    have hfront : told (front s ev) = "" := by
      rw [front, hcase]
      rfl
    rw [hfront, String.append_empty, texts_iff hform]
    exact ⟨fun h _ => h, fun h => h kind⟩
  | user kind role => exact absurd (hmessage ▸ kind) Bool.false_ne_true
  | gather kind content htold => exact absurd (hmessage ▸ kind) Bool.false_ne_true
  | answer kind content htold => exact absurd (hmessage ▸ kind) Bool.false_ne_true
  | toolUse kind => exact hother _ _ hcase kind (by decide)
  | toolResult kind => exact hother _ _ hcase kind (by decide)
  | error kind => exact hother _ _ hcase kind (by decide)
  | result kind input output cached => exact hother _ _ hcase kind (by decide)
  | other tool htold =>
    rw [ownEvents, hcase] at hown
    exact absurd rfl hown
  | raises hraises => exact absurd hev hraises

theorem tools_iff (hform : ∀ ev ∈ events, StreamEvent ev) :
    (emitted events).filter isTool = (events.filter isTool).map toolTranslation ↔
      ∀ ev ∈ events, KnownStatus ev := by
  obtain ⟨s, hs⟩ := told_of_streamEvents hform
  have hknown : (events.flatMap ownEvents).filter isTool
      = ((events.filter isTool).filter fun ev => decide (KnownStatus ev)).map toolTranslation := by
    clear hs
    induction events with
    | nil => rfl
    | cons ev events ih =>
      have ih := ih fun ev hev => hform ev (List.mem_cons_of_mem _ hev)
      rw [List.flatMap_cons, List.filter_append, ih, filter_ownEvents (hform ev List.mem_cons_self)]
      by_cases htool : isTool ev = true
      · rw [List.filter_cons_of_pos htool]
        by_cases hstatus : KnownStatus ev
        · rw [if_pos ⟨htool, hstatus⟩, List.filter_cons_of_pos
            (p := fun ev => decide (KnownStatus ev)) (decide_eq_true hstatus)]
          rfl
        · rw [if_neg fun h => hstatus h.2, List.filter_cons_of_neg (by simpa using hstatus)]
          rfl
      · rw [List.filter_cons_of_neg htool, if_neg fun h => htool h.1]
        rfl
  have hall : (∀ ev ∈ events, KnownStatus ev) ↔ ∀ ev ∈ events.filter isTool,
      decide (KnownStatus ev) = true := by
    constructor
    · exact fun h ev hev => decide_eq_true (h ev (List.mem_filter.mp hev).1)
    · intro h ev hev kind
      have hmem : ev ∈ events.filter isTool :=
        List.mem_filter.mpr ⟨hev, by rw [isTool, kind, Bool.or_true]⟩
      exact of_decide_eq_true (h ev hmem) kind
  rw [hs.tools, hknown, hall, ← List.filter_eq_self]
  constructor
  · intro heq
    have hlength := congrArg List.length heq
    rw [List.length_map, List.length_map] at hlength
    exact List.filter_eq_self.mpr (List.length_filter_eq_length_iff.mp hlength)
  · intro heq
    rw [heq]

end Parts

/-! ## The main result -/

/-- **A stream is told as it is if and only if it is plain**: it does not end within an answer
and no `init` comes within one, every result has one of the two statuses, and what a call
is known by behind the translator is what the results that belong to it name. -/
theorem conserved_iff {events : List Event} (hform : ∀ ev ∈ events, StreamEvent ev) :
    Conserved events ↔ Plain events := by
  have hsplit : ∀ before ev after, events = before ++ ev :: after →
      (∀ x ∈ before, StreamEvent x) ∧ StreamEvent ev := by
    rintro before ev after rfl
    exact ⟨fun x hx => hform x (List.mem_append_left _ hx),
      hform ev (List.mem_append_right _ List.mem_cons_self)⟩
  constructor
  · intro h
    refine ⟨(texts_iff hform).mp h.texts, fun before ev after heq kind => ?_,
      (tools_iff hform).mp h.tools, fun before call mid result after heq hcall hresult => ?_⟩
    · obtain ⟨hbefore, hev⟩ := hsplit before ev after heq
      have hown : ownEvents ev ≠ [] := by
        rw [ownEvents, move]
        simp [kind]
      have hmessage := ofType_of_ofType kind (u := "message") (by decide)
      exact (ordered_iff hbefore hev hmessage hown).mp (h.ordered before ev after heq hmessage hown)
        kind
    · have hnamed := h.named before call mid result after heq hcall hresult
      rw [toolTranslation, if_pos hcall, toolTranslation, if_neg (by
        rw [ofType_of_ofType hresult (by decide)]; exact Bool.false_ne_true)] at hnamed
      exact hnamed
  · intro h
    refine ⟨(texts_iff hform).mpr h.closed, fun before ev after heq hmessage hown => ?_,
      (tools_iff hform).mpr h.statuses, fun before call mid result after heq hcall hresult => ?_⟩
    · obtain ⟨hbefore, hev⟩ := hsplit before ev after heq
      exact (ordered_iff hbefore hev hmessage hown).mpr (h.init before ev after heq)
    · have hids := h.ids before call mid result after heq hcall hresult
      rw [toolTranslation, if_pos hcall, toolTranslation, if_neg (by
        rw [ofType_of_ofType hresult (by decide)]; exact Bool.false_ne_true)]
      exact hids

/-! ## A stream, whole and cut off -/

/-- A piece of an answer. -/
def delta (text : String) : Event :=
  [("type", .str "message"), ("role", .str "assistant"), ("content", .str text),
    ("delta", .bool true)]

/-- A call, known by the name of its tool. -/
def call : Event :=
  [("type", .str "tool_use"), ("tool_name", .str "Bash"), ("tool_id", .str "Bash"),
    ("parameters", .obj [("command", .str "pwd")])]

def callResult : Event :=
  [("type", .str "tool_result"), ("tool_id", .str "Bash"), ("status", .str "success"),
    ("output", .str "/tmp")]

/-- An answer in two pieces, a call and its result, and the end. -/
def wholeStream : List Event :=
  [[("type", .str "init"), ("session_id", .str "sid")], delta "I ", delta "look.", call, callResult,
    [("type", .str "result"), ("stats", .obj [("input_tokens", .int 10)])]]

theorem plain_wholeStream : Plain wholeStream where
  closed := by decide
  init before ev after heq kind := by
    cases before with
    | nil => rfl
    | cons first before =>
      have hmem : ev ∈ wholeStream.tail := by
        rw [heq]
        exact List.mem_append_right _ List.mem_cons_self
      have hnone : ∀ x ∈ wholeStream.tail, x.ofType "init" = false := by decide
      rw [hnone ev hmem] at kind
      cases kind
  statuses := by decide
  ids before use mid result after heq huse hresult := by
    have hmem : use ∈ wholeStream ∧ result ∈ wholeStream := by simp [heq]
    have hids : ∀ x ∈ wholeStream, (x.ofType "tool_use" = true →
        x.getD "tool_name" (.str "") = .str "Bash" ∧ x.getD "tool_id" (.str "") = .str "Bash") := by
      intro x hx htype
      simp only [wholeStream, List.mem_cons, List.not_mem_nil, or_false] at hx
      rcases hx with rfl | rfl | rfl | rfl | rfl | rfl <;> first | exact ⟨rfl, rfl⟩ | cases htype
    obtain ⟨hname, hid⟩ := hids use hmem.1 huse
    rw [hname, hid]

theorem conserved_iff_wholeStream : Conserved wholeStream :=
  (conserved_iff (by decide)).mpr plain_wholeStream

/-- **A stream that is cut off within an answer**: what was said last is not told. -/
theorem not_conserved_cut : ¬ Conserved [delta "Hello"] := fun h =>
  absurd h.texts (by decide)

end Gemini
