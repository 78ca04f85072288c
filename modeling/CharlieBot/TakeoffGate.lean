import CharlieBot.EventTypes
import CharlieBot.Lib.Datetime
import CharlieBot.Lib.LruMap
import CharlieBot.Lib.PrefixFacts

/-!
# The takeoff gate

A delegation needs an authorisation out of the chat: the takeoff phrase in the last thing the user
said, or a pre-takeoff issued in the twelve hours before the check. The gate reads the events of
the session backwards for the two answers and keeps them in a memo with the list and the length
they cover, so that a later check reads only what was appended; a list that was replaced is
another list and is read again as a whole.

The answers of a list combine from those of its two halves (`backwardUserAnswers_append`), and
along every run of appends, replacements and checks the memo holds answers of a prefix
(`Inv.run`), so that a check with the memo is one full scan (`Inv.check`).

What the scan cannot do is convert every time. A stamp of the first hours of the year 1 with a zone
to the east of Greenwich, and the end of a window in the last twelve hours of the year 9999, are
moments no `datetime` has, and the conversion raises where the gate looks for a stamp that
is not valid. A chat in which such a stamp is the newest gets no delegation any more, whatever the
user says behind it (`not_allowed_of_takeoff`). Everywhere else the gate allows what is authorised
and nothing else (`allowed_iff_authorised_iff`).
-/

namespace Takeoff

open Moment (InRange)

/-! ## Times -/

/-- `at.astimezone(UTC)` of a time with a zone. -/
def astimezoneUtc (wall : Moment) (offset : ℤ) : Option Moment :=
  Moment.ofMicros (wall.micros - offset)

def preTakeoffWindow : ℤ := 12 * 60 * 60 * 1000000

/-! ## Messages -/

/-- What the standard library makes of a text: its case folded, and the time it spells. -/
structure Python where
  casefold : List Char → List Char
  fromisoformat : String → Option DateTime

def preTakeoffPhrase : List Char := "pre take off".toList

def takeoffPhrase : List Char := "take off".toList

def isRealUserMessage (event : Event) : Bool :=
  (event.get "type").isText ET.user && (event.get "content").asText.isSome

/-- `content.split()`. -/
def split (content : List Char) : List (List Char) :=
  (content.splitOnP Text.isSpace).filter (!·.isEmpty)

def normalizeTakeoffContent (py : Python) (content : String) : List Char :=
  Text.join [' '] (split (py.casefold content.toList))

/-- `_parse_pre_takeoff_timestamp`: no time where the text is none or spells none with a zone, and
nothing at all where the conversion raises. -/
def parsePreTakeoffTimestamp (py : Python) (event : Event) : Option (Option Moment) :=
  match event.get "timestamp" with
  | .str timestamp =>
    if timestamp.isEmpty then some none
    else
      match py.fromisoformat timestamp with
      | none => some none
      | some issuedAt =>
        match issuedAt.offset with
        | none => some none
        | some offset => (astimezoneUtc issuedAt.wall offset).map some
  | _ => some none

/-! ## The scan -/

/-- What a scan has found. -/
structure Answers where
  latestUserHasTakeoff : Bool := false
  latestPreTakeoffAt : Option Moment := none
  seenLatestUser : Bool := false
  deriving DecidableEq

/-- The body of the loop of `_backward_user_answers`; nothing where it raises, as on an event that
is no dict. -/
def scanEvent (py : Python) (answers : Answers) (event : Json) : Option Answers :=
  event.asDict.bind fun event =>
    if isRealUserMessage event then
      let normalized := normalizeTakeoffContent py ((event.get "content").asText.getD "")
      let answers :=
        if answers.seenLatestUser then answers
        else { answers with
          seenLatestUser := true, latestUserHasTakeoff := Text.contains takeoffPhrase normalized }
      if answers.latestPreTakeoffAt.isNone && Text.contains preTakeoffPhrase normalized then
        (parsePreTakeoffTimestamp py event).map fun issuedAt =>
          { answers with latestPreTakeoffAt := issuedAt }
      else some answers
    else some answers

def backwardUserAnswers (py : Python) (events : List Json) : Option Answers :=
  events.reverse.foldlM (scanEvent py) {}

/-! ## The memo -/

/-- What the memo keeps for a session. The list is named by its place in the heap, and a place
is not used again, as the entry pins its list. -/
structure GateEntry where
  events : ℕ
  covered : ℕ
  latestUserHasTakeoff : Bool
  latestPreTakeoffAt : Option Moment
  deriving DecidableEq

/-- The two answers over a list, and what is to be stored. -/
structure Settled where
  latestUserHasTakeoff : Bool
  latestPreTakeoffAt : Option Moment
  store : Option GateEntry

/-- `_settled_user_answers` over the list at a place. -/
def settledUserAnswers (py : Python) (memo : LruMap String GateEntry) (session : String)
    (list : ℕ) (events : List Json) : Option Settled :=
  match (memo.lookup session).filter (·.events = list) with
  | some cached =>
    let suffix := events.drop cached.covered
    if suffix.isEmpty then
      some ⟨cached.latestUserHasTakeoff, cached.latestPreTakeoffAt, none⟩
    else
      (backwardUserAnswers py suffix).map fun answers =>
        let hasTakeoff :=
          if answers.seenLatestUser then answers.latestUserHasTakeoff
          else cached.latestUserHasTakeoff
        let preTakeoffAt := answers.latestPreTakeoffAt.or cached.latestPreTakeoffAt
        ⟨hasTakeoff, preTakeoffAt,
          some ⟨list, cached.covered + suffix.length, hasTakeoff, preTakeoffAt⟩⟩
  | none =>
    (backwardUserAnswers py events).map fun answers =>
      ⟨answers.latestUserHasTakeoff, answers.latestPreTakeoffAt,
        some ⟨list, events.length, answers.latestUserHasTakeoff, answers.latestPreTakeoffAt⟩⟩

/-! ## The check -/

/-- How a check ends: it returns, it raises that the delegation is blocked, or something else
raises. -/
inductive Verdict
  | allowed
  | blocked
  | raised
  deriving DecidableEq

/-- The time of the check in UTC: the one that was passed, which needs a zone, or the clock's. -/
def effectiveNow (now : Option DateTime) (clock : Moment) : Option Moment :=
  match now with
  | none => some clock
  | some now => now.offset.bind (astimezoneUtc now.wall)

/-- Whether a pre-takeoff is active. The end of the window is computed only for one that has been
issued by now. -/
def preTakeoffActive (latestPreTakeoffAt : Option Moment) (now : Moment) : Option Bool :=
  match latestPreTakeoffAt with
  | none => some false
  | some issuedAt =>
    if issuedAt.micros ≤ now.micros then
      (Moment.ofMicros (issuedAt.micros + preTakeoffWindow)).map fun windowEnd =>
        decide (now.micros < windowEnd.micros)
    else some false

/-- The end of `check_takeoff_gate`, on the two answers. -/
def verdict (latestUserHasTakeoff : Bool) (latestPreTakeoffAt : Option Moment) (now : Moment) :
    Verdict :=
  match preTakeoffActive latestPreTakeoffAt now with
  | none => .raised
  | some active => if latestUserHasTakeoff || active then .allowed else .blocked

/-- The lists of events there are, the list each session has in the cache, the memo, and the
stores of the checks that have not landed. -/
structure World where
  heap : List (List Json) := []
  eventsCache : String → Option ℕ := fun _ => none
  memo : LruMap String GateEntry := { limit := 64 }
  storing : List (String × GateEntry) := []

/-- The events a session has: those of the list in the cache, or those of the file, parsed. -/
def World.eventsOf (w : World) (session : String) (disk : List Json) : List Json :=
  match w.eventsCache session with
  | some list => (w.heap[list]?).getD []
  | none => disk

/-- `load_chat_events_sync`, and the place of the list it returns. -/
def World.loadChatEvents (w : World) (session : String) (disk : List Json) : World × ℕ :=
  match w.eventsCache session with
  | some list => (w, list)
  | none =>
    ({ w with
      heap := w.heap ++ [disk]
      eventsCache := Function.update w.eventsCache session (some w.heap.length) }, w.heap.length)

/-- **`check_takeoff_gate`**, up to the store. -/
def World.check (py : Python) (w : World) (session : String) (disk : List Json)
    (now : Option DateTime) (clock : Moment) : World × Verdict :=
  match effectiveNow now clock with
  | none => (w, .raised)
  | some now =>
    let (w, list) := w.loadChatEvents session disk
    let settled := settledUserAnswers py w.memo session list ((w.heap[list]?).getD [])
    let w := { w with memo := w.memo.touch session }
    match settled with
    | none => (w, .raised)
    | some settled =>
      ({ w with storing := w.storing ++ settled.store.toList.map fun entry => (session, entry) },
        verdict settled.latestUserHasTakeoff settled.latestPreTakeoffAt now)

inductive Action
  /-- `save_chat_event`: the list in the cache grows in place. -/
  | save (session : String) (event : Event)
  /-- The list of a session leaves the cache; the next load makes another. -/
  | drop (session : String)
  /-- The events of a session are loaded, by whatever needs them. -/
  | load (session : String) (disk : List Json)
  /-- A check, up to its store. -/
  | check (session : String) (disk : List Json) (now : Option DateTime) (clock : Moment)
  /-- The store of a check lands. -/
  | store (i : ℕ)

def World.step (py : Python) (w : World) : Action → World
  | .save session event =>
    match w.eventsCache session with
    | some list => { w with heap := w.heap.modify list (· ++ [.obj event]) }
    | none => w
  | .drop session => { w with eventsCache := Function.update w.eventsCache session none }
  | .load session disk => (w.loadChatEvents session disk).1
  | .check session disk now clock => (w.check py session disk now clock).1
  | .store i =>
    match w.storing[i]? with
    | some (session, entry) =>
      { w with memo := w.memo.store session entry, storing := w.storing.eraseIdx i }
    | none => w

def World.run (py : Python) (w : World) (actions : List Action) : World :=
  actions.foldl (World.step py) w

/-! ## What the scan finds -/

/-- The text of a real user message. -/
def userText (event : Json) : Option String :=
  event.asDict.bind fun event =>
    if isRealUserMessage event then (event.get "content").asText else none

/-- Whether a text contains a phrase, case and white space apart. -/
def Bears (py : Python) (phrase : List Char) (text : String) : Prop :=
  Text.contains phrase (normalizeTakeoffContent py text) = true

instance (py : Python) (phrase : List Char) (text : String) : Decidable (Bears py phrase text) :=
  inferInstanceAs (Decidable (_ = true))

theorem decide_bears (py : Python) (phrase : List Char) (text : String) :
    decide (Bears py phrase text) = Text.contains phrase (normalizeTakeoffContent py text) := by
  by_cases h : Bears py phrase text
  · rw [decide_eq_true h]
    exact h.symm
  · rw [decide_eq_false h]
    exact (Bool.eq_false_iff.mpr h).symm

def zonedTime (py : Python) (event : Event) : Option ℤ :=
  (event.get "timestamp").asText.bind fun timestamp =>
    if timestamp.isEmpty then none
    else
      (py.fromisoformat timestamp).bind DateTime.utc?

/-- **The stamp of a pre-takeoff message** with a valid zoned timestamp. -/
def stampOf (py : Python) (event : Json) : Option ℤ :=
  (userText event).bind fun text =>
    if Bears py preTakeoffPhrase text then event.asDict.bind (zonedTime py) else none

/-- The last real user message. -/
def lastUserText (events : List Json) : Option String := (events.filterMap userText).getLast?

/-- The stamp of the last pre-takeoff message that has a valid one. -/
def newestStamp (py : Python) (events : List Json) : Option ℤ :=
  (events.filterMap (stampOf py)).getLast?

theorem lastUserText_append (older newer : List Json) :
    lastUserText (older ++ newer) = (lastUserText newer).or (lastUserText older) := by
  unfold lastUserText
  rw [List.filterMap_append, List.getLast?_append]

theorem newestStamp_append (py : Python) (older newer : List Json) :
    newestStamp py (older ++ newer) = (newestStamp py newer).or (newestStamp py older) := by
  unfold newestStamp
  rw [List.filterMap_append, List.getLast?_append]

theorem lastUserText_singleton (event : Json) : lastUserText [event] = userText event := by
  unfold lastUserText
  cases h : userText event <;> simp [h]

theorem newestStamp_singleton (py : Python) (event : Json) :
    newestStamp py [event] = stampOf py event := by
  unfold newestStamp
  cases h : stampOf py event <;> simp [h]

theorem lastUserText_cons (event : Json) (events : List Json) :
    lastUserText (event :: events) = (lastUserText events).or (userText event) := by
  rw [← List.singleton_append, lastUserText_append, lastUserText_singleton]

theorem newestStamp_cons (py : Python) (event : Json) (events : List Json) :
    newestStamp py (event :: events) = (newestStamp py events).or (stampOf py event) := by
  rw [← List.singleton_append, newestStamp_append, newestStamp_singleton]

theorem isSome_userText_of_stampOf {py : Python} {event : Json} {stamp : ℤ}
    (h : stampOf py event = some stamp) : (userText event).isSome := by
  unfold stampOf at h
  cases hu : userText event with
  | none =>
    rw [hu] at h
    cases h
  | some text => rfl

theorem isSome_lastUserText_of_newestStamp {py : Python} {events : List Json} {stamp : ℤ}
    (h : newestStamp py events = some stamp) : (lastUserText events).isSome := by
  induction events with
  | nil => cases h
  | cons event events ih =>
    rw [newestStamp_cons] at h
    rw [lastUserText_cons]
    cases hnew : newestStamp py events with
    | some stamp' =>
      obtain ⟨text, htext⟩ := Option.isSome_iff_exists.mp (ih (by rwa [hnew] at h ⊢))
      rw [htext]
      rfl
    | none =>
      rw [hnew] at h
      obtain ⟨text, htext⟩ := Option.isSome_iff_exists.mp (isSome_userText_of_stampOf h)
      rw [htext]
      cases lastUserText events <;> rfl

theorem parsePreTakeoffTimestamp_eq (py : Python) (event : Event) :
    parsePreTakeoffTimestamp py event
      = match zonedTime py event with
        | none => some none
        | some micros => (Moment.ofMicros micros).map some := by
  unfold parsePreTakeoffTimestamp zonedTime
  cases event.get "timestamp" with
  | str timestamp =>
    simp only [Json.asText, Option.bind_some]
    by_cases hempty : timestamp.isEmpty = true
    · rw [if_pos hempty, if_pos hempty]
    · rw [if_neg hempty, if_neg hempty]
      cases py.fromisoformat timestamp with
      | none => rfl
      | some issuedAt =>
        simp only [Option.bind_some]
        unfold DateTime.utc?
        cases issuedAt.offset with
        | none => rfl
        | some offset => rfl
  | null | bool | int | float | arr | obj => rfl

/-- What is known of the last message after a message before it. -/
def Answers.noteUser (answers : Answers) (hasTakeoff : Bool) : Answers :=
  if answers.seenLatestUser then answers
  else { answers with seenLatestUser := true, latestUserHasTakeoff := hasTakeoff }

@[simp] theorem Answers.noteUser_latestPreTakeoffAt (answers : Answers) (hasTakeoff : Bool) :
    (answers.noteUser hasTakeoff).latestPreTakeoffAt = answers.latestPreTakeoffAt := by
  unfold noteUser
  split <;> rfl

theorem scanEvent_eq (py : Python) (answers : Answers) (event : Json) :
    scanEvent py answers event
      = event.asDict.bind fun _ =>
        match userText event with
        | none => some answers
        | some text =>
          let noted := answers.noteUser (decide (Bears py takeoffPhrase text))
          match answers.latestPreTakeoffAt, stampOf py event with
          | none, some stamp =>
            (Moment.ofMicros stamp).map fun issuedAt =>
              { noted with latestPreTakeoffAt := some issuedAt }
          | _, _ => some noted := by
  unfold scanEvent stampOf userText
  cases event with
  | obj fields =>
    simp only [Json.asDict, Option.bind_some]
    by_cases hreal : isRealUserMessage fields = true
    · obtain ⟨text, htext⟩ := Option.isSome_iff_exists.mp (Bool.and_eq_true_iff.mp hreal).2
      have hnoted : (if answers.seenLatestUser = true then answers
          else { answers with
            seenLatestUser := true
            latestUserHasTakeoff :=
              Text.contains takeoffPhrase (normalizeTakeoffContent py text) })
          = answers.noteUser (decide (Bears py takeoffPhrase text)) := by
        unfold Answers.noteUser
        rw [decide_bears]
      rw [if_pos hreal, if_pos hreal, htext]
      simp only [Option.getD_some, Option.bind_some, hnoted, Answers.noteUser_latestPreTakeoffAt]
      cases hpre : answers.latestPreTakeoffAt with
      | some issuedAt => rfl
      | none =>
        by_cases hbears : Bears py preTakeoffPhrase text
        · have hb : Text.contains preTakeoffPhrase (normalizeTakeoffContent py text) = true := hbears
          rw [if_pos hbears, hb, parsePreTakeoffTimestamp_eq]
          cases zonedTime py fields with
          | none =>
            show some _ = some _
            congr 1
            rw [← hpre, ← Answers.noteUser_latestPreTakeoffAt answers
              (decide (Bears py takeoffPhrase text))]
          | some micros =>
            show ((Moment.ofMicros micros).map some).map _ = _
            rw [Option.map_map]
            rfl
        · have hb : ¬ Text.contains preTakeoffPhrase (normalizeTakeoffContent py text) = true :=
            hbears
          rw [if_neg hbears]
          simp [hb]
    · rw [if_neg hreal, if_neg hreal]
  | null | bool | int | float | str | arr => rfl

theorem backwardUserAnswers_cons (py : Python) (event : Json) (events : List Json) :
    backwardUserAnswers py (event :: events)
      = (backwardUserAnswers py events).bind fun answers => scanEvent py answers event := by
  unfold backwardUserAnswers
  rw [List.reverse_cons, List.foldlM_append]
  congr 1
  funext answers
  simp

/-- **What answers say of a list**: those of the last real user message, and of the last stamp. -/
structure Finds (py : Python) (events : List Json) (answers : Answers) : Prop where
  seen : answers.seenLatestUser = (lastUserText events).isSome
  takeoff : answers.latestUserHasTakeoff
    = (lastUserText events).any fun text => decide (Bears py takeoffPhrase text)
  stamp : answers.latestPreTakeoffAt.map (·.micros) = newestStamp py events
  dicts : ∀ event ∈ events, event.asDict.isSome

theorem Finds.nil (py : Python) : Finds py [] {} := ⟨rfl, rfl, rfl, by simp⟩

theorem Finds.cons_other {py : Python} {events : List Json} {answers : Answers} {event : Json}
    (h : Finds py events answers) (hdict : event.asDict.isSome) (hother : userText event = none) :
    Finds py (event :: events) answers := by
  have hstamp : stampOf py event = none := by
    unfold stampOf
    rw [hother]
    rfl
  refine ⟨?_, ?_, ?_, List.forall_mem_cons.mpr ⟨hdict, h.dicts⟩⟩
  · rw [lastUserText_cons, hother, Option.or_none, h.seen]
  · rw [lastUserText_cons, hother, Option.or_none, h.takeoff]
  · rw [newestStamp_cons, hstamp, Option.or_none, h.stamp]

theorem Finds.cons_user {py : Python} {events : List Json} {answers : Answers} {event : Json}
    {text : String} (issuedAt : Option Moment) (h : Finds py events answers)
    (hdict : event.asDict.isSome) (huser : userText event = some text)
    (hstamp : issuedAt.map (·.micros) = (newestStamp py events).or (stampOf py event)) :
    Finds py (event :: events)
      { answers.noteUser (decide (Bears py takeoffPhrase text)) with
        latestPreTakeoffAt := issuedAt } := by
  have hseen := h.seen
  have htakeoff := h.takeoff
  refine ⟨?_, ?_, by rw [newestStamp_cons, hstamp], List.forall_mem_cons.mpr ⟨hdict, h.dicts⟩⟩
  · rw [lastUserText_cons, huser]
    unfold Answers.noteUser
    cases hlast : lastUserText events <;> rw [hlast] at hseen <;> simp_all
  · rw [lastUserText_cons, huser]
    unfold Answers.noteUser
    cases hlast : lastUserText events <;> rw [hlast] at hseen htakeoff <;> simp_all

theorem Finds.step {py : Python} {events : List Json} {answers answers' : Answers} {event : Json}
    (h : Finds py events answers) (hscan : scanEvent py answers event = some answers') :
    Finds py (event :: events) answers' := by
  rw [scanEvent_eq] at hscan
  obtain ⟨fields, hdict, hscan⟩ := Option.bind_eq_some_iff.mp hscan
  have hdict : event.asDict.isSome := Option.isSome_iff_exists.mpr ⟨fields, hdict⟩
  have hstamp := h.stamp
  cases huser : userText event with
  | none =>
    rw [huser] at hscan
    cases hscan
    exact h.cons_other hdict huser
  | some text =>
    rw [huser] at hscan
    cases hpre : answers.latestPreTakeoffAt with
    | some issuedAt =>
      rw [hpre] at hscan hstamp
      cases hscan
      have hnoted := cons_user (some issuedAt) h hdict huser (by rw [← hstamp]; rfl)
      rwa [← hpre, ← Answers.noteUser_latestPreTakeoffAt answers] at hnoted
    | none =>
      rw [hpre] at hscan hstamp
      have hnone : newestStamp py events = none := hstamp.symm
      cases hs : stampOf py event with
      | none =>
        rw [hs] at hscan
        cases hscan
        have hnoted := cons_user none h hdict huser (by rw [hnone, hs]; rfl)
        rwa [← hpre, ← Answers.noteUser_latestPreTakeoffAt answers] at hnoted
      | some stamp =>
        rw [hs] at hscan
        obtain ⟨issuedAt, hat, rfl⟩ := Option.map_eq_some_iff.mp hscan
        refine cons_user _ h hdict huser ?_
        rw [hnone, hs, Moment.ofMicros_eq_some.mp hat]
        rfl

/-- **The scan finds the answers of the list.** -/
theorem finds_of_backwardUserAnswers {py : Python} {events : List Json} {answers : Answers}
    (h : backwardUserAnswers py events = some answers) : Finds py events answers := by
  induction events generalizing answers with
  | nil =>
    cases h
    exact .nil py
  | cons event events ih =>
    rw [backwardUserAnswers_cons] at h
    obtain ⟨found, hfound, hscan⟩ := Option.bind_eq_some_iff.mp h
    exact (ih hfound).step hscan

theorem Finds.isSome_scanEvent {py : Python} {events : List Json} {answers : Answers}
    {event : Json} (h : Finds py events answers) (hdict : event.asDict.isSome)
    (hrange : ∀ stamp ∈ newestStamp py (event :: events), InRange stamp) :
    (scanEvent py answers event).isSome := by
  obtain ⟨fields, hfields⟩ := Option.isSome_iff_exists.mp hdict
  have hstamp := h.stamp
  rw [scanEvent_eq, hfields, Option.bind_some]
  cases userText event with
  | none => rfl
  | some text =>
    cases hpre : answers.latestPreTakeoffAt with
    | some issuedAt => rfl
    | none =>
      cases hs : stampOf py event with
      | none => rfl
      | some stamp =>
        rw [hpre] at hstamp
        rw [newestStamp_cons, ← hstamp, hs] at hrange
        have hin := hrange stamp rfl
        show (Option.map _ _).isSome
        rw [Option.isSome_map, Moment.ofMicros_of_inRange hin]
        rfl

/-- **When the scan does not raise**: every event is a dict, and the newest stamp is the time of a
`datetime`. -/
theorem isSome_backwardUserAnswers_iff (py : Python) (events : List Json) :
    (backwardUserAnswers py events).isSome
      ↔ (∀ event ∈ events, event.asDict.isSome)
        ∧ ∀ stamp ∈ newestStamp py events, InRange stamp := by
  constructor
  · intro h
    obtain ⟨answers, hanswers⟩ := Option.isSome_iff_exists.mp h
    have hfinds := finds_of_backwardUserAnswers hanswers
    refine ⟨hfinds.dicts, fun stamp hstamp => ?_⟩
    rw [← hfinds.stamp] at hstamp
    obtain ⟨issuedAt, -, rfl⟩ := Option.map_eq_some_iff.mp hstamp
    exact issuedAt.inRange
  · rintro ⟨hdicts, hrange⟩
    induction events with
    | nil => rfl
    | cons event events ih =>
      obtain ⟨hdict, hdicts⟩ := List.forall_mem_cons.mp hdicts
      obtain ⟨answers, hanswers⟩ := Option.isSome_iff_exists.mp <| ih hdicts fun stamp hstamp =>
        hrange stamp (by rw [newestStamp_cons, Option.mem_def.mp hstamp]; rfl)
      rw [backwardUserAnswers_cons, hanswers, Option.bind_some]
      exact (finds_of_backwardUserAnswers hanswers).isSome_scanEvent hdict hrange

/-! ## Scans of two halves -/

/-- The answers of a list whose halves have answers. -/
def Answers.combine (older newer : Answers) : Answers where
  latestUserHasTakeoff :=
    if newer.seenLatestUser then newer.latestUserHasTakeoff else older.latestUserHasTakeoff
  latestPreTakeoffAt := newer.latestPreTakeoffAt.or older.latestPreTakeoffAt
  seenLatestUser := newer.seenLatestUser || older.seenLatestUser

theorem Finds.append {py : Python} {older newer : List Json} {answers answers' : Answers}
    (h : Finds py older answers) (h' : Finds py newer answers') :
    Finds py (older ++ newer) (answers.combine answers') := by
  have hseen := h'.seen
  have htakeoff := h'.takeoff
  unfold Answers.combine
  refine ⟨?_, ?_, ?_, List.forall_mem_append.mpr ⟨h.dicts, h'.dicts⟩⟩
  · rw [lastUserText_append, h.seen, hseen]
    cases lastUserText newer <;> simp
  · rw [lastUserText_append, h.takeoff]
    cases hlast : lastUserText newer <;> rw [hlast] at hseen htakeoff <;> simp [hseen, htakeoff]
  · rw [newestStamp_append, ← h.stamp, ← h'.stamp]
    cases answers'.latestPreTakeoffAt <;> rfl

theorem Finds.unique {py : Python} {events : List Json} {answers answers' : Answers}
    (h : Finds py events answers) (h' : Finds py events answers') : answers = answers' := by
  have hstamp := Option.map_injective Moment.micros_injective (h.stamp.trans h'.stamp.symm)
  have hseen := h.seen.trans h'.seen.symm
  have htakeoff := h.takeoff.trans h'.takeoff.symm
  cases answers
  cases answers'
  cases hstamp
  cases hseen
  cases htakeoff
  rfl

/-- **The answers of a list combine from those of its halves.** Behind a half that was scanned, the
scan of the whole list raises where that of the other half does. -/
theorem backwardUserAnswers_append {py : Python} (older newer : List Json) (answers : Answers)
    (h : backwardUserAnswers py older = some answers) :
    backwardUserAnswers py (older ++ newer)
      = (backwardUserAnswers py newer).map answers.combine := by
  obtain ⟨hdicts, hrange⟩ := (isSome_backwardUserAnswers_iff py older).mp (by rw [h]; rfl)
  cases hnewer : backwardUserAnswers py newer with
  | some answers' =>
    obtain ⟨hdicts', hrange'⟩ := (isSome_backwardUserAnswers_iff py newer).mp (by rw [hnewer]; rfl)
    have hsome : (backwardUserAnswers py (older ++ newer)).isSome := by
      rw [isSome_backwardUserAnswers_iff, newestStamp_append]
      refine ⟨List.forall_mem_append.mpr ⟨hdicts, hdicts'⟩, fun stamp hstamp => ?_⟩
      cases hs : newestStamp py newer with
      | some stamp' =>
        rw [hs] at hstamp
        exact hrange' stamp (by rwa [hs])
      | none =>
        rw [hs] at hstamp
        exact hrange stamp hstamp
    obtain ⟨whole, hwhole⟩ := Option.isSome_iff_exists.mp hsome
    rw [hwhole, Option.map_some]
    congr 1
    exact (finds_of_backwardUserAnswers hwhole).unique
      ((finds_of_backwardUserAnswers h).append (finds_of_backwardUserAnswers hnewer))
  | none =>
    rw [Option.map_none, ← Option.not_isSome_iff_eq_none, isSome_backwardUserAnswers_iff]
    rintro ⟨hall, hin⟩
    have hsome : (backwardUserAnswers py newer).isSome := by
      rw [isSome_backwardUserAnswers_iff]
      refine ⟨(List.forall_mem_append.mp hall).2, fun stamp hstamp => hin stamp ?_⟩
      rw [newestStamp_append, Option.mem_def.mp hstamp]
      rfl
    rw [hnewer] at hsome
    cases hsome

/-! ## The memo tells the answers -/

/-- What an entry keeps: the answers of the events it covers. -/
def Kept (py : Python) (heap : List (List Json)) (entry : GateEntry) : Prop :=
  ∃ answers, PrefixFact (backwardUserAnswers py) heap entry.events entry.covered answers
    ∧ entry.latestUserHasTakeoff = answers.latestUserHasTakeoff
    ∧ entry.latestPreTakeoffAt = answers.latestPreTakeoffAt

theorem Kept.of_grows {py : Python} {heap heap' : List (List Json)} {entry : GateEntry}
    (h : Kept py heap entry) (hgrows : Grows heap heap') : Kept py heap' entry := by
  obtain ⟨answers, hfact, hrest⟩ := h
  exact ⟨answers, hfact.of_grows hgrows, hrest⟩

/-- **What the memo's caller gets is one full scan**, and what it stores keeps answers. -/
theorem settledUserAnswers_eq {py : Python} {heap : List (List Json)}
    {memo : LruMap String GateEntry} {session : String} {list : ℕ} {events : List Json}
    (hmemo : ∀ entry, memo.lookup session = some entry → Kept py heap entry)
    (hlist : heap[list]? = some events) :
    match settledUserAnswers py memo session list events with
    | none => backwardUserAnswers py events = none
    | some settled =>
      (∃ answers, backwardUserAnswers py events = some answers
        ∧ settled.latestUserHasTakeoff = answers.latestUserHasTakeoff
        ∧ settled.latestPreTakeoffAt = answers.latestPreTakeoffAt)
        ∧ ∀ entry ∈ settled.store, Kept py heap entry := by
  unfold settledUserAnswers
  cases hcached : (memo.lookup session).filter (·.events = list) with
  | none =>
    cases hscan : backwardUserAnswers py events with
    | none => rfl
    | some answers =>
      refine ⟨⟨answers, rfl, rfl, rfl⟩, ?_⟩
      rintro entry ⟨⟩
      exact ⟨answers, .whole hlist hscan, rfl, rfl⟩
  | some cached =>
    obtain ⟨hlookup, hsame⟩ := Option.filter_eq_some_iff.mp hcached
    obtain rfl : cached.events = list := of_decide_eq_true hsame
    obtain ⟨answers, hfact, htakeoff, hstamp⟩ := hmemo cached hlookup
    obtain ⟨hcovered, hwhole⟩ := hfact.resume backwardUserAnswers_append hlist
    dsimp only
    by_cases hempty : (events.drop cached.covered).isEmpty = true
    · rw [if_pos hempty]
      rw [List.isEmpty_iff.mp hempty] at hwhole
      refine ⟨⟨answers, ?_, htakeoff, hstamp⟩, fun entry h => nomatch h⟩
      rw [hwhole]
      rfl
    · rw [if_neg hempty]
      cases hsuffix : backwardUserAnswers py (events.drop cached.covered) with
      | none =>
        rw [hsuffix] at hwhole
        exact hwhole
      | some newer =>
        rw [hsuffix] at hwhole
        refine ⟨⟨answers.combine newer, hwhole, by rw [htakeoff]; rfl, by rw [hstamp]; rfl⟩, ?_⟩
        rintro entry ⟨⟩
        refine ⟨answers.combine newer, ?_, by rw [htakeoff]; rfl, by rw [hstamp]; rfl⟩
        have hlength : cached.covered + (events.drop cached.covered).length = events.length := by
          rw [List.length_drop, Nat.add_sub_of_le hcovered]
        show PrefixFact _ heap cached.events (cached.covered + _) _
        rw [hlength]
        exact .whole hlist hwhole

/-- **What holds at every moment**: the lists in the cache are in the heap, and what the memo holds
or is about to be told are answers of a prefix. -/
structure Inv (py : Python) (w : World) : Prop where
  cached : ∀ session list, w.eventsCache session = some list → (w.heap[list]?).isSome
  memo : ∀ session entry, w.memo.lookup session = some entry → Kept py w.heap entry
  storing : ∀ p ∈ w.storing, Kept py w.heap p.2

theorem Inv.init (py : Python) : Inv py {} :=
  ⟨fun _ _ h => (nomatch h), fun _ _ h => (nomatch h), fun _ h => (nomatch h)⟩

theorem Inv.of_grows {py : Python} {w : World} (h : Inv py w) {heap : List (List Json)}
    {cache : String → Option ℕ} (hgrows : Grows w.heap heap)
    (hcache : ∀ session list, cache session = some list → (heap[list]?).isSome) :
    Inv py { w with heap := heap, eventsCache := cache } :=
  ⟨hcache, fun session entry he => (h.memo session entry he).of_grows hgrows,
    fun p hp => (h.storing p hp).of_grows hgrows⟩

theorem isSome_of_grows {heap heap' : List (List Json)} (hgrows : Grows heap heap') {list : ℕ}
    (h : (heap[list]?).isSome) : (heap'[list]?).isSome := by
  obtain ⟨l, hl⟩ := Option.isSome_iff_exists.mp h
  obtain ⟨more, hmore⟩ := hgrows list l hl
  rw [hmore]
  rfl

/-- **A load** keeps the invariant, and gives the place of the session's events. -/
theorem Inv.loadChatEvents {py : Python} {w : World} (h : Inv py w) (session : String)
    (disk : List Json) :
    Inv py (w.loadChatEvents session disk).1
      ∧ (w.loadChatEvents session disk).1.heap[(w.loadChatEvents session disk).2]?
        = some (w.eventsOf session disk) := by
  unfold World.loadChatEvents World.eventsOf
  cases hcache : w.eventsCache session with
  | some list =>
    obtain ⟨events, hevents⟩ := Option.isSome_iff_exists.mp (h.cached session list hcache)
    refine ⟨h, ?_⟩
    show w.heap[list]? = some ((w.heap[list]?).getD [])
    rw [hevents]
    rfl
  | none =>
    refine ⟨h.of_grows (.new w.heap disk) fun session' list hlist => ?_, ?_⟩
    · by_cases hs : session' = session
      · rw [hs, Function.update_self] at hlist
        cases hlist
        rw [List.getElem?_concat_length]
        rfl
      · rw [Function.update_of_ne hs] at hlist
        exact isSome_of_grows (.new w.heap disk) (h.cached session' list hlist)
    · exact List.getElem?_concat_length

/-- **The verdict of a check is that of one full scan** of the session's events, and the invariant
is kept. -/
theorem Inv.check {py : Python} {w : World} (h : Inv py w) (session : String) (disk : List Json)
    (now : Option DateTime) (clock : Moment) :
    Inv py (w.check py session disk now clock).1
      ∧ (w.check py session disk now clock).2
        = match effectiveNow now clock, backwardUserAnswers py (w.eventsOf session disk) with
          | some now, some answers =>
            verdict answers.latestUserHasTakeoff answers.latestPreTakeoffAt now
          | _, _ => .raised := by
  unfold World.check
  cases effectiveNow now clock with
  | none => exact ⟨h, rfl⟩
  | some now =>
    obtain ⟨hinv, hlist⟩ := h.loadChatEvents session disk
    generalize w.loadChatEvents session disk = loaded at hinv hlist ⊢
    obtain ⟨w', list⟩ := loaded
    dsimp only at hinv hlist ⊢
    have hsettled := settledUserAnswers_eq (hinv.memo session) hlist
    have htouched : Inv py { w' with memo := w'.memo.touch session } := by
      refine ⟨hinv.cached, fun session' entry he => hinv.memo session' entry ?_, hinv.storing⟩
      rwa [← LruMap.lookup_touch]
    rw [hlist]
    simp only [Option.getD_some]
    cases hs : settledUserAnswers py w'.memo session list (w.eventsOf session disk) with
    | none =>
      rw [hs] at hsettled
      rw [show backwardUserAnswers py (w.eventsOf session disk) = none from hsettled]
      exact ⟨htouched, rfl⟩
    | some settled =>
      rw [hs] at hsettled
      obtain ⟨⟨answers, hscan, htakeoff, hstamp⟩, hstore⟩ := hsettled
      rw [hscan]
      refine ⟨⟨htouched.cached, htouched.memo, fun p hp => ?_⟩, by simp only [htakeoff, hstamp]⟩
      rcases List.mem_append.mp hp with hp | hp
      · exact htouched.storing p hp
      · obtain ⟨entry, hentry, rfl⟩ := List.mem_map.mp hp
        exact hstore entry (Option.mem_toList.mp hentry)

theorem Inv.step {py : Python} {w : World} (h : Inv py w) (action : Action) :
    Inv py (w.step py action) := by
  cases action with
  | save session event =>
    unfold World.step
    dsimp only
    cases w.eventsCache session with
    | none => exact h
    | some list =>
      have hgrows := Grows.extend w.heap list (.obj event)
      exact h.of_grows hgrows fun session' list' hlist =>
        isSome_of_grows hgrows (h.cached session' list' hlist)
  | drop session =>
    refine h.of_grows (.refl _) fun session' list hlist => ?_
    by_cases hs : session' = session
    · rw [hs, Function.update_self] at hlist
      cases hlist
    · rw [Function.update_of_ne hs] at hlist
      exact h.cached session' list hlist
  | load session disk => exact (h.loadChatEvents session disk).1
  | check session disk now clock => exact (h.check session disk now clock).1
  | store i =>
    unfold World.step
    dsimp only
    cases hi : w.storing[i]? with
    | none => exact h
    | some p =>
      have hp := h.storing p (List.mem_of_getElem? hi)
      refine ⟨h.cached, fun session entry he => ?_,
        fun q hq => h.storing q (List.mem_of_mem_eraseIdx hq)⟩
      rcases LruMap.lookup_store he with ⟨-, rfl⟩ | ⟨-, he⟩
      · exact hp
      · exact h.memo session entry he

theorem Inv.run {py : Python} {w : World} (h : Inv py w) (actions : List Action) :
    Inv py (w.run py actions) := by
  induction actions generalizing w with
  | nil => exact h
  | cons action actions ih => exact ih (h.step action)

/-! ## What is authorised -/

/-- The time of a check, if it has one: a time without a zone is none. -/
def checkTime (now : Option DateTime) (clock : Moment) : Option ℤ :=
  match now with
  | none => some clock.micros
  | some now => now.utc?

/-- **What is authorised at a time**: the last real user message contains the takeoff phrase, or the
stamp of the last pre-takeoff message that has a valid one lies in the window that ends then. -/
def Authorised (py : Python) (events : List Json) (time : Option ℤ) : Prop :=
  ∃ now ∈ time, (∃ text ∈ lastUserText events, Bears py takeoffPhrase text)
    ∨ ∃ stamp ∈ newestStamp py events, stamp ≤ now ∧ now < stamp + preTakeoffWindow

/-- **What a check can answer**: every event is a dict, and the times it converts are of a
`datetime`: that of the check, the newest stamp, and the end of its window where that is
looked at. -/
structure Answerable (py : Python) (events : List Json) (time : Option ℤ) : Prop where
  dicts : ∀ event ∈ events, event.asDict.isSome
  now : ∀ now ∈ time, InRange now
  stamp : ∀ stamp ∈ newestStamp py events, InRange stamp
  windowEnd : ∀ stamp ∈ newestStamp py events, ∀ now ∈ time, stamp ≤ now →
    InRange (stamp + preTakeoffWindow)

theorem effectiveNow_eq (now : Option DateTime) (clock : Moment) :
    effectiveNow now clock = (checkTime now clock).bind Moment.ofMicros := by
  unfold effectiveNow checkTime
  cases now with
  | none => exact (Moment.ofMicros_eq_some.mpr rfl).symm
  | some now =>
    dsimp only
    unfold DateTime.utc?
    cases now.offset <;> rfl

theorem verdict_eq_allowed_iff (hasTakeoff : Bool) (issuedAt : Option Moment) (now : Moment) :
    verdict hasTakeoff issuedAt now = .allowed
      ↔ (∀ at' ∈ issuedAt, at'.micros ≤ now.micros → InRange (at'.micros + preTakeoffWindow))
        ∧ (hasTakeoff = true ∨ ∃ at' ∈ issuedAt,
            at'.micros ≤ now.micros ∧ now.micros < at'.micros + preTakeoffWindow) := by
  unfold verdict preTakeoffActive
  cases issuedAt with
  | none => cases hasTakeoff <;> simp
  | some issuedAt =>
    dsimp only
    by_cases hle : issuedAt.micros ≤ now.micros
    · rw [if_pos hle]
      by_cases hin : InRange (issuedAt.micros + preTakeoffWindow)
      · rw [Moment.ofMicros_of_inRange hin]
        cases hasTakeoff <;> simp [hle, hin]
      · rw [Moment.ofMicros_eq_none.mpr hin]
        simp [hle, hin]
    · rw [if_neg hle]
      cases hasTakeoff <;> simp [hle]

/-- **What a check allows**: what is authorised, where it can answer. -/
theorem Inv.check_allowed_iff {py : Python} {w : World} (h : Inv py w) (session : String)
    (disk : List Json) (now : Option DateTime) (clock : Moment) :
    (w.check py session disk now clock).2 = .allowed
      ↔ Authorised py (w.eventsOf session disk) (checkTime now clock)
        ∧ Answerable py (w.eventsOf session disk) (checkTime now clock) := by
  rw [(h.check session disk now clock).2, effectiveNow_eq]
  generalize w.eventsOf session disk = events
  cases checkTime now clock with
  | none =>
    refine ⟨fun hc => (nomatch hc), ?_⟩
    rintro ⟨⟨now, hnow, -⟩, -⟩
    cases hnow
  | some time =>
    rw [Option.bind_some]
    cases hnow : Moment.ofMicros time with
    | none =>
      refine ⟨fun hc => (nomatch hc), fun hc => ?_⟩
      exact absurd (hc.2.now time rfl) (Moment.ofMicros_eq_none.mp hnow)
    | some now =>
      obtain rfl := Moment.ofMicros_eq_some.mp hnow
      cases hscan : backwardUserAnswers py events with
      | none =>
        refine ⟨fun hc => (nomatch hc), fun hc => ?_⟩
        have hsome := (isSome_backwardUserAnswers_iff py events).mpr ⟨hc.2.dicts, hc.2.stamp⟩
        rw [hscan] at hsome
        cases hsome
      | some answers =>
        have hfinds := finds_of_backwardUserAnswers hscan
        obtain ⟨hdicts, hrange⟩ :=
          (isSome_backwardUserAnswers_iff py events).mp (by rw [hscan]; rfl)
        have hstamps : ∀ P : ℤ → Prop, (∃ stamp ∈ newestStamp py events, P stamp)
            ↔ ∃ at' ∈ answers.latestPreTakeoffAt, P at'.micros := by
          intro P
          rw [← hfinds.stamp]
          cases answers.latestPreTakeoffAt <;> simp
        have hall : (∀ stamp ∈ newestStamp py events, ∀ t ∈ some now.micros, stamp ≤ t →
              InRange (stamp + preTakeoffWindow))
            ↔ ∀ at' ∈ answers.latestPreTakeoffAt, at'.micros ≤ now.micros →
              InRange (at'.micros + preTakeoffWindow) := by
          rw [← hfinds.stamp]
          cases answers.latestPreTakeoffAt <;> simp
        have htakeoff : answers.latestUserHasTakeoff = true
            ↔ ∃ text ∈ lastUserText events, Bears py takeoffPhrase text := by
          rw [hfinds.takeoff]
          cases lastUserText events <;> simp
        show verdict _ _ now = .allowed ↔ _
        rw [verdict_eq_allowed_iff, ← hall, htakeoff, ← hstamps fun stamp =>
          stamp ≤ now.micros ∧ now.micros < stamp + preTakeoffWindow]
        constructor
        · rintro ⟨hend, hauth⟩
          refine ⟨⟨now.micros, rfl, hauth⟩, hdicts, ?_, hrange, hend⟩
          rintro time ⟨⟩
          exact now.inRange
        · rintro ⟨⟨time, ⟨⟩, hauth⟩, hanswerable⟩
          exact ⟨hanswerable.windowEnd, hauth⟩

theorem authorised_append_iff {py : Python} (older newer : List Json) {stamp : ℤ}
    (h : newestStamp py newer = some stamp) (time : Option ℤ) :
    Authorised py (older ++ newer) time ↔ Authorised py newer time := by
  obtain ⟨text, htext⟩ := Option.isSome_iff_exists.mp (isSome_lastUserText_of_newestStamp h)
  unfold Authorised
  rw [lastUserText_append, newestStamp_append, h, htext]
  rfl

theorem authorised_insert_iff {py : Python} (older newer : List Json) {event : Json}
    (h : userText event = none) (time : Option ℤ) :
    Authorised py (older ++ event :: newer) time ↔ Authorised py (older ++ newer) time := by
  have hstamp : stampOf py event = none := by
    unfold stampOf
    rw [h]
    rfl
  unfold Authorised
  rw [lastUserText_append, lastUserText_append, lastUserText_cons, newestStamp_append,
    newestStamp_append, newestStamp_cons, h, hstamp, Option.or_none, Option.or_none]

/-- **The gate allows what is authorised and nothing else** exactly where it can answer for what is
authorised. Whatever it allows is authorised, by the newest valid pre-takeoff and by messages of
the user's alone. -/
theorem allowed_iff_authorised_iff (py : Python) (actions : List Action) (session : String)
    (disk : List Json) (now : Option DateTime) (clock : Moment) :
    let w := World.run py {} actions
    let events := w.eventsOf session disk
    let time := checkTime now clock
    let allowed := (w.check py session disk now clock).2 = .allowed
    ((allowed ↔ Authorised py events time)
        ↔ (Authorised py events time → Answerable py events time))
      ∧ (allowed → Authorised py events time)
      ∧ (∀ older newer, events = older ++ newer → (newestStamp py newer).isSome → allowed →
          Authorised py newer time)
      ∧ ∀ older event newer, events = older ++ event :: newer → userText event = none → allowed →
          Authorised py (older ++ newer) time := by
  intro w events time allowed
  have hallowed : allowed ↔ Authorised py events time ∧ Answerable py events time :=
    ((Inv.init py).run actions).check_allowed_iff session disk now clock
  refine ⟨by tauto, fun ha => (hallowed.mp ha).1, ?_, ?_⟩
  · intro older newer hevents hsome ha
    obtain ⟨stamp, hstamp⟩ := Option.isSome_iff_exists.mp hsome
    rw [← authorised_append_iff older newer hstamp, ← hevents]
    exact (hallowed.mp ha).1
  · intro older event newer hevents hother ha
    rw [← authorised_insert_iff older newer hother, ← hevents]
    exact (hallowed.mp ha).1

/-! ## A stamp that no UTC time has -/

/-- A library for plain texts, which knows one time: the start of the year 1, one hour to the
east of Greenwich. -/
def firstHour : Python where
  casefold := List.map Char.toLower
  fromisoformat timestamp :=
    if timestamp = "0001-01-01T00:00:00+01:00" then some ⟨⟨0, by decide⟩, some 3600000000⟩
    else none

/-- A pre-takeoff with the stamp, and a takeoff behind it. -/
def firstHourEvents : List Json :=
  [.obj [("type", .str "user"), ("content", .str "pre take off"),
      ("timestamp", .str "0001-01-01T00:00:00+01:00")],
    .obj [("type", .str "user"), ("content", .str "take off"),
      ("timestamp", .str "2026-01-05T10:00:00+00:00")]]

/-- The morning of the fifth of January 2026. -/
def january : Moment := ⟨63903204000000000, by decide⟩

/-- **The user says take off, and the check raises**: it converts the stamp of the message before,
and that time has no `datetime` in UTC. -/
theorem not_allowed_of_takeoff :
    let w := World.run firstHour {} []
    ¬ ((w.check firstHour "s" firstHourEvents none january).2 = .allowed
      ↔ Authorised firstHour (w.eventsOf "s" firstHourEvents) (checkTime none january)) := by
  intro w h
  have hauth : Authorised firstHour (w.eventsOf "s" firstHourEvents) (checkTime none january) :=
    ⟨january.micros, rfl, .inl ⟨"take off", by decide, by decide⟩⟩
  have hraised : (w.check firstHour "s" firstHourEvents none january).2 = .raised := by decide
  rw [h.mpr hauth] at hraised
  cases hraised

end Takeoff
