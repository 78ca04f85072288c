import CharlieBot.ChatEventRange
import CharlieBot.Lib.LruMap
import CharlieBot.MessageAggregator

/-!
# The recap of a session

A recap has two halves. The **extraction** reads the events up to a divider and takes
from them what the user asked and the last exchange; it is kept in a memo under the
session and the end of the range. The **summary** is written by a model, on request,
and kept in a document beside the events: what generates one reads the whole document, sets its
own divider's entry and replaces the file, in a thread of its own.

The log of events only grows, so that an extraction kept under an end is right forever. The
document is not: two generations that read it before either has replaced it each
write it without the other's entry, and one summary is lost (`summary_lost`).

Along every run in which no generation replaces a document that was changed since it read
it, and in which the signature of the file moves with its content, every lookup tells the
summaries of the generations that were over when it began, and every extraction is that of the
events up to its divider (`recaps_right_of_run`).
-/

namespace Recap

/-! ## The extraction -/

def askChars : ℕ := 80

def lastChars : ℕ := 250

def autoInjectedPrefixes : List String :=
  ["This session was cloned from a previous conversation.",
    "This session continues a prior conversation.",
    "You're taking over a task from a previous session where user wasn't satisfied.",
    "You're taking over because the user wasn't satisfied with the previous session."]

def truncate (text : List Char) (limit : ℕ) : String :=
  let text := Text.strip text
  if text.length ≤ limit then String.ofList text
  else String.ofList (((text.take limit).reverse.dropWhile Text.isSpace).reverse ++ ['…'])

def firstLine (text : List Char) : List Char :=
  ((Text.splitLines text).map Text.strip).find? (!·.isEmpty) |>.getD []

def isAutoInjected (content : List Char) : Bool :=
  autoInjectedPrefixes.any fun opener =>
    opener.toList.isPrefixOf (content.dropWhile Text.isSpace)

/-- The content of a message as a text; what is neither a text nor empty has no such and raises. -/
def contentText (msg : Dict) : Option (List Char) :=
  match (msg.getD "content" (.str "")).or (.str "") with
  | .str content => some content.toList
  | _ => none

/-- What the extraction of a recap gives. -/
structure Extract where
  asks : List String
  /-- The last thing the user said, and what the assistant said to it. -/
  last : Option (String × String)
  deriving DecidableEq

/-- Whether a message is of a role. -/
def isRole (msg : Dict) (role : String) : Bool := (msg.get "role").isText role

/-- What a message asks, if it is the user's own. -/
def askOf (msg : Dict) : Option (Option (List Char)) :=
  if isRole msg "user" then
    (contentText msg).map fun content =>
      if isAutoInjected content then none
      else if (firstLine content).isEmpty then none
      else some content
  else some none

/-- The asks, and the last of them with the messages behind it. -/
def scanAsks : List Dict → Option (List String × Option (List Char × List Dict))
  | [] => some ([], none)
  | msg :: messages => do
    let ask ← askOf msg
    let (asks, last) ← scanAsks messages
    match ask with
    | none => return (asks, last)
    | some content =>
      return (truncate (firstLine content) askChars :: asks, last.or (some (content, messages)))

/-- What the assistant said last, up to the next message of the user's. -/
def assistantText : List Dict → List Char → Option (List Char)
  | [], text => some text
  | msg :: messages, text =>
    if isRole msg "user" then some text
    else if isRole msg "assistant" then do
      let content ← contentText msg
      assistantText messages (if (Text.strip content).isEmpty then text else content)
    else assistantText messages text

/-- `_extract_from_events`; nothing where it raises. -/
def extractFromEvents (events : List Event) : Option Extract := do
  let messages ← eventsToMessages events 0
  let (asks, last) ← scanAsks messages
  match last with
  | none => return ⟨asks, none⟩
  | some (content, behind) =>
    let assistant ← assistantText behind []
    return ⟨asks, some (truncate content lastChars, truncate assistant lastChars)⟩

/-- The end of the range of a divider, where there are `count` events. -/
def stopOf (upto : Option ℤ) (count : ℕ) : ℤ :=
  match upto with
  | none => count
  | some upto => min (upto + 1) count

/-- **The extraction of the events up to a divider.** -/
def extractUpTo (events : List Event) (upto : Option ℤ) : Option Extract :=
  extractFromEvents (events.take (stopOf upto events.length).toNat)

/-! ## The document of summaries -/

structure Entry where
  summary : String
  generatedAt : String
  deriving DecidableEq

/-- The document: the entries by divider. A key of the file is the divider in decimal. -/
abbrev Document := List (ℤ × Entry)

/-- `cache[str(upto)] = …`. -/
def Document.set (cache : Document) (upto : ℤ) (entry : Entry) : Document :=
  if cache.any (·.1 = upto) then
    cache.map fun field => if field.1 = upto then (upto, entry) else field
  else cache ++ [(upto, entry)]

/-- `_summary_verdict`: the summary of the divider, and whether it is stale. -/
def summaryVerdict (cache : Document) (upto : ℤ) : Option String × Bool :=
  match cache.lookup upto with
  | some exact => (some exact.summary, false)
  | none =>
    match ((cache.map Prod.fst).filter fun key => key < upto).max? with
    | some key => ((cache.lookup key).map Entry.summary, true)
    | none => (none, false)

/-! ## What a lookup has to tell -/

/-- Summaries in the order they were written, each with its divider. -/
abbrev Writes := List (ℤ × String)

/-- The summary that was written for a divider last. -/
def Writes.latest (writes : Writes) (upto : ℤ) : Option String := writes.reverse.lookup upto

/-- **What a lookup has to tell** of the summaries that were written: its divider's, else, as
stale, that of the greatest divider before it. -/
structure Tells (writes : Writes) (upto : ℤ) (verdict : Option String × Bool) : Prop where
  exact : ∀ summary, writes.latest upto = some summary → verdict = (some summary, false)
  stale : writes.latest upto = none → ∀ earlier < upto, (writes.latest earlier).isSome = true →
    (∀ key < upto, (writes.latest key).isSome = true → key ≤ earlier) →
      verdict = (writes.latest earlier, true)
  missing : writes.latest upto = none → (∀ key < upto, writes.latest key = none) →
    verdict = (none, false)

def Document.Holds (cache : Document) (writes : Writes) : Prop :=
  ∀ key, (cache.lookup key).map Entry.summary = writes.latest key

section Documents

variable {cache : Document} {writes : Writes} {upto : ℤ}

theorem holds_nil : Document.Holds [] [] := fun _ => rfl

theorem latest_concat (writes : Writes) (upto : ℤ) (summary : String) (key : ℤ) :
    Writes.latest (writes ++ [(upto, summary)]) key
      = if key = upto then some summary else writes.latest key := by
  unfold Writes.latest
  rw [List.reverse_append, List.reverse_singleton, List.singleton_append, List.lookup_cons]
  by_cases h : key = upto
  · subst h
    rw [if_pos rfl, beq_self_eq_true]
  · rw [if_neg h, beq_false_of_ne h]

theorem lookup_eq_none_of_forall_ne {cache : Document} {key : ℤ} (h : ∀ f ∈ cache, f.1 ≠ key) :
    cache.lookup key = none := by
  induction cache with
  | nil => rfl
  | cons field cache ih =>
    rw [List.lookup_cons, beq_false_of_ne (Ne.symm (h field List.mem_cons_self))]
    exact ih fun f hf => h f (List.mem_cons_of_mem _ hf)

theorem mem_keys_of_lookup {cache : Document} {key : ℤ} {entry : Entry}
    (h : cache.lookup key = some entry) : key ∈ cache.map Prod.fst := by
  by_contra hnot
  have hnone : cache.lookup key = none := lookup_eq_none_of_forall_ne fun f hf heq =>
    hnot (heq ▸ List.mem_map_of_mem hf)
  rw [hnone] at h
  cases h

theorem isSome_lookup_of_mem {cache : Document} {key : ℤ} (h : key ∈ cache.map Prod.fst) :
    (cache.lookup key).isSome = true := by
  induction cache with
  | nil => cases h
  | cons field cache ih =>
    rw [List.lookup_cons]
    cases hkey : key == field.1 with
    | true => rfl
    | false =>
      rw [List.map_cons, List.mem_cons] at h
      rcases h with heq | hmem
      · rw [heq, beq_self_eq_true] at hkey
        cases hkey
      · exact ih hmem

theorem lookup_set (cache : Document) (upto : ℤ) (entry : Entry) (key : ℤ) :
    (cache.set upto entry).lookup key = if key = upto then some entry else cache.lookup key := by
  unfold Document.set
  split
  · next hany =>
    induction cache with
    | nil => cases hany
    | cons field cache ih =>
      rw [List.map_cons]
      by_cases hfield : field.1 = upto
      · rw [if_pos hfield, List.lookup_cons]
        by_cases hkey : key = upto
        · rw [if_pos hkey, hkey, beq_self_eq_true]
        · rw [if_neg hkey, beq_false_of_ne hkey, List.lookup_cons,
            beq_false_of_ne (fun heq => hkey (heq.trans hfield))]
          clear ih hany
          dsimp only
          induction cache with
          | nil => rfl
          | cons other cache ih =>
            rw [List.map_cons, List.lookup_cons, List.lookup_cons, ih]
            by_cases hother : other.1 = upto
            · rw [if_pos hother, beq_false_of_ne hkey,
                beq_false_of_ne (fun heq => hkey (heq.trans hother))]
            · rw [if_neg hother]
      · rw [if_neg hfield, List.lookup_cons, List.lookup_cons]
        cases hkey : key == field.1 with
        | true =>
          have hne : key ≠ upto := fun heq => hfield ((eq_of_beq hkey).symm.trans heq)
          rw [if_neg hne]
        | false =>
          rw [List.any_cons, decide_eq_false hfield, Bool.false_or] at hany
          exact ih hany
  · next hany =>
    have hnone : ∀ f ∈ cache, f.1 ≠ upto := fun f hf heq =>
      hany (List.any_eq_true.mpr ⟨f, hf, decide_eq_true heq⟩)
    rw [List.lookup_append, List.lookup_cons, List.lookup_nil]
    by_cases hkey : key = upto
    · rw [if_pos hkey, hkey, lookup_eq_none_of_forall_ne hnone, beq_self_eq_true]
      rfl
    · rw [if_neg hkey, beq_false_of_ne hkey]
      exact Option.or_none

theorem lookup_eq_of_filter_eq {a b : Document} {upto key : ℤ} (hne : key ≠ upto)
    (h : (a.filter fun f => f.1 ≠ upto) = b.filter fun f => f.1 ≠ upto) :
    a.lookup key = b.lookup key := by
  have hfilter : ∀ c : Document, (c.filter fun f => f.1 ≠ upto).lookup key = c.lookup key := by
    intro c
    induction c with
    | nil => rfl
    | cons field c ih =>
      rw [List.filter_cons]
      split
      · rw [List.lookup_cons, List.lookup_cons, ih]
      · next hfield =>
        have heq : field.1 = upto := by simpa using hfield
        rw [ih, List.lookup_cons, beq_false_of_ne (fun hkey => hne (hkey.trans heq))]
  rw [← hfilter a, h, hfilter b]

/-- **A generation keeps what was written**, when of the other dividers it read what the
document has. -/
theorem Document.Holds.set {read : Document} (h : cache.Holds writes) (entry : Entry)
    (hsame : (read.filter fun f => f.1 ≠ upto) = cache.filter fun f => f.1 ≠ upto) :
    (read.set upto entry).Holds (writes ++ [(upto, entry.summary)]) := by
  intro key
  rw [lookup_set, latest_concat]
  by_cases hkey : key = upto
  · rw [if_pos hkey, if_pos hkey]
    rfl
  · rw [if_neg hkey, if_neg hkey, lookup_eq_of_filter_eq hkey hsame]
    exact h key

/-- **A document that has what was written tells it.** -/
theorem summaryVerdict_tells (h : cache.Holds writes) (upto : ℤ) :
    Tells writes upto (summaryVerdict cache upto) := by
  have hnone : writes.latest upto = none → cache.lookup upto = none := fun hlatest => by
    have hkey := h upto
    rw [hlatest] at hkey
    exact Option.map_eq_none_iff.mp hkey
  refine ⟨fun summary hsummary => ?_, fun hlatest earlier hlt hsome hgreatest => ?_,
    fun hlatest hmissing => ?_⟩
  · have hkey := h upto
    rw [hsummary] at hkey
    obtain ⟨entry, hentry, heq⟩ := Option.map_eq_some_iff.mp hkey
    unfold summaryVerdict
    rw [hentry, ← heq]
  · have hmem : ∀ key, key ∈ (cache.map Prod.fst).filter (fun key => key < upto)
        ↔ key < upto ∧ (writes.latest key).isSome = true := by
      intro key
      rw [List.mem_filter, decide_eq_true_eq, and_comm]
      refine and_congr_right fun _ => ⟨fun hkey => ?_, fun hkey => ?_⟩
      · rw [← h key, Option.isSome_map]
        exact isSome_lookup_of_mem hkey
      · rw [← h key, Option.isSome_map] at hkey
        obtain ⟨entry, hentry⟩ := Option.isSome_iff_exists.mp hkey
        exact mem_keys_of_lookup hentry
    have hmax : ((cache.map Prod.fst).filter fun key => key < upto).max? = some earlier :=
      List.max?_eq_some_iff.mpr ⟨(hmem earlier).mpr ⟨hlt, hsome⟩, fun key hkey =>
        hgreatest key ((hmem key).mp hkey).1 ((hmem key).mp hkey).2⟩
    unfold summaryVerdict
    rw [hnone hlatest, hmax, ← h earlier]
  · have hempty : (cache.map Prod.fst).filter (fun key => key < upto) = [] := by
      refine List.filter_eq_nil_iff.mpr fun key hkey hlt => ?_
      have hsome := isSome_lookup_of_mem hkey
      have hlatest := hmissing key (of_decide_eq_true hlt)
      rw [← h key, Option.map_eq_none_iff] at hlatest
      rw [hlatest] at hsome
      cases hsome
    unfold summaryVerdict
    rw [hnone hlatest, hempty]
    rfl

end Documents

/-! ## Calls -/

structure ExtractCall where
  upto : Option ℤ
  /-- How many events there were when it began. -/
  since : ℕ
  /-- The end of its range, once the events are counted. -/
  stop : Option ℤ := none

/-- What an extraction gave; nothing where it raised. -/
structure ExtractAnswer where
  upto : Option ℤ
  since : ℕ
  extract : Option Extract
  deriving DecidableEq

/-- A lookup in its thread, behind the `stat`. -/
structure LookupCall where
  upto : ℤ
  /-- How many summaries were written when it began. -/
  since : ℕ
  st : StatSignature

structure LookupAnswer where
  upto : ℤ
  since : ℕ
  verdict : Option String × Bool
  deriving DecidableEq

inductive Phase where
  /-- It asks the light backends, of which some are left. -/
  | asking (options : ℕ) (failed : Bool)
  /-- It has a summary, and its thread is to load the document. -/
  | reading (summary : String)
  | writing (summary : String) (cache : Document)
  | returned (summary : String)
  | raised

structure Generation where
  upto : ℤ
  phase : Phase

/-- Where a generation is when some backends are left: with none it raises what the last that
failed raised. -/
def Phase.next (options : ℕ) (failed : Bool) : Phase :=
  match options with
  | 0 => if failed then .raised else .returned ""
  | options + 1 => .asking (options + 1) failed

/-- The backend that is asked answers. -/
def Phase.answered (options : ℕ) (failed : Bool) : Except String String → Phase
  | .error _ => .next options true
  | .ok summary => if summary = "" then .next options failed else .reading summary

/-- The file of a session's summaries, below the directory of the sessions. -/
def cachePath (session : String) : String := session ++ "/data/recap_summaries.json"

/-- A session, what is remembered of it, and what goes on. -/
structure RecapState (parse : List UInt8 → Option Event) where
  /-- The events and how they are read. -/
  range : RangeState parse := {}
  /-- `_extract_memo`. -/
  extractMemo : LruMap (String × ℤ) Extract := ⟨8, ∅⟩
  /-- `_summary_cache_memo`. -/
  summaryMemo : LruMap String (Stamped StatSignature Document) := ⟨8, ∅⟩
  /-- `recap_summaries.json`. -/
  file : Option (StampedSource StatSignature Document) := none
  extracts : List ExtractCall := []
  lookups : List LookupCall := []
  generations : List Generation := []
  /-- What was written so far. -/
  writes : Writes := []
  extracted : List ExtractAnswer := []
  found : List LookupAnswer := []

/-- What happens next. -/
inductive RecapAction (parse : List UInt8 → Option Event) where
  /-- Something happens to the events. -/
  | events (a : RangeAction parse)
  /-- `extract_recap_memo_hit`. -/
  | extractRecapMemoHit (upto : Option ℤ)
  /-- `extract_recap` is called. -/
  | extractRecap (upto : Option ℤ)
  /-- It counts the events and asks the memo again. -/
  | count (i : ℕ)
  /-- It loads the range and extracts. -/
  | load (i : ℕ)
  /-- `summary_lookup_memo_hit`. -/
  | summaryLookupMemoHit (upto : ℤ)
  /-- `lookup_cached_summary` is called and takes the `stat`. -/
  | lookupCachedSummary (upto : ℤ)
  | read (i : ℕ)
  /-- A generation that has so many backends to ask. -/
  | generateAndCacheSummary (upto : ℤ) (options : ℕ)
  /-- A backend answers a generation. -/
  | answer (i : ℕ) (reply : Except String String)
  /-- `_load_cache` of a generation. -/
  | loadCache (i : ℕ)
  /-- `write_json_atomically` of a generation. -/
  | replace (i : ℕ) (generatedAt : String) (st : StatSignature)
  /-- Another session's extraction is kept. -/
  | otherExtract (key : String × ℤ) (extract : Extract)
  /-- Another session's document is kept. -/
  | otherSummary (path : String) (entry : Stamped StatSignature Document)

namespace RecapState

variable {parse : List UInt8 → Option Event} (session : String) (s : RecapState parse)

def eventCount : ℕ := s.range.appended.length

/-- `_load_cache`. -/
def document : Document := (s.file.map fun file => file.content).getD []

def stamps : List StatSignature := (s.file.map StampedSource.stamps).getD []

/-- `get_chat_event_count_sync`. -/
def getChatEventCount : ℕ × ChatMemos :=
  match s.range.memos.eventsCache with
  | some events => (s.range.files.archiveOffset + events.length, s.range.memos)
  | none =>
    let (lines, memos) := s.range.memos.countNdjsonLines s.range.files.live
    (s.range.files.archiveOffset + lines, memos)

def answerExtract (upto : Option ℤ) (since : ℕ) (extract : Option Extract) : RecapState parse :=
  { s with extracted := s.extracted ++ [⟨upto, since, extract⟩] }

def answerLookup (upto : ℤ) (since : ℕ) (verdict : Option String × Bool) : RecapState parse :=
  { s with found := s.found ++ [⟨upto, since, verdict⟩] }

/-- An extraction that is kept under an end is served. -/
def serveExtract (upto : Option ℤ) (since : ℕ) (stop : ℤ) (extract : Extract) :
    RecapState parse :=
  { s with extractMemo := s.extractMemo.touch (session, stop) }.answerExtract upto since
    (some extract)

/-- What `extract_recap` finds kept before it counts. -/
def extractHit : Option ℤ → Option (ℤ × Extract)
  | none => none
  | some upto => (s.extractMemo.lookup (session, upto + 1)).map fun extract => (upto + 1, extract)

def extractRecapMemoHit (upto : Option ℤ) : RecapState parse :=
  match s.extractHit session upto with
  | some (stop, extract) => s.serveExtract session upto s.eventCount stop extract
  | none => s

/-- `extract_recap`, until it counts. -/
def extractRecap (upto : Option ℤ) : RecapState parse :=
  match s.extractHit session upto with
  | some (stop, extract) => s.serveExtract session upto s.eventCount stop extract
  | none => { s with extracts := s.extracts ++ [⟨upto, s.eventCount, none⟩] }

/-- `extract_recap` counts the events. -/
def count (i : ℕ) (call : ExtractCall) : RecapState parse :=
  let (total, memos) := s.getChatEventCount
  let s := { s with range := { s.range with memos } }
  let stop := stopOf call.upto total
  match s.extractMemo.lookup (session, stop) with
  | some extract =>
    { s with extracts := s.extracts.eraseIdx i }.serveExtract session call.upto call.since stop
      extract
  | none => { s with extracts := s.extracts.set i { call with stop := some stop } }

/-- `extract_recap` loads the range. -/
def load (i : ℕ) (call : ExtractCall) (stop : ℤ) : RecapState parse :=
  let ((events, _), memos) := s.range.memos.loadChatEventsRange s.range.files 0 stop.toNat
  let s := { s with range := { s.range with memos }, extracts := s.extracts.eraseIdx i }
  match extractFromEvents events with
  | none => s.answerExtract call.upto call.since none
  | some result =>
    { s with extractMemo := s.extractMemo.store (session, stop) result }.answerExtract call.upto
      call.since (some result)

/-- What is kept of the document under a signature. -/
def freshSummaries (st : StatSignature) : Option Document :=
  Stamped.fresh (s.summaryMemo.lookup (cachePath session)) st

def serveSummary (upto : ℤ) (cache : Document) : RecapState parse :=
  { s with summaryMemo := s.summaryMemo.touch (cachePath session) }.answerLookup upto
    s.writes.length (summaryVerdict cache upto)

def summaryLookupMemoHit (upto : ℤ) : RecapState parse :=
  match s.file with
  | none => s.answerLookup upto s.writes.length (none, false)
  | some file =>
    match s.freshSummaries session file.stamp with
    | some cache => s.serveSummary session upto cache
    | none => { s with summaryMemo := s.summaryMemo.touch (cachePath session) }

/-- `lookup_cached_summary`, until it reads. -/
def lookupCachedSummary (upto : ℤ) : RecapState parse :=
  match s.file with
  | none => s.answerLookup upto s.writes.length (summaryVerdict [] upto)
  | some file =>
    match s.freshSummaries session file.stamp with
    | some cache => s.serveSummary session upto cache
    | none =>
      { s with
        summaryMemo := s.summaryMemo.touch (cachePath session)
        lookups := s.lookups ++ [⟨upto, s.writes.length, file.stamp⟩] }

/-- `lookup_cached_summary` reads the file and keeps the document under what it had. -/
def read (i : ℕ) (call : LookupCall) (cache : Document) : RecapState parse :=
  { s with
    lookups := s.lookups.eraseIdx i
    summaryMemo := s.summaryMemo.store (cachePath session) ⟨cache, call.st⟩ }.answerLookup
      call.upto call.since (summaryVerdict cache call.upto)

/-- A generation goes on. -/
def setPhase (i : ℕ) (upto : ℤ) (phase : Phase) : RecapState parse :=
  { s with generations := s.generations.set i ⟨upto, phase⟩ }

def replaced (cache : Document) (st : StatSignature) : StampedSource StatSignature Document :=
  match s.file with
  | none => ⟨⟨cache, st⟩, []⟩
  | some file => file.write cache st

/-- A generation replaces the file with what it loaded, its entry set. -/
def replace (i : ℕ) (upto : ℤ) (summary : String) (cache : Document) (generatedAt : String)
    (st : StatSignature) : RecapState parse :=
  { s with
    file := some (s.replaced (cache.set upto ⟨summary, generatedAt⟩) st)
    writes := s.writes ++ [(upto, summary)] }.setPhase i upto (.returned summary)

def step : RecapAction parse → Option (RecapState parse)
  | .events a => (s.range.step a).map fun range => { s with range }
  | .extractRecapMemoHit upto => some (s.extractRecapMemoHit session upto)
  | .extractRecap upto => some (s.extractRecap session upto)
  | .count i =>
    match s.extracts[i]? with
    | some ⟨upto, since, none⟩ => some (s.count session i ⟨upto, since, none⟩)
    | _ => none
  | .load i =>
    match s.extracts[i]? with
    | some ⟨upto, since, some stop⟩ => some (s.load session i ⟨upto, since, some stop⟩ stop)
    | _ => none
  | .summaryLookupMemoHit upto => some (s.summaryLookupMemoHit session upto)
  | .lookupCachedSummary upto => some (s.lookupCachedSummary session upto)
  | .read i =>
    match s.lookups[i]?, s.file with
    | some call, some file => some (s.read session i call file.content)
    | _, _ => none
  | .generateAndCacheSummary upto options =>
    some { s with generations := s.generations ++ [⟨upto, .next options false⟩] }
  | .answer i reply =>
    match s.generations[i]? with
    | some ⟨upto, .asking (options + 1) failed⟩ =>
      some (s.setPhase i upto (.answered options failed reply))
    | _ => none
  | .loadCache i =>
    match s.generations[i]? with
    | some ⟨upto, .reading summary⟩ => some (s.setPhase i upto (.writing summary s.document))
    | _ => none
  | .replace i generatedAt st =>
    match s.generations[i]? with
    | some ⟨upto, .writing summary cache⟩ =>
      some (s.replace i upto summary cache generatedAt st)
    | _ => none
  | .otherExtract key extract =>
    if key.1 ≠ session then some { s with extractMemo := s.extractMemo.store key extract }
    else none
  | .otherSummary path entry =>
    if path ≠ cachePath session then
      some { s with summaryMemo := s.summaryMemo.store path entry }
    else none

def system : TransitionSystem (RecapState parse) (RecapAction parse) := ⟨step session⟩

/-! ## What is claimed -/

/-- **The recaps are right.** -/
structure Right : Prop where
  /-- Every lookup told what was written, at some moment between its start and its end. -/
  found : ∀ a ∈ s.found, ∃ n, a.since ≤ n ∧ n ≤ s.writes.length
    ∧ Tells (s.writes.take n) a.upto a.verdict
  returned : ∀ g ∈ s.generations, ∀ summary, g.phase = .returned summary → summary ≠ "" →
    (g.upto, summary) ∈ s.writes
  /-- Every extraction is that of the events up to its divider, at some moment between its start
  and its end. -/
  extracted : ∀ a ∈ s.extracted, ∃ n, a.since ≤ n ∧ n ≤ s.eventCount
    ∧ a.extract = extractUpTo (s.range.appended.take n) a.upto

/-- **The condition on a step.** -/
def Meets : RecapAction parse → Prop
  | .events a => s.range.InodeFresh a
  | .replace i _ st =>
    match s.generations[i]? with
    | some ⟨upto, .writing _ cache⟩ =>
      -- of the other dividers, the document that was read has what the file has
      ((cache.filter fun f => f.1 ≠ upto) = s.document.filter fun f => f.1 ≠ upto)
        -- and the signature of the file moves
        ∧ st ∉ s.stamps
    | _ => True
  | _ => True

instance (r : RangeState parse) (a : RangeAction parse) : Decidable (r.InodeFresh a) := by
  unfold RangeState.InodeFresh
  split
  · next rotation =>
    exact decidable_of_iff ((∀ f ∈ r.files.archive.files, f.1 ≤ rotation.week)
      ∧ ∀ memo ∈ r.memos.live, memo.ino ≠ rotation.ino) Iff.rfl
  · exact isTrue trivial

attribute [local instance] StatSignature.lawfulBEq in
instance (a : RecapAction parse) : Decidable (s.Meets a) := by
  unfold Meets
  split
  · infer_instance
  · split <;> infer_instance
  · exact isTrue trivial

/-! ## What an extraction gives -/

theorem stopOf_le (upto : Option ℤ) (count : ℕ) : stopOf upto count ≤ count := by
  unfold stopOf
  split
  · exact le_rfl
  · exact min_le_right _ _

/-- **An extraction needs the events before its end only**, whatever came after them. -/
theorem extractUpTo_take (events : List Event) (upto : Option ℤ) {n : ℕ} (hn : n ≤ events.length) :
    extractUpTo (events.take n) upto
      = extractFromEvents (events.take (stopOf upto n).toNat) := by
  have hlength : (events.take n).length = n := List.length_take_of_le hn
  have hle : (stopOf upto n).toNat ≤ n := by
    have hstop := stopOf_le upto n
    omega
  unfold extractUpTo
  rw [hlength, List.take_take, Nat.min_eq_left hle]

/-- What holds of the extractions in every state. -/
structure ExtractInv : Prop where
  range : s.range.Inv
  /-- What is kept under an end is the extraction of the events before it. -/
  memo : ∀ stop extract, s.extractMemo.lookup (session, stop) = some extract →
    stop ≤ s.eventCount
      ∧ extractFromEvents (s.range.appended.take stop.toNat) = some extract
  /-- A call that counted has the end of a moment since its start. -/
  extracts : ∀ c ∈ s.extracts, c.since ≤ s.eventCount ∧ ∀ stop, c.stop = some stop →
    ∃ n, c.since ≤ n ∧ n ≤ s.eventCount ∧ stop = stopOf c.upto n
  extracted : ∀ a ∈ s.extracted, ∃ n, a.since ≤ n ∧ n ≤ s.eventCount
    ∧ a.extract = extractUpTo (s.range.appended.take n) a.upto

variable {session s} {t : RecapState parse}

theorem getChatEventCount_spec (h : s.range.Inv) :
    s.getChatEventCount.1 = s.eventCount
      ∧ s.getChatEventCount.2.Sound s.range.files := by
  have hcount : s.eventCount = s.range.files.archiveOffset + s.range.files.live.rows.length := by
    unfold eventCount
    rw [← h.events, ChatFiles.events, rowEvents, List.length_map, List.length_append, h.offset]
  unfold getChatEventCount
  split
  · next events hevents =>
    refine ⟨?_, h.sound⟩
    rw [hcount, h.sound.eventsCache events hevents, rowEvents, List.length_map]
  · obtain ⟨hlines, hsound⟩ := ChatMemos.countNdjsonLines_spec h.sound
    refine ⟨?_, hsound⟩
    rw [hcount, ← hlines]

theorem appended_of_step {r r' : RangeState parse} {a : RangeAction parse}
    (hstep : r.step a = some r') : ∃ more, r'.appended = r.appended ++ more := by
  have hsame : r'.appended = r.appended → ∃ more, r'.appended = r.appended ++ more :=
    fun heq => ⟨[], heq.trans (List.append_nil _).symm⟩
  cases a with
  | saveChatEvent row mtime =>
    simp only [RangeState.step] at hstep
    split at hstep
    · cases hstep
      exact ⟨[row.event], rfl⟩
    · cases hstep
  | archiveOldChatEvents count r =>
    simp only [RangeState.step] at hstep
    split at hstep
    · cases hstep
      exact hsame rfl
    · split at hstep
      · cases hstep
        exact hsame rfl
      · cases hstep
  | loadChatEventsRange start stop => cases hstep; exact hsame rfl
  | loadChatEvents => cases hstep; exact hsame rfl
  | clearCache => cases hstep; exact hsame rfl
  | drop kind => cases hstep; exact hsame rfl

namespace ExtractInv

theorem memos (h : s.ExtractInv session) {memos : ChatMemos} (hsound : memos.Sound s.range.files) :
    ExtractInv session { s with range := { s.range with memos } } :=
  ⟨⟨hsound, h.range.offset, h.range.events⟩, h.memo, h.extracts, h.extracted⟩

theorem appended (h : s.ExtractInv session) {range : RangeState parse} (hrange : range.Inv)
    {more : List Event} (hmore : range.appended = s.range.appended ++ more) :
    ExtractInv session { s with range } := by
  have hlength : s.eventCount ≤ range.appended.length := by
    rw [hmore, List.length_append]
    exact Nat.le_add_right _ _
  have htake : ∀ n ≤ s.eventCount, range.appended.take n = s.range.appended.take n := by
    intro n hn
    rw [hmore, List.take_append_of_le_length hn]
  refine ⟨hrange, fun stop extract hlookup => ?_, fun c hc => ?_, fun a ha => ?_⟩
  · obtain ⟨hstop, hextract⟩ := h.memo stop extract hlookup
    refine ⟨le_trans hstop (Int.ofNat_le.mpr hlength), ?_⟩
    show extractFromEvents (range.appended.take stop.toNat) = _
    rw [htake stop.toNat (by omega)]
    exact hextract
  · obtain ⟨hsince, hstop⟩ := h.extracts c hc
    refine ⟨Nat.le_trans hsince hlength, fun stop hcall => ?_⟩
    obtain ⟨n, hn, hle, heq⟩ := hstop stop hcall
    exact ⟨n, hn, Nat.le_trans hle hlength, heq⟩
  · obtain ⟨n, hn, hle, heq⟩ := h.extracted a ha
    refine ⟨n, hn, Nat.le_trans hle hlength, ?_⟩
    show a.extract = extractUpTo (range.appended.take n) a.upto
    rw [htake n hle]
    exact heq

theorem eraseIdx (h : s.ExtractInv session) (i : ℕ) :
    ExtractInv session { s with extracts := s.extracts.eraseIdx i } :=
  ⟨h.range, h.memo, fun c hc => h.extracts c (List.mem_of_mem_eraseIdx hc), h.extracted⟩

theorem answer (h : s.ExtractInv session) {upto : Option ℤ} {since n : ℕ} (hsince : since ≤ n)
    (hn : n ≤ s.eventCount) {extract : Option Extract}
    (hextract : extract = extractFromEvents (s.range.appended.take (stopOf upto n).toNat)) :
    (s.answerExtract upto since extract).ExtractInv session := by
  refine ⟨h.range, h.memo, h.extracts, fun a ha => ?_⟩
  rcases List.mem_append.mp ha with hold | hnew
  · exact h.extracted a hold
  · rw [List.mem_singleton.mp hnew]
    exact ⟨n, hsince, hn, hextract.trans (extractUpTo_take _ _ hn).symm⟩

theorem serve (h : s.ExtractInv session) {upto : Option ℤ} {since n : ℕ} (hsince : since ≤ n)
    (hn : n ≤ s.eventCount) {extract : Extract}
    (hlookup : s.extractMemo.lookup (session, stopOf upto n) = some extract) :
    (s.serveExtract session upto since (stopOf upto n) extract).ExtractInv session := by
  have htouch : ExtractInv session
      { s with extractMemo := s.extractMemo.touch (session, stopOf upto n) } := by
    refine ⟨h.range, fun stop extract hkept => ?_, h.extracts, h.extracted⟩
    rw [LruMap.lookup_touch] at hkept
    exact h.memo stop extract hkept
  exact htouch.answer hsince hn (h.memo _ _ hlookup).2.symm

/-- **What is kept behind a divider is of the present**: the events reached it. -/
theorem stopOf_of_hit (h : s.ExtractInv session) {upto : Option ℤ} {stop : ℤ}
    {extract : Extract} (hhit : s.extractHit session upto = some (stop, extract)) :
    stop = stopOf upto s.eventCount
      ∧ s.extractMemo.lookup (session, stop) = some extract := by
  cases upto with
  | none => cases hhit
  | some upto =>
    obtain ⟨kept, hkept, heq⟩ := Option.map_eq_some_iff.mp hhit
    cases heq
    exact ⟨(min_eq_left (h.memo _ _ hkept).1).symm, hkept⟩

theorem extractRecapMemoHit (h : s.ExtractInv session) (upto : Option ℤ) :
    (s.extractRecapMemoHit session upto).ExtractInv session := by
  unfold RecapState.extractRecapMemoHit
  split
  · next stop extract hhit =>
    obtain ⟨rfl, hlookup⟩ := h.stopOf_of_hit hhit
    exact h.serve le_rfl le_rfl hlookup
  · exact h

theorem extractRecap (h : s.ExtractInv session) (upto : Option ℤ) :
    (s.extractRecap session upto).ExtractInv session := by
  unfold RecapState.extractRecap
  split
  · next stop extract hhit =>
    obtain ⟨rfl, hlookup⟩ := h.stopOf_of_hit hhit
    exact h.serve le_rfl le_rfl hlookup
  · refine ⟨h.range, h.memo, fun c hc => ?_, h.extracted⟩
    rcases List.mem_append.mp hc with hold | hnew
    · exact h.extracts c hold
    · rw [List.mem_singleton.mp hnew]
      exact ⟨le_rfl, fun _ hnone => nomatch hnone⟩

theorem count (h : s.ExtractInv session) {i : ℕ} {call : ExtractCall} (hcall : call ∈ s.extracts) :
    (s.count session i call).ExtractInv session := by
  obtain ⟨hcount, hsound⟩ := getChatEventCount_spec h.range
  have hsince := (h.extracts call hcall).1
  unfold RecapState.count
  dsimp only
  rw [hcount]
  split
  · next extract hlookup => exact ((h.memos hsound).eraseIdx i).serve hsince le_rfl hlookup
  · refine ⟨(h.memos hsound).range, h.memo, fun c hc => ?_, h.extracted⟩
    rcases List.mem_or_eq_of_mem_set hc with hold | heq
    · exact h.extracts c hold
    · rw [heq]
      refine ⟨hsince, fun stop hstop => ?_⟩
      cases hstop
      exact ⟨s.eventCount, hsince, le_rfl, rfl⟩

theorem load (h : s.ExtractInv session) {i : ℕ} {call : ExtractCall} (hcall : call ∈ s.extracts)
    {stop : ℤ} (hstop : call.stop = some stop) :
    (s.load session i call stop).ExtractInv session := by
  obtain ⟨n, hsince, hn, rfl⟩ := (h.extracts call hcall).2 stop hstop
  obtain ⟨hevents, hsound⟩ := ChatMemos.loadChatEventsRange_eq_slice h.range.sound h.range.offset
    0 (stopOf call.upto n).toNat
  have hslice : (s.range.memos.loadChatEventsRange s.range.files 0
      (stopOf call.upto n).toNat).1.1
        = s.range.appended.take (stopOf call.upto n).toNat := by
    rw [hevents, List.drop_zero, h.range.events]
  have hbase := (h.memos hsound).eraseIdx i
  unfold RecapState.load
  dsimp only
  rw [hslice]
  split
  · next hraised => exact hbase.answer hsince hn hraised.symm
  · next result hresult =>
    have hstored : ExtractInv session { s with
        range := { s.range with memos := (s.range.memos.loadChatEventsRange s.range.files 0
          (stopOf call.upto n).toNat).2 }
        extracts := s.extracts.eraseIdx i
        extractMemo := s.extractMemo.store (session, stopOf call.upto n) result } := by
      refine ⟨hbase.range, fun key extract hlookup => ?_, hbase.extracts, hbase.extracted⟩
      rcases LruMap.lookup_store hlookup with ⟨hkey, rfl⟩ | ⟨-, hold⟩
      · have heq : key = stopOf call.upto n := (Prod.mk.inj hkey).2
        rw [heq]
        exact ⟨le_trans (stopOf_le _ _) (Int.ofNat_le.mpr hn), hresult⟩
      · exact h.memo key extract hold
    exact hstored.answer hsince hn hresult.symm

end ExtractInv

/-! ## What a lookup tells -/

variable (session s) in
/-- What holds of the summaries in every state. -/
structure SummaryInv : Prop where
  holds : s.document.Holds s.writes
  /-- What is kept is true to the file. -/
  memo : ∀ entry, s.summaryMemo.lookup (cachePath session) = some entry →
    ∃ file, s.file = some file ∧ entry.TrueTo file
  lookups : ∀ c ∈ s.lookups, c.since ≤ s.writes.length
    ∧ ∃ file, s.file = some file ∧ c.st ∈ file.stamps
  found : ∀ a ∈ s.found, ∃ n, a.since ≤ n ∧ n ≤ s.writes.length
    ∧ Tells (s.writes.take n) a.upto a.verdict
  returned : ∀ g ∈ s.generations, ∀ summary, g.phase = .returned summary → summary ≠ "" →
    (g.upto, summary) ∈ s.writes

namespace SummaryInv

theorem answer (h : s.SummaryInv session) (upto : ℤ) {since : ℕ}
    (hsince : since ≤ s.writes.length) :
    (s.answerLookup upto since (summaryVerdict s.document upto)).SummaryInv session := by
  refine ⟨h.holds, h.memo, h.lookups, fun a ha => ?_, h.returned⟩
  rcases List.mem_append.mp ha with hold | hnew
  · exact h.found a hold
  · rw [List.mem_singleton.mp hnew]
    refine ⟨s.writes.length, hsince, le_rfl, ?_⟩
    show Tells (s.writes.take s.writes.length) upto (summaryVerdict s.document upto)
    rw [List.take_length]
    exact summaryVerdict_tells h.holds upto

theorem touch (h : s.SummaryInv session) :
    SummaryInv session { s with summaryMemo := s.summaryMemo.touch (cachePath session) } := by
  refine ⟨h.holds, fun entry hentry => ?_, h.lookups, h.found, h.returned⟩
  rw [LruMap.lookup_touch] at hentry
  exact h.memo entry hentry

/-- **What is kept under the present signature is the file's document.** -/
theorem fresh_eq (h : s.SummaryInv session) {file : StampedSource StatSignature Document}
    (hfile : s.file = some file) {cache : Document}
    (hfresh : s.freshSummaries session file.stamp = some cache) : cache = s.document := by
  have hcontent : cache = file.content := by
    refine Stamped.fresh_eq_some (fun entry hentry => ?_) hfresh
    obtain ⟨file', hfile', htrue⟩ := h.memo entry hentry
    rw [hfile] at hfile'
    cases hfile'
    exact htrue
  rw [hcontent, document, hfile]
  rfl

theorem document_of_none (hfile : s.file = none) : s.document = [] := by
  rw [document, hfile]
  rfl

theorem summaryLookupMemoHit (h : s.SummaryInv session) (upto : ℤ) :
    (s.summaryLookupMemoHit session upto).SummaryInv session := by
  unfold RecapState.summaryLookupMemoHit
  split
  · next hfile =>
    have hanswer := h.answer upto le_rfl
    rw [document_of_none hfile] at hanswer
    exact hanswer
  · next file hfile =>
    split
    · next cache hfresh =>
      rw [h.fresh_eq hfile hfresh]
      exact h.touch.answer upto le_rfl
    · exact h.touch

theorem lookupCachedSummary (h : s.SummaryInv session) (upto : ℤ) :
    (s.lookupCachedSummary session upto).SummaryInv session := by
  unfold RecapState.lookupCachedSummary
  split
  · next hfile =>
    have hanswer := h.answer upto le_rfl
    rw [document_of_none hfile] at hanswer
    exact hanswer
  · next file hfile =>
    split
    · next cache hfresh =>
      rw [h.fresh_eq hfile hfresh]
      exact h.touch.answer upto le_rfl
    · have htouch := h.touch
      refine ⟨htouch.holds, htouch.memo, fun c hc => ?_, htouch.found, htouch.returned⟩
      rcases List.mem_append.mp hc with hold | hnew
      · exact h.lookups c hold
      · rw [List.mem_singleton.mp hnew]
        exact ⟨le_rfl, file, hfile, List.mem_cons_self⟩

theorem read (h : s.SummaryInv session) {i : ℕ} {call : LookupCall} (hcall : call ∈ s.lookups)
    {file : StampedSource StatSignature Document} (hfile : s.file = some file) :
    (s.read session i call file.content).SummaryInv session := by
  obtain ⟨hsince, file', hfile', hstamp⟩ := h.lookups call hcall
  rw [hfile] at hfile'
  cases hfile'
  have hdocument : s.document = file.content := by
    rw [document, hfile]
    rfl
  have hstored : SummaryInv session { s with
      lookups := s.lookups.eraseIdx i
      summaryMemo := s.summaryMemo.store (cachePath session) ⟨file.content, call.st⟩ } := by
    refine ⟨h.holds, fun entry hentry => ?_,
      fun c hc => h.lookups c (List.mem_of_mem_eraseIdx hc), h.found, h.returned⟩
    rcases LruMap.lookup_store hentry with ⟨-, rfl⟩ | ⟨-, hold⟩
    · exact ⟨file, hfile, hstamp, fun _ => rfl⟩
    · exact h.memo entry hold
  have hanswer := hstored.answer call.upto hsince
  have hsame : RecapState.document { s with
      lookups := s.lookups.eraseIdx i
      summaryMemo := s.summaryMemo.store (cachePath session) ⟨file.content, call.st⟩ }
        = file.content := hdocument
  rw [hsame] at hanswer
  exact hanswer

theorem setPhase (h : s.SummaryInv session) (i : ℕ) (upto : ℤ) {phase : Phase}
    (hphase : ∀ summary, phase = .returned summary → summary ≠ "" → (upto, summary) ∈ s.writes) :
    (s.setPhase i upto phase).SummaryInv session := by
  refine ⟨h.holds, h.memo, h.lookups, h.found, fun g hg summary hreturned hne => ?_⟩
  rcases List.mem_or_eq_of_mem_set hg with hold | heq
  · exact h.returned g hold summary hreturned hne
  · rw [heq] at hreturned ⊢
    exact hphase summary hreturned hne

/-- **A replacement keeps what was written**, when of the other dividers the document it loaded
has what the file has. -/
theorem replace (h : s.SummaryInv session) (i : ℕ) {upto : ℤ} (summary : String)
    {cache : Document} (generatedAt : String) {st : StatSignature}
    (hsame : (cache.filter fun f => f.1 ≠ upto) = s.document.filter fun f => f.1 ≠ upto)
    (hst : st ∉ s.stamps) :
    (s.replace i upto summary cache generatedAt st).SummaryInv session := by
  have hwrites : s.writes.length ≤ (s.writes ++ [(upto, summary)]).length := by
    rw [List.length_append]
    exact Nat.le_add_right _ _
  have hfile : ∀ file, s.file = some file →
      s.replaced (cache.set upto ⟨summary, generatedAt⟩) st
        = file.write (cache.set upto ⟨summary, generatedAt⟩) st := fun file hfile => by
    rw [replaced, hfile]
  have hstamps : ∀ file, s.file = some file → st ∉ file.stamps := fun file hfile => by
    rw [stamps, hfile] at hst
    exact hst
  have hcontent : (s.replaced (cache.set upto ⟨summary, generatedAt⟩) st).content
      = cache.set upto ⟨summary, generatedAt⟩ := by
    unfold replaced
    split <;> rfl
  have hbase : SummaryInv session { s with
      file := some (s.replaced (cache.set upto ⟨summary, generatedAt⟩) st)
      writes := s.writes ++ [(upto, summary)] } := by
    refine ⟨?_, fun entry hentry => ?_, fun c hc => ?_, fun a ha => ?_,
      fun g hg text hreturned hne => List.mem_append_left _ (h.returned g hg text hreturned hne)⟩
    · show (s.replaced (cache.set upto ⟨summary, generatedAt⟩) st).content.Holds _
      rw [hcontent]
      exact h.holds.set ⟨summary, generatedAt⟩ hsame
    · obtain ⟨file, hold, htrue⟩ := h.memo entry hentry
      refine ⟨_, rfl, ?_⟩
      rw [hfile file hold]
      exact htrue.write _ (hstamps file hold)
    · obtain ⟨hsince, file, hold, hmem⟩ := h.lookups c hc
      refine ⟨Nat.le_trans hsince hwrites, _, rfl, ?_⟩
      rw [hfile file hold]
      exact List.mem_cons_of_mem _ hmem
    · obtain ⟨n, hsince, hn, htells⟩ := h.found a ha
      refine ⟨n, hsince, Nat.le_trans hn hwrites, ?_⟩
      rw [List.take_append_of_le_length hn]
      exact htells
  refine hbase.setPhase i upto fun text htext _ => ?_
  cases htext
  exact List.mem_append_right _ List.mem_cons_self

end SummaryInv

/-! ## Every run -/

variable (session s) in
/-- What holds in every state. -/
structure Inv : Prop where
  extracts : s.ExtractInv session
  summaries : s.SummaryInv session

theorem inv_start : ({} : RecapState parse).Inv session where
  extracts := ⟨RangeState.inv_initial, fun _ _ h => (nomatch h), fun _ h => (nomatch h),
    fun _ h => (nomatch h)⟩
  summaries := ⟨holds_nil, fun _ h => (nomatch h), fun _ h => (nomatch h),
    fun _ h => (nomatch h), fun _ h => (nomatch h)⟩

theorem ne_returned_of_next {options : ℕ} {failed : Bool} {summary : String}
    (h : Phase.next options failed = .returned summary) : summary = "" := by
  unfold Phase.next at h
  split at h
  · split at h
    · cases h
    · cases h
      rfl
  · cases h

theorem ne_returned_of_answered {options : ℕ} {failed : Bool} {reply : Except String String}
    {summary : String} (h : Phase.answered options failed reply = .returned summary) :
    summary = "" := by
  unfold Phase.answered at h
  split at h
  · exact ne_returned_of_next h
  · split at h
    · exact ne_returned_of_next h
    · cases h

theorem SummaryInv.of_eq (h : s.SummaryInv session) (hfile : t.file = s.file)
    (hmemo : t.summaryMemo = s.summaryMemo) (hlookups : t.lookups = s.lookups)
    (hgenerations : t.generations = s.generations) (hwrites : t.writes = s.writes)
    (hfound : t.found = s.found) : t.SummaryInv session := by
  have hdocument : t.document = s.document := by
    rw [document, document, hfile]
  refine ⟨?_, ?_, ?_, ?_, ?_⟩
  · rw [hdocument, hwrites]
    exact h.holds
  · rw [hmemo, hfile]
    exact h.memo
  · rw [hlookups, hwrites, hfile]
    exact h.lookups
  · rw [hfound, hwrites]
    exact h.found
  · rw [hgenerations, hwrites]
    exact h.returned

theorem ExtractInv.of_eq (h : s.ExtractInv session) (hrange : t.range = s.range)
    (hmemo : t.extractMemo = s.extractMemo) (hextracts : t.extracts = s.extracts)
    (hextracted : t.extracted = s.extracted) : t.ExtractInv session := by
  have hcount : t.eventCount = s.eventCount := by
    rw [eventCount, eventCount, hrange]
  refine ⟨?_, ?_, ?_, ?_⟩
  · rw [hrange]
    exact h.range
  · rw [hmemo, hcount, hrange]
    exact h.memo
  · rw [hextracts, hcount]
    exact h.extracts
  · rw [hextracted, hcount, hrange]
    exact h.extracted

theorem summaries_extractRecapMemoHit (h : s.SummaryInv session) (upto : Option ℤ) :
    (s.extractRecapMemoHit session upto).SummaryInv session := by
  unfold extractRecapMemoHit
  split <;> exact h.of_eq rfl rfl rfl rfl rfl rfl

theorem summaries_extractRecap (h : s.SummaryInv session) (upto : Option ℤ) :
    (s.extractRecap session upto).SummaryInv session := by
  unfold extractRecap
  split <;> exact h.of_eq rfl rfl rfl rfl rfl rfl

theorem summaries_count (h : s.SummaryInv session) (i : ℕ) (call : ExtractCall) :
    (s.count session i call).SummaryInv session := by
  unfold count
  dsimp only
  split <;> exact h.of_eq rfl rfl rfl rfl rfl rfl

theorem summaries_load (h : s.SummaryInv session) (i : ℕ) (call : ExtractCall) (stop : ℤ) :
    (s.load session i call stop).SummaryInv session := by
  unfold load
  dsimp only
  split <;> exact h.of_eq rfl rfl rfl rfl rfl rfl

theorem extracts_summaryLookupMemoHit (h : s.ExtractInv session) (upto : ℤ) :
    (s.summaryLookupMemoHit session upto).ExtractInv session := by
  unfold summaryLookupMemoHit
  split
  · exact h.of_eq rfl rfl rfl rfl
  · split <;> exact h.of_eq rfl rfl rfl rfl

theorem extracts_lookupCachedSummary (h : s.ExtractInv session) (upto : ℤ) :
    (s.lookupCachedSummary session upto).ExtractInv session := by
  unfold lookupCachedSummary
  split
  · exact h.of_eq rfl rfl rfl rfl
  · split <;> exact h.of_eq rfl rfl rfl rfl

/-- **Every step that meets the condition** keeps the recaps right. -/
theorem Inv.step (h : s.Inv session) {a : RecapAction parse} (hmeets : s.Meets a)
    (hstep : s.step session a = some t) : t.Inv session := by
  cases a with
  | events a =>
    obtain ⟨range, hrange, rfl⟩ := Option.map_eq_some_iff.mp hstep
    obtain ⟨more, hmore⟩ := appended_of_step hrange
    exact ⟨h.extracts.appended (h.extracts.range.step hmeets hrange) hmore,
      h.summaries.of_eq rfl rfl rfl rfl rfl rfl⟩
  | extractRecapMemoHit upto =>
    cases hstep
    exact ⟨h.extracts.extractRecapMemoHit upto, summaries_extractRecapMemoHit h.summaries upto⟩
  | extractRecap upto =>
    cases hstep
    exact ⟨h.extracts.extractRecap upto, summaries_extractRecap h.summaries upto⟩
  | count i =>
    simp only [RecapState.step] at hstep
    split at hstep
    · next upto since hcall =>
      cases hstep
      exact ⟨h.extracts.count (List.mem_of_getElem? hcall), summaries_count h.summaries i _⟩
    · cases hstep
  | load i =>
    simp only [RecapState.step] at hstep
    split at hstep
    · next upto since stop hcall =>
      cases hstep
      exact ⟨h.extracts.load (List.mem_of_getElem? hcall) rfl,
        summaries_load h.summaries i _ stop⟩
    · cases hstep
  | summaryLookupMemoHit upto =>
    cases hstep
    exact ⟨extracts_summaryLookupMemoHit h.extracts upto, h.summaries.summaryLookupMemoHit upto⟩
  | lookupCachedSummary upto =>
    cases hstep
    exact ⟨extracts_lookupCachedSummary h.extracts upto, h.summaries.lookupCachedSummary upto⟩
  | read i =>
    simp only [RecapState.step] at hstep
    split at hstep
    · next call file hcall hfile =>
      cases hstep
      exact ⟨h.extracts.of_eq rfl rfl rfl rfl,
        h.summaries.read (List.mem_of_getElem? hcall) hfile⟩
    · cases hstep
  | generateAndCacheSummary upto options =>
    cases hstep
    refine ⟨h.extracts.of_eq rfl rfl rfl rfl, h.summaries.holds, h.summaries.memo,
      h.summaries.lookups, h.summaries.found, fun g hg summary hreturned hne => ?_⟩
    rcases List.mem_append.mp hg with hold | hnew
    · exact h.summaries.returned g hold summary hreturned hne
    · rw [List.mem_singleton.mp hnew] at hreturned
      exact absurd (ne_returned_of_next hreturned) hne
  | answer i reply =>
    simp only [RecapState.step] at hstep
    split at hstep
    · next upto options failed hgeneration =>
      cases hstep
      exact ⟨h.extracts.of_eq rfl rfl rfl rfl, h.summaries.setPhase i upto
        fun summary hreturned hne => absurd (ne_returned_of_answered hreturned) hne⟩
    · cases hstep
  | loadCache i =>
    simp only [RecapState.step] at hstep
    split at hstep
    · next upto summary hgeneration =>
      cases hstep
      exact ⟨h.extracts.of_eq rfl rfl rfl rfl, h.summaries.setPhase i upto
        fun _ hreturned _ => nomatch hreturned⟩
    · cases hstep
  | replace i generatedAt st =>
    simp only [RecapState.step] at hstep
    split at hstep
    · next upto summary cache hgeneration =>
      cases hstep
      simp only [Meets, hgeneration] at hmeets
      exact ⟨h.extracts.of_eq rfl rfl rfl rfl,
        h.summaries.replace i summary generatedAt hmeets.1 hmeets.2⟩
    · cases hstep
  | otherExtract key extract =>
    simp only [RecapState.step] at hstep
    split at hstep
    · next hkey =>
      cases hstep
      refine ⟨⟨h.extracts.range, fun stop kept hlookup => ?_, h.extracts.extracts,
        h.extracts.extracted⟩, h.summaries.of_eq rfl rfl rfl rfl rfl rfl⟩
      rcases LruMap.lookup_store hlookup with ⟨heq, -⟩ | ⟨-, hold⟩
      · exact absurd (congrArg Prod.fst heq).symm hkey
      · exact h.extracts.memo stop kept hold
    · cases hstep
  | otherSummary path entry =>
    simp only [RecapState.step] at hstep
    split at hstep
    · next hpath =>
      cases hstep
      refine ⟨h.extracts.of_eq rfl rfl rfl rfl, h.summaries.holds, fun kept hlookup => ?_,
        h.summaries.lookups, h.summaries.found, h.summaries.returned⟩
      rcases LruMap.lookup_store hlookup with ⟨heq, -⟩ | ⟨-, hold⟩
      · exact absurd heq.symm hpath
      · exact h.summaries.memo kept hold
    · cases hstep

theorem Inv.right (h : s.Inv session) : s.Right :=
  ⟨h.summaries.found, h.summaries.returned, h.extracts.extracted⟩

end RecapState

/-! ## The main result -/

section Main

variable {parse : List UInt8 → Option Event} {session : String} {as : List (RecapAction parse)}
  {s : RecapState parse}

/-- **The recaps are right** in every run in which no generation replaces a document that has
changed, but for its own entry, since it was read, the signature of the file moves with every
replacement, and no rotation of the events gives their file a number it had. -/
theorem recaps_right_of_run
    (hmeets : (RecapState.system session).Guarded RecapState.Meets {} as)
    (hrun : (RecapState.system session).run {} as = some s) : s.Right :=
  ((RecapState.system session).run_invariant_of_guarded
    (fun _ _ _ hinv hm hstep => RecapState.Inv.step hinv hm hstep)
    RecapState.inv_start hmeets hrun).right

end Main

/-- A summary is found under its divider, and behind it as a stale one. -/
theorem recaps_right_of_run_one :
    ∃ s : RecapState RangeState.digitParse, (RecapState.system "a").run {}
        [.events (.saveChatEvent (RangeState.digitRow 0) 1), .extractRecap (some 0), .count 0,
          .load 0, .generateAndCacheSummary 0 1, .answer 0 (.ok "asked"), .loadCache 0,
          .replace 0 "now" (2, 60), .lookupCachedSummary 3, .read 0,
          .summaryLookupMemoHit 0] = some s
      ∧ s.found = [⟨3, 1, (some "asked", true)⟩, ⟨0, 1, (some "asked", false)⟩]
      ∧ s.Right := by
  have hrun : ((RecapState.system "a").run ({} : RecapState RangeState.digitParse)
      [.events (.saveChatEvent (RangeState.digitRow 0) 1), .extractRecap (some 0), .count 0,
        .load 0, .generateAndCacheSummary 0 1, .answer 0 (.ok "asked"), .loadCache 0,
        .replace 0 "now" (2, 60), .lookupCachedSummary 3, .read 0,
        .summaryLookupMemoHit 0]).map RecapState.found
      = some [⟨3, 1, (some "asked", true)⟩, ⟨0, 1, (some "asked", false)⟩] := by
    decide +kernel
  obtain ⟨s, hs, hfound⟩ := Option.map_eq_some_iff.mp hrun
  exact ⟨s, hs, hfound,
    recaps_right_of_run (TransitionSystem.guarded_of_check (by decide +kernel)) hs⟩

/-- **A summary is lost.** Two generations load the document before either has replaced it; the
later replacement has its own entry alone. -/
theorem summary_lost :
    ∃ s : RecapState RangeState.digitParse, (RecapState.system "a").run {}
        [.generateAndCacheSummary 1 1, .generateAndCacheSummary 2 1, .answer 0 (.ok "one"),
          .answer 1 (.ok "two"), .loadCache 0, .loadCache 1, .replace 0 "now" (1, 60),
          .replace 1 "now" (2, 60), .lookupCachedSummary 1, .read 0] = some s
      ∧ ¬ s.Right := by
  have hrun : ((RecapState.system "a").run ({} : RecapState RangeState.digitParse)
      [.generateAndCacheSummary 1 1, .generateAndCacheSummary 2 1, .answer 0 (.ok "one"),
        .answer 1 (.ok "two"), .loadCache 0, .loadCache 1, .replace 0 "now" (1, 60),
        .replace 1 "now" (2, 60), .lookupCachedSummary 1, .read 0]).map
          (fun s => (s.found, s.writes))
      = some ([⟨1, 2, (none, false)⟩], [(1, "one"), (2, "two")]) := by
    decide +kernel
  obtain ⟨s, hs, heq⟩ := Option.map_eq_some_iff.mp hrun
  obtain ⟨hfound, hwrites⟩ := Prod.mk.inj heq
  refine ⟨s, hs, fun hright => ?_⟩
  obtain ⟨n, hsince, hn, htells⟩ := hright.found ⟨1, 2, (none, false)⟩ (by
    rw [hfound]
    exact List.mem_cons_self)
  rw [hwrites] at hn htells
  have htwo : n = 2 := Nat.le_antisymm hn hsince
  rw [htwo] at htells
  have hexact := htells.exact "one" (by decide)
  cases hexact

end Recap
