import CharlieBot.CodexTranslator
import CharlieBot.GeminiTranslator
import CharlieBot.Runs

/-!
# Re-attaching at a cursor

After a restart a run's log is followed on from its cursor, with a freshly
built translator. Whether the two followers together yield what one would
have yielded depends on the backend: for the translators that remember
nothing they always do, the Codex and the Gemini translator have to have
nothing to remember there (`resumesAt_iff`). The cursor keeps the place in the
log and nothing of what the translator knows: an item that grows across it
is told again from its start (`text_repeated`).

Where a follower starts is such a place, and what it yields is the beginning
of what is followed from there (`yields_of_run`).
-/

/-! ## Following from an offset -/

/-- The events of a log's lines from an offset on. -/
def eventsFrom (parse : RawLine → Option Event) (file : List UInt8) (offset : ℕ) : List Event :=
  (records lineFeed (file.drop offset)).1.filterMap parse

/-- **What a follower yields** from an offset on, and whether no translation
failed. -/
def Translator.follows {τ : Type*} (T : Translator τ) (parse : RawLine → Option Event)
    (file : List UInt8) (offset : ℕ) : List Event × Bool :=
  let followed := T.follow T.fresh (eventsFrom parse file offset)
  (followed.1, followed.2.isSome)

def LineBoundary (file : List UInt8) (offset : ℕ) : Prop :=
  (records lineFeed (file.take offset)).2 = []

instance (file : List UInt8) (offset : ℕ) : Decidable (LineBoundary file offset) :=
  inferInstanceAs (Decidable (_ = _))

/-- **Re-attaching loses nothing and repeats nothing**: what is followed up to
the cursor, and by a fresh translator from there on, is what one translator
yields. -/
def Translator.ResumesAt {τ : Type*} (T : Translator τ) (parse : RawLine → Option Event)
    (file : List UInt8) (cursor : ℕ) : Prop :=
  T.follows parse file 0
    = ((T.follows parse (file.take cursor) 0).1 ++ (T.follows parse file cursor).1,
      (T.follows parse file cursor).2)

section

variable {τ : Type*} {T : Translator τ} {parse : RawLine → Option Event} {file : List UInt8}
  {cursor : ℕ}

theorem eventsFrom_zero (hcursor : LineBoundary file cursor) :
    eventsFrom parse file 0
      = eventsFrom parse (file.take cursor) 0 ++ eventsFrom parse file cursor := by
  have hrecords := records_append lineFeed (file.take cursor) (file.drop cursor)
  rw [List.take_append_drop, hcursor, List.nil_append] at hrecords
  simp only [eventsFrom, List.drop_zero, hrecords, List.filterMap_append]

theorem lineBoundary_join {ls : List RawLine} (hls : ∀ l ∈ ls, lineFeed ∉ l)
    (rest : List UInt8) :
    LineBoundary (joinRecords lineFeed ls ++ rest) (joinRecords lineFeed ls).length := by
  have hcut := records_of_join hls (List.not_mem_nil (a := lineFeed))
  rw [List.append_nil] at hcut
  rw [LineBoundary, List.take_left, hcut]

theorem eventsFrom_join {ls : List RawLine} (hls : ∀ l ∈ ls, lineFeed ∉ l)
    (before : List UInt8) :
    eventsFrom parse (before ++ joinRecords lineFeed ls) before.length
      = ls.filterMap parse := by
  have hcut := records_of_join hls (List.not_mem_nil (a := lineFeed))
  rw [List.append_nil] at hcut
  rw [eventsFrom, List.drop_left, hcut]

/-- **Re-attaching compares two states**: the one reached at the cursor and the
fresh one. -/
theorem resumesAt_iff_follow (hcursor : LineBoundary file cursor) {st : τ} {out : List Event}
    (hreached : T.run T.fresh (eventsFrom parse (file.take cursor) 0) = some (st, out)) :
    T.ResumesAt parse file cursor ↔
      (T.follow st (eventsFrom parse file cursor)).1
          = (T.follow T.fresh (eventsFrom parse file cursor)).1
        ∧ (T.follow st (eventsFrom parse file cursor)).2.isSome
          = (T.follow T.fresh (eventsFrom parse file cursor)).2.isSome := by
  unfold Translator.ResumesAt Translator.follows
  rw [eventsFrom_zero hcursor, Machine.follow_append_of_run hreached,
    Machine.follow_of_run hreached, Prod.mk.injEq, List.append_cancel_left_eq]

theorem exists_run_of_follows (h : (T.follows parse file 0).2 = true) :
    ∃ st out, T.run T.fresh (eventsFrom parse file 0) = some (st, out) := by
  obtain ⟨st, hst⟩ := Option.isSome_iff_exists.mp h
  exact ⟨st, _, Machine.run_of_follow hst⟩

end

/-! ## The backends -/

structure BackendTranslator where
  State : Type
  translator : Translator State

/-- **The translator of a backend**: none where its events do not go through a
raw log. -/
def translatorFor (rt : Codex.CodexRuntime) : BackendType → Option BackendTranslator
  | .ccClaude => some ⟨Unit, .stateless identityTranslate⟩
  | .ccKimi => some ⟨Unit, .stateless identityTranslate⟩
  | .ccOpenaiCompatible => some ⟨Unit, .stateless identityTranslate⟩
  | .codex => some ⟨Codex.CodexState, Codex.translator rt⟩
  | .charlieCode => some ⟨Unit, .stateless CharlieCode.translateEvent⟩
  | .gemini => some ⟨Gemini.GeminiState, Gemini.translator⟩
  | .opencode => none
  | .antigravity => none
  | .tuiCli => none

/-- **Nothing has to be remembered across the cursor.** -/
def NothingCarried (rt : Codex.CodexRuntime) (b : BackendType) (before after : List Event) :
    Prop :=
  match b with
  | .codex => Codex.NothingRepeated rt before after
  | .gemini => Gemini.textOpen before = true →
      ∀ ev ∈ Gemini.translated after, Gemini.flushes ev = false
  | _ => True

/-- **When re-attaching is as good as going on.** For every backend with a raw
log, every log and every cursor at the start of a line that was reached: the
two followers yield what one would have yielded exactly when nothing has to
be remembered across the cursor. -/
theorem resumesAt_iff (rt : Codex.CodexRuntime) {b : BackendType} {T : BackendTranslator}
    (hT : translatorFor rt b = some T) (parse : RawLine → Option Event) {file : List UInt8}
    {cursor : ℕ} (hcursor : LineBoundary file cursor)
    (hreached : (T.translator.follows parse (file.take cursor) 0).2 = true) :
    T.translator.ResumesAt parse file cursor ↔
      NothingCarried rt b (eventsFrom parse (file.take cursor) 0)
        (eventsFrom parse file cursor) := by
  obtain ⟨st, out, hrun⟩ := exists_run_of_follows hreached
  rw [resumesAt_iff_follow hcursor hrun]
  have hstateless : ∀ translate : Event → Option (List Event),
      T = ⟨Unit, .stateless translate⟩ →
      ((T.translator.follow st (eventsFrom parse file cursor)).1
          = (T.translator.follow T.translator.fresh (eventsFrom parse file cursor)).1
        ∧ (T.translator.follow st (eventsFrom parse file cursor)).2.isSome
          = (T.translator.follow T.translator.fresh (eventsFrom parse file cursor)).2.isSome) := by
    rintro translate rfl
    exact ⟨rfl, rfl⟩
  cases b with
  | codex =>
    cases hT
    exact (and_iff_left (Codex.isSome_follow st _)).trans (Codex.resumes_iff hrun _)
  | gemini =>
    cases hT
    have hmisses : Gemini.Misses {} st := ⟨st.textBuffer, by rw [String.append_empty]⟩
    exact (and_iff_left (Gemini.emitsNoMore.isSome_eq hmisses _).symm).trans
      (Gemini.resumes_iff hrun _)
  | ccClaude => exact iff_of_true (hstateless _ (Option.some.inj hT).symm) trivial
  | ccKimi => exact iff_of_true (hstateless _ (Option.some.inj hT).symm) trivial
  | ccOpenaiCompatible => exact iff_of_true (hstateless _ (Option.some.inj hT).symm) trivial
  | charlieCode => exact iff_of_true (hstateless _ (Option.some.inj hT).symm) trivial
  | opencode => cases hT
  | antigravity => cases hT
  | tuiCli => cases hT

/-! ## Followers start at boundaries -/

section

variable {τ : Type*} {T : Translator τ} {parse : RawLine → Option Event}
  {s : TransportState τ}

/-- **A follower starts at the start of a line and yields what is followed from
there**, as far as it has come, with a time. -/
theorem yields_of_run {as : List TransportAction}
    (hrun : (TransportState.system parse T).run {} as = some s) {f : Follower τ}
    (hf : s.follower = some f) :
    LineBoundary s.file f.incarnation.start
      ∧ ∃ out, Stamps out (f.incarnation.kept ++ f.incarnation.since)
        ∧ out ++ f.phase.pending <+: (T.follows parse s.file f.incarnation.start).1 := by
  have h : s.Inv parse T := (TransportState.system parse T).run_invariant
    (I := TransportState.Inv parse T) (fun _ _ _ h hstep => h.step hstep)
    TransportState.inv_initial as hrun
  have hfits := (h.follower f hf).fits
  obtain ⟨out, hsince, hstamps⟩ := (h.follower f hf).translates.since
  obtain ⟨rest, hrest⟩ := hfits.isPrefix
  rw [joinRecords_append, List.append_assoc] at hrest
  have hdrop : s.file.drop f.incarnation.start
      = joinRecords lineFeed f.incarnation.lines ++ rest := by
    rw [hfits.start, ← hrest, List.drop_left]
  refine ⟨?_, out, hstamps, ?_⟩
  · rw [hfits.start, ← hrest]
    exact lineBoundary_join h.covers.notMem _
  · obtain ⟨later, hlater⟩ := isPrefix_records hfits.lines (hdrop ▸ List.prefix_append _ rest)
    have hevents : eventsFrom parse s.file f.incarnation.start
        = f.incarnation.lines.filterMap parse ++ later.filterMap parse := by
      rw [eventsFrom, ← hlater, List.filterMap_append]
    unfold Translator.follows
    rw [hevents, Machine.follow_append_of_run hsince]
    exact List.prefix_append _ _

open TransportState in
theorem yields_of_run_firstLine : ∃ s f,
    (TransportState.system byteParse identityTranslator).run {} firstLine = some s
    ∧ s.follower = some f ∧ LineBoundary s.file f.incarnation.start := by
  obtain ⟨s, f, hrun, hf⟩ : ∃ s f,
      (TransportState.system byteParse identityTranslator).run {} firstLine = some s
      ∧ s.follower = some f := ⟨_, _, rfl, rfl⟩
  exact ⟨s, f, hrun, hf, (yields_of_run hrun hf).1⟩

end

/-! ## An agent message that grows -/

/-- What the translator calls, where no event asks for it. -/
def quietRuntime : Codex.CodexRuntime := ⟨fun _ => none, fun _ => none, fun _ => ""⟩

/-- The line of an event, by its characters. -/
def lineOf (text : String) : RawLine := text.toList.map fun c => c.toNat.toUInt8

/-- An agent message's text so far. -/
def agentEvent (itemId text : String) : Event :=
  [("type", .str "item.updated"), ("item", .obj [("id", .str itemId),
    ("type", .str "agent_message"), ("text", .str text)])]

def agentLine (itemId text : String) : RawLine :=
  lineOf ("\x7b\"type\":\"item.updated\",\"item\":\x7b\"id\":\"" ++ itemId
    ++ "\",\"type\":\"agent_message\",\"text\":\"" ++ text ++ "\"\x7d\x7d")

/-- A reader of some of these lines. -/
def parseAgentLine (line : RawLine) : Option Event :=
  if line = agentLine "item_0" "Hel" then some (agentEvent "item_0" "Hel")
  else if line = agentLine "item_0" "Hello" then some (agentEvent "item_0" "Hello")
  else if line = agentLine "item_1" "Hi" then some (agentEvent "item_1" "Hi")
  else none

theorem notMem_agentLine : lineFeed ∉ agentLine "item_0" "Hel"
    ∧ lineFeed ∉ agentLine "item_0" "Hello" ∧ lineFeed ∉ agentLine "item_1" "Hi" := by
  decide +kernel

theorem parse_agentLine : parseAgentLine (agentLine "item_0" "Hel")
      = some (agentEvent "item_0" "Hel")
    ∧ parseAgentLine (agentLine "item_0" "Hello") = some (agentEvent "item_0" "Hello")
    ∧ parseAgentLine (agentLine "item_1" "Hi") = some (agentEvent "item_1" "Hi") := by
  refine ⟨if_pos rfl, ?_, ?_⟩
  · rw [parseAgentLine, if_neg (by decide +kernel), if_pos rfl]
  · rw [parseAgentLine, if_neg (by decide +kernel), if_neg (by decide +kernel), if_pos rfl]

theorem eventsFrom_twoLines {l l' : RawLine} {ev ev' : Event} (hl : lineFeed ∉ l)
    (hl' : lineFeed ∉ l') (hparse : parseAgentLine l = some ev)
    (hparse' : parseAgentLine l' = some ev') :
    let file := joinRecords lineFeed [l, l']
    let cursor := (joinRecords lineFeed [l]).length
    LineBoundary file cursor
      ∧ eventsFrom parseAgentLine file 0 = [ev, ev']
      ∧ eventsFrom parseAgentLine (file.take cursor) 0 = [ev]
      ∧ eventsFrom parseAgentLine file cursor = [ev'] := by
  have hfile : joinRecords lineFeed [l, l']
      = joinRecords lineFeed [l] ++ joinRecords lineFeed [l'] :=
    joinRecords_append lineFeed [l] [l']
  have hone : ∀ x ∈ [l], lineFeed ∉ x := by simpa using hl
  have htwo : ∀ x ∈ [l, l'], lineFeed ∉ x := by simpa using ⟨hl, hl'⟩
  have hother : ∀ x ∈ [l'], lineFeed ∉ x := by simpa using hl'
  refine ⟨?_, ?_, ?_, ?_⟩
  · rw [hfile]
    exact lineBoundary_join hone _
  · refine (eventsFrom_join htwo []).trans ?_
    simp [hparse, hparse']
  · rw [hfile, List.take_left]
    refine (eventsFrom_join hone []).trans ?_
    simp [hparse]
  · rw [hfile]
    refine (eventsFrom_join hother _).trans ?_
    simp [hparse']

/-- Behind a message comes another one: at the cursor between them one may
re-attach. -/
theorem resumesAt_iff_nextMessage :
    (Codex.translator quietRuntime).ResumesAt parseAgentLine
      (joinRecords lineFeed [agentLine "item_0" "Hel", agentLine "item_1" "Hi"])
      (joinRecords lineFeed [agentLine "item_0" "Hel"]).length := by
  obtain ⟨hcursor, -, hbefore, hafter⟩ := eventsFrom_twoLines notMem_agentLine.1
    notMem_agentLine.2.2 parse_agentLine.1 parse_agentLine.2.2
  have hreached : ((Codex.translator quietRuntime).follows parseAgentLine
      ((joinRecords lineFeed [agentLine "item_0" "Hel", agentLine "item_1" "Hi"]).take
        (joinRecords lineFeed [agentLine "item_0" "Hel"]).length) 0).2 = true := by
    rw [Translator.follows, hbefore]
    rfl
  refine (resumesAt_iff quietRuntime (b := .codex) rfl parseAgentLine hcursor hreached).mpr ?_
  rw [hbefore, hafter]
  intro c last text hlast hfirst
  -- the one touches one cell, the other another
  have htouch : Codex.touch quietRuntime (agentEvent "item_0" "Hel")
      = some (.snapshot (.agent (.text "item_0")) (.text "Hel")) := rfl
  have htouch' : Codex.touch quietRuntime (agentEvent "item_1" "Hi")
      = some (.snapshot (.agent (.text "item_1")) (.text "Hi")) := rfl
  obtain ⟨ev, hev, hc⟩ := Snapshots.exists_of_remembered hlast
  obtain ⟨ev', hev', hc'⟩ := Snapshots.exists_of_firstTouch hfirst
  rw [List.mem_singleton.mp hev] at hc
  rw [List.mem_singleton.mp hev'] at hc'
  have hcell := htouch.symm.trans hc
  have hcell' := htouch'.symm.trans hc'
  cases hcell
  simp at hcell'

/-- **A text is repeated.** The first follower passes on `Hel`; behind the
cursor the message goes on to `Hello`, and the second passes on all of it,
where one translator would have passed on `lo`. -/
theorem text_repeated :
    let file := joinRecords lineFeed [agentLine "item_0" "Hel", agentLine "item_0" "Hello"]
    let cursor := (joinRecords lineFeed [agentLine "item_0" "Hel"]).length
    LineBoundary file cursor
      ∧ (Codex.translator quietRuntime).follows parseAgentLine file 0
        = ([makeTextEvent (.str "Hel"), makeTextEvent (.str "lo")], true)
      ∧ (Codex.translator quietRuntime).follows parseAgentLine (file.take cursor) 0
        = ([makeTextEvent (.str "Hel")], true)
      ∧ (Codex.translator quietRuntime).follows parseAgentLine file cursor
        = ([makeTextEvent (.str "Hello")], true)
      ∧ ¬ (Codex.translator quietRuntime).ResumesAt parseAgentLine file cursor := by
  obtain ⟨hcursor, hwhole, hbefore, hafter⟩ := eventsFrom_twoLines notMem_agentLine.1
    notMem_agentLine.2.1 parse_agentLine.1 parse_agentLine.2.1
  intro file cursor
  have hwhole' : (Codex.translator quietRuntime).follows parseAgentLine file 0
      = ([makeTextEvent (.str "Hel"), makeTextEvent (.str "lo")], true) := by
    rw [Translator.follows, hwhole]
    rfl
  have hbefore' : (Codex.translator quietRuntime).follows parseAgentLine (file.take cursor) 0
      = ([makeTextEvent (.str "Hel")], true) := by
    rw [Translator.follows, hbefore]
    rfl
  have hafter' : (Codex.translator quietRuntime).follows parseAgentLine file cursor
      = ([makeTextEvent (.str "Hello")], true) := by
    rw [Translator.follows, hafter]
    rfl
  refine ⟨hcursor, hwhole', hbefore', hafter', fun h => ?_⟩
  rw [Translator.ResumesAt, hwhole', hbefore', hafter'] at h
  simp [makeTextEvent] at h
