import CharlieBot.LiveAggregator

/-!
# The cached events are the file

The list of a chat's events that is kept in memory is meant to be what the file
would be parsed to, and an event's place in it the index that is broadcast
with the event. A parse in a thread and an append that is under way do not see
each other, though: a line can be in the file that was parsed and be appended to
the list once more. Along every run that is undisturbed and in which **nothing is
parsed between a line and its call**, and nothing is broadcast over a malformed
line, list and indices are those of the file and no call raises
(`coherent_of_guarded`). Otherwise a call raises for the entry that is gone, or an
event is in the list twice (`incoherent`).
-/

/-- The event of a call is about to be in the file, or is, and the list was not told. -/
def CallPhase.isAppending : CallPhase → Bool
  | .saving _ _ => true
  | .landed _ _ _ => true
  | _ => false

namespace LiveChat

/-- **The cached events are the file**: without an append in flight the list is
what the file is parsed to, but for the stamps; every index that was broadcast is
the event's position; and no call raised for an entry that was gone. -/
def CacheCoherent (s : LiveChat) : Prop :=
  (∀ list, s.cache = some list →
      (∀ c call, s.calls c = some call → call.phase.isAppending = false) →
      (s.lists list).map Event.unstamped = s.parse.map Event.unstamped)
    ∧ (∀ b ∈ s.broadcasts, b.1 = b.2) ∧ s.keyErrors = []

/-- **Nothing is parsed between a line and its call**, and no malformed line is
counted over. -/
def NoOverlap (s : LiveChat) : LiveChatAction → Prop
  | .loadCall c => ∀ call epoch, s.calls c = some call → call.phase = .loading epoch .parsing →
      s.landed = []
  | .loadReader r => s.readers r = some .parsing → s.landed = []
  | .resume _ => ∀ line ∈ s.file, line.isSome = true
  | _ => True

/-! ## The invariant -/

/-- **What holds of the list and the indices.** -/
structure CacheInv (s : LiveChat) : Prop where
  /-- The list is the file, up to the lines whose calls are not resumed. -/
  warm : ∀ list, s.cache = some list →
    (s.lists list).map Event.unstamped ++ s.landed.map (·.2.unstamped)
      = s.parse.map Event.unstamped
  /-- Between a parse and its entry no line waits. -/
  parsedCalls : ∀ c call, s.calls c = some call → call.phase.hasParsed = true → s.landed = []
  parsedReaders : ∀ r events, s.readers r = some (.parsed events) → s.landed = []
  saving : ∀ c call agg archiveOffset, s.calls c = some call →
    call.phase = .saving agg archiveOffset → archiveOffset = s.archiveOffset
  /-- The lines that wait are the last ones of the file, in order. -/
  lines : ∃ before, before + s.landed.length = s.file.length ∧
    ∀ i w call agg archiveOffset line, s.landed[i]? = some w → s.calls w.1 = some call →
      call.phase = .landed agg archiveOffset line →
      archiveOffset = s.archiveOffset ∧ line = before + i
  /-- Every index was right. -/
  indices : ∀ b ∈ s.broadcasts, b.1 = b.2
  /-- No entry was gone. -/
  keys : s.keyErrors = []

theorem CacheInv.start (archiveOffset : ℕ) (file : List (Option Event)) :
    (start archiveOffset file).CacheInv where
  warm _ h := by cases h
  parsedCalls _ _ h := by cases h
  parsedReaders _ _ h := by cases h
  saving _ _ _ _ h := by cases h
  lines := ⟨file.length, rfl, fun _ _ _ _ _ _ h => by cases h⟩
  indices b h := by cases h
  keys := rfl

variable {s t : LiveChat} {c : ℕ} {call : PersistCall}

theorem CacheInv.coherent (h : s.CacheInv) (hinv : s.Inv) : s.CacheCoherent := by
  refine ⟨fun list hlist hquiet => ?_, h.indices, h.keys⟩
  have hnil : s.landed = [] := by
    refine List.eq_nil_iff_forall_not_mem.mpr fun w hw => ?_
    obtain ⟨call, hcall, -, agg, archiveOffset, line, hphase⟩ := hinv.landed w hw
    have hfalse := hquiet w.1 call hcall
    rw [hphase] at hfalse
    cases hfalse
  have hwarm := h.warm list hlist
  rw [hnil, List.map_nil, List.append_nil] at hwarm
  exact hwarm

/-! ## Steps -/

theorem CacheInv.setCall (h : s.CacheInv) (hfree : ∀ w ∈ s.landed, w.1 ≠ c)
    {next : Option PersistCall}
    (hparsed : ∀ call, next = some call → call.phase.hasParsed = true → s.landed = [])
    (hsaving : ∀ call agg archiveOffset, next = some call →
      call.phase = .saving agg archiveOffset → archiveOffset = s.archiveOffset) :
    (s.setCall c next).CacheInv where
  warm := h.warm
  parsedCalls d call hcall := by
    by_cases hd : d = c
    · subst hd
      rw [setCall_calls_self] at hcall
      exact hparsed call hcall
    · rw [setCall_calls_of_ne s hd] at hcall
      exact h.parsedCalls d call hcall
  parsedReaders := h.parsedReaders
  saving d call agg archiveOffset hcall := by
    by_cases hd : d = c
    · subst hd
      rw [setCall_calls_self] at hcall
      exact hsaving call agg archiveOffset hcall
    · rw [setCall_calls_of_ne s hd] at hcall
      exact h.saving d call agg archiveOffset hcall
  lines := by
    obtain ⟨before, hlength, hlines⟩ := h.lines
    refine ⟨before, hlength, fun i w call agg archiveOffset line hw hcall => ?_⟩
    rw [setCall_calls_of_ne s (hfree w (List.mem_of_getElem? hw))] at hcall
    exact hlines i w call agg archiveOffset line hw hcall
  indices := h.indices
  keys := h.keys

theorem CacheInv.setIdle (h : s.CacheInv) (hfree : ∀ w ∈ s.landed, w.1 ≠ c)
    {next : Option PersistCall}
    (hidle : ∀ call, next = some call →
      call.phase.hasParsed = false ∧ call.phase.isAppending = false) :
    (s.setCall c next).CacheInv := by
  refine h.setCall hfree (fun call hnext hparsed => ?_)
    fun call agg archiveOffset hnext hphase => ?_
  · rw [(hidle call hnext).1] at hparsed
    cases hparsed
  · have hfalse := (hidle call hnext).2
    rw [hphase] at hfalse
    cases hfalse

theorem CacheInv.frame (h : s.CacheInv) (hcache : t.cache = s.cache) (hlists : t.lists = s.lists)
    (hlanded : t.landed = s.landed) (hfile : t.file = s.file) (hcalls : t.calls = s.calls)
    (hreaders : t.readers = s.readers) (harchive : t.archiveOffset = s.archiveOffset)
    (hbroadcasts : t.broadcasts = s.broadcasts) (hkeys : t.keyErrors = s.keyErrors) :
    t.CacheInv := by
  constructor
  · rw [hcache, hlists, hlanded, parse, hfile]
    exact h.warm
  · rw [hcalls, hlanded]
    exact h.parsedCalls
  · rw [hreaders, hlanded]
    exact h.parsedReaders
  · rw [hcalls, harchive]
    exact h.saving
  · rw [hlanded, hfile, hcalls, harchive]
    exact h.lines
  · rw [hbroadcasts]
    exact h.indices
  · rw [hkeys]
    exact h.keys

theorem CacheInv.setReader (h : s.CacheInv) (r : ℕ) {load : Option LoadPhase}
    (hload : ∀ events, load = some (.parsed events) → s.landed = []) :
    (s.setReader r load).CacheInv where
  warm := h.warm
  parsedCalls := h.parsedCalls
  parsedReaders q events hq := by
    by_cases heq : q = r
    · subst heq
      rw [setReader_readers_self] at hq
      exact hload events hq
    · rw [setReader_readers_of_ne s heq] at hq
      exact h.parsedReaders q events hq
  saving := h.saving
  lines := h.lines
  indices := h.indices
  keys := h.keys

theorem CacheInv.storeList (h : s.CacheInv) (hlanded : s.landed = []) {events : List Event}
    (hevents : events = s.parse) : (s.storeList events).CacheInv where
  warm list hlist := by
    cases hlist
    have hself : (s.storeList events).lists s.nextList = events := Function.update_self ..
    rw [hself, show (s.storeList events).landed = s.landed from rfl, hlanded, hevents]
    exact List.append_nil _
  parsedCalls := h.parsedCalls
  parsedReaders := h.parsedReaders
  saving := h.saving
  lines := h.lines
  indices := h.indices
  keys := h.keys

theorem CacheInv.clear (h : s.CacheInv) : CacheInv { s with cache := none } where
  warm _ hlist := by cases hlist
  parsedCalls := h.parsedCalls
  parsedReaders := h.parsedReaders
  saving := h.saving
  lines := h.lines
  indices := h.indices
  keys := h.keys

theorem CacheInv.feedOn (h : s.CacheInv) (hfree : ∀ w ∈ s.landed, w.1 ≠ c) (epoch list start : ℕ)
    (fed : List Event) : (s.feedOn c call epoch list start fed).CacheInv := by
  unfold LiveChat.feedOn
  split
  · dsimp only
    split
    · refine h.setIdle hfree fun next hnext => ?_
      cases hnext
      exact ⟨rfl, rfl⟩
    · refine CacheInv.frame (s := s.setCall c none) (h.setIdle hfree fun _ hnone => ?_)
        rfl rfl rfl rfl rfl rfl rfl rfl rfl
      cases hnone
  · refine CacheInv.frame (s := s.goto c call (.fetching s.nextAgg))
      (h.setIdle hfree fun next hnext => ?_) rfl rfl rfl rfl rfl rfl rfl rfl rfl
    cases hnext
    exact ⟨rfl, rfl⟩

theorem CacheInv.land (h : s.CacheInv) (hfree : ∀ w ∈ s.landed, w.1 ≠ c)
    (hcall : s.calls c = some call) {agg archiveOffset : ℕ}
    (hphase : call.phase = .saving agg archiveOffset)
    (hcalls : ∀ c call, s.calls c = some call → call.phase.hasParsed = false)
    (hreaders : ∀ r events, s.readers r ≠ some (.parsed events)) :
    CacheInv { s.goto c call (.landed agg archiveOffset s.file.length) with
      file := s.file ++ [some call.event]
      landed := s.landed ++ [(c, call.event)] } where
  warm list hlist := by
    show (s.lists list).map Event.unstamped ++ (s.landed ++ [(c, call.event)]).map (·.2.unstamped)
      = ((s.file ++ [some call.event]).filterMap id).map Event.unstamped
    rw [List.map_append, ← List.append_assoc, h.warm list hlist, List.filterMap_append,
      List.map_append]
    rfl
  parsedCalls d other hother hparsed := by
    have hother : (s.setCall c _).calls d = some other := hother
    by_cases hd : d = c
    · subst hd
      rw [setCall_calls_self] at hother
      cases hother
      cases hparsed
    · rw [setCall_calls_of_ne s hd] at hother
      rw [hcalls d other hother] at hparsed
      cases hparsed
  parsedReaders r events hr := absurd hr (hreaders r events)
  saving d other agg' archiveOffset' hother hsaving := by
    have hother : (s.setCall c _).calls d = some other := hother
    by_cases hd : d = c
    · subst hd
      rw [setCall_calls_self] at hother
      cases hother
      cases hsaving
    · rw [setCall_calls_of_ne s hd] at hother
      exact h.saving d other agg' archiveOffset' hother hsaving
  lines := by
    obtain ⟨before, hlength, hlines⟩ := h.lines
    refine ⟨before, ?_, fun i w other agg' archiveOffset' line hw hother hlanded => ?_⟩
    · show before + (s.landed ++ [(c, call.event)]).length = (s.file ++ [some call.event]).length
      rw [List.length_append, List.length_append, ← hlength]
      rfl
    · have hother : (s.setCall c _).calls w.1 = some other := hother
      have hw : (s.landed ++ [(c, call.event)])[i]? = some w := hw
      rcases Nat.lt_trichotomy i s.landed.length with hlt | heq | hgt
      · rw [List.getElem?_append_left hlt] at hw
        rw [setCall_calls_of_ne s (hfree w (List.mem_of_getElem? hw))] at hother
        exact hlines i w other agg' archiveOffset' line hw hother hlanded
      · subst heq
        rw [List.getElem?_concat_length] at hw
        cases hw
        rw [setCall_calls_self] at hother
        cases hother
        cases hlanded
        exact ⟨h.saving c call agg archiveOffset hcall hphase, hlength.symm⟩
      · have hle : (s.landed ++ [(c, call.event)]).length ≤ i := by
          rw [List.length_append]
          exact hgt
        rw [List.getElem?_eq_none hle] at hw
        cases hw
  indices := h.indices
  keys := h.keys

theorem length_parse (hfile : ∀ line ∈ s.file, line.isSome = true) :
    s.parse.length = s.file.length := by
  rw [parse, List.length_filterMap_eq_countP]
  exact List.countP_eq_length.mpr hfile

/-- **The first call in line is resumed**: its place in the list is its line. -/
theorem CacheInv.resume (h : s.CacheInv) (hinv : s.Inv) (hcall : s.calls c = some call)
    {agg archiveOffset line : ℕ} (hphase : call.phase = .landed agg archiveOffset line)
    (hfirst : s.landed.head?.map (·.1) = some c) (hfile : ∀ line ∈ s.file, line.isSome = true)
    {list : ℕ} (hlist : s.cache = some list) (event : Event)
    (hevent : event.unstamped = call.event.unstamped) (aggs : ℕ → LiveAggregator) :
    CacheInv { s.setCall c none with
      landed := s.landed.eraseP (·.1 == c)
      lists := Function.update s.lists list (s.lists list ++ [event])
      aggs := aggs
      broadcasts := s.broadcasts
        ++ [(archiveOffset + (s.lists list ++ [call.event]).length - 1, s.archiveOffset + line)] } := by
  obtain ⟨rest, hrest⟩ := hinv.landed_eq_cons hcall hfirst
  have herase : s.landed.eraseP (·.1 == c) = rest := by
    rw [hrest]
    exact List.eraseP_cons_of_pos (beq_self_eq_true c)
  have hnodup := hinv.nodup
  rw [hrest, List.map_cons, List.nodup_cons] at hnodup
  have hne : ∀ w ∈ rest, w.1 ≠ c := fun w hw heq =>
    hnodup.1 (List.mem_map.mpr ⟨w, hw, heq⟩)
  have hwarm := h.warm list hlist
  rw [hrest] at hwarm
  obtain ⟨before, hlength, hlines⟩ := h.lines
  have hhead := hlines 0 (c, call.event) call agg archiveOffset line (by rw [hrest]; rfl) hcall hphase
  refine ⟨fun list' hlist' => ?_, fun d other hother hparsed => ?_, fun r events hr => ?_,
    fun d other agg' archiveOffset' hother => ?_, ⟨before + 1, ?_, fun i w other agg'
      archiveOffset' line' hw hother hlanded => ?_⟩, fun b hb => ?_, h.keys⟩
  · have hlist' : s.cache = some list' := hlist'
    rw [hlist] at hlist'
    cases hlist'
    have hself (events : List Event) : Function.update s.lists list events list = events :=
      Function.update_self ..
    dsimp only
    rw [hself, herase, List.map_append, List.append_assoc, List.map_cons, hevent]
    exact hwarm
  · dsimp only
    have hother : (s.setCall c none).calls d = some other := hother
    have hd : d ≠ c := fun hd => by
      rw [hd, setCall_calls_self] at hother
      cases hother
    rw [setCall_calls_of_ne s hd] at hother
    rw [h.parsedCalls d other hother hparsed]
    rfl
  · dsimp only
    rw [h.parsedReaders r events hr]
    rfl
  · have hother : (s.setCall c none).calls d = some other := hother
    have hd : d ≠ c := fun hd => by
      rw [hd, setCall_calls_self] at hother
      cases hother
    rw [setCall_calls_of_ne s hd] at hother
    exact h.saving d other agg' archiveOffset' hother
  · dsimp only
    rw [herase]
    rw [hrest, List.length_cons] at hlength
    rw [Nat.add_assoc, Nat.add_comm 1]
    exact hlength
  · have hw : (s.landed.eraseP (·.1 == c))[i]? = some w := hw
    rw [herase] at hw
    have hother : (s.setCall c none).calls w.1 = some other := hother
    rw [setCall_calls_of_ne s (hne w (List.mem_of_getElem? hw))] at hother
    have hline := hlines (i + 1) w other agg' archiveOffset' line' (by rw [hrest]; exact hw) hother
      hlanded
    rw [Nat.add_assoc, Nat.add_comm 1]
    exact hline
  · rcases List.mem_append.mp hb with hb | hb
    · exact h.indices b hb
    · rw [List.mem_singleton] at hb
      subst hb
      -- the list is as long as what stands before the line
      have hcount := congrArg List.length hwarm
      rw [List.length_append, List.length_map, List.length_map, List.length_map, length_parse hfile,
        ← hlength, hrest] at hcount
      have hbefore : (s.lists list).length = before := Nat.add_right_cancel hcount
      show archiveOffset + (s.lists list ++ [call.event]).length - 1 = s.archiveOffset + line
      rw [List.length_append, hbefore, hhead.1, hhead.2]
      rfl

theorem CacheInv.step {a : LiveChatAction} (h : s.CacheInv) (hinv : s.Inv)
    (hguard : s.Undisturbed a) (hoverlap : s.NoOverlap a) (hstep : LiveChat.step s a = some t) :
    t.CacheInv := by
  cases a with
  | persist c event =>
    simp only [LiveChat.step] at hstep
    split at hstep
    · cases hstep
    · next hnone =>
      have hfree : ∀ w ∈ s.landed, w.1 ≠ c :=
        hinv.not_landed fun call hcall => by
          rw [hnone] at hcall
          cases hcall
      split at hstep
      all_goals
        cases hstep
        refine h.setIdle hfree fun call hcall => ?_
        cases hcall
        exact ⟨rfl, rfl⟩
  | acquire c =>
    simp only [LiveChat.step] at hstep
    split at hstep
    · next call hcall =>
      split at hstep
      · next epoch hphase =>
        have hfree := hinv.free hcall (by rw [hphase]; rfl)
        have hmoved : ∀ phase : CallPhase, phase.hasParsed = false → phase.isAppending = false →
            (s.goto c call phase).CacheInv := fun phase hparsed happending =>
          h.setIdle hfree fun next hnext => by
            cases hnext
            exact ⟨hparsed, happending⟩
        split at hstep
        · cases hstep
        · split at hstep
          · cases hstep
            exact hmoved _ rfl rfl
          · cases hstep
            exact (hmoved (.loading epoch .checking) rfl rfl).frame rfl rfl rfl rfl rfl rfl rfl rfl
              rfl
      · cases hstep
    · cases hstep
  | loadCall c =>
    simp only [LiveChat.step] at hstep
    split at hstep
    · next call hcall =>
      split at hstep
      · next epoch load hphase =>
        have hfree := hinv.free hcall (by rw [hphase]; rfl)
        have hcallInv := hinv.calls c call hcall
        cases load with
        | checking =>
          cases hstep
          refine h.setIdle hfree fun next hnext => ?_
          cases hnext
          split <;> exact ⟨rfl, rfl⟩
        | hit =>
          obtain ⟨list, hlist⟩ := Option.isSome_iff_exists.mp (hcallInv.hit (by rw [hphase]; rfl))
          simp only [LiveChat.loadStep, hlist] at hstep
          cases hstep
          refine h.setIdle hfree fun next hnext => ?_
          cases hnext
          exact ⟨rfl, rfl⟩
        | parsing =>
          cases hstep
          have hlanded := hoverlap call epoch hcall hphase
          refine h.setCall hfree (fun next _ _ => hlanded) fun next agg archiveOffset hnext hsaving => ?_
          cases hnext
          cases hsaving
        | parsed events =>
          cases hstep
          have hlanded := h.parsedCalls c call hcall (by rw [hphase]; rfl)
          refine (h.storeList hlanded (hcallInv.parsed epoch events hphase)).setIdle hfree
            fun next hnext => ?_
          cases hnext
          exact ⟨rfl, rfl⟩
      · cases hstep
    · cases hstep
  | startInit c =>
    simp only [LiveChat.step] at hstep
    split at hstep
    · next call hcall =>
      split at hstep
      · next epoch list hphase =>
        cases hstep
        exact h.feedOn (hinv.free hcall (by rw [hphase]; rfl)) epoch list 0 []
      · cases hstep
    · cases hstep
  | resumeInit c =>
    simp only [LiveChat.step] at hstep
    split at hstep
    · next call hcall =>
      split at hstep
      · next epoch list start fed hphase =>
        have hfree := hinv.free hcall (by rw [hphase]; rfl)
        split at hstep
        · cases hstep
          exact h.feedOn hfree epoch list start fed
        · cases hstep
          have hleft : (CacheInv ({ s with cache := none }.goto c call (.waiting s.epoch))) :=
            h.clear.setIdle hfree fun next hnext => by
              cases hnext
              exact ⟨rfl, rfl⟩
          exact hleft.frame rfl rfl rfl rfl rfl rfl rfl rfl rfl
      · cases hstep
    · cases hstep
  | fetched c id timestamp =>
    simp only [LiveChat.step] at hstep
    split at hstep
    · next call hcall =>
      split at hstep
      · next agg hphase =>
        cases hstep
        refine h.setCall (hinv.free hcall (by rw [hphase]; rfl)) (fun next hnext hparsed => ?_)
          fun next agg' archiveOffset hnext hsaving => ?_
        · cases hnext
          cases hparsed
        · cases hnext
          cases hsaving
          rfl
      · cases hstep
    · cases hstep
  | land c =>
    simp only [LiveChat.step] at hstep
    split at hstep
    · next call hcall =>
      split at hstep
      · next agg archiveOffset hphase =>
        cases hstep
        exact h.land (hinv.free hcall (by rw [hphase]; rfl)) hcall hphase hguard.1 hguard.2
      · cases hstep
    · cases hstep
  | resume c =>
    simp only [LiveChat.step] at hstep
    split at hstep
    · next call hcall =>
      split at hstep
      · next agg archiveOffset line hphase =>
        have hagg := (hinv.calls c call hcall).past agg (by rw [hphase]; rfl)
        split at hstep
        · next hnone =>
          have hsome := (hinv.live agg hagg).1
          rw [hnone] at hsome
          cases hsome
        · next list hlist =>
          cases hstep
          exact h.resume hinv hcall hphase hguard hoverlap hlist _ (unstamped_set _ _) _
      · cases hstep
    · cases hstep
  | fail c =>
    simp only [LiveChat.step] at hstep
    split at hstep
    · next call hcall =>
      have hgone : call.phase.isLanded = false → (s.setCall c none).CacheInv := fun hphase =>
        h.setIdle (hinv.free hcall hphase) fun _ hnone => by cases hnone
      split at hstep
      · next epoch load hphase =>
        cases hstep
        exact (hgone (by rw [hphase]; rfl)).frame rfl rfl rfl rfl rfl rfl rfl rfl rfl
      · next agg hphase =>
        cases hstep
        exact hgone (by rw [hphase]; rfl)
      · next agg archiveOffset hphase =>
        cases hstep
        exact hgone (by rw [hphase]; rfl)
      · cases hstep
    · cases hstep
  | read r =>
    simp only [LiveChat.step] at hstep
    split at hstep
    · cases hstep
    · cases hstep
      exact h.setReader r fun _ heq => by cases heq
  | loadReader r =>
    simp only [LiveChat.step] at hstep
    split at hstep
    · next load hload =>
      cases load with
      | checking =>
        cases hstep
        refine h.setReader r fun events heq => ?_
        split at heq <;> cases heq
      | hit =>
        simp only [LiveChat.loadStep] at hstep
        split at hstep
        · next heq =>
          split at heq <;> cases heq
        · next t' _ _ heq =>
          cases hstep
          have hsame : t' = s := by
            split at heq <;> cases heq <;> rfl
          rw [hsame]
          exact h.setReader r fun _ heq => by cases heq
      | parsing =>
        cases hstep
        exact h.setReader r fun _ _ => hoverlap hload
      | parsed events =>
        cases hstep
        exact (h.storeList (h.parsedReaders r events hload) (hinv.readers r events hload)).setReader r
          fun _ heq => by cases heq
    · cases hstep
  | drop =>
    cases hstep
    exact h.clear.frame rfl rfl rfl rfl rfl rfl rfl rfl rfl

/-- **The cached events are the file**, along every run that is undisturbed and
overlaps nothing. -/
theorem coherent_of_guarded (archiveOffset : ℕ) (file : List (Option Event))
    {as : List LiveChatAction}
    (hguard : system.Guarded (fun s a => s.Undisturbed a ∧ s.NoOverlap a)
      (start archiveOffset file) as)
    (hrun : system.run (start archiveOffset file) as = some t) : t.CacheCoherent := by
  have hboth : t.Inv ∧ t.CacheInv :=
    system.run_invariant_of_guarded (I := fun s => s.Inv ∧ s.CacheInv)
      (fun _ _ _ h hG hstep => ⟨h.1.step hG.1 hstep, h.2.step h.1 hG.1 hG.2 hstep⟩)
      ⟨Inv.start archiveOffset file, CacheInv.start archiveOffset file⟩ hguard hrun
  exact hboth.2.coherent hboth.1

/-- The first event of a chat is cached, and its index is its line. -/
theorem coherent_of_guarded_first : ∃ s, system.run (start 0 []) (untilFetching 0
      ++ [.fetched 0 "id" "now", .land 0, .resume 0]) = some s
    ∧ s.broadcasts = [(0, 0)] ∧ s.CacheCoherent := by
  have hoverlap : system.Guarded NoOverlap (start 0 []) (untilFetching 0
      ++ [.fetched 0 "id" "now", .land 0, .resume 0]) := by
    refine TransitionSystem.guarded_append ?_ fun t ht => ?_
    · refine ⟨trivial, fun _ h₁ => ⟨trivial, fun _ h₂ => ⟨fun _ _ _ _ => ?_, fun _ h₃ =>
        ⟨fun _ _ _ _ => ?_, fun _ h₄ => ⟨fun _ _ _ _ => ?_, fun _ _ =>
          ⟨trivial, fun _ _ => trivial⟩⟩⟩⟩⟩⟩
      all_goals
        cases h₁
        cases h₂
      · rfl
      · cases h₃
        rfl
      · cases h₃
        cases h₄
        rfl
    · cases ht
      refine ⟨trivial, fun _ h₁ => ⟨trivial, fun _ h₂ => ⟨fun line hline => ?_, fun _ _ => trivial⟩⟩⟩
      cases h₁
      cases h₂
      cases List.mem_singleton.mp hline
      rfl
  exact ⟨_, rfl, rfl, coherent_of_guarded 0 [] (undisturbed_first.and hoverlap) rfl⟩

/-- **A call raises for the entry that is gone**, dropped while it waited; and **an
event is cached twice**, by a reader that parses the file between the line and its
call. -/
theorem incoherent :
    (∃ s, system.run (start 0 []) (untilFetching 0
        ++ [.drop, .fetched 0 "id" "now", .land 0, .resume 0]) = some s
      ∧ s.keyErrors = [0] ∧ ¬s.CacheCoherent)
    ∧ ∃ s, system.run (start 0 []) (untilFetching 0
        ++ [.drop, .fetched 0 "id" "now", .land 0, .read 0, .loadReader 0, .loadReader 0,
          .loadReader 0, .resume 0]) = some s
      ∧ s.cache.map (fun list => (s.lists list).length) = some 2 ∧ s.parse.length = 1
      ∧ s.broadcasts = [(1, 0)] ∧ ¬s.CacheCoherent := by
  constructor
  · have hrun : ∃ s, system.run (start 0 []) (untilFetching 0
        ++ [.drop, .fetched 0 "id" "now", .land 0, .resume 0]) = some s ∧ s.keyErrors = [0] :=
      ⟨_, rfl, rfl⟩
    obtain ⟨s, hrun, hkeys⟩ := hrun
    refine ⟨s, hrun, hkeys, fun h => ?_⟩
    rw [h.2.2] at hkeys
    cases hkeys
  · have hrun : ∃ s, system.run (start 0 []) (untilFetching 0
        ++ [.drop, .fetched 0 "id" "now", .land 0, .read 0, .loadReader 0, .loadReader 0,
          .loadReader 0, .resume 0]) = some s
        ∧ s.cache.map (fun list => (s.lists list).length) = some 2 ∧ s.parse.length = 1
        ∧ s.broadcasts = [(1, 0)] := ⟨_, rfl, rfl, rfl, rfl⟩
    obtain ⟨s, hrun, hcached, hparse, hbroadcasts⟩ := hrun
    refine ⟨s, hrun, hcached, hparse, hbroadcasts, fun h => ?_⟩
    have hindex := h.2.1 (1, 0) (by rw [hbroadcasts]; exact List.mem_singleton_self _)
    cases hindex

end LiveChat
