import CharlieBot.LiveChat

/-!
# The live aggregator folds the file

What is broadcast of a chat is what its aggregator makes of the events, so the
aggregator is meant to be, at any time, the fold of the events that were
persisted. It is made from the file by the first call that needs it, and every
call feeds it what it wrote. A drop in between is found by the epoch, which is
looked at behind every slice – though not where there is no slice, and not by
a call that has its aggregator already.

Along every run in which **no drop takes the entry from under a call**, an
initialisation that lost gives up alone, and calls are resumed in the order of
their lines, the aggregator is the fold (`folds_of_guarded`). Otherwise an
event is skipped (`event_skipped`).
-/

/-! ## Phases -/

namespace CallPhase

/-- The epoch a call read, while it initialises or waits to. -/
def epoch? : CallPhase → Option ℕ
  | .waiting epoch => some epoch
  | .loading epoch _ => some epoch
  | .loaded epoch _ => some epoch
  | .boundary epoch _ _ _ => some epoch
  | _ => none

def initEpoch : CallPhase → Option ℕ
  | .loading epoch _ => some epoch
  | .loaded epoch _ => some epoch
  | .boundary epoch _ _ _ => some epoch
  | _ => none

/-- What a call feeds from: the epoch, the list, how far it came, and what it fed. -/
def feeding : CallPhase → Option (ℕ × ℕ × ℕ × List Event)
  | .loaded epoch list => some (epoch, list, 0, [])
  | .boundary epoch list start fed => some (epoch, list, start, fed)
  | _ => none

def agg? : CallPhase → Option ℕ
  | .fetching agg => some agg
  | .saving agg _ => some agg
  | .landed agg _ _ => some agg
  | _ => none

/-- The file was parsed, and the entry is not written. -/
def hasParsed : CallPhase → Bool
  | .loading _ (.parsed _) => true
  | _ => false

/-- The line is written, and the call is not resumed. -/
def isLanded : CallPhase → Bool
  | .landed _ _ _ => true
  | _ => false

/-- The call was told that there is an entry, and reads it. -/
def isHit : CallPhase → Bool
  | .loading _ .hit => true
  | _ => false

theorem initEpoch_of_feeding {phase : CallPhase} {epoch list start : ℕ}
    {fed : List Event} (h : phase.feeding = some (epoch, list, start, fed)) :
    phase.initEpoch = some epoch := by
  cases phase with
  | loaded | boundary =>
    cases h
    rfl
  | _ => cases h

theorem epoch?_of_initEpoch {phase : CallPhase} {epoch : ℕ} (h : phase.initEpoch = some epoch) :
    phase.epoch? = some epoch := by
  cases phase with
  | loading | loaded | boundary => exact h
  | _ => cases h

theorem isLanded_of_initEpoch {phase : CallPhase} {epoch : ℕ} (h : phase.initEpoch = some epoch) :
    phase.isLanded = false := by
  cases phase with
  | landed => cases h
  | _ => rfl

end CallPhase

namespace LiveChat

/-- **The aggregator folds the file**: it was made in this epoch, and it is in
the state the persisted events lead to – those of the file, each once and in
order, up to the ones whose calls are not resumed. -/
def AggregatorFolds (s : LiveChat) : Prop :=
  ∀ agg, s.aggregator = some agg →
    (s.aggs agg).epoch = s.epoch
      ∧ ∃ persisted, s.parse = persisted ++ s.landed.map (·.2)
        ∧ aggregatorState s.archiveOffset (s.aggs agg).fed
          = aggregatorState s.archiveOffset persisted

/-- **No drop takes the entry from under a call**: none comes while a call has
its aggregator or is about to read the entry, or while an empty file is loaded;
an initialisation that lost gives up while no aggregator is registered and no other
call has an entry or a list; no line is written between a parse and its entry; and
calls are resumed in the order of their lines. -/
def Undisturbed (s : LiveChat) : LiveChatAction → Prop
  | .drop => ∀ c call, s.calls c = some call →
      call.phase.agg? = none ∧ call.phase.isHit = false
  | .startInit c => ∀ call epoch list, s.calls c = some call →
      call.phase = .loaded epoch list → s.lists list = [] → epoch = s.epoch
  | .resumeInit c => ∀ call epoch list start fed, s.calls c = some call →
      call.phase = .boundary epoch list start fed → s.epoch ≠ epoch →
      s.aggregator = none ∧ ∀ d other, d ≠ c → s.calls d = some other →
        other.phase.isHit = false ∧ other.phase.feeding = none
  | .land _ => (∀ c call, s.calls c = some call → call.phase.hasParsed = false)
      ∧ ∀ r events, s.readers r ≠ some (.parsed events)
  | .resume c => s.landed.head?.map (·.1) = some c
  | _ => True

/-! ## The invariant -/

/-- **What holds of a call.** -/
structure CallInv (s : LiveChat) (c : ℕ) (call : PersistCall) : Prop where
  /-- Epochs only grow. -/
  known : ∀ epoch, call.phase.epoch? = some epoch → epoch ≤ s.epoch
  lock : ∀ epoch, call.phase.initEpoch = some epoch → s.locks epoch = some c
  first : call.phase.initEpoch = some s.epoch → s.aggregator = none
  parsed : ∀ epoch events, call.phase = .loading epoch (.parsed events) → events = s.parse
  /-- The entry it is about to read is there. -/
  hit : call.phase.isHit = true → s.cache.isSome = true
  feeding : ∀ epoch list start fed, call.phase.feeding = some (epoch, list, start, fed) →
    list < s.nextList ∧ (epoch = s.epoch →
      s.cache.isSome = true ∧ s.lists list = s.parse ∧ fed = (s.lists list).take start)
  /-- The aggregator it has is the one that is registered. -/
  past : ∀ agg, call.phase.agg? = some agg → s.aggregator = some agg

/-- **What holds of a chat.** -/
structure Inv (s : LiveChat) : Prop where
  calls : ∀ c call, s.calls c = some call → s.CallInv c call
  readers : ∀ r events, s.readers r = some (.parsed events) → events = s.parse
  entry : ∀ list, s.cache = some list → list < s.nextList
  /-- Without an aggregator the entry is the file. -/
  cold : s.aggregator = none → ∀ list, s.cache = some list → s.lists list = s.parse
  /-- With one there is an entry, and the aggregator was fed the file. -/
  live : ∀ agg, s.aggregator = some agg →
    s.cache.isSome = true ∧ (s.aggs agg).epoch = s.epoch
      ∧ ∃ persisted, s.parse = persisted ++ s.landed.map (·.2)
        ∧ (s.aggs agg).fed.map Event.unstamped = persisted.map Event.unstamped
  /-- A line that is written is of a call that waits to be resumed. -/
  landed : ∀ w ∈ s.landed, ∃ call, s.calls w.1 = some call ∧ call.event = w.2
    ∧ ∃ agg archiveOffset line, call.phase = .landed agg archiveOffset line
  nodup : (s.landed.map (·.1)).Nodup

theorem aggregatorState_congr (archiveOffset : ℕ) {fed events : List Event}
    (h : fed.map Event.unstamped = events.map Event.unstamped) :
    aggregatorState archiveOffset fed = aggregatorState archiveOffset events := by
  have key : ∀ (events : List Event) (agg : MessageAggregator),
      agg.feedAll (events.map Event.unstamped) = agg.feedAll events := by
    intro events
    induction events with
    | nil => exact fun _ => rfl
    | cons event events ih =>
      intro agg
      simp only [MessageAggregator.feedAll] at ih ⊢
      rw [List.map_cons, Machine.run_cons, Machine.run_cons]
      show (agg.feed event.unstamped).bind _ = (agg.feed event).bind _
      rw [MessageAggregator.feed_unstamped]
      exact Option.bind_congr fun p _ => by rw [ih]
  rw [aggregatorState, aggregatorState, ← key fed, ← key events, h]

theorem Inv.aggregatorFolds {s : LiveChat} (h : s.Inv) : s.AggregatorFolds := by
  intro agg hagg
  obtain ⟨-, hepoch, persisted, hparse, hfed⟩ := h.live agg hagg
  exact ⟨hepoch, persisted, hparse, aggregatorState_congr _ hfed⟩

theorem Inv.start (archiveOffset : ℕ) (file : List (Option Event)) :
    (start archiveOffset file).Inv where
  calls c call h := by cases h
  readers r events h := by cases h
  entry list h := by cases h
  cold _ list h := by cases h
  live agg h := by cases h
  landed w h := by cases h
  nodup := List.nodup_nil

variable {s t : LiveChat} {c : ℕ} {call : PersistCall}

/-! ## What leaves a call alone -/

theorem CallInv.frame (h : s.CallInv c call) (hepoch : t.epoch = s.epoch)
    (hagg : t.aggregator = s.aggregator)
    (hlocks : ∀ epoch, call.phase.initEpoch = some epoch → t.locks epoch = s.locks epoch)
    (hparse : t.parse = s.parse) (hnext : s.nextList ≤ t.nextList)
    (hlists : ∀ list < s.nextList, t.lists list = s.lists list)
    (hcache : s.cache.isSome = true → t.cache.isSome = true) : t.CallInv c call where
  known epoch hphase := by
    rw [hepoch]
    exact h.known epoch hphase
  lock epoch hphase := by
    rw [hlocks epoch hphase]
    exact h.lock epoch hphase
  first hphase := by
    rw [hagg]
    rw [hepoch] at hphase
    exact h.first hphase
  parsed epoch events hphase := by
    rw [hparse]
    exact h.parsed epoch events hphase
  hit hphase := hcache (h.hit hphase)
  feeding epoch list start fed hphase := by
    obtain ⟨hlt, hfeeds⟩ := h.feeding epoch list start fed hphase
    refine ⟨Nat.lt_of_lt_of_le hlt hnext, fun heq => ?_⟩
    rw [hepoch] at heq
    obtain ⟨hsome, hlist, hfed⟩ := hfeeds heq
    rw [hlists list hlt, hparse]
    exact ⟨hcache hsome, hlist, hfed⟩
  past agg hphase := by
    rw [hagg]
    exact h.past agg hphase

/-- While an aggregator is registered no call of this epoch initialises, and the
file and the lists may grow. -/
theorem CallInv.frame_live (h : s.CallInv c call) {agg : ℕ} (hagg : s.aggregator = some agg)
    (hepoch : t.epoch = s.epoch) (hagg' : t.aggregator = s.aggregator) (hlocks : t.locks = s.locks)
    (hnext : t.nextList = s.nextList) (hcache : t.cache = s.cache)
    (hparse : call.phase.hasParsed = true → t.parse = s.parse) : t.CallInv c call where
  known epoch hphase := by
    rw [hepoch]
    exact h.known epoch hphase
  lock epoch hphase := by
    rw [hlocks]
    exact h.lock epoch hphase
  first hphase := by
    rw [hagg']
    rw [hepoch] at hphase
    exact h.first hphase
  parsed epoch events hphase := by
    rw [hparse (by rw [hphase]; rfl)]
    exact h.parsed epoch events hphase
  hit hphase := by
    rw [hcache]
    exact h.hit hphase
  feeding epoch list start fed hphase := by
    obtain ⟨hlt, -⟩ := h.feeding epoch list start fed hphase
    refine ⟨by rw [hnext]; exact hlt, fun heq => ?_⟩
    rw [hepoch] at heq
    subst heq
    rw [h.first (CallPhase.initEpoch_of_feeding hphase)] at hagg
    cases hagg
  past agg hphase := by
    rw [hagg']
    exact h.past agg hphase

theorem Inv.not_landed (h : s.Inv) (hcall : ∀ call, s.calls c = some call →
    call.phase.isLanded = false) : ∀ w ∈ s.landed, w.1 ≠ c := by
  rintro w hw rfl
  obtain ⟨call, hsome, -, agg, archiveOffset, line, hphase⟩ := h.landed w hw
  have hfalse := hcall call hsome
  rw [hphase] at hfalse
  cases hfalse

theorem Inv.free (h : s.Inv) (hcall : s.calls c = some call)
    (hphase : call.phase.isLanded = false) : ∀ w ∈ s.landed, w.1 ≠ c := by
  refine h.not_landed fun call' hcall' => ?_
  rw [hcall, Option.some_inj] at hcall'
  rw [← hcall']
  exact hphase

theorem setCall_calls_self (s : LiveChat) (c : ℕ) (call : Option PersistCall) :
    (s.setCall c call).calls c = call := Function.update_self ..

theorem setCall_calls_of_ne (s : LiveChat) {c d : ℕ} (hd : d ≠ c) (call : Option PersistCall) :
    (s.setCall c call).calls d = s.calls d := Function.update_of_ne hd ..

theorem setLock_locks_of_ne (s : LiveChat) {e epoch : ℕ} (he : e ≠ epoch) (holder : Option ℕ) :
    (s.setLock epoch holder).locks e = s.locks e := Function.update_of_ne he ..

theorem setReader_readers_self (s : LiveChat) (r : ℕ) (load : Option LoadPhase) :
    (s.setReader r load).readers r = load := Function.update_self ..

theorem setReader_readers_of_ne (s : LiveChat) {r q : ℕ} (hq : q ≠ r)
    (load : Option LoadPhase) : (s.setReader r load).readers q = s.readers q :=
  Function.update_of_ne hq ..

theorem Inv.setCall (h : s.Inv) (hfree : ∀ w ∈ s.landed, w.1 ≠ c) {next : Option PersistCall}
    (hnext : ∀ call, next = some call → s.CallInv c call) : (s.setCall c next).Inv where
  calls d call hcall := by
    refine CallInv.frame (s := s) ?_ rfl rfl (fun _ _ => rfl) rfl (Nat.le_refl _)
      (fun _ _ => rfl) id
    by_cases hd : d = c
    · subst hd
      rw [setCall_calls_self] at hcall
      exact hnext call hcall
    · rw [setCall_calls_of_ne s hd] at hcall
      exact h.calls d call hcall
  readers := h.readers
  entry := h.entry
  cold := h.cold
  live := h.live
  landed w hw := by
    obtain ⟨call, hcall, hrest⟩ := h.landed w hw
    refine ⟨call, ?_, hrest⟩
    rw [setCall_calls_of_ne s (hfree w hw)]
    exact hcall
  nodup := h.nodup

theorem Inv.setLock (h : s.Inv) (epoch : ℕ) {holder : Option ℕ}
    (hholder : ∀ d call, s.calls d = some call → call.phase.initEpoch = some epoch →
      holder = some d) : (s.setLock epoch holder).Inv where
  calls d call hcall := by
    have hinv := h.calls d call hcall
    refine ⟨hinv.known, fun e hphase => ?_, hinv.first, hinv.parsed, hinv.hit, hinv.feeding,
      hinv.past⟩
    by_cases he : e = epoch
    · subst he
      rw [hholder d call hcall hphase]
      exact Function.update_self ..
    · rw [setLock_locks_of_ne s he]
      exact hinv.lock e hphase
  readers := h.readers
  entry := h.entry
  cold := h.cold
  live := h.live
  landed := h.landed
  nodup := h.nodup

theorem Inv.leave (h : s.Inv) (hcall : s.calls c = some call) {epoch : ℕ}
    (hphase : call.phase.initEpoch = some epoch) {next : Option PersistCall}
    (hnext : ∀ call, next = some call → s.CallInv c call ∧ call.phase.initEpoch = none) :
    ((s.setCall c next).setLock epoch none).Inv := by
  have hfree := h.free hcall (CallPhase.isLanded_of_initEpoch hphase)
  refine (h.setCall hfree fun call hcall => (hnext call hcall).1).setLock epoch
    fun d other hother hinit => ?_
  by_cases hd : d = c
  · subst hd
    rw [setCall_calls_self] at hother
    rw [(hnext other hother).2] at hinit
    cases hinit
  · rw [setCall_calls_of_ne s hd] at hother
    have hlock := (h.calls d other hother).lock epoch hinit
    rw [(h.calls c call hcall).lock epoch hphase] at hlock
    cases hlock
    exact absurd rfl hd

/-! ## Loads -/

theorem Inv.storeList (h : s.Inv) {events : List Event} (hevents : events = s.parse) :
    (s.storeList events).Inv where
  calls d call hcall := by
    refine (h.calls d call hcall).frame rfl rfl (fun _ _ => rfl) rfl (Nat.le_succ _)
      (fun list hlist => ?_) fun _ => rfl
    exact Function.update_of_ne (Nat.ne_of_lt hlist) ..
  readers := h.readers
  entry list hlist := by
    cases hlist
    exact Nat.lt_succ_self _
  cold _ list hlist := by
    cases hlist
    rw [show (s.storeList events).parse = s.parse from rfl, ← hevents]
    exact Function.update_self ..
  live agg hagg := by
    obtain ⟨-, hrest⟩ := h.live agg hagg
    exact ⟨rfl, hrest⟩
  landed := h.landed
  nodup := h.nodup

theorem Inv.setReader (h : s.Inv) (r : ℕ) {load : Option LoadPhase}
    (hload : ∀ events, load = some (.parsed events) → events = s.parse) :
    (s.setReader r load).Inv where
  calls d call hcall := (h.calls d call hcall).frame rfl rfl (fun _ _ => rfl) rfl
    (Nat.le_refl _) (fun _ _ => rfl) id
  readers q events hq := by
    by_cases heq : q = r
    · subst heq
      rw [setReader_readers_self] at hq
      exact hload events hq
    · rw [setReader_readers_of_ne s heq] at hq
      exact h.readers q events hq
  entry := h.entry
  cold := h.cold
  live := h.live
  landed := h.landed
  nodup := h.nodup

theorem CallInv.loading (h : s.CallInv c call) {epoch : ℕ} {load : LoadPhase}
    (hphase : call.phase = .loading epoch load) {next : LoadPhase}
    (hparsed : ∀ events, next = .parsed events → events = s.parse)
    (hhit : next = .hit → s.cache.isSome = true) :
    s.CallInv c { call with phase := .loading epoch next } where
  known e he := h.known e (by rw [hphase]; exact he)
  lock e he := h.lock e (by rw [hphase]; exact he)
  first he := h.first (by rw [hphase]; exact he)
  parsed e events he := by
    cases he
    exact hparsed events rfl
  hit he := by
    cases next with
    | hit => exact hhit rfl
    | _ => cases he
  feeding e list start fed he := by cases he
  past agg he := by cases he

theorem CallInv.loaded (h : s.CallInv c call) {epoch : ℕ} {load : LoadPhase}
    (hphase : call.phase = .loading epoch load) {list : ℕ} (hlist : list < s.nextList)
    (hfeeds : s.aggregator = none → s.cache.isSome = true ∧ s.lists list = s.parse) :
    s.CallInv c { call with phase := .loaded epoch list } where
  known e he := h.known e (by rw [hphase]; exact he)
  lock e he := h.lock e (by rw [hphase]; exact he)
  first he := h.first (by rw [hphase]; exact he)
  parsed e events he := by cases he
  hit he := by cases he
  feeding e l start fed he := by
    cases he
    refine ⟨hlist, fun hepoch => ?_⟩
    obtain ⟨hsome, hparse⟩ := hfeeds (h.first (by rw [hphase, ← hepoch]; rfl))
    exact ⟨hsome, hparse, (List.take_zero).symm⟩
  past agg he := by cases he

theorem CallInv.of_agg {event : Event} {phase : CallPhase} {agg : ℕ}
    (hphase : phase.agg? = some agg) (hagg : s.aggregator = some agg) :
    s.CallInv c ⟨event, phase⟩ := by
  cases phase with
  | waiting | loading | loaded | boundary => cases hphase
  | fetching | saving | landed =>
    cases hphase
    exact ⟨fun _ h => (by cases h), fun _ h => (by cases h), fun h => (by cases h),
      fun _ _ h => (by cases h), fun h => (by cases h), fun _ _ _ _ h => (by cases h),
      fun _ h => (by cases h; exact hagg)⟩

theorem CallInv.of_waiting {event : Event} {epoch : ℕ} (hepoch : epoch ≤ s.epoch) :
    s.CallInv c ⟨event, .waiting epoch⟩ where
  known e h := by
    cases h
    exact hepoch
  lock _ h := by cases h
  first h := by cases h
  parsed _ _ h := by cases h
  hit h := by cases h
  feeding _ _ _ _ h := by cases h
  past _ h := by cases h

/-! ## Initialisations -/

theorem Inv.landed_eq_nil (h : s.Inv) (hagg : s.aggregator = none) : s.landed = [] := by
  refine List.eq_nil_iff_forall_not_mem.mpr fun w hw => ?_
  obtain ⟨call, hcall, -, agg, archiveOffset, line, hphase⟩ := h.landed w hw
  have hpast := (h.calls w.1 call hcall).past agg (by rw [hphase]; rfl)
  rw [hagg] at hpast
  cases hpast

theorem Inv.publish (h : s.Inv) (hcall : s.calls c = some call)
    (hinit : call.phase.initEpoch = some s.epoch) (hcache : s.cache.isSome = true) :
    (s.publish c call s.epoch s.parse).Inv := by
  have hnone : s.aggregator = none := (h.calls c call hcall).first hinit
  have hnil := h.landed_eq_nil hnone
  have hlock := (h.calls c call hcall).lock _ hinit
  refine ⟨fun d other hother => ?_, h.readers, h.entry, fun hagg => (by cases hagg),
    fun agg hagg => ?_, fun w hw => ?_, h.nodup⟩
  · by_cases hd : d = c
    · subst hd
      have hother : (s.setCall d _).calls d = some other := hother
      rw [setCall_calls_self] at hother
      cases hother
      exact CallInv.of_agg rfl rfl
    · have hother : (s.setCall c _).calls d = some other := hother
      rw [setCall_calls_of_ne s hd] at hother
      have hinv := h.calls d other hother
      have hinit' : other.phase.initEpoch ≠ some s.epoch := fun hinit' => by
        have hlock' := hinv.lock _ hinit'
        rw [hlock] at hlock'
        cases hlock'
        exact hd rfl
      refine ⟨hinv.known, fun e he => ?_, fun he => absurd he hinit', hinv.parsed, hinv.hit,
        fun e list start fed he => ⟨(hinv.feeding e list start fed he).1, fun heq => ?_⟩,
        fun agg he => ?_⟩
      · have hne : e ≠ s.epoch := fun heq => hinit' (by rw [he, heq])
        exact (setLock_locks_of_ne s hne none).trans (hinv.lock e he)
      · have hinit := CallPhase.initEpoch_of_feeding he
        rw [heq] at hinit
        exact absurd hinit hinit'
      · have hpast := hinv.past agg he
        rw [hnone] at hpast
        cases hpast
  · cases hagg
    have hself : (s.publish c call s.epoch s.parse).aggs s.nextAgg = ⟨s.epoch, s.parse⟩ :=
      Function.update_self ..
    refine ⟨hcache, by rw [hself]; rfl, s.parse, ?_, by rw [hself]⟩
    rw [show (s.publish c call s.epoch s.parse).landed = s.landed from rfl, hnil]
    exact (List.append_nil _).symm
  · rw [show (s.publish c call s.epoch s.parse).landed = s.landed from rfl, hnil] at hw
    cases hw

/-- **An initialisation goes on**: where it is through, in the epoch it began in. -/
theorem Inv.feedOn (h : s.Inv) (hcall : s.calls c = some call) {epoch list start : ℕ}
    {fed : List Event} (hphase : call.phase.feeding = some (epoch, list, start, fed))
    (hepoch : (s.lists list).length ≤ start → epoch = s.epoch) :
    (s.feedOn c call epoch list start fed).Inv := by
  have hinv := h.calls c call hcall
  have hinit := CallPhase.initEpoch_of_feeding hphase
  obtain ⟨hlist, hfeeds⟩ := hinv.feeding _ _ _ _ hphase
  have hfree := h.free hcall (CallPhase.isLanded_of_initEpoch hinit)
  unfold LiveChat.feedOn
  split
  · next hlt =>
    dsimp only
    split
    · refine h.setCall hfree fun next hnext => ?_
      cases hnext
      refine ⟨fun e he => ?_, fun e he => ?_, fun he => ?_, fun _ _ he => (by cases he),
        fun he => (by cases he), fun e l start' fed' he => ?_, fun _ he => (by cases he)⟩
      · cases he
        exact hinv.known _ (CallPhase.epoch?_of_initEpoch hinit)
      · cases he
        exact hinv.lock _ hinit
      · have he : some epoch = some s.epoch := he
        rw [he] at hinit
        exact hinv.first hinit
      · cases he
        refine ⟨hlist, fun heq => ?_⟩
        obtain ⟨hsome, hparse, hfed⟩ := hfeeds heq
        refine ⟨hsome, hparse, ?_⟩
        have hle : start ≤ min (start + aggregatorInitSliceEvents) (s.lists list).length :=
          Nat.le_min.mpr ⟨Nat.le_add_right _ _, Nat.le_of_lt hlt⟩
        rw [hfed, ← Nat.min_eq_left hle, ← List.take_take, Nat.min_eq_left hle]
        exact List.take_append_drop _ _
    · exact h.leave hcall hinit fun _ hnone => by cases hnone
  · next hge =>
    have heq := hepoch (Nat.le_of_not_lt hge)
    obtain ⟨hsome, hparse, hfed⟩ := hfeeds heq
    rw [List.take_of_length_le (Nat.le_of_not_lt hge), hparse] at hfed
    rw [hfed, heq]
    rw [heq] at hinit
    exact h.publish hcall hinit hsome

/-- **An initialisation that lost gives up**, with nobody else having a list. -/
theorem Inv.discard (h : s.Inv) (hcall : s.calls c = some call) {epoch : ℕ}
    (hinit : call.phase.initEpoch = some epoch) (hnone : s.aggregator = none)
    (hothers : ∀ d other, d ≠ c → s.calls d = some other →
      other.phase.isHit = false ∧ other.phase.feeding = none) :
    (({ s with cache := none }.goto c call (.waiting s.epoch)).setLock epoch none).Inv := by
  have hleft := @Inv.leave s c call h hcall _ hinit (some { call with phase := .waiting s.epoch })
    fun next hnext => by
      cases hnext
      exact ⟨CallInv.of_waiting (Nat.le_refl _), rfl⟩
  refine ⟨fun d other hother => ?_, hleft.readers, fun _ hlist => (by cases hlist),
    fun _ _ hlist => (by cases hlist), fun agg hagg => ?_, hleft.landed, hleft.nodup⟩
  · have hinv := hleft.calls d other hother
    have hquiet : other.phase.isHit = false ∧ other.phase.feeding = none := by
      by_cases hd : d = c
      · subst hd
        have hother : (s.setCall d _).calls d = some other := hother
        rw [setCall_calls_self] at hother
        cases hother
        exact ⟨rfl, rfl⟩
      · have hother : (s.setCall c _).calls d = some other := hother
        rw [setCall_calls_of_ne s hd] at hother
        exact hothers d other hd hother
    refine ⟨hinv.known, hinv.lock, hinv.first, hinv.parsed, fun hhit => ?_,
      fun e list start fed he => ?_, hinv.past⟩
    · rw [hquiet.1] at hhit
      cases hhit
    · rw [hquiet.2] at he
      cases he
  · rw [show s.aggregator = some agg from hagg] at hnone
    cases hnone

/-! ## Appends -/

theorem Inv.land (h : s.Inv) (hcall : s.calls c = some call) {agg archiveOffset : ℕ}
    (hphase : call.phase = .saving agg archiveOffset)
    (hcalls : ∀ c call, s.calls c = some call → call.phase.hasParsed = false)
    (hreaders : ∀ r events, s.readers r ≠ some (.parsed events)) :
    Inv { s.goto c call (.landed agg archiveOffset s.file.length) with
      file := s.file ++ [some call.event]
      landed := s.landed ++ [(c, call.event)] } := by
  have hagg : s.aggregator = some agg := (h.calls c call hcall).past agg (by rw [hphase]; rfl)
  have hfree := h.free hcall (by rw [hphase]; rfl)
  refine ⟨fun d other hother => ?_, fun r events hr => absurd hr (hreaders r events), h.entry,
    fun hnone => ?_, fun agg' hagg' => ?_, fun w hw => ?_, ?_⟩
  · have hother : (s.setCall c _).calls d = some other := hother
    by_cases hd : d = c
    · subst hd
      rw [setCall_calls_self] at hother
      cases hother
      exact CallInv.of_agg rfl hagg
    · rw [setCall_calls_of_ne s hd] at hother
      refine (h.calls d other hother).frame_live hagg rfl rfl rfl rfl rfl fun hparsed => ?_
      rw [hcalls d other hother] at hparsed
      cases hparsed
  · rw [show s.aggregator = none from hnone] at hagg
    cases hagg
  · obtain ⟨hsome, hepoch, persisted, hparse, hfed⟩ := h.live agg' hagg'
    refine ⟨hsome, hepoch, persisted, ?_, hfed⟩
    show (s.file ++ [some call.event]).filterMap id
      = persisted ++ (s.landed ++ [(c, call.event)]).map (·.2)
    rw [List.filterMap_append, List.map_append, ← List.append_assoc, ← hparse]
    rfl
  · rcases List.mem_append.mp hw with hw | hw
    · obtain ⟨other, hother, hrest⟩ := h.landed w hw
      exact ⟨other, (setCall_calls_of_ne s (hfree w hw) _).trans hother, hrest⟩
    · rw [List.mem_singleton] at hw
      subst hw
      exact ⟨_, setCall_calls_self s c _, rfl, agg, archiveOffset, s.file.length, rfl⟩
  · show ((s.landed ++ [(c, call.event)]).map (·.1)).Nodup
    rw [List.map_append]
    refine List.nodup_append.mpr ⟨h.nodup, by simp, fun a ha b hb => ?_⟩
    obtain ⟨w, hw, rfl⟩ := List.mem_map.mp ha
    rw [List.map_cons, List.map_nil, List.mem_singleton] at hb
    rw [hb]
    exact hfree w hw

theorem unstamped_set (event : Event) (index : Json) :
    Event.unstamped (Dict.set event "event_index" index) = event.unstamped := by
  rw [Dict.set, Event.unstamped, Event.unstamped]
  split
  · rw [List.filter_map]
    have hsame : ((fun f : String × Json => f.1 != "event_index") ∘
        fun f => if f.1 = "event_index" then ("event_index", index) else f)
        = fun f => f.1 != "event_index" := by
      funext f
      show ((if f.1 = "event_index" then ("event_index", index) else f).1 != "event_index") = _
      split
      · next hname => rw [hname]
      · rfl
    rw [hsame]
    refine (List.map_congr_left fun f hf => ?_).trans (List.map_id _)
    exact if_neg (by simpa using (List.mem_filter.mp hf).2)
  · rw [List.filter_append]
    simp

theorem Inv.landed_eq_cons (h : s.Inv) (hcall : s.calls c = some call)
    (hfirst : s.landed.head?.map (·.1) = some c) :
    ∃ rest, s.landed = (c, call.event) :: rest := by
  cases hlanded : s.landed with
  | nil =>
    rw [hlanded] at hfirst
    cases hfirst
  | cons w rest =>
    rw [hlanded] at hfirst
    have hw : w.1 = c := Option.some.inj hfirst
    obtain ⟨call', hcall', hevent', -⟩ := h.landed w (by rw [hlanded]; exact List.mem_cons_self)
    rw [hw, hcall, Option.some_inj] at hcall'
    exact ⟨rest, by rw [← hw, hcall', hevent']⟩

/-- **The first call in line is resumed**: the list and the aggregator are told. -/
theorem Inv.resume (h : s.Inv) (hcall : s.calls c = some call) {agg archiveOffset line : ℕ}
    (hphase : call.phase = .landed agg archiveOffset line)
    (hfirst : s.landed.head?.map (·.1) = some c) {list : ℕ} (event : Event)
    (hevent : event.unstamped = call.event.unstamped) (broadcasts : List (ℕ × ℕ)) :
    Inv { s.setCall c none with
      landed := s.landed.eraseP (·.1 == c)
      lists := Function.update s.lists list (s.lists list ++ [event])
      aggs := Function.update s.aggs agg
        { s.aggs agg with fed := (s.aggs agg).fed ++ [event] }
      broadcasts := broadcasts } := by
  have hagg : s.aggregator = some agg := (h.calls c call hcall).past agg (by rw [hphase]; rfl)
  obtain ⟨rest, hrest⟩ := h.landed_eq_cons hcall hfirst
  have herase : s.landed.eraseP (·.1 == c) = rest := by
    rw [hrest]
    exact List.eraseP_cons_of_pos (beq_self_eq_true c)
  have hnodup := h.nodup
  rw [hrest, List.map_cons, List.nodup_cons] at hnodup
  refine ⟨fun d other hother => ?_, h.readers, h.entry, fun hnone => ?_, fun agg' hagg' => ?_,
    fun w hw => ?_, ?_⟩
  · have hother : (s.setCall c none).calls d = some other := hother
    by_cases hd : d = c
    · subst hd
      rw [setCall_calls_self] at hother
      cases hother
    · rw [setCall_calls_of_ne s hd] at hother
      exact (h.calls d other hother).frame_live hagg rfl rfl rfl rfl rfl fun _ => rfl
  · rw [show s.aggregator = none from hnone] at hagg
    cases hagg
  · obtain ⟨hsome, hepoch, persisted, hparse, hfed⟩ := h.live agg' hagg'
    have hagg' : s.aggregator = some agg' := hagg'
    have hsame : agg' = agg := Option.some.inj (hagg'.symm.trans hagg)
    subst hsame
    have hself (a : LiveAggregator) : Function.update s.aggs agg' a agg' = a :=
      Function.update_self ..
    refine ⟨hsome, ?_, persisted ++ [call.event], ?_, ?_⟩
    · dsimp only
      rw [hself]
      exact hepoch
    · dsimp only
      rw [herase, List.append_assoc]
      rw [hrest] at hparse
      exact hparse
    · dsimp only
      rw [hself, List.map_append, List.map_append, hfed, List.map_cons, List.map_cons, hevent]
  · dsimp only at hw
    rw [herase] at hw
    obtain ⟨other, hother, hlanded⟩ := h.landed w (by rw [hrest]; exact List.mem_cons_of_mem _ hw)
    have hne : w.1 ≠ c := fun heq => hnodup.1 (List.mem_map.mpr ⟨w, hw, heq⟩)
    exact ⟨other, (setCall_calls_of_ne s hne _).trans hother, hlanded⟩
  · dsimp only
    rw [herase]
    exact hnodup.2

theorem Inv.drop (h : s.Inv) (hcalls : ∀ c call, s.calls c = some call →
      call.phase.agg? = none ∧ call.phase.isHit = false) :
    Inv { s with cache := none, aggregator := none, epoch := s.epoch + 1 } := by
  refine ⟨fun d other hother => ?_, h.readers, fun _ hlist => (by cases hlist),
    fun _ _ hlist => (by cases hlist), fun _ hagg => (by cases hagg), h.landed, h.nodup⟩
  have hinv := h.calls d other hother
  obtain ⟨hagg, hhit⟩ := hcalls d other hother
  have hold : other.phase.initEpoch ≠ some (s.epoch + 1) := fun hinit => by
    exact absurd (hinv.known _ (CallPhase.epoch?_of_initEpoch hinit)) (Nat.not_succ_le_self _)
  refine ⟨fun e he => Nat.le_succ_of_le (hinv.known e he), hinv.lock, fun he => absurd he hold,
    hinv.parsed, fun he => ?_, fun e list start fed he =>
      ⟨(hinv.feeding e list start fed he).1, fun heq => ?_⟩, fun agg he => ?_⟩
  · rw [hhit] at he
    cases he
  · have hinit := CallPhase.initEpoch_of_feeding he
    rw [heq] at hinit
    exact absurd hinit hold
  · rw [hagg] at he
    cases he

/-! ## Runs -/

/-- **One step that takes no entry from under a call.** -/
theorem Inv.step {a : LiveChatAction} (h : s.Inv) (hguard : s.Undisturbed a)
    (hstep : LiveChat.step s a = some t) : t.Inv := by
  cases a with
  | persist c event =>
    simp only [LiveChat.step] at hstep
    split at hstep
    · cases hstep
    · next hnone =>
      have hfree : ∀ w ∈ s.landed, w.1 ≠ c :=
        h.not_landed fun call hcall => by
          rw [hnone] at hcall
          cases hcall
      split at hstep
      · next agg hagg =>
        cases hstep
        refine h.setCall hfree fun call hcall => ?_
        cases hcall
        exact CallInv.of_agg rfl hagg
      · cases hstep
        refine h.setCall hfree fun call hcall => ?_
        cases hcall
        exact CallInv.of_waiting (Nat.le_refl _)
  | acquire c =>
    simp only [LiveChat.step] at hstep
    split at hstep
    · next call hcall =>
      split at hstep
      · next epoch hphase =>
        have hfree := h.free hcall (by rw [hphase]; rfl)
        split at hstep
        · cases hstep
        · next hlock =>
          split at hstep
          · next agg hagg =>
            cases hstep
            refine h.setCall hfree fun call hcall => ?_
            cases hcall
            exact CallInv.of_agg rfl hagg
          · next hagg =>
            cases hstep
            have hknown := (h.calls c call hcall).known epoch (by rw [hphase]; rfl)
            refine Inv.setCall (s := s.setLock epoch (some c))
              (h.setLock epoch fun d other hother hinit => ?_) hfree fun next hnext => ?_
            · -- the lock was free
              have hheld := (h.calls d other hother).lock epoch hinit
              rw [hlock] at hheld
              cases hheld
            · cases hnext
              refine ⟨fun e he => ?_, fun e he => ?_, fun _ => hagg, fun _ _ he => (by cases he),
                fun he => (by cases he), fun _ _ _ _ he => (by cases he),
                fun _ he => (by cases he)⟩
              · cases he
                exact hknown
              · cases he
                exact Function.update_self ..
      · cases hstep
    · cases hstep
  | loadCall c =>
    simp only [LiveChat.step] at hstep
    split at hstep
    · next call hcall =>
      split at hstep
      · next epoch load hphase =>
        have hfree := h.free hcall (by rw [hphase]; rfl)
        have hinv := h.calls c call hcall
        cases load with
        | checking =>
          cases hstep
          refine h.setCall hfree fun next hnext => ?_
          cases hnext
          refine hinv.loading hphase (fun events heq => ?_) fun heq => ?_
          · split at heq <;> cases heq
          · split at heq
            · next hsome => exact hsome
            · cases heq
        | hit =>
          obtain ⟨list, hlist⟩ := Option.isSome_iff_exists.mp (hinv.hit (by rw [hphase]; rfl))
          simp only [LiveChat.loadStep, hlist] at hstep
          cases hstep
          refine h.setCall hfree fun next hnext => ?_
          cases hnext
          exact hinv.loaded hphase (h.entry list hlist)
            fun hnone => ⟨by rw [hlist]; rfl, h.cold hnone list hlist⟩
        | parsing =>
          cases hstep
          refine h.setCall hfree fun next hnext => ?_
          cases hnext
          refine hinv.loading hphase (fun events heq => ?_) fun heq => ?_
          · cases heq
            rfl
          · cases heq
        | parsed events =>
          cases hstep
          have hevents := hinv.parsed epoch events hphase
          have hstored := h.storeList hevents
          refine hstored.setCall hfree fun next hnext => ?_
          cases hnext
          refine (hstored.calls c call hcall).loaded hphase (Nat.lt_succ_self _) fun _ => ?_
          refine ⟨rfl, (Function.update_self ..).trans hevents⟩
      · cases hstep
    · cases hstep
  | startInit c =>
    simp only [LiveChat.step] at hstep
    split at hstep
    · next call hcall =>
      split at hstep
      · next epoch list hphase =>
        cases hstep
        refine h.feedOn hcall (by rw [hphase]; rfl) fun hlen => ?_
        exact hguard call epoch list hcall hphase (List.length_eq_zero_iff.mp (Nat.le_zero.mp hlen))
      · cases hstep
    · cases hstep
  | resumeInit c =>
    simp only [LiveChat.step] at hstep
    split at hstep
    · next call hcall =>
      split at hstep
      · next epoch list start fed hphase =>
        split at hstep
        · next hepoch =>
          cases hstep
          exact h.feedOn hcall (by rw [hphase]; rfl) fun _ => hepoch.symm
        · next hepoch =>
          cases hstep
          obtain ⟨hnone, hothers⟩ := hguard call epoch list start fed hcall hphase hepoch
          exact h.discard hcall (by rw [hphase]; rfl) hnone hothers
      · cases hstep
    · cases hstep
  | fetched c id timestamp =>
    simp only [LiveChat.step] at hstep
    split at hstep
    · next call hcall =>
      split at hstep
      · next agg hphase =>
        cases hstep
        have hagg := (h.calls c call hcall).past agg (by rw [hphase]; rfl)
        refine h.setCall (h.free hcall (by rw [hphase]; rfl)) fun next hnext => ?_
        cases hnext
        exact CallInv.of_agg rfl hagg
      · cases hstep
    · cases hstep
  | land c =>
    simp only [LiveChat.step] at hstep
    split at hstep
    · next call hcall =>
      split at hstep
      · next agg archiveOffset hphase =>
        cases hstep
        exact h.land hcall hphase hguard.1 hguard.2
      · cases hstep
    · cases hstep
  | resume c =>
    simp only [LiveChat.step] at hstep
    split at hstep
    · next call hcall =>
      split at hstep
      · next agg archiveOffset line hphase =>
        have hagg := (h.calls c call hcall).past agg (by rw [hphase]; rfl)
        split at hstep
        · next hnone =>
          have hsome := (h.live agg hagg).1
          rw [hnone] at hsome
          cases hsome
        · cases hstep
          exact h.resume hcall hphase hguard _ (unstamped_set _ _) _
      · cases hstep
    · cases hstep
  | fail c =>
    simp only [LiveChat.step] at hstep
    split at hstep
    · next call hcall =>
      split at hstep
      · next epoch load hphase =>
        cases hstep
        exact h.leave hcall (by rw [hphase]; rfl) fun _ hnone => by cases hnone
      · next agg hphase =>
        cases hstep
        exact h.setCall (h.free hcall (by rw [hphase]; rfl)) fun _ hnone => by cases hnone
      · next agg archiveOffset hphase =>
        cases hstep
        exact h.setCall (h.free hcall (by rw [hphase]; rfl)) fun _ hnone => by cases hnone
      · cases hstep
    · cases hstep
  | read r =>
    simp only [LiveChat.step] at hstep
    split at hstep
    · cases hstep
    · cases hstep
      exact h.setReader r fun _ heq => by cases heq
  | loadReader r =>
    simp only [LiveChat.step] at hstep
    split at hstep
    · next load hload =>
      cases load with
      | checking =>
        cases hstep
        refine h.setReader r fun events heq => ?_
        split at heq <;> cases heq
      | hit =>
        simp only [LiveChat.loadStep] at hstep
        split at hstep
        · next heq =>
          split at heq <;> cases heq
        · next t' _ _ heq =>
          cases hstep
          have hsame : t' = s := by
            split at heq <;> cases heq <;> rfl
          rw [hsame]
          exact h.setReader r fun _ heq => by cases heq
      | parsing =>
        cases hstep
        refine h.setReader r fun events heq => ?_
        cases heq
        rfl
      | parsed events =>
        cases hstep
        exact (h.storeList (h.readers r events hload)).setReader r fun _ heq => by cases heq
    · cases hstep
  | drop =>
    cases hstep
    exact h.drop hguard

/-- **The aggregator folds the file**, along every run in which no drop takes the
entry from under a call. -/
theorem folds_of_guarded (archiveOffset : ℕ) (file : List (Option Event))
    {as : List LiveChatAction} (hguard : system.Guarded Undisturbed (start archiveOffset file) as)
    (hrun : system.run (start archiveOffset file) as = some t) : t.AggregatorFolds :=
  (system.run_invariant_of_guarded (fun _ _ _ h hG hstep => h.step hG hstep)
    (Inv.start archiveOffset file) hguard hrun).aggregatorFolds

/-- A call up to its aggregator, where the file is empty. -/
def untilFetching (c : ℕ) : List LiveChatAction :=
  [.persist c [("type", .str "user"), ("content", .str "hi")], .acquire c, .loadCall c,
    .loadCall c, .loadCall c, .startInit c]

theorem undisturbed_first : system.Guarded Undisturbed (start 0 []) (untilFetching 0
    ++ [.fetched 0 "id" "now", .land 0, .resume 0]) := by
  refine TransitionSystem.guarded_append ?_ fun t ht => ?_
  · refine ⟨trivial, fun _ h₁ => ⟨trivial, fun _ h₂ => ⟨trivial, fun _ h₃ => ⟨trivial,
      fun _ h₄ => ⟨trivial, fun _ h₅ => ⟨fun call epoch list hcall hphase _ => ?_,
        fun _ _ => trivial⟩⟩⟩⟩⟩⟩
    cases h₁
    cases h₂
    cases h₃
    cases h₄
    cases h₅
    cases hcall
    cases hphase
    rfl
  · cases ht
    refine ⟨trivial, fun _ h₁ => ?_⟩
    cases h₁
    refine ⟨⟨fun c call hcall => ?_, fun r events hr => by cases hr⟩, fun _ h₂ => ?_⟩
    · by_cases hc : c = 0
      · subst hc
        cases hcall
        rfl
      · have hupd : ∀ {f : ℕ → Option PersistCall} {call : Option PersistCall}, f c = none →
            Function.update f 0 call c = none :=
          fun h => (Function.update_of_ne hc _ _).trans h
        have hnone := hcall.symm.trans (hupd (hupd (hupd (hupd (hupd (hupd (hupd rfl)))))))
        cases hnone
    · cases h₂
      exact ⟨rfl, fun _ _ => trivial⟩

/-- The first event of a chat is folded. -/
theorem folds_of_guarded_first : ∃ s, system.run (start 0 []) (untilFetching 0
      ++ [.fetched 0 "id" "now", .land 0, .resume 0]) = some s
    ∧ s.aggregator = some 0 ∧ s.AggregatorFolds :=
  ⟨_, rfl, rfl, folds_of_guarded 0 [] undisturbed_first rfl⟩

theorem processed_of_feedAll {agg fed : MessageAggregator} {events : List Event}
    {deltas : List Delta} (h : agg.feedAll events = some (fed, deltas)) :
    fed.processed = agg.processed + events.length := by
  induction events generalizing agg deltas with
  | nil =>
    cases h
    rfl
  | cons event events ih =>
    rw [MessageAggregator.feedAll, Machine.run_cons] at h
    obtain ⟨p, hp, h⟩ := Option.bind_eq_some_iff.mp h
    obtain ⟨q, hq, h⟩ := Option.map_eq_some_iff.mp h
    cases h
    obtain ⟨r, -, hr⟩ := Option.map_eq_some_iff.mp hp
    have hone : p.1.processed = agg.processed + 1 := by
      rw [← hr]
    rw [ih hq, hone, List.length_cons, Nat.add_assoc, Nat.add_comm 1]

theorem length_of_aggregatorState {archiveOffset : ℕ} {fed events : List Event}
    {agg : MessageAggregator} (hfed : aggregatorState archiveOffset fed = some agg)
    (hevents : aggregatorState archiveOffset events = some agg) : fed.length = events.length := by
  obtain ⟨p, hp, rfl⟩ := Option.map_eq_some_iff.mp hfed
  obtain ⟨q, hq, heq⟩ := Option.map_eq_some_iff.mp hevents
  have hcount := @processed_of_feedAll _ _ _ q.2 hq
  rw [heq, processed_of_feedAll hp] at hcount
  exact Nat.add_left_cancel hcount

theorem not_aggregatorFolds {s : LiveChat} {agg : ℕ} (hagg : s.aggregator = some agg)
    (hfed : (s.aggs agg).fed = []) (hlanded : s.landed = []) (hparse : 0 < s.parse.length) :
    ¬s.AggregatorFolds := by
  intro h
  obtain ⟨-, persisted, hsplit, hstate⟩ := h agg hagg
  rw [hlanded, List.map_nil, List.append_nil] at hsplit
  have hempty : aggregatorState s.archiveOffset [] = some { idxOffset := s.archiveOffset } := rfl
  rw [hfed, ← hsplit] at hstate
  have hlength := length_of_aggregatorState hempty (hstate.symm.trans hempty)
  rw [← hlength] at hparse
  cases hparse

/-- **An event is skipped.** A call has its aggregator when everything is dropped;
the next call makes a new one before the first has written its line. -/
theorem event_skipped : ∃ s, system.run (start 0 []) (untilFetching 0 ++ [.drop]
      ++ untilFetching 1 ++ [.fetched 0 "id" "now", .land 0, .resume 0]) = some s
    ∧ s.keyErrors = [] ∧ s.landed = [] ∧ ¬s.AggregatorFolds := by
  have hrun : ∃ s, system.run (start 0 []) (untilFetching 0 ++ [.drop]
      ++ untilFetching 1 ++ [.fetched 0 "id" "now", .land 0, .resume 0]) = some s
      ∧ s.keyErrors = [] ∧ s.landed = [] ∧ s.aggregator = some 1 ∧ (s.aggs 1).fed = []
      ∧ s.parse.length = 1 := ⟨_, rfl, rfl, rfl, rfl, rfl, rfl⟩
  obtain ⟨s, hrun, hkeys, hlanded, hagg, hfed, hparse⟩ := hrun
  exact ⟨s, hrun, hkeys, hlanded,
    not_aggregatorFolds hagg hfed hlanded (by rw [hparse]; exact Nat.one_pos)⟩

end LiveChat
