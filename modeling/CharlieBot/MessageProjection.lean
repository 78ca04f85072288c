import CharlieBot.DraftStep
import Mathlib.Data.List.GetD

/-!
# The memoized message projection

Rendering a session's history from nothing costs the whole history, and a
session grows one event at a time. The projection therefore splits the raw
stream at its closed prefix: what lies before is folded once and for good,
the *region* behind it – whose order a completing run may still rewrite –
is folded again on every call, through a copy of the aggregator.

Nothing is lost by it. Folding is cut where no run is open
(`historyFold_append`), so a projection carries two facts: its aggregator
is the fold of the closed prefix (`Fed`), and what it presents is the view
of everything it was given (`Presents`). Both survive `advanced`, and with
them **every way of cutting a stream into batches ends in the same
projection** (`ofBatches_eq`).

The table of separators is final too. A separator is what the end of a
turn renders as, and no turn ends in the region, so a reader's page – it
starts behind a separator – lies in the part that is never folded again.
-/

open MessageEvents MessageAggregator

/-- The positions of the separators among messages. -/
def separatorPositions (msgs : List Dict) : List ℕ :=
  msgs.zipIdx.filterMap fun m => if isSeparator m.1 then some m.2 else none

/-- Folds events through an aggregator, the first of them attributed to
index `base`: the aggregator, the messages and the separators among
them. -/
def foldMessages (agg : MessageAggregator) (events : List Event) (base : ℕ) :
    Option (MessageAggregator × List Dict × List ℕ) :=
  (stableHistoryProjection events).bind fun projected =>
    (agg.feedIndexed (projected.map fun e => (base + e.1, e.2))).map fun r =>
      (r.1, committedMessages r.2, separatorPositions (committedMessages r.2))

/-- **A message projection.** -/
structure MessageProjection where
  /-- The index of the first event. -/
  offset : ℕ
  /-- The aggregator, fed with the closed prefix. -/
  agg : MessageAggregator
  /-- The messages of the closed prefix. -/
  committedFinal : List Dict
  /-- The separators among them. -/
  sepsFinal : List ℕ
  /-- The events behind the closed prefix. -/
  regionEvents : List Event
  /-- The index behind the last event. -/
  eventCount : ℕ
  /-- The committed messages of the view. -/
  committed : List Dict
  /-- The separators among them. -/
  separatorOrdinals : List ℕ
  pendingDraft : Option Dict
  /-- The committed messages, and the pending draft behind them. -/
  history : List Dict

namespace MessageProjection

/-- A projection that was given nothing. -/
def blank (offset : ℕ) : MessageProjection where
  offset := offset
  agg := { idxOffset := offset, emitStreamDeltas := false }
  committedFinal := []
  sepsFinal := []
  regionEvents := []
  eventCount := offset
  committed := []
  separatorOrdinals := []
  pendingDraft := none
  history := []

/-- Appends events to the region. -/
def offered (p : MessageProjection) (events : List Event) : MessageProjection :=
  { p with
    regionEvents := p.regionEvents ++ events
    eventCount := p.eventCount + events.length }

/-- Folds the closed prefix of the region for good. -/
def commitClosed (p : MessageProjection) : Option MessageProjection :=
  let closed := stableClosedPrefixLen p.regionEvents
  if closed = 0 then some p
  else
    let region := p.regionEvents.drop closed
    let fedBase := p.eventCount - region.length - closed - p.offset
    (foldMessages p.agg (p.regionEvents.take closed) fedBase).map fun r =>
      { p with
        agg := r.1
        regionEvents := region
        sepsFinal := p.sepsFinal ++ r.2.2.map (p.committedFinal.length + ·)
        committedFinal := p.committedFinal ++ r.2.1 }

/-- Folds the region through a copy of the aggregator and presents the
view. -/
def present (p : MessageProjection) : Option MessageProjection :=
  let regionBase := p.eventCount - p.regionEvents.length - p.offset
  (foldMessages p.agg p.regionEvents regionBase).map fun r =>
    let committed := p.committedFinal ++ r.2.1
    let pendingDraft := r.1.pendingDraftMessage
    { p with
      committed := committed
      separatorOrdinals :=
        p.sepsFinal ++ r.2.2.map (p.committedFinal.length + ·)
      pendingDraft := pendingDraft
      history := committed ++ pendingDraft.toList }

/-- Feeds events appended after the last ingest. -/
def ingest (p : MessageProjection) (events : List Event) :
    Option MessageProjection :=
  (p.offered events).commitClosed.bind present

def ofEvents (events : List Event) (eventIndexOffset : ℕ) :
    Option MessageProjection :=
  (blank eventIndexOffset).ingest events

/-- A copy of the projection, advanced by appended events. -/
def advanced (p : MessageProjection) (events : List Event) :
    Option MessageProjection := p.ingest events

/-- A projection of a first batch, advanced batch by batch. -/
def ofBatches (first : List Event) (batches : List (List Event))
    (eventIndexOffset : ℕ) : Option MessageProjection :=
  (ofEvents first eventIndexOffset).bind fun p => batches.foldlM advanced p

/-- `bisect.bisect_left` on a sorted list: how many entries lie below. -/
def bisectLeft (xs : List ℕ) (x : ℕ) : ℕ := (xs.takeWhile (· < x)).length

/-- The start of the turn an ordinal falls inside. -/
def snapToTurnStart (p : MessageProjection) (desired : ℕ) : ℕ :=
  match bisectLeft p.separatorOrdinals desired with
  | 0 => 0
  | i + 1 => p.separatorOrdinals.getD i 0 + 1

/-- The last turn-aligned page of at least `limit` messages: the page, its
first ordinal, and whether older messages exist. -/
def tail (p : MessageProjection) (limit : ℕ) : List Dict × ℕ × Bool :=
  let start := p.snapToTurnStart (p.committed.length - limit)
  (p.committed.drop start, start, decide (0 < start))

/-- The turn-aligned page of messages below ordinal `before`. -/
def sliceBefore (p : MessageProjection) (before limit : ℕ) :
    List Dict × ℕ × Bool :=
  let before := min before p.committed.length
  let start := p.snapToTurnStart (before - limit)
  ((p.committed.take before).drop start, start, decide (0 < start))

def lastTurnStart (p : MessageProjection) : ℕ :=
  p.snapToTurnStart p.committed.length

end MessageProjection

/-! ## The fold of a history is cut where no run is open -/

theorem separatorPositions_append (xs ys : List Dict) :
    separatorPositions (xs ++ ys)
      = separatorPositions xs ++ (separatorPositions ys).map (xs.length + ·) := by
  unfold separatorPositions
  rw [List.zipIdx_append, List.filterMap_append, Nat.zero_add,
    List.zipIdx_eq_map_add (i := xs.length), List.filterMap_map,
    List.map_filterMap]
  congr 2
  funext m
  show (if isSeparator m.1 then some (xs.length + m.2) else none)
    = (if isSeparator m.1 then some m.2 else none).map (xs.length + ·)
  split <;> rfl

theorem lt_of_mem_separatorPositions {msgs : List Dict} {i : ℕ}
    (h : i ∈ separatorPositions msgs) : i < msgs.length := by
  obtain ⟨m, hm, hi⟩ := List.mem_filterMap.mp h
  split at hi
  · cases hi
    exact (List.mem_zipIdx' hm).1
  · cases hi

theorem separatorPositions_eq_nil {msgs : List Dict}
    (h : ∀ m ∈ msgs, isSeparator m = false) : separatorPositions msgs = [] := by
  refine List.filterMap_eq_nil_iff.mpr (fun m hm => ?_)
  rw [h m.1 (List.fst_mem_of_mem_zipIdx hm)]
  rfl

/-- The fold of a whole history: the aggregator behind it and the messages
it commits. -/
def historyFold (events : List Event) (offset : ℕ) :
    Option (MessageAggregator × List Dict) :=
  (foldMessages { idxOffset := offset, emitStreamDeltas := false } events 0).map
    fun r => (r.1, r.2.1)

theorem eventsToView_eq (events : List Event) (offset : ℕ) :
    eventsToView events offset
      = (historyFold events offset).map fun r => (r.2, r.1.pendingDraftMessage) := by
  have hid : (fun e : ℕ × Event => (0 + e.1, e.2)) = id := by
    funext e
    rw [Nat.zero_add]
    rfl
  unfold historyFold foldMessages
  rw [hid]
  show (stableHistoryProjection events).bind _ = _
  cases stableHistoryProjection events with
  | none => rfl
  | some projected =>
    rw [Option.bind_some, Option.bind_some, List.map_id]
    show (feedIndexed _ projected).bind _ = _
    cases feedIndexed _ projected <;> rfl

/-- **The fold of a history is cut where no run is open**: the rest is
folded from the aggregator the first piece leaves. -/
theorem historyFold_append {P : List Event} (h : endsOpen P = false)
    (Q : List Event) (offset : ℕ) :
    historyFold (P ++ Q) offset = (historyFold P offset).bind fun r =>
      (foldMessages r.1 Q P.length).map fun s => (s.1, r.2 ++ s.2.1) := by
  have hshift : ∀ ys : List (ℕ × Event),
      (ys.map (shiftIdx P.length)).map (fun e => (0 + e.1, e.2))
        = ys.map fun e => (P.length + e.1, e.2) := by
    intro ys
    rw [List.map_map]
    refine List.map_congr_left (fun e _ => ?_)
    show (0 + (e.1 + P.length), e.2) = _
    rw [Nat.zero_add, Nat.add_comm]
  unfold historyFold foldMessages
  rw [stableHistoryProjection_append h]
  cases stableHistoryProjection P with
  | none => rfl
  | some xs =>
    cases hQ : stableHistoryProjection Q with
    | none =>
      simp only [Option.bind_some, Option.map_none, Option.bind_none]
      cases feedIndexed _ (xs.map fun e => (0 + e.1, e.2)) <;> rfl
    | some ys =>
      simp only [Option.bind_some, Option.map_some]
      unfold feedIndexed
      rw [List.map_append, hshift, Machine.run_append]
      cases indexedMachine.run _ (xs.map fun e => (0 + e.1, e.2)) with
      | none => rfl
      | some r =>
        simp only [Option.bind_some, Option.map_some]
        cases indexedMachine.run r.1 (ys.map fun e => (P.length + e.1, e.2)) with
        | none => rfl
        | some s => simp only [Option.map_some, committedMessages_append]

theorem mem_of_mem_projected {events : List Event} {projected : List (ℕ × Event)}
    (hnd : ∀ ev ∈ events, isMasterDone ev = false)
    (h : stableHistoryProjection events = some projected) {e : ℕ × Event}
    (he : e ∈ projected) : e.2 ∈ events := by
  rw [stableHistoryProjection_of_noDone hnd] at h
  cases h
  obtain ⟨x, hx, rfl⟩ := List.mem_map.mp he
  exact List.fst_mem_of_mem_zipIdx hx

/-- **Where no turn ends, nothing separates.** -/
theorem foldMessages_seps_eq_nil {agg : MessageAggregator} {events : List Event}
    {base : ℕ} {r : MessageAggregator × List Dict × List ℕ}
    (hnd : ∀ ev ∈ events, isMasterDone ev = false)
    (h : foldMessages agg events base = some r) : r.2.2 = [] := by
  obtain ⟨projected, hproj, h⟩ := Option.bind_eq_some_iff.mp h
  obtain ⟨⟨agg', ds⟩, hrun, rfl⟩ := Option.map_eq_some_iff.mp h
  have hmsgs := feedIndexed_draft agg (projected.map fun e => (base + e.1, e.2))
  rw [hrun] at hmsgs
  refine separatorPositions_eq_nil ?_
  refine Machine.run_forall (fun _ a _ _ ha hs => ?_) hmsgs.symm
  obtain ⟨b, hb, rfl⟩ := List.mem_map.mp ha
  obtain ⟨e, he, rfl⟩ := List.mem_map.mp hb
  obtain ⟨⟨d', ms, s⟩, hfeed, hs⟩ := Option.map_eq_some_iff.mp hs
  cases hs
  exact Draft.isSeparator_eq_false (hnd _ (mem_of_mem_projected hnd hproj he)) hfeed

namespace MessageProjection

/-! ## What a projection carries -/

/-- **The aggregator is the fold of the closed prefix.** -/
structure Fed (events : List Event) (p : MessageProjection) : Prop where
  /-- The events are a closed prefix, folded for good, and the region. -/
  exists_closed : ∃ P, events = P ++ p.regionEvents ∧ endsOpen P = false
    ∧ historyFold P p.offset = some (p.agg, p.committedFinal)
  sepsFinal_eq : p.sepsFinal = separatorPositions p.committedFinal
  eventCount_eq : p.eventCount = p.offset + events.length

theorem fed_blank (offset : ℕ) : Fed [] (blank offset) where
  exists_closed := ⟨[], rfl, rfl, rfl⟩
  sepsFinal_eq := rfl
  eventCount_eq := rfl

theorem Fed.offered {events : List Event} {p : MessageProjection}
    (h : Fed events p) (new : List Event) :
    Fed (events ++ new) (p.offered new) := by
  obtain ⟨P, hP, hopen, hfold⟩ := h.exists_closed
  refine ⟨⟨P, ?_, hopen, hfold⟩, h.sepsFinal_eq, ?_⟩
  · show events ++ new = P ++ (p.regionEvents ++ new)
    rw [hP, List.append_assoc]
  · show p.eventCount + new.length = p.offset + (events ++ new).length
    rw [h.eventCount_eq, List.length_append, Nat.add_assoc]

theorem Fed.base_eq {events P : List Event} {p : MessageProjection}
    (h : Fed events p) (hP : events = P ++ p.regionEvents) :
    p.eventCount - p.regionEvents.length - p.offset = P.length := by
  have hc := h.eventCount_eq
  rw [hP, List.length_append] at hc
  omega

/-- **Committing the closed prefix**: the projection still folds what it
was given, no turn ends in its region any more, and what was final stays.
It raises only where the view of the whole list does. -/
theorem Fed.commitClosed {events : List Event} {p : MessageProjection}
    (h : Fed events p) :
    (p.commitClosed = none → historyFold events p.offset = none) ∧
    ∀ p', p.commitClosed = some p' → Fed events p' ∧ p'.offset = p.offset
      ∧ p.committedFinal <+: p'.committedFinal
      ∧ ∀ ev ∈ p'.regionEvents, isMasterDone ev = false := by
  obtain ⟨P, hP, hopen, hfold⟩ := h.exists_closed
  have hdone : ∀ ev ∈ p.regionEvents.drop (stableClosedPrefixLen p.regionEvents),
      isMasterDone ev = false := fun ev => isMasterDone_of_mem_drop_closed
  have hle := stableClosedPrefixLen_le p.regionEvents
  have hclosed := endsOpen_take_closed p.regionEvents
  have hcount := h.eventCount_eq
  unfold MessageProjection.commitClosed
  generalize stableClosedPrefixLen p.regionEvents = closed at *
  by_cases hc : closed = 0
  · simp only [hc, if_true]
    refine ⟨fun hn => (by cases hn), fun p' hp' => ?_⟩
    cases hp'
    rw [hc, List.drop_zero] at hdone
    exact ⟨h, rfl, List.prefix_refl _, hdone⟩
  · simp only [hc, if_false]
    have hsplit : events = (P ++ p.regionEvents.take closed)
        ++ p.regionEvents.drop closed := by
      rw [List.append_assoc, List.take_append_drop, hP]
    have hopen' : endsOpen (P ++ p.regionEvents.take closed) = false := by
      rw [endsOpen_append hopen, hclosed]
    have hbase : p.eventCount - (p.regionEvents.drop closed).length - closed - p.offset
        = P.length := by
      rw [hP, List.length_append] at hcount
      rw [List.length_drop]
      omega
    have hfold' := historyFold_append hopen (p.regionEvents.take closed) p.offset
    rw [hfold, Option.bind_some] at hfold'
    rw [hbase]
    cases hf : foldMessages p.agg (p.regionEvents.take closed) P.length with
    | none =>
      rw [hf] at hfold'
      refine ⟨fun _ => ?_, fun p' hp' => by cases hp'⟩
      rw [hsplit, historyFold_append hopen', hfold']
      rfl
    | some r =>
      rw [hf] at hfold'
      refine ⟨fun hn => (by cases hn), fun p' hp' => ?_⟩
      cases hp'
      refine ⟨⟨⟨P ++ p.regionEvents.take closed, hsplit, hopen', hfold'⟩, ?_, hcount⟩,
        rfl, List.prefix_append _ _, hdone⟩
      obtain ⟨projected, -, hr⟩ := Option.bind_eq_some_iff.mp hf
      obtain ⟨s, -, rfl⟩ := Option.map_eq_some_iff.mp hr
      show p.sepsFinal ++ _ = separatorPositions (p.committedFinal ++ _)
      rw [separatorPositions_append, h.sepsFinal_eq]

/-- **The projection presents the view of everything it was given.** -/
structure Presents (events : List Event) (p : MessageProjection) : Prop
    extends Fed events p where
  /-- The view is the view of the whole list. -/
  view_eq : eventsToView events p.offset = some (p.committed, p.pendingDraft)
  /-- The table of separators is the one of the committed messages. -/
  separatorOrdinals_eq : p.separatorOrdinals = separatorPositions p.committed
  /-- The history is the view, the draft behind the messages. -/
  history_eq : p.history = p.committed ++ p.pendingDraft.toList
  /-- The final messages lead the committed ones. -/
  final_prefix : p.committedFinal <+: p.committed
  separator_lt : ∀ i ∈ p.separatorOrdinals, i < p.committedFinal.length

/-- **Presenting** gives the view, and raises exactly where it does. -/
theorem Fed.present {events : List Event} {p : MessageProjection}
    (h : Fed events p) (hdone : ∀ ev ∈ p.regionEvents, isMasterDone ev = false) :
    (p.present = none → historyFold events p.offset = none) ∧
    ∀ p', p.present = some p' → Presents events p' ∧ p'.offset = p.offset
      ∧ p'.committedFinal = p.committedFinal := by
  obtain ⟨P, hP, hopen, hfold⟩ := h.exists_closed
  have hview := historyFold_append hopen p.regionEvents p.offset
  rw [hfold, Option.bind_some, ← hP] at hview
  unfold MessageProjection.present
  simp only [h.base_eq hP]
  cases hf : foldMessages p.agg p.regionEvents P.length with
  | none =>
    rw [hf] at hview
    exact ⟨fun _ => hview, fun p' hp' => by cases hp'⟩
  | some r =>
    rw [hf] at hview
    have hnil : r.2.2 = [] := foldMessages_seps_eq_nil hdone hf
    refine ⟨fun hn => (by cases hn), fun p' hp' => ?_⟩
    cases hp'
    refine ⟨⟨⟨⟨P, hP, hopen, hfold⟩, h.sepsFinal_eq, h.eventCount_eq⟩, ?_, ?_, rfl,
      List.prefix_append _ _, ?_⟩, rfl, rfl⟩
    · rw [eventsToView_eq]
      show (historyFold events p.offset).map _ = _
      rw [hview]
      rfl
    · obtain ⟨projected, -, hr⟩ := Option.bind_eq_some_iff.mp hf
      obtain ⟨s, -, rfl⟩ := Option.map_eq_some_iff.mp hr
      show p.sepsFinal ++ _ = separatorPositions (p.committedFinal ++ _)
      rw [separatorPositions_append, h.sepsFinal_eq]
    · intro i hi
      have hfinal : i ∈ p.sepsFinal := by
        simp only [hnil, List.map_nil, List.append_nil] at hi
        exact hi
      rw [h.sepsFinal_eq] at hfinal
      exact lt_of_mem_separatorPositions hfinal

/-! ## Ingesting -/

/-- **Ingesting events** keeps a projection fed and makes it present the
view of all of them; what was final stays. -/
theorem Fed.ingest {events new : List Event} {p p' : MessageProjection}
    (h : Fed events p) (hp : p.ingest new = some p') :
    Presents (events ++ new) p' ∧ p'.offset = p.offset
      ∧ p.committedFinal <+: p'.committedFinal := by
  obtain ⟨q, hq, hp⟩ := Option.bind_eq_some_iff.mp hp
  obtain ⟨hfed, hoff, hpre, hdone⟩ := (h.offered new).commitClosed.2 q hq
  obtain ⟨hpres, hoff', hfinal⟩ := (hfed.present hdone).2 p' hp
  refine ⟨hpres, hoff'.trans hoff, ?_⟩
  rw [hfinal]
  exact hpre

theorem Fed.ingest_isSome {events : List Event} {p : MessageProjection}
    (h : Fed events p) (new : List Event) :
    (p.ingest new).isSome = (eventsToView (events ++ new) p.offset).isSome := by
  cases hp : p.ingest new with
  | some p' =>
    obtain ⟨hpres, hoff, -⟩ := h.ingest hp
    rw [← hoff, hpres.view_eq]
    rfl
  | none =>
    have hnone : historyFold (events ++ new) p.offset = none := by
      cases hq : (p.offered new).commitClosed with
      | none => exact (h.offered new).commitClosed.1 hq
      | some q =>
        obtain ⟨hfed, hoff, -, hdone⟩ := (h.offered new).commitClosed.2 q hq
        have hpr : q.present = none := by
          rw [← hp]
          show _ = (p.offered new).commitClosed.bind MessageProjection.present
          rw [hq]
          rfl
        have hn := (hfed.present hdone).1 hpr
        rw [hoff] at hn
        exact hn
    rw [eventsToView_eq, hnone]
    rfl

/-! ## Batch by batch -/

theorem Presents.foldlM {events : List Event} {p p' : MessageProjection}
    (h : Presents events p) (batches : List (List Event))
    (hp : batches.foldlM advanced p = some p') :
    Presents (events ++ batches.flatten) p' ∧ p'.offset = p.offset
      ∧ p.committedFinal <+: p'.committedFinal := by
  induction batches generalizing events p with
  | nil =>
    cases hp
    rw [List.flatten_nil, List.append_nil]
    exact ⟨h, rfl, List.prefix_refl _⟩
  | cons batch batches ih =>
    rw [List.foldlM_cons] at hp
    obtain ⟨q, hq, hp⟩ := Option.bind_eq_some_iff.mp hp
    obtain ⟨hpres, hoff, hpre⟩ := h.toFed.ingest hq
    obtain ⟨hpres', hoff', hpre'⟩ := ih hpres hp
    rw [List.flatten_cons, ← List.append_assoc]
    exact ⟨hpres', hoff'.trans hoff, hpre.trans hpre'⟩

/-- Advancing batch by batch raises exactly where the view of one of the
lists on the way does. -/
theorem Presents.foldlM_isSome {events : List Event} {p : MessageProjection}
    (h : Presents events p) (batches : List (List Event)) :
    (batches.foldlM advanced p).isSome = true ↔ ∀ k ≤ batches.length,
      (eventsToView (events ++ (batches.take k).flatten) p.offset).isSome = true := by
  induction batches generalizing events p with
  | nil =>
    refine ⟨fun _ k _ => ?_, fun _ => rfl⟩
    rw [List.take_nil, List.flatten_nil, List.append_nil, h.view_eq]
    rfl
  | cons batch batches ih =>
    have hsome := h.toFed.ingest_isSome batch
    rw [List.foldlM_cons]
    constructor
    · intro hrun k hk
      cases hq : p.advanced batch with
      | none =>
        rw [hq] at hrun
        cases hrun
      | some q =>
        rw [hq] at hrun
        obtain ⟨hpres, hoff, -⟩ := h.toFed.ingest hq
        cases k with
        | zero =>
          rw [List.take_zero, List.flatten_nil, List.append_nil, h.view_eq]
          rfl
        | succ k =>
          have := (ih hpres).mp hrun k (Nat.le_of_succ_le_succ hk)
          rw [hoff] at this
          rw [List.take_succ_cons, List.flatten_cons, ← List.append_assoc]
          exact this
    · intro hall
      have h₁ := hall 1 (Nat.succ_le_succ (Nat.zero_le _))
      rw [List.take_succ_cons, List.take_zero, List.flatten_cons, List.flatten_nil,
        List.append_nil, ← hsome] at h₁
      obtain ⟨q, hq⟩ := Option.isSome_iff_exists.mp h₁
      obtain ⟨hpres, hoff, -⟩ := h.toFed.ingest hq
      show ((p.ingest batch).bind _).isSome = true
      rw [hq]
      refine (ih hpres).mpr (fun k hk => ?_)
      have := hall (k + 1) (Nat.succ_le_succ hk)
      rw [List.take_succ_cons, List.flatten_cons, ← List.append_assoc] at this
      rw [hoff]
      exact this

theorem snapToTurnStart_le {p : MessageProjection} {n : ℕ}
    (h : ∀ i ∈ p.separatorOrdinals, i < n) (desired : ℕ) :
    p.snapToTurnStart desired ≤ n := by
  unfold snapToTurnStart
  split
  · exact Nat.zero_le n
  · next i hi =>
    have hlt : i < p.separatorOrdinals.length := by
      have := (List.takeWhile_prefix (l := p.separatorOrdinals) (· < desired)).length_le
      unfold bisectLeft at hi
      omega
    rw [List.getD_eq_getElem _ _ hlt]
    exact h _ (List.getElem_mem hlt)

/-- **What a reader was given stays.** The messages before the last turn
start are final, so advancing the projection does not change them. -/
theorem Presents.take_lastTurnStart {events events' : List Event}
    {p p' : MessageProjection} (h : Presents events p) (h' : Presents events' p')
    (hpre : p.committedFinal <+: p'.committedFinal) :
    p'.committed.take p.lastTurnStart = p.committed.take p.lastTurnStart := by
  have hle : p.lastTurnStart ≤ p.committedFinal.length :=
    snapToTurnStart_le h.separator_lt _
  have htake : ∀ xs : List Dict, p.committedFinal <+: xs →
      xs.take p.lastTurnStart = p.committedFinal.take p.lastTurnStart := by
    rintro _ ⟨ys, rfl⟩
    exact List.take_append_of_le_length hle
  rw [htake _ h.final_prefix, htake _ (hpre.trans h'.final_prefix)]

/-- **Every way of cutting a stream into batches ends in the same
projection.** A projection of a first batch, advanced batch by batch,
raises only where the view of one of the lists on the way raises. Where it
does not, it commits the same messages, holds the same draft, separators
and count as the projection of the whole list at once; both are the view
of the whole list; and what it committed before its last turn start stays
what it is however it is advanced. -/
theorem ofBatches_eq (first : List Event) (batches : List (List Event))
    (offset : ℕ) :
    ((ofBatches first batches offset).isSome = true ↔ ∀ k ≤ batches.length,
      (eventsToView (first ++ (batches.take k).flatten) offset).isSome = true) ∧
    ∀ p, ofBatches first batches offset = some p →
      (∃ q, ofEvents (first ++ batches.flatten) offset = some q
        ∧ p.committed = q.committed ∧ p.pendingDraft = q.pendingDraft
        ∧ p.separatorOrdinals = q.separatorOrdinals
        ∧ p.eventCount = q.eventCount) ∧
      eventsToView (first ++ batches.flatten) offset
        = some (p.committed, p.pendingDraft) ∧
      ∀ (more : List (List Event)) (p' : MessageProjection),
        more.foldlM advanced p = some p' →
        p'.committed.take p.lastTurnStart = p.committed.take p.lastTurnStart := by
  have hblank := fed_blank offset
  constructor
  · have hsome := hblank.ingest_isSome first
    unfold ofBatches ofEvents
    cases hp : (blank offset).ingest first with
    | none =>
      rw [hp] at hsome
      refine ⟨fun h => (by cases h), fun hall => ?_⟩
      have h₀ := hall 0 (Nat.zero_le _)
      rw [List.take_zero, List.flatten_nil, List.append_nil] at h₀
      exact absurd (hsome.trans h₀) (by decide)
    | some p =>
      obtain ⟨hpres, hoff, -⟩ := hblank.ingest hp
      have := hpres.foldlM_isSome batches
      rw [hoff] at this
      exact this
  · intro p hp
    obtain ⟨p₀, hp₀, hp⟩ := Option.bind_eq_some_iff.mp hp
    obtain ⟨hpres₀, hoff₀, -⟩ := hblank.ingest hp₀
    obtain ⟨hpres, hoff, -⟩ := hpres₀.foldlM batches hp
    have hview := hpres.view_eq
    rw [List.nil_append, hoff, hoff₀] at hview
    refine ⟨?_, hview, fun more p' hp' => ?_⟩
    · have hq := hblank.ingest_isSome (first ++ batches.flatten)
      rw [List.nil_append, show (blank offset).offset = offset from rfl] at hq
      change eventsToView _ offset = _ at hview
      rw [hview] at hq
      obtain ⟨q, hq⟩ := Option.isSome_iff_exists.mp hq
      obtain ⟨hpresq, hoffq, -⟩ := hblank.ingest hq
      have hviewq := hpresq.view_eq
      rw [List.nil_append, hoffq] at hviewq
      change eventsToView _ offset = _ at hviewq
      rw [hview] at hviewq
      obtain ⟨hc, hd⟩ := Prod.mk.inj (Option.some.inj hviewq)
      refine ⟨q, hq, hc, hd, ?_, ?_⟩
      · rw [hpres.separatorOrdinals_eq, hpresq.separatorOrdinals_eq, hc]
      · rw [hpres.eventCount_eq, hpresq.eventCount_eq, hoff, hoff₀, hoffq]
        simp only [List.nil_append]
    · obtain ⟨hpres', -, hpre⟩ := hpres.foldlM more hp'
      exact hpres.take_lastTurnStart hpres' hpre

/-- A run that opens in the first batch, queues a user in the second, and
ends in the third. -/
def queuedUserBatches : List Event × List (List Event) :=
  let assistant (text : String) : Event := [("type", .str ET.assistant), ("message",
    .obj [("content", .arr [.obj [("type", .str "text"), ("text", .str text)]])])]
  ([[("session_id", .str "run")], assistant "one"],
    [[[("type", .str ET.user), ("content", .str "queued")]], [],
      [assistant "two", [("type", .str ET.masterDone)]]])

/-- The run with a queued user: the user moves behind the end of the run,
and what stands before the separator stays. -/
theorem ofBatches_eq_queuedUser : ∃ p p',
    ofBatches queuedUserBatches.1 queuedUserBatches.2 0 = some p
      ∧ p.advanced [[("type", .str ET.masterDone)]] = some p'
      ∧ p.lastTurnStart = 3
      ∧ p.committed.map (fun m => (m.get "role").toText)
        = ["assistant", "assistant", "separator", "user"]
      ∧ p'.committed.take 3 = p.committed.take 3 := by
  refine ⟨_, _, rfl, rfl, rfl, rfl, ?_⟩
  exact ((ofBatches_eq queuedUserBatches.1 queuedUserBatches.2 0).2 _ rfl).2.2
    [[[("type", .str ET.masterDone)]]] _ rfl

end MessageProjection
