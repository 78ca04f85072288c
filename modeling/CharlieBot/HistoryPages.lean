import CharlieBot.MessageProjection
import Mathlib.Data.List.TakeWhile

/-!
# Paging through a history

A reader of a long chat is given its last page first, and asks for what
lies before with the ordinal the page began at. A page begins where a turn
does: the start it is due at is moved back to the message behind the last
separator below, so that pages differ in length and a page may hold more
than was asked for.

Moving back is all the snap does (`snapToTurnStart_le_desired`), and a page
due one message or more before the cursor therefore begins before it. So
the cursor falls with every page, the reader is done after finitely many,
and **what it was given is the history** (`readHistory_tiles`): the pages,
oldest first, are the committed messages, each once and in order.
-/

open MessageEvents MessageAggregator

/-- **One page of a history.** -/
structure HistoryPage where
  messages : List Dict
  /-- The ordinal of the first one, the cursor of the next request. -/
  start : ℕ

namespace HistoryPage

/-- The messages of pages that were read newest first. -/
def history (pages : List HistoryPage) : List Dict :=
  (pages.reverse.map messages).flatten

end HistoryPage

namespace MessageProjection

/-- The pages before a cursor, newest first, while there are more; `none`
where `fuel` requests are not enough. -/
def olderPages (p : MessageProjection) (limit : ℕ) :
    ℕ → ℕ → Bool → Option (List HistoryPage)
  | _, _, false => some []
  | 0, _, true => none
  | fuel + 1, before, true =>
    let (page, start, hasMore) := p.sliceBefore before limit
    (p.olderPages limit fuel start hasMore).map (⟨page, start⟩ :: ·)

/-- **All pages of a history, newest first**: the tail page, then the pages
before it. -/
def readHistory (p : MessageProjection) (limit fuel : ℕ) : Option (List HistoryPage) :=
  let (page, start, hasMore) := p.tail limit
  (p.olderPages limit fuel start hasMore).map (⟨page, start⟩ :: ·)

/-! ## The start of a turn -/

/-- **A turn start stands nowhere behind what it was asked for.** -/
theorem snapToTurnStart_le_desired (p : MessageProjection) (desired : ℕ) :
    p.snapToTurnStart desired ≤ desired := by
  unfold snapToTurnStart
  split
  · exact Nat.zero_le _
  · next i hi =>
    unfold bisectLeft at hi
    -- the entry asked for is the last one below
    have hpre := List.takeWhile_prefix (l := p.separatorOrdinals) (· < desired)
    have hlt : i < (p.separatorOrdinals.takeWhile (· < desired)).length := by omega
    have hlen := hpre.length_le
    rw [List.getD_eq_getElem _ _ (by omega), ← hpre.getElem hlt]
    have hmem := List.mem_takeWhile_imp (List.getElem_mem hlt)
    exact of_decide_eq_true hmem

/-- Where a turn may start: at the top, or behind a separator. -/
def IsTurnStart (msgs : List Dict) (i : ℕ) : Prop :=
  i = 0 ∨ ∃ m, msgs[i - 1]? = some m ∧ isSeparator m = true

theorem isSeparator_of_mem_separatorPositions {msgs : List Dict} {i : ℕ}
    (h : i ∈ separatorPositions msgs) : ∃ m, msgs[i]? = some m ∧ isSeparator m = true := by
  obtain ⟨⟨m, j⟩, hm, hi⟩ := List.mem_filterMap.mp h
  dsimp only at hi
  split at hi
  · next hsep =>
    cases hi
    exact ⟨m, List.mk_mem_zipIdx_iff_getElem?.mp hm, hsep⟩
  · cases hi

/-- **The snap ends at the start of a turn.** -/
theorem Presents.isTurnStart_snap {events : List Event} {p : MessageProjection}
    (h : Presents events p) (desired : ℕ) :
    IsTurnStart p.committed (p.snapToTurnStart desired) := by
  unfold snapToTurnStart
  split
  · exact Or.inl rfl
  · next i hi =>
    have hlt : i < p.separatorOrdinals.length := by
      have := (List.takeWhile_prefix (l := p.separatorOrdinals) (· < desired)).length_le
      unfold bisectLeft at hi
      omega
    refine Or.inr (isSeparator_of_mem_separatorPositions ?_)
    rw [Nat.add_sub_cancel, ← h.separatorOrdinals_eq, List.getD_eq_getElem _ _ hlt]
    exact List.getElem_mem hlt

/-! ## Page by page -/

/-- **What the pages before a cursor are**: they hold what lies before it,
each begins at the start of a turn, none is empty, and their cursors
fall. -/
structure Tiles (p : MessageProjection) (before : ℕ) (pages : List HistoryPage) : Prop where
  /-- Together they are what lies before the cursor. -/
  history_eq : HistoryPage.history pages = p.committed.take before
  turnStart : ∀ page ∈ pages, IsTurnStart p.committed page.start
  /-- None is empty. -/
  ne_nil : ∀ page ∈ pages, page.messages ≠ []
  /-- Each begins before the cursor. -/
  lt_before : ∀ page ∈ pages, page.start < before
  falling : (pages.map HistoryPage.start).Pairwise (· > ·)

theorem history_cons (page : HistoryPage) (pages : List HistoryPage) :
    HistoryPage.history (page :: pages) = HistoryPage.history pages ++ page.messages := by
  unfold HistoryPage.history
  rw [List.reverse_cons, List.map_append, List.flatten_append]
  show _ ++ (page.messages ++ []) = _
  rw [List.append_nil]

/-- **One more page**: the page that ends at the cursor, before the pages
that lie before it. -/
theorem Tiles.cons {p : MessageProjection} {start before : ℕ} {pages : List HistoryPage}
    (h : p.Tiles start pages) (hlt : start < before) (hle : before ≤ p.committed.length)
    (hturn : IsTurnStart p.committed start) :
    p.Tiles before (⟨(p.committed.take before).drop start, start⟩ :: pages) where
  history_eq := by
    rw [history_cons, h.history_eq]
    show p.committed.take start ++ (p.committed.take before).drop start = _
    rw [← List.take_append_drop start (p.committed.take before), List.take_take,
      Nat.min_eq_left (Nat.le_of_lt hlt), List.drop_left']
    rw [List.length_take]
    omega
  turnStart := List.forall_mem_cons.mpr ⟨hturn, h.turnStart⟩
  ne_nil := by
    refine List.forall_mem_cons.mpr ⟨fun hnil => ?_, h.ne_nil⟩
    have hlen := congrArg List.length hnil
    rw [List.length_drop, List.length_take, List.length_nil] at hlen
    omega
  lt_before := List.forall_mem_cons.mpr
    ⟨hlt, fun page hpage => (h.lt_before page hpage).trans hlt⟩
  falling := by
    rw [List.map_cons, List.pairwise_cons]
    refine ⟨fun start' hstart' => ?_, h.falling⟩
    obtain ⟨page, hpage, rfl⟩ := List.mem_map.mp hstart'
    exact h.lt_before page hpage

/-- **The pages before a cursor are read in finitely many requests**, one
for each message at most. -/
theorem Presents.exists_olderPages {events : List Event} {p : MessageProjection}
    (h : Presents events p) {limit : ℕ} (hlimit : 1 ≤ limit) (before : ℕ)
    (hle : before ≤ p.committed.length) :
    ∃ pages, p.Tiles before pages ∧
      ∀ fuel, before ≤ fuel →
        p.olderPages limit fuel before (decide (0 < before)) = some pages := by
  induction before using Nat.strong_induction_on with
  | _ before ih =>
  by_cases hzero : before = 0
  · subst hzero
    refine ⟨[], ⟨rfl, ?_, ?_, ?_, List.Pairwise.nil⟩, fun fuel _ => ?_⟩
    · exact fun _ hpage => absurd hpage List.not_mem_nil
    · exact fun _ hpage => absurd hpage List.not_mem_nil
    · exact fun _ hpage => absurd hpage List.not_mem_nil
    · cases fuel <;> rfl
  · have hsnap := p.snapToTurnStart_le_desired (before - limit)
    have hlt : p.snapToTurnStart (before - limit) < before := by omega
    obtain ⟨pages, htiles, hread⟩ := ih _ hlt (by omega)
    refine ⟨_, htiles.cons hlt hle (h.isTurnStart_snap _), fun fuel hfuel => ?_⟩
    obtain ⟨fuel, rfl⟩ : ∃ k, fuel = k + 1 := ⟨fuel - 1, by omega⟩
    rw [decide_eq_true (Nat.pos_of_ne_zero hzero)]
    unfold olderPages sliceBefore
    dsimp only
    rw [Nat.min_eq_left hle, hread fuel (by omega)]
    rfl

/-- **Paging reads the history.** Of any projection – a first batch of
events, advanced batch by batch – the tail page and the pages asked for
with the cursor each page returns are read in finitely many requests, one
for each committed message at most. Oldest first they are the committed
messages, each once and in order; every page begins at the top or directly
behind a separator; the cursor falls from page to page; and no page but
the first can be empty. -/
theorem readHistory_tiles (first : List Event) (batches : List (List Event)) (offset : ℕ)
    (p : MessageProjection) (hp : ofBatches first batches offset = some p)
    (limit : ℕ) (hlimit : 1 ≤ limit) :
    ∃ pages, (∀ fuel, p.committed.length ≤ fuel → p.readHistory limit fuel = some pages)
      ∧ HistoryPage.history pages = p.committed
      ∧ (∀ page ∈ pages, IsTurnStart p.committed page.start)
      ∧ (pages.map HistoryPage.start).Pairwise (· > ·)
      ∧ ∀ page ∈ pages.tail, page.messages ≠ [] := by
  obtain ⟨p₀, hp₀, hp⟩ := Option.bind_eq_some_iff.mp hp
  obtain ⟨hpres₀, -, -⟩ := (fed_blank offset).ingest hp₀
  obtain ⟨hpres, -, -⟩ := hpres₀.foldlM batches hp
  have hsnap := p.snapToTurnStart_le_desired (p.committed.length - limit)
  obtain ⟨pages, htiles, hread⟩ :=
    hpres.exists_olderPages hlimit (p.snapToTurnStart (p.committed.length - limit)) (by omega)
  refine ⟨⟨p.committed.drop (p.snapToTurnStart (p.committed.length - limit)),
      p.snapToTurnStart (p.committed.length - limit)⟩ :: pages,
    fun fuel hfuel => ?_, ?_, ?_, ?_, htiles.ne_nil⟩
  · unfold readHistory tail
    dsimp only
    rw [hread fuel (by omega)]
    rfl
  · rw [history_cons, htiles.history_eq]
    exact List.take_append_drop _ _
  · exact List.forall_mem_cons.mpr ⟨hpres.isTurnStart_snap _, htiles.turnStart⟩
  · rw [List.map_cons, List.pairwise_cons]
    refine ⟨fun start' hstart' => ?_, htiles.falling⟩
    obtain ⟨page, hpage, rfl⟩ := List.mem_map.mp hstart'
    exact htiles.lt_before page hpage

/-- The projection of the run with a queued user, one message at a time. -/
theorem readHistory_tiles_queuedUser : ∃ p,
    ofBatches queuedUserBatches.1 queuedUserBatches.2 0 = some p
      ∧ ∃ pages, p.readHistory 1 p.committed.length = some pages
        ∧ HistoryPage.history pages = p.committed := by
  have hsome : (ofBatches queuedUserBatches.1 queuedUserBatches.2 0).isSome = true := rfl
  obtain ⟨p, hp⟩ := Option.isSome_iff_exists.mp hsome
  obtain ⟨pages, hread, hhistory, -⟩ :=
    readHistory_tiles queuedUserBatches.1 queuedUserBatches.2 0 p hp 1 (Nat.le_refl 1)
  exact ⟨p, hp, pages, hread _ (Nat.le_refl _), hhistory⟩

end MessageProjection
