import CharlieBot.EventTypes
import CharlieBot.Lib.Transition
import Mathlib.Algebra.BigOperators.Group.List.Basic
import Mathlib.Algebra.Order.Field.Rat

/-!
# The usage of a session

The usage of a session is one fold over its events. The fold is kept with the
list it is of and the number of events it covers: a list that only grew is folded
on from there, and a list that was replaced is folded anew. A poll that finds few
new events folds them where it stands; any other one does so in a thread, beside
other polls, while the list goes on to grow or is replaced.

A fold that was stored is never fed again: what is fed is a copy. Along every run
the stored fold is **the fold of the first covered events of its list**, and every
answer is the fold of the first events of **a list that was the session's while
the answer was made** (`SessionUsage.served_of_run`), with every cost counted once
(`UsageFold.totalCost_fold`). When the list was replaced meanwhile, it is not of
the list that the session has now (`SessionUsage.served_replaced`).
-/

inductive ReadingKind where
  | empty
  | claude
  | snapshot
  | resolved
  deriving DecidableEq

/-- **The state of the fold.** -/
structure UsageFold where
  chosenPromptTokens : ℚ := 0
  chosenModel : Json := .str ""
  postCompactTokens : Option ℤ := none
  modelWindows : List (String × ℤ) := []
  snapshot : Option Dict := none
  readingKind : ReadingKind := .empty
  reading : Option Dict := none
  totalCost : ℚ := 0
  unknownCost : Bool := false

/-- **What is served** of a fold; the cost is in ten-thousandths. -/
structure UsageFacts where
  chosenPromptTokens : ℚ
  chosenModel : Json
  postCompactTokens : Option ℤ
  modelWindows : List (String × ℤ)
  snapshot : Option Dict
  readingKind : ReadingKind
  reading : Option Dict
  cost : Option ℤ

def promptTokenSum (usage : Dict) : Option ℚ := do
  let input ← (usage.getD ET.usageInputTokens (.int 0)).asNumber
  let creation ← (usage.getD ET.usageCacheCreationInputTokens (.int 0)).asNumber
  let read ← (usage.getD ET.usageCacheReadInputTokens (.int 0)).asNumber
  some (input + creation + read)

/-- A window of a model is set: it replaces the one there was. -/
def setWindow (windows : List (String × ℤ)) (model : String) (window : ℤ) : List (String × ℤ) :=
  if windows.any fun w => w.1 = model then
    windows.map fun w => if w.1 = model then (model, window) else w
  else windows ++ [(model, window)]

namespace UsageFold

/-- An `assistant` event. -/
def feedAssistant (fold : UsageFold) (ev : Event) : Option UsageFold :=
  if (ev.get "parent_tool_use_id").truthy then some fold
  else do
    let message ← ((ev.get "message").or (.obj [])).asDict
    let usage ← ((message.get "usage").or (.obj [])).asDict
    let promptTokens ← promptTokenSum usage
    if 0 < promptTokens then
      some { fold with
        chosenPromptTokens := promptTokens
        chosenModel := (message.get "model").or (.str "")
        postCompactTokens := none
        readingKind := .claude }
    else some fold

/-- A `system` event. -/
def feedSystem (fold : UsageFold) (ev : Event) : Option UsageFold :=
  if (ev.get "subtype").isText ET.compactBoundary then
    if fold.readingKind = .claude then do
      let metadata ← ((ev.get ET.compactMetadata).or (.obj [])).asDict
      match (metadata.get "post_tokens").asInt with
      | some candidate => some { fold with postCompactTokens := some candidate }
      | none => some fold
    else some fold
  else if (ev.get "subtype").isText ET.contextReading then
    match (ev.get ET.contextReading).asDict with
    | some payload => some { fold with readingKind := .resolved, reading := some payload }
    | none => some fold
  else some fold

/-- The windows of a `modelUsage`. -/
def feedWindows (windows : List (String × ℤ)) : Dict → Option (List (String × ℤ))
  | [] => some windows
  | (model, info) :: rest => do
    let info ← info.asDict
    match (info.get "contextWindow").asInt with
    | some window => feedWindows (setWindow windows model window) rest
    | none => feedWindows windows rest

/-- The cost of an event: none, if it is not known. -/
def eventCost (ev : Event) : Option (Option ℚ) :=
  let cost := ev.getD ET.resultTotalCostUsd (.int 0)
  if cost.isNone then some none else cost.asNumber.map some

def feedSnapshot (fold : UsageFold) (ev : Event) : UsageFold :=
  match (ev.get "context_snapshot").asDict with
  | some candidate => { fold with snapshot := some candidate, readingKind := .snapshot }
  | none => fold

/-- A `result` event. -/
def feedResult (fold : UsageFold) (ev : Event) : Option UsageFold := do
  let modelUsage ← ((ev.get "modelUsage").or (.obj [])).asDict
  let modelWindows ← feedWindows fold.modelWindows modelUsage
  let fold := { fold with modelWindows }.feedSnapshot ev
  match ← eventCost ev with
  | none => some { fold with unknownCost := true }
  | some cost => some { fold with totalCost := fold.totalCost + cost }

/-- `feed`, for one event. -/
def feed (fold : UsageFold) (ev : Event) : Option UsageFold :=
  if ev.hasType ET.assistant then fold.feedAssistant ev
  else if ev.hasType ET.system then fold.feedSystem ev
  else if ev.hasType ET.result then fold.feedResult ev
  else some fold

def facts (fold : UsageFold) : UsageFacts where
  chosenPromptTokens := fold.chosenPromptTokens
  chosenModel := fold.chosenModel
  postCompactTokens := fold.postCompactTokens
  modelWindows := fold.modelWindows
  snapshot := fold.snapshot
  readingKind := fold.readingKind
  reading := fold.reading
  cost :=
    if fold.unknownCost || fold.totalCost ≤ 0 then none
    else some (Json.roundHalfEven (fold.totalCost.num * 10000) fold.totalCost.den)

/-- **The fold of some events**, if none of them raises. -/
def ofEvents (events : List Event) : Option UsageFold := events.foldlM feed {}

/-- What a result adds to the cost. -/
def costOf (ev : Event) : ℚ :=
  if ev.hasType ET.result then ((eventCost ev).bind id).getD 0 else 0

end UsageFold

namespace SessionUsage

/-- **Where a scan is.** A list is named by its object, and so is a fold. -/
inductive ScanPhase where
  | asked
  /-- The cache had no list: the file is read. -/
  | parsing
  | loaded (list : ℕ)
  /-- The memo was looked at: what it covers, and its fold, if it is of this list. -/
  | looked (list : ℕ) (cached : Option (ℕ × ℕ))
  /-- A fold of its own is fed with what is left of a slice. -/
  | feeding (list covered fold : ℕ) (suffix : List Event)
  | done (list fold : ℕ)

/-- **A scan.** -/
structure UsageScan where
  /-- How often the session's list had been replaced when it began. -/
  began : ℕ
  phase : ScanPhase := .asked

/-- **An answer**: the facts, and the list they are of. -/
structure UsageRow where
  list : ℕ
  facts : UsageFacts
  /-- How often the list had been replaced when the answer was asked for, and given. -/
  began : ℕ
  ended : ℕ

end SessionUsage

open SessionUsage in
/-- **The state.** -/
structure SessionUsage where
  lists : ℕ → Option (List Event) := fun _ => none
  current : Option ℕ := none
  folds : ℕ → Option UsageFold := fun _ => none
  /-- `_facts_memo`: the list, how many of its events are covered, and the fold. -/
  memo : Option (ℕ × ℕ × ℕ) := none
  scans : ℕ → Option UsageScan := fun _ => none
  served : List UsageRow := []
  /-- How often the list in the cache was replaced, and by what. -/
  epoch : ℕ := 0
  listAt : ℕ → Option ℕ := fun _ => none

namespace SessionUsage

/-- An action. New lists and folds are named by the run. -/
inductive UsageAction where
  /-- An event is saved: a list grows. -/
  | append (list : ℕ) (ev : Event)
  /-- Another list is put into the cache. -/
  | replace (list : ℕ) (events : List Event)
  /-- The list is dropped from the cache. -/
  | invalidate
  /-- The memo is dropped. -/
  | evict
  /-- A poll that answers where it stands. -/
  | hit (fold : ℕ)
  | begin (scan : ℕ)
  | checkCache (scan : ℕ)
  | publish (scan list : ℕ) (events : List Event)
  | look (scan : ℕ)
  | slice (scan fold : ℕ)
  | feed (scan : ℕ)
  | store (scan : ℕ)
  | serve (scan : ℕ)

def onLoopSuffixCap : ℕ := 512

/-- Another list is the session's. -/
def setCurrent (s : SessionUsage) (current : Option ℕ) : SessionUsage :=
  { s with
    current
    epoch := s.epoch + 1
    listAt := Function.update s.listAt (s.epoch + 1) current }

/-- A new list in the cache. -/
def publishList (s : SessionUsage) (list : ℕ) (events : List Event) : SessionUsage :=
  { s with lists := Function.update s.lists list (some events) }.setCurrent (some list)

def setScan (s : SessionUsage) (i : ℕ) (scan : Option UsageScan) : SessionUsage :=
  { s with scans := Function.update s.scans i scan }

/-- A fold is made, or fed. -/
def setFold (s : SessionUsage) (f : ℕ) (fold : UsageFold) : SessionUsage :=
  { s with folds := Function.update s.folds f (some fold) }

def serveFacts (s : SessionUsage) (list : ℕ) (fold : UsageFold) (began : ℕ) : SessionUsage :=
  { s with served := ⟨list, fold.facts, began, s.epoch⟩ :: s.served }

/-- `_facts_hit`: it answers, or leaves the poll to a scan. -/
def factsHit (s : SessionUsage) (newFold : ℕ) : Option SessionUsage := do
  let list ← s.current
  let events ← s.lists list
  let (cachedList, covered, f) ← s.memo
  let fold ← s.folds f
  if cachedList ≠ list ∨ events.length > covered + onLoopSuffixCap then none
  else if events.length > covered then do
    -- the copy is fed and stored before anything else happens
    let fed ← (events.drop covered).foldlM UsageFold.feed fold
    some (({ s with memo := some (list, events.length, newFold) }.setFold newFold fed).serveFacts
      list fed s.epoch)
  else some (s.serveFacts list fold s.epoch)

/-- `_load_and_scan`, behind the look at the memo: what is to be fed. -/
def sliceScan (s : SessionUsage) (i : ℕ) (scan : UsageScan) (list : ℕ) (events : List Event)
    (cached : Option (ℕ × ℕ)) (newFold : ℕ) : Option SessionUsage :=
  match cached with
  | some (covered, f) => do
    let fold ← s.folds f
    if covered < events.length then
      let suffix := events.drop covered
      some ((s.setFold newFold fold).setScan i (some
        { scan with phase := .feeding list (covered + suffix.length) newFold suffix }))
    else some (s.setScan i (some { scan with phase := .done list f }))
  | none =>
    some ((s.setFold newFold {}).setScan i (some
      { scan with phase := .feeding list events.length newFold events }))

def step (s : SessionUsage) : UsageAction → Option SessionUsage
  | .append list ev => do
    let events ← s.lists list
    some { s with lists := Function.update s.lists list (some (events ++ [ev])) }
  | .replace list events =>
    if s.lists list = none then some (s.publishList list events) else none
  | .invalidate => some (s.setCurrent none)
  | .evict => some { s with memo := none }
  | .hit newFold => if s.folds newFold = none then s.factsHit newFold else none
  | .begin i => if (s.scans i).isNone then some (s.setScan i (some { began := s.epoch })) else none
  | .checkCache i => do
    let scan ← s.scans i
    match scan.phase, s.current with
    | .asked, some list => some (s.setScan i (some { scan with phase := .loaded list }))
    | .asked, none => some (s.setScan i (some { scan with phase := .parsing }))
    | _, _ => none
  | .publish i list events => do
    let scan ← s.scans i
    match scan.phase, s.lists list with
    | .parsing, none =>
      some ((s.publishList list events).setScan i (some { scan with phase := .loaded list }))
    | _, _ => none
  | .look i => do
    let scan ← s.scans i
    match scan.phase with
    | .loaded list =>
      let cached := s.memo.bind fun m => if m.1 = list then some (m.2.1, m.2.2) else none
      some (s.setScan i (some { scan with phase := .looked list cached }))
    | _ => none
  | .slice i newFold => do
    let scan ← s.scans i
    match scan.phase, s.folds newFold with
    | .looked list cached, none => do
      let events ← s.lists list
      s.sliceScan i scan list events cached newFold
    | _, _ => none
  | .feed i => do
    let scan ← s.scans i
    match scan.phase with
    | .feeding list covered f (ev :: rest) => do
      let fold ← s.folds f
      match fold.feed ev with
      | some fed =>
        some ((s.setFold f fed).setScan i (some
          { scan with phase := .feeding list covered f rest }))
      -- the scan raises
      | none => some (s.setScan i none)
    | _ => none
  | .store i => do
    let scan ← s.scans i
    match scan.phase with
    | .feeding list covered f [] =>
      some ({ s with memo := some (list, covered, f) }.setScan i (some
        { scan with phase := .done list f }))
    | _ => none
  | .serve i => do
    let scan ← s.scans i
    match scan.phase with
    | .done list f => do
      let fold ← s.folds f
      some ((s.serveFacts list fold scan.began).setScan i none)
    | _ => none

def system : TransitionSystem SessionUsage UsageAction := ⟨step⟩

/-! ## What is folded -/

theorem ofEvents_append {before behind : List Event} {fold : UsageFold}
    (h : UsageFold.ofEvents before = some fold) :
    UsageFold.ofEvents (before ++ behind) = behind.foldlM UsageFold.feed fold := by
  unfold UsageFold.ofEvents at h ⊢
  rw [List.foldlM_append, h]
  rfl

/-- **A fold is of the first events of a list.** -/
def FoldsFirst (s : SessionUsage) (list covered f : ℕ) : Prop :=
  ∃ events fold, s.lists list = some events ∧ covered ≤ events.length ∧ s.folds f = some fold
    ∧ UsageFold.ofEvents (events.take covered) = some fold

/-- A list was the session's since a scan began. -/
def WasCurrent (s : SessionUsage) (began list : ℕ) : Prop :=
  ∃ e, began ≤ e ∧ e ≤ s.epoch ∧ s.listAt e = some list

/-- The fold a scan has looked up, or is done with. -/
def ScanPhase.known : ScanPhase → Option ℕ
  | .looked _ (some (_, f)) => some f
  | .done _ f => some f
  | _ => none

/-- The fold a scan feeds. -/
def ScanPhase.fed : ScanPhase → Option ℕ
  | .feeding _ _ f _ => some f
  | _ => none

/-- **What a scan has done so far.** -/
def PhaseInv (s : SessionUsage) (began : ℕ) : ScanPhase → Prop
  | .asked | .parsing => True
  | .loaded list => (∃ events, s.lists list = some events) ∧ s.WasCurrent began list
  | .looked list cached => (∃ events, s.lists list = some events) ∧ s.WasCurrent began list
    ∧ ∀ covered f, cached = some (covered, f) → s.FoldsFirst list covered f
  | .feeding list covered f suffix => s.WasCurrent began list ∧ ∃ events before fold,
    s.lists list = some events ∧ covered ≤ events.length ∧ events.take covered = before ++ suffix
      ∧ s.folds f = some fold ∧ UsageFold.ofEvents before = some fold
  | .done list f => s.WasCurrent began list ∧ ∃ covered, s.FoldsFirst list covered f

/-- **An answer is right**: it is of the first events of a list that was the session's while
it was made. -/
def RowRight (s : SessionUsage) (row : UsageRow) : Prop :=
  ∃ e events covered fold, row.began ≤ e ∧ e ≤ row.ended ∧ row.ended ≤ s.epoch
    ∧ s.listAt e = some row.list ∧ s.lists row.list = some events ∧ covered ≤ events.length
    ∧ UsageFold.ofEvents (events.take covered) = some fold ∧ row.facts = fold.facts

/-- **What holds of a state.** -/
structure Inv (s : SessionUsage) : Prop where
  current : s.listAt s.epoch = s.current
  there : ∀ list, s.current = some list → ∃ events, s.lists list = some events
  memo : ∀ list covered f, s.memo = some (list, covered, f) → s.FoldsFirst list covered f
  scan : ∀ i scan, s.scans i = some scan → scan.began ≤ s.epoch ∧ s.PhaseInv scan.began scan.phase
  /-- A fold that is fed is nobody else's. -/
  alone : ∀ i scan f, s.scans i = some scan → scan.phase.fed = some f →
    (∀ m, s.memo = some m → m.2.2 ≠ f) ∧ ∀ j other, s.scans j = some other →
      other.phase.known ≠ some f ∧ (other.phase.fed = some f → j = i)
  served : ∀ row ∈ s.served, s.RowRight row

/-- **What another state keeps**: the lists only grow, and the folds are as they were but for
one. -/
structure Keeps (s t : SessionUsage) (x : Option ℕ) : Prop where
  lists : ∀ list events, s.lists list = some events → ∃ more, t.lists list = some (events ++ more)
  folds : ∀ f fold, some f ≠ x → s.folds f = some fold → t.folds f = some fold
  epoch : s.epoch ≤ t.epoch
  listAt : ∀ e, e ≤ s.epoch → t.listAt e = s.listAt e

variable {s t : SessionUsage} {x : Option ℕ} {list covered f i began : ℕ} {scan : UsageScan}
  {phase : ScanPhase}

theorem FoldsFirst.keeps (h : s.FoldsFirst list covered f) (hk : Keeps s t x) (hf : some f ≠ x) :
    t.FoldsFirst list covered f := by
  obtain ⟨events, fold, hlist, hle, hfold, hof⟩ := h
  obtain ⟨more, hmore⟩ := hk.lists list events hlist
  refine ⟨events ++ more, fold, hmore, ?_, hk.folds f fold hf hfold, ?_⟩
  · rw [List.length_append]
    exact Nat.le_add_right_of_le hle
  · rw [List.take_append_of_le_length hle]
    exact hof

theorem WasCurrent.keeps (h : s.WasCurrent began list) (hk : Keeps s t x) :
    t.WasCurrent began list := by
  obtain ⟨e, hbegan, hle, hat⟩ := h
  exact ⟨e, hbegan, hle.trans hk.epoch, (hk.listAt e hle).trans hat⟩

theorem PhaseInv.keeps (h : s.PhaseInv began phase) (hk : Keeps s t x)
    (hknown : ∀ f, phase.known = some f → some f ≠ x) (hfed : ∀ f, phase.fed = some f → some f ≠ x) :
    t.PhaseInv began phase := by
  cases phase with
  | asked => trivial
  | parsing => trivial
  | loaded list =>
    obtain ⟨⟨events, hlist⟩, hwas⟩ := h
    obtain ⟨more, hmore⟩ := hk.lists list events hlist
    exact ⟨⟨_, hmore⟩, hwas.keeps hk⟩
  | looked list cached =>
    obtain ⟨⟨events, hlist⟩, hwas, hcached⟩ := h
    obtain ⟨more, hmore⟩ := hk.lists list events hlist
    refine ⟨⟨_, hmore⟩, hwas.keeps hk, fun covered f hc => ?_⟩
    refine (hcached covered f hc).keeps hk (hknown f ?_)
    rw [hc]
    rfl
  | feeding list covered f suffix =>
    obtain ⟨hwas, events, before, fold, hlist, hle, htake, hfold, hof⟩ := h
    obtain ⟨more, hmore⟩ := hk.lists list events hlist
    refine ⟨hwas.keeps hk, events ++ more, before, fold, hmore, ?_, ?_,
      hk.folds f fold (hfed f rfl) hfold, hof⟩
    · rw [List.length_append]
      exact Nat.le_add_right_of_le hle
    · rw [List.take_append_of_le_length hle]
      exact htake
  | done list f =>
    obtain ⟨hwas, covered, hfirst⟩ := h
    exact ⟨hwas.keeps hk, covered, hfirst.keeps hk (hknown f rfl)⟩

theorem RowRight.keeps {row : UsageRow} (h : s.RowRight row) (hk : Keeps s t x) : t.RowRight row := by
  obtain ⟨e, events, covered, fold, hbegan, hended, hle, hat, hlist, hcov, hof, hfacts⟩ := h
  obtain ⟨more, hmore⟩ := hk.lists row.list events hlist
  refine ⟨e, events ++ more, covered, fold, hbegan, hended, hle.trans hk.epoch,
    (hk.listAt e (hended.trans hle)).trans hat, hmore, ?_, ?_, hfacts⟩
  · rw [List.length_append]
    exact Nat.le_add_right_of_le hcov
  · rw [List.take_append_of_le_length hcov]
    exact hof

theorem folds_of_phase (h : s.PhaseInv began phase) (hf : phase.known = some f ∨ phase.fed = some f) :
    s.folds f ≠ none := by
  cases phase with
  | asked | parsing | loaded => cases hf with | inl hf => cases hf | inr hf => cases hf
  | looked list cached =>
    cases hf with
    | inl hf =>
      cases cached with
      | none => cases hf
      | some c =>
        obtain ⟨covered, g⟩ := c
        cases hf
        obtain ⟨-, fold, -, -, hfold, -⟩ := h.2.2 covered f rfl
        rw [hfold]
        exact nofun
    | inr hf => cases hf
  | feeding list covered g suffix =>
    cases hf with
    | inl hf => cases hf
    | inr hf =>
      cases hf
      obtain ⟨-, -, -, fold, -, -, -, hfold, -⟩ := h
      rw [hfold]
      exact nofun
  | done list g =>
    cases hf with
    | inl hf =>
      cases hf
      obtain ⟨-, -, -, fold, -, -, hfold, -⟩ := h
      rw [hfold]
      exact nofun
    | inr hf => cases hf

/-! ## What the steps keep -/

/-- Nobody refers to a fold. -/
structure Unused (s : SessionUsage) (x : Option ℕ) : Prop where
  memo : ∀ m, s.memo = some m → some m.2.2 ≠ x
  known : ∀ i scan f, s.scans i = some scan → scan.phase.known = some f → some f ≠ x
  fed : ∀ i scan f, s.scans i = some scan → scan.phase.fed = some f → some f ≠ x

theorem Unused.none (s : SessionUsage) : s.Unused none :=
  ⟨fun _ _ => nofun, fun _ _ _ _ _ => nofun, fun _ _ _ _ _ => nofun⟩

theorem Inv.unused (h : Inv s) (hf : s.folds f = none) : s.Unused (some f) := by
  refine ⟨fun m hm heq => ?_, fun i scan g hi hg heq => ?_, fun i scan g hi hg heq => ?_⟩
  · obtain ⟨-, fold, -, -, hfold, -⟩ := h.memo m.1 m.2.1 m.2.2 hm
    rw [Option.some.inj heq, hf] at hfold
    cases hfold
  · cases heq
    exact folds_of_phase (h.scan i scan hi).2 (.inl hg) hf
  · cases heq
    exact folds_of_phase (h.scan i scan hi).2 (.inr hg) hf

theorem Inv.keeps (h : Inv s) (hk : Keeps s t x) (hx : s.Unused x) (hscans : t.scans = s.scans)
    (hmemo : t.memo = s.memo) (hserved : t.served = s.served) (hcurrent : t.listAt t.epoch = t.current)
    (hthere : ∀ list, t.current = some list → ∃ events, t.lists list = some events) : Inv t := by
  refine ⟨hcurrent, hthere, fun list covered f hm => ?_, fun i scan hi => ?_, fun i scan f hi hf => ?_,
    fun row hrow => ?_⟩
  · rw [hmemo] at hm
    exact (h.memo list covered f hm).keeps hk (hx.memo _ hm)
  · rw [hscans] at hi
    obtain ⟨hbegan, hphase⟩ := h.scan i scan hi
    exact ⟨hbegan.trans hk.epoch, hphase.keeps hk (fun f => hx.known i scan f hi)
      fun f => hx.fed i scan f hi⟩
  · rw [hscans] at hi
    rw [hmemo, hscans]
    exact h.alone i scan f hi hf
  · rw [hserved] at hrow
    exact (h.served row hrow).keeps hk

theorem keeps_append {events : List Event} (hlist : s.lists list = some events) (ev : Event) :
    Keeps s { s with lists := Function.update s.lists list (some (events ++ [ev])) } none := by
  refine ⟨fun l es hl => ?_, fun f fold _ hf => hf, Nat.le_refl _, fun _ _ => rfl⟩
  by_cases hll : l = list
  · subst hll
    rw [hlist] at hl
    cases hl
    exact ⟨[ev], Function.update_self _ _ _⟩
  · exact ⟨[], by rw [List.append_nil, ← hl]; exact Function.update_of_ne hll _ _⟩

theorem keeps_setCurrent (s : SessionUsage) (current : Option ℕ) :
    Keeps s (s.setCurrent current) none := by
  refine ⟨fun l es hl => ⟨[], by rw [List.append_nil]; exact hl⟩, fun f fold _ hf => hf,
    Nat.le_succ _, fun e he => ?_⟩
  exact Function.update_of_ne (Nat.ne_of_lt (Nat.lt_succ_of_le he)) _ _

theorem keeps_publishList (hlist : s.lists list = none) (events : List Event) :
    Keeps s (s.publishList list events) none := by
  refine ⟨fun l es hl => ⟨[], ?_⟩, fun f fold _ hf => hf, Nat.le_succ _, fun e he => ?_⟩
  · have hll : l ≠ list := by
      rintro rfl
      rw [hlist] at hl
      cases hl
    rw [List.append_nil, ← hl]
    exact Function.update_of_ne hll _ _
  · exact Function.update_of_ne (Nat.ne_of_lt (Nat.lt_succ_of_le he)) _ _

theorem keeps_setFold (s : SessionUsage) (f : ℕ) (fold : UsageFold) :
    Keeps s (s.setFold f fold) (some f) := by
  refine ⟨fun l es hl => ⟨[], by rw [List.append_nil]; exact hl⟩, fun g other hg hother => ?_,
    Nat.le_refl _, fun _ _ => rfl⟩
  rw [← hother]
  exact Function.update_of_ne (fun heq => hg (congrArg some heq)) _ _

theorem Inv.append (h : Inv s) {events : List Event} (hlist : s.lists list = some events)
    (ev : Event) :
    Inv { s with lists := Function.update s.lists list (some (events ++ [ev])) } := by
  have hk := keeps_append hlist ev
  refine h.keeps hk (Unused.none s) rfl rfl rfl h.current fun l hl => ?_
  obtain ⟨es, hes⟩ := h.there l hl
  obtain ⟨more, hmore⟩ := hk.lists l es hes
  exact ⟨_, hmore⟩

theorem Inv.invalidate (h : Inv s) : Inv (s.setCurrent none) :=
  h.keeps (keeps_setCurrent s none) (Unused.none s) rfl rfl rfl (Function.update_self _ _ _) nofun

theorem Inv.publishList (h : Inv s) (hlist : s.lists list = none) (events : List Event) :
    Inv (s.publishList list events) := by
  refine h.keeps (keeps_publishList hlist events) (Unused.none s) rfl rfl rfl
    (Function.update_self _ _ _) fun l hl => ?_
  cases hl
  exact ⟨events, Function.update_self _ _ _⟩

theorem Inv.setFold (h : Inv s) (hf : s.folds f = none) (fold : UsageFold) :
    Inv (s.setFold f fold) :=
  h.keeps (keeps_setFold s f fold) (h.unused hf) rfl rfl rfl h.current h.there

theorem Inv.setScan (h : Inv s) (i : ℕ) (next : Option UsageScan)
    (hnext : ∀ scan, next = some scan → scan.began ≤ s.epoch ∧ s.PhaseInv scan.began scan.phase
      ∧ (∀ f, scan.phase.known = some f → ∀ j other, j ≠ i → s.scans j = some other →
        other.phase.fed ≠ some f)
      ∧ ∀ f, scan.phase.fed = some f → (∀ m, s.memo = some m → m.2.2 ≠ f)
        ∧ scan.phase.known ≠ some f
        ∧ ∀ j other, j ≠ i → s.scans j = some other →
          other.phase.known ≠ some f ∧ other.phase.fed ≠ some f) :
    Inv (s.setScan i next) := by
  have hself : (s.setScan i next).scans i = next := Function.update_self _ _ _
  have hother : ∀ {j}, j ≠ i → (s.setScan i next).scans j = s.scans j := fun hj =>
    Function.update_of_ne hj _ _
  refine ⟨h.current, h.there, h.memo, fun j scan hj => ?_, fun j scan f hj hf => ?_, h.served⟩
  · by_cases hji : j = i
    · subst hji
      rw [hself] at hj
      obtain ⟨hbegan, hphase, -⟩ := hnext scan hj
      exact ⟨hbegan, hphase⟩
    · rw [hother hji] at hj
      exact h.scan j scan hj
  · by_cases hji : j = i
    · subst hji
      rw [hself] at hj
      obtain ⟨-, -, -, hfed⟩ := hnext scan hj
      obtain ⟨hmemo, hknown, hothers⟩ := hfed f hf
      refine ⟨hmemo, fun k other hk => ?_⟩
      by_cases hkj : k = j
      · subst hkj
        rw [hself, hj] at hk
        cases hk
        exact ⟨hknown, fun _ => rfl⟩
      · rw [hother hkj] at hk
        obtain ⟨hn, hf'⟩ := hothers k other hkj hk
        exact ⟨hn, fun heq => absurd heq hf'⟩
    · rw [hother hji] at hj
      obtain ⟨hmemo, hothers⟩ := h.alone j scan f hj hf
      refine ⟨hmemo, fun k other hk => ?_⟩
      by_cases hki : k = i
      · subst hki
        rw [hself] at hk
        obtain ⟨-, -, hknown, hfed⟩ := hnext other hk
        refine ⟨fun heq => hknown f heq j scan hji hj hf, fun heq => ?_⟩
        exact absurd hf ((hfed f heq).2.2 j scan hji hj).2
      · rw [hother hki] at hk
        exact hothers k other hk

theorem Inv.serveFacts (h : Inv s) {fold : UsageFold} (hbegan : s.WasCurrent began list)
    {events : List Event} (hlist : s.lists list = some events) (hle : covered ≤ events.length)
    (hof : UsageFold.ofEvents (events.take covered) = some fold) :
    Inv (s.serveFacts list fold began) := by
  refine ⟨h.current, h.there, h.memo, h.scan, h.alone, fun row hrow => ?_⟩
  cases List.mem_cons.mp hrow with
  | inl heq =>
    subst heq
    obtain ⟨e, hb, he, hat⟩ := hbegan
    exact ⟨e, events, covered, fold, hb, he, Nat.le_refl _, hat, hlist, hle, hof, rfl⟩
  | inr hrow => exact h.served row hrow

theorem Inv.setMemo (h : Inv s) (hfirst : s.FoldsFirst list covered f)
    (hfed : ∀ i scan, s.scans i = some scan → scan.phase.fed ≠ some f) :
    Inv { s with memo := some (list, covered, f) } := by
  refine ⟨h.current, h.there, fun l c g hm => ?_, h.scan, fun i scan g hi hg => ⟨fun m hm => ?_, ?_⟩,
    h.served⟩
  · cases hm
    exact hfirst
  · cases hm
    rintro rfl
    exact hfed i scan hi hg
  · exact (h.alone i scan g hi hg).2

theorem Inv.evict (h : Inv s) : Inv { s with memo := none } :=
  ⟨h.current, h.there, nofun, h.scan, fun i scan f hi hf => ⟨nofun, (h.alone i scan f hi hf).2⟩,
    h.served⟩

theorem Inv.setScan_plain (h : Inv s) (i : ℕ) (hbegan : began ≤ s.epoch)
    (hphase : s.PhaseInv began phase) (hknown : phase.known = none) (hfed : phase.fed = none) :
    Inv (s.setScan i (some { began, phase })) := by
  refine h.setScan i _ fun scan hscan => ?_
  cases hscan
  refine ⟨hbegan, hphase, fun f hf => ?_, fun f hf => ?_⟩
  · rw [hknown] at hf
    cases hf
  · rw [hfed] at hf
    cases hf

theorem Inv.setScan_known (h : Inv s) (i : ℕ) (hbegan : began ≤ s.epoch)
    (hphase : s.PhaseInv began phase) (hfed : phase.fed = none)
    (hknown : ∀ f, phase.known = some f → ∀ j other, j ≠ i → s.scans j = some other →
      other.phase.fed ≠ some f) :
    Inv (s.setScan i (some { began, phase })) := by
  refine h.setScan i _ fun scan hscan => ?_
  cases hscan
  refine ⟨hbegan, hphase, hknown, fun f hf => ?_⟩
  rw [hfed] at hf
  cases hf

theorem Inv.dropScan (h : Inv s) (i : ℕ) : Inv (s.setScan i none) := h.setScan i none nofun

theorem Inv.wasCurrent (h : Inv s) (hcurrent : s.current = some list) (hbegan : began ≤ s.epoch) :
    s.WasCurrent began list :=
  ⟨s.epoch, hbegan, Nat.le_refl _, h.current.trans hcurrent⟩

theorem Inv.factsHit {f : ℕ} (h : Inv s) (hnew : s.folds f = none) (hhit : s.factsHit f = some t) :
    Inv t := by
  unfold SessionUsage.factsHit at hhit
  obtain ⟨list, hcurrent, hhit⟩ := Option.bind_eq_some_iff.mp hhit
  obtain ⟨events, hlist, hhit⟩ := Option.bind_eq_some_iff.mp hhit
  obtain ⟨⟨cachedList, covered, g⟩, hmemo, hhit⟩ := Option.bind_eq_some_iff.mp hhit
  obtain ⟨fold, hfold, hhit⟩ := Option.bind_eq_some_iff.mp hhit
  obtain ⟨es, fold', hes, hle, hfold', hof⟩ := h.memo cachedList covered g hmemo
  rw [hfold] at hfold'
  cases hfold'
  have hwas := h.wasCurrent hcurrent (Nat.le_refl s.epoch)
  split at hhit
  next => cases hhit
  next hskip =>
    have hsame : cachedList = list := by
      by_contra hne
      exact hskip (.inl hne)
    subst hsame
    rw [hlist] at hes
    cases hes
    split at hhit
    next hlonger =>
      obtain ⟨fed, hfed, hhit⟩ := Option.bind_eq_some_iff.mp hhit
      cases hhit
      have hall : UsageFold.ofEvents events = some fed := by
        rw [← List.take_append_drop covered events, ofEvents_append hof]
        exact hfed
      have hmade := h.setFold hnew fed
      have hself : (s.setFold f fed).folds f = some fed := Function.update_self _ _ _
      have hfirst : (s.setFold f fed).FoldsFirst cachedList events.length f := by
        refine ⟨events, fed, hlist, Nat.le_refl _, hself, ?_⟩
        rw [List.take_length]
        exact hall
      have hstored := hmade.setMemo hfirst fun i scan hi hf => (h.unused hnew).fed i scan f hi hf rfl
      refine hstored.serveFacts hwas hlist (Nat.le_refl events.length) ?_
      rw [List.take_length]
      exact hall
    next =>
      cases hhit
      exact h.serveFacts hwas hlist hle hof

/-- **A scan takes its slice**, and a fold of its own to feed. -/
theorem Inv.sliceScan {cached : Option (ℕ × ℕ)} {events : List Event} {f : ℕ} (h : Inv s)
    (hi : s.scans i = some scan) (hlooked : scan.phase = .looked list cached)
    (hlist : s.lists list = some events) (hnew : s.folds f = none)
    (hslice : s.sliceScan i scan list events cached f = some t) : Inv t := by
  obtain ⟨hbegan, hphase⟩ := h.scan i scan hi
  rw [hlooked] at hphase
  obtain ⟨-, hwas, hcached⟩ := hphase
  have hunused := h.unused hnew
  -- the new fold is nobody else's
  have hfeeding : ∀ {fold : UsageFold} {covered suffix},
      (s.setFold f fold).PhaseInv scan.began (.feeding list covered f suffix) →
      Inv ((s.setFold f fold).setScan i
        (some { scan with phase := .feeding list covered f suffix })) := by
    intro fold covered suffix hfeed
    refine (h.setFold hnew fold).setScan i _ fun next hnext => ?_
    cases hnext
    refine ⟨hbegan, hfeed, nofun, fun g hg => ?_⟩
    cases hg
    exact ⟨fun m hm heq => hunused.memo m hm (congrArg some heq), nofun, fun j other _ hj =>
      ⟨fun hk => hunused.known j other f hj hk rfl, fun hf => hunused.fed j other f hj hf rfl⟩⟩
  unfold SessionUsage.sliceScan at hslice
  cases cached with
  | some c =>
    obtain ⟨covered, g⟩ := c
    obtain ⟨fold, hfold, hslice⟩ := Option.bind_eq_some_iff.mp hslice
    have hfirst := hcached covered g rfl
    obtain ⟨es, fold', hes, hle, hfold', hof⟩ := hfirst
    rw [hlist] at hes
    cases hes
    rw [hfold] at hfold'
    cases hfold'
    split at hslice
    next hlonger =>
      cases hslice
      refine hfeeding ⟨hwas.keeps (keeps_setFold s f fold), events, events.take covered, fold, hlist,
        ?_, ?_, Function.update_self _ _ _, hof⟩
      · rw [List.length_drop]
        omega
      · rw [List.length_drop, Nat.add_sub_cancel' hle, List.take_length, List.take_append_drop]
    next =>
      cases hslice
      refine h.setScan_known i hbegan ⟨hwas, covered, hcached covered g rfl⟩ rfl ?_
      intro k hk j other _ hj hfed
      cases hk
      refine ((h.alone j other g hj hfed).2 i scan hi).1 ?_
      rw [hlooked]
      rfl
  | none =>
    cases hslice
    refine hfeeding ⟨hwas.keeps (keeps_setFold s f {}), events, [], {}, hlist, Nat.le_refl _, ?_,
      Function.update_self _ _ _, rfl⟩
    rw [List.take_length]
    rfl

theorem Inv.feed {f : ℕ} {ev : Event} {rest : List Event} {fold fed : UsageFold} (h : Inv s)
    (hi : s.scans i = some scan) (hfeeding : scan.phase = .feeding list covered f (ev :: rest))
    (hfold : s.folds f = some fold) (hfed : fold.feed ev = some fed) :
    Inv ((s.setFold f fed).setScan i
      (some { scan with phase := .feeding list covered f rest })) := by
  obtain ⟨hbegan, hphase⟩ := h.scan i scan hi
  have hscanfed : scan.phase.fed = some f := by
    rw [hfeeding]
    rfl
  obtain ⟨hmemo, hothers⟩ := h.alone i scan f hi hscanfed
  rw [hfeeding] at hphase
  obtain ⟨hwas, events, before, fold', hlist, hle, htake, hfold', hof⟩ := hphase
  rw [hfold] at hfold'
  cases hfold'
  have hothers' : ∀ j other, j ≠ i → s.scans j = some other →
      other.phase.known ≠ some f ∧ other.phase.fed ≠ some f := fun j other hji hj =>
    ⟨(hothers j other hj).1, fun heq => hji ((hothers j other hj).2 heq)⟩
  -- without the scan nobody refers to its fold
  have hdropped := h.dropScan i
  have hunused : (s.setScan i none).Unused (some f) := by
    have hscan : ∀ j other, (s.setScan i none).scans j = some other →
        j ≠ i ∧ s.scans j = some other := by
      intro j other hj
      have hji : j ≠ i := by
        rintro rfl
        have hj' : Function.update s.scans j none j = some other := hj
        rw [Function.update_self] at hj'
        cases hj'
      exact ⟨hji, hj ▸ (Function.update_of_ne hji _ _).symm⟩
    refine ⟨fun m hm heq => hmemo m hm (Option.some.inj heq), fun j other g hj hg heq => ?_,
      fun j other g hj hg heq => ?_⟩
    · obtain ⟨hji, hj⟩ := hscan j other hj
      exact (hothers' j other hji hj).1 (hg.trans heq)
    · obtain ⟨hji, hj⟩ := hscan j other hj
      exact (hothers' j other hji hj).2 (hg.trans heq)
  have hkept : Inv ((s.setScan i none).setFold f fed) :=
    hdropped.keeps (keeps_setFold _ f fed) hunused rfl rfl rfl hdropped.current hdropped.there
  have hnext := hkept.setScan i (some { scan with phase := .feeding list covered f rest })
    fun next hnext => by
      cases hnext
      refine ⟨hbegan, ⟨hwas, events, before ++ [ev], fed, hlist, hle, ?_, Function.update_self _ _ _,
        ?_⟩, nofun, fun g hg => ?_⟩
      · rw [htake, List.append_assoc]
        rfl
      · rw [ofEvents_append hof]
        show (fold.feed ev).bind some = some fed
        rw [hfed]
        rfl
      · cases hg
        refine ⟨hmemo, nofun, fun j other hji hj => hothers' j other hji ?_⟩
        rw [← hj]
        exact (Function.update_of_ne hji _ _).symm
  have hsame : ((s.setScan i none).setFold f fed).setScan i
      (some { scan with phase := .feeding list covered f rest })
      = (s.setFold f fed).setScan i (some { scan with phase := .feeding list covered f rest }) := by
    unfold SessionUsage.setScan SessionUsage.setFold
    rw [Function.update_idem]
  exact hsame ▸ hnext

/-! ## Runs -/

theorem Inv.step {a : UsageAction} (h : Inv s) (hstep : s.step a = some t) : Inv t := by
  cases a with
  | append list ev =>
    obtain ⟨events, hlist, hstep⟩ := Option.bind_eq_some_iff.mp hstep
    cases hstep
    exact h.append hlist ev
  | replace list events =>
    simp only [SessionUsage.step] at hstep
    split at hstep
    next hlist =>
      cases hstep
      exact h.publishList hlist events
    next => cases hstep
  | invalidate =>
    cases hstep
    exact h.invalidate
  | evict =>
    cases hstep
    exact h.evict
  | hit f =>
    simp only [SessionUsage.step] at hstep
    split at hstep
    next hnew => exact h.factsHit hnew hstep
    next => cases hstep
  | begin i =>
    simp only [SessionUsage.step] at hstep
    split at hstep
    next =>
      cases hstep
      exact h.setScan_plain i (Nat.le_refl _) trivial rfl rfl
    next => cases hstep
  | checkCache i =>
    obtain ⟨scan, hi, hstep⟩ := Option.bind_eq_some_iff.mp hstep
    obtain ⟨hbegan, -⟩ := h.scan i scan hi
    split at hstep
    next list _ hcurrent =>
      cases hstep
      exact h.setScan_plain i hbegan ⟨h.there list hcurrent, h.wasCurrent hcurrent hbegan⟩ rfl rfl
    next =>
      cases hstep
      exact h.setScan_plain i hbegan trivial rfl rfl
    next => cases hstep
  | publish i list events =>
    obtain ⟨scan, hi, hstep⟩ := Option.bind_eq_some_iff.mp hstep
    obtain ⟨hbegan, -⟩ := h.scan i scan hi
    split at hstep
    next _ hlist =>
      cases hstep
      have hpublished := h.publishList hlist events
      have hbegan' : scan.began ≤ (s.publishList list events).epoch := hbegan.trans (Nat.le_succ _)
      exact hpublished.setScan_plain i hbegan'
        ⟨⟨events, Function.update_self _ _ _⟩, hpublished.wasCurrent rfl hbegan'⟩ rfl rfl
    next => cases hstep
  | look i =>
    obtain ⟨scan, hi, hstep⟩ := Option.bind_eq_some_iff.mp hstep
    obtain ⟨hbegan, hphase⟩ := h.scan i scan hi
    split at hstep
    next list hloaded =>
      cases hstep
      rw [hloaded] at hphase
      -- what is taken from the memo is of this list
      have hcached : ∀ covered f, (s.memo.bind fun m => if m.1 = list then some (m.2.1, m.2.2)
          else none) = some (covered, f) → s.memo = some (list, covered, f) := by
        intro covered f hc
        obtain ⟨⟨l, c, g⟩, hmemo, hc⟩ := Option.bind_eq_some_iff.mp hc
        dsimp only at hc
        split at hc
        next hl =>
          cases hc
          rw [hmemo, hl]
        next => cases hc
      refine h.setScan_known i hbegan ⟨hphase.1, hphase.2, fun covered f hc =>
        h.memo list covered f (hcached covered f hc)⟩ rfl fun f hf j other _ hj hfed => ?_
      cases hc : (s.memo.bind fun m => if m.1 = list then some (m.2.1, m.2.2) else none) with
      | none =>
        rw [hc] at hf
        cases hf
      | some c =>
        rw [hc] at hf
        cases hf
        exact (h.alone j other c.2 hj hfed).1 _ (hcached c.1 c.2 hc) rfl
    next => cases hstep
  | slice i f =>
    obtain ⟨scan, hi, hstep⟩ := Option.bind_eq_some_iff.mp hstep
    split at hstep
    next list cached hlooked hnew =>
      obtain ⟨events, hlist, hstep⟩ := Option.bind_eq_some_iff.mp hstep
      exact h.sliceScan hi hlooked hlist hnew hstep
    next => cases hstep
  | feed i =>
    obtain ⟨scan, hi, hstep⟩ := Option.bind_eq_some_iff.mp hstep
    split at hstep
    next list covered f ev rest hfeeding =>
      obtain ⟨fold, hfold, hstep⟩ := Option.bind_eq_some_iff.mp hstep
      split at hstep
      next fed hfed =>
        cases hstep
        exact h.feed hi hfeeding hfold hfed
      next =>
        cases hstep
        exact h.dropScan i
    next => cases hstep
  | store i =>
    obtain ⟨scan, hi, hstep⟩ := Option.bind_eq_some_iff.mp hstep
    obtain ⟨hbegan, hphase⟩ := h.scan i scan hi
    split at hstep
    next list covered f hfeeding =>
      cases hstep
      rw [hfeeding] at hphase
      obtain ⟨hwas, events, before, fold, hlist, hle, htake, hfold, hof⟩ := hphase
      have hfirst : s.FoldsFirst list covered f := by
        refine ⟨events, fold, hlist, hle, hfold, ?_⟩
        rw [htake, List.append_nil]
        exact hof
      have hothers := (h.alone i scan f hi (by rw [hfeeding]; rfl)).2
      have hdone := @Inv.setScan_known _ _ (.done list f) h i hbegan ⟨hwas, covered, hfirst⟩ rfl
        fun g hg j other hji hj hfed => by
          cases hg
          exact hji ((hothers j other hj).2 hfed)
      refine hdone.setMemo hfirst fun j other hj hfed => ?_
      by_cases hji : j = i
      · subst hji
        have hj' : Function.update s.scans j (some { scan with phase := .done list f }) j
          = some other := hj
        rw [Function.update_self] at hj'
        cases hj'
        cases hfed
      · refine hji ((hothers j other ?_).2 hfed)
        rw [← hj]
        exact (Function.update_of_ne hji _ _).symm
    next => cases hstep
  | serve i =>
    obtain ⟨scan, hi, hstep⟩ := Option.bind_eq_some_iff.mp hstep
    obtain ⟨-, hphase⟩ := h.scan i scan hi
    split at hstep
    next list f hdone =>
      obtain ⟨fold, hfold, hstep⟩ := Option.bind_eq_some_iff.mp hstep
      cases hstep
      rw [hdone] at hphase
      obtain ⟨hwas, covered, events, fold', hlist, hle, hfold', hof⟩ := hphase
      rw [hfold] at hfold'
      cases hfold'
      exact (h.serveFacts hwas hlist hle hof).dropScan i
    next => cases hstep

theorem Inv.initial : Inv {} := by
  refine ⟨rfl, ?_, ?_, ?_, ?_, ?_⟩
  · exact nofun
  · exact nofun
  · exact nofun
  · exact nofun
  · exact fun _ h => absurd h List.not_mem_nil

end SessionUsage

namespace UsageFold

theorem totalCost_feed {fold fed : UsageFold} {ev : Event} (h : fold.feed ev = some fed) :
    fed.totalCost = fold.totalCost + costOf ev := by
  unfold feed at h
  unfold costOf
  split at h
  next htype =>
    rw [if_neg fun hresult => absurd (Event.hasType_unique htype hresult) (by decide), add_zero]
    unfold feedAssistant at h
    split at h
    next => cases h; rfl
    next =>
      simp only [Option.bind_eq_bind, Option.bind_eq_some_iff] at h
      obtain ⟨_, -, _, -, _, -, h⟩ := h
      split at h
      next => cases h; rfl
      next => cases h; rfl
  next =>
    split at h
    next htype =>
      rw [if_neg fun hresult => absurd (Event.hasType_unique htype hresult) (by decide), add_zero]
      unfold feedSystem at h
      split at h
      next =>
        split at h
        next =>
          obtain ⟨_, -, h⟩ := Option.bind_eq_some_iff.mp h
          split at h
          next => cases h; rfl
          next => cases h; rfl
        next => cases h; rfl
      next =>
        split at h
        next =>
          split at h
          next => cases h; rfl
          next => cases h; rfl
        next => cases h; rfl
    next =>
      split at h
      next hresult =>
        rw [if_pos hresult]
        have hsnapshot : ∀ f : UsageFold, (f.feedSnapshot ev).totalCost = f.totalCost := by
          intro f
          unfold feedSnapshot
          split <;> rfl
        unfold feedResult at h
        obtain ⟨_, -, h⟩ := Option.bind_eq_some_iff.mp h
        obtain ⟨_, -, h⟩ := Option.bind_eq_some_iff.mp h
        obtain ⟨cost, hcost, h⟩ := Option.bind_eq_some_iff.mp h
        rw [hcost]
        cases cost with
        | none =>
          cases h
          exact (hsnapshot _).trans (add_zero _).symm
        | some cost =>
          cases h
          exact congrArg (· + cost) (hsnapshot _)
      next hresult =>
        rw [if_neg hresult, add_zero]
        cases h
        rfl

/-- **Every cost is counted once**: the cost of a fold is the sum of those of its events. -/
theorem totalCost_fold {events : List Event} {fold : UsageFold} (h : ofEvents events = some fold) :
    fold.totalCost = (events.map costOf).sum := by
  have hgen : ∀ (events : List Event) (start : UsageFold), events.foldlM feed start = some fold →
      fold.totalCost = start.totalCost + (events.map costOf).sum := by
    intro events
    induction events with
    | nil =>
      intro start h
      cases h
      exact (add_zero _).symm
    | cons ev rest ih =>
      intro start h
      rw [List.foldlM_cons] at h
      obtain ⟨fed, hfed, h⟩ := Option.bind_eq_some_iff.mp h
      rw [ih fed h, totalCost_feed hfed, List.map_cons, List.sum_cons, add_assoc]
  rw [hgen events {} h]
  exact zero_add _

end UsageFold

namespace SessionUsage

variable {s : SessionUsage}

/-- **What is served is a fold of first events**: along every run the stored fold is that of
the first covered events of its list, and every answer is the fold of the first events of a
list that was the session's while the answer was made. -/
theorem served_of_run {as : List UsageAction} (h : system.run {} as = some s) :
    (∀ row ∈ s.served, s.RowRight row)
      ∧ (∀ list covered f, s.memo = some (list, covered, f) → s.FoldsFirst list covered f)
      ∧ ∀ events fold, UsageFold.ofEvents events = some fold →
        fold.totalCost = (events.map UsageFold.costOf).sum := by
  have hinv := TransitionSystem.run_invariant system (fun _ _ _ hi hstep => hi.step hstep)
    Inv.initial as h
  exact ⟨hinv.served, hinv.memo, fun _ _ => UsageFold.totalCost_fold⟩

def costly : Event := [("type", .str "result"), ("total_cost_usd", .int 1)]

/-- The list is replaced while a scan folds it. -/
def replacedMeanwhile : List UsageAction :=
  [.replace 0 [costly], .begin 0, .checkCache 0, .replace 1 [], .look 0, .slice 0 0, .feed 0,
    .store 0, .serve 0]

theorem served_of_run_replacedMeanwhile :
    ∃ s, system.run {} replacedMeanwhile = some s ∧ s.served.length = 1
      ∧ ∀ row ∈ s.served, s.RowRight row := by
  have hrun : (system.run {} replacedMeanwhile).map (fun s => s.served.length) = some 1 := by
    decide +kernel
  obtain ⟨s, hs, hlen⟩ := Option.map_eq_some_iff.mp hrun
  exact ⟨s, hs, hlen, (served_of_run hs).1⟩

/-- **An answer of a list that is gone**: the session's list is empty by the time the answer
is given, and the answer has a cost that no fold of its events has. -/
theorem served_replaced :
    ∃ s, system.run {} replacedMeanwhile = some s
      ∧ s.served.map (fun row => row.facts.cost) = [some 10000]
      ∧ (s.current.bind s.lists).map List.length = some 0
      ∧ ¬ ∀ row ∈ s.served, ∃ list events covered fold, s.current = some list
        ∧ s.lists list = some events ∧ UsageFold.ofEvents (events.take covered) = some fold
        ∧ row.facts = fold.facts := by
  have hrun : (system.run {} replacedMeanwhile).map (fun s =>
      (s.served.map fun row => row.facts.cost, (s.current.bind s.lists).map List.length))
      = some ([some 10000], some 0) := by decide +kernel
  obtain ⟨s, hs, hstate⟩ := Option.map_eq_some_iff.mp hrun
  rw [Prod.mk.injEq] at hstate
  obtain ⟨hcosts, hlen⟩ := hstate
  refine ⟨s, hs, hcosts, hlen, fun hall => ?_⟩
  obtain ⟨row, hrow, hcost⟩ := List.mem_map.mp
    (hcosts ▸ List.mem_singleton_self (some (10000 : ℤ)) :
      some (10000 : ℤ) ∈ s.served.map fun row => row.facts.cost)
  obtain ⟨list, events, covered, fold, hcurrent, hlist, hof, hfacts⟩ := hall row hrow
  rw [hcurrent, Option.bind_some, hlist] at hlen
  have hnil : events = [] := List.length_eq_zero_iff.mp (Option.some.inj hlen)
  subst hnil
  rw [List.take_nil] at hof
  cases hof
  rw [hfacts] at hcost
  cases hcost

end SessionUsage
