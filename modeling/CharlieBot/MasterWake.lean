import CharlieBot.ReviewChain

/-!
# The master is woken for a worker

A chain that finalizes a worker first puts its summary into the chat, and when
no review is due, or the review is done, tells the master. After a crash the
chain is run again, and whether the master was told already is judged by the
chat: an output of the master behind the summary counts as its answer.

The master may have been at work on something else. What that turn puts out
behind the summary is taken for the answer as well, and then nobody is told
(`lost_wake`). Along the runs in which **an output stands behind the summary
only when a turn that was woken for the thread has put something out**, every
thread that was judged has been told of; and along every run, a thread for
which a turn was woken and put something out is not told of again
(`wakes_of_run`).
-/

/-! ## Chains and turns -/

inductive WakePhase where
  | summarizing
  /-- The summary is there, and whether a review is due is decided. -/
  | summarized
  /-- The master is to be told, and it is judged whether it was. -/
  | judging (text : String)

structure WakeChain where
  thread : ThreadMetadata
  outcome : WorkerRunOutcome
  summary : SummaryRead
  phase : WakePhase

/-- **A session**, its chains and the turns of its master. -/
structure WakeState where
  /-- The chat, and with every event the threads that its turn was woken for. -/
  chat : List (Event × List String) := []
  chains : ℕ → Option WakeChain := fun _ => none
  /-- The turns that run, and the threads they were woken for. -/
  turns : ℕ → Option (List String) := fun _ => none
  /-- The calls that told the master: the thread and the text. -/
  triggers : List (String × String) := []
  /-- The threads for which it was judged whether to tell the master. -/
  settled : List String := []

inductive WakeAction where
  /-- An event that is neither an output of the master nor a summary. -/
  | append (event : Event)
  | beginTurn (k : ℕ) (wokenFor : List String)
  /-- A turn puts something out. -/
  | output (k : ℕ) (event : Event)
  | endTurn (k : ℕ)
  /-- A chain starts, for the first time or again. -/
  | start (c : ℕ) (thread : ThreadMetadata) (outcome : WorkerRunOutcome) (summary : SummaryRead)
  /-- `_persist_worker_summary_once`. -/
  | summarize (c : ℕ)
  /-- No review is due, or it is done. -/
  | reach (c : ℕ) (read : ReviewRead)
  /-- A reviewer takes over, or the chain raises. -/
  | leave (c : ℕ)
  /-- `_trigger_master_judged`. -/
  | judge (c : ℕ)
  | crash

namespace WakeState

variable (s : WakeState)

def events : List Event := s.chat.map Prod.fst

/-- The threads the master was told of. -/
def triggered : List String := s.triggers.map Prod.fst

def setChain (c : ℕ) (chain : Option WakeChain) : WakeState :=
  { s with chains := Function.update s.chains c chain }

def appendEvent (event : Event) (wokenFor : List String) : WakeState :=
  { s with chat := s.chat ++ [(event, wokenFor)] }

/-- A chain comes to its judgment. -/
def settle (c : ℕ) (chain : WakeChain) : WakeState :=
  { s with
    chains := Function.update s.chains c none
    settled := s.settled ++ [chain.thread.id] }

/-- `_trigger_master_judged`, where the text is the result of the chain's thread. -/
def judge (c : ℕ) (chain : WakeChain) (text : String) : WakeState :=
  if (FinalizeFold.build s.events).masterWoke chain.thread.id then s.settle c chain
  else { s.settle c chain with triggers := s.triggers ++ [(chain.thread.id, text)] }

/-- `_persist_worker_summary_once`, and the chain goes on. -/
def summarize (c : ℕ) (chain : WakeChain) : WakeState :=
  let next := s.setChain c (some { chain with phase := .summarized })
  if (FinalizeFold.build s.events).summaryPresent chain.thread.id then next
  else next.appendEvent (completionEvent chain.thread chain.outcome chain.summary) []

def step : WakeAction → Option WakeState
  | .append event =>
    if isMasterOutput event || event.hasType ET.workerSummary then none
    else some (s.appendEvent event [])
  | .beginTurn k wokenFor =>
    if s.turns k = none ∧ ∀ t ∈ wokenFor, t ∈ s.triggered then
      some { s with turns := Function.update s.turns k (some wokenFor) }
    else none
  | .output k event => do
    let wokenFor ← s.turns k
    if isMasterOutput event then some (s.appendEvent event wokenFor) else none
  | .endTurn k => some { s with turns := Function.update s.turns k none }
  | .start c thread outcome summary =>
    match s.chains c with
    | some _ => none
    | none => some (s.setChain c (some ⟨thread, outcome, summary, .summarizing⟩))
  | .summarize c => do
    let chain ← s.chains c
    match chain.phase with
    | .summarizing => some (s.summarize c chain)
    | _ => none
  | .reach c read => do
    let chain ← s.chains c
    match chain.phase with
    | .summarized =>
      let text := resultSummary chain.thread chain.outcome chain.summary read
      some (s.setChain c (some { chain with phase := .judging text }))
    | _ => none
  | .leave c => do
    let chain ← s.chains c
    match chain.phase with
    | .summarized => some (s.setChain c none)
    | _ => none
  | .judge c => do
    let chain ← s.chains c
    match chain.phase with
    | .judging text => some (s.judge c chain text)
    | _ => none
  | .crash => some { s with chains := fun _ => none, turns := fun _ => none }

def system : TransitionSystem WakeState WakeAction := ⟨step⟩

/-! ## What is claimed -/

/-- A text that says what a thread came to. -/
def IsResult (threadId text : String) : Prop :=
  ∃ thread outcome summary read, thread.id = threadId ∧
    text = resultSummary thread outcome summary read

/-- A turn that was woken for a thread has put something out. -/
def CarriedOut (threadId : String) : Prop :=
  ∃ e ∈ s.chat, isMasterOutput e.1 = true ∧ threadId ∈ e.2

instance (threadId : String) : Decidable (s.CarriedOut threadId) := by
  unfold CarriedOut
  infer_instance

/-- **No wake is lost**: of every thread that was judged the master was told what it
came to. -/
def NoLostWake : Prop :=
  ∀ t ∈ s.settled, ∃ w ∈ s.triggers, w.1 = t ∧ IsResult t w.2

/-- **No wake is repeated**: a thread for which a turn put something out is not told of
again, whatever chain of it is judged. -/
def NoSecondWake : Prop :=
  ∀ c chain s', s.chains c = some chain → s.CarriedOut chain.thread.id →
    s.step (.judge c) = some s' → s'.triggers = s.triggers

/-- **The answer is one to the thread**: where an output of the master stands behind the
summary of a thread that is judged, a turn that was woken for it has put something
out. -/
def Answered : WakeAction → Prop
  | .judge c => ∀ chain ∈ s.chains c,
    masterWokeAfterSummary s.events chain.thread.id = true → s.CarriedOut chain.thread.id
  | _ => True

/-! ## What holds of a session -/

def ChainInv (s : WakeState) (chain : WakeChain) : Prop :=
  match chain.phase with
  | .summarizing => True
  | .summarized => terminalSummaryPresent s.events chain.thread.id = true
  | .judging text =>
    terminalSummaryPresent s.events chain.thread.id = true ∧ IsResult chain.thread.id text

/-- **What holds of a session.** -/
structure Inv (s : WakeState) : Prop where
  chains : ∀ c chain, s.chains c = some chain → s.ChainInv chain
  turns : ∀ k wokenFor, s.turns k = some wokenFor → ∀ t ∈ wokenFor, t ∈ s.triggered
  /-- An event is of a turn that was woken. -/
  woken : ∀ e ∈ s.chat, ∀ t ∈ e.2, t ∈ s.triggered
  /-- A thread that was told of has a summary. -/
  summary : ∀ t ∈ s.triggered, terminalSummaryPresent s.events t = true
  results : ∀ w ∈ s.triggers, IsResult w.1 w.2
  /-- What a turn put out that was woken for a thread stands behind its summary. -/
  behind : ∀ t, s.CarriedOut t → masterWokeAfterSummary s.events t = true

variable {s} {s' : WakeState}

theorem inv_empty : Inv {} where
  chains _ _ h := by cases h
  turns _ _ h := by cases h
  woken _ h := absurd h List.not_mem_nil
  summary _ h := absurd h List.not_mem_nil
  results _ h := absurd h List.not_mem_nil
  behind t h := by
    obtain ⟨e, he, -⟩ := h
    exact absurd he List.not_mem_nil

theorem events_appendEvent (s : WakeState) (event : Event) (wokenFor : List String) :
    (s.appendEvent event wokenFor).events = s.events ++ [event] := by
  unfold appendEvent events
  rw [List.map_append, List.map_singleton]

theorem present_append {t : String} (h : terminalSummaryPresent s.events t = true) (event : Event)
    (wokenFor : List String) :
    terminalSummaryPresent (s.appendEvent event wokenFor).events t = true := by
  rw [events_appendEvent, terminalSummaryPresent_concat, h, Bool.true_or]

theorem ChainInv.append {chain : WakeChain} (h : s.ChainInv chain) (event : Event)
    (wokenFor : List String) : (s.appendEvent event wokenFor).ChainInv chain := by
  unfold ChainInv at h ⊢
  cases hphase : chain.phase with
  | summarizing => trivial
  | summarized =>
    rw [hphase] at h
    exact present_append h event wokenFor
  | judging text =>
    rw [hphase] at h
    exact ⟨present_append h.1 event wokenFor, h.2⟩

/-- **An event keeps the invariant** that is no second summary, and that is of a turn that
was woken if it is an output. -/
theorem Inv.append (h : Inv s) {event : Event} {wokenFor : List String}
    (hwoken : ∀ t ∈ wokenFor, t ∈ s.triggered)
    (honce : ∀ t ∈ s.triggered, isTerminalWorkerSummary event t = false) :
    Inv (s.appendEvent event wokenFor) := by
  refine ⟨fun c chain hc => (h.chains c chain hc).append event wokenFor, h.turns,
    fun e he t ht => ?_, fun t ht => present_append (h.summary t ht) event wokenFor, h.results,
    fun t hout => ?_⟩
  · rcases List.mem_append.mp he with he | he
    · exact h.woken e he t ht
    · rw [List.mem_singleton.mp he] at ht
      exact hwoken t ht
  · obtain ⟨e, he, hout, ht⟩ := hout
    rw [events_appendEvent, masterWokeAfterSummary_concat]
    rcases List.mem_append.mp he with he | he
    · rw [honce t (h.woken e he t ht), h.behind t ⟨e, he, hout, ht⟩]
      rfl
    · rw [List.mem_singleton.mp he] at hout ht
      have htriggered := hwoken t ht
      rw [honce t htriggered, h.summary t htriggered, show isMasterOutput event = true from hout]
      simp

theorem of_update_eq_some {α : Type*} {f : ℕ → Option α} {c c' : ℕ} {v : Option α} {a : α}
    (h : Function.update f c v c' = some a) : v = some a ∨ f c' = some a := by
  by_cases hsame : c' = c
  · subst hsame
    rw [Function.update_self] at h
    exact .inl h
  · rw [Function.update_of_ne hsame] at h
    exact .inr h

theorem Inv.setChain (h : Inv s) (c : ℕ) {chain : Option WakeChain}
    (hchain : ∀ ch, chain = some ch → s.ChainInv ch) : Inv (s.setChain c chain) := by
  refine ⟨fun c' chain' hc => ?_, h.turns, h.woken, h.summary, h.results, h.behind⟩
  rcases of_update_eq_some hc with hnew | hold
  · exact hchain chain' hnew
  · exact h.chains c' chain' hold

/-- **The summary keeps the invariant**: it is sent when there is none. -/
theorem Inv.summarize (h : Inv s) (c : ℕ) (chain : WakeChain) : Inv (s.summarize c chain) := by
  unfold WakeState.summarize
  rw [summaryPresent_build]
  split
  · next hpresent =>
    refine h.setChain c fun ch hch => ?_
    cases hch
    exact hpresent
  · next habsent =>
    have hterminal := isTerminal_completionEvent chain.thread chain.outcome chain.summary
    have happend : Inv (s.appendEvent (completionEvent chain.thread chain.outcome chain.summary)
        []) := by
      refine h.append (fun t ht => absurd ht List.not_mem_nil) fun t ht => ?_
      refine eq_false_of_ne_true fun hother => habsent ?_
      rw [eq_of_isTerminalWorkerSummary hterminal hother]
      exact h.summary t ht
    refine happend.setChain c fun ch hch => ?_
    cases hch
    show terminalSummaryPresent _ chain.thread.id = true
    rw [events_appendEvent, terminalSummaryPresent_concat, hterminal, Bool.or_true]

theorem Inv.judge (h : Inv s) {c : ℕ} {chain : WakeChain} {text : String}
    (hchain : s.chains c = some chain) (hphase : chain.phase = .judging text) :
    Inv (s.judge c chain text) := by
  have hjudging := h.chains c chain hchain
  unfold ChainInv at hjudging
  rw [hphase] at hjudging
  obtain ⟨hpresent, hresult⟩ := hjudging
  have hleft : ∀ c' chain', Function.update s.chains c none c' = some chain' →
      s.ChainInv chain' := (@Inv.setChain s h c none fun _ hch => by cases hch).chains
  unfold WakeState.judge
  split
  · exact ⟨hleft, h.turns, h.woken, h.summary, h.results, h.behind⟩
  · have hmore : ∀ t ∈ s.triggered, t ∈ s.triggered ++ [chain.thread.id] := fun t ht =>
      List.mem_append_left _ ht
    have htriggered : triggered { s.settle c chain with
        triggers := s.triggers ++ [(chain.thread.id, text)] }
        = s.triggered ++ [chain.thread.id] := by
      unfold triggered
      rw [List.map_append, List.map_singleton]
    refine ⟨hleft, fun k wokenFor hk t ht => ?_, fun e he t ht => ?_, fun t ht => ?_,
      fun w hw => ?_, h.behind⟩
    · rw [htriggered]
      exact hmore t (h.turns k wokenFor hk t ht)
    · rw [htriggered]
      exact hmore t (h.woken e he t ht)
    · rw [htriggered] at ht
      rcases List.mem_append.mp ht with ht | ht
      · exact h.summary t ht
      · rw [List.mem_singleton.mp ht]
        exact hpresent
    · rcases List.mem_append.mp hw with hw | hw
      · exact h.results w hw
      · rw [List.mem_singleton.mp hw]
        exact hresult

theorem Inv.step (h : Inv s) {a : WakeAction} (hstep : s.step a = some s') : Inv s' := by
  cases a with
  | append event =>
    simp only [WakeState.step] at hstep
    split at hstep
    · cases hstep
    · next hplain =>
      cases hstep
      rw [Bool.or_eq_true, not_or] at hplain
      refine h.append (fun t ht => absurd ht List.not_mem_nil) fun t _ => ?_
      rw [isTerminalWorkerSummary, eq_false_of_ne_true hplain.2]
      rfl
  | beginTurn k wokenFor =>
    simp only [WakeState.step] at hstep
    split at hstep
    · next hboth =>
      cases hstep
      refine ⟨h.chains, fun k' wokenFor' hk t ht => ?_, h.woken, h.summary, h.results, h.behind⟩
      rcases of_update_eq_some hk with hnew | hold
      · cases hnew
        exact hboth.2 t ht
      · exact h.turns k' wokenFor' hold t ht
    · cases hstep
  | output k event =>
    obtain ⟨wokenFor, hk, hstep⟩ := Option.bind_eq_some_iff.mp hstep
    split at hstep
    · next hout =>
      cases hstep
      refine h.append (h.turns k wokenFor hk) fun t _ => ?_
      refine eq_false_of_ne_true fun hterminal => ?_
      rw [isMasterOutput_of_isTerminalWorkerSummary hterminal] at hout
      cases hout
    · cases hstep
  | endTurn k =>
    cases hstep
    refine ⟨h.chains, fun k' wokenFor hk => ?_, h.woken, h.summary, h.results, h.behind⟩
    rcases of_update_eq_some hk with hnew | hold
    · cases hnew
    · exact h.turns k' wokenFor hold
  | start c thread outcome summary =>
    simp only [WakeState.step] at hstep
    split at hstep
    · cases hstep
    · cases hstep
      refine h.setChain c fun ch hch => ?_
      cases hch
      trivial
  | summarize c =>
    obtain ⟨chain, -, hstep⟩ := Option.bind_eq_some_iff.mp hstep
    split at hstep
    · cases hstep
      exact h.summarize c chain
    · cases hstep
  | reach c read =>
    obtain ⟨chain, hchain, hstep⟩ := Option.bind_eq_some_iff.mp hstep
    split at hstep
    · next hphase =>
      cases hstep
      have hpresent := h.chains c chain hchain
      unfold ChainInv at hpresent
      rw [hphase] at hpresent
      refine h.setChain c fun ch hch => ?_
      cases hch
      exact ⟨hpresent, chain.thread, chain.outcome, chain.summary, read, rfl, rfl⟩
    · cases hstep
  | leave c =>
    obtain ⟨chain, -, hstep⟩ := Option.bind_eq_some_iff.mp hstep
    split at hstep
    · cases hstep
      exact h.setChain c fun _ hch => by cases hch
    · cases hstep
  | judge c =>
    obtain ⟨chain, hchain, hstep⟩ := Option.bind_eq_some_iff.mp hstep
    split at hstep
    · next text hphase =>
      cases hstep
      exact h.judge hchain hphase
    · cases hstep
  | crash =>
    cases hstep
    exact ⟨fun _ _ hc => (by cases hc), fun _ _ hk => (by cases hk), h.woken, h.summary, h.results,
      h.behind⟩

/-- **No wake is repeated** where the invariant holds: the output of the turn stands
behind the summary. -/
theorem Inv.noSecondWake (h : Inv s) : s.NoSecondWake := by
  intro c chain s' hchain hout hstep
  obtain ⟨chain', hchain', hstep⟩ := Option.bind_eq_some_iff.mp hstep
  rw [hchain] at hchain'
  cases hchain'
  split at hstep
  · cases hstep
    unfold WakeState.judge
    rw [masterWoke_build, h.behind _ hout, if_pos rfl]
    rfl
  · cases hstep

/-- **A wake is lost only at a judgment.** -/
theorem Inv.noLostWake_step (h : Inv s) (hlost : s.NoLostWake) {a : WakeAction}
    (hanswered : s.Answered a) (hstep : s.step a = some s') : s'.NoLostWake := by
  have hkeep : ∀ {s' : WakeState}, s'.settled = s.settled → s'.triggers = s.triggers →
      s'.NoLostWake := by
    intro s' hsettled htriggers t ht
    rw [hsettled] at ht
    rw [htriggers]
    exact hlost t ht
  cases a with
  | append event =>
    simp only [WakeState.step] at hstep
    split at hstep
    · cases hstep
    · cases hstep
      exact hkeep rfl rfl
  | beginTurn k wokenFor =>
    simp only [WakeState.step] at hstep
    split at hstep
    · cases hstep
      exact hkeep rfl rfl
    · cases hstep
  | output k event =>
    obtain ⟨wokenFor, -, hstep⟩ := Option.bind_eq_some_iff.mp hstep
    split at hstep
    · cases hstep
      exact hkeep rfl rfl
    · cases hstep
  | endTurn k =>
    cases hstep
    exact hkeep rfl rfl
  | start c thread outcome summary =>
    simp only [WakeState.step] at hstep
    split at hstep
    · cases hstep
    · cases hstep
      exact hkeep rfl rfl
  | summarize c =>
    obtain ⟨chain, -, hstep⟩ := Option.bind_eq_some_iff.mp hstep
    split at hstep
    · cases hstep
      unfold WakeState.summarize
      split <;> exact hkeep rfl rfl
    · cases hstep
  | reach c read =>
    obtain ⟨chain, -, hstep⟩ := Option.bind_eq_some_iff.mp hstep
    split at hstep
    · cases hstep
      exact hkeep rfl rfl
    · cases hstep
  | leave c =>
    obtain ⟨chain, -, hstep⟩ := Option.bind_eq_some_iff.mp hstep
    split at hstep
    · cases hstep
      exact hkeep rfl rfl
    · cases hstep
  | judge c =>
    obtain ⟨chain, hchain, hstep⟩ := Option.bind_eq_some_iff.mp hstep
    split at hstep
    · next text hphase =>
      cases hstep
      intro t ht
      have hsettled : (s.judge c chain text).settled = s.settled ++ [chain.thread.id] := by
        unfold WakeState.judge
        split <;> rfl
      have htriggers : s.triggers ⊆ (s.judge c chain text).triggers := by
        unfold WakeState.judge
        split
        · exact List.Subset.refl _
        · exact List.subset_append_left _ _
      rw [hsettled] at ht
      rcases List.mem_append.mp ht with ht | ht
      · obtain ⟨w, hw, hrest⟩ := hlost t ht
        exact ⟨w, htriggers hw, hrest⟩
      · obtain rfl := List.mem_singleton.mp ht
        have hnext := h.judge hchain hphase
        suffices htold : chain.thread.id ∈ (s.judge c chain text).triggered by
          obtain ⟨w, hw, hid⟩ := List.mem_map.mp htold
          exact ⟨w, hw, hid, hid ▸ hnext.results w hw⟩
        unfold WakeState.judge
        rw [masterWoke_build]
        split
        · next hwoke =>
          -- the answer is one to the thread, and so it was told of
          obtain ⟨e, he, -, hin⟩ := hanswered chain hchain hwoke
          exact h.woken e he _ hin
        · exact List.mem_map.mpr ⟨_, List.mem_append_right _ (List.mem_singleton_self _), rfl⟩
    · cases hstep
  | crash =>
    cases hstep
    exact hkeep rfl rfl

/-- **No wake is repeated, and none is lost** along the runs in which an output of the
master stands behind the summary of a thread that is judged only when a turn
that was woken for the thread has put something out. -/
theorem wakes_of_run {as : List WakeAction} (hrun : system.run {} as = some s) :
    s.NoSecondWake ∧ (system.Guarded Answered {} as → s.NoLostWake) := by
  constructor
  · exact (system.run_invariant (fun _ _ _ h hstep => Inv.step h hstep) inv_empty as
      hrun).noSecondWake
  · intro hanswered
    refine (system.run_invariant_of_guarded (I := fun s => Inv s ∧ s.NoLostWake)
      (fun s a _ h hG hstep => ⟨h.1.step hstep, h.1.noLostWake_step h.2 hG hstep⟩)
      ⟨inv_empty, fun _ ht => absurd ht List.not_mem_nil⟩ hanswered hrun).2

instance (s : WakeState) (a : WakeAction) : Decidable (s.Answered a) := by
  cases a <;> unfold Answered <;> infer_instance

def plainWorker : ThreadMetadata where
  id := "w"
  sessionId := "s"
  description := "task"
  requireReview := false

/-- An output of the master. -/
def answer : Event := [("type", .str ET.assistant)]

/-- A chain of a worker, from its start to the judgment. -/
def chainOnce : List WakeAction :=
  [.start 0 plainWorker ⟨0, false, ""⟩ ReviewState.plainSummary, .summarize 0,
    .reach 0 (ReviewState.readAll "r"), .judge 0]

/-- A turn ends before the summary, the master is told and answers, and after a crash the
chain is run again. -/
def rerunRun : List WakeAction :=
  [.beginTurn 0 [], .output 0 answer, .endTurn 0] ++ chainOnce
    ++ [.beginTurn 1 ["w"], .output 1 answer, .crash] ++ chainOnce

/-- A turn of the master puts something out behind the summary. -/
def overlapRun : List WakeAction :=
  [.beginTurn 0 [], .start 0 plainWorker ⟨0, false, ""⟩ ReviewState.plainSummary, .summarize 0,
    .output 0 answer, .reach 0 (ReviewState.readAll "r"), .judge 0]

/-- In `rerunRun` the master is told once, and both judgments count. -/
theorem wakes_of_rerunRun : ∃ s, system.run {} rerunRun = some s ∧
    s.settled = ["w", "w"] ∧ s.triggered = ["w"] ∧ s.NoSecondWake ∧ s.NoLostWake := by
  have hrun : (system.run {} rerunRun).map (fun s => (s.settled, s.triggered))
      = some (["w", "w"], ["w"]) := by decide +kernel
  obtain ⟨s, hs, hends⟩ := Option.map_eq_some_iff.mp hrun
  obtain ⟨hsettled, htriggered⟩ := Prod.mk.inj hends
  obtain ⟨hsecond, hlost⟩ := wakes_of_run hs
  exact ⟨s, hs, hsettled, htriggered, hsecond,
    hlost (TransitionSystem.guarded_of_check (by decide +kernel))⟩

/-- **A wake is lost** to a turn that runs while the worker ends. -/
theorem lost_wake : ∃ s, system.run {} overlapRun = some s ∧ s.settled = ["w"] ∧
    s.triggers = [] ∧ ¬s.NoLostWake := by
  have hrun : (system.run {} overlapRun).map (fun s => (s.settled, s.triggers))
      = some (["w"], []) := by decide +kernel
  obtain ⟨s, hs, hends⟩ := Option.map_eq_some_iff.mp hrun
  obtain ⟨hsettled, htriggers⟩ := Prod.mk.inj hends
  refine ⟨s, hs, hsettled, htriggers, fun hlost => ?_⟩
  obtain ⟨w, hw, -⟩ := hlost "w" (by rw [hsettled]; exact List.mem_singleton_self _)
  rw [htriggers] at hw
  exact absurd hw List.not_mem_nil

end WakeState
