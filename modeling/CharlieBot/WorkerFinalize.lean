import CharlieBot.FinalizeEffects
import CharlieBot.Lib.Transition

/-!
# A worker's summary is sent once

The chain that finalizes a worker may be started any number of times: when
the worker ends, and again after every restart. It looks for the summary
before it sends one, and does both under a lock. What it looks at is the chat
of the worker's own session; what it writes to is the chat at the end of that
session's successors. When a session is succeeded these are two chats, and a
summary that was redirected is not found again (`sent_twice`).

Along every run in which **no summary was redirected when one is looked for**,
and in which no chain ends with nothing written, every thread has at most one
summary over all sessions, and a thread that was finalized has exactly one
(`summarized_of_guarded`).
-/

def successorChainHopLimit : ℕ := 100

def improveIterationPrefix : String := "Iterative improvement — iteration"

/-! ## Chains -/

/-- Where `_persist_worker_summary_once` is, and within it the delivery. -/
inductive SendPhase where
  /-- It waits for the lock. -/
  | acquiring
  /-- It has the lock, and looks for the summary. -/
  | checking
  /-- There was none; the session is marked as unread. -/
  | marking
  /-- It reads the session's own metadata, after so many retries. -/
  | resolving (tries : ℕ)
  /-- It read a session's metadata, and follows its pointer. -/
  | walking (tries : ℕ) (current : String) (successor : Option String) (hops : ℕ)
  /-- It came to the last session, and waits for that session's lock. -/
  | atTail (tries : ℕ) (tail : String)

def SendPhase.holdsLock : SendPhase → Bool
  | .acquiring => false
  | _ => true

/-- The summary was looked for. -/
def SendPhase.checked : SendPhase → Bool
  | .acquiring => false
  | .checking => false
  | _ => true

inductive FinalizePhase where
  /-- The worktree is cleaned up. -/
  | cleaning (skipNotify : Bool)
  /-- The session's metadata and the thread's events are read. -/
  | preparing
  | sending (fallback : Bool) (event : Event) (phase : SendPhase)
  /-- The summary is there; the other effects follow. -/
  | following

/-- **A finalize chain.** -/
structure FinalizeChain where
  thread : ThreadMetadata
  outcome : WorkerRunOutcome
  phase : FinalizePhase

/-- What a write into a chat comes to. -/
inductive PersistResult where
  | persisted
  /-- The line is there, and what follows it raised. -/
  | raisedBehind (error timestamp : String)
  /-- The session's metadata is gone. -/
  | gone

/-- **Sessions, their chats, and the chains in progress.** -/
structure FinalizeState where
  chat : String → List Event := fun _ => []
  /-- `successor_session_id`. -/
  successor : String → Option String := fun _ => none
  archived : String → Bool := fun _ => false
  chains : ℕ → Option FinalizeChain := fun _ => none
  /-- `_summary_send_locks`: of every thread, the chain that has its lock. -/
  locks : String → Option ℕ := fun _ => none
  /-- The threads of which a chain came to its end. -/
  finalized : String → Bool := fun _ => false

inductive FinalizeAction where
  /-- Any other event is appended to a chat. -/
  | append (sessionId : String) (event : Event)
  /-- `elone_session`, at the write of the parent. -/
  | elone (parentId childId : String)
  | setArchived (sessionId : String) (archived : Bool)
  /-- `_run_finalize_effects`. -/
  | finalize (c : ℕ) (thread : ThreadMetadata) (outcome : WorkerRunOutcome) (skipNotify : Bool)
  /-- `_complete_finalize_effects`, with the chat as it was at some time. -/
  | reconcile (c : ℕ) (thread : ThreadMetadata) (seen : ℕ) (sessionThreads : List ThreadMetadata)
  | cleaned (c : ℕ)
  /-- `_broadcast_completion`, up to the send. -/
  | prepared (c : ℕ) (read : SummaryRead)
  | acquire (c : ℕ)
  /-- `finalize_summary_present`. -/
  | check (c : ℕ)
  | marked (c : ℕ)
  | resolveOrigin (c : ℕ) (found : Bool)
  | hop (c : ℕ) (found : Bool)
  | persist (c : ℕ) (result : PersistResult)
  /-- The other effects are through. -/
  | finish (c : ℕ)
  /-- The step at hand raises. -/
  | fail (c : ℕ) (error timestamp : String)
  | restart

namespace FinalizeState

def appendEvent (s : FinalizeState) (sessionId : String) (event : Event) : FinalizeState :=
  { s with chat := Function.update s.chat sessionId (s.chat sessionId ++ [event]) }

def setChain (s : FinalizeState) (c : ℕ) (chain : Option FinalizeChain) : FinalizeState :=
  { s with chains := Function.update s.chains c chain }

def setLock (s : FinalizeState) (threadId : String) (holder : Option ℕ) : FinalizeState :=
  { s with locks := Function.update s.locks threadId holder }

/-- A chain came to its end. -/
def setFinalized (s : FinalizeState) (threadId : String) : FinalizeState :=
  { s with finalized := Function.update s.finalized threadId true }

def goto (s : FinalizeState) (c : ℕ) (chain : FinalizeChain) (phase : FinalizePhase) :
    FinalizeState := s.setChain c (some { chain with phase := phase })

/-- `_persist_worker_summary_once` returns. -/
def sent (s : FinalizeState) (c : ℕ) (chain : FinalizeChain) (fallback : Bool) : FinalizeState :=
  if fallback then
    ((s.setChain c none).setLock chain.thread.id none).setFinalized chain.thread.id
  else (s.goto c chain .following).setLock chain.thread.id none

/-- The step at hand raises: the fallback is sent, or nothing is. -/
def raise (s : FinalizeState) (c : ℕ) (chain : FinalizeChain) (error timestamp : String) :
    FinalizeState :=
  let fallback := FinalizePhase.sending true
    (fallbackEvent chain.thread chain.outcome error timestamp) .acquiring
  match chain.phase with
  | .cleaning _ => s.setChain c none
  | .preparing => s.goto c chain fallback
  | .following => s.goto c chain fallback
  | .sending false _ .acquiring => s.goto c chain fallback
  | .sending false _ _ => (s.goto c chain fallback).setLock chain.thread.id none
  | .sending true _ .acquiring => (s.setChain c none).setFinalized chain.thread.id
  | .sending true _ _ =>
    ((s.setChain c none).setLock chain.thread.id none).setFinalized chain.thread.id

/-- The event, as it is written into the last session. -/
def stamped (origin tail : String) (event : Event) : Event :=
  if tail = origin then event else event.set "origin_session_id" (.str origin)

/-- One step, where `home` is the session of every thread. -/
def step (home : String → String) (s : FinalizeState) : FinalizeAction → Option FinalizeState
  | .append sessionId event =>
    if event.hasType ET.workerSummary && !(event.get "status").isText "running" then none
    else some (s.appendEvent sessionId event)
  | .elone parentId childId =>
    some { s with
      successor := Function.update s.successor parentId (some childId)
      archived := Function.update s.archived parentId true }
  | .setArchived sessionId archived =>
    some { s with archived := Function.update s.archived sessionId archived }
  | .finalize c thread outcome skipNotify =>
    match s.chains c with
    | some _ => none
    | none =>
      if thread.sessionId = home thread.id then
        some (s.setChain c (some ⟨thread, outcome, .cleaning skipNotify⟩))
      else none
  | .reconcile c thread seen sessionThreads =>
    match s.chains c with
    | some _ => none
    | none =>
      if s.archived thread.sessionId || !thread.status.isTerminal
          || improveIterationPrefix.toList.isPrefixOf thread.description.toList
          || !effectsMaybeMissing thread ((s.chat thread.sessionId).take seen) sessionThreads then
        some s
      else if thread.sessionId = home thread.id then
        some (s.setChain c
          (some ⟨thread, ⟨thread.exitCode.getD (-1), false, ""⟩, .cleaning false⟩))
      else none
  | .cleaned c =>
    match s.chains c with
    | some chain =>
      match chain.phase with
      | .cleaning true => some (s.setChain c none)
      | .cleaning false => some (s.goto c chain .preparing)
      | _ => none
    | none => none
  | .prepared c read =>
    match s.chains c with
    | some chain =>
      match chain.phase with
      | .preparing =>
        some (s.goto c chain
          (.sending false (completionEvent chain.thread chain.outcome read) .acquiring))
      | _ => none
    | none => none
  | .acquire c =>
    match s.chains c with
    | some chain =>
      match chain.phase with
      | .sending fallback event .acquiring =>
        match s.locks chain.thread.id with
        | some _ => none
        | none =>
          some ((s.goto c chain (.sending fallback event .checking)).setLock chain.thread.id
            (some c))
      | _ => none
    | none => none
  | .check c =>
    match s.chains c with
    | some chain =>
      match chain.phase with
      | .sending fallback event .checking =>
        if terminalSummaryPresent (s.chat chain.thread.sessionId) chain.thread.id then
          some (s.sent c chain fallback)
        else some (s.goto c chain (.sending fallback event .marking))
      | _ => none
    | none => none
  | .marked c =>
    match s.chains c with
    | some chain =>
      match chain.phase with
      | .sending fallback event .marking =>
        some (s.goto c chain (.sending fallback event (.resolving 0)))
      | _ => none
    | none => none
  | .resolveOrigin c found =>
    match s.chains c with
    | some chain =>
      match chain.phase with
      | .sending fallback event (.resolving tries) =>
        -- without the session's own metadata nothing is written, and nothing raised
        if found then
          some (s.goto c chain (.sending fallback event
            (.walking tries chain.thread.sessionId (s.successor chain.thread.sessionId) 0)))
        else some (s.sent c chain fallback)
      | _ => none
    | none => none
  | .hop c found =>
    match s.chains c with
    | some chain =>
      match chain.phase with
      | .sending fallback event (.walking tries current none _) =>
        some (s.goto c chain (.sending fallback event (.atTail tries current)))
      | .sending fallback event (.walking tries current (some next) hops) =>
        -- at the limit the walk raises
        if successorChainHopLimit ≤ hops then none
        else if found then
          some (s.goto c chain (.sending fallback event
            (.walking tries next (s.successor next) (hops + 1))))
        else some (s.goto c chain (.sending fallback event (.atTail tries current)))
      | _ => none
    | none => none
  | .persist c result =>
    match s.chains c with
    | some chain =>
      match chain.phase with
      | .sending fallback event (.atTail tries tail) =>
        match result with
        | .gone => some (s.sent c chain fallback)
        | .persisted =>
          if (s.successor tail).isSome then
            -- a successor came in meanwhile: from the start, or raise
            if successorChainHopLimit ≤ tries then none
            else some (s.goto c chain (.sending fallback event (.resolving (tries + 1))))
          else
            some ((s.appendEvent tail (stamped chain.thread.sessionId tail event)).sent c chain
              fallback)
        | .raisedBehind error timestamp =>
          if (s.successor tail).isSome then none
          else
            some ((s.appendEvent tail (stamped chain.thread.sessionId tail event)).raise c chain
              error timestamp)
      | _ => none
    | none => none
  | .finish c =>
    match s.chains c with
    | some chain =>
      match chain.phase with
      | .following => some ((s.setChain c none).setFinalized chain.thread.id)
      | _ => none
    | none => none
  | .fail c error timestamp =>
    match s.chains c with
    | some chain => some (s.raise c chain error timestamp)
    | none => none
  | .restart => some { s with chains := fun _ => none, locks := fun _ => none }

def system (home : String → String) : TransitionSystem FinalizeState FinalizeAction := ⟨step home⟩

/-- A summary of a thread stands at a place of a chat. -/
def SummaryAt (s : FinalizeState) (threadId : String) (place : String × ℕ) : Prop :=
  ∃ event, (s.chat place.1)[place.2]? = some event
    ∧ isTerminalWorkerSummary event threadId = true

/-- **A thread is summarized once**: over all chats it has at most one summary,
and exactly one when a chain came to its end. -/
def SummarizedOnce (s : FinalizeState) (threadId : String) : Prop :=
  (∀ p q, s.SummaryAt threadId p → s.SummaryAt threadId q → p = q)
    ∧ (s.finalized threadId = true → ∃! p, s.SummaryAt threadId p)

/-- **No summary is lost sight of**: when a summary is looked for it is in the
thread's own session or nowhere, no delivery comes back with nothing written,
and a fallback fails only where a summary is. -/
def Guard (s : FinalizeState) : FinalizeAction → Prop
  | .check c => ∀ chain, s.chains c = some chain →
      ∀ p, s.SummaryAt chain.thread.id p → p.1 = chain.thread.sessionId
  | .resolveOrigin _ found => found = true
  | .persist _ result => result ≠ .gone
  | .fail c _ _ => ∀ chain event phase, s.chains c = some chain →
      chain.phase = .sending true event phase → ∃ p, s.SummaryAt chain.thread.id p
  | _ => True

theorem setChain_chains_self (s : FinalizeState) (c : ℕ) (next : Option FinalizeChain) :
    (s.setChain c next).chains c = next := Function.update_self ..

theorem setChain_chains_of_ne (s : FinalizeState) {c d : ℕ} (hd : d ≠ c)
    (next : Option FinalizeChain) : (s.setChain c next).chains d = s.chains d :=
  Function.update_of_ne hd ..

theorem setLock_locks_self (s : FinalizeState) (t : String) (holder : Option ℕ) :
    (s.setLock t holder).locks t = holder := Function.update_self ..

theorem setLock_locks_of_ne (s : FinalizeState) {t u : String} (hu : u ≠ t)
    (holder : Option ℕ) : (s.setLock t holder).locks u = s.locks u :=
  Function.update_of_ne hu ..

theorem setFinalized_of_ne (s : FinalizeState) {t u : String} (hu : u ≠ t) :
    (s.setFinalized t).finalized u = s.finalized u := Function.update_of_ne hu ..

/-! ## Summaries -/

theorem summaryAt_appendEvent (s : FinalizeState) (sessionId : String) (event : Event)
    (t : String) (p : String × ℕ) :
    (s.appendEvent sessionId event).SummaryAt t p ↔
      s.SummaryAt t p ∨ p = (sessionId, (s.chat sessionId).length)
        ∧ isTerminalWorkerSummary event t = true := by
  obtain ⟨sid, i⟩ := p
  simp only [SummaryAt, appendEvent, Prod.mk.injEq]
  by_cases hsid : sid = sessionId
  · subst hsid
    simp only [Function.update_self]
    rcases Nat.lt_trichotomy i (s.chat sid).length with hlt | heq | hgt
    · rw [List.getElem?_append_left hlt]
      simp [Nat.ne_of_lt hlt]
    · subst heq
      simp
    · have hnone : (s.chat sid ++ [event])[i]? = none := by
        rw [List.getElem?_eq_none_iff, List.length_append, List.length_singleton]
        exact hgt
      have hnone' : (s.chat sid)[i]? = none := List.getElem?_eq_none (Nat.le_of_lt hgt)
      simp [hnone, hnone', Nat.ne_of_gt hgt]
  · simp [hsid]

theorem isTerminal_eq_false {event : Event}
    (h : ¬(event.hasType ET.workerSummary && !(event.get "status").isText "running") = true)
    (t : String) : isTerminalWorkerSummary event t = false := by
  refine eq_false_of_ne_true fun hterminal => h ?_
  simp only [isTerminalWorkerSummary, Bool.and_eq_true] at hterminal
  rw [hterminal.1.1, hterminal.2]
  rfl

theorem isTerminal_stamped (origin tail : String) (event : Event) (t : String) :
    isTerminalWorkerSummary (stamped origin tail event) t = isTerminalWorkerSummary event t := by
  unfold stamped
  split
  · rfl
  · rw [isTerminalWorkerSummary, isTerminalWorkerSummary, Event.hasType, Event.hasType,
      Dict.get_set_of_ne _ _ (by decide), Dict.get_set_of_ne _ _ (by decide),
      Dict.get_set_of_ne _ _ (by decide)]

theorem terminalSummaryPresent_eq_true_iff (s : FinalizeState) (sessionId t : String) :
    terminalSummaryPresent (s.chat sessionId) t = true ↔ ∃ i, s.SummaryAt t (sessionId, i) := by
  constructor
  · intro h
    obtain ⟨event, hmem, hevent⟩ := List.any_eq_true.mp h
    obtain ⟨i, hi⟩ := List.mem_iff_getElem?.mp hmem
    exact ⟨i, event, hi, hevent⟩
  · rintro ⟨i, event, hi, hevent⟩
    exact List.any_eq_true.mpr ⟨event, List.mem_of_getElem? hi, hevent⟩

/-! ## The invariant -/

/-- **What holds of a chain.** -/
structure ChainInv (s : FinalizeState) (c : ℕ) (chain : FinalizeChain) : Prop where
  /-- What it sends is a summary of its thread. -/
  event : ∀ fallback event phase, chain.phase = .sending fallback event phase →
    isTerminalWorkerSummary event chain.thread.id = true
  /-- While it is past the lock the lock is its own. -/
  locked : ∀ fallback event phase, chain.phase = .sending fallback event phase →
    phase.holdsLock = true → s.locks chain.thread.id = some c
  /-- Past the check there is no summary. -/
  none : ∀ fallback event phase, chain.phase = .sending fallback event phase →
    phase.checked = true → ∀ p, ¬s.SummaryAt chain.thread.id p
  /-- Past the send there is one. -/
  some : chain.phase = .following → ∃ p, s.SummaryAt chain.thread.id p

/-- **What holds of all of them.** -/
structure Inv (s : FinalizeState) : Prop where
  most : ∀ t p q, s.SummaryAt t p → s.SummaryAt t q → p = q
  done : ∀ t, s.finalized t = true → ∃ p, s.SummaryAt t p
  chains : ∀ c chain, s.chains c = some chain → s.ChainInv c chain

/-- What holds of all of them, but of one chain. -/
structure InvExcept (s : FinalizeState) (c : ℕ) : Prop where
  most : ∀ t p q, s.SummaryAt t p → s.SummaryAt t q → p = q
  done : ∀ t, s.finalized t = true → ∃ p, s.SummaryAt t p
  chains : ∀ d chain, d ≠ c → s.chains d = some chain → s.ChainInv d chain

theorem Inv.summarizedOnce {s : FinalizeState} (h : s.Inv) (t : String) : s.SummarizedOnce t := by
  refine ⟨h.most t, fun hdone => ?_⟩
  obtain ⟨p, hp⟩ := h.done t hdone
  exact ⟨p, hp, fun q hq => h.most t q p hq hp⟩

theorem Inv.init : Inv {} := by
  have hnone : ∀ t p, ¬SummaryAt {} t p := by
    rintro t p ⟨event, hevent, -⟩
    cases hevent
  exact ⟨fun t p _ hp => absurd hp (hnone t p), fun t h => (by cases h), fun c chain h => (by cases h)⟩

variable {s : FinalizeState} {c : ℕ} {chain : FinalizeChain}

theorem Inv.except (h : s.Inv) (c : ℕ) : s.InvExcept c :=
  ⟨h.most, h.done, fun d chain _ => h.chains d chain⟩

theorem ChainInv.of_idle (hidle : ∀ fallback event phase,
    chain.phase ≠ .sending fallback event phase) (hfollowing : chain.phase ≠ .following) :
    s.ChainInv c chain where
  event fallback event phase hphase := absurd hphase (hidle fallback event phase)
  locked fallback event phase hphase := absurd hphase (hidle fallback event phase)
  none fallback event phase hphase := absurd hphase (hidle fallback event phase)
  some hphase := absurd hphase hfollowing

theorem ChainInv.of_acquiring {fallback : Bool} {event : Event}
    (hphase : chain.phase = .sending fallback event .acquiring)
    (hevent : isTerminalWorkerSummary event chain.thread.id = true) : s.ChainInv c chain where
  event fallback' event' phase' hphase' := by
    rw [hphase] at hphase'
    cases hphase'
    exact hevent
  locked fallback' event' phase' hphase' hholds := by
    rw [hphase] at hphase'
    cases hphase'
    cases hholds
  none fallback' event' phase' hphase' hchecked := by
    rw [hphase] at hphase'
    cases hphase'
    cases hchecked
  some hphase' := by
    rw [hphase] at hphase'
    cases hphase'

theorem ChainInv.of_following (hphase : chain.phase = .following)
    (hsome : ∃ p, s.SummaryAt chain.thread.id p) : s.ChainInv c chain where
  event fallback' event' phase' hphase' := by
    rw [hphase] at hphase'
    cases hphase'
  locked fallback' event' phase' hphase' := by
    rw [hphase] at hphase'
    cases hphase'
  none fallback' event' phase' hphase' := by
    rw [hphase] at hphase'
    cases hphase'
  some _ := hsome

theorem ChainInv.goto {fallback : Bool} {event : Event} {phase next : SendPhase}
    (h : s.ChainInv c chain) (hphase : chain.phase = .sending fallback event phase)
    (hholds : phase.holdsLock = true)
    (hnone : next.checked = true → ∀ p, ¬s.SummaryAt chain.thread.id p) :
    s.ChainInv c { chain with phase := .sending fallback event next } where
  event fallback' event' phase' hphase' := by
    cases hphase'
    exact h.event _ _ _ hphase
  locked fallback' event' phase' hphase' _ := by
    cases hphase'
    exact h.locked _ _ _ hphase hholds
  none fallback' event' phase' hphase' hchecked := by
    cases hphase'
    exact hnone hchecked
  some hphase' := by cases hphase'

theorem InvExcept.setChain (h : s.InvExcept c) {next : Option FinalizeChain}
    (hnext : ∀ chain, next = some chain → s.ChainInv c chain) : (s.setChain c next).Inv where
  most := h.most
  done := h.done
  chains d chain hchain := by
    by_cases hd : d = c
    · subst hd
      rw [setChain_chains_self] at hchain
      exact ⟨(hnext chain hchain).event, (hnext chain hchain).locked, (hnext chain hchain).none,
        (hnext chain hchain).some⟩
    · rw [setChain_chains_of_ne s hd] at hchain
      have hinv := h.chains d chain hd hchain
      exact ⟨hinv.event, hinv.locked, hinv.none, hinv.some⟩

theorem InvExcept.leave {t : String} (h : s.InvExcept c) (hlock : s.locks t = some c)
    {next : Option FinalizeChain} (hnext : ∀ chain, next = some chain → s.ChainInv c chain)
    (hfree : ∀ chain fallback event phase, next = some chain →
      chain.phase = .sending fallback event phase → phase.holdsLock = false) :
    ((s.setChain c next).setLock t none).Inv := by
  have hinv := h.setChain hnext
  refine ⟨hinv.most, hinv.done, fun d chain hchain => ?_⟩
  have hchain : (s.setChain c next).chains d = Option.some chain := hchain
  have hd := hinv.chains d chain hchain
  refine ⟨hd.event, fun fallback event phase hphase hholds => ?_, hd.none, hd.some⟩
  have hlocked : s.locks chain.thread.id = Option.some d := hd.locked fallback event phase hphase hholds
  have hne : chain.thread.id ≠ t := fun heq => by
    -- the lock was this chain's, which has left it
    rw [heq, hlock] at hlocked
    cases hlocked
    rw [setChain_chains_self] at hchain
    rw [hfree chain fallback event phase hchain hphase] at hholds
    cases hholds
  exact (setLock_locks_of_ne _ hne _).trans hlocked

theorem Inv.setFinalized (h : s.Inv) {t : String} (hsome : ∃ p, s.SummaryAt t p) :
    (s.setFinalized t).Inv where
  most := h.most
  done u hu := by
    by_cases heq : u = t
    · rw [heq]
      exact hsome
    · rw [setFinalized_of_ne s heq] at hu
      exact h.done u hu
  chains d chain hchain := by
    have hinv := h.chains d chain hchain
    exact ⟨hinv.event, hinv.locked, hinv.none, hinv.some⟩

theorem InvExcept.sent (h : s.InvExcept c) (hlock : s.locks chain.thread.id = some c)
    (hsome : ∃ p, s.SummaryAt chain.thread.id p) (fallback : Bool) :
    (s.sent c chain fallback).Inv := by
  cases fallback with
  | true =>
    have hinv := @InvExcept.leave _ _ _ h hlock none (fun _ h => by cases h) (fun _ _ _ _ h => by cases h)
    exact hinv.setFinalized hsome
  | false =>
    refine h.leave hlock (fun next hnext => ?_) (fun next fallback event phase hnext hphase => ?_)
    · cases hnext
      exact ChainInv.of_following rfl hsome
    · cases hnext
      cases hphase

/-- **A step raises**: where it was the fallback's, with a summary there. -/
theorem InvExcept.raise (h : s.InvExcept c)
    (hlock : ∀ fallback event phase, chain.phase = .sending fallback event phase →
      phase.holdsLock = true → s.locks chain.thread.id = some c)
    (hsome : ∀ event phase, chain.phase = .sending true event phase →
      ∃ p, s.SummaryAt chain.thread.id p) (error timestamp : String) :
    (s.raise c chain error timestamp).Inv := by
  have hfallback : ∀ next, some { chain with
        phase := .sending true (fallbackEvent chain.thread chain.outcome error timestamp)
          .acquiring } = some next → s.ChainInv c next := by
    intro next hnext
    cases hnext
    exact ChainInv.of_acquiring rfl (isTerminal_fallbackEvent ..)
  have hwaits : ∀ (next : FinalizeChain) (fallback : Bool) (event : Event) (phase : SendPhase),
      some { chain with
        phase := .sending true (fallbackEvent chain.thread chain.outcome error timestamp)
          .acquiring } = some next →
      next.phase = .sending fallback event phase → phase.holdsLock = false := by
    intro next fallback event phase hnext hphase
    cases hnext
    cases hphase
    rfl
  have hgone : ∀ next, (none : Option FinalizeChain) = some next → s.ChainInv c next :=
    fun _ h => by cases h
  unfold FinalizeState.raise
  split
  · exact h.setChain hgone
  · exact h.setChain hfallback
  · exact h.setChain hfallback
  · exact h.setChain hfallback
  · next hacquiring hphase =>
    refine h.leave (hlock _ _ _ hphase ?_) hfallback hwaits
    unfold SendPhase.holdsLock
    split
    · exact (hacquiring rfl).elim
    · rfl
  · next hphase => exact (h.setChain hgone).setFinalized (hsome _ _ hphase)
  · next hacquiring hphase =>
    refine Inv.setFinalized (h.leave (hlock _ _ _ hphase ?_) hgone (fun _ _ _ _ h => by cases h))
      (hsome _ _ hphase)
    unfold SendPhase.holdsLock
    split
    · exact (hacquiring rfl).elim
    · rfl

theorem Inv.appendOther (h : s.Inv) (sessionId : String) {event : Event}
    (hother : ∀ t, isTerminalWorkerSummary event t = false) :
    (s.appendEvent sessionId event).Inv := by
  have hsame : ∀ t p, (s.appendEvent sessionId event).SummaryAt t p ↔ s.SummaryAt t p := by
    intro t p
    rw [summaryAt_appendEvent, hother t]
    simp
  refine ⟨fun t p q hp hq => h.most t p q ((hsame t p).mp hp) ((hsame t q).mp hq),
    fun t ht => ?_, fun d chain hchain => ?_⟩
  · obtain ⟨p, hp⟩ := h.done t ht
    exact ⟨p, (hsame t p).mpr hp⟩
  · have hinv := h.chains d chain hchain
    refine ⟨hinv.event, hinv.locked, fun fallback event phase hphase hchecked p hp => ?_,
      fun hphase => ?_⟩
    · exact hinv.none fallback event phase hphase hchecked p ((hsame _ p).mp hp)
    · obtain ⟨p, hp⟩ := hinv.some hphase
      exact ⟨p, (hsame _ p).mpr hp⟩

/-- **The summary is written**: past the check it is the only one, and no other
chain of the thread is past the lock. -/
theorem Inv.write (h : s.Inv) (hchain : s.chains c = some chain) {fallback : Bool}
    {event : Event} {phase : SendPhase} (hphase : chain.phase = .sending fallback event phase)
    (hholds : phase.holdsLock = true) (hchecked : phase.checked = true) (tail : String)
    {written : Event} (hwritten : isTerminalWorkerSummary written chain.thread.id = true) :
    (s.appendEvent tail written).InvExcept c
      ∧ ∃ p, (s.appendEvent tail written).SummaryAt chain.thread.id p := by
  have hnone := (h.chains c chain hchain).none fallback event phase hphase hchecked
  have hlock := (h.chains c chain hchain).locked fallback event phase hphase hholds
  have hmono : ∀ t p, s.SummaryAt t p → (s.appendEvent tail written).SummaryAt t p :=
    fun t p hp => (summaryAt_appendEvent s tail written t p).mpr (Or.inl hp)
  have hother : ∀ t p, t ≠ chain.thread.id → (s.appendEvent tail written).SummaryAt t p →
      s.SummaryAt t p := by
    intro t p hne hp
    rcases (summaryAt_appendEvent s tail written t p).mp hp with hp | ⟨-, hterminal⟩
    · exact hp
    · exact absurd (eq_of_isTerminalWorkerSummary hterminal hwritten) hne
  have hown : ∀ p, (s.appendEvent tail written).SummaryAt chain.thread.id p →
      p = (tail, (s.chat tail).length) := by
    intro p hp
    rcases (summaryAt_appendEvent s tail written _ p).mp hp with hp | ⟨hp, -⟩
    · exact absurd hp (hnone p)
    · exact hp
  refine ⟨⟨fun t p q hp hq => ?_, fun t ht => ?_, fun d other hd hother' => ?_⟩,
    (tail, (s.chat tail).length),
    (summaryAt_appendEvent s tail written _ _).mpr (Or.inr ⟨rfl, hwritten⟩)⟩
  · by_cases ht : t = chain.thread.id
    · subst ht
      rw [hown p hp, hown q hq]
    · exact h.most t p q (hother t p ht hp) (hother t q ht hq)
  · obtain ⟨p, hp⟩ := h.done t ht
    exact ⟨p, hmono t p hp⟩
  · have hinv := h.chains d other hother'
    refine ⟨hinv.event, hinv.locked, fun fallback' event' phase' hphase' hchecked' p hp => ?_,
      fun hphase' => ?_⟩
    · refine hinv.none fallback' event' phase' hphase' hchecked' p (hother _ p ?_ hp)
      intro heq
      have hlock' := hinv.locked fallback' event' phase' hphase'
        (by cases phase' <;> first | rfl | cases hchecked')
      rw [heq, hlock] at hlock'
      cases hlock'
      exact hd rfl
    · obtain ⟨p, hp⟩ := hinv.some hphase'
      exact ⟨p, hmono _ p hp⟩

theorem Inv.goto (h : s.Inv) (hchain : s.chains c = some chain) {fallback : Bool}
    {event : Event} {phase next : SendPhase}
    (hphase : chain.phase = .sending fallback event phase) (hholds : phase.holdsLock = true)
    (hnone : next.checked = true → ∀ p, ¬s.SummaryAt chain.thread.id p) :
    (s.goto c chain (.sending fallback event next)).Inv := by
  refine (h.except c).setChain fun chain' hchain' => ?_
  cases hchain'
  exact (h.chains c chain hchain).goto hphase hholds hnone

theorem Inv.gotoChecked (h : s.Inv) (hchain : s.chains c = some chain) {fallback : Bool}
    {event : Event} {phase next : SendPhase}
    (hphase : chain.phase = .sending fallback event phase) (hholds : phase.holdsLock = true)
    (hchecked : phase.checked = true) :
    (s.goto c chain (.sending fallback event next)).Inv :=
  h.goto hchain hphase hholds fun _ => (h.chains c chain hchain).none _ _ _ hphase hchecked

theorem Inv.acquire (h : s.Inv) (hchain : s.chains c = some chain) {fallback : Bool}
    {event : Event} (hphase : chain.phase = .sending fallback event .acquiring)
    (hfree : s.locks chain.thread.id = none) :
    ((s.goto c chain (.sending fallback event .checking)).setLock chain.thread.id
      (some c)).Inv := by
  have hevent := (h.chains c chain hchain).event _ _ _ hphase
  refine ⟨h.most, h.done, fun d other hother => ?_⟩
  by_cases hd : d = c
  · subst hd
    have hother : (s.setChain d _).chains d = some other := hother
    rw [setChain_chains_self] at hother
    cases hother
    refine ⟨fun _ _ _ hphase' => ?_, fun _ _ _ _ _ => setLock_locks_self _ _ _,
      fun _ _ _ hphase' hchecked => ?_, fun hphase' => ?_⟩
    · cases hphase'
      exact hevent
    · cases hphase'
      cases hchecked
    · cases hphase'
  · have hother : (s.setChain c _).chains d = some other := hother
    rw [setChain_chains_of_ne s hd] at hother
    have hinv := h.chains d other hother
    refine ⟨hinv.event, fun fallback' event' phase' hphase' hholds => ?_, hinv.none, hinv.some⟩
    have hlocked := hinv.locked fallback' event' phase' hphase' hholds
    have hne : other.thread.id ≠ chain.thread.id := fun heq => by
      rw [heq, hfree] at hlocked
      cases hlocked
    exact (setLock_locks_of_ne _ hne _).trans hlocked

theorem Inv.setSessions (h : s.Inv) (successor : String → Option String)
    (archived : String → Bool) :
    Inv { s with successor := successor, archived := archived } := by
  refine ⟨h.most, h.done, fun d chain hchain => ?_⟩
  have hinv := h.chains d chain hchain
  exact ⟨hinv.event, hinv.locked, hinv.none, hinv.some⟩

theorem Inv.restart (h : s.Inv) : Inv { s with chains := fun _ => none, locks := fun _ => none } :=
  ⟨h.most, h.done, fun _ _ hchain => by cases hchain⟩

theorem Inv.start (h : s.Inv) (c : ℕ) (thread : ThreadMetadata) (outcome : WorkerRunOutcome)
    (skipNotify : Bool) :
    (s.setChain c (some ⟨thread, outcome, .cleaning skipNotify⟩)).Inv := by
  refine (h.except c).setChain fun chain hchain => ?_
  cases hchain
  exact ChainInv.of_idle (fun _ _ _ h => by cases h) (fun h => by cases h)

/-- **One step that loses sight of no summary.** -/
theorem Inv.step {home : String → String} {t : FinalizeState} {a : FinalizeAction} (h : s.Inv)
    (hguard : s.Guard a) (hstep : FinalizeState.step home s a = some t) : t.Inv := by
  cases a with
  | append sessionId event =>
    simp only [FinalizeState.step] at hstep
    split at hstep
    · cases hstep
    · next hother =>
      cases hstep
      exact h.appendOther sessionId (isTerminal_eq_false hother)
  | elone parentId childId =>
    cases hstep
    exact h.setSessions _ _
  | setArchived sessionId archived =>
    cases hstep
    exact h.setSessions _ _
  | finalize c thread outcome skipNotify =>
    simp only [FinalizeState.step] at hstep
    split at hstep
    · cases hstep
    · split at hstep
      · cases hstep
        exact h.start c thread outcome skipNotify
      · cases hstep
  | reconcile c thread seen sessionThreads =>
    simp only [FinalizeState.step] at hstep
    split at hstep
    · cases hstep
    · split at hstep
      · cases hstep
        exact h
      · split at hstep
        · cases hstep
          exact h.start c _ _ _
        · cases hstep
  | cleaned c =>
    simp only [FinalizeState.step] at hstep
    split at hstep
    · split at hstep
      · cases hstep
        exact (h.except c).setChain fun _ hnext => by cases hnext
      · cases hstep
        refine (h.except c).setChain fun next hnext => ?_
        cases hnext
        exact ChainInv.of_idle (fun _ _ _ h => by cases h) (fun h => by cases h)
      · cases hstep
    · cases hstep
  | prepared c read =>
    simp only [FinalizeState.step] at hstep
    split at hstep
    · split at hstep
      · cases hstep
        refine (h.except c).setChain fun next hnext => ?_
        cases hnext
        exact ChainInv.of_acquiring rfl (isTerminal_completionEvent ..)
      · cases hstep
    · cases hstep
  | acquire c =>
    simp only [FinalizeState.step] at hstep
    split at hstep
    · next chain hchain =>
      split at hstep
      · next fallback event hphase =>
        split at hstep
        · cases hstep
        · next hfree =>
          cases hstep
          exact h.acquire hchain hphase hfree
      · cases hstep
    · cases hstep
  | check c =>
    simp only [FinalizeState.step] at hstep
    split at hstep
    · next chain hchain =>
      split at hstep
      · next fallback event hphase =>
        have hlock := (h.chains c chain hchain).locked _ _ _ hphase rfl
        split at hstep
        · next hpresent =>
          cases hstep
          obtain ⟨i, hi⟩ := (terminalSummaryPresent_eq_true_iff s _ _).mp hpresent
          exact (h.except c).sent hlock ⟨_, hi⟩ fallback
        · next habsent =>
          cases hstep
          refine h.goto hchain hphase rfl fun _ p hp => habsent ?_
          -- the summary is in the thread's own session, where it would be found
          have hsession := hguard chain hchain p hp
          refine (terminalSummaryPresent_eq_true_iff s _ _).mpr ⟨p.2, ?_⟩
          rw [← hsession]
          exact hp
      · cases hstep
    · cases hstep
  | marked c =>
    simp only [FinalizeState.step] at hstep
    split at hstep
    · next chain hchain =>
      split at hstep
      · next fallback event hphase =>
        cases hstep
        exact h.gotoChecked hchain hphase rfl rfl
      · cases hstep
    · cases hstep
  | resolveOrigin c found =>
    have hfound : found = true := hguard
    subst hfound
    simp only [FinalizeState.step] at hstep
    split at hstep
    · next chain hchain =>
      split at hstep
      · next fallback event tries hphase =>
        cases hstep
        exact h.gotoChecked hchain hphase rfl rfl
      · cases hstep
    · cases hstep
  | hop c found =>
    simp only [FinalizeState.step] at hstep
    split at hstep
    · next chain hchain =>
      split at hstep
      · next fallback event tries current hops hphase =>
        cases hstep
        exact h.gotoChecked hchain hphase rfl rfl
      · next fallback event tries current next hops hphase =>
        split at hstep
        · cases hstep
        · split at hstep
          · cases hstep
            exact h.gotoChecked hchain hphase rfl rfl
          · cases hstep
            exact h.gotoChecked hchain hphase rfl rfl
      · cases hstep
    · cases hstep
  | persist c result =>
    simp only [FinalizeState.step] at hstep
    split at hstep
    · next chain hchain =>
      split at hstep
      · next fallback event tries tail hphase =>
        have hinv := h.chains c chain hchain
        have hlock := hinv.locked _ _ _ hphase rfl
        have hwrite := h.write hchain hphase rfl rfl tail
          ((isTerminal_stamped chain.thread.sessionId tail event _).trans
            (hinv.event _ _ _ hphase))
        split at hstep
        · exact absurd rfl hguard
        · split at hstep
          · split at hstep
            · cases hstep
            · cases hstep
              exact h.gotoChecked hchain hphase rfl rfl
          · cases hstep
            exact hwrite.1.sent hlock hwrite.2 fallback
        · split at hstep
          · cases hstep
          · cases hstep
            exact hwrite.1.raise (fun _ _ _ _ _ => hlock) (fun _ _ _ => hwrite.2) _ _
      · cases hstep
    · cases hstep
  | finish c =>
    simp only [FinalizeState.step] at hstep
    split at hstep
    · next chain hchain =>
      split at hstep
      · next hphase =>
        cases hstep
        have hsome := (h.chains c chain hchain).some hphase
        exact ((h.except c).setChain fun _ hnext => by cases hnext).setFinalized hsome
      · cases hstep
    · cases hstep
  | fail c error timestamp =>
    simp only [FinalizeState.step] at hstep
    split at hstep
    · next chain hchain =>
      cases hstep
      exact (h.except c).raise (h.chains c chain hchain).locked
        (fun event phase hphase => hguard chain event phase hchain hphase) error timestamp
    · cases hstep
  | restart =>
    cases hstep
    exact h.restart

/-- **Every thread is summarized once**, along every run from nothing that loses
sight of no summary. -/
theorem summarized_of_guarded (home : String → String) {as : List FinalizeAction}
    {t : FinalizeState} (hguard : (system home).Guarded Guard {} as)
    (hrun : (system home).run {} as = some t) (threadId : String) : t.SummarizedOnce threadId :=
  ((system home).run_invariant_of_guarded (fun _ _ _ h hG hstep => h.step hG hstep) Inv.init
    hguard hrun).summarizedOnce threadId

/-- A chain runs until its summary is in the chat of the last session. -/
def untilPersisted (hops : ℕ) : List FinalizeAction :=
  [.finalize 0 { id := "t", sessionId := "s" } ⟨0, false, ""⟩ false, .cleaned 0,
    .prepared 0 ⟨false, none, "", "now"⟩, .acquire 0, .check 0, .marked 0, .resolveOrigin 0 true]
    ++ List.replicate (hops + 1) (.hop 0 true) ++ [.persist 0 .persisted]

/-- A later step raises, and the fallback finds the summary; then the session is
succeeded. -/
theorem summarized_of_guarded_fallback : ∃ s, (system fun _ => "s").run {} (untilPersisted 0
      ++ [.fail 0 "error" "now", .acquire 0, .check 0, .elone "s" "child"]) = some s
    ∧ s.finalized "t" = true ∧ s.SummarizedOnce "t" := by
  have hguarded : (system fun _ => "s").Guarded Guard {} (untilPersisted 0
      ++ [.fail 0 "error" "now", .acquire 0, .check 0, .elone "s" "child"]) := by
    refine TransitionSystem.guarded_append ?_ fun t ht => ?_
    · refine ⟨trivial, fun _ h₁ => ⟨trivial, fun _ h₂ => ⟨trivial, fun _ h₃ => ⟨trivial,
        fun _ h₄ => ⟨?_, fun _ _ => ⟨trivial, fun _ _ => ⟨rfl, fun _ _ => ⟨trivial, fun _ _ =>
          ⟨fun h => (by cases h), fun _ _ => trivial⟩⟩⟩⟩⟩⟩⟩⟩⟩
      -- the chats are still empty
      cases h₁
      cases h₂
      cases h₃
      cases h₄
      rintro chain - p ⟨event, hevent, -⟩
      cases hevent
    · cases ht
      refine ⟨fun chain event phase hchain hphase => ?_, fun _ h₁ => ⟨trivial, fun _ h₂ =>
        ⟨fun chain hchain p hp => ?_, fun _ _ => ⟨trivial, fun _ _ => trivial⟩⟩⟩⟩
      · cases hchain
        cases hphase
      · cases h₁
        cases h₂
        cases hchain
        rcases (summaryAt_appendEvent {} "s" _ _ p).mp hp with ⟨event, hevent, -⟩ | ⟨hp, -⟩
        · cases hevent
        · rw [hp]
  exact ⟨_, rfl, rfl, summarized_of_guarded _ hguarded rfl "t"⟩

/-- **A summary is sent twice.** The session was succeeded before its worker
ended: the summary is redirected, a later step raises, and the fallback does not
find it. -/
theorem sent_twice : ∃ s, (system fun _ => "s").run {} (.elone "s" "child" :: untilPersisted 1
      ++ [.fail 0 "error" "now", .acquire 0, .check 0, .marked 0, .resolveOrigin 0 true,
        .hop 0 true, .hop 0 true, .persist 0 .persisted]) = some s
    ∧ s.finalized "t" = true ∧ ¬s.SummarizedOnce "t" := by
  refine ⟨_, rfl, rfl, fun h => ?_⟩
  have heq := h.1 ("child", 0) ("child", 1) ⟨_, rfl, ?_⟩ ⟨_, rfl, ?_⟩
  · cases heq
  · exact (isTerminal_stamped "s" "child" _ _).trans (isTerminal_completionEvent ..)
  · exact (isTerminal_stamped "s" "child" _ _).trans (isTerminal_fallbackEvent ..)

end FinalizeState
