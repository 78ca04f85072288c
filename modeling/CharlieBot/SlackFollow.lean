import CharlieBot.SlackWatermark
import CharlieBot.Triggers

/-!
# Following a Slack thread

Once a thread has a session, later messages of it wake the session through one
trigger: every message that is above the watermark cancels the armed trigger,
and arms another one, a little later, that inherits the start of the chain, so
that a trickle of messages is flushed all the same. A mention wakes the session
itself, and cancels what is armed. The listener handles one event after the
other, but it waits in the middle of handling one, and triggers fire,
acknowledgements are saved and sessions are archived meanwhile.

A mention cancels the trigger of messages above it, too, when Slack delivers it
late; while a trigger is replaced none is armed; and the time of a trigger is
counted from a later look at the clock than the rest of the cap was
(`unfollowed`). **Between two events a message that was handled is waited for,
unless a trigger fired, a mention was handled or the session was archived since;
at most one trigger is armed at any time; and a trigger is not later than the
cap of its chain, or the time it is armed at if that is past, by more than the
arming took** (`followed_of_run`).
-/

/-! ## The trigger, and its time -/

namespace SlackFollow

/-- Times are in microseconds. -/
def second : ℤ := 1000000

def followQuietSeconds : ℤ := 45

def followChainCapSeconds : ℤ := 300

def followChainCap : ℤ := followChainCapSeconds * second

/-- The delay of a trigger, in whole seconds. -/
def delaySeconds (start now : ℤ) : ℤ :=
  let fireAt := min (now + followQuietSeconds * second) (start + followChainCap)
  max 0 ((fireAt - now).tdiv second)

/-- **A delay does not pass the cap**, unless the cap is past. -/
theorem delaySeconds_le (start now : ℤ) :
    delaySeconds start now * second ≤ max (start + followChainCap) now - now := by
  unfold delaySeconds followChainCap followChainCapSeconds followQuietSeconds second
  dsimp only
  set rest := min (now + 45 * 1000000) (start + 300 * 1000000) - now with hrest
  have hcap : rest ≤ start + 300 * 1000000 - now := by omega
  by_cases hpos : 0 ≤ rest
  · rw [Int.tdiv_eq_ediv_of_nonneg hpos]
    omega
  · -- the cap is past, and the quotient is rounded towards zero
    have hneg : rest.tdiv 1000000 = -((-rest).tdiv 1000000) := by rw [Int.neg_tdiv, Int.neg_neg]
    rw [hneg, Int.tdiv_eq_ediv_of_nonneg (by omega)]
    omega

/-- A follow trigger's record. -/
structure FollowTrigger where
  id : ℕ
  /-- The start of its chain. -/
  createdAt : ℤ
  fireAt : ℤ
  /-- The oldest message it stands for, which its label names. -/
  floorTs : String
  status : TriggerStatus := .pending
  computedAt : ℤ
  /-- When its time was set. -/
  stampedAt : ℤ
  deriving DecidableEq

namespace FollowTrigger

/-- `t.status == TriggerStatus.PENDING`. -/
def isPending (r : FollowTrigger) : Bool := decide (r.status = .pending)

/-- **The time of a trigger keeps to the cap of its chain**, or to the time it was armed at
if the cap was past, but for what the arming took. -/
def Capped (r : FollowTrigger) : Prop :=
  r.fireAt ≤ max (r.createdAt + followChainCap) r.computedAt + (r.stampedAt - r.computedAt)

end FollowTrigger

/-- The record `create_trigger` writes. -/
def newTrigger (id : ℕ) (start computedAt stampedAt : ℤ) (floorTs : String) : FollowTrigger where
  id := id
  createdAt := start
  fireAt := stampedAt + delaySeconds start computedAt * second
  floorTs := floorTs
  computedAt := computedAt
  stampedAt := stampedAt

theorem newTrigger_capped (id : ℕ) (start computedAt stampedAt : ℤ) (floorTs : String) :
    (newTrigger id start computedAt stampedAt floorTs).Capped := by
  have := delaySeconds_le start computedAt
  show stampedAt + delaySeconds start computedAt * second
    ≤ max (start + followChainCap) computedAt + (stampedAt - computedAt)
  omega

def unreadEligible (allowedUserIds : List String) (messages : List SlackMessage)
    (watermark : WithBot String) : List SlackMessage :=
  messages.filter fun m =>
    SlackWatermark.eligibleThreadMessage allowedUserIds m
      && decide (watermark < (m.ts : WithBot String))

/-! ## The listener -/

/-- What the armed triggers are cancelled for. -/
inductive Goal where
  /-- Another one is armed, for these messages. -/
  | arm (messages : List String) (floorTs : String)
  | consume (mentionTs : String)
  deriving DecidableEq

/-- The floor of the replaced trigger is kept. -/
def Goal.inherit (armed : List FollowTrigger) : Goal → Goal
  | .arm messages floorTs => .arm messages ((armed.head?.map FollowTrigger.floorTs).getD floorTs)
  | .consume mentionTs => .consume mentionTs

inductive Handler where
  /-- Between two events. -/
  | idle
  /-- Messages passed; Slack is asked for the thread's link. -/
  | linking (messages : List String) (floorTs : String)
  /-- Behind a reconnection, Slack is asked for the thread. -/
  | reading (watermark : WithBot String)
  /-- A mention is accepted; Slack is asked for the channel. -/
  | summoned (mentionTs : String)
  /-- The session is there, with the watermark as it was read. -/
  | consuming (mentionTs : String) (watermark : WithBot String)
  /-- The armed triggers are about to be listed. -/
  | listing (goal : Goal)
  /-- They were, and some are still to be cancelled. -/
  | cancelling (goal : Goal) (chainStart : Option ℤ) (todo : List ℕ)
  /-- One was read again and is pending. -/
  | loaded (goal : Goal) (chainStart : Option ℤ) (tid : ℕ) (todo : List ℕ)
  /-- The delay is computed. -/
  | creating (messages : List String) (floorTs : String) (start now : ℤ)
  /-- The record is written. -/
  | saving (trigger : FollowTrigger)
  deriving DecidableEq

/-- Behind the list of the armed triggers: the first one is the chain's. -/
def Handler.listed (goal : Goal) (armed : List FollowTrigger) : Handler :=
  .cancelling (goal.inherit armed) (armed.head?.map FollowTrigger.createdAt)
    (armed.map FollowTrigger.id)

/-- Where a trigger's own task is. -/
inductive FirePhase where
  | waiting
  /-- Its time is there, and its record was pending. -/
  | reloaded
  | woken
  /-- It found the session archived. -/
  | dormant
  | done
  deriving DecidableEq

/-- What the claim of a message on a trigger depends on. -/
inductive Happening where
  /-- Messages above the watermark were handled. -/
  | handled (messages : List String)
  | fired
  | mentioned (mentionTs : String)
  | archived
  deriving DecidableEq

/-- Whether messages were handled. -/
def Happening.isHandled : Happening → Bool
  | .handled _ => true
  | _ => false

end SlackFollow

open SlackFollow SlackWatermark

/-- **The follow triggers of a session, and the listener.** -/
structure FollowState where
  /-- The records, oldest first. -/
  triggers : List FollowTrigger := []
  fires : ℕ → FirePhase := fun _ => .waiting
  handler : Handler := .idle
  /-- Whether the session is active. -/
  active : Bool
  watermark : WithBot String
  /-- The pushes of the last chain, last first. -/
  chain : List ℤ := []
  /-- What happened, last first. -/
  history : List Happening := []

/-- What happens next. -/
inductive FollowAction where
  /-- A message of the thread is delivered. -/
  | message (event : SlackMessage)
  /-- A mention in the thread is delivered. -/
  | mention (ts user : String)
  /-- The listener is connected again. -/
  | backfill
  | replies (thread : List SlackMessage)
  /-- Slack answers with the link. -/
  | permalink
  | slackFails
  /-- The session of a mention is created, pulled back or found, and its metadata read. -/
  | resolve
  /-- The watermark is moved to the mention. -/
  | consume
  /-- The armed triggers are listed. -/
  | list
  /-- The next one is read again. -/
  | load
  | cancel
  /-- None is left to be cancelled. -/
  | finish (now : ℤ)
  /-- The new trigger gets its time. -/
  | create (now : ℤ)
  | land
  | ack (watermark : WithBot String)
  | archive
  | unarchive
  /-- A trigger's time is there, and it reads its record again. -/
  | reload (tid : ℕ)
  | wake (tid : ℕ)
  | fired (tid : ℕ)
  /-- It finds the session archived. -/
  | seeDormant (tid : ℕ)
  /-- It is given up. -/
  | drop (tid : ℕ)

namespace FollowState

def armed (s : FollowState) : List FollowTrigger := s.triggers.filter FollowTrigger.isPending

/-- The state with one record's status written. -/
def setStatus (s : FollowState) (tid : ℕ) (status : TriggerStatus) : FollowState :=
  { s with triggers := s.triggers.map fun r => if r.id = tid then { r with status } else r }

/-- A trigger's task moves on. -/
def setFire (s : FollowState) (tid : ℕ) (p : FirePhase) : FollowState :=
  { s with fires := Function.update s.fires tid p }

def tell (s : FollowState) (h : Happening) : FollowState := { s with history := h :: s.history }

/-- Whether a trigger's record is pending. -/
def isArmed (s : FollowState) (tid : ℕ) : Bool := s.armed.any fun r => decide (r.id = tid)

/-- **One step.** -/
def step (allowedUserIds : List String) (s : FollowState) : FollowAction → Option FollowState
  | .message event =>
    match s.handler with
    | .idle =>
      if eligibleThreadMessage allowedUserIds event = true ∧ s.active = true
          ∧ s.watermark < (event.ts : WithBot String) then
        some { s with handler := .linking [event.ts] event.ts }
      else some s
    | _ => none
  | .mention ts user =>
    match s.handler with
    | .idle => if user ∈ allowedUserIds then some { s with handler := .summoned ts } else some s
    | _ => none
  | .backfill =>
    match s.handler with
    | .idle => if s.active = true then some { s with handler := .reading s.watermark } else some s
    | _ => none
  | .replies thread =>
    match s.handler with
    | .reading watermark =>
      match unreadEligible allowedUserIds thread watermark with
      | [] => some { s with handler := .idle }
      | m :: ms => some { s with handler := .linking ((m :: ms).map SlackMessage.ts) m.ts }
    | _ => none
  | .permalink =>
    match s.handler with
    | .linking messages floorTs => some { s with handler := .listing (.arm messages floorTs) }
    | _ => none
  | .slackFails =>
    match s.handler with
    | .linking _ _ => some { s with handler := .idle }
    | .reading _ => some { s with handler := .idle }
    | .summoned _ => some { s with handler := .idle }
    | _ => none
  | .resolve =>
    match s.handler with
    | .summoned mentionTs =>
      some { s with active := true, handler := .consuming mentionTs s.watermark }
    | _ => none
  | .consume =>
    match s.handler with
    | .consuming mentionTs watermark =>
      some { s with
        watermark := if watermark < (mentionTs : WithBot String) then mentionTs else s.watermark
        handler := .listing (.consume mentionTs) }
    | _ => none
  | .list =>
    match s.handler with
    | .listing goal =>
      some { s with handler := .listed goal s.armed }
    | _ => none
  | .load =>
    match s.handler with
    | .cancelling goal chainStart (tid :: todo) =>
      if s.isArmed tid = true then some { s with handler := .loaded goal chainStart tid todo }
      else some { s with handler := .cancelling goal chainStart todo }
    | _ => none
  | .cancel =>
    match s.handler with
    | .loaded goal chainStart tid todo =>
      some { s.setStatus tid .cancelled with handler := .cancelling goal chainStart todo }
    | _ => none
  | .finish now =>
    match s.handler with
    | .cancelling (.arm messages floorTs) chainStart [] =>
      some { s with
        chain := now :: (if chainStart.isSome then s.chain else [])
        handler := .creating messages floorTs (chainStart.getD now) now }
    | .cancelling (.consume mentionTs) _ [] =>
      some { s.tell (.mentioned mentionTs) with handler := .idle }
    | _ => none
  | .create now =>
    match s.handler with
    | .creating messages floorTs start computedAt =>
      if s.active = true then
        some { s.tell (.handled messages) with
          handler := .saving (newTrigger s.triggers.length start computedAt now floorTs) }
      else some { s with handler := .idle }
    | _ => none
  | .land =>
    match s.handler with
    | .saving trigger => some { s with triggers := s.triggers ++ [trigger], handler := .idle }
    | _ => none
  | .ack watermark => some { s with watermark := watermark }
  | .archive => some { s.tell .archived with active := false }
  | .unarchive => some { s with active := true }
  | .reload tid =>
    if s.fires tid = .waiting ∧ s.isArmed tid = true then some (s.setFire tid .reloaded) else none
  | .wake tid =>
    if s.fires tid = .reloaded then some ((s.setFire tid .woken).tell .fired) else none
  | .fired tid =>
    if s.fires tid = .woken then some ((s.setFire tid .done).setStatus tid .fired) else none
  | .seeDormant tid =>
    if (s.fires tid = .waiting ∨ s.fires tid = .reloaded) ∧ s.isArmed tid = true
        ∧ s.active = false then
      some (s.setFire tid .dormant)
    else none
  | .drop tid =>
    if s.fires tid = .dormant then some ((s.setFire tid .done).setStatus tid .cancelled) else none

/-- The follow triggers of a session as a transition system. -/
def system (allowedUserIds : List String) : TransitionSystem FollowState FollowAction :=
  ⟨step allowedUserIds⟩

/-- The session before anything of its thread was followed. -/
def initial (active : Bool) (watermark : WithBot String) : FollowState := { active, watermark }

/-! ## What holds of it -/

/-- **Messages were handled, and since then nothing happened that takes their claim**: no
trigger fired, no mention was handled, and the session was not archived. -/
def Due (history : List Happening) : Prop :=
  ∃ later messages earlier, history = later ++ .handled messages :: earlier
    ∧ ∀ h ∈ later, h.isHandled = true

/-- **What following a thread is worth.** -/
structure Followed (s : FollowState) : Prop where
  /-- Between two events, messages that are due are waited for. -/
  armed : s.handler = .idle → Due s.history → s.armed ≠ []
  /-- At most one trigger is armed. -/
  once : s.armed.length ≤ 1
  /-- No trigger is later than its chain allows. -/
  capped : ∀ r ∈ s.triggers, r.Capped
  /-- What it calls the start of its chain is its first push. -/
  started : ∀ r ∈ s.armed, s.chain.getLast? = some r.createdAt

/-! ## The claim of a message -/

theorem not_due {h : Happening} (hother : h.isHandled = false) (history : List Happening) :
    ¬ Due (h :: history) := by
  rintro ⟨later, messages, earlier, heq, hlater⟩
  cases later with
  | nil =>
    cases heq
    cases hother
  | cons h' later =>
    cases heq
    rw [hlater h List.mem_cons_self] at hother
    cases hother

/-! ## Records -/

variable {allowedUserIds : List String} {s s' : FollowState}

theorem mem_armed {r : FollowTrigger} : r ∈ s.armed ↔ r ∈ s.triggers ∧ r.status = .pending := by
  rw [armed, List.mem_filter, FollowTrigger.isPending, decide_eq_true_eq]

theorem isArmed_iff {tid : ℕ} : s.isArmed tid = true ↔ ∃ r ∈ s.armed, r.id = tid := by
  rw [isArmed, List.any_eq_true]
  simp only [decide_eq_true_eq]

/-- Behind a status that is not pending, the armed ones are those that were, but for the
one. -/
theorem armed_setStatus {tid : ℕ} {status : TriggerStatus} (hstatus : status ≠ .pending) :
    (s.setStatus tid status).armed = s.armed.filter fun r => decide (r.id ≠ tid) := by
  unfold armed setStatus
  rw [List.filter_map, List.filter_filter]
  have hpred : ∀ r : FollowTrigger,
      (FollowTrigger.isPending ∘ fun r => if r.id = tid then { r with status } else r) r
        = (decide (r.id ≠ tid) && r.isPending) := fun r => by
    by_cases hr : r.id = tid
    · simp [Function.comp, hr, FollowTrigger.isPending, hstatus]
    · simp [Function.comp, hr]
  rw [List.filter_congr fun r _ => hpred r]
  refine (List.map_congr_left fun r hr => ?_).trans (List.map_id _)
  rw [List.mem_filter, Bool.and_eq_true, decide_eq_true_eq] at hr
  exact if_neg hr.2.1

@[simp] theorem length_setStatus (tid : ℕ) (status : TriggerStatus) :
    (s.setStatus tid status).triggers.length = s.triggers.length := List.length_map ..

theorem mem_setStatus {tid : ℕ} {status : TriggerStatus} {r : FollowTrigger}
    (h : r ∈ (s.setStatus tid status).triggers) :
    ∃ r₀ ∈ s.triggers, r.id = r₀.id ∧ (r.Capped ↔ r₀.Capped) := by
  obtain ⟨r₀, hr₀, rfl⟩ := List.mem_map.mp h
  refine ⟨r₀, hr₀, ?_⟩
  split <;> exact ⟨rfl, Iff.rfl⟩

/-! ## One step -/

/-- Whether the listener has taken armed triggers down, or is about to put one up. -/
def midArm : Handler → Bool
  | .cancelling _ _ _ => true
  | .loaded _ _ _ _ => true
  | .creating _ _ _ _ => true
  | .saving _ => true
  | _ => false

/-- **What the listener knows of the armed triggers.** -/
def Knows (s : FollowState) : Handler → Prop
  | .cancelling _ chainStart todo => (∀ r ∈ s.armed, r.id ∈ todo) ∧
      ∀ start, chainStart = some start → s.chain.getLast? = some start
  | .loaded _ chainStart tid todo => (∀ r ∈ s.armed, r.id ∈ tid :: todo) ∧
      ∀ start, chainStart = some start → s.chain.getLast? = some start
  | .creating _ _ start _ => s.armed = [] ∧ s.chain.getLast? = some start
  | .saving trigger => s.armed = [] ∧ trigger.status = .pending
      ∧ trigger.id = s.triggers.length ∧ trigger.Capped
      ∧ s.chain.getLast? = some trigger.createdAt
  | _ => True

/-- **What holds at any time.** -/
structure Inv (s : FollowState) : Prop where
  ids : ∀ r ∈ s.triggers, r.id < s.triggers.length
  once : s.armed.length ≤ 1
  capped : ∀ r ∈ s.triggers, r.Capped
  started : ∀ r ∈ s.armed, s.chain.getLast? = some r.createdAt
  /-- A task that does anything has a record. -/
  fresh : ∀ tid, s.fires tid ≠ .waiting → tid < s.triggers.length
  /-- A trigger that woke the session, or found it archived, took every claim. -/
  spent : ∀ r ∈ s.armed, s.fires r.id ≠ .waiting → s.fires r.id ≠ .reloaded → ¬ Due s.history
  /-- A session that is archived owes nothing. -/
  dormant : s.active = false → ¬ Due s.history
  knows : s.Knows s.handler
  due : Due s.history → midArm s.handler = true ∨ s.armed ≠ []

theorem Inv.followed (h : s.Inv) : s.Followed := by
  refine ⟨fun hidle hdue => ?_, h.once, h.capped, h.started⟩
  rcases h.due hdue with hmid | harmed
  · rw [hidle] at hmid
    cases hmid
  · exact harmed

theorem Inv.initial (active : Bool) (watermark : WithBot String) :
    (FollowState.initial active watermark).Inv := by
  have hnone : ¬ Due [] := fun ⟨later, _, _, heq, _⟩ => by
    cases later <;> cases heq
  exact ⟨fun _ hr => (by cases hr), Nat.zero_le _, fun _ hr => (by cases hr),
    fun _ hr => (by cases hr), fun _ h => absurd rfl h, fun _ hr => (by cases hr),
    fun _ => hnone, trivial, fun hdue => absurd hdue hnone⟩

theorem Inv.turn (h : s.Inv) {p : Handler} (hknows : s.Knows p)
    (hdue : Due s.history → midArm p = true ∨ s.armed ≠ []) : Inv { s with handler := p } where
  ids := h.ids
  once := h.once
  capped := h.capped
  started := h.started
  fresh := h.fresh
  spent := h.spent
  dormant := h.dormant
  knows := by cases p <;> exact hknows
  due := hdue

theorem Inv.tell (h : s.Inv) {e : Happening} (hother : e.isHandled = false) :
    (s.tell e).Inv where
  ids := h.ids
  once := h.once
  capped := h.capped
  started := h.started
  fresh := h.fresh
  spent _ _ _ _ := not_due hother _
  dormant _ := not_due hother _
  knows := h.knows
  due hdue := absurd hdue (not_due hother _)

theorem Inv.setWatermark (h : s.Inv) (watermark : WithBot String) :
    Inv { s with watermark := watermark } :=
  ⟨h.ids, h.once, h.capped, h.started, h.fresh, h.spent, h.dormant, h.knows, h.due⟩

theorem Inv.activate (h : s.Inv) : Inv { s with active := true } :=
  ⟨h.ids, h.once, h.capped, h.started, h.fresh, h.spent, fun hoff => (by cases hoff), h.knows,
    h.due⟩

theorem Inv.deactivate (h : s.Inv) (hnone : ¬ Due s.history) : Inv { s with active := false } :=
  ⟨h.ids, h.once, h.capped, h.started, h.fresh, h.spent, fun _ => hnone, h.knows, h.due⟩

theorem Inv.setFire (h : s.Inv) {tid : ℕ} {p : FirePhase} (htid : tid < s.triggers.length)
    (hspent : p ≠ .reloaded → (∀ r ∈ s.armed, r.id ≠ tid) ∨ ¬ Due s.history) :
    (s.setFire tid p).Inv where
  ids := h.ids
  once := h.once
  capped := h.capped
  started := h.started
  fresh t ht := by
    by_cases heq : t = tid
    · rw [heq]
      exact htid
    · refine h.fresh t ?_
      rwa [← Function.update_of_ne heq p s.fires]
  spent r hr hwaiting hreloaded := by
    change Function.update s.fires tid p r.id ≠ _ at hwaiting hreloaded
    by_cases heq : r.id = tid
    · rw [heq, Function.update_self] at hreloaded
      rcases hspent hreloaded with hgone | hnone
      · exact absurd heq (hgone r hr)
      · exact hnone
    · rw [Function.update_of_ne heq] at hwaiting hreloaded
      exact h.spent r hr hwaiting hreloaded
  dormant := h.dormant
  knows := h.knows
  due := h.due

theorem knows_setStatus {tid : ℕ} {status : TriggerStatus} (hstatus : status ≠ .pending)
    {p : Handler} (h : s.Knows p) : (s.setStatus tid status).Knows p := by
  have hsub : ∀ r ∈ (s.setStatus tid status).armed, r ∈ s.armed := fun r hr => by
    rw [armed_setStatus hstatus] at hr
    exact List.mem_of_mem_filter hr
  have hnil : s.armed = [] → (s.setStatus tid status).armed = [] := fun hnone => by
    rw [armed_setStatus hstatus, hnone, List.filter_nil]
  cases p with
  | cancelling _ _ _ => exact ⟨fun r hr => h.1 r (hsub r hr), h.2⟩
  | loaded _ _ _ _ => exact ⟨fun r hr => h.1 r (hsub r hr), h.2⟩
  | creating _ _ _ _ => exact ⟨hnil h.1, h.2⟩
  | saving trigger =>
    obtain ⟨hnone, hpending, hid, hrest⟩ := h
    exact ⟨hnil hnone, hpending, hid.trans (length_setStatus tid status).symm, hrest⟩
  | _ => trivial

/-- A trigger is written as fired or as cancelled, and what is due has another one, or is
about to get one. -/
theorem Inv.setStatus (h : s.Inv) (tid : ℕ) {status : TriggerStatus} (hstatus : status ≠ .pending)
    (hdue : Due s.history → midArm s.handler = true ∨ ∃ r ∈ s.armed, r.id ≠ tid) :
    (s.setStatus tid status).Inv where
  ids r hr := by
    obtain ⟨r₀, hr₀, hid, -⟩ := mem_setStatus hr
    rw [length_setStatus, hid]
    exact h.ids r₀ hr₀
  once := by
    rw [armed_setStatus hstatus]
    exact (List.length_filter_le ..).trans h.once
  capped r hr := by
    obtain ⟨r₀, hr₀, -, hcapped⟩ := mem_setStatus hr
    exact hcapped.mpr (h.capped r₀ hr₀)
  started r hr := by
    rw [armed_setStatus hstatus] at hr
    exact h.started r (List.mem_of_mem_filter hr)
  fresh t ht := by
    rw [length_setStatus]
    exact h.fresh t ht
  spent r hr := by
    rw [armed_setStatus hstatus] at hr
    exact h.spent r (List.mem_of_mem_filter hr)
  dormant := h.dormant
  knows := knows_setStatus hstatus h.knows
  due hdue' := by
    rcases hdue hdue' with hmid | ⟨r, hr, hne⟩
    · exact .inl hmid
    · refine .inr (List.ne_nil_of_mem (a := r) ?_)
      rw [armed_setStatus hstatus]
      exact List.mem_filter.mpr ⟨hr, decide_eq_true hne⟩

theorem Inv.settle (h : s.Inv) {tid : ℕ} {status : TriggerStatus} (hstatus : status ≠ .pending)
    (hwaiting : s.fires tid ≠ .waiting) (hreloaded : s.fires tid ≠ .reloaded) :
    ((s.setFire tid .done).setStatus tid status).Inv := by
  have hspent : ∀ r ∈ s.armed, r.id = tid → ¬ Due s.history := fun r hr hid =>
    h.spent r hr (hid ▸ hwaiting) (hid ▸ hreloaded)
  have hnone : (∀ r ∈ s.armed, r.id ≠ tid) ∨ ¬ Due s.history := by
    by_cases hgone : ∀ r ∈ s.armed, r.id ≠ tid
    · exact .inl hgone
    · push Not at hgone
      obtain ⟨r, hr, hid⟩ := hgone
      exact .inr (hspent r hr hid)
  refine (h.setFire (h.fresh tid hwaiting) fun _ => hnone).setStatus tid hstatus fun hdue => ?_
  rcases h.due hdue with hmid | harmed
  · exact .inl hmid
  · obtain ⟨r, hr⟩ := List.exists_mem_of_ne_nil _ harmed
    exact .inr ⟨r, hr, fun hid => hspent r hr hid hdue⟩

theorem Inv.land (h : s.Inv) {trigger : FollowTrigger} (hknows : s.Knows (.saving trigger)) :
    Inv { s with triggers := s.triggers ++ [trigger], handler := .idle } := by
  obtain ⟨hnone, hpending, hid, hcapped, hchain⟩ := hknows
  have harmed : FollowState.armed { s with
      triggers := s.triggers ++ [trigger], handler := .idle } = [trigger] := by
    show List.filter _ (s.triggers ++ [trigger]) = [trigger]
    rw [List.filter_append, show s.triggers.filter FollowTrigger.isPending = [] from hnone,
      List.nil_append, List.filter_eq_self]
    intro r hr
    rw [List.mem_singleton] at hr
    subst hr
    exact decide_eq_true hpending
  have hlength : (s.triggers ++ [trigger]).length = s.triggers.length + 1 := by simp
  refine ⟨fun r hr => ?_, ?_, fun r hr => ?_, fun r hr => ?_, fun tid htid => ?_,
    fun r hr hwaiting => ?_, h.dormant, trivial, fun _ => .inr ?_⟩
  · rw [hlength]
    rcases List.mem_append.mp hr with hold | hnew
    · exact Nat.lt_succ_of_lt (h.ids r hold)
    · rw [List.mem_singleton.mp hnew, hid]
      exact Nat.lt_succ_self _
  · rw [harmed]
    exact le_refl _
  · rcases List.mem_append.mp hr with hold | hnew
    · exact h.capped r hold
    · rw [List.mem_singleton.mp hnew]
      exact hcapped
  · rw [harmed, List.mem_singleton] at hr
    rw [hr]
    exact hchain
  · rw [hlength]
    exact Nat.lt_succ_of_lt (h.fresh tid htid)
  · -- no task of the new trigger has done anything
    rw [harmed, List.mem_singleton] at hr
    have hlt := h.fresh r.id hwaiting
    rw [hr, hid] at hlt
    exact absurd hlt (Nat.lt_irrefl _)
  · rw [harmed]
    exact List.cons_ne_nil _ _

theorem Inv.list (h : s.Inv) (goal : Goal) : Inv { s with handler := .listed goal s.armed } := by
  refine h.turn ⟨fun r hr => List.mem_map_of_mem hr, fun start hstart => ?_⟩ fun _ => .inl rfl
  obtain ⟨r, hr, rfl⟩ := Option.map_eq_some_iff.mp hstart
  exact h.started r (List.mem_of_mem_head? hr)

theorem Inv.load (h : s.Inv) {goal : Goal} {chainStart : Option ℤ} {tid : ℕ} {todo : List ℕ}
    (hhandler : s.handler = .cancelling goal chainStart (tid :: todo)) :
    Inv { s with handler := .loaded goal chainStart tid todo } ∧
    (s.isArmed tid ≠ true → Inv { s with handler := .cancelling goal chainStart todo }) := by
  have hknows := h.knows
  rw [hhandler] at hknows
  refine ⟨h.turn hknows fun _ => .inl rfl, fun hgone => ?_⟩
  refine h.turn ⟨fun r hr => ?_, hknows.2⟩ fun _ => .inl rfl
  rcases List.mem_cons.mp (hknows.1 r hr) with hid | hrest
  · exact absurd (isArmed_iff.mpr ⟨r, hr, hid⟩) hgone
  · exact hrest

theorem Inv.cancel (h : s.Inv) {goal : Goal} {chainStart : Option ℤ} {tid : ℕ} {todo : List ℕ}
    (hhandler : s.handler = .loaded goal chainStart tid todo) :
    Inv { s.setStatus tid .cancelled with handler := .cancelling goal chainStart todo } := by
  have hknows := h.knows
  rw [hhandler] at hknows
  have hstatus : TriggerStatus.cancelled ≠ .pending := fun heq => (by cases heq)
  have hset := h.setStatus tid hstatus fun _ => .inl (by rw [hhandler]; rfl)
  refine hset.turn ⟨fun r hr => ?_, hknows.2⟩ fun _ => .inl rfl
  rw [armed_setStatus hstatus, List.mem_filter, decide_eq_true_eq] at hr
  rcases List.mem_cons.mp (hknows.1 r hr.1) with hid | hrest
  · exact absurd hid hr.2
  · exact hrest

theorem Inv.compute (h : s.Inv) {goal : Goal} {chainStart : Option ℤ}
    (hhandler : s.handler = .cancelling goal chainStart []) (messages : List String)
    (floorTs : String) (now : ℤ) :
    Inv { s with
      chain := now :: (if chainStart.isSome then s.chain else [])
      handler := .creating messages floorTs (chainStart.getD now) now } := by
  have hknows := h.knows
  rw [hhandler] at hknows
  have hnone : s.armed = [] := List.eq_nil_iff_forall_not_mem.mpr fun r hr =>
    absurd (hknows.1 r hr) List.not_mem_nil
  have hchain : (now :: (if chainStart.isSome then s.chain else [])).getLast?
      = some (chainStart.getD now) := by
    cases chainStart with
    | none => rfl
    | some start =>
      rw [Option.isSome_some, if_pos rfl, List.getLast?_cons, hknows.2 start rfl]
  have hgone : ∀ r, r ∉ s.armed := fun r hr => by
    rw [hnone] at hr
    cases hr
  exact ⟨h.ids, h.once, h.capped, fun r hr => absurd hr (hgone r), h.fresh, h.spent, h.dormant,
    ⟨hnone, hchain⟩, fun _ => .inl rfl⟩

theorem Inv.create (h : s.Inv) {messages : List String} {floorTs : String}
    {start computedAt : ℤ} (hhandler : s.handler = .creating messages floorTs start computedAt)
    (hactive : s.active = true) (now : ℤ) :
    Inv { s.tell (.handled messages) with
      handler := .saving (newTrigger s.triggers.length start computedAt now floorTs) } := by
  have hknows := h.knows
  rw [hhandler] at hknows
  obtain ⟨hnone, hchain⟩ := hknows
  have hgone : ∀ r, r ∉ s.armed := fun r hr => by
    rw [hnone] at hr
    cases hr
  refine ⟨h.ids, h.once, h.capped, h.started, h.fresh, fun r hr => absurd hr (hgone r),
    fun hoff => ?_, ⟨hnone, rfl, rfl, newTrigger_capped .., hchain⟩, fun _ => .inl rfl⟩
  cases hactive.symm.trans hoff

theorem Inv.early (h : s.Inv) {p : Handler} (hold : midArm s.handler = false)
    (hknows : s.Knows p) : Inv { s with handler := p } :=
  h.turn hknows fun hdue => (h.due hdue).elim
    (fun hmid => absurd (hold.symm.trans hmid) Bool.false_ne_true) .inr

theorem Inv.step (h : s.Inv) {a : FollowAction} (hstep : s.step allowedUserIds a = some s') :
    s'.Inv := by
  cases a with
  | message event =>
    simp only [FollowState.step] at hstep
    split at hstep
    · next hidle =>
      split at hstep
      · cases hstep
        exact h.early (by rw [hidle]; rfl) trivial
      · cases hstep
        exact h
    · cases hstep
  | mention ts user =>
    simp only [FollowState.step] at hstep
    split at hstep
    · next hidle =>
      split at hstep
      · cases hstep
        exact h.early (by rw [hidle]; rfl) trivial
      · cases hstep
        exact h
    · cases hstep
  | backfill =>
    simp only [FollowState.step] at hstep
    split at hstep
    · next hidle =>
      split at hstep
      · cases hstep
        exact h.early (by rw [hidle]; rfl) trivial
      · cases hstep
        exact h
    · cases hstep
  | replies thread =>
    simp only [FollowState.step] at hstep
    split at hstep
    · next hreading =>
      split at hstep
      · cases hstep
        exact h.early (by rw [hreading]; rfl) trivial
      · cases hstep
        exact h.early (by rw [hreading]; rfl) trivial
    · cases hstep
  | permalink =>
    simp only [FollowState.step] at hstep
    split at hstep
    · next hlinking =>
      cases hstep
      exact h.early (by rw [hlinking]; rfl) trivial
    · cases hstep
  | slackFails =>
    simp only [FollowState.step] at hstep
    split at hstep
    · next hhandler =>
      cases hstep
      exact h.early (by rw [hhandler]; rfl) trivial
    · next hhandler =>
      cases hstep
      exact h.early (by rw [hhandler]; rfl) trivial
    · next hhandler =>
      cases hstep
      exact h.early (by rw [hhandler]; rfl) trivial
    · cases hstep
  | resolve =>
    simp only [FollowState.step] at hstep
    split at hstep
    · next hhandler =>
      cases hstep
      exact h.activate.early (by rw [hhandler]; rfl) trivial
    · cases hstep
  | consume =>
    simp only [FollowState.step] at hstep
    split at hstep
    · next mentionTs watermark hhandler =>
      cases hstep
      have hmoved := h.setWatermark
        (if watermark < (mentionTs : WithBot String) then mentionTs else s.watermark)
      exact hmoved.early (p := .listing (.consume mentionTs)) (by rw [hhandler]; rfl) trivial
    · cases hstep
  | list =>
    simp only [FollowState.step] at hstep
    split at hstep
    · next goal hhandler =>
      cases hstep
      exact h.list goal
    · cases hstep
  | load =>
    simp only [FollowState.step] at hstep
    split at hstep
    · next goal chainStart tid todo hhandler =>
      split at hstep
      · cases hstep
        exact (h.load hhandler).1
      · next hgone =>
        cases hstep
        exact (h.load hhandler).2 hgone
    · cases hstep
  | cancel =>
    simp only [FollowState.step] at hstep
    split at hstep
    · next goal chainStart tid todo hhandler =>
      cases hstep
      exact h.cancel hhandler
    · cases hstep
  | finish now =>
    simp only [FollowState.step] at hstep
    split at hstep
    · next messages floorTs chainStart hhandler =>
      cases hstep
      exact h.compute hhandler messages floorTs now
    · next mentionTs chainStart hhandler =>
      cases hstep
      exact (h.tell rfl).turn trivial fun hdue => absurd hdue (not_due rfl _)
    · cases hstep
  | create now =>
    simp only [FollowState.step] at hstep
    split at hstep
    · next messages floorTs start computedAt hhandler =>
      split at hstep
      · next hactive =>
        cases hstep
        exact h.create hhandler hactive now
      · next hactive =>
        cases hstep
        exact h.turn trivial fun hdue => absurd hdue (h.dormant (Bool.eq_false_iff.mpr hactive))
    · cases hstep
  | land =>
    simp only [FollowState.step] at hstep
    split at hstep
    · next trigger hhandler =>
      cases hstep
      refine h.land ?_
      rw [← hhandler]
      exact h.knows
    · cases hstep
  | ack watermark =>
    cases hstep
    exact h.setWatermark watermark
  | archive =>
    cases hstep
    exact (h.tell rfl).deactivate (not_due rfl _)
  | unarchive =>
    cases hstep
    exact h.activate
  | reload tid =>
    simp only [FollowState.step] at hstep
    split at hstep
    · next hready =>
      cases hstep
      obtain ⟨r, hr, hid⟩ := isArmed_iff.mp hready.2
      exact h.setFire (hid ▸ h.ids r (mem_armed.mp hr).1) fun hne => absurd rfl hne
    · cases hstep
  | wake tid =>
    simp only [FollowState.step] at hstep
    split at hstep
    · next hready =>
      cases hstep
      have htid : tid < s.triggers.length :=
        h.fresh tid (by rw [hready]; exact fun heq => nomatch heq)
      exact (h.tell (e := .fired) rfl).setFire htid fun _ => .inr (not_due rfl _)
    · cases hstep
  | fired tid =>
    simp only [FollowState.step] at hstep
    split at hstep
    · next hwoken =>
      cases hstep
      exact h.settle (fun heq => nomatch heq) (by rw [hwoken]; exact fun heq => nomatch heq)
        (by rw [hwoken]; exact fun heq => nomatch heq)
    · cases hstep
  | seeDormant tid =>
    simp only [FollowState.step] at hstep
    split at hstep
    · next hsees =>
      cases hstep
      obtain ⟨r, hr, hid⟩ := isArmed_iff.mp hsees.2.1
      exact h.setFire (hid ▸ h.ids r (mem_armed.mp hr).1) fun _ => .inr (h.dormant hsees.2.2)
    · cases hstep
  | drop tid =>
    simp only [FollowState.step] at hstep
    split at hstep
    · next hdormant =>
      cases hstep
      exact h.settle (fun heq => nomatch heq) (by rw [hdormant]; exact fun heq => nomatch heq)
        (by rw [hdormant]; exact fun heq => nomatch heq)
    · cases hstep

/-! ## Runs -/

/-- **Along every run**, in whatever order messages and mentions are delivered, triggers fire,
acknowledgements are saved and the session is archived: a message that was handled is waited
for between two events, unless a trigger fired, a mention was handled or the session was
archived since; at most one trigger is armed; and no trigger is later than the cap of its
chain allows. -/
theorem followed_of_run (active : Bool) (watermark : WithBot String) {as : List FollowAction}
    (h : (system allowedUserIds).run (.initial active watermark) as = some s) : s.Followed := by
  have hinv : s.Inv := (system allowedUserIds).run_invariant
    (fun _ _ _ hi hstep => hi.step hstep) (Inv.initial active watermark) as h
  exact hinv.followed

/-- A message is handled, with nothing armed. -/
def followUp (ts : String) (now later : ℤ) : List FollowAction :=
  [.message { ts, user := some "U1" }, .permalink, .list, .finish now, .create later, .land]

/-- A message is handled, up to the cancelling of the armed trigger. -/
def takenDown (ts : String) : List FollowAction :=
  [.message { ts, user := some "U1" }, .permalink, .list, .load, .cancel]

/-- A mention is handled, with one trigger armed. -/
def mentioned (ts : String) : List FollowAction :=
  [.mention ts "U1", .resolve, .consume, .list, .load, .cancel, .finish 0]

/-- Two messages, one after the other, and one trigger is armed. -/
theorem followed_of_run_push : ∃ s, (system ["U1"]).run (.initial true ("100" : String))
      (followUp "120" 0 0 ++ takenDown "130" ++ [.finish 10, .create 10, .land]) = some s
    ∧ s.armed.length = 1 ∧ s.Followed := by
  have hrun : ((system ["U1"]).run (.initial true ("100" : String))
      (followUp "120" 0 0 ++ takenDown "130" ++ [.finish 10, .create 10, .land])).map
        (fun s => s.armed.length) = some 1 := by decide +kernel
  obtain ⟨s, hs, harmed⟩ := Option.map_eq_some_iff.mp hrun
  exact ⟨s, hs, harmed, followed_of_run true ("100" : String) hs⟩

/-- **Where a message is not waited for, and where a trigger is late.** A mention that is
delivered late cancels the trigger of a message above it; while a trigger is replaced none is
armed; the trigger of a session that is archived is given up; and a trigger whose cap is
forty seconds away is armed forty seconds from when it is written. -/
theorem unfollowed :
    (∃ s, (system ["U1"]).run (.initial true ("100" : String))
        (followUp "120" 0 0 ++ mentioned "110") = some s
      ∧ s.handler = .idle ∧ s.active = true ∧ s.watermark < (("120" : String) : WithBot String)
      ∧ .handled ["120"] ∈ s.history ∧ .fired ∉ s.history ∧ s.armed = []) ∧
    (∃ s, (system ["U1"]).run (.initial true ("100" : String))
        (followUp "120" 0 0 ++ takenDown "130") = some s
      ∧ s.active = true ∧ s.history = [.handled ["120"]] ∧ s.armed = []) ∧
    (∃ s, (system ["U1"]).run (.initial true ("100" : String))
        (followUp "120" 0 0 ++ [.archive, .seeDormant 0, .drop 0]) = some s
      ∧ s.handler = .idle ∧ .handled ["120"] ∈ s.history ∧ .fired ∉ s.history ∧ s.armed = []) ∧
    ∃ s, (system ["U1"]).run (.initial true ("100" : String))
        (followUp "120" 0 0 ++ takenDown "130"
          ++ [.finish (260 * second), .create (261 * second), .land]) = some s
      ∧ ∃ r ∈ s.armed, r.createdAt + followChainCap < r.fireAt := by
  refine ⟨?_, ?_, ?_, ?_⟩
  · have hrun : ((system ["U1"]).run (.initial true ("100" : String))
        (followUp "120" 0 0 ++ mentioned "110")).map (fun s => decide (s.handler = .idle
          ∧ s.active = true ∧ s.watermark < (("120" : String) : WithBot String)
          ∧ .handled ["120"] ∈ s.history ∧ .fired ∉ s.history ∧ s.armed = [])) = some true := by
      decide +kernel
    obtain ⟨s, hs, hall⟩ := Option.map_eq_some_iff.mp hrun
    exact ⟨s, hs, of_decide_eq_true hall⟩
  · have hrun : ((system ["U1"]).run (.initial true ("100" : String))
        (followUp "120" 0 0 ++ takenDown "130")).map (fun s => decide (s.active = true
          ∧ s.history = [.handled ["120"]] ∧ s.armed = [])) = some true := by decide +kernel
    obtain ⟨s, hs, hall⟩ := Option.map_eq_some_iff.mp hrun
    exact ⟨s, hs, of_decide_eq_true hall⟩
  · have hrun : ((system ["U1"]).run (.initial true ("100" : String))
        (followUp "120" 0 0 ++ [.archive, .seeDormant 0, .drop 0])).map (fun s =>
          decide (s.handler = .idle ∧ .handled ["120"] ∈ s.history ∧ .fired ∉ s.history
            ∧ s.armed = [])) = some true := by decide +kernel
    obtain ⟨s, hs, hall⟩ := Option.map_eq_some_iff.mp hrun
    exact ⟨s, hs, of_decide_eq_true hall⟩
  · have hrun : ((system ["U1"]).run (.initial true ("100" : String))
        (followUp "120" 0 0 ++ takenDown "130"
          ++ [.finish (260 * second), .create (261 * second), .land])).map (fun s =>
          decide (∃ r ∈ s.armed, r.createdAt + followChainCap < r.fireAt)) = some true := by
      decide +kernel
    obtain ⟨s, hs, hall⟩ := Option.map_eq_some_iff.mp hrun
    exact ⟨s, hs, of_decide_eq_true hall⟩

end FollowState
