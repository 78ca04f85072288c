import CharlieBot.Lib.Transition
import Mathlib.Data.List.Count
import Mathlib.Order.Basic

/-!
# A tab's own messages and their echo

A tab shows a message as it sends it, and the server sends it the message
again, as it sends it every user message of the session. The echo is to be
skipped, and for that the tab has one flag: it is set when the tab sends,
cleared when the send fails, and cleared by the next user message that
arrives, which is skipped. Nothing in the message is looked at.

So what is skipped is whatever user message comes first. Two messages that are
sent before the first echo show the second one twice, and a message from
another tab that comes ahead of the echo is never shown (`message_swallowed`).
Every user message is shown exactly once along the runs in which **a user
message arrives behind a send, with no other arrival or failure between them,
exactly when it is the tab's own**, and no slash command is reported as failed
whose message arrived already (`shownOnce_of_run`). A slash command shows its
message when it is answered, and not at all when it failed.

What the server sends is taken to arrive exactly once and in order, over
however many sockets; `CharlieBot.SocketDelivery` says when it does.
-/

/-! ## The tab -/

inductive SendKind where
  /-- `sendMessage`. -/
  | message
  /-- `compactContext`. -/
  | compact
  /-- `executeSlashCommand`. -/
  | slash
  deriving DecidableEq, Repr

/-- Whether the message is shown as it is sent. -/
def SendKind.isOptimistic : SendKind → Bool
  | slash => false
  | _ => true

/-- What became of a request. -/
inductive SendStatus where
  | posted
  | succeeded
  | failed
  deriving DecidableEq, Repr

structure OwnSend where
  kind : SendKind
  status : SendStatus := .posted
  deriving DecidableEq, Repr

/-- Whether the tab shows the message by itself, now or when the request is
answered. -/
def OwnSend.showsItself (send : OwnSend) : Bool :=
  send.kind.isOptimistic || send.status != .failed

/-- How often the tab has shown the message by itself. -/
def OwnSend.shown (send : OwnSend) : ℕ :=
  if send.kind.isOptimistic || send.status == .succeeded then 1 else 0

inductive ChatMessage where
  /-- A user message the tab sent, by the number of the send. -/
  | own (k : ℕ)
  /-- A user message from elsewhere. -/
  | foreign
  /-- A message of another role. -/
  | other
  deriving DecidableEq, Repr

/-- `msg.role === 'user'`. -/
def ChatMessage.isUser : ChatMessage → Bool
  | other => false
  | _ => true

inductive Bubble where
  /-- One the tab put there itself, by the number of the send. -/
  | own (k : ℕ)
  /-- One for a message that arrived, by its number in the chat. -/
  | committed (n : ℕ)
  deriving DecidableEq, Repr

/-- What moves the flag. -/
inductive EchoMark where
  | start
  | failure
  | arrival
  deriving DecidableEq, Repr

/-- **A tab and its chat.** -/
structure EchoTab where
  pendingUserMsg : Bool := false
  shown : List Bubble := []
  sends : List OwnSend := []
  /-- The messages of the session, in the order they are broadcast. -/
  chat : List ChatMessage := []
  /-- How many of them arrived. -/
  arrived : ℕ := 0
  connected : Bool := true
  /-- The latest of the tab's sends, its failures, and the arrivals of user
  messages. -/
  latest : Option EchoMark := none
  deriving DecidableEq, Repr

inductive EchoAction where
  | send (kind : SendKind)
  /-- The server persists a send's message. -/
  | accept (k : ℕ)
  /-- A user message comes from elsewhere. -/
  | foreign
  /-- A message of another role comes. -/
  | other
  /-- The next message reaches the tab. -/
  | arrive
  | succeed (k : ℕ)
  | fail (k : ℕ)
  | loseSocket
  | connectWS
  deriving DecidableEq, Repr

namespace EchoTab

variable (s : EchoTab)

/-- The tab sends: the flag is set. -/
def send (kind : SendKind) : EchoTab :=
  { s with
    pendingUserMsg := true, sends := s.sends ++ [{ kind }], latest := some .start
    shown := if kind.isOptimistic then s.shown ++ [.own s.sends.length] else s.shown }

/-- `_commitMessage`, of the next message. -/
def commitMessage (msg : ChatMessage) : EchoTab :=
  let s := { s with
    arrived := s.arrived + 1, latest := if msg.isUser then some .arrival else s.latest }
  if msg.isUser && s.pendingUserMsg then { s with pendingUserMsg := false }
  else { s with shown := s.shown ++ [.committed (s.arrived - 1)] }

/-- A request is answered. -/
def succeed (k : ℕ) (send : OwnSend) : EchoTab :=
  { s with
    sends := s.sends.set k { send with status := .succeeded }
    shown := if send.kind.isOptimistic then s.shown else s.shown ++ [.own k] }

/-- A request fails: the flag is cleared. -/
def fail (k : ℕ) (send : OwnSend) : EchoTab :=
  { s with
    pendingUserMsg := false, sends := s.sends.set k { send with status := .failed },
    latest := some .failure }

/-- A request that is not answered. -/
def posted (k : ℕ) : Option OwnSend := s.sends[k]?.filter fun send => send.status == .posted

def step : EchoAction → Option EchoTab
  | .send kind => some (s.send kind)
  | .accept k =>
    if k < s.sends.length ∧ .own k ∉ s.chat then some { s with chat := s.chat ++ [.own k] }
    else none
  | .foreign => some { s with chat := s.chat ++ [.foreign] }
  | .other => some { s with chat := s.chat ++ [.other] }
  | .arrive => if s.connected then s.chat[s.arrived]?.map s.commitMessage else none
  | .succeed k => (s.posted k).map fun send => s.succeed k send
  | .fail k => (s.posted k).map fun send => s.fail k send
  | .loseSocket => some { s with connected := false }
  | .connectWS => some { s with connected := true }

/-- **The tab and its chat as a transition system.** -/
def system : TransitionSystem EchoTab EchoAction := ⟨step⟩

/-! ## Shown exactly once -/

/-- How many bubbles a message of the chat has. -/
def bubbles (n : ℕ) : ℕ :=
  s.shown.count (.committed n) +
    match s.chat[n]? with
    | some (.own k) => s.shown.count (.own k)
    | _ => 0

/-- Every message arrived, and every request was answered. -/
def AtRest : Prop :=
  s.arrived = s.chat.length ∧ ∀ send ∈ s.sends, send.status ≠ .posted

/-- **Every user message is shown exactly once**: never twice, and at rest not
missing. -/
def ShownOnce : Prop :=
  ∀ n msg, s.chat[n]? = some msg → msg.isUser = true →
    s.bubbles n ≤ 1 ∧ (s.AtRest → s.bubbles n = 1)

/-- Whether the tab shows a message by itself. -/
def showsItself : ChatMessage → Bool
  | .own k => (s.sends[k]?.map OwnSend.showsItself).getD false
  | _ => false

/-- **What a step has to meet**: a user message arrives right behind a send,
but for what is no send, failure or arrival, exactly when the tab shows it by
itself; and a slash command does not fail whose message arrived. -/
def Meets : EchoAction → Prop
  | .arrive => ∀ msg ∈ s.chat[s.arrived]?, msg.isUser = true →
      (s.showsItself msg = true ↔ s.latest = some .start)
  | .fail k => ∀ send ∈ s.sends[k]?, send.kind.isOptimistic = false →
      .own k ∉ s.chat.take s.arrived
  | _ => True

instance (a : EchoAction) : Decidable (s.Meets a) := by
  cases a <;> unfold Meets <;> infer_instance

/-! ## The invariant -/

/-- How many bubbles a message of the chat got by arriving. -/
def committedBubbles (n : ℕ) : ℕ :=
  if n < s.arrived ∧ s.showsItself (s.chat.getD n .other) = false then 1 else 0

/-- **What holds of a tab.** -/
structure Inv : Prop where
  flag : s.pendingUserMsg = true ↔ s.latest = some .start
  arrived_le : s.arrived ≤ s.chat.length
  sent : ∀ k, .own k ∈ s.chat → k < s.sends.length
  own : ∀ k, s.shown.count (.own k) = (s.sends[k]?.map OwnSend.shown).getD 0
  committed : ∀ n, s.shown.count (.committed n) = s.committedBubbles n

variable {s} {t : EchoTab}

theorem Inv.start : Inv {} where
  flag := by decide
  arrived_le := Nat.le_refl 0
  sent k h := absurd h List.not_mem_nil
  own k := rfl
  committed n := rfl

theorem OwnSend.shown_le (send : OwnSend) : send.shown ≤ 1 := by
  unfold OwnSend.shown
  split <;> omega

theorem OwnSend.shown_of_answered {send : OwnSend} (h : send.status ≠ .posted) :
    send.shown = if send.showsItself then 1 else 0 := by
  obtain ⟨kind, status⟩ := send
  cases kind <;> cases status <;> first | rfl | exact absurd rfl h

theorem OwnSend.shown_of_not_showsItself {send : OwnSend} (h : send.showsItself = false) :
    send.shown = 0 := by
  obtain ⟨kind, status⟩ := send
  cases kind <;> cases status <;> first | rfl | cases h

/-- **What the invariant says of the bubbles.** -/
theorem Inv.shownOnce (h : s.Inv) : s.ShownOnce := by
  intro n msg hmsg huser
  obtain ⟨hn, hget⟩ := List.getElem?_eq_some_iff.mp hmsg
  have hgetD : s.chat.getD n .other = msg := by
    rw [List.getD_eq_getElem?_getD, hmsg, Option.getD_some]
  unfold bubbles
  rw [h.committed, committedBubbles, hgetD, hmsg]
  cases msg with
  | other => cases huser
  | foreign =>
    refine ⟨?_, fun hrest => ?_⟩
    · dsimp only
      split <;> omega
    · rw [if_pos ⟨by rw [hrest.1]; exact hn, rfl⟩]
      rfl
  | own k =>
    obtain ⟨send, hsend⟩ : ∃ send, s.sends[k]? = some send :=
      ⟨_, List.getElem?_eq_getElem (h.sent k (List.mem_of_getElem? hmsg))⟩
    dsimp only
    rw [h.own, hsend, showsItself, hsend]
    dsimp only [Option.map_some, Option.getD_some]
    have hle := OwnSend.shown_le send
    refine ⟨?_, fun hrest => ?_⟩
    · split
      · next hcommitted =>
        exact Nat.le_of_eq
          (congrArg (1 + ·) (OwnSend.shown_of_not_showsItself hcommitted.2))
      · omega
    · rw [OwnSend.shown_of_answered (hrest.2 send (List.mem_of_getElem? hsend)), hrest.1]
      by_cases hself : send.showsItself = true
      · rw [if_pos hself, if_neg fun hc => by rw [hself] at hc; exact absurd hc.2 (by decide)]
      · rw [if_neg hself, if_pos ⟨hn, Bool.not_eq_true _ ▸ hself⟩]

/-! ## One step -/

theorem Inv.showsItself_send (h : s.Inv) (kind : SendKind) {msg : ChatMessage}
    (hmsg : msg ∈ s.chat ∨ msg = .other) :
    (s.send kind).showsItself msg = s.showsItself msg := by
  cases msg with
  | own k =>
    have hk := h.sent k (by simpa using hmsg)
    show ((s.sends ++ [⟨kind, .posted⟩])[k]?.map OwnSend.showsItself).getD false = _
    rw [List.getElem?_append_left hk]
    rfl
  | _ => rfl

theorem getD_mem_or (chat : List ChatMessage) (n : ℕ) :
    chat.getD n .other ∈ chat ∨ chat.getD n .other = .other := by
  rw [List.getD_eq_getElem?_getD]
  cases hn : chat[n]? with
  | none => exact .inr rfl
  | some msg => exact .inl (List.mem_of_getElem? hn)

/-- **The tab sends**, and shows the message at once if it does that. -/
theorem Inv.send (h : s.Inv) (kind : SendKind) : (s.send kind).Inv where
  flag := ⟨fun _ => rfl, fun _ => rfl⟩
  arrived_le := h.arrived_le
  sent k hk := by
    show k < (s.sends ++ [OwnSend.mk kind .posted]).length
    rw [List.length_append]
    exact Nat.lt_succ_of_lt (h.sent k hk)
  own k := by
    have hcount : (s.send kind).shown.count (.own k) = s.shown.count (.own k)
        + if kind.isOptimistic ∧ k = s.sends.length then 1 else 0 := by
      show (if kind.isOptimistic then s.shown ++ [.own s.sends.length] else s.shown).count _ = _
      cases kind.isOptimistic with
      | false => rfl
      | true =>
        rw [if_pos rfl, List.count_append]
        by_cases hk : k = s.sends.length
        · rw [hk, List.count_singleton_self, if_pos ⟨rfl, rfl⟩]
        · have hne : (Bubble.own s.sends.length == Bubble.own k) = false :=
            beq_false_of_ne fun heq => hk (Bubble.own.inj heq).symm
          rw [List.count_singleton, hne, if_neg Bool.false_ne_true, if_neg fun hc => hk hc.2]
    rw [hcount, h.own]
    show _ = ((s.sends ++ [⟨kind, .posted⟩])[k]?.map OwnSend.shown).getD 0
    rcases Nat.lt_trichotomy k s.sends.length with hk | hk | hk
    · rw [List.getElem?_append_left hk, if_neg fun hc => absurd hc.2 (Nat.ne_of_lt hk)]
      rfl
    · subst hk
      rw [List.getElem?_concat_length, List.getElem?_eq_none (Nat.le_refl _)]
      cases kind <;> simp [SendKind.isOptimistic, OwnSend.shown]
    · have hbeyond : (s.sends ++ [OwnSend.mk kind .posted]).length ≤ k := by
        rw [List.length_append]
        exact hk
      rw [List.getElem?_eq_none hbeyond, List.getElem?_eq_none (Nat.le_of_lt hk),
        if_neg fun hc => absurd hc.2 (Nat.ne_of_gt hk)]
      rfl
  committed n := by
    have hcount : (s.send kind).shown.count (.committed n) = s.shown.count (.committed n) := by
      show (if kind.isOptimistic then s.shown ++ [.own s.sends.length] else s.shown).count _ = _
      cases kind.isOptimistic with
      | false => rfl
      | true =>
        rw [if_pos rfl, List.count_append, List.count_singleton]
        rfl
    have hself := h.showsItself_send kind (getD_mem_or s.chat n)
    rw [hcount, h.committed]
    show _ = if n < s.arrived ∧ (s.send kind).showsItself (s.chat.getD n .other) = false
      then 1 else 0
    rw [hself]
    rfl

theorem Inv.append (h : s.Inv) {msg : ChatMessage}
    (hmsg : ∀ k, msg = .own k → k < s.sends.length) :
    Inv { s with chat := s.chat ++ [msg] } where
  flag := h.flag
  arrived_le := by
    show s.arrived ≤ (s.chat ++ [msg]).length
    rw [List.length_append]
    exact Nat.le_succ_of_le h.arrived_le
  sent k hk := by
    rcases List.mem_append.mp hk with hk | hk
    · exact h.sent k hk
    · exact hmsg k (List.mem_singleton.mp hk).symm
  own := h.own
  committed n := by
    show s.shown.count (.committed n) = _
    rw [h.committed, committedBubbles, committedBubbles]
    dsimp only
    by_cases hn : n < s.arrived
    · have hlt := Nat.lt_of_lt_of_le hn h.arrived_le
      rw [List.getD_eq_getElem?_getD, List.getD_eq_getElem?_getD, List.getElem?_append_left hlt]
      rfl
    · rw [if_neg fun hc => hn hc.1, if_neg fun hc => hn hc.1]

/-- **A message arrives.** It is skipped exactly if the tab shows it by
itself. -/
theorem Inv.commitMessage (h : s.Inv) {msg : ChatMessage} (hnext : s.chat[s.arrived]? = some msg)
    (hmeets : msg.isUser = true → (s.showsItself msg = true ↔ s.latest = some .start)) :
    (s.commitMessage msg).Inv := by
  obtain ⟨hlt, -⟩ := List.getElem?_eq_some_iff.mp hnext
  have hgetD : s.chat.getD s.arrived .other = msg := by
    rw [List.getD_eq_getElem?_getD, hnext, Option.getD_some]
  have hnew : s.shown.count (.committed s.arrived) = 0 := by
    rw [h.committed, committedBubbles, if_neg fun hc => absurd hc.1 (Nat.lt_irrefl _)]
  -- what the others got is unchanged
  have hothers : ∀ n, n ≠ s.arrived →
      (if n < s.arrived + 1 ∧ s.showsItself (s.chat.getD n .other) = false then 1 else 0)
        = s.committedBubbles n := by
    intro n hn
    unfold committedBubbles
    by_cases hle : n < s.arrived
    · simp only [hle, Nat.lt_succ_of_lt hle, true_and]
    · rw [if_neg fun hc => hle (by omega), if_neg fun hc => hle hc.1]
  have hskip : (msg.isUser && s.pendingUserMsg) = s.showsItself msg := by
    cases msg with
    | other => rfl
    | _ =>
      rw [Bool.eq_iff_iff, hmeets rfl, ← h.flag]
      rfl
  unfold EchoTab.commitMessage
  dsimp only
  rw [hskip]
  split
  · next hself =>
    have huser : msg.isUser = true := by
      rw [← hskip, Bool.and_eq_true] at hself
      exact hself.1
    refine ⟨?_, hlt, h.sent, h.own, fun n => ?_⟩
    · dsimp only
      rw [if_pos huser]
      simp
    · show s.shown.count (.committed n) = if n < s.arrived + 1
        ∧ s.showsItself (s.chat.getD n .other) = false then 1 else 0
      by_cases hn : n = s.arrived
      · subst hn
        rw [hnew, hgetD, if_neg fun hc => by rw [hself] at hc; exact absurd hc.2 (by decide)]
      · rw [hothers n hn, h.committed]
  · next hself =>
    refine ⟨?_, hlt, h.sent, fun k => ?_, fun n => ?_⟩
    · dsimp only
      cases huser : msg.isUser with
      | false => exact h.flag
      | true =>
        rw [huser, Bool.true_and] at hskip
        rw [hskip]
        simpa using hself
    · show (s.shown ++ [Bubble.committed s.arrived]).count (Bubble.own k) = _
      rw [List.count_append, h.own, List.count_singleton]
      rfl
    · show (s.shown ++ [Bubble.committed s.arrived]).count (Bubble.committed n) = if n < s.arrived + 1
        ∧ s.showsItself (s.chat.getD n .other) = false then 1 else 0
      rw [List.count_append]
      by_cases hn : n = s.arrived
      · rw [hn, hnew, hgetD, List.count_singleton_self,
          if_pos ⟨Nat.lt_succ_self _, Bool.not_eq_true _ ▸ hself⟩]
      · have hne : (Bubble.committed s.arrived == Bubble.committed n) = false :=
          beq_false_of_ne fun heq => hn (Bubble.committed.inj heq).symm
        rw [hothers n hn, h.committed, List.count_singleton, hne, if_neg Bool.false_ne_true,
          Nat.add_zero]

theorem posted_eq_some {k : ℕ} {send : OwnSend} (h : s.posted k = some send) :
    s.sends[k]? = some send ∧ send.status = .posted := by
  obtain ⟨hsend, hposted⟩ := Option.filter_eq_some_iff.mp h
  exact ⟨hsend, eq_of_beq hposted⟩

theorem getElem?_answered {k : ℕ} {send : OwnSend} (h : s.sends[k]? = some send)
    (status : SendStatus) (j : ℕ) :
    (s.sends.set k { send with status })[j]?
      = if j = k then some { send with status } else s.sends[j]? := by
  obtain ⟨hlt, -⟩ := List.getElem?_eq_some_iff.mp h
  rw [List.getElem?_set]
  by_cases hj : k = j
  · subst hj
    rw [if_pos rfl, if_pos hlt, if_pos rfl]
  · rw [if_neg hj, if_neg (Ne.symm hj)]

/-- **A request is answered**, and a slash command's message is shown. -/
theorem Inv.succeed (h : s.Inv) {k : ℕ} {send : OwnSend} (hposted : s.posted k = some send) :
    (s.succeed k send).Inv := by
  obtain ⟨hsend, hstatus⟩ := posted_eq_some hposted
  have hget := getElem?_answered hsend .succeeded
  have hself : ∀ msg, (s.succeed k send).showsItself msg = s.showsItself msg := by
    intro msg
    cases msg with
    | own j =>
      show (((s.sends.set k { send with status := .succeeded })[j]?).map _).getD false
        = ((s.sends[j]?).map _).getD false
      rw [hget]
      split
      · next hj =>
        rw [hj, hsend]
        show (send.kind.isOptimistic || SendStatus.succeeded != .failed)
          = (send.kind.isOptimistic || send.status != .failed)
        rw [hstatus]
        rfl
      · rfl
    | _ => rfl
  refine ⟨h.flag, h.arrived_le, fun j hj => ?_, fun j => ?_, fun n => ?_⟩
  · show j < (s.sends.set k _).length
    rw [List.length_set]
    exact h.sent j hj
  · show (if send.kind.isOptimistic then s.shown else s.shown ++ [.own k]).count (.own j)
      = (((s.sends.set k { send with status := .succeeded })[j]?).map OwnSend.shown).getD 0
    rw [hget]
    by_cases hj : j = k
    · subst hj
      have hold := h.own j
      rw [hsend] at hold
      rw [if_pos rfl]
      unfold OwnSend.shown at hold ⊢
      cases hkind : send.kind.isOptimistic with
      | true => simpa [hkind] using hold
      | false =>
        rw [if_neg Bool.false_ne_true, List.count_append, List.count_singleton_self, hold]
        simp [hkind, hstatus]
    · have hne : (Bubble.own k == Bubble.own j) = false :=
        beq_false_of_ne fun heq => hj (Bubble.own.inj heq).symm
      rw [if_neg hj, ← h.own]
      split
      · rfl
      · rw [List.count_append, List.count_singleton, hne, if_neg Bool.false_ne_true, Nat.add_zero]
  · have hcount : (s.succeed k send).shown.count (.committed n) = s.shown.count (.committed n) := by
      show (if send.kind.isOptimistic then s.shown else s.shown ++ [.own k]).count _ = _
      split
      · rfl
      · rw [List.count_append, List.count_singleton]
        rfl
    rw [hcount, h.committed]
    unfold committedBubbles
    rw [hself]
    rfl

theorem Inv.fail (h : s.Inv) {k : ℕ} {send : OwnSend} (hposted : s.posted k = some send)
    (hmeets : send.kind.isOptimistic = false → .own k ∉ s.chat.take s.arrived) :
    (s.fail k send).Inv := by
  obtain ⟨hsend, hstatus⟩ := posted_eq_some hposted
  have hget := getElem?_answered hsend .failed
  refine ⟨by simp [EchoTab.fail], h.arrived_le, fun j hj => ?_,
    fun j => ?_, fun n => ?_⟩
  · show j < (s.sends.set k _).length
    rw [List.length_set]
    exact h.sent j hj
  · show s.shown.count (.own j)
      = (((s.sends.set k { send with status := .failed })[j]?).map OwnSend.shown).getD 0
    rw [hget, h.own]
    split
    · next hj =>
      rw [hj, hsend]
      unfold OwnSend.shown
      simp [hstatus]
    · rfl
  · show s.shown.count (.committed n) = _
    rw [h.committed]
    unfold committedBubbles
    by_cases hn : n < s.arrived
    · have hself : (s.fail k send).showsItself (s.chat.getD n .other)
          = s.showsItself (s.chat.getD n .other) := by
        cases hmsg : s.chat.getD n .other with
        | own j =>
          show (((s.sends.set k { send with status := .failed })[j]?).map _).getD false
            = ((s.sends[j]?).map _).getD false
          rw [hget]
          split
          · next hj =>
            -- an arrived message of the send is one that is shown at once
            have hopt : send.kind.isOptimistic = true := by
              by_contra hno
              refine hmeets (Bool.not_eq_true _ ▸ hno) ?_
              rw [← hj, ← hmsg, List.getD_eq_getElem?_getD]
              have hlt := Nat.lt_of_lt_of_le hn h.arrived_le
              rw [List.getElem?_eq_getElem hlt, Option.getD_some]
              exact List.mem_take_iff_getElem.mpr ⟨n, Nat.lt_min.mpr ⟨hn, hlt⟩, rfl⟩
            rw [hj, hsend]
            unfold OwnSend.showsItself
            simp [hopt]
          · rfl
        | _ => rfl
      show _ = if n < s.arrived ∧ (s.fail k send).showsItself (s.chat.getD n .other) = false
        then 1 else 0
      rw [hself]
    · rw [if_neg fun hc => hn hc.1, if_neg fun hc => hn hc.1]

/-- **A step that meets its condition preserves the invariant.** -/
theorem Inv.step (h : s.Inv) {a : EchoAction} (hmeets : s.Meets a) (hstep : s.step a = some t) :
    t.Inv := by
  cases a with
  | send kind =>
    cases hstep
    exact h.send kind
  | accept k =>
    obtain ⟨hk, hstep⟩ := Option.ite_none_right_eq_some.mp hstep
    cases hstep
    refine h.append fun j hj => ?_
    cases hj
    exact hk.1
  | foreign =>
    cases hstep
    exact h.append fun k hk => nomatch hk
  | other =>
    cases hstep
    exact h.append fun k hk => nomatch hk
  | arrive =>
    obtain ⟨-, hstep⟩ := Option.ite_none_right_eq_some.mp hstep
    obtain ⟨msg, hnext, rfl⟩ := Option.map_eq_some_iff.mp hstep
    exact h.commitMessage hnext (hmeets msg hnext)
  | succeed k =>
    obtain ⟨send, hposted, rfl⟩ := Option.map_eq_some_iff.mp hstep
    exact h.succeed hposted
  | fail k =>
    obtain ⟨send, hposted, rfl⟩ := Option.map_eq_some_iff.mp hstep
    exact h.fail hposted (hmeets send (posted_eq_some hposted).1)
  | loseSocket =>
    cases hstep
    exact { h with }
  | connectWS =>
    cases hstep
    exact { h with }

/-- **Every user message is shown exactly once** along every run in which a
user message arrives, with no other arrival and no failure since the tab's
last send, exactly when the tab shows it by itself, and no slash command fails
whose message arrived. -/
theorem shownOnce_of_run {as : List EchoAction} {s : EchoTab}
    (hmeets : system.Guarded Meets {} as) (hrun : system.run {} as = some s) : s.ShownOnce :=
  (system.run_invariant_of_guarded (fun _ _ _ h hm hs => h.step hm hs) Inv.start hmeets
    hrun).shownOnce

/-- A tab sends, and sends a slash command when the echo is there; a message
from elsewhere comes between, and one behind a reconnect. -/
theorem shownOnce_of_run_alternating : ∃ s,
    system.run {} [.send .message, .accept 0, .arrive, .succeed 0, .foreign, .arrive, .send .slash,
      .accept 1, .loseSocket, .connectWS, .arrive, .succeed 1, .foreign, .arrive] = some s
      ∧ s.ShownOnce := by
  have hrun : (system.run {} [.send .message, .accept 0, .arrive, .succeed 0, .foreign, .arrive,
      .send .slash, .accept 1, .loseSocket, .connectWS, .arrive, .succeed 1, .foreign,
      .arrive]).isSome = true := by decide
  obtain ⟨s, hs⟩ := Option.isSome_iff_exists.mp hrun
  exact ⟨s, hs, shownOnce_of_run (TransitionSystem.guarded_of_check (by decide)) hs⟩

/-- **A message from another tab is swallowed, and the tab's own is doubled**,
when the other one comes ahead of the echo. -/
theorem message_swallowed : ∃ s,
    system.run {} [.send .message, .foreign, .accept 0, .arrive, .arrive, .succeed 0] = some s
      ∧ s.AtRest ∧ s.bubbles 0 = 0 ∧ s.bubbles 1 = 2 ∧ ¬ s.ShownOnce := by
  refine ⟨⟨false, [.own 0, .committed 1], [⟨.message, .succeeded⟩], [.foreign, .own 0], 2, true,
    some .arrival⟩, by decide, ⟨rfl, by decide⟩, rfl, rfl, fun h => ?_⟩
  exact absurd ((h 0 .foreign rfl rfl).2 ⟨rfl, by decide⟩) (by decide)

end EchoTab
