import CharlieBot.Lib.Transition
import Mathlib.Algebra.Order.BigOperators.Group.List
import Mathlib.Algebra.Order.Group.Nat
import Mathlib.Data.List.Induction
import Mathlib.Data.List.Nodup
import Mathlib.Algebra.GroupWithZero.Nat

/-!
# The frames of a channel

A frame goes to the subscribers of its channel one socket after the other, and
every send may wait. Stream frames are drafts of one message, each replacing
the one before: the first of a burst goes out at once, the others wait for
the window to end, and of those that waited the last is sent. A frame that
hides the preview drops the draft that waits.

A draft is never lost: as long as no later draft or hiding frame comes, it
waits, or a send of it is under way (`Inv.owed`), and sends come to an
end. But the end of the window moves the draft into a task of its own, and
from then on a hiding frame can neither drop it nor wait for it. Along the
runs that broadcast no hiding frame while a draft is being sent, none is seen
behind a hiding frame that came after it; and along those whose sends do not
overlap, frames arrive in order – but for a draft that waited, which comes
behind the ordinary frames of its window (`streams_of_run`).
-/

/-! ## The channel -/

inductive FrameKind where
  /-- A draft, which replaces the preview. -/
  | stream
  /-- A frame of `_PREVIEW_HIDING_TYPES`. -/
  | hides
  | ordinary
  deriving DecidableEq, Repr

def FrameKind.ofType (type : String) : FrameKind :=
  if type = "stream" then .stream
  else if type ∈ ["message", "assistant_error", "error"] then .hides
  else .ordinary

/-- `_fan_out`: a frame on its way to the sockets. -/
structure FanOut where
  /-- The number of the frame, in the order of the broadcasts. -/
  frame : ℕ
  kind : FrameKind
  /-- Whether it is a draft that waited for the end of its window. -/
  flushed : Bool
  /-- The sockets it has not been sent to, once they were looked up. -/
  todo : Option (List ℕ)
  /-- The sockets it could not be sent to. -/
  dead : List ℕ := []
  deriving DecidableEq, Repr

/-- A frame that reached a subscriber. -/
structure FrameDelivery where
  frame : ℕ
  kind : FrameKind
  flushed : Bool
  deriving DecidableEq, Repr

/-- What reaches a socket of a frame on its way. -/
def FanOut.delivery (f : FanOut) : FrameDelivery := ⟨f.frame, f.kind, f.flushed⟩

/-- **A channel.** -/
structure Channel where
  connections : List ℕ := []
  /-- Whether the window's timer runs. -/
  streamTimer : Bool := false
  /-- The draft that waits. -/
  pendingStream : Option ℕ := none
  fanOuts : List FanOut := []
  frames : List FrameKind := []
  /-- What each socket was sent, in order. -/
  delivered : ℕ → List FrameDelivery := fun _ => []
  /-- How many frames there were when a socket was subscribed, as long as
  it is and nothing failed. -/
  joined : ℕ → Option ℕ := fun _ => none
  /-- The sockets there have been. -/
  known : List ℕ := []

inductive ChannelAction where
  | subscribe (ws : ℕ)
  | unsubscribe (ws : ℕ)
  | broadcast (type : String)
  /-- The timer fires. -/
  | windowEnded
  /-- The task that sends the draft begins. -/
  | flush (i : ℕ)
  /-- A send goes through. -/
  | send (i ws : ℕ)
  | fail (i ws : ℕ)
  /-- All sends of a frame are through. -/
  | finish (i : ℕ)
  deriving DecidableEq, Repr

/-- What goes on by itself: the timer and the sends. -/
def ChannelAction.isInternal : ChannelAction → Bool
  | .subscribe _ => false
  | .unsubscribe _ => false
  | .broadcast _ => false
  | _ => true

namespace Channel

variable (s : Channel)

/-- A frame goes out to the sockets there are. -/
def startFanOut (n : ℕ) (kind : FrameKind) : Channel :=
  if s.connections = [] then s
  else { s with fanOuts := s.fanOuts ++ [⟨n, kind, false, some s.connections, []⟩] }

def dropPendingStream : Channel := { s with streamTimer := false, pendingStream := none }

/-- `broadcast`, of the frame that has the next number. -/
def broadcast (kind : FrameKind) : Channel :=
  let n := s.frames.length
  let s := { s with frames := s.frames ++ [kind] }
  match kind with
  | .stream =>
    if s.connections = [] then s
    else if s.streamTimer then { s with pendingStream := some n }
    else { s with streamTimer := true }.startFanOut n .stream
  | .hides => s.dropPendingStream.startFanOut n .hides
  | .ordinary => s.startFanOut n .ordinary

/-- `_stream_window_ended`: the draft that waited is sent by a task of its
own. -/
def windowEnded : Channel :=
  { s with
    streamTimer := false
    pendingStream := none
    fanOuts := s.fanOuts ++ match s.pendingStream with
      | none => []
      | some n => [⟨n, .stream, true, none, []⟩] }

def step : ChannelAction → Option Channel
  | .subscribe ws =>
    if ws ∈ s.known then none
    else some { s with
      connections := ws :: s.connections
      known := ws :: s.known
      joined := Function.update s.joined ws (some s.frames.length) }
  | .unsubscribe ws =>
    let left := { s with
      connections := s.connections.filter (· ≠ ws), joined := Function.update s.joined ws none }
    some (if left.connections = [] then left.dropPendingStream else left)
  | .broadcast type => some (s.broadcast (.ofType type))
  | .windowEnded => if s.streamTimer then some s.windowEnded else none
  | .flush i => do
    let f ← s.fanOuts[i]?
    if f.todo = none then
      some { s with fanOuts := s.fanOuts.set i { f with todo := some s.connections } }
    else none
  | .send i ws => do
    let f ← s.fanOuts[i]?
    let todo ← f.todo
    if ws ∈ todo then
      some { s with
        fanOuts := s.fanOuts.set i { f with todo := some (todo.erase ws) }
        delivered := Function.update s.delivered ws (s.delivered ws ++ [f.delivery]) }
    else none
  | .fail i ws => do
    let f ← s.fanOuts[i]?
    let todo ← f.todo
    if ws ∈ todo then
      some { s with
        fanOuts := s.fanOuts.set i { f with todo := some (todo.erase ws), dead := ws :: f.dead }
        joined := Function.update s.joined ws none }
    else none
  | .finish i => do
    let f ← s.fanOuts[i]?
    if f.todo = some [] then
      some { s with
        fanOuts := s.fanOuts.eraseIdx i
        connections := s.connections.filter (· ∉ f.dead) }
    else none

def system : TransitionSystem Channel ChannelAction := ⟨step⟩

/-! ## What is claimed -/

/-- The draft that is on show when all is sent: the last frame that is a draft
or hides it, where that is a draft. -/
def lastDraft (frames : List FrameKind) : Option ℕ :=
  frames.zipIdx.foldl (fun draft frame =>
    match frame.1 with
    | .stream => some frame.2
    | .hides => none
    | .ordinary => draft) none

/-- How many steps the sends of a frame may take, where the channel has `c`
subscribers. -/
def weight (c : ℕ) (f : FanOut) : ℕ :=
  match f.todo with
  | none => c + 2
  | some todo => todo.length + 1

/-- How many steps the timer and the sends may take. -/
def measure : ℕ :=
  (if s.streamTimer then s.connections.length + 3 else 0)
    + (s.fanOuts.map (weight s.connections.length)).sum

/-- **The last draft arrives.** The timer and the sends come to an end, and
when they have, every subscriber that was there for the last draft has it,
unless a frame that hides it came. -/
def EventuallyDelivers : Prop :=
  ∀ as s', (∀ a ∈ as, a.isInternal = true) → system.run s as = some s' →
    as.length ≤ s.measure ∧
    ((∀ a, a.isInternal = true → s'.step a = none) → ∀ n, lastDraft s'.frames = some n →
      ∀ ws k, s'.joined ws = some k → k ≤ n → ∃ d ∈ s'.delivered ws, d.frame = n)

/-- A draft does not come behind a frame that hides it. -/
def NotStale (a b : FrameDelivery) : Prop :=
  a.kind = .hides → b.kind = .stream → a.frame < b.frame

/-- A frame comes behind those that were broadcast before it; a draft that
waited may come behind an ordinary frame. -/
def InOrder (a b : FrameDelivery) : Prop :=
  a.frame < b.frame ∨ b.flushed = true ∧ a.kind = .ordinary

/-- **No hiding frame is broadcast while a draft is sent.** -/
def HidesAlone (s : Channel) : ChannelAction → Prop
  | .broadcast type => FrameKind.ofType type = .hides → ∀ f ∈ s.fanOuts, f.kind ≠ .stream
  | _ => True

/-- **No frame is sent while another is.** -/
def OneAtATime (s : Channel) : ChannelAction → Prop
  | .broadcast type => FrameKind.ofType type = .stream ∧ s.streamTimer = true ∨ s.fanOuts = []
  | .windowEnded => s.pendingStream = none ∨ s.fanOuts = []
  | _ => True

/-! ## The last draft -/

theorem lastDraft_concat (frames : List FrameKind) (kind : FrameKind) :
    lastDraft (frames ++ [kind]) = match kind with
      | .stream => some frames.length
      | .hides => none
      | .ordinary => lastDraft frames := by
  unfold lastDraft
  rw [List.zipIdx_append, List.foldl_append, List.zipIdx_singleton, Nat.zero_add]
  rfl

theorem lastDraft_lt {frames : List FrameKind} {n : ℕ} (h : lastDraft frames = some n) :
    n < frames.length := by
  induction frames using List.reverseRecOn with
  | nil => cases h
  | append_singleton frames kind ih =>
    rw [lastDraft_concat] at h
    rw [List.length_append, List.length_singleton]
    cases kind with
    | stream =>
      cases h
      exact Nat.lt_succ_self _
    | hides => cases h
    | ordinary => exact Nat.lt_succ_of_lt (ih h)

/-- A frame may still be sent to a socket. -/
def MayReach (f : FanOut) (ws : ℕ) : Prop := ∀ todo, f.todo = some todo → ws ∈ todo

/-- **A subscriber has a frame, or will get it.** -/
def Owed (s : Channel) (ws n : ℕ) : Prop :=
  (∃ d ∈ s.delivered ws, d.frame = n) ∨ s.pendingStream = some n ∨
    ∃ f ∈ s.fanOuts, f.frame = n ∧ MayReach f ws

/-- **What holds of a channel.** -/
structure Inv (s : Channel) : Prop where
  /-- A draft waits while the window's timer runs. -/
  timer : ∀ n, s.pendingStream = some n → s.streamTimer = true
  nodup : s.connections.Nodup
  known : ∀ ws ∈ s.connections, ws ∈ s.known
  todo : ∀ f ∈ s.fanOuts, ∀ todo, f.todo = some todo → todo.Nodup ∧ ∀ ws ∈ todo, ws ∈ s.known
  dead : ∀ f ∈ s.fanOuts, ∀ ws ∈ f.dead, ws ∈ s.known
  joined : ∀ ws k, s.joined ws = some k → ws ∈ s.connections ∧ ∀ f ∈ s.fanOuts, ws ∉ f.dead
  /-- The last draft waits, or is sent, or has arrived. -/
  owed : ∀ n, lastDraft s.frames = some n → ∀ ws k, s.joined ws = some k → k ≤ n → s.Owed ws n

variable {s s' : Channel}

theorem inv_empty : Inv {} where
  timer _ h := by cases h
  nodup := List.nodup_nil
  known _ h := absurd h List.not_mem_nil
  todo _ h := absurd h List.not_mem_nil
  dead _ h := absurd h List.not_mem_nil
  joined _ _ h := by cases h
  owed _ h := by cases h

theorem mem_set_or {α : Type*} {l : List α} {i : ℕ} {a b : α} (h : a ∈ l) :
    a ∈ l.set i b ∨ l[i]? = some a := by
  obtain ⟨j, hj⟩ := List.mem_iff_getElem?.mp h
  by_cases hij : i = j
  · exact .inr (hij ▸ hj)
  · refine .inl (List.mem_iff_getElem?.mpr ⟨j, ?_⟩)
    rw [List.getElem?_set_ne hij]
    exact hj

theorem mem_eraseIdx_or {α : Type*} {l : List α} {i : ℕ} {a : α} (h : a ∈ l) :
    a ∈ l.eraseIdx i ∨ l[i]? = some a := by
  obtain ⟨j, hj⟩ := List.mem_iff_getElem?.mp h
  rcases Nat.lt_trichotomy j i with hlt | rfl | hgt
  · refine .inl (List.mem_iff_getElem?.mpr ⟨j, ?_⟩)
    rw [List.getElem?_eraseIdx_of_lt hlt]
    exact hj
  · exact .inr hj
  · refine .inl (List.mem_iff_getElem?.mpr ⟨j - 1, ?_⟩)
    rw [List.getElem?_eraseIdx_of_ge (by omega), Nat.sub_add_cancel (by omega)]
    exact hj

/-- The invariant is kept when one frame on its way is changed, where a
subscriber it may have reached has it, or is not there any more. -/
theorem Inv.setFanOut (h : Inv s) {i : ℕ} {f g : FanOut} (hf : s.fanOuts[i]? = some f)
    {delivered : ℕ → List FrameDelivery} {joined : ℕ → Option ℕ} (hframe : g.frame = f.frame)
    (htodo : ∀ todo, g.todo = some todo → todo.Nodup ∧ ∀ ws ∈ todo, ws ∈ s.known)
    (hdead : ∀ ws ∈ g.dead, ws ∈ s.known)
    (hdelivered : ∀ ws, ∀ d ∈ s.delivered ws, d ∈ delivered ws)
    (hjoined : ∀ ws k, joined ws = some k → s.joined ws = some k ∧ ws ∉ g.dead)
    (hreach : ∀ ws k, joined ws = some k → MayReach f ws →
      MayReach g ws ∨ ∃ d ∈ delivered ws, d.frame = f.frame) :
    Inv { s with fanOuts := s.fanOuts.set i g, delivered, joined } := by
  refine ⟨h.timer, h.nodup, h.known, fun f' hf' => ?_, fun f' hf' => ?_, fun ws k hws => ?_,
    fun n hn ws k hws hk => ?_⟩
  · rcases List.mem_or_eq_of_mem_set hf' with hf' | rfl
    · exact h.todo f' hf'
    · exact htodo
  · rcases List.mem_or_eq_of_mem_set hf' with hf' | rfl
    · exact h.dead f' hf'
    · exact hdead
  · obtain ⟨hold, hnot⟩ := hjoined ws k hws
    refine ⟨(h.joined ws k hold).1, fun f' hf' => ?_⟩
    rcases List.mem_or_eq_of_mem_set hf' with hf' | rfl
    · exact (h.joined ws k hold).2 f' hf'
    · exact hnot
  · rcases h.owed n hn ws k (hjoined ws k hws).1 hk with ⟨d, hd, hdn⟩ | hpending | ⟨f', hf', hn', hmay⟩
    · exact .inl ⟨d, hdelivered ws d hd, hdn⟩
    · exact .inr (.inl hpending)
    · rcases mem_set_or hf' with hin | hsame
      · exact .inr (.inr ⟨f', hin, hn', hmay⟩)
      · rw [hf] at hsame
        cases hsame
        rcases hreach ws k hws hmay with hmay' | ⟨d, hd, hdn⟩
        · refine .inr (.inr ⟨g, List.mem_iff_getElem?.mpr ⟨i, ?_⟩, hframe.trans hn', hmay'⟩)
          exact List.getElem?_set_self (List.getElem?_eq_some_iff.mp hf).1
        · exact .inl ⟨d, hd, hdn.trans hn'⟩

theorem Inv.setOut (h : Inv s) (streamTimer : Bool) (pendingStream : Option ℕ)
    (frames : List FrameKind) (more : List FanOut)
    (htimer : ∀ n, pendingStream = some n → streamTimer = true)
    (htodo : ∀ f ∈ more, ∀ todo, f.todo = some todo → todo = s.connections)
    (hdead : ∀ f ∈ more, f.dead = [])
    (howed : ∀ n, lastDraft frames = some n → s.connections ≠ [] →
      lastDraft s.frames = some n ∧ s.pendingStream ≠ some n ∨ pendingStream = some n ∨
        ∃ f ∈ more, f.frame = n) :
    Inv { s with streamTimer, pendingStream, frames, fanOuts := s.fanOuts ++ more } := by
  refine ⟨htimer, h.nodup, h.known, fun f hf todo hft => ?_, fun f hf ws hws => ?_,
    fun ws k hws => ⟨(h.joined ws k hws).1, fun f hf hin => ?_⟩, fun n hn ws k hws hk => ?_⟩
  · rcases List.mem_append.mp hf with hf | hf
    · exact h.todo f hf todo hft
    · rw [htodo f hf todo hft]
      exact ⟨h.nodup, h.known⟩
  · rcases List.mem_append.mp hf with hf | hf
    · exact h.dead f hf ws hws
    · rw [hdead f hf] at hws
      exact absurd hws List.not_mem_nil
  · rcases List.mem_append.mp hf with hf | hf
    · exact (h.joined ws k hws).2 f hf hin
    · rw [hdead f hf] at hin
      exact absurd hin List.not_mem_nil
  · have hconn := (h.joined ws k hws).1
    rcases howed n hn (List.ne_nil_of_mem hconn) with ⟨hold, hnot⟩ | hpending | ⟨f, hf, hfn⟩
    · rcases h.owed n hold ws k hws hk with hd | hpending | ⟨f, hf, hfn, hmay⟩
      · exact .inl hd
      · exact absurd hpending hnot
      · exact .inr (.inr ⟨f, List.mem_append_left _ hf, hfn, hmay⟩)
    · exact .inr (.inl hpending)
    · refine .inr (.inr ⟨f, List.mem_append_right _ hf, hfn, fun todo hft => ?_⟩)
      rw [htodo f hf todo hft]
      exact hconn

theorem startFanOut_eq (s : Channel) (n : ℕ) (kind : FrameKind) :
    s.startFanOut n kind = { s with fanOuts := s.fanOuts ++
      if s.connections = [] then [] else [⟨n, kind, false, some s.connections, []⟩] } := by
  unfold startFanOut
  split
  · rw [List.append_nil]
  · rfl

theorem todo_of_mem_start {n : ℕ} {kind : FrameKind} {f : FanOut}
    (h : f ∈ if s.connections = [] then ([] : List FanOut)
      else [⟨n, kind, false, some s.connections, []⟩]) :
    s.connections ≠ [] ∧ f = ⟨n, kind, false, some s.connections, []⟩ := by
  split at h
  · exact absurd h List.not_mem_nil
  · next hne => exact ⟨hne, List.mem_singleton.mp h⟩

theorem Inv.broadcast (h : Inv s) (kind : FrameKind) : Inv (s.broadcast kind) := by
  have hstart : ∀ n f, f ∈ (if s.connections = [] then ([] : List FanOut)
      else [⟨n, kind, false, some s.connections, []⟩]) →
      (∀ todo, f.todo = some todo → todo = s.connections) ∧ f.dead = [] := by
    intro n f hf
    obtain ⟨-, rfl⟩ := todo_of_mem_start hf
    exact ⟨fun todo htodo => (Option.some.inj htodo).symm, rfl⟩
  have hnone : ∀ f ∈ ([] : List FanOut), (∀ todo, f.todo = some todo → todo = s.connections) ∧
      f.dead = [] := fun f hf => absurd hf List.not_mem_nil
  cases kind with
  | stream =>
    have hlast : ∀ n, lastDraft (s.frames ++ [.stream]) = some n → n = s.frames.length := by
      intro n hn
      rw [lastDraft_concat] at hn
      exact (Option.some.inj hn).symm
    unfold Channel.broadcast
    simp only
    split
    · next hnil =>
      have hinv := h.setOut s.streamTimer s.pendingStream (s.frames ++ [.stream]) [] h.timer
        (fun f hf => (hnone f hf).1) (fun f hf => (hnone f hf).2) (fun n _ hne => absurd hnil hne)
      rwa [List.append_nil] at hinv
    · next hne =>
      split
      · next htimer =>
        have hinv := h.setOut s.streamTimer (some s.frames.length) (s.frames ++ [.stream]) []
          (fun _ _ => htimer) (fun f hf => (hnone f hf).1) (fun f hf => (hnone f hf).2)
          (fun n hn _ => .inr (.inl (congrArg some (hlast n hn).symm)))
        rwa [List.append_nil] at hinv
      · rw [startFanOut_eq]
        refine h.setOut true s.pendingStream (s.frames ++ [.stream]) _ (fun _ _ => rfl)
          (fun f hf => (hstart _ f hf).1) (fun f hf => (hstart _ f hf).2) fun n hn _ => ?_
        refine .inr (.inr ⟨⟨s.frames.length, .stream, false, some s.connections, []⟩, ?_,
          (hlast n hn).symm⟩)
        rw [if_neg hne]
        exact List.mem_singleton_self _
  | hides =>
    unfold Channel.broadcast
    simp only
    rw [startFanOut_eq]
    refine h.setOut false none (s.frames ++ [.hides]) _ (fun _ hn => by cases hn)
      (fun f hf => (hstart _ f hf).1) (fun f hf => (hstart _ f hf).2) fun n hn _ => ?_
    rw [lastDraft_concat] at hn
    cases hn
  | ordinary =>
    unfold Channel.broadcast
    simp only
    rw [startFanOut_eq]
    refine h.setOut s.streamTimer s.pendingStream (s.frames ++ [.ordinary]) _ h.timer
      (fun f hf => (hstart _ f hf).1) (fun f hf => (hstart _ f hf).2) fun n hn _ => ?_
    rw [lastDraft_concat] at hn
    by_cases hpending : s.pendingStream = some n
    · exact .inr (.inl hpending)
    · exact .inl ⟨hn, hpending⟩

/-- **The end of a window keeps the invariant**: the draft that waited is
sent. -/
theorem Inv.windowEnded (h : Inv s) : Inv s.windowEnded := by
  have hmore : ∀ f ∈ (match s.pendingStream with
      | none => []
      | some n => [⟨n, .stream, true, none, []⟩] : List FanOut), f.todo = none ∧ f.dead = [] := by
    intro f hf
    cases hpending : s.pendingStream with
    | none =>
      rw [hpending] at hf
      exact absurd hf List.not_mem_nil
    | some n =>
      rw [hpending] at hf
      rw [List.mem_singleton.mp hf]
      exact ⟨rfl, rfl⟩
  refine h.setOut false none s.frames _ (fun _ hn => by cases hn) (fun f hf todo htodo => ?_)
    (fun f hf => (hmore f hf).2) fun n hn _ => ?_
  · rw [(hmore f hf).1] at htodo
    cases htodo
  · by_cases hpending : s.pendingStream = some n
    · rw [hpending]
      exact .inr (.inr ⟨_, List.mem_singleton_self _, rfl⟩)
    · exact .inl ⟨hn, hpending⟩

theorem joined_of_update {joined : ℕ → Option ℕ} {ws ws' k : ℕ}
    (h : Function.update joined ws none ws' = some k) : ws' ≠ ws ∧ joined ws' = some k := by
  by_cases hws : ws' = ws
  · subst hws
    rw [Function.update_self] at h
    cases h
  · rw [Function.update_of_ne hws] at h
    exact ⟨hws, h⟩

theorem Inv.step (h : Inv s) {a : ChannelAction} (hstep : s.step a = some s') : Inv s' := by
  cases a with
  | subscribe ws =>
    simp only [Channel.step] at hstep
    split at hstep
    · cases hstep
    · next hnew =>
      cases hstep
      have hjoined : ∀ ws' k, Function.update s.joined ws (some s.frames.length) ws' = some k →
          ws' = ws ∧ k = s.frames.length ∨ s.joined ws' = some k := by
        intro ws' k hk
        by_cases hws : ws' = ws
        · subst hws
          rw [Function.update_self] at hk
          exact .inl ⟨rfl, (Option.some.inj hk).symm⟩
        · rw [Function.update_of_ne hws] at hk
          exact .inr hk
      refine ⟨h.timer, List.nodup_cons.mpr ⟨fun hin => hnew (h.known ws hin), h.nodup⟩,
        fun ws' hws' => ?_, fun f hf todo htodo => ?_, fun f hf ws' hws' => ?_,
        fun ws' k hk => ?_, fun n hn ws' k hk hle => ?_⟩
      · rcases List.mem_cons.mp hws' with rfl | hws'
        · exact List.mem_cons_self
        · exact List.mem_cons_of_mem _ (h.known ws' hws')
      · obtain ⟨hnodup, hknown⟩ := h.todo f hf todo htodo
        exact ⟨hnodup, fun ws' hws' => List.mem_cons_of_mem _ (hknown ws' hws')⟩
      · exact List.mem_cons_of_mem _ (h.dead f hf ws' hws')
      · rcases hjoined ws' k hk with ⟨rfl, -⟩ | hold
        · exact ⟨List.mem_cons_self, fun f hf hin => hnew (h.dead f hf ws' hin)⟩
        · obtain ⟨hin, hdead⟩ := h.joined ws' k hold
          exact ⟨List.mem_cons_of_mem _ hin, hdead⟩
      · rcases hjoined ws' k hk with ⟨-, rfl⟩ | hold
        · -- there was no frame since the socket is there
          exact absurd (lastDraft_lt hn) (Nat.not_lt_of_le hle)
        · exact h.owed n hn ws' k hold hle
  | unsubscribe ws =>
    cases hstep
    have hknown : ∀ ws' ∈ s.connections.filter (· ≠ ws), ws' ∈ s.known := fun ws' hws' =>
      h.known ws' (List.mem_filter.mp hws').1
    have hjoined : ∀ ws' k, Function.update s.joined ws none ws' = some k →
        ws' ∈ s.connections.filter (· ≠ ws) ∧ ∀ f ∈ s.fanOuts, ws' ∉ f.dead := by
      intro ws' k hk
      obtain ⟨hne, hold⟩ := joined_of_update hk
      obtain ⟨hin, hdead⟩ := h.joined ws' k hold
      exact ⟨List.mem_filter.mpr ⟨hin, decide_eq_true hne⟩, hdead⟩
    split
    · next hnil =>
      refine ⟨fun _ hn => (by cases hn), h.nodup.filter _, hknown, h.todo, h.dead, hjoined,
        fun n hn ws' k hk _ => ?_⟩
      have hin := (hjoined ws' k hk).1
      rw [show s.connections.filter (· ≠ ws) = [] from hnil] at hin
      exact absurd hin List.not_mem_nil
    · refine ⟨h.timer, h.nodup.filter _, hknown, h.todo, h.dead, hjoined,
        fun n hn ws' k hk hle => ?_⟩
      exact h.owed n hn ws' k (joined_of_update hk).2 hle
  | broadcast type =>
    cases hstep
    exact h.broadcast _
  | windowEnded =>
    simp only [Channel.step] at hstep
    split at hstep
    · cases hstep
      exact h.windowEnded
    · cases hstep
  | flush i =>
    obtain ⟨f, hf, hstep⟩ := Option.bind_eq_some_iff.mp hstep
    split at hstep
    · next htodo =>
      cases hstep
      have hmem := List.mem_iff_getElem?.mpr ⟨i, hf⟩
      refine h.setFanOut hf rfl (fun todo hin => ?_) (h.dead f hmem) (fun _ _ hd => hd)
        (fun ws k hk => ⟨hk, (h.joined ws k hk).2 f hmem⟩) (fun ws k hk _ => .inl fun todo hin => ?_)
      · cases hin
        exact ⟨h.nodup, h.known⟩
      · cases hin
        exact (h.joined ws k hk).1
    · cases hstep
  | send i ws =>
    obtain ⟨f, hf, hstep⟩ := Option.bind_eq_some_iff.mp hstep
    obtain ⟨todo, htodo, hstep⟩ := Option.bind_eq_some_iff.mp hstep
    split at hstep
    · cases hstep
      have hmem := List.mem_iff_getElem?.mpr ⟨i, hf⟩
      obtain ⟨hnodup, hknown⟩ := h.todo f hmem todo htodo
      refine h.setFanOut hf rfl (fun todo' hin => ?_) (h.dead f hmem) (fun ws' d hd => ?_)
        (fun ws' k hk => ⟨hk, (h.joined ws' k hk).2 f hmem⟩) (fun ws' k hk hmay => ?_)
      · cases hin
        exact ⟨hnodup.erase _, fun ws' hws' => hknown ws' (List.mem_of_mem_erase hws')⟩
      · by_cases hws : ws' = ws
        · subst hws
          rw [Function.update_self]
          exact List.mem_append_left _ hd
        · rwa [Function.update_of_ne hws]
      · by_cases hws : ws' = ws
        · subst hws
          rw [Function.update_self]
          exact .inr ⟨_, List.mem_append_right _ (List.mem_singleton_self _), rfl⟩
        · refine .inl fun todo' hin => ?_
          cases hin
          exact (List.mem_erase_of_ne hws).mpr (hmay todo htodo)
    · cases hstep
  | fail i ws =>
    obtain ⟨f, hf, hstep⟩ := Option.bind_eq_some_iff.mp hstep
    obtain ⟨todo, htodo, hstep⟩ := Option.bind_eq_some_iff.mp hstep
    split at hstep
    · next hin =>
      cases hstep
      have hmem := List.mem_iff_getElem?.mpr ⟨i, hf⟩
      obtain ⟨hnodup, hknown⟩ := h.todo f hmem todo htodo
      refine h.setFanOut hf rfl (fun todo' hin' => ?_) (fun ws' hws' => ?_) (fun _ _ hd => hd)
        (fun ws' k hk => ?_) (fun ws' k hk hmay => .inl fun todo' hin' => ?_)
      · cases hin'
        exact ⟨hnodup.erase _, fun ws' hws' => hknown ws' (List.mem_of_mem_erase hws')⟩
      · rcases List.mem_cons.mp hws' with rfl | hws'
        · exact hknown _ hin
        · exact h.dead f hmem ws' hws'
      · obtain ⟨hne, hold⟩ := joined_of_update hk
        refine ⟨hold, fun hdead => ?_⟩
        rcases List.mem_cons.mp hdead with heq | hdead
        · exact hne heq
        · exact (h.joined ws' k hold).2 f hmem hdead
      · cases hin'
        exact (List.mem_erase_of_ne (joined_of_update hk).1).mpr (hmay todo htodo)
    · cases hstep
  | finish i =>
    obtain ⟨f, hf, hstep⟩ := Option.bind_eq_some_iff.mp hstep
    split at hstep
    · next htodo =>
      cases hstep
      have hmem := List.mem_iff_getElem?.mpr ⟨i, hf⟩
      refine ⟨h.timer, h.nodup.filter _, fun ws hws => h.known ws (List.mem_filter.mp hws).1,
        fun g hg => h.todo g (List.mem_of_mem_eraseIdx hg),
        fun g hg => h.dead g (List.mem_of_mem_eraseIdx hg), fun ws k hk => ?_,
        fun n hn ws k hk hle => ?_⟩
      · obtain ⟨hin, hdead⟩ := h.joined ws k hk
        exact ⟨List.mem_filter.mpr ⟨hin, decide_eq_true (hdead f hmem)⟩,
          fun g hg => hdead g (List.mem_of_mem_eraseIdx hg)⟩
      · rcases h.owed n hn ws k hk hle with hd | hpending | ⟨g, hg, hgn, hmay⟩
        · exact .inl hd
        · exact .inr (.inl hpending)
        · rcases mem_eraseIdx_or hg with hleft | hsame
          · exact .inr (.inr ⟨g, hleft, hgn, hmay⟩)
          · rw [hf] at hsame
            cases hsame
            exact absurd (hmay [] htodo) List.not_mem_nil
    · cases hstep

theorem Inv.run (h : Inv s) {as : List ChannelAction} (hrun : system.run s as = some s') :
    Inv s' :=
  system.run_invariant (fun _ _ _ hinv hstep => hinv.step hstep) h as hrun

/-! ## The last draft arrives -/

theorem weight_mono {c c' : ℕ} (h : c' ≤ c) (f : FanOut) : weight c' f ≤ weight c f := by
  unfold weight
  split
  · exact Nat.add_le_add_right h 2
  · exact Nat.le_refl _

theorem sum_weight_set {c i : ℕ} {fanOuts : List FanOut} {f : FanOut} (g : FanOut)
    (h : fanOuts[i]? = some f) :
    ((fanOuts.set i g).map (weight c)).sum + weight c f
      = (fanOuts.map (weight c)).sum + weight c g := by
  induction fanOuts generalizing i with
  | nil => cases h
  | cons f' fanOuts ih =>
    cases i with
    | zero =>
      cases h
      simp only [List.set_cons_zero, List.map_cons, List.sum_cons]
      omega
    | succ i =>
      have hrest := ih (i := i) h
      simp only [List.set_cons_succ, List.map_cons, List.sum_cons]
      omega

theorem sum_weight_eraseIdx {c i : ℕ} {fanOuts : List FanOut} {f : FanOut}
    (h : fanOuts[i]? = some f) :
    ((fanOuts.eraseIdx i).map (weight c)).sum + weight c f = (fanOuts.map (weight c)).sum := by
  induction fanOuts generalizing i with
  | nil => cases h
  | cons f' fanOuts ih =>
    cases i with
    | zero =>
      cases h
      simp only [List.eraseIdx_zero, List.tail_cons, List.map_cons, List.sum_cons]
      omega
    | succ i =>
      have hrest := ih (i := i) h
      simp only [List.eraseIdx_cons_succ, List.map_cons, List.sum_cons]
      omega

theorem measure_set_lt {i : ℕ} {f g : FanOut} (hf : s.fanOuts[i]? = some f)
    {delivered : ℕ → List FrameDelivery} {joined : ℕ → Option ℕ}
    (hlt : weight s.connections.length g < weight s.connections.length f) :
    measure { s with fanOuts := s.fanOuts.set i g, delivered, joined } < s.measure := by
  have hsum := sum_weight_set (c := s.connections.length) g hf
  unfold measure
  simp only
  omega

/-- **The timer and the sends come to an end**: each of their steps brings the
measure down. -/
theorem measure_lt {a : ChannelAction} (ha : a.isInternal = true) (hstep : s.step a = some s') :
    s'.measure < s.measure := by
  have hsent : ∀ {f g : FanOut} {todo : List ℕ} {ws : ℕ}, f.todo = some todo → ws ∈ todo →
      g.todo = some (todo.erase ws) → weight s.connections.length g
        < weight s.connections.length f := by
    intro f g todo ws hf hws hg
    unfold weight
    rw [hf, hg]
    simp only [List.length_erase_of_mem hws]
    have hpos := List.length_pos_of_mem hws
    omega
  cases a with
  | subscribe ws => cases ha
  | unsubscribe ws => cases ha
  | broadcast type => cases ha
  | windowEnded =>
    simp only [Channel.step] at hstep
    split at hstep
    · next htimer =>
      cases hstep
      unfold measure Channel.windowEnded
      simp only [htimer, if_true, Bool.false_eq_true, if_false, List.map_append, List.sum_append]
      cases s.pendingStream with
      | none =>
        simp only [List.map_nil, List.sum_nil]
        omega
      | some n =>
        simp only [List.map_cons, List.map_nil, List.sum_cons, List.sum_nil, weight]
        omega
    · cases hstep
  | flush i =>
    obtain ⟨f, hf, hstep⟩ := Option.bind_eq_some_iff.mp hstep
    split at hstep
    · next htodo =>
      cases hstep
      refine measure_set_lt hf ?_
      simp only [weight, htodo]
      omega
    · cases hstep
  | send i ws =>
    obtain ⟨f, hf, hstep⟩ := Option.bind_eq_some_iff.mp hstep
    obtain ⟨todo, htodo, hstep⟩ := Option.bind_eq_some_iff.mp hstep
    split at hstep
    · next hws =>
      cases hstep
      exact measure_set_lt hf (hsent htodo hws rfl)
    · cases hstep
  | fail i ws =>
    obtain ⟨f, hf, hstep⟩ := Option.bind_eq_some_iff.mp hstep
    obtain ⟨todo, htodo, hstep⟩ := Option.bind_eq_some_iff.mp hstep
    split at hstep
    · next hws =>
      cases hstep
      exact measure_set_lt hf (hsent htodo hws rfl)
    · cases hstep
  | finish i =>
    obtain ⟨f, hf, hstep⟩ := Option.bind_eq_some_iff.mp hstep
    split at hstep
    · next htodo =>
      cases hstep
      have hle : (s.connections.filter (· ∉ f.dead)).length ≤ s.connections.length :=
        List.length_filter_le _ _
      have hsum := sum_weight_eraseIdx (c := s.connections.length) hf
      have hmono : (((s.fanOuts.eraseIdx i).map
          (weight (s.connections.filter (· ∉ f.dead)).length)).sum)
            ≤ ((s.fanOuts.eraseIdx i).map (weight s.connections.length)).sum :=
        List.sum_le_sum fun g _ => weight_mono hle g
      have hone : weight s.connections.length f = 1 := by
        simp only [weight, htodo, List.length_nil, Nat.zero_add]
      unfold measure
      simp only
      split <;> omega
    · cases hstep

theorem Inv.quiet (h : Inv s) (hquiet : ∀ a, a.isInternal = true → s.step a = none) :
    s.pendingStream = none ∧ s.fanOuts = [] := by
  constructor
  · by_contra hpending
    obtain ⟨n, hn⟩ := Option.ne_none_iff_exists'.mp hpending
    have hended := hquiet .windowEnded rfl
    simp only [Channel.step, h.timer n hn, if_true] at hended
    cases hended
  · cases hfan : s.fanOuts with
    | nil => rfl
    | cons f fanOuts =>
      have hf : s.fanOuts[0]? = some f := by rw [hfan, List.getElem?_cons_zero]
      cases htodo : f.todo with
      | none =>
        have hflush := hquiet (.flush 0) rfl
        simp [Channel.step, hf, htodo] at hflush
      | some todo =>
        cases todo with
        | nil =>
          have hfinish := hquiet (.finish 0) rfl
          simp [Channel.step, hf, htodo] at hfinish
        | cons ws todo =>
          have hsend := hquiet (.send 0 ws) rfl
          simp [Channel.step, hf, htodo] at hsend

theorem Inv.eventuallyDelivers (h : Inv s) : s.EventuallyDelivers := by
  intro as s' hinternal hrun
  refine ⟨TransitionSystem.length_le_of_measure (fun _ _ _ => measure_lt) hinternal hrun,
    fun hquiet n hn ws k hws hk => ?_⟩
  have hinv := h.run hrun
  obtain ⟨hpending, hfan⟩ := hinv.quiet hquiet
  rcases hinv.owed n hn ws k hws hk with hd | hwaits | ⟨f, hf, -⟩
  · exact hd
  · rw [hpending] at hwaits
    cases hwaits
  · rw [hfan] at hf
    exact absurd hf List.not_mem_nil

/-! ## The order of the frames -/

/-- A relation between the frames a socket gets, the earlier one first, that
holds wherever they come in the order of their broadcasts, and where an
ordinary frame is followed by a draft that waited. -/
structure FollowsBroadcasts (R : FrameDelivery → FrameDelivery → Prop) : Prop where
  lt : ∀ a b, a.frame < b.frame → R a b
  waited : ∀ a b, a.kind = .ordinary → b.kind = .stream → b.flushed = true → R a b

theorem followsBroadcasts_notStale : FollowsBroadcasts NotStale where
  lt _ _ hlt _ _ := hlt
  waited a b ha _ _ hhides := by
    rw [ha] at hhides
    cases hhides

theorem followsBroadcasts_inOrder : FollowsBroadcasts InOrder where
  lt _ _ hlt := .inl hlt
  waited _ _ ha _ hb := .inr ⟨hb, ha⟩

/-- A frame that sets out may come before those that are on their way. -/
def Fits (R : FrameDelivery → FrameDelivery → Prop) (s : Channel) : ChannelAction → Prop
  | .broadcast type =>
    FrameKind.ofType type = .stream ∧ s.streamTimer = true ∨
      ∀ f ∈ s.fanOuts, R ⟨s.frames.length, .ofType type, false⟩ f.delivery
  | .windowEnded => ∀ n, s.pendingStream = some n → ∀ f ∈ s.fanOuts,
      R ⟨n, .stream, true⟩ f.delivery
  | _ => True

theorem fits_of_hidesAlone {a : ChannelAction} (h : HidesAlone s a) : Fits NotStale s a := by
  cases a with
  | broadcast type =>
    exact .inr fun f hf hhides hstream => absurd hstream (h hhides f hf)
  | windowEnded =>
    intro n _ f _ hhides
    cases hhides
  | _ => trivial

theorem fits_of_oneAtATime {a : ChannelAction} (h : OneAtATime s a) : Fits InOrder s a := by
  cases a with
  | broadcast type =>
    rcases h with hwaits | hnil
    · exact .inl hwaits
    · refine .inr fun f hf => ?_
      rw [hnil] at hf
      exact absurd hf List.not_mem_nil
  | windowEnded =>
    intro n hn f hf
    rcases h with hnone | hnil
    · rw [hnone] at hn
      cases hn
    · rw [hnil] at hf
      exact absurd hf List.not_mem_nil
  | _ => trivial

/-- **The frames of a channel are related**: those a socket got, those it got
to those on their way to it, all of these to the draft that waits, and
those on their way to one another, whichever comes first. -/
structure Ordered (R : FrameDelivery → FrameDelivery → Prop) (s : Channel) : Prop where
  delivered_lt : ∀ ws, ∀ d ∈ s.delivered ws, d.frame < s.frames.length
  fanOuts_lt : ∀ f ∈ s.fanOuts, f.frame < s.frames.length
  delivered : ∀ ws, (s.delivered ws).Pairwise R
  flight : ∀ ws, ∀ d ∈ s.delivered ws, ∀ f ∈ s.fanOuts, MayReach f ws → R d f.delivery
  waits : ∀ n, s.pendingStream = some n → n < s.frames.length ∧
    (∀ ws, ∀ d ∈ s.delivered ws, R d ⟨n, .stream, true⟩) ∧
    ∀ f ∈ s.fanOuts, R f.delivery ⟨n, .stream, true⟩
  apart : (s.fanOuts.map FanOut.delivery).Pairwise fun a b => R a b ∧ R b a

section Ordered

variable {R : FrameDelivery → FrameDelivery → Prop}

theorem ordered_empty : Ordered R {} where
  delivered_lt _ _ hd := absurd hd List.not_mem_nil
  fanOuts_lt _ hf := absurd hf List.not_mem_nil
  delivered _ := List.Pairwise.nil
  flight _ _ hd := absurd hd List.not_mem_nil
  waits _ hn := by cases hn
  apart := List.Pairwise.nil

theorem Ordered.setOut (h : Ordered R s) (streamTimer : Bool) (pendingStream : Option ℕ)
    (frames : List FrameKind) (more : Option FanOut) (hlen : s.frames.length ≤ frames.length)
    (hwaits : ∀ n, pendingStream = some n → n < frames.length ∧
      (∀ ws, ∀ d ∈ s.delivered ws, R d ⟨n, .stream, true⟩) ∧
      ∀ f ∈ s.fanOuts ++ more.toList, R f.delivery ⟨n, .stream, true⟩)
    (hmore : ∀ f, more = some f → f.frame < frames.length ∧
      (∀ ws, ∀ d ∈ s.delivered ws, R d f.delivery) ∧
      ∀ g ∈ s.fanOuts, R g.delivery f.delivery ∧ R f.delivery g.delivery) :
    Ordered R { s with streamTimer, pendingStream, frames, fanOuts := s.fanOuts ++ more.toList } := by
  refine ⟨fun ws d hd => Nat.lt_of_lt_of_le (h.delivered_lt ws d hd) hlen, fun f hf => ?_,
    h.delivered, fun ws d hd f hf hmay => ?_, hwaits, ?_⟩
  · rcases List.mem_append.mp hf with hf | hf
    · exact Nat.lt_of_lt_of_le (h.fanOuts_lt f hf) hlen
    · exact (hmore f (Option.mem_toList.mp hf)).1
  · rcases List.mem_append.mp hf with hf | hf
    · exact h.flight ws d hd f hf hmay
    · exact (hmore f (Option.mem_toList.mp hf)).2.1 ws d hd
  · rw [List.map_append, List.pairwise_append]
    refine ⟨h.apart, ?_, fun a ha b hb => ?_⟩
    · cases more with
      | none => exact List.Pairwise.nil
      | some f => exact List.pairwise_singleton _ _
    · obtain ⟨g, hg, rfl⟩ := List.mem_map.mp ha
      obtain ⟨f, hf, rfl⟩ := List.mem_map.mp hb
      exact (hmore f (Option.mem_toList.mp hf)).2.2 g hg

theorem Ordered.behind (h : Ordered R s) (hR : FollowsBroadcasts R) (kind : FrameKind)
    (flushed : Bool) :
    (∀ ws, ∀ d ∈ s.delivered ws, R d ⟨s.frames.length, kind, flushed⟩) ∧
      ∀ f ∈ s.fanOuts, R f.delivery ⟨s.frames.length, kind, flushed⟩ :=
  ⟨fun ws d hd => hR.lt _ _ (h.delivered_lt ws d hd), fun f hf => hR.lt _ _ (h.fanOuts_lt f hf)⟩

theorem Ordered.wait (h : Ordered R s) (streamTimer : Bool) (pendingStream : Option ℕ)
    (frames : List FrameKind) (hlen : s.frames.length ≤ frames.length)
    (hwaits : ∀ n, pendingStream = some n → n < frames.length ∧
      (∀ ws, ∀ d ∈ s.delivered ws, R d ⟨n, .stream, true⟩) ∧
      ∀ f ∈ s.fanOuts, R f.delivery ⟨n, .stream, true⟩) :
    Ordered R { s with streamTimer, pendingStream, frames } := by
  have hout := h.setOut streamTimer pendingStream frames none hlen (fun n hn => ?_)
    (fun f hf => by cases hf)
  · rwa [Option.toList_none, List.append_nil] at hout
  · rw [Option.toList_none, List.append_nil]
    exact hwaits n hn

/-- The frames stay related when one is broadcast that sets out at once, and drops the
draft that waits unless it is an ordinary one. -/
theorem Ordered.start (h : Ordered R s) (hR : FollowsBroadcasts R) (kind : FrameKind)
    (streamTimer : Bool) (pendingStream : Option ℕ)
    (hpending : ∀ n, pendingStream = some n → kind = .ordinary ∧ s.pendingStream = some n)
    (hfits : ∀ f ∈ s.fanOuts, R ⟨s.frames.length, kind, false⟩ f.delivery) :
    Ordered R (startFanOut { s with streamTimer, pendingStream, frames := s.frames ++ [kind] }
      s.frames.length kind) := by
  have hlen : s.frames.length < (s.frames ++ [kind]).length := by
    rw [List.length_append, List.length_singleton]
    exact Nat.lt_succ_self _
  have hwaits : ∀ n, pendingStream = some n → n < (s.frames ++ [kind]).length ∧
      (∀ ws, ∀ d ∈ s.delivered ws, R d ⟨n, .stream, true⟩) ∧
      ∀ f ∈ s.fanOuts, R f.delivery ⟨n, .stream, true⟩ := by
    intro n hn
    obtain ⟨hlt, hdelivered, hflight⟩ := h.waits n (hpending n hn).2
    exact ⟨hlt.trans hlen, hdelivered, hflight⟩
  obtain ⟨hdelivered, hflight⟩ := h.behind hR kind false
  unfold startFanOut
  simp only
  split
  · exact h.wait streamTimer pendingStream _ hlen.le hwaits
  · refine h.setOut streamTimer pendingStream _
      (some ⟨s.frames.length, kind, false, some s.connections, []⟩) hlen.le (fun n hn => ?_)
      (fun f hf => ?_)
    · obtain ⟨hlt, hall, hflight'⟩ := hwaits n hn
      refine ⟨hlt, hall, fun f hf => ?_⟩
      rcases List.mem_append.mp hf with hf | hf
      · exact hflight' f hf
      · cases Option.mem_toList.mp hf
        exact hR.waited _ _ (hpending n hn).1 rfl rfl
    · cases hf
      exact ⟨hlen, hdelivered, fun g hg => ⟨hflight g hg, hfits g hg⟩⟩

theorem Ordered.broadcast (h : Ordered R s) (hinv : Inv s) (hR : FollowsBroadcasts R)
    {kind : FrameKind} (hfits : kind = .stream ∧ s.streamTimer = true ∨
      ∀ f ∈ s.fanOuts, R ⟨s.frames.length, kind, false⟩ f.delivery) :
    Ordered R (s.broadcast kind) := by
  have hstarts : ¬(kind = .stream ∧ s.streamTimer = true) →
      ∀ f ∈ s.fanOuts, R ⟨s.frames.length, kind, false⟩ f.delivery := fun hnot =>
    hfits.resolve_left hnot
  unfold Channel.broadcast
  cases kind with
  | stream =>
    have hlt : s.frames.length < (s.frames ++ [FrameKind.stream]).length := by
      rw [List.length_append, List.length_singleton]
      exact Nat.lt_succ_self _
    simp only
    split
    · refine h.wait s.streamTimer s.pendingStream _ hlt.le fun n hn => ?_
      obtain ⟨hn, hrest⟩ := h.waits n hn
      exact ⟨hn.trans hlt, hrest⟩
    · split
      · refine h.wait s.streamTimer (some s.frames.length) _ hlt.le fun n hn => ?_
        cases hn
        exact ⟨hlt, h.behind hR .stream true⟩
      · next htimer =>
        refine h.start hR .stream true s.pendingStream (fun n hn => ?_)
          (hstarts fun hand => htimer hand.2)
        exact absurd (hinv.timer n hn) htimer
  | hides =>
    exact h.start hR .hides false none (fun _ hn => by cases hn) (hstarts fun hand => by
      cases hand.1)
  | ordinary =>
    exact h.start hR .ordinary s.streamTimer s.pendingStream (fun _ hn => ⟨rfl, hn⟩)
      (hstarts fun hand => by cases hand.1)

theorem Ordered.windowEnded (h : Ordered R s) (hfits : ∀ n, s.pendingStream = some n →
    ∀ f ∈ s.fanOuts, R ⟨n, .stream, true⟩ f.delivery) : Ordered R s.windowEnded := by
  have hout := h.setOut false none s.frames
    (s.pendingStream.map fun n => ⟨n, .stream, true, none, []⟩) le_rfl
    (fun _ hn => by cases hn) fun f hf => ?_
  · unfold Channel.windowEnded
    cases hpending : s.pendingStream <;> rw [hpending] at hout <;> exact hout
  · obtain ⟨n, hn, rfl⟩ := Option.map_eq_some_iff.mp hf
    obtain ⟨hlt, hdelivered, hflight⟩ := h.waits n hn
    exact ⟨hlt, hdelivered, fun g hg => ⟨hflight g hg, hfits n hn g hg⟩⟩

theorem Ordered.apart_of_ne (h : Ordered R s) {i j : ℕ} {f g : FanOut}
    (hf : s.fanOuts[i]? = some f) (hg : s.fanOuts[j]? = some g) (hne : i ≠ j) :
    R f.delivery g.delivery := by
  have hapart := List.pairwise_iff_getElem.mp h.apart
  obtain ⟨hi, rfl⟩ := List.getElem?_eq_some_iff.mp hf
  obtain ⟨hj, rfl⟩ := List.getElem?_eq_some_iff.mp hg
  rcases Nat.lt_or_gt_of_ne hne with hlt | hgt
  · have hboth := hapart i j (by rwa [List.length_map]) (by rwa [List.length_map]) hlt
    rw [List.getElem_map, List.getElem_map] at hboth
    exact hboth.1
  · have hboth := hapart j i (by rwa [List.length_map]) (by rwa [List.length_map]) hgt
    rw [List.getElem_map, List.getElem_map] at hboth
    exact hboth.2

/-- The frames stay related when one is sent to a socket, or turns out to be
one it need not be sent to. -/
theorem Ordered.setFanOut (h : Ordered R s) {i : ℕ} {f g : FanOut}
    (hf : s.fanOuts[i]? = some f) (hsame : g.delivery = f.delivery)
    {delivered : ℕ → List FrameDelivery} {joined : ℕ → Option ℕ}
    (hdelivered : ∀ ws, delivered ws = s.delivered ws ∨
      delivered ws = s.delivered ws ++ [f.delivery] ∧ MayReach f ws ∧ ¬MayReach g ws)
    (hmay : ∀ ws, MayReach g ws → MayReach f ws) :
    Ordered R { s with fanOuts := s.fanOuts.set i g, delivered, joined } := by
  have hmem := List.mem_iff_getElem?.mpr ⟨i, hf⟩
  have hframes : ∀ f' ∈ s.fanOuts.set i g, ∃ g' ∈ s.fanOuts, f'.delivery = g'.delivery ∧
      ∀ ws, MayReach f' ws → MayReach g' ws := by
    intro f' hf'
    rcases List.mem_or_eq_of_mem_set hf' with hf' | rfl
    · exact ⟨f', hf', rfl, fun _ hmay' => hmay'⟩
    · exact ⟨f, hmem, hsame, hmay⟩
  have hold : ∀ ws, ∀ d ∈ delivered ws, d ∈ s.delivered ws ∨
      d = f.delivery ∧ MayReach f ws ∧ ¬MayReach g ws := by
    intro ws d hd
    rcases hdelivered ws with heq | ⟨heq, hreach⟩
    · exact .inl (heq ▸ hd)
    · rw [heq] at hd
      rcases List.mem_append.mp hd with hd | hd
      · exact .inl hd
      · exact .inr ⟨List.mem_singleton.mp hd, hreach⟩
  refine ⟨fun ws d hd => ?_, fun f' hf' => ?_, fun ws => ?_, fun ws d hd f' hf' hmay' => ?_,
    fun n hn => ?_, ?_⟩
  · rcases hold ws d hd with hd | ⟨rfl, -⟩
    · exact h.delivered_lt ws d hd
    · exact h.fanOuts_lt f hmem
  · obtain ⟨g', hg', heq, -⟩ := hframes f' hf'
    have hlt := h.fanOuts_lt g' hg'
    rwa [← show f'.frame = g'.frame from congrArg FrameDelivery.frame heq] at hlt
  · show (delivered ws).Pairwise R
    rcases hdelivered ws with heq | ⟨heq, hreach, -⟩
    · exact heq ▸ h.delivered ws
    · rw [heq]
      refine List.pairwise_append.mpr ⟨h.delivered ws, List.pairwise_singleton _ _,
        fun d hd d' hd' => ?_⟩
      rw [List.mem_singleton.mp hd']
      exact h.flight ws d hd f hmem hreach
  · rcases hold ws d hd with hd | ⟨rfl, -, hnot⟩
    · obtain ⟨g', hg', heq, hreach⟩ := hframes f' hf'
      rw [heq]
      exact h.flight ws d hd g' hg' (hreach ws hmay')
    · -- the frame that was just sent, and another on its way
      obtain ⟨j, hj⟩ := List.mem_iff_getElem?.mp hf'
      by_cases hij : i = j
      · subst hij
        rw [List.getElem?_set_self (List.getElem?_eq_some_iff.mp hf).1] at hj
        cases hj
        exact absurd hmay' hnot
      · rw [List.getElem?_set_ne hij] at hj
        exact h.apart_of_ne hf hj hij
  · obtain ⟨hlt, hwaits, hflight⟩ := h.waits n hn
    refine ⟨hlt, fun ws d hd => ?_, fun f' hf' => ?_⟩
    · rcases hold ws d hd with hd | ⟨rfl, -⟩
      · exact hwaits ws d hd
      · exact hflight f hmem
    · obtain ⟨g', hg', heq, -⟩ := hframes f' hf'
      rw [heq]
      exact hflight g' hg'
  · have hmap : (s.fanOuts.set i g).map FanOut.delivery = s.fanOuts.map FanOut.delivery := by
      rw [List.map_set, hsame]
      refine List.ext_getElem? fun j => ?_
      by_cases hij : i = j
      · subst hij
        obtain ⟨hi, rfl⟩ := List.getElem?_eq_some_iff.mp hf
        rw [List.getElem?_set_self (by rwa [List.length_map]), List.getElem?_map, hf,
          Option.map_some]
      · rw [List.getElem?_set_ne hij]
    exact hmap ▸ h.apart

theorem Ordered.step (h : Ordered R s) (hinv : Inv s) (hR : FollowsBroadcasts R)
    {a : ChannelAction} (hfits : Fits R s a) (hstep : s.step a = some s') : Ordered R s' := by
  cases a with
  | subscribe ws =>
    simp only [Channel.step] at hstep
    split at hstep
    · cases hstep
    · cases hstep
      exact ⟨h.delivered_lt, h.fanOuts_lt, h.delivered, h.flight, h.waits, h.apart⟩
  | unsubscribe ws =>
    cases hstep
    split
    · exact ⟨h.delivered_lt, h.fanOuts_lt, h.delivered, h.flight, fun _ hn => (by cases hn),
        h.apart⟩
    · exact ⟨h.delivered_lt, h.fanOuts_lt, h.delivered, h.flight, h.waits, h.apart⟩
  | broadcast type =>
    cases hstep
    exact h.broadcast hinv hR hfits
  | windowEnded =>
    simp only [Channel.step] at hstep
    split at hstep
    · cases hstep
      exact h.windowEnded hfits
    · cases hstep
  | flush i =>
    obtain ⟨f, hf, hstep⟩ := Option.bind_eq_some_iff.mp hstep
    split at hstep
    · next htodo =>
      cases hstep
      refine h.setFanOut (g := { f with todo := some s.connections }) hf rfl
        (fun _ => .inl rfl) fun ws _ todo hsome => ?_
      rw [htodo] at hsome
      cases hsome
    · cases hstep
  | send i ws =>
    obtain ⟨f, hf, hstep⟩ := Option.bind_eq_some_iff.mp hstep
    obtain ⟨todo, htodo, hstep⟩ := Option.bind_eq_some_iff.mp hstep
    split at hstep
    · next hin =>
      cases hstep
      have hnodup := (hinv.todo f (List.mem_iff_getElem?.mpr ⟨i, hf⟩) todo htodo).1
      have hreach : ∀ ws', ws' ∈ todo → MayReach f ws' := by
        intro ws' hws' todo' htodo'
        rw [htodo] at htodo'
        cases htodo'
        exact hws'
      refine h.setFanOut (g := { f with todo := some (todo.erase ws) }) hf rfl
        (fun ws' => ?_) fun ws' hmay => hreach ws' (List.mem_of_mem_erase (hmay _ rfl))
      by_cases hws : ws' = ws
      · subst hws
        rw [Function.update_self]
        exact .inr ⟨rfl, hreach ws' hin, fun hmay => hnodup.not_mem_erase (hmay _ rfl)⟩
      · rw [Function.update_of_ne hws]
        exact .inl rfl
    · cases hstep
  | fail i ws =>
    obtain ⟨f, hf, hstep⟩ := Option.bind_eq_some_iff.mp hstep
    obtain ⟨todo, htodo, hstep⟩ := Option.bind_eq_some_iff.mp hstep
    split at hstep
    · cases hstep
      refine h.setFanOut (g := { f with todo := some (todo.erase ws), dead := ws :: f.dead }) hf
        rfl (fun _ => .inl rfl) fun ws' hmay todo' htodo' => ?_
      rw [htodo] at htodo'
      cases htodo'
      exact List.mem_of_mem_erase (hmay _ rfl)
    · cases hstep
  | finish i =>
    obtain ⟨f, hf, hstep⟩ := Option.bind_eq_some_iff.mp hstep
    split at hstep
    · cases hstep
      refine ⟨h.delivered_lt, fun g hg => h.fanOuts_lt g (List.mem_of_mem_eraseIdx hg), h.delivered,
        fun ws d hd g hg => h.flight ws d hd g (List.mem_of_mem_eraseIdx hg), fun n hn => ?_,
        h.apart.sublist ((List.eraseIdx_sublist _ _).map _)⟩
      obtain ⟨hlt, hwaits, hflight⟩ := h.waits n hn
      exact ⟨hlt, hwaits, fun g hg => hflight g (List.mem_of_mem_eraseIdx hg)⟩
    · cases hstep

/-- **The frames stay related along a run** whose steps fit. -/
theorem delivered_of_run (hR : FollowsBroadcasts R) {G : Channel → ChannelAction → Prop}
    (hfits : ∀ s a, G s a → Fits R s a) {as : List ChannelAction}
    (hguard : system.Guarded G {} as) (hrun : system.run {} as = some s') (ws : ℕ) :
    (s'.delivered ws).Pairwise R :=
  (system.run_invariant_of_guarded (I := fun s => Inv s ∧ Ordered R s)
    (fun s a _ h hG hstep => ⟨h.1.step hstep, h.2.step h.1 hR (hfits s a hG) hstep⟩)
    ⟨inv_empty, ordered_empty⟩ hguard hrun).2.delivered ws

end Ordered

/-- **The drafts of a channel.** The last one arrives at every subscriber that was
there for it, unless a frame hides it. Along a run that broadcasts no
hiding frame while a draft is sent, no draft comes behind a hiding frame
that was broadcast later; and along one whose sends do not overlap,
frames come in the order of their broadcasts, but for drafts that waited,
which may come behind ordinary ones. -/
theorem streams_of_run (as : List ChannelAction) {s : Channel} (h : system.run {} as = some s) :
    s.EventuallyDelivers ∧
      (system.Guarded HidesAlone {} as → ∀ ws, (s.delivered ws).Pairwise NotStale) ∧
      (system.Guarded OneAtATime {} as → ∀ ws, (s.delivered ws).Pairwise InOrder) :=
  ⟨(inv_empty.run h).eventuallyDelivers,
    fun hguard => delivered_of_run followsBroadcasts_notStale (fun _ _ => fits_of_hidesAlone)
      hguard h,
    fun hguard => delivered_of_run followsBroadcasts_inOrder (fun _ _ => fits_of_oneAtATime)
      hguard h⟩

/-- A draft that goes out, one that waits, an ordinary frame meanwhile, and the
message in the end. -/
def waitingRun : List ChannelAction :=
  [.subscribe 1, .broadcast "stream", .send 0 1, .finish 0, .broadcast "stream",
    .broadcast "thinking", .send 0 1, .finish 0, .windowEnded, .flush 0, .send 0 1, .finish 0,
    .broadcast "message", .send 0 1, .finish 0]

theorem waitingRun_delivered : (system.run {} waitingRun).map (fun s => s.delivered 1)
    = some [⟨0, .stream, false⟩, ⟨2, .ordinary, false⟩, ⟨1, .stream, true⟩,
      ⟨3, .hides, false⟩] := by
  decide +kernel

instance (s : Channel) (a : ChannelAction) : Decidable (HidesAlone s a) := by
  cases a <;> unfold HidesAlone <;> infer_instance

instance (s : Channel) (a : ChannelAction) : Decidable (OneAtATime s a) := by
  cases a <;> unfold OneAtATime <;> infer_instance

/-- In `waitingRun` no hiding frame meets a draft on its way, and no two sends
overlap. -/
theorem streams_of_waitingRun : ∃ s, system.run {} waitingRun = some s ∧ s.EventuallyDelivers ∧
    (∀ ws, (s.delivered ws).Pairwise NotStale) ∧ ∀ ws, (s.delivered ws).Pairwise InOrder := by
  obtain ⟨s, hs, -⟩ := Option.map_eq_some_iff.mp waitingRun_delivered
  obtain ⟨hlast, hstale, horder⟩ := streams_of_run waitingRun hs
  exact ⟨s, hs, hlast, hstale (TransitionSystem.guarded_of_check (by decide +kernel)),
    horder (TransitionSystem.guarded_of_check (by decide +kernel))⟩

/-- **A draft that waited comes behind a later frame.** -/
theorem draft_behind_ordinary : ∃ s, system.run {} waitingRun = some s ∧
    ¬(s.delivered 1).Pairwise fun a b => a.frame < b.frame := by
  obtain ⟨s, hs, hd⟩ := Option.map_eq_some_iff.mp waitingRun_delivered
  refine ⟨s, hs, ?_⟩
  rw [hd]
  decide

end Channel
