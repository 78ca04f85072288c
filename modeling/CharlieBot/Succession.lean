import CharlieBot.Lib.Transition
import Mathlib.Data.List.Nodup
import Mathlib.Data.List.Perm.Subperm
import Mathlib.Data.List.Range

/-!
# The succession of sessions

An elone hands a session over to a new one and leaves a pointer to it in the
old one's metadata. An event for the old session goes to the end of its
chain: the delivery walks the pointers, each read fresh from disk, takes the
lock of the session it ends at, and reads that session once more, since an
elone may have landed while it waited. An elone writes a session's pointer
under that session's lock.

What a delivery has confirmed under the lock can therefore not change until
it has written (`CallInv.keeps`), so an event is written once, in a session
without a successor. What the lock does not protect is the way there: an
ordinary session may be eloned again, and its pointer then leads elsewhere.

Pointers lead to sessions that were made later, so a walk ends. It gives up
behind a hundred hops all the same, and a delivery behind as many sessions
that were taken over while it waited; either takes more than a hundred and
one sessions (`delivers_of_run`).
-/

/-! ## The chain -/

/-- What the succession reads and writes of a session's metadata. -/
structure SessionMeta where
  successorSessionId : Option ℕ := none
  archived : Bool := false
  thumbsDown : Bool := false
  /-- Whether the session is a scheduled task's. -/
  scheduledTask : Bool := false
  deriving DecidableEq, Repr

namespace Succession

def successorChainHopLimit : ℕ := 100

def successorOf (metas : List SessionMeta) (i : ℕ) : Option ℕ :=
  (metas[i]?).bind SessionMeta.successorSessionId

/-- **A walk along the chain**: the sessions it has left, the one it is at,
and the pointer it read there. -/
structure Walk where
  path : List ℕ := []
  current : ℕ
  next : Option ℕ
  deriving DecidableEq, Repr

inductive WalkStep where
  | next (walk : Walk)
  | tail (session : ℕ)
  | raised
  deriving DecidableEq, Repr

/-- The loop of `resolve_successor_chain`. -/
def Walk.step (metas : List SessionMeta) (w : Walk) : WalkStep :=
  match w.next with
  | none => .tail w.current
  | some successor =>
    if successorChainHopLimit ≤ w.path.length then .raised
    else match metas[successor]? with
      | none => .tail w.current
      | some m => .next ⟨w.path ++ [w.current], successor, m.successorSessionId⟩

/-- The walk to its end, while nothing changes. -/
def Walk.finish (metas : List SessionMeta) : ℕ → Walk → WalkStep
  | 0, w => w.step metas
  | fuel + 1, w =>
    match w.step metas with
    | .next w => w.finish metas fuel
    | done => done

/-- `resolve_successor_chain`, while nothing changes. -/
def resolveSuccessorChain (metas : List SessionMeta) (session : ℕ) : Option WalkStep :=
  (metas[session]?).map fun m =>
    Walk.finish metas successorChainHopLimit ⟨[], session, m.successorSessionId⟩

/-- The pointers lead from each session to the next. -/
def Follows (metas : List SessionMeta) (sessions : List ℕ) : Prop :=
  sessions.IsChain fun i j => successorOf metas i = some j

instance (metas : List SessionMeta) (sessions : List ℕ) : Decidable (Follows metas sessions) :=
  inferInstanceAs (Decidable (List.IsChain _ _))

/-! ## The state and its steps -/

/-- An event in a chat, with the session it was for where that is another. -/
structure ChatEvent where
  event : String
  originSessionId : Option ℕ
  deriving DecidableEq, Repr

inductive ElonePhase where
  /-- The parent was read, and there is no reason to refuse. -/
  | checked
  | spawned (child : ℕ)
  /-- The parent's lock is taken. -/
  | locked (child : ℕ)
  | read (child : ℕ) (fresh : SessionMeta)
  /-- The parent's metadata is written. -/
  | saved (child : ℕ)
  | done (child : ℕ)
  | refused
  deriving DecidableEq, Repr

inductive DeliverPhase where
  /-- Before an attempt's walk. -/
  | starting
  | walking (walk : Walk)
  /-- The walk is at its end, and the delivery waits for the lock. -/
  | waiting (walk : Walk)
  | locked (walk : Walk)
  /-- The tail was read again and has no successor. -/
  | confirmed (walk : Walk)
  /-- The event is in the chat. -/
  | persisted (tail : ℕ)
  | returned (tail : Option ℕ)
  | raised
  deriving DecidableEq, Repr

/-- A call under way, or over. -/
inductive SuccessionCall where
  /-- `elone_session`. -/
  | elone (parent : ℕ) (scheduled : Bool) (phase : ElonePhase)
  /-- `deliver_to_successor`; `chased` are the tails that were taken over. -/
  | deliver (session : ℕ) (event : String) (chased : List ℕ) (phase : DeliverPhase)
  deriving DecidableEq, Repr

/-- What was true when an event was written. -/
structure PersistRecord where
  call : ℕ
  session : ℕ
  event : ChatEvent
  /-- The pointer of the session at that moment. -/
  successor : Option ℕ
  /-- Whether the pointers the delivery had followed were still the same. -/
  unchanged : Bool
  /-- Where a walk at that moment ends. -/
  walk : Option WalkStep

end Succession

open Succession in
/-- **The sessions on disk, their locks and the calls.** -/
structure Succession where
  /-- The metadata, a session's number being the order it was made in. -/
  metas : List SessionMeta := []
  locks : ℕ → Option ℕ := fun _ => none
  calls : ℕ → Option SuccessionCall := fun _ => none
  chats : ℕ → List ChatEvent := fun _ => []
  persisted : List PersistRecord := []

namespace Succession

inductive SuccessionAction where
  | elone (call parent : ℕ)
  | deliver (call session : ℕ) (event : String)
  | step (call : ℕ)
  /-- A scheduled parent is busy, or the task's backend cannot be written. -/
  | refuse (call : ℕ)
  deriving DecidableEq, Repr

variable (s : Succession)

/-- A call in another phase. -/
def setCall (c : ℕ) (call : SuccessionCall) : Succession :=
  { s with calls := Function.update s.calls c (some call) }

def setLock (i : ℕ) (holder : Option ℕ) : Succession :=
  { s with locks := Function.update s.locks i holder }

/-- `elone_session` goes on. -/
def stepElone (c parent : ℕ) (scheduled : Bool) : ElonePhase → Option Succession
  | .checked =>
    some ({ s with metas := s.metas ++ [({ scheduledTask := scheduled } : SessionMeta)] }.setCall c
      (.elone parent scheduled (.spawned s.metas.length)))
  | .spawned child =>
    if s.locks parent = none then
      some ((s.setLock parent (some c)).setCall c (.elone parent scheduled (.locked child)))
    else none
  | .locked child =>
    match s.metas[parent]? with
    | none => some ((s.setLock parent none).setCall c (.elone parent scheduled (.done child)))
    | some fresh => some (s.setCall c (.elone parent scheduled (.read child fresh)))
  | .read child fresh =>
    some ({ s with metas := s.metas.set parent { fresh with
      archived := true, thumbsDown := true, successorSessionId := some child } }.setCall c
        (.elone parent scheduled (.saved child)))
  | .saved child =>
    some ((s.setLock parent none).setCall c (.elone parent scheduled (.done child)))
  | .done _ => none
  | .refused => none

def stamped (session : ℕ) (event : String) (tail : ℕ) : ChatEvent :=
  ⟨event, if tail ≠ session then some session else none⟩

def record (c session : ℕ) (event : String) (w : Walk) : PersistRecord where
  call := c
  session := w.current
  event := stamped session event w.current
  successor := successorOf s.metas w.current
  unchanged := Follows s.metas (w.path ++ [w.current])
  walk := resolveSuccessorChain s.metas session

/-- The event is written into the chat of the session the walk ended at. -/
def persist (c session : ℕ) (event : String) (w : Walk) : Succession :=
  { s with
    chats := Function.update s.chats w.current
      (s.chats w.current ++ [stamped session event w.current])
    persisted := s.persisted ++ [s.record c session event w] }

/-- `deliver_to_successor` goes on. -/
def stepDeliver (c session : ℕ) (event : String) (chased : List ℕ) :
    DeliverPhase → Option Succession
  | .starting =>
    match s.metas[session]? with
    | none => some (s.setCall c (.deliver session event chased (.returned none)))
    | some m => some (s.setCall c
        (.deliver session event chased (.walking ⟨[], session, m.successorSessionId⟩)))
  | .walking w =>
    match w.step s.metas with
    | .next w => some (s.setCall c (.deliver session event chased (.walking w)))
    | .tail _ => some (s.setCall c (.deliver session event chased (.waiting w)))
    | .raised => some (s.setCall c (.deliver session event chased .raised))
  | .waiting w =>
    if s.locks w.current = none then
      some ((s.setLock w.current (some c)).setCall c (.deliver session event chased (.locked w)))
    else none
  | .locked w =>
    match s.metas[w.current]? with
    | none => some ((s.setLock w.current none).setCall c
        (.deliver session event chased (.returned none)))
    | some fresh =>
      if fresh.successorSessionId.isSome then
        some ((s.setLock w.current none).setCall c (.deliver session event (chased ++ [w.current])
          (if chased.length < successorChainHopLimit then .starting else .raised)))
      else some (s.setCall c (.deliver session event chased (.confirmed w)))
  | .confirmed w =>
    some ((s.persist c session event w).setCall c
      (.deliver session event chased (.persisted w.current)))
  | .persisted tail =>
    some ((s.setLock tail none).setCall c (.deliver session event chased (.returned (some tail))))
  | .returned _ => none
  | .raised => none

def step : SuccessionAction → Option Succession
  | .elone c parent =>
    if s.calls c = none then do
      let m ← s.metas[parent]?
      some (s.setCall c (.elone parent m.scheduledTask
        (if m.successorSessionId.isSome ∧ m.scheduledTask then .refused else .checked)))
    else none
  | .deliver c session event =>
    if s.calls c = none ∧ session < s.metas.length then
      some (s.setCall c (.deliver session event [] .starting))
    else none
  | .step c =>
    match s.calls c with
    | none => none
    | some (.elone parent scheduled phase) => s.stepElone c parent scheduled phase
    | some (.deliver session event chased phase) => s.stepDeliver c session event chased phase
  | .refuse c =>
    match s.calls c with
    | some (.elone parent true .checked) => some (s.setCall c (.elone parent true .refused))
    | some (.elone parent true (.spawned child)) =>
      some ({ s with metas := s.metas.modify child fun m => { m with archived := true } }.setCall c
        (.elone parent true .refused))
    | _ => none

def system : TransitionSystem Succession SuccessionAction := ⟨step⟩

/-- **The pointers lead to sessions that were made later.** -/
def PointsForward (metas : List SessionMeta) : Prop :=
  ∀ i j, successorOf metas i = some j → i < j ∧ j < metas.length

/-- Chains before any call. -/
structure IsInitial : Prop where
  forward : PointsForward s.metas
  locks : ∀ i, s.locks i = none
  calls : ∀ c, s.calls c = none
  persisted : s.persisted = []

/-- **What the deliveries have done.** -/
structure Delivers (s₀ s : Succession) : Prop where
  /-- A delivery that returned has written its event once, into the session it
  names. -/
  once : ∀ c session event chased tail,
    s.calls c = some (.deliver session event chased (.returned tail)) →
    ∃ r, tail = some r.session ∧ r.event = stamped session event r.session
      ∧ s.persisted.filter (·.call = c) = [r]
  /-- One that raised has written nothing, and it takes more than a hundred
  and one sessions to raise. -/
  raised : ∀ c session event chased,
    s.calls c = some (.deliver session event chased .raised) →
    s.persisted.filter (·.call = c) = [] ∧ successorChainHopLimit + 1 < s.metas.length
  /-- None writes twice. -/
  atMostOnce : ∀ c, (s.persisted.filter (·.call = c)).length ≤ 1
  /-- A session had no successor when it was written into, and unless one of
  the pointers on the way was changed, a walk at that moment ends there. -/
  tail : ∀ r ∈ s.persisted, r.successor = none ∧
    (r.unchanged = true → r.walk = some (.tail r.session))
  /-- The chats have what was written, and nothing else came in. -/
  chats : ∀ i, s.chats i
    = s₀.chats i ++ (s.persisted.filter (·.session = i)).map PersistRecord.event

/-! ## The pointers -/

theorem successorOf_of_getElem? {metas : List SessionMeta} {i : ℕ} {m : SessionMeta}
    (h : metas[i]? = some m) : successorOf metas i = m.successorSessionId := by
  rw [successorOf, h]
  rfl

theorem lt_length_of_successorOf {metas : List SessionMeta} {i : ℕ}
    (h : (successorOf metas i).isSome = true) : i < metas.length := by
  obtain ⟨j, hj⟩ := Option.isSome_iff_exists.mp h
  obtain ⟨m, hm, -⟩ := Option.bind_eq_some_iff.mp hj
  exact (List.getElem?_eq_some_iff.mp hm).1

theorem successorOf_append {metas : List SessionMeta} {m : SessionMeta}
    (hm : m.successorSessionId = none) (i : ℕ) :
    successorOf (metas ++ [m]) i = successorOf metas i := by
  unfold successorOf
  rcases Nat.lt_trichotomy i metas.length with hlt | rfl | hgt
  · rw [List.getElem?_append_left hlt]
  · rw [List.getElem?_concat_length, List.getElem?_eq_none (Nat.le_refl _)]
    exact hm
  · rw [List.getElem?_eq_none (by rw [List.length_append, List.length_singleton]; omega),
      List.getElem?_eq_none (Nat.le_of_lt hgt)]

theorem successorOf_set_of_ne {metas : List SessionMeta} {p i : ℕ} (m : SessionMeta)
    (h : i ≠ p) : successorOf (metas.set p m) i = successorOf metas i := by
  rw [successorOf, List.getElem?_set_ne (Ne.symm h)]
  rfl

theorem successorOf_set_self {metas : List SessionMeta} {p : ℕ} (m : SessionMeta)
    (h : p < metas.length) : successorOf (metas.set p m) p = m.successorSessionId :=
  successorOf_of_getElem? (List.getElem?_set_self h)

theorem successorOf_archive (metas : List SessionMeta) (p i : ℕ) :
    successorOf (metas.modify p fun m => { m with archived := true }) i = successorOf metas i := by
  unfold successorOf
  rw [List.getElem?_modify]
  cases metas[i]? with
  | none => rfl
  | some m =>
    show (if p = i then { m with archived := true } else m).successorSessionId
      = m.successorSessionId
    split <;> rfl

/-! ## The walk -/

/-- **What holds of a walk** of a delivery that was overtaken at some
tails. -/
structure WalkInv (metas : List SessionMeta) (session : ℕ) (chased : List ℕ) (w : Walk) :
    Prop where
  head : (w.path ++ [w.current]).head? = some session
  hops : w.path.length ≤ successorChainHopLimit
  /-- There is a session before the current one for every hop. -/
  le : w.path.length ≤ w.current
  lt : w.current < metas.length
  origin : session < metas.length
  next : ∀ j, w.next = some j → w.current < j ∧ j < metas.length
  /-- A session that was read without a successor is another one. -/
  fresh : w.next = none → w.current ∉ chased

/-- Tails that were taken over have successors. -/
structure ChasedInv (metas : List SessionMeta) (chased : List ℕ) : Prop where
  nodup : chased.Nodup
  taken : ∀ i ∈ chased, (successorOf metas i).isSome = true

variable {metas : List SessionMeta} {session : ℕ} {chased : List ℕ} {w : Walk}

theorem read_inv (hforward : PointsForward metas) (hchased : ChasedInv metas chased) {i : ℕ}
    {m : SessionMeta} (hm : metas[i]? = some m) :
    (∀ j, m.successorSessionId = some j → i < j ∧ j < metas.length) ∧
      (m.successorSessionId = none → i ∉ chased) := by
  have hsucc := successorOf_of_getElem? hm
  refine ⟨fun j hj => hforward i j (hsucc.trans hj), fun hnone hmem => ?_⟩
  have htaken := hchased.taken i hmem
  rw [hsucc, hnone] at htaken
  cases htaken

theorem walkInv_start (hforward : PointsForward metas) (hchased : ChasedInv metas chased)
    {m : SessionMeta} (hm : metas[session]? = some m) :
    WalkInv metas session chased ⟨[], session, m.successorSessionId⟩ where
  head := rfl
  hops := Nat.zero_le _
  le := Nat.zero_le _
  lt := (List.getElem?_eq_some_iff.mp hm).1
  origin := (List.getElem?_eq_some_iff.mp hm).1
  next := (read_inv hforward hchased hm).1
  fresh := (read_inv hforward hchased hm).2

/-- **A walk goes on**, ends at a session that was read without a successor,
or gives up, which takes more than a hundred and one sessions. -/
theorem WalkInv.step (h : WalkInv metas session chased w) (hforward : PointsForward metas)
    (hchased : ChasedInv metas chased) :
    match w.step metas with
    | .next w' => WalkInv metas session chased w'
    | .tail tail => tail = w.current ∧ w.next = none
    | .raised => successorChainHopLimit + 1 < metas.length := by
  unfold Walk.step
  cases hnext : w.next with
  | none => exact ⟨rfl, rfl⟩
  | some j =>
    obtain ⟨hlt, hj⟩ := h.next j hnext
    by_cases hhops : successorChainHopLimit ≤ w.path.length
    · simp only [if_pos hhops]
      have := h.le
      omega
    · have hm : metas[j]? = some metas[j] := List.getElem?_eq_getElem hj
      simp only [if_neg hhops, hm]
      obtain ⟨hpointer, hfresh⟩ := read_inv hforward hchased hm
      refine ⟨?_, ?_, ?_, hj, h.origin, hpointer, hfresh⟩
      · rw [List.head?_append_of_ne_nil _ (List.append_ne_nil_of_right_ne_nil _
          (List.cons_ne_nil _ _))]
        exact h.head
      · rw [List.length_append, List.length_singleton]
        omega
      · have := h.le
        rw [List.length_append, List.length_singleton]
        show w.path.length + 1 ≤ j
        omega

/-- **A walk along the same pointers ends at the same session.** -/
theorem finish_of_follows (hforward : PointsForward metas) {rest : List ℕ} {fuel tail : ℕ}
    (hnext : w.next = successorOf metas w.current)
    (hfollows : Follows metas (w.current :: rest))
    (htail : (w.current :: rest).getLast? = some tail) (hend : successorOf metas tail = none)
    (hhops : w.path.length + rest.length ≤ successorChainHopLimit) (hfuel : rest.length ≤ fuel) :
    w.finish metas fuel = .tail tail := by
  induction rest generalizing w fuel with
  | nil =>
    obtain rfl : w.current = tail := Option.some.inj htail
    have hstep : w.step metas = .tail w.current := by rw [Walk.step, hnext, hend]
    cases fuel with
    | zero => exact hstep
    | succ fuel => rw [Walk.finish, hstep]
  | cons j rest ih =>
    rw [List.length_cons] at hhops hfuel
    obtain ⟨fuel, rfl⟩ := Nat.exists_eq_add_of_lt (Nat.lt_of_lt_of_le (Nat.succ_pos _) hfuel)
    have hj : successorOf metas w.current = some j := (List.isChain_cons_cons.mp hfollows).1
    have hlt := (hforward _ _ hj).2
    have hm : metas[j]? = some metas[j] := List.getElem?_eq_getElem hlt
    have hstep : w.step metas = .next ⟨w.path ++ [w.current], j, metas[j].successorSessionId⟩ := by
      rw [Walk.step, hnext, hj]
      simp only [if_neg (by omega : ¬ successorChainHopLimit ≤ w.path.length), hm]
    rw [Nat.zero_add, Walk.finish, hstep]
    refine ih (successorOf_of_getElem? hm).symm hfollows.tail htail ?_ (by omega)
    rw [List.length_append, List.length_singleton]
    omega

/-- Where the pointers are as a walk followed them, and the session it is at
has no successor, a walk from the start ends there. -/
theorem resolve_of_follows (h : WalkInv metas session chased w) (hforward : PointsForward metas)
    (hend : successorOf metas w.current = none)
    (hfollows : Follows metas (w.path ++ [w.current])) :
    resolveSuccessorChain metas session = some (.tail w.current) := by
  have hlen := h.hops
  have hhead := h.head
  have hlast : (w.path ++ [w.current]).getLast? = some w.current := List.getLast?_concat
  have hlength : (w.path ++ [w.current]).length = w.path.length + 1 := by
    rw [List.length_append, List.length_singleton]
  cases hpath : w.path ++ [w.current] with
  | nil =>
    rw [hpath] at hhead
    cases hhead
  | cons i rest =>
    rw [hpath] at hfollows hhead hlast hlength
    cases hhead
    rw [List.length_cons] at hlength
    have hm : ∃ m, metas[session]? = some m := by
      cases rest with
      | nil =>
        obtain rfl : session = w.current := Option.some.inj hlast
        exact ⟨_, List.getElem?_eq_getElem h.lt⟩
      | cons j rest =>
        have hj : successorOf metas session = some j := (List.isChain_cons_cons.mp hfollows).1
        exact ⟨_, List.getElem?_eq_getElem (lt_length_of_successorOf (by rw [hj]; rfl))⟩
    obtain ⟨m, hm⟩ := hm
    rw [resolveSuccessorChain, hm]
    refine congrArg some (finish_of_follows hforward (successorOf_of_getElem? hm).symm hfollows hlast
      hend ?_ (by omega))
    show 0 + rest.length ≤ _
    omega

/-! ## The calls -/

def recordsOf (c : ℕ) : List PersistRecord := s.persisted.filter (·.call = c)

/-- **What holds of an elone** in a phase. -/
def EloneInv (c parent : ℕ) : ElonePhase → Prop
  | .checked => parent < s.metas.length
  | .spawned child => parent < child ∧ child < s.metas.length
  | .locked child => parent < child ∧ child < s.metas.length ∧ s.locks parent = some c
  | .read child _ => parent < child ∧ child < s.metas.length ∧ s.locks parent = some c
  | .saved _ => s.locks parent = some c
  | .done _ => True
  | .refused => True

def Written (c session : ℕ) (event : String) (tail : ℕ) : Prop :=
  ∃ r, r.session = tail ∧ r.event = stamped session event tail ∧ s.recordsOf c = [r]

/-- **What holds of a delivery** in a phase. -/
def DeliverInv (c session : ℕ) (event : String) (chased : List ℕ) : DeliverPhase → Prop
  | .starting => session < s.metas.length ∧ s.recordsOf c = []
  | .walking w => WalkInv s.metas session chased w ∧ s.recordsOf c = []
  | .waiting w => WalkInv s.metas session chased w ∧ w.next = none ∧ s.recordsOf c = []
  | .locked w => WalkInv s.metas session chased w ∧ w.next = none ∧ s.locks w.current = some c
      ∧ s.recordsOf c = []
  | .confirmed w => WalkInv s.metas session chased w ∧ successorOf s.metas w.current = none
      ∧ s.locks w.current = some c ∧ s.recordsOf c = []
  | .persisted tail => s.locks tail = some c ∧ s.Written c session event tail
  | .returned tail => ∃ t, tail = some t ∧ s.Written c session event t
  | .raised => successorChainHopLimit + 1 < s.metas.length ∧ s.recordsOf c = []

/-- **What holds of a call.** -/
def CallInv (c : ℕ) : SuccessionCall → Prop
  | .elone parent _ phase => s.EloneInv c parent phase ∧ s.recordsOf c = []
  | .deliver session event chased phase =>
    ChasedInv s.metas chased ∧ s.DeliverInv c session event chased phase

variable {s s' s₀ : Succession}

theorem WalkInv.keeps {metas' : List SessionMeta} (h : WalkInv metas session chased w)
    (hlen : metas.length ≤ metas'.length) : WalkInv metas' session chased w where
  head := h.head
  hops := h.hops
  le := h.le
  lt := Nat.lt_of_lt_of_le h.lt hlen
  origin := Nat.lt_of_lt_of_le h.origin hlen
  next j hj := ⟨(h.next j hj).1, Nat.lt_of_lt_of_le (h.next j hj).2 hlen⟩
  fresh := h.fresh

/-- **What another call does leaves a call's invariant**: no session goes
away or loses its successor, and of what the call has the lock of nothing
changes. -/
theorem CallInv.keeps {c : ℕ} {call : SuccessionCall} (h : s.CallInv c call)
    (hlen : s.metas.length ≤ s'.metas.length)
    (hgrow : ∀ i, (successorOf s.metas i).isSome = true → (successorOf s'.metas i).isSome = true)
    (hlocks : ∀ i, s.locks i = some c →
      s'.locks i = some c ∧ successorOf s'.metas i = successorOf s.metas i)
    (hrecords : s'.recordsOf c = s.recordsOf c) : s'.CallInv c call := by
  cases call with
  | elone parent scheduled phase =>
    obtain ⟨hphase, hnone⟩ := h
    refine ⟨?_, hrecords.trans hnone⟩
    cases phase with
    | checked => exact Nat.lt_of_lt_of_le hphase hlen
    | spawned child => exact ⟨hphase.1, Nat.lt_of_lt_of_le hphase.2 hlen⟩
    | locked child =>
      exact ⟨hphase.1, Nat.lt_of_lt_of_le hphase.2.1 hlen, (hlocks _ hphase.2.2).1⟩
    | read child fresh =>
      exact ⟨hphase.1, Nat.lt_of_lt_of_le hphase.2.1 hlen, (hlocks _ hphase.2.2).1⟩
    | saved child => exact (hlocks _ hphase).1
    | done child => trivial
    | refused => trivial
  | deliver session event chased phase =>
    obtain ⟨hchased, hphase⟩ := h
    refine ⟨⟨hchased.nodup, fun i hi => hgrow i (hchased.taken i hi)⟩, ?_⟩
    cases phase with
    | starting => exact ⟨Nat.lt_of_lt_of_le hphase.1 hlen, hrecords.trans hphase.2⟩
    | walking w => exact ⟨hphase.1.keeps hlen, hrecords.trans hphase.2⟩
    | waiting w => exact ⟨hphase.1.keeps hlen, hphase.2.1, hrecords.trans hphase.2.2⟩
    | locked w =>
      obtain ⟨hwalk, hnext, hlock, hnone⟩ := hphase
      exact ⟨hwalk.keeps hlen, hnext, (hlocks _ hlock).1, hrecords.trans hnone⟩
    | confirmed w =>
      obtain ⟨hwalk, hend, hlock, hnone⟩ := hphase
      exact ⟨hwalk.keeps hlen, (hlocks _ hlock).2.trans hend, (hlocks _ hlock).1,
        hrecords.trans hnone⟩
    | persisted tail =>
      obtain ⟨hlock, r, hsession, hevent, hrec⟩ := hphase
      exact ⟨(hlocks _ hlock).1, r, hsession, hevent, hrecords.trans hrec⟩
    | returned tail =>
      obtain ⟨t, htail, r, hsession, hevent, hrec⟩ := hphase
      exact ⟨t, htail, r, hsession, hevent, hrecords.trans hrec⟩
    | raised => exact ⟨Nat.lt_of_lt_of_le hphase.1 hlen, hrecords.trans hphase.2⟩

/-- **What holds of a state.** -/
structure Inv (s₀ s : Succession) : Prop where
  forward : PointsForward s.metas
  calls : ∀ c call, s.calls c = some call → s.CallInv c call
  idle : ∀ c, s.calls c = none → s.recordsOf c = []
  tail : ∀ r ∈ s.persisted, r.successor = none ∧
    (r.unchanged = true → r.walk = some (.tail r.session))
  chats : ∀ i, s.chats i
    = s₀.chats i ++ (s.persisted.filter (·.session = i)).map PersistRecord.event

theorem Inv.initial (h : s.IsInitial) : Inv s s where
  forward := h.forward
  calls c call hcall := by
    rw [h.calls] at hcall
    cases hcall
  idle c _ := by
    rw [recordsOf, h.persisted]
    rfl
  tail r hr := by
    rw [h.persisted] at hr
    cases hr
  chats i := by
    rw [h.persisted]
    exact (List.append_nil _).symm

theorem Inv.advance (h : Inv s₀ s) {c : ℕ} {call : SuccessionCall}
    {metas : List SessionMeta} {locks : ℕ → Option ℕ} (hforward : PointsForward metas)
    (hlen : s.metas.length ≤ metas.length)
    (hgrow : ∀ i, (successorOf s.metas i).isSome = true → (successorOf metas i).isSome = true)
    (hlocks : ∀ c' ≠ c, ∀ i, s.locks i = some c' →
      locks i = some c' ∧ successorOf metas i = successorOf s.metas i)
    (hcall : ({ s with metas, locks } : Succession).CallInv c call) :
    Inv s₀ ({ s with metas, locks }.setCall c call) := by
  refine ⟨hforward, fun c' other hother => ?_, fun c' hidle => ?_, h.tail, h.chats⟩
  · by_cases hc : c' = c
    · subst hc
      have hself : Function.update s.calls c' (some call) c' = some other := hother
      rw [Function.update_self] at hself
      cases hself
      exact hcall
    · have hold : Function.update s.calls c (some call) c' = some other := hother
      rw [Function.update_of_ne hc] at hold
      exact (h.calls c' other hold).keeps hlen hgrow (hlocks c' hc) rfl
  · by_cases hc : c' = c
    · subst hc
      have hself : Function.update s.calls c' (some call) c' = none := hidle
      rw [Function.update_self] at hself
      cases hself
    · have hold : Function.update s.calls c (some call) c' = none := hidle
      rw [Function.update_of_ne hc] at hold
      exact h.idle c' hold

theorem Inv.goto (h : Inv s₀ s) {c : ℕ} {call : SuccessionCall} (hcall : s.CallInv c call) :
    Inv s₀ (s.setCall c call) :=
  h.advance h.forward (Nat.le_refl _) (fun _ hi => hi) (fun _ _ _ hi => ⟨hi, rfl⟩) hcall

theorem Inv.take (h : Inv s₀ s) {c i : ℕ} {call : SuccessionCall} (hfree : s.locks i = none)
    (hcall : (s.setLock i (some c)).CallInv c call) :
    Inv s₀ ((s.setLock i (some c)).setCall c call) := by
  refine h.advance h.forward (Nat.le_refl _) (fun _ hi => hi) (fun c' _ j hj => ⟨?_, rfl⟩) hcall
  rw [Function.update_of_ne]
  · exact hj
  · rintro rfl
    rw [hfree] at hj
    cases hj

theorem Inv.release (h : Inv s₀ s) {c i : ℕ} {call : SuccessionCall} (hheld : s.locks i = some c)
    (hcall : (s.setLock i none).CallInv c call) :
    Inv s₀ ((s.setLock i none).setCall c call) := by
  refine h.advance h.forward (Nat.le_refl _) (fun _ hi => hi) (fun c' hc j hj => ⟨?_, rfl⟩) hcall
  rw [Function.update_of_ne]
  · exact hj
  · rintro rfl
    rw [hheld] at hj
    exact hc (Option.some.inj hj).symm

theorem Inv.stepElone (h : Inv s₀ s) {c parent : ℕ} {scheduled : Bool} {phase : ElonePhase}
    (hcall : s.calls c = some (.elone parent scheduled phase))
    (hstep : s.stepElone c parent scheduled phase = some s') : Inv s₀ s' := by
  obtain ⟨hphase, hnone⟩ := h.calls c _ hcall
  cases phase with
  | checked =>
    cases hstep
    have hlen : s.metas.length
        < (s.metas ++ [({ scheduledTask := scheduled } : SessionMeta)]).length := by
      rw [List.length_append, List.length_singleton]
      exact Nat.lt_succ_self _
    have hsucc : ∀ i, successorOf (s.metas ++ [({ scheduledTask := scheduled } : SessionMeta)]) i
        = successorOf s.metas i := successorOf_append rfl
    refine h.advance (fun i j hj => ?_) (Nat.le_of_lt hlen) (fun i hi => by rwa [hsucc])
      (fun _ _ i hi => ⟨hi, hsucc i⟩) ⟨⟨hphase, hlen⟩, hnone⟩
    rw [hsucc] at hj
    exact ⟨(h.forward i j hj).1, Nat.lt_trans (h.forward i j hj).2 hlen⟩
  | spawned child =>
    simp only [Succession.stepElone] at hstep
    split at hstep
    · next hfree =>
      cases hstep
      exact h.take hfree ⟨⟨hphase.1, hphase.2, Function.update_self _ _ _⟩, hnone⟩
    · cases hstep
  | locked child =>
    simp only [Succession.stepElone] at hstep
    split at hstep
    · cases hstep
      exact h.release hphase.2.2 ⟨trivial, hnone⟩
    · cases hstep
      exact h.goto ⟨hphase, hnone⟩
  | read child fresh =>
    cases hstep
    obtain ⟨hlt, hchild, hlock⟩ := hphase
    -- the parent's pointer, which only this call can write now
    have hself := @successorOf_set_self s.metas parent
      { fresh with archived := true, thumbsDown := true, successorSessionId := some child }
      (Nat.lt_trans hlt hchild)
    refine h.advance (fun i j hj => ?_) (by rw [List.length_set]) (fun i hi => ?_)
      (fun c' hc i hi => ⟨hi, ?_⟩) ⟨hlock, hnone⟩
    · rw [List.length_set]
      by_cases hi : i = parent
      · subst hi
        rw [hself] at hj
        cases hj
        exact ⟨hlt, hchild⟩
      · rw [successorOf_set_of_ne _ hi] at hj
        exact h.forward i j hj
    · by_cases hip : i = parent
      · subst hip
        rw [hself]
        rfl
      · rwa [successorOf_set_of_ne _ hip]
    · refine successorOf_set_of_ne _ ?_
      rintro rfl
      rw [hlock] at hi
      exact hc (Option.some.inj hi).symm
  | saved child =>
    cases hstep
    exact h.release hphase ⟨trivial, hnone⟩
  | done child => cases hstep
  | refused => cases hstep

theorem ChasedInv.length_lt (h : ChasedInv metas chased) (hforward : PointsForward metas) :
    chased.length < metas.length ∨ chased = [] := by
  cases chased with
  | nil => exact .inr rfl
  | cons i rest =>
    left
    have hsub : (i :: rest) ⊆ List.range (metas.length - 1) := by
      intro j hj
      obtain ⟨k, hk⟩ := Option.isSome_iff_exists.mp (h.taken j hj)
      obtain ⟨hlt, hlen⟩ := hforward j k hk
      rw [List.mem_range]
      omega
    have hle := (List.subperm_of_subset h.nodup hsub).length_le
    rw [List.length_range] at hle
    have hi := lt_length_of_successorOf (h.taken i List.mem_cons_self)
    omega

theorem recordsOf_persist (s : Succession) (c session : ℕ) (event : String) (w : Walk) (c' : ℕ) :
    (s.persist c session event w).recordsOf c'
      = s.recordsOf c' ++ if c = c' then [s.record c session event w] else [] := by
  refine (List.filter_append ..).trans (congrArg (s.recordsOf c' ++ ·) ?_)
  by_cases hc : c = c'
  · rw [if_pos hc]
    refine List.filter_eq_self.mpr fun r hr => ?_
    rw [List.mem_singleton.mp hr]
    exact decide_eq_true hc
  · rw [if_neg hc]
    refine List.filter_eq_nil_iff.mpr fun r hr => ?_
    rw [List.mem_singleton.mp hr]
    exact fun hcall => hc (of_decide_eq_true hcall)

theorem chats_persist (s : Succession) (c session : ℕ) (event : String) (w : Walk) (i : ℕ) :
    (s.persist c session event w).chats i = s.chats i
      ++ ([s.record c session event w].filter (·.session = i)).map PersistRecord.event := by
  by_cases hi : w.current = i
  · have hall : [s.record c session event w].filter (·.session = i)
        = [s.record c session event w] := by
      refine List.filter_eq_self.mpr fun r hr => ?_
      rw [List.mem_singleton.mp hr]
      exact decide_eq_true hi
    rw [hall]
    subst hi
    exact Function.update_self _ _ _
  · have hnone : [s.record c session event w].filter (·.session = i) = [] := by
      refine List.filter_eq_nil_iff.mpr fun r hr => ?_
      rw [List.mem_singleton.mp hr]
      exact fun hsession => hi (of_decide_eq_true hsession)
    rw [hnone]
    exact (Function.update_of_ne (Ne.symm hi) _ _).trans (List.append_nil _).symm

theorem Inv.stepDeliver (h : Inv s₀ s) {c session : ℕ} {event : String} {chased : List ℕ}
    {phase : DeliverPhase} (hcall : s.calls c = some (.deliver session event chased phase))
    (hstep : s.stepDeliver c session event chased phase = some s') : Inv s₀ s' := by
  obtain ⟨hchased, hphase⟩ := h.calls c _ hcall
  cases phase with
  | starting =>
    simp only [Succession.stepDeliver] at hstep
    split at hstep
    · next hm => exact absurd (List.getElem?_eq_none_iff.mp hm) (Nat.not_le_of_lt hphase.1)
    · next m hm =>
      cases hstep
      exact h.goto ⟨hchased, walkInv_start h.forward hchased hm, hphase.2⟩
  | walking w =>
    have hwalk := hphase.1.step h.forward hchased
    simp only [Succession.stepDeliver] at hstep
    split at hstep
    · next w' hw =>
      cases hstep
      rw [hw] at hwalk
      exact h.goto ⟨hchased, hwalk, hphase.2⟩
    · next t hw =>
      cases hstep
      rw [hw] at hwalk
      exact h.goto ⟨hchased, hphase.1, hwalk.2, hphase.2⟩
    · next hw =>
      cases hstep
      rw [hw] at hwalk
      exact h.goto ⟨hchased, hwalk, hphase.2⟩
  | waiting w =>
    simp only [Succession.stepDeliver] at hstep
    split at hstep
    · next hfree =>
      cases hstep
      exact h.take hfree ⟨hchased, hphase.1, hphase.2.1, Function.update_self _ _ _, hphase.2.2⟩
    · cases hstep
  | locked w =>
    obtain ⟨hwalk, hnext, hlock, hnone⟩ := hphase
    simp only [Succession.stepDeliver] at hstep
    split at hstep
    · next hm => exact absurd (List.getElem?_eq_none_iff.mp hm) (Nat.not_le_of_lt hwalk.lt)
    · next m hm =>
      have hsucc := successorOf_of_getElem? hm
      split at hstep
      · next htaken =>
        cases hstep
        -- the tail was taken over while the delivery waited
        have hchased' : ChasedInv s.metas (chased ++ [w.current]) := by
          refine ⟨?_, fun i hi => ?_⟩
          · rw [List.nodup_append]
            refine ⟨hchased.nodup, List.nodup_singleton _, fun i hi j hj => ?_⟩
            rw [List.mem_singleton.mp hj]
            rintro rfl
            exact hwalk.fresh hnext hi
          · rcases List.mem_append.mp hi with hi | hi
            · exact hchased.taken i hi
            · rw [List.mem_singleton.mp hi, hsucc]
              exact htaken
        refine h.release hlock ⟨hchased', ?_⟩
        split
        · exact ⟨hwalk.origin, hnone⟩
        · refine ⟨?_, hnone⟩
          rcases hchased'.length_lt h.forward with hlt | hnil
          · rw [List.length_append, List.length_singleton] at hlt
            show _ < s.metas.length
            omega
          · exact absurd hnil (List.append_ne_nil_of_right_ne_nil _ (List.cons_ne_nil _ _))
      · next hfresh =>
        cases hstep
        rw [Bool.not_eq_true, Option.isSome_eq_false_iff, Option.isNone_iff_eq_none] at hfresh
        exact h.goto ⟨hchased, hwalk, hsucc.trans hfresh, hlock, hnone⟩
  | confirmed w =>
    cases hstep
    obtain ⟨hwalk, hend, hlock, hnone⟩ := hphase
    have hrecords := s.recordsOf_persist c session event w
    refine ⟨h.forward, fun c' other hother => ?_, fun c' hidle => ?_, fun r hr => ?_, fun i => ?_⟩
    · by_cases hc : c' = c
      · subst hc
        have hself : Function.update s.calls c' (some (.deliver session event chased
          (.persisted w.current))) c' = some other := hother
        rw [Function.update_self] at hself
        cases hself
        refine ⟨hchased, hlock, s.record c' session event w, rfl, rfl, ?_⟩
        exact (hrecords c').trans (by rw [hnone, if_pos rfl, List.nil_append])
      · have hold : Function.update s.calls c (some (.deliver session event chased
          (.persisted w.current))) c' = some other := hother
        rw [Function.update_of_ne hc] at hold
        refine (h.calls c' other hold).keeps (Nat.le_refl _) (fun _ hi => hi)
          (fun i hi => ⟨hi, rfl⟩) ?_
        exact (hrecords c').trans (by rw [if_neg (Ne.symm hc), List.append_nil])
    · by_cases hc : c' = c
      · subst hc
        have hself : Function.update s.calls c' (some (.deliver session event chased
          (.persisted w.current))) c' = none := hidle
        rw [Function.update_self] at hself
        cases hself
      · have hold : Function.update s.calls c (some (.deliver session event chased
          (.persisted w.current))) c' = none := hidle
        rw [Function.update_of_ne hc] at hold
        exact (hrecords c').trans (by rw [h.idle c' hold, if_neg (Ne.symm hc), List.append_nil])
    · rcases List.mem_append.mp hr with hr | hr
      · exact h.tail r hr
      · rw [List.mem_singleton.mp hr]
        refine ⟨hend, fun hsame => ?_⟩
        exact resolve_of_follows hwalk h.forward hend (of_decide_eq_true hsame)
    · exact (s.chats_persist c session event w i).trans (by
        rw [h.chats i, List.append_assoc, ← List.map_append, ← List.filter_append]
        rfl)
  | persisted tail =>
    cases hstep
    exact h.release hphase.1 ⟨hchased, tail, rfl, hphase.2⟩
  | returned tail => cases hstep
  | raised => cases hstep

/-! ## The run -/

theorem Inv.begin (h : Inv s₀ s) {c : ℕ} {call : SuccessionCall}
    (hcall : s.recordsOf c = [] → s.CallInv c call) (hidle : s.calls c = none) :
    Inv s₀ (s.setCall c call) := h.goto (hcall (h.idle c hidle))

theorem Inv.step (h : Inv s₀ s) {a : SuccessionAction} (hstep : s.step a = some s') :
    Inv s₀ s' := by
  cases a with
  | elone c parent =>
    simp only [Succession.step] at hstep
    split at hstep
    · next hidle =>
      obtain ⟨m, hm, hstep⟩ := Option.bind_eq_some_iff.mp hstep
      cases hstep
      refine h.begin (fun hnone => ⟨?_, hnone⟩) hidle
      split
      · trivial
      · exact (List.getElem?_eq_some_iff.mp hm).1
    · cases hstep
  | deliver c session event =>
    simp only [Succession.step] at hstep
    split at hstep
    · next hidle =>
      cases hstep
      refine h.begin (fun hnone => ⟨⟨List.nodup_nil, fun i hi => ?_⟩, hidle.2, hnone⟩) hidle.1
      exact absurd hi List.not_mem_nil
    · cases hstep
  | step c =>
    simp only [Succession.step] at hstep
    split at hstep
    · cases hstep
    · next hcall => exact h.stepElone hcall hstep
    · next hcall => exact h.stepDeliver hcall hstep
  | refuse c =>
    simp only [Succession.step] at hstep
    split at hstep
    · next parent hcall =>
      cases hstep
      exact h.goto ⟨trivial, (h.calls c _ hcall).2⟩
    · next parent child hcall =>
      cases hstep
      have hsucc := successorOf_archive s.metas child
      refine h.advance (fun i j hj => ?_) (by rw [List.length_modify])
        (fun i hi => by rwa [hsucc]) (fun _ _ i hi => ⟨hi, hsucc i⟩)
        ⟨trivial, (h.calls c _ hcall).2⟩
      rw [hsucc] at hj
      rw [List.length_modify]
      exact h.forward i j hj
    · cases hstep

theorem Inv.length_recordsOf_le (h : Inv s₀ s) (c : ℕ) : (s.recordsOf c).length ≤ 1 := by
  have hzero : s.recordsOf c = [] → (s.recordsOf c).length ≤ 1 := fun hnone => by
    rw [hnone]
    exact Nat.zero_le 1
  have hone : ∀ session event tail, s.Written c session event tail →
      (s.recordsOf c).length ≤ 1 := fun session event tail hwritten => by
    obtain ⟨r, -, -, hrec⟩ := hwritten
    rw [hrec]
    exact Nat.le_refl 1
  cases hcall : s.calls c with
  | none => exact hzero (h.idle c hcall)
  | some call =>
    have hinv := h.calls c call hcall
    cases call with
    | elone parent scheduled phase => exact hzero hinv.2
    | deliver session event chased phase =>
      obtain ⟨-, hphase⟩ := hinv
      cases phase with
      | starting => exact hzero hphase.2
      | walking w => exact hzero hphase.2
      | waiting w => exact hzero hphase.2.2
      | locked w => exact hzero hphase.2.2.2
      | confirmed w => exact hzero hphase.2.2.2
      | persisted tail => exact hone _ _ _ hphase.2
      | returned tail =>
        obtain ⟨t, -, hwritten⟩ := hphase
        exact hone _ _ _ hwritten
      | raised => exact hzero hphase.2

theorem Inv.delivers (h : Inv s₀ s) : Delivers s₀ s where
  once c session event chased tail hcall := by
    obtain ⟨-, t, rfl, r, rfl, hevent, hrec⟩ := h.calls c _ hcall
    exact ⟨r, rfl, hevent, hrec⟩
  raised c session event chased hcall :=
    ⟨(h.calls c _ hcall).2.2, (h.calls c _ hcall).2.1⟩
  atMostOnce := h.length_recordsOf_le
  tail := h.tail
  chats := h.chats

/-- **An event is delivered once, to a session without a successor**, in every
interleaving of elones and deliveries over any chains. A walk or a delivery
raises only where there are more than a hundred and one sessions, and then
nothing is written. -/
theorem delivers_of_run {as : List SuccessionAction} (hinit : s₀.IsInitial)
    (hrun : system.run s₀ as = some s) : Delivers s₀ s :=
  (system.run_invariant (I := Inv s₀) (fun _ _ _ h hstep => h.step hstep)
    (Inv.initial hinit) as hrun).delivers

/-- One session, which nothing has happened to. -/
def single : Succession := { metas := [{}] }

theorem isInitial_single : single.IsInitial where
  forward i j h := by
    have hlt : i < single.metas.length := lt_length_of_successorOf (by rw [h]; rfl)
    obtain rfl : i = 0 := Nat.lt_one_iff.mp hlt
    cases h
  locks _ := rfl
  calls _ := rfl
  persisted := rfl

/-- A delivery waits for the lock while the session is eloned, and goes on to
the successor. -/
theorem delivers_of_run_overtaken : ∃ s, system.run single
      ([.deliver 1 0 "done", .step 1, .step 1, .elone 0 0] ++ List.replicate 5 (.step 0)
        ++ List.replicate 9 (.step 1)) = some s
    ∧ s.chats 1 = [⟨"done", some 0⟩] ∧ Delivers single s := by
  have hchats : (system.run single
      ([.deliver 1 0 "done", .step 1, .step 1, .elone 0 0] ++ List.replicate 5 (.step 0)
        ++ List.replicate 9 (.step 1))).map (fun s => s.chats 1)
      = some [⟨"done", some 0⟩] := by decide +kernel
  obtain ⟨s, hrun, hchat⟩ := Option.map_eq_some_iff.mp hchats
  exact ⟨s, hrun, hchat, delivers_of_run isInitial_single hrun⟩

/-- A chain of a hundred and two sessions. -/
def longChain : Succession where
  metas := (List.range 102).map fun i =>
    { successorSessionId := if i < 101 then some (i + 1) else none }

theorem isInitial_longChain : longChain.IsInitial where
  forward i j h := by
    obtain ⟨m, hm, hj⟩ := Option.bind_eq_some_iff.mp h
    have hlen : longChain.metas.length = 102 := by
      rw [longChain, List.length_map, List.length_range]
    rw [longChain, List.getElem?_map] at hm
    obtain ⟨k, hk, rfl⟩ := Option.map_eq_some_iff.mp hm
    obtain ⟨hlt, heq⟩ := List.getElem?_eq_some_iff.mp hk
    rw [List.getElem_range] at heq
    subst heq
    simp only at hj
    split at hj
    · cases hj
      rw [hlen]
      omega
    · cases hj
  locks _ := rfl
  calls _ := rfl
  persisted := rfl

/-- **A walk of a long chain raises.** An event for the first of a hundred and
two sessions is written nowhere. -/
theorem raised_of_longChain : longChain.IsInitial ∧ ∃ s, system.run longChain
      (.deliver 0 0 "done" :: List.replicate 102 (.step 0)) = some s
    ∧ s.calls 0 = some (.deliver 0 "done" [] .raised) ∧ s.persisted.length = 0 := by
  have hcalls : (system.run longChain
      (.deliver 0 0 "done" :: List.replicate 102 (.step 0))).map
        (fun s => (s.calls 0, s.persisted.length))
      = some (some (.deliver 0 "done" [] .raised), 0) := by decide +kernel
  obtain ⟨s, hrun, hcall⟩ := Option.map_eq_some_iff.mp hcalls
  exact ⟨isInitial_longChain, s, hrun, (Prod.mk.inj hcall).1, (Prod.mk.inj hcall).2⟩

end Succession
