import CharlieBot.Lib.Transition
import Mathlib.Data.List.Nodup
import Mathlib.Order.Basic

/-!
# Switching sessions

A click on a session tears the view down, shows a placeholder and asks for
the session's bootstrap; what comes back is rendered only if no other switch
was begun since. Creating a session asks first and tears down when the answer
is there. Leaving shows the welcome view at once. The number of the latest
switch, `switchGeneration`, is what tells an answer that it is late.

It is not asked everywhere. A bootstrap that fails opens its session as a
page, late or not; a creation that succeeds takes the view, whatever was
clicked since; and a click on the session that is still shown returns at once,
with the switch that is under way left to land. Along the runs in which
**no request fails or lands that is not of the latest action**, but for a
switch of an earlier generation, and the session that is shown is not clicked
while a switch is under way, the view is that of the latest action as soon as
no request is outstanding, and answers that are late leave it alone
(`shows_latest_of_run`). Otherwise it is not (`superseded_failure_navigates`,
`pending_switch_lands`).
-/

/-! ## The view -/

/-- A message of a session, by its event. -/
structure ViewMessage where
  session : String
  eventIndex : ℕ
  deriving DecidableEq, Repr

/-- **What the server answers for a session**: its messages, and how many
events they stand for. -/
structure Bootstrap where
  session : String
  messages : List ViewMessage
  eventCount : ℕ
  own : ∀ m ∈ messages, m.session = session

/-- `buildEmptySessionBootstrap`. -/
def Bootstrap.empty (session : String) : Bootstrap := ⟨session, [], 0, fun _ h => nomatch h⟩

structure OlderPage where
  session : String
  messages : List ViewMessage
  own : ∀ m ∈ messages, m.session = session

/-- What the main pane shows. -/
inductive Pane where
  | welcome
  /-- The messages, or the placeholder of a switch above what is left. -/
  | container (placeholder : Option String) (messages : List ViewMessage)
  deriving DecidableEq, Repr

/-- Older messages go before the others, those that are there left out. -/
def Pane.prepend (pane : Pane) (page : List ViewMessage) : Pane :=
  match pane with
  | welcome => welcome
  | container placeholder messages =>
    container placeholder (page.filter (· ∉ messages) ++ messages)

/-- A message goes behind the others. -/
def Pane.append (pane : Pane) (m : ViewMessage) : Pane :=
  match pane with
  | welcome => welcome
  | container placeholder messages => container placeholder (messages ++ [m])

/-- A bootstrap that was asked for. -/
structure SwitchFlight where
  action : ℕ
  session : String
  generation : ℕ
  deriving DecidableEq, Repr

/-- An older page that was asked for. -/
structure OlderFlight where
  session : String
  generation : ℕ
  deriving DecidableEq, Repr

/-- What the latest action that is no open creation is after. -/
inductive Aim where
  | session (id : String)
  | welcome
  deriving DecidableEq, Repr

/-- **The tab while sessions are switched.** -/
structure SwitchTab where
  sessionId : Option String
  url : Option String
  pane : Pane
  eventCursor : ℕ
  /-- The session the socket is open to. -/
  socket : Option String
  switchGeneration : ℕ := 0
  switches : List SwitchFlight := []
  creates : List ℕ := []
  olders : List OlderFlight := []
  /-- The bootstraps that came too late. -/
  bootstrapCache : String → Option Bootstrap := fun _ => none
  actions : ℕ := 0
  aim : Aim
  /-- The switch that is to lead there, if it was asked for. -/
  aimSwitch : Option ℕ := none
  /-- The creations that came after it and did not fail. -/
  creating : List ℕ := []

inductive SwitchAction where
  /-- A click on a session. Its cached bootstrap may be fresh, and its terminal
  stopped; from the welcome view the page is loaded. -/
  | switchSession (id : String) (fresh tuiStopped : Bool) (page : Bootstrap)
  | createSession
  | leave
  | bootstrapLanded (i : ℕ) (data : Bootstrap)
  /-- A bootstrap fails, and the page that is navigated to loads. -/
  | bootstrapFailed (i : ℕ) (page : Bootstrap)
  /-- A session was created. From the welcome view its page is loaded. -/
  | created (i : ℕ) (page : Bootstrap)
  | createFailed (i : ℕ)
  | loadOlder
  | olderLanded (i : ℕ) (page : OlderPage)
  | olderFailed (i : ℕ)
  /-- The socket brings a message. -/
  | frame (m : ViewMessage)

namespace SwitchTab

variable (s : SwitchTab)

/-- A page load: nothing of the old page is left. -/
def openPage (page : Bootstrap) : SwitchTab where
  sessionId := some page.session
  url := some page.session
  pane := .container none page.messages
  eventCursor := page.eventCount
  socket := some page.session
  actions := s.actions
  aim := s.aim
  creating := s.creating

/-- The page a tab begins with. -/
def start : Option Bootstrap → SwitchTab
  | some page =>
    { sessionId := some page.session, url := some page.session,
      pane := .container none page.messages, eventCursor := page.eventCount,
      socket := some page.session, aim := .session page.session }
  | none =>
    { sessionId := none, url := none, pane := .welcome, eventCursor := 0, socket := none,
      aim := .welcome }

/-- The globals are set, the view is rendered, and the socket connected. -/
def land (id : String) (data : Bootstrap) : SwitchTab :=
  { s with
    sessionId := some id, url := some id, eventCursor := data.eventCount,
    pane := .container none data.messages, socket := some id }

/-- An action that is after a session or the welcome view. -/
def act (aim : Aim) (aimSwitch : Option ℕ) : SwitchTab :=
  { s with actions := s.actions + 1, aim, aimSwitch, creating := [] }

def switchSession (id : String) (fresh tuiStopped : Bool) (page : Bootstrap) : SwitchTab :=
  match s.sessionId with
  | none => (s.act (.session id) none).openPage page
  | some current =>
    if id = current then
      let s := s.act (.session id) none
      if tuiStopped then { s with socket := some current } else s
    else
      let generation := s.switchGeneration + 1
      let torn := { s with
        switchGeneration := generation, socket := none, pane := .container (some id) [] }
      match if fresh then s.bootstrapCache id else none with
      | some data => (torn.act (.session id) none).land id data
      | none =>
        { torn.act (.session id) (some s.actions) with
          switches := s.switches ++ [⟨s.actions, id, generation⟩] }

/-- `renderNoActiveSessionView`. -/
def leave : SwitchTab :=
  { s.act .welcome none with
    switchGeneration := s.switchGeneration + 1, sessionId := none, url := none, pane := .welcome,
    eventCursor := 0, socket := none }

/-- A bootstrap is there. If it is late it is cached. -/
def bootstrapLanded (flight : SwitchFlight) (data : Bootstrap) : SwitchTab :=
  let s := { s with switches := s.switches.erase flight }
  if flight.generation ≠ s.switchGeneration then
    { s with bootstrapCache := fun id =>
        if id = flight.session then some data else s.bootstrapCache id }
  else s.land flight.session data

/-- What a creation that is answered leaves of the creations. -/
def answered (k : ℕ) : SwitchTab :=
  { s with creates := s.creates.filter (· ≠ k), creating := s.creating.filter (· ≠ k) }

def IsLatestCreate (k : ℕ) : Prop := s.creating.getLast? = some k

instance (k : ℕ) : Decidable (s.IsLatestCreate k) := by unfold IsLatestCreate; infer_instance

/-- The session a creation made is what its action is after, if no other came
since. -/
def afterCreated (k : ℕ) (id : String) : SwitchTab :=
  if s.IsLatestCreate k then { s.answered k with aim := .session id, aimSwitch := none, creating := [] }
  else s.answered k

/-- A session was created: the rest of `createSession`. -/
def created (k : ℕ) (page : Bootstrap) : SwitchTab :=
  let s := s.afterCreated k page.session
  match s.sessionId with
  | none => s.openPage page
  | some _ =>
    { s with switchGeneration := s.switchGeneration + 1 }.land page.session
      (.empty page.session)

/-- An older page lands, if its session and generation still own the view. -/
def olderLanded (flight : OlderFlight) (page : OlderPage) : SwitchTab :=
  if flight.generation ≠ s.switchGeneration ∨ s.sessionId ≠ some flight.session then s
  else { s with pane := s.pane.prepend page.messages }

def step : SwitchAction → Option SwitchTab
  | .switchSession id fresh tuiStopped page =>
    if page.session = id then some (s.switchSession id fresh tuiStopped page) else none
  | .createSession =>
    some { s with
      actions := s.actions + 1, creates := s.creates ++ [s.actions],
      creating := s.creating ++ [s.actions] }
  | .leave => if s.sessionId.isSome then some s.leave else none
  | .bootstrapLanded i data =>
    s.switches[i]?.bind fun flight =>
      if data.session = flight.session then some (s.bootstrapLanded flight data) else none
  | .bootstrapFailed i page =>
    s.switches[i]?.bind fun flight =>
      if page.session = flight.session then some (s.openPage page) else none
  | .created i page => s.creates[i]?.map fun k => s.created k page
  | .createFailed i => s.creates[i]?.map s.answered
  | .loadOlder =>
    s.sessionId.map fun id => { s with olders := s.olders ++ [⟨id, s.switchGeneration⟩] }
  | .olderLanded i page =>
    s.olders[i]?.bind fun flight =>
      if page.session = flight.session then
        some ({ s with olders := s.olders.eraseIdx i }.olderLanded flight page)
      else none
  | .olderFailed i => s.olders[i]?.map fun _ => { s with olders := s.olders.eraseIdx i }
  | .frame m =>
    if s.socket = some m.session ∧ s.sessionId = some m.session then
      some { s with
        pane := s.pane.append m, eventCursor := max s.eventCursor (m.eventIndex + 1) }
    else none

/-- **A tab as a transition system.** -/
def system : TransitionSystem SwitchTab SwitchAction := ⟨step⟩

/-! ## The view of an action -/

/-- The shown session, the URL, the messages, the cursor and the socket. -/
def shown : Option String × Option String × Pane × ℕ × Option String :=
  (s.sessionId, s.url, s.pane, s.eventCursor, s.socket)

/-- **The view is the one of a session, or the welcome view.** Behind and
before the messages of the session's bootstrap there are only its own. -/
def Shows : Aim → Prop
  | .session id =>
    s.sessionId = some id ∧ s.url = some id ∧ s.socket = some id
      ∧ ∃ (data : Bootstrap) (older live : List ViewMessage), data.session = id
        ∧ s.pane = .container none (older ++ (data.messages ++ live))
        ∧ (∀ m ∈ older, m.session = id) ∧ (∀ m ∈ live, m.session = id)
        ∧ s.eventCursor = live.foldl (fun c m => max c (m.eventIndex + 1)) data.eventCount
  | .welcome =>
    s.sessionId = none ∧ s.url = none ∧ s.socket = none ∧ s.pane = .welcome ∧ s.eventCursor = 0

/-- **Once no request is outstanding, the view is that of the latest
action.** -/
def ShowsLatest : Prop :=
  s.switches = [] → s.creates = [] → s.creating = [] ∧ s.Shows s.aim

def IsLatestSwitch (flight : SwitchFlight) : Prop :=
  s.creating = [] ∧ s.aimSwitch = some flight.action

instance (flight : SwitchFlight) : Decidable (s.IsLatestSwitch flight) := by
  unfold IsLatestSwitch
  infer_instance

/-- An answer to a request that is not of the latest action. -/
def IsSuperseded : SwitchAction → Prop
  | .bootstrapLanded i _ => ∀ flight ∈ s.switches[i]?, ¬ s.IsLatestSwitch flight
  | .bootstrapFailed i _ => ∀ flight ∈ s.switches[i]?, ¬ s.IsLatestSwitch flight
  | .created i _ => ∀ k ∈ s.creates[i]?, ¬ s.IsLatestCreate k
  | .createFailed i => ∀ k ∈ s.creates[i]?, ¬ s.IsLatestCreate k
  | _ => False

/-- **What a step has to meet**: an answer that is not of the latest action is
a bootstrap of an earlier generation, or a creation that failed; and the
session that is shown is not clicked while a switch is under way. -/
def Meets : SwitchAction → Prop
  | .switchSession id _ _ _ =>
    s.sessionId = some id → ∀ flight ∈ s.switches, flight.generation ≠ s.switchGeneration
  | .bootstrapLanded i _ =>
    ∀ flight ∈ s.switches[i]?, flight.generation = s.switchGeneration → s.IsLatestSwitch flight
  | .bootstrapFailed i _ => ∀ flight ∈ s.switches[i]?, s.IsLatestSwitch flight
  | .created i _ => ∀ k ∈ s.creates[i]?, s.IsLatestCreate k
  | _ => True

instance (a : SwitchAction) : Decidable (s.Meets a) := by
  cases a <;> unfold Meets <;> infer_instance

/-! ## The invariant -/

/-- **A switch is under way, or the view is that of the aim.** -/
def UnderWay : Prop :=
  ∃ flight ∈ s.switches, flight.generation = s.switchGeneration
    ∧ s.aimSwitch = some flight.action

/-- No switch will take the view. -/
def Quiet : Prop := ∀ flight ∈ s.switches, flight.generation ≠ s.switchGeneration

/-- **What holds of a tab.** -/
structure Inv : Prop where
  cache : ∀ id data, s.bootstrapCache id = some data → data.session = id
  generations : ∀ flight ∈ s.switches, flight.generation ≤ s.switchGeneration
  nodup : (s.switches.map SwitchFlight.generation).Nodup
  aimed : ∀ flight ∈ s.switches, s.aimSwitch = some flight.action → s.aim = .session flight.session
  actions : ∀ flight ∈ s.switches, flight.action < s.actions
  creating : ∀ k ∈ s.creating, k ∈ s.creates
  view : s.UnderWay ∨ s.Quiet ∧ s.Shows s.aim

variable {s} {t : SwitchTab}

theorem shows_land (id : String) {data : Bootstrap} (h : data.session = id) :
    (s.land id data).Shows (.session id) :=
  ⟨rfl, rfl, rfl, data, [], [], h, by
    show _ = Pane.container none ([] ++ (data.messages ++ []))
    rw [List.append_nil]
    rfl, fun m hm => absurd hm List.not_mem_nil, fun m hm => absurd hm List.not_mem_nil, rfl⟩

theorem shows_openPage (page : Bootstrap) : (s.openPage page).Shows (.session page.session) :=
  shows_land (s := s) page.session rfl

theorem Inv.start (page : Option Bootstrap) : (start page).Inv := by
  refine ⟨?_, ?_, ?_, ?_, ?_, ?_, .inr ⟨?_, ?_⟩⟩
  all_goals cases page
  case refine_8.none => exact ⟨rfl, rfl, rfl, rfl, rfl⟩
  case refine_8.some page =>
    exact shows_land (s := SwitchTab.start none) page.session rfl
  case refine_3.none => exact List.nodup_nil
  case refine_3.some => exact List.nodup_nil
  all_goals first | exact fun _ h => absurd h List.not_mem_nil | exact fun _ _ h => nomatch h

theorem Inv.showsLatest (h : s.Inv) : s.ShowsLatest := by
  intro hswitches hcreates
  refine ⟨?_, ?_⟩
  · refine List.eq_nil_iff_forall_not_mem.mpr fun k hk => ?_
    have := h.creating k hk
    rw [hcreates] at this
    exact List.not_mem_nil this
  · rcases h.view with ⟨flight, hflight, -⟩ | ⟨-, hshows⟩
    · rw [hswitches] at hflight
      exact absurd hflight List.not_mem_nil
    · exact hshows

theorem Inv.openPage {page : Bootstrap} (haim : s.aim = .session page.session)
    (hcreating : s.creating = []) : (s.openPage page).Inv := by
  refine ⟨fun _ _ h => (nomatch h), fun _ h => absurd h List.not_mem_nil, List.nodup_nil,
    fun _ h => absurd h List.not_mem_nil, fun _ h => absurd h List.not_mem_nil, fun k hk => ?_,
    .inr ⟨fun _ h => absurd h List.not_mem_nil, ?_⟩⟩
  · have hnil : (s.openPage page).creating = [] := hcreating
    rw [hnil] at hk
    exact absurd hk List.not_mem_nil
  · have heq : (s.openPage page).aim = .session page.session := haim
    rw [heq]
    exact shows_openPage page

theorem Inv.withView (h : s.Inv) {t : SwitchTab} (hcache : t.bootstrapCache = s.bootstrapCache)
    (hgen : t.switchGeneration = s.switchGeneration) (hswitches : t.switches = s.switches)
    (hactions : t.actions = s.actions) (haim : t.aim = s.aim)
    (haimSwitch : t.aimSwitch = s.aimSwitch) (hcreates : t.creates = s.creates)
    (hcreating : t.creating = s.creating) (hshows : s.Shows s.aim → t.Shows t.aim) : t.Inv := by
  refine ⟨?_, ?_, ?_, ?_, ?_, ?_, ?_⟩
  · rw [hcache]
    exact h.cache
  · rw [hswitches, hgen]
    exact h.generations
  · rw [hswitches]
    exact h.nodup
  · rw [hswitches, haimSwitch, haim]
    exact h.aimed
  · rw [hswitches, hactions]
    exact h.actions
  · rw [hcreates, hcreating]
    exact h.creating
  · unfold UnderWay Quiet
    rw [hswitches, hgen, haimSwitch]
    exact h.view.imp_right fun hv => ⟨hv.1, hshows hv.2⟩

/-- **A switch, a creation or a leave takes the view** with a new generation:
what is under way is late. -/
theorem Inv.take (h : s.Inv) {t : SwitchTab} (hcache : t.bootstrapCache = s.bootstrapCache)
    (hgen : t.switchGeneration = s.switchGeneration + 1) (hswitches : t.switches = s.switches)
    (hactions : s.actions ≤ t.actions) (haimSwitch : t.aimSwitch = none)
    (hcreating : t.creating = []) (hshows : t.Shows t.aim) : t.Inv := by
  refine ⟨?_, ?_, ?_, ?_, ?_, ?_, .inr ⟨?_, hshows⟩⟩
  · rw [hcache]
    exact h.cache
  · rw [hswitches, hgen]
    exact fun flight hf => Nat.le_succ_of_le (h.generations flight hf)
  · rw [hswitches]
    exact h.nodup
  · rw [haimSwitch]
    exact fun _ _ hc => nomatch hc
  · rw [hswitches]
    exact fun flight hf => Nat.lt_of_lt_of_le (h.actions flight hf) hactions
  · rw [hcreating]
    exact fun k hk => absurd hk List.not_mem_nil
  · unfold Quiet
    rw [hswitches, hgen]
    exact fun flight hf => Nat.ne_of_lt (Nat.lt_succ_of_le (h.generations flight hf))

/-! ## One step -/

theorem Inv.switchSession (h : s.Inv) {id : String} {fresh tuiStopped : Bool} {page : Bootstrap}
    (hpage : page.session = id)
    (hmeets : s.sessionId = some id → s.Quiet) :
    (s.switchSession id fresh tuiStopped page).Inv := by
  unfold SwitchTab.switchSession
  split
  · exact Inv.openPage (by rw [hpage]; rfl) rfl
  · next current hcurrent =>
    split
    · next heq =>
      -- the session is shown, and nothing is under way
      subst heq
      have hquiet := hmeets hcurrent
      have hshows : s.Shows (.session id) := by
        rcases h.view with ⟨flight, hflight, hgen, -⟩ | ⟨-, hshows⟩
        · exact absurd hgen (hquiet flight hflight)
        · cases haim : s.aim with
          | session other =>
            rw [haim] at hshows
            have hother := hshows.1
            rw [hcurrent] at hother
            cases hother
            exact hshows
          | welcome =>
            rw [haim] at hshows
            have hnone := hshows.1
            rw [hcurrent] at hnone
            cases hnone
      have hact : (s.act (.session id) none).Inv :=
        ⟨h.cache, h.generations, h.nodup, fun _ _ hc => (nomatch hc),
          fun flight hf => Nat.lt_succ_of_lt (h.actions flight hf),
          fun k hk => absurd hk List.not_mem_nil, .inr ⟨hquiet, hshows⟩⟩
      dsimp only
      split
      · exact hact.withView rfl rfl rfl rfl rfl rfl rfl rfl
          fun _ => ⟨hshows.1, hshows.2.1, rfl, hshows.2.2.2⟩
      · exact hact
    · dsimp only
      split
      · next data hdata =>
        have hsession : data.session = id := by
          cases fresh with
          | true => exact h.cache id data hdata
          | false => cases hdata
        exact h.take rfl rfl rfl (Nat.le_succ _) rfl rfl (shows_land id hsession)
      · refine ⟨h.cache, fun flight hf => ?_, ?_, fun flight hf haim => ?_, fun flight hf => ?_,
          fun k hk => absurd hk List.not_mem_nil, .inl ⟨_, List.mem_append_right _
            (List.mem_singleton_self _), rfl, rfl⟩⟩
        · rcases List.mem_append.mp hf with hf | hf
          · exact Nat.le_succ_of_le (h.generations flight hf)
          · cases List.mem_singleton.mp hf
            exact Nat.le_refl _
        · show ((s.switches ++ [_]).map SwitchFlight.generation).Nodup
          rw [List.map_append, List.map_singleton, List.nodup_append]
          refine ⟨h.nodup, List.nodup_singleton _, fun g hg g' hg' heq => ?_⟩
          obtain ⟨flight, hf, rfl⟩ := List.mem_map.mp hg
          rw [List.mem_singleton.mp hg'] at heq
          exact absurd (h.generations flight hf) (by rw [heq]; exact Nat.not_succ_le_self _)
        · rcases List.mem_append.mp hf with hf | hf
          · have := h.actions flight hf
            rw [← Option.some.inj haim] at this
            exact absurd this (Nat.lt_irrefl _)
          · cases List.mem_singleton.mp hf
            rfl
        · rcases List.mem_append.mp hf with hf | hf
          · exact Nat.lt_succ_of_lt (h.actions flight hf)
          · cases List.mem_singleton.mp hf
            exact Nat.lt_succ_self _

theorem Inv.flight_unique (h : s.Inv) {flight other : SwitchFlight} (hf : flight ∈ s.switches)
    (ho : other ∈ s.switches) (heq : flight.generation = other.generation) : flight = other :=
  List.inj_on_of_nodup_map h.nodup hf ho heq

theorem Inv.bootstrapLanded (h : s.Inv) {flight : SwitchFlight} {data : Bootstrap}
    (hflight : flight ∈ s.switches) (hdata : data.session = flight.session)
    (hmeets : flight.generation = s.switchGeneration → s.IsLatestSwitch flight) :
    (s.bootstrapLanded flight data).Inv := by
  have hmem : ∀ other ∈ s.switches.erase flight, other ∈ s.switches :=
    fun other => List.mem_of_mem_erase
  have hnodup : ((s.switches.erase flight).map SwitchFlight.generation).Nodup :=
    h.nodup.sublist (List.erase_sublist.map _)
  unfold SwitchTab.bootstrapLanded
  dsimp only
  split
  · next hlate =>
    refine ⟨fun id d hd => ?_, fun o ho => h.generations o (hmem o ho), hnodup,
      fun o ho => h.aimed o (hmem o ho), fun o ho => h.actions o (hmem o ho), h.creating, ?_⟩
    · dsimp only at hd
      split at hd
      · next hid =>
        cases hd
        rw [hdata, hid]
      · exact h.cache id d hd
    · rcases h.view with ⟨other, hother, hgen, haim⟩ | ⟨hquiet, hshows⟩
      · refine .inl ⟨other, ?_, hgen, haim⟩
        refine (List.mem_erase_of_ne fun heq => hlate ?_).mpr hother
        rw [← heq]
        exact hgen
      · exact .inr ⟨fun o ho => hquiet o (hmem o ho), hshows⟩
  · next hcurrent =>
    have hgen : flight.generation = s.switchGeneration := not_not.mp hcurrent
    obtain ⟨-, haim⟩ := hmeets hgen
    refine ⟨h.cache, fun o ho => h.generations o (hmem o ho), hnodup,
      fun o ho => h.aimed o (hmem o ho), fun o ho => h.actions o (hmem o ho), h.creating,
      .inr ⟨fun other hother hsame => ?_, ?_⟩⟩
    · -- it was the only one of its generation
      have heq := h.flight_unique hflight (hmem other hother) (hgen.trans hsame.symm)
      subst heq
      have hnd : s.switches.Nodup := List.Nodup.of_map _ h.nodup
      exact (List.Nodup.not_mem_erase hnd) hother
    · have heq : (({ s with switches := s.switches.erase flight }).land flight.session data).aim
          = .session flight.session := h.aimed flight hflight haim
      rw [heq]
      exact shows_land flight.session hdata

theorem Inv.created (h : s.Inv) {k : ℕ} {page : Bootstrap} (hmeets : s.IsLatestCreate k) :
    (s.created k page).Inv := by
  have hafter : s.afterCreated k page.session = { s.answered k with
      aim := .session page.session, aimSwitch := none, creating := [] } := if_pos hmeets
  unfold SwitchTab.created
  rw [hafter]
  dsimp only
  split
  · exact Inv.openPage rfl rfl
  · exact h.take rfl rfl rfl (Nat.le_refl _) rfl rfl (shows_land page.session rfl)

theorem Inv.answered (h : s.Inv) (k : ℕ) : (s.answered k).Inv := by
  refine { h with creating := fun j hj => ?_ }
  obtain ⟨hmem, hne⟩ := List.mem_filter.mp hj
  exact List.mem_filter.mpr ⟨h.creating j hmem, hne⟩

/-- **An older page lands**, before the messages of its session or not at
all. -/
theorem Inv.olderLanded (h : s.Inv) {flight : OlderFlight} {page : OlderPage}
    (hpage : page.session = flight.session) : (s.olderLanded flight page).Inv := by
  unfold SwitchTab.olderLanded
  split
  · exact h
  · next hfresh =>
    obtain ⟨-, hsession⟩ := not_or.mp hfresh
    have hid : s.sessionId = some flight.session := not_not.mp hsession
    refine h.withView rfl rfl rfl rfl rfl rfl rfl rfl fun hshows => ?_
    cases haim : s.aim with
    | welcome =>
      rw [haim] at hshows
      have hnone := hshows.1
      rw [hid] at hnone
      cases hnone
    | session id =>
      rw [haim] at hshows
      obtain ⟨hid', hurl, hsocket, data, older, live, hdata, hpane, holder, hlive, hcursor⟩ := hshows
      rw [hid] at hid'
      cases hid'
      refine ⟨hid, hurl, hsocket, data, page.messages.filter (· ∉ older ++ (data.messages ++ live))
        ++ older, live, hdata, ?_, fun m hm => ?_, hlive, hcursor⟩
      · show s.pane.prepend page.messages = _
        rw [hpane, List.append_assoc]
        rfl
      · rcases List.mem_append.mp hm with hm | hm
        · rw [← hpage]
          exact page.own m (List.mem_filter.mp hm).1
        · exact holder m hm

theorem Inv.frame (h : s.Inv) {m : ViewMessage} (hid : s.sessionId = some m.session) :
    Inv { s with
      pane := s.pane.append m, eventCursor := max s.eventCursor (m.eventIndex + 1) } := by
  refine h.withView rfl rfl rfl rfl rfl rfl rfl rfl fun hshows => ?_
  show Shows { s with
    pane := s.pane.append m, eventCursor := max s.eventCursor (m.eventIndex + 1) } s.aim
  cases haim : s.aim with
  | welcome =>
    rw [haim] at hshows
    have hnone := hshows.1
    rw [hid] at hnone
    cases hnone
  | session id =>
    rw [haim] at hshows
    obtain ⟨hid', hurl, hsocket, data, older, live, hdata, hpane, holder, hlive, hcursor⟩ := hshows
    rw [hid] at hid'
    cases hid'
    refine ⟨hid, hurl, hsocket, data, older, live ++ [m], hdata, ?_, holder, fun m' hm' => ?_, ?_⟩
    · show s.pane.append m = _
      rw [hpane]
      show Pane.container none (older ++ (data.messages ++ live) ++ [m]) = _
      rw [List.append_assoc, List.append_assoc]
    · rcases List.mem_append.mp hm' with hm' | hm'
      · exact hlive m' hm'
      · rw [List.mem_singleton.mp hm']
    · show max s.eventCursor (m.eventIndex + 1) = _
      rw [hcursor, List.foldl_append]
      rfl

/-- **A step that meets its condition preserves the invariant.** -/
theorem Inv.step (h : s.Inv) {a : SwitchAction} (hmeets : s.Meets a) (hstep : s.step a = some t) :
    t.Inv := by
  cases a with
  | switchSession id fresh tuiStopped page =>
    obtain ⟨hpage, hstep⟩ := Option.ite_none_right_eq_some.mp hstep
    cases hstep
    exact h.switchSession hpage hmeets
  | createSession =>
    cases hstep
    refine { h with
      actions := fun flight hf => Nat.lt_succ_of_lt (h.actions flight hf)
      creating := fun k hk => ?_ }
    rcases List.mem_append.mp hk with hk | hk
    · exact List.mem_append_left _ (h.creating k hk)
    · exact List.mem_append_right _ hk
  | leave =>
    obtain ⟨-, hstep⟩ := Option.ite_none_right_eq_some.mp hstep
    cases hstep
    exact h.take rfl rfl rfl (Nat.le_succ _) rfl rfl ⟨rfl, rfl, rfl, rfl, rfl⟩
  | bootstrapLanded i data =>
    obtain ⟨flight, hflight, hstep⟩ := Option.bind_eq_some_iff.mp hstep
    obtain ⟨hdata, hstep⟩ := Option.ite_none_right_eq_some.mp hstep
    cases hstep
    exact h.bootstrapLanded (List.mem_of_getElem? hflight) hdata (hmeets flight hflight)
  | bootstrapFailed i page =>
    obtain ⟨flight, hflight, hstep⟩ := Option.bind_eq_some_iff.mp hstep
    obtain ⟨hpage, hstep⟩ := Option.ite_none_right_eq_some.mp hstep
    cases hstep
    obtain ⟨hcreating, haim⟩ := hmeets flight hflight
    refine Inv.openPage ?_ hcreating
    rw [hpage]
    exact h.aimed flight (List.mem_of_getElem? hflight) haim
  | created i page =>
    obtain ⟨k, hk, rfl⟩ := Option.map_eq_some_iff.mp hstep
    exact h.created (hmeets k hk)
  | createFailed i =>
    obtain ⟨k, hk, rfl⟩ := Option.map_eq_some_iff.mp hstep
    exact h.answered k
  | loadOlder =>
    obtain ⟨id, -, rfl⟩ := Option.map_eq_some_iff.mp hstep
    exact h.withView rfl rfl rfl rfl rfl rfl rfl rfl fun hshows => hshows
  | olderLanded i page =>
    obtain ⟨flight, -, hstep⟩ := Option.bind_eq_some_iff.mp hstep
    obtain ⟨hpage, hstep⟩ := Option.ite_none_right_eq_some.mp hstep
    cases hstep
    have hless : Inv { s with olders := s.olders.eraseIdx i } :=
      h.withView rfl rfl rfl rfl rfl rfl rfl rfl fun hshows => hshows
    exact hless.olderLanded hpage
  | olderFailed i =>
    obtain ⟨flight, -, rfl⟩ := Option.map_eq_some_iff.mp hstep
    exact h.withView rfl rfl rfl rfl rfl rfl rfl rfl fun hshows => hshows
  | frame m =>
    obtain ⟨⟨-, hid⟩, hstep⟩ := Option.ite_none_right_eq_some.mp hstep
    cases hstep
    exact h.frame hid

/-- **An answer that is late leaves the view alone.** -/
theorem shown_of_superseded {a : SwitchAction} (hmeets : s.Meets a) (hlate : s.IsSuperseded a)
    (hstep : s.step a = some t) : t.shown = s.shown := by
  cases a with
  | bootstrapLanded i data =>
    obtain ⟨flight, hflight, hstep⟩ := Option.bind_eq_some_iff.mp hstep
    obtain ⟨-, hstep⟩ := Option.ite_none_right_eq_some.mp hstep
    cases hstep
    have hgen : flight.generation ≠ s.switchGeneration := fun heq =>
      hlate flight hflight (hmeets flight hflight heq)
    unfold SwitchTab.bootstrapLanded
    dsimp only
    rw [if_pos hgen]
    rfl
  | bootstrapFailed i page =>
    obtain ⟨flight, hflight, -⟩ := Option.bind_eq_some_iff.mp hstep
    exact absurd (hmeets flight hflight) (hlate flight hflight)
  | created i page =>
    obtain ⟨k, hk, -⟩ := Option.map_eq_some_iff.mp hstep
    exact absurd (hmeets k hk) (hlate k hk)
  | createFailed i =>
    obtain ⟨k, -, rfl⟩ := Option.map_eq_some_iff.mp hstep
    rfl
  | _ => exact hlate.elim

/-- **The view is that of the latest action** along every run in which a
bootstrap fails, or lands in the current generation, only if it is of the
latest action, a creation succeeds only if it is, and the session that is
shown is not clicked while a switch is under way: once no request is
outstanding the view is the one the latest action is after, and no answer that
is late changes it. -/
theorem shows_latest_of_run {page : Option Bootstrap} {as : List SwitchAction} {s : SwitchTab}
    (hmeets : system.Guarded Meets (start page) as)
    (hrun : system.run (start page) as = some s) :
    s.ShowsLatest ∧ ∀ a t, s.Meets a → s.IsSuperseded a → s.step a = some t →
      t.shown = s.shown :=
  ⟨(system.run_invariant_of_guarded (fun _ _ _ h hm hs => h.step hm hs) (Inv.start page) hmeets
    hrun).showsLatest, fun _ _ hm hl hs => shown_of_superseded hm hl hs⟩

/-! ## Where it goes wrong -/

/-- Two clicks, of which the first lands late, and then a new session. -/
theorem shows_latest_of_run_clicks : ∃ s,
    system.run (start (some (.empty "a"))) [.switchSession "b" false false (.empty "b"),
      .switchSession "c" false false (.empty "c"), .bootstrapLanded 0 (.empty "b"),
      .bootstrapLanded 0 (.empty "c"), .createSession, .created 0 (.empty "d")] = some s
      ∧ s.Shows (.session "d") := by
  have hrun : (system.run (start (some (.empty "a"))) [.switchSession "b" false false (.empty "b"),
      .switchSession "c" false false (.empty "c"), .bootstrapLanded 0 (.empty "b"),
      .bootstrapLanded 0 (.empty "c"), .createSession, .created 0 (.empty "d")]).map
        (fun s => (s.aim, s.switches, s.creates)) = some (.session "d", [], []) := by
    decide +kernel
  obtain ⟨s, hs, hv⟩ := Option.map_eq_some_iff.mp hrun
  simp only [Prod.mk.injEq] at hv
  have hshows := ((shows_latest_of_run (TransitionSystem.guarded_of_check (by decide +kernel))
    hs).1 hv.2.1 hv.2.2).2
  rw [hv.1] at hshows
  exact ⟨s, hs, hshows⟩

/-- **A superseded bootstrap that fails takes the view**: it navigates to its
session, though another was clicked behind it and is shown. -/
theorem superseded_failure_navigates : ∃ s,
    system.run (start (some (.empty "a"))) [.switchSession "b" false false (.empty "b"),
      .switchSession "c" false false (.empty "c"), .bootstrapLanded 1 (.empty "c"),
      .bootstrapFailed 0 (.empty "b")] = some s
      ∧ s.aim = .session "c" ∧ s.sessionId = some "b" ∧ ¬ s.ShowsLatest := by
  have hrun : (system.run (start (some (.empty "a")))
      [.switchSession "b" false false (.empty "b"), .switchSession "c" false false (.empty "c"),
        .bootstrapLanded 1 (.empty "c"), .bootstrapFailed 0 (.empty "b")]).map
      (fun s => (s.aim, s.sessionId, s.switches, s.creates))
      = some (.session "c", some "b", [], []) := by decide +kernel
  obtain ⟨s, hs, hv⟩ := Option.map_eq_some_iff.mp hrun
  simp only [Prod.mk.injEq] at hv
  obtain ⟨haim, hid, hswitches, hcreates⟩ := hv
  refine ⟨s, hs, haim, hid, fun h => ?_⟩
  have hshows := (h hswitches hcreates).2
  rw [haim] at hshows
  have hc := hshows.1
  rw [hid] at hc
  exact absurd hc (by decide)

/-- **A click on the session that is still shown does not call a switch
off**: the switch lands. -/
theorem pending_switch_lands : ∃ s,
    system.run (start (some (.empty "a"))) [.switchSession "b" false false (.empty "b"),
      .switchSession "a" false false (.empty "a"), .bootstrapLanded 0 (.empty "b")] = some s
      ∧ s.aim = .session "a" ∧ s.sessionId = some "b" := by
  have hrun : (system.run (start (some (.empty "a")))
      [.switchSession "b" false false (.empty "b"), .switchSession "a" false false (.empty "a"),
        .bootstrapLanded 0 (.empty "b")]).map (fun s => (s.aim, s.sessionId))
      = some (.session "a", some "b") := by decide +kernel
  obtain ⟨s, hs, hv⟩ := Option.map_eq_some_iff.mp hrun
  simp only [Prod.mk.injEq] at hv
  exact ⟨s, hs, hv⟩

end SwitchTab
