import CharlieBot.WorkerRelay
import Mathlib.Data.List.MinMax
import Mathlib.Tactic.Linarith

/-!
# The accounts of the pool

What is known of an account comes from two sources: the rate-limit events of the processes that run
on it, and the usage panel that is polled. Of each the newest is kept. The headroom of an account
is what its tightest window leaves: the newer of the event and of the plan-wide windows of the
panel, fused with the windows of the model the question is about, which no event masks.

An event that was rejected says more than a number: the account is out until a time. That is to
hold the headroom at zero until then, and it is forgotten as soon as a panel reading that is
newer has a plan-wide window, since the newer reading stands in for the event and carries no
rejection (`headroom_of_newer_panel`). The panel is polled every few minutes, so that an account
that was rejected is selected again (`selected_while_rejected`).

A window above one hundred percent leaves less than nothing and the headroom is zero. Where no
window does and no panel outdates a rejection, or leaves nothing itself, the headroom is right
(`headroom_right_iff`).
-/

namespace Accounts

/-! ## Observations -/

/-- What the standard library makes of a text: its lower case, and the time it spells in
microseconds since 1970, one without a zone being of UTC. -/
structure Python where
  lower : List Char → List Char
  fromisoformat : String → Option ℤ

/-- A window of the usage panel. -/
structure Window where
  windowMinutes : ℤ
  /-- In percent, where one was reported. -/
  utilization : Option ℚ
  resetsAt : Json
  /-- The model it is of; a plan-wide window has none. -/
  scopeLabel : Option String := none

/-- What a poll of the usage panel gives. -/
structure Usage where
  windows : List Window
  fetchedAt : Option String

/-- `RateLimitReading`, its times in microseconds. -/
structure Reading where
  at' : ℤ
  utilization : ℚ
  rejectedUntil : Option ℤ := none
  deriving DecidableEq

structure Panel where
  at' : ℤ
  windows : List Window

def rejectedWithoutReset : ℤ := 3600000000

/-- What is known of the accounts. -/
structure State where
  eventReadings : String → Option Reading := fun _ => none
  panelReadings : String → Option Panel := fun _ => none

inductive Observation
  | rateLimit (label : String) (info : Dict) (moment : ℤ)
  | panel (label : String) (usage : Usage) (moment : ℤ)

/-- The reading `observe_rate_limit` stores; none where there is nothing to learn or where the time
of the reset is none. -/
def rateLimitReading (info : Dict) (moment : ℤ) : Option Reading :=
  let values := WorkerRelay.utilizations info
  let rejected := (info.get "status").isText "rejected"
  if values.isEmpty && !rejected then none
  else if rejected then
    let rejectedUntil :=
      match WorkerRelay.numberOf (info.get "resetsAt") with
      | some resetsAt => WorkerRelay.fromTimestamp resetsAt
      | none => WorkerRelay.fromTimestamp ((moment + rejectedWithoutReset) / 1000000)
    rejectedUntil.map fun rejectedUntil =>
      { at' := moment, utilization := values.max?.getD 1, rejectedUntil := some rejectedUntil }
  else some { at' := moment, utilization := values.max?.getD 1 }

/-- What `observe_usage_panel` keeps. -/
def panelOf (py : Python) (usage : Usage) (moment : ℤ) : Panel where
  at' := (usage.fetchedAt.bind py.fromisoformat).getD moment
  windows := usage.windows

/-- `observe_rate_limit` and `observe_usage_panel`. -/
def State.observe (py : Python) (s : State) : Observation → State
  | .rateLimit label info moment =>
    match rateLimitReading info moment with
    | some reading =>
      { s with eventReadings := Function.update s.eventReadings label (some reading) }
    | none => s
  | .panel label usage moment =>
    { s with
      panelReadings := Function.update s.panelReadings label (some (panelOf py usage moment)) }

def known (py : Python) (history : List Observation) : State :=
  history.foldl (State.observe py) {}

/-! ## Windows -/

def modelFamily (py : Python) (model : Option String) : List Char :=
  match model with
  | none => []
  | some model =>
    if model.isEmpty then []
    else
      match Text.splitOnChar '-' (py.lower model.toList) with
      | [] => []
      | [first] => first
      | first :: second :: _ => if first = "claude".toList then second else first

def parseIsoUtc (py : Python) (value : Json) : Option ℤ :=
  value.asText.bind fun text => if text.isEmpty then none else py.fromisoformat text

/-- `panel_window_expired`, of a window that was sampled at a time. -/
def panelWindowExpired (py : Python) (window : Window) (sampled now : ℤ) : Bool :=
  ((parseIsoUtc py window.resetsAt).any fun resetsAt =>
      decide (resetsAt ≤ now) && decide (sampled < resetsAt))
    || decide (window.windowMinutes * 60000000 < now - sampled)

def Window.scope (window : Window) : Option String := window.scopeLabel.filter (!·.isEmpty)

def readable (py : Python) (model : Option String) (window : Window) : Bool :=
  match window.scope with
  | none => true
  | some scope =>
    let family := modelFamily py model
    !family.isEmpty && Text.contains family (py.lower scope.toList)

def State.liveWindows (py : Python) (s : State) (label : String) (model : Option String)
    (now : ℤ) : List Window :=
  match s.panelReadings label with
  | none => []
  | some stored => stored.windows.filter fun window =>
      !panelWindowExpired py window stored.at' now && readable py model window

/-! ## Headroom -/

def State.panelReading (py : Python) (s : State) (label : String) (model : Option String)
    (now : ℤ) : Option Reading :=
  (s.panelReadings label).bind fun stored =>
    let values := (s.liveWindows py label model now).filterMap fun window =>
      window.utilization.map (· / 100)
    values.max?.map fun utilization => { at' := stored.at', utilization := utilization }

/-- `_newest_reading`: the first of two that are of one time. -/
def newestReading (first second : Option Reading) : Option Reading :=
  match first, second with
  | some first, some second => if first.at' < second.at' then some second else some first
  | some first, none => some first
  | none, second => second

/-- `_NEVER_ACTIVE`: the start of the year 1. -/
def neverActive : ℤ := -62135596800000000

def State.latestReading (py : Python) (s : State) (label : String) (model : Option String)
    (now : ℤ) : Option Reading :=
  let general := newestReading (s.eventReadings label) (s.panelReading py label none now)
  if model.isNone || !((s.liveWindows py label model now).any (·.scope.isSome)) then general
  else
    match s.panelReading py label model now with
    | none => general
    | some fold =>
      some
        { at' := max (general.elim neverActive (·.at')) fold.at'
          utilization := max (general.elim 0 (·.utilization)) fold.utilization
          rejectedUntil :=
            (general.bind (·.rejectedUntil)).filter fun until' => decide (now < until') }

/-- **`headroom`.** -/
def State.headroom (py : Python) (s : State) (label : String) (model : Option String)
    (now : ℤ) : ℚ :=
  match s.latestReading py label model now with
  | none => 1
  | some reading =>
    if reading.rejectedUntil.any fun rejectedUntil => decide (now < rejectedUntil) then 0
    else max 0 (1 - reading.utilization)

/-! ## Selection -/

structure Account where
  label : String
  configDir : String
  deriving DecidableEq

def resetBonusScale : ℚ := 1 / 10

/-- `_RESET_BONUS_HORIZON`, in seconds. -/
def resetBonusHorizon : ℚ := 24 * 3600

def resetBonusMinHeadroom : ℚ := 1 / 10

def scoreTie : ℚ := 2 / 100

/-- `_time_to_reset`, in seconds, by the first of the windows that are used most. -/
def State.timeToReset (py : Python) (s : State) (label : String) (model : Option String)
    (now : ℤ) : Option ℚ :=
  let used := (s.liveWindows py label model now).filterMap fun window =>
    window.utilization.map fun value => (value, window)
  (used.argmax (·.1)).bind fun limiting =>
    (parseIsoUtc py limiting.2.resetsAt).map fun resetsAt => ((resetsAt - now : ℤ) : ℚ) / 1000000

def State.resetBonus (py : Python) (s : State) (label : String) (model : Option String)
    (moment : ℤ) (headroomLeft : ℚ) : ℚ :=
  if headroomLeft ≤ resetBonusMinHeadroom then 0
  else
    match s.timeToReset py label model moment with
    | none => 0
    | some ttr =>
      if 0 ≤ ttr ∧ ttr < resetBonusHorizon then resetBonusScale * (1 - ttr / resetBonusHorizon)
      else 0

def State.lastActiveAt (s : State) (label : String) : ℤ :=
  (s.eventReadings label).elim neverActive (·.at')

/-- **`select`**, from a pool of accounts some of which are healthy. -/
def State.select (py : Python) (s : State) (pool : List Account) (healthy : Account → Bool)
    (model : Option String) (exclude : List String) (busyAccounts : Option (List String))
    (moment : ℤ) : Option Account :=
  let available := pool.filterMap fun account =>
    if exclude.contains account.label || !healthy account then none
    else
      let hr := s.headroom py account.label model moment
      if 0 < hr then some (account, hr) else none
  let idle := available.filter fun p =>
    busyAccounts.all fun busyAccounts => !busyAccounts.contains p.1.label
  let contenders := if idle.isEmpty then available else idle
  let scored := contenders.map fun p =>
    (p.2 + s.resetBonus py p.1.label model moment p.2, p.1)
  (scored.map (·.1)).max?.bind fun best =>
    @List.argmin _ ℤ Int.instLinearOrder.toPreorder Int.decLt
      (fun account : Account => s.lastActiveAt account.label)
      ((scored.filter fun p => decide (best - p.1 ≤ scoreTie)).map (·.2))

/-! ## What was observed last -/

/-- The reading an observation gives of an account. -/
def eventOf (label : String) : Observation → Option Reading
  | .rateLimit label' info moment => if label' = label then rateLimitReading info moment else none
  | .panel .. => none

/-- The panel an observation gives of an account. -/
def panelSeen (py : Python) (label : String) : Observation → Option Panel
  | .rateLimit .. => none
  | .panel label' usage moment => if label' = label then some (panelOf py usage moment) else none

/-- **The last event reading of an account.** -/
def lastEvent (history : List Observation) (label : String) : Option Reading :=
  (history.filterMap (eventOf label)).getLast?

/-- **The last panel of an account.** -/
def lastPanel (py : Python) (history : List Observation) (label : String) : Option Panel :=
  (history.filterMap (panelSeen py label)).getLast?

theorem observe_readings (py : Python) (s : State) (seen : Observation) (label : String) :
    (s.observe py seen).eventReadings label = (eventOf label seen).or (s.eventReadings label)
      ∧ (s.observe py seen).panelReadings label
        = (panelSeen py label seen).or (s.panelReadings label) := by
  cases seen with
  | rateLimit label' info moment =>
    unfold State.observe eventOf panelSeen
    dsimp only
    by_cases hlabel : label' = label
    · subst hlabel
      rw [if_pos rfl]
      cases rateLimitReading info moment <;> simp
    · rw [if_neg hlabel]
      cases rateLimitReading info moment <;> simp [Function.update_of_ne (Ne.symm hlabel)]
  | panel label' usage moment =>
    unfold State.observe eventOf panelSeen
    dsimp only
    by_cases hlabel : label' = label
    · subst hlabel
      simp
    · simp [Function.update_of_ne (Ne.symm hlabel), hlabel]

/-- **A history**: what is known of an account is what was observed last. -/
theorem known_readings (py : Python) (history : List Observation) (label : String) :
    (known py history).eventReadings label = lastEvent history label
      ∧ (known py history).panelReadings label = lastPanel py history label := by
  induction history using List.reverseRecOn with
  | nil => exact ⟨rfl, rfl⟩
  | append_singleton history seen ih =>
    have hknown : known py (history ++ [seen]) = (known py history).observe py seen := by
      unfold known
      rw [List.foldl_append]
      rfl
    obtain ⟨hevent, hpanel⟩ := observe_readings py (known py history) seen label
    rw [hknown, hevent, hpanel, ih.1, ih.2]
    unfold lastEvent lastPanel
    rw [List.filterMap_append, List.filterMap_append, List.getLast?_append, List.getLast?_append]
    constructor
    · cases heq : eventOf label seen <;> simp [heq]
    · cases heq : panelSeen py label seen <;> simp [heq]

/-! ## What the headroom is to respect -/

def Live (py : Python) (panel : Option Panel) (now : ℤ) (window : Window) : Prop :=
  ∃ stored ∈ panel, window ∈ stored.windows
    ∧ panelWindowExpired py window stored.at' now = false

/-- A live window for the model, and what it reads. -/
def Presses (py : Python) (panel : Option Panel) (model : Option String) (now : ℤ)
    (window : Window) (percent : ℚ) : Prop :=
  Live py panel now window ∧ readable py model window = true
    ∧ window.utilization = some percent

/-- The panel is newer than the last event. -/
def Newer (event : Option Reading) (panel : Option Panel) : Prop :=
  ∀ reading ∈ event, ∀ stored ∈ panel, reading.at' < stored.at'

/-- A live window that the headroom has to respect, and what it reads: one of the model's own, or a
plan-wide one of a panel that is newer than the last event. -/
def Binds (py : Python) (event : Option Reading) (panel : Option Panel) (model : Option String)
    (now : ℤ) (window : Window) (percent : ℚ) : Prop :=
  Presses py panel model now window percent ∧ (window.scope = none → Newer event panel)

/-- The last event was rejected, and its reset lies ahead. -/
def RejectedAhead (event : Option Reading) (now : ℤ) : Prop :=
  ∃ reading ∈ event, ∃ rejectedUntil ∈ reading.rejectedUntil, now < rejectedUntil

/-- **A headroom that is right** after a history of observations: no more than what a window
leaves that it has to respect, and zero while a rejection holds, so that the account is not
selected. -/
structure Right (py : Python) (history : List Observation) (label : String)
    (model : Option String) (now : ℤ) : Prop where
  bounded : ∀ window percent,
    Binds py (lastEvent history label) (lastPanel py history label) model now window percent →
    (known py history).headroom py label model now ≤ 1 - percent / 100
  held : RejectedAhead (lastEvent history label) now →
    (known py history).headroom py label model now = 0
  unselected : RejectedAhead (lastEvent history label) now →
    ∀ pool healthy exclude busyAccounts account,
      (known py history).select py pool healthy model exclude busyAccounts now = some account →
        account.label ≠ label

theorem mem_liveWindows {py : Python} {s : State} {label : String} {model : Option String}
    {now : ℤ} {window : Window} :
    window ∈ s.liveWindows py label model now
      ↔ Live py (s.panelReadings label) now window ∧ readable py model window = true := by
  unfold State.liveWindows Live
  cases s.panelReadings label with
  | none => simp
  | some stored => simp [and_assoc]

theorem readable_none_iff {py : Python} {window : Window} :
    readable py none window = true ↔ window.scope = none := by
  unfold readable
  cases window.scope with
  | none => simp
  | some scope => simp [modelFamily]

theorem readable_of_scope {py : Python} {model : Option String} {window : Window}
    (h : window.scope = none) : readable py model window = true := by
  unfold readable
  rw [h]

/-- **The fold of the panel**: the most that a live window reads. -/
theorem panelReading_spec (py : Python) (s : State) (label : String) (model : Option String)
    (now : ℤ) :
    match s.panelReading py label model now with
    | none => ∀ window percent, ¬ Presses py (s.panelReadings label) model now window percent
    | some fold =>
      (∃ stored ∈ s.panelReadings label, fold.at' = stored.at') ∧ fold.rejectedUntil = none
        ∧ (∃ window percent, Presses py (s.panelReadings label) model now window percent
          ∧ fold.utilization = percent / 100)
        ∧ ∀ window percent, Presses py (s.panelReadings label) model now window percent →
          percent / 100 ≤ fold.utilization := by
  have hmem : ∀ value, value ∈ (s.liveWindows py label model now).filterMap
        (fun window => window.utilization.map (· / 100))
      ↔ ∃ window percent, Presses py (s.panelReadings label) model now window percent
        ∧ value = percent / 100 := by
    intro value
    rw [List.mem_filterMap]
    constructor
    · rintro ⟨window, hwindow, hvalue⟩
      obtain ⟨percent, hpercent, rfl⟩ := Option.map_eq_some_iff.mp hvalue
      obtain ⟨hlive, hread⟩ := mem_liveWindows.mp hwindow
      exact ⟨window, percent, ⟨hlive, hread, hpercent⟩, rfl⟩
    · rintro ⟨window, percent, ⟨hlive, hread, hpercent⟩, rfl⟩
      exact ⟨window, mem_liveWindows.mpr ⟨hlive, hread⟩, by rw [hpercent]; rfl⟩
  unfold State.panelReading
  cases hpanel : s.panelReadings label with
  | none =>
    rintro window percent ⟨⟨stored, hstored, -⟩, -⟩
    cases hstored
  | some stored =>
    rw [hpanel] at hmem
    rw [Option.bind_some]
    dsimp only
    cases hmax : ((s.liveWindows py label model now).filterMap
        fun window => window.utilization.map (· / 100)).max? with
    | none =>
      intro window percent hpresses
      have hin := (hmem (percent / 100)).mpr ⟨window, percent, hpresses, rfl⟩
      rw [List.max?_eq_none_iff.mp hmax] at hin
      cases hin
    | some utilization =>
      obtain ⟨hin, hle⟩ := List.max?_eq_some_iff.mp hmax
      exact ⟨⟨stored, rfl, rfl⟩, rfl, (hmem utilization).mp hin, fun window percent hpresses =>
        hle _ ((hmem _).mpr ⟨window, percent, hpresses, rfl⟩)⟩

theorem Presses.of_none {py : Python} {panel : Option Panel} {model : Option String} {now : ℤ}
    {window : Window} {percent : ℚ} (h : Presses py panel none now window percent) :
    Presses py panel model now window percent :=
  ⟨h.1, readable_of_scope (readable_none_iff.mp h.2.1), h.2.2⟩

theorem newestReading_of_newer {event fold : Reading} (h : event.at' < fold.at') :
    newestReading (some event) (some fold) = some fold := if_pos h

/-- **A window that binds is in the fusion.** -/
theorem le_latestReading {py : Python} {s : State} {label : String} {model : Option String}
    {now : ℤ} {window : Window} {percent : ℚ}
    (h : Binds py (s.eventReadings label) (s.panelReadings label) model now window percent) :
    ∃ reading, s.latestReading py label model now = some reading
      ∧ percent / 100 ≤ reading.utilization := by
  obtain ⟨hpresses, hnewer⟩ := h
  have hplan := panelReading_spec py s label none now
  have hmodel := panelReading_spec py s label model now
  unfold State.latestReading
  dsimp only
  split
  · next hgeneral =>
    -- with no live window of the model's own the window is plan-wide, and the panel is newer
    have hscope : window.scope = none := by
      rcases Bool.or_eq_true_iff.mp hgeneral with hnone | hany
      · rw [Option.isNone_iff_eq_none.mp hnone] at hpresses
        exact readable_none_iff.mp hpresses.2.1
      · rw [Bool.not_eq_true', List.any_eq_false] at hany
        have := hany window (mem_liveWindows.mpr ⟨hpresses.1, hpresses.2.1⟩)
        rwa [Option.not_isSome_iff_eq_none] at this
    have hpresses' : Presses py (s.panelReadings label) none now window percent :=
      ⟨hpresses.1, readable_none_iff.mpr hscope, hpresses.2.2⟩
    cases hfold : s.panelReading py label none now with
    | none =>
      rw [hfold] at hplan
      exact absurd hpresses' (hplan window percent)
    | some fold =>
      rw [hfold] at hplan
      obtain ⟨⟨stored, hstored, hat⟩, -, -, hle⟩ := hplan
      refine ⟨fold, ?_, hle window percent hpresses'⟩
      cases hevent : s.eventReadings label with
      | none => rfl
      | some event =>
        refine newestReading_of_newer ?_
        rw [hat]
        exact hnewer hscope event hevent stored hstored
  · cases hfold : s.panelReading py label model now with
    | none =>
      rw [hfold] at hmodel
      exact absurd hpresses (hmodel window percent)
    | some fold =>
      rw [hfold] at hmodel
      exact ⟨_, rfl, le_max_of_le_right (hmodel.2.2.2 window percent hpresses)⟩

theorem headroom_nonneg (py : Python) (s : State) (label : String) (model : Option String)
    (now : ℤ) : 0 ≤ s.headroom py label model now := by
  unfold State.headroom
  split
  · exact zero_le_one
  · split
    · exact le_refl 0
    · exact le_max_left _ _

/-- **The headroom respects what binds**, up to the full window. -/
theorem headroom_le {py : Python} {s : State} {label : String} {model : Option String} {now : ℤ}
    {window : Window} {percent : ℚ}
    (h : Binds py (s.eventReadings label) (s.panelReadings label) model now window percent) :
    s.headroom py label model now ≤ max 0 (1 - percent / 100) := by
  obtain ⟨reading, hreading, hle⟩ := le_latestReading h
  unfold State.headroom
  rw [hreading]
  dsimp only
  split
  · exact le_max_left _ _
  · exact max_le_max_left 0 (sub_le_sub_left hle 1)

/-- **A rejection holds the headroom at zero** while no plan-wide window of a newer panel reads
anything. -/
theorem headroom_of_standing {py : Python} {s : State} {label : String} {model : Option String}
    {now : ℤ} (h : RejectedAhead (s.eventReadings label) now)
    (hstanding : ∀ window percent, Presses py (s.panelReadings label) none now window percent →
      ¬ Newer (s.eventReadings label) (s.panelReadings label)) :
    s.headroom py label model now = 0 := by
  obtain ⟨event, hevent, rejectedUntil, huntil, hahead⟩ := h
  have hgeneral : newestReading (s.eventReadings label) (s.panelReading py label none now)
      = some event := by
    have hplan := panelReading_spec py s label none now
    rw [Option.mem_def.mp hevent] at hstanding ⊢
    cases hfold : s.panelReading py label none now with
    | none => rfl
    | some fold =>
      rw [hfold] at hplan
      obtain ⟨⟨stored, hstored, hat⟩, -, ⟨window, percent, hpresses, -⟩, -⟩ := hplan
      refine if_neg fun hlt => hstanding window percent hpresses ?_
      rintro reading ⟨⟩ stored' hstored'
      obtain rfl := Option.mem_unique hstored hstored'
      rwa [← hat]
  have hrejected : ∃ reading, s.latestReading py label model now = some reading
      ∧ reading.rejectedUntil = some rejectedUntil := by
    unfold State.latestReading
    dsimp only
    rw [hgeneral]
    split
    · exact ⟨event, rfl, huntil⟩
    · split
      · exact ⟨event, rfl, huntil⟩
      · refine ⟨_, rfl, ?_⟩
        show (event.rejectedUntil).filter _ = _
        rw [Option.mem_def.mp huntil]
        exact Option.filter_some_pos (by simpa using hahead)
  obtain ⟨reading, hreading, hrejected⟩ := hrejected
  unfold State.headroom
  rw [hreading]
  dsimp only
  rw [hrejected]
  exact if_pos (by simpa using hahead)

/-- **A panel that is newer than the event stands in for it**: the reading carries no rejection, and
is what some live window reads. -/
theorem latestReading_of_newer {py : Python} {s : State} {label : String}
    (model : Option String) {now : ℤ} {window : Window} {percent : ℚ}
    (h : Presses py (s.panelReadings label) none now window percent)
    (hnewer : Newer (s.eventReadings label) (s.panelReadings label)) :
    ∃ reading, s.latestReading py label model now = some reading
      ∧ reading.rejectedUntil = none
      ∧ ∃ window percent, Presses py (s.panelReadings label) model now window percent
        ∧ reading.utilization = percent / 100 := by
  have hplan := panelReading_spec py s label none now
  have hmodel := panelReading_spec py s label model now
  unfold State.latestReading
  dsimp only
  cases hfold : s.panelReading py label none now with
  | none =>
    rw [hfold] at hplan
    exact absurd h (hplan window percent)
  | some plan =>
    rw [hfold] at hplan
    obtain ⟨⟨stored, hstored, hat⟩, hfree, ⟨window', percent', hpresses, hutil⟩, -⟩ := hplan
    have hgeneral : newestReading (s.eventReadings label) (some plan) = some plan := by
      cases hevent : s.eventReadings label with
      | none => rfl
      | some event =>
        refine newestReading_of_newer ?_
        rw [hat]
        exact hnewer event hevent stored hstored
    rw [hgeneral]
    split
    · exact ⟨plan, rfl, hfree, window', percent', hpresses.of_none, hutil⟩
    · cases hfold' : s.panelReading py label model now with
      | none => exact ⟨plan, rfl, hfree, window', percent', hpresses.of_none, hutil⟩
      | some fold =>
        rw [hfold'] at hmodel
        obtain ⟨-, -, ⟨window'', percent'', hpresses', hutil'⟩, -⟩ := hmodel
        refine ⟨_, rfl, ?_, ?_⟩
        · show (plan.rejectedUntil).filter _ = none
          rw [hfree]
          rfl
        · show ∃ window percent, _ ∧ max plan.utilization fold.utilization = _
          rcases max_choice plan.utilization fold.utilization with hmax | hmax
          · exact ⟨window', percent', hpresses.of_none, hmax.trans hutil⟩
          · exact ⟨window'', percent'', hpresses', hmax.trans hutil'⟩

/-- **The headroom behind a newer panel**: zero only where a live window has nothing left,
whatever was rejected. -/
theorem headroom_of_newer_panel {py : Python} {s : State} {label : String}
    {model : Option String} {now : ℤ} {window : Window} {percent : ℚ}
    (h : Presses py (s.panelReadings label) none now window percent)
    (hnewer : Newer (s.eventReadings label) (s.panelReadings label)) :
    s.headroom py label model now = 0
      ↔ ∃ window percent, Presses py (s.panelReadings label) model now window percent
        ∧ 100 ≤ percent := by
  obtain ⟨reading, hreading, hfree, full, most, hfull, hutil⟩ :=
    latestReading_of_newer model h hnewer
  have hheadroom : s.headroom py label model now = max 0 (1 - most / 100) := by
    unfold State.headroom
    rw [hreading]
    dsimp only
    rw [hfree, hutil]
    rfl
  rw [hheadroom, max_eq_left_iff]
  constructor
  · intro hle
    exact ⟨full, most, hfull, by linarith⟩
  · rintro ⟨window', percent', hpresses, hfull'⟩
    obtain ⟨reading', hreading', hle⟩ := le_latestReading ⟨hpresses, fun _ => hnewer⟩
    obtain rfl := Option.some.inj (hreading.symm.trans hreading')
    rw [hutil] at hle
    linarith

/-- **What is selected has headroom.** -/
theorem headroom_pos_of_select {py : Python} {s : State} {pool : List Account}
    {healthy : Account → Bool} {model : Option String} {exclude : List String}
    {busyAccounts : Option (List String)} {moment : ℤ} {account : Account}
    (h : s.select py pool healthy model exclude busyAccounts moment = some account) :
    0 < s.headroom py account.label model moment := by
  unfold State.select at h
  obtain ⟨best, -, h⟩ := Option.bind_eq_some_iff.mp h
  obtain ⟨scored, hscored, rfl⟩ := List.mem_map.mp (List.argmin_mem h)
  obtain ⟨contender, hcontender, rfl⟩ := List.mem_map.mp (List.mem_filter.mp hscored).1
  have havailable : contender ∈ pool.filterMap fun account =>
      if exclude.contains account.label || !healthy account then none
      else if 0 < s.headroom py account.label model moment then
        some (account, s.headroom py account.label model moment)
      else none := by
    split at hcontender
    · exact hcontender
    · exact (List.mem_filter.mp hcontender).1
  obtain ⟨member, -, hmember⟩ := List.mem_filterMap.mp havailable
  split at hmember
  · cases hmember
  · split at hmember
    · next hpos =>
      cases hmember
      exact hpos
    · cases hmember

/-! ## When the headroom is right -/

/-- **The condition**: no window that binds is above one hundred percent; and while a rejection
holds, no live plan-wide window of a newer panel reads anything, or a live window has nothing
left. -/
structure Standing (py : Python) (event : Option Reading) (panel : Option Panel)
    (model : Option String) (now : ℤ) : Prop where
  within : ∀ window percent, Binds py event panel model now window percent → percent ≤ 100
  rejection : RejectedAhead event now →
    (∀ window percent, Presses py panel none now window percent → ¬ Newer event panel)
      ∨ ∃ window percent, Presses py panel model now window percent ∧ 100 ≤ percent

/-- **Exactly when the headroom is right**, after any history of observations, for any account, any
model and at any time. -/
theorem headroom_right_iff (py : Python) (history : List Observation) (label : String)
    (model : Option String) (now : ℤ) :
    Right py history label model now
      ↔ Standing py (lastEvent history label) (lastPanel py history label) model now := by
  obtain ⟨hevent, hpanel⟩ := known_readings py history label
  rw [← hevent, ← hpanel]
  constructor
  · rintro ⟨hbounded, hheld, -⟩
    rw [← hevent, ← hpanel] at hbounded
    rw [← hevent] at hheld
    refine ⟨fun window percent hbinds => ?_, fun hrejected => ?_⟩
    · have hle := hbounded window percent hbinds
      have hnonneg := headroom_nonneg py (known py history) label model now
      linarith
    · rw [or_iff_not_imp_left]
      intro hoverruled
      push Not at hoverruled
      obtain ⟨window, percent, hpresses, hnewer⟩ := hoverruled
      exact (headroom_of_newer_panel hpresses hnewer).mp (hheld hrejected)
  · rintro ⟨hwithin, hrejection⟩
    have hheld : RejectedAhead ((known py history).eventReadings label) now →
        (known py history).headroom py label model now = 0 := by
      intro hrejected
      by_cases hstanding : ∀ window percent,
          Presses py ((known py history).panelReadings label) none now window percent →
          ¬ Newer ((known py history).eventReadings label) ((known py history).panelReadings label)
      · exact headroom_of_standing hrejected hstanding
      · rcases hrejection hrejected with h | hfull
        · exact absurd h hstanding
        · push Not at hstanding
          obtain ⟨window, percent, hpresses, hnewer⟩ := hstanding
          exact (headroom_of_newer_panel hpresses hnewer).mpr hfull
    refine ⟨fun window percent hbinds => ?_, ?_, ?_⟩
    · rw [← hevent, ← hpanel] at hbinds
      have hle := headroom_le hbinds
      have hpercent := hwithin window percent hbinds
      rwa [max_eq_right (by linarith)] at hle
    · rwa [← hevent]
    · rw [← hevent]
      rintro hrejected pool healthy exclude busyAccounts account hselect rfl
      have hpos := headroom_pos_of_select hselect
      rw [hheld hrejected] at hpos
      exact lt_irrefl 0 hpos

/-! ## A rejection that is forgotten -/

/-- A library for plain texts, which knows no time. -/
def plain : Python where
  lower := List.map Char.toLower
  fromisoformat _ := none

/-- At ten an event is rejected until one; a minute later the panel says that its window is used
to forty percent. -/
def rejectedThenPolled : List Observation :=
  [.rateLimit "main" [("status", .str "rejected"), ("resetsAt", .int 1767618000),
      ("unifiedWindows", .obj [("five_hour", .obj [("utilization", .float 99 (-2))])])]
      1767607200000000,
    .panel "main" ⟨[⟨300, some 40, .null, none⟩], none⟩ 1767607260000000]

/-- **An account that was rejected is selected**, two hours and more before its reset: the panel
that came a minute later leaves more than half. -/
theorem selected_while_rejected :
    ¬ Right plain rejectedThenPolled "main" (some "claude-opus-4") 1767607320000000
      ∧ (known plain rejectedThenPolled).select plain [⟨"main", "/home/main"⟩] (fun _ => true)
        (some "claude-opus-4") [] none 1767607320000000 = some ⟨"main", "/home/main"⟩ := by
  have hselect : (known plain rejectedThenPolled).select plain [⟨"main", "/home/main"⟩]
      (fun _ => true) (some "claude-opus-4") [] none 1767607320000000
        = some ⟨"main", "/home/main"⟩ := by decide +kernel
  refine ⟨fun hright => ?_, hselect⟩
  refine hright.unselected ?_ _ _ _ _ _ hselect rfl
  have hevent : lastEvent rejectedThenPolled "main"
      = some ⟨1767607200000000, 99 / 100, some 1767618000000000⟩ := by decide +kernel
  exact ⟨_, hevent, 1767618000000000, rfl, by decide⟩

end Accounts
