import CharlieBot.EventTypes
import CharlieBot.Lib.Transition

/-!
# The audit of Slack rounds

A session may be summoned from a Slack thread. When the round that answers a summons
ends, an audit looks whether a reply was posted: where none was, the master is
nudged once, and where the round of the nudge posted none either, the thread is
told. After a restart the same audit is made for every round that ended, and
the summonses that nothing will ever answer are reported as lost.

An audit reads the log, judges by what it read, and acts later. Two audits that
read before either acts nudge twice, and a reply that comes between is not
seen; and the report of lost summonses does not look for replies at all
(`nudged_twice`). Along the runs in which the log still says of a
summons what it said when it was read, and no summons with a reply passes for lost, each
summons is nudged once, and is left alone once it has a reply
(`audits_of_run`).
-/

/-! ## Events of a Slack session -/

/-- The `slack` block of an event: the thread, the mention, and of a nudge the summons. -/
structure SlackBlock where
  channelId : String
  threadTs : String
  mentionTs : Option String := none
  nudgeOf : Option String := none
  deriving DecidableEq

/-- An event of the log, with what the audit reads of it. -/
structure SlackEvent where
  type : String
  id : String := ""
  content : String := ""
  slack : Option SlackBlock := none
  /-- Of a reply, the summons it answers. -/
  answers : Option String := none
  /-- Of a notice, the summons it closes. -/
  slackNotice : Option String := none
  /-- Of a report, the event that was lost. -/
  slackBackfill : Option String := none
  inputEventId : Option String := none
  deriving DecidableEq

namespace SlackAudit

def replied (events : List SlackEvent) (summonId : String) : Bool :=
  events.any fun ev => ev.type = ET.slackReply && ev.answers = some summonId

def isNudgeOf (summonId : String) (ev : SlackEvent) : Bool :=
  ev.type = ET.agentMessage && ev.slack.bind SlackBlock.nudgeOf = some summonId

def nudged (events : List SlackEvent) (summonId : String) : Bool := events.any (isNudgeOf summonId)

def noticed (events : List SlackEvent) (summonId : String) : Bool :=
  events.any fun ev => ev.slackNotice = some summonId

def eventById (events : List SlackEvent) (eventId : String) : Option SlackEvent :=
  events.find? (·.id = eventId)

def slackTarget (events : List SlackEvent) (inputEventId : String) : Option SlackBlock :=
  (eventById events inputEventId).bind SlackEvent.slack

def summonOf (block : SlackBlock) (eventId : String) : String :=
  (block.nudgeOf.filter (· ≠ "")).getD eventId

def replyCommand : String := "charliebot slack reply"

/-- Where `https?://\S+` matches first. -/
def findLink : List Char → Option (List Char)
  | [] => none
  | c :: rest =>
    let text := c :: rest
    let scheme :=
      if "https://".toList.isPrefixOf text then 8
      else if "http://".toList.isPrefixOf text then 7
      else 0
    let behind := (text.drop scheme).takeWhile fun c => !Text.isSpace c
    if scheme = 0 ∨ behind = [] then findLink rest else some (text.take scheme ++ behind)

def threadLink (summon : Option SlackEvent) (block : SlackBlock) : String :=
  match findLink ((summon.map SlackEvent.content).getD "").toList with
  | some link => String.ofList link
  | none => "(channel " ++ block.channelId ++ ", thread " ++ block.threadTs ++ ")"

/-- `_NUDGE_TEMPLATE`. -/
def nudgeContent (link : String) : String :=
  "Slack thread " ++ link
    ++ ": the round answering this mention ended without posting a reply\n"
    ++ "(no `charliebot slack reply` call). Decide now: when the thread should hear something, "
    ++ "post it with\n`charliebot slack reply --file <path>`; when there is nothing to say, end "
    ++ "this round and the thread\ngets a one-line notice pointing to this session."

inductive AuditAct where
  | nudge (summonId : String) (nudge : SlackEvent)
  /-- The thread is told that there is no reply. -/
  | notice (summonId : String)
  deriving DecidableEq

/-- `_audit_round`, up to what it does. -/
def auditRound (events : List SlackEvent) (target : SlackBlock) (inputEventId : String) :
    Option AuditAct :=
  let summonId := summonOf target inputEventId
  let summon := eventById events summonId
  if !Text.contains replyCommand.toList ((summon.map SlackEvent.content).getD "").toList then none
  else if replied events summonId then none
  else match target.nudgeOf with
    | none =>
      if nudged events summonId then none
      else some (.nudge summonId
        { type := ET.agentMessage
          content := nudgeContent (threadLink summon target)
          slack := some { target with nudgeOf := some summonId } })
    | some _ => if noticed events summonId then none else some (.notice summonId)

/-- What is kept when a summons got its notice. -/
def noticeEvent (summonId : String) : SlackEvent where
  type := ET.assistantError
  content := "This Slack mention got no reply from its round or the nudge round; "
    ++ "the thread was told so."
  slackNotice := some summonId

/-- What is kept when an event was reported as lost. -/
def backfillEvent (eventId : String) : SlackEvent where
  type := ET.assistantError
  content := "这条 Slack 召唤在服务重启时还排在队列里，没有任何轮次回答它；已在对应线程里说明。"
  slackBackfill := some eventId

/-- Whether an event with a `slack` block is accounted for: a done names it, it was reported
already, or a round has it. -/
def accounted (events : List SlackEvent) (owned : List String) (running : Option String)
    (ev : SlackEvent) : Bool :=
  events.any (fun e => e.type = ET.masterDone && e.inputEventId = some ev.id)
    || events.any (fun e => e.slackBackfill = some ev.id)
    || owned.contains ev.id || running = some ev.id

/-- `_lost_summons`, each with its block. -/
def lostSummons (events : List SlackEvent) (owned : List String) (running : Option String) :
    List (SlackEvent × SlackBlock) :=
  events.filterMap fun ev =>
    match ev.slack with
    | some block =>
      if ev.type = ET.agentMessage && !accounted events owned running ev then some (ev, block)
      else none
    | none => none

/-- The inputs of the rounds that ended. -/
def donesOf (events : List SlackEvent) : List String :=
  events.filterMap fun ev =>
    if ev.type = ET.masterDone then ev.inputEventId.filter (· ≠ "") else none

/-! ## The session and its audits -/

inductive AuditPhase where
  | reading
  /-- The events that were lost are reported, -/
  | reporting
  /-- one after the other: this one is marked, and the thread is to be told. -/
  | posting (ev : SlackEvent) (block : SlackBlock)
  /-- The rounds that ended are judged. -/
  | auditing
  | acting (act : AuditAct)
  /-- The thread has its notice, which is to be kept. -/
  | keeping (summonId : String)
  /-- The audit acted, and the log is read again. -/
  | rereading
  | over
  deriving DecidableEq

/-- **An audit**: of one round (`deliver_done`), or after a restart of all
(`backfill_lost_summons`). -/
structure Audit where
  backfill : Bool
  phase : AuditPhase := .reading
  /-- The log, as it was read last. -/
  events : List SlackEvent := []
  lost : List (SlackEvent × SlackBlock) := []
  /-- Whether an event was reported as lost. -/
  reported : Bool := false
  /-- The inputs of the rounds that are left. -/
  dones : List String := []

/-- What the master or the thread was told of a summons. -/
inductive ToldKind where
  | nudge
  | notice
  | lost
  deriving DecidableEq

/-- What was told of a summons, and whether it had a reply by then. -/
structure Told where
  kind : ToldKind
  summonId : String
  late : Bool
  deriving DecidableEq

/-- **A Slack session.** -/
structure AuditState where
  events : List SlackEvent := []
  /-- The inputs that are queued or at work in this process. -/
  owned : List String := []
  /-- The input the run record names. -/
  running : Option String := none
  audits : List Audit := []
  told : List Told := []

inductive AuditAction where
  /-- A round ends. -/
  | done (inputEventId : Option String)
  /-- The pass after a restart begins. -/
  | boot
  | reply (answers : Option String)
  /-- Any other event: a summons, a message, an answer. -/
  | append (ev : SlackEvent)
  /-- Rounds are queued, begin and end. -/
  | rounds (owned : List String) (running : Option String)
  | read (a : ℕ)
  /-- An event that was lost is marked. -/
  | mark (a : ℕ)
  /-- The thread is told, where Slack takes the post. -/
  | report (a : ℕ) (accepted : Bool)
  | list (a : ℕ)
  | judge (a : ℕ)
  | nudge (a : ℕ) (id : String)
  /-- The thread is given the notice, where Slack takes the post. -/
  | notice (a : ℕ) (accepted : Bool)
  | keep (a : ℕ)
  | reread (a : ℕ)
  /-- The step at hand raises. -/
  | fail (a : ℕ)
  | crash

namespace AuditState

variable (s : AuditState)

def setAudit (a : ℕ) (audit : Audit) : AuditState := { s with audits := s.audits.set a audit }

def tell (kind : ToldKind) (summonId : String) : AuditState :=
  { s with told := s.told ++ [⟨kind, summonId, replied s.events summonId⟩] }

def persist (ev : SlackEvent) : AuditState := { s with events := s.events ++ [ev] }

def step : AuditAction → Option AuditState
  | .done inputEventId =>
    let s := s.persist { type := ET.masterDone, inputEventId }
    match inputEventId with
    | none => some s
    | some id => some { s with audits := s.audits ++ [{ backfill := false, dones := [id] }] }
  | .boot => some { s with audits := s.audits ++ [{ backfill := true }] }
  | .reply answers => some (s.persist { type := ET.slackReply, answers })
  | .append ev =>
    if ev.type = ET.slackReply ∨ ev.type = ET.masterDone ∨ (ev.slack.bind SlackBlock.nudgeOf).isSome
    then none
    else some (s.persist ev)
  | .rounds owned running => some { s with owned, running }
  | .read a => do
    let audit ← s.audits[a]?
    match audit.phase with
    | .reading =>
      if audit.backfill then
        some (s.setAudit a { audit with
          phase := .reporting, events := s.events
          lost := lostSummons s.events s.owned s.running })
      else some (s.setAudit a { audit with phase := .auditing, events := s.events })
    | _ => none
  | .mark a => do
    let audit ← s.audits[a]?
    match audit.phase, audit.lost with
    | .reporting, (ev, block) :: lost =>
      some ((s.persist (backfillEvent ev.id)).setAudit a
        { audit with phase := .posting ev block, lost, reported := true })
    | _, _ => none
  | .report a accepted => do
    let audit ← s.audits[a]?
    match audit.phase with
    | .posting ev block =>
      let s := if accepted then s.tell .lost (summonOf block ev.id) else s
      some (s.setAudit a { audit with phase := .reporting })
    | _ => none
  | .list a => do
    let audit ← s.audits[a]?
    match audit.phase, audit.lost with
    | .reporting, [] =>
      let events := if audit.reported then s.events else audit.events
      some (s.setAudit a { audit with phase := .auditing, events, dones := donesOf events })
    | _, _ => none
  | .judge a => do
    let audit ← s.audits[a]?
    match audit.phase, audit.dones with
    | .auditing, id :: dones =>
      let act := (slackTarget audit.events id).bind fun target => auditRound audit.events target id
      some (s.setAudit a { audit with
        phase := match act with
          | none => .auditing
          | some act => .acting act
        dones })
    | .auditing, [] => some (s.setAudit a { audit with phase := .over })
    | _, _ => none
  | .nudge a id => do
    let audit ← s.audits[a]?
    match audit.phase with
    | .acting (.nudge summonId nudge) =>
      some (((s.tell .nudge summonId).persist { nudge with id }).setAudit a
        { audit with phase := .rereading })
    | _ => none
  | .notice a accepted => do
    let audit ← s.audits[a]?
    match audit.phase with
    | .acting (.notice summonId) =>
      if accepted then
        some ((s.tell .notice summonId).setAudit a { audit with phase := .keeping summonId })
      else some (s.setAudit a { audit with phase := .auditing })
    | _ => none
  | .keep a => do
    let audit ← s.audits[a]?
    match audit.phase with
    | .keeping summonId =>
      some ((s.persist (noticeEvent summonId)).setAudit a { audit with phase := .rereading })
    | _ => none
  | .reread a => do
    let audit ← s.audits[a]?
    match audit.phase with
    | .rereading => some (s.setAudit a { audit with phase := .auditing, events := s.events })
    | _ => none
  | .fail a => do
    let audit ← s.audits[a]?
    some (s.setAudit a { audit with phase := .over })
  | .crash => some { s with audits := [], owned := [] }

def system : TransitionSystem AuditState AuditAction := ⟨step⟩

/-! ## What is claimed -/

/-- **The summonses of a session**: each is nudged at most once, and none is told of that has a
reply. -/
structure AuditsRight : Prop where
  once : ∀ summonId, s.events.countP (isNudgeOf summonId) ≤ 1
  late : ∀ t ∈ s.told, t.late = false

/-- The log says of a summons what it said when an audit read it. -/
def Current (audit : Audit) (summonId : String) : Prop :=
  replied s.events summonId = replied audit.events summonId ∧
    nudged s.events summonId = nudged audit.events summonId

/-- **No audit acts on what is past, and no reply is lost**: where an audit acts for a summons, no
reply to it and no nudge for it came since the log was read; and where the log is read after a
restart, an event whose summons has a reply is accounted for. -/
def Meets : AuditAction → Prop
  | .read a => ∀ audit ∈ s.audits[a]?, audit.backfill = true →
    ∀ ev ∈ s.events, ∀ block ∈ ev.slack, replied s.events (summonOf block ev.id) = true →
      accounted s.events s.owned s.running ev = true
  | .report a accepted => ∀ audit ∈ s.audits[a]?, accepted = true →
    match audit.phase with
    | .posting ev block => s.Current audit (summonOf block ev.id)
    | _ => True
  | .nudge a _ => ∀ audit ∈ s.audits[a]?,
    match audit.phase with
    | .acting (.nudge summonId _) => s.Current audit summonId
    | _ => True
  | .notice a accepted => ∀ audit ∈ s.audits[a]?, accepted = true →
    match audit.phase with
    | .acting (.notice summonId) => s.Current audit summonId
    | _ => True
  | _ => True

/-! ## What holds of a session -/

/-- What an audit has judged by the log it read. -/
def PhaseInv (events : List SlackEvent) : AuditPhase → Prop
  | .posting ev block => replied events (summonOf block ev.id) = false
  | .acting (.nudge summonId nudge) => replied events summonId = false ∧
    nudged events summonId = false ∧ ∀ other, isNudgeOf other nudge = true ↔ other = summonId
  | .acting (.notice summonId) => replied events summonId = false
  | _ => True

/-- Whether the events that were lost are being reported. -/
def reports : AuditPhase → Bool
  | .reporting => true
  | .posting _ _ => true
  | _ => false

structure AuditInv (audit : Audit) : Prop where
  lost : reports audit.phase = true →
    ∀ p ∈ audit.lost, replied audit.events (summonOf p.2 p.1.id) = false
  phase : PhaseInv audit.events audit.phase

/-- **What holds of a session.** -/
structure Inv : Prop where
  audits : ∀ audit ∈ s.audits, AuditInv audit
  once : ∀ summonId, s.events.countP (isNudgeOf summonId) ≤ 1
  late : ∀ t ∈ s.told, t.late = false

theorem inv_empty : Inv {} where
  audits _ h := absurd h List.not_mem_nil
  once _ := Nat.zero_le _
  late _ h := absurd h List.not_mem_nil

variable {s} {s' : AuditState} {a : ℕ} {audit : Audit}

/-- **What an audit does for a summons** is judged by the log: there is no reply, and where the
master is nudged, no nudge. -/
theorem auditRound_spec {events : List SlackEvent} {target : SlackBlock} {id : String}
    {act : AuditAct} (h : auditRound events target id = some act) :
    PhaseInv events (.acting act) := by
  unfold auditRound at h
  simp only at h
  split at h
  · cases h
  · split at h
    · cases h
    · next hreplied =>
      have hreplied := eq_false_of_ne_true hreplied
      split at h
      · split at h
        · cases h
        · next hnudged =>
          cases h
          refine ⟨hreplied, eq_false_of_ne_true hnudged, fun other => ?_⟩
          show (decide (ET.agentMessage = ET.agentMessage)
            && decide (some (summonOf target id) = some other)) = true ↔ _
          rw [decide_eq_true rfl, Bool.true_and, decide_eq_true_eq, Option.some_inj, eq_comm]
      · split at h
        · cases h
        · cases h
          exact hreplied

theorem of_mem_lostSummons {events : List SlackEvent} {owned : List String}
    {running : Option String}
    (haccounted : ∀ ev ∈ events, ∀ block ∈ ev.slack, replied events (summonOf block ev.id) = true →
      accounted events owned running ev = true)
    {p : SlackEvent × SlackBlock} (h : p ∈ lostSummons events owned running) :
    replied events (summonOf p.2 p.1.id) = false := by
  obtain ⟨ev, hev, hp⟩ := List.mem_filterMap.mp h
  refine eq_false_of_ne_true fun hreplied => ?_
  split at hp
  · next block hblock =>
    split at hp
    · next hlost =>
      cases hp
      rw [haccounted ev hev block hblock hreplied, Bool.not_true, Bool.and_false] at hlost
      cases hlost
    · cases hp
  · cases hp

theorem Inv.setAudit (h : Inv s) (hnew : AuditInv audit) : Inv (s.setAudit a audit) where
  audits other hother := by
    rcases List.mem_or_eq_of_mem_set hother with hold | rfl
    · exact h.audits other hold
    · exact hnew
  once := h.once
  late := h.late

theorem Inv.persist (h : Inv s) {ev : SlackEvent}
    (hother : ∀ summonId, isNudgeOf summonId ev = false) : Inv (s.persist ev) where
  audits := h.audits
  once summonId := by
    show (s.events ++ [ev]).countP _ ≤ 1
    rw [List.countP_append, List.countP_singleton, hother, if_neg Bool.false_ne_true]
    exact h.once summonId
  late := h.late

theorem Inv.tell (h : Inv s) (kind : ToldKind) {summonId : String}
    (hreplied : replied s.events summonId = false) : Inv (s.tell kind summonId) where
  audits := h.audits
  once := h.once
  late t ht := by
    rcases List.mem_append.mp ht with hold | hnew
    · exact h.late t hold
    · rw [List.mem_singleton.mp hnew]
      exact hreplied

theorem Inv.nudge (h : Inv s) {summonId id : String} {nudge : SlackEvent}
    (hnudged : nudged s.events summonId = false)
    (hnudge : ∀ other, isNudgeOf other nudge = true ↔ other = summonId) :
    Inv (s.persist { nudge with id }) where
  audits := h.audits
  once other := by
    show (s.events ++ [_]).countP _ ≤ 1
    rw [List.countP_append, List.countP_singleton]
    by_cases hsame : other = summonId
    · have hnone : s.events.countP (isNudgeOf summonId) = 0 := by
        rw [List.countP_eq_zero]
        intro ev hev hyes
        rw [nudged, List.any_eq_false] at hnudged
        exact hnudged ev hev hyes
      rw [hsame, hnone, Nat.zero_add]
      split <;> omega
    · rw [show isNudgeOf other { nudge with id } = isNudgeOf other nudge from rfl,
        eq_false_of_ne_true fun hyes => hsame ((hnudge other).mp hyes), if_neg Bool.false_ne_true]
      exact h.once other
  late := h.late

theorem AuditInv.of_phase (hreports : reports audit.phase = false)
    (hphase : PhaseInv audit.events audit.phase) : AuditInv audit where
  lost h := by
    rw [hreports] at h
    cases h
  phase := hphase

theorem Inv.addAudit (h : Inv s) (hphase : audit.phase = .reading) :
    Inv { s with audits := s.audits ++ [audit] } where
  audits other hother := by
    rcases List.mem_append.mp hother with hold | hnew
    · exact h.audits other hold
    · rw [List.mem_singleton.mp hnew]
      refine .of_phase ?_ ?_
      · rw [hphase]
        rfl
      · rw [hphase]
        trivial
  once := h.once
  late := h.late

/-- **A step keeps the invariant** where no audit acts on what is past and no reply is lost. -/
theorem Inv.step (h : Inv s) {act : AuditAction} (hmeets : s.Meets act)
    (hstep : s.step act = some s') : Inv s' := by
  cases act with
  | done inputEventId =>
    have hdone : Inv (s.persist { type := ET.masterDone, inputEventId }) :=
      h.persist fun _ => rfl
    cases inputEventId with
    | none =>
      cases hstep
      exact hdone
    | some id =>
      cases hstep
      exact hdone.addAudit rfl
  | boot =>
    cases hstep
    exact h.addAudit rfl
  | reply answers =>
    cases hstep
    exact h.persist (fun _ => rfl)
  | append ev =>
    simp only [AuditState.step] at hstep
    split at hstep
    · cases hstep
    · next hplain =>
      cases hstep
      refine h.persist fun summonId => eq_false_of_ne_true fun hyes => hplain (.inr (.inr ?_))
      rw [isNudgeOf, Bool.and_eq_true, decide_eq_true_eq, decide_eq_true_eq] at hyes
      rw [hyes.2]
      rfl
  | rounds owned running =>
    cases hstep
    exact ⟨h.audits, h.once, h.late⟩
  | read a =>
    obtain ⟨audit, haudit, hstep⟩ := Option.bind_eq_some_iff.mp hstep
    have hinv := h.audits audit (List.mem_iff_getElem?.mpr ⟨a, haudit⟩)
    split at hstep
    · split at hstep
      · next hbackfill =>
        cases hstep
        exact h.setAudit
          ⟨fun _ p hp => of_mem_lostSummons (hmeets audit haudit hbackfill) hp, trivial⟩
      · cases hstep
        exact h.setAudit (.of_phase rfl trivial)
    · cases hstep
  | mark a =>
    obtain ⟨audit, haudit, hstep⟩ := Option.bind_eq_some_iff.mp hstep
    have hinv := h.audits audit (List.mem_iff_getElem?.mpr ⟨a, haudit⟩)
    split at hstep
    · next ev block lost hphase hlost =>
      cases hstep
      have hunreplied := hinv.lost (by rw [hphase]; rfl)
      refine (h.persist (fun _ => rfl)).setAudit ⟨fun _ p hp => ?_, ?_⟩
      · exact hunreplied p (hlost ▸ List.mem_cons_of_mem _ hp)
      · exact hunreplied (ev, block) (hlost ▸ List.mem_cons_self)
    · cases hstep
  | report a accepted =>
    obtain ⟨audit, haudit, hstep⟩ := Option.bind_eq_some_iff.mp hstep
    have hinv := h.audits audit (List.mem_iff_getElem?.mpr ⟨a, haudit⟩)
    split at hstep
    · next ev block hphase =>
      cases hstep
      have hunreplied := hinv.phase
      rw [hphase] at hunreplied
      have hnew : AuditInv { audit with phase := .reporting } :=
        ⟨fun _ => hinv.lost (by rw [hphase]; rfl), trivial⟩
      cases accepted with
      | false => exact h.setAudit hnew
      | true =>
        have hcurrent := hmeets audit haudit rfl
        rw [hphase] at hcurrent
        exact (h.tell .lost (hcurrent.1.trans hunreplied)).setAudit hnew
    · cases hstep
  | list a =>
    obtain ⟨audit, haudit, hstep⟩ := Option.bind_eq_some_iff.mp hstep
    split at hstep
    · cases hstep
      exact h.setAudit (.of_phase rfl trivial)
    · cases hstep
  | judge a =>
    obtain ⟨audit, haudit, hstep⟩ := Option.bind_eq_some_iff.mp hstep
    have hinv := h.audits audit (List.mem_iff_getElem?.mpr ⟨a, haudit⟩)
    split at hstep
    · next id dones _ _ =>
      cases hstep
      cases hact : (slackTarget audit.events id).bind fun target =>
        auditRound audit.events target id with
      | none => exact h.setAudit (.of_phase rfl trivial)
      | some act =>
        obtain ⟨target, -, hround⟩ := Option.bind_eq_some_iff.mp hact
        exact h.setAudit (.of_phase rfl (auditRound_spec hround))
    · cases hstep
      exact h.setAudit (.of_phase rfl trivial)
    · cases hstep
  | nudge a id =>
    obtain ⟨audit, haudit, hstep⟩ := Option.bind_eq_some_iff.mp hstep
    have hinv := h.audits audit (List.mem_iff_getElem?.mpr ⟨a, haudit⟩)
    split at hstep
    · next summonId nudge hphase =>
      cases hstep
      have hjudged := hinv.phase
      have hcurrent := hmeets audit haudit
      rw [hphase] at hjudged hcurrent
      obtain ⟨hunreplied, hunnudged, hnudge⟩ := hjudged
      have htold := h.tell .nudge (hcurrent.1.trans hunreplied)
      exact (htold.nudge (hcurrent.2.trans hunnudged) hnudge).setAudit (.of_phase rfl trivial)
    · cases hstep
  | notice a accepted =>
    obtain ⟨audit, haudit, hstep⟩ := Option.bind_eq_some_iff.mp hstep
    have hinv := h.audits audit (List.mem_iff_getElem?.mpr ⟨a, haudit⟩)
    split at hstep
    · next summonId hphase =>
      have hunreplied := hinv.phase
      rw [hphase] at hunreplied
      cases accepted with
      | false =>
        cases hstep
        exact h.setAudit (.of_phase rfl trivial)
      | true =>
        cases hstep
        have hcurrent := hmeets audit haudit rfl
        rw [hphase] at hcurrent
        exact (h.tell .notice (hcurrent.1.trans hunreplied)).setAudit (.of_phase rfl trivial)
    · cases hstep
  | keep a =>
    obtain ⟨audit, haudit, hstep⟩ := Option.bind_eq_some_iff.mp hstep
    have hinv := h.audits audit (List.mem_iff_getElem?.mpr ⟨a, haudit⟩)
    split at hstep
    · cases hstep
      exact (h.persist (fun _ => rfl)).setAudit (.of_phase rfl trivial)
    · cases hstep
  | reread a =>
    obtain ⟨audit, haudit, hstep⟩ := Option.bind_eq_some_iff.mp hstep
    have hinv := h.audits audit (List.mem_iff_getElem?.mpr ⟨a, haudit⟩)
    split at hstep
    · cases hstep
      exact h.setAudit (.of_phase rfl trivial)
    · cases hstep
  | fail a =>
    obtain ⟨audit, haudit, hstep⟩ := Option.bind_eq_some_iff.mp hstep
    have hinv := h.audits audit (List.mem_iff_getElem?.mpr ⟨a, haudit⟩)
    cases hstep
    exact h.setAudit (.of_phase rfl trivial)
  | crash =>
    cases hstep
    exact ⟨fun _ hx => absurd hx List.not_mem_nil, h.once, h.late⟩

/-- **The audit of Slack rounds.** Along every run in which no audit acts on what is past, and no
reply is lost, each summons is nudged at most once, and none is told of that has a
reply. -/
theorem audits_of_run {as : List AuditAction} (hmeets : system.Guarded Meets {} as)
    (hrun : system.run {} as = some s) : s.AuditsRight :=
  have h := system.run_invariant_of_guarded (fun _ _ _ h hmeets hstep => Inv.step h hmeets hstep)
    inv_empty hmeets hrun
  ⟨h.once, h.late⟩

instance (s : AuditState) (audit : Audit) (summonId : String) :
    Decidable (s.Current audit summonId) := inferInstanceAs (Decidable (_ ∧ _))

instance (s : AuditState) (act : AuditAction) : Decidable (s.Meets act) := by
  cases act with
  | report a accepted =>
    refine @Option.decidableForallMem _ _ (fun audit => ?_) _
    refine @instDecidableForall _ _ _ ?_
    cases audit.phase <;> infer_instance
  | nudge a id =>
    refine @Option.decidableForallMem _ _ (fun audit => ?_) _
    cases audit.phase with
    | acting act => cases act <;> infer_instance
    | _ => infer_instance
  | notice a accepted =>
    refine @Option.decidableForallMem _ _ (fun audit => ?_) _
    refine @instDecidableForall _ _ _ ?_
    cases audit.phase with
    | acting act => cases act <;> infer_instance
    | _ => infer_instance
  | _ => unfold Meets; infer_instance

def summons : SlackEvent where
  type := ET.agentMessage
  id := "m"
  content := "https://slack/p1 Reply with `charliebot slack reply`."
  slack := some ⟨"C1", "1.0", some "1.0", none⟩

def nudgeOnce (a : ℕ) (id : String) : List AuditAction := [.read a, .judge a, .nudge a id]

/-- The round of a summons ends without a reply, the master is nudged, and the round of the
nudge ends without one either. The done of the summons is repeated, and after a crash
all is audited again. -/
def silentRun : List AuditAction :=
  [.append summons, .done (some "m")] ++ nudgeOnce 0 "n"
    ++ [.done (some "m"), .read 1, .judge 1, .judge 1, .done (some "n"), .read 2, .judge 2,
      .notice 2 true, .keep 2, .crash, .boot, .read 0, .list 0, .judge 0, .judge 0, .judge 0,
      .judge 0]

/-- Two audits of one summons read before either acts. -/
def overlappingRun : List AuditAction :=
  [.append summons, .done (some "m"), .done (some "m"), .read 0, .read 1, .judge 0, .judge 1,
    .nudge 0 "n0", .nudge 1 "n1"]

/-- A reply is posted, and the process dies before the round is done. -/
def repliedRun : List AuditAction :=
  [.append summons, .reply (some "m"), .crash, .boot, .read 0, .mark 0, .report 0 true]

/-- In `silentRun` the master is nudged once, and the thread is told once. -/
theorem audits_of_silentRun : ∃ s, system.run {} silentRun = some s ∧
    s.told = [⟨.nudge, "m", false⟩, ⟨.notice, "m", false⟩] ∧ s.AuditsRight := by
  have hrun : (system.run {} silentRun).map AuditState.told
      = some [⟨.nudge, "m", false⟩, ⟨.notice, "m", false⟩] := by decide +kernel
  obtain ⟨s, hs, htold⟩ := Option.map_eq_some_iff.mp hrun
  exact ⟨s, hs, htold, audits_of_run (TransitionSystem.guarded_of_check (by decide +kernel)) hs⟩

/-- **The master is nudged twice** by audits that overlap, and a summons that has its reply is
reported as lost. -/
theorem nudged_twice :
    (∃ s, system.run {} overlappingRun = some s ∧ s.events.countP (isNudgeOf "m") = 2 ∧
      ¬s.AuditsRight) ∧
    ∃ s, system.run {} repliedRun = some s ∧ s.told = [⟨.lost, "m", true⟩] ∧ ¬s.AuditsRight := by
  constructor
  · have hrun : (system.run {} overlappingRun).map (fun s => s.events.countP (isNudgeOf "m"))
        = some 2 := by decide +kernel
    obtain ⟨s, hs, hcount⟩ := Option.map_eq_some_iff.mp hrun
    refine ⟨s, hs, hcount, fun hright => ?_⟩
    have honce := hright.once "m"
    omega
  · have hrun : (system.run {} repliedRun).map AuditState.told = some [⟨.lost, "m", true⟩] := by
      decide +kernel
    obtain ⟨s, hs, htold⟩ := Option.map_eq_some_iff.mp hrun
    refine ⟨s, hs, htold, fun hright => ?_⟩
    have hlate := hright.late ⟨.lost, "m", true⟩ (by rw [htold]; exact List.mem_singleton_self _)
    cases hlate

end AuditState

end SlackAudit
