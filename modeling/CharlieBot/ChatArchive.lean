import CharlieBot.EventTypes
import CharlieBot.Lib.KeyedLog
import CharlieBot.Lib.Transition

/-!
# Archiving chat events

A session's events are lines of a live file. A recycle moves the old ones
out: it reads the live file and splits it at a cutoff, appends the head to
the archive file of the cutoff's week line by line, replaces the live file
by the rest, and at last adds the number of archived events to the offset
in the session's metadata. Appends to the live file take no part in any of
this, and the process may stop between any two steps.

The module says what the files hold then. **Archive and live file hold
exactly the appended events, in order, and the offset counts the archived
ones, whenever no pass is under way** – in every run in which nothing is
appended between a pass's read and its replacement of the live file, and
no crash falls between a pass's first archived line and its offset
(`archivesAll_of_guarded`). Outside that the pass loses what is appended,
or archives it twice.
-/

/-! ## The split -/

/-- What the split reads off a line. -/
structure LineReader where
  /-- The event of a line, where it parses. -/
  loads : List Char → Option Event
  /-- A timestamp as a time, where it parses. -/
  parseUtcDatetime : Json → Option ℤ

/-- Whether a line is an event from before the cutoff. -/
def LineReader.isOld (reader : LineReader) (cutoffUtc : ℤ) (raw : List Char) : Bool :=
  match reader.loads (Text.strip raw) with
  | none => false
  | some event =>
    let tsRaw := event.get "timestamp"
    if !tsRaw.truthy then false
    else match reader.parseUtcDatetime tsRaw with
      | none => false
      | some ts => ts < cutoffUtc

/-- The lines to archive and the lines to keep: the split falls at the
first line that is not known to be old, and drops blank lines before
it. -/
def LineReader.split (reader : LineReader) (cutoffUtc : ℤ) :
    List (List Char) → List (List Char) × List (List Char)
  | [] => ([], [])
  | raw :: rest =>
    if (Text.strip raw).isEmpty then reader.split cutoffUtc rest
    else if reader.isOld cutoffUtc raw then
      let r := reader.split cutoffUtc rest
      (raw :: r.1, r.2)
    else ([], raw :: rest)

/-- A line of an event: it holds more than white space. -/
structure EventLine where
  text : List Char
  notBlank : (Text.strip text).isEmpty = false

/-- **The split loses no event**: nothing but blank lines is dropped. -/
theorem LineReader.split_append (reader : LineReader) (cutoffUtc : ℤ)
    {lines : List (List Char)} (h : ∀ raw ∈ lines, (Text.strip raw).isEmpty = false) :
    (reader.split cutoffUtc lines).1 ++ (reader.split cutoffUtc lines).2 = lines := by
  induction lines with
  | nil => rfl
  | cons raw rest ih =>
    unfold LineReader.split
    rw [h raw List.mem_cons_self, if_neg Bool.false_ne_true]
    split
    · dsimp only
      rw [List.cons_append, ih fun r hr => h r (List.mem_cons_of_mem _ hr)]
    · rfl

/-! ## The archive -/

/-- **The archive**: one file a week, in the order their names sort in. -/
abbrev ArchiveFiles := KeyedLog (List Char)

/-! ## The session's files as a system -/

inductive ArchivePass where
  /-- No pass, or a finished one. -/
  | idle
  /-- The live file is split; the lines of `rest` are still to be archived. -/
  | archiving (week : ℕ) (rest kept : List (List Char)) (eventsArchived : ℕ)
  /-- The head is archived; the live file is to be replaced. -/
  | replacing (kept : List (List Char)) (eventsArchived : ℕ)
  /-- The live file is replaced; the offset is to be stored. -/
  | storing (eventsArchived : ℕ)
  deriving DecidableEq

/-- Whether a pass may still replace the live file by what it read. -/
def ArchivePass.hasRead : ArchivePass → Bool
  | .archiving .. | .replacing .. => true
  | _ => false

/-- Whether a pass has archived lines its offset does not count. -/
def ArchivePass.uncounted : ArchivePass → Bool
  | .archiving _ rest _ n => decide (rest.length < n)
  | .replacing .. | .storing .. => true
  | .idle => false

/-- **The files of a session's chat events.** -/
structure ArchiveState where
  /-- The lines of the live file. -/
  live : List (List Char) := []
  archive : ArchiveFiles := KeyedLog.empty
  /-- The offset stored in the session's metadata. -/
  archiveOffset : ℕ := 0
  passes : ℕ → ArchivePass := fun _ => .idle
  /-- Every line ever appended. -/
  appended : List (List Char) := []

/-- What happens to the files next. -/
inductive ArchiveAction where
  /-- An event is appended to the live file. -/
  | saveChatEvent (line : EventLine)
  /-- A pass reads the live file to its end and splits it. -/
  | read (p : ℕ) (cutoffUtc : ℤ) (week : ℕ)
  /-- A pass appends its next line to the archive file. -/
  | archiveLine (p : ℕ)
  /-- A pass replaces the live file. -/
  | replace (p : ℕ)
  /-- A pass adds what it archived to the offset. -/
  | storeOffset (p : ℕ)
  /-- The process stops, and starts again. -/
  | crash

namespace ArchiveState

variable (reader : LineReader)

def setPass (s : ArchiveState) (p : ℕ) (x : ArchivePass) : ArchiveState :=
  { s with passes := Function.update s.passes p x }

/-- A pass with this to archive: behind the last line the live file is
replaced. -/
def archivingFrom (week : ℕ) (rest kept : List (List Char)) (eventsArchived : ℕ) :
    ArchivePass :=
  match rest with
  | [] => .replacing kept eventsArchived
  | _ :: _ => .archiving week rest kept eventsArchived

/-- **One step of the files.** -/
def step (s : ArchiveState) : ArchiveAction → Option ArchiveState
  | .saveChatEvent line =>
    some { s with live := s.live ++ [line.text], appended := s.appended ++ [line.text] }
  | .read p cutoffUtc week =>
    match s.passes p with
    | .idle =>
      let (archived, kept) := reader.split cutoffUtc s.live
      -- nothing to archive, nothing to do
      if archived.isEmpty then some s
      else some (s.setPass p (.archiving week archived kept archived.length))
    | _ => none
  | .archiveLine p =>
    match s.passes p with
    | .archiving week (raw :: rest) kept n =>
      some ({ s with archive := s.archive.append week raw }.setPass p
        (archivingFrom week rest kept n))
    | _ => none
  | .replace p =>
    match s.passes p with
    | .replacing kept n => some ({ s with live := kept }.setPass p (.storing n))
    | _ => none
  | .storeOffset p =>
    match s.passes p with
    | .storing n => some ({ s with archiveOffset := s.archiveOffset + n }.setPass p .idle)
    | _ => none
  | .crash => some { s with passes := fun _ => .idle }

/-- A session's files as a transition system. -/
def system : TransitionSystem ArchiveState ArchiveAction := ⟨step reader⟩

/-! ## What is kept -/

/-- **Archive and live file hold the appended events**, and the offset
counts the archived ones. -/
def ArchivesAll (s : ArchiveState) : Prop :=
  s.archive.entries ++ s.live = s.appended ∧ s.archiveOffset = s.archive.entries.length

/-- No pass is under way. -/
def AtRest (s : ArchiveState) : Prop := ∀ p, s.passes p = .idle

/-- **The condition on a step.** Nothing is appended between a pass's read
and its replacement of the live file; no crash falls between a pass's
first archived line and its offset; passes do not overlap, and their weeks
do not go back. -/
def Undisturbed (s : ArchiveState) : ArchiveAction → Prop
  | .saveChatEvent _ => ∀ p, ArchivePass.hasRead (s.passes p) = false
  | .read _ _ week => s.AtRest ∧ s.archive.UpTo week
  | .crash => ∀ p, ArchivePass.uncounted (s.passes p) = false
  | _ => True

/-- **What a pass under way leaves of the appended events**, and which of
them the offset counts. -/
def Midway (s : ArchiveState) : ArchivePass → Prop
  | .idle => s.ArchivesAll
  | .archiving week rest kept n => ∃ counted done,
      s.archive.entries = counted ++ done ∧ s.live = done ++ rest ++ kept ∧
      s.appended = counted ++ s.live ∧ s.archiveOffset = counted.length ∧
      n = done.length + rest.length ∧ s.archive.UpTo week
  | .replacing kept n => ∃ counted done,
      s.archive.entries = counted ++ done ∧ s.live = done ++ kept ∧
      s.appended = counted ++ s.live ∧ s.archiveOffset = counted.length ∧
      n = done.length
  | .storing n => s.archive.entries ++ s.live = s.appended ∧
      s.archiveOffset + n = s.archive.entries.length

/-- **What holds of the files at any time.** -/
structure Inv (s : ArchiveState) : Prop where
  /-- One pass at most is under way, and it is where it should be. -/
  pass : ∃ p, s.Midway (s.passes p) ∧ ∀ q, q ≠ p → s.passes q = .idle
  /-- Every line of the live file is one of an event. -/
  live : ∀ raw ∈ s.live, (Text.strip raw).isEmpty = false

variable {reader} {s s' : ArchiveState}

theorem Inv.archivesAll (h : s.Inv) (hrest : s.AtRest) : s.ArchivesAll := by
  obtain ⟨p, hp, -⟩ := h.pass
  rw [hrest p] at hp
  exact hp

theorem Inv.midway (h : s.Inv) {p : ℕ} (hp : s.passes p ≠ .idle) :
    s.Midway (s.passes p) ∧ ∀ q, q ≠ p → s.passes q = .idle := by
  obtain ⟨p', hmid, hothers⟩ := h.pass
  have heq : p = p' := by
    by_contra hne
    exact hp (hothers p hne)
  rw [heq]
  exact ⟨hmid, hothers⟩

theorem passes_setPass_self (p : ℕ) (x : ArchivePass) : (s.setPass p x).passes p = x :=
  Function.update_self ..

theorem passes_setPass_of_ne {p q : ℕ} (x : ArchivePass) (h : q ≠ p) :
    (s.setPass p x).passes q = s.passes q := Function.update_of_ne h ..

theorem inv_setPass {p : ℕ} {x : ArchivePass} (hx : s.Midway x)
    (hothers : ∀ q, q ≠ p → s.passes q = .idle)
    (hlive : ∀ raw ∈ s.live, (Text.strip raw).isEmpty = false) : (s.setPass p x).Inv := by
  refine ⟨⟨p, ?_, fun q hq => ?_⟩, hlive⟩
  · rw [passes_setPass_self]
    cases x <;> exact hx
  · rw [passes_setPass_of_ne x hq]
    exact hothers q hq

theorem midway_archivingFrom {week : ℕ} {rest kept : List (List Char)} {n : ℕ}
    (counted done : List (List Char)) (hlines : s.archive.entries = counted ++ done)
    (hlive : s.live = done ++ rest ++ kept) (happended : s.appended = counted ++ s.live)
    (hoffset : s.archiveOffset = counted.length) (hn : n = done.length + rest.length)
    (hweek : s.archive.UpTo week) : s.Midway (archivingFrom week rest kept n) := by
  cases rest with
  | nil =>
    rw [List.append_nil] at hlive
    exact ⟨counted, done, hlines, hlive, happended, hoffset, hn⟩
  | cons raw rest => exact ⟨counted, done, hlines, hlive, happended, hoffset, hn, hweek⟩

/-- **Every step that meets its condition keeps the files.** -/
theorem Inv.step (h : s.Inv) {a : ArchiveAction} (ha : s.Undisturbed a)
    (hstep : s.step reader a = some s') : s'.Inv := by
  cases a with
  | saveChatEvent line =>
    cases hstep
    obtain ⟨p, hmid, hothers⟩ := h.pass
    refine ⟨⟨p, ?_, hothers⟩, fun raw hraw => ?_⟩
    · have hread := ha p
      show Midway _ (s.passes p)
      cases hp : s.passes p with
      | idle =>
        rw [hp] at hmid
        exact ⟨by rw [← hmid.1, List.append_assoc], hmid.2⟩
      | archiving _ _ _ _ =>
        rw [hp] at hread
        cases hread
      | replacing _ _ =>
        rw [hp] at hread
        cases hread
      | storing n =>
        rw [hp] at hmid
        exact ⟨by rw [← hmid.1, List.append_assoc], hmid.2⟩
    · rcases List.mem_append.mp hraw with hraw | hraw
      · exact h.live raw hraw
      · rw [List.mem_singleton.mp hraw]
        exact line.notBlank
  | read p cutoffUtc week =>
    obtain ⟨hrest, hweek⟩ := ha
    obtain ⟨hall, hoffset⟩ := h.archivesAll hrest
    have hsplit := reader.split_append cutoffUtc h.live
    simp only [ArchiveState.step, hrest p] at hstep
    split at hstep
    · cases hstep
      exact h
    · cases hstep
      refine inv_setPass ?_ (fun q _ => hrest q) h.live
      exact ⟨s.archive.entries, [], (List.append_nil _).symm, by
        rw [List.nil_append]; exact hsplit.symm, hall.symm, hoffset,
        (Nat.zero_add _).symm, hweek⟩
  | archiveLine p =>
    cases hp : s.passes p with
    | archiving week rest kept n =>
      obtain ⟨hmid, hothers⟩ := h.midway (p := p) (by rw [hp]; exact ArchivePass.noConfusion)
      cases rest with
      | nil => simp [ArchiveState.step, hp] at hstep
      | cons raw rest =>
        simp only [ArchiveState.step, hp, Option.some.injEq] at hstep
        subst hstep
        rw [hp] at hmid
        obtain ⟨counted, done, hlines, hlive, happended, hoffset, hn, hweek⟩ := hmid
        refine inv_setPass ?_ hothers h.live
        refine midway_archivingFrom counted (done ++ [raw]) ?_ ?_
          happended hoffset ?_ (hweek.append raw)
        · show (s.archive.append week raw).entries = _
          rw [hweek.entries_append, hlines, List.append_assoc]
        · show s.live = _
          rw [hlive]
          simp only [List.append_assoc, List.cons_append, List.nil_append]
        · rw [hn, List.length_append, List.length_cons, List.length_singleton]
          omega
    | _ => simp [ArchiveState.step, hp] at hstep
  | replace p =>
    cases hp : s.passes p with
    | replacing kept n =>
      obtain ⟨hmid, hothers⟩ := h.midway (p := p) (by rw [hp]; exact ArchivePass.noConfusion)
      simp only [ArchiveState.step, hp, Option.some.injEq] at hstep
      subst hstep
      rw [hp] at hmid
      obtain ⟨counted, done, hlines, hlive, happended, hoffset, hn⟩ := hmid
      refine inv_setPass ⟨?_, ?_⟩ hothers fun raw hraw => h.live raw ?_
      · show s.archive.entries ++ kept = s.appended
        rw [hlines, happended, hlive, List.append_assoc]
      · show s.archiveOffset + n = s.archive.entries.length
        rw [hlines, hoffset, hn, List.length_append]
      · rw [hlive]
        exact List.mem_append_right _ hraw
    | _ => simp [ArchiveState.step, hp] at hstep
  | storeOffset p =>
    cases hp : s.passes p with
    | storing n =>
      obtain ⟨hmid, hothers⟩ := h.midway (p := p) (by rw [hp]; exact ArchivePass.noConfusion)
      simp only [ArchiveState.step, hp, Option.some.injEq] at hstep
      subst hstep
      rw [hp] at hmid
      exact inv_setPass ⟨hmid.1, hmid.2⟩ hothers h.live
    | _ => simp [ArchiveState.step, hp] at hstep
  | crash =>
    cases hstep
    refine ⟨⟨0, ?_, fun _ _ => rfl⟩, h.live⟩
    obtain ⟨p, hmid, -⟩ := h.pass
    have huncounted := ha p
    show s.ArchivesAll
    cases hp : s.passes p with
    | idle =>
      rw [hp] at hmid
      exact hmid
    | archiving week rest kept n =>
      rw [hp] at hmid huncounted
      obtain ⟨counted, done, hlines, hlive, happended, hoffset, hn, -⟩ := hmid
      have hle : ¬ rest.length < n := of_decide_eq_false huncounted
      have hnil : done = [] := List.length_eq_zero_iff.mp (by omega)
      subst hnil
      rw [List.append_nil] at hlines
      exact ⟨by rw [hlines, happended], by rw [hlines]; exact hoffset⟩
    | replacing _ _ =>
      rw [hp] at huncounted
      cases huncounted
    | storing _ =>
      rw [hp] at huncounted
      cases huncounted

/-! ## Every run -/

theorem inv_initial : ({} : ArchiveState).Inv :=
  ⟨⟨0, ⟨rfl, rfl⟩, fun _ _ => rfl⟩, fun _ h => absurd h List.not_mem_nil⟩

/-- **Archiving loses, doubles and reorders nothing.** Along every run in
which nothing is appended between a pass's read and its replacement of the
live file, no crash falls between a pass's first archived line and its
offset, and passes follow one another, archive and live file hold the
appended events in order, and the offset counts the archived ones,
whenever no pass is under way. -/
theorem archivesAll_of_guarded {as : List ArchiveAction}
    (hguarded : (system reader).Guarded Undisturbed {} as) {s : ArchiveState}
    (hrun : (system reader).run {} as = some s) (hrest : s.AtRest) : s.ArchivesAll :=
  Inv.archivesAll ((system reader).run_invariant_of_guarded (I := Inv)
    (fun _ _ _ h ha hstep => h.step ha hstep) inv_initial hguarded hrun) hrest

/-! ## A session of two events -/

def eventLine (day : String) : List Char :=
  ("\x7b\"timestamp\": \"2025-01-" ++ day ++ "T00:00:00+00:00\"\x7d").toList

/-- The line of an event of January 1st. -/
def firstEvent : EventLine := ⟨eventLine "01", by decide +kernel⟩

/-- The line of an event of January 9th. -/
def secondEvent : EventLine := ⟨eventLine "09", by decide +kernel⟩

/-- A reader of these two lines; time is in days of January. -/
def dayReader : LineReader where
  loads raw :=
    if raw = firstEvent.text then
      some [("timestamp", .str "2025-01-01T00:00:00+00:00")]
    else if raw = secondEvent.text then
      some [("timestamp", .str "2025-01-09T00:00:00+00:00")]
    else none
  parseUtcDatetime ts :=
    if ts.isText "2025-01-01T00:00:00+00:00" then some 1
    else if ts.isText "2025-01-09T00:00:00+00:00" then some 9
    else none

/-- The steps of a pass with one line to archive. -/
def onePass : List ArchiveAction :=
  [.read 0 4 1, .archiveLine 0, .replace 0, .storeOffset 0]

/-- A pass between the two appends keeps both events. -/
theorem archivesAll_of_guarded_pass : ∃ s, (system dayReader).run {}
    (.saveChatEvent firstEvent :: onePass ++ [.saveChatEvent secondEvent]) = some s
      ∧ s.archive.entries = [firstEvent.text] ∧ s.ArchivesAll := by
  have hguarded : (system dayReader).Guarded Undisturbed {}
      (.saveChatEvent firstEvent :: onePass ++ [.saveChatEvent secondEvent]) := by
    refine ⟨fun p => rfl, fun s₁ h₁ => ?_⟩
    cases h₁
    refine ⟨⟨fun p => rfl, fun _ h => absurd h List.not_mem_nil⟩, fun s₂ h₂ => ?_⟩
    cases h₂
    refine ⟨trivial, fun s₃ h₃ => ?_⟩
    cases h₃
    refine ⟨trivial, fun s₄ h₄ => ?_⟩
    cases h₄
    refine ⟨trivial, fun s₅ h₅ => ?_⟩
    cases h₅
    refine ⟨fun p => ?_, fun _ _ => trivial⟩
    cases p <;> rfl
  obtain ⟨s, hs⟩ : ∃ s, (system dayReader).run {}
      (.saveChatEvent firstEvent :: onePass ++ [.saveChatEvent secondEvent]) = some s :=
    ⟨_, rfl⟩
  refine ⟨s, hs, ?_, archivesAll_of_guarded hguarded hs fun p => ?_⟩
  · cases hs
    rfl
  · cases hs
    cases p <;> rfl

/-- **An append is lost.** A pass has read the live file when an event is
appended, and replaces the file by what it read. -/
theorem event_lost : ∃ s, (system dayReader).run {}
    [.saveChatEvent firstEvent, .read 0 4 1, .saveChatEvent secondEvent, .archiveLine 0,
      .replace 0, .storeOffset 0] = some s
      ∧ s.AtRest ∧ s.appended = [firstEvent.text, secondEvent.text]
      ∧ s.archive.entries ++ s.live = [firstEvent.text] ∧ ¬ s.ArchivesAll := by
  refine ⟨_, rfl, fun p => ?_, rfl, rfl, fun h => ?_⟩
  · cases p <;> rfl
  · exact absurd (congrArg List.length h.1) (by decide)

/-- **An event is archived twice.** The process stops between a pass's
archive append and its replacement of the live file. -/
theorem event_archived_twice : ∃ s, (system dayReader).run {}
    [.saveChatEvent firstEvent, .read 0 4 1, .archiveLine 0, .crash, .read 0 4 1,
      .archiveLine 0, .replace 0, .storeOffset 0] = some s
      ∧ s.AtRest ∧ s.archive.entries ++ s.live = [firstEvent.text, firstEvent.text]
      ∧ ¬ s.ArchivesAll := by
  refine ⟨_, rfl, fun p => ?_, rfl, fun h => ?_⟩
  · cases p <;> rfl
  · exact absurd (congrArg List.length h.1) (by decide)

end ArchiveState
