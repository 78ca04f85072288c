import CharlieBot.Lib.Transition
import Mathlib.Algebra.GroupWithZero.Nat
import Mathlib.Data.List.Sort

/-!
# The sweep of the event store

An agent's event store is swept while the agent runs. For each aggregate that goes, its next rows
are read and deleted in chunks that are bounded in rows and bytes, one statement a chunk, until a
read finds none; then the aggregate's own row goes, and its cascade takes what is left. Any
statement may fail, and between two statements the agent does what it likes.

A chunk is deleted by the numbers of its rows, and the store gives a new row the number behind the
largest there is. **So all that is deleted belongs to targets, unless the agent removes a row that
the sweep has read and not deleted yet** (`deletes_targets_of_run`); where it does, the number may
come back as a row of another aggregate (`number_reused`). Left alone the sweep ends, whatever
fails (`sweep_ends`).
-/

namespace OpencodeSweep

/-! ## The store -/

/-- A row of `event`. -/
structure EventRow where
  rowid : ℕ
  aggregate : String
  /-- `length(data)`. -/
  bytes : ℕ
  deriving DecidableEq

/-- **The table `event`**, in the order of its numbers. -/
structure EventTable where
  rows : List EventRow
  ordered : rows.Pairwise fun a b => a.rowid < b.rowid

namespace EventTable

def remove (t : EventTable) (gone : EventRow → Bool) : EventTable :=
  ⟨t.rows.filter fun row => !gone row, t.ordered.filter _⟩

def nextRowid (t : EventTable) : ℕ := (t.rows.getLast?.map fun row => row.rowid + 1).getD 1

theorem lt_nextRowid {t : EventTable} {row : EventRow} (h : row ∈ t.rows) :
    row.rowid < t.nextRowid := by
  obtain ⟨before, last, hrows⟩ := List.eq_nil_or_concat t.rows |>.resolve_left
    (List.ne_nil_of_mem h)
  have hordered := t.ordered
  rw [hrows, List.concat_eq_append] at hordered h
  rw [nextRowid, hrows, List.concat_eq_append, List.getLast?_concat]
  rcases List.mem_append.mp h with h | h
  · exact Nat.lt_succ_of_lt
      ((List.pairwise_append.mp hordered).2.2 row h last (List.mem_singleton_self last))
  · rw [List.mem_singleton.mp h]
    exact Nat.lt_succ_self _

def insert (t : EventTable) (aggregate : String) (bytes : ℕ) : EventTable where
  rows := t.rows ++ [⟨t.nextRowid, aggregate, bytes⟩]
  ordered := List.pairwise_append.mpr ⟨t.ordered, List.pairwise_singleton _ _, fun _ h _ hnew =>
    List.mem_singleton.mp hnew ▸ lt_nextRowid h⟩

theorem eq_of_rowid {t : EventTable} {a b : EventRow} (ha : a ∈ t.rows) (hb : b ∈ t.rows)
    (h : a.rowid = b.rowid) : a = b := by
  have hnodup : (t.rows.map EventRow.rowid).Nodup :=
    List.pairwise_map.mpr (t.ordered.imp Nat.ne_of_lt)
  exact List.inj_on_of_nodup_map hnodup ha hb h

/-- **What some numbers stand for** is the rows they were read from, while these are there. -/
theorem filter_rowid {t : EventTable} {part : List EventRow} (h : part.Sublist t.rows) :
    (t.rows.filter fun row => row.rowid ∈ part.map EventRow.rowid) = part := by
  refine List.Pairwise.eq_of_mem_iff (t.ordered.filter _) (t.ordered.sublist h) fun row => ?_
  rw [List.mem_filter, decide_eq_true_eq, List.mem_map]
  constructor
  · rintro ⟨hrow, other, hother, heq⟩
    rwa [← eq_of_rowid (h.subset hother) hrow heq]
  · exact fun hrow => ⟨h.subset hrow, row, hrow, rfl⟩

end EventTable

/-! ## The chunks -/

/-- `_CHUNK_MAX_BYTES`. -/
def chunkMaxBytes : ℕ := 32 <<< 20

/-- `_CHUNK_MAX_ROWS`. -/
def chunkMaxRows : ℕ := 1000

/-- The numbers of the rows that one statement deletes each, from an open chunk on. -/
def chunksFrom (chunk : List ℕ) (chunkBytes : ℕ) : List EventRow → List (List ℕ)
  | [] => [chunk]
  | row :: rows =>
    -- a row that is larger than the bound is a chunk of its own
    if chunk ≠ [] ∧ chunkMaxBytes < chunkBytes + row.bytes then
      chunk :: chunksFrom [row.rowid] row.bytes rows
    else chunksFrom (chunk ++ [row.rowid]) (chunkBytes + row.bytes) rows

def bytesOf (rows : List EventRow) : ℕ := (rows.map EventRow.bytes).sum

/-- **What one statement may delete.** -/
def Fits (rows : List EventRow) : Prop :=
  rows ≠ [] ∧ rows.length ≤ chunkMaxRows ∧ (bytesOf rows ≤ chunkMaxBytes ∨ rows.length = 1)

theorem bytesOf_concat (rows : List EventRow) (row : EventRow) :
    bytesOf (rows ++ [row]) = bytesOf rows + row.bytes := by
  simp [bytesOf]

/-- **The chunks are the rows that were read, cut into parts that fit.** -/
theorem chunksFrom_eq {held rows : List EventRow} (hne : held ++ rows ≠ [])
    (hrows : (held ++ rows).length ≤ chunkMaxRows)
    (hheld : bytesOf held ≤ chunkMaxBytes ∨ held.length = 1) :
    ∃ parts : List (List EventRow), chunksFrom (held.map EventRow.rowid) (bytesOf held) rows
        = parts.map (·.map EventRow.rowid) ∧ parts.flatten = held ++ rows
      ∧ ∀ part ∈ parts, Fits part := by
  induction rows generalizing held with
  | nil =>
    rw [List.append_nil] at hne hrows
    refine ⟨[held], rfl, by rw [List.flatten_singleton, List.append_nil], fun part hpart => ?_⟩
    rw [List.mem_singleton.mp hpart]
    exact ⟨hne, hrows, hheld⟩
  | cons row rows ih =>
    rw [chunksFrom]
    split
    · next hfull =>
      -- the open chunk is closed, and the row begins the next one
      have hlength : (held ++ ([row] ++ rows)).length ≤ chunkMaxRows := hrows
      rw [List.length_append] at hlength
      obtain ⟨parts, heq, hflatten, hfits⟩ := @ih [row] (List.cons_ne_nil _ _)
        (by omega) (.inr rfl)
      have hbytes : bytesOf [row] = row.bytes := Nat.add_zero _
      rw [hbytes] at heq
      refine ⟨held :: parts, congrArg _ heq, congrArg _ hflatten, fun part hpart => ?_⟩
      rcases List.mem_cons.mp hpart with rfl | hpart
      · exact ⟨fun h => hfull.1 (congrArg _ h), by omega, hheld⟩
      · exact hfits part hpart
    · next hfull =>
      have hbytes : bytesOf (held ++ [row]) ≤ chunkMaxBytes ∨ (held ++ [row]).length = 1 := by
        cases held with
        | nil => exact .inr rfl
        | cons first held =>
          rw [bytesOf_concat]
          exact .inl (Nat.le_of_not_lt fun h => hfull ⟨List.cons_ne_nil _ _, h⟩)
      rw [List.append_cons] at hne hrows
      obtain ⟨parts, heq, hflatten, hfits⟩ := ih hne hrows hbytes
      rw [List.map_append, bytesOf_concat] at heq
      exact ⟨parts, heq, hflatten.trans (List.append_cons held row rows).symm, hfits⟩

/-! ## The sweep -/

/-- **What the sweep does next**, for a target and its size. -/
inductive Phase where
  /-- The connection is made and told to keep foreign keys. -/
  | opening
  | reading (t : String × ℕ)
  | deleting (t : String × ℕ) (chunks : List (List ℕ))
  | sequence (t : String × ℕ)
  | finished
  /-- The error of a read leaves the sweep. -/
  | raised
  deriving DecidableEq

def Phase.target? : Phase → Option (String × ℕ)
  | .reading t | .deleting t _ | .sequence t => some t
  | _ => none

/-- The numbers that were read and are still to be deleted. -/
def Phase.pending : Phase → List ℕ
  | .deleting _ chunks => chunks.flatten
  | _ => []

structure SweepState where
  events : EventTable
  /-- The aggregates that have a row of their own. -/
  sequence : List String
  rest : List (String × ℕ)
  phase : Phase := .opening
  count : ℕ := 0
  bytes : ℕ := 0
  /-- The rows that each chunk's statement deleted. -/
  chunked : List (List EventRow) := []
  cascaded : List EventRow := []

inductive SweepAction where
  /-- The next statement of the sweep, which succeeds or fails. -/
  | statement (ok : Bool)
  | insert (aggregate : String) (bytes : ℕ)
  | remove (gone : List ℕ)
  | setSequence (aggregates : List String)

namespace SweepState

/-- The sweep turns to the next target. -/
def next (s : SweepState) : SweepState :=
  match s.rest with
  | [] => { s with phase := .finished }
  | t :: rest => { s with phase := .reading t, rest := rest }

/-- The rows of an aggregate that one read gives. -/
def page (s : SweepState) (aggregate : String) : List EventRow :=
  (s.events.rows.filter fun row => row.aggregate = aggregate).take chunkMaxRows

def deleteChunk (s : SweepState) (chunk : List ℕ) : SweepState :=
  { s with
    events := s.events.remove fun row => row.rowid ∈ chunk
    chunked := s.chunked ++ [s.events.rows.filter fun row => row.rowid ∈ chunk] }

def deleteSequence (s : SweepState) (t : String × ℕ) : SweepState :=
  if t.1 ∈ s.sequence then
    { s with
      sequence := s.sequence.filter (· ≠ t.1)
      events := s.events.remove fun row => row.aggregate = t.1
      cascaded := s.cascaded ++ s.events.rows.filter fun row => row.aggregate = t.1
      count := s.count + 1
      bytes := s.bytes + t.2 }
  else s

def execute (s : SweepState) (ok : Bool) : Option SweepState :=
  match s.phase with
  | .opening => some (if ok then s.next else { s with phase := .finished })
  | .reading t => some { s with
      phase := if !ok then .raised else if s.page t.1 = [] then .sequence t
        else .deleting t (chunksFrom [] 0 (s.page t.1)) }
  | .deleting t (chunk :: chunks) => some (if ok then
      { s.deleteChunk chunk with phase := if chunks = [] then .reading t else .deleting t chunks }
      -- a chunk that fails ends the loop, and the aggregate's own row is next
      else { s with phase := .sequence t })
  | .sequence t => some (if ok then s.deleteSequence t else s).next
  | _ => none

def step (s : SweepState) : SweepAction → Option SweepState
  | .statement ok => s.execute ok
  | .insert aggregate bytes => some { s with events := s.events.insert aggregate bytes }
  | .remove gone => some { s with events := s.events.remove fun row => row.rowid ∈ gone }
  | .setSequence aggregates => some { s with sequence := aggregates }

def system : TransitionSystem SweepState SweepAction := ⟨step⟩

/-- `_sweep_opencode` as it begins. -/
def start (events : EventTable) (sequence : List String) (targets : List (String × ℕ)) :
    SweepState where
  events := events
  sequence := sequence
  rest := targets

/-! ## What is deleted -/

/-- **The condition on the agent**: it removes no row that was read and is still to be deleted. -/
def Spares (s : SweepState) : SweepAction → Prop
  | .remove gone => ∀ rowid ∈ s.phase.pending, rowid ∉ gone
  | _ => True

/-- **The chunks that wait** are of rows of the target that are still there. -/
def Waiting (s : SweepState) (aggregate : String) (chunks : List (List ℕ)) : Prop :=
  chunks ≠ [] ∧ ∃ parts : List (List EventRow), chunks = parts.map (·.map EventRow.rowid)
    ∧ parts.flatten.Sublist s.events.rows
    ∧ ∀ part ∈ parts, Fits part ∧ ∀ row ∈ part, row.aggregate = aggregate

/-- **What was deleted** belongs to targets, and no chunk was larger than it may be. -/
structure Right (targets : List (String × ℕ)) (s : SweepState) : Prop where
  chunked : ∀ rows ∈ s.chunked, Fits rows ∧ ∃ t ∈ targets, ∀ row ∈ rows, row.aggregate = t.1
  cascaded : ∀ row ∈ s.cascaded, ∃ t ∈ targets, row.aggregate = t.1

/-- What holds in every state. -/
structure Inv (targets : List (String × ℕ)) (s : SweepState) : Prop extends Right targets s where
  rest : ∀ t ∈ s.rest, t ∈ targets
  target : ∀ t ∈ s.phase.target?, t ∈ targets
  waiting : ∀ t chunks, s.phase = .deleting t chunks → s.Waiting t.1 chunks

variable {targets : List (String × ℕ)} {s s' : SweepState}

theorem Inv.goto (h : s.Inv targets) {phase : Phase} (htarget : ∀ t ∈ phase.target?, t ∈ targets)
    (hwaiting : ∀ t chunks, phase = .deleting t chunks → s.Waiting t.1 chunks) :
    Inv targets { s with phase := phase } :=
  ⟨⟨h.chunked, h.cascaded⟩, h.rest, htarget, hwaiting⟩

theorem Inv.next (h : s.Inv targets) : s.next.Inv targets := by
  unfold SweepState.next
  split
  · exact h.goto (fun _ ht => absurd ht (Option.not_mem_none _)) fun _ _ hphase => by cases hphase
  · next t rest hrest =>
    have hmem := h.rest
    rw [hrest] at hmem
    refine ⟨⟨h.chunked, h.cascaded⟩, fun u hu => hmem u (List.mem_cons_of_mem t hu), ?_,
      fun _ _ hphase => by cases hphase⟩
    rintro u hu
    exact Option.some.inj hu ▸ hmem t List.mem_cons_self

/-- **What is read** waits to be deleted. -/
theorem waiting_page (s : SweepState) {aggregate : String} (hpage : s.page aggregate ≠ []) :
    s.Waiting aggregate (chunksFrom [] 0 (s.page aggregate)) := by
  obtain ⟨parts, heq, hflatten, hfits⟩ := @chunksFrom_eq [] (s.page aggregate) hpage
    (List.length_take_le _ _) (.inl (Nat.zero_le _))
  have hsub : (s.page aggregate).Sublist s.events.rows :=
    (List.take_sublist _ _).trans List.filter_sublist
  refine ⟨fun hnil => ?_, parts, heq, by rw [hflatten]; exact hsub, fun part hpart =>
    ⟨hfits part hpart, fun row hrow => ?_⟩⟩
  · rw [show chunksFrom [] 0 _ = _ from heq, List.map_eq_nil_iff] at hnil
    rw [hnil] at hflatten
    exact hpage hflatten.symm
  · have hmem : row ∈ s.page aggregate := by
      rw [← List.nil_append (s.page aggregate), ← hflatten]
      exact List.mem_flatten.mpr ⟨part, hpart, hrow⟩
    exact of_decide_eq_true (List.mem_filter.mp (List.mem_of_mem_take hmem)).2

/-- **A chunk's statement** deletes the rows that were read, and no others. -/
theorem Waiting.deleteChunk {aggregate : String} {chunk : List ℕ} {chunks : List (List ℕ)}
    (h : s.Waiting aggregate (chunk :: chunks)) :
    (∃ part, (s.deleteChunk chunk).chunked = s.chunked ++ [part] ∧ Fits part
      ∧ (∀ row ∈ part, row.aggregate = aggregate)
      ∧ (s.deleteChunk chunk).events.rows.length < s.events.rows.length)
      ∧ (chunks ≠ [] → (s.deleteChunk chunk).Waiting aggregate chunks) := by
  obtain ⟨-, parts, hmap, hsub, hparts⟩ := h
  obtain ⟨part, rest, rfl, rfl, rfl⟩ := List.map_eq_cons_iff.mp hmap.symm
  rw [List.flatten_cons] at hsub
  obtain ⟨hfits, hpart⟩ := hparts part List.mem_cons_self
  have hthere := (List.sublist_append_left part rest.flatten).trans hsub
  have hrows := EventTable.filter_rowid hthere
  refine ⟨⟨part, ?_, hfits, hpart, ?_⟩, fun hne => ⟨hne, rest, rfl, ?_,
    fun other hother => hparts other (List.mem_cons_of_mem part hother)⟩⟩
  · show s.chunked ++ [s.events.rows.filter _] = _
    rw [hrows]
  · obtain ⟨row, others, rfl⟩ := List.exists_cons_of_ne_nil hfits.1
    refine List.length_filter_lt_length_iff_exists.mpr
      ⟨row, hthere.subset List.mem_cons_self, ?_⟩
    simp
  · -- the rows that come later have larger numbers
    have hlater : rest.flatten.filter (fun row => !decide (row.rowid ∈ part.map EventRow.rowid))
        = rest.flatten := by
      refine List.filter_eq_self.mpr fun row hrow => ?_
      rw [Bool.not_eq_true', decide_eq_false_iff_not]
      intro hin
      obtain ⟨earlier, hearlier, heq⟩ := List.mem_map.mp hin
      have hlt := (List.pairwise_append.mp (s.events.ordered.sublist hsub)).2.2 _ hearlier _ hrow
      exact Nat.ne_of_lt hlt heq
    rw [← hlater]
    exact ((List.sublist_append_right part rest.flatten).trans hsub).filter _

theorem Inv.deleteSequence (h : s.Inv targets) {t : String × ℕ} (ht : t ∈ targets)
    (hphase : s.phase = .sequence t) : (s.deleteSequence t).Inv targets := by
  unfold SweepState.deleteSequence
  split
  · refine ⟨⟨h.chunked, fun row hrow => ?_⟩, h.rest, h.target, fun u chunks hu => ?_⟩
    · rcases List.mem_append.mp hrow with hrow | hrow
      · exact h.cascaded row hrow
      · exact ⟨t, ht, of_decide_eq_true (List.mem_filter.mp hrow).2⟩
    · exact absurd (hphase.symm.trans hu) Phase.noConfusion
  · exact h

theorem Inv.execute {ok : Bool} (h : s.Inv targets) (hstep : s.execute ok = some s') :
    s'.Inv targets := by
  unfold SweepState.execute at hstep
  split at hstep
  · next =>
    rw [← Option.some.inj hstep]
    cases ok with
    | true => exact h.next
    | false =>
      exact h.goto (fun _ ht => absurd ht (Option.not_mem_none _)) fun _ _ hphase => by cases hphase
  · next t hphase =>
    have ht : t ∈ targets := h.target t (by rw [hphase]; rfl)
    rw [← Option.some.inj hstep]
    cases ok with
    | false =>
      exact h.goto (fun _ ht => absurd ht (Option.not_mem_none _)) fun _ _ hphase => by cases hphase
    | true =>
      show Inv targets { s with phase := if s.page t.1 = [] then _ else _ }
      split
      · exact h.goto (fun u hu => Option.some.inj hu ▸ ht) fun _ _ hphase => by cases hphase
      · next hpage =>
        refine h.goto (fun u hu => Option.some.inj hu ▸ ht) fun u chunks hphase => ?_
        cases hphase
        exact s.waiting_page hpage
  · next t chunk chunks hphase =>
    have ht : t ∈ targets := h.target t (by rw [hphase]; rfl)
    obtain ⟨⟨part, hchunked, hfits, hpart, -⟩, hrest⟩ := (h.waiting t _ hphase).deleteChunk
    rw [← Option.some.inj hstep]
    cases ok with
    | false => exact h.goto (fun u hu => Option.some.inj hu ▸ ht) fun _ _ hphase => by cases hphase
    | true =>
      refine ⟨⟨fun rows hrows => ?_, h.cascaded⟩, h.rest, fun u hu => ?_, fun u others hu => ?_⟩
      · have hrows : rows ∈ (s.deleteChunk chunk).chunked := hrows
        rw [hchunked] at hrows
        rcases List.mem_append.mp hrows with hrows | hrows
        · exact h.chunked rows hrows
        · rw [List.mem_singleton.mp hrows]
          exact ⟨hfits, t, ht, hpart⟩
      · have hu : u ∈ (if chunks = [] then Phase.reading t else .deleting t chunks).target? := hu
        split at hu <;> exact Option.some.inj hu ▸ ht
      · have hu : (if chunks = [] then Phase.reading t else .deleting t chunks)
          = .deleting u others := hu
        split at hu
        · cases hu
        · next hne =>
          cases hu
          exact hrest hne
  · next t hphase =>
    have ht : t ∈ targets := h.target t (by rw [hphase]; rfl)
    rw [← Option.some.inj hstep]
    cases ok with
    | false => exact h.next
    | true => exact (h.deleteSequence ht hphase).next
  · cases hstep

theorem Inv.step {a : SweepAction} (h : s.Inv targets) (ha : s.Spares a)
    (hstep : s.step a = some s') : s'.Inv targets := by
  cases a with
  | statement ok => exact h.execute hstep
  | insert aggregate bytes =>
    cases hstep
    refine ⟨⟨h.chunked, h.cascaded⟩, h.rest, h.target, fun t chunks hphase => ?_⟩
    obtain ⟨hne, parts, hmap, hsub, hparts⟩ := h.waiting t chunks hphase
    exact ⟨hne, parts, hmap, hsub.trans (List.sublist_append_left _ _), hparts⟩
  | remove gone =>
    cases hstep
    refine ⟨⟨h.chunked, h.cascaded⟩, h.rest, h.target, fun t chunks hphase => ?_⟩
    obtain ⟨hne, parts, hmap, hsub, hparts⟩ := h.waiting t chunks hphase
    refine ⟨hne, parts, hmap, ?_, hparts⟩
    have hkept : parts.flatten.filter (fun row => !decide (row.rowid ∈ gone)) = parts.flatten := by
      refine List.filter_eq_self.mpr fun row hrow => ?_
      rw [Bool.not_eq_true', decide_eq_false_iff_not]
      refine ha row.rowid ?_
      rw [show s.phase = .deleting t chunks from hphase, hmap]
      show row.rowid ∈ (parts.map (·.map EventRow.rowid)).flatten
      rw [← List.map_flatten]
      exact List.mem_map_of_mem hrow
    rw [← hkept]
    exact hsub.filter _
  | setSequence aggregates =>
    cases hstep
    exact ⟨⟨h.chunked, h.cascaded⟩, h.rest, h.target, h.waiting⟩

theorem inv_start (events : EventTable) (sequence : List String) (targets : List (String × ℕ)) :
    (start events sequence targets).Inv targets :=
  ⟨⟨fun _ h => absurd h List.not_mem_nil, fun _ h => absurd h List.not_mem_nil⟩, fun _ h => h,
    fun _ h => absurd h (Option.not_mem_none _), fun _ _ hphase => by cases hphase⟩

/-- **All that the sweep deletes belongs to its targets**, and no statement deletes more rows or
bytes than it may. This holds whatever fails, and whatever the agent does in between but removing
rows that were read and are still to be deleted. -/
theorem deletes_targets_of_run (events : EventTable) (sequence : List String)
    (targets : List (String × ℕ)) (as : List SweepAction)
    (hguarded : system.Guarded Spares (start events sequence targets) as)
    (hrun : system.run (start events sequence targets) as = some s) : s.Right targets :=
  (system.run_invariant_of_guarded (fun _ _ _ h ha hstep => h.step ha hstep)
    (inv_start events sequence targets) hguarded hrun).toRight

def oneEvent : EventTable := ⟨[⟨1, "x", 5⟩], List.pairwise_singleton _ _⟩

/-- An event of another aggregate comes in between. -/
def insertBetween : List SweepAction :=
  [.statement true, .statement true, .insert "y" 7, .statement true]

theorem deletes_targets_of_run_insert : ∃ s,
    system.run (start oneEvent ["x", "y"] [("x", 5)]) insertBetween = some s
    ∧ s.chunked = [[⟨1, "x", 5⟩]] ∧ s.Right [("x", 5)] :=
  ⟨_, rfl, rfl, deletes_targets_of_run oneEvent ["x", "y"] [("x", 5)] insertBetween
    ⟨trivial, fun _ _ => ⟨trivial, fun _ _ => ⟨trivial, fun _ _ => ⟨trivial, fun _ _ => trivial⟩⟩⟩⟩
    rfl⟩

/-- **A number comes back**: the agent removes the event that was read, and another aggregate's
event, which has its number now, is deleted. -/
theorem number_reused : ∃ s,
    system.run (start oneEvent ["x", "y"] [("x", 5)])
      [.statement true, .statement true, .remove [1], .insert "y" 7, .statement true] = some s
    ∧ ¬ s.Right [("x", 5)] := by
  refine ⟨_, rfl, fun h => ?_⟩
  obtain ⟨-, t, ht, hrows⟩ := h.chunked [⟨1, "y", 7⟩] List.mem_cons_self
  rw [List.mem_singleton.mp ht] at hrows
  exact absurd (hrows _ List.mem_cons_self) (by decide)

/-! ## The end of the sweep -/

/-- A bound on the statements to come. -/
def remaining (s : SweepState) : ℕ :=
  match s.phase with
  | .opening => 2 * s.events.rows.length + 3 * s.rest.length + 1
  | .reading _ => 2 * s.events.rows.length + 3 * s.rest.length + 3
  | .deleting _ _ => 2 * s.events.rows.length + 3 * s.rest.length + 2
  | .sequence _ => 2 * s.events.rows.length + 3 * s.rest.length + 1
  | .finished | .raised => 0

theorem remaining_next_le (s : SweepState) :
    s.next.remaining ≤ 2 * s.events.rows.length + 3 * s.rest.length := by
  unfold SweepState.next
  split
  · exact Nat.zero_le _
  · next t rest hrest =>
    show 2 * s.events.rows.length + 3 * rest.length + 3 ≤ _
    rw [hrest, List.length_cons]
    omega

/-- **Every statement brings the end nearer**, whether it fails or not. -/
theorem remaining_execute {ok : Bool} (h : s.Inv targets) (hstep : s.execute ok = some s') :
    s'.remaining < s.remaining := by
  unfold SweepState.execute at hstep
  split at hstep
  · next hphase =>
    rw [← Option.some.inj hstep, show s.remaining = _ by rw [remaining, hphase]]
    cases ok with
    | true => exact Nat.lt_succ_of_le s.remaining_next_le
    | false => exact Nat.succ_pos _
  · next t hphase =>
    rw [← Option.some.inj hstep, show s.remaining = _ by rw [remaining, hphase]]
    cases ok with
    | true =>
      show remaining { s with phase := if s.page t.1 = [] then _ else _ } < _
      split <;> exact Nat.add_lt_add_left (by decide) _
    | false => exact Nat.succ_pos _
  · next t chunk chunks hphase =>
    obtain ⟨⟨part, -, -, -, hfewer⟩, -⟩ := (h.waiting t _ hphase).deleteChunk
    rw [← Option.some.inj hstep, show s.remaining = _ by rw [remaining, hphase]]
    cases ok with
    | true =>
      show remaining { s.deleteChunk chunk with phase := if chunks = [] then _ else _ } < _
      have hrest : (s.deleteChunk chunk).rest = s.rest := rfl
      split <;> simp only [remaining, hrest] <;> omega
    | false => exact Nat.add_lt_add_left (by decide) _
  · next t hphase =>
    rw [← Option.some.inj hstep, show s.remaining = _ by rw [remaining, hphase]]
    refine Nat.lt_succ_of_le ((remaining_next_le _).trans ?_)
    cases ok with
    | false => exact Nat.le_refl _
    | true =>
      show 2 * (s.deleteSequence t).events.rows.length + 3 * (s.deleteSequence t).rest.length ≤ _
      unfold SweepState.deleteSequence
      split
      · exact Nat.add_le_add_right (Nat.mul_le_mul_left 2 (List.length_filter_le _ _)) _
      · exact Nat.le_refl _
  · cases hstep

theorem execute_isSome (h : s.Inv targets) (hfinished : s.phase ≠ .finished)
    (hraised : s.phase ≠ .raised) (ok : Bool) : (s.execute ok).isSome := by
  unfold SweepState.execute
  split
  · rfl
  · rfl
  · rfl
  · rfl
  · next hopening hreading hdeleting hsequence =>
    cases hphase : s.phase with
    | opening => exact absurd hphase hopening
    | reading t => exact absurd hphase (hreading t)
    | sequence t => exact absurd hphase (hsequence t)
    | finished => exact absurd hphase hfinished
    | raised => exact absurd hphase hraised
    | deleting t chunks =>
      obtain ⟨chunk, others, rfl⟩ := List.exists_cons_of_ne_nil (h.waiting t chunks hphase).1
      exact absurd hphase (hdeleting t chunk others)

/-- **The sweep ends**: left alone it takes no more statements than there are targets and events,
whichever of them fail, and stops nowhere but at its end or at a read that failed. -/
theorem sweep_ends (events : EventTable) (sequence : List String) (targets : List (String × ℕ))
    (outcomes : List Bool)
    (hrun : system.run (start events sequence targets) (outcomes.map .statement) = some s) :
    outcomes.length ≤ 2 * events.rows.length + 3 * targets.length + 1
      ∧ (s.phase = .finished ∨ s.phase = .raised ∨ ∀ ok, (s.execute ok).isSome) := by
  obtain ⟨hinv, hlength⟩ := TransitionSystem.length_le_of_invariant (I := Inv targets)
    (P := fun a => ∃ ok, a = .statement ok) (m := remaining)
    (fun s a s' h ha hstep => by
      obtain ⟨ok, rfl⟩ := ha
      exact ⟨h.execute hstep, remaining_execute h hstep⟩)
    (inv_start events sequence targets)
    (fun a ha => (List.mem_map.mp ha).imp fun _ h => h.2.symm) hrun
  rw [List.length_map] at hlength
  refine ⟨(Nat.le_add_right _ _).trans hlength, ?_⟩
  by_cases hfinished : s.phase = .finished
  · exact .inl hfinished
  · by_cases hraised : s.phase = .raised
    · exact .inr (.inl hraised)
    · exact .inr (.inr (execute_isSome hinv hfinished hraised))

theorem sweep_ends_failedChunk : ∃ s,
    system.run (start oneEvent ["x", "y"] [("x", 5)]) ([true, true, false, true].map .statement)
      = some s ∧ s.cascaded = [⟨1, "x", 5⟩] ∧ 4 ≤ 6 :=
  ⟨_, rfl, rfl, (sweep_ends oneEvent ["x", "y"] [("x", 5)] [true, true, false, true] rfl).1⟩

end SweepState
end OpencodeSweep
