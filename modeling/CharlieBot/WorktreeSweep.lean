import CharlieBot.FinalizeEffects
import Mathlib.Data.List.Nodup

/-!
# The worktrees of threads that failed

A thread that fails leaves its worktree. When the server boots, the worktrees of threads that
failed long ago are moved to a trash directory, as the metadata of the threads have it: the worktree
of a thread stays if that thread asks to keep it, and if another thread names it that is not done.
A path is taken once, and a call that fails is logged and passed over.

The threads are those of the last thirty days, the others as well as the candidates. **The sweep
spares what is in use exactly when no worktree that it takes is named by a thread that it
overlooks** (`sweep_right_iff`): one that is not done and older than that, or names the worktree by
another path, or one that asks to keep it and did not fail itself. What is moved is moved once, and
what becomes of one worktree does not depend on the others, in any case.

A worker may be asked to keep its worktree, and its reviewer works in the same one, asked nothing.
When the reviewer fails, the worktree goes (`keeper_overlooked`).
-/

namespace WorktreeSweep

/-! ## Threads -/

/-- What the sweep reads of a thread's metadata. -/
structure ThreadMeta where
  id : Option String
  status : ThreadStatus
  keepWorktree : Bool := false
  repoPath : Option String
  worktreePath : Option String
  branchName : Option String
  completedAt : Option String
  deriving DecidableEq

def present (field : Option String) : Option String := field.filter (· ≠ "")

/-- A thread on disk; a file that cannot be read has no metadata. Times are in microseconds. -/
structure ThreadFile where
  mtime : ℤ
  metadata : Option ThreadMeta
  deriving DecidableEq

/-- A session on disk, archived or not. -/
structure SessionDir where
  threads : List ThreadFile
  deriving DecidableEq

def day : ℤ := 24 * 60 * 60 * 1000000

def runningScanWindow : ℤ := 30 * day

def failedWorktreeQuarantineDays : ℤ := 7

def iterRecentThreadMetas (now : ℤ) (threads : List ThreadFile) : List ThreadMeta :=
  threads.filterMap fun f => if f.mtime < now - runningScanWindow then none else f.metadata

/-- The metadata of `_scan_interrupted_runs`: those of archived sessions are among them. -/
def scanInterruptedRuns (sessions : List SessionDir) (now : ℤ) : List ThreadMeta :=
  sessions.flatMap fun s => iterRecentThreadMetas now s.threads

/-! ## The sweep -/

/-- What `git_quarantine_worktree` comes to. -/
inductive Quarantined where
  | moved
  | movedThenRaised
  | raised
  deriving DecidableEq

/-- The worktree is in the trash. -/
def Quarantined.moves : Quarantined → Bool
  | .moved | .movedThenRaised => true
  | .raised => false

/-- **What the sweep is told by its host.** -/
structure Host where
  /-- `parse_utc_datetime`; nothing where it raises. -/
  parse : String → Option ℤ
  /-- The directory a path names. -/
  place : String → String
  /-- Whether the path of the thread at a place of the list is found. -/
  found : ℕ → Bool
  /-- What the call for that thread comes to. -/
  outcome : ℕ → Quarantined

structure Call where
  path : String
  outcome : Quarantined
  deriving DecidableEq

/-- The paths that were taken, and the calls. -/
structure Sweep where
  swept : List String
  calls : List Call
  deriving DecidableEq

def Sweep.moved (host : Host) (s : Sweep) : List String :=
  (s.calls.filter (·.outcome.moves)).map fun c => host.place c.path

def activeWorktrees (threads : List ThreadMeta) : List String :=
  threads.filterMap fun m => if m.status.isTerminal then none else present m.worktreePath

/-- The body of the loop, for the thread at a place of the list. A directory that was moved is not
found, whatever path names it. -/
def visit (host : Host) (now : ℤ) (active : List String) (s : Sweep) (i : ℕ) (m : ThreadMeta) :
    Sweep :=
  if m.status ≠ .failed ∨ m.keepWorktree then s
  else
    match present m.repoPath, present m.worktreePath, present m.branchName with
    | some _, some path, some _ =>
      if path ∈ s.swept then s
      else
        match (present m.completedAt).map host.parse with
        | some (some completed) =>
          if now - completed < failedWorktreeQuarantineDays * day then s
          else if host.found i = false ∨ host.place path ∈ s.moved host then s
          else if path ∈ active then s
          else ⟨path :: s.swept, s.calls ++ [⟨path, host.outcome i⟩]⟩
        | _ => s
    | _, _, _ => s

/-- The loop, from a place of the list on. -/
def sweepFrom (host : Host) (now : ℤ) (active : List String) : ℕ → List ThreadMeta → Sweep → Sweep
  | _, [], s => s
  | i, m :: rest, s => sweepFrom host now active (i + 1) rest (visit host now active s i m)

/-- **`_quarantine_stale_failed_worktrees`**. -/
def quarantineStaleFailedWorktrees (host : Host) (now : ℤ) (threads : List ThreadMeta) : Sweep :=
  sweepFrom host now (activeWorktrees threads) 0 threads ⟨[], []⟩

/-- The sweep of a boot, with the clock at the scan and at the sweep. -/
def bootSweep (host : Host) (scanned now : ℤ) (sessions : List SessionDir) : Sweep :=
  quarantineStaleFailedWorktrees host now (scanInterruptedRuns sessions scanned)

/-! ## Which threads are candidates -/

/-- The path that the sweep takes for a thread, if it comes to it before another of that path. -/
def candidate (host : Host) (now : ℤ) (active : List String) (i : ℕ) (m : ThreadMeta) :
    Option String :=
  match present m.repoPath, present m.worktreePath, present m.branchName,
    (present m.completedAt).map host.parse with
  | some _, some path, some _, some (some completed) =>
    if m.status = .failed ∧ m.keepWorktree = false
        ∧ failedWorktreeQuarantineDays * day ≤ now - completed ∧ host.found i = true
        ∧ path ∉ active then
      some path
    else none
  | _, _, _, _ => none

theorem candidate_eq_some {host : Host} {now : ℤ} {active : List String} {i : ℕ} {m : ThreadMeta}
    {path : String} (h : candidate host now active i m = some path) :
    present m.worktreePath = some path ∧ path ∉ active := by
  unfold candidate at h
  split at h
  · next hpath _ _ =>
    split at h
    · next hall =>
      cases h
      exact ⟨hpath, hall.2.2.2.2⟩
    · cases h
  · cases h

theorem visit_eq (host : Host) (now : ℤ) (active : List String) (s : Sweep) (i : ℕ)
    (m : ThreadMeta) :
    visit host now active s i m = match candidate host now active i m with
      | none => s
      | some path =>
        if path ∈ s.swept ∨ host.place path ∈ s.moved host then s
        else ⟨path :: s.swept, s.calls ++ [⟨path, host.outcome i⟩]⟩ := by
  unfold visit candidate
  cases present m.repoPath with
  | none => split <;> rfl
  | some repo =>
    cases present m.branchName with
    | none => cases present m.worktreePath <;> split <;> rfl
    | some branch =>
      cases present m.worktreePath with
      | none => split <;> rfl
      | some path =>
        rcases (present m.completedAt).map host.parse with - | - | completed
        · simp
        · simp
        · dsimp only
          -- whichever test fails, the thread is no candidate or its worktree was taken
          grind

/-! ## What is moved -/

section Moved

variable {host : Host} {now : ℤ} {active : List String} {threads : List ThreadMeta}

/-- The thread at a place of the list is a candidate for a path. -/
def CandidateAt (host : Host) (now : ℤ) (active : List String) (threads : List ThreadMeta) (i : ℕ)
    (path : String) : Prop :=
  ∃ m, threads[i]? = some m ∧ candidate host now active i m = some path

def FirstAt (host : Host) (now : ℤ) (active : List String) (threads : List ThreadMeta) (i : ℕ)
    (path : String) : Prop :=
  CandidateAt host now active threads i path
    ∧ ∀ j < i, ¬ CandidateAt host now active threads j path

/-- **The sweep, up to a place of the list.** -/
structure Inv (host : Host) (now : ℤ) (active : List String) (threads : List ThreadMeta) (n : ℕ)
    (s : Sweep) : Prop where
  swept : ∀ path ∈ s.swept, ∃ i < n, CandidateAt host now active threads i path
  settled : ∀ i < n, ∀ path, CandidateAt host now active threads i path →
    path ∈ s.swept ∨ host.place path ∈ s.moved host
  moved : ∀ place, place ∈ s.moved host ↔ ∃ i < n, ∃ path, FirstAt host now active threads i path
    ∧ (host.outcome i).moves = true ∧ host.place path = place
  nodup : (s.moved host).Nodup

theorem moved_concat (host : Host) (s : Sweep) (swept : List String) (path : String)
    (outcome : Quarantined) :
    Sweep.moved host ⟨swept, s.calls ++ [⟨path, outcome⟩]⟩
      = s.moved host ++ if outcome.moves then [host.place path] else [] := by
  rw [Sweep.moved, List.filter_append, List.map_append]
  cases houtcome : outcome.moves <;> simp [houtcome, Sweep.moved]

theorem Inv.pass {n : ℕ} {s : Sweep} (h : Inv host now active threads n s)
    (hn : ∀ path, CandidateAt host now active threads n path →
      path ∈ s.swept ∨ host.place path ∈ s.moved host) :
    Inv host now active threads (n + 1) s where
  swept path hpath := by
    obtain ⟨i, hi, hcand⟩ := h.swept path hpath
    exact ⟨i, Nat.lt_succ_of_lt hi, hcand⟩
  settled i hi path hcand := by
    rcases Nat.lt_succ_iff_lt_or_eq.mp hi with hlt | rfl
    · exact h.settled i hlt path hcand
    · exact hn path hcand
  moved place := by
    rw [h.moved]
    constructor
    · rintro ⟨i, hi, rest⟩
      exact ⟨i, Nat.lt_succ_of_lt hi, rest⟩
    · rintro ⟨i, hi, path, hfirst, hmoves, rfl⟩
      rcases Nat.lt_succ_iff_lt_or_eq.mp hi with hlt | rfl
      · exact ⟨i, hlt, path, hfirst, hmoves, rfl⟩
      · -- the first of its path is not swept, so its worktree is gone
        rcases hn path hfirst.1 with hswept | hmoved
        · obtain ⟨j, hj, hcand⟩ := h.swept path hswept
          exact absurd hcand (hfirst.2 j hj)
        · exact (h.moved _).mp hmoved
  nodup := h.nodup

theorem Inv.take {n : ℕ} {s : Sweep} (h : Inv host now active threads n s) {path : String}
    (hcand : CandidateAt host now active threads n path) (hswept : path ∉ s.swept)
    (hmoved : host.place path ∉ s.moved host) :
    Inv host now active threads (n + 1)
      ⟨path :: s.swept, s.calls ++ [⟨path, host.outcome n⟩]⟩ := by
  have hfirst : FirstAt host now active threads n path :=
    ⟨hcand, fun j hj hj' => (h.settled j hj path hj').elim hswept hmoved⟩
  have honly : ∀ other, CandidateAt host now active threads n other → other = path := by
    rintro other ⟨m, hm, hother⟩
    obtain ⟨m', hm', hpath⟩ := hcand
    cases hm.symm.trans hm'
    exact Option.some.inj (hother.symm.trans hpath)
  refine ⟨fun other hother => ?_, fun i hi other hother => ?_, fun place => ?_, ?_⟩
  · rcases List.mem_cons.mp hother with rfl | hother
    · exact ⟨n, Nat.lt_succ_self n, hcand⟩
    · obtain ⟨i, hi, hi'⟩ := h.swept other hother
      exact ⟨i, Nat.lt_succ_of_lt hi, hi'⟩
  · rcases Nat.lt_succ_iff_lt_or_eq.mp hi with hlt | rfl
    · rw [moved_concat]
      exact (h.settled i hlt other hother).imp (List.mem_cons_of_mem _)
        (List.mem_append_left _)
    · rw [honly other hother]
      exact Or.inl List.mem_cons_self
  · rw [moved_concat, List.mem_append, h.moved]
    constructor
    · rintro (⟨i, hi, rest⟩ | hnew)
      · exact ⟨i, Nat.lt_succ_of_lt hi, rest⟩
      · split at hnew
        · next hmoves =>
          exact ⟨n, Nat.lt_succ_self n, path, hfirst, hmoves, (List.mem_singleton.mp hnew).symm⟩
        · exact absurd hnew List.not_mem_nil
    · rintro ⟨i, hi, other, hother, hmoves, rfl⟩
      rcases Nat.lt_succ_iff_lt_or_eq.mp hi with hlt | rfl
      · exact Or.inl ⟨i, hlt, other, hother, hmoves, rfl⟩
      · rw [honly other hother.1, if_pos hmoves]
        exact Or.inr (List.mem_singleton.mpr rfl)
  · rw [moved_concat]
    split
    · exact h.nodup.append (List.nodup_singleton _) (List.disjoint_singleton.mpr hmoved)
    · rw [List.append_nil]
      exact h.nodup

theorem Inv.visit {n : ℕ} {s : Sweep} (h : Inv host now active threads n s) {m : ThreadMeta}
    (hm : threads[n]? = some m) :
    Inv host now active threads (n + 1) (visit host now active s n m) := by
  rw [visit_eq]
  cases hcand : candidate host now active n m with
  | none =>
    refine h.pass fun path ⟨m', hm', hpath⟩ => ?_
    cases hm.symm.trans hm'
    exact absurd (hcand.symm.trans hpath) (by simp)
  | some path =>
    dsimp only
    split
    · next htaken =>
      refine h.pass fun other ⟨m', hm', hother⟩ => ?_
      cases hm.symm.trans hm'
      cases hcand.symm.trans hother
      exact htaken
    · next htaken =>
      obtain ⟨hswept, hmoved⟩ := not_or.mp htaken
      exact h.take ⟨m, hm, hcand⟩ hswept hmoved

theorem Inv.sweepFrom {n : ℕ} {rest : List ThreadMeta} {s : Sweep}
    (h : Inv host now active threads n s) (hrest : threads.drop n = rest) :
    Inv host now active threads threads.length (sweepFrom host now active n rest s) := by
  induction rest generalizing n s with
  | nil =>
    have hlen : threads.length ≤ n := List.drop_eq_nil_iff.mp hrest
    refine ⟨fun path hpath => ?_, fun i hi => h.settled i (by omega), fun place => ?_, h.nodup⟩
    · obtain ⟨i, -, m, hm, hcand⟩ := h.swept path hpath
      exact ⟨i, (List.getElem?_eq_some_iff.mp hm).1, m, hm, hcand⟩
    · rw [WorktreeSweep.sweepFrom, h.moved]
      constructor
      · rintro ⟨i, -, path, hfirst, hmoves, rfl⟩
        obtain ⟨m, hm, hcand⟩ := hfirst.1
        exact ⟨i, (List.getElem?_eq_some_iff.mp hm).1, path, hfirst, hmoves, rfl⟩
      · rintro ⟨i, hi, hfirst⟩
        exact ⟨i, by omega, hfirst⟩
  | cons m rest ih =>
    have hm : threads[n]? = some m := by
      rw [← List.head?_drop, hrest]
      rfl
    refine ih (h.visit hm) ?_
    rw [← List.drop_drop, hrest]
    rfl

/-- What a whole sweep has moved: the worktrees of the first candidates of their paths, where the
call moves them. -/
theorem inv_quarantine (host : Host) (now : ℤ) (threads : List ThreadMeta) :
    Inv host now (activeWorktrees threads) threads threads.length
      (quarantineStaleFailedWorktrees host now threads) := by
  refine Inv.sweepFrom ⟨fun _ h => absurd h List.not_mem_nil, fun _ h => absurd h (Nat.not_lt_zero _),
    fun place => ?_, List.nodup_nil⟩ rfl
  simp [Sweep.moved]

end Moved

/-! ## What one worktree has to do with another -/

section Apart

variable {host : Host} {now : ℤ} {active : List String} {threads : List ThreadMeta} {dir : String}

/-- The calls for other worktrees than one. -/
def Sweep.callsApart (host : Host) (dir : String) (s : Sweep) : List Call :=
  s.calls.filter fun c => host.place c.path ≠ dir

/-- What is found and what comes of the calls, told otherwise of one worktree. -/
structure Host.SameApart (host : Host) (found : ℕ → Bool) (outcome : ℕ → Quarantined)
    (dir : String) (threads : List ThreadMeta) : Prop where
  found : ∀ i m path, threads[i]? = some m → present m.worktreePath = some path →
    host.place path ≠ dir → found i = host.found i
  outcome : ∀ i m path, threads[i]? = some m → present m.worktreePath = some path →
    host.place path ≠ dir → outcome i = host.outcome i

/-- Two sweeps are the same but for one worktree. -/
structure Sweep.SameApart (host : Host) (dir : String) (s t : Sweep) : Prop where
  swept : ∀ path, host.place path ≠ dir → (path ∈ s.swept ↔ path ∈ t.swept)
  calls : s.callsApart host dir = t.callsApart host dir

theorem Sweep.SameApart.symm {s t : Sweep} (h : s.SameApart host dir t) : t.SameApart host dir s :=
  ⟨fun path hpath => (h.swept path hpath).symm, h.calls.symm⟩

theorem mem_moved_iff {s : Sweep} {other : String} (hother : other ≠ dir) :
    other ∈ s.moved host
      ↔ ∃ c ∈ s.callsApart host dir, c.outcome.moves = true ∧ host.place c.path = other := by
  simp only [Sweep.moved, Sweep.callsApart, List.mem_map, List.mem_filter, decide_eq_true_eq]
  constructor
  · rintro ⟨c, ⟨hc, hmoves⟩, rfl⟩
    exact ⟨c, ⟨hc, hother⟩, hmoves, rfl⟩
  · rintro ⟨c, ⟨hc, -⟩, hmoves, rfl⟩
    exact ⟨c, ⟨hc, hmoves⟩, rfl⟩

theorem Sweep.SameApart.take {s t : Sweep} (h : s.SameApart host dir t) {path : String}
    (hpath : host.place path = dir) (outcome : Quarantined) :
    Sweep.SameApart host dir ⟨path :: s.swept, s.calls ++ [⟨path, outcome⟩]⟩ t := by
  refine ⟨fun other hother => ?_, ?_⟩
  · have hne : other ≠ path := fun heq => hother (heq ▸ hpath)
    rw [List.mem_cons, or_iff_right hne]
    exact h.swept other hother
  · rw [← h.calls]
    simp [Sweep.callsApart, hpath]

theorem Sweep.SameApart.takeBoth {s t : Sweep} (h : s.SameApart host dir t) (path : String)
    (outcome : Quarantined) :
    Sweep.SameApart host dir ⟨path :: s.swept, s.calls ++ [⟨path, outcome⟩]⟩
      ⟨path :: t.swept, t.calls ++ [⟨path, outcome⟩]⟩ := by
  refine ⟨fun other hother => ?_, ?_⟩
  · rw [List.mem_cons, List.mem_cons, h.swept other hother]
  · have hcalls := h.calls
    unfold Sweep.callsApart at hcalls ⊢
    rw [List.filter_append, List.filter_append, hcalls]

theorem Sweep.SameApart.visitOne {s t : Sweep} (h : s.SameApart host dir t) {i : ℕ} {m : ThreadMeta}
    (hm : ∀ path, present m.worktreePath = some path → host.place path = dir)
    (found : ℕ → Bool) (outcome : ℕ → Quarantined) :
    (visit { host with found := found, outcome := outcome } now active s i m).SameApart host dir
      t := by
  rw [visit_eq]
  split
  · exact h
  · next path hcand =>
    split
    · exact h
    · exact h.take (hm path (candidate_eq_some hcand).1) _

/-- **A thread keeps two sweeps the same** but for the one worktree. -/
theorem Sweep.SameApart.visit {s t : Sweep} (h : s.SameApart host dir t) {found : ℕ → Bool}
    {outcome : ℕ → Quarantined} (hsame : host.SameApart found outcome dir threads) {i : ℕ}
    {m : ThreadMeta} (hm : threads[i]? = some m) :
    (visit host now active s i m).SameApart host dir
      (visit { host with found := found, outcome := outcome } now active t i m) := by
  by_cases hone : ∀ path, present m.worktreePath = some path → host.place path = dir
  · have hleft := @visitOne _ now active _ _ _ h i _ hone host.found host.outcome
    exact (hleft.symm.visitOne hone found outcome).symm
  · push_neg at hone
    obtain ⟨path, hpath, hne⟩ := hone
    have hfound := hsame.found i m path hm hpath hne
    have houtcome := hsame.outcome i m path hm hpath hne
    have hcand : candidate { host with found := found, outcome := outcome } now active i m
        = candidate host now active i m := by
      unfold candidate
      simp only [hfound]
    rw [visit_eq, visit_eq, hcand]
    cases hc : candidate host now active i m with
    | none => exact h
    | some path' =>
      cases hpath.symm.trans (candidate_eq_some hc).1
      have hmoved : host.place path ∈ s.moved host
          ↔ host.place path ∈ t.moved { host with found := found, outcome := outcome } := by
        have ht : t.moved { host with found := found, outcome := outcome } = t.moved host := rfl
        rw [ht, mem_moved_iff hne, mem_moved_iff hne, h.calls]
      simp only [h.swept path hne, hmoved, houtcome]
      split
      · exact h
      · exact h.takeBoth path _

theorem Sweep.SameApart.sweepFrom {found : ℕ → Bool} {outcome : ℕ → Quarantined}
    (hsame : host.SameApart found outcome dir threads) {n : ℕ} {rest : List ThreadMeta} {s t : Sweep}
    (h : s.SameApart host dir t) (hrest : threads.drop n = rest) :
    (sweepFrom host now active n rest s).SameApart host dir
      (sweepFrom { host with found := found, outcome := outcome } now active n rest t) := by
  induction rest generalizing n s t with
  | nil => exact h
  | cons m rest ih =>
    have hm : threads[n]? = some m := by
      rw [← List.head?_drop, hrest]
      rfl
    refine ih (h.visit hsame hm) ?_
    rw [← List.drop_drop, hrest]
    rfl

/-- **What is found of one worktree, and what comes of its calls, changes no call for another.** -/
theorem callsApart_quarantine {found : ℕ → Bool} {outcome : ℕ → Quarantined} (now : ℤ)
    (hsame : host.SameApart found outcome dir threads) :
    (quarantineStaleFailedWorktrees { host with found := found, outcome := outcome } now
        threads).callsApart host dir
      = (quarantineStaleFailedWorktrees host now threads).callsApart host dir :=
  (Sweep.SameApart.sweepFrom hsame ⟨fun _ _ => Iff.rfl, rfl⟩ rfl).calls.symm

end Apart

/-! ## What the sweep spares -/

def Names (host : Host) (m : ThreadMeta) (dir : String) : Prop :=
  ∃ path, present m.worktreePath = some path ∧ host.place path = dir

/-- **What a sweep is to do**: it moves no worktree that is in use or to be kept, each only once,
and what is found of one and what comes of its calls changes nothing for another. -/
structure Right (host : Host) (scanned now : ℤ) (sessions : List SessionDir) : Prop where
  spares : ∀ dir ∈ (bootSweep host scanned now sessions).moved host,
    ∀ session ∈ sessions, ∀ f ∈ session.threads, ∀ m ∈ f.metadata, Names host m dir →
      m.status.isTerminal = true ∧ m.keepWorktree = false
  once : ((bootSweep host scanned now sessions).moved host).Nodup
  apart : ∀ dir found outcome,
    host.SameApart found outcome dir (scanInterruptedRuns sessions scanned) →
      (bootSweep { host with found := found, outcome := outcome } scanned now sessions).callsApart
        host dir = (bootSweep host scanned now sessions).callsApart host dir

/-- **A thread on disk that the sweep overlooks** when it takes a path: one that asks to keep the
worktree, or one that is not done and is too old to be scanned or names it by another path. -/
def Overlooked (host : Host) (scanned : ℤ) (path : String) (f : ThreadFile) : Prop :=
  ∃ m ∈ f.metadata, Names host m (host.place path)
    ∧ (m.keepWorktree = true ∨ m.status.isTerminal = false
      ∧ (f.mtime < scanned - runningScanWindow ∨ present m.worktreePath ≠ some path))

theorem mem_activeWorktrees {sessions : List SessionDir} {scanned : ℤ} {session : SessionDir}
    (hsession : session ∈ sessions) {f : ThreadFile} (hf : f ∈ session.threads) {m : ThreadMeta}
    (hm : m ∈ f.metadata) (hrecent : ¬ f.mtime < scanned - runningScanWindow)
    (hstatus : m.status.isTerminal = false) {path : String}
    (hpath : present m.worktreePath = some path) :
    path ∈ activeWorktrees (scanInterruptedRuns sessions scanned) := by
  refine List.mem_filterMap.mpr ⟨m, List.mem_flatMap.mpr ⟨session, hsession,
    List.mem_filterMap.mpr ⟨f, hf, ?_⟩⟩, ?_⟩
  · rw [if_neg hrecent]
    exact hm
  · rw [hstatus]
    exact hpath

/-- **The sweep is right exactly when it takes no worktree of a thread that it overlooks.** -/
theorem sweep_right_iff (host : Host) (scanned now : ℤ) (sessions : List SessionDir) :
    Right host scanned now sessions ↔
      ∀ i path, FirstAt host now (activeWorktrees (scanInterruptedRuns sessions scanned))
          (scanInterruptedRuns sessions scanned) i path → (host.outcome i).moves = true →
        ∀ session ∈ sessions, ∀ f ∈ session.threads, ¬ Overlooked host scanned path f := by
  have hinv := inv_quarantine host now (scanInterruptedRuns sessions scanned)
  constructor
  · rintro hright i path hfirst hmoves session hsession f hf ⟨m, hm, hnames, hover⟩
    have hlt : i < (scanInterruptedRuns sessions scanned).length := by
      obtain ⟨t, ht, -⟩ := hfirst.1
      exact (List.getElem?_eq_some_iff.mp ht).1
    obtain ⟨hterminal, hkeep⟩ := hright.spares _
      ((hinv.moved _).mpr ⟨i, hlt, path, hfirst, hmoves, rfl⟩) session hsession f hf m hm hnames
    rcases hover with hkept | ⟨hrunning, -⟩
    · exact absurd hkept (by simp [hkeep])
    · exact absurd hrunning (by simp [hterminal])
  · intro hnone
    refine ⟨fun dir hdir session hsession f hf m hm hnames => ?_, hinv.nodup,
      fun dir found outcome hsame => callsApart_quarantine now hsame⟩
    obtain ⟨i, -, path, hfirst, hmoves, rfl⟩ := (hinv.moved dir).mp hdir
    have hover := hnone i path hfirst hmoves session hsession f hf
    refine ⟨?_, ?_⟩
    · by_contra hrunning
      rw [Bool.not_eq_true] at hrunning
      refine hover ⟨m, hm, hnames, Or.inr ⟨hrunning, ?_⟩⟩
      by_contra hseen
      obtain ⟨hrecent, hsame⟩ := not_or.mp hseen
      obtain ⟨t, -, hcand⟩ := hfirst.1
      exact (candidate_eq_some hcand).2
        (mem_activeWorktrees hsession hf hm hrecent hrunning (not_not.mp hsame))
    · by_contra hkept
      exact hover ⟨m, hm, hnames, Or.inl (by simpa using hkept)⟩

/-! ## A reviewer that fails -/

/-- A host where every path is found and every call moves, and every thread is of the start. -/
def openHost : Host where
  parse _ := some 0
  place path := path
  found _ := true
  outcome _ := .moved

/-- A thread of the worktree `/w/a`. -/
def threadOf (status : ThreadStatus) (keep : Bool) : ThreadMeta :=
  ⟨some "t", status, keep, some "/repo", some "/w/a", some "a", some "0"⟩

/-- **A worker that is to keep its worktree and its reviewer, which failed**: the worktree goes. -/
theorem keeper_overlooked :
    (bootSweep openHost (10 * day) (10 * day)
      [⟨[⟨0, threadOf .completed true⟩, ⟨0, threadOf .failed false⟩]⟩]).moved openHost
        = ["/w/a"] := by decide

/-- **A thread that is not done and was written long ago**: its worktree goes with that of a thread
that failed. -/
theorem not_right_running :
    ¬ ∀ (host : Host) (scanned now : ℤ) (sessions : List SessionDir),
      Right host scanned now sessions := by
  intro hall
  have hmoved : "/w/a" ∈ (bootSweep openHost (40 * day) (40 * day)
      [⟨[⟨0, threadOf .running false⟩, ⟨30 * day, threadOf .failed false⟩]⟩]).moved
        openHost := by decide
  have hspares := (hall openHost (40 * day) (40 * day)
    [⟨[⟨0, threadOf .running false⟩, ⟨30 * day, threadOf .failed false⟩]⟩]).spares _ hmoved
    _ List.mem_cons_self _ List.mem_cons_self _ rfl ⟨"/w/a", rfl, rfl⟩
  exact absurd hspares.1 (by decide)

end WorktreeSweep
