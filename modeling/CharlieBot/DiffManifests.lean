import CharlieBot.GitListings
import CharlieBot.Lib.GitRefs
import CharlieBot.Lib.LruMap
import CharlieBot.Lib.Transition
import Mathlib.Algebra.Ring.Int.Defs

/-!
# The manifests of the diffs

A manifest lists what changed between two refs. It is kept in a memo under the commits that the
refs were resolved to: what changed between two commits never changes. On a miss two commands list
the changes, one with the letters and one with the counts, and the rows of the second are looked up
among the letters of the first.

The commands are given the refs, though, and each resolves them again. A ref that moves in between
has the changes of other commits served and kept under the key of those that were resolved
(`stale_manifest`); what lists a single file resolves first and gives the command the commits.

**Along every run in which each command finds the refs at the commits they were resolved to**, and
in which the paths are text without a carriage return, every manifest lists the changes between its
own commits, whether it was made or found in the memo, and no request fails but where a ref has no
commit or the commits no diff (`right_of_run`).
-/

namespace DiffManifests

open GitListings Git

/-! ## What is made of the listings -/

inductive Mode where
  | threeDot
  | twoDot
  deriving DecidableEq

structure Entry where
  row : Row
  status : Char

/-- A manifest: its entries, and the sums of their counts. -/
structure Manifest where
  files : List Entry
  totalAdditions : ℤ
  totalDeletions : ℤ

/-- Why the diff of a request fails. -/
inductive Why where
  /-- A command fails. -/
  | noDiff
  /-- Its output is not text, or is not parsed. -/
  | unparsed
  /-- A row's path is not among the letters. -/
  | noStatus
  deriving DecidableEq

/-- The output of a command, in text mode. -/
def outputOf (put : List Change → List UInt8) : Option Listing → Except Why (List Char)
  | none => .error .noDiff
  | some listing =>
    match runGitSync (put listing.changes) with
    | none => .error .unparsed
    | some text => .ok text

/-- The rows with their letters, and the sums so far. -/
def entriesOf (statuses : StatusByPath) : List Row → Manifest → Except Why Manifest
  | [], m => .ok m
  | row :: rows, m =>
    match statuses.lookup row.path with
    | none => .error .noStatus
    | some status =>
      entriesOf statuses rows ⟨m.files ++ [⟨row, status⟩], m.totalAdditions + row.additions,
        m.totalDeletions + row.deletions⟩

/-- The manifest of what the two commands list. -/
def manifestOf (py : GitListings.Python) (nameStatus numstat : Option Listing) :
    Except Why Manifest := do
  let nameStatus ← outputOf nameStatusZ nameStatus
  let numstat ← outputOf numstatZ numstat
  match parseNameStatusZ nameStatus, parseNumstatZ py numstat with
  | some statuses, some rows => entriesOf statuses rows ⟨[], 0, 0⟩
  | _, _ => .error .unparsed

/-- **A manifest lists changes**: every file with its counts and its letter, and the sums. -/
structure Manifest.Lists (m : Manifest) (changes : List Change) : Prop where
  files : List.Forall₂ (fun e c => e.row.Tells c ∧ e.status = c.kind.letter) m.files changes
  additions : m.totalAdditions = (changes.map Change.additions).sum
  deletions : m.totalDeletions = (changes.map Change.deletions).sum

theorem entriesOf_lists {statuses : StatusByPath} {rows : List Row} {changes before : List Change}
    (h : List.Forall₂ (fun row c => Row.Tells row c
      ∧ statuses.lookup row.path = some c.kind.letter) rows changes)
    {m : Manifest} (hm : m.Lists before) :
    ∃ m', entriesOf statuses rows m = .ok m' ∧ m'.Lists (before ++ changes) := by
  induction h generalizing m before with
  | nil => exact ⟨m, rfl, by rwa [List.append_nil]⟩
  | @cons row c rows changes hrow _ ih =>
    obtain ⟨htells, hstatus⟩ := hrow
    have hnext : Manifest.Lists ⟨m.files ++ [⟨row, c.kind.letter⟩],
        m.totalAdditions + row.additions, m.totalDeletions + row.deletions⟩ (before ++ [c]) := by
      refine ⟨List.rel_append hm.files (List.Forall₂.cons ⟨htells, rfl⟩ .nil), ?_, ?_⟩
      · simp [hm.additions, htells.additions]
      · simp [hm.deletions, htells.deletions]
    obtain ⟨m', hm', hlists⟩ := ih hnext
    refine ⟨m', ?_, ?_⟩
    · rw [entriesOf, hstatus]
      exact hm'
    · rwa [List.append_assoc] at hlists

/-- **Two listings of the same commits make the manifest of their changes.** -/
theorem manifestOf_lists (py : GitListings.Python) {listing : Listing}
    (h : ∀ c ∈ listing.changes, c.Clean) :
    ∃ m, manifestOf py (some listing) (some listing) = .ok m ∧ m.Lists listing.changes := by
  obtain ⟨rows, statuses, hrows, hstatuses, htells, -⟩ := givesBack_of_clean py listing h
  obtain ⟨numstat, hnumstat, hrows⟩ := Option.bind_eq_some_iff.mp hrows
  obtain ⟨nameStatus, hnameStatus, hstatuses⟩ := Option.bind_eq_some_iff.mp hstatuses
  obtain ⟨m, hm, hlists⟩ := @entriesOf_lists _ _ _ [] htells ⟨[], 0, 0⟩
    ⟨.nil, rfl, rfl⟩
  refine ⟨m, ?_, hlists⟩
  simp only [manifestOf, outputOf, hnumstat, hnameStatus, bind, Except.bind, hrows, hstatuses]
  exact hm

/-! ## The requests -/

/-- What git tells of the commits of a repository. -/
structure Git where
  /-- What changed between two commits, if they have a diff. -/
  changes : String → Mode → Oid → Oid → Option Listing
  /-- `_attributes_signature`. -/
  attributesSignature : String → Option (ℕ × ℕ)

/-- A request for a manifest. -/
structure Query where
  repo : String
  base : String
  head : String
  mode : Mode

structure ManifestKey where
  repo : String
  baseSha : Oid
  headSha : Oid
  mode : Mode
  attributes : Option (ℕ × ℕ)
  deriving DecidableEq

structure ResolveKey where
  repo : String
  refs : List String
  signature : ℕ
  deriving DecidableEq

inductive Command where
  | started
  | atHead (base : Oid)
  | done (listing : Option Listing)

/-- The two commands. -/
inductive Which where
  | nameStatus
  | numstat

inductive Phase where
  | started
  /-- The files of the refs were looked at. -/
  | signed (signature : ℕ)
  /-- `git rev-parse` runs. -/
  | revParse (signature : ℕ)
  | revParseHead (signature : ℕ) (base : Oid)
  | resolved (base head : Oid)
  | diffing (base head : Oid) (nameStatus numstat : Command)

/-- Why a request fails. -/
inductive Failure where
  /-- A ref has no commit. -/
  | unresolved
  | diff (base head : Oid) (why : Why)

/-- A manifest that was served, with what it was asked for and the commits. -/
structure Served where
  query : Query
  baseSha : Oid
  headSha : Oid
  manifest : Manifest

/-- **The repositories and the server.** -/
structure Server where
  refs : String → String → Option Oid
  /-- `_refs_signature`. -/
  signature : String → ℕ
  /-- `_ref_resolution_memo`. -/
  resolutions : LruMap ResolveKey (Oid × Oid) := { limit := 64 }
  /-- `_diff_files_memo`. -/
  manifests : LruMap ManifestKey Manifest := { limit := 64 }
  requests : ℕ → Option (Query × Phase) := fun _ => none
  served : List Served := []
  failures : List (Query × Failure) := []

inductive Action where
  /-- Refs move, and their files with them. -/
  | move (refs : String → String → Option Oid) (signature : String → ℕ)
  | request (id : ℕ) (query : Query)
  /-- The files of the refs are looked at. -/
  | sign (id : ℕ)
  /-- The resolution is looked up. -/
  | lookupRefs (id : ℕ)
  | revParseBase (id : ℕ)
  | revParseHead (id : ℕ)
  /-- The manifest is looked up; on a miss the commands are started. -/
  | lookupManifest (id : ℕ)
  /-- A command resolves the base. -/
  | readBase (id : ℕ) (which : Which)
  /-- It resolves the head, and lists what changed. -/
  | readHead (id : ℕ) (which : Which)
  /-- The manifest is made. -/
  | finish (id : ℕ)

namespace Server

variable (git : Git) (py : GitListings.Python)

/-- A request goes on. -/
def advance (s : Server) (id : ℕ) (query : Query) (phase : Phase) : Server :=
  { s with requests := Function.update s.requests id (some (query, phase)) }

/-- A request is answered. -/
def serve (s : Server) (id : ℕ) (query : Query) (base head : Oid) (m : Manifest) : Server :=
  { s with
    requests := Function.update s.requests id none
    served := s.served ++ [⟨query, base, head, m⟩] }

def fail (s : Server) (id : ℕ) (query : Query) (failure : Failure) : Server :=
  { s with
    requests := Function.update s.requests id none
    failures := s.failures ++ [(query, failure)] }

/-- The key of a request's manifest. -/
def manifestKey (query : Query) (base head : Oid) : ManifestKey :=
  ⟨query.repo, base, head, query.mode, git.attributesSignature query.repo⟩

/-- One command resolves one ref more. -/
def Command.step (s : Server) (query : Query) (atHead : Bool) (c : Command) : Option Command :=
  match atHead, c with
  | false, .started =>
    match s.refs query.repo query.base with
    | none => some (.done none)
    | some base => some (.atHead base)
  | true, .atHead base =>
    match s.refs query.repo query.head with
    | none => some (.done none)
    | some head => some (.done (git.changes query.repo query.mode base head))
  | _, _ => none

/-- A command of a request resolves one ref more. -/
def command (s : Server) (id : ℕ) (which : Which) (atHead : Bool) : Option Server :=
  match s.requests id with
  | some (query, .diffing base head nameStatus numstat) =>
    match which with
    | .nameStatus => (Command.step git s query atHead nameStatus).map fun c =>
      s.advance id query (.diffing base head c numstat)
    | .numstat => (Command.step git s query atHead numstat).map fun c =>
      s.advance id query (.diffing base head nameStatus c)
  | _ => none

/-- The manifest of a request is made of what its commands list, kept and served. -/
def finishWith (s : Server) (id : ℕ) (query : Query) (base head : Oid)
    (nameStatus numstat : Option Listing) : Server :=
  match manifestOf py nameStatus numstat with
  | .error why => s.fail id query (.diff base head why)
  | .ok m =>
    { s with manifests := s.manifests.store (manifestKey git query base head) m }.serve id query
      base head m

/-- **`diff_files`**, and what happens around it. -/
def step (s : Server) : Action → Option Server
  | .move refs signature => some { s with refs := refs, signature := signature }
  | .request id query =>
    match s.requests id with
    | none => some (s.advance id query .started)
    | some _ => none
  | .sign id =>
    match s.requests id with
    | some (query, .started) => some (s.advance id query (.signed (s.signature query.repo)))
    | _ => none
  | .lookupRefs id =>
    match s.requests id with
    | some (query, .signed signature) =>
      let key := ⟨query.repo, [query.base, query.head], signature⟩
      let touched := { s with resolutions := s.resolutions.touch key }
      match s.resolutions.lookup key with
      | some (base, head) => some (touched.advance id query (.resolved base head))
      | none => some (touched.advance id query (.revParse signature))
    | _ => none
  | .revParseBase id =>
    match s.requests id with
    | some (query, .revParse signature) =>
      match s.refs query.repo query.base with
      | none => some (s.fail id query .unresolved)
      | some base => some (s.advance id query (.revParseHead signature base))
    | _ => none
  | .revParseHead id =>
    match s.requests id with
    | some (query, .revParseHead signature base) =>
      match s.refs query.repo query.head with
      | none => some (s.fail id query .unresolved)
      | some head =>
        let key := ⟨query.repo, [query.base, query.head], signature⟩
        some ({ s with resolutions := s.resolutions.store key (base, head) }.advance id query
          (.resolved base head))
    | _ => none
  | .lookupManifest id =>
    match s.requests id with
    | some (query, .resolved base head) =>
      let key := manifestKey git query base head
      let touched := { s with manifests := s.manifests.touch key }
      match s.manifests.lookup key with
      | some m => some (touched.serve id query base head m)
      | none => some (touched.advance id query (.diffing base head .started .started))
    | _ => none
  | .readBase id which => s.command git id which false
  | .readHead id which => s.command git id which true
  | .finish id =>
    match s.requests id with
    | some (query, .diffing base head (.done nameStatus) (.done numstat)) =>
      some (s.finishWith git py id query base head nameStatus numstat)
    | _ => none

/-- **The server, step by step.** -/
def system : TransitionSystem Server Action := ⟨Server.step git py⟩

/-! ## What the requests come to -/

variable {git} {py} {s t : Server}

/-- **What a run is to come to**: every manifest lists what changed between its commits, and a
request fails only where a ref has no commit or two commits no diff. -/
structure Right (git : Git) (s : Server) : Prop where
  served : ∀ v ∈ s.served, ∃ listing,
    git.changes v.query.repo v.query.mode v.baseSha v.headSha = some listing
      ∧ v.manifest.Lists listing.changes
  failures : ∀ query base head why, (query, Failure.diff base head why) ∈ s.failures →
    why = .noDiff ∧ git.changes query.repo query.mode base head = none

/-- **What is asked of a step**: a command finds a ref at the commit that it was resolved to, and
the paths of a diff are text without a carriage return. -/
def Meets (git : Git) (s : Server) : Action → Prop
  | .readBase id _ => ∀ query base head nameStatus numstat,
    s.requests id = some (query, .diffing base head nameStatus numstat) →
      s.refs query.repo query.base = some base
  | .readHead id _ => ∀ query base head nameStatus numstat,
    s.requests id = some (query, .diffing base head nameStatus numstat) →
      s.refs query.repo query.head = some head
  | .finish id => ∀ query base head nameStatus numstat,
    s.requests id = some (query, .diffing base head nameStatus numstat) →
      ∀ listing ∈ git.changes query.repo query.mode base head, ∀ c ∈ listing.changes, c.Clean
  | _ => True

/-- What a command has seen is what its request resolved. -/
def Command.Saw (git : Git) (query : Query) (base head : Oid) : Command → Prop
  | .started => True
  | .atHead seen => seen = base
  | .done listing => listing = git.changes query.repo query.mode base head

/-- A request in progress has seen the commits that it resolved. -/
def Phase.Saw (git : Git) (query : Query) : Phase → Prop
  | .diffing base head nameStatus numstat =>
    Command.Saw git query base head nameStatus ∧ Command.Saw git query base head numstat
  | _ => True

/-- **The invariant.** -/
structure Inv (git : Git) (s : Server) : Prop where
  memo : ∀ key m, s.manifests.lookup key = some m → ∃ listing,
    git.changes key.repo key.mode key.baseSha key.headSha = some listing
      ∧ m.Lists listing.changes
  requests : ∀ id query phase, s.requests id = some (query, phase) → Phase.Saw git query phase
  right : s.Right git

theorem Inv.advance (h : Inv git s) (id : ℕ) {query : Query} {phase : Phase}
    (hphase : Phase.Saw git query phase) : Inv git (s.advance id query phase) where
  memo := h.memo
  requests := by
    intro id' query' phase' hreq
    simp only [Server.advance, Function.update_apply] at hreq
    split at hreq
    · cases hreq
      exact hphase
    · exact h.requests id' query' phase' hreq
  right := ⟨h.right.served, h.right.failures⟩

theorem Inv.over (h : Inv git s) (id : ℕ) (id' : ℕ) (query : Query) (phase : Phase)
    (hreq : Function.update s.requests id none id' = some (query, phase)) :
    Phase.Saw git query phase := by
  rw [Function.update_apply] at hreq
  split at hreq
  · cases hreq
  · exact h.requests id' query phase hreq

theorem Inv.serve (h : Inv git s) (id : ℕ) {query : Query} {base head : Oid} {m : Manifest}
    (hm : ∃ listing, git.changes query.repo query.mode base head = some listing
      ∧ m.Lists listing.changes) : Inv git (s.serve id query base head m) where
  memo := h.memo
  requests := h.over id
  right := by
    refine ⟨fun v hv => ?_, h.right.failures⟩
    rcases List.mem_append.mp hv with hv | hv
    · exact h.right.served v hv
    · rw [List.mem_singleton.mp hv]
      exact hm

theorem Inv.fail (h : Inv git s) (id : ℕ) {query : Query} {failure : Failure}
    (hfail : ∀ base head why, failure = .diff base head why →
      why = .noDiff ∧ git.changes query.repo query.mode base head = none) :
    Inv git (s.fail id query failure) where
  memo := h.memo
  requests := h.over id
  right := by
    refine ⟨h.right.served, fun query' base head why hmem => ?_⟩
    rcases List.mem_append.mp hmem with hmem | hmem
    · exact h.right.failures query' base head why hmem
    · cases List.mem_singleton.mp hmem
      exact hfail base head why rfl

theorem Inv.withManifests (h : Inv git s) {manifests : LruMap ManifestKey Manifest}
    (hmemo : ∀ key m, manifests.lookup key = some m → ∃ listing,
      git.changes key.repo key.mode key.baseSha key.headSha = some listing
        ∧ m.Lists listing.changes) : Inv git { s with manifests := manifests } :=
  ⟨hmemo, h.requests, ⟨h.right.served, h.right.failures⟩⟩

theorem Inv.touchManifest (h : Inv git s) (key : ManifestKey) :
    Inv git { s with manifests := s.manifests.touch key } :=
  h.withManifests fun key' m hlookup => h.memo key' m (by rwa [LruMap.lookup_touch] at hlookup)

theorem Inv.withResolutions (h : Inv git s) (resolutions : LruMap ResolveKey (Oid × Oid)) :
    Inv git { s with resolutions := resolutions } :=
  ⟨h.memo, h.requests, ⟨h.right.served, h.right.failures⟩⟩

theorem Command.saw_step {query : Query} {base head : Oid} {atHead : Bool} {c c' : Command}
    (hc : Command.Saw git query base head c)
    (hbase : atHead = false → s.refs query.repo query.base = some base)
    (hhead : atHead = true → s.refs query.repo query.head = some head)
    (hstep : Command.step git s query atHead c = some c') :
    Command.Saw git query base head c' := by
  unfold Command.step at hstep
  split at hstep
  · rw [hbase rfl] at hstep
    cases hstep
    rfl
  · rw [hhead rfl] at hstep
    cases hstep
    rw [show _ = base from hc]
    rfl
  · cases hstep

theorem Inv.command (h : Inv git s) {id : ℕ} {which : Which} {atHead : Bool}
    (hread : ∀ query base head nameStatus numstat,
      s.requests id = some (query, .diffing base head nameStatus numstat) →
        (atHead = false → s.refs query.repo query.base = some base)
          ∧ (atHead = true → s.refs query.repo query.head = some head))
    (hstep : s.command git id which atHead = some t) : Inv git t := by
  unfold Server.command at hstep
  split at hstep
  · next query base head nameStatus numstat hreq =>
    obtain ⟨hbase, hhead⟩ := hread _ _ _ _ _ hreq
    obtain ⟨hname, hnum⟩ := h.requests _ _ _ hreq
    cases which with
    | nameStatus =>
      obtain ⟨c, hc, rfl⟩ := Option.map_eq_some_iff.mp hstep
      exact h.advance id ⟨Command.saw_step hname hbase hhead hc, hnum⟩
    | numstat =>
      obtain ⟨c, hc, rfl⟩ := Option.map_eq_some_iff.mp hstep
      exact h.advance id ⟨hname, Command.saw_step hnum hbase hhead hc⟩
  · cases hstep

/-- Commands that have seen what was resolved make a manifest of it, or fail as there is none. -/
theorem Inv.finishWith (h : Inv git s) (id : ℕ) {query : Query} {base head : Oid}
    (hclean : ∀ listing ∈ git.changes query.repo query.mode base head,
      ∀ c ∈ listing.changes, c.Clean) :
    Inv git (s.finishWith git py id query base head (git.changes query.repo query.mode base head)
      (git.changes query.repo query.mode base head)) := by
  unfold Server.finishWith
  cases hchanges : git.changes query.repo query.mode base head with
  | none =>
    refine h.fail id fun base' head' why heq => ?_
    cases heq
    exact ⟨rfl, hchanges⟩
  | some listing =>
    obtain ⟨m, hm, hlists⟩ := manifestOf_lists py (hclean listing hchanges)
    rw [hm]
    refine Inv.serve (h.withManifests fun key m' hlookup => ?_) id ⟨listing, hchanges, hlists⟩
    rcases LruMap.lookup_store hlookup with ⟨rfl, rfl⟩ | ⟨-, hold⟩
    · exact ⟨listing, hchanges, hlists⟩
    · exact h.memo key m' hold

/-- **A step that finds the refs where they were keeps the invariant.** -/
theorem Inv.step (h : Inv git s) {a : Action} (hmeets : s.Meets git a)
    (hstep : s.step git py a = some t) : Inv git t := by
  cases a with
  | move refs signature =>
    cases hstep
    exact ⟨h.memo, h.requests, ⟨h.right.served, h.right.failures⟩⟩
  | request id query =>
    simp only [Server.step] at hstep
    split at hstep
    · cases hstep
      exact h.advance id trivial
    · cases hstep
  | sign id =>
    simp only [Server.step] at hstep
    split at hstep
    · cases hstep
      exact h.advance id trivial
    · cases hstep
  | lookupRefs id =>
    simp only [Server.step] at hstep
    split at hstep
    · split at hstep
      · cases hstep
        exact (h.withResolutions _).advance id trivial
      · cases hstep
        exact (h.withResolutions _).advance id trivial
    · cases hstep
  | revParseBase id =>
    simp only [Server.step] at hstep
    split at hstep
    · split at hstep
      · cases hstep
        exact h.fail id fun _ _ _ heq => nomatch heq
      · cases hstep
        exact h.advance id trivial
    · cases hstep
  | revParseHead id =>
    simp only [Server.step] at hstep
    split at hstep
    · split at hstep
      · cases hstep
        exact h.fail id fun _ _ _ heq => nomatch heq
      · cases hstep
        exact (h.withResolutions _).advance id trivial
    · cases hstep
  | lookupManifest id =>
    simp only [Server.step] at hstep
    split at hstep
    · split at hstep
      · next m hm =>
        cases hstep
        exact (h.touchManifest _).serve id (h.memo _ m hm)
      · cases hstep
        exact (h.touchManifest _).advance id ⟨trivial, trivial⟩
    · cases hstep
  | readBase id which =>
    change s.command git id which false = some t at hstep
    refine h.command (fun query base head nameStatus numstat hreq => ⟨fun _ => ?_, ?_⟩) hstep
    · exact hmeets _ _ _ _ _ hreq
    · exact fun heq => absurd heq (by decide)
  | readHead id which =>
    change s.command git id which true = some t at hstep
    refine h.command (fun query base head nameStatus numstat hreq => ⟨?_, fun _ => ?_⟩) hstep
    · exact fun heq => absurd heq (by decide)
    · exact hmeets _ _ _ _ _ hreq
  | finish id =>
    simp only [Server.step] at hstep
    split at hstep
    · next query base head nameStatus numstat hreq =>
      cases hstep
      obtain ⟨hname, hnum⟩ := h.requests _ _ _ hreq
      rw [show nameStatus = _ from hname, show numstat = _ from hnum]
      exact h.finishWith id (hmeets _ _ _ _ _ hreq)
    · cases hstep

def start (refs : String → String → Option Oid) (signature : String → ℕ) : Server :=
  { refs := refs, signature := signature }

theorem inv_start (refs : String → String → Option Oid) (signature : String → ℕ) :
    Inv git (start refs signature) where
  memo key m h := by
    have hnone : (start refs signature).manifests.lookup key = none := rfl
    rw [hnone] at h
    cases h
  requests id query phase h := by cases h
  right := ⟨fun v hv => absurd hv List.not_mem_nil, fun _ _ _ _ h => absurd h List.not_mem_nil⟩

/-- **Along every run in which the commands find the refs where they were resolved, every manifest
lists what changed between its commits**, and no request fails where they have a diff. -/
theorem right_of_run (git : Git) (py : GitListings.Python)
    (refs : String → String → Option Oid) (signature : String → ℕ) (as : List Action) (s : Server)
    (hmeets : (system git py).Guarded (Meets git) (start refs signature) as)
    (hrun : (system git py).run (start refs signature) as = some s) : s.Right git :=
  ((system git py).run_invariant_of_guarded (fun _ _ _ h hm hstep => h.step hm hstep)
    (inv_start refs signature) hmeets hrun).right

/-! ### One request -/

/-- A file `a`, added with one line. -/
def addedFile : Change :=
  ⟨some GitListings.oneAdded, .plain .added, ⟨[97], by decide, by decide⟩⟩

/-- A file is added up to the commit `B`, and none up to any other. -/
def addedAtB : Git where
  changes _ _ _ head :=
    if head = "B" then some ⟨[addedFile], List.nodup_singleton _⟩ else some ⟨[], List.nodup_nil⟩
  attributesSignature _ := none

/-- The refs: `main` is at the commit `A`, and all others are where `dev` is. -/
def devAt (dev : Oid) (_ name : String) : Option Oid := some (if name = "main" then "A" else dev)

/-- A request for the changes between `main` and `dev`, up to its commands. -/
def resolving : List Action :=
  [.request 0 ⟨"/repo", "main", "dev", .twoDot⟩, .sign 0, .lookupRefs 0, .revParseBase 0,
    .revParseHead 0, .lookupManifest 0]

/-- Its commands, and what is made of them. -/
def listing : List Action :=
  [.readBase 0 .nameStatus, .readHead 0 .nameStatus, .readBase 0 .numstat, .readHead 0 .numstat,
    .finish 0]

/-- Nothing moves: the manifest of a diff without changes. -/
theorem right_of_run_still : ∃ s, (system addedAtB decimalInt).run (start (devAt "C") fun _ => 0)
    (resolving ++ listing) = some s ∧ s.served.length = 1 ∧ s.Right addedAtB := by
  have hmeets : (system addedAtB decimalInt).Guarded (Meets addedAtB)
      (start (devAt "C") fun _ => 0) (resolving ++ listing) := by
    refine TransitionSystem.guarded_append ?_ fun s hs => ?_
    · refine ⟨trivial, fun _ _ => ⟨trivial, fun _ _ => ⟨trivial, fun _ _ => ⟨trivial, fun _ _ =>
        ⟨trivial, fun _ _ => ⟨trivial, fun _ _ => trivial⟩⟩⟩⟩⟩⟩
    · cases hs
      refine ⟨fun _ _ _ _ _ h => ?_, fun _ ht => ?_⟩
      · cases h
        rfl
      cases ht
      refine ⟨fun _ _ _ _ _ h => ?_, fun _ ht => ?_⟩
      · cases h
        rfl
      cases ht
      refine ⟨fun _ _ _ _ _ h => ?_, fun _ ht => ?_⟩
      · cases h
        rfl
      cases ht
      refine ⟨fun _ _ _ _ _ h => ?_, fun _ ht => ?_⟩
      · cases h
        rfl
      cases ht
      refine ⟨fun _ _ _ _ _ h l hl => ?_, fun _ _ => trivial⟩
      cases h
      cases hl
      exact fun c hc => absurd hc List.not_mem_nil
  exact ⟨_, rfl, rfl, right_of_run addedAtB decimalInt _ _ _ _ hmeets rfl⟩

/-- **A ref that moves behind its resolution has the changes of other commits listed.** -/
theorem stale_manifest :
    ¬ ∀ (git : Git) (py : GitListings.Python) (refs : String → String → Option Oid)
      (signature : String → ℕ) (as : List Action) (s : Server),
      (system git py).run (start refs signature) as = some s → s.Right git := by
  intro hall
  have hserved : ((system addedAtB decimalInt).run (start (devAt "B") fun _ => 0)
      (resolving ++ .move (devAt "C") (fun _ => 1) :: listing)).map Server.served
        = some [⟨⟨"/repo", "main", "dev", .twoDot⟩, "A", "B", ⟨[], 0, 0⟩⟩] := rfl
  obtain ⟨s, hs, hlist⟩ := Option.map_eq_some_iff.mp hserved
  obtain ⟨listing, hchanges, hlists⟩ := (hall _ _ _ _ _ s hs).served _
    (by rw [hlist]; exact List.mem_cons_self)
  cases hchanges
  exact nomatch hlists.files

end Server

end DiffManifests
