import CharlieBot.Lib.LinkTree

/-!
# Worktree cleanup

A worktree is removed by git, and what git leaves behind is removed here; a stale one is moved to
the trash. Before either, the directories with the name of a cache are taken out of it. The walk
that looks for them goes into no nested repository, but what it finds is taken whole: a repository
in a cache, or a cache that is one, goes with it (`not_right_nested`).

**Everything is right if and only if**, where the path is not refused, no cache of the worktree has
a repository in it (`right_iff_noRepositoryInCache`): what is taken is below the worktree, which is
inside the allowed parent, is behind no link and of no nested repository, and what is not in a cache
is in the trash.
-/

namespace WorktreeCleanup

open LinkTree

/-! ## Paths -/

/-- What a link says: a path from the root, or from the directory it is in. -/
structure Target where
  absolute : Bool
  parts : List String

/-- A file system; files have bytes. -/
abbrev Fs := Volume String (List UInt8) Target

abbrev Tree := Node String (List UInt8) Target

/-- The parts of a path are followed from a directory, and each link on the way; the last one is
if that is asked for. A strict walk ends where something is no directory. -/
def walkParts (fs : Fs) (strict last : Bool)
    (again : List String → List String → Option (List String)) :
    List String → List String → Option (List String)
  | done, [] => some done
  | done, part :: parts =>
    if strict && !fs.isDir done then none
    else if part = ".." then walkParts fs strict last again done.dropLast parts
    else match fs.find (done ++ [part]) with
      | some (.link target) =>
        if parts.isEmpty && !last then some (done ++ [part])
        else again (if target.absolute then [] else done) (target.parts ++ parts)
      | _ => walkParts fs strict last again (done ++ [part]) parts

/-- Links are followed up to a number of them. -/
def follow (fs : Fs) (strict last : Bool) : ℕ → List String → List String → Option (List String)
  | 0 => walkParts fs strict last fun _ _ => none
  | limit + 1 => walkParts fs strict last (follow fs strict last limit)

/-- `Path.resolve`, of the parts of a path from the root. -/
def resolve (limit : ℕ) (fs : Fs) (path : List String) : Option (List String) :=
  follow fs false true limit [] path

/-- Where the system finds what a path names, which may be a link or nothing. -/
def locate (limit : ℕ) (fs : Fs) (path : List String) : Option (List String) :=
  follow fs true false limit [] path

def lstat (limit : ℕ) (fs : Fs) (path : List String) : Option Tree :=
  (locate limit fs path).bind fs.find

def isLink : Tree → Bool
  | .link _ => true
  | _ => false

/-- `Path.is_symlink`. -/
def isSymlink (limit : ℕ) (fs : Fs) (path : List String) : Bool := (lstat limit fs path).any isLink

/-- `Path.name`. -/
def name (path : List String) : String := path.getLast?.getD ""

/-! ## The worktree -/

/-- What is asked to be cleaned up, and what it must be. -/
structure Worktree where
  path : List String
  repoPath : List String
  allowedParent : List String
  home : List String
  expectedResidueName : String

/-- `_assert_safe_worktree_cleanup_target`: the resolved path, unless it is refused. -/
def assertSafeWorktreeCleanupTarget (limit : ℕ) (wt : Worktree) (fs : Fs) :
    Option (List String) :=
  if name wt.path ≠ wt.expectedResidueName then none
  else if isSymlink limit fs wt.path then none
  else do
    let resolvedWt ← resolve limit fs wt.path
    let resolvedAllowedParent ← resolve limit fs wt.allowedParent
    let resolvedRepo ← resolve limit fs wt.repoPath
    let home ← resolve limit fs wt.home
    if resolvedWt = [] ∨ resolvedWt = home then none
    else if resolvedWt = resolvedRepo then none
    else if resolvedWt = resolvedAllowedParent ∨ ¬resolvedAllowedParent <+: resolvedWt then none
    else some resolvedWt

def gitMarker : String := ".git"

/-- `_WORKTREE_LOCAL_ARTIFACT_NAMES`. -/
def isArtifactName (name : String) : Bool :=
  name ∈ [".pixi", ".pixi-cache", ".uv-cache", ".venv", ".local", "build"]

/-- A directory with a `.git` in it. -/
def isMarked : Tree → Bool
  | .dir entries => entries.any (·.1 = gitMarker)
  | _ => false

/-- An entry that the walk yields: a directory or a link with the name of a cache. A link to no
directory is not yielded by the code; a link is skipped all the same. -/
def isArtifact (e : String × Tree) : Bool :=
  isArtifactName e.1 && match e.2 with
    | .file _ => false
    | _ => true

mutual

/-- `_iter_local_worktree_artifacts`, from a directory that is walked. -/
def iterLocalWorktreeArtifacts (lists : List String → Bool) (path : List String) :
    Tree → List (List String)
  | .dir entries =>
    if lists path then
      (entries.filter isArtifact).map (path ++ [·.1]) ++ iterBelow lists path entries
    else []
  | _ => []

/-- The directories that the walk goes on to. -/
def iterBelow (lists : List String → Bool) (path : List String) :
    List (String × Tree) → List (List String)
  | [] => []
  | (name, x) :: entries =>
    (if name = gitMarker || isArtifactName name || isMarked x then []
      else iterLocalWorktreeArtifacts lists (path ++ [name]) x)
    ++ iterBelow lists path entries

end

/-- `_remove_local_worktree_artifacts`: it raises where one cannot be removed. -/
def removeLocalWorktreeArtifacts (access : Access String) : Fs → List (List String) → Fs × Bool
  | fs, [] => (fs, true)
  | fs, artifact :: artifacts =>
    if (fs.find artifact).any isLink then removeLocalWorktreeArtifacts access fs artifacts
    else if fs.removed access artifact then
      removeLocalWorktreeArtifacts access (fs.rmtree access artifact) artifacts
    else (fs.rmtree access artifact, false)

/-- `_strip_local_worktree_artifacts_best_effort`: what cannot be removed is left. -/
def stripLocalWorktreeArtifacts (access : Access String) : Fs → List (List String) → Fs
  | fs, [] => fs
  | fs, artifact :: artifacts =>
    if (fs.find artifact).any isLink then stripLocalWorktreeArtifacts access fs artifacts
    else stripLocalWorktreeArtifacts access (fs.rmtree access artifact) artifacts

/-! ## Removal -/

/-- What is not up to the code: what can be listed and removed, at first and behind git, what git
makes of the file system, and whether a move succeeds. -/
structure World where
  access : Access String
  later : Access String
  git : Fs → Bool × Fs
  moves : Bool

/-- A removal: the file system behind the caches, behind git, and at the end, and what is
returned, where it does not raise. -/
structure Removal where
  stripped : Fs
  swept : Fs
  final : Fs
  returned : Option Bool

/-- `_remove_worktree_residue`, and whether it does not raise. -/
def removeWorktreeResidue (limit : ℕ) (wt : Worktree) (access : Access String) (fs : Fs) :
    Fs × Bool :=
  match assertSafeWorktreeCleanupTarget limit wt fs, locate limit fs wt.path with
  | some _, some path =>
    match fs.find path with
    | some (.dir entries) =>
      if (Node.dir entries : Tree).holds access.lists gitMarker path then (fs, false)
      else (fs.rmtree access path, fs.removed access path)
    | _ => (fs, false)
  | _, _ => (fs, false)

/-- `git worktree remove`, and what is left behind it. -/
def removeByGit (limit : ℕ) (wt : Worktree) (world : World) (stripped : Fs) : Removal :=
  let swept := world.git stripped
  if !swept.1 then ⟨stripped, swept.2, swept.2, some false⟩
  else if (lstat limit swept.2 wt.path).isSome then
    let final := removeWorktreeResidue limit wt world.later swept.2
    ⟨stripped, swept.2, final.1, if final.2 then some true else none⟩
  else ⟨stripped, swept.2, swept.2, some true⟩

def gitWorktreeRemove (limit : ℕ) (wt : Worktree) (world : World) (fs : Fs) : Removal :=
  match assertSafeWorktreeCleanupTarget limit wt fs with
  | none => ⟨fs, fs, fs, none⟩
  | some _ =>
    match lstat limit fs wt.path with
    | none => removeByGit limit wt world fs
    | some (.dir entries) =>
      let artifacts := iterLocalWorktreeArtifacts world.access.lists
        ((locate limit fs wt.path).getD []) (.dir entries)
      let stripped := removeLocalWorktreeArtifacts world.access fs artifacts
      if stripped.2 then removeByGit limit wt world stripped.1
      else ⟨stripped.1, stripped.1, stripped.1, none⟩
    | some _ => ⟨fs, fs, fs, none⟩

/-! ## Quarantine -/

/-- A quarantine: the file system behind the caches, and at the end, and the path in the trash
that is returned, where it does not raise. -/
structure Quarantine where
  stripped : Fs
  final : Fs
  returned : Option (List String)

/-- The name in the trash, unless both are taken. -/
def destination (made : Fs) (trash : List String) (wtName threadId : String) : Option String :=
  if (made.entry (trash ++ [wtName])).isNone then some wtName
  else if (made.entry (trash ++ [wtName ++ "-" ++ threadId])).isNone then
    some (wtName ++ "-" ++ threadId)
  else none

/-- The caches of what is at the path are taken out. -/
def strip (limit : ℕ) (wt : Worktree) (access : Access String) (fs : Fs) : Fs :=
  match locate limit fs wt.path with
  | some path => match fs.find path with
    | some x =>
      stripLocalWorktreeArtifacts access fs (iterLocalWorktreeArtifacts access.lists path x)
    | none => fs
  | none => fs

/-- `git_quarantine_worktree`; the trash directory is resolved. -/
def gitQuarantineWorktree (limit : ℕ) (wt : Worktree) (world : World) (trash : List String)
    (threadId : String) (fs : Fs) : Quarantine :=
  match assertSafeWorktreeCleanupTarget limit wt fs with
  | none => ⟨fs, fs, none⟩
  | some _ =>
    let stripped := strip limit wt world.access fs
    match stripped.mkdirs trash with
    | none => ⟨stripped, stripped, none⟩
    | some made =>
      match destination made trash (name wt.path) threadId, locate limit made wt.path with
      | some dest, some path =>
        match if world.moves then made.rename path trash dest else none with
        | some final => ⟨stripped, final, some (trash ++ [dest])⟩
        | none => ⟨stripped, made, none⟩
      | _, _ => ⟨stripped, made, none⟩

/-! ## What is to hold -/

/-- A path is in a repository or worktree that is nested in one. -/
def Nested (fs : Fs) (worktree path : List String) : Prop :=
  ∃ repo, repo ≠ [] ∧ worktree ++ repo <+: path
    ∧ (fs.entry (worktree ++ repo ++ [gitMarker])).isSome = true

def Taken (fs fs' : Fs) (path : List String) : Prop := fs.entry path ≠ none ∧ fs'.entry path = none

def Within (fs fs' : Fs) : Prop :=
  ∀ path kind, fs'.entry path = some kind → fs.entry path = some kind

/-- A path is at or below the resolved worktree, which is inside the allowed parent, and in no
nested repository. -/
def Own (limit : ℕ) (wt : Worktree) (fs : Fs) (path : List String) : Prop :=
  ∃ worktree parent, resolve limit fs wt.path = some worktree
    ∧ resolve limit fs wt.allowedParent = some parent ∧ parent <+: worktree ∧ worktree ≠ parent
    ∧ worktree <+: path ∧ ¬Nested fs worktree path

/-- **A removal is right**: it takes what is the worktree's own only, and the worktree itself
behind git only. -/
structure Removal.Right (limit : ℕ) (wt : Worktree) (world : World) (fs : Fs) (r : Removal) :
    Prop where
  stripped_within : Within fs r.stripped
  stripped : ∀ path, Taken fs r.stripped path →
    Own limit wt fs path ∧ resolve limit fs wt.path ≠ some path
  final_within : Within r.swept r.final
  final : ∀ path, Taken r.swept r.final path →
    Own limit wt r.swept path ∧ (world.git r.stripped).1 = true

/-- A directory of a worktree that has the name of a cache: none of those that it is in below the
worktree is a cache, the `.git` or a repository. -/
def IsCache (fs : Fs) (worktree path : List String) : Prop :=
  ∃ rest cache, path = worktree ++ rest ++ [cache] ∧ isArtifactName cache = true
    ∧ fs.entry path = some .dir
    ∧ ∀ upper name, upper ++ [name] <+: rest → name ≠ gitMarker ∧ isArtifactName name = false
      ∧ fs.entry (worktree ++ upper ++ [name] ++ [gitMarker]) = none

/-- **A quarantine is right**: it takes what is the worktree's own only; what is not in a cache is
in the trash where that is returned, and the rest stays. -/
structure Quarantine.Right (limit : ℕ) (wt : Worktree) (fs : Fs) (q : Quarantine) : Prop where
  stripped_within : Within fs q.stripped
  stripped : ∀ path, Taken fs q.stripped path →
    Own limit wt fs path ∧ resolve limit fs wt.path ≠ some path
  moved : ∀ dest worktree, q.returned = some dest → locate limit fs wt.path = some worktree →
    ∀ rest kind, fs.entry (worktree ++ rest) = some kind →
      (∀ cache, IsCache fs worktree cache → ¬cache <+: worktree ++ rest) →
        q.final.entry (dest ++ rest) = some kind
  stays : ∀ worktree, locate limit fs wt.path = some worktree → ∀ path kind,
    q.stripped.entry path = some kind → ¬worktree <+: path → q.final.entry path = some kind
  failed : q.returned = none → ∀ path kind, q.stripped.entry path = some kind →
    q.final.entry path = some kind

/-- **What is to hold**, whatever the world does; the trash is not in the worktree. -/
def Right (limit : ℕ) (wt : Worktree) (fs : Fs) : Prop :=
  ∀ world : World, (gitWorktreeRemove limit wt world fs).Right limit wt world fs
    ∧ ∀ trash threadId, (∀ worktree, resolve limit fs wt.path = some worktree →
      ¬worktree <+: trash) →
        (gitQuarantineWorktree limit wt world trash threadId fs).Right limit wt fs

/-! ## Paths that lead somewhere -/

section Paths

variable {fs made : Fs} {limit : ℕ} {path : List String}

theorem walkParts_of_strict {again again' : List String → List String → Option (List String)}
    (hagain : ∀ done parts, again done parts = some path →
      (∀ x ∈ fs.find path, isLink x = false) → again' done parts = some path)
    {done parts : List String} (h : walkParts fs true false again done parts = some path)
    (hlink : ∀ x ∈ fs.find path, isLink x = false) :
    walkParts fs false true again' done parts = some path := by
  induction parts generalizing done with
  | nil => exact h
  | cons part parts ih =>
    unfold walkParts at h ⊢
    rw [Bool.false_and, if_neg Bool.false_ne_true]
    split at h
    · cases h
    · split at h
      · next hup =>
        rw [if_pos hup]
        exact ih h
      · next hup =>
        rw [if_neg hup]
        split at h
        · next target htarget =>
          rw [Bool.not_true, Bool.and_false]
          split at h
          · cases h
            cases hlink _ htarget
          · exact hagain _ _ h hlink
        · exact ih h

theorem follow_of_strict {done parts : List String}
    (h : follow fs true false limit done parts = some path)
    (hlink : ∀ x ∈ fs.find path, isLink x = false) :
    follow fs false true limit done parts = some path := by
  induction limit generalizing done parts with
  | zero =>
    refine walkParts_of_strict (fun _ _ h => ?_) h hlink
    cases h
  | succ limit ih => exact walkParts_of_strict (fun _ _ h hlink => ih h) h hlink

/-- **What is no link is found at its resolved path.** -/
theorem resolve_of_locate {text : List String} (h : locate limit fs text = some path)
    (hlink : isSymlink limit fs text = false) : resolve limit fs text = some path := by
  refine follow_of_strict h fun x hx => ?_
  unfold isSymlink lstat at hlink
  rw [h, Option.bind_some, show fs.find path = some x from hx] at hlink
  exact hlink

theorem entry_of_link {target : Target} (h : fs.find path = some (.link target)) :
    fs.entry path = some (.link target) := by
  show (fs.find path).map Node.kind = _
  rw [h]
  rfl

theorem isSome_of_walkParts {again : List String → List String → Option (List String)}
    {found done parts : List String} (h : walkParts made true false again done parts = some found)
    (hfound : (made.find found).isSome = true) : (made.find done).isSome = true := by
  cases parts with
  | nil =>
    cases h
    exact hfound
  | cons part parts =>
    unfold walkParts at h
    split at h
    · cases h
    · next hdir =>
      have hdir : made.isDir done = true := by
        cases hd : made.isDir done with
        | true => rfl
        | false => exact absurd (by rw [hd]; rfl) hdir
      have hentry : ((made.find done).map Node.kind).isSome = true :=
        Option.isSome_of_eq_some (Volume.isDir_iff.mp hdir)
      rwa [Option.isSome_map] at hentry

/-- **The same is found where directories were made and entries taken**, unless what was taken
was made again. -/
theorem walkParts_stable {again again' : List String → List String → Option (List String)}
    {found : List String}
    (hsame : ∀ path kind kind', fs.entry path = some kind → made.entry path = some kind' →
      kind = kind')
    (hmade : ∀ path, fs.entry path = none → ∀ kind ∈ made.entry path, kind = .dir)
    (hfound : (made.find found).isSome = true)
    (hagain : ∀ done parts, again done parts = some path → again' done parts = some found →
      found = path)
    {done parts : List String} (h : walkParts fs true false again done parts = some path)
    (h' : walkParts made true false again' done parts = some found) : found = path := by
  induction parts generalizing done with
  | nil =>
    cases h
    cases h'
    rfl
  | cons part parts ih =>
    unfold walkParts at h h'
    split at h
    · cases h
    split at h'
    · cases h'
    split at h
    · next hup =>
      rw [if_pos hup] at h'
      exact ih h h'
    · next hup =>
      rw [if_neg hup] at h'
      split at h
      · next target htarget =>
        split at h'
        · next target' htarget' =>
          cases hsame _ _ _ (entry_of_link htarget) (entry_of_link htarget')
          split at h
          · next hlast =>
            rw [if_pos hlast] at h'
            cases h
            cases h'
            rfl
          · next hlast =>
            rw [if_neg hlast] at h'
            exact hagain _ _ h h'
        · next hother =>
          -- the link was taken, so nothing is found there
          obtain ⟨x, hx⟩ := Option.isSome_iff_exists.mp (isSome_of_walkParts h' hfound)
          have hkind : made.entry (done ++ [part]) = some x.kind := by
            show (made.find _).map Node.kind = _
            rw [hx]
            rfl
          cases x with
          | link target' => exact absurd hx (hother target')
          | file content => cases hsame _ _ _ (entry_of_link htarget) hkind
          | dir entries => cases hsame _ _ _ (entry_of_link htarget) hkind
      · next hother =>
        split at h'
        · next target' htarget' =>
          cases hentry : fs.entry (done ++ [part]) with
          | none => cases hmade _ hentry _ (entry_of_link htarget')
          | some kind =>
            cases hsame _ _ _ hentry (entry_of_link htarget')
            obtain ⟨x, hx, hkind⟩ := Option.map_eq_some_iff.mp hentry
            cases x with
            | link target => exact absurd hx (hother target)
            | file content => cases hkind
            | dir entries => cases hkind
        · exact ih h h'

theorem locate_stable {text found : List String}
    (hsame : ∀ path kind kind', fs.entry path = some kind → made.entry path = some kind' →
      kind = kind')
    (hmade : ∀ path, fs.entry path = none → ∀ kind ∈ made.entry path, kind = .dir)
    (hfound : (made.find found).isSome = true) (h : locate limit fs text = some path)
    (h' : locate limit made text = some found) : found = path := by
  unfold locate at h h'
  generalize [] = done at h h'
  induction limit generalizing done text with
  | zero =>
    refine walkParts_stable hsame hmade hfound (fun _ _ h => ?_) h h'
    cases h
  | succ limit ih => exact walkParts_stable hsame hmade hfound (fun _ _ h h' => ih _ h h') h h'

end Paths

/-! ## The path check -/

/-- **A path that is not refused** resolves to a path below the allowed parent, and names no
link. -/
theorem of_assertSafe {limit : ℕ} {wt : Worktree} {fs : Fs} {worktree : List String}
    (h : assertSafeWorktreeCleanupTarget limit wt fs = some worktree) :
    resolve limit fs wt.path = some worktree ∧ worktree ≠ []
      ∧ isSymlink limit fs wt.path = false
      ∧ ∃ parent, resolve limit fs wt.allowedParent = some parent ∧ parent <+: worktree
        ∧ worktree ≠ parent := by
  unfold assertSafeWorktreeCleanupTarget at h
  split at h
  · cases h
  split at h
  · cases h
  next hlink =>
  simp only [Option.bind_eq_bind, Option.bind_eq_some_iff] at h
  obtain ⟨resolved, hresolved, parent, hparent, repo, -, home, -, h⟩ := h
  split_ifs at h with hroot hrepo hinside
  cases h
  rw [not_or] at hroot
  simp only [not_or, not_not] at hinside
  exact ⟨hresolved, hroot.1, Bool.eq_false_iff.mpr hlink, parent, hparent, hinside.2, hinside.1⟩

/-! ## The walk -/

/-- The walk goes to a path below a directory. -/
def Reached (x : Tree) (rest : List String) : Prop :=
  ∀ upper name, upper ++ [name] <+: rest → name ≠ gitMarker ∧ isArtifactName name = false
    ∧ x.entry (upper ++ [name] ++ [gitMarker]) = none

/-- An entry with the name of a cache, at a path that the walk goes to. -/
def Yielded (x : Tree) (rest : List String) (cache : String) : Prop :=
  isArtifactName cache = true ∧ Reached x rest
    ∧ ∃ kind, x.entry (rest ++ [cache]) = some kind ∧ ∀ content, kind ≠ .file content

theorem isMarked_eq_false_iff {x : Tree} :
    isMarked x = false ↔ x.entry [gitMarker] = none := by
  cases x with
  | file content => exact ⟨fun _ => rfl, fun _ => rfl⟩
  | link target => exact ⟨fun _ => rfl, fun _ => rfl⟩
  | dir entries =>
    rw [isMarked, List.any_eq_false, Node.entry_dir]
    refine ⟨fun h => ?_, fun h e he heq => ?_⟩
    · rw [lookup_eq_none_of_not_mem, Option.bind_none]
      intro hmem
      obtain ⟨e, he, heq⟩ := List.mem_map.mp hmem
      exact h e he (decide_eq_true heq)
    · cases hlookup : entries.lookup gitMarker with
      | none => exact not_mem_of_lookup hlookup (of_decide_eq_true heq ▸ List.mem_map_of_mem he)
      | some y =>
        rw [hlookup, Option.bind_some, Node.entry_nil] at h
        cases h

theorem reached_cons {entries : List (String × Tree)} {name : String} {rest : List String}
    {x : Tree} (hx : entries.lookup name = some x) :
    Reached (.dir entries) (name :: rest) ↔ name ≠ gitMarker ∧ isArtifactName name = false
      ∧ isMarked x = false ∧ Reached x rest := by
  constructor
  · intro h
    obtain ⟨hgit, hcache, hmark⟩ := h [] name (List.cons_prefix_cons.mpr ⟨rfl, List.nil_prefix⟩)
    rw [List.nil_append, List.cons_append, Node.entry_dir, hx] at hmark
    refine ⟨hgit, hcache, isMarked_eq_false_iff.mpr hmark, fun upper other hupper => ?_⟩
    obtain ⟨hgit', hcache', hmark'⟩ :=
      h (name :: upper) other (List.cons_prefix_cons.mpr ⟨rfl, hupper⟩)
    rw [List.cons_append, List.cons_append, Node.entry_dir, hx] at hmark'
    exact ⟨hgit', hcache', hmark'⟩
  · rintro ⟨hgit, hcache, hmark, hbelow⟩ upper other hupper
    cases upper with
    | nil =>
      obtain ⟨rfl, -⟩ := List.cons_prefix_cons.mp hupper
      refine ⟨hgit, hcache, ?_⟩
      rw [List.nil_append, List.cons_append, Node.entry_dir, hx]
      exact isMarked_eq_false_iff.mp hmark
    | cons first upper =>
      obtain ⟨rfl, hrest⟩ := List.cons_prefix_cons.mp hupper
      rw [List.cons_append, List.cons_append, Node.entry_dir, hx]
      exact hbelow upper other hrest

theorem iterBelow_eq_flatMap (lists : List String → Bool) (path : List String)
    (entries : List (String × Tree)) :
    iterBelow lists path entries = entries.flatMap fun e =>
      if e.1 = gitMarker || isArtifactName e.1 || isMarked e.2 then []
      else iterLocalWorktreeArtifacts lists (path ++ [e.1]) e.2 := by
  induction entries with
  | nil =>
    unfold iterBelow
    rfl
  | cons entry entries ih =>
    unfold iterBelow
    rw [ih, List.flatMap_cons]

/-- **What the walk yields** has the name of a cache, and is at a path that it goes to. -/
theorem yielded_of_mem {lists : List String → Bool} {x : Tree} {path artifact : List String}
    (hx : x.Distinct) (h : artifact ∈ iterLocalWorktreeArtifacts lists path x) :
    ∃ rest cache, artifact = path ++ (rest ++ [cache]) ∧ Yielded x rest cache := by
  induction hsize : sizeOf x using Nat.strongRecOn generalizing x path with
  | ind size ih =>
    cases x with
    | file content =>
      unfold iterLocalWorktreeArtifacts at h
      cases h
    | link target =>
      unfold iterLocalWorktreeArtifacts at h
      cases h
    | dir entries =>
      obtain ⟨hnodup, hbelow⟩ := Node.distinct_dir.mp hx
      unfold iterLocalWorktreeArtifacts at h
      split at h
      · rcases List.mem_append.mp h with h | h
        · -- it is in the directory itself
          obtain ⟨⟨cache, y⟩, he, rfl⟩ := List.mem_map.mp h
          obtain ⟨he, hartifact⟩ := List.mem_filter.mp he
          obtain ⟨hcache, hkind⟩ := Bool.and_eq_true_iff.mp hartifact
          refine ⟨[], cache, rfl, hcache, fun upper name hupper => ?_, y.kind, ?_, ?_⟩
          · exact absurd (List.prefix_nil.mp hupper) (List.append_ne_nil_of_right_ne_nil _
              (List.cons_ne_nil _ _))
          · rw [List.nil_append, Node.entry_dir, lookup_of_mem hnodup he, Option.bind_some,
              Node.entry_nil]
          · rintro content heq
            cases y with
            | file content' => cases hkind
            | link target => cases heq
            | dir entries => cases heq
        · -- or in one that the walk goes on to
          rw [iterBelow_eq_flatMap] at h
          obtain ⟨⟨name, y⟩, he, h⟩ := List.mem_flatMap.mp h
          have hlt : sizeOf y < size := by
            have hmem := List.sizeOf_lt_of_mem he
            simp only [Prod.mk.sizeOf_spec, Node.dir.sizeOf_spec] at hmem hsize
            omega
          split at h
          · cases h
          · next hon =>
            simp only [Bool.or_eq_true, decide_eq_true_eq, not_or, Bool.not_eq_true] at hon
            obtain ⟨rest, cache, rfl, hcache, hreached, kind, hkind, hfile⟩ :=
              ih _ hlt (hbelow _ he) h rfl
            have hlookup := lookup_of_mem hnodup he
            refine ⟨name :: rest, cache, ?_, hcache,
              (reached_cons hlookup).mpr ⟨hon.1.1, hon.1.2, hon.2, hreached⟩, kind, ?_, hfile⟩
            · simp only [List.append_assoc, List.cons_append, List.nil_append]
            · rw [List.cons_append, Node.entry_dir, hlookup]
              exact hkind
      · cases h

/-- **The walk yields them all**, where every directory can be listed. -/
theorem mem_of_yielded {lists : List String → Bool} (hlists : ∀ path, lists path = true)
    {x : Tree} {path rest : List String} {cache : String} (h : Yielded x rest cache) :
    path ++ (rest ++ [cache]) ∈ iterLocalWorktreeArtifacts lists path x := by
  obtain ⟨hcache, hreached, kind, hkind, hfile⟩ := h
  induction rest generalizing x path with
  | nil =>
    cases x with
    | file content => cases hkind
    | link target => cases hkind
    | dir entries =>
      rw [List.nil_append, Node.entry_dir] at hkind
      obtain ⟨y, hy, hkind⟩ := Option.bind_eq_some_iff.mp hkind
      rw [Node.entry_nil] at hkind
      cases hkind
      unfold iterLocalWorktreeArtifacts
      rw [if_pos (hlists path)]
      refine List.mem_append_left _ (List.mem_map.mpr ⟨(cache, y), List.mem_filter.mpr
        ⟨mem_of_lookup hy, ?_⟩, rfl⟩)
      refine Bool.and_eq_true_iff.mpr ⟨hcache, ?_⟩
      cases y with
      | file content => exact absurd rfl (hfile content)
      | link target => rfl
      | dir entries => rfl
  | cons name rest ih =>
    cases x with
    | file content => cases hkind
    | link target => cases hkind
    | dir entries =>
      rw [List.cons_append, Node.entry_dir] at hkind
      obtain ⟨y, hy, hkind⟩ := Option.bind_eq_some_iff.mp hkind
      obtain ⟨hgit, hname, hmark, hreached⟩ := (reached_cons hy).mp hreached
      have hbelow : path ++ [name] ++ (rest ++ [cache]) ∈
          iterLocalWorktreeArtifacts lists (path ++ [name]) y := ih hreached hkind
      unfold iterLocalWorktreeArtifacts
      rw [if_pos (hlists path), iterBelow_eq_flatMap]
      refine List.mem_append_right _ (List.mem_flatMap.mpr ⟨(name, y), mem_of_lookup hy, ?_⟩)
      rw [if_neg (by simp only [hgit, hname, hmark, decide_false, Bool.or_self]; decide)]
      rwa [List.append_assoc, List.singleton_append, ← List.cons_append] at hbelow

/-! ## The caches are taken -/

/-- **What a pass over artifacts takes**: each is below one of them that is no link. -/
structure Cleared (fs fs' : Fs) (artifacts : List (List String)) : Prop where
  within : Within fs fs'
  taken : ∀ path, Taken fs fs' path → ∃ artifact ∈ artifacts, artifact <+: path
    ∧ ∃ kind, fs.entry artifact = some kind ∧ ∀ target, kind ≠ .link target

section Cleared

variable {fs fs' : Fs} {access : Access String} {artifact : List String}
  {artifacts : List (List String)}

theorem Within.refl (fs : Fs) : Within fs fs := fun _ _ h => h

theorem not_taken_self {path : List String} : ¬Taken fs fs path := fun h => h.1 h.2

theorem taken_of_entry {path : List String} {kind : Kind (List UInt8) Target}
    (h : fs.entry path = some kind) (h' : fs'.entry path = none) : Taken fs fs' path :=
  ⟨fun hnone => Option.some_ne_none kind (h.symm.trans hnone), h'⟩

theorem Cleared.refl (fs : Fs) (artifacts : List (List String)) : Cleared fs fs artifacts where
  within := .refl fs
  taken _ h := absurd h not_taken_self

theorem Cleared.skip (h : Cleared fs fs' artifacts) : Cleared fs fs' (artifact :: artifacts) where
  within := h.within
  taken path htaken := by
    obtain ⟨other, hmem, hother⟩ := h.taken path htaken
    exact ⟨other, List.mem_cons_of_mem _ hmem, hother⟩

theorem Cleared.take (hne : artifact ≠ []) (hlink : ¬(fs.find artifact).any isLink = true)
    (h : Cleared (fs.rmtree access artifact) fs' artifacts) :
    Cleared fs fs' (artifact :: artifacts) where
  within path kind hkind := Volume.entry_of_rmtree hne (h.within path kind hkind)
  taken path htaken := by
    obtain ⟨hthere, hgone⟩ := htaken
    by_cases hfirst : (fs.rmtree access artifact).entry path = none
    · have hpre : artifact <+: path := by
        by_contra hpre
        rw [Volume.entry_rmtree_of_outside fs access hpre] at hfirst
        exact hthere hfirst
      refine ⟨artifact, List.mem_cons_self, hpre, ?_⟩
      obtain ⟨rest, rfl⟩ := hpre
      obtain ⟨y, hy⟩ := Volume.find_of_entry (Option.isSome_iff_ne_none.mpr hthere)
      obtain ⟨x, hx, -⟩ := Option.bind_eq_some_iff.mp ((Node.find_append _ _ _).symm.trans hy)
      refine ⟨x.kind, congrArg (Option.map Node.kind) hx, fun target heq => hlink ?_⟩
      rw [show fs.find artifact = some x from hx]
      cases x with
      | link target => rfl
      | file content => cases heq
      | dir entries => cases heq
    · obtain ⟨other, hmem, hpre, kind, hkind, hother⟩ := h.taken path ⟨hfirst, hgone⟩
      exact ⟨other, List.mem_cons_of_mem _ hmem, hpre, kind, Volume.entry_of_rmtree hne hkind,
        hother⟩

theorem cleared_remove (access : Access String) (fs : Fs)
    (hne : ∀ artifact ∈ artifacts, artifact ≠ []) :
    Cleared fs (removeLocalWorktreeArtifacts access fs artifacts).1 artifacts := by
  induction artifacts generalizing fs with
  | nil => exact .refl fs []
  | cons artifact artifacts ih =>
    obtain ⟨hfirst, hrest⟩ := List.forall_mem_cons.mp hne
    unfold removeLocalWorktreeArtifacts
    split
    · exact (ih fs hrest).skip
    · next hlink =>
      split
      · exact .take hfirst hlink (ih _ hrest)
      · exact .take hfirst hlink (.refl _ _)

theorem cleared_strip (access : Access String) (fs : Fs)
    (hne : ∀ artifact ∈ artifacts, artifact ≠ []) :
    Cleared fs (stripLocalWorktreeArtifacts access fs artifacts) artifacts := by
  induction artifacts generalizing fs with
  | nil => exact .refl fs []
  | cons artifact artifacts ih =>
    obtain ⟨hfirst, hrest⟩ := List.forall_mem_cons.mp hne
    unfold stripLocalWorktreeArtifacts
    split
    · exact (ih fs hrest).skip
    · next hlink => exact .take hfirst hlink (ih _ hrest)

theorem Within.entry_eq_none (h : Within fs fs') {path : List String}
    (hnone : fs.entry path = none) : fs'.entry path = none := by
  cases hkind : fs'.entry path with
  | none => rfl
  | some kind => cases hnone.symm.trans (h path kind hkind)

theorem entry_append_eq_none {path : List String} (h : fs.entry path = none)
    (rest : List String) : fs.entry (path ++ rest) = none := by
  cases rest with
  | nil => rwa [List.append_nil]
  | cons first rest =>
    cases hkind : fs.entry (path ++ first :: rest) with
    | none => rfl
    | some kind =>
      cases h.symm.trans
        (Volume.entry_of_append (List.cons_ne_nil _ _) (Option.isSome_of_eq_some hkind))

/-- **Every artifact is gone**, where nothing is in the way. -/
theorem strip_gone (hlists : ∀ path, access.lists path = true)
    (hremoves : ∀ path, access.removes path = true)
    (hne : ∀ artifact ∈ artifacts, artifact ≠ []) (hmem : artifact ∈ artifacts)
    (hdir : fs.entry artifact = some .dir) (rest : List String) :
    (stripLocalWorktreeArtifacts access fs artifacts).entry (artifact ++ rest) = none := by
  induction artifacts generalizing fs with
  | nil => cases hmem
  | cons first artifacts ih =>
    obtain ⟨hfirst, hrest⟩ := List.forall_mem_cons.mp hne
    unfold stripLocalWorktreeArtifacts
    rcases List.mem_cons.mp hmem with rfl | hmem
    · have hlink : ¬(fs.find artifact).any isLink = true := by
        obtain ⟨x, hx, hkind⟩ := Option.map_eq_some_iff.mp hdir
        rw [show fs.find artifact = some x from hx]
        cases x with
        | dir entries => exact Bool.false_ne_true
        | link target => cases hkind
        | file content => cases hkind
      rw [if_neg hlink]
      exact (cleared_strip access _ hrest).within.entry_eq_none (Volume.entry_of_removed hfirst
        (Volume.removed_of_free hlists hremoves (Option.isSome_of_eq_some hdir)) rest)
    · split
      · exact ih hrest hmem hdir
      · cases hkind : (fs.rmtree access first).entry artifact with
        | none =>
          exact (cleared_strip access _ hrest).within.entry_eq_none
            (entry_append_eq_none hkind rest)
        | some kind =>
          cases hdir.symm.trans (Volume.entry_of_rmtree hfirst hkind)
          exact ih hrest hmem hkind

end Cleared

/-! ## What is taken is the worktree's own -/

section Own

variable {limit : ℕ} {wt : Worktree} {fs fs' : Fs} {worktree : List String} {x : Tree}
  {lists : List String → Bool}

def NoRepositoryInCache (fs : Fs) (worktree : List String) : Prop :=
  ∀ cache rest, IsCache fs worktree cache → fs.entry (cache ++ rest ++ [gitMarker]) = none

theorem isCache_of_yielded (hx : fs.find worktree = some x) {rest : List String} {cache : String}
    (h : Yielded x rest cache)
    (hlink : ∀ kind, fs.entry (worktree ++ (rest ++ [cache])) = some kind →
      ∀ target, kind ≠ .link target) :
    IsCache fs worktree (worktree ++ (rest ++ [cache])) := by
  obtain ⟨hcache, hreached, kind, hkind, hfile⟩ := h
  have hentry : fs.entry (worktree ++ (rest ++ [cache])) = some kind := by
    rw [Volume.entry_find hx]
    exact hkind
  refine ⟨rest, cache, (List.append_assoc _ _ _).symm, hcache, ?_, fun upper name hupper => ?_⟩
  · cases kind with
    | dir => exact hentry
    | file content => exact absurd rfl (hfile content)
    | link target => exact absurd rfl (hlink _ hentry target)
  · obtain ⟨hgit, hname, hmark⟩ := hreached upper name hupper
    refine ⟨hgit, hname, ?_⟩
    rw [← Volume.entry_find hx] at hmark
    simpa only [List.append_assoc] using hmark

theorem yielded_of_isCache (hx : fs.find worktree = some x) {path : List String}
    (h : IsCache fs worktree path) :
    ∃ rest cache, path = worktree ++ (rest ++ [cache]) ∧ Yielded x rest cache := by
  obtain ⟨rest, cache, rfl, hcache, hdir, hreached⟩ := h
  refine ⟨rest, cache, List.append_assoc _ _ _, hcache, fun upper name hupper => ?_, .dir, ?_,
    fun content heq => nomatch heq⟩
  · obtain ⟨hgit, hname, hmark⟩ := hreached upper name hupper
    refine ⟨hgit, hname, ?_⟩
    rw [← Volume.entry_find hx]
    simpa only [List.append_assoc] using hmark
  · rw [← Volume.entry_find hx, ← List.append_assoc]
    exact hdir

/-- **What is below a cache is in no nested repository**, where none is in a cache: the walk goes
into none. -/
theorem not_nested_of_cache (hclear : NoRepositoryInCache fs worktree) {cache path : List String}
    (hcache : IsCache fs worktree cache) (hpre : cache <+: path) : ¬Nested fs worktree path := by
  rintro ⟨repo, hne, hrepo, hmark⟩
  rcases List.prefix_or_prefix_of_prefix hpre hrepo with ⟨rest, hbelow⟩ | habove
  · -- the repository is in the cache
    rw [← hbelow, hclear cache rest hcache] at hmark
    cases hmark
  · -- the cache is in the repository
    obtain ⟨rest, last, rfl, -, -, hreached⟩ := id hcache
    rw [List.append_assoc, List.prefix_append_right_inj] at habove
    rcases List.prefix_concat_iff.mp habove with heq | habove
    · subst heq
      have hnone := hclear _ [] hcache
      rw [List.append_nil] at hnone
      rw [← List.append_assoc, hnone] at hmark
      cases hmark
    · obtain ⟨upper, name, rfl⟩ : ∃ upper name, repo = upper ++ [name] :=
        ⟨repo.dropLast, repo.getLast hne, (List.dropLast_append_getLast hne).symm⟩
      obtain ⟨-, -, hnone⟩ := hreached upper name habove
      rw [← List.append_assoc, hnone] at hmark
      cases hmark

theorem isCache_of_mem (hx : fs.find worktree = some x) {artifact : List String}
    (hmem : artifact ∈ iterLocalWorktreeArtifacts lists worktree x)
    (hlink : ∃ kind, fs.entry artifact = some kind ∧ ∀ target, kind ≠ .link target) :
    IsCache fs worktree artifact := by
  obtain ⟨rest, cache, rfl, hyielded⟩ :=
    yielded_of_mem (Node.distinct_of_find fs.distinct hx) hmem
  obtain ⟨kind, hkind, hlink⟩ := hlink
  refine isCache_of_yielded hx hyielded fun kind' hkind' => ?_
  cases hkind.symm.trans hkind'
  exact hlink

/-- **What is taken with the caches is the worktree's own**, and below it. -/
theorem own_of_cleared (hsafe : assertSafeWorktreeCleanupTarget limit wt fs = some worktree)
    (hx : fs.find worktree = some x) (hclear : NoRepositoryInCache fs worktree)
    (h : Cleared fs fs' (iterLocalWorktreeArtifacts lists worktree x)) {path : List String}
    (htaken : Taken fs fs' path) : Own limit wt fs path ∧ resolve limit fs wt.path ≠ some path := by
  obtain ⟨hresolve, hne, -, parent, hparent, hinside, hbelow⟩ := of_assertSafe hsafe
  obtain ⟨artifact, hmem, hpre, hlink⟩ := h.taken path htaken
  have hcache := isCache_of_mem hx hmem hlink
  obtain ⟨rest, cache, rfl, -⟩ := yielded_of_mem (Node.distinct_of_find fs.distinct hx) hmem
  refine ⟨⟨worktree, parent, hresolve, hparent, hinside, hbelow,
    (List.prefix_append _ _).trans hpre, not_nested_of_cache hclear hcache hpre⟩, ?_⟩
  rw [hresolve]
  rintro heq
  obtain ⟨more, hmore⟩ := hpre
  have hlen := congrArg List.length (hmore.trans (Option.some.inj heq).symm)
  simp only [List.length_append, List.length_cons] at hlen
  omega

theorem ne_nil_of_mem_iter (lists : List String → Bool) (worktree : List String)
    (hx : x.Distinct) {artifact : List String}
    (h : artifact ∈ iterLocalWorktreeArtifacts lists worktree x) : artifact ≠ [] := by
  obtain ⟨rest, cache, rfl, -⟩ := yielded_of_mem hx h
  exact List.append_ne_nil_of_right_ne_nil _ (List.append_ne_nil_of_right_ne_nil _
    (List.cons_ne_nil _ _))

end Own

/-! ## Removal and quarantine are right -/

section Right

variable {limit : ℕ} {wt : Worktree} {fs : Fs} {worktree : List String}

theorem located (hsafe : assertSafeWorktreeCleanupTarget limit wt fs = some worktree)
    {path : List String} (h : locate limit fs wt.path = some path) : path = worktree := by
  obtain ⟨hresolve, -, hlink, -⟩ := of_assertSafe hsafe
  exact Option.some.inj ((resolve_of_locate h hlink).symm.trans hresolve)

/-- **What is left behind git** is the worktree's own, and no repository is in it. -/
theorem residue_right (limit : ℕ) (wt : Worktree) (access : Access String) (fs : Fs) :
    Within fs (removeWorktreeResidue limit wt access fs).1
      ∧ ∀ path, Taken fs (removeWorktreeResidue limit wt access fs).1 path →
        Own limit wt fs path := by
  unfold removeWorktreeResidue
  split
  · next worktree at' hsafe hlocate =>
    cases located hsafe hlocate
    obtain ⟨hresolve, hne, -, parent, hparent, hinside, hbelow⟩ := of_assertSafe hsafe
    split
    · next entries hentries =>
      split
      · exact ⟨.refl fs, fun _ h => absurd h not_taken_self⟩
      · next hmark =>
        refine ⟨fun path kind hkind => Volume.entry_of_rmtree hne hkind,
          fun path htaken => ?_⟩
        obtain ⟨hthere, hgone⟩ := htaken
        have hpre : worktree <+: path := by
          by_contra hpre
          rw [Volume.entry_rmtree_of_outside fs access hpre] at hgone
          exact hthere hgone
        refine ⟨worktree, parent, hresolve, hparent, hinside, hbelow, hpre, ?_⟩
        rintro ⟨repo, -, hrepo, hgit⟩
        obtain ⟨rest, rfl⟩ := hpre
        rw [List.prefix_append_right_inj] at hrepo
        -- the repository was got to, so its mark was seen
        have hdir : ∀ upper, upper <+: repo → fs.entry (worktree ++ upper) = some .dir := by
          rintro upper ⟨lower, rfl⟩
          rw [← List.append_assoc, List.append_assoc] at hgit
          exact Volume.entry_of_append (List.append_ne_nil_of_right_ne_nil _
            (List.cons_ne_nil _ _)) hgit
        have hrepoDir := hdir repo (List.prefix_refl _)
        rw [Volume.entry_find hentries] at hrepoDir
        have hnone := Node.entry_of_not_holds (Bool.eq_false_iff.mpr hmark) hrepoDir
          fun upper hupper => Volume.lists_of_rmtree hne (Option.isSome_iff_ne_none.mpr hthere)
            hgone (hupper.trans hrepo) (hdir upper hupper)
        rw [← Volume.entry_find hentries, ← List.append_assoc] at hnone
        rw [hnone] at hgit
        cases hgit
    · exact ⟨.refl fs, fun _ h => absurd h not_taken_self⟩
  · exact ⟨.refl fs, fun _ h => absurd h not_taken_self⟩

theorem Removal.right_of_eq {world : World} (returned : Option Bool) :
    Removal.Right limit wt world fs ⟨fs, fs, fs, returned⟩ where
  stripped_within := .refl fs
  stripped _ h := absurd h not_taken_self
  final_within := .refl fs
  final _ h := absurd h not_taken_self

theorem removeByGit_right {world : World} {stripped : Fs} (hwithin : Within fs stripped)
    (hown : ∀ path, Taken fs stripped path →
      Own limit wt fs path ∧ resolve limit fs wt.path ≠ some path) :
    (removeByGit limit wt world stripped).Right limit wt world fs := by
  unfold removeByGit
  dsimp only
  split
  · exact ⟨hwithin, hown, .refl _, fun _ h => absurd h not_taken_self⟩
  · next hgit =>
    split
    · obtain ⟨hresidue, htaken⟩ := residue_right limit wt world.later (world.git stripped).2
      refine ⟨hwithin, hown, hresidue, fun path h => ⟨htaken path h, ?_⟩⟩
      simpa only [Bool.not_eq_true', Bool.not_eq_false] using hgit
    · exact ⟨hwithin, hown, .refl _, fun _ h => absurd h not_taken_self⟩

theorem removal_right (world : World)
    (hclear : ∀ worktree, assertSafeWorktreeCleanupTarget limit wt fs = some worktree →
      locate limit fs wt.path = some worktree → NoRepositoryInCache fs worktree) :
    (gitWorktreeRemove limit wt world fs).Right limit wt world fs := by
  unfold gitWorktreeRemove
  split
  · exact Removal.right_of_eq none
  · next worktree hsafe =>
    split
    · exact removeByGit_right (.refl fs) fun _ h => absurd h not_taken_self
    · next entries hlstat =>
      obtain ⟨path, hlocate, hfind⟩ := Option.bind_eq_some_iff.mp hlstat
      cases located hsafe hlocate
      rw [hlocate, Option.getD_some]
      have hcleared := cleared_remove world.access fs fun _ h =>
        ne_nil_of_mem_iter world.access.lists worktree (Node.distinct_of_find fs.distinct hfind) h
      have hown := fun path (h : Taken fs _ path) =>
        own_of_cleared hsafe hfind (hclear worktree hsafe hlocate) hcleared h
      dsimp only
      split
      · exact removeByGit_right hcleared.within hown
      · exact ⟨hcleared.within, hown, .refl _, fun _ h => absurd h not_taken_self⟩
    · exact Removal.right_of_eq none

theorem strip_right (access : Access String)
    (hsafe : assertSafeWorktreeCleanupTarget limit wt fs = some worktree) :
    Within fs (strip limit wt access fs)
      ∧ ∀ path, Taken fs (strip limit wt access fs) path →
        locate limit fs wt.path = some worktree ∧ ∃ x, fs.find worktree = some x
          ∧ Cleared fs (strip limit wt access fs)
            (iterLocalWorktreeArtifacts access.lists worktree x) := by
  unfold strip
  split
  · next path hlocate =>
    cases located hsafe hlocate
    split
    · next x hx =>
      have hcleared := cleared_strip access fs fun _ h =>
        ne_nil_of_mem_iter access.lists worktree (Node.distinct_of_find fs.distinct hx) h
      exact ⟨hcleared.within, fun _ _ => ⟨hlocate, x, hx, hcleared⟩⟩
    · exact ⟨.refl fs, fun _ h => absurd h not_taken_self⟩
  · exact ⟨.refl fs, fun _ h => absurd h not_taken_self⟩

theorem quarantine_right (world : World) {trash : List String} (threadId : String)
    (htrash : ∀ worktree, resolve limit fs wt.path = some worktree → ¬worktree <+: trash)
    (hclear : ∀ worktree, assertSafeWorktreeCleanupTarget limit wt fs = some worktree →
      locate limit fs wt.path = some worktree → NoRepositoryInCache fs worktree) :
    (gitQuarantineWorktree limit wt world trash threadId fs).Right limit wt fs := by
  unfold gitQuarantineWorktree
  split
  · exact ⟨.refl fs, fun _ h => absurd h not_taken_self, fun _ _ h => (nomatch h),
      fun _ _ _ _ h _ => h, fun _ _ _ h => h⟩
  · next worktree hsafe =>
    obtain ⟨hwithin, htaken⟩ := strip_right world.access hsafe
    have hown : ∀ path, Taken fs (strip limit wt world.access fs) path →
        Own limit wt fs path ∧ resolve limit fs wt.path ≠ some path := fun path h => by
      obtain ⟨hlocate, x, hx, hcleared⟩ := htaken path h
      exact own_of_cleared hsafe hx (hclear worktree hsafe hlocate) hcleared h
    have hkept : ∀ rest kind, fs.entry (worktree ++ rest) = some kind →
        (∀ cache, IsCache fs worktree cache → ¬cache <+: worktree ++ rest) →
          (strip limit wt world.access fs).entry (worktree ++ rest) = some kind := by
      intro rest kind hkind hcache
      cases hleft : (strip limit wt world.access fs).entry (worktree ++ rest) with
      | some kind' => rw [← hkind, hwithin _ _ hleft]
      | none =>
        have hgone := taken_of_entry hkind hleft
        obtain ⟨-, x, hx, hcleared⟩ := htaken _ hgone
        obtain ⟨artifact, hmem, hpre, hartifact⟩ := hcleared.taken _ hgone
        exact absurd hpre (hcache _ (isCache_of_mem hx hmem hartifact))
    generalize strip limit wt world.access fs = stripped at hwithin hown hkept ⊢
    dsimp only
    split
    · exact ⟨hwithin, hown, fun _ _ h => (nomatch h), fun _ _ _ _ h _ => h, fun _ _ _ h => h⟩
    · next made hmade =>
      have hstays : ∀ path kind, stripped.entry path = some kind → made.entry path = some kind :=
        fun path kind h => Volume.entry_of_mkdirs hmade h
      split
      · next dest path hdest hlocate =>
        split
        · next final hfinal =>
          split at hfinal
          · -- what is moved is what was found at first
            have hsame : ∀ first, locate limit fs wt.path = some first → path = first := by
              intro first hfirst
              refine locate_stable (fun q kind kind' hkind hkind' => ?_)
                (fun q hnone kind hkind => ?_) (Volume.find_of_rename hfinal) hfirst hlocate
              · rcases Volume.entry_mkdirs hmade hkind' with hold | ⟨hpre, -⟩
                · exact Option.some.inj (hkind.symm.trans (hwithin q kind' hold))
                · cases hold : stripped.entry q with
                  | some old =>
                    cases (hstays q old hold).symm.trans hkind'
                    exact Option.some.inj (hkind.symm.trans (hwithin q _ hold))
                  | none =>
                    obtain ⟨⟨own, -, hresolve, -, -, -, hq, -⟩, -⟩ :=
                      hown q (taken_of_entry hkind hold)
                    exact absurd (hq.trans hpre) (htrash own hresolve)
              · rcases Volume.entry_mkdirs hmade hkind with hold | ⟨-, hdir⟩
                · cases hnone.symm.trans (hwithin q kind hold)
                · exact hdir
            refine ⟨hwithin, hown, fun dest' first heq hfirst rest kind hkind hcache => ?_,
              fun first hfirst other kind hkind hother => ?_, fun h => nomatch h⟩
            · cases heq
              cases hsame first hfirst
              cases located hsafe hfirst
              rw [List.append_assoc, List.singleton_append]
              exact Volume.entry_rename hfinal (hstays _ _ (hkept rest kind hkind hcache))
            · cases hsame first hfirst
              exact Volume.entry_rename_of_outside hfinal (hstays _ _ hkind) hother
          · cases hfinal
        · exact ⟨hwithin, hown, fun _ _ h => (nomatch h), fun _ _ other kind h _ =>
            hstays other kind h, fun _ other kind h => hstays other kind h⟩
      · exact ⟨hwithin, hown, fun _ _ h => (nomatch h), fun _ _ other kind h _ =>
          hstays other kind h, fun _ other kind h => hstays other kind h⟩

theorem noRepositoryInCache_of_right (h : Right limit wt fs) (worktree : List String)
    (hsafe : assertSafeWorktreeCleanupTarget limit wt fs = some worktree)
    (hlocate : locate limit fs wt.path = some worktree) : NoRepositoryInCache fs worktree := by
  intro cache rest hcache
  obtain ⟨hresolve, hne, -⟩ := of_assertSafe hsafe
  by_contra hmark
  -- nothing is in the way, and the move fails
  let free : Access String := ⟨fun _ => true, fun _ => true⟩
  have hright := (h ⟨free, free, fun fs => (false, fs), false⟩).2 [] "" fun other hother hnil => by
    cases hresolve.symm.trans hother
    exact hne (List.prefix_nil.mp hnil)
  have hstripped := hright.stripped (cache ++ rest ++ [gitMarker]) ⟨hmark, ?_⟩
  · -- it is in a nested repository
    obtain ⟨⟨own, parent, hown, -, -, -, -, hnested⟩, -⟩ := hstripped
    cases hresolve.symm.trans hown
    obtain ⟨below, last, rfl, -⟩ := id hcache
    refine hnested ⟨below ++ [last] ++ rest, ?_, ?_, ?_⟩
    · exact List.append_ne_nil_of_left_ne_nil (List.append_ne_nil_of_right_ne_nil _
        (List.cons_ne_nil _ _)) _
    · simp only [List.append_assoc]
      exact (List.prefix_append_right_inj _).mpr ((List.prefix_append_right_inj _).mpr
        ((List.prefix_append_right_inj _).mpr (List.prefix_append _ _)))
    · simpa only [List.append_assoc] using Option.isSome_iff_ne_none.mpr hmark
  · have hdir : fs.entry cache = some .dir := by
      obtain ⟨-, -, -, -, hdir, -⟩ := hcache
      exact hdir
    obtain ⟨x, hx⟩ : ∃ x, fs.find worktree = some x := by
      obtain ⟨below, last, rfl, -⟩ := id hcache
      obtain ⟨y, hy⟩ := Volume.find_of_entry (Option.isSome_of_eq_some hdir)
      rw [List.append_assoc] at hy
      obtain ⟨x, hx, -⟩ := Option.bind_eq_some_iff.mp ((Node.find_append _ _ _).symm.trans hy)
      exact ⟨x, hx⟩
    have hgone : (strip limit wt free fs).entry (cache ++ rest ++ [gitMarker]) = none := by
      obtain ⟨below, last, rfl, hyielded⟩ := yielded_of_isCache hx hcache
      unfold strip
      rw [hlocate]
      dsimp only
      rw [hx, List.append_assoc]
      exact strip_gone (fun _ => rfl) (fun _ => rfl)
        (fun _ h => ne_nil_of_mem_iter _ _ (Node.distinct_of_find fs.distinct hx) h)
        (mem_of_yielded (fun _ => rfl) hyielded) hdir _
    unfold gitQuarantineWorktree
    rw [hsafe]
    dsimp only
    split
    · exact hgone
    · split
      · split <;> exact hgone
      · exact hgone

/-- **Everything is right if and only if no repository is in a cache**, unless the path is
refused or leads nowhere. -/
theorem right_iff_noRepositoryInCache (limit : ℕ) (wt : Worktree) (fs : Fs) :
    Right limit wt fs ↔
      ∀ worktree, assertSafeWorktreeCleanupTarget limit wt fs = some worktree →
        locate limit fs wt.path = some worktree → NoRepositoryInCache fs worktree :=
  ⟨fun h => noRepositoryInCache_of_right h, fun h world =>
    ⟨removal_right world h, fun _ threadId htrash => quarantine_right world threadId htrash h⟩⟩

end Right

/-- A clone that was made in the build directory of a worktree. -/
def cloneInBuild : Fs where
  root := .dir [("home", .dir []), ("repo", .dir []), ("worktrees", .dir [("task", .dir
    [(gitMarker, .file []), ("build", .dir [("dep", .dir [(gitMarker, .dir [])])])])])]
  distinct := by
    simp only [Node.Distinct, Distinct]
    decide

def task : Worktree where
  path := ["worktrees", "task"]
  repoPath := ["repo"]
  allowedParent := ["worktrees"]
  home := ["home"]
  expectedResidueName := "task"

/-- **A repository in a cache is taken with it.** -/
theorem not_right_nested : ¬∀ (limit : ℕ) (wt : Worktree) (fs : Fs), Right limit wt fs := by
  intro hall
  have hcache : IsCache cloneInBuild ["worktrees", "task"] ["worktrees", "task", "build"] := by
    refine ⟨[], "build", rfl, rfl, rfl, fun upper name hupper => ?_⟩
    exact absurd (List.prefix_nil.mp hupper) (List.append_ne_nil_of_right_ne_nil _
      (List.cons_ne_nil _ _))
  cases noRepositoryInCache_of_right (hall 0 task cloneInBuild) ["worktrees", "task"] rfl rfl
    _ ["dep"] hcache

end WorktreeCleanup
