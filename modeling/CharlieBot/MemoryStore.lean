import CharlieBot.Lib.Transition
import CharlieBot.Lib.Traverse
import CharlieBot.MemoryEntry
import Mathlib.Control.Monad.Basic
import Mathlib.Data.List.Sort
import Mathlib.Data.String.Basic

/-!
# The memory and its readers

The memory is a directory: a file with the topics, and below `entries` a directory for each topic
with its entries. Three walks go over it. One reads and checks everything; one only asks for times
and sizes, and what was read is served again as long as these are the same; and `lint` reads
everything on its own, with stricter rules, to tell what is wrong.

The walks see the same files wherever the names below `entries` can be asked for; a link that leads
to itself hides all of them from the second one. A file that cannot be read as a text is no
matter of form to `lint`, which raises for it. And an entry with a heading of its own over its body
is shown without its title (`walks_disagree`).

Along every run that avoids these, and in which a file with the time and size that it had has what
it held, what is served is what is there, `lint` tells all that keeps a memory from being loaded,
and every entry is shown once and with its title (`agree_of_run`).
-/

namespace MemoryStore

/-! ## The directory -/

/-- A time and a size. -/
abbrev Stat := ℤ × ℕ

/-- A file: its time and size, or nothing for a link that leads nowhere; and its text, or what
reading it raises. -/
structure FileNode where
  stat : Option Stat
  text : Except String String
  deriving DecidableEq

/-- What is below `entries`. -/
inductive Child where
  | dir (files : List (String × FileNode))
  /-- A link that leads to itself. -/
  | looping
  | other
  deriving DecidableEq

structure TopicsFile where
  isFile : Bool := true
  stat : Stat
  text : Except String String
  deriving DecidableEq

/-- **The directory of the memory.** -/
structure MemoryDir where
  isDir : Bool := true
  topics : Option TopicsFile := none
  entries : List (String × Child) := []
  staging : List (String × FileNode) := []

structure EntryFile where
  topicDir : String
  name : String
  node : FileNode
  deriving DecidableEq

/-- The path of an entry below `entries`. -/
def EntryFile.path (file : EntryFile) : String := file.topicDir ++ "/" ++ file.name

/-- The `*.md` of a directory, by name. -/
def mdFiles (files : List (String × FileNode)) : List (String × FileNode) :=
  (files.insertionSort fun a b => a.1 ≤ b.1).filter fun file =>
    ".md".toList.isSuffixOf file.1.toList

/-- `path.stem` of a `*.md`. -/
def mdStem (name : String) : String :=
  if name.toList.length ≤ 3 then name
  else String.ofList (name.toList.take (name.toList.length - 3))

namespace MemoryDir

variable (root : String) (dir : MemoryDir)

/-- `_iter_entry_files`. -/
def files : List EntryFile :=
  (dir.entries.insertionSort fun a b => a.1 ≤ b.1).flatMap fun (topicDir, child) =>
    match child with
    | .dir files => (mdFiles files).map fun (name, node) => ⟨topicDir, name, node⟩
    | _ => []

/-- Whether there is a link that leads to itself. -/
def loops : Bool := dir.entries.any fun (_, child) => child = .looping

/-- `_store_signature`. -/
def signature : Option (List (String × Stat)) :=
  match dir.topics with
  | none => none
  | some topics =>
    -- a name that cannot be asked for ends the walk, as though there were no entries
    ((if dir.loops then [] else dir.files).mapM fun file : EntryFile =>
      file.node.stat.map fun stat => (file.path, stat)).map (("topics", topics.stat) :: ·)

end MemoryDir

/-! ## Loading -/

inductive LoadError where
  /-- `MemoryFormatError`. -/
  | format (message : String)
  /-- What reading a file raises. -/
  | read (error : String)
  deriving DecidableEq

structure Store where
  topics : List (String × Bool)
  entries : List Entry
  deriving DecidableEq

/-- Lists of all items, up to one that raises. -/
def collect {α β ε : Type} (f : α → Except ε (List β)) : List α → Except ε (List β)
  | [] => .ok []
  | a :: as =>
    match f a with
    | .error e => .error e
    | .ok bs => (collect f as).map (bs ++ ·)

/-- The lines of the topics from a number on. -/
def parseTopics (path : String) :
    ℕ → List (String × Bool) → List (List Char) → Except String (List (String × Bool))
  | _, topics, [] => .ok topics
  | number, topics, line :: lines =>
    if line.isEmpty then parseTopics path (number + 1) topics lines
    else
      match topicLine line with
      | none => .error (path ++ ": line " ++ toString number ++ ": malformed topic line: "
          ++ String.ofList (Text.reprStr line))
      | some topic =>
        if (topics.lookup topic.1).isSome then
          .error (path ++ ": line " ++ toString number ++ ": duplicate topic " ++ quoted topic.1)
        else parseTopics path (number + 1) (topics ++ [topic]) lines

namespace MemoryDir

variable (root : String) (dir : MemoryDir)

def loadTopics : Except LoadError (List (String × Bool)) :=
  let path := root ++ "/topics"
  match dir.topics.filter TopicsFile.isFile with
  | none => .error (.format (path ++ ": topics vocabulary file not found"))
  | some topics =>
    match topics.text with
    | .error e => .error (.read e)
    | .ok text =>
      match parseTopics path 1 [] (Text.splitOnChar '\n' text.toList) with
      | .error message => .error (.format message)
      | .ok topics => .ok topics

/-- `parse_entry`, for a file below `entries`. -/
def parseFile (file : EntryFile) (text : String) : Except String Entry :=
  parseEntryText (root ++ "/entries/" ++ file.path) file.topicDir (mdStem file.name) text.toList

/-- One file, read and checked. -/
def loadFile (topics : List (String × Bool)) (file : EntryFile) : Except LoadError (List Entry) :=
  match file.node.text with
  | .error e => .error (.read e)
  | .ok text =>
    match parseFile root file text with
    | .error message => .error (.format message)
    | .ok entry =>
      match validateEntry entry topics false false with
      | violation :: _ => .error (.format violation)
      | [] => .ok [entry]

def loadStoreUncached : Except LoadError Store :=
  match dir.loadTopics root with
  | .error e => .error e
  | .ok topics => (collect (loadFile root topics) dir.files).map fun entries => ⟨topics, entries⟩

/-! ## Lint -/

/-- What `lint` holds against one entry. -/
def lintFile (topics : List (String × Bool)) (file : EntryFile) : Except String (List String) :=
  match file.node.text with
  | .error e => .error e
  | .ok text =>
    match parseFile root file text with
    | .error message => .ok [message]
    | .ok entry => .ok (validateEntry entry topics false true)

/-- What `lint` holds against one file of `staging`. -/
def lintStaged (file : String × FileNode) : Except String (List String) :=
  let path := root ++ "/staging/" ++ file.1
  match file.2.text with
  | .error e => .error e
  | .ok text =>
    let first := firstLine text.toList
    if first = "---".toList then
      match parseEntryText path "staging" (mdStem file.1) text.toList with
      | .error message => .ok [message]
      | .ok entry => .ok (validateEntry entry [] true false)
    else if text.toList.isEmpty then .ok [path ++ ": empty capture file"]
    else if !"# ".toList.isPrefixOf first then
      .ok [path ++ ": line 1: capture must start with '# <title>'"]
    else if (Text.strip (first.drop 2)).isEmpty then
      .ok [path ++ ": line 1: empty title after '# '"]
    else .ok []

/-- What `lint` makes of the topics: what it holds against them, and what it goes on with. -/
def lintTopics : Except String (List String × List (String × Bool)) :=
  match dir.loadTopics root with
  | .ok topics => .ok ([], topics)
  | .error (.format message) => .ok ([message], [])
  | .error (.read e) => .error e

/-- `lint`; an error is what it raises. -/
def lint : Except String (List String) :=
  match dir.lintTopics root with
  | .error e => .error e
  | .ok (violations, topics) =>
    match collect (lintFile root topics) dir.files with
    | .error e => .error e
    | .ok ofEntries => (collect (lintStaged root) (mdFiles dir.staging)).map fun ofStaging =>
        violations ++ ofEntries ++ ofStaging

end MemoryDir

/-! ## Blocks -/

/-- Who reads the memory; a worker with the name of its repository. -/
inductive Reader where
  | master
  | worker (repoBasename : String)
  deriving DecidableEq

def Reader.audience : Reader → String
  | .master => "master"
  | .worker _ => "worker"

/-- The entries a reader is shown. -/
def Store.admitted (store : Store) (reader : Reader) : List Entry :=
  store.entries.filter fun entry => (entry.audience.getD []).contains reader.audience

/-- Whether a reader is shown the text of an entry, and not only its title. -/
def Store.inFull (store : Store) (reader : Reader) (entry : Entry) : Bool :=
  match reader, entry.topic with
  | .master, some topic => store.topics.lookup topic == some true
  | .worker repoBasename, some topic => topic == repoBasename
  | _, none => false

/-- The order of `(topic, slug)`. -/
def Entry.before (a b : Entry) : Prop :=
  a.topic.getD "" < b.topic.getD "" ∨ a.topic.getD "" = b.topic.getD "" ∧ a.slug ≤ b.slug

instance (a b : Entry) : Decidable (a.before b) := by
  unfold Entry.before
  infer_instance

def indexHeader : List Char :=
  "# Memory index — ".toList
    ++ ("full text via `charliebot memory query --topic <topic>` "
      ++ "(topic = segment before \"/\", e.g. `--topic integrations`)").toList

def indexLine (entry : Entry) : List Char :=
  (entry.topic.getD "").toList ++ ['/'] ++ entry.slug.toList ++ " · ".toList
    ++ entry.title.toList

def indexLines (index : List Entry) : List Char :=
  Text.join ['\n'] (indexHeader :: index.map indexLine)

/-- What stands between the pieces of a block. -/
def blankLine : List Char := ['\n', '\n']

def formatBlock (full index : List Entry) : List Char :=
  Text.join blankLine
    ((if full.isEmpty then [] else [Text.join blankLine (full.map fullText)])
      ++ if index.isEmpty then [] else [indexLines index])

/-- The line that tells a worker how to use the memory. -/
def usageLine : List Char :=
  "On-demand knowledge: ".toList
    ++ ("`charliebot memory query --topic <topic>` (full text) or `--index` "
      ++ "for the index only. Stage a capture with `charliebot memory add [--file F]`: a capture "
      ++ "is one file, first line `# <title>`, stating one fact to record or one change to "
      ++ "propose, naming the target entry in the body when proposing a change (writes staging/, "
      ++ "never entries/).").toList

/-- The entries in full, and those in the index, in order. -/
def Store.groups (store : Store) (reader : Reader) : List Entry × List Entry :=
  let shown := store.admitted reader
  ((shown.filter (store.inFull reader)).insertionSort Entry.before,
    (shown.filter fun entry => !store.inFull reader entry).insertionSort Entry.before)

/-- `assemble_master` and `assemble_worker`, with the store. -/
def Store.assemble (store : Store) (reader : Reader) : Option (List Char) :=
  let (full, index) := store.groups reader
  match reader with
  | .master => if full.isEmpty && index.isEmpty then none else some (formatBlock full index)
  | .worker _ => some (Text.join blankLine
      ([formatBlock full index, usageLine].filter fun chunk => !chunk.isEmpty))

/-! ## Runs -/

/-- What a reader came to, with the directory as it was then. -/
inductive Deed where
  | loaded (dir : MemoryDir) (result : Except LoadError Store)
  | linted (dir : MemoryDir) (result : Except String (List String))
  | assembled (dir : MemoryDir) (reader : Reader) (result : Except LoadError (Option (List Char)))

/-- The directory and the memo, and what is known of what came before. -/
structure MemoryState where
  dir : MemoryDir := {}
  /-- `_store_memo`, for this directory. -/
  memo : Option (List (String × Stat) × Store) := none
  memoized : Option MemoryDir := none
  deeds : List Deed := []

inductive MemoryAction where
  | change (dir : MemoryDir)
  | loadStore
  | lint
  /-- `assemble_master` or `assemble_worker`. -/
  | assemble (reader : Reader)

/-- A change moves the time or the size of what it changes. -/
def MemoryDir.Moves (old new : MemoryDir) : Prop :=
  (∀ topics ∈ old.topics, ∀ other ∈ new.topics, topics.stat = other.stat → topics = other)
    ∧ ∀ file ∈ old.files, ∀ other ∈ new.files, file.path = other.path →
      file.node.stat = other.node.stat → file = other

instance (old new : MemoryDir) : Decidable (old.Moves new) := by
  unfold MemoryDir.Moves
  infer_instance

namespace MemoryState

variable (root : String) (s : MemoryState)

/-- Whether a load is served from the memo. -/
def served : Bool := s.dir.signature.isSome && s.memo.map Prod.fst == s.dir.signature

/-- `load_store`: what it returns or raises, and the memo behind it. -/
def loadStore : Except LoadError Store × MemoryState :=
  match (if s.served then s.memo else none) with
  | some (_, store) => (.ok store, s)
  | none =>
    match s.dir.loadStoreUncached root with
    | .ok store =>
      (.ok store, match s.dir.signature with
        | some signature => { s with memo := some (signature, store), memoized := some s.dir }
        | none => s)
    | .error e =>
      (.error e, if s.dir.signature.isSome then { s with memo := none, memoized := none } else s)

def tell (deed : Deed) : MemoryState := { s with deeds := s.deeds ++ [deed] }

def step : MemoryAction → Option MemoryState
  | .change dir => if s.dir.Moves dir then some { s with dir := dir } else none
  | .loadStore =>
    let (result, t) := s.loadStore root
    some (t.tell (.loaded s.dir result))
  | .lint => some (s.tell (.linted s.dir (s.dir.lint root)))
  | .assemble reader =>
    if s.dir.isDir then
      let (result, t) := s.loadStore root
      some (t.tell (.assembled s.dir reader (result.map fun store => store.assemble reader)))
    else some (s.tell (.assembled s.dir reader (.ok none)))

def system : TransitionSystem MemoryState MemoryAction := ⟨step root⟩

end MemoryState

/-! ## What is claimed -/

/-- The pieces of a block: the texts of the entries in full, the index of the others, and for a
worker the line behind them. -/
def pieces (reader : Reader) (full index : List Entry) : List (List Char) :=
  full.map fullText ++ (if index.isEmpty then [] else [indexLines index])
    ++ match reader with
      | .master => []
      | .worker _ => [usageLine]

/-- **A block presents a memory**: every entry that the reader is shown is there once, as its text
with its title or as one line of the index. -/
def Presents (reader : Reader) (store : Store) (block : Option (List Char)) : Prop :=
  ∃ full index, (full ++ index).Perm (store.admitted reader)
    ∧ block = (if pieces reader full index = [] then none
      else some (Text.join blankLine (pieces reader full index)))
    ∧ (∀ entry ∈ full, Titled (fullText entry) entry.title)
    ∧ ∀ entry ∈ index, '\n' ∉ indexLine entry

/-- **A deed is right.** -/
def Deed.Right (root : String) : Deed → Prop
  /- What is loaded is what is there. -/
  | .loaded dir result => result = dir.loadStoreUncached root
  /- `lint` does not raise, and where it tells nothing the memory can be loaded. -/
  | .linted dir result => ∃ violations, result = .ok violations
      ∧ (violations = [] → ∃ store, dir.loadStoreUncached root = .ok store)
  /- A block is of the memory that is there. -/
  | .assembled dir reader result =>
    if dir.isDir then
      match dir.loadStoreUncached root with
      | .error e => result = .error e
      | .ok store => ∃ block, result = .ok block ∧ Presents reader store block
    else result = .ok none

/-! ## The condition -/

/-- What the condition asks of a directory where a load is served, compared with that of the
memo. -/
structure Steady (now old : MemoryDir) : Prop where
  /-- The topics with the time and size they had are what they were. -/
  topics : ∀ topics ∈ now.topics, ∀ before ∈ old.topics, topics.stat = before.stat →
    topics = before
  /-- So is every entry. -/
  files : ∀ file ∈ now.files, ∀ before ∈ old.files, file.path = before.path →
    file.node.stat = before.node.stat → file = before
  /-- Where a link leads to itself, all entries are what they were. -/
  loops : now.loops = true ∨ old.loops = true → now.files = old.files

instance (now old : MemoryDir) : Decidable (Steady now old) :=
  decidable_of_iff ((∀ topics ∈ now.topics, ∀ before ∈ old.topics, topics.stat = before.stat →
      topics = before)
    ∧ (∀ file ∈ now.files, ∀ before ∈ old.files, file.path = before.path →
      file.node.stat = before.node.stat → file = before)
    ∧ (now.loops = true ∨ old.loops = true → now.files = old.files))
    ⟨fun h => ⟨h.1, h.2.1, h.2.2⟩, fun h => ⟨h.topics, h.files, h.loops⟩⟩

/-- An entry can be shown: in full where no other heading is over its body, in the index where its
name is on one line. -/
def Showable (store : Store) (reader : Reader) (entry : Entry) : Prop :=
  if store.inFull reader entry then
    entry.titleInHeader = true → "# ".toList.isPrefixOf (rstrip entry.body.toList) = true →
      Titled (rstrip entry.body.toList) entry.title
  else '\n' ∉ entry.slug.toList

instance (store : Store) (reader : Reader) (entry : Entry) :
    Decidable (Showable store reader entry) := by
  unfold Showable
  infer_instance

/-- Every file that `lint` reads is a text. -/
def MemoryDir.Readable (dir : MemoryDir) : Prop :=
  (∀ topics ∈ dir.topics.filter TopicsFile.isFile, topics.text.isOk = true)
    ∧ (∀ file ∈ dir.files, file.node.text.isOk = true)
    ∧ ∀ file ∈ mdFiles dir.staging, file.2.text.isOk = true

instance (dir : MemoryDir) : Decidable dir.Readable := by
  unfold MemoryDir.Readable
  infer_instance

namespace MemoryState

variable (root : String) (s : MemoryState)

def LoadMeets : Prop := s.served = true → ∀ old ∈ s.memoized, Steady s.dir old

instance : Decidable s.LoadMeets := by
  unfold LoadMeets
  infer_instance

/-- **The condition on a step.** -/
def Meets : MemoryAction → Prop
  | .change _ => True
  | .loadStore => s.LoadMeets
  | .lint => s.dir.Readable
  | .assemble reader => s.dir.isDir = true → s.LoadMeets
      ∧ ∀ store ∈ (s.dir.loadStoreUncached root).toOption, ∀ entry ∈ store.admitted reader,
        Showable store reader entry

instance (a : MemoryAction) : Decidable (s.Meets root a) := by
  unfold Meets
  split <;> infer_instance

end MemoryState

variable {root : String}

/-! ## Walks that read everything -/

theorem collect_ok {α β ε : Type} {f : α → Except ε (List β)} {as : List α}
    (h : ∀ a ∈ as, ∃ bs, f a = .ok bs) : ∃ bs, collect f as = .ok bs := by
  induction as with
  | nil => exact ⟨[], rfl⟩
  | cons a as ih =>
    obtain ⟨bs, hbs⟩ := h a List.mem_cons_self
    obtain ⟨rest, hrest⟩ := ih fun a ha => h a (List.mem_cons_of_mem _ ha)
    unfold collect
    rw [hbs, hrest]
    exact ⟨_, rfl⟩

theorem exists_of_mem_collect {α β ε : Type} {f : α → Except ε (List β)} {as : List α}
    {bs : List β} (h : collect f as = .ok bs) {b : β} (hb : b ∈ bs) :
    ∃ a ∈ as, ∃ cs, f a = .ok cs ∧ b ∈ cs := by
  induction as generalizing bs with
  | nil =>
    cases h
    cases hb
  | cons a as ih =>
    unfold collect at h
    cases hfirst : f a with
    | error e =>
      rw [hfirst] at h
      cases h
    | ok cs =>
      rw [hfirst] at h
      dsimp only at h
      cases hrest : collect f as with
      | error e =>
        rw [hrest] at h
        cases h
      | ok rest =>
        rw [hrest] at h
        cases h
        rcases List.mem_append.mp hb with hb | hb
        · exact ⟨a, List.mem_cons_self, cs, hfirst, hb⟩
        · obtain ⟨a', ha', hfound⟩ := ih hrest hb
          exact ⟨a', List.mem_cons_of_mem _ ha', hfound⟩

theorem eq_nil_of_collect {α β ε : Type} {f : α → Except ε (List β)} {as : List α}
    (h : collect f as = .ok []) : ∀ a ∈ as, f a = .ok [] := by
  induction as with
  | nil => exact fun a ha => nomatch ha
  | cons a as ih =>
    unfold collect at h
    cases hfirst : f a with
    | error e =>
      rw [hfirst] at h
      cases h
    | ok bs =>
      rw [hfirst] at h
      dsimp only at h
      cases hrest : collect f as with
      | error e =>
        rw [hrest] at h
        cases h
      | ok rest =>
        rw [hrest] at h
        have hnil : bs ++ rest = [] := Except.ok.inj h
        obtain ⟨rfl, rfl⟩ := List.append_eq_nil_iff.mp hnil
        intro a' ha'
        rcases List.mem_cons.mp ha' with rfl | ha'
        · exact hfirst
        · exact ih hrest a' ha'

/-! ## Loading and lint -/

namespace MemoryDir

variable {d d' : MemoryDir}

theorem loadStoreUncached_congr (htopics : d.topics = d'.topics) (hfiles : d.files = d'.files) :
    d.loadStoreUncached root = d'.loadStoreUncached root := by
  unfold loadStoreUncached loadTopics
  rw [htopics, hfiles]

/-- **An entry that was loaded was read from a file.** -/
theorem exists_of_mem_entries {store : Store} (h : d.loadStoreUncached root = .ok store)
    {entry : Entry} (hentry : entry ∈ store.entries) :
    ∃ path parent slug text, parseEntryText path parent slug text = .ok entry := by
  unfold loadStoreUncached at h
  split at h
  · cases h
  · next topics htopics =>
    cases hentries : collect (loadFile root topics) d.files with
    | error e =>
      rw [hentries] at h
      cases h
    | ok entries =>
      rw [hentries] at h
      cases h
      obtain ⟨file, -, cs, hload, hmem⟩ := exists_of_mem_collect hentries hentry
      unfold loadFile at hload
      split at hload
      · cases hload
      · split at hload
        · cases hload
        · next entry' hparse =>
          split at hload
          · cases hload
          · cases hload
            rw [List.mem_singleton.mp hmem]
            exact ⟨_, _, _, _, hparse⟩

theorem lintTopics_ok (h : d.Readable) : ∃ found, d.lintTopics root = .ok found := by
  unfold lintTopics
  split
  · exact ⟨_, rfl⟩
  · exact ⟨_, rfl⟩
  · next e herror =>
    exfalso
    unfold loadTopics at herror
    dsimp only at herror
    split at herror
    · cases herror
    · next topics htopics =>
      have hok := h.1 topics htopics
      split at herror
      · next e' htext =>
        rw [htext] at hok
        cases hok
      · split at herror <;> cases herror

theorem lintFile_ok {topics : List (String × Bool)} {file : EntryFile}
    (h : file.node.text.isOk = true) : ∃ found, lintFile root topics file = .ok found := by
  unfold lintFile
  split
  · next e htext =>
    rw [htext] at h
    cases h
  · split
    · exact ⟨_, rfl⟩
    · exact ⟨_, rfl⟩

theorem lintStaged_ok {file : String × FileNode} (h : file.2.text.isOk = true) :
    ∃ found, lintStaged root file = .ok found := by
  unfold lintStaged
  dsimp only
  split
  · next e htext =>
    rw [htext] at h
    cases h
  · split
    · split
      · exact ⟨_, rfl⟩
      · exact ⟨_, rfl⟩
    · split
      · exact ⟨_, rfl⟩
      · split
        · exact ⟨_, rfl⟩
        · split
          · exact ⟨_, rfl⟩
          · exact ⟨_, rfl⟩

/-- **`lint` does not raise where every file is a text.** -/
theorem lint_ok (h : d.Readable) : ∃ violations, d.lint root = .ok violations := by
  obtain ⟨found, hfound⟩ : ∃ found, d.lintTopics root = .ok found := lintTopics_ok h
  obtain ⟨ofEntries, hentries⟩ : ∃ ofEntries, collect (lintFile root found.2) d.files
      = .ok ofEntries := collect_ok fun file hfile => lintFile_ok (h.2.1 file hfile)
  obtain ⟨ofStaging, hstaging⟩ : ∃ ofStaging, collect (lintStaged root) (mdFiles d.staging)
      = .ok ofStaging := collect_ok fun file hfile => lintStaged_ok (h.2.2 file hfile)
  unfold lint
  rw [hfound]
  dsimp only
  rw [hentries]
  dsimp only
  rw [hstaging]
  exact ⟨_, rfl⟩

theorem loadFile_of_lintFile {topics : List (String × Bool)} {file : EntryFile}
    (h : lintFile root topics file = .ok []) :
    ∃ entries, loadFile root topics file = .ok entries := by
  unfold lintFile at h
  unfold loadFile
  cases htext : file.node.text with
  | error e =>
    rw [htext] at h
    cases h
  | ok text =>
    rw [htext] at h
    dsimp only at h ⊢
    cases hparse : parseFile root file text with
    | error message =>
      rw [hparse] at h
      cases h
    | ok entry =>
      rw [hparse] at h
      dsimp only at h ⊢
      rw [validateEntry_of_strictV2 (Except.ok.inj h)]
      exact ⟨_, rfl⟩

/-- **What `lint` tells nothing of can be loaded.** -/
theorem loadStoreUncached_of_lint (h : d.lint root = .ok []) :
    ∃ store, d.loadStoreUncached root = .ok store := by
  unfold lint at h
  split at h
  · cases h
  · next violations topics htopics =>
    split at h
    · cases h
    · next ofEntries hentries =>
      cases hstaging : collect (lintStaged root) (mdFiles d.staging) with
      | error e =>
        rw [hstaging] at h
        cases h
      | ok ofStaging =>
        rw [hstaging] at h
        have hnil : violations ++ ofEntries ++ ofStaging = [] := Except.ok.inj h
        obtain ⟨hnil, -⟩ := List.append_eq_nil_iff.mp hnil
        obtain ⟨rfl, rfl⟩ := List.append_eq_nil_iff.mp hnil
        have hload : d.loadTopics root = .ok topics := by
          unfold lintTopics at htopics
          split at htopics
          · next loaded hloaded =>
            cases htopics
            exact hloaded
          · cases htopics
          · cases htopics
        obtain ⟨entries, hcollected⟩ := collect_ok fun file hfile =>
          loadFile_of_lintFile (eq_nil_of_collect hentries file hfile)
        unfold loadStoreUncached
        rw [hload]
        dsimp only
        rw [hcollected]
        exact ⟨_, rfl⟩

/-! ## The signature -/

/-- **Where the signature is what it was, in a directory that is steady**, so is what is loaded. -/
theorem same_of_signature {signature : List (String × Stat)} (h : d.signature = some signature)
    (h' : d'.signature = some signature) (hsteady : Steady d d') :
    d.topics = d'.topics ∧ d.files = d'.files := by
  unfold MemoryDir.signature at h h'
  split at h
  · cases h
  · next topics htopics =>
    split at h'
    · cases h'
    · next topics' htopics' =>
      obtain ⟨stats, hstats, rfl⟩ := Option.map_eq_some_iff.mp h
      obtain ⟨stats', hstats', heq⟩ := Option.map_eq_some_iff.mp h'
      rw [List.cons.injEq, Prod.mk.injEq] at heq
      obtain ⟨⟨-, hstat⟩, rfl⟩ := heq
      constructor
      · rw [htopics, htopics',
          hsteady.topics topics htopics topics' htopics' hstat.symm]
      · cases hloops : d.loops || d'.loops with
        | true => exact hsteady.loops (Bool.or_eq_true_iff.mp hloops)
        | false =>
          obtain ⟨hloops, hloops'⟩ := Bool.or_eq_false_iff.mp hloops
          rw [hloops, if_neg Bool.false_ne_true] at hstats
          rw [hloops', if_neg Bool.false_ne_true] at hstats'
          have hmap := List.map_eq_of_mapM_eq hstats
          refine List.eq_of_map_eq (hmap.trans (List.map_eq_of_mapM_eq hstats').symm)
            fun file hfile before hbefore hsame => ?_
          have hmem := List.mem_map_of_mem (f := fun file : EntryFile =>
            file.node.stat.map fun stat => (file.path, stat)) hfile
          rw [hmap] at hmem
          obtain ⟨told, -, htold⟩ := List.mem_map.mp hmem
          obtain ⟨stat, hstat, heq⟩ := Option.map_eq_some_iff.mp htold.symm
          rw [hstat, Option.map_some] at hsame
          obtain ⟨stat', hstat', heq'⟩ := Option.map_eq_some_iff.mp hsame.symm
          rw [Prod.mk.injEq] at heq'
          exact hsteady.files file hfile before hbefore heq'.1.symm
            (hstat.trans (heq'.2 ▸ hstat'.symm))

end MemoryDir

/-! ## Blocks -/

theorem join_join_cons (sep : List Char) {xs : List (List Char)} (hxs : xs ≠ [])
    (ys : List (List Char)) :
    Text.join sep (Text.join sep xs :: ys) = Text.join sep (xs ++ ys) := by
  cases ys with
  | nil => rw [List.append_nil]; rfl
  | cons y ys =>
    induction xs with
    | nil => exact absurd rfl hxs
    | cons x xs ih =>
      cases xs with
      | nil => rfl
      | cons x' xs =>
        have hrest := ih (List.cons_ne_nil _ _)
        rw [Text.join] at hrest
        rw [Text.join, Text.join, List.cons_append, List.cons_append, Text.join,
          ← List.cons_append, ← hrest]
        simp only [List.append_assoc]

theorem formatBlock_eq (full index : List Entry) :
    formatBlock full index = Text.join blankLine (full.map fullText
      ++ if index.isEmpty then [] else [indexLines index]) := by
  unfold formatBlock
  cases full with
  | nil => rfl
  | cons entry full => exact join_join_cons _ (List.cons_ne_nil _ _) _

theorem fullText_ne_nil (entry : Entry) : ∃ c rest, fullText entry = c :: rest := by
  unfold fullText
  dsimp only
  split
  · next hopens =>
    obtain ⟨rest, hrest⟩ := List.isPrefixOf_iff_prefix.mp hopens
    exact ⟨'#', ' ' :: rest, hrest.symm⟩
  · exact ⟨'#', _, rfl⟩

theorem indexHeader_ne_nil : indexHeader ≠ [] :=
  List.append_ne_nil_of_left_ne_nil (by decide) _

theorem usageLine_ne_nil : usageLine ≠ [] :=
  List.append_ne_nil_of_left_ne_nil (by decide) _

theorem formatBlock_isEmpty (full index : List Entry) :
    (formatBlock full index).isEmpty = (full.isEmpty && index.isEmpty) := by
  rw [formatBlock_eq]
  cases full with
  | cons entry full =>
    obtain ⟨c, rest, hc⟩ := fullText_ne_nil entry
    rw [List.map_cons, hc, List.cons_append]
    obtain ⟨more, hmore⟩ := PosixPath.join_cons blankLine c rest (full.map fullText
      ++ if index.isEmpty then [] else [indexLines index])
    rw [hmore]
    rfl
  | nil =>
    cases index with
    | nil => rfl
    | cons entry index =>
      obtain ⟨c, rest, hc⟩ := List.exists_cons_of_ne_nil indexHeader_ne_nil
      obtain ⟨more, hmore⟩ := PosixPath.join_cons ['\n'] c rest ((entry :: index).map indexLine)
      show (Text.join ['\n'] (indexHeader :: (entry :: index).map indexLine)).isEmpty = _
      rw [hc, hmore]
      rfl

/-- **What is assembled is the pieces of the groups.** -/
theorem assemble_eq (store : Store) (reader : Reader) :
    store.assemble reader
      = if pieces reader (store.groups reader).1 (store.groups reader).2 = [] then none
        else some (Text.join blankLine
          (pieces reader (store.groups reader).1 (store.groups reader).2)) := by
  unfold Store.assemble pieces
  dsimp only
  generalize (store.groups reader).1 = full
  generalize (store.groups reader).2 = index
  have hempty : (full.map fullText ++ (if index.isEmpty then [] else [indexLines index]) = [])
      ↔ (full.isEmpty && index.isEmpty) = true := by
    cases full <;> cases index <;> simp
  cases reader with
  | master =>
    dsimp only
    rw [List.append_nil, formatBlock_eq]
    cases hnone : full.isEmpty && index.isEmpty with
    | true => rw [if_pos rfl, if_pos (hempty.mpr hnone)]
    | false =>
      have hsome : ¬ (full.map fullText
          ++ if index.isEmpty then [] else [indexLines index]) = [] := fun hnil => by
        rw [hempty.mp hnil] at hnone
        cases hnone
      rw [if_neg Bool.false_ne_true, if_neg hsome]
  | worker repoBasename =>
    dsimp only
    rw [if_neg (List.append_ne_nil_of_right_ne_nil _ (List.cons_ne_nil _ _))]
    have husage : (!usageLine.isEmpty) = true := by
      rw [Bool.not_eq_true', List.isEmpty_eq_false_iff]
      exact usageLine_ne_nil
    cases hnone : full.isEmpty && index.isEmpty with
    | true =>
      have hblock : (!(formatBlock full index).isEmpty) = false := by
        rw [formatBlock_isEmpty, hnone]
        rfl
      rw [List.filter_cons, hblock, List.filter_cons, husage, hempty.mpr hnone]
      rfl
    | false =>
      have hblock : (!(formatBlock full index).isEmpty) = true := by
        rw [formatBlock_isEmpty, hnone]
        rfl
      have hsome : ¬ (full.map fullText
          ++ if index.isEmpty then [] else [indexLines index]) = [] := fun hnil => by
        rw [hempty.mp hnil] at hnone
        cases hnone
      rw [List.filter_cons, hblock, List.filter_cons, husage, formatBlock_eq, if_pos rfl,
        if_pos rfl, List.filter_nil, join_join_cons _ hsome]

/-- **A memory whose entries can be shown is presented.** -/
theorem presents_assemble {dir : MemoryDir} {store : Store} {reader : Reader}
    (hload : dir.loadStoreUncached root = .ok store)
    (hshow : ∀ entry ∈ store.admitted reader, Showable store reader entry) :
    Presents reader store (store.assemble reader) := by
  have hgroup : ∀ entry ∈ store.admitted reader, ∃ path parent slug text,
      parseEntryText path parent slug text = .ok entry := fun entry hentry =>
    MemoryDir.exists_of_mem_entries hload (List.mem_of_mem_filter hentry)
  refine ⟨(store.groups reader).1, (store.groups reader).2, ?_, assemble_eq store reader,
    fun entry hentry => ?_, fun entry hentry => ?_⟩
  · exact ((List.perm_insertionSort _ _).append (List.perm_insertionSort _ _)).trans
      (List.filter_append_perm _ _)
  · obtain ⟨hadmitted, hfull⟩ :=
      List.mem_filter.mp ((List.perm_insertionSort _ _).mem_iff.mp hentry)
    obtain ⟨path, parent, slug, text, hparse⟩ := hgroup entry hadmitted
    have hown := hshow entry hadmitted
    unfold Showable at hown
    rw [if_pos hfull] at hown
    exact titled_fullText hparse hown
  · obtain ⟨hadmitted, hindex⟩ :=
      List.mem_filter.mp ((List.perm_insertionSort _ _).mem_iff.mp hentry)
    obtain ⟨path, parent, slug, text, hparse⟩ := hgroup entry hadmitted
    have hslug := hshow entry hadmitted
    unfold Showable at hslug
    rw [Bool.not_eq_true'] at hindex
    rw [hindex, if_neg Bool.false_ne_true] at hslug
    unfold indexLine
    simp only [List.mem_append, not_or]
    exact ⟨⟨⟨⟨topic_of_parseEntryText hparse, by decide⟩, hslug⟩, by decide⟩,
      (title_of_parseEntryText hparse).1⟩

/-! ## What holds in every state -/

namespace MemoryState

variable {s t : MemoryState}

/-- What holds in every state. -/
structure Inv (root : String) (s : MemoryState) : Prop where
  memo : ∀ signature store, s.memo = some (signature, store) →
    ∃ old, s.memoized = some old ∧ old.signature = some signature
      ∧ old.loadStoreUncached root = .ok store
  deeds : ∀ deed ∈ s.deeds, deed.Right root

theorem inv_start (dir : MemoryDir) : Inv root { dir } where
  memo _ _ h := nomatch h
  deeds _ h := nomatch h

theorem Inv.tell (h : s.Inv root) {deed : Deed} (hdeed : deed.Right root) :
    (s.tell deed).Inv root where
  memo := h.memo
  deeds other hother := by
    rcases List.mem_append.mp hother with hold | hnew
    · exact h.deeds other hold
    · rw [List.mem_singleton.mp hnew]
      exact hdeed

theorem Inv.served (h : s.Inv root) (hmeets : s.LoadMeets) (hserved : s.served = true)
    {signature : List (String × Stat)} {store : Store} (hmemo : s.memo = some (signature, store)) :
    s.dir.loadStoreUncached root = .ok store := by
  obtain ⟨old, hold, holdSignature, hload⟩ := h.memo signature store hmemo
  have hsteady := hmeets hserved old hold
  unfold MemoryState.served at hserved
  rw [Bool.and_eq_true, hmemo, Option.map_some] at hserved
  have hsignature : s.dir.signature = some signature := (eq_of_beq hserved.2).symm
  obtain ⟨htopics, hfiles⟩ := MemoryDir.same_of_signature hsignature holdSignature hsteady
  rw [MemoryDir.loadStoreUncached_congr htopics hfiles]
  exact hload

theorem Inv.loadStore (h : s.Inv root) (hmeets : s.LoadMeets) :
    (s.loadStore root).1 = s.dir.loadStoreUncached root ∧ (s.loadStore root).2.Inv root := by
  unfold MemoryState.loadStore
  split
  · next signature store hmemo =>
    cases hserved : s.served with
    | false =>
      rw [hserved] at hmemo
      cases hmemo
    | true =>
      rw [hserved, if_pos rfl] at hmemo
      exact ⟨(h.served hmeets hserved hmemo).symm, h⟩
  · split
    · next store hload =>
      refine ⟨hload.symm, ?_⟩
      dsimp only
      split
      · next signature hsignature =>
        refine ⟨fun told kept hkept => ?_, h.deeds⟩
        cases hkept
        exact ⟨s.dir, rfl, hsignature, hload⟩
      · exact h
    · next e hload =>
      refine ⟨hload.symm, ?_⟩
      dsimp only
      split
      · exact ⟨fun _ _ hnone => (nomatch hnone), h.deeds⟩
      · exact h

/-- **Every step that meets the condition** keeps the readers in agreement. -/
theorem Inv.step (h : s.Inv root) {a : MemoryAction} (hmeets : s.Meets root a)
    (hstep : s.step root a = some t) : t.Inv root := by
  cases a with
  | change dir =>
    simp only [MemoryState.step] at hstep
    split at hstep
    · cases hstep
      exact ⟨h.memo, h.deeds⟩
    · cases hstep
  | loadStore =>
    cases hstep
    obtain ⟨hresult, hinv⟩ := h.loadStore hmeets
    exact hinv.tell hresult
  | lint =>
    cases hstep
    refine h.tell ?_
    obtain ⟨violations, hlint⟩ : ∃ violations, s.dir.lint root = .ok violations :=
      MemoryDir.lint_ok hmeets
    refine ⟨violations, hlint, fun hnil => ?_⟩
    rw [hnil] at hlint
    exact MemoryDir.loadStoreUncached_of_lint hlint
  | assemble reader =>
    simp only [MemoryState.step] at hstep
    split at hstep
    · next hdir =>
      cases hstep
      obtain ⟨hload, hshow⟩ := hmeets hdir
      obtain ⟨hresult, hinv⟩ := h.loadStore hload
      refine hinv.tell ?_
      dsimp only [Deed.Right]
      rw [if_pos hdir, hresult]
      cases hstore : s.dir.loadStoreUncached root with
      | error e => rfl
      | ok store =>
        exact ⟨_, rfl, presents_assemble hstore (hshow store (by rw [hstore]; rfl))⟩
    · next hdir =>
      cases hstep
      refine h.tell ?_
      dsimp only [Deed.Right]
      rw [if_neg hdir]

end MemoryState

/-! ## The main result -/

/-- **The readers of the memory agree**: what is served is what is there, `lint` tells all that
keeps the memory from being loaded, and every entry is shown once and with its title, in every run
in which a file with the time and size it had has what it held, no link below `entries` leads to
itself while entries change, `lint` finds texts only, and no entry that is shown has another
heading over its body or a line feed in its name. -/
theorem agree_of_run {dir : MemoryDir} {as : List MemoryAction} {s : MemoryState}
    (hmeets : (MemoryState.system root).Guarded (MemoryState.Meets root) { dir } as)
    (hrun : (MemoryState.system root).run { dir } as = some s) :
    ∀ deed ∈ s.deeds, deed.Right root :=
  ((MemoryState.system root).run_invariant_of_guarded
    (fun _ _ _ hinv hm hstep => MemoryState.Inv.step hinv hm hstep)
    (MemoryState.inv_start dir) hmeets hrun).deeds

/-- A memory of one topic, which is resident, and one entry. -/
def oneEntry (stat : Stat) (text : Except String String) : MemoryDir where
  topics := some { stat := (1, 13), text := .ok "work resident" }
  entries := [("work", .dir [("a.md", ⟨some stat, text⟩)])]

def entryText (title body : String) : String :=
  "---\nscope: user\ntopic: work\naudience: master\ntitle: " ++ title ++ "\n---\n" ++ body

/-- An entry that is edited is what is read next. -/
theorem agree_of_run_edited :
    ∃ s, (MemoryState.system "/m").run { dir := oneEntry (1, 9) (.ok (entryText "A" "one")) }
        [.loadStore, .assemble .master, .change (oneEntry (2, 9) (.ok (entryText "B" "two"))),
          .lint, .loadStore, .assemble .master, .assemble (.worker "work")] = some s
      ∧ ∀ deed ∈ s.deeds, deed.Right "/m" := by
  obtain ⟨s, hs⟩ := Option.isSome_iff_exists.mp (show ((MemoryState.system "/m").run
    { dir := oneEntry (1, 9) (.ok (entryText "A" "one")) }
    [.loadStore, .assemble .master, .change (oneEntry (2, 9) (.ok (entryText "B" "two"))),
      .lint, .loadStore, .assemble .master, .assemble (.worker "work")]).isSome = true by
    decide +kernel)
  exact ⟨s, hs, agree_of_run (TransitionSystem.guarded_of_check (by decide +kernel)) hs⟩

def noText : MemoryDir := oneEntry (1, 1) (.error "'utf-8' codec can't decode byte 0xff")

/-- A memory with one entry, whose body opens with a heading of its own. -/
def ownHeading : MemoryDir := oneEntry (1, 9) (.ok (entryText "A" "# Details\none"))

def headedEntry : Entry where
  path := "/m/entries/work/a.md"
  parent := "work"
  topic := some "work"
  slug := "a"
  scope := some "user"
  audience := some ["master"]
  audienceRaw := some "master"
  created := none
  source := none
  revises := none
  title := "A"
  titleInHeader := true
  body := "# Details\none"

theorem not_presents_ownHeading :
    ¬ Presents .master ⟨[("work", true)], [headedEntry]⟩ (some "# Details\none".toList) := by
  rintro ⟨full, index, hperm, hblock, htitled, -⟩
  have hadmitted : Store.admitted ⟨[("work", true)], [headedEntry]⟩ .master = [headedEntry] := by
    decide
  rw [hadmitted, List.perm_singleton, List.append_eq_singleton_iff] at hperm
  rcases hperm with ⟨rfl, rfl⟩ | ⟨rfl, rfl⟩
  · have hother : (some "# Details\none".toList : Option (List Char))
        ≠ if pieces .master [] [headedEntry] = [] then none
          else some (Text.join blankLine (pieces .master [] [headedEntry])) := by
      decide +kernel
    exact hother hblock
  · have huntitled : ¬ Titled (fullText headedEntry) headedEntry.title := by
      decide +kernel
    exact huntitled (htitled headedEntry (List.mem_singleton_self _))

/-- **`lint` raises for a file that is no text, and an entry is shown without its title.** -/
theorem walks_disagree :
    (∃ s, (MemoryState.system "/m").run { dir := noText } [.lint] = some s
      ∧ ∃ deed ∈ s.deeds, ¬ deed.Right "/m")
    ∧ ∃ s, (MemoryState.system "/m").run { dir := ownHeading } [.assemble .master] = some s
      ∧ ∃ deed ∈ s.deeds, ¬ deed.Right "/m" := by
  constructor
  · refine ⟨_, rfl, .linted noText (noText.lint "/m"), List.mem_singleton_self _, ?_⟩
    rintro ⟨violations, hok, -⟩
    have hraised : (noText.lint "/m").isOk = false := by
      decide +kernel
    rw [hok] at hraised
    cases hraised
  · have hload : ownHeading.loadStoreUncached "/m"
        = .ok ⟨[("work", true)], [headedEntry]⟩ := by
      decide +kernel
    refine ⟨_, rfl, .assembled ownHeading .master
      ((({ dir := ownHeading } : MemoryState).loadStore "/m").1.map fun store =>
        store.assemble .master), List.mem_singleton_self _, fun hright => ?_⟩
    have hdir : ownHeading.isDir = true := rfl
    dsimp only [Deed.Right] at hright
    rw [if_pos hdir, hload] at hright
    obtain ⟨block, hblock, hpresents⟩ := hright
    have hshown : block = some "# Details\none".toList := by
      have hseen : ((({ dir := ownHeading } : MemoryState).loadStore "/m").1.map fun store =>
          store.assemble .master).toOption = some (some "# Details\none".toList) := by
        decide +kernel
      rw [hblock] at hseen
      exact Option.some.inj hseen
    rw [hshown] at hpresents
    exact not_presents_ownHeading hpresents

end MemoryStore
