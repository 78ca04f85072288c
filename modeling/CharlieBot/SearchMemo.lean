import CharlieBot.Lib.LruMap
import CharlieBot.Lib.TextSearch
import CharlieBot.Lib.Transition
import Mathlib.Data.List.Sort

/-!
# The search and the misses it remembers

The sidebar's search reads the chat file of every active session whose name
does not match, and a query grows letter by letter. A file that was read and
does not have the needle is remembered with its stat, so that the same file
need not be read for a longer needle, and a file that has grown since is read
from shortly before its old end on.

A remembered miss is a fact about a beginning of the file, which stays what
it is for as long as the file has its inode (`Inv.roots`). What is made of it
is another question. The reader that starts near the old end may start inside
a character, and then sees replacement characters that are not in the file;
and it lower-cases what it reads piece by piece, where the lower case of a
capital sigma depends on the letters around it, those of other pieces
included. Along the runs in which neither happens, the search answers as
one that reads every file whole (`faithful_of_run`).
-/

namespace SessionSearch

open Text

/-! ## The search -/

def searchResultLimit : ℕ := 200

def searchMissMemoLimit : ℕ := 256

def searchMissRootsPerFile : ℕ := 8

def searchChunkChars : ℕ := 2 ^ 18

/-- What the memo keeps of a file's stat. -/
structure Signature where
  mtimeNs : ℕ
  size : ℕ
  ino : ℕ
  deriving DecidableEq, Repr

/-- A session's chat file. -/
structure ChatFile where
  text : List Char
  mtimeNs : ℕ
  ino : ℕ

/-- `path.stat()`. -/
def ChatFile.stat (f : ChatFile) : Signature := ⟨f.mtimeNs, utf8Size f.text, f.ino⟩

/-- What the search reads of a session's metadata. -/
structure SessionRow where
  id : String
  name : List Char
  active : Bool
  updatedAt : ℕ
  deriving DecidableEq, Repr

/-- The needles a file does not have, each with the file's stat when that
was found. -/
abbrev MissRoots := LruMap (List Char) Signature

/-- The needles with their stats, `roots.items()`. -/
def MissRoots.items (roots : MissRoots) : List (List Char × Signature) :=
  roots.entries.entries.map fun e => (e.1, e.2)

/-- The size of the largest file a root was proved at that has grown to the
one in hand. -/
def bestSize (roots : List (List Char × Signature)) (sig : Signature) (queryLower : List Char) :
    Option ℕ :=
  roots.foldl (fun best root =>
    if !root.1.isPrefixOf queryLower then best
    else if root.2.ino = sig.ino ∧ sig.size > root.2.size ∧ best.all (root.2.size > ·) then
      some root.2.size
    else best) none

def absenceRescanStart (roots : List (List Char × Signature)) (sig : Signature)
    (queryLower : List Char) : Option ℕ :=
  if roots.any fun root => root.1.isPrefixOf queryLower && root.2 = sig then none
  else match bestSize roots sig queryLower with
    | none => some 0
    | some best => some (best - (4 * queryLower.length + 8))

/-- The text the reader has, from a byte on: a file that is read from its
start is decoded as it is. -/
def streamText (text : List Char) (start : ℕ) : List Char :=
  newlines (if start = 0 then text else decodeFrom start text)

variable (C : CaseTable) (chunkChars : ℕ)

/-- The lower case of what is read, piece by piece. -/
def loweredChunks (text : List Char) (start : ℕ) : List (List Char) :=
  (chunks chunkChars (streamText text start)).map C.lower

def scanContentForHit (text queryLower : List Char) (start : ℕ) : Bool :=
  scanWindows queryLower [] (loweredChunks C chunkChars text start)

/-- The text of a file as a search that reads it whole sees it. -/
def shown (text : List Char) : List Char := C.lower (newlines text)

/-- Whether the name has the needle. -/
def nameMatches (queryLower : List Char) (row : SessionRow) : Bool :=
  contains queryLower (C.lower row.name)

/-- The rows in the order they are listed in. -/
def newestFirst (rows : List SessionRow) : List SessionRow :=
  rows.insertionSort fun a b => b.updatedAt ≤ a.updatedAt

/-- The sessions whose chat files are searched. -/
def contentCandidates (queryLower : List Char) (metas : List SessionRow) : List SessionRow :=
  metas.filter fun row => !nameMatches C queryLower row && row.active

/-- The rows of the result: the matches by name, the hits, and of both the
newest. -/
def resultRows (queryLower : List Char) (metas contentHits : List SessionRow) : List SessionRow :=
  (newestFirst ((newestFirst (metas.filter (nameMatches C queryLower))).take searchResultLimit
    ++ contentHits)).take searchResultLimit

/-- Whether a file has the needle, by a scan of the whole file. -/
def fullHit (queryLower : List Char) : Option ChatFile → Bool
  | none => false
  | some f => contains queryLower (shown C f.text)

/-- **The search without a memo**: every candidate's file is read whole. -/
def fullSearch (metas : List SessionRow) (files : String → Option ChatFile) (query : List Char) :
    List SessionRow :=
  resultRows C (C.lower query) metas ((contentCandidates C (C.lower query) metas).filter fun row =>
    fullHit C (C.lower query) (files row.id))

/-! ## The state and its steps -/

/-- What a query was answered, with what it was asked of. -/
structure SearchAnswer where
  metas : List SessionRow
  files : String → Option ChatFile
  query : List Char
  rows : List SessionRow

/-- **The sessions, their chat files and the search's memo.** -/
structure SearchState where
  metas : List SessionRow := []
  files : String → Option ChatFile := fun _ => none
  /-- Every inode a chat file has had. -/
  inodes : List ℕ := []
  searchMissMemo : LruMap String MissRoots := { limit := searchMissMemoLimit }
  answers : List SearchAnswer := []

/-- A file that has to be read for a query. -/
structure ReadJob where
  row : SessionRow
  text : List Char
  sig : Signature
  start : ℕ
  deriving DecidableEq, Repr

inductive SearchAction where
  | setMetas (metas : List SessionRow)
  /-- A chat file is written anew and put in the place of the old one, or is
  created. -/
  | rewrite (id : String) (text : List Char) (mtimeNs ino : ℕ)
  | append (id : String) (text : List Char) (mtimeNs : ℕ)
  /-- A query is answered; its misses come in from the pool in some order. -/
  | query (query : List Char) (landed : List ReadJob)

def memoRoots (memo : LruMap String MissRoots) (id : String) : List (List Char × Signature) :=
  match memo.lookup id with
  | some roots => roots.items
  | none => []

def memoizeSearchMiss (memo : LruMap String MissRoots) (key : String) (sig : Signature)
    (needle : List Char) : LruMap String MissRoots :=
  let roots := (memo.lookup key).getD { limit := searchMissRootsPerFile }
  memo.store key (roots.store needle sig)

namespace SearchState

variable (s : SearchState)

/-- What a candidate's file has to be read for, when it has to be. -/
def classify (queryLower : List Char) (row : SessionRow) : Option ReadJob :=
  match s.files row.id with
  | none => none
  | some f => (absenceRescanStart (memoRoots s.searchMissMemo row.id) f.stat queryLower).map
      (⟨row, f.text, f.stat, ·⟩)

def readJobs (queryLower : List Char) : List ReadJob :=
  (contentCandidates C queryLower s.metas).filterMap (s.classify queryLower)

/-- Whether a file that was read has the needle. -/
def jobHit (queryLower : List Char) (job : ReadJob) : Bool :=
  scanContentForHit C chunkChars job.text queryLower job.start

def step (s : SearchState) : SearchAction → Option SearchState
  | .setMetas metas => some { s with metas }
  | .rewrite id text mtimeNs ino =>
    if ino ∈ s.inodes then none
    else some { s with
      files := Function.update s.files id (some ⟨text, mtimeNs, ino⟩), inodes := ino :: s.inodes }
  | .append id text mtimeNs => do
    let f ← s.files id
    some { s with files := Function.update s.files id (some ⟨f.text ++ text, mtimeNs, f.ino⟩) }
  | .query query landed =>
    let queryLower := C.lower query
    let jobs := s.readJobs C queryLower
    let hits := (jobs.filter (jobHit C chunkChars queryLower)).map ReadJob.row
    if landed.isPerm (jobs.filter fun job => !jobHit C chunkChars queryLower job) then
      some { s with
        searchMissMemo := landed.foldl (fun memo job =>
          memoizeSearchMiss memo job.row.id job.sig queryLower) s.searchMissMemo
        answers := s.answers ++ [⟨s.metas, s.files, query,
          resultRows C queryLower s.metas hits⟩] }
    else none

def system : TransitionSystem SearchState SearchAction := ⟨step C chunkChars⟩

/-- **Every query was answered as by a scan of every file.** -/
def Faithful : Prop :=
  ∀ a ∈ s.answers, a.rows = fullSearch C a.metas a.files a.query

end SearchState

/-! ## One file -/

/-- **A root is true of a text**: a beginning of it, of the size the root was
proved at, does not have the needle. -/
def RootTrue (needle : List Char) (sig : Signature) (text : List Char) : Prop :=
  ∃ old, old <+: text ∧ utf8Size old = sig.size ∧ ¬ needle <:+: shown C old

/-- **The reader sees the file's own text.** What it lower-cases piece by
piece is an end of the lower-cased file, behind the replacement characters
of a character the reader started inside of, which the needle has none of;
and the text that was searched before has the lower case it had. -/
structure ReadsTrue (roots : List (List Char × Signature)) (f : ChatFile)
    (queryLower : List Char) (start : ℕ) : Prop where
  lowered : ∃ shownEnd, shownEnd <:+ shown C f.text ∧
    (loweredChunks C chunkChars f.text start).flatten
      = List.replicate (seek start f.text).1 replacement ++ shownEnd
  aligned : (seek start f.text).1 = 0 ∨ replacement ∉ queryLower
  kept : ∀ best, bestSize roots f.stat queryLower = some best → ∀ old, old <+: f.text →
    utf8Size old = best → shown C old <+: shown C f.text

theorem mem_of_bestSize {roots : List (List Char × Signature)} {sig : Signature}
    {queryLower : List Char} {best : ℕ} (h : bestSize roots sig queryLower = some best) :
    ∃ root ∈ roots, root.1 <+: queryLower ∧ root.2.ino = sig.ino ∧ root.2.size = best
      ∧ best < sig.size := by
  have haux : ∀ (roots : List (List Char × Signature)) (init : Option ℕ),
      roots.foldl (fun best root =>
        if !root.1.isPrefixOf queryLower then best
        else if root.2.ino = sig.ino ∧ sig.size > root.2.size ∧ best.all (root.2.size > ·) then
          some root.2.size
        else best) init = some best →
      init = some best ∨ ∃ root ∈ roots, root.1 <+: queryLower ∧ root.2.ino = sig.ino
        ∧ root.2.size = best ∧ best < sig.size := by
    intro roots
    induction roots with
    | nil => exact fun init h => .inl h
    | cons root roots ih =>
      intro init h
      rw [List.foldl_cons] at h
      rcases ih _ h with hinit | ⟨other, hother, hspec⟩
      · split at hinit
        · exact .inl hinit
        · next hpre =>
          rw [Bool.not_eq_true', Bool.not_eq_false, List.isPrefixOf_iff_prefix] at hpre
          split at hinit
          · next hgrown =>
            cases hinit
            exact .inr ⟨root, List.mem_cons_self, hpre, hgrown.1, rfl, hgrown.2.1⟩
          · exact .inl hinit
      · exact .inr ⟨other, List.mem_cons_of_mem _ hother, hspec⟩
  rcases haux roots none h with h | h
  · cases h
  · exact h

variable {C chunkChars} {roots : List (List Char × Signature)} {f : ChatFile}
  {queryLower : List Char} {start : ℕ}

/-- What is lower-cased piece by piece is no shorter than the text behind
the seek is in lower case. -/
theorem ReadsTrue.shownEnd (h : ReadsTrue C chunkChars roots f queryLower start)
    (hchunk : 0 < chunkChars) : ∃ shownEnd, shownEnd <:+ shown C f.text ∧
      (loweredChunks C chunkChars f.text start).flatten
        = List.replicate (seek start f.text).1 replacement ++ shownEnd ∧
      C.lowerLength (newlines (seek start f.text).2) ≤ shownEnd.length := by
  obtain ⟨shownEnd, hsuffix, heq⟩ := h.lowered
  refine ⟨shownEnd, hsuffix, heq, ?_⟩
  have hlen := congrArg List.length heq
  rw [loweredChunks, C.length_flatten_lower, flatten_chunks hchunk, List.length_append,
    List.length_replicate] at hlen
  unfold streamText at hlen
  split at hlen
  · next h0 =>
    subst h0
    rw [seek_zero] at hlen ⊢
    show C.lowerLength (newlines f.text) ≤ _
    omega
  · have hstray := C.length_le_lowerLength (List.replicate (seek start f.text).1 replacement)
    rw [decodeFrom, newlines_replicate_append _ (by decide), C.lowerLength_append] at hlen
    rw [List.length_replicate] at hstray
    omega

/-- Behind the bytes a scan starts before the old end, there are as many
characters in lower case as the needle has, but one. -/
theorem le_lowerLength_rest {text old : List Char} {best len : ℕ} (hold : old <+: text)
    (hsize : utf8Size old = best) (hstart : start + (4 * len + 8) = best) :
    C.lowerLength (newlines text) + (len - 1)
      ≤ C.lowerLength (newlines old) + C.lowerLength (newlines (seek start text).2) := by
  obtain ⟨more, rfl⟩ := hold
  obtain ⟨before, htext, hbefore, hstray⟩ := seek_spec (n := start) (s := old ++ more)
    (by rw [utf8Size_append]; omega)
  generalize seek start (old ++ more) = landing at *
  -- what the seek leaves out is a beginning of the old text
  have hbegin : before <+: old ++ more := ⟨_, htext.symm⟩
  obtain ⟨mid, rfl⟩ := prefix_of_utf8Size_le hbegin (List.prefix_append old more) (by omega)
  rw [utf8Size_append] at hsize
  rw [List.append_assoc, List.append_cancel_left_eq] at htext
  cases mid with
  | nil =>
    rw [utf8Size_nil] at hsize
    omega
  | cons c mid =>
    obtain ⟨front, hfront⟩ := newlines_append before c
    have hmid := utf8Size_le_newlines (c :: mid)
    have hlow := C.length_le_lowerLength (newlines (c :: mid))
    rw [← htext, List.append_assoc, List.cons_append, hfront, hfront, C.lowerLength_append,
      C.lowerLength_append]
    omega

theorem exists_of_suffix_append {α : Type*} {front back tail : List α}
    (h : tail <:+ front ++ back) (hlen : back.length ≤ tail.length) :
    ∃ mid, tail = mid ++ back ∧ mid <:+ front := by
  obtain ⟨mid, rfl⟩ := List.suffix_of_suffix_length_le ⟨front, rfl⟩ h hlen
  obtain ⟨lead, hlead⟩ := h
  rw [← List.append_assoc, List.append_cancel_right_eq] at hlead
  exact ⟨mid, rfl, lead, hlead⟩

/-- **The verdict of a read is that of the whole file.** -/
theorem scanContentForHit_iff (hchunk : 0 < chunkChars) (hne : queryLower ≠ [])
    (hroots : ∀ root ∈ roots, root.2.ino = f.ino → RootTrue C root.1 root.2 f.text)
    (hstart : absenceRescanStart roots f.stat queryLower = some start)
    (h : ReadsTrue C chunkChars roots f queryLower start) :
    scanContentForHit C chunkChars f.text queryLower start = true
      ↔ queryLower <:+: shown C f.text := by
  obtain ⟨shownEnd, hsuffix, heq, hlen⟩ := h.shownEnd hchunk
  have hnil : ¬ queryLower <:+: [] := fun h => hne (List.infix_nil.mp h)
  rw [scanContentForHit, scanWindows_iff List.suffix_rfl (Nat.min_le_right _ _) hnil,
    List.nil_append, heq, infix_replicate_append hne h.aligned]
  -- a scan from the start sees the whole
  have hwhole : start = 0 → shownEnd = shown C f.text := by
    rintro rfl
    refine hsuffix.eq_of_length_le ?_
    rw [shown, C.length_lower]
    rwa [seek_zero] at hlen
  unfold absenceRescanStart at hstart
  split at hstart
  · cases hstart
  · split at hstart
    · cases hstart
      rw [hwhole rfl]
    · next best hbest =>
      cases hstart
      rcases Nat.eq_zero_or_pos (best - (4 * queryLower.length + 8)) with hzero | hpos
      · rw [hwhole hzero]
      · obtain ⟨root, hmem, hpre, hino, hsize, hgrown⟩ := mem_of_bestSize hbest
        obtain ⟨old, hold, hsizeOld, hmiss⟩ := hroots root hmem hino
        have hmissed : ¬ queryLower <:+: shown C old := fun hin =>
          hmiss (hpre.isInfix.trans hin)
        obtain ⟨more, hmore⟩ := h.kept best hbest old hold (hsizeOld.trans hsize)
        have hrest := le_lowerLength_rest (C := C) hold (hsizeOld.trans hsize)
          (Nat.sub_add_cancel (Nat.le_of_lt (Nat.lt_of_sub_pos hpos)))
        have hshown := congrArg List.length hmore
        rw [List.length_append, shown, shown, C.length_lower, C.length_lower] at hshown
        rw [← hmore] at hsuffix ⊢
        obtain ⟨mid, rfl, hmid⟩ := exists_of_suffix_append hsuffix (by omega)
        rw [List.length_append] at hlen
        exact (infix_append_of_suffix hmid (by omega) hmissed).symm

/-! ## The memo -/

theorem mem_items {roots : MissRoots} {needle : List Char} {sig : Signature} :
    (needle, sig) ∈ roots.items ↔ roots.lookup needle = some sig := by
  constructor
  · intro h
    obtain ⟨e, he, heq⟩ := List.mem_map.mp h
    cases heq
    exact AList.mem_lookup_iff.mpr he
  · intro h
    exact List.mem_map.mpr ⟨⟨needle, sig⟩, AList.mem_lookup_iff.mp h, rfl⟩

/-- **What the memo tells after a miss** is the miss, or was told before. -/
theorem mem_memoRoots_memoize {memo : LruMap String MissRoots} {key id : String}
    {sig : Signature} {needle : List Char} {root : List Char × Signature}
    (h : root ∈ memoRoots (memoizeSearchMiss memo key sig needle) id) :
    id = key ∧ root = (needle, sig) ∨ root ∈ memoRoots memo id := by
  unfold memoRoots at h
  split at h
  · next roots hlookup =>
    rcases LruMap.lookup_store hlookup with ⟨rfl, rfl⟩ | ⟨-, hold⟩
    · have hroot := mem_items.mp h
      rcases LruMap.lookup_store hroot with ⟨hneedle, hsig⟩ | ⟨-, hfound⟩
      · exact .inl ⟨rfl, Prod.ext hneedle hsig⟩
      · right
        unfold memoRoots
        split
        · next roots hroots =>
          rw [hroots] at hfound
          exact mem_items.mpr hfound
        · next hnone =>
          rw [hnone] at hfound
          cases hfound
    · right
      unfold memoRoots
      rw [hold]
      exact h
  · cases h

theorem mem_memoRoots_foldl {landed : List ReadJob} {memo : LruMap String MissRoots}
    {id : String} {root : List Char × Signature}
    (h : root ∈ memoRoots (landed.foldl (fun memo job =>
      memoizeSearchMiss memo job.row.id job.sig queryLower) memo) id) :
    (∃ job ∈ landed, id = job.row.id ∧ root = (queryLower, job.sig))
      ∨ root ∈ memoRoots memo id := by
  induction landed generalizing memo with
  | nil => exact .inr h
  | cons job landed ih =>
    rw [List.foldl_cons] at h
    rcases ih h with ⟨other, hother, hspec⟩ | hmemo
    · exact .inl ⟨other, List.mem_cons_of_mem _ hother, hspec⟩
    · rcases mem_memoRoots_memoize hmemo with hnew | hold
      · exact .inl ⟨job, List.mem_cons_self, hnew⟩
      · exact .inr hold

/-! ## The run -/

namespace SearchState

variable (C chunkChars) in
/-- **The query reads what is in the files.** Of every file it has to read,
the reader sees the file's own text in its own lower case. -/
def Sound (s : SearchState) : SearchAction → Prop
  | .query query _ => ∀ row ∈ contentCandidates C (C.lower query) s.metas, ∀ f,
      s.files row.id = some f → ∀ start,
      absenceRescanStart (memoRoots s.searchMissMemo row.id) f.stat (C.lower query) = some start →
      ReadsTrue C chunkChars (memoRoots s.searchMissMemo row.id) f (C.lower query) start
  | _ => True

variable (C) in
/-- **What holds of a state.** -/
structure Inv (s : SearchState) : Prop where
  inodes : ∀ id f, s.files id = some f → f.ino ∈ s.inodes
  /-- A root is of an inode there was, and is true of the file that has it. -/
  roots : ∀ id root, root ∈ memoRoots s.searchMissMemo id → root.2.ino ∈ s.inodes ∧
    ∀ f, s.files id = some f → root.2.ino = f.ino → RootTrue C root.1 root.2 f.text
  answers : s.Faithful C

variable {s : SearchState}

theorem inv_empty : Inv C {} where
  inodes _ _ h := by cases h
  roots _ _ h := by cases h
  answers _ h := by cases h

theorem ne_nil_of_candidate {metas : List SessionRow} {row : SessionRow}
    (h : row ∈ contentCandidates C queryLower metas) : queryLower ≠ [] := by
  rintro rfl
  have hname : nameMatches C [] row = true := contains_iff.mpr List.nil_infix
  have := (List.mem_filter.mp h).2
  rw [hname] at this
  cases this

/-- **What becomes of a candidate**: what the memo answers has not the
needle, and what is read is a hit when the whole file has it. -/
theorem Inv.classify (h : Inv C s) (hchunk : 0 < chunkChars) {query : List Char}
    {landed : List ReadJob} (hsound : Sound C chunkChars s (.query query landed))
    {row : SessionRow} (hrow : row ∈ contentCandidates C (C.lower query) s.metas) :
    (s.classify (C.lower query) row = none ∧ fullHit C (C.lower query) (s.files row.id) = false) ∨
    ∃ job, s.classify (C.lower query) row = some job ∧ job.row = row ∧
      (∃ f, s.files row.id = some f ∧ job.sig = f.stat) ∧
      jobHit C chunkChars (C.lower query) job = fullHit C (C.lower query) (s.files row.id) := by
  unfold SearchState.classify
  cases hf : s.files row.id with
  | none => exact .inl ⟨rfl, rfl⟩
  | some f =>
    have hroots : ∀ root ∈ memoRoots s.searchMissMemo row.id, root.2.ino = f.ino →
        RootTrue C root.1 root.2 f.text := fun root hroot hino =>
      (h.roots row.id root hroot).2 f hf hino
    cases hstart : absenceRescanStart (memoRoots s.searchMissMemo row.id) f.stat (C.lower query) with
    | none =>
      refine .inl ⟨Option.map_eq_none_iff.mpr hstart, ?_⟩
      unfold absenceRescanStart at hstart
      split at hstart
      · next hany =>
        obtain ⟨root, hroot, hcover⟩ := List.any_eq_true.mp hany
        rw [Bool.and_eq_true, List.isPrefixOf_iff_prefix, decide_eq_true_eq] at hcover
        obtain ⟨hpre, hsig⟩ := hcover
        obtain ⟨old, hold, hsize, hmiss⟩ := hroots root hroot (by rw [hsig]; rfl)
        rw [hsig] at hsize
        obtain rfl : old = f.text :=
          hold.eq_of_length_le (prefix_of_utf8Size_le List.prefix_rfl hold (Nat.le_of_eq
            hsize.symm)).length_le
        refine Bool.eq_false_iff.mpr fun hhit => hmiss ?_
        exact hpre.isInfix.trans (contains_iff.mp hhit)
      · split at hstart <;> cases hstart
    | some start =>
      have hjob := Option.map_eq_some_iff.mpr
        ⟨start, hstart, (rfl : (⟨row, f.text, f.stat, start⟩ : ReadJob) = _)⟩
      refine .inr ⟨⟨row, f.text, f.stat, start⟩, hjob, rfl, ⟨f, rfl, rfl⟩, ?_⟩
      rw [Bool.eq_iff_iff]
      refine (scanContentForHit_iff hchunk (ne_nil_of_candidate hrow) hroots hstart
        (hsound row hrow f hf start hstart)).trans ?_
      exact contains_iff.symm

theorem hits_eq {classify : SessionRow → Option ReadJob} {jobHit : ReadJob → Bool}
    {full : SessionRow → Bool} {rows : List SessionRow}
    (h : ∀ row ∈ rows, classify row = none ∧ full row = false ∨
      ∃ job, classify row = some job ∧ job.row = row ∧ jobHit job = full row) :
    ((rows.filterMap classify).filter jobHit).map ReadJob.row = rows.filter full := by
  induction rows with
  | nil => rfl
  | cons row rows ih =>
    have ih := ih fun other hother => h other (List.mem_cons_of_mem _ hother)
    rcases h row List.mem_cons_self with ⟨hnone, hfull⟩ | ⟨job, hsome, hrow, hhit⟩
    · rw [List.filterMap_cons_none hnone, ih, List.filter_cons_of_neg (by rw [hfull]; decide)]
    · rw [List.filterMap_cons_some hsome]
      cases hfull : full row with
      | true =>
        rw [List.filter_cons_of_pos (hhit.trans hfull), List.map_cons, ih, hrow,
          List.filter_cons_of_pos hfull]
      | false =>
        rw [List.filter_cons_of_neg (by rw [hhit, hfull]; decide), ih,
          List.filter_cons_of_neg (by rw [hfull]; decide)]

theorem rootTrue_append {needle text : List Char} {sig : Signature} (more : List Char)
    (h : RootTrue C needle sig text) : RootTrue C needle sig (text ++ more) := by
  obtain ⟨old, hold, hspec⟩ := h
  exact ⟨old, hold.trans (List.prefix_append _ _), hspec⟩

theorem eq_or_eq_of_update {files : String → Option ChatFile} {id other : String} {f g : ChatFile}
    (h : Function.update files id (some f) other = some g) :
    other = id ∧ g = f ∨ files other = some g := by
  by_cases hid : other = id
  · subst hid
    rw [Function.update_self] at h
    exact .inl ⟨rfl, (Option.some.inj h).symm⟩
  · rw [Function.update_of_ne hid] at h
    exact .inr h

/-- The invariant is kept when a file takes the place of another, where what
is remembered under its inode is true of it. -/
theorem Inv.setFile (h : Inv C s) {id : String} {f : ChatFile} {inodes : List ℕ}
    (hsub : s.inodes ⊆ inodes) (hino : f.ino ∈ inodes)
    (hroots : ∀ root ∈ memoRoots s.searchMissMemo id, root.2.ino = f.ino →
      RootTrue C root.1 root.2 f.text) :
    Inv C { s with files := Function.update s.files id (some f), inodes } := by
  refine ⟨fun other g hg => ?_, fun other root hroot => ?_, h.answers⟩
  · rcases eq_or_eq_of_update hg with ⟨-, rfl⟩ | hold
    · exact hino
    · exact hsub (h.inodes other g hold)
  · obtain ⟨hused, htrue⟩ := h.roots other root hroot
    refine ⟨hsub hused, fun g hg heq => ?_⟩
    rcases eq_or_eq_of_update hg with ⟨rfl, rfl⟩ | hold
    · exact hroots root hroot heq
    · exact htrue g hold heq

/-- **A step keeps the invariant**, where a query reads what is in the
files. -/
theorem Inv.step (h : Inv C s) (hchunk : 0 < chunkChars) {a : SearchAction} {s' : SearchState}
    (hsound : Sound C chunkChars s a) (hstep : s.step C chunkChars a = some s') : Inv C s' := by
  cases a with
  | setMetas metas =>
    cases hstep
    exact ⟨h.inodes, h.roots, h.answers⟩
  | rewrite id text mtimeNs ino =>
    simp only [SearchState.step] at hstep
    split at hstep
    · cases hstep
    · next hfresh =>
      cases hstep
      refine h.setFile (List.subset_cons_self _ _) List.mem_cons_self fun root hroot hino => ?_
      -- the file has an inode that no root has
      have hused := (h.roots id root hroot).1
      rw [hino] at hused
      exact absurd hused hfresh
  | append id text mtimeNs =>
    obtain ⟨old, hold, hstep⟩ := Option.bind_eq_some_iff.mp hstep
    cases hstep
    refine h.setFile (List.Subset.refl _) (h.inodes id old hold) fun root hroot hino => ?_
    exact rootTrue_append text ((h.roots id root hroot).2 old hold hino)
  | query query landed =>
    have hclassify := fun row (hrow : row ∈ _) => h.classify hchunk hsound hrow
    simp only [SearchState.step] at hstep
    split at hstep
    · next hperm =>
      cases hstep
      rw [List.isPerm_iff] at hperm
      refine ⟨h.inodes, fun id root hroot => ?_, fun a ha => ?_⟩
      · rcases mem_memoRoots_foldl hroot with ⟨job, hjob, rfl, rfl⟩ | hold
        · -- a file that was read and does not have the needle
          obtain ⟨hjob, hmiss⟩ := List.mem_filter.mp (hperm.mem_iff.mp hjob)
          obtain ⟨row, hrow, hsome⟩ := List.mem_filterMap.mp hjob
          rcases hclassify row hrow with ⟨hnone, -⟩ | ⟨job', hsome', hjobRow, ⟨f, hf, hsig⟩, hhit⟩
          · rw [hnone] at hsome
            cases hsome
          · rw [hsome] at hsome'
            cases hsome'
            rw [hjobRow]
            refine ⟨?_, fun g hg _ => ?_⟩
            · rw [hsig]
              exact h.inodes row.id f hf
            · rw [hf] at hg
              cases hg
              refine ⟨f.text, List.prefix_rfl, ?_, fun hin => ?_⟩
              · rw [hsig]
                rfl
              · rw [hhit, hf] at hmiss
                have hfull : fullHit C (C.lower query) (some f) = true := contains_iff.mpr hin
                rw [hfull] at hmiss
                cases hmiss
        · exact h.roots id root hold
      · rcases List.mem_append.mp ha with ha | ha
        · exact h.answers a ha
        · rw [List.mem_singleton] at ha
          subst ha
          refine congrArg (resultRows C (C.lower query) s.metas) (hits_eq fun row hrow => ?_)
          rcases hclassify row hrow with hnone | ⟨job, hsome, hjobRow, -, hhit⟩
          · exact .inl hnone
          · exact .inr ⟨job, hsome, hjobRow, hhit⟩
    · cases hstep

/-- **The scan by pieces**: the windows find a needle exactly where the text
has it, at every chunk size, where the pieces have the lower case of the
whole. -/
theorem scan_eq_contains {text : List Char} (hne : queryLower ≠ [])
    (hlower : (loweredChunks C chunkChars text 0).flatten = shown C text) :
    scanContentForHit C chunkChars text queryLower 0 = contains queryLower (shown C text) := by
  have hnil : ¬ queryLower <:+: [] := fun h => hne (List.infix_nil.mp h)
  rw [Bool.eq_iff_iff, scanContentForHit, scanWindows_iff List.suffix_rfl (Nat.min_le_right _ _)
    hnil, List.nil_append, hlower, contains_iff]

/-- **The search answers as one that reads every file whole**, along every
run whose queries see the files' own text in its own lower case; and a scan by
pieces of any size finds what is in the whole. -/
theorem faithful_of_run {as : List SearchAction} (hchunk : 0 < chunkChars)
    (hrun : (system C chunkChars).run {} as = some s)
    (hsound : (system C chunkChars).Guarded (Sound C chunkChars) {} as) :
    s.Faithful C ∧ ∀ text queryLower, queryLower ≠ [] →
      (loweredChunks C chunkChars text 0).flatten = shown C text →
      scanContentForHit C chunkChars text queryLower 0 = contains queryLower (shown C text) := by
  have hinv : Inv C s := (system C chunkChars).run_invariant_of_guarded
    (fun _ _ _ h hs hstep => h.step hchunk hs hstep) inv_empty hsound hrun
  exact ⟨hinv.answers, fun text queryLower hne hlower => scan_eq_contains hne hlower⟩

/-! ## What the server writes

The server's own events are written in ASCII, every other character escaped.
In such a file no byte is inside a character, and there is no sigma. -/

def IsAscii (text : List Char) : Prop := ∀ c ∈ text, c.utf8Size = 1

instance (text : List Char) : Decidable (IsAscii text) :=
  List.decidableBAll (fun c : Char => c.utf8Size = 1) text

/-- **A file in ASCII is read as it is**, from wherever the reader starts. -/
theorem readsTrue_of_isAscii {roots : List (List Char × Signature)} {f : ChatFile} {start : ℕ}
    (hchunk : 0 < chunkChars) (h : IsAscii f.text) :
    ReadsTrue C chunkChars roots f queryLower start := by
  have hsigma : ∀ s : List Char, s ⊆ f.text → Char.ofNat 0x3A3 ∉ newlines s := by
    intro s hs hmem
    rcases mem_newlines hmem with hmem | heq
    · exact absurd (h _ (hs hmem)) (by decide)
    · exact absurd heq (by decide)
  have hstream : streamText f.text start = newlines (f.text.drop start) := by
    unfold streamText
    split
    · next h0 => rw [h0, List.drop_zero]
    · rw [decodeFrom, seek_of_ascii h]
      rfl
  have hdrop : Char.ofNat 0x3A3 ∉ newlines (f.text.drop start) :=
    hsigma _ (List.drop_sublist _ _).subset
  refine ⟨⟨C.lower (newlines (f.text.drop start)), ?_, ?_⟩, .inl ?_, fun _ _ old hold _ => ?_⟩
  · rw [shown, C.lower_eq_flatMap hdrop, C.lower_eq_flatMap (hsigma _ (List.Subset.refl _))]
    cases hrest : f.text.drop start with
    | nil => exact List.nil_suffix
    | cons c rest =>
      obtain ⟨front, hfront⟩ := newlines_append (f.text.take start) c
      refine ⟨front.flatMap C.lowerChar, ?_⟩
      rw [← List.flatMap_append, ← hfront, ← hrest, List.take_append_drop]
  · have hflat : (chunks chunkChars (streamText f.text start)).flatten
        = newlines (f.text.drop start) := by rw [flatten_chunks hchunk, hstream]
    rw [loweredChunks, C.flatten_lower_eq (by rw [hflat]; exact hdrop), hflat, seek_of_ascii h]
    rfl
  · rw [seek_of_ascii h]
  · obtain ⟨more, hmore⟩ := hold
    have hsub : old ⊆ f.text := by
      rw [← hmore]
      exact List.subset_append_left _ _
    obtain ⟨behind, hbehind⟩ := newlines_prefix old more
    refine ⟨behind.flatMap C.lowerChar, ?_⟩
    rw [shown, shown, C.lower_eq_flatMap (hsigma _ hsub),
      C.lower_eq_flatMap (hsigma _ (List.Subset.refl _)), ← List.flatMap_append, hbehind, hmore]

def WritesAscii : SearchAction → Prop
  | .rewrite _ text _ _ => IsAscii text
  | .append _ text _ => IsAscii text
  | _ => True

/-- **The search sees what the server writes**: where every text is written
in ASCII, every query reads what is in the files. -/
theorem sound_of_ascii {as : List SearchAction} (hchunk : 0 < chunkChars)
    (hascii : ∀ a ∈ as, WritesAscii a) :
    (system C chunkChars).Guarded (Sound C chunkChars) {} as := by
  refine (system C chunkChars).guarded_of_invariant
    (I := fun s => ∀ id f, s.files id = some f → IsAscii f.text) (P := WritesAscii)
    (fun s a hfiles _ => ?_) (fun s a s' hfiles hwrites hstep id f hf => ?_)
    (fun id f hf => by cases hf) hascii
  · cases a with
    | query query landed =>
      exact fun row _ f hf _ _ => readsTrue_of_isAscii hchunk (hfiles row.id f hf)
    | _ => trivial
  · cases a with
    | setMetas metas =>
      cases hstep
      exact hfiles id f hf
    | rewrite other text mtimeNs ino =>
      simp only [system, SearchState.step] at hstep
      split at hstep
      · cases hstep
      · cases hstep
        rcases eq_or_eq_of_update hf with ⟨-, rfl⟩ | hold
        · exact hwrites
        · exact hfiles id f hold
    | append other text mtimeNs =>
      obtain ⟨old, hold, hstep⟩ := Option.bind_eq_some_iff.mp hstep
      cases hstep
      rcases eq_or_eq_of_update hf with ⟨-, rfl⟩ | hkept
      · intro c hc
        exact (List.mem_append.mp hc).elim (hfiles other old hold c) (hwrites c)
      · exact hfiles id f hkept
    | query query landed =>
      simp only [system, SearchState.step] at hstep
      split at hstep
      · cases hstep
        exact hfiles id f hf
      · cases hstep

/-- Lower case of what is written in ASCII and small accented letters. -/
def asciiCase : CaseTable where
  lowerChar c := if c.isUpper then [c.toLower] else [c]
  cased c := c.isAlpha || c = 'é'
  ignorable c := c = '\'' || c = '.' || c = ':'
  lowerChar_ne_nil c := by split <;> exact List.cons_ne_nil _ _

def oneSession : SessionRow := ⟨"s1", "Chat".toList, true, 0⟩

/-- A message in ASCII. -/
def plain : List Char := "\x7b\"type\":\"user\",\"content\":\"Hello\"\x7d\n".toList

/-- A needle that comes in with a second message. -/
def needle : List Char := "WORLD".toList

/-- The second message. -/
def answered : List Char := "\x7b\"type\":\"assistant\",\"content\":\"World\"\x7d\n".toList

/-- A needle is missed, and found when it has come in. -/
theorem faithful_of_run_found : ∃ s, (system asciiCase searchChunkChars).run {}
      [.setMetas [oneSession], .rewrite "s1" plain 1 1,
        .query needle [⟨oneSession, plain, ⟨1, utf8Size plain, 1⟩, 0⟩], .append "s1" answered 2,
        .query needle []] = some s
    ∧ s.answers.map SearchAnswer.rows = [[], [oneSession]] ∧ s.Faithful asciiCase := by
  have hrows : ((system asciiCase searchChunkChars).run {}
      [.setMetas [oneSession], .rewrite "s1" plain 1 1,
        .query needle [⟨oneSession, plain, ⟨1, utf8Size plain, 1⟩, 0⟩], .append "s1" answered 2,
        .query needle []]).map (fun s => s.answers.map SearchAnswer.rows)
      = some [[], [oneSession]] := by decide +kernel
  obtain ⟨s, hrun, hanswers⟩ := Option.map_eq_some_iff.mp hrows
  have hchunk : 0 < searchChunkChars := by decide
  have hplain : IsAscii plain := by decide +kernel
  have hanswered : IsAscii answered := by decide +kernel
  refine ⟨s, hrun, hanswers, (faithful_of_run hchunk hrun (sound_of_ascii hchunk ?_)).1⟩
  intro a ha
  simp only [List.mem_cons, List.not_mem_nil, or_false] at ha
  rcases ha with rfl | rfl | rfl | rfl | rfl
  · trivial
  · exact hplain
  · trivial
  · exact hanswered
  · trivial

/-- A message in accented letters. -/
def accented : List Char := "\x7b\"type\":\"user\",\"content\":\"éééééé\"\x7d\n".toList

/-- The file with the first message, read for a needle. -/
def firstRead : ReadJob := ⟨oneSession, accented, ⟨1, utf8Size accented, 1⟩, 0⟩

/-- **A hit that is in no file.** A replacement character is searched for in
a file without one, and the miss is remembered; a message comes in, and the
search that goes on before the old end starts inside an accented letter and
finds the replacement character it reads there. -/
theorem replacement_found : ∃ s, (system asciiCase searchChunkChars).run {} [.setMetas [oneSession],
      .rewrite "s1" accented 1 1, .query [replacement] [firstRead], .append "s1" plain 2,
      .query [replacement] []] = some s
    ∧ ¬ s.Faithful asciiCase := by
  have hrows : ((system asciiCase searchChunkChars).run {} [.setMetas [oneSession],
      .rewrite "s1" accented 1 1, .query [replacement] [firstRead], .append "s1" plain 2,
      .query [replacement] []]).map (fun s => s.answers.map fun a =>
        (a.rows, fullSearch asciiCase a.metas a.files a.query))
      = some [([], []), ([oneSession], [])] := by decide +kernel
  obtain ⟨s, hrun, hanswers⟩ := Option.map_eq_some_iff.mp hrows
  refine ⟨s, hrun, fun hfaithful => ?_⟩
  have hmem : ([oneSession], []) ∈ s.answers.map fun a =>
      (a.rows, fullSearch asciiCase a.metas a.files a.query) := by
    rw [hanswers]
    exact List.mem_cons_of_mem _ List.mem_cons_self
  obtain ⟨a, ha, heq⟩ := List.mem_map.mp hmem
  have hrow := hfaithful a ha
  rw [(Prod.mk.inj heq).1, (Prod.mk.inj heq).2] at hrow
  cases hrow

end SearchState

end SessionSearch
