import CharlieBot.Lib.Pieces
import CharlieBot.Lib.TextSearch
import CharlieBot.Lib.Utf8
import Mathlib.Data.List.Forall2

/-!
# What a diff lists

`git diff -z` lists the changed files twice, once with their counts and once with a letter for what
happened to them. A NUL ends every field, so a path is put out as it is, whatever is in it. An entry
has one path, or two where a file was renamed or copied, and which of the two is read off the entry
itself.

The bytes are decoded before they are parsed, in text mode, which makes one line feed of a carriage
return. So a path that has one is listed as another path, and a path that is not UTF-8 is not listed
at all: **both listings give every change back exactly when no path has a carriage return or is not
text** (`givesBack_iff`).
-/

namespace GitListings

/-! ## What is listed -/

/-- A path of a repository: any bytes but NUL. -/
structure RepoPath where
  bytes : List UInt8
  ne_nil : bytes ≠ []
  no_nul : (0 : UInt8) ∉ bytes

/-- What happened to a file that is named once. -/
inductive Plain where
  | added
  | deleted
  | modified
  | typeChanged
deriving DecidableEq

/-- What happened to a file; one that was renamed or copied is named with the path it had, and with
how much of it is the same. -/
inductive Kind where
  | plain (what : Plain)
  | renamed (score : ℕ) (old : RepoPath)
  | copied (score : ℕ) (old : RepoPath)

def Kind.letter : Kind → Char
  | .plain .added => 'A'
  | .plain .deleted => 'D'
  | .plain .modified => 'M'
  | .plain .typeChanged => 'T'
  | .renamed .. => 'R'
  | .copied .. => 'C'

/-- The path a file had, and how much of it is the same, in percent. -/
def Kind.source : Kind → Option (ℕ × RepoPath)
  | .plain _ => none
  | .renamed score old | .copied score old => some (score, old)

/-- The lines added and deleted, each a machine word. -/
structure Counts where
  additions : ℕ
  deletions : ℕ
  additions_lt : additions < 2 ^ 64
  deletions_lt : deletions < 2 ^ 64

/-- **A change**; a binary file has no counts. -/
structure Change where
  counts : Option Counts
  kind : Kind
  path : RepoPath

/-- **The changes of a diff**: every path is the new path of one at most. -/
structure Listing where
  changes : List Change
  nodup : (changes.map (·.path.bytes)).Nodup

/-! ## What git puts out -/

/-- Characters below 128, as bytes. -/
def ascii (text : List Char) : List UInt8 := text.map fun c => UInt8.ofNat c.toNat

def countText : Option ℕ → List Char
  | some n => Nat.toDigits 10 n
  | none => ['-']

def Change.countsText (c : Change) : List Char :=
  countText (c.counts.map (·.additions)) ++ '\t' :: countText (c.counts.map (·.deletions)) ++ ['\t']

/-- The letter of an entry, and how much is the same with three digits. -/
def Change.statusText (c : Change) : List Char :=
  c.kind.letter :: (c.kind.source.map fun source =>
    List.replicate (3 - (Nat.toDigits 10 source.1).length) '0' ++ Nat.toDigits 10 source.1).getD []

/-- The fields of a change in `--numstat`. -/
def Change.numstat (c : Change) : List (List UInt8) :=
  match c.kind.source with
  | none => [ascii c.countsText ++ c.path.bytes]
  | some (_, old) => [ascii c.countsText, old.bytes, c.path.bytes]

/-- The fields of a change in `--name-status`. -/
def Change.nameStatus (c : Change) : List (List UInt8) :=
  match c.kind.source with
  | none => [ascii c.statusText, c.path.bytes]
  | some (_, old) => [ascii c.statusText, old.bytes, c.path.bytes]

/-- `git diff --numstat -z`. -/
def numstatZ (changes : List Change) : List UInt8 := List.ended 0 (changes.flatMap Change.numstat)

/-- `git diff --name-status -z`. -/
def nameStatusZ (changes : List Change) : List UInt8 :=
  List.ended 0 (changes.flatMap Change.nameStatus)

/-! ## What is read -/

/-- `int` of the language; `none` where it raises. -/
structure Python where
  int : List Char → Option ℤ
  /-- The decimal digits of a machine word are read. -/
  int_digits : ∀ n, n < 2 ^ 64 → int (Nat.toDigits 10 n) = some (n : ℤ)

/-- `_run_git_sync`, of a command that succeeds: the output in text mode. -/
def runGitSync (stdout : List UInt8) : Option (List Char) :=
  (Utf8.decode stdout).map Text.newlines

/-- A row of the first listing. -/
structure Row where
  additions : ℤ
  deletions : ℤ
  path : List Char
  oldPath : Option (List Char)

def cutTab (text : List Char) : Option (List Char × List Char) :=
  (text.idxOf? '\t').map fun i => (text.take i, text.drop (i + 1))

/-- `token.split("\t", 2)`, where three fields come of it. -/
def splitTabs (token : List Char) : Option (List Char × List Char × List Char) :=
  (cutTab token).bind fun (added, rest) => (cutTab rest).map fun (deleted, path) =>
    (added, deleted, path)

section Parse

variable (py : Python)

/-- `0 if text == "-" else int(text)`. -/
def countOf (text : List Char) : Option ℤ := if text = ['-'] then some 0 else py.int text

def rowOf (added deleted path : List Char) (oldPath : Option (List Char)) : Option Row :=
  (countOf py added).bind fun additions => (countOf py deleted).map fun deletions =>
    ⟨additions, deletions, path, oldPath⟩

/-- The loop of `_parse_numstat_z`, on the tokens that are left; `none` where it raises. -/
def numstatRows : List (List Char) → Option (List Row)
  | [] => some []
  | token :: tokens =>
    if token = [] then numstatRows tokens
    else
      match splitTabs token with
      | none => none
      | some (added, deleted, path) =>
        if path = [] then
          match tokens with
          | old :: new :: rest =>
            (rowOf py added deleted new (some old)).bind fun row =>
              (numstatRows rest).map (row :: ·)
          | _ => none
        else (rowOf py added deleted path none).bind fun row => (numstatRows tokens).map (row :: ·)

/-- **`_parse_numstat_z`**. -/
def parseNumstatZ (output : List Char) : Option (List Row) :=
  numstatRows py (output.splitOn (Char.ofNat 0))

end Parse

abbrev StatusByPath := List (List Char × Char)

/-- `status_by_path[path] = letter`. -/
def setStatus (path : List Char) (letter : Char) : StatusByPath → StatusByPath
  | [] => [(path, letter)]
  | entry :: entries =>
    if entry.1 = path then (path, letter) :: entries else entry :: setStatus path letter entries

/-- The loop of `_parse_name_status_z`, on the tokens that are left; `none` where it raises. -/
def statusesFrom (statuses : StatusByPath) : List (List Char) → Option StatusByPath
  | [] => some statuses
  | [] :: tokens => statusesFrom statuses tokens
  | (letter :: _) :: tokens =>
    if letter = 'R' ∨ letter = 'C' then
      match tokens with
      | _ :: new :: rest => statusesFrom (setStatus new letter statuses) rest
      | _ => none
    else
      match tokens with
      | path :: rest => statusesFrom (setStatus path letter statuses) rest
      | [] => none

/-- **`_parse_name_status_z`**. -/
def parseNameStatusZ (output : List Char) : Option StatusByPath :=
  statusesFrom [] (output.splitOn (Char.ofNat 0))

/-! ## What it is to give a change back -/

def Change.additions (c : Change) : ℤ := ((c.counts.map (·.additions)).getD 0 : ℕ)

def Change.deletions (c : Change) : ℤ := ((c.counts.map (·.deletions)).getD 0 : ℕ)

/-- **A row tells a change**: its counts and its paths, which are the text of the bytes. -/
structure Row.Tells (row : Row) (c : Change) : Prop where
  additions : row.additions = c.additions
  deletions : row.deletions = c.deletions
  path : Utf8.decode c.path.bytes = some row.path
  oldPath : c.kind.source.map (fun source => Utf8.decode source.2.bytes) = row.oldPath.map some

/-- **Both listings give every change back**, once and in order: the rows tell the changes, the
letters are theirs, and the path of every row is found with its letter. -/
def GivesBack (py : Python) (changes : List Change) : Prop :=
  ∃ rows statuses, (runGitSync (numstatZ changes)).bind (parseNumstatZ py) = some rows
    ∧ (runGitSync (nameStatusZ changes)).bind parseNameStatusZ = some statuses
    ∧ List.Forall₂ (fun row c => Row.Tells row c ∧ statuses.lookup row.path = some c.kind.letter)
      rows changes
    ∧ List.Forall₂ (fun entry c => Utf8.decode c.path.bytes = some entry.1
      ∧ entry.2 = c.kind.letter) statuses changes

/-- The path is text, without a carriage return. -/
def RepoPath.Clean (p : RepoPath) : Prop := ∃ text, Utf8.decode p.bytes = some text ∧ '\r' ∉ text

/-- The paths of a change are text, without a carriage return. -/
def Change.Clean (c : Change) : Prop :=
  c.path.Clean ∧ ∀ source ∈ c.kind.source, source.2.Clean

/-! ## Bytes and text -/

theorem decode_ascii_append {text : List Char} (h : ∀ c ∈ text, c.toNat < 128)
    (bytes : List UInt8) :
    Utf8.decode (ascii text ++ bytes) = (Utf8.decode bytes).map (text ++ ·) := by
  induction text with
  | nil =>
    show Utf8.decode bytes = (Utf8.decode bytes).map fun more => more
    rw [Option.map_id']
  | cons c text ih =>
    obtain ⟨hc, htext⟩ := List.forall_mem_cons.mp h
    have hbyte : (UInt8.ofNat c.toNat).toNat = c.toNat := by
      rw [UInt8.toNat_ofNat']
      exact Nat.mod_eq_of_lt (by omega)
    have hcons := Utf8.decode_append_ascii [] (hbyte.trans_lt hc) (ascii text ++ bytes)
    rw [List.nil_append, ih htext, hbyte, Char.ofNat_toNat] at hcons
    show Utf8.decode (UInt8.ofNat c.toNat :: (ascii text ++ bytes)) = _
    rw [hcons]
    cases Utf8.decode bytes <;> rfl

theorem decode_ascii {text : List Char} (h : ∀ c ∈ text, c.toNat < 128) :
    Utf8.decode (ascii text) = some text := by
  have happend := decode_ascii_append h []
  rwa [List.append_nil, show Utf8.decode [] = some [] from rfl, Option.map_some,
    List.append_nil] at happend

theorem decode_ended (fields : List (List UInt8)) : Utf8.decode (List.ended 0 fields)
    = (fields.mapM Utf8.decode).map (List.ended (Char.ofNat 0)) := by
  induction fields with
  | nil => rfl
  | cons field fields ih =>
    rw [List.ended_cons, Utf8.decode_append_ascii field (by decide), ih, List.mapM_cons]
    cases Utf8.decode field with
    | none => rfl
    | some text =>
      cases fields.mapM Utf8.decode with
      | none => rfl
      | some texts =>
        show some (text ++ Char.ofNat 0 :: List.ended _ texts) = some (List.ended _ (text :: texts))
        rw [List.ended_cons]

theorem not_mem_newlines (text : List Char) : '\r' ∉ Text.newlines text := by
  fun_induction Text.newlines text with
  | case1 => exact List.not_mem_nil
  | case2 rest ih => exact List.not_mem_cons_of_ne_of_not_mem (by decide) ih
  | case3 c rest _ ih =>
    refine List.not_mem_cons_of_ne_of_not_mem ?_ ih
    split
    · decide
    · next hc => exact Ne.symm hc

theorem newlines_eq_self {text : List Char} (h : '\r' ∉ text) : Text.newlines text = text := by
  fun_induction Text.newlines text with
  | case1 => rfl
  | case2 rest ih => exact absurd List.mem_cons_self h
  | case3 c rest _ ih =>
    rw [ih (List.not_mem_of_not_mem_cons h), if_neg (Ne.symm (List.ne_of_not_mem_cons h))]

/-- A character below 128 that is a letter, a digit, a hyphen or a tab. -/
def Simple (c : Char) : Prop := c.toNat < 128 ∧ c ≠ '\r' ∧ c ≠ Char.ofNat 0

theorem simple_of_mem_toDigits {n : ℕ} {c : Char} (h : c ∈ Nat.toDigits 10 n) :
    Simple c ∧ c ≠ '\t' ∧ c ≠ '-' := by
  have hdigit := Nat.isDigit_of_mem_toDigits (by decide) (by decide) h
  simp only [Char.isDigit, Bool.and_eq_true, decide_eq_true_eq] at hdigit
  have hle : 48 ≤ c.toNat ∧ c.toNat ≤ 57 := hdigit
  refine ⟨⟨by omega, ?_, ?_⟩, ?_, ?_⟩ <;>
  · rintro rfl
    revert hle
    decide

theorem simple_of_mem_countText {n : Option ℕ} {c : Char} (h : c ∈ countText n) :
    Simple c ∧ c ≠ '\t' := by
  cases n with
  | none =>
    obtain rfl := List.mem_singleton.mp h
    exact ⟨⟨by decide, by decide, by decide⟩, by decide⟩
  | some n => exact ⟨(simple_of_mem_toDigits h).1, (simple_of_mem_toDigits h).2.1⟩

theorem simple_countsText (c : Change) : ∀ d ∈ c.countsText, Simple d := by
  have htab : Simple '\t' := ⟨by decide, by decide, by decide⟩
  intro d hd
  rcases List.mem_append.mp hd with hd | hd
  · rcases List.mem_append.mp hd with hd | hd
    · exact (simple_of_mem_countText hd).1
    · rcases List.mem_cons.mp hd with rfl | hd
      · exact htab
      · exact (simple_of_mem_countText hd).1
  · rwa [List.mem_singleton.mp hd]

theorem simple_letter (kind : Kind) : Simple kind.letter := by
  cases kind with
  | plain what => cases what <;> exact ⟨by decide, by decide, by decide⟩
  | renamed score old =>
    show Simple 'R'
    exact ⟨by decide, by decide, by decide⟩
  | copied score old =>
    show Simple 'C'
    exact ⟨by decide, by decide, by decide⟩

theorem simple_statusText (c : Change) : ∀ d ∈ c.statusText, Simple d := by
  intro d hd
  rcases List.mem_cons.mp hd with rfl | hd
  · exact simple_letter c.kind
  · cases hsource : c.kind.source with
    | none =>
      rw [hsource] at hd
      exact absurd hd List.not_mem_nil
    | some source =>
      rw [hsource] at hd
      rcases List.mem_append.mp hd with hd | hd
      · rw [(List.mem_replicate.mp hd).2]
        exact ⟨by decide, by decide, by decide⟩
      · exact (simple_of_mem_toDigits hd).1

/-! ## The text of a listing -/

def RepoPath.text (p : RepoPath) : List Char := (Utf8.decode p.bytes).getD []

theorem RepoPath.Clean.decode {p : RepoPath} (h : p.Clean) :
    Utf8.decode p.bytes = some p.text := by
  obtain ⟨text, htext, -⟩ := h
  rw [RepoPath.text, htext]
  rfl

theorem RepoPath.Clean.not_mem {p : RepoPath} (h : p.Clean) : '\r' ∉ p.text := by
  obtain ⟨text, htext, hclean⟩ := h
  rwa [RepoPath.text, htext]

theorem RepoPath.Clean.nul_not_mem {p : RepoPath} (h : p.Clean) : Char.ofNat 0 ∉ p.text :=
  Utf8.not_mem_decode h.decode (by decide) p.no_nul

/-- The fields of a change in the first listing, as text. -/
def Change.numstatText (c : Change) : List (List Char) :=
  match c.kind.source with
  | none => [c.countsText ++ c.path.text]
  | some (_, old) => [c.countsText, old.text, c.path.text]

/-- The fields of a change in the second listing, as text. -/
def Change.nameStatusText (c : Change) : List (List Char) :=
  match c.kind.source with
  | none => [c.statusText, c.path.text]
  | some (_, old) => [c.statusText, old.text, c.path.text]

theorem decode_numstat {c : Change} (h : c.Clean) :
    c.numstat.mapM Utf8.decode = some c.numstatText := by
  obtain ⟨hpath, hsource⟩ := h
  have hcounts : ∀ d ∈ c.countsText, d.toNat < 128 := fun d hd => (simple_countsText c d hd).1
  unfold Change.numstat Change.numstatText
  cases hkind : c.kind.source with
  | none =>
    rw [List.mapM_cons, decode_ascii_append hcounts, hpath.decode]
    rfl
  | some source =>
    obtain ⟨score, old⟩ := source
    have hold : old.Clean := hsource (score, old) hkind
    rw [List.mapM_cons, decode_ascii hcounts, List.mapM_cons, hold.decode, List.mapM_cons,
      hpath.decode]
    rfl

theorem decode_nameStatus {c : Change} (h : c.Clean) :
    c.nameStatus.mapM Utf8.decode = some c.nameStatusText := by
  obtain ⟨hpath, hsource⟩ := h
  have hstatus : ∀ d ∈ c.statusText, d.toNat < 128 := fun d hd => (simple_statusText c d hd).1
  unfold Change.nameStatus Change.nameStatusText
  cases hkind : c.kind.source with
  | none =>
    rw [List.mapM_cons, decode_ascii hstatus, List.mapM_cons, hpath.decode]
    rfl
  | some source =>
    obtain ⟨score, old⟩ := source
    have hold : old.Clean := hsource (score, old) hkind
    rw [List.mapM_cons, decode_ascii hstatus, List.mapM_cons, hold.decode, List.mapM_cons,
      hpath.decode]
    rfl

/-- **The tokens of a listing** whose fields decode to text without carriage returns and NULs: the
fields, and an empty one behind the last NUL. -/
theorem splitOn_runGitSync {changes : List Change} {fields : Change → List (List UInt8)}
    {texts : Change → List (List Char)}
    (hdecode : ∀ c ∈ changes, (fields c).mapM Utf8.decode = some (texts c))
    (hclean : ∀ c ∈ changes, ∀ text ∈ texts c, '\r' ∉ text ∧ Char.ofNat 0 ∉ text) :
    (runGitSync (List.ended 0 (changes.flatMap fields))).map (·.splitOn (Char.ofNat 0))
      = some (changes.flatMap texts ++ [[]]) := by
  have hall : (changes.flatMap fields).mapM Utf8.decode = some (changes.flatMap texts) := by
    induction changes with
    | nil => rfl
    | cons c changes ih =>
      rw [List.flatMap_cons, List.mapM_append, hdecode c List.mem_cons_self,
        ih (fun d hd => hdecode d (List.mem_cons_of_mem c hd))
          fun d hd => hclean d (List.mem_cons_of_mem c hd)]
      rfl
  have hmem : ∀ text ∈ changes.flatMap texts, '\r' ∉ text ∧ Char.ofNat 0 ∉ text := by
    intro text htext
    obtain ⟨c, hc, htext⟩ := List.mem_flatMap.mp htext
    exact hclean c hc text htext
  have hcr : '\r' ∉ List.ended (Char.ofNat 0) (changes.flatMap texts) := by
    intro h
    obtain ⟨text, htext, h⟩ := List.mem_flatMap.mp h
    rcases List.mem_append.mp h with h | h
    · exact (hmem text htext).1 h
    · exact absurd (List.mem_singleton.mp h) (by decide)
  have hsplit := List.splitOn_ended (fun text htext => (hmem text htext).2)
    (List.not_mem_nil (a := Char.ofNat 0))
  rw [List.append_nil] at hsplit
  rw [runGitSync, decode_ended, hall, Option.map_some, Option.map_some, newlines_eq_self hcr,
    Option.map_some, hsplit]

/-! ## The listings are read -/

theorem cutTab_append {before : List Char} (h : '\t' ∉ before) (after : List Char) :
    cutTab (before ++ '\t' :: after) = some (before, after) := by
  rw [cutTab, List.idxOf?_append_cons h, Option.map_some, List.take_left, ← List.singleton_append,
    ← List.append_assoc]
  congr 2
  exact List.drop_left' (by rw [List.length_append, List.length_singleton])

theorem splitTabs_countsText (c : Change) (path : List Char) :
    splitTabs (c.countsText ++ path) = some (countText (c.counts.map (·.additions)),
      countText (c.counts.map (·.deletions)), path) := by
  have hadded : '\t' ∉ countText (c.counts.map (·.additions)) :=
    fun h => (simple_of_mem_countText h).2 rfl
  have hdeleted : '\t' ∉ countText (c.counts.map (·.deletions)) :=
    fun h => (simple_of_mem_countText h).2 rfl
  rw [Change.countsText, splitTabs, List.append_assoc, List.append_assoc, List.cons_append,
    cutTab_append hadded, Option.bind_some]
  dsimp only
  rw [List.singleton_append, cutTab_append hdeleted, Option.map_some]

section Read

variable {py : Python}

theorem countOf_countText {n : Option ℕ} (h : ∀ m ∈ n, m < 2 ^ 64) :
    countOf py (countText n) = some ((n.getD 0 : ℕ) : ℤ) := by
  cases n with
  | none => rfl
  | some n =>
    have hne : Nat.toDigits 10 n ≠ ['-'] := fun heq =>
      (simple_of_mem_toDigits (n := n) (c := '-') (heq ▸ List.mem_singleton.mpr rfl)).2.2 rfl
    rw [countText, countOf, if_neg hne, py.int_digits n (h n rfl)]
    rfl

def Change.row (c : Change) : Row :=
  ⟨c.additions, c.deletions, c.path.text, c.kind.source.map fun source => source.2.text⟩

theorem rowOf_countText (c : Change) (path : List Char) (oldPath : Option (List Char)) :
    rowOf py (countText (c.counts.map (·.additions))) (countText (c.counts.map (·.deletions))) path
      oldPath = some ⟨c.additions, c.deletions, path, oldPath⟩ := by
  rw [rowOf, countOf_countText, countOf_countText]
  · rfl
  · intro m hm
    obtain ⟨counts, -, rfl⟩ := Option.map_eq_some_iff.mp hm
    exact counts.deletions_lt
  · intro m hm
    obtain ⟨counts, -, rfl⟩ := Option.map_eq_some_iff.mp hm
    exact counts.additions_lt

theorem countsText_append_ne_nil (c : Change) (path : List Char) : c.countsText ++ path ≠ [] := by
  intro h
  have hnil := (List.append_eq_nil_iff.mp (List.append_eq_nil_iff.mp h).1).2
  exact List.cons_ne_nil _ _ hnil

theorem RepoPath.Clean.text_ne_nil {p : RepoPath} (h : p.Clean) : p.text ≠ [] := by
  intro hnil
  have hreplacing := Utf8.decodeReplacing_of_decode h.decode
  rw [hnil, Utf8.decodeReplacing_eq_nil] at hreplacing
  exact p.ne_nil hreplacing

theorem numstatRows_numstatText {c : Change} (h : c.Clean) (tokens : List (List Char)) :
    numstatRows py (c.numstatText ++ tokens) = (numstatRows py tokens).map (c.row :: ·) := by
  unfold Change.numstatText Change.row
  cases hkind : c.kind.source with
  | none =>
    show numstatRows py ((c.countsText ++ c.path.text) :: tokens) = _
    rw [numstatRows, if_neg (countsText_append_ne_nil c _), splitTabs_countsText]
    dsimp only
    rw [if_neg h.1.text_ne_nil, rowOf_countText]
    rfl
  | some source =>
    show numstatRows py (c.countsText :: source.2.text :: c.path.text :: tokens) = _
    have hsplit := splitTabs_countsText c []
    rw [List.append_nil] at hsplit
    have hne := countsText_append_ne_nil c []
    rw [List.append_nil] at hne
    rw [numstatRows, if_neg hne, hsplit]
    dsimp only
    rw [if_pos rfl, rowOf_countText]
    rfl

theorem numstatRows_flatMap {changes : List Change} (h : ∀ c ∈ changes, c.Clean) :
    numstatRows py (changes.flatMap Change.numstatText ++ [[]])
      = some (changes.map Change.row) := by
  induction changes with
  | nil => rfl
  | cons c changes ih =>
    rw [List.flatMap_cons, List.append_assoc, numstatRows_numstatText (h c List.mem_cons_self),
      ih fun d hd => h d (List.mem_cons_of_mem c hd)]
    rfl

end Read

theorem setStatus_of_not_mem {path : List Char} {letter : Char} {statuses : StatusByPath}
    (h : path ∉ statuses.map (·.1)) : setStatus path letter statuses = statuses ++ [(path, letter)] := by
  induction statuses with
  | nil => rfl
  | cons entry statuses ih =>
    rw [List.map_cons] at h
    rw [setStatus, if_neg (Ne.symm (List.ne_of_not_mem_cons h)),
      ih (List.not_mem_of_not_mem_cons h), List.cons_append]

theorem letter_eq_iff (kind : Kind) :
    (kind.letter = 'R' ∨ kind.letter = 'C') ↔ kind.source.isSome = true := by
  cases kind with
  | plain what => cases what <;> decide
  | renamed score old => exact ⟨fun _ => rfl, fun _ => .inl rfl⟩
  | copied score old => exact ⟨fun _ => rfl, fun _ => .inr rfl⟩

theorem statusesFrom_nameStatusText (c : Change) (statuses : StatusByPath)
    (tokens : List (List Char)) : statusesFrom statuses (c.nameStatusText ++ tokens)
      = statusesFrom (setStatus c.path.text c.kind.letter statuses) tokens := by
  have hletter := letter_eq_iff c.kind
  unfold Change.nameStatusText Change.statusText
  cases hkind : c.kind.source with
  | none =>
    rw [hkind] at hletter
    show statusesFrom statuses ((c.kind.letter :: _) :: c.path.text :: tokens) = _
    have hplain : ¬ (c.kind.letter = 'R' ∨ c.kind.letter = 'C') :=
      fun h => Bool.false_ne_true (hletter.mp h)
    cases tokens <;> simp only [statusesFrom, if_neg hplain]
  | some source =>
    rw [hkind] at hletter
    show statusesFrom statuses ((c.kind.letter :: _) :: source.2.text :: c.path.text :: tokens) = _
    rw [statusesFrom, if_pos (hletter.mpr rfl)]

theorem statusesFrom_flatMap {changes : List Change} {statuses : StatusByPath}
    (h : (statuses.map (·.1) ++ changes.map (·.path.text)).Nodup) :
    statusesFrom statuses (changes.flatMap Change.nameStatusText ++ [[]])
      = some (statuses ++ changes.map fun c => (c.path.text, c.kind.letter)) := by
  induction changes generalizing statuses with
  | nil =>
    rw [List.map_nil, List.append_nil]
    rfl
  | cons c changes ih =>
    have hfresh : c.path.text ∉ statuses.map (·.1) := fun hmem =>
      (List.nodup_append.mp h).2.2 _ hmem _ List.mem_cons_self rfl
    rw [List.flatMap_cons, List.append_assoc, statusesFrom_nameStatusText,
      setStatus_of_not_mem hfresh, ih, List.append_assoc]
    · rfl
    · rwa [List.map_append, List.append_assoc]

/-! ## When every change is given back -/

theorem numstatText_clean {c : Change} (h : c.Clean) :
    ∀ text ∈ c.numstatText, '\r' ∉ text ∧ Char.ofNat 0 ∉ text := by
  have hcounts : '\r' ∉ c.countsText ∧ Char.ofNat 0 ∉ c.countsText :=
    ⟨fun hmem => (simple_countsText c _ hmem).2.1 rfl,
      fun hmem => (simple_countsText c _ hmem).2.2 rfl⟩
  intro text htext
  unfold Change.numstatText at htext
  cases hkind : c.kind.source with
  | none =>
    rw [hkind] at htext
    obtain rfl := List.mem_singleton.mp htext
    exact ⟨fun hmem => (List.mem_append.mp hmem).elim hcounts.1 h.1.not_mem,
      fun hmem => (List.mem_append.mp hmem).elim hcounts.2 h.1.nul_not_mem⟩
  | some source =>
    rw [hkind] at htext
    have hold : source.2.Clean := h.2 source hkind
    rcases List.mem_cons.mp htext with rfl | htext
    · exact hcounts
    · rcases List.mem_cons.mp htext with rfl | htext
      · exact ⟨hold.not_mem, hold.nul_not_mem⟩
      · obtain rfl := List.mem_singleton.mp htext
        exact ⟨h.1.not_mem, h.1.nul_not_mem⟩

theorem nameStatusText_clean {c : Change} (h : c.Clean) :
    ∀ text ∈ c.nameStatusText, '\r' ∉ text ∧ Char.ofNat 0 ∉ text := by
  have hstatus : '\r' ∉ c.statusText ∧ Char.ofNat 0 ∉ c.statusText :=
    ⟨fun hmem => (simple_statusText c _ hmem).2.1 rfl,
      fun hmem => (simple_statusText c _ hmem).2.2 rfl⟩
  have hpath := And.intro h.1.not_mem h.1.nul_not_mem
  intro text htext
  unfold Change.nameStatusText at htext
  cases hkind : c.kind.source with
  | none =>
    rw [hkind] at htext
    rcases List.mem_cons.mp htext with rfl | htext
    · exact hstatus
    · rwa [List.mem_singleton.mp htext]
  | some source =>
    rw [hkind] at htext
    have hold : source.2.Clean := h.2 source hkind
    rcases List.mem_cons.mp htext with rfl | htext
    · exact hstatus
    · rcases List.mem_cons.mp htext with rfl | htext
      · exact ⟨hold.not_mem, hold.nul_not_mem⟩
      · rwa [List.mem_singleton.mp htext]

theorem lookup_of_nodup {changes : List Change} (h : (changes.map (·.path.text)).Nodup)
    {c : Change} (hc : c ∈ changes) :
    (changes.map fun c => (c.path.text, c.kind.letter)).lookup c.path.text
      = some c.kind.letter := by
  induction changes with
  | nil => exact absurd hc List.not_mem_nil
  | cons d changes ih =>
    obtain ⟨hd, hchanges⟩ := List.nodup_cons.mp h
    rw [List.map_cons, List.lookup_cons]
    rcases List.mem_cons.mp hc with rfl | hc
    · rw [beq_self_eq_true]
    · have hne : c.path.text ≠ d.path.text := fun heq =>
        hd (List.mem_map.mpr ⟨c, hc, heq⟩)
      rw [beq_eq_false_iff_ne.mpr hne]
      exact ih hchanges hc

theorem tells_row {c : Change} (h : c.Clean) : c.row.Tells c where
  additions := rfl
  deletions := rfl
  path := h.1.decode
  oldPath := by
    show _ = Option.map some (c.kind.source.map fun source => source.2.text)
    cases hkind : c.kind.source with
    | none => rfl
    | some source => exact congrArg some (h.2 source hkind).decode

/-- **Listings without a carriage return give every change back.** -/
theorem givesBack_of_clean (py : Python) (listing : Listing)
    (h : ∀ c ∈ listing.changes, c.Clean) : GivesBack py listing.changes := by
  -- paths that differ are different as text
  have hnodup : (listing.changes.map (·.path.text)).Nodup := by
    refine List.pairwise_map.mpr ((List.pairwise_map.mp listing.nodup).imp_of_mem ?_)
    intro c d hc hd hne heq
    refine hne (Utf8.decode_injective (h c hc).1.decode ?_)
    rw [heq]
    exact (h d hd).1.decode
  have hnumstat := splitOn_runGitSync (fun c hc => decode_numstat (h c hc))
    fun c hc => numstatText_clean (h c hc)
  have hstatus := splitOn_runGitSync (fun c hc => decode_nameStatus (h c hc))
    fun c hc => nameStatusText_clean (h c hc)
  obtain ⟨output, houtput, htokens⟩ := Option.map_eq_some_iff.mp hnumstat
  obtain ⟨output', houtput', htokens'⟩ := Option.map_eq_some_iff.mp hstatus
  refine ⟨listing.changes.map Change.row,
    listing.changes.map fun c => (c.path.text, c.kind.letter), ?_, ?_, ?_, ?_⟩
  · rw [numstatZ, houtput, Option.bind_some, parseNumstatZ, htokens, numstatRows_flatMap h]
  · rw [nameStatusZ, houtput', Option.bind_some, parseNameStatusZ, htokens',
      statusesFrom_flatMap (by rwa [List.map_nil, List.nil_append]), List.nil_append]
  · refine List.forall₂_map_left_iff.mpr (List.forall₂_same.mpr fun c hc => ?_)
    exact ⟨tells_row (h c hc), lookup_of_nodup hnodup hc⟩
  · exact List.forall₂_map_left_iff.mpr (List.forall₂_same.mpr fun c hc => ⟨(h c hc).1.decode, rfl⟩)

/-! ## What no listing gives back -/

section Chars

variable {py : Python}

theorem cutTab_eq {text before after : List Char} (h : cutTab text = some (before, after)) :
    after ⊆ text := by
  obtain ⟨i, -, hcut⟩ := Option.map_eq_some_iff.mp h
  rw [← (Prod.mk.inj hcut).2]
  exact List.drop_subset _ _

theorem splitTabs_subset {token added deleted path : List Char}
    (h : splitTabs token = some (added, deleted, path)) : path ⊆ token := by
  obtain ⟨⟨added', rest⟩, hcut, h⟩ := Option.bind_eq_some_iff.mp h
  obtain ⟨⟨deleted', path'⟩, hcut', h⟩ := Option.map_eq_some_iff.mp h
  cases h
  exact List.Subset.trans (cutTab_eq hcut') (cutTab_eq hcut)

theorem rowOf_eq {added deleted path : List Char} {oldPath : Option (List Char)} {row : Row}
    (h : rowOf py added deleted path oldPath = some row) :
    row.path = path ∧ row.oldPath = oldPath := by
  obtain ⟨additions, -, h⟩ := Option.bind_eq_some_iff.mp h
  obtain ⟨deletions, -, rfl⟩ := Option.map_eq_some_iff.mp h
  exact ⟨rfl, rfl⟩

/-- **The paths of a row are put together of the characters of tokens.** -/
theorem chars_of_numstatRows {tokens : List (List Char)} {rows : List Row}
    (h : numstatRows py tokens = some rows) {P : Char → Prop}
    (hP : ∀ token ∈ tokens, ∀ c ∈ token, P c) :
    ∀ row ∈ rows, (∀ c ∈ row.path, P c) ∧ ∀ old ∈ row.oldPath, ∀ c ∈ old, P c := by
  fun_induction numstatRows py tokens generalizing rows with
  | case1 =>
    cases h
    exact fun row hrow => absurd hrow List.not_mem_nil
  | case2 tokens ih =>
    exact ih h fun token htoken => hP token (List.mem_cons_of_mem _ htoken)
  | case3 token tokens _ hsplit => cases h
  | case4 token hne added deleted old new rest hsplit ih =>
    obtain ⟨row, hrow, h⟩ := Option.bind_eq_some_iff.mp h
    obtain ⟨rows', hrows, rfl⟩ := Option.map_eq_some_iff.mp h
    obtain ⟨hpath, hold⟩ := rowOf_eq hrow
    refine List.forall_mem_cons.mpr ⟨⟨?_, ?_⟩, ih hrows fun t ht => hP t (by simp [ht])⟩
    · rw [hpath]
      exact hP new (by simp)
    · rw [hold]
      intro old' hold'
      rw [← Option.some.inj hold']
      exact hP old (by simp)
  | case5 token tokens _ added deleted hsplit hshort => cases h
  | case6 token tokens _ added deleted path hsplit hpath ih =>
    obtain ⟨row, hrow, h⟩ := Option.bind_eq_some_iff.mp h
    obtain ⟨rows', hrows, rfl⟩ := Option.map_eq_some_iff.mp h
    obtain ⟨hpath', hold⟩ := rowOf_eq hrow
    refine List.forall_mem_cons.mpr
      ⟨⟨?_, ?_⟩, ih hrows fun t ht => hP t (List.mem_cons_of_mem _ ht)⟩
    · rw [hpath']
      exact fun c hc => hP token List.mem_cons_self c (splitTabs_subset hsplit hc)
    · rw [hold]
      exact fun old hold => nomatch hold

end Chars

theorem clean_of_givesBack {py : Python} {changes : List Change} (h : GivesBack py changes) :
    ∀ c ∈ changes, c.Clean := by
  obtain ⟨rows, statuses, hrows, -, htells, -⟩ := h
  obtain ⟨output, houtput, hparse⟩ := Option.bind_eq_some_iff.mp hrows
  obtain ⟨text, -, rfl⟩ := Option.map_eq_some_iff.mp houtput
  have hcr : ∀ token ∈ (Text.newlines text).splitOn (Char.ofNat 0), ∀ c ∈ token, c ≠ '\r' := by
    rintro token htoken c hc rfl
    exact not_mem_newlines text ((List.isInfix_of_mem_splitOn htoken).subset hc)
  have hchars := chars_of_numstatRows hparse hcr
  -- each change has its row
  clear hrows houtput hparse
  induction htells with
  | nil => exact fun c hc => absurd hc List.not_mem_nil
  | @cons row c rows changes hrow _ ih =>
    obtain ⟨⟨-, -, hpath, hold⟩, -⟩ := hrow
    obtain ⟨hpathChars, holdChars⟩ := hchars row List.mem_cons_self
    refine List.forall_mem_cons.mpr ⟨⟨⟨row.path, hpath, fun hmem => hpathChars _ hmem rfl⟩, ?_⟩,
      ih fun r hr => hchars r (List.mem_cons_of_mem row hr)⟩
    intro source hsource
    rw [hsource, Option.map_some] at hold
    obtain ⟨old, hrowOld, hdecode⟩ := Option.map_eq_some_iff.mp hold.symm
    exact ⟨old, hdecode.symm, fun hmem => holdChars old hrowOld _ hmem rfl⟩

/-- **Both listings give every change back exactly when no path has a carriage return** and every
path is text. -/
theorem givesBack_iff (py : Python) (listing : Listing) :
    GivesBack py listing.changes ↔ ∀ c ∈ listing.changes, c.Clean :=
  ⟨clean_of_givesBack, givesBack_of_clean py listing⟩

/-- `int`, for decimal digits. -/
def decimalInt : Python where
  int text := some (Nat.ofDigitChars 10 text 0 : ℕ)
  int_digits n _ := by rw [Nat.ofDigitChars_toDigits (by decide) (by decide)]

def oneAdded : Counts := ⟨1, 0, by decide, by decide⟩

/-- A file `a\rb`, added with one line. -/
def carriageReturnFile : Change :=
  ⟨some oneAdded, .plain .added, ⟨[97, 13, 98], by decide, by decide⟩⟩

/-- **A path with a carriage return is listed as another path.** -/
theorem not_givesBack_carriageReturn : ¬ GivesBack decimalInt [carriageReturnFile] := by
  intro h
  obtain ⟨⟨text, hdecode, hclean⟩, -⟩ := clean_of_givesBack h carriageReturnFile List.mem_cons_self
  have htext : Utf8.decode [97, 13, 98] = some ['a', '\r', 'b'] := by decide
  obtain rfl := Option.some.inj (htext.symm.trans hdecode)
  exact hclean (by decide)

end GitListings
