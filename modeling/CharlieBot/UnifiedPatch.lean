import CharlieBot.Lib.Fallible
import CharlieBot.Lib.Json
import Mathlib.Data.List.DropRight

/-!
# Applying a patch strictly

A replay is proved appliable by applying the patch that was generated for it.
The patch is a list of lines: file sections, each two header lines and at
least one hunk, a hunk being a header line with positions and counts and
then as many body lines as the counts say. `applyUnifiedPatch` reads it from
the front and applies every section where its headers say, without looking
for a better place.

What a patch says is stated apart from how it is read. A `FileSection` is
what some lines spell, with the counts its header lines have to carry; the
lines of a file *fit* its hunks (`Fits`) when they are gaps and old ranges by
turns, each hunk at the position it names, and then the new lines are the same
gaps and the new ranges. A patch applies exactly when its lines spell sections
of different files that all fit (`apply_unified_patch_iff`).

Files are lists of lines throughout: what ends a line is not kept.
-/

namespace UnifiedPatch

/-- A line of a patch or a file. -/
abbrev Line := List Char

/-- What a patch is refused with. -/
inductive Failure
  | replayValidation (message : String)
  /-- A `ValueError` of `int`. -/
  | valueError (message : String)
  deriving DecidableEq, Repr

/-- The decimal digits of the standard library, `\d` and `int`. -/
structure Python where
  /-- The value of a digit, of whatever script. -/
  decimal : Char → Option ℕ
  decimal_comma : decimal ',' = none
  decimal_blank : decimal ' ' = none

section

variable (py : Python)

def isDigit (c : Char) : Bool := (py.decimal c).isSome

/-- The number some digits spell. -/
def valueOf (digits : List Char) : ℕ :=
  digits.foldl (fun n c => 10 * n + (py.decimal c).getD 0) 0

/-- How many digits `int` converts at most. -/
def maxStrDigits : ℕ := 4300

/-- `int(digits)`. -/
def toInt (digits : List Char) : Except Failure ℕ :=
  if maxStrDigits < digits.length then
    .error (.valueError ("Exceeds the limit (4300 digits) for integer string conversion: " ++
      "value has " ++ toString digits.length ++
      " digits; use sys.set_int_max_str_digits() to increase the limit"))
  else .ok (valueOf py digits)

/-! ## The header of a hunk -/

/-- A range of a hunk header, as it is spelled: where it starts, and how many lines it has. -/
structure Range where
  start : List Char
  count : Option (List Char)
  deriving DecidableEq, Repr

structure HunkHeader where
  old : Range
  new : Range
  deriving DecidableEq, Repr

/-- `(\d+)`. -/
def matchNumber (text : List Char) : Option (List Char × List Char) :=
  if text.takeWhile (isDigit py) = [] then none
  else some (text.takeWhile (isDigit py), text.dropWhile (isDigit py))

/-- `(?:,(\d+))?`. -/
def matchCount (text : List Char) : Option (List Char) × List Char :=
  match text with
  | ',' :: rest =>
    match matchNumber py rest with
    | some (digits, rest) => (some digits, rest)
    | none => (none, text)
  | _ => (none, text)

/-- `(\d+)(?:,(\d+))?`. -/
def matchRange (text : List Char) : Option (Range × List Char) :=
  (matchNumber py text).map fun number =>
    let count := matchCount py number.2
    (⟨number.1, count.1⟩, count.2)

/-- `^@@ -(\d+)(?:,(\d+))? \+(\d+)(?:,(\d+))? @@$`. -/
def matchHeader (line : Line) : Option HunkHeader := do
  let text ← line.dropPrefix? ['@', '@', ' ', '-']
  let (old, text) ← matchRange py text
  let text ← text.dropPrefix? [' ', '+']
  let (new, text) ← matchRange py text
  if text = [' ', '@', '@'] then some ⟨old, new⟩ else none

/-! ## Reading a patch -/

def quoted (line : Line) : String := String.ofList (Text.reprStr line)

/-- A message about a file. -/
def patchFor (path : Line) (message : String) : Failure :=
  .replayValidation ("patch for " ++ String.ofList path ++ ": " ++ message)

/-- A message about the line of the patch that stands behind all but some. -/
def patchLine (total left : ℕ) (message : String) : Failure :=
  .replayValidation ("patch line " ++ toString (total - left + 1) ++ ": " ++ message)

/-- `_read_file_header`: the path, and the lines behind the two headers. -/
def readFileHeader (total : ℕ) (line : Line) (rest : List Line) :
    Except Failure (Line × List Line) :=
  match line.dropPrefix? ['-', '-', '-', ' ', 'a', '/'] with
  | none =>
    .error (patchLine total (rest.length + 1)
      ("expected a '--- a/<path>' file header, got " ++ quoted line))
  | some oldPath =>
    if oldPath = [] then
      .error (patchLine total (rest.length + 1) "file header has an empty path")
    else
      match rest with
      | [] =>
        .error (patchLine total 0
          ("expected a '+++ b/<path>' header after '--- a/" ++ String.ofList oldPath ++ "'"))
      | next :: rest =>
        match next.dropPrefix? ['+', '+', '+', ' ', 'b', '/'] with
        | none =>
          .error (patchLine total (rest.length + 1)
            ("expected a '+++ b/<path>' header after '--- a/" ++ String.ofList oldPath ++ "'"))
        | some newPath =>
          if newPath = oldPath then .ok (oldPath, rest)
          else
            .error (.replayValidation ("patch: file headers disagree: '--- a/" ++
              String.ofList oldPath ++ "' vs '+++ b/" ++ String.ofList newPath ++ "'"))

/-- How many old and new lines were seen, a body line counted. -/
def countLine (path line : Line) (seen : ℕ × ℕ) : Except Failure (ℕ × ℕ) :=
  match line.take 1 with
  | [' '] => .ok (seen.1 + 1, seen.2 + 1)
  | ['-'] => .ok (seen.1 + 1, seen.2)
  | ['+'] => .ok (seen.1, seen.2 + 1)
  | _ => .error (patchFor path ("unexpected line in hunk: " ++ quoted line))

/-- The body of a hunk: lines are read until both counts are met. -/
def readBody (path : Line) (oldCount newCount : ℕ) :
    ℕ × ℕ → List Line → Except Failure (List Line × List Line)
  | seen, [] =>
    if seen.1 < oldCount ∨ seen.2 < newCount then
      .error (patchFor path "hunk ends before its header counts are met")
    else .ok ([], [])
  | seen, line :: rest =>
    if seen.1 < oldCount ∨ seen.2 < newCount then do
      let seen ← countLine path line seen
      if seen.1 > oldCount ∨ seen.2 > newCount then
        .error (patchFor path ("hunk body disagrees with its header counts (old " ++
          toString seen.1 ++ "/" ++ toString oldCount ++ ", new " ++ toString seen.2 ++ "/" ++
          toString newCount ++ ")"))
      else do
        let (body, rest) ← readBody path oldCount newCount seen rest
        return (line :: body, rest)
    else .ok ([], line :: rest)

/-- A hunk as it is read: where its old range starts, how many lines that
has, and its body. -/
structure ReadHunk where
  oldStart : ℕ
  oldCount : ℕ
  body : List Line
  deriving DecidableEq, Repr

/-- A count of a header; one that is not there is one. -/
def countOf : Option (List Char) → Except Failure ℕ
  | some digits => toInt py digits
  | none => .ok 1

/-- `_read_hunk`: the hunk, and the lines behind it. -/
def readHunk (path line : Line) (rest : List Line) : Except Failure (ReadHunk × List Line) :=
  match matchHeader py line with
  | none => .error (patchFor path ("malformed hunk header " ++ quoted line))
  | some header => do
    let oldStart ← toInt py header.old.start
    let oldCount ← countOf py header.old.count
    let newCount ← countOf py header.new.count
    if oldCount = 0 ∧ newCount = 0 then
      .error (patchFor path ("hunk header " ++ quoted line ++ " describes an empty hunk"))
    else do
      let (body, rest) ← readBody path oldCount newCount (0, 0) rest
      return (⟨oldStart, oldCount, body⟩, rest)

/-- The hunks of a file: lines that begin like a hunk header. There is fuel for every line. -/
def readHunks (path : Line) : ℕ → List Line → Except Failure (List ReadHunk × List Line)
  | fuel + 1, line :: rest =>
    if ['@', '@', ' '].isPrefixOf line then do
      let (hunk, rest) ← readHunk py path line rest
      let (hunks, rest) ← readHunks path fuel rest
      return (hunk :: hunks, rest)
    else .ok ([], line :: rest)
  | _, lines => .ok ([], lines)

/-! ## Applying it -/

/-- One body line, on what is written and how far the old lines are read. -/
def applyLine (path : Line) (oldLines : List Line) (at_ : List Line × ℕ) (line : Line) :
    Except Failure (List Line × ℕ) :=
  let (out, cursor) := at_
  let content := line.drop 1
  match line.take 1 with
  | [' '] =>
    if oldLines[cursor]? = some content then .ok (out ++ [content], cursor + 1)
    else .error (patchFor path ("context line does not match the base: " ++ quoted content))
  | ['-'] =>
    if oldLines[cursor]? = some content then .ok (out, cursor + 1)
    else .error (patchFor path ("deleted line does not match the base: " ++ quoted content))
  | ['+'] => .ok (out ++ [content], cursor)
  | _ => .error (patchFor path ("unexpected hunk line " ++ quoted line))

/-- The number of old lines in front of a hunk; one that replaces nothing
names the line it follows. -/
def ReadHunk.anchor (hunk : ReadHunk) : ℤ :=
  if hunk.oldCount ≠ 0 then (hunk.oldStart : ℤ) - 1 else hunk.oldStart

/-- `_apply_hunk`: what is written, and how far the old lines are read. -/
def applyHunk (path : Line) (oldLines : List Line) (at_ : List Line × ℕ) (hunk : ReadHunk) :
    Except Failure (List Line × ℕ) :=
  let (out, cursor) := at_
  if hunk.anchor < cursor then
    .error (patchFor path ("hunk at old line " ++ toString hunk.oldStart ++
      " precedes or overlaps the previous hunk"))
  else if hunk.oldCount ≠ 0 ∧ hunk.anchor + hunk.oldCount > oldLines.length then
    .error (patchFor path ("hunk at old line " ++ toString hunk.oldStart ++
      " runs past the end of the file (" ++ toString oldLines.length ++ " lines)"))
  else if hunk.oldCount = 0 ∧ hunk.anchor > oldLines.length then
    .error (patchFor path ("hunk inserts after old line " ++ toString hunk.oldStart ++
      ", past the end of the file (" ++ toString oldLines.length ++ " lines)"))
  else
    hunk.body.foldlM (applyLine path oldLines)
      (out ++ (oldLines.drop cursor).take (hunk.anchor.toNat - cursor), hunk.anchor.toNat)

/-- The texts of some files, by their paths. -/
abbrev Store := Line → Option (List Char)

/-- The lines of a file; one that is missing has none. -/
def linesOf (base : Store) (path : Line) : List Line := Text.splitLines ((base path).getD [])

/-- The text of some lines; no lines are no file. -/
def textOf (lines : List Line) : Option (List Char) :=
  if lines = [] then none else some (Text.join ['\n'] lines ++ ['\n'])

/-- The result under a path. -/
abbrev Result := Line → Option (Option (List Char))

/-- The loop over the file sections, with the paths seen. There is fuel for every line. -/
def applySections (base : Store) (total : ℕ) :
    ℕ → List Line → List Line → Result → Except Failure Result
  | fuel + 1, seenPaths, line :: rest, result => do
    let (path, rest) ← readFileHeader total line rest
    if path ∈ seenPaths then
      .error (patchFor path "the path appears in more than one file section")
    else do
      let (hunks, rest) ← readHunks py path (fuel + 1) rest
      if hunks = [] then .error (patchFor path "no hunks")
      else do
        let oldLines := linesOf base path
        let (out, cursor) ← hunks.foldlM (applyHunk path oldLines) ([], 0)
        -- the unchanged suffix behind the last hunk
        let out := out ++ oldLines.drop cursor
        applySections base total fuel (path :: seenPaths) rest
          (Function.update result path (some (textOf out)))
  | _, _, _, result => .ok result

/-- The lines of a patch, without the empty ones at its end. -/
def patchLines (patch : List Char) : List Line :=
  (Text.splitOnChar '\n' patch).rdropWhile (· = [])

def applyUnifiedPatch (base : Store) (patch : List Char) : Except Failure Result :=
  let lines := patchLines patch
  applySections py base lines.length lines.length [] lines fun path => (base path).map some

/-! ## What a patch spells -/

def Range.text (r : Range) : List Char :=
  r.start ++ (match r.count with
    | some digits => ',' :: digits
    | none => [])

def HunkHeader.text (h : HunkHeader) : Line :=
  ['@', '@', ' ', '-'] ++ (h.old.text ++ ([' ', '+'] ++ (h.new.text ++ [' ', '@', '@'])))

/-- The numbers of a range are digits. -/
structure Range.Spelled (r : Range) : Prop where
  start_ne : r.start ≠ []
  start_digits : ∀ c ∈ r.start, isDigit py c = true
  count_ne : ∀ digits, r.count = some digits → digits ≠ []
  count_digits : ∀ digits, r.count = some digits → ∀ c ∈ digits, isDigit py c = true

/-- The count a range has; one that is not spelled is one. -/
def countValue : Option (List Char) → ℕ
  | some digits => valueOf py digits
  | none => 1

/-- A number `int` converts. -/
def Short (digits : List Char) : Prop := digits.length ≤ maxStrDigits

/-- What a body line is. -/
inductive Mark
  | context
  | deleted
  | added
  deriving DecidableEq, Repr

def Mark.char : Mark → Char
  | .context => ' '
  | .deleted => '-'
  | .added => '+'

/-- A body line: what it is, and the line it is about. -/
structure BodyLine where
  mark : Mark
  content : Line
  deriving DecidableEq, Repr

def BodyLine.text (b : BodyLine) : Line := b.mark.char :: b.content

/-- The lines a body replaces: its context and what it deletes. -/
def oldPart (body : List BodyLine) : List Line :=
  (body.filter (·.mark ≠ .added)).map BodyLine.content

/-- The lines it puts in their place: its context and what it adds. -/
def newPart (body : List BodyLine) : List Line :=
  (body.filter (·.mark ≠ .deleted)).map BodyLine.content

/-- **A hunk**: a header whose numbers are spelled, and a body of as many lines as it counts. -/
structure Hunk where
  header : HunkHeader
  body : List BodyLine
  old_spelled : header.old.Spelled py
  new_spelled : header.new.Spelled py
  old_start_short : Short header.old.start
  old_count_short : ∀ digits, header.old.count = some digits → Short digits
  new_count_short : ∀ digits, header.new.count = some digits → Short digits
  old_length : (oldPart body).length = countValue py header.old.count
  new_length : (newPart body).length = countValue py header.new.count
  body_ne : body ≠ []

variable {py}

namespace Hunk

/-- Where its old range starts, as the header says; lines are counted from one. -/
def oldStart (h : Hunk py) : ℕ := valueOf py h.header.old.start

def old (h : Hunk py) : List Line := oldPart h.body

/-- The lines it puts in their place. -/
def new (h : Hunk py) : List Line := newPart h.body

/-- Whether the hunk stands behind so many old lines. One that replaces
nothing names the line it follows. -/
def StandsAt (h : Hunk py) (position : ℕ) : Prop :=
  if h.old = [] then h.oldStart = position else h.oldStart = position + 1

def lines (h : Hunk py) : List Line := h.header.text :: h.body.map BodyLine.text

def read (h : Hunk py) : ReadHunk := ⟨h.oldStart, h.old.length, h.body.map BodyLine.text⟩

end Hunk

variable (py) in
/-- **A file section**: a path and its hunks. -/
structure FileSection where
  path : Line
  hunks : List (Hunk py)
  path_ne : path ≠ []
  hunks_ne : hunks ≠ []

def FileSection.lines (s : FileSection py) : List Line :=
  (['-', '-', '-', ' ', 'a', '/'] ++ s.path) :: (['+', '+', '+', ' ', 'b', '/'] ++ s.path) ::
    s.hunks.flatMap Hunk.lines

/-- **What it is to fit.** Behind so many lines, some old lines are gaps and
the hunks' old ranges by turns, each hunk where it stands, and the new lines
are the same gaps and the new ranges. -/
inductive Fits : ℕ → List Line → List (Hunk py) → List Line → Prop
  | rest (position : ℕ) (lines : List Line) : Fits position lines [] lines
  | hunk {position : ℕ} {gap old new : List Line} {h : Hunk py} {hunks : List (Hunk py)}
      (stands : h.StandsAt (position + gap.length))
      (fits : Fits (position + gap.length + h.old.length) old hunks new) :
      Fits position (gap ++ h.old ++ old) (h :: hunks) (gap ++ h.new ++ new)

/-! ## Reading a header -/

theorem takeWhile_append_digits {digits rest : List Char}
    (all : ∀ c ∈ digits, isDigit py c = true) (stops : ∀ c ∈ rest.head?, isDigit py c = false) :
    (digits ++ rest).takeWhile (isDigit py) = digits ∧
      (digits ++ rest).dropWhile (isDigit py) = rest := by
  induction digits with
  | nil =>
    cases rest with
    | nil => simp
    | cons c rest => simp [stops c rfl]
  | cons c digits ih =>
    obtain ⟨hc, all⟩ := List.forall_mem_cons.1 all
    have := ih all
    simpa [hc] using this

theorem matchNumber_append {digits : List Char} (rest : List Char) (some_ : digits ≠ [])
    (all : ∀ c ∈ digits, isDigit py c = true) (stops : ∀ c ∈ rest.head?, isDigit py c = false) :
    matchNumber py (digits ++ rest) = some (digits, rest) := by
  have cut := takeWhile_append_digits all stops
  rw [matchNumber, cut.1, cut.2, if_neg some_]

theorem of_matchNumber {text digits rest : List Char}
    (matched : matchNumber py text = some (digits, rest)) :
    text = digits ++ rest ∧ digits ≠ [] ∧ ∀ c ∈ digits, isDigit py c = true := by
  unfold matchNumber at matched
  split at matched
  · cases matched
  · next some_ =>
    cases matched
    exact ⟨List.takeWhile_append_dropWhile.symm, some_, fun c => List.mem_takeWhile_imp⟩

theorem matchRange_append {r : Range} (spelled : r.Spelled py) (rest : List Char) :
    matchRange py (r.text ++ ' ' :: rest) = some (r, ' ' :: rest) := by
  have comma : isDigit py ',' = false := by rw [isDigit, py.decimal_comma]; rfl
  have blank : isDigit py ' ' = false := by rw [isDigit, py.decimal_blank]; rfl
  obtain ⟨start, count⟩ := r
  cases count with
  | none =>
    have number := matchNumber_append (' ' :: rest) spelled.start_ne spelled.start_digits
      (by simpa using blank)
    rw [matchRange, Range.text, List.append_nil, number]
    rfl
  | some digits =>
    have number := matchNumber_append (',' :: (digits ++ ' ' :: rest)) spelled.start_ne
      spelled.start_digits (by simpa using comma)
    have count := matchNumber_append (' ' :: rest) (spelled.count_ne _ rfl)
      (spelled.count_digits _ rfl) (by simpa using blank)
    rw [matchRange, Range.text, List.append_assoc, List.cons_append, number]
    simp [matchCount, count]

theorem of_matchRange {text rest : List Char} {r : Range}
    (matched : matchRange py text = some (r, rest)) :
    text = r.text ++ rest ∧ r.Spelled py := by
  obtain ⟨⟨start, after⟩, number, read⟩ := Option.map_eq_some_iff.1 matched
  obtain ⟨rfl, start_ne, start_digits⟩ := of_matchNumber number
  have plain : ∀ {rest}, (⟨start, none⟩, after) = (r, rest) →
      start ++ after = r.text ++ rest ∧ r.Spelled py := by
    rintro _ ⟨⟩
    refine ⟨by simp [Range.text], start_ne, start_digits, fun _ none_ => ?_, fun _ none_ => ?_⟩
    · cases none_
    · cases none_
  unfold matchCount at read
  dsimp only at read
  split at read
  · next after =>
    split at read
    · next digits rest' count =>
      obtain ⟨rfl, count_ne, count_digits⟩ := of_matchNumber count
      cases read
      refine ⟨by simp [Range.text], start_ne, start_digits, ?_, ?_⟩
      · rintro _ ⟨⟩
        exact count_ne
      · rintro _ ⟨⟩
        exact count_digits
    · exact plain read
  · exact plain read

theorem dropPrefix?_eq_some {text lead rest : List Char} :
    text.dropPrefix? lead = some rest ↔ text = lead ++ rest := by
  rw [List.dropPrefix?_eq_some_iff]
  constructor
  · rintro ⟨_, rfl, same⟩
    rw [eq_of_beq same]
  · rintro rfl
    exact ⟨lead, rfl, BEq.rfl⟩

theorem matchHeader_eq_some_iff {line : Line} {h : HunkHeader} :
    matchHeader py line = some h ↔ line = h.text ∧ h.old.Spelled py ∧ h.new.Spelled py := by
  simp only [matchHeader, Option.bind_eq_bind, Option.bind_eq_some_iff, Prod.exists,
    dropPrefix?_eq_some]
  constructor
  · rintro ⟨_, rfl, old, _, matchedOld, _, rfl, new, _, matchedNew, rest⟩
    obtain ⟨rfl, oldSpelled⟩ := of_matchRange matchedOld
    obtain ⟨rfl, newSpelled⟩ := of_matchRange matchedNew
    split at rest
    · next ends =>
      cases rest
      rw [ends]
      exact ⟨rfl, oldSpelled, newSpelled⟩
    · cases rest
  · rintro ⟨rfl, oldSpelled, newSpelled⟩
    exact ⟨_, rfl, _, _, matchRange_append oldSpelled _, _, rfl, _, _,
      matchRange_append newSpelled _, if_pos rfl⟩

/-! ## Reading a hunk -/

@[simp] theorem oldPart_cons (b : BodyLine) (body : List BodyLine) :
    oldPart (b :: body) =
      if b.mark = .added then oldPart body else b.content :: oldPart body := by
  by_cases added : b.mark = .added <;> simp [oldPart, added]

@[simp] theorem newPart_cons (b : BodyLine) (body : List BodyLine) :
    newPart (b :: body) =
      if b.mark = .deleted then newPart body else b.content :: newPart body := by
  by_cases deleted : b.mark = .deleted <;> simp [newPart, deleted]

theorem exists_bodyLine {line : Line} {c : Char} (begins : line.take 1 = [c]) (mark : Mark)
    (is : mark.char = c) : line = BodyLine.text ⟨mark, line.drop 1⟩ := by
  have := List.take_append_drop 1 line
  rw [begins] at this
  rw [BodyLine.text, is]
  exact this.symm

def counted (b : BodyLine) (seen : ℕ × ℕ) : ℕ × ℕ :=
  (if b.mark = .added then seen.1 else seen.1 + 1, if b.mark = .deleted then seen.2 else seen.2 + 1)

theorem countLine_eq_ok_iff {path line : Line} {seen seen' : ℕ × ℕ} :
    countLine path line seen = .ok seen' ↔
      ∃ b : BodyLine, line = b.text ∧ seen' = counted b seen := by
  constructor
  · intro counts
    unfold countLine at counts
    split at counts
    · next begins =>
      cases counts
      exact ⟨_, exists_bodyLine begins .context rfl, rfl⟩
    · next begins =>
      cases counts
      exact ⟨_, exists_bodyLine begins .deleted rfl, rfl⟩
    · next begins =>
      cases counts
      exact ⟨_, exists_bodyLine begins .added rfl, rfl⟩
    · cases counts
  · rintro ⟨⟨mark, content⟩, rfl, rfl⟩
    cases mark <;> rfl

theorem counted_add (b : BodyLine) (body : List BodyLine) (seen : ℕ × ℕ) :
    (counted b seen).1 + (oldPart body).length = seen.1 + (oldPart (b :: body)).length ∧
      (counted b seen).2 + (newPart body).length = seen.2 + (newPart (b :: body)).length := by
  obtain ⟨mark, content⟩ := b
  cases mark <;> simp [counted, Nat.add_assoc, Nat.add_comm 1]

theorem eq_nil_of_parts {body : List BodyLine} (old : oldPart body = []) (new : newPart body = []) :
    body = [] := by
  cases body with
  | nil => rfl
  | cons b body =>
    rw [oldPart_cons] at old
    rw [newPart_cons] at new
    cases mark : b.mark <;> simp [mark] at old new

theorem body_met {oldCount newCount : ℕ} {seen : ℕ × ℕ} {lines body rest : List Line}
    (oldLe : seen.1 ≤ oldCount) (newLe : seen.2 ≤ newCount)
    (met : ¬(seen.1 < oldCount ∨ seen.2 < newCount)) :
    (Except.ok ([], lines) : Except Failure (List Line × List Line)) = .ok (body, rest) ↔
      ∃ bodyLines : List BodyLine, body = bodyLines.map BodyLine.text ∧ lines = body ++ rest ∧
        seen.1 + (oldPart bodyLines).length = oldCount ∧
        seen.2 + (newPart bodyLines).length = newCount := by
  constructor
  · rintro ⟨⟩
    refine ⟨[], rfl, rfl, ?_, ?_⟩
    · show seen.1 + 0 = oldCount
      omega
    · show seen.2 + 0 = newCount
      omega
  · rintro ⟨bodyLines, rfl, rfl, old, new⟩
    have none_ : bodyLines = [] := by
      refine eq_nil_of_parts (List.length_eq_zero_iff.1 ?_) (List.length_eq_zero_iff.1 ?_)
      · omega
      · omega
    subst none_
    rfl

theorem readBody_eq_ok_iff {path : Line} {oldCount newCount : ℕ} {seen : ℕ × ℕ}
    {lines body rest : List Line} (oldLe : seen.1 ≤ oldCount) (newLe : seen.2 ≤ newCount) :
    readBody path oldCount newCount seen lines = .ok (body, rest) ↔
      ∃ bodyLines : List BodyLine, body = bodyLines.map BodyLine.text ∧ lines = body ++ rest ∧
        seen.1 + (oldPart bodyLines).length = oldCount ∧
        seen.2 + (newPart bodyLines).length = newCount := by
  induction lines generalizing seen body with
  | nil =>
    rw [readBody]
    by_cases open_ : seen.1 < oldCount ∨ seen.2 < newCount
    · rw [if_pos open_]
      refine ⟨fun raised => (nomatch raised), ?_⟩
      rintro ⟨bodyLines, rfl, none_, old, new⟩
      rw [List.map_eq_nil_iff.1 (List.append_eq_nil_iff.1 none_.symm).1] at old new
      simp only [oldPart, newPart, List.filter_nil, List.map_nil, List.length_nil] at old new
      omega
    · rw [if_neg open_]
      exact body_met oldLe newLe open_
  | cons line lines ih =>
    rw [readBody]
    by_cases open_ : seen.1 < oldCount ∨ seen.2 < newCount
    · rw [if_pos open_]
      constructor
      · intro reads
        obtain ⟨seen', counts, reads⟩ := Except.bind_eq_ok_iff.1 reads
        obtain ⟨within, reads⟩ := Except.check_eq_ok_iff.1 reads
        obtain ⟨⟨body', rest'⟩, more, reads⟩ := Except.bind_eq_ok_iff.1 reads
        cases reads
        obtain ⟨b, rfl, rfl⟩ := countLine_eq_ok_iff.1 counts
        obtain ⟨bodyLines, rfl, rfl, old, new⟩ := (ih (by omega) (by omega)).1 more
        have adds := counted_add b bodyLines seen
        exact ⟨b :: bodyLines, rfl, rfl, adds.1 ▸ old, adds.2 ▸ new⟩
      · rintro ⟨bodyLines, rfl, all, old, new⟩
        cases bodyLines with
        | nil =>
          simp only [oldPart, newPart, List.filter_nil, List.map_nil, List.length_nil] at old new
          omega
        | cons b bodyLines =>
          obtain ⟨rfl, rfl⟩ := List.cons.inj all
          have adds := counted_add b bodyLines seen
          rw [← adds.1] at old
          rw [← adds.2] at new
          refine Except.bind_eq_ok_iff.2 ⟨_, countLine_eq_ok_iff.2 ⟨b, rfl, rfl⟩, ?_⟩
          refine Except.check_eq_ok_iff.2 ⟨by omega, ?_⟩
          exact Except.bind_eq_ok_iff.2
            ⟨_, (ih (by omega) (by omega)).2 ⟨bodyLines, rfl, rfl, old, new⟩, rfl⟩
    · rw [if_neg open_]
      exact body_met oldLe newLe open_

theorem toInt_eq_ok_iff {digits : List Char} {n : ℕ} :
    toInt py digits = .ok n ↔ Short digits ∧ n = valueOf py digits := by
  rw [toInt, Except.check_eq_ok_iff, Nat.not_lt, Except.ok.injEq, eq_comm (b := n)]
  rfl

theorem countOf_eq_ok_iff {count : Option (List Char)} {n : ℕ} :
    countOf py count = .ok n ↔
      (∀ digits, count = some digits → Short digits) ∧ n = countValue py count := by
  cases count with
  | none =>
    rw [countOf, Except.ok.injEq, eq_comm (b := n)]
    exact ⟨fun same => ⟨fun _ none_ => absurd none_ (Option.some_ne_none _).symm, same⟩, And.right⟩
  | some digits =>
    rw [countOf, toInt_eq_ok_iff]
    simp [countValue]

theorem readHunk_eq_ok_iff {path line : Line} {lines rest : List Line} {hunk : ReadHunk} :
    readHunk py path line lines = .ok (hunk, rest) ↔
      ∃ h : Hunk py, line :: lines = h.lines ++ rest ∧ hunk = h.read := by
  constructor
  · intro reads
    unfold readHunk at reads
    split at reads
    · cases reads
    · next header matched =>
      obtain ⟨rfl, oldSpelled, newSpelled⟩ := matchHeader_eq_some_iff.1 matched
      obtain ⟨oldStart, start, reads⟩ := Except.bind_eq_ok_iff.1 reads
      obtain ⟨oldCount, old, reads⟩ := Except.bind_eq_ok_iff.1 reads
      obtain ⟨newCount, new, reads⟩ := Except.bind_eq_ok_iff.1 reads
      obtain ⟨some_, reads⟩ := Except.check_eq_ok_iff.1 reads
      obtain ⟨⟨body, rest'⟩, body_, reads⟩ := Except.bind_eq_ok_iff.1 reads
      cases reads
      obtain ⟨startShort, rfl⟩ := toInt_eq_ok_iff.1 start
      obtain ⟨oldShort, rfl⟩ := countOf_eq_ok_iff.1 old
      obtain ⟨newShort, rfl⟩ := countOf_eq_ok_iff.1 new
      obtain ⟨bodyLines, rfl, rfl, oldLength, newLength⟩ :=
        (readBody_eq_ok_iff (Nat.zero_le _) (Nat.zero_le _)).1 body_
      rw [Nat.zero_add] at oldLength newLength
      have body_ne : bodyLines ≠ [] := by
        rintro rfl
        exact some_ ⟨oldLength.symm, newLength.symm⟩
      refine ⟨⟨header, bodyLines, oldSpelled, newSpelled, startShort, oldShort, newShort, oldLength,
        newLength, body_ne⟩, rfl, ?_⟩
      rw [← oldLength]
      rfl
  · rintro ⟨h, all, rfl⟩
    obtain ⟨rfl, rfl⟩ := List.cons.inj all
    have matched := matchHeader_eq_some_iff.2 ⟨rfl, h.old_spelled, h.new_spelled⟩
    have some_ : ¬(h.old.length = 0 ∧ h.new.length = 0) := fun both =>
      h.body_ne (eq_nil_of_parts (List.length_eq_zero_iff.1 both.1)
        (List.length_eq_zero_iff.1 both.2))
    have body : readBody path h.old.length h.new.length (0, 0)
        (h.body.map BodyLine.text ++ rest) = .ok (h.body.map BodyLine.text, rest) :=
      (readBody_eq_ok_iff (Nat.zero_le _) (Nat.zero_le _)).2
        ⟨h.body, rfl, rfl, Nat.zero_add _, Nat.zero_add _⟩
    rw [readHunk]
    simp only [matched]
    refine Except.bind_eq_ok_iff.2 ⟨_, toInt_eq_ok_iff.2 ⟨h.old_start_short, rfl⟩, ?_⟩
    refine Except.bind_eq_ok_iff.2 ⟨_, countOf_eq_ok_iff.2 ⟨h.old_count_short, h.old_length⟩, ?_⟩
    refine Except.bind_eq_ok_iff.2 ⟨_, countOf_eq_ok_iff.2 ⟨h.new_count_short, h.new_length⟩, ?_⟩
    refine Except.check_eq_ok_iff.2 ⟨some_, ?_⟩
    exact Except.bind_eq_ok_iff.2 ⟨_, body, rfl⟩

/-- Whether a line begins like a hunk header. -/
def BeginsHunk (line : Line) : Prop := ['@', '@', ' '].isPrefixOf line = true

theorem beginsHunk_text (h : HunkHeader) : BeginsHunk h.text := by
  simp [BeginsHunk, HunkHeader.text]

theorem readHunks_nil_iff {rest : List Line} {hunks : List ReadHunk} :
    (Except.ok ([], []) : Except Failure (List ReadHunk × List Line)) = .ok (hunks, rest) ↔
      ∃ hs : List (Hunk py), [] = hs.flatMap Hunk.lines ++ rest ∧ hunks = hs.map Hunk.read ∧
        ∀ line ∈ rest.head?, ¬BeginsHunk line := by
  constructor
  · rintro ⟨⟩
    exact ⟨[], rfl, rfl, by simp⟩
  · rintro ⟨hs, none_, rfl, -⟩
    obtain ⟨hs_nil, rfl⟩ := List.append_eq_nil_iff.1 none_.symm
    cases hs with
    | nil => rfl
    | cons h hs => cases hs_nil

/-- **The hunks of a file are read** up to a line that does not begin like one. -/
theorem readHunks_eq_ok_iff {path : Line} {fuel : ℕ} {lines rest : List Line}
    {hunks : List ReadHunk} (enough : lines.length ≤ fuel) :
    readHunks py path fuel lines = .ok (hunks, rest) ↔
      ∃ hs : List (Hunk py), lines = hs.flatMap Hunk.lines ++ rest ∧ hunks = hs.map Hunk.read ∧
        ∀ line ∈ rest.head?, ¬BeginsHunk line := by
  induction fuel generalizing lines hunks with
  | zero =>
    obtain rfl := List.length_eq_zero_iff.1 (Nat.le_zero.1 enough)
    exact readHunks_nil_iff
  | succ fuel ih =>
    cases lines with
    | nil => exact readHunks_nil_iff
    | cons line lines =>
      rw [List.length_cons] at enough
      rw [readHunks]
      split
      · next begins =>
        constructor
        · intro reads
          obtain ⟨⟨hunk, behind⟩, read, reads⟩ := Except.bind_eq_ok_iff.1 reads
          obtain ⟨⟨hunks', rest'⟩, more, reads⟩ := Except.bind_eq_ok_iff.1 reads
          cases reads
          obtain ⟨h, all, rfl⟩ := readHunk_eq_ok_iff.1 read
          have shorter : behind.length ≤ fuel := by
            have lengths := congrArg List.length all
            rw [List.length_cons, List.length_append, Hunk.lines, List.length_cons] at lengths
            omega
          obtain ⟨hs, rfl, rfl, ends⟩ := (ih shorter).1 more
          refine ⟨h :: hs, ?_, rfl, ends⟩
          rw [all, List.flatMap_cons, List.append_assoc]
        · rintro ⟨hs, all, rfl, ends⟩
          cases hs with
          | nil =>
            rw [List.flatMap_nil, List.nil_append] at all
            subst all
            exact absurd begins (ends line rfl)
          | cons h hs =>
            rw [List.flatMap_cons, List.append_assoc] at all
            have short : (hs.flatMap Hunk.lines ++ rest).length ≤ fuel := by
              have lengths := congrArg List.length all
              rw [List.length_cons, List.length_append, Hunk.lines, List.length_cons] at lengths
              omega
            exact Except.bind_eq_ok_iff.2 ⟨_, readHunk_eq_ok_iff.2 ⟨h, all, rfl⟩,
              Except.bind_eq_ok_iff.2 ⟨_, (ih short).2 ⟨hs, rfl, rfl, ends⟩, rfl⟩⟩
      · next other =>
        constructor
        · rintro ⟨⟩
          refine ⟨[], rfl, rfl, fun first is => ?_⟩
          obtain rfl := Option.some.inj is
          exact other
        · rintro ⟨hs, all, rfl, -⟩
          cases hs with
          | nil =>
            rw [List.flatMap_nil, List.nil_append] at all
            rw [all]
            rfl
          | cons h hs =>
            obtain ⟨rfl, -⟩ := List.cons.inj all
            exact absurd (beginsHunk_text h.header) other

/-! ## Applying a hunk -/

theorem standsAt_iff {h : Hunk py} {position : ℕ} :
    h.StandsAt position ↔ h.read.anchor = position := by
  unfold Hunk.StandsAt ReadHunk.anchor
  have count : h.read.oldCount = 0 ↔ h.old = [] := List.length_eq_zero_iff
  by_cases none_ : h.old = []
  · rw [if_pos none_, if_neg (not_not.2 (count.2 none_))]
    exact Int.natCast_inj.symm
  · rw [if_neg none_, if_pos (mt count.1 none_)]
    show h.oldStart = position + 1 ↔ (h.oldStart : ℤ) - 1 = position
    omega

theorem cons_prefix_drop_iff {line : Line} {lines oldLines : List Line} {cursor : ℕ} :
    line :: lines <+: oldLines.drop cursor ↔
      oldLines[cursor]? = some line ∧ lines <+: oldLines.drop (cursor + 1) := by
  rw [← List.tail_drop, ← List.head?_drop]
  cases oldLines.drop cursor with
  | nil => simp
  | cons first behind =>
    rw [List.cons_prefix_cons, List.head?_cons, List.tail_cons, Option.some.injEq, eq_comm]

/-- **A body is applied** where its old part stands; what it puts there is written. -/
theorem foldlM_applyLine_eq_ok_iff {path : Line} {oldLines out : List Line} {cursor : ℕ}
    {body : List BodyLine} {result : List Line × ℕ} :
    (body.map BodyLine.text).foldlM (applyLine path oldLines) (out, cursor) = .ok result ↔
      oldPart body <+: oldLines.drop cursor ∧
        result = (out ++ newPart body, cursor + (oldPart body).length) := by
  induction body generalizing out cursor with
  | nil =>
    simp only [oldPart, newPart, List.filter_nil, List.map_nil, List.foldlM_nil,
      List.append_nil, List.length_nil, Nat.add_zero, List.nil_prefix, true_and]
    exact ⟨fun same => (Except.ok.inj same).symm, fun same => congrArg Except.ok same.symm⟩
  | cons b body ih =>
    obtain ⟨mark, content⟩ := b
    rw [List.map_cons, List.foldlM_cons]
    cases mark with
    | context =>
      have line : applyLine path oldLines (out, cursor) (BodyLine.text ⟨.context, content⟩) =
          if oldLines[cursor]? = some content then .ok (out ++ [content], cursor + 1)
          else .error (patchFor path
            ("context line does not match the base: " ++ quoted content)) := rfl
      rw [line, show oldPart (⟨.context, content⟩ :: body) = content :: oldPart body from rfl,
        show newPart (⟨.context, content⟩ :: body) = content :: newPart body from rfl,
        cons_prefix_drop_iff]
      by_cases is : oldLines[cursor]? = some content
      · rw [if_pos is]
        show List.foldlM _ _ _ = _ ↔ _
        rw [ih]
        simp [is, Nat.add_assoc, Nat.add_comm 1]
      · rw [if_neg is]
        exact ⟨fun raised => (nomatch raised), fun both => absurd both.1.1 is⟩
    | deleted =>
      have line : applyLine path oldLines (out, cursor) (BodyLine.text ⟨.deleted, content⟩) =
          if oldLines[cursor]? = some content then .ok (out, cursor + 1)
          else .error (patchFor path
            ("deleted line does not match the base: " ++ quoted content)) := rfl
      rw [line, show oldPart (⟨.deleted, content⟩ :: body) = content :: oldPart body from rfl,
        show newPart (⟨.deleted, content⟩ :: body) = newPart body from rfl, cons_prefix_drop_iff]
      by_cases is : oldLines[cursor]? = some content
      · rw [if_pos is]
        show List.foldlM _ _ _ = _ ↔ _
        rw [ih]
        simp [is, Nat.add_assoc, Nat.add_comm 1]
      · rw [if_neg is]
        exact ⟨fun raised => (nomatch raised), fun both => absurd both.1.1 is⟩
    | added =>
      show List.foldlM _ (out ++ [content], cursor) _ = _ ↔ _
      rw [ih, List.append_assoc]
      rfl

/-- **A hunk is applied** where it says: what stands in front of it is kept. -/
theorem applyHunk_eq_ok_iff {path : Line} {oldLines out : List Line} {cursor : ℕ} {h : Hunk py}
    {result : List Line × ℕ} (within : cursor ≤ oldLines.length) :
    applyHunk path oldLines (out, cursor) h.read = .ok result ↔
      ∃ gap rest, oldLines.drop cursor = gap ++ h.old ++ rest ∧
        h.StandsAt (cursor + gap.length) ∧
        result = (out ++ gap ++ h.new, cursor + gap.length + h.old.length) := by
  have count : h.read.oldCount = h.old.length := rfl
  unfold applyHunk
  rw [Except.check_eq_ok_iff, Except.check_eq_ok_iff, Except.check_eq_ok_iff]
  show _ ∧ _ ∧ _ ∧ List.foldlM _ _ (h.body.map BodyLine.text) = _ ↔ _
  rw [foldlM_applyLine_eq_ok_iff, count]
  constructor
  · rintro ⟨behind, past, beyond, ⟨rest, found⟩, rfl⟩
    obtain ⟨anchor, stands⟩ := Int.eq_ofNat_of_zero_le (a := h.read.anchor) (by omega)
    rw [stands] at behind past beyond
    have gap_length : ((oldLines.drop cursor).take (anchor - cursor)).length = anchor - cursor := by
      rw [List.length_take, List.length_drop]
      by_cases none_ : h.old.length = 0 <;> omega
    have position : cursor + (anchor - cursor) = anchor := by omega
    rw [stands, Int.toNat_natCast] at found ⊢
    refine ⟨(oldLines.drop cursor).take (anchor - cursor), rest, ?_, ?_, ?_⟩
    · have parts := List.take_append_drop (anchor - cursor) (oldLines.drop cursor)
      rw [List.drop_drop, position, ← found] at parts
      rw [List.append_assoc]
      exact parts.symm
    · rw [gap_length, position, standsAt_iff, stands]
    · rw [gap_length, position]
      rfl
  · rintro ⟨gap, rest, parts, stands, rfl⟩
    rw [standsAt_iff] at stands
    have length := congrArg List.length parts
    rw [List.length_drop, List.length_append, List.length_append] at length
    rw [stands, Int.toNat_natCast, Nat.add_sub_cancel_left]
    refine ⟨by omega, by omega, by omega, ⟨rest, ?_⟩, ?_⟩
    · rw [← List.drop_drop, parts, List.append_assoc, List.drop_left]
      rfl
    · rw [parts, List.append_assoc gap h.old rest, List.take_left]
      rfl

theorem drop_behind {oldLines gap old rest : List Line} {cursor : ℕ}
    (parts : oldLines.drop cursor = gap ++ old ++ rest) (within : cursor ≤ oldLines.length) :
    oldLines.drop (cursor + gap.length + old.length) = rest ∧
      cursor + gap.length + old.length ≤ oldLines.length := by
  constructor
  · rw [Nat.add_assoc, ← List.drop_drop, parts, ← List.length_append, List.drop_left]
  · have length := congrArg List.length parts
    rw [List.length_drop, List.length_append, List.length_append] at length
    omega

/-- **Hunks are applied to a file that fits them**, and to no other: what is
written, with what is left, is what the file is to become. -/
theorem foldlM_applyHunk_of_fits (path : Line) {oldLines : List Line} {hunks : List (Hunk py)}
    {position : ℕ} {lines new : List Line} (fits : Fits position lines hunks new)
    (left : oldLines.drop position = lines) (within : position ≤ oldLines.length)
    (out : List Line) :
    ∃ out' cursor', (hunks.map Hunk.read).foldlM (applyHunk path oldLines) (out, position) =
      .ok (out', cursor') ∧ out' ++ oldLines.drop cursor' = out ++ new := by
  induction fits generalizing out with
  | rest position lines => exact ⟨out, position, rfl, by rw [left]⟩
  | @hunk position gap old new h hunks stands fits ih =>
    have behind := drop_behind left within
    obtain ⟨out', cursor', folds, same⟩ := ih behind.1 behind.2 (out ++ gap ++ h.new)
    refine ⟨out', cursor', ?_, ?_⟩
    · rw [List.map_cons, List.foldlM_cons]
      exact Except.bind_eq_ok_iff.2
        ⟨_, (applyHunk_eq_ok_iff within).2 ⟨gap, old, left, stands, rfl⟩, folds⟩
    · rw [same]
      simp only [List.append_assoc]

theorem fits_of_foldlM_applyHunk {path : Line} {oldLines : List Line} {hunks : List (Hunk py)}
    {cursor cursor' : ℕ} {out out' : List Line} (within : cursor ≤ oldLines.length)
    (folds : (hunks.map Hunk.read).foldlM (applyHunk path oldLines) (out, cursor) =
      .ok (out', cursor')) :
    ∃ new, Fits cursor (oldLines.drop cursor) hunks new ∧
      out' ++ oldLines.drop cursor' = out ++ new := by
  induction hunks generalizing out cursor with
  | nil =>
    cases folds
    exact ⟨_, .rest _ _, rfl⟩
  | cons h hunks ih =>
    rw [List.map_cons, List.foldlM_cons] at folds
    obtain ⟨_, first, folds⟩ := Except.bind_eq_ok_iff.1 folds
    obtain ⟨gap, rest, parts, stands, rfl⟩ := (applyHunk_eq_ok_iff within).1 first
    have behind := drop_behind parts within
    obtain ⟨new, fits, same⟩ := ih behind.2 folds
    rw [behind.1] at fits
    refine ⟨gap ++ h.new ++ new, ?_, ?_⟩
    · rw [parts]
      exact .hunk stands fits
    · rw [same]
      simp only [List.append_assoc]

/-! ## Applying a patch -/

/-- **The two headers of a file are read**, and name the same path. -/
theorem readFileHeader_eq_ok_iff {total : ℕ} {line path : Line} {lines rest : List Line} :
    readFileHeader total line lines = .ok (path, rest) ↔
      path ≠ [] ∧ line = ['-', '-', '-', ' ', 'a', '/'] ++ path ∧
        lines = (['+', '+', '+', ' ', 'b', '/'] ++ path) :: rest := by
  constructor
  · intro reads
    unfold readFileHeader at reads
    split at reads
    · cases reads
    · next oldPath old =>
      rw [Except.check_eq_ok_iff] at reads
      obtain ⟨some_, reads⟩ := reads
      split at reads
      · cases reads
      · next next_ behind =>
        split at reads
        · cases reads
        · next newPath new =>
          split at reads
          · next same =>
            cases reads
            subst same
            exact ⟨some_, dropPrefix?_eq_some.1 old,
              congrArg (· :: rest) (dropPrefix?_eq_some.1 new)⟩
          · cases reads
  · rintro ⟨some_, rfl, rfl⟩
    have old : (['-', '-', '-', ' ', 'a', '/'] ++ path).dropPrefix?
        ['-', '-', '-', ' ', 'a', '/'] = some path := dropPrefix?_eq_some.2 rfl
    have new : (['+', '+', '+', ' ', 'b', '/'] ++ path).dropPrefix?
        ['+', '+', '+', ' ', 'b', '/'] = some path := dropPrefix?_eq_some.2 rfl
    unfold readFileHeader
    rw [old]
    simp only [if_neg some_, new, if_true]

theorem not_beginsHunk_of_sections {sections : List (FileSection py)} :
    ∀ line ∈ (sections.flatMap FileSection.lines).head?, ¬BeginsHunk line := by
  cases sections with
  | nil => exact fun _ none_ => nomatch none_
  | cons s sections =>
    intro line is
    obtain rfl := Option.some.inj is
    simp [BeginsHunk]

def FileSection.Makes (base : Store) (s : FileSection py) (after : Option (List Char)) : Prop :=
  ∃ new, Fits 0 (linesOf base s.path) s.hunks new ∧ after = textOf new

/-- What some sections make of a state: the files they name fit and become
what they say, and no other changes. -/
def Applied (base : Store) (before : Result) (sections : List (FileSection py))
    (after : Result) : Prop :=
  (∀ s ∈ sections, ∃ text, s.Makes base text ∧ after s.path = some text) ∧
    ∀ path, path ∉ sections.map FileSection.path → after path = before path

theorem applySections_nil_iff {base : Store} {seenPaths : List Line} {before after : Result} :
    (Except.ok before : Except Failure Result) = .ok after ↔
      ∃ sections : List (FileSection py), [] = sections.flatMap FileSection.lines ∧
        (sections.map FileSection.path).Nodup ∧
        (∀ s ∈ sections, s.path ∉ seenPaths) ∧ Applied base before sections after := by
  constructor
  · rintro ⟨⟩
    exact ⟨[], rfl, List.nodup_nil, by simp, by simp, fun _ _ => rfl⟩
  · rintro ⟨sections, none_, -, -, -, others⟩
    cases sections with
    | nil =>
      have same : after = before := funext fun path => others path List.not_mem_nil
      rw [same]
    | cons s sections => cases none_

theorem applied_cons_iff {base : Store} {before after : Result} {s : FileSection py}
    {sections : List (FileSection py)} {text : Option (List Char)} (makes : s.Makes base text)
    (named : after s.path = some text) :
    Applied base before (s :: sections) after ↔
      Applied base (Function.update before s.path (some text)) sections after := by
  constructor
  · rintro ⟨all, others⟩
    refine ⟨fun t mem => all t (List.mem_cons_of_mem s mem), fun path absent => ?_⟩
    by_cases same : path = s.path
    · rw [same, named, Function.update_self]
    · rw [Function.update_of_ne same]
      exact others path fun mem => (List.mem_cons.1 mem).elim same absent
  · rintro ⟨all, others⟩
    refine ⟨List.forall_mem_cons.2 ⟨⟨text, makes, named⟩, all⟩, fun path absent => ?_⟩
    rw [List.map_cons, List.mem_cons, not_or] at absent
    rw [others path absent.2, Function.update_of_ne absent.1]

theorem applySections_eq_ok_iff {base : Store} {total fuel : ℕ} {seenPaths lines : List Line}
    {before after : Result} (enough : lines.length ≤ fuel) :
    applySections py base total fuel seenPaths lines before = .ok after ↔
      ∃ sections : List (FileSection py), lines = sections.flatMap FileSection.lines ∧
        (sections.map FileSection.path).Nodup ∧
        (∀ s ∈ sections, s.path ∉ seenPaths) ∧ Applied base before sections after := by
  induction fuel generalizing seenPaths lines before with
  | zero =>
    obtain rfl := List.length_eq_zero_iff.1 (Nat.le_zero.1 enough)
    exact applySections_nil_iff
  | succ fuel ih =>
    cases lines with
    | nil => exact applySections_nil_iff
    | cons line lines =>
      rw [List.length_cons] at enough
      rw [applySections]
      constructor
      · intro applies
        obtain ⟨⟨path, behind⟩, header, checked⟩ := Except.bind_eq_ok_iff.1 applies
        obtain ⟨unseen, read⟩ := Except.check_eq_ok_iff.1 checked
        obtain ⟨⟨hunks, behind'⟩, reads, counted⟩ := Except.bind_eq_ok_iff.1 read
        obtain ⟨some_, folded⟩ := Except.check_eq_ok_iff.1 counted
        obtain ⟨⟨out, cursor⟩, folds, more⟩ := Except.bind_eq_ok_iff.1 folded
        obtain ⟨path_ne, rfl, rfl⟩ := readFileHeader_eq_ok_iff.1 header
        rw [List.length_cons] at enough
        obtain ⟨hs, rfl, rfl, -⟩ := (readHunks_eq_ok_iff (by omega)).1 reads
        obtain ⟨new, fits, same⟩ := fits_of_foldlM_applyHunk (Nat.zero_le _) folds
        rw [List.length_append] at enough
        obtain ⟨sections, rfl, nodup, unseen', applied⟩ := (ih (by omega)).1 more
        have hunks_ne : hs ≠ [] := fun none_ => some_ (by rw [none_]; rfl)
        have other : path ∉ sections.map FileSection.path := fun mem => by
          obtain ⟨s, mem, same⟩ := List.mem_map.1 mem
          exact unseen' s mem (same ▸ List.mem_cons_self)
        have named : after path = some (textOf new) := by
          rw [applied.2 path other, Function.update_self, same, List.nil_append]
        refine ⟨⟨path, hs, path_ne, hunks_ne⟩ :: sections, ?_, ?_, ?_, ?_⟩
        · rw [List.flatMap_cons, FileSection.lines]
          rfl
        · exact List.nodup_cons.2 ⟨other, nodup⟩
        · exact List.forall_mem_cons.2 ⟨unseen, fun s mem =>
            fun seen => unseen' s mem (List.mem_cons_of_mem _ seen)⟩
        · refine (applied_cons_iff (s := ⟨path, hs, path_ne, hunks_ne⟩) ⟨new, fits, rfl⟩ named).2 ?_
          rw [same, List.nil_append] at applied
          exact applied
      · rintro ⟨sections, all, nodup, unseen, applied⟩
        cases sections with
        | nil => cases all
        | cons s sections =>
          rw [List.flatMap_cons, FileSection.lines] at all
          obtain ⟨rfl, rfl⟩ := List.cons.inj all
          obtain ⟨other, nodup⟩ := List.nodup_cons.1 nodup
          obtain ⟨unseenHere, unseen⟩ := List.forall_mem_cons.1 unseen
          obtain ⟨text, ⟨new, fits, rfl⟩, named⟩ := applied.1 s List.mem_cons_self
          have applied := (applied_cons_iff ⟨new, fits, rfl⟩ named).1 applied
          obtain ⟨out, cursor, folds, same⟩ :=
            foldlM_applyHunk_of_fits s.path fits (List.drop_zero : (linesOf base s.path).drop 0 = _)
              (Nat.zero_le _) []
          rw [List.nil_append] at same
          rw [List.append_eq, List.cons_append, List.length_cons, List.length_append] at enough
          have short : (s.hunks.flatMap Hunk.lines ++
              sections.flatMap FileSection.lines).length ≤ fuel + 1 := by
            rw [List.length_append]
            omega
          have reads : readHunks py s.path (fuel + 1) (s.hunks.flatMap Hunk.lines ++
              sections.flatMap FileSection.lines) =
                .ok (s.hunks.map Hunk.read, sections.flatMap FileSection.lines) :=
            (readHunks_eq_ok_iff short).2 ⟨s.hunks, rfl, rfl, not_beginsHunk_of_sections⟩
          have some_ : s.hunks.map Hunk.read ≠ [] := fun none_ =>
            s.hunks_ne (List.map_eq_nil_iff.1 none_)
          refine Except.bind_eq_ok_iff.2
            ⟨_, readFileHeader_eq_ok_iff.2 ⟨s.path_ne, rfl, rfl⟩, ?_⟩
          refine Except.check_eq_ok_iff.2 ⟨unseenHere, ?_⟩
          refine Except.bind_eq_ok_iff.2 ⟨_, reads, ?_⟩
          refine Except.check_eq_ok_iff.2 ⟨some_, ?_⟩
          refine Except.bind_eq_ok_iff.2 ⟨_, folds, ?_⟩
          refine (ih (by omega)).2 ⟨sections, rfl, nodup, fun t mem => ?_, ?_⟩
          · rw [List.mem_cons, not_or]
            exact ⟨fun same => other (same ▸ List.mem_map_of_mem mem), unseen t mem⟩
          · rw [same]
            exact applied

/-- **A patch applies exactly when it spells sections of different files that
fit.** Then every file they name is its lines with the old ranges of the hunks
replaced by their new lines, and every other is as it was. -/
theorem apply_unified_patch_iff (py : Python) (base : Store) (patch : List Char)
    (result : Result) :
    applyUnifiedPatch py base patch = .ok result ↔
      ∃ sections : List (FileSection py),
        patchLines patch = sections.flatMap FileSection.lines ∧
          (sections.map FileSection.path).Nodup ∧
          (∀ s ∈ sections, ∃ new, Fits 0 (linesOf base s.path) s.hunks new ∧
            result s.path = some (textOf new)) ∧
          ∀ path, path ∉ sections.map FileSection.path → result path = (base path).map some := by
  rw [applyUnifiedPatch, applySections_eq_ok_iff le_rfl]
  refine exists_congr fun sections => and_congr_right fun _ => and_congr_right fun _ => ?_
  constructor
  · rintro ⟨-, all, others⟩
    refine ⟨fun s mem => ?_, others⟩
    obtain ⟨_, ⟨new, fits, rfl⟩, named⟩ := all s mem
    exact ⟨new, fits, named⟩
  · rintro ⟨all, others⟩
    refine ⟨fun _ _ => List.not_mem_nil, fun s mem => ?_, others⟩
    obtain ⟨new, fits, named⟩ := all s mem
    exact ⟨textOf new, ⟨new, fits, rfl⟩, named⟩

end

/-! ## Line ends are not kept -/

def ascii : Python where
  decimal := fun c => if c.isDigit then some (c.toNat - 48) else none
  decimal_comma := rfl
  decimal_blank := rfl

/-- A file whose first line ends with a carriage return and a line feed. -/
def crlfBase : Store := fun path => if path = ['f'] then some "a\r\nb\n".toList else none

/-- A patch that adds a line at its end. -/
def addition : List Char := "--- a/f\n+++ b/f\n@@ -2,0 +3 @@\n+c\n".toList

/-- The first line, which no hunk touches, ends otherwise in the result. -/
theorem line_end_changed :
    ((applyUnifiedPatch ascii crlfBase addition).toOption.bind fun result => result ['f']) =
        some (some "a\nb\nc\n".toList) ∧
      ¬ "a\r\nb\n".toList <+: "a\nb\nc\n".toList := by
  decide +kernel

end UnifiedPatch
