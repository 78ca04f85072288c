import CharlieBot.Lib.PosixPath
import Mathlib.Data.List.DropRight

/-!
# The entries of the memory

An entry of the memory is a file with a header between two lines of hyphens and a body behind it.
Its title is a field of the header; in the older form it is the first line of the body.

Both forms are read alike, and an entry is shown with its title on the first line. A body that
opens with a heading of its own is shown as it is, though, whether its title is there or in the
header: `titled_fullText` has a title in every text but that of an entry with a title in
the header and another one over its body.
-/

namespace MemoryStore

/-! ## Patterns -/

/-- A text without the line feed that `$` leaves behind it. -/
def beforeEnd (s : List Char) : List Char := if s.getLast? = some '\n' then s.dropLast else s

/-- `[A-Za-z0-9._-]`. -/
def slugChar (c : Char) : Bool := c.isAlphanum || c == '.' || c == '_' || c == '-'

/-- `_SLUG_RE.match`. -/
def slugMatches (s : List Char) : Bool := !(beforeEnd s).isEmpty && (beforeEnd s).all slugChar

/-- `_TOPIC_NAME_RE.match`. -/
def topicNameMatches (s : List Char) : Bool :=
  match beforeEnd s with
  | [] => false
  | first :: rest => (first.isLower || first.isDigit)
      && rest.all fun c => c.isLower || c.isDigit || c == '-'

/-- `_TOPIC_LINE_RE.match`, for a line: the topic, and whether it is resident. -/
def topicLine (line : List Char) : Option (String × Bool) :=
  let suffix := " resident".toList
  if topicNameMatches line then some (String.ofList line, false)
  else
    let name := line.take (line.length - suffix.length)
    if suffix.isSuffixOf line && topicNameMatches name then some (String.ofList name, true)
    else none

/-- `_CREATED_RE.match`. -/
def createdMatches (s : List Char) : Bool :=
  match (Text.splitOnChar '-' (beforeEnd s)) with
  | [year, month, day] => year.length = 4 && month.length = 2 && day.length = 2
      && (year ++ month ++ day).all Char.isDigit
  | _ => false

/-- `_AUDIENCE_VALUE_RE.match`, for a value without a line feed. -/
def audienceMatches (value : List Char) : Bool :=
  value.head? != some ' ' && value.getLast? != some ' '
    && (Text.splitOnChar ',' value).all fun piece =>
      let name := ((piece.dropWhile (· == ' ')).reverse.dropWhile (· == ' ')).reverse
      !name.isEmpty && name.all slugChar

/-- `_HEADER_RE.match`, for a line: the field and its value. -/
def headerLine (line : List Char) : Option (List Char × List Char) :=
  let key := line.takeWhile fun c => c.isLower || c == '_'
  let rest := line.drop key.length
  if !key.isEmpty && ": ".toList.isPrefixOf rest && !(rest.drop 2).isEmpty then
    some (key, rest.drop 2)
  else none

/-! ## Entries -/

structure Entry where
  path : String
  /-- `path.parent.name`. -/
  parent : String
  topic : Option String
  slug : String
  scope : Option String
  audience : Option (List String)
  audienceRaw : Option String
  created : Option String
  source : Option String
  revises : Option String
  title : String
  titleInHeader : Bool
  body : String
  deriving DecidableEq

def knownFields : List String :=
  ["scope", "topic", "audience", "title", "created", "source", "revises"]

def parseAudience (raw : String) : List String :=
  if raw = "both" then ["master", "worker"]
  else (Text.splitOnChar ',' raw.toList).map fun piece => String.ofList (Text.strip piece)

/-- The complaint about a line that is no field. -/
def malformedLine (path : String) (number : ℕ) (line : List Char) : String :=
  path ++ ": line " ++ toString number ++ ": malformed header line: "
    ++ String.ofList (Text.reprStr line)

def fieldValue (path : String) (number : ℕ) (line : List Char) (key : String)
    (value : List Char) : Except String (List Char) :=
  if key = "title" then
    if (Text.strip value).isEmpty then
      .error (path ++ ": line " ++ toString number ++ ": empty 'title' header value")
    else .ok (Text.strip value)
  else if key = "audience" then
    if audienceMatches value then .ok value else .error (malformedLine path number line)
  else if slugMatches value then .ok value
  else .error (malformedLine path number line)

/-- The lines of the header from the one of the index on: the fields, the index of the line that
closes it, and the lines behind. -/
def parseHeader (path : String) :
    ℕ → List (String × List Char) → List (List Char) →
      Except String (List (String × List Char) × ℕ × List (List Char))
  | _, _, [] => .error (path ++ ": missing closing '---' after header")
  | i, header, line :: lines =>
    if line = "---".toList then .ok (header, i, lines)
    else
      match headerLine line with
      | none => .error (malformedLine path (i + 1) line)
      | some (key, value) =>
        let key := String.ofList key
        if key ∉ knownFields then
          .error (path ++ ": line " ++ toString (i + 1) ++ ": unknown header field "
            ++ String.ofList (Text.reprStr key.toList))
        else if (header.lookup key).isSome then
          .error (path ++ ": line " ++ toString (i + 1) ++ ": duplicate header field "
            ++ String.ofList (Text.reprStr key.toList))
        else
          match fieldValue path (i + 1) line key value with
          | .error e => .error e
          | .ok value => parseHeader path (i + 1) (header ++ [(key, value)]) lines

/-- The title of an entry, and whether it is in the header. -/
def entryTitle (path : String) (i : ℕ) (header : List (String × List Char))
    (first : List Char) : Except String (List Char × Bool) :=
  match header.lookup "title" with
  | some title => .ok (title, true)
  | none =>
    if !"# ".toList.isPrefixOf first then
      .error (path ++ ": line " ++ toString (i + 2)
        ++ ": no frontmatter 'title' and body must start with '# <title>'")
    else if (Text.strip (first.drop 2)).isEmpty then
      .error (path ++ ": line " ++ toString (i + 2) ++ ": empty title after '# '")
    else .ok (Text.strip (first.drop 2), false)

/-- `parse_entry_text`, with the path, the name of its directory and its stem. -/
def parseEntryText (path parent slug : String) (text : List Char) : Except String Entry :=
  match Text.splitOnChar '\n' text with
  | opener :: lines =>
    if opener ≠ "---".toList then
      .error (path ++ ": line 1: expected '---' front matter opener")
    else
      match parseHeader path 1 [] lines with
      | .error e => .error e
      | .ok (header, i, bodyLines) =>
        match bodyLines with
        | [] => .error (path ++ ": line " ++ toString (i + 2) ++ ": empty body")
        | first :: rest =>
          if rest = [] ∧ first = [] then
            .error (path ++ ": line " ++ toString (i + 2) ++ ": empty body")
          else
            (entryTitle path i header first).map fun title =>
              let field := fun key => (header.lookup key).map String.ofList
              { path, parent, slug
                topic := field "topic"
                scope := field "scope"
                audience := (field "audience").map parseAudience
                audienceRaw := field "audience"
                created := field "created"
                source := field "source"
                revises := field "revises"
                title := String.ofList title.1
                titleInHeader := title.2
                body := String.ofList (Text.join ['\n'] (first :: rest)) }
  | [] => .error (path ++ ": line 1: expected '---' front matter opener")

/-! ## What an entry must be -/

/-- `repr` of a text. -/
def quoted (s : String) : String := String.ofList (Text.reprStr s.toList)

def audienceViolations (entry : Entry) : List String :=
  ((entry.audience.getD []).filter fun el => el ≠ "master" ∧ el ≠ "worker").map fun el =>
    "audience element " ++ quoted el ++ " not in \x7bmaster, worker\x7d"

def complain (applies : Bool) (message : String) : List String := if applies then [message] else []

/-- What is wrong with an entry of `staging`, besides its topic. -/
def relaxedViolations (entry : Entry) : List String :=
  (entry.scope.toList.flatMap fun scope => complain (scope ≠ "user" && scope ≠ "host")
      ("scope " ++ quoted scope ++ " not in \x7buser, host\x7d"))
    ++ audienceViolations entry
    ++ (entry.created.toList.flatMap fun created => complain (!createdMatches created.toList)
      ("created " ++ quoted created ++ " not YYYY-MM-DD"))
    ++ (entry.revises.toList.flatMap fun revises => complain (!slugMatches revises.toList)
      ("revises " ++ quoted revises ++ " does not match slug charset"))

/-- What is wrong with an entry of `entries`, besides its topic's name. -/
def strictViolations (entry : Entry) (topics : List (String × Bool)) : List String :=
  (entry.topic.toList.flatMap fun topic => complain (topic ≠ "" && (topics.lookup topic).isNone)
      ("topic " ++ quoted topic ++ " not in topics vocabulary"))
    ++ (entry.topic.toList.flatMap fun topic => complain (topic ≠ "" && entry.parent ≠ topic)
      ("directory name " ++ quoted entry.parent ++ " != topic " ++ quoted topic))
    ++ complain entry.scope.isNone "missing required header field 'scope'"
    ++ complain entry.audience.isNone "missing required header field 'audience'"
    ++ (entry.scope.toList.flatMap fun scope => complain (scope ≠ "user" && scope ≠ "host")
      ("scope " ++ quoted scope ++ " not in \x7buser, host\x7d"))
    ++ audienceViolations entry
    ++ (entry.created.toList.flatMap fun created => complain (!createdMatches created.toList)
      ("created " ++ quoted created ++ " not YYYY-MM-DD"))
    ++ (entry.source.toList.flatMap fun source => complain (!slugMatches source.toList)
      ("source " ++ quoted source ++ " does not match slug charset"))
    ++ complain entry.revises.isSome
      "'revises' is forbidden in entries/ (only staging candidates may carry it)"

/-- What only `lint` holds against an entry. -/
def v2Violations (entry : Entry) : List String :=
  complain (!entry.titleInHeader) "missing required header field 'title'"
    ++ complain (entry.audienceRaw == some "both")
      "literal audience 'both' is forbidden in entries/; write 'master, worker'"
    ++ complain entry.created.isSome
      "'created' is forbidden in entries/ (dropped in entry format v2)"
    ++ complain entry.source.isSome
      "'source' is forbidden in entries/ (dropped in entry format v2)"

/-- What is wrong with the slug and the topic of an entry. -/
def nameViolations (entry : Entry) : List String :=
  complain (!slugMatches entry.slug.toList) ("filename slug " ++ quoted entry.slug
      ++ " does not match slug charset [A-Za-z0-9._-]")
    ++ match entry.topic.filter (· ≠ "") with
      | none => ["missing required header field 'topic'"]
      | some topic => complain (!topicNameMatches topic.toList)
          ("topic " ++ quoted topic ++ " is not a valid topic name")

def validateEntry (entry : Entry) (topics : List (String × Bool)) (relaxed strictV2 : Bool) :
    List String :=
  let label := (entry.topic.filter (· ≠ "")).getD "?"
  let violations :=
    if relaxed then nameViolations entry ++ relaxedViolations entry
    else nameViolations entry ++ strictViolations entry topics
      ++ if strictV2 then v2Violations entry else []
  violations.map fun message =>
    (if relaxed then "staging" else "entries") ++ "/" ++ label ++ "/" ++ entry.slug ++ ".md: "
      ++ message

/-- **What `lint` does not hold against an entry** does not keep it from being loaded. -/
theorem validateEntry_of_strictV2 {entry : Entry} {topics : List (String × Bool)}
    (h : validateEntry entry topics false true = []) :
    validateEntry entry topics false false = [] := by
  unfold validateEntry at h ⊢
  rw [if_neg Bool.false_ne_true, if_pos rfl, List.map_eq_nil_iff, List.append_eq_nil_iff] at h
  rw [if_neg Bool.false_ne_true, if_neg Bool.false_ne_true, List.map_eq_nil_iff, h.1]
  rfl

/-! ## The text of an entry -/

/-- `s.rstrip("\n")`. -/
def rstrip (s : List Char) : List Char := (s.reverse.dropWhile (· == '\n')).reverse

def fullText (entry : Entry) : List Char :=
  let body := rstrip entry.body.toList
  if "# ".toList.isPrefixOf body then body
  else "# ".toList ++ entry.title.toList ++ "\n\n".toList ++ body

def firstLine (s : List Char) : List Char := s.takeWhile (· != '\n')

/-- **A text has a title**: its first line is a heading, and that is the title. -/
def Titled (text : List Char) (title : String) : Prop :=
  ∃ heading, firstLine text = "# ".toList ++ heading ∧ Text.strip heading = title.toList

instance (text : List Char) (title : String) : Decidable (Titled text title) :=
  decidable_of_iff ("# ".toList.isPrefixOf (firstLine text) = true
      ∧ Text.strip ((firstLine text).drop 2) = title.toList)
    ⟨fun ⟨hopens, htitle⟩ => by
      obtain ⟨heading, hheading⟩ := List.isPrefixOf_iff_prefix.mp hopens
      refine ⟨heading, hheading.symm, ?_⟩
      rw [← hheading] at htitle
      exact htitle,
    fun ⟨heading, hheading, htitle⟩ => by
      rw [hheading]
      exact ⟨List.isPrefixOf_iff_prefix.mpr (List.prefix_append _ _), htitle⟩⟩

/-! ## Lines -/

theorem not_mem_of_mem_splitOnChar {sep : Char} {s piece : List Char}
    (h : piece ∈ Text.splitOnChar sep s) : sep ∉ piece := by
  induction s generalizing piece with
  | nil =>
    rw [List.mem_singleton.mp h]
    exact List.not_mem_nil
  | cons c s ih =>
    unfold Text.splitOnChar at h
    split at h
    · rcases List.mem_cons.mp h with rfl | h
      · exact List.not_mem_nil
      · exact ih h
    · next hc =>
      split at h
      · rw [List.mem_singleton.mp h]
        exact fun hmem => hc (List.mem_singleton.mp hmem).symm
      · next first pieces hsplit =>
        rw [hsplit] at ih
        rcases List.mem_cons.mp h with rfl | h
        · intro hmem
          rcases List.mem_cons.mp hmem with heq | hmem
          · exact hc heq.symm
          · exact ih List.mem_cons_self hmem
        · exact ih (List.mem_cons_of_mem _ h)

theorem strip_strip (s : List Char) : Text.strip (Text.strip s) = Text.strip s := by
  have hstrip : ∀ u : List Char, Text.strip u
      = List.rdropWhile Text.isSpace (u.dropWhile Text.isSpace) := fun _ => rfl
  rw [hstrip s]
  have hfront : (List.rdropWhile Text.isSpace (s.dropWhile Text.isSpace)).dropWhile Text.isSpace
      = List.rdropWhile Text.isSpace (s.dropWhile Text.isSpace) := by
    rw [List.dropWhile_eq_self_iff]
    intro hlength
    have hkept := List.rdropWhile_prefix Text.isSpace (s.dropWhile Text.isSpace)
    have hself := List.dropWhile_eq_self_iff.mp
      (List.dropWhile_idempotent (p := Text.isSpace) (l := s))
    rw [hkept.getElem hlength]
    exact hself (hlength.trans_le hkept.length_le)
  rw [hstrip, hfront, List.rdropWhile_idempotent]

theorem mem_of_mem_strip {s : List Char} {c : Char} (h : c ∈ Text.strip s) : c ∈ s := by
  have hback : c ∈ s.dropWhile Text.isSpace :=
    ( List.rdropWhile_prefix Text.isSpace (s.dropWhile Text.isSpace)).subset h
  exact (List.dropWhile_suffix Text.isSpace).subset hback

theorem firstLine_rstrip (s : List Char) : firstLine (rstrip s) = firstLine s := by
  have hcut : rstrip s ++ s.rtakeWhile (· == '\n') = s := List.rdropWhile_append_rtakeWhile
  have hfeeds : (s.rtakeWhile (· == '\n')).takeWhile (· != '\n') = [] := by
    cases hend : s.rtakeWhile (· == '\n') with
    | nil => rfl
    | cons c rest =>
      have hmem : c ∈ s.rtakeWhile (· == '\n') := by
        rw [hend]
        exact List.mem_cons_self
      have hc : (c == '\n') = true := List.mem_rtakeWhile_imp (p := (· == '\n')) hmem
      rw [List.takeWhile_cons, bne, hc]
      rfl
  unfold firstLine
  conv_rhs => rw [← hcut, List.takeWhile_append, hfeeds, List.append_nil]
  split
  · next hfull => exact ( List.takeWhile_prefix _).eq_of_length hfull
  · rfl

theorem firstLine_join {first : List Char} (rest : List (List Char)) (h : '\n' ∉ first) :
    firstLine (Text.join ['\n'] (first :: rest)) = first := by
  have hall : ∀ c ∈ first, (c != '\n') = true := fun c hc =>
    bne_iff_ne.mpr fun heq => h (heq ▸ hc)
  unfold firstLine
  cases rest with
  | nil => exact List.takeWhile_eq_self_iff.mpr hall
  | cons second rest =>
    rw [Text.join, List.append_assoc, List.takeWhile_append_of_pos hall]
    exact List.append_nil _

/-! ## The title of an entry that was read -/

/-- The fields are on one line each, and the title is stripped. -/
def OnLines (header : List (String × List Char)) : Prop :=
  ∀ key value, header.lookup key = some value →
    '\n' ∉ value ∧ (key = "title" → Text.strip value = value)

theorem mem_of_headerLine {line key value : List Char} (h : headerLine line = some (key, value))
    {c : Char} (hc : c ∈ value) : c ∈ line := by
  unfold headerLine at h
  dsimp only at h
  split at h
  · cases h
    exact List.mem_of_mem_drop (List.mem_of_mem_drop hc)
  · cases h

theorem onLines_of_fieldValue {path key : String} {number : ℕ} {line value kept : List Char}
    (h : fieldValue path number line key value = .ok kept) (hvalue : '\n' ∉ value) :
    '\n' ∉ kept ∧ (key = "title" → Text.strip kept = kept) := by
  unfold fieldValue at h
  split at h
  · split at h
    · cases h
    · cases h
      exact ⟨fun hmem => hvalue (mem_of_mem_strip hmem), fun _ => strip_strip value⟩
  · next htitle =>
    have hkept : value = kept := by
      split at h
      · split at h
        · exact Except.ok.inj h
        · cases h
      · split at h
        · exact Except.ok.inj h
        · cases h
    exact ⟨hkept ▸ hvalue, fun hkey => absurd hkey htitle⟩

/-- **A header is read line by line**: its fields are on one line each, and what follows are
lines. -/
theorem parseHeader_lines {path : String} {i j : ℕ} {header fields : List (String × List Char)}
    {lines bodyLines : List (List Char)}
    (h : parseHeader path i header lines = .ok (fields, j, bodyLines))
    (hlines : ∀ line ∈ lines, '\n' ∉ line) (hheader : OnLines header) :
    OnLines fields ∧ ∀ line ∈ bodyLines, '\n' ∉ line := by
  induction lines generalizing i header with
  | nil => cases h
  | cons line lines ih =>
    have hline := hlines line List.mem_cons_self
    have hrest : ∀ line ∈ lines, '\n' ∉ line := fun l hl => hlines l (List.mem_cons_of_mem _ hl)
    unfold parseHeader at h
    split at h
    · cases h
      exact ⟨hheader, hrest⟩
    · split at h
      · cases h
      · next key value hfield =>
        dsimp only at h
        split at h
        · cases h
        · split at h
          · cases h
          · split at h
            · cases h
            · next kept hkept =>
              refine ih h hrest fun other found hfound => ?_
              rw [List.lookup_append] at hfound
              cases hold : header.lookup other with
              | some old =>
                rw [hold] at hfound
                cases hfound
                exact hheader other _ hold
              | none =>
                rw [hold, Option.none_or, List.lookup_cons] at hfound
                split at hfound
                · next hkey =>
                  cases hfound
                  rw [eq_of_beq hkey]
                  exact onLines_of_fieldValue hkept fun hmem =>
                    hline (mem_of_headerLine hfield hmem)
                · cases hfound

/-- **What an entry is read from**: fields on one line each, and lines behind them. -/
theorem exists_of_parseEntryText {path parent slug : String} {text : List Char} {entry : Entry}
    (h : parseEntryText path parent slug text = .ok entry) :
    ∃ header i first rest title, OnLines header ∧ '\n' ∉ first
      ∧ entryTitle path i header first = .ok title
      ∧ entry.slug = slug
      ∧ entry.topic = (header.lookup "topic").map String.ofList
      ∧ entry.title = String.ofList title.1 ∧ entry.titleInHeader = title.2
      ∧ entry.body = String.ofList (Text.join ['\n'] (first :: rest)) := by
  unfold parseEntryText at h
  split at h
  · next opener lines hsplit =>
    have hlines : ∀ line ∈ lines, '\n' ∉ line := fun line hline =>
      not_mem_of_mem_splitOnChar (hsplit ▸ List.mem_cons_of_mem _ hline)
    split at h
    · cases h
    · split at h
      · cases h
      · next header i bodyLines hheader =>
        obtain ⟨hfields, hbody⟩ := parseHeader_lines hheader hlines fun _ _ hnone => nomatch hnone
        split at h
        · cases h
        · next first rest =>
          split at h
          · cases h
          · cases htitle : entryTitle path i header first with
            | error e =>
              rw [htitle] at h
              cases h
            | ok title =>
              rw [htitle] at h
              cases h
              exact ⟨header, i, first, rest, title, hfields, hbody first List.mem_cons_self, htitle,
                rfl, rfl, rfl, rfl, rfl⟩
  · cases h

/-- **Where the title of an entry comes from**: it is a line of its own in the header, or the
heading over the body. -/
theorem title_of_parseEntryText {path parent slug : String} {text : List Char} {entry : Entry}
    (h : parseEntryText path parent slug text = .ok entry) :
    '\n' ∉ entry.title.toList
      ∧ if entry.titleInHeader then Text.strip entry.title.toList = entry.title.toList
        else Titled entry.body.toList entry.title := by
  obtain ⟨header, i, first, rest, title, hfields, hfirst, htitle, -, -, hname, hplace, hbody⟩ :=
    exists_of_parseEntryText h
  rw [hname, hplace, hbody, String.toList_ofList, String.toList_ofList]
  unfold entryTitle at htitle
  split at htitle
  · next found hfound =>
    cases htitle
    obtain ⟨hline, hstrip⟩ := hfields "title" found hfound
    exact ⟨hline, hstrip rfl⟩
  · split at htitle
    · cases htitle
    · next hopens =>
      split at htitle
      · cases htitle
      · cases htitle
        rw [Bool.not_eq_true, Bool.not_eq_false'] at hopens
        obtain ⟨heading, hheading⟩ := List.isPrefixOf_iff_prefix.mp hopens
        refine ⟨fun hmem => hfirst (List.mem_of_mem_drop (mem_of_mem_strip hmem)),
          heading, ?_, ?_⟩
        · rw [firstLine_join _ hfirst, hheading]
        · rw [String.toList_ofList, ← hheading]
          rfl

theorem topic_of_parseEntryText {path parent slug : String} {text : List Char} {entry : Entry}
    (h : parseEntryText path parent slug text = .ok entry) :
    '\n' ∉ (entry.topic.getD "").toList := by
  obtain ⟨header, i, first, rest, title, hfields, -, -, -, htopic, -⟩ := exists_of_parseEntryText h
  rw [htopic]
  cases hfound : header.lookup "topic" with
  | none => exact List.not_mem_nil
  | some topic =>
    show '\n' ∉ (String.ofList topic).toList
    rw [String.toList_ofList]
    exact (hfields "topic" topic hfound).1

/-- **The text of an entry has its title**, unless that is in the header and another heading is over
the body. -/
theorem titled_fullText {path parent slug : String} {text : List Char} {entry : Entry}
    (h : parseEntryText path parent slug text = .ok entry)
    (hown : entry.titleInHeader = true →
      "# ".toList.isPrefixOf (rstrip entry.body.toList) = true →
      Titled (rstrip entry.body.toList) entry.title) :
    Titled (fullText entry) entry.title := by
  obtain ⟨hline, htitle⟩ := title_of_parseEntryText h
  unfold fullText
  dsimp only
  cases hheader : entry.titleInHeader with
  | true =>
    rw [hheader, if_pos rfl] at htitle
    split
    · next hopens => exact hown hheader hopens
    · refine ⟨entry.title.toList, ?_, htitle⟩
      have hall : ∀ c ∈ "# ".toList ++ entry.title.toList, (c != '\n') = true := by
        intro c hc
        rcases List.mem_append.mp hc with hc | hc
        · rcases List.mem_cons.mp hc with rfl | hc
          · rfl
          · rw [List.mem_singleton.mp hc]
            rfl
        · exact bne_iff_ne.mpr fun heq => hline (heq ▸ hc)
      unfold firstLine
      rw [List.append_assoc, List.takeWhile_append_of_pos hall]
      exact List.append_nil _
  | false =>
    rw [hheader, if_neg Bool.false_ne_true] at htitle
    obtain ⟨heading, hheading, hstrip⟩ := htitle
    have hopens : "# ".toList.isPrefixOf (rstrip entry.body.toList) = true := by
      have hfirst : firstLine (rstrip entry.body.toList) <+: rstrip entry.body.toList :=
        List.takeWhile_prefix _
      rw [firstLine_rstrip, hheading] at hfirst
      exact List.isPrefixOf_iff_prefix.mpr ((List.prefix_append _ _).trans hfirst)
    rw [if_pos hopens]
    exact ⟨heading, (firstLine_rstrip _).trans hheading, hstrip⟩

end MemoryStore
