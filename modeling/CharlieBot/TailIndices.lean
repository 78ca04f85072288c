import CharlieBot.ChatEventRange
import CharlieBot.Ndjson

/-!
# The indices of a tail page

A tail page is the events of the last lines of the live file. Its first event gets the number of
lines, less the number of events of the page, as index: every line is taken to hold an event. A
full load numbers the events it finds.

An event is the event of a line. What the page and the full load say of it is compared by numbering
the lines (`numberedTail`, `numberedFull`); the page's index is right where the events the full
load finds before it and the events of the page from it on are together as many as the lines
(`indices_right_iff`). In a file without stray carriage returns that is so where every line holds
an event, or none of the page's does (`indices_right_iff_of_tidy`).
-/

namespace TailIndices

open Ndjson

/-! ## The page -/

/-- Whether `line.strip()` leaves anything. -/
def isFilled (line : List UInt8) : Bool := !line.all isSpaceByte

/-- The last entries of a list, `lines[-take:]` for a `take` that is not zero. -/
def lastOf {α : Type*} (lines : List α) (take : ℕ) : List α := lines.drop (lines.length - take)

/-- The lines of the window, if there are enough of them: its first line may be cut. -/
def windowLines (window : ℕ+) (bytes : List UInt8) (take : ℕ) : Option (List (List UInt8)) :=
  if (window : ℕ) < bytes.length then
    let splitLines := (bytes.drop (bytes.length - window)).splitOn lineFeed
    let completeLines := splitLines.tail
    let completeLines :=
      if completeLines.getLast? = some [] then completeLines.dropLast else completeLines
    let lines := completeLines.filter isFilled
    if take ≤ lines.length then some (lastOf lines take) else none
  else none

/-- `parse_ndjson_tail`: the events, the number of lines, and whether there are more lines. -/
def parseNdjsonTail (py : Orjson) (window : ℕ+) (bytes : List UInt8) (limit : ℕ) :
    List Json × ℕ × Bool :=
  let total := countLines bytes
  if total = 0 then ([], 0, false)
  else
    let hasMore := decide (limit < total)
    let take := min limit total
    if take = 0 then ([], total, hasMore)
    else
      let tailLines :=
        match windowLines window bytes take with
        | some lines => lines
        | none => lastOf ((bytes.splitOn lineFeed).filter isFilled) take
      (eventsOf py tailLines, total, hasMore)

/-- `_tail_events_page`: the events, and the index of the first. -/
def tailEventsPage (py : Orjson) (window : ℕ+) (bytes : List UInt8) (archiveOffset limit : ℕ) :
    List Json × ℕ :=
  let (tailEvents, totalCount, _) := parseNdjsonTail py window bytes limit
  (tailEvents, archiveOffset + totalCount - tailEvents.length)

/-! ## Events by their lines -/

/-- The events of the page, each with the number of its line. -/
def numberedTail (py : Orjson) (bytes : List UInt8) (limit : ℕ) : List (Json × ℕ) :=
  (lastOf (((bytes.splitOn lineFeed).zipIdx).filter fun p => isFilled p.1)
      (min limit (countLines bytes))).filterMap
    fun p => (parseBytesLine py p.1).map fun event => (event, p.2)

/-- The events a line of text holds for the plain reader, which cuts it at its carriage
returns. -/
def pieceEvents (py : Orjson) (line : List Char) : List Json :=
  (line.splitOn '\r').filterMap (parseTextLine py)

/-- The events of a full load, each with the number of its line; nothing where the load raises. -/
def numberedFull (py : Orjson) (bytes : List UInt8) : Option (List (Json × ℕ)) :=
  (Utf8.decode bytes).map fun text =>
    ((text.splitOn '\n').zipIdx).flatMap fun p => (pieceEvents py p.1).map fun event => (event, p.2)

/-- **The indices of a page are right**: at the index the page gives an event, counted with the
archived ones, a full load has it. -/
def IndicesRight (py : Orjson) (window : ℕ+) (bytes : List UInt8) (archiveOffset limit : ℕ) :
    Prop :=
  ∀ (i : ℕ) (event : Json) (line : ℕ), (numberedTail py bytes limit)[i]? = some (event, line) →
    ∃ full, numberedFull py bytes = some full
      ∧ ∃ j, full[j]? = some (event, line)
        ∧ (tailEventsPage py window bytes archiveOffset limit).2 + i = archiveOffset + j

def pageLines (bytes : List UInt8) (limit : ℕ) : List (List UInt8) :=
  lastOf ((bytes.splitOn lineFeed).filter isFilled) (min limit (countLines bytes))

/-! ## Places in a list -/

/-- **Where an entry comes from**: an entry of a list of entries of items is one of some item, and
behind those of the items before. -/
theorem getElem?_flatMap {α β : Type*} {f : α → List β} {l : List α} {i : ℕ} {b : β} :
    (l.flatMap f)[i]? = some b
      ↔ ∃ before a after d, l = before ++ a :: after ∧ (f a)[d]? = some b
        ∧ i = (before.flatMap f).length + d := by
  induction l generalizing i with
  | nil => simp
  | cons a l ih =>
    rw [List.flatMap_cons]
    constructor
    · intro h
      by_cases hlt : i < (f a).length
      · rw [List.getElem?_append_left hlt] at h
        exact ⟨[], a, l, i, rfl, h, (Nat.zero_add i).symm⟩
      · rw [List.getElem?_append_right (Nat.not_lt.mp hlt)] at h
        obtain ⟨before, x, after, d, rfl, hd, hi⟩ := ih.mp h
        refine ⟨a :: before, x, after, d, rfl, hd, ?_⟩
        rw [List.flatMap_cons, List.length_append]
        omega
    · rintro ⟨before, x, after, d, hl, hd, rfl⟩
      cases before with
      | nil =>
        cases hl
        have hlt : d < (f a).length := (List.getElem?_eq_some_iff.mp hd).1
        rw [List.flatMap_nil, List.length_nil, Nat.zero_add, List.getElem?_append_left hlt, hd]
      | cons y before =>
        cases hl
        rw [List.flatMap_cons, List.length_append, Nat.add_assoc,
          List.getElem?_append_right (Nat.le_add_right _ _), Nat.add_sub_cancel_left]
        exact ih.mpr ⟨before, x, after, d, rfl, hd, rfl⟩

theorem flatMap_toList {α β : Type*} (f : α → Option β) (l : List α) :
    l.flatMap (fun a => (f a).toList) = l.filterMap f := by
  induction l with
  | nil => rfl
  | cons a l ih =>
    rw [List.flatMap_cons, List.filterMap_cons, ih]
    cases f a <;> rfl

theorem zipIdx_eq_append_cons {α : Type*} {l : List α} {k : ℕ} {before after : List (α × ℕ)}
    {a : α} {n : ℕ} (h : l.zipIdx k = before ++ (a, n) :: after) :
    l = before.map Prod.fst ++ a :: after.map Prod.fst ∧ n = k + before.length := by
  have hfst := congrArg (List.map Prod.fst) h
  rw [List.zipIdx_map_fst, List.map_append, List.map_cons] at hfst
  refine ⟨hfst, ?_⟩
  have hget := congrArg (fun l => l[before.length]?) h
  simp only [List.getElem?_append_right (Nat.le_refl _), Nat.sub_self, List.getElem?_cons_zero,
    List.getElem?_zipIdx] at hget
  obtain ⟨x, -, hx⟩ := Option.map_eq_some_iff.mp hget
  exact (Prod.mk.inj hx).2.symm

theorem exists_drop_filter {α : Type*} (p : α → Bool) (l : List α) (k : ℕ) :
    ∃ s, (l.filter p).drop k = (l.drop s).filter p := by
  induction l generalizing k with
  | nil => exact ⟨0, List.drop_nil⟩
  | cons a l ih =>
    by_cases hp : p a = true
    · cases k with
      | zero => exact ⟨0, rfl⟩
      | succ k =>
        obtain ⟨s, hs⟩ := ih k
        exact ⟨s + 1, by rw [List.filter_cons_of_pos hp]; exact hs⟩
    · obtain ⟨s, hs⟩ := ih k
      exact ⟨s + 1, by rw [List.filter_cons_of_neg hp]; exact hs⟩

/-! ## The page is the last lines -/

theorem lastOf_append {α : Type*} (l l' : List α) {take : ℕ} (h : take ≤ l'.length) :
    lastOf (l ++ l') take = lastOf l' take := by
  unfold lastOf
  rw [List.length_append, List.drop_append, List.drop_eq_nil_of_le (by omega), List.nil_append]
  congr 1
  omega

theorem map_lastOf {α β : Type*} (f : α → β) (l : List α) (take : ℕ) :
    (lastOf l take).map f = lastOf (l.map f) take := by
  unfold lastOf
  rw [List.map_drop, List.length_map]

/-- **The lines of a window are those of the file**, if there are enough of them. -/
theorem eq_of_windowLines {window : ℕ+} {bytes : List UInt8} {take : ℕ}
    {lines : List (List UInt8)} (h : windowLines window bytes take = some lines) :
    lines = lastOf ((bytes.splitOn lineFeed).filter isFilled) take := by
  unfold windowLines at h
  split at h
  · dsimp only at h
    generalize hsplit : bytes.drop (bytes.length - (window : ℕ)) = behind at h
    have hfile : bytes = bytes.take (bytes.length - window) ++ behind := by
      rw [← hsplit, List.take_append_drop]
    -- an empty piece at the end is no line
    have hfilled : (if (behind.splitOn lineFeed).tail.getLast? = some [] then
          (behind.splitOn lineFeed).tail.dropLast
        else (behind.splitOn lineFeed).tail).filter isFilled
          = (behind.splitOn lineFeed).tail.filter isFilled := by
      generalize (behind.splitOn lineFeed).tail = complete
      split
      · next hlast =>
        have hjoin := List.dropLast_append_getLast? [] hlast
        conv_rhs => rw [← hjoin, List.filter_append]
        exact (List.append_nil _).symm
      · rfl
    rw [hfilled] at h
    split at h
    · next hle =>
      cases h
      rw [hfile, List.splitOn_append_head, List.filter_append, lastOf_append _ _ hle]
    · cases h
  · cases h

/-- **The events of the page**, and how many lines the file has. -/
theorem parseNdjsonTail_eq (py : Orjson) (window : ℕ+) (bytes : List UInt8) (limit : ℕ) :
    (parseNdjsonTail py window bytes limit).1 = eventsOf py (pageLines bytes limit)
      ∧ (parseNdjsonTail py window bytes limit).2.1 = countLines bytes := by
  have hnone : ∀ l : List (List UInt8), lastOf l 0 = [] := fun l => by
    unfold lastOf
    rw [Nat.sub_zero, List.drop_length]
  unfold parseNdjsonTail pageLines
  dsimp only
  split
  · next hzero =>
    rw [hzero, Nat.min_zero, hnone]
    exact ⟨rfl, rfl⟩
  · split
    · next htake =>
      rw [htake, hnone]
      exact ⟨rfl, rfl⟩
    · cases hwindow : windowLines window bytes (min limit (countLines bytes)) with
      | none => exact ⟨rfl, rfl⟩
      | some lines => exact ⟨by rw [eq_of_windowLines hwindow], rfl⟩

theorem map_numberedTail (py : Orjson) (window : ℕ+) (bytes : List UInt8) (limit : ℕ) :
    (numberedTail py bytes limit).map Prod.fst = (parseNdjsonTail py window bytes limit).1 := by
  have hfilter : (((bytes.splitOn lineFeed).zipIdx).filter fun p => isFilled p.1).map Prod.fst
      = (bytes.splitOn lineFeed).filter isFilled := by
    rw [← List.zipIdx_map_fst 0 (bytes.splitOn lineFeed), List.filter_map, List.zipIdx_map_fst]
    rfl
  rw [(parseNdjsonTail_eq py window bytes limit).1]
  unfold pageLines numberedTail eventsOf
  rw [← hfilter, ← map_lastOf]
  rw [List.map_filterMap, List.filterMap_map]
  congr 1
  funext p
  cases h : parseBytesLine py p.1 <;> simp [h]

/-! ## Events and lines -/

def numberedEvent (py : Orjson) (p : List UInt8 × ℕ) : Option (Json × ℕ) :=
  (parseBytesLine py p.1).map fun event => (event, p.2)

theorem length_filterMap_numberedEvent (py : Orjson) (lines : List (List UInt8 × ℕ)) :
    (lines.filterMap (numberedEvent py)).length = (eventsOf py (lines.map Prod.fst)).length := by
  unfold eventsOf
  rw [List.filterMap_map, List.length_filterMap_eq_countP, List.length_filterMap_eq_countP]
  congr 1
  funext p
  exact Option.isSome_map

theorem isFilled_of_parseBytesLine {py : Orjson} {line : List UInt8}
    (h : (parseBytesLine py line).isSome) : isFilled line = true := by
  unfold isFilled
  rw [Bool.not_eq_true', Bool.eq_false_iff]
  intro hblank
  unfold parseBytesLine at h
  rw [if_pos hblank] at h
  cases h

/-- **The numbered page** is made of the lines from some line on. -/
theorem exists_numberedTail_eq (py : Orjson) (bytes : List UInt8) (limit : ℕ) :
    ∃ s, numberedTail py bytes limit
      = (((bytes.splitOn lineFeed).zipIdx).drop s).filterMap (numberedEvent py) := by
  obtain ⟨s, hs⟩ := exists_drop_filter (fun p : List UInt8 × ℕ => isFilled p.1)
    ((bytes.splitOn lineFeed).zipIdx) _
  refine ⟨s, ?_⟩
  unfold numberedTail lastOf
  rw [hs, List.filterMap_filter]
  congr 1
  funext p
  unfold numberedEvent
  cases hp : parseBytesLine py p.1 with
  | none => simp
  | some event =>
    have hsome : (parseBytesLine py p.1).isSome := by rw [hp]; rfl
    have hfilled : isFilled p.1 = true := isFilled_of_parseBytesLine hsome
    rw [if_pos hfilled]

/-- **An entry of the numbered page** is the event of its line, and behind it are the events of the
lines behind. -/
theorem of_numberedTail {py : Orjson} {bytes : List UInt8} {limit i line : ℕ} {event : Json}
    (h : (numberedTail py bytes limit)[i]? = some (event, line)) :
    (∃ l rest, (bytes.splitOn lineFeed).drop line = l :: rest
        ∧ parseBytesLine py l = some event)
      ∧ i + (eventsOf py ((bytes.splitOn lineFeed).drop line)).length
        = (numberedTail py bytes limit).length := by
  obtain ⟨s, hs⟩ := exists_numberedTail_eq py bytes limit
  rw [hs] at h ⊢
  rw [← flatMap_toList] at h
  obtain ⟨before, p, after, d, hsplit, hentry, hi⟩ := getElem?_flatMap.mp h
  rw [flatMap_toList] at hi
  -- a line holds one event
  have hd : d = 0 ∧ numberedEvent py p = some (event, line) := by
    cases hp : numberedEvent py p with
    | none =>
      rw [hp] at hentry
      cases hentry
    | some q =>
      rw [hp] at hentry
      cases d with
      | zero => exact ⟨rfl, by simpa using hentry⟩
      | succ d => simp at hentry
  obtain ⟨rfl, hp⟩ := hd
  obtain ⟨event', hparse, hevent⟩ := Option.map_eq_some_iff.mp hp
  obtain ⟨l, line⟩ := p
  cases hevent
  -- the number of the line tells where the lines are cut
  have hlines : (bytes.splitOn lineFeed).zipIdx
      = (((bytes.splitOn lineFeed).zipIdx).take s ++ before) ++ (l, line) :: after := by
    rw [List.append_assoc, ← hsplit, List.take_append_drop]
  obtain ⟨hcut, hline⟩ := zipIdx_eq_append_cons hlines
  rw [Nat.zero_add] at hline
  have hdrop : (bytes.splitOn lineFeed).drop line = l :: after.map Prod.fst := by
    rw [hcut, List.drop_left' (by rw [List.length_map, hline])]
  refine ⟨⟨l, after.map Prod.fst, hdrop, hparse⟩, ?_⟩
  rw [hsplit, List.filterMap_append, List.length_append, hi, Nat.add_zero, hdrop,
    length_filterMap_numberedEvent py ((l, line) :: after)]
  rfl

/-- **An entry of a full load** is an event of a piece of its line, and is numbered behind the
events of the lines before. -/
theorem getElem?_numberedFull (py : Orjson) (text : List Char) {j line : ℕ} {event : Json} :
    (((text.splitOn '\n').zipIdx).flatMap fun p =>
        (pieceEvents py p.1).map fun event => (event, p.2))[j]? = some (event, line)
      ↔ ∃ before t after d, text.splitOn '\n' = before ++ t :: after ∧ before.length = line
        ∧ (pieceEvents py t)[d]? = some event
        ∧ j = (before.flatMap (pieceEvents py)).length + d := by
  have hlength : ∀ lines : List (List Char × ℕ), (lines.flatMap fun p =>
        (pieceEvents py p.1).map fun event => (event, p.2)).length
      = ((lines.map Prod.fst).flatMap (pieceEvents py)).length := by
    intro lines
    rw [List.length_flatMap, List.length_flatMap, List.map_map]
    congr 2
    funext p
    exact List.length_map _
  rw [getElem?_flatMap]
  constructor
  · rintro ⟨before, ⟨t, n⟩, after, d, hsplit, hentry, hj⟩
    rw [List.getElem?_map] at hentry
    obtain ⟨event', hevent, heq⟩ := Option.map_eq_some_iff.mp hentry
    cases heq
    obtain ⟨hcut, hline⟩ := zipIdx_eq_append_cons hsplit
    refine ⟨before.map Prod.fst, t, after.map Prod.fst, d, hcut, ?_, hevent, ?_⟩
    · rw [List.length_map, hline, Nat.zero_add]
    · rw [hj, hlength]
  · rintro ⟨before, t, after, d, hsplit, rfl, hevent, rfl⟩
    refine ⟨before.zipIdx, (t, before.length), after.zipIdx (before.length + 1), d, ?_, ?_, ?_⟩
    · rw [hsplit, List.zipIdx_append, List.zipIdx_cons, Nat.zero_add]
    · rw [List.getElem?_map, hevent]
      rfl
    · rw [hlength, List.zipIdx_map_fst]

/-- The lines of a file: behind the end of the last there is none. -/
def fileLines (bytes : List UInt8) : List (List UInt8) :=
  if (bytes.splitOn lineFeed).getLast? = some [] then (bytes.splitOn lineFeed).dropLast
  else bytes.splitOn lineFeed

theorem length_fileLines (bytes : List UInt8) : (fileLines bytes).length = countLines bytes := by
  unfold fileLines countLines
  cases hlast : bytes.getLast? with
  | none =>
    rw [List.getLast?_eq_none_iff.mp hlast]
    rfl
  | some b =>
    dsimp only
    by_cases hb : b = lineFeed
    · -- behind a line feed at the end the last piece is empty
      have hbytes := List.dropLast_append_getLast? b hlast
      subst hb
      have hpieces : bytes.splitOn lineFeed = bytes.dropLast.splitOn lineFeed ++ [[]] := by
        conv_lhs => rw [← hbytes, List.splitOn_append_cons_self]
        rfl
      have hcount := List.length_splitOn lineFeed bytes
      rw [hpieces, List.length_append] at hcount
      rw [hpieces, if_pos List.getLast?_concat, List.dropLast_concat, if_pos rfl]
      simpa using hcount
    · rw [if_neg (List.getLast?_splitOn_ne hlast hb), if_neg hb, List.length_splitOn]

theorem eventsOf_fileLines (py : Orjson) (bytes : List UInt8) :
    eventsOf py (fileLines bytes) = lineFeedEvents py bytes := by
  unfold fileLines lineFeedEvents
  split
  · next hlast =>
    have hjoin := List.dropLast_append_getLast? [] hlast
    conv_rhs => rw [← hjoin, eventsOf_append]
    exact (List.append_nil _).symm
  · rfl

theorem length_lineFeedEvents_le (py : Orjson) (bytes : List UInt8) :
    (lineFeedEvents py bytes).length ≤ countLines bytes := by
  rw [← eventsOf_fileLines, ← length_fileLines]
  exact List.length_filterMap_le _ _

theorem length_lineFeedEvents_eq_iff (py : Orjson) (bytes : List UInt8) :
    (lineFeedEvents py bytes).length = countLines bytes
      ↔ ∀ line ∈ fileLines bytes, (parseBytesLine py line).isSome := by
  rw [← eventsOf_fileLines, ← length_fileLines]
  exact List.filterMap_length_eq_length

theorem length_numberedTail_le (py : Orjson) (bytes : List UInt8) (limit : ℕ) :
    (numberedTail py bytes limit).length ≤ countLines bytes := by
  obtain ⟨s, hs⟩ := exists_numberedTail_eq py bytes limit
  refine le_trans ?_ (length_lineFeedEvents_le py bytes)
  rw [hs, length_filterMap_numberedEvent, List.map_drop, List.zipIdx_map_fst]
  unfold lineFeedEvents
  conv_rhs => rw [← List.take_append_drop s (bytes.splitOn lineFeed), eventsOf_append,
    List.length_append]
  exact Nat.le_add_left _ _

/-! ## When the indices are right -/

/-- **Exactly when the indices of a page are right**: for every event of it, the events a full load
finds before it and those of the lines from its own on are as many as the lines. -/
theorem indices_right_iff (py : Orjson) (window : ℕ+) (bytes : List UInt8)
    (archiveOffset limit : ℕ) :
    IndicesRight py window bytes archiveOffset limit
      ↔ ∀ event line, (event, line) ∈ numberedTail py bytes limit →
        ∃ text before t after d, Utf8.decode bytes = some text
          ∧ text.splitOn '\n' = before ++ t :: after ∧ before.length = line
          ∧ (pieceEvents py t)[d]? = some event
          ∧ (before.flatMap (pieceEvents py)).length + d
              + (eventsOf py ((bytes.splitOn lineFeed).drop line)).length
            = countLines bytes := by
  have hpage : (parseNdjsonTail py window bytes limit).1.length
      = (numberedTail py bytes limit).length := by
    rw [← map_numberedTail py window bytes limit, List.length_map]
  have hoffset : (tailEventsPage py window bytes archiveOffset limit).2
      = archiveOffset + countLines bytes - (numberedTail py bytes limit).length := by
    rw [← hpage, ← (parseNdjsonTail_eq py window bytes limit).2]
    rfl
  have hle := length_numberedTail_le py bytes limit
  unfold IndicesRight
  rw [hoffset]
  constructor
  · intro h event line hmem
    obtain ⟨i, hi⟩ := List.mem_iff_getElem?.mp hmem
    obtain ⟨full, hfull, j, hj, hindex⟩ := h i event line hi
    obtain ⟨text, htext, rfl⟩ := Option.map_eq_some_iff.mp hfull
    obtain ⟨before, t, after, d, hsplit, hline, hevent, rfl⟩ :=
      (getElem?_numberedFull py text).mp hj
    have hbehind := (of_numberedTail hi).2
    exact ⟨text, before, t, after, d, htext, hsplit, hline, hevent, by omega⟩
  · intro h i event line hi
    obtain ⟨text, before, t, after, d, htext, hsplit, hline, hevent, hcount⟩ :=
      h event line (List.mem_of_getElem? hi)
    have hbehind := (of_numberedTail hi).2
    refine ⟨_, by unfold numberedFull; rw [htext]; rfl, _,
      (getElem?_numberedFull py text).mpr ⟨before, t, after, d, hsplit, hline, hevent, rfl⟩, ?_⟩
    omega

theorem flatMap_pieceEvents (py : Orjson) {lines : List (List Char)}
    (h : ∀ line ∈ lines, '\r' ∉ line.dropLast) :
    lines.flatMap (pieceEvents py) = lines.filterMap (parseTextLine py) := by
  rw [← flatMap_toList]
  exact List.flatMap_congr fun line hline => filterMap_splitOn_cr py (h line hline)

theorem mapM_drop {α β : Type*} {f : α → Option β} {l : List α} {l' : List β}
    (h : l.mapM f = some l') (n : ℕ) : (l.drop n).mapM f = some (l'.drop n) := by
  induction l generalizing l' n with
  | nil =>
    cases h
    simp
  | cons a l ih =>
    cases n with
    | zero => exact h
    | succ n =>
      rw [List.mapM_cons] at h
      obtain ⟨b, -, h⟩ := Option.bind_eq_some_iff.mp h
      obtain ⟨bs, hbs, h⟩ := Option.bind_eq_some_iff.mp h
      cases h
      exact ih hbs n

/-- **In a text without stray carriage returns** the indices are right where no line of the page
holds an event, and where every line of the file does. -/
theorem indices_right_iff_of_tidy {py : Orjson} {bytes : List UInt8} {text : List Char}
    (htext : Utf8.decode bytes = some text) (htidy : Tidy text) (window : ℕ+)
    (archiveOffset limit : ℕ) :
    IndicesRight py window bytes archiveOffset limit
      ↔ (∀ line ∈ pageLines bytes limit, parseBytesLine py line = none)
        ∨ ∀ line ∈ fileLines bytes, (parseBytesLine py line).isSome := by
  have hpage : (∀ line ∈ pageLines bytes limit, parseBytesLine py line = none)
      ↔ numberedTail py bytes limit = [] := by
    rw [← List.filterMap_eq_nil_iff, ← List.map_eq_nil_iff (f := Prod.fst),
      map_numberedTail py window, (parseNdjsonTail_eq py window bytes limit).1]
    rfl
  have hlines : (bytes.splitOn lineFeed).mapM Utf8.decode = some (text.splitOn '\n') := by
    rw [Utf8.mapM_decode_splitOn (by decide), htext]
    rfl
  -- the events of a full load before a line, and those of the lines from it on
  have hsum : ∀ before t after, text.splitOn '\n' = before ++ t :: after →
      (before.flatMap (pieceEvents py)).length
          + (eventsOf py ((bytes.splitOn lineFeed).drop before.length)).length
        = (lineFeedEvents py bytes).length := by
    intro before t after hsplit
    have hbehind := eventsOf_of_mapM py (mapM_drop hlines before.length)
    rw [hsplit, List.drop_left' rfl] at hbehind
    rw [hbehind, lineFeedEvents_of_decode py htext, hsplit, List.filterMap_append,
      List.length_append, flatMap_pieceEvents py fun line hline =>
        htidy line (by rw [hsplit]; exact List.mem_append_left _ hline)]
  have hpieces : ∀ t ∈ text.splitOn '\n', pieceEvents py t = (parseTextLine py t).toList :=
    fun t ht => filterMap_splitOn_cr py (htidy t ht)
  rw [indices_right_iff, ← length_lineFeedEvents_eq_iff, hpage]
  constructor
  · intro h
    rw [or_iff_not_imp_left]
    intro hne
    obtain ⟨⟨event, line⟩, hmem⟩ := List.exists_mem_of_ne_nil _ hne
    obtain ⟨text', before, t, after, d, htext', hsplit, rfl, hevent, hcount⟩ := h event line hmem
    obtain rfl := Option.some.inj (htext.symm.trans htext')
    have hd : d = 0 := by
      rw [hpieces t (by rw [hsplit]; simp)] at hevent
      have hlt := (List.getElem?_eq_some_iff.mp hevent).1
      have := Option.length_toList_le (o := parseTextLine py t)
      omega
    rw [hd, Nat.add_zero, hsum before t after hsplit] at hcount
    exact hcount
  · rintro (hnil | hfull) event line hmem
    · rw [hnil] at hmem
      cases hmem
    · obtain ⟨i, hi⟩ := List.mem_iff_getElem?.mp hmem
      obtain ⟨⟨l, rest, hdrop, hparse⟩, -⟩ := of_numberedTail hi
      have hcut := mapM_drop hlines line
      rw [hdrop, List.mapM_cons] at hcut
      obtain ⟨t, ht, hcut⟩ := Option.bind_eq_some_iff.mp hcut
      obtain ⟨after, -, hcut⟩ := Option.bind_eq_some_iff.mp hcut
      have hcut : t :: after = (text.splitOn '\n').drop line := Option.some.inj hcut
      have hsplit : text.splitOn '\n' = (text.splitOn '\n').take line ++ t :: after := by
        rw [hcut, List.take_append_drop]
      have hlength : ((text.splitOn '\n').take line).length = line := by
        have hlt := congrArg List.length hcut
        rw [List.length_cons, List.length_drop] at hlt
        rw [List.length_take]
        omega
      have hsum := hsum _ t after hsplit
      rw [hlength, hfull] at hsum
      refine ⟨text, _, t, after, 0, htext, hsplit, hlength, ?_, hsum⟩
      rw [hpieces t (by rw [hsplit]; simp), ← parseBytesLine_eq py ht, hparse]
      rfl

theorem map_numberedFull (py : Orjson) (bytes : List UInt8) :
    (numberedFull py bytes).map (·.map Prod.fst) = parseNdjsonFile py (some bytes) := by
  rw [parseNdjsonFile_some]
  unfold numberedFull
  rw [Option.map_map]
  congr 1
  funext text
  have hzip : (text.splitOn '\n').flatMap (pieceEvents py)
      = ((text.splitOn '\n').zipIdx).flatMap fun p => pieceEvents py p.1 := by
    conv_lhs => rw [← List.zipIdx_map_fst 0 (text.splitOn '\n'), List.flatMap_map]
  rw [List.filterMap_flatMap]
  show (List.flatMap _ _).map _ = (text.splitOn '\n').flatMap (pieceEvents py)
  rw [hzip, List.map_flatMap]
  congr 1
  funext p
  rw [List.map_map]
  exact List.map_id _

/-- **The indices of a tail page**, of every file and for every limit. The page is made of the
events of its lines and the full load of the events of its own; the indices are right exactly
where what the load finds before an event and the lines from the event's on hold as many
events as there are lines; and without stray carriage returns that is where no line of the
page holds an event or every line of the file does. -/
theorem tail_indices_right_iff (py : Orjson) (window : ℕ+) (bytes : List UInt8)
    (archiveOffset limit : ℕ) :
    (numberedTail py bytes limit).map Prod.fst
        = (tailEventsPage py window bytes archiveOffset limit).1
      ∧ (numberedFull py bytes).map (·.map Prod.fst) = parseNdjsonFile py (some bytes)
      ∧ (IndicesRight py window bytes archiveOffset limit
        ↔ ∀ event line, (event, line) ∈ numberedTail py bytes limit →
          ∃ text before t after d, Utf8.decode bytes = some text
            ∧ text.splitOn '\n' = before ++ t :: after ∧ before.length = line
            ∧ (pieceEvents py t)[d]? = some event
            ∧ (before.flatMap (pieceEvents py)).length + d
                + (eventsOf py ((bytes.splitOn lineFeed).drop line)).length
              = countLines bytes)
      ∧ ∀ text, Utf8.decode bytes = some text → Tidy text →
        (IndicesRight py window bytes archiveOffset limit
          ↔ (∀ line ∈ pageLines bytes limit, parseBytesLine py line = none)
            ∨ ∀ line ∈ fileLines bytes, (parseBytesLine py line).isSome) :=
  ⟨map_numberedTail py window bytes limit, map_numberedFull py bytes,
    indices_right_iff py window bytes archiveOffset limit, fun _ htext htidy =>
      indices_right_iff_of_tidy htext htidy window archiveOffset limit⟩

/-- **A line that was torn shifts the page**: behind it the page says index 2 where the full load
says 1. -/
theorem indices_wrong_behind_torn_line :
    ¬ IndicesRight one 524288 [0x31, 10, 0x7B, 10, 0x31, 10] 0 1
      ∧ (tailEventsPage one 524288 [0x31, 10, 0x7B, 10, 0x31, 10] 0 1).2 = 2
      ∧ numberedFull one [0x31, 10, 0x7B, 10, 0x31, 10] = some [(.int 1, 0), (.int 1, 2)] := by
  have hoffset : (tailEventsPage one 524288 [0x31, 10, 0x7B, 10, 0x31, 10] 0 1).2 = 2 := rfl
  have hfull : numberedFull one [0x31, 10, 0x7B, 10, 0x31, 10]
      = some [(.int 1, 0), (.int 1, 2)] := rfl
  refine ⟨fun h => ?_, hoffset, hfull⟩
  obtain ⟨full, hload, j, hj, hindex⟩ := h 0 (.int 1) 2 rfl
  rw [hfull] at hload
  cases hload
  rw [hoffset] at hindex
  obtain rfl : j = 2 := by omega
  cases hj

end TailIndices
