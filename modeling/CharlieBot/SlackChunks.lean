import CharlieBot.Lib.Spans
import CharlieBot.Lib.TextSearch
import Mathlib.Data.PNat.Defs

/-!
# Cutting a reply into posts

A reply that is longer than a post may be is cut into chunks: into paragraphs, each with the blank
lines behind it, a paragraph that is too long into lines, and a line that is too long wherever the
limit falls. What comes out of this is packed again, as much into a chunk as fits, and a chunk of
white space alone is not posted.

Each of these steps leaves the text as it is (`flatten_unitsOf`, `flatten_piecesOf`,
`flatten_pack`), and no piece is longer than a post, so that a chunk is only ended when it holds
something. **Put back among the chunks, what was not posted makes up the text again, and it is
white space** (`chunkText_parts`).
-/

namespace SlackChunks

def maxPostChars : ℕ+ := 40000

/-- `re.split(r"(\n{2,})", text)`, with the paragraph that is being read: paragraphs and what
separates them by turns. -/
def splitBlank (paragraph : List Char) : List Char → List (List Char)
  | [] => [paragraph]
  | c :: rest =>
    if c = '\n' ∧ rest.head? = some '\n' then
      paragraph :: (c :: rest.takeWhile (· == '\n')) :: splitBlank [] (rest.dropWhile (· == '\n'))
    else splitBlank (paragraph ++ [c]) rest
termination_by text => text.length
decreasing_by
  · exact Nat.lt_succ_of_le (List.dropWhile_sublist _).length_le
  · exact Nat.lt_succ_self _

/-- A paragraph and the separator behind it, taken together. -/
def unitsOf : List (List Char) → List (List Char)
  | paragraph :: separator :: rest => (paragraph ++ separator) :: unitsOf rest
  | [paragraph] => [paragraph]
  | [] => []

/-- `re.split(r"(?<=\n)", unit)`: each line with its end, and what is behind the last end. -/
def splitAfterNewline (unit : List Char) : List (List Char) :=
  (Spans.cut (· == '\n') unit).1 ++ [(Spans.cut (· == '\n') unit).2]

def piecesOf (limit : ℕ+) (unit : List Char) : List (List Char) :=
  if unit.length ≤ limit then [unit]
  else (splitAfterNewline unit).flatMap fun line =>
    if line.length ≤ (limit : ℕ) then [line] else Text.chunks limit line

/-- The greedy packing, with the chunk that is being filled. -/
def pack (limit : ℕ+) (current : List Char) : List (List Char) → List (List Char)
  | [] => if current.isEmpty then [] else [current]
  | piece :: pieces =>
    if !piece.isEmpty && (limit : ℕ) < current.length + piece.length then
      current :: pack limit piece pieces
    else pack limit (current ++ piece) pieces

/-- Whether a chunk is white space alone. -/
def isBlank (chunk : List Char) : Bool := (Text.strip chunk).isEmpty

/-- **`_chunk_text`**. -/
def chunkText (text : List Char) (limit : ℕ+ := maxPostChars) : List (List Char) :=
  if text.length ≤ limit then [text]
  else
    let pieces := (unitsOf (splitBlank [] text)).flatMap (piecesOf limit)
    let chunks := pack limit [] pieces
    let posted := chunks.filter fun chunk => !isBlank chunk
    if posted.isEmpty then chunks else posted

/-! ## No step loses or moves a character -/

theorem flatten_splitBlank (paragraph text : List Char) :
    (splitBlank paragraph text).flatten = paragraph ++ text := by
  fun_induction splitBlank paragraph text with
  | case1 paragraph => rw [List.flatten_singleton, List.append_nil]
  | case2 paragraph c rest hblank ih =>
    rw [List.flatten_cons, List.flatten_cons, ih, List.nil_append, List.cons_append,
      List.takeWhile_append_dropWhile]
  | case3 paragraph c rest hblank ih => rw [ih, List.append_assoc, List.singleton_append]

theorem flatten_unitsOf (split : List (List Char)) : (unitsOf split).flatten = split.flatten := by
  fun_induction unitsOf split with
  | case1 paragraph separator rest ih =>
    rw [List.flatten_cons, List.flatten_cons, List.flatten_cons, ih, List.append_assoc]
  | case2 paragraph => rfl
  | case3 => rfl

theorem flatten_splitAfterNewline (unit : List Char) :
    (splitAfterNewline unit).flatten = unit := by
  unfold splitAfterNewline
  rw [List.flatten_append, List.flatten_singleton, Spans.flatten_cut]

theorem flatten_flatMap_of {α : Type*} {f : List α → List (List α)}
    (hf : ∀ l, (f l).flatten = l) (ls : List (List α)) :
    (ls.flatMap f).flatten = ls.flatten := by
  induction ls with
  | nil => rfl
  | cons l ls ih => rw [List.flatMap_cons, List.flatten_append, hf, ih, List.flatten_cons]

theorem flatten_piecesOf (limit : ℕ+) (unit : List Char) :
    (piecesOf limit unit).flatten = unit := by
  unfold piecesOf
  split
  · exact List.flatten_singleton
  · rw [flatten_flatMap_of (fun line => ?_), flatten_splitAfterNewline]
    split
    · exact List.flatten_singleton
    · exact Text.flatten_chunks limit.pos line

theorem flatten_pack (limit : ℕ+) (current : List Char) (pieces : List (List Char)) :
    (pack limit current pieces).flatten = current ++ pieces.flatten := by
  induction pieces generalizing current with
  | nil =>
    unfold pack
    cases current with
    | nil => rfl
    | cons c current => rfl
  | cons piece pieces ih =>
    unfold pack
    split
    · rw [List.flatten_cons, ih, List.flatten_cons]
    · rw [ih, List.flatten_cons, List.append_assoc]

/-! ## No chunk is too long -/

theorem length_le_of_mem_piecesOf {limit : ℕ+} {unit piece : List Char}
    (h : piece ∈ piecesOf limit unit) : piece.length ≤ limit := by
  unfold piecesOf at h
  split at h
  · next hshort => exact (List.mem_singleton.mp h) ▸ hshort
  · obtain ⟨line, -, h⟩ := List.mem_flatMap.mp h
    split at h
    · next hshort => exact (List.mem_singleton.mp h) ▸ hshort
    · exact Text.length_le_of_mem_chunks h

theorem length_le_of_mem_pack {limit : ℕ+} {current chunk : List Char}
    {pieces : List (List Char)} (hcurrent : current.length ≤ limit)
    (hpieces : ∀ piece ∈ pieces, piece.length ≤ limit) (h : chunk ∈ pack limit current pieces) :
    chunk.length ≤ limit := by
  induction pieces generalizing current with
  | nil =>
    unfold pack at h
    split at h
    · exact absurd h List.not_mem_nil
    · exact (List.mem_singleton.mp h) ▸ hcurrent
  | cons piece pieces ih =>
    obtain ⟨hpiece, hpieces⟩ := List.forall_mem_cons.mp hpieces
    unfold pack at h
    split at h
    · rcases List.mem_cons.mp h with rfl | h
      · exact hcurrent
      · exact ih hpiece hpieces h
    · next hfits =>
      refine ih ?_ hpieces h
      rw [List.length_append]
      by_contra hlong
      refine hfits ?_
      rw [Bool.and_eq_true]
      refine ⟨?_, decide_eq_true (Nat.not_le.mp hlong)⟩
      cases piece with
      | nil => exact absurd hcurrent hlong
      | cons c piece => rfl

theorem flatten_packed (limit : ℕ+) (text : List Char) :
    (pack limit [] ((unitsOf (splitBlank [] text)).flatMap (piecesOf limit))).flatten = text := by
  rw [flatten_pack, List.nil_append, flatten_flatMap_of (flatten_piecesOf limit),
    flatten_unitsOf, flatten_splitBlank, List.nil_append]

theorem length_le_of_mem_packed {limit : ℕ+} {text chunk : List Char}
    (h : chunk ∈ pack limit [] ((unitsOf (splitBlank [] text)).flatMap (piecesOf limit))) :
    chunk.length ≤ limit := by
  refine length_le_of_mem_pack (Nat.zero_le _) (fun piece hpiece => ?_) h
  obtain ⟨unit, -, hpiece⟩ := List.mem_flatMap.mp hpiece
  exact length_le_of_mem_piecesOf hpiece

/-- **The chunks of a text are no longer than the limit, and with what was left out between them
they are the text**, in its order; what was left out is white space. -/
theorem chunkText_parts (text : List Char) (limit : ℕ+) :
    (∀ chunk ∈ chunkText text limit, chunk.length ≤ limit) ∧
      ∃ parts : List (Bool × List Char), (parts.map (·.2)).flatten = text
        ∧ (parts.filter (·.1)).map (·.2) = chunkText text limit
        ∧ ∀ part ∈ parts, part.1 = false → isBlank part.2 = true := by
  unfold chunkText
  by_cases hshort : text.length ≤ limit
  · rw [if_pos hshort]
    refine ⟨fun chunk h => List.mem_singleton.mp h ▸ hshort, [(true, text)],
      List.flatten_singleton, rfl, fun part h hfalse => ?_⟩
    rw [List.mem_singleton.mp h] at hfalse
    cases hfalse
  · rw [if_neg hshort]
    dsimp only
    have hflatten := flatten_packed limit text
    have hlength := @length_le_of_mem_packed limit text
    generalize pack limit [] _ = chunks at hflatten hlength ⊢
    by_cases hnone : (chunks.filter fun chunk => !isBlank chunk).isEmpty
    · rw [if_pos hnone]
      refine ⟨fun chunk => hlength, chunks.map (true, ·), ?_, ?_, fun part h hfalse => ?_⟩
      · rw [List.map_map]
        exact (congrArg List.flatten (List.map_id chunks)).trans hflatten
      · have hall : (chunks.map fun chunk => (true, chunk)).filter (·.1)
            = chunks.map fun chunk => (true, chunk) := by
          refine List.filter_eq_self.mpr fun part h => ?_
          obtain ⟨chunk, -, rfl⟩ := List.mem_map.mp h
          rfl
        rw [hall, List.map_map]
        exact List.map_id chunks
      · obtain ⟨chunk, -, rfl⟩ := List.mem_map.mp h
        cases hfalse
    · rw [if_neg hnone]
      refine ⟨fun chunk h => hlength (List.mem_of_mem_filter h),
        chunks.map fun chunk => (!isBlank chunk, chunk), ?_, ?_, fun part h hfalse => ?_⟩
      · rw [List.map_map]
        exact (congrArg List.flatten (List.map_id chunks)).trans hflatten
      · rw [List.filter_map, List.map_map]
        exact List.map_id _
      · obtain ⟨chunk, -, rfl⟩ := List.mem_map.mp h
        exact (Bool.not_eq_false' _).mp hfalse

end SlackChunks
