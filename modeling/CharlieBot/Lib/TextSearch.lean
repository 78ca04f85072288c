import CharlieBot.Lib.Json
import Mathlib.Algebra.GroupWithZero.Nat

/-!
# Searching a text that is read in pieces

A text that is too long to be held at once is searched window by window:
every piece is looked at together with the end of what came before. The
overlap of one character less than the needle is enough for a needle across
a boundary (`scanWindows_iff`), and a needle that was not in a text can come
into it with an append only from there on (`infix_append_of_suffix`).

A reader that starts inside a file starts at a byte. Where that byte is
inside a character, the rest of the character is no text: it is read as
replacement characters (`decodeFrom`). The reader's line ends are translated
(`newlines`), and lower case is a character at a time with one exception,
the capital sigma, whose lower case depends on the letters around it
(`CaseTable.lower`).
-/

namespace Text

/-! ## Occurrences -/

theorem contains_iff {sub s : List Char} : contains sub s = true ↔ sub <:+: s := by
  induction s with
  | nil => rw [contains, List.isEmpty_iff, List.infix_nil]
  | cons c rest ih =>
    rw [contains, Bool.or_eq_true, List.isPrefixOf_iff_prefix, ih, List.infix_cons_iff]

/-- **A needle comes into a text from near its end.** What is not in a text
and comes with an append is in the end of the text with the append, where
the end has all but one of the needle's characters. -/
theorem infix_append_of_suffix {q seen tail more : List Char} (htail : tail <:+ seen)
    (hlen : q.length - 1 ≤ tail.length) (hseen : ¬ q <:+: seen) :
    q <:+: seen ++ more ↔ q <:+: tail ++ more := by
  obtain ⟨front, rfl⟩ := htail
  constructor
  · intro h
    rcases List.infix_append_iff_ne_nil.mp h with h | h | ⟨q₁, q₂, -, hne, rfl, hq₁, hq₂⟩
    · exact absurd h hseen
    · exact List.infix_append_of_infix_right h
    · -- the part before the append is shorter than the needle, so it is in the end
      have hshort : q₁.length ≤ tail.length := by
        have := List.length_pos_of_ne_nil hne
        rw [List.length_append] at hlen
        omega
      have hq₁' : q₁ <:+ tail := List.suffix_of_suffix_length_le hq₁ ⟨front, rfl⟩ hshort
      exact List.infix_append_iff.mpr (.inr (.inr ⟨q₁, q₂, rfl, hq₁', hq₂⟩))
  · intro h
    rw [List.append_assoc]
    exact List.infix_append_of_infix_right h

theorem infix_replicate_append {q s : List Char} {c : Char} {n : ℕ} (hq : q ≠ [])
    (h : n = 0 ∨ c ∉ q) : q <:+: List.replicate n c ++ s ↔ q <:+: s := by
  rcases h with rfl | hc
  · rfl
  · induction n with
    | zero => rfl
    | succ n ih =>
      rw [List.replicate_succ, List.cons_append, List.infix_cons_iff, ih]
      refine or_iff_right fun hpre => ?_
      cases q with
      | nil => exact hq rfl
      | cons d q =>
        rw [List.cons_prefix_cons] at hpre
        exact hc (hpre.1 ▸ List.mem_cons_self)

/-! ## Windows -/

/-- The pieces a stream is read in, at most `n` characters each. -/
def readChunks (n : ℕ) : ℕ → List Char → List (List Char)
  | 0, _ => []
  | _ + 1, [] => []
  | fuel + 1, c :: s => (c :: s).take n :: readChunks n fuel ((c :: s).drop n)

/-- All pieces of a text. -/
def chunks (n : ℕ) (s : List Char) : List (List Char) := readChunks n s.length s

theorem flatten_readChunks {n : ℕ} (hn : 0 < n) (fuel : ℕ) (s : List Char)
    (hfuel : s.length ≤ fuel) : (readChunks n fuel s).flatten = s := by
  induction fuel generalizing s with
  | zero =>
    rw [List.length_eq_zero_iff.mp (Nat.le_zero.mp hfuel)]
    rfl
  | succ fuel ih =>
    cases s with
    | nil => rfl
    | cons c s =>
      rw [readChunks, List.flatten_cons, ih _ ?_, List.take_append_drop]
      rw [List.length_drop]
      rw [List.length_cons] at hfuel ⊢
      omega

theorem length_le_of_mem_readChunks {n fuel : ℕ} {s piece : List Char}
    (h : piece ∈ readChunks n fuel s) : piece.length ≤ n := by
  induction fuel generalizing s with
  | zero => cases h
  | succ fuel ih =>
    cases s with
    | nil => cases h
    | cons c s =>
      rcases List.mem_cons.mp h with rfl | h
      · exact List.length_take_le n (c :: s)
      · exact ih h

theorem length_le_of_mem_chunks {n : ℕ} {s piece : List Char} (h : piece ∈ chunks n s) :
    piece.length ≤ n :=
  length_le_of_mem_readChunks h

theorem flatten_chunks {n : ℕ} (hn : 0 < n) (s : List Char) : (chunks n s).flatten = s :=
  flatten_readChunks hn s.length s (Nat.le_refl _)

/-- Whether the needle is in one of the windows: a piece with the last
characters before it, one less than the needle has. -/
def scanWindows (q : List Char) : List Char → List (List Char) → Bool
  | _, [] => false
  | tail, piece :: pieces =>
    let window := tail ++ piece
    if contains q window then true
    else scanWindows q (window.drop (window.length - (q.length - 1))) pieces

/-- **The windows have every occurrence**, at whatever places the text is
cut. -/
theorem scanWindows_iff {q seen tail : List Char} {pieces : List (List Char)}
    (htail : tail <:+ seen) (hlen : min (q.length - 1) seen.length ≤ tail.length)
    (hseen : ¬ q <:+: seen) :
    scanWindows q tail pieces = true ↔ q <:+: seen ++ pieces.flatten := by
  induction pieces generalizing seen tail with
  | nil =>
    rw [List.flatten_nil, List.append_nil]
    exact ⟨fun h => (by cases h), fun h => absurd h hseen⟩
  | cons piece pieces ih =>
    have hwindow : q <:+: seen ++ piece ↔ q <:+: tail ++ piece := by
      rcases Nat.le_total (q.length - 1) seen.length with hle | hle
      · rw [Nat.min_eq_left hle] at hlen
        exact infix_append_of_suffix htail hlen hseen
      · rw [Nat.min_eq_right hle] at hlen
        rw [htail.eq_of_length_le hlen]
    rw [scanWindows]
    split
    · next h =>
      rw [contains_iff] at h
      refine ⟨fun _ => ?_, fun _ => rfl⟩
      rw [List.flatten_cons, ← List.append_assoc]
      exact List.infix_append_of_infix_left (hwindow.mpr h)
    · next h =>
      rw [contains_iff, ← hwindow] at h
      have hsuffix : tail ++ piece <:+ seen ++ piece := by
        obtain ⟨front, rfl⟩ := htail
        exact ⟨front, (List.append_assoc ..).symm⟩
      rw [List.flatten_cons, ← List.append_assoc]
      refine ih ((List.drop_suffix _ _).trans hsuffix) ?_ h
      rw [List.length_drop]
      simp only [List.length_append] at hlen ⊢
      omega

/-! ## Bytes -/

/-- The bytes of a text in a file. -/
def utf8Size (s : List Char) : ℕ := (s.map Char.utf8Size).sum

@[simp] theorem utf8Size_nil : utf8Size [] = 0 := rfl

@[simp] theorem utf8Size_cons (c : Char) (s : List Char) :
    utf8Size (c :: s) = c.utf8Size + utf8Size s := rfl

@[simp] theorem utf8Size_append (s t : List Char) :
    utf8Size (s ++ t) = utf8Size s + utf8Size t := by
  rw [utf8Size, List.map_append, List.sum_append]
  rfl

theorem eq_nil_of_utf8Size {s : List Char} (h : utf8Size s = 0) : s = [] := by
  cases s with
  | nil => rfl
  | cons c s =>
    have := c.utf8Size_pos
    rw [utf8Size_cons] at h
    omega

theorem prefix_of_utf8Size_le {s t text : List Char} (hs : s <+: text) (ht : t <+: text)
    (hle : utf8Size s ≤ utf8Size t) : s <+: t := by
  rcases List.prefix_or_prefix_of_prefix hs ht with h | ⟨more, rfl⟩
  · exact h
  · rw [utf8Size_append] at hle
    have hmore : more = [] := eq_nil_of_utf8Size (by omega)
    exact ⟨[], by rw [hmore, List.append_nil, List.append_nil]⟩

/-- Where a reader stands that starts at a byte: the bytes that are left of
the character the byte is in, and the characters behind. -/
def seek : ℕ → List Char → ℕ × List Char
  | 0, s => (0, s)
  | _ + 1, [] => (0, [])
  | n + 1, c :: s =>
    if c.utf8Size ≤ n + 1 then seek (n + 1 - c.utf8Size) s else (c.utf8Size - (n + 1), s)

@[simp] theorem seek_zero (s : List Char) : seek 0 s = (0, s) := by
  cases s <;> rfl

/-- **Where a seek lands**: at most three bytes before a character. -/
theorem seek_spec {n : ℕ} {s : List Char} (hn : n ≤ utf8Size s) :
    ∃ before, s = before ++ (seek n s).2 ∧ utf8Size before = n + (seek n s).1
      ∧ (seek n s).1 ≤ 3 := by
  induction s generalizing n with
  | nil =>
    obtain rfl : n = 0 := Nat.le_zero.mp hn
    exact ⟨[], rfl, rfl, Nat.zero_le _⟩
  | cons c s ih =>
    cases n with
    | zero => exact ⟨[], rfl, rfl, Nat.zero_le _⟩
    | succ n =>
      rw [seek]
      split
      · next hle =>
        rw [utf8Size_cons] at hn
        obtain ⟨before, hs, hsize, hstray⟩ := ih (n := n + 1 - c.utf8Size) (by omega)
        refine ⟨c :: before, congrArg (c :: ·) hs, ?_, hstray⟩
        rw [utf8Size_cons, hsize]
        omega
      · next hlt =>
        have := c.utf8Size_le_four
        refine ⟨[c], rfl, ?_, ?_⟩
        · show c.utf8Size + 0 = n + 1 + (c.utf8Size - (n + 1))
          omega
        · show c.utf8Size - (n + 1) ≤ 3
          omega

theorem seek_of_ascii {s : List Char} (h : ∀ c ∈ s, c.utf8Size = 1) (n : ℕ) :
    seek n s = (0, s.drop n) := by
  induction s generalizing n with
  | nil => cases n <;> rfl
  | cons c s ih =>
    cases n with
    | zero => rfl
    | succ n =>
      have hc := h c List.mem_cons_self
      rw [seek, if_pos (by omega), hc, Nat.add_sub_cancel,
        ih fun d hd => h d (List.mem_cons_of_mem _ hd)]
      rfl

/-- What is read for a byte that begins no character. -/
def replacement : Char := Char.ofNat 0xFFFD

/-- **The text a reader has that starts at a byte**, with
`errors="replace"`: every byte that is left of a character is read as a
replacement character. -/
def decodeFrom (n : ℕ) (s : List Char) : List Char :=
  List.replicate (seek n s).1 replacement ++ (seek n s).2

/-! ## Line ends -/

/-- The line ends of a text that is read with translation. -/
def newlines : List Char → List Char
  | [] => []
  | '\r' :: '\n' :: rest => '\n' :: newlines rest
  | c :: rest => (if c = '\r' then '\n' else c) :: newlines rest

theorem newlines_prefix (s more : List Char) : newlines s <+: newlines (s ++ more) := by
  fun_induction newlines s with
  | case1 => exact List.nil_prefix
  | case2 s ih => exact (List.prefix_cons_inj '\n').mpr ih
  | case3 c s hne ih =>
    by_cases hcut : s = [] ∧ c = '\r' ∧ ∃ rest, more = '\n' :: rest
    · obtain ⟨rfl, rfl, rest, rfl⟩ := hcut
      exact ⟨newlines rest, rfl⟩
    · rw [List.cons_append, newlines]
      · exact (List.prefix_cons_inj _).mpr ih
      · rintro rest rfl heq
        cases s with
        | nil => exact hcut ⟨rfl, rfl, rest, heq⟩
        | cons d s =>
          cases heq
          exact hne s rfl rfl

theorem mem_newlines {s : List Char} {c : Char} (h : c ∈ newlines s) : c ∈ s ∨ c = '\n' := by
  fun_induction newlines s with
  | case1 => exact absurd h List.not_mem_nil
  | case2 s ih =>
    rcases List.mem_cons.mp h with rfl | h
    · exact .inr rfl
    · exact (ih h).imp_left fun h => List.mem_cons_of_mem _ (List.mem_cons_of_mem _ h)
  | case3 d s _ ih =>
    rcases List.mem_cons.mp h with rfl | h
    · split
      · exact .inr rfl
      · exact .inl List.mem_cons_self
    · exact (ih h).imp_left (List.mem_cons_of_mem _)

theorem newlines_replicate_append {c : Char} (n : ℕ) (hc : c ≠ '\r') (rest : List Char) :
    newlines (List.replicate n c ++ rest) = List.replicate n c ++ newlines rest := by
  induction n with
  | zero => rfl
  | succ n ih =>
    rw [List.replicate_succ, List.cons_append, newlines, ih, if_neg hc]
    · rfl
    · rintro _ rfl
      exact absurd rfl hc

theorem utf8Size_le_newlines (s : List Char) : utf8Size s ≤ 4 * (newlines s).length := by
  fun_induction newlines s with
  | case1 => exact Nat.zero_le _
  | case2 rest ih =>
    have hr : Char.utf8Size '\r' = 1 := by decide
    have hn : Char.utf8Size '\n' = 1 := by decide
    rw [utf8Size_cons, utf8Size_cons, List.length_cons]
    omega
  | case3 c rest _ ih =>
    have := c.utf8Size_le_four
    rw [utf8Size_cons, List.length_cons]
    omega

/-- **Line ends are translated behind a cut as in the whole text**: what
stands before is the same whatever follows the next character. -/
theorem newlines_append (s : List Char) (c : Char) :
    ∃ front, ∀ rest, newlines (s ++ c :: rest) = front ++ newlines (c :: rest) := by
  fun_induction newlines s with
  | case1 => exact ⟨[], fun _ => rfl⟩
  | case2 s ih =>
    obtain ⟨front, hfront⟩ := ih
    refine ⟨'\n' :: front, fun rest => ?_⟩
    show '\n' :: newlines (s ++ c :: rest) = _
    rw [hfront]
    rfl
  | case3 d s hne ih =>
    by_cases hcut : s = [] ∧ d = '\r' ∧ c = '\n'
    · obtain ⟨rfl, rfl, rfl⟩ := hcut
      refine ⟨[], fun rest => ?_⟩
      show '\n' :: newlines rest = newlines ('\n' :: rest)
      rw [newlines]
      · rfl
      · intro _ h
        cases h
    · obtain ⟨front, hfront⟩ := ih
      refine ⟨(if d = '\r' then '\n' else d) :: front, fun rest => ?_⟩
      rw [List.cons_append, newlines, hfront]
      · rfl
      · rintro rest' rfl heq
        cases s with
        | nil =>
          cases heq
          exact hcut ⟨rfl, rfl, rfl⟩
        | cons e s =>
          cases heq
          exact hne s rfl rfl

end Text

/-! ## Lower case -/

/-- What lower case knows of the characters: the lower case of each, which
are the letters with a case, and which characters a word goes on over. -/
structure CaseTable where
  lowerChar : Char → List Char
  cased : Char → Bool
  ignorable : Char → Bool
  /-- No character goes away. -/
  lowerChar_ne_nil : ∀ c, lowerChar c ≠ []

namespace CaseTable

variable (C : CaseTable)

/-- Whether the first character that counts is a letter with a case. -/
def nextCased (s : List Char) : Bool := (s.find? fun c => !C.ignorable c).any C.cased

/-- The lower case of a capital sigma: another one at the end of a word. -/
def lowerSigma (behind rest : List Char) : Char :=
  if C.nextCased behind && !C.nextCased rest then Char.ofNat 0x3C2 else Char.ofNat 0x3C3

/-- The lower case of a text behind another, which is given from its end. -/
def lowerBehind : List Char → List Char → List Char
  | _, [] => []
  | behind, c :: rest =>
    (if c = Char.ofNat 0x3A3 then [C.lowerSigma behind rest] else C.lowerChar c)
      ++ lowerBehind (c :: behind) rest

/-- `s.lower()`. -/
def lower (s : List Char) : List Char := C.lowerBehind [] s

theorem lowerBehind_eq_flatMap {s : List Char} (h : Char.ofNat 0x3A3 ∉ s) (behind : List Char) :
    C.lowerBehind behind s = s.flatMap C.lowerChar := by
  induction s generalizing behind with
  | nil => rfl
  | cons c s ih =>
    rw [List.mem_cons, not_or] at h
    rw [lowerBehind, if_neg (Ne.symm h.1), ih h.2]
    rfl

theorem lower_eq_flatMap {s : List Char} (h : Char.ofNat 0x3A3 ∉ s) :
    C.lower s = s.flatMap C.lowerChar := C.lowerBehind_eq_flatMap h []

theorem flatten_lower_eq {pieces : List (List Char)} (h : Char.ofNat 0x3A3 ∉ pieces.flatten) :
    (pieces.map C.lower).flatten = C.lower pieces.flatten := by
  rw [C.lower_eq_flatMap h]
  induction pieces with
  | nil => rfl
  | cons piece pieces ih =>
    rw [List.flatten_cons, List.mem_append, not_or] at h
    rw [List.map_cons, List.flatten_cons, ih h.2, C.lower_eq_flatMap h.1, List.flatten_cons,
      List.flatMap_append]

/-- The characters a text has in lower case, a character at a time: that
they are as many does not depend on where they stand. -/
def lowerLength (s : List Char) : ℕ :=
  (s.map fun c => if c = Char.ofNat 0x3A3 then 1 else (C.lowerChar c).length).sum

theorem lowerLength_cons (c : Char) (s : List Char) : C.lowerLength (c :: s)
    = (if c = Char.ofNat 0x3A3 then 1 else (C.lowerChar c).length) + C.lowerLength s := rfl

theorem length_lowerBehind (behind s : List Char) :
    (C.lowerBehind behind s).length = C.lowerLength s := by
  induction s generalizing behind with
  | nil => rfl
  | cons c s ih =>
    rw [lowerBehind, List.length_append, ih, lowerLength_cons]
    split <;> rfl

@[simp] theorem length_lower (s : List Char) : (C.lower s).length = C.lowerLength s :=
  C.length_lowerBehind [] s

@[simp] theorem lowerLength_append (s t : List Char) :
    C.lowerLength (s ++ t) = C.lowerLength s + C.lowerLength t := by
  unfold lowerLength
  rw [List.map_append, List.sum_append]

theorem length_le_lowerLength (s : List Char) : s.length ≤ C.lowerLength s := by
  induction s with
  | nil => exact Nat.zero_le _
  | cons c s ih =>
    have hpos : 1 ≤ if c = Char.ofNat 0x3A3 then 1 else (C.lowerChar c).length := by
      split
      · exact Nat.le_refl 1
      · exact List.length_pos_of_ne_nil (C.lowerChar_ne_nil c)
    rw [lowerLength_cons, List.length_cons]
    omega

theorem length_flatten_lower (pieces : List (List Char)) :
    (pieces.map C.lower).flatten.length = C.lowerLength pieces.flatten := by
  induction pieces with
  | nil => rfl
  | cons piece pieces ih =>
    rw [List.map_cons, List.flatten_cons, List.length_append, ih, length_lower,
      List.flatten_cons, lowerLength_append]

end CaseTable
