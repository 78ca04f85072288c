import CharlieBot.Lib.Json

/-!
# Lines, blanks and separators of a text

What `splitlines`, `strip` and `rpartition` give, said of the texts they
are given. A line holds no character a line ends at
(`isLineBreak_eq_false_of_mem`); a stripped text neither begins nor ends
with a blank; lines that were joined by line feeds are split again
(`splitLines_join`), provided the last is not empty; and the last
occurrence of a separator is the one behind which there is none
(`rpartition_of_last`).
-/

namespace Text

/-! ## Lines -/

theorem splitLinesAux_append {line : List Char} (h : ∀ c ∈ line, isLineBreak c = false)
    (cur rest : List Char) :
    splitLinesAux cur (line ++ rest) = splitLinesAux (line.reverse ++ cur) rest := by
  induction line generalizing cur with
  | nil => rfl
  | cons c line ih =>
    have hc := h c List.mem_cons_self
    have hline : ∀ c ∈ line, isLineBreak c = false := fun d hd => h d (List.mem_cons_of_mem _ hd)
    have hcr : c ≠ '\r' := by
      rintro rfl
      cases hc
    rw [List.cons_append, splitLinesAux.eq_3 _ _ _ (fun rest' heq _ => absurd heq hcr), hc,
      if_neg Bool.false_ne_true, ih hline, List.reverse_cons, List.append_assoc]
    rfl

theorem splitLinesAux_lineFeed (cur rest : List Char) :
    splitLinesAux cur ('\n' :: rest) = cur.reverse :: splitLinesAux [] rest := rfl

theorem splitLinesAux_of_clean {line : List Char} (h : ∀ c ∈ line, isLineBreak c = false)
    (hne : line ≠ []) : splitLinesAux [] line = [line] := by
  have happ := splitLinesAux_append h [] []
  rw [List.append_nil, List.append_nil] at happ
  rw [happ]
  unfold splitLinesAux
  rw [if_neg (by rwa [List.isEmpty_iff, List.reverse_eq_nil_iff]), List.reverse_reverse]

/-- **Lines that were joined are split again.** -/
theorem splitLines_join {lines : List (List Char)}
    (hclean : ∀ line ∈ lines, ∀ c ∈ line, isLineBreak c = false)
    (hne : ∀ line ∈ lines, line ≠ []) : splitLines (join ['\n'] lines) = lines := by
  induction lines with
  | nil => rfl
  | cons line lines ih =>
    have hline := hclean line List.mem_cons_self
    cases lines with
    | nil => exact splitLinesAux_of_clean hline (hne line List.mem_cons_self)
    | cons line' lines =>
      have hrest := ih (fun l hl => hclean l (List.mem_cons_of_mem _ hl))
        (fun l hl => hne l (List.mem_cons_of_mem _ hl))
      unfold splitLines at hrest ⊢
      rw [join, List.append_assoc, splitLinesAux_append hline, List.append_nil,
        List.singleton_append, splitLinesAux_lineFeed, hrest, List.reverse_reverse]

theorem isLineBreak_of_mem_aux (cur text : List Char)
    (hcur : ∀ c ∈ cur, isLineBreak c = false) {line : List Char}
    (h : line ∈ splitLinesAux cur text) : ∀ c ∈ line, isLineBreak c = false := by
  have hopen : ∀ c ∈ cur.reverse, isLineBreak c = false := fun c hc =>
    hcur c (List.mem_reverse.mp hc)
  fun_induction splitLinesAux cur text with
  | case1 cur hempty => exact absurd h List.not_mem_nil
  | case2 cur hne =>
    rw [List.mem_singleton] at h
    subst h
    exact hopen
  | case3 cur rest ih =>
    rcases List.mem_cons.mp h with rfl | h
    · exact hopen
    · exact ih (fun c hc => absurd hc List.not_mem_nil) h (fun c hc => absurd hc List.not_mem_nil)
  | case4 cur c rest hcrlf hbreak ih =>
    rcases List.mem_cons.mp h with rfl | h
    · exact hopen
    · exact ih (fun c hc => absurd hc List.not_mem_nil) h (fun c hc => absurd hc List.not_mem_nil)
  | case5 cur c rest hcrlf hbreak ih =>
    have hcons : ∀ d ∈ c :: cur, isLineBreak d = false :=
      List.forall_mem_cons.mpr ⟨Bool.eq_false_iff.mpr hbreak, hcur⟩
    exact ih hcons h fun d hd => hcons d (List.mem_reverse.mp hd)

/-- **A line holds nothing a line ends at.** -/
theorem isLineBreak_eq_false_of_mem {text line : List Char} (h : line ∈ splitLines text) :
    ∀ c ∈ line, isLineBreak c = false :=
  isLineBreak_of_mem_aux [] text (fun _ hc => absurd hc List.not_mem_nil) h

/-- **Two line feeds behind one another hold an empty line.** -/
theorem nil_mem_splitLinesAux (cur : List Char) {text : List Char}
    (h : ['\n', '\n'] <:+: text) : [] ∈ splitLinesAux cur text := by
  -- behind a line's end the first line feed ends an empty line
  have hopened : ∀ rest : List Char, ['\n'] <+: rest → [] ∈ splitLinesAux [] rest := by
    rintro _ ⟨rest, rfl⟩
    exact List.mem_cons_self
  fun_induction splitLinesAux cur text with
  | case1 cur hempty => exact absurd (List.infix_nil.mp h) (List.cons_ne_nil _ _)
  | case2 cur hne => exact absurd (List.infix_nil.mp h) (List.cons_ne_nil _ _)
  | case3 cur rest ih =>
    refine List.mem_cons_of_mem _ ?_
    rcases List.infix_cons_iff.mp h with hpre | h
    · exact absurd (List.cons_prefix_cons.mp hpre).1 (by decide)
    · rcases List.infix_cons_iff.mp h with hpre | h
      · exact hopened rest (List.cons_prefix_cons.mp hpre).2
      · exact ih h
  | case4 cur c rest hcrlf hbreak ih =>
    refine List.mem_cons_of_mem _ ?_
    rcases List.infix_cons_iff.mp h with hpre | h
    · exact hopened rest (List.cons_prefix_cons.mp hpre).2
    · exact ih h
  | case5 cur c rest hcrlf hbreak ih =>
    rcases List.infix_cons_iff.mp h with hpre | h
    · have hc := (List.cons_prefix_cons.mp hpre).1
      subst hc
      exact absurd rfl hbreak
    · exact ih h

/-! ## Blanks -/

/-- **A text that neither begins nor ends with a blank.** -/
def Trimmed (s : List Char) : Prop :=
  (∀ c ∈ s.head?, isSpace c = false) ∧ ∀ c ∈ s.getLast?, isSpace c = false

theorem dropWhile_eq_self {s : List Char} (h : ∀ c ∈ s.head?, isSpace c = false) :
    s.dropWhile isSpace = s := by
  cases s with
  | nil => rfl
  | cons c s => rw [List.dropWhile_cons_of_neg (by rw [h c rfl]; exact Bool.false_ne_true)]

/-- **Nothing is stripped from a text without blanks at its ends.** -/
theorem strip_eq_self {s : List Char} (h : Trimmed s) : strip s = s := by
  unfold strip
  rw [dropWhile_eq_self h.1, dropWhile_eq_self, List.reverse_reverse]
  rw [List.head?_reverse]
  exact h.2

theorem head?_dropWhile_isSpace (s : List Char) :
    ∀ c ∈ (s.dropWhile isSpace).head?, isSpace c = false := by
  intro c hc
  have := List.head?_dropWhile_not isSpace s
  rw [Option.mem_def.mp hc] at this
  exact this

/-- **A stripped text has no blanks at its ends.** -/
theorem trimmed_strip (s : List Char) : Trimmed (strip s) := by
  unfold strip
  refine ⟨?_, ?_⟩
  · -- what is dropped from the end leaves the first character
    obtain ⟨blanks, hblanks⟩ := List.dropWhile_suffix (l := (s.dropWhile isSpace).reverse) isSpace
    have hsplit := congrArg List.reverse hblanks
    rw [List.reverse_append, List.reverse_reverse] at hsplit
    intro c hc
    refine head?_dropWhile_isSpace s c ?_
    rw [← hsplit, List.head?_append, Option.mem_def.mp hc]
    rfl
  · rw [List.getLast?_reverse]
    exact head?_dropWhile_isSpace _

theorem mem_of_mem_strip {s : List Char} {c : Char} (h : c ∈ strip s) : c ∈ s := by
  unfold strip at h
  have hmem := (List.dropWhile_sublist isSpace).subset (List.mem_reverse.mp h)
  exact (List.dropWhile_sublist isSpace).subset (List.mem_reverse.mp hmem)

/-! ## The last occurrence of a separator -/

theorem ne_of_rpartition_eq_none {sep s : List Char} (hsep : sep ≠ [])
    (h : rpartition sep s = none) (body tail : List Char) : s ≠ body ++ sep ++ tail := by
  induction s generalizing body with
  | nil =>
    intro heq
    exact hsep (List.append_eq_nil_iff.mp (List.append_eq_nil_iff.mp heq.symm).1).2
  | cons c rest ih =>
    unfold rpartition at h
    cases hrest : rpartition sep rest with
    | some found =>
      rw [hrest] at h
      cases h
    | none =>
      rw [hrest] at h
      intro heq
      cases body with
      | nil =>
        rw [List.nil_append] at heq
        have hpre : sep.isPrefixOf (c :: rest) = true :=
          List.isPrefixOf_iff_prefix.mpr ⟨tail, heq.symm⟩
        dsimp only at h
        rw [if_pos hpre] at h
        cases h
      | cons c' body =>
        rw [List.cons_append, List.cons_append] at heq
        exact ih hrest body (List.cons.inj heq).2

theorem rpartition_eq_some {sep s body tail : List Char} (hsep : sep ≠ [])
    (h : rpartition sep s = some (body, tail)) :
    s = body ++ sep ++ tail ∧
      ∀ body' tail', s = body' ++ sep ++ tail' → body'.length ≤ body.length := by
  induction s generalizing body with
  | nil => cases h
  | cons c rest ih =>
    unfold rpartition at h
    cases hrest : rpartition sep rest with
    | some found =>
      rw [hrest] at h
      cases h
      obtain ⟨heq, hlast⟩ := ih hrest
      refine ⟨by rw [heq]; rfl, fun body' tail' h => ?_⟩
      cases body' with
      | nil => exact Nat.zero_le _
      | cons c' body' =>
        rw [List.cons_append, List.cons_append] at h
        exact Nat.succ_le_succ (hlast body' tail' (List.cons.inj h).2)
    | none =>
      rw [hrest] at h
      dsimp only at h
      by_cases hpre : sep.isPrefixOf (c :: rest) = true
      · rw [if_pos hpre] at h
        cases h
        obtain ⟨t, ht⟩ := List.isPrefixOf_iff_prefix.mp hpre
        refine ⟨by rw [← ht, List.drop_left' rfl]; rfl, fun body' tail' h => ?_⟩
        cases body' with
        | nil => exact Nat.zero_le _
        | cons c' body' =>
          rw [List.cons_append, List.cons_append] at h
          exact absurd (List.cons.inj h).2 (ne_of_rpartition_eq_none hsep hrest body' tail')
      · rw [if_neg hpre] at h
        cases h

/-- **`rpartition` finds the last occurrence**: the one that no other is
behind. -/
theorem rpartition_of_last {sep : List Char} (hsep : sep ≠ []) (body tail : List Char)
    (hlast : ∀ body' tail', body ++ sep ++ tail = body' ++ sep ++ tail' →
      body'.length ≤ body.length) :
    rpartition sep (body ++ sep ++ tail) = some (body, tail) := by
  cases hfound : rpartition sep (body ++ sep ++ tail) with
  | none => exact absurd rfl (ne_of_rpartition_eq_none hsep hfound body tail)
  | some found =>
    obtain ⟨body₀, tail₀⟩ := found
    obtain ⟨heq, hmax⟩ := rpartition_eq_some hsep hfound
    have hlen : body₀.length = body.length :=
      Nat.le_antisymm (hlast body₀ tail₀ heq) (hmax body tail rfl)
    have hparts : body ++ (sep ++ tail) = body₀ ++ (sep ++ tail₀) := by
      rw [← List.append_assoc, heq, List.append_assoc]
    obtain ⟨rfl, hrest⟩ := List.append_inj hparts hlen.symm
    rw [List.append_cancel_left hrest]

end Text
