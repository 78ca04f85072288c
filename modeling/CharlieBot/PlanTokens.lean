import CharlieBot.PlanLeaves

/-!
# The tokens of a leaf

The tokens of a leaf are its words and its single characters, each with its place in the text of the
leaf and its place in the source. A token never goes on from one piece of text into the next.

The text of a character reference is not its source: the decoded text shares one place. So the
tokens of one reference have the same bounds, and this is the only case (`leafTokens_tile`): a
reference that stands for nothing, `&foo;`, is three tokens with one place
(`not_increasing_unknownReference`).
-/

namespace PlanLeaves

open Difflib (slice)
open PlanDiff (TextPart)

/-! ## The scan of a text -/

/-- `[A-Za-z0-9_]`. -/
def isWord (c : Char) : Bool :=
  ('A' ≤ c && c ≤ 'Z') || ('a' ≤ c && c ≤ 'z') || ('0' ≤ c && c ≤ '9') || c = '_'

/-- How much of a text `_TOKEN_RE` takes at its front: the white space, a word, or one character. -/
def matchLength : List Char → ℕ
  | [] => 0
  | c :: rest =>
    if Text.isSpace c then (rest.takeWhile Text.isSpace).length + 1
    else if isWord c then (rest.takeWhile isWord).length + 1
    else 1

/-- `_TOKEN_RE.finditer`, with fuel: each match, where it begins and where it ends. -/
def finditer : ℕ → ℕ → List Char → List (List Char × ℕ × ℕ)
  | 0, _, _ => []
  | _, _, [] => []
  | fuel + 1, pos, c :: rest =>
    ((c :: rest).take (matchLength (c :: rest)), pos, pos + matchLength (c :: rest))
      :: finditer fuel (pos + matchLength (c :: rest)) ((c :: rest).drop (matchLength (c :: rest)))

/-- `not value[0].isspace()`. -/
def isToken (m : List Char × ℕ × ℕ) : Bool := !(m.1.head?.any Text.isSpace)

/-- **`_tokenise`**. -/
def tokenise (text : List Char) : List (List Char × ℕ × ℕ) :=
  (finditer text.length 0 text).filter isToken

theorem matchLength_pos (c : Char) (rest : List Char) : 0 < matchLength (c :: rest) := by
  rw [matchLength]
  split
  · exact Nat.succ_pos _
  · split
    · exact Nat.succ_pos _
    · exact Nat.one_pos

theorem matchLength_le (s : List Char) : matchLength s ≤ s.length := by
  cases s with
  | nil => exact le_rfl
  | cons c rest =>
    rw [matchLength, List.length_cons]
    split
    · exact Nat.succ_le_succ (List.takeWhile_sublist _).length_le
    · split
      · exact Nat.succ_le_succ (List.takeWhile_sublist _).length_le
      · exact Nat.succ_le_succ (Nat.zero_le _)

theorem isSpace_of_isWord {c : Char} (h : isWord c = true) : Text.isSpace c = false := by
  have hcode : (65 ≤ c.toNat ∧ c.toNat ≤ 90) ∨ (97 ≤ c.toNat ∧ c.toNat ≤ 122)
      ∨ (48 ≤ c.toNat ∧ c.toNat ≤ 57) ∨ c.toNat = 95 := by
    simp only [isWord, Bool.or_eq_true, Bool.and_eq_true, decide_eq_true_eq] at h
    rcases h with ((h | h) | h) | rfl
    · exact .inl h
    · exact .inr (.inl h)
    · exact .inr (.inr (.inl h))
    · exact .inr (.inr (.inr rfl))
  by_contra hspace
  simp only [Text.isSpace, Bool.not_eq_false, Bool.or_eq_true, Bool.and_eq_true, beq_iff_eq,
    decide_eq_true_eq] at hspace
  omega

theorem mem_take_takeWhile {p : Char → Bool} {s : List Char} {d : Char}
    (h : d ∈ s.take (s.takeWhile p).length) : p d = true := by
  rw [← List.prefix_iff_eq_take.mp (List.takeWhile_prefix p)] at h
  exact List.all_eq_true.mp List.all_takeWhile d h

theorem isSpace_of_mem_match {c d : Char} {rest : List Char}
    (h : d ∈ (c :: rest).take (matchLength (c :: rest))) : Text.isSpace d = Text.isSpace c := by
  rw [matchLength] at h
  split at h
  · next hspace =>
    rw [List.take_succ_cons, List.mem_cons] at h
    rcases h with rfl | h
    · rfl
    · rw [mem_take_takeWhile h, hspace]
  · split at h
    · next hword =>
      rw [List.take_succ_cons, List.mem_cons] at h
      rcases h with rfl | h
      · rfl
      · rw [isSpace_of_isWord (mem_take_takeWhile h), isSpace_of_isWord hword]
    · rw [List.take_succ_cons, List.take_zero, List.mem_singleton] at h
      rw [h]

/-- **A match of a text**: what is between its bounds, all of it white space or nothing. -/
structure IsMatch (text : List Char) (m : List Char × ℕ × ℕ) : Prop where
  lt : m.2.1 < m.2.2
  le : m.2.2 ≤ text.length
  value : m.1 = slice text m.2.1 m.2.2
  space : ∀ d ∈ m.1, Text.isSpace d = m.1.head?.any Text.isSpace

theorem finditer_spec {fuel : ℕ} (before : List Char) {rest : List Char}
    (hfuel : rest.length ≤ fuel) :
    (∀ m ∈ finditer fuel before.length rest, IsMatch (before ++ rest) m ∧ before.length ≤ m.2.1)
      ∧ (finditer fuel before.length rest).Pairwise (fun m n => m.2.2 ≤ n.2.1)
      ∧ ∀ i, before.length ≤ i → i < (before ++ rest).length →
          ∃ m ∈ finditer fuel before.length rest, m.2.1 ≤ i ∧ i < m.2.2 := by
  induction fuel generalizing before rest with
  | zero =>
    obtain rfl : rest = [] := List.length_eq_zero_iff.mp (Nat.le_zero.mp hfuel)
    refine ⟨fun m hm => absurd hm List.not_mem_nil, List.Pairwise.nil, fun i hle hlt => ?_⟩
    rw [List.append_nil] at hlt
    omega
  | succ fuel ih =>
    cases rest with
    | nil =>
      refine ⟨fun m hm => absurd hm List.not_mem_nil, List.Pairwise.nil, fun i hle hlt => ?_⟩
      rw [List.append_nil] at hlt
      omega
    | cons c rest =>
      have hpos := matchLength_pos c rest
      have hle := matchLength_le (c :: rest)
      -- the scan goes on behind what this match takes
      set n := matchLength (c :: rest) with hn
      have htake : ((c :: rest).take n).length = n := by rw [List.length_take, Nat.min_eq_left hle]
      have hbefore : (before ++ (c :: rest).take n).length = before.length + n := by
        rw [List.length_append, htake]
      have hwhole : (before ++ (c :: rest).take n) ++ (c :: rest).drop n = before ++ c :: rest := by
        rw [List.append_assoc, List.take_append_drop]
      obtain ⟨hmatch, hpairs, hcover⟩ := @ih (before ++ (c :: rest).take n) ((c :: rest).drop n) (by
        rw [List.length_drop]
        omega)
      rw [hbefore, hwhole] at hmatch hcover
      rw [hbefore] at hpairs
      have hfirst : IsMatch (before ++ c :: rest)
          ((c :: rest).take n, before.length, before.length + n) := by
        refine ⟨Nat.lt_add_of_pos_right hpos, ?_, ?_, fun d hd => ?_⟩
        · rw [List.length_append]
          exact Nat.add_le_add_left hle _
        · show (c :: rest).take n = slice (before ++ c :: rest) before.length (before.length + n)
          rw [slice, List.take_length_add_append, List.drop_left]
        · rw [isSpace_of_mem_match hd, hn, List.head?_take, if_neg hpos.ne']
          rfl
      rw [finditer]
      refine ⟨fun m hm => ?_, ?_, fun i hi hlt => ?_⟩
      · rcases List.mem_cons.mp hm with rfl | hm
        · exact ⟨hfirst, le_rfl⟩
        · exact ⟨(hmatch m hm).1, (Nat.le_add_right _ n).trans (hmatch m hm).2⟩
      · exact List.pairwise_cons.mpr ⟨fun m hm => (hmatch m hm).2, hpairs⟩
      · by_cases hin : i < before.length + n
        · exact ⟨_, List.mem_cons_self, hi, hin⟩
        · obtain ⟨m, hm, hbounds⟩ := hcover i (Nat.le_of_not_lt hin) hlt
          exact ⟨m, List.mem_cons_of_mem _ hm, hbounds⟩

/-- **The tokens of a text**: each is a part of it without white space, none begins before the one
in front of it ends, and every character that is not white space is in one. -/
theorem tokenise_spec (text : List Char) :
    (∀ m ∈ tokenise text, IsMatch text m ∧ ∀ d ∈ m.1, Text.isSpace d = false)
      ∧ (tokenise text).Pairwise (fun m n => m.2.2 ≤ n.2.1)
      ∧ ∀ i, (h : i < text.length) → Text.isSpace text[i] = false →
          ∃ m ∈ tokenise text, m.2.1 ≤ i ∧ i < m.2.2 := by
  obtain ⟨hmatch, hpairs, hcover⟩ := finditer_spec [] (le_refl text.length)
  refine ⟨fun m hm => ?_, hpairs.filter _, fun i hi hspace => ?_⟩
  · obtain ⟨hm, htoken⟩ := List.mem_filter.mp hm
    have hspace : m.1.head?.any Text.isSpace = false := by
      rwa [isToken, Bool.not_eq_true'] at htoken
    exact ⟨(hmatch m hm).1, fun d hd => ((hmatch m hm).1.space d hd).trans hspace⟩
  · obtain ⟨m, hm, hlo, hhi⟩ := hcover i (Nat.zero_le i) hi
    have hmem : text[i] ∈ m.1 := by
      rw [(hmatch m hm).1.value]
      exact List.mem_iff_getElem?.mpr ⟨i - m.2.1, by
        rw [slice, List.getElem?_drop, Nat.add_sub_cancel' hlo, List.nil_append,
          List.getElem?_take_of_lt hhi, List.getElem?_eq_getElem hi]⟩
    refine ⟨m, List.mem_filter.mpr ⟨hm, ?_⟩, hlo, hhi⟩
    rw [isToken, ← (hmatch m hm).1.space _ hmem, hspace]
    rfl

/-! ## Tokens -/

structure Token where
  value : List Char
  logicalStart : ℕ
  logicalEnd : ℕ
  rawStart : ℕ
  rawEnd : ℕ
deriving DecidableEq

/-- The tokens of a part that begins at an offset of the text. -/
def partTokens (offset : ℕ) (part : TextPart) : List Token :=
  (tokenise part.text).map fun (value, start, stop) =>
    ⟨value, offset + start, offset + stop, (rawSpan part start stop).1, (rawSpan part start stop).2⟩

/-- The loop of `_leaf_tokens`. -/
def tokensFrom : ℕ → List TextPart → List Token
  | _, [] => []
  | offset, part :: parts => partTokens offset part ++ tokensFrom (offset + part.text.length) parts

/-- **`_leaf_tokens`**. -/
def leafTokens (leaf : Leaf) : List Token := tokensFrom 0 leaf.parts

/-- The loop of `_raw_bounds`: the bounds of what lies in a range of the text. -/
def boundsFrom (logicalStart logicalEnd : ℕ) : ℕ → List TextPart → List (ℕ × ℕ)
  | _, [] => []
  | offset, part :: parts =>
    let partEnd := offset + part.text.length
    let lo := max offset logicalStart
    let hi := min partEnd logicalEnd
    (if lo < hi then [rawSpan part (lo - offset) (hi - offset)] else [])
      ++ boundsFrom logicalStart logicalEnd partEnd parts

/-- **`_raw_bounds`**; an index that is past the tokens raises. -/
def rawBounds (tokens : List Token) (start stop : ℕ) (leaf : Leaf) :
    Except String (List (ℕ × ℕ)) :=
  if start ≥ stop then .ok []
  else
    match tokens[start]?, tokens[stop - 1]? with
    | some first, some last =>
      .ok (boundsFrom first.logicalStart last.logicalEnd 0 leaf.parts)
    | _, _ => .error "list index out of range"

def textLength (parts : List TextPart) : ℕ := (parts.flatMap (·.text)).length

theorem textLength_cons (part : TextPart) (parts : List TextPart) :
    textLength (part :: parts) = part.text.length + textLength parts := by
  rw [textLength, List.flatMap_cons, List.length_append, textLength]

theorem mem_tokensFrom {offset : ℕ} {parts : List TextPart} {t : Token} :
    t ∈ tokensFrom offset parts ↔ ∃ before part after, parts = before ++ part :: after
      ∧ t ∈ partTokens (offset + textLength before) part := by
  induction parts generalizing offset with
  | nil =>
    refine ⟨fun h => absurd h List.not_mem_nil, fun h => ?_⟩
    obtain ⟨before, part, after, hparts, -⟩ := h
    exact absurd hparts.symm (List.append_ne_nil_of_right_ne_nil _ (List.cons_ne_nil _ _))
  | cons p parts ih =>
    rw [tokensFrom, List.mem_append, ih]
    constructor
    · rintro (h | ⟨before, part, after, rfl, h⟩)
      · exact ⟨[], p, parts, rfl, h⟩
      · refine ⟨p :: before, part, after, rfl, ?_⟩
        rwa [textLength_cons, ← Nat.add_assoc]
    · rintro ⟨before, part, after, hparts, h⟩
      cases before with
      | nil =>
        obtain ⟨rfl, rfl⟩ := List.cons.inj hparts
        exact .inl h
      | cons q before =>
        obtain ⟨rfl, rfl⟩ := List.cons.inj hparts
        rw [textLength_cons, ← Nat.add_assoc] at h
        exact .inr ⟨before, part, after, rfl, h⟩

/-- **A token of a part**: where it lies in the text, and its bounds. -/
structure IsPartToken (offset : ℕ) (part : TextPart) (t : Token) : Prop where
  lo : offset ≤ t.logicalStart
  lt : t.logicalStart < t.logicalEnd
  hi : t.logicalEnd ≤ offset + part.text.length
  value : t.value = slice part.text (t.logicalStart - offset) (t.logicalEnd - offset)
  space : ∀ c ∈ t.value, Text.isSpace c = false
  span : (t.rawStart, t.rawEnd) = rawSpan part (t.logicalStart - offset) (t.logicalEnd - offset)

/-- **The tokens of a part**: each lies in it, none begins before the one in front of it ends, and
every character that is not white space is in one. -/
theorem partTokens_spec (offset : ℕ) (part : TextPart) :
    (∀ t ∈ partTokens offset part, IsPartToken offset part t)
      ∧ (partTokens offset part).Pairwise (fun t u => t.logicalEnd ≤ u.logicalStart)
      ∧ ∀ i, (h : i < part.text.length) → Text.isSpace part.text[i] = false →
          ∃ t ∈ partTokens offset part, t.logicalStart ≤ offset + i ∧ offset + i < t.logicalEnd := by
  obtain ⟨hmatch, hpairs, hcover⟩ := tokenise_spec part.text
  refine ⟨fun t ht => ?_, ?_, fun i hi hspace => ?_⟩
  · obtain ⟨⟨value, start, stop⟩, hm, rfl⟩ := List.mem_map.mp ht
    obtain ⟨hm, hspace⟩ := hmatch _ hm
    refine ⟨Nat.le_add_right _ _, Nat.add_lt_add_left hm.lt _, Nat.add_le_add_left hm.le _, ?_,
      hspace, ?_⟩
    · show value = slice part.text (offset + start - offset) (offset + stop - offset)
      rw [Nat.add_sub_cancel_left, Nat.add_sub_cancel_left]
      exact hm.value
    · show ((rawSpan part start stop).1, (rawSpan part start stop).2)
        = rawSpan part (offset + start - offset) (offset + stop - offset)
      rw [Nat.add_sub_cancel_left, Nat.add_sub_cancel_left]
  · exact List.pairwise_map.mpr (hpairs.imp fun h => Nat.add_le_add_left h offset)
  · obtain ⟨m, hm, hlo, hhi⟩ := hcover i hi hspace
    exact ⟨_, List.mem_map.mpr ⟨m, hm, rfl⟩, Nat.add_le_add_left hlo _, Nat.add_lt_add_left hhi _⟩

theorem bounds_of_mem_tokensFrom {offset : ℕ} {parts : List TextPart} {t : Token}
    (h : t ∈ tokensFrom offset parts) :
    offset ≤ t.logicalStart ∧ t.logicalEnd ≤ offset + textLength parts := by
  obtain ⟨before, part, after, rfl, ht⟩ := mem_tokensFrom.mp h
  have htoken := (partTokens_spec _ part).1 t ht
  have hlo := htoken.lo
  have hhi := htoken.hi
  have hlength : textLength (before ++ part :: after)
      = textLength before + (part.text.length + textLength after) := by
    rw [← textLength_cons, textLength, List.flatMap_append, List.length_append]
    rfl
  omega

theorem pairwise_tokensFrom (offset : ℕ) (parts : List TextPart) :
    (tokensFrom offset parts).Pairwise fun t u => t.logicalEnd ≤ u.logicalStart := by
  induction parts generalizing offset with
  | nil => exact List.Pairwise.nil
  | cons part parts ih =>
    rw [tokensFrom]
    refine List.pairwise_append.mpr ⟨(partTokens_spec offset part).2.1, ih _, fun t ht u hu => ?_⟩
    exact ((partTokens_spec offset part).1 t ht).hi.trans (bounds_of_mem_tokensFrom hu).1

theorem exists_tokensFrom (offset : ℕ) (parts : List TextPart) {i : ℕ}
    (h : i < (parts.flatMap (·.text)).length)
    (hspace : Text.isSpace ((parts.flatMap (·.text))[i]) = false) :
    ∃ t ∈ tokensFrom offset parts, t.logicalStart ≤ offset + i ∧ offset + i < t.logicalEnd := by
  induction parts generalizing offset i with
  | nil => exact absurd h (Nat.not_lt_zero i)
  | cons part parts ih =>
    simp only [List.flatMap_cons] at h hspace
    rw [tokensFrom]
    by_cases hi : i < part.text.length
    · rw [List.getElem_append_left hi] at hspace
      obtain ⟨t, ht, hbounds⟩ := (partTokens_spec offset part).2.2 i hi hspace
      exact ⟨t, List.mem_append_left _ ht, hbounds⟩
    · have hle := Nat.le_of_not_lt hi
      rw [List.getElem_append_right hle] at hspace
      rw [List.length_append] at h
      obtain ⟨t, ht, hbounds⟩ := ih (offset + part.text.length) (by omega) hspace
      rw [Nat.add_assoc, Nat.add_sub_cancel' hle] at hbounds
      exact ⟨t, List.mem_append_right _ ht, hbounds⟩

theorem slice_text {before after : List TextPart} {part : TextPart} {i j : ℕ}
    (hi : textLength before ≤ i) (hij : i ≤ j) (hj : j ≤ textLength before + part.text.length) :
    slice ((before ++ part :: after).flatMap (·.text)) i j
      = slice part.text (i - textLength before) (j - textLength before) := by
  rw [List.flatMap_append, List.flatMap_cons, slice, slice, List.take_append,
    List.take_of_length_le (hi.trans hij), List.drop_append, List.drop_eq_nil_of_le hi,
    List.nil_append]
  show List.drop (i - textLength before) (List.take (j - textLength before) (part.text ++ _)) = _
  rw [List.take_append_of_le_length (by omega)]

theorem boundsFrom_eq_nil {i j offset : ℕ} (h : j ≤ offset) (parts : List TextPart) :
    boundsFrom i j offset parts = [] := by
  induction parts generalizing offset with
  | nil => rfl
  | cons part parts ih =>
    rw [boundsFrom, if_neg (by omega), ih (by omega), List.nil_append]

theorem boundsFrom_of_part {before after : List TextPart} {part : TextPart} {offset i j : ℕ}
    (hi : offset + textLength before ≤ i) (hij : i < j)
    (hj : j ≤ offset + textLength before + part.text.length) :
    boundsFrom i j offset (before ++ part :: after)
      = [rawSpan part (i - (offset + textLength before)) (j - (offset + textLength before))] := by
  induction before generalizing offset with
  | nil =>
    have hempty : textLength [] = 0 := rfl
    rw [hempty, Nat.add_zero] at hi hj ⊢
    rw [List.nil_append, boundsFrom, boundsFrom_eq_nil hj, List.append_nil, Nat.max_eq_right hi,
      Nat.min_eq_right hj, if_pos hij]
  | cons p before ih =>
    rw [textLength_cons, ← Nat.add_assoc] at hi hj ⊢
    rw [List.cons_append, boundsFrom, if_neg (by omega), List.nil_append, ih hi hj]

/-! ## The tiling -/

section Tiling

variable (unescape : List Char → List Char) (source : List Char)

/-- Two tokens are decoded from one reference, which is between their bounds. -/
def SameReference (leaf : Leaf) (t u : Token) : Prop :=
  ∃ part ∈ leaf.parts, part.textIsRaw = false ∧ (t.rawStart, t.rawEnd) = (part.start, part.stop)
    ∧ (u.rawStart, u.rawEnd) = (part.start, part.stop)

/-- **What is cut out at the bounds of a token**: the token, or the reference whose decoded text the
token is a part of. -/
def SourceForm (leaf : Leaf) (t : Token) : Prop :=
  ∃ before part after, leaf.parts = before ++ part :: after ∧ textLength before ≤ t.logicalStart
    ∧ t.logicalEnd ≤ textLength before + part.text.length
    ∧ if part.textIsRaw then slice source t.rawStart t.rawEnd = t.value
      else (t.rawStart, t.rawEnd) = (part.start, part.stop)
        ∧ unescape (slice source t.rawStart t.rawEnd) = part.text

/-- **The tokens tile the text of a leaf.** -/
structure Tiles (leaf : Leaf) : Prop where
  value : ∀ t ∈ leafTokens leaf, t.logicalStart < t.logicalEnd
    ∧ slice leaf.text t.logicalStart t.logicalEnd = t.value ∧ ∀ c ∈ t.value, Text.isSpace c = false
  covered : ∀ i, (h : i < leaf.text.length) → Text.isSpace leaf.text[i] = false →
    ∃! k : ℕ, ∃ t : Token, (leafTokens leaf)[k]? = some t ∧ t.logicalStart ≤ i ∧ i < t.logicalEnd
  apart : (leafTokens leaf).Pairwise fun t u => t.logicalEnd ≤ u.logicalStart
  increasing : (leafTokens leaf).Pairwise fun t u =>
    t.rawEnd ≤ u.rawStart ∨ SameReference leaf t u
  cut : ∀ t ∈ leafTokens leaf, t.rawStart < t.rawEnd ∧ SourceForm unescape source leaf t
  bounds : ∀ (k : ℕ) (t : Token), (leafTokens leaf)[k]? = some t →
    rawBounds (leafTokens leaf) k (k + 1) leaf = .ok [(t.rawStart, t.rawEnd)]

variable {unescape : List Char → List Char} {source : List Char}

theorem IsPartToken.inside {offset : ℕ} {part : TextPart} {t : Token}
    (ht : IsPartToken offset part t) (hpart : Sourced unescape source part) :
    part.start ≤ t.rawStart ∧ t.rawStart < t.rawEnd ∧ t.rawEnd ≤ part.stop := by
  have hspan := ht.span
  have hlo := ht.lo
  have hlt := ht.lt
  have hhi := ht.hi
  rw [rawSpan] at hspan
  split at hspan
  · next hraw =>
    obtain ⟨hstart, hstop⟩ := Prod.mk.inj hspan
    have hend := (hpart.raw hraw).1
    omega
  · next hraw =>
    obtain ⟨hstart, hstop⟩ := Prod.mk.inj hspan
    have hlt := (hpart.decoded (Bool.eq_false_of_not_eq_true hraw)).1
    omega

theorem IsPartToken.cut {offset : ℕ} {part : TextPart} {t : Token}
    (ht : IsPartToken offset part t) (hpart : Sourced unescape source part) :
    if part.textIsRaw then slice source t.rawStart t.rawEnd = t.value
    else (t.rawStart, t.rawEnd) = (part.start, part.stop)
      ∧ unescape (slice source t.rawStart t.rawEnd) = part.text := by
  have hspan := ht.span
  rw [rawSpan] at hspan
  split
  · next hraw =>
    rw [if_pos hraw] at hspan
    obtain ⟨hstart, hstop⟩ := Prod.mk.inj hspan
    obtain ⟨hend, htext⟩ := hpart.raw hraw
    have hhi := ht.hi
    rw [hstart, hstop, ht.value, ← htext, slice, slice, slice, List.take_drop, List.take_take,
      List.drop_drop, Nat.min_eq_left (by omega)]
  · next hraw =>
    rw [if_neg hraw] at hspan
    obtain ⟨hstart, hstop⟩ := Prod.mk.inj hspan
    rw [hstart, hstop]
    exact ⟨rfl, (hpart.decoded (Bool.eq_false_of_not_eq_true hraw)).2⟩

theorem increasing_tokensFrom {parts : List TextPart} (h : InOrder unescape source parts)
    (offset : ℕ) : (tokensFrom offset parts).Pairwise fun t u => t.rawEnd ≤ u.rawStart
      ∨ ∃ part ∈ parts, part.textIsRaw = false ∧ (t.rawStart, t.rawEnd) = (part.start, part.stop)
        ∧ (u.rawStart, u.rawEnd) = (part.start, part.stop) := by
  induction parts generalizing offset with
  | nil => exact List.Pairwise.nil
  | cons part parts ih =>
    obtain ⟨hall, hrest⟩ := List.pairwise_cons.mp h.ordered
    obtain ⟨htokens, hpairs, -⟩ := partTokens_spec offset part
    rw [tokensFrom]
    refine List.pairwise_append.mpr ⟨?_, ?_, fun t ht u hu => ?_⟩
    · refine hpairs.imp_of_mem fun {t u} ht hu hle => ?_
      have hspan := (htokens t ht).span
      have hspan' := (htokens u hu).span
      rw [rawSpan] at hspan hspan'
      cases hraw : part.textIsRaw with
      | true =>
        rw [if_pos hraw] at hspan hspan'
        obtain ⟨-, hstop⟩ := Prod.mk.inj hspan
        obtain ⟨hstart, -⟩ := Prod.mk.inj hspan'
        exact .inl (by omega)
      | false =>
        rw [if_neg (by rw [hraw]; exact Bool.false_ne_true)] at hspan hspan'
        exact .inr ⟨part, List.mem_cons_self, hraw, hspan, hspan'⟩
    · refine (ih (h.sublist (List.sublist_cons_self part parts)) _).imp fun {t u} hor => ?_
      exact hor.imp_right fun ⟨p, hp, hspans⟩ => ⟨p, List.mem_cons_of_mem part hp, hspans⟩
    · obtain ⟨before, p, after, hparts, hu⟩ := mem_tokensFrom.mp hu
      have hp : p ∈ parts := by
        rw [hparts]
        exact List.mem_append_right _ List.mem_cons_self
      have hfirst := (htokens t ht).inside (h.sourced part List.mem_cons_self)
      have hsecond := ((partTokens_spec _ p).1 u hu).inside
        (h.sourced p (List.mem_cons_of_mem part hp))
      have := hall p hp
      exact .inl (by omega)

/-- **The tokens of parts in the order of the source** tile their text. -/
theorem tiles_of_inOrder {leaf : Leaf} (h : InOrder unescape source leaf.parts) :
    Tiles unescape source leaf where
  value t ht := by
    obtain ⟨before, part, after, hparts, ht⟩ := mem_tokensFrom.mp ht
    rw [Nat.zero_add] at ht
    have htoken := (partTokens_spec _ part).1 t ht
    refine ⟨htoken.lt, ?_, htoken.space⟩
    rw [Leaf.text, hparts, slice_text htoken.lo htoken.lt.le htoken.hi, htoken.value]
  covered i hi hspace := by
    obtain ⟨t, ht, hlo, hhi⟩ := exists_tokensFrom 0 leaf.parts hi hspace
    rw [Nat.zero_add] at hlo hhi
    obtain ⟨k, hk⟩ : ∃ k : ℕ, (leafTokens leaf)[k]? = some t := List.mem_iff_getElem?.mp ht
    refine ⟨k, ⟨t, hk, hlo, hhi⟩, ?_⟩
    rintro l ⟨u, hl, hlo', hhi'⟩
    have hapart : (leafTokens leaf).Pairwise fun t u => t.logicalEnd ≤ u.logicalStart :=
      pairwise_tokensFrom 0 leaf.parts
    have hpairs := List.pairwise_iff_getElem.mp hapart
    obtain ⟨hlk, rfl⟩ := List.getElem?_eq_some_iff.mp hk
    obtain ⟨hll, rfl⟩ := List.getElem?_eq_some_iff.mp hl
    rcases Nat.lt_trichotomy l k with hlt | rfl | hlt
    · have := hpairs l k hll hlk hlt
      omega
    · rfl
    · have := hpairs k l hlk hll hlt
      omega
  apart := pairwise_tokensFrom 0 leaf.parts
  increasing := increasing_tokensFrom h 0
  cut t ht := by
    obtain ⟨before, part, after, hparts, ht⟩ := mem_tokensFrom.mp ht
    rw [Nat.zero_add] at ht
    have htoken := (partTokens_spec _ part).1 t ht
    have hpart : Sourced unescape source part := h.sourced part (by
      rw [hparts]
      exact List.mem_append_right _ List.mem_cons_self)
    exact ⟨(htoken.inside hpart).2.1, before, part, after, hparts, htoken.lo, htoken.hi,
      htoken.cut hpart⟩
  bounds k t hk := by
    obtain ⟨before, part, after, hparts, ht⟩ := mem_tokensFrom.mp (List.mem_of_getElem? hk)
    have htoken := (partTokens_spec _ part).1 t ht
    rw [rawBounds, if_neg (by omega), Nat.add_sub_cancel, hk, hparts]
    show Except.ok (boundsFrom t.logicalStart t.logicalEnd 0 (before ++ part :: after)) = _
    rw [boundsFrom_of_part htoken.lo htoken.lt htoken.hi, ← htoken.span]

/-- **The tokens of every leaf of every document** tile its text: those of one reference share its
bounds, and otherwise the bounds increase. -/
theorem leafTokens_tile {C : CaseTable} {calls : List (ℕ × PlanDiff.Token)}
    (hforward : Forward unescape source calls) {items : List PlanDiff.Item}
    (h : PlanDiff.parse unescape source (calls.map (·.2)) = .ok items) {leaf : Leaf}
    (hleaf : leaf ∈ collectLeaves C (documentRoot items)) : Tiles unescape source leaf :=
  tiles_of_inOrder (inOrder_leaf hforward h hleaf)

end Tiling

/-! ## A paragraph with a reference -/

def asciiLower : CaseTable where
  lowerChar c := [c.toLower]
  cased c := c.isAlpha
  ignorable _ := false
  lowerChar_ne_nil _ := List.cons_ne_nil _ _

/-- `html.unescape`, on `&amp;` and on text without a reference that stands for something. -/
def unescapeAmp (s : List Char) : List Char := if s = "&amp;".toList then ['&'] else s

/-- `<p>a &name; b</p>`. -/
def paragraph (name : String) : List Char := ("<p>a &" ++ name ++ "; b</p>").toList

/-- The calls that `HTMLParser` makes on it. -/
def paragraphCalls (name : String) : List (ℕ × PlanDiff.Token) :=
  [(0, .startTag ⟨1, 0⟩ "p" [] (some "<p>".toList)), (3, .data ⟨1, 3⟩ "a ".toList),
    (5, .entityRef ⟨1, 5⟩ name.toList), (name.length + 7, .data ⟨1, name.length + 7⟩ " b".toList),
    (name.length + 9, .endTag ⟨1, name.length + 9⟩ "p")]

/-- The element of the paragraph, with its reference decoded. -/
def paragraphNode (name decoded : String) : PlanDiff.Item :=
  .node ⟨"p", [], 0, 3⟩ (some (name.length + 9, name.length + 13))
    [.part ⟨3, 5, "a ".toList, true⟩, .part ⟨5, name.length + 7, decoded.toList, false⟩,
      .part ⟨name.length + 7, name.length + 9, " b".toList, true⟩]

def paragraphLeaf (name decoded : String) : Leaf :=
  ⟨paragraphNode name decoded, visibleParts (paragraphNode name decoded), true⟩

theorem leafTokens_tile_amp : ∃ leaf, leaf.text = "a & b".toList
    ∧ Tiles unescapeAmp (paragraph "amp") leaf :=
  ⟨paragraphLeaf "amp" "&", by decide, @leafTokens_tile unescapeAmp (paragraph "amp") asciiLower
    (paragraphCalls "amp") ⟨by decide, by decide, by decide⟩ [paragraphNode "amp" "&"] rfl
    (paragraphLeaf "amp" "&") (List.mem_singleton.mpr rfl)⟩

/-- **A reference that stands for nothing is three tokens with one place.** -/
theorem not_increasing_unknownReference : ∃ calls items leaf,
    Forward unescapeAmp (paragraph "foo") calls
      ∧ PlanDiff.parse unescapeAmp (paragraph "foo") (calls.map (·.2)) = .ok items
      ∧ leaf ∈ collectLeaves asciiLower (documentRoot items)
      ∧ ¬ (leafTokens leaf).Pairwise fun t u => t.rawStart < u.rawStart :=
  ⟨paragraphCalls "foo", [paragraphNode "foo" "&foo;"], paragraphLeaf "foo" "&foo;",
    ⟨by decide, by decide, by decide⟩, rfl, List.mem_singleton.mpr rfl, by decide⟩

end PlanLeaves
