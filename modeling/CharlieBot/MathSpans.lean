import Mathlib.Data.List.Infix
import Mathlib.Data.List.Sort

/-!
# Formulas in a page

The driver that prepares a page puts markup in the place of its formulas and copies the rest. What
is inside a tag, a comment or an element such as `code` is no text of the page: these ranges are
found one kind after another and merged, and only the runs between them are searched.

**The page is cut into pieces, and the markup is that of its formulas** (`prerenderMath_pieces`):
whatever the formulas become, protected text is copied, every formula that is found lies in one run,
and what is copied besides is where a run has none.
-/

namespace MathSpans

/-! ## Formulas -/

def isWs (c : Char) : Bool := c ∈ [' ', '\t', '\n', '\r', '\x0c', '\x0b']

def isDigit (c : Char) : Bool := '0' ≤ c && c ≤ '9'

/-- Where `$…$` ends, from a place behind a character on. -/
def inlineEnd (previous : Char) (j : ℕ) : List Char → Option ℕ
  | [] => none
  | '\\' :: rest => match rest with
    | [] => none
    | c :: rest => inlineEnd c (j + 2) rest
  | c :: rest =>
    if c = '\n' then none
    else if c ≠ '$' ∨ isWs previous ∨ previous = '$' ∨ rest.head?.any isDigit then
      inlineEnd c (j + 1) rest
    else some (j + 1)

def inlineDollar : List Char → Option ℕ
  | c :: next :: rest => if isWs next then none else inlineEnd c 1 (next :: rest)
  | _ => none

/-- Where `$$…$$` ends. -/
def displayDollar (j : ℕ) : List Char → Option ℕ
  | [] => none
  | c :: rest =>
    if c ≠ '$' then displayDollar (j + 1) rest
    else if rest.head? ≠ some '$' ∨ j = 2 then none else some (j + 2)

/-- Where `\(…\)` or `\[…\]` ends, by the character that closes it. -/
def bracket (close : Char) (singleLine : Bool) (j : ℕ) : List Char → Option ℕ
  | [] => none
  | '\\' :: rest => match rest with
    | [] => none
    | c :: rest =>
      if c ≠ close ∨ close = ']' ∧ rest.head? = some ']' then bracket close singleLine (j + 2) rest
      else if j = 2 then none else some (j + 2)
  | c :: rest => if c = '\n' ∧ singleLine then none else bracket close singleLine (j + 1) rest

/-- Where the formula at a position ends, and whether it is displayed. -/
def mathSpanAt (src : List Char) : Option (ℕ × Bool) :=
  match src with
  | '$' :: '$' :: rest => (displayDollar 2 rest).map (·, true)
  | '$' :: _ => (inlineDollar src).map (·, false)
  | '\\' :: '[' :: rest => (bracket ']' false 2 rest).map (·, true)
  | '\\' :: '(' :: rest => (bracket ')' true 2 rest).map (·, false)
  | _ => none

structure Span where
  start : ℕ
  stop : ℕ
  raw : List Char
  display : Bool

/-- `scanMathSpans`, from a position on. -/
def scanFrom (i : ℕ) : List Char → List Span
  | [] => []
  | c :: rest => match mathSpanAt (c :: rest) with
    | some (n + 1, display) => ⟨i, i + (c :: rest.take n).length, c :: rest.take n, display⟩
        :: scanFrom (i + (c :: rest.take n).length) (rest.drop n)
    -- what a backslash escapes opens no span
    | _ => if c = '\\' then scanFrom (i + 2) (rest.drop 1) else scanFrom (i + 1) rest
  termination_by rest => rest.length
  decreasing_by all_goals simp only [List.length_cons, List.length_drop]; omega

def contentOf (raw : List Char) : List Char :=
  if raw.take 2 = ['$', '$'] ∨ raw.head? = some '\\' then (raw.take (raw.length - 2)).drop 2
  else (raw.take (raw.length - 1)).drop 1

/-- `renderRun`, from a position on. -/
def renderFrom (render : List Char → Bool → List Char) (text : List Char) (cursor : ℕ) :
    List Span → List Char
  | [] => text.drop cursor
  | span :: spans => (text.take span.start).drop cursor
    ++ render (contentOf span.raw) span.display ++ renderFrom render text span.stop spans

/-! ## Ranges that are copied -/

/-- `\s`. -/
def isSpace (c : Char) : Bool :=
  c.toNat ∈ [0x20, 0xA0, 0x1680, 0x2028, 0x2029, 0x202F, 0x205F, 0x3000, 0xFEFF]
    || 9 ≤ c.toNat && c.toNat ≤ 13 || 0x2000 ≤ c.toNat && c.toNat ≤ 0x200A

/-- What is behind the first place of a text. -/
def behindText (needle : List Char) : List Char → Option (List Char)
  | [] => none
  | c :: rest => if needle.isPrefixOf (c :: rest) then some ((c :: rest).drop needle.length)
    else behindText needle rest

/-- `TAG_RE`, at a position: what is behind the match. -/
def tagAt : List Char → Option (List Char)
  | '<' :: rest => match (if rest.head? = some '/' then rest.tail else rest) with
    | c :: rest => if c.isAlpha then behindText ['>'] rest else none
    | [] => none
  | _ => none

/-- `COMMENT_RE`, at a position. -/
def commentAt (src : List Char) : Option (List Char) :=
  if "<!--".toList.isPrefixOf src then behindText "-->".toList (src.drop 4) else none

/-- What is behind a name, whatever the case of its letters. -/
def behindName (src name : List Char) : Option (List Char) :=
  if (src.take name.length).map Char.toLower = name then some (src.drop name.length) else none

/-- `PROTECTED_OPEN_RE`, at a position: the element's name. -/
def protectedOpenAt : List Char → Option (List Char)
  | '<' :: rest => (["script", "noscript", "style", "textarea", "pre", "code"].map
      String.toList).find? fun name => match behindName rest name with
    | some (c :: rest) => c = '>' || isSpace c && rest.contains '>'
    | _ => false
  | _ => none

/-- What is behind the closing tag of an element. -/
def behindClose (name : List Char) : List Char → Option (List Char)
  | [] => none
  | c :: rest =>
    match (if c = '<' ∧ rest.head? = some '/' then behindName rest.tail name else none).map
      (·.dropWhile isSpace) with
    | some ('>' :: behind) => some behind
    | _ => behindClose name rest

/-- A protected element; one that is not closed goes to the end. -/
def elementAt (src : List Char) : Option (List Char) :=
  (protectedOpenAt src).map fun name => (behindClose name src).getD []

/-- All matches from a position on, one behind the other. -/
def allMatches (behindAt : List Char → Option (List Char)) (i : ℕ) : List Char → List (ℕ × ℕ)
  | [] => []
  | c :: rest => match behindAt (c :: rest) with
    | some behind => if behind.length ≤ rest.length then
        (i, i + (rest.length + 1 - behind.length))
          :: allMatches behindAt (i + (rest.length + 1 - behind.length)) behind
      else allMatches behindAt (i + 1) rest
    | none => allMatches behindAt (i + 1) rest
  termination_by src => src.length
  decreasing_by all_goals simp only [List.length_cons]; omega

/-- What is protected, before it is merged. -/
def matchRanges (html : List Char) : List (ℕ × ℕ) :=
  allMatches elementAt 0 html ++ allMatches commentAt 0 html ++ allMatches tagAt 0 html

/-- Sorted ranges are merged, from the last range on that is known. -/
def mergeFrom (last : ℕ × ℕ) : List (ℕ × ℕ) → List (ℕ × ℕ)
  | [] => [last]
  | range :: ranges =>
    if range.1 ≤ last.2 then mergeFrom (last.1, max last.2 range.2) ranges
    else last :: mergeFrom range ranges

def protectedRanges (html : List Char) : List (ℕ × ℕ) :=
  match (matchRanges html).mergeSort (·.1 ≤ ·.1) with
  | [] => []
  | range :: ranges => mergeFrom range ranges

/-- `prerenderMath`, from a position on. -/
def prerenderFrom (render : List Char → Bool → List Char) (html : List Char) (cursor : ℕ) :
    List (ℕ × ℕ) → List Char
  | [] => renderFrom render (html.drop cursor) 0 (scanFrom 0 (html.drop cursor))
  | (start, stop) :: ranges =>
    let run := (html.take start).drop cursor
    renderFrom render run 0 (scanFrom 0 run) ++ (html.take stop).drop start
      ++ prerenderFrom render html stop ranges

def prerenderMath (render : List Char → Bool → List Char) (html : List Char) : List Char :=
  prerenderFrom render html 0 (protectedRanges html)

/-! ## Pieces -/

/-- **A piece of a page**: protected text, text in which no formula begins, or a formula. -/
inductive Piece where
  | copied (text : List Char)
  | plain (text : List Char)
  | formula (raw : List Char) (display : Bool)

def Piece.source : Piece → List Char
  | copied text | plain text | formula text _ => text

def Piece.rendered (render : List Char → Bool → List Char) : Piece → List Char
  | copied text | plain text => text
  | formula raw display => render (contentOf raw) display

def Covers (ranges : List (ℕ × ℕ)) (k : ℕ) : Prop := ∃ r ∈ ranges, r.1 ≤ k ∧ k < r.2

/-- **The run from a position on**, up to what is protected or to the end. -/
structure Run (html : List Char) (i : ℕ) (run : List Char) : Prop where
  isPrefix : run <+: html.drop i
  unprotected : ∀ k, i ≤ k → k < i + run.length → ¬ Covers (matchRanges html) k
  ends : i + run.length = html.length ∨ Covers (matchRanges html) (i + run.length)

/-- **What a piece says of the page**, at its position. -/
def Piece.Fits (html : List Char) (i : ℕ) : Piece → Prop
  | copied text => ∀ k, i ≤ k → k < i + text.length → Covers (matchRanges html) k
  | plain text => ∃ run, Run html i run ∧ text = run.take (if run.head? = some '\\' then 2 else 1)
    ∧ ∀ n d, mathSpanAt run ≠ some (n + 1, d)
  | formula raw display => ∃ run n, Run html i run ∧ raw = run.take (n + 1)
    ∧ mathSpanAt run = some (n + 1, display)

/-- Pieces that fit where they are. -/
def Laid (html : List Char) : ℕ → List Piece → Prop
  | _, [] => True
  | i, p :: pieces => p.Fits html i ∧ Laid html (i + p.source.length) pieces

theorem Laid.append {html : List Char} {i : ℕ} {ps qs : List Piece} (hp : Laid html i ps)
    (hq : Laid html (i + (ps.flatMap Piece.source).length) qs) : Laid html i (ps ++ qs) := by
  induction ps generalizing i with
  | nil => exact hq
  | cons p ps ih =>
    refine ⟨hp.1, ih hp.2 ?_⟩
    rwa [List.flatMap_cons, List.length_append, ← Nat.add_assoc] at hq

variable {html : List Char}

theorem Run.drop {base i : ℕ} {text : List Char} (h : Run html base text) (hi : i ≤ text.length) :
    Run html (base + i) (text.drop i) := by
  obtain ⟨⟨after, hafter⟩, hunprotected, hends⟩ := h
  have hlength : base + i + (text.drop i).length = base + text.length := by
    rw [List.length_drop]
    omega
  refine ⟨⟨after, ?_⟩, fun k hk hlt => hunprotected k (by omega) (by omega), by rwa [hlength]⟩
  rw [← List.drop_drop, ← hafter, List.drop_append_of_le_length hi]

theorem Run.at_cons {base i : ℕ} {c : Char} {text rest : List Char} (h : Run html base text)
    (hrest : text.drop i = c :: rest) : i < text.length ∧ Run html (base + i) (c :: rest) := by
  have hlt : i < text.length := Nat.lt_of_not_le fun hle => by
    rw [List.drop_eq_nil_of_le hle] at hrest
    cases hrest
  exact ⟨hlt, hrest ▸ h.drop (Nat.le_of_lt hlt)⟩

theorem drop_take_add {i cursor : ℕ} {text rest : List Char} (hrest : text.drop i = rest)
    (hcursor : cursor ≤ i) (hlt : i < text.length) (n : ℕ) :
    (text.take (i + n)).drop cursor = (text.take i).drop cursor ++ rest.take n := by
  rw [List.take_add, hrest, List.drop_append_of_le_length (by rw [List.length_take]; omega)]

/-- **A run is rendered piece by piece.** -/
theorem renderFrom_scanFrom {base i cursor : ℕ} {text rest : List Char} (hrun : Run html base text)
    (hrest : text.drop i = rest) (hcursor : cursor ≤ i) :
    ∃ ps : List Piece, ps.flatMap Piece.source = rest
      ∧ (∀ render, renderFrom render text cursor (scanFrom i rest)
        = (text.take i).drop cursor ++ ps.flatMap (Piece.rendered render))
      ∧ Laid html (base + i) ps := by
  fun_induction scanFrom i rest generalizing cursor with
  | case1 i =>
    refine ⟨[], rfl, fun render => ?_, trivial⟩
    rw [renderFrom, List.take_of_length_le (List.drop_eq_nil_iff.mp hrest), List.flatMap_nil,
      List.append_nil]
  | case2 i c rest n display hspan ih =>
    obtain ⟨-, hrunAt⟩ := hrun.at_cons hrest
    have hnext : text.drop (i + (c :: rest.take n).length) = rest.drop n := by
      rw [← List.drop_drop, hrest, List.length_cons, List.drop_succ_cons, List.length_take]
      rcases Nat.le_total n rest.length with h | h
      · rw [Nat.min_eq_left h]
      · rw [Nat.min_eq_right h, List.drop_length, List.drop_eq_nil_of_le h]
    obtain ⟨ps, hsource, hrendered, hlaid⟩ := ih hnext (Nat.le_refl _)
    refine ⟨.formula (c :: rest.take n) display :: ps, ?_, fun render => ?_, ?_, ?_⟩
    · rw [List.flatMap_cons, hsource, Piece.source, List.cons_append, List.take_append_drop]
    · rw [renderFrom, hrendered, List.drop_eq_nil_of_le (List.length_take_le _ _), List.nil_append,
        List.flatMap_cons, Piece.rendered, List.append_assoc]
    · exact ⟨c :: rest, n, hrunAt, rfl, hspan⟩
    · rwa [← Nat.add_assoc] at hlaid
  | case3 i rest hnone ih =>
    obtain ⟨hlt, hrunAt⟩ := hrun.at_cons hrest
    have hgrow := drop_take_add hrest hcursor hlt
    cases rest with
    | nil =>
      have hend : text.length ≤ i + 1 := by
        have hlength := congrArg List.length hrest
        rw [List.length_drop, List.length_singleton] at hlength
        omega
      refine ⟨[.plain ['\\']], rfl, fun render => ?_,
        ⟨['\\'], hrunAt, rfl, hnone⟩, trivial⟩
      have hcopied := hgrow 1
      rw [List.take_of_length_le hend] at hcopied
      rw [List.drop_nil, scanFrom, renderFrom, hcopied]
      rfl
    | cons next rest =>
      have hnext : text.drop (i + 2) = rest := by rw [← List.drop_drop, hrest]; rfl
      obtain ⟨ps, hsource, hrendered, hlaid⟩ := ih hnext (Nat.le_add_right_of_le hcursor)
      refine ⟨.plain ['\\', next] :: ps, ?_, fun render => ?_,
        ⟨'\\' :: next :: rest, hrunAt, rfl, hnone⟩, hlaid⟩
      · rw [List.flatMap_cons, hsource]
        rfl
      · rw [hrendered, hgrow, List.append_assoc]
        rfl
  | case4 i c rest hplain hnone ih =>
    obtain ⟨hlt, hrunAt⟩ := hrun.at_cons hrest
    have hnext : text.drop (i + 1) = rest := by rw [← List.drop_drop, hrest]; rfl
    obtain ⟨ps, hsource, hrendered, hlaid⟩ := ih hnext (Nat.le_add_right_of_le hcursor)
    refine ⟨.plain [c] :: ps, ?_, fun render => ?_, ⟨c :: rest, hrunAt, ?_, hnone⟩, hlaid⟩
    · rw [List.flatMap_cons, hsource]
      rfl
    · rw [hrendered, drop_take_add hrest hcursor hlt, List.append_assoc]
      rfl
    · rw [List.head?_cons, if_neg (mt Option.some.inj hplain)]
      rfl

/-! ## The ranges -/

theorem bounds_of_allMatches {behindAt : List Char → Option (List Char)} {i : ℕ} {src : List Char}
    {r : ℕ × ℕ} (h : r ∈ allMatches behindAt i src) : r.1 < r.2 ∧ r.2 ≤ i + src.length := by
  fun_induction allMatches behindAt i src with
  | case1 => cases h
  | case2 i c rest behind _ hle ih =>
    rw [List.length_cons]
    rcases List.mem_cons.mp h with rfl | h
    · dsimp only
      omega
    · have hrest := ih h
      omega
  | case3 i c rest behind _ hle ih =>
    have hrest := ih h
    rw [List.length_cons]
    omega
  | case4 i c rest _ ih =>
    have hrest := ih h
    rw [List.length_cons]
    omega

theorem covers_cons {r : ℕ × ℕ} {ranges : List (ℕ × ℕ)} {k : ℕ} :
    Covers (r :: ranges) k ↔ r.1 ≤ k ∧ k < r.2 ∨ Covers ranges k := by
  simp [Covers]

/-- **Merged ranges** are apart and cover what they covered. -/
theorem mergeFrom_spec {last : ℕ × ℕ} {ranges : List (ℕ × ℕ)}
    (hlt : ∀ r ∈ last :: ranges, r.1 < r.2)
    (hsorted : (last :: ranges).Pairwise fun a b => a.1 ≤ b.1) :
    (mergeFrom last ranges).Pairwise (fun a b => a.2 < b.1)
      ∧ (∀ r ∈ mergeFrom last ranges, last.1 ≤ r.1 ∧ r.1 < r.2)
      ∧ ∀ k, Covers (mergeFrom last ranges) k ↔ Covers (last :: ranges) k := by
  induction ranges generalizing last with
  | nil =>
    refine ⟨List.pairwise_singleton _ _, fun r hr => ?_, fun _ => Iff.rfl⟩
    obtain rfl := List.mem_singleton.mp hr
    exact ⟨Nat.le_refl _, hlt r List.mem_cons_self⟩
  | cons range ranges ih =>
    obtain ⟨hlast, hrange, hrest⟩ := List.forall_mem_cons.mp hlt |>.imp_right
      List.forall_mem_cons.mp
    obtain ⟨hle, hsorted⟩ := List.pairwise_cons.mp hsorted
    obtain ⟨hfirst, hle⟩ := List.forall_mem_cons.mp hle
    rw [mergeFrom]
    split
    · next hmerge =>
      obtain ⟨hapart, hbounds, hcovers⟩ := @ih (last.1, max last.2 range.2)
        (List.forall_mem_cons.mpr ⟨Nat.lt_of_lt_of_le hlast (Nat.le_max_left _ _), hrest⟩)
        (List.pairwise_cons.mpr ⟨hle, (List.pairwise_cons.mp hsorted).2⟩)
      refine ⟨hapart, hbounds, fun k => (hcovers k).trans ?_⟩
      rw [covers_cons, covers_cons, covers_cons, ← or_assoc]
      exact or_congr_left (by dsimp only; omega)
    · next hmerge =>
      obtain ⟨hapart, hbounds, hcovers⟩ := ih (List.forall_mem_cons.mpr ⟨hrange, hrest⟩) hsorted
      refine ⟨List.pairwise_cons.mpr ⟨fun r hr => ?_, hapart⟩,
        List.forall_mem_cons.mpr ⟨⟨Nat.le_refl _, hlast⟩, fun r hr => ?_⟩, fun k => ?_⟩
      · have hr := (hbounds r hr).1
        omega
      · exact ⟨hfirst.trans (hbounds r hr).1, (hbounds r hr).2⟩
      · rw [covers_cons, hcovers, ← covers_cons]

/-- **The protected ranges** are apart, in order, and cover what some match covers. -/
theorem protectedRanges_spec (html : List Char) :
    (protectedRanges html).Pairwise (fun a b => a.2 < b.1)
      ∧ (∀ r ∈ protectedRanges html, r.1 < r.2 ∧ r.2 ≤ html.length)
      ∧ ∀ k, Covers (protectedRanges html) k ↔ Covers (matchRanges html) k := by
  have hbounds : ∀ r ∈ matchRanges html, r.1 < r.2 ∧ r.2 ≤ html.length := by
    intro r hr
    rw [← Nat.zero_add html.length]
    rcases List.mem_append.mp hr with hr | hr
    · rcases List.mem_append.mp hr with hr | hr <;> exact bounds_of_allMatches hr
    · exact bounds_of_allMatches hr
  have hmem : ∀ r, r ∈ (matchRanges html).mergeSort (·.1 ≤ ·.1) ↔ r ∈ matchRanges html :=
    fun r => List.mem_mergeSort
  have hsorted : ((matchRanges html).mergeSort (·.1 ≤ ·.1)).Pairwise fun a b => a.1 ≤ b.1 :=
    (List.pairwise_mergeSort (by grind) (by grind) _).imp of_decide_eq_true
  have hspec : (protectedRanges html).Pairwise (fun a b => a.2 < b.1)
      ∧ (∀ r ∈ protectedRanges html, r.1 < r.2)
      ∧ ∀ k, Covers (protectedRanges html) k ↔ Covers (matchRanges html) k := by
    unfold protectedRanges
    split
    · next hnil =>
      rw [hnil] at hmem
      exact ⟨.nil, fun _ h => absurd h List.not_mem_nil, fun k =>
        exists_congr fun r => and_congr_left fun _ => hmem r⟩
    · next range ranges hcons =>
      rw [hcons] at hmem hsorted
      obtain ⟨hapart, hlt, hcovers⟩ := mergeFrom_spec
        (fun r hr => (hbounds r ((hmem r).mp hr)).1) hsorted
      exact ⟨hapart, fun r hr => (hlt r hr).2, fun k => (hcovers k).trans
        (exists_congr fun r => and_congr_left fun _ => hmem r)⟩
  refine ⟨hspec.1, fun r hr => ⟨hspec.2.1 r hr, ?_⟩, hspec.2.2⟩
  -- the last position of a range is in a match
  have hlt := hspec.2.1 r hr
  obtain ⟨m, hm, -, hlast⟩ := (hspec.2.2 (r.2 - 1)).mp ⟨r, hr, by omega, by omega⟩
  have hm := (hbounds m hm).2
  omega

/-! ## The page -/

theorem Run.of_range {start cursor : ℕ} (hcursor : cursor ≤ start) (hstart : start ≤ html.length)
    (hnone : ∀ k, cursor ≤ k → k < start → ¬ Covers (matchRanges html) k)
    (hends : start = html.length ∨ Covers (matchRanges html) start) :
    Run html cursor ((html.take start).drop cursor) := by
  have hlength : cursor + ((html.take start).drop cursor).length = start := by
    rw [List.length_drop, List.length_take]
    omega
  exact ⟨(List.take_prefix start html).drop cursor, by rwa [hlength], by rwa [hlength]⟩

theorem prerenderFrom_pieces {cursor : ℕ} {ranges : List (ℕ × ℕ)}
    (hapart : ranges.Pairwise fun a b => a.2 < b.1)
    (hbounds : ∀ r ∈ ranges, r.1 < r.2 ∧ r.2 ≤ html.length) (hcursor : ∀ r ∈ ranges, cursor ≤ r.1)
    (hle : cursor ≤ html.length)
    (hcovers : ∀ k, cursor ≤ k → (Covers (matchRanges html) k ↔ Covers ranges k)) :
    ∃ ps : List Piece, ps.flatMap Piece.source = html.drop cursor
      ∧ (∀ render, prerenderFrom render html cursor ranges = ps.flatMap (Piece.rendered render))
      ∧ Laid html cursor ps := by
  induction ranges generalizing cursor with
  | nil =>
    have hrun := Run.of_range hle (Nat.le_refl html.length)
      (fun k hk _ h => absurd ((hcovers k hk).mp h) fun ⟨_, hr, _⟩ => List.not_mem_nil hr) (.inl rfl)
    rw [List.take_length] at hrun
    exact renderFrom_scanFrom hrun rfl (Nat.le_refl 0)
  | cons range ranges ih =>
    obtain ⟨start, stop⟩ := range
    obtain ⟨hbehind, hapart⟩ := List.pairwise_cons.mp hapart
    obtain ⟨⟨hlt, hstop⟩, hbounds⟩ := List.forall_mem_cons.mp hbounds
    have hstart : cursor ≤ start := hcursor (start, stop) List.mem_cons_self
    have hcovered : ∀ k, start ≤ k → k < stop → Covers (matchRanges html) k := fun k hk hend =>
      (hcovers k (hstart.trans hk)).mpr ⟨_, List.mem_cons_self, hk, hend⟩
    have hrun := Run.of_range hstart (Nat.le_of_lt (Nat.lt_of_lt_of_le hlt hstop))
      (fun k hk hend h => by
        obtain ⟨r, hr, hfirst, -⟩ := (hcovers k hk).mp h
        rcases List.mem_cons.mp hr with rfl | hr
        · exact Nat.not_lt.mpr hfirst hend
        · have hr := hbehind r hr
          omega)
      (.inr (hcovered start (Nat.le_refl _) hlt))
    obtain ⟨before, hbefore, hrendered, hlaid⟩ := renderFrom_scanFrom hrun List.drop_zero
      (Nat.le_refl 0)
    obtain ⟨after, hafter, hrest, hlaidAfter⟩ := ih hapart hbounds
      (fun r hr => Nat.le_of_lt (hbehind r hr)) hstop fun k hk => by
        rw [hcovers k (by omega), covers_cons]
        exact or_iff_right fun h => Nat.not_lt.mpr hk h.2
    have hslice : (html.take stop).drop start ++ html.drop stop = html.drop start := by
      rw [← List.drop_append_of_le_length (by rw [List.length_take]; omega), List.take_append_drop]
    have hlength : start + ((html.take stop).drop start).length = stop := by
      rw [List.length_drop, List.length_take]
      omega
    have hbehindRun : cursor + (before.flatMap Piece.source).length = start := by
      rw [hbefore, List.length_drop, List.length_take]
      omega
    refine ⟨before ++ .copied ((html.take stop).drop start) :: after, ?_, fun render => ?_,
      hlaid.append ?_⟩
    · rw [List.flatMap_append, List.flatMap_cons, hbefore, hafter, Piece.source, hslice,
        ← List.drop_append_of_le_length (by rw [List.length_take]; omega),
        List.take_append_drop]
    · rw [prerenderFrom, hrendered, hrest, List.flatMap_append, List.flatMap_cons, Piece.rendered,
        List.take_zero, List.drop_nil, List.nil_append, List.append_assoc]
    · rw [Nat.add_zero, hbehindRun]
      refine ⟨fun k hk hend => hcovered k hk (hlength ▸ hend), ?_⟩
      rwa [Piece.source, hlength]

/-- **The page is cut into pieces, and only its formulas change.** -/
theorem prerenderMath_pieces (html : List Char) :
    ∃ ps : List Piece, ps.flatMap Piece.source = html
      ∧ (∀ render, prerenderMath render html = ps.flatMap (Piece.rendered render))
      ∧ Laid html 0 ps := by
  obtain ⟨hapart, hbounds, hcovers⟩ := protectedRanges_spec html
  exact prerenderFrom_pieces hapart hbounds (fun _ _ => Nat.zero_le _) (Nat.zero_le _)
    fun k _ => (hcovers k).symm

end MathSpans
