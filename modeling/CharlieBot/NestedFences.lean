import CharlieBot.Lib.Pieces
import CharlieBot.Lib.TextSearch
import Mathlib.Data.List.Forall2
import Mathlib.Data.List.TakeWhile

/-!
# Nested code fences

A code fence ends at the first bare fence of its character that is as long as it is, whatever was
meant to be inside. A draft with a fence in a fence is repaired before it is rendered: the fences
are matched with a stack, and an outer fence that is not longer than the fences within is made
longer, its closing line with it.

A text whose fences all match is a forest of them (`Forest`, `exists_forest`), and what the scanner
makes of it is said by recursion on that (`scan_forest`): a fence becomes as long as it has to be
for the opening lines within (`reach`). Only lengths change, and a second repair finds nothing to
do. But the scanner looks at how long the fences within open, not at how long they close: a closing
line may be longer than its opening line, and where it is not rewritten it may end the outer fence.
**Every outermost fence closes where it should exactly when no fence within it, of its character
and left as it is, has a closing line as long as the outer fence becomes** (`repaired_iff`).
-/

/-! ## Fence lines -/

/-- **A fence line**: a run of one of two characters, not indented by much. -/
structure Fence where
  indent : ℕ
  char : Char
  len : ℕ
  /-- What stands behind the run. -/
  tail : List Char
  indent_le : indent ≤ 3
  char_eq : char = '\x60' ∨ char = '~'
  len_ge : 3 ≤ len
  tail_ne : tail.head? ≠ some char
  deriving DecidableEq

namespace Fence

def line (f : Fence) : List Char :=
  List.replicate f.indent ' ' ++ (List.replicate f.len f.char ++ f.tail)

/-- The line with a run of another length. -/
def withLen (f : Fence) (n : ℕ) (h : 3 ≤ n) : Fence := { f with len := n, len_ge := h }

/-- A line terminator of the language, where `.` does not match. -/
def isLineTerminator (c : Char) : Bool :=
  c == '\n' || c == '\r' || c.toNat == 0x2028 || c.toNat == 0x2029

/-- A character that `trim` takes off. -/
def isTrimmed (c : Char) : Bool :=
  let n := c.toNat
  (9 ≤ n && n ≤ 13) || n == 32 || n == 160 || n == 5760 || (8192 ≤ n && n ≤ 8202)
    || n == 8232 || n == 8233 || n == 8239 || n == 8287 || n == 12288 || n == 65279

/-- No info string: what `(.*)` matches is blank. -/
def bare (f : Fence) : Bool := (f.tail.takeWhile fun c => !isLineTerminator c).all isTrimmed

def Closes (top f : Fence) : Prop := f.char = top.char ∧ top.len ≤ f.len ∧ f.bare = true

instance (top f : Fence) : Decidable (Closes top f) := inferInstanceAs (Decidable (_ ∧ _ ∧ _))

end Fence

theorem head?_dropWhile_ne (c : Char) (body : List Char) :
    (body.dropWhile (· == c)).head? ≠ some c := by
  intro h
  have hnot := List.head?_dropWhile_not (· == c) body
  rw [h] at hnot
  simp at hnot

/-- `line.match(FENCE_RE)`. -/
def fenceOf (line : List Char) : Option Fence :=
  let body := line.dropWhile (· == ' ')
  let char := body.headD ' '
  if h : (line.takeWhile (· == ' ')).length ≤ 3 ∧ (char = '\x60' ∨ char = '~')
      ∧ 3 ≤ (body.takeWhile (· == char)).length then
    some {
      indent := (line.takeWhile (· == ' ')).length
      char := char
      len := (body.takeWhile (· == char)).length
      tail := body.dropWhile (· == char)
      indent_le := h.1
      char_eq := h.2.1
      len_ge := h.2.2
      tail_ne := head?_dropWhile_ne char body }
  else none

namespace NestedFences

/-! ## The scanner -/

/-- An entry of the scanner's stack. -/
structure Open where
  line : ℕ
  char : Char
  len : ℕ
  maxInner : ℕ
  deriving DecidableEq

/-- The scanner's state: the stack, and the new lengths by line. -/
structure Scan where
  stack : List Open := []
  upgrades : ℕ → Option ℕ := fun _ => none

/-- `maxInner` of the innermost open fence, updated. -/
def raise (n : ℕ) : List Open → List Open
  | [] => []
  | parent :: below => { parent with maxInner := max parent.maxInner n } :: below

def scanLine (s : Scan) (i : ℕ) (line : List Char) : Scan :=
  match fenceOf line with
  | none => s
  | some f =>
    match s.stack with
    | [] => { s with stack := [⟨i, f.char, f.len, 0⟩] }
    | top :: below =>
      if f.char = top.char ∧ top.len ≤ f.len ∧ f.bare = true then
        let upgrades :=
          if 0 < top.maxInner ∧ top.len ≤ top.maxInner then
            Function.update (Function.update s.upgrades top.line (some (top.maxInner + 1)))
              i (some (top.maxInner + 1))
          else s.upgrades
        ⟨raise ((upgrades top.line).getD top.len) below, upgrades⟩
      else { s with stack := ⟨i, f.char, f.len, 0⟩ :: raise f.len (top :: below) }

/-- The scanner over lines, the first of them with a number. -/
def scanFrom (s : Scan) : ℕ → List (List Char) → Scan
  | _, [] => s
  | i, line :: lines => scanFrom (scanLine s i line) (i + 1) lines

/-- **`scanFences`**. -/
def scanFences (lines : List (List Char)) : Scan := scanFrom {} 0 lines

/-- A line with a new length, if one was set. -/
def rewriteLine (newLen : Option ℕ) (line : List Char) : List Char :=
  match newLen with
  | none => line
  | some n =>
    match fenceOf line with
    | none => line
    | some f => List.replicate f.indent ' ' ++ (List.replicate n f.char ++ f.tail)

/-- `applyFenceUpgrades`, before the lines are joined; each line is rewritten on its own. -/
def applyFenceUpgrades (lines : List (List Char)) (upgrades : ℕ → Option ℕ) :
    List (List Char) :=
  lines.mapIdx fun i line => rewriteLine (upgrades i) line

/-- `lines.join('\n')`. -/
def joinLines (lines : List (List Char)) : List Char := ['\n'].intercalate lines

/-- **`fixNestedFences`**. -/
def fixNestedFences (md : List Char) : List Char :=
  if !Text.contains ['\x60', '\x60', '\x60'] md && !Text.contains ['~', '~', '~'] md then md
  else
    let lines := md.splitOn '\n'
    joinLines (applyFenceUpgrades lines (scanFences lines).upgrades)

/-! ## What is asked of it -/

/-- The scanner matches every opening fence. -/
def Matched (md : List Char) : Prop := (scanFences (md.splitOn '\n')).stack = []

/-- The outermost fences that the scanner closes: where each opens and where it closes. -/
def outermostFrom (s : Scan) : ℕ → List (List Char) → List (ℕ × ℕ)
  | _, [] => []
  | i, line :: lines =>
    let s' := scanLine s i line
    (match s.stack, s'.stack with
      | [top], [] => [(top.line, i)]
      | _, _ => [])
      ++ outermostFrom s' (i + 1) lines

/-- **The flat reading**: a fence is closed by the first line behind it that closes it, and what is
in between opens nothing. -/
def flatFrom : Option (ℕ × Fence) → ℕ → List (List Char) → List (ℕ × ℕ)
  | _, _, [] => []
  | none, i, line :: lines => flatFrom ((fenceOf line).map (i, ·)) (i + 1) lines
  | some (o, top), i, line :: lines =>
    if (fenceOf line).any fun f => decide (top.Closes f) then
      (o, i) :: flatFrom none (i + 1) lines
    else flatFrom (some (o, top)) (i + 1) lines

/-- A line that differs in the length of its run at most. -/
def SameButLength (line line' : List Char) : Prop :=
  line' = line ∨ ∃ f n h, fenceOf line = some f ∧ line' = (f.withLen n h).line

/-- **The repair is right**: lengths alone change, the outermost fences close where the scanner
closed them, and another repair changes nothing. -/
structure Repaired (md : List Char) : Prop where
  lengths : List.Forall₂ SameButLength (md.splitOn '\n')
    ((fixNestedFences md).splitOn '\n')
  flat : flatFrom none 0 ((fixNestedFences md).splitOn '\n')
    = outermostFrom {} 0 (md.splitOn '\n')
  again : fixNestedFences (fixNestedFences md) = fixNestedFences md

/-! ## Forests of fences -/

/-- **Lines whose fences match**: other lines, and fences with what they hold. -/
inductive Forest
  | nil
  | text (line : List Char) (rest : Forest)
  | fence (opener : Fence) (body : Forest) (closer : Fence) (rest : Forest)

namespace Forest

def lines : Forest → List (List Char)
  | nil => []
  | text line rest => line :: rest.lines
  | fence opener body closer rest =>
    opener.line :: (body.lines ++ closer.line :: rest.lines)

/-- The forest is how its lines are read within a fence: an opening line does not close that fence,
and each fence is closed by its closing line. -/
def Reads : Option Fence → Forest → Prop
  | _, nil => True
  | top, text line rest => fenceOf line = none ∧ rest.Reads top
  | top, fence opener body closer rest =>
    (∀ t ∈ top, ¬ t.Closes opener) ∧ body.Reads (some opener) ∧ opener.Closes closer
      ∧ rest.Reads top

/-- How long the fences of a forest become, the longest of them. -/
def inner : Forest → ℕ
  | nil => 0
  | text _ rest => rest.inner
  | fence opener body _ rest => max (max opener.len (body.inner + 1)) rest.inner

/-- How long a fence becomes: longer than what it holds, and not shorter than it is. -/
def reach (opener : Fence) (body : Forest) : ℕ := max opener.len (body.inner + 1)

/-- The new lengths, line by line. -/
def marks : Forest → List (Option ℕ)
  | nil => []
  | text _ rest => none :: rest.marks
  | fence opener body _ rest =>
    let mark := if opener.len ≤ body.inner then some (body.inner + 1) else none
    mark :: (body.marks ++ mark :: rest.marks)

def fixed : Forest → Forest
  | nil => nil
  | text line rest => text line rest.fixed
  | fence opener body closer rest =>
    if h : opener.len ≤ body.inner then
      fence (opener.withLen (body.inner + 1) (opener.len_ge.trans (Nat.le_succ_of_le h))) body.fixed
        (closer.withLen (body.inner + 1) (opener.len_ge.trans (Nat.le_succ_of_le h))) rest.fixed
    else fence opener body.fixed closer rest.fixed

@[simp] theorem lines_fence (opener : Fence) (body : Forest) (closer : Fence) (rest : Forest) :
    (fence opener body closer rest).lines
      = opener.line :: (body.lines ++ closer.line :: rest.lines) := rfl

@[simp] theorem inner_fence (opener : Fence) (body : Forest) (closer : Fence) (rest : Forest) :
    (fence opener body closer rest).inner
      = max (max opener.len (body.inner + 1)) rest.inner := rfl

theorem fixed_of_le {opener : Fence} {body : Forest} (h : opener.len ≤ body.inner)
    (hge : 3 ≤ body.inner + 1) (closer : Fence) (rest : Forest) :
    (fence opener body closer rest).fixed = fence (opener.withLen (body.inner + 1) hge) body.fixed
      (closer.withLen (body.inner + 1) hge) rest.fixed := dif_pos h

theorem fixed_of_lt {opener : Fence} {body : Forest} (h : body.inner < opener.len)
    (closer : Fence) (rest : Forest) : (fence opener body closer rest).fixed
      = fence opener body.fixed closer rest.fixed := dif_neg (Nat.not_le.mpr h)

theorem three_le {opener : Fence} {body : Forest} (h : opener.len ≤ body.inner) :
    3 ≤ body.inner + 1 :=
  opener.len_ge.trans (Nat.le_succ_of_le h)

/-- The outermost fences, by the numbers of their lines. -/
def outermost : ℕ → Forest → List (ℕ × ℕ)
  | _, nil => []
  | i, text _ rest => rest.outermost (i + 1)
  | i, fence _ body _ rest =>
    (i, i + 1 + body.lines.length) :: rest.outermost (i + 1 + body.lines.length + 1)

/-- No fence of a character that keeps its lines closes with a run of some length. -/
def Below (char : Char) (n : ℕ) : Forest → Prop
  | nil => True
  | text _ rest => rest.Below char n
  | fence opener body closer rest =>
    (closer.char = char → body.inner < opener.len → closer.len < n) ∧ body.Below char n
      ∧ rest.Below char n

/-- **No outermost fence is closed by a line within it.** -/
def Clear : Forest → Prop
  | nil => True
  | text _ rest => rest.Clear
  | fence opener body _ rest => body.Below opener.char (reach opener body) ∧ rest.Clear

end Forest

/-! ## Lines and fences -/

end NestedFences

namespace Fence

theorem takeWhile_run {c : Char} {tail : List Char} (h : tail.head? ≠ some c) (n : ℕ) :
    (List.replicate n c ++ tail).takeWhile (· == c) = List.replicate n c := by
  induction n with
  | zero =>
    cases tail with
    | nil => rfl
    | cons d tail =>
      exact List.takeWhile_cons_of_neg fun hd => h (congrArg some (beq_iff_eq.mp hd))
  | succ n ih =>
    rw [List.replicate_succ, List.cons_append, List.takeWhile_cons_of_pos (by simp), ih]

theorem dropWhile_run {c : Char} {tail : List Char} (h : tail.head? ≠ some c) (n : ℕ) :
    (List.replicate n c ++ tail).dropWhile (· == c) = tail := by
  have hsplit := List.takeWhile_append_dropWhile (p := (· == c)) (l := List.replicate n c ++ tail)
  rw [takeWhile_run h] at hsplit
  exact List.append_cancel_left hsplit

theorem takeWhile_eq_run (c : Char) (l : List Char) :
    l.takeWhile (· == c) = List.replicate (l.takeWhile (· == c)).length c :=
  List.eq_replicate_of_mem fun x hx => by
    have hp := List.mem_takeWhile_imp hx
    exact beq_iff_eq.mp hp

theorem char_ne_space (f : Fence) : f.char ≠ ' ' := by
  rcases f.char_eq with h | h <;> rw [h] <;> decide

theorem head?_run (f : Fence) : (List.replicate f.len f.char ++ f.tail).head? = some f.char := by
  obtain ⟨n, hn⟩ := Nat.exists_eq_succ_of_ne_zero (show f.len ≠ 0 by have := f.len_ge; omega)
  rw [hn]
  rfl

/-- **A fence line is read as the fence it is.** -/
theorem fenceOf_line (f : Fence) : fenceOf f.line = some f := by
  have hhead : (List.replicate f.len f.char ++ f.tail).head? ≠ some ' ' := by
    rw [head?_run]
    exact fun h => f.char_ne_space (Option.some.inj h)
  have hindent : f.line.takeWhile (· == ' ') = List.replicate f.indent ' ' := takeWhile_run hhead _
  have hbody : f.line.dropWhile (· == ' ') = List.replicate f.len f.char ++ f.tail :=
    dropWhile_run hhead _
  have hchar : (List.replicate f.len f.char ++ f.tail).headD ' ' = f.char := by
    rw [List.headD_eq_head?_getD, head?_run]
    rfl
  have hrun := takeWhile_run f.tail_ne f.len
  have htail := dropWhile_run f.tail_ne f.len
  unfold fenceOf
  simp only [hindent, hbody, hchar, hrun, htail, List.length_replicate]
  exact dif_pos ⟨f.indent_le, f.char_eq, f.len_ge⟩

theorem line_of_fenceOf {line : List Char} {f : Fence} (h : fenceOf line = some f) :
    f.line = line := by
  unfold fenceOf at h
  dsimp only at h
  by_cases hfence : (line.takeWhile (· == ' ')).length ≤ 3
      ∧ ((line.dropWhile (· == ' ')).headD ' ' = '\x60'
        ∨ (line.dropWhile (· == ' ')).headD ' ' = '~')
      ∧ 3 ≤ ((line.dropWhile (· == ' ')).takeWhile
        (· == (line.dropWhile (· == ' ')).headD ' ')).length
  · rw [dif_pos hfence] at h
    obtain rfl := Option.some.inj h
    show List.replicate _ ' ' ++ (List.replicate _ _ ++ _) = line
    rw [← takeWhile_eq_run, ← takeWhile_eq_run, List.takeWhile_append_dropWhile,
      List.takeWhile_append_dropWhile]
  · rw [dif_neg hfence] at h
    cases h

@[simp] theorem withLen_len (f : Fence) (n : ℕ) (h : 3 ≤ n) : (f.withLen n h).len = n := rfl

@[simp] theorem withLen_char (f : Fence) (n : ℕ) (h : 3 ≤ n) : (f.withLen n h).char = f.char := rfl

@[simp] theorem withLen_bare (f : Fence) (n : ℕ) (h : 3 ≤ n) : (f.withLen n h).bare = f.bare := rfl

end Fence

namespace NestedFences

theorem rewriteLine_line (f : Fence) (n : ℕ) (h : 3 ≤ n) :
    rewriteLine (some n) f.line = (f.withLen n h).line := by
  unfold rewriteLine
  rw [f.fenceOf_line]
  rfl

/-! ## The scanner on a forest -/

/-- New lengths put over others, from a line on. -/
def overlay (u : ℕ → Option ℕ) (i : ℕ) (ms : List (Option ℕ)) : ℕ → Option ℕ := fun k =>
  if i ≤ k ∧ k < i + ms.length then ms[k - i]?.join else u k

theorem overlay_nil (u : ℕ → Option ℕ) (i : ℕ) : overlay u i [] = u := by
  funext k
  exact if_neg (by rw [List.length_nil]; omega)

theorem overlay_append (u : ℕ → Option ℕ) (i : ℕ) (ms ms' : List (Option ℕ)) :
    overlay u i (ms ++ ms') = overlay (overlay u i ms) (i + ms.length) ms' := by
  funext k
  unfold overlay
  rw [List.length_append]
  by_cases hbelow : k < i
  · rw [if_neg (by omega), if_neg (by omega), if_neg (by omega)]
  · by_cases hfirst : k < i + ms.length
    · rw [if_pos (by omega), if_neg (by omega), if_pos (by omega),
        List.getElem?_append_left (by omega)]
    · by_cases hsecond : k < i + (ms.length + ms'.length)
      · rw [if_pos (by omega), if_pos (by omega), List.getElem?_append_right (by omega),
          show k - i - ms.length = k - (i + ms.length) by omega]
      · rw [if_neg (by omega), if_neg (by omega), if_neg (by omega)]

theorem overlay_cons (u : ℕ → Option ℕ) (i : ℕ) (m : Option ℕ) (ms : List (Option ℕ)) :
    overlay u i (m :: ms) = overlay (Function.update u i m) (i + 1) ms := by
  have hone : overlay u i [m] = Function.update u i m := by
    funext k
    unfold overlay
    by_cases hk : k = i
    · subst hk
      rw [if_pos (by simp), Function.update_self, Nat.sub_self]
      rfl
    · rw [if_neg (by rw [List.length_singleton]; omega), Function.update_of_ne hk]
  rw [← hone, ← List.singleton_append, overlay_append]
  rfl

theorem overlay_of_notMem {u : ℕ → Option ℕ} {i k : ℕ} {ms : List (Option ℕ)}
    (h : k < i ∨ i + ms.length ≤ k) : overlay u i ms k = u k :=
  if_neg (by omega)

theorem overlay_update {u : ℕ → Option ℕ} {i k : ℕ} {ms : List (Option ℕ)} {m : Option ℕ}
    (h : k < i ∨ i + ms.length ≤ k) :
    overlay (Function.update u k m) i ms = Function.update (overlay u i ms) k m := by
  funext j
  by_cases hj : j = k
  · subst hj
    rw [overlay_of_notMem h, Function.update_self, Function.update_self]
  · rw [Function.update_of_ne hj]
    unfold overlay
    rw [Function.update_of_ne hj]

theorem overlay_none {u : ℕ → Option ℕ} {i : ℕ} (h : u i = none) (ms : List (Option ℕ)) :
    overlay u i (none :: ms) = overlay u (i + 1) ms := by
  rw [overlay_cons, ← h, Function.update_eq_self]

@[simp] theorem raise_zero (stack : List Open) : raise 0 stack = stack := by
  cases stack with
  | nil => rfl
  | cons o below => simp [raise]

theorem raise_raise (m n : ℕ) (stack : List Open) :
    raise m (raise n stack) = raise (max n m) stack := by
  cases stack with
  | nil => rfl
  | cons o below => simp [raise, Nat.max_assoc]

/-- The innermost open fence, as the scanner keeps it. -/
def OnTop (top : Option Fence) (stack : List Open) : Prop :=
  stack.head?.map (fun o => (o.char, o.len)) = top.map fun t => (t.char, t.len)

theorem OnTop.raise {top : Option Fence} {stack : List Open} (h : OnTop top stack) (n : ℕ) :
    OnTop top (raise n stack) := by
  cases stack with
  | nil => exact h
  | cons o below => exact h

theorem OnTop.eq_nil {stack : List Open} : OnTop none stack ↔ stack = [] := by
  unfold OnTop
  rw [Option.map_none, Option.map_eq_none_iff, List.head?_eq_none_iff]

theorem OnTop.eq_cons {t : Fence} {stack : List Open} (h : OnTop (some t) stack) :
    ∃ o below, stack = o :: below ∧ o.char = t.char ∧ o.len = t.len := by
  cases stack with
  | nil => cases h
  | cons o below =>
    have heq := Option.some.inj h
    exact ⟨o, below, rfl, congrArg Prod.fst heq, congrArg Prod.snd heq⟩

theorem OnTop.ne_nil {t : Fence} {stack : List Open} (h : OnTop (some t) stack) : stack ≠ [] := by
  obtain ⟨o, below, rfl, -⟩ := h.eq_cons
  exact List.cons_ne_nil o below

theorem scanLine_open {top : Option Fence} {s : Scan} (htop : OnTop top s.stack) {f : Fence}
    (h : ∀ t ∈ top, ¬ t.Closes f) (i : ℕ) :
    scanLine s i f.line = ⟨⟨i, f.char, f.len, 0⟩ :: raise f.len s.stack, s.upgrades⟩ := by
  obtain ⟨stack, upgrades⟩ := s
  unfold scanLine
  rw [f.fenceOf_line]
  cases stack with
  | nil => rfl
  | cons o below =>
    cases top with
    | none => cases htop
    | some t =>
      obtain ⟨o', below', heq, hchar, hlen⟩ := htop.eq_cons
      obtain ⟨rfl, rfl⟩ := List.cons.inj heq
      exact if_neg fun hcloses => h t rfl ⟨hcloses.1.trans hchar, hlen ▸ hcloses.2.1, hcloses.2.2⟩

theorem scanLine_close {o : Open} {below : List Open} {u : ℕ → Option ℕ} {f : Fence}
    (hchar : f.char = o.char) (hlen : o.len ≤ f.len) (hbare : f.bare = true) (hpos : 0 < o.len)
    (hfree : u o.line = none) (i : ℕ) :
    scanLine ⟨o :: below, u⟩ i f.line = ⟨raise (max o.len (o.maxInner + 1)) below,
      if o.len ≤ o.maxInner then Function.update
        (Function.update u o.line (some (o.maxInner + 1))) i (some (o.maxInner + 1)) else u⟩ := by
  unfold scanLine
  rw [f.fenceOf_line]
  dsimp only
  rw [if_pos ⟨hchar, hlen, hbare⟩]
  by_cases hinner : o.len ≤ o.maxInner
  · have hmark : Function.update (Function.update u o.line (some (o.maxInner + 1))) i
        (some (o.maxInner + 1)) o.line = some (o.maxInner + 1) := by
      by_cases hline : o.line = i
      · rw [hline, Function.update_self]
      · rw [Function.update_of_ne hline, Function.update_self]
    rw [if_pos ⟨by omega, hinner⟩, if_pos hinner, hmark, Nat.max_eq_right (by omega)]
    rfl
  · rw [if_neg fun h => hinner h.2, if_neg hinner, hfree, Nat.max_eq_left (by omega)]
    rfl

theorem scanLine_text {line : List Char} (h : fenceOf line = none) (s : Scan) (i : ℕ) :
    scanLine s i line = s := by
  unfold scanLine
  rw [h]

theorem scanFrom_append (s : Scan) (i : ℕ) (ls ms : List (List Char)) :
    scanFrom s i (ls ++ ms) = scanFrom (scanFrom s i ls) (i + ls.length) ms := by
  induction ls generalizing s i with
  | nil => rfl
  | cons line ls ih =>
    rw [List.cons_append, scanFrom, scanFrom, ih, List.length_cons, Nat.add_assoc,
      Nat.add_comm 1]

namespace Forest

theorem length_marks (F : Forest) : F.marks.length = F.lines.length := by
  induction F with
  | nil => rfl
  | text line rest ih => exact congrArg (· + 1) ih
  | fence opener body closer rest ihbody ihrest =>
    show (_ :: (body.marks ++ _ :: rest.marks)).length = _
    rw [lines_fence, List.length_cons, List.length_append, List.length_cons, List.length_cons,
      List.length_append, List.length_cons, ihbody, ihrest]

def closed (s : Scan) (i : ℕ) (opener : Fence) (body : Forest) : Scan :=
  ⟨raise (max opener.len (body.inner + 1)) s.stack,
    if opener.len ≤ body.inner then Function.update (Function.update
      (overlay s.upgrades (i + 1) body.marks) i (some (body.inner + 1)))
      (i + 1 + body.lines.length) (some (body.inner + 1))
    else overlay s.upgrades (i + 1) body.marks⟩

section Closed

variable {s : Scan} {i : ℕ} (hfree : ∀ k, i ≤ k → s.upgrades k = none)
include hfree

theorem overlay_free {body : Forest} {k : ℕ} (h : k = i ∨ i + 1 + body.lines.length ≤ k) :
    overlay s.upgrades (i + 1) body.marks k = none := by
  rw [overlay_of_notMem (by rw [length_marks]; omega), hfree k (by omega)]

theorem closed_free (opener : Fence) (body : Forest) (k : ℕ)
    (hk : i + 1 + body.lines.length + 1 ≤ k) : (closed s i opener body).upgrades k = none := by
  unfold closed
  dsimp only
  split
  · rw [Function.update_of_ne (by omega), Function.update_of_ne (by omega),
      overlay_free hfree (.inr (by omega))]
  · exact overlay_free hfree (.inr (by omega))

theorem scanLine_closer {opener : Fence} {body : Forest} {closer : Fence}
    (hclose : opener.Closes closer) :
    scanLine ⟨raise body.inner (⟨i, opener.char, opener.len, 0⟩ :: raise opener.len s.stack),
        overlay s.upgrades (i + 1) body.marks⟩ (i + 1 + body.lines.length) closer.line
      = closed s i opener body := by
  have hcloses := @scanLine_close ⟨i, opener.char, opener.len, max 0 body.inner⟩
    (raise opener.len s.stack) (overlay s.upgrades (i + 1) body.marks) closer hclose.1 hclose.2.1
    hclose.2.2 (Nat.lt_of_lt_of_le (by decide) opener.len_ge)
    (overlay_free hfree (.inl rfl)) (i + 1 + body.lines.length)
  dsimp only at hcloses
  rw [raise_raise, Nat.zero_max, ← Nat.max_assoc, Nat.max_self] at hcloses
  exact hcloses

theorem overlay_closed (opener : Fence) (body : Forest) (closer : Fence) (rest : Forest) :
    overlay (closed s i opener body).upgrades (i + 1 + body.lines.length + 1) rest.marks
      = overlay s.upgrades i (fence opener body closer rest).marks := by
  have hend : i + 1 + body.marks.length = i + 1 + body.lines.length := by
    rw [length_marks]
  show _ = overlay s.upgrades i
    ((if opener.len ≤ body.inner then some (body.inner + 1) else none) :: (body.marks
      ++ (if opener.len ≤ body.inner then some (body.inner + 1) else none) :: rest.marks))
  rw [overlay_cons, overlay_append, overlay_update (.inl (Nat.lt_add_one i)), hend, overlay_cons]
  unfold closed
  by_cases hinner : opener.len ≤ body.inner
  · simp only [if_pos hinner]
  · have hopener : overlay s.upgrades (i + 1) body.marks i = none := overlay_free hfree (.inl rfl)
    have hcloser : overlay s.upgrades (i + 1) body.marks (i + 1 + body.lines.length) = none :=
      overlay_free hfree (.inr le_rfl)
    have hstays : Function.update (overlay s.upgrades (i + 1) body.marks) i none
        = overlay s.upgrades (i + 1) body.marks := Function.update_eq_self_iff.mpr hopener.symm
    simp only [if_neg hinner]
    rw [hstays, Function.update_eq_self_iff.mpr hcloser.symm]

end Closed

/-- **What the scanner makes of a forest**: the fence around it hears of the longest fence, and the
new lengths are noted. -/
theorem scanFrom_lines (F : Forest) {top : Option Fence} (h : F.Reads top) {s : Scan}
    (htop : OnTop top s.stack) {i : ℕ} (hfree : ∀ k, i ≤ k → s.upgrades k = none) :
    scanFrom s i F.lines = ⟨raise F.inner s.stack, overlay s.upgrades i F.marks⟩ := by
  induction F generalizing top s i with
  | nil =>
    unfold marks inner lines
    rw [overlay_nil, raise_zero]
    rfl
  | text line rest ih =>
    unfold marks inner lines
    rw [scanFrom, scanLine_text h.1, ih h.2 htop fun k hk => hfree k (by omega),
      overlay_none (hfree i le_rfl)]
  | fence opener body closer rest ihbody ihrest =>
    obtain ⟨hopen, hbody, hclose, hrest⟩ := h
    have hscan := ihbody (s := ⟨⟨i, opener.char, opener.len, 0⟩ :: raise opener.len s.stack,
      s.upgrades⟩) (i := i + 1) hbody rfl fun k hk => hfree k (by omega)
    rw [lines_fence, scanFrom, scanLine_open htop hopen, scanFrom_append, hscan, scanFrom,
      scanLine_closer hfree hclose, ihrest hrest (htop.raise _) (closed_free hfree opener body),
      overlay_closed hfree opener body closer]
    refine congrArg (Scan.mk · _) ?_
    show raise rest.inner (raise (max opener.len (body.inner + 1)) s.stack) = _
    rw [raise_raise, inner_fence]

/-! ## The repaired forest -/

theorem zipWith_marks (F : Forest) : List.zipWith rewriteLine F.marks F.lines = F.fixed.lines := by
  induction F with
  | nil => rfl
  | text line rest ih => exact congrArg (line :: ·) ih
  | fence opener body closer rest ihbody ihrest =>
    show List.zipWith rewriteLine (_ :: (body.marks ++ _ :: rest.marks)) _ = _
    rw [lines_fence, List.zipWith_cons_cons, List.zipWith_append (length_marks body),
      List.zipWith_cons_cons, ihbody, ihrest]
    by_cases h : opener.len ≤ body.inner
    · have hge := three_le h
      rw [if_pos h, fixed_of_le h hge, lines_fence, rewriteLine_line opener _ hge,
        rewriteLine_line closer _ hge]
    · rw [if_neg h, fixed_of_lt (Nat.not_le.mp h), lines_fence]
      rfl

theorem sameButLength_fixed (F : Forest) : List.Forall₂ SameButLength F.lines F.fixed.lines := by
  induction F with
  | nil => exact .nil
  | text line rest ih => exact .cons (.inl rfl) ih
  | fence opener body closer rest ihbody ihrest =>
    by_cases h : opener.len ≤ body.inner
    · have hge := three_le h
      rw [fixed_of_le h hge, lines_fence, lines_fence]
      exact .cons (.inr ⟨opener, _, hge, opener.fenceOf_line, rfl⟩)
        (List.rel_append ihbody (.cons (.inr ⟨closer, _, hge, closer.fenceOf_line, rfl⟩) ihrest))
    · rw [fixed_of_lt (Nat.not_le.mp h), lines_fence, lines_fence]
      exact .cons (.inl rfl) (List.rel_append ihbody (.cons (.inl rfl) ihrest))

theorem inner_fixed (F : Forest) : F.fixed.inner = F.inner := by
  induction F with
  | nil => rfl
  | text line rest ih => exact ih
  | fence opener body closer rest ihbody ihrest =>
    by_cases h : opener.len ≤ body.inner
    · rw [fixed_of_le h (three_le h), inner_fence, inner_fence, ihbody, ihrest, Fence.withLen_len,
        Nat.max_self, Nat.max_eq_right (Nat.le_succ_of_le h)]
    · rw [fixed_of_lt (Nat.not_le.mp h), inner_fence, inner_fence, ihbody, ihrest]

/-- **A repair that is made again** finds nothing to do. -/
theorem fixed_fixed (F : Forest) : F.fixed.fixed = F.fixed := by
  induction F with
  | nil => rfl
  | text line rest ih => exact congrArg (text line) ih
  | fence opener body closer rest ihbody ihrest =>
    by_cases h : opener.len ≤ body.inner
    · rw [fixed_of_le h (three_le h),
        fixed_of_lt (by rw [inner_fixed, Fence.withLen_len]; exact Nat.lt_succ_self _), ihbody,
        ihrest]
    · have hlt := Nat.not_le.mp h
      rw [fixed_of_lt hlt, fixed_of_lt (by rwa [inner_fixed]), ihbody, ihrest]

theorem reads_fixed (F : Forest) {top top' : Option Fence} (h : F.Reads top)
    (hlt : ∀ t ∈ top', F.inner < t.len) : F.fixed.Reads top' := by
  induction F generalizing top top' with
  | nil => trivial
  | text line rest ih => exact ⟨h.1, ih h.2 hlt⟩
  | fence opener body closer rest ihbody ihrest =>
    obtain ⟨-, hbody, hclose, hrest⟩ := h
    have hreach : ∀ t ∈ top', opener.len < t.len ∧ body.inner + 1 < t.len ∧ rest.inner < t.len := by
      intro t ht
      have hinner := hlt t ht
      rw [inner_fence] at hinner
      omega
    by_cases hinner : opener.len ≤ body.inner
    · rw [fixed_of_le hinner (three_le hinner)]
      refine ⟨fun t ht hcloses => ?_, ihbody hbody fun t ht => ?_, ⟨hclose.1, le_rfl, hclose.2.2⟩,
        ihrest hrest fun t ht => (hreach t ht).2.2⟩
      · exact absurd hcloses.2.1 (Nat.not_le.mpr (hreach t ht).2.1)
      · rw [← Option.some.inj ht]
        exact Nat.lt_succ_self _
    · rw [fixed_of_lt (Nat.not_le.mp hinner)]
      refine ⟨fun t ht hcloses => ?_, ihbody hbody fun t ht => ?_, hclose,
        ihrest hrest fun t ht => (hreach t ht).2.2⟩
      · exact absurd hcloses.2.1 (Nat.not_le.mpr (hreach t ht).1)
      · rw [← Option.some.inj ht]
        exact Nat.not_le.mp hinner

end Forest

theorem applyFenceUpgrades_overlay {lines : List (List Char)} {ms : List (Option ℕ)}
    (h : ms.length = lines.length) :
    applyFenceUpgrades lines (overlay (fun _ => none) 0 ms)
      = List.zipWith rewriteLine ms lines := by
  unfold applyFenceUpgrades
  refine List.ext_getElem (by rw [List.length_mapIdx, List.length_zipWith, h, Nat.min_self]) ?_
  intro k hk hk'
  rw [List.length_mapIdx] at hk
  rw [List.getElem_mapIdx, List.getElem_zipWith]
  refine congrArg (rewriteLine · lines[k]) ?_
  unfold overlay
  rw [if_pos (by omega), Nat.sub_zero, List.getElem?_eq_getElem (h ▸ hk)]
  rfl

/-! ## A text and its lines -/

theorem joinLines_splitOn (md : List Char) : joinLines (md.splitOn '\n') = md :=
  List.intercalate_splitOn '\n'

theorem splitOn_joinLines {lines : List (List Char)} (hclean : ∀ line ∈ lines, '\n' ∉ line)
    (hne : lines ≠ []) : (joinLines lines).splitOn '\n' = lines :=
  List.splitOn_intercalate '\n' hclean hne

theorem isInfix_of_fenceOf {line : List Char} {f : Fence} (h : fenceOf line = some f) :
    List.replicate 3 f.char <:+: line := by
  obtain ⟨n, hn⟩ := Nat.exists_eq_add_of_le f.len_ge
  refine ⟨List.replicate f.indent ' ', List.replicate n f.char ++ f.tail, ?_⟩
  rw [← Fence.line_of_fenceOf h, Fence.line, hn, List.replicate_add]
  simp only [List.append_assoc]

/-- **A text without a run of three** has no fences. -/
theorem fenceOf_eq_none {md : List Char}
    (h : (!Text.contains ['\x60', '\x60', '\x60'] md && !Text.contains ['~', '~', '~'] md) = true)
    {line : List Char} (hline : line ∈ md.splitOn '\n') : fenceOf line = none := by
  cases hfence : fenceOf line with
  | none => rfl
  | some f =>
    have hinfix := (isInfix_of_fenceOf hfence).trans (List.isInfix_of_mem_splitOn hline)
    rw [Bool.and_eq_true, Bool.not_eq_true', Bool.not_eq_true', ← Bool.not_eq_true,
      ← Bool.not_eq_true, Text.contains_iff, Text.contains_iff] at h
    rcases f.char_eq with hchar | hchar
    · rw [hchar] at hinfix
      exact absurd hinfix h.1
    · rw [hchar] at hinfix
      exact absurd hinfix h.2

theorem scanFrom_of_none {lines : List (List Char)} (h : ∀ line ∈ lines, fenceOf line = none)
    (s : Scan) (i : ℕ) : scanFrom s i lines = s := by
  induction lines generalizing i with
  | nil => rfl
  | cons line lines ih =>
    obtain ⟨hline, hlines⟩ := List.forall_mem_cons.mp h
    rw [scanFrom, scanLine_text hline, ih hlines]

theorem fixNestedFences_eq (md : List Char) : fixNestedFences md
    = joinLines (applyFenceUpgrades (md.splitOn '\n') (scanFences (md.splitOn '\n')).upgrades) := by
  unfold fixNestedFences
  split
  · next hshort =>
    have hnone : applyFenceUpgrades (md.splitOn '\n') (fun _ => none) = md.splitOn '\n' :=
      List.ext_getElem List.length_mapIdx fun _ _ _ => List.getElem_mapIdx
    unfold scanFences
    rw [scanFrom_of_none fun line hline => fenceOf_eq_none hshort hline]
    exact ((congrArg joinLines hnone).trans (joinLines_splitOn md)).symm
  · rfl

theorem SameButLength.notMem {line line' : List Char} (h : SameButLength line line')
    (hline : '\n' ∉ line) : '\n' ∉ line' := by
  rcases h with rfl | ⟨f, n, hge, hfence, rfl⟩
  · exact hline
  · have hchar : '\n' ≠ f.char := by
      rcases f.char_eq with h | h <;> rw [h] <;> decide
    rw [← Fence.line_of_fenceOf hfence] at hline
    unfold Fence.line at hline ⊢
    simp only [List.mem_append, List.mem_replicate, not_or, not_and] at hline ⊢
    exact ⟨fun _ => by decide, fun _ => hchar, hline.2.2⟩

theorem notMem_of_sameButLength {lines lines' : List (List Char)}
    (h : List.Forall₂ SameButLength lines lines') (hclean : ∀ line ∈ lines, '\n' ∉ line) :
    ∀ line' ∈ lines', '\n' ∉ line' := by
  induction h with
  | nil => exact hclean
  | cons hsame _ ih =>
    obtain ⟨hline, hlines⟩ := List.forall_mem_cons.mp hclean
    exact List.forall_mem_cons.mpr ⟨hsame.notMem hline, ih hlines⟩

/-- **The repair of a text** is that of the forest its lines are. -/
theorem splitOn_fixNestedFences {md : List Char} {F : Forest} (h : F.Reads none)
    (hlines : F.lines = md.splitOn '\n') :
    (fixNestedFences md).splitOn '\n' = F.fixed.lines := by
  have hscan := F.scanFrom_lines h (s := {}) (OnTop.eq_nil.mpr rfl) (i := 0) fun _ _ => rfl
  have hupgrades : (scanFences (md.splitOn '\n')).upgrades = overlay (fun _ => none) 0 F.marks := by
    unfold scanFences
    rw [← hlines, hscan]
  have hlength := F.sameButLength_fixed.length_eq
  rw [fixNestedFences_eq, hupgrades, ← hlines, applyFenceUpgrades_overlay F.length_marks,
    F.zipWith_marks]
  refine splitOn_joinLines (notMem_of_sameButLength F.sameButLength_fixed ?_) fun hnil => ?_
  · rw [hlines]
    exact fun line hline => List.not_mem_of_mem_splitOn hline
  · rw [hnil, hlines] at hlength
    exact List.splitOn_ne_nil '\n' md (List.length_eq_zero_iff.mp hlength)

/-! ## Every text whose fences match is a forest -/

/-- **What closes the open fences**, the innermost first: lines that match, and its closing line. -/
inductive Unwinds : List Fence → List (List Char) → Prop
  | done {F : Forest} (h : F.Reads none) : Unwinds [] F.lines
  | close {F : Forest} {t c : Fence} {ts : List Fence} {rest : List (List Char)}
    (h : F.Reads (some t)) (hclose : t.Closes c) (hrest : Unwinds ts rest) :
    Unwinds (t :: ts) (F.lines ++ c.line :: rest)

theorem Unwinds.text {ts : List Fence} {lines : List (List Char)} (h : Unwinds ts lines)
    {line : List Char} (hline : fenceOf line = none) : Unwinds ts (line :: lines) := by
  cases h with
  | @done F hF => exact @Unwinds.done (.text line F) ⟨hline, hF⟩
  | @close F _ _ _ _ hF hclose hrest =>
    exact @Unwinds.close (.text line F) _ _ _ _ ⟨hline, hF⟩ hclose hrest

theorem Unwinds.fence {f : Fence} {ts : List Fence} {lines : List (List Char)}
    (h : Unwinds (f :: ts) lines) (hopen : ∀ t ∈ ts.head?, ¬ t.Closes f) :
    Unwinds ts (f.line :: lines) := by
  cases h with
  | @close body _ closer _ _ hbody hclose hrest =>
    cases hrest with
    | @done F hF =>
      exact @Unwinds.done (.fence f body closer F) ⟨hopen, hbody, hclose, hF⟩
    | @close F t c ts rest hF hclose' hrest' =>
      have hunwinds := @Unwinds.close (.fence f body closer F) t c ts rest
        ⟨hopen, hbody, hclose, hF⟩ hclose' hrest'
      rw [Forest.lines_fence, List.cons_append, List.append_assoc] at hunwinds
      exact hunwinds

/-- The open fences, as the scanner keeps them. -/
def Keeps (ts : List Fence) (stack : List Open) : Prop :=
  stack.map (fun o => (o.char, o.len)) = ts.map fun t => (t.char, t.len)

theorem Keeps.raise {ts : List Fence} {stack : List Open} (h : Keeps ts stack) (n : ℕ) :
    Keeps ts (raise n stack) := by
  cases stack with
  | nil => exact h
  | cons o below => exact h

theorem Keeps.onTop {ts : List Fence} {stack : List Open} (h : Keeps ts stack) :
    OnTop ts.head? stack := by
  have hhead := congrArg List.head? h
  rwa [List.head?_map, List.head?_map] at hhead

theorem unwinds_of_scanFrom {lines : List (List Char)} {ts : List Fence} {s : Scan} {i : ℕ}
    (hkeeps : Keeps ts s.stack) (h : (scanFrom s i lines).stack = []) : Unwinds ts lines := by
  induction lines generalizing ts s i with
  | nil =>
    have hstack : s.stack = [] := h
    unfold Keeps at hkeeps
    rw [hstack, List.map_nil, eq_comm, List.map_eq_nil_iff] at hkeeps
    subst hkeeps
    exact @Unwinds.done .nil trivial
  | cons line lines ih =>
    rw [scanFrom] at h
    cases hfence : fenceOf line with
    | none =>
      rw [scanLine_text hfence] at h
      exact (ih hkeeps h).text hfence
    | some f =>
      rw [← Fence.line_of_fenceOf hfence] at h ⊢
      by_cases hclose : ∃ t ∈ ts.head?, t.Closes f
      · obtain ⟨t, ht, hcloses⟩ := hclose
        obtain ⟨ts, rfl⟩ := List.head?_eq_some_iff.mp ht
        obtain ⟨o, below, hstack, hchar, hlen⟩ := hkeeps.onTop.eq_cons
        have hbelow : Keeps ts below := by
          unfold Keeps at hkeeps
          rw [hstack] at hkeeps
          exact (List.cons.inj hkeeps).2
        have hscan : ∃ n u, scanLine s i f.line = ⟨NestedFences.raise n below, u⟩ := by
          unfold scanLine
          rw [f.fenceOf_line, hstack]
          dsimp only
          rw [if_pos ⟨hcloses.1.trans hchar.symm, hlen ▸ hcloses.2.1, hcloses.2.2⟩]
          exact ⟨_, _, rfl⟩
        obtain ⟨n, u, hscan⟩ := hscan
        rw [hscan] at h
        exact @Unwinds.close .nil _ _ _ _ trivial hcloses (ih (hbelow.raise n) h)
      · have hopen : ∀ t ∈ ts.head?, ¬ t.Closes f := fun t ht hcloses => hclose ⟨t, ht, hcloses⟩
        rw [scanLine_open hkeeps.onTop hopen] at h
        refine Unwinds.fence (ih (show Keeps (f :: ts) _ from ?_) h) hopen
        exact congrArg ((f.char, f.len) :: ·) (hkeeps.raise f.len)

/-- **A text whose fences all match** is a forest of them. -/
theorem exists_forest {md : List Char} (h : Matched md) :
    ∃ F : Forest, F.Reads none ∧ F.lines = md.splitOn '\n' := by
  have hunwinds : Unwinds [] (md.splitOn '\n') := 
    @unwinds_of_scanFrom _ [] {} 0 rfl h
  generalize md.splitOn '\n' = lines at hunwinds
  cases hunwinds with
  | @done F hF => exact ⟨F, hF, rfl⟩

/-! ## Where the outermost fences close -/

theorem outermostFrom_append (s : Scan) (i : ℕ) (ls ms : List (List Char)) :
    outermostFrom s i (ls ++ ms)
      = outermostFrom s i ls ++ outermostFrom (scanFrom s i ls) (i + ls.length) ms := by
  induction ls generalizing s i with
  | nil => rfl
  | cons line ls ih =>
    rw [List.cons_append, outermostFrom, outermostFrom, ih, scanFrom, List.length_cons,
      Nat.add_assoc, Nat.add_comm 1, List.append_assoc]

theorem outermostFrom_cons {s : Scan} {i : ℕ} {line : List Char}
    (h : (scanLine s i line).stack ≠ []) (lines : List (List Char)) :
    outermostFrom s i (line :: lines) = outermostFrom (scanLine s i line) (i + 1) lines := by
  rw [outermostFrom]
  cases hstack : (scanLine s i line).stack with
  | nil => exact absurd hstack h
  | cons o below =>
    cases s.stack with
    | nil => rfl
    | cons top more => cases more <;> rfl

theorem flatFrom_none {line : List Char} (h : fenceOf line = none) (i : ℕ)
    (lines : List (List Char)) :
    flatFrom none i (line :: lines) = flatFrom none (i + 1) lines := by
  rw [flatFrom, h]
  rfl

theorem flatFrom_open (f : Fence) (i : ℕ) (lines : List (List Char)) :
    flatFrom none i (f.line :: lines) = flatFrom (some (i, f)) (i + 1) lines := by
  rw [flatFrom, f.fenceOf_line]
  rfl

def NoneCloses (top : Fence) (lines : List (List Char)) : Prop :=
  ∀ line ∈ lines, ∀ f, fenceOf line = some f → ¬ top.Closes f

theorem noneCloses_cons {top : Fence} {line : List Char} {lines : List (List Char)} :
    NoneCloses top (line :: lines)
      ↔ (∀ f, fenceOf line = some f → ¬ top.Closes f) ∧ NoneCloses top lines :=
  List.forall_mem_cons

theorem noneCloses_append {top : Fence} {lines more : List (List Char)} :
    NoneCloses top (lines ++ more) ↔ NoneCloses top lines ∧ NoneCloses top more :=
  List.forall_mem_append

theorem flatFrom_append_close {o : ℕ} {top c : Fence} {lines : List (List Char)}
    (h : NoneCloses top lines) (hclose : top.Closes c) (i : ℕ) (rest : List (List Char)) :
    flatFrom (some (o, top)) i (lines ++ c.line :: rest)
      = (o, i + lines.length) :: flatFrom none (i + lines.length + 1) rest := by
  induction lines generalizing i with
  | nil =>
    rw [List.nil_append, flatFrom, c.fenceOf_line]
    exact if_pos (decide_eq_true hclose)
  | cons line lines ih =>
    obtain ⟨hline, hlines⟩ := noneCloses_cons.mp h
    have hopen : ((fenceOf line).any fun f => decide (top.Closes f)) = false := by
      cases hfence : fenceOf line with
      | none => rfl
      | some f => exact decide_eq_false (hline f hfence)
    rw [List.cons_append, flatFrom, hopen, if_neg Bool.false_ne_true, ih hlines, List.length_cons,
      Nat.add_assoc i 1, Nat.add_comm 1]

theorem flatFrom_append_early {o : ℕ} {top : Fence} {lines : List (List Char)}
    (h : ¬ NoneCloses top lines) (i : ℕ) (rest : List (List Char)) :
    ∃ j more, j < i + lines.length
      ∧ flatFrom (some (o, top)) i (lines ++ rest) = (o, j) :: more := by
  induction lines generalizing i with
  | nil => exact absurd (fun line hline => absurd hline List.not_mem_nil) h
  | cons line lines ih =>
    rw [List.cons_append, flatFrom]
    by_cases hany : ((fenceOf line).any fun f => decide (top.Closes f)) = true
    · rw [if_pos hany]
      exact ⟨i, _, by rw [List.length_cons]; omega, rfl⟩
    · rw [if_neg hany]
      have hlines : ¬ NoneCloses top lines := fun hlines => h <|
        noneCloses_cons.mpr ⟨fun f hfence hcloses => hany (by
          rw [hfence]
          exact decide_eq_true hcloses), hlines⟩
      obtain ⟨j, more, hj, hflat⟩ := ih hlines (i + 1)
      exact ⟨j, more, by rw [List.length_cons]; omega, hflat⟩

namespace Forest

theorem outermostFrom_lines_some (F : Forest) {t : Fence} (h : F.Reads (some t)) {s : Scan}
    (htop : OnTop (some t) s.stack) {i : ℕ} (hfree : ∀ k, i ≤ k → s.upgrades k = none) :
    outermostFrom s i F.lines = [] := by
  induction F generalizing t s i with
  | nil => rfl
  | text line rest ih =>
    have hscan := scanLine_text h.1 s i
    show outermostFrom s i (line :: rest.lines) = []
    rw [outermostFrom_cons (by rw [hscan]; exact htop.ne_nil), hscan,
      ih h.2 htop fun k hk => hfree k (by omega)]
  | fence opener body closer rest ihbody ihrest =>
    obtain ⟨hopen, hbody, hclose, hrest⟩ := h
    have hscan := scanLine_open htop hopen i
    have hopened : OnTop (some opener)
        (⟨i, opener.char, opener.len, 0⟩ :: raise opener.len s.stack) := rfl
    have hfree' : ∀ k, i + 1 ≤ k → s.upgrades k = none := fun k hk => hfree k (by omega)
    rw [lines_fence, outermostFrom_cons (by rw [hscan]; exact List.cons_ne_nil _ _), hscan,
      outermostFrom_append, ihbody (s := ⟨_, s.upgrades⟩) hbody hopened hfree',
      scanFrom_lines body (s := ⟨_, s.upgrades⟩) hbody hopened hfree', List.nil_append,
      outermostFrom_cons (by rw [scanLine_closer hfree hclose]; exact (htop.raise _).ne_nil),
      scanLine_closer hfree hclose, ihrest hrest (htop.raise _) (closed_free hfree opener body)]

/-- **The outermost fences** are those of the forest. -/
theorem outermostFrom_lines (F : Forest) (h : F.Reads none) {s : Scan} (htop : s.stack = [])
    {i : ℕ} (hfree : ∀ k, i ≤ k → s.upgrades k = none) :
    outermostFrom s i F.lines = F.outermost i := by
  induction F generalizing s i with
  | nil => rfl
  | text line rest ih =>
    show outermostFrom s i (line :: rest.lines) = rest.outermost (i + 1)
    rw [outermostFrom, scanLine_text h.1, ih h.2 htop fun k hk => hfree k (by omega), htop]
    rfl
  | fence opener body closer rest ihbody ihrest =>
    obtain ⟨hopen, hbody, hclose, hrest⟩ := h
    have hscan := scanLine_open (OnTop.eq_nil.mpr htop) hopen i
    have hcloses := @scanLine_closer _ _ hfree _ body _ hclose
    have hopened : OnTop (some opener)
        (⟨i, opener.char, opener.len, 0⟩ :: raise opener.len s.stack) := rfl
    have hfree' : ∀ k, i + 1 ≤ k → s.upgrades k = none := fun k hk => hfree k (by omega)
    have hstack : (closed s i opener body).stack = [] := by
      show raise _ s.stack = []
      rw [htop]
      rfl
    rw [lines_fence, outermostFrom_cons (by rw [hscan]; exact List.cons_ne_nil _ _), hscan,
      outermostFrom_append,
      outermostFrom_lines_some body (s := ⟨_, s.upgrades⟩) hbody hopened hfree',
      scanFrom_lines body (s := ⟨_, s.upgrades⟩) hbody hopened hfree', List.nil_append,
      outermostFrom, hcloses, ihrest hrest hstack (closed_free hfree opener body), hstack, htop]
    rfl

/-- **No line of a repaired forest closes the fence around it** exactly if none that stays is as
long. -/
theorem noneCloses_fixed_iff (F : Forest) {top : Option Fence} (h : F.Reads top) {t : Fence}
    (hlt : F.inner < t.len) : NoneCloses t F.fixed.lines ↔ F.Below t.char t.len := by
  have hshort {f : Fence} (hf : f.len < t.len) {line : List Char} (hline : f.line = line) :
      ∀ g, fenceOf line = some g → ¬ t.Closes g := fun g hg hcloses => by
    rw [← hline, f.fenceOf_line] at hg
    rw [← Option.some.inj hg] at hcloses
    exact absurd hcloses.2.1 (Nat.not_le.mpr hf)
  induction F generalizing top with
  | nil => exact ⟨fun _ => trivial, fun _ line hline => absurd hline List.not_mem_nil⟩
  | text line rest ih =>
    have hline : ∀ f, fenceOf line = some f → ¬ t.Closes f := fun f hf => by
      rw [h.1] at hf
      cases hf
    exact (noneCloses_cons.trans (and_iff_right hline)).trans (ih h.2 hlt)
  | fence opener body closer rest ihbody ihrest =>
    obtain ⟨-, hbody, hclose, hrest⟩ := h
    rw [inner_fence] at hlt
    have hbodyIff : NoneCloses t body.fixed.lines ↔ body.Below t.char t.len :=
      ihbody hbody (by omega)
    have hrestIff : NoneCloses t rest.fixed.lines ↔ rest.Below t.char t.len :=
      ihrest hrest (by omega)
    by_cases hinner : opener.len ≤ body.inner
    · rw [fixed_of_le hinner (three_le hinner), lines_fence, noneCloses_cons, noneCloses_append,
        noneCloses_cons, hbodyIff, hrestIff]
      have hlen : body.inner + 1 < t.len := by omega
      constructor
      · rintro ⟨-, hbelow, -, hrest⟩
        exact ⟨fun _ hlt => absurd hlt (Nat.not_lt.mpr hinner), hbelow, hrest⟩
      · rintro ⟨-, hbelow, hrest⟩
        exact ⟨hshort (f := opener.withLen _ _) hlen rfl, hbelow,
          hshort (f := closer.withLen _ _) hlen rfl, hrest⟩
    · have hlen := Nat.not_le.mp hinner
      rw [fixed_of_lt hlen, lines_fence, noneCloses_cons, noneCloses_append, noneCloses_cons,
        hbodyIff, hrestIff]
      constructor
      · rintro ⟨-, hbelow, hcloser, hrest⟩
        refine ⟨fun hchar _ => ?_, hbelow, hrest⟩
        by_contra hlong
        exact hcloser closer closer.fenceOf_line ⟨hchar, Nat.not_lt.mp hlong, hclose.2.2⟩
      · rintro ⟨hcloser, hbelow, hrest⟩
        refine ⟨hshort (f := opener) (by omega) rfl, hbelow, fun f hf hcloses => ?_, hrest⟩
        rw [closer.fenceOf_line] at hf
        rw [← Option.some.inj hf] at hcloses
        exact absurd hcloses.2.1 (Nat.not_le.mpr (hcloser hcloses.1 hlen))

/-- **The flat reading finds the outermost fences** exactly if no line within closes one. -/
theorem flatFrom_fixed_iff (F : Forest) (h : F.Reads none) (i : ℕ) :
    flatFrom none i F.fixed.lines = F.outermost i ↔ F.Clear := by
  induction F generalizing i with
  | nil => exact ⟨fun _ => trivial, fun _ => rfl⟩
  | text line rest ih =>
    show flatFrom none i (line :: rest.fixed.lines) = rest.outermost (i + 1) ↔ rest.Clear
    rw [flatFrom_none h.1, ih h.2]
  | fence opener body closer rest _ ihrest =>
    obtain ⟨-, hbody, hclose, hrest⟩ := h
    have hlength : body.fixed.lines.length = body.lines.length :=
      body.sameButLength_fixed.length_eq.symm
    -- the fence as it becomes, and its closing line
    have hfence : ∃ opener' closer' : Fence, opener'.Closes closer'
        ∧ opener'.char = opener.char ∧ opener'.len = reach opener body
        ∧ (fence opener body closer rest).fixed = fence opener' body.fixed closer' rest.fixed := by
      unfold reach
      by_cases hinner : opener.len ≤ body.inner
      · have hge := three_le hinner
        exact ⟨opener.withLen (body.inner + 1) hge, closer.withLen (body.inner + 1) hge,
          ⟨hclose.1, le_rfl, hclose.2.2⟩, rfl,
          (Nat.max_eq_right (Nat.le_succ_of_le hinner)).symm,
          fixed_of_le hinner hge closer rest⟩
      · exact ⟨opener, closer, hclose, rfl, (Nat.max_eq_left (Nat.not_le.mp hinner)).symm,
          fixed_of_lt (Nat.not_le.mp hinner) closer rest⟩
    obtain ⟨opener', closer', hclose', hchar, hlen, hfixed⟩ := hfence
    have hnone := body.noneCloses_fixed_iff hbody (t := opener') (by rw [hlen]; unfold reach; omega)
    rw [hchar, hlen] at hnone
    rw [hfixed, lines_fence, flatFrom_open]
    show _ = (i, i + 1 + body.lines.length) :: rest.outermost (i + 1 + body.lines.length + 1)
      ↔ body.Below opener.char (reach opener body) ∧ rest.Clear
    by_cases hearly : NoneCloses opener' body.fixed.lines
    · rw [flatFrom_append_close hearly hclose', hlength, List.cons_inj_right, ihrest hrest,
        and_iff_right (hnone.mp hearly)]
    · obtain ⟨j, more, hj, hflat⟩ := @flatFrom_append_early i opener' _ hearly (i + 1)
        (closer'.line :: rest.fixed.lines)
      rw [hflat]
      constructor
      · intro heq
        have hpair := congrArg Prod.snd (List.cons.inj heq).1
        dsimp only at hpair
        omega
      · exact fun hclear => absurd (hnone.mpr hclear.1) hearly

end Forest

/-- **The repair is right exactly where no closing line that stays is as long as its outermost
fence becomes.** -/
theorem repaired_iff {md : List Char} (h : Matched md) :
    Repaired md ↔ ∃ F : Forest, F.Reads none ∧ F.lines = md.splitOn '\n' ∧ F.Clear := by
  have hflat : ∀ F : Forest, F.Reads none → F.lines = md.splitOn '\n' →
      (flatFrom none 0 ((fixNestedFences md).splitOn '\n')
        = outermostFrom {} 0 (md.splitOn '\n') ↔ F.Clear) := fun F hF hlines => by
    rw [splitOn_fixNestedFences hF hlines, ← hlines,
      F.outermostFrom_lines hF rfl fun _ _ => rfl, F.flatFrom_fixed_iff hF]
  constructor
  · rintro ⟨-, hright, -⟩
    obtain ⟨F, hF, hlines⟩ := exists_forest h
    exact ⟨F, hF, hlines, (hflat F hF hlines).mp hright⟩
  · rintro ⟨F, hF, hlines, hclear⟩
    have hsplit := splitOn_fixNestedFences hF hlines
    have hfixed : F.fixed.Reads none := F.reads_fixed hF fun t ht => (nomatch ht)
    refine ⟨?_, (hflat F hF hlines).mpr hclear, ?_⟩
    · rw [hsplit, ← hlines]
      exact F.sameButLength_fixed
    · have hagain := splitOn_fixNestedFences hfixed hsplit.symm
      rw [F.fixed_fixed, ← hsplit] at hagain
      rw [← joinLines_splitOn (fixNestedFences (fixNestedFences md)), hagain, joinLines_splitOn]

def twoFences : List Char := "```\n```a\n```\n```".toList

theorem repaired_iff_twoFences : Repaired twoFences ↔ ∃ F : Forest, F.Reads none
    ∧ F.lines = twoFences.splitOn '\n' ∧ F.Clear :=
  repaired_iff (by unfold Matched; decide +kernel)

/-- The same fences, the inner one closed with five backticks. -/
def longCloser : List Char := "```\n```a\n`````\n```".toList

/-- **The outer fence is closed by the inner closing line**: it becomes four backticks long, and the
line that closes the fence within has five. -/
theorem not_repaired_longCloser : Matched longCloser ∧ ¬ Repaired longCloser := by
  refine ⟨by unfold Matched; decide +kernel, fun h => absurd h.flat ?_⟩
  decide +kernel

end NestedFences
