import Mathlib.Data.List.Basic

/-!
# Lines that end in either of two characters, or in both

A line ends at a `cr`, at an `lf`, and where the two stand together, at both at once. Who reads a
text character by character does not know at a `cr` how long the end is: it is settled by what
comes next, and by the end of the text if nothing does.

What is in hand between two characters is the line so far and whether a `cr` stands behind it
(`Pending`), so a text may be cut anywhere and read part by part (`read_append`). A text that is
taken apart at its first line end, whole, gives its lines (`lines_append_lf`, `lines_append_cr`,
`lines_append_both`).
-/

/-- The two characters that end a line. -/
structure LineEnds (α : Type*) where
  cr : α
  lf : α
  ne : cr ≠ lf

namespace LineEnds

variable {α : Type*}

/-- **What is in hand**: a line without its end, and whether a `cr` stands behind it. -/
structure Pending (α : Type*) where
  line : List α := []
  held : Bool := false

def Clean (e : LineEnds α) (text : List α) : Prop := ∀ c ∈ text, c ≠ e.cr ∧ c ≠ e.lf

theorem clean_nil (e : LineEnds α) : e.Clean [] := fun _ h => absurd h List.not_mem_nil

theorem Clean.append {e : LineEnds α} {text more : List α} (h : e.Clean text)
    (hmore : e.Clean more) : e.Clean (text ++ more) := by
  intro c hc
  rcases List.mem_append.mp hc with hc | hc
  · exact h c hc
  · exact hmore c hc

/-- What is left at the end of a text. -/
def Pending.flush (p : Pending α) : List (List α) :=
  if p.held || !p.line.isEmpty then [p.line] else []

variable [DecidableEq α] (e : LineEnds α)

/-- One character: the line it completes, and what is in hand behind it. -/
def push (p : Pending α) (c : α) : List (List α) × Pending α :=
  if p.held then
    if c = e.lf then ([p.line], {})
    else if c = e.cr then ([p.line], { held := true })
    else ([p.line], { line := [c] })
  else if c = e.cr then ([], { p with held := true })
  else if c = e.lf then ([p.line], {})
  else ([], { line := p.line ++ [c] })

/-- The lines that a text completes, and what is in hand behind it. -/
def read : Pending α → List α → List (List α) × Pending α
  | p, [] => ([], p)
  | p, c :: text =>
    ((e.push p c).1 ++ (read (e.push p c).2 text).1, (read (e.push p c).2 text).2)

/-- **The lines of a text.** -/
def lines (text : List α) : List (List α) :=
  (e.read {} text).1 ++ (e.read {} text).2.flush

@[simp] theorem read_nil (p : Pending α) : e.read p [] = ([], p) := rfl

theorem read_cons (p : Pending α) (c : α) (text : List α) :
    e.read p (c :: text)
      = ((e.push p c).1 ++ (e.read (e.push p c).2 text).1, (e.read (e.push p c).2 text).2) :=
  rfl

/-- **A text is read part by part.** -/
theorem read_append (p : Pending α) (text more : List α) :
    e.read p (text ++ more)
      = ((e.read p text).1 ++ (e.read (e.read p text).2 more).1,
          (e.read (e.read p text).2 more).2) := by
  induction text generalizing p with
  | nil => rfl
  | cons c text ih =>
    rw [List.cons_append, read_cons, read_cons, ih]
    dsimp only
    rw [List.append_assoc]

theorem read_clean {text : List α} (h : e.Clean text) (line : List α) :
    e.read { line } text = ([], { line := line ++ text }) := by
  induction text generalizing line with
  | nil => rw [List.append_nil, read_nil]
  | cons c text ih =>
    obtain ⟨hc, htext⟩ := List.forall_mem_cons.mp h
    have hpush : e.push { line } c = ([], { line := line ++ [c] }) := by
      show (if c = e.cr then _ else if c = e.lf then _ else _) = _
      rw [if_neg hc.1, if_neg hc.2]
    rw [read_cons, hpush]
    dsimp only
    rw [ih htext, List.append_assoc]
    rfl

theorem push_lf (line : List α) : e.push { line } e.lf = ([line], {}) := by
  show (if e.lf = e.cr then _ else if e.lf = e.lf then _ else _) = _
  rw [if_neg e.ne.symm, if_pos rfl]

theorem push_cr (line : List α) : e.push { line } e.cr = ([], { line, held := true }) :=
  if_pos rfl

theorem push_held_lf (line : List α) : e.push { line, held := true } e.lf = ([line], {}) :=
  (if_pos rfl).trans (if_pos rfl)

theorem push_held {c : α} (h : c ≠ e.lf) (line : List α) :
    e.push { line, held := true } c = (line :: (e.push {} c).1, (e.push {} c).2) := by
  show (if c = e.lf then _ else if c = e.cr then _ else _)
    = (line :: (if c = e.cr then _ else if c = e.lf then _ else _ : _ × _).1,
        (if c = e.cr then _ else if c = e.lf then _ else _ : _ × _).2)
  rw [if_neg h]
  by_cases hcr : c = e.cr
  · rw [if_pos hcr, if_pos hcr]
  · rw [if_neg hcr, if_neg hcr, if_neg h]
    rfl

theorem read_held {text : List α} (h : text.head? ≠ some e.lf) (hne : text ≠ [])
    (line : List α) : e.read { line, held := true } text
      = (line :: (e.read {} text).1, (e.read {} text).2) := by
  cases text with
  | nil => exact absurd rfl hne
  | cons c text =>
    have hc : c ≠ e.lf := fun heq => h (congrArg some heq)
    rw [read_cons, read_cons, push_held e hc]
    rfl

theorem read_append_lf {before : List α} (h : e.Clean before) (line after : List α) :
    e.read { line } (before ++ e.lf :: after)
      = ((line ++ before) :: (e.read {} after).1, (e.read {} after).2) := by
  rw [read_append, read_clean e h, read_cons, push_lf]
  rfl

theorem read_append_both {before : List α} (h : e.Clean before) (line after : List α) :
    e.read { line } (before ++ e.cr :: e.lf :: after)
      = ((line ++ before) :: (e.read {} after).1, (e.read {} after).2) := by
  rw [read_append, read_clean e h, read_cons, push_cr, read_cons, push_held_lf]
  rfl

theorem read_append_cr {before after : List α} (h : e.Clean before)
    (hafter : after.head? ≠ some e.lf) (hne : after ≠ []) (line : List α) :
    e.read { line } (before ++ e.cr :: after)
      = ((line ++ before) :: (e.read {} after).1, (e.read {} after).2) := by
  rw [read_append, read_clean e h, read_cons, push_cr]
  dsimp only
  rw [read_held e hafter hne]
  rfl

theorem read_concat_cr {before : List α} (h : e.Clean before) (line : List α) :
    e.read { line } (before ++ [e.cr]) = ([], { line := line ++ before, held := true }) := by
  rw [read_append, read_clean e h, read_cons, push_cr]
  rfl

/-! ## The lines, one after the other -/

theorem lines_of_clean {text : List α} (h : e.Clean text) :
    e.lines text = if text = [] then [] else [text] := by
  unfold lines
  rw [read_clean e h]
  show (if (false || !([] ++ text).isEmpty) = true then [[] ++ text] else []) = _
  cases text <;> rfl

theorem lines_append_lf {before : List α} (h : e.Clean before) (after : List α) :
    e.lines (before ++ e.lf :: after) = before :: e.lines after := by
  unfold lines
  rw [read_append_lf e h]
  rfl

theorem lines_append_both {before : List α} (h : e.Clean before) (after : List α) :
    e.lines (before ++ e.cr :: e.lf :: after) = before :: e.lines after := by
  unfold lines
  rw [read_append_both e h]
  rfl

theorem lines_append_cr {before after : List α} (h : e.Clean before)
    (hafter : after.head? ≠ some e.lf) :
    e.lines (before ++ e.cr :: after) = before :: e.lines after := by
  unfold lines
  by_cases hne : after = []
  · rw [hne, read_concat_cr e h]
    rfl
  · rw [read_append_cr e h hafter hne]
    rfl

/-- **A text up to its first line end**: it has none, or what stands before it ends none. -/
theorem exists_first_end (text : List α) :
    e.Clean text ∨ ∃ before c after, text = before ++ c :: after ∧ e.Clean before
      ∧ (c = e.cr ∨ c = e.lf) := by
  induction text with
  | nil => exact .inl e.clean_nil
  | cons c text ih =>
    by_cases hc : c = e.cr ∨ c = e.lf
    · exact .inr ⟨[], c, text, rfl, e.clean_nil, hc⟩
    · rw [not_or] at hc
      rcases ih with ih | ⟨before, d, after, rfl, hbefore, hd⟩
      · exact .inl (List.forall_mem_cons.mpr ⟨hc, ih⟩)
      · exact .inr ⟨c :: before, d, after, rfl, List.forall_mem_cons.mpr ⟨hc, hbefore⟩, hd⟩

end LineEnds
