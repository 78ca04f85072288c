import Mathlib.Data.List.Basic
import Mathlib.Data.Bool.Basic
import Mathlib.Data.Nat.Find

/-!
# Spans of a list

Some elements of a list close a span: the list is cut behind each of them,
and what comes behind the last is open. The cut is one pass with the open span
as its accumulator, so it goes on at any point: the cut of a concatenation is
the cut of the first list, and behind it the cut of its open span and the
second list (`cut_append`). Conversely, closed spans and an open one are the
cut of their concatenation (`cut_flatten`), so that a list put together from
spans in any order has the spans of the whole.
-/

namespace Spans

variable {α : Type*} (closes : α → Bool)

/-- One element: it goes into the open span, and closes it or not. -/
def step (acc : List (List α) × List α) (a : α) : List (List α) × List α :=
  if closes a then (acc.1 ++ [acc.2 ++ [a]], []) else (acc.1, acc.2 ++ [a])

/-- **The closed spans of a list, and what is open behind them.** -/
def cut (xs : List α) : List (List α) × List α := xs.foldl (step closes) ([], [])

def IsOpen (span : List α) : Prop := ∀ a ∈ span, closes a = false

/-- A span that its last element closes, and no other. -/
def IsClosed (span : List α) : Prop :=
  ∃ body a, span = body ++ [a] ∧ IsOpen closes body ∧ closes a = true

variable {closes}

theorem IsOpen.nil : IsOpen closes [] := fun _ h => absurd h List.not_mem_nil

theorem IsOpen.append {xs ys : List α} (hx : IsOpen closes xs) (hy : IsOpen closes ys) :
    IsOpen closes (xs ++ ys) :=
  fun a ha => (List.mem_append.mp ha).elim (hx a) (hy a)

theorem IsClosed.append {xs ys : List α} (hx : IsOpen closes xs) (hy : IsClosed closes ys) :
    IsClosed closes (xs ++ ys) := by
  obtain ⟨body, a, rfl, hbody, ha⟩ := hy
  exact ⟨xs ++ body, a, (List.append_assoc _ _ _).symm, hx.append hbody, ha⟩

theorem foldl_step (closed : List (List α)) (span xs : List α) :
    xs.foldl (step closes) (closed, span)
      = (closed ++ (xs.foldl (step closes) ([], span)).1,
        (xs.foldl (step closes) ([], span)).2) := by
  induction xs generalizing closed span with
  | nil => exact Prod.ext (List.append_nil _).symm rfl
  | cons a xs ih =>
    rw [List.foldl_cons, List.foldl_cons]
    have hstep : ∀ closed, step closes (closed, span) a
        = (closed ++ (step closes ([], span) a).1, (step closes ([], span) a).2) := by
      intro closed
      unfold step
      split
      · rfl
      · exact Prod.ext (List.append_nil _).symm rfl
    rw [hstep closed, ih, ih (step closes ([], span) a).1]
    exact Prod.ext (List.append_assoc _ _ _) rfl

theorem foldl_step_open (span : List α) {xs : List α} (hx : IsOpen closes xs) :
    xs.foldl (step closes) ([], span) = ([], span ++ xs) := by
  induction xs generalizing span with
  | nil => rw [List.foldl_nil, List.append_nil]
  | cons a xs ih =>
    have ha : step closes ([], span) a = ([], span ++ [a]) := by
      unfold step
      rw [hx a List.mem_cons_self, if_neg Bool.false_ne_true]
    rw [List.foldl_cons, ha, ih _ fun b hb => hx b (List.mem_cons_of_mem _ hb), List.append_assoc]
    rfl

theorem cut_of_isOpen {xs : List α} (hx : IsOpen closes xs) : cut closes xs = ([], xs) :=
  foldl_step_open [] hx

theorem foldl_step_span {span : List α} (hspan : IsOpen closes span) (xs : List α) :
    xs.foldl (step closes) ([], span) = cut closes (span ++ xs) := by
  unfold cut
  rw [List.foldl_append, foldl_step_open [] hspan, List.nil_append]

theorem isOpen_cut (xs : List α) : IsOpen closes (cut closes xs).2 := by
  have key : ∀ (acc : List (List α) × List α), IsOpen closes acc.2 →
      IsOpen closes (xs.foldl (step closes) acc).2 := by
    induction xs with
    | nil => exact fun _ h => h
    | cons a xs ih =>
      intro acc hacc
      refine ih _ ?_
      unfold step
      split
      · exact .nil
      · next ha =>
        refine hacc.append fun b hb => ?_
        rw [List.mem_singleton.mp hb]
        exact Bool.not_eq_true _ ▸ ha
  exact key ([], []) .nil

theorem isClosed_cut (xs : List α) : ∀ span ∈ (cut closes xs).1, IsClosed closes span := by
  have key : ∀ (acc : List (List α) × List α), IsOpen closes acc.2 →
      (∀ span ∈ acc.1, IsClosed closes span) →
      ∀ span ∈ (xs.foldl (step closes) acc).1, IsClosed closes span := by
    induction xs with
    | nil => exact fun _ _ h => h
    | cons a xs ih =>
      intro acc hopen hclosed
      rw [List.foldl_cons]
      unfold step
      split
      · next ha =>
        refine ih _ .nil fun span hspan => ?_
        rcases List.mem_append.mp hspan with hspan | hspan
        · exact hclosed span hspan
        · rw [List.mem_singleton.mp hspan]
          exact ⟨acc.2, a, rfl, hopen, ha⟩
      · next ha =>
        refine ih _ (hopen.append fun b hb => ?_) hclosed
        rw [List.mem_singleton.mp hb]
        exact Bool.not_eq_true _ ▸ ha
  exact key ([], []) .nil fun _ h => absurd h List.not_mem_nil

/-- **The spans make up the list.** -/
theorem flatten_cut (xs : List α) : (cut closes xs).1.flatten ++ (cut closes xs).2 = xs := by
  have key : ∀ (acc : List (List α) × List α),
      (xs.foldl (step closes) acc).1.flatten ++ (xs.foldl (step closes) acc).2
        = acc.1.flatten ++ acc.2 ++ xs := by
    induction xs with
    | nil => exact fun _ => (List.append_nil _).symm
    | cons a xs ih =>
      intro acc
      rw [List.foldl_cons, ih]
      unfold step
      split
      · simp only [List.flatten_append, List.flatten_singleton, List.append_nil, List.append_assoc]
        rfl
      · simp only [List.append_assoc]
        rfl
  exact key ([], [])

theorem cut_append (xs ys : List α) :
    cut closes (xs ++ ys)
      = ((cut closes xs).1 ++ (cut closes ((cut closes xs).2 ++ ys)).1,
        (cut closes ((cut closes xs).2 ++ ys)).2) := by
  rw [← foldl_step_span (isOpen_cut xs)]
  unfold cut
  rw [List.foldl_append, foldl_step]

theorem cut_of_isClosed {span : List α} (h : IsClosed closes span) :
    cut closes span = ([span], []) := by
  obtain ⟨body, a, rfl, hbody, ha⟩ := h
  rw [cut_append, cut_of_isOpen hbody]
  have hlast : cut closes (body ++ [a]) = ([body ++ [a]], []) := by
    rw [← foldl_step_span hbody]
    show step closes ([], body) a = _
    unfold step
    rw [if_pos ha]
    rfl
  rw [hlast]
  rfl

theorem cut_closed_append {span : List α} (h : IsClosed closes span) (xs : List α) :
    cut closes (span ++ xs) = (span :: (cut closes xs).1, (cut closes xs).2) := by
  rw [cut_append, cut_of_isClosed h]
  rfl

/-- **Closed spans and an open one are the cut of what they make up.** -/
theorem cut_flatten {closed : List (List α)} {span : List α}
    (hclosed : ∀ s ∈ closed, IsClosed closes s) (hspan : IsOpen closes span) :
    cut closes (closed.flatten ++ span) = (closed, span) := by
  induction closed with
  | nil => exact cut_of_isOpen hspan
  | cons s closed ih =>
    rw [List.flatten_cons, List.append_assoc,
      cut_closed_append (hclosed s List.mem_cons_self),
      ih fun s' hs' => hclosed s' (List.mem_cons_of_mem _ hs')]

end Spans

/-! ## Where an element of a concatenation lies -/

/-- How many elements the first lists have. -/
def lengthBefore {α : Type*} (ls : List (List α)) (j : ℕ) : ℕ := (ls.take j).flatten.length

section Blocks

variable {α : Type*} {ls : List (List α)}

theorem lengthBefore_mono {i j : ℕ} (h : i ≤ j) : lengthBefore ls i ≤ lengthBefore ls j := by
  have hsplit : ls.take j = ls.take i ++ (ls.take j).drop i := by
    conv_lhs => rw [← List.take_append_drop i (ls.take j), List.take_take, Nat.min_eq_left h]
  unfold lengthBefore
  rw [hsplit, List.flatten_append, List.length_append]
  exact Nat.le_add_right _ _

/-- **Every element lies in exactly one of the lists.** -/
theorem existsUnique_block {i : ℕ} (hi : i < ls.flatten.length) :
    ∃! j, lengthBefore ls j ≤ i ∧ i < lengthBefore ls (j + 1) := by
  have hex : ∃ j, i < lengthBefore ls j := by
    refine ⟨ls.length, ?_⟩
    unfold lengthBefore
    rwa [List.take_length]
  have hfirst := Nat.find_spec hex
  have hpos : Nat.find hex ≠ 0 := by
    intro h0
    rw [h0] at hfirst
    exact absurd hfirst (Nat.not_lt_zero i)
  obtain ⟨j, hj⟩ := Nat.exists_eq_succ_of_ne_zero hpos
  rw [hj] at hfirst
  refine ⟨j, ⟨Nat.le_of_not_lt (Nat.find_min hex (by rw [hj]; exact Nat.lt_succ_self j)), hfirst⟩, ?_⟩
  rintro j' ⟨hle, hlt⟩
  rcases Nat.lt_trichotomy j' j with hj' | hj' | hj'
  · exact absurd hlt (Nat.find_min hex (by rw [hj]; exact Nat.succ_lt_succ hj'))
  · exact hj'
  · have : lengthBefore ls (j + 1) ≤ lengthBefore ls j' := lengthBefore_mono (Nat.succ_le_of_lt hj')
    exact absurd (Nat.lt_of_lt_of_le hfirst (Nat.le_trans this hle)) (Nat.lt_irrefl i)

end Blocks
