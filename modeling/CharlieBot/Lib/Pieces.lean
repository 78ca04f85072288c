import Mathlib.Data.List.Basic

/-!
# The pieces of a list

A list is cut at a separator into pieces that hold none. Joining two lists joins the last piece of
one to the first of the other and leaves the rest (`splitOn_append_head`), and cutting at either of
two separators is cutting at one and then each piece at the other (`splitOnP_or`).
-/

namespace List

variable {α : Type*} [BEq α] [LawfulBEq α]

theorem not_mem_of_mem_splitOn {sep : α} {l piece : List α} (h : piece ∈ l.splitOn sep) :
    sep ∉ piece := by
  by_cases hmem : sep ∈ l
  · obtain ⟨before, after, hsplit, hbefore⟩ := List.eq_append_cons_of_mem hmem
    have hlt : after.length < l.length := by
      rw [hsplit, List.length_append, List.length_cons]
      omega
    rw [hsplit, List.splitOn_append_cons_self_of_not_mem hbefore] at h
    rcases List.mem_cons.mp h with rfl | h
    · exact hbefore
    · exact not_mem_of_mem_splitOn h
  · rw [List.splitOn_eq_singleton hmem, List.mem_singleton] at h
    rwa [h]
termination_by l.length

theorem isInfix_of_mem_splitOn {sep : α} {l piece : List α} (h : piece ∈ l.splitOn sep) :
    piece <:+: l := by
  by_cases hmem : sep ∈ l
  · obtain ⟨before, after, hsplit, hbefore⟩ := List.eq_append_cons_of_mem hmem
    have hlt : after.length < l.length := by
      rw [hsplit, List.length_append, List.length_cons]
      omega
    rw [hsplit, List.splitOn_append_cons_self_of_not_mem hbefore] at h
    rw [hsplit]
    rcases List.mem_cons.mp h with rfl | h
    · exact (List.prefix_append _ _).isInfix
    · exact (isInfix_of_mem_splitOn h).trans
        ((List.suffix_cons sep after).trans (List.suffix_append before _)).isInfix
  · rw [List.splitOn_eq_singleton hmem, List.mem_singleton] at h
    exact h ▸ List.infix_rfl
termination_by l.length

/-- **What stands before a list joins its first piece.** -/
theorem splitOn_append_head (sep : α) (before l : List α) :
    (before ++ l).splitOn sep
      = (before ++ (l.splitOn sep).headD []).splitOn sep ++ (l.splitOn sep).tail := by
  by_cases hmem : sep ∈ l
  · obtain ⟨first, rest, rfl, hfirst⟩ := List.eq_append_cons_of_mem hmem
    rw [List.splitOn_append_cons_self_of_not_mem hfirst, ← List.append_assoc,
      List.splitOn_append_cons_self]
    rfl
  · rw [List.splitOn_eq_singleton hmem]
    exact (List.append_nil _).symm

omit [LawfulBEq α] in
theorem splitOn_eq_headD_cons (sep : α) (l : List α) :
    l.splitOn sep = (l.splitOn sep).headD [] :: (l.splitOn sep).tail := by
  cases h : l.splitOn sep with
  | nil => exact absurd h (List.splitOn_ne_nil sep l)
  | cons piece pieces => rfl

theorem length_splitOn (sep : α) (l : List α) :
    (l.splitOn sep).length = l.countP (· == sep) + 1 := by
  by_cases hmem : sep ∈ l
  · obtain ⟨before, after, hsplit, hbefore⟩ := List.eq_append_cons_of_mem hmem
    have hlt : after.length < l.length := by
      rw [hsplit, List.length_append, List.length_cons]
      omega
    have hnone : before.countP (· == sep) = 0 :=
      List.countP_eq_zero.mpr fun a ha heq => hbefore (eq_of_beq heq ▸ ha)
    have ih := length_splitOn sep after
    rw [hsplit, List.splitOn_append_cons_self_of_not_mem hbefore, List.length_cons, ih,
      List.countP_append, hnone, List.countP_cons_of_pos (by simp)]
    omega
  · have hnone : l.countP (· == sep) = 0 :=
      List.countP_eq_zero.mpr fun a ha heq => hmem (eq_of_beq heq ▸ ha)
    rw [List.splitOn_eq_singleton hmem, hnone]
    rfl
termination_by l.length

theorem getLast?_splitOn_ne {sep a : α} {l : List α} (h : l.getLast? = some a) (ha : a ≠ sep) :
    (l.splitOn sep).getLast? ≠ some [] := by
  by_cases hmem : sep ∈ l
  · obtain ⟨before, after, hsplit, hbefore⟩ := List.eq_append_cons_of_mem hmem
    have hlt : after.length < l.length := by
      rw [hsplit, List.length_append, List.length_cons]
      omega
    have hafter : after.getLast? = some a := by
      cases after with
      | nil =>
        rw [hsplit, List.getLast?_concat] at h
        exact absurd (Option.some.inj h).symm ha
      | cons b after =>
        rw [hsplit, List.getLast?_append, List.getLast?_cons_cons] at h
        rw [List.getLast?_cons] at h ⊢
        exact h
    rw [hsplit, List.splitOn_append_cons_self_of_not_mem hbefore]
    have hne := getLast?_splitOn_ne hafter ha
    obtain ⟨piece, hpiece⟩ := Option.ne_none_iff_exists'.mp fun hnone =>
      List.splitOn_ne_nil sep after (List.getLast?_eq_none_iff.mp hnone)
    rw [hpiece] at hne
    rw [List.getLast?_cons, hpiece]
    exact hne
  · rw [List.splitOn_eq_singleton hmem, List.getLast?_singleton]
    rintro ⟨⟩
    cases h
termination_by l.length

omit [BEq α] [LawfulBEq α] in
theorem splitOnP_congr {p q : α → Bool} {l : List α} (h : ∀ a ∈ l, p a = q a) :
    l.splitOnP p = l.splitOnP q := by
  induction l with
  | nil => rfl
  | cons a l ih =>
    rw [List.splitOnP_cons_eq_if_modifyHead, List.splitOnP_cons_eq_if_modifyHead,
      h a List.mem_cons_self, ih fun b hb => h b (List.mem_cons_of_mem a hb)]

/-- **Cutting at either of two separators** is cutting at one, and each piece at the other. -/
theorem splitOnP_or (sep sep' : α) (l : List α) :
    l.splitOnP (fun a => a == sep || a == sep') = (l.splitOn sep).flatMap (·.splitOn sep') := by
  by_cases hmem : sep ∈ l
  · obtain ⟨before, after, hsplit, hbefore⟩ := List.eq_append_cons_of_mem hmem
    have hlt : after.length < l.length := by
      rw [hsplit, List.length_append, List.length_cons]
      omega
    have ih := splitOnP_or sep sep' after
    have hsep : (fun a => a == sep || a == sep') sep = true := by simp
    rw [hsplit, List.splitOnP_append_cons before after hsep, ih,
      List.splitOn_append_cons_self_of_not_mem hbefore, List.flatMap_cons]
    congr 1
    rw [List.splitOn_eq_splitOnP]
    exact splitOnP_congr fun a ha => by
      have hne : (a == sep) = false := beq_false_of_ne fun heq => hbefore (heq ▸ ha)
      rw [hne, Bool.false_or]
  · rw [List.splitOn_eq_singleton hmem, List.flatMap_singleton, List.splitOn_eq_splitOnP]
    exact splitOnP_congr fun a ha => by
      have hne : (a == sep) = false := beq_false_of_ne fun heq => hmem (heq ▸ ha)
      rw [hne, Bool.false_or]
termination_by l.length

theorem idxOf?_append_cons {sep : α} {before : List α} (h : sep ∉ before) (after : List α) :
    (before ++ sep :: after).idxOf? sep = some before.length := by
  rw [List.idxOf?_eq_some_iff]
  refine ⟨by simp, by simp, fun j hj => ?_⟩
  rw [List.getElem_append_left hj]
  exact fun heq => h (heq ▸ List.getElem_mem hj)

/-! ## Pieces that each have their end -/

omit [BEq α] [LawfulBEq α] in
/-- Pieces put together, a separator behind each. -/
def ended (sep : α) (pieces : List (List α)) : List α := pieces.flatMap (· ++ [sep])

omit [BEq α] [LawfulBEq α] in
@[simp] theorem ended_nil (sep : α) : ended sep ([] : List (List α)) = [] := rfl

omit [BEq α] [LawfulBEq α] in
@[simp] theorem ended_cons (sep : α) (piece : List α) (pieces : List (List α)) :
    ended sep (piece :: pieces) = piece ++ sep :: ended sep pieces := by
  simp [ended]

omit [BEq α] [LawfulBEq α] in
theorem ended_append (sep : α) (pieces more : List (List α)) :
    ended sep (pieces ++ more) = ended sep pieces ++ ended sep more :=
  List.flatMap_append

theorem splitOn_ended {sep : α} {pieces : List (List α)} (clean : ∀ piece ∈ pieces, sep ∉ piece)
    {rest : List α} (open_ : sep ∉ rest) :
    (ended sep pieces ++ rest).splitOn sep = pieces ++ [rest] := by
  induction pieces with
  | nil => exact List.splitOn_eq_singleton open_
  | cons piece pieces ih =>
    rw [ended_cons, List.append_assoc, List.cons_append,
      List.splitOn_append_cons_self_of_not_mem (clean piece List.mem_cons_self),
      ih fun p hp => clean p (List.mem_cons_of_mem piece hp), List.cons_append]

/-- **Every list is its ended pieces** and what stands behind the last end. -/
theorem exists_ended (sep : α) (l : List α) :
    ∃ pieces rest, (∀ piece ∈ pieces, sep ∉ piece) ∧ sep ∉ rest ∧
      l = ended sep pieces ++ rest := by
  by_cases hmem : sep ∈ l
  · obtain ⟨before, after, hsplit, hbefore⟩ := List.eq_append_cons_of_mem hmem
    have hlt : after.length < l.length := by
      rw [hsplit, List.length_append, List.length_cons]
      omega
    obtain ⟨pieces, rest, clean, open_, rfl⟩ := exists_ended sep after
    refine ⟨before :: pieces, rest, ?_, open_, by simp [hsplit]⟩
    exact List.forall_mem_cons.2 ⟨hbefore, clean⟩
  · exact ⟨[], l, fun _ absent => absurd absent List.not_mem_nil, hmem, rfl⟩
termination_by l.length

end List
