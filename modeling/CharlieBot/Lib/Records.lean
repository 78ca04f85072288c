import Mathlib.Data.List.Basic

/-!
# Records ended by a delimiter

A stream of symbols is cut into records by a delimiter: every occurrence
of it ends one, and what comes behind the last is a record not yet ended.
`records` makes the cut, and `joinRecords` undoes it.

What a reader needs is that the cut does not depend on how much of the
stream it has seen: records that are ended stay as they are when the
stream grows. Both facts come from one, that the cut is the only one
there is (`records_of_join`).
-/

variable {α : Type*} [DecidableEq α]

/-- **The records a delimiter ends**, and what comes behind the last. -/
def records (d : α) : List α → List (List α) × List α
  | [] => ([], [])
  | a :: as =>
    let r := records d as
    if a = d then ([] :: r.1, r.2)
    else match r.1 with
      | [] => ([], a :: r.2)
      | l :: ls => ((a :: l) :: ls, r.2)

omit [DecidableEq α] in
/-- The stream of records, each with its delimiter. -/
def joinRecords (d : α) (ls : List (List α)) : List α := ls.flatMap (· ++ [d])

section

omit [DecidableEq α]

@[simp] theorem joinRecords_nil (d : α) : joinRecords d [] = [] := rfl

@[simp] theorem joinRecords_cons (d : α) (l : List α) (ls : List (List α)) :
    joinRecords d (l :: ls) = l ++ [d] ++ joinRecords d ls := rfl

@[simp] theorem joinRecords_append (d : α) (ls ls' : List (List α)) :
    joinRecords d (ls ++ ls') = joinRecords d ls ++ joinRecords d ls' :=
  List.flatMap_append

end

variable {d : α}

theorem records_append_of_notMem {l : List α} (h : d ∉ l) (as : List α) :
    records d (l ++ d :: as) = (l :: (records d as).1, (records d as).2) := by
  induction l with
  | nil => simp only [List.nil_append, records, if_true]
  | cons a l ih =>
    rw [List.mem_cons, not_or] at h
    rw [List.cons_append, records, ih h.2]
    simp only [Ne.symm h.1, if_false]

theorem records_of_notMem {l : List α} (h : d ∉ l) : records d l = ([], l) := by
  induction l with
  | nil => rfl
  | cons a l ih =>
    rw [List.mem_cons, not_or] at h
    rw [records, ih h.2]
    simp only [Ne.symm h.1, if_false]

/-- **There is one cut.** A stream of records and a rest, none of which has
the delimiter in it, is cut into these. -/
theorem records_of_join {ls : List (List α)} (hls : ∀ l ∈ ls, d ∉ l) {rest : List α}
    (hrest : d ∉ rest) : records d (joinRecords d ls ++ rest) = (ls, rest) := by
  induction ls with
  | nil => exact records_of_notMem hrest
  | cons l ls ih =>
    obtain ⟨hl, hls⟩ := List.forall_mem_cons.mp hls
    have hstream : joinRecords d (l :: ls) ++ rest = l ++ d :: (joinRecords d ls ++ rest) := by
      simp
    rw [hstream, records_append_of_notMem hl, ih hls]

/-- **The cut loses nothing.** -/
theorem join_records (d : α) (as : List α) :
    joinRecords d (records d as).1 ++ (records d as).2 = as := by
  induction as with
  | nil => rfl
  | cons a as ih =>
    rw [records]
    by_cases ha : a = d
    · simp [ha, ih]
    · cases hr : (records d as).1 with
      | nil =>
        rw [hr] at ih
        simpa [ha, hr] using ih
      | cons l ls =>
        rw [hr] at ih
        simpa [ha, hr] using ih

theorem notMem_records (d : α) (as : List α) :
    (∀ l ∈ (records d as).1, d ∉ l) ∧ d ∉ (records d as).2 := by
  induction as with
  | nil => exact ⟨fun _ h => absurd h List.not_mem_nil, List.not_mem_nil⟩
  | cons a as ih =>
    obtain ⟨hls, hrest⟩ := ih
    rw [records]
    by_cases ha : a = d
    · rw [if_pos ha]
      exact ⟨List.forall_mem_cons.mpr ⟨List.not_mem_nil, hls⟩, hrest⟩
    · rw [if_neg ha]
      cases hr : (records d as).1 with
      | nil =>
        refine ⟨fun _ h => absurd h List.not_mem_nil, ?_⟩
        simpa [Ne.symm ha] using hrest
      | cons l ls =>
        rw [hr] at hls
        obtain ⟨hl, hls⟩ := List.forall_mem_cons.mp hls
        refine ⟨List.forall_mem_cons.mpr ⟨?_, hls⟩, hrest⟩
        simpa [Ne.symm ha] using hl

/-- **Records that are ended stay** when the stream grows. -/
theorem records_append (d : α) (as bs : List α) :
    (records d (as ++ bs)).1
      = (records d as).1 ++ (records d ((records d as).2 ++ bs)).1 := by
  obtain ⟨hls, -⟩ := notMem_records d as
  obtain ⟨hls', hrest'⟩ := notMem_records d ((records d as).2 ++ bs)
  have hstream : as ++ bs = joinRecords d
      ((records d as).1 ++ (records d ((records d as).2 ++ bs)).1)
        ++ (records d ((records d as).2 ++ bs)).2 := by
    rw [joinRecords_append, List.append_assoc, join_records, ← List.append_assoc,
      join_records]
  have hcut := records_of_join (d := d)
    (List.forall_mem_append.mpr ⟨hls, hls'⟩) hrest'
  rw [hstream, hcut]

/-- **Ended records at the head of a stream are its first.** -/
theorem isPrefix_records {ls : List (List α)} (hls : ∀ l ∈ ls, d ∉ l) {as : List α}
    (h : joinRecords d ls <+: as) : ls <+: (records d as).1 := by
  obtain ⟨bs, rfl⟩ := h
  have hcut := records_of_join hls (List.not_mem_nil (a := d))
  rw [List.append_nil] at hcut
  rw [records_append, hcut]
  exact List.prefix_append _ _

theorem records_eq_of_rest {ls : List (List α)} (hls : ∀ l ∈ ls, d ∉ l) {rest as : List α}
    (hrest : d ∉ rest) (h : as = joinRecords d ls ++ rest) : (records d as).1 = ls := by
  rw [h, records_of_join hls hrest]
