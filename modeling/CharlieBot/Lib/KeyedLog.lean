import Mathlib.Data.List.Basic

/-!
# A log kept in keyed files

A log that grows long is kept in several files, one for each key – a week,
say – and read back file by file in the order of the keys. An append names
the file it goes to, and creates it where it is missing.

Read back, the log is what was appended in the order it was appended, as
long as no append names a key before the last one
(`KeyedLog.UpTo.entries_append`).
-/

variable {α : Type*}

/-- **A log kept in keyed files.** -/
structure KeyedLog (α : Type*) where
  /-- The keys and the entries of their files. -/
  files : List (ℕ × List α)
  /-- The keys are in order. -/
  sorted : files.Pairwise fun a b => a.1 < b.1

/-- Appends an entry to a key's file, which is created where it is
missing. -/
def appendToKey (key : ℕ) (a : α) : List (ℕ × List α) → List (ℕ × List α)
  | [] => [(key, [a])]
  | (k, as) :: rest =>
    if key < k then (key, [a]) :: (k, as) :: rest
    else if key = k then (k, as ++ [a]) :: rest
    else (k, as) :: appendToKey key a rest

theorem mem_appendToKey {key : ℕ} {a : α} {files : List (ℕ × List α)}
    {f : ℕ × List α} (h : f ∈ appendToKey key a files) :
    f.1 = key ∨ ∃ g ∈ files, g.1 = f.1 := by
  induction files with
  | nil =>
    rw [List.mem_singleton.mp h]
    exact .inl rfl
  | cons g rest ih =>
    unfold appendToKey at h
    split at h
    · rcases List.mem_cons.mp h with rfl | h
      · exact .inl rfl
      · exact .inr ⟨f, h, rfl⟩
    · split at h
      · rcases List.mem_cons.mp h with rfl | h
        · exact .inr ⟨g, List.mem_cons_self, rfl⟩
        · exact .inr ⟨f, List.mem_cons_of_mem _ h, rfl⟩
      · rcases List.mem_cons.mp h with rfl | h
        · exact .inr ⟨g, List.mem_cons_self, rfl⟩
        · rcases ih h with heq | ⟨g', hg', heq⟩
          · exact .inl heq
          · exact .inr ⟨g', List.mem_cons_of_mem _ hg', heq⟩

theorem sorted_appendToKey (key : ℕ) (a : α) {files : List (ℕ × List α)}
    (h : files.Pairwise fun a b => a.1 < b.1) :
    (appendToKey key a files).Pairwise fun a b => a.1 < b.1 := by
  induction files with
  | nil => exact List.pairwise_singleton _ _
  | cons g rest ih =>
    obtain ⟨hg, hrest⟩ := List.pairwise_cons.mp h
    unfold appendToKey
    split
    · next hlt =>
      refine List.pairwise_cons.mpr ⟨fun f hf => ?_, h⟩
      rcases List.mem_cons.mp hf with rfl | hf
      · exact hlt
      · exact Nat.lt_trans hlt (hg f hf)
    · split
      · exact List.pairwise_cons.mpr ⟨hg, hrest⟩
      · next hle hne =>
        refine List.pairwise_cons.mpr ⟨fun f hf => ?_, ih hrest⟩
        rcases mem_appendToKey hf with heq | ⟨f', hf', heq⟩
        · show g.1 < f.1
          rw [heq]
          omega
        · rw [← heq]
          exact hg f' hf'

namespace KeyedLog

def empty : KeyedLog α := ⟨[], List.Pairwise.nil⟩

/-- Appends an entry to a key's file. -/
def append (log : KeyedLog α) (key : ℕ) (a : α) : KeyedLog α :=
  ⟨appendToKey key a log.files, sorted_appendToKey key a log.sorted⟩

def entries (log : KeyedLog α) : List α := (log.files.map Prod.snd).flatten

def UpTo (log : KeyedLog α) (key : ℕ) : Prop := ∀ f ∈ log.files, f.1 ≤ key

variable {log : KeyedLog α} {key : ℕ}

theorem UpTo.append (h : log.UpTo key) (a : α) : (log.append key a).UpTo key := by
  intro f hf
  rcases mem_appendToKey hf with heq | ⟨g, hg, heq⟩
  · exact Nat.le_of_eq heq
  · rw [← heq]
    exact h g hg

/-- **What is appended to the last key comes last.** -/
theorem UpTo.entries_append (h : log.UpTo key) (a : α) :
    (log.append key a).entries = log.entries ++ [a] := by
  obtain ⟨files, hsorted⟩ := log
  show ((appendToKey key a files).map Prod.snd).flatten
    = (files.map Prod.snd).flatten ++ [a]
  change ∀ f ∈ files, f.1 ≤ key at h
  induction files with
  | nil => rfl
  | cons g rest ih =>
    obtain ⟨hg, hrest⟩ := List.pairwise_cons.mp hsorted
    have hle : g.1 ≤ key := h g List.mem_cons_self
    unfold appendToKey
    rw [if_neg (Nat.not_lt.mpr hle)]
    split
    · next heq =>
      -- a later file would be of a later key
      have hnil : rest = [] := by
        cases rest with
        | nil => rfl
        | cons f rest =>
          have hlt := hg f List.mem_cons_self
          have := h f (List.mem_cons_of_mem _ List.mem_cons_self)
          omega
      subst hnil
      simp only [List.map_cons, List.map_nil, List.flatten_cons, List.flatten_nil,
        List.append_nil]
    · rw [List.map_cons, List.map_cons, List.flatten_cons, List.flatten_cons,
        ih hrest fun f hf => h f (List.mem_cons_of_mem _ hf), List.append_assoc]

theorem map_lookup_keys (log : KeyedLog α) :
    (log.files.map Prod.fst).map (fun k => (log.files.lookup k).getD [])
      = log.files.map Prod.snd := by
  obtain ⟨files, hsorted⟩ := log
  dsimp only
  induction files with
  | nil => rfl
  | cons f files ih =>
    obtain ⟨hf, hfiles⟩ := List.pairwise_cons.mp hsorted
    rw [List.map_cons, List.map_cons, List.map_cons]
    congr 1
    · rw [List.lookup_cons_self]
      rfl
    · rw [← ih hfiles]
      refine List.map_congr_left fun k hk => ?_
      obtain ⟨g, hg, rfl⟩ := List.mem_map.mp hk
      have hne : g.1 ≠ f.1 := Nat.ne_of_gt (hf g hg)
      rw [List.lookup_cons, beq_false_of_ne hne]

theorem lookup_append_of_ne (log : KeyedLog α) (a : α) {key k : ℕ} (h : k ≠ key) :
    (log.append key a).files.lookup k = log.files.lookup k := by
  obtain ⟨files, hsorted⟩ := log
  show (appendToKey key a files).lookup k = files.lookup k
  clear hsorted
  induction files with
  | nil => rw [appendToKey, List.lookup_cons, beq_false_of_ne h]
  | cons f files ih =>
    unfold appendToKey
    split
    · rw [List.lookup_cons, beq_false_of_ne h]
    · split
      · next heq =>
        rw [List.lookup_cons, List.lookup_cons, ← heq, beq_false_of_ne h]
      · rw [List.lookup_cons, List.lookup_cons, ih]

/-- Appends a list of entries to a key's file. -/
def appendAll (log : KeyedLog α) (key : ℕ) (as : List α) : KeyedLog α :=
  as.foldl (fun log a => log.append key a) log

theorem UpTo.entries_appendAll (h : log.UpTo key) (as : List α) :
    (log.appendAll key as).entries = log.entries ++ as := by
  induction as generalizing log with
  | nil => exact (List.append_nil _).symm
  | cons a as ih =>
    show ((log.append key a).appendAll key as).entries = _
    rw [ih (h.append a), h.entries_append, List.append_assoc]
    rfl

theorem lookup_appendAll_of_ne (log : KeyedLog α) (as : List α) {key k : ℕ} (h : k ≠ key) :
    (log.appendAll key as).files.lookup k = log.files.lookup k := by
  induction as generalizing log with
  | nil => rfl
  | cons a as ih =>
    show ((log.append key a).appendAll key as).files.lookup k = _
    rw [ih, log.lookup_append_of_ne a h]

theorem keys_append_of_mem (log : KeyedLog α) (a : α)
    (h : key ∈ log.files.map Prod.fst) :
    (log.append key a).files.map Prod.fst = log.files.map Prod.fst := by
  obtain ⟨files, hsorted⟩ := log
  show (appendToKey key a files).map Prod.fst = files.map Prod.fst
  change key ∈ files.map Prod.fst at h
  induction files with
  | nil => exact absurd h List.not_mem_nil
  | cons f files ih =>
    obtain ⟨hf, hfiles⟩ := List.pairwise_cons.mp hsorted
    rw [List.map_cons, List.mem_cons] at h
    unfold appendToKey
    split
    · next hlt =>
      -- a key before the first file's is none of the files'
      rcases h with heq | hmem
      · omega
      · obtain ⟨g, hg, heq⟩ := List.mem_map.mp hmem
        have := hf g hg
        omega
    · split
      · rfl
      · next hne =>
        rw [List.map_cons, List.map_cons, ih hfiles (h.resolve_left hne)]

theorem keys_appendAll_of_mem (log : KeyedLog α) (as : List α)
    (h : key ∈ log.files.map Prod.fst) :
    (log.appendAll key as).files.map Prod.fst = log.files.map Prod.fst := by
  induction as generalizing log with
  | nil => rfl
  | cons a as ih =>
    have hsame := log.keys_append_of_mem a h
    show ((log.append key a).appendAll key as).files.map Prod.fst = _
    rw [ih _ (by rw [hsame]; exact h), hsame]

end KeyedLog
