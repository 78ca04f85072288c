import Mathlib.Data.List.Nodup

/-!
# Groups

Values are put into groups by a key: a group is started where its key has none, and the value is
added to it. The groups stand in the order of their first members.

Every key has one group (`nodup_collect`), and a group has what its key's members make of it
(`valuesAt_collect`, `mem_group_iff`).
-/

namespace Groups

variable {α κ ν : Type} [DecidableEq κ]

/-- `groups.setdefault(k, …)`, and what is then done to the value. -/
def setdefault (k : κ) (add : List ν → List ν) : List (κ × List ν) → List (κ × List ν)
  | [] => [(k, add [])]
  | (k', vs) :: rest =>
    if k' = k then (k', add vs) :: rest else (k', vs) :: setdefault k add rest

/-- The values under a key. -/
def valuesAt (k : κ) : List (κ × List ν) → List ν
  | [] => []
  | (k', vs) :: rest => if k' = k then vs else valuesAt k rest

/-- A loop of `setdefault`s. -/
def collect (key : α → κ) (add : α → List ν → List ν) (ts : List α) : List (κ × List ν) :=
  ts.foldl (fun groups t => setdefault (key t) (add t) groups) []

/-- A member of a set goes in. -/
def insertNew [DecidableEq ν] (v : ν) (vs : List ν) : List ν := if v ∈ vs then vs else vs ++ [v]

theorem keys_setdefault (k : κ) (add : List ν → List ν) (g : List (κ × List ν)) :
    (setdefault k add g).map Prod.fst
      = if k ∈ g.map Prod.fst then g.map Prod.fst else g.map Prod.fst ++ [k] := by
  induction g with
  | nil => rfl
  | cons head rest ih =>
    obtain ⟨k', vs⟩ := head
    by_cases hk : k' = k
    · simp [setdefault, hk]
    · simp only [setdefault, if_neg hk, List.map_cons, ih, List.mem_cons, Ne.symm hk, false_or]
      split <;> simp

theorem valuesAt_setdefault (k k₁ : κ) (add : List ν → List ν) (g : List (κ × List ν)) :
    valuesAt k (setdefault k₁ add g) = if k₁ = k then add (valuesAt k g) else valuesAt k g := by
  induction g with
  | nil => by_cases hk : k₁ = k <;> simp [setdefault, valuesAt, hk]
  | cons head rest ih =>
    obtain ⟨k', vs⟩ := head
    by_cases h₁ : k' = k₁
    · subst h₁
      by_cases hk : k' = k <;> simp [setdefault, valuesAt, hk]
    · by_cases hk : k' = k
      · have hne : k₁ ≠ k := fun h => h₁ (hk.trans h.symm)
        rw [setdefault, if_neg h₁, valuesAt, valuesAt, if_pos hk, if_pos hk, if_neg hne]
      · simp [setdefault, valuesAt, h₁, hk, ih]

theorem valuesAt_of_mem {g : List (κ × List ν)} (hg : (g.map Prod.fst).Nodup) {k : κ} {vs : List ν}
    (h : (k, vs) ∈ g) : vs = valuesAt k g := by
  induction g with
  | nil => exact absurd h List.not_mem_nil
  | cons head rest ih =>
    obtain ⟨k', vs'⟩ := head
    rw [List.map_cons, List.nodup_cons] at hg
    rcases List.mem_cons.1 h with heq | hmem
    · cases heq
      simp [valuesAt]
    · have hne : k' ≠ k := by
        rintro rfl
        exact hg.1 (List.mem_map.2 ⟨_, hmem, rfl⟩)
      simpa [valuesAt, hne] using ih hg.2 hmem

theorem nodup_foldl (key : α → κ) (add : α → List ν → List ν) (ts : List α)
    (g : List (κ × List ν)) (hg : (g.map Prod.fst).Nodup) :
    ((ts.foldl (fun groups t => setdefault (key t) (add t) groups) g).map Prod.fst).Nodup := by
  induction ts generalizing g with
  | nil => exact hg
  | cons t rest ih =>
    apply ih
    rw [keys_setdefault]
    split
    · exact hg
    · next hk => exact hg.append (List.nodup_singleton _) (List.disjoint_singleton.2 hk)

theorem valuesAt_foldl (key : α → κ) (add : α → List ν → List ν) (k : κ) (ts : List α)
    (g : List (κ × List ν)) :
    valuesAt k (ts.foldl (fun groups t => setdefault (key t) (add t) groups) g)
      = (ts.filter fun t => key t = k).foldl (fun vs t => add t vs) (valuesAt k g) := by
  induction ts generalizing g with
  | nil => rfl
  | cons t rest ih =>
    rw [List.foldl_cons, ih, valuesAt_setdefault]
    by_cases hk : key t = k <;> simp [hk]

theorem mem_keys_foldl (key : α → κ) (add : α → List ν → List ν) (k : κ) (ts : List α)
    (g : List (κ × List ν)) :
    k ∈ (ts.foldl (fun groups t => setdefault (key t) (add t) groups) g).map Prod.fst
      ↔ k ∈ g.map Prod.fst ∨ ∃ t ∈ ts, key t = k := by
  induction ts generalizing g with
  | nil => simp
  | cons t rest ih =>
    have hset : k ∈ (setdefault (key t) (add t) g).map Prod.fst
        ↔ k ∈ g.map Prod.fst ∨ key t = k := by
      rw [keys_setdefault]
      split
      · next hmem => exact ⟨Or.inl, fun h => h.elim id fun heq => heq ▸ hmem⟩
      · simp [eq_comm]
    rw [List.foldl_cons, ih, hset]
    simp [or_assoc]

theorem nodup_collect (key : α → κ) (add : α → List ν → List ν) (ts : List α) :
    ((collect key add ts).map Prod.fst).Nodup :=
  nodup_foldl key add ts [] List.nodup_nil

theorem valuesAt_collect (key : α → κ) (add : α → List ν → List ν) (k : κ) (ts : List α) :
    valuesAt k (collect key add ts)
      = (ts.filter fun t => key t = k).foldl (fun vs t => add t vs) [] :=
  valuesAt_foldl key add k ts []

theorem mem_keys_collect (key : α → κ) (add : α → List ν → List ν) (k : κ) (ts : List α) :
    k ∈ (collect key add ts).map Prod.fst ↔ ∃ t ∈ ts, key t = k := by
  rw [collect, mem_keys_foldl]
  simp

theorem mem_insertNew [DecidableEq ν] {v w : ν} {vs : List ν} :
    w ∈ insertNew v vs ↔ w = v ∨ w ∈ vs := by
  unfold insertNew
  split
  · next h => exact ⟨Or.inr, fun hw => hw.elim (fun heq => heq ▸ h) id⟩
  · simp [or_comm]

theorem mem_foldl_insertNew [DecidableEq ν] (value : α → ν) (w : ν) (ts : List α) (vs : List ν) :
    w ∈ ts.foldl (fun vs t => insertNew (value t) vs) vs ↔ w ∈ vs ∨ ∃ t ∈ ts, value t = w := by
  induction ts generalizing vs with
  | nil => simp
  | cons t rest ih =>
    rw [List.foldl_cons, ih, mem_insertNew]
    simp only [List.exists_mem_cons_iff, eq_comm, or_assoc, or_left_comm]

theorem mem_group_iff [DecidableEq ν] {key : α → κ} {value : α → ν} {ts : List α} {k : κ}
    {vs : List ν} (h : (k, vs) ∈ collect key (fun t => insertNew (value t)) ts) (v : ν) :
    v ∈ vs ↔ ∃ t ∈ ts, key t = k ∧ value t = v := by
  rw [valuesAt_of_mem (nodup_collect _ _ ts) h, valuesAt_collect, mem_foldl_insertNew]
  simp [and_assoc]

theorem mem_collect_insertNew [DecidableEq ν] (key : α → κ) (value : α → ν) (ts : List α) (k : κ)
    (v : ν) :
    (∃ vs, (k, vs) ∈ collect key (fun t => insertNew (value t)) ts ∧ v ∈ vs)
      ↔ ∃ t ∈ ts, key t = k ∧ value t = v := by
  constructor
  · rintro ⟨vs, hmem, hv⟩
    exact (mem_group_iff hmem v).1 hv
  · rintro ⟨t, ht, hkey, hv⟩
    obtain ⟨⟨k', vs⟩, hmem, rfl⟩ :=
      List.mem_map.1 ((mem_keys_collect key (fun t => insertNew (value t)) k ts).2 ⟨t, ht, hkey⟩)
    exact ⟨vs, hmem, (mem_group_iff hmem v).2 ⟨t, ht, hkey, hv⟩⟩

end Groups
