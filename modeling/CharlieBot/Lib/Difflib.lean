import Mathlib.Data.List.Chain
import Mathlib.Order.MinMax

/-!
# Edit scripts

An edit script turns one sequence into another: each opcode names a stretch of
the old sequence and the stretch of the new one that takes its place. How a
script is found is not asked here; a `SequenceMatcher` is any way to find one.
-/

namespace Difflib

variable {α : Type*}

/-! ## Opcodes -/

/-- What is done with a stretch. -/
inductive Tag where
  | equal
  | replace
  | delete
  | insert
deriving DecidableEq, Repr

/-- **An opcode**: `a[i1:i2]` becomes `b[j1:j2]`. -/
structure Opcode where
  tag : Tag
  i1 : ℕ
  i2 : ℕ
  j1 : ℕ
  j2 : ℕ
deriving DecidableEq, Repr

/-- `a[i:j]`. -/
def slice (a : List α) (i j : ℕ) : List α := (a.take j).drop i

theorem slice_append (a : List α) {i j k : ℕ} (hij : i ≤ j) (hjk : j ≤ k) :
    slice a i j ++ slice a j k = slice a i k := by
  unfold slice
  have hcut : a.take j = (a.take k).take j := by rw [List.take_take, Nat.min_eq_left hjk]
  rw [hcut]
  have hsplit := List.take_append_drop (j - i) ((a.take k).drop i)
  rwa [List.drop_drop, Nat.add_sub_cancel' hij, List.take_drop, Nat.add_sub_cancel' hij] at hsplit

theorem slice_self (a : List α) (i : ℕ) : slice a i i = [] := by
  unfold slice
  rw [List.drop_eq_nil_iff, List.length_take]
  exact Nat.min_le_left i _

theorem slice_zero_length (a : List α) : slice a 0 a.length = a := by
  unfold slice
  rw [List.take_length, List.drop_zero]

theorem length_slice (a : List α) {i j : ℕ} (hj : j ≤ a.length) : (slice a i j).length = j - i := by
  unfold slice
  rw [List.length_drop, List.length_take, Nat.min_eq_left hj]

theorem slice_eq_cons (a : List α) {i j : ℕ} (hij : i < j) (hi : i < a.length) :
    slice a i j = a[i] :: slice a (i + 1) j := by
  have hlt : i < (a.take j).length := by
    rw [List.length_take]
    exact Nat.lt_min.mpr ⟨hij, hi⟩
  rw [slice, List.drop_eq_getElem_cons hlt, List.getElem_take, slice]

namespace Opcode

/-- **The opcode fits the two sequences**: its stretches lie in them and are not both
empty, those of an `equal` are equal, and nothing takes the place of what is deleted, or
stands in the place of what is inserted. -/
structure Fits (a b : List α) (c : Opcode) : Prop where
  old : c.i1 ≤ c.i2
  new : c.j1 ≤ c.j2
  oldEnd : c.i2 ≤ a.length
  newEnd : c.j2 ≤ b.length
  nonempty : c.i1 < c.i2 ∨ c.j1 < c.j2
  equal : c.tag = .equal → slice a c.i1 c.i2 = slice b c.j1 c.j2
  delete : c.tag = .delete → c.j1 = c.j2
  insert : c.tag = .insert → c.i1 = c.i2

variable {a b : List α} {c : Opcode}

theorem Fits.length_eq (h : c.Fits a b) (htag : c.tag = .equal) :
    c.i2 - c.i1 = c.j2 - c.j1 := by
  have hlength := congrArg List.length (h.equal htag)
  rwa [length_slice a h.oldEnd, length_slice b h.newEnd] at hlength

end Opcode

/-! ## Scripts -/

/-- **The opcodes lead from one pair of positions to another**, each beginning where the
one before it ends. -/
def Leads (a b : List α) : ℕ → ℕ → List Opcode → ℕ → ℕ → Prop
  | i, j, [], i', j' => i = i' ∧ j = j'
  | i, j, c :: cs, i', j' => c.i1 = i ∧ c.j1 = j ∧ c.Fits a b ∧ Leads a b c.i2 c.j2 cs i' j'

variable {a b : List α}

theorem Leads.append {xs ys : List Opcode} {i j m n i' j' : ℕ} (hxs : Leads a b i j xs m n)
    (hys : Leads a b m n ys i' j') : Leads a b i j (xs ++ ys) i' j' := by
  induction xs generalizing i j with
  | nil =>
    obtain ⟨rfl, rfl⟩ := hxs
    exact hys
  | cons c cs ih => exact ⟨hxs.1, hxs.2.1, hxs.2.2.1, ih hxs.2.2.2⟩

theorem Leads.single {c : Opcode} (h : c.Fits a b) : Leads a b c.i1 c.j1 [c] c.i2 c.j2 :=
  ⟨rfl, rfl, h, rfl, rfl⟩

theorem Leads.le {xs : List Opcode} {i j i' j' : ℕ} (h : Leads a b i j xs i' j') :
    i ≤ i' ∧ j ≤ j' := by
  induction xs generalizing i j with
  | nil => exact ⟨h.1.le, h.2.le⟩
  | cons c cs ih =>
    obtain ⟨rfl, rfl, hfits, hrest⟩ := h
    exact ⟨hfits.old.trans (ih hrest).1, hfits.new.trans (ih hrest).2⟩

/-! ## Matching blocks -/

/-- **A matching block**: `a[a:a+size]` and `b[b:b+size]` are equal. -/
structure Block where
  a : ℕ
  b : ℕ
  size : ℕ
deriving DecidableEq, Repr

/-- **The matching blocks of two sequences**, from a pair of positions on: they go up in both, only
the last is empty, which stands at the ends, and between two others there is something that does
not match. -/
def MatchesFrom (a b : List α) : ℕ → ℕ → List Block → Prop
  | _, _, [] => False
  | i, j, [m] => m = ⟨a.length, b.length, 0⟩ ∧ i ≤ a.length ∧ j ≤ b.length
  | i, j, m :: n :: ms =>
    0 < m.size ∧ (i ≤ m.a ∧ j ≤ m.b) ∧ (m.a + m.size ≤ a.length ∧ m.b + m.size ≤ b.length)
      ∧ slice a m.a (m.a + m.size) = slice b m.b (m.b + m.size)
      ∧ (ms = [] ∨ m.a + m.size < n.a ∨ m.b + m.size < n.b)
      ∧ MatchesFrom a b (m.a + m.size) (m.b + m.size) (n :: ms)

/-- The opcode for what does not match in front of a block. -/
def gapOpcodes (i i' j j' : ℕ) : List Opcode :=
  if i < i' ∧ j < j' then [⟨.replace, i, i', j, j'⟩]
  else if i < i' then [⟨.delete, i, i', j, j'⟩]
  else if j < j' then [⟨.insert, i, i', j, j'⟩]
  else []

def blockOpcodes (m : Block) : List Opcode :=
  if m.size = 0 then [] else [⟨.equal, m.a, m.a + m.size, m.b, m.b + m.size⟩]

/-- `get_opcodes`, from the matching blocks that are left. -/
def opcodesFrom : ℕ → ℕ → List Block → List Opcode
  | _, _, [] => []
  | i, j, m :: ms =>
    gapOpcodes i m.a j m.b ++ blockOpcodes m ++ opcodesFrom (m.a + m.size) (m.b + m.size) ms

theorem leads_gapOpcodes {i i' j j' : ℕ} (hi : i ≤ i') (hj : j ≤ j') (hi' : i' ≤ a.length)
    (hj' : j' ≤ b.length) : Leads a b i j (gapOpcodes i i' j j') i' j' := by
  rw [gapOpcodes]
  split
  · next h =>
    exact Leads.single ⟨hi, hj, hi', hj', .inl h.1, fun h => (nomatch h), fun h => (nomatch h),
      fun h => (nomatch h)⟩
  · split
    · next h hlt =>
      exact Leads.single ⟨hi, hj, hi', hj', .inl hlt, fun h => (nomatch h),
        fun _ => Nat.le_antisymm hj (Nat.le_of_not_lt fun hlt' => h ⟨hlt, hlt'⟩),
        fun h => (nomatch h)⟩
    · split
      · next hge hlt =>
        exact Leads.single ⟨hi, hj, hi', hj', .inr hlt, fun h => (nomatch h), fun h => (nomatch h),
          fun _ => Nat.le_antisymm hi (Nat.le_of_not_lt hge)⟩
      · next hge hge' =>
        exact ⟨Nat.le_antisymm hi (Nat.le_of_not_lt hge), Nat.le_antisymm hj (Nat.le_of_not_lt hge')⟩

/-- **The opcodes of matching blocks** are a script. -/
theorem leads_opcodesFrom {ms : List Block} {i j : ℕ} (h : MatchesFrom a b i j ms) :
    Leads a b i j (opcodesFrom i j ms) a.length b.length := by
  induction ms generalizing i j with
  | nil => exact h.elim
  | cons m ms ih =>
    rw [opcodesFrom]
    cases ms with
    | nil =>
      obtain ⟨rfl, hi, hj⟩ := h
      rw [opcodesFrom, blockOpcodes, if_pos rfl, List.append_nil, List.append_nil]
      exact leads_gapOpcodes hi hj le_rfl le_rfl
    | cons n ms =>
      obtain ⟨hsize, ⟨hi, hj⟩, ⟨hi', hj'⟩, hequal, -, hrest⟩ := h
      rw [blockOpcodes, if_neg hsize.ne']
      refine ((leads_gapOpcodes hi hj (by omega) (by omega)).append (Leads.single
        (c := ⟨.equal, m.a, m.a + m.size, m.b, m.b + m.size⟩) ?_)).append (ih hrest)
      exact ⟨Nat.le_add_right _ _, Nat.le_add_right _ _, hi', hj',
        .inl (Nat.lt_add_of_pos_right hsize), fun _ => hequal, fun h => (nomatch h),
        fun h => (nomatch h)⟩

/-- An opcode and the next: one of them is an `equal`. -/
def Opcode.Alternate (c d : Opcode) : Prop := c.tag = .equal ↔ d.tag ≠ .equal

theorem gapOpcodes_eq (i i' j j' : ℕ) : (i' ≤ i ∧ j' ≤ j ∧ gapOpcodes i i' j j' = [])
    ∨ ∃ c : Opcode, c.tag ≠ .equal ∧ gapOpcodes i i' j j' = [c] := by
  rw [gapOpcodes]
  split
  · exact .inr ⟨_, Tag.noConfusion, rfl⟩
  · split
    · exact .inr ⟨_, Tag.noConfusion, rfl⟩
    · split
      · exact .inr ⟨_, Tag.noConfusion, rfl⟩
      · next h h' => exact .inl ⟨Nat.le_of_not_lt h, Nat.le_of_not_lt h', rfl⟩

theorem head?_opcodesFrom {m : Block} {ms : List Block} {i j : ℕ}
    (h : MatchesFrom a b i j (m :: ms)) (hgap : ms = [] ∨ i < m.a ∨ j < m.b) :
    ∀ c ∈ (opcodesFrom i j (m :: ms)).head?, c.tag ≠ .equal := by
  rw [opcodesFrom]
  rcases gapOpcodes_eq i m.a j m.b with ⟨hi, hj, hnil⟩ | ⟨c, hc, hcons⟩
  · obtain rfl : ms = [] := hgap.resolve_right (by omega)
    obtain ⟨rfl, -⟩ := h
    rw [hnil, blockOpcodes, if_pos rfl, opcodesFrom]
    exact fun c hc => nomatch hc
  · rw [hcons]
    intro d hd
    obtain rfl := Option.some.inj hd
    exact hc

/-- **Of two opcodes next to each other one is an `equal`.** -/
theorem alternate_opcodesFrom {ms : List Block} {i j : ℕ} (h : MatchesFrom a b i j ms) :
    (opcodesFrom i j ms).IsChain Opcode.Alternate := by
  induction ms generalizing i j with
  | nil => exact h.elim
  | cons m ms ih =>
    rw [opcodesFrom, List.append_assoc]
    have hrest : (blockOpcodes m ++ opcodesFrom (m.a + m.size) (m.b + m.size) ms).IsChain
        Opcode.Alternate := by
      cases ms with
      | nil =>
        obtain ⟨rfl, -⟩ := h
        exact List.IsChain.nil
      | cons n ms =>
        obtain ⟨hsize, -, -, -, hgap, hrest⟩ := h
        rw [blockOpcodes, if_neg hsize.ne', List.singleton_append]
        refine List.isChain_cons.mpr ⟨fun d hd => ?_, ih hrest⟩
        exact ⟨fun _ => head?_opcodesFrom hrest hgap d hd, fun _ => rfl⟩
    have hhead : ∀ d ∈ (blockOpcodes m ++ opcodesFrom (m.a + m.size) (m.b + m.size) ms).head?,
        d.tag = .equal := by
      cases ms with
      | nil =>
        obtain ⟨rfl, -⟩ := h
        exact fun d hd => nomatch hd
      | cons n ms =>
        rw [blockOpcodes, if_neg h.1.ne']
        intro d hd
        obtain rfl := Option.some.inj hd
        rfl
    rcases gapOpcodes_eq i m.a j m.b with ⟨-, -, hnil⟩ | ⟨c, hc, hcons⟩
    · rwa [hnil, List.nil_append]
    · rw [hcons, List.singleton_append]
      refine List.isChain_cons.mpr ⟨fun d hd => ?_, hrest⟩
      exact ⟨fun hequal => absurd hequal hc, fun hne => absurd (hhead d hd) hne⟩

/-- **A way to find matching blocks.** -/
structure BlockMatcher (α : Type*) where
  getMatchingBlocks : List α → List α → List Block
  matching : ∀ a b, MatchesFrom a b 0 0 (getMatchingBlocks a b)

def BlockMatcher.getOpcodes (matcher : BlockMatcher α) (a b : List α) : List Opcode :=
  opcodesFrom 0 0 (matcher.getMatchingBlocks a b)

end Difflib
