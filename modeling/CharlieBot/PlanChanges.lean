import CharlieBot.PlanTokens

/-!
# What a plan changed

Two versions of a plan are compared twice: the leaves of the one with those of the other, and for
two leaves that belong together their tokens. The script for the tokens is not shown as it is. What
is not equal becomes one replacement, and so do replacements with less than three equal tokens
between them, one after another.

How matching blocks are found is the library's, and a parameter here. **Whatever blocks it finds**,
the merged script is one from the old tokens to the new, in which every two replacements have at
least three equal tokens between them (`mergedOpcodes_spec`), and the pairs of leaves are all the
old leaves and all the new ones, each once and in order (`align_covers`).
-/

namespace PlanChanges

open Difflib PlanLeaves

/-! ## Merged opcodes -/

/-- The first inner loop of `_merged_opcodes`: the ends of a replacement move over what is not
equal. -/
def overChanged (oldEnd newEnd : ℕ) : List Opcode → ℕ × ℕ × List Opcode
  | [] => (oldEnd, newEnd, [])
  | c :: codes =>
    if c.tag = .equal then (oldEnd, newEnd, c :: codes) else overChanged c.i2 c.j2 codes

/-- The second inner loop: they move over a short stretch that is equal, and what follows it. -/
def overShort (oldEnd newEnd : ℕ) : List Opcode → ℕ × ℕ × List Opcode
  | equal :: following :: codes =>
    if equal.tag ≠ .equal ∨ 3 ≤ equal.i2 - equal.i1 then
      (oldEnd, newEnd, equal :: following :: codes)
    else overShort following.i2 following.j2 codes
  | codes => (oldEnd, newEnd, codes)

theorem length_overChanged (oldEnd newEnd : ℕ) (codes : List Opcode) :
    (overChanged oldEnd newEnd codes).2.2.length ≤ codes.length := by
  induction codes generalizing oldEnd newEnd with
  | nil => exact le_rfl
  | cons c codes ih =>
    rw [overChanged]
    split
    · exact le_rfl
    · exact (ih _ _).trans (Nat.le_succ _)

theorem length_overShort (oldEnd newEnd : ℕ) (codes : List Opcode) :
    (overShort oldEnd newEnd codes).2.2.length ≤ codes.length := by
  induction codes using List.twoStepInduction generalizing oldEnd newEnd with
  | nil => exact le_rfl
  | singleton c => exact le_rfl
  | cons_cons equal following codes ih _ =>
    rw [overShort]
    split
    · exact le_rfl
    · exact (ih _ _).trans ((Nat.le_succ _).trans (Nat.le_succ _))

/-- **`_merged_opcodes`**, on the opcodes that are left. -/
def mergeFrom : List Opcode → List Opcode
  | [] => []
  | c :: codes =>
    if c.tag = .equal then c :: mergeFrom codes
    else
      let changed := overChanged c.i2 c.j2 codes
      let short := overShort changed.1 changed.2.1 changed.2.2
      ⟨.replace, c.i1, short.1, c.j1, short.2.1⟩ :: mergeFrom short.2.2
termination_by codes => codes.length
decreasing_by
  · exact Nat.lt_succ_self _
  · exact Nat.lt_succ_of_le ((length_overShort _ _ _).trans (length_overChanged _ _ _))

/-- **`_merged_opcodes`**. -/
def mergedOpcodes (matcher : BlockMatcher (List Char)) (old new : List Token) : List Opcode :=
  mergeFrom (matcher.getOpcodes (old.map (·.value)) (new.map (·.value)))

section Merge

variable {α : Type*} {a b : List α}

/-- Behind what is not equal comes what is, so the first loop finds nothing in a script whose
opcodes alternate. -/
theorem overChanged_eq {c : Opcode} {codes : List Opcode}
    (h : (c :: codes).IsChain Opcode.Alternate) (hc : c.tag ≠ .equal) :
    overChanged c.i2 c.j2 codes = (c.i2, c.j2, codes) ∧ ∀ d ∈ codes.head?, d.tag = .equal := by
  have hhead : ∀ d ∈ codes.head?, d.tag = .equal := fun d hd => by
    by_contra hne
    exact hc (((List.isChain_cons.mp h).1 d hd).mpr hne)
  refine ⟨?_, hhead⟩
  cases codes with
  | nil => rfl
  | cons d codes => rw [overChanged, if_pos (hhead d rfl)]

/-- **The second loop leads on**, up to a stretch that is equal and not short, or to the last. -/
theorem overShort_spec {codes : List Opcode} {i j i' j' : ℕ} (h : Leads a b i j codes i' j')
    (hchain : codes.IsChain Opcode.Alternate) (hhead : ∀ d ∈ codes.head?, d.tag = .equal) :
    let out := overShort i j codes
    (i ≤ out.1 ∧ j ≤ out.2.1) ∧ Leads a b out.1 out.2.1 out.2.2 i' j'
      ∧ out.2.2.IsChain Opcode.Alternate ∧ (∀ d ∈ out.2.2.head?, d.tag = .equal)
      ∧ ∀ e f rest, out.2.2 = e :: f :: rest → 3 ≤ e.i2 - e.i1 := by
  induction codes using List.twoStepInduction generalizing i j with
  | nil =>
    exact ⟨⟨le_rfl, le_rfl⟩, h, hchain, hhead, fun e f rest hrest => nomatch hrest⟩
  | singleton c =>
    exact ⟨⟨le_rfl, le_rfl⟩, h, hchain, hhead, fun e f rest hrest => nomatch hrest⟩
  | cons_cons equal following codes ih _ =>
    intro out
    by_cases hstop : equal.tag ≠ .equal ∨ 3 ≤ equal.i2 - equal.i1
    · have hout : out = (i, j, equal :: following :: codes) := if_pos hstop
      rw [hout]
      refine ⟨⟨le_rfl, le_rfl⟩, h, hchain, hhead, fun e f rest hrest => ?_⟩
      obtain ⟨rfl, -⟩ := List.cons.inj hrest
      exact hstop.resolve_left fun hne => hne (hhead equal rfl)
    · have hout : out = overShort following.i2 following.j2 codes := if_neg hstop
      rw [hout]
      obtain ⟨rfl, rfl, hfits, hi, hj, hfits', hrest⟩ := h
      obtain ⟨-, hchain⟩ := List.isChain_cons.mp hchain
      obtain ⟨hnext, hchain'⟩ := List.isChain_cons.mp hchain
      have hne : following.tag ≠ .equal := by
        have halternate := (List.isChain_cons_cons.mp ‹(equal :: following :: codes).IsChain _›).1
        exact halternate.mp (hhead equal rfl)
      obtain ⟨hle, hspec⟩ := ih hrest hchain' fun d hd => by
        by_contra hd'
        exact hne ((hnext d hd).mpr hd')
      have hold := hfits.old
      have hnew := hfits.new
      have hold' := hfits'.old
      have hnew' := hfits'.new
      exact ⟨⟨by omega, by omega⟩, hspec⟩

/-- **What the merged opcodes are to be**: a script between the same positions, of stretches that
are equal and replacements in turn, with no short stretch between two replacements. -/
structure IsMerged (a b : List α) (i j : ℕ) (codes : List Opcode) : Prop where
  leads : Leads a b i j codes a.length b.length
  tags : ∀ c ∈ codes, c.tag = .equal ∨ c.tag = .replace
  alternate : codes.IsChain Opcode.Alternate
  long : ∀ xs p e q ys, codes = xs ++ p :: e :: q :: ys → p.tag = .replace → e.tag = .equal →
    q.tag = .replace → 3 ≤ e.i2 - e.i1

theorem IsMerged.cons {c : Opcode} {codes : List Opcode} (hfits : c.Fits a b)
    (hrest : IsMerged a b c.i2 c.j2 codes) (htag : c.tag = .equal ∨ c.tag = .replace)
    (hhead : ∀ d ∈ codes.head?, c.Alternate d)
    (hlong : ∀ e q ys, codes = e :: q :: ys → c.tag = .replace → 3 ≤ e.i2 - e.i1) :
    IsMerged a b c.i1 c.j1 (c :: codes) where
  leads := ⟨rfl, rfl, hfits, hrest.leads⟩
  tags d hd := by
    rcases List.mem_cons.mp hd with rfl | hd
    · exact htag
    · exact hrest.tags d hd
  alternate := List.isChain_cons.mpr ⟨hhead, hrest.alternate⟩
  long xs p e q ys hcodes hp he hq := by
    cases xs with
    | nil =>
      obtain ⟨rfl, htail⟩ := List.cons.inj hcodes
      exact hlong e q ys htail hp
    | cons x xs => exact hrest.long xs p e q ys (List.cons.inj hcodes).2 hp he hq

theorem head?_mergeFrom (codes : List Opcode) :
    (∀ d ∈ (mergeFrom codes).head?, ∃ c ∈ codes.head?, d.tag = .equal ↔ c.tag = .equal) := by
  cases codes with
  | nil =>
    rw [mergeFrom]
    exact fun d hd => nomatch hd
  | cons c codes =>
    rw [mergeFrom]
    split
    · intro d hd
      exact ⟨c, rfl, by rw [← Option.some.inj hd]⟩
    · next hc =>
      intro d hd
      refine ⟨c, rfl, ?_⟩
      rw [← Option.some.inj hd]
      exact ⟨fun h => (nomatch h), fun h => absurd h hc⟩

/-- **The merged opcodes of a script whose opcodes alternate.** -/
theorem isMerged_mergeFrom {codes : List Opcode} {i j : ℕ}
    (h : Leads a b i j codes a.length b.length) (hchain : codes.IsChain Opcode.Alternate) :
    IsMerged a b i j (mergeFrom codes) := by
  induction codes using mergeFrom.induct generalizing i j with
  | case1 =>
    rw [mergeFrom]
    exact ⟨h, fun c hc => absurd hc List.not_mem_nil, List.IsChain.nil,
      fun xs p e q ys hcodes => absurd hcodes.symm
        (List.append_ne_nil_of_right_ne_nil xs (List.cons_ne_nil _ _))⟩
  | case2 c codes hc ih =>
    rw [mergeFrom, if_pos hc]
    obtain ⟨rfl, rfl, hfits, hrest⟩ := h
    obtain ⟨hnext, hchain⟩ := List.isChain_cons.mp hchain
    refine (ih hrest hchain).cons hfits (.inl hc) (fun d hd => ?_) fun e q ys _ hreplace => ?_
    · obtain ⟨c', hc', htag⟩ := head?_mergeFrom codes d hd
      exact (hnext c' hc').trans (not_congr htag.symm)
    · exact nomatch hc.symm.trans hreplace
  | case3 c codes hc changed =>
    rename_i short ih
    rw [mergeFrom, if_neg hc]
    obtain ⟨rfl, rfl, hfits, hrest⟩ := h
    obtain ⟨hchanged, hhead⟩ := overChanged_eq hchain hc
    have hshort : short = overShort c.i2 c.j2 codes := by
      show overShort changed.1 changed.2.1 changed.2.2 = _
      rw [show changed = (c.i2, c.j2, codes) from hchanged]
    obtain ⟨⟨hold, hnew⟩, hleads, hchain', hequal, hlong⟩ :=
      overShort_spec hrest (List.isChain_cons.mp hchain).2 hhead
    rw [← hshort] at hold hnew hleads hchain' hequal hlong
    have hend := hleads.le
    have hsome := hfits.nonempty
    have hle := hfits.old
    have hle' := hfits.new
    refine @IsMerged.cons α a b ⟨.replace, c.i1, short.1, c.j1, short.2.1⟩ _ ?_ (ih hleads hchain')
      (.inr rfl) (fun d hd => ?_) fun e q ys hcodes _ => ?_
    · exact ⟨hle.trans hold, hle'.trans hnew, hend.1, hend.2, by
        show c.i1 < short.1 ∨ c.j1 < short.2.1
        omega, fun h => (nomatch h), fun h => (nomatch h), fun h => (nomatch h)⟩
    · obtain ⟨c', hc', htag⟩ := head?_mergeFrom _ d hd
      exact ⟨fun h => (nomatch h), fun h => absurd (htag.mpr (hequal c' hc')) h⟩
    · -- the first of what is left is an `equal`, and kept as it is
      cases hleft : short.2.2 with
      | nil =>
        rw [hleft, mergeFrom] at hcodes
        exact nomatch hcodes
      | cons e' rest =>
        rw [hleft, mergeFrom, if_pos (hequal e' (by rw [hleft]; rfl))] at hcodes
        obtain ⟨rfl, hrest⟩ := List.cons.inj hcodes
        cases rest with
        | nil =>
          rw [mergeFrom] at hrest
          exact nomatch hrest
        | cons f rest => exact hlong e' f rest hleft

end Merge

/-- **The merged opcodes of any two lists of tokens.** -/
theorem mergedOpcodes_spec (matcher : BlockMatcher (List Char)) (old new : List Token) :
    IsMerged (old.map (·.value)) (new.map (·.value)) 0 0 (mergedOpcodes matcher old new) :=
  isMerged_mergeFrom (leads_opcodesFrom (matcher.matching _ _))
    (alternate_opcodesFrom (matcher.matching _ _))

/-! ## Pairs of leaves -/

/-- `re.sub(r"\s+", " ", text)`, behind a character that is white space or not. -/
def collapse : Bool → List Char → List Char
  | _, [] => []
  | behindSpace, c :: rest =>
    if Text.isSpace c then (if behindSpace then [] else [' ']) ++ collapse true rest
    else c :: collapse false rest

def normalise (text : List Char) : List Char := Text.strip (collapse false text)

structure LeafChange where
  old : Option Leaf
  new : Option Leaf
  newIndex : ℕ

section Align

variable (old new : List Leaf)

/-- An old leaf and a new one, by their indices; `none` where an index is out of range. -/
def paired (i j : ℕ) : Option LeafChange :=
  old[i]?.bind fun o => new[j]?.map fun n => ⟨some o, some n, j⟩

/-- An old leaf by itself, and where it goes. -/
def deleted (i anchor : ℕ) : Option LeafChange := old[i]?.map fun o => ⟨some o, none, anchor⟩

def inserted (j : ℕ) : Option LeafChange := new[j]?.map fun n => ⟨none, some n, j⟩

/-- The changes of one opcode, in the loop of `_align`. -/
def changesOf (c : Opcode) : Option (List LeafChange) :=
  match c.tag with
  | .equal =>
    (List.range' c.i1 (c.i2 - c.i1)).mapM fun index => paired old new index (c.j1 + index - c.i1)
  | .replace =>
    let both := min (c.i2 - c.i1) (c.j2 - c.j1)
    ((List.range' 0 both).mapM fun index => paired old new (c.i1 + index) (c.j1 + index)).bind
      fun pairs => ((List.range' both (c.i2 - c.i1 - both)).mapM fun index =>
        deleted old (c.i1 + index) (c.j1 + both)).bind
      fun ghosts => ((List.range' both (c.j2 - c.j1 - both)).mapM fun index =>
        inserted new (c.j1 + index)).map
      fun fresh => pairs ++ ghosts ++ fresh
  | .delete => (List.range' c.i1 (c.i2 - c.i1)).mapM fun index => deleted old index c.j1
  | .insert => (List.range' c.j1 (c.j2 - c.j1)).mapM fun index => inserted new index

/-- **`_align`**; `none` where it raises an `IndexError`. -/
def align (matcher : BlockMatcher (List Char)) : Option (List LeafChange) :=
  ((matcher.getOpcodes (old.map fun leaf => normalise leaf.text)
    (new.map fun leaf => normalise leaf.text)).mapM (changesOf old new)).map List.flatten

end Align

/-- The old leaves and the new leaves of some changes, in their order. -/
def Covers (changes : List LeafChange) (olds news : List Leaf) : Prop :=
  changes.filterMap (·.old) = olds ∧ changes.filterMap (·.new) = news

section Cover

variable {old new : List Leaf}

theorem Covers.append {xs ys : List LeafChange} {a b c d : List Leaf} (h : Covers xs a b)
    (h' : Covers ys c d) : Covers (xs ++ ys) (a ++ c) (b ++ d) :=
  ⟨by rw [List.filterMap_append, h.1, h'.1], by rw [List.filterMap_append, h.2, h'.2]⟩

/-- The stretches of the old leaves and of the new ones that are left at an index of a loop, where
the loop passes over the ones, the others or both. -/
theorem mapM_range'_covers {f : ℕ → Option LeafChange} {left : ℕ → List Leaf × List Leaf}
    {start n : ℕ} (hend : left (start + n) = ([], []))
    (h : ∀ k, start ≤ k → k < start + n → ∃ c, f k = some c
      ∧ left k = (c.old.toList ++ (left (k + 1)).1, c.new.toList ++ (left (k + 1)).2)) :
    ∃ cs, (List.range' start n).mapM f = some cs ∧ Covers cs (left start).1 (left start).2 := by
  induction n generalizing start with
  | zero =>
    rw [Nat.add_zero] at hend
    exact ⟨[], rfl, by rw [hend]; exact ⟨rfl, rfl⟩⟩
  | succ n ih =>
    obtain ⟨c, hc, hleft⟩ := h start le_rfl (Nat.lt_add_of_pos_right n.succ_pos)
    obtain ⟨cs, hcs, hcovers⟩ := @ih (start + 1) (by rwa [Nat.add_right_comm, Nat.add_assoc])
      fun k hk hlt => h k ((Nat.le_succ start).trans hk) (by omega)
    refine ⟨c :: cs, ?_, ?_⟩
    · rw [List.range'_succ, List.mapM_cons, hc, hcs]
      rfl
    · rw [hleft]
      have hcons : Covers [c] c.old.toList c.new.toList := by
        obtain ⟨old, new, newIndex⟩ := c
        cases old <;> cases new <;> exact ⟨rfl, rfl⟩
      exact hcons.append hcovers

theorem paired_covers {i j n : ℕ} {index index' : ℕ → ℕ} (start : ℕ)
    (hindex : ∀ k, index (start + k) = i + k) (hindex' : ∀ k, index' (start + k) = j + k)
    (hi : i + n ≤ old.length) (hj : j + n ≤ new.length) :
    ∃ cs, (List.range' start n).mapM (fun k => paired old new (index k) (index' k)) = some cs
      ∧ Covers cs (slice old i (i + n)) (slice new j (j + n)) := by
  have hloop := @mapM_range'_covers (fun k => paired old new (index k) (index' k))
    (fun k => (slice old (i + (k - start)) (i + n), slice new (j + (k - start)) (j + n))) start n
    (by rw [Nat.add_sub_cancel_left, slice_self, slice_self]) fun k hk hlt => by
      obtain ⟨d, rfl⟩ := Nat.exists_eq_add_of_le hk
      have hold : i + d < old.length := by omega
      have hnew : j + d < new.length := by omega
      refine ⟨⟨some old[i + d], some new[j + d], j + d⟩, ?_, ?_⟩
      · rw [hindex, hindex', paired, List.getElem?_eq_getElem hold, List.getElem?_eq_getElem hnew]
        rfl
      · rw [Nat.add_sub_cancel_left, Nat.add_assoc start, Nat.add_sub_cancel_left,
          slice_eq_cons old (by omega) hold, slice_eq_cons new (by omega) hnew]
        rfl
  simpa only [Nat.sub_self, Nat.add_zero] using hloop

theorem deleted_covers {i n anchor : ℕ} {index : ℕ → ℕ} (start : ℕ)
    (hindex : ∀ k, index (start + k) = i + k) (hi : i + n ≤ old.length) :
    ∃ cs, (List.range' start n).mapM (fun k => deleted old (index k) anchor) = some cs
      ∧ Covers cs (slice old i (i + n)) [] := by
  have hloop := @mapM_range'_covers (fun k => deleted old (index k) anchor)
    (fun k => (slice old (i + (k - start)) (i + n), [])) start n
    (by rw [Nat.add_sub_cancel_left, slice_self]) fun k hk hlt => by
      obtain ⟨d, rfl⟩ := Nat.exists_eq_add_of_le hk
      have hold : i + d < old.length := by omega
      refine ⟨⟨some old[i + d], none, anchor⟩, ?_, ?_⟩
      · rw [hindex, deleted, List.getElem?_eq_getElem hold]
        rfl
      · rw [Nat.add_sub_cancel_left, Nat.add_assoc start, Nat.add_sub_cancel_left,
          slice_eq_cons old (by omega) hold]
        rfl
  simpa only [Nat.sub_self, Nat.add_zero] using hloop

theorem inserted_covers {j n : ℕ} {index : ℕ → ℕ} (start : ℕ)
    (hindex : ∀ k, index (start + k) = j + k) (hj : j + n ≤ new.length) :
    ∃ cs, (List.range' start n).mapM (fun k => inserted new (index k)) = some cs
      ∧ Covers cs [] (slice new j (j + n)) := by
  have hloop := @mapM_range'_covers (fun k => inserted new (index k))
    (fun k => ([], slice new (j + (k - start)) (j + n))) start n
    (by rw [Nat.add_sub_cancel_left, slice_self]) fun k hk hlt => by
      obtain ⟨d, rfl⟩ := Nat.exists_eq_add_of_le hk
      have hnew : j + d < new.length := by omega
      refine ⟨⟨none, some new[j + d], j + d⟩, ?_, ?_⟩
      · rw [hindex, inserted, List.getElem?_eq_getElem hnew]
        rfl
      · rw [Nat.add_sub_cancel_left, Nat.add_assoc start, Nat.add_sub_cancel_left,
          slice_eq_cons new (by omega) hnew]
        rfl
  simpa only [Nat.sub_self, Nat.add_zero] using hloop

theorem changesOf_covers {α : Type*} {a b : List α} {c : Opcode} (hfits : c.Fits a b)
    (ha : a.length = old.length) (hb : b.length = new.length) :
    ∃ cs, changesOf old new c = some cs
      ∧ Covers cs (slice old c.i1 c.i2) (slice new c.j1 c.j2) := by
  have hold := hfits.old
  have hnew := hfits.new
  have hi := ha ▸ hfits.oldEnd
  have hj := hb ▸ hfits.newEnd
  unfold changesOf
  cases htag : c.tag with
  | equal =>
    have hlength := hfits.length_eq htag
    obtain ⟨cs, hcs, hcovers⟩ := @paired_covers old new c.i1 c.j1 (c.i2 - c.i1) id
      (fun k => c.j1 + k - c.i1) c.i1 (fun k => rfl) (fun k => by omega) (by omega)
      (by omega)
    refine ⟨cs, hcs, ?_⟩
    rwa [Nat.add_sub_cancel' hold, hlength, Nat.add_sub_cancel' hnew] at hcovers
  | replace =>
    set both := min (c.i2 - c.i1) (c.j2 - c.j1) with hboth
    obtain ⟨pairs, hpairs, hcovers⟩ := @paired_covers old new c.i1 c.j1 both (c.i1 + ·) (c.j1 + ·) 0
      (fun k => by rw [Nat.zero_add]) (fun k => by rw [Nat.zero_add]) (by omega) (by omega)
    obtain ⟨ghosts, hghosts, hcovers'⟩ := @deleted_covers old (c.i1 + both) (c.i2 - c.i1 - both)
      (c.j1 + both) (c.i1 + ·) both (fun k => (Nat.add_assoc _ _ _).symm) (by omega)
    obtain ⟨fresh, hfresh, hcovers''⟩ := @inserted_covers new (c.j1 + both) (c.j2 - c.j1 - both)
      (c.j1 + ·) both (fun k => (Nat.add_assoc _ _ _).symm) (by omega)
    refine ⟨pairs ++ ghosts ++ fresh, ?_, ?_⟩
    · dsimp only
      rw [hpairs, Option.bind_some, hghosts, Option.bind_some, hfresh]
      rfl
    · rw [show c.i1 + both + (c.i2 - c.i1 - both) = c.i2 by omega] at hcovers'
      rw [show c.j1 + both + (c.j2 - c.j1 - both) = c.j2 by omega] at hcovers''
      have hall := (hcovers.append hcovers').append hcovers''
      rwa [List.append_nil, List.append_nil, slice_append old (Nat.le_add_right _ _) (by omega),
        slice_append new (Nat.le_add_right _ _) (by omega)] at hall
  | delete =>
    obtain ⟨cs, hcs, hcovers⟩ := @deleted_covers old c.i1 (c.i2 - c.i1) c.j1 id c.i1 (fun k => rfl)
      (by omega)
    refine ⟨cs, hcs, ?_⟩
    rw [← hfits.delete htag, slice_self]
    rwa [Nat.add_sub_cancel' hold] at hcovers
  | insert =>
    obtain ⟨cs, hcs, hcovers⟩ := @inserted_covers new c.j1 (c.j2 - c.j1) id c.j1 (fun k => rfl)
      (by omega)
    refine ⟨cs, hcs, ?_⟩
    rw [← hfits.insert htag, slice_self]
    rwa [Nat.add_sub_cancel' hnew] at hcovers

theorem mapM_changesOf_covers {α : Type*} {a b : List α} (ha : a.length = old.length)
    (hb : b.length = new.length) {codes : List Opcode} {i j i' j' : ℕ}
    (h : Leads a b i j codes i' j') : ∃ css, codes.mapM (changesOf old new) = some css
      ∧ Covers css.flatten (slice old i i') (slice new j j') := by
  induction codes generalizing i j with
  | nil =>
    obtain ⟨rfl, rfl⟩ := h
    exact ⟨[], rfl, by rw [slice_self, slice_self]; exact ⟨rfl, rfl⟩⟩
  | cons c codes ih =>
    obtain ⟨rfl, rfl, hfits, hrest⟩ := h
    obtain ⟨cs, hcs, hcovers⟩ := changesOf_covers hfits ha hb
    obtain ⟨css, hcss, hcovers'⟩ := ih hrest
    refine ⟨cs :: css, ?_, ?_⟩
    · rw [List.mapM_cons, hcs, hcss]
      rfl
    · rw [List.flatten_cons, ← slice_append old hfits.old hrest.le.1,
        ← slice_append new hfits.new hrest.le.2]
      exact hcovers.append hcovers'

end Cover

/-- **The aligned leaves**: no index is out of range, and the changes have every old leaf and every
new one, each once and in order. -/
theorem align_covers (matcher : BlockMatcher (List Char)) (old new : List Leaf) :
    ∃ changes, align old new matcher = some changes ∧ Covers changes old new := by
  have hleads := leads_opcodesFrom (matcher.matching (old.map fun leaf => normalise leaf.text)
    (new.map fun leaf => normalise leaf.text))
  obtain ⟨css, hcss, hcovers⟩ := @mapM_changesOf_covers old new _ _ _ (List.length_map _)
    (List.length_map _) _ _ _ _ _ hleads
  refine ⟨css.flatten, ?_, ?_⟩
  · rw [align, BlockMatcher.getOpcodes, hcss]
    rfl
  · rwa [List.length_map, List.length_map, slice_zero_length, slice_zero_length] at hcovers

/-- **Merged opcodes and aligned leaves**, whatever matching blocks are found. -/
theorem merged_and_aligned (matcher : BlockMatcher (List Char)) :
    (∀ old new : List Token, IsMerged (old.map (·.value)) (new.map (·.value)) 0 0
      (mergedOpcodes matcher old new))
    ∧ ∀ old new : List Leaf, ∃ changes, align old new matcher = some changes
      ∧ Covers changes old new :=
  ⟨mergedOpcodes_spec matcher, align_covers matcher⟩

/-- Two lists of words, with one word between two that differ and three before the last. -/
def oldWords : List (List Char) := [['a'], ['t'], ['b'], ['x'], ['y'], ['z'], ['c']]

def newWords : List (List Char) := [['d'], ['t'], ['e'], ['x'], ['y'], ['z'], ['f']]

/-- `difflib`, on these words; nothing matches elsewhere. -/
def wordMatcher : BlockMatcher (List Char) where
  getMatchingBlocks a b :=
    if a = oldWords ∧ b = newWords then [⟨1, 1, 1⟩, ⟨3, 3, 3⟩, ⟨7, 7, 0⟩]
    else [⟨a.length, b.length, 0⟩]
  matching a b := by
    split
    · next h =>
      obtain ⟨rfl, rfl⟩ := h
      simp [MatchesFrom, slice, oldWords, newWords]
    · exact ⟨rfl, Nat.zero_le _, Nat.zero_le _⟩

/-- The tokens of some words; only their values are compared. -/
def wordTokens (words : List (List Char)) : List Token := words.map fun value => ⟨value, 0, 0, 0, 0⟩

/-- The first two replacements become one, the last does not. -/
theorem mergedOpcodes_words : mergedOpcodes wordMatcher (wordTokens oldWords) (wordTokens newWords)
      = [⟨.replace, 0, 3, 0, 3⟩, ⟨.equal, 3, 6, 3, 6⟩, ⟨.replace, 6, 7, 6, 7⟩]
    ∧ IsMerged oldWords newWords 0 0
      (mergedOpcodes wordMatcher (wordTokens oldWords) (wordTokens newWords)) := by
  refine ⟨?_, (merged_and_aligned wordMatcher).1 (wordTokens oldWords) (wordTokens newWords)⟩
  simp [mergedOpcodes, BlockMatcher.getOpcodes, wordMatcher, wordTokens, oldWords, newWords,
    opcodesFrom, gapOpcodes, blockOpcodes, mergeFrom, overChanged, overShort]

end PlanChanges
