import Mathlib.Data.List.Sort

/-!
# Directory trees, and copying one over another

A directory has its entries in the order of their names, so that two directories with the same
entries are equal (`ext_of_lookup`). A tree is copied over another one entry by
entry: a directory goes into the directory of its name, and a file takes the place of the
file of its name. What the target has besides stays, and where a file meets a directory
the copy goes astray or fails.

So a copy over what is left of an earlier one is exact if everything that is left there is of
the source, a file where that has a file and a directory where that has one (`fits`):
`copyTree_of_fits`.
-/

namespace DirTree

/-- **A node of a tree.** -/
inductive Node (κ β : Type*) where
  | file (bytes : List β)
  | dir (entries : List (κ × Node κ β))

variable {κ β ν : Type*} [LinearOrder κ]

/-! ## Entries in order -/

/-- The entries are in the order of their names. -/
def Sorted (entries : List (κ × ν)) : Prop := entries.Pairwise fun e f => e.1 < f.1

/-- An entry is put in its place. -/
def put : List (κ × ν) → κ → ν → List (κ × ν)
  | [], name, x => [(name, x)]
  | (n, y) :: entries, name, x =>
    if name < n then (name, x) :: (n, y) :: entries
    else if name = n then (name, x) :: entries
    else (n, y) :: put entries name x

theorem fst_of_mem_put {entries : List (κ × ν)} {name : κ} {x : ν} {e : κ × ν}
    (h : e ∈ put entries name x) : e.1 = name ∨ e ∈ entries := by
  induction entries with
  | nil => exact .inl (congrArg Prod.fst (List.mem_singleton.mp h))
  | cons first entries ih =>
    obtain ⟨n, y⟩ := first
    unfold put at h
    split at h
    · rcases List.mem_cons.mp h with rfl | h
      · exact .inl rfl
      · exact .inr h
    · split at h
      · rcases List.mem_cons.mp h with rfl | h
        · exact .inl rfl
        · exact .inr (List.mem_cons_of_mem _ h)
      · rcases List.mem_cons.mp h with rfl | h
        · exact .inr List.mem_cons_self
        · exact (ih h).imp_right (List.mem_cons_of_mem _)

theorem sorted_put {entries : List (κ × ν)} (h : Sorted entries) (name : κ) (x : ν) :
    Sorted (put entries name x) := by
  induction entries with
  | nil => exact List.pairwise_singleton _ _
  | cons first entries ih =>
    obtain ⟨n, y⟩ := first
    obtain ⟨hfirst, hrest⟩ := List.pairwise_cons.mp h
    unfold put
    split
    · next hlt =>
      refine List.pairwise_cons.mpr ⟨fun e he => ?_, h⟩
      rcases List.mem_cons.mp he with rfl | he
      · exact hlt
      · exact lt_trans hlt (hfirst e he)
    · split
      · next heq =>
        refine List.pairwise_cons.mpr ⟨fun e he => ?_, hrest⟩
        show name < e.1
        rw [heq]
        exact hfirst e he
      · next hnlt hne =>
        refine List.pairwise_cons.mpr ⟨fun e he => ?_, ih hrest⟩
        rcases fst_of_mem_put he with heq | he
        · show n < e.1
          rw [heq]
          exact lt_of_le_of_ne (not_lt.mp hnlt) (Ne.symm hne)
        · exact hfirst e he

theorem lookup_eq_none {entries : List (κ × ν)} {name : κ} (h : ∀ e ∈ entries, name < e.1) :
    entries.lookup name = none := by
  induction entries with
  | nil => rfl
  | cons first entries ih =>
    rw [List.lookup_cons, beq_false_of_ne (ne_of_lt (h first List.mem_cons_self))]
    exact ih fun e he => h e (List.mem_cons_of_mem _ he)

/-- **What is put is found, and the rest stays.** -/
theorem lookup_put {entries : List (κ × ν)} (name : κ) (x : ν) (other : κ) :
    (put entries name x).lookup other
      = if other = name then some x else entries.lookup other := by
  induction entries with
  | nil =>
    unfold put
    rw [List.lookup_cons]
    by_cases h : other = name
    · rw [if_pos h, h, beq_self_eq_true]
    · rw [if_neg h, beq_false_of_ne h]
  | cons first entries ih =>
    obtain ⟨n, y⟩ := first
    unfold put
    split
    · rw [List.lookup_cons]
      by_cases h : other = name
      · rw [if_pos h, h, beq_self_eq_true]
      · rw [if_neg h, beq_false_of_ne h]
    · split
      · next heq =>
        rw [List.lookup_cons, List.lookup_cons]
        by_cases h : other = name
        · rw [if_pos h, h, beq_self_eq_true]
        · rw [if_neg h, beq_false_of_ne h, beq_false_of_ne fun hn => h (hn.trans heq.symm)]
      · next hne =>
        rw [List.lookup_cons, ih]
        by_cases h : other = name
        · rw [if_pos h, if_pos h, beq_false_of_ne fun hn => hne (h.symm.trans hn)]
        · rw [if_neg h, if_neg h]
          exact List.lookup_cons.symm

/-- **Directories with the same entries are equal.** -/
theorem ext_of_lookup {a b : List (κ × ν)} (ha : Sorted a) (hb : Sorted b)
    (h : ∀ name, a.lookup name = b.lookup name) : a = b := by
  induction a generalizing b with
  | nil =>
    cases b with
    | nil => rfl
    | cons first b =>
      have hfirst := h first.1
      rw [List.lookup_cons, beq_self_eq_true] at hfirst
      cases hfirst
  | cons first a ih =>
    obtain ⟨n, x⟩ := first
    obtain ⟨hafirst, harest⟩ := List.pairwise_cons.mp ha
    cases b with
    | nil =>
      have hfirst := h n
      rw [List.lookup_cons, beq_self_eq_true] at hfirst
      cases hfirst
    | cons second b =>
      obtain ⟨m, y⟩ := second
      obtain ⟨hbfirst, hbrest⟩ := List.pairwise_cons.mp hb
      have hn : n = m := by
        rcases lt_trichotomy n m with hlt | heq | hgt
        · have hfound := h n
          rw [List.lookup_cons, beq_self_eq_true, List.lookup_cons, beq_false_of_ne (ne_of_lt hlt),
            lookup_eq_none fun e he => lt_trans hlt (hbfirst e he)] at hfound
          cases hfound
        · exact heq
        · have hfound := h m
          rw [List.lookup_cons, beq_false_of_ne (ne_of_lt hgt), List.lookup_cons,
            beq_self_eq_true, lookup_eq_none fun e he => lt_trans hgt (hafirst e he)] at hfound
          cases hfound
      subst hn
      have hx := h n
      rw [List.lookup_cons, beq_self_eq_true, List.lookup_cons, beq_self_eq_true] at hx
      cases hx
      rw [ih harest hbrest fun name => ?_]
      by_cases hname : name = n
      · rw [hname, lookup_eq_none hafirst, lookup_eq_none hbfirst]
      · have hother := h name
        rw [List.lookup_cons, List.lookup_cons, beq_false_of_ne hname] at hother
        exact hother

/-! ## Trees -/

mutual

/-- Every directory of a tree has its entries in order. -/
def Node.Ordered : Node κ β → Prop
  | .file _ => True
  | .dir entries => Ordered entries

/-- The entries are in order, and so are those of their trees. -/
def Ordered : List (κ × Node κ β) → Prop
  | [] => True
  | (n, x) :: entries => (∀ e ∈ entries, n < e.1) ∧ x.Ordered ∧ Ordered entries

end

mutual

/-- How many bytes the files of a tree have. -/
def Node.bytes : Node κ β → ℕ
  | .file content => content.length
  | .dir entries => bytes entries

/-- How many bytes the files below the entries have. -/
def bytes : List (κ × Node κ β) → ℕ
  | [] => 0
  | (_, x) :: entries => x.bytes + bytes entries

end

mutual

/-- A node is copied to a name where there is a node or none: what is there behind it, and whether
no step failed. A file that meets a directory is copied into it. -/
def copyNode (name : κ) : Node κ β → Option (Node κ β) → Node κ β × Bool
  | .file content, some (.dir below) =>
    match below.lookup name with
    | some (.dir _) => (.dir below, false)
    | _ => (.dir (put below name (.file content)), true)
  | .file content, _ => (.file content, true)
  | .dir _, some (.file content) => (.file content, false)
  | .dir entries, some (.dir below) =>
    let copied := copyTree entries below
    (.dir copied.1, copied.2)
  | .dir entries, none =>
    let copied := copyTree entries []
    (.dir copied.1, copied.2)

/-- Entries are copied over others, one by one, on behind one that failed. -/
def copyTree : List (κ × Node κ β) → List (κ × Node κ β) → List (κ × Node κ β) × Bool
  | [], below => (below, true)
  | (name, x) :: entries, below =>
    let node := copyNode name x (below.lookup name)
    let copied := copyTree entries (put below name node.1)
    (copied.1, node.2 && copied.2)

end

mutual

/-- A node is where another tree has one of its kind, and so is all below it. -/
def Node.fits : Node κ β → Node κ β → Bool
  | .file _, .file _ => true
  | .dir below, .dir entries => fits below entries
  | _, _ => false

/-- All the entries are where another tree has them. -/
def fits : List (κ × Node κ β) → List (κ × Node κ β) → Bool
  | [], _ => true
  | (name, x) :: below, entries =>
    (match entries.lookup name with
      | some y => x.fits y
      | none => false) && fits below entries

end

theorem Ordered.sorted {entries : List (κ × Node κ β)} (h : Ordered entries) : Sorted entries := by
  induction entries with
  | nil => exact List.Pairwise.nil
  | cons first entries ih =>
    obtain ⟨n, x⟩ := first
    unfold Ordered at h
    exact List.pairwise_cons.mpr ⟨h.1, ih h.2.2⟩

theorem ordered_of_lookup {entries : List (κ × Node κ β)} (h : Ordered entries) {name : κ}
    {x : Node κ β} (hx : entries.lookup name = some x) : x.Ordered := by
  induction entries with
  | nil => cases hx
  | cons first entries ih =>
    obtain ⟨n, y⟩ := first
    unfold Ordered at h
    rw [List.lookup_cons] at hx
    split at hx
    · cases hx
      exact h.2.1
    · exact ih h.2.2 hx

theorem lookup_of_fits {below entries : List (κ × Node κ β)} (h : fits below entries = true)
    {name : κ} {x : Node κ β} (hx : below.lookup name = some x) :
    ∃ y, entries.lookup name = some y ∧ x.fits y = true := by
  induction below with
  | nil => cases hx
  | cons first below ih =>
    obtain ⟨n, z⟩ := first
    unfold fits at h
    rw [Bool.and_eq_true] at h
    rw [List.lookup_cons] at hx
    cases hname : name == n with
    | true =>
      rw [hname] at hx
      cases hx
      have heq := eq_of_beq hname
      subst heq
      cases hfound : entries.lookup name with
      | none =>
        rw [hfound] at h
        cases h.1
      | some y =>
        rw [hfound] at h
        exact ⟨y, rfl, h.1⟩
    | false =>
      rw [hname] at hx
      exact ih h.2 hx

theorem sorted_copyTree (entries : List (κ × Node κ β)) {below : List (κ × Node κ β)}
    (h : Sorted below) : Sorted (copyTree entries below).1 := by
  induction entries generalizing below with
  | nil =>
    unfold copyTree
    exact h
  | cons first entries ih =>
    obtain ⟨name, x⟩ := first
    unfold copyTree
    exact ih (sorted_put h _ _)

theorem ordered_put {entries : List (κ × Node κ β)} (h : Ordered entries) (name : κ)
    {x : Node κ β} (hx : x.Ordered) : Ordered (put entries name x) := by
  induction entries with
  | nil =>
    unfold put Ordered
    exact ⟨fun _ he => absurd he List.not_mem_nil, hx, trivial⟩
  | cons first entries ih =>
    obtain ⟨n, y⟩ := first
    have hall := h
    unfold Ordered at h
    obtain ⟨hfirst, hy, hrest⟩ := h
    unfold put
    split
    · next hlt =>
      unfold Ordered
      refine ⟨fun e he => ?_, hx, hall⟩
      rcases List.mem_cons.mp he with rfl | he
      · exact hlt
      · exact lt_trans hlt (hfirst e he)
    · split
      · next heq =>
        unfold Ordered
        exact ⟨fun e he => heq ▸ hfirst e he, hx, hrest⟩
      · next hnlt hne =>
        unfold Ordered
        refine ⟨fun e he => ?_, hy, ih hrest⟩
        rcases fst_of_mem_put he with heq | he
        · rw [heq]
          exact lt_of_le_of_ne (not_lt.mp hnlt) (Ne.symm hne)
        · exact hfirst e he

mutual

theorem ordered_copyNode (name : κ) : ∀ (y : Node κ β), y.Ordered →
    ∀ x : Option (Node κ β), (∀ z ∈ x, z.Ordered) → (copyNode name y x).1.Ordered
  | .file content, hy, none, _ => by
    unfold copyNode
    exact hy
  | .file content, hy, some (.file _), _ => by
    unfold copyNode
    exact hy
  | .file content, hy, some (.dir below), h => by
    have hbelow := h _ rfl
    unfold copyNode
    split
    · exact hbelow
    · unfold Node.Ordered at hbelow ⊢
      exact ordered_put hbelow name hy
  | .dir entries, _, some (.file _), h => by
    unfold copyNode
    exact h _ rfl
  | .dir entries, hy, none, _ => by
    unfold Node.Ordered at hy
    unfold copyNode Node.Ordered
    exact ordered_copyTree entries hy [] trivial
  | .dir entries, hy, some (.dir below), h => by
    have hbelow := h _ rfl
    unfold Node.Ordered at hy hbelow
    unfold copyNode Node.Ordered
    exact ordered_copyTree entries hy below hbelow

theorem ordered_copyTree : ∀ (entries : List (κ × Node κ β)), Ordered entries →
    ∀ below : List (κ × Node κ β), Ordered below → Ordered (copyTree entries below).1
  | [], _, below, hbelow => by
    unfold copyTree
    exact hbelow
  | (n, y) :: entries, h, below, hbelow => by
    unfold Ordered at h
    unfold copyTree
    exact ordered_copyTree entries h.2.2 _ (ordered_put hbelow n
      (ordered_copyNode n y h.2.1 (below.lookup n) fun z hz => ordered_of_lookup hbelow hz))

end

theorem copyTree_eq {entries below : List (κ × Node κ β)} (h : Ordered entries)
    (hbelow : Sorted below)
    (hnames : ∀ name x, below.lookup name = some x → (entries.lookup name).isSome = true)
    (hspec : (copyTree entries below).2 = true ∧ ∀ name, (copyTree entries below).1.lookup name
      = (entries.lookup name).or (below.lookup name)) :
    copyTree entries below = (entries, true) := by
  have hentries : (copyTree entries below).1 = entries :=
    ext_of_lookup (sorted_copyTree entries hbelow) h.sorted fun name => by
      rw [hspec.2]
      cases hfound : entries.lookup name with
      | some y => rfl
      | none =>
        cases hleft : below.lookup name with
        | none => rfl
        | some x =>
          have hsome := hnames name x hleft
          rw [hfound] at hsome
          cases hsome
  exact Prod.ext hentries hspec.1

mutual

theorem copyNode_of_fits (name : κ) : ∀ (y : Node κ β), y.Ordered →
    ∀ x : Option (Node κ β), (∀ z ∈ x, z.Ordered ∧ z.fits y = true) → copyNode name y x = (y, true)
  | .file content, _, none, _ => by
    unfold copyNode
    rfl
  | .file content, _, some (.file _), _ => by
    unfold copyNode
    rfl
  | .file content, _, some (.dir below), h => by
    have hfits := (h _ rfl).2
    unfold Node.fits at hfits
    cases hfits
  | .dir entries, _, some (.file _), h => by
    have hfits := (h _ rfl).2
    unfold Node.fits at hfits
    cases hfits
  | .dir entries, hy, none, _ => by
    unfold Node.Ordered at hy
    have hspec := copyTree_spec entries hy [] (fun name x y hx => by cases hx)
    unfold copyNode
    dsimp only
    rw [copyTree_eq hy List.Pairwise.nil (fun name x hx => by cases hx) hspec]
  | .dir entries, hy, some (.dir below), h => by
    obtain ⟨hbelow, hfits⟩ := h _ rfl
    unfold Node.Ordered at hy hbelow
    unfold Node.fits at hfits
    have hspec := copyTree_spec entries hy below fun name x y hx hy => by
      obtain ⟨y', hy', hfit⟩ := lookup_of_fits hfits hx
      rw [hy] at hy'
      cases hy'
      exact ⟨ordered_of_lookup hbelow hx, hfit⟩
    unfold copyNode
    dsimp only
    rw [copyTree_eq hy hbelow.sorted (fun name x hx => by
      obtain ⟨y, hy, -⟩ := lookup_of_fits hfits hx
      rw [hy]
      rfl) hspec]

/-- **What is copied is found, and besides it what was there.** -/
theorem copyTree_spec : ∀ (entries : List (κ × Node κ β)), Ordered entries →
    ∀ below : List (κ × Node κ β), (∀ name x y, below.lookup name = some x →
      entries.lookup name = some y → x.Ordered ∧ x.fits y = true) →
    (copyTree entries below).2 = true
      ∧ ∀ name, (copyTree entries below).1.lookup name
        = (entries.lookup name).or (below.lookup name)
  | [], _, below, _ => by
    unfold copyTree
    exact ⟨rfl, fun name => rfl⟩
  | (n, y) :: entries, hordered, below, h => by
    unfold Ordered at hordered
    obtain ⟨hfirst, hy, hrest⟩ := hordered
    have hnode : copyNode n y (below.lookup n) = (y, true) :=
      copyNode_of_fits n y hy (below.lookup n) fun z hz =>
        h n z y hz (by rw [List.lookup_cons, beq_self_eq_true])
    obtain ⟨hok, hlookup⟩ := copyTree_spec entries hrest (put below n y) fun name x z hx hz => by
      have hne : name ≠ n := fun heq => by
        rw [heq, lookup_eq_none hfirst] at hz
        cases hz
      rw [lookup_put, if_neg hne] at hx
      exact h name x z hx (by rw [List.lookup_cons, beq_false_of_ne hne]; exact hz)
    unfold copyTree
    dsimp only
    rw [hnode]
    refine ⟨by rw [hok]; rfl, fun name => ?_⟩
    rw [hlookup, lookup_put, List.lookup_cons]
    by_cases hname : name = n
    · rw [if_pos hname, hname, lookup_eq_none hfirst, beq_self_eq_true]
      rfl
    · rw [if_neg hname, beq_false_of_ne hname]

end

/-- **A copy over what fits is exact**, and no step of it fails. -/
theorem copyTree_of_fits {entries below : List (κ × Node κ β)} (h : Ordered entries)
    (hbelow : Ordered below) (hfits : fits below entries = true) :
    copyTree entries below = (entries, true) := by
  refine copyTree_eq h hbelow.sorted (fun name x hx => ?_)
    (copyTree_spec entries h below fun name x y hx hy => ?_)
  · obtain ⟨y, hy, -⟩ := lookup_of_fits hfits hx
    rw [hy]
    rfl
  · obtain ⟨y', hy', hfit⟩ := lookup_of_fits hfits hx
    rw [hy] at hy'
    cases hy'
    exact ⟨ordered_of_lookup hbelow hx, hfit⟩

end DirTree
