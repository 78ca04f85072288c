import Mathlib.Data.List.Nodup
import Mathlib.Data.Option.Basic

/-!
# Trees of files, links and directories

What is at a path of a tree is found name by name; no link is followed. What is at a path can be
changed, taken away or put there, and that is seen below the path only (`Node.entry_change`,
`Node.find_change_append`).

`Volume.rmtree` takes a tree away file by file, and stops where something cannot be listed or
removed. Whatever it takes is below the path, what it leaves was there (`Volume.entry_of_rmtree`),
and each directory on the way to what it takes can be listed (`Volume.lists_of_rmtree`).
-/

namespace LinkTree

/-- **A node of a tree.** -/
inductive Node (κ β ι : Type*) where
  | file (content : β)
  | link (target : ι)
  | dir (entries : List (κ × Node κ β ι))

/-- A node, apart from what is below it. -/
inductive Kind (β ι : Type*) where
  | file (content : β)
  | link (target : ι)
  | dir
  deriving DecidableEq

variable {κ β ι ν : Type*}

namespace Node

def kind : Node κ β ι → Kind β ι
  | file content => .file content
  | link target => .link target
  | dir _ => .dir

end Node

variable [DecidableEq κ]

/-! ## Entries of a directory -/

/-- What has a name is changed, or taken away. -/
def alter (name : κ) (f : ν → Option ν) : List (κ × ν) → List (κ × ν)
  | [] => []
  | (n, x) :: entries =>
    if n = name then
      match f x with
      | some y => (n, y) :: entries
      | none => entries
    else (n, x) :: alter name f entries

theorem lookup_alter_of_ne {name other : κ} (f : ν → Option ν) (entries : List (κ × ν))
    (h : other ≠ name) : (alter name f entries).lookup other = entries.lookup other := by
  induction entries with
  | nil => rfl
  | cons entry entries ih =>
    obtain ⟨n, x⟩ := entry
    unfold alter
    split
    · next heq =>
      have hfirst : (other == n) = false := beq_false_of_ne (heq ▸ h)
      cases f x with
      | some y => simp only [List.lookup_cons, hfirst]
      | none => simp only [List.lookup_cons, hfirst]
    · simp only [List.lookup_cons, ih]

theorem lookup_eq_none_of_not_mem {name : κ} {entries : List (κ × ν)}
    (h : name ∉ entries.map Prod.fst) : entries.lookup name = none := by
  induction entries with
  | nil => rfl
  | cons entry entries ih =>
    rw [List.map_cons, List.mem_cons, not_or] at h
    rw [List.lookup_cons, beq_false_of_ne h.1]
    exact ih h.2

theorem lookup_alter_self {name : κ} (f : ν → Option ν) {entries : List (κ × ν)}
    (h : (entries.map Prod.fst).Nodup) :
    (alter name f entries).lookup name = (entries.lookup name).bind f := by
  induction entries with
  | nil => rfl
  | cons entry entries ih =>
    obtain ⟨n, x⟩ := entry
    obtain ⟨hfirst, hrest⟩ := List.nodup_cons.mp h
    unfold alter
    split
    · next heq =>
      subst heq
      rw [List.lookup_cons, beq_self_eq_true]
      show _ = f x
      cases f x with
      | some y => simp only [List.lookup_cons, beq_self_eq_true]
      | none => exact lookup_eq_none_of_not_mem hfirst
    · next hne =>
      have hfirst : (name == n) = false := beq_false_of_ne (Ne.symm hne)
      simp only [List.lookup_cons, hfirst, ih hrest]

theorem mem_of_lookup {name : κ} {x : ν} {entries : List (κ × ν)}
    (h : entries.lookup name = some x) : (name, x) ∈ entries := by
  induction entries with
  | nil => cases h
  | cons entry entries ih =>
    obtain ⟨n, y⟩ := entry
    rw [List.lookup_cons] at h
    split at h
    · next heq =>
      cases h
      rw [eq_of_beq heq]
      exact List.mem_cons_self
    · exact List.mem_cons_of_mem _ (ih h)

theorem lookup_of_mem {name : κ} {x : ν} {entries : List (κ × ν)}
    (h : (entries.map Prod.fst).Nodup) (hmem : (name, x) ∈ entries) :
    entries.lookup name = some x := by
  induction entries with
  | nil => cases hmem
  | cons entry entries ih =>
    obtain ⟨hfirst, hrest⟩ := List.nodup_cons.mp h
    rcases List.mem_cons.mp hmem with rfl | hmem
    · rw [List.lookup_cons, beq_self_eq_true]
    · have hne : name ≠ entry.1 := by
        rintro rfl
        exact hfirst (List.mem_map.mpr ⟨_, hmem, rfl⟩)
      rw [List.lookup_cons, beq_false_of_ne hne]
      exact ih hrest hmem

theorem map_fst_alter_sublist (name : κ) (f : ν → Option ν) (entries : List (κ × ν)) :
    List.Sublist ((alter name f entries).map Prod.fst) (entries.map Prod.fst) := by
  induction entries with
  | nil => exact List.Sublist.refl _
  | cons entry entries ih =>
    obtain ⟨n, x⟩ := entry
    unfold alter
    split
    · cases f x with
      | some y => exact List.Sublist.refl _
      | none => exact List.sublist_cons_self _ _
    · exact ih.cons₂ _

theorem mem_alter {name : κ} {f : ν → Option ν} {entries : List (κ × ν)} {e : κ × ν}
    (h : e ∈ alter name f entries) :
    e ∈ entries ∨ ∃ x, (name, x) ∈ entries ∧ f x = some e.2 := by
  induction entries with
  | nil => cases h
  | cons entry entries ih =>
    obtain ⟨n, x⟩ := entry
    unfold alter at h
    split at h
    · next heq =>
      subst heq
      cases hf : f x with
      | some y =>
        rw [hf] at h
        rcases List.mem_cons.mp h with rfl | h
        · exact .inr ⟨x, List.mem_cons_self, hf⟩
        · exact .inl (List.mem_cons_of_mem _ h)
      | none =>
        rw [hf] at h
        exact .inl (List.mem_cons_of_mem _ h)
    · rcases List.mem_cons.mp h with rfl | h
      · exact .inl List.mem_cons_self
      · rcases ih h with h | ⟨y, hmem, hf⟩
        · exact .inl (List.mem_cons_of_mem _ h)
        · exact .inr ⟨y, List.mem_cons_of_mem _ hmem, hf⟩

/-! ## Trees -/

namespace Node

/-- What is at a path below a node. -/
def find : Node κ β ι → List κ → Option (Node κ β ι)
  | x, [] => some x
  | dir entries, name :: path => (entries.lookup name).bind fun x => x.find path
  | file _, _ :: _ | link _, _ :: _ => none

def entry (x : Node κ β ι) (path : List κ) : Option (Kind β ι) := (x.find path).map kind

/-- What is at a path is changed, or taken away. -/
def change (f : Node κ β ι → Option (Node κ β ι)) : List κ → Node κ β ι → Option (Node κ β ι)
  | [], x => f x
  | name :: path, dir entries => some (dir (alter name (change f path) entries))
  | _ :: _, x => some x

end Node

mutual

/-- The names in each directory of a tree are distinct. -/
def Node.Distinct : Node κ β ι → Prop
  | .file _ | .link _ => True
  | .dir entries => Distinct entries

/-- The names are distinct, and so are those in the trees. -/
def Distinct : List (κ × Node κ β ι) → Prop
  | [] => True
  | (n, x) :: entries => n ∉ entries.map Prod.fst ∧ x.Distinct ∧ Distinct entries

end

omit [DecidableEq κ] in
theorem distinct_iff {entries : List (κ × Node κ β ι)} :
    Distinct entries ↔ (entries.map Prod.fst).Nodup ∧ ∀ e ∈ entries, e.2.Distinct := by
  induction entries with
  | nil =>
    unfold Distinct
    exact ⟨fun _ => ⟨List.nodup_nil, fun _ h => absurd h List.not_mem_nil⟩, fun _ => trivial⟩
  | cons entry entries ih =>
    obtain ⟨n, x⟩ := entry
    unfold Distinct
    rw [ih, List.map_cons, List.nodup_cons, List.forall_mem_cons]
    tauto

namespace Node

omit [DecidableEq κ] in
theorem distinct_dir {entries : List (κ × Node κ β ι)} :
    (dir entries).Distinct ↔ (entries.map Prod.fst).Nodup ∧ ∀ e ∈ entries, e.2.Distinct := by
  rw [Distinct]
  exact distinct_iff

@[simp] theorem find_nil (x : Node κ β ι) : x.find [] = some x := by
  cases x <;> rfl

@[simp] theorem find_dir (entries : List (κ × Node κ β ι)) (name : κ) (path : List κ) :
    (dir entries).find (name :: path) = (entries.lookup name).bind fun x => x.find path := rfl

@[simp] theorem entry_nil (x : Node κ β ι) : x.entry [] = some x.kind := by
  rw [entry, find_nil, Option.map_some]

theorem entry_dir (entries : List (κ × Node κ β ι)) (name : κ) (path : List κ) :
    (dir entries).entry (name :: path) = (entries.lookup name).bind fun x => x.entry path := by
  rw [entry, find_dir]
  cases entries.lookup name <;> rfl

theorem find_append (x : Node κ β ι) (path rest : List κ) :
    x.find (path ++ rest) = (x.find path).bind fun y => y.find rest := by
  induction path generalizing x with
  | nil => rw [List.nil_append, find_nil, Option.bind_some]
  | cons name path ih =>
    cases x with
    | file content => rfl
    | link target => rfl
    | dir entries =>
      rw [List.cons_append, find_dir, find_dir]
      cases entries.lookup name with
      | none => rfl
      | some y => exact ih y

theorem entry_of_append {x : Node κ β ι} {path : List κ} {name : κ} {rest : List κ}
    (h : (x.entry (path ++ name :: rest)).isSome = true) : x.entry path = some .dir := by
  unfold entry at h ⊢
  rw [find_append] at h
  cases hx : x.find path with
  | none =>
    rw [hx] at h
    cases h
  | some y =>
    rw [hx] at h
    cases y with
    | dir entries => rfl
    | file content => cases h
    | link target => cases h

theorem distinct_of_find {x y : Node κ β ι} {path : List κ} (h : x.Distinct)
    (hfind : x.find path = some y) : y.Distinct := by
  induction path generalizing x with
  | nil =>
    rw [find_nil] at hfind
    cases hfind
    exact h
  | cons name path ih =>
    cases x with
    | file content => cases hfind
    | link target => cases hfind
    | dir entries =>
      obtain ⟨z, hz, hfind⟩ := Option.bind_eq_some_iff.mp hfind
      exact ih ((distinct_dir.mp h).2 _ (mem_of_lookup hz)) hfind

/-- **A change is not seen elsewhere.** -/
theorem entry_change {x : Node κ β ι} (h : x.Distinct) (f : Node κ β ι → Option (Node κ β ι))
    {path other : List κ} (hother : ¬path <+: other) :
    ∃ y, x.change f path = some y ∧ y.entry other = x.entry other := by
  induction path generalizing x other with
  | nil => exact absurd List.nil_prefix hother
  | cons name path ih =>
    cases x with
    | file content => exact ⟨_, rfl, rfl⟩
    | link target => exact ⟨_, rfl, rfl⟩
    | dir entries =>
      refine ⟨_, rfl, ?_⟩
      cases other with
      | nil => rw [entry_nil, entry_nil]; rfl
      | cons first other =>
        rw [entry_dir, entry_dir]
        by_cases heq : first = name
        · subst heq
          rw [lookup_alter_self _ (distinct_dir.mp h).1]
          cases hz : entries.lookup first with
          | none => rfl
          | some z =>
            obtain ⟨w, hw, hentry⟩ := ih ((distinct_dir.mp h).2 _ (mem_of_lookup hz))
              (fun hpre => hother (List.cons_prefix_cons.mpr ⟨rfl, hpre⟩))
            rw [Option.bind_some, hw, Option.bind_some, Option.bind_some]
            exact hentry
        · rw [lookup_alter_of_ne _ _ heq]

/-- **What is found behind a change**, below its path. -/
theorem find_change_append {x : Node κ β ι} (h : x.Distinct)
    (f : Node κ β ι → Option (Node κ β ι)) (path rest : List κ) :
    (x.change f path).bind (fun y => y.find (path ++ rest))
      = (x.find path).bind fun z => (f z).bind fun y => y.find rest := by
  induction path generalizing x with
  | nil =>
    rw [find_nil]
    rfl
  | cons name path ih =>
    cases x with
    | file content => rfl
    | link target => rfl
    | dir entries =>
      show (dir (alter name (change f path) entries)).find (name :: (path ++ rest)) = _
      rw [find_dir, find_dir, lookup_alter_self _ (distinct_dir.mp h).1]
      cases hw : entries.lookup name with
      | none => rfl
      | some w => exact ih ((distinct_dir.mp h).2 _ (mem_of_lookup hw))

theorem distinct_change {x y : Node κ β ι} (h : x.Distinct)
    {f : Node κ β ι → Option (Node κ β ι)} {path : List κ}
    (hf : ∀ z w : Node κ β ι, z.Distinct → f z = some w → w.Distinct)
    (hy : x.change f path = some y) : y.Distinct := by
  induction path generalizing x y with
  | nil => exact hf x y h hy
  | cons name path ih =>
    cases x with
    | file content =>
      cases hy
      exact h
    | link target =>
      cases hy
      exact h
    | dir entries =>
      cases hy
      obtain ⟨hnodup, hbelow⟩ := distinct_dir.mp h
      refine distinct_dir.mpr ⟨hnodup.sublist (map_fst_alter_sublist name _ entries),
        fun e he => ?_⟩
      rcases mem_alter he with he | ⟨z, hz, hchange⟩
      · exact hbelow e he
      · exact ih (hbelow _ hz) hchange

end Node

/-! ## A tree is taken away -/

/-- What can be done at which path. -/
structure Access (κ : Type*) where
  lists : List κ → Bool
  /-- What is there can be removed, where it is no directory or an empty one. -/
  removes : List κ → Bool

mutual

/-- A tree is taken away, and what is left where that stops. -/
def Node.rmtree (access : Access κ) (path : List κ) : Node κ β ι → Option (Node κ β ι)
  | .file content => if access.removes path then none else some (.file content)
  | .link target => if access.removes path then none else some (.link target)
  | .dir entries =>
    if access.lists path then
      match rmEntries access path entries with
      | [] => if access.removes path then none else some (.dir [])
      | left => some (.dir left)
    else some (.dir entries)

/-- One after another the entries are taken away. -/
def rmEntries (access : Access κ) (path : List κ) : List (κ × Node κ β ι) → List (κ × Node κ β ι)
  | [] => []
  | (name, x) :: entries =>
    match x.rmtree access (path ++ [name]) with
    | none => rmEntries access path entries
    | some left => (name, left) :: entries

end

/-- **What is left of a node** where it is taken away. -/
structure Node.Pruned (access : Access κ) (path : List κ) (x : Node κ β ι)
    (left : Option (Node κ β ι)) : Prop where
  distinct : ∀ y ∈ left, y.Distinct
  sub : ∀ y ∈ left, ∀ rest kind, y.entry rest = some kind → x.entry rest = some kind
  /-- The directories on the way to what is taken can be listed, and so can it. -/
  listed : ∀ rest, (x.entry rest).isSome = true → (left.bind fun y => y.entry rest) = none →
    ∀ upper, upper <+: rest → x.entry upper = some .dir → access.lists (path ++ upper) = true

variable {access : Access κ} {path : List κ}

theorem Node.Pruned.refl {x : Node κ β ι} (h : x.Distinct) : x.Pruned access path (some x) where
  distinct y hy := by
    cases hy
    exact h
  sub y hy rest kind hkind := by
    cases hy
    exact hkind
  listed rest hsome hnone := by
    rw [Option.bind_some] at hnone
    rw [hnone] at hsome
    cases hsome

theorem Node.Pruned.none_of_kind {x : Node κ β ι} (h : x.kind ≠ .dir)
    (hbelow : ∀ name rest, x.entry (name :: rest) = none) : x.Pruned access path none where
  distinct y hy := nomatch hy
  sub y hy := nomatch hy
  listed rest hsome _ upper hupper hdir := by
    cases rest with
    | nil =>
      rw [List.prefix_nil.mp hupper, Node.entry_nil] at hdir
      exact absurd (Option.some.inj hdir) h
    | cons name rest =>
      rw [hbelow] at hsome
      cases hsome

theorem Node.Pruned.cons_none {name : κ} {x : Node κ β ι} {entries left : List (κ × Node κ β ι)}
    (hname : name ∉ entries.map Prod.fst) (hx : x.Pruned access (path ++ [name]) none)
    (h : (Node.dir entries).Pruned access path (some (.dir left)))
    (hlists : access.lists path = true) :
    (Node.dir ((name, x) :: entries)).Pruned access path (some (.dir left)) where
  distinct := h.distinct
  sub y hy rest kind hkind := by
    have hold := h.sub y hy rest kind hkind
    cases rest with
    | nil => exact hold
    | cons first rest =>
      have hne : first ≠ name := by
        rintro rfl
        rw [Node.entry_dir, lookup_eq_none_of_not_mem hname] at hold
        cases hold
      rw [Node.entry_dir] at hold
      rw [Node.entry_dir, List.lookup_cons, beq_false_of_ne hne]
      exact hold
  listed rest hsome hnone upper hupper hdir := by
    cases upper with
    | nil => rwa [List.append_nil]
    | cons first upper =>
      obtain ⟨rest, rfl⟩ := hupper
      by_cases heq : first = name
      · subst heq
        rw [List.cons_append, Node.entry_dir, List.lookup_cons, beq_self_eq_true] at hsome
        rw [Node.entry_dir, List.lookup_cons, beq_self_eq_true] at hdir
        have hlisted := hx.listed _ hsome rfl upper (List.prefix_append _ _) hdir
        rwa [List.append_assoc] at hlisted
      · rw [List.cons_append, Node.entry_dir, List.lookup_cons, beq_false_of_ne heq] at hsome
        rw [Node.entry_dir, List.lookup_cons, beq_false_of_ne heq] at hdir
        refine h.listed (first :: upper ++ rest) ?_ hnone _ (List.prefix_append _ _) ?_
        · rw [List.cons_append, Node.entry_dir]
          exact hsome
        · rw [Node.entry_dir]
          exact hdir

theorem Node.Pruned.cons_some {name : κ} {x y : Node κ β ι} {entries : List (κ × Node κ β ι)}
    (hdistinct : (Node.dir ((name, x) :: entries)).Distinct)
    (hx : x.Pruned access (path ++ [name]) (some y)) (hlists : access.lists path = true) :
    (Node.dir ((name, x) :: entries)).Pruned access path (some (.dir ((name, y) :: entries))) where
  distinct z hz := by
    cases hz
    rw [Node.Distinct, LinkTree.Distinct] at hdistinct ⊢
    exact ⟨hdistinct.1, hx.distinct y rfl, hdistinct.2.2⟩
  sub z hz rest kind hkind := by
    cases hz
    cases rest with
    | nil => exact hkind
    | cons first rest =>
      rw [Node.entry_dir, List.lookup_cons] at hkind ⊢
      cases heq : first == name with
      | true =>
        rw [heq] at hkind
        exact hx.sub y rfl rest kind hkind
      | false =>
        rw [heq] at hkind
        exact hkind
  listed rest hsome hnone upper hupper hdir := by
    cases upper with
    | nil => rwa [List.append_nil]
    | cons first upper =>
      obtain ⟨rest, rfl⟩ := hupper
      rw [Option.bind_some] at hnone
      rw [List.cons_append, Node.entry_dir, List.lookup_cons] at hsome hnone
      rw [Node.entry_dir, List.lookup_cons] at hdir
      cases heq : first == name with
      | true =>
        rw [heq] at hsome hnone hdir
        have hlisted := hx.listed _ hsome hnone upper (List.prefix_append _ _) hdir
        rw [List.append_assoc] at hlisted
        rwa [eq_of_beq heq]
      | false =>
        rw [heq] at hsome hnone
        rw [hnone] at hsome
        cases hsome

mutual

/-- **What a removal leaves.** -/
theorem Node.pruned_rmtree (access : Access κ) (path : List κ) :
    ∀ x : Node κ β ι, x.Distinct → x.Pruned access path (x.rmtree access path)
  | .file content, h => by
    unfold Node.rmtree
    split
    · exact .none_of_kind (fun heq => nomatch heq) fun _ _ => rfl
    · exact .refl h
  | .link target, h => by
    unfold Node.rmtree
    split
    · exact .none_of_kind (fun heq => nomatch heq) fun _ _ => rfl
    · exact .refl h
  | .dir entries, h => by
    unfold Node.rmtree
    split
    · next hlists =>
      rw [Node.Distinct] at h
      have hleft := pruned_rmEntries access path entries h hlists
      split
      · next hempty =>
        rw [hempty] at hleft
        split
        · refine ⟨fun _ hy => (nomatch hy), fun _ hy => (nomatch hy),
            fun rest hsome _ upper hupper hdir => ?_⟩
          cases rest with
          | nil =>
            rw [List.prefix_nil.mp hupper, List.append_nil]
            exact hlists
          | cons name rest => exact hleft.listed _ hsome rfl upper hupper hdir
        · exact hleft
      · exact hleft
    · exact .refl h

theorem pruned_rmEntries (access : Access κ) (path : List κ) :
    ∀ entries : List (κ × Node κ β ι), Distinct entries → access.lists path = true →
      (Node.dir entries).Pruned access path (some (.dir (rmEntries access path entries)))
  | [], h, _ => by
    unfold rmEntries
    exact .refl h
  | (name, x) :: entries, h, hlists => by
    have hall := h
    unfold Distinct at h
    obtain ⟨hname, hx, hentries⟩ := h
    have hfirst := Node.pruned_rmtree access (path ++ [name]) x hx
    unfold rmEntries
    split
    · next hnone =>
      rw [hnone] at hfirst
      exact .cons_none hname hfirst (pruned_rmEntries access path entries hentries hlists) hlists
    · next left hsome =>
      rw [hsome] at hfirst
      exact .cons_some hall hfirst hlists

end

omit [DecidableEq κ] in
mutual

theorem Node.rmtree_of_free {access : Access κ} (hlists : ∀ path, access.lists path = true)
    (hremoves : ∀ path, access.removes path = true) :
    ∀ (x : Node κ β ι) (path : List κ), x.rmtree access path = none
  | .file content, path => by
    unfold Node.rmtree
    rw [if_pos (hremoves path)]
  | .link target, path => by
    unfold Node.rmtree
    rw [if_pos (hremoves path)]
  | .dir entries, path => by
    unfold Node.rmtree
    rw [if_pos (hlists path), rmEntries_of_free hlists hremoves entries path]
    exact if_pos (hremoves path)

theorem rmEntries_of_free {access : Access κ} (hlists : ∀ path, access.lists path = true)
    (hremoves : ∀ path, access.removes path = true) :
    ∀ (entries : List (κ × Node κ β ι)) (path : List κ), rmEntries access path entries = []
  | [], path => by
    unfold rmEntries
    rfl
  | (name, x) :: entries, path => by
    unfold rmEntries
    rw [Node.rmtree_of_free hlists hremoves x (path ++ [name])]
    exact rmEntries_of_free hlists hremoves entries path

end

/-! ## A name below a directory -/

mutual

/-- A directory that can be listed, at or below the node, has an entry of the name. -/
def Node.holds (lists : List κ → Bool) (name : κ) (path : List κ) : Node κ β ι → Bool
  | .dir entries => lists path
    && (entries.any (·.1 = name) || holdsBelow lists name path entries)
  | .file _ | .link _ => false

def holdsBelow (lists : List κ → Bool) (name : κ) (path : List κ) : List (κ × Node κ β ι) → Bool
  | [] => false
  | (first, x) :: entries =>
    x.holds lists name (path ++ [first]) || holdsBelow lists name path entries

end

theorem holdsBelow_eq_any (lists : List κ → Bool) (name : κ) (path : List κ)
    (entries : List (κ × Node κ β ι)) :
    holdsBelow lists name path entries
      = entries.any fun e => e.2.holds lists name (path ++ [e.1]) := by
  induction entries with
  | nil =>
    unfold holdsBelow
    rfl
  | cons entry entries ih =>
    unfold holdsBelow
    rw [ih, List.any_cons]

/-- **Where no entry of the name is seen**, none is in a directory that can be got to. -/
theorem Node.entry_of_not_holds {lists : List κ → Bool} {name : κ} {path : List κ}
    {x : Node κ β ι} (h : x.holds lists name path = false) {rest : List κ}
    (hdir : x.entry rest = some .dir)
    (hlists : ∀ upper, upper <+: rest → lists (path ++ upper) = true) :
    x.entry (rest ++ [name]) = none := by
  induction rest generalizing x path with
  | nil =>
    cases x with
    | file content => rfl
    | link target => rfl
    | dir entries =>
      have hhere := hlists [] List.nil_prefix
      rw [List.append_nil] at hhere
      unfold Node.holds at h
      rw [hhere, Bool.true_and, Bool.or_eq_false_iff, List.any_eq_false] at h
      rw [List.nil_append, Node.entry_dir, lookup_eq_none_of_not_mem, Option.bind_none]
      intro hmem
      obtain ⟨e, he, heq⟩ := List.mem_map.mp hmem
      exact h.1 e he (decide_eq_true heq)
  | cons first rest ih =>
    cases x with
    | file content => cases hdir
    | link target => cases hdir
    | dir entries =>
      have hhere := hlists [] List.nil_prefix
      rw [List.append_nil] at hhere
      unfold Node.holds at h
      rw [hhere, Bool.true_and, Bool.or_eq_false_iff, holdsBelow_eq_any, List.any_eq_false] at h
      rw [Node.entry_dir] at hdir
      rw [List.cons_append, Node.entry_dir]
      obtain ⟨y, hy, hdir⟩ := Option.bind_eq_some_iff.mp hdir
      rw [hy]
      have hbelow := List.any_eq_false.mp h.2 _ (mem_of_lookup hy)
      refine ih (Bool.eq_false_iff.mpr hbelow) hdir fun upper hupper => ?_
      have hupper := hlists (first :: upper) (List.cons_prefix_cons.mpr ⟨rfl, hupper⟩)
      rwa [List.append_cons] at hupper

/-! ## Directories are made, and a node is put into one -/

/-- Directories one in another. -/
def chain : List κ → Node κ β ι
  | [] => .dir []
  | name :: path => .dir [(name, chain path)]

/-- The directories of a path are made, as far as they are not there. -/
def Node.mkdirs : List κ → Node κ β ι → Option (Node κ β ι)
  | [], .dir entries => some (.dir entries)
  | name :: path, .dir entries =>
    match entries.lookup name with
    | some x => (x.mkdirs path).map fun y => .dir (alter name (fun _ => some y) entries)
    | none => some (.dir (entries ++ [(name, chain path)]))
  | _, _ => none

/-- A node is put into a directory where there is none of its name. -/
def putInto (name : κ) (x : Node κ β ι) : Node κ β ι → Option (Node κ β ι)
  | .dir entries =>
    if name ∈ entries.map Prod.fst then some (.dir entries)
    else some (.dir (entries ++ [(name, x)]))
  | y => some y

omit [DecidableEq κ] in
theorem distinct_chain (path : List κ) : (chain path : Node κ β ι).Distinct := by
  induction path with
  | nil => exact distinct_iff.mpr ⟨List.nodup_nil, fun _ h => absurd h List.not_mem_nil⟩
  | cons name path ih =>
    refine distinct_iff.mpr ⟨List.nodup_singleton _, fun e he => ?_⟩
    rw [List.mem_singleton.mp he]
    exact ih

omit [DecidableEq κ] in
theorem distinct_concat {entries : List (κ × Node κ β ι)} {name : κ} {x : Node κ β ι}
    (h : Distinct entries) (hname : name ∉ entries.map Prod.fst) (hx : x.Distinct) :
    Distinct (entries ++ [(name, x)]) := by
  obtain ⟨hnodup, hbelow⟩ := distinct_iff.mp h
  refine distinct_iff.mpr ⟨?_, fun e he => ?_⟩
  · rw [List.map_append, List.nodup_append_comm]
    exact List.nodup_cons.mpr ⟨hname, hnodup⟩
  · rcases List.mem_append.mp he with he | he
    · exact hbelow e he
    · rw [List.mem_singleton.mp he]
      exact hx

theorem not_mem_of_lookup {name : κ} {entries : List (κ × ν)} (h : entries.lookup name = none) :
    name ∉ entries.map Prod.fst := by
  intro hmem
  obtain ⟨e, he, rfl⟩ := List.mem_map.mp hmem
  have hne := List.lookup_eq_none_iff.mp h e he
  rw [bne_self_eq_false] at hne
  cases hne

theorem entry_chain {path other : List κ} {kind : Kind β ι}
    (h : (chain path : Node κ β ι).entry other = some kind) : other <+: path ∧ kind = .dir := by
  induction path generalizing other with
  | nil =>
    cases other with
    | nil => exact ⟨List.nil_prefix, (Option.some.inj h).symm⟩
    | cons first other => cases h
  | cons name path ih =>
    cases other with
    | nil => exact ⟨List.nil_prefix, (Option.some.inj h).symm⟩
    | cons first other =>
      rw [chain, Node.entry_dir, List.lookup_cons] at h
      cases heq : first == name with
      | false =>
        rw [heq] at h
        cases h
      | true =>
        rw [heq] at h
        obtain ⟨hpre, hkind⟩ := ih h
        exact ⟨List.cons_prefix_cons.mpr ⟨eq_of_beq heq, hpre⟩, hkind⟩

theorem entry_concat {entries : List (κ × Node κ β ι)} {name : κ} (x : Node κ β ι)
    {path : List κ} {kind : Kind β ι} (h : (Node.dir entries).entry path = some kind) :
    (Node.dir (entries ++ [(name, x)])).entry path = some kind := by
  cases path with
  | nil => exact h
  | cons first path =>
    rw [Node.entry_dir] at h ⊢
    obtain ⟨y, hy, h⟩ := Option.bind_eq_some_iff.mp h
    rw [List.lookup_append, hy]
    exact h

theorem Node.made_of_mkdirs {path : List κ} {x y : Node κ β ι} (h : x.mkdirs path = some y)
    (hx : x.Distinct) {other : List κ} {kind : Kind β ι} (hkind : y.entry other = some kind) :
    x.entry other = some kind ∨ other <+: path ∧ kind = .dir := by
  induction path generalizing x y other with
  | nil =>
    cases x with
    | file content => cases h
    | link target => cases h
    | dir entries =>
      cases h
      exact .inl hkind
  | cons name path ih =>
    cases x with
    | file content => cases h
    | link target => cases h
    | dir entries =>
      obtain ⟨hnodup, hbelow⟩ := Node.distinct_dir.mp hx
      unfold Node.mkdirs at h
      cases other with
      | nil =>
        rw [Node.entry_nil] at hkind ⊢
        split at h
        · obtain ⟨w, -, rfl⟩ := Option.map_eq_some_iff.mp h
          exact .inl hkind
        · cases h
          exact .inl hkind
      | cons first other =>
        split at h
        · next z hz =>
          obtain ⟨w, hw, rfl⟩ := Option.map_eq_some_iff.mp h
          rw [Node.entry_dir] at hkind ⊢
          by_cases heq : first = name
          · subst heq
            rw [lookup_alter_self _ hnodup, hz] at hkind
            rw [hz]
            exact (ih hw (hbelow _ (mem_of_lookup hz)) hkind).imp_right fun ⟨hpre, hdir⟩ =>
              ⟨List.cons_prefix_cons.mpr ⟨rfl, hpre⟩, hdir⟩
          · rw [lookup_alter_of_ne _ _ heq] at hkind
            exact .inl hkind
        · next hnone =>
          cases h
          rw [Node.entry_dir, List.lookup_append] at hkind
          rw [Node.entry_dir]
          cases hfirst : entries.lookup first with
          | some z =>
            rw [hfirst] at hkind
            exact .inl hkind
          | none =>
            rw [hfirst, Option.none_or, List.lookup_cons] at hkind
            cases heq : first == name with
            | false =>
              rw [heq] at hkind
              cases hkind
            | true =>
              rw [heq] at hkind
              obtain ⟨hpre, hdir⟩ := entry_chain hkind
              exact .inr ⟨List.cons_prefix_cons.mpr ⟨eq_of_beq heq, hpre⟩, hdir⟩

/-- **What is there stays where directories are made.** -/
theorem Node.of_mkdirs {path : List κ} {x y : Node κ β ι} (h : x.mkdirs path = some y)
    (hx : x.Distinct) :
    y.Distinct ∧ ∀ other kind, x.entry other = some kind → y.entry other = some kind := by
  induction path generalizing x y with
  | nil =>
    cases x with
    | file content => cases h
    | link target => cases h
    | dir entries =>
      cases h
      exact ⟨hx, fun _ _ hkind => hkind⟩
  | cons name path ih =>
    cases x with
    | file content => cases h
    | link target => cases h
    | dir entries =>
      obtain ⟨hnodup, hbelow⟩ := Node.distinct_dir.mp hx
      unfold Node.mkdirs at h
      split at h
      · next z hz =>
        obtain ⟨w, hw, rfl⟩ := Option.map_eq_some_iff.mp h
        obtain ⟨hdistinct, hstays⟩ := ih hw (hbelow _ (mem_of_lookup hz))
        refine ⟨Node.distinct_dir.mpr ⟨hnodup.sublist (map_fst_alter_sublist name _ entries),
          fun e he => ?_⟩, fun other kind hkind => ?_⟩
        · rcases mem_alter he with he | ⟨_, _, heq⟩
          · exact hbelow e he
          · rwa [← Option.some.inj heq]
        · cases other with
          | nil => exact hkind
          | cons first other =>
            rw [Node.entry_dir] at hkind ⊢
            by_cases heq : first = name
            · subst heq
              rw [hz] at hkind
              rw [lookup_alter_self _ hnodup, hz]
              exact hstays other kind hkind
            · rw [lookup_alter_of_ne _ _ heq]
              exact hkind
      · next hnone =>
        cases h
        exact ⟨distinct_concat hx (not_mem_of_lookup hnone) (distinct_chain path),
          fun _ _ hkind => entry_concat _ hkind⟩

theorem isSome_putInto (name : κ) (x y : Node κ β ι) : (putInto name x y).isSome = true := by
  unfold putInto
  split
  · split <;> rfl
  · rfl

theorem entry_of_putInto {name : κ} {x y : Node κ β ι} {path : List κ} {kind : Kind β ι}
    (h : y.entry path = some kind) :
    ((putInto name x y).bind fun z => z.find path).map Node.kind = some kind := by
  unfold putInto
  split
  · split
    · exact h
    · exact entry_concat x h
  · exact h

theorem distinct_putInto {name : κ} {x y z : Node κ β ι} (hx : x.Distinct) (hy : y.Distinct)
    (h : putInto name x y = some z) : z.Distinct := by
  unfold putInto at h
  split at h
  · split at h
    · cases h
      exact hy
    · next hname =>
      cases h
      exact distinct_concat hy hname hx
  · cases h
    exact hy

/-! ## Volumes -/

variable (κ β ι) in
/-- **A tree whose directories have distinct names.** -/
structure Volume where
  root : Node κ β ι
  distinct : root.Distinct

namespace Volume

def find (v : Volume κ β ι) (path : List κ) : Option (Node κ β ι) := v.root.find path

def entry (v : Volume κ β ι) (path : List κ) : Option (Kind β ι) := v.root.entry path

def isDir (v : Volume κ β ι) (path : List κ) : Bool :=
  match v.find path with
  | some (.dir _) => true
  | _ => false

/-- What is at a path is changed; the root is not taken away. -/
def change (v : Volume κ β ι) (f : Node κ β ι → Option (Node κ β ι))
    (hf : ∀ z w : Node κ β ι, z.Distinct → f z = some w → w.Distinct) (path : List κ) :
    Volume κ β ι where
  root := (v.root.change f path).getD v.root
  distinct := by
    cases h : v.root.change f path with
    | none => exact v.distinct
    | some y => exact Node.distinct_change v.distinct hf h

/-- A tree is taken away. -/
def rmtree (v : Volume κ β ι) (access : Access κ) (path : List κ) : Volume κ β ι :=
  v.change (fun x => x.rmtree access path)
    (fun z w hz hw => (z.pruned_rmtree access path hz).distinct w hw) path

/-- Nothing of it is left; it must be there. -/
def removed (v : Volume κ β ι) (access : Access κ) (path : List κ) : Bool :=
  (v.find path).any fun x => (x.rmtree access path).isNone

/-- Directories are made. -/
def mkdirs (v : Volume κ β ι) (path : List κ) : Option (Volume κ β ι) :=
  match h : v.root.mkdirs path with
  | some y => some ⟨y, (Node.of_mkdirs h v.distinct).1⟩
  | none => none

/-- What is at a path is moved into a directory, where its name is not taken. -/
def rename (v : Volume κ β ι) (path into : List κ) (name : κ) : Option (Volume κ β ι) :=
  match h : v.find path with
  | some x =>
    if path <+: into ++ [name] ∨ (v.entry (into ++ [name])).isSome ∨ !v.isDir into then
      none
    else some ((v.change (fun _ => none) (fun _ _ _ hw => nomatch hw) path).change (putInto name x)
      (fun _ _ hz hw => distinct_putInto (Node.distinct_of_find v.distinct h) hz hw) into)
  | none => none

variable {v w : Volume κ β ι}

theorem entry_change {f : Node κ β ι → Option (Node κ β ι)}
    {hf : ∀ z w : Node κ β ι, z.Distinct → f z = some w → w.Distinct} {path other : List κ}
    (h : ¬path <+: other) : (v.change f hf path).entry other = v.entry other := by
  obtain ⟨y, hy, hentry⟩ := Node.entry_change v.distinct f h
  show ((v.root.change f path).getD v.root).entry other = v.root.entry other
  rw [hy]
  exact hentry

theorem isSome_change_of_ne (x : Node κ β ι) (f : Node κ β ι → Option (Node κ β ι))
    {path : List κ} (h : path ≠ []) : (x.change f path).isSome = true := by
  cases path with
  | nil => exact absurd rfl h
  | cons name path => cases x <;> rfl

theorem isSome_change_of_total (x : Node κ β ι) {f : Node κ β ι → Option (Node κ β ι)}
    (h : ∀ y, (f y).isSome = true) (path : List κ) : (x.change f path).isSome = true := by
  cases path with
  | nil => exact h x
  | cons name path => exact isSome_change_of_ne x f (List.cons_ne_nil _ _)

theorem find_change_append {f : Node κ β ι → Option (Node κ β ι)}
    {hf : ∀ z w : Node κ β ι, z.Distinct → f z = some w → w.Distinct} {path : List κ}
    (h : (v.root.change f path).isSome = true) (rest : List κ) :
    (v.change f hf path).find (path ++ rest)
      = (v.find path).bind fun z => (f z).bind fun y => y.find rest := by
  obtain ⟨y, hy⟩ := Option.isSome_iff_exists.mp h
  have hfind := Node.find_change_append v.distinct f path rest
  rw [hy] at hfind
  show ((v.root.change f path).getD v.root).find (path ++ rest) = _
  rw [hy]
  exact hfind

theorem isDir_iff {path : List κ} : v.isDir path = true ↔ v.entry path = some .dir := by
  show v.isDir path = true ↔ (v.find path).map Node.kind = some .dir
  unfold isDir
  cases v.find path with
  | none => exact ⟨fun h => (nomatch h), fun h => (nomatch h)⟩
  | some x =>
    cases x with
    | dir entries => exact ⟨fun _ => rfl, fun _ => rfl⟩
    | file content => exact ⟨fun h => (nomatch h), fun h => (nomatch h)⟩
    | link target => exact ⟨fun h => (nomatch h), fun h => (nomatch h)⟩

theorem find_of_entry {path : List κ} (h : (v.entry path).isSome = true) :
    ∃ x, v.find path = some x := by
  change ((v.find path).map Node.kind).isSome = true at h
  rw [Option.isSome_map] at h
  exact Option.isSome_iff_exists.mp h

theorem entry_of_append {path rest : List κ} (hne : rest ≠ [])
    (h : (v.entry (path ++ rest)).isSome = true) : v.entry path = some .dir := by
  cases rest with
  | nil => exact absurd rfl hne
  | cons name rest => exact Node.entry_of_append h

/-! ### A removal -/

variable {access : Access κ} {path : List κ}

theorem entry_rmtree_append (v : Volume κ β ι) (access : Access κ) (hne : path ≠ [])
    (rest : List κ) : (v.rmtree access path).entry (path ++ rest)
      = (v.find path).bind fun z => (z.rmtree access path).bind fun y => y.entry rest := by
  have hfind : (v.rmtree access path).find (path ++ rest) = _ :=
    find_change_append (isSome_change_of_ne _ _ hne) rest
  show ((v.rmtree access path).find (path ++ rest)).map Node.kind = _
  rw [hfind]
  cases v.find path with
  | none => rfl
  | some z =>
    show ((z.rmtree access path).bind _).map _ = (z.rmtree access path).bind _
    cases z.rmtree access path <;> rfl

theorem entry_find {x : Node κ β ι} (h : v.find path = some x) (rest : List κ) :
    v.entry (path ++ rest) = x.entry rest := by
  show (v.root.find (path ++ rest)).map _ = (x.find rest).map _
  rw [Node.find_append]
  change v.root.find path = some x at h
  rw [h]
  rfl

theorem entry_rmtree_of_outside (v : Volume κ β ι) (access : Access κ) {other : List κ}
    (h : ¬path <+: other) : (v.rmtree access path).entry other = v.entry other := entry_change h

theorem entry_of_rmtree (hne : path ≠ []) {other : List κ} {kind : Kind β ι}
    (h : (v.rmtree access path).entry other = some kind) : v.entry other = some kind := by
  by_cases hpre : path <+: other
  · obtain ⟨rest, rfl⟩ := hpre
    rw [entry_rmtree_append v access hne] at h
    obtain ⟨x, hx, h⟩ := Option.bind_eq_some_iff.mp h
    obtain ⟨y, hy, h⟩ := Option.bind_eq_some_iff.mp h
    rw [entry_find hx]
    exact (x.pruned_rmtree access path (Node.distinct_of_find v.distinct hx)).sub y hy rest kind h
  · rwa [entry_rmtree_of_outside v access hpre] at h

/-- **The directories on the way to what is taken can be listed**, and so can it. -/
theorem lists_of_rmtree (hne : path ≠ []) {rest upper : List κ}
    (hsome : (v.entry (path ++ rest)).isSome = true)
    (hnone : (v.rmtree access path).entry (path ++ rest) = none) (hupper : upper <+: rest)
    (hdir : v.entry (path ++ upper) = some .dir) : access.lists (path ++ upper) = true := by
  obtain ⟨y, hy⟩ := find_of_entry hsome
  obtain ⟨x, hx, -⟩ := Option.bind_eq_some_iff.mp ((Node.find_append _ _ _).symm.trans hy)
  rw [entry_rmtree_append v access hne, show v.find path = some x from hx] at hnone
  rw [entry_find hx] at hsome hdir
  exact (x.pruned_rmtree access path (Node.distinct_of_find v.distinct hx)).listed rest hsome
    hnone upper hupper hdir

theorem entry_of_removed (hne : path ≠ []) (h : v.removed access path = true) (rest : List κ) :
    (v.rmtree access path).entry (path ++ rest) = none := by
  rw [entry_rmtree_append v access hne]
  unfold removed at h
  cases hx : v.find path with
  | none => rfl
  | some x =>
    rw [hx] at h
    rw [Option.bind_some, Option.isNone_iff_eq_none.mp h]
    rfl

theorem removed_of_free (hlists : ∀ path, access.lists path = true)
    (hremoves : ∀ path, access.removes path = true) (h : (v.entry path).isSome = true) :
    v.removed access path = true := by
  obtain ⟨x, hx⟩ := find_of_entry h
  unfold removed
  rw [hx]
  show (x.rmtree access path).isNone = true
  rw [Node.rmtree_of_free hlists hremoves]
  rfl

/-! ### Directories that are made, and a move -/

theorem entry_of_mkdirs (h : v.mkdirs path = some w) {other : List κ} {kind : Kind β ι}
    (hkind : v.entry other = some kind) : w.entry other = some kind := by
  unfold mkdirs at h
  split at h
  · next y hy =>
    cases h
    exact (Node.of_mkdirs hy v.distinct).2 other kind hkind
  · cases h

theorem entry_mkdirs (h : v.mkdirs path = some w) {other : List κ} {kind : Kind β ι}
    (hkind : w.entry other = some kind) :
    v.entry other = some kind ∨ other <+: path ∧ kind = .dir := by
  unfold mkdirs at h
  split at h
  · next y hy =>
    cases h
    exact Node.made_of_mkdirs hy v.distinct hkind
  · cases h

theorem find_of_rename {into : List κ} {name : κ} (h : v.rename path into name = some w) :
    (v.find path).isSome = true := by
  unfold rename at h
  split at h
  · next x hx =>
    rw [hx]
    rfl
  · cases h

theorem entry_rename {into : List κ} {name : κ} (h : v.rename path into name = some w)
    {rest : List κ} {kind : Kind β ι}
    (hkind : v.entry (path ++ rest) = some kind) :
    w.entry (into ++ name :: rest) = some kind := by
  unfold rename at h
  split at h
  · next x hx =>
    split_ifs at h with hcond
    simp only [not_or, Bool.not_eq_true', Bool.not_eq_false] at hcond
    obtain ⟨hpath, hfree, hdir⟩ := hcond
    cases h
    have hnot : ¬path <+: into := fun hpre => hpath (hpre.trans (List.prefix_append _ _))
    rw [entry_find hx] at hkind
    set removed := v.change (fun _ => none) (fun _ _ _ hw => nomatch hw) path with hremoved
    -- the directory that it goes into, which does not have the name
    have hthere : removed.entry into = some .dir :=
      (entry_change hnot).trans (isDir_iff.mp hdir)
    have hnew : removed.entry (into ++ [name]) = none := by
      rw [hremoved, entry_change hpath]
      exact Option.not_isSome_iff_eq_none.mp hfree
    obtain ⟨y, hy, hykind⟩ := Option.map_eq_some_iff.mp hthere
    cases y with
    | file content => cases hykind
    | link target => cases hykind
    | dir entries =>
      have hlookup : entries.lookup name = none := by
        rw [entry_find hy, Node.entry_dir] at hnew
        cases hz : entries.lookup name with
        | none => rfl
        | some z =>
          rw [hz, Option.bind_some, Node.entry_nil] at hnew
          cases hnew
      have hput : putInto name x (.dir entries) = some (.dir (entries ++ [(name, x)])) :=
        if_neg (not_mem_of_lookup hlookup)
      show ((removed.change _ _ into).find (into ++ name :: rest)).map _ = _
      rw [find_change_append (isSome_change_of_total _ (isSome_putInto name x) into),
        show removed.find into = _ from hy, Option.bind_some, hput, Option.bind_some,
        Node.find_dir, List.lookup_append, hlookup]
      show ((List.lookup name [(name, x)]).bind _).map _ = _
      rw [List.lookup_cons, beq_self_eq_true]
      exact hkind
  · cases h

theorem entry_rename_of_outside {into other : List κ} {name : κ}
    (h : v.rename path into name = some w) {kind : Kind β ι} (hkind : v.entry other = some kind)
    (hpath : ¬path <+: other) : w.entry other = some kind := by
  unfold rename at h
  split at h
  · next x hx =>
    split_ifs at h with hcond
    simp only [not_or, Bool.not_eq_true', Bool.not_eq_false] at hcond
    obtain ⟨hinto, hfree, hdir⟩ := hcond
    cases h
    set removed := v.change (fun _ => none) (fun _ _ _ hw => nomatch hw) path with hremoved
    have hstays : removed.entry other = some kind := (entry_change hpath).trans hkind
    have hthere : removed.entry into = some .dir :=
      (entry_change fun hpre => hinto (hpre.trans (List.prefix_append _ _))).trans
        (isDir_iff.mp hdir)
    by_cases hpre : into <+: other
    · obtain ⟨rest, rfl⟩ := hpre
      obtain ⟨y, hy, hykind⟩ := Option.map_eq_some_iff.mp hthere
      rw [entry_find hy] at hstays
      show ((removed.change _ _ into).find (into ++ rest)).map _ = _
      rw [find_change_append (isSome_change_of_total _ (isSome_putInto name x) into),
        show removed.find into = _ from hy, Option.bind_some]
      exact entry_of_putInto hstays
    · rw [entry_change hpre]
      exact hstays
  · cases h

end Volume

end LinkTree
