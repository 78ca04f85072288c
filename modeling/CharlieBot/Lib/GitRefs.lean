import Mathlib.Data.String.Basic

/-!
# The names of commits

A repository has refs: names of objects. A text that names a commit is looked up in an order: as the
name of a ref itself, then below `refs`, among the tags, the branches, and the branches of
the remotes; the first that exists is what it means. So a short name means what it was made
for only if none of the names before that exists. A text with one of the signs of the other
notations of revisions is never the name of a ref, and one of forty hexadecimal digits is always an
object.

`leads_revParse_iff` says what a text leads to when one of the names is the one that is meant.
-/

namespace Git

/-- The name of an object. -/
abbrev Oid := String

/-! ## Names -/

/-- A character that no other notation uses. -/
def plainChar (c : Char) : Bool :=
  32 < c.toNat && c.toNat ≠ 127
    && !(['~', '^', ':', '?', '*', '[', '\\'].contains c)

/-- Two characters that may follow one another. -/
def neighbours (a c : Char) : Bool := !(a == '.' && c == '.') && !(a == '@' && c == '\x7b')

def plainChars : List Char → Bool
  | [] => true
  | [c] => plainChar c
  | a :: c :: rest => plainChar a && neighbours a c && plainChars (c :: rest)

/-- A text in no other notation. -/
def plain (name : String) : Bool :=
  plainChars name.toList && name.toList != ['@'] && name.toList.head? != some '-'

/-- Forty hexadecimal digits. -/
def fullHex (name : String) : Bool :=
  name.toList.length = 40 && name.toList.all fun c =>
    c.isDigit || "abcdef".toList.contains c.toLower

theorem neighbours_slash_left (c : Char) : neighbours '/' c = true := rfl

theorem plainChars_append_slash (before behind : List Char) :
    plainChars (before ++ '/' :: behind) = (plainChars (before ++ ['/']) && plainChars behind) := by
  induction before with
  | nil =>
    cases behind with
    | nil => rfl
    | cons c rest =>
      show (plainChar '/' && neighbours '/' c && plainChars (c :: rest)) = _
      rw [neighbours_slash_left, Bool.and_true]
      rfl
  | cons a before ih =>
    cases before with
    | nil =>
      have hslash : plainChars ('/' :: behind) = (plainChars ['/'] && plainChars behind) := ih
      show (plainChar a && neighbours a '/' && plainChars ('/' :: behind))
        = (plainChar a && neighbours a '/' && plainChars ['/'] && plainChars behind)
      rw [hslash, ← Bool.and_assoc]
    | cons c before =>
      show (plainChar a && neighbours a c && plainChars (c :: before ++ '/' :: behind))
        = (plainChar a && neighbours a c && plainChars (c :: before ++ ['/']) && plainChars behind)
      rw [ih, ← Bool.and_assoc]

/-- **Below another directory a plain name is plain.** -/
theorem plain_of_below {dir other name : String} {d o : List Char} (hdir : dir.toList = d ++ ['/'])
    (hother : other.toList = o ++ ['/']) (hplain : plainChars other.toList = true)
    (hfirst : other.toList.head? ≠ some '-') (h : plain (dir ++ name) = true) :
    plain (other ++ name) = true := by
  unfold plain at h ⊢
  rw [Bool.and_eq_true, Bool.and_eq_true, String.toList_append, hdir, List.append_assoc] at h
  have hname : plainChars name.toList = true := by
    have hboth := h.1.1
    rw [List.singleton_append, plainChars_append_slash, Bool.and_eq_true] at hboth
    exact hboth.2
  rw [String.toList_append]
  have hchars : plainChars (other.toList ++ name.toList) = true := by
    rw [hother] at hplain
    rw [hother, List.append_assoc, List.singleton_append, plainChars_append_slash, hplain, hname]
    rfl
  rw [hchars, Bool.true_and, Bool.and_eq_true, bne_iff_ne, bne_iff_ne]
  constructor
  · intro hat
    have hslash : '/' ∈ other.toList ++ name.toList := by
      rw [hother]
      exact List.mem_append_left _ (List.mem_append_right _ (List.mem_singleton_self _))
    rw [hat, List.mem_singleton] at hslash
    exact absurd hslash (by decide)
  · cases hchars : other.toList with
    | nil =>
      rw [hchars] at hother
      exact absurd hother.symm (List.append_ne_nil_of_right_ne_nil _ (List.cons_ne_nil _ _))
    | cons c rest =>
      rw [hchars] at hfirst
      exact hfirst

theorem not_fullHex_of_slash {name : String} (h : '/' ∈ name.toList) : fullHex name = false := by
  unfold fullHex
  rw [Bool.and_eq_false_iff]
  right
  rw [List.all_eq_false]
  exact ⟨'/', h, by decide⟩

/-! ## Refs -/

/-- **The refs of a repository**, by their names. -/
structure RefStore where
  get : String → Option Oid
  plain_of_get : ∀ name oid, get name = some oid → plain name = true

def RefStore.ofList (entries : List (String × Oid))
    (h : ∀ entry ∈ entries, plain entry.1 = true) : RefStore where
  get name := entries.lookup name
  plain_of_get name oid hget := by
    obtain ⟨before, behind, rfl, -⟩ := List.lookup_eq_some_iff.mp hget
    exact h (name, oid) (List.mem_append_right _ List.mem_cons_self)

/-- What a repository makes of an object and of a text that is no ref: the commit an object leads
to, and the object of another notation. -/
structure Objects where
  commit : Oid → Option Oid
  otherNotation : RefStore → String → Option Oid

/-- The names that are looked up for a text, in order. -/
def lookupNames (name : String) : List String :=
  [name, "refs/" ++ name, "refs/tags/" ++ name, "refs/heads/" ++ name, "refs/remotes/" ++ name,
    "refs/remotes/" ++ name ++ "/HEAD"]

/-- The object of the first name that exists. -/
def RefStore.first (refs : RefStore) (names : List String) : Option Oid :=
  names.findSome? refs.get

namespace Objects

variable (objects : Objects) (refs : RefStore)

/-- The object that a text names. -/
def revParse (name : String) : Option Oid :=
  if fullHex name then some (String.ofList (name.toList.map Char.toLower))
  else if plain name then (refs.first (lookupNames name)).or (objects.otherNotation refs name)
  else objects.otherNotation refs name

/-- An object leads to a commit of a kind. -/
def Leads (P : Oid → Prop) (oid : Option Oid) : Prop :=
  ∃ commit, oid.bind objects.commit = some commit ∧ P commit

/-- **What a text leads to**, where one of the names it is looked up by is the one that is meant. -/
structure Denotes (P : Oid → Prop) (before : List String) (own : String) (behind : List String)
    (name : String) : Prop where
  /-- A name before it that exists leads to such a commit. -/
  shadow : ∀ oid, refs.first before = some oid → objects.Leads P (some oid)
  /-- So does the name itself. -/
  meant : refs.first before = none → ∀ oid, refs.get own = some oid → objects.Leads P (some oid)
  /-- And where neither exists, so does what the text comes to. -/
  astray : refs.first before = none → refs.get own = none →
    objects.Leads P ((refs.first behind).or (objects.otherNotation refs name))

variable {objects refs}

/-- **A text leads to a commit of a kind exactly if the first of its names does.** -/
theorem leads_revParse_iff {P : Oid → Prop} {before behind : List String} {own name : String}
    (hhex : fullHex name = false) (hplain : plain name = true)
    (hnames : lookupNames name = before ++ own :: behind) :
    objects.Leads P (objects.revParse refs name)
      ↔ objects.Denotes refs P before own behind name := by
  have hparse : objects.revParse refs name = ((refs.first before).or ((refs.get own).or
      (refs.first behind))).or (objects.otherNotation refs name) := by
    unfold revParse
    rw [hhex, hplain, hnames, if_neg Bool.false_ne_true, if_pos rfl]
    unfold RefStore.first
    rw [List.findSome?_append, List.findSome?_cons]
    cases refs.get own <;> rfl
  rw [hparse]
  constructor
  · intro h
    refine ⟨fun oid hoid => ?_, fun hnone oid hoid => ?_, fun hnone hown => ?_⟩
    · rw [hoid] at h
      exact h
    · rw [hnone, hoid] at h
      exact h
    · rw [hnone, hown] at h
      exact h
  · intro h
    cases hbefore : refs.first before with
    | some oid => exact h.shadow oid hbefore
    | none =>
      cases hown : refs.get own with
      | some oid => exact h.meant hbefore oid hown
      | none => exact h.astray hbefore hown

end Objects

end Git
