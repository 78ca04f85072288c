import CharlieBot.Lib.Json

/-!
# Relative paths

`posixpath.normpath` drops the empty and the dot components of a path and takes
a component off for each `..` behind one. A path that was put together from
components of which none is empty, a dot or two dots is left as it is
(`normpath_asPosix`).
-/

/-- **A component** of a resolved path. -/
structure PathPart where
  chars : List Char
  ne_nil : chars ≠ []
  ne_dot : chars ≠ ['.']
  ne_dots : chars ≠ ['.', '.']
  no_slash : '/' ∉ chars

namespace PosixPath

/-- `Path.as_posix`, for a relative path. -/
def asPosix : List PathPart → List Char
  | [] => ['.']
  | part :: parts => Text.join ['/'] (part.chars :: parts.map PathPart.chars)

/-- A component joins those that are kept, the last one first. -/
def pushPart (absolute : Bool) (kept : List (List Char)) (comp : List Char) : List (List Char) :=
  if comp = [] ∨ comp = ['.'] then kept
  else if comp ≠ ['.', '.'] ∨ (absolute = false ∧ kept = []) ∨ kept.head? = some ['.', '.'] then
    comp :: kept
  else kept.tail

/-- The slashes a path begins with, as far as they count. -/
def initialSlashes : List Char → ℕ
  | '/' :: '/' :: '/' :: _ => 1
  | '/' :: '/' :: _ => 2
  | '/' :: _ => 1
  | _ => 0

/-- `posixpath.normpath`. -/
def normpath (path : List Char) : List Char :=
  let slashes := initialSlashes path
  let comps := (Text.splitOnChar '/' path).foldl (pushPart (slashes != 0)) []
  let out := List.replicate slashes '/' ++ Text.join ['/'] comps.reverse
  if out = [] then ['.'] else out

theorem splitOnChar_append {sep : Char} {piece : List Char} (h : sep ∉ piece) (rest : List Char) :
    Text.splitOnChar sep (piece ++ sep :: rest) = piece :: Text.splitOnChar sep rest := by
  induction piece with
  | nil => simp [Text.splitOnChar]
  | cons c piece ih =>
    have hc : c ≠ sep := fun heq => h (heq ▸ List.mem_cons_self)
    rw [List.cons_append, Text.splitOnChar, if_neg hc,
      ih fun hmem => h (List.mem_cons_of_mem _ hmem)]

theorem splitOnChar_of_not_mem {sep : Char} {piece : List Char} (h : sep ∉ piece) :
    Text.splitOnChar sep piece = [piece] := by
  induction piece with
  | nil => rfl
  | cons c piece ih =>
    have hc : c ≠ sep := fun heq => h (heq ▸ List.mem_cons_self)
    rw [Text.splitOnChar, if_neg hc, ih fun hmem => h (List.mem_cons_of_mem _ hmem)]

theorem splitOnChar_join {sep : Char} {piece : List Char} {pieces : List (List Char)}
    (h : ∀ p ∈ piece :: pieces, sep ∉ p) :
    Text.splitOnChar sep (Text.join [sep] (piece :: pieces)) = piece :: pieces := by
  induction pieces generalizing piece with
  | nil => exact splitOnChar_of_not_mem (h piece List.mem_cons_self)
  | cons q pieces ih =>
    rw [Text.join, List.append_assoc, List.singleton_append,
      splitOnChar_append (h piece List.mem_cons_self),
      ih fun p hp => h p (List.mem_cons_of_mem _ hp)]

theorem foldl_pushPart (absolute : Bool) (parts : List PathPart) (kept : List (List Char)) :
    (parts.map PathPart.chars).foldl (pushPart absolute) kept
      = (parts.map PathPart.chars).reverse ++ kept := by
  induction parts generalizing kept with
  | nil => rfl
  | cons part parts ih =>
    rw [List.map_cons, List.foldl_cons]
    have hpush : pushPart absolute kept part.chars = part.chars :: kept := by
      unfold pushPart
      rw [if_neg (not_or.mpr ⟨part.ne_nil, part.ne_dot⟩), if_pos (.inl part.ne_dots)]
    rw [hpush, ih, List.reverse_cons, List.append_assoc, List.singleton_append]

theorem join_cons (sep : List Char) (c : Char) (cs : List Char) (pieces : List (List Char)) :
    ∃ rest, Text.join sep ((c :: cs) :: pieces) = c :: rest := by
  cases pieces with
  | nil => exact ⟨cs, rfl⟩
  | cons q pieces => exact ⟨cs ++ sep ++ Text.join sep (q :: pieces), rfl⟩

theorem initialSlashes_cons {c : Char} (h : c ≠ '/') (rest : List Char) :
    initialSlashes (c :: rest) = 0 := by
  unfold initialSlashes
  split <;> simp_all

theorem splitOnChar_asPosix (part : PathPart) (parts : List PathPart) :
    Text.splitOnChar '/' (asPosix (part :: parts)) = (part :: parts).map PathPart.chars := by
  refine splitOnChar_join fun p hp => ?_
  rw [← List.map_cons] at hp
  obtain ⟨q, -, rfl⟩ := List.mem_map.mp hp
  exact q.no_slash

theorem asPosix_ne_nil (path : List PathPart) : asPosix path ≠ [] := by
  cases path with
  | nil => exact List.cons_ne_nil _ _
  | cons part parts =>
    intro none_
    have split := splitOnChar_asPosix part parts
    rw [none_] at split
    exact part.ne_nil (List.cons.inj split).1.symm

theorem normpath_asPosix (parts : List PathPart) : normpath (asPosix parts) = asPosix parts := by
  cases parts with
  | nil => rfl
  | cons part parts =>
    have hslashes : initialSlashes (asPosix (part :: parts)) = 0 := by
      obtain ⟨c, cs, hc⟩ := List.exists_cons_of_ne_nil part.ne_nil
      have hcslash : c ≠ '/' := by
        rintro rfl
        exact part.no_slash (hc ▸ List.mem_cons_self)
      obtain ⟨rest, hrest⟩ := join_cons ['/'] c cs (parts.map PathPart.chars)
      show initialSlashes (Text.join ['/'] (part.chars :: parts.map PathPart.chars)) = 0
      rw [hc, hrest]
      exact initialSlashes_cons hcslash rest
    have hsplit := splitOnChar_asPosix part parts
    have hne := asPosix_ne_nil (part :: parts)
    unfold normpath
    dsimp only
    rw [hslashes, hsplit, foldl_pushPart, List.append_nil, List.reverse_reverse]
    show (if asPosix (part :: parts) = [] then _ else asPosix (part :: parts)) = _
    rw [if_neg hne]

end PosixPath
