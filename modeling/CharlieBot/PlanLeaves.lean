import CharlieBot.Lib.Difflib
import CharlieBot.Lib.TextSearch
import CharlieBot.PlanAnchors

/-!
# The leaves of a plan

A plan is annotated by small splices into its source, so every piece of its text keeps the place it
comes from. The leaves of the tree are the blocks that a comparison takes as one: a row of a table,
a block without blocks inside, and the text of a block that stands between those inside.

Which elements a source has is a matter of the tokenizer, which walks over the source and calls the
parser. That the text of a leaf lies in the source in order, each piece where its bounds say, is not
(`inOrder_leaf`): the tree holds one piece of text for each call that brings one, in the order of
the calls, and a leaf leaves some out.
-/

namespace PlanLeaves

open Difflib (slice)
open PlanDiff (Attrs Failure Frame Item Opening Parser Position TextPart Token)

/-! ## Positions of the source -/

/-- `getpos`, of a tokenizer that is at an offset. -/
def getpos (source : List Char) (i : ℕ) : Position :=
  ⟨(source.take i).count '\n' + 1, ((source.take i).reverse.takeWhile (· ≠ '\n')).length⟩

section Positions

open PlanDiff (lineStarts lineStartsFrom offsetOf)

theorem lineStartsFrom_append (offset : ℕ) (s t : List Char) :
    lineStartsFrom offset (s ++ t) = lineStartsFrom offset s ++ lineStartsFrom (offset + s.length) t := by
  induction s generalizing offset with
  | nil => rfl
  | cons c s ih =>
    rw [List.cons_append, lineStartsFrom, lineStartsFrom, ih, List.length_cons,
      Nat.add_right_comm offset 1, Nat.add_assoc offset]
    split <;> rfl

theorem length_lineStartsFrom (offset : ℕ) (s : List Char) :
    (lineStartsFrom offset s).length = s.count '\n' := by
  induction s generalizing offset with
  | nil => rfl
  | cons c s ih =>
    rw [lineStartsFrom]
    split
    · next h => rw [h, List.length_cons, ih, List.count_cons_self]
    · next h => rw [ih, List.count_cons_of_ne h]

theorem getLast_lineStarts (s : List Char) :
    (lineStarts s).getD (s.count '\n') 0 + (s.reverse.takeWhile (· ≠ '\n')).length = s.length := by
  induction s using List.reverseRecOn with
  | nil => rfl
  | append_singleton s c ih =>
    have hlength : (lineStarts s).length = s.count '\n' + 1 :=
      congrArg (· + 1) (length_lineStartsFrom 0 s)
    have happend : lineStarts (s ++ [c]) = lineStarts s ++ lineStartsFrom s.length [c] := by
      rw [lineStarts, lineStartsFrom_append, Nat.zero_add]
      rfl
    rw [happend, List.count_append, List.reverse_append, List.reverse_singleton,
      List.singleton_append, List.length_append, List.length_singleton]
    by_cases h : c = '\n'
    · subst h
      rw [List.count_singleton_self, ← hlength, List.takeWhile_cons_of_neg (by decide),
        List.length_nil, Nat.add_zero, List.getD_eq_getElem?_getD,
        List.getElem?_append_right le_rfl, Nat.sub_self]
      rfl
    · have hnone : lineStartsFrom s.length [c] = [] := by
        rw [lineStartsFrom, if_neg h]
        rfl
      rw [hnone, List.append_nil, List.count_singleton, if_neg (by simpa using h), Nat.add_zero,
        List.takeWhile_cons_of_pos (by simpa using h), List.length_cons, ← Nat.add_assoc, ih]

/-- **The parser finds the offset of its tokenizer again.** -/
theorem offsetOf_getpos {source : List Char} {i : ℕ} (h : i ≤ source.length) :
    offsetOf source (getpos source i) = i := by
  have hlast := getLast_lineStarts (source.take i)
  have hsplit : lineStarts source = lineStarts (source.take i)
      ++ lineStartsFrom (source.take i).length (source.drop i) := by
    conv_lhs => rw [← List.take_append_drop i source]
    rw [lineStarts, lineStartsFrom_append, Nat.zero_add]
    rfl
  have hlength : (lineStarts (source.take i)).length = (source.take i).count '\n' + 1 :=
    congrArg (· + 1) (length_lineStartsFrom 0 _)
  rw [offsetOf, getpos, Nat.add_sub_cancel, hsplit, List.getD_eq_getElem?_getD,
    List.getElem?_append_left (by omega), ← List.getD_eq_getElem?_getD, hlast, List.length_take,
    Nat.min_eq_left h]

end Positions

/-! ## The leaves -/

/-- `_TextPart.raw_span`. -/
def rawSpan (p : TextPart) (logicalStart logicalEnd : ℕ) : ℕ × ℕ :=
  if p.textIsRaw then (p.start + logicalStart, p.start + logicalEnd) else (p.start, p.stop)

/-- `attrs.get(name) or ""`. The names are lowered as the dictionary is built, and of two values for
a name it keeps the last. -/
def getAttr (C : CaseTable) (attrs : Attrs) (name : String) : List Char :=
  ((attrs.reverse.find? fun a => C.lower a.1 = name.toList).bind (·.2)).getD []

def ignoredTags : List String := ["head", "style", "script", "template", "noscript", "title"]

def blockTags : List String :=
  ["address", "article", "aside", "blockquote", "body", "caption", "dd", "details", "dialog", "div",
    "dl", "dt", "fieldset", "figcaption", "figure", "footer", "form", "h1", "h2", "h3", "h4", "h5",
    "h6", "header", "hgroup", "hr", "li", "main", "nav", "ol", "p", "pre", "section", "summary",
    "table", "tbody", "td", "tfoot", "th", "thead", "tr", "ul"]

/-- The values of `display` that make a block. -/
def blockDisplays : List String :=
  ["block", "flow-root", "flex", "grid", "list-item", "table", "table-caption", "table-cell",
    "table-row"]

/-- The text behind a word at the front, if it is there. -/
def afterWord : List Char → List Char → Option (List Char)
  | [], s => some s
  | _ :: _, [] => none
  | w :: word, c :: s => if c = w then afterWord word s else none

/-- `\s*display\s*:\s*([^;]+)` on a declaration, which has no semicolon, with the value
stripped. -/
def displayOf (declaration : List Char) : Option (List Char) :=
  (afterWord "display".toList (declaration.dropWhile Text.isSpace)).bind fun rest =>
    (afterWord [':'] (rest.dropWhile Text.isSpace)).bind fun value =>
      if value.isEmpty then none else some (Text.strip value)

/-- **`_is_boundary`**. -/
def isBoundary (C : CaseTable) (opening : Opening) : Bool :=
  let classes := ((getAttr C opening.attrs "class").splitOnP Text.isSpace).filter (!·.isEmpty)
  if blockTags.contains opening.tag then true
  else if opening.tag = "span" && (classes.contains "mtag".toList || classes.contains "b".toList) then
    true
  else
    match ((C.lower (getAttr C opening.attrs "style")).splitOn ';').findSome? displayOf with
    | some value => (blockDisplays.map String.toList).contains value
    | none => false

mutual

def visibleParts : Item → List TextPart
  | .part part => [part]
  | .node opening _ children =>
    if ignoredTags.contains opening.tag then [] else visiblePartsAll children

def visiblePartsAll : List Item → List TextPart
  | [] => []
  | child :: children => visibleParts child ++ visiblePartsAll children

end

/-- `_has_visible_text`: some part has a character that is not white space. -/
def hasVisibleText (parts : List TextPart) : Bool :=
  parts.any fun part => part.text.any fun c => !Text.isSpace c

structure Leaf where
  element : Item
  parts : List TextPart
  whole : Bool

/-- `_Leaf.text`. -/
def Leaf.text (leaf : Leaf) : List Char := leaf.parts.flatMap (·.text)

/-- The pieces of text among the children. -/
def directParts (children : List Item) : List TextPart :=
  children.filterMap fun
    | .part part => some part
    | .node .. => none

def isBlockChild (C : CaseTable) : Item → Bool
  | .part _ => false
  | .node opening _ _ => isBoundary C opening

mutual

/-- `visit`, in `_collect_leaves`. -/
def visit (C : CaseTable) : Item → List Leaf
  | .part _ => []
  | .node opening closing children =>
    let node := Item.node opening closing children
    let allParts := visibleParts node
    if hasVisibleText allParts = false then []
    else if opening.tag = "tr" then [⟨node, allParts, true⟩]
    else if children.any (isBlockChild C) then
      (if hasVisibleText (directParts children) then [⟨node, directParts children, false⟩] else [])
        ++ visitAll C children
    else [⟨node, allParts, true⟩]

/-- The leaves of the children. -/
def visitAll (C : CaseTable) : List Item → List Leaf
  | [] => []
  | child :: children => visit C child ++ visitAll C children

end

/-- **`_collect_leaves`**. -/
def collectLeaves (C : CaseTable) (root : Item) : List Leaf :=
  (visit C root).filter fun leaf => hasVisibleText leaf.parts

mutual

/-- `_first_descendant`, the element itself. -/
def firstElement (tag : String) : Item → Option Item
  | .part _ => none
  | .node _ _ children => firstElementAll tag children

/-- The first among the children and what is below them. -/
def firstElementAll (tag : String) : List Item → Option Item
  | [] => none
  | .part _ :: children => firstElementAll tag children
  | .node opening closing below :: children =>
    if opening.tag = tag then some (.node opening closing below)
    else (firstElement tag (.node opening closing below)).orElse fun _ =>
      firstElementAll tag children

end

/-- The root of a tree, over the items below it. -/
def rootNode (items : List Item) : Item := .node ⟨"#root", [], 0, 0⟩ none items

def documentRoot (items : List Item) : Item :=
  (firstElement "body" (rootNode items)).getD (rootNode items)

/-! ## Parts in their order -/

section Source

variable (unescape : List Char → List Char) (source : List Char)

/-- The position a call is made at. -/
def position : Token → Option Position
  | .startTag pos .. | .startEndTag pos .. | .endTag pos _ | .data pos _ | .entityRef pos _
  | .charRef pos _ => some pos
  | .passed => none

/-- The part that a call appends. -/
def partOf : Token → Option TextPart
  | .data pos text =>
    some ⟨PlanDiff.offsetOf source pos, PlanDiff.offsetOf source pos + text.length, text, true⟩
  | .entityRef pos name =>
    some (PlanDiff.refPart unescape source pos name ["&".toList ++ name ++ [';']] 1)
  | .charRef pos name =>
    some (PlanDiff.refPart unescape source pos name
      ["&#x".toList ++ name ++ [';'], "&#".toList ++ name ++ [';']] 2)
  | _ => none

/-- Where the text of a call ends, for a call at an offset. -/
def stop (call : ℕ × Token) : ℕ := ((partOf unescape source call.2).map (·.stop)).getD call.1

/-- **The tokenizer walks forward over the source**: each call is made at an offset of it, behind
the text of the calls before, and `getpos` tells the offset. -/
structure Forward (calls : List (ℕ × Token)) : Prop where
  inside : ∀ call ∈ calls, call.1 ≤ source.length
  positions : ∀ call ∈ calls, ∀ pos ∈ position call.2, pos = getpos source call.1
  ordered : calls.Pairwise fun call next => stop unescape source call ≤ next.1

/-- **A part tells where it comes from**: raw text is the source between its bounds, the text of a
reference is what the source there decodes to. -/
structure Sourced (p : TextPart) : Prop where
  raw : p.textIsRaw = true → p.stop = p.start + p.text.length ∧ slice source p.start p.stop = p.text
  decoded : p.textIsRaw = false → p.start < p.stop ∧ unescape (slice source p.start p.stop) = p.text

/-- **The text of a tree**: every part tells where it comes from, and none begins before the one in
front of it ends. -/
structure InOrder (parts : List TextPart) : Prop where
  sourced : ∀ p ∈ parts, Sourced unescape source p
  ordered : parts.Pairwise fun p q => p.stop ≤ q.start

end Source

mutual

def allParts : Item → List TextPart
  | .part part => [part]
  | .node _ _ children => allPartsAll children

def allPartsAll : List Item → List TextPart
  | [] => []
  | child :: children => allParts child ++ allPartsAll children

end

theorem allPartsAll_append (xs ys : List Item) :
    allPartsAll (xs ++ ys) = allPartsAll xs ++ allPartsAll ys := by
  induction xs with
  | nil => rfl
  | cons x xs ih => rw [List.cons_append, allPartsAll, allPartsAll, ih, List.append_assoc]

theorem allPartsAll_singleton (item : Item) : allPartsAll [item] = allParts item := by
  rw [allPartsAll, allPartsAll, List.append_nil]

/-- The text that the open elements have, the innermost last. -/
def stackParts : List Frame → List TextPart
  | [] => []
  | frame :: outer => stackParts outer ++ allPartsAll frame.items

def partsSoFar (p : Parser) : List TextPart := allPartsAll p.root ++ stackParts p.stack

theorem stackParts_append (inner outer : List Frame) :
    stackParts (inner ++ outer) = stackParts outer ++ stackParts inner := by
  induction inner with
  | nil => exact (List.append_nil _).symm
  | cons frame inner ih => rw [List.cons_append, stackParts, stackParts, ih, List.append_assoc]

theorem allPartsAll_collapse (items : List Item) (frames : List Frame) :
    allPartsAll (PlanDiff.collapse items frames) = stackParts frames ++ allPartsAll items := by
  induction frames generalizing items with
  | nil => rfl
  | cons frame outer ih =>
    rw [PlanDiff.collapse, ih, allPartsAll_singleton, allParts, allPartsAll_append, stackParts,
      List.append_assoc]

theorem partsSoFar_append (item : Item) (p : Parser) :
    partsSoFar (p.append item) = partsSoFar p ++ allParts item := by
  obtain ⟨root, stack⟩ := p
  cases stack with
  | nil =>
    show allPartsAll (root ++ [item]) ++ [] = allPartsAll root ++ [] ++ allParts item
    rw [allPartsAll_append, allPartsAll_singleton, List.append_nil, List.append_nil]
  | cons frame outer =>
    show allPartsAll root ++ (stackParts outer ++ allPartsAll (frame.items ++ [item]))
      = allPartsAll root ++ (stackParts outer ++ allPartsAll frame.items) ++ allParts item
    rw [allPartsAll_append, allPartsAll_singleton, List.append_assoc, List.append_assoc]

theorem partsSoFar_close (tag : String) (span : ℕ × ℕ) (p : Parser) :
    partsSoFar (p.close tag span) = partsSoFar p := by
  have hstack : p.stack.takeWhile (·.opening.tag ≠ tag) ++ p.stack.dropWhile (·.opening.tag ≠ tag)
      = p.stack := List.takeWhile_append_dropWhile
  rw [Parser.close]
  cases hdrop : p.stack.dropWhile (·.opening.tag ≠ tag) with
  | nil => rfl
  | cons frame outer =>
    rw [hdrop] at hstack
    have hparts := congrArg stackParts hstack
    rw [stackParts_append, stackParts] at hparts
    show partsSoFar (Parser.append _ ⟨p.root, outer⟩) = partsSoFar p
    rw [partsSoFar_append, allParts, allPartsAll_append, allPartsAll_collapse, allPartsAll,
      List.append_nil, partsSoFar, partsSoFar, ← hparts]
    simp only [List.append_assoc]

theorem allPartsAll_tree (p : Parser) : allPartsAll p.tree = partsSoFar p := by
  rw [Parser.tree, allPartsAll_append, allPartsAll_collapse, allPartsAll, List.append_nil, partsSoFar]

section Run

variable {unescape : List Char → List Char} {source : List Char}

theorem take_drop_eq_slice (a : List Char) (i n : ℕ) : (a.drop i).take n = slice a i (i + n) := by
  rw [slice, List.take_drop]

theorem sourced_refPart (pos : Position) (name : List Char) (refs : List (List Char))
    {basePunct : ℕ} (hpunct : 0 < basePunct) :
    Sourced unescape source (PlanDiff.refPart unescape source pos name refs basePunct) := by
  refine ⟨fun h => (nomatch h), fun _ => ?_⟩
  dsimp only [PlanDiff.refPart]
  rw [take_drop_eq_slice]
  refine ⟨Nat.lt_add_of_pos_right ?_, rfl⟩
  split <;> omega

/-- **What a call does to the text**: it appends its part, which tells where it comes from. -/
theorem partsSoFar_handle {p p' : Parser} {token : Token}
    (h : p.handle unescape source token = .ok p') :
    partsSoFar p' = partsSoFar p ++ (partOf unescape source token).toList
      ∧ ∀ part ∈ partOf unescape source token, Sourced unescape source part := by
  cases token with
  | startTag pos tag attrs raw =>
    obtain ⟨⟨start, startEnd⟩, -, h⟩ := PlanDiff.bind_ok h
    refine ⟨?_, fun part hpart => absurd hpart (Option.not_mem_none part)⟩
    dsimp only at h
    split at h
    · rw [← Except.ok.inj h, partsSoFar_append]
      rfl
    · rw [← Except.ok.inj h]
      show allPartsAll p.root ++ (stackParts p.stack ++ []) = partsSoFar p ++ []
      rw [List.append_nil, List.append_nil, partsSoFar]
  | startEndTag pos tag attrs raw =>
    obtain ⟨⟨start, startEnd⟩, -, h⟩ := PlanDiff.bind_ok h
    refine ⟨?_, fun part hpart => absurd hpart (Option.not_mem_none part)⟩
    rw [← Except.ok.inj h, partsSoFar_append]
    rfl
  | endTag pos tag =>
    obtain ⟨span, -, h⟩ := PlanDiff.bind_ok h
    refine ⟨?_, fun part hpart => absurd hpart (Option.not_mem_none part)⟩
    rw [← Except.ok.inj h, partsSoFar_close]
    exact (List.append_nil _).symm
  | data pos text =>
    simp only [Parser.handle] at h
    split at h
    · next htext =>
      rw [← Except.ok.inj h, partsSoFar_append]
      refine ⟨rfl, fun part hpart => ?_⟩
      obtain rfl := Option.some.inj hpart
      exact ⟨fun _ => ⟨rfl, (take_drop_eq_slice source _ _).symm.trans htext⟩,
        fun h => Bool.noConfusion h⟩
    · cases h
  | entityRef pos name =>
    rw [← Except.ok.inj h, partsSoFar_append]
    refine ⟨rfl, fun part hpart => ?_⟩
    obtain rfl := Option.some.inj hpart
    exact sourced_refPart pos name _ Nat.one_pos
  | charRef pos name =>
    rw [← Except.ok.inj h, partsSoFar_append]
    refine ⟨rfl, fun part hpart => ?_⟩
    obtain rfl := Option.some.inj hpart
    exact sourced_refPart pos name _ Nat.two_pos
  | passed =>
    rw [← Except.ok.inj h]
    exact ⟨(List.append_nil _).symm, fun part hpart => absurd hpart (Option.not_mem_none part)⟩

theorem partsSoFar_run {tokens : List Token} {p p' : Parser}
    (h : tokens.foldlM (Parser.handle unescape source) p = .ok p') :
    partsSoFar p' = partsSoFar p ++ tokens.filterMap (partOf unescape source)
      ∧ ∀ part ∈ tokens.filterMap (partOf unescape source), Sourced unescape source part := by
  induction tokens generalizing p with
  | nil =>
    obtain rfl := Except.ok.inj h
    exact ⟨(List.append_nil _).symm, fun part hpart => absurd hpart List.not_mem_nil⟩
  | cons token tokens ih =>
    rw [List.foldlM_cons] at h
    obtain ⟨q, hstep, h⟩ := PlanDiff.bind_ok h
    obtain ⟨hparts, hsourced⟩ := partsSoFar_handle hstep
    obtain ⟨hrest, hall⟩ := ih h
    have hcons : (token :: tokens).filterMap (partOf unescape source)
        = (partOf unescape source token).toList ++ tokens.filterMap (partOf unescape source) := by
      rw [List.filterMap_cons]
      cases partOf unescape source token <;> rfl
    rw [hrest, hparts, hcons]
    refine ⟨List.append_assoc _ _ _, fun part hpart => ?_⟩
    rcases List.mem_append.mp hpart with hpart | hpart
    · exact hsourced part (Option.mem_toList.mp hpart)
    · exact hall part hpart

theorem start_of_partOf {i : ℕ} {token : Token} {part : TextPart} (hi : i ≤ source.length)
    (hposition : ∀ pos ∈ position token, pos = getpos source i)
    (h : part ∈ partOf unescape source token) : part.start = i := by
  cases token with
  | data pos text =>
    obtain rfl := Option.some.inj h
    obtain rfl := hposition pos rfl
    exact offsetOf_getpos hi
  | entityRef pos name =>
    obtain rfl := Option.some.inj h
    obtain rfl := hposition pos rfl
    exact offsetOf_getpos hi
  | charRef pos name =>
    obtain rfl := Option.some.inj h
    obtain rfl := hposition pos rfl
    exact offsetOf_getpos hi
  | _ => exact nomatch h

theorem InOrder.sublist {parts parts' : List TextPart} (h : InOrder unescape source parts)
    (hsub : parts'.Sublist parts) : InOrder unescape source parts' :=
  ⟨fun p hp => h.sourced p (hsub.subset hp), h.ordered.sublist hsub⟩

/-- **The text of every tree** is in the order of the source. -/
theorem inOrder_parse {calls : List (ℕ × Token)} (hforward : Forward unescape source calls)
    {items : List Item} (h : PlanDiff.parse unescape source (calls.map (·.2)) = .ok items) :
    InOrder unescape source (allPartsAll items) := by
  obtain ⟨p, hrun, h⟩ := PlanDiff.bind_ok h
  obtain ⟨hparts, hsourced⟩ := partsSoFar_run hrun
  have htree : allPartsAll items
      = calls.filterMap fun call => partOf unescape source call.2 := by
    rw [← Except.ok.inj h, allPartsAll_tree, hparts, List.filterMap_map]
    rfl
  rw [List.filterMap_map] at hsourced
  rw [htree]
  refine ⟨hsourced, List.pairwise_filterMap.mpr (hforward.ordered.imp_of_mem ?_)⟩
  intro call next _ hnext hle part hpart part' hpart'
  rw [start_of_partOf (hforward.inside next hnext) (hforward.positions next hnext) hpart']
  have hstop : stop unescape source call = part.stop := by
    rw [stop, show partOf unescape source call.2 = some part from hpart]
    rfl
  rwa [hstop] at hle

end Run

/-! ## The text of a leaf -/

mutual

theorem visibleParts_sublist (item : Item) : (visibleParts item).Sublist (allParts item) := by
  cases item with
  | part part =>
    rw [visibleParts, allParts]
  | node opening closing children =>
    rw [visibleParts, allParts]
    split
    · exact List.nil_sublist _
    · exact visiblePartsAll_sublist children

theorem visiblePartsAll_sublist (children : List Item) :
    (visiblePartsAll children).Sublist (allPartsAll children) := by
  cases children with
  | nil =>
    rw [visiblePartsAll, allPartsAll]
  | cons child children =>
    rw [visiblePartsAll, allPartsAll]
    exact (visibleParts_sublist child).append (visiblePartsAll_sublist children)

end

theorem directParts_sublist (children : List Item) :
    (directParts children).Sublist (allPartsAll children) := by
  induction children with
  | nil =>
    rw [allPartsAll]
    exact List.Sublist.refl _
  | cons child children ih =>
    rw [allPartsAll]
    cases child with
    | part part =>
      rw [allParts]
      exact ih.cons_cons part
    | node opening closing below => exact ih.trans (List.sublist_append_right _ _)

mutual

theorem parts_sublist_of_mem_visit {C : CaseTable} {leaf : Leaf} (item : Item)
    (h : leaf ∈ visit C item) : leaf.parts.Sublist (allParts item) := by
  cases item with
  | part part =>
    rw [visit] at h
    exact absurd h List.not_mem_nil
  | node opening closing children =>
    rw [visit] at h
    split at h
    · exact absurd h List.not_mem_nil
    · split at h
      · obtain rfl := List.mem_singleton.mp h
        exact visibleParts_sublist _
      · split at h
        · rw [allParts]
          rcases List.mem_append.mp h with h | h
          · split at h
            · obtain rfl := List.mem_singleton.mp h
              exact directParts_sublist children
            · exact absurd h List.not_mem_nil
          · exact parts_sublist_of_mem_visitAll children h
        · obtain rfl := List.mem_singleton.mp h
          exact visibleParts_sublist _

theorem parts_sublist_of_mem_visitAll {C : CaseTable} {leaf : Leaf} (children : List Item)
    (h : leaf ∈ visitAll C children) : leaf.parts.Sublist (allPartsAll children) := by
  cases children with
  | nil =>
    rw [visitAll] at h
    exact absurd h List.not_mem_nil
  | cons child children =>
    rw [visitAll] at h
    rw [allPartsAll]
    rcases List.mem_append.mp h with h | h
    · exact (parts_sublist_of_mem_visit child h).trans (List.sublist_append_left _ _)
    · exact (parts_sublist_of_mem_visitAll children h).trans (List.sublist_append_right _ _)

end

mutual

theorem allParts_firstElement {tag : String} {found : Item} (item : Item)
    (h : firstElement tag item = some found) : (allParts found).Sublist (allParts item) := by
  cases item with
  | part part =>
    rw [firstElement] at h
    exact nomatch h
  | node opening closing children =>
    rw [firstElement] at h
    rw [allParts]
    exact allParts_firstElementAll children h

theorem allParts_firstElementAll {tag : String} {found : Item} (children : List Item)
    (h : firstElementAll tag children = some found) :
    (allParts found).Sublist (allPartsAll children) := by
  cases children with
  | nil =>
    rw [firstElementAll] at h
    exact nomatch h
  | cons child children =>
    rw [allPartsAll]
    cases child with
    | part part =>
      rw [firstElementAll] at h
      exact (allParts_firstElementAll children h).trans (List.sublist_append_right _ _)
    | node opening closing below =>
      rw [firstElementAll] at h
      split at h
      · obtain rfl := Option.some.inj h
        exact List.sublist_append_left _ _
      · cases hbelow : firstElement tag (.node opening closing below) with
        | some node =>
          rw [hbelow] at h
          obtain rfl := Option.some.inj h
          exact (allParts_firstElement _ hbelow).trans (List.sublist_append_left _ _)
        | none =>
          rw [hbelow] at h
          exact (allParts_firstElementAll children h).trans (List.sublist_append_right _ _)

end

theorem inOrder_leaf {C : CaseTable} {unescape : List Char → List Char} {source : List Char}
    {calls : List (ℕ × Token)} (hforward : Forward unescape source calls) {items : List Item}
    (h : PlanDiff.parse unescape source (calls.map (·.2)) = .ok items) {leaf : Leaf}
    (hleaf : leaf ∈ collectLeaves C (documentRoot items)) :
    InOrder unescape source leaf.parts := by
  have hsub : (allParts (documentRoot items)).Sublist (allPartsAll items) := by
    rw [documentRoot]
    cases hbody : firstElement "body" (rootNode items) with
    | none =>
      show (allParts (rootNode items)).Sublist _
      rw [rootNode, allParts]
    | some body => exact allParts_firstElement (rootNode items) hbody
  have hparts := parts_sublist_of_mem_visit _ (List.mem_of_mem_filter hleaf)
  exact (inOrder_parse hforward h).sublist (hparts.trans hsub)

end PlanLeaves
