import Mathlib.Data.List.Basic
import Mathlib.Data.Option.Basic

/-!
# Where a plan's head and body lie

A plan page is spliced at the spans of its first `head` and its first
`body`. Two handlers ride the same tokenizer over the page. `_Parser` builds
the tree and `_first_descendant` looks the two elements up in it;
`_BoundaryParser` only keeps the open tags, each with a reference to the
anchor its start tag made, if it made one.

The tree is held here as its builder leaves it at every moment: the items
directly below the root, and the open elements on the way to the innermost
one, each with the items read into it so far. `boundaryOf` reads the
boundary parser's whole state off that shape, so that the refinement is an
equation: a token takes `boundaryOf` of a tree under construction to
`boundaryOf` of the next one.

No attribute is read on the way to the two anchors; an element of the tree keeps those of its start
tag.
-/

namespace PlanDiff

/-- What a handler raises, with the offset its message names. -/
inductive Failure
  /-- `could not locate start tag at offset …`. -/
  | startTag (offset : ℕ)
  /-- `could not locate end tag at offset …`. -/
  | endTag (offset : ℕ)
  /-- `could not locate text data at offset …`. -/
  | textData (offset : ℕ)
  deriving DecidableEq, Repr

/-- Where the tokenizer stands: `getpos()`, lines counted from one. -/
structure Position where
  line : ℕ
  column : ℕ
  deriving DecidableEq, Repr

/-- The attributes of a start tag, in its order. -/
abbrev Attrs := List (List Char × Option (List Char))

/-- A call of the tokenizer, made at a position. A start tag comes with
`get_starttag_text()`. -/
inductive Token
  | startTag (pos : Position) (tag : String) (attrs : Attrs) (raw : Option (List Char))
  | startEndTag (pos : Position) (tag : String) (attrs : Attrs) (raw : Option (List Char))
  | endTag (pos : Position) (tag : String)
  | data (pos : Position) (text : List Char)
  | entityRef (pos : Position) (name : List Char)
  | charRef (pos : Position) (name : List Char)
  /-- A comment, a declaration or a processing instruction: no handler takes it. -/
  | passed
  deriving DecidableEq, Repr

/-! ## The offsets of a token -/

/-- The elements that never hold anything. -/
def voidTags : List String :=
  ["area", "base", "br", "col", "embed", "hr", "img", "input", "link", "meta", "param", "source",
    "track", "wbr"]

/-- The offsets that follow a newline, counted from `offset`. -/
def lineStartsFrom (offset : ℕ) : List Char → List ℕ
  | [] => []
  | c :: rest =>
    if c = '\n' then (offset + 1) :: lineStartsFrom (offset + 1) rest
    else lineStartsFrom (offset + 1) rest

def lineStarts (source : List Char) : List ℕ := 0 :: lineStartsFrom 0 source

/-- The offset in the source the tokenizer stands at. -/
def offsetOf (source : List Char) (pos : Position) : ℕ :=
  (lineStarts source).getD (pos.line - 1) 0 + pos.column

/-- The span of a start tag, which must lie in the source as it is. -/
def startTagSpan (source : List Char) (pos : Position) (raw : Option (List Char)) :
    Except Failure (ℕ × ℕ) :=
  let start := offsetOf source pos
  match raw with
  | none => .error (.startTag start)
  | some raw =>
    if (source.drop start).take raw.length = raw then .ok (start, start + raw.length)
    else .error (.startTag start)

/-- The span of an end tag: up to the next closing bracket. -/
def endTagSpan (source : List Char) (pos : Position) : Except Failure (ℕ × ℕ) :=
  let start := offsetOf source pos
  match (source.drop start).idxOf? '>' with
  | none => .error (.endTag start)
  | some ahead => .ok (start, start + ahead + 1)

/-! ## The tree and its builder -/

/-- A run of text, with its span in the source; a reference's text is not the source's. -/
structure TextPart where
  start : ℕ
  stop : ℕ
  text : List Char
  textIsRaw : Bool
  deriving DecidableEq, Repr

/-- What a start tag says of its element. -/
structure Opening where
  tag : String
  attrs : Attrs
  start : ℕ
  startEnd : ℕ
  deriving DecidableEq, Repr

/-- An element's span, with its end tag's own once one took it. -/
structure Anchor where
  start : ℕ
  startEnd : ℕ
  /-- The end tag's start and its end. -/
  closing : Option (ℕ × ℕ)
  deriving DecidableEq, Repr

/-- The span an opening has, with an end tag's or without. -/
def Opening.anchor (opening : Opening) (closing : Option (ℕ × ℕ)) : Anchor :=
  ⟨opening.start, opening.startEnd, closing⟩

/-- What an element holds: text, and elements that hold more. -/
inductive Item
  | part (part : TextPart)
  | node (opening : Opening) (closing : Option (ℕ × ℕ)) (children : List Item)
  deriving Repr

mutual

/-- The first element of a tag at an item or below it, in document order. -/
def Item.first (tag : String) : Item → Option Anchor
  | .part _ => none
  | .node opening closing children =>
    if opening.tag = tag then some (opening.anchor closing) else firstDescendant tag children

/-- The first element of a tag among some items or below them: each child is
looked at before what it holds, and what it holds before the next child. -/
def firstDescendant (tag : String) : List Item → Option Anchor
  | [] => none
  | child :: rest => (child.first tag).or (firstDescendant tag rest)

end

/-- An open element and the items read into it. -/
structure Frame where
  opening : Opening
  items : List Item
  deriving Repr

/-- The builder in the middle of the page: what lies directly below the root,
and the open elements, the innermost first. -/
structure Parser where
  root : List Item
  stack : List Frame
  deriving Repr

/-- A page not begun. -/
def Parser.init : Parser := ⟨[], []⟩

/-- An item at the end of the innermost open element. -/
def Parser.append (item : Item) : Parser → Parser
  | ⟨root, []⟩ => ⟨root ++ [item], []⟩
  | ⟨root, frame :: outer⟩ => ⟨root, { frame with items := frame.items ++ [item] } :: outer⟩

/-- An opened element goes on the stack. -/
def Parser.push (opening : Opening) (p : Parser) : Parser :=
  { p with stack := ⟨opening, []⟩ :: p.stack }

/-- What some open elements come to when no end tag takes them, with some
items at the end of the innermost. -/
def collapse (items : List Item) : List Frame → List Item
  | [] => items
  | frame :: outer => collapse [.node frame.opening none (frame.items ++ items)] outer

/-- An end tag takes the innermost open element of its tag; what is open
inside that one is left without an end. No element of the tag is open: nothing happens. -/
def Parser.close (tag : String) (span : ℕ × ℕ) (p : Parser) : Parser :=
  match p.stack.dropWhile (·.opening.tag ≠ tag) with
  | [] => p
  | frame :: outer =>
    let inner := p.stack.takeWhile (·.opening.tag ≠ tag)
    Parser.append (.node frame.opening (some span) (frame.items ++ collapse [] inner))
      ⟨p.root, outer⟩

/-- A reference: the span the tokenizer took, its semicolon included when it
is there, and what that span stands for. -/
def refPart (unescape : List Char → List Char) (source : List Char) (pos : Position)
    (name : List Char) (refs : List (List Char)) (basePunct : ℕ) : TextPart :=
  let start := offsetOf source pos
  let raw := source.drop start
  let length :=
    if refs.any (·.isPrefixOf raw) then name.length + basePunct + 1 else name.length + basePunct
  ⟨start, start + length, unescape (raw.take length), false⟩

/-- One call of the tokenizer at the tree's builder. -/
def Parser.handle (unescape : List Char → List Char) (source : List Char) (p : Parser) :
    Token → Except Failure Parser
  | .startTag pos tag attrs raw => do
    let (start, startEnd) ← startTagSpan source pos raw
    if tag ∈ voidTags then return p.append (.node ⟨tag, attrs, start, startEnd⟩ none [])
    else return p.push ⟨tag, attrs, start, startEnd⟩
  | .startEndTag pos tag attrs raw => do
    let (start, startEnd) ← startTagSpan source pos raw
    return p.append (.node ⟨tag, attrs, start, startEnd⟩ none [])
  | .endTag pos tag => do
    let span ← endTagSpan source pos
    return p.close tag span
  | .data pos text => do
    let start := offsetOf source pos
    if (source.drop start).take text.length = text then
      return p.append (.part ⟨start, start + text.length, text, true⟩)
    else throw (.textData start)
  | .entityRef pos name =>
    return p.append (.part (refPart unescape source pos name ["&".toList ++ name ++ [';']] 1))
  | .charRef pos name =>
    return p.append (.part (refPart unescape source pos name
      ["&#x".toList ++ name ++ [';'], "&#".toList ++ name ++ [';']] 2))
  | .passed => return p

/-- The items below the root once the page is over: what is open stays without an end. -/
def Parser.tree (p : Parser) : List Item := p.root ++ collapse [] p.stack

/-- The tree of a page: the items below its root. -/
def parse (unescape : List Char → List Char) (source : List Char) (tokens : List Token) :
    Except Failure (List Item) := do
  let p ← tokens.foldlM (Parser.handle unescape source) Parser.init
  return p.tree

/-! ## Looking an element up while the page is read -/

@[simp] theorem firstDescendant_nil (tag : String) : firstDescendant tag [] = none := rfl

@[simp] theorem firstDescendant_cons (tag : String) (item : Item) (rest : List Item) :
    firstDescendant tag (item :: rest) = (item.first tag).or (firstDescendant tag rest) := rfl

@[simp] theorem Item.first_part (tag : String) (part : TextPart) :
    (Item.part part).first tag = none := rfl

@[simp] theorem Item.first_node (tag : String) (opening : Opening) (closing : Option (ℕ × ℕ))
    (children : List Item) :
    (Item.node opening closing children).first tag =
      if opening.tag = tag then some (opening.anchor closing)
      else firstDescendant tag children := rfl

@[simp] theorem firstDescendant_append (tag : String) (items more : List Item) :
    firstDescendant tag (items ++ more) =
      (firstDescendant tag items).or (firstDescendant tag more) := by
  induction items with
  | nil => simp
  | cons item rest ih => simp [ih, Option.or_assoc]

/-- The first element of a tag among some open elements and what they hold,
the outermost looked at first. -/
def openFirst (tag : String) : List Frame → Option Anchor
  | [] => none
  | frame :: outer =>
    (openFirst tag outer).or
      (if frame.opening.tag = tag then some (frame.opening.anchor none)
      else firstDescendant tag frame.items)

theorem openFirst_append (tag : String) (inner outer : List Frame) :
    openFirst tag (inner ++ outer) = (openFirst tag outer).or (openFirst tag inner) := by
  induction inner with
  | nil => simp [openFirst]
  | cons frame inner ih => simp [openFirst, ih, Option.or_assoc]

/-- The first element of a tag on the page as far as it is read. -/
def Parser.first (tag : String) (p : Parser) : Option Anchor :=
  (firstDescendant tag p.root).or (openFirst tag p.stack)

/-- What is open is found where its collapse puts it: an open element is
looked at before the items inside it. -/
@[simp] theorem firstDescendant_collapse (tag : String) (items : List Item)
    (frames : List Frame) :
    firstDescendant tag (collapse items frames) =
      (openFirst tag frames).or (firstDescendant tag items) := by
  induction frames generalizing items with
  | nil => simp [collapse, openFirst]
  | cons frame outer ih =>
    rw [collapse, ih, openFirst, Option.or_assoc]
    by_cases own : frame.opening.tag = tag <;> simp [own]

theorem firstDescendant_tree (tag : String) (p : Parser) :
    firstDescendant tag p.tree = p.first tag := by
  simp [Parser.tree, Parser.first]

@[simp] theorem Parser.first_append (tag : String) (item : Item) (p : Parser) :
    (p.append item).first tag = (p.first tag).or (item.first tag) := by
  rcases p with ⟨root, _ | ⟨frame, outer⟩⟩
  · simp [Parser.append, Parser.first, openFirst]
  · by_cases own : frame.opening.tag = tag <;>
      simp [Parser.append, Parser.first, openFirst, own, Option.or_assoc]

theorem Parser.first_push (tag : String) (opening : Opening) (p : Parser) :
    (p.push opening).first tag = (p.append (.node opening none [])).first tag := by
  rw [Parser.first_append]
  simp [Parser.push, Parser.first, openFirst, Option.or_assoc]

/-! ## The boundary parser -/

/-- The two anchors that are tracked. -/
inductive Tracked
  | head
  | body
  deriving DecidableEq, Repr

def Tracked.tag : Tracked → String
  | .head => "head"
  | .body => "body"

/-- The boundary parser: the open tags, the innermost first, each with the
anchor its start tag made, and the two anchors. -/
structure Boundary where
  «open» : List (String × Option Tracked)
  head : Option Anchor
  body : Option Anchor
  deriving DecidableEq, Repr

/-- No tag seen. -/
def Boundary.init : Boundary := ⟨[], none, none⟩

/-- The first head and the first body make an anchor; the second value says which was made. -/
def Boundary.track (tag : String) (start startEnd : ℕ) (b : Boundary) :
    Boundary × Option Tracked :=
  if tag = "head" ∧ b.head = none then
    ({ b with head := some ⟨start, startEnd, none⟩ }, some .head)
  else if tag = "body" ∧ b.body = none then
    ({ b with body := some ⟨start, startEnd, none⟩ }, some .body)
  else (b, none)

/-- An end tag's span at an anchor that has none. -/
def Anchor.finish (span : ℕ × ℕ) (anchor : Anchor) : Anchor :=
  if anchor.closing = none then { anchor with closing := some span } else anchor

/-- The end tag's span at the anchor its element made, if it made one. -/
def Boundary.finish (span : ℕ × ℕ) (b : Boundary) : Option Tracked → Boundary
  | none => b
  | some .head => { b with head := b.head.map (Anchor.finish span) }
  | some .body => { b with body := b.body.map (Anchor.finish span) }

/-- An end tag takes the innermost open tag like it, and drops those inside. -/
def Boundary.close (tag : String) (span : ℕ × ℕ) (b : Boundary) : Boundary :=
  match b.open.dropWhile (·.1 ≠ tag) with
  | [] => b
  | slot :: outer => { b.finish span slot.2 with «open» := outer }

/-- One call of the tokenizer at the boundary parser. -/
def Boundary.handle (source : List Char) (b : Boundary) : Token → Except Failure Boundary
  | .startTag pos tag _ raw => do
    let (start, startEnd) ← startTagSpan source pos raw
    let (b', record) := b.track tag start startEnd
    if tag ∈ voidTags then return b'
    else return { b' with «open» := (tag, record) :: b'.open }
  | .startEndTag pos tag _ raw => do
    let (start, startEnd) ← startTagSpan source pos raw
    return (b.track tag start startEnd).1
  | .endTag pos tag => do
    let span ← endTagSpan source pos
    return b.close tag span
  | _ => return b

/-- The anchors of a page's first head and first body. -/
def parseAnchors (source : List Char) (tokens : List Token) :
    Except Failure (Option Anchor × Option Anchor) := do
  let b ← tokens.foldlM (Boundary.handle source) Boundary.init
  return (b.head, b.body)

/-! ## The boundary parser's state, read off the tree's -/

/-- The anchor an element makes: the first head and the first body make one. -/
def Parser.record (tag : String) (p : Parser) : Option Tracked :=
  if tag = "head" ∧ p.first "head" = none then some .head
  else if tag = "body" ∧ p.first "body" = none then some .body
  else none

/-- The open tags, each with the anchor it made when what is around it was open. -/
def slots (root : List Item) : List Frame → List (String × Option Tracked)
  | [] => []
  | frame :: outer =>
    (frame.opening.tag, Parser.record frame.opening.tag ⟨root, outer⟩) :: slots root outer

/-- The boundary parser's state where the tree has got so far. -/
def boundaryOf (p : Parser) : Boundary :=
  ⟨slots p.root p.stack, p.first "head", p.first "body"⟩

theorem slots_append (item : Item) (p : Parser) :
    slots (p.append item).root (p.append item).stack = slots p.root p.stack := by
  rcases p with ⟨root, _ | ⟨frame, outer⟩⟩ <;> rfl

theorem boundaryOf_append_part (part : TextPart) (p : Parser) :
    boundaryOf (p.append (.part part)) = boundaryOf p := by
  simp [boundaryOf, slots_append]

/-- **A start tag is tracked as the tree is looked through.** Where no head is found
yet, a head's opening is what is found from then on, and so for a body. -/
theorem track_boundaryOf (opening : Opening) (p : Parser) :
    (boundaryOf p).track opening.tag opening.start opening.startEnd =
      (boundaryOf (p.append (.node opening none [])), p.record opening.tag) := by
  simp only [Boundary.track, Parser.record, boundaryOf, slots_append, Parser.first_append,
    Item.first_node, firstDescendant_nil]
  by_cases head : opening.tag = "head"
  · by_cases unseen : p.first "head" = none
    · simp [head, unseen, Opening.anchor]
    · obtain ⟨anchor, seen⟩ := Option.ne_none_iff_exists'.1 unseen
      simp [head, seen]
  · by_cases body : opening.tag = "body"
    · by_cases unseen : p.first "body" = none
      · simp [body, unseen, Opening.anchor]
      · obtain ⟨anchor, seen⟩ := Option.ne_none_iff_exists'.1 unseen
        simp [body, seen]
    · simp [head, body]

theorem boundaryOf_push (opening : Opening) (p : Parser) :
    boundaryOf (p.push opening) =
      { boundaryOf (p.append (.node opening none [])) with
        «open» := (opening.tag, p.record opening.tag) :: slots p.root p.stack } := by
  simp only [boundaryOf, Parser.first_push]
  rfl

theorem dropWhile_slots (tag : String) (root : List Item) (stack : List Frame) :
    (slots root stack).dropWhile (·.1 ≠ tag) =
      slots root (stack.dropWhile (·.opening.tag ≠ tag)) := by
  induction stack with
  | nil => rfl
  | cons frame outer ih =>
    by_cases own : frame.opening.tag = tag
    · simp [slots, own]
    · simpa [slots, own] using ih

/-- What is found once an end tag has taken an element. The element itself
is found with its end when nothing before it is; else nothing changes, the
elements inside staying where they were. -/
theorem Parser.first_taken (tag : String) (root : List Item) (frame : Frame)
    (inner outer : List Frame) (span : ℕ × ℕ) :
    (Parser.append (.node frame.opening (some span) (frame.items ++ collapse [] inner))
        ⟨root, outer⟩).first tag =
      if frame.opening.tag = tag ∧ Parser.first tag ⟨root, outer⟩ = none then
        some (frame.opening.anchor (some span))
      else Parser.first tag ⟨root, inner ++ frame :: outer⟩ := by
  have around : Parser.first tag ⟨root, inner ++ frame :: outer⟩ =
      (Parser.first tag ⟨root, outer⟩).or
        ((if frame.opening.tag = tag then some (frame.opening.anchor none)
          else firstDescendant tag frame.items).or (openFirst tag inner)) := by
    simp [Parser.first, openFirst_append, openFirst, Option.or_assoc]
  rw [around, Parser.first_append, Item.first_node]
  by_cases own : frame.opening.tag = tag
  · by_cases unseen : Parser.first tag ⟨root, outer⟩ = none
    · simp [own, unseen]
    · obtain ⟨anchor, seen⟩ := Option.ne_none_iff_exists'.1 unseen
      simp [own, seen]
  · simp [own]

theorem Parser.first_open {tag : String} {root : List Item} {frame : Frame}
    (inner : List Frame) {outer : List Frame} (own : frame.opening.tag = tag)
    (unseen : Parser.first tag ⟨root, outer⟩ = none) :
    Parser.first tag ⟨root, inner ++ frame :: outer⟩ = some (frame.opening.anchor none) := by
  have before := Option.or_eq_none_iff.1 unseen
  simp [Parser.first, openFirst_append, openFirst, own, before.1, before.2]

/-- **An end tag finishes the anchor its element made, and no other.** -/
theorem close_boundaryOf (tag : String) (span : ℕ × ℕ) (p : Parser) :
    (boundaryOf p).close tag span = boundaryOf (p.close tag span) := by
  have taken := dropWhile_slots tag p.root p.stack
  have whole := List.takeWhile_append_dropWhile (p := (·.opening.tag ≠ tag)) (l := p.stack)
  unfold Boundary.close Parser.close
  rw [show (boundaryOf p).open = slots p.root p.stack from rfl, taken]
  cases rest : p.stack.dropWhile (·.opening.tag ≠ tag) with
  | nil => rfl
  | cons frame outer =>
    rw [rest] at whole
    generalize p.stack.takeWhile (·.opening.tag ≠ tag) = inner at whole
    obtain ⟨root, stack⟩ := p
    obtain rfl : inner ++ frame :: outer = stack := whole
    show ({ (boundaryOf ⟨root, inner ++ frame :: outer⟩).finish span
        (Parser.record frame.opening.tag ⟨root, outer⟩) with «open» := slots root outer } :
          Boundary) = boundaryOf (Parser.append _ ⟨root, outer⟩)
    simp only [boundaryOf, slots_append, Parser.first_taken]
    by_cases head : frame.opening.tag = "head" ∧ Parser.first "head" ⟨root, outer⟩ = none
    · have found := Parser.first_open inner head.1 head.2
      simp [Parser.record, head, found, Boundary.finish, Anchor.finish, Opening.anchor]
    · by_cases body : frame.opening.tag = "body" ∧ Parser.first "body" ⟨root, outer⟩ = none
      · have found := Parser.first_open inner body.1 body.2
        simp [Parser.record, body, found, Boundary.finish, Anchor.finish, Opening.anchor]
      · simp [Parser.record, head, body, Boundary.finish]

/-! ## The refinement -/

theorem bind_ok {α β : Type} {x : Except Failure α} {f : α → Except Failure β} {r : β}
    (ok : (x >>= f) = .ok r) : ∃ a, x = .ok a ∧ f a = .ok r := by
  cases x with
  | error failure => cases ok
  | ok a => exact ⟨a, rfl, ok⟩

/-- **One token.** Where the tree's builder goes on, the boundary parser goes
on to the state its next tree shows. -/
theorem handle_boundaryOf {unescape : List Char → List Char} {source : List Char} {p p' : Parser}
    {token : Token} (goes : p.handle unescape source token = .ok p') :
    (boundaryOf p).handle source token = .ok (boundaryOf p') := by
  cases token with
  | startTag pos tag attrs raw =>
    obtain ⟨⟨start, startEnd⟩, span, goes⟩ := bind_ok goes
    have tracked := track_boundaryOf ⟨tag, attrs, start, startEnd⟩ p
    simp only [Boundary.handle, span, bind, Except.bind, tracked]
    by_cases void : tag ∈ voidTags
    · simp only [void, if_true] at goes ⊢
      cases goes
      rfl
    · simp only [void, if_false] at goes ⊢
      cases goes
      rw [boundaryOf_push]
      simp [boundaryOf, slots_append, pure, Except.pure]
  | startEndTag pos tag attrs raw =>
    obtain ⟨⟨start, startEnd⟩, span, goes⟩ := bind_ok goes
    cases goes
    have tracked := track_boundaryOf ⟨tag, attrs, start, startEnd⟩ p
    simp only [Boundary.handle, span, bind, Except.bind, tracked]
    rfl
  | endTag pos tag =>
    obtain ⟨span, found, goes⟩ := bind_ok goes
    cases goes
    simp only [Boundary.handle, found, bind, Except.bind, close_boundaryOf]
    rfl
  | data pos text =>
    simp only [Parser.handle] at goes
    split at goes
    · cases goes
      rw [boundaryOf_append_part]
      rfl
    · cases goes
  | entityRef pos name =>
    cases goes
    rw [boundaryOf_append_part]
    rfl
  | charRef pos name =>
    cases goes
    rw [boundaryOf_append_part]
    rfl
  | passed =>
    cases goes
    rfl

theorem handle_boundaryOf_error {unescape : List Char → List Char} {source : List Char}
    {p : Parser} {token : Token} {failure : Failure}
    (raises : p.handle unescape source token = .error failure)
    (atTag : ∀ offset, failure ≠ .textData offset) :
    (boundaryOf p).handle source token = .error failure := by
  cases token with
  | startTag pos tag attrs raw =>
    cases span : startTagSpan source pos raw with
    | error raised => simp_all [Parser.handle, Boundary.handle, bind, Except.bind]
    | ok span' =>
      simp only [Parser.handle, span, bind, Except.bind] at raises
      split at raises <;> cases raises
  | startEndTag pos tag attrs raw =>
    cases span : startTagSpan source pos raw with
    | error raised => simp_all [Parser.handle, Boundary.handle, bind, Except.bind]
    | ok span' => simp [Parser.handle, span, bind, Except.bind, pure, Except.pure] at raises
  | endTag pos tag =>
    cases span : endTagSpan source pos with
    | error raised => simp_all [Parser.handle, Boundary.handle, bind, Except.bind]
    | ok span' => simp [Parser.handle, span, bind, Except.bind, pure, Except.pure] at raises
  | data pos text =>
    simp only [Parser.handle] at raises
    split at raises
    · cases raises
    · cases raises
      exact absurd rfl (atTag _)
  | entityRef pos name => cases raises
  | charRef pos name => cases raises
  | passed => cases raises

/-- **A whole page.** Whatever the tokens, the boundary parser ends where the
tree's builder ends: with the state of its tree, or with what a tag raised. -/
theorem run_boundaryOf (unescape : List Char → List Char) (source : List Char)
    (tokens : List Token) (p : Parser) :
    (∀ p', tokens.foldlM (Parser.handle unescape source) p = .ok p' →
      tokens.foldlM (Boundary.handle source) (boundaryOf p) = .ok (boundaryOf p')) ∧
    (∀ failure, tokens.foldlM (Parser.handle unescape source) p = .error failure →
      (∀ offset, failure ≠ .textData offset) →
      tokens.foldlM (Boundary.handle source) (boundaryOf p) = .error failure) := by
  induction tokens generalizing p with
  | nil => exact ⟨fun p' ends => by cases ends; rfl, fun failure ends => (nomatch ends)⟩
  | cons token rest ih =>
    simp only [List.foldlM_cons]
    cases step : p.handle unescape source token with
    | ok q =>
      rw [handle_boundaryOf step]
      exact ih q
    | error raised =>
      refine ⟨fun p' ends => (nomatch ends), fun failure ends atTag => ?_⟩
      cases ends
      rw [handle_boundaryOf_error step atTag]
      rfl

/-- **The anchors are the tree's.** Over every source and every stream of
tokens, the boundary parser finds the anchors of the first head and the first
body of the tree, if the page has one; and where the tree's builder raises at a tag, it
raises the same. -/
theorem anchors_of_tree (unescape : List Char → List Char) (source : List Char)
    (tokens : List Token) :
    (∀ page, parse unescape source tokens = .ok page →
      parseAnchors source tokens =
        .ok (firstDescendant "head" page, firstDescendant "body" page)) ∧
    (∀ failure, parse unescape source tokens = .error failure →
      (∀ offset, failure ≠ .textData offset) →
      parseAnchors source tokens = .error failure) := by
  have run := run_boundaryOf unescape source tokens Parser.init
  unfold parse parseAnchors
  rw [show Boundary.init = boundaryOf Parser.init from rfl]
  cases ends : tokens.foldlM (Parser.handle unescape source) Parser.init with
  | ok p =>
    rw [run.1 p ends]
    refine ⟨fun page built => ?_, fun failure built => (nomatch built)⟩
    cases built
    rw [firstDescendant_tree, firstDescendant_tree]
    rfl
  | error raised =>
    refine ⟨fun page built => (nomatch built), fun failure built atTag => ?_⟩
    cases built
    rw [run.2 raised ends atTag]
    rfl

/-- A head in a head, and no body's end: the inner head takes the end tag. -/
def nestedHeads : List Char := "<head><head></head><body>".toList

def nestedTokens : List Token :=
  [.startTag ⟨1, 0⟩ "head" [] (some "<head>".toList),
    .startTag ⟨1, 6⟩ "head" [] (some "<head>".toList), .endTag ⟨1, 12⟩ "head",
    .startTag ⟨1, 19⟩ "body" [] (some "<body>".toList)]

/-- The first head is the outer one, which no end tag took; with a tag that is
not where it is said to be, both raise. -/
theorem anchors_of_tree_nested :
    (∃ page, parse id nestedHeads nestedTokens = .ok page ∧
      parseAnchors nestedHeads nestedTokens =
        .ok (some ⟨0, 6, none⟩, some ⟨19, 25, none⟩)) ∧
    parseAnchors nestedHeads [.endTag ⟨1, 25⟩ "body"] = .error (.endTag 25) :=
  ⟨⟨_, rfl, (anchors_of_tree id nestedHeads nestedTokens).1 _ rfl⟩,
    (anchors_of_tree id nestedHeads [.endTag ⟨1, 25⟩ "body"]).2 _ rfl
      fun _ same => Failure.noConfusion same⟩

end PlanDiff
