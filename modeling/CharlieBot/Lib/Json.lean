import Mathlib.Data.List.Basic
import Mathlib.Data.Int.Basic
import Mathlib.Data.Rat.Defs
import Mathlib.Algebra.Group.Int.Defs
import Mathlib.Algebra.Group.Nat.Defs

/-!
# JSON values as a dynamically typed program reads them

A JSON document, parsed, is a value of one of a few kinds, and the
program reading it finds the kind out as it goes: `d.get(k)` raises where
`d` is no dict, `x or y` asks for the truth of `x`, `for b in blocks`
iterates a list, the characters of a string or the keys of a dict. The
operations of this module follow that reading; the ones that can raise
return an `Option`, and `none` is the exception.

A number is an integer or a decimal literal `m · 10 ^ e`, which is what
JSON text can spell. An object is a list of fields in insertion order;
setting a field keeps the position of the one it replaces.

Text is handled as a list of characters, so that every operation is a
structural recursion and evaluates.
-/

/-- **A JSON value.** -/
inductive Json where
  | null
  | bool (b : Bool)
  | int (n : ℤ)
  /-- The decimal `m · 10 ^ e`. -/
  | float (m e : ℤ)
  | str (s : String)
  | arr (xs : List Json)
  | obj (fields : List (String × Json))
  deriving Inhabited

/-- A dict: the fields of an object, in insertion order. -/
abbrev Dict := List (String × Json)

namespace Dict

/-- `d.get(k, dflt)`. -/
def getD (d : Dict) (k : String) (dflt : Json) : Json := (d.lookup k).getD dflt

/-- `d.get(k)`: `None` where the key is missing. -/
def get (d : Dict) (k : String) : Json := d.getD k .null

/-- `d[k]`: an exception where the key is missing. -/
def item (d : Dict) (k : String) : Option Json := d.lookup k

/-- `k in d`. -/
def has (d : Dict) (k : String) : Bool := (d.lookup k).isSome

/-- `d[k] = v`: replaces in place, or appends. -/
def set (d : Dict) (k : String) (v : Json) : Dict :=
  if d.has k then d.map fun f => if f.1 = k then (k, v) else f
  else d ++ [(k, v)]

/-- `d.setdefault(k, v)`. -/
def setDefault (d : Dict) (k : String) (v : Json) : Dict :=
  if d.has k then d else d ++ [(k, v)]

theorem lookup_map_of_ne (d : Dict) {k k' : String} (v : Json) (h : k' ≠ k) :
    (d.map fun f => if f.1 = k then (k, v) else f).lookup k' = d.lookup k' := by
  induction d with
  | nil => rfl
  | cons f d ih =>
    rw [List.map_cons]
    by_cases hf : f.1 = k
    · rw [if_pos hf, List.lookup_cons, List.lookup_cons, ih, hf]
      rw [beq_false_of_ne h]
    · rw [if_neg hf, List.lookup_cons, List.lookup_cons, ih]

theorem lookup_set_self (d : Dict) (k : String) (v : Json) : (d.set k v).lookup k = some v := by
  unfold set has
  cases h : d.lookup k with
  | none =>
    rw [Option.isSome_none, if_neg Bool.false_ne_true, List.lookup_append, h, List.lookup_cons,
      beq_self_eq_true]
    rfl
  | some w =>
    rw [Option.isSome_some, if_pos rfl]
    induction d with
    | nil => cases h
    | cons f d ih =>
      rw [List.map_cons]
      by_cases hf : f.1 = k
      · rw [if_pos hf, List.lookup_cons, beq_self_eq_true]
      · rw [List.lookup_cons, beq_false_of_ne (Ne.symm hf)] at h
        rw [if_neg hf, List.lookup_cons, beq_false_of_ne (Ne.symm hf)]
        exact ih h

theorem lookup_set_of_ne (d : Dict) {k k' : String} (v : Json) (h : k' ≠ k) :
    (d.set k v).lookup k' = d.lookup k' := by
  unfold set
  split
  · exact lookup_map_of_ne d v h
  · rw [List.lookup_append, List.lookup_cons, beq_false_of_ne h]
    exact Option.or_none

/-- `d.pop(k)`, the value let go. -/
def erase (d : Dict) (k : String) : Dict := d.filter fun f => f.1 ≠ k

theorem lookup_erase_of_ne (d : Dict) {k k' : String} (h : k' ≠ k) :
    (d.erase k).lookup k' = d.lookup k' := by
  induction d with
  | nil => rfl
  | cons f d ih =>
    unfold erase at ih ⊢
    by_cases hf : f.1 = k
    · rw [List.filter_cons_of_neg (by simpa using hf), ih, List.lookup_cons, hf,
        beq_false_of_ne h]
    · rw [List.filter_cons_of_pos (by simpa using hf), List.lookup_cons, List.lookup_cons, ih]

theorem getD_set_of_ne (d : Dict) {k k' : String} (v dflt : Json) (h : k' ≠ k) :
    (d.set k v).getD k' dflt = d.getD k' dflt := by
  unfold set getD
  split
  · rw [lookup_map_of_ne d v h]
  · rw [List.lookup_append, List.lookup_cons, beq_false_of_ne h]
    show ((d.lookup k').or none).getD dflt = _
    rw [Option.or_none]

theorem get_set_of_ne (d : Dict) {k k' : String} (v : Json) (h : k' ≠ k) :
    (d.set k v).get k' = d.get k' := getD_set_of_ne d v .null h

theorem get_setDefault_of_ne (d : Dict) {k k' : String} (v : Json)
    (h : k' ≠ k) : (d.setDefault k v).get k' = d.get k' := by
  unfold setDefault
  split
  · rfl
  · unfold get getD
    rw [List.lookup_append, List.lookup_cons, beq_false_of_ne h]
    show ((d.lookup k').or none).getD Json.null = _
    rw [Option.or_none]

end Dict

/-! ## Text -/

namespace Text

/-- The characters `str.isspace` and `str.strip` count as white space. -/
def isSpace (c : Char) : Bool :=
  let n := c.toNat
  (9 ≤ n && n ≤ 13) || (28 ≤ n && n ≤ 32) || n == 133 || n == 160
    || n == 5760 || (8192 ≤ n && n ≤ 8202) || n == 8232 || n == 8233
    || n == 8239 || n == 8287 || n == 12288

/-- The characters `str.splitlines` ends a line at; a carriage return
takes a line feed behind it along. -/
def isLineBreak (c : Char) : Bool :=
  let n := c.toNat
  (10 ≤ n && n ≤ 13) || (28 ≤ n && n ≤ 30) || n == 133 || n == 8232 || n == 8233

/-- `s.strip()`. -/
def strip (s : List Char) : List Char :=
  (((s.dropWhile isSpace).reverse).dropWhile isSpace).reverse

/-- `s.splitlines()`, the open line so far reversed in the first
argument. -/
def splitLinesAux : List Char → List Char → List (List Char)
  | cur, [] => if cur.isEmpty then [] else [cur.reverse]
  | cur, '\r' :: '\n' :: rest => cur.reverse :: splitLinesAux [] rest
  | cur, c :: rest =>
    if isLineBreak c then cur.reverse :: splitLinesAux [] rest
    else splitLinesAux (c :: cur) rest

/-- `s.splitlines()`. -/
def splitLines (s : List Char) : List (List Char) := splitLinesAux [] s

/-- `s.split(c)` for a one-character separator: always at least one
piece. -/
def splitOnChar (sep : Char) : List Char → List (List Char)
  | [] => [[]]
  | c :: rest =>
    if c = sep then [] :: splitOnChar sep rest
    else match splitOnChar sep rest with
      | [] => [[c]]
      | piece :: pieces => (c :: piece) :: pieces

/-- `sub in s`. -/
def contains (sub : List Char) : List Char → Bool
  | [] => sub.isEmpty
  | c :: rest => sub.isPrefixOf (c :: rest) || contains sub rest

/-- `s.rpartition(sep)` where `sep` occurs: what stands before its last
occurrence and what stands behind. -/
def rpartition (sep : List Char) : List Char → Option (List Char × List Char)
  | [] => none
  | c :: rest =>
    match rpartition sep rest with
    | some (body, tail) => some (c :: body, tail)
    | none =>
      if sep.isPrefixOf (c :: rest) then some ([], (c :: rest).drop sep.length)
      else none

/-- `sep.join(pieces)`. -/
def join (sep : List Char) : List (List Char) → List Char
  | [] => []
  | [p] => p
  | p :: q :: rest => p ++ sep ++ join sep (q :: rest)

/-- The decimal digits of a natural number. -/
def digits (n : ℕ) : List Char := Nat.toDigits 10 n

/-- A character inside a quoted `repr`. -/
def reprChar (quote c : Char) : List Char :=
  if c = quote ∨ c = '\\' then ['\\', c]
  else if c = '\n' then ['\\', 'n']
  else if c = '\r' then ['\\', 'r']
  else if c = '\t' then ['\\', 't']
  else if c.toNat < 32 ∨ c.toNat = 127 then
    ['\\', 'x', Nat.digitChar (c.toNat / 16), Nat.digitChar (c.toNat % 16)]
  else [c]

/-- `repr(s)`: single quotes, unless the text has one and no double
quote. -/
def reprStr (s : List Char) : List Char :=
  let quote := if s.contains '\'' && !s.contains '"' then '"' else '\''
  [quote] ++ s.flatMap (reprChar quote) ++ [quote]

/-- `repr` of the decimal `m · 10 ^ e`: positional while the point stands
within sixteen digits, else with an exponent. -/
def reprFloat (m e : ℤ) : List Char :=
  let ds := ((digits m.natAbs).reverse.dropWhile (· == '0')).reverse
  let sign := if m < 0 then ['-'] else []
  if ds.isEmpty then sign ++ ['0', '.', '0']
  else
    let point : ℤ := (digits m.natAbs).length + e
    let body :=
      if -4 < point ∧ point ≤ 0 then
        ['0', '.'] ++ List.replicate (-point).toNat '0' ++ ds
      else if 0 < point ∧ point ≤ 16 then
        let whole := ds.take point.toNat ++ List.replicate (point.toNat - ds.length) '0'
        let frac := ds.drop point.toNat
        whole ++ ['.'] ++ (if frac.isEmpty then ['0'] else frac)
      else
        let exp := point - 1
        let expDigits := digits exp.natAbs
        ds.take 1 ++ (if ds.length = 1 then [] else '.' :: ds.drop 1)
          ++ ['e', if exp < 0 then '-' else '+']
          ++ List.replicate (2 - expDigits.length) '0' ++ expDigits
    sign ++ body

end Text

namespace Json

/-- `bool(x)`. -/
def truthy : Json → Bool
  | null => false
  | bool b => b
  | int n => n != 0
  | float m _ => m != 0
  | str s => !s.toList.isEmpty
  | arr xs => !xs.isEmpty
  | obj fs => !fs.isEmpty

/-- `x or y`. -/
def or (x y : Json) : Json := if x.truthy then x else y

/-- `x is None`. -/
def isNone : Json → Bool
  | null => true
  | _ => false

/-- `x == s` for a text `s`. -/
def isText (s : String) : Json → Bool
  | str t => t == s
  | _ => false

theorem isText_of_isText {x : Json} {s t : String} (h : x.isText s = true) (hne : s ≠ t) :
    x.isText t = false := by
  unfold isText at h ⊢
  split at h
  · rw [beq_eq_false_iff_ne]
    exact fun heq => hne ((eq_of_beq h).symm.trans heq)
  · cases h

/-- `x` as a text, when it is one. -/
def asText : Json → Option String
  | str s => some s
  | _ => none

/-- `x` as a dict: the receiver of `x.get`, an exception where it is
none. -/
def asDict : Json → Option Dict
  | obj fs => some fs
  | _ => none

/-- The integer, where `x` is one; a bool counts as one. -/
def asInt : Json → Option ℤ
  | bool b => some (if b then 1 else 0)
  | int n => some n
  | _ => none

/-- `type(x).__name__`. -/
def typeName : Json → String
  | .null => "NoneType"
  | .bool _ => "bool"
  | .int _ => "int"
  | .float _ _ => "float"
  | .str _ => "str"
  | .arr _ => "list"
  | .obj _ => "dict"

/-- The items `for item in x` goes through: the elements of a list, the
characters of a string, the keys of a dict. -/
def iter : Json → Option (List Json)
  | arr xs => some xs
  | str s => some (s.toList.map fun c => str (String.ofList [c]))
  | obj fs => some (fs.map fun f => str f.1)
  | _ => none

mutual

/-- `repr(x)`. -/
def repr : Json → List Char
  | null => "None".toList
  | bool true => "True".toList
  | bool false => "False".toList
  | int n => (if n < 0 then ['-'] else []) ++ Text.digits n.natAbs
  | float m e => Text.reprFloat m e
  | str s => Text.reprStr s.toList
  | arr xs => ['['] ++ Text.join [',', ' '] (reprList xs) ++ [']']
  | obj fs => ['\x7b'] ++ Text.join [',', ' '] (reprFields fs) ++ ['\x7d']

/-- The elements of a list, each by `repr`. -/
def reprList : List Json → List (List Char)
  | [] => []
  | x :: xs => repr x :: reprList xs

/-- The fields of a dict, each by `repr`. -/
def reprFields : List (String × Json) → List (List Char)
  | [] => []
  | (k, v) :: fs => (Text.reprStr k.toList ++ [':', ' '] ++ repr v) :: reprFields fs

end

/-- `str(x)`: a text stands for itself. -/
def toText : Json → String
  | str s => s
  | x => String.ofList (repr x)

/-- `sep.join(items)`: every item has to be a text. -/
def joinTexts (sep : String) (items : List Json) : Option String :=
  (items.mapM asText).map fun ts =>
    String.ofList (Text.join sep.toList (ts.map String.toList))

/-- Half-way cases go to the even neighbour: `round` of the quotient
`n / d`, for `0 < d`. -/
def roundHalfEven (n : ℤ) (d : ℕ) : ℤ :=
  let q := n / d
  let r := n % d
  if 2 * r < d then q
  else if d < 2 * r then q + 1
  else if q % 2 = 0 then q else q + 1

/-- The value of a number, where `x` is one; a bool counts as one. -/
def asNumber : Json → Option ℚ
  | bool b => some (if b then 1 else 0)
  | int n => some n
  | float m e => some (if 0 ≤ e then m * 10 ^ e.toNat else m / 10 ^ (-e).toNat)
  | _ => none

/-- **A key of a dict.** Numbers of one value are one key. -/
inductive Key where
  | none
  | number (value : ℚ)
  | text (s : String)
  deriving DecidableEq

/-- `x` as a key: an exception where it is a list or a dict. -/
def asKey : Json → Option Key
  | null => some .none
  | str s => some (.text s)
  | x => x.asNumber.map .number

/-- **What `len` and slices are for**: a text or a list. -/
inductive Seq where
  | text (s : String)
  | items (xs : List Json)

namespace Seq

/-- `len(x)`. -/
def length : Seq → ℕ
  | text s => s.toList.length
  | items xs => xs.length

/-- `x[n:]`. -/
def drop (n : ℕ) : Seq → Seq
  | text s => text (String.ofList (s.toList.drop n))
  | items xs => items (xs.drop n)

def toJson : Seq → Json
  | text s => str s
  | items xs => arr xs

/-- `x == y`, where `x` and `y` are texts. -/
def sameText : Seq → Seq → Bool
  | text s, text t => s == t
  | _, _ => false

theorem length_drop (n : ℕ) (x : Seq) : (x.drop n).length = x.length - n := by
  cases x with
  | text s => simp [drop, length]
  | items xs => simp [drop, length]

theorem drop_zero (x : Seq) : x.drop 0 = x := by
  cases x with
  | text s => simp [drop]
  | items xs => simp [drop]

theorem toJson_injective {x y : Seq} (h : x.toJson = y.toJson) : x = y := by
  cases x with
  | text s =>
    cases y with
    | text t =>
      cases h
      rfl
    | items ys => cases h
  | items xs =>
    cases y with
    | text t => cases h
    | items ys =>
      cases h
      rfl

end Seq

/-- `x` as something to slice: an exception where it is neither a text nor a
list. -/
def asSeq : Json → Option Seq
  | str s => some (.text s)
  | arr xs => some (.items xs)
  | _ => none

theorem length_pos_of_truthy {x : Json} {q : Seq} (hx : x.truthy = true)
    (hq : x.asSeq = some q) : 0 < q.length := by
  cases x with
  | str s =>
    cases hq
    cases hs : s.toList with
    | nil => rw [truthy, hs] at hx; cases hx
    | cons c cs =>
      rw [Seq.length, hs]
      exact Nat.succ_pos _
  | arr xs =>
    cases hq
    cases xs with
    | nil => cases hx
    | cons y ys => exact Nat.succ_pos _
  | _ => cases hq

/-- `x += y`: texts are joined, a list takes the items of the other side, and
numbers are added. -/
def iadd : Json → Json → Option Json
  | str s, str t => some (str (s ++ t))
  | arr xs, y => y.iter.map fun ys => arr (xs ++ ys)
  | float m e, float n f =>
    some (float (m * 10 ^ (e - min e f).toNat + n * 10 ^ (f - min e f).toNat) (min e f))
  | float m e, y => y.asInt.map fun n =>
    float (m * 10 ^ (e - min e 0).toNat + n * 10 ^ (0 - min e 0).toNat) (min e 0)
  | x, float n f => x.asInt.map fun m =>
    float (m * 10 ^ (0 - min 0 f).toNat + n * 10 ^ (f - min 0 f).toNat) (min 0 f)
  | x, y => x.asInt.bind fun m => y.asInt.map fun n => int (m + n)

/-- `round(x / 10 ** k)`; a bool counts as a number. -/
def roundScaled (k : ℕ) : Json → Option ℤ
  | bool b => some (roundHalfEven (if b then 1 else 0) (10 ^ k))
  | int n => some (roundHalfEven n (10 ^ k))
  | float m e =>
    if k ≤ e then some (m * 10 ^ (e - k).toNat)
    else some (roundHalfEven m (10 ^ (k - e).toNat))
  | _ => none

end Json
