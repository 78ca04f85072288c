import CharlieBot.Lib.Json

/-!
# YAML values as a dynamically typed program reads them

A YAML document is read as values of more kinds than a JSON document has: a scalar may be a date
or a time, and a key need not be a text. A program that writes a document back
changes fields of mappings, and what it leaves alone is what `Yaml.others_set` and
`Yaml.get_set_of_ne` say.
-/

/-- **A YAML value.** -/
inductive Yaml where
  | null
  | bool (b : Bool)
  | int (n : ℤ)
  /-- A float, by its `repr`. -/
  | float (repr : String)
  | str (s : String)
  /-- A date, by its `str` and its `repr`. -/
  | date (text repr : String)
  /-- A time in microseconds, one without a zone being of UTC, with its `str` and its `repr`. -/
  | datetime (micros : ℤ) (text repr : String)
  | seq (items : List Yaml)
  | map (fields : List (Yaml × Yaml))
  deriving Inhabited

namespace Yaml

/-- `x == s` for a text `s`. -/
def isText (s : String) : Yaml → Bool
  | str t => t == s
  | _ => false

/-- `bool(x)`. -/
def truthy : Yaml → Bool
  | null => false
  | bool b => b
  | int n => n != 0
  | float repr => repr != "0.0" && repr != "-0.0"
  | str s => !s.toList.isEmpty
  | date .. => true
  | datetime .. => true
  | seq items => !items.isEmpty
  | map fields => !fields.isEmpty

/-- Whether `hash(x)` is defined. -/
def hashable : Yaml → Bool
  | seq _ => false
  | map _ => false
  | _ => true

/-- How many digits the text of a number may have. -/
def maxStrDigits : ℕ := 4300

/-- `str(n)`, which raises where there are too many digits. -/
def intText (n : ℤ) : Option (List Char) :=
  let digits := Text.digits n.natAbs
  if digits.length ≤ maxStrDigits then some ((if n < 0 then ['-'] else []) ++ digits) else none

mutual

/-- `repr(x)`. -/
def repr : Yaml → Option (List Char)
  | null => some "None".toList
  | bool true => some "True".toList
  | bool false => some "False".toList
  | int n => intText n
  | float text => some text.toList
  | str s => some (Text.reprStr s.toList)
  | date _ text => some text.toList
  | datetime _ _ text => some text.toList
  | seq items => (reprItems items).map fun texts =>
      ['['] ++ Text.join [',', ' '] texts ++ [']']
  | map fields => (reprFields fields).map fun texts =>
      ['\x7b'] ++ Text.join [',', ' '] texts ++ ['\x7d']

/-- The items of a list, each by `repr`. -/
def reprItems : List Yaml → Option (List (List Char))
  | [] => some []
  | x :: items =>
    match repr x, reprItems items with
    | some text, some texts => some (text :: texts)
    | _, _ => none

/-- The fields of a mapping, each by `repr`. -/
def reprFields : List (Yaml × Yaml) → Option (List (List Char))
  | [] => some []
  | (key, x) :: fields =>
    match repr key, repr x, reprFields fields with
    | some name, some text, some texts => some ((name ++ [':', ' '] ++ text) :: texts)
    | _, _, _ => none

end

/-- `str(x)`. -/
def text : Yaml → Option String
  | str s => some s
  | date text _ => some text
  | datetime _ text _ => some text
  | x => (repr x).map String.ofList

/-- `x` as a mapping, where it is one. -/
def asMap : Yaml → Option (List (Yaml × Yaml))
  | map fields => some fields
  | _ => none

/-- `fields[key]`, where there is the key. -/
def get (fields : List (Yaml × Yaml)) (key : String) : Option Yaml :=
  (fields.find? fun field => field.1.isText key).map Prod.snd

/-- `fields[key] = value`. -/
def set (fields : List (Yaml × Yaml)) (key : String) (value : Yaml) : List (Yaml × Yaml) :=
  if fields.any (·.1.isText key) then
    fields.map fun field => if field.1.isText key then (field.1, value) else field
  else fields ++ [(.str key, value)]

variable {fields : List (Yaml × Yaml)} {key other : String} {value : Yaml}

theorem isText_eq_false {x : Yaml} (h : x.isText key = true) (hne : other ≠ key) :
    x.isText other = false := by
  unfold isText at h ⊢
  split at h
  · rw [beq_eq_false_iff_ne]
    exact fun heq => hne (heq.symm.trans (eq_of_beq h))
  · cases h

theorem get_set_self (fields : List (Yaml × Yaml)) (key : String) (value : Yaml) :
    get (set fields key value) key = some value := by
  unfold get set
  split
  · next hany =>
    induction fields with
    | nil => cases hany
    | cons field fields ih =>
      rw [List.map_cons, List.find?_cons]
      cases hfield : field.1.isText key with
      | true =>
        rw [if_pos rfl]
        dsimp only
        rw [hfield]
        rfl
      | false =>
        rw [if_neg Bool.false_ne_true, hfield]
        rw [List.any_cons, hfield, Bool.false_or] at hany
        exact ih hany
  · next hany =>
    have hnone : (fields.find? fun field => field.1.isText key) = none :=
      List.find?_eq_none.mpr fun field hmem htext =>
        hany (List.any_eq_true.mpr ⟨field, hmem, htext⟩)
    have hself : (Yaml.str key).isText key = true := beq_self_eq_true key
    rw [List.find?_append, hnone, Option.none_or, List.find?_cons, hself]
    rfl

/-- **The other fields are left alone**, all that a selection without the key tells. -/
theorem others_set (fields : List (Yaml × Yaml)) (value : Yaml) (keep : Yaml → Bool)
    (h : ∀ x : Yaml, x.isText key = true → keep x = false) :
    (set fields key value).filter (fun field => keep field.1)
      = fields.filter fun field => keep field.1 := by
  unfold set
  split
  · next hany =>
    clear hany
    induction fields with
    | nil => rfl
    | cons field fields ih =>
      rw [List.map_cons]
      cases hfield : field.1.isText key with
      | true =>
        rw [if_pos rfl, List.filter_cons, List.filter_cons, h field.1 hfield, ih]
        rfl
      | false =>
        rw [if_neg Bool.false_ne_true, List.filter_cons, List.filter_cons, ih]
  · have hnew : keep (.str key) = false := h _ (beq_self_eq_true key)
    rw [List.filter_append, List.filter_cons, hnew, List.filter_nil]
    exact List.append_nil _

theorem get_set_of_ne (fields : List (Yaml × Yaml)) (value : Yaml) (hne : other ≠ key) :
    get (set fields key value) other = get fields other := by
  unfold get
  rw [← List.head?_filter, ← List.head?_filter,
    others_set fields value _ fun x hx => isText_eq_false hx hne]

end Yaml
