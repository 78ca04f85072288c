import CharlieBot.EventTypes
import CharlieBot.Lib.ShortWrites
import Mathlib.Data.Int.Log
import Mathlib.Data.Rat.Floor

/-!
# The relay to a terminal

A browser that shows a terminal sends what is typed, and the size of its window, as
texts with JSON in them. The relay takes one message after the other and writes the
bytes of a `pty_input` to the terminal. Its descriptor does not wait: a write takes what
there is room for, which may be a beginning of the bytes or nothing, and what a write
returns is not looked at, so the rest is lost.

What cannot be parsed is passed over, and so is an input that is no base64 text and a
size that is no number. A message that is no object is not foreseen, nor is a size that is too
large: either ends the relay.

These are all: what is typed arrives completely, once and in order, and no message ends the
relay, if and only if every message is one the relay can take and no write is cut short
(`relayed_iff`).
-/

namespace PtyRelay

/-! ## Base64 -/

/-- The value of a character of the alphabet. -/
def sextet (c : Char) : Option ℕ :=
  let n := c.toNat
  if 65 ≤ n ∧ n ≤ 90 then some (n - 65)
  else if 97 ≤ n ∧ n ≤ 122 then some (n - 71)
  else if 48 ≤ n ∧ n ≤ 57 then some (n + 4)
  else if c = '+' then some 62
  else if c = '/' then some 63
  else none

/-- Decoding goes on: `quad` characters of the group were read, whose bits not yet written
are `left`, and `pads` signs of padding behind them. -/
def decodeFrom : ℕ → ℕ → ℕ → List Char → Option (List UInt8)
  | quad, _, _, [] => if quad = 0 then some [] else none
  | quad, left, pads, c :: rest =>
    if c = '=' then
      if 2 ≤ quad ∧ 4 ≤ quad + (pads + 1) then some []
      else decodeFrom quad left (if 2 ≤ quad then pads + 1 else pads) rest
    else
      match sextet c with
      -- what is not of the alphabet is passed over
      | none => decodeFrom quad left pads rest
      | some v =>
        if quad = 0 then decodeFrom 1 v 0 rest
        else if quad = 1 then
          (decodeFrom 2 (v % 16) 0 rest).map (UInt8.ofNat (left * 4 + v / 16) :: ·)
        else if quad = 2 then
          (decodeFrom 3 (v % 4) 0 rest).map (UInt8.ofNat (left * 16 + v / 4) :: ·)
        else (decodeFrom 0 0 0 rest).map (UInt8.ofNat (left * 64 + v) :: ·)

/-- `base64.b64decode(payload, validate=False)` of a text; none where it raises. -/
def b64decode (payload : String) : Option (List UInt8) :=
  if payload.toList.all (·.toNat < 128) then decodeFrom 0 0 0 payload.toList else none

example : b64decode "aGk=" = some [104, 105] := by decide

/-! ## Numbers -/

/-- What `int(x)` comes to. -/
inductive IntOutcome where
  | value (n : ℤ)
  /-- `TypeError` or `ValueError`. -/
  | unfit
  /-- `OverflowError`. -/
  | overflow

/-- The nearest integer, the even one of two. -/
def roundHalfEven (q : ℚ) : ℤ :=
  let below := ⌊q⌋
  let rest := q - below
  if rest < 1 / 2 then below
  else if 1 / 2 < rest then below + 1
  else if below % 2 = 0 then below else below + 1

/-- The double a decimal number is read as; none for an infinite one. -/
def toDouble (q : ℚ) : Option ℚ :=
  if q = 0 then some 0
  else
    let quantum : ℚ := 2 ^ max (Int.log 2 |q| - 52) (-1074)
    let rounded := roundHalfEven (q / quantum) * quantum
    if 2 ^ 1024 ≤ |rounded| then none else some rounded

/-- `int(x)` of a float. -/
def intOfFloat (q : ℚ) : IntOutcome :=
  match toDouble q with
  | none => .overflow
  | some v => .value (if v < 0 then ⌈v⌉ else ⌊v⌋)

section Text

-- the value of a decimal digit, of any script
variable (digit : Char → Option ℕ)

/-- Digits, single underscores between them. -/
def readDigits : ℕ → List Char → Option ℕ
  | n, [] => some n
  | n, '_' :: c :: rest => (digit c).bind fun d => readDigits (n * 10 + d) rest
  | n, c :: rest => (digit c).bind fun d => readDigits (n * 10 + d) rest

/-- A natural number; more digits than the interpreter converts are refused. -/
def readNat (s : List Char) : Option ℕ :=
  if s.isEmpty || s.head? = some '_' || 4300 < (s.filter (· ≠ '_')).length then none
  else readDigits digit 0 s

/-- `int(x)` of a text. -/
def intOfText (s : String) : IntOutcome :=
  let read : Option ℤ := match Text.strip s.toList with
    | '-' :: rest => (readNat digit rest).map fun n => -(n : ℤ)
    | '+' :: rest => (readNat digit rest).map fun n => (n : ℤ)
    | rest => (readNat digit rest).map fun n => (n : ℤ)
  match read with
  | some n => .value n
  | none => .unfit

/-- `int(x)`. -/
def toInt : Json → IntOutcome
  | .bool b => .value (if b then 1 else 0)
  | .int n => .value n
  | .float m e => intOfFloat (m * 10 ^ e)
  | .str s => intOfText digit s
  | _ => .unfit

end Text

/-! ## The relay -/

/-- What `json.loads` comes to. -/
inductive Loaded where
  | value (v : Json)
  /-- `JSONDecodeError`. -/
  | malformed
  /-- Any other exception: nested too deep, or an integer of too many digits. -/
  | raises

/-- What the relay waits for. -/
inductive Received where
  | text (raw : String)
  /-- Nothing came in time; whether the ping could be sent. -/
  | timeout (pingSent : Bool)

structure RelayState where
  terminal : List UInt8 := []
  size : ℤ × ℤ := (80, 24)
  writes : ℕ := 0
  /-- Whether a message ended the relay. -/
  crashed : Bool := false

section Relay

-- `loads` is `json.loads`; `accepts k` is how many bytes the descriptor has room for when
-- it is written to for the `k`-th time
variable (digit : Char → Option ℕ) (loads : String → Loaded) (accepts : ℕ → ℕ)

/-- `PtyAttachment.write`. -/
def RelayState.write (s : RelayState) (data : List UInt8) : RelayState :=
  if data.isEmpty then s
  else { s with terminal := s.terminal ++ data.take (accepts s.writes), writes := s.writes + 1 }

/-- `PtyAttachment.resize`; none where the size does not fit in two bytes. -/
def RelayState.resize (s : RelayState) (cols rows : ℤ) : Option RelayState :=
  if max 1 rows ≤ 65535 ∧ max 1 cols ≤ 65535 then some { s with size := (max 1 cols, max 1 rows) }
  else none

/-- The bytes of a `pty_input`; none where they are malformed. -/
def chunkOf (msg : Dict) : Option (List UInt8) :=
  match (msg.get "data").or (.str "") with
  | .str payload => b64decode payload
  | _ => none

/-- What the relay does with a message that is an object; none where it raises. -/
def RelayState.take (s : RelayState) (msg : Dict) : Option RelayState :=
  if (msg.get "type").isText "pty_input" then
    match chunkOf msg with
    | some chunk => some (s.write accepts chunk)
    | none => some s
  else if (msg.get "type").isText "pty_resize" then
    match toInt digit ((msg.get "cols").or (.int 80)) with
    | .overflow => none
    | .unfit => some s
    | .value cols =>
      match toInt digit ((msg.get "rows").or (.int 24)) with
      | .overflow => none
      | .unfit => some s
      | .value rows => s.resize cols rows
  else some s

def RelayState.receive (s : RelayState) (raw : String) : Option RelayState :=
  match loads raw with
  | .raises => none
  | .malformed => some s
  | .value (.obj msg) => s.take digit accepts msg
  | .value _ => none

/-- `_run_pty_relay`. -/
def RelayState.run (s : RelayState) : List Received → RelayState
  | [] => s
  | .timeout true :: rest => s.run rest
  -- the socket is gone
  | .timeout false :: _ => s
  | .text raw :: rest =>
    match s.receive digit loads accepts raw with
    | none => { s with crashed := true }
    | some t => t.run rest

/-! ## What is claimed -/

/-- The texts that come while the socket is there. -/
def heard : List Received → List String
  | [] => []
  | .timeout true :: rest => heard rest
  | .timeout false :: _ => []
  | .text raw :: rest => raw :: heard rest

/-- The bytes of a well-formed `pty_input`; other messages have none. -/
def msgBytes (msg : Dict) : List UInt8 :=
  if (msg.get "type").isText "pty_input" then (chunkOf msg).getD [] else []

/-- The bytes of a text that is a well-formed `pty_input`. -/
def inputBytes (raw : String) : List UInt8 :=
  match loads raw with
  | .value (.obj msg) => msgBytes msg
  | _ => []

/-- **What is typed arrives**, and no message ends the relay. -/
structure Relayed (items : List Received) : Prop where
  arrives : (RelayState.run digit loads accepts {} items).terminal
    = (heard items).flatMap (inputBytes loads)
  goesOn : (RelayState.run digit loads accepts {} items).crashed = false

/-- A size the relay can take: no number, or one that is finite and fits in two bytes. -/
def FitsSize (msg : Dict) : Prop :=
  match toInt digit ((msg.get "cols").or (.int 80)) with
  | .overflow => False
  | .unfit => True
  | .value cols =>
    match toInt digit ((msg.get "rows").or (.int 24)) with
    | .overflow => False
    | .unfit => True
    | .value rows => rows ≤ 65535 ∧ cols ≤ 65535

/-- A text the relay can take: it is malformed, or an object that is no `pty_resize` or
has a size that fits. -/
def Harmless (raw : String) : Prop :=
  match loads raw with
  | .raises => False
  | .malformed => True
  | .value (.obj msg) => (Dict.get msg "type").isText "pty_resize" = true → FitsSize digit msg
  | .value _ => False

/-- What is written to the terminal, in chunks. -/
def chunks (items : List Received) : List (List UInt8) :=
  ((heard items).map (inputBytes loads)).filter (!·.isEmpty)

/-! ## One message -/

variable (s : RelayState)

@[simp] theorem write_nil : s.write accepts [] = s := rfl

/-- Where the relay stands after some bytes were written; the window may have another size. -/
structure Wrote (accepts : ℕ → ℕ) (s : RelayState) (data : List UInt8) (t : RelayState) :
    Prop where
  crashed : t.crashed = s.crashed
  terminal : t.terminal = (s.write accepts data).terminal
  writes : t.writes = (s.write accepts data).writes

theorem wrote_write (data : List UInt8) : Wrote accepts s data (s.write accepts data) where
  crashed := by
    unfold RelayState.write
    split <;> rfl
  terminal := rfl
  writes := rfl

theorem resize_cases (cols rows : ℤ) :
    (rows ≤ 65535 ∧ cols ≤ 65535 ∧ ∃ t, s.resize cols rows = some t ∧ Wrote accepts s [] t)
      ∨ (¬ (rows ≤ 65535 ∧ cols ≤ 65535) ∧ s.resize cols rows = none) := by
  unfold RelayState.resize
  split
  next hfits => exact .inl ⟨by omega, by omega, _, rfl, ⟨rfl, rfl, rfl⟩⟩
  · exact .inr ⟨by omega, rfl⟩

/-- **What an object does**: where it is no `pty_resize` or its size fits, its bytes are
written, else it ends the relay. -/
theorem take_cases (msg : Dict) :
    (((msg.get "type").isText "pty_resize" = true → FitsSize digit msg)
        ∧ ∃ t, s.take digit accepts msg = some t ∧ Wrote accepts s (msgBytes msg) t)
      ∨ (¬ ((msg.get "type").isText "pty_resize" = true → FitsSize digit msg)
        ∧ s.take digit accepts msg = none) := by
  unfold RelayState.take msgBytes
  by_cases hinput : (msg.get "type").isText "pty_input" = true
  · have hother := Json.isText_of_isText hinput (t := "pty_resize") (by decide)
    rw [if_pos hinput, if_pos hinput]
    have hno : (msg.get "type").isText "pty_resize" = true → FitsSize digit msg := fun hresize => by
      rw [hother] at hresize
      cases hresize
    refine .inl ⟨hno, ?_⟩
    cases chunkOf msg with
    | none => exact ⟨s, rfl, wrote_write accepts s []⟩
    | some chunk => exact ⟨_, rfl, wrote_write accepts s chunk⟩
  · rw [if_neg hinput, if_neg hinput]
    by_cases hresize : (msg.get "type").isText "pty_resize" = true
    · rw [if_pos hresize]
      unfold FitsSize
      cases toInt digit ((msg.get "cols").or (.int 80)) with
      | overflow => exact .inr ⟨fun h => h hresize, rfl⟩
      | unfit => exact .inl ⟨fun _ => trivial, s, rfl, wrote_write accepts s []⟩
      | value cols =>
        cases toInt digit ((msg.get "rows").or (.int 24)) with
        | overflow => exact .inr ⟨fun h => h hresize, rfl⟩
        | unfit => exact .inl ⟨fun _ => trivial, s, rfl, wrote_write accepts s []⟩
        | value rows =>
          rcases resize_cases accepts s cols rows with
            ⟨hrows, hcols, ht⟩ | ⟨hnot, hnone⟩
          · exact .inl ⟨fun _ => ⟨hrows, hcols⟩, ht⟩
          · exact .inr ⟨fun h => hnot (h hresize), hnone⟩
    · rw [if_neg hresize]
      exact .inl ⟨fun h => absurd h hresize, s, rfl, wrote_write accepts s []⟩

/-- **What a text does**: it is taken exactly if it is harmless, and then its bytes are
written. -/
theorem receive_cases (raw : String) :
    (Harmless digit loads raw
        ∧ ∃ t, s.receive digit loads accepts raw = some t
          ∧ Wrote accepts s (inputBytes loads raw) t)
      ∨ (¬ Harmless digit loads raw ∧ s.receive digit loads accepts raw = none) := by
  unfold RelayState.receive Harmless inputBytes
  cases loads raw with
  | raises => exact .inr ⟨fun h => h, rfl⟩
  | malformed => exact .inl ⟨trivial, s, rfl, wrote_write accepts s []⟩
  | value v =>
    cases v with
    | obj msg => exact take_cases digit accepts s msg
    | _ => exact .inr ⟨fun h => h, rfl⟩

/-! ## The whole relay -/

theorem terminal_write (data : List UInt8) :
    (s.write accepts data).terminal
        = s.terminal ++ ShortWrites.taken accepts s.writes ([data].filter (!·.isEmpty))
      ∧ (s.write accepts data).writes = s.writes + ([data].filter (!·.isEmpty)).length := by
  unfold RelayState.write
  cases data with
  | nil => exact ⟨(List.append_nil _).symm, rfl⟩
  | cons byte data =>
    refine ⟨?_, rfl⟩
    show s.terminal ++ _ = s.terminal ++ (_ ++ [])
    rw [List.append_nil]

/-- **What reaches the terminal** of texts the relay can take: of each chunk what there is room
for. -/
theorem run_of_harmless {items : List Received}
    (h : ∀ raw ∈ heard items, Harmless digit loads raw) (hopen : s.crashed = false) :
    (s.run digit loads accepts items).crashed = false
      ∧ (s.run digit loads accepts items).terminal
        = s.terminal ++ ShortWrites.taken accepts s.writes (chunks loads items) := by
  induction items generalizing s with
  | nil => exact ⟨hopen, (List.append_nil _).symm⟩
  | cons item items ih =>
    cases item with
    | timeout pingSent =>
      cases pingSent with
      | true => exact ih s h hopen
      | false => exact ⟨hopen, (List.append_nil _).symm⟩
    | text raw =>
      rcases receive_cases digit loads accepts s raw with
        ⟨-, t, ht, hwrote⟩ | ⟨hnot, -⟩
      · have hrun : s.run digit loads accepts (.text raw :: items)
            = t.run digit loads accepts items := by
          rw [RelayState.run, ht]
        have hchunks : chunks loads (.text raw :: items)
            = [inputBytes loads raw].filter (!·.isEmpty) ++ chunks loads items := by
          rw [chunks, heard, List.map_cons, ← List.singleton_append, List.filter_append]
          rfl
        obtain ⟨hterminal, hwrites⟩ := terminal_write accepts s (inputBytes loads raw)
        obtain ⟨hcrashed, hrest⟩ := ih t
          (fun later hlater => h later (List.mem_cons_of_mem _ hlater))
          (hwrote.crashed.trans hopen)
        refine ⟨hrun ▸ hcrashed, ?_⟩
        rw [hrun, hrest, hwrote.terminal, hwrote.writes, hterminal, hwrites, hchunks,
          ShortWrites.taken_append, List.append_assoc]
      · exact absurd (h raw List.mem_cons_self) hnot

theorem crashed_of_not_harmless {items : List Received}
    (h : ∃ raw ∈ heard items, ¬ Harmless digit loads raw) :
    (s.run digit loads accepts items).crashed = true := by
  obtain ⟨bad, hbad, hharm⟩ := h
  induction items generalizing s with
  | nil => cases hbad
  | cons item items ih =>
    cases item with
    | timeout pingSent =>
      cases pingSent with
      | true => exact ih s hbad
      | false => cases hbad
    | text raw =>
      unfold RelayState.run
      rcases receive_cases digit loads accepts s raw with
        ⟨hraw, t, ht, -⟩ | ⟨-, hnone⟩
      · rw [ht]
        rcases List.mem_cons.mp hbad with rfl | hlater
        · exact absurd hraw hharm
        · exact ih t hlater
      · rw [hnone]

theorem flatten_chunks (items : List Received) :
    (chunks loads items).flatten = (heard items).flatMap (inputBytes loads) := by
  rw [chunks, List.flatMap]
  induction (heard items).map (inputBytes loads) with
  | nil => rfl
  | cons data rest ih =>
    cases data with
    | nil => exact ih
    | cons byte data =>
      show (byte :: data) ++ _ = (byte :: data) ++ _
      rw [ih]

end Relay

/-! ## The main result -/

/-- **What is typed arrives, and no message ends the relay, if and only if** every text is one
the relay can take and no write is cut short. -/
theorem relayed_iff (digit : Char → Option ℕ) (loads : String → Loaded) (accepts : ℕ → ℕ)
    (items : List Received) :
    Relayed digit loads accepts items ↔
      (∀ raw ∈ heard items, Harmless digit loads raw)
        ∧ ShortWrites.Whole accepts 0 (chunks loads items) := by
  by_cases hharm : ∀ raw ∈ heard items, Harmless digit loads raw
  · obtain ⟨hcrashed, hterminal⟩ := run_of_harmless digit loads accepts {} hharm rfl
    rw [← ShortWrites.taken_eq_flatten_iff, flatten_chunks]
    constructor
    · intro h
      refine ⟨hharm, ?_⟩
      rw [← h.arrives, hterminal]
      rfl
    · intro h
      refine ⟨?_, hcrashed⟩
      rw [hterminal, ← h.2]
      rfl
  · refine ⟨fun h => ?_, fun h => absurd h.1 hharm⟩
    have hcrashed : (RelayState.run digit loads accepts {} items).crashed = true :=
      crashed_of_not_harmless digit loads accepts {} (by simpa using hharm)
    rw [h.goesOn] at hcrashed
    cases hcrashed

/-! ## A write that is cut short -/

/-- A message in which `hi` is typed. -/
def typedHi (_ : String) : Loaded :=
  .value (.obj [("type", .str "pty_input"), ("data", .str "aGk=")])

/-- **There is room for one byte**: the other is lost. -/
theorem not_relayed_short :
    ¬ Relayed (fun _ => none) typedHi (fun _ => 1) [.text "typed"] := fun h =>
  absurd h.arrives (by decide)

end PtyRelay
