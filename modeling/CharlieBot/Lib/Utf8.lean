import CharlieBot.Lib.Machine

/-!
# UTF-8

A decoder reads one byte at a time and is between two characters or inside one. Strict decoding
fails at the first byte that no text has there, or where the bytes end inside a character; a
decoder that replaces puts a replacement character for what it has of a character that is cut
short, and goes on with the byte that cut it.

What readers of lines rely on is that a byte below 128 is a character wherever it stands:
a text is cut at it where its bytes are (`decode_append_ascii`), so that the lines of a text are
the lines of its bytes, decoded (`mapM_decode_splitOn`).
-/

namespace Utf8

/-- Where a decoder is: between two characters, or inside one, with the bits it has. -/
inductive State
  | start
  | tail1 (code : ℕ)
  | tail2 (code : ℕ)
  | tail3 (code : ℕ)
  | afterE0
  | afterED
  | afterF0
  | afterF4
  deriving DecidableEq

/-- The first byte of a character. -/
def lead (b : ℕ) : Option (State × List Char) :=
  if b ≤ 0x7F then some (.start, [Char.ofNat b])
  else if 0xC2 ≤ b ∧ b ≤ 0xDF then some (.tail1 (b - 0xC0), [])
  else if b = 0xE0 then some (.afterE0, [])
  else if b = 0xED then some (.afterED, [])
  else if 0xE1 ≤ b ∧ b ≤ 0xEF then some (.tail2 (b - 0xE0), [])
  else if b = 0xF0 then some (.afterF0, [])
  else if 0xF1 ≤ b ∧ b ≤ 0xF3 then some (.tail3 (b - 0xF0), [])
  else if b = 0xF4 then some (.afterF4, [])
  else none

/-- A further byte of a character, which has to lie within bounds. -/
def further (code low high b : ℕ) (next : ℕ → State × List Char) : Option (State × List Char) :=
  if low ≤ b ∧ b ≤ high then some (next (code * 64 + (b - 0x80))) else none

/-- One byte; nothing where no text has it. -/
def next : State → UInt8 → Option (State × List Char)
  | .start, b => lead b.toNat
  | .tail1 code, b => further code 0x80 0xBF b.toNat fun n => (.start, [Char.ofNat n])
  | .tail2 code, b => further code 0x80 0xBF b.toNat fun n => (.tail1 n, [])
  | .tail3 code, b => further code 0x80 0xBF b.toNat fun n => (.tail2 n, [])
  | .afterE0, b => further 0 0xA0 0xBF b.toNat fun n => (.tail1 n, [])
  | .afterED, b => further 0xD 0x80 0x9F b.toNat fun n => (.tail1 n, [])
  | .afterF0, b => further 0 0x90 0xBF b.toNat fun n => (.tail2 n, [])
  | .afterF4, b => further 4 0x80 0x8F b.toNat fun n => (.tail2 n, [])

def strict : Machine State UInt8 Char := ⟨next⟩

/-- **The text of bytes**, if they are one. -/
def decode (bytes : List UInt8) : Option (List Char) :=
  (strict.run .start bytes).bind fun p => if p.1 = .start then some p.2 else none

def replacement : Char := Char.ofNat 0xFFFD

/-- What a decoder that replaces makes of bytes. -/
def replaceFrom : State → List UInt8 → List Char
  | s, [] => if s = .start then [] else [replacement]
  | s, b :: bytes =>
    match next s b with
    | some (s', out) => out ++ replaceFrom s' bytes
    | none =>
      -- a character cut short is replaced, and the byte begins another
      if s = .start then replacement :: replaceFrom .start bytes
      else
        match lead b.toNat with
        | some (s', out) => replacement :: (out ++ replaceFrom s' bytes)
        | none => replacement :: replacement :: replaceFrom .start bytes

/-- **The text of bytes**, what is none of it replaced. -/
def decodeReplacing (bytes : List UInt8) : List Char := replaceFrom .start bytes

theorem replaceFrom_of_run {s s' : State} {bytes : List UInt8} {text : List Char}
    (h : strict.run s bytes = some (s', text)) (hs' : s' = .start) :
    replaceFrom s bytes = text := by
  induction bytes generalizing s text with
  | nil =>
    cases h
    exact if_pos hs'
  | cons b bytes ih =>
    rw [Machine.run_cons] at h
    obtain ⟨⟨t, out⟩, hstep, h⟩ := Option.bind_eq_some_iff.mp h
    obtain ⟨⟨t', out'⟩, hrun, h⟩ := Option.map_eq_some_iff.mp h
    cases h
    unfold replaceFrom
    rw [show next s b = some (t, out) from hstep]
    exact congrArg (out ++ ·) (ih hrun)

theorem decodeReplacing_of_decode {bytes : List UInt8} {text : List Char}
    (h : decode bytes = some text) : decodeReplacing bytes = text := by
  obtain ⟨⟨s, out⟩, hrun, h⟩ := Option.bind_eq_some_iff.mp h
  split at h
  · next hs =>
    cases h
    exact replaceFrom_of_run hrun hs
  · cases h

/-! ## Bytes below 128 -/

theorem next_start_ascii {b : UInt8} (h : b.toNat < 128) :
    next .start b = some (.start, [Char.ofNat b.toNat]) :=
  if_pos (by omega)

theorem next_inside_ascii {s : State} {b : UInt8} (h : b.toNat < 128) (hs : s ≠ .start) :
    next s b = none := by
  cases s with
  | start => exact absurd rfl hs
  | tail1 | tail2 | tail3 | afterE0 | afterED | afterF0 | afterF4 =>
    exact if_neg (by omega)

/-- **A byte below 128 is a character wherever it stands.** -/
theorem decode_append_ascii (before : List UInt8) {b : UInt8} (h : b.toNat < 128)
    (after : List UInt8) :
    decode (before ++ b :: after)
      = (decode before).bind fun text =>
        (decode after).map fun text' => text ++ Char.ofNat b.toNat :: text' := by
  unfold decode
  rw [Machine.run_append]
  cases strict.run .start before with
  | none => rfl
  | some p =>
    obtain ⟨s, text⟩ := p
    simp only [Option.bind_some]
    rw [Machine.run_cons]
    by_cases hs : s = .start
    · subst hs
      rw [show strict.step .start b = _ from next_start_ascii h]
      simp only [Option.bind_some, if_true]
      cases strict.run .start after with
      | none => rfl
      | some q =>
        obtain ⟨s', text'⟩ := q
        by_cases hs' : s' = .start <;> simp [hs']
    · rw [show strict.step s b = _ from next_inside_ascii h hs]
      simp [hs]

/-- The bits that are there of a character of several bytes: it will be numbered from 128 on, and be
no half of a pair. -/
def State.Wide : State → Prop
  | .tail1 code => 2 ≤ code ∧ code < 0x4400 ∧ (code < 0x360 ∨ 0x380 ≤ code)
  | .tail2 code => 1 ≤ code ∧ code < 0x110 ∧ code ≠ 0xD
  | .tail3 code => 1 ≤ code ∧ code < 4
  | _ => True

theorem ofNat_ne {n : ℕ} (h : 128 ≤ n) (hvalid : n.isValidChar) {c : Char} (hc : c.toNat < 128) :
    Char.ofNat n ≠ c := by
  rintro rfl
  unfold Char.ofNat at hc
  rw [dif_pos hvalid] at hc
  have hn : (Char.ofNatAux n hvalid).toNat = n := rfl
  omega

theorem wide_of_lead {b : ℕ} (hb : 128 ≤ b) {s : State} {out : List Char}
    (h : lead b = some (s, out)) : s.Wide ∧ out = [] := by
  unfold lead at h
  rw [if_neg (by omega)] at h
  split_ifs at h <;> cases h <;> refine ⟨?_, rfl⟩
  · show 2 ≤ b - 0xC0 ∧ b - 0xC0 < 0x4400 ∧ (b - 0xC0 < 0x360 ∨ 0x380 ≤ b - 0xC0)
    omega
  · trivial
  · trivial
  · show 1 ≤ b - 0xE0 ∧ b - 0xE0 < 0x110 ∧ b - 0xE0 ≠ 0xD
    omega
  · trivial
  · show 1 ≤ b - 0xF0 ∧ b - 0xF0 < 4
    omega
  · trivial

theorem of_further {code low high b : ℕ} {next : ℕ → State × List Char} {r : State × List Char}
    (h : further code low high b next = some r) :
    (low ≤ b ∧ b ≤ high) ∧ next (code * 64 + (b - 0x80)) = r := by
  unfold further at h
  split at h
  · next hbounds => exact ⟨hbounds, Option.some.inj h⟩
  · cases h

theorem State.Wide.next {s s' : State} {b : UInt8} {out : List Char} (hs : s.Wide)
    (hb : 128 ≤ b.toNat) (h : Utf8.next s b = some (s', out)) :
    s'.Wide ∧ ∀ c ∈ out, ∃ n, 128 ≤ n ∧ n.isValidChar ∧ c = Char.ofNat n := by
  cases s with
  | start =>
    obtain ⟨hwide, rfl⟩ := wide_of_lead hb h
    exact ⟨hwide, fun c hc => absurd hc List.not_mem_nil⟩
  | tail1 code =>
    simp only [Utf8.next] at h
    obtain ⟨hbounds, hf⟩ := of_further h
    cases hf
    obtain ⟨hlow, hhigh, hpairs⟩ := hs
    refine ⟨trivial, fun c hc =>
      ⟨code * 64 + (b.toNat - 0x80), ?_, ?_, List.mem_singleton.mp hc⟩⟩
    · omega
    · show _ < 0xd800 ∨ 0xdfff < _ ∧ _ < 0x110000
      omega
  | tail2 code =>
    simp only [Utf8.next] at h
    obtain ⟨hbounds, hf⟩ := of_further h
    cases hf
    obtain ⟨hlow, hhigh, hpairs⟩ := hs
    have hwide : State.Wide (.tail1 (code * 64 + (b.toNat - 0x80))) := by
      refine ⟨?_, ?_, ?_⟩ <;> omega
    exact ⟨hwide, fun c hc => absurd hc List.not_mem_nil⟩
  | tail3 code =>
    simp only [Utf8.next] at h
    obtain ⟨hbounds, hf⟩ := of_further h
    cases hf
    obtain ⟨hlow, hhigh⟩ := hs
    have hwide : State.Wide (.tail2 (code * 64 + (b.toNat - 0x80))) := by
      refine ⟨?_, ?_, ?_⟩ <;> omega
    exact ⟨hwide, fun c hc => absurd hc List.not_mem_nil⟩
  | afterE0 | afterED =>
    simp only [Utf8.next] at h
    obtain ⟨hbounds, hf⟩ := of_further h
    cases hf
    refine ⟨?_, fun c hc => absurd hc List.not_mem_nil⟩
    refine ⟨?_, ?_, ?_⟩ <;> omega
  | afterF0 | afterF4 =>
    simp only [Utf8.next] at h
    obtain ⟨hbounds, hf⟩ := of_further h
    cases hf
    refine ⟨?_, fun c hc => absurd hc List.not_mem_nil⟩
    refine ⟨?_, ?_, ?_⟩ <;> omega

theorem toNat_ofNat_ascii {n : ℕ} (h : n < 128) : (Char.ofNat n).toNat = n := by
  have hvalid : n.isValidChar := .inl (by omega)
  unfold Char.ofNat
  rw [dif_pos hvalid]
  rfl

theorem not_mem_of_next {s t : State} (hs : s.Wide) {x : UInt8} {out : List Char}
    (h : next s x = some (t, out)) {b : UInt8} (hb : b.toNat < 128) (hne : b ≠ x) :
    t.Wide ∧ Char.ofNat b.toNat ∉ out := by
  by_cases hx : x.toNat < 128
  · have hstart : s = .start := by
      by_contra hinside
      rw [next_inside_ascii hx hinside] at h
      cases h
    subst hstart
    rw [next_start_ascii hx] at h
    cases h
    refine ⟨trivial, fun hc => hne (UInt8.toNat_inj.mp ?_)⟩
    have heq := congrArg Char.toNat (List.mem_singleton.mp hc)
    rwa [toNat_ofNat_ascii hb, toNat_ofNat_ascii hx] at heq
  · obtain ⟨hwide, hwrote⟩ := hs.next (by omega) h
    refine ⟨hwide, fun hc => ?_⟩
    obtain ⟨n, hn, hvalid, heq⟩ := hwrote _ hc
    refine ofNat_ne hn hvalid ?_ heq.symm
    rwa [toNat_ofNat_ascii hb]

theorem not_mem_run {s s' : State} (hs : s.Wide) {bytes : List UInt8} {text : List Char}
    (h : strict.run s bytes = some (s', text)) {b : UInt8} (hb : b.toNat < 128) (hmem : b ∉ bytes) :
    Char.ofNat b.toNat ∉ text := by
  induction bytes generalizing s text with
  | nil =>
    cases h
    exact List.not_mem_nil
  | cons x bytes ih =>
    rw [List.mem_cons, not_or] at hmem
    rw [Machine.run_cons] at h
    obtain ⟨⟨t, out⟩, hstep, h⟩ := Option.bind_eq_some_iff.mp h
    obtain ⟨⟨t', out'⟩, hrun, h⟩ := Option.map_eq_some_iff.mp h
    cases h
    obtain ⟨ht, hout⟩ := not_mem_of_next hs hstep hb hmem.1
    rw [List.mem_append, not_or]
    exact ⟨hout, ih ht hrun hmem.2⟩

/-- **A text has a character below 128 only where its bytes have it.** -/
theorem not_mem_decode {bytes : List UInt8} {text : List Char} (h : decode bytes = some text)
    {b : UInt8} (hb : b.toNat < 128) (hmem : b ∉ bytes) :
    Char.ofNat b.toNat ∉ text := by
  obtain ⟨⟨s, out⟩, hrun, h⟩ := Option.bind_eq_some_iff.mp h
  split at h
  · cases h
    exact not_mem_run (s := .start) trivial hrun hb hmem
  · cases h

/-- **The pieces of a text are those of its bytes**, decoded: bytes are a text where each piece
is one. -/
theorem mapM_decode_splitOn {b : UInt8} (hb : b.toNat < 128) (bytes : List UInt8) :
    (bytes.splitOn b).mapM decode = (decode bytes).map (·.splitOn (Char.ofNat b.toNat)) := by
  by_cases hmem : b ∈ bytes
  · obtain ⟨before, after, hsplit, hbefore⟩ := List.eq_append_cons_of_mem hmem
    have hlt : after.length < bytes.length := by
      rw [hsplit, List.length_append, List.length_cons]
      omega
    have ih := mapM_decode_splitOn hb after
    rw [hsplit, List.splitOn_append_cons_self_of_not_mem hbefore, List.mapM_cons, ih,
      decode_append_ascii before hb]
    cases hdecode : decode before with
    | none => rfl
    | some text =>
      have hclean := not_mem_decode hdecode hb hbefore
      cases decode after with
      | none => rfl
      | some text' =>
        show some (text :: text'.splitOn _) = some ((text ++ _ :: text').splitOn _)
        rw [List.splitOn_append_cons_self_of_not_mem hclean]
  · rw [List.splitOn_eq_singleton hmem, List.mapM_cons]
    cases hdecode : decode bytes with
    | none => rfl
    | some text =>
      show some [text] = some (text.splitOn _)
      rw [List.splitOn_eq_singleton (not_mem_decode hdecode hb hmem)]
termination_by bytes.length

theorem decode_ascii {bytes : List UInt8} (h : ∀ b ∈ bytes, b.toNat < 128) :
    decode bytes = some (bytes.map fun b => Char.ofNat b.toNat) := by
  induction bytes with
  | nil => rfl
  | cons b bytes ih =>
    obtain ⟨hb, hbytes⟩ := List.forall_mem_cons.mp h
    have hcons := decode_append_ascii [] hb bytes
    rw [List.nil_append] at hcons
    rw [hcons, ih hbytes]
    rfl

/-! ## The bytes of a text -/

/-- The bytes of a character, by its number. -/
def encode (n : ℕ) : List ℕ :=
  if n < 0x80 then [n]
  else if n < 0x800 then [0xC0 + n / 64, 0x80 + n % 64]
  else if n < 0x10000 then [0xE0 + n / 4096, 0x80 + n / 64 % 64, 0x80 + n % 64]
  else [0xF0 + n / 262144, 0x80 + n / 4096 % 64, 0x80 + n / 64 % 64, 0x80 + n % 64]

/-- The bytes of a character that the decoder has read. -/
def State.pending : State → List ℕ
  | .start => []
  | .tail1 code =>
    if code < 32 then [0xC0 + code]
    else if code < 1024 then [0xE0 + code / 64, 0x80 + code % 64]
    else [0xF0 + code / 4096, 0x80 + code / 64 % 64, 0x80 + code % 64]
  | .tail2 code => if code < 16 then [0xE0 + code] else [0xF0 + code / 64, 0x80 + code % 64]
  | .tail3 code => [0xF0 + code]
  | .afterE0 => [0xE0]
  | .afterED => [0xED]
  | .afterF0 => [0xF0]
  | .afterF4 => [0xF4]

theorem toNat_ofNat {n : ℕ} (h : n.isValidChar) : (Char.ofNat n).toNat = n := by
  unfold Char.ofNat
  rw [dif_pos h]
  rfl

theorem pending_tail1_two {code : ℕ} (h : code < 32) :
    State.pending (.tail1 code) = [0xC0 + code] := if_pos h

theorem pending_tail1_three {code : ℕ} (h : 32 ≤ code) (h' : code < 1024) :
    State.pending (.tail1 code) = [0xE0 + code / 64, 0x80 + code % 64] := by
  rw [State.pending, if_neg (Nat.not_lt.mpr h), if_pos h']

theorem pending_tail1_four {code : ℕ} (h : 1024 ≤ code) : State.pending (.tail1 code)
    = [0xF0 + code / 4096, 0x80 + code / 64 % 64, 0x80 + code % 64] := by
  rw [State.pending, if_neg (by omega), if_neg (Nat.not_lt.mpr h)]

theorem pending_tail2_three {code : ℕ} (h : code < 16) :
    State.pending (.tail2 code) = [0xE0 + code] := if_pos h

theorem pending_tail2_four {code : ℕ} (h : 16 ≤ code) :
    State.pending (.tail2 code) = [0xF0 + code / 64, 0x80 + code % 64] :=
  if_neg (Nat.not_lt.mpr h)

theorem pending_last {code x : ℕ} (hcode : 2 ≤ code) (hx : x < 64) :
    State.pending (.tail1 code) ++ [0x80 + x] = encode (code * 64 + x) := by
  rw [encode, if_neg (by omega)]
  by_cases h2 : code < 32
  · rw [pending_tail1_two h2, if_pos (by omega)]
    simp only [List.cons_append, List.nil_append, List.cons.injEq, and_true]
    omega
  · by_cases h3 : code < 1024
    · rw [pending_tail1_three (by omega) h3, if_neg (by omega), if_pos (by omega)]
      simp only [List.cons_append, List.nil_append, List.cons.injEq, and_true]
      omega
    · rw [pending_tail1_four (by omega), if_neg (by omega), if_neg (by omega)]
      simp only [List.cons_append, List.nil_append, List.cons.injEq, and_true]
      omega

theorem pending_tail2 {code x : ℕ} (hcode : 1 ≤ code) (hx : x < 64) :
    State.pending (.tail2 code) ++ [0x80 + x] = State.pending (.tail1 (code * 64 + x)) := by
  by_cases h3 : code < 16
  · rw [pending_tail2_three h3, pending_tail1_three (by omega) (by omega)]
    simp only [List.cons_append, List.nil_append, List.cons.injEq, and_true]
    omega
  · rw [pending_tail2_four (by omega), pending_tail1_four (by omega)]
    simp only [List.cons_append, List.nil_append, List.cons.injEq, and_true]
    omega

theorem pending_tail3 {code x : ℕ} (hcode : 1 ≤ code) (hx : x < 64) :
    State.pending (.tail3 code) ++ [0x80 + x] = State.pending (.tail2 (code * 64 + x)) := by
  rw [pending_tail2_four (by omega), State.pending]
  simp only [List.cons_append, List.nil_append, List.cons.injEq, and_true]
  omega

theorem pending_lead {b : ℕ} {s : State} {out : List Char} (h : lead b = some (s, out)) :
    [b] = out.flatMap (fun c => encode c.toNat) ++ s.pending := by
  unfold lead at h
  split_ifs at h with hascii htwo hE0 hED hthree hF0 hfour hF4 <;> cases h
  · rw [List.flatMap_singleton, toNat_ofNat (.inl (by omega)), encode, if_pos (by omega),
      State.pending, List.append_nil]
  · rw [List.flatMap_nil, List.nil_append, pending_tail1_two (by omega),
      Nat.add_sub_cancel' (by omega)]
  · rw [hE0]
    rfl
  · rw [hED]
    rfl
  · rw [List.flatMap_nil, List.nil_append, pending_tail2_three (by omega),
      Nat.add_sub_cancel' (by omega)]
  · rw [hF0]
    rfl
  · rw [List.flatMap_nil, List.nil_append, State.pending, Nat.add_sub_cancel' (by omega)]
  · rw [hF4]
    rfl

/-- **The bytes read** are those of the characters that are out and of the one that is not. -/
theorem pending_next {s s' : State} (hs : s.Wide) {b : UInt8} {out : List Char}
    (h : next s b = some (s', out)) :
    s.pending ++ [b.toNat] = out.flatMap (fun c => encode c.toNat) ++ s'.pending := by
  have hbyte : 0x80 ≤ b.toNat → b.toNat = 0x80 + (b.toNat - 0x80) := fun hb => by omega
  cases s with
  | start => exact pending_lead h
  | tail1 code =>
    simp only [Utf8.next] at h
    obtain ⟨hbounds, hf⟩ := of_further h
    cases hf
    obtain ⟨hlow, hhigh, hpairs⟩ := hs
    have hvalid : (code * 64 + (b.toNat - 0x80)).isValidChar := by
      show _ < 0xd800 ∨ 0xdfff < _ ∧ _ < 0x110000
      omega
    rw [List.flatMap_singleton, toNat_ofNat hvalid, ← pending_last hlow (by omega),
      ← hbyte hbounds.1]
    exact (List.append_nil _).symm
  | tail2 code =>
    simp only [Utf8.next] at h
    obtain ⟨hbounds, hf⟩ := of_further h
    cases hf
    rw [List.flatMap_nil, List.nil_append, ← pending_tail2 hs.1 (by omega), ← hbyte hbounds.1]
  | tail3 code =>
    simp only [Utf8.next] at h
    obtain ⟨hbounds, hf⟩ := of_further h
    cases hf
    rw [List.flatMap_nil, List.nil_append, ← pending_tail3 hs.1 (by omega), ← hbyte hbounds.1]
  | afterE0 | afterED =>
    simp only [Utf8.next] at h
    obtain ⟨hbounds, hf⟩ := of_further h
    cases hf
    rw [List.flatMap_nil, List.nil_append, pending_tail1_three (by omega) (by omega), State.pending]
    simp only [List.cons_append, List.nil_append, List.cons.injEq, and_true]
    omega
  | afterF0 | afterF4 =>
    simp only [Utf8.next] at h
    obtain ⟨hbounds, hf⟩ := of_further h
    cases hf
    rw [List.flatMap_nil, List.nil_append, pending_tail2_four (by omega), State.pending]
    simp only [List.cons_append, List.nil_append, List.cons.injEq, and_true]
    omega

theorem pending_run {s s' : State} (hs : s.Wide) {bytes : List UInt8} {text : List Char}
    (h : strict.run s bytes = some (s', text)) : s.pending ++ bytes.map UInt8.toNat
      = text.flatMap (fun c => encode c.toNat) ++ s'.pending := by
  induction bytes generalizing s text with
  | nil =>
    cases h
    rw [List.map_nil, List.append_nil]
    rfl
  | cons b bytes ih =>
    rw [Machine.run_cons] at h
    obtain ⟨⟨t, out⟩, hstep, h⟩ := Option.bind_eq_some_iff.mp h
    obtain ⟨⟨t', out'⟩, hrun, h⟩ := Option.map_eq_some_iff.mp h
    cases h
    have ht : t.Wide := by
      by_cases hb : b.toNat < 128
      · by_cases hstart : s = .start
        · subst hstart
          rw [show strict.step .start b = _ from next_start_ascii hb] at hstep
          cases hstep
          trivial
        · rw [show strict.step s b = _ from next_inside_ascii hb hstart] at hstep
          cases hstep
      · exact (hs.next (by omega) hstep).1
    rw [List.map_cons, List.flatMap_append, List.append_assoc, ← ih ht hrun, ← List.append_assoc,
      ← pending_next hs hstep, List.append_assoc, List.singleton_append]

/-- **A text has one encoding.** -/
theorem decode_injective {bytes bytes' : List UInt8} {text : List Char}
    (h : decode bytes = some text) (h' : decode bytes' = some text) : bytes = bytes' := by
  have hencode : ∀ {bytes : List UInt8}, decode bytes = some text →
      bytes.map UInt8.toNat = text.flatMap fun c => encode c.toNat := by
    intro bytes h
    obtain ⟨⟨s, out⟩, hrun, h⟩ := Option.bind_eq_some_iff.mp h
    split at h
    · next hs =>
      cases h
      obtain rfl : s = .start := hs
      have hpending := pending_run (s := .start) trivial hrun
      rwa [State.pending, List.nil_append, List.append_nil] at hpending
    · cases h
  exact List.map_injective_iff.mpr (fun b b' heq => UInt8.toNat_inj.mp heq)
    ((hencode h).trans (hencode h').symm)

/-! ## What is replaced -/

theorem ne_nil_of_next {s : State} {b : UInt8} {out : List Char}
    (h : next s b = some (.start, out)) : out ≠ [] := by
  cases s with
  | start =>
    change lead b.toNat = _ at h
    unfold lead at h
    split_ifs at h <;> cases h
    exact List.cons_ne_nil _ _
  | tail1 code =>
    simp only [next] at h
    obtain ⟨-, hout⟩ := of_further h
    cases hout
    exact List.cons_ne_nil _ _
  | tail2 | tail3 | afterE0 | afterED | afterF0 | afterF4 =>
    simp only [next] at h
    obtain ⟨-, hout⟩ := of_further h
    cases hout

theorem replaceFrom_cons_of_next {s s' : State} {b : UInt8} {out : List Char}
    (h : next s b = some (s', out)) (bytes : List UInt8) :
    replaceFrom s (b :: bytes) = out ++ replaceFrom s' bytes := by
  rw [replaceFrom, h]

theorem replaceFrom_eq_nil {s : State} {bytes : List UInt8} (h : replaceFrom s bytes = []) :
    s = .start ∧ bytes = [] := by
  induction bytes generalizing s with
  | nil =>
    unfold replaceFrom at h
    by_contra hne
    rw [if_neg fun hs => hne ⟨hs, rfl⟩] at h
    cases h
  | cons b bytes ih =>
    unfold replaceFrom at h
    cases hstep : next s b with
    | some p =>
      rw [hstep] at h
      obtain ⟨hout, hrest⟩ := List.append_eq_nil_iff.mp h
      obtain ⟨hs', -⟩ := ih hrest
      exact absurd hout (ne_nil_of_next (hstep.trans (congrArg some (Prod.ext hs' rfl))))
    | none =>
      rw [hstep] at h
      dsimp only at h
      split at h
      · cases h
      · split at h <;> cases h

theorem decodeReplacing_eq_nil {bytes : List UInt8} : decodeReplacing bytes = [] ↔ bytes = [] :=
  ⟨fun h => (replaceFrom_eq_nil h).2, fun h => by rw [h]; rfl⟩

theorem replaceFrom_append_ascii (s : State) (before : List UInt8) {b : UInt8}
    (h : b.toNat < 128) (after : List UInt8) :
    replaceFrom s (before ++ b :: after)
      = replaceFrom s before ++ Char.ofNat b.toNat :: replaceFrom .start after := by
  induction before generalizing s with
  | nil =>
    by_cases hs : s = .start
    · subst hs
      exact replaceFrom_cons_of_next (next_start_ascii h) after
    · have hlead : lead b.toNat = some (.start, [Char.ofNat b.toNat]) := next_start_ascii h
      have hnil : replaceFrom s [] = [replacement] := if_neg hs
      rw [List.nil_append, hnil, replaceFrom, next_inside_ascii h hs]
      dsimp only
      rw [if_neg hs, hlead]
      rfl
  | cons x before ih =>
    rw [List.cons_append, replaceFrom, replaceFrom]
    cases next s x with
    | some p =>
      dsimp only
      rw [ih, List.append_assoc]
    | none =>
      dsimp only
      by_cases hs : s = .start
      · rw [if_pos hs, if_pos hs, ih]
        rfl
      · rw [if_neg hs, if_neg hs]
        cases lead x.toNat with
        | some p =>
          dsimp only
          rw [ih, List.cons_append, List.append_assoc]
        | none =>
          dsimp only
          rw [ih]
          rfl

/-- **A text is cut at a byte below 128 where its bytes are**, whatever else is replaced. -/
theorem decodeReplacing_append_ascii (before : List UInt8) {b : UInt8} (h : b.toNat < 128)
    (after : List UInt8) :
    decodeReplacing (before ++ b :: after)
      = decodeReplacing before ++ Char.ofNat b.toNat :: decodeReplacing after :=
  replaceFrom_append_ascii .start before h after

theorem not_mem_replaceFrom {s : State} (hs : s.Wide) {bytes : List UInt8} {b : UInt8}
    (hb : b.toNat < 128) (hmem : b ∉ bytes) : Char.ofNat b.toNat ∉ replaceFrom s bytes := by
  have hreplacement : Char.ofNat b.toNat ≠ replacement := fun heq =>
    @ofNat_ne 0xFFFD (by decide) (.inr (by decide)) (Char.ofNat b.toNat)
      (by rwa [toNat_ofNat_ascii hb]) heq.symm
  induction bytes generalizing s with
  | nil =>
    unfold replaceFrom
    split
    · exact List.not_mem_nil
    · exact fun hc => hreplacement (List.mem_singleton.mp hc)
  | cons x bytes ih =>
    rw [List.mem_cons, not_or] at hmem
    rw [replaceFrom]
    cases hstep : next s x with
    | some p =>
      obtain ⟨hwide, hout⟩ := not_mem_of_next hs hstep hb hmem.1
      exact fun hc => (List.mem_append.mp hc).elim hout (ih hwide hmem.2)
    | none =>
      dsimp only
      split
      · exact fun hc => (List.mem_cons.mp hc).elim hreplacement
          (ih (s := .start) trivial hmem.2)
      · cases hlead : lead x.toNat with
        | some p =>
          obtain ⟨hwide, hout⟩ :=
            @not_mem_of_next .start p.1 trivial x p.2 hlead b hb hmem.1
          exact fun hc => (List.mem_cons.mp hc).elim hreplacement fun hc =>
            (List.mem_append.mp hc).elim hout (ih hwide hmem.2)
        | none =>
          exact fun hc => (List.mem_cons.mp hc).elim hreplacement fun hc =>
            (List.mem_cons.mp hc).elim hreplacement (ih (s := .start) trivial hmem.2)

theorem not_mem_decodeReplacing {bytes : List UInt8} {b : UInt8}
    (hb : b.toNat < 128) (hmem : b ∉ bytes) : Char.ofNat b.toNat ∉ decodeReplacing bytes :=
  not_mem_replaceFrom (s := .start) trivial hb hmem

theorem head?_decodeReplacing_ne {bytes : List UInt8} {b : UInt8}
    (hb : b.toNat < 128) (h : bytes.head? ≠ some b) :
    (decodeReplacing bytes).head? ≠ some (Char.ofNat b.toNat) := by
  by_cases hmem : b ∈ bytes
  · obtain ⟨before, after, rfl, hbefore⟩ := List.eq_append_cons_of_mem hmem
    have hne : before ≠ [] := fun hnil => h (by rw [hnil]; rfl)
    have hclean := not_mem_decodeReplacing hb hbefore
    rw [decodeReplacing_append_ascii before hb, List.head?_append_of_ne_nil _
      fun hnil => hne (decodeReplacing_eq_nil.mp hnil)]
    exact fun hhead => hclean (List.mem_of_mem_head? hhead)
  · exact fun hhead => not_mem_decodeReplacing hb hmem (List.mem_of_mem_head? hhead)

end Utf8
