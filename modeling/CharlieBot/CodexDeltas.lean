import CharlieBot.CodexTranslator
import CharlieBot.Lib.Deltas

/-!
# The texts Codex passes on

The translator passes on what lies beyond the length of an item's last text. Whoever reads the
chat puts the pieces together, and should have the text of the item.

Nothing sees to it that a snapshot begins with the one before. Where one is shorter, or was
revised in what was already passed on, the pieces are not the last text: they are exactly where
nothing that was passed on is taken back (`texts_told_iff`). The items of a stream share the
translator's memory, and do not disturb each other, as each is kept under its own id.
-/

namespace Codex

/-- What a content is made of: the characters of a text, or the items of a list. -/
def units : Json → List (Char ⊕ Json)
  | .str s => s.toList.map .inl
  | .arr xs => xs.map .inr
  | _ => []

/-- What an event adds to a text: the text of an assistant's message, or the content of a
thought. -/
def contentOf (event : Event) : Json :=
  match event.get "message" with
  | .obj message =>
    match Dict.get message "content" with
    | .arr [.obj block] => Dict.get block "text"
    | _ => .null
  | _ => event.get "content"

/-- **A snapshot of a text that grows**: the item it is of, and its text so far. -/
def snapshotOf (ev : Event) : Option (Cell × List (Char ⊕ Json)) :=
  if ev.ofType "item.started" || ev.ofType "item.updated" || ev.ofType "item.completed" then do
    let item ← ev.getDict "item"
    let key ← (item.getD "id" (.str "")).asKey
    if (item.get "type").isText "agent_message" then
      (agentText item).map fun text => (.agent key, units text)
    else if (item.get "type").isText "reasoning" then
      (reasoningText item).map fun text => (.reasoning key, units text)
    else none
  else none

/-- The events that are translated, each with what it is translated into; the first that raises
ends the stream. -/
def trace (rt : CodexRuntime) (s : CodexState) : List Event → List (Event × List Event)
  | [] => []
  | ev :: evs =>
    match translateEvent rt s ev with
    | none => []
    | some (s', out) => (ev, out) :: trace rt s' evs

/-- Whether an event is a snapshot of an item. -/
def isOf (cell : Cell) (ev : Event) : Bool := (snapshotOf ev).any (·.1 = cell)

/-- The texts of an item, one after the other. -/
def textsOf (cell : Cell) (handled : List (Event × List Event)) : List (List (Char ⊕ Json)) :=
  (handled.filter (isOf cell ·.1)).filterMap fun p => (snapshotOf p.1).map (·.2)

/-- What is passed on of an item, put together. -/
def toldOf (cell : Cell) (handled : List (Event × List Event)) : List (Char ⊕ Json) :=
  (handled.filter (isOf cell ·.1)).flatMap fun p => p.2.flatMap fun event => units (contentOf event)

/-! ## One event -/

theorem length_units {x : Json} {q : Json.Seq} (hq : x.asSeq = some q) :
    (units x).length = q.length := by
  cases x with
  | str s =>
    cases hq
    simp [units, Json.Seq.length]
  | arr xs =>
    cases hq
    simp [units, Json.Seq.length]
  | null | bool | int | float | obj => cases hq

theorem units_toJson_drop {x : Json} {q : Json.Seq} (hq : x.asSeq = some q) (n : ℕ) :
    units (q.drop n).toJson = (units x).drop n := by
  cases x with
  | str s =>
    cases hq
    simp [units, Json.Seq.drop, Json.Seq.toJson]
  | arr xs =>
    cases hq
    simp [units, Json.Seq.drop, Json.Seq.toJson]
  | null | bool | int | float | obj => cases hq

theorem units_of_not_truthy {x : Json} (hx : x.truthy = false) : units x = [] := by
  cases x with
  | str s =>
    have hs : s.toList = [] := by simpa [Json.truthy] using hx
    rw [units, hs]
    rfl
  | arr xs =>
    have hxs : xs = [] := by simpa [Json.truthy] using hx
    rw [units, hxs]
    rfl
  | null | bool | int | float | obj => rfl

theorem told_renderDelta {make : Json → Event} (hmake : ∀ x, contentOf (make x) = x) {x : Json}
    {q : Json.Seq} (hq : x.asSeq = some q) (last : Option Json.Seq) :
    (renderDelta make last q).flatMap (fun event => units (contentOf event))
      = (units x).drop ((last.map Json.Seq.length).getD 0) := by
  unfold renderDelta
  dsimp only
  rw [← units_toJson_drop hq]
  split
  · next hzero =>
    rw [Json.Seq.length_drop, ← length_units hq] at hzero
    rw [units_toJson_drop hq, List.drop_eq_nil_of_le (Nat.le_of_sub_eq_zero hzero)]
    rfl
  · rw [List.flatMap_singleton, hmake]

section

variable {rt : CodexRuntime} {ev : Event}

theorem exists_touch {s s' : CodexState} {out : List Event}
    (h : translateEvent rt s ev = some (s', out)) :
    ∃ t, touch rt ev = some t ∧ (snapshots rt).apply s.recall t = (s'.recall, out) := by
  have heq := translateEvent_eq rt s ev
  have hstep : (translator rt).step s ev = some (s', out) := h
  rw [hstep, Snapshots.machine_step] at heq
  obtain ⟨t, ht, happly⟩ := Option.map_eq_some_iff.mp heq.symm
  exact ⟨t, ht, happly⟩

theorem touch_of_item (h : (ev.ofType "item.started" || ev.ofType "item.updated"
    || ev.ofType "item.completed") = true) :
    touch rt ev = (ev.getDict "item").bind (itemTouch rt ev) := by
  have htype : ∃ t, ev.getD "type" (.str "") = .str t ∧
      (t = "item.started" ∨ t = "item.updated" ∨ t = "item.completed") := by
    rw [Bool.or_eq_true, Bool.or_eq_true, or_assoc] at h
    rcases h with h | h | h
    · exact ⟨_, eq_of_isText h, .inl rfl⟩
    · exact ⟨_, eq_of_isText h, .inr (.inl rfl)⟩
    · exact ⟨_, eq_of_isText h, .inr (.inr rfl)⟩
  obtain ⟨t, heq, ht⟩ := htype
  unfold touch Event.ofType
  rw [heq]
  rcases ht with rfl | rfl | rfl <;> simp [Json.isText]

theorem of_textTouch_key {cell : Json.Key → Cell} {item : Dict} {text : Json} {key : Json.Key}
    (hkey : (item.getD "id" (.str "")).asKey = some key) {t : ItemTouch}
    (h : textTouch cell item text = some t) :
    (units text = [] ∧ t = .emit []) ∨
      ∃ q, text.asSeq = some q ∧ units text ≠ [] ∧ t = .snapshot (cell key) q := by
  unfold textTouch at h
  cases htruthy : text.truthy with
  | false =>
    rw [htruthy] at h
    cases h
    exact .inl ⟨units_of_not_truthy htruthy, rfl⟩
  | true =>
    rw [htruthy, hkey] at h
    obtain ⟨q, hq, h⟩ := Option.bind_eq_some_iff.mp h
    cases h
    refine .inr ⟨q, hq, fun hnil => ?_, rfl⟩
    have hpos := Json.length_pos_of_truthy htruthy hq
    rw [← length_units hq, hnil] at hpos
    exact Nat.lt_irrefl 0 hpos

theorem touch_of_snapshotOf {cell : Cell} {text : List (Char ⊕ Json)} {t : ItemTouch}
    (hsnapshot : snapshotOf ev = some (cell, text)) (htouch : touch rt ev = some t) :
    (text = [] ∧ t = .emit []) ∨
      ∃ x q, x.asSeq = some q ∧ units x = text ∧ text ≠ [] ∧ t = .snapshot cell q := by
  unfold snapshotOf at hsnapshot
  split at hsnapshot
  · next hitem =>
    obtain ⟨item, hget, hsnapshot⟩ := Option.bind_eq_some_iff.mp hsnapshot
    obtain ⟨key, hkey, hsnapshot⟩ := Option.bind_eq_some_iff.mp hsnapshot
    rw [touch_of_item hitem, hget, Option.bind_some] at htouch
    unfold itemTouch at htouch
    dsimp only at htouch
    split at hsnapshot
    · next hagent =>
      obtain ⟨x, hx, hsnapshot⟩ := Option.map_eq_some_iff.mp hsnapshot
      obtain ⟨rfl, rfl⟩ := Prod.mk.inj hsnapshot
      rw [if_pos hagent, hx] at htouch
      rcases of_textTouch_key hkey htouch with h | ⟨q, hq, hne, rfl⟩
      · exact .inl h
      · exact .inr ⟨x, q, hq, rfl, hne, rfl⟩
    · next hagent =>
      split at hsnapshot
      · next hreasoning =>
        obtain ⟨x, hx, hsnapshot⟩ := Option.map_eq_some_iff.mp hsnapshot
        obtain ⟨rfl, rfl⟩ := Prod.mk.inj hsnapshot
        rw [if_neg hagent, if_pos hreasoning, hx] at htouch
        rcases of_textTouch_key hkey htouch with h | ⟨q, hq, hne, rfl⟩
        · exact .inl h
        · exact .inr ⟨x, q, hq, rfl, hne, rfl⟩
      · cases hsnapshot
  · cases hsnapshot

def Cell.Grows : Cell → Prop
  | .todo _ => False
  | _ => True

theorem textTouch_of_asKey_eq_none {cell : Json.Key → Cell} {item : Dict} {text : Json}
    (hkey : (item.getD "id" (.str "")).asKey = none) {t : ItemTouch}
    (h : textTouch cell item text = some t) : t = .emit [] := by
  unfold textTouch at h
  split at h
  · exact (Option.some.inj h).symm
  · rw [hkey] at h
    cases h

theorem on_of_todoTouch {item : Dict} {t : ItemTouch} (h : todoTouch item = some t) {cell : Cell}
    (hcell : cell.Grows) : t.on cell = none := by
  have hne : ∀ key, Cell.todo key ≠ cell := by
    rintro key rfl
    exact hcell
  unfold todoTouch at h
  split at h
  · dsimp only at h
    split at h
    · split at h
      · obtain ⟨key, -, rfl⟩ := Option.map_eq_some_iff.mp h
        exact if_neg (hne key)
      · cases h
        rfl
    · split at h
      · obtain ⟨key, -, rfl⟩ := Option.map_eq_some_iff.mp h
        exact if_neg (hne key)
      · cases h
        rfl
  · cases h
    rfl

theorem on_of_itemTouch {item : Dict} {t : ItemTouch} (h : itemTouch rt ev item = some t)
    (hagent : (item.get "type").isText "agent_message" = true →
      (item.getD "id" (.str "")).asKey = none)
    (hreasoning : (item.get "type").isText "reasoning" = true →
      (item.getD "id" (.str "")).asKey = none) {cell : Cell} (hcell : cell.Grows) :
    t.on cell = none := by
  unfold itemTouch at h
  dsimp only at h
  split at h
  · next htype =>
    obtain ⟨x, -, h⟩ := Option.bind_eq_some_iff.mp h
    rw [textTouch_of_asKey_eq_none (hagent htype) h]
    rfl
  · split at h
    · next htype =>
      obtain ⟨x, -, h⟩ := Option.bind_eq_some_iff.mp h
      rw [textTouch_of_asKey_eq_none (hreasoning htype) h]
      rfl
    · obtain ⟨spec, -, h⟩ := Option.bind_eq_some_iff.mp h
      split at h
      · cases h
        rfl
      · split at h
        · split at h
          · obtain ⟨events, -, rfl⟩ := Option.map_eq_some_iff.mp h
            rfl
          · cases h
            rfl
        · split at h
          · cases h
            rfl
          · split at h
            · exact on_of_todoTouch h hcell
            · split at h <;> cases h <;> rfl

/-- **What is no snapshot of a text leaves the texts that are remembered.** -/
theorem on_of_snapshotOf_eq_none {t : ItemTouch} (hsnapshot : snapshotOf ev = none)
    (htouch : touch rt ev = some t) {cell : Cell} (hcell : cell.Grows) : t.on cell = none := by
  by_cases hitem : (ev.ofType "item.started" || ev.ofType "item.updated"
      || ev.ofType "item.completed") = true
  · rw [touch_of_item hitem] at htouch
    obtain ⟨item, hget, htouch⟩ := Option.bind_eq_some_iff.mp htouch
    unfold snapshotOf at hsnapshot
    rw [if_pos hitem, hget] at hsnapshot
    cases hkey : (item.getD "id" (.str "")).asKey with
    | none => exact on_of_itemTouch htouch (fun _ => hkey) (fun _ => hkey) hcell
    | some key =>
      -- the item is of another type, or its text cannot be read, and then it is not translated
      have hsnapshot : (if (item.get "type").isText "agent_message" then
          (agentText item).map fun text => (Cell.agent key, units text)
        else if (item.get "type").isText "reasoning" then
          (reasoningText item).map fun text => (Cell.reasoning key, units text)
        else none) = none := by
        have h := hsnapshot
        simp only [Option.bind_eq_bind, Option.bind_some, hkey] at h
        exact h
      have hdone := htouch
      unfold itemTouch at hdone
      dsimp only at hdone
      refine on_of_itemTouch htouch ?_ ?_ hcell
      · intro htype
        rw [if_pos htype, Option.map_eq_none_iff] at hsnapshot
        rw [if_pos htype, hsnapshot] at hdone
        cases hdone
      · intro htype
        have hagent : ¬ (item.get "type").isText "agent_message" = true := fun h => by
          rw [eq_of_isText h] at htype
          cases htype
        rw [if_neg hagent, if_pos htype, Option.map_eq_none_iff] at hsnapshot
        rw [if_neg hagent, if_pos htype, hsnapshot] at hdone
        cases hdone
  · unfold touch at htouch
    split at htouch
    · cases htouch
      rfl
    · split at htouch
      · cases htouch
        rfl
      · split at htouch
        · obtain ⟨result, -, rfl⟩ := Option.map_eq_some_iff.mp htouch
          rfl
        · split at htouch
          · cases htouch
            rfl
          · cases htouch
            rfl

/-- The length of what is remembered of an item. -/
def remembered (s : CodexState) (cell : Cell) : ℕ :=
  ((s.recall cell).map Json.Seq.length).getD 0

theorem grows_of_snapshotOf {cell : Cell} {text : List (Char ⊕ Json)}
    (h : snapshotOf ev = some (cell, text)) : cell.Grows := by
  unfold snapshotOf at h
  split at h
  · obtain ⟨item, -, h⟩ := Option.bind_eq_some_iff.mp h
    obtain ⟨key, -, h⟩ := Option.bind_eq_some_iff.mp h
    split at h
    · obtain ⟨x, -, h⟩ := Option.map_eq_some_iff.mp h
      cases h
      trivial
    · split at h
      · obtain ⟨x, -, h⟩ := Option.map_eq_some_iff.mp h
        cases h
        trivial
      · cases h
  · cases h

theorem told_render {cell : Cell} (hcell : cell.Grows) {x : Json} {q : Json.Seq}
    (hq : x.asSeq = some q) (last : Option Json.Seq) :
    (render cell last q).flatMap (fun event => units (contentOf event))
      = (units x).drop ((last.map Json.Seq.length).getD 0) := by
  cases cell with
  | agent key => exact told_renderDelta (fun _ => rfl) hq last
  | reasoning key => exact told_renderDelta (fun _ => rfl) hq last
  | todo key => exact hcell.elim

/-- **One event**: a snapshot of an item is remembered and what is new in it passed on, unless it
is empty; any other event leaves what is remembered of the item. -/
theorem step_spec {s s' : CodexState} {out : List Event}
    (h : translateEvent rt s ev = some (s', out)) {cell : Cell} (hcell : cell.Grows) :
    (∀ text, snapshotOf ev = some (cell, text) →
      (text = [] ∧ remembered s' cell = remembered s cell ∧ out = []) ∨
        (text ≠ [] ∧ remembered s' cell = text.length ∧
          out.flatMap (fun event => units (contentOf event))
            = text.drop (remembered s cell))) ∧
      (isOf cell ev = false → remembered s' cell = remembered s cell) := by
  obtain ⟨t, htouch, happly⟩ := exists_touch h
  have hrecall : s'.recall cell = (t.on cell).getD (s.recall cell) := by
    rw [← Snapshots.apply_fst (snapshots rt) s.recall t cell, happly]
  refine ⟨fun text hsnapshot => ?_, fun hother => ?_⟩
  · rcases touch_of_snapshotOf hsnapshot htouch with ⟨rfl, rfl⟩ | ⟨x, q, hq, rfl, hne, rfl⟩
    · obtain ⟨-, rfl⟩ := Prod.mk.inj happly
      refine .inl ⟨rfl, ?_, rfl⟩
      unfold remembered
      rw [hrecall]
      rfl
    · obtain ⟨-, rfl⟩ := Prod.mk.inj happly
      refine .inr ⟨hne, ?_, told_render hcell hq _⟩
      have hon : Touch.on cell (Touch.snapshot cell q : ItemTouch) = some (some q) := if_pos rfl
      unfold remembered
      rw [hrecall, hon, length_units hq]
      rfl
  · unfold remembered
    cases hsnapshot : snapshotOf ev with
    | none =>
      rw [hrecall, on_of_snapshotOf_eq_none hsnapshot htouch hcell]
      rfl
    | some p =>
      obtain ⟨other, text⟩ := p
      have hne : other ≠ cell := by
        rintro rfl
        rw [isOf, hsnapshot] at hother
        simp at hother
      have hon : t.on cell = none := by
        rcases touch_of_snapshotOf hsnapshot htouch with ⟨-, rfl⟩ | ⟨x, q, -, -, -, rfl⟩
        · rfl
        · exact if_neg hne
      rw [hrecall, hon]
      rfl

/-- **What is passed on of an item** is what lies beyond the snapshots of it. -/
theorem toldOf_trace (rt : CodexRuntime) (s : CodexState) (events : List Event) {cell : Cell}
    (hcell : cell.Grows) :
    toldOf cell (trace rt s events)
      = Deltas.emitted (remembered s cell) (textsOf cell (trace rt s events)) := by
  induction events generalizing s with
  | nil => rfl
  | cons ev events ih =>
    unfold trace
    split
    · rfl
    · next s' out hstep =>
      obtain ⟨hsnapshot, hother⟩ := step_spec hstep hcell
      have ih := ih s'
      cases hof : isOf cell ev with
      | false =>
        unfold toldOf textsOf at ih ⊢
        rw [List.filter_cons_of_neg (by simp [hof]), ih, hother hof]
      | true =>
        obtain ⟨⟨c, text⟩, hc, heq⟩ := (Option.any_eq_true _ _).mp hof
        obtain rfl : c = cell := by simpa using heq
        unfold toldOf textsOf at ih ⊢
        rw [List.filter_cons_of_pos (by simpa using hof), List.flatMap_cons, ih,
          List.filterMap_cons, hc]
        dsimp only [Option.map_some]
        rw [Deltas.emitted_cons]
        rcases hsnapshot text hc with ⟨rfl, hrem, rfl⟩ | ⟨hne, hrem, hout⟩
        · rw [hrem]
          rfl
        · rw [if_neg fun h => hne (List.isEmpty_iff.mp h), hrem, hout]

/-- **The pieces that are passed on of an item are its last text.** -/
def TextTold (cell : Cell) (handled : List (Event × List Event)) : Prop :=
  ∀ text, (textsOf cell handled).getLast? = some text → toldOf cell handled = text

theorem textsOf_todo (key : Json.Key) (handled : List (Event × List Event)) :
    textsOf (.todo key) handled = [] := by
  unfold textsOf
  rw [List.filter_eq_nil_iff.mpr]
  · rfl
  · intro p _ hof
    obtain ⟨⟨c, text⟩, hc, heq⟩ := (Option.any_eq_true _ _).mp hof
    obtain rfl : c = .todo key := by simpa using heq
    exact (grows_of_snapshotOf hc).elim

/-- **Exactly when the pieces are the last text**: for each item of each stream, no snapshot of it
that is not empty is shorter than the one before, what each has beyond it the last has at the same
place, and nothing is beyond the last. -/
theorem texts_told_iff (rt : CodexRuntime) (events : List Event) (cell : Cell) :
    TextTold cell (trace rt {} events) ↔
      ∀ last, (textsOf cell (trace rt {} events)).getLast? = some last →
        Deltas.Extends last 0 (textsOf cell (trace rt {} events)) := by
  refine forall_congr' fun last => forall_congr' fun hlast => ?_
  have hcell : cell.Grows := by
    cases cell with
    | agent key => trivial
    | reasoning key => trivial
    | todo key =>
      rw [textsOf_todo] at hlast
      cases hlast
  have hfresh : remembered {} cell = 0 := by
    unfold remembered
    rw [recall_empty]
    rfl
  rw [toldOf_trace rt {} events hcell, hfresh]
  exact Deltas.emitted_eq_iff hlast

end

/-! ## A text that is revised -/

def messageEvent (type text : String) : Event :=
  [("type", .str type), ("item", .obj [("id", .str "item_0"), ("type", .str "agent_message"),
    ("text", .str text)])]

def silent : CodexRuntime := ⟨fun _ => none, fun _ => none, fun _ => ""⟩

/-- The snapshots of a text that is revised. -/
def revised : List Event :=
  [messageEvent "item.updated" "no", messageEvent "item.completed" "yes"]

/-- **A text that is revised**: the chat has `nos`, and the text is `yes`. -/
theorem text_not_told :
    ¬ TextTold (.agent (.text "item_0")) (trace silent {} revised)
      ∧ toldOf (.agent (.text "item_0")) (trace silent {} revised)
        = [.inl 'n', .inl 'o', .inl 's'] := by
  have htold : toldOf (.agent (.text "item_0")) (trace silent {} revised)
      = [.inl 'n', .inl 'o', .inl 's'] := by rfl
  refine ⟨fun h => ?_, htold⟩
  have hlast := h [.inl 'y', .inl 'e', .inl 's'] (by rfl)
  rw [htold] at hlast
  cases hlast

end Codex
