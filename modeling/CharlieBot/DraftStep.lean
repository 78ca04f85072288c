import CharlieBot.MessageAggregator

/-!
# What one event commits

The aggregator's step has a branch per kind of event. This module says once what a step can commit
(`Committed`), so that nothing else has to walk the branches again: the draft as an assistant's
message, a plan, the user of a user event, or the one message the dispatch table renders. Every
message therefore carries the role of its event: a separator is what the end of a turn renders as
and nothing else, and a user message tells its event by its index.
-/

/-! ## The role of an event's type -/

/-- The role an event of the dispatch table renders as. -/
def handlerRole (t : String) : String :=
  if t = ET.masterDone then "separator"
  else if t ∈ [ET.taskDelegated, ET.workerSummary, ET.cloneStart,
      ET.scheduledTrigger, ET.agentMessage] then t
  else "system"

/-- What holds of the handler listed under a type: its messages carry the
role of the type, and only the end of a turn and a system event can render
as nothing. -/
structure Renders (t : String) (handler : Event → Option (Option Dict)) : Prop where
  role : ∀ ev msg, handler ev = some (some msg) →
    msg.get "role" = .str (handlerRole t)
  /-- When it can render as nothing. -/
  silent : ∀ ev, handler ev = some none → t = ET.masterDone ∨ t = ET.system

theorem renders_always {t : String} {f : Event → Dict}
    (h : ∀ ev, (f ev).get "role" = .str (handlerRole t)) :
    Renders t fun ev => some (some (f ev)) where
  role ev msg hm := by
    cases hm
    exact h ev
  silent ev hn := by cases hn

theorem renders_map {α : Type} {t : String} {f : Event → Option α}
    {g : Event → α → Dict}
    (h : ∀ ev x, (g ev x).get "role" = .str (handlerRole t)) :
    Renders t fun ev => (f ev).map fun x => some (g ev x) where
  role ev msg hm := by
    obtain ⟨x, -, hx⟩ := Option.map_eq_some_iff.mp hm
    cases hx
    exact h ev x
  silent ev hn := by
    obtain ⟨x, -, hx⟩ := Option.map_eq_some_iff.mp hn
    cases hx

theorem renders_masterDoneMsg : Renders ET.masterDone masterDoneMsg where
  role ev msg h := by
    unfold masterDoneMsg at h
    split at h
    · cases h
    · cases h
      rfl
  silent _ _ := .inl rfl

theorem renders_systemMsg : Renders ET.system systemMsg where
  role ev msg h := by
    unfold systemMsg at h
    split at h
    · cases h
      rfl
    · cases h
  silent _ _ := .inr rfl

theorem renders_backendOverlayInactiveMsg {t : String}
    (ht : handlerRole t = "system") : Renders t backendOverlayInactiveMsg where
  role ev msg h := by
    unfold backendOverlayInactiveMsg at h
    dsimp only at h
    rw [ht]
    split at h <;>
    · cases h
      rfl
  silent ev h := by
    unfold backendOverlayInactiveMsg at h
    dsimp only at h
    split at h <;> cases h

/-- **Every handler of the dispatch table** renders as the role of its
type. -/
theorem renders_of_mem {t : String} {handler : Event → Option (Option Dict)}
    (h : (t, handler) ∈ simpleHandlers) : Renders t handler := by
  simp only [simpleHandlers, List.mem_cons, List.not_mem_nil, or_false,
    Prod.mk.injEq] at h
  rcases h with ⟨rfl, rfl⟩ | ⟨rfl, rfl⟩ | ⟨rfl, rfl⟩ | ⟨rfl, rfl⟩ | ⟨rfl, rfl⟩
    | ⟨rfl, rfl⟩ | ⟨rfl, rfl⟩ | ⟨rfl, rfl⟩ | ⟨rfl, rfl⟩ | ⟨rfl, rfl⟩ | ⟨rfl, rfl⟩
    | ⟨rfl, rfl⟩ | ⟨rfl, rfl⟩ | ⟨rfl, rfl⟩ | ⟨rfl, rfl⟩ | ⟨rfl, rfl⟩ | ⟨rfl, rfl⟩
    | ⟨rfl, rfl⟩ | ⟨rfl, rfl⟩ | ⟨rfl, rfl⟩
  · exact renders_masterDoneMsg
  · exact renders_always fun _ => rfl
  · exact renders_always fun _ => rfl
  · exact renders_always fun _ => rfl
  · exact renders_always fun _ => rfl
  · exact renders_always fun _ => rfl
  · exact renders_map fun _ _ => rfl
  · exact renders_always fun _ => rfl
  · exact renders_always fun _ => rfl
  · exact renders_always fun _ => rfl
  · exact renders_systemMsg
  · exact renders_always fun _ => rfl
  · exact renders_always fun _ => rfl
  · exact renders_always fun _ => rfl
  · exact renders_always fun _ => rfl
  · exact renders_always fun _ => rfl
  · exact renders_backendOverlayInactiveMsg rfl
  · exact renders_backendOverlayInactiveMsg rfl
  · exact renders_map fun _ _ => rfl
  · exact renders_always fun _ => rfl

theorem mem_of_handlerOf {ev : Event} {handler : Event → Option (Option Dict)}
    (h : handlerOf (ev.get "type") = some (some handler)) :
    ∃ t, ev.hasType t = true ∧ (t, handler) ∈ simpleHandlers := by
  unfold Event.hasType
  cases ht : ev.get "type" with
  | str t =>
    rw [ht] at h
    obtain ⟨l₁, l₂, hl, -⟩ := List.lookup_eq_some_iff.mp (Option.some.inj h)
    refine ⟨t, beq_self_eq_true t, ?_⟩
    rw [hl]
    exact List.mem_append_right _ List.mem_cons_self
  | _ => rw [ht] at h; cases h

/-! ## What a step commits -/

namespace Draft

/-- **A message an event can commit.** -/
inductive Committed (ev : Event) (idx : ℕ) : Dict → Prop
  | draft (d : Draft) : Committed ev idx d.msg
  | plan (content timestamp : Json) : Committed ev idx (planMsg ev idx content timestamp)
  | user (content : Json) (files : List Json) (h : ev.hasType ET.user = true) :
    Committed ev idx (userMsg ev idx content files)
  /-- What the dispatch table renders. -/
  | handled {t : String} {handler : Event → Option (Option Dict)} {result : Dict}
    (ht : ev.hasType t = true) (hmem : (t, handler) ∈ simpleHandlers)
    (hresult : handler ev = some (some result)) :
    Committed ev idx (completed result ev idx)

theorem role_completed (result : Dict) (ev : Event) (idx : ℕ) :
    (completed result ev idx).get "role" = result.get "role" := by
  unfold completed
  rw [Dict.get_set_of_ne _ _ (by decide), Dict.get_set_of_ne _ _ (by decide),
    Dict.get_setDefault_of_ne _ _ (by decide)]

theorem Committed.role {ev : Event} {idx : ℕ} {m : Dict} (h : Committed ev idx m) :
    m.get "role" = .str "assistant" ∨ m.get "role" = .str "plan"
      ∨ (m.get "role" = .str "user" ∧ m.get "event_index" = .int idx)
      ∨ ∃ t, ev.hasType t = true ∧ m.get "role" = .str (handlerRole t)
        ∧ ∃ handler, (t, handler) ∈ simpleHandlers := by
  cases h with
  | draft d => exact .inl rfl
  | plan => exact .inr (.inl rfl)
  | user => exact .inr (.inr (.inl ⟨rfl, rfl⟩))
  | handled ht hmem hresult =>
    refine .inr (.inr (.inr ⟨_, ht, ?_, _, hmem⟩))
    rw [role_completed]
    exact (renders_of_mem hmem).role _ _ hresult

theorem committed_flush (d : Draft) (ev : Event) (idx : ℕ) :
    ∀ m ∈ d.flush.2, Committed ev idx m := by
  unfold flush
  split
  · intro m hm
    rw [List.mem_singleton.mp hm]
    exact .draft d
  · exact fun m hm => absurd hm List.not_mem_nil

theorem committed_flush_append {d : Draft} {ev : Event} {idx : ℕ} {msg : Dict}
    (h : Committed ev idx msg) : ∀ m ∈ d.flush.2 ++ [msg], Committed ev idx m := by
  intro m hm
  rcases List.mem_append.mp hm with hm | hm
  · exact committed_flush d ev idx m hm
  · rw [List.mem_singleton.mp hm]
    exact h

theorem committed_planStep {ev : Event} {idx : ℕ} {d d' : Draft} {block : Json}
    {ms : List Dict} (h : planStep ev idx d block = some (d', ms)) :
    ∀ m ∈ ms, Committed ev idx m := by
  unfold planStep at h
  split at h
  · obtain ⟨input, -, h⟩ := Option.map_eq_some_iff.mp h
    dsimp only at h
    split at h
    · cases h
      exact committed_flush_append (.plan _ _)
    · split at h
      · cases h
        exact fun m hm => absurd hm List.not_mem_nil
      · cases h
        intro m hm
        rw [List.mem_singleton.mp hm]
        exact .plan _ _
  · cases h
    exact fun m hm => absurd hm List.not_mem_nil

theorem committed_withText (d : Draft) (ev : Event) (idx : ℕ) (text : String) :
    ∀ m ∈ (d.withText ev text).2, Committed ev idx m := by
  unfold withText
  split
  · exact committed_flush d ev idx
  · exact fun m hm => absurd hm List.not_mem_nil

theorem committed_feedAssistant {d d' : Draft} {ev : Event} {idx : ℕ}
    {ms : List Dict} {s : Bool} (h : d.feedAssistant ev idx = some (d', ms, s)) :
    ∀ m ∈ ms, Committed ev idx m := by
  unfold feedAssistant at h
  obtain ⟨msg, -, h⟩ := Option.bind_eq_some_iff.mp h
  obtain ⟨blocks, -, h⟩ := Option.bind_eq_some_iff.mp h
  obtain ⟨⟨planned, plans⟩, hplan, h⟩ := Option.bind_eq_some_iff.mp h
  obtain ⟨thinking, -, h⟩ := Option.bind_eq_some_iff.mp h
  obtain ⟨text, -, h⟩ := Option.bind_eq_some_iff.mp h
  cases h
  intro m hm
  rcases List.mem_append.mp hm with hm | hm
  · exact Machine.run_forall (fun _ _ _ _ _ hs => committed_planStep hs) hplan m hm
  · exact committed_withText _ ev idx text m hm

/-- **What an event commits.** -/
theorem committed_of_feedAt {d d' : Draft} {ev : Event} {idx : ℕ}
    {ms : List Dict} {s : Bool} (h : d.feedAt ev idx = some (d', ms, s)) :
    ∀ m ∈ ms, Committed ev idx m := by
  have hnil : ∀ m ∈ ([] : List Dict), Committed ev idx m :=
    fun m hm => absurd hm List.not_mem_nil
  unfold feedAt at h
  split at h
  · next huser =>
    unfold feedUser at h
    split at h
    · unfold feedToolResults at h
      obtain ⟨msg, -, h⟩ := Option.bind_eq_some_iff.mp h
      obtain ⟨blocks, -, h⟩ := Option.bind_eq_some_iff.mp h
      obtain ⟨d₁, -, h⟩ := Option.bind_eq_some_iff.mp h
      cases h
      exact hnil
    · obtain ⟨normalized, -, h⟩ := Option.map_eq_some_iff.mp h
      cases h
      exact committed_flush_append (.user _ _ huser)
  split at h
  · exact committed_feedAssistant h
  split at h
  · cases h
    exact hnil
  split at h
  · unfold feedToolResult at h
    split at h <;>
    · cases h
      exact hnil
  split at h
  · cases h
    exact hnil
  · unfold feedSimple at h
    obtain ⟨handler?, hhandler, h⟩ := Option.bind_eq_some_iff.mp h
    cases handler? with
    | none =>
      cases h
      exact hnil
    | some handler =>
      obtain ⟨t, ht, hmem⟩ := mem_of_handlerOf hhandler
      obtain ⟨result?, hresult, h⟩ := Option.map_eq_some_iff.mp h
      cases result? with
      | none =>
        simp only [rendered] at h
        split at h <;> cases h
        · exact hnil
        · exact committed_flush d ev idx
      | some result =>
        cases h
        exact committed_flush_append (.handled ht hmem hresult)

end Draft

/-! ## Only the end of a turn separates -/

/-- `msg["role"] == "separator"`. -/
def isSeparator (msg : Dict) : Bool := (msg.get "role").isText "separator"

theorem handlerRole_eq_separator {t : String} (h : handlerRole t = "separator") :
    t = ET.masterDone := by
  by_contra hne
  unfold handlerRole at h
  rw [if_neg hne] at h
  split at h
  · next hmem =>
    rw [h] at hmem
    exact absurd hmem (by decide)
  · exact absurd h (by decide)

/-- **Only the end of a turn separates**: an event that is no
`master_done` commits no separator. -/
theorem Draft.isSeparator_eq_false {d d' : Draft} {ev : Event} {idx : ℕ}
    {ms : List Dict} {s : Bool} (hev : MessageEvents.isMasterDone ev = false)
    (h : d.feedAt ev idx = some (d', ms, s)) : ∀ m ∈ ms, isSeparator m = false := by
  intro m hm
  unfold isSeparator
  rcases (committed_of_feedAt h m hm).role with hr | hr | ⟨hr, -⟩ | ⟨t, ht, hr, -⟩
  · rw [hr]; rfl
  · rw [hr]; rfl
  · rw [hr]; rfl
  · rw [hr]
    refine beq_false_of_ne (fun heq => ?_)
    rw [handlerRole_eq_separator heq] at ht
    unfold MessageEvents.isMasterDone at hev
    rw [ht] at hev
    cases hev

/-! ## What a flush leaves -/

namespace Draft

theorem flush_of_hasDraft {d : Draft} (h : d.hasDraft = true) :
    d.flush = (d.cleared, [d.msg]) := if_pos h

theorem flush_of_not_hasDraft {d : Draft} (h : d.hasDraft = false) :
    d.flush = (d, []) := by
  unfold flush
  rw [h]
  rfl

end Draft
