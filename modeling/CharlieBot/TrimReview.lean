import CharlieBot.Lib.Json
import CharlieBot.Lib.Pieces
import Mathlib.Data.List.DropRight

/-!
# The review that may only trim

An editor proposes operations on memory entries, and a reviewer may confirm them, take whole lines
away from a proposed text, or leave an entry as it was. What the reviewer returns is checked against
the editor's output: the lines of a returned text have to be found among those of the proposed one,
in their order, each line used once. The search takes the first line that fits; that this finds a
way wherever there is one is `lineRemovalViolation_eq_none_iff`.

Texts are compared with one line feed at their end. **Where the check finds nothing, an entry in
the final state is the one it was, untouched by the result, or a proposed text without some of its
lines** (`accepted_trims`): a reviewer can restore the entry of the base, by `keep` or by leaving
the operation out, and then the text is not the editor's (`restored_not_trimmed`).
-/

namespace TrimReview

structure EntryOp where
  action : String
  path : String
  text : Option (List Char)

/-- `ThemeOutput`, the entry operations of it. -/
structure ThemeOutput where
  entries : List EntryOp

abbrev Entries := String → Option (List Char)

/-- `canonical_text`: one line feed at the end, or nothing. -/
def canonicalText (text : List Char) : List Char :=
  let stripped := text.rdropWhile (· == '\n')
  if stripped.isEmpty then [] else stripped ++ ['\n']

/-- `canonical_text(text).split("\n")`. -/
def canonicalLines (text : List Char) : List (List Char) :=
  (canonicalText text).splitOn '\n'

/-- The scan of `_line_removal_violation`, at the line with a number: the first line that is not
found behind the ones before. -/
def scanLines (number : ℕ) : List (List Char) → List (List Char) → Option (ℕ × List Char)
  | [], _ => none
  | line :: returned, proposed =>
    match proposed.dropWhile (· ≠ line) with
    | [] => some (number, line)
    | _ :: proposed => scanLines (number + 1) returned proposed

/-- **`_line_removal_violation`**. -/
def lineRemovalViolation (returnedText proposedText : List Char) : Option String :=
  (scanLines 1 (canonicalLines returnedText) (canonicalLines proposedText)).map fun p =>
    "line " ++ toString p.1 ++ " (" ++ String.ofList (Text.reprStr p.2)
      ++ ") is not a verbatim line of the editor's proposed text in "
      ++ "order; the reviewer removes whole lines and writes no prose"

/-- `{op.path: op for op in editor_output.entries}.get(path)`. -/
def editorOp (editorOutput : ThemeOutput) (path : String) : Option EntryOp :=
  editorOutput.entries.reverse.find? (·.path == path)

/-- What `_trim_capability_errors` has against one operation. -/
def opError (role : String) (editorOutput : ThemeOutput) (op : EntryOp) : Option String :=
  if op.action = "keep" then none
  else
    match editorOp editorOutput op.path with
    | none =>
      some (role ++ ": trim-only review returned " ++ op.action ++ " on " ++ op.path
        ++ ", which the editor never proposed "
        ++ "text for; the reviewer writes no prose of its own")
    | some editorOp =>
      if op.action = "delete" then
        if editorOp.action ≠ "delete" then
          some (role ++ ": trim-only review returned delete on " ++ op.path
            ++ "; it may only confirm an editor "
            ++ "delete, never delete an entry the editor proposed to keep or change")
        else none
      else if op.action ≠ "rewrite" ∧ op.action ≠ "new" then none
      else if op.action ≠ editorOp.action then
        some (role ++ ": trim-only review returned " ++ op.action ++ " on " ++ op.path
          ++ "; the editor proposed " ++ editorOp.action
          ++ " there, and the reviewer may only confirm or trim that operation")
      else
        match editorOp.text with
        | none =>
          some (role ++ ": trim-only review returned " ++ op.action ++ " on " ++ op.path
            ++ " but the editor's " ++ editorOp.action ++ " carries no text to trim")
        | some proposed =>
          (lineRemovalViolation (op.text.getD []) proposed).map fun violation =>
            role ++ ": trim-only review of " ++ op.path ++ ": " ++ violation

/-- **`_trim_capability_errors`**. -/
def trimCapabilityErrors (output : ThemeOutput) (role : String) (editorOutput : ThemeOutput) :
    List String :=
  output.entries.filterMap (opError role editorOutput)

/-- An operation on the entries, as `_consistency_errors` and `finalize` apply it. -/
def applyOp (entries : Entries) (op : EntryOp) : Entries :=
  if op.action = "delete" then Function.update entries op.path none
  else if op.action = "rewrite" ∨ op.action = "new" then
    Function.update entries op.path (some (canonicalText (op.text.getD [])))
  else entries

/-- **The final state** that a result leaves of a base. -/
def finalState (base : Entries) (output : ThemeOutput) : Entries :=
  output.entries.foldl applyOp base

/-- **A text without some of the lines of another**, each with its end. -/
def TrimmedFrom (text proposed : List Char) : Prop :=
  ∃ kept lines : List (List Char), (∀ line ∈ lines, '\n' ∉ line) ∧ kept.Sublist lines
    ∧ text = List.ended '\n' kept ∧ canonicalText proposed = List.ended '\n' lines

/-! ## The scan finds a way where there is one -/

theorem cons_sublist_append_cons {α : Type*} {a : α} {before : List α} (h : a ∉ before)
    (returned after : List α) :
    (a :: returned).Sublist (before ++ a :: after) ↔ returned.Sublist after := by
  induction before with
  | nil => exact List.cons_sublist_cons
  | cons b before ih =>
    rw [List.mem_cons, not_or] at h
    rw [← ih h.2]
    constructor
    · intro hsub
      cases hsub with
      | cons _ hsub => exact hsub
      | cons_cons _ hsub => exact absurd rfl h.1
    · exact List.Sublist.cons b

theorem scanLines_eq_none_iff (number : ℕ) (returned proposed : List (List Char)) :
    scanLines number returned proposed = none ↔ returned.Sublist proposed := by
  induction returned generalizing number proposed with
  | nil => exact ⟨fun _ => List.nil_sublist proposed, fun _ => rfl⟩
  | cons line returned ih =>
    by_cases hmem : line ∈ proposed
    · obtain ⟨before, after, rfl, hbefore⟩ := List.eq_append_cons_of_mem hmem
      have hdrop : (before ++ line :: after).dropWhile (· ≠ line) = line :: after := by
        have hall : ∀ x ∈ before, decide (x ≠ line) = true := fun x hx =>
          decide_eq_true fun heq => hbefore (heq ▸ hx)
        rw [List.dropWhile_append_of_pos hall]
        exact List.dropWhile_cons_of_neg (by simp)
      rw [cons_sublist_append_cons hbefore, ← ih (number + 1), scanLines, hdrop]
    · have hdrop : proposed.dropWhile (· ≠ line) = [] :=
        List.dropWhile_eq_nil_iff.mpr fun x hx =>
          decide_eq_true fun heq : x = line => hmem (heq ▸ hx)
      rw [scanLines, hdrop]
      exact ⟨fun h => (nomatch h), fun hsub => absurd (hsub.subset List.mem_cons_self) hmem⟩

theorem lineRemovalViolation_eq_none_iff (returnedText proposedText : List Char) :
    lineRemovalViolation returnedText proposedText = none
      ↔ (canonicalLines returnedText).Sublist (canonicalLines proposedText) := by
  unfold lineRemovalViolation
  rw [Option.map_eq_none_iff, scanLines_eq_none_iff]

/-! ## A text and its lines -/

theorem canonicalText_eq_ended (text : List Char) :
    ∃ lines : List (List Char), (∀ line ∈ lines, '\n' ∉ line)
      ∧ canonicalText text = List.ended '\n' lines
      ∧ canonicalLines text = lines ++ [[]] := by
  have hends : ∃ lines : List (List Char), (∀ line ∈ lines, '\n' ∉ line)
      ∧ canonicalText text = List.ended '\n' lines := by
    unfold canonicalText
    dsimp only
    split
    · exact ⟨[], fun line h => absurd h List.not_mem_nil, rfl⟩
    · obtain ⟨lines, rest, hclean, hrest, heq⟩ :=
        List.exists_ended '\n' (text.rdropWhile (· == '\n'))
      refine ⟨lines ++ [rest], fun line h => ?_, ?_⟩
      · rcases List.mem_append.mp h with h | h
        · exact hclean line h
        · rwa [List.mem_singleton.mp h]
      · rw [heq, List.ended_append, List.ended_cons, List.ended_nil, List.append_assoc]
  obtain ⟨lines, hclean, heq⟩ := hends
  refine ⟨lines, hclean, heq, ?_⟩
  have hsplit := @List.splitOn_ended _ _ _ _ _ hclean [] List.not_mem_nil
  unfold canonicalLines
  rw [heq]
  rwa [List.append_nil] at hsplit

/-- **Lines that are found again** make a text without some of the lines. -/
theorem trimmedFrom_of_sublist {returned proposed : List Char}
    (h : (canonicalLines returned).Sublist (canonicalLines proposed)) :
    TrimmedFrom (canonicalText returned) proposed := by
  obtain ⟨kept, -, hkept, hreturned⟩ := canonicalText_eq_ended returned
  obtain ⟨lines, hclean, hlines, hproposed⟩ := canonicalText_eq_ended proposed
  rw [hreturned, hproposed] at h
  exact ⟨kept, lines, hclean, (List.append_sublist_append_right [[]]).mp h, hkept, hlines⟩

theorem TrimmedFrom.subset {text proposed : List Char} (h : TrimmedFrom text proposed) :
    text ⊆ canonicalText proposed := by
  obtain ⟨kept, lines, -, hsub, rfl, hproposed⟩ := h
  intro c hc
  obtain ⟨line, hline, hc⟩ := List.mem_flatMap.mp hc
  rw [hproposed]
  exact List.mem_flatMap.mpr ⟨line, hsub.subset hline, hc⟩

/-! ## What a result leaves -/

/-- An operation that says what an entry is to be. -/
def EntryOp.Decides (op : EntryOp) : Prop :=
  op.action = "delete" ∨ op.action = "rewrite" ∨ op.action = "new"

def EditorProposes (editorOutput : ThemeOutput) (path : String) (proposed : List Char) : Prop :=
  ∃ op, editorOp editorOutput path = some op ∧ (op.action = "rewrite" ∨ op.action = "new")
    ∧ op.text = some proposed

theorem trimmed_of_opError {role : String} {editorOutput : ThemeOutput} {op : EntryOp}
    (h : opError role editorOutput op = none) (hop : op.action = "rewrite" ∨ op.action = "new") :
    ∃ proposed, EditorProposes editorOutput op.path proposed
      ∧ TrimmedFrom (canonicalText (op.text.getD [])) proposed := by
  have hkeep : op.action ≠ "keep" := by
    rcases hop with hop | hop <;> rw [hop] <;> decide
  have hdelete : op.action ≠ "delete" := by
    rcases hop with hop | hop <;> rw [hop] <;> decide
  have hwrites : ¬(op.action ≠ "rewrite" ∧ op.action ≠ "new") := fun hnone =>
    hop.elim hnone.1 hnone.2
  unfold opError at h
  rw [if_neg hkeep] at h
  cases heditor : editorOp editorOutput op.path with
  | none =>
    rw [heditor] at h
    cases h
  | some edited =>
    rw [heditor] at h
    dsimp only at h
    rw [if_neg hdelete, if_neg hwrites] at h
    by_cases hsame : op.action = edited.action
    · rw [if_neg fun hne => hne hsame] at h
      cases htext : edited.text with
      | none =>
        rw [htext] at h
        cases h
      | some proposed =>
        rw [htext] at h
        have hnone := Option.map_eq_none_iff.mp h
        rw [lineRemovalViolation_eq_none_iff] at hnone
        exact ⟨proposed, ⟨edited, heditor, hsame ▸ hop, htext⟩, trimmedFrom_of_sublist hnone⟩
    · rw [if_pos hsame] at h
      cases h

theorem applyOp_eq_some {entries : Entries} {op : EntryOp} {path : String} {text : List Char}
    (h : applyOp entries op path = some text) :
    entries path = some text ∧ ¬(op.path = path ∧ op.Decides)
      ∨ op.path = path ∧ (op.action = "rewrite" ∨ op.action = "new")
        ∧ text = canonicalText (op.text.getD []) := by
  unfold applyOp at h
  by_cases hpath : op.path = path
  · subst hpath
    by_cases hdelete : op.action = "delete"
    · rw [if_pos hdelete, Function.update_self] at h
      cases h
    · rw [if_neg hdelete] at h
      by_cases hwrites : op.action = "rewrite" ∨ op.action = "new"
      · rw [if_pos hwrites, Function.update_self] at h
        exact .inr ⟨rfl, hwrites, (Option.some.inj h).symm⟩
      · rw [if_neg hwrites] at h
        exact .inl ⟨h, fun hdecides => hdecides.2.elim hdelete hwrites⟩
  · refine .inl ⟨?_, fun hdecides => hpath hdecides.1⟩
    have hne : path ≠ op.path := fun heq => hpath heq.symm
    by_cases hdelete : op.action = "delete"
    · rwa [if_pos hdelete, Function.update_of_ne hne] at h
    · rw [if_neg hdelete] at h
      by_cases hwrites : op.action = "rewrite" ∨ op.action = "new"
      · rwa [if_pos hwrites, Function.update_of_ne hne] at h
      · rwa [if_neg hwrites] at h

theorem foldl_applyOp_eq_some {ops : List EntryOp} {base : Entries} {path : String}
    {text : List Char} (h : ops.foldl applyOp base path = some text) :
    base path = some text ∧ (∀ op ∈ ops, ¬(op.path = path ∧ op.Decides))
      ∨ ∃ op ∈ ops, op.path = path ∧ (op.action = "rewrite" ∨ op.action = "new")
        ∧ text = canonicalText (op.text.getD []) := by
  induction ops generalizing base with
  | nil => exact .inl ⟨h, fun op hop => absurd hop List.not_mem_nil⟩
  | cons op ops ih =>
    rcases ih h with ⟨hbase, hrest⟩ | ⟨op', hop', hwrites⟩
    · rcases applyOp_eq_some hbase with ⟨hbase, hop⟩ | hwrites
      · exact .inl ⟨hbase, List.forall_mem_cons.mpr ⟨hop, hrest⟩⟩
      · exact .inr ⟨op, List.mem_cons_self, hwrites⟩
    · exact .inr ⟨op', List.mem_cons_of_mem op hop', hwrites⟩

/-- **A review that is accepted only trims.** The check of two texts asks whether the lines of one
are found among those of the other, in order; and an entry of the final state that the result says
nothing about is that of the base, and any other is a text the editor proposed for it without some
of its lines. -/
theorem accepted_trims :
    (∀ returnedText proposedText, lineRemovalViolation returnedText proposedText = none
      ↔ (canonicalLines returnedText).Sublist (canonicalLines proposedText))
    ∧ ∀ (role : String) (editorOutput output : ThemeOutput),
      trimCapabilityErrors output role editorOutput = [] →
      ∀ (base : Entries) (path : String) (text : List Char),
        finalState base output path = some text →
        base path = some text ∧ (∀ op ∈ output.entries, ¬(op.path = path ∧ op.Decides))
          ∨ ∃ proposed, EditorProposes editorOutput path proposed ∧ TrimmedFrom text proposed := by
  refine ⟨lineRemovalViolation_eq_none_iff, ?_⟩
  intro role editorOutput output h base path text hfinal
  rcases foldl_applyOp_eq_some hfinal with hbase | ⟨op, hop, rfl, hwrites, rfl⟩
  · exact .inl hbase
  · exact .inr (trimmed_of_opError (List.filterMap_eq_nil_iff.mp h op hop) hwrites)

/-- The editor rewrites an entry. -/
def rewriting : ThemeOutput := ⟨[⟨"rewrite", "entries/t/e.md", some ['a', '\n']⟩]⟩

/-- The reviewer leaves it as it was. -/
def keeping : ThemeOutput := ⟨[⟨"keep", "entries/t/e.md", none⟩]⟩

/-- It is rewritten as proposed, but for a line. -/
theorem accepted_trims_rewriting :
    trimCapabilityErrors rewriting "reviewer" rewriting = [] ∧
      (∃ proposed, EditorProposes rewriting "entries/t/e.md" proposed
        ∧ TrimmedFrom ['a', '\n'] proposed) := by
  have haccepted : trimCapabilityErrors rewriting "reviewer" rewriting = [] := by decide +kernel
  refine ⟨haccepted, ?_⟩
  rcases accepted_trims.2 "reviewer" rewriting rewriting haccepted (fun _ => none)
    "entries/t/e.md" ['a', '\n'] (by decide +kernel) with ⟨hbase, -⟩ | h
  · cases hbase
  · exact h

/-- **What was kept is not what was proposed**: the result is accepted, and the entry is that of the
base. -/
theorem restored_not_trimmed :
    trimCapabilityErrors keeping "reviewer" rewriting = []
      ∧ finalState (fun _ => some ['b', '\n']) keeping "entries/t/e.md" = some ['b', '\n']
      ∧ (∀ proposed, EditorProposes rewriting "entries/t/e.md" proposed → proposed = ['a', '\n'])
      ∧ ¬ TrimmedFrom ['b', '\n'] ['a', '\n'] := by
  refine ⟨by decide +kernel, by decide +kernel, ?_, ?_⟩
  · rintro proposed ⟨op, hop, -, htext⟩
    obtain rfl := Option.some.inj hop
    exact (Option.some.inj htext).symm
  · intro h
    exact absurd (h.subset List.mem_cons_self) (by decide)

end TrimReview
