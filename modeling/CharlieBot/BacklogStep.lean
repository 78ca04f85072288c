import CharlieBot.Lib.Traverse
import CharlieBot.Lib.Yaml
import Mathlib.Data.List.Sort
import Mathlib.Data.Rat.Floor

/-!
# One step of an improvement loop

An improvement loop looks at its backlog – a list of items in a YAML file, or a mapping that
holds the list – and comes to one action: a revision that was asked for, a reset of items that are
in progress for too long, an approved item, a new idea, a scan, or nothing.

The order of the actions is as it should be wherever the step comes to one
(`Right.first`), and only a reset touches the file. But an item is an arbitrary mapping, and the
step reads some fields as though they were there: it raises for an approved item without a
title. A reset writes the bare list, so that a mapping loses its other keys; and the commit
behind it is tried once. `step_right_iff` says exactly when none of this matters.
-/

namespace Backlog

abbrev Item := List (Yaml × Yaml)

/-- `ImprovementLoopConfig`. -/
structure LoopConfig where
  role : String
  scopeFiles : List String
  idPrefix : String := ""
  language : String := "en"
  maxPending : ℤ := 10
  staleTimeoutHours : ℚ := 1
  /-- The timeout as `str` has it. -/
  staleTimeoutText : String := "1.0"
  stateFiles : List String := []
  verify : List String := []
  scanPrompt : String := ""
  ideaPrompt : String := ""
  extraRules : List String := []

/-- What the standard library reads in a text: the time of an ISO 8601 text in microseconds, one
without a zone being of UTC; whether a character is a digit to `str.isdigit`; and the value of
a decimal digit. -/
structure Python where
  fromisoformat : String → Option ℤ
  isdigit : Char → Bool
  decimal : Char → Option ℕ

/-! ## The document -/

/-- `_load_backlog`; nothing where the document holds no list of mappings. -/
def loadBacklog : Option Yaml → Option (List Item)
  | none => some []
  | some .null => some []
  | some (.seq items) => items.mapM Yaml.asMap
  | some (.map fields) =>
    match ((Yaml.get fields "items").or (Yaml.get fields "backlog")).getD (.seq []) with
    | .seq items => items.mapM Yaml.asMap
    | _ => none
  | some _ => none

def saveBacklog (items : List Item) : Yaml := .seq (items.map .map)

/-! ## Ids -/

/-- `int(text)` of digits. -/
def intOf (py : Python) (digits : List Char) : Option ℕ :=
  if digits.length ≤ Yaml.maxStrDigits then
    (digits.mapM py.decimal).map fun values => values.foldl (fun n value => 10 * n + value) 0
  else none

/-- `str(item.get('id', ''))`. -/
def idText (item : Item) : Option String := ((Yaml.get item "id").getD (.str "")).text

/-- The digits behind a prefix and a hyphen, up to the end of the text or a line feed there. -/
def digitsBehind (py : Python) (idPrefix text : List Char) : Option (List Char) :=
  if (idPrefix ++ ['-']).isPrefixOf text then
    let rest := text.drop (idPrefix.length + 1)
    let digits := if rest.getLast? = some '\n' then rest.dropLast else rest
    if !digits.isEmpty && digits.all fun c => (py.decimal c).isSome then some digits else none
  else none

/-- The number in the id of an item, zero where there is none; nothing where it raises. -/
def idNumber (py : Python) (idPrefix : String) (item : Item) : Option ℕ :=
  match idText item with
  | none => none
  | some text =>
    if idPrefix ≠ "" then
      match digitsBehind py idPrefix.toList text.toList with
      | some digits => intOf py digits
      | none => some 0
    else if !text.toList.isEmpty && text.toList.all py.isdigit then intOf py text.toList
    else some 0

/-- `f'\x7bn:03d\x7d'`. -/
def threeDigits (n : ℕ) : Option String :=
  (Yaml.intText n).map fun digits =>
    String.ofList (List.replicate (3 - digits.length) '0' ++ digits)

def nextId (py : Python) (items : List Item) (idPrefix : String) : Option String :=
  match items.mapM (idNumber py idPrefix) with
  | none => none
  | some numbers => (threeDigits (numbers.foldl max 0 + 1)).map fun digits =>
      if idPrefix ≠ "" then idPrefix ++ "-" ++ digits else digits

/-! ## Prompts -/

def backlogDescriptionRule : String :=
  "Description must stay concise: PURPOSE is exactly one short sentence; HOW is at most a few "
    ++ "short implementation bullets or sentences. Do not include long evidence dumps, grep "
    ++ "transcripts, full correctness proofs, exhaustive line-by-line implementation plans, or "
    ++ "benchmark speculation."

def languageRule (language : String) : String :=
  if language = "zh-CN" then
    "ALL text (title, description) in simplified Chinese. Field names in English."
  else "ALL text in English."

def stateFilesInstructions (stateFiles : List String) : String :=
  String.intercalate " " (stateFiles.map fun file =>
    if "e2e_report.json".toList.isSuffixOf file.toList then
      "Read " ++ file ++ " (read-only, do not modify)."
    else "Read " ++ file ++ " before acting.")

def promptHeader (cfg : LoopConfig) : List String :=
  ["You are the " ++ cfg.role ++ "."] ++ if cfg.scanPrompt ≠ "" then [cfg.scanPrompt] else []

def joinPrompt (parts : List String) (cfg : LoopConfig) : String :=
  let extra := String.intercalate " " cfg.extraRules
  String.intercalate " " (parts ++ if extra ≠ "" then [extra] else [])

def appendBacklogRules (parts : List String) (cfg : LoopConfig) : String :=
  joinPrompt (parts ++ [backlogDescriptionRule, languageRule cfg.language, "Commit and push."]) cfg

/-- `_build_implement_prompt`; it raises where there is no id or no title. -/
def buildImplementPrompt (item : Item) (cfg : LoopConfig) (path : String) : Option String :=
  match (Yaml.get item "id").bind Yaml.text, (Yaml.get item "title").bind Yaml.text,
    ((Yaml.get item "description").getD (.str "")).text with
  | some id, some title, some description =>
    some (joinPrompt
      (["You are the " ++ cfg.role ++ ".",
          "Implement backlog item " ++ id ++ ": \"" ++ title ++ "\".",
          "Description: " ++ description ++ ".",
          "Files in scope: " ++ String.intercalate ", " cfg.scopeFiles ++ "."]
        ++ (if cfg.stateFiles ≠ [] then [stateFilesInstructions cfg.stateFiles] else [])
        ++ (if cfg.verify ≠ [] then
          ["After implementation, run: " ++ String.intercalate "; " cfg.verify ++ "."] else [])
        ++ ["Then update " ++ path ++ ": set item " ++ id ++ " status to done. If implementation "
            ++ "fails, set status to failed with failed_reason. Commit and push.",
          "IMPORTANT: Before starting work, update " ++ path ++ ": set item " ++ id
            ++ " status to in_progress and add field in_progress_at with the current UTC time in "
            ++ "ISO 8601 format. Commit and push."]) cfg)
  | _, _, _ => none

def buildGeneratePrompt (py : Python) (items : List Item) (cfg : LoopConfig) (path : String) :
    Option String :=
  (nextId py items cfg.idPrefix).map fun id =>
    let format := if cfg.idPrefix ≠ "" then cfg.idPrefix ++ "-NNN" else "NNN (zero-padded)"
    appendBacklogRules
      (promptHeader cfg ++ (if cfg.ideaPrompt ≠ "" then [cfg.ideaPrompt] else [])
        ++ ["Generate exactly ONE new improvement idea not already in the backlog. Append to "
          ++ path ++ " with fields: id (use " ++ id ++ ", format: " ++ format ++ "), title, "
          ++ "description (PURPOSE first, then HOW), status: pending, created (ISO 8601), "
          ++ "priority."]) cfg

def buildScanPrompt (cfg : LoopConfig) (path : String) : String :=
  appendBacklogRules (promptHeader cfg ++ ["If issues found, create ONE backlog item in " ++ path
    ++ " (status: pending). If clean, do nothing."]) cfg

/-! ## The steps -/

def hasStatus (item : Item) (status : String) : Bool :=
  (Yaml.get item "status").any (·.isText status)

/-- Whether an item has feedback that asks for a revision. -/
def asksRevision (item : Item) : Bool :=
  hasStatus item "revision_requested" && (Yaml.get item "revision_feedback").any Yaml.truthy

/-- `_check_revision`: the prompt, where an item asks for a revision; it raises where that has no
id. -/
def checkRevision (items : List Item) (path : String) : Option (Option String) :=
  match items.find? asksRevision with
  | none => some none
  | some item =>
    match (Yaml.get item "id").bind Yaml.text,
      (Yaml.get item "revision_feedback").bind Yaml.text with
    | some id, some feedback =>
      some (some ("Backlog item " ++ id ++ " has revision feedback: \"" ++ feedback ++ "\". "
        ++ "Read the backlog file at " ++ path ++ ". Update item " ++ id ++ ": modify title and/or "
        ++ "description based on the feedback. Set status to pending. Remove revision_feedback and "
        ++ "revision_requested_at fields. Commit and push."))
    | _, _ => none

/-- When an item in progress was started, as far as that can be read. -/
def startedAt (py : Python) (item : Item) : Option ℤ :=
  if hasStatus item "in_progress" then
    let since := (Yaml.get item "in_progress_at").getD .null
    let timestamp := if since.truthy then since else (Yaml.get item "created").getD .null
    if timestamp.truthy then
      match timestamp with
      | .str text => py.fromisoformat text
      | .datetime micros _ _ => some micros
      | _ => none
    else none
  else none

/-- Whether an item has been in progress for longer than the timeout. -/
def isStale (py : Python) (cfg : LoopConfig) (now : ℤ) (item : Item) : Bool :=
  match startedAt py item with
  | none => false
  | some started => decide (cfg.staleTimeoutHours < ((now - started : ℤ) : ℚ) / 3600000000)

def reset (cfg : LoopConfig) (item : Item) : Item :=
  Yaml.set (Yaml.set item "status" (.str "failed")) "failed_reason"
    (.str ("Timed out after " ++ cfg.staleTimeoutText ++ " hour(s)"))

/-- `_handle_stale`: the items that are written, where any was reset. -/
def handleStale (py : Python) (cfg : LoopConfig) (now : ℤ) (items : List Item) :
    Option (List Item) :=
  if items.any (isStale py cfg now) then
    some (items.map fun item => if isStale py cfg now item then reset cfg item else item)
  else none

/-- `_PRIORITY_ORDER.get(item.get('priority', 'low'), 2)`; it raises where the priority has no
hash. -/
def rank (item : Item) : Option ℕ :=
  match (Yaml.get item "priority").getD (.str "low") with
  | .str "high" => some 0
  | .str "medium" => some 1
  | .str "low" => some 2
  | priority => if priority.hashable then some 2 else none

/-- The key an item is sorted by. -/
def rankOf (item : Item) : ℕ := (rank item).getD 2

/-- The first of the approved items, sorted; it raises where a priority has no hash. -/
def chosen (approved : List Item) : Option Item :=
  if approved.all fun item => (rank item).isSome then
    (approved.insertionSort fun a b => rankOf a ≤ rankOf b).head?
  else none

inductive Action where
  | revision
  | staleReset
  | implement
  | generate
  | scan
  | noop
  deriving DecidableEq

structure Step where
  action : Action
  prompt : Option String
  file : Option Yaml
  committed : Option Yaml := none

/-- `determine_action` over the items, where `git` says whether its commit goes through. -/
def determine (py : Python) (cfg : LoopConfig) (path : String) (file : Option Yaml)
    (items : List Item) (now : ℤ) (git : Bool) : Option Step :=
  match checkRevision items path with
  | none => none
  | some (some prompt) => some { action := .revision, prompt := some prompt, file }
  | some none =>
    match handleStale py cfg now items with
    | some written =>
      let document := saveBacklog written
      some { action := .staleReset, prompt := none, file := some document,
             committed := if git then some document else none }
    | none =>
      let approved := items.filter fun item => hasStatus item "approved"
      if !approved.isEmpty then
        ((chosen approved).bind fun item => buildImplementPrompt item cfg path).map fun prompt =>
          { action := .implement, prompt := some prompt, file }
      else
        let hasActive := items.any fun item =>
          hasStatus item "approved" || hasStatus item "in_progress"
        let pendingCount := items.countP fun item => hasStatus item "pending"
        if !hasActive && decide ((pendingCount : ℤ) < cfg.maxPending) then
          (buildGeneratePrompt py items cfg path).map fun prompt =>
            { action := .generate, prompt := some prompt, file }
        else if !hasActive then
          some { action := .scan, prompt := some (buildScanPrompt cfg path), file }
        else some { action := .noop, prompt := none, file }

/-- `determine_action`; nothing where it raises. -/
def determineAction (py : Python) (cfg : LoopConfig) (path : String) (file : Option Yaml)
    (now : ℤ) (git : Bool) : Option Step :=
  (loadBacklog file).bind fun items => determine py cfg path file items now git

/-! ## What is claimed -/

section Claim

variable (py : Python) (cfg : LoopConfig) (path : String) (items : List Item) (now : ℤ)

def isApproved (item : Item) : Bool := hasStatus item "approved"

def isActive (item : Item) : Bool := hasStatus item "approved" || hasStatus item "in_progress"

/-- **Whether an action applies.** -/
def applies : Action → Bool
  | .revision => items.any asksRevision
  | .staleReset => items.any (isStale py cfg now)
  | .implement => items.any isApproved
  | .generate => !items.any isActive
      && decide (((items.countP fun item => hasStatus item "pending" : ℕ) : ℤ) < cfg.maxPending)
  | .scan => !items.any isActive
  | .noop => true

def order : List Action := [.revision, .staleReset, .implement, .generate, .scan, .noop]

/-- **What a reset may do to an item**: nothing, or, where it is stale, to its status and the
reason of its failure. -/
structure Resets (old new : Item) : Prop where
  fresh : isStale py cfg now old = false → new = old
  status : isStale py cfg now old = true →
    (Yaml.get new "status").any (·.isText "failed") = true
  reason : isStale py cfg now old = true → Yaml.get new "failed_reason"
    = some (.str ("Timed out after " ++ cfg.staleTimeoutText ++ " hour(s)"))
  others : (new.filter fun field =>
      !(field.1.isText "status" || field.1.isText "failed_reason"))
    = old.filter fun field => !(field.1.isText "status" || field.1.isText "failed_reason")

/-- The document with other items in place of those it holds. -/
def withItems : Option Yaml → List Item → Option Yaml
  | some (.map fields), items =>
    let key := if (Yaml.get fields "items").isSome then "items" else "backlog"
    some (.map (Yaml.set fields key (saveBacklog items)))
  | _, items => some (saveBacklog items)

/-- **A step is right.** -/
structure Right (file : Option Yaml) (step : Step) : Prop where
  first : order.find? (applies py cfg items now) = some step.action
  /-- What is implemented is an approved item of highest priority. -/
  highest : step.action = .implement → ∃ item ∈ items, isApproved item = true
    ∧ (∀ other ∈ items, isApproved other = true → rankOf item ≤ rankOf other)
    ∧ buildImplementPrompt item cfg path = step.prompt
  /-- Only a reset changes the file. -/
  untouched : step.action ≠ .staleReset → step.file = file
  /-- A reset changes the stale items, and of these two fields. -/
  reset : step.action = .staleReset → ∃ written, List.Forall₂ (Resets py cfg now) items written
    ∧ step.file = withItems file written
  /-- What was written is committed, or a later step commits it. -/
  committed : step.action = .staleReset → step.committed = step.file ∨
    ∃ later ≥ now, ∃ again, determineAction py cfg path step.file later true = some again
      ∧ again.committed.isSome = true ∧ again.committed = again.file

/-- **When a step goes well.** -/
structure Fine (file : Option Yaml) (git : Bool) : Prop where
  revision : ∀ item, items.find? asksRevision = some item →
    ((Yaml.get item "id").bind Yaml.text).isSome = true
      ∧ ((Yaml.get item "revision_feedback").bind Yaml.text).isSome = true
  /-- Only of a list are items reset, and the commit goes through, or there is another item in
  progress that will be reset. -/
  reset : order.find? (applies py cfg items now) = some .staleReset →
    (∃ list, file = some (.seq list))
      ∧ (git = true ∨ ∃ item ∈ items, (startedAt py item).isSome = true
        ∧ isStale py cfg now item = false)
  /-- The approved items have priorities that can be looked up, and the one that is chosen has an
  id and a title. -/
  implement : order.find? (applies py cfg items now) = some .implement →
    (∀ item ∈ items, isApproved item = true → (rank item).isSome = true)
      ∧ ∀ item, chosen (items.filter isApproved) = some item →
        ((Yaml.get item "id").bind Yaml.text).isSome = true
          ∧ ((Yaml.get item "title").bind Yaml.text).isSome = true
          ∧ (((Yaml.get item "description").getD (.str "")).text).isSome = true
  /-- An id that has a number has one that can be read, and the next one can be written. -/
  generate : order.find? (applies py cfg items now) = some .generate →
    (∀ item ∈ items, (idNumber py cfg.idPrefix item).isSome = true)
      ∧ ∀ numbers, items.mapM (idNumber py cfg.idPrefix) = some numbers →
        (threeDigits (numbers.foldl max 0 + 1)).isSome = true

end Claim

/-! ## One action at a time -/

section Steps

variable (py : Python) (cfg : LoopConfig) (path : String) (file : Option Yaml)
  (items : List Item) (now : ℤ) (git : Bool)

/-- The items behind a reset. -/
def written : List Item :=
  items.map fun item => if isStale py cfg now item then reset cfg item else item

/-- What is done where an action is the first that applies. -/
def stepOf : Action → Option Step
  | .revision => ((checkRevision items path).bind id).map fun prompt =>
      { action := .revision, prompt := some prompt, file }
  | .staleReset =>
    some { action := .staleReset, prompt := none,
           file := some (saveBacklog (written py cfg items now)),
           committed := if git then some (saveBacklog (written py cfg items now)) else none }
  | .implement =>
    ((chosen (items.filter isApproved)).bind fun item => buildImplementPrompt item cfg path).map
      fun prompt => { action := .implement, prompt := some prompt, file }
  | .generate => (buildGeneratePrompt py items cfg path).map fun prompt =>
      { action := .generate, prompt := some prompt, file }
  | .scan => some { action := .scan, prompt := some (buildScanPrompt cfg path), file }
  | .noop => some { action := .noop, prompt := none, file }

variable {py cfg path file items now git}

theorem checkRevision_of_find {item : Item} (h : items.find? asksRevision = some item) :
    ((checkRevision items path).bind id).isSome = true
      ↔ ((Yaml.get item "id").bind Yaml.text).isSome = true
        ∧ ((Yaml.get item "revision_feedback").bind Yaml.text).isSome = true := by
  unfold checkRevision
  rw [h]
  dsimp only
  cases (Yaml.get item "id").bind Yaml.text with
  | none => simp
  | some id =>
    cases (Yaml.get item "revision_feedback").bind Yaml.text with
    | none => simp
    | some feedback => simp

theorem checkRevision_of_none (h : items.find? asksRevision = none) :
    checkRevision items path = some none := by
  unfold checkRevision
  rw [h]

theorem checkRevision_cases {item : Item} (h : items.find? asksRevision = some item) :
    checkRevision items path = none ∨ ∃ prompt, checkRevision items path = some (some prompt) := by
  unfold checkRevision
  rw [h]
  dsimp only
  split
  · exact .inr ⟨_, rfl⟩
  · exact .inl rfl

theorem any_asksRevision : items.any asksRevision = (items.find? asksRevision).isSome := by
  rw [Bool.eq_iff_iff, List.any_eq_true, List.find?_isSome]

theorem find_order_of_revision (h : items.any asksRevision = true) :
    order.find? (applies py cfg items now) = some .revision := by
  have happlies : applies py cfg items now .revision = true := h
  unfold order
  rw [List.find?_cons, happlies]

theorem find_order_of_stale (hrevision : items.any asksRevision = false)
    (h : items.any (isStale py cfg now) = true) :
    order.find? (applies py cfg items now) = some .staleReset := by
  have hnot : applies py cfg items now .revision = false := hrevision
  have happlies : applies py cfg items now .staleReset = true := h
  unfold order
  rw [List.find?_cons, hnot, List.find?_cons, happlies]

theorem isEmpty_filter_isApproved :
    (!(items.filter isApproved).isEmpty) = items.any isApproved := by
  rw [Bool.eq_iff_iff, Bool.not_eq_true', List.isEmpty_eq_false_iff, ne_eq,
    List.filter_eq_nil_iff, List.any_eq_true]
  push Not
  rfl

/-- **A step does what the first action that applies is for.** -/
theorem determine_eq_stepOf {action : Action}
    (h : order.find? (applies py cfg items now) = some action) :
    determine py cfg path file items now git = stepOf py cfg path file items now git action := by
  unfold determine
  cases hrevision : items.any asksRevision with
  | true =>
    rw [find_order_of_revision hrevision] at h
    cases h
    obtain ⟨item, hitem⟩ := Option.isSome_iff_exists.mp (any_asksRevision.symm.trans hrevision)
    unfold stepOf
    rcases checkRevision_cases hitem with hraises | ⟨prompt, hprompt⟩
    · rw [hraises]
      rfl
    · rw [hprompt]
      rfl
  | false =>
    have hnone : items.find? asksRevision = none := by
      rw [any_asksRevision, Option.isSome_eq_false_iff, Option.isNone_iff_eq_none] at hrevision
      exact hrevision
    rw [checkRevision_of_none hnone]
    dsimp only
    unfold handleStale
    cases hstale : items.any (isStale py cfg now) with
    | true =>
      rw [find_order_of_stale hrevision hstale] at h
      cases h
      rw [if_pos rfl]
      rfl
    | false =>
      rw [if_neg Bool.false_ne_true]
      have hfirst : applies py cfg items now .revision = false := hrevision
      have hsecond : applies py cfg items now .staleReset = false := hstale
      unfold order at h
      rw [List.find?_cons, hfirst, List.find?_cons, hsecond, List.find?_cons] at h
      dsimp only at h ⊢
      have hempty : (!(items.filter fun item => hasStatus item "approved").isEmpty)
          = applies py cfg items now .implement := isEmpty_filter_isApproved
      rw [hempty]
      cases himplement : applies py cfg items now .implement with
      | true =>
        rw [himplement] at h
        cases h
        rw [if_pos rfl]
        rfl
      | false =>
        rw [himplement, List.find?_cons] at h
        dsimp only at h
        rw [if_neg Bool.false_ne_true]
        show (if applies py cfg items now .generate then _ else _) = _
        cases hgenerate : applies py cfg items now .generate with
        | true =>
          rw [hgenerate] at h
          cases h
          rw [if_pos rfl]
          rfl
        | false =>
          rw [hgenerate, List.find?_cons] at h
          dsimp only at h
          rw [if_neg Bool.false_ne_true]
          show (if applies py cfg items now .scan then _ else _) = _
          cases hscan : applies py cfg items now .scan with
          | true =>
            rw [hscan] at h
            cases h
            rw [if_pos rfl]
            rfl
          | false =>
            rw [hscan, List.find?_cons] at h
            cases h
            rw [if_neg Bool.false_ne_true]
            rfl

theorem action_of_stepOf {action : Action} {step : Step}
    (h : stepOf py cfg path file items now git action = some step) : step.action = action := by
  cases action with
  | revision =>
    obtain ⟨prompt, -, rfl⟩ := Option.map_eq_some_iff.mp h
    rfl
  | staleReset =>
    cases h
    rfl
  | implement =>
    obtain ⟨prompt, -, rfl⟩ := Option.map_eq_some_iff.mp h
    rfl
  | generate =>
    obtain ⟨prompt, -, rfl⟩ := Option.map_eq_some_iff.mp h
    rfl
  | scan =>
    cases h
    rfl
  | noop =>
    cases h
    rfl

theorem file_of_stepOf {action : Action} {step : Step} (hne : action ≠ .staleReset)
    (h : stepOf py cfg path file items now git action = some step) :
    step.file = file ∧ step.committed = none := by
  cases action with
  | revision =>
    obtain ⟨prompt, -, rfl⟩ := Option.map_eq_some_iff.mp h
    exact ⟨rfl, rfl⟩
  | staleReset => exact absurd rfl hne
  | implement =>
    obtain ⟨prompt, -, rfl⟩ := Option.map_eq_some_iff.mp h
    exact ⟨rfl, rfl⟩
  | generate =>
    obtain ⟨prompt, -, rfl⟩ := Option.map_eq_some_iff.mp h
    exact ⟨rfl, rfl⟩
  | scan =>
    cases h
    exact ⟨rfl, rfl⟩
  | noop =>
    cases h
    exact ⟨rfl, rfl⟩

variable (py cfg items now) in
theorem exists_first : ∃ action, order.find? (applies py cfg items now) = some action := by
  have hsome : (order.find? (applies py cfg items now)).isSome = true := by
    rw [List.find?_isSome]
    exact ⟨.noop, by decide, rfl⟩
  exact Option.isSome_iff_exists.mp hsome

theorem applies_of_first {action : Action}
    (h : order.find? (applies py cfg items now) = some action) :
    applies py cfg items now action = true :=
  List.find?_some h

/-! ## The chosen item -/

/-- **What is chosen is approved and of highest priority.** -/
theorem chosen_spec {approved : List Item} {item : Item} (h : chosen approved = some item) :
    item ∈ approved ∧ ∀ other ∈ approved, rankOf item ≤ rankOf other := by
  unfold chosen at h
  split at h
  · cases hsorted : approved.insertionSort (fun a b => rankOf a ≤ rankOf b) with
    | nil =>
      rw [hsorted] at h
      cases h
    | cons first rest =>
      rw [hsorted] at h
      cases h
      have hmem : ∀ other, other ∈ approved ↔ other = item ∨ other ∈ rest := fun other => by
        rw [← List.mem_insertionSort (fun a b => rankOf a ≤ rankOf b), hsorted, List.mem_cons]
      refine ⟨(hmem item).mpr (.inl rfl), fun other hother => ?_⟩
      have : Std.Total fun a b : Item => rankOf a ≤ rankOf b := ⟨fun a b => Nat.le_total _ _⟩
      have : IsTrans Item fun a b => rankOf a ≤ rankOf b := ⟨fun _ _ _ => Nat.le_trans⟩
      have hpairwise := List.pairwise_insertionSort (fun a b : Item => rankOf a ≤ rankOf b) approved
      rw [hsorted, List.pairwise_cons] at hpairwise
      rcases (hmem other).mp hother with rfl | hrest
      · exact Nat.le_refl _
      · exact hpairwise.1 other hrest
  · cases h

theorem chosen_isSome {approved : List Item} (hne : approved ≠ []) :
    (chosen approved).isSome = true ↔ ∀ item ∈ approved, (rank item).isSome = true := by
  unfold chosen
  rw [← List.all_eq_true]
  split
  · next hall =>
    refine iff_of_true ?_ hall
    rw [List.isSome_head?]
    intro hnil
    have hlength := List.length_insertionSort (fun a b => rankOf a ≤ rankOf b) approved
    rw [hnil] at hlength
    exact hne (List.eq_nil_of_length_eq_zero hlength.symm)
  · next hall => exact iff_of_false Bool.false_ne_true hall

theorem buildImplementPrompt_isSome {item : Item} :
    (buildImplementPrompt item cfg path).isSome = true
      ↔ ((Yaml.get item "id").bind Yaml.text).isSome = true
        ∧ ((Yaml.get item "title").bind Yaml.text).isSome = true
        ∧ (((Yaml.get item "description").getD (.str "")).text).isSome = true := by
  unfold buildImplementPrompt
  cases (Yaml.get item "id").bind Yaml.text with
  | none => simp
  | some id =>
    cases (Yaml.get item "title").bind Yaml.text with
    | none => simp
    | some title =>
      cases ((Yaml.get item "description").getD (.str "")).text with
      | none => simp
      | some description => simp

theorem nextId_isSome {idPrefix : String} : (nextId py items idPrefix).isSome = true
    ↔ (∀ item ∈ items, (idNumber py idPrefix item).isSome = true)
      ∧ ∀ numbers, items.mapM (idNumber py idPrefix) = some numbers →
        (threeDigits (numbers.foldl max 0 + 1)).isSome = true := by
  unfold nextId
  rw [← List.isSome_mapM_iff]
  cases items.mapM (idNumber py idPrefix) with
  | none => simp
  | some numbers => simp

/-! ## A reset -/

theorem get_reset_status (item : Item) :
    Yaml.get (reset cfg item) "status" = some (.str "failed") := by
  unfold reset
  rw [Yaml.get_set_of_ne _ _ (by decide), Yaml.get_set_self]

theorem hasStatus_reset {item : Item} {status : String} (hne : status ≠ "failed") :
    hasStatus (reset cfg item) status = false := by
  unfold hasStatus
  rw [get_reset_status]
  exact beq_false_of_ne (Ne.symm hne)

theorem resets_written (item : Item) : Resets py cfg now item
    (if isStale py cfg now item then reset cfg item else item) := by
  cases hstale : isStale py cfg now item with
  | false =>
    rw [if_neg Bool.false_ne_true]
    exact ⟨fun _ => rfl, fun h => absurd (hstale.symm.trans h) Bool.false_ne_true,
      fun h => absurd (hstale.symm.trans h) Bool.false_ne_true, rfl⟩
  | true =>
    rw [if_pos rfl]
    refine ⟨fun h => absurd (h.symm.trans hstale) Bool.false_ne_true, fun _ => ?_, fun _ => ?_, ?_⟩
    · rw [get_reset_status]
      rfl
    · exact Yaml.get_set_self _ _ _
    · unfold reset
      rw [Yaml.others_set _ _ (fun x => !(x.isText "status" || x.isText "failed_reason"))
          fun x hx => by rw [hx, Bool.or_true]; rfl,
        Yaml.others_set _ _ (fun x => !(x.isText "status" || x.isText "failed_reason"))
          fun x hx => by rw [hx, Bool.true_or]; rfl]

theorem forall₂_resets_written :
    List.Forall₂ (Resets py cfg now) items (written py cfg items now) :=
  List.forall₂_map_right_iff.mpr (List.forall₂_same.mpr fun item _ => resets_written item)

theorem loadBacklog_saveBacklog (items : List Item) :
    loadBacklog (some (saveBacklog items)) = some items := by
  show (items.map Yaml.map).mapM Yaml.asMap = some items
  rw [List.mapM_map]
  induction items with
  | nil => rfl
  | cons item items ih =>
    rw [List.mapM_cons, ih]
    rfl

theorem any_asksRevision_written (h : items.any asksRevision = false) :
    (written py cfg items now).any asksRevision = false := by
  rw [List.any_eq_false] at h ⊢
  intro item hitem
  obtain ⟨old, hold, rfl⟩ := List.mem_map.mp hitem
  split
  · unfold asksRevision
    rw [hasStatus_reset (by decide), Bool.false_and]
    exact Bool.false_ne_true
  · exact h old hold

/-- **What a later step may reset** of what a reset left: an item in progress that was not stale
yet. -/
theorem any_isStale_written {later : ℤ} :
    (written py cfg items now).any (isStale py cfg later) = true
      ↔ ∃ item ∈ items, isStale py cfg now item = false ∧ isStale py cfg later item = true := by
  rw [List.any_eq_true]
  constructor
  · rintro ⟨item, hitem, hstale⟩
    obtain ⟨old, hold, rfl⟩ := List.mem_map.mp hitem
    split at hstale
    · have hnone : startedAt py (reset cfg old) = none := by
        unfold startedAt
        rw [hasStatus_reset (by decide), if_neg Bool.false_ne_true]
      unfold isStale at hstale
      rw [hnone] at hstale
      cases hstale
    · next hfresh => exact ⟨old, hold, Bool.eq_false_iff.mpr hfresh, hstale⟩
  · rintro ⟨old, hold, hfresh, hstale⟩
    refine ⟨old, List.mem_map.mpr ⟨old, hold, ?_⟩, hstale⟩
    rw [hfresh, if_neg Bool.false_ne_true]

/-- **Every item in progress is stale at last.** -/
theorem exists_isStale {item : Item} (h : (startedAt py item).isSome = true) (now : ℤ) :
    ∃ later ≥ now, isStale py cfg later item = true := by
  obtain ⟨started, hstarted⟩ := Option.isSome_iff_exists.mp h
  refine ⟨max now (started + (⌊cfg.staleTimeoutHours * 3600000000⌋ + 1)), le_max_left _ _, ?_⟩
  unfold isStale
  rw [hstarted]
  refine decide_eq_true ?_
  rw [lt_div_iff₀ (by norm_num)]
  have hlater : (⌊cfg.staleTimeoutHours * 3600000000⌋ + 1 : ℤ)
      ≤ max now (started + (⌊cfg.staleTimeoutHours * 3600000000⌋ + 1)) - started := by
    have hmax := le_max_right now (started + (⌊cfg.staleTimeoutHours * 3600000000⌋ + 1))
    omega
  calc cfg.staleTimeoutHours * 3600000000
      < ((⌊cfg.staleTimeoutHours * 3600000000⌋ + 1 : ℤ) : ℚ) := by
        push_cast
        exact Int.lt_floor_add_one _
    _ ≤ _ := Int.cast_le.mpr hlater

variable (py cfg path now) in
/-- **A later step commits what a reset wrote** exactly where another item is in progress. -/
theorem later_commits_iff (hrevision : items.any asksRevision = false) :
    (∃ later ≥ now, ∃ again, determineAction py cfg path
        (some (saveBacklog (written py cfg items now))) later true = some again
        ∧ again.committed.isSome = true ∧ again.committed = again.file)
      ↔ ∃ item ∈ items, (startedAt py item).isSome = true ∧ isStale py cfg now item = false := by
  have hload : ∀ later, determineAction py cfg path
      (some (saveBacklog (written py cfg items now))) later true
        = determine py cfg path (some (saveBacklog (written py cfg items now)))
            (written py cfg items now) later true := fun later => by
    unfold determineAction
    rw [loadBacklog_saveBacklog]
    rfl
  constructor
  · rintro ⟨later, -, again, hagain, hsome, -⟩
    rw [hload] at hagain
    obtain ⟨action, hfirst⟩ := exists_first py cfg (written py cfg items now) later
    rw [determine_eq_stepOf hfirst] at hagain
    have hreset : action = .staleReset := by
      by_contra hne
      rw [(file_of_stepOf hne hagain).2] at hsome
      cases hsome
    subst hreset
    have hstale := List.find?_some hfirst
    obtain ⟨item, hitem, hfresh, hlater⟩ := any_isStale_written.mp hstale
    refine ⟨item, hitem, ?_, hfresh⟩
    unfold isStale at hlater
    cases hstarted : startedAt py item with
    | none =>
      rw [hstarted] at hlater
      cases hlater
    | some started => rfl
  · rintro ⟨item, hitem, hstarted, hfresh⟩
    obtain ⟨later, hge, hlater⟩ := exists_isStale hstarted now
    have hfirst := find_order_of_stale (any_asksRevision_written hrevision)
      (any_isStale_written.mpr ⟨item, hitem, hfresh, hlater⟩)
    exact ⟨later, hge, _, (hload later).trans ((determine_eq_stepOf hfirst).trans rfl), rfl, rfl⟩

/-! ## The main result -/

theorem file_of_stale (hload : loadBacklog file = some items)
    (hstale : items.any (isStale py cfg now) = true) :
    (∃ list, file = some (.seq list)) ∨ ∃ fields, file = some (.map fields) := by
  have hne : items ≠ [] := fun hnil => by
    rw [hnil] at hstale
    cases hstale
  unfold loadBacklog at hload
  split at hload
  · exact absurd (Option.some.inj hload).symm hne
  · exact absurd (Option.some.inj hload).symm hne
  · exact .inl ⟨_, rfl⟩
  · exact .inr ⟨_, rfl⟩
  · cases hload

theorem right_reset_iff (hload : loadBacklog file = some items)
    (hfirst : order.find? (applies py cfg items now) = some .staleReset)
    (hrevision : items.any asksRevision = false) :
    (∃ step, stepOf py cfg path file items now git .staleReset = some step
        ∧ Right py cfg path items now file step)
      ↔ (∃ list, file = some (.seq list)) ∧ (git = true ∨ ∃ item ∈ items,
          (startedAt py item).isSome = true ∧ isStale py cfg now item = false) := by
  have hlater := later_commits_iff py cfg path now hrevision
  constructor
  · rintro ⟨step, hstep, hright⟩
    cases hstep
    refine ⟨?_, ?_⟩
    · rcases file_of_stale hload (applies_of_first hfirst) with hlist | ⟨fields, rfl⟩
      · exact hlist
      · obtain ⟨other, -, hfile⟩ := hright.reset rfl
        cases hfile
    · cases hgit : git with
      | true => exact .inl rfl
      | false =>
        right
        rcases hright.committed rfl with hnow | hthen
        · rw [hgit] at hnow
          cases hnow
        · exact hlater.mp hthen
  · rintro ⟨⟨list, rfl⟩, hgit⟩
    refine ⟨_, rfl, hfirst, fun h => (nomatch h), fun h => absurd rfl h,
      fun _ => ⟨_, forall₂_resets_written, rfl⟩, fun _ => ?_⟩
    rcases hgit with rfl | hthen
    · exact .inl rfl
    · exact .inr (hlater.mpr hthen)

theorem right_of_stepOf {action : Action} {step : Step}
    (hfirst : order.find? (applies py cfg items now) = some action) (hne : action ≠ .staleReset)
    (h : stepOf py cfg path file items now git action = some step) :
    Right py cfg path items now file step := by
  have haction := action_of_stepOf h
  refine ⟨hfirst.trans (congrArg some haction.symm), fun himplement => ?_,
    fun _ => (file_of_stepOf hne h).1, fun hreset => absurd (haction.symm.trans hreset) hne,
    fun hreset => absurd (haction.symm.trans hreset) hne⟩
  rw [haction] at himplement
  subst himplement
  obtain ⟨prompt, hprompt, rfl⟩ := Option.map_eq_some_iff.mp h
  obtain ⟨item, hitem, hbuilt⟩ := Option.bind_eq_some_iff.mp hprompt
  obtain ⟨hmem, hhighest⟩ := chosen_spec hitem
  rw [List.mem_filter] at hmem
  exact ⟨item, hmem.1, hmem.2, fun other hother happroved =>
    hhighest other (List.mem_filter.mpr ⟨hother, happroved⟩), hbuilt⟩

theorem exists_right_iff {action : Action}
    (hfirst : order.find? (applies py cfg items now) = some action) (hne : action ≠ .staleReset) :
    (∃ step, stepOf py cfg path file items now git action = some step
        ∧ Right py cfg path items now file step)
      ↔ (stepOf py cfg path file items now git action).isSome = true := by
  rw [Option.isSome_iff_exists]
  exact ⟨fun ⟨step, hstep, _⟩ => ⟨step, hstep⟩,
    fun ⟨step, hstep⟩ => ⟨step, hstep, right_of_stepOf hfirst hne hstep⟩⟩

theorem stepOf_implement_isSome (hany : items.any isApproved = true) :
    (stepOf py cfg path file items now git .implement).isSome = true
      ↔ (∀ item ∈ items, isApproved item = true → (rank item).isSome = true)
        ∧ ∀ item, chosen (items.filter isApproved) = some item →
          ((Yaml.get item "id").bind Yaml.text).isSome = true
            ∧ ((Yaml.get item "title").bind Yaml.text).isSome = true
            ∧ (((Yaml.get item "description").getD (.str "")).text).isSome = true := by
  have hne : items.filter isApproved ≠ [] := by
    rw [← isEmpty_filter_isApproved] at hany
    intro hnil
    rw [hnil] at hany
    cases hany
  have hall : (∀ item ∈ items, isApproved item = true → (rank item).isSome = true)
      ↔ (chosen (items.filter isApproved)).isSome = true := by
    rw [chosen_isSome hne]
    simp only [List.mem_filter, and_imp]
  rw [hall]
  unfold stepOf
  dsimp only
  rw [Option.isSome_map]
  cases hchosen : chosen (items.filter isApproved) with
  | none => simp
  | some item =>
    rw [Option.bind_some, buildImplementPrompt_isSome]
    simp only [Option.isSome_some, Option.some.injEq, forall_eq', true_and]

end Steps

/-- **When a step is right.** For every document, at every moment, the step comes to the action it
has to, touches what it may, and sees its change committed, exactly when the item that asks for a
revision has an id; only of a list are items reset, with a commit that goes through or another
item in progress; the approved items have priorities that can be looked up, and the chosen one an
id and a title; and the ids that are numbers can be read. -/
theorem step_right_iff (py : Python) (cfg : LoopConfig) (path : String) (file : Option Yaml)
    (items : List Item) (now : ℤ) (git : Bool) (hload : loadBacklog file = some items) :
    (∃ step, determineAction py cfg path file now git = some step
        ∧ Right py cfg path items now file step)
      ↔ Fine py cfg items now file git := by
  obtain ⟨action, hfirst⟩ := exists_first py cfg items now
  have hstep : determineAction py cfg path file now git
      = stepOf py cfg path file items now git action := by
    unfold determineAction
    rw [hload]
    exact determine_eq_stepOf hfirst
  have hnone : action ≠ .revision → items.find? asksRevision = none := fun hne => by
    by_contra hsome
    have hany : items.any asksRevision = true := by
      rw [any_asksRevision]
      exact Option.isSome_iff_ne_none.mpr hsome
    rw [find_order_of_revision hany] at hfirst
    exact hne (Option.some.inj hfirst).symm
  have hother : ∀ {other : Action}, action ≠ other →
      order.find? (applies py cfg items now) ≠ some other := fun hne heq =>
    hne (Option.some.inj (hfirst.symm.trans heq))
  rw [hstep]
  cases action with
  | revision =>
    rw [exists_right_iff hfirst (by decide)]
    have hany : items.any asksRevision = true := applies_of_first hfirst
    obtain ⟨item, hitem⟩ := Option.isSome_iff_exists.mp (any_asksRevision.symm.trans hany)
    have hiff : (stepOf py cfg path file items now git .revision).isSome = true ↔ _ :=
      (Bool.eq_iff_iff.mp Option.isSome_map).trans (checkRevision_of_find hitem)
    rw [hiff]
    refine ⟨fun h => ⟨fun other hfound => ?_, fun heq => absurd heq (hother nofun),
      fun heq => absurd heq (hother nofun), fun heq => absurd heq (hother nofun)⟩,
      fun h => h.revision item hitem⟩
    rw [hitem] at hfound
    cases hfound
    exact h
  | staleReset =>
    have hrevision : items.any asksRevision = false := by
      rw [any_asksRevision, hnone nofun]
      rfl
    rw [right_reset_iff hload hfirst hrevision]
    refine ⟨fun h => ⟨fun other hfound => ?_, fun _ => h,
      fun heq => absurd heq (hother nofun), fun heq => absurd heq (hother nofun)⟩,
      fun h => h.reset hfirst⟩
    rw [hnone nofun] at hfound
    cases hfound
  | implement =>
    rw [exists_right_iff hfirst (by decide), stepOf_implement_isSome (applies_of_first hfirst)]
    refine ⟨fun h => ⟨fun other hfound => ?_, fun heq => absurd heq (hother nofun),
      fun _ => h, fun heq => absurd heq (hother nofun)⟩, fun h => h.implement hfirst⟩
    rw [hnone nofun] at hfound
    cases hfound
  | generate =>
    have hiff : (stepOf py cfg path file items now git .generate).isSome = true ↔ _ :=
      (Bool.eq_iff_iff.mp (Option.isSome_map.trans Option.isSome_map)).trans nextId_isSome
    rw [exists_right_iff hfirst (by decide), hiff]
    refine ⟨fun h => ⟨fun other hfound => ?_, fun heq => absurd heq (hother nofun),
      fun heq => absurd heq (hother nofun), fun _ => h⟩, fun h => h.generate hfirst⟩
    rw [hnone nofun] at hfound
    cases hfound
  | scan =>
    rw [exists_right_iff hfirst (by decide)]
    refine ⟨fun _ => ⟨fun other hfound => ?_, fun heq => absurd heq (hother nofun),
      fun heq => absurd heq (hother nofun), fun heq => absurd heq (hother nofun)⟩, fun _ => rfl⟩
    rw [hnone nofun] at hfound
    cases hfound
  | noop =>
    rw [exists_right_iff hfirst (by decide)]
    refine ⟨fun _ => ⟨fun other hfound => ?_, fun heq => absurd heq (hother nofun),
      fun heq => absurd heq (hother nofun), fun heq => absurd heq (hother nofun)⟩, fun _ => rfl⟩
    rw [hnone nofun] at hfound
    cases hfound

/-- A library that reads no text as a time, and the digits of ASCII. -/
def plainPython : Python where
  fromisoformat _ := none
  isdigit := Char.isDigit
  decimal c := if c.isDigit then some (c.toNat - 48) else none

def plainConfig : LoopConfig := { role := "tester", scopeFiles := ["src/"] }

/-- An item in progress since the start of time. -/
def startedItem : Item :=
  [(.str "id", .str "001"), (.str "status", .str "in_progress"),
    (.str "in_progress_at",
      .datetime 0 "1970-01-01 00:00:00" "datetime.datetime(1970, 1, 1, 0, 0)")]

def untitledItem : Item := [(.str "id", .str "002"), (.str "status", .str "approved")]

/-- Of a list, an item is reset two hours later. -/
theorem step_right_iff_started :
    ∃ step, determineAction plainPython plainConfig "backlog.yaml"
        (some (.seq [.map startedItem])) 7200000000 true = some step
      ∧ Right plainPython plainConfig "backlog.yaml" [startedItem] 7200000000
        (some (.seq [.map startedItem])) step := by
  refine (step_right_iff plainPython plainConfig "backlog.yaml" _ [startedItem] 7200000000 true
    rfl).mpr ⟨fun item hfound => ?_, fun _ => ⟨⟨_, rfl⟩, .inl rfl⟩, fun hfirst => ?_,
      fun hfirst => ?_⟩
  · have hnone : ([startedItem].find? asksRevision).isSome = false := by decide +kernel
    rw [hfound] at hnone
    cases hnone
  · exact absurd hfirst (by decide +kernel)
  · exact absurd hfirst (by decide +kernel)

/-- **Steps that go wrong.** An approved item has no title; a mapping has other keys; a commit
fails. -/
theorem steps_not_right :
    (¬ ∃ step, determineAction plainPython plainConfig "backlog.yaml"
          (some (.seq [.map untitledItem])) 0 true = some step
        ∧ Right plainPython plainConfig "backlog.yaml" [untitledItem] 0
          (some (.seq [.map untitledItem])) step)
      ∧ (¬ ∃ step, determineAction plainPython plainConfig "backlog.yaml"
            (some (.map [(.str "version", .int 1), (.str "items", .seq [.map startedItem])]))
            7200000000 true = some step
          ∧ Right plainPython plainConfig "backlog.yaml" [startedItem] 7200000000
            (some (.map [(.str "version", .int 1), (.str "items", .seq [.map startedItem])])) step)
      ∧ ¬ ∃ step, determineAction plainPython plainConfig "backlog.yaml"
            (some (.seq [.map startedItem])) 7200000000 false = some step
          ∧ Right plainPython plainConfig "backlog.yaml" [startedItem] 7200000000
            (some (.seq [.map startedItem])) step := by
  have hfirst : order.find? (applies plainPython plainConfig [startedItem] 7200000000)
      = some .staleReset := by decide +kernel
  refine ⟨?_, ?_, ?_⟩
  · rintro ⟨step, hstep, -⟩
    have hnone : (determineAction plainPython plainConfig "backlog.yaml"
        (some (.seq [.map untitledItem])) 0 true).isSome = false := by decide +kernel
    rw [hstep] at hnone
    cases hnone
  · rintro ⟨step, hstep, hright⟩
    have heq := (determine_eq_stepOf hfirst).symm.trans hstep
    obtain ⟨⟨list, hlist⟩, -⟩ := (right_reset_iff rfl hfirst (by decide +kernel)).mp
      ⟨step, heq, hright⟩
    cases hlist
  · rintro ⟨step, hstep, hright⟩
    have heq := (determine_eq_stepOf hfirst).symm.trans hstep
    obtain ⟨-, hgit⟩ := (right_reset_iff rfl hfirst (by decide +kernel)).mp ⟨step, heq, hright⟩
    rcases hgit with hgit | ⟨item, hitem, -, hfresh⟩
    · cases hgit
    · rw [List.mem_singleton.mp hitem] at hfresh
      exact absurd hfresh (by decide +kernel)

end Backlog
