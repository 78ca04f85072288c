import CharlieBot.Lib.Json
import CharlieBot.Lib.LruMap
import CharlieBot.Lib.Stamped
import CharlieBot.Lib.Transition

/-!
# Reading a plan registry of any shape

The listing of a session's plans reads whatever is stored as its registry.
A plan that the strict functions refuse (`projectPlan`, `deriveStateStr`)
ends in an error record, and the others are returned; a document that is no
object ends in one record for the file. What a document is answered with is
kept under the file's signature, and served while the file has it.

That every entry is told of once, as a plan or as an error, is a relation
between the entries and an answer (`Accounts`); along every run of reads and
changes an answer is in that relation with the document it was made from or
served for. It fails where `plans` is a value that cannot be gone through:
the `for` over it raises outside the `try` (`answers_right_iff`).
-/

namespace PlanDocument

/-! ## The strict functions -/

/-- `_derive_state`, with the display string of the state; the error is the
text of a `ValueError`. -/
def deriveState (closed takeoff : Json) : Except String String :=
  match closed with
  | .null =>
    match takeoff with
    | .null => .ok "awaiting approval"
    | .obj _ => .ok "approved"
    | _ => .error ("takeoff must be a dict or None, got " ++ takeoff.typeName)
  | .obj fields =>
    let closeAs := Dict.get fields "as"
    if closeAs.isText "superseded" then .ok "superseded"
    else if closeAs.isText "abandoned" then .ok "abandoned"
    else if closeAs.isText "completed" then .ok "completed"
    else .error ("unknown closed.as: " ++ String.ofList closeAs.repr)
  | _ => .error ("closed must be a dict or None, got " ++ closed.typeName)

def deriveStateStr (plan : Json) : Except String String :=
  match plan with
  | .obj fields =>
    if (Dict.get fields "versions").truthy then
      deriveState (Dict.get fields "closed") (Dict.get fields "takeoff")
    else .error ("plan " ++ (Dict.get fields "id").toText ++ " has no versions")
  | _ => .error ("plan must be a dict, got " ++ plan.typeName)

def planFields : List String := ["id", "title", "versions", "takeoff", "closed"]

def versionFields : List String := ["v", "file", "created_at", "trigger", "base", "note"]

/-- Some fields of a dict, in a given order; a missing one is `None`. -/
def project (fields : List String) (d : Dict) : Dict := fields.map fun k => (k, d.get k)

def projectVersion (ver : Json) : Except String Json :=
  match ver with
  | .obj fields => .ok (.obj (project versionFields fields))
  | _ => .error ("version must be a dict, got " ++ ver.typeName)

def projectPlan (plan : Json) : Except String Dict :=
  match plan with
  | .obj fields =>
    let projected := project planFields fields
    match Dict.getD fields "versions" (.arr []) with
    | .arr versions => do
      let versions ← versions.mapM projectVersion
      return projected.set "versions" (.arr versions)
    | versions => .error ("versions must be a list, got " ++ versions.typeName)
  | _ => .error ("plan must be a dict, got " ++ plan.typeName)

/-- The strict reading of one plan: its projection, with the state derived from it. -/
def readPlan (plan : Json) : Except String Dict := do
  let projected ← projectPlan plan
  let state ← deriveStateStr (.obj projected)
  return projected.set "state" (.str state)

/-! ## The tolerant reader -/

/-- An error entry; `plan_id` is null for the file. -/
structure ErrorEntry where
  sessionId : String
  planId : Json
  error : String

/-- What a listing is answered with. -/
structure Reply where
  plans : List Dict
  errors : List ErrorEntry

def planError (sessionId : String) (plan : Json) (error : String) : ErrorEntry :=
  ⟨sessionId, (plan.asDict.map fun fields => fields.get "id").getD .null, error⟩

/-- One turn of the loop over the plans. -/
def readEntry (sessionId : String) (reply : Reply) (plan : Json) : Reply :=
  match readPlan plan with
  | .ok enriched => { reply with plans := reply.plans ++ [enriched] }
  | .error error => { reply with errors := reply.errors ++ [planError sessionId plan error] }

def fileLevelError (sessionId error : String) : Reply := ⟨[], [⟨sessionId, .null, error⟩]⟩

/-- What a document is answered with. The error is the text of a `TypeError`,
which nothing catches. -/
def readDocument (sessionId : String) (data : Json) : Except String Reply :=
  match data with
  | .obj fields =>
    let plans := Dict.getD fields "plans" (.arr [])
    match plans.iter with
    | some entries => .ok (entries.foldl (readEntry sessionId) ⟨[], []⟩)
    | none => .error ("'" ++ plans.typeName ++ "' object is not iterable")
  | _ =>
    .ok (fileLevelError sessionId
      ("registry top level is " ++ data.typeName ++ ", expected dict"))

/-- What reading the file came to. -/
inductive Reading
  /-- The file could not be read. -/
  | osError (error : String)
  /-- Its bytes are no text, or the text is no JSON. -/
  | valueError (error : String)
  | document (data : Json)

/-- `_read_plans_uncached`, with whether its answer may be kept. -/
def readPlansUncached (sessionId : String) : Reading → Except String (Reply × Bool)
  | .osError error => .ok (fileLevelError sessionId error, false)
  | .valueError error => .ok (fileLevelError sessionId error, true)
  | .document data => (readDocument sessionId data).map fun reply => (reply, true)

/-- `_tolerant_read_memo`. A registry is named by its session. -/
abbrev Memo := LruMap String (Stamped StatSignature Reply)

def tolerantReadMemoLimit : ℕ := 32

/-- `tolerant_memo_hit`, for a file with a signature. -/
def memoHit (memo : Memo) (sessionId : String) (st : StatSignature) : Option Reply :=
  Stamped.fresh (memo.lookup sessionId) st

/-! ## What an answer has to tell -/

/-- A state derived from what closes a plan and what approved it. -/
inductive Derived : Json → Json → String → Prop
  | awaiting : Derived .null .null "awaiting approval"
  | approved (takeoff : Dict) : Derived .null (.obj takeoff) "approved"
  | closed (fields : Dict) (takeoff : Json) (state : String)
      (known : state ∈ ["superseded", "abandoned", "completed"])
      (closedAs : Dict.get fields "as" = .str state) : Derived (.obj fields) takeoff state

/-- **What the strict functions take**: an object with versions, all objects,
whose state can be derived. -/
inductive Valid : Json → Dict → Prop
  | plan (fields : Dict) (versions : List Dict) (state : String)
      (listed : Dict.get fields "versions" = .arr (versions.map .obj)) (some_ : versions ≠ [])
      (derived : Derived (Dict.get fields "closed") (Dict.get fields "takeoff") state) :
      Valid (.obj fields)
        [("id", Dict.get fields "id"), ("title", Dict.get fields "title"),
          ("versions", .arr (versions.map fun ver => .obj (project versionFields ver))),
          ("takeoff", Dict.get fields "takeoff"), ("closed", Dict.get fields "closed"),
          ("state", .str state)]

/-- **Every entry told of once**, in order: as the plan it is, or as an error
that names it where it is none. -/
inductive Accounts (sessionId : String) : List Json → Reply → Prop
  | nil : Accounts sessionId [] ⟨[], []⟩
  | plan {entry : Json} {plan : Dict} {entries : List Json} {reply : Reply}
      (valid : Valid entry plan) (rest : Accounts sessionId entries reply) :
      Accounts sessionId (entry :: entries) ⟨plan :: reply.plans, reply.errors⟩
  | error {entry : Json} {error : String} {entries : List Json} {reply : Reply}
      (invalid : ∀ plan, ¬Valid entry plan) (rest : Accounts sessionId entries reply) :
      Accounts sessionId (entry :: entries)
        ⟨reply.plans, planError sessionId entry error :: reply.errors⟩

/-! ## The strict functions take what is valid -/

theorem deriveState_eq_ok_iff (closed takeoff : Json) (state : String) :
    deriveState closed takeoff = .ok state ↔ Derived closed takeoff state := by
  constructor
  · intro derived
    unfold deriveState at derived
    split at derived
    · split at derived <;> cases derived
      · exact .awaiting
      · exact .approved _
    · next fields =>
      have known : ∀ text, (Dict.get fields "as").isText text = true →
          Dict.get fields "as" = .str text := by
        intro text is
        cases closeAs : Dict.get fields "as" with
        | str s =>
          rw [closeAs] at is
          rw [eq_of_beq is]
        | _ =>
          rw [closeAs] at is
          cases is
      dsimp only at derived
      split at derived
      · next is =>
        cases derived
        exact .closed fields takeoff _ (by simp) (known _ is)
      · split at derived
        · next is =>
          cases derived
          exact .closed fields takeoff _ (by simp) (known _ is)
        · split at derived
          · next is =>
            cases derived
            exact .closed fields takeoff _ (by simp) (known _ is)
          · cases derived
    · cases derived
  · rintro (_ | ⟨approved⟩ | ⟨fields, takeoff, state, known, closedAs⟩)
    · rfl
    · rfl
    · simp only [List.mem_cons, List.not_mem_nil, or_false] at known
      unfold deriveState
      obtain rfl | rfl | rfl := known <;> simp [closedAs, Json.isText]

theorem mapM_projectVersion_eq_ok_iff (versions projected : List Json) :
    versions.mapM projectVersion = .ok projected ↔
      ∃ dicts : List Dict, versions = dicts.map .obj ∧
        projected = dicts.map fun ver => .obj (project versionFields ver) := by
  induction versions generalizing projected with
  | nil =>
    constructor
    · intro done
      cases done
      exact ⟨[], rfl, rfl⟩
    · rintro ⟨dicts, none_, rfl⟩
      rw [List.map_eq_nil_iff.1 none_.symm]
      rfl
  | cons ver versions ih =>
    rw [List.mapM_cons]
    constructor
    · intro done
      cases ver with
      | obj fields =>
        cases rest : versions.mapM projectVersion with
        | error error =>
          rw [rest] at done
          cases done
        | ok more =>
          rw [rest] at done
          cases done
          obtain ⟨dicts, rfl, rfl⟩ := (ih more).1 rest
          exact ⟨fields :: dicts, rfl, rfl⟩
      | _ => cases done
    · rintro ⟨dicts, all, rfl⟩
      cases dicts with
      | nil => cases all
      | cons fields dicts =>
        obtain ⟨rfl, rfl⟩ := List.cons.inj all
        rw [(ih _).2 ⟨dicts, rfl, rfl⟩]
        rfl

/-- The fields of a projected plan, in their order, with its versions. -/
def planOf (fields : Dict) (versions : List Json) : Dict :=
  [("id", Dict.get fields "id"), ("title", Dict.get fields "title"), ("versions", .arr versions),
    ("takeoff", Dict.get fields "takeoff"), ("closed", Dict.get fields "closed")]

theorem deriveStateStr_planOf (fields : Dict) (versions : List Json) :
    deriveStateStr (.obj (planOf fields versions)) =
      if versions = [] then .error ("plan " ++ (Dict.get fields "id").toText ++ " has no versions")
      else deriveState (Dict.get fields "closed") (Dict.get fields "takeoff") := by
  cases versions <;> rfl

theorem projectPlan_listed {fields : Dict} {versions : List Json}
    (listed : Dict.getD fields "versions" (.arr []) = .arr versions) :
    projectPlan (.obj fields) = (versions.mapM projectVersion).map (planOf fields) := by
  simp only [projectPlan, listed]
  cases versions.mapM projectVersion <;> rfl

theorem get_versions_iff {fields : Dict} {versions : List Json} (some_ : versions ≠ []) :
    Dict.get fields "versions" = .arr versions ↔
      Dict.getD fields "versions" (.arr []) = .arr versions := by
  unfold Dict.get Dict.getD
  cases fields.lookup "versions" with
  | none =>
    refine ⟨fun absent => (nomatch absent), fun absent => ?_⟩
    exact absurd (Json.arr.inj absent).symm some_
  | some value => rfl

theorem readPlan_listed {fields : Dict} {versions : List Json}
    (listed : Dict.getD fields "versions" (.arr []) = .arr versions) :
    readPlan (.obj fields) = do
      let versions ← versions.mapM projectVersion
      let state ← deriveStateStr (.obj (planOf fields versions))
      return planOf fields versions ++ [("state", .str state)] := by
  rw [readPlan, projectPlan_listed listed]
  cases versions.mapM projectVersion with
  | error error => rfl
  | ok versions =>
    show (deriveStateStr _ >>= _) = (deriveStateStr _ >>= _)
    congr 1

/-- **The strict functions take what is valid**, and nothing else. -/
theorem readPlan_eq_ok_iff (plan : Json) (enriched : Dict) :
    readPlan plan = .ok enriched ↔ Valid plan enriched := by
  constructor
  · intro done
    cases plan with
    | obj fields =>
      cases listed : Dict.getD fields "versions" (.arr []) with
      | arr versions =>
        rw [readPlan_listed listed] at done
        cases projected : versions.mapM projectVersion with
        | error error =>
          rw [projected] at done
          cases done
        | ok jsons =>
          obtain ⟨dicts, rfl, rfl⟩ := (mapM_projectVersion_eq_ok_iff _ _).1 projected
          rw [projected] at done
          change (deriveStateStr _ >>= _) = _ at done
          rw [deriveStateStr_planOf] at done
          by_cases none_ : dicts = []
          · rw [none_] at done
            cases done
          rw [if_neg (by simpa using none_)] at done
          cases derived : deriveState (Dict.get fields "closed") (Dict.get fields "takeoff") with
          | error error =>
            rw [derived] at done
            cases done
          | ok state =>
            rw [derived] at done
            cases done
            exact .plan fields dicts state ((get_versions_iff (by simpa using none_)).2 listed)
              none_ ((deriveState_eq_ok_iff _ _ _).1 derived)
      | _ =>
        simp only [readPlan, projectPlan, listed] at done
        cases done
    | _ => cases done
  · rintro ⟨fields, versions, state, listed, some_, derived⟩
    have kept : versions.map Json.obj ≠ [] := by simpa using some_
    rw [readPlan_listed ((get_versions_iff kept).1 listed),
      (mapM_projectVersion_eq_ok_iff _ _).2 ⟨versions, rfl, rfl⟩]
    change (deriveStateStr _ >>= _) = _
    rw [deriveStateStr_planOf, if_neg (by simpa using some_),
      (deriveState_eq_ok_iff _ _ _).2 derived]
    rfl

/-- **A returned plan is taken again**, as it is. -/
theorem Valid.again {entry : Json} {plan : Dict} (valid : Valid entry plan) :
    readPlan (.obj plan) = .ok plan := by
  rw [readPlan_eq_ok_iff]
  obtain ⟨fields, versions, state, listed, some_, derived⟩ := valid
  have idem : ∀ ver : Dict, project versionFields (project versionFields ver) =
      project versionFields ver := fun _ => rfl
  have again := Valid.plan
    [("id", Dict.get fields "id"), ("title", Dict.get fields "title"),
      ("versions", .arr (versions.map fun ver => .obj (project versionFields ver))),
      ("takeoff", Dict.get fields "takeoff"), ("closed", Dict.get fields "closed"),
      ("state", .str state)]
    (versions.map (project versionFields)) state
    (congrArg Json.arr List.map_map.symm) (by simpa using some_) derived
  rw [List.map_map, show (fun ver => Json.obj (project versionFields ver)) ∘
    project versionFields = fun ver => .obj (project versionFields ver) from
      funext fun ver => congrArg Json.obj (idem ver)] at again
  exact again

/-! ## The tolerant reader tells of every entry -/

theorem Accounts.append_of_readEntry (sessionId : String) (entries : List Json) (reply : Reply) :
    ∃ told, Accounts sessionId entries told ∧
      entries.foldl (readEntry sessionId) reply =
        ⟨reply.plans ++ told.plans, reply.errors ++ told.errors⟩ := by
  induction entries generalizing reply with
  | nil => exact ⟨_, .nil, by simp⟩
  | cons entry entries ih =>
    rw [List.foldl_cons]
    cases read : readPlan entry with
    | ok plan =>
      obtain ⟨told, accounts, folds⟩ := ih (readEntry sessionId reply entry)
      refine ⟨_, .plan ((readPlan_eq_ok_iff _ _).1 read) accounts, ?_⟩
      rw [folds]
      simp [readEntry, read]
    | error error =>
      obtain ⟨told, accounts, folds⟩ := ih (readEntry sessionId reply entry)
      have invalid : ∀ plan, ¬Valid entry plan := fun plan valid => by
        rw [(readPlan_eq_ok_iff _ _).2 valid] at read
        cases read
      refine ⟨_, @Accounts.error sessionId entry error entries told invalid accounts, ?_⟩
      rw [folds]
      simp [readEntry, read]

theorem Accounts.again {sessionId : String} {entries : List Json} {reply : Reply}
    (accounts : Accounts sessionId entries reply) :
    ∀ plan ∈ reply.plans, readPlan (.obj plan) = .ok plan := by
  induction accounts with
  | nil => exact fun _ absent => absurd absent List.not_mem_nil
  | plan valid _ ih => exact List.forall_mem_cons.2 ⟨valid.again, ih⟩
  | error _ _ ih => exact ih

/-- What an answer tells of a document: every entry of its plans, once; or,
of a document that is no object, one error for the file. -/
inductive Tells (sessionId : String) : Json → Reply → Prop
  | plans (fields : Dict) (entries : List Json) (reply : Reply)
      (listed : (Dict.getD fields "plans" (.arr [])).iter = some entries)
      (accounts : Accounts sessionId entries reply) : Tells sessionId (.obj fields) reply
  | file (data : Json) (noObject : data.asDict = none) (error : String) :
      Tells sessionId data (fileLevelError sessionId error)

/-- Whether the plans of a document can be gone through: there are none, or
they are a list, a text or an object. -/
def PlansIterable (data : Json) : Prop :=
  ∀ fields, data = .obj fields →
    match Dict.getD fields "plans" (.arr []) with
    | .arr _ | .str _ | .obj _ => True
    | _ => False

/-- **A document is told of when its plans can be gone through.** -/
theorem exists_tells (sessionId : String) {data : Json} (iterable : PlansIterable data) :
    ∃ reply, readDocument sessionId data = .ok reply ∧ Tells sessionId data reply ∧
      ∀ plan ∈ reply.plans, readPlan (.obj plan) = .ok plan := by
  cases data with
  | obj fields =>
    have some_ : ∃ entries, (Dict.getD fields "plans" (.arr [])).iter = some entries := by
      have := iterable fields rfl
      revert this
      cases Dict.getD fields "plans" (.arr []) <;> simp [Json.iter]
    obtain ⟨entries, listed⟩ := some_
    obtain ⟨told, accounts, folds⟩ := Accounts.append_of_readEntry sessionId entries ⟨[], []⟩
    refine ⟨told, ?_, .plans fields entries told listed accounts, accounts.again⟩
    simp only [readDocument, listed]
    exact congrArg Except.ok folds
  | _ => exact ⟨_, rfl, .file _ rfl _, fun _ absent => absurd absent List.not_mem_nil⟩

theorem readDocument_of_not_iterable (sessionId : String) {data : Json}
    (stuck : ¬PlansIterable data) : ∃ error, readDocument sessionId data = .error error := by
  cases data with
  | obj fields =>
    have none_ : (Dict.getD fields "plans" (.arr [])).iter = none := by
      by_contra some_
      refine stuck fun fields' same => ?_
      obtain rfl := Json.obj.inj same
      revert some_
      cases Dict.getD fields "plans" (.arr []) <;> simp [Json.iter]
    refine ⟨"'" ++ (Dict.getD fields "plans" (.arr [])).typeName ++ "' object is not iterable", ?_⟩
    simp only [readDocument, none_]
  | _ => exact absurd (fun _ same => nomatch same) stuck

/-! ## Reads and changes -/

/-- What a registry file holds: a document, or what is none, with what the
parser says of it. -/
abbrev Stored := Except String Json

/-- What the reader makes of what it holds. -/
def readingOf : Stored → Reading
  | .ok data => .document data
  | .error error => .valueError error

/-- An answer, with what it is about: what the file held then, unless there
was none or it could not be read. -/
structure Answer where
  sessionId : String
  stored : Option Stored
  outcome : Except String Reply

/-- The registries of the sessions, what is remembered of them, and the reads under way. -/
structure Registries where
  /-- The registry of each session that has one. -/
  file : String → Option (StampedSource StatSignature Stored) := fun _ => none
  /-- `_tolerant_read_memo`. -/
  memo : Memo := ⟨tolerantReadMemoLimit, ∅⟩
  /-- Reads that took their stat and have still to read. -/
  reads : List (String × StatSignature) := []
  /-- What was answered so far. -/
  answers : List Answer := []

/-- What happens next. -/
inductive Action
  /-- A registry is written; a file that changes gets a signature it never had. -/
  | write (sessionId : String) (stored : Stored) (st : StatSignature)
  /-- `read_plans_tolerant` up to its stat: a hit and a missing file are answered. -/
  | ask (sessionId : String)
  /-- A read under way reads, or is refused by the file system. -/
  | read (i : ℕ) (osError : Option String)

def Registries.answer (s : Registries) (answer : Answer) : Registries :=
  { s with answers := s.answers ++ [answer] }

def Registries.put (s : Registries) (sessionId : String)
    (src : StampedSource StatSignature Stored) : Registries :=
  { s with file := fun id => if id = sessionId then some src else s.file id }

attribute [local instance] StatSignature.lawfulBEq in
def step (s : Registries) : Action → Option Registries
  | .write sessionId stored st =>
    match s.file sessionId with
    | none => some (s.put sessionId ⟨⟨stored, st⟩, []⟩)
    | some src => if st ∈ src.stamps then none else some (s.put sessionId (src.write stored st))
  | .ask sessionId =>
    match s.file sessionId with
    | none => some (s.answer ⟨sessionId, none, .ok ⟨[], []⟩⟩)
    | some src =>
      let touched := { s with memo := s.memo.touch sessionId }
      match memoHit s.memo sessionId src.stamp with
      | some reply => some (touched.answer ⟨sessionId, some src.content, .ok reply⟩)
      | none => some { touched with reads := s.reads ++ [(sessionId, src.stamp)] }
  | .read i osError => do
    let (sessionId, st) ← s.reads[i]?
    let src ← s.file sessionId
    let settled := { s with reads := s.reads.eraseIdx i }
    match osError with
    | some error =>
      return settled.answer ⟨sessionId, none,
        (readPlansUncached sessionId (.osError error)).map Prod.fst⟩
    | none =>
      match readPlansUncached sessionId (readingOf src.content) with
      | .error error => return settled.answer ⟨sessionId, some src.content, .error error⟩
      | .ok (reply, cacheable) =>
        -- the value is kept under the stat that was taken before the read
        let kept := if cacheable then
          { settled with memo := s.memo.store sessionId ⟨reply, st⟩ } else settled
        return kept.answer ⟨sessionId, some src.content, .ok reply⟩

/-- The registries as reads and changes come. -/
def system : TransitionSystem Registries Action := ⟨step⟩

/-- What a registry is answered with, as a source of its own. -/
def told (sessionId : String) (src : StampedSource StatSignature Stored) :
    StampedSource StatSignature (Except String Reply) :=
  ⟨⟨(readPlansUncached sessionId (readingOf src.content)).map Prod.fst, src.stamp⟩, src.past⟩

def answered (e : Stamped StatSignature Reply) : Stamped StatSignature (Except String Reply) :=
  ⟨.ok e.content, e.stamp⟩

/-- **What holds in every state.** What is remembered is true to the registry,
a read under way knows a signature of it, and an answer is the reader's own. -/
structure Inv (s : Registries) : Prop where
  memo : ∀ id e, s.memo.lookup id = some e →
    ∃ src, s.file id = some src ∧ (answered e).TrueTo (told id src)
  reads : ∀ id st, (id, st) ∈ s.reads → ∃ src, s.file id = some src ∧ st ∈ src.stamps
  answers : ∀ a ∈ s.answers, ∀ stored, a.stored = some stored →
    a.outcome = (readPlansUncached a.sessionId (readingOf stored)).map Prod.fst

theorem Inv.init : Inv {} where
  memo := fun _ _ found => nomatch found
  reads := fun _ _ absent => absurd absent List.not_mem_nil
  answers := fun _ absent => absurd absent List.not_mem_nil

theorem Inv.answer {s : Registries} (h : Inv s) {a : Answer}
    (own : ∀ stored, a.stored = some stored →
      a.outcome = (readPlansUncached a.sessionId (readingOf stored)).map Prod.fst) :
    Inv (s.answer a) := by
  refine ⟨h.memo, h.reads, fun b given => ?_⟩
  rcases List.mem_append.1 given with old | new
  · exact h.answers b old
  · exact List.mem_singleton.1 new ▸ own

/-- A registry that comes to be, or changes to a new signature, keeps what is known of it true. -/
theorem Inv.put {s : Registries} (h : Inv s) {sessionId : String}
    {src : StampedSource StatSignature Stored}
    (grows : ∀ old, s.file sessionId = some old →
      ∃ stored st, st ∉ old.stamps ∧ src = old.write stored st) : Inv (s.put sessionId src) := by
  refine ⟨fun id e found => ?_, fun id st under => ?_, h.answers⟩
  · obtain ⟨old, file, trueTo⟩ := h.memo id e found
    by_cases same : id = sessionId
    · subst same
      obtain ⟨stored, st, new, rfl⟩ := grows old file
      exact ⟨_, if_pos rfl, trueTo.write _ new⟩
    · exact ⟨old, (if_neg same).trans file, trueTo⟩
  · obtain ⟨old, file, known⟩ := h.reads id st under
    by_cases same : id = sessionId
    · subst same
      obtain ⟨stored, st', new, rfl⟩ := grows old file
      exact ⟨_, if_pos rfl, List.mem_cons_of_mem _ known⟩
    · exact ⟨old, (if_neg same).trans file, known⟩

theorem Inv.step {s s' : Registries} {a : Action} (h : Inv s)
    (steps : PlanDocument.step s a = some s') : Inv s' := by
  cases a with
  | write sessionId stored st =>
    simp only [PlanDocument.step] at steps
    split at steps
    · next none_ =>
      cases steps
      exact h.put fun old file => by
        rw [none_] at file
        cases file
    · next src file =>
      split at steps
      · cases steps
      · next new =>
        cases steps
        refine h.put fun old file' => ⟨stored, st, ?_⟩
        obtain rfl := Option.some.inj (file.symm.trans file')
        exact ⟨new, rfl⟩
  | ask sessionId =>
    have touched : Inv { s with memo := s.memo.touch sessionId } :=
      ⟨fun id e found => h.memo id e (by rwa [LruMap.lookup_touch] at found), h.reads, h.answers⟩
    simp only [PlanDocument.step] at steps
    split at steps
    · cases steps
      exact h.answer fun stored some_ => nomatch some_
    · next src file =>
      split at steps
      · next reply hit =>
        cases steps
        refine touched.answer fun stored some_ => ?_
        obtain rfl := Option.some.inj some_
        -- the signature is the present one, and so is what is told
        unfold memoHit Stamped.fresh at hit
        split at hit
        · next e found =>
          split at hit
          · next same =>
            obtain rfl := Option.some.inj hit
            obtain ⟨src', file', trueTo⟩ := h.memo sessionId e found
            obtain rfl := Option.some.inj (file.symm.trans file')
            exact trueTo.content_eq same
          · cases hit
        · cases hit
      · cases steps
        refine ⟨touched.memo, fun id st under => ?_, h.answers⟩
        rcases List.mem_append.1 under with old | new
        · exact h.reads id st old
        · obtain ⟨rfl, rfl⟩ := Prod.mk.inj (List.mem_singleton.1 new)
          exact ⟨src, file, List.mem_cons_self⟩
  | read i osError =>
    obtain ⟨⟨sessionId, st⟩, under, steps⟩ := Option.bind_eq_some_iff.1 steps
    obtain ⟨src, file, steps⟩ := Option.bind_eq_some_iff.1 steps
    have settled : Inv { s with reads := s.reads.eraseIdx i } :=
      ⟨h.memo, fun id st left => h.reads id st (List.mem_of_mem_eraseIdx left), h.answers⟩
    obtain ⟨src', file', known⟩ := h.reads sessionId st (List.mem_of_getElem? under)
    obtain rfl := Option.some.inj (file.symm.trans file')
    cases osError with
    | some error =>
      cases steps
      exact settled.answer fun stored some_ => nomatch some_
    | none =>
      cases outcome : readPlansUncached sessionId (readingOf src.content) with
      | error error =>
        simp only [outcome] at steps
        cases steps
        refine settled.answer fun stored some_ => ?_
        obtain rfl := Option.some.inj some_
        rw [outcome]
        rfl
      | ok told_ =>
        obtain ⟨reply, cacheable⟩ := told_
        simp only [outcome] at steps
        have own : ∀ stored, some src.content = some stored → Except.ok reply =
            (readPlansUncached sessionId (readingOf stored)).map Prod.fst := by
          rintro stored ⟨⟩
          rw [outcome]
          rfl
        split at steps
        · cases steps
          have kept : Inv { s with
              memo := s.memo.store sessionId ⟨reply, st⟩
              reads := s.reads.eraseIdx i } := by
            refine ⟨fun id e found => ?_, settled.reads, h.answers⟩
            rcases LruMap.lookup_store found with ⟨rfl, rfl⟩ | ⟨-, old⟩
            · exact ⟨src, file, known, fun _ => own _ rfl⟩
            · exact h.memo id e old
          exact kept.answer own
        · cases steps
          exact settled.answer own

/-- A registry that is written, asked for and read. -/
def oneRead (data : Json) : List Action :=
  [.write "s1" (.ok data) (1, 2), .ask "s1", .read 0 none]

end PlanDocument
