import CharlieBot.Lib.DirTree
import CharlieBot.Lib.Transition
import Mathlib.Data.String.Basic

/-!
# A conversation that moves over accounts

An account of the pool keeps the transcript of a conversation, and a directory beside it, below
the directory of the place the conversation works in. Where a turn, or the rest of one, goes to
another account, both are copied there, and stay where they were. So every account that was ever
used has an old copy, and a conversation that comes back is copied over it.

The transcript is replaced. The directory is copied entry by entry, and what is left there stays:
a file that was removed since is there again, or makes the copy fail for its size
(`left_behind`). Along every run in which the target of a move has nothing besides what the source
has, each move leaves there just what the source has, and every process finds what those
before it wrote (`continuous_of_run`).
-/

namespace Transcripts

open DirTree

/-! ## Stores -/

/-- **A directory**, its entries in order all the way down. -/
@[ext] structure Dir where
  entries : List (String × Node String UInt8)
  ordered : Ordered entries

/-- A conversation: the transcript, and the directory beside it. -/
structure Conversation where
  transcript : List UInt8
  sidecar : Option Dir := none

/-- The `projects` of an account: the conversations under an id, by the directory of the place they
work in. -/
abbrev Store := List (String × Conversation)

/-- Why a move raises. -/
inductive MoveError where
  | missing
  | copyFailed
  /-- `TranscriptMoveError` for the sizes of the directories. -/
  | sizeMismatch
  deriving DecidableEq

/-- `transcript_path`: the first match. -/
def transcriptPath (store : Store) : Option (String × Conversation) :=
  (store.insertionSort fun a b => a.1 ≤ b.1).head?

def treeBytes (dir : Dir) : ℕ := DirTree.bytes dir.entries

/-- The directory copied over another, and whether no step failed. -/
def copytree (sidecar : Dir) (below : Option Dir) : Dir × Bool :=
  match below with
  | none => (⟨_, ordered_copyTree _ sidecar.ordered [] trivial⟩, (copyTree sidecar.entries []).2)
  | some below =>
    (⟨_, ordered_copyTree _ sidecar.ordered below.entries below.ordered⟩,
      (copyTree sidecar.entries below.entries).2)

/-- `move_transcript`: the store of the target behind it, and what was raised. -/
def moveTranscript (src dst : Store) : Store × Option MoveError :=
  match transcriptPath src with
  | none => (dst, some .missing)
  | some (slug, conversation) =>
    let left := (dst.lookup slug).bind Conversation.sidecar
    match conversation.sidecar with
    | none => (put dst slug ⟨conversation.transcript, left⟩, none)
    | some sidecar =>
      let copied := copytree sidecar left
      (put dst slug ⟨conversation.transcript, some copied.1⟩,
        if copied.2 = false then some .copyFailed
        else if treeBytes copied.1 ≠ treeBytes sidecar then some .sizeMismatch
        else none)

/-! ## Runs -/

inductive Deed where
  | returned (source target : Option Conversation)
  | raised (error : MoveError)

/-- The accounts, and a conversation on one of them. -/
structure Pool where
  stores : String → Store
  account : String
  /-- The directory of the place it works in. -/
  slug : String
  /-- What the processes wrote. -/
  written : Option Conversation := none
  deeds : List Deed := []

inductive PoolAction where
  /-- The process appends to the transcript, and adds and removes files. -/
  | write (conversation : Conversation)
  /-- `place_turn` with the account it chose. -/
  | placeTurn (chosen : String)
  /-- `move_to_next_account` with the account it selected. -/
  | moveToNextAccount (next : String)
  /-- A copy step of a move fails, and leaves the target as it is then. -/
  | copyFails (target : String) (left : Store)

namespace Pool

variable (s : Pool)

def conversationAt (account : String) : Option Conversation := (s.stores account).lookup s.slug

def move (target : String) : Pool :=
  let moved := moveTranscript (s.stores s.account) (s.stores target)
  match moved.2 with
  | none =>
    { s with
      stores := Function.update s.stores target moved.1
      account := target
      deeds := s.deeds ++ [.returned (s.conversationAt s.account) (moved.1.lookup s.slug)] }
  | some error =>
    { s with
      stores := Function.update s.stores target moved.1
      deeds := s.deeds ++ [.raised error] }

/-- `place_turn`: without a conversation to resume there is nothing to move. -/
def placeTurn (chosen : String) : Pool :=
  if chosen = s.account then s
  else if s.written.isNone then { s with account := chosen }
  else s.move chosen

def step : PoolAction → Option Pool
  | .write conversation =>
    some { s with
      stores := Function.update s.stores s.account
        (put (s.stores s.account) s.slug conversation)
      written := some conversation }
  | .placeTurn chosen => some (s.placeTurn chosen)
  | .moveToNextAccount next =>
    -- the account is left, and there is a session to resume
    if next ≠ s.account ∧ s.written.isSome = true then some (s.move next) else none
  | .copyFails target left =>
    if target ≠ s.account ∧ s.written.isSome = true then
      some { s with
        stores := Function.update s.stores target left
        deeds := s.deeds ++ [.raised .copyFailed] }
    else none

def system : TransitionSystem Pool PoolAction := ⟨step⟩

/-- A conversation that is to begin, with accounts in any state. -/
def start (stores : String → Store) (account slug : String) : Pool := { stores, account, slug }

end Pool

/-! ## What is claimed -/

/-- **A deed is right.** -/
def Deed.Right : Deed → Prop
  | .returned source target => target = source
  | .raised error => error ≠ .sizeMismatch

namespace Pool

variable (s : Pool)

/-- **The conversation is continuous.** -/
structure Continuous : Prop where
  /-- A move that returned left in the target what the source has, and one that raised did so for
  a missing source or a copy step. -/
  moves : ∀ deed ∈ s.deeds, deed.Right
  /-- The next process finds what those before it wrote. -/
  resumes : s.written.isSome = true → s.conversationAt s.account = s.written

/-- **The condition on a move**: the source has its transcript first in the one place it
works in, and the target has nothing there that the source does not have. -/
def MoveMeets (target : String) : Prop :=
  (transcriptPath (s.stores s.account)).map Prod.fst = some s.slug
    ∧ match (s.conversationAt target).bind Conversation.sidecar,
        (s.conversationAt s.account).bind Conversation.sidecar with
      | none, _ => True
      | some _, none => False
      | some left, some sidecar => fits left.entries sidecar.entries = true

instance (target : String) : Decidable (s.MoveMeets target) := by
  unfold MoveMeets
  refine @instDecidableAnd _ _ _ ?_
  split <;> infer_instance

/-- **The condition on a step.** -/
def Meets : PoolAction → Prop
  | .placeTurn chosen => chosen ≠ s.account → s.written.isSome = true → s.MoveMeets chosen
  | .moveToNextAccount next => s.MoveMeets next
  | _ => True

instance (a : PoolAction) : Decidable (s.Meets a) := by
  unfold Meets
  split <;> infer_instance

end Pool

/-! ## One move -/

theorem lookup_of_transcriptPath {store : Store} {slug : String} {conversation : Conversation}
    (h : transcriptPath store = some (slug, conversation)) :
    store.lookup slug = some conversation := by
  induction store generalizing slug conversation with
  | nil => cases h
  | cons first store ih =>
    unfold transcriptPath at h ih
    rw [List.insertionSort_cons] at h
    cases hsorted : store.insertionSort fun a b => a.1 ≤ b.1 with
    | nil =>
      rw [hsorted] at h
      cases h
      rw [List.lookup_cons, beq_self_eq_true]
    | cons second rest =>
      rw [hsorted, List.orderedInsert] at h
      split at h
      · cases h
        rw [List.lookup_cons, beq_self_eq_true]
      · next hnot =>
        cases h
        have hne : slug ≠ first.1 := fun heq => hnot (le_of_eq heq.symm)
        rw [List.lookup_cons, beq_false_of_ne hne]
        exact ih (by rw [hsorted]; rfl)

theorem copytree_of_fits (sidecar : Dir) (left : Option Dir)
    (h : ∀ below ∈ left, fits below.entries sidecar.entries = true) :
    copytree sidecar left = (sidecar, true) := by
  unfold copytree
  cases left with
  | none =>
    have hexact : copyTree sidecar.entries [] = (sidecar.entries, true) :=
      copyTree_of_fits sidecar.ordered trivial (by unfold fits; rfl)
    have hentries := congrArg Prod.fst hexact
    have hok := congrArg Prod.snd hexact
    exact Prod.ext (Dir.ext hentries) hok
  | some below =>
    have hexact : copyTree sidecar.entries below.entries = (sidecar.entries, true) :=
      copyTree_of_fits sidecar.ordered below.ordered (h below rfl)
    have hentries := congrArg Prod.fst hexact
    have hok := congrArg Prod.snd hexact
    exact Prod.ext (Dir.ext hentries) hok

/-- **A conversation that meets only what is its own** lands as it is. -/
theorem moveTranscript_of_fits {src dst : Store} {slug : String} {conversation : Conversation}
    (hsrc : transcriptPath src = some (slug, conversation))
    (hfits : match (dst.lookup slug).bind Conversation.sidecar, conversation.sidecar with
      | none, _ => True
      | some _, none => False
      | some left, some sidecar => fits left.entries sidecar.entries = true) :
    moveTranscript src dst = (put dst slug conversation, none) := by
  unfold moveTranscript
  rw [hsrc]
  dsimp only
  obtain ⟨transcript, sidecar⟩ := conversation
  cases sidecar with
  | none =>
    cases hleft : (dst.lookup slug).bind Conversation.sidecar with
    | none => rfl
    | some left =>
      rw [hleft] at hfits
      cases hfits
  | some sidecar =>
    have hcopied := copytree_of_fits sidecar ((dst.lookup slug).bind Conversation.sidecar)
      fun below hbelow => by
        rw [Option.mem_def.mp hbelow] at hfits
        exact hfits
    dsimp only
    rw [hcopied, if_neg (fun h => nomatch h), if_neg (fun h => h rfl)]

namespace Pool

variable {s t : Pool}

/-! ## What holds in every state -/

/-- What holds in every state. -/
structure Inv (s : Pool) : Prop where
  moves : ∀ deed ∈ s.deeds, deed.Right
  resumes : ∀ conversation, s.written = some conversation →
    s.conversationAt s.account = some conversation

theorem inv_start (stores : String → Store) (account slug : String) :
    Inv (start stores account slug) where
  moves _ h := nomatch h
  resumes _ h := nomatch h

/-- **A move that meets the condition** takes the conversation with it. -/
theorem Inv.move (h : s.Inv) {target : String} (hwritten : s.written.isSome = true)
    (hmeets : s.MoveMeets target) : (s.move target).Inv := by
  obtain ⟨conversation, hconversation⟩ := Option.isSome_iff_exists.mp hwritten
  have hsource := h.resumes conversation hconversation
  obtain ⟨hfirst, hleft⟩ := hmeets
  obtain ⟨⟨slug, found⟩, hpath, hslug⟩ := Option.map_eq_some_iff.mp hfirst
  have hslug : slug = s.slug := hslug
  subst hslug
  have hfound := lookup_of_transcriptPath hpath
  have hsame : found = conversation := Option.some.inj (hfound.symm.trans hsource)
  subst hsame
  rw [hsource] at hleft
  have hmoved : moveTranscript (s.stores s.account) (s.stores target)
      = (put (s.stores target) s.slug found, none) := moveTranscript_of_fits hpath hleft
  have hlands : (put (s.stores target) s.slug found).lookup s.slug = some found := by
    rw [lookup_put, if_pos rfl]
  unfold Pool.move
  rw [hmoved]
  refine ⟨fun deed hdeed => ?_, fun written hwritten => ?_⟩
  · rcases List.mem_append.mp hdeed with hold | hnew
    · exact h.moves deed hold
    · rw [List.mem_singleton.mp hnew]
      show (put (s.stores target) s.slug found).lookup s.slug = s.conversationAt s.account
      rw [hlands, hsource]
  · have hwritten : s.written = some written := hwritten
    rw [hconversation] at hwritten
    cases hwritten
    show (Function.update s.stores target _ target).lookup s.slug = some found
    rw [Function.update_self]
    exact hlands

/-- **Every step that meets the condition** keeps the conversation. -/
theorem Inv.step (h : s.Inv) {a : PoolAction} (hmeets : s.Meets a)
    (hstep : s.step a = some t) : t.Inv := by
  cases a with
  | write conversation =>
    cases hstep
    refine ⟨h.moves, fun written hwritten => ?_⟩
    cases hwritten
    show (Function.update s.stores s.account _ s.account).lookup s.slug = some conversation
    rw [Function.update_self, lookup_put, if_pos rfl]
  | placeTurn chosen =>
    cases hstep
    unfold placeTurn
    split
    · exact h
    · next hother =>
      split
      · next hnone =>
        refine ⟨h.moves, fun written hwritten => ?_⟩
        have hwritten : s.written = some written := hwritten
        rw [hwritten] at hnone
        cases hnone
      · next hsome =>
        have hwritten : s.written.isSome = true := by
          rw [← Option.not_isNone, Bool.eq_false_iff.mpr hsome]
          rfl
        exact h.move hwritten (hmeets hother hwritten)
  | moveToNextAccount next =>
    simp only [Pool.step] at hstep
    split at hstep
    · next hguard =>
      cases hstep
      exact h.move hguard.2 hmeets
    · cases hstep
  | copyFails target left =>
    simp only [Pool.step] at hstep
    split at hstep
    · next hguard =>
      cases hstep
      refine ⟨fun deed hdeed => ?_, fun written hwritten => ?_⟩
      · rcases List.mem_append.mp hdeed with hold | hnew
        · exact h.moves deed hold
        · rw [List.mem_singleton.mp hnew]
          show MoveError.copyFailed ≠ .sizeMismatch
          decide
      · show (Function.update s.stores target left s.account).lookup s.slug = some written
        rw [Function.update_of_ne hguard.1.symm]
        exact h.resumes written hwritten
    · cases hstep

theorem Inv.continuous (h : s.Inv) : s.Continuous where
  moves := h.moves
  resumes hwritten := by
    obtain ⟨conversation, hconversation⟩ := Option.isSome_iff_exists.mp hwritten
    rw [hconversation]
    exact h.resumes conversation hconversation

end Pool

/-! ## The main result -/

/-- **Every move leaves in the target what the source has, and every process resumes what those
before it wrote**, in every run in which a move finds the conversation first in the one place
it works in, and in the target nothing that the source does not have. -/
theorem continuous_of_run {stores : String → Store} {account slug : String}
    {as : List PoolAction} {s : Pool}
    (hmeets : Pool.system.Guarded Pool.Meets (Pool.start stores account slug) as)
    (hrun : Pool.system.run (Pool.start stores account slug) as = some s) : s.Continuous :=
  (Pool.system.run_invariant_of_guarded (fun _ _ _ hinv hm hstep => Pool.Inv.step hinv hm hstep)
    (Pool.inv_start stores account slug) hmeets hrun).continuous

def oneFile (name : String) (content : List UInt8) : Dir :=
  ⟨[(name, .file content)], by simp [Ordered, Node.Ordered]⟩

def noFile : Dir := ⟨[], trivial⟩

/-- The names in the directory beside a transcript. -/
def sidecarNames (conversation : Option Conversation) : List String :=
  ((conversation.bind Conversation.sidecar).map fun dir => dir.entries.map Prod.fst).getD []

/-- A conversation that only grows goes to another account and back. -/
theorem continuous_of_run_back :
    ∃ s, Pool.system.run (Pool.start (fun _ => []) "a" "-work")
        [.write ⟨[1], none⟩, .moveToNextAccount "b", .write ⟨[1, 2], some (oneFile "t" [1])⟩,
          .placeTurn "a", .write ⟨[1, 2, 3], some (oneFile "t" [1, 2])⟩, .placeTurn "b"] = some s
      ∧ s.Continuous := by
  obtain ⟨s, hs⟩ := Option.isSome_iff_exists.mp (show (Pool.system.run
    (Pool.start (fun _ => []) "a" "-work")
    [.write ⟨[1], none⟩, .moveToNextAccount "b", .write ⟨[1, 2], some (oneFile "t" [1])⟩,
      .placeTurn "a", .write ⟨[1, 2, 3], some (oneFile "t" [1, 2])⟩,
      .placeTurn "b"]).isSome = true by decide +kernel)
  exact ⟨s, hs, continuous_of_run (TransitionSystem.guarded_of_check (by decide +kernel)) hs⟩

/-- **A file that was removed is there again** in the account the conversation comes back to. -/
theorem left_behind :
    ∃ s, Pool.system.run (Pool.start (fun _ => []) "a" "-work")
        [.write ⟨[1], some (oneFile "lock" [])⟩, .moveToNextAccount "b",
          .write ⟨[1, 2], some noFile⟩, .moveToNextAccount "a"] = some s
      ∧ ¬ s.Continuous := by
  have hrun : (Pool.system.run (Pool.start (fun _ => []) "a" "-work")
      [.write ⟨[1], some (oneFile "lock" [])⟩, .moveToNextAccount "b",
        .write ⟨[1, 2], some noFile⟩, .moveToNextAccount "a"]).map (fun s =>
      s.deeds.getLast?.map fun deed => match deed with
        | .returned source target => some (sidecarNames source, sidecarNames target)
        | .raised _ => none) = some (some (some ([], ["lock"]))) := by
    decide +kernel
  obtain ⟨s, hs, hseen⟩ := Option.map_eq_some_iff.mp hrun
  obtain ⟨deed, hdeed, hnames⟩ := Option.map_eq_some_iff.mp hseen
  refine ⟨s, hs, fun h => ?_⟩
  have hright := h.moves deed (List.mem_of_getLast? hdeed)
  cases deed with
  | raised error => cases hnames
  | returned source target =>
    have hright : target = source := hright
    rw [hright, Option.some.injEq, Prod.mk.injEq] at hnames
    exact absurd (hnames.1.symm.trans hnames.2) (by decide)

end Transcripts
