import CharlieBot.Lib.GitRefs
import CharlieBot.Lib.Json

/-!
# The base of a worker

A worker starts from a commit: one that is pinned, the tip of a branch at `origin`, or that of
a branch that is not published. What starts it is a text, though, `origin/<b>` or `<b>`, and git
looks a text up among all its refs. And what is compared with the branch at `origin` is the ref
that git keeps of it, which a fetch need not move.

So the base is right if no other ref is found under the text, and if the fetch moved the ref to
where the branch was at `origin`: `right_iff` is exact, up to refs that are in the way and happen
to be at a right commit. With a narrow refspec the ref stays where it was, and a worker starts
from there (`stale_base`).
-/

namespace BaseBranch

open Git

/-! ## The value -/

/-- What a value of `--base-branch` asks for. -/
inductive Form where
  | pinned (sha : Oid)
  | named (explicitRemote : Bool) (branch : String)
  deriving DecidableEq

/-- `_FULL_SHA_RE.fullmatch`. -/
def isFullSha (raw : List Char) : Bool :=
  raw.length = 40 && raw.all "0123456789abcdef".toList.contains

/-- The value as it is read. -/
def baseForm (baseBranch : String) : Except String Form :=
  let raw := Text.strip baseBranch.toList
  if raw.isEmpty then .error "base branch is empty"
  else if isFullSha raw then .ok (.pinned (String.ofList raw))
  else
    let explicitRemote := "origin/".toList.isPrefixOf raw
    let branch := if explicitRemote then raw.drop "origin/".toList.length else raw
    if branch.isEmpty || Text.contains ['.', '.'] branch || branch.any Text.isSpace then
      .error ("invalid branch name in --base-branch: " ++ String.ofList (Text.reprStr raw))
    else .ok (.named explicitRemote (String.ofList branch))

def headsRef (branch : String) : String := "refs/heads/" ++ branch

def originTrackingRef (branch : String) : String := "refs/remotes/origin/" ++ branch

structure BaseResolution where
  canonical : String
  startPoint : String
  detail : String
  deriving DecidableEq

/-- The first twelve characters of an id. -/
def short (oid : Oid) : String := String.ofList (oid.toList.take 12)

/-! ## A call -/

/-- **A call**: the repository as it is then, and what `origin` is over time. -/
structure Call where
  objects : Objects
  repoPath : String
  baseBranch : String
  /-- Whether the caller asked `origin` for the branch itself. -/
  callerAsked : Bool := false
  refs : RefStore
  /-- Whether there is an `origin`. -/
  originConfigured : Bool := true
  /-- The refs of `origin` at each moment. -/
  origin : ℕ → RefStore
  /-- Why `origin` cannot be reached at a moment. -/
  unreachable : ℕ → Option String := fun _ => none
  /-- The moments of the caller's question, of the call's own, and of its end. -/
  started : ℕ
  asked : ℕ
  ended : ℕ
  ordered : started ≤ asked ∧ asked ≤ ended
  /-- What `git fetch` leaves of the refs, or what it fails with. -/
  fetch : Except String RefStore
  /-- What `git cat-file` says of an object that is no commit. -/
  catFileError : String := ""

namespace Call

variable (c : Call) (branch : String)

/-- The tip of the branch at `origin`. -/
def tipAt (moment : ℕ) : Option Oid := (c.origin moment).get (headsRef branch)

def During (moment : ℕ) : Prop := c.started ≤ moment ∧ moment ≤ c.ended

/-- The answer the caller brings. -/
def callerTip : Option Oid := if c.callerAsked then c.tipAt branch c.started else none

/-- What is known of the tip at `origin`. -/
def remoteTip : Except String (Option Oid) :=
  match c.callerTip branch with
  | some tip => .ok (some tip)
  | none =>
    if c.originConfigured then
      match c.unreachable c.asked with
      | some err => .error ("cannot reach origin to resolve base branch "
          ++ String.ofList (Text.reprStr branch.toList) ++ ": " ++ err ++ ". "
          ++ "Retry when the remote is reachable, or pass a full commit SHA to pin the base.")
      | none => .ok (c.tipAt branch c.asked)
    else .ok none

/-- The refs after the branch was fetched, where it has to be, and the object that git keeps of the
branch at `origin` then. -/
def tracked (tip : Oid) : Except String (RefStore × Oid) :=
  if c.objects.revParse c.refs (originTrackingRef branch) = some tip then .ok (c.refs, tip)
  else
    match c.fetch with
    | .error err => .error ("git fetch origin " ++ branch ++ " failed: " ++ err)
    | .ok refs =>
      match c.objects.revParse refs (originTrackingRef branch) with
      | none => .error ("origin/" ++ branch ++ " listed by ls-remote but missing after fetch in "
          ++ c.repoPath)
      | some remoteSha => .ok (refs, remoteSha)

/-- A local branch that differs from the one at `origin`; where that was asked for it is not
looked at. -/
def diverged (explicitRemote : Bool) (refs : RefStore) (remoteSha : Oid) : Option Oid :=
  if explicitRemote then none
  else (c.objects.revParse refs (headsRef branch)).filter (· ≠ remoteSha)

/-- `resolve_base_branch`: the resolution, and the refs behind it. -/
def resolveBaseBranch : Except String (BaseResolution × RefStore) :=
  match baseForm c.baseBranch with
  | .error e => .error e
  | .ok (.pinned raw) =>
    if (c.objects.commit raw).isSome then .ok (⟨raw, raw, "pinned commit " ++ short raw⟩, c.refs)
    else .error ("base commit " ++ raw ++ " not found in repo: " ++ c.catFileError)
  | .ok (.named explicitRemote branch) =>
    match c.remoteTip branch with
    | .error e => .error e
    | .ok (some tip) =>
      match c.tracked branch tip with
      | .error e => .error e
      | .ok (refs, remoteSha) =>
        match c.diverged branch explicitRemote refs remoteSha with
        | some localSha => .error ("local " ++ branch ++ " (" ++ short localSha
            ++ ") differs from origin/" ++ branch ++ " (" ++ short remoteSha ++ "). "
            ++ "A local base must match its remote exactly: push the local commits, "
            ++ "fast-forward the local branch, pass origin/" ++ branch
            ++ " to use the remote explicitly, or pass a full commit SHA to pin the base.")
        | none => .ok (⟨branch, "origin/" ++ branch,
            "branch " ++ branch ++ " at origin tip " ++ short remoteSha⟩, refs)
    | .ok none =>
      if explicitRemote then
        .error ("origin/" ++ branch
          ++ " was requested explicitly but that remote branch does not exist on origin.")
      else
        match c.objects.revParse c.refs (headsRef branch) with
        | none => .error ("base branch " ++ String.ofList (Text.reprStr branch.toList)
            ++ " exists neither locally nor on origin (origin "
            ++ (if c.originConfigured then "has no such branch"
              else "unreachable or not configured")
            ++ ").")
        | some localSha => .ok (⟨branch, branch, "local branch " ++ branch ++ " at "
            ++ short localSha ++ " (no matching origin branch)"⟩, c.refs)

/-! ## What is claimed -/

/-- The commits that a worker may start from. -/
def Allowed (form : Form) (commit : Oid) : Prop :=
  match form with
  | .pinned raw => c.objects.commit raw = some commit
  | .named _ branch =>
    (∃ moment, c.During moment ∧ c.tipAt branch moment = some commit)
      ∨ (c.originConfigured = false ∨ ∃ moment, c.During moment ∧ c.tipAt branch moment = none)
        ∧ c.refs.get (headsRef branch) = some commit

/-- The branch is on both sides, and is nowhere the same during the call. -/
def Differs : Prop :=
  c.originConfigured = true ∧ ∃ localSha, c.refs.get (headsRef branch) = some localSha
    ∧ ∀ moment, c.During moment → ∃ tip, c.tipAt branch moment = some tip ∧ tip ≠ localSha

/-- **The call is right.** -/
structure Right : Prop where
  /-- What it returns leads to a commit that a worker may start from. -/
  start : ∀ resolution refs, c.resolveBaseBranch = .ok (resolution, refs) →
    ∃ form, baseForm c.baseBranch = .ok form
      ∧ c.objects.Leads (c.Allowed form) (c.objects.revParse refs resolution.startPoint)
  /-- It raises where the bare name of a branch is another commit on each side. -/
  differing : ∀ branch, baseForm c.baseBranch = .ok (.named false branch) → c.Differs branch →
    ∃ e, c.resolveBaseBranch = .error e

/-! ## The condition -/

/-- The condition on a branch that is at `origin`, with the refs behind the fetch. -/
structure RemoteSound (explicitRemote : Bool) (refs : RefStore) (remoteSha : Oid) : Prop where
  /-- None of the names that come before the ref of the branch exists, or it is at a commit that is
  right as well; and that ref exists and is at such a commit. -/
  start : c.objects.Denotes refs (c.Allowed (.named explicitRemote branch))
    ["origin/" ++ branch, "refs/origin/" ++ branch, "refs/tags/origin/" ++ branch,
      "refs/heads/origin/" ++ branch]
    (originTrackingRef branch) [originTrackingRef branch ++ "/HEAD"] ("origin/" ++ branch)
  /-- A bare name that differs was not taken for the same because of where that ref is. -/
  differing : explicitRemote = false → ¬ c.Differs branch

/-- The condition on a branch that is only local. -/
def LocalSound : Prop :=
  if fullHex branch || !plain branch then
    -- the name of the branch is no name of a ref to git
    c.objects.Leads (c.Allowed (.named false branch)) (c.objects.revParse c.refs branch)
  else
    c.objects.Denotes c.refs (c.Allowed (.named false branch))
      [branch, "refs/" ++ branch, "refs/tags/" ++ branch] (headsRef branch)
      ["refs/remotes/" ++ branch, "refs/remotes/" ++ branch ++ "/HEAD"] branch

/-- **The condition on a call.** -/
def Sound : Prop :=
  ∀ explicitRemote branch, baseForm c.baseBranch = .ok (.named explicitRemote branch) →
    (∀ tip refs remoteSha, c.remoteTip branch = .ok (some tip) →
      c.tracked branch tip = .ok (refs, remoteSha) →
      c.diverged branch explicitRemote refs remoteSha = none →
        c.RemoteSound branch explicitRemote refs remoteSha)
    ∧ (c.remoteTip branch = .ok none → explicitRemote = false →
      (c.objects.revParse c.refs (headsRef branch)).isSome = true → c.LocalSound branch)

/-! ## Names -/

theorem lookupNames_origin (branch : String) :
    lookupNames ("origin/" ++ branch)
      = ["origin/" ++ branch, "refs/origin/" ++ branch, "refs/tags/origin/" ++ branch,
          "refs/heads/origin/" ++ branch]
        ++ originTrackingRef branch :: [originTrackingRef branch ++ "/HEAD"] := by
  have hrefs : "refs/" ++ ("origin/" ++ branch) = "refs/origin/" ++ branch := by
    rw [← String.append_assoc]
    rfl
  have htags : "refs/tags/" ++ ("origin/" ++ branch) = "refs/tags/origin/" ++ branch := by
    rw [← String.append_assoc]
    rfl
  have hheads : "refs/heads/" ++ ("origin/" ++ branch) = "refs/heads/origin/" ++ branch := by
    rw [← String.append_assoc]
    rfl
  have hremotes : "refs/remotes/" ++ ("origin/" ++ branch) = originTrackingRef branch := by
    unfold originTrackingRef
    rw [← String.append_assoc]
    rfl
  unfold lookupNames
  rw [hrefs, htags, hheads, hremotes]
  rfl

variable {c branch}

theorem exists_of_remoteTip {tip : Oid} (h : c.remoteTip branch = .ok (some tip)) :
    ∃ moment, c.During moment ∧ c.tipAt branch moment = some tip := by
  unfold remoteTip at h
  split at h
  · next tip' htip =>
    cases h
    unfold callerTip at htip
    split at htip
    · exact ⟨c.started, ⟨le_rfl, c.ordered.1.trans c.ordered.2⟩, htip⟩
    · cases htip
  · split at h
    · split at h
      · cases h
      · have htip : c.tipAt branch c.asked = some tip := Except.ok.inj h
        exact ⟨c.asked, c.ordered, htip⟩
    · cases h

theorem not_differs_of_remoteTip (h : c.remoteTip branch = .ok none) : ¬ c.Differs branch := by
  rintro ⟨hconfigured, localSha, -, hall⟩
  unfold remoteTip at h
  split at h
  · cases h
  · rw [hconfigured, if_pos rfl] at h
    split at h
    · cases h
    · have hnone : c.tipAt branch c.asked = none := Except.ok.inj h
      obtain ⟨tip, htip, -⟩ := hall c.asked c.ordered
      rw [hnone] at htip
      cases htip

theorem plain_of_remoteTip {tip : Oid} (h : c.remoteTip branch = .ok (some tip)) :
    plain ("origin/" ++ branch) = true := by
  obtain ⟨moment, -, htip⟩ := exists_of_remoteTip h
  have hheads : plain ("refs/heads/" ++ branch) = true := (c.origin moment).plain_of_get _ _ htip
  exact plain_of_below (d := "refs/heads".toList) (o := "origin".toList) rfl rfl (by decide)
    (by decide) hheads

theorem fullHex_origin (branch : String) : fullHex ("origin/" ++ branch) = false :=
  not_fullHex_of_slash (by
    rw [String.toList_append]
    exact List.mem_append_left _ (by decide))

theorem revParse_pinned {raw : Oid} (h : baseForm c.baseBranch = .ok (.pinned raw))
    (refs : RefStore) : c.objects.revParse refs raw = some raw := by
  have hsha : isFullSha raw.toList = true := by
    unfold baseForm at h
    dsimp only at h
    split at h
    · cases h
    · split at h
      · next hfull =>
        cases h
        rw [String.toList_ofList]
        exact hfull
      · split at h <;> split at h <;> cases h
  have hdigits : ("0123456789abcdef".toList.all fun digit =>
      (digit.isDigit || "abcdef".toList.contains digit.toLower) && digit.toLower == digit)
        = true := by
    decide
  simp only [List.all_eq_true, Bool.and_eq_true, beq_iff_eq] at hdigits
  unfold isFullSha at hsha
  rw [Bool.and_eq_true, List.all_eq_true] at hsha
  obtain ⟨hlength, hall⟩ := hsha
  have hhex : fullHex raw = true := by
    unfold fullHex
    rw [hlength, Bool.true_and, List.all_eq_true]
    exact fun digit hdigit => (hdigits digit (List.contains_iff_mem.mp (hall digit hdigit))).1
  have hlower : raw.toList.map Char.toLower = raw.toList.map id :=
    List.map_congr_left fun digit hdigit =>
      (hdigits digit (List.contains_iff_mem.mp (hall digit hdigit))).2
  unfold Objects.revParse
  rw [hhex, if_pos rfl, hlower, List.map_id, String.ofList_toList]

/-! ## What a call comes to -/

/-- **What a call returns**, and where from. -/
theorem resolve_cases {resolution : BaseResolution} {refs : RefStore}
    (h : c.resolveBaseBranch = .ok (resolution, refs)) :
    (∃ raw, baseForm c.baseBranch = .ok (.pinned raw) ∧ (c.objects.commit raw).isSome = true
        ∧ resolution.startPoint = raw)
      ∨ (∃ explicitRemote branch tip remoteSha,
        baseForm c.baseBranch = .ok (.named explicitRemote branch)
          ∧ c.remoteTip branch = .ok (some tip) ∧ c.tracked branch tip = .ok (refs, remoteSha)
          ∧ c.diverged branch explicitRemote refs remoteSha = none
          ∧ resolution.startPoint = "origin/" ++ branch)
      ∨ ∃ branch, baseForm c.baseBranch = .ok (.named false branch)
          ∧ c.remoteTip branch = .ok none
          ∧ (c.objects.revParse c.refs (headsRef branch)).isSome = true
          ∧ resolution.startPoint = branch ∧ refs = c.refs := by
  unfold resolveBaseBranch at h
  split at h
  · cases h
  · next raw hform =>
    split at h
    · next hcommit =>
      cases h
      exact .inl ⟨raw, hform, hcommit, rfl⟩
    · cases h
  · next explicitRemote branch hform =>
    split at h
    · cases h
    · next tip htip =>
      split at h
      · cases h
      · next refs' remoteSha htracked =>
        split at h
        · cases h
        · next hsame =>
          cases h
          exact .inr (.inl ⟨explicitRemote, branch, tip, remoteSha, hform, htip, htracked, hsame,
            rfl⟩)
    · next htip =>
      cases explicitRemote with
      | true => cases h
      | false =>
        rw [if_neg Bool.false_ne_true] at h
        split at h
        · cases h
        · next localSha hlocal =>
          cases h
          exact .inr (.inr ⟨branch, hform, htip, by rw [hlocal]; rfl, rfl, rfl⟩)

theorem resolve_of_remote {explicitRemote : Bool} {tip remoteSha : Oid} {refs : RefStore}
    (hform : baseForm c.baseBranch = .ok (.named explicitRemote branch))
    (htip : c.remoteTip branch = .ok (some tip))
    (htracked : c.tracked branch tip = .ok (refs, remoteSha))
    (hsame : c.diverged branch explicitRemote refs remoteSha = none) :
    ∃ resolution, c.resolveBaseBranch = .ok (resolution, refs)
      ∧ resolution.startPoint = "origin/" ++ branch := by
  unfold resolveBaseBranch
  rw [hform]
  dsimp only
  rw [htip]
  dsimp only
  rw [htracked]
  dsimp only
  rw [hsame]
  exact ⟨_, rfl, rfl⟩

theorem resolve_of_local (hform : baseForm c.baseBranch = .ok (.named false branch))
    (htip : c.remoteTip branch = .ok none)
    (hlocal : (c.objects.revParse c.refs (headsRef branch)).isSome = true) :
    ∃ resolution, c.resolveBaseBranch = .ok (resolution, c.refs)
      ∧ resolution.startPoint = branch := by
  obtain ⟨localSha, hsha⟩ := Option.isSome_iff_exists.mp hlocal
  unfold resolveBaseBranch
  rw [hform]
  dsimp only
  rw [htip]
  dsimp only
  rw [if_neg Bool.false_ne_true, hsha]
  exact ⟨_, rfl, rfl⟩

theorem error_of_differs (hform : baseForm c.baseBranch = .ok (.named false branch))
    (hdiffers : c.Differs branch)
    (hsound : ∀ tip refs remoteSha, c.remoteTip branch = .ok (some tip) →
      c.tracked branch tip = .ok (refs, remoteSha) →
      c.diverged branch false refs remoteSha ≠ none) :
    ∃ e, c.resolveBaseBranch = .error e := by
  cases hresult : c.resolveBaseBranch with
  | error e => exact ⟨e, rfl⟩
  | ok returned =>
    obtain ⟨resolution, refs⟩ := returned
    rcases resolve_cases hresult with
      ⟨raw, hpinned, -⟩ | ⟨explicitRemote, other, tip, remoteSha, hother, htip, htracked, hsame, -⟩
        | ⟨other, hother, htip, -⟩
    · rw [hform] at hpinned
      cases hpinned
    · rw [hform] at hother
      cases hother
      exact absurd hsame (hsound tip _ remoteSha htip htracked)
    · rw [hform] at hother
      cases hother
      exact absurd hdiffers (not_differs_of_remoteTip htip)

theorem leads_local_iff :
    c.objects.Leads (c.Allowed (.named false branch)) (c.objects.revParse c.refs branch)
      ↔ c.LocalSound branch := by
  unfold LocalSound
  split
  · rfl
  · next hplain =>
    rw [Bool.or_eq_true, not_or, Bool.not_eq_true, Bool.not_eq_true, Bool.not_eq_false'] at hplain
    exact Objects.leads_revParse_iff hplain.1 hplain.2 rfl

theorem leads_remote_iff {explicitRemote : Bool} {tip : Oid} {refs : RefStore}
    (htip : c.remoteTip branch = .ok (some tip)) :
    c.objects.Leads (c.Allowed (.named explicitRemote branch))
        (c.objects.revParse refs ("origin/" ++ branch))
      ↔ c.objects.Denotes refs (c.Allowed (.named explicitRemote branch))
        ["origin/" ++ branch, "refs/origin/" ++ branch, "refs/tags/origin/" ++ branch,
          "refs/heads/origin/" ++ branch]
        (originTrackingRef branch) [originTrackingRef branch ++ "/HEAD"] ("origin/" ++ branch) :=
  Objects.leads_revParse_iff (fullHex_origin branch) (plain_of_remoteTip htip)
    (lookupNames_origin branch)

/-- **In an ordinary repository the condition is met**: no other name is in the way, the fetch
left the branches alone, and moved the ref of the branch to where it was at `origin`. -/
theorem remoteSound_of_moved {explicitRemote : Bool} {refs : RefStore} {remoteSha : Oid}
    {moment : ℕ} (hduring : c.During moment) (htip : c.tipAt branch moment = some remoteSha)
    (hcommit : c.objects.commit remoteSha = some remoteSha)
    (hclear : refs.first ["origin/" ++ branch, "refs/origin/" ++ branch,
      "refs/tags/origin/" ++ branch, "refs/heads/origin/" ++ branch] = none)
    (hmoved : refs.get (originTrackingRef branch) = some remoteSha)
    (hbranches : refs.get (headsRef branch) = c.refs.get (headsRef branch))
    (hsame : c.diverged branch explicitRemote refs remoteSha = none) :
    c.RemoteSound branch explicitRemote refs remoteSha := by
  have hallowed : c.Allowed (.named explicitRemote branch) remoteSha :=
    .inl ⟨moment, hduring, htip⟩
  refine ⟨⟨fun oid hoid => ?_, fun _ oid hoid => ?_, fun _ hnone => ?_⟩, fun hbare hdiffers => ?_⟩
  · rw [hclear] at hoid
    cases hoid
  · rw [hmoved] at hoid
    cases hoid
    exact ⟨remoteSha, hcommit, hallowed⟩
  · rw [hmoved] at hnone
    cases hnone
  · obtain ⟨-, localSha, hlocal, hall⟩ := hdiffers
    obtain ⟨tip, htip', hne⟩ := hall moment hduring
    rw [htip] at htip'
    cases htip'
    rw [← hbranches] at hlocal
    have hplain : plain (headsRef branch) = true := refs.plain_of_get _ _ hlocal
    have hhex : fullHex (headsRef branch) = false := not_fullHex_of_slash (by
      unfold headsRef
      rw [String.toList_append]
      exact List.mem_append_left _ (by decide))
    have hparse : c.objects.revParse refs (headsRef branch) = some localSha := by
      unfold Objects.revParse
      rw [hhex, hplain, if_neg Bool.false_ne_true, if_pos rfl]
      unfold RefStore.first lookupNames
      rw [List.findSome?_cons, hlocal]
      rfl
    unfold diverged at hsame
    rw [hbare, if_neg Bool.false_ne_true, hparse, Option.filter_some,
      if_pos (decide_eq_true hne.symm)] at hsame
    cases hsame

/-! ## The main result -/

variable (c) in
/-- **A call is right exactly if the names it leaves to git mean what they were made for**: where it
returns `origin/<b>`, no ref that git finds before that of the branch is in the way, and the fetch
left that ref at a commit the branch had at `origin`; where it returns `<b>`, no ref that git
finds before the branch is in the way. -/
theorem right_iff : c.Right ↔ c.Sound := by
  constructor
  · intro h explicitRemote branch hform
    refine ⟨fun tip refs remoteSha htip htracked hsame => ?_, fun htip hbare hlocal => ?_⟩
    · obtain ⟨resolution, hresult, hstart⟩ := resolve_of_remote hform htip htracked hsame
      refine ⟨?_, fun hbare hdiffers => ?_⟩
      · obtain ⟨form, hsameForm, hleads⟩ := h.start resolution refs hresult
        rw [hform] at hsameForm
        cases hsameForm
        rw [hstart] at hleads
        exact (leads_remote_iff htip).mp hleads
      · subst hbare
        obtain ⟨e, herror⟩ := h.differing branch hform hdiffers
        rw [hresult] at herror
        cases herror
    · subst hbare
      obtain ⟨resolution, hresult, hstart⟩ := resolve_of_local hform htip hlocal
      obtain ⟨form, hsameForm, hleads⟩ := h.start resolution c.refs hresult
      rw [hform] at hsameForm
      cases hsameForm
      rw [hstart] at hleads
      exact leads_local_iff.mp hleads
  · intro h
    refine ⟨fun resolution refs hresult => ?_, fun branch hform hdiffers => ?_⟩
    · rcases resolve_cases hresult with ⟨raw, hform, hcommit, hstart⟩
        | ⟨explicitRemote, branch, tip, remoteSha, hform, htip, htracked, hsame, hstart⟩
        | ⟨branch, hform, htip, hlocal, hstart, hrefs⟩
      · obtain ⟨commit, hcommit⟩ := Option.isSome_iff_exists.mp hcommit
        refine ⟨.pinned raw, hform, commit, ?_, hcommit⟩
        rw [hstart, revParse_pinned hform]
        exact hcommit
      · refine ⟨_, hform, ?_⟩
        rw [hstart]
        exact (leads_remote_iff htip).mpr
          ((h explicitRemote branch hform).1 tip refs remoteSha htip htracked hsame).start
      · refine ⟨_, hform, ?_⟩
        rw [hstart, hrefs]
        exact leads_local_iff.mpr ((h false branch hform).2 htip rfl hlocal)
    · refine error_of_differs hform hdiffers fun tip refs remoteSha htip htracked hsame => ?_
      exact ((h false branch hform).1 tip refs remoteSha htip htracked hsame).differing rfl hdiffers

end Call

/-- A repository that fetches one other branch only, whose `main` is where `origin` was long ago. -/
def narrowCall : Call where
  objects := ⟨some, fun _ _ => none⟩
  repoPath := "/repo"
  baseBranch := "main"
  refs := .ofList [("refs/heads/main", "1111111111111111111111111111111111111111"),
    ("refs/remotes/origin/main", "1111111111111111111111111111111111111111")] (by decide)
  origin _ := .ofList [("refs/heads/main", "2222222222222222222222222222222222222222")] (by decide)
  started := 0
  asked := 0
  ended := 1
  ordered := by decide
  fetch := .ok (.ofList [("refs/heads/main", "1111111111111111111111111111111111111111"),
    ("refs/remotes/origin/main", "1111111111111111111111111111111111111111")] (by decide))

/-- **A worker starts where `origin` was long ago**, though the call asked `origin` and fetched. -/
theorem stale_base :
    (narrowCall.resolveBaseBranch.toOption.map fun returned =>
        (returned.1.startPoint, narrowCall.objects.revParse returned.2 returned.1.startPoint))
      = some ("origin/main", some "1111111111111111111111111111111111111111")
    ∧ ¬ narrowCall.Right := by
  have hreturned : (narrowCall.resolveBaseBranch.toOption.map fun returned =>
      (returned.1.startPoint, narrowCall.objects.revParse returned.2 returned.1.startPoint))
      = some ("origin/main", some "1111111111111111111111111111111111111111") := by
    decide +kernel
  refine ⟨hreturned, fun h => ?_⟩
  have hform : baseForm narrowCall.baseBranch = .ok (.named false "main") := by
    rfl
  obtain ⟨e, herror⟩ := h.differing "main" hform
    ⟨rfl, "1111111111111111111111111111111111111111", rfl, fun _ _ =>
      ⟨"2222222222222222222222222222222222222222", rfl, by decide⟩⟩
  rw [herror] at hreturned
  cases hreturned

end BaseBranch
