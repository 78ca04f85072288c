import CharlieBot.Lib.Json
import CharlieBot.Lib.Transition
import Mathlib.Data.List.Sort
import Mathlib.Data.String.Basic

/-!
# The configuration and its reload

The configuration is one instance that everybody holds. Every call asks for it anew: the
cache compares the time and the size of `config.yaml` with those of the last load that
went well and of the last that failed, and loads again where they are neither; what was
loaded is copied, field by field, into the instance.

What a load comes to depends on more than that one file: a stray file below `config.d`
makes it fail. So a load that failed is not tried again when its cause is gone, as long as
`config.yaml` stands as it stood (`stale_after_stray`).

Along every run in which a load that failed would still fail whenever it is not tried again, in
which a file that has the time and size of the one that was loaded has its values, and
in which no configuration that loads is replaced by one that does not before a call
has looked at it, every call returns the values of the latest configuration that
loads (`current_of_run`).
-/

namespace ConfigReload

/-! ## Loading -/

/-- `config.yaml`, with its time and its size. -/
structure ConfigFile where
  text : String
  mtime : ℚ
  size : ℕ
  deriving DecidableEq

/-- An entry of `config.d`. -/
structure DirEntry where
  name : String
  isFile : Bool
  deriving DecidableEq

/-- What the loader reads of the profile's home. -/
structure Home where
  config : Option ConfigFile := none
  /-- `config.d`, where it is a directory. -/
  configD : Option (List DirEntry) := none
  deriving DecidableEq

/-- The time and the size of a file. -/
abbrev Fingerprint := ℚ × ℕ

/-- `_config_fingerprint`. -/
def Home.fingerprint (home : Home) : Fingerprint :=
  match home.config with
  | none => (0, 0)
  | some file => (file.mtime, file.size)

/-- The fields of a `CharlieBotConfig`. -/
def modelFields : List String :=
  ["charliebot_home", "headless_chrome_bin", "server", "paths", "backends", "accounts", "voice",
    "code_server", "ui", "slack", "publish", "telegram"]

def credentialsPrefix : String := "credentials: "

/-- `LEGACY_KEYS`: the retired keys, and where each moved. -/
def legacyKeys : List (String × String) :=
  [("server_host", "server.host"),
    ("server_port", "server.port"),
    ("subprocess_buffer_limit_mb", "server.subprocess_buffer_limit_mb"),
    ("workspace_dirs", "paths.workspace_dirs"),
    ("project_dirs", "paths.workspace_dirs"),
    ("worktree_dir", "paths.worktree_dir"),
    ("backend_options", "backends.options"),
    ("model_preference", "backends.preference"),
    ("claude_accounts", "accounts.claude"),
    ("claude_compaction", "accounts.claude_compaction"),
    ("voice_engine", "voice.engine"),
    ("voice_model_id", "voice.model_id"),
    ("code_server_bin", "code_server.bin"),
    ("code_server_config", "code_server.config"),
    ("backlog_repos", "ui.backlog_repos"),
    ("home_services", "ui.home_services"),
    ("backlog_repo", "removed (list the repo under ui.backlog_repos)"),
    ("backlog_label", "removed"),
    ("slack_allowed_user_ids", "slack.allowed_user_ids"),
    ("publish_dir", "publish.dir"),
    ("public_base_url", "publish.public_base_url"),
    ("telegram_chat_id", "telegram.chat_id"),
    (credentialsPrefix ++ "slack_bot_token", "slack.bot_token"),
    (credentialsPrefix ++ "slack_app_token", "slack.app_token"),
    (credentialsPrefix ++ "slack_user_token", "slack.user_token"),
    (credentialsPrefix ++ "telegram_bot_token", "telegram.bot_token"),
    (credentialsPrefix ++ "charliebot_access_key", "charliebot.access_key"),
    (credentialsPrefix ++ "moonshot_api_key", "moonshot.api_key"),
    (credentialsPrefix ++ "aigw_api_key", "aigw.api_key"),
    (credentialsPrefix ++ "linear_api_key", "linear.api_key"),
    (credentialsPrefix ++ "gemini_api_key", "gemini.api_key"),
    (credentialsPrefix ++ "gemini_model", "gemini.model"),
    (credentialsPrefix ++ "feishu_app_id", "feishu.app_id"),
    (credentialsPrefix ++ "feishu_app_secret", "feishu.app_secret"),
    (credentialsPrefix ++ "feishu_refresh_token", "feishu.refresh_token"),
    (credentialsPrefix ++ "feishu_user_access_token", "feishu.user_access_token"),
    (credentialsPrefix ++ "google_client_id", "google.client_id"),
    (credentialsPrefix ++ "google_client_secret", "google.client_secret"),
    (credentialsPrefix ++ "google_refresh_token", "google.refresh_token"),
    (credentialsPrefix ++ "google_docs_client_id", "google.client_id"),
    (credentialsPrefix ++ "google_docs_client_secret", "google.client_secret"),
    (credentialsPrefix ++ "google_docs_refresh_token", "google.refresh_token"),
    (credentialsPrefix ++ "google_docs_default_folder_id", "google.docs_default_folder_id"),
    (credentialsPrefix ++ "twitter_api_key", "twitter.api_key"),
    (credentialsPrefix ++ "twitter_api_secret", "twitter.api_secret"),
    (credentialsPrefix ++ "twitter_access_token", "twitter.access_token"),
    (credentialsPrefix ++ "twitter_access_token_secret", "twitter.access_token_secret")]

def movedTo (key : String) : Option String :=
  (legacyKeys.lookup key).or
    ((legacyKeys.lookup (credentialsPrefix ++ key)).map ("credentials.yaml " ++ ·))

/-- A configuration: the value of each attribute. -/
structure CharlieBotConfig (V : Type*) where
  attributes : String → V

/-- Two configurations have the same values. -/
def CharlieBotConfig.Agrees {V : Type*} (a b : CharlieBotConfig V) : Prop :=
  ∀ name ∈ modelFields, a.attributes name = b.attributes name

instance {V : Type*} [DecidableEq V] (a b : CharlieBotConfig V) : Decidable (a.Agrees b) := by
  unfold CharlieBotConfig.Agrees
  infer_instance

/-- What the loader is made with: the path of the home, the YAML parser, and the validation
of `CharlieBotConfig`, which gives the value of every field or the text of an error. -/
structure Loader (V : Type*) where
  path : String
  parse : String → Except String Json
  validate : Dict → Except String (CharlieBotConfig V)

namespace Loader

variable {V : Type*} (loader : Loader V)

/-- The first YAML file directly below `config.d`. -/
def stray (home : Home) : Option DirEntry :=
  ((home.configD.getD []).insertionSort fun a b => a.name ≤ b.name).find? fun entry =>
    entry.name.endsWith ".yaml" && entry.isFile

/-- `load_yaml(config_path, default=\x7b\x7d)`. -/
def loadYaml (home : Home) : Except String Json :=
  match home.config with
  | none => .ok (.obj [])
  | some file => (loader.parse file.text).map fun data => if data.isNone then .obj [] else data

def loadConfig (home : Home) : Except String (CharlieBotConfig V) :=
  match stray home with
  | some entry => .error (loader.path ++ "/config.d/" ++ entry.name ++ " is not a config location: "
      ++ "only config.d/cron.d/ holds fragment files; "
      ++ "keys belong in config.yaml (structure) or credentials.yaml (secrets)")
  | none =>
    match loader.loadYaml home with
    | .error error => .error error
    | .ok (.obj data) =>
      let hits := data.filterMap fun field => (movedTo field.1).map fun place =>
        "  " ++ field.1 ++ " -> " ++ place
      if hits ≠ [] then
        .error (loader.path ++ "/config.yaml still uses retired top-level keys; move each one:\n"
          ++ String.intercalate "\n" hits)
      else if Dict.has data "charliebot_home" then
        .error (loader.path ++ "/config.yaml sets 'charliebot_home'; that path is chosen by the "
          ++ "CHARLIEBOT_HOME environment variable. Remove the key.")
      else loader.validate data
    | .ok _ => .error "argument after ** must be a mapping"

end Loader

/-! ## The cache -/

structure HotReloadCache (T : Type*) where
  value : Option T := none
  mtime : Option Fingerprint := none
  failedMtime : Option Fingerprint := none
  /-- The errors that were reported since the last load that went well. -/
  seen : List String := []
  warnings : List String := []

namespace HotReloadCache

variable {T : Type*} (cache : HotReloadCache T)

/-- `WarnOnceRegistry.log`. -/
def warn (error : String) : HotReloadCache T :=
  if error ∈ cache.seen then cache
  else { cache with seen := error :: cache.seen, warnings := cache.warnings ++ [error] }

/-- Whether `get` loads again. -/
def reloads (fingerprint : Fingerprint) : Bool :=
  cache.value.isNone
    || (some fingerprint ≠ cache.mtime && some fingerprint ≠ cache.failedMtime)

/-- `_HotReloadCache.get`, with what a load comes to; the cache behind it. What it returns is the
value the cache has then, and where there is none it raises. -/
def get (install : Option T → T → T) (fingerprint : Fingerprint) (loaded : Except String T) :
    HotReloadCache T :=
  if cache.reloads fingerprint then
    match loaded with
    | .error error =>
      let warned := cache.warn error
      -- without a value to fall back on the failure is not remembered
      if cache.value.isNone then warned else { warned with failedMtime := some fingerprint }
    | .ok fresh =>
      { cache with
        value := some (install cache.value fresh)
        mtime := some fingerprint
        failedMtime := none
        seen := [] }
  else cache

end HotReloadCache

/-- `_install_config_snapshot`: the first is adopted, a later one copied field by field. -/
def installConfigSnapshot {V : Type*} (current : Option (CharlieBotConfig V))
    (fresh : CharlieBotConfig V) : CharlieBotConfig V :=
  match current with
  | none => fresh
  | some current => modelFields.foldl (fun held name =>
      ⟨fun key => if key = name then fresh.attributes name else held.attributes key⟩) current

/-! ## Runs -/

/-- The home and the cache, and what is known of what came before. -/
structure ConfigState (V : Type*) where
  home : Home := {}
  cache : HotReloadCache (CharlieBotConfig V) := {}
  latest : Option (CharlieBotConfig V) := none
  /-- Whether a call looked at the home as it is. -/
  looked : Bool := false
  loads : List (CharlieBotConfig V) := []

inductive ConfigAction where
  | change (home : Home)
  /-- `get_config`. -/
  | get

namespace ConfigState

variable {V : Type*} (loader : Loader V) (s : ConfigState V)

def current : Option (CharlieBotConfig V) := (loader.loadConfig s.home).toOption

def start (home : Home) : ConfigState V where
  home := home
  latest := (loader.loadConfig home).toOption

/-- The cache behind a call. -/
def asked : HotReloadCache (CharlieBotConfig V) :=
  s.cache.get installConfigSnapshot s.home.fingerprint (loader.loadConfig s.home)

/-- One step: a change of `config.yaml` moves its time or its size. -/
def step : ConfigAction → Option (ConfigState V)
  | .change home =>
    if home.config = s.home.config ∨ home.fingerprint ≠ s.home.fingerprint then
      some { s with
        home := home
        latest := (loader.loadConfig home).toOption.or s.latest
        looked := false }
    else none
  | .get =>
    some { s with
      cache := s.asked loader
      looked := true
      loads := if s.cache.reloads s.home.fingerprint then s.loads ++ (s.current loader).toList
        else s.loads }

def system : TransitionSystem (ConfigState V) ConfigAction := ⟨step loader⟩

/-! ## What is claimed -/

/-- **The configuration is current.** -/
structure Current : Prop where
  /-- What a call has returned of the home as it is has the values of the latest configuration
  that loads. -/
  returned : s.looked = true → ∀ held ∈ s.cache.value, ∀ latest ∈ s.latest, held.Agrees latest
  whole : ∀ held ∈ s.cache.value, ∃ fresh ∈ s.loads, held.Agrees fresh
  /-- A load that fails changes nothing of what is held. -/
  kept : ∀ t, s.step loader .get = some t → s.current loader = none → t.cache.value = s.cache.value

/-- The condition on a step. -/
def Meets : ConfigAction → Prop
  | .get =>
    -- a load that failed would fail again if it is not tried again
    (some s.home.fingerprint = s.cache.failedMtime → (s.current loader).isNone = true)
    -- what has the time and the size of what was loaded has its values
    ∧ (some s.home.fingerprint = s.cache.mtime →
      ∀ fresh ∈ s.current loader, ∀ held ∈ s.cache.value, held.Agrees fresh)
  | .change home =>
    -- a call looked at what loads before something comes that does not
    (loader.loadConfig home).toOption.isNone = true → (s.current loader).isSome = true →
      s.looked = true

instance [DecidableEq V] (a : ConfigAction) : Decidable (s.Meets loader a) := by
  unfold Meets
  split <;> infer_instance

/-! ## One step -/

theorem agrees_self (a : CharlieBotConfig V) : a.Agrees a := fun _ _ => rfl

theorem attributes_foldl_setattr (names : List String) (current fresh : CharlieBotConfig V)
    {name : String} (h : name ∈ names ∨ current.attributes name = fresh.attributes name) :
    (names.foldl (fun held name => (⟨fun key => if key = name then fresh.attributes name
      else held.attributes key⟩ : CharlieBotConfig V)) current).attributes name
        = fresh.attributes name := by
  induction names generalizing current with
  | nil =>
    rcases h with hmem | hsame
    · cases hmem
    · exact hsame
  | cons first names ih =>
    rw [List.foldl_cons]
    apply ih
    by_cases hfirst : name = first
    · right
      show (if name = first then _ else _) = _
      rw [if_pos hfirst, hfirst]
    · rcases h with hmem | hsame
      · exact .inl ((List.mem_cons.mp hmem).resolve_left hfirst)
      · right
        show (if name = first then _ else _) = _
        rw [if_neg hfirst]
        exact hsame

/-- **What is installed has the values of the load**, whatever was held. -/
theorem agrees_installConfigSnapshot (current : Option (CharlieBotConfig V))
    (fresh : CharlieBotConfig V) : (installConfigSnapshot current fresh).Agrees fresh := by
  cases current with
  | none => exact agrees_self fresh
  | some current => exact fun name hname => attributes_foldl_setattr _ _ _ (.inl hname)

/-- **What a call does**: it loads and installs, loads in vain, or does not load; only in the
first case is something else held. -/
theorem asked_cases :
    (∃ fresh, s.current loader = some fresh ∧ s.cache.reloads s.home.fingerprint = true
        ∧ (s.asked loader).value = some (installConfigSnapshot s.cache.value fresh))
      ∨ (s.current loader = none ∧ (s.asked loader).value = s.cache.value)
      ∨ (s.cache.reloads s.home.fingerprint = false ∧ (s.asked loader).value = s.cache.value) := by
  unfold asked HotReloadCache.get current
  cases hreloads : s.cache.reloads s.home.fingerprint with
  | false => exact .inr (.inr ⟨rfl, rfl⟩)
  | true =>
    cases hload : loader.loadConfig s.home with
    | ok fresh => exact .inl ⟨fresh, rfl, rfl, rfl⟩
    | error error =>
      refine .inr (.inl ⟨rfl, ?_⟩)
      have hwarn : (s.cache.warn error).value = s.cache.value := by
        unfold HotReloadCache.warn
        split <;> rfl
      rw [if_pos rfl]
      dsimp only
      split
      · exact hwarn
      · exact hwarn

/-- Where nothing is loaded, the time and the size are those of the load that went well or of
the one that failed. -/
theorem of_not_reloads (h : s.cache.reloads s.home.fingerprint = false) :
    some s.home.fingerprint = s.cache.mtime ∨ some s.home.fingerprint = s.cache.failedMtime := by
  unfold HotReloadCache.reloads at h
  rw [Bool.or_eq_false_iff, Bool.and_eq_false_iff, decide_eq_false_iff_not,
    decide_eq_false_iff_not, not_not, not_not] at h
  exact h.2

/-! ## What holds in every state -/

/-- What holds in every state. -/
structure Inv : Prop where
  latest : ∀ fresh, s.current loader = some fresh → s.latest = some fresh
  /-- What is held is the latest, once a call has looked, or where the home does not load. -/
  held : s.current loader = none ∨ s.looked = true →
    ∀ held ∈ s.cache.value, ∀ latest ∈ s.latest, held.Agrees latest
  whole : ∀ held ∈ s.cache.value, ∃ fresh ∈ s.loads, held.Agrees fresh

variable {loader s} {t : ConfigState V}

theorem inv_start (home : Home) : Inv loader (start loader home) where
  latest _ h := h
  held _ _ h := nomatch h
  whole _ h := nomatch h

theorem Inv.agrees_asked (h : s.Inv loader) (hmeets : s.Meets loader .get) :
    ∀ held ∈ (s.asked loader).value, ∀ latest ∈ s.latest, held.Agrees latest := by
  intro held hheld latest hlatest
  rcases s.asked_cases loader with ⟨fresh, hfresh, -, hvalue⟩ | ⟨hnone, hvalue⟩ | ⟨hnot, hvalue⟩
  · rw [hvalue] at hheld
    cases hheld
    rw [h.latest fresh hfresh] at hlatest
    cases hlatest
    exact agrees_installConfigSnapshot _ _
  · exact h.held (.inl hnone) held (hvalue ▸ hheld) latest hlatest
  · cases hcurrent : s.current loader with
    | none => exact h.held (.inl hcurrent) held (hvalue ▸ hheld) latest hlatest
    | some fresh =>
      rcases s.of_not_reloads hnot with hsame | hfailed
      · have heq : fresh = latest := Option.some.inj ((h.latest fresh hcurrent).symm.trans hlatest)
        rw [← heq]
        exact hmeets.2 hsame fresh hcurrent held (hvalue ▸ hheld)
      · have hnone := hmeets.1 hfailed
        rw [hcurrent] at hnone
        cases hnone

/-- **Every step that meets the condition** keeps what is held current. -/
theorem Inv.step (h : s.Inv loader) {a : ConfigAction} (hmeets : s.Meets loader a)
    (hstep : s.step loader a = some t) : t.Inv loader := by
  cases a with
  | change home =>
    simp only [ConfigState.step] at hstep
    split at hstep
    · cases hstep
      refine ⟨fun fresh hfresh => ?_, fun hwhen held hheld latest hlatest => ?_, h.whole⟩
      · show (loader.loadConfig home).toOption.or s.latest = some fresh
        have hfresh : (loader.loadConfig home).toOption = some fresh := hfresh
        rw [hfresh]
        rfl
      · rcases hwhen with hnone | hlooked
        · have hnone : (loader.loadConfig home).toOption = none := hnone
          have hlatest : latest ∈ s.latest := by
            have hor : latest ∈ (loader.loadConfig home).toOption.or s.latest := hlatest
            rw [hnone] at hor
            exact hor
          refine h.held ?_ held hheld latest hlatest
          cases hcurrent : s.current loader with
          | none => exact .inl rfl
          | some fresh =>
            exact .inr (hmeets (by rw [hnone]; rfl) (by rw [hcurrent]; rfl))
        · cases hlooked
    · cases hstep
  | get =>
    cases hstep
    refine ⟨h.latest, fun _ => h.agrees_asked hmeets, fun held hheld => ?_⟩
    have hheld : held ∈ (s.asked loader).value := hheld
    show ∃ fresh ∈ (if s.cache.reloads s.home.fingerprint then
      s.loads ++ (s.current loader).toList else s.loads), held.Agrees fresh
    have hold : (∃ fresh ∈ s.loads, held.Agrees fresh) → ∃ fresh ∈
        (if s.cache.reloads s.home.fingerprint then s.loads ++ (s.current loader).toList
          else s.loads), held.Agrees fresh := by
      rintro ⟨fresh, hmem, hagrees⟩
      refine ⟨fresh, ?_, hagrees⟩
      split
      · exact List.mem_append_left _ hmem
      · exact hmem
    rcases s.asked_cases loader with ⟨fresh, hfresh, hreloads, hvalue⟩ | ⟨-, hvalue⟩ | ⟨-, hvalue⟩
    · rw [hvalue] at hheld
      cases hheld
      refine ⟨fresh, ?_, agrees_installConfigSnapshot _ _⟩
      rw [if_pos hreloads, hfresh]
      exact List.mem_append_right _ List.mem_cons_self
    · exact hold (h.whole held (hvalue ▸ hheld))
    · exact hold (h.whole held (hvalue ▸ hheld))

theorem value_of_not_loads (hnone : s.current loader = none) :
    (s.asked loader).value = s.cache.value := by
  rcases s.asked_cases loader with ⟨fresh, hfresh, -⟩ | ⟨-, hvalue⟩ | ⟨-, hvalue⟩
  · rw [hnone] at hfresh
    cases hfresh
  · exact hvalue
  · exact hvalue

theorem Inv.isCurrent (h : s.Inv loader) : s.Current loader where
  returned hlooked := h.held (.inr hlooked)
  whole := h.whole
  kept t hstep hnone := by
    cases hstep
    exact value_of_not_loads hnone

end ConfigState

/-! ## The main result -/

section Main

variable {V : Type*} {loader : Loader V} {home : Home} {as : List ConfigAction}
  {s : ConfigState V}

/-- **Every call returns the values of the latest configuration that loads**, in every run in which
a load that failed would still fail whenever it is not tried again, a file with the time and
the size of the one that was loaded has its values, and a call looks at what loads before
something comes that does not. -/
theorem current_of_run
    (hmeets : (ConfigState.system loader).Guarded (ConfigState.Meets loader)
      (ConfigState.start loader home) as)
    (hrun : (ConfigState.system loader).run (ConfigState.start loader home) as = some s) :
    s.Current loader :=
  ((ConfigState.system loader).run_invariant_of_guarded
    (fun _ _ _ hinv hm hstep => ConfigState.Inv.step hinv hm hstep)
    (ConfigState.inv_start home) hmeets hrun).isCurrent

end Main

/-- A loader whose configurations are told apart by the length of their text. -/
def lengthLoader : Loader ℕ where
  path := "/home"
  parse text := .ok (.obj [("text", .str text)])
  validate data := .ok ⟨fun _ =>
    match Dict.get data "text" with
    | .str text => text.length
    | _ => 0⟩

/-- An edit that is looked at is what every later call returns, a stray file or not. -/
theorem current_of_run_edited :
    ∃ s, (ConfigState.system lengthLoader).run
        (ConfigState.start lengthLoader { config := some ⟨"a", 1, 1⟩ })
        [.get, .change { config := some ⟨"bb", 2, 2⟩ }, .get,
          .change { config := some ⟨"bb", 2, 2⟩, configD := some [⟨"x.yaml", true⟩] },
          .get] = some s
      ∧ s.Current lengthLoader := by
  obtain ⟨s, hs⟩ := Option.isSome_iff_exists.mp (show ((ConfigState.system lengthLoader).run
    (ConfigState.start lengthLoader { config := some ⟨"a", 1, 1⟩ })
    [.get, .change { config := some ⟨"bb", 2, 2⟩ }, .get,
      .change { config := some ⟨"bb", 2, 2⟩, configD := some [⟨"x.yaml", true⟩] },
      .get]).isSome = true by decide +kernel)
  exact ⟨s, hs, current_of_run (TransitionSystem.guarded_of_check (by decide +kernel)) hs⟩

/-- **A load that failed for a stray file is not tried again when the file is gone.** -/
theorem stale_after_stray :
    ∃ s, (ConfigState.system lengthLoader).run
        (ConfigState.start lengthLoader { config := some ⟨"a", 1, 1⟩ })
        [.get,
          .change { config := some ⟨"bb", 2, 2⟩, configD := some [⟨"x.yaml", true⟩] }, .get,
          .change { config := some ⟨"bb", 2, 2⟩, configD := some [] }, .get] = some s
      ∧ s.looked = true ∧ ¬ s.Current lengthLoader := by
  have hrun : ((ConfigState.system lengthLoader).run
      (ConfigState.start lengthLoader { config := some ⟨"a", 1, 1⟩ })
      [.get,
        .change { config := some ⟨"bb", 2, 2⟩, configD := some [⟨"x.yaml", true⟩] }, .get,
        .change { config := some ⟨"bb", 2, 2⟩, configD := some [] }, .get]).map (fun s =>
      (s.looked, s.cache.value.map (·.attributes "server"),
        s.latest.map (·.attributes "server"))) = some (true, some 1, some 2) := by
    decide +kernel
  obtain ⟨s, hs, hseen⟩ := Option.map_eq_some_iff.mp hrun
  simp only [Prod.mk.injEq, Option.map_eq_some_iff] at hseen
  obtain ⟨hlooked, ⟨held, hheld, hone⟩, latest, hlatest, htwo⟩ := hseen
  refine ⟨s, hs, hlooked, fun h => ?_⟩
  have hsame := h.returned hlooked held hheld latest hlatest "server" (by decide)
  rw [hone, htwo] at hsame
  exact absurd hsame (by decide)

end ConfigReload
