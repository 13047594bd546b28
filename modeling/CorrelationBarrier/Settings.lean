import CorrelationBarrier.Policy
import CorrelationBarrier.Span
import CorrelationBarrier.Toml.Shape

/-!
# Settings and how they are read

`BarrierSettings.read` and `PollerSettings.read` read TOML text; a setting that is not there keeps its default.
`PollerSettings.validate` refuses what a poll loop cannot run with.
-/

namespace CorrelationBarrier

/-- Why settings are refused. -/
inductive SettingsError where
  /-- The text is not valid TOML. -/
  | malformed
  /-- The text is valid TOML, but says something that is no setting. -/
  | shape (cause : Toml.ShapeError)
  /-- A setting has a value that makes no sense. -/
  | invalid (field reason : String)
  deriving DecidableEq

/-- The wording of an error. -/
def SettingsError.message : SettingsError → String
  | .malformed => "not valid TOML"
  | .shape cause => cause.message
  | .invalid field reason => "invalid value for `" ++ field ++ "`: " ++ reason

/-- The settings of a barrier. -/
structure BarrierSettings where
  tokenPolicy : TokenPolicy := .validated
  releaseMode : ReleaseMode := .mark
  /-- The most messages that the store holds; zero means no bound. -/
  storeCapacity : Nat := 0
  deriving DecidableEq

/-- The settings of a poll loop. -/
structure PollerSettings where
  /-- The time from one poll to the next, in milliseconds. -/
  intervalMs : Nat := 100
  /-- The most pulls in one poll. -/
  maxMessagesPerPoll : Nat := 1
  /-- The pause after a pull that failed, in milliseconds. -/
  errorBackoffMs : Nat := 1000
  deriving DecidableEq

/-- Reads settings from TOML text, given the fields that it may set. -/
def readSettings {σ : Type} (known : List (Toml.Field σ)) (defaults : σ) (text : String) : Except SettingsError σ :=
  match Toml.Document.read text with
  | none => .error .malformed
  | some entries => (Toml.fields known defaults entries).mapError .shape

namespace BarrierSettings

/-- The settings that a text may give. -/
def known : List (Toml.Field BarrierSettings) :=
  [⟨"token_policy", fun v s => do
      let p ← Toml.choice [("tolerant", TokenPolicy.tolerant), ("validated", TokenPolicy.validated)] v
      return { s with tokenPolicy := p }⟩,
   ⟨"release_mode", fun v s => do
      let m ← Toml.choice [("remove", ReleaseMode.remove), ("mark", ReleaseMode.mark)] v
      return { s with releaseMode := m }⟩,
   ⟨"store_capacity", fun v s => do
      let n ← Toml.word "usize" v
      return { s with storeCapacity := n }⟩]

/-- Reads the settings of a barrier. -/
def read (text : String) : Except SettingsError BarrierSettings := readSettings known {} text

end BarrierSettings

namespace PollerSettings

/-- The settings that a text may give. -/
def known : List (Toml.Field PollerSettings) :=
  [⟨"interval_ms", fun v s => do
      let n ← Toml.word "u64" v
      return { s with intervalMs := n }⟩,
   ⟨"max_messages_per_poll", fun v s => do
      let n ← Toml.word "usize" v
      return { s with maxMessagesPerPoll := n }⟩,
   ⟨"error_backoff_ms", fun v s => do
      let n ← Toml.word "u64" v
      return { s with errorBackoffMs := n }⟩]

/-- A poll loop needs time between polls and at least one pull per poll. -/
def validate (s : PollerSettings) : Except SettingsError PollerSettings :=
  if s.intervalMs = 0 then .error (.invalid "interval_ms" "must be at least 1")
  else if s.maxMessagesPerPoll = 0 then .error (.invalid "max_messages_per_poll" "must be at least 1")
  else .ok s

/-- Reads the settings of a poll loop and validates them. -/
def read (text : String) : Except SettingsError PollerSettings := do
  let s ← readSettings known {} text
  validate s

/-- The time from one poll to the next. -/
def interval (s : PollerSettings) : Span := .ofMillis s.intervalMs

/-- The pause after a pull that failed. -/
def errorBackoff (s : PollerSettings) : Span := .ofMillis s.errorBackoffMs

theorem validate_eq_ok_iff {s t : PollerSettings} :
    validate s = .ok t ↔ s = t ∧ 1 ≤ s.intervalMs ∧ 1 ≤ s.maxMessagesPerPoll := by
  unfold validate
  by_cases hi : s.intervalMs = 0
  · simp [hi]
  by_cases hm : s.maxMessagesPerPoll = 0
  · simp [hi, hm]
  simpa [hi, hm] using fun _ => ⟨Nat.pos_of_ne_zero hi, Nat.pos_of_ne_zero hm⟩

end PollerSettings

end CorrelationBarrier
