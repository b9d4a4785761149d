import Reassembly.Settings.Config
import Reassembly.Proofs.Duration
import Reassembly.Proofs.Result

/-!
# Settings come to a value

A setting takes the value that is written for it, and keeps the one that it has where nothing is written, or nothing
that is a value of its kind. Nothing else matters: not the name, not the other settings, not the number of digits or the
size of what they write. The one exception is a span of time too long to be held, which stops a setting and the
configuration it belongs to. Only the three settings that are durations can be stopped so.
-/

namespace Reassembly

open Number

variable {α β : Type} {reading : Reading α} {writes : String → α → Prop} {stops : String → Prop} {name : String}
  {given : Option String} {current : α}

/-! ## Readings -/

/-- What a reading means: the values that texts write, and the texts that stop it. -/
structure Reading.Means (reading : Reading α) (writes : String → α → Prop) (stops : String → Prop) : Prop where
  some_iff : ∀ text value, reading text = .ok (some value) ↔ writes text value
  error_iff : ∀ text, reading text = .error .mk ↔ stops text

/-- A reading that is never stopped means what it reads. -/
theorem Reading.plain_means {read? : String → Option α}
    (h : ∀ text value, read? text = some value ↔ writes text value) :
    (Reading.plain read?).Means writes fun _ => False where
  some_iff text value := by rw [plain, Except.ok.injEq, h]
  error_iff text := by simp [plain]

/-- Values of one type among those of another are written alike. -/
theorem Reading.Means.map (h : reading.Means writes stops) (f : α → β) :
    Reading.Means (fun text => (reading text).map (·.map f)) (fun text b => ∃ a, writes text a ∧ f a = b) stops where
  some_iff text b := by
    rw [Result.map_eq_ok_iff]
    constructor
    · rintro ⟨read, hread, hmap⟩
      obtain ⟨a, rfl, hb⟩ := Option.map_eq_some_iff.mp hmap
      exact ⟨a, (h.some_iff text a).mp hread, hb⟩
    · rintro ⟨a, ha, rfl⟩
      exact ⟨some a, (h.some_iff text a).mpr ha, rfl⟩
  error_iff text := by rw [Result.map_eq_error_iff, h.error_iff]

/-- Texts write truth values as words in lower case. -/
def IsTruth (word : String) : Bool → Prop
  | true => word ∈ ["1", "true", "yes", "y", "on"]
  | false => word ∈ ["0", "false", "no", "n", "off"]

/-- A truth value is read from its words. -/
theorem Reading.truth?_eq_some_iff {word : String} {value : Bool} : truth? word = some value ↔ IsTruth word value := by
  have hdisjoint : ∀ word ∈ ["0", "false", "no", "n", "off"], word ∉ ["1", "true", "yes", "y", "on"] := by decide
  rw [truth?]
  cases value with
  | true =>
    rw [IsTruth]
    split_ifs <;> simp_all
  | false =>
    rw [IsTruth]
    split_ifs with htrue hfalse
    · exact iff_of_false (by simp) fun hfalse => hdisjoint word hfalse htrue
    · exact iff_of_true rfl hfalse
    · exact iff_of_false (by simp) hfalse

/-- What texts write, for values of each kind. -/
def SettingKind.Writes : SettingKind → String → SettingValue → Prop
  | natural bits, given, value => ∃ n, IsNatural (2 ^ bits) (Text.trim given.toList) n ∧ .natural n = value
  | integer bits, given, value => ∃ n, IsInteger (2 ^ (bits - 1)) (Text.trim given.toList) n ∧ .integer n = value
  | floating format, given, value =>
    ∃ number, IsFloating format (Text.trim given.toList) number ∧ .floating format number = value
  | truth, given, value =>
    ∃ holds, IsTruth (String.ofList ((Text.trim given.toList).map Char.toLower)) holds ∧ .truth holds = value
  | text, given, value => ∃ same, given = same ∧ .text same = value
  | duration, given, value => ∃ span, Duration.Writes given span ∧ .duration span = value

/-- The texts that stop a setting of each kind: spans that are too long, where durations are read. -/
def SettingKind.Overlong : SettingKind → String → Prop
  | duration, given => Duration.Overlong given
  | _, _ => False

/-- Whole numbers are read from what writes them. -/
theorem Reading.natural_means (bound : Nat) :
    (Reading.natural bound).Means (fun text => IsNatural bound (Text.trim text.toList)) fun _ => False :=
  plain_means fun _ _ => natural?_eq_some_iff

/-- A text is read as it stands. -/
theorem Reading.text_means : Reading.text.Means (fun text value => text = value) fun _ => False :=
  plain_means fun _ _ => by rw [Option.some.injEq]

/-- Durations are read from what writes them, and spans that are too long stop it. -/
theorem Reading.duration_means : Reading.duration.Means Duration.Writes Duration.Overlong where
  some_iff _ _ := Duration.read_eq_some_iff
  error_iff _ := Duration.read_eq_error_iff

/-- Values of each kind are read from what writes them. -/
theorem SettingKind.means (kind : SettingKind) : kind.reading.Means kind.Writes kind.Overlong := by
  cases kind with
  | natural bits => exact (Reading.natural_means (2 ^ bits)).map SettingValue.natural
  | integer bits =>
    have hread : (Reading.integer (2 ^ (bits - 1))).Means
        (fun text => IsInteger (2 ^ (bits - 1)) (Text.trim text.toList)) fun _ => False :=
      Reading.plain_means fun _ _ => integer?_eq_some_iff
    exact hread.map SettingValue.integer
  | floating format =>
    have hread : (Reading.floating format).Means
        (fun text => IsFloating format (Text.trim text.toList)) fun _ => False :=
      Reading.plain_means fun _ _ => floating?_eq_some_iff
    exact hread.map (SettingValue.floating format)
  | truth =>
    have hread : Reading.truth.Means
        (fun text => IsTruth (String.ofList ((Text.trim text.toList).map Char.toLower))) fun _ => False :=
      Reading.plain_means fun _ _ => Reading.truth?_eq_some_iff
    exact hread.map SettingValue.truth
  | text => exact Reading.text_means.map SettingValue.text
  | duration => exact Reading.duration_means.map SettingValue.duration

/-! ## One setting -/

/-- What a setting comes to, and the line that says so: the value that is written for it, or else the one that it
has. -/
inductive Settles (writes : String → α → Prop) (name : String) (current : α) : Option String → Logged α → Prop
  | absent : Settles writes name current none ⟨current, []⟩
  | written {text : String} {value : α} (h : writes text value) :
      Settles writes name current (some text)
        ⟨value, [⟨.info, s!"Config: {name} = {Text.quoted text} (user set)"⟩]⟩
  | ignored {text : String} (h : ∀ value, ¬ writes text value) :
      Settles writes name current (some text) ⟨current, [⟨.warn,
        s!"Configuration value {Text.quoted text} for {name} cannot be parsed into correct type; ignoring."⟩]⟩

/-- Every setting has something to come to, whatever is given for it. -/
theorem exists_settles (writes : String → α → Prop) (name : String) (current : α) (given : Option String) :
    ∃ logged, Settles writes name current given logged := by
  cases given with
  | none => exact ⟨_, .absent⟩
  | some text =>
    by_cases hwrites : ∃ value, writes text value
    · obtain ⟨value, hvalue⟩ := hwrites
      exact ⟨_, .written hvalue⟩
    · exact ⟨_, .ignored fun value hvalue => hwrites ⟨value, hvalue⟩⟩

/-- A setting comes to one value, with one line, when a text writes no two. -/
theorem Settles.unique (hwrites : ∀ text value other, writes text value → writes text other → value = other)
    {logged logged' : Logged α} (h : Settles writes name current given logged)
    (h' : Settles writes name current given logged') : logged = logged' := by
  cases h with
  | absent =>
    cases h'
    rfl
  | written h =>
    cases h' with
    | written h' => rw [hwrites _ _ _ h h']
    | ignored h' => exact absurd h (h' _)
  | ignored h =>
    cases h' with
    | written h' => exact absurd h' (h _)
    | ignored => rfl

namespace Reading.Means

/-- A text writes one value at most, as it is read as one. -/
theorem unique (h : reading.Means writes stops) (text : String) (value other : α) (hvalue : writes text value)
    (hother : writes text other) : value = other := by
  rw [← h.some_iff] at hvalue hother
  exact Option.some.inj (Except.ok.inj (hvalue.symm.trans hother))

/-- A setting is stopped by the texts that stop its reading. -/
theorem settle_eq_error_iff (h : reading.Means writes stops) :
    reading.settle name given current = .error .mk ↔ ∃ text ∈ given, stops text := by
  cases given with
  | none => simp [Reading.settle]
  | some text =>
    rw [Reading.settle, Result.map_eq_error_iff, h.error_iff]
    simp

/-- What a setting comes to is what is written for it, or what it has. -/
theorem settles (h : reading.Means writes stops) {logged : Logged α}
    (hok : reading.settle name given current = .ok logged) : Settles writes name current given logged := by
  cases given with
  | none =>
    obtain rfl := Except.ok.inj hok
    exact .absent
  | some text =>
    obtain ⟨read, hread, rfl⟩ := Result.map_eq_ok_iff.mp hok
    cases read with
    | some value => exact .written ((h.some_iff text value).mp hread)
    | none =>
      refine .ignored fun value hvalue => ?_
      have hsome := hread.symm.trans ((h.some_iff text value).mpr hvalue)
      simp at hsome

/-- A setting comes to what is written for it, or else to what it has, unless it is stopped. -/
theorem settle_eq_ok_iff (h : reading.Means writes stops) {logged : Logged α} :
    reading.settle name given current = .ok logged ↔
      Settles writes name current given logged ∧ ¬ ∃ text ∈ given, stops text := by
  have hstops : reading.settle name given current = .error .mk ↔ ∃ text ∈ given, stops text := h.settle_eq_error_iff
  rw [← hstops]
  constructor
  · intro hok
    refine ⟨h.settles hok, ?_⟩
    rw [hok]
    rintro ⟨⟩
  · rintro ⟨hsettles, hgoes⟩
    cases hresult : reading.settle name given current with
    | error stopped => exact absurd hresult hgoes
    | ok other => rw [(h.settles hresult).unique h.unique hsettles]

end Reading.Means

/-! ## The configuration -/

namespace Environment

variable {environment : Environment} {config result : Config}

/-- A setting comes to a value in an environment, in which it may be given under its own name or another one. -/
def Settles (environment : Environment) (writes : String → α → Prop) (name : String) (current value : α) : Prop :=
  ∃ lines, Reassembly.Settles writes name current (environment.value name) ⟨value, lines⟩

/-- A text writes a number of 64 bits. -/
def WritesNumber (text : String) (n : Nat) : Prop := IsNatural settingBound (Text.trim text.toList) n

/-- A text writes itself. -/
def WritesText (text same : String) : Prop := text = same

/-- Every setting of a configuration comes by itself to its value in another. -/
structure Overrides (environment : Environment) (config result : Config) : Prop where
  retryLimit : environment.Settles WritesNumber "DIRECTIO_CLIENT_RETRY_MAX_ATTEMPTS" config.client.retryLimit
    result.client.retryLimit
  retryDelay : environment.Settles Duration.Writes "DIRECTIO_CLIENT_RETRY_BASE_DELAY" config.client.retryDelay
    result.client.retryDelay
  connectTimeout : environment.Settles Duration.Writes "DIRECTIO_CLIENT_CONNECT_TIMEOUT" config.client.connectTimeout
    result.client.connectTimeout
  readTimeout : environment.Settles Duration.Writes "DIRECTIO_CLIENT_READ_TIMEOUT" config.client.readTimeout
    result.client.readTimeout
  userAgent : environment.Settles WritesText "DIRECTIO_CLIENT_USER_AGENT" config.client.userAgent
    result.client.userAgent
  streamLimit : environment.Settles WritesNumber "DIRECTIO_RECONSTRUCTION_STREAM_CONCURRENCY_LIMIT"
    config.retrieval.streamLimit result.retrieval.streamLimit
  blockLimit : environment.Settles WritesNumber "DIRECTIO_RECONSTRUCTION_BLOCK_CONCURRENCY_LIMIT"
    config.retrieval.blockLimit result.retrieval.blockLimit

/-- The settings that are durations. -/
def durations : List String :=
  ["DIRECTIO_CLIENT_RETRY_BASE_DELAY", "DIRECTIO_CLIENT_CONNECT_TIMEOUT", "DIRECTIO_CLIENT_READ_TIMEOUT"]

/-- An environment gives a span that is too long for one of the settings that are durations. -/
def GivesOverlong (environment : Environment) : Prop :=
  ∃ name ∈ durations, ∃ text ∈ environment.value name, Duration.Overlong text

/-- A setting comes in an environment to what is written for it, or else to what it has, unless it is stopped. -/
theorem settle_eq_ok_iff (h : reading.Means writes stops) {value : α} :
    environment.settle reading name current = .ok value ↔
      environment.Settles writes name current value ∧ ¬ ∃ text ∈ environment.value name, stops text := by
  rw [settle, Result.map_eq_ok_iff]
  constructor
  · rintro ⟨logged, hok, rfl⟩
    obtain ⟨hsettles, hgoes⟩ := h.settle_eq_ok_iff.mp hok
    exact ⟨⟨_, hsettles⟩, hgoes⟩
  · rintro ⟨⟨lines, hsettles⟩, hgoes⟩
    exact ⟨_, h.settle_eq_ok_iff.mpr ⟨hsettles, hgoes⟩, rfl⟩

/-- A setting that is no duration comes to its value. -/
theorem settle_eq_ok_iff_settles (h : reading.Means writes fun _ => False) {value : α} :
    environment.settle reading name current = .ok value ↔ environment.Settles writes name current value := by
  rw [settle_eq_ok_iff h]
  simp

/-- A configuration is overridden setting by setting. -/
theorem override_eq_ok_iff_settle :
    environment.override config = .ok result ↔
      (environment.settle (.natural settingBound) "DIRECTIO_CLIENT_RETRY_MAX_ATTEMPTS" config.client.retryLimit =
          .ok result.client.retryLimit ∧
        environment.settle .duration "DIRECTIO_CLIENT_RETRY_BASE_DELAY" config.client.retryDelay =
          .ok result.client.retryDelay ∧
        environment.settle .duration "DIRECTIO_CLIENT_CONNECT_TIMEOUT" config.client.connectTimeout =
          .ok result.client.connectTimeout ∧
        environment.settle .duration "DIRECTIO_CLIENT_READ_TIMEOUT" config.client.readTimeout =
          .ok result.client.readTimeout ∧
        environment.settle .text "DIRECTIO_CLIENT_USER_AGENT" config.client.userAgent =
          .ok result.client.userAgent) ∧
      environment.settle (.natural settingBound) "DIRECTIO_RECONSTRUCTION_STREAM_CONCURRENCY_LIMIT"
          config.retrieval.streamLimit = .ok result.retrieval.streamLimit ∧
        environment.settle (.natural settingBound) "DIRECTIO_RECONSTRUCTION_BLOCK_CONCURRENCY_LIMIT"
          config.retrieval.blockLimit = .ok result.retrieval.blockLimit := by
  obtain ⟨⟨_, _, _, _, _⟩, ⟨_, _⟩⟩ := result
  simp only [override, overrideClient, overrideRetrieval, Result.bind_eq_ok_iff, Result.pure_eq_ok, Except.ok.injEq]
  constructor
  · rintro ⟨_, ⟨_, hretries, _, hdelay, _, hconnect, _, hread, _, hagent, rfl⟩, _, ⟨_, hstream, _, hblock, rfl⟩, heq⟩
    cases heq
    exact ⟨⟨hretries, hdelay, hconnect, hread, hagent⟩, hstream, hblock⟩
  · rintro ⟨⟨hretries, hdelay, hconnect, hread, hagent⟩, hstream, hblock⟩
    exact ⟨_, ⟨_, hretries, _, hdelay, _, hconnect, _, hread, _, hagent, rfl⟩, _, ⟨_, hstream, _, hblock, rfl⟩, rfl⟩

/-- A configuration is overridden setting by setting, unless one of them is stopped. -/
theorem override_eq_ok_iff :
    environment.override config = .ok result ↔ environment.Overrides config result ∧ ¬ environment.GivesOverlong := by
  have hgives : ¬ environment.GivesOverlong ↔
      (¬ ∃ text ∈ environment.value "DIRECTIO_CLIENT_RETRY_BASE_DELAY", Duration.Overlong text) ∧
      (¬ ∃ text ∈ environment.value "DIRECTIO_CLIENT_CONNECT_TIMEOUT", Duration.Overlong text) ∧
      ¬ ∃ text ∈ environment.value "DIRECTIO_CLIENT_READ_TIMEOUT", Duration.Overlong text := by
    simp [GivesOverlong, durations, not_or]
  rw [override_eq_ok_iff_settle, hgives, settle_eq_ok_iff_settles (Reading.natural_means _),
    settle_eq_ok_iff Reading.duration_means, settle_eq_ok_iff Reading.duration_means,
    settle_eq_ok_iff Reading.duration_means, settle_eq_ok_iff_settles Reading.text_means,
    settle_eq_ok_iff_settles (Reading.natural_means _), settle_eq_ok_iff_settles (Reading.natural_means _)]
  constructor
  · rintro ⟨⟨hretries, ⟨hdelay, hdelayGoes⟩, ⟨hconnect, hconnectGoes⟩, ⟨hread, hreadGoes⟩, hagent⟩, hstream, hblock⟩
    exact ⟨⟨hretries, hdelay, hconnect, hread, hagent, hstream, hblock⟩, hdelayGoes, hconnectGoes, hreadGoes⟩
  · rintro ⟨⟨hretries, hdelay, hconnect, hread, hagent, hstream, hblock⟩, hdelayGoes, hconnectGoes, hreadGoes⟩
    exact ⟨⟨hretries, ⟨hdelay, hdelayGoes⟩, ⟨hconnect, hconnectGoes⟩, ⟨hread, hreadGoes⟩, hagent⟩, hstream, hblock⟩

/-- A setting has something to come to in every environment. -/
theorem exists_settles (environment : Environment) (writes : String → α → Prop) (name : String) (current : α) :
    ∃ value, environment.Settles writes name current value := by
  obtain ⟨⟨value, lines⟩, hsettles⟩ := Reassembly.exists_settles writes name current (environment.value name)
  exact ⟨value, lines, hsettles⟩

/-- A configuration has something to come to in every environment. -/
theorem exists_overrides (environment : Environment) (config : Config) :
    ∃ result, environment.Overrides config result := by
  obtain ⟨retryLimit, hretries⟩ := environment.exists_settles WritesNumber _ config.client.retryLimit
  obtain ⟨retryDelay, hdelay⟩ := environment.exists_settles Duration.Writes _ config.client.retryDelay
  obtain ⟨connectTimeout, hconnect⟩ := environment.exists_settles Duration.Writes _ config.client.connectTimeout
  obtain ⟨readTimeout, hread⟩ := environment.exists_settles Duration.Writes _ config.client.readTimeout
  obtain ⟨userAgent, hagent⟩ := environment.exists_settles WritesText _ config.client.userAgent
  obtain ⟨streamLimit, hstream⟩ := environment.exists_settles WritesNumber _ config.retrieval.streamLimit
  obtain ⟨blockLimit, hblock⟩ := environment.exists_settles WritesNumber _ config.retrieval.blockLimit
  exact ⟨⟨⟨retryLimit, retryDelay, connectTimeout, readTimeout, userAgent⟩, ⟨streamLimit, blockLimit⟩⟩,
    hretries, hdelay, hconnect, hread, hagent, hstream, hblock⟩

/-- A configuration is stopped by a span that is too long, given for any of its durations. -/
theorem override_eq_error_iff : environment.override config = .error .mk ↔ environment.GivesOverlong := by
  -- What the configuration would come to exists in any case, so it is only a stop that can keep it from that.
  obtain ⟨result, hoverrides⟩ := environment.exists_overrides config
  constructor
  · intro herror
    by_contra hgoes
    rw [override_eq_ok_iff.mpr ⟨hoverrides, hgoes⟩] at herror
    cases herror
  · intro hgives
    cases hresult : environment.override config with
    | error stopped => rfl
    | ok other => exact absurd hgives (override_eq_ok_iff.mp hresult).2

end Environment

/-- An environment that gives one timeout and nothing else. -/
def Environment.ofTimeout (text : String) : Environment := fun name =>
  if name = "DIRECTIO_CLIENT_CONNECT_TIMEOUT" then some text else none

/-- The timeout is a duration, and the only one. -/
theorem Environment.givesOverlong_ofTimeout_iff {text : String} :
    (Environment.ofTimeout text).GivesOverlong ↔ Duration.Overlong text := by
  simp [GivesOverlong, durations, value, ofTimeout, aliasesOf, aliases, List.findSome?]

/-- The largest whole number of seconds that is not too long, and the next one. -/
theorem overlong_seconds :
    ¬ Duration.Overlong "18446744073709550591" ∧ Duration.Overlong "18446744073709550592" := by
  have hlargest : toString 18446744073709550591 = "18446744073709550591" := by decide +kernel
  have hnext : toString 18446744073709550592 = "18446744073709550592" := by decide +kernel
  rw [← hlargest, ← hnext, Duration.overlong_toString_iff, Duration.overlong_toString_iff]
  decide +kernel

/-- Every setting comes to what is written for it, or else to what it has, and so does every setting of every
configuration in every environment, with the one exception of spans that are too long: they stop settings that are
durations, and a configuration for which they are given. -/
theorem settings_settle_unless_overlong (kind : SettingKind) (name : String) (given : Option String)
    (current : SettingValue) (environment : Environment) (config : Config) :
    ((kind.reading.settle name given current = .error .mk ↔ ∃ text ∈ given, kind.Overlong text) ∧
      ∀ logged, kind.reading.settle name given current = .ok logged ↔
        Settles kind.Writes name current given logged ∧ ¬ ∃ text ∈ given, kind.Overlong text) ∧
    ((environment.override config = .error .mk ↔ environment.GivesOverlong) ∧
      ∀ result, environment.override config = .ok result ↔
        environment.Overrides config result ∧ ¬ environment.GivesOverlong) ∧
    (Config.ofEnvironment environment = .error .mk ↔ environment.GivesOverlong) :=
  ⟨⟨kind.means.settle_eq_error_iff, fun _ => kind.means.settle_eq_ok_iff⟩,
    ⟨environment.override_eq_error_iff, fun _ => environment.override_eq_ok_iff⟩, environment.override_eq_error_iff⟩

/-- The configuration comes to its values with the largest timeout, and is stopped by the next one, and so is the
setting. -/
theorem settings_settle_unless_overlong_sample :
    (∃ result, Config.ofEnvironment (.ofTimeout "18446744073709550591") = .ok result) ∧
      Config.ofEnvironment (.ofTimeout "18446744073709550592") = .error .mk ∧
      SettingKind.duration.reading.settle "TIMEOUT" (some "18446744073709550592") (.duration (.ofSeconds 30)) =
        .error .mk := by
  obtain ⟨hgoes, hstops⟩ := overlong_seconds
  rw [← Environment.givesOverlong_ofTimeout_iff] at hgoes
  have hlargest := settings_settle_unless_overlong .duration "TIMEOUT" none (.duration (.ofSeconds 30))
    (.ofTimeout "18446744073709550591") {}
  have hnext := settings_settle_unless_overlong .duration "TIMEOUT" (some "18446744073709550592")
    (.duration (.ofSeconds 30)) (.ofTimeout "18446744073709550592") {}
  obtain ⟨result, hresult⟩ := (Environment.ofTimeout "18446744073709550591").exists_overrides {}
  exact ⟨⟨result, (hlargest.2.1.2 result).mpr ⟨hresult, hgoes⟩⟩,
    hnext.2.2.mpr (Environment.givesOverlong_ofTimeout_iff.mpr hstops), hnext.1.1.mpr ⟨_, rfl, hstops⟩⟩

/-- A timeout of 2^64 seconds leaves no configuration, where the default one was to stay. -/
theorem ofEnvironment_stopped_sample :
    ¬ ∃ config, Config.ofEnvironment (.ofTimeout "18446744073709551616") = .ok config := by
  have htext : toString 18446744073709551616 = "18446744073709551616" := by decide +kernel
  have hlong : Duration.Overlong "18446744073709551616" := by
    rw [← htext, Duration.overlong_toString_iff]
    decide +kernel
  rintro ⟨config, hconfig⟩
  exact (Environment.override_eq_ok_iff.mp hconfig).2 (Environment.givesOverlong_ofTimeout_iff.mpr hlong)

end Reassembly
