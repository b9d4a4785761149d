import Reassembly.Proofs.Bytes
import Reassembly.Proofs.Settings

/-!
# Settings are overridden apart

A setting has a name of its own, made of the names of its group and of itself, and may have other names in a table. The
first of these names that is given a text decides: the setting takes the value that the text writes, and keeps the one
that it has if the text writes none, whatever its later names are given. Nothing else in an environment matters to it.
A name is passed over when it is not set, and also when it is set to bytes that are no text.

The settings of a group are overridden in turn, each by the next of a list of names. That a setting meets its own name
there is a matter of the places in two lists, which no step checks.
-/

namespace Reassembly

/-! ## Settings -/

/-- The settings of the configuration. -/
inductive Setting
  | retryLimit
  | retryDelay
  | connectTimeout
  | readTimeout
  | userAgent
  | streamLimit
  | blockLimit
  deriving DecidableEq

/-- The groups of settings. -/
inductive SettingGroup
  | client
  | retrieval

namespace SettingGroup

/-- The settings of a group, in order. -/
def settings : SettingGroup → List Setting
  | client => [.retryLimit, .retryDelay, .connectTimeout, .readTimeout, .userAgent]
  | retrieval => [.streamLimit, .blockLimit]

/-- The names by which a group is overridden, in order. -/
def names : SettingGroup → List String
  | client => ClientConfig.names
  | retrieval => RetrievalConfig.names

/-- The part of a name that tells the group. -/
def label : SettingGroup → String
  | client => "CLIENT"
  | retrieval => "RECONSTRUCTION"

end SettingGroup

namespace Setting

/-- The group of a setting. -/
def group : Setting → SettingGroup
  | retryLimit | retryDelay | connectTimeout | readTimeout | userAgent => .client
  | streamLimit | blockLimit => .retrieval

/-- The part of a name that tells the setting. -/
def label : Setting → String
  | retryLimit => "RETRY_MAX_ATTEMPTS"
  | retryDelay => "RETRY_BASE_DELAY"
  | connectTimeout => "CONNECT_TIMEOUT"
  | readTimeout => "READ_TIMEOUT"
  | userAgent => "USER_AGENT"
  | streamLimit => "STREAM_CONCURRENCY_LIMIT"
  | blockLimit => "BLOCK_CONCURRENCY_LIMIT"

/-- A setting's own name. -/
def name (setting : Setting) : String := "DIRECTIO_" ++ setting.group.label ++ "_" ++ setting.label

/-- All names of a setting, in the order in which they count. -/
def names (setting : Setting) : List String := setting.name :: Environment.aliasesOf setting.name

/-- The type of a setting's values. -/
def Value : Setting → Type
  | retryLimit | streamLimit | blockLimit => Nat
  | retryDelay | connectTimeout | readTimeout => Duration
  | userAgent => String

/-- How a setting is read. -/
def reading : (setting : Setting) → Reading setting.Value
  | retryLimit | streamLimit | blockLimit => Reading.natural settingBound
  | retryDelay | connectTimeout | readTimeout => Reading.duration
  | userAgent => Reading.text

/-- What texts write for a setting. -/
def Writes : (setting : Setting) → String → setting.Value → Prop
  | retryLimit | streamLimit | blockLimit => Environment.WritesNumber
  | retryDelay | connectTimeout | readTimeout => Duration.Writes
  | userAgent => Environment.WritesText

/-- The texts that stop a setting. -/
def Overlong : Setting → String → Prop
  | retryDelay | connectTimeout | readTimeout => Duration.Overlong
  | retryLimit | streamLimit | blockLimit | userAgent => fun _ => False

/-- A setting is read from what writes its values. -/
theorem means (setting : Setting) : setting.reading.Means setting.Writes setting.Overlong := by
  cases setting with
  | retryLimit | streamLimit | blockLimit => exact Reading.natural_means settingBound
  | retryDelay | connectTimeout | readTimeout => exact Reading.duration_means
  | userAgent => exact Reading.text_means

end Setting

/-- The names by which a group is overridden are those of its settings, place by place. -/
theorem SettingGroup.names_eq (group : SettingGroup) : group.names = group.settings.map Setting.name := by
  cases group <;> decide

namespace Config

variable {setting other : Setting}

/-- The value that a setting has in a configuration. -/
def value (config : Config) : (setting : Setting) → setting.Value
  | .retryLimit => config.client.retryLimit
  | .retryDelay => config.client.retryDelay
  | .connectTimeout => config.client.connectTimeout
  | .readTimeout => config.client.readTimeout
  | .userAgent => config.client.userAgent
  | .streamLimit => config.retrieval.streamLimit
  | .blockLimit => config.retrieval.blockLimit

/-- A configuration with another value for one setting. -/
def put (config : Config) : (setting : Setting) → setting.Value → Config
  | .retryLimit, retryLimit => { config with client.retryLimit := retryLimit }
  | .retryDelay, retryDelay => { config with client.retryDelay := retryDelay }
  | .connectTimeout, connectTimeout => { config with client.connectTimeout := connectTimeout }
  | .readTimeout, readTimeout => { config with client.readTimeout := readTimeout }
  | .userAgent, userAgent => { config with client.userAgent := userAgent }
  | .streamLimit, streamLimit => { config with retrieval.streamLimit := streamLimit }
  | .blockLimit, blockLimit => { config with retrieval.blockLimit := blockLimit }

/-- A setting has the value that it is given. -/
theorem value_put_self (config : Config) (setting : Setting) (value : setting.Value) :
    (config.put setting value).value setting = value := by
  cases setting <;> rfl

/-- All others have the values that they had. -/
theorem value_put_of_ne (config : Config) (value : setting.Value) (h : other ≠ setting) :
    (config.put setting value).value other = config.value other := by
  cases setting <;> cases other <;> first | rfl | exact absurd rfl h

/-- A configuration is the values of its settings. -/
theorem ext_value {config result : Config} (h : ∀ setting, config.value setting = result.value setting) :
    config = result := by
  obtain ⟨⟨_, _, _, _, _⟩, ⟨_, _⟩⟩ := config
  obtain ⟨⟨_, _, _, _, _⟩, ⟨_, _⟩⟩ := result
  obtain rfl := h .retryLimit
  obtain rfl := h .retryDelay
  obtain rfl := h .connectTimeout
  obtain rfl := h .readTimeout
  obtain rfl := h .userAgent
  obtain rfl := h .streamLimit
  obtain rfl := h .blockLimit
  rfl

end Config

/-! ## Overriding in turn -/

/-- A setting that has come to a value has come to rest: the text for it brings the same value again. -/
theorem Reading.settle_again {α : Type} {reading : Reading α} {name : String} {given : Option String} {current : α}
    {logged : Logged α} (h : reading.settle name given current = .ok logged) :
    reading.settle name given logged.value = .ok logged := by
  cases given with
  | none =>
    obtain rfl := Except.ok.inj h
    rfl
  | some text =>
    obtain ⟨read, hread, rfl⟩ := Result.map_eq_ok_iff.mp h
    refine Result.map_eq_ok_iff.mpr ⟨read, hread, ?_⟩
    cases read <;> rfl

namespace Environment

variable {environment other : Environment} {config result : Config} {settings : List Setting}

/-- Override settings in turn, each by the next of some names. A setting for which no name is left stays as it is. -/
def overrideInTurn (environment : Environment) :
    List Setting → List String → Config → Except Duration.TooLong Config
  | setting :: settings, name :: names, config => do
    let value ← environment.settle setting.reading name (config.value setting)
    environment.overrideInTurn settings names (config.put setting value)
  | _, _, config => .ok config

/-- Settings that are overridden in turn by their names come to what each comes to by itself, and no others change. -/
theorem overrideInTurn_eq_ok_iff (h : settings.Nodup) :
    environment.overrideInTurn settings (settings.map Setting.name) config = .ok result ↔
      (∀ setting ∈ settings,
        environment.settle setting.reading setting.name (config.value setting) = .ok (result.value setting)) ∧
      ∀ setting ∉ settings, result.value setting = config.value setting := by
  -- Each step puts one setting, which the steps behind it leave alone because no setting comes twice.
  induction settings generalizing config with
  | nil =>
    simp only [overrideInTurn, Except.ok.injEq, List.not_mem_nil, false_implies, implies_true, true_and,
      not_false_eq_true, forall_const]
    exact ⟨fun heq setting => heq ▸ rfl, fun hsame => Config.ext_value fun setting => (hsame setting).symm⟩
  | cons first rest ih =>
    obtain ⟨hnew, hrest⟩ := List.nodup_cons.mp h
    have hother : ∀ setting ∈ rest, ∀ value, (config.put first value).value setting = config.value setting :=
      fun setting hmem value => config.value_put_of_ne value fun heq => hnew (heq ▸ hmem)
    rw [List.map_cons, overrideInTurn, Result.bind_eq_ok_iff]
    constructor
    · rintro ⟨value, hvalue, hturn⟩
      obtain ⟨hsettled, hkept⟩ := (ih hrest).mp hturn
      refine ⟨fun setting hmem => ?_, fun setting hmem => ?_⟩
      · rcases List.mem_cons.mp hmem with rfl | hlater
        · rw [hkept setting hnew, Config.value_put_self]
          exact hvalue
        · rw [← hother setting hlater value]
          exact hsettled setting hlater
      · obtain ⟨hne, hlater⟩ := not_or.mp (mt List.mem_cons.mpr hmem)
        rw [hkept setting hlater, config.value_put_of_ne value hne]
    · rintro ⟨hsettled, hkept⟩
      refine ⟨_, hsettled first List.mem_cons_self, (ih hrest).mpr ⟨fun setting hlater => ?_, fun setting hlater => ?_⟩⟩
      · rw [hother setting hlater]
        exact hsettled setting (List.mem_cons_of_mem _ hlater)
      · by_cases heq : setting = first
        · rw [heq, Config.value_put_self]
        · rw [config.value_put_of_ne _ heq, hkept setting (mt List.mem_cons.mp (not_or.mpr ⟨heq, hlater⟩))]

/-- To override some settings in turn, and then others, is to override all of them in turn. -/
theorem overrideInTurn_append (settings later : List Setting) (config : Config) :
    environment.overrideInTurn (settings ++ later) ((settings ++ later).map Setting.name) config =
      environment.overrideInTurn settings (settings.map Setting.name) config >>=
        environment.overrideInTurn later (later.map Setting.name) := by
  induction settings generalizing config with
  | nil => rfl
  | cons first rest ih =>
    simp only [List.cons_append, List.map_cons, overrideInTurn, bind_assoc]
    exact congrArg _ (funext fun value => ih _)

/-- A configuration is overridden group by group, and each group in turn. -/
theorem override_eq_inTurn (environment : Environment) (config : Config) :
    environment.override config =
      environment.overrideInTurn SettingGroup.client.settings SettingGroup.client.names config >>=
        environment.overrideInTurn SettingGroup.retrieval.settings SettingGroup.retrieval.names := by
  simp only [override, overrideClient, overrideRetrieval, SettingGroup.settings, SettingGroup.names,
    ClientConfig.names, RetrievalConfig.names, overrideInTurn, bind_assoc, pure_bind, Result.ok_bind]
  rfl

/-- A configuration comes to what each of its settings comes to by itself, under the setting's own name. -/
theorem override_eq_ok_iff_value : environment.override config = .ok result ↔
    ∀ setting : Setting,
      environment.settle setting.reading setting.name (config.value setting) = .ok (result.value setting) := by
  have hnodup : (SettingGroup.client.settings ++ SettingGroup.retrieval.settings).Nodup := by decide
  have hall : ∀ setting, setting ∈ SettingGroup.client.settings ++ SettingGroup.retrieval.settings := by
    intro setting
    cases setting <;> decide
  rw [override_eq_inTurn, SettingGroup.names_eq, SettingGroup.names_eq, ← overrideInTurn_append,
    overrideInTurn_eq_ok_iff hnodup]
  exact ⟨fun h setting => h.1 setting (hall setting),
    fun h => ⟨fun setting _ => h setting, fun setting hnone => absurd (hall setting) hnone⟩⟩

/-- Overriding a configuration again changes nothing. -/
theorem override_again (h : environment.override config = .ok result) :
    environment.override result = .ok result := by
  rw [override_eq_ok_iff_value] at h ⊢
  intro setting
  obtain ⟨logged, hlogged, hvalue⟩ := Result.map_eq_ok_iff.mp (h setting)
  rw [← hvalue]
  exact Result.map_eq_ok_iff.mpr ⟨logged, Reading.settle_again hlogged, rfl⟩

end Environment

/-! ## The names that count -/

namespace Environment

variable {given others : List (String × Bytes)} {name text : String} {names : List String}

/-- What variables set a name to: the value of the first that has it. -/
def assigned? (given : List (String × Bytes)) (name : String) : Option Bytes :=
  (given.find? (·.1 = name)).map (·.2)

/-- Variables give a text to a name: they set it to the bytes of this text. -/
def Gives (given : List (String × Bytes)) (name text : String) : Prop :=
  assigned? given name = some (Bytes.ofText text)

/-- Variables give no text to a name: they do not set it, or set it to bytes that are no text. -/
def Silent (given : List (String × Bytes)) (name : String) : Prop := ∀ text, ¬ Gives given name text

/-- Of some names, the first that is given a text decides. -/
def Decides (given : List (String × Bytes)) (names : List String) (text : String) : Prop :=
  ∃ front name back, names = front ++ name :: back ∧ (∀ earlier ∈ front, Silent given earlier) ∧
    Gives given name text

/-- The text that variables give to a name, if there is one. -/
def text? (given : List (String × Bytes)) (name : String) : Option String :=
  (assigned? given name).bind Bytes.toText?

/-- It is the one that they give. -/
theorem text?_eq_some_iff : text? given name = some text ↔ Gives given name text := by
  rw [text?, Option.bind_eq_some_iff, Gives]
  constructor
  · rintro ⟨bytes, hassigned, htext⟩
    rw [hassigned, Bytes.eq_ofText_of_toText? htext]
  · exact fun hassigned => ⟨_, hassigned, Bytes.toText?_ofText text⟩

/-- There is none if they give none. -/
theorem text?_eq_none_iff : text? given name = none ↔ Silent given name := by
  simp only [Option.eq_none_iff_forall_ne_some, ne_eq, text?_eq_some_iff, Silent]

/-- The first text that is given to some names decides. -/
theorem findSome?_text?_eq_some_iff : names.findSome? (text? given) = some text ↔ Decides given names text := by
  simp only [List.findSome?_eq_some_iff, text?_eq_some_iff, text?_eq_none_iff, Decides, and_comm]

/-- None does if none is given. -/
theorem findSome?_text?_eq_none_iff :
    names.findSome? (text? given) = none ↔ ∀ name ∈ names, Silent given name := by
  simp only [List.findSome?_eq_none_iff, text?_eq_none_iff]

/-- What an environment of variables gives for a setting is the first text that is given to its names. -/
theorem value_ofVariables (given : List (String × Bytes)) (setting : Setting) :
    (ofVariables given).value setting.name = setting.names.findSome? (text? given) := by
  have htexts : ofVariables given = text? given := by
    funext name
    rw [ofVariables, text?, assigned?]
    cases given.find? (·.1 = name) <;> rfl
  rw [value, htexts, Setting.names, List.findSome?_cons]
  cases text? given setting.name <;> rfl

end Environment

/-- What a setting comes to among variables: the first text that is given to its names decides, and the setting takes
the value that it writes; if it writes none, or there is none, the setting keeps the value that it has. -/
inductive Setting.Comes (given : List (String × Bytes)) (setting : Setting) (current : setting.Value) :
    setting.Value → Prop
  | taken {text : String} {value : setting.Value} (decides : Environment.Decides given setting.names text)
      (writes : setting.Writes text value) : Comes given setting current value
  | kept {text : String} (decides : Environment.Decides given setting.names text)
      (writes : ∀ value, ¬ setting.Writes text value) : Comes given setting current current
  | silent (silent : ∀ name ∈ setting.names, Environment.Silent given name) :
      Comes given setting current current

namespace Environment

variable {given others : List (String × Bytes)} {config result : Config} {setting : Setting}

/-- A setting that is settled comes to its value, and no text has stopped it. -/
theorem settle_eq_ok_iff_comes {current value : setting.Value} :
    (ofVariables given).settle setting.reading setting.name current = .ok value ↔
      setting.Comes given current value ∧
        ∀ text, Decides given setting.names text → ¬ setting.Overlong text := by
  rw [settle_eq_ok_iff setting.means, Settles, value_ofVariables]
  refine and_congr ?_ (by simp [findSome?_text?_eq_some_iff])
  constructor
  · rintro ⟨lines, hsettles⟩
    generalize hfirst : setting.names.findSome? (text? given) = first at hsettles
    cases hsettles with
    | absent => exact .silent (findSome?_text?_eq_none_iff.mp hfirst)
    | written hwrites => exact .taken (findSome?_text?_eq_some_iff.mp hfirst) hwrites
    | ignored hnone => exact .kept (findSome?_text?_eq_some_iff.mp hfirst) hnone
  · rintro (⟨hdecides, hwrites⟩ | ⟨hdecides, hnone⟩ | hsilent)
    · rw [findSome?_text?_eq_some_iff.mpr hdecides]
      exact ⟨_, .written hwrites⟩
    · rw [findSome?_text?_eq_some_iff.mpr hdecides]
      exact ⟨_, .ignored hnone⟩
    · rw [findSome?_text?_eq_none_iff.mpr hsilent]
      exact ⟨_, .absent⟩

/-- A setting comes to the same under variables that set its names to the same. -/
theorem override_congr {start final : Config} (h : (ofVariables given).override config = .ok result)
    (hothers : (ofVariables others).override start = .ok final)
    (hcurrent : start.value setting = config.value setting)
    (hnames : ∀ name ∈ setting.names, assigned? others name = assigned? given name) :
    final.value setting = result.value setting := by
  have htexts : setting.names.filterMap (text? others) = setting.names.filterMap (text? given) :=
    List.filterMap_congr fun name hmem => congrArg (·.bind Bytes.toText?) (hnames name hmem)
  have hvalue : (ofVariables others).value setting.name = (ofVariables given).value setting.name := by
    rw [value_ofVariables, value_ofVariables, ← List.head?_filterMap, ← List.head?_filterMap, htexts]
  have hresult := override_eq_ok_iff_value.mp h setting
  have hfinal := override_eq_ok_iff_value.mp hothers setting
  rw [settle, hvalue, hcurrent] at hfinal
  exact Except.ok.inj (hfinal.symm.trans hresult)

/-- What overriding makes of the settings of a configuration.

A configuration is overridden when none of the texts that decide for its settings stops one, and every setting then
comes to its value by itself: to what the first text writes that is given to its names, of which its own comes before
the others, or to what it was. Whatever else is set under other names, and whatever other settings have for values, a
setting comes to the same when its value and what its names are set to are the same. Overriding a configuration again
changes nothing.

A name that is set to bytes that are no text is passed over as one that is not set, so it leaves the setting to the
other names. -/
theorem settings_overridden_apart (given : List (String × Bytes)) (config : Config) :
    (∀ result, (ofVariables given).override config = .ok result ↔
      ∀ setting : Setting, setting.Comes given (config.value setting) (result.value setting) ∧
        ∀ text, Decides given setting.names text → ¬ setting.Overlong text) ∧
    (∀ others start result final, (ofVariables given).override config = .ok result →
      (ofVariables others).override start = .ok final → ∀ setting : Setting,
        start.value setting = config.value setting →
        (∀ name ∈ setting.names, assigned? others name = assigned? given name) →
          final.value setting = result.value setting) ∧
    ∀ result, (ofVariables given).override config = .ok result → (ofVariables given).override result = .ok result := by
  refine ⟨fun result => ?_, fun others start result final h hothers setting hcurrent hnames =>
    override_congr h hothers hcurrent hnames, fun result => override_again⟩
  rw [override_eq_ok_iff_value]
  exact forall_congr' fun setting => settle_eq_ok_iff_comes

/-- Retries under both names, a delay under its other name, and a limit that is no number beside one that is. -/
def mixed : List (String × Bytes) :=
  [("DIRECTIO_CLIENT_RETRY_MAX_ATTEMPTS", Bytes.ofText "7"), ("DIRECTIO_RETRIES", Bytes.ofText "9"),
    ("DIRECTIO_BACKOFF", Bytes.ofText "250ms"),
    ("DIRECTIO_RECONSTRUCTION_STREAM_CONCURRENCY_LIMIT", Bytes.ofText "many"),
    ("DIRECTIO_POOL_SIZE", Bytes.ofText "5")]

/-- The setting's own name decides on the retries and on the limit, and the other name on the delay; overriding again
changes nothing; and the retries are the same where they alone are given, whatever the delay was before. -/
theorem settings_overridden_apart_sample :
    (ofVariables mixed).override {} = .ok { client := { retryLimit := 7, retryDelay := .ofMilliseconds 250 } } ∧
      Setting.streamLimit.Comes mixed (50 : Nat) (50 : Nat) ∧
      (ofVariables mixed).override { client := { retryLimit := 7, retryDelay := .ofMilliseconds 250 } } =
        .ok { client := { retryLimit := 7, retryDelay := .ofMilliseconds 250 } } ∧
      ∃ final, (ofVariables (mixed.take 2)).override { client := { retryDelay := .ofSeconds 5 } } = .ok final ∧
        final.client.retryLimit = 7 := by
  have hmixed : (ofVariables mixed).override {} =
      .ok { client := { retryLimit := 7, retryDelay := .ofMilliseconds 250 } } := by decide +kernel
  obtain ⟨hcomes, hapart, hagain⟩ := settings_overridden_apart mixed {}
  have hretries : (ofVariables (mixed.take 2)).override { client := { retryDelay := .ofSeconds 5 } } =
      .ok { client := { retryLimit := 7, retryDelay := .ofSeconds 5 } } := by decide +kernel
  exact ⟨hmixed, ((hcomes _).mp hmixed .streamLimit).1, hagain _ hmixed, _, hretries,
    hapart (mixed.take 2) _ _ _ hmixed hretries .retryLimit rfl (by decide +kernel)⟩

/-- Retries that are set to bytes that are no text, and given under the other name. -/
def garbled : List (String × Bytes) :=
  [("DIRECTIO_CLIENT_RETRY_MAX_ATTEMPTS", [0xff, 0xff]), ("DIRECTIO_RETRIES", Bytes.ofText "6")]

/-- The setting's own name is set, no text can be read from it, and yet the setting does not keep its value: it takes
that of the other name. -/
theorem garbled_name_gives_way :
    assigned? garbled Setting.retryLimit.name = some [0xff, 0xff] ∧ (∀ text, Bytes.ofText text ≠ [0xff, 0xff]) ∧
      ∃ result, (ofVariables garbled).override {} = .ok result ∧
        result.value .retryLimit ≠ Config.value {} .retryLimit := by
  refine ⟨by decide +kernel, fun text htext => ?_, { client := { retryLimit := 6 } }, by decide +kernel, ?_⟩
  · have hread := Bytes.toText?_ofText text
    have hnone : Bytes.toText? [0xff, 0xff] = none := by decide +kernel
    rw [htext, hnone] at hread
    cases hread
  · show (6 : Nat) ≠ 3
    decide

end Environment

end Reassembly
