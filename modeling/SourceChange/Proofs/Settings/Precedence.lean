import SourceChange.Proofs.Settings.Bounds
import SourceChange.Proofs.Settings.Fields

/-!
Which source decides a field of the settings.

Every layer that is laid over the base leaves the fields alone that it does not mention. So each field has
the value of the last source that speaks of it, whatever the sources say about other fields.
-/

namespace SourceChange.Settings

variable {disk : Disk} {env : Environment} {s b : Settings} {l : Layer} {f : Setting}

theorem value_of_merge_eq_ok (h : b.merge l = .ok s) (f : Setting) :
    s.value f = (l.value f).or (b.value f) := by
  rw [(validate_eq_ok_iff.mp h).1, value_under]

/-- What is standard adds nothing to settings. -/
theorem value_or_standard (s : Settings) (f : Setting) : (s.value f).or (standard.value f) = s.value f := by
  cases f with
  | logFile => exact Option.or_none
  | _ => rfl

namespace Setting

/-- Whether an environment decides a field: whether its variable is set, and not empty if it is the one of
the log file. -/
def isSetIn (env : Environment) (f : Setting) : Bool :=
  match env.lookup f.variableName with
  | none => false
  | some text => f != logFile || text != ""

/-- The value of a field that overrides give, if they do. -/
def override (ms : List (String × Json)) (f : Setting) : Option f.Value :=
  ((Layer.given? f.publicName ms).bind f.ofOverride).map f.inCapitals

theorem isSome_of_map_some {α : Type} {x : Except SettingsFault α} {v : Option α}
    (h : x.map some = .ok v) : v.isSome = true := by
  cases x <;> cases h
  rfl

theorem ofText_isSome {name text : String} {v : Option f.Value} (h : f.ofText name text = .ok v) :
    v.isSome = (f != logFile || text != "") := by
  cases f with
  | logFile =>
    cases h
    by_cases htext : text = "" <;> simp [htext]
  | _ =>
    rw [ofText] at h
    rw [isSome_of_map_some h]
    rfl

theorem inEnvironment_isSome {v : Option f.Value} (h : f.inEnvironment env = .ok v) :
    v.isSome = f.isSetIn env := by
  rw [inEnvironment] at h
  rw [isSetIn]
  cases htext : env.lookup f.variableName with
  | none =>
    rw [htext] at h
    cases h
    rfl
  | some text =>
    rw [htext] at h
    exact ofText_isSome h

theorem override_of_inOverrides {ms : List (String × Json)} {v : Option f.Value}
    (h : f.inOverrides ms = .ok v) : f.override ms = v.map f.inCapitals := by
  rw [inOverrides, Layer.field_eq] at h
  unfold override
  cases hgiven : Layer.given? f.publicName ms with
  | none =>
    rw [hgiven] at h
    cases h
    rfl
  | some w =>
    rw [hgiven] at h
    dsimp only at h
    rw [Option.bind_some]
    split at h <;> cases h
    case h_1 heq => rw [heq]

end Setting

/-- The fields that an environment decides have the values of its settings. -/
theorem value_of_layer_eq_ok {e : Settings} (hl : env.layer = .ok l) (he : standard.merge l = .ok e)
    (f : Setting) (v : Option f.Value) :
    (l.value f).or v = if f.isSetIn env then e.value f else v := by
  rw [Environment.layer_eq] at hl
  have hset := Setting.inEnvironment_isSome (Layer.value_of_collect_eq_ok hl f)
  rw [value_of_merge_eq_ok he, ← hset]
  cases l.value f <;> rfl

theorem value_of_overrides_eq_ok {ms : List (String × Json)} (h : Layer.overrides ms = .ok l)
    (f : Setting) : l.value f = f.override ms := by
  unfold Layer.overrides at h
  split at h
  case h_2 => cases h
  case h_1 =>
    cases hl : Layer.ofMembers ms with
    | error fault =>
      rw [hl] at h
      cases h
    | ok l' =>
      rw [hl] at h
      cases h
      rw [Layer.ofMembers_eq] at hl
      rw [Layer.value_withCapitalLevel, Setting.override_of_inOverrides (Layer.value_of_collect_eq_ok hl f)]

/-- The table that a YAML text holds; an empty one holds no members. -/
def yamlMembers (text path : String) : Except SettingsFault Members :=
  match Yaml.parse text with
  | .error .malformed => .error (.badYaml path)
  | .error fault => .error (.badScalar fault)
  | .ok .null => .ok []
  | .ok (.table ms) => .ok ms
  | .ok v => .error (.notMapping v.kindName)

/-- The table that a TOML text holds. -/
def tomlMembers (text path : String) : Except SettingsFault Members :=
  match Toml.parse? text with
  | some ms => .ok ms
  | none => .error (.badToml path)

theorem ofYaml_eq (text path : String) :
    ofYaml text path = yamlMembers text path >>= fun ms => ofSections ms path := by
  unfold ofYaml yamlMembers
  cases Yaml.parse text with
  | error fault => cases fault <;> rfl
  | ok v => cases v <;> simp only [bind, Except.bind]

theorem ofToml_eq (text path : String) :
    ofToml text path = tomlMembers text path >>= fun ms => ofSections ms path := by
  unfold ofToml tomlMembers
  cases Toml.parse? text <;> simp only [bind, Except.bind]

/-- The table that a configuration file holds. -/
def fileMembers (disk : Disk) (path : String) : Except SettingsFault Members :=
  if path.toList.contains '\x00' then .error .nullInPath
  else
    match disk.settledPlace path with
    | .error fault => .error (.circularPath fault)
    | .ok loc => do
      let full := Disk.pathOf loc
      if !disk.isPresent full then throw (.fileMissing full)
      if !disk.isFile full then throw (.notFile full)
      let suffix := Text.lower (Path.suffix full)
      if suffix == ".yaml" || suffix == ".yml" then
        let text ← fileText disk full true
        yamlMembers (String.ofList (Disk.unifyLines text.toList)) full
      else if suffix == ".toml" then
        tomlMembers (← fileText disk full false) full
      else throw (.badFormat suffix)

theorem eq_resolve_of_settledPlace {path : String} {loc : Location} (h : disk.settledPlace path = .ok loc) :
    loc = disk.resolve path := by
  rw [Disk.settledPlace] at h
  rw [Disk.resolve]
  cases hway : disk.resolution (Disk.origin path disk.current) (Path.steps path) with
  | reached found =>
    rw [hway] at h
    exact (Except.ok.inj h).symm
  | circular found =>
    rw [hway, Disk.settle] at h
    split at h
    case isTrue => cases h
    case isFalse => exact (Except.ok.inj h).symm

theorem ofFile_eq (disk : Disk) (path : String) :
    ofFile disk path =
      fileMembers disk path >>= fun ms => ofSections ms (Disk.pathOf (disk.resolve path)) := by
  unfold ofFile fileMembers
  split
  · rfl
  cases hloc : disk.settledPlace path with
  | error fault => rfl
  | ok loc =>
    obtain rfl := eq_resolve_of_settledPlace hloc
    dsimp only
    split
    · rfl
    split
    · rfl
    split
    · simp only [ofYaml_eq, bind_assoc]
    split
    · simp only [ofToml_eq, bind_assoc]
    · rfl

/-- Where the base of settings comes from: nowhere, from a preset, or from a configuration file. Along with
it goes the name of the preset and what is said about the fields. -/
inductive Origin (disk : Disk) :
    Option String → Option String → ((f : Setting) → Option f.Value) → Prop where
  | none : Origin disk none none fun _ => Option.none
  | preset {config : String} {s : Settings} (h : presets.lookup (Text.lower config) = some s) :
      Origin disk (some config) (some (Text.lower config)) s.value
  | file {config : String} {data : Members} {given : (f : Setting) → Option f.Value}
      (hpreset : presets.lookup (Text.lower config) = Option.none)
      (hdata : fileMembers disk config = .ok data)
      (hgiven : ∀ f : Setting, f.inSections data (Disk.pathOf (disk.resolve config)) = .ok (given f)) :
      Origin disk (some config) Option.none given

theorem exists_of_ofSections_eq_ok {data : Members} {source : String}
    (h : ofSections data source = .ok s) :
    ∃ l : Layer, (∀ f : Setting, f.inSections data source = .ok (l.value f)) ∧
      ∀ f, s.value f = (l.value f).or (standard.value f) := by
  obtain ⟨l, hl, h⟩ := bind_eq_ok_iff.mp h
  obtain ⟨f, fault, -, hfault⟩ | ⟨-, heq⟩ := sectionLayer_cases data source
  · cases hl.symm.trans hfault
  · rw [heq] at hl
    exact ⟨l, Layer.value_of_collect_eq_ok hl, value_of_merge_eq_ok h⟩

/-- The names of presets are in small letters. -/
theorem preset_of_lookup {name : String} (h : presets.lookup name = some s) : preset name = .ok s := by
  have hname : name ∈ presets.map (·.1) := by
    obtain ⟨front, back, heq, -⟩ := List.lookup_eq_some_iff.mp h
    rw [heq]
    simp
  have hlower : ∀ name ∈ presets.map (·.1), Text.lower name = name := by decide
  rw [preset, hlower name hname, h]

theorem base_eq (disk : Disk) (config : String) :
    base disk (some config) =
      match presets.lookup (Text.lower config) with
      | some s => .ok (s, some (Text.lower config))
      | none =>
        if disk.isPresent config = true then (ofFile disk config).map (·, none)
        else .error (.notPresetNorFile config) := by
  unfold base
  dsimp only
  cases hpreset : presets.lookup (Text.lower config) with
  | some s =>
    rw [Option.isSome_some, if_pos rfl, preset_of_lookup hpreset]
    rfl
  | none =>
    rw [Option.isSome_none, if_neg Bool.false_ne_true]
    cases ofFile disk config <;> rfl

/-- What the base leaves open is standard. -/
theorem exists_origin {config name : Option String} (h : base disk config = .ok (b, name)) :
    ∃ given, Origin disk config name given ∧ ∀ f : Setting, b.value f = (given f).or (standard.value f) := by
  cases config with
  | none =>
    cases h
    exact ⟨_, .none, fun f => rfl⟩
  | some config =>
    rw [base_eq] at h
    cases hpreset : presets.lookup (Text.lower config) with
    | some s =>
      rw [hpreset] at h
      cases h
      exact ⟨_, .preset hpreset, fun f => (value_or_standard b f).symm⟩
    | none =>
      rw [hpreset] at h
      dsimp only at h
      split at h
      case isFalse => cases h
      case isTrue =>
        cases hs : ofFile disk config with
        | error fault =>
          rw [hs] at h
          cases h
        | ok s =>
          rw [hs] at h
          cases h
          rw [ofFile_eq] at hs
          obtain ⟨data, hdata, hs⟩ := bind_eq_ok_iff.mp hs
          obtain ⟨l, hl, hvalue⟩ := exists_of_ofSections_eq_ok hs
          exact ⟨l.value, .file hpreset hdata hl, hvalue⟩

theorem load_eq_ok {config name : Option String} {overrides : Except SettingsFault Layer}
    (h : load disk env config overrides = .ok (s, name)) :
    ∃ b l e m o, base disk config = .ok (b, name) ∧ env.layer = .ok l ∧ standard.merge l = .ok e ∧
      b.merge l = .ok m ∧ overrides = .ok o ∧ m.merge o = .ok s := by
  obtain ⟨⟨b, name'⟩, hb, h⟩ := bind_eq_ok_iff.mp h
  obtain ⟨l, hl, h⟩ := bind_eq_ok_iff.mp h
  obtain ⟨e, he, h⟩ := bind_eq_ok_iff.mp h
  obtain ⟨m, hm, h⟩ := bind_eq_ok_iff.mp h
  obtain ⟨o, ho, h⟩ := bind_eq_ok_iff.mp h
  obtain ⟨s', hs, h⟩ := bind_eq_ok_iff.mp h
  cases h
  exact ⟨b, l, e, m, o, hb, hl, he, hm, ho, hs⟩

/-- Two layers laid over a base, one after the other. -/
theorem value_of_merge_merge {m : Settings} {o : Layer} (hm : b.merge l = .ok m) (hs : m.merge o = .ok s)
    (f : Setting) : s.value f = (o.value f).or ((l.value f).or (b.value f)) := by
  rw [value_of_merge_eq_ok hs, value_of_merge_eq_ok hm]

theorem inEnvironment_congr {env' : Environment}
    (h : env'.lookup f.variableName = env.lookup f.variableName) :
    f.inEnvironment env' = f.inEnvironment env := by
  rw [Setting.inEnvironment, h, Setting.inEnvironment]

/-- Every field has the value that the overrides give it, else the one that the environment gives it if it
decides the field, else the one of the base, else the standard one. What the overrides and the environment
say about other fields does not matter. -/
theorem load_precedence {config name : Option String} {ms : List (String × Json)}
    (h : load disk env config (Layer.overrides ms) = .ok (s, name)) :
    ∃ e given, ofEnvironment env = .ok e ∧ Origin disk config name given ∧
      (∀ f : Setting, s.value f = (f.override ms).or
        (if f.isSetIn env then e.value f else (given f).or (standard.value f))) ∧
      ∀ env' ms' s' name' (f : Setting), load disk env' config (Layer.overrides ms') = .ok (s', name') →
        f.override ms' = f.override ms → env'.lookup f.variableName = env.lookup f.variableName →
        s'.value f = s.value f := by
  obtain ⟨b, l, e, m, o, hb, hl, he, hm, ho, hs⟩ := load_eq_ok h
  obtain ⟨given, horigin, hgiven⟩ := exists_origin hb
  refine ⟨e, given, bind_eq_ok_iff.mpr ⟨l, hl, he⟩, horigin, fun f => ?_, ?_⟩
  · rw [value_of_merge_merge hm hs, value_of_overrides_eq_ok ho, value_of_layer_eq_ok hl he, hgiven]
  · intro env' ms' s' name' f h' hoverride hvariable
    obtain ⟨b', l', e', m', o', hb', hl', -, hm', ho', hs'⟩ := load_eq_ok h'
    cases hb.symm.trans hb'
    rw [Environment.layer_eq] at hl hl'
    have hsaid := (inEnvironment_congr hvariable).symm.trans (Layer.value_of_collect_eq_ok hl' f)
    have hsaid := Except.ok.inj ((Layer.value_of_collect_eq_ok hl f).symm.trans hsaid)
    rw [value_of_merge_merge hm hs, value_of_merge_merge hm' hs', value_of_overrides_eq_ok ho,
      value_of_overrides_eq_ok ho', hoverride, hsaid]

/-- A disk with a configuration file. -/
def layeredDisk : Disk where
  entries := [(["jce.yaml"], .file
    "parallel:\n  max_workers: 6\n  file_timeout_seconds: 12.5\nlogging:\n  file: run.log\n".toUTF8)]
  current := []

/-- An environment that decides the workers and the log level, but not the log file. -/
def layeredEnvironment : Environment :=
  [("JCE_MAX_WORKERS", "8"), ("JCE_LOG_LEVEL", "debug"), ("JCE_LOG_FILE", "")]

/-- Overrides of the workers alone. -/
def layeredOverrides : List (String × Json) := [("max_workers", .int 2), ("log_level", .null)]

theorem load_precedence_layered :
    ∃ s, load layeredDisk layeredEnvironment (some "jce.yaml") (Layer.overrides layeredOverrides) =
        .ok (s, none) ∧
      s.value .maxWorkers = some 2 ∧ s.value .logLevel = some "DEBUG" ∧
      s.value .logFile = some "run.log" ∧ s.value .maxFileLines = some 300 ∧
      ∃ e given, ofEnvironment layeredEnvironment = .ok e ∧
        Origin layeredDisk (some "jce.yaml") none given ∧
        ∀ f : Setting, s.value f = (f.override layeredOverrides).or
          (if f.isSetIn layeredEnvironment then e.value f else (given f).or (standard.value f)) := by
  have hload : ∃ x ∈ (load layeredDisk layeredEnvironment (some "jce.yaml")
        (Layer.overrides layeredOverrides)).toOption,
      x.2 = none ∧ x.1.maxWorkers = 2 ∧ x.1.logLevel = "DEBUG" ∧ x.1.logFile = some "run.log" ∧
        x.1.maxFileLines = 300 := by
    decide +kernel
  obtain ⟨⟨s, name⟩, hload, rfl, hworkers, hlevel, hfile, hlines⟩ := hload
  have hload := toOption_eq_some_iff.mp hload
  obtain ⟨e, given, he, horigin, hvalue, -⟩ := load_precedence hload
  exact ⟨s, hload, congrArg some hworkers, congrArg some hlevel, hfile, congrArg some hlines, e, given,
    he, horigin, hvalue⟩

end SourceChange.Settings
