import Mathlib.Order.WellFounded
import Mathlib.Tactic.Choose
import SourceChange.Proofs.Except
import SourceChange.Settings.Load

/-!
What single sources say about the fields of settings.

A source speaks of every field by itself: in a variable of its own, in a member of a section, or in a
member of the overrides. Its layer collects what it says; the first field that it gives a wrong value is
the one that is reported.
-/

namespace SourceChange

namespace Settings

/-- The fields of settings, in the order in which they are read. -/
inductive Setting where
  | parallel
  | maxWorkers
  | fileTimeout
  | validateBindings
  | extractionAdvice
  | maxFileLines
  | maxBlockLines
  | minDuplicateLines
  | treeCache
  | treeCacheSize
  | logLevel
  | logFile
  deriving DecidableEq, Repr

namespace Setting

/-- The type of the values of a field. -/
abbrev Value : Setting → Type
  | parallel | validateBindings | extractionAdvice | treeCache => Bool
  | fileTimeout => Seconds
  | logLevel | logFile => String
  | _ => Int

/-- The place of a field in the order of reading. -/
def rank : Setting → Nat
  | parallel => 0
  | maxWorkers => 1
  | fileTimeout => 2
  | validateBindings => 3
  | extractionAdvice => 4
  | maxFileLines => 5
  | maxBlockLines => 6
  | minDuplicateLines => 7
  | treeCache => 8
  | treeCacheSize => 9
  | logLevel => 10
  | logFile => 11

/-- The public name of a field. -/
def publicName : Setting → String
  | parallel => "parallel_processing"
  | maxWorkers => "max_workers"
  | fileTimeout => "file_timeout_seconds"
  | validateBindings => "validate_bindings"
  | extractionAdvice => "extraction_advice"
  | maxFileLines => "max_file_lines"
  | maxBlockLines => "max_jsx_block_lines"
  | minDuplicateLines => "min_duplicate_block_lines"
  | treeCache => "tree_cache_enabled"
  | treeCacheSize => "tree_cache_size"
  | logLevel => "log_level"
  | logFile => "log_file"

/-- The environment variable of a field. -/
def variableName : Setting → String
  | parallel => "JCE_PARALLEL"
  | maxWorkers => "JCE_MAX_WORKERS"
  | fileTimeout => "JCE_FILE_TIMEOUT"
  | validateBindings => "JCE_VALIDATE_BINDINGS"
  | extractionAdvice => "JCE_EXTRACTION_ADVICE"
  | maxFileLines => "JCE_MAX_FILE_LINES"
  | maxBlockLines => "JCE_MAX_JSX_BLOCK_LINES"
  | minDuplicateLines => "JCE_MIN_DUPLICATE_BLOCK_LINES"
  | treeCache => "JCE_TREE_CACHE"
  | treeCacheSize => "JCE_TREE_CACHE_SIZE"
  | logLevel => "JCE_LOG_LEVEL"
  | logFile => "JCE_LOG_FILE"

/-- The section of a configuration file that a field belongs to. -/
def sectionName : Setting → String
  | parallel | maxWorkers | fileTimeout => "parallel"
  | validateBindings => "validation"
  | extractionAdvice | maxFileLines | maxBlockLines | minDuplicateLines => "extraction"
  | treeCache | treeCacheSize => "cache"
  | logLevel | logFile => "logging"

/-- The key of a field in its section. -/
def key : Setting → String
  | parallel | extractionAdvice | treeCache => "enabled"
  | maxWorkers => "max_workers"
  | fileTimeout => "file_timeout_seconds"
  | validateBindings => "bindings"
  | maxFileLines => "max_file_lines"
  | maxBlockLines => "max_jsx_block_lines"
  | minDuplicateLines => "min_duplicate_block_lines"
  | treeCacheSize => "size"
  | logLevel => "level"
  | logFile => "file"

/-- Reads the text of a variable. An empty log file is none. -/
def ofText (name text : String) : (f : Setting) → Except SettingsFault (Option f.Value)
  | parallel | validateBindings | extractionAdvice | treeCache => (Environment.flag name text).map some
  | fileTimeout => (Environment.seconds name text).map some
  | logLevel => (Environment.level name text).map some
  | logFile => .ok ((some text).filter (· != ""))
  | maxWorkers | maxFileLines | maxBlockLines | minDuplicateLines | treeCacheSize =>
    (Environment.count name text).map some

/-- Reads the value of a member. A log file that does not count as true is none. -/
def ofDatum (source : String) : (f : Setting) → Datum → Except SettingsFault (Option f.Value)
  | parallel | validateBindings | extractionAdvice | treeCache => fun v => (asTruth v).map some
  | fileTimeout => fun v => ((number source v).map .fraction).map some
  | logLevel => fun v => .ok (some (Text.upper v.plain))
  | logFile => fun v => .ok (logFileOf v)
  | maxWorkers | maxFileLines | maxBlockLines | minDuplicateLines | treeCacheSize =>
    fun v => (wholeNumber source v).map some

/-- Reads the member of a section that belongs to a field. -/
def ofMembers (source : String) (ms : Members) (f : Setting) : Except SettingsFault (Option f.Value) :=
  match Datum.member? f.key ms with
  | none => .ok none
  | some v => f.ofDatum source v

/-- Takes the value of an override, if it is of the type of the field. -/
def ofOverride : (f : Setting) → Json → Option f.Value
  | parallel | validateBindings | extractionAdvice | treeCache => Layer.asBool
  | fileTimeout => Layer.asSeconds
  | logLevel => fun v => some v.plain
  | logFile => Layer.asText
  | maxWorkers | maxFileLines | maxBlockLines | minDuplicateLines | treeCacheSize => Layer.asInt

/-- A log level in capitals; values of other fields as they are. -/
def inCapitals : (f : Setting) → f.Value → f.Value
  | logLevel => Text.upper
  | parallel | maxWorkers | fileTimeout | validateBindings | extractionAdvice | maxFileLines
  | maxBlockLines | minDuplicateLines | treeCache | treeCacheSize | logFile => id

/-- What an environment says about a field. -/
def inEnvironment (env : Environment) (f : Setting) : Except SettingsFault (Option f.Value) :=
  match env.lookup f.variableName with
  | none => .ok none
  | some text => f.ofText f.variableName text

/-- What the sections of a file say about a field. -/
def inSections (data : Members) (source : String) (f : Setting) :
    Except SettingsFault (Option f.Value) := do
  f.ofMembers source (← sectionMembers data source f.sectionName)

/-- What overrides say about a field. -/
def inOverrides (ms : List (String × Json)) (f : Setting) : Except SettingsFault (Option f.Value) :=
  Layer.field ms f.publicName f.ofOverride

end Setting

/-- The value of a field; only the log file may have none. -/
def value (s : Settings) : (f : Setting) → Option f.Value
  | .parallel => some s.parallel
  | .maxWorkers => some s.maxWorkers
  | .fileTimeout => some s.fileTimeout
  | .validateBindings => some s.validateBindings
  | .extractionAdvice => some s.extractionAdvice
  | .maxFileLines => some s.maxFileLines
  | .maxBlockLines => some s.maxBlockLines
  | .minDuplicateLines => some s.minDuplicateLines
  | .treeCache => some s.treeCache
  | .treeCacheSize => some s.treeCacheSize
  | .logLevel => some s.logLevel
  | .logFile => s.logFile

end Settings

open Settings

namespace Layer

/-- What a layer says about a field. -/
def value (l : Layer) : (f : Setting) → Option f.Value
  | .parallel => l.parallel
  | .maxWorkers => l.maxWorkers
  | .fileTimeout => l.fileTimeout
  | .validateBindings => l.validateBindings
  | .extractionAdvice => l.extractionAdvice
  | .maxFileLines => l.maxFileLines
  | .maxBlockLines => l.maxBlockLines
  | .minDuplicateLines => l.minDuplicateLines
  | .treeCache => l.treeCache
  | .treeCacheSize => l.treeCacheSize
  | .logLevel => l.logLevel
  | .logFile => l.logFile

/-- The layer with the given values. -/
def ofValues (v : (f : Setting) → Option f.Value) : Layer :=
  ⟨v .parallel, v .maxWorkers, v .fileTimeout, v .validateBindings, v .extractionAdvice,
    v .maxFileLines, v .maxBlockLines, v .minDuplicateLines, v .treeCache, v .treeCacheSize,
    v .logLevel, v .logFile⟩

@[simp]
theorem value_ofValues (v : (f : Setting) → Option f.Value) (f : Setting) :
    (ofValues v).value f = v f := by
  cases f <;> rfl

/-- The layer of what is said about all fields. -/
def collect (given : (f : Setting) → Except SettingsFault (Option f.Value)) :
    Except SettingsFault Layer := do
  return {
    parallel := ← given .parallel
    maxWorkers := ← given .maxWorkers
    fileTimeout := ← given .fileTimeout
    validateBindings := ← given .validateBindings
    extractionAdvice := ← given .extractionAdvice
    maxFileLines := ← given .maxFileLines
    maxBlockLines := ← given .maxBlockLines
    minDuplicateLines := ← given .minDuplicateLines
    treeCache := ← given .treeCache
    treeCacheSize := ← given .treeCacheSize
    logLevel := ← given .logLevel
    logFile := ← given .logFile }

variable {given : (f : Setting) → Except SettingsFault (Option f.Value)}

theorem collect_of_ok {l : Layer} (h : ∀ f, given f = .ok (l.value f)) : collect given = .ok l := by
  simp only [collect, h]
  rfl

theorem collect_of_error {f : Setting} {fault : SettingsFault} (hf : given f = .error fault)
    (hbefore : ∀ g : Setting, g.rank < f.rank → ∃ v, given g = .ok v) : collect given = .error fault := by
  choose v hv using hbefore
  cases f <;> simp (disch := decide) only [collect, hv, hf, bind, Except.bind]

/-- Either all fields can be read, or the first one that cannot decides. -/
theorem collect_cases (given : (f : Setting) → Except SettingsFault (Option f.Value)) :
    (∃ l, collect given = .ok l ∧ ∀ f, given f = .ok (l.value f)) ∨
      ∃ f fault, collect given = .error fault ∧ given f = .error fault ∧
        ∀ g : Setting, g.rank < f.rank → ∃ v, given g = .ok v := by
  by_cases hall : ∀ f, ∃ v, given f = .ok v
  · choose v hv using hall
    have hvalues (f : Setting) : given f = .ok ((ofValues v).value f) := by rw [hv, value_ofValues]
    exact .inl ⟨ofValues v, collect_of_ok hvalues, hvalues⟩
  · obtain ⟨f, hf, hmin⟩ :=
      (measure Setting.rank).wf.has_min {f | ¬ ∃ v, given f = .ok v} (not_forall.mp hall)
    have hbefore (g : Setting) (hg : g.rank < f.rank) : ∃ v, given g = .ok v := by
      by_contra hne
      exact hmin g hne hg
    cases hfault : given f with
    | ok v => exact absurd ⟨v, hfault⟩ hf
    | error fault => exact .inr ⟨f, fault, collect_of_error hfault hbefore, hfault, hbefore⟩

theorem value_of_collect_eq_ok {l : Layer} (h : collect given = .ok l) (f : Setting) :
    given f = .ok (l.value f) := by
  obtain ⟨l', hl, hvalues⟩ | ⟨g, fault, hfault, -⟩ := collect_cases given
  · cases h.symm.trans hl
    exact hvalues f
  · cases h.symm.trans hfault

theorem collect_eq_error_iff {fault : SettingsFault} :
    collect given = .error fault ↔
      ∃ f, given f = .error fault ∧ ∀ g : Setting, g.rank < f.rank → ∃ v, given g = .ok v := by
  constructor
  · intro h
    obtain ⟨l, hl, -⟩ | ⟨f, fault', hfault, hf, hbefore⟩ := collect_cases given
    · cases h.symm.trans hl
    · cases h.symm.trans hfault
      exact ⟨f, hf, hbefore⟩
  · rintro ⟨f, hf, hbefore⟩
    exact collect_of_error hf hbefore

theorem value_withCapitalLevel (l : Layer) (f : Setting) :
    l.withCapitalLevel.value f = (l.value f).map f.inCapitals := by
  cases f with
  | logLevel => rfl
  | _ => exact (congrFun Option.map_id _).symm

end Layer

/-- A field has the value that is laid over it, if there is one. -/
theorem Settings.value_under (s : Settings) (l : Layer) (f : Setting) :
    (s.under l).value f = (l.value f).or (s.value f) := by
  cases f with
  | logFile => exact Option.orElse_eq_or
  | _ => exact Option.or_some.symm

theorem Environment.layer_eq (env : Environment) :
    env.layer = Layer.collect (Setting.inEnvironment env) := by
  have hfile : Setting.inEnvironment env .logFile =
      .ok ((env.lookup (variableName "LOG_FILE")).filter (· != "")) := by
    change (match env.lookup "JCE_LOG_FILE" with | none => _ | some text => _) = _
    rw [show variableName "LOG_FILE" = "JCE_LOG_FILE" from rfl]
    cases env.lookup "JCE_LOG_FILE" <;> rfl
  rw [Layer.collect, hfile]
  rfl

/-- The member of overrides with a name; null is none. -/
def Layer.given? (name : String) (ms : List (String × Json)) : Option Json :=
  match ms.lookup name with
  | some .null => none
  | v => v

theorem Layer.field_eq {α : Type} (ms : List (String × Json)) (name : String)
    (convert : Json → Option α) :
    Layer.field ms name convert =
      match Layer.given? name ms with
      | none => .ok none
      | some v =>
        match convert v with
        | some x => .ok (some x)
        | none => .error (.wrongType name) := by
  unfold Layer.field Layer.given?
  cases ms.lookup name with
  | none => rfl
  | some v => cases v <;> rfl

theorem Layer.ofMembers_eq (ms : List (String × Json)) :
    Layer.ofMembers ms = Layer.collect (Setting.inOverrides ms) := rfl

theorem Settings.Setting.ofMembers_logLevel (source : String) (ms : Members) :
    Setting.logLevel.ofMembers source ms =
      .ok ((Datum.member? "level" ms).map fun v => Text.upper v.plain) := by
  rw [ofMembers, key]
  cases Datum.member? "level" ms <;> rfl

theorem Settings.Setting.ofMembers_logFile (source : String) (ms : Members) :
    Setting.logFile.ofMembers source ms = .ok ((Datum.member? "file" ms).bind logFileOf) := by
  rw [ofMembers, key]
  cases Datum.member? "file" ms <;> rfl

/-- Sections are checked before their members are read. -/
theorem Settings.sectionLayer_cases (data : Members) (source : String) :
    (∃ f : Setting, ∃ fault, sectionMembers data source f.sectionName = .error fault ∧
        sectionLayer data source = .error fault) ∨
      (∀ f : Setting, ∃ ms, sectionMembers data source f.sectionName = .ok ms) ∧
        sectionLayer data source = Layer.collect (Setting.inSections data source) := by
  cases h1 : sectionMembers data source "parallel" with
  | error fault =>
    refine .inl ⟨.parallel, fault, h1, ?_⟩
    rw [sectionLayer, h1]
    rfl
  | ok parallel =>
  cases h2 : sectionMembers data source "validation" with
  | error fault =>
    refine .inl ⟨.validateBindings, fault, h2, ?_⟩
    rw [sectionLayer, h1, h2]
    rfl
  | ok validation =>
  cases h3 : sectionMembers data source "extraction" with
  | error fault =>
    refine .inl ⟨.extractionAdvice, fault, h3, ?_⟩
    rw [sectionLayer, h1, h2, h3]
    rfl
  | ok extraction =>
  cases h4 : sectionMembers data source "cache" with
  | error fault =>
    refine .inl ⟨.treeCache, fault, h4, ?_⟩
    rw [sectionLayer, h1, h2, h3, h4]
    rfl
  | ok cache =>
  cases h5 : sectionMembers data source "logging" with
  | error fault =>
    refine .inl ⟨.logLevel, fault, h5, ?_⟩
    rw [sectionLayer, h1, h2, h3, h4, h5]
    rfl
  | ok logging =>
    refine .inr ⟨?_, ?_⟩
    · intro f
      cases f with
      | parallel | maxWorkers | fileTimeout => exact ⟨parallel, h1⟩
      | validateBindings => exact ⟨validation, h2⟩
      | extractionAdvice | maxFileLines | maxBlockLines | minDuplicateLines => exact ⟨extraction, h3⟩
      | treeCache | treeCacheSize => exact ⟨cache, h4⟩
      | logLevel | logFile => exact ⟨logging, h5⟩
    · have hlevel : Setting.inSections data source .logLevel = .ok _ :=
        bind_eq_ok_iff.mpr ⟨logging, h5, Setting.ofMembers_logLevel source logging⟩
      have hfile : Setting.inSections data source .logFile = .ok _ :=
        bind_eq_ok_iff.mpr ⟨logging, h5, Setting.ofMembers_logFile source logging⟩
      rw [Layer.collect, hlevel, hfile]
      simp only [sectionLayer, Setting.inSections, Setting.sectionName, h1, h2, h3, h4, h5]
      rfl

end SourceChange
