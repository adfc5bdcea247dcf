import SourceChange.Proofs.Settings.Precedence

/-!
What settings come to, whatever the sources hold.

Every source ends in settings or in a fault. The settings are within their bounds unless the time for a
file is no number, which the check lets pass. A fault is reported as one of the settings unless a value
breaks off its own reading: a number without end where a whole number is wanted, or a whole number beyond
the fractions where a time is wanted.
-/

namespace SourceChange.Settings

variable {α β : Type} {disk : Disk} {env : Environment} {s b : Settings} {f : Setting}

/-- Whether work ends in a fault that is not reported. -/
def BreaksOff (r : Except SettingsFault α) : Prop := ∃ fault, r = .error fault ∧ fault.isReported = false

section BreaksOff

variable {x : Except SettingsFault α}

theorem not_breaksOff_ok (a : α) : ¬ BreaksOff (.ok a : Except SettingsFault α) := by
  rintro ⟨fault, h, -⟩
  cases h

theorem breaksOff_error_iff {fault : SettingsFault} :
    BreaksOff (.error fault : Except SettingsFault α) ↔ fault.isReported = false := by
  constructor
  · rintro ⟨_, h, hfault⟩
    cases h
    exact hfault
  · intro h
    exact ⟨fault, rfl, h⟩

theorem breaksOff_error {fault : SettingsFault} (h : fault.isReported = false) :
    BreaksOff (.error fault : Except SettingsFault α) := breaksOff_error_iff.mpr h

theorem not_breaksOff_error {fault : SettingsFault} (h : fault.isReported = true) :
    ¬ BreaksOff (.error fault : Except SettingsFault α) := by
  rw [breaksOff_error_iff, h]
  exact Bool.noConfusion

theorem breaksOff_map_iff {g : α → β} : BreaksOff (x.map g) ↔ BreaksOff x := by
  cases x with
  | ok a => exact iff_of_false (not_breaksOff_ok (g a)) (not_breaksOff_ok a)
  | error fault => exact breaksOff_error_iff.trans breaksOff_error_iff.symm

theorem breaksOff_bind_iff {g : α → Except SettingsFault β} :
    BreaksOff (x >>= g) ↔ BreaksOff x ∨ ∃ a, x = .ok a ∧ BreaksOff (g a) := by
  constructor
  · rintro ⟨fault, h, hfault⟩
    obtain h | ⟨a, ha, h⟩ := bind_eq_error_iff.mp h
    · exact .inl ⟨fault, h, hfault⟩
    · exact .inr ⟨a, ha, fault, h, hfault⟩
  · rintro (⟨fault, h, hfault⟩ | ⟨a, ha, fault, h, hfault⟩)
    · exact ⟨fault, bind_eq_error_iff.mpr (.inl h), hfault⟩
    · exact ⟨fault, bind_eq_error_iff.mpr (.inr ⟨a, ha, h⟩), hfault⟩

theorem breaksOff_collect_iff {given : (f : Setting) → Except SettingsFault (Option f.Value)} :
    BreaksOff (Layer.collect given) ↔
      ∃ f, BreaksOff (given f) ∧ ∀ g : Setting, g.rank < f.rank → ∃ v, given g = .ok v := by
  constructor
  · rintro ⟨fault, h, hfault⟩
    obtain ⟨f, hf, hbefore⟩ := Layer.collect_eq_error_iff.mp h
    exact ⟨f, ⟨fault, hf, hfault⟩, hbefore⟩
  · rintro ⟨f, ⟨fault, hf, hfault⟩, hbefore⟩
    exact ⟨fault, Layer.collect_eq_error_iff.mpr ⟨f, hf, hbefore⟩, hfault⟩

theorem not_breaksOff_merge (b : Settings) (l : Layer) : ¬ BreaksOff (b.merge l) := by
  rintro ⟨fault, h, hfault⟩
  cases (isReported_of_validate_eq_error h).symm.trans hfault

end BreaksOff

section Environment

theorem not_breaksOff_ofText (name text : String) (f : Setting) : ¬ BreaksOff (f.ofText name text) := by
  cases f with
  | parallel | validateBindings | extractionAdvice | treeCache =>
    rw [Setting.ofText, breaksOff_map_iff, Environment.flag]
    split
    · exact not_breaksOff_ok true
    split
    · exact not_breaksOff_ok false
    · exact not_breaksOff_error rfl
  | maxWorkers | maxFileLines | maxBlockLines | minDuplicateLines | treeCacheSize =>
    rw [Setting.ofText, breaksOff_map_iff, Environment.count]
    split
    · exact not_breaksOff_error rfl
    split
    · exact not_breaksOff_error rfl
    · exact not_breaksOff_ok _
  | fileTimeout =>
    rw [Setting.ofText, breaksOff_map_iff, Environment.seconds]
    split
    · exact not_breaksOff_error rfl
    · exact not_breaksOff_ok _
  | logLevel | logFile => exact not_breaksOff_ok _

theorem not_breaksOff_layer (env : Environment) : ¬ BreaksOff env.layer := by
  rw [Environment.layer_eq, breaksOff_collect_iff]
  rintro ⟨f, hf, -⟩
  unfold Setting.inEnvironment at hf
  split at hf
  · exact not_breaksOff_ok _ hf
  · exact not_breaksOff_ofText _ _ f hf

end Environment

section Sections

/-- Values that a field cannot take and that no fault of the settings covers. -/
def Setting.Overflows (v : Datum) : Setting → Prop
  | maxWorkers | maxFileLines | maxBlockLines | minDuplicateLines | treeCacheSize =>
    ∃ negative, v = .float (.infinite negative)
  | fileTimeout => ∃ n negative, v = .int n ∧ Binary64.ofInt n = .infinite negative
  | parallel | validateBindings | extractionAdvice | treeCache | logLevel | logFile => False

variable {source : String}

theorem breaksOff_wholeNumber_iff {v : Datum} :
    BreaksOff (wholeNumber source v) ↔ ∃ negative, v = .float (.infinite negative) := by
  cases v with
  | float x =>
    cases x with
    | infinite negative => exact iff_of_true (breaksOff_error rfl) ⟨negative, rfl⟩
    | finite negative m e => exact iff_of_false (not_breaksOff_ok _) nofun
    | nan => exact iff_of_false (not_breaksOff_error rfl) nofun
  | bool _ | int _ => exact iff_of_false (not_breaksOff_ok _) nofun
  | _ =>
    refine iff_of_false ?_ nofun
    simp only [wholeNumber]
    split
    · exact not_breaksOff_ok _
    · exact not_breaksOff_error rfl

theorem breaksOff_fractionOf_iff {n : Int} :
    BreaksOff (fractionOf n) ↔ ∃ negative, Binary64.ofInt n = .infinite negative := by
  unfold fractionOf
  cases Binary64.ofInt n with
  | infinite negative => exact iff_of_true (breaksOff_error rfl) ⟨negative, rfl⟩
  | _ => exact iff_of_false (not_breaksOff_ok _) nofun

theorem breaksOff_number_iff {v : Datum} :
    BreaksOff (number source v) ↔ ∃ n negative, v = .int n ∧ Binary64.ofInt n = .infinite negative := by
  cases v with
  | int n =>
    rw [number, breaksOff_fractionOf_iff]
    simp
  | bool _ | float _ => exact iff_of_false (not_breaksOff_ok _) nofun
  | _ =>
    refine iff_of_false ?_ nofun
    simp only [number]
    split
    · exact not_breaksOff_ok _
    · exact not_breaksOff_error rfl

theorem breaksOff_ofDatum_iff {v : Datum} : BreaksOff (f.ofDatum source v) ↔ f.Overflows v := by
  cases f with
  | parallel | validateBindings | extractionAdvice | treeCache =>
    exact iff_of_false (not_breaksOff_ok _) id
  | maxWorkers | maxFileLines | maxBlockLines | minDuplicateLines | treeCacheSize =>
    exact breaksOff_map_iff.trans breaksOff_wholeNumber_iff
  | fileTimeout => exact breaksOff_map_iff.trans (breaksOff_map_iff.trans breaksOff_number_iff)
  | logLevel | logFile => exact iff_of_false (not_breaksOff_ok _) id

theorem breaksOff_ofMembers_iff {ms : Members} :
    BreaksOff (f.ofMembers source ms) ↔ ∃ v, Datum.member? f.key ms = some v ∧ f.Overflows v := by
  unfold Setting.ofMembers
  cases Datum.member? f.key ms with
  | none => exact iff_of_false (not_breaksOff_ok none) fun ⟨v, hv, _⟩ => by cases hv
  | some v =>
    dsimp only
    rw [breaksOff_ofDatum_iff]
    simp

/-- Sections that can be looked up, with a value that no fault covers, before any that is refused. -/
structure Overflows (data : Members) (source : String) : Prop where
  readable : ∀ f : Setting, ∃ ms, sectionMembers data source f.sectionName = .ok ms
  overflow : ∃ f : Setting, (∃ ms v, sectionMembers data source f.sectionName = .ok ms ∧
      Datum.member? f.key ms = some v ∧ f.Overflows v) ∧
    ∀ g : Setting, g.rank < f.rank → ∃ v, g.inSections data source = .ok v

variable {data : Members}

theorem not_breaksOff_sectionMembers {name : String} : ¬ BreaksOff (sectionMembers data source name) := by
  unfold sectionMembers
  split
  case h_5 => exact not_breaksOff_error rfl
  all_goals exact not_breaksOff_ok _

theorem breaksOff_inSections_iff :
    BreaksOff (f.inSections data source) ↔ ∃ ms v, sectionMembers data source f.sectionName = .ok ms ∧
      Datum.member? f.key ms = some v ∧ f.Overflows v := by
  rw [Setting.inSections, breaksOff_bind_iff, or_iff_right not_breaksOff_sectionMembers]
  simp only [breaksOff_ofMembers_iff, exists_and_left]

theorem breaksOff_sectionLayer_iff : BreaksOff (sectionLayer data source) ↔ Overflows data source := by
  obtain ⟨f, fault, hf, hlayer⟩ | ⟨hreadable, hlayer⟩ := sectionLayer_cases data source
  · rw [hlayer, breaksOff_error_iff, ← breaksOff_error_iff (α := Members), ← hf]
    refine iff_of_false not_breaksOff_sectionMembers fun h => ?_
    obtain ⟨ms, hms⟩ := h.readable f
    cases hms.symm.trans hf
  · rw [hlayer, breaksOff_collect_iff]
    simp only [breaksOff_inSections_iff]
    exact ⟨fun h => ⟨hreadable, h⟩, fun h => h.overflow⟩

theorem breaksOff_ofSections_iff : BreaksOff (ofSections data source) ↔ Overflows data source := by
  rw [ofSections, breaksOff_bind_iff, breaksOff_sectionLayer_iff]
  exact or_iff_left fun ⟨l, _, h⟩ => not_breaksOff_merge standard l h

end Sections

/-- How settings are settled: when their reading breaks off, and when the time for a file is no number. Else
the settings are within their bounds. -/
structure Settles (r : Except SettingsFault Settings) (breaks timeless : Prop) : Prop where
  breaksOff_iff : BreaksOff r ↔ breaks
  bounded : ∀ s, r = .ok s → s.Bounded
  positive : ∀ s, r = .ok s → ¬ timeless → s.fileTimeout.IsPositive
  noNumber : ∀ s, r = .ok s → timeless → s.fileTimeout = .fraction .nan

namespace Settles

variable {r : Except SettingsFault Settings} {breaks timeless : Prop}

theorem of_merge (hbreaks : BreaksOff r ↔ breaks) (hmerge : ∀ s, r = .ok s → ∃ b l, merge b l = .ok s)
    (htime : ∀ s, r = .ok s → (s.fileTimeout = .fraction .nan ↔ timeless)) :
    Settles r breaks timeless where
  breaksOff_iff := hbreaks
  bounded := by
    intro s hs
    obtain ⟨b, l, h⟩ := hmerge s hs
    obtain ⟨rfl, hbounded, -⟩ := validate_eq_ok_iff.mp h
    exact hbounded
  positive := by
    intro s hs hnot
    obtain ⟨b, l, h⟩ := hmerge s hs
    obtain ⟨rfl, -, htimeout⟩ := validate_eq_ok_iff.mp h
    exact htimeout.resolve_right fun hnan => hnot ((htime _ hs).mp hnan)
  noNumber := fun s hs => (htime s hs).mpr

theorem timeless_iff (h : Settles r breaks timeless) (hs : r = .ok s) :
    s.fileTimeout = .fraction .nan ↔ timeless := by
  refine ⟨fun hnan => ?_, h.noNumber s hs⟩
  by_contra hnot
  have hpositive := h.positive s hs hnot
  rw [hnan] at hpositive
  exact hpositive

end Settles

/-- The standard time is a number. -/
theorem or_standard_eq_nan_iff {t : Option Seconds} :
    t.or (standard.value .fileTimeout) = some (.fraction .nan) ↔ t = some (.fraction .nan) := by
  cases t with
  | none => exact iff_of_false (by decide +kernel) nofun
  | some t => rfl

theorem given_eq_ok_iff {given : (f : Setting) → Except SettingsFault (Option f.Value)} {l : Layer}
    (h : Layer.collect given = .ok l) {v : Option f.Value} : given f = .ok v ↔ l.value f = v := by
  rw [Layer.value_of_collect_eq_ok h f, Except.ok.injEq]

/-- Settings of one source over the standard ones lack a number for the time if the source does. -/
theorem timeless_of_collect {given : (f : Setting) → Except SettingsFault (Option f.Value)} {l : Layer}
    (hl : Layer.collect given = .ok l) (h : standard.merge l = .ok s) :
    s.fileTimeout = .fraction .nan ↔ given .fileTimeout = .ok (some (.fraction .nan)) := by
  rw [given_eq_ok_iff hl, ← or_standard_eq_nan_iff, ← Option.some.injEq]
  exact Eq.congr (value_of_merge_eq_ok h .fileTimeout) rfl

theorem ofSections_settles (data : Members) (source : String) :
    Settles (ofSections data source) (Overflows data source)
      (Setting.fileTimeout.inSections data source = .ok (some (.fraction .nan))) := by
  refine .of_merge breaksOff_ofSections_iff (fun s h => ?_) fun s h => ?_
  all_goals obtain ⟨l, hl, h⟩ := bind_eq_ok_iff.mp h
  · exact ⟨standard, l, h⟩
  · obtain ⟨f, fault, -, hfault⟩ | ⟨-, heq⟩ := sectionLayer_cases data source
    · cases hl.symm.trans hfault
    · exact timeless_of_collect (heq.symm.trans hl) h

theorem ofEnvironment_settles (env : Environment) :
    Settles (ofEnvironment env) False
      (Setting.fileTimeout.inEnvironment env = .ok (some (.fraction .nan))) := by
  refine .of_merge (iff_of_false ?_ id) (fun s h => ?_) fun s h => ?_
  · rw [ofEnvironment, breaksOff_bind_iff]
    rintro (h | ⟨l, -, h⟩)
    · exact not_breaksOff_layer env h
    · exact not_breaksOff_merge standard l h
  all_goals obtain ⟨l, hl, h⟩ := bind_eq_ok_iff.mp h
  · exact ⟨standard, l, h⟩
  · exact timeless_of_collect ((Environment.layer_eq env).symm.trans hl) h

/-- Reading a configuration file breaks off: on its text, or on a value in it. -/
inductive FileBreaks (disk : Disk) (path : String) : Prop where
  | text (h : BreaksOff (fileMembers disk path))
  | value {data : Members} (hdata : fileMembers disk path = .ok data)
      (h : Overflows data (Disk.pathOf (disk.resolve path)))

/-- The time in a configuration file is no number. -/
structure FileTimeless (disk : Disk) (path : String) (data : Members) : Prop where
  data_eq : fileMembers disk path = .ok data
  time : Setting.fileTimeout.inSections data (Disk.pathOf (disk.resolve path)) = .ok (some (.fraction .nan))

theorem breaksOff_ofFile_iff {path : String} : BreaksOff (ofFile disk path) ↔ FileBreaks disk path := by
  rw [ofFile_eq, breaksOff_bind_iff]
  simp only [breaksOff_ofSections_iff]
  constructor
  · rintro (h | ⟨data, hdata, h⟩)
    · exact .text h
    · exact .value hdata h
  · rintro (h | ⟨hdata, h⟩)
    · exact .inl h
    · exact .inr ⟨_, hdata, h⟩

theorem ofFile_settles (disk : Disk) (path : String) :
    Settles (ofFile disk path) (FileBreaks disk path) (∃ data, FileTimeless disk path data) := by
  have hsections {s : Settings} (h : ofFile disk path = .ok s) : ∃ data,
      fileMembers disk path = .ok data ∧ ofSections data (Disk.pathOf (disk.resolve path)) = .ok s := by
    rw [ofFile_eq] at h
    exact bind_eq_ok_iff.mp h
  refine .of_merge breaksOff_ofFile_iff (fun s h => ?_) fun s h => ?_
  all_goals obtain ⟨data, hdata, h⟩ := hsections h
  · obtain ⟨l, -, h⟩ := bind_eq_ok_iff.mp h
    exact ⟨standard, l, h⟩
  · rw [(ofSections_settles data _).timeless_iff h]
    refine ⟨fun ht => ⟨data, hdata, ht⟩, ?_⟩
    rintro ⟨data', hdata', ht⟩
    cases hdata.symm.trans hdata'
    exact ht

/-- Overrides give known fields values of their types. -/
def Typed (ms : List (String × Json)) : Prop :=
  ∀ (f : Setting) (v : Json), Layer.given? f.publicName ms = some v → (f.ofOverride v).isSome

theorem not_breaksOff_overrides {ms : List (String × Json)} (h : Typed ms) :
    ¬ BreaksOff (Layer.overrides ms) := by
  unfold Layer.overrides
  split
  case h_2 => exact not_breaksOff_error rfl
  case h_1 =>
    rw [breaksOff_map_iff, Layer.ofMembers_eq, breaksOff_collect_iff]
    rintro ⟨f, hf, -⟩
    rw [Setting.inOverrides, Layer.field_eq] at hf
    cases hgiven : Layer.given? f.publicName ms with
    | none =>
      rw [hgiven] at hf
      exact not_breaksOff_ok _ hf
    | some v =>
      obtain ⟨x, hx⟩ := Option.isSome_iff_exists.mp (h f v hgiven)
      rw [hgiven] at hf
      dsimp only at hf
      rw [hx] at hf
      exact not_breaksOff_ok _ hf

/-- Settings are based on a configuration file. -/
structure IsFile (disk : Disk) (config : Option String) (path : String) : Prop where
  config_eq : config = some path
  not_preset : presets.lookup (Text.lower path) = none
  present : disk.isPresent path = true

theorem breaksOff_base_iff {config : Option String} :
    BreaksOff (base disk config) ↔ ∃ path, IsFile disk config path ∧ FileBreaks disk path := by
  cases config with
  | none => exact iff_of_false (not_breaksOff_ok _) fun ⟨path, hpath, _⟩ => by cases hpath.config_eq
  | some config =>
    rw [base_eq]
    cases hpreset : presets.lookup (Text.lower config) with
    | some s =>
      refine iff_of_false (not_breaksOff_ok _) fun ⟨path, hpath, _⟩ => ?_
      cases hpath.config_eq
      cases hpreset.symm.trans hpath.not_preset
    | none =>
      dsimp only
      split
      case isTrue hpresent =>
        rw [breaksOff_map_iff, breaksOff_ofFile_iff]
        refine ⟨fun h => ⟨config, ⟨rfl, hpreset, hpresent⟩, h⟩, ?_⟩
        rintro ⟨path, hpath, h⟩
        cases hpath.config_eq
        exact h
      case isFalse hpresent =>
        refine iff_of_false (not_breaksOff_error rfl) fun ⟨path, hpath, _⟩ => ?_
        cases hpath.config_eq
        exact hpresent hpath.present

/-- The base of settings has no number for a time if it is a file that has none. -/
theorem base_timeless_iff {config name : Option String} (h : base disk config = .ok (b, name)) :
    b.fileTimeout = .fraction .nan ↔
      ∃ path data, IsFile disk config path ∧ FileTimeless disk path data := by
  have hpresets : ∀ p ∈ presets, p.2.fileTimeout ≠ .fraction .nan := by decide +kernel
  cases config with
  | none =>
    cases h
    exact iff_of_false (by decide +kernel) fun ⟨path, data, hpath, _⟩ => by cases hpath.config_eq
  | some config =>
    rw [base_eq] at h
    cases hpreset : presets.lookup (Text.lower config) with
    | some s =>
      rw [hpreset] at h
      cases h
      refine iff_of_false ?_ fun ⟨path, data, hpath, _⟩ => ?_
      · obtain ⟨front, back, heq, -⟩ := List.lookup_eq_some_iff.mp hpreset
        exact hpresets (Text.lower config, b) (by rw [heq]; simp)
      · cases hpath.config_eq
        cases hpreset.symm.trans hpath.not_preset
    | none =>
      rw [hpreset] at h
      dsimp only at h
      split at h
      case isFalse => cases h
      case isTrue hpresent =>
        cases hs : ofFile disk config with
        | error fault =>
          rw [hs] at h
          cases h
        | ok s =>
          rw [hs] at h
          cases h
          rw [(ofFile_settles disk config).timeless_iff hs]
          refine ⟨fun ⟨data, hdata⟩ => ⟨config, data, ⟨rfl, hpreset, hpresent⟩, hdata⟩, ?_⟩
          rintro ⟨path, data, hpath, hdata⟩
          cases hpath.config_eq
          exact ⟨data, hdata⟩

/-- The last source that speaks of the time for a file gives none that is a number. -/
inductive Timeless (disk : Disk) (env : Environment) (config : Option String)
    (ms : List (String × Json)) : Prop where
  | override (h : Setting.fileTimeout.override ms = some (.fraction .nan))
  | environment (hover : Setting.fileTimeout.override ms = none)
      (h : Setting.fileTimeout.inEnvironment env = .ok (some (.fraction .nan)))
  | file {path : String} {data : Members} (hover : Setting.fileTimeout.override ms = none)
      (hunset : Setting.fileTimeout.inEnvironment env = .ok none) (hpath : IsFile disk config path)
      (h : FileTimeless disk path data)

theorem load_timeless_iff {config name : Option String} {ms : List (String × Json)}
    (h : load disk env config (Layer.overrides ms) = .ok (s, name)) :
    s.fileTimeout = .fraction .nan ↔ Timeless disk env config ms := by
  obtain ⟨b, l, e, m, o, hb, hl, -, hm, ho, hs⟩ := load_eq_ok h
  rw [Environment.layer_eq] at hl
  have htime : some s.fileTimeout =
      (Setting.fileTimeout.override ms).or (l.fileTimeout.or (some b.fileTimeout)) := by
    rw [← value_of_overrides_eq_ok ho]
    exact value_of_merge_merge hm hs .fileTimeout
  have hsaid {v : Option Seconds} :
      Setting.fileTimeout.inEnvironment env = .ok v ↔ l.fileTimeout = v := given_eq_ok_iff hl
  rw [← Option.some.injEq, htime]
  cases hover : Setting.fileTimeout.override ms with
  | some t =>
    refine ⟨fun h => .override (hover.trans h), fun h => ?_⟩
    cases h with
    | override h => exact hover.symm.trans h
    | environment hnone => cases hover.symm.trans hnone
    | file hnone => cases hover.symm.trans hnone
  | none =>
    cases hset : l.fileTimeout with
    | some t =>
      refine ⟨fun h => .environment hover (hsaid.mpr (hset.trans h)), fun h => ?_⟩
      cases h with
      | override h => cases hover.symm.trans h
      | environment _ h => exact hset.symm.trans (hsaid.mp h)
      | file _ hunset => cases hset.symm.trans (hsaid.mp hunset)
    | none =>
      rw [Option.none_or, Option.none_or, Option.some.injEq, base_timeless_iff hb]
      refine ⟨fun ⟨path, data, hpath, h⟩ => .file hover (hsaid.mpr hset) hpath h, fun h => ?_⟩
      cases h with
      | override h => cases hover.symm.trans h
      | environment _ h => cases hset.symm.trans (hsaid.mp h)
      | file _ _ hpath h => exact ⟨_, _, hpath, h⟩

theorem breaksOff_load_iff {config : Option String} {ms : List (String × Json)} (hms : Typed ms) :
    BreaksOff (load disk env config (Layer.overrides ms)) ↔ BreaksOff (base disk config) := by
  rw [load, breaksOff_bind_iff]
  refine or_iff_left ?_
  rintro ⟨⟨b, name⟩, -, h⟩
  obtain h | ⟨l, -, h⟩ := breaksOff_bind_iff.mp h
  · exact not_breaksOff_layer env h
  obtain h | ⟨e, -, h⟩ := breaksOff_bind_iff.mp h
  · exact not_breaksOff_merge standard l h
  obtain h | ⟨m, -, h⟩ := breaksOff_bind_iff.mp h
  · exact not_breaksOff_merge b l h
  obtain h | ⟨o, -, h⟩ := breaksOff_bind_iff.mp h
  · exact not_breaksOff_overrides hms h
  obtain h | ⟨s, -, h⟩ := breaksOff_bind_iff.mp h
  · exact not_breaksOff_merge m o h
  · exact not_breaksOff_ok _ h

/-- Settings from sections, from a file, from an environment and from all of these under overrides are
within their bounds, or a fault is reported, with these exceptions: a value that overflows breaks off the
reading of a file, and a time that is no number passes. -/
theorem sources_settle {ms : List (String × Json)} (hms : Typed ms) (disk : Disk) (env : Environment)
    (config : Option String) :
    (∀ data source, Settles (ofSections data source) (Overflows data source)
      (Setting.fileTimeout.inSections data source = .ok (some (.fraction .nan)))) ∧
    (∀ path, Settles (ofFile disk path) (FileBreaks disk path) (∃ data, FileTimeless disk path data)) ∧
    Settles (ofEnvironment env) False
      (Setting.fileTimeout.inEnvironment env = .ok (some (.fraction .nan))) ∧
    Settles ((load disk env config (Layer.overrides ms)).map (·.1))
      (∃ path, IsFile disk config path ∧ FileBreaks disk path) (Timeless disk env config ms) := by
  refine ⟨ofSections_settles, ofFile_settles disk, ofEnvironment_settles env, ?_⟩
  have hload {s : Settings} (h : (load disk env config (Layer.overrides ms)).map (·.1) = .ok s) :
      ∃ name, load disk env config (Layer.overrides ms) = .ok (s, name) := by
    cases hl : load disk env config (Layer.overrides ms) with
    | error fault =>
      rw [hl] at h
      cases h
    | ok x =>
      rw [hl] at h
      cases h
      exact ⟨x.2, rfl⟩
  refine .of_merge ?_ (fun s h => ?_) fun s h => ?_
  · rw [breaksOff_map_iff, breaksOff_load_iff hms, breaksOff_base_iff]
  all_goals obtain ⟨name, h⟩ := hload h
  · obtain ⟨b, l, e, m, o, -, -, -, -, -, hs⟩ := load_eq_ok h
    exact ⟨m, o, hs⟩
  · exact load_timeless_iff h

/-- A disk with a configuration file that asks for workers without end. -/
def endlessDisk : Disk where
  entries := [(["jce.yaml"], .file "parallel:\n  max_workers: .inf\n".toUTF8)]
  current := []

theorem sources_settle_endless :
    Typed [("max_workers", .int 8)] ∧ FileBreaks endlessDisk "jce.yaml" ∧
      ∃ s name, load endlessDisk [("JCE_FILE_TIMEOUT", "nan")] none
          (Layer.overrides [("max_workers", .int 8)]) = .ok (s, name) ∧
        s.maxWorkers = 8 ∧ s.Bounded ∧ s.fileTimeout = .fraction .nan := by
  have htyped : Typed [("max_workers", .int 8)] := by
    intro f v hv
    cases f with
    | maxWorkers =>
      cases hv
      rfl
    | _ => cases hv
  have hbreaks : ∃ fault, ofFile endlessDisk "jce.yaml" = .error fault ∧ fault.isReported = false := by
    have hfault : (match ofFile endlessDisk "jce.yaml" with
        | .error fault => fault.isReported
        | .ok _ => true) = false := by
      decide +kernel
    split at hfault
    case h_1 fault heq => exact ⟨fault, heq, hfault⟩
    case h_2 => cases hfault
  have hload : ∃ x ∈ (load endlessDisk [("JCE_FILE_TIMEOUT", "nan")] none
        (Layer.overrides [("max_workers", .int 8)])).toOption,
      x.1.maxWorkers = 8 ∧ x.1.fileTimeout = .fraction .nan := by
    decide +kernel
  obtain ⟨-, hfile, -, hsettles⟩ :=
    sources_settle htyped endlessDisk [("JCE_FILE_TIMEOUT", "nan")] none
  obtain ⟨⟨s, name⟩, hload, hworkers, htime⟩ := hload
  have hload := toOption_eq_some_iff.mp hload
  have hbounded := hsettles.bounded s (by rw [hload]; rfl)
  exact ⟨htyped, (hfile "jce.yaml").breaksOff_iff.mp hbreaks, s, name, hload, hworkers, hbounded, htime⟩

end SourceChange.Settings
