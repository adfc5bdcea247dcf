import SourceChange.Proofs.Import.Collisions

/-!
Requests that a module satisfies.

`bindingsFrom` lists what the value imports of a source bind; a request is compared with that list only.
A plan is empty exactly if no binding is missing. The word `type` before a single name counts for nothing
here, unlike the same word before a whole clause.
-/

namespace SourceChange

open Source Syntax

namespace Source.Import

variable {i : Import} {x : ImportedName}

/-- The bindings of an import that requests are compared with. -/
def bindings (i : Import) : List ImportedName := i.default?.toList ++ i.named ++ i.namespace?.toList

theorem form_of_default? (h : i.default? = some x) : x.form = .default := by
  have hform := List.find?_some h
  exact beq_iff_eq.mp hform

theorem form_of_namespace? (h : i.namespace? = some x) : x.form = .namespace := by
  have hform := List.find?_some h
  exact beq_iff_eq.mp hform

theorem mem_bindings_iff :
    x ∈ i.bindings ↔ i.default? = some x ∨ x ∈ i.named ∨ i.namespace? = some x := by
  rw [bindings, List.mem_append, List.mem_append, Option.mem_toList, Option.mem_toList, or_assoc]

theorem mem_named_iff : x ∈ i.named ↔ x ∈ i.bindings ∧ x.form = .named := by
  rw [mem_bindings_iff]
  constructor
  · intro h
    exact ⟨.inr (.inl h), beq_iff_eq.mp (List.mem_filter.mp h).2⟩
  · rintro ⟨h | h | h, hform⟩
    · cases (form_of_default? h).symm.trans hform
    · exact h
    · cases (form_of_namespace? h).symm.trans hform

theorem namespace?_eq_some_iff : i.namespace? = some x ↔ x ∈ i.bindings ∧ x.form = .namespace := by
  rw [mem_bindings_iff]
  constructor
  · intro h
    exact ⟨.inr (.inr h), form_of_namespace? h⟩
  · rintro ⟨h | h | h, hform⟩
    · cases (form_of_default? h).symm.trans hform
    · cases (beq_iff_eq.mp (List.mem_filter.mp h).2).symm.trans hform
    · exact h

theorem find?_bindings (i : Import) : i.bindings.find? (·.form == .default) = i.default? := by
  cases hdefault : i.default? with
  | some x =>
    rw [bindings, hdefault]
    have hform := form_of_default? hdefault
    simp [hform]
  | none =>
    refine List.find?_eq_none.mpr fun x hx hform => ?_
    have hform : x.form = .default := beq_iff_eq.mp hform
    obtain h | h | h := mem_bindings_iff.mp hx
    · cases hdefault.symm.trans h
    · cases hform.symm.trans (beq_iff_eq.mp (List.mem_filter.mp h).2)
    · cases hform.symm.trans (form_of_namespace? h)

end Source.Import

namespace Import

variable {t : Tree} {spec : ImportSpec} {source quote name : String} {present imports : List Source.Import}

/-- The bindings that value imports of a source bring in, in document order. -/
def bindingsFrom (source : String) (imports : List Source.Import) : List ImportedName :=
  (fromSource source imports).flatMap (·.bindings)

theorem presentDefault?_eq :
    presentDefault? (fromSource source imports) =
      (bindingsFrom source imports).find? (·.form == .default) := by
  rw [bindingsFrom, List.find?_flatMap]
  simp only [Source.Import.find?_bindings]
  rfl

theorem hasEntry_iff {e : String} :
    hasEntry (fromSource source imports) e = true ↔ namedOf e ∈ bindingsFrom source imports := by
  simp only [hasEntry, List.any_eq_true, beq_iff_eq, bindingsFrom, List.mem_flatMap]
  refine exists_congr fun i => and_congr_right fun _ => ?_
  constructor
  · rintro ⟨x, hx, heq⟩
    obtain ⟨hmem, hform⟩ := Source.Import.mem_named_iff.mp hx
    obtain ⟨n, newName, form⟩ := x
    cases hform
    rwa [namedOf, ← heq]
  · intro h
    exact ⟨namedOf e, Source.Import.mem_named_iff.mpr ⟨h, rfl⟩, rfl⟩

theorem hasNamespace_iff :
    hasNamespace (fromSource source imports) name = true ↔
      ∃ x ∈ bindingsFrom source imports, x.form = .namespace ∧ x.name = name := by
  have hone (i : Source.Import) : (i.namespace?.map (·.name == name)).getD false = true ↔
      ∃ x ∈ i.bindings, x.form = .namespace ∧ x.name = name := by
    simp only [← and_assoc, ← Source.Import.namespace?_eq_some_iff]
    cases i.namespace? <;> simp
  simp only [hasNamespace, List.any_eq_true, hone, bindingsFrom, List.mem_flatMap]
  exact ⟨fun ⟨i, hi, x, hx, h⟩ => ⟨x, ⟨i, hi, hx⟩, h⟩, fun ⟨x, ⟨i, hi, hx⟩, h⟩ => ⟨i, hi, x, hx, h⟩⟩

section Missing

/-- Nothing is missing if every binding of a request is there, a default one under any name. -/
theorem missing_eq_nil_iff :
    missing t spec = [] ↔
      (∀ n ∈ spec.defaultName, ∃ x ∈ bindingsFrom spec.source t.imports, x.form = .default) ∧
      (∀ e ∈ distinctEntries spec.entries, namedOf e ∈ bindingsFrom spec.source t.imports) ∧
      ∀ n ∈ spec.namespaceName,
        ∃ x ∈ bindingsFrom spec.source t.imports, x.form = .namespace ∧ x.name = n := by
  have hdefault : missingDefault? spec (fromSource spec.source t.imports) = none ↔
      ∀ n ∈ spec.defaultName, ∃ x ∈ bindingsFrom spec.source t.imports, x.form = .default := by
    rw [missingDefault?, presentDefault?_eq]
    split
    case isTrue hfound =>
      obtain ⟨x, hx, hform⟩ := List.find?_isSome.mp hfound
      exact iff_of_true rfl fun _ _ => ⟨x, hx, beq_iff_eq.mp hform⟩
    case isFalse hfound =>
      constructor
      · intro hnone n hn
        cases hnone.symm.trans hn
      · intro h
        refine Option.eq_none_iff_forall_not_mem.mpr fun n hn => hfound ?_
        obtain ⟨x, hx, hform⟩ := h n hn
        exact List.find?_isSome.mpr ⟨x, hx, beq_iff_eq.mpr hform⟩
  have hnamespace : missingNamespace? spec (fromSource spec.source t.imports) = none ↔
      ∀ n ∈ spec.namespaceName,
        ∃ x ∈ bindingsFrom spec.source t.imports, x.form = .namespace ∧ x.name = n := by
    rw [missingNamespace?, Option.filter_eq_none_iff]
    simp only [← hasNamespace_iff, Bool.not_eq_true', Bool.not_eq_false]
    rfl
  simp only [missing, List.append_eq_nil_iff, Option.toList_eq_nil_iff, hdefault, hnamespace,
    missingEntries, List.filter_eq_nil_iff, Bool.not_eq_true', Bool.not_eq_false, hasEntry_iff, and_assoc]

theorem missing_eq_append (t : Tree) (spec : ImportSpec) :
    missing t spec = (missingDefault? spec (fromSource spec.source t.imports)).toList ++
      missingEntries spec (fromSource spec.source t.imports) ++
      (missingNamespace? spec (fromSource spec.source t.imports)).toList := rfl

end Missing

section Plan

/-- Names are not added without an edit or a statement. -/
theorem eq_nil_of_addEntries {names : List String} {newDefault : Option String} {took : Bool}
    (h : addEntries t spec quote present names newDefault = .ok (⟨[], []⟩, took)) :
    names = [] ∧ took = false := by
  unfold addEntries at h
  split at h
  case isTrue hempty =>
    cases h
    exact ⟨List.isEmpty_iff.mp hempty, rfl⟩
  case isFalse =>
    obtain ⟨found, -, h⟩ := bind_eq_ok_iff.mp h
    cases found with
    | some found => cases h
    | none =>
      dsimp only at h
      split at h
      · obtain ⟨clause, -, h⟩ := bind_eq_ok_iff.mp h
        cases h
      · cases h

theorem addDefault_ne_nil : addDefault t spec quote present name ≠ .ok ⟨[], []⟩ := by
  intro h
  obtain ⟨found, -, h⟩ := bind_eq_ok_iff.mp h
  cases found with
  | none => cases h
  | some found =>
    dsimp only at h
    split at h
    · obtain ⟨clause, -, h⟩ := bind_eq_ok_iff.mp h
      cases h
    · cases h

/-- Additions come to no edits only if there are none. -/
theorem eq_nil_of_edits_eq_nil {a d : Additions} {statements : List String}
    (h : (a.edits ++ d.edits ++ if (a.statements ++ d.statements ++ statements).isEmpty then [] else
      [newStatements t t.imports (Text.join "\n" (a.statements ++ d.statements ++ statements))]) = []) :
    a = ⟨[], []⟩ ∧ d = ⟨[], []⟩ ∧ statements = [] := by
  obtain ⟨aEdits, aStatements⟩ := a
  obtain ⟨dEdits, dStatements⟩ := d
  obtain ⟨hedits, hstatements⟩ := List.append_eq_nil_iff.mp h
  obtain ⟨rfl, rfl⟩ := List.append_eq_nil_iff.mp hedits
  split at hstatements
  case isFalse => cases hstatements
  case isTrue hempty =>
    obtain ⟨hboth, hnone⟩ := List.append_eq_nil_iff.mp (List.isEmpty_iff.mp hempty)
    obtain ⟨rfl, rfl⟩ := List.append_eq_nil_iff.mp hboth
    exact ⟨rfl, rfl, hnone⟩

/-- Nothing is missing where no edits are made. -/
theorem missing_eq_nil_of_planBindings (h : planBindings t spec = .ok []) :
    checkDefault spec (fromSource spec.source t.imports) = .ok () ∧ missing t spec = [] := by
  obtain ⟨⟨⟩, hcheck, h⟩ := bind_eq_ok_iff.mp h
  obtain ⟨-, -, h⟩ := bind_eq_ok_iff.mp h
  obtain ⟨⟨entries, took⟩, hentries, h⟩ := bind_eq_ok_iff.mp h
  refine ⟨hcheck, ?_⟩
  dsimp only at h
  split at h
  case h_2 hdefault =>
    obtain ⟨rfl, -, hnamespace⟩ := eq_nil_of_edits_eq_nil (d := ⟨[], []⟩) (Except.ok.inj h)
    obtain ⟨hnames, -⟩ := eq_nil_of_addEntries hentries
    rw [missing_eq_append, hdefault, hnames, List.map_eq_nil_iff.mp hnamespace]
    rfl
  case h_1 name _ =>
    split at h
    case isTrue htook =>
      obtain ⟨rfl, -, -⟩ := eq_nil_of_edits_eq_nil (d := ⟨[], []⟩) (Except.ok.inj h)
      cases htook.symm.trans (eq_nil_of_addEntries hentries).2
    case isFalse =>
      obtain ⟨d, hd, h⟩ := bind_eq_ok_iff.mp h
      obtain ⟨-, rfl, -⟩ := eq_nil_of_edits_eq_nil (Except.ok.inj h)
      cases addDefault_ne_nil hd

/-- No edits are made where nothing is missing, if the default binding has the name that is asked for. -/
theorem planBindings_of_missing_eq_nil
    (hdefault : checkDefault spec (fromSource spec.source t.imports) = .ok ())
    (hnone : missing t spec = []) : planBindings t spec = .ok [] := by
  rw [missing_eq_append] at hnone
  obtain ⟨hboth, hnamespace⟩ := List.append_eq_nil_iff.mp hnone
  obtain ⟨hmissing, hnames⟩ := List.append_eq_nil_iff.mp hboth
  have hmissing := Option.toList_eq_nil_iff.mp hmissing
  have hnamespace := Option.toList_eq_nil_iff.mp hnamespace
  rw [planBindings]
  simp only [hdefault, hmissing, hnames, hnamespace]
  rfl

theorem planBindings_eq_ok_nil_iff :
    planBindings t spec = .ok [] ↔
      checkDefault spec (fromSource spec.source t.imports) = .ok () ∧ missing t spec = [] :=
  ⟨missing_eq_nil_of_planBindings, fun ⟨hdefault, hnone⟩ =>
    planBindings_of_missing_eq_nil hdefault hnone⟩

end Plan

section Values

/-- The specifiers in braces of the statements that import from a source. Statements that import types
only are left out. -/
def specifiersFrom (t : Tree) (source : String) : List Node :=
  let statements := t.rootD.named.filter fun n =>
    n.is .importStatement && ((t.importOf n).source == source && !(t.importOf n).isTypeOnly)
  statements.flatMap fun n =>
    (((Tree.importClause? n).map Node.named).getD []).flatMap fun part =>
      if part.is .namedImports then part.named.filter (·.is .importSpecifier) else []

/-- The binding of a specifier. -/
def specified (t : Tree) (s : Node) : ImportedName :=
  ⟨(t.roleText? s .name).getD (t.nodeText s), t.roleText? s .newName, .named⟩

theorem named_of_part (part : Node) :
    (t.importedNames part).filter (·.form == .named) =
      (if part.is .namedImports then part.named.filter (·.is .importSpecifier) else []).map
        (specified t) := by
  have hkind {k : Construct} (h : part.is k = true) : part.kind = .construct k := beq_iff_eq.mp h
  unfold Tree.importedNames
  split
  case isTrue h =>
    have hother : part.is .namedImports = false := by simp [Node.is, hkind h]
    simp [hother]
  case isFalse =>
    split
    case isTrue h =>
      have hother : part.is .namedImports = false := by simp [Node.is, hkind h]
      cases part.named.find? (·.is .identifier) <;> simp [hother]
    case isFalse =>
      split
      case isTrue h =>
        refine List.filter_eq_self.mpr fun x hx => ?_
        obtain ⟨s, -, rfl⟩ := List.mem_map.mp hx
        rfl
      case isFalse => rfl

theorem namedOf_mem_bindingsFrom_iff {e : String} :
    namedOf e ∈ bindingsFrom source t.imports ↔
      ∃ s ∈ specifiersFrom t source, specified t s = namedOf e := by
  have hpart (part : Node) : namedOf e ∈ t.importedNames part ↔
      ∃ s ∈ if part.is .namedImports then part.named.filter (·.is .importSpecifier) else [],
        specified t s = namedOf e := by
    rw [← List.mem_map, ← named_of_part, List.mem_filter]
    exact (and_iff_left rfl).symm
  have hone (i : Source.Import) : namedOf e ∈ i.bindings ↔ namedOf e ∈ i.names := by
    rw [← and_iff_left (a := namedOf e ∈ i.bindings) (b := (namedOf e).form = .named) rfl,
      ← Source.Import.mem_named_iff, Source.Import.named, List.mem_filter]
    exact and_iff_left rfl
  simp only [bindingsFrom, specifiersFrom, List.mem_flatMap, hone]
  constructor
  · rintro ⟨i, hi, hnames⟩
    obtain ⟨hi, hvalues⟩ := List.mem_filter.mp hi
    obtain ⟨n, hn, rfl⟩ := List.mem_map.mp hi
    obtain ⟨hn, himport⟩ := List.mem_filter.mp hn
    obtain ⟨part, hmem, hnames⟩ := List.mem_flatMap.mp hnames
    obtain ⟨s, hs, heq⟩ := (hpart part).mp hnames
    exact ⟨s, ⟨n, List.mem_filter.mpr ⟨hn, Bool.and_eq_true_iff.mpr ⟨himport, hvalues⟩⟩, part, hmem, hs⟩,
      heq⟩
  · rintro ⟨s, ⟨n, hn, part, hmem, hs⟩, heq⟩
    obtain ⟨hn, hboth⟩ := List.mem_filter.mp hn
    obtain ⟨himport, hvalues⟩ := Bool.and_eq_true_iff.mp hboth
    have hi : t.importOf n ∈ t.imports := List.mem_map_of_mem (List.mem_filter.mpr ⟨hn, himport⟩)
    exact ⟨t.importOf n, List.mem_filter.mpr ⟨hi, hvalues⟩,
      List.mem_flatMap.mpr ⟨part, hmem, (hpart part).mpr ⟨s, hs, heq⟩⟩⟩

/-- A request is satisfied by imports of its source that are not of types only. The default binding is the
first one. -/
structure Satisfied (t : Tree) (spec : ImportSpec) : Prop where
  default : ∀ n ∈ spec.defaultName, ∃ x, presentDefault? (fromSource spec.source t.imports) = some x ∧
    x.name = n
  entries : ∀ e ∈ spec.entries, ∃ s ∈ specifiersFrom t spec.source, specified t s = namedOf e
  whole : ∀ n ∈ spec.namespaceName, ∃ i ∈ fromSource spec.source t.imports,
    ∃ x, i.namespace? = some x ∧ x.name = n

/-- A request is satisfied by values: the word `type` stands neither before a clause nor before a name. -/
structure ProvidesValues (t : Tree) (spec : ImportSpec) : Prop where
  default : ∀ n ∈ spec.defaultName, ∃ i ∈ fromSource spec.source t.imports,
    ∃ x, i.default? = some x ∧ x.name = n
  entries : ∀ e ∈ spec.entries, ∃ s ∈ specifiersFrom t spec.source, specified t s = namedOf e ∧
    s.hasToken "type" = false
  whole : ∀ n ∈ spec.namespaceName, ∃ i ∈ fromSource spec.source t.imports,
    ∃ x, i.namespace? = some x ∧ x.name = n

theorem namedOf_normalEntry {e : String} (he : isImportEntry e = true) :
    namedOf (normalEntry e) = namedOf e := by
  have hbare := isBare_namedOf he
  rw [normalEntry_eq hbare, namedOf_entry hbare rfl]

theorem forall_distinctEntries_iff (hspec : spec.IsValid) {P : ImportedName → Prop} :
    (∀ e ∈ distinctEntries spec.entries, P (namedOf e)) ↔ ∀ e ∈ spec.entries, P (namedOf e) := by
  simp only [distinctEntries, List.mem_eraseDups, List.forall_mem_map]
  exact forall₂_congr fun e he => by rw [namedOf_normalEntry (hspec.entries e he)]

theorem exists_namespace_iff :
    (∃ x ∈ bindingsFrom source imports, x.form = .namespace ∧ x.name = name) ↔
      ∃ i ∈ fromSource source imports, ∃ x, i.namespace? = some x ∧ x.name = name := by
  simp only [bindingsFrom, List.mem_flatMap, Source.Import.namespace?_eq_some_iff]
  exact ⟨fun ⟨x, ⟨i, hi, hx⟩, hform, hname⟩ => ⟨i, hi, x, ⟨hx, hform⟩, hname⟩,
    fun ⟨i, hi, x, ⟨hx, hform⟩, hname⟩ => ⟨x, ⟨i, hi, hx⟩, hform, hname⟩⟩

theorem default_satisfied_iff :
    (checkDefault spec (fromSource spec.source t.imports) = .ok () ∧
        ∀ n ∈ spec.defaultName, ∃ x ∈ bindingsFrom spec.source t.imports, x.form = .default) ↔
      ∀ n ∈ spec.defaultName, ∃ x, presentDefault? (fromSource spec.source t.imports) = some x ∧
        x.name = n := by
  rw [checkDefault_eq_ok_iff]
  constructor
  · rintro ⟨hname, hpresent⟩ n hn
    obtain ⟨x, hx, hform⟩ := hpresent n hn
    have hfound : (presentDefault? (fromSource spec.source t.imports)).isSome = true := by
      rw [presentDefault?_eq]
      exact List.find?_isSome.mpr ⟨x, hx, beq_iff_eq.mpr hform⟩
    obtain ⟨y, hy⟩ := Option.isSome_iff_exists.mp hfound
    exact ⟨y, hy, hname n hn y hy⟩
  · intro h
    constructor
    · intro n hn y hy
      obtain ⟨x, hx, hname⟩ := h n hn
      cases hx.symm.trans hy
      exact hname
    · intro n hn
      obtain ⟨x, hx, -⟩ := h n hn
      rw [presentDefault?_eq] at hx
      have hform := List.find?_some hx
      exact ⟨x, List.mem_of_find?_eq_some hx, beq_iff_eq.mp hform⟩

theorem satisfied_iff (hspec : spec.IsValid) :
    Satisfied t spec ↔
      checkDefault spec (fromSource spec.source t.imports) = .ok () ∧ missing t spec = [] := by
  rw [missing_eq_nil_iff, ← and_assoc, default_satisfied_iff,
    forall_distinctEntries_iff hspec (P := (· ∈ bindingsFrom spec.source t.imports))]
  simp only [namedOf_mem_bindingsFrom_iff, exists_namespace_iff]
  exact ⟨fun h => ⟨h.default, h.entries, h.whole⟩, fun ⟨hdefault, hentries, hnamespace⟩ =>
    ⟨hdefault, hentries, hnamespace⟩⟩

theorem Satisfied.providesValues_iff (h : Satisfied t spec) :
    ProvidesValues t spec ↔ ∀ e ∈ spec.entries, ∃ s ∈ specifiersFrom t spec.source,
      specified t s = namedOf e ∧ s.hasToken "type" = false := by
  refine ⟨ProvidesValues.entries, fun hentries => ⟨fun n hn => ?_, hentries, h.whole⟩⟩
  obtain ⟨x, hx, hname⟩ := h.default n hn
  obtain ⟨i, hi, hx⟩ := List.exists_of_findSome?_eq_some hx
  exact ⟨i, hi, x, hx, hname⟩

/-- When no edits are made: each binding of a request comes from an import of its source that is not of
types only. Values are lacking exactly for the names in braces that stand after the word `type` wherever
they are imported. -/
theorem plan_satisfied (hvalid : spec.validate = .ok ()) (hspec : spec.isEmpty = false) :
    (plan t spec = .ok [] ↔ Satisfied t spec) ∧
      (plan t spec = .ok [] → (¬ ProvidesValues t spec ↔
        ∃ e ∈ spec.entries, ∀ s ∈ specifiersFrom t spec.source, specified t s = namedOf e →
          s.hasToken "type" = true)) := by
  have hiff : plan t spec = .ok [] ↔ Satisfied t spec := by
    rw [plan_eq_of_not_isEmpty hspec, planBindings_eq_ok_nil_iff,
      satisfied_iff (ImportSpec.isValid_of_validate hvalid)]
  refine ⟨hiff, fun h => ?_⟩
  rw [(hiff.mp h).providesValues_iff]
  simp only [not_forall, not_exists, not_and, Bool.not_eq_false, exists_prop]

/-- A module that imports a name as a type, in braces. -/
def typeImported : Tree := .build 1 .tsx "import \x7b type User \x7d from './types';\n".toList

theorem plan_satisfied_type :
    let spec : ImportSpec := ⟨"./types", none, ["User"], none⟩
    spec.validate = .ok () ∧ spec.isEmpty = false ∧ plan typeImported spec = .ok [] ∧
      ¬ ProvidesValues typeImported spec := by
  intro spec
  have hvalid : spec.validate.toOption = some () := by decide +kernel
  have hplan : (plan typeImported spec).toOption = some [] := by decide +kernel
  have htypes : ((specifiersFrom typeImported "./types").all (·.hasToken "type")) = true := by
    decide +kernel
  have hvalid := toOption_eq_some_iff.mp hvalid
  have hplan := toOption_eq_some_iff.mp hplan
  refine ⟨hvalid, rfl, hplan, ((plan_satisfied hvalid rfl).2 hplan).mpr ?_⟩
  exact ⟨"User", List.mem_singleton_self "User", fun s hs _ => List.all_eq_true.mp htypes s hs⟩

example : missing typeImported ⟨"./types", none, ["User", "Group"], none⟩ = ["Group"] := by
  decide +kernel

end Values

end Import

end SourceChange
