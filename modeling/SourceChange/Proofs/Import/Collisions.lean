import SourceChange.Proofs.Import.Additions

/-!
Names that an import plan would bind a second time.

A plan refuses a name that a module has bound otherwise, unless an import of the same source binds it.
It does not compare the names of a request with each other.
-/

namespace SourceChange

open Source Syntax

theorem ImportSpec.isEmpty_iff {spec : ImportSpec} :
    spec.isEmpty = true ↔ spec.defaultName = none ∧ spec.entries = [] ∧ spec.namespaceName = none := by
  rw [isEmpty, Bool.and_eq_true, Bool.and_eq_true, Option.isNone_iff_eq_none, List.isEmpty_iff,
    Option.isNone_iff_eq_none, and_assoc]

namespace Import

variable {t : Tree} {spec : ImportSpec} {source name : String} {imports : List Source.Import}

/-- The names that a request brings in, as it gives them. -/
def newNames (t : Tree) (spec : ImportSpec) : List String :=
  let present := fromSource spec.source t.imports
  (missingEntries spec present).map localName ++ (missingDefault? spec present).toList ++
    (missingNamespace? spec present).toList

/-- A name that imports of one source may have bound, but nothing else. -/
structure Open (t : Tree) (source name : String) : Prop where
  imported : ∀ i ∈ t.imports, name ∈ i.locals → i.source = source
  declared : name ∈ t.moduleNames → ∃ i ∈ t.imports, name ∈ i.locals

/-- What an import binds is declared in its module. -/
theorem mem_moduleNames_of_import {i : Source.Import} (hi : i ∈ t.imports)
    (hname : name ∈ i.locals) : name ∈ t.moduleNames := by
  obtain ⟨n, hn, rfl⟩ := List.mem_map.mp hi
  obtain ⟨hn, hkind⟩ := List.mem_filter.mp hn
  refine List.mem_append_right _ (List.mem_flatMap.mpr ⟨n, hn, ?_⟩)
  have hkind : n.kind = .construct .importStatement := beq_iff_eq.mp hkind
  simpa [Tree.statementBindings, Tree.plainBindings, Node.is, Node.isOneOf, hkind] using hname

theorem Open.mem_moduleNames_iff (h : Open t source name) :
    name ∈ t.moduleNames ↔ ∃ i ∈ t.imports, i.source = source ∧ name ∈ i.locals := by
  constructor
  · intro hname
    obtain ⟨i, hi, hlocal⟩ := h.declared hname
    exact ⟨i, hi, h.imported i hi hlocal, hlocal⟩
  · rintro ⟨i, hi, -, hlocal⟩
    exact mem_moduleNames_of_import hi hlocal

theorem importedElsewhere?_eq_none_iff :
    importedElsewhere? source name imports = none ↔
      ∀ i ∈ imports, name ∈ i.locals → i.source = source := by
  rw [importedElsewhere?, Option.map_eq_none_iff, List.getLast?_eq_none_iff, List.filter_eq_nil_iff]
  refine forall₂_congr fun i _ => ?_
  simp only [Bool.and_eq_true, bne_iff_ne, List.contains_iff_mem, not_and]
  exact ⟨fun h hlocal => by_contra fun hne => h hne hlocal, fun h hne hlocal => hne (h hlocal)⟩

theorem checkName_eq_ok_iff : checkName t t.imports source name = .ok () ↔ Open t source name := by
  unfold checkName
  split
  case h_1 other hother =>
    refine iff_of_false nofun fun h => ?_
    cases hother.symm.trans (importedElsewhere?_eq_none_iff.mpr h.imported)
  case h_2 hnone =>
    have himported := importedElsewhere?_eq_none_iff.mp hnone
    have hbound :
        t.imports.any (·.locals.contains name) = true ↔ ∃ i ∈ t.imports, name ∈ i.locals := by
      simp only [List.any_eq_true, List.contains_iff_mem]
    dsimp only
    split
    case isTrue hdeclared =>
      refine iff_of_false nofun fun h => ?_
      obtain ⟨hname, hfree⟩ := Bool.and_eq_true_iff.mp hdeclared
      have hany := hbound.mpr (h.declared (List.contains_iff_mem.mp hname))
      rw [hany] at hfree
      cases hfree
    case isFalse hfree =>
      refine iff_of_true rfl ⟨himported, fun hname => hbound.mp ?_⟩
      by_contra hany
      refine hfree (Bool.and_eq_true_iff.mpr ⟨List.contains_iff_mem.mpr hname, ?_⟩)
      rw [Bool.eq_false_iff.mpr hany]
      rfl

theorem checkDefault_eq_ok_iff {present : List Source.Import} :
    checkDefault spec present = .ok () ↔
      ∀ wanted ∈ spec.defaultName, ∀ n ∈ presentDefault? present, n.name = wanted := by
  unfold checkDefault
  split
  case h_1 wanted n hwanted hn =>
    simp only [hwanted, hn, Option.mem_some_iff, forall_eq']
    split
    case isTrue h => exact iff_of_true rfl (beq_iff_eq.mp h)
    case isFalse h => exact iff_of_false nofun (by simpa using h)
  case h_2 h =>
    exact iff_of_true rfl fun wanted hwanted n hn => absurd hn (h wanted n hwanted)

/-- A request that a plan does not refuse. -/
structure Accepted (t : Tree) (spec : ImportSpec) : Prop where
  default : ∀ wanted ∈ spec.defaultName, ∀ n ∈ presentDefault? (fromSource spec.source t.imports),
    n.name = wanted
  names : ∀ n ∈ newNames t spec, Open t spec.source n

theorem exists_planBindings_iff (ht : t.Built) :
    (∃ es, planBindings t spec = .ok es) ↔ Accepted t spec := by
  constructor
  · rintro ⟨es, h⟩
    obtain ⟨⟨⟩, hdefault, h⟩ := bind_eq_ok_iff.mp h
    obtain ⟨⟨⟩, hnames, -⟩ := bind_eq_ok_iff.mp h
    exact ⟨checkDefault_eq_ok_iff.mp hdefault,
      fun n hn => checkName_eq_ok_iff.mp (forM_eq_ok_iff.mp hnames n hn)⟩
  · intro h
    have hdefault := checkDefault_eq_ok_iff.mpr h.default
    have hnames := forM_eq_ok_iff.mpr fun n hn => checkName_eq_ok_iff.mpr (h.names n hn)
    have hpresent (i : Source.Import) (hi : i ∈ fromSource spec.source t.imports) : i ∈ t.imports :=
      mem_of_mem_present hi
    refine exists_bind_eq_ok_iff.mpr ⟨(), hdefault, exists_bind_eq_ok_iff.mpr ⟨(), hnames, ?_⟩⟩
    obtain ⟨⟨entries, took⟩, hentries⟩ := exists_addEntries ht hpresent ..
    refine exists_bind_eq_ok_iff.mpr ⟨(entries, took), hentries, ?_⟩
    dsimp only
    split
    · split
      · exact ⟨_, rfl⟩
      · obtain ⟨d, hd⟩ := exists_addDefault ht hpresent _
        exact exists_bind_eq_ok_iff.mpr ⟨d, hd, _, rfl⟩
    · exact ⟨_, rfl⟩

section Empty

variable (hempty : spec.isEmpty = true)
include hempty

theorem newNames_of_isEmpty : newNames t spec = [] := by
  obtain ⟨hdefault, hentries, hnamespace⟩ := ImportSpec.isEmpty_iff.mp hempty
  have hone : missingDefault? spec (fromSource spec.source t.imports) = none := by
    rw [missingDefault?, hdefault, ite_self]
  simp [newNames, hone, missingEntries, distinctEntries, hentries, missingNamespace?, hnamespace]

theorem accepted_of_isEmpty : Accepted t spec where
  default := by
    rw [(ImportSpec.isEmpty_iff.mp hempty).1]
    exact nofun
  names := by
    rw [newNames_of_isEmpty hempty]
    exact nofun

end Empty

/-- A plan is found for the requests that are accepted. -/
theorem exists_plan_iff (ht : t.Built) : (∃ es, plan t spec = .ok es) ↔ Accepted t spec := by
  cases hempty : spec.isEmpty with
  | true =>
    refine iff_of_true ?_ (accepted_of_isEmpty hempty)
    rw [plan, if_pos hempty]
    split <;> exact ⟨_, rfl⟩
  | false =>
    rw [plan_eq_of_not_isEmpty hempty]
    exact exists_planBindings_iff ht

/-- Edits that bring in bindings, or one statement without any. -/
inductive Binds (t : Tree) (source : String) : List Edit → List ImportedName → Prop where
  | adds {es : List Edit} {xss : List (List ImportedName)} (h : List.Forall₂ (Adds t source) es xss) :
    Binds t source es xss.flatten
  | bare {quote : String} (hquote : IsQuote quote) :
    Binds t source [newStatements t t.imports ("import " ++ (quote ++ source ++ quote) ++ ";")] []

theorem binds_of_isEmpty {es : List Edit} (hempty : spec.isEmpty = true) (h : plan t spec = .ok es) :
    Binds t spec.source es [] := by
  rw [plan, if_pos hempty] at h
  split at h
  · cases h
    exact .adds .nil
  · cases h
    obtain ⟨hdefault, hentries, -⟩ := ImportSpec.isEmpty_iff.mp hempty
    have htext (quote : String) :
        render spec quote = "import " ++ (quote ++ spec.source ++ quote) ++ ";" := by
      simp [render, hdefault, hentries]
    rw [htext]
    exact .bare (quoteStyle_isQuote t t.imports)

theorem stripped_of_isBareName (h : isBareName name.toList = true) : Text.stripped name = name :=
  stripped_entry (x := ⟨name, none, .named⟩) ⟨h, nofun⟩

theorem map_localName_missing {present : List Source.Import} (hspec : spec.IsValid) :
    ((missingEntries spec present).map namedOf).map (·.localName) =
      ((missingEntries spec present).map localName).map Text.stripped := by
  rw [List.map_map, List.map_map]
  refine List.map_congr_left fun e he => ?_
  have hbare := (isNamed_of_mem_missing hspec he).1.toIsBare
  have hlocal : isBareName (namedOf e).localName.toList = true := by
    rw [ImportedName.localName]
    cases hnew : (namedOf e).newName with
    | none => exact hbare.name
    | some a => exact (hbare.newName a hnew).1
  rw [Function.comp_apply, Function.comp_apply, localName_eq hbare, stripped_of_isBareName hlocal]

/-- The names inside the module are those of the request without blanks at the end. -/
theorem localNames_perm (hspec : spec.IsValid) :
    ((missingBindings t spec).map (·.localName)).Perm ((newNames t spec).map Text.stripped) := by
  simp only [missingBindings, newNames, List.map_append, map_localName_missing hspec, List.map_map]
  exact List.perm_append_comm.append_right _

theorem exists_binds {es : List Edit} (hspec : spec.IsValid) (h : plan t spec = .ok es) :
    ∃ xs, Binds t spec.source es xs ∧
      (xs.map (·.localName)).Perm ((newNames t spec).map Text.stripped) := by
  cases hempty : spec.isEmpty with
  | true =>
    refine ⟨[], binds_of_isEmpty hempty h, ?_⟩
    rw [newNames_of_isEmpty hempty]
    exact .nil
  | false =>
    rw [plan_eq_of_not_isEmpty hempty] at h
    obtain ⟨xss, hadds, hperm⟩ := planBindings_adds hspec h
    exact ⟨xss.flatten, .adds hadds, (hperm.map _).trans (localNames_perm hspec)⟩

/-- What a plan does not check: the names of a request are distinct, they end without blanks, and they are
not bound by an import of the same source. -/
structure Unrelated (t : Tree) (spec : ImportSpec) : Prop where
  distinct : (newNames t spec).Nodup
  solid : ∀ n ∈ newNames t spec, Text.stripped n = n
  unbound : ∀ i ∈ t.imports, i.source = spec.source → ∀ n ∈ newNames t spec, n ∉ i.locals

/-- Which requests are accepted, and which names they bind. Those that the module has declared are bound
by imports of the same source. No name is bound twice if a request meets what is not checked. -/
theorem plan_collisions (ht : t.Built) (hvalid : spec.validate = .ok ()) :
    ((∃ es, plan t spec = .ok es) ↔ Accepted t spec) ∧
      ∀ es, plan t spec = .ok es → ∃ xs, Binds t spec.source es xs ∧
        (xs.map (·.localName)).Perm ((newNames t spec).map Text.stripped) ∧
        (∀ n ∈ newNames t spec,
          n ∈ t.moduleNames ↔ ∃ i ∈ t.imports, i.source = spec.source ∧ n ∈ i.locals) ∧
        (Unrelated t spec → (xs.map (·.localName)).Nodup ∧ ∀ x ∈ xs, x.localName ∉ t.moduleNames) := by
  refine ⟨exists_plan_iff ht, fun es h => ?_⟩
  have haccepted := (exists_plan_iff ht).mp ⟨es, h⟩
  have hdeclared (n : String) (hn : n ∈ newNames t spec) := (haccepted.names n hn).mem_moduleNames_iff
  obtain ⟨xs, hxs, hperm⟩ := exists_binds (ImportSpec.isValid_of_validate hvalid) h
  refine ⟨xs, hxs, hperm, hdeclared, fun hunrelated => ?_⟩
  have hstripped : (newNames t spec).map Text.stripped = newNames t spec := by
    rw [List.map_congr_left (g := id) hunrelated.solid, List.map_id]
  rw [hstripped] at hperm
  refine ⟨hperm.nodup_iff.mpr hunrelated.distinct, fun x hx hname => ?_⟩
  have hnew := hperm.mem_iff.mp (List.mem_map_of_mem hx)
  obtain ⟨i, hi, hsource, hlocal⟩ := (hdeclared _ hnew).mp hname
  exact hunrelated.unbound i hi hsource _ hnew hlocal

/-- A module that imports a name as `x`. -/
def aliasImported : Tree := .build 1 .tsx "import \x7b a as x \x7d from 'm';\n".toList

theorem plan_collisions_alias :
    let spec : ImportSpec := ⟨"m", none, ["x"], none⟩
    aliasImported.Built ∧ spec.validate = .ok () ∧ aliasImported.moduleNames = ["x"] ∧
      plan aliasImported spec = .ok [.insert 15 ", x"] ∧
      ∃ xs, Binds aliasImported "m" [.insert 15 ", x"] xs ∧ xs.map (·.localName) = ["x"] := by
  intro spec
  have hbuilt : aliasImported.Built := Tree.built_build _ _ _
  have hvalid : spec.validate.toOption = some () := by decide +kernel
  have hplan : (plan aliasImported spec).toOption = some [.insert 15 ", x"] := by decide +kernel
  have hnames : aliasImported.moduleNames = ["x"] ∧
      (newNames aliasImported spec).map Text.stripped = ["x"] := by
    decide +kernel
  have hvalid := toOption_eq_some_iff.mp hvalid
  have hplan := toOption_eq_some_iff.mp hplan
  obtain ⟨xs, hxs, hperm, -⟩ := (plan_collisions hbuilt hvalid).2 _ hplan
  rw [hnames.2] at hperm
  exact ⟨hbuilt, hvalid, hnames.1, hplan, xs, hxs, List.perm_singleton.mp hperm⟩

example : (plan aliasImported ⟨"m", none, ["b as y", "c as y"], none⟩).toOption =
    some [.insert 15 ", b as y, c as y"] := by
  decide +kernel

end Import

end SourceChange
