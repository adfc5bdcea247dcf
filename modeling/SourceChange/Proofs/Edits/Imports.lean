import SourceChange.Proofs.Edits.Placement

/-!
The edits of an import plan.

A plan has up to three edits. Names and a default binding join one statement that imports from the same
place already, the default binding in front of the braces; new statements follow the last import. So no two
of them overlap.
-/

namespace SourceChange

open Source Syntax Syntax.Node

theorem Syntax.Node.Row.pairwise_stop_le {lo hi : Nat} {ns : List Node} (h : Row lo hi ns) :
    ns.Pairwise fun a b => a.stop ≤ b.stop := by
  induction ns generalizing lo with
  | nil => exact .nil
  | cons n ns ih =>
    obtain ⟨-, -, -, hrest⟩ := h
    refine .cons (fun m hm => ?_) (ih hrest)
    obtain ⟨hstart, -, hm⟩ := hrest.of_mem hm
    exact Nat.le_trans hstart hm.start_le_stop

namespace Import

variable {t : Tree} {spec : ImportSpec} {quote : String} {present : List Source.Import}

theorem mem_of_mem_present {source : String} {i : Source.Import}
    (hi : i ∈ fromSource source t.imports) : i ∈ t.imports := (List.mem_filter.mp hi).1

/-- Braces are a part of the clause of their import. -/
theorem findBraces?_eq_ok {i : Source.Import} {named : Node}
    (h : findBraces? t present = .ok (some (i, named))) :
    i ∈ present ∧ ∃ statement clause, t.resolve i.handle = .ok statement ∧
      Tree.importClause? statement = some clause ∧ named ∈ clause.walk := by
  induction present with
  | nil => cases h
  | cons j present ih =>
    obtain ⟨found, hfound, h⟩ := bind_eq_ok_iff.mp h
    cases found with
    | none =>
      obtain ⟨hmem, hparts⟩ := ih h
      exact ⟨List.mem_cons_of_mem j hmem, hparts⟩
    | some n =>
      cases h
      obtain ⟨statement, hresolve, hclause⟩ := bind_eq_ok_iff.mp hfound
      obtain ⟨clause, hclause, hnamed⟩ := Option.bind_eq_some_iff.mp (Except.ok.inj hclause)
      refine ⟨List.mem_cons_self, statement, clause, hresolve, hclause, ?_⟩
      exact mem_walk_of_mem_named (List.mem_of_find?_eq_some hnamed)

theorem importClause?_mem_walk {statement clause : Node}
    (h : Tree.importClause? statement = some clause) : clause ∈ statement.walk :=
  mem_walk_of_mem_named (List.mem_of_find?_eq_some h)

theorem clauseOf_eq_ok {i : Source.Import} {clause : Node} (h : clauseOf t i = .ok clause) :
    ∃ statement, t.resolve i.handle = .ok statement ∧
      clause = (Tree.importClause? statement).getD statement ∧ clause ∈ statement.walk := by
  obtain ⟨statement, hresolve, h⟩ := bind_eq_ok_iff.mp h
  cases h
  refine ⟨statement, hresolve, rfl, ?_⟩
  cases hclause : Tree.importClause? statement with
  | none => exact statement.self_mem_walk
  | some clause => exact importClause?_mem_walk hclause

/-- Named bindings join the braces of an import, follow its default binding, or go elsewhere. -/
theorem addEntries_eq_ok {names : List String} {newDefault : Option String} {a : Additions}
    {took : Bool} (h : addEntries t spec quote present names newDefault = .ok (a, took)) :
    a.edits = [] ∨
      (∃ i named, findBraces? t present = .ok (some (i, named)) ∧
        a.edits = [extendBraces t named names]) ∨
      findBraces? t present = .ok none ∧ ∃ i ∈ present, ∃ statement, ∃ node ∈ statement.walk,
        t.resolve i.handle = .ok statement ∧ a.edits = [.insert node.stop (", " ++ braces names)] := by
  unfold addEntries at h
  split at h
  case isTrue =>
    cases h
    exact .inl rfl
  case isFalse =>
    obtain ⟨found, hfound, h⟩ := bind_eq_ok_iff.mp h
    cases found with
    | some found =>
      cases h
      exact .inr (.inl ⟨found.1, found.2, hfound, rfl⟩)
    | none =>
      dsimp only at h
      split at h
      case h_2 =>
        cases h
        exact .inl rfl
      case h_1 i hi =>
        obtain ⟨clause, hclause, h⟩ := bind_eq_ok_iff.mp h
        cases h
        obtain ⟨statement, hresolve, -, hclause⟩ := clauseOf_eq_ok hclause
        refine .inr (.inr ⟨hfound, i, List.mem_of_find?_eq_some hi, statement, _,
          mem_walk_trans hclause ?_, hresolve, rfl⟩)
        cases hidentifier : clause.named.find? (·.is .identifier) with
        | none => exact clause.self_mem_walk
        | some n => exact mem_walk_of_mem_named (List.mem_of_find?_eq_some hidentifier)

/-- A default binding goes in front of braces, or elsewhere. -/
theorem addDefault_eq_ok {name : String} {a : Additions}
    (h : addDefault t spec quote present name = .ok a) :
    a.edits = [] ∨ ∃ i named clause, findBraces? t present = .ok (some (i, named)) ∧
      clauseOf t i = .ok clause ∧ a.edits = [.insert clause.start (name ++ ", ")] := by
  obtain ⟨found, hfound, h⟩ := bind_eq_ok_iff.mp h
  cases found with
  | none =>
    cases h
    exact .inl rfl
  | some found =>
    dsimp only at h
    split at h
    case isFalse =>
      cases h
      exact .inl rfl
    case isTrue =>
      obtain ⟨clause, hclause, h⟩ := bind_eq_ok_iff.mp h
      cases h
      exact .inr ⟨found.1, found.2, clause, hfound, hclause, rfl⟩

section Built

variable (ht : t.Built)
include ht

theorem exists_resolve {i : Source.Import} (hi : i ∈ t.imports) : ∃ n, t.resolve i.handle = .ok n := by
  obtain ⟨n, hn, -, hhandle⟩ := Tree.exists_of_mem_imports hi
  obtain ⟨v, hv⟩ := ht.resolves_of_import hi n (child_mem_walk hn)
  exact ⟨v.node, by rw [hhandle, Tree.resolve, hv]; rfl⟩

theorem exists_findBraces? (hpresent : ∀ i ∈ present, i ∈ t.imports) :
    ∃ found, findBraces? t present = .ok found := by
  induction present with
  | nil => exact ⟨none, rfl⟩
  | cons i rest ih =>
    obtain ⟨hi, hrest⟩ := List.forall_mem_cons.mp hpresent
    obtain ⟨statement, hstatement⟩ := exists_resolve ht hi
    obtain ⟨found, hfound⟩ := ih hrest
    rw [findBraces?, bracesOf?, hstatement]
    cases hbraces : (Tree.importClause? statement).bind fun c => c.named.find? (·.is .namedImports) with
    | some n => exact ⟨some (i, n), by simp only [bind, Except.bind, pure, Except.pure, hbraces]⟩
    | none => exact ⟨found, by simpa only [bind, Except.bind, pure, Except.pure, hbraces] using hfound⟩

theorem exists_clauseOf {i : Source.Import} (hi : i ∈ t.imports) : ∃ clause, clauseOf t i = .ok clause := by
  obtain ⟨statement, hstatement⟩ := exists_resolve ht hi
  exact ⟨_, by rw [clauseOf, hstatement]; rfl⟩

theorem exists_addEntries (hpresent : ∀ i ∈ present, i ∈ t.imports) (names : List String)
    (newDefault : Option String) : ∃ a, addEntries t spec quote present names newDefault = .ok a := by
  obtain ⟨found, hfound⟩ := exists_findBraces? ht hpresent
  unfold addEntries
  split
  · exact ⟨_, rfl⟩
  · rw [hfound]
    cases found with
    | some found => exact ⟨_, rfl⟩
    | none =>
      dsimp only [bind, Except.bind]
      split
      case h_1 i hi =>
        obtain ⟨clause, hclause⟩ := exists_clauseOf ht (hpresent i (List.mem_of_find?_eq_some hi))
        rw [hclause]
        exact ⟨_, rfl⟩
      case h_2 => exact ⟨_, rfl⟩

theorem exists_addDefault (hpresent : ∀ i ∈ present, i ∈ t.imports) (name : String) :
    ∃ a, addDefault t spec quote present name = .ok a := by
  obtain ⟨found, hfound⟩ := exists_findBraces? ht hpresent
  rw [addDefault, hfound]
  cases found with
  | none => exact ⟨_, rfl⟩
  | some found =>
    obtain ⟨clause, hclause⟩ := exists_clauseOf ht (hpresent found.1 (findBraces?_eq_ok hfound).1)
    dsimp only [bind, Except.bind]
    rw [hclause]
    split <;> exact ⟨_, rfl⟩

end Built

variable (hroot : t.rootD.Regular t.chars)
include hroot

theorem extendBraces_within {named : Node} (hnamed : named ∈ t.rootD.walk) (names : List String) :
    (extendBraces t named names).Within t.chars named.start named.stop := by
  unfold extendBraces
  split
  case h_1 => exact hroot.within_replace hnamed _
  case h_2 last hlast =>
    have hlast := (List.mem_filter.mp (List.mem_of_getLast? hlast)).1
    exact hroot.within_part_stop hnamed (mem_walk_of_mem_named hlast) _

theorem entries_applicable {names : List String} {newDefault : Option String} {entries : Additions}
    {took : Bool} (h : addEntries t spec quote present names newDefault = .ok (entries, took)) :
    Edit.Applicable t.chars entries.edits ∧
      ∀ e ∈ entries.edits, ∃ i ∈ present, e.stop ≤ i.handle.span.stop := by
  obtain hnone | ⟨i, named, hfound, hedits⟩ | ⟨-, i, hi, statement, node, hnode, hresolve, hedits⟩ :=
    addEntries_eq_ok h
  · rw [hnone]
    exact ⟨Edit.applicable_nil _, by simp⟩
  · obtain ⟨hi, statement, clause, hresolve, hclause, hnamed⟩ := findBraces?_eq_ok hfound
    obtain ⟨hmem, hspan, -⟩ := Tree.resolve_eq_ok hresolve
    have hpart := mem_walk_trans (importClause?_mem_walk hclause) hnamed
    have hwithin := extendBraces_within hroot (mem_walk_trans hmem hpart) names
    rw [hedits]
    refine ⟨hwithin.applicable, List.forall_mem_singleton.mpr ⟨i, hi, ?_⟩⟩
    rw [← hspan]
    exact Nat.le_trans hwithin.le_hi (hroot.inside hmem hpart).2
  · obtain ⟨hmem, hspan, -⟩ := Tree.resolve_eq_ok hresolve
    rw [hedits]
    refine ⟨(hroot.within_part_stop hmem hnode _).applicable,
      List.forall_mem_singleton.mpr ⟨i, hi, ?_⟩⟩
    rw [← hspan]
    exact (hroot.inside hmem hnode).2

/-- What is added to the statements that import from a place already. -/
theorem additions_applicable {names : List String} {newDefault : Option String}
    {entries default : Additions} {took : Bool}
    (hentries : addEntries t spec quote present names newDefault = .ok (entries, took))
    (hdefault : default.edits = [] ∨ ∃ name, addDefault t spec quote present name = .ok default) :
    Edit.Applicable t.chars (entries.edits ++ default.edits) ∧
      ∀ e ∈ entries.edits ++ default.edits, ∃ i ∈ present, e.stop ≤ i.handle.span.stop := by
  obtain ⟨hfirst, hbefore⟩ := entries_applicable hroot hentries
  obtain hnone | ⟨name, hdefault⟩ := hdefault
  · rw [hnone, List.append_nil]
    exact ⟨hfirst, hbefore⟩
  obtain hnone | ⟨i, named, clause, hfound, hclause, hedits⟩ := addDefault_eq_ok hdefault
  · rw [hnone, List.append_nil]
    exact ⟨hfirst, hbefore⟩
  obtain ⟨hi, statement, clause', hresolve, hclause', hnamed⟩ := findBraces?_eq_ok hfound
  obtain ⟨statement', hresolve', hclause, -⟩ := clauseOf_eq_ok hclause
  cases hresolve.symm.trans hresolve'
  rw [hclause', Option.getD_some] at hclause
  subst hclause
  obtain ⟨hmem, hspan, -⟩ := Tree.resolve_eq_ok hresolve
  have hpart := importClause?_mem_walk hclause'
  have hmem' := mem_walk_trans hmem hpart
  have hbinding := hroot.within_insert_start hmem' (name ++ ", ")
  rw [hedits]
  constructor
  · -- the default binding lies before the braces, if these are extended, too
    refine hfirst.append hbinding.applicable fun x hx y hy => .inr ?_
    obtain rfl := List.mem_singleton.mp hy
    obtain hnone | ⟨j, named', hfound', hedits'⟩ | ⟨hnone, -⟩ := addEntries_eq_ok hentries
    · rw [hnone] at hx
      cases hx
    · cases hfound.symm.trans hfound'
      rw [hedits'] at hx
      obtain rfl := List.mem_singleton.mp hx
      have hwithin := extendBraces_within hroot (mem_walk_trans hmem' hnamed) names
      exact Nat.le_trans (hroot.inside hmem' hnamed).1 hwithin.lo_le
    · cases hfound.symm.trans hnone
  · refine List.forall_mem_append.mpr ⟨hbefore, List.forall_mem_singleton.mpr ⟨i, hi, ?_⟩⟩
    have hle : clause.start ≤ i.handle.span.stop := by
      have hstop := (hroot.inside hmem hpart).2
      rw [← hspan]
      exact Nat.le_trans (hroot.start_le_stop hmem') hstop
    exact hle

theorem directivesEndFrom_boundary {ns : List Node} (hns : ∀ n ∈ ns, n ∈ t.rootD.walk) {offset : Nat}
    (hoffset : Boundary t.chars offset) : Boundary t.chars (Tree.directivesEndFrom offset ns) := by
  induction ns generalizing offset with
  | nil => exact hoffset
  | cons n ns ih =>
    obtain ⟨hn, hns⟩ := List.forall_mem_cons.mp hns
    rw [Tree.directivesEndFrom]
    split
    · exact ih hns hoffset
    · split
      · exact ih hns (hroot.stop n hn)
      · exact hoffset

/-- No import ends after the last one. -/
theorem stop_le_last {i last : Source.Import} (hi : i ∈ t.imports)
    (hlast : t.imports.getLast? = some last) : i.handle.span.stop ≤ last.handle.span.stop := by
  have hpairwise : t.imports.Pairwise fun a b => a.handle.span.stop ≤ b.handle.span.stop := by
    have hrow := hroot.nested.row.pairwise_stop_le
    exact List.pairwise_map.mpr ((hrow.filter _).filter _)
  obtain ⟨front, heq⟩ := List.getLast?_eq_some_iff.mp hlast
  rw [heq] at hi hpairwise
  obtain hi | hi := List.mem_append.mp hi
  · exact (List.pairwise_append.mp hpairwise).2.2 i hi last List.mem_cons_self
  · obtain rfl := List.mem_singleton.mp hi
    exact Nat.le_refl _

/-- New statements follow all imports. -/
theorem newStatements_within (statements : String) :
    ∃ lo hi, (newStatements t t.imports statements).Within t.chars lo hi ∧
      ∀ i ∈ t.imports, i.handle.span.stop ≤ lo := by
  unfold newStatements
  split
  case h_1 last hlast =>
    obtain ⟨n, hn, -, hhandle⟩ := Tree.exists_of_mem_imports (List.mem_of_getLast? hlast)
    have hboundary : Boundary t.chars last.handle.span.stop := by
      rw [hhandle]
      exact hroot.stop n (child_mem_walk hn)
    exact ⟨_, _, Edit.within_insert hboundary _, fun i hi => stop_le_last hroot hi hlast⟩
  case h_2 hnone =>
    have hempty : t.imports = [] := List.getLast?_eq_none_iff.mp hnone
    have hoffset : Boundary t.chars t.directivesEnd :=
      directivesEndFrom_boundary hroot (fun n hn => mem_walk_of_mem_named hn) (boundary_zero _)
    rw [hempty]
    dsimp only
    split
    · exact ⟨_, _, Edit.within_insert hoffset _, by simp⟩
    · split
      · exact ⟨_, _, Edit.within_insert (boundary_zero _) _, by simp⟩
      · exact ⟨_, _, Edit.within_insert (boundary_zero _) _, by simp⟩

theorem planBindings_applicable {es : List Edit} (h : planBindings t spec = .ok es) :
    Edit.Applicable t.chars es := by
  obtain ⟨-, -, h⟩ := bind_eq_ok_iff.mp h
  obtain ⟨-, -, h⟩ := bind_eq_ok_iff.mp h
  obtain ⟨⟨entries, took⟩, hentries, h⟩ := bind_eq_ok_iff.mp h
  have hend {default : Additions} {statements : List String}
      (hdefault : default.edits = [] ∨ ∃ name,
        addDefault t spec (quoteStyle t t.imports) (fromSource spec.source t.imports) name =
          .ok default) :
      Edit.Applicable t.chars (entries.edits ++ default.edits ++
        if statements.isEmpty then [] else
          [newStatements t t.imports (Text.join "\n" statements)]) := by
    obtain ⟨hadditions, hbefore⟩ := additions_applicable hroot hentries hdefault
    split
    · rwa [List.append_nil]
    · obtain ⟨lo, hi, hwithin, hafter⟩ := newStatements_within hroot (Text.join "\n" statements)
      refine hadditions.append hwithin.applicable fun x hx y hy => .inl ?_
      obtain rfl := List.mem_singleton.mp hy
      obtain ⟨i, hi, hle⟩ := hbefore x hx
      exact Nat.le_trans hle (Nat.le_trans (hafter i (mem_of_mem_present hi)) hwithin.lo_le)
  dsimp only at h
  split at h
  case h_2 =>
    cases h
    exact hend (.inl rfl)
  case h_1 name hname =>
    split at h
    case isTrue =>
      cases h
      exact hend (.inl rfl)
    case isFalse =>
      obtain ⟨default, hdefault, h⟩ := bind_eq_ok_iff.mp h
      cases h
      exact hend (.inr ⟨name, hdefault⟩)

/-- The edits of a plan can be applied together. -/
theorem plan_applicable {es : List Edit} (h : plan t spec = .ok es) : Edit.Applicable t.chars es := by
  unfold plan at h
  split at h
  case isFalse => exact planBindings_applicable hroot h
  case isTrue =>
    split at h
    · cases h
      exact Edit.applicable_nil _
    · cases h
      obtain ⟨lo, hi, hwithin, -⟩ :=
        newStatements_within hroot (render spec (quoteStyle t t.imports))
      exact hwithin.applicable

end Import

end SourceChange
