import SourceChange.Proofs.Hook.Placement

/-!
The names that a hook declares.

A hook is refused if one of its names is a parameter of the component, or declared in its body by `const`,
`let`, a function or a class. A `var` and an abstract class are overlooked, and the names of a hook are not
compared with each other.
-/

namespace SourceChange

open Source Syntax Syntax.Node

namespace Source

/-- A statement that declares a name in its scope: by a variable of any kind, or as a function or a class. -/
inductive Tree.Declares (t : Tree) (s : Node) (n : String) : Prop where
  | declarator {d : Node} (hs : s.isOneOf [.lexicalDeclaration, .variableDeclaration] = true) (hd : d ∈ s.named)
    (hdeclarator : d.is .variableDeclarator = true) (hn : n ∈ t.patternNames (d.child? .name)) : Declares t s n
  | named (hs : s.isOneOf [.functionDeclaration, .generatorFunctionDeclaration, .classDeclaration,
      .abstractClassDeclaration] = true) (hname : t.roleText? s .name = some n) (hne : n ≠ "") : Declares t s n

/-- Declarations whose names are not looked at. -/
def isOverlooked (s : Node) : Bool := s.isOneOf [.variableDeclaration, .abstractClassDeclaration]

/-- Where a component declares names: its parameters, and the statements of its body if that is a block. An
arrow function that evaluates an expression has a list of parameters in parentheses, or a bare name. -/
inductive Tree.Scope (t : Tree) (f : Function) : Option Node → List Node → Prop where
  | block {v : Node.Visit} {b : Node} (hv : v ∈ t.rootD.visits) (hf : t.functionOf? v = some f)
    (hb : v.node.child? .body = some b) (hblock : b.is .statementBlock = true) :
    Scope t f v.node.parameters? b.parts
  | expression {v : Node.Visit} (hv : v ∈ t.rootD.visits) (hf : t.functionOf? v = some f)
    (hbody : ((v.node.child? .body).getD v.node).kind.name ≠ Construct.statementBlock.name)
    (hparameters : ∀ p, v.node.parameters? = some p → p.kind.isBracketed = true ∨ p.children = []) :
    Scope t f v.node.parameters? []

namespace Tree

variable {t : Tree} {f : Function} {v : Node.Visit} {s : Node} {n : String} {ps : Option Node} {ss : List Node}
  {names declared : List String}

/-- The names of all declarations that are looked at are among the bindings of their statements. -/
theorem Declares.mem_statementBindings (h : t.Declares s n) (hs : isOverlooked s = false) :
    n ∈ t.statementBindings s := by
  simp only [isOverlooked, isOneOf, is, List.any_cons, List.any_nil, Bool.or_false, Bool.or_eq_false_iff,
    beq_eq_false_iff_ne] at hs
  obtain ⟨hvariable, habstract⟩ := hs
  cases h with
  | declarator hkind hd hdeclarator hn =>
    simp only [isOneOf, is, List.any_cons, List.any_nil, Bool.or_false, Bool.or_eq_true, beq_iff_eq,
      hvariable, or_false] at hkind
    have hmem : n ∈ t.declaratorNames s :=
      List.mem_flatMap.mpr ⟨_, List.mem_filter.mpr ⟨hd, hdeclarator⟩, hn⟩
    simpa [statementBindings, plainBindings, is, hkind] using hmem
  | named hkind hname hne =>
    simp only [isOneOf, is, List.any_cons, List.any_nil, Bool.or_false, Bool.or_eq_true, beq_iff_eq,
      habstract, or_false] at hkind
    rcases hkind with hkind | hkind | hkind <;>
      simp [statementBindings, plainBindings, is, isOneOf, hkind, hname, hne]

theorem statementBindings_comment (hs : s.is .comment = true) : t.statementBindings s = [] := by
  simp only [is, beq_iff_eq] at hs
  simp [statementBindings, plainBindings, is, isOneOf, hs]

theorem flatMap_statementBindings_parts (t : Tree) (n : Node) :
    n.named.flatMap t.statementBindings = n.parts.flatMap t.statementBindings := by
  rw [parts]
  induction n.named with
  | nil => rfl
  | cons s ss ih =>
    rw [List.flatMap_cons, ih]
    cases hcomment : s.is .comment with
    | true =>
      rw [statementBindings_comment hcomment, List.filter_cons_of_neg (by simp [hcomment]), List.nil_append]
    | false => rw [List.filter_cons_of_pos (by simp [hcomment]), List.flatMap_cons]

/-- The names in the way of new ones are those of the scope. -/
theorem Scope.namesIn_eq (h : t.Scope f ps ss) (ht : t.Built) :
    t.namesIn f = .ok (t.patternNames ps ++ ss.flatMap t.statementBindings) := by
  cases h with
  | @block v b hv hf hb hblock =>
    have hfunction := isFunction_of_functionOf? hf
    have hmem := mem_walk_of_mem_visits hv
    have hchild : b ∈ v.node.children := List.mem_of_find?_eq_some hb
    obtain ⟨-, name, declarator, rfl⟩ := exists_of_functionOf? hf
    obtain ⟨above, hresolve⟩ := ht.resolveVisit_of_child hmem hchild
      (ht.shorter_of_isBracketed (mem_walk_trans hmem (child_mem_walk hchild)) (isBracketed_of_is hblock))
    have hbody : (t.functionAt v name declarator).body = t.handle b := by
      rw [functionAt, hb]
      rfl
    rw [namesIn, hbody, hresolve]
    simp only [bind, Except.bind, hblock, if_true, declaredNames, Visit.parent?, List.head?_cons, hfunction,
      Bool.and_self, flatMap_statementBindings_parts]
    rfl
  | @expression v hv hf hexpression hparameters =>
    have hmem := mem_walk_of_mem_visits hv
    have hresolves := ht.resolves hmem (exists_of_functionOf? hf).1
    obtain ⟨-, name, declarator, rfl⟩ := exists_of_functionOf? hf
    have hbodyMem : (v.node.child? .body).getD v.node ∈ t.rootD.walk := by
      cases hchild : v.node.child? .body with
      | none => exact hmem
      | some b => exact mem_walk_trans hmem (mem_walk_of_child? hchild)
    obtain ⟨w, hw⟩ := hresolves _ hbodyMem
    have hbody : w.node.is .statementBlock = false := by
      obtain ⟨-, -, hkind⟩ := resolveVisit_eq_ok hw
      rw [Bool.eq_false_iff]
      intro hblock
      refine hexpression (hkind.symm.trans ?_)
      rw [eq_of_beq hblock]
      rfl
    have hparametersEq : (t.functionAt v name declarator).parameters = v.node.parameters?.map t.handle := rfl
    have hbodyEq : (t.functionAt v name declarator).body = t.handle ((v.node.child? .body).getD v.node) := rfl
    rw [namesIn, hbodyEq, hw]
    simp only [bind, Except.bind, hbody, Bool.false_eq_true, if_false, hparametersEq]
    cases hp : v.node.parameters? with
    | none => rfl
    | some p =>
      have hchild := child_mem_of_parameters? hp
      obtain ⟨above, hresolve⟩ := ht.resolveVisit_of_child hmem hchild (by
        obtain hbracketed | hleaf := hparameters p hp
        · exact ht.shorter_of_isBracketed (mem_walk_trans hmem (child_mem_walk hchild)) hbracketed
        · rw [hleaf]
          exact fun m hm => absurd hm List.not_mem_nil)
      simp only [Option.map_some, resolve_of_resolveVisit hresolve]
      simp [pure, Except.pure]

/-- The failure that names the taken ones among some names. -/
def takenFailure (f : Function) (names declared : List String) : Failure :=
  .alreadyDeclared (names.filter declared.contains)
    (if f.name.getD "" == "" then "the component" else f.name.getD "")

theorem checkNames_eq (hnames : t.namesIn f = .ok declared) (names : List String) :
    t.checkNames f names =
      if ∃ n ∈ names, n ∈ declared then .error (takenFailure f names declared) else .ok () := by
  have hempty : (names.filter declared.contains).isEmpty = true ↔ ¬ ∃ n ∈ names, n ∈ declared := by
    simp [List.filter_eq_nil_iff]
  rw [checkNames, hnames]
  by_cases htaken : ∃ n ∈ names, n ∈ declared
  · have hne : ¬ (names.filter declared.contains).isEmpty = true := fun h => hempty.mp h htaken
    simp only [bind, Except.bind, if_pos htaken, if_neg hne]
    rfl
  · simp only [bind, Except.bind, if_neg htaken, if_pos (hempty.mpr htaken)]
    rfl

/-- The layout of a component is always found. -/
theorem exists_layout {component : Option String} (ht : t.Built) (hf : t.component component = .ok f) :
    ∃ l, t.layout f = .ok l := by
  obtain ⟨statement, body, hdescribes⟩ := exists_describes hf
  have hresolves := ht.resolves_of_component hf
  obtain ⟨v, hv⟩ := hresolves body (mem_walk_trans hdescribes.statement_mem hdescribes.body_mem)
  obtain ⟨w, hw⟩ := hresolves statement hdescribes.statement_mem
  rw [layout, hdescribes.body_eq, hdescribes.statement_eq, resolve_of_resolveVisit hv,
    resolve_of_resolveVisit hw]
  simp only [bind, Except.bind]
  split
  · split <;> exact ⟨_, rfl⟩
  · exact ⟨_, rfl⟩

end Tree

end Source

namespace Hook

variable {d : Draft} {r : Reader} {t : Tree} {f : Source.Function} {component : Option String}
  {ps : Option Node} {ss : List Node}

/-- Everything that adds a hook comes after the check of its names. -/
theorem exists_edits_eq (ht : t.Built) (hf : t.component component = .ok f) (h : Hook) :
    ∃ rest : Except Failure (List Edit), edits t f h = t.checkNames f h.declares >>= fun _ => rest := by
  obtain ⟨l, hl⟩ := Tree.exists_layout ht hf
  rw [edits, hl]
  exact ⟨_, rfl⟩

theorem add_on_of_error {h : Hook} {e : Failure} (ht : (d.tree.on r).1 = .ok t)
    (hf : t.component component = .ok f) (hes : edits t f h = .error e) :
    ((add d h component).on r).1 = .error e := by
  obtain ⟨r₁, hread⟩ : ∃ r₁, d.tree.on r = (.ok t, r₁) := ⟨_, Prod.ext ht rfl⟩
  rw [add, Reading.on_bind, hread]
  simp only [Reading.on_bind, Reading.on_liftM, hf, hes]

/-- A hook is refused if the scope of its component has one of its names: as a parameter, as a variable that
`const` or `let` declares, as a function or as a class. If it is added, none of its names is one of these; but
its names are distinct and all new only if no two of them are the same and neither a `var` nor an abstract
class has one of them. -/
theorem add_refuses_declared (hr : r.Exact) (ht : (d.tree.on r).1 = .ok t) (hf : t.component component = .ok f)
    (hscope : t.Scope f ps ss) (h : Hook) :
    ((∃ n ∈ h.declares, n ∈ t.patternNames ps ∨ ∃ s ∈ ss, isOverlooked s = false ∧ t.Declares s n) →
      ((add d h component).on r).1 =
        .error (Tree.takenFailure f h.declares (t.patternNames ps ++ ss.flatMap t.statementBindings))) ∧
    ∀ o, ((add d h component).on r).1 = .ok o →
      (∀ n ∈ h.declares, n ∉ t.patternNames ps ∧ ∀ s ∈ ss, isOverlooked s = false → ¬ t.Declares s n) ∧
      ((h.declares.Nodup ∧ ∀ n ∈ h.declares, n ∉ t.patternNames ps ∧ ∀ s ∈ ss, ¬ t.Declares s n) ↔
        h.declares.Nodup ∧ ∀ n ∈ h.declares, ∀ s ∈ ss, isOverlooked s = true → ¬ t.Declares s n) := by
  have hbuilt := Draft.tree_built hr ht
  obtain ⟨rest, hedits⟩ := exists_edits_eq hbuilt hf h
  rw [Tree.checkNames_eq (hscope.namesIn_eq hbuilt)] at hedits
  -- a name that is looked at is refused
  have hrefuse (n : String) (hn : n ∈ h.declares)
      (hscope : n ∈ t.patternNames ps ∨ ∃ s ∈ ss, isOverlooked s = false ∧ t.Declares s n) :
      ((add d h component).on r).1 =
        .error (Tree.takenFailure f h.declares (t.patternNames ps ++ ss.flatMap t.statementBindings)) := by
    have hmem : n ∈ t.patternNames ps ++ ss.flatMap t.statementBindings := by
      obtain hparameter | ⟨s, hs, hlooked, hdeclares⟩ := hscope
      · exact List.mem_append_left _ hparameter
      · exact List.mem_append_right _ (List.mem_flatMap.mpr ⟨s, hs, hdeclares.mem_statementBindings hlooked⟩)
    rw [if_pos ⟨n, hn, hmem⟩] at hedits
    exact add_on_of_error ht hf hedits
  refine ⟨fun ⟨n, hn, hscope⟩ => hrefuse n hn hscope, fun o ho => ?_⟩
  have hfree (n : String) (hn : n ∈ h.declares) :
      n ∉ t.patternNames ps ∧ ∀ s ∈ ss, isOverlooked s = false → ¬ t.Declares s n := by
    refine ⟨fun hparameter => ?_, fun s hs hlooked hdeclares => ?_⟩
    · cases (hrefuse n hn (.inl hparameter)).symm.trans ho
    · cases (hrefuse n hn (.inr ⟨s, hs, hlooked, hdeclares⟩)).symm.trans ho
  refine ⟨hfree, and_congr_right fun _ => ⟨fun hnew n hn s hs _ => (hnew n hn).2 s hs, fun hnew n hn => ?_⟩⟩
  refine ⟨(hfree n hn).1, fun s hs => ?_⟩
  cases hoverlooked : isOverlooked s with
  | false => exact (hfree n hn).2 s hs hoverlooked
  | true => exact hnew n hn s hs hoverlooked

/-- A state of which one name is that of a `var`. -/
def countState : Hook := .state "count" "setCount" "0" none

/-- The state is added although its name is declared. -/
theorem add_refuses_declared_var :
    let text := "import \x7b useState \x7d from 'react';\nfunction App() \x7b\n" ++
      "  var count = 0;\n  return 1;\n\x7d"
    let result := "import \x7b useState \x7d from 'react';\nfunction App() \x7b\n" ++
      "  const [count, setCount] = useState(0);\n  var count = 0;\n  return 1;\n\x7d"
    ∃ t f ps ss o, (Draft.tree ⟨"a.tsx", .tsx, text⟩ |>.on .plain).1 = .ok t ∧
      t.component (some "App") = .ok f ∧ t.Scope f ps ss ∧
      ((add ⟨"a.tsx", .tsx, text⟩ countState (some "App")).on .plain).1 = .ok o ∧ o.text = result ∧
      ¬ (countState.declares.Nodup ∧
        ∀ n ∈ countState.declares, n ∉ t.patternNames ps ∧ ∀ s ∈ ss, ¬ t.Declares s n) := by
  intro text result
  have hs : (Stage.find? ⟨"a.tsx", .tsx, text⟩ .plain (some "App")).any (fun s => decide (
      s.function.name = some "App" ∧
      (edits s.tree s.function countState).toOption =
        some [.insert 50 "\n  const [count, setCount] = useState(0);"] ∧
      s.tree.rootD.visits.all (fun v => (s.tree.functionOf? v).all fun f => f.name != some "App" ||
        (v.node.child? .body).any fun b => b.is .statementBlock && b.parts.any fun s' =>
          s'.is .variableDeclaration && (s.tree.declaratorNames s').contains "count") = true)) = true := by
    decide +kernel
  obtain ⟨t', ht'⟩ : ∃ t', t' = Tree.build 1 .tsx result.toList := ⟨_, rfl⟩
  have hresult : t'.hasErrors = false ∧ t'.imports.any (·.locals.contains "useState") = true := by
    rw [ht']
    decide +kernel
  obtain ⟨s, hs, hname, hedits, hvisits⟩ := Stage.exists_find? hs
  obtain ⟨o, hadd, htext⟩ := Stage.add_on_of_insertion (text.toList.take 50) (text.toList.drop 50) result hs rfl
    (by decide +kernel) (by decide +kernel) (toOption_eq_some_iff.mp hedits) (by decide +kernel) ht' hresult.1
    hresult.2
  have hadd : ((add ⟨"a.tsx", .tsx, text⟩ countState (some "App")).on .plain).1 = .ok o := by rw [hadd]
  obtain ⟨hdraft, hreader, hfinds⟩ := Stage.finds_of_find? hs
  have htree := hfinds.tree
  rw [hdraft, hreader] at htree
  -- the body of the function declares the name by a `var`
  obtain ⟨v, hv, hf⟩ := List.mem_filterMap.mp (Tree.mem_functions_of_component hfinds.function)
  have hbody := List.all_eq_true.mp hvisits v hv
  rw [hf, Option.all_some, hname, bne_self_eq_false, Bool.false_or, Option.any_eq_true] at hbody
  obtain ⟨b, hb, hbody⟩ := hbody
  obtain ⟨hblock, hstatement⟩ := Bool.and_eq_true_iff.mp hbody
  obtain ⟨s', hs', hdeclares⟩ := List.any_eq_true.mp hstatement
  obtain ⟨hvar, hcount⟩ := Bool.and_eq_true_iff.mp hdeclares
  obtain ⟨declarator, hdeclarator, hcount⟩ := List.mem_flatMap.mp (List.contains_iff_mem.mp hcount)
  obtain ⟨hmem, hdeclarator⟩ := List.mem_filter.mp hdeclarator
  have hoverlooked : isOverlooked s' = true := by simp [isOverlooked, Node.isOneOf, hvar]
  have hdeclares : s.tree.Declares s' "count" :=
    .declarator (by simp [Node.isOneOf, hvar]) hmem hdeclarator hcount
  have hscope := Tree.Scope.block hv hf hb hblock
  obtain ⟨-, haccepted⟩ := add_refuses_declared Reader.exact_plain htree hfinds.function hscope countState
  refine ⟨s.tree, s.function, _, _, o, htree, hfinds.function, hscope, hadd, htext, fun hnew => ?_⟩
  obtain ⟨-, hnew⟩ := (haccepted o hadd).2.mp hnew
  exact hnew "count" (by decide) s' hs' hoverlooked hdeclares

end Hook

end SourceChange
