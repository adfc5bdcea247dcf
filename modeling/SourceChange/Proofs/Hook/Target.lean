import SourceChange.Proofs.Hook.Names
import SourceChange.Proofs.MainComponent

/-!
Which component hooks without the name of one are added to.

The main component is chosen anew for each hook. It stays the same as long as no new code is chosen before it:
not the function of a reducer, which goes in front of the component, and not what a hook has in its texts.
-/

namespace SourceChange.Hook

open Source Syntax Syntax.Node

section Place

variable {t : Tree} {f : Source.Function} {hook : Hook} {component : Option String} {es : List Edit} {e : Edit}
  {block body : Node} {statement indent : String} {k : Nat}

/-- A hook goes behind the brace of the block. -/
theorem lt_hookEdit_start (ht : t.Built) (hmem : block ∈ t.rootD.walk)
    (hblock : block.is .statementBlock = true) (statement indent : String) (k : Nat) :
    block.start < (hookEdit t block block.parts statement k indent).start := by
  have hpart {s : Node × Nat} (hs : s ∈ rankedHooks t block.parts) :
      block.start < s.1.start ∧ s.1.start < s.1.stop :=
    have hs := mem_of_mem_rankedHooks hs
    ⟨ht.block_start_lt hmem hblock hs, ht.part_start_lt_stop hmem hs⟩
  unfold hookEdit
  dsimp only
  split
  case h_1 last r hlast =>
    obtain ⟨hafter, hsolid⟩ := hpart (List.mem_filter.mp (List.mem_of_getLast? hlast)).1
    exact Nat.lt_trans hafter hsolid
  case h_2 =>
    split
    case h_1 next r hnext => exact (hpart (List.mem_of_find?_eq_some hnext)).1
    case h_2 => exact Nat.lt_succ_self _

/-- In a component with a block, the function of a reducer is all that is put in front of its start. -/
theorem edit_start_le_iff (ht : t.Built) (hf : t.component component = .ok f) (hes : edits t f hook = .ok es)
    (hbody : t.resolve f.body = .ok body) (hblock : body.is .statementBlock = true) (he : e ∈ es) :
    e.start ≤ f.start ↔ ∃ name dispatch function initial actions unit,
      hook = .reducer name dispatch function initial actions ∧
        reducerEdit t f function actions unit = .ok e := by
  obtain ⟨hstatement, hle⟩ := ht.start_between (Tree.mem_functions_of_component hf)
  obtain ⟨hmem, hspan, -⟩ := Tree.resolve_eq_ok hbody
  have hstart : f.start ≤ body.start := by
    rw [Node.start, hspan]
    exact hle
  constructor
  · intro hplace
    obtain ⟨layout, -, hes⟩ := bind_eq_ok_iff.mp hes
    obtain ⟨-, -, hes⟩ := bind_eq_ok_iff.mp hes
    obtain ⟨e', he', hes⟩ := bind_eq_ok_iff.mp hes
    -- the statement of the hook goes behind the brace
    have hbehind : ¬ e'.start ≤ f.start := by
      rw [statementEdit_of_block hbody hblock, if_neg (Nat.not_le.mpr (rank_lt_statementRank _))] at he'
      cases he'
      have := lt_hookEdit_start ht hmem hblock (hook.render layout.indent layout.unit) layout.indent
        (rank (some hook.callee))
      omega
    cases hook with
    | reducer name dispatch function initial actions =>
      obtain ⟨reducer, hreducer, hes⟩ := bind_eq_ok_iff.mp hes
      cases hes
      obtain rfl | rfl : e = e' ∨ e = reducer := by simpa using he
      · exact absurd hplace hbehind
      · exact ⟨name, dispatch, function, initial, actions, _, rfl, hreducer⟩
    | _ =>
      cases hes
      obtain rfl := List.mem_singleton.mp he
      exact absurd hplace hbehind
  · rintro ⟨name, dispatch, function, initial, actions, unit, -, hreducer⟩
    have hwithin := reducerEdit_within ht.regular hreducer
    exact Nat.le_trans hwithin.start_le_stop (Nat.le_trans hwithin.le_hi hstatement)

end Place

/-- A draft with the tree that a reader makes of it. -/
structure Snapshot where
  draft : Draft
  reader : Reader
  tree : Tree
  reads : (draft.tree.on reader).1 = .ok tree

namespace Snapshot

variable {s s' : Snapshot} {hook : Hook} {f : Source.Function} {fs : List Source.Function}
  {added : List (Edit × List Candidate)}

/-- Adding a hook to the main component leads from one snapshot to the next, where the functions of the new code
are listed where they were put. -/
structure Adds (s : Snapshot) (hook : Hook) (added : List (Edit × List Candidate)) (s' : Snapshot) : Prop where
  outcome : ∃ o, (add s.draft hook none).on s.reader = (.ok o, s'.reader) ∧
    s'.draft = s.draft.advance o.text
  rereads : ∀ f es, s.tree.component none = .ok f → edits s.tree f hook = .ok es →
    Rereads s.tree es added s'.tree

/-- Hooks are added one after the other, each to the main component of its time, and none brings code that
overtakes it. -/
inductive Runs (s : Snapshot) : List Source.Function → Snapshot → Prop where
  | nil : Runs s [] s
  | snoc {fs : List Source.Function} {s₁ s₂ : Snapshot} {f : Source.Function} {hook : Hook}
    {added : List (Edit × List Candidate)} (hrun : Runs s fs s₁) (hf : s₁.tree.component none = .ok f)
    (hadds : s₁.Adds hook added s₂) (hkeeps : ∀ x ∈ added, ∀ c ∈ x.2, ¬ Overtakes s₁.tree f x.1 c) :
    Runs s (fs ++ [f]) s₂

theorem Adds.exact (h : s.Adds hook added s') (hexact : s.reader.Exact) : s'.reader.Exact := by
  obtain ⟨o, ho, -⟩ := h.outcome
  exact exact_of_add_on ho hexact

/-- What is added was computed. -/
theorem Adds.exists_edits (h : s.Adds hook added s') (hf : s.tree.component none = .ok f) :
    ∃ es, edits s.tree f hook = .ok es := by
  obtain ⟨o, ho, -⟩ := h.outcome
  cases hes : edits s.tree f hook with
  | ok es => exact ⟨es, rfl⟩
  | error e =>
    have hfails := add_on_of_error s.reads hf hes
    rw [ho] at hfails
    cases hfails

theorem component_none_eq_ok_iff {t : Tree} : t.component none = .ok f ↔ t.mainComponent? = some f := by
  rw [Tree.component, Tree.component?]
  cases t.mainComponent? <;> simp

/-- One hook leaves the main component what it is, unless its code overtakes it. -/
theorem Adds.exists_component (h : s.Adds hook added s') (hexact : s.reader.Exact)
    (hf : s.tree.component none = .ok f) :
    ∃ g, s'.tree.component none = .ok g ∧
      (g.candidate = f.candidate ∧ (∀ x ∈ added, ∀ c ∈ x.2, ¬ Overtakes s.tree f x.1 c) ∨
        ∃ x ∈ added, g.candidate ∈ x.2 ∧ Overtakes s.tree f x.1 g.candidate) := by
  obtain ⟨es, hes⟩ := h.exists_edits hf
  obtain ⟨g, hg, hkeeps⟩ := (h.rereads f es hf hes).exists_mainComponent (Draft.tree_built hexact s.reads)
    (component_none_eq_ok_iff.mp hf)
  exact ⟨g, component_none_eq_ok_iff.mpr hg, hkeeps⟩

/-- Any number of hooks are added to functions that are like the first main component. -/
theorem Runs.exists_component (h : Runs s fs s') (hexact : s.reader.Exact) (hf : s.tree.component none = .ok f) :
    s'.reader.Exact ∧ (∃ g, s'.tree.component none = .ok g ∧ g.candidate = f.candidate) ∧
      ∀ g ∈ fs, g.candidate = f.candidate := by
  induction h with
  | nil => exact ⟨hexact, ⟨f, hf, rfl⟩, fun g hg => by cases hg⟩
  | snoc _ htarget hadds hkeeps ih =>
    obtain ⟨hexact₁, ⟨f₁, hf₁, heq⟩, hfs⟩ := ih
    cases htarget.symm.trans hf₁
    obtain ⟨g, hg, ⟨hsame, -⟩ | ⟨x, hx, hc, hovertakes⟩⟩ := hadds.exists_component hexact₁ htarget
    · refine ⟨hadds.exact hexact₁, ⟨g, hg, hsame.trans heq⟩, ?_⟩
      exact List.forall_mem_append.mpr ⟨hfs, by simpa using heq⟩
    · exact absurd hovertakes (hkeeps x hx _ hc)

end Snapshot

/-- Hooks keep their component. Where an operation names none and succeeds, the main component of the new text is
again a function with the name of the old one and exported like it, unless new code overtakes the old one: then it
is a function of the new code that does. In a component with a block only the function of a reducer can do so by
its place. So hooks are added one after the other to functions of the same name, as long as none of them brings
code that overtakes the component. -/
theorem adds_keep_component {s : Snapshot} {f : Source.Function} (hexact : s.reader.Exact)
    (hf : s.tree.component none = .ok f) :
    (∀ hook added s', s.Adds hook added s' → ∃ es, edits s.tree f hook = .ok es ∧
      (∃ g, s'.tree.component none = .ok g ∧
        (g.candidate = f.candidate ∧ (∀ x ∈ added, ∀ c ∈ x.2, ¬ Overtakes s.tree f x.1 c) ∨
          ∃ x ∈ added, g.candidate ∈ x.2 ∧ Overtakes s.tree f x.1 g.candidate)) ∧
      ∀ body, s.tree.resolve f.body = .ok body → body.is .statementBlock = true →
        ∀ e ∈ es, e.start ≤ f.start ↔ ∃ name dispatch function initial actions unit,
          hook = .reducer name dispatch function initial actions ∧
            reducerEdit s.tree f function actions unit = .ok e) ∧
    ∀ fs s', Snapshot.Runs s fs s' →
      (∃ g, s'.tree.component none = .ok g ∧ g.candidate = f.candidate) ∧
        ∀ g ∈ fs, g.candidate = f.candidate := by
  have hbuilt := Draft.tree_built hexact s.reads
  refine ⟨fun hook added s' hadds => ?_, fun fs s' hruns => (hruns.exists_component hexact hf).2⟩
  obtain ⟨es, hes⟩ := hadds.exists_edits hf
  refine ⟨es, hes, hadds.exists_component hexact hf, fun body hbody hblock e he => ?_⟩
  exact edit_start_le_iff hbuilt hf hes hbody hblock he

/-- A hook that is added by two insertions leads from one stage to another. -/
theorem Stage.exists_outcome_of_insertions {d : Draft} {s s' : Stage} {hook : Hook} (front mid rest : List Char)
    {o o' : Nat} {insertion insertion' : String} (text : String) (hs : Stage.find? d .plain none = some s)
    (hd : d.text = String.ofList (front ++ mid ++ rest)) (hmid : mid ≠ []) (ho : byteSize front = o)
    (ho' : byteSize (front ++ mid) = o')
    (hes : edits s.tree s.function hook = .ok [.insert o' insertion', .insert o insertion])
    (htext : String.ofList (front ++ insertion.toList ++ (mid ++ insertion'.toList ++ rest)) = text)
    (hs' : Stage.find? (d.advance text) ⟨[text, d.text], none⟩ none = some s')
    (himported : s'.tree.imports.any (·.locals.contains hook.callee) = true) :
    ∃ o, (add s.draft hook none).on s.reader = (.ok o, s'.reader) ∧ o.text = text ∧
      s'.draft = s.draft.advance o.text := by
  obtain ⟨hdraft', hreader', hfinds'⟩ := Stage.finds_of_find? hs'
  obtain ⟨hbuild', hclean'⟩ := Draft.tree_eq_of_uncached (hreader' ▸ rfl) hfinds'.tree
  rw [hdraft'] at hbuild'
  obtain ⟨o, hadd, rfl⟩ :=
    Stage.add_on_of_insertions front mid rest text hs rfl hd hmid ho ho' hes htext hbuild' hclean' himported
  obtain ⟨rfl, hreader, -⟩ := Stage.finds_of_find? hs
  exact ⟨o, by rw [hreader, hreader', hadd]; rfl, rfl, hdraft'⟩

/-- A reducer whose name is in lower case leaves the main component what it is. -/
theorem adds_keep_component_app :
    let text := "import \x7b useReducer \x7d from 'react';\nfunction App() \x7b\n  return 1;\n\x7d\n"
    let result := "import \x7b useReducer \x7d from 'react';\nfunction reduce(state, action) \x7b\n" ++
      "  switch (action.type) \x7b\n    default:\n      return state;\n  \x7d\n\x7d\n\n" ++
      "function App() \x7b\n  const [s, d] = useReducer(reduce, 0);\n  return 1;\n\x7d\n"
    ∃ (s s' : Snapshot) (f g : Source.Function) (added : List (Edit × List Candidate)),
      s.draft.text = text ∧ s'.draft.text = result ∧ s.reader.Exact ∧ s.tree.component none = .ok f ∧
      s.Adds (.reducer "s" "d" "reduce" "0" []) added s' ∧
      added.map (·.2) = [[⟨some "reduce", false⟩, ⟨none, false⟩], []] ∧ Snapshot.Runs s [f] s' ∧
      s'.tree.component none = .ok g ∧ g.candidate = f.candidate ∧ g.name = some "App" := by
  intro text result
  let hook := Hook.reducer "s" "d" "reduce" "0" []
  let reducer : Edit := .insert 36 ("function reduce(state, action) \x7b\n  switch (action.type) \x7b\n" ++
    "    default:\n      return state;\n  \x7d\n\x7d\n\n")
  let statement : Edit := .insert 52 "\n  const [s, d] = useReducer(reduce, 0);"
  -- the keyword of a function is listed, too, as a function without a name
  let added : List (Edit × List Candidate) :=
    [(reducer, [⟨some "reduce", false⟩, ⟨none, false⟩]), (statement, [])]
  let candidates : List Candidate :=
    [⟨some "reduce", false⟩, ⟨none, false⟩, ⟨some "App", false⟩, ⟨none, false⟩]
  have h₀ : (Stage.find? ⟨"a.tsx", .tsx, text⟩ .plain none).any (fun s => decide (
      s.function.name = some "App" ∧ (edits s.tree s.function hook).toOption = some [statement, reducer] ∧
      spliced s.tree.functions added = candidates ∧ s.tree.defaultExportName? = none ∧
      ∀ x ∈ added, ∀ c ∈ x.2, ¬ Overtakes s.tree s.function x.1 c)) = true := by
    decide +kernel
  have h₁ : (Stage.find? ⟨"a.tsx", .tsx, result⟩ ⟨[result, text], none⟩ none).any (fun s => decide (
      s.tree.functions.map (·.candidate) = candidates ∧ s.tree.defaultExportName? = none ∧
      s.tree.imports.any (·.locals.contains "useReducer") = true)) = true := by
    decide +kernel
  obtain ⟨s₀, hs₀, hname, hedits, hspliced, hnone₀, hkeeps⟩ := Stage.exists_find? h₀
  obtain ⟨s₁, hs₁, hfunctions, hnone₁, himported⟩ := Stage.exists_find? h₁
  have hedits := toOption_eq_some_iff.mp hedits
  obtain ⟨o, hadd, htext, hdraft⟩ := Stage.exists_outcome_of_insertions (text.toList.take 36)
    ((text.toList.drop 36).take 16) (text.toList.drop 52) result hs₀ (by decide +kernel) (by decide +kernel)
    (by decide +kernel) (by decide +kernel) hedits (by decide +kernel) hs₁ himported
  obtain ⟨hdraft₀, hreader₀, hfinds₀⟩ := Stage.finds_of_find? hs₀
  obtain ⟨hdraft₁, -, hfinds₁⟩ := Stage.finds_of_find? hs₁
  have hexact : s₀.reader.Exact := hreader₀ ▸ Reader.exact_plain
  let s : Snapshot := ⟨s₀.draft, s₀.reader, s₀.tree, hfinds₀.tree⟩
  let s' : Snapshot := ⟨s₁.draft, s₁.reader, s₁.tree, hfinds₁.tree⟩
  have hadds : s.Adds hook added s' := by
    refine ⟨⟨o, hadd, hdraft⟩, fun f es hf hes => ?_⟩
    cases hfinds₀.function.symm.trans hf
    cases hedits.symm.trans hes
    exact ⟨.swap .., by decide, hfunctions.trans hspliced.symm, hnone₁.trans hnone₀.symm⟩
  have hruns : Snapshot.Runs s [s₀.function] s' := .snoc .nil hfinds₀.function hadds hkeeps
  obtain ⟨-, hall⟩ := adds_keep_component (s := s) hexact hfinds₀.function
  obtain ⟨⟨g, hg, hsame⟩, -⟩ := hall _ _ hruns
  refine ⟨s, s', s₀.function, g, added, congrArg Draft.text hdraft₀, congrArg Draft.text hdraft₁, hexact,
    hfinds₀.function, hadds, rfl, hruns, hg, hsame, ?_⟩
  rw [← hname]
  exact congrArg Candidate.name hsame

/-- A reducer whose name is in upper case becomes the main component. -/
theorem reducer_overtakes_component :
    let text := "import \x7b useReducer \x7d from 'react';\nfunction App() \x7b\n  return 1;\n\x7d\n"
    let result := "import \x7b useReducer \x7d from 'react';\nfunction Reduce(state, action) \x7b\n" ++
      "  switch (action.type) \x7b\n    default:\n      return state;\n  \x7d\n\x7d\n\n" ++
      "function App() \x7b\n  const [s, d] = useReducer(Reduce, 0);\n  return 1;\n\x7d\n"
    ∃ (s s' : Snapshot) (f g : Source.Function) (o : Outcome),
      s.draft = ⟨"a.tsx", .tsx, text⟩ ∧ s.reader.Exact ∧ s.tree.component none = .ok f ∧ f.name = some "App" ∧
      (add s.draft (.reducer "s" "d" "Reduce" "0" []) none).on s.reader = (.ok o, s'.reader) ∧
      o.text = result ∧ s'.draft = s.draft.advance o.text ∧
      s'.tree.component none = .ok g ∧ g.name = some "Reduce" := by
  intro text result
  let hook := Hook.reducer "s" "d" "Reduce" "0" []
  let reducer : Edit := .insert 36 ("function Reduce(state, action) \x7b\n  switch (action.type) \x7b\n" ++
    "    default:\n      return state;\n  \x7d\n\x7d\n\n")
  let statement : Edit := .insert 52 "\n  const [s, d] = useReducer(Reduce, 0);"
  have h₀ : (Stage.find? ⟨"a.tsx", .tsx, text⟩ .plain none).any (fun s => decide (
      s.function.name = some "App" ∧
      (edits s.tree s.function hook).toOption = some [statement, reducer])) = true := by
    decide +kernel
  have h₁ : (Stage.find? ⟨"a.tsx", .tsx, result⟩ ⟨[result, text], none⟩ none).any (fun s => decide (
      s.function.name = some "Reduce" ∧
      s.tree.imports.any (·.locals.contains "useReducer") = true)) = true := by
    decide +kernel
  obtain ⟨s₀, hs₀, hname₀, hedits⟩ := Stage.exists_find? h₀
  obtain ⟨s₁, hs₁, hname₁, himported⟩ := Stage.exists_find? h₁
  obtain ⟨o, hadd, htext, hdraft⟩ := Stage.exists_outcome_of_insertions (text.toList.take 36)
    ((text.toList.drop 36).take 16) (text.toList.drop 52) result hs₀ (by decide +kernel) (by decide +kernel)
    (by decide +kernel) (by decide +kernel) (toOption_eq_some_iff.mp hedits) (by decide +kernel) hs₁ himported
  obtain ⟨hdraft₀, hreader₀, hfinds₀⟩ := Stage.finds_of_find? hs₀
  obtain ⟨-, -, hfinds₁⟩ := Stage.finds_of_find? hs₁
  have hexact : s₀.reader.Exact := hreader₀ ▸ Reader.exact_plain
  exact ⟨⟨s₀.draft, s₀.reader, s₀.tree, hfinds₀.tree⟩, ⟨s₁.draft, s₁.reader, s₁.tree, hfinds₁.tree⟩,
    s₀.function, s₁.function, o, hdraft₀, hexact, hfinds₀.function, hname₀, hadd, htext, hdraft,
    hfinds₁.function, hname₁⟩

end SourceChange.Hook
