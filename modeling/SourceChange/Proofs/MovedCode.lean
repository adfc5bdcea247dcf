import SourceChange.Proofs.Edits.Stages
import SourceChange.Proofs.Extraction.Outcome
import SourceChange.Proofs.NodeText
import SourceChange.Proofs.Stepwise.Operations
import SourceChange.Proofs.Text.Lines

/-!
Code that operations move.

To wrap an element, to extract it and to turn the expression of an arrow function into a block each take
code out of a tree and write it elsewhere, with its lines at the indentation of the new place. The code
is moved as plain text; so a literal in it that goes over several lines is written as it was only where
its lines are indented as they will be.
-/

namespace SourceChange

open Source Syntax Syntax.Node

namespace Operation

/-- Code that an operation takes out of a tree, and the indentation that its lines get. -/
inductive Moves (t : Tree) : Operation → Node → String → Prop where
  | wrapped {target wrapper : String} {props : List (String × String)} {spec : Option ImportSpec}
    {element : Element} {n : Node} (helement : t.element target = .ok element)
    (hn : t.resolve element.handle = .ok n) :
    Moves t (.element target (.wrap wrapper props spec)) n (t.indentAt n.start ++ Text.indentUnit t.text)
  | extracted {e : Extraction} {v : Visit} (hv : Extraction.locate t e.jsx = .ok v) :
    Moves t (.extract e) v.node "    "
  | returned {hook : Hook} {component : Option String} {f : Source.Function} {n : Node} {layout : Layout}
    (hf : t.component component = .ok f) (hn : t.resolve f.body = .ok n)
    (hexpression : n.is .statementBlock = false) (hlayout : t.layout f = .ok layout) :
    Moves t (.hook hook component) n layout.indent

/-- Whether an operation moves code: a hook does so if the body of its component is an expression. -/
def movesCode (t : Tree) : Operation → Bool
  | .element _ (.wrap ..) => true
  | .extract _ => true
  | .hook _ component =>
    match t.component component >>= fun f => t.resolve f.body with
    | .ok body => !body.is .statementBlock
    | .error _ => false
  | _ => false

/-- Imports that an operation requests are added to a text. -/
structure GivesImports (d : Draft) (op : Operation) (es : List Edit) (text : String) : Prop where
  planned : es = [] ∨ ∃ t spec, d.Reads t ∧ op.Requests spec ∧ Import.plan t spec = .ok es
  applied : Edit.applyAll d.text es = .ok text

/-- Where moved code is written: into a file of its own, or into the text, which then may get imports.
These leave it as it is unless they are put into the middle of it. -/
inductive Writes (d : Draft) (op : Operation) (moved : List Char) (o : Outcome) : Prop where
  | created {path : String} {u v : List Char} (h : o.created = [(path, String.ofList (u ++ (moved ++ v)))])
  | edited {u v : List Char} {es : List Edit}
    (himports : GivesImports (d.advance (String.ofList (u ++ (moved ++ v)))) op es o.text)
    (hkeeps : (∀ e ∈ es, e.stop ≤ byteSize u ∨ byteSize (u ++ moved) ≤ e.start) →
      ∃ u' v', o.text = String.ofList (u' ++ (moved ++ v')))

variable {t : Tree} {d : Draft} {op : Operation} {n : Node} {indent : String} {r : Reader} {o : Outcome}

theorem Moves.mem_walk (h : Moves t op n indent) : n ∈ t.rootD.walk := by
  cases h with
  | wrapped _ hn => exact (Tree.resolve_eq_ok hn).1
  | extracted hv => exact Extraction.locate_mem_walk hv
  | returned _ hn => exact (Tree.resolve_eq_ok hn).1

theorem Moves.of_wrap {target wrapper : String} {props : List (String × String)} {spec : Option ImportSpec}
    (h : Moves t (.element target (.wrap wrapper props spec)) n indent) :
    ∃ element, t.element target = .ok element ∧ t.resolve element.handle = .ok n ∧
      indent = t.indentAt n.start ++ Text.indentUnit t.text := by
  cases h with
  | wrapped helement hn => exact ⟨_, helement, hn, rfl⟩

theorem isIndent_of_mem_layout {f : Source.Function} {layout : Layout} (h : t.layout f = .ok layout) {c : Char}
    (hc : c ∈ layout.indent.toList) : Text.isIndent c = true := by
  have hboth {offset : Nat} (hc : c ∈ (t.indentAt offset ++ Text.indentUnit t.text).toList) :
      Text.isIndent c = true := by
    rw [String.toList_append] at hc
    exact (List.mem_append.mp hc).elim Tree.isIndent_of_mem_indentAt Text.isIndent_of_mem_indentUnit
  obtain ⟨body, -, h⟩ := bind_eq_ok_iff.mp h
  split at h
  · split at h
    · cases h
      exact Tree.isIndent_of_mem_indentAt hc
    · cases h
      exact hboth hc
  · obtain ⟨statement, -, h⟩ := bind_eq_ok_iff.mp h
    cases h
    exact hboth hc

theorem Moves.isIndent (h : Moves t op n indent) : ∀ c ∈ indent.toList, Text.isIndent c = true := by
  intro c hc
  cases h with
  | wrapped =>
    rw [String.toList_append] at hc
    exact (List.mem_append.mp hc).elim Tree.isIndent_of_mem_indentAt Text.isIndent_of_mem_indentUnit
  | extracted =>
    exact List.all_eq_true.mp (rfl : "    ".toList.all Text.isIndent = true) c hc
  | returned _ _ _ hlayout => exact isIndent_of_mem_layout hlayout hc

/-- A literal in moved code is there again, at its place, if and only if its lines are already as they
would be written. -/
theorem Moves.keeps_iff (h : Moves t op n indent) (ht : t.Built) {l : Node} (hl : l ∈ n.walk)
    (hquoted : l.kind.isQuoted = true) :
    ∃ u v, (t.nodeText n).toList = u ++ ((t.nodeText l).toList ++ v) ∧ n.start + byteSize u = l.start ∧
      (Text.StandsIn (Text.reindent (t.nodeText n) indent).toList u (t.nodeText l).toList v ↔
        Text.Kept indent.toList (Text.commonIndent (t.nodeText n)) (t.nodeText l).toList) := by
  obtain ⟨u, v, hblock, hplace⟩ := ht.exists_part h.mem_walk hl
  have hpart := ht.delimited_of_isQuoted (mem_walk_trans h.mem_walk hl) hquoted
  exact ⟨u, v, hblock, hplace, Text.reindent_keeps_iff hblock hpart h.isIndent⟩

theorem GivesImports.applicable {es : List Edit} {text : String} (h : GivesImports d op es text) :
    Edit.Applicable d.text.toList es := by
  obtain rfl | ⟨t, spec, hreads, -, hes⟩ := h.planned
  · exact Edit.applicable_nil _
  · have hchars : t.chars = d.text.toList := by
      rw [hreads.eq_build]
      rfl
    exact hchars ▸ Import.plan_applicable hreads.built.regular hes

theorem GivesImports.keeps {u part v : List Char} {es : List Edit} {text : String}
    (h : GivesImports (d.advance (String.ofList (u ++ (part ++ v)))) op es text)
    (haway : ∀ e ∈ es, e.stop ≤ byteSize u ∨ byteSize (u ++ part) ≤ e.start) :
    ∃ u' v', text = String.ofList (u' ++ (part ++ v')) := by
  have happlicable := h.applicable
  have happlied := h.applied
  rw [Draft.advance, String.toList_ofList] at happlicable
  obtain ⟨u', v', hkept⟩ := happlicable.applyAll_keeps haway
  exact ⟨u', v', Except.ok.inj (happlied.symm.trans hkept)⟩

theorem Writes.of_givesImports {u moved v : List Char} {es : List Edit}
    (h : GivesImports (d.advance (String.ofList (u ++ (moved ++ v)))) op es o.text) : Writes d op moved o :=
  .edited h h.keeps

/-- What is merged into the imports of a draft. -/
theorem exists_givesImports {spec : ImportSpec} (hreads : d.Reads t) (hrequest : op.Requests spec) {text : String}
    (h : Import.mergeInto d t spec = .ok text) : ∃ es, GivesImports d op es text := by
  obtain ⟨es, hes, h⟩ := bind_eq_ok_iff.mp h
  split at h
  case isTrue =>
    cases h
    exact ⟨[], .inl rfl, Edit.applyAll_nil _⟩
  case isFalse =>
    rw [Tree.edited, hreads.text_eq] at h
    exact ⟨es, .inr ⟨t, spec, hreads, hrequest, hes⟩, h⟩

theorem exists_givesImports_of_merge {spec : ImportSpec} (hr : r.cache = none) (hrequest : op.Requests spec)
    {text : String} (h : ((Import.merge d spec).on r).1 = .ok text) : ∃ es, GivesImports d op es text := by
  obtain ⟨t, ht, h⟩ := Reading.exists_of_bind_on_eq_ok h
  exact exists_givesImports (Draft.reads_of_uncached hr ht) hrequest h

theorem exists_givesImports_of_ensureImport {hook : Hook} (component : Option String) (hr : r.cache = none)
    {text : String} (h : ((Hook.ensureImport d hook.callee).on r).1 = .ok text) :
    ∃ es, GivesImports d (.hook hook component) es text := by
  obtain ⟨t, ht, h⟩ := Reading.exists_of_bind_on_eq_ok h
  split at h
  · cases h
    exact ⟨[], .inl rfl, Edit.applyAll_nil _⟩
  · exact exists_givesImports (Draft.reads_of_uncached hr ht) (.hook hook component) h

/-- What an edit writes stands in the text that it leads to. -/
theorem exists_edited_text {es : List Edit} {e : Edit} (hes : Edit.Applicable t.chars es) (he : e ∈ es)
    {moved : List Char} (hmoved : moved <:+: e.replacement.toList) {text : String} (h : t.edited es = .ok text) :
    ∃ u v, text = String.ofList (u ++ (moved ++ v)) := by
  obtain ⟨u, v, huv⟩ := hes.applyAll_writes he
  obtain ⟨a, b, hab⟩ := hmoved
  refine ⟨u ++ a, b ++ v, ?_⟩
  rw [Except.ok.inj (h.symm.trans huv), ← hab]
  simp only [List.append_assoc]

theorem reindent_infix_wrapEdit (n : Node) (wrapper : String) (props : List (String × String)) :
    (Text.reindent (t.nodeText n) (t.indentAt n.start ++ Text.indentUnit t.text)).toList <:+:
      (Element.wrapEdit t n wrapper props).replacement.toList := by
  simp only [Element.wrapEdit, String.toList_append]
  iterate 5 refine List.infix_append_of_infix_left ?_
  exact (List.suffix_append _ _).isInfix

theorem reindent_infix_blockEdit (body : Node) (outer statement indent : String) :
    (Text.reindent (t.nodeText body) indent).toList <:+:
      (Hook.blockEdit t body outer statement indent).replacement.toList := by
  simp only [Hook.blockEdit, String.toList_append]
  iterate 3 refine List.infix_append_of_infix_left ?_
  exact (List.suffix_append _ _).isInfix

theorem infix_join {sep s : String} {ss : List String} (h : s ∈ ss) :
    s.toList <:+: (Text.join sep ss).toList := by
  rw [Text.toList_join]
  induction ss with
  | nil => cases h
  | cons x rest ih =>
    cases rest with
    | nil =>
      obtain rfl := List.mem_singleton.mp h
      exact List.infix_refl _
    | cons y rest =>
      rw [List.map_cons, List.map_cons, Text.joinWith_cons_cons]
      obtain rfl | h := List.mem_cons.mp h
      · exact (List.prefix_append _ _).isInfix
      · exact List.infix_append_of_infix_right (List.infix_append_of_infix_right (ih h))

theorem reindent_infix_render (component jsx : String) (props : List String) (types : List (String × String))
    (imports : List String) (typed : Bool) :
    (Text.reindent jsx "    ").toList <:+:
      (Extraction.render component jsx props types imports typed).toList := by
  have hline : (Text.reindent jsx "    ").toList <:+: ("    " ++ Text.reindent jsx "    ").toList := by
    rw [String.toList_append]
    exact (List.suffix_append _ _).isInfix
  rw [Extraction.render, String.toList_append]
  refine List.infix_append_of_infix_left (hline.trans (infix_join ?_))
  simp

section Stages

variable {n : Node} (hr : r.cache = none) (ht : (d.tree.on r).1 = .ok t)
include hr ht

theorem exists_wrap_writes {target wrapper : String} {props : List (String × String)} {spec : Option ImportSpec}
    (h : ((Element.wrap d target wrapper props spec).on r).1 = .ok o) :
    ∃ n indent, Moves t (.element target (.wrap wrapper props spec)) n indent ∧
      Writes d (.element target (.wrap wrapper props spec)) (Text.reindent (t.nodeText n) indent).toList o := by
  obtain ⟨_, hread, h⟩ := Reading.exists_of_bind_on_eq_ok h
  obtain rfl := Except.ok.inj (ht.symm.trans hread)
  obtain ⟨element, helement, h⟩ := Reading.exists_of_liftM_on_eq_ok h
  obtain ⟨n, hn, h⟩ := Reading.exists_of_liftM_on_eq_ok h
  obtain ⟨edited, hedited, h⟩ := Reading.exists_of_liftM_on_eq_ok h
  have hregular := (Draft.reads_of_uncached hr ht).built.regular
  obtain ⟨u, v, rfl⟩ := exists_edited_text (hregular.within_replace (Tree.resolve_eq_ok hn).1 _).applicable
    List.mem_cons_self (reindent_infix_wrapEdit n wrapper props) hedited
  refine ⟨n, _, .wrapped helement hn, ?_⟩
  cases spec with
  | none =>
    cases h
    exact .of_givesImports ⟨.inl rfl, Edit.applyAll_nil _⟩
  | some spec =>
    obtain ⟨text, htext, h⟩ := Reading.exists_of_bind_on_eq_ok h
    obtain ⟨es, himports⟩ := exists_givesImports_of_merge (Draft.tree_cache_of_uncached hr)
      (.wrapper target wrapper props spec) htext
    cases h
    exact .of_givesImports himports

omit hr in
theorem exists_extract_writes {e : Extraction} (h : ((Extraction.extract d e).on r).1 = .ok o) :
    ∃ n indent, Moves t (.extract e) n indent ∧
      Writes d (.extract e) (Text.reindent (t.nodeText n) indent).toList o := by
  obtain ⟨_, v, face, edited, hextracts⟩ := Extraction.exists_extracts h
  obtain rfl := Except.ok.inj (ht.symm.trans hextracts.tree)
  refine ⟨v.node, _, .extracted hextracts.markup, ?_⟩
  obtain ⟨a, b, hab⟩ : (Text.reindent (t.nodeText v.node) "    ").toList <:+:
      (Extraction.contentOf d e (t.nodeText v.node) face).toList := reindent_infix_render ..
  have hcreated : o.created = [(Extraction.fileOf d e,
      String.ofList (a ++ ((Text.reindent (t.nodeText v.node) "    ").toList ++ b)))] := by
    rw [hextracts.created, ← List.append_assoc, hab, String.ofList_toList]
  exact .created hcreated

theorem exists_add_writes {hook : Hook} {component : Option String}
    (h : ((Hook.add d hook component).on r).1 = .ok o) (hmoves : movesCode t (.hook hook component) = true) :
    ∃ n indent, Moves t (.hook hook component) n indent ∧
      Writes d (.hook hook component) (Text.reindent (t.nodeText n) indent).toList o := by
  obtain ⟨_, hread, h⟩ := Reading.exists_of_bind_on_eq_ok h
  obtain rfl := Except.ok.inj (ht.symm.trans hread)
  obtain ⟨f, hf, h⟩ := Reading.exists_of_liftM_on_eq_ok h
  obtain ⟨es, hes, h⟩ := Reading.exists_of_liftM_on_eq_ok h
  obtain ⟨edited, hedited, h⟩ := Reading.exists_of_liftM_on_eq_ok h
  obtain ⟨text, htext, h⟩ := Reading.exists_of_bind_on_eq_ok h
  have happlicable := Hook.edits_applicable (Draft.reads_of_uncached hr ht).built.regular hf hes
  obtain ⟨layout, hlayout, hes⟩ := bind_eq_ok_iff.mp hes
  obtain ⟨-, -, hes⟩ := bind_eq_ok_iff.mp hes
  obtain ⟨e, he, hes⟩ := bind_eq_ok_iff.mp hes
  have hmem : e ∈ es := by
    split at hes
    · obtain ⟨reducer, -, hes⟩ := bind_eq_ok_iff.mp hes
      cases hes
      exact List.mem_cons_self
    · cases hes
      exact List.mem_cons_self
  obtain ⟨body, hbody, he⟩ := bind_eq_ok_iff.mp he
  have hexpression : body.is .statementBlock = false := by
    simpa [movesCode, hf, hbody, bind, Except.bind] using hmoves
  rw [hexpression] at he
  obtain ⟨outer, -, he⟩ := bind_eq_ok_iff.mp he
  cases he
  obtain ⟨u, v, rfl⟩ := exists_edited_text happlicable hmem (reindent_infix_blockEdit ..) hedited
  obtain ⟨es, himports⟩ := exists_givesImports_of_ensureImport component
    (Draft.tree_cache_of_uncached hr) htext
  rw [Reading.on_pure] at h
  cases h
  exact ⟨body, layout.indent, .returned hf hbody hexpression hlayout, .of_givesImports himports⟩

theorem exists_writes (h : ((op.apply d).on r).1 = .ok o) (hmoves : movesCode t op = true) :
    ∃ n indent, Moves t op n indent ∧ Writes d op (Text.reindent (t.nodeText n) indent).toList o := by
  unfold apply at h
  split at h
  · cases h
  cases op with
  | hook hook component => exact exists_add_writes hr ht h hmoves
  | extract e => exact exists_extract_writes ht h
  | element target change =>
    cases change with
    | wrap wrapper props spec => exact exists_wrap_writes hr ht h
    | _ => cases hmoves
  | _ => cases hmoves

end Stages

/-- An operation that moves code writes it with its lines at another indentation. A literal in the code
is there again as it was if and only if its lines end with line feeds and without blanks before them,
and have the new indentation already, below the first one, unless they are empty. -/
theorem moved_literals (hr : r.Exact) (hdiscerns : r.Discerns (op.apply d).run)
    (h : ((op.apply d).on r).1 = .ok o)
    (ht : (d.tree.on .plain).1 = .ok t) (hmoves : movesCode t op = true) :
    ∃ n indent, Moves t op n indent ∧ Writes d op (Text.reindent (t.nodeText n) indent).toList o ∧
      ∀ l ∈ n.walk, l.kind.isQuoted = true → ∃ u v,
        (t.nodeText n).toList = u ++ ((t.nodeText l).toList ++ v) ∧ n.start + byteSize u = l.start ∧
        (Text.StandsIn (Text.reindent (t.nodeText n) indent).toList u (t.nodeText l).toList v ↔
          Text.Kept indent.toList (Text.commonIndent (t.nodeText n)) (t.nodeText l).toList) := by
  rw [apply_on_eq hr hdiscerns] at h
  have hbuilt := (Draft.reads_of_uncached rfl ht).built
  obtain ⟨n, indent, hcode, hwrites⟩ := exists_writes rfl ht h hmoves
  exact ⟨n, indent, hcode, hwrites, fun l hl hquoted => hcode.keeps_iff hbuilt hl hquoted⟩

/-- The second line of a template is moved along with the element around it. -/
theorem moved_literals_template :
    let d : Draft := ⟨"a.tsx", .tsx, "function App() \x7b\n  return <div>\x7b`a\n  b`\x7d</div>;\n\x7d\n"⟩
    let op : Operation := .element "div" (.wrap "Box" [] none)
    ∃ o t n indent l u v, ((op.apply d).on .plain).1 = .ok o ∧ (d.tree.on .plain).1 = .ok t ∧
      Moves t op n indent ∧ Writes d op (Text.reindent (t.nodeText n) indent).toList o ∧ l ∈ n.walk ∧
      l.kind.isQuoted = true ∧ t.nodeText l = "`a\n  b`" ∧
      (t.nodeText n).toList = u ++ ((t.nodeText l).toList ++ v) ∧
      ¬ Text.StandsIn (Text.reindent (t.nodeText n) indent).toList u (t.nodeText l).toList v := by
  intro d op
  have hrun : ((op.apply d).on .plain).1.toOption.isSome = true := by decide +kernel
  have hview : (d.tree.on .plain).1.toOption.any (fun t => (t.element "div").toOption.any fun e =>
      (t.resolve e.handle).toOption.any fun n =>
        Text.commonIndent (t.nodeText n) == 2 && (t.indentAt n.start ++ Text.indentUnit t.text) == "    " &&
          n.walk.any fun l => l.kind.isQuoted && t.nodeText l == "`a\n  b`") = true := by
    decide +kernel
  obtain ⟨o, ho⟩ := Option.isSome_iff_exists.mp hrun
  have ho := toOption_eq_some_iff.mp ho
  obtain ⟨t, ht, hview⟩ := (Option.any_eq_true ..).mp hview
  have ht := toOption_eq_some_iff.mp ht
  obtain ⟨n, indent, hcode, hwrites, hliterals⟩ :=
    moved_literals Reader.exact_plain (Reader.discerns_of_uncached rfl _) ho ht rfl
  obtain ⟨element, helement, hn, rfl⟩ := hcode.of_wrap
  simp only [helement, hn, Except.toOption, Option.any_some, Bool.and_eq_true, beq_iff_eq,
    List.any_eq_true] at hview
  obtain ⟨⟨hbase, hindent⟩, l, hl, hquoted, htext⟩ := hview
  obtain ⟨u, v, hblock, -, hkept⟩ := hliterals l hl hquoted
  refine ⟨o, t, n, _, l, u, v, ho, ht, hcode, hwrites, hl, hquoted, htext, hblock, ?_⟩
  rw [hkept, hbase, hindent, htext]
  intro h
  have hlines : "  b`".toList ∈ (Text.lines "`a\n  b`".toList).tail := by decide
  exact absurd (h.starts _ hlines (by decide)).1 (by decide)

end Operation

end SourceChange
