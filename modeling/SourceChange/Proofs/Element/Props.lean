import SourceChange.Proofs.Element.Target
import SourceChange.Proofs.NodeText
import SourceChange.Proofs.Syntax.Tokens

/-!
Adding and removing a prop.

A prop that is added stands behind the name of its tag and all attributes there are, and one blank before it.
Removing it cuts that out again, if the tag is read with one more attribute there. What is cut out reaches
back to the sibling before the attribute, whatever that is. Nothing else changes; but a sibling that is a line
comment takes in what followed the attribute on its line.
-/

namespace SourceChange

open Source Syntax Syntax.Node

namespace Element

/-- The operation that changes a prop. -/
def propChange (target name : String) (action : PropAction) (value : Option String) : Operation :=
  .element target (.prop name action value)

/-- What there is of a node at its place: its kind, its span and the spans of its constructs. -/
def shape (n : Node) : Kind × Span × List Span := (n.kind, n.span, n.named.map Node.span)

/-- An opening tag that has one more attribute than another one, with the given name and of the length of
the given text: the siblings before it are those that the other tag has there, up to its name or the last of
its attributes, and one blank separates it from them. -/
structure OneMore (opening : Node) (name rendered : String) (t' : Tree) (opening' a : Node) : Prop where
  placed : ∃ front p rest front' rest', opening.children = front ++ rest ∧
    opening'.children = front' ++ a :: rest' ∧ front'.map shape = front.map shape ∧
    front.getLast? = some p ∧ attributesEnd opening = .ok p.stop ∧ a.start = p.stop + 1
  kind : a.is .jsxAttribute = true
  name : attributeName t' a = name
  stop : a.stop = a.start + byteSize rendered.toList

section Siblings

variable {lo hi : Nat} {front rest : List Node} {a p n : Node}

/-- A member of a row that is not empty has a place of its own. -/
theorem span_ne_of_row (hrow : Row lo hi (front ++ a :: rest)) (ha : a.start < a.stop) :
    (∀ n ∈ front, n.span ≠ a.span) ∧ ∀ n ∈ rest, n.span ≠ a.span := by
  obtain ⟨-, hafter, hacross⟩ := List.pairwise_append.mp hrow.pairwise
  constructor
  · intro n hn hspan
    have hbefore := hacross n hn a List.mem_cons_self
    have hstop : n.stop = a.stop := congrArg Span.stop hspan
    omega
  · intro n hn hspan
    have hbehind := (List.pairwise_cons.mp hafter).1 n hn
    have hstart : n.start = a.start := congrArg Span.start hspan
    omega

theorem previousSibling?_eq_none (hother : ∀ n ∈ rest, n.span ≠ a.span) :
    previousSibling? a (p :: rest) = none := by
  induction rest generalizing p with
  | nil => rfl
  | cons n rest ih =>
    obtain ⟨hn, hrest⟩ := List.forall_mem_cons.mp hother
    rw [previousSibling?, if_neg (by simp [hn]), ih hrest]

theorem previousSibling?_append (hfront : ∀ n ∈ front, n.span ≠ a.span) (hrest : ∀ n ∈ rest, n.span ≠ a.span) :
    previousSibling? a (front ++ a :: rest) = front.getLast? := by
  induction front with
  | nil => exact previousSibling?_eq_none hrest
  | cons n front ih =>
    obtain ⟨-, hfront⟩ := List.forall_mem_cons.mp hfront
    cases front with
    | nil => simp [previousSibling?]
    | cons m front =>
      have hm := hfront m List.mem_cons_self
      rw [List.cons_append, List.cons_append, previousSibling?, if_neg (by simp [hm]), ← List.cons_append,
        ih hfront, List.getLast?_cons_cons]

/-- No member of a row ends behind the last one. -/
theorem stop_le_of_getLast? (hrow : Row lo hi (front ++ rest)) (hlast : front.getLast? = some p)
    (hn : n ∈ front) : n.stop ≤ p.stop := by
  obtain ⟨front, rfl⟩ := List.getLast?_eq_some_iff.mp hlast
  obtain ⟨hfront, -, -⟩ := List.pairwise_append.mp hrow.pairwise
  obtain hn | hn := List.mem_append.mp hn
  · have hbefore := (List.pairwise_append.mp hfront).2.2 n hn p List.mem_cons_self
    have hp := (hrow.of_mem (List.mem_append_left rest (List.mem_append_right front List.mem_cons_self))).2.2
    have := hp.start_le_stop
    omega
  · rw [List.mem_singleton.mp hn]

end Siblings

section Attributes

variable {t t' : Tree} {n m opening a : Node} {before behind behind' : List Char} {front rest : List Node}
  {target name : String} {value : Option String}

/-- The name of an attribute is the same where two texts agree up to its end. -/
theorem attributeName_eq_of_front (ht : t.Built) (hn : n ∈ t.rootD.walk) (hchars : t.chars = before ++ behind)
    (hchars' : t'.chars = before ++ behind') (hle : n.stop ≤ byteSize before) (hshape : shape m = shape n) :
    attributeName t' m = attributeName t n := by
  have hnamed : m.named.map Node.span = n.named.map Node.span := congrArg (·.2.2) hshape
  have hhead : (m.named.map Node.span).head? = (n.named.map Node.span).head? := congrArg List.head? hnamed
  rw [List.head?_map, List.head?_map] at hhead
  unfold attributeName
  cases hc : n.named.head? with
  | none =>
    rw [hc] at hhead
    rw [Option.map_eq_none_iff.mp hhead]
    rfl
  | some c =>
    rw [hc] at hhead
    obtain ⟨c', hc', hspan⟩ := Option.map_eq_some_iff.mp hhead
    have hmem : c ∈ n.walk := mem_walk_of_mem_named (List.mem_of_head? hc)
    have hinside := (ht.regular.inside hn hmem).2
    rw [hc', Option.map_some, Option.map_some,
      Tree.nodeText_eq_of_front ht (mem_walk_trans hn hmem) hchars hchars' (by omega) hspan]

theorem isNamed_of_is {c : Construct} (h : n.is c = true) : n.kind.isNamed = true := by
  rw [Node.is, beq_iff_eq] at h
  rw [h]
  rfl

/-- The first attribute with a name, among the children of its tag. -/
theorem findAttribute?_append (hchildren : opening.children = front ++ a :: rest)
    (hkind : a.is .jsxAttribute = true)
    (hfront : ∀ n ∈ front, n.is .jsxAttribute = true → attributeName t n ≠ attributeName t a) :
    findAttribute? t opening (attributeName t a) = some a := by
  have hnone : (front.filter (·.kind.isNamed)).find?
      (fun c => c.is .jsxAttribute && attributeName t c == attributeName t a) = none :=
    List.find?_eq_none.mpr fun n hn hfound => by
      obtain ⟨hfound, hname⟩ := Bool.and_eq_true_iff.mp hfound
      exact hfront n (List.mem_filter.mp hn).1 hfound (eq_of_beq hname)
  rw [findAttribute?, Node.named, hchildren, List.filter_append, List.find?_append, hnone, Option.none_or,
    List.filter_cons, if_pos (isNamed_of_is hkind), List.find?_cons_of_pos (by simp [hkind])]

/-- A name that no attribute has. -/
theorem ne_of_findAttribute?_eq_none (h : findAttribute? t opening name = none) (hn : n ∈ opening.children)
    (hkind : n.is .jsxAttribute = true) : attributeName t n ≠ name := by
  intro hname
  refine List.find?_eq_none.mp h n (List.mem_filter.mpr ⟨hn, isNamed_of_is hkind⟩) ?_
  simp [hkind, hname]

theorem previousSibling?_eq (ht : t.Built) (hopening : opening ∈ t.rootD.walk)
    (hchildren : opening.children = front ++ a :: rest) :
    previousSibling? a opening.children = front.getLast? := by
  have ha : a ∈ opening.children := by simp [hchildren]
  have hsolid := (ht.of_child hopening ha).2 a (mem_walk_trans hopening (child_mem_walk ha))
  have hrow := (ht.regular.nested.of_mem_walk hopening).2.2.row
  rw [hchildren] at hrow ⊢
  obtain ⟨hfront, hrest⟩ := span_ne_of_row hrow hsolid
  exact previousSibling?_append hfront hrest

/-- Removing an attribute cuts from the end of the sibling before it to its own end. -/
theorem propEdit_remove (ht : t.Built) (hopening : opening ∈ t.rootD.walk)
    (hfind : findAttribute? t opening name = some a) (hchildren : opening.children = front ++ a :: rest) :
    propEdit t opening target name value .remove =
      .ok (.delete ((front.getLast?.map Node.stop).getD a.start) a.stop) := by
  rw [propEdit, hfind]
  dsimp only
  rw [previousSibling?_eq ht hopening hchildren]

end Attributes

section Change

variable {d : Draft} {target name : String} {value : Option String} {t : Tree} {opening : Node} {r : Reader}
  {o : Outcome}

theorem changeProp_eq (d : Draft) (target name : String) (action : PropAction) (value : Option String) :
    changeProp d target name action value =
      editTag d target (fun t opening => propEdit t opening target name value action)
        (Text.capitalize action.name ++ " prop '" ++ name ++ "' on <" ++ target ++ ">") := rfl

/-- What is cut out of a text. -/
theorem edited_delete {front part rest : List Char} (hchars : t.chars = front ++ (part ++ rest)) :
    t.edited [.delete (byteSize front) (byteSize (front ++ part))] = .ok (String.ofList (front ++ rest)) := by
  rw [Tree.edited, Tree.text, hchars]
  exact Edit.applyAll_replace front part rest ""

/-- A prop that is added is written behind all that there is, and one blank before it. -/
theorem exists_addition (h : ((changeProp d target name .add value).on .plain).1 = .ok o) :
    ∃ t opening front rest, TargetTag d target t opening ∧ findAttribute? t opening name = none ∧
      attributesEnd opening = .ok (byteSize front) ∧ t.chars = front ++ rest ∧
      o.text.toList = front ++ (' ' :: (renderProp name value).toList ++ rest) := by
  rw [changeProp_eq] at h
  obtain ⟨t, opening, e, htag, he, htext⟩ := exists_edit h
  rw [propEdit] at he
  split at he
  case h_1 => cases he
  case h_2 hnone =>
    obtain ⟨offset, hoffset, he⟩ := bind_eq_ok_iff.mp he
    cases he
    obtain ⟨front, ⟨rest, hchars⟩, rfl⟩ :=
      (within_attributesEnd htag.reads.built.regular htag.mem_walk hoffset "").start
    refine ⟨t, opening, front, rest, htag, hnone, hoffset, hchars.symm, ?_⟩
    rw [Tree.edited, Tree.text, ← hchars, Edit.applyAll_insert] at htext
    rw [← Except.ok.inj htext, String.toList_ofList, String.toList_append, List.append_assoc]
    rfl

/-- The attribute that was added is found again, and cut out with the blank before it. -/
theorem edited_remove_added {t' : Tree} {opening' a : Node} {front rest : List Char}
    (htag : TargetTag d target t opening) (hnone : findAttribute? t opening name = none)
    (hend : attributesEnd opening = .ok (byteSize front)) (hchars : t.chars = front ++ rest)
    (htag' : TargetTag (d.advance o.text) target t' opening')
    (hchars' : t'.chars = front ++ (' ' :: (renderProp name value).toList ++ rest))
    (hmore : OneMore opening name (renderProp name value) t' opening' a) (removed : Option String) :
    (propEdit t' opening' target name removed .remove >>= fun e => t'.edited [e]) =
      .ok (String.ofList (front ++ rest)) := by
  obtain ⟨siblings, p, others, siblings', others', hchildren, hchildren', hshapes, hlast, hoffset, hstart⟩ :=
    hmore.placed
  have hp : p.stop = byteSize front := Except.ok.inj (hoffset.symm.trans hend)
  have hrow := (htag.reads.built.regular.nested.of_mem_walk htag.mem_walk).2.2.row
  rw [hchildren] at hrow
  -- the siblings before the attribute end where the rest of the old text starts, and so are what they were
  have hother : ∀ n ∈ siblings', n.is .jsxAttribute = true → attributeName t' n ≠ attributeName t' a := by
    intro m hm hkind
    obtain ⟨n, hn, hshape⟩ := List.mem_map.mp (hshapes ▸ List.mem_map_of_mem (f := shape) hm)
    have hmem : n ∈ opening.children := hchildren ▸ List.mem_append_left others hn
    have hle := stop_le_of_getLast? hrow hlast hn
    have hsame := attributeName_eq_of_front htag.reads.built (mem_walk_trans htag.mem_walk (child_mem_walk hmem))
      hchars hchars' (by omega) hshape.symm
    rw [hsame, hmore.name]
    refine ne_of_findAttribute?_eq_none hnone hmem ?_
    have hsame : n.kind = m.kind := congrArg (·.1) hshape
    rwa [Node.is, hsame]
  have hfind := findAttribute?_append hchildren' hmore.kind hother
  rw [hmore.name] at hfind
  have hcut : ((siblings'.getLast?.map Node.stop).getD a.start) = byteSize front := by
    have hstops := congrArg (fun shapes => shapes.getLast?.map (·.2.1.stop)) hshapes
    simp only [List.getLast?_map, Option.map_map, hlast] at hstops
    rw [← hp]
    exact congrArg (·.getD a.start) hstops
  have hstop : a.stop = byteSize (front ++ ' ' :: (renderProp name value).toList) := by
    have hblank : (' ').utf8Size = 1 := rfl
    rw [hmore.stop, hstart, hp, byteSize_append, byteSize, hblank]
    omega
  rw [propEdit_remove htag'.reads.built htag'.mem_walk hfind hchildren', hcut, hstop]
  exact edited_delete hchars'

/-- A prop that was added can be removed again, and then the text is what it was, if the tag of the target is
read with one more attribute where the prop was written. -/
theorem remove_added (hr : r.Exact) (hdiscerns : r.Discerns ((propChange target name .add value).apply d).run)
    (h : (((propChange target name .add value).apply d).on r).1 = .ok o) :
    ∃ t opening, TargetTag d target t opening ∧ ∀ t' opening' a,
      TargetTag (d.advance o.text) target t' opening' →
      OneMore opening name (renderProp name value) t' opening' a →
      ∀ r' removed, r'.Exact →
        r'.Discerns ((propChange target name .remove removed).apply (d.advance o.text)).run →
        ∃ o', (((propChange target name .remove removed).apply (d.advance o.text)).on r').1 = .ok o' ∧
          o'.text = d.text := by
  obtain ⟨hlanguage, h⟩ := changeElement_of_apply hr hdiscerns h
  obtain ⟨t, opening, front, rest, htag, hnone, hend, hchars, htext⟩ := exists_addition h
  refine ⟨t, opening, htag, fun t' opening' a htag' hmore r' removed hr' hdiscerns' => ?_⟩
  have hchars' : t'.chars = front ++ (' ' :: (renderProp name value).toList ++ rest) :=
    htag'.toList_text.symm.trans htext
  have hedited := edited_remove_added htag hnone hend hchars htag' hchars' hmore removed
  have hrun := (apply_element_on hr' hdiscerns' hlanguage).trans (editTag_on htag' _ _)
  rw [hedited] at hrun
  refine ⟨_, hrun, ?_⟩
  rw [← String.toList_inj, htag.toList_text, hchars]
  exact String.toList_ofList

/-- A prop that is added between a spread and a comment, and removed again. -/
theorem remove_added_spread :
    let d : Draft := ⟨"a.tsx", .tsx, "let x = <Box<T> // c\n  a=\"1\" \x7b...s\x7d\n  /* d */>y</Box>;\n"⟩
    ∃ o o' t opening t' opening' a,
      (((propChange "Box" "b" .add (some "'2'")).apply d).on .plain).1 = .ok o ∧
      o.text = "let x = <Box<T> // c\n  a=\"1\" \x7b...s\x7d b=\"2\"\n  /* d */>y</Box>;\n" ∧
      TargetTag d "Box" t opening ∧ TargetTag (d.advance o.text) "Box" t' opening' ∧
      OneMore opening "b" "b=\"2\"" t' opening' a ∧
      (((propChange "Box" "b" .remove none).apply (d.advance o.text)).on .plain).1 = .ok o' ∧
      o'.text = d.text := by
  intro d
  let middle := "let x = <Box<T> // c\n  a=\"1\" \x7b...s\x7d b=\"2\"\n  /* d */>y</Box>;\n"
  have hrun : (((propChange "Box" "b" .add (some "'2'")).apply d).on .plain).1.toOption.any
      (fun o => o.text == middle) = true := by
    decide +kernel
  have hview : (findTag? d "Box").any (fun x => (findTag? (d.advance middle) "Box").any fun y =>
      (y.2.children[6]?).any fun a =>
        (y.2.children.take 6).map shape == (x.2.children.take 6).map shape &&
        ((x.2.children.take 6).getLast?).any (fun p => (attributesEnd x.2).toOption == some p.stop &&
          a.start == p.stop + 1) &&
        a.is .jsxAttribute && attributeName y.1 a == "b" && a.stop == a.start + 5) = true := by
    decide +kernel
  obtain ⟨o, ho, htext⟩ := (Option.any_eq_true ..).mp hrun
  have ho := toOption_eq_some_iff.mp ho
  have htext : o.text = middle := eq_of_beq htext
  rw [← htext] at hview
  obtain ⟨⟨t, opening⟩, htag, hview⟩ := (Option.any_eq_true ..).mp hview
  obtain ⟨⟨t', opening'⟩, htag', hview⟩ := (Option.any_eq_true ..).mp hview
  obtain ⟨a, ha, hview⟩ := (Option.any_eq_true ..).mp hview
  have htag := targetTag_of_findTag? htag
  have htag' := targetTag_of_findTag? htag'
  simp only [Bool.and_eq_true, beq_iff_eq] at hview
  obtain ⟨⟨⟨⟨hshapes, hlast⟩, hkind⟩, hname⟩, hstop⟩ := hview
  obtain ⟨p, hp, hlast⟩ := (Option.any_eq_true ..).mp hlast
  simp only [Bool.and_eq_true, beq_iff_eq] at hlast
  obtain ⟨hlt, hget⟩ := List.getElem?_eq_some_iff.mp ha
  have hsplit : opening'.children = opening'.children.take 6 ++ a :: opening'.children.drop 7 := by
    rw [← hget, ← List.drop_eq_getElem_cons hlt, List.take_append_drop]
  have hmore : OneMore opening "b" (renderProp "b" (some "'2'")) t' opening' a := {
    placed := ⟨opening.children.take 6, p, opening.children.drop 6, _, _, (List.take_append_drop 6 _).symm,
      hsplit, hshapes, hp, toOption_eq_some_iff.mp hlast.1, hlast.2⟩
    kind := hkind
    name := hname
    stop := hstop }
  obtain ⟨t₀, opening₀, htag₀, hremove⟩ := remove_added Reader.exact_plain (Reader.discerns_of_uncached rfl _) ho
  obtain ⟨rfl, rfl⟩ := htag.eq htag₀
  obtain ⟨o', ho', hsame⟩ :=
    hremove t' opening' a htag' hmore .plain none Reader.exact_plain (Reader.discerns_of_uncached rfl _)
  exact ⟨o, o', t, opening, t', opening', a, ho, htext, htag, htag', hmore, ho', hsame⟩

/-- What removing an attribute cuts out of a text: the attribute, and the gap between it and the sibling
before it. -/
structure Cut (d : Draft) (target name : String) (siblings : List Node) (t : Tree) (a : Node)
    (front gap rest : List Char) : Prop where
  found : ∃ opening others, TargetTag d target t opening ∧ findAttribute? t opening name = some a ∧
    opening.children = siblings ++ a :: others
  text : d.text.toList = front ++ (gap ++ ((t.nodeText a).toList ++ rest))
  starts : byteSize front = (siblings.getLast?.map Node.stop).getD a.start
  reaches : byteSize (front ++ gap) = a.start

/-- The text of the sibling before an attribute stands at the end of what is left before the cut. -/
theorem Cut.exists_sibling {siblings : List Node} {a p : Node} {front gap rest : List Char}
    (h : Cut d target name siblings t a front gap rest) (hlast : siblings.getLast? = some p) :
    ∃ ahead, front = ahead ++ (t.nodeText p).toList ∧ byteSize ahead = p.start := by
  obtain ⟨opening, others, htag, -, hchildren⟩ := h.found
  have hmem : p ∈ opening.children :=
    hchildren ▸ List.mem_append_left _ (List.mem_of_getLast? hlast)
  obtain ⟨ahead, behind, hchars, hstart, hstop⟩ :=
    htag.reads.built.exists_nodeText (mem_walk_trans htag.mem_walk (child_mem_walk hmem))
  refine ⟨ahead, ?_, hstart⟩
  have hsize : byteSize front = byteSize (ahead ++ (t.nodeText p).toList) := by
    rw [hstop, h.starts, hlast]
    rfl
  have htext := h.text
  rw [htag.toList_text, hchars, ← List.append_assoc] at htext
  rw [← takeBytes_append front, ← htext, hsize, takeBytes_append]

/-- An attribute with what is around it. -/
theorem exists_cut {a : Node} (htag : TargetTag d target t opening)
    (hfind : findAttribute? t opening name = some a) :
    ∃ siblings others front gap rest, opening.children = siblings ++ a :: others ∧
      Cut d target name siblings t a front gap rest := by
  have ht := htag.reads.built
  have hmem : a ∈ opening.children := (List.mem_filter.mp (List.mem_of_find?_eq_some hfind)).1
  have ha := mem_walk_trans htag.mem_walk (child_mem_walk hmem)
  obtain ⟨siblings, others, hchildren⟩ := List.append_of_mem hmem
  obtain ⟨before, rest, hchars, hstart, -⟩ := ht.exists_nodeText ha
  -- the sibling before the attribute ends before the attribute starts
  have hcut : Boundary t.chars ((siblings.getLast?.map Node.stop).getD a.start) ∧
      (siblings.getLast?.map Node.stop).getD a.start ≤ a.start := by
    cases hlast : siblings.getLast? with
    | none => exact ⟨ht.regular.start a ha, Nat.le_refl _⟩
    | some p =>
      have hp : p ∈ siblings := List.mem_of_getLast? hlast
      have hrow := (ht.regular.nested.of_mem_walk htag.mem_walk).2.2.row
      rw [hchildren] at hrow
      have hbefore := (List.pairwise_append.mp hrow.pairwise).2.2 p hp a List.mem_cons_self
      have hwalk : p ∈ opening.walk := child_mem_walk (hchildren ▸ List.mem_append_left _ hp)
      exact ⟨ht.regular.stop p (mem_walk_trans htag.mem_walk hwalk), hbefore⟩
  obtain ⟨hboundary, hle⟩ := hcut
  rw [hchars] at hboundary
  obtain ⟨front, gap, rfl, hfront⟩ := exists_of_boundary_front hboundary (hstart ▸ hle)
  refine ⟨siblings, others, front, gap, rest, hchildren, ⟨opening, others, htag, hfind, hchildren⟩, ?_, hfront,
    hstart⟩
  rw [htag.toList_text, hchars, List.append_assoc]

/-- Removing a prop cuts its attribute out of the text, with all that stands between it and the sibling
before it, and nothing else. So that sibling stands at once in front of what followed the attribute, and if
it is a line comment, the rest of that line becomes a part of it. -/
theorem remove_cuts (hr : r.Exact)
    (hdiscerns : r.Discerns ((propChange target name .remove value).apply d).run)
    (h : (((propChange target name .remove value).apply d).on r).1 = .ok o) :
    ∃ siblings t a front gap rest, Cut d target name siblings t a front gap rest ∧
      o.text.toList = front ++ rest ∧
      ∀ p, siblings.getLast? = some p → ∃ ahead, byteSize ahead = p.start ∧
        o.text.toList = ahead ++ ((t.nodeText p).toList ++ rest) ∧ Borders (t.nodeText p).toList rest := by
  have h := (changeElement_of_apply hr hdiscerns h).2
  obtain ⟨t, opening, e, htag, he, htext⟩ := exists_edit h
  cases hfind : findAttribute? t opening name with
  | none =>
    rw [propEdit, hfind] at he
    cases he
  | some a =>
    obtain ⟨siblings, others, front, gap, rest, hchildren, hcut⟩ := exists_cut htag hfind
    have ha := mem_walk_trans htag.mem_walk (findAttribute?_mem_walk hfind)
    have hchars : t.chars = front ++ ((gap ++ (t.nodeText a).toList) ++ rest) := by
      rw [← htag.toList_text, hcut.text, List.append_assoc]
    have hstop : byteSize (front ++ (gap ++ (t.nodeText a).toList)) = a.stop := by
      obtain ⟨before, _, -, hstart, hsize⟩ := htag.reads.built.exists_nodeText ha
      rw [← hsize, ← List.append_assoc, byteSize_append, hcut.reaches, byteSize_append, hstart]
    rw [propEdit_remove htag.reads.built htag.mem_walk hfind hchildren, ← hcut.starts, ← hstop] at he
    obtain rfl := Except.ok.inj he
    have hresult : o.text.toList = front ++ rest := by
      rw [← Except.ok.inj ((edited_delete hchars).symm.trans htext), String.toList_ofList]
    refine ⟨siblings, t, a, front, gap, rest, hcut, hresult, fun p hlast => ?_⟩
    obtain ⟨ahead, rfl, hahead⟩ := hcut.exists_sibling hlast
    exact ⟨ahead, hahead, by rw [hresult, List.append_assoc], borders _ _⟩

/-- A prop that is removed behind a line comment leaves the end of its tag in the comment. -/
theorem remove_cuts_line_comment :
    let d : Draft := ⟨"a.tsx", .tsx, "const x = <div // c\n a>t</div>;\n"⟩
    ∃ o siblings t a p front gap rest, (((propChange "div" "a" .remove none).apply d).on .plain).1 = .ok o ∧
      Cut d "div" "a" siblings t a front gap rest ∧ siblings.getLast? = some p ∧ p.is .comment = true ∧
      t.nodeText p = "// c" ∧ rest = ">t</div>;\n".toList ∧
      comment? ((t.nodeText p).toList ++ rest) = some ("// c>t</div>;".toList, ['\n']) ∧
      o.text = "const x = <div // c>t</div>;\n" ∧ Language.tsx.Accepts d.text ∧ ¬ Language.tsx.Accepts o.text := by
  intro d
  have hrun : (((propChange "div" "a" .remove none).apply d).on .plain).1.toOption.any
      (fun o => o.text == "const x = <div // c>t</div>;\n") = true := by
    decide +kernel
  have hview : (findTag? d "div").any (fun x => (findAttribute? x.1 x.2 "a").any fun a =>
      (previousSibling? a x.2.children).any fun p =>
        p.is .comment && p.start == 15 && x.1.nodeText p == "// c") = true := by
    decide +kernel
  obtain ⟨o, ho, htext⟩ := (Option.any_eq_true ..).mp hrun
  have ho := toOption_eq_some_iff.mp ho
  have htext : o.text = "const x = <div // c>t</div>;\n" := eq_of_beq htext
  obtain ⟨⟨t, opening⟩, htag, hview⟩ := (Option.any_eq_true ..).mp hview
  obtain ⟨a, ha, hview⟩ := (Option.any_eq_true ..).mp hview
  obtain ⟨p, hp, hview⟩ := (Option.any_eq_true ..).mp hview
  simp only [Bool.and_eq_true, beq_iff_eq] at hview
  obtain ⟨⟨hcomment, hstart⟩, hnode⟩ := hview
  obtain ⟨siblings, t', a', front, gap, rest, hcut, -, hborders⟩ :=
    remove_cuts Reader.exact_plain (Reader.discerns_of_uncached rfl _) ho
  obtain ⟨opening', others, htag', ha', hchildren⟩ := hcut.found
  obtain ⟨rfl, rfl⟩ := (targetTag_of_findTag? htag).eq htag'
  obtain rfl := Option.some.inj (ha.symm.trans ha')
  rw [previousSibling?_eq htag'.reads.built htag'.mem_walk hchildren] at hp
  obtain ⟨ahead, hahead, hresult, hborder⟩ := hborders p hp
  have hrest : rest = ">t</div>;\n".toList := by
    have hdrop := dropBytes_append ahead ((t.nodeText p).toList ++ rest)
    rw [← hresult, hahead, hstart, htext, hnode] at hdrop
    exact (List.append_right_inj "// c".toList).mp hdrop.symm
  have hline := hborder.line [' ', 'c'] (by rw [hnode]; rfl) (by simp [endsLine])
  have haccepts : Language.tsx.Accepts d.text :=
    (Tree.build_hasErrors_eq_false t.version .tsx d.text).mp (htag'.reads.eq_build ▸ htag'.reads.clean)
  have hrejects : ¬ Language.tsx.Accepts o.text := by
    rw [htext, ← Tree.build_hasErrors_eq_false 1]
    decide +kernel
  exact ⟨o, siblings, t, a, p, front, gap, rest, ho, hcut, hp, hcomment, hnode, hrest,
    by rw [hline, hnode, hrest]; decide, htext, haccepts, hrejects⟩

end Change

end Element

end SourceChange
