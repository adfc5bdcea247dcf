import SourceChange.Proofs.FileRun.Operations
import SourceChange.Proofs.Import.Satisfied
import SourceChange.Proofs.Process

/-!
Adding an import again.

Suppose that the text of a request that was carried out is read again, and that the tree then has the
imports of before and those that were new. The request finds nothing missing there, whatever shape the
imports took, so that any number of repetitions comes to the same as one.
-/

namespace SourceChange

open Source Syntax

namespace Import

variable {t t' : Tree} {spec : ImportSpec} {source : String} {xs : List ImportedName}

/-- The bindings that a request brings in, under the names that it gives them. -/
def newBindings (t : Tree) (spec : ImportSpec) : List ImportedName :=
  let present := fromSource spec.source t.imports
  (missingDefault? spec present).toList.map (⟨·, none, .default⟩) ++ (missingEntries spec present).map namedOf ++
    (missingNamespace? spec present).toList.map (⟨·, none, .namespace⟩)

/-- A tree has what another one imports from a source, in the same order, and further bindings at any
places. -/
structure Reports (t t' : Tree) (source : String) (xs : List ImportedName) : Prop where
  imported : ∃ i ∈ t'.imports, i.source = source
  order : (bindingsFrom source t.imports).Sublist (bindingsFrom source t'.imports)
  bindings : (bindingsFrom source t'.imports).Perm (bindingsFrom source t.imports ++ xs)

theorem Reports.mem_iff (h : Reports t t' source xs) {x : ImportedName} :
    x ∈ bindingsFrom source t'.imports ↔ x ∈ bindingsFrom source t.imports ∨ x ∈ xs := by
  rw [h.bindings.mem_iff, List.mem_append]

/-- Where nothing was imported from a source, all of its bindings are new. -/
theorem reports_of_nil (himported : ∃ i ∈ t'.imports, i.source = source) (hnone : bindingsFrom source t.imports = [])
    (hnew : xs = bindingsFrom source t'.imports) : Reports t t' source xs := by
  refine ⟨himported, ?_, ?_⟩ <;> rw [hnone]
  · exact List.nil_sublist _
  · rw [hnew, List.nil_append]

/-- The place of new bindings does not matter for those of a kind if all or none of them are new. -/
theorem Reports.filter_eq (h : Reports t t' source xs) {p : ImportedName → Bool}
    (hp : xs.filter p = [] ∨ (bindingsFrom source t.imports).filter p = [] ∧ (xs.filter p).length ≤ 1) :
    (bindingsFrom source t'.imports).filter p =
      (bindingsFrom source t.imports).filter p ++ xs.filter p := by
  have hperm := h.bindings.filter p
  rw [List.filter_append] at hperm
  obtain hnone | ⟨hnone, hlength⟩ := hp
  · rw [hnone, List.append_nil] at hperm ⊢
    exact ((h.order.filter p).eq_of_length hperm.length_eq.symm).symm
  · rw [hnone, List.nil_append] at hperm ⊢
    match hxs : xs.filter p, hlength with
    | [], _ => exact (hxs ▸ hperm).eq_nil
    | [x], _ => exact List.perm_singleton.mp (hxs ▸ hperm)

theorem filter_default_newBindings :
    (newBindings t spec).filter (·.form == .default) =
      (missingDefault? spec (fromSource spec.source t.imports)).toList.map (⟨·, none, .default⟩) := by
  simp [newBindings, List.filter_map, Function.comp_def, namedOf]

theorem Reports.checkDefault (h : Reports t t' spec.source (newBindings t spec))
    (hcheck : checkDefault spec (fromSource spec.source t.imports) = .ok ()) :
    Import.checkDefault spec (fromSource spec.source t'.imports) = .ok () := by
  rw [checkDefault_eq_ok_iff] at hcheck ⊢
  intro wanted hwanted x hx
  rw [presentDefault?_eq, ← List.head?_filter] at hx
  cases hpresent : presentDefault? (fromSource spec.source t.imports) with
  | some y =>
    -- the first default binding is the one of before
    have hnone : (newBindings t spec).filter (·.form == .default) = [] := by
      rw [filter_default_newBindings, missingDefault?, hpresent]
      rfl
    rw [h.filter_eq (.inl hnone), hnone, List.append_nil, List.head?_filter, ← presentDefault?_eq,
      hpresent] at hx
    cases hx
    exact hcheck wanted hwanted x hpresent
  | none =>
    have hnone : (bindingsFrom spec.source t.imports).filter (·.form == .default) = [] := by
      rw [← List.head?_eq_none_iff, List.head?_filter, ← presentDefault?_eq, hpresent]
    have hnew : (newBindings t spec).filter (·.form == .default) = [⟨wanted, none, .default⟩] := by
      rw [filter_default_newBindings, missingDefault?, hpresent, Option.mem_def.mp hwanted]
      rfl
    have hone : ((newBindings t spec).filter (·.form == .default)).length ≤ 1 := by
      rw [hnew]
      exact Nat.le_refl 1
    rw [h.filter_eq (.inr ⟨hnone, hone⟩), hnone, hnew] at hx
    cases hx
    rfl

theorem Reports.missing_eq_nil (h : Reports t t' spec.source (newBindings t spec)) :
    missing t' spec = [] := by
  refine missing_eq_nil_iff.mpr ⟨fun n hn => ?_, fun e he => ?_, fun n hn => ?_⟩
  · cases hpresent : presentDefault? (fromSource spec.source t.imports) with
    | some x =>
      rw [presentDefault?_eq] at hpresent
      have hform := List.find?_some hpresent
      exact ⟨x, h.mem_iff.mpr (.inl (List.mem_of_find?_eq_some hpresent)), beq_iff_eq.mp hform⟩
    | none =>
      have hmissing : missingDefault? spec (fromSource spec.source t.imports) = some n := by
        rw [missingDefault?, hpresent]
        exact hn
      refine ⟨⟨n, none, .default⟩, h.mem_iff.mpr (.inr ?_), rfl⟩
      simp [newBindings, hmissing]
  · refine h.mem_iff.mpr ?_
    cases hentry : hasEntry (fromSource spec.source t.imports) e with
    | true => exact .inl (hasEntry_iff.mp hentry)
    | false =>
      have hmissing : e ∈ missingEntries spec (fromSource spec.source t.imports) :=
        List.mem_filter.mpr ⟨he, by rw [hentry]; rfl⟩
      refine .inr (List.mem_append_left _ (List.mem_append_right _ ?_))
      exact List.mem_map_of_mem hmissing
  · cases hnamespace : hasNamespace (fromSource spec.source t.imports) n with
    | true =>
      obtain ⟨x, hx, hform⟩ := hasNamespace_iff.mp hnamespace
      exact ⟨x, h.mem_iff.mpr (.inl hx), hform⟩
    | false =>
      have hmissing : missingNamespace? spec (fromSource spec.source t.imports) = some n :=
        Option.mem_filter_iff.mpr ⟨hn, by rw [hnamespace]; rfl⟩
      refine ⟨⟨n, none, .namespace⟩, h.mem_iff.mpr (.inr ?_), rfl, rfl⟩
      simp [newBindings, hmissing]

/-- A request that was carried out is satisfied. -/
theorem Reports.plan_eq_nil {es : List Edit} (h : Reports t t' spec.source (newBindings t spec))
    (hplan : plan t spec = .ok es) : plan t' spec = .ok [] := by
  cases hempty : spec.isEmpty with
  | true =>
    obtain ⟨i, hi, hsource⟩ := h.imported
    have hany : t'.imports.any (·.source == spec.source) = true :=
      List.any_eq_true.mpr ⟨i, hi, beq_iff_eq.mpr hsource⟩
    rw [plan, if_pos hempty, if_pos hany]
  | false =>
    rw [plan_eq_of_not_isEmpty hempty] at hplan ⊢
    obtain ⟨⟨⟩, hcheck, -⟩ := bind_eq_ok_iff.mp hplan
    exact planBindings_of_missing_eq_nil (h.checkDefault hcheck) h.missing_eq_nil

section Reading

variable {d : Draft} {q : ImportRequest} {r s : Reader} {o : Outcome}

/-- What a request asks for does not depend on the reader. -/
theorem requested_on (q : ImportRequest) (r s : Reader) :
    ((requested q).on r).1 = ((requested q).on s).1 := by
  unfold requested
  split
  · rw [Reading.on_bind, Reading.on_bind]
    cases q.spec.validate <;> rfl
  · unfold readStatement
    have hspec := specOf_withVersion
      (Tree.build r.version .tsx (Text.stripped (q.content.getD "")).toList) s.version (q.content.getD "")
    rw [Tree.build_withVersion] at hspec
    simp only [Reading.on_bind, Reading.on_lenient, Reading.on_liftM, Reader.read, hspec]

/-- A request is merged into the tree that is read after it. -/
theorem add_on (hspec : ((requested q).on r).1 = .ok spec)
    (ht : (d.tree.on ((requested q).on r).2).1 = .ok t) :
    ((add d q).on r).1 = do
      let text ← mergeInto d t spec
      let source := "'" ++ spec.source ++ "'"
      if text == d.text then return .plain text (source ++ " already imported")
      else
        let names := missing t spec
        let what := if names.isEmpty then "module" else Text.join ", " names
        return .plain text ("Imported " ++ what ++ " from " ++ source) := by
  obtain ⟨r', hr⟩ : ∃ r', (requested q).on r = (.ok spec, r') := ⟨_, Prod.ext hspec rfl⟩
  rw [hr] at ht
  obtain ⟨s, hs⟩ : ∃ s, d.tree.on r' = (.ok t, s) := ⟨_, Prod.ext ht rfl⟩
  rw [add, Reading.on_bind, hr]
  dsimp only
  rw [Reading.on_bind, hs]
  dsimp only
  rw [Reading.on_bind, Reading.on_liftM]
  cases mergeInto d t spec with
  | error e => rfl
  | ok text =>
    simp only [bind, Except.bind]
    split <;> rfl

/-- A request that is carried out has a plan. -/
theorem exists_plan_of_add (hadd : ((add d q).on r).1 = .ok o)
    (hspec : ((requested q).on r).1 = .ok spec) (ht : (d.tree.on ((requested q).on r).2).1 = .ok t) :
    ∃ es, plan t spec = .ok es := by
  rw [add_on hspec ht] at hadd
  obtain ⟨text, htext, -⟩ := bind_eq_ok_iff.mp hadd
  obtain ⟨es, hes, -⟩ := bind_eq_ok_iff.mp htext
  exact ⟨es, hes⟩

theorem mergeInto_of_plan {es : List Edit} (hplan : plan t spec = .ok es) (hes : es ≠ []) :
    mergeInto d t spec = t.edited es := by
  have hes : es.isEmpty = false := List.isEmpty_eq_false_iff.mpr hes
  rw [mergeInto, hplan]
  simp only [bind, Except.bind, hes, Bool.false_eq_true, if_false]

theorem mergeInto_of_insertion (front rest : List Char) {insertion : String} (hchars : t.chars = front ++ rest)
    (hplan : plan t spec = .ok [.insert (byteSize front) insertion]) :
    mergeInto d t spec = .ok (String.ofList (front ++ insertion.toList ++ rest)) := by
  rw [mergeInto_of_plan hplan (List.cons_ne_nil _ _), Tree.edited, Tree.text, hchars, Edit.applyAll_insert]

theorem exists_add_of_mergeInto {text : String} (hspec : ((requested q).on r).1 = .ok spec)
    (ht : (d.tree.on ((requested q).on r).2).1 = .ok t) (htext : mergeInto d t spec = .ok text) :
    ∃ o s, (add d q).on r = (.ok o, s) ∧ o.text = text := by
  have hadd := add_on hspec ht
  rw [htext] at hadd
  simp only [bind, Except.bind] at hadd
  split at hadd <;> exact ⟨_, _, Prod.ext hadd rfl, rfl⟩

/-- A request that is satisfied changes nothing. -/
theorem add_on_of_plan_eq_nil (hspec : ((requested q).on r).1 = .ok spec)
    (ht : (d.tree.on ((requested q).on r).2).1 = .ok t) (hplan : plan t spec = .ok []) :
    ((add d q).on r).1 = .ok (.plain d.text ("'" ++ spec.source ++ "' already imported")) := by
  have htext : mergeInto d t spec = .ok d.text := by
    rw [mergeInto, hplan]
    rfl
  rw [add_on hspec ht, htext]
  simp only [bind, Except.bind, beq_self_eq_true, if_true, String.append_assoc]
  rfl

end Reading

end Import

namespace FileChange

open Import

variable {c : FileChange} {q : ImportRequest} {mode : RunMode} {reserved : List String} {text : String}
  {r r' : Reader} {o : Outcome} {spec : ImportSpec} {t : Tree}

/-- What is assumed of a text, whenever it is read again: its tree is free of syntax errors and has what a
request adds to another tree. -/
def Rereads (c : FileChange) (text : String) (r : Reader) (t : Tree) (spec : ImportSpec) : Prop :=
  ∀ s, r.Leads s → ∃ t', ((Draft.tree ⟨c.path, c.language, text⟩).on s).1 = .ok t' ∧
    Reports t t' spec.source (newBindings t spec)

theorem apply_addImport {d : Draft} (hlanguage : (d.language == .plaintext) = false) :
    (Operation.addImport q).apply d = Import.add d q := by
  rw [Operation.apply, hlanguage, Bool.and_false]
  rfl

theorem add_of_apply {d : Draft} (h : ((Operation.addImport q).apply d).on r = (.ok o, r')) :
    (d.language == .plaintext) = false ∧ (Import.add d q).on r = (.ok o, r') := by
  cases hlanguage : d.language == .plaintext with
  | false =>
    rw [apply_addImport hlanguage] at h
    exact ⟨rfl, h⟩
  | true =>
    have hstructural : (Operation.addImport q).isStructural = true := rfl
    rw [Operation.apply, hstructural, hlanguage, Bool.and_self, if_pos rfl, Reading.on_throw] at h
    cases h

variable (reserved) in
/-- An operation that creates no file, and is carried out, is a step. -/
theorem steps_cons_of_apply {op : Operation} (ops : List Operation) {n : Nat} {p : Progress}
    (hcalm : mode.interruption n = none)
    (happly : (op.apply ⟨c.path, c.language, p.text⟩).on r = (.ok o, r')) (hcreated : o.created = []) :
    ∃ p', p'.text = o.text ∧ p'.created = p.created ∧
      (c.steps mode reserved n (op :: ops) p).run r = (c.steps mode reserved (n + 1) ops p').run r' := by
  refine ⟨⟨o.text, p.created, p.warnings ++ o.warnings.map fun m => ⟨c.path, some n, m⟩,
    p.summaries ++ [o.summary]⟩, rfl, rfl, ?_⟩
  have hcheck : checkCreated reserved p.created [] = .ok () := rfl
  rw [steps_cons_run, step_on, hcalm, happly]
  simp only [hcreated, hcheck, List.append_nil]

theorem steps_replicate (hcalm : ∀ n, mode.interruption n = none)
    (hsame : ∀ s, r.Leads s → ∃ summary,
      (((Operation.addImport q).apply ⟨c.path, c.language, text⟩).on s).1 = .ok (.plain text summary))
    (k : Nat) {n : Nat} {p : Progress} (hp : p.text = text) {s : Reader} (hs : r.Leads s) :
    ∃ p' s', (c.steps mode reserved n (List.replicate k (.addImport q)) p).run s = ((p', none), s') ∧
      p'.text = text ∧ p'.created = p.created := by
  induction k generalizing n p s with
  | zero => exact ⟨p, s, rfl, hp, rfl⟩
  | succ k ih =>
    obtain ⟨summary, hsummary⟩ := hsame s hs
    have hleads := (Operation.apply_yields ⟨c.path, c.language, text⟩ (.addImport q)).leads s
    obtain ⟨s₁, happly⟩ : ∃ s₁, ((Operation.addImport q).apply ⟨c.path, c.language, p.text⟩).on s =
        (.ok (.plain text summary), s₁) := ⟨_, by rw [hp, ← hsummary]⟩
    rw [← hp, happly] at hleads
    obtain ⟨p₁, htext, hcreated, hstep⟩ := steps_cons_of_apply reserved
      (List.replicate k (.addImport q)) (hcalm n) happly rfl
    obtain ⟨p', s', hrun, htext', hcreated'⟩ := ih htext (hs.trans hleads)
    rw [List.replicate_succ, hstep]
    exact ⟨p', s', hrun, htext', hcreated'.trans hcreated⟩

/-- An import that was added is there: adding it again changes nothing, and adding it any number of times
comes to adding it once. -/
theorem addImport_idempotent
    (happly : ((Operation.addImport q).apply ⟨c.path, c.language, text⟩).on r = (.ok o, r'))
    (hspec : ((requested q).on r).1 = .ok spec)
    (ht : ((Draft.tree ⟨c.path, c.language, text⟩).on ((requested q).on r).2).1 = .ok t)
    (hreread : c.Rereads o.text r' t spec) :
    (∀ s, r'.Leads s → (((Operation.addImport q).apply ⟨c.path, c.language, o.text⟩).on s).1 =
        .ok (.plain o.text ("'" ++ spec.source ++ "' already imported"))) ∧
      ∀ (mode : RunMode) (reserved : List String) (n k : Nat) (p : Progress), 0 < k →
        (∀ i, mode.interruption i = none) → p.text = text →
        ∃ p' s, (c.steps mode reserved n (List.replicate k (.addImport q)) p).run r = ((p', none), s) ∧
          p'.text = o.text ∧ p'.created = p.created := by
  obtain ⟨hlanguage, hadd⟩ := add_of_apply happly
  obtain ⟨es, hplan⟩ := exists_plan_of_add (by rw [hadd]) hspec ht
  have hagain (s : Reader) (hs : r'.Leads s) :
      (((Operation.addImport q).apply ⟨c.path, c.language, o.text⟩).on s).1 =
        .ok (.plain o.text ("'" ++ spec.source ++ "' already imported")) := by
    have hspec' : ((requested q).on s).1 = .ok spec := (requested_on q s r).trans hspec
    obtain ⟨t', ht', hreports⟩ := hreread _ (hs.trans ((requested_yields q).leads s))
    rw [apply_addImport (d := ⟨c.path, c.language, o.text⟩) hlanguage]
    exact add_on_of_plan_eq_nil hspec' ht' (hreports.plan_eq_nil hplan)
  refine ⟨hagain, fun mode reserved n k p hk hcalm hp => ?_⟩
  obtain ⟨k, rfl⟩ := Nat.exists_eq_add_one_of_ne_zero (Nat.pos_iff_ne_zero.mp hk)
  have hcreated := (add_yields ⟨c.path, c.language, text⟩ q).result r o (by rw [hadd])
  obtain ⟨p₁, htext, hfiles, hstep⟩ := steps_cons_of_apply (c := c) reserved
    (List.replicate k (.addImport q)) (hcalm n) (hp ▸ happly) hcreated
  obtain ⟨p', s, hrun, htext', hfiles'⟩ := steps_replicate hcalm (fun s hs => ⟨_, hagain s hs⟩) k htext .refl
  rw [List.replicate_succ, hstep]
  exact ⟨p', s, hrun, htext', hfiles'.trans hfiles⟩

section Uncached

theorem bindingsFrom_withVersion (t : Tree) (v : Nat) (source : String) :
    bindingsFrom source (t.withVersion v).imports = bindingsFrom source t.imports := by
  rw [bindingsFrom, Tree.imports_withVersion, fromSource_withVersion, List.flatMap_map]
  rfl

theorem reports_withVersion {t' : Tree} {source : String} {xs : List ImportedName}
    (h : Reports t t' source xs) (v : Nat) : Reports t (t'.withVersion v) source xs where
  imported := by
    obtain ⟨i, hi, hsource⟩ := h.imported
    rw [Tree.imports_withVersion]
    exact ⟨i.withVersion v, List.mem_map_of_mem hi, hsource⟩
  order := by
    rw [bindingsFrom_withVersion]
    exact h.order
  bindings := by
    rw [bindingsFrom_withVersion]
    exact h.bindings

theorem tree_on_of_uncached (hr : r.cache = none) (ht : Tree.build r.version c.language text.toList = t)
    (hclean : t.hasErrors = false) : ((Draft.tree ⟨c.path, c.language, text⟩).on r).1 = .ok t := by
  have htree := Draft.tree_on_of_uncached (d := ⟨c.path, c.language, text⟩) hr
  dsimp only at htree
  rw [ht] at htree
  exact congrArg Prod.fst (htree hclean)

/-- Without a cache, the tree of a text is always the same up to its version. -/
theorem rereads_of_uncached {t' : Tree} (hr : r.cache = none)
    (ht' : Tree.build 1 c.language text.toList = t') (hclean : t'.hasErrors = false)
    (hreports : Reports t t' spec.source (newBindings t spec)) : c.Rereads text r t spec := by
  intro s hs
  have hs : s.cache = none := by
    rw [← Option.isNone_iff_eq_none, ← Option.not_isSome, hs.cache_isSome, hr]
    rfl
  have hversion : Tree.build s.version c.language text.toList = t'.withVersion s.version := by
    rw [← ht', Tree.build_withVersion]
  have hclean' : (t'.withVersion s.version).hasErrors = false := by rw [Tree.hasErrors_withVersion, hclean]
  exact ⟨_, tree_on_of_uncached hs hversion hclean', reports_withVersion hreports s.version⟩

/-- A request that is merged into the text of a file is carried out, and no cache comes of it. -/
theorem exists_apply_of_mergeInto {result : String} (hlanguage : (c.language == .plaintext) = false)
    (hr : r.cache = none) (hspec : ((requested q).on r).1 = .ok spec)
    (ht : ((Draft.tree ⟨c.path, c.language, text⟩).on ((requested q).on r).2).1 = .ok t)
    (hmerged : mergeInto ⟨c.path, c.language, text⟩ t spec = .ok result) :
    ∃ o r', ((Operation.addImport q).apply ⟨c.path, c.language, text⟩).on r = (.ok o, r') ∧ o.text = result ∧
      r'.cache = none := by
  obtain ⟨o, r', hadd, htext⟩ := exists_add_of_mergeInto hspec ht hmerged
  have happly : (Operation.addImport q).apply ⟨c.path, c.language, text⟩ = Import.add ⟨c.path, c.language, text⟩ q := by
    apply apply_addImport
    dsimp only
    exact hlanguage
  rw [← happly] at hadd
  have hcache := ((Operation.apply_yields ⟨c.path, c.language, text⟩ (.addImport q)).leads r).cache_isSome
  rw [hadd, hr, Option.isSome_none, Option.isSome_eq_false_iff, Option.isNone_iff_eq_none] at hcache
  exact ⟨o, r', hadd, htext, hcache⟩

end Uncached

/-- A change of one file. -/
def oneFile : FileChange := ⟨"a.tsx", .modify, [], none, none⟩

/-- A request for a default binding and for a name, twice. -/
def twoBindings : ImportRequest := ⟨some "m", some "d", ["c as e", "c  as  e "], none, none⟩

/-- The bindings go into a new statement together. -/
theorem addImport_idempotent_statement :
    let text := "import b from 'a';"
    let result := "import b from 'a';\nimport d, \x7b c as e \x7d from 'm';"
    (∃ o r', ((Operation.addImport twoBindings).apply ⟨oneFile.path, oneFile.language, text⟩).on .plain =
        (.ok o, r') ∧ o.text = result) ∧
      ∀ k, 0 < k → ∃ p s,
        (oneFile.steps (.plain true) [] 0 (List.replicate k (.addImport twoBindings))
          ⟨text, [], [], []⟩).run .plain = ((p, none), s) ∧ p.text = result := by
  intro text result
  obtain ⟨t, ht⟩ : ∃ t, Tree.build 1 oneFile.language text.toList = t := ⟨_, rfl⟩
  obtain ⟨t', ht'⟩ : ∃ t', Tree.build 1 oneFile.language result.toList = t' := ⟨_, rfl⟩
  have hclean : t.hasErrors = false ∧ t'.hasErrors = false := by
    rw [← ht, ← ht']
    decide +kernel
  have hspec : ((requested twoBindings).on .plain).1.toOption = some twoBindings.spec := by decide +kernel
  have hspec := toOption_eq_some_iff.mp hspec
  have hread : ((Draft.tree ⟨oneFile.path, oneFile.language, text⟩).on ((requested twoBindings).on .plain).2).1 = .ok t :=
    tree_on_of_uncached rfl ht hclean.1
  have hplan : (plan t twoBindings.spec).toOption =
      some [.insert (byteSize text.toList) "\nimport d, \x7b c as e \x7d from 'm';"] := by
    rw [← ht]
    decide +kernel
  have hmerged : mergeInto ⟨oneFile.path, oneFile.language, text⟩ t twoBindings.spec = .ok result := by
    have hchars : t.chars = text.toList ++ [] := by rw [← ht, Tree.build, List.append_nil]
    have hresult : String.ofList (text.toList ++ "\nimport d, \x7b c as e \x7d from 'm';".toList ++ []) = result := by
      decide +kernel
    rw [mergeInto_of_insertion _ _ hchars (toOption_eq_some_iff.mp hplan), hresult]
  have hreports : Reports t t' "m" (newBindings t twoBindings.spec) := by
    have hbindings : (∃ i ∈ t'.imports, i.source = "m") ∧ bindingsFrom "m" t.imports = [] ∧
        newBindings t twoBindings.spec = bindingsFrom "m" t'.imports := by
      rw [← ht, ← ht']
      decide +kernel
    obtain ⟨himported, hnone, hnew⟩ := hbindings
    exact reports_of_nil himported hnone hnew
  obtain ⟨o, r', happly, htext, hcache⟩ := exists_apply_of_mergeInto (by decide) rfl hspec hread hmerged
  have hreread : oneFile.Rereads o.text r' t twoBindings.spec :=
    rereads_of_uncached hcache (htext ▸ ht') hclean.2 hreports
  obtain ⟨-, htimes⟩ := addImport_idempotent happly hspec hread hreread
  refine ⟨⟨o, r', happly, htext⟩, fun k hk => ?_⟩
  obtain ⟨p, s, hrun, hp, -⟩ := htimes (.plain true) [] 0 k ⟨text, [], [], []⟩ hk (fun _ => rfl) rfl
  exact ⟨p, s, hrun, hp.trans htext⟩

end FileChange

end SourceChange
