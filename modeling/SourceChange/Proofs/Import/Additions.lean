import Mathlib.Data.List.Nodup
import SourceChange.Proofs.Edits.Imports
import SourceChange.Proofs.Groups
import SourceChange.Proofs.Import.Clauses

/-!
What the edits of an import plan add.

`Adds` says which bindings an edit brings in: it reads the text of the edit as what it is at its place, in
braces, next to them or as statements. A plan adds every binding that is missing, and none twice.
-/

namespace SourceChange

open Source Syntax

/-- Requests that can be written as imports. -/
structure ImportSpec.IsValid (spec : ImportSpec) : Prop where
  defaultName : ∀ n ∈ spec.defaultName, isIdentifier n = true
  namespaceName : ∀ n ∈ spec.namespaceName, isIdentifier n = true
  entries : ∀ e ∈ spec.entries, isImportEntry e = true

theorem ImportSpec.isValid_of_validate {spec : ImportSpec} (h : spec.validate = .ok ()) :
    spec.IsValid := by
  have hname {o : Option String} (h : o.forM (Require.identifier "import" "binding") = .ok ()) :
      ∀ n ∈ o, isIdentifier n = true := by
    rintro n hn
    cases hn
    have h : Require.identifier "import" "binding" n = .ok () := h
    unfold Require.identifier at h
    split at h
    case isTrue hn => exact hn
    case isFalse => cases h
  obtain ⟨-, -, h⟩ := bind_eq_ok_iff.mp h
  obtain ⟨⟨⟩, hdefault, h⟩ := bind_eq_ok_iff.mp h
  obtain ⟨⟨⟩, hnamespace, hentries⟩ := bind_eq_ok_iff.mp h
  refine ⟨hname hdefault, hname hnamespace, fun e he => ?_⟩
  have h := forM_eq_ok_iff.mp hentries e he
  unfold Require.that at h
  split at h
  case isTrue he => exact he
  case isFalse => cases h

namespace Import

variable {t : Tree} {spec : ImportSpec} {source quote : String} {present : List Source.Import}
  {names : List String} {xs ys : List ImportedName}

/-- Where new statements stand, and the line feeds before and after them. -/
inductive StandsAt (t : Tree) : Nat → String → String → Prop where
  | afterImport {i : Source.Import} (hi : i ∈ t.imports) : StandsAt t i.handle.span.stop "\n" ""
  | afterDirectives : StandsAt t t.directivesEnd "\n" ""
  | atStart : StandsAt t 0 "" "\n"
  | beforeText : StandsAt t 0 "" "\n\n"

/-- An edit adds bindings to what a module imports from a place. -/
inductive Adds (t : Tree) (source : String) : Edit → List ImportedName → Prop where
  | intoBraces {i : Source.Import} {named last : Node} {text : String} {xs : List ImportedName}
      (hi : i ∈ fromSource source t.imports) (hnamed : bracesOf? t i = .ok (some named))
      (hlast : (named.named.filter (·.is .importSpecifier)).getLast? = some last)
      (hcomma : text.toList.head? = some ',') (hread : readClause true text = some xs) :
      Adds t source (.insert last.stop text) xs
  | intoEmptyBraces {i : Source.Import} {named : Node} {text : String} {xs : List ImportedName}
      (hi : i ∈ fromSource source t.imports) (hnamed : bracesOf? t i = .ok (some named))
      (hempty : named.named.filter (·.is .importSpecifier) = [])
      (hread : readClause false text = some xs) :
      Adds t source ⟨named.start, named.stop, text⟩ xs
  | afterDefault {i : Source.Import} {clause : Node} {text : String} {xs : List ImportedName}
      (hi : i ∈ fromSource source t.imports) (hclause : clauseOf t i = .ok clause)
      (hdefault : i.default?.isSome = true) (honly : i.named = [] ∧ i.namespace? = none)
      (hcomma : text.toList.head? = some ',') (hread : readClause false text = some xs) :
      Adds t source (.insert ((clause.named.find? (·.is .identifier)).getD clause).stop text) xs
  | beforeBraces {i : Source.Import} {named clause : Node} {text : String} {xs : List ImportedName}
      (hi : i ∈ fromSource source t.imports) (hnamed : bracesOf? t i = .ok (some named))
      (hclause : clauseOf t i = .ok clause) (honly : i.default? = none ∧ i.namespace? = none)
      (hread : readClause false text = some xs) :
      Adds t source (.insert clause.start (text ++ ", ")) xs
  | asStatements {offset : Nat} {before after : String} {statements : List String}
      {xss : List (List ImportedName)} (hplace : StandsAt t offset before after)
      (hread : List.Forall₂ (Imports source) statements xss) :
      Adds t source (.insert offset (before ++ Text.join "\n" statements ++ after)) xss.flatten

theorem newStatements_adds {statements : List String} {xss : List (List ImportedName)}
    (h : List.Forall₂ (Imports source) statements xss) :
    Adds t source (newStatements t t.imports (Text.join "\n" statements)) xss.flatten := by
  unfold newStatements
  split
  case h_1 i hlast =>
    have hadds := Adds.asStatements (.afterImport (List.mem_of_getLast? hlast)) h
    rwa [String.append_empty] at hadds
  case h_2 =>
    dsimp only
    split
    · have hadds := Adds.asStatements (t := t) .afterDirectives h
      rwa [String.append_empty] at hadds
    · split
      · have hadds := Adds.asStatements (t := t) .atStart h
        rwa [String.empty_append] at hadds
      · have hadds := Adds.asStatements (t := t) .beforeText h
        rwa [String.empty_append] at hadds

/-- Braces that were found are those of an import. -/
theorem bracesOf?_of_findBraces? {i : Source.Import} {named : Node}
    (h : findBraces? t present = .ok (some (i, named))) :
    i ∈ present ∧ bracesOf? t i = .ok (some named) := by
  induction present with
  | nil => cases h
  | cons j present ih =>
    obtain ⟨found, hfound, h⟩ := bind_eq_ok_iff.mp h
    cases found with
    | none =>
      obtain ⟨hmem, hbraces⟩ := ih h
      exact ⟨List.mem_cons_of_mem j hmem, hbraces⟩
    | some n =>
      cases h
      exact ⟨List.mem_cons_self, hfound⟩

theorem indentAt_blank (offset : Nat) : Text.Blank (t.indentAt offset).toList := by
  rw [Tree.indentAt, String.toList_ofList]
  intro c hc
  have hc := List.all_eq_true.mp List.all_takeWhile c hc
  obtain h | h := Bool.or_eq_true_iff.mp hc <;> rw [beq_iff_eq.mp h] <;> decide

/-- Names after a gap each. -/
theorem gapped_names {gap : String} {g : List Char} (hgap : gap.toList = ',' :: g) (hg : Text.Blank g)
    (hxs : ∀ x ∈ xs, IsNamed x) (hne : xs ≠ []) :
    (String.join ((xs.map (·.entry)).map (gap ++ ·))).toList.head? = some ',' ∧
      readClause true (String.join ((xs.map (·.entry)).map (gap ++ ·))) = some xs := by
  have htext : (String.join ((xs.map (·.entry)).map (gap ++ ·))).toList =
      xs.flatMap fun x => ',' :: (g ++ x.entry.toList) := by
    rw [String.toList_join, List.flatMap_map, List.flatMap_map]
    simp only [String.toList_append, hgap, List.cons_append]
  have hread := (continues_names hg hxs (continues_nil true)).readFrom
  rw [List.append_nil, List.append_nil] at hread
  rw [readClause, htext]
  refine ⟨?_, hread⟩
  obtain ⟨x, xs, rfl⟩ := List.exists_cons_of_ne_nil hne
  rfl

theorem extendBraces_adds {i : Source.Import} {named : Node} (hi : i ∈ fromSource source t.imports)
    (hnamed : bracesOf? t i = .ok (some named)) (hxs : ∀ x ∈ xs, IsNamed x) (hne : xs ≠ []) :
    Adds t source (extendBraces t named (xs.map (·.entry))) xs := by
  unfold extendBraces
  split
  case h_1 hnone =>
    exact .intoEmptyBraces hi hnamed (List.getLast?_eq_none_iff.mp hnone)
      (continues_braces hne hxs).readFrom
  case h_2 last hlast =>
    dsimp only
    split
    · have hgap : (",\n" ++ t.indentAt last.start).toList =
          ',' :: ('\n' :: (t.indentAt last.start).toList) := by
        rw [String.toList_append]
        rfl
      obtain ⟨hcomma, hread⟩ := gapped_names hgap
        (List.forall_mem_cons.mpr ⟨by decide, indentAt_blank last.start⟩) hxs hne
      exact .intoBraces hi hnamed hlast hcomma hread
    · have hgap : ", ".toList = ',' :: [' '] := rfl
      obtain ⟨hcomma, hread⟩ := gapped_names hgap blank_space hxs hne
      exact .intoBraces hi hnamed hlast hcomma hread

/-- Additions that bring in bindings. -/
def Additions.Add (t : Tree) (source : String) (a : Additions) (xs : List ImportedName) : Prop :=
  ∃ xss yss, List.Forall₂ (Adds t source) a.edits xss ∧
    List.Forall₂ (Imports source) a.statements yss ∧ xss.flatten ++ yss.flatten = xs

theorem add_nothing : Additions.Add t source ⟨[], []⟩ [] := ⟨[], [], .nil, .nil, rfl⟩

theorem add_edit {e : Edit} (h : Adds t source e xs) : Additions.Add t source ⟨[e], []⟩ xs :=
  ⟨[xs], [], .cons h .nil, .nil, by simp⟩

theorem add_statement {statement : String} (h : Imports source statement xs) :
    Additions.Add t source ⟨[], [statement]⟩ xs :=
  ⟨[], [xs], .nil, .cons h .nil, by simp⟩

theorem addEntries_adds {newDefault : Option String} {a : Additions} {took : Bool}
    (hquote : IsQuote quote) (hdefault : ∀ n ∈ newDefault, isIdentifier n = true)
    (hxs : ∀ x ∈ xs, IsNamed x)
    (h : addEntries t spec quote (fromSource spec.source t.imports) (xs.map (·.entry)) newDefault =
      .ok (a, took)) :
    a.Add t spec.source ((if took then newDefault.toList.map defaultOf else []) ++ xs) := by
  unfold addEntries at h
  split at h
  case isTrue hempty =>
    cases h
    have hempty : xs = [] := by simpa using hempty
    rw [hempty]
    exact add_nothing
  case isFalse hempty =>
    have hne : xs ≠ [] := by simpa using hempty
    obtain ⟨found, hfound, h⟩ := bind_eq_ok_iff.mp h
    cases found with
    | some found =>
      cases h
      obtain ⟨hi, hnamed⟩ := bracesOf?_of_findBraces? hfound
      exact add_edit (extendBraces_adds hi hnamed hxs hne)
    | none =>
      dsimp only at h
      split at h
      case h_1 i hfind =>
        obtain ⟨clause, hclause, h⟩ := bind_eq_ok_iff.mp h
        cases h
        have hi := List.mem_of_find?_eq_some hfind
        have honly := List.find?_some hfind
        simp only [Bool.and_eq_true, List.isEmpty_iff, Option.isNone_iff_eq_none] at honly
        obtain ⟨⟨hdefault, hnamed⟩, hnamespace⟩ := honly
        have hcomma : (", " ++ braces (xs.map (·.entry))).toList.head? = some ',' := by
          rw [String.toList_append]
          rfl
        exact add_edit (.afterDefault hi hclause hdefault ⟨hnamed, hnamespace⟩ hcomma
          (continues_moreBraces hne hxs).readFrom)
      case h_2 =>
        cases h
        exact add_statement (render_imports hquote hdefault hxs (.inr hne))

theorem addDefault_adds {name : String} {a : Additions} (hquote : IsQuote quote)
    (hname : isIdentifier name = true)
    (h : addDefault t spec quote (fromSource spec.source t.imports) name = .ok a) :
    a.Add t spec.source [defaultOf name] := by
  have hstatement : Additions.Add t spec.source ⟨[], [render ⟨spec.source, some name, [], none⟩ quote]⟩
      [defaultOf name] :=
    add_statement (render_imports hquote (by simpa using hname) (List.forall_mem_nil IsNamed) (.inl nofun))
  obtain ⟨found, hfound, h⟩ := bind_eq_ok_iff.mp h
  cases found with
  | none =>
    cases h
    exact hstatement
  | some found =>
    dsimp only at h
    split at h
    case isFalse =>
      cases h
      exact hstatement
    case isTrue honly =>
      obtain ⟨clause, hclause, h⟩ := bind_eq_ok_iff.mp h
      cases h
      obtain ⟨hi, hnamed⟩ := bracesOf?_of_findBraces? hfound
      simp only [Bool.and_eq_true, Option.isNone_iff_eq_none] at honly
      have hread := readFrom_default hname (continues_nil false)
      rw [List.append_nil] at hread
      exact add_edit (.beforeBraces hi hnamed hclause honly hread)

/-- The edits of additions, followed by their statements and others. -/
theorem exists_adds {a d : Additions} {statements : List String} {zss : List (List ImportedName)}
    (ha : a.Add t source xs) (hd : d.Add t source ys)
    (hstatements : List.Forall₂ (Imports source) statements zss) :
    ∃ xss, List.Forall₂ (Adds t source) (a.edits ++ d.edits ++
        if (a.statements ++ d.statements ++ statements).isEmpty then [] else
          [newStatements t t.imports (Text.join "\n" (a.statements ++ d.statements ++ statements))]) xss ∧
      xss.flatten.Perm (xs ++ ys ++ zss.flatten) := by
  obtain ⟨ass, ass', ha, ha', rfl⟩ := ha
  obtain ⟨dss, dss', hd, hd', rfl⟩ := hd
  have hedits : List.Forall₂ (Adds t source) (a.edits ++ d.edits) (ass ++ dss) := List.rel_append ha hd
  have hall : List.Forall₂ (Imports source) (a.statements ++ d.statements ++ statements)
      (ass' ++ dss' ++ zss) :=
    List.rel_append (List.rel_append ha' hd') hstatements
  split
  case isTrue hempty =>
    rw [List.isEmpty_iff.mp hempty] at hall
    obtain ⟨hboth, rfl⟩ := List.append_eq_nil_iff.mp (List.forall₂_nil_left_iff.mp hall)
    obtain ⟨rfl, rfl⟩ := List.append_eq_nil_iff.mp hboth
    rw [List.append_nil]
    refine ⟨_, hedits, List.Perm.of_eq ?_⟩
    simp
  case isFalse =>
    refine ⟨_, List.rel_append hedits (.cons (newStatements_adds hall) .nil), ?_⟩
    rw [List.perm_iff_count]
    intro x
    simp only [List.flatten_append, List.flatten_cons, List.flatten_nil, List.append_nil,
      List.count_append]
    omega

/-- The bindings that a request misses. -/
def missingBindings (t : Tree) (spec : ImportSpec) : List ImportedName :=
  let present := fromSource spec.source t.imports
  (missingDefault? spec present).toList.map defaultOf ++ (missingEntries spec present).map namedOf ++
    (missingNamespace? spec present).toList.map namespaceOf

theorem isNamed_of_mem_missing (hspec : spec.IsValid) {e : String}
    (he : e ∈ missingEntries spec present) : IsNamed (namedOf e) ∧ (namedOf e).entry = e := by
  have he := List.mem_eraseDups.mp (List.mem_filter.mp he).1
  obtain ⟨s, hs, rfl⟩ := List.mem_map.mp he
  have hbare := isBare_namedOf (hspec.entries s hs)
  have hnamed := namedOf_entry hbare rfl
  rw [normalEntry_eq hbare, hnamed]
  exact ⟨⟨hbare, rfl⟩, rfl⟩

theorem map_entry_missing (hspec : spec.IsValid) :
    ((missingEntries spec present).map namedOf).map (·.entry) = missingEntries spec present := by
  have hentry : ∀ e ∈ missingEntries spec present, ((·.entry) ∘ namedOf) e = id e :=
    fun e he => (isNamed_of_mem_missing hspec he).2
  rw [List.map_map, List.map_congr_left hentry, List.map_id]

theorem isNamed_of_mem_map_missing (hspec : spec.IsValid) :
    ∀ x ∈ (missingEntries spec present).map namedOf, IsNamed x := by
  intro x hx
  obtain ⟨e, he, rfl⟩ := List.mem_map.mp hx
  exact (isNamed_of_mem_missing hspec he).1

theorem missingBindings_nodup (hspec : spec.IsValid) : (missingBindings t spec).Nodup := by
  have hone {α β : Type} (o : Option α) (f : α → β) : (o.toList.map f).Nodup := by
    cases o with
    | none => exact List.nodup_nil
    | some a => exact List.nodup_singleton (f a)
  have hnames : ((missingEntries spec (fromSource spec.source t.imports)).map namedOf).Nodup := by
    refine List.Nodup.of_map (·.entry) ?_
    rw [map_entry_missing hspec]
    exact (nodup_eraseDups _).filter _
  -- bindings of different forms differ
  refine List.nodup_append.mpr ⟨List.nodup_append.mpr ⟨hone _ _, hnames, ?_⟩, hone _ _, ?_⟩
  · intro x hx y hy
    obtain ⟨-, -, rfl⟩ := List.mem_map.mp hx
    obtain ⟨-, -, rfl⟩ := List.mem_map.mp hy
    exact ne_of_apply_ne ImportedName.form nofun
  · intro x hx y hy
    obtain ⟨-, -, rfl⟩ := List.mem_map.mp hy
    obtain hx | hx := List.mem_append.mp hx <;> obtain ⟨-, -, rfl⟩ := List.mem_map.mp hx <;>
      exact ne_of_apply_ne ImportedName.form nofun

/-- The default binding goes with the names or by itself. -/
theorem perm_of_default {ds ds' ns zs : List ImportedName} (h : (ds' ++ ys).Perm ds) :
    (ds' ++ ns ++ ys ++ zs).Perm (ds ++ ns ++ zs) := by
  refine List.Perm.append_right zs ?_
  rw [List.append_assoc]
  refine (List.perm_append_comm.append_left ds').trans ?_
  rw [← List.append_assoc]
  exact h.append_right ns

theorem namespaces_imports (hspec : spec.IsValid) (hquote : IsQuote quote)
    (present : List Source.Import) :
    ∃ zss, List.Forall₂ (Imports spec.source)
        ((missingNamespace? spec present).toList.map fun n => renderNamespace n spec.source quote) zss ∧
      zss.flatten = (missingNamespace? spec present).toList.map namespaceOf := by
  cases hn : missingNamespace? spec present with
  | none => exact ⟨[], .nil, rfl⟩
  | some n =>
    have hn := hspec.namespaceName n (Option.mem_filter_iff.mp hn).1
    exact ⟨[[namespaceOf n]], .cons (renderNamespace_imports hquote hn) .nil, rfl⟩

theorem isIdentifier_of_missingDefault? (hspec : spec.IsValid) (present : List Source.Import) :
    ∀ n ∈ missingDefault? spec present, isIdentifier n = true := by
  intro n hn
  unfold missingDefault? at hn
  split at hn
  · cases hn
  · exact hspec.defaultName n hn

theorem planBindings_adds (hspec : spec.IsValid) {es : List Edit} (h : planBindings t spec = .ok es) :
    ∃ xss, List.Forall₂ (Adds t spec.source) es xss ∧ xss.flatten.Perm (missingBindings t spec) := by
  have hquote := quoteStyle_isQuote t t.imports
  have hdefault := isIdentifier_of_missingDefault? hspec (fromSource spec.source t.imports)
  obtain ⟨zss, hnamespaces, hzss⟩ := namespaces_imports hspec hquote (fromSource spec.source t.imports)
  obtain ⟨-, -, h⟩ := bind_eq_ok_iff.mp h
  obtain ⟨-, -, h⟩ := bind_eq_ok_iff.mp h
  obtain ⟨⟨entries, took⟩, hentries, h⟩ := bind_eq_ok_iff.mp h
  rw [← map_entry_missing hspec] at hentries
  have hentries := addEntries_adds hquote hdefault (isNamed_of_mem_map_missing hspec) hentries
  rw [missingBindings, ← hzss]
  dsimp only at h
  split at h
  case h_2 hnone =>
    cases h
    obtain ⟨xss, hxss, hflatten⟩ := exists_adds hentries add_nothing hnamespaces
    refine ⟨xss, hxss, hflatten.trans (perm_of_default ?_)⟩
    rw [hnone, Option.toList_none, List.map_nil, ite_self, List.append_nil]
  case h_1 name hname =>
    split at h
    case isTrue htook =>
      cases h
      obtain ⟨xss, hxss, hflatten⟩ := exists_adds hentries add_nothing hnamespaces
      refine ⟨xss, hxss, hflatten.trans (perm_of_default ?_)⟩
      rw [if_pos htook, List.append_nil]
    case isFalse htook =>
      obtain ⟨d, hd, h⟩ := bind_eq_ok_iff.mp h
      cases h
      have hdefault := addDefault_adds hquote (hdefault name hname) hd
      obtain ⟨xss, hxss, hflatten⟩ := exists_adds hentries hdefault hnamespaces
      refine ⟨xss, hxss, hflatten.trans (perm_of_default ?_)⟩
      rw [if_neg htook, hname]
      exact .refl _

theorem stripped_entry {x : ImportedName} (hx : IsBare x) : Text.stripped x.entry = x.entry := by
  have hname := word_of_isBareName hx.name
  have hentry : ∃ y, x.entry.toList = x.name.toList ++ y ∧
      ∀ c ∈ (x.name.toList ++ y).getLast?, Text.isBlank c = false := by
    rw [ImportedName.entry]
    cases hnew : x.newName with
    | none =>
      refine ⟨[], (List.append_nil _).symm, ?_⟩
      rw [List.append_nil]
      exact hname.getLast?
    | some a =>
      refine ⟨" as ".toList ++ a.toList, by simp only [String.toList_append, List.append_assoc], ?_⟩
      rw [← List.append_assoc]
      exact (word_of_isBareName (hx.newName a hnew).1).getLast?_append _
  obtain ⟨y, heq, hlast⟩ := hentry
  have hstrip := Text.strip_append Text.blank_nil Text.blank_nil hname hlast
  rw [List.append_nil, List.nil_append, ← heq] at hstrip
  rw [Text.stripped, hstrip, String.ofList_toList]

/-- Bindings are listed as they are written. -/
theorem map_entry_missingBindings (hspec : spec.IsValid) :
    (missingBindings t spec).map (·.entry) = (missing t spec).map Text.stripped := by
  have hnames : ((missingEntries spec (fromSource spec.source t.imports)).map namedOf).map (·.entry) =
      (missingEntries spec (fromSource spec.source t.imports)).map Text.stripped := by
    rw [List.map_map]
    refine List.map_congr_left fun e he => ?_
    obtain ⟨hnamed, heq⟩ := isNamed_of_mem_missing hspec he
    have hstrip := stripped_entry hnamed.toIsBare
    rw [heq] at hstrip
    exact heq.trans hstrip.symm
  simp only [missingBindings, missing, List.map_append, hnames, List.map_map]
  rfl

/-- Where nothing is missing, nothing is done. -/
theorem planBindings_eq_nil {es : List Edit} (hnone : missing t spec = [])
    (h : planBindings t spec = .ok es) : es = [] := by
  obtain ⟨hboth, hnamespace⟩ := List.append_eq_nil_iff.mp hnone
  obtain ⟨hdefault, hnames⟩ := List.append_eq_nil_iff.mp hboth
  have hdefault := Option.toList_eq_nil_iff.mp hdefault
  have hnamespace := Option.toList_eq_nil_iff.mp hnamespace
  obtain ⟨-, -, h⟩ := bind_eq_ok_iff.mp h
  obtain ⟨-, -, h⟩ := bind_eq_ok_iff.mp h
  obtain ⟨⟨entries, took⟩, hentries, h⟩ := bind_eq_ok_iff.mp h
  rw [hnames] at hentries
  cases hentries
  rw [hdefault, hnamespace] at h
  cases h
  rfl

/-- A request is empty or asks for bindings. -/
theorem plan_eq_of_not_isEmpty (h : spec.isEmpty = false) : plan t spec = planBindings t spec := by
  rw [plan, h]
  rfl

/-- The edits of a plan add what is missing, each binding once; there are none if nothing is missing. -/
theorem plan_adds_missing {es : List Edit} (hvalid : spec.validate = .ok ())
    (hspec : spec.isEmpty = false) (h : plan t spec = .ok es) :
    (∃ xss, List.Forall₂ (Adds t spec.source) es xss ∧ xss.flatten.Perm (missingBindings t spec)) ∧
      (missingBindings t spec).Nodup ∧
      (missingBindings t spec).map (·.entry) = (missing t spec).map Text.stripped ∧
      (es = [] ↔ missing t spec = []) := by
  have hvalid := ImportSpec.isValid_of_validate hvalid
  rw [plan_eq_of_not_isEmpty hspec] at h
  have hadds := planBindings_adds hvalid h
  refine ⟨hadds, missingBindings_nodup hvalid, map_entry_missingBindings hvalid, ?_, ?_⟩
  · rintro rfl
    obtain ⟨xss, hxss, hperm⟩ := hadds
    cases hxss
    have hnone := hperm.symm.eq_nil
    have hmap := map_entry_missingBindings (t := t) hvalid
    rw [hnone] at hmap
    exact List.map_eq_nil_iff.mp hmap.symm
  · intro hnone
    exact planBindings_eq_nil hnone h

/-- A module that imports one name. -/
def nameImported : Tree := .build 1 .tsx "import \x7b b \x7d from 'm';".toList

/-- A request for that name, for another one twice, for the default binding and for the whole module. -/
def someBindings : ImportSpec := ⟨"m", some "d", ["b", "c as e", "c  as  e "], some "n"⟩

theorem plan_adds_someBindings :
    let es : List Edit := [.insert 10 ", c as e", .insert 7 "d, ", .insert 22 "\nimport * as n from 'm';"]
    someBindings.validate = .ok () ∧ someBindings.isEmpty = false ∧
      plan nameImported someBindings = .ok es ∧
      missing nameImported someBindings = ["d", "c as e", "n"] ∧
      ∃ xss, List.Forall₂ (Adds nameImported "m") es xss ∧ xss.flatten.Perm
        [⟨"d", none, .default⟩, ⟨"c", some "e", .named⟩, ⟨"n", none, .namespace⟩] := by
  have hvalid : someBindings.validate.toOption = some () := by decide +kernel
  have hplan : (plan nameImported someBindings).toOption =
      some [.insert 10 ", c as e", .insert 7 "d, ", .insert 22 "\nimport * as n from 'm';"] := by
    decide +kernel
  have hmissing : missing nameImported someBindings = ["d", "c as e", "n"] ∧
      missingBindings nameImported someBindings =
        [⟨"d", none, .default⟩, ⟨"c", some "e", .named⟩, ⟨"n", none, .namespace⟩] := by
    decide +kernel
  have hvalid := toOption_eq_some_iff.mp hvalid
  have hplan := toOption_eq_some_iff.mp hplan
  obtain ⟨⟨xss, hadds, hperm⟩, -⟩ := plan_adds_missing hvalid rfl hplan
  exact ⟨hvalid, rfl, hplan, hmissing.1, xss, hadds, hmissing.2 ▸ hperm⟩

end Import

end SourceChange
