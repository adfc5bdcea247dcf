import Mathlib.Data.List.Count
import SourceChange.Proofs.Stepwise.Operations
import SourceChange.Proofs.Text.Words

/-!
Names of a generated module that a file declares already.

A name gives a warning if the file imports it, or declares it by `const`, `let`, a function with a body or a class.
Interfaces, names for types, variables of `var` and some further declarations are overlooked, so a generated
interface may join one of the file without a warning. A name that the module declares twice gives two warnings.
-/

namespace SourceChange

open Source Syntax

namespace Source.Tree

/-- Declarations whose names are compared with those of a generated module. -/
inductive Compares (t : Tree) (s : Node) (n : String) : Prop where
  | imported (hs : s.is .importStatement = true) (hn : n ∈ (t.importOf s).locals)
  | declarator {d : Node} (hs : s.is .lexicalDeclaration = true) (hd : d ∈ s.named)
    (hdeclarator : d.is .variableDeclarator = true) (hn : n ∈ t.patternNames (d.child? .name))
  | named (hs : s.isOneOf [.functionDeclaration, .generatorFunctionDeclaration, .classDeclaration] = true)
    (hname : t.roleText? s .name = some n) (hne : n ≠ "")

/-- Declarations whose names are not compared: variables of `var`, abstract classes, functions without a body,
interfaces and names for types; other forms of imports; and all that is declared to stand elsewhere. -/
inductive Overlooks (t : Tree) : Node → String → Prop where
  | declarator {s d : Node} {n : String} (hs : s.is .variableDeclaration = true) (hd : d ∈ s.named)
    (hdeclarator : d.is .variableDeclarator = true) (hn : n ∈ t.patternNames (d.child? .name)) : Overlooks t s n
  | named {s : Node} {n : String}
    (hs : s.isOneOf [.abstractClassDeclaration, .functionSignature, .interfaceDeclaration,
      .typeAliasDeclaration] = true) (hname : t.roleText? s .name = some n) (hne : n ≠ "") : Overlooks t s n
  | required {s clause x : Node} (hs : s.is .importStatement = true) (hclause : clause ∈ s.named)
    (hrequire : clause.is .importRequireClause = true) (hx : clause.named.head? = some x)
    (hname : x.is .identifier = true) : Overlooks t s (t.nodeText x)
  | shortened {s x : Node} (hs : s.is .importAlias = true) (hx : s.named.head? = some x)
    (hname : x.is .identifier = true) : Overlooks t s (t.nodeText x)
  | ambient {s d : Node} {n : String} (hs : s.is .ambientDeclaration = true) (hd : d ∈ s.named)
    (h : Compares t d n) : Overlooks t s n
  | within {s d : Node} {n : String} (hs : s.is .ambientDeclaration = true) (hd : d ∈ s.named)
    (h : Overlooks t d n) : Overlooks t s n

/-- A statement of a module that is a declaration, or exports one. -/
inductive AtTop (t : Tree) (declares : Node → String → Prop) (n : String) : Prop where
  | plain {s : Node} (hs : s ∈ t.rootD.named) (h : declares s n) : AtTop t declares n
  | exported {s d : Node} (hs : s ∈ t.rootD.named) (hexport : s.is .exportStatement = true)
    (hd : s.child? .declaration = some d) (h : declares d n) : AtTop t declares n

variable {t : Tree} {s : Node} {n : String}

theorem mem_plainBindings_iff : n ∈ t.plainBindings s ↔ t.Compares s n := by
  constructor
  · intro hn
    rw [plainBindings] at hn
    split at hn
    case isTrue hlexical =>
      obtain ⟨d, hd, hn⟩ := List.mem_flatMap.mp hn
      obtain ⟨hd, hdeclarator⟩ := List.mem_filter.mp hd
      exact .declarator hlexical hd hdeclarator hn
    case isFalse =>
      split at hn
      case isTrue hnamed =>
        split at hn
        case h_1 name hname =>
          split at hn
          case isTrue => cases hn
          case isFalse hne =>
            obtain rfl := List.mem_singleton.mp hn
            exact .named hnamed hname (by simpa using hne)
        case h_2 => cases hn
      case isFalse =>
        split at hn
        case isTrue himport => exact .imported himport hn
        case isFalse => cases hn
  · intro h
    cases h with
    | imported hs hn =>
      have hkind := eq_of_beq hs
      simpa [plainBindings, Node.is, Node.isOneOf, hkind] using hn
    | @declarator d hs hd hdeclarator hn =>
      rw [plainBindings, if_pos hs]
      exact List.mem_flatMap.mpr ⟨d, List.mem_filter.mpr ⟨hd, hdeclarator⟩, hn⟩
    | named hs hname hne =>
      simp only [Node.isOneOf, Node.is, List.any_cons, List.any_nil, Bool.or_false, Bool.or_eq_true,
        beq_iff_eq] at hs
      rcases hs with hs | hs | hs <;> simp [plainBindings, Node.is, Node.isOneOf, hs, hname, hne]

theorem not_compares_of_export (hexport : s.is .exportStatement = true) : ¬ t.Compares s n := by
  have hkind := eq_of_beq hexport
  rw [← mem_plainBindings_iff]
  simp [plainBindings, Node.is, Node.isOneOf, hkind]

/-- The names at module scope are those of the declarations that are compared. -/
theorem mem_moduleNames_iff : n ∈ t.moduleNames ↔ t.AtTop t.Compares n := by
  have hscope : t.moduleNames = t.rootD.named.flatMap t.statementBindings := rfl
  rw [hscope, List.mem_flatMap]
  constructor
  · rintro ⟨s, hs, hn⟩
    rw [statementBindings] at hn
    split at hn
    case isTrue hexport =>
      split at hn
      case h_1 d hd => exact .exported hs hexport hd (mem_plainBindings_iff.mp hn)
      case h_2 => cases hn
    case isFalse => exact .plain hs (mem_plainBindings_iff.mp hn)
  · intro h
    cases h with
    | @plain s hs hcompares =>
      refine ⟨s, hs, ?_⟩
      rw [statementBindings, if_neg fun hexport => not_compares_of_export hexport hcompares]
      exact mem_plainBindings_iff.mpr hcompares
    | @exported s d hs hexport hd hcompares =>
      refine ⟨s, hs, ?_⟩
      rw [statementBindings, if_pos hexport, hd]
      exact mem_plainBindings_iff.mpr hcompares

end Source.Tree

namespace Template

/-- A line of a text starts with another text. -/
def StartsLine (text front : String) : Prop := ∃ before after,
  text.toList = before ++ (front.toList ++ after) ∧ (before = [] ∨ before.getLast? = some '\n')

/-- How the line starts that declares a name. -/
inductive Heading (name : String) : String → Prop where
  | constant : Heading name ("const " ++ name ++ " = ")
  | exported : Heading name ("export const " ++ name ++ " = ")
  | function : Heading name ("export function " ++ name ++ "(")
  | type : Heading name ("type " ++ name ++ " = ")
  | interface : Heading name ("interface " ++ name ++ " \x7b")

/-- A line of a text declares a name. -/
def DeclaresIn (text name : String) : Prop := ∃ front, Heading name front ∧ StartsLine text front

variable {d : Draft} {r : Reader} {t : Tree} {op : Operation} {m : Module} {names : List String}

theorem startsLine_of_mem {lines : List String} {line front : String} (hline : line ∈ lines)
    (hfront : front.toList <+: line.toList) : StartsLine (Text.join "\n" lines) front := by
  obtain ⟨above, below, rfl⟩ := List.append_of_mem hline
  obtain ⟨rest, hrest⟩ := hfront
  have hbelow : ∃ after, Text.joinWith ['\n'] ((line :: below).map String.toList) = front.toList ++ after := by
    rw [List.map_cons, ← hrest]
    cases below with
    | nil => exact ⟨rest, rfl⟩
    | cons b below =>
      rw [List.map_cons, Text.joinWith_cons_cons, List.append_assoc]
      exact ⟨_, rfl⟩
  obtain ⟨after, hafter⟩ := hbelow
  have hfeed : "\n".toList = ['\n'] := rfl
  rw [StartsLine, Text.toList_join, hfeed, List.map_append]
  cases above with
  | nil => exact ⟨[], after, hafter, .inl rfl⟩
  | cons a above =>
    rw [Text.joinWith_append _ (by simp) (by simp), hafter, ← List.append_assoc]
    exact ⟨_, after, rfl, .inr (by simp)⟩

/-- What is put into a draft that is not empty: the module of a context, or of a store that is not given a file of
its own, with the names that its declarations introduce. -/
inductive Renders (d : Draft) : Operation → Module → List String → Prop where
  | context (c : ContextProvider) : Renders d (.context c) (contextModule c (Language.isTyped d.path))
    ([c.context, nameOr c.provider (c.context ++ "Provider"), nameOr c.hook ("use" ++ c.context)] ++
      if Language.isTyped d.path && c.valueType.getD "" != "" then [c.context ++ "Value"] else [])
  | store (s : Store) (hfile : nameOr s.file d.path = d.path) :
    Renders d (.store s) (storeModule s (Language.isTyped d.path))
      (s.name :: if Language.isTyped d.path then ["StoreState"] else [])

theorem Renders.declares_eq (h : Renders d op m names) : m.declares = names := by
  cases h with
  | context c =>
    rw [contextModule]
    dsimp only
    split <;> rfl
  | store s => rfl

theorem declaresIn_of_mem {lines : List String} {line name front : String} (hheading : Heading name front)
    (hline : line ∈ lines) (hfront : front.toList <+: line.toList) : DeclaresIn (Text.join "\n" lines) name :=
  ⟨front, hheading, startsLine_of_mem hline hfront⟩

/-- The body of the module of a context declares its names. -/
theorem declaresIn_contextModule (c : ContextProvider) (typed : Bool) :
    ∀ n ∈ (contextModule c typed).declares, DeclaresIn (contextModule c typed).body n := by
  intro n hn
  obtain hn | hn := List.mem_append.mp hn
  · simp only [List.mem_cons, List.not_mem_nil, or_false] at hn
    rcases hn with rfl | rfl | rfl
    · refine declaresIn_of_mem .constant (List.mem_append_left _ (List.mem_append_left _ (List.mem_append_left _
        (List.mem_append_right _ List.mem_cons_self)))) ?_
      simp
    · refine declaresIn_of_mem .function (List.mem_append_left _ (List.mem_append_left _ (List.mem_append_right _
        List.mem_cons_self))) ?_
      simp
    · refine declaresIn_of_mem .function (List.mem_append_right _ List.mem_cons_self) ?_
      simp
  · -- only a type of the value that is written has a name of its own
    split at hn
    case isFalse => cases hn
    case isTrue hgiven =>
      obtain rfl := List.mem_singleton.mp hn
      have hline : "type " ++ (c.context ++ "Value") ++ " = " ++ c.valueType.getD "" ++ ";" ∈
          if (typed && c.valueType.getD "" != "") = true then
            ["type " ++ (if (typed && c.valueType.getD "" != "") = true then c.context ++ "Value" else "any") ++
              " = " ++ c.valueType.getD "" ++ ";", ""]
          else [] := by
        rw [if_pos hgiven, if_pos hgiven]
        exact List.mem_cons_self
      refine declaresIn_of_mem .type (List.mem_append_left _ (List.mem_append_left _ (List.mem_append_left _
        (List.mem_append_left _ hline)))) ?_
      simp

/-- The body of the module of a store declares its names. -/
theorem declaresIn_storeModule (s : Store) (typed : Bool) :
    ∀ n ∈ (storeModule s typed).declares, DeclaresIn (storeModule s typed).body n := by
  intro n hn
  obtain hn | hn := List.mem_append.mp hn
  · obtain rfl := List.mem_singleton.mp hn
    cases hpersist : s.persist with
    | true =>
      rw [storeModule, hpersist, if_pos rfl]
      refine declaresIn_of_mem .exported (List.mem_append_right _ List.mem_cons_self) ?_
      simp
    | false =>
      rw [storeModule, hpersist, if_neg (by simp)]
      refine declaresIn_of_mem .exported (List.mem_append_right _ List.mem_cons_self) ?_
      simp
  · cases typed with
    | false => cases hn
    | true =>
      obtain rfl := List.mem_singleton.mp hn
      exact declaresIn_of_mem .interface (List.mem_append_left _ List.mem_cons_self) (List.prefix_refl _)

theorem Renders.declaresIn (h : Renders d op m names) : ∀ n ∈ names, DeclaresIn m.body n := by
  rw [← h.declares_eq]
  cases h with
  | context c => exact declaresIn_contextModule c _
  | store s => exact declaresIn_storeModule s _

/-- The warning for a name that a file declares already. -/
def collisionWarning (path kind name : String) : String :=
  "'" ++ name ++ "' is already declared in " ++ path ++ "; generated " ++ kind ++ " code was not renamed"

theorem collisionWarning_injective (path kind : String) : Function.Injective (collisionWarning path kind) := by
  intro a b h
  simpa [collisionWarning, ← String.toList_inj] using h

/-- A draft with the declarations of a module at its end. -/
def joined (text : String) (m : Module) : String :=
  String.ofList (Text.dropEndWhile (· == '\n') text.toList) ++ "\n\n" ++ m.trimmedBody ++ "\n"

/-- A module is joined to a file as soon as its imports are. -/
theorem attach_on (ht : (d.tree.on r).1 = .ok t) (m : Module) (kind : String) :
    ((attach d m kind).on r).1 = ((mergeFrom d t m.imports).on (d.tree.on r).2).1.map fun merged =>
      (joined merged.text m, (m.declares.filter t.moduleNames.contains).map (collisionWarning d.path kind)) := by
  have htree : d.tree.on r = (.ok t, (d.tree.on r).2) := Prod.ext ht rfl
  rw [attach, Reading.on_bind, htree]
  dsimp only
  rw [Reading.on_bind]
  rcases (mergeFrom d t m.imports).on (d.tree.on r).2 with ⟨_ | merged, s⟩ <;> rfl

/-- Each name that a file declares already gives one warning, and nothing else gives one. -/
structure WarnsOf (names : List String) (declared : String → Prop) (warning : String → String)
    (warnings : List String) : Prop where
  once : ∀ n ∈ names, declared n → warnings.count (warning n) = 1
  only : ∀ w ∈ warnings, ∃ n ∈ names, declared n ∧ w = warning n

/-- Names that are all looked up give one warning each if they are distinct and nothing is overlooked. -/
theorem warnsOf_filter_iff {warning : String → String} (hwarning : Function.Injective warning)
    {found : List String} {overlooked : String → Prop} :
    WarnsOf names (fun n => n ∈ found ∨ overlooked n) warning ((names.filter found.contains).map warning) ↔
      ∀ n ∈ names, (n ∈ found → names.count n = 1) ∧ (overlooked n → n ∈ found) := by
  have hcount (n : String) : ((names.filter found.contains).map warning).count (warning n) =
      (names.filter found.contains).count n := List.count_map_of_injective _ _ hwarning n
  have hfound {n : String} (hn : n ∈ found) : (names.filter found.contains).count n = names.count n :=
    List.count_filter (List.contains_iff_mem.mpr hn)
  constructor
  · intro h n hn
    refine ⟨fun hmem => ?_, fun hoverlooked => ?_⟩
    · rw [← hfound hmem, ← hcount]
      exact h.once n hn (.inl hmem)
    · have honce := h.once n hn (.inr hoverlooked)
      rw [hcount] at honce
      have hmem := List.count_pos_iff.mp (honce ▸ Nat.one_pos)
      exact List.contains_iff_mem.mp (List.mem_filter.mp hmem).2
  · intro h
    refine ⟨fun n hn hdeclared => ?_, fun w hw => ?_⟩
    · have hmem := hdeclared.elim id (h n hn).2
      rw [hcount, hfound hmem]
      exact (h n hn).1 hmem
    · obtain ⟨n, hn, rfl⟩ := List.mem_map.mp hw
      obtain ⟨hn, hmem⟩ := List.mem_filter.mp hn
      exact ⟨n, hn, .inl (List.contains_iff_mem.mp hmem), rfl⟩

theorem Renders.apply_on (h : Renders d op m names) (hlanguage : d.language ≠ .plaintext)
    (hblank : Text.isBlankText d.text = false) (ht : (d.tree.on r).1 = .ok t) :
    ∃ summary, ((op.apply d).on r).1 = ((mergeFrom d t m.imports).on (d.tree.on r).2).1.map fun merged =>
      ⟨joined merged.text m, [], (names.filter t.moduleNames.contains).map
        (collisionWarning d.path op.kind.name), summary⟩ := by
  have hmodule (kind summary : String) :
      ((addModule d m kind summary).on r).1 = (((attach d m kind).on r).1.map fun joined =>
        ⟨joined.1, [], joined.2, summary⟩) := by
    rw [addModule, if_neg (by simp [hblank]), Reading.on_bind]
    rcases (attach d m kind).on r with ⟨_ | ⟨text, warnings⟩, s⟩ <;> rfl
  have hjoined (kind summary : String) : ((addModule d m kind summary).on r).1 =
      ((mergeFrom d t m.imports).on (d.tree.on r).2).1.map fun merged => ⟨joined merged.text m, [],
        (names.filter t.moduleNames.contains).map (collisionWarning d.path kind), summary⟩ := by
    rw [hmodule, attach_on ht, h.declares_eq]
    cases ((mergeFrom d t m.imports).on (d.tree.on r).2).1 <;> rfl
  have hplain : ¬ (op.isStructural && d.language == .plaintext) = true := by simp [hlanguage]
  rw [Operation.apply, if_neg hplain]
  cases h with
  | context c => exact ⟨_, hjoined "AddContextProvider" _⟩
  | store s hfile =>
    refine ⟨"Added zustand store " ++ s.name, ?_⟩
    rw [Operation.perform, addStore, if_pos (by simpa using hfile)]
    exact hjoined "AddZustandStore" _

/-- A module is joined to a file as soon as its imports are. The warnings are then those for its names, each as often
as the module gives it, that the file imports or declares by `const`, `let`, a function with a body or a class. So
each name that the file declares gives one warning iff no such name is given twice, and none is declared only by a
declaration that is overlooked. -/
theorem collisions_warned (hop : Renders d op m names) (hlanguage : d.language ≠ .plaintext)
    (hblank : Text.isBlankText d.text = false) (ht : (d.tree.on r).1 = .ok t) :
    (∀ n ∈ names, DeclaresIn m.body n) ∧
    ∃ warnings summary,
      ((op.apply d).on r).1 = (((mergeFrom d t m.imports).on (d.tree.on r).2).1.map fun merged =>
        ⟨joined merged.text m, [], warnings, summary⟩) ∧
      (∀ n, t.AtTop t.Compares n → warnings.count (collisionWarning d.path op.kind.name n) = names.count n) ∧
      (∀ w ∈ warnings, ∃ n ∈ names, t.AtTop t.Compares n ∧ w = collisionWarning d.path op.kind.name n) ∧
      (WarnsOf names (fun n => t.AtTop t.Compares n ∨ t.AtTop t.Overlooks n)
          (collisionWarning d.path op.kind.name) warnings ↔
        ∀ n ∈ names, (t.AtTop t.Compares n → names.count n = 1) ∧
          (t.AtTop t.Overlooks n → t.AtTop t.Compares n)) := by
  obtain ⟨summary, happly⟩ := hop.apply_on hlanguage hblank ht
  have hwarning := collisionWarning_injective d.path op.kind.name
  refine ⟨hop.declaresIn, _, summary, happly, fun n hn => ?_, fun w hw => ?_, ?_⟩
  · rw [List.count_map_of_injective _ _ hwarning,
      List.count_filter (List.contains_iff_mem.mpr (Tree.mem_moduleNames_iff.mpr hn))]
  · obtain ⟨n, hn, rfl⟩ := List.mem_map.mp hw
    obtain ⟨hn, hmem⟩ := List.mem_filter.mp hn
    exact ⟨n, hn, Tree.mem_moduleNames_iff.mp (List.contains_iff_mem.mp hmem), rfl⟩
  · simp only [← Tree.mem_moduleNames_iff]
    exact warnsOf_filter_iff hwarning

/-- A store that is put into a file with an interface of the name that it generates. -/
def countStore : Store := ⟨"useCount", [("count", .int 0)], none, [], false, none⟩

/-- The file. -/
def openFile : Draft := ⟨"src/count.ts", .typescript, "interface StoreState \x7b\n  open: boolean;\n\x7d\n"⟩

/-- The interface of the file is joined by the generated one without a warning. -/
theorem collisions_warned_interface : ∃ t m o, (openFile.tree.on .plain).1 = .ok t ∧
    Renders openFile (.store countStore) m ["useCount", "StoreState"] ∧
    (((Operation.store countStore).apply openFile).on .plain).1 = .ok o ∧ o.warnings = [] ∧
    t.AtTop t.Overlooks "StoreState" ∧
    ¬ WarnsOf ["useCount", "StoreState"] (fun n => t.AtTop t.Compares n ∨ t.AtTop t.Overlooks n)
      (collisionWarning openFile.path "AddZustandStore") o.warnings := by
  have htree : ((openFile.tree.on .plain).1.toOption.any fun t => t.moduleNames.isEmpty && t.rootD.named.any fun s =>
      s.is .interfaceDeclaration && t.roleText? s .name == some "StoreState") = true := by
    decide +kernel
  have happly : (((Operation.store countStore).apply openFile).on .plain).1.toOption.map (·.warnings) = some [] := by
    decide +kernel
  obtain ⟨t, ht, hview⟩ := (Option.any_eq_true ..).mp htree
  obtain ⟨o, ho, hwarnings⟩ := Option.map_eq_some_iff.mp happly
  obtain ⟨hnames, hinterface⟩ := Bool.and_eq_true_iff.mp hview
  obtain ⟨s, hs, hinterface⟩ := List.any_eq_true.mp hinterface
  obtain ⟨hkind, hname⟩ := Bool.and_eq_true_iff.mp hinterface
  have ht := toOption_eq_some_iff.mp ht
  have ho := toOption_eq_some_iff.mp ho
  have hop : Renders openFile (.store countStore) _ ["useCount", "StoreState"] := .store countStore (by decide +kernel)
  have hoverlooks : t.AtTop t.Overlooks "StoreState" :=
    .plain hs (.named (by simp [Node.isOneOf, hkind]) (eq_of_beq hname) (by decide))
  obtain ⟨-, warnings, summary, hends, -, -, hiff⟩ := collisions_warned hop (by decide) (by decide +kernel) ht
  obtain ⟨merged, -, hmerged⟩ := map_eq_ok_iff.mp (hends.symm.trans ho)
  have hend : o.warnings = warnings := by rw [← hmerged]
  rw [← hend] at hiff
  refine ⟨t, _, o, ht, hop, ho, hwarnings, hoverlooks, fun hwarns => ?_⟩
  -- the name would have to be one that is compared
  have hcompares := (hiff.mp hwarns "StoreState" (by simp)).2 hoverlooks
  rw [← Tree.mem_moduleNames_iff, List.isEmpty_iff.mp hnames] at hcompares
  cases hcompares

end Template

end SourceChange
