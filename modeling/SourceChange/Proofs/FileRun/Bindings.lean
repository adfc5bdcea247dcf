import Mathlib.Data.List.Nodup
import SourceChange.Proofs.FileRun.Trust
import SourceChange.Proofs.Stepwise.Engine
import SourceChange.Proofs.Syntax.Trees

/-!
What the check of names that are declared twice refuses.

It counts the redeclarations of a name in all scopes together. So a redeclaration may move from one
scope to another, and a module that declares every name once may come to declare one twice.
-/

namespace SourceChange

open Source Syntax

namespace Source.Tree

theorem build_rootD_isScope (version : Nat) (l : Language) (text : List Char) :
    isScope (build version l text).rootD = true := by
  have hprogram {n : Node} (h : n.kind = .construct .program) : isScope n = true := by
    unfold isScope Node.isOneOf Node.is
    rw [List.any_cons, h]
    rfl
  unfold build rootD
  cases l.grammar? with
  | none => exact hprogram rfl
  | some g =>
    cases hparse : g.parse? text with
    | none => simpa only [hparse] using hprogram rfl
    | some root => simpa only [hparse] using hprogram (Grammar.parse?_kind hparse)

/-- Of every name, all occurrences but the first are listed, or all if it was seen before. -/
theorem count_repeats (seen names : List String) (n : String) :
    (repeats seen names).count n = if n ∈ seen then names.count n else names.count n - 1 := by
  induction names generalizing seen with
  | nil => simp [repeats]
  | cons x xs ih =>
    rw [repeats]
    by_cases hx : x = n
    · subst hx
      by_cases hseen : x ∈ seen
      · rw [if_pos (List.contains_iff_mem.mpr hseen), if_pos hseen, List.count_cons_self,
          List.count_cons_self, ih, if_pos hseen]
      · rw [if_neg (mt List.contains_iff_mem.mp hseen), if_neg hseen, ih,
          if_pos List.mem_cons_self, List.count_cons_self, Nat.add_sub_cancel]
    · have hcons : n ∈ x :: seen ↔ n ∈ seen := by simp [Ne.symm hx]
      rw [List.count_cons_of_ne hx]
      split
      · rw [List.count_cons_of_ne hx, ih]
      · simp only [ih, hcons]

/-- The redeclarations of all scopes but the module. -/
def innerRedeclarations (t : Tree) : List String :=
  (t.rootD.visits.tail.filter (isScope ·.node)).flatMap fun v =>
    repeats [] (t.declaredNames v.node v.parent?)

/-- The redeclarations are those of the module and those of the scopes in it. -/
theorem count_redeclarations {t : Tree} (ht : isScope t.rootD = true) (n : String) :
    t.redeclarations.count n = (t.moduleNames.count n - 1) + t.innerRedeclarations.count n := by
  have hvisits : t.rootD.visits = ⟨t.rootD, []⟩ :: t.rootD.visits.tail := by
    obtain ⟨k, r, s, cs⟩ := t.rootD
    rfl
  have hmodule : (repeats [] t.moduleNames).count n = t.moduleNames.count n - 1 := by
    rw [count_repeats, if_neg List.not_mem_nil]
  unfold redeclarations
  rw [hvisits, List.filter_cons, if_pos ht, List.flatMap_cons, List.count_append]
  exact congrArg (· + t.innerRedeclarations.count n) hmodule

end Source.Tree

namespace FileChange

variable {c : FileChange} {start : Option String} {reserved : List String} {r r₁ : Reader}

/-- The check of names has no part in what the operations do. -/
theorem Carried.plain {check : Bool} {text : String} {n : Nat} {p : Progress}
    (h : c.Carried (.plain check) reserved text r₁ n p r) (check' : Bool) :
    c.Carried (.plain check') reserved text r₁ n p r := by
  induction h with
  | start => exact .start
  | next _ hop _ happly hfree ih => exact .next ih hop rfl happly hfree

/-- The tree of a text at the path of a change. -/
def tree (c : FileChange) (text : String) : Tree := .build 0 c.language text.toList

/-- How often a text redeclares a name, in all scopes together. -/
def redeclared (c : FileChange) (text n : String) : Nat := (c.tree text).redeclarations.count n

theorem count_fileTree_redeclarations (hr : r.cache = none) (text n : String) :
    (r.fileTree c.path c.language text).1.redeclarations.count n = c.redeclared text n := by
  rw [Reader.fileTree_of_uncached hr, redeclared, tree, ← Tree.build_withVersion 0 r.version,
    Tree.redeclarations_withVersion]

theorem redeclared_of_plaintext (hplain : c.language = .plaintext) (text n : String) :
    c.redeclared text n = 0 := by
  rw [redeclared, tree, hplain]
  rfl

/-- Without a cache, a change completes with the check of names exactly if it completes without and
redeclares no name more often than before. -/
theorem completes_checked_iff (hr : r.cache = none) {p : Progress} :
    c.Completes (.plain true) start reserved r p ↔
      c.Completes (.plain false) start reserved r p ∧
        ∀ n, c.redeclared p.text n ≤ c.redeclared (c.input start) n := by
  -- what the check compares, with the readers at hand
  have hcounts {before : Option (List String)} {r₁ r₂ : Reader} (hbegins : c.Begins start r before r₁)
      (hleads : r₁.Leads r₂) (hlanguage : c.language ≠ .plaintext) :
      ∃ names, before = some names ∧ ∀ n, names.count n = c.redeclared (c.input start) n ∧
        (r₂.fileTree c.path c.language p.text).1.redeclarations.count n = c.redeclared p.text n := by
    have hcache : r₂.cache = none := by
      have hsome := (hbegins.opens.leads.trans hleads).cache_isSome
      rw [hr] at hsome
      simpa using hsome
    cases hbegins.opens with
    | plain hplain => exact absurd hplain hlanguage
    | parsed =>
      exact ⟨_, rfl, fun n =>
        ⟨count_fileTree_redeclarations hr _ n, count_fileTree_redeclarations hcache _ n⟩⟩
  constructor
  · rintro ⟨before, r₁, r₂, hbegins, hcarried, hpasses⟩
    refine ⟨⟨before, r₁, r₂, hbegins, hcarried.plain false, ?_, hpasses.created⟩, fun n => ?_⟩
    · intro hlanguage
      exact ⟨(hpasses.result hlanguage).1, fun hoff => by cases hoff⟩
    · by_cases hplain : c.language = .plaintext
      · rw [redeclared_of_plaintext hplain]
        exact Nat.zero_le _
      · obtain ⟨names, hbefore, hcount⟩ := hcounts hbegins hcarried.leads hplain
        have hle := (hpasses.result hplain).2 rfl names hbefore n
        rwa [(hcount n).1, (hcount n).2] at hle
  · rintro ⟨⟨before, r₁, r₂, hbegins, hcarried, hpasses⟩, hle⟩
    refine ⟨before, r₁, r₂, hbegins, hcarried.plain true, ?_, hpasses.created⟩
    intro hlanguage
    refine ⟨(hpasses.result hlanguage).1, fun _ names hnames n => ?_⟩
    obtain ⟨names', hbefore, hcount⟩ := hcounts hbegins hcarried.leads hlanguage
    rw [hnames] at hbefore
    cases hbefore
    rw [(hcount n).1, (hcount n).2]
    exact hle n

/-- Without a cache, the check of names refuses exactly the changes that redeclare a name more often than
before, and has no part in the text of the others. -/
theorem modify_checked_iff (haction : c.action = .modify) (text : String) (reserved : List String)
    (hr : r.cache = none) :
    let checked := ((c.run (.plain true) (some text) reserved).run r).1
    let unchecked := ((c.run (.plain false) (some text) reserved).run r).1
    (checked.succeeded = true ↔ unchecked.succeeded = true ∧
      ∀ result, unchecked.content = some result → ∀ n, c.redeclared result n ≤ c.redeclared text n) ∧
    (checked.succeeded = true → checked.content = unchecked.content) := by
  intro checked unchecked
  have hdelete : c.action ≠ .delete := by simp [haction]
  have hinput : c.input (some text) = text := by simp [input, haction]
  have hcompletes (check : Bool)
      (h : ((c.run (.plain check) (some text) reserved).run r).1.succeeded = true) :
      ∃ p, c.Completes (.plain check) (some text) reserved r p :=
    ((run_succeeded_iff c (.plain check) (some text) reserved r).mp h).2.2.2 hdelete
  refine ⟨⟨fun hchecked => ?_, ?_⟩, fun hchecked => ?_⟩
  · obtain ⟨p, hp⟩ := hcompletes true hchecked
    obtain ⟨hp', hle⟩ := (completes_checked_iff hr).mp hp
    rw [hinput] at hle
    have hunchecked : unchecked = _ := hp'.run_eq
    rw [hunchecked]
    refine ⟨rfl, fun result hresult => ?_⟩
    cases hresult
    exact hle
  · rintro ⟨hunchecked, hle⟩
    obtain ⟨p, hp⟩ := hcompletes false hunchecked
    have hcontent : unchecked.content = some p.text := congrArg FileOutcome.content hp.run_eq
    have hp' := (completes_checked_iff hr).mpr ⟨hp, hinput.symm ▸ hle p.text hcontent⟩
    have hchecked : checked = _ := hp'.run_eq
    rw [hchecked]
    rfl
  · obtain ⟨p, hp⟩ := hcompletes true hchecked
    have hp' := ((completes_checked_iff hr).mp hp).1
    exact (congrArg FileOutcome.content hp.run_eq).trans
      (congrArg FileOutcome.content hp'.run_eq).symm

/-- A modification is carried out exactly if it is without the check of names and no name is redeclared
more often than before in the module and the scopes in it together. So a module that declared every name
once may declare one again, but only as often as the scopes in it no longer do. -/
theorem modify_redeclarations (haction : c.action = .modify) (text : String) (reserved : List String)
    (hr : r.Exact)
    (hchecked : r.Discerns (c.run (.plain true) (some text) reserved))
    (hunchecked : r.Discerns (c.run (.plain false) (some text) reserved)) :
    let checked := ((c.run (.plain true) (some text) reserved).run r).1
    let unchecked := ((c.run (.plain false) (some text) reserved).run r).1
    (checked.succeeded = true ↔ unchecked.succeeded = true ∧
      ∀ result, unchecked.content = some result → ∀ n,
        (c.tree result).moduleNames.count n - 1 + (c.tree result).innerRedeclarations.count n ≤
          (c.tree text).moduleNames.count n - 1 + (c.tree text).innerRedeclarations.count n) ∧
    (checked.succeeded = true → ∀ result, checked.content = some result →
      (c.tree text).moduleNames.Nodup → ∀ n, (c.tree result).moduleNames.count n ≤
        1 + ((c.tree text).innerRedeclarations.count n -
          (c.tree result).innerRedeclarations.count n)) := by
  intro checked unchecked
  have hchecked' : checked = _ := (c.run_stepwise (.plain true) reserved (some text)).run_eq hr hchecked
  have hunchecked' : unchecked = _ :=
    (c.run_stepwise (.plain false) reserved (some text)).run_eq hr hunchecked
  have hcount (text n : String) : c.redeclared text n =
      (c.tree text).moduleNames.count n - 1 + (c.tree text).innerRedeclarations.count n :=
    Tree.count_redeclarations (Tree.build_rootD_isScope 0 c.language text.toList) n
  obtain ⟨hiff, hcontent⟩ := modify_checked_iff haction text reserved (r := .plain) rfl
  rw [← hchecked', ← hunchecked'] at hiff hcontent
  simp only [hcount] at hiff
  refine ⟨hiff, fun hsucceeded result hresult hnodup n => ?_⟩
  have hle := (hiff.mp hsucceeded).2 result ((hcontent hsucceeded).symm.trans hresult) n
  have honce := List.nodup_iff_count_le_one.mp hnodup n
  omega

/-- A function that declares a name twice. -/
def nested : String := "function f() \x7b\n  let a = 1;\n  let a = 2;\n\x7d\n"

/-- Its body. -/
def unnested : String := "let a = 1;\nlet a = 2;\n"

/-- Puts the body in place of the function. -/
def unwrapping : FileChange :=
  ⟨"src/a.ts", .modify, [.text (.replace nested unnested)], none, none⟩

/-- The change is carried out although the module declared every name once and now declares one twice,
since the function no longer does. -/
theorem unwrapping_redeclares :
    (((unwrapping.run (.plain true) (some nested) []).run .plain).1.content = some unnested ∧
      (unwrapping.tree nested).moduleNames.Nodup ∧ ¬ (unwrapping.tree unnested).moduleNames.Nodup) ∧
      (unwrapping.tree unnested).moduleNames.count "a" ≤
        1 + ((unwrapping.tree nested).innerRedeclarations.count "a" -
          (unwrapping.tree unnested).innerRedeclarations.count "a") := by
  have hruns :
      (((unwrapping.run (.plain true) (some nested) []).run .plain).1.content = some unnested ∧
        (unwrapping.tree nested).moduleNames.Nodup ∧
        ¬ (unwrapping.tree unnested).moduleNames.Nodup) ∧
      ((unwrapping.run (.plain true) (some nested) []).run .plain).1.succeeded = true := by
    decide +kernel
  obtain ⟨⟨hcontent, hnodup, hrepeated⟩, hsucceeded⟩ := hruns
  obtain ⟨-, hbound⟩ := modify_redeclarations (c := unwrapping) rfl nested [] Reader.exact_plain
    (Reader.discerns_of_uncached rfl _) (Reader.discerns_of_uncached rfl _)
  exact ⟨⟨hcontent, hnodup, hrepeated⟩, hbound hsucceeded unnested hcontent hnodup "a"⟩

end FileChange

end SourceChange
