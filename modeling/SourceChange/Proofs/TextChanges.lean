import Mathlib.Data.List.Infix
import SourceChange.Proofs.Except
import SourceChange.Proofs.FileRun.Outcome

/-!
Changes of plain text.

A text is split at the first occurrence of a pattern if the pattern occurs only once, at the end, in what ends with
it. There is at most one such split, `cut?` finds it, and it finds none only where the pattern does not occur.

A change at a pattern edits the first occurrence and nothing else, and fails only where there is none. It does not
look at the path or at the syntax of the file, so the changes of a file leave the same text in every language; the
checks of a language refuse some results and change none.
-/

namespace SourceChange

namespace Text

variable {c : Char} {pat cs u v x y : List Char}

/-- A split of a text at the first occurrence of a pattern: up to its end, the pattern occurs nowhere else. -/
structure SplitsFirst (pat cs u v : List Char) : Prop where
  whole : cs = u ++ pat ++ v
  first : ∀ x y, u ++ pat = x ++ pat ++ y → y = []

/-- An occurrence that ends earlier would be the first one. -/
theorem SplitsFirst.eq_of_prefix (h : SplitsFirst pat cs x y) (hu : u ++ pat <+: x ++ pat) : u = x := by
  obtain ⟨z, hz⟩ := hu
  obtain rfl := h.first u z hz.symm
  rw [List.append_nil] at hz
  exact List.append_cancel_right hz

theorem SplitsFirst.unique (h : SplitsFirst pat cs u v) (h' : SplitsFirst pat cs x y) : u = x ∧ v = y := by
  have hsplit : u ++ pat ++ v = x ++ pat ++ y := h.whole.symm.trans h'.whole
  have hu : u = x := by
    obtain hle | hle := List.prefix_or_prefix_of_prefix (List.prefix_append (u ++ pat) v)
      (hsplit ▸ List.prefix_append (x ++ pat) y)
    · exact h'.eq_of_prefix hle
    · exact (h.eq_of_prefix hle).symm
  rw [hu] at hsplit
  exact ⟨hu, List.append_cancel_left hsplit⟩

theorem splitsFirst_of_prefix (h : pat <+: cs) : SplitsFirst pat cs [] (cs.drop pat.length) := by
  refine ⟨?_, fun x y hxy => ?_⟩
  · rw [List.nil_append]
    exact (List.prefix_iff_eq_append.mp h).symm
  · have hlength := congrArg List.length hxy
    simp only [List.nil_append, List.length_append] at hlength
    exact List.length_eq_zero_iff.mp (by omega)

theorem SplitsFirst.cons (h : SplitsFirst pat cs u v) (hc : ¬ pat <+: c :: cs) :
    SplitsFirst pat (c :: cs) (c :: u) v := by
  refine ⟨congrArg (c :: ·) h.whole, fun x y hxy => ?_⟩
  cases x with
  | nil =>
    refine absurd ?_ hc
    rw [h.whole]
    have hfront : pat <+: c :: (u ++ pat) := ⟨y, hxy.symm⟩
    exact hfront.trans (List.prefix_append (c :: (u ++ pat)) v)
  | cons d x => exact h.first x y (List.cons.inj hxy).2

theorem splitsFirst_of_cut? (h : cut? pat cs = some (u, v)) : SplitsFirst pat cs u v := by
  induction cs generalizing u with
  | nil =>
    rw [cut?] at h
    split at h
    case isTrue hempty =>
      cases h
      obtain rfl := List.isEmpty_iff.mp hempty
      exact splitsFirst_of_prefix (List.prefix_refl [])
    case isFalse => cases h
  | cons c cs ih =>
    rw [cut?] at h
    split at h
    case isTrue hpat =>
      cases h
      exact splitsFirst_of_prefix (List.isPrefixOf_iff_prefix.mp hpat)
    case isFalse hpat =>
      obtain ⟨⟨u', v'⟩, hcs, huv⟩ := Option.map_eq_some_iff.mp h
      cases huv
      exact (ih hcs).cons (mt List.isPrefixOf_iff_prefix.mpr hpat)

theorem cut?_eq_none_iff : cut? pat cs = none ↔ ¬ pat <:+: cs := by
  induction cs with
  | nil => simp [cut?]
  | cons c cs ih =>
    rw [cut?, List.infix_cons_iff, ← List.isPrefixOf_iff_prefix]
    split
    case isTrue hpat => simp [hpat]
    case isFalse hpat => simp [hpat, ih]

/-- A text is cut at the first occurrence of a pattern. -/
theorem cut?_eq_some_iff : cut? pat cs = some (u, v) ↔ SplitsFirst pat cs u v := by
  refine ⟨splitsFirst_of_cut?, fun h => ?_⟩
  cases hcut : cut? pat cs with
  | none => exact absurd ⟨u, v, h.whole.symm⟩ (cut?_eq_none_iff.mp hcut)
  | some w =>
    obtain ⟨rfl, rfl⟩ := (splitsFirst_of_cut? hcut).unique h
    rfl

end Text

open Source

namespace TextChange

variable {change : TextChange} {changes : List TextChange} {s t t' u v : String}

/-- The pattern that a change looks for; appending looks for none. -/
def pattern? : TextChange → Option String
  | insertBefore s _ | insertAfter s _ | replace s _ | delete s => some s
  | append _ => none

/-- A content with a line feed behind it, unless it is empty or ends with one. -/
def fedBehind (content : String) : String :=
  if content = "" ∨ content.toList.getLast? = some '\n' then content else content ++ "\n"

/-- A content with a line feed before it, unless it is empty or starts with one. -/
def fedBefore (content : String) : String :=
  if content = "" ∨ content.toList.head? = some '\n' then content else "\n" ++ content

/-- What a change makes of a text with the given parts before and after its pattern. -/
def rewritten (u v : String) : TextChange → String
  | insertBefore s content => u ++ fedBehind content ++ s ++ v
  | insertAfter s content => u ++ s ++ fedBefore content ++ v
  | replace _ replacement => u ++ replacement ++ v
  | delete _ => u ++ v
  | append content => u ++ content ++ v

/-- A split of a text at the first occurrence of a pattern. -/
abbrev SplitsAt (s t u v : String) : Prop := Text.SplitsFirst s.toList t.toList u.toList v.toList

theorem withFinalNewline_eq (content : String) : Text.withFinalNewline content = fedBehind content := by
  have hend : Text.hasEnd content "\n" = true ↔ content.toList.getLast? = some '\n' := by
    rw [← List.head?_reverse, Text.hasEnd, Text.endsWith, List.isPrefixOf_iff_prefix]
    cases content.toList.reverse <;> simp [eq_comm]
  simp only [Text.withFinalNewline, fedBehind, Bool.or_eq_true, beq_iff_eq, hend]

theorem withNewlineBefore_eq (content : String) : withNewlineBefore content = fedBefore content := by
  have hstart : Text.hasStart content "\n" = true ↔ content.toList.head? = some '\n' := by
    rw [Text.hasStart, List.isPrefixOf_iff_prefix]
    cases content.toList <;> simp [eq_comm]
  simp only [withNewlineBefore, fedBefore, Bool.or_eq_true, beq_iff_eq, hstart]

theorem around_eq_ok_iff : around t s = .ok (u, v) ↔ SplitsAt s t u v := by
  rw [SplitsAt, ← Text.cut?_eq_some_iff, around]
  split
  case h_1 u' v' hcut =>
    rw [hcut, Except.ok.injEq, Prod.mk.injEq, Option.some.injEq, Prod.mk.injEq, ← String.toList_inj,
      ← String.toList_inj, String.toList_ofList, String.toList_ofList]
  case h_2 hcut => simp [hcut]

theorem around_eq_error_iff : around t s = .error (.textNotFound s) ↔ ¬ s.toList <:+: t.toList := by
  rw [← Text.cut?_eq_none_iff, around]
  split
  case h_1 hcut => simp [hcut]
  case h_2 hcut => simp [hcut]

/-- A pattern that occurs, occurs first at exactly one place. -/
theorem existsUnique_splitsAt (h : s.toList <:+: t.toList) : ∃! w : String × String, SplitsAt s t w.1 w.2 := by
  cases haround : around t s with
  | error e =>
    rw [around] at haround
    split at haround
    case h_1 => cases haround
    case h_2 hcut => exact absurd h (Text.cut?_eq_none_iff.mp hcut)
  | ok w =>
    have hsplit : SplitsAt s t w.1 w.2 := around_eq_ok_iff.mp haround
    refine ⟨w, hsplit, fun w' h' => ?_⟩
    obtain ⟨hu, hv⟩ := h'.unique hsplit
    exact Prod.ext (String.toList_inj.mp hu) (String.toList_inj.mp hv)

/-- A change starts by looking for its pattern, and goes on with what is around it. -/
theorem applied_eq (hs : change.pattern? = some s) (t : String) :
    change.applied t = (around t s).map fun w => change.rewritten w.1 w.2 := by
  cases change with
  | append => cases hs
  | insertBefore =>
    cases hs
    simp only [applied, withFinalNewline_eq]
    cases around t s <;> rfl
  | insertAfter =>
    cases hs
    simp only [applied, withNewlineBefore_eq]
    cases around t s <;> rfl
  | replace =>
    cases hs
    simp only [applied]
    cases around t s <;> rfl
  | delete =>
    cases hs
    simp only [applied]
    cases around t s <;> rfl

/-- What a change makes of a text: at a pattern it edits the first occurrence, and it appends at the end. -/
inductive Rewrites : TextChange → String → String → Prop where
  | first {change : TextChange} {s t u v : String} (hs : change.pattern? = some s) (hsplit : SplitsAt s t u v) :
    Rewrites change t (change.rewritten u v)
  | append (content t : String) : Rewrites (.append content) t (appended t content)

theorem applied_eq_ok_iff : change.applied t = .ok t' ↔ change.Rewrites t t' := by
  cases hs : change.pattern? with
  | none =>
    cases change with
    | append content =>
      refine ⟨fun h => ?_, fun h => ?_⟩
      · cases h
        exact .append content t
      · cases h with
        | first hpattern => cases hpattern
        | append => rfl
    | insertBefore | insertAfter | replace | delete => cases hs
  | some s =>
    rw [applied_eq hs]
    constructor
    · intro h
      obtain ⟨w, haround, rfl⟩ := map_eq_ok_iff.mp h
      exact .first hs (around_eq_ok_iff.mp haround)
    · intro h
      cases h with
      | first hpattern hsplit =>
        cases hs.symm.trans hpattern
        rw [around_eq_ok_iff.mpr hsplit]
        rfl
      | append => cases hs

/-- What changes make of a text, one after the other. -/
inductive RewritesAll : List TextChange → String → String → Prop where
  | nil (t : String) : RewritesAll [] t t
  | snoc {changes : List TextChange} {change : TextChange} {t t' t'' : String} (hbefore : RewritesAll changes t t')
      (hlast : change.Rewrites t' t'') : RewritesAll (changes ++ [change]) t t''

/-- A change looks at nothing but the text of a draft, and reads nothing. -/
theorem apply_on (change : TextChange) (d : Draft) (r : Reader) :
    ((Operation.text change).apply d).on r =
      ((change.applied d.text).map fun t => .plain t change.summary, r) := by
  have hplain : (Operation.text change).isStructural = false := by cases change <;> rfl
  rw [Operation.apply, hplain, Bool.false_and, if_neg Bool.false_ne_true]
  refine (Reading.on_liftM (change.apply d) r).trans ?_
  rw [TextChange.apply]
  cases change.applied d.text <;> rfl

end TextChange

namespace FileChange

open TextChange

variable {c : FileChange} {mode : RunMode} {reserved : List String} {text : String} {r r₁ : Reader} {n : Nat}
  {p : Progress} {changes : List TextChange}

/-- Changes of text make of a text what they would make of it at any other path, and create nothing. -/
theorem Carried.rewrites (h : c.Carried mode reserved text r₁ n p r) (hchanges : c.operations = changes.map .text) :
    RewritesAll (changes.take n) text p.text ∧ p.created = [] ∧
      ∀ path reserved' s, ({ c with path }).Carried mode reserved' text s n p s := by
  induction h with
  | start => exact ⟨.nil text, rfl, fun _ _ _ => .start⟩
  | @next n p r r' op o _ hop hcalm happly _ ih =>
    obtain ⟨hbefore, hcreated, hother⟩ := ih
    have hop' := hop
    rw [hchanges, List.getElem?_map] at hop'
    obtain ⟨change, hchange, rfl⟩ := Option.map_eq_some_iff.mp hop'
    rw [apply_on, Prod.mk.injEq] at happly
    obtain ⟨t, ht, rfl⟩ := map_eq_ok_iff.mp happly.1
    refine ⟨?_, by simp [hcreated, Outcome.plain], fun path reserved' s => ?_⟩
    · rw [List.take_add_one, hchange]
      exact .snoc hbefore (applied_eq_ok_iff.mp ht)
    · have happly' : ((Operation.text change).apply ⟨path, .ofPath path, p.text⟩).on s =
          (.ok (.plain t change.summary), s) := by
        rw [apply_on, ht]
        rfl
      exact .next (hother path reserved' s) hop hcalm happly' nofun

end FileChange

namespace TextChange

/-- A change at a pattern fails with a pattern that is not found iff it does not occur. Otherwise there is exactly one
split of the text at the first occurrence, and the change puts its content in front of it, behind it or in its place,
whatever the file is. Changes of text that are carried out one after the other leave the same text at a path of plain
text, where nothing is checked. -/
theorem edits_first_occurrence :
    (∀ (change : TextChange) (s : String), change.pattern? = some s → ∀ (d : Draft) (r : Reader),
      ((∃ e, e.kind = .patternNotFound ∧ (((Operation.text change).apply d).on r).1 = .error e) ↔
        ¬ s.toList <:+: d.text.toList) ∧
      (s.toList <:+: d.text.toList → ∃! w : String × String, SplitsAt s d.text w.1 w.2) ∧
      ∀ u v, SplitsAt s d.text u v →
        ((Operation.text change).apply d).on r = (.ok (.plain (change.rewritten u v) change.summary), r)) ∧
    ∀ (c : FileChange) (changes : List TextChange) (mode : RunMode) (start : Option String)
      (reserved reserved' : List String) (r r' : Reader) (path : String),
      c.operations = changes.map .text → Language.ofPath path = .plaintext →
      let o := ((c.run mode start reserved).run r).1
      let plain := ((({ c with path }).run mode start reserved').run r').1
      o.succeeded = true →
        plain.succeeded = true ∧ plain.content = o.content ∧
          (c.action ≠ .delete → ∃ t, o.content = some t ∧ RewritesAll changes (c.input start) t) := by
  constructor
  · intro change s hs d r
    rw [apply_on, applied_eq hs]
    refine ⟨?_, existsUnique_splitsAt, fun u v hsplit => ?_⟩
    · rw [← around_eq_error_iff]
      constructor
      · rintro ⟨e, -, he⟩
        rw [around] at he ⊢
        split
        case h_1 hcut => simp [hcut, Except.map] at he
        case h_2 => rfl
      · intro h
        exact ⟨_, rfl, by rw [h]; rfl⟩
    · rw [around_eq_ok_iff.mpr hsplit]
      rfl
  · intro c changes mode start reserved reserved' r r' path hchanges hpath o plain hsucceeded
    obtain ⟨hpayload, hdelete, hpresence, hcompletes⟩ := (c.run_succeeded_iff mode start reserved r).mp hsucceeded
    by_cases haction : c.action = .delete
    · have hplain : plain.succeeded = true := (FileChange.run_succeeded_iff _ mode start reserved' r').mpr
        ⟨hpayload, hdelete, hpresence, fun h => absurd haction h⟩
      have hcontent : plain.content = none := FileChange.run_content_of_delete haction
      exact ⟨hplain, hcontent.trans (FileChange.run_content_of_delete haction).symm, fun h => absurd haction h⟩
    · obtain ⟨p, hp⟩ := hcompletes haction
      obtain ⟨before, r₁, r₂, hbegins, hcarried, hpasses⟩ := id hp
      obtain ⟨hrewrites, hcreated, hother⟩ := hcarried.rewrites hchanges
      have hplain : ({ c with path } : FileChange).Completes mode start reserved' r' p :=
        ⟨none, r', r', ⟨hpayload, haction, hpresence, .plain hpath⟩, hother path reserved' r',
          fun hlanguage => absurd hpath hlanguage, by simp [hcreated]⟩
      have ho : o.content = some p.text := congrArg FileOutcome.content hp.run_eq
      have hcontent : plain.content = some p.text := congrArg FileOutcome.content hplain.run_eq
      have hall : changes.take c.operations.length = changes := by simp [hchanges]
      have hrun : plain = _ := hplain.run_eq
      refine ⟨?_, hcontent.trans ho.symm, fun _ => ⟨p.text, ho, hall ▸ hrewrites⟩⟩
      rw [hrun]
      rfl

/-- A pattern whose occurrences overlap, in a text that does not parse. -/
def overlapping : Draft := ⟨"src/a.tsx", .tsx, "(ababa"⟩

/-- Changes of a module that does not parse between them. -/
def reopened : FileChange :=
  ⟨"src/a.tsx", .modify, [.text (.replace "f()" "g("), .text (.insertAfter "g(" "1);")], none, none⟩

/-- The first of two occurrences that overlap goes, and a module is rewritten as plain text would be. -/
theorem edits_first_occurrence_overlapping :
    (((Operation.text (.delete "aba")).apply overlapping).on .plain).1 = .ok (.plain "(ba" "Deleted 'aba'") ∧
      ((({ reopened with path := "notes.txt" }).run (.plain true) (some "f();f();") []).run .plain).1.content =
        some "g(\n1);;f();" := by
  have hsplit : SplitsAt "aba" overlapping.text "(" "ba" := Text.cut?_eq_some_iff.mp (by decide)
  have hruns : ((reopened.run (.plain true) (some "f();f();") []).run .plain).1.succeeded = true ∧
      ((reopened.run (.plain true) (some "f();f();") []).run .plain).1.content = some "g(\n1);;f();" := by
    decide +kernel
  obtain ⟨-, -, hdeleted⟩ := edits_first_occurrence.1 (.delete "aba") "aba" rfl overlapping .plain
  obtain ⟨-, hplain, -⟩ := edits_first_occurrence.2 reopened [.replace "f()" "g(", .insertAfter "g(" "1);"]
    (.plain true) (some "f();f();") [] [] .plain .plain "notes.txt" rfl (by decide +kernel) hruns.1
  have hsummary : (delete "aba").summary = "Deleted 'aba'" := by decide +kernel
  refine ⟨?_, hplain.trans hruns.2⟩
  rw [hdeleted "(" "ba" hsplit, hsummary]
  rfl

end TextChange

end SourceChange
