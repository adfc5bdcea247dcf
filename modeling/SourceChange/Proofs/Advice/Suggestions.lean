import SourceChange.Advice.Analysis
import SourceChange.Proofs.Advice.Blocks
import SourceChange.Proofs.Handles
import SourceChange.Proofs.Text.Words
import SourceChange.Proofs.Traversal

/-!
The suggestions for a file.

The candidates come from three sources, which may find the same block. One set of spans and one table of bases
serve them all, so no two suggestions are about the same part of the file or have the same name. A reason tells
the source of a suggestion, and for a repeated block the number of its copies.
-/

namespace SourceChange

namespace Advice

open Source Syntax

variable {t : Tree} {limits : Limits} {long : Bool} {path base base' : String} {i j k : Nat} {c : Candidate}
  {cs : List Candidate}

/-! ### Names -/

/-- A text that does not end with a digit. -/
def EndsPlainly (cs : List Char) : Prop := ∀ c ∈ cs.getLast?, c.isDigit = false

instance (cs : List Char) : Decidable (EndsPlainly cs) := Option.decidableForallMem cs.getLast?

/-- A base that ends with no digit, so that it can be told from a number behind it. -/
def Unnumbered (base : String) : Prop := base.toList ≠ [] ∧ EndsPlainly base.toList

instance (base : String) : Decidable (Unnumbered base) := inferInstanceAs (Decidable (_ ∧ _))

/-- The number behind a name; the first of a kind has none. -/
def ordinal (index : Nat) : String := if index == 0 then "" else toString (index + 1)

theorem componentName_eq (path base : String) (index : Nat) :
    ∃ front, componentName path base index = front ++ (base ++ ordinal index) ∧
      ∀ base' index', componentName path base' index' = front ++ (base' ++ ordinal index') :=
  ⟨_, String.append_assoc .., fun _ _ => String.append_assoc ..⟩

theorem isDigit_of_mem_ordinal {d : Char} (hd : d ∈ (ordinal i).toList) : d.isDigit = true := by
  rw [ordinal] at hd
  split at hd
  · simp at hd
  · rw [Nat.toString_eq_repr, Nat.toList_repr] at hd
    exact Nat.isDigit_of_mem_toDigits (by decide) (by decide) hd

/-- A number is read back from its digits. -/
theorem toString_nat_inj {m n : Nat} (h : toString m = toString n) : m = n := by
  have hread := congrArg (fun s : String => Nat.ofDigitChars 10 s.toList 0) h
  simpa [Nat.toString_eq_repr, Nat.toList_repr, Nat.ofDigitChars_toDigits] using hread

theorem ordinal_inj (h : ordinal i = ordinal j) : i = j := by
  cases i with
  | zero =>
    cases j with
    | zero => rfl
    | succ j => exact absurd h.symm Nat.repr_ne_empty
  | succ i =>
    cases j with
    | zero => exact absurd h Nat.repr_ne_empty
    | succ j => simpa using toString_nat_inj h

theorem Unnumbered.dropEndWhile (h : Unnumbered base) :
    Text.dropEndWhile Char.isDigit (base ++ ordinal i).toList = base.toList := by
  have hnone : (ordinal i).toList.reverse.dropWhile Char.isDigit = [] :=
    List.dropWhile_eq_nil_iff.mpr fun d hd => isDigit_of_mem_ordinal (List.mem_reverse.mp hd)
  rw [String.toList_append, Text.dropEndWhile_append h.1 h.2, Text.dropEndWhile, hnone, List.reverse_nil,
    List.append_nil]

/-- A name tells its base and its number. -/
theorem componentName_inj (hb : Unnumbered base) (hb' : Unnumbered base')
    (h : componentName path base i = componentName path base' j) : base = base' ∧ i = j := by
  have hrest : (base ++ ordinal i).toList = (base' ++ ordinal j).toList := by
    obtain ⟨front, hname, hname'⟩ := componentName_eq path base i
    rw [hname, hname'] at h
    rw [(String.append_right_inj _).mp h]
  have hbase : base = base' := by
    have hdrop := congrArg (Text.dropEndWhile Char.isDigit) hrest
    rw [hb.dropEndWhile, hb'.dropEndWhile] at hdrop
    exact String.toList_inj.mp hdrop
  subst hbase
  rw [String.toList_append, String.toList_append] at hrest
  exact ⟨rfl, ordinal_inj (String.toList_inj.mp (List.append_cancel_left hrest))⟩

/-! ### Spans and numbers -/

theorem distinctSpans_sublist (seen : List Span) (cs : List Candidate) : (distinctSpans seen cs).Sublist cs := by
  induction cs generalizing seen with
  | nil => exact .slnil
  | cons c cs ih =>
    rw [distinctSpans]
    split
    · exact (ih seen).cons c
    · exact (ih _).cons_cons c

theorem not_mem_of_mem_distinctSpans {seen : List Span} (h : c ∈ distinctSpans seen cs) : c.node.span ∉ seen := by
  induction cs generalizing seen with
  | nil => cases h
  | cons d cs ih =>
    rw [distinctSpans] at h
    split at h
    case isTrue => exact ih h
    case isFalse hnew =>
      obtain rfl | h := List.mem_cons.mp h
      · simpa using hnew
      · exact fun hseen => ih h (List.mem_cons_of_mem _ hseen)

theorem distinctSpans_nodup (seen : List Span) (cs : List Candidate) :
    ((distinctSpans seen cs).map (·.node.span)).Nodup := by
  induction cs generalizing seen with
  | nil => exact .nil
  | cons c cs ih =>
    rw [distinctSpans]
    split
    · exact ih seen
    · refine List.nodup_cons.mpr ⟨fun hmem => ?_, ih _⟩
      obtain ⟨d, hd, heq⟩ := List.mem_map.mp hmem
      exact not_mem_of_mem_distinctSpans hd (heq ▸ List.mem_cons_self)

theorem map_fst_numbered (before : List String) (cs : List Candidate) : (numbered before cs).map (·.1) = cs := by
  induction cs generalizing before with
  | nil => rfl
  | cons c cs ih => rw [numbered, List.map_cons, ih]

theorem count_le_of_mem_numbered {before : List String} {x : Candidate × Nat} (h : x ∈ numbered before cs) :
    before.count x.1.base ≤ x.2 := by
  induction cs generalizing before with
  | nil => cases h
  | cons c cs ih =>
    rw [numbered] at h
    obtain rfl | h := List.mem_cons.mp h
    · exact Nat.le_refl _
    · exact Nat.le_trans (List.count_le_count_cons) (ih h)

/-- Candidates with the same base have different numbers. -/
theorem pairwise_numbered (before : List String) (cs : List Candidate) :
    (numbered before cs).Pairwise fun x y => x.1.base = y.1.base → x.2 ≠ y.2 := by
  induction cs generalizing before with
  | nil => exact .nil
  | cons c cs ih =>
    rw [numbered]
    refine List.pairwise_cons.mpr ⟨fun y hy hbase => ?_, ih _⟩
    have hle := count_le_of_mem_numbered hy
    rw [← hbase, List.count_cons_self] at hle
    exact Nat.ne_of_lt hle

/-! ### Reasons -/

/-- The reason for a block that is too long. -/
def longReason (n : Nat) : String := "JSX block longer than " ++ toString n ++ " lines"

/-- The reason for a block that is repeated. -/
def repeatedReason (n : Nat) : String := "JSX block repeated " ++ toString n ++ " times"

/-- The reason is that a block is repeated. -/
def IsRepeated (reason : String) : Prop := ∃ n, reason = repeatedReason n

theorem repeatedReason_inj (h : repeatedReason i = repeatedReason j) : i = j := by
  have hfront : "JSX block repeated " ++ toString i = "JSX block repeated " ++ toString j :=
    (String.append_left_inj " times").mp h
  exact toString_nat_inj ((String.append_right_inj "JSX block repeated ").mp hfront)

/-- A reason starts with words of its own. -/
theorem take_eq_of_append {a b reason : String} {n : Nat} (hreason : reason = a ++ b) (hn : n ≤ a.toList.length) :
    reason.toList.take n = a.toList.take n := by
  rw [hreason, String.toList_append, List.take_append_of_le_length hn]

theorem take_longReason (n : Nat) : (longReason n).toList.take 11 = "JSX block l".toList :=
  take_eq_of_append (String.append_assoc ..) (by decide)

theorem take_repeatedReason (n : Nat) : (repeatedReason n).toList.take 11 = "JSX block r".toList :=
  take_eq_of_append (String.append_assoc ..) (by decide)

theorem take_reason_ne {s : Section} (hs : s ∈ sections) :
    s.reason.toList.take 11 ≠ "JSX block l".toList ∧ s.reason.toList.take 11 ≠ "JSX block r".toList := by
  have hall : ∀ s ∈ sections, s.reason.toList.take 11 ≠ "JSX block l".toList ∧
      s.reason.toList.take 11 ≠ "JSX block r".toList := by
    decide +kernel
  exact hall s hs

theorem not_isRepeated_longReason (n : Nat) : ¬ IsRepeated (longReason n) := by
  rintro ⟨m, h⟩
  have htake := take_longReason n
  rw [h, take_repeatedReason] at htake
  exact absurd htake (by decide)

theorem not_isRepeated_reason {s : Section} (hs : s ∈ sections) : ¬ IsRepeated s.reason := by
  rintro ⟨m, h⟩
  exact (take_reason_ne hs).2 (h ▸ take_repeatedReason m)

/-! ### Candidates -/

theorem mem_oversized (h : c ∈ oversized t limits) :
    c.node ∈ t.rootD.walk ∧ c.base = "Section" ∧ c.reason = longReason limits.blockLines := by
  obtain ⟨n, hn, rfl⟩ := List.mem_map.mp h
  exact ⟨(Node.outermost_sublist _ _).mem hn, rfl, rfl⟩

theorem mem_duplicated (h : c ∈ duplicated t limits) :
    ∃ n, c.node ∈ longElements t limits ∧ (copies t limits c.node).length = n ∧ 2 ≤ n ∧ c.base = "Block" ∧
      c.reason = repeatedReason n := by
  obtain ⟨x, hx, rfl⟩ := List.mem_map.mp h
  obtain ⟨hmem, hcount, hmany⟩ := copies_of_mem_keepGroups hx
  exact ⟨x.2, hmem, hcount, hmany, rfl, rfl⟩

theorem mem_sectionMatches {s : Section} (h : c ∈ sectionMatches t s) :
    c.node ∈ t.rootD.walk ∧ c.base = s.name ∧ c.reason = s.reason := by
  obtain ⟨n, hn, rfl⟩ := List.mem_map.mp h
  have hfound := (List.mem_filter.mp (List.mem_of_mem_take hn)).1
  exact ⟨(Node.outermost_sublist _ _).mem hfound, rfl, rfl⟩

/-- The candidates that are sections. -/
def sectionCandidates (t : Tree) (long : Bool) : List Candidate :=
  if long then sections.flatMap (sectionMatches t) else []

theorem exists_of_mem_sectionCandidates (h : c ∈ sectionCandidates t long) :
    ∃ s ∈ sections, c ∈ sectionMatches t s := by
  cases long with
  | false => cases h
  | true => exact List.mem_flatMap.mp h

theorem mem_candidates : c ∈ candidates t limits long ↔
    c ∈ oversized t limits ∨ c ∈ duplicated t limits ∨ c ∈ sectionCandidates t long := by
  rw [candidates, List.mem_append, List.mem_append, or_assoc]
  rfl

theorem mem_walk_of_mem_longElements {n : Node} (h : n ∈ longElements t limits) : n ∈ t.rootD.walk :=
  (List.mem_filter.mp h).1

theorem node_mem_of_mem_candidates (h : c ∈ candidates t limits long) : c.node ∈ t.rootD.walk := by
  obtain h | h | h := mem_candidates.mp h
  · exact (mem_oversized h).1
  · obtain ⟨n, hmem, -⟩ := mem_duplicated h
    exact mem_walk_of_mem_longElements hmem
  · obtain ⟨s, -, h⟩ := exists_of_mem_sectionCandidates h
    exact (mem_sectionMatches h).1

theorem unnumbered_of_mem_candidates (h : c ∈ candidates t limits long) : Unnumbered c.base := by
  obtain h | h | h := mem_candidates.mp h
  · rw [(mem_oversized h).2.1]
    decide
  · obtain ⟨n, -, -, -, hbase, -⟩ := mem_duplicated h
    rw [hbase]
    decide
  · obtain ⟨s, hs, h⟩ := exists_of_mem_sectionCandidates h
    have hall : ∀ s ∈ sections, Unnumbered s.name := by decide +kernel
    rw [(mem_sectionMatches h).2.1]
    exact hall s hs

/-- A candidate with the reason that it is repeated is one of the repeated blocks. -/
theorem mem_duplicated_of_isRepeated (h : c ∈ candidates t limits long) (hreason : IsRepeated c.reason) :
    c ∈ duplicated t limits := by
  obtain h | h | h := mem_candidates.mp h
  · exact absurd ((mem_oversized h).2.2 ▸ hreason) (not_isRepeated_longReason _)
  · exact h
  · obtain ⟨s, hs, h⟩ := exists_of_mem_sectionCandidates h
    exact absurd ((mem_sectionMatches h).2.2 ▸ hreason) (not_isRepeated_reason hs)

/-- The repeated blocks stand apart, in the order of the source. -/
theorem pairwise_candidates (ht : t.rootD.Nested) :
    (candidates t limits long).Pairwise fun c d =>
      IsRepeated c.reason → IsRepeated d.reason → c.node.stop ≤ d.node.start := by
  have hduplicated : (duplicated t limits).Pairwise fun c d => c.node.stop ≤ d.node.start :=
    List.pairwise_map.mpr (pairwise_keepGroups_groups ht)
  have hlong {c : Candidate} (h : c ∈ oversized t limits) : ¬ IsRepeated c.reason := by
    rw [(mem_oversized h).2.2]
    exact not_isRepeated_longReason _
  have hsection {c : Candidate} (h : c ∈ sectionCandidates t long) : ¬ IsRepeated c.reason := by
    obtain ⟨s, hs, h⟩ := exists_of_mem_sectionCandidates h
    rw [(mem_sectionMatches h).2.2]
    exact not_isRepeated_reason hs
  rw [candidates, List.append_assoc, List.pairwise_append]
  refine ⟨?_, List.pairwise_append.mpr ⟨?_, ?_, ?_⟩, ?_⟩
  · exact List.pairwise_of_forall_mem_list fun c hc d _ hreason => absurd hreason (hlong hc)
  · exact hduplicated.imp fun h _ _ => h
  · exact List.pairwise_of_forall_mem_list fun c hc d _ hreason => absurd hreason (hsection hc)
  · exact fun c _ d hd _ hreason => absurd hreason (hsection hd)
  · exact fun c hc d _ hreason => absurd hreason (hlong hc)

theorem countP_flatMap_sectionMatches (s : Section) {ss : List Section} (hss : (ss.map (·.reason)).Nodup) :
    (ss.flatMap (sectionMatches t)).countP (·.reason == s.reason) ≤ 3 := by
  induction ss with
  | nil => simp
  | cons s' ss ih =>
    obtain ⟨hnew, hss⟩ := List.nodup_cons.mp hss
    rw [List.flatMap_cons, List.countP_append]
    by_cases hs : s'.reason = s.reason
    · have hrest : (ss.flatMap (sectionMatches t)).countP (·.reason == s.reason) = 0 := by
        refine List.countP_eq_zero.mpr fun c hc => ?_
        obtain ⟨s'', hs'', hc⟩ := List.mem_flatMap.mp hc
        rw [(mem_sectionMatches hc).2.2, beq_iff_eq]
        exact fun heq => hnew (List.mem_map.mpr ⟨s'', hs'', heq.trans hs.symm⟩)
      have hfirst : (sectionMatches t s').length ≤ 3 := by
        rw [sectionMatches, List.length_map]
        exact List.length_take_le 3 _
      have := List.countP_le_length (p := fun c : Candidate => c.reason == s.reason) (l := sectionMatches t s')
      omega
    · have hfirst : (sectionMatches t s').countP (·.reason == s.reason) = 0 := by
        refine List.countP_eq_zero.mpr fun c hc => ?_
        rwa [(mem_sectionMatches hc).2.2, beq_iff_eq]
      have := ih hss
      omega

/-- No kind of section gives more than three candidates. -/
theorem countP_candidates_le {s : Section} (hs : s ∈ sections) :
    (candidates t limits long).countP (·.reason == s.reason) ≤ 3 := by
  have hlong : (oversized t limits).countP (·.reason == s.reason) = 0 := by
    refine List.countP_eq_zero.mpr fun c hc => ?_
    rw [(mem_oversized hc).2.2, beq_iff_eq]
    exact fun heq => (take_reason_ne hs).1 (heq ▸ take_longReason _)
  have hrepeated : (duplicated t limits).countP (·.reason == s.reason) = 0 := by
    refine List.countP_eq_zero.mpr fun c hc => ?_
    obtain ⟨n, -, -, -, -, hreason⟩ := mem_duplicated hc
    rw [hreason, beq_iff_eq]
    exact fun heq => not_isRepeated_reason hs ⟨n, heq.symm⟩
  have hsections : (sectionCandidates t long).countP (·.reason == s.reason) ≤ 3 := by
    cases long with
    | false => exact Nat.zero_le 3
    | true => exact countP_flatMap_sectionMatches s (by decide +kernel)
  rw [candidates, List.countP_append, List.countP_append, hlong, hrepeated]
  rw [sectionCandidates] at hsections
  omega

/-! ### Suggestions -/

/-- What suggestions for the nodes of a tree can be relied on. -/
structure WellFormed (t : Tree) (limits : Limits) (path : String) (found : List (Node × Suggestion)) : Prop where
  mem : ∀ x ∈ found, x.1 ∈ t.rootD.walk
  describes : ∀ x ∈ found, x.2.path = path ∧ (x.2.firstLine, x.2.lastLine) = lineSpan t x.1
  spans : (found.map (·.1.span)).Nodup
  names : (found.map (·.2.component)).Nodup
  sections : ∀ s ∈ sections, found.countP (·.2.reason == s.reason) ≤ 3
  /-- Repeated blocks end before the next one starts. -/
  apart : found.Pairwise fun x y => IsRepeated x.2.reason → IsRepeated y.2.reason → x.1.stop ≤ y.1.start
  /-- A repeated block is one of the long elements with its text, and its reason gives their number. -/
  counts : ∀ x ∈ found, ∀ n, x.2.reason = repeatedReason n →
    x.1 ∈ longElements t limits ∧ (copies t limits x.1).length = n ∧ 2 ≤ n

/-- The suggestions for a tree, each with the node that it is about. -/
def found (t : Tree) (path : String) (limits : Limits) (long : Bool) : List (Node × Suggestion) :=
  (numbered [] (distinctSpans [] (candidates t limits long))).map fun x => (x.1.node, suggestion t path x.1 x.2)

theorem map_snd_found (t : Tree) (path : String) (limits : Limits) (long : Bool) :
    (found t path limits long).map (·.2) = suggestions t path limits long := List.map_map

theorem exists_of_mem_found {x : Node × Suggestion} (h : x ∈ found t path limits long) :
    ∃ c ∈ candidates t limits long, ∃ index, x = (c.node, suggestion t path c index) := by
  obtain ⟨y, hy, rfl⟩ := List.mem_map.mp h
  have hc : y.1 ∈ distinctSpans [] (candidates t limits long) := by
    rw [← map_fst_numbered [] (distinctSpans _ _)]
    exact List.mem_map_of_mem hy
  exact ⟨y.1, (distinctSpans_sublist _ _).mem hc, y.2, rfl⟩

theorem found_wellFormed (ht : t.rootD.Nested) (limits : Limits) (path : String) (long : Bool) :
    WellFormed t limits path (found t path limits long) := by
  -- what does not depend on the numbers holds as of the candidates
  have hcandidates := map_fst_numbered [] (distinctSpans [] (candidates t limits long))
  have hsublist := distinctSpans_sublist [] (candidates t limits long)
  refine ⟨fun x hx => ?_, fun x hx => ?_, ?_, ?_, fun s hs => ?_, ?_, fun x hx n hreason => ?_⟩
  · obtain ⟨c, hc, index, rfl⟩ := exists_of_mem_found hx
    exact node_mem_of_mem_candidates hc
  · obtain ⟨c, -, index, rfl⟩ := exists_of_mem_found hx
    exact ⟨rfl, rfl⟩
  · have hspans := distinctSpans_nodup [] (candidates t limits long)
    rw [← hcandidates, List.map_map] at hspans
    rw [found, List.map_map]
    exact hspans
  · rw [found, List.map_map, List.Nodup, List.pairwise_map]
    refine (pairwise_numbered [] _).imp_of_mem fun {x y} hx hy hdistinct hname => ?_
    have hunnumbered {x : Candidate × Nat} (hx : x ∈ numbered [] (distinctSpans [] (candidates t limits long))) :
        Unnumbered x.1.base :=
      unnumbered_of_mem_candidates (hsublist.mem (hcandidates ▸ List.mem_map_of_mem hx))
    obtain ⟨hbase, hindex⟩ := componentName_inj (hunnumbered hx) (hunnumbered hy) hname
    exact hdistinct hbase hindex
  · have hcount := (hsublist.countP_le (p := (·.reason == s.reason))).trans (countP_candidates_le hs)
    rw [← hcandidates, List.countP_map] at hcount
    rw [found, List.countP_map]
    exact hcount
  · have hapart := (pairwise_candidates ht).sublist hsublist
    rw [← hcandidates, List.pairwise_map] at hapart
    rw [found, List.pairwise_map]
    exact hapart
  · obtain ⟨c, hc, index, rfl⟩ := exists_of_mem_found hx
    have hrepeated : c.reason = repeatedReason n := hreason
    obtain ⟨m, hmem, hlength, hmany, -, hreason'⟩ := mem_duplicated (mem_duplicated_of_isRepeated hc ⟨n, hrepeated⟩)
    obtain rfl := repeatedReason_inj (hrepeated.symm.trans hreason')
    exact ⟨hmem, hlength, hmany⟩

theorem wellFormed_nil (t : Tree) (limits : Limits) (path : String) : WellFormed t limits path [] :=
  ⟨nofun, nofun, .nil, .nil, fun _ _ => Nat.zero_le 3, .nil, nofun⟩

/-- Suggestions are made for a file with elements that parses, and for no other. -/
theorem analyze_run_suggestions (limits : Limits) (path content : String) (r : Reader) :
    ((analyze limits path content).run r).1.suggestions =
      if Language.ofPath path = .tsx ∧ (r.fileTree path .tsx content).1.hasErrors = false then
        suggestions (r.fileTree path .tsx content).1 path limits
          (decide (limits.fileLines < content.toList.count '\n' + 1))
      else [] := by
  by_cases hpath : Language.ofPath path = .tsx
  · rw [analyze, if_neg (by simp [hpath]), Reader.run_bind]
    change (StateT.run (if (r.fileTree path .tsx content).1.hasErrors then _ else _ : StateM Reader Analysis)
      _).1.suggestions = _
    split
    case isTrue herrors =>
      rw [if_neg (by simp [herrors])]
      rfl
    case isFalse hclean =>
      rw [if_pos ⟨hpath, by simpa using hclean⟩]
      rfl
  · rw [analyze, if_pos (by simpa using hpath), if_neg fun h => hpath h.1]
    rfl

/-- What a suggestion says in the words of the program. -/
theorem words_of_mem_suggestions {s : Suggestion} (h : s ∈ suggestions t path limits long) :
    (∃ lines, s.complexity = complexityLabel lines) ∧
      ((∃ n, s.reason = longReason n ∨ s.reason = repeatedReason n) ∨ ∃ kind ∈ sections, s.reason = kind.reason) := by
  rw [← map_snd_found] at h
  obtain ⟨x, hx, rfl⟩ := List.mem_map.mp h
  obtain ⟨c, hc, index, rfl⟩ := exists_of_mem_found hx
  refine ⟨⟨_, rfl⟩, ?_⟩
  change (∃ n, c.reason = longReason n ∨ c.reason = repeatedReason n) ∨ ∃ kind ∈ sections, c.reason = kind.reason
  obtain hc | hc | hc := mem_candidates.mp hc
  · exact .inl ⟨limits.blockLines, .inl (mem_oversized hc).2.2⟩
  · obtain ⟨n, -, -, -, -, hreason⟩ := mem_duplicated hc
    exact .inl ⟨n, .inr hreason⟩
  · obtain ⟨kind, hkind, hc⟩ := exists_of_mem_sectionCandidates hc
    exact .inr ⟨kind, hkind, (mem_sectionMatches hc).2.2⟩

/-- The suggestions for several files are those for each of them. -/
theorem exists_of_mem_suggestAll {files : List (String × String)} {r : Reader} {s : Suggestion}
    (h : s ∈ ((suggestAll limits files).run r).1) : ∃ t path long, s ∈ suggestions t path limits long := by
  rw [suggestAll, Reader.run_bind, Reader.run_pure] at h
  obtain ⟨a, ha, hs⟩ := List.mem_flatMap.mp h
  rw [analyzeAll, Reader.run_bind, Reader.run_pure, List.mem_mergeSort] at ha
  obtain ⟨⟨path, content⟩, -, r', ha⟩ := Reader.exists_of_mem_run_mapM ha
  dsimp only at ha
  rw [ha, analyze_run_suggestions] at hs
  split at hs
  case isTrue => exact ⟨_, path, _, hs⟩
  case isFalse => exact absurd hs List.not_mem_nil

/-- The suggestions for a file are about different parts of it and have different names. No kind of section gives more
than three. The blocks that are said to be repeated stand apart in the source, and each is said to be repeated as many
times as there are long elements with its text, which is twice at least. The tree that is looked at is that of the file,
unless the cache of the reader takes another text for it. -/
theorem analyze_wellFormed (limits : Limits) (path content : String) {r : Reader} (hr : r.Exact) :
    let t := (r.fileTree path .tsx content).1
    (∃ found, ((analyze limits path content).run r).1.suggestions = found.map (·.2) ∧ WellFormed t limits path found) ∧
      ((r.cache.isSome = true → r.TellsApart content) → ∃ version, t = Tree.build version .tsx content.toList) := by
  refine ⟨?_, hr.exists_fileTree_eq path .tsx⟩
  rw [analyze_run_suggestions]
  split
  case isTrue =>
    have hnested := (hr.fileTree_built path .tsx content).regular.nested
    exact ⟨_, (map_snd_found _ _ _ _).symm, found_wellFormed hnested limits path _⟩
  case isFalse => exact ⟨[], rfl, wellFormed_nil _ limits path⟩

/-- A module with two elements that are long and two that are the same. -/
def crowded : String := "f(<b/>, <b/>, <c\n/>, <d\n/>);"

/-- Three blocks of a module, two of them of one kind. -/
theorem analyze_wellFormed_crowded :
    Reader.plain.Exact ∧
      (∃ found, ((analyze ⟨1, 1, 1⟩ "src/app.tsx" crowded).run .plain).1.suggestions = found.map (·.2) ∧
        WellFormed (Reader.plain.fileTree "src/app.tsx" .tsx crowded).1 ⟨1, 1, 1⟩ "src/app.tsx" found) ∧
      ((analyze ⟨1, 1, 1⟩ "src/app.tsx" crowded).run .plain).1.suggestions.map (fun s => (s.component, s.reason)) =
        [("AppSection", "JSX block longer than 1 lines"), ("AppSection2", "JSX block longer than 1 lines"),
          ("AppBlock", "JSX block repeated 2 times")] :=
  ⟨Reader.exact_plain, (analyze_wellFormed ⟨1, 1, 1⟩ "src/app.tsx" crowded Reader.exact_plain).1, by decide +kernel⟩

end Advice

end SourceChange
