import SourceChange.Import.Entry
import SourceChange.Operation.Names
import SourceChange.Proofs.Text.Words
import SourceChange.Source.Import

/-!
The names in import requests.

A valid entry has the words of one binding: a name, or a name and its alias. Whatever blanks stand between
them, the entry is split into these words, and its normal form has single ones.
-/

namespace SourceChange

namespace Text

variable {c : Char}

/-- The code points of blank characters. -/
def blankPoints : List Nat :=
  List.range' 0x09 5 ++ List.range' 0x1C 5 ++ [0x85, 0xA0, 0x1680] ++ List.range' 0x2000 11 ++
    [0x2028, 0x2029, 0x202F, 0x205F, 0x3000]

theorem toNat_mem_blankPoints (h : isBlank c = true) : c.toNat ∈ blankPoints := by
  simp only [isBlank, Bool.or_eq_true, Bool.and_eq_true, decide_eq_true_eq, beq_iff_eq] at h
  simp only [blankPoints, List.mem_append, List.mem_range'_1, List.mem_cons, List.not_mem_nil, or_false]
  omega

end Text

section Names

variable {c : Char} {cs : List Char}

/-- Characters of names are not blank and do not divide the names in a clause. -/
theorem solid_of_name (h : (isNameStart c || isNamePart c) = true) :
    Text.isBlank c = false ∧ c ∉ [',', '\x7b', '\x7d'] := by
  have hblank : ∀ n ∈ Text.blankPoints,
      (isNameStart (Char.ofNat n) || isNamePart (Char.ofNat n)) = false := by
    decide +kernel
  have hmark : ([',', '\x7b', '\x7d'].all fun d => (isNameStart d || isNamePart d) == false) = true := by
    decide +kernel
  constructor
  · by_contra hc
    have hc := hblank c.toNat (Text.toNat_mem_blankPoints (by simpa using hc))
    rw [Char.ofNat_toNat] at hc
    cases h.symm.trans hc
  · intro hc
    cases h.symm.trans (beq_iff_eq.mp (List.all_eq_true.mp hmark c hc))

theorem solid_of_isBareName (h : isBareName cs = true) :
    ∀ c ∈ cs, Text.isBlank c = false ∧ c ∉ [',', '\x7b', '\x7d'] := by
  cases cs with
  | nil => cases h
  | cons c cs =>
    obtain ⟨hc, hcs⟩ := Bool.and_eq_true_iff.mp h
    refine List.forall_mem_cons.mpr ⟨solid_of_name (by simp [hc]), fun d hd => solid_of_name ?_⟩
    simp [List.all_eq_true.mp hcs d hd]

theorem word_of_isBareName (h : isBareName cs = true) : Text.Word cs where
  ne_nil := by
    rintro rfl
    cases h
  solid := fun c hc => (solid_of_isBareName h c hc).1

end Names

namespace Import

open Text

variable {n a u v w : List Char}

theorem cutAs?_of_word (hw : ∀ c ∈ w, isBlank c = false) : cutAs? w = none := by
  induction w with
  | nil => rfl
  | cons c w ih =>
    obtain ⟨hc, hw⟩ := List.forall_mem_cons.mp hw
    simp [cutAs?, hc, ih hw]

theorem cutAs?_append (hw : ∀ c ∈ w, isBlank c = false) :
    cutAs? (w ++ v) = (cutAs? v).map fun x => (w ++ x.1, x.2) := by
  induction w with
  | nil => simp
  | cons c w ih =>
    obtain ⟨hc, hw⟩ := List.forall_mem_cons.mp hw
    rw [List.cons_append, cutAs?]
    simp only [hc, Bool.false_eq_true, if_false, ih hw, Option.map_map]
    rfl

/-- The word between a name and its alias. -/
def asWord : List Char := ['a', 's']

theorem asWord_word : Word asWord := .of_all (by decide) (by decide)

theorem cutAs?_as (hu : Blank u) (hune : u ≠ []) (hv : Blank v) (hvne : v ≠ []) (ha : Word a) :
    cutAs? (u ++ (asWord ++ (v ++ a))) = some ([], a) := by
  obtain ⟨c, u, rfl⟩ := List.exists_cons_of_ne_nil hune
  obtain ⟨d, v, rfl⟩ := List.exists_cons_of_ne_nil hvne
  obtain ⟨hc, hu⟩ := List.forall_mem_cons.mp hu
  obtain ⟨hd, hv⟩ := List.forall_mem_cons.mp hv
  have hfirst : ∀ x ∈ a.head?, isBlank x = false := fun x hx => ha.solid x (List.mem_of_mem_head? hx)
  have hskip : stripStart (u ++ (asWord ++ (d :: v ++ a))) = 'a' :: 's' :: d :: (v ++ a) :=
    stripStart_append hu (by rintro x ⟨⟩; decide)
  rw [List.cons_append, cutAs?]
  simp only [hc, if_true, hskip, hd, stripStart_append hv hfirst]

theorem splitEntry_of_name {s : String} (h : words s.toList = [n]) :
    splitEntry s = (String.ofList n, none) := by
  obtain ⟨u, v, heq, hu, hn, -, hv⟩ := exists_of_words_eq_cons h
  have hstrip : strip s.toList = n := by
    have hlast : ∀ c ∈ (n ++ []).getLast?, isBlank c = false := by
      rw [List.append_nil]
      exact hn.getLast?
    have hstrip := strip_append hu (blank_of_words_eq_nil hv) hn hlast
    rwa [List.append_nil, ← heq] at hstrip
  rw [splitEntry, hstrip]
  simp only [cutAs?_of_word hn.solid]

theorem splitEntry_of_alias {s : String} (h : words s.toList = [n, asWord, a]) :
    splitEntry s = (String.ofList n, if a = n then none else some (String.ofList a)) := by
  obtain ⟨u, v, heq, hu, hn, hbreak, hv⟩ := exists_of_words_eq_cons h
  obtain ⟨g, v', rfl, hg, has, hbreak', hv'⟩ := exists_of_words_eq_cons hv
  obtain ⟨g', v, rfl, hg', ha, -, hv⟩ := exists_of_words_eq_cons hv'
  have hgne : g ≠ [] := by
    rintro rfl
    cases hbreak 'a' rfl
  have hgne' : g' ≠ [] := by
    rintro rfl
    obtain ⟨c, a, rfl⟩ := List.exists_cons_of_ne_nil ha.ne_nil
    cases (hbreak' c rfl).symm.trans (ha.solid c List.mem_cons_self)
  have hstrip : strip s.toList = n ++ (g ++ (asWord ++ (g' ++ a))) := by
    have hlast : ∀ c ∈ (n ++ (g ++ (asWord ++ (g' ++ a)))).getLast?, isBlank c = false := by
      simp only [← List.append_assoc]
      exact ha.getLast?_append _
    rw [heq, ← strip_append hu (blank_of_words_eq_nil hv) hn hlast]
    simp only [List.append_assoc]
  rw [splitEntry, hstrip]
  simp only [cutAs?_append hn.solid, cutAs?_as hg hgne hg' hgne' ha, Option.map_some, List.append_nil]
  simp

open Source

/-- The binding of an entry in braces. -/
def namedOf (entry : String) : ImportedName := ⟨(splitEntry entry).1, (splitEntry entry).2, .named⟩

/-- A binding of a name, or of a name under another one. -/
structure IsBare (b : ImportedName) : Prop where
  name : isBareName b.name.toList = true
  newName : ∀ a ∈ b.newName, isBareName a.toList = true ∧ a ≠ b.name

variable {s : String} {b : ImportedName}

theorem cases_of_isImportEntry (h : isImportEntry s = true) :
    (∃ n, words s.toList = [n] ∧ isBareName n = true) ∨
      ∃ n a, words s.toList = [n, asWord, a] ∧ isBareName n = true ∧ isBareName a = true := by
  unfold isImportEntry at h
  split at h
  case h_1 n hwords => exact .inl ⟨n, hwords, h⟩
  case h_2 n as a hwords =>
    simp only [Bool.and_eq_true, beq_iff_eq] at h
    obtain ⟨⟨hn, rfl⟩, ha⟩ := h
    exact .inr ⟨n, a, hwords, hn, ha⟩
  case h_3 => cases h

/-- A name that is given itself as an alias has none. -/
theorem namedOf_of_alias (h : words s.toList = [n, asWord, a]) :
    namedOf s = if a = n then ⟨String.ofList n, none, .named⟩ else
      ⟨String.ofList n, some (String.ofList a), .named⟩ := by
  rw [namedOf, splitEntry_of_alias h]
  split <;> rfl

theorem namedOf_of_name (h : words s.toList = [n]) : namedOf s = ⟨String.ofList n, none, .named⟩ := by
  rw [namedOf, splitEntry_of_name h]

theorem isBare_of_name (hn : isBareName n = true) : IsBare ⟨String.ofList n, none, .named⟩ where
  name := by rwa [String.toList_ofList]
  newName := nofun

theorem isBare_namedOf (h : isImportEntry s = true) : IsBare (namedOf s) := by
  obtain ⟨n, hwords, hn⟩ | ⟨n, a, hwords, hn, ha⟩ := cases_of_isImportEntry h
  · rw [namedOf_of_name hwords]
    exact isBare_of_name hn
  · rw [namedOf_of_alias hwords]
    split
    case isTrue => exact isBare_of_name hn
    case isFalse hne =>
      refine ⟨by rwa [String.toList_ofList], fun b hb => ?_⟩
      cases hb
      exact ⟨by rwa [String.toList_ofList], fun heq => hne (String.ofList_injective heq)⟩

theorem ne_empty_of_isBareName (h : isBareName s.toList = true) : s ≠ "" := by
  rintro rfl
  cases h

/-- The normal form of an entry is the written form of its binding. -/
theorem normalEntry_eq (h : IsBare (namedOf s)) : normalEntry s = (namedOf s).entry := by
  have hname := ne_empty_of_isBareName h.name
  have hnew := h.newName
  unfold normalEntry
  unfold namedOf at hname hnew ⊢
  revert hname hnew
  cases splitEntry s with
  | mk name newName =>
    intro hname hnew
    cases newName with
    | none => simp [hname, Text.join, ImportedName.entry]
    | some a =>
      have ha := ne_empty_of_isBareName (hnew a rfl).1
      simp [hname, ha, Text.join, ImportedName.entry]

theorem localName_eq (h : IsBare (namedOf s)) : localName s = (namedOf s).localName := by
  have hnew := h.newName
  unfold localName
  unfold namedOf at hnew ⊢
  revert hnew
  cases splitEntry s with
  | mk name newName =>
    intro hnew
    cases newName with
    | none => rfl
    | some a =>
      have ha := ne_empty_of_isBareName (hnew a rfl).1
      simp [ha, ImportedName.localName]

theorem words_entry (h : IsBare b) :
    words b.entry.toList =
      match b.newName with
      | none => [b.name.toList]
      | some a => [b.name.toList, asWord, a.toList] := by
  have hname := word_of_isBareName h.name
  rw [ImportedName.entry]
  cases hnew : b.newName with
  | none => exact words_of_word hname
  | some a =>
    have ha := word_of_isBareName (h.newName a hnew).1
    have htext : (b.name ++ " as " ++ a).toList =
        b.name.toList ++ (' ' :: (asWord ++ (' ' :: a.toList))) := by
      simp [asWord]
    have hspace {x : List Char} : Breaks (' ' :: x) := by
      rintro c ⟨⟩
      decide
    dsimp only
    rw [htext, words_append_of_word hname hspace, words_cons_of_blank (by decide),
      words_append_of_word asWord_word hspace, words_cons_of_blank (by decide), words_of_word ha]

theorem namedOf_entry (h : IsBare b) (hform : b.form = .named) : namedOf b.entry = b := by
  have hwords := words_entry h
  obtain ⟨name, newName, form⟩ := b
  cases hform
  cases newName with
  | none =>
    rw [namedOf_of_name hwords, String.ofList_toList]
  | some a =>
    have hne := (h.newName a rfl).2
    rw [namedOf_of_alias hwords, if_neg fun heq => hne (String.toList_injective heq)]
    simp

/-- An identifier is a name, or a name and a line feed. -/
theorem exists_of_isIdentifier (h : isIdentifier s = true) :
    ∃ v, Blank v ∧ isBareName (stripped s).toList = true ∧ s.toList = (stripped s).toList ++ v := by
  have hname {w v : List Char} (hw : isBareName w = true) (hv : Blank v) (heq : s.toList = w ++ v) :
      ∃ v, Blank v ∧ isBareName (stripped s).toList = true ∧ s.toList = (stripped s).toList ++ v := by
    have hlast : ∀ c ∈ (w ++ []).getLast?, isBlank c = false := by
      rw [List.append_nil]
      exact (word_of_isBareName hw).getLast?
    have hstrip := strip_append blank_nil hv (word_of_isBareName hw) hlast
    rw [List.append_nil, List.nil_append, ← heq] at hstrip
    refine ⟨v, hv, ?_, ?_⟩ <;> rw [stripped, hstrip, String.toList_ofList]
    · exact hw
    · exact heq
  obtain h | h := Bool.or_eq_true_iff.mp h
  · exact hname h blank_nil (List.append_nil _).symm
  · obtain ⟨hlast, h⟩ := Bool.and_eq_true_iff.mp h
    obtain ⟨w, hw⟩ := List.getLast?_eq_some_iff.mp (beq_iff_eq.mp hlast)
    rw [hw, List.dropLast_concat] at h
    exact hname h (List.forall_mem_singleton.mpr (by decide)) hw

end Import

end SourceChange
