import SourceChange.Import.Plan
import SourceChange.Proofs.Import.Entries

/-!
The bindings that the text of an import clause stands for.

`readClause` reads a text that stands within a clause, in braces or not: commas and braces divide it into
parts, and each part is one binding or blank. What is rendered for the bindings of a request is read as
these bindings.
-/

namespace SourceChange.Import

open Source Text

/-- Whether names stand in braces after a mark of a clause. Other characters are no marks. -/
def after? (inBraces : Bool) : Char → Option Bool
  | ',' => some inBraces
  | '\x7b' => some true
  | '\x7d' => some false
  | _ => none

/-- Reads the words between two marks: none, or those of one binding. -/
def readWords : Bool → List (List Char) → Option (List ImportedName)
  | _, [] => some []
  | true, [n] => if isBareName n then some [⟨String.ofList n, none, .named⟩] else none
  | true, [n, as, a] =>
    if isBareName n && as == asWord && isBareName a then
      some [⟨String.ofList n, some (String.ofList a), .named⟩]
    else none
  | false, [n] => if isBareName n then some [⟨String.ofList n, none, .default⟩] else none
  | false, [star, as, n] =>
    if star == ['*'] && as == asWord && isBareName n then
      some [⟨String.ofList n, none, .namespace⟩]
    else none
  | _, _ => none

/-- Reads the rest of a clause after the characters of a part. -/
def readFrom (inBraces : Bool) (part : List Char) : List Char → Option (List ImportedName)
  | [] => readWords inBraces (words part)
  | c :: cs =>
    match after? inBraces c with
    | some braces => do return (← readWords inBraces (words part)) ++ (← readFrom braces [] cs)
    | none => readFrom inBraces (part ++ [c]) cs

/-- The bindings that a text stands for within a clause, unless it is no list of bindings. -/
def readClause (inBraces : Bool) (text : String) : Option (List ImportedName) :=
  readFrom inBraces [] text.toList

example : readClause false "React, \x7b useState, useMemo as memo \x7d" =
    some [⟨"React", none, .default⟩, ⟨"useState", none, .named⟩, ⟨"useMemo", some "memo", .named⟩] := by
  decide +kernel

variable {b b' : Bool} {c : Char} {cs p v : List Char} {xs ys : List ImportedName}

/-- A text that goes on after a complete part. -/
def Continues (b : Bool) (cs : List Char) (ys : List ImportedName) : Prop :=
  ∀ part xs, readWords b (words part) = some xs → readFrom b part cs = some (xs ++ ys)

theorem continues_nil (b : Bool) : Continues b [] [] := fun part xs h => by
  rw [readFrom, h, List.append_nil]

theorem continues_mark (hc : after? b c = some b') (h : readFrom b' [] cs = some ys) :
    Continues b (c :: cs) ys := fun part xs hpart => by
  rw [readFrom, hc]
  simp only [hpart, h, bind, Option.bind, pure]

theorem Continues.readFrom (h : Continues b cs ys) : readFrom b [] cs = some ys :=
  h [] [] (by cases b <;> rfl)

theorem readFrom_append (hp : ∀ c ∈ p, after? b c = none) (part : List Char) :
    readFrom b part (p ++ cs) = readFrom b (part ++ p) cs := by
  induction p generalizing part with
  | nil => rw [List.nil_append, List.append_nil]
  | cons c p ih =>
    obtain ⟨hc, hp⟩ := List.forall_mem_cons.mp hp
    rw [List.cons_append, readFrom, hc]
    dsimp only
    rw [ih hp, List.append_assoc, List.singleton_append]

theorem after?_eq_none (hc : c ∉ [',', '\x7b', '\x7d']) : after? b c = none := by
  unfold after?
  split
  case h_4 => rfl
  all_goals exact absurd (by decide) hc

theorem after?_of_isBlank (hc : isBlank c = true) : after? b c = none := by
  refine after?_eq_none fun hmem => ?_
  have hmarks : ([',', '\x7b', '\x7d'].all fun d => isBlank d == false) = true := by decide
  cases hc.symm.trans (beq_iff_eq.mp (List.all_eq_true.mp hmarks c hmem))

/-- Blanks may follow a part. -/
theorem Continues.blank (h : Continues b cs ys) (hv : Blank v) : Continues b (v ++ cs) ys :=
  fun part xs hpart => by
    rw [readFrom_append fun c hc => after?_of_isBlank (hv c hc)]
    exact h _ xs (by rwa [words_append_blank hv])

theorem readFrom_part (hp : ∀ c ∈ p, after? b c = none) (hread : readWords b (words p) = some xs)
    (h : Continues b cs ys) : readFrom b [] (p ++ cs) = some (xs ++ ys) := by
  rw [readFrom_append hp]
  exact h _ xs hread

theorem after?_of_all (h : (cs.all fun c => (after? b c).isNone) = true) :
    ∀ c ∈ cs, after? b c = none :=
  fun c hc => Option.isNone_iff_eq_none.mp (List.all_eq_true.mp h c hc)

theorem after?_of_isBareName (hp : isBareName p = true) : ∀ c ∈ p, after? b c = none :=
  fun c hc => after?_eq_none (solid_of_isBareName hp c hc).2

section Named

/-- The bindings that may stand in braces. -/
structure IsNamed (x : ImportedName) : Prop extends IsBare x where
  form : x.form = .named

variable {x : ImportedName}

theorem after?_of_entry (hx : IsBare x) : ∀ c ∈ x.entry.toList, after? b c = none := by
  rw [ImportedName.entry]
  cases hnew : x.newName with
  | none => exact after?_of_isBareName hx.name
  | some a =>
    have hspaced : ∀ c ∈ " as ".toList, after? b c = none := after?_of_all (by cases b <;> decide)
    simp only [String.toList_append, List.forall_mem_append]
    exact ⟨⟨after?_of_isBareName hx.name, hspaced⟩, after?_of_isBareName (hx.newName a hnew).1⟩

theorem readWords_entry (hx : IsNamed x) : readWords true (words x.entry.toList) = some [x] := by
  rw [words_entry hx.toIsBare]
  obtain ⟨⟨hname, hnew⟩, hform⟩ := hx
  obtain ⟨name, newName, form⟩ := x
  cases hform
  cases newName with
  | none => simp only [readWords, hname, if_true, String.ofList_toList]
  | some a =>
    have ha := (hnew a rfl).1
    simp only [readWords, hname, ha, beq_self_eq_true, Bool.and_self, if_true, String.ofList_toList]

/-- Names in braces that others follow. -/
theorem continues_names {gap : List Char} (hgap : Blank gap) (hxs : ∀ x ∈ xs, IsNamed x)
    (h : Continues true cs ys) :
    Continues true (xs.flatMap (fun x => ',' :: (gap ++ x.entry.toList)) ++ cs) (xs ++ ys) := by
  induction xs with
  | nil => exact h
  | cons x xs ih =>
    obtain ⟨hx, hxs⟩ := List.forall_mem_cons.mp hxs
    have hmark : after? true ',' = some true := rfl
    rw [List.flatMap_cons, List.append_assoc]
    refine continues_mark hmark ?_
    have hpart : ∀ c ∈ gap ++ x.entry.toList, after? true c = none :=
      List.forall_mem_append.mpr
        ⟨fun c hc => after?_of_isBlank (hgap c hc), after?_of_entry hx.toIsBare⟩
    have hread : readWords true (words (gap ++ x.entry.toList)) = some [x] := by
      rw [words_append_of_blank hgap, readWords_entry hx]
    have hnames := readFrom_part hpart hread (ih hxs)
    exact hnames

theorem toList_join (s : String) (ss : List String) :
    (Text.join ", " (s :: ss)).toList = s.toList ++ ss.flatMap fun t => ',' :: ([' '] ++ t.toList) := by
  induction ss generalizing s with
  | nil => simp [Text.join]
  | cons t ss ih =>
    have hcons : Text.join ", " (s :: t :: ss) = s ++ ", " ++ Text.join ", " (t :: ss) :=
      String.intercalate_cons_cons
    rw [hcons, String.toList_append, String.toList_append, ih, List.flatMap_cons]
    simp

theorem blank_space : Blank [' '] := List.forall_mem_singleton.mpr (by decide)

/-- Braces with names in them, at the end of a text. -/
theorem continues_braces (hne : xs ≠ []) (hxs : ∀ x ∈ xs, IsNamed x) :
    Continues b (braces (xs.map (·.entry))).toList xs := by
  obtain ⟨x, xs, rfl⟩ := List.exists_cons_of_ne_nil hne
  obtain ⟨hx, hxs⟩ := List.forall_mem_cons.mp hxs
  have htext : (braces ((x :: xs).map (·.entry))).toList = '\x7b' :: ([' '] ++ x.entry.toList ++
      (xs.flatMap (fun x => ',' :: ([' '] ++ x.entry.toList)) ++ ([' '] ++ ['\x7d']))) := by
    rw [braces, String.toList_append, String.toList_append, List.map_cons, toList_join, List.flatMap_map]
    simp
  have hpart : ∀ c ∈ [' '] ++ x.entry.toList, after? true c = none :=
    List.forall_mem_append.mpr
      ⟨fun c hc => after?_of_isBlank (blank_space c hc), after?_of_entry hx.toIsBare⟩
  have hread : readWords true (words ([' '] ++ x.entry.toList)) = some [x] := by
    rw [words_append_of_blank blank_space, readWords_entry hx]
  have hclose : Continues true ['\x7d'] [] := continues_mark rfl (continues_nil false).readFrom
  have hnames := readFrom_part hpart hread (continues_names blank_space hxs (hclose.blank blank_space))
  rw [List.append_nil] at hnames
  rw [htext]
  exact continues_mark rfl hnames

/-- Braces that follow other bindings. -/
theorem continues_moreBraces (hne : xs ≠ []) (hxs : ∀ x ∈ xs, IsNamed x) :
    Continues false (", " ++ braces (xs.map (·.entry))).toList xs := by
  have htext : (", " ++ braces (xs.map (·.entry))).toList =
      ',' :: ([' '] ++ (braces (xs.map (·.entry))).toList) := by simp
  rw [htext]
  exact continues_mark rfl ((continues_braces hne hxs).blank blank_space).readFrom

end Named

/-- The default binding of a request. A name may be followed by a line feed. -/
def defaultOf (name : String) : ImportedName := ⟨stripped name, none, .default⟩

/-- The binding of a request for a whole module. -/
def namespaceOf (name : String) : ImportedName := ⟨stripped name, none, .namespace⟩

theorem readFrom_default {name : String} (hname : isIdentifier name = true) (h : Continues false cs ys) :
    readFrom false [] (name.toList ++ cs) = some (defaultOf name :: ys) := by
  obtain ⟨v, hv, hbare, heq⟩ := exists_of_isIdentifier hname
  have hpart : ∀ c ∈ name.toList, after? false c = none := by
    rw [heq]
    exact List.forall_mem_append.mpr
      ⟨after?_of_isBareName hbare, fun c hc => after?_of_isBlank (hv c hc)⟩
  have hread : readWords false (words name.toList) = some [defaultOf name] := by
    rw [heq, words_append_blank hv, words_of_word (word_of_isBareName hbare)]
    simp only [readWords, hbare, if_true, String.ofList_toList, defaultOf]
  exact readFrom_part hpart hread h

theorem readClause_namespace {name : String} (hname : isIdentifier name = true) :
    readClause false ("* as " ++ name) = some [namespaceOf name] := by
  obtain ⟨v, hv, hbare, heq⟩ := exists_of_isIdentifier hname
  have hword := word_of_isBareName hbare
  have htext : ("* as " ++ name).toList =
      ['*'] ++ (' ' :: (asWord ++ (' ' :: (stripped name).toList))) ++ v := by
    rw [String.toList_append, heq]
    simp [asWord]
  have hstar : Word ['*'] := .of_all (by decide) (by decide)
  have hspace {x : List Char} : Breaks (' ' :: x) := by
    rintro c ⟨⟩
    decide
  have hpart : ∀ c ∈ ("* as " ++ name).toList, after? false c = none := by
    rw [htext]
    have hfixed : ∀ c ∈ ['*', ' ', 'a', 's', ' '], after? false c = none := after?_of_all (by decide)
    have hblank : ∀ c ∈ v, after? false c = none := fun c hc => after?_of_isBlank (hv c hc)
    have hall := List.forall_mem_append.mpr ⟨hfixed, after?_of_isBareName (b := false) hbare⟩
    exact List.forall_mem_append.mpr ⟨hall, hblank⟩
  have hread : readWords false (words ("* as " ++ name).toList) = some [namespaceOf name] := by
    rw [htext, words_append_blank hv, words_append_of_word hstar hspace, words_cons_of_blank (by decide),
      words_append_of_word asWord_word hspace, words_cons_of_blank (by decide), words_of_word hword]
    simp [readWords, hbare, namespaceOf]
  have h := readFrom_part hpart hread (continues_nil false)
  rwa [List.append_nil] at h

/-- A statement that imports bindings from a module. -/
def Imports (source statement : String) (xs : List ImportedName) : Prop :=
  ∃ clause literal, statement = "import " ++ clause ++ " from " ++ literal ++ ";" ∧
    Tree.unquote literal = source ∧ readClause false clause = some xs

/-- The quotes that statements are written with. -/
def IsQuote (quote : String) : Prop := quote = "'" ∨ quote = "\""

theorem quoteStyle_isQuote (t : Tree) (imports : List Source.Import) : IsQuote (quoteStyle t imports) := by
  unfold quoteStyle
  extract_lets quoteOf
  cases hfound : imports.findSome? quoteOf with
  | none => exact .inl rfl
  | some quote =>
    obtain ⟨i, -, hi⟩ := List.exists_of_findSome?_eq_some hfound
    unfold quoteOf at hi
    dsimp only at hi
    split at hi
    · cases hi
      exact .inr rfl
    · split at hi <;> cases hi
      exact .inl rfl

theorem unquote_quoted {quote : String} (hquote : IsQuote quote) (source : String) :
    Tree.unquote (quote ++ source ++ quote) = source := by
  obtain rfl | rfl := hquote <;> simp [Tree.unquote]

theorem imports_of_clause {quote source clause : String} (hquote : IsQuote quote)
    (h : readClause false clause = some xs) :
    Imports source ("import " ++ clause ++ " from " ++ (quote ++ source ++ quote) ++ ";") xs :=
  ⟨clause, _, rfl, unquote_quoted hquote source, h⟩

theorem renderNamespace_eq (name source quote : String) :
    renderNamespace name source quote =
      "import " ++ ("* as " ++ name) ++ " from " ++ (quote ++ source ++ quote) ++ ";" := by
  have hgroup (a b c d : String) : a ++ b ++ name ++ c ++ quote ++ source ++ quote ++ d =
      a ++ (b ++ name) ++ c ++ (quote ++ source ++ quote) ++ d := by
    simp only [String.append_assoc]
  have hstart : "import * as " = "import " ++ "* as " := by decide
  rw [← hgroup, ← hstart]
  rfl

theorem renderNamespace_imports {quote source name : String} (hquote : IsQuote quote)
    (hname : isIdentifier name = true) :
    Imports source (renderNamespace name source quote) [namespaceOf name] := by
  rw [renderNamespace_eq]
  exact imports_of_clause hquote (readClause_namespace hname)

/-- The clause of a statement with a default binding, with names in braces, or with both. -/
theorem render_imports {quote source : String} {name : Option String} (hquote : IsQuote quote)
    (hname : ∀ n ∈ name, isIdentifier n = true) (hxs : ∀ x ∈ xs, IsNamed x)
    (hne : name ≠ none ∨ xs ≠ []) :
    Imports source (render ⟨source, name, xs.map (·.entry), none⟩ quote)
      (name.toList.map defaultOf ++ xs) := by
  cases name with
  | none =>
    have hxs' : xs ≠ [] := hne.resolve_left fun h => h rfl
    have hread : readClause false (braces (xs.map (·.entry))) = some xs :=
      (continues_braces hxs' hxs).readFrom
    have htext : render ⟨source, none, xs.map (·.entry), none⟩ quote =
        "import " ++ braces (xs.map (·.entry)) ++ " from " ++ (quote ++ source ++ quote) ++ ";" := by
      simp [render, hxs', Text.join]
    rw [htext]
    exact imports_of_clause hquote hread
  | some n =>
    have hn := hname n rfl
    have hn' : n ≠ "" := by
      rintro rfl
      cases hn
    by_cases hxs' : xs = []
    · subst hxs'
      have hread : readClause false n = some [defaultOf n] := by
        have h := readFrom_default hn (continues_nil false)
        rwa [List.append_nil] at h
      have htext : render ⟨source, some n, [], none⟩ quote =
          "import " ++ n ++ " from " ++ (quote ++ source ++ quote) ++ ";" := by
        simp [render, hn', Text.join]
      rw [List.map_nil, htext]
      exact imports_of_clause hquote hread
    · have hread : readClause false (n ++ (", " ++ braces (xs.map (·.entry)))) =
          some (defaultOf n :: xs) := by
        rw [readClause, String.toList_append]
        exact readFrom_default hn (continues_moreBraces hxs' hxs)
      have htext : render ⟨source, some n, xs.map (·.entry), none⟩ quote =
          "import " ++ (n ++ (", " ++ braces (xs.map (·.entry)))) ++ " from " ++
            (quote ++ source ++ quote) ++ ";" := by
        simp [render, hn', hxs', Text.join, String.append_assoc]
      rw [htext]
      exact imports_of_clause hquote hread

end SourceChange.Import
