import Mathlib.Data.List.DropRight
import SourceChange.Text.Basic

/-!
Words and blanks.

A text is a row of words with blanks around them. Its words are found from the front, and what is
trimmed are the blanks at its ends.
-/

namespace SourceChange.Text

variable {c d : Char} {cs u v w : List Char} {ws : List (List Char)}

/-- All characters are blank. -/
def Blank (cs : List Char) : Prop := ∀ c ∈ cs, isBlank c = true

/-- There are characters, and none is blank. -/
structure Word (cs : List Char) : Prop where
  ne_nil : cs ≠ []
  solid : ∀ c ∈ cs, isBlank c = false

theorem Word.of_all (hne : cs ≠ []) (h : (cs.all fun c => isBlank c == false) = true) : Word cs :=
  ⟨hne, fun c hc => beq_iff_eq.mp (List.all_eq_true.mp h c hc)⟩

/-- A word that is followed by such a text ends there. -/
def Breaks (cs : List Char) : Prop := ∀ c ∈ cs.head?, isBlank c = true

theorem blank_nil : Blank [] := fun _ hc => absurd hc List.not_mem_nil

theorem Blank.breaks (h : Blank u) : Breaks u := fun c hc => h c (List.mem_of_mem_head? hc)

theorem words_cons_of_blank (hc : isBlank c = true) : words (c :: cs) = words cs := by
  rw [words.eq_def (c :: cs)]
  simp [hc]

theorem words_cons_of_breaks (hc : isBlank c = false) (hcs : Breaks cs) :
    words (c :: cs) = [c] :: words cs := by
  rw [words.eq_def (c :: cs)]
  cases cs with
  | nil =>
    simp only [hc, Bool.false_eq_true, if_false]
    rfl
  | cons d cs =>
    have hd : isBlank d = true := hcs d rfl
    simp [hc, hd]

theorem words_cons_of_solid (hc : isBlank c = false) (hd : isBlank d = false)
    (h : words (d :: cs) = w :: ws) : words (c :: d :: cs) = (c :: w) :: ws := by
  rw [words.eq_def (c :: d :: cs)]
  simp [hc, hd, h]

theorem words_cons_ne_nil (hc : isBlank c = false) : words (c :: cs) ≠ [] := by
  rw [words.eq_def (c :: cs)]
  simp only [hc, Bool.false_eq_true, if_false]
  split
  · exact List.cons_ne_nil _ _
  · split
    · exact List.cons_ne_nil _ _
    · split <;> exact List.cons_ne_nil _ _

theorem words_append_of_blank (hu : Blank u) : words (u ++ v) = words v := by
  induction u with
  | nil => rfl
  | cons c u ih =>
    obtain ⟨hc, hu⟩ := List.forall_mem_cons.mp hu
    rw [List.cons_append, words_cons_of_blank hc, ih hu]

theorem words_of_blank (hu : Blank u) : words u = [] := by
  have h := words_append_of_blank (v := []) hu
  rwa [List.append_nil] at h

theorem words_append_of_word (hw : Word w) (hv : Breaks v) : words (w ++ v) = w :: words v := by
  obtain ⟨hne, hsolid⟩ := hw
  induction w with
  | nil => exact absurd rfl hne
  | cons c w ih =>
    obtain ⟨hc, hsolid⟩ := List.forall_mem_cons.mp hsolid
    cases w with
    | nil => exact words_cons_of_breaks hc hv
    | cons d w =>
      have hrest := ih (List.cons_ne_nil d w) hsolid
      exact words_cons_of_solid hc (hsolid d List.mem_cons_self) hrest

theorem words_of_word (hw : Word w) : words w = [w] := by
  have h := words_append_of_word (v := []) hw nofun
  rwa [List.append_nil] at h

/-- The first word of a text comes after blanks. -/
theorem exists_of_words_eq_cons (h : words cs = w :: ws) :
    ∃ u v, cs = u ++ (w ++ v) ∧ Blank u ∧ Word w ∧ Breaks v ∧ words v = ws := by
  induction cs generalizing w ws with
  | nil => cases h
  | cons c cs ih =>
    cases hc : isBlank c with
    | true =>
      rw [words_cons_of_blank hc] at h
      obtain ⟨u, v, rfl, hu, hword⟩ := ih h
      exact ⟨c :: u, v, rfl, List.forall_mem_cons.mpr ⟨hc, hu⟩, hword⟩
    | false =>
      have hone (hcs : Breaks cs) : ∃ u v, c :: cs = u ++ (w ++ v) ∧ Blank u ∧ Word w ∧ Breaks v ∧
          words v = ws := by
        rw [words_cons_of_breaks hc hcs] at h
        cases h
        exact ⟨[], cs, rfl, blank_nil,
          ⟨List.cons_ne_nil c [], List.forall_mem_singleton.mpr hc⟩, hcs, rfl⟩
      cases cs with
      | nil => exact hone nofun
      | cons d cs =>
        cases hd : isBlank d with
        | true => exact hone fun x hx => by rwa [← Option.some.inj hx]
        | false =>
          have hne : words (d :: cs) ≠ [] := words_cons_ne_nil hd
          obtain ⟨w', ws', hrest⟩ := List.exists_cons_of_ne_nil hne
          rw [words_cons_of_solid hc hd hrest] at h
          cases h
          obtain ⟨u, v, heq, hu, hw, hv, hws⟩ := ih hrest
          cases u with
          | cons x u =>
            cases (List.cons.inj heq).1
            cases (hu d List.mem_cons_self).symm.trans hd
          | nil =>
            refine ⟨[], v, congrArg (c :: ·) heq, hu, ?_, hv, hws⟩
            exact ⟨List.cons_ne_nil c w', List.forall_mem_cons.mpr ⟨hc, hw.solid⟩⟩

theorem blank_of_words_eq_nil (h : words cs = []) : Blank cs := by
  induction cs with
  | nil => exact blank_nil
  | cons c cs ih =>
    cases hc : isBlank c with
    | true =>
      rw [words_cons_of_blank hc] at h
      exact List.forall_mem_cons.mpr ⟨hc, ih h⟩
    | false => exact absurd h (words_cons_ne_nil hc)

/-- The words of two texts, the second of which goes on with no word of the first. -/
theorem words_append (hv : Breaks v) : words (cs ++ v) = words cs ++ words v := by
  induction hcs : words cs generalizing cs with
  | nil => exact words_append_of_blank (blank_of_words_eq_nil hcs)
  | cons w ws ih =>
    obtain ⟨u, x, rfl, hu, hw, hx, hws⟩ := exists_of_words_eq_cons hcs
    have hbreaks : Breaks (x ++ v) := by
      cases x with
      | nil => exact hv
      | cons c x => exact hx
    rw [List.append_assoc, List.append_assoc, words_append_of_blank hu, words_append_of_word hw hbreaks,
      ih hws, List.cons_append]

/-- Words on both sides of a blank. -/
theorem words_append_cons (hc : isBlank c = true) (u v : List Char) :
    words (u ++ c :: v) = words u ++ words v := by
  rw [words_append fun d hd => by rwa [← Option.some.inj hd], words_cons_of_blank hc]

theorem word_of_mem_words (hw : w ∈ words cs) : Word w := by
  induction hcs : words cs generalizing cs with
  | nil =>
    rw [hcs] at hw
    cases hw
  | cons x ws ih =>
    obtain ⟨_, v, -, -, hx, -, hws⟩ := exists_of_words_eq_cons hcs
    rw [hcs] at hw
    obtain rfl | hw := List.mem_cons.mp hw
    · exact hx
    · exact ih (hws ▸ hw) hws

theorem toList_join (sep : String) (ss : List String) :
    (join sep ss).toList = joinWith sep.toList (ss.map String.toList) := by
  rw [join]
  induction ss with
  | nil => rfl
  | cons s ss ih =>
    cases ss with
    | nil => rw [String.intercalate_singleton, List.map_singleton, joinWith]
    | cons x ss =>
      rw [String.intercalate_cons_cons, String.toList_append, String.toList_append, ih]
      rfl

theorem joinWith_cons_cons (sep w v : List Char) (ws : List (List Char)) :
    joinWith sep (w :: v :: ws) = w ++ (sep ++ joinWith sep (v :: ws)) := by
  rw [joinWith, List.append_assoc]

theorem joinWith_append {vs : List (List Char)} (sep : List Char) (hws : ws ≠ []) (hvs : vs ≠ []) :
    joinWith sep (ws ++ vs) = joinWith sep ws ++ (sep ++ joinWith sep vs) := by
  induction ws with
  | nil => exact absurd rfl hws
  | cons w ws ih =>
    cases ws with
    | nil =>
      obtain ⟨v, vs, rfl⟩ := List.exists_cons_of_ne_nil hvs
      exact joinWith_cons_cons ..
    | cons x ws =>
      rw [List.cons_append, List.cons_append, joinWith_cons_cons, joinWith_cons_cons, ← List.cons_append,
        ih (List.cons_ne_nil _ _)]
      simp only [List.append_assoc]

/-- Words with single spaces between them. -/
theorem words_joinWith (hws : ∀ w ∈ ws, Word w) : words (joinWith [' '] ws) = ws := by
  induction ws with
  | nil => rfl
  | cons w ws ih =>
    obtain ⟨hw, hws⟩ := List.forall_mem_cons.mp hws
    cases ws with
    | nil => exact words_of_word hw
    | cons x ws =>
      rw [joinWith_cons_cons, List.singleton_append, words_append_cons rfl, words_of_word hw, ih hws]
      rfl

theorem words_flattened (s : String) : words (flattened s).toList = words s.toList := by
  rw [flattened, String.toList_ofList, oneLine, words_joinWith fun w hw => word_of_mem_words hw]

/-- Blanks at the end belong to no word. -/
theorem words_append_blank (hv : Blank v) : words (cs ++ v) = words cs := by
  rw [words_append hv.breaks, words_of_blank hv, List.append_nil]

theorem stripStart_append (hu : Blank u) (hv : ∀ c ∈ v.head?, isBlank c = false) :
    stripStart (u ++ v) = v := by
  rw [stripStart, List.dropWhile_append_of_pos hu]
  cases v with
  | nil => rfl
  | cons c v => exact List.dropWhile_cons_of_neg (by simp [hv c rfl])

theorem stripEnd_append (hu : Blank u) (hv : ∀ c ∈ v.getLast?, isBlank c = false) :
    stripEnd (v ++ u) = v := by
  have hreverse := stripStart_append (u := u.reverse) (v := v.reverse)
    (fun c hc => hu c (List.mem_reverse.mp hc)) (by rwa [List.head?_reverse])
  rw [stripEnd, dropEndWhile, List.reverse_append]
  exact congrArg List.reverse hreverse |>.trans (List.reverse_reverse v)

theorem isPrefix_dropEndWhile (p : Char → Bool) (cs : List Char) : dropEndWhile p cs <+: cs := by
  rw [dropEndWhile, ← List.reverse_suffix, List.reverse_reverse]
  exact List.dropWhile_suffix p

theorem dropEndWhile_last {p : Char → Bool} (cs : List Char) :
    ∀ c ∈ (dropEndWhile p cs).getLast?, p c = false := by
  intro c hc
  rw [dropEndWhile, List.getLast?_reverse] at hc
  simpa [Option.mem_def.mp hc] using List.head?_dropWhile_not p cs.reverse

/-- A text without blanks at its ends stays as it is. -/
theorem strip_eq_self (hhead : ∀ c ∈ cs.head?, isBlank c = false) (hlast : ∀ c ∈ cs.getLast?, isBlank c = false) :
    strip cs = cs := by
  have hstart : stripStart cs = cs := stripStart_append blank_nil hhead
  have hend := stripEnd_append (v := cs) blank_nil hlast
  rw [List.append_nil] at hend
  have hboth : strip cs = stripEnd (stripStart cs) := rfl
  rw [hboth, hstart, hend]

theorem strip_strip (cs : List Char) : strip (strip cs) = strip cs := by
  refine strip_eq_self (fun c hc => ?_) (dropEndWhile_last _)
  obtain ⟨rest, hrest⟩ : strip cs <+: stripStart cs := isPrefix_dropEndWhile _ _
  have hhead : (stripStart cs).head? = some c := by
    rw [← hrest, List.head?_append, Option.mem_def.mp hc]
    rfl
  have hstart := List.head?_dropWhile_not isBlank cs
  rwa [← stripStart, hhead] at hstart

/-- A text between blanks that starts and ends with words. -/
theorem strip_append (hu : Blank u) (hv : Blank v) (hw : Word w) {x : List Char}
    (hlast : ∀ c ∈ (w ++ x).getLast?, isBlank c = false) : strip (u ++ (w ++ x ++ v)) = w ++ x := by
  have hfirst : ∀ c ∈ (w ++ x ++ v).head?, isBlank c = false := by
    obtain ⟨c, w, rfl⟩ := List.exists_cons_of_ne_nil hw.ne_nil
    exact fun d hd => by cases hd; exact hw.solid c List.mem_cons_self
  have hstart : strip (u ++ (w ++ x ++ v)) = stripEnd (stripStart (u ++ (w ++ x ++ v))) := rfl
  rw [hstart, stripStart_append hu hfirst, stripEnd_append hv hlast]

theorem Word.getLast? (hw : Word w) : ∀ c ∈ w.getLast?, isBlank c = false :=
  fun c hc => hw.solid c (List.mem_of_mem_getLast? hc)

theorem Word.getLast?_append (hw : Word w) (u : List Char) :
    ∀ c ∈ (u ++ w).getLast?, isBlank c = false := by
  rw [List.getLast?_append_of_ne_nil u hw.ne_nil]
  exact hw.getLast?

/-- What only takes blanks away leaves the words. -/
theorem words_dropEndWhile {p : Char → Bool} (hp : ∀ c, p c = true → isBlank c = true) (cs : List Char) :
    words (dropEndWhile p cs) = words cs := by
  have hblank : Blank (cs.rtakeWhile p) := fun c hc => hp c (List.mem_rtakeWhile_imp hc)
  conv_rhs => rw [← List.rdropWhile_append_rtakeWhile (p := p) (l := cs), words_append_blank hblank]
  rfl

theorem words_dropWhile {p : Char → Bool} (hp : ∀ c, p c = true → isBlank c = true) (cs : List Char) :
    words (cs.dropWhile p) = words cs := by
  have hblank : Blank (cs.takeWhile p) := fun c hc => hp c (List.mem_takeWhile_imp hc)
  conv_rhs => rw [← List.takeWhile_append_dropWhile (p := p) (l := cs), words_append_of_blank hblank]

theorem words_trim {p : Char → Bool} (hp : ∀ c, p c = true → isBlank c = true) (cs : List Char) :
    words (trim p cs) = words cs := by
  rw [trim, words_dropEndWhile hp, words_dropWhile hp]

theorem words_strip (cs : List Char) : words (strip cs) = words cs := words_trim (fun _ => id) cs

theorem words_stripEnd (cs : List Char) : words (stripEnd cs) = words cs := words_dropEndWhile (fun _ => id) cs

/-- The characters of a text that are not blank. -/
def solid (cs : List Char) : List Char := cs.filter (!isBlank ·)

@[simp] theorem solid_nil : solid [] = [] := rfl

@[simp] theorem solid_append (u v : List Char) : solid (u ++ v) = solid u ++ solid v := List.filter_append ..

theorem solid_cons_eq_append (c : Char) (cs : List Char) : solid (c :: cs) = solid [c] ++ solid cs := solid_append [c] cs

theorem solid_cons (hc : isBlank c = false) (cs : List Char) : solid (c :: cs) = c :: solid cs :=
  List.filter_cons_of_pos (by simp [hc])

theorem solid_of_blank (h : Blank u) : solid u = [] :=
  List.filter_eq_nil_iff.mpr fun c hc => by simp [h c hc]

theorem flatten_words (cs : List Char) : (words cs).flatten = solid cs := by
  induction hcs : words cs generalizing cs with
  | nil => exact (solid_of_blank (blank_of_words_eq_nil hcs)).symm
  | cons w ws ih =>
    obtain ⟨u, x, rfl, hu, hw, -, hws⟩ := exists_of_words_eq_cons hcs
    have hword : solid w = w := List.filter_eq_self.mpr fun c hc => by simp [hw.solid c hc]
    rw [List.flatten_cons, ih x hws, solid_append, solid_append, solid_of_blank hu, hword, List.nil_append]

theorem solid_joinWith (ws : List (List Char)) : solid (joinWith [' '] ws) = (ws.map solid).flatten := by
  induction ws with
  | nil => rfl
  | cons w ws ih =>
    cases ws with
    | nil => simp [joinWith]
    | cons x ws =>
      rw [joinWith_cons_cons, solid_append, solid_append, ih]
      rfl

theorem solid_ne_nil_of_word (h : Word cs) : solid cs ≠ [] := by
  obtain ⟨c, rest, rfl⟩ := List.exists_cons_of_ne_nil h.ne_nil
  have hc : c ∈ solid (c :: rest) :=
    List.mem_filter.mpr ⟨List.mem_cons_self, by simp [h.solid c List.mem_cons_self]⟩
  exact List.ne_nil_of_mem hc

theorem solid_eq_of_words_eq (h : words u = words v) : solid u = solid v := by
  rw [← flatten_words, h, flatten_words]

theorem solid_dropEndWhile {p : Char → Bool} (hp : ∀ c, p c = true → isBlank c = true) (cs : List Char) :
    solid (dropEndWhile p cs) = solid cs := solid_eq_of_words_eq (words_dropEndWhile hp cs)

theorem solid_dropWhile {p : Char → Bool} (hp : ∀ c, p c = true → isBlank c = true) (cs : List Char) :
    solid (cs.dropWhile p) = solid cs := solid_eq_of_words_eq (words_dropWhile hp cs)

theorem solid_trim {p : Char → Bool} (hp : ∀ c, p c = true → isBlank c = true) (cs : List Char) :
    solid (trim p cs) = solid cs := solid_eq_of_words_eq (words_trim hp cs)

@[simp] theorem solid_stripEnd (cs : List Char) : solid (stripEnd cs) = solid cs :=
  solid_dropEndWhile (fun _ => id) cs

@[simp] theorem solid_stripStart (cs : List Char) : solid (stripStart cs) = solid cs :=
  solid_dropWhile (fun _ => id) cs

@[simp] theorem solid_strip (cs : List Char) : solid (strip cs) = solid cs := solid_trim (fun _ => id) cs

/-- A text that is not empty and has no blank at its ends. -/
structure Delimited (cs : List Char) : Prop where
  ne_nil : cs ≠ []
  head : ∀ c ∈ cs.head?, isBlank c = false
  last : ∀ c ∈ cs.getLast?, isBlank c = false

/-- Characters at the end go no further than one that stays. -/
theorem dropEndWhile_append {p : Char → Bool} (hne : u ≠ []) (hu : ∀ c ∈ u.getLast?, p c = false)
    (v : List Char) : dropEndWhile p (u ++ v) = u ++ dropEndWhile p v := by
  obtain ⟨x, c, rfl⟩ : ∃ x c, u = x ++ [c] := ⟨u.dropLast, u.getLast hne, (List.dropLast_append_getLast hne).symm⟩
  have hc : p c = false := hu c (by simp)
  have hkeep (ws : List Char) : (ws ++ c :: x.reverse).dropWhile p = ws.dropWhile p ++ c :: x.reverse := by
    induction ws with
    | nil => simp [hc]
    | cons w ws ih =>
      cases hw : p w <;> simp [hw, ih]
  have hflip := hkeep v.reverse
  simp only [dropEndWhile, List.reverse_append, List.reverse_singleton, List.singleton_append]
  rw [hflip]
  simp

theorem dropWhile_append {p : Char → Bool} (u : List Char) (hne : v ≠ []) (hv : ∀ c ∈ v.head?, p c = false) :
    (u ++ v).dropWhile p = u.dropWhile p ++ v := by
  obtain ⟨c, v, rfl⟩ := List.exists_cons_of_ne_nil hne
  have hc : p c = false := hv c rfl
  induction u with
  | nil => simp [hc]
  | cons d u ih => cases hd : p d <;> simp [hd, ih]

/-- Two texts in which a character that is not blank stands behind the same others are split alike. -/
theorem eq_of_append_eq {x y : List Char} (h : u ++ x = v ++ y) (hsolid : solid u = solid v)
    (hx : ∀ c ∈ x.head?, isBlank c = false) (hy : ∀ c ∈ y.head?, isBlank c = false) (hne : x ≠ [])
    (hne' : y ≠ []) :
    u = v ∧ x = y := by
  induction u generalizing v with
  | nil =>
    cases v with
    | nil => exact ⟨rfl, h⟩
    | cons d v =>
      rw [List.nil_append] at h
      subst h
      have hd : isBlank d = false := hx d rfl
      simp [solid, hd] at hsolid
  | cons c u ih =>
    cases v with
    | nil =>
      rw [List.nil_append] at h
      subst h
      have hc : isBlank c = false := hy c rfl
      simp [solid, hc] at hsolid
    | cons d v =>
      obtain ⟨rfl, hrest⟩ := List.cons.inj h
      rw [solid_cons_eq_append c u, solid_cons_eq_append c v] at hsolid
      obtain ⟨rfl, heq⟩ := ih hrest (List.append_cancel_left hsolid)
      exact ⟨rfl, heq⟩

theorem solid_reverse (cs : List Char) : solid cs.reverse = (solid cs).reverse := List.filter_reverse ..

/-- Texts without blanks at their ends that stand between the same others are the same. -/
theorem Delimited.eq_of_append_eq {x y u' v' : List Char} (hx : Delimited x) (hy : Delimited y)
    (h : u ++ (x ++ v) = u' ++ (y ++ v')) (hu : solid u = solid u') (hv : solid v = solid v') : x = y := by
  have hhead {x : List Char} (hx : Delimited x) (v : List Char) : ∀ c ∈ (x ++ v).head?, isBlank c = false := by
    obtain ⟨c, rest, rfl⟩ := List.exists_cons_of_ne_nil hx.ne_nil
    exact hx.head
  obtain ⟨-, hrest⟩ :=
    Text.eq_of_append_eq h hu (hhead hx v) (hhead hy v') (by simp [hx.ne_nil]) (by simp [hy.ne_nil])
  -- the same again, from the other end
  have hflip := congrArg List.reverse hrest
  rw [List.reverse_append, List.reverse_append] at hflip
  have hvs : solid v.reverse = solid v'.reverse := by rw [solid_reverse, solid_reverse, hv]
  obtain ⟨-, hsame⟩ := Text.eq_of_append_eq hflip hvs (by simpa using hx.last) (by simpa using hy.last)
    (by simpa using hx.ne_nil) (by simpa using hy.ne_nil)
  exact List.reverse_injective hsame

end SourceChange.Text
