import SourceChange.Proofs.Text.Words
import SourceChange.Text.Indent

/-!
Moving a block of lines to another indentation.

A part of a block that starts and ends with characters that are not blank is moved with it: its first
line stays behind what precedes it, and its other lines get the new indentation. What stands before and
behind the part loses and gets nothing but blanks. So the part is the same again if and only if its
lines are already as they would be written.
-/

namespace SourceChange.Text

variable {c : Char} {cs u v : List Char} {l m : List Char} {ls ms : List (List Char)}

theorem isBlank_of_isLineBreak (h : isLineBreak c = true) : isBlank c = true := by
  simp only [isLineBreak, isBlank, Bool.or_eq_true, Bool.and_eq_true, decide_eq_true_eq, beq_iff_eq] at h ⊢
  omega

theorem isLineBreak_of_solid (h : isBlank c = false) : isLineBreak c = false :=
  Bool.eq_false_iff.mpr fun hbreak => Bool.eq_false_iff.mp h (isBlank_of_isLineBreak hbreak)

theorem isBlank_of_isIndent (h : isIndent c = true) : isBlank c = true := by
  simp only [isIndent, Bool.or_eq_true, beq_iff_eq] at h
  obtain rfl | rfl := h <;> rfl

theorem isLineBreak_of_isIndent (h : isIndent c = true) : isLineBreak c = false := by
  simp only [isIndent, Bool.or_eq_true, beq_iff_eq] at h
  obtain rfl | rfl := h <;> rfl

theorem isIndent_of_mem_indentUnit {s : String} (hc : c ∈ (indentUnit s).toList) : isIndent c = true := by
  unfold indentUnit at hc
  dsimp only at hc
  split at hc
  · obtain rfl : c = '\t' := by simpa using hc
    rfl
  · rw [String.toList_ofList] at hc
    obtain rfl := List.eq_of_mem_replicate hc
    rfl

/-- A character that ends no line belongs to the first line. -/
theorem lines_cons (hc : isLineBreak c = false) (cs : List Char) :
    lines (c :: cs) = (c :: (lines cs).headD []) :: (lines cs).tail := by
  have hne : c ≠ '\r' := by
    rintro rfl
    cases hc
  rw [lines.eq_3 c cs fun _ h _ => hne h, if_neg (by simp [hc])]
  cases lines cs <;> rfl

/-- A text ends whole lines and leaves the start of one more, with which any text goes on that starts
with a character that ends no line. -/
structure LeavesOpen (x : List Char) (before : List (List Char)) (a : List Char) : Prop where
  solid : solid before.flatten ++ solid a = solid x
  whole : before = [] → a = x
  lines : ∀ c rest l ls, isLineBreak c = false → lines (c :: rest) = l :: ls →
    lines (x ++ c :: rest) = before ++ (a ++ l) :: ls

theorem LeavesOpen.cons {x a : List Char} {before : List (List Char)} (h : LeavesOpen x before a)
    (hc : isLineBreak c = false) : ∃ before a, LeavesOpen (c :: x) before a := by
  obtain ⟨hsolid, hwhole, hlines⟩ := h
  cases before with
  | nil =>
    refine ⟨[], c :: a, ?_, fun _ => by rw [hwhole rfl], fun d rest l ls hd hrest => ?_⟩
    · rw [solid_cons_eq_append c a, solid_cons_eq_append c x, ← hsolid]
      rfl
    · rw [List.cons_append, lines_cons hc, hlines d rest l ls hd hrest]
      rfl
  | cons b before =>
    refine ⟨(c :: b) :: before, a, ?_, nofun, fun d rest l ls hd hrest => ?_⟩
    · rw [solid_cons_eq_append c x, ← hsolid, List.flatten_cons, List.cons_append, solid_cons_eq_append]
      simp
    · rw [List.cons_append, lines_cons hc, hlines d rest l ls hd hrest]
      rfl

theorem exists_leavesOpen (x : List Char) : ∃ before a, LeavesOpen x before a := by
  fun_induction lines x with
  | case1 => exact ⟨[], [], rfl, fun _ => rfl, fun _ _ _ _ _ h => h⟩
  | case2 cs ih =>
    obtain ⟨before, a, hsolid, -, hlines⟩ := ih
    refine ⟨[] :: before, a, hsolid, nofun, fun c rest l ls hc hrest => ?_⟩
    simp [lines, hlines c rest l ls hc hrest]
  | case3 d cs hpair hbreak ih =>
    obtain ⟨before, a, hsolid, -, hlines⟩ := ih
    refine ⟨[] :: before, a, ?_, nofun, fun c rest l ls hc hrest => ?_⟩
    · have hd : solid [d] = [] := solid_of_blank (List.forall_mem_singleton.mpr (isBlank_of_isLineBreak hbreak))
      rw [solid_cons_eq_append, hd, List.nil_append, ← hsolid]
      rfl
    · have hnot : ∀ r, d = '\r' → cs ++ c :: rest = '\n' :: r → False := by
        rintro r rfl h
        cases cs with
        | nil =>
          cases h
          cases hc
        | cons e cs =>
          cases h
          exact hpair cs rfl rfl
      rw [List.cons_append, lines.eq_3 _ _ hnot, if_pos hbreak, hlines c rest l ls hc hrest]
      rfl
  | case4 d cs _ hbreak _ ih =>
    obtain ⟨before, a, h⟩ := ih
    exact h.cons (by simpa using hbreak)
  | case5 d cs _ hbreak _ _ _ ih =>
    obtain ⟨before, a, h⟩ := ih
    exact h.cons (by simpa using hbreak)

theorem words_headD_append (ls : List (List Char)) :
    words (ls.headD []) ++ ls.tail.flatMap words = ls.flatMap words := by
  cases ls <;> rfl

/-- The first line of a text goes on with what stands before it. -/
theorem words_append_lines (cs pre : List Char) :
    words (pre ++ cs) = words (pre ++ (lines cs).headD []) ++ (lines cs).tail.flatMap words := by
  fun_induction lines cs generalizing pre with
  | case1 => simp
  | case2 cs ih =>
    have hrest := ih []
    rw [List.nil_append, List.nil_append, words_headD_append] at hrest
    rw [words_append_cons rfl, words_cons_of_blank rfl, hrest]
    simp
  | case3 c cs _ hbreak ih =>
    have hrest := ih []
    rw [List.nil_append, List.nil_append, words_headD_append] at hrest
    rw [words_append_cons (isBlank_of_isLineBreak hbreak), hrest]
    simp
  | case4 c cs _ _ hnil ih =>
    have hrest := ih (pre ++ [c])
    rw [hnil] at hrest
    simpa using hrest
  | case5 c cs _ _ l ls hls ih =>
    have hrest := ih (pre ++ [c])
    rw [hls] at hrest
    simpa using hrest

/-- Every word of a text stands on one line. -/
theorem words_lines (cs : List Char) : (lines cs).flatMap words = words cs := by
  have h := words_append_lines cs []
  rwa [List.nil_append, List.nil_append, words_headD_append, eq_comm] at h

theorem solid_flatten (ls : List (List Char)) : solid ls.flatten = (ls.flatMap words).flatten := by
  induction ls with
  | nil => rfl
  | cons l ls ih =>
    rw [List.flatten_cons, solid_append, ih, List.flatMap_cons, List.flatten_append, flatten_words]

/-- Only line breaks are lost when a text is split into lines. -/
theorem solid_lines (cs : List Char) : solid (lines cs).flatten = solid cs := by
  rw [solid_flatten, words_lines, flatten_words]

/-- The last line of a text goes on with the first line of what follows. -/
theorem exists_lines_after {x : List Char} (hc : isLineBreak c = false) (v : List Char) :
    ∃ init z r after, lines (x ++ [c]) = init ++ [z ++ [c]] ∧
      lines (x ++ c :: v) = init ++ (z ++ c :: r) :: after ∧
      solid r ++ solid after.flatten = solid v := by
  obtain ⟨init, z, hopen⟩ := exists_leavesOpen x
  refine ⟨init, z, (lines v).headD [], (lines v).tail, ?_, ?_, ?_⟩
  · exact hopen.lines c [] [c] [] hc (lines_cons hc [])
  · exact hopen.lines c v _ _ hc (lines_cons hc v)
  · rw [← solid_lines v]
    cases lines v <;> simp

/-- All lines that are not blank are indented as far as `base`. -/
def Fits (base : Nat) (ls : List (List Char)) : Prop :=
  ∀ l ∈ ls, isBlankLine l = false → base ≤ indentWidth l

theorem Fits.behind {base : Nat} (h : Fits base (ls ++ l :: ms).tail) : Fits base ms := by
  cases ls with
  | nil => exact h
  | cons k ls => exact fun m hm => h m (List.mem_append_right ls (List.mem_cons_of_mem l hm))

/-- Lines below the first one, as they are written. -/
def below (indent : List Char) (base : Nat) (ls : List (List Char)) : List Char :=
  ls.flatMap fun l => '\n' :: rebase indent base l

theorem below_append (indent : List Char) (base : Nat) (ls ms : List (List Char)) :
    below indent base (ls ++ ms) = below indent base ls ++ below indent base ms := List.flatMap_append

theorem joinWith_cons (sep : Char) (l : List Char) (ls : List (List Char)) :
    joinWith [sep] (l :: ls) = l ++ ls.flatMap (sep :: ·) := by
  induction ls generalizing l with
  | nil => simp [joinWith]
  | cons m ls ih => simp [joinWith, ih]

/-- The common indentation of the lines of a block below the first one. -/
def commonIndent (block : String) : Nat := (indentWidths (blockLines block).tail).min?.getD 0

/-- The lines of a block, as they are written. -/
def laid (indent : List Char) (base : Nat) : List (List Char) → List Char
  | [] => []
  | first :: rest => strip first ++ below indent base rest

/-- Lines of which the first stands behind something else, as they are written. -/
def behind (indent : List Char) (base : Nat) : List (List Char) → List Char
  | [] => []
  | first :: rest => stripEnd first ++ below indent base rest

theorem reindent_eq (block indent : String) :
    (reindent block indent).toList = laid indent.toList (commonIndent block) (blockLines block) := by
  unfold reindent commonIndent
  cases blockLines block with
  | nil => rfl
  | cons first rest => simp [joinWith_cons, laid, below, List.flatMap_map]

/-- The least indentation of the lines that are not blank. -/
def leastIndent (ls : List (List Char)) : Nat := (indentWidths ls).min?.getD 0

theorem mem_indentWidths {w : Nat} : w ∈ indentWidths ls ↔ ∃ l ∈ ls, isBlankLine l = false ∧ indentWidth l = w := by
  simp [indentWidths, and_assoc]

theorem fits_leastIndent (ls : List (List Char)) : Fits (leastIndent ls) ls := by
  intro l hl hsolid
  unfold leastIndent
  cases hmin : (indentWidths ls).min? with
  | none => exact Nat.zero_le _
  | some k => exact (List.min?_eq_some_iff.mp hmin).2 _ (mem_indentWidths.mpr ⟨l, hl, hsolid, rfl⟩)

theorem fits_commonIndent (block : String) : Fits (commonIndent block) (blockLines block).tail :=
  fits_leastIndent _

section

variable {indent : List Char} {base : Nat}

theorem blank_take_indentWidth (l : List Char) : Blank (l.take (indentWidth l)) := by
  intro c hc
  have htake : l.take (indentWidth l) = l.takeWhile isBlank :=
    (List.prefix_iff_eq_take.mp (List.takeWhile_prefix isBlank)).symm
  rw [htake] at hc
  exact List.mem_takeWhile_imp hc

/-- A line loses blanks only. -/
theorem words_drop (h : base ≤ indentWidth l) : words (l.drop base) = words l := by
  have hblank : Blank (l.take base) := fun c hc =>
    blank_take_indentWidth l c ((List.take_prefix_take_left h).subset hc)
  conv_rhs => rw [← List.take_append_drop base l, words_append_of_blank hblank]

theorem blank_of_isBlankLine (h : isBlankLine l = true) : Blank l := fun c hc => List.all_eq_true.mp h c hc

theorem words_rebase (hindent : Blank indent) (hfits : isBlankLine l = false → base ≤ indentWidth l) :
    words (rebase indent base l) = words l := by
  unfold rebase
  split
  case isTrue hblank => exact (words_of_blank (blank_of_isBlankLine hblank)).symm
  case isFalse hsolid =>
    rw [words_append_of_blank hindent, words_stripEnd, words_drop (hfits (by simpa using hsolid))]

theorem breaks_below (indent : List Char) (base : Nat) (ls : List (List Char)) :
    Breaks (below indent base ls) := by
  cases ls with
  | nil => exact nofun
  | cons l ls => exact fun c hc => by rw [← Option.some.inj hc]; rfl

theorem words_below (hindent : Blank indent) (hfits : Fits base ls) :
    words (below indent base ls) = ls.flatMap words := by
  induction ls with
  | nil => rfl
  | cons l ls ih =>
    obtain ⟨hl, hrest⟩ := List.forall_mem_cons.mp hfits
    have hcons : below indent base (l :: ls) = '\n' :: (rebase indent base l ++ below indent base ls) := rfl
    rw [hcons, words_cons_of_blank rfl, words_append (breaks_below indent base ls),
      words_rebase hindent hl, ih hrest, List.flatMap_cons]

theorem solid_below (hindent : Blank indent) (hfits : Fits base ls) :
    solid (below indent base ls) = solid ls.flatten := by
  rw [solid_flatten, ← words_below hindent hfits, flatten_words]

/-- A moved block has the same words. -/
theorem words_reindent (block : String) {indent : String} (hindent : Blank indent.toList) :
    words (reindent block indent).toList = words block.toList := by
  have htrim : words (trim (· == '\n') block.toList) = words block.toList :=
    words_trim (fun c hc => by obtain rfl := beq_iff_eq.mp hc; rfl) block.toList
  have hfits := fits_commonIndent block
  rw [reindent_eq, ← htrim, ← words_lines (trim _ _)]
  change words (laid _ _ (blockLines block)) = (blockLines block).flatMap words
  cases hls : blockLines block with
  | nil => rfl
  | cons first rest =>
    rw [hls] at hfits
    have hbelow := words_below hindent hfits
    rw [List.tail_cons] at hbelow
    rw [laid, words_append (breaks_below _ _ rest), words_strip, hbelow, List.flatMap_cons]

theorem stripEnd_cons (hc : isBlank c = false) (a l : List Char) :
    stripEnd (a ++ c :: l) = a ++ c :: stripEnd l := by
  have hkeep := dropEndWhile_append (p := isBlank) (u := a ++ [c]) (by simp) (fun d hd => by simp_all) l
  simpa [stripEnd] using hkeep

/-- A character that is not blank ends the indentation of a line. -/
theorem indentWidth_cons (hc : isBlank c = false) (a l m : List Char) :
    indentWidth (a ++ c :: l) = indentWidth (a ++ c :: m) ∧ indentWidth (a ++ c :: l) ≤ a.length := by
  unfold indentWidth
  induction a with
  | nil => simp [hc]
  | cons d a ih =>
    cases hd : isBlank d with
    | false => simp [hd]
    | true => simpa [hd] using ih

theorem isBlankLine_eq_false (hc : isBlank c = false) (a l : List Char) : isBlankLine (a ++ c :: l) = false := by
  simp [isBlankLine, hc]

/-- A line that is not blank: the blanks it starts with, and what follows them. -/
theorem exists_indented (h : isBlankLine l = false) :
    ∃ a c m, l = a ++ c :: m ∧ Blank a ∧ isBlank c = false ∧ indentWidth l = a.length := by
  have hne : l.dropWhile isBlank ≠ [] := by
    intro hnil
    rw [List.dropWhile_eq_nil_iff] at hnil
    cases h.symm.trans (List.all_eq_true.mpr hnil)
  obtain ⟨c, m, hcm⟩ := List.exists_cons_of_ne_nil hne
  have hc : isBlank c = false := by
    have hhead := List.head?_dropWhile_not isBlank l
    simpa [hcm] using hhead
  have hsplit := List.takeWhile_append_dropWhile (p := isBlank) (l := l)
  rw [hcm] at hsplit
  exact ⟨l.takeWhile isBlank, c, m, hsplit.symm, fun d hd => List.mem_takeWhile_imp hd, hc, rfl⟩

/-- A line with a character that is not blank in it: blanks go at both ends. -/
theorem rebase_cons (hc : isBlank c = false) (a l : List Char) (hbase : base ≤ indentWidth (a ++ c :: l)) :
    rebase indent base (a ++ c :: l) = indent ++ (a.drop base ++ c :: stripEnd l) := by
  have hle := Nat.le_trans hbase (indentWidth_cons hc a l l).2
  rw [rebase, if_neg (by simp [isBlankLine_eq_false hc]), List.drop_append_of_le_length hle, stripEnd_cons hc]

theorem solid_drop_front (hc : isBlank c = false) (a l : List Char) (hbase : base ≤ indentWidth (a ++ c :: l)) :
    solid (a.drop base) = solid a := by
  have hle := Nat.le_trans hbase (indentWidth_cons hc a l l).2
  have hdrop := solid_eq_of_words_eq (words_drop hbase)
  rw [List.drop_append_of_le_length hle, solid_append, solid_append] at hdrop
  exact List.append_cancel_right hdrop

/-- What starts within a line is written behind what precedes it. -/
theorem exists_laid_front (hindent : Blank indent) (hc : isBlank c = false) {before : List (List Char)}
    (a l : List Char) (ms : List (List Char)) (hfits : Fits base (before ++ (a ++ c :: l) :: ms).tail) :
    ∃ u, laid indent base (before ++ (a ++ c :: l) :: ms) = u ++ behind indent base ((c :: l) :: ms) ∧
      solid u = solid before.flatten ++ solid a := by
  have hbehind : behind indent base ((c :: l) :: ms) = c :: stripEnd l ++ below indent base ms :=
    congrArg (· ++ below indent base ms) (stripEnd_cons hc [] l)
  cases before with
  | nil =>
    refine ⟨stripStart a, ?_, by simp⟩
    have hstart : stripStart (a ++ c :: l) = stripStart a ++ c :: l :=
      dropWhile_append a (by simp) (fun d hd => by simp_all)
    have hstrip : strip (a ++ c :: l) = stripEnd (stripStart (a ++ c :: l)) := rfl
    rw [List.nil_append, laid, hstrip, hstart, stripEnd_cons hc, hbehind]
    simp
  | cons first before =>
    obtain ⟨hbefore, hrest⟩ := List.forall_mem_append.mp hfits
    have hbase := hrest _ List.mem_cons_self (isBlankLine_eq_false hc a l)
    refine ⟨strip first ++ (below indent base before ++ '\n' :: (indent ++ a.drop base)), ?_, ?_⟩
    · rw [List.cons_append, laid, below_append, hbehind]
      simp [below, rebase_cons hc a l hbase]
    · have hbreak (w : List Char) : solid ('\n' :: w) = solid w := rfl
      simp [solid_below hindent hbefore, hbreak, solid_of_blank hindent, solid_drop_front hc a l hbase]

theorem Fits.around (hc : isBlank c = false) {init after : List (List Char)} {z r : List Char}
    (h : Fits base (init ++ (z ++ c :: r) :: after).tail) :
    Fits base (init ++ [z ++ [c]]).tail ∧ Fits base after := by
  refine ⟨?_, h.behind⟩
  cases init with
  | nil => exact List.forall_mem_nil _
  | cons l init =>
    obtain ⟨hinit, hlast⟩ := List.forall_mem_append.mp h
    refine List.forall_mem_append.mpr ⟨hinit, List.forall_mem_singleton.mpr fun _ => ?_⟩
    rw [(indentWidth_cons hc z [] r).1]
    exact hlast _ List.mem_cons_self (isBlankLine_eq_false hc z r)

/-- What ends within a line is written before what follows it. -/
theorem behind_append (hc : isBlank c = false) (init : List (List Char)) (z r : List Char)
    (after : List (List Char)) (hfits : Fits base (init ++ (z ++ c :: r) :: after).tail) :
    behind indent base (init ++ (z ++ c :: r) :: after) =
      behind indent base (init ++ [z ++ [c]]) ++ (stripEnd r ++ below indent base after) := by
  have hnone : stripEnd [] = [] := rfl
  cases init with
  | nil => simp [behind, below, stripEnd_cons hc, hnone]
  | cons l init =>
    have hbase := (List.forall_mem_append.mp hfits).2 _ List.mem_cons_self (isBlankLine_eq_false hc z r)
    have hbase' := hbase
    rw [(indentWidth_cons hc z r []).1] at hbase'
    simp [behind, below, rebase_cons hc z r hbase, rebase_cons hc z [] hbase', hnone]

end

/-- A part of a block, as it is written. -/
def relaid (indent : List Char) (base : Nat) (part : List Char) : List Char := behind indent base (lines part)

/-- A part of a block without blanks at its ends is moved between what precedes and what follows it. -/
theorem exists_laid_around {indent part : List Char} {base : Nat} (hindent : Blank indent)
    (hpart : Delimited part) (u v : List Char) (hfits : Fits base (lines (u ++ (part ++ v))).tail) :
    Fits base (lines part).tail ∧ ∃ u' v', laid indent base (lines (u ++ (part ++ v))) =
      u' ++ (relaid indent base part ++ v') ∧ solid u' = solid u ∧ solid v' = solid v := by
  obtain ⟨c, rest, rfl⟩ := List.exists_cons_of_ne_nil hpart.ne_nil
  have hc := hpart.head c rfl
  obtain ⟨x, d, hlast⟩ : ∃ x d, c :: rest = x ++ [d] :=
    ⟨_, _, (List.dropLast_append_getLast (List.cons_ne_nil c rest)).symm⟩
  have hd : isBlank d = false := hpart.last d (by simp [hlast])
  obtain ⟨before, a, hopen⟩ := exists_leavesOpen u
  obtain ⟨init, z, r, after, hlines, hwhole, hsolid⟩ := exists_lines_after (x := x) (isLineBreak_of_solid hd) v
  have hfull : (c :: rest) ++ v = x ++ d :: v := by simp [hlast]
  rw [← hfull] at hwhole
  rw [← hlast] at hlines
  have hfirst := lines_cons (isLineBreak_of_solid hc) (rest ++ v)
  have hall := hopen.lines c (rest ++ v) _ _ (isLineBreak_of_solid hc) hfirst
  rw [List.cons_append, hall] at hfits ⊢
  obtain ⟨u', hlaid, hu'⟩ := exists_laid_front hindent hc a _ _ hfits
  have hfits' : Fits base (init ++ (z ++ d :: r) :: after).tail := by
    rw [← hwhole, List.cons_append, hfirst]
    exact hfits.behind
  have hafter : behind indent base _ = _ := behind_append hd init z r after hfits'
  rw [← hwhole, List.cons_append, hfirst, ← hlines] at hafter
  rw [hafter] at hlaid
  obtain ⟨hpart, hrest⟩ := hfits'.around hd
  refine ⟨hlines ▸ hpart, u', _, hlaid, hu'.trans hopen.solid, ?_⟩
  rw [solid_append, solid_stripEnd, solid_below hindent hrest, hsolid]

/-- The lines of a text hold no line break. -/
theorem isLineBreak_of_mem_lines (hl : l ∈ lines cs) (hc : c ∈ l) : isLineBreak c = false := by
  fun_induction lines cs generalizing l with
  | case1 => cases hl
  | case2 cs ih =>
    obtain rfl | hl := List.mem_cons.mp hl
    · cases hc
    · exact ih hl hc
  | case3 d cs _ _ ih =>
    obtain rfl | hl := List.mem_cons.mp hl
    · cases hc
    · exact ih hl hc
  | case4 d cs _ hd _ =>
    obtain rfl := List.mem_singleton.mp hl
    obtain rfl := List.mem_singleton.mp hc
    simpa using hd
  | case5 d cs _ hd m ms hms ih =>
    rw [hms] at ih
    obtain rfl | hl := List.mem_cons.mp hl
    · obtain rfl | hc := List.mem_cons.mp hc
      · simpa using hd
      · exact ih List.mem_cons_self hc
    · exact ih (List.mem_cons_of_mem m hl) hc

theorem lines_append_feed (hl : ∀ c ∈ l, isLineBreak c = false) (cs : List Char) :
    lines (l ++ '\n' :: cs) = l :: lines cs := by
  induction l with
  | nil => rfl
  | cons c l ih =>
    obtain ⟨hc, hl⟩ := List.forall_mem_cons.mp hl
    rw [List.cons_append, lines_cons hc, ih hl]
    rfl

theorem lines_of_unbroken (hne : l ≠ []) (hl : ∀ c ∈ l, isLineBreak c = false) : lines l = [l] := by
  induction l with
  | nil => exact absurd rfl hne
  | cons c l ih =>
    obtain ⟨hc, hl⟩ := List.forall_mem_cons.mp hl
    rw [lines_cons hc]
    cases l with
    | nil => rfl
    | cons d l => rw [ih (List.cons_ne_nil d l) hl]; rfl

/-- Joined lines are found again. -/
theorem lines_joinWith (hls : ∀ l ∈ ls, ∀ c ∈ l, isLineBreak c = false) (hlast : ∀ l ∈ ls.getLast?, l ≠ []) :
    lines (joinWith ['\n'] ls) = ls := by
  induction ls with
  | nil => rfl
  | cons l ls ih =>
    obtain ⟨hl, hls⟩ := List.forall_mem_cons.mp hls
    cases ls with
    | nil => exact lines_of_unbroken (hlast l rfl) hl
    | cons m ls =>
      have hjoin : joinWith ['\n'] (l :: m :: ls) = l ++ '\n' :: joinWith ['\n'] (m :: ls) := by simp [joinWith]
      rw [hjoin, lines_append_feed hl, ih hls (by simpa using hlast)]

theorem eq_nil_of_lines_eq_nil (h : lines cs = []) : cs = [] := by
  revert h
  fun_cases lines cs <;> simp

/-- A text whose lines end with line feeds is what these lines give when they are joined. -/
theorem joinWith_lines (hbreaks : ∀ c ∈ cs, isLineBreak c = true → c = '\n')
    (hlast : ∀ c ∈ cs.getLast?, isLineBreak c = false) : joinWith ['\n'] (lines cs) = cs := by
  fun_induction lines cs with
  | case1 => rfl
  | case2 cs => cases hbreaks '\r' List.mem_cons_self rfl
  | case3 c cs _ hbreak ih =>
    obtain ⟨hc, hcs⟩ := List.forall_mem_cons.mp hbreaks
    obtain rfl := hc hbreak
    cases hls : lines cs with
    | nil =>
      obtain rfl := eq_nil_of_lines_eq_nil hls
      cases hlast '\n' rfl
    | cons l ls =>
      have hne : cs ≠ [] := by
        rintro rfl
        cases hls
      have hrest := ih hcs (by rwa [← List.getLast?_cons_of_ne_nil hne])
      rw [hls] at hrest
      simp [joinWith, hrest]
  | case4 c cs _ _ hnil =>
    rw [eq_nil_of_lines_eq_nil hnil]
    rfl
  | case5 c cs _ _ l ls hls ih =>
    have hne : cs ≠ [] := by
      rintro rfl
      cases hls
    have hrest := ih (List.forall_mem_cons.mp hbreaks).2 (by rwa [← List.getLast?_cons_of_ne_nil hne])
    rw [hls, joinWith_cons] at hrest
    rw [joinWith_cons, List.cons_append, hrest]

/-- The last line of a text without blanks at its ends. -/
theorem exists_last_line (h : Delimited cs) : ∃ init z d, isBlank d = false ∧ lines cs = init ++ [z ++ [d]] := by
  obtain ⟨x, d, rfl⟩ : ∃ x d, cs = x ++ [d] := ⟨_, _, (List.dropLast_append_getLast h.ne_nil).symm⟩
  have hd : isBlank d = false := h.last d (by simp)
  obtain ⟨init, z, -, -, hlines, -⟩ := exists_lines_after (x := x) (isLineBreak_of_solid hd) []
  exact ⟨init, z, d, hd, hlines⟩

/-- When a part of a block is written as it was: its lines end with line feeds and without blanks before
them, and below the first one they have the indentation already, unless they are empty. -/
structure Kept (indent : List Char) (base : Nat) (part : List Char) : Prop where
  breaks : ∀ c ∈ part, isLineBreak c = true → c = '\n'
  ends : ∀ l ∈ lines part, stripEnd l = l
  starts : ∀ l ∈ (lines part).tail, l ≠ [] → base = indent.length ∧ indent <+: l

theorem rebase_eq_self_iff {indent : List Char} {base : Nat} (hindent : Blank indent)
    (hfits : isBlankLine l = false → base ≤ indentWidth l) :
    rebase indent base l = l ↔ stripEnd l = l ∧ (l ≠ [] → base = indent.length ∧ indent <+: l) := by
  cases hblank : isBlankLine l with
  | true =>
    have hnone : stripEnd l = [] := List.rdropWhile_eq_nil_iff.mpr (blank_of_isBlankLine hblank)
    rw [rebase, if_pos hblank, hnone]
    exact ⟨fun h => ⟨h, fun hne => absurd h.symm hne⟩, fun h => h.1⟩
  | false =>
    obtain ⟨a, c, m, rfl, ha, hc, -⟩ := exists_indented hblank
    have hbase := hfits hblank
    have hle := Nat.le_trans hbase (indentWidth_cons hc a m m).2
    rw [rebase_cons hc a m hbase, stripEnd_cons hc, ← List.append_assoc]
    constructor
    · intro h
      have hfront : solid (indent ++ a.drop base) = solid a := by
        rw [solid_append, solid_of_blank hindent, solid_of_blank ha,
          solid_of_blank fun d hd => ha d (List.mem_of_mem_drop hd)]
        rfl
      obtain ⟨ha', hm⟩ := eq_of_append_eq h hfront (by simpa using hc) (by simpa using hc) (by simp) (by simp)
      have hlength := congrArg List.length ha'
      rw [List.length_append, List.length_drop] at hlength
      exact ⟨by rw [hm], fun _ => ⟨by omega, ⟨a.drop base ++ c :: m, by rw [← List.append_assoc, ha']⟩⟩⟩
    · rintro ⟨hm, hstarts⟩
      obtain ⟨rfl, hprefix⟩ := hstarts (by simp)
      have htake : a.take indent.length = indent := by
        rw [List.prefix_iff_eq_take, List.take_append_of_le_length hle] at hprefix
        exact hprefix.symm
      have ha' : indent ++ a.drop indent.length = a := by
        conv_rhs => rw [← List.take_append_drop indent.length a, htake]
      rw [ha', hm]

/-- The lines of a part of a block, as they are written. -/
theorem lines_relaid {indent part : List Char} {base : Nat} (hindent : ∀ c ∈ indent, isIndent c = true)
    (hpart : Delimited part) (hfits : Fits base (lines part).tail) (hls : lines part = l :: ls) :
    relaid indent base part = joinWith ['\n'] (stripEnd l :: ls.map (rebase indent base)) ∧
      lines (relaid indent base part) = stripEnd l :: ls.map (rebase indent base) := by
  have hrelaid : relaid indent base part = joinWith ['\n'] (stripEnd l :: ls.map (rebase indent base)) := by
    rw [relaid, hls, joinWith_cons, behind, below, List.flatMap_map]
  have hunbroken (m : List Char) (hm : m ∈ lines part) : ∀ c ∈ m, isLineBreak c = false :=
    fun c hc => isLineBreak_of_mem_lines hm hc
  have hstrip (m : List Char) : ∀ c ∈ stripEnd m, c ∈ m := fun c hc =>
    (isPrefix_dropEndWhile isBlank m).subset hc
  refine ⟨hrelaid, hrelaid ▸ lines_joinWith (List.forall_mem_cons.mpr ⟨fun c hc => ?_, fun m hm c hc => ?_⟩) ?_⟩
  · exact hunbroken l (hls ▸ List.mem_cons_self) c (hstrip l c hc)
  · obtain ⟨k, hk, rfl⟩ := List.mem_map.mp hm
    unfold rebase at hc
    split at hc
    · cases hc
    · obtain hc | hc := List.mem_append.mp hc
      · exact isLineBreak_of_isIndent (hindent c hc)
      · have hk : k ∈ lines part := hls ▸ List.mem_cons_of_mem l hk
        exact hunbroken k hk c (List.mem_of_mem_drop (hstrip _ c hc))
  · obtain ⟨init, z, d, hd, hlines⟩ := exists_last_line hpart
    rw [hls] at hlines hfits
    cases init with
    | nil =>
      obtain ⟨rfl, rfl⟩ := List.cons.inj hlines
      simp [stripEnd_cons hd]
    | cons k init =>
      obtain ⟨rfl, rfl⟩ := List.cons.inj hlines
      have hbase := hfits _ (by simp) (isBlankLine_eq_false hd z [])
      rw [List.append_eq, List.map_append, ← List.cons_append, List.map_singleton, List.getLast?_concat,
        rebase_cons hd z [] hbase]
      simp

/-- A part of a block is written as it was if and only if it is written so already. -/
theorem relaid_eq_self_iff {indent part : List Char} {base : Nat} (hindent : ∀ c ∈ indent, isIndent c = true)
    (hpart : Delimited part) (hfits : Fits base (lines part).tail) :
    relaid indent base part = part ↔ Kept indent base part := by
  have hblank : Blank indent := fun c hc => isBlank_of_isIndent (hindent c hc)
  obtain ⟨init, z, d, hd, hlines⟩ := exists_last_line hpart
  obtain ⟨l, ls, hls⟩ := List.exists_cons_of_ne_nil (show lines part ≠ [] by rw [hlines]; simp)
  obtain ⟨hrelaid, hwritten⟩ := lines_relaid hindent hpart hfits hls
  have hline (m : List Char) (hm : m ∈ ls) := rebase_eq_self_iff (l := m) hblank (hfits m (by rw [hls]; exact hm))
  constructor
  · intro h
    rw [h, hls] at hwritten
    obtain ⟨hfirst, hrest⟩ := List.cons.inj hwritten
    have hsame : ∀ m ∈ ls, rebase indent base m = id m :=
      List.map_inj_left.mp (hrest.symm.trans (List.map_id ls).symm)
    refine ⟨fun c hc hbreak => ?_, fun m hm => ?_, fun m hm => ?_⟩
    · rw [← h, hrelaid, ← hfirst, ← hrest, joinWith_cons, List.mem_append, List.mem_flatMap] at hc
      have hunbroken {m : List Char} (hm : m ∈ lines part) (hc : c ∈ m) : c = '\n' := by
        cases hbreak.symm.trans (isLineBreak_of_mem_lines hm hc)
      rw [hls] at hunbroken
      obtain hc | ⟨m, hm, hc⟩ := hc
      · exact hunbroken List.mem_cons_self hc
      · obtain rfl | hc := List.mem_cons.mp hc
        · rfl
        · exact hunbroken (List.mem_cons_of_mem l hm) hc
    · rw [hls] at hm
      obtain rfl | hm := List.mem_cons.mp hm
      · exact hfirst.symm
      · exact ((hline m hm).mp (hsame m hm)).1
    · rw [hls] at hm
      exact ((hline m hm).mp (hsame m hm)).2
  · rintro ⟨hbreaks, hends, hstarts⟩
    rw [hls] at hends hstarts
    obtain ⟨hfirst, hends⟩ := List.forall_mem_cons.mp hends
    have hrest : ls.map (rebase indent base) = ls.map id :=
      List.map_congr_left fun m hm => (hline m hm).mpr ⟨hends m hm, hstarts m hm⟩
    rw [hrelaid, hfirst, hrest, List.map_id, ← hls]
    exact joinWith_lines hbreaks fun c hc => isLineBreak_of_solid (hpart.last c hc)

/-- The ends of a part of a block stay where they are. -/
theorem Delimited.relaid {indent part : List Char} {base : Nat} (hpart : Delimited part)
    (hfits : Fits base (lines part).tail) : Delimited (relaid indent base part) := by
  obtain ⟨init, z, d, hd, hlines⟩ := exists_last_line hpart
  have hlast : ∃ w, Text.relaid indent base part = w ++ [d] := by
    rw [Text.relaid]
    rw [hlines] at hfits ⊢
    cases init with
    | nil => exact ⟨z, by simp [behind, below, stripEnd, dropEndWhile, hd]⟩
    | cons l init =>
      have hbase := hfits _ (by simp) (isBlankLine_eq_false hd z [])
      refine ⟨stripEnd l ++ (below indent base init ++ '\n' :: (indent ++ z.drop base)), ?_⟩
      simp [behind, below, rebase_cons hd z [] hbase, stripEnd, dropEndWhile]
  obtain ⟨c, rest, rfl⟩ := List.exists_cons_of_ne_nil hpart.ne_nil
  have hc := hpart.head c rfl
  have hfirst : ∃ w, Text.relaid indent base (c :: rest) = c :: w := by
    rw [Text.relaid, lines_cons (isLineBreak_of_solid hc)]
    exact ⟨_, congrArg (· ++ _) (stripEnd_cons hc [] _)⟩
  obtain ⟨w, hw⟩ := hlast
  obtain ⟨x, hx⟩ := hfirst
  exact ⟨by simp [hw], by simpa [hx] using hc, by simpa [hw] using hd⟩

theorem isBlank_of_isFeed (h : (c == '\n') = true) : isBlank c = true := by
  obtain rfl := beq_iff_eq.mp h
  rfl

/-- A part of a text stands at its place in another one: before and behind it, only blanks differ. -/
def StandsIn (written u part v : List Char) : Prop :=
  ∃ u' v', written = u' ++ (part ++ v') ∧ solid u' = solid u ∧ solid v' = solid v

/-- A part of a moved block is still there as it was if and only if it was written that way already. -/
theorem reindent_keeps_iff {block indent : String} {part : List Char} (hblock : block.toList = u ++ (part ++ v))
    (hpart : Delimited part) (hindent : ∀ c ∈ indent.toList, isIndent c = true) :
    StandsIn (reindent block indent).toList u part v ↔ Kept indent.toList (commonIndent block) part := by
  have hblank : Blank indent.toList := fun c hc => isBlank_of_isIndent (hindent c hc)
  have hnoFeed (c : Char) (hc : isBlank c = false) : (c == '\n') = false :=
    Bool.eq_false_iff.mpr fun h => Bool.eq_false_iff.mp hc (isBlank_of_isFeed h)
  have htrim : trim (· == '\n') block.toList =
      u.dropWhile (· == '\n') ++ (part ++ dropEndWhile (· == '\n') v) := by
    have hhead : ∀ c ∈ (part ++ v).head?, (c == '\n') = false := by
      obtain ⟨c, rest, rfl⟩ := List.exists_cons_of_ne_nil hpart.ne_nil
      exact fun d hd => hnoFeed d (hpart.head d hd)
    have hlast : ∀ c ∈ (u.dropWhile (· == '\n') ++ part).getLast?, (c == '\n') = false := by
      rw [List.getLast?_append_of_ne_nil _ hpart.ne_nil]
      exact fun d hd => hnoFeed d (hpart.last d hd)
    rw [hblock, trim, dropWhile_append u (by simp [hpart.ne_nil]) hhead, ← List.append_assoc,
      dropEndWhile_append (by simp [hpart.ne_nil]) hlast, List.append_assoc]
  have hfits := fits_commonIndent block
  rw [blockLines, htrim] at hfits
  obtain ⟨hfits, u', v', hwritten, hu', hv'⟩ := exists_laid_around hblank hpart _ _ hfits
  rw [solid_dropWhile fun _ => isBlank_of_isFeed] at hu'
  rw [solid_dropEndWhile fun _ => isBlank_of_isFeed] at hv'
  rw [reindent_eq, blockLines, htrim, hwritten, ← relaid_eq_self_iff hindent hpart hfits]
  constructor
  · rintro ⟨u'', v'', heq, hu'', hv''⟩
    have hrelaid : Delimited (relaid indent.toList _ part) := hpart.relaid hfits
    exact hrelaid.eq_of_append_eq hpart heq (hu'.trans hu''.symm) (hv'.trans hv''.symm)
  · intro h
    rw [h]
    exact ⟨u', v', rfl, hu', hv'⟩

end SourceChange.Text
