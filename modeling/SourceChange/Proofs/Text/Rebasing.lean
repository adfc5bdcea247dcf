import Mathlib.Data.List.Forall2
import SourceChange.Proofs.Text.Lines

/-!
The rows in which a moved block is written.

Every line of a block is written as one row. Below the first line, an indentation that all lines of code share is
exchanged for another, so a line loses only blanks, and lines stand to each other as they did. Moving a block that
has been moved is therefore the same as moving it once.
-/

namespace SourceChange.Text

variable {c : Char} {indent indent' l text : List Char} {ls rest rows : List (List Char)} {base : Nat}

/-- No character ends a line. -/
def Unbroken (cs : List Char) : Prop := ∀ c ∈ cs, isLineBreak c = false

/-- A text is written in rows, with line feeds between them. -/
structure Rows (text : List Char) (rows : List (List Char)) : Prop where
  whole : text = joinWith ['\n'] rows
  unbroken : ∀ row ∈ rows, Unbroken row

theorem Unbroken.of_subset {cs ds : List Char} (h : Unbroken ds) (hsub : cs ⊆ ds) : Unbroken cs :=
  fun c hc => h c (hsub hc)

theorem Unbroken.append {cs ds : List Char} (h : Unbroken cs) (hds : Unbroken ds) : Unbroken (cs ++ ds) :=
  List.forall_mem_append.mpr ⟨h, hds⟩

theorem unbroken_of_mem_lines {cs : List Char} (hl : l ∈ lines cs) : Unbroken l := fun _ => isLineBreak_of_mem_lines hl

theorem stripEnd_subset (cs : List Char) : stripEnd cs ⊆ cs := (isPrefix_dropEndWhile isBlank cs).subset

theorem strip_subset (cs : List Char) : strip cs ⊆ cs :=
  List.Subset.trans (stripEnd_subset _) (List.dropWhile_suffix isBlank).subset

theorem Unbroken.rebase (hl : Unbroken l) (hindent : Unbroken indent) : Unbroken (rebase indent base l) := by
  unfold Text.rebase
  split
  · exact nofun
  · exact hindent.append (hl.of_subset (List.Subset.trans (stripEnd_subset _) (List.drop_subset base l)))

/-! ### What becomes of a line -/

/-- Blanks before a text are stripped with those it starts with. -/
theorem strip_append_of_blank {u : List Char} (hu : Blank u) (cs : List Char) : strip (u ++ cs) = strip cs :=
  congrArg stripEnd (List.dropWhile_append_of_pos hu)

theorem strip_of_blank {u : List Char} (hu : Blank u) : strip u = [] := by
  have h := strip_append_of_blank hu []
  rwa [List.append_nil] at h

theorem strip_indented (hc : isBlank c = false) {a : List Char} (ha : Blank a) (m : List Char) :
    strip (a ++ c :: m) = c :: stripEnd m := by
  rw [strip_append_of_blank ha]
  exact (congrArg stripEnd (List.dropWhile_cons_of_neg (by simp [hc]))).trans (stripEnd_cons hc [] m)

theorem stripEnd_stripEnd (cs : List Char) : stripEnd (stripEnd cs) = stripEnd cs := by
  have h := stripEnd_append (u := []) (v := stripEnd cs) blank_nil (dropEndWhile_last cs)
  rwa [List.append_nil] at h

theorem indentWidth_indented (hc : isBlank c = false) {a : List Char} (ha : Blank a) (m : List Char) :
    indentWidth (a ++ c :: m) = a.length := by
  rw [indentWidth, List.takeWhile_append_of_pos ha, List.takeWhile_cons_of_neg (by simp [hc]), List.append_nil]

theorem Blank.drop {a : List Char} (ha : Blank a) (n : Nat) : Blank (a.drop n) :=
  fun c hc => ha c (List.mem_of_mem_drop hc)

theorem Blank.append {u v : List Char} (hu : Blank u) (hv : Blank v) : Blank (u ++ v) :=
  List.forall_mem_append.mpr ⟨hu, hv⟩

theorem rebase_of_blank (h : isBlankLine l = true) : rebase indent base l = [] := if_pos h

/-- A line that is indented as far as it is to be cut loses blanks only. -/
theorem strip_rebase (hindent : Blank indent) (hfits : isBlankLine l = false → base ≤ indentWidth l) :
    strip (rebase indent base l) = strip l := by
  cases hl : isBlankLine l with
  | true => rw [rebase_of_blank hl, strip_of_blank (blank_of_isBlankLine hl)]; rfl
  | false =>
    obtain ⟨a, c, m, rfl, ha, hc, hwidth⟩ := exists_indented hl
    rw [rebase_cons hc a m (hfits hl), ← List.append_assoc, strip_indented hc (hindent.append (ha.drop base)),
      strip_indented hc ha, stripEnd_stripEnd]

/-- A line that is cut further than it is indented loses code. -/
theorem strip_rebase_iff (hindent : Blank indent) (hl : isBlankLine l = false) :
    strip (rebase indent base l) = strip l ↔ base ≤ indentWidth l := by
  refine ⟨fun h => ?_, fun h => strip_rebase hindent fun _ => h⟩
  obtain ⟨a, c, m, rfl, ha, hc, hwidth⟩ := exists_indented hl
  rw [hwidth]
  by_contra hcut
  obtain ⟨k, hk⟩ : ∃ k, base - a.length = k + 1 := ⟨base - a.length - 1, by omega⟩
  have hdrop : (a ++ c :: m).drop base = m.drop k := by
    rw [List.drop_append, List.drop_of_length_le (by omega), List.nil_append, hk, List.drop_succ_cons]
  have hsolid := congrArg (List.length ∘ solid) h
  have hcode : solid (a ++ c :: m) = c :: solid m := by
    rw [solid_append, solid_of_blank ha, solid_cons hc, List.nil_append]
  rw [rebase, if_neg (by simp [hl]), hdrop] at hsolid
  simp only [Function.comp_apply, solid_strip, solid_append, solid_of_blank hindent, solid_stripEnd, hcode,
    List.nil_append, List.length_cons] at hsolid
  have hle := ((List.drop_sublist k m).filter (!isBlank ·)).length_le
  rw [solid, solid] at hsolid
  omega

theorem indentWidth_rebase (hindent : Blank indent) (hl : isBlankLine l = false) (hbase : base ≤ indentWidth l) :
    indentWidth (rebase indent base l) = indent.length + (indentWidth l - base) := by
  obtain ⟨a, c, m, rfl, ha, hc, hwidth⟩ := exists_indented hl
  rw [rebase_cons hc a m hbase, ← List.append_assoc, indentWidth_indented hc (hindent.append (ha.drop base)), hwidth,
    List.length_append, List.length_drop]

theorem isBlankLine_rebase (hfits : isBlankLine l = false → base ≤ indentWidth l) :
    isBlankLine (rebase indent base l) = isBlankLine l := by
  cases hl : isBlankLine l with
  | true => rw [rebase_of_blank hl]; rfl
  | false =>
    obtain ⟨a, c, m, rfl, -, hc, -⟩ := exists_indented hl
    rw [rebase_cons hc a m (hfits hl), ← List.append_assoc]
    exact isBlankLine_eq_false hc _ _

/-- A line that is moved on from its new indentation is moved from the old one. -/
theorem rebase_rebase (hfits : isBlankLine l = false → base ≤ indentWidth l) (hindent : Blank indent) :
    rebase indent' indent.length (rebase indent base l) = rebase indent' base l := by
  cases hl : isBlankLine l with
  | true => rw [rebase_of_blank hl, rebase_of_blank hl]; rfl
  | false =>
    obtain ⟨a, c, m, rfl, ha, hc, hwidth⟩ := exists_indented hl
    have hwidth' : indent.length ≤ indentWidth ((indent ++ a.drop base) ++ c :: stripEnd m) := by
      rw [indentWidth_indented hc (hindent.append (ha.drop base)), List.length_append]
      omega
    rw [rebase_cons hc a m (hfits hl), ← List.append_assoc, rebase_cons hc _ _ hwidth', rebase_cons hc a m (hfits hl),
      List.drop_left, stripEnd_stripEnd]

/-! ### What becomes of a block -/

/-- The rows of a block: the first line is stripped, and the others are moved. -/
def moved (indent : List Char) (base : Nat) : List (List Char) → List (List Char)
  | [] => []
  | first :: rest => strip first :: rest.map (rebase indent base)

theorem reindent_eq_joinWith (block indent : String) : (reindent block indent).toList =
    joinWith ['\n'] (moved indent.toList (commonIndent block) (blockLines block)) := by
  unfold reindent commonIndent
  cases blockLines block with
  | nil => rfl
  | cons first rest => exact String.toList_ofList

theorem rows_moved (hls : ∀ l ∈ ls, Unbroken l) (hindent : Unbroken indent) :
    Rows (joinWith ['\n'] (moved indent base ls)) (moved indent base ls) := by
  refine ⟨rfl, ?_⟩
  cases ls with
  | nil => exact nofun
  | cons first rest =>
    obtain ⟨hfirst, hrest⟩ := List.forall_mem_cons.mp hls
    refine List.forall_mem_cons.mpr ⟨hfirst.of_subset (strip_subset first), fun row hrow => ?_⟩
    obtain ⟨l, hl, rfl⟩ := List.mem_map.mp hrow
    exact (hrest l hl).rebase hindent

/-- How the lines of a block are written at another indentation. -/
structure Rebased (indent : List Char) (ls rows : List (List Char)) : Prop where
  /-- Each line is written in one row, and only blanks at its ends change. -/
  same : List.Forall₂ (fun l row => strip row = strip l) ls rows
  first : ∀ x ∈ (ls.zip rows).head?, x.2 = strip x.1
  blank : ∀ x ∈ (ls.zip rows).tail, isBlankLine x.1 = true → x.2 = []
  starts : ∀ x ∈ (ls.zip rows).tail, isBlankLine x.1 = false → indent <+: x.2
  /-- Below the first line, widths of indentations differ by as much as before. -/
  apart : ∀ x ∈ (ls.zip rows).tail, ∀ y ∈ (ls.zip rows).tail, isBlankLine x.1 = false → isBlankLine y.1 = false →
    indentWidth x.2 + indentWidth y.1 = indentWidth y.2 + indentWidth x.1

theorem rebased_moved (hindent : Blank indent) (hfits : Fits base ls.tail) :
    Rebased indent ls (moved indent base ls) := by
  cases ls with
  | nil => exact ⟨.nil, nofun, nofun, nofun, nofun⟩
  | cons first rest =>
    rw [List.tail_cons] at hfits
    -- the rows below the first are those of the lines below the first
    have htail (x : List Char × List Char) (hx : x ∈ ((first :: rest).zip (moved indent base (first :: rest))).tail) :
        x.1 ∈ rest ∧ x.2 = rebase indent base x.1 := by
      rw [moved, List.zip_cons_cons, List.tail_cons, ← List.map_prod_left_eq_zip] at hx
      obtain ⟨l, hl, rfl⟩ := List.mem_map.mp hx
      exact ⟨hl, rfl⟩
    refine ⟨.cons (strip_strip first) ?_, fun x hx => ?_, fun x hx hblank => ?_, fun x hx hcode => ?_,
      fun x hx y hy hxcode hycode => ?_⟩
    · rw [List.forall₂_map_right_iff, List.forall₂_same]
      exact fun l hl => strip_rebase hindent (hfits l hl)
    · cases hx
      rfl
    · rw [(htail x hx).2, rebase_of_blank hblank]
    · rw [(htail x hx).2, rebase, if_neg (by simp [hcode])]
      exact List.prefix_append _ _
    · obtain ⟨hxmem, hxrow⟩ := htail x hx
      obtain ⟨hymem, hyrow⟩ := htail y hy
      have hxbase := hfits x.1 hxmem hxcode
      have hybase := hfits y.1 hymem hycode
      rw [hxrow, hyrow, indentWidth_rebase hindent hxcode hxbase, indentWidth_rebase hindent hycode hybase]
      omega

theorem leastIndent_eq_iff (hcode : ∃ l ∈ ls, isBlankLine l = false) {w : Nat} :
    leastIndent ls = w ↔ (∃ l ∈ ls, isBlankLine l = false ∧ indentWidth l = w) ∧ Fits w ls := by
  obtain ⟨l, hl, hsolid⟩ := hcode
  have hmem := mem_indentWidths.mpr ⟨l, hl, hsolid, rfl⟩
  obtain ⟨k, hk⟩ : ∃ k, (indentWidths ls).min? = some k :=
    Option.ne_none_iff_exists'.mp fun h => List.ne_nil_of_mem hmem (List.min?_eq_none_iff.mp h)
  have hiff : (indentWidths ls).min? = some w ↔ w ∈ indentWidths ls ∧ ∀ b ∈ indentWidths ls, w ≤ b :=
    List.min?_eq_some_iff
  rw [hk, Option.some.injEq] at hiff
  rw [leastIndent, hk, Option.getD_some, hiff, mem_indentWidths]
  refine and_congr_right fun _ => ⟨fun h m hm hcode => h _ (mem_indentWidths.mpr ⟨m, hm, hcode, rfl⟩), fun h b hb => ?_⟩
  obtain ⟨m, hm, hcode, rfl⟩ := mem_indentWidths.mp hb
  exact h m hm hcode

/-- The least indentation of moved lines is the new one. -/
theorem leastIndent_map_rebase (hindent : Blank indent) (hcode : ∃ l ∈ ls, isBlankLine l = false) :
    leastIndent (ls.map (rebase indent (leastIndent ls))) = indent.length := by
  have hfits := fits_leastIndent ls
  obtain ⟨⟨l, hl, hsolid, hleast⟩, -⟩ := (leastIndent_eq_iff hcode).mp rfl
  have hmoved : isBlankLine (rebase indent (leastIndent ls) l) = false :=
    (isBlankLine_rebase (hfits l hl)).trans hsolid
  refine (leastIndent_eq_iff ⟨_, List.mem_map_of_mem hl, hmoved⟩).mpr ⟨⟨_, List.mem_map_of_mem hl, hmoved, ?_⟩, ?_⟩
  · rw [indentWidth_rebase hindent hsolid (hfits l hl hsolid)]
    omega
  · intro row hrow hrowcode
    obtain ⟨k, hk, rfl⟩ := List.mem_map.mp hrow
    rw [isBlankLine_rebase (hfits k hk)] at hrowcode
    rw [indentWidth_rebase hindent hrowcode (hfits k hk hrowcode)]
    omega

theorem trim_eq_self {p : Char → Bool} {cs : List Char} (hhead : ∀ c ∈ cs.head?, p c = false)
    (hlast : ∀ c ∈ cs.getLast?, p c = false) : trim p cs = cs := by
  rw [trim]
  cases cs with
  | nil => rfl
  | cons c cs =>
    rw [List.dropWhile_cons_of_neg (by simp [hhead c rfl])]
    have hkeep := dropEndWhile_append (List.cons_ne_nil c cs) hlast []
    rwa [List.append_nil, show dropEndWhile p [] = [] from rfl, List.append_nil] at hkeep

/-- A row in which code is written, with code at its end. -/
theorem exists_last_row (hls : ls ≠ []) (hlast : ∀ l ∈ ls.getLast?, isBlankLine l = false) (hfits : Fits base ls.tail) :
    ∃ init z c, isBlank c = false ∧ moved indent base ls = init ++ [z ++ [c]] := by
  obtain ⟨above, last, rfl⟩ : ∃ above last, ls = above ++ [last] :=
    ⟨_, _, (List.dropLast_append_getLast hls).symm⟩
  have hcode := hlast last List.getLast?_concat
  have hend {cs : List Char} (hne : stripEnd cs ≠ []) : ∃ z c, isBlank c = false ∧ stripEnd cs = z ++ [c] :=
    ⟨_, _, dropEndWhile_last cs _ (List.getLast?_eq_getLast_of_ne_nil hne),
      (List.dropLast_append_getLast hne).symm⟩
  obtain ⟨a, c, m, rfl, ha, hc, -⟩ := exists_indented hcode
  cases above with
  | nil =>
    have hne : strip (a ++ c :: m) ≠ [] := by simp [strip_indented hc ha]
    obtain ⟨z, d, hd, heq⟩ := hend hne
    exact ⟨[], z, d, hd, congrArg ([·]) heq⟩
  | cons first above =>
    have hbase := hfits _ (by simp) hcode
    have hne : stripEnd (c :: m) ≠ [] := by
      have := stripEnd_cons hc [] m
      simp_all
    obtain ⟨z, d, hd, heq⟩ := hend hne
    refine ⟨strip first :: above.map (rebase indent base), indent ++ (a.drop base ++ z), d, hd, ?_⟩
    have hrow := stripEnd_cons hc [] m
    simp only [List.nil_append] at hrow
    simp [moved, rebase_cons hc a m hbase, ← hrow, heq]

/-- A block that starts and ends with code has its rows as lines when it has been moved. -/
theorem blockLines_reindent {block indent : String} (hne : blockLines block ≠ [])
    (hfirst : ∀ l ∈ (blockLines block).head?, isBlankLine l = false)
    (hlast : ∀ l ∈ (blockLines block).getLast?, isBlankLine l = false) (hindent : Unbroken indent.toList) :
    blockLines (reindent block indent) = moved indent.toList (commonIndent block) (blockLines block) := by
  have hrows : Rows _ (moved indent.toList (commonIndent block) (blockLines block)) :=
    rows_moved (fun l hl => unbroken_of_mem_lines hl) hindent
  obtain ⟨init, z, d, hd, hend⟩ : ∃ init z d, isBlank d = false ∧
      moved indent.toList (commonIndent block) (blockLines block) = init ++ [z ++ [d]] :=
    exists_last_row hne hlast (fits_commonIndent block)
  have hfeed {c : Char} (hc : isBlank c = false) : (c == '\n') = false :=
    Bool.eq_false_iff.mpr fun h => Bool.eq_false_iff.mp hc (isBlank_of_isFeed h)
  rw [blockLines, reindent_eq_joinWith, trim_eq_self]
  · refine lines_joinWith hrows.unbroken fun l hl => ?_
    rw [hend, List.getLast?_concat] at hl
    cases hl
    simp
  · obtain ⟨first, rest, hls⟩ := List.exists_cons_of_ne_nil hne
    rw [hls] at hfirst ⊢
    obtain ⟨a, c, m, rfl, ha, hc, -⟩ := exists_indented (hfirst first rfl)
    rw [moved, strip_indented hc ha, joinWith_cons]
    intro e he
    cases he
    exact hfeed hc
  · have hwhole : ∃ w, joinWith ['\n'] (init ++ [z ++ [d]]) = w ++ [d] := by
      cases init with
      | nil => exact ⟨z, rfl⟩
      | cons row init =>
        rw [joinWith_append _ (List.cons_ne_nil row init) (List.cons_ne_nil _ _), joinWith]
        exact ⟨joinWith ['\n'] (row :: init) ++ ('\n' :: z), by simp⟩
    obtain ⟨w, hw⟩ := hwhole
    rw [hend, hw, List.getLast?_concat]
    intro e he
    cases he
    exact hfeed hd

/-- Moving a block twice is moving it once. -/
theorem reindent_reindent {block indent : String} (hindent : ∀ c ∈ indent.toList, isIndent c = true)
    (hfirst : ∀ l ∈ (blockLines block).head?, isBlankLine l = false)
    (hlast : ∀ l ∈ (blockLines block).getLast?, isBlankLine l = false) (indent' : String) :
    reindent (reindent block indent) indent' = reindent block indent' := by
  have hblank : Blank indent.toList := fun c hc => isBlank_of_isIndent (hindent c hc)
  have hunbroken : Unbroken indent.toList := fun c hc => isLineBreak_of_isIndent (hindent c hc)
  have hfits := fits_commonIndent block
  rw [← String.toList_inj, reindent_eq_joinWith (reindent block indent), reindent_eq_joinWith block]
  cases hls : blockLines block with
  | nil =>
    have hempty : reindent block indent = "" := by rw [reindent, hls]
    have hnone : blockLines "" = [] := rfl
    rw [hempty, hnone]
    rfl
  | cons first rest =>
    have hmoved := blockLines_reindent (by simp [hls]) hfirst hlast hunbroken
    rw [hls] at hmoved hfits hlast
    rw [List.tail_cons] at hfits
    rw [hmoved, moved, moved, moved, strip_strip, List.map_map]
    refine congrArg (fun rows => joinWith ['\n'] (strip first :: rows)) (List.map_congr_left fun l hl => ?_)
    -- there are lines below the first, so there is code, and the least indentation is the new one
    have hcode : ∃ l ∈ rest, isBlankLine l = false := by
      obtain ⟨above, last, rfl⟩ : ∃ above last, rest = above ++ [last] :=
        ⟨_, _, (List.dropLast_append_getLast (List.ne_nil_of_mem hl)).symm⟩
      exact ⟨last, by simp, hlast last (by rw [← List.cons_append]; exact List.getLast?_concat)⟩
    have hcommon : commonIndent (reindent block indent) = indent.toList.length := by
      have hleast := leastIndent_map_rebase hblank hcode
      have hbase : commonIndent block = leastIndent rest := by rw [commonIndent, hls]; rfl
      rw [commonIndent, hmoved, hbase]
      exact hleast
    rw [Function.comp_apply, hcommon, rebase_rebase (hfits l hl) hblank]

/-- A block that is moved to an indentation of spaces and tabs is written line by line, with its lines as far apart as
before. If it starts and ends with code, then moving it on is moving it from where it was; so moving it to the same
indentation again changes nothing. -/
theorem reindent_rebases (block indent : String) (hindent : ∀ c ∈ indent.toList, isIndent c = true) :
    (∃ rows, Rows (reindent block indent).toList rows ∧ Rebased indent.toList (blockLines block) rows) ∧
      ((∀ l ∈ (blockLines block).head?, isBlankLine l = false) →
        (∀ l ∈ (blockLines block).getLast?, isBlankLine l = false) →
          ∀ indent' : String, reindent (reindent block indent) indent' = reindent block indent') := by
  have hblank : Blank indent.toList := fun c hc => isBlank_of_isIndent (hindent c hc)
  have hunbroken : Unbroken indent.toList := fun c hc => isLineBreak_of_isIndent (hindent c hc)
  refine ⟨⟨_, ?_, rebased_moved hblank (fits_commonIndent block)⟩, fun hfirst hlast indent' => ?_⟩
  · rw [reindent_eq_joinWith]
    exact rows_moved (fun l hl => unbroken_of_mem_lines hl) hunbroken
  · exact reindent_reindent hindent hfirst hlast indent'

/-- A block with an empty line in it and a line feed at its end. -/
def nestedBlock : String := "<div>\n\n      <p/>\n    </div>\n"

/-- A block is moved to two spaces and on to a tab. -/
theorem reindent_rebases_nestedBlock :
    (∀ c ∈ "  ".toList, isIndent c = true) ∧
      (∃ rows, Rows (reindent nestedBlock "  ").toList rows ∧ Rebased "  ".toList (blockLines nestedBlock) rows) ∧
      reindent nestedBlock "  " = "<div>\n\n    <p/>\n  </div>" ∧
      reindent (reindent nestedBlock "  ") "\t" = "<div>\n\n\t  <p/>\n\t</div>" := by
  have hindent : ∀ c ∈ "  ".toList, isIndent c = true := List.all_eq_true.mp (by decide)
  obtain ⟨hrows, hagain⟩ := reindent_rebases nestedBlock "  " hindent
  have hon := hagain (by decide +kernel) (by decide +kernel) "\t"
  exact ⟨hindent, hrows, by decide +kernel, hon.trans (by decide +kernel)⟩

/-! ### The bodies of statements -/

theorem indentWidths_append (ls rest : List (List Char)) :
    indentWidths (ls ++ rest) = indentWidths ls ++ indentWidths rest := by
  simp [indentWidths]

theorem indentWidths_of_blank (h : ∀ l ∈ ls, isBlankLine l = true) : indentWidths ls = [] := by
  simpa [indentWidths] using h

theorem indentWidths_cons (hl : isBlankLine l = false) (rest : List (List Char)) :
    indentWidths (l :: rest) = indentWidth l :: indentWidths rest := by
  simp [indentWidths, hl]

theorem indentWidths_eq_nil_iff : indentWidths ls = [] ↔ ∀ l ∈ ls, isBlankLine l = true := by
  simp [indentWidths]

/-- A line of code under an empty first line, the first one of its block, that all lines of code below it are indented
further than. -/
structure Overhangs (above : List (List Char)) (l : List Char) (below : List (List Char)) : Prop where
  empty : above.head? = some []
  blank : ∀ k ∈ above, isBlankLine k = true
  code : isBlankLine l = false
  more : ∃ k ∈ below, isBlankLine k = false
  deeper : ∀ k ∈ below, isBlankLine k = false → indentWidth l < indentWidth k

/-- How far the lines of a body are cut: by the indentation that all lines share, or the lines below a first line that
is not indented. Where that line is empty, the first line of code is left out, too. -/
theorem sharedIndent_cases (first : List Char) (rest : List (List Char)) :
    Fits (sharedIndent first (first :: rest)) (first :: rest) ∨
      (isBlankLine first = false ∧ indentWidth first = 0 ∧ Fits (sharedIndent first (first :: rest)) rest) ∨
      (first = [] ∧ 1 < (indentWidths rest).length ∧
        sharedIndent first (first :: rest) = ((indentWidths rest).drop 1).min?.getD 0) := by
  by_cases hspecial : indentWidth first = 0 ∧ 1 < (indentWidths (first :: rest)).length
  · obtain ⟨hwidth, hmore⟩ := hspecial
    have hshared : sharedIndent first (first :: rest) = ((indentWidths (first :: rest)).drop 1).min?.getD 0 := by
      simp [sharedIndent, hwidth, hmore]
    cases hfirst : isBlankLine first with
    | false =>
      refine .inr (.inl ⟨rfl, hwidth, ?_⟩)
      rw [hshared, indentWidths_cons hfirst]
      exact fits_leastIndent rest
    | true =>
      have hskip : indentWidths (first :: rest) = indentWidths rest := by simp [indentWidths, hfirst]
      rw [hskip] at hshared hmore
      refine .inr (.inr ⟨?_, hmore, hshared⟩)
      have hall : first.takeWhile isBlank = first := List.takeWhile_eq_self_iff.mpr (List.all_eq_true.mp hfirst)
      rw [indentWidth, hall] at hwidth
      exact List.length_eq_zero_iff.mp hwidth
  · have hshared : sharedIndent first (first :: rest) = leastIndent (first :: rest) := by
      unfold sharedIndent
      rw [if_neg (by simpa using hspecial)]
      rfl
    rw [hshared]
    exact .inl (fits_leastIndent _)

theorem lt_leastIndent_iff (hcode : ∃ k ∈ ls, isBlankLine k = false) {w : Nat} :
    w < leastIndent ls ↔ ∀ k ∈ ls, isBlankLine k = false → w < indentWidth k := by
  obtain ⟨⟨k, hk, hsolid, hleast⟩, hfits⟩ := (leastIndent_eq_iff hcode).mp rfl
  exact ⟨fun h m hm hcode => Nat.lt_of_lt_of_le h (hfits m hm hcode), fun h => hleast ▸ h k hk hsolid⟩

/-- Below an empty first line, a body is cut by the least indentation of the lines below the first line of code. -/
theorem Overhangs.sharedIndent_eq {first : List Char} {above below : List (List Char)}
    (h : Overhangs (first :: above) l below) :
    sharedIndent first (first :: (above ++ l :: below)) = leastIndent below := by
  obtain ⟨hempty, hblank, hcode, hmore, -⟩ := h
  obtain rfl : first = [] := by simpa using hempty
  obtain ⟨-, habove⟩ := List.forall_mem_cons.mp hblank
  have hwidths : indentWidths ([] :: (above ++ l :: below)) = indentWidth l :: indentWidths below := by
    have hskip : indentWidths ([] :: (above ++ l :: below)) = indentWidths (above ++ l :: below) := rfl
    rw [hskip, indentWidths_append, indentWidths_of_blank habove, indentWidths_cons hcode, List.nil_append]
  have hne : indentWidths below ≠ [] := by
    obtain ⟨k, hk, hsolid⟩ := hmore
    exact fun hnil => by simp [indentWidths_eq_nil_iff.mp hnil k hk] at hsolid
  have hlength := List.length_pos_of_ne_nil hne
  unfold sharedIndent
  rw [if_pos (by rw [hwidths]; simpa using ⟨rfl, hlength⟩), hwidths]
  rfl

/-- The only line below the first that is cut further than it is indented is the first line of code under an empty
line, if all others are indented further. -/
theorem indentWidth_lt_sharedIndent_iff {first : List Char} {above below : List (List Char)}
    (hl : isBlankLine l = false) :
    indentWidth l < sharedIndent first (first :: (above ++ l :: below)) ↔ Overhangs (first :: above) l below := by
  refine ⟨fun hlt => ?_, fun h => ?_⟩
  · have hmem : l ∈ above ++ l :: below := List.mem_append_right above List.mem_cons_self
    obtain hfits | ⟨-, -, hfits⟩ | ⟨rfl, hlength, hshared⟩ := sharedIndent_cases first (above ++ l :: below)
    · exact absurd (hfits l (List.mem_cons_of_mem first hmem) hl) (Nat.not_le.mpr hlt)
    · exact absurd (hfits l hmem hl) (Nat.not_le.mpr hlt)
    · rw [hshared, indentWidths_append, indentWidths_cons hl] at hlt
      rw [indentWidths_append, indentWidths_cons hl] at hlength
      cases hwidths : indentWidths above with
      | cons w ws =>
        -- a line of code before this one would be the one left out
        rw [hwidths, List.cons_append, List.drop_one, List.tail_cons] at hlt
        have hmem' : indentWidth l ∈ ws ++ indentWidth l :: indentWidths below := by simp
        cases hmin : (ws ++ indentWidth l :: indentWidths below).min? with
        | none => exact absurd (List.min?_eq_none_iff.mp hmin) (List.ne_nil_of_mem hmem')
        | some k =>
          rw [hmin, Option.getD_some] at hlt
          exact absurd ((List.min?_eq_some_iff.mp hmin).2 _ hmem') (Nat.not_le.mpr hlt)
      | nil =>
        rw [hwidths, List.nil_append, List.drop_one, List.tail_cons] at hlt
        rw [hwidths, List.nil_append, List.length_cons] at hlength
        have hmore : ∃ k ∈ below, isBlankLine k = false := by
          obtain ⟨w, hw⟩ := List.exists_mem_of_length_pos (show 0 < (indentWidths below).length by omega)
          obtain ⟨k, hk, hcode, -⟩ := mem_indentWidths.mp hw
          exact ⟨k, hk, hcode⟩
        refine ⟨rfl, List.forall_mem_cons.mpr ⟨rfl, indentWidths_eq_nil_iff.mp hwidths⟩, hl, hmore, ?_⟩
        exact (lt_leastIndent_iff hmore).mp hlt
  · rw [h.sharedIndent_eq]
    exact (lt_leastIndent_iff h.more).mpr h.deeper

/-- The rows of a body: a first line without indentation is stripped, and all others are moved. -/
def statementRows (indent : List Char) : List (List Char) → List (List Char)
  | [] => []
  | first :: rest =>
    let base := sharedIndent first (first :: rest)
    let head :=
      if !isBlankLine first && indentWidth first == 0 then indent ++ strip first else rebase indent base first
    head :: rest.map (rebase indent base)

theorem statementLines_eq_joinWith (body indent : String) :
    (statementLines body indent).toList = joinWith ['\n'] (statementRows indent.toList (blockLines body)) := by
  unfold statementLines
  cases blockLines body with
  | nil => rfl
  | cons first rest => exact String.toList_ofList

theorem length_statementRows (indent : List Char) (ls : List (List Char)) :
    (statementRows indent ls).length = ls.length := by
  cases ls <;> simp [statementRows]

theorem unbroken_statementRows (hls : ∀ l ∈ ls, Unbroken l) (hindent : Unbroken indent) :
    ∀ row ∈ statementRows indent ls, Unbroken row := by
  cases ls with
  | nil => exact nofun
  | cons first rest =>
    obtain ⟨hfirst, hrest⟩ := List.forall_mem_cons.mp hls
    refine List.forall_mem_cons.mpr ⟨?_, fun row hrow => ?_⟩
    · split
      · exact hindent.append (hfirst.of_subset (strip_subset first))
      · exact hfirst.rebase hindent
    · obtain ⟨l, hl, rfl⟩ := List.mem_map.mp hrow
      exact (hrest l hl).rebase hindent

/-- The first line of a body loses blanks only. -/
theorem head_statementRows (hindent : Blank indent) (first : List Char) (rest : List (List Char)) :
    ∃ row, (statementRows indent (first :: rest)).head? = some row ∧ (isBlankLine first = true → row = []) ∧
      strip row = strip first := by
  refine ⟨_, rfl, ?_⟩
  split
  case isTrue hplain =>
    refine ⟨fun hblank => by simp [hblank] at hplain, ?_⟩
    rw [strip_append_of_blank hindent, strip_strip]
  case isFalse hplain =>
    refine ⟨rebase_of_blank, strip_rebase hindent fun hcode => ?_⟩
    obtain hfits | ⟨-, hwidth, -⟩ | ⟨rfl, -⟩ := sharedIndent_cases first rest
    · exact hfits first List.mem_cons_self hcode
    · simp [hcode, hwidth] at hplain
    · cases hcode

/-- A body is written line by line, and blank lines are written as empty ones. A line keeps its code unless it is the
first line of code under an empty first line and all other lines of code are indented further: such a line is cut as
far as the others are indented, and loses the code that it starts with. -/
theorem statementLines_keeps_iff (body indent : String) (hindent : Blank indent.toList) :
    ∃ rows, (statementLines body indent).toList = joinWith ['\n'] rows ∧ rows.length = (blockLines body).length ∧
      (Unbroken indent.toList → Rows (statementLines body indent).toList rows) ∧
      ∀ above l below, blockLines body = above ++ l :: below → ∃ row, rows[above.length]? = some row ∧
        (isBlankLine l = true → row = []) ∧
        (strip row = strip l ↔ ¬ Overhangs above l below) ∧
        (Overhangs above l below → indentWidth l < leastIndent below ∧
          row = indent.toList ++ stripEnd (l.drop (leastIndent below))) := by
  have hwhole := statementLines_eq_joinWith body indent
  refine ⟨_, hwhole, length_statementRows _ _, fun hunbroken => ⟨hwhole, ?_⟩, fun above l below hls => ?_⟩
  · exact unbroken_statementRows (fun l hl => unbroken_of_mem_lines hl) hunbroken
  rw [hls]
  cases above with
  | nil =>
    have hnot : ¬ Overhangs [] l below := fun h => by cases h.empty
    obtain ⟨row, hrow, hblank, hsame⟩ := head_statementRows hindent l below
    exact ⟨row, by rwa [List.head?_eq_getElem?] at hrow, hblank, iff_of_true hsame hnot, fun h => absurd h hnot⟩
  | cons first above =>
    refine ⟨rebase indent.toList (sharedIndent first (first :: (above ++ l :: below))) l, ?_, rebase_of_blank, ?_,
      fun h => ⟨(lt_leastIndent_iff h.more).mpr h.deeper, ?_⟩⟩
    · simp [statementRows]
    · cases hl : isBlankLine l with
      | true =>
        have hnot : ¬ Overhangs (first :: above) l below := fun h => by cases hl.symm.trans h.code
        exact iff_of_true (strip_rebase hindent fun hcode => by cases hl.symm.trans hcode) hnot
      | false => rw [strip_rebase_iff hindent hl, ← indentWidth_lt_sharedIndent_iff hl, Nat.not_lt]
    · rw [h.sharedIndent_eq, rebase, if_neg (by simp [h.code])]

/-- A body with an empty line in front and line ends of two characters. -/
def spacedBody : String := "\r\n  a();\r\n    b();"

/-- The call in the first line of code is cut off. -/
theorem statementLines_keeps_iff_spacedBody :
    Blank "  ".toList ∧ Overhangs [[]] "  a();".toList ["    b();".toList] ∧
      (∃ rows, (statementLines spacedBody "  ").toList = joinWith ['\n'] rows ∧
        ∃ row, rows[1]? = some row ∧ strip row ≠ strip "  a();".toList ∧ row = "  );".toList) ∧
      statementLines spacedBody "  " = "\n  );\n  b();" := by
  have hindent : Blank "  ".toList := List.all_eq_true.mp (by decide)
  have hunder : Overhangs [[]] "  a();".toList ["    b();".toList] :=
    ⟨rfl, by decide +kernel, by decide +kernel, by decide +kernel, by decide +kernel⟩
  obtain ⟨rows, hwhole, -, -, hline⟩ := statementLines_keeps_iff spacedBody "  " hindent
  obtain ⟨row, hrow, -, hkeeps, hcut⟩ := hline [[]] "  a();".toList ["    b();".toList] (by decide +kernel)
  refine ⟨hindent, hunder, ⟨rows, hwhole, row, hrow, fun hsame => hkeeps.mp hsame hunder, ?_⟩, by decide +kernel⟩
  exact (hcut hunder).2.trans (by decide +kernel)

end SourceChange.Text
