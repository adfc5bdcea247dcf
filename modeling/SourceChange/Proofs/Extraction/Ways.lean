import Mathlib.Data.List.TakeWhile
import SourceChange.Proofs.Disk.Paths
import SourceChange.Proofs.Extraction.Outcome

/-!
Where the names of modules lead.

A relative path is a way: part by part it leads from one place to another. `Path.follow` goes this way
from a place that is given by its parts, last first, and two relative paths have one normal form iff they
lead from the root to one place. Joining paths is going one way after the other; the way that
`Path.relative` finds from one place leads to the other, as long as both lie below the root.
-/

namespace SourceChange

namespace Path

/-- The place to which a path leads from another. -/
def follow (place : List String) (p : String) : List String :=
  (parts p).foldl (pushPart false) place

/-- Whether a path leads out of the place it starts from. -/
def Climbs (p : String) : Prop := (parts (normalize p)).head? = some ".."

instance (p : String) : Decidable (Climbs p) := inferInstanceAs (Decidable (_ = _))

section Parts

theorem splitOnChar_append_sep (sep : Char) (a b : List Char) :
    Text.splitOnChar sep (a ++ sep :: b) = Text.splitOnChar sep a ++ Text.splitOnChar sep b := by
  induction a with
  | nil => exact splitOnChar_sep sep b
  | cons c a ih =>
    cases ha : Text.splitOnChar sep a with
    | nil => exact absurd ha (splitOnChar_ne_nil sep a)
    | cons w ws =>
      rw [List.cons_append, Text.splitOnChar, Text.splitOnChar, ih, ha]
      simp only [List.cons_append]
      split <;> rfl

theorem parts_slash (d p : String) : parts (d ++ "/" ++ p) = parts d ++ parts p := by
  simp [parts, splitOnChar_append_sep]

theorem not_mem_of_mem_parts {p x : String} (hx : x ∈ parts p) : '/' ∉ x.toList := by
  obtain ⟨w, hw, rfl⟩ := List.mem_map.mp hx
  simpa using not_mem_of_mem_splitOnChar hw

/-- A text without slashes is its only part. -/
theorem parts_of_not_mem {x : String} (hx : '/' ∉ x.toList) : parts x = [x] := by
  have hsplit : Text.splitOnChar '/' (x.toList ++ []) = [x.toList ++ []] :=
    splitOnChar_append hx rfl
  rw [List.append_nil] at hsplit
  simp [parts, hsplit]

theorem parts_ofParts {ps : List String} (hps : ps ≠ []) (h : ∀ x ∈ ps, '/' ∉ x.toList) :
    parts (ofParts ps) = ps := by
  induction ps with
  | nil => exact absurd rfl hps
  | cons x rest ih =>
    obtain ⟨hx, hrest⟩ := List.forall_mem_cons.mp h
    cases rest with
    | nil => exact parts_of_not_mem hx
    | cons y rest =>
      have hjoin : ofParts (x :: y :: rest) = x ++ "/" ++ ofParts (y :: rest) :=
        String.intercalate_cons_cons
      rw [hjoin, parts_slash, ih (List.cons_ne_nil y rest) hrest, parts_of_not_mem hx]
      rfl

/-- An absolute path starts with an empty part. -/
theorem head?_parts_of_isAbsolute {p : String} (h : isAbsolute p = true) : (parts p).head? = some "" := by
  obtain ⟨cs, hcs⟩ := List.isPrefixOf_iff_prefix.mp h
  have hp : p.toList = '/' :: cs := hcs.symm
  rw [parts, hp, splitOnChar_sep]
  rfl

/-- What starts like a relative path is one. -/
theorem isAbsolute_of_prefix {p q : String} (hq : isAbsolute q = false) (h : p.toList <+: q.toList) :
    isAbsolute p = false := by
  rw [← Bool.not_eq_true] at hq ⊢
  exact fun hp => hq (List.isPrefixOf_iff_prefix.mpr ((List.isPrefixOf_iff_prefix.mp hp).trans h))

end Parts

section Steps

variable {place : List String}

theorem pushPart_name {n : String} (h : IsName n) (absolute : Bool) (place : List String) :
    pushPart absolute place n = n :: place := by
  simp [pushPart, h.ne_empty, h.ne_here, h.ne_up]

theorem pushPart_up {d : String} (hd : d ≠ "..") (absolute : Bool) (place : List String) :
    pushPart absolute (d :: place) ".." = place := by
  simp [pushPart, hd]

/-- A place on the way from the root: names, above steps up if the way has led out of the root. -/
structure IsPlace (place : List String) : Prop where
  names : ∀ n ∈ place, n = ".." ∨ IsName n
  climbed : ".." ∈ place → place.getLast? = some ".."

theorem isPlace_nil : IsPlace [] := ⟨by simp, by simp⟩

theorem IsPlace.pushPart {part : String} (h : IsPlace place) (hpart : '/' ∉ part.toList) :
    IsPlace (pushPart false place part) := by
  obtain rfl | hempty := eq_or_ne part ""
  · exact h
  obtain rfl | hhere := eq_or_ne part "."
  · exact h
  obtain rfl | hup := eq_or_ne part ".."
  · cases place with
    | nil => exact ⟨by simp [Path.pushPart], by simp [Path.pushPart]⟩
    | cons d ds =>
      obtain rfl | hd := eq_or_ne d ".."
      · have hlast := h.climbed List.mem_cons_self
        refine ⟨fun n hn => ?_, fun _ => ?_⟩
        · obtain rfl | hn := List.mem_cons.mp (show n ∈ ".." :: ".." :: ds from hn)
          · exact .inl rfl
          · exact h.names n hn
        · simpa [Path.pushPart, List.getLast?_cons_cons] using hlast
      · rw [pushPart_up hd]
        refine ⟨fun n hn => h.names n (List.mem_cons_of_mem d hn), fun hmem => ?_⟩
        have hlast := h.climbed (List.mem_cons_of_mem d hmem)
        rwa [List.getLast?_cons_of_ne_nil (List.ne_nil_of_mem hmem)] at hlast
  · have hname : IsName part := ⟨hpart, hempty, hhere, hup⟩
    rw [pushPart_name hname]
    refine ⟨fun n hn => ?_, fun hmem => ?_⟩
    · obtain rfl | hn := List.mem_cons.mp hn
      · exact .inr hname
      · exact h.names n hn
    · obtain heq | hmem := List.mem_cons.mp hmem
      · exact absurd heq.symm hup
      · rw [List.getLast?_cons_of_ne_nil (List.ne_nil_of_mem hmem)]
        exact h.climbed hmem

theorem IsPlace.follow (h : IsPlace place) (p : String) : IsPlace (follow place p) := by
  have hpush (ps : List String) (hps : ∀ x ∈ ps, '/' ∉ x.toList) :
      ∀ place, IsPlace place → IsPlace (ps.foldl (Path.pushPart false) place) := by
    induction ps with
    | nil => exact fun _ h => h
    | cons x ps ih =>
      obtain ⟨hx, hps⟩ := List.forall_mem_cons.mp hps
      exact fun place h => ih hps _ (h.pushPart hx)
  exact hpush (parts p) (fun _ => not_mem_of_mem_parts) place h

/-- A way that has led out of the root never comes back. -/
theorem mem_follow_of_mem (p : String) (h : ".." ∈ place) : ".." ∈ follow place p := by
  have hpush (part : String) (place : List String) (h : ".." ∈ place) :
      ".." ∈ pushPart false place part := by
    unfold pushPart
    split
    · exact h
    · split
      · cases place with
        | nil => exact absurd h List.not_mem_nil
        | cons d ds => grind
      · exact List.mem_cons_of_mem part h
  exact List.foldlRecOn (parts p) (pushPart false) h fun place h part _ => hpush part place h

theorem foldl_names {ps : List String} (h : ∀ n ∈ ps, IsName n) (place : List String) :
    ps.foldl (pushPart false) place = ps.reverse ++ place := by
  induction ps generalizing place with
  | nil => rfl
  | cons n ps ih =>
    obtain ⟨hn, hps⟩ := List.forall_mem_cons.mp h
    rw [List.foldl_cons, pushPart_name hn, ih hps]
    simp

/-- Below the root, steps up take names away. -/
theorem foldl_up (hplace : ".." ∉ place) {k : Nat} (hk : k ≤ place.length) :
    (List.replicate k "..").foldl (pushPart false) place = place.drop k := by
  induction k generalizing place with
  | zero => rfl
  | succ k ih =>
    cases place with
    | nil => exact absurd hk (Nat.not_succ_le_zero k)
    | cons d ds =>
      obtain ⟨hd, hds⟩ := not_or.mp (mt List.mem_cons.mpr hplace)
      rw [List.replicate_succ, List.foldl_cons, pushPart_up (Ne.symm hd), ih hds (Nat.le_of_succ_le_succ hk)]
      rfl

end Steps

section Ways

variable {place : List String} {p q d : String}

theorem follow_slash (place : List String) (d p : String) :
    follow place (d ++ "/" ++ p) = follow (follow place d) p := by
  rw [follow, parts_slash, List.foldl_append]
  rfl

/-- Joining paths is going one way after the other. -/
theorem follow_join (hp : isAbsolute p = false) (place : List String) (d : String) :
    follow place (join d p) = follow (follow place d) p := by
  rw [join, if_neg (by simp [hp])]
  split
  case isFalse => exact follow_slash place d p
  case isTrue h =>
    obtain hd | hd := (Bool.or_eq_true ..).mp h
    · obtain rfl : d = "" := by simpa using hd
      rw [String.empty_append]
      rfl
    · obtain ⟨cs, hcs⟩ := List.isPrefixOf_iff_prefix.mp hd
      have hsplit : d = String.ofList cs.reverse ++ "/" := by
        rw [← String.toList_inj, ← List.reverse_inj, ← hcs]
        simp
      rw [hsplit, follow_slash]
      have hend : follow place (String.ofList cs.reverse ++ "/" ++ "") =
          follow place (String.ofList cs.reverse) := follow_slash ..
      rw [String.append_empty] at hend
      rw [hend]

theorem isAbsolute_join (hd : isAbsolute d = false) (hp : isAbsolute p = false) :
    isAbsolute (join d p) = false := by
  obtain rfl | hne := eq_or_ne d ""
  · simp [join, hp]
  · have hcons (rest : String) : isAbsolute (d ++ rest) = false := by
      cases hcs : d.toList with
      | nil => exact absurd (String.toList_eq_nil_iff.mp hcs) hne
      | cons c cs => simpa [isAbsolute, Text.hasStart, List.isPrefixOf, hcs] using hd
    rw [join, if_neg (by simp [hp])]
    split
    · exact hcons p
    · rw [String.append_assoc]
      exact hcons _

theorem isAbsolute_directory (hp : isAbsolute p = false) : isAbsolute (directory p) = false := by
  have hhead : (split p).1 <+: p.toList := by
    rw [split, ← List.reverse_suffix, List.reverse_reverse]
    exact List.dropWhile_suffix _
  have hdrop : Text.dropEndWhile (· == '/') (split p).1 <+: (split p).1 := by
    rw [Text.dropEndWhile, ← List.reverse_suffix, List.reverse_reverse]
    exact List.dropWhile_suffix _
  refine isAbsolute_of_prefix hp ?_
  rw [directory]
  split
  · simpa using hhead
  · simpa using hdrop.trans hhead

/-- Parts as a path; no part at all stands for the directory itself. -/
def shown (ps : List String) : String := if ps.isEmpty then "." else ofParts ps

theorem follow_shown {ps : List String} (h : ∀ x ∈ ps, '/' ∉ x.toList) (place : List String) :
    follow place (shown ps) = ps.foldl (pushPart false) place := by
  cases ps with
  | nil => rfl
  | cons x rest => rw [shown, follow, if_neg (by simp), parts_ofParts (List.cons_ne_nil x rest) h]

theorem normalParts_eq (hp : isAbsolute p = false) : normalParts p = (follow [] p).reverse := by
  rw [normalParts, hp]
  rfl

theorem root_eq (hp : isAbsolute p = false) : root p = "" := by
  have hlong (pre : String) (hpre : "/".toList <+: pre.toList) : Text.hasStart p pre = false := by
    rw [← Bool.not_eq_true] at hp ⊢
    exact fun h => hp (List.isPrefixOf_iff_prefix.mpr (hpre.trans (List.isPrefixOf_iff_prefix.mp h)))
  rw [root, hlong "///" (by decide), hlong "//" (by decide), hlong "/" (by decide)]
  rfl

theorem normalize_eq (hp : isAbsolute p = false) : normalize p = shown (follow [] p).reverse := by
  have hplace := isPlace_nil.follow p
  rw [normalize, root_eq hp, normalParts_eq hp, String.empty_append]
  cases hps : (follow [] p).reverse with
  | nil => rfl
  | cons x rest =>
    have hslash : ∀ y ∈ x :: rest, '/' ∉ y.toList := fun y hy => by
      obtain rfl | hname := hplace.names y (List.mem_reverse.mp (hps ▸ hy))
      · decide
      · exact hname.noSlash
    have hne : ofParts (x :: rest) ≠ "" := fun hempty => by
      have hparts := parts_ofParts (List.cons_ne_nil x rest) hslash
      rw [hempty] at hparts
      obtain ⟨rfl, -⟩ := List.cons.inj hparts
      obtain h | hname := hplace.names "" (List.mem_reverse.mp (hps ▸ List.mem_cons_self))
      · exact absurd h (by decide)
      · exact hname.ne_empty rfl
    simp only [shown, List.isEmpty_cons, Bool.false_eq_true, if_false]
    rw [if_neg (by simpa using hne)]

/-- The parts of a path in normal form are those of the place that it leads to. -/
theorem parts_normalize (hp : isAbsolute p = false) :
    parts (normalize p) = if follow [] p = [] then ["."] else (follow [] p).reverse := by
  have hslash : ∀ x ∈ (follow [] p).reverse, '/' ∉ x.toList := fun x hx => by
    obtain rfl | hname := (isPlace_nil.follow p).names x (List.mem_reverse.mp hx)
    · decide
    · exact hname.noSlash
  rw [normalize_eq hp, shown]
  split
  case isTrue hempty =>
    rw [if_pos (by simpa using hempty)]
    decide
  case isFalse hne =>
    rw [if_neg (by simpa using hne), parts_ofParts (by simpa using hne) hslash]

/-- A path leads out of the root iff its way ends outside. -/
theorem climbs_iff_mem (hp : isAbsolute p = false) : Climbs p ↔ ".." ∈ follow [] p := by
  rw [Climbs, parts_normalize hp]
  split
  case isTrue hnil =>
    rw [hnil]
    decide
  case isFalse =>
    rw [List.head?_reverse]
    exact ⟨List.mem_of_getLast?, (isPlace_nil.follow p).climbed⟩

/-- A path that stays below the root leads to a place with nothing but names around it. -/
theorem isName_of_mem_follow (hp : isAbsolute p = false) (hbelow : ¬ Climbs p) {n : String}
    (hn : n ∈ follow [] p) : IsName n := by
  refine ((isPlace_nil.follow p).names n hn).resolve_left ?_
  rintro rfl
  exact hbelow ((climbs_iff_mem hp).mpr hn)

/-- The normal form of a path leads where the path does. -/
theorem follow_normalize (hp : isAbsolute p = false) (hbelow : ¬ Climbs p) :
    follow [] (normalize p) = follow [] p := by
  have hnames : ∀ n ∈ (follow [] p).reverse, IsName n := fun n hn =>
    isName_of_mem_follow hp hbelow (List.mem_reverse.mp hn)
  rw [normalize_eq hp, follow_shown fun n hn => (hnames n hn).noSlash, foldl_names hnames]
  simp

/-- The normal form of a path starts at the root iff the path does. -/
theorem isAbsolute_normalize (p : String) : isAbsolute (normalize p) = isAbsolute p := by
  cases hp : isAbsolute p with
  | false =>
    rw [← Bool.not_eq_true]
    intro h
    have hhead := head?_parts_of_isAbsolute h
    rw [parts_normalize hp] at hhead
    split at hhead
    case isTrue => exact absurd hhead (by decide)
    case isFalse =>
      rw [List.head?_reverse] at hhead
      obtain hup | hname := (isPlace_nil.follow p).names "" (List.mem_of_getLast? hhead)
      · exact absurd hup (by decide)
      · exact hname.ne_empty rfl
  | true =>
    have hroot : isAbsolute (root p) = true := by
      rw [isAbsolute] at hp
      rw [root, hp]
      split
      · rfl
      · split <;> rfl
    have habsolute (q : String) : isAbsolute (root p ++ q) = true := by
      rw [isAbsolute, Text.hasStart, List.isPrefixOf_iff_prefix] at hroot ⊢
      rw [String.toList_append]
      exact hroot.trans (List.prefix_append _ _)
    rw [normalize, if_neg]
    · exact habsolute _
    · intro hempty
      have hnone := habsolute (ofParts (normalParts p))
      rw [eq_of_beq hempty] at hnone
      exact absurd hnone (by decide)

theorem commonLength_le (as bs : List String) : commonLength as bs ≤ as.length := by
  fun_induction commonLength as bs <;> simp_all

theorem take_commonLength (as bs : List String) :
    as.take (commonLength as bs) = bs.take (commonLength as bs) := by
  fun_induction commonLength as bs <;> simp_all

/-- The way from one place below the root to another leads there. -/
theorem follow_relative {here there : String} (hhere : isAbsolute here = false) (hhere' : ¬ Climbs here)
    (hthere : isAbsolute there = false) (hthere' : ¬ Climbs there) :
    follow (follow [] here) (relative there here) = follow [] there := by
  have hnames : ∀ n ∈ (follow [] there).reverse, IsName n := fun n hn =>
    isName_of_mem_follow hthere hthere' (List.mem_reverse.mp hn)
  have hup : ".." ∉ follow [] here := fun h => hhere' ((climbs_iff_mem hhere).mpr h)
  let b := (follow [] there).reverse
  let a := (follow [] here).reverse
  let n := commonLength a b
  have hdown : ∀ x ∈ b.drop n, IsName x := fun x hx => hnames x (List.mem_of_mem_drop hx)
  have hslash : ∀ x ∈ List.replicate (a.length - n) ".." ++ b.drop n, '/' ∉ x.toList := by
    intro x hx
    obtain hx | hx := List.mem_append.mp hx
    · rw [List.eq_of_mem_replicate hx]
      decide
    · exact (hdown x hx).noSlash
  have hway : relative there here = shown (List.replicate (a.length - n) ".." ++ b.drop n) := by
    rw [relative, normalParts_eq hthere, normalParts_eq hhere]
    rfl
  have htaken : (follow [] here).drop (a.length - n) = (b.take n).reverse := by
    have hn : n ≤ a.length := commonLength_le a b
    rw [← take_commonLength a b, List.reverse_take, List.reverse_reverse]
  rw [hway, follow_shown hslash, List.foldl_append, foldl_up hup (by simp [a]), htaken, foldl_names hdown,
    ← List.reverse_append, List.take_append_drop]
  exact List.reverse_reverse _

/-- Paths that lead from the root to one place have one normal form. -/
theorem normalize_congr (hp : isAbsolute p = false) (hq : isAbsolute q = false)
    (h : follow [] p = follow [] q) : normalize p = normalize q := by
  rw [normalize_eq hp, normalize_eq hq, h]

theorem not_climbs_congr (hp : isAbsolute p = false) (hq : isAbsolute q = false)
    (h : follow [] p = follow [] q) (hbelow : ¬ Climbs q) : ¬ Climbs p := by
  rwa [Climbs, normalize_congr hp hq h]

/-- If a way stays below the root, so does its first part. -/
theorem not_climbs_of_join (hd : isAbsolute d = false) (hp : isAbsolute p = false)
    (hbelow : ¬ Climbs (join d p)) : ¬ Climbs d := by
  rw [climbs_iff_mem (isAbsolute_join hd hp), follow_join hp] at hbelow
  rw [climbs_iff_mem hd]
  exact fun h => hbelow (mem_follow_of_mem p h)

end Ways

section Extension

variable {p : String}

theorem isName_of_mem_ne_dot {x : String} {c : Char} (hslash : '/' ∉ x.toList) (hc : c ∈ x.toList)
    (hdot : c ≠ '.') : IsName x := by
  refine ⟨hslash, ?_, ?_, ?_⟩ <;> rintro rfl <;> simp_all

/-- A list is cut at the last occurrence of a member. -/
theorem exists_eq_append_cons (c : Char) {cs : List Char} (hc : c ∈ cs) :
    ∃ front, cs = front ++ c :: (cs.reverse.takeWhile (· != c)).reverse ∧
      cs.reverse.dropWhile (· != c) = c :: front.reverse := by
  have hcut := List.takeWhile_append_dropWhile (p := (· != c)) (l := cs.reverse)
  cases hrest : cs.reverse.dropWhile (· != c) with
  | nil =>
    have hnone := List.dropWhile_eq_nil_iff.mp hrest c (List.mem_reverse.mpr hc)
    exact absurd hnone (by simp)
  | cons x tail =>
    obtain rfl : x = c := by
      have h := List.head?_dropWhile_not (· != c) cs.reverse
      simpa [hrest] using h
    rw [hrest] at hcut
    refine ⟨tail.reverse, ?_, by rw [List.reverse_reverse]⟩
    rw [← List.reverse_inj, List.reverse_append, List.reverse_cons, List.reverse_reverse, List.reverse_reverse,
      List.append_assoc]
    exact hcut.symm

/-- A path is cut at its last slash. -/
theorem split_eq (p : String) :
    (split p).1 ++ (split p).2 = p.toList ∧ '/' ∉ (split p).2 ∧
      ((split p).1 = [] ∨ ∃ cs, (split p).1 = cs ++ ['/']) := by
  refine ⟨?_, ?_, ?_⟩
  · rw [split, ← List.reverse_append, List.takeWhile_append_dropWhile, List.reverse_reverse]
  · rw [split, List.mem_reverse]
    intro h
    simpa using List.all_eq_true.mp List.all_takeWhile _ h
  · by_cases hslash : '/' ∈ p.toList
    · obtain ⟨front, -, hbefore⟩ := exists_eq_append_cons '/' hslash
      exact .inr ⟨front, by simp [split, hbefore]⟩
    · left
      rw [split, List.reverse_eq_nil_iff, List.dropWhile_eq_nil_iff]
      intro c hc
      rw [bne_iff_ne]
      rintro rfl
      exact hslash (List.mem_reverse.mp hc)

/-- A name is cut at its last dot, unless only dots stand before it. -/
theorem splitExtension_eq (p : String) :
    (splitExtension p).1 = p ∨ ∃ stem ending : String, IsName stem ∧ IsName (stem ++ ending) ∧
      (splitExtension p).1 = String.ofList (split p).1 ++ stem ∧
      p = String.ofList (split p).1 ++ (stem ++ ending) := by
  obtain ⟨hp, hslash, -⟩ := split_eq p
  rw [splitExtension]
  generalize hdir : (split p).1 = dir at hp ⊢
  generalize hfile : (split p).2 = file at hp hslash ⊢
  rw [← Prod.eta (split p), hdir, hfile]
  dsimp only
  split
  case isFalse => exact .inl rfl
  case isTrue hdot =>
    have hcut := List.takeWhile_append_dropWhile (p := (· == '.')) (l := file)
    generalize hdots : file.takeWhile (· == '.') = dots at hcut ⊢
    generalize hrest : file.dropWhile (· == '.') = rest at hcut hdot ⊢
    obtain ⟨stem, hstem, -⟩ := exists_eq_append_cons '.' (List.contains_iff_mem.mp hdot)
    generalize rest.reverse.takeWhile (· != '.') = suffix at hstem ⊢
    -- all dots at the start are cut off before
    obtain ⟨c, cs, rfl, hc⟩ : ∃ c cs, stem = c :: cs ∧ c ≠ '.' := by
      have hhead := List.head?_dropWhile_not (· == '.') file
      rw [hrest, hstem] at hhead
      cases stem with
      | nil => exact absurd hhead (by simp)
      | cons c cs => exact ⟨c, cs, rfl, by simpa using hhead⟩
    have hstop : rest.length - suffix.length - 1 = (c :: cs).length := by
      simp only [hstem, List.length_append, List.length_cons, List.length_reverse]
      omega
    have hname (ending : List Char) (h : file = dots ++ (c :: cs) ++ ending) (ending' : List Char)
        (hending : ending' <+: ending) : IsName (String.ofList (dots ++ (c :: cs) ++ ending')) := by
      refine isName_of_mem_ne_dot ?_ (c := c) (by simp) hc
      rw [String.toList_ofList]
      exact fun hmem => hslash (h ▸ ((List.prefix_append_right_inj _).mpr hending).subset hmem)
    have hending : file = dots ++ (c :: cs) ++ '.' :: suffix.reverse := by
      rw [← hcut, hstem, List.append_assoc]
    refine .inr ⟨String.ofList (dots ++ c :: cs), String.ofList ('.' :: suffix.reverse), ?_, ?_, ?_, ?_⟩
    · simpa using hname _ hending [] List.nil_prefix
    · rw [← String.ofList_append]
      exact hname _ hending _ List.prefix_rfl
    · rw [hstop, hstem, List.take_left, ← String.ofList_append, List.append_assoc]
    · rw [← String.toList_inj, ← hp, hending]
      simp

/-- The names that a directory can be followed by all lead into it. -/
theorem exists_follow_dir {dir : List Char} (hdir : dir = [] ∨ ∃ cs, dir = cs ++ ['/']) (place : List String) :
    ∃ there, ∀ n, IsName n → follow place (String.ofList dir ++ n) = n :: there := by
  have hname {n : String} (hn : IsName n) (place : List String) : follow place n = n :: place := by
    rw [follow, parts_of_not_mem hn.noSlash]
    exact pushPart_name hn false place
  obtain rfl | ⟨cs, rfl⟩ := hdir
  · exact ⟨place, fun n hn => by rw [String.ofList_nil, String.empty_append, hname hn]⟩
  · refine ⟨follow place (String.ofList cs), fun n hn => ?_⟩
    rw [String.ofList_append, follow_slash, hname hn]

/-- Without its extension, too, a path stays below the root. -/
theorem not_climbs_splitExtension (hp : isAbsolute p = false) (hbelow : ¬ Climbs p) :
    isAbsolute (splitExtension p).1 = false ∧ ¬ Climbs (splitExtension p).1 := by
  obtain heq | ⟨stem, ending, hstem, hfull, hcut, hwhole⟩ := splitExtension_eq p
  · rw [heq]
    exact ⟨hp, hbelow⟩
  · have hrelative : isAbsolute (splitExtension p).1 = false := by
      refine isAbsolute_of_prefix hp ?_
      rw [hcut]
      nth_rewrite 2 [hwhole]
      simp
    refine ⟨hrelative, ?_⟩
    obtain ⟨there, hthere⟩ := exists_follow_dir (split_eq p).2.2 []
    have hlast : follow [] p = (stem ++ ending) :: there := by
      nth_rewrite 1 [hwhole]
      exact hthere _ hfull
    rw [climbs_iff_mem hp, hlast] at hbelow
    rw [climbs_iff_mem hrelative, hcut, hthere stem hstem]
    obtain ⟨-, hup⟩ := not_or.mp (mt List.mem_cons.mpr hbelow)
    exact fun h => (List.mem_cons.mp h).elim (fun heq => hstem.ne_up heq.symm) hup

end Extension

end Path

namespace Extraction

open SourceChange.Path

/-- Whether the name of a module starts at the directory of the file that names it. -/
def IsRelative (name : String) : Prop :=
  Text.hasStart name "./" = true ∨ Text.hasStart name "../" = true

instance (name : String) : Decidable (IsRelative name) := inferInstanceAs (Decidable (_ ∨ _))

variable {dir target name source dest : String}

theorem isRelative_moduleFrom (dir target : String) : IsRelative (moduleFrom dir target) := by
  unfold moduleFrom
  generalize relative target _ = way
  dsimp only
  split
  case isTrue h => exact .inr h
  case isFalse =>
    left
    rw [Text.hasStart, List.isPrefixOf_iff_prefix, String.toList_append]
    exact List.prefix_append _ _

theorem IsRelative.isAbsolute (h : IsRelative name) : isAbsolute name = false := by
  have hfirst (rest : List Char) (hrest : '.' :: rest <+: name.toList) : Path.isAbsolute name = false := by
    obtain ⟨cs, hcs⟩ := hrest
    simp [Path.isAbsolute, Text.hasStart, ← hcs, List.isPrefixOf]
  obtain h | h := h
  · exact hfirst _ (List.isPrefixOf_iff_prefix.mp h)
  · exact hfirst _ (List.isPrefixOf_iff_prefix.mp h)

theorem IsRelative.hasStart (h : IsRelative name) : Text.hasStart name "." = true := by
  have hdot {pre : String} (hpre : ".".toList <+: pre.toList) (h : Text.hasStart name pre = true) :
      Text.hasStart name "." = true :=
    List.isPrefixOf_iff_prefix.mpr (hpre.trans (List.isPrefixOf_iff_prefix.mp h))
  exact h.elim (hdot (by decide)) (hdot (by decide))

/-- The name of a module leads from the directory to the module. -/
theorem follow_moduleFrom (hdir : isAbsolute dir = false) (hdir' : ¬ Climbs dir)
    (htarget : isAbsolute target = false) (htarget' : ¬ Climbs target) :
    follow (follow [] dir) (moduleFrom dir target) = follow [] target := by
  have hway {here : String} (hhere : isAbsolute here = false) (hhere' : ¬ Climbs here)
      (heq : follow [] here = follow [] dir) :
      follow (follow [] dir) (relative target here) = follow [] target := by
    rw [← heq]
    exact follow_relative hhere hhere' htarget htarget'
  have hplace : follow (follow [] dir) (relative target (if dir == "" then "." else dir)) =
      follow [] target := by
    split
    case isTrue h =>
      obtain rfl : dir = "" := by simpa using h
      exact hway (by decide) (by decide) rfl
    case isFalse => exact hway hdir hdir' rfl
  unfold moduleFrom
  generalize relative target _ = way at hplace ⊢
  dsimp only
  split
  case isTrue => exact hplace
  case isFalse =>
    have hhere : follow (follow [] dir) ("." ++ "/" ++ way) = follow (follow [] dir) way := follow_slash ..
    exact hhere.trans hplace

/-- The module that a name denotes, as a path in normal form. -/
def denoted (file name : String) : String := normalize (join (directory file) name)

theorem denoted_moduleFrom (hdest : isAbsolute dest = false) (hdir : ¬ Climbs (directory dest))
    (htarget : isAbsolute target = false) (htarget' : ¬ Climbs target) :
    denoted dest (moduleFrom (directory dest) target) = normalize target := by
  have hdir' := isAbsolute_directory hdest
  have hname := (isRelative_moduleFrom (directory dest) target).isAbsolute
  refine normalize_congr (isAbsolute_join hdir' hname) htarget ?_
  rw [follow_join hname]
  exact follow_moduleFrom hdir' hdir htarget htarget'

/-- A module keeps its place as another file names it. -/
theorem denoted_rebase (hname : IsRelative name) (hsource : isAbsolute source = false)
    (hdest : isAbsolute dest = false) (hdir : ¬ Climbs (directory dest))
    (htarget : ¬ Climbs (join (directory source) name)) :
    IsRelative (rebase name source dest) ∧
      denoted dest (rebase name source dest) = denoted source name := by
  have htarget' := isAbsolute_join (isAbsolute_directory hsource) hname.isAbsolute
  have hnormal := (isAbsolute_normalize _).trans htarget'
  have hplace := follow_normalize htarget' htarget
  have hbelow := not_climbs_congr hnormal htarget' hplace htarget
  rw [rebase, if_pos hname.hasStart]
  refine ⟨isRelative_moduleFrom _ _, ?_⟩
  rw [denoted_moduleFrom hdest hdir hnormal hbelow]
  exact normalize_congr hnormal htarget' hplace

/-- Names of modules keep their meaning: as another file names it, a module keeps its place, also on the
way there and back; and the file that an extraction edits imports the new component from the module that
the extraction creates. -/
theorem modules_keep_place :
    (∀ name source dest : String, IsRelative name → isAbsolute source = false → isAbsolute dest = false →
      ¬ Climbs (directory dest) → ¬ Climbs (join (directory source) name) →
      let there := rebase name source dest
      let back := rebase there dest source
      (IsRelative there ∧ denoted dest there = denoted source name) ∧
        IsRelative back ∧ denoted source back = denoted source name) ∧
    ∀ (d : Draft) (e : Extraction) (r : Source.Reader) (o : Outcome), ((extract d e).on r).1 = .ok o →
      isAbsolute d.path = false → ¬ Climbs (directory d.path) →
      ∃ file content edited module s, o.created = [(file, content)] ∧
        ((Import.merge (d.advance edited) (.named module [e.component])).on s).1 = .ok o.text ∧
        IsRelative module ∧ (isAbsolute file = false → ¬ Climbs file →
          denoted d.path module = normalize (splitExtension file).1) := by
  constructor
  · intro name source dest hname hsource hdest hdir htarget there back
    have hsourceDir := isAbsolute_directory hsource
    obtain ⟨hthere, hsame⟩ := denoted_rebase hname hsource hdest hdir htarget
    have htarget' : ¬ Climbs (join (directory dest) there) := by
      rwa [Climbs, show normalize (join (directory dest) there) = _ from hsame]
    obtain ⟨hback, hagain⟩ := denoted_rebase hthere hdest hsource
      (not_climbs_of_join hsourceDir hname.isAbsolute htarget) htarget'
    exact ⟨⟨hthere, hsame⟩, hback, hagain.trans hsame⟩
  · intro d e r o h hpath hdir
    obtain ⟨t, v, face, edited, hextracts⟩ := exists_extracts h
    refine ⟨_, _, edited, _, _, hextracts.created, hextracts.imported, isRelative_moduleFrom _ _, ?_⟩
    intro hfile hbelow
    obtain ⟨hfile', hbelow'⟩ := not_climbs_splitExtension hfile hbelow
    exact denoted_moduleFrom hpath hdir hfile' hbelow'

/-- Modules beside and above two files, and a component extracted into another directory. -/
theorem modules_keep_place_across_directories :
    (rebase "../api" "src/pages/Home.tsx" "src/ui/parts/List.tsx" = "../../api" ∧
      denoted "src/ui/parts/List.tsx" "../../api" = denoted "src/pages/Home.tsx" "../api" ∧
      denoted "src/pages/Home.tsx" "../api" = "src/api") ∧
    ∃ o file content module, ((extract ⟨"src/a.tsx", .tsx, "f(<b/>);"⟩ ⟨"b", "B", "lib/B.tsx", true, []⟩).on
        .plain).1 = .ok o ∧ o.created = [(file, content)] ∧ IsRelative module ∧
      denoted "src/a.tsx" module = "lib/B" := by
  have hrebase : rebase "../api" "src/pages/Home.tsx" "src/ui/parts/List.tsx" = "../../api" := by
    decide +kernel
  obtain ⟨⟨-, hsame⟩, -⟩ := modules_keep_place.1 "../api" "src/pages/Home.tsx" "src/ui/parts/List.tsx"
    (by decide) (by decide) (by decide) (by decide +kernel) (by decide +kernel)
  rw [hrebase] at hsame
  refine ⟨⟨hrebase, hsame, by decide +kernel⟩, ?_⟩
  have hrun : (((extract ⟨"src/a.tsx", .tsx, "f(<b/>);"⟩ ⟨"b", "B", "lib/B.tsx", true, []⟩).on
      .plain).1.toOption).any (fun o => o.created.map Prod.fst == ["lib/B.tsx"]) = true := by
    decide +kernel
  obtain ⟨o, ho, hfile⟩ := (Option.any_eq_true ..).mp hrun
  have h := toOption_eq_some_iff.mp ho
  obtain ⟨file, content, -, module, -, hcreated, -, hmodule, hplace⟩ :=
    modules_keep_place.2 _ _ _ o h (by decide) (by decide +kernel)
  obtain rfl : file = "lib/B.tsx" := by simpa [hcreated] using hfile
  refine ⟨o, _, content, module, h, hcreated, hmodule, ?_⟩
  rw [hplace (by decide) (by decide +kernel)]
  decide +kernel

end Extraction

end SourceChange
