import SourceChange.Proofs.Syntax.Parse
import SourceChange.Syntax.Literal

/-!
Literals as nodes: each reader of a literal takes a part of the text that is not empty.
-/

namespace SourceChange.Syntax

theorem digitTail_append (p : Char → Bool) (cs : List Char) :
    (digitTail p cs).1 ++ (digitTail p cs).2 = cs := by
  fun_induction digitTail p cs with
  | case1 => rfl
  | case2 d r hd t r' heq ih =>
    rw [heq] at ih
    simp [ih]
  | case3 d r hd => rfl
  | case4 d r hne hd t r' heq ih =>
    rw [heq] at ih
    simp [ih]
  | case5 d r hne hd => rfl

theorem digits?_reads (p : Char → Bool) (hp : p '_' = false) : Reads (digits? p) := by
  intro cs t r h
  cases cs with
  | nil => cases h
  | cons d cs =>
    rw [digits?] at h
    split at h
    case isFalse => cases h
    case isTrue hd =>
      have heq : digitTail p (d :: cs) = (t, r) := Option.some.inj h
      have happend := digitTail_append p (d :: cs)
      rw [heq] at happend
      refine ⟨happend, ?_⟩
      rintro rfl
      have hmark : d ≠ '_' := by
        rintro rfl
        simp [hp] at hd
      rw [digitTail.eq_3 _ _ _ (fun e r' he _ => hmark he), if_pos hd] at heq
      cases heq

theorem withBigMark_append (x : List Char × List Char) :
    (withBigMark x).1 ++ (withBigMark x).2 = x.1 ++ x.2 := by
  unfold withBigMark
  split <;> simp

theorem exponent_append (cs : List Char) : (exponent cs).1 ++ (exponent cs).2 = cs := by
  unfold exponent
  split
  case h_2 => rfl
  case h_1 e r =>
    split
    case isFalse => rfl
    case isTrue he =>
      split
      case h_1 sign r₁ hsign =>
        have hsigned : sign ++ r₁ = r := by
          split at hsign <;> cases hsign <;> rfl
        split
        case h_1 t r₂ hdigits =>
          have hread := (digits?_reads Char.isDigit (by decide) hdigits).1
          simp [hread, hsigned]
        case h_2 => rfl

theorem basedNumber?_reads (a b : Char) (p : Char → Bool) (hp : p '_' = false) {r t r' : List Char}
    (h : basedNumber? a b p r = some (t, r')) : t ++ r' = a :: b :: r ∧ t ≠ [] := by
  obtain ⟨⟨ds, rest⟩, hdigits, heq⟩ := Option.map_eq_some_iff.mp h
  have hread := (digits?_reads p hp hdigits).1
  have hbig := withBigMark_append (ds, rest)
  generalize withBigMark (ds, rest) = marked at heq hbig
  cases heq
  exact ⟨by simpa [hread] using hbig, by simp⟩

theorem decimalNumber?_reads : Reads decimalNumber? := by
  have hdigits := digits?_reads Char.isDigit (by decide)
  intro cs t r h
  unfold decimalNumber? at h
  split at h
  case h_1 r' =>
    obtain ⟨⟨ds, rest⟩, hfound, heq⟩ := Option.map_eq_some_iff.mp h
    have hexponent := exponent_append rest
    dsimp only at heq
    generalize exponent rest = e at heq hexponent
    cases heq
    exact ⟨by simp [hexponent, (hdigits hfound).1], by simp⟩
  case h_2 =>
    obtain ⟨⟨ds, rest⟩, hfound, heq⟩ := Option.map_eq_some_iff.mp h
    obtain ⟨hread, hne⟩ := hdigits hfound
    dsimp only at heq
    split at heq
    case h_1 r' =>
      cases heq
      exact ⟨by simp [← hread], by simp⟩
    case h_2 r' =>
      have hfraction : ((digits? Char.isDigit r').getD ([], r')).1 ++
          ((digits? Char.isDigit r').getD ([], r')).2 = r' := by
        cases hd : digits? Char.isDigit r' with
        | none => rfl
        | some x => exact (hdigits (t := x.1) (r := x.2) hd).1
      have hexponent := exponent_append ((digits? Char.isDigit r').getD ([], r')).2
      generalize (digits? Char.isDigit r').getD ([], r') = fraction at heq hfraction hexponent
      generalize exponent fraction.2 = e at heq hexponent
      cases heq
      exact ⟨by simp [hexponent, hfraction, ← hread], by simp⟩
    case h_3 =>
      have hexponent := exponent_append rest
      generalize exponent rest = e at heq hexponent
      cases heq
      exact ⟨by simp [hexponent, hread], by simp [hne]⟩

theorem number?_reads : Reads number? := by
  intro cs t r h
  unfold number? at h
  split at h
  case h_1 b rest =>
    split at h
    · exact basedNumber?_reads _ _ _ (by decide) h
    · split at h
      · exact basedNumber?_reads _ _ _ (by decide) h
      · split at h
        · exact basedNumber?_reads _ _ _ (by decide) h
        · exact decimalNumber?_reads h
  case h_2 => exact decimalNumber?_reads h

theorem nameEscape?_reads : Reads nameEscape? := by
  intro cs t r h
  unfold nameEscape? at h
  split at h
  case h_1 rest =>
    dsimp only at h
    split at h
    case h_1 r' hrest =>
      split at h
      · cases h
      · cases h
        have hsplit := List.takeWhile_append_dropWhile (p := isHexDigit) (l := rest)
        rw [hrest] at hsplit
        exact ⟨by simp [hsplit], by simp⟩
    case h_2 => cases h
  case h_2 =>
    split at h
    · cases h
      exact ⟨rfl, by simp⟩
    · cases h
  case h_3 => cases h

theorem escape?_reads : Reads escape? := by
  intro cs t r h
  unfold escape? at h
  split at h
  case h_1 =>
    split at h
    · cases h
      exact ⟨rfl, by simp⟩
    · cases h
  case h_2 => exact nameEscape?_reads h
  case h_3 =>
    cases h
    exact ⟨rfl, by simp⟩
  case h_4 c rest _ _ _ =>
    split at h
    · cases h
    · split at h
      · cases h
        refine ⟨?_, by simp⟩
        -- the digits are a front of what follows the backslash
        have hfront : (c :: rest.take 2).takeWhile (fun d => decide ('0' ≤ d) && decide (d ≤ '7')) <+:
            c :: rest :=
          (List.takeWhile_prefix _).trans (List.take_prefix 3 (c :: rest))
        rw [List.prefix_iff_eq_append] at hfront
        exact congrArg ('\\' :: ·) hfront
      · cases h
        exact ⟨rfl, by simp⟩
  case h_5 => cases h

theorem run?_reads (p : Char → Bool) : Reads (run? p) := by
  intro cs t r h
  unfold run? at h
  split at h
  case h_1 => cases h
  case h_2 hne =>
    cases h
    exact ⟨List.takeWhile_append_dropWhile, hne⟩

theorem reference?_reads : Reads reference? := by
  intro cs t r h
  unfold reference? at h
  split at h
  case h_1 rest =>
    split at h
    case h_1 x r₁ p most hmark =>
      have hmarked : x ++ r₁ = rest := by
        split at hmark <;> cases hmark <;> rfl
      split at h
      case h_1 ds r₂ hrun =>
        have hread := (run?_reads _ hrun).1
        split at h
        · cases h
          exact ⟨by simp [hread, hmarked], by simp⟩
        · cases h
      case h_2 => cases h
  case h_2 rest _ =>
    split at h
    case h_1 ds r' hrun =>
      split at h
      · cases h
        have hread := (run?_reads _ hrun).1
        exact ⟨by simp [hread], by simp⟩
      · cases h
    case h_2 => cases h
  case h_3 => cases h

theorem attributeText_append (quote : Char) (cs : List Char) :
    (attributeText quote cs).1 ++ (attributeText quote cs).2 = cs := by
  fun_induction attributeText quote cs with
  | case1 => rfl
  | case2 c r h => rfl
  | case3 c r h t r' heq ih =>
    rw [heq] at ih
    simp [ih]
  | case4 c r hne h => rfl
  | case5 c r hne h t r' heq ih =>
    rw [heq] at ih
    simp [ih]

theorem regexClass?_append {cs t r : List Char} (h : regexClass? cs = some (t, r)) : t ++ r = cs := by
  fun_induction regexClass? cs generalizing t with
  | case1 => cases h
  | case2 r' =>
    cases h
    rfl
  | case3 => cases h
  | case4 => cases h
  | case5 c r' hc ih =>
    obtain ⟨⟨t', r''⟩, hrest, heq⟩ := Option.map_eq_some_iff.mp h
    cases heq
    simp [ih hrest]
  | case6 c r' _ _ _ ih =>
    obtain ⟨⟨t', r''⟩, hrest, heq⟩ := Option.map_eq_some_iff.mp h
    cases heq
    simp [ih hrest]

theorem regexBody_append {n : Nat} {cs t r : List Char} (h : regexBody n cs = some (t, r)) :
    t ++ r = cs ∧ (cs.head? ≠ some '/' → t ≠ []) := by
  fun_induction regexBody n cs generalizing t with
  | case1 => cases h
  | case2 => cases h
  | case3 _ r' =>
    cases h
    exact ⟨rfl, fun hne => absurd rfl hne⟩
  | case4 => cases h
  | case5 => cases h
  | case6 _ c r' hc ih =>
    obtain ⟨⟨t', r''⟩, hrest, heq⟩ := Option.map_eq_some_iff.mp h
    cases heq
    exact ⟨by simp [(ih hrest).1], by simp⟩
  | case7 _ r' u r'' hclass ih =>
    obtain ⟨⟨t', r₃⟩, hrest, heq⟩ := Option.map_eq_some_iff.mp h
    cases heq
    have hread := regexClass?_append hclass
    exact ⟨by simp [(ih hrest).1, hread], by simp⟩
  | case8 => cases h
  | case9 _ c r' _ _ _ _ ih =>
    obtain ⟨⟨t', r''⟩, hrest, heq⟩ := Option.map_eq_some_iff.mp h
    cases heq
    exact ⟨by simp [(ih hrest).1], by simp⟩

theorem regexPattern?_reads : Reads regexPattern? := by
  intro cs t r h
  unfold regexPattern? at h
  split at h
  case isTrue => cases h
  case isFalse hstart =>
    obtain ⟨happend, hne⟩ := regexBody_append h
    refine ⟨happend, hne ?_⟩
    intro hhead
    simp [hhead] at hstart

namespace Parse

variable {text : List Char}

protected theorem Adds.number : AddsNode text number := .leaf number?_reads (by decide)

protected theorem Adds.quoted {quote : Char} (hquote : quote ∈ quoteMarks) :
    AddsNode text (quoted quote) := by
  unfold Parse.quoted
  have hmark : Spells text (mark (String.ofList [quote])) quote := .mark (by simp)
  refine hmark.bind_adds (.mark _ (by simp)) fun first hfirst _ =>
    .bind (.many1 (.orElse ?_ ?_)) fun inner => .skip .complete fun _ => ?_
  · exact .leafHere (run?_reads _) (by decide)
  · exact .leafHere escape?_reads (by decide)
  · exact hmark.quoted_follows (.mark _ (by simp)) hquote hfirst (.inl rfl)

protected theorem Adds.string : AddsNode text Parse.string :=
  .orElse (.quoted (by decide)) (.quoted (by decide))

protected theorem Adds.attributeQuoted {quote : Char} (hquote : quote ∈ quoteMarks) :
    AddsNode text (attributeQuoted quote) := by
  unfold Parse.attributeQuoted
  refine (Spells.mark (m := quote) (by simp)).bind_adds (.mark _ (by simp)) fun first hfirst _ =>
    .bind (.many ?_) fun inner => ?_
  · refine .orElse (.skip .htmlComment fun _ => .pure rfl) (.orElse (.list ?_) (.list ?_))
    · exact .leafHere reference?_reads (by decide)
    · refine .leafHere (fun cs t r h => ?_) (by decide)
      have happend := attributeText_append quote cs
      split at h
      case h_1 => cases h
      case h_2 u v hne heq =>
        cases h
        rw [heq] at happend
        exact ⟨happend, fun hnil => hne hnil⟩
  · exact (Spells.markHere (by simp)).quoted_follows (.markHere _ (by simp)) hquote hfirst (.inl rfl)

protected theorem Adds.attributeString : AddsNode text attributeString :=
  .orElse (.attributeQuoted (by decide)) (.attributeQuoted (by decide))

protected theorem Adds.regex : AddsNode text regex := by
  unfold Parse.regex
  refine .bind (.mark "/" (by decide)) fun first =>
    .bind (.leafHere regexPattern?_reads (by decide)) fun body => ?_
  refine .bind (.markHere "/" (by decide)) fun last =>
    .bind (.opt1 (.skip .directComments fun _ => ?_)) fun flags => ?_
  · exact .leafHere ((run?_reads _).filter _) (by decide)
  · exact .node ⟨by simp, by simp, by decide⟩

end Parse

end SourceChange.Syntax
