import SourceChange.CommandLine.Display

/-!
Texts that are made safe to print.

A terminal reads a tag where an even number of backslashes precedes it. Escaping adds nothing but backslashes, so the
tags of an escaped text are those of the text, and it leaves an odd number of backslashes before each of them.
-/

namespace SourceChange.CommandLine

variable {s s' : String} {c d : Char} {cs ds : List Char} {slashes : Nat}

/-- A text without control characters, the tab and the line feed apart. -/
def Clean (s : String) : Prop := ∀ c ∈ s.toList, isControl c = false

instance (s : String) : Decidable (Clean s) := List.decidableBAll _ s.toList

@[simp] theorem clean_append : Clean (s ++ s') ↔ Clean s ∧ Clean s' := by
  simp only [Clean, String.toList_append, List.forall_mem_append]

/-- No tag is read in a text that stands behind some backslashes: each has an odd number of them before it. -/
inductive Inert : Nat → List Char → Prop where
  | nil (slashes : Nat) : Inert slashes []
  | cons {slashes : Nat} {c : Char} {cs : List Char} (htag : (tag? (c :: cs)).isSome = true → slashes % 2 = 1)
      (hrest : Inert (if c = '\\' then slashes + 1 else 0) cs) : Inert slashes (c :: cs)

theorem inert_cons_iff : Inert slashes (c :: cs) ↔
    ((tag? (c :: cs)).isSome = true → slashes % 2 = 1) ∧ Inert (if c = '\\' then slashes + 1 else 0) cs := by
  constructor
  · intro h
    cases h with
    | cons htag hrest => exact ⟨htag, hrest⟩
  · exact fun h => .cons h.1 h.2

/-! ### Tags -/

/-- The characters that decide where a tag ends. -/
def isBracket (c : Char) : Bool := c == ']' || c == '['

theorem isSome_tagBody?_iff : (tagBody? cs).isSome = true ↔ cs.find? isBracket = some ']' := by
  induction cs with
  | nil => simp [tagBody?]
  | cons c cs ih =>
    by_cases hclose : c = ']'
    · simp [tagBody?, isBracket, hclose]
    · by_cases hopen : c = '['
      · simp [tagBody?, isBracket, hopen]
      · rw [List.find?_cons_of_neg (by simp [isBracket, hclose, hopen]), ← ih]
        simp [tagBody?, hclose, hopen]

theorem isSome_tag?_iff : (tag? cs).isSome = true ↔
    ∃ d ds, cs = '[' :: d :: ds ∧ startsTag d = true ∧ ds.find? isBracket = some ']' := by
  unfold tag?
  split
  case h_1 d ds =>
    have hdecide : (∃ e es, '[' :: d :: ds = '[' :: e :: es ∧ startsTag e = true ∧ es.find? isBracket = some ']') ↔
        startsTag d = true ∧ (tagBody? ds).isSome = true := by
      rw [isSome_tagBody?_iff]
      constructor
      · rintro ⟨e, es, heq, hfound⟩
        cases heq
        exact hfound
      · exact fun hfound => ⟨d, ds, rfl, hfound⟩
    rw [hdecide]
    split
    case isTrue hstarts => simp [hstarts]
    case isFalse hstarts => simp [hstarts]
  case h_2 hother =>
    refine iff_of_false (by simp) ?_
    rintro ⟨d, ds, rfl, -⟩
    exact hother d ds rfl

theorem not_isSome_tag?_slash (cs : List Char) : ¬ (tag? ('\\' :: cs)).isSome = true := by
  simp [isSome_tag?_iff]

/-! ### Escaping -/

/-- Nothing is added but backslashes. -/
theorem mem_of_mem_escapeFrom (h : c ∈ escapeFrom slashes cs) : c ∈ cs ∨ c = '\\' := by
  induction cs generalizing slashes with
  | nil => exact .inr (List.eq_of_mem_replicate h)
  | cons d cs ih =>
    rw [escapeFrom] at h
    split at h
    case isTrue => exact (ih h).imp_left (List.mem_cons_of_mem d)
    case isFalse =>
      obtain h | h := List.mem_append.mp h
      · exact .inr (List.eq_of_mem_replicate h)
      · obtain rfl | h := List.mem_cons.mp h
        · exact .inl List.mem_cons_self
        · exact (ih h).imp_left (List.mem_cons_of_mem d)

theorem find?_replicate_slash_append (n : Nat) (cs : List Char) :
    (List.replicate n '\\' ++ cs).find? isBracket = cs.find? isBracket := by
  rw [List.find?_append, List.find?_eq_none.mpr, Option.none_or]
  intro c hc
  rw [List.eq_of_mem_replicate hc]
  decide

/-- Escaping leaves the brackets where they are. -/
theorem find?_escapeFrom (slashes : Nat) (cs : List Char) :
    (escapeFrom slashes cs).find? isBracket = cs.find? isBracket := by
  induction cs generalizing slashes with
  | nil =>
    rw [escapeFrom, ← List.append_nil (List.replicate _ _), find?_replicate_slash_append]
  | cons c cs ih =>
    rw [escapeFrom]
    split
    case isTrue hslash =>
      rw [ih, beq_iff_eq.mp hslash, List.find?_cons_of_neg (by decide)]
    case isFalse => rw [find?_replicate_slash_append, List.find?_cons, List.find?_cons, ih]

/-- An escaped text that starts with no backslash starts with a character of the text. -/
theorem eq_cons_of_escapeFrom_eq_cons (h : escapeFrom slashes cs = d :: ds) (hd : d ≠ '\\') :
    slashes = 0 ∧ ∃ rest, cs = d :: rest ∧ ds = escapeFrom 0 rest := by
  have hslash {n : Nat} {rest : List Char} (h : List.replicate (n + 1) '\\' ++ rest = d :: ds) : False :=
    hd (List.cons.inj h).1.symm
  induction cs generalizing slashes with
  | nil =>
    cases slashes with
    | zero => cases h
    | succ n => exact (hslash (by rw [List.append_nil]; exact h)).elim
  | cons c cs ih =>
    rw [escapeFrom] at h
    split at h
    case isTrue => exact absurd (ih h).1 (Nat.succ_ne_zero slashes)
    case isFalse =>
      dsimp only at h
      split at h
      case isTrue => exact (hslash h).elim
      case isFalse =>
        cases slashes with
        | zero =>
          obtain ⟨rfl, rfl⟩ := List.cons.inj h
          exact ⟨rfl, cs, rfl, rfl⟩
        | succ n => exact (hslash h).elim

/-- A tag of an escaped text is one of the text. -/
theorem isSome_tag?_of_escapeFrom (h : (tag? (c :: escapeFrom 0 cs)).isSome = true) :
    (tag? (c :: cs)).isSome = true := by
  obtain ⟨d, ds, heq, hstarts, hfind⟩ := isSome_tag?_iff.mp h
  obtain ⟨rfl, hcs⟩ := List.cons.inj heq
  have hd : d ≠ '\\' := by
    rintro rfl
    exact absurd hstarts (by decide)
  obtain ⟨-, rest, rfl, rfl⟩ := eq_cons_of_escapeFrom_eq_cons hcs hd
  rw [find?_escapeFrom] at hfind
  exact isSome_tag?_iff.mpr ⟨d, rest, rfl, hstarts, hfind⟩

theorem inert_replicate_append_iff {n : Nat} :
    Inert slashes (List.replicate n '\\' ++ cs) ↔ Inert (slashes + n) cs := by
  induction n generalizing slashes with
  | zero => rfl
  | succ n ih =>
    rw [List.replicate_succ, List.cons_append, inert_cons_iff, if_pos rfl, ih, Nat.add_assoc, Nat.add_comm 1]
    exact and_iff_right fun h => absurd h (not_isSome_tag?_slash _)

theorem inert_escapeFrom (slashes : Nat) (cs : List Char) : Inert 0 (escapeFrom slashes cs) := by
  induction cs generalizing slashes with
  | nil =>
    rw [escapeFrom, ← List.append_nil (List.replicate _ _), inert_replicate_append_iff]
    exact .nil _
  | cons c cs ih =>
    rw [escapeFrom]
    split
    case isTrue => exact ih _
    case isFalse hslash =>
      have hc : c ≠ '\\' := by simpa using hslash
      dsimp only
      rw [inert_replicate_append_iff, inert_cons_iff, if_neg hc]
      refine ⟨fun h => ?_, ih 0⟩
      rw [if_pos (isSome_tag?_of_escapeFrom h)]
      omega

/-- A backslash at the end makes no tag. -/
theorem Inert.concat_slash (h : Inert slashes cs) : Inert slashes (cs ++ ['\\']) := by
  induction h with
  | nil => exact .cons (fun h => absurd h (not_isSome_tag?_slash [])) (.nil _)
  | @cons slashes c cs htag _ ih =>
    refine .cons (fun h => htag ?_) ih
    obtain ⟨d, ds, heq, hstarts, hfind⟩ := isSome_tag?_iff.mp h
    obtain ⟨rfl, hcs⟩ := List.cons.inj heq
    cases cs with
    | nil =>
      cases hcs
      exact absurd hstarts (by decide)
    | cons _ cs =>
      cases hcs
      have hnone : ['\\'].find? isBracket = none := by decide
      have hsame : (cs ++ ['\\']).find? isBracket = cs.find? isBracket := by
        rw [List.find?_append, hnone, Option.or_none]
      exact isSome_tag?_iff.mpr ⟨d, cs, rfl, hstarts, hsame ▸ hfind⟩

/-- No tag is read in an escaped text. -/
theorem inert_escape (s : String) : Inert 0 (escape s).toList := by
  rw [escape, String.toList_ofList]
  split
  case isTrue => exact (inert_escapeFrom 0 s.toList).concat_slash
  case isFalse => exact inert_escapeFrom 0 s.toList

theorem Clean.escape (h : Clean s) : Clean (escape s) := by
  intro c hc
  have hmem : c ∈ escapeFrom 0 s.toList ∨ c = '\\' := by
    rw [CommandLine.escape, String.toList_ofList] at hc
    split at hc
    case isTrue => simpa using hc
    case isFalse => exact .inl hc
  obtain h' | rfl := hmem
  · obtain h' | rfl := mem_of_mem_escapeFrom h'
    · exact h c h'
    · rfl
  · rfl

/-! ### Texts made safe -/

theorem sanitize_of_clean (h : Clean s) : sanitize s = s := by
  rw [sanitize, if_neg]
  simpa [Clean] using h

theorem sanitize_of_not_clean (h : ¬ Clean s) : sanitize s = "[REDACTED]" := by
  rw [sanitize, if_pos]
  simpa [Clean] using h

/-- A text with a control character is withheld. -/
theorem safe_of_not_clean (h : ¬ Clean s) : safe s = "[REDACTED]" := by
  rw [safe, sanitize_of_not_clean h]
  decide

/-- A text without control characters is escaped. -/
theorem safe_of_clean (h : Clean s) : safe s = escape s := by rw [safe, sanitize_of_clean h]

theorem clean_safe (s : String) : Clean (safe s) := by
  by_cases h : Clean s
  · rw [safe_of_clean h]
    exact h.escape
  · rw [safe_of_not_clean h]
    decide

theorem inert_safe (s : String) : Inert 0 (safe s).toList := inert_escape (sanitize s)

end SourceChange.CommandLine
