import SourceChange.Proofs.Extraction.Ways
import SourceChange.Safety

/-!
Which paths a change set may name.

In the normal form of a relative path steps up stand at the front, so a path whose normal form does not start
with one has none at all. A path is accepted iff its normal form is relative, has no step up and is made of plain
characters, where a line feed at its end does not count.
-/

namespace SourceChange.Safety

open SourceChange.Path

variable {p : String} {c : Char}

/-- The characters of plain paths. -/
inductive PlainChar (c : Char) : Prop where
  | lower (h : 'a' ≤ c ∧ c ≤ 'z')
  | upper (h : 'A' ≤ c ∧ c ≤ 'Z')
  | digit (h : '0' ≤ c ∧ c ≤ '9')
  | mark (h : c ∈ ['_', '.', '/', '-', '[', ']', '(', ')', '@', '+'])

theorem isPathChar_iff : isPathChar c = true ↔ PlainChar c := by
  have hmark : "_./-[]()@+".toList = ['_', '.', '/', '-', '[', ']', '(', ')', '@', '+'] := rfl
  have hletters : c.isAlphanum = (c.isUpper || c.isLower || c.isDigit) := rfl
  have hupper : c.isUpper = decide ('A' ≤ c ∧ c ≤ 'Z') := rfl
  have hlower : c.isLower = (decide ('a' ≤ c) && decide (c ≤ 'z')) := rfl
  have hdigit : c.isDigit = (decide ('0' ≤ c) && decide (c ≤ '9')) := rfl
  have hclass : isPathChar c = true ↔ (('A' ≤ c ∧ c ≤ 'Z') ∨ ('a' ≤ c ∧ c ≤ 'z')) ∨ ('0' ≤ c ∧ c ≤ '9') ∨
      c ∈ ['_', '.', '/', '-', '[', ']', '(', ')', '@', '+'] := by
    rw [isPathChar, hmark, hletters, hupper, hlower, hdigit]
    simp only [Bool.or_eq_true, Bool.and_eq_true, decide_eq_true_eq, List.contains_iff_mem, or_assoc]
  rw [hclass]
  constructor
  · rintro ((h | h) | h | h)
    · exact .upper h
    · exact .lower h
    · exact .digit h
    · exact .mark h
  · rintro (h | h | h | h)
    · exact .inl (.inr h)
    · exact .inl (.inl h)
    · exact .inr (.inl h)
    · exact .inr (.inr h)

theorem not_plainChar_feed : ¬ PlainChar '\n' := by
  rw [← isPathChar_iff]
  decide

/-- A text of plain characters with the given characters behind them. -/
def PlainText (s : String) (feed : List Char) : Prop :=
  ∃ body, s.toList = body ++ feed ∧ body ≠ [] ∧ ∀ c ∈ body, PlainChar c

theorem plainText_nil_iff : PlainText p [] ↔ p ≠ "" ∧ ∀ c ∈ p.toList, PlainChar c := by
  constructor
  · rintro ⟨body, hp, hne, hbody⟩
    rw [List.append_nil] at hp
    rw [Ne, ← String.toList_eq_nil_iff, hp]
    exact ⟨hne, hbody⟩
  · rintro ⟨hne, hall⟩
    exact ⟨p.toList, (List.append_nil _).symm, mt String.toList_eq_nil_iff.mp hne, hall⟩

theorem PlainText.getLast?_feed (h : PlainText p ['\n']) : p.toList.getLast? = some '\n' := by
  obtain ⟨body, hp, -, -⟩ := h
  rw [hp, List.getLast?_append]
  rfl

theorem PlainText.getLast?_ne_feed (h : PlainText p []) : p.toList.getLast? ≠ some '\n' := fun hlast =>
  not_plainChar_feed ((plainText_nil_iff.mp h).2 '\n' (List.mem_of_getLast? hlast))

/-- Plain characters may have a line feed behind them. -/
theorem isPlain_iff : isPlain p = true ↔ PlainText p [] ∨ PlainText p ['\n'] := by
  have hplain (body : List Char) : (!body.isEmpty && body.all isPathChar) = true ↔
      body ≠ [] ∧ ∀ c ∈ body, PlainChar c := by
    simp [isPathChar_iff]
  unfold isPlain
  by_cases hfeed : p.toList.getLast? = some '\n'
  · obtain ⟨body, hp⟩ := List.getLast?_eq_some_iff.mp hfeed
    simp only [hfeed, beq_self_eq_true, if_true, hplain]
    rw [hp, List.dropLast_concat]
    constructor
    · exact fun h => .inr ⟨body, hp, h⟩
    · rintro (h | ⟨body', hp', h⟩)
      · exact absurd hfeed h.getLast?_ne_feed
      · obtain rfl := List.append_cancel_right (hp.symm.trans hp')
        exact h
  · have hother : (p.toList.getLast? == some '\n') = false := by simpa using hfeed
    simp only [hother, Bool.false_eq_true, if_false, hplain]
    rw [Ne, String.toList_eq_nil_iff, ← Ne, ← plainText_nil_iff]
    exact ⟨.inl, fun h => h.resolve_right fun h => hfeed h.getLast?_feed⟩

/-- The first piece of a text ends with the text or at a separator. -/
theorem eq_or_exists_of_splitOnChar {sep : Char} {cs w : List Char} {ws : List (List Char)}
    (h : Text.splitOnChar sep cs = w :: ws) : cs = w ∨ ∃ rest, cs = w ++ sep :: rest := by
  induction cs generalizing w ws with
  | nil =>
    cases h
    exact .inl rfl
  | cons c cs ih =>
    obtain ⟨v, vs, hcs⟩ := List.exists_cons_of_ne_nil (splitOnChar_ne_nil sep cs)
    simp only [Text.splitOnChar, hcs] at h
    split at h
    case isTrue hsep =>
      cases h
      exact .inr ⟨cs, by rw [eq_of_beq hsep, List.nil_append]⟩
    case isFalse =>
      cases h
      obtain rfl | ⟨rest, rfl⟩ := ih hcs
      · exact .inl rfl
      · exact .inr ⟨rest, rfl⟩

theorem leadsUp_iff : leadsUp p = true ↔ (parts p).head? = some ".." := by
  rw [leadsUp, Bool.or_eq_true, beq_iff_eq, Text.hasStart, List.isPrefixOf_iff_prefix]
  constructor
  · rintro (rfl | ⟨rest, hrest⟩)
    · decide
    · have hsplit := splitOnChar_append_sep '/' ['.', '.'] rest
      rw [parts, ← hrest]
      exact congrArg (fun ws => (ws.map String.ofList).head?) hsplit
  · intro h
    obtain ⟨w, ws, hsplit⟩ := List.exists_cons_of_ne_nil (splitOnChar_ne_nil '/' p.toList)
    have hw : w = "..".toList := by
      rw [parts, hsplit, List.map_cons, List.head?_cons] at h
      rw [← Option.some.inj h, String.toList_ofList]
    rw [hw] at hsplit
    obtain hp | ⟨rest, hp⟩ := eq_or_exists_of_splitOnChar hsplit
    · exact .inl (String.toList_inj.mp hp)
    · exact .inr ⟨rest, by rw [hp]; rfl⟩

/-- In a normal form, steps up stand at the front only. -/
theorem leadsUp_normalize_iff (hp : isAbsolute p = false) :
    leadsUp (normalize p) = true ↔ ".." ∈ parts (normalize p) := by
  rw [leadsUp_iff, parts_normalize hp]
  split
  case isTrue => decide
  case isFalse =>
    rw [List.head?_reverse, List.mem_reverse]
    exact ⟨List.mem_of_getLast?, (isPlace_nil.follow p).climbed⟩

/-- A path that stays below the directory it is relative to. -/
structure StaysBelow (p : String) : Prop where
  nonempty : p ≠ ""
  relative : isAbsolute (normalize p) = false
  inside : ".." ∉ parts (normalize p)

theorem normalize_ne_empty (p : String) : normalize p ≠ "" := by
  rw [Path.normalize]
  split
  case isTrue => decide
  case isFalse hne => simpa using hne

/-- A change set may name exactly the paths that stay below their directory and whose normal form is made of plain
characters, with or without a line feed at its end. Those without one are the paths that stay below their directory
and have a normal form of plain characters throughout. -/
theorem isSafePath_iff (p : String) :
    (isSafePath p = true ↔
      StaysBelow p ∧ (PlainText (normalize p) [] ∨ PlainText (normalize p) ['\n'])) ∧
    (isSafePath p = true ∧ (normalize p).toList.getLast? ≠ some '\n' ↔
      StaysBelow p ∧ ∀ c ∈ (normalize p).toList, PlainChar c) := by
  have hexact : isSafePath p = true ↔
      StaysBelow p ∧ (PlainText (normalize p) [] ∨ PlainText (normalize p) ['\n']) := by
    simp only [isSafePath, Bool.and_eq_true, bne_iff_ne, Bool.not_eq_true', isPlain_iff]
    constructor
    · rintro ⟨⟨⟨hne, hup⟩, habsolute⟩, hplain⟩
      rw [← Bool.not_eq_true, leadsUp_normalize_iff ((isAbsolute_normalize p).symm.trans habsolute)] at hup
      exact ⟨⟨hne, habsolute, hup⟩, hplain⟩
    · rintro ⟨⟨hne, habsolute, hup⟩, hplain⟩
      rw [← leadsUp_normalize_iff ((isAbsolute_normalize p).symm.trans habsolute), Bool.not_eq_true] at hup
      exact ⟨⟨⟨hne, hup⟩, habsolute⟩, hplain⟩
  refine ⟨hexact, ?_⟩
  rw [hexact]
  constructor
  · rintro ⟨⟨hbelow, hplain | hfeed⟩, hlast⟩
    · exact ⟨hbelow, (plainText_nil_iff.mp hplain).2⟩
    · exact absurd hfeed.getLast?_feed hlast
  · rintro ⟨hbelow, hall⟩
    have hplain := plainText_nil_iff.mpr ⟨normalize_ne_empty p, hall⟩
    exact ⟨⟨hbelow, .inl hplain⟩, hplain.getLast?_ne_feed⟩

/-- A line feed at the end is let pass. -/
example : isSafePath "src/App.tsx\n" = true ∧ isSafePath "src/a/../b/Card.tsx" = true ∧
    isSafePath "src/../../outside.tsx" = false := by
  decide +kernel

end SourceChange.Safety
