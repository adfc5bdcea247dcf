import Mathlib.Data.List.Basic
import SourceChange.Element.Attribute

/-!
The text of a prop.

A value that starts and ends with the same quote is taken for a string literal, and one that starts and ends with
a brace for an expression in braces. What stands between is looked at only for double quotes and backslashes, so
an expression such as `'a' + 'b'` is written as one string.
-/

namespace SourceChange.Element

variable {q : Char} {v inner : List Char} {name value : String}

/-- The quotes of string literals. -/
def stringMarks : List Char := ['\x27', '\x22']

/-- Whether a string that is open ends with the last character of a text, and not before. What stands behind a
backslash ends nothing. -/
def endsString (q : Char) : List Char → Bool
  | [] => false
  | [c] => c == q
  | c :: d :: cs => if c == '\\' then endsString q cs else c != q && endsString q (d :: cs)

/-- A text that is a single string literal, in which neither a double quote nor a backslash stands. -/
structure PlainLiteral (v inner : List Char) : Prop where
  literal : ∃ q ∈ stringMarks, v = q :: (inner ++ [q]) ∧ endsString q (inner ++ [q]) = true
  noDouble : '\x22' ∉ inner
  noBackslash : '\\' ∉ inner

/-- A text between two quotes of a kind, in which neither a double quote nor a backslash stands. -/
structure Quoted (v inner : List Char) : Prop where
  marked : ∃ q ∈ stringMarks, v = q :: (inner ++ [q])
  noDouble : '\x22' ∉ inner
  noBackslash : '\\' ∉ inner

/-- A text that starts and ends with a brace. -/
def Braced (v : List Char) : Prop := v.head? = some '\x7b' ∧ v.getLast? = some '\x7d'

/-- A text between two single quotes with a further one between them, so that a string that the first one opens
ends too early. -/
def Misread (v : List Char) : Prop := ∃ inner, v = '\x27' :: (inner ++ ['\x27']) ∧ '\x27' ∈ inner ∧
  '\x22' ∉ inner ∧ '\\' ∉ inner

/-- A prop whose value is a string. -/
def stringProp (name : String) (inner : List Char) : String := name ++ "=\"" ++ String.ofList inner ++ "\""

/-- A prop whose value is an expression. -/
def expressionProp (name : String) (v : List Char) : String := name ++ "=\x7b" ++ String.ofList v ++ "\x7d"

/-- A prop is written as a string only if its value is a plain literal, and any other value that is not in braces
is put into braces as it is. -/
structure TellsLiterals (name value : String) : Prop where
  string : ∀ inner, renderProp name (some value) = stringProp name inner →
    PlainLiteral (Text.strip value.toList) inner
  expression : (∀ inner, ¬ PlainLiteral (Text.strip value.toList) inner) → ¬ Braced (Text.strip value.toList) →
    renderProp name (some value) = expressionProp name (Text.strip value.toList)

/-- Without backslashes every quote of its kind ends a string. -/
theorem endsString_append_iff (hinner : '\\' ∉ inner) : endsString q (inner ++ [q]) = true ↔ q ∉ inner := by
  induction inner with
  | nil => simp [endsString]
  | cons c cs ih =>
    obtain ⟨hc, hcs⟩ := not_or.mp (mt List.mem_cons.mpr hinner)
    obtain ⟨d, rest, hrest⟩ := List.exists_cons_of_ne_nil (List.append_ne_nil_of_right_ne_nil cs (by simp : [q] ≠ []))
    have hcs := ih hcs
    rw [hrest] at hcs
    have hplain : ¬ (c == '\\') = true := by simpa using Ne.symm hc
    rw [List.cons_append, hrest, endsString, if_neg hplain, Bool.and_eq_true, bne_iff_ne, hcs, List.mem_cons,
      not_or, ne_comm]

theorem Quoted.plainLiteral_iff (h : Quoted v inner) : PlainLiteral v inner ↔ ¬ Misread v := by
  obtain ⟨q, hq, rfl⟩ := h.marked
  have hends := endsString_append_iff (q := q) h.noBackslash
  constructor
  · rintro ⟨⟨q', -, heq, hliteral⟩, -, -⟩ ⟨inner', hinner', hmem, -, -⟩
    obtain ⟨rfl, -⟩ := List.cons.inj heq
    obtain ⟨rfl, htail⟩ := List.cons.inj hinner'
    rw [List.append_cancel_right htail] at hends
    exact hends.mp (List.append_cancel_right htail ▸ hliteral) hmem
  · intro hread
    refine ⟨⟨q, hq, rfl, hends.mpr fun hmem => ?_⟩, h.noDouble, h.noBackslash⟩
    obtain rfl | rfl : q = '\x27' ∨ q = '\x22' := by simpa [stringMarks] using hq
    · exact hread ⟨inner, rfl, hmem, h.noDouble, h.noBackslash⟩
    · exact h.noDouble hmem

theorem PlainLiteral.quoted (h : PlainLiteral v inner) : Quoted v inner := by
  obtain ⟨q, hq, hv, -⟩ := h.literal
  exact ⟨⟨q, hq, hv⟩, h.noDouble, h.noBackslash⟩

theorem Misread.quoted (h : Misread v) : ∃ inner, Quoted v inner := by
  obtain ⟨inner, rfl, -, hdouble, hbackslash⟩ := h
  exact ⟨inner, ⟨'\x27', by simp [stringMarks], rfl⟩, hdouble, hbackslash⟩

theorem isQuoted_iff : isQuoted v = true ↔ ∃ q ∈ stringMarks, ∃ inner, v = q :: (inner ++ [q]) := by
  cases v with
  | nil => simp [isQuoted]
  | cons c rest =>
    have hmark : (c == '\x27' || c == '\x22') = true ↔ c ∈ stringMarks := by simp [stringMarks]
    rw [isQuoted, Bool.and_eq_true, hmark, beq_iff_eq, List.getLast?_eq_some_iff]
    constructor
    · rintro ⟨hc, inner, rfl⟩
      exact ⟨c, hc, inner, rfl⟩
    · rintro ⟨q, hq, inner, heq⟩
      obtain ⟨rfl, rfl⟩ := List.cons.inj heq
      exact ⟨hq, inner, rfl⟩

/-- How a value is written, by its shape. -/
inductive Written (name : String) (v : List Char) : String → Prop where
  | string {inner : List Char} (h : Quoted v inner) : Written name v (stringProp name inner)
  | braces (hquoted : ∀ inner, ¬ Quoted v inner) (h : Braced v) : Written name v (name ++ "=" ++ String.ofList v)
  | expression (hquoted : ∀ inner, ¬ Quoted v inner) (h : ¬ Braced v) : Written name v (expressionProp name v)

theorem written_renderProp (name value : String) :
    Written name (Text.strip value.toList) (renderProp name (some value)) := by
  rw [renderProp]
  generalize Text.strip value.toList = v
  dsimp only
  split
  case isTrue hquoted =>
    obtain ⟨q, hq, inner, rfl⟩ := isQuoted_iff.mp hquoted
    have hinner : ((q :: (inner ++ [q])).drop 1).dropLast = inner := by simp
    have hbraces : ¬ Braced (q :: (inner ++ [q])) := by
      rintro ⟨hhead, -⟩
      rw [Option.some.inj hhead] at hq
      exact absurd hq (by decide)
    rw [hinner]
    split
    case isTrue hspecial =>
      simp only [Bool.or_eq_true, List.contains_iff_mem] at hspecial
      refine .expression (fun inner' h => ?_) hbraces
      obtain ⟨q', -, heq⟩ := h.marked
      obtain ⟨rfl, htail⟩ := List.cons.inj heq
      rw [List.append_cancel_right htail] at hspecial
      exact hspecial.elim h.noDouble h.noBackslash
    case isFalse hplain =>
      simp only [Bool.or_eq_true, List.contains_iff_mem, not_or] at hplain
      exact .string ⟨⟨q, hq, rfl⟩, hplain.1, hplain.2⟩
  case isFalse hother =>
    have hquoted (inner : List Char) (h : Quoted v inner) : False := by
      obtain ⟨q, hq, hv⟩ := h.marked
      exact hother (isQuoted_iff.mpr ⟨q, hq, inner, hv⟩)
    split
    case isTrue hbraces => exact .braces hquoted (by simpa [Braced] using hbraces)
    case isFalse hbraces => exact .expression hquoted (by simpa [Braced] using hbraces)

theorem toList_stringProp (name : String) (inner : List Char) :
    (stringProp name inner).toList = name.toList ++ '=' :: '\x22' :: (inner ++ ['\x22']) := by
  simp [stringProp]

theorem toList_expressionProp (name : String) (v : List Char) :
    (expressionProp name v).toList = name.toList ++ '=' :: '\x7b' :: (v ++ ['\x7d']) := by
  simp [expressionProp]

/-- A prop is written as a string exactly if its value stands in quotes. -/
theorem Written.eq_stringProp_iff {text : String} (h : Written name v text) :
    text = stringProp name inner ↔ Quoted v inner := by
  rw [← String.toList_inj]
  cases h with
  | @string inner' hquoted =>
    rw [toList_stringProp, toList_stringProp]
    constructor
    · intro heq
      obtain rfl : inner' = inner := by simpa using heq
      exact hquoted
    · intro hquoted'
      obtain ⟨q, -, rfl⟩ := hquoted.marked
      obtain ⟨q', -, heq⟩ := hquoted'.marked
      obtain ⟨rfl, htail⟩ := List.cons.inj heq
      rw [List.append_cancel_right htail]
  | braces hquoted hbraces =>
    refine iff_of_false (fun heq => ?_) (hquoted inner)
    obtain ⟨rest, rfl⟩ := List.head?_eq_some_iff.mp hbraces.1
    simp [toList_stringProp] at heq
  | expression hquoted =>
    refine iff_of_false (fun heq => ?_) (hquoted inner)
    simp [toList_stringProp, toList_expressionProp] at heq

/-- A prop is put into braces exactly if its value stands neither in quotes nor in braces. -/
theorem Written.eq_expressionProp_iff {text : String} (h : Written name v text) :
    text = expressionProp name v ↔ (∀ inner, ¬ Quoted v inner) ∧ ¬ Braced v := by
  rw [← String.toList_inj]
  cases h with
  | string hquoted =>
    refine iff_of_false (fun heq => ?_) fun hother => hother.1 _ hquoted
    simp [toList_stringProp, toList_expressionProp] at heq
  | braces hquoted hbraces =>
    refine iff_of_false (fun heq => ?_) fun hother => hother.2 hbraces
    have hlength := congrArg List.length heq
    simp [toList_expressionProp] at hlength
  | expression hquoted hbraces => exact iff_of_true rfl ⟨hquoted, hbraces⟩

/-- A prop is written as a string exactly if its value stands in quotes, and put into braces exactly if it stands
neither in quotes nor in braces. So literals are told from expressions in all values but those that start and end
with a single quote and have a further one between them. -/
theorem renderProp_tells_literals (name value : String) :
    (∀ inner, renderProp name (some value) = stringProp name inner ↔ Quoted (Text.strip value.toList) inner) ∧
    (renderProp name (some value) = expressionProp name (Text.strip value.toList) ↔
      (∀ inner, ¬ Quoted (Text.strip value.toList) inner) ∧ ¬ Braced (Text.strip value.toList)) ∧
    (TellsLiterals name value ↔ ¬ Misread (Text.strip value.toList)) := by
  have hwritten := written_renderProp name value
  refine ⟨fun inner => hwritten.eq_stringProp_iff, hwritten.eq_expressionProp_iff, fun htells hmisread => ?_,
    fun hread => ⟨fun inner hstring => ?_, fun hother hbraces => ?_⟩⟩
  · obtain ⟨inner, hquoted⟩ := hmisread.quoted
    have hliteral := htells.string inner (hwritten.eq_stringProp_iff.mpr hquoted)
    exact hquoted.plainLiteral_iff.mp hliteral hmisread
  · have hquoted := hwritten.eq_stringProp_iff.mp hstring
    exact hquoted.plainLiteral_iff.mpr hread
  · refine hwritten.eq_expressionProp_iff.mpr ⟨fun inner hquoted => ?_, hbraces⟩
    exact hother inner (hquoted.plainLiteral_iff.mpr hread)

/-- A sum of two strings is written as one string. -/
example : renderProp "title" (some "'a' + 'b'") = stringProp "title" "a' + 'b".toList := by decide

end SourceChange.Element
