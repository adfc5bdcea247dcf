import SourceChange.Proofs.Syntax.Parse
import SourceChange.Syntax.Grammar.Elements

/-!
Tokens in front of another text.

Where what stood behind a token changes, the token may be read differently: a line comment reaches up to the
end of its line, and a name goes on with all characters of a name.
-/

namespace SourceChange.Syntax

/-- Whether a name goes on in the text behind it: with a character of a name, or with a dash if names of
tags may have one there. -/
def goesOn (name rest : List Char) : Bool :=
  !(nameRun 0 rest).1.isEmpty || (rest.head? == some '-' && name.all Rules.isTagChar)

/-- How a token is read where a text follows it at once. A line comment takes in the rest of the line, a
block comment ends where it ended, and a name ends there if and only if it does not go on. -/
structure Borders (token rest : List Char) : Prop where
  line : ∀ body, token = '/' :: '/' :: body → (∀ c ∈ body, endsLine c = false) →
    comment? (token ++ rest) = some (token ++ rest.takeWhile (!endsLine ·), rest.dropWhile (!endsLine ·))
  block : ∀ body, token = '/' :: '*' :: body → comment? token = some (token, []) →
    comment? (token ++ rest) = some (token, rest)
  name : ∀ c cs, token = c :: cs → isNameStart c = true → (∀ x ∈ cs, isNameChar x = true) →
    (Rules.tagWord? (token ++ rest) = some (token, rest) ↔ goesOn token rest = false)

section Comments

variable {body cs t r : List Char}

theorem comment?_line (hbody : ∀ c ∈ body, endsLine c = false) (rest : List Char) :
    comment? ('/' :: '/' :: (body ++ rest)) =
      some ('/' :: '/' :: (body ++ rest.takeWhile (!endsLine ·)), rest.dropWhile (!endsLine ·)) := by
  have hline : ∀ c ∈ body, (!endsLine c) = true := fun c hc => by simp [hbody c hc]
  rw [comment?, List.takeWhile_append_of_pos hline, List.dropWhile_append_of_pos hline]

theorem blockEnd?_append (h : blockEnd? cs = some (t, r)) (rest : List Char) :
    blockEnd? (cs ++ rest) = some (t, r ++ rest) := by
  induction cs using blockEnd?.induct generalizing t with
  | case1 => cases h
  | case2 r' =>
    cases h
    rfl
  | case3 c r' hstop ih =>
    rw [blockEnd?.eq_3 c r' hstop, Option.map_eq_some_iff] at h
    obtain ⟨⟨t', r''⟩, hend, heq⟩ := h
    cases heq
    -- what is put behind does not end the comment earlier
    have hstop' : ∀ r, c = '*' → r' ++ rest = '/' :: r → False := by
      intro r hc hr
      cases r' with
      | nil => cases hend
      | cons x xs =>
        obtain ⟨rfl, -⟩ := List.cons.inj hr
        exact hstop xs hc rfl
    rw [List.cons_append, blockEnd?.eq_3 c _ hstop', ih hend]
    rfl

end Comments

section Names

variable {name : List Char}

theorem nameRun_append_of_forall (hname : ∀ c ∈ name, isNameChar c = true) (rest : List Char) :
    nameRun 0 (name ++ rest) = (name ++ (nameRun 0 rest).1, (nameRun 0 rest).2) := by
  induction name with
  | nil => rfl
  | cons c name ih =>
    obtain ⟨hc, hname⟩ := List.forall_mem_cons.mp hname
    rw [List.cons_append, nameRun, if_pos hc, ih hname]
    rfl

/-- The word at the front of a text, given the name there. -/
theorem tagWord?_eq {text v : List Char} (h : name? text = some (name, v)) :
    ∃ w r, Rules.tagWord? text = some (name ++ w, r) ∧
      (w = [] ↔ ¬ (v.head? = some '-' ∧ name.all Rules.isTagChar = true)) ∧ (w = [] → r = v) := by
  unfold Rules.tagWord?
  rw [h]
  split
  case h_1 t r heq =>
    cases heq
    split
    case isTrue hall => exact ⟨_, _, rfl, by simp [hall], by simp⟩
    case isFalse hall => exact ⟨[], _, by rw [List.append_nil], by simp [hall], fun _ => rfl⟩
  case h_2 hdash =>
    refine ⟨[], v, by rw [List.append_nil], iff_of_true rfl fun hboth => ?_, fun _ => rfl⟩
    obtain ⟨r, rfl⟩ := List.head?_eq_some_iff.mp hboth.1
    exact hdash name r rfl

/-- A name is read up to its end if and only if it does not go on. -/
theorem tagWord?_append_iff {c : Char} {cs : List Char} (hstart : isNameStart c = true)
    (hname : ∀ x ∈ cs, isNameChar x = true) (rest : List Char) :
    Rules.tagWord? (c :: cs ++ rest) = some (c :: cs, rest) ↔ goesOn (c :: cs) rest = false := by
  have hall : ∀ x ∈ c :: cs, isNameChar x = true :=
    List.forall_mem_cons.mpr ⟨(Bool.and_eq_true_iff.mp hstart).1, hname⟩
  have hread : name? (c :: cs ++ rest) = some (c :: cs ++ (nameRun 0 rest).1, (nameRun 0 rest).2) := by
    rw [← nameRun_append_of_forall hall, List.cons_append, name?, hstart]
    rfl
  obtain ⟨w, r, hword, hw, hr⟩ := tagWord?_eq hread
  have happend := nameRun_append 0 rest
  rw [hword, goesOn]
  generalize c :: cs = name at hw ⊢
  generalize nameRun 0 rest = run at *
  obtain ⟨u, v⟩ := run
  cases u with
  | nil =>
    obtain rfl : v = rest := happend
    rw [List.append_nil] at hw ⊢
    have hsame : some (name ++ w, r) = some (name, v) ↔ w = [] := by
      constructor
      · intro heq
        exact List.append_right_eq_self.mp (Prod.mk.inj (Option.some.inj heq)).1
      · intro hnil
        rw [hnil, hr hnil, List.append_nil]
    rw [hsame, hw, List.isEmpty_nil, Bool.not_true, Bool.false_or, ← Bool.not_eq_true, Bool.and_eq_true,
      beq_iff_eq]
  | cons x u => simp

/-- The name of an attribute goes on with that of a tag where nothing stands between them. -/
example : goesOn "div".toList "b=\"y\">".toList = true := by decide

end Names

/-- Every token is read in this way in front of every text. -/
theorem borders (token rest : List Char) : Borders token rest where
  line body htoken hbody := by
    rw [htoken]
    exact comment?_line hbody rest
  block body htoken hread := by
    rw [htoken, comment?, Option.map_eq_some_iff] at hread
    obtain ⟨⟨t, r⟩, hend, heq⟩ := hread
    cases heq
    rw [htoken]
    exact congrArg (Option.map _) (blockEnd?_append hend rest)
  name c cs hname hstart hall := hname ▸ tagWord?_append_iff hstart hall rest

end SourceChange.Syntax
