import SourceChange.Proofs.Text.Words
import SourceChange.Text.Indent

/-!
The compact form of a text.

A text is compact if its only blanks are single spaces between characters that are no brackets. Every text has a
compact form, which is got by taking blanks away or making them spaces, and a compact text is its own compact form.
So texts with one compact form differ in blanks only.
-/

namespace SourceChange.Text

variable {c d e : Char} {cs u v w : List Char} {ws : List (List Char)} {before : Option Char} {P Q : Char → Prop}

/-- A character next to which a space may stand. -/
structure Plain (c : Char) : Prop where
  solid : isBlank c = false
  unbracketed : isBracket c = false

/-- The blanks of a text are single spaces between characters that are neither blanks nor brackets. -/
def Tight (cs : List Char) : Prop :=
  ∀ u c v, cs = u ++ c :: v → isBlank c = true →
    c = ' ' ∧ (∃ d ∈ u.getLast?, Plain d) ∧ ∃ e ∈ v.head?, Plain e

/-- Texts of which every blank is a space with such characters on both sides; one stands before the text. -/
def Spaced (P : Char → Prop) (before : Option Char) : List Char → Prop
  | [] => True
  | c :: cs => (isBlank c = true → c = ' ' ∧ (∃ d ∈ before, P d) ∧ ∃ e ∈ cs.head?, P e) ∧ Spaced P (some c) cs

theorem spaced_cons_of_solid (hc : isBlank c = false) : Spaced P before (c :: cs) ↔ Spaced P (some c) cs := by
  simp [Spaced, hc]

theorem getLast?_cons_or (b : Char) (u : List Char) (before : Option Char) :
    (b :: u).getLast?.or before = u.getLast?.or (some b) := by
  rw [List.getLast?_cons]
  cases u.getLast? <;> rfl

theorem spaced_iff : Spaced P before cs ↔
    ∀ u c v, cs = u ++ c :: v → isBlank c = true →
      c = ' ' ∧ (∃ d ∈ u.getLast?.or before, P d) ∧ ∃ e ∈ v.head?, P e := by
  induction cs generalizing before with
  | nil => simp [Spaced]
  | cons b cs ih =>
    rw [Spaced, ih]
    constructor
    · rintro ⟨hb, hcs⟩ u c v h hc
      cases u with
      | nil =>
        cases h
        exact hb hc
      | cons a u =>
        obtain ⟨rfl, htail⟩ := List.cons.inj h
        rw [getLast?_cons_or]
        exact hcs u c v htail hc
    · intro h
      refine ⟨h [] b cs rfl, fun u c v hcs hc => ?_⟩
      rw [← getLast?_cons_or b u before]
      exact h (b :: u) c v (congrArg (b :: ·) hcs) hc

theorem tight_iff : Tight cs ↔ Spaced Plain none cs := by
  rw [spaced_iff]
  simp only [Option.or_none]
  rfl

theorem Spaced.mono (h : Spaced P before cs) (hPQ : ∀ c, P c → Q c) : Spaced Q before cs := by
  rw [spaced_iff] at h ⊢
  intro u c v hcs hc
  obtain ⟨hspace, ⟨d, hd, hPd⟩, e, he, hPe⟩ := h u c v hcs hc
  exact ⟨hspace, ⟨d, hd, hPQ d hPd⟩, e, he, hPQ e hPe⟩

/-- A space can only stand behind another character. -/
theorem Spaced.head_solid (h : Spaced P none cs) : ∀ c ∈ cs.head?, isBlank c = false := by
  cases cs with
  | nil => exact nofun
  | cons c cs =>
    intro d hd
    cases hd
    refine Bool.eq_false_iff.mpr fun hc => ?_
    obtain ⟨-, ⟨d, hd, -⟩, -⟩ := h.1 hc
    cases hd

theorem Spaced.last_solid (h : Spaced P before cs) : ∀ c ∈ cs.getLast?, isBlank c = false := by
  intro c hc
  refine Bool.eq_false_iff.mpr fun hblank => ?_
  obtain ⟨u, rfl⟩ := List.getLast?_eq_some_iff.mp hc
  obtain ⟨-, -, e, he, -⟩ := spaced_iff.mp h u c [] rfl hblank
  cases he

/-! ### Words on one line -/

theorem spaced_append_word (hw : Word w) : Spaced P before (w ++ v) ↔ Spaced P w.getLast? v := by
  obtain ⟨hne, hsolid⟩ := hw
  induction w generalizing before with
  | nil => exact absurd rfl hne
  | cons c w ih =>
    obtain ⟨hc, hsolid⟩ := List.forall_mem_cons.mp hsolid
    rw [List.cons_append, spaced_cons_of_solid hc]
    cases w with
    | nil => rfl
    | cons d w => rw [ih (List.cons_ne_nil d w) hsolid, List.getLast?_cons_cons]

theorem spaced_joinWith (hws : ∀ w ∈ ws, Word w) : Spaced (isBlank · = false) before (joinWith [' '] ws) := by
  induction ws generalizing before with
  | nil => trivial
  | cons w ws ih =>
    obtain ⟨hw, hws⟩ := List.forall_mem_cons.mp hws
    cases ws with
    | nil =>
      have hone : Spaced (isBlank · = false) before (w ++ []) := (spaced_append_word hw).mpr trivial
      rwa [List.append_nil] at hone
    | cons x ws =>
      rw [joinWith_cons_cons, spaced_append_word hw]
      refine ⟨fun _ => ⟨rfl, ?_, ?_⟩, ih hws⟩
      · exact ⟨_, List.getLast?_eq_getLast_of_ne_nil hw.ne_nil, hw.solid _ (List.getLast_mem hw.ne_nil)⟩
      · obtain ⟨c, x', rfl⟩ := List.exists_cons_of_ne_nil (hws x List.mem_cons_self).ne_nil
        refine ⟨c, ?_, (hws _ List.mem_cons_self).solid c List.mem_cons_self⟩
        cases ws <;> rfl

theorem spaced_oneLine (cs : List Char) : Spaced (isBlank · = false) none (oneLine cs) :=
  spaced_joinWith fun _ hw => word_of_mem_words hw

/-- Words that are apart by single spaces stand on one line as they are. -/
theorem oneLine_eq_self (h : Spaced (isBlank · = false) none cs) : oneLine cs = cs := by
  rw [oneLine]
  induction hcs : words cs generalizing cs with
  | nil =>
    cases cs with
    | nil => rfl
    | cons c cs => cases (h.head_solid c rfl).symm.trans (blank_of_words_eq_nil hcs c List.mem_cons_self)
  | cons w ws ih =>
    obtain ⟨u, v, rfl, hu, hw, hv, hws⟩ := exists_of_words_eq_cons hcs
    obtain rfl : u = [] := by
      cases u with
      | nil => rfl
      | cons c u => cases (h.head_solid c rfl).symm.trans (hu c List.mem_cons_self)
    rw [List.nil_append] at h ⊢
    rw [spaced_append_word hw] at h
    cases v with
    | nil =>
      cases hws
      rw [List.append_nil]
      rfl
    | cons c v =>
      have hc : isBlank c = true := hv c rfl
      obtain ⟨rfl, -, e, he, hsolid⟩ := h.1 hc
      obtain ⟨v, rfl⟩ := List.head?_eq_some_iff.mp he
      have hrest : Spaced (isBlank · = false) none (e :: v) :=
        (spaced_cons_of_solid hsolid).mpr ((spaced_cons_of_solid hsolid).mp h.2)
      rw [words_cons_of_blank hc] at hws
      obtain ⟨x, ws, rfl⟩ := List.exists_cons_of_ne_nil (hws ▸ words_cons_ne_nil hsolid)
      rw [joinWith_cons_cons, ih hrest hws]
      rfl

/-! ### Brackets -/

theorem tightenAfter_cons_of_solid (hc : isBlank c = false) (before : Option Char) (cs : List Char) :
    tightenAfter before (c :: cs) = c :: tightenAfter (some c) cs := by
  have hspace : (c == ' ') = false := by
    refine Bool.eq_false_iff.mpr fun h => ?_
    obtain rfl := beq_iff_eq.mp h
    cases hc
  simp [tightenAfter, hspace]

theorem tightenAfter_space (d e : Char) (cs : List Char) : tightenAfter (some d) (' ' :: e :: cs) =
    if isBracket d || isBracket e then tightenAfter (some ' ') (e :: cs)
    else ' ' :: tightenAfter (some ' ') (e :: cs) := by
  rw [tightenAfter]
  simp

/-- Without the spaces next to brackets, a text of words on one line is tight. -/
theorem spaced_tightenAfter (h : Spaced (isBlank · = false) before cs) :
    Spaced Plain before (tightenAfter before cs) := by
  induction cs generalizing before with
  | nil => trivial
  | cons c cs ih =>
    obtain ⟨hc, hcs⟩ := h
    have hrest := ih hcs
    cases hblank : isBlank c with
    | false => rwa [tightenAfter_cons_of_solid hblank, spaced_cons_of_solid hblank]
    | true =>
      obtain ⟨rfl, ⟨d, rfl, hd⟩, e, he, hesolid⟩ := hc hblank
      obtain ⟨v, rfl⟩ := List.head?_eq_some_iff.mp he
      rw [tightenAfter_cons_of_solid hesolid] at hrest
      rw [tightenAfter_space, tightenAfter_cons_of_solid hesolid]
      split
      case isTrue => rwa [spaced_cons_of_solid hesolid] at hrest ⊢
      case isFalse hplain =>
        simp only [Bool.or_eq_true, not_or, Bool.not_eq_true] at hplain
        exact ⟨fun _ => ⟨rfl, ⟨d, rfl, hd, hplain.1⟩, e, rfl, hesolid, hplain.2⟩, hrest⟩

theorem tightenAfter_eq_self (h : Spaced Plain before cs) : tightenAfter before cs = cs := by
  induction cs generalizing before with
  | nil => rfl
  | cons c cs ih =>
    obtain ⟨hc, hcs⟩ := h
    cases hblank : isBlank c with
    | false => rw [tightenAfter_cons_of_solid hblank, ih hcs]
    | true =>
      obtain ⟨rfl, ⟨d, rfl, hd⟩, e, he, hplain⟩ := hc hblank
      obtain ⟨v, rfl⟩ := List.head?_eq_some_iff.mp he
      rw [tightenAfter_space, if_neg (by simp [hd.unbracketed, hplain.unbracketed]), ih hcs]

/-- Texts that are compact already are those that stay as they are. -/
theorem compact_eq_self_iff {s : String} : compact s = s ↔ Tight s.toList := by
  rw [tight_iff, ← String.toList_inj, compact, String.toList_ofList]
  refine ⟨fun h => h ▸ spaced_tightenAfter (spaced_oneLine _), fun h => ?_⟩
  rw [oneLine_eq_self (h.mono fun _ hc => hc.solid), tightenAfter_eq_self h]

theorem tight_compact (s : String) : Tight (compact s).toList := by
  rw [tight_iff, compact, String.toList_ofList]
  exact spaced_tightenAfter (spaced_oneLine _)

/-! ### What is lost -/

/-- A text becomes another one by taking blanks away and making blanks spaces. -/
inductive Shrinks : List Char → List Char → Prop where
  | nil : Shrinks [] []
  | keep {u v : List Char} (c : Char) (h : Shrinks u v) : Shrinks (c :: u) (c :: v)
  | delete {c : Char} {u v : List Char} (hc : isBlank c = true) (h : Shrinks u v) : Shrinks (c :: u) v
  | space {c : Char} {u v : List Char} (hc : isBlank c = true) (h : Shrinks u v) : Shrinks (c :: u) (' ' :: v)

theorem Shrinks.trans {x : List Char} (h : Shrinks u v) (hx : Shrinks v x) : Shrinks u x := by
  induction h generalizing x with
  | nil => exact hx
  | keep c h ih =>
    cases hx with
    | keep _ hx => exact .keep c (ih hx)
    | delete hc hx => exact .delete hc (ih hx)
    | space hc hx => exact .space hc (ih hx)
  | delete hc h ih => exact .delete hc (ih hx)
  | space hc h ih =>
    cases hx with
    | keep _ hx => exact .space hc (ih hx)
    | delete _ hx => exact .delete hc (ih hx)
    | space _ hx => exact .space hc (ih hx)

theorem Shrinks.solid_eq (h : Shrinks u v) : solid u = solid v := by
  induction h with
  | nil => rfl
  | @keep u v c h ih => rw [solid_cons_eq_append c u, solid_cons_eq_append c v, ih]
  | delete hc h ih => simpa [solid, hc] using ih
  | space hc h ih =>
    have hspace : isBlank ' ' = true := rfl
    simpa [solid, hc, hspace] using ih

theorem Shrinks.blank_append (hu : Blank u) (h : Shrinks v w) : Shrinks (u ++ v) w := by
  induction u with
  | nil => exact h
  | cons c u ih =>
    obtain ⟨hc, hu⟩ := List.forall_mem_cons.mp hu
    exact .delete hc (ih hu)

theorem Shrinks.append (u : List Char) (h : Shrinks v w) : Shrinks (u ++ v) (u ++ w) := by
  induction u with
  | nil => exact h
  | cons c u ih => exact .keep c ih

theorem shrinks_oneLine (cs : List Char) : Shrinks cs (oneLine cs) := by
  rw [oneLine]
  induction hcs : words cs generalizing cs with
  | nil =>
    have h := Shrinks.blank_append (blank_of_words_eq_nil hcs) .nil
    rwa [List.append_nil] at h
  | cons w ws ih =>
    obtain ⟨u, v, rfl, hu, -, hv, hws⟩ := exists_of_words_eq_cons hcs
    refine Shrinks.blank_append hu ?_
    cases ws with
    | nil =>
      have h := Shrinks.append w (Shrinks.blank_append (blank_of_words_eq_nil hws) .nil)
      rwa [List.append_nil, List.append_nil] at h
    | cons x ws =>
      rw [joinWith_cons_cons]
      cases v with
      | nil => cases hws
      | cons c v => exact .append w (.space (hv c rfl) (ih v ((words_cons_of_blank (hv c rfl)).symm.trans hws)))

theorem shrinks_tightenAfter (before : Option Char) (cs : List Char) : Shrinks cs (tightenAfter before cs) := by
  induction cs generalizing before with
  | nil => exact .nil
  | cons c cs ih =>
    rw [tightenAfter]
    split
    case isTrue h =>
      simp only [Bool.and_eq_true, beq_iff_eq] at h
      exact .delete (h.1 ▸ rfl) (ih _)
    case isFalse => exact .keep c (ih _)

theorem shrinks_compact (s : String) : Shrinks s.toList (compact s).toList := by
  rw [compact, String.toList_ofList]
  exact (shrinks_oneLine _).trans (shrinks_tightenAfter none _)

theorem solid_compact (s : String) : solid (compact s).toList = solid s.toList := (shrinks_compact s).solid_eq.symm

/-! ### What stays -/

theorem solid_oneLine (cs : List Char) : solid (oneLine cs) = solid cs := (shrinks_oneLine cs).solid_eq.symm

/-- A line of words starts with what the text starts with. -/
theorem exists_oneLine_cons (hc : isBlank c = false) (cs : List Char) :
    ∃ v, oneLine (c :: cs) = c :: v ∧ solid v = solid cs := by
  have hsolid := solid_oneLine (c :: cs)
  have hhead := (spaced_oneLine (c :: cs)).head_solid
  rw [solid_cons hc] at hsolid
  cases hline : oneLine (c :: cs) with
  | nil =>
    rw [hline] at hsolid
    cases hsolid
  | cons d v =>
    rw [hline] at hsolid hhead
    rw [solid_cons (hhead d rfl)] at hsolid
    obtain ⟨rfl, hv⟩ := List.cons.inj hsolid
    exact ⟨v, rfl, hv⟩

theorem exists_oneLine_concat (hc : isBlank c = false) (cs : List Char) :
    ∃ u, oneLine (cs ++ [c]) = u ++ [c] ∧ solid u = solid cs := by
  have hsolid := solid_oneLine (cs ++ [c])
  have hlast := (spaced_oneLine (cs ++ [c])).last_solid
  rw [solid_append, solid_cons hc, solid_nil] at hsolid
  obtain hnil | ⟨u, d, hline⟩ := List.eq_nil_or_concat (oneLine (cs ++ [c]))
  · rw [hnil] at hsolid
    simp at hsolid
  · rw [List.concat_eq_append] at hline
    rw [hline] at hsolid hlast
    rw [solid_append, solid_cons (hlast d List.getLast?_concat), solid_nil] at hsolid
    obtain ⟨hu, hd⟩ := List.append_inj' hsolid rfl
    cases hd
    exact ⟨u, hline, hu⟩

/-- Words on both sides of blanks stay apart. -/
theorem oneLine_append {b : List Char} (hb : Blank b) (hne : b ≠ []) (hd : isBlank d = false) (he : isBlank e = false)
    (u v : List Char) : oneLine (u ++ d :: (b ++ e :: v)) = oneLine (u ++ [d]) ++ ' ' :: oneLine (e :: v) := by
  have hbreaks : Breaks (b ++ e :: v) := by
    obtain ⟨c, b, rfl⟩ := List.exists_cons_of_ne_nil hne
    exact fun x hx => by cases hx; exact hb c List.mem_cons_self
  have hleft : words (u ++ [d]) ≠ [] := fun h =>
    absurd (blank_of_words_eq_nil h d (List.mem_append_right u List.mem_cons_self)) (by simp [hd])
  have hsplit : u ++ d :: (b ++ e :: v) = (u ++ [d]) ++ (b ++ e :: v) := by simp
  rw [oneLine, hsplit, words_append hbreaks, words_append_of_blank hb, joinWith_append _ hleft (words_cons_ne_nil he)]
  rfl

theorem exists_tightenAfter_append (hd : isBlank d = false) (before : Option Char) (u v : List Char) :
    ∃ x, tightenAfter before (u ++ d :: v) = x ++ d :: tightenAfter (some d) v ∧ solid x = solid u := by
  induction u generalizing before with
  | nil => exact ⟨[], tightenAfter_cons_of_solid hd before v, rfl⟩
  | cons c u ih =>
    obtain ⟨x, hx, hsolid⟩ := ih (some c)
    rw [List.cons_append, tightenAfter, hx]
    split
    case isTrue h =>
      simp only [Bool.and_eq_true, beq_iff_eq] at h
      obtain ⟨rfl, -⟩ := h
      exact ⟨x, rfl, hsolid⟩
    case isFalse => exact ⟨c :: x, rfl, by rw [solid_cons_eq_append c x, solid_cons_eq_append c u, hsolid]⟩

/-- Blanks between two characters that are no brackets stay, as one space. -/
theorem exists_compact_eq {s : String} {b : List Char} (hs : s.toList = u ++ d :: (b ++ e :: v)) (hb : Blank b)
    (hne : b ≠ []) (hd : Plain d) (he : Plain e) :
    ∃ x y, (compact s).toList = x ++ d :: ' ' :: e :: y ∧ solid x = solid u ∧ solid y = solid v := by
  obtain ⟨u', hu', husolid⟩ := exists_oneLine_concat hd.solid u
  obtain ⟨v', hv', hvsolid⟩ := exists_oneLine_cons he.solid v
  have hline : oneLine s.toList = u' ++ d :: (' ' :: e :: v') := by
    rw [hs, oneLine_append hb hne hd.solid he.solid, hu', hv']
    simp
  obtain ⟨x, hx, hxsolid⟩ := exists_tightenAfter_append hd.solid none u' (' ' :: e :: v')
  refine ⟨x, tightenAfter (some e) v', ?_, hxsolid.trans husolid, ?_⟩
  · rw [compact, String.toList_ofList, hline, hx, tightenAfter_space,
      if_neg (by simp [hd.unbracketed, he.unbracketed]), tightenAfter_cons_of_solid he.solid]
  · rw [← (shrinks_tightenAfter (some e) v').solid_eq, hvsolid]

/-- The compact form of a text is a normal form: it is compact, so it is its own compact form; it is got from the text
by taking blanks away and making them spaces, where those between two characters that are no brackets stay as one
space. Texts with one compact form have the same characters that are not blank. -/
theorem compact_normal (s : String) :
    compact (compact s) = compact s ∧ Tight (compact s).toList ∧ Shrinks s.toList (compact s).toList ∧
      (∀ u d b e v, s.toList = u ++ d :: (b ++ e :: v) → Blank b → b ≠ [] → Plain d → Plain e →
        ∃ x y, (compact s).toList = x ++ d :: ' ' :: e :: y ∧ solid x = solid u ∧ solid y = solid v) ∧
      ∀ t, compact s = compact t → solid s.toList = solid t.toList := by
  refine ⟨compact_eq_self_iff.mpr (tight_compact s), tight_compact s, shrinks_compact s, ?_, fun t h => ?_⟩
  · exact fun u d b e v hs hb hne hd he => exists_compact_eq hs hb hne hd he
  · rw [← solid_compact s, h, solid_compact]

/-- An element with blanks around its words and within its opening tag. -/
def looseElement : String := "<b >\n  one\t two </b>"

/-- The blanks between two words become a space, and the others go. -/
theorem compact_normal_looseElement :
    Blank "\t ".toList ∧ Plain 'e' ∧ Plain 't' ∧
      (∃ x y, (compact looseElement).toList = x ++ 'e' :: ' ' :: 't' :: y ∧ solid x = "<b>on".toList ∧
        solid y = "wo</b>".toList) ∧
      compact looseElement = "<b>one two</b>" ∧ compact looseElement = compact "<b> one two</b>" ∧
      solid looseElement.toList = solid "<b> one two</b>".toList := by
  have hblank : Blank "\t ".toList := List.all_eq_true.mp (by decide)
  have he : Plain 'e' := ⟨by decide, by decide⟩
  have ht : Plain 't' := ⟨by decide, by decide⟩
  obtain ⟨-, -, -, hstays, hsolid⟩ := compact_normal looseElement
  have hsame : compact looseElement = compact "<b> one two</b>" := by decide +kernel
  obtain ⟨x, y, hwhole, hx, hy⟩ :=
    hstays "<b >\n  on".toList 'e' "\t ".toList 't' "wo </b>".toList (by decide +kernel) hblank (by decide) he ht
  exact ⟨hblank, he, ht, ⟨x, y, hwhole, hx, hy⟩, by decide +kernel, hsame, hsolid _ hsame⟩

end SourceChange.Text
