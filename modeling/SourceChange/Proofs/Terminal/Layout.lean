import SourceChange.Proofs.Terminal.Markup

/-!
What is printed, in pieces.

A printed text is made of pieces: words of the program, texts from outside that are made safe, and texts from outside
that are printed as they are. Where the words of the program are sound, a control character that is printed stands in
a piece of the last kind.
-/

namespace SourceChange.CommandLine

/-! ### Pieces of printed texts -/

/-- A piece of a printed text. -/
inductive Part where
  /-- Words and numbers of the program. -/
  | own (text : String)
  /-- A text from outside that is made safe. -/
  | guarded (text : String)
  /-- A text from outside as it is. -/
  | bare (text : String)

namespace Part

/-- A piece as it is printed. -/
def shown : Part → String
  | own s | bare s => s
  | guarded s => safe s

def guarded? : Part → Option String
  | guarded s => some s
  | _ => none

def bare? : Part → Option String
  | bare s => some s
  | _ => none

@[simp] theorem guarded?_own (s : String) : (own s).guarded? = none := rfl

@[simp] theorem guarded?_guarded (s : String) : (guarded s).guarded? = some s := rfl

@[simp] theorem guarded?_bare (s : String) : (bare s).guarded? = none := rfl

@[simp] theorem bare?_own (s : String) : (own s).bare? = none := rfl

@[simp] theorem bare?_guarded (s : String) : (guarded s).bare? = none := rfl

@[simp] theorem bare?_bare (s : String) : (bare s).bare? = some s := rfl

/-- The words of the program have no control characters. -/
def Sound : Part → Prop
  | own s => Clean s
  | _ => True

@[simp] theorem sound_own (s : String) : (own s).Sound ↔ Clean s := Iff.rfl

@[simp] theorem sound_guarded (s : String) : (guarded s).Sound := trivial

@[simp] theorem sound_bare (s : String) : (bare s).Sound := trivial

end Part

/-- The text of some pieces. -/
def joined : List Part → String
  | [] => ""
  | p :: ps => p.shown ++ joined ps

/-- Something that is printed, in pieces. -/
inductive Layout where
  | line (parts : List Part)
  | table (title : String) (columns : List String) (rows : List (List (List Part)))

namespace Layout

/-- What is printed. -/
def shown : Layout → Printed
  | line parts => .line (joined parts)
  | table title columns rows => .table title columns (rows.map (·.map joined))

/-- All pieces, headings included. -/
def parts : Layout → List Part
  | line parts => parts
  | table title columns rows => (title :: columns).map .own ++ rows.flatten.flatten

end Layout

/-- The pieces of all that is printed. -/
def partsOf (ls : List Layout) : List Part := ls.flatMap (·.parts)

/-- The texts that are made safe. -/
def guardedTexts (ls : List Layout) : List String := (partsOf ls).filterMap (·.guarded?)

/-- The texts from outside that are printed as they are. -/
def bareTexts (ls : List Layout) : List String := (partsOf ls).filterMap (·.bare?)

@[simp] theorem partsOf_cons (l : Layout) (ls : List Layout) : partsOf (l :: ls) = l.parts ++ partsOf ls :=
  List.flatMap_cons

@[simp] theorem partsOf_append (ls ls' : List Layout) : partsOf (ls ++ ls') = partsOf ls ++ partsOf ls' :=
  List.flatMap_append

theorem guardedTexts_cons (l : Layout) (ls : List Layout) :
    guardedTexts (l :: ls) = l.parts.filterMap (·.guarded?) ++ guardedTexts ls := by
  rw [guardedTexts, partsOf_cons, List.filterMap_append]
  rfl

theorem bareTexts_cons (l : Layout) (ls : List Layout) :
    bareTexts (l :: ls) = l.parts.filterMap (·.bare?) ++ bareTexts ls := by
  rw [bareTexts, partsOf_cons, List.filterMap_append]
  rfl

@[simp] theorem guardedTexts_append (ls ls' : List Layout) :
    guardedTexts (ls ++ ls') = guardedTexts ls ++ guardedTexts ls' := by
  rw [guardedTexts, partsOf_append, List.filterMap_append]
  rfl

@[simp] theorem bareTexts_append (ls ls' : List Layout) : bareTexts (ls ++ ls') = bareTexts ls ++ bareTexts ls' := by
  rw [bareTexts, partsOf_append, List.filterMap_append]
  rfl

section Pieces

variable {ps : List Part} {p : Part} {s : String} {l : Layout} {ls : List Layout}

theorem clean_joined : Clean (joined ps) ↔ ∀ p ∈ ps, Clean p.shown := by
  induction ps with
  | nil => simp [joined, Clean]
  | cons p ps ih => rw [joined, clean_append, ih, List.forall_mem_cons]

/-- A piece has a control character only if it is printed as it is. -/
theorem Part.Sound.clean_shown_iff (h : p.Sound) : Clean p.shown ↔ ∀ s, p = .bare s → Clean s := by
  cases p with
  | own s => exact iff_of_true h nofun
  | guarded s => exact iff_of_true (clean_safe s) nofun
  | bare s => exact ⟨fun hs _ heq => Part.bare.inj heq ▸ hs, fun hs => hs s rfl⟩

theorem mem_bareTexts : s ∈ bareTexts ls ↔ .bare s ∈ partsOf ls := by
  rw [bareTexts, List.mem_filterMap]
  constructor
  · rintro ⟨p, hp, hs⟩
    cases p with
    | own | guarded => cases hs
    | bare =>
      cases hs
      exact hp
  · exact fun h => ⟨_, h, rfl⟩

/-- What is printed has no control characters iff none of its pieces has one. -/
theorem clean_texts_shown : (∀ s ∈ l.shown.texts, Clean s) ↔ ∀ p ∈ l.parts, Clean p.shown := by
  cases l with
  | line ps => simp [Layout.shown, Printed.texts, Layout.parts, clean_joined]
  | table title columns rows =>
    have hcells : (∀ s ∈ (rows.map (·.map joined)).flatten, Clean s) ↔
        ∀ p ∈ rows.flatten.flatten, Clean p.shown := by
      rw [← List.map_flatten, List.forall_mem_map]
      simp only [clean_joined, List.mem_flatten]
      exact ⟨fun h p ⟨cell, hcell, hp⟩ => h cell hcell p hp, fun h cell hcell p hp => h p ⟨cell, hcell, hp⟩⟩
    rw [Layout.shown, Printed.texts, Layout.parts, List.forall_mem_append, List.forall_mem_append,
      List.forall_mem_map, hcells]
    rfl

/-- Where the words of the program are sound, a control character comes from a text that is printed as it is. -/
theorem clean_printed_iff (hsound : ∀ p ∈ partsOf ls, p.Sound) :
    (∀ p ∈ ls.map Layout.shown, ∀ s ∈ p.texts, Clean s) ↔ ∀ s ∈ bareTexts ls, Clean s := by
  simp only [List.forall_mem_map, clean_texts_shown, mem_bareTexts]
  constructor
  · intro h s hs
    obtain ⟨l, hl, hp⟩ := List.mem_flatMap.mp hs
    exact h l hl _ hp
  · intro h l hl p hp
    have hmem : p ∈ partsOf ls := List.mem_flatMap.mpr ⟨l, hl, hp⟩
    rw [(hsound p hmem).clean_shown_iff]
    rintro s rfl
    exact h s hmem

end Pieces

/-! ### Tables -/

/-- A table, unless it has no rows. -/
def tableLayout (title : String) (columns : List String) (rows : List (List (List Part))) : List Layout :=
  if rows.isEmpty then [] else [.table title columns rows]

section Tables

variable {α : Type} {title : String} {columns : List String} {xs : List α} {row : α → List (List Part)}
  {cells : α → List String}

theorem map_shown_tableLayout (h : ∀ x ∈ xs, (row x).map joined = cells x) :
    (tableLayout title columns (xs.map row)).map Layout.shown = tableOf title columns (xs.map cells) := by
  have hrows : (xs.map row).map (·.map joined) = xs.map cells := by
    rw [List.map_map]
    exact List.map_congr_left h
  rw [tableLayout, tableOf, List.isEmpty_map, List.isEmpty_map]
  cases xs with
  | nil => rfl
  | cons x xs =>
    change [Printed.table title columns _] = [Printed.table title columns _]
    rw [hrows]

theorem sound_tableLayout (htitle : ∀ s ∈ title :: columns, Clean s)
    (h : ∀ x ∈ xs, ∀ p ∈ (row x).flatten, p.Sound) :
    ∀ p ∈ partsOf (tableLayout title columns (xs.map row)), p.Sound := by
  intro p hp
  rw [tableLayout] at hp
  split at hp
  case isTrue => cases hp
  case isFalse =>
    rw [partsOf, List.flatMap_singleton, Layout.parts] at hp
    obtain hp | hp := List.mem_append.mp hp
    · obtain ⟨s, hs, rfl⟩ := List.mem_map.mp hp
      exact htitle s hs
    · obtain ⟨cell, hcell, hp⟩ := List.mem_flatten.mp hp
      obtain ⟨cellsOf, hrow, hcell⟩ := List.mem_flatten.mp hcell
      obtain ⟨x, hx, rfl⟩ := List.mem_map.mp hrow
      exact h x hx p (List.mem_flatten.mpr ⟨cell, hcell, hp⟩)

/-- What is taken from a table, where nothing is taken from the words of the program, is taken from its rows. -/
theorem filterMap_tableLayout {β : Type} {f : Part → Option β} (hf : ∀ s, f (.own s) = none) :
    (partsOf (tableLayout title columns (xs.map row))).filterMap f =
      xs.flatMap fun x => (row x).flatten.filterMap f := by
  have hnone (ss : List String) : (ss.map Part.own).filterMap f = [] := by
    rw [List.filterMap_map, List.filterMap_eq_nil_iff]
    exact fun s _ => hf s
  cases xs with
  | nil => rfl
  | cons x xs =>
    change (((title :: columns).map Part.own ++ ((x :: xs).map row).flatten.flatten) ++ []).filterMap f = _
    rw [List.append_nil, List.filterMap_append, hnone, List.nil_append]
    generalize x :: xs = ys
    induction ys with
    | nil => rfl
    | cons y ys ih =>
      rw [List.map_cons, List.flatten_cons, List.flatten_append, List.filterMap_append, ih, List.flatMap_cons]

end Tables

end SourceChange.CommandLine
