import Mathlib.Data.List.Infix
import SourceChange.Disk.Workspace
import SourceChange.Proofs.Disk.Paths

/-!
What stands on a disk, and the way to it.

On a `Closed` disk everything lies in directories, so nothing lies below a file or below a place where
nothing is. If moreover no link stands on the way to a place, its path leads to what stands there.
-/

namespace SourceChange.Disk

open SourceChange.Path

variable {d d' : Disk} {loc here l q : Location} {e : Entry}

theorem entry?_eq_lookup (hl : l ≠ []) : d.entry? l = d.entries.lookup l := by
  unfold entry?
  split
  · exact absurd rfl hl
  · rfl

@[simp] theorem entry?_nil (d : Disk) : d.entry? [] = some .directory := rfl

theorem hasDirectory_iff : d.hasDirectory l = true ↔ d.entry? l = some .directory := by
  rw [hasDirectory]
  cases h : d.entry? l with
  | none => simp
  | some e => cases e <;> simp [Entry.isDirectory]

theorem lookup_cons_eq (x : Location × Entry) (es : List (Location × Entry)) (l : Location) :
    (x :: es).lookup l = if l = x.1 then some x.2 else es.lookup l := by
  rw [List.lookup_cons]
  by_cases h : l = x.1
  · simp [h]
  · rw [if_neg h, beq_eq_false_iff_ne.mpr h]

theorem lookup_filter (es : List (Location × Entry)) (keep : Location → Bool) (l : Location) :
    (es.filter fun x => keep x.1).lookup l = if keep l = true then es.lookup l else none := by
  induction es with
  | nil => simp
  | cons x es ih =>
    rw [List.filter_cons, lookup_cons_eq]
    split
    case isTrue hkeep =>
      rw [lookup_cons_eq, ih]
      by_cases h : l = x.1
      · rw [if_pos h, if_pos h, if_pos (h ▸ hkeep)]
      · rw [if_neg h, if_neg h]
    case isFalse hdrop =>
      rw [ih]
      by_cases h : l = x.1
      · rw [h, if_neg hdrop, if_neg hdrop]
      · rw [if_neg h]

theorem entry?_put (hloc : loc ≠ []) (d : Disk) (e : Entry) (l : Location) :
    entry? (d.put loc e) l = if l = loc then some e else d.entry? l := by
  by_cases hl : l = []
  · rw [hl, if_neg hloc.symm, entry?_nil, entry?_nil]
  · rw [entry?_eq_lookup hl, entry?_eq_lookup hl, put, lookup_cons_eq, lookup_filter _ (· != loc)]
    by_cases h : l = loc
    · rw [if_pos h, if_pos h]
    · rw [if_neg h, if_neg h, if_pos (bne_iff_ne.mpr h)]

theorem entry?_remove (hloc : loc ≠ []) (d : Disk) (l : Location) :
    entry? (d.remove loc) l = if l = loc then none else d.entry? l := by
  by_cases hl : l = []
  · rw [hl, if_neg hloc.symm, entry?_nil, entry?_nil]
  · rw [entry?_eq_lookup hl, entry?_eq_lookup hl, remove, lookup_filter _ (· != loc)]
    by_cases h : l = loc
    · simp [h]
    · rw [if_neg h, if_pos (bne_iff_ne.mpr h)]

/-- Everything lies in directories. -/
def Closed (d : Disk) : Prop :=
  ∀ l, d.entry? l ≠ none → ∀ q, q <+: l → q ≠ l → d.entry? q = some .directory

/-- Nothing lies below what is no directory. -/
theorem Closed.eq_of_prefix (hd : d.Closed) (hloc : d.entry? loc ≠ some .directory)
    {x : Location × Entry} (hx : x ∈ d.entries) (hbelow : loc <+: x.1) : x.1 = loc := by
  by_contra hne
  have hnil : x.1 ≠ [] := by
    rintro hnil
    rw [hnil] at hbelow hne
    exact hne (List.prefix_nil.mp hbelow).symm
  have hthere : d.entry? x.1 ≠ none := by
    rw [entry?_eq_lookup hnil]
    intro hnone
    have hother := List.lookup_eq_none_iff.mp hnone x hx
    simp at hother
  exact hloc (hd x.1 hthere loc hbelow (Ne.symm hne))

theorem lookup_moved {es : List (Location × Entry)} {old : Location} (hes : ∀ x ∈ es, old <+: x.1 → x.1 = old)
    (new l : Location) :
    ((es.filter fun x => old.isPrefixOf x.1).map fun x => (new ++ x.1.drop old.length, x.2)).lookup l =
      if l = new then es.lookup old else none := by
  induction es with
  | nil => simp
  | cons x es ih =>
    obtain ⟨hx, hes⟩ := List.forall_mem_cons.mp hes
    rw [List.filter_cons, lookup_cons_eq]
    split
    case isTrue hprefix =>
      have hkey := hx (List.isPrefixOf_iff_prefix.mp hprefix)
      rw [List.map_cons, lookup_cons_eq, ih hes, hkey, List.drop_length, List.append_nil]
      by_cases hl : l = new
      · simp [hl]
      · simp [hl]
    case isFalse hother =>
      have hkey : old ≠ x.1 := by
        rintro rfl
        exact hother (List.isPrefixOf_iff_prefix.mpr (List.prefix_refl _))
      rw [ih hes, if_neg hkey]

/-- Moving what is no directory takes it away and puts it to the other place. -/
theorem entry?_moveTree (hd : d.Closed) {old new : Location} (hold : old ≠ []) (hnew : new ≠ [])
    (hmoving : d.entry? old = some e) (hfile : e ≠ .directory) (l : Location) :
    entry? (d.moveTree old new) l = if l = new then some e else if l = old then none else d.entry? l := by
  have honly : ∀ x ∈ d.entries, old <+: x.1 → x.1 = old := by
    intro x hx hprefix
    refine hd.eq_of_prefix ?_ hx hprefix
    rw [hmoving]
    exact fun heq => hfile (Option.some.inj heq)
  have hfrom : d.entries.lookup old = some e := by rw [← entry?_eq_lookup hold, hmoving]
  by_cases hl : l = []
  · rw [hl, if_neg hnew.symm, if_neg hold.symm, entry?_nil, entry?_nil]
  · rw [entry?_eq_lookup hl, entry?_eq_lookup hl, moveTree]
    dsimp only
    rw [List.lookup_append, lookup_moved honly,
      lookup_filter _ fun l => !old.isPrefixOf l && l != new]
    by_cases hlnew : l = new
    · rw [if_pos hlnew, if_pos hlnew, hfrom]
      rfl
    · rw [if_neg hlnew, if_neg hlnew, Option.none_or]
      by_cases hlold : l = old
      · have hself : old.isPrefixOf old = true :=
          List.isPrefixOf_iff_prefix.mpr (List.prefix_refl old)
        simp [hlold, hself]
      · rw [if_neg hlold]
        split
        case isTrue => rfl
        case isFalse hdropped =>
          -- what lies below the place that is left is not there to begin with
          have hbelow : old <+: l := by
            simpa [hlnew, List.isPrefixOf_iff_prefix] using hdropped
          cases hlookup : d.entries.lookup l with
          | none => rfl
          | some e' =>
            rw [← entry?_eq_lookup hl] at hlookup
            have hdirectory := hd l (by simp [hlookup]) old hbelow (Ne.symm hlold)
            rw [hmoving] at hdirectory
            exact absurd (Option.some.inj hdirectory) hfile

/-- The link that stands at a place. -/
def linkAt? (d : Disk) (l : Location) : Option String :=
  match d.entry? l with
  | some (.link target) => some target
  | _ => none

theorem linkAt?_eq_some_iff {target : String} : d.linkAt? l = some target ↔ d.entry? l = some (.link target) := by
  rw [linkAt?]
  split
  case h_1 found heq => simp [heq]
  case h_2 hother =>
    constructor
    · intro h
      cases h
    · intro h
      exact (hother target h).elim

/-- No link stands at a place or on the way to it. -/
def Clear (d : Disk) (loc : Location) : Prop := ∀ q, q <+: loc → d.linkAt? q = none

theorem Clear.of_prefix (h : d.Clear loc) (hq : q <+: loc) : d.Clear q :=
  fun _ hr => h _ (hr.trans hq)

/-- It is enough to look at what there is. -/
theorem closed_of_entries (h : ∀ x ∈ d.entries, ∀ q ∈ x.1.inits, q ≠ x.1 → d.hasDirectory q = true) :
    d.Closed := by
  intro l hl q hq hne
  have hnil : l ≠ [] := by
    rintro rfl
    exact hne (List.prefix_nil.mp hq)
  rw [entry?_eq_lookup hnil, Ne, List.lookup_eq_none_iff] at hl
  push Not at hl
  obtain ⟨x, hx, heq⟩ := hl
  obtain rfl : l = x.1 := by simpa using heq
  exact hasDirectory_iff.mp (h x hx q ((List.mem_inits q x.1).mpr hq) hne)

theorem linkAt?_of_entries (h : ∀ x ∈ d.entries, d.linkAt? x.1 = none) (l : Location) :
    d.linkAt? l = none := by
  by_cases hthere : ∃ x ∈ d.entries, x.1 = l
  · obtain ⟨x, hx, rfl⟩ := hthere
    exact h x hx
  · by_cases hnil : l = []
    · rw [hnil]
      rfl
    · have hnone : d.entries.lookup l = none := by
        rw [List.lookup_eq_none_iff]
        intro x hx
        exact bne_iff_ne.mpr fun heq => hthere ⟨x, hx, heq.symm⟩
      rw [linkAt?, entry?_eq_lookup hnil, hnone]

variable {follow : Bool} {jump : Location → List String → Option Location}

theorem walkWith?_cons {name : String} {rest : List String} (hname : name ≠ "..")
    (hlink : d.linkAt? (here ++ [name]) = none) :
    d.walkWith? follow jump here (name :: rest) =
      if d.hasDirectory here = true then d.walkWith? follow jump (here ++ [name]) rest else none := by
  rw [walkWith?]
  have hup : ¬ (name == "..") = true := by simpa using hname
  cases hdir : d.hasDirectory here with
  | false => simp
  | true =>
    simp only [Bool.not_true, Bool.false_eq_true, if_false, if_neg hup, if_true]
    split
    case h_1 target htarget => simp [linkAt?, htarget] at hlink
    case h_2 => rfl

/-- A way without links leads on as long as there are directories. -/
theorem walkWith?_eq_some_iff {names : List String} (hnames : ∀ n ∈ names, n ≠ "..")
    (hclear : d.Clear (here ++ names)) {p : Location} :
    d.walkWith? follow jump here names = some p ↔
      p = here ++ names ∧ ∀ q, here <+: q → q <+: here ++ names → q ≠ here ++ names →
        d.entry? q = some .directory := by
  induction names generalizing here with
  | nil =>
    rw [walkWith?, List.append_nil, Option.some_inj]
    refine ⟨fun h => ⟨h.symm, fun q hhere hq hne => ?_⟩, fun h => h.1.symm⟩
    exact absurd (hq.eq_of_length_le hhere.length_le) hne
  | cons name rest ih =>
    obtain ⟨hname, hrest⟩ := List.forall_mem_cons.mp hnames
    have heq : here ++ name :: rest = here ++ [name] ++ rest := by simp
    have hmid : here ++ [name] <+: here ++ name :: rest := ⟨rest, by simp⟩
    rw [walkWith?_cons hname (hclear _ hmid)]
    constructor
    · intro h
      split at h
      case isFalse => cases h
      case isTrue hdir =>
        obtain ⟨hp, hdirs⟩ := (ih hrest (heq ▸ hclear)).mp h
        refine ⟨by rw [hp, heq], fun q hhere hq hne => ?_⟩
        obtain ⟨r, rfl⟩ := hhere
        cases r with
        | nil =>
          rw [List.append_nil]
          exact hasDirectory_iff.mp hdir
        | cons m r =>
          have hcons : m :: r <+: name :: rest := (List.prefix_append_right_inj here).mp hq
          obtain rfl := (List.cons_prefix_cons.mp hcons).1
          exact hdirs _ ⟨r, by simp⟩ (heq ▸ hq) (heq ▸ hne)
    · rintro ⟨rfl, hdirs⟩
      have hdir : d.hasDirectory here = true := by
        refine hasDirectory_iff.mpr (hdirs here (List.prefix_refl _) ⟨_, rfl⟩ ?_)
        simp
      rw [if_pos hdir]
      refine (ih hrest (heq ▸ hclear)).mpr ⟨heq, fun q hq hle hne => ?_⟩
      exact hdirs q ((List.prefix_append here [name]).trans hq) (heq ▸ hle) (heq ▸ hne)

section Named

variable (hloc : ∀ n ∈ loc, IsName n) (hclear : d.Clear loc)
include hloc hclear

theorem walk?_pathOf {p : Location} :
    d.walk? follow maxHops (origin (pathOf loc) d.current) (steps (pathOf loc)) = some p ↔
      p = loc ∧ ∀ q, q <+: loc → q ≠ loc → d.entry? q = some .directory := by
  have horigin : origin (pathOf loc) d.current = [] := by rw [origin, isAbsolute_pathOf, if_pos rfl]
  have hwalk : d.walk? follow maxHops [] loc = d.walkWith? follow (d.walk? follow 39) [] loc := rfl
  rw [horigin, steps_pathOf hloc, hwalk, walkWith?_eq_some_iff (fun n hn => (hloc n hn).ne_up) hclear]
  simp

theorem place?_pathOf {p : Location} :
    d.place? (pathOf loc) = some p ↔
      p = loc ∧ ∀ q, q <+: loc → q ≠ loc → d.entry? q = some .directory :=
  walk?_pathOf hloc hclear

theorem ownPlace?_pathOf {p : Location} :
    d.ownPlace? (pathOf loc) = some p ↔
      p = loc ∧ ∀ q, q <+: loc → q ≠ loc → d.entry? q = some .directory :=
  walk?_pathOf hloc hclear

/-- The path of a place leads to what stands there. -/
theorem lookup?_pathOf (hd : d.Closed) : d.lookup? (pathOf loc) = d.entry? loc := by
  rw [lookup?]
  cases hplace : d.place? (pathOf loc) with
  | some p => rw [((place?_pathOf hloc hclear).mp hplace).1, Option.bind_some]
  | none =>
    cases hentry : d.entry? loc with
    | none => rfl
    | some e =>
      have habove := hd loc (by simp [hentry])
      rw [(place?_pathOf hloc hclear).mpr ⟨rfl, habove⟩] at hplace
      cases hplace

theorem isPresent_pathOf (hd : d.Closed) : d.isPresent (pathOf loc) = (d.entry? loc).isSome := by
  rw [isPresent, lookup?_pathOf hloc hclear hd]

theorem isDirectory_pathOf (hd : d.Closed) :
    d.isDirectory (pathOf loc) = true ↔ d.entry? loc = some .directory := by
  rw [isDirectory, lookup?_pathOf hloc hclear hd, ← hasDirectory_iff, hasDirectory]

theorem content?_pathOf (hd : d.Closed) {bytes : ByteArray} :
    d.content? (pathOf loc) = some bytes ↔ d.entry? loc = some (.file bytes) := by
  rw [content?, lookup?_pathOf hloc hclear hd]
  split
  case h_1 found heq => simp [heq]
  case h_2 hother =>
    constructor
    · intro h
      cases h
    · intro h
      exact absurd h (hother bytes)

end Named

end SourceChange.Disk
