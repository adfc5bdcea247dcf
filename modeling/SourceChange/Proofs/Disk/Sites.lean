import SourceChange.Proofs.Disk.Faults

/-!
The directory that a path leads through.

Where its steps before the last one lead to a directory, a path and the names that are made of it by a suffix have
their places in it, whatever links are on the way. Files are written there, moved to the place of the path and
removed, and the directory is still found after it, unless a link that led to it has been replaced.
-/

namespace SourceChange.Disk

open SourceChange.Path

variable {d d' d'' made : Disk} {p s name : String} {dir loc l : Location} {content bytes : ByteArray}

/-! ### What does not matter to a walk -/

/-- Neither a link nor a directory stands at a place. -/
def IsPlain (e : Option Entry) : Prop := e = none ∨ ∃ bytes, e = some (.file bytes)

theorem isPlain_none : IsPlain none := .inl rfl

theorem isPlain_file (bytes : ByteArray) : IsPlain (some (.file bytes)) := .inr ⟨bytes, rfl⟩

theorem isPlain_iff : IsPlain (d.entry? l) ↔ d.linkAt? l = none ∧ d.entry? l ≠ some .directory := by
  rw [IsPlain, linkAt?]
  cases d.entry? l with
  | none => simp
  | some e => cases e <;> simp

theorem IsPlain.linkAt? (h : IsPlain (d.entry? l)) : d.linkAt? l = none := (isPlain_iff.mp h).1

theorem IsPlain.ne_directory {e : Option Entry} (h : IsPlain e) : e ≠ some .directory := by
  obtain rfl | ⟨bytes, rfl⟩ := h <;> simp

/-- What stands at a place is the same, or it is neither a link nor a directory before and after. -/
def Swaps (e e' : Option Entry) : Prop := e' = e ∨ IsPlain e ∧ IsPlain e'

theorem linkAt?_of_swaps (h : Swaps (d.entry? l) (d'.entry? l)) : d'.linkAt? l = d.linkAt? l := by
  obtain hsame | ⟨hold, hnew⟩ := h
  · rw [linkAt?, linkAt?, hsame]
  · rw [hold.linkAt?, hnew.linkAt?]

theorem entry?_of_swaps (h : Swaps (d.entry? l) (d'.entry? l)) (hl : d.entry? l = some .directory) :
    d'.entry? l = some .directory := by
  obtain hsame | ⟨hold, -⟩ := h
  · rw [hsame, hl]
  · exact absurd hl hold.ne_directory

theorem walk?_of_swaps (h : ∀ l, Swaps (d.entry? l) (d'.entry? l)) {follow : Bool} {hops : Nat} {here : Location}
    {way : List String} (hwalk : d.walk? follow hops here way = some loc) :
    d'.walk? follow hops here way = some loc :=
  walk?_of_kept (fun l => linkAt?_of_swaps (h l)) (fun l => entry?_of_swaps (h l)) hwalk

theorem lookup?_of_content? (h : d.content? p = some bytes) : d.lookup? p = some (.file bytes) := by
  rw [content?] at h
  split at h
  case h_1 found heq => rw [heq, Option.some.inj h]
  case h_2 => cases h

/-- A path starts in a directory. -/
theorem entry?_origin (hcurrent : d.entry? d.current = some .directory) (p : String) :
    d.entry? (origin p d.current) = some .directory := by
  rw [origin]
  split
  · exact entry?_nil d
  · exact hcurrent

/-! ### The directory of a path -/

/-- The steps of a path before the last one lead to a directory. -/
structure Site (d : Disk) (p : String) (dir : Location) : Prop where
  closed : d.Closed
  directory : d.entry? dir = some .directory
  leads : d.walk? true maxHops (origin p d.current) (steps p).dropLast = some dir

/-- The place of a path in its directory. -/
def spot (p : String) (dir : Location) : Location := below dir (lastName p)

/-- The place beside a file whose name has a suffix. -/
def spare (p : String) (dir : Location) (s : String) : Location := dir ++ [lastName p ++ s]

theorem spare_ne_nil : spare p dir s ≠ [] := by simp [spare]

theorem spare_ne_spot (hs : IsSuffix s) : spare p dir s ≠ spot p dir := by
  rw [spare, spot, below]
  intro heq
  split at heq
  · have hlength := congrArg List.length heq
    simp only [List.length_append, List.length_singleton, List.length_dropLast] at hlength
    omega
  · have hname : lastName p ++ s = lastName p := List.singleton_inj.mp (List.append_cancel_left heq)
    have hlength := congrArg String.length hname
    rw [String.length_append] at hlength
    have hlong := hs.long
    omega

/-- A file can be put to the place of a path: no directory stands there, and the directory of the path is found
without what stands there, so no link there leads to it. -/
structure Admits (d : Disk) (p : String) (dir : Location) : Prop where
  free : d.entry? (spot p dir) ≠ some .directory
  leads : (d.remove (spot p dir)).walk? true maxHops (origin p d.current) (steps p).dropLast = some dir

namespace Admits

theorem spot_ne_nil (h : d.Admits p dir) : spot p dir ≠ [] := by
  intro hnil
  have hfree := h.free
  rw [hnil] at hfree
  exact hfree (entry?_nil d)

theorem of_swaps (h : d.Admits p dir) (hcurrent : d'.current = d.current)
    (hothers : ∀ l, Swaps (d.entry? l) (d'.entry? l)) : d'.Admits p dir where
  free hdirectory := by
    obtain hsame | ⟨-, hplain⟩ := hothers (spot p dir)
    · exact h.free (hsame ▸ hdirectory)
    · exact hplain.ne_directory hdirectory
  leads := by
    rw [hcurrent]
    refine walk?_of_swaps (fun l => ?_) h.leads
    rw [entry?_remove h.spot_ne_nil, entry?_remove h.spot_ne_nil]
    split
    · exact .inl rfl
    · exact hothers l

end Admits

namespace Site

theorem of_swaps (h : d.Site p dir) (hclosed : d'.Closed) (hcurrent : d'.current = d.current)
    (hothers : ∀ l, Swaps (d.entry? l) (d'.entry? l)) : d'.Site p dir where
  closed := hclosed
  directory := entry?_of_swaps (hothers dir) h.directory
  leads := by
    rw [hcurrent]
    exact walk?_of_swaps hothers h.leads

/-- The directory is found after something has been put to the place of the path. -/
theorem of_admits (h : d.Site p dir) (hadmits : d.Admits p dir) (hclosed : d'.Closed)
    (hcurrent : d'.current = d.current) (hspot : IsPlain (d'.entry? (spot p dir)))
    (hothers : ∀ l, l ≠ spot p dir → Swaps (d.entry? l) (d'.entry? l)) : d'.Site p dir where
  closed := hclosed
  directory := by
    refine entry?_of_swaps (hothers dir ?_) h.directory
    rintro heq
    exact hadmits.free (heq ▸ h.directory)
  leads := by
    rw [hcurrent]
    refine walk?_of_swaps (fun l => ?_) hadmits.leads
    rw [entry?_remove hadmits.spot_ne_nil]
    split
    case isTrue heq => exact .inr ⟨isPlain_none, heq ▸ hspot⟩
    case isFalse hne => exact hothers l hne

theorem above (h : d.Site p dir) (name : String) :
    ∀ q, q <+: dir ++ [name] → q ≠ dir ++ [name] → d.entry? q = some .directory := by
  intro q hq hne
  have hdir := (List.prefix_concat_iff.mp hq).resolve_left hne
  by_cases heq : q = dir
  · rw [heq, h.directory]
  · exact h.closed dir (by simp [h.directory]) q hdir heq

/-- What is no directory has a name in the directory of the path. -/
theorem spot_eq (h : d.Site p dir) (hfree : d.entry? (spot p dir) ≠ some .directory) :
    lastName p ≠ ".." ∧ spot p dir = dir ++ [lastName p] := by
  rw [spot, below] at hfree ⊢
  split
  case isTrue hup =>
    rw [if_pos hup] at hfree
    refine absurd ?_ hfree
    by_cases heq : dir.dropLast = dir
    · rw [heq, h.directory]
    · exact h.closed dir (by simp [h.directory]) _ (List.dropLast_prefix dir) heq
  case isFalse hdown => exact ⟨hdown, rfl⟩

/-- Where there is no link, none leads to the directory. -/
theorem admits (h : d.Site p dir) (hplain : IsPlain (d.entry? (spot p dir))) : d.Admits p dir where
  free := hplain.ne_directory
  leads := by
    refine walk?_of_swaps (fun l => ?_) h.leads
    rw [entry?_remove (by simp [(h.spot_eq hplain.ne_directory).2])]
    split
    case isTrue heq => exact .inr ⟨heq ▸ hplain, isPlain_none⟩
    case isFalse => exact .inl rfl

section Named

variable (h : d.Site p dir) (hp : steps p ≠ [])
include h hp

theorem ownPlace?_eq : d.ownPlace? p = some (spot p dir) := by
  rw [ownPlace?, ← steps_eq_concat hp]
  exact walk?_concat h.leads h.directory _

theorem place?_eq (hplain : d.linkAt? (spot p dir) = none) : d.place? p = some (spot p dir) :=
  walk?_followed (h.ownPlace?_eq hp) hplain

/-- A link at the place of a path that leads to a file is not on the way to the directory. -/
theorem admits_of_content? (hcontent : d.content? p = some bytes) : d.Admits p dir := by
  obtain ⟨file, hplace, hfile⟩ := Option.bind_eq_some_iff.mp (lookup?_of_content? hcontent)
  have hfree : d.entry? (spot p dir) ≠ some .directory := by
    intro hdirectory
    have hsame := h.place?_eq hp (linkAt?_of_directory hdirectory)
    rw [hplace] at hsame
    rw [← Option.some.inj hsame, hfile] at hdirectory
    cases hdirectory
  obtain ⟨hdown, hspot⟩ := h.spot_eq hfree
  have hnil : spot p dir ≠ [] := by simp [hspot]
  cases hlink : d.linkAt? (spot p dir) with
  | none => exact h.admits (isPlain_iff.mpr ⟨hlink, hfree⟩)
  | some target =>
    refine ⟨hfree, ?_⟩
    have hgo : d.walk? true maxHops (origin p d.current) ((steps p).dropLast ++ [lastName p]) = some file := by
      rw [steps_eq_concat hp]
      exact hplace
    rw [hspot] at hlink
    obtain ⟨enough, hleads⟩ := exists_walk?_target h.leads hdown hlink hgo
    have hremoved (l : Location) : entry? (d.remove (spot p dir)) l =
        if l = dir ++ [lastName p] then none else d.entry? l := by rw [entry?_remove hnil, hspot]
    refine walk?_of_replaced (fun l hl => ?_) hlink (fun l hl => ?_) hleads (by simp [hfile]) h.directory h.leads
    · rw [linkAt?, linkAt?, hremoved, if_neg hl]
    · rw [hremoved, if_neg, hl]
      rintro rfl
      rw [hspot] at hfree
      exact hfree hl

variable (hs : IsSuffix s)
include hs

omit h in
theorem steps_tidy_append : steps (tidy p ++ s) = (steps p).dropLast ++ [lastName p ++ s] ∧
    origin (tidy p ++ s) d.current = origin p d.current := by
  have hparts : ∀ part ∈ (steps p).dropLast ++ [lastName p ++ s], IsPart part := by
    intro part hpart
    obtain hpart | hpart := List.mem_append.mp hpart
    · exact isPart_of_mem_dropLast p part hpart
    · rw [List.mem_singleton.mp hpart]
      exact ((isPart_lastName hp).append hs).isPart
  rw [tidy_append hp]
  exact ⟨steps_build (isRoot_root p) hparts, origin_build hparts d.current⟩

theorem ownPlace?_spare : d.ownPlace? (tidy p ++ s) = some (spare p dir s) := by
  obtain ⟨hsteps, horigin⟩ := steps_tidy_append (d := d) hp hs
  rw [ownPlace?, hsteps, horigin, walk?_concat h.leads h.directory, below,
    if_neg ((isPart_lastName hp).append hs).ne_up, spare]

variable (hplain : d.linkAt? (spare p dir s) = none)
include hplain

theorem place?_spare : d.place? (tidy p ++ s) = some (spare p dir s) :=
  walk?_followed (h.ownPlace?_spare hp hs) hplain

theorem isPresent_spare : d.isPresent (tidy p ++ s) = (d.entry? (spare p dir s)).isSome := by
  rw [isPresent, lookup?, h.place?_spare hp hs hplain, Option.bind_some]

end Named

end Site

/-! ### Single steps -/

/-- One disk comes from another by what is put to one place. -/
structure Sets (d d' : Disk) (loc : Location) (e : Option Entry) : Prop where
  closed : d'.Closed
  current : d'.current = d.current
  entries : ∀ l, d'.entry? l = if l = loc then e else d.entry? l

/-- Putting a file to a place, and taking one away, does not matter to a walk. -/
theorem Sets.swaps {e : Option Entry} (h : Sets d d' loc e) (hold : IsPlain (d.entry? loc)) (hnew : IsPlain e)
    (l : Location) : Swaps (d.entry? l) (d'.entry? l) := by
  rw [h.entries]
  split
  case isTrue heq => exact .inr ⟨heq ▸ hold, hnew⟩
  case isFalse => exact .inl rfl

/-- A file that is written takes the place of a file or of nothing, wherever its path leads. -/
theorem writeFile?_swaps (hd : d.Closed) (hcurrent : d.entry? d.current = some .directory) {q : String}
    (h : d.writeFile? q bytes = some d') :
    d'.Closed ∧ d'.current = d.current ∧ ∀ l, Swaps (d.entry? l) (d'.entry? l) := by
  obtain ⟨loc, -, hfree, hkeeps, hfile⟩ := writeFile?_keeps hd (entry?_origin hcurrent q) h
  refine ⟨hkeeps.closed, hkeeps.current, fun l => ?_⟩
  by_cases heq : l = loc
  · have hlink := hkeeps.links loc
    rw [Disk.linkAt?, hfile] at hlink
    rw [heq, hfile]
    exact .inr ⟨isPlain_iff.mpr ⟨hlink.symm, hfree⟩, isPlain_file bytes⟩
  · exact .inl (hkeeps.others l heq)

section Steps

variable (h : d.Site p dir) (hp : steps p ≠ []) (hs : IsSuffix s)
include h hp hs

/-- Writing where no link and no directory stands. -/
theorem writeFile?_spare (hplain : IsPlain (d.entry? (spare p dir s))) (bytes : ByteArray) :
    ∃ d', d.writeFile? (tidy p ++ s) bytes = some d' ∧ Sets d d' (spare p dir s) (some (.file bytes)) := by
  have hne : spare p dir s ≠ [] := spare_ne_nil
  have hput := entry?_put hne d (.file bytes)
  refine ⟨d.put (spare p dir s) (.file bytes), ?_, h.closed.of_entries fun l => ?_, rfl, hput⟩
  · have hfree : ¬ d.hasDirectory (spare p dir s) = true :=
      fun hdirectory => hplain.ne_directory (hasDirectory_iff.mp hdirectory)
    rw [writeFile?, h.place?_spare hp hs hplain.linkAt?]
    simp only [Option.bind_eq_bind, Option.bind_some, if_neg hfree]
    rfl
  · rw [hput]
    split
    case isTrue heq => exact .inr ⟨heq ▸ hplain.ne_directory, fun _ => heq ▸ h.above _⟩
    case isFalse => exact .inl rfl

/-- Removing a file. -/
theorem unlink?_spare (hfile : d.entry? (spare p dir s) = some (.file bytes)) :
    ∃ d', d.unlink? (tidy p ++ s) = some d' ∧ Sets d d' (spare p dir s) none := by
  have hne : spare p dir s ≠ [] := spare_ne_nil
  have hremove := entry?_remove hne d
  refine ⟨d.remove (spare p dir s), ?_, h.closed.of_entries fun l => ?_, rfl, hremove⟩
  · rw [unlink?, h.ownPlace?_spare hp hs]
    simp only [Option.bind_eq_bind, Option.bind_some, hfile]
    rfl
  · rw [hremove]
    split
    case isTrue heq => exact .inr ⟨by simp [heq, hfile], fun hnew => absurd rfl hnew⟩
    case isFalse => exact .inl rfl

section Directory

variable (hdirectory : d.entry? (spare p dir s) = some .directory)
include hdirectory

theorem isPresent_of_directory : d.isPresent (tidy p ++ s) = true := by
  rw [h.isPresent_spare hp hs (linkAt?_of_directory hdirectory), hdirectory]
  rfl

/-- Where a directory stands, no file is written. -/
theorem writeFile?_of_directory (bytes : ByteArray) : d.writeFile? (tidy p ++ s) bytes = none := by
  rw [writeFile?, h.place?_spare hp hs (linkAt?_of_directory hdirectory)]
  simp only [Option.bind_eq_bind, Option.bind_some, if_pos (hasDirectory_iff.mpr hdirectory)]

/-- A directory is not removed. -/
theorem unlink?_of_directory : d.unlink? (tidy p ++ s) = none := by
  rw [unlink?, h.ownPlace?_spare hp hs]
  simp only [Option.bind_eq_bind, Option.bind_some, hdirectory]

end Directory

omit h hp in
theorem not_prefix_spot : ¬ spare p dir s <+: spot p dir := by
  intro hstart
  have hlength := hstart.length_le
  refine spare_ne_spot hs (hstart.eq_of_length_le ?_)
  rw [spot, below]
  split
  · rw [spare, List.length_dropLast, List.length_append]
    omega
  · rw [spare, List.length_append, List.length_append]
    rfl

/-- Moving a file or a link over what is no directory. -/
theorem rename?_spare {e : Entry} (hfile : d.entry? (spare p dir s) = some e) (he : e ≠ .directory)
    (hfree : d.entry? (spot p dir) ≠ some .directory) :
    ∃ d', d.rename? (tidy p ++ s) p = some d' ∧ d'.Closed ∧ d'.current = d.current ∧
      ∀ l, d'.entry? l = if l = spot p dir then some e else if l = spare p dir s then none else d.entry? l := by
  have hspot := (h.spot_eq hfree).2
  have hnil : spot p dir ≠ [] := by simp [hspot]
  have hmove := entry?_moveTree h.closed spare_ne_nil hnil hfile he
  refine ⟨d.moveTree (spare p dir s) (spot p dir), ?_, h.closed.of_entries fun l => ?_, rfl, hmove⟩
  · have hne : ¬ (spare p dir s == spot p dir) = true := by simpa using spare_ne_spot hs
    have hapart : ¬ (spare p dir s).isPrefixOf (spot p dir) = true := by
      rw [List.isPrefixOf_iff_prefix]
      exact not_prefix_spot hs
    rw [rename?, h.ownPlace?_spare hp hs, h.ownPlace?_eq hp]
    simp only [Option.bind_eq_bind, Option.bind_some, hfile, if_neg hne, if_neg hapart]
    cases e with
    | directory => exact absurd rfl he
    | _ =>
      cases hentry : d.entry? (spot p dir) with
      | none => rfl
      | some e =>
        cases e with
        | directory => exact absurd hentry hfree
        | _ => rfl
  · rw [hmove]
    split
    case isTrue heq => exact .inr ⟨heq ▸ hfree, fun _ => by rw [heq, hspot]; exact h.above _⟩
    case isFalse =>
      split
      case isTrue heq => exact .inr ⟨by simp [heq, hfile, he], fun hnew => absurd rfl hnew⟩
      case isFalse => exact .inl rfl

/-- Nothing but a directory is moved over a directory. -/
theorem rename?_spare_eq_none {e : Entry} (hfile : d.entry? (spare p dir s) = some e) (he : e ≠ .directory)
    (hdirectory : d.entry? (spot p dir) = some .directory) : d.rename? (tidy p ++ s) p = none := by
  have hne : ¬ (spare p dir s == spot p dir) = true := by simpa using spare_ne_spot hs
  rw [rename?, h.ownPlace?_spare hp hs, h.ownPlace?_eq hp]
  simp only [Option.bind_eq_bind, Option.bind_some, hfile, hdirectory, if_neg hne]
  cases e with
  | directory => exact absurd rfl he
  | _ => split <;> rfl

end Steps

end SourceChange.Disk
