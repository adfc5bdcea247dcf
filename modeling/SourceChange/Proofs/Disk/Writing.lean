import SourceChange.Proofs.Disk.Links

/-!
Writing and deleting files.

An atomic write goes through directories that are made, a copy of the old file and a temporary file. If it
ends well, the file has its content, and elsewhere nothing has changed but directories above the file that
were missing and the two places beside it.
-/

namespace SourceChange

namespace Path

theorem isName_append {n s : String} (hn : '/' ∉ n.toList) (hs : '/' ∉ s.toList) (hlong : 2 < s.length) :
    IsName (n ++ s) := by
  have hlonger : 2 < (n ++ s).length := by
    rw [String.length_append]
    omega
  refine ⟨?_, ?_, ?_, ?_⟩
  · rw [String.toList_append, List.mem_append]
    exact not_or.mpr ⟨hn, hs⟩
  all_goals
    rintro heq
    rw [heq] at hlonger
    exact absurd hlonger (by decide)

end Path

namespace Disk

open SourceChange.Path

variable {d d' d'' : Disk} {loc l : Location} {p : String} {content : ByteArray}

/-- One disk comes from another by changes at some places only, and none to links and directories. -/
structure Keeps (d d' : Disk) (touched : Location → Prop) : Prop where
  closed : d'.Closed
  current : d'.current = d.current
  links : ∀ l, d'.linkAt? l = d.linkAt? l
  directories : ∀ l, d.entry? l = some .directory → d'.entry? l = some .directory
  others : ∀ l, ¬ touched l → d'.entry? l = d.entry? l

/-- A disk stays closed where nothing takes the place of a directory and what is new lies in directories. -/
theorem Closed.of_entries (hd : d.Closed) (h : ∀ l, d'.entry? l = d.entry? l ∨ d.entry? l ≠ some .directory ∧
      (d'.entry? l ≠ none → ∀ q, q <+: l → q ≠ l → d.entry? q = some .directory)) : d'.Closed := by
  intro l hl q hq hne
  have hdirectory : d.entry? q = some .directory := by
    obtain hsame | ⟨-, hnew⟩ := h l
    · exact hd l (hsame ▸ hl) q hq hne
    · exact hnew hl q hq hne
  obtain hsame | ⟨hother, -⟩ := h q
  · rw [hsame, hdirectory]
  · exact absurd hdirectory hother

namespace Keeps

variable {touched touched' : Location → Prop}

protected theorem refl (hd : d.Closed) : Keeps d d touched :=
  ⟨hd, rfl, fun _ => rfl, fun _ hl => hl, fun _ _ => rfl⟩

protected theorem trans (h : Keeps d d' touched) (h' : Keeps d' d'' touched) : Keeps d d'' touched :=
  ⟨h'.closed, h'.current.trans h.current, fun l => (h'.links l).trans (h.links l),
    fun l hl => h'.directories l (h.directories l hl), fun l hl => (h'.others l hl).trans (h.others l hl)⟩

theorem mono (h : Keeps d d' touched) (hsub : ∀ l, touched l → touched' l) : Keeps d d' touched' :=
  ⟨h.closed, h.current, h.links, h.directories, fun l hl => h.others l fun ht => hl (hsub l ht)⟩

theorem clear (h : Keeps d d' touched) (hclear : d.Clear loc) : d'.Clear loc :=
  fun q hq => (h.links q).trans (hclear q hq)

/-- No directory may be touched, and what is new has to lie in directories. -/
theorem of_entries (hd : d.Closed) (hcurrent : d'.current = d.current)
    (hothers : ∀ l, ¬ touched l → d'.entry? l = d.entry? l)
    (hold : ∀ l, touched l → d.entry? l ≠ some .directory)
    (hlinks : ∀ l, touched l → d'.linkAt? l = d.linkAt? l)
    (hnew : ∀ l, touched l → d'.entry? l ≠ none → ∀ q, q <+: l → q ≠ l → d.entry? q = some .directory) :
    Keeps d d' touched := by
  have hdirectories : ∀ l, d.entry? l = some .directory → d'.entry? l = some .directory := by
    intro l hl
    rw [hothers l fun ht => hold l ht hl]
    exact hl
  refine ⟨hd.of_entries fun l => ?_, hcurrent, ?_, hdirectories, hothers⟩
  · by_cases ht : touched l
    · exact .inr ⟨hold l ht, hnew l ht⟩
    · exact .inl (hothers l ht)
  · intro l
    by_cases ht : touched l
    · exact hlinks l ht
    · rw [linkAt?, linkAt?, hothers l ht]

end Keeps

/-- One disk comes from another by changes to files at some places only. -/
structure Rewrites (d d' : Disk) (touched : Location → Prop) : Prop extends Keeps d d' touched where
  noneMade : ∀ l, d'.entry? l = some .directory → d.entry? l = some .directory

theorem Keeps.rewrites {touched : Location → Prop} (h : Keeps d d' touched)
    (hfile : ∀ l, touched l → d'.entry? l ≠ some .directory) : Rewrites d d' touched where
  toKeeps := h
  noneMade l hl := by
    by_cases ht : touched l
    · exact absurd hl (hfile l ht)
    · rwa [h.others l ht] at hl

namespace Rewrites

variable {touched touched' : Location → Prop}

protected theorem refl (hd : d.Closed) : Rewrites d d touched := ⟨Keeps.refl hd, fun _ => id⟩

protected theorem trans (h : Rewrites d d' touched) (h' : Rewrites d' d'' touched) : Rewrites d d'' touched :=
  ⟨h.toKeeps.trans h'.toKeeps, fun l hl => h.noneMade l (h'.noneMade l hl)⟩

theorem mono (h : Rewrites d d' touched) (hsub : ∀ l, touched l → touched' l) : Rewrites d d' touched' :=
  ⟨h.toKeeps.mono hsub, h.noneMade⟩

end Rewrites

theorem linkAt?_of_directory (h : d.entry? l = some .directory) : d.linkAt? l = none := by
  rw [linkAt?, h]

/-- Putting a file or a directory where there is neither a directory nor a link. -/
theorem keeps_put (hd : d.Closed) (hfree : d.entry? loc ≠ some .directory)
    (habove : ∀ q, q <+: loc → q ≠ loc → d.entry? q = some .directory) (hlink : d.linkAt? loc = none)
    {e : Entry} (he : ∀ target, e ≠ .link target) :
    Keeps d (d.put loc e) (· = loc) ∧ entry? (d.put loc e) loc = some e := by
  have hloc : loc ≠ [] := by
    rintro rfl
    exact hfree (entry?_nil d)
  have hput := entry?_put hloc d e
  have hthere : entry? (d.put loc e) loc = some e := by rw [hput, if_pos rfl]
  refine ⟨Keeps.of_entries hd rfl ?_ ?_ ?_ ?_, hthere⟩
  · intro l hl
    rw [hput, if_neg hl]
  · rintro l rfl
    exact hfree
  · rintro l rfl
    rw [hlink, linkAt?, hthere]
    cases e with
    | link target => exact absurd rfl (he target)
    | _ => rfl
  · rintro l rfl -
    exact habove

/-! ### Single steps -/

/-- The directories above a place are there, and no link stands at it. -/
structure Standing (d : Disk) (loc : Location) : Prop where
  unlinked : d.linkAt? loc = none
  above : ∀ q, q <+: loc → q ≠ loc → d.entry? q = some .directory

theorem Closed.standing (hd : d.Closed) (h : d.entry? loc = some .directory) : d.Standing loc :=
  ⟨linkAt?_of_directory h, hd loc (by simp [h])⟩

theorem walkWith?_standing (hd : d.Closed) {jump : Location → List String → Option Location}
    (hjump : ∀ here way target, d.entry? here = some .directory → jump here way = some target →
      d.Standing target)
    {here target : Location} {way : List String} (hhere : d.Standing here)
    (h : d.walkWith? true jump here way = some target) : d.Standing target := by
  fun_induction walkWith? d true jump here way with
  | case1 here => exact Option.some.inj h ▸ hhere
  | case2 => cases h
  | case3 here name rest hthere hup ih =>
    refine ih (hd.standing ?_) h
    by_cases heq : here.dropLast = here
    · rw [heq]
      exact hasDirectory_iff.mp (by simpa using hthere)
    · exact hhere.above _ (List.dropLast_prefix here) heq
  | case4 here name rest _ _ _ _ hlast => simp at hlast
  | case5 here name rest hthere _ link =>
    refine hjump _ _ _ ?_ h
    rw [origin]
    split
    · exact entry?_nil d
    · exact hasDirectory_iff.mp (by simpa using hthere)
  | case6 here name rest hthere _ hnolink ih =>
    refine ih ⟨?_, ?_⟩ h
    · rw [linkAt?]
      split
      case h_1 link hlinked => exact (hnolink link hlinked).elim
      case h_2 => rfl
    · intro q hq hne
      obtain rfl | hq := List.prefix_concat_iff.mp hq
      · exact absurd rfl hne
      · by_cases heq : q = here
        · rw [heq]
          exact hasDirectory_iff.mp (by simpa using hthere)
        · exact hhere.above q hq heq

/-- A way that is followed to its end leads into a directory, to a place where no link stands. -/
theorem walk?_standing (hd : d.Closed) {hops : Nat} {here target : Location} {way : List String}
    (hhere : d.Standing here) (h : d.walk? true hops here way = some target) : d.Standing target := by
  induction hops generalizing here target way with
  | zero =>
    refine walkWith?_standing hd ?_ hhere h
    intro here way target _ hnone
    cases hnone
  | succ hops ih =>
    refine walkWith?_standing hd ?_ hhere h
    intro here way target hthere hwalk
    exact ih (hd.standing hthere) hwalk

theorem entry?_origin_pathOf (d : Disk) (loc : Location) :
    d.entry? (origin (pathOf loc) d.current) = some .directory := by
  rw [origin, isAbsolute_pathOf]
  rfl

/-- Wherever a file is written, it takes no directory's place. -/
theorem writeFile?_keeps (hd : d.Closed) (hstart : d.entry? (origin p d.current) = some .directory)
    (h : d.writeFile? p content = some d') :
    ∃ loc, d.place? p = some loc ∧ d.entry? loc ≠ some .directory ∧ Keeps d d' (· = loc) ∧
      d'.entry? loc = some (.file content) := by
  obtain ⟨loc, hplace, h⟩ := Option.bind_eq_some_iff.mp h
  obtain ⟨hlink, habove⟩ := walk?_standing hd (hd.standing hstart) hplace
  split at h
  case isTrue => cases h
  case isFalse hfile =>
    obtain rfl := Option.some.inj h
    have hfree : d.entry? loc ≠ some .directory := fun hdirectory => hfile (hasDirectory_iff.mpr hdirectory)
    obtain ⟨hkeeps, hthere⟩ := keeps_put hd hfree habove hlink (e := .file content) (by simp)
    exact ⟨loc, hplace, hfree, hkeeps, hthere⟩

section Named

variable (hd : d.Closed) (hloc : ∀ n ∈ loc, IsName n) (hclear : d.Clear loc)
include hd hloc hclear

theorem writeFile?_pathOf (h : d.writeFile? (pathOf loc) content = some d') :
    Keeps d d' (· = loc) ∧ d'.entry? loc = some (.file content) := by
  obtain ⟨found, hplace, -, hkeeps, hthere⟩ := writeFile?_keeps hd (entry?_origin_pathOf d loc) h
  obtain ⟨rfl, -⟩ := (place?_pathOf hloc hclear).mp hplace
  exact ⟨hkeeps, hthere⟩

theorem makeDirectory?_pathOf (h : d.makeDirectory? (pathOf loc) = some d') : Keeps d d' (· = loc) := by
  obtain ⟨found, hplace, hstep⟩ := Option.bind_eq_some_iff.mp h
  obtain ⟨rfl, habove⟩ := (ownPlace?_pathOf hloc hclear).mp hplace
  split at hstep
  case isTrue => cases hstep
  case isFalse hfree =>
    obtain rfl := Option.some.inj hstep
    have hnone : d.entry? found = none := by simpa using hfree
    exact (keeps_put hd (by simp [hnone]) habove (hclear found (List.prefix_refl _)) (by simp)).1

theorem unlink?_pathOf (h : d.unlink? (pathOf loc) = some d') :
    Keeps d d' (· = loc) ∧ d'.entry? loc = none ∧ d.entry? loc ≠ some .directory := by
  obtain ⟨found, hplace, hstep⟩ := Option.bind_eq_some_iff.mp h
  obtain ⟨rfl, habove⟩ := (ownPlace?_pathOf hloc hclear).mp hplace
  split at hstep
  case h_1 => cases hstep
  case h_2 => cases hstep
  case h_3 e hother hthere =>
    obtain rfl := Option.some.inj hstep
    have hfree : d.entry? found ≠ some .directory := by
      rw [hthere]
      exact fun heq => hother (Option.some.inj heq)
    have hnonroot : found ≠ [] := by
      rintro rfl
      exact hfree (entry?_nil d)
    have hremove := entry?_remove hnonroot d
    have hgone : entry? (d.remove found) found = none := by rw [hremove, if_pos rfl]
    refine ⟨Keeps.of_entries hd rfl ?_ ?_ ?_ ?_, hgone, hfree⟩
    · intro l hl
      rw [hremove, if_neg hl]
    · rintro l rfl
      exact hfree
    · rintro l rfl
      rw [hclear l (List.prefix_refl _), linkAt?, hgone]
    · rintro l rfl hpresent
      exact absurd hgone hpresent

/-- What is not there counts as deleted. -/
theorem delete_pathOf (h : d.delete (pathOf loc) = (d', true)) :
    Keeps d d' (· = loc) ∧ d'.entry? loc = none ∧ d.entry? loc ≠ some .directory := by
  rw [delete, isPresent_pathOf hloc hclear hd] at h
  split at h
  case isTrue hgone =>
    obtain ⟨rfl, -⟩ := Prod.mk.inj h
    have hnone : d.entry? loc = none := by simpa using hgone
    exact ⟨Keeps.refl hd, hnone, by simp [hnone]⟩
  case isFalse =>
    split at h
    case isTrue => cases (Prod.mk.inj h).2
    case isFalse =>
      split at h
      case h_1 _ after hunlink =>
        obtain ⟨rfl, -⟩ := Prod.mk.inj h
        exact unlink?_pathOf hd hloc hclear hunlink
      case h_2 => cases (Prod.mk.inj h).2

/-- Only directories are not deleted, and then nothing is changed. -/
theorem delete_pathOf_eq_false (h : d.delete (pathOf loc) = (d', false)) :
    d' = d ∧ d.entry? loc = some .directory := by
  rw [delete, isPresent_pathOf hloc hclear hd] at h
  split at h
  case isTrue => cases (Prod.mk.inj h).2
  case isFalse hthere =>
    split at h
    case isTrue hdirectory =>
      exact ⟨(Prod.mk.inj h).1.symm, (isDirectory_pathOf hloc hclear hd).mp hdirectory⟩
    case isFalse hfile =>
      rw [isDirectory_pathOf hloc hclear hd] at hfile
      split at h
      case h_1 => cases (Prod.mk.inj h).2
      case h_2 hstuck =>
        -- a file that is there can be removed
        have hpresent : d.entry? loc ≠ none := by simpa using hthere
        have hplace := (ownPlace?_pathOf hloc hclear).mpr ⟨rfl, hd loc hpresent⟩
        rw [unlink?, hplace] at hstuck
        simp only [Option.bind_eq_bind, Option.bind_some] at hstuck
        split at hstuck
        case h_1 hnone => exact absurd hnone hpresent
        case h_2 hdirectory => exact absurd hdirectory hfile
        case h_3 => cases hstuck

end Named

/-- Moving a file to another place. -/
theorem rename?_pathOf (hd : d.Closed) {old new : Location} (hold : ∀ n ∈ old, IsName n)
    (hnew : ∀ n ∈ new, IsName n) (hclearOld : d.Clear old) (hclearNew : d.Clear new) (hne : old ≠ new)
    (hfile : d.entry? old = some (.file content))
    (h : d.rename? (pathOf old) (pathOf new) = some d') :
    Keeps d d' (fun l => l = old ∨ l = new) ∧ d'.entry? new = some (.file content) ∧ d'.entry? old = none := by
  obtain ⟨source, hsource, hfrom⟩ := Option.bind_eq_some_iff.mp h
  obtain ⟨target, htarget, hto⟩ := Option.bind_eq_some_iff.mp hfrom
  obtain ⟨moving, hmoving, hsteps⟩ := Option.bind_eq_some_iff.mp hto
  obtain ⟨rfl, -⟩ := (ownPlace?_pathOf hold hclearOld).mp hsource
  obtain ⟨rfl, habove⟩ := (ownPlace?_pathOf hnew hclearNew).mp htarget
  obtain rfl := Option.some.inj (hfile.symm.trans hmoving)
  have hmoved : d.entry? target ≠ some .directory ∧ d.moveTree source target = d' := by
    rw [if_neg (by simpa using hne)] at hsteps
    dsimp only at hsteps
    split at hsteps
    case isTrue => cases hsteps
    case isFalse =>
      cases hthere : d.entry? target with
      | none =>
        rw [hthere] at hsteps
        exact ⟨by simp, Option.some.inj hsteps⟩
      | some e =>
        rw [hthere] at hsteps
        cases e with
        | directory => cases hsteps
        | file => exact ⟨by simp, Option.some.inj hsteps⟩
        | link => exact ⟨by simp, Option.some.inj hsteps⟩
  obtain ⟨hfree, rfl⟩ := hmoved
  have hnonroot {l : Location} (hl : d.entry? l ≠ some .directory) : l ≠ [] := by
    rintro rfl
    exact hl (entry?_nil d)
  have hsourceFree : d.entry? source ≠ some .directory := by simp [hfile]
  have hmove := entry?_moveTree hd (hnonroot hsourceFree) (hnonroot hfree) hfile (by simp)
  have hthere : entry? (d.moveTree source target) target = some (.file content) := by
    rw [hmove, if_pos rfl]
  have hgone : entry? (d.moveTree source target) source = none := by
    rw [hmove, if_neg hne, if_pos rfl]
  refine ⟨Keeps.of_entries hd rfl ?_ ?_ ?_ ?_, hthere, hgone⟩
  · intro l hl
    obtain ⟨hsource, htarget⟩ := not_or.mp hl
    rw [hmove, if_neg htarget, if_neg hsource]
  · rintro l (rfl | rfl)
    · exact hsourceFree
    · exact hfree
  · rintro l (rfl | rfl)
    · rw [linkAt?, linkAt?, hgone, hfile]
    · rw [hclearNew l (List.prefix_refl _), linkAt?, hthere]
  · rintro l (rfl | rfl) hpresent
    · exact absurd hgone hpresent
    · exact habove

/-! ### Atomic writes -/

/-- The place of the file that has a suffix after its name and lies beside another. -/
def beside (loc : Location) (suffix : String) : Location :=
  loc.dropLast ++ [loc.getLast?.getD "" ++ suffix]

/-- What an atomic write of a file may change: its place, the places above and the two beside it. -/
def Touches (loc l : Location) : Prop := l <+: loc ∨ l = beside loc ".tmp" ∨ l = beside loc ".bak"

instance (loc l : Location) : Decidable (Touches loc l) := inferInstanceAs (Decidable (_ ∨ _))

/-- No link stands on the way to a file or where its temporary file and its backup go. -/
structure Unlinked (d : Disk) (loc : Location) : Prop where
  clear : d.Clear loc
  temporary : d.linkAt? (beside loc ".tmp") = none
  backup : d.linkAt? (beside loc ".bak") = none

theorem exists_beside (hloc : loc ≠ []) :
    ∃ dir name, loc = dir ++ [name] ∧ ∀ suffix, beside loc suffix = dir ++ [name ++ suffix] := by
  obtain rfl | ⟨dir, name, rfl⟩ := List.eq_nil_or_concat' loc
  · exact absurd rfl hloc
  · exact ⟨dir, name, rfl, fun suffix => by simp [beside]⟩

theorem beside_ne (hloc : loc ≠ []) {suffix : String} (hsuffix : suffix ≠ "") : beside loc suffix ≠ loc := by
  obtain ⟨dir, name, rfl, hbeside⟩ := exists_beside hloc
  rw [hbeside]
  simpa using hsuffix

theorem temporary_ne_backup (loc : Location) : beside loc ".tmp" ≠ beside loc ".bak" := by
  simp [beside]

theorem length_beside (hloc : loc ≠ []) (suffix : String) : (beside loc suffix).length = loc.length := by
  obtain ⟨dir, name, rfl, hbeside⟩ := exists_beside hloc
  rw [hbeside, List.length_append, List.length_append]
  rfl

theorem not_prefix_dropLast (hloc : loc ≠ []) (hlong : loc.length ≤ l.length) : ¬ l <+: loc.dropLast := by
  intro hprefix
  have hshort := hprefix.length_le
  have hpositive := List.length_pos_iff.mpr hloc
  rw [List.length_dropLast] at hshort
  omega

theorem Keeps.unlinked {touched : Location → Prop} (h : Keeps d d' touched) (hloc : d.Unlinked loc) :
    d'.Unlinked loc :=
  ⟨h.clear hloc.clear, (h.links _).trans hloc.temporary, (h.links _).trans hloc.backup⟩

theorem rollBack_ne_done (d : Disk) (p : String) (backup : Bool) : (d.rollBack p backup).2 ≠ .done := by
  rw [rollBack]
  split
  · simp
  · split
    · simp
    · simp

theorem exists_of_copy? {source target : String} (h : d.copy? source target = some d') :
    ∃ content, d.content? source = some content ∧
      d.writeFile? (if d.isDirectory target then join target (lastName source) else target) content = some d' := by
  obtain ⟨copied, hcontent, hsteps⟩ := Option.bind_eq_some_iff.mp h
  generalize (if d.isDirectory target then join target (lastName source) else target) = goal at hsteps ⊢
  dsimp only at hsteps
  split at hsteps
  case isTrue => cases hsteps
  case isFalse => exact ⟨copied, hcontent, hsteps⟩

theorem ne_nil_of_atomicWrite {backup : Bool} (h : d.atomicWrite (pathOf loc) content backup = (d', .done)) :
    loc ≠ [] := by
  rintro rfl
  rw [atomicWrite, if_pos (by decide)] at h
  cases (Prod.mk.inj h).2

/-- Making the directories of a way makes those that are missing and changes nothing else, also where it
breaks off. -/
theorem makeDirectoriesFrom_pathOf (hd : d.Closed) {done rest : List String} {made : Bool}
    (hnames : ∀ n ∈ done ++ rest, IsName n) (hclear : d.Clear (done ++ rest))
    (h : d.makeDirectoriesFrom (pathOf done) rest = (d', made)) : Keeps d d' (· <+: done ++ rest) := by
  induction rest generalizing d done with
  | nil =>
    obtain ⟨rfl, -⟩ := Prod.mk.inj h
    exact Keeps.refl hd
  | cons name rest ih =>
    have hjoin : join (pathOf done) name = pathOf (done ++ [name]) :=
      join_pathOf (fun n hn => hnames n (by simp [hn])) (hnames name (by simp))
    have hway : done ++ name :: rest = done ++ [name] ++ rest := by simp
    rw [hway] at hnames hclear ⊢
    have hfirst : done ++ [name] <+: done ++ [name] ++ rest := List.prefix_append _ rest
    rw [makeDirectoriesFrom, hjoin] at h
    split at h
    case isTrue => exact ih hd hnames hclear h
    case isFalse =>
      split at h
      case h_1 between hmake =>
        have hkeeps := makeDirectory?_pathOf hd (fun n hn => hnames n (List.mem_append_left rest hn))
          (hclear.of_prefix hfirst) hmake
        refine (hkeeps.mono ?_).trans (ih hkeeps.closed hnames (hkeeps.clear hclear) h)
        rintro l rfl
        exact hfirst
      case h_2 =>
        obtain ⟨rfl, -⟩ := Prod.mk.inj h
        exact Keeps.refl hd

section Named

variable {backup : Bool} (hd : d.Closed) (hne : loc ≠ []) (hloc : ∀ n ∈ loc, IsName n)
  (hunlinked : d.Unlinked loc)
include hne hloc

theorem isName_beside {suffix : String} (hslash : '/' ∉ suffix.toList) (hlong : 2 < suffix.length) :
    ∀ n ∈ beside loc suffix, IsName n := by
  obtain ⟨dir, name, rfl, hbeside⟩ := exists_beside hne
  intro n hn
  rw [hbeside] at hn
  obtain hn | hn := List.mem_append.mp hn
  · exact hloc n (List.mem_append_left [name] hn)
  · rw [List.mem_singleton.mp hn]
    exact isName_append (hloc name (by simp)).noSlash hslash hlong

theorem isName_temporary : ∀ n ∈ beside loc ".tmp", IsName n :=
  isName_beside hne hloc (by decide) (by decide)

theorem isName_backup : ∀ n ∈ beside loc ".bak", IsName n :=
  isName_beside hne hloc (by decide) (by decide)

theorem tidy_append_suffix (suffix : String) : tidy (pathOf loc) ++ suffix = pathOf (beside loc suffix) := by
  rw [tidy_pathOf hloc]
  obtain ⟨dir, name, rfl, hbeside⟩ := exists_beside hne
  rw [hbeside, pathOf_append_suffix]

theorem temporaryPath_pathOf : temporaryPath (pathOf loc) = pathOf (beside loc ".tmp") :=
  tidy_append_suffix hne hloc ".tmp"

theorem backupPath_pathOf : backupPath (pathOf loc) = pathOf (beside loc ".bak") :=
  tidy_append_suffix hne hloc ".bak"

omit hloc in
theorem Clear.beside (hclear : d.Clear loc) {suffix : String}
    (hlink : d.linkAt? (beside loc suffix) = none) : d.Clear (beside loc suffix) := by
  obtain ⟨dir, name, rfl, hbeside⟩ := exists_beside hne
  rw [hbeside] at hlink ⊢
  intro q hq
  obtain rfl | hq := List.prefix_concat_iff.mp hq
  · exact hlink
  · exact hclear q (hq.trans (List.prefix_append dir [name]))

omit hunlinked in
include hd in
theorem makeDirectories_pathOf {made : Bool} (hclear : d.Clear loc)
    (h : d.makeDirectories (Path.directory (pathOf loc)) = (d', made)) : Keeps d d' (· <+: loc.dropLast) := by
  obtain ⟨dir, name, rfl, -⟩ := exists_beside hne
  have hdir : ∀ n ∈ dir, IsName n := fun n hn => hloc n (List.mem_append_left [name] hn)
  rw [directory_pathOf hdir (hloc name (by simp)), makeDirectories, root_pathOf hdir, steps_pathOf hdir,
    ← pathOf_nil] at h
  have hmade : Keeps d d' (· <+: [] ++ dir) :=
    makeDirectoriesFrom_pathOf hd hdir (hclear.of_prefix (List.prefix_append dir [name])) h
  rwa [List.dropLast_concat]

include hd hunlinked

theorem dropBackup_done (h : d.dropBackup (pathOf loc) backup = (d', .done)) :
    Keeps d d' (· = beside loc ".bak") ∧
      d'.entry? (beside loc ".bak") = (if backup = true then none else d.entry? (beside loc ".bak")) ∧
      (backup = true → d.entry? (beside loc ".bak") ≠ some .directory) := by
  have hclear := hunlinked.clear.beside hne hunlinked.backup
  have hnames := isName_backup hne hloc
  rw [dropBackup, backupPath_pathOf hne hloc, isPresent_pathOf hnames hclear hd] at h
  split at h
  case isTrue hbackup =>
    split at h
    case h_1 after hunlink =>
      obtain ⟨rfl, -⟩ := Prod.mk.inj h
      obtain ⟨hkeeps, hgone, hfile⟩ := unlink?_pathOf hd hnames hclear hunlink
      refine ⟨hkeeps, ?_, fun _ => hfile⟩
      rw [hgone, if_pos (Bool.and_eq_true_iff.mp hbackup).1]
    case h_2 => exact absurd (congrArg Prod.snd h) (rollBack_ne_done _ _ _)
  case isFalse hnone =>
    obtain ⟨rfl, -⟩ := Prod.mk.inj h
    have hgone (hbackup : backup = true) : d.entry? (beside loc ".bak") = none := by
      simpa [hbackup] using hnone
    refine ⟨Keeps.refl hd, ?_, fun hbackup => by simp [hgone hbackup]⟩
    split
    case isTrue hbackup => exact hgone hbackup
    case isFalse => rfl

/-- The temporary file takes the place of the file, and the backup goes. -/
theorem replaceFile_done (h : d.replaceFile (pathOf loc) content backup = (d', .done)) :
    Keeps d d' (Touches loc) ∧ d'.entry? loc = some (.file content) ∧ d'.entry? (beside loc ".tmp") = none ∧
      d'.entry? (beside loc ".bak") = (if backup = true then none else d.entry? (beside loc ".bak")) ∧
      (backup = true → d.entry? (beside loc ".bak") ≠ some .directory) := by
  have hclear := hunlinked.clear.beside hne hunlinked.temporary
  have hnames := isName_temporary hne hloc
  have hother : beside loc ".tmp" ≠ loc := beside_ne hne (by decide)
  have hbackup : beside loc ".bak" ≠ loc := beside_ne hne (by decide)
  have hapart := temporary_ne_backup loc
  rw [replaceFile, temporaryPath_pathOf hne hloc] at h
  split at h
  case h_1 => exact absurd (congrArg Prod.snd h) (rollBack_ne_done _ _ _)
  case h_2 written hwrite =>
    obtain ⟨hwritten, hfile⟩ := writeFile?_pathOf hd hnames hclear hwrite
    split at h
    case h_1 => exact absurd (congrArg Prod.snd h) (rollBack_ne_done _ _ _)
    case h_2 moved hmove =>
      obtain ⟨hmoved, hthere, hgone⟩ := rename?_pathOf hwritten.closed hnames hloc (hwritten.clear hclear)
        (hwritten.clear hunlinked.clear) hother hfile hmove
      obtain ⟨hdropped, hdrop, hbak⟩ := dropBackup_done hmoved.closed hne hloc
        (hmoved.unlinked (hwritten.unlinked hunlinked)) h
      have hsame : moved.entry? (beside loc ".bak") = d.entry? (beside loc ".bak") := by
        rw [hmoved.others _ (not_or.mpr ⟨hapart.symm, hbackup⟩), hwritten.others _ hapart.symm]
      rw [hsame] at hdrop hbak
      refine ⟨?_, ?_, ?_, hdrop, hbak⟩
      · refine ((hwritten.mono ?_).trans (hmoved.mono ?_)).trans (hdropped.mono ?_)
        · exact fun l hl => .inr (.inl hl)
        · rintro l (rfl | rfl)
          · exact .inr (.inl rfl)
          · exact .inl (List.prefix_refl _)
        · exact fun l hl => .inr (.inr hl)
      · rw [hdropped.others loc hbackup.symm, hthere]
      · rw [hdropped.others _ hapart, hgone]

/-- The old file is copied to its backup, or into the directory that stands there. -/
theorem copy?_backup (h : d.copy? (pathOf loc) (pathOf (beside loc ".bak")) = some d') :
    ∃ target, Keeps d d' (· = target) ∧ d.entry? target ≠ some .directory ∧
      (d.entry? (beside loc ".bak") ≠ some .directory → target = beside loc ".bak") := by
  have hclear := hunlinked.clear.beside hne hunlinked.backup
  have hnames := isName_backup hne hloc
  obtain ⟨copied, -, hwrite⟩ := exists_of_copy? h
  split at hwrite
  case isTrue hdirectory =>
    have hlast : IsName (lastName (pathOf loc)) := by
      obtain ⟨dir, name, rfl, -⟩ := exists_beside hne
      rw [lastName, steps_pathOf hloc, List.getLast?_concat]
      exact hloc name (by simp)
    rw [join_pathOf hnames hlast] at hwrite
    obtain ⟨target, -, hfree, hkeeps, -⟩ := writeFile?_keeps hd (entry?_origin_pathOf d _) hwrite
    refine ⟨target, hkeeps, hfree, fun hfile => ?_⟩
    exact absurd ((isDirectory_pathOf hnames hclear hd).mp hdirectory) hfile
  case isFalse hfile =>
    rw [isDirectory_pathOf hnames hclear hd] at hfile
    exact ⟨_, (writeFile?_pathOf hd hnames hclear hwrite).1, hfile, fun _ => rfl⟩

/-- A write that is done leaves the file with its content and without a temporary file, and a file that was
there has no backup any more. -/
theorem atomicWrite_done (h : d.atomicWrite (pathOf loc) content true = (d', .done)) :
    Keeps d d' (Touches loc) ∧ d'.entry? loc = some (.file content) ∧ d'.entry? (beside loc ".tmp") = none ∧
      d'.entry? (beside loc ".bak") =
        if (d.entry? loc).isSome = true then none else d.entry? (beside loc ".bak") := by
  have hsteps : ¬ (steps (pathOf loc) == []) = true := by
    rw [steps_pathOf hloc]
    simpa using hne
  rw [atomicWrite, if_neg hsteps, tidy_pathOf hloc, backupPath_pathOf hne hloc] at h
  split at h
  case h_1 => exact absurd (congrArg Prod.snd h) (rollBack_ne_done _ _ _)
  case h_2 made hmake =>
    have habove := makeDirectories_pathOf hd hne hloc hunlinked.clear hmake
    have hmade : Keeps d made (Touches loc) :=
      habove.mono fun l hl => .inl (hl.trans (List.dropLast_prefix loc))
    have hsame : made.entry? loc = d.entry? loc := habove.others loc (not_prefix_dropLast hne le_rfl)
    have hsameBackup : made.entry? (beside loc ".bak") = d.entry? (beside loc ".bak") :=
      habove.others _ (not_prefix_dropLast hne (length_beside hne ".bak").ge)
    have hunlinked := hmade.unlinked hunlinked
    rw [Bool.true_and, isPresent_pathOf hloc hunlinked.clear hmade.closed, hsame] at h
    split at h
    case isFalse hnew =>
      obtain ⟨hreplaced, hthere, htemporary, hbackup, -⟩ := replaceFile_done hmade.closed hne hloc hunlinked h
      refine ⟨hmade.trans hreplaced, hthere, htemporary, ?_⟩
      rw [hbackup, if_neg Bool.false_ne_true, if_neg hnew, hsameBackup]
    case isTrue hthere =>
      split at h
      case h_1 => exact absurd (congrArg Prod.snd h) (rollBack_ne_done _ _ _)
      case h_2 copied hcopy =>
        obtain ⟨target, hcopied, hfree, htarget⟩ := copy?_backup hmade.closed hne hloc hunlinked hcopy
        obtain ⟨hreplaced, hwritten, htemporary, hgone, hbackup⟩ :=
          replaceFile_done hcopied.closed hne hloc (hcopied.unlinked hunlinked) h
        -- a directory in place of the backup would still be there at the end, and could not be removed
        have hspot : target = beside loc ".bak" := by
          apply htarget
          intro hdirectory
          refine hbackup rfl ?_
          rw [hcopied.others _ ?_, hdirectory]
          rintro rfl
          exact hfree hdirectory
        have hcopied : Keeps made copied (Touches loc) := by
          refine hcopied.mono ?_
          rintro l rfl
          exact .inr (.inr hspot)
        refine ⟨(hmade.trans hcopied).trans hreplaced, hwritten, htemporary, ?_⟩
        rw [hgone, if_pos rfl, if_pos hthere]

end Named

end Disk

end SourceChange
