import SourceChange.Proofs.Disk.Sites

/-!
Making the directories of a path.

Whatever links are on the way and wherever it breaks off, only missing directories of the way are made. If all are
there in the end, the path has its site; if not, it leads nowhere, nor does what lies beside it.
-/

namespace SourceChange.Disk

open SourceChange.Path

variable {d d' d'' : Disk} {p s : String} {dir loc l : Location} {way rest : List String}

/-- A place is on the way to the directory of a path. -/
def OnWay (d : Disk) (p : String) (l : Location) : Prop :=
  ∃ way, way <+: (steps p).dropLast ∧ d.walk? true maxHops (origin p d.current) way = some l

/-- One disk comes from another by directories that are made on the way to the directory of a path. -/
structure Grows (p : String) (d d' : Disk) : Prop where
  closed : d'.Closed
  current : d'.current = d.current
  entries : ∀ l, d'.entry? l = d.entry? l ∨
    d.entry? l = none ∧ d'.entry? l = some .directory ∧ d'.OnWay p l

namespace Grows

protected theorem refl (hd : d.Closed) : Grows p d d := ⟨hd, rfl, fun _ => .inl rfl⟩

theorem walk? (h : Grows p d d') {follow : Bool} {hops : Nat} {here : Location}
    (hwalk : d.walk? follow hops here way = some loc) : d'.walk? follow hops here way = some loc := by
  refine walk?_of_kept (fun l => ?_) (fun l hl => ?_) hwalk
  · obtain hsame | ⟨hnone, hnew, -⟩ := h.entries l
    · rw [linkAt?, linkAt?, hsame]
    · rw [linkAt?, linkAt?, hnone, hnew]
  · obtain hsame | ⟨-, hnew, -⟩ := h.entries l
    · rw [hsame, hl]
    · exact hnew

theorem onWay (h : Grows p d d') (hl : d.OnWay p l) : d'.OnWay p l := by
  obtain ⟨way, hway, hwalk⟩ := hl
  refine ⟨way, hway, ?_⟩
  rw [h.current]
  exact h.walk? hwalk

protected theorem trans (h : Grows p d d') (h' : Grows p d' d'') : Grows p d d'' where
  closed := h'.closed
  current := h'.current.trans h.current
  entries l := by
    obtain hsame' | ⟨hnone', hnew', hway'⟩ := h'.entries l
    · obtain hsame | ⟨hnone, hnew, hway⟩ := h.entries l
      · exact .inl (hsame'.trans hsame)
      · exact .inr ⟨hnone, hsame'.trans hnew, h'.onWay hway⟩
    · obtain hsame | ⟨-, hnew, -⟩ := h.entries l
      · exact .inr ⟨hsame ▸ hnone', hnew', hway'⟩
      · rw [hnone'] at hnew
        cases hnew

/-- What was there is still there. -/
theorem entry?_of_some (h : Grows p d d') {e : Entry} (hl : d.entry? l = some e) : d'.entry? l = some e := by
  obtain hsame | ⟨hnone, -⟩ := h.entries l
  · rw [hsame, hl]
  · rw [hnone] at hl
    cases hl

theorem content? (h : Grows p d d') {q : String} {bytes : ByteArray} (hq : d.content? q = some bytes) :
    d'.content? q = some bytes := by
  obtain ⟨loc, hplace, hentry⟩ := Option.bind_eq_some_iff.mp (lookup?_of_content? hq)
  have hplace' : d'.place? q = some loc := by
    rw [place?, h.current]
    exact h.walk? hplace
  rw [Disk.content?, lookup?, hplace', Option.bind_some, h.entry?_of_some hentry]

end Grows

theorem hasDirectory_of_isDirectory {q : String} (h : d.isDirectory q = true) :
    ∃ loc, d.place? q = some loc ∧ d.entry? loc = some .directory := by
  rw [isDirectory, lookup?] at h
  cases hplace : d.place? q with
  | none => simp [hplace] at h
  | some loc =>
    rw [hplace] at h
    exact ⟨loc, rfl, hasDirectory_iff.mp h⟩

theorem isDirectory_of_hasDirectory {q : String} (hplace : d.place? q = some loc)
    (hloc : d.entry? loc = some .directory) : d.isDirectory q = true := by
  rw [isDirectory, lookup?, hplace, Option.bind_some, hloc]
  rfl

section Way

variable (hway : ∀ part ∈ way, IsPart part)
include hway

theorem place?_build (d : Disk) (p : String) :
    d.place? (build (root p) way) = d.walk? true maxHops (origin p d.current) way := by
  rw [place?, steps_build (isRoot_root p) hway, origin_build hway]

theorem ownPlace?_build (d : Disk) (p : String) :
    d.ownPlace? (build (root p) way) = d.walk? false maxHops (origin p d.current) way := by
  rw [ownPlace?, steps_build (isRoot_root p) hway, origin_build hway]

/-- A directory is made where nothing is, and the way then leads to it. -/
theorem makeDirectory?_build (hd : d.Closed) (hcurrent : d.entry? d.current = some .directory)
    (hbelow : way <+: (steps p).dropLast) (h : d.makeDirectory? (build (root p) way) = some d') :
    Grows p d d' ∧ ∃ loc, d'.walk? true maxHops (origin p d'.current) way = some loc ∧
      d'.entry? loc = some .directory := by
  obtain ⟨loc, hplace, hstep⟩ := Option.bind_eq_some_iff.mp h
  split at hstep
  case isTrue => cases hstep
  case isFalse hfree =>
    obtain rfl := Option.some.inj hstep
    have hnone : d.entry? loc = none := by simpa using hfree
    rw [ownPlace?_build hway] at hplace
    have hwalk := walk?_followed hplace (by rw [linkAt?, hnone])
    obtain ⟨-, habove⟩ := walk?_standing hd (hd.standing (entry?_origin hcurrent p)) hwalk
    have hnil : loc ≠ [] := by
      rintro rfl
      cases hnone
    have hput := entry?_put hnil d .directory
    have hthere : entry? (d.put loc .directory) loc = some .directory := by rw [hput, if_pos rfl]
    have hleads : (d.put loc .directory).walk? true maxHops (origin p d.current) way = some loc := by
      refine walk?_of_kept (fun l => ?_) (fun l hl => ?_) hwalk
      · by_cases heq : l = loc
        · rw [heq, linkAt?, linkAt?, hthere, hnone]
        · rw [linkAt?, linkAt?, hput, if_neg heq]
      · rw [hput]
        split
        case isTrue => rfl
        case isFalse => exact hl
    refine ⟨⟨hd.of_entries fun l => ?_, rfl, fun l => ?_⟩, loc, hleads, hthere⟩
    · rw [hput]
      split
      case isTrue heq => exact .inr ⟨by simp [heq, hnone], fun _ => heq ▸ habove⟩
      case isFalse => exact .inl rfl
    · rw [hput]
      split
      case isTrue heq => exact .inr ⟨heq ▸ hnone, rfl, way, hbelow, heq ▸ hleads⟩
      case isFalse => exact .inl rfl

/-- A directory that is not there is not passed. -/
theorem walk?_eq_none_of_missing (hmissing : ¬ d.isDirectory (build (root p) way) = true) (hrest : rest ≠ []) :
    d.walk? true maxHops (origin p d.current) (way ++ rest) = none := by
  by_contra hgo
  obtain ⟨loc, hgo⟩ := Option.ne_none_iff_exists'.mp hgo
  obtain ⟨mid, left, hmid, hgo⟩ := exists_walk?_between hgo
  have hdirectory := entry?_of_walk? hrest hgo
  rw [← place?_build hway] at hmid
  exact hmissing (isDirectory_of_hasDirectory hmid hdirectory)

end Way

/-- Going on along a way, from the directory that its beginning leads to. -/
theorem makeDirectoriesFromUnder_grows {left : Option Nat} {flag : Bool} (hd : d.Closed)
    (hcurrent : d.entry? d.current = some .directory) (hway : way ++ rest <+: (steps p).dropLast)
    (hleads : ∃ loc, d.walk? true maxHops (origin p d.current) way = some loc ∧ d.entry? loc = some .directory)
    (h : d.makeDirectoriesFromUnder left (build (root p) way) rest = (d', flag)) :
    Grows p d d' ∧
      (flag = true → ∃ dir, d'.walk? true maxHops (origin p d'.current) (way ++ rest) = some dir ∧
        d'.entry? dir = some .directory) ∧
      (flag = false → ∀ more, more ≠ [] →
        d'.walk? true maxHops (origin p d'.current) (way ++ rest ++ more) = none) := by
  induction rest generalizing d way left with
  | nil =>
    obtain ⟨rfl, rfl⟩ := Prod.mk.inj h
    refine ⟨Grows.refl hd, fun _ => by rwa [List.append_nil], fun hfalse => by cases hfalse⟩
  | cons name rest ih =>
    have hsplit : way ++ name :: rest = way ++ [name] ++ rest := by simp
    rw [hsplit] at hway ⊢
    have hfirst : way ++ [name] <+: (steps p).dropLast := (List.prefix_append _ rest).trans hway
    have hparts : ∀ part ∈ way ++ [name], IsPart part :=
      fun part hpart => isPart_of_mem_dropLast p part (hfirst.subset hpart)
    have hjoin : join (build (root p) way) name = build (root p) (way ++ [name]) :=
      join_build (isRoot_root p) (fun part hpart => hparts part (List.mem_append_left _ hpart))
        (hparts name (by simp))
    have hstuck (hmissing : ¬ d.isDirectory (build (root p) (way ++ [name])) = true) (more : List String)
        (hmore : more ≠ []) : d.walk? true maxHops (origin p d.current) (way ++ [name] ++ rest ++ more) = none := by
      rw [List.append_assoc]
      exact walk?_eq_none_of_missing hparts hmissing (by simp [hmore])
    rw [makeDirectoriesFromUnder, hjoin] at h
    split at h
    case isTrue hthere =>
      obtain ⟨loc, hplace, hdirectory⟩ := hasDirectory_of_isDirectory hthere
      rw [place?_build hparts] at hplace
      exact ih hd hcurrent hway ⟨loc, hplace, hdirectory⟩ h
    case isFalse hmissing =>
      split at h
      case isTrue =>
        obtain ⟨rfl, rfl⟩ := Prod.mk.inj h
        exact ⟨Grows.refl hd, fun hfalse => by simp at hfalse, fun _ => hstuck hmissing⟩
      case isFalse =>
        split at h
        case h_1 between hmake =>
          obtain ⟨hgrows, hgo⟩ := makeDirectory?_build hparts hd hcurrent hfirst hmake
          have hcurrent : between.entry? between.current = some .directory := by
            rw [hgrows.current]
            exact hgrows.entry?_of_some hcurrent
          obtain ⟨hmore, hleads, hstuck⟩ := ih hgrows.closed hcurrent hway hgo h
          exact ⟨hgrows.trans hmore, hleads, hstuck⟩
        case h_2 =>
          obtain ⟨rfl, rfl⟩ := Prod.mk.inj h
          exact ⟨Grows.refl hd, fun hfalse => by simp at hfalse, fun _ => hstuck hmissing⟩

/-- Making the directories of a path, as far as that does not break off. -/
theorem makeDirectoriesUnder_grows {left : Option Nat} {flag : Bool} (hd : d.Closed)
    (hcurrent : d.entry? d.current = some .directory) (hp : steps p ≠ [])
    (h : d.makeDirectoriesUnder left (directory (tidy p)) = (d', flag)) :
    Grows p d d' ∧ (flag = true → ∃ dir, d'.Site p dir) ∧
      (flag = false → ∀ s, IsSuffix s → d'.isPresent (tidy p ++ s) = false) := by
  have hparts := isPart_of_mem_dropLast p
  have hstart : ∃ loc, d.walk? true maxHops (origin p d.current) [] = some loc ∧
      d.entry? loc = some .directory := ⟨origin p d.current, rfl, entry?_origin hcurrent p⟩
  have hroot : build (root p) [] = root p := by simp [build, ofParts, Text.join]
  rw [makeDirectoriesUnder, directory_tidy hp, root_build (isRoot_root p) hparts,
    steps_build (isRoot_root p) hparts, ← hroot] at h
  obtain ⟨hgrows, hleads, hstuck⟩ :=
    makeDirectoriesFromUnder_grows hd hcurrent (by rw [List.nil_append]) hstart h
  refine ⟨hgrows, fun hflag => ?_, fun hflag s hs => ?_⟩
  · obtain ⟨dir, hdir, hdirectory⟩ := hleads hflag
    exact ⟨dir, hgrows.closed, hdirectory, hdir⟩
  · obtain ⟨hsteps, horigin⟩ := Site.steps_tidy_append (d := d') hp hs
    rw [isPresent, lookup?, place?, hsteps, horigin, ← List.nil_append ((steps p).dropLast),
      hstuck hflag [lastName p ++ s] (by simp)]
    rfl

end SourceChange.Disk
