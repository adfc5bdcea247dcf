import SourceChange.Disk.Workspace
import SourceChange.Proofs.Disk.Places
import SourceChange.Proofs.Except

/-!
Following links.

Where a path leads is found out link by link, and a link that is met while it is being followed leads nowhere.
Only the links on a disk decide it. The way of an operating system ends at the same place, if it ends at all.
-/

namespace SourceChange.Disk

open SourceChange.Path

variable {d d' : Disk} {here loc link : Location} {way : List String} {depth : Nat} {within : List Location}
  {jump jump' : Location → Location → List String → Resolution}

theorem linked_iff {l : Location} (hlinks : d'.linkAt? l = d.linkAt? l) {target : String} :
    d'.entry? l = some (.link target) ↔ d.entry? l = some (.link target) := by
  rw [← linkAt?_eq_some_iff, ← linkAt?_eq_some_iff, hlinks]

/-- A way is decided by the links on a disk and by where each of them leads. -/
theorem resolveWith_congr (hlinks : ∀ l, d'.linkAt? l = d.linkAt? l)
    (hjump : ∀ link start way, d.linkAt? link ≠ none → jump' link start way = jump link start way) :
    d'.resolveWith jump' here way = d.resolveWith jump here way := by
  fun_induction resolveWith d jump here way with
  | case1 here => rw [resolveWith]
  | case2 here part rest hhere ih => rw [resolveWith, if_pos hhere, ih]
  | case3 here part rest hhere hup ih => rw [resolveWith, if_neg hhere, if_pos hup, ih]
  | case4 here part rest hhere hup target hlink loc hloc ih =>
    have hjump := hjump (here ++ [part]) (origin target here) (parts target) (by simp [linkAt?, hlink])
    rw [resolveWith, if_neg hhere, if_neg hup, (linked_iff (hlinks _)).mpr hlink]
    dsimp only
    rw [hjump, hloc]
    exact ih
  | case5 here part rest hhere hup target hlink loc hloc =>
    have hjump := hjump (here ++ [part]) (origin target here) (parts target) (by simp [linkAt?, hlink])
    rw [resolveWith, if_neg hhere, if_neg hup, (linked_iff (hlinks _)).mpr hlink]
    dsimp only
    rw [hjump, hloc]
  | case6 here part rest hhere hup hplain ih =>
    rw [resolveWith, if_neg hhere, if_neg hup]
    split
    case h_1 target hlink => exact (hplain target ((linked_iff (hlinks _)).mp hlink)).elim
    case h_2 => exact ih

theorem resolveFrom_congr (hlinks : ∀ l, d'.linkAt? l = d.linkAt? l) :
    d'.resolveFrom depth within here way = d.resolveFrom depth within here way := by
  induction depth generalizing within here way with
  | zero => exact resolveWith_congr hlinks fun _ _ _ _ => rfl
  | succ depth ih =>
    refine resolveWith_congr hlinks fun link start way _ => ?_
    rw [ih]

/-! ### How many links are within each other -/

/-- The places of what is on a disk, except for links that are being followed. -/
def unfollowed (d : Disk) (within : List Location) : List Location :=
  (d.entries.map Prod.fst).filter fun l => !within.contains l

theorem mem_unfollowed (hlink : d.linkAt? link ≠ none) (hnew : link ∉ within) :
    link ∈ d.unfollowed within := by
  obtain ⟨target, htarget⟩ := Option.ne_none_iff_exists'.mp hlink
  have hentry := linkAt?_eq_some_iff.mp htarget
  have hnil : link ≠ [] := by
    rintro rfl
    cases hentry
  rw [entry?_eq_lookup hnil] at hentry
  obtain ⟨before, after, hentries, -⟩ := List.lookup_eq_some_iff.mp hentry
  refine List.mem_filter.mpr ⟨List.mem_map.mpr ⟨(link, .link target), ?_, rfl⟩, by simpa using hnew⟩
  simp [hentries]

/-- Of a link that is followed there is none left within it. -/
theorem unfollowed_cons_length (hlink : d.linkAt? link ≠ none) (hnew : link ∉ within) :
    (d.unfollowed (link :: within)).length < (d.unfollowed within).length := by
  have hfilter : d.unfollowed (link :: within) = (d.unfollowed within).filter (· != link) := by
    rw [unfollowed, unfollowed, List.filter_filter]
    refine List.filter_congr fun l _ => ?_
    simp only [List.contains_cons, Bool.not_or, bne]
  rw [hfilter]
  exact List.length_filter_lt_length_iff_exists.mpr ⟨link, mem_unfollowed hlink hnew, by simp⟩

theorem resolveFrom_succ (h : (d.unfollowed within).length ≤ depth) :
    d.resolveFrom (depth + 1) within here way = d.resolveFrom depth within here way := by
  induction depth generalizing within here way with
  | zero =>
    refine resolveWith_congr (fun _ => rfl) fun link start way hlink => ?_
    have hwithin : link ∈ within := by
      by_contra hnew
      have hmem := mem_unfollowed hlink hnew
      rw [List.eq_nil_of_length_eq_zero (Nat.le_zero.mp h)] at hmem
      cases hmem
    rw [if_pos (by simpa using hwithin)]
  | succ depth ih =>
    refine resolveWith_congr (fun _ => rfl) fun link start way hlink => ?_
    by_cases hwithin : link ∈ within
    · rw [if_pos (by simpa using hwithin), if_pos (by simpa using hwithin)]
    · have hless := unfollowed_cons_length hlink hwithin
      rw [if_neg (by simpa using hwithin), if_neg (by simpa using hwithin), ih (by omega)]

/-- No more links can be within each other than there are. -/
theorem resolution_eq_resolveFrom (h : d.entries.length ≤ depth) :
    d.resolution here way = d.resolveFrom depth [] here way := by
  have hall : (d.unfollowed []).length ≤ d.entries.length := by
    have hfilter := List.length_filter_le (fun l => !([] : List Location).contains l) (d.entries.map Prod.fst)
    rwa [List.length_map] at hfilter
  induction depth, h using Nat.le_induction with
  | base => rfl
  | succ depth hdepth ih => rw [ih, resolveFrom_succ (hall.trans hdepth)]

theorem resolution_congr (hlinks : ∀ l, d'.linkAt? l = d.linkAt? l) :
    d'.resolution here way = d.resolution here way := by
  rw [resolution_eq_resolveFrom (Nat.le_add_left d'.entries.length d.entries.length),
    resolution_eq_resolveFrom (Nat.le_add_right d.entries.length d'.entries.length), resolveFrom_congr hlinks]

/-! ### Places that ways lead to -/

/-- A part of a way that is a step to a place below. -/
structure IsStep (part : String) : Prop where
  ne_empty : part ≠ ""
  ne_here : part ≠ "."
  ne_up : part ≠ ".."

theorem isStep_of_not {part : String} (hhere : ¬ (part == "" || part == ".") = true)
    (hup : ¬ (part == "..") = true) : IsStep part := by
  simp only [Bool.or_eq_true, beq_iff_eq, not_or] at hhere hup
  exact ⟨hhere.1, hhere.2, hup⟩

/-- The parts of a way that are steps to places below are names. -/
def IsNamed (way : List String) : Prop := ∀ part ∈ way, IsStep part → IsName part

theorem isNamed_parts (p : String) : IsNamed (parts p) := by
  intro part hpart hstep
  have hkept : part ∈ steps p := List.mem_filter.mpr ⟨hpart, by simp [hstep.ne_empty, hstep.ne_here]⟩
  exact isName_of_mem_steps hkept hstep.ne_up

theorem isNamed_steps (p : String) : IsNamed (steps p) :=
  fun part hpart => isNamed_parts p part (List.mem_filter.mp hpart).1

theorem isName_of_mem_below {part : String} (hhere : ∀ n ∈ here, IsName n) (hpart : IsName part) :
    ∀ n ∈ here ++ [part], IsName n := by
  intro n hn
  obtain hn | hn := List.mem_append.mp hn
  · exact hhere n hn
  · rw [List.mem_singleton.mp hn]
    exact hpart

theorem isName_of_mem_above (hhere : ∀ n ∈ here, IsName n) : ∀ n ∈ here.dropLast, IsName n :=
  fun n hn => hhere n ((List.dropLast_sublist here).mem hn)

theorem isName_of_mem_origin {p : String} (hhere : ∀ n ∈ here, IsName n) : ∀ n ∈ origin p here, IsName n := by
  rw [origin]
  split
  case isTrue => exact fun n hn => absurd hn List.not_mem_nil
  case isFalse => exact hhere

theorem isName_of_mem_behind (hloc : ∀ n ∈ loc, IsName n) (hway : IsNamed way) :
    ∀ n ∈ behind loc way, IsName n := by
  have hfold : ∀ here : Location, (∀ n ∈ here, IsName n) → ∀ n ∈ way.foldl takePart here, IsName n := by
    induction way with
    | nil => exact fun here hhere => hhere
    | cons part rest ih =>
      intro here hhere
      obtain ⟨hpart, hrest⟩ := List.forall_mem_cons.mp hway
      refine ih hrest (takePart here part) ?_
      rw [takePart]
      split
      case isTrue => exact hhere
      case isFalse hstay =>
        split
        case isTrue => exact isName_of_mem_above hhere
        case isFalse hup => exact isName_of_mem_below hhere (hpart (isStep_of_not hstay hup))
  rw [behind]
  refine hfold _ ?_
  split
  case isTrue => exact fun n hn => absurd hn List.not_mem_nil
  case isFalse => exact hloc

/-- A way of names leads to a place of names. -/
theorem isName_of_mem_resolveWith
    (hjump : ∀ link start way, (∀ n ∈ link, IsName n) → (∀ n ∈ start, IsName n) → IsNamed way →
      ∀ n ∈ (jump link start way).place, IsName n)
    (hhere : ∀ n ∈ here, IsName n) (hway : IsNamed way) :
    ∀ n ∈ (d.resolveWith jump here way).place, IsName n := by
  fun_induction resolveWith d jump here way with
  | case1 here => exact hhere
  | case2 here part rest _ ih => exact ih hhere (List.forall_mem_cons.mp hway).2
  | case3 here part rest _ _ ih => exact ih (isName_of_mem_above hhere) (List.forall_mem_cons.mp hway).2
  | case4 here part rest hstay hup target _ loc hloc ih =>
    obtain ⟨hpart, hrest⟩ := List.forall_mem_cons.mp hway
    have hlink := isName_of_mem_below hhere (hpart (isStep_of_not hstay hup))
    have hplace : ∀ n ∈ (jump (here ++ [part]) (origin target here) (parts target)).place, IsName n :=
      hjump _ _ _ hlink (isName_of_mem_origin hhere) (isNamed_parts target)
    rw [hloc] at hplace
    exact ih hplace hrest
  | case5 here part rest hstay hup target _ loc hloc =>
    obtain ⟨hpart, hrest⟩ := List.forall_mem_cons.mp hway
    have hlink := isName_of_mem_below hhere (hpart (isStep_of_not hstay hup))
    have hplace : ∀ n ∈ (jump (here ++ [part]) (origin target here) (parts target)).place, IsName n :=
      hjump _ _ _ hlink (isName_of_mem_origin hhere) (isNamed_parts target)
    rw [hloc] at hplace
    exact isName_of_mem_behind hplace hrest
  | case6 here part rest hstay hup _ ih =>
    obtain ⟨hpart, hrest⟩ := List.forall_mem_cons.mp hway
    exact ih (isName_of_mem_below hhere (hpart (isStep_of_not hstay hup))) hrest

theorem isName_of_mem_resolution (hhere : ∀ n ∈ here, IsName n) (hway : IsNamed way) :
    ∀ n ∈ (d.resolution here way).place, IsName n := by
  have hfrom : ∀ depth within, ∀ here : Location, (∀ n ∈ here, IsName n) → ∀ way, IsNamed way →
      ∀ n ∈ (d.resolveFrom depth within here way).place, IsName n := by
    intro depth
    induction depth with
    | zero =>
      intro within here hhere way hway
      exact isName_of_mem_resolveWith (fun _ _ _ hlink _ _ => hlink) hhere hway
    | succ depth ih =>
      intro within here hhere way hway
      refine isName_of_mem_resolveWith (fun link start way hlink hstart hway => ?_) hhere hway
      split
      case isTrue => exact hlink
      case isFalse => exact ih (link :: within) start hstart way hway
  exact hfrom _ _ here hhere way hway

theorem Clear.above (h : d.Clear here) : d.Clear here.dropLast := h.of_prefix (List.dropLast_prefix here)

theorem clear_nil (d : Disk) : d.Clear [] := by
  intro q hq
  rw [List.prefix_nil.mp hq]
  rfl

theorem Clear.origin {p : String} (h : d.Clear here) : d.Clear (origin p here) := by
  rw [Disk.origin]
  split
  case isTrue => exact clear_nil d
  case isFalse => exact h

theorem Clear.below {part : String} (h : d.Clear here) (hplain : d.linkAt? (here ++ [part]) = none) :
    d.Clear (here ++ [part]) := by
  intro q hq
  obtain rfl | hq := List.prefix_concat_iff.mp hq
  · exact hplain
  · exact h q hq

/-- Where links are followed one after the other, none is left on the way. -/
theorem clear_of_resolveWith
    (hjump : ∀ link start way loc, d.Clear start → jump link start way = .reached loc → d.Clear loc)
    (hhere : d.Clear here) (h : d.resolveWith jump here way = .reached loc) : d.Clear loc := by
  fun_induction resolveWith d jump here way with
  | case1 here =>
    obtain rfl := Resolution.reached.inj h
    exact hhere
  | case2 here part rest _ ih => exact ih hhere h
  | case3 here part rest _ _ ih => exact ih hhere.above h
  | case4 here part rest _ _ target _ mid hmid ih => exact ih (hjump _ _ _ mid hhere.origin hmid) h
  | case5 => cases h
  | case6 here part rest _ _ hplain ih =>
    refine ih (hhere.below ?_) h
    rw [linkAt?]
    split
    case h_1 target hlink => exact (hplain target hlink).elim
    case h_2 => rfl

theorem clear_of_resolution (hhere : d.Clear here) (h : d.resolution here way = .reached loc) : d.Clear loc := by
  have hfrom : ∀ depth within, ∀ here way loc, d.Clear here →
      d.resolveFrom depth within here way = .reached loc → d.Clear loc := by
    intro depth
    induction depth with
    | zero =>
      intro within here way loc hhere h
      refine clear_of_resolveWith ?_ hhere h
      intro link start way loc _ hreached
      cases hreached
    | succ depth ih =>
      intro within here way loc hhere h
      refine clear_of_resolveWith ?_ hhere h
      intro link start way loc hstart hreached
      split at hreached
      case isTrue => cases hreached
      case isFalse => exact ih (link :: within) start way loc hstart hreached
  exact hfrom _ _ here way loc hhere h

/-! ### Going round in a circle -/

theorem isEndless_of_kept (hlinks : ∀ l, d'.linkAt? l = d.linkAt? l)
    (hdirectories : ∀ l, d.entry? l = some .directory → d'.entry? l = some .directory) {hops : Nat}
    (h : d.isEndless hops here way = true) : d'.isEndless hops here way = true := by
  have hwith : ∀ jump jump' : Location → List String → Bool,
      (∀ here way, jump here way = true → jump' here way = true) → ∀ here way,
      d.isEndlessWith jump here way = true → d'.isEndlessWith jump' here way = true := by
    intro jump jump' hjump here way h
    fun_induction isEndlessWith d jump here way with
    | case1 => cases h
    | case2 => cases h
    | case3 here name rest hthere hup ih =>
      rw [isEndlessWith, hasDirectory_iff.mpr (hdirectories here (hasDirectory_iff.mp (by simpa using hthere))),
        if_neg (by simp), if_pos hup]
      exact ih h
    | case4 here name rest hthere hup target hlink =>
      rw [isEndlessWith, hasDirectory_iff.mpr (hdirectories here (hasDirectory_iff.mp (by simpa using hthere))),
        if_neg (by simp), if_neg hup, (linked_iff (hlinks _)).mpr hlink]
      exact hjump _ _ h
    | case5 here name rest hthere hup hplain ih =>
      rw [isEndlessWith, hasDirectory_iff.mpr (hdirectories here (hasDirectory_iff.mp (by simpa using hthere))),
        if_neg (by simp), if_neg hup]
      split
      case h_1 target hlink => exact (hplain target ((linked_iff (hlinks _)).mp hlink)).elim
      case h_2 => exact ih h
  induction hops generalizing here way with
  | zero => exact hwith _ _ (fun _ _ hjump => hjump) _ _ h
  | succ hops ih => exact hwith _ _ (fun _ _ hjump => ih hjump) _ _ h

/-- Without links there is no circle. -/
theorem isEndless_eq_false (hnames : ∀ n ∈ loc, IsName n) (hclear : d.Clear loc) :
    d.isEndless maxHops [] loc = false := by
  have hwith : ∀ jump, ∀ rest here, d.Clear (here ++ rest) → (∀ n ∈ rest, IsName n) →
      d.isEndlessWith jump here rest = false := by
    intro jump rest
    induction rest with
    | nil =>
      intro here _ _
      rw [isEndlessWith]
    | cons name rest ih =>
      intro here hclear hnames
      obtain ⟨hname, hrest⟩ := List.forall_mem_cons.mp hnames
      have heq : here ++ name :: rest = here ++ [name] ++ rest := by simp
      rw [isEndlessWith]
      split
      case isTrue => rfl
      case isFalse =>
        rw [if_neg (by simpa using hname.ne_up)]
        split
        case h_1 target hlink =>
          have hplain := hclear (here ++ [name]) ⟨rest, by simp⟩
          rw [linkAt?_eq_some_iff.mpr hlink] at hplain
          cases hplain
        case h_2 => exact ih (here ++ [name]) (heq ▸ hclear) hrest
  exact hwith _ loc [] hclear hnames

/-! ### Places in a workspace -/

theorem settle_eq_ok_iff {r : Resolution} :
    d.settle r = .ok loc ↔ r.place = loc ∧ (r = .circular loc → d.isEndless maxHops [] loc = false) := by
  cases r with
  | reached found => simp [settle, Resolution.place]
  | circular found =>
    rw [settle]
    split
    case isTrue hendless =>
      constructor
      · intro h
        cases h
      · rintro ⟨rfl, h⟩
        have hfinite := h rfl
        dsimp only [Resolution.place] at hfinite
        rw [hfinite] at hendless
        cases hendless
    case isFalse hfound =>
      constructor
      · rintro ⟨rfl⟩
        exact ⟨rfl, fun _ => by simpa using hfound⟩
      · rintro ⟨rfl, -⟩
        rfl

variable {root path : String}

/-- The place of a path in a workspace lies below the root. -/
theorem resolveIn_eq_ok_iff :
    d.resolveIn root path = .ok loc ↔
      Text.isBlankText path = false ∧ isAbsolute path = false ∧
        ∃ base, d.settle (d.resolution (origin root d.current) (steps root)) = .ok base ∧
          d.settle (d.resolution base (steps path)) = .ok loc ∧ base <+: loc := by
  have hbelow (base found : Location) :
      (if base.isPrefixOf found then .ok found else .error (.outside path (tidy root)) :
        Except WorkspaceFault Location) = .ok loc ↔ found = loc ∧ base <+: loc := by
    by_cases h : base <+: found
    · rw [if_pos (List.isPrefixOf_iff_prefix.mpr h), Except.ok.injEq]
      exact ⟨fun heq => ⟨heq, heq ▸ h⟩, fun heq => heq.1⟩
    · rw [if_neg fun hprefix => h (List.isPrefixOf_iff_prefix.mp hprefix)]
      constructor
      · intro heq
        cases heq
      · rintro ⟨rfl, hprefix⟩
        exact absurd hprefix h
  rw [resolveIn]
  cases hblank : Text.isBlankText path with
  | true => simp
  | false =>
    cases habsolute : isAbsolute path with
    | true => simp
    | false =>
      simp only [Bool.false_eq_true, if_false, bind_eq_ok_iff, hbelow, true_and]
      refine exists_congr fun base => and_congr_right fun _ => ?_
      constructor
      · rintro ⟨found, hfound, rfl, hprefix⟩
        exact ⟨hfound, hprefix⟩
      · rintro ⟨hloc, hprefix⟩
        exact ⟨loc, hloc, rfl, hprefix⟩

theorem isName_of_resolution_root (hcurrent : ∀ n ∈ d.current, IsName n) (root : String) :
    ∀ n ∈ (d.resolution (origin root d.current) (steps root)).place, IsName n :=
  isName_of_mem_resolution (isName_of_mem_origin hcurrent) (isNamed_steps root)

theorem isName_of_resolveIn (hcurrent : ∀ n ∈ d.current, IsName n) (h : d.resolveIn root path = .ok loc) :
    ∀ n ∈ loc, IsName n := by
  obtain ⟨-, -, base, hbase, hloc, -⟩ := resolveIn_eq_ok_iff.mp h
  obtain ⟨rfl, -⟩ := settle_eq_ok_iff.mp hbase
  obtain ⟨rfl, -⟩ := settle_eq_ok_iff.mp hloc
  exact isName_of_mem_resolution (isName_of_resolution_root hcurrent root) (isNamed_steps path)

section Kept

variable (hlinks : ∀ l, d'.linkAt? l = d.linkAt? l) (hcurrent : d'.current = d.current)
include hlinks hcurrent

/-- A place that is found once there are more directories was found before. -/
theorem resolveIn_eq_ok_of_kept
    (hdirectories : ∀ l, d.entry? l = some .directory → d'.entry? l = some .directory)
    (h : d'.resolveIn root path = .ok loc) : d.resolveIn root path = .ok loc := by
  have hsettle {r : Resolution} {loc : Location} (hloc : d'.settle r = .ok loc) : d.settle r = .ok loc := by
    obtain ⟨hplace, hfinite⟩ := settle_eq_ok_iff.mp hloc
    refine settle_eq_ok_iff.mpr ⟨hplace, fun hcircular => ?_⟩
    by_contra hendless
    have hkept := isEndless_of_kept hlinks hdirectories (by simpa using hendless)
    rw [hfinite hcircular] at hkept
    cases hkept
  obtain ⟨hblank, habsolute, base, hbase, hloc, hbelow⟩ := resolveIn_eq_ok_iff.mp h
  rw [hcurrent, resolution_congr hlinks] at hbase
  rw [resolution_congr hlinks] at hloc
  exact resolveIn_eq_ok_iff.mpr ⟨hblank, habsolute, base, hsettle hbase, hsettle hloc, hbelow⟩

/-- A place that no link is on the way to is found as long as the links stay. -/
theorem resolveIn_eq_ok_of_clear (hnames : ∀ n ∈ d.current, IsName n) (hclear : d.Clear loc)
    (h : d.resolveIn root path = .ok loc) : d'.resolveIn root path = .ok loc := by
  have hclear' : d'.Clear loc := fun q hq => (hlinks q).trans (hclear q hq)
  have hloc := isName_of_resolveIn hnames h
  obtain ⟨hblank, habsolute, base, hbase, hplace, hbelow⟩ := resolveIn_eq_ok_iff.mp h
  have hsettle {r : Resolution} {l : Location} (hl : l <+: loc) (hr : d.settle r = .ok l) :
      d'.settle r = .ok l := by
    refine settle_eq_ok_iff.mpr ⟨(settle_eq_ok_iff.mp hr).1, fun _ => ?_⟩
    exact isEndless_eq_false (fun n hn => hloc n (hl.subset hn)) (hclear'.of_prefix hl)
  refine resolveIn_eq_ok_iff.mpr ⟨hblank, habsolute, base, ?_, ?_, hbelow⟩
  · rw [hcurrent, resolution_congr hlinks]
    exact hsettle hbelow hbase
  · rw [resolution_congr hlinks]
    exact hsettle (List.prefix_refl loc) hplace

end Kept

/-! ### Where the system goes -/

/-- A way leads from a place to another, and so many links are followed on it. -/
inductive Leads (d : Disk) : Nat → Location → List String → Location → Prop
  | done (here : Location) : Leads d 0 here [] here
  | stay {n : Nat} {here loc : Location} {part : String} {rest : List String}
    (hpart : part = "" ∨ part = ".") (h : Leads d n here rest loc) : Leads d n here (part :: rest) loc
  | up {n : Nat} {here loc : Location} {rest : List String} (h : Leads d n here.dropLast rest loc) :
    Leads d n here (".." :: rest) loc
  | down {n : Nat} {here loc : Location} {part : String} {rest : List String} (hpart : IsStep part)
    (hplain : d.linkAt? (here ++ [part]) = none) (h : Leads d n (here ++ [part]) rest loc) :
    Leads d n here (part :: rest) loc
  | follow {m n : Nat} {here mid loc : Location} {part target : String} {rest : List String}
    (hpart : IsStep part) (hlink : d.linkAt? (here ++ [part]) = some target)
    (htarget : Leads d m (Disk.origin target here) (parts target) mid) (h : Leads d n mid rest loc) :
    Leads d (m + 1 + n) here (part :: rest) loc

theorem not_isStep_iff {part : String} : ¬ IsStep part ↔ (part = "" ∨ part = ".") ∨ part = ".." := by
  constructor
  · intro h
    by_contra hother
    simp only [not_or] at hother
    exact h ⟨hother.1.1, hother.1.2, hother.2⟩
  · rintro ((rfl | rfl) | rfl) h
    · exact h.ne_empty rfl
    · exact h.ne_here rfl
    · exact h.ne_up rfl

namespace Leads

/-- A way leads to one place only, through the same links. -/
theorem unique {m n : Nat} {p q : Location} (h : d.Leads m here way p) (h' : d.Leads n here way q) :
    m = n ∧ p = q := by
  induction h generalizing n q with
  | done =>
    cases h' with
    | done => exact ⟨rfl, rfl⟩
  | stay hpart _ ih =>
    cases h' with
    | stay _ h' => exact ih h'
    | up => simp at hpart
    | down hstep => exact absurd hstep (not_isStep_iff.mpr (.inl hpart))
    | follow hstep => exact absurd hstep (not_isStep_iff.mpr (.inl hpart))
  | up _ ih =>
    cases h' with
    | stay hpart => simp at hpart
    | up h' => exact ih h'
    | down hstep => exact absurd rfl hstep.ne_up
    | follow hstep => exact absurd rfl hstep.ne_up
  | down hstep hplain _ ih =>
    cases h' with
    | stay hpart => exact absurd hstep (not_isStep_iff.mpr (.inl hpart))
    | up => exact absurd rfl hstep.ne_up
    | down _ _ h' => exact ih h'
    | follow _ hlink =>
      rw [hplain] at hlink
      cases hlink
  | follow hstep hlink _ _ ih ih' =>
    cases h' with
    | stay hpart => exact absurd hstep (not_isStep_iff.mpr (.inl hpart))
    | up => exact absurd rfl hstep.ne_up
    | down _ hplain =>
      rw [hplain] at hlink
      cases hlink
    | follow _ hlink' htarget' h' =>
      obtain rfl := Option.some.inj (hlink.symm.trans hlink')
      obtain ⟨rfl, rfl⟩ := ih htarget'
      obtain ⟨rfl, rfl⟩ := ih' h'
      exact ⟨rfl, rfl⟩

/-- A way that goes on leads to a place in between. -/
theorem exists_between {n : Nat} {first second : List String} (h : d.Leads n here (first ++ second) loc) :
    ∃ m k mid, d.Leads m here first mid ∧ d.Leads k mid second loc ∧ n = m + k := by
  induction first generalizing n here with
  | nil => exact ⟨0, n, here, .done here, h, (Nat.zero_add n).symm⟩
  | cons part first ih =>
    cases h with
    | stay hpart h =>
      obtain ⟨m, k, mid, hfirst, hsecond, hn⟩ := ih h
      exact ⟨m, k, mid, .stay hpart hfirst, hsecond, hn⟩
    | up h =>
      obtain ⟨m, k, mid, hfirst, hsecond, hn⟩ := ih h
      exact ⟨m, k, mid, .up hfirst, hsecond, hn⟩
    | down hstep hplain h =>
      obtain ⟨m, k, mid, hfirst, hsecond, hn⟩ := ih h
      exact ⟨m, k, mid, .down hstep hplain hfirst, hsecond, hn⟩
    | follow hstep hlink htarget h =>
      obtain ⟨m, k, mid, hfirst, hsecond, rfl⟩ := ih h
      exact ⟨_, k, mid, .follow hstep hlink htarget hfirst, hsecond, (Nat.add_assoc _ _ _).symm⟩

/-- Parts that stand for the place itself can be left out. -/
theorem of_filter {n : Nat} (h : d.Leads n here (way.filter fun x => x != "" && x != ".") loc) :
    d.Leads n here way loc := by
  induction way generalizing n here with
  | nil => exact h
  | cons part rest ih =>
    by_cases hpart : part = "" ∨ part = "."
    · rw [List.filter_cons_of_neg (by simpa [or_iff_not_imp_left] using hpart)] at h
      exact .stay hpart (ih h)
    · rw [List.filter_cons_of_pos (by simpa [not_or] using hpart)] at h
      cases h with
      | stay hskip => exact absurd hskip hpart
      | up h => exact .up (ih h)
      | down hstep hplain h => exact .down hstep hplain (ih h)
      | follow hstep hlink htarget h => exact .follow hstep hlink htarget (ih h)

/-- How many links have to be followed for one link. -/
def Costs (d : Disk) (link : Location) (n : Nat) : Prop :=
  ∃ here part loc, link = here ++ [part] ∧ d.Leads n here [part] loc

theorem Costs.unique {m n : Nat} (h : Costs d link m) (h' : Costs d link n) : m = n := by
  obtain ⟨here, part, p, rfl, h⟩ := h
  obtain ⟨here', part', q, heq, h'⟩ := h'
  obtain ⟨rfl, hpart⟩ := List.append_inj' heq rfl
  obtain rfl := List.singleton_inj.mp hpart
  exact (h.unique h').1

/-- Where a way leads is found. A link that is being followed costs more than what is left of the way to where
it leads, so it is not met again. -/
theorem resolveFrom_eq {n : Nat} (h : d.Leads n here way loc) (hdepth : n ≤ depth)
    (hwithin : ∀ link ∈ within, ∃ m, Costs d link m ∧ n < m) :
    d.resolveFrom depth within here way = .reached loc := by
  have hunfold (depth within) : ∃ jump, d.resolveFrom depth within = d.resolveWith jump := by
    cases depth <;> exact ⟨_, rfl⟩
  induction h generalizing depth within with
  | done here =>
    obtain ⟨jump, hjump⟩ := hunfold depth within
    rw [hjump, resolveWith]
  | @stay _ here _ part rest hpart _ ih =>
    obtain ⟨jump, hjump⟩ := hunfold depth within
    rw [hjump, resolveWith, if_pos (by simpa using hpart), ← hjump]
    exact ih hdepth hwithin
  | up _ ih =>
    obtain ⟨jump, hjump⟩ := hunfold depth within
    rw [hjump, resolveWith, if_neg (by decide), if_pos (by decide), ← hjump]
    exact ih hdepth hwithin
  | @down _ here _ part rest hstep hplain _ ih =>
    obtain ⟨jump, hjump⟩ := hunfold depth within
    rw [hjump, resolveWith, if_neg (by simp [hstep.ne_empty, hstep.ne_here]), if_neg (by simpa using hstep.ne_up)]
    split
    case h_1 target hlink =>
      rw [linkAt?_eq_some_iff.mpr hlink] at hplain
      cases hplain
    case h_2 =>
      rw [← hjump]
      exact ih hdepth hwithin
  | @follow m n here mid loc part target rest hstep hlink htarget _ ih ih' =>
    have hcosts : Costs d (here ++ [part]) (m + 1) :=
      ⟨here, part, mid, rfl, .follow hstep hlink htarget (.done mid)⟩
    obtain ⟨depth, rfl⟩ : ∃ k, depth = k + 1 := ⟨depth - 1, by omega⟩
    have hnew : ¬ within.contains (here ++ [part]) = true := by
      intro hmem
      obtain ⟨cost, hcost, hless⟩ := hwithin _ (by simpa using hmem)
      have hsame := hcosts.unique hcost
      omega
    have hjump : d.resolveFrom depth ((here ++ [part]) :: within) (Disk.origin target here) (parts target) =
        .reached mid := by
      refine ih (by omega) (List.forall_mem_cons.mpr ⟨⟨m + 1, hcosts, Nat.lt_succ_self m⟩, fun l hl => ?_⟩)
      obtain ⟨cost, hcost, hless⟩ := hwithin l hl
      exact ⟨cost, hcost, by omega⟩
    have hrest : d.resolveFrom (depth + 1) within mid rest = .reached loc := by
      refine ih' (by omega) fun l hl => ?_
      obtain ⟨cost, hcost, hless⟩ := hwithin l hl
      exact ⟨cost, hcost, by omega⟩
    rw [resolveFrom] at hrest ⊢
    rw [resolveWith, if_neg (by simp [hstep.ne_empty, hstep.ne_here]), if_neg (by simpa using hstep.ne_up),
      linkAt?_eq_some_iff.mp hlink]
    dsimp only
    rw [if_neg hnew, hjump]
    exact hrest

theorem resolution_eq {n : Nat} (h : d.Leads n here way loc) : d.resolution here way = .reached loc := by
  rw [resolution_eq_resolveFrom (Nat.le_add_right d.entries.length n)]
  exact h.resolveFrom_eq (Nat.le_add_left n d.entries.length) (by simp)

end Leads

theorem exists_leads_of_walkWith? {jump : Location → List String → Option Location}
    (hjump : ∀ here way loc, (∀ part ∈ way, part ≠ "" ∧ part ≠ ".") → jump here way = some loc →
      ∃ n, d.Leads n here way loc)
    (hway : ∀ part ∈ way, part ≠ "" ∧ part ≠ ".") (h : d.walkWith? true jump here way = some loc) :
    ∃ n, d.Leads n here way loc := by
  fun_induction walkWith? d true jump here way with
  | case1 here =>
    obtain rfl := Option.some.inj h
    exact ⟨0, .done here⟩
  | case2 => cases h
  | case3 here name rest hthere hup ih =>
    obtain ⟨n, hn⟩ := ih (List.forall_mem_cons.mp hway).2 h
    obtain rfl : name = ".." := by simpa using hup
    exact ⟨n, .up hn⟩
  | case4 here name rest _ _ _ _ hlast => simp at hlast
  | case5 here name rest _ hup target hlink =>
    obtain ⟨⟨hempty, hhere⟩, hrest⟩ := List.forall_mem_cons.mp hway
    have hsteps : ∀ part ∈ steps target ++ rest, part ≠ "" ∧ part ≠ "." := by
      intro part hpart
      obtain hpart | hpart := List.mem_append.mp hpart
      · simpa using (List.mem_filter.mp hpart).2
      · exact hrest part hpart
    obtain ⟨n, hn⟩ := hjump _ _ _ hsteps h
    obtain ⟨m, k, mid, htarget, hgo, rfl⟩ := hn.exists_between
    exact ⟨_, .follow ⟨hempty, hhere, by simpa using hup⟩ (linkAt?_eq_some_iff.mpr hlink)
      (Leads.of_filter htarget) hgo⟩
  | case6 here name rest _ hup hplain ih =>
    obtain ⟨⟨hempty, hhere⟩, hrest⟩ := List.forall_mem_cons.mp hway
    obtain ⟨n, hn⟩ := ih hrest h
    refine ⟨n, .down ⟨hempty, hhere, by simpa using hup⟩ ?_ hn⟩
    rw [linkAt?]
    split
    case h_1 target hlink => exact (hplain target hlink).elim
    case h_2 => rfl

theorem exists_leads_of_walk? {hops : Nat} (hway : ∀ part ∈ way, part ≠ "" ∧ part ≠ ".")
    (h : d.walk? true hops here way = some loc) : ∃ n, d.Leads n here way loc := by
  induction hops generalizing here way loc with
  | zero =>
    refine exists_leads_of_walkWith? (fun here way loc _ hnone => ?_) hway h
    cases hnone
  | succ hops ih => exact exists_leads_of_walkWith? (fun _ _ _ hway hgo => ih hway hgo) hway h

/-- Where the system finds something, resolving finds it too. -/
theorem resolution_of_place? {p : String} (h : d.place? p = some loc) :
    d.resolution (origin p d.current) (steps p) = .reached loc := by
  obtain ⟨n, hn⟩ := exists_leads_of_walk? (fun part hpart => by simpa using (List.mem_filter.mp hpart).2) h
  exact hn.resolution_eq

end SourceChange.Disk
