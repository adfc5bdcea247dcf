import SourceChange.Proofs.Disk.Writing

/-!
The way of a path to a file.

A path leads through a directory to a name in it. The steps before the last one lead to the directory, also where
the path is put together again, and a name beside the last one is found in the same directory. What a way leads to
stays the same as long as the links stay and no directory goes; a link may even be replaced if the way does not
go through it.
-/

namespace SourceChange

namespace Path

/-- A part of a path that leads somewhere. -/
structure IsPart (part : String) : Prop where
  noSlash : '/' ∉ part.toList
  ne_empty : part ≠ ""
  ne_here : part ≠ "."

theorem isPart_of_mem_steps {p part : String} (hpart : part ∈ steps p) : IsPart part := by
  by_cases hup : part = ".."
  · rw [hup]
    exact ⟨by decide, by decide, by decide⟩
  · obtain ⟨hslash, hempty, hhere, -⟩ := isName_of_mem_steps hpart hup
    exact ⟨hslash, hempty, hhere⟩

/-- What is put after a name to make another name. -/
structure IsSuffix (s : String) : Prop where
  noSlash : '/' ∉ s.toList
  long : 2 < s.length

theorem isSuffix_temporary : IsSuffix ".tmp" := ⟨by decide, by decide⟩

theorem isSuffix_backup : IsSuffix ".bak" := ⟨by decide, by decide⟩

theorem IsPart.append {part s : String} (h : IsPart part) (hs : IsSuffix s) : IsName (part ++ s) :=
  isName_append h.noSlash hs.noSlash hs.long

theorem IsName.isPart {n : String} (h : IsName n) : IsPart n := ⟨h.noSlash, h.ne_empty, h.ne_here⟩

/-- The slashes that a path in order can start with. -/
def IsRoot (r : String) : Prop := r = "" ∨ r = "/" ∨ r = "//"

theorem isRoot_root (p : String) : IsRoot (root p) := by
  rw [root]
  split
  · exact .inr (.inl rfl)
  · split
    · exact .inr (.inr rfl)
    · split
      · exact .inr (.inl rfl)
      · exact .inl rfl

/-- A path in order, of its slashes at the start and its steps. -/
def build (r : String) (way : List String) : String := r ++ ofParts way

section Build

variable {r part : String} {way : List String} (hr : IsRoot r) (hway : ∀ part ∈ way, IsPart part)

theorem toList_ofParts (hne : way ≠ []) : '/' :: (ofParts way).toList = way.flatMap fun n => '/' :: n.toList := by
  rw [← Disk.toList_pathOf hne, Disk.pathOf, String.toList_append]
  rfl

theorem ofParts_concat (hne : way ≠ []) (part : String) :
    ofParts (way ++ [part]) = ofParts way ++ "/" ++ part := by
  have hchars := toList_ofParts (List.append_ne_nil_of_right_ne_nil way (List.cons_ne_nil part []))
  rw [List.flatMap_append, ← toList_ofParts hne] at hchars
  rw [← String.toList_inj]
  simpa using hchars

theorem ofParts_singleton (part : String) : ofParts [part] = part := by
  rw [← String.toList_inj]
  simpa using toList_ofParts (List.cons_ne_nil part [])

/-- What is put after a path in order is put after its last part. -/
theorem build_append (r : String) (way : List String) (part s : String) :
    build r (way ++ [part]) ++ s = build r (way ++ [part ++ s]) := by
  cases way with
  | nil => simp [build, ofParts_singleton, String.append_assoc]
  | cons first rest => simp only [build, ofParts_concat (List.cons_ne_nil first rest), String.append_assoc]

include hway

theorem exists_head_ofParts (hne : way ≠ []) : ∃ c cs, (ofParts way).toList = c :: cs ∧ c ≠ '/' := by
  cases way with
  | nil => exact absurd rfl hne
  | cons first rest =>
    have hfirst := hway first List.mem_cons_self
    cases hcs : first.toList with
    | nil => exact absurd (String.toList_eq_nil_iff.mp hcs) hfirst.ne_empty
    | cons c cs =>
      have hchars := toList_ofParts hne
      rw [List.flatMap_cons, List.cons_append, hcs] at hchars
      refine ⟨c, cs ++ rest.flatMap fun n => '/' :: n.toList, (List.cons.inj hchars).2, ?_⟩
      rintro rfl
      exact hfirst.noSlash (hcs ▸ List.mem_cons_self)

theorem exists_last_ofParts (hne : way ≠ []) : ∃ cs c, (ofParts way).toList = cs ++ [c] ∧ c ≠ '/' := by
  obtain rfl | ⟨front, last, rfl⟩ := List.eq_nil_or_concat' way
  · exact absurd rfl hne
  · have hlast := hway last (by simp)
    obtain hcs | ⟨cs, c, hcs⟩ := List.eq_nil_or_concat' last.toList
    · exact absurd (String.toList_eq_nil_iff.mp hcs) hlast.ne_empty
    · have hc : c ≠ '/' := by
        rintro rfl
        exact hlast.noSlash (by simp [hcs])
      by_cases hfront : front = []
      · refine ⟨cs, c, ?_, hc⟩
        rw [hfront, List.nil_append, ofParts_singleton, hcs]
      · refine ⟨(ofParts front ++ "/").toList ++ cs, c, ?_, hc⟩
        rw [ofParts_concat hfront, String.toList_append, hcs, List.append_assoc]

theorem splitOnChar_ofParts (hne : way ≠ []) :
    Text.splitOnChar '/' (ofParts way).toList = way.map String.toList := by
  have hslash : ∀ w ∈ way.map String.toList, '/' ∉ w := by
    intro w hw
    obtain ⟨part, hpart, rfl⟩ := List.mem_map.mp hw
    exact (hway part hpart).noSlash
  have hsplit := splitOnChar_flatMap hslash
  rw [List.flatMap_map, ← toList_ofParts hne, splitOnChar_sep] at hsplit
  exact (List.cons.inj hsplit).2

include hr

/-- The steps of a path in order are those that it is made of. -/
theorem steps_build : steps (build r way) = way := by
  by_cases hne : way = []
  · obtain rfl | rfl | rfl := hr <;> rw [hne] <;> decide
  · have hkept : way.filter (fun part => part != "" && part != ".") = way := by
      refine List.filter_eq_self.mpr fun part hpart => ?_
      simp [(hway part hpart).ne_empty, (hway part hpart).ne_here]
    have hparts : steps (ofParts way) = way := by
      rw [steps, parts, splitOnChar_ofParts hway hne, List.map_map]
      simpa [Function.comp_def] using hkept
    have hslash (p : String) : steps ("/" ++ p) = steps p := by
      rw [steps, parts, String.toList_append]
      change List.filter _ ((Text.splitOnChar '/' ('/' :: p.toList)).map String.ofList) = _
      rw [splitOnChar_sep]
      simp [steps, parts]
    obtain rfl | rfl | rfl := hr
    · simpa [build] using hparts
    · rw [build, hslash, hparts]
    · rw [build, show ("//" : String) = "/" ++ "/" from rfl, String.append_assoc, hslash, hslash, hparts]

theorem isAbsolute_build : isAbsolute (build r way) = (r != "") := by
  obtain rfl | rfl | rfl := hr
  · by_cases hne : way = []
    · rw [hne]
      decide
    · obtain ⟨c, cs, hcs, hc⟩ := exists_head_ofParts hway hne
      simp [isAbsolute, Text.hasStart, build, hcs, List.isPrefixOf, hc.symm]
  · simp [isAbsolute, Text.hasStart, build]
  · simp [isAbsolute, Text.hasStart, build, List.isPrefixOf]

theorem root_build : root (build r way) = r := by
  by_cases hne : way = []
  · obtain rfl | rfl | rfl := hr <;> rw [hne] <;> decide
  · obtain ⟨c, cs, hcs, hc⟩ := exists_head_ofParts hway hne
    obtain rfl | rfl | rfl := hr <;>
      simp [root, Text.hasStart, build, hcs, List.isPrefixOf, hc.symm]

/-- Going on by one part. -/
theorem join_build (hpart : IsPart part) : join (build r way) part = build r (way ++ [part]) := by
  have hrelative : isAbsolute part = false := by
    have hsingle : ∀ q ∈ [part], IsPart q := by simpa using hpart
    simpa [build, ofParts_singleton] using isAbsolute_build (.inl rfl : IsRoot "") hsingle
  rw [join, hrelative, if_neg (by simp)]
  by_cases hne : way = []
  · obtain rfl | rfl | rfl := hr
    all_goals
      rw [hne, if_pos (by decide), build, build, List.nil_append, ofParts_singleton]
      rfl
  · obtain ⟨cs, c, hcs, hc⟩ := exists_last_ofParts hway hne
    have hend : Text.hasEnd (build r way) "/" = false := by
      simp [build, Text.hasEnd, Text.endsWith, hcs, List.isPrefixOf, hc.symm]
    have hsome : build r way ≠ "" := by
      intro hempty
      have hchars := congrArg String.toList hempty
      rw [build, String.toList_append, hcs] at hchars
      simp at hchars
    rw [hend, if_neg (by simpa using hsome), build, build, ofParts_concat hne]
    simp only [String.append_assoc]

/-- The directory of a path in order lacks the last part. -/
theorem directory_build (hpart : IsPart part) : directory (build r (way ++ [part])) = build r way := by
  have hstop : ∀ c ∈ part.toList.reverse, (c != '/') = true := by
    intro c hc
    rw [bne_iff_ne]
    rintro rfl
    exact hpart.noSlash (List.mem_reverse.mp hc)
  by_cases hne : way = []
  · obtain rfl | rfl | rfl := hr
    all_goals
      rw [hne, List.nil_append, directory, split]
      simp only [build, ofParts_singleton, String.toList_append, List.reverse_append,
        List.dropWhile_append_of_pos hstop]
      decide
  · obtain ⟨cs, c, hcs, hc⟩ := exists_last_ofParts hway hne
    have hhead : (split (build r (way ++ [part]))).1 = (r.toList ++ (cs ++ [c])) ++ ['/'] := by
      rw [split]
      dsimp only
      rw [build, ofParts_concat hne]
      simp only [String.toList_append, List.reverse_append, List.append_assoc,
        List.dropWhile_append_of_pos hstop, hcs]
      simp
    have hother : ((r.toList ++ (cs ++ [c])) ++ ['/']).all (· == '/') = false :=
      List.all_eq_false.mpr ⟨c, by simp, by simpa using hc⟩
    rw [directory, hhead, hother, ← String.toList_inj, build, String.toList_append, hcs]
    simp [Text.dropEndWhile, hc]

end Build

section Named

variable {p : String} (hp : steps p ≠ [])

theorem isPart_of_mem_dropLast (p : String) : ∀ part ∈ (steps p).dropLast, IsPart part :=
  fun _ hpart => isPart_of_mem_steps (List.mem_of_mem_dropLast hpart)

include hp

theorem steps_eq_concat : (steps p).dropLast ++ [lastName p] = steps p := by
  rw [lastName, List.getLast?_eq_some_getLast hp, Option.getD_some, List.dropLast_append_getLast hp]

theorem isPart_lastName : IsPart (lastName p) :=
  isPart_of_mem_steps (steps_eq_concat hp ▸ List.mem_append_right _ (List.mem_singleton_self _))

theorem tidy_eq_build : tidy p = build (root p) ((steps p).dropLast ++ [lastName p]) := by
  have hsome : root p ++ ofParts (steps p) ≠ "" := by
    intro hempty
    obtain ⟨c, cs, hcs, -⟩ := exists_head_ofParts (fun _ => isPart_of_mem_steps) hp
    have hchars := congrArg String.toList hempty
    rw [String.toList_append, hcs] at hchars
    simp at hchars
  rw [tidy, if_neg (by simpa using hsome), steps_eq_concat hp, build]

theorem tidy_append (s : String) : tidy p ++ s = build (root p) ((steps p).dropLast ++ [lastName p ++ s]) := by
  rw [tidy_eq_build hp, build_append]

theorem directory_tidy : directory (tidy p) = build (root p) (steps p).dropLast := by
  rw [tidy_eq_build hp, directory_build (isRoot_root p) (isPart_of_mem_dropLast p) (isPart_lastName hp)]

end Named

theorem isAbsolute_eq (p : String) : isAbsolute p = (root p != "") := by
  have hslash {start : String} (hstart : ['/'] <+: start.toList) (h : Text.hasStart p start = true) :
      isAbsolute p = true := by
    rw [Text.hasStart, List.isPrefixOf_iff_prefix] at h
    rw [isAbsolute, Text.hasStart, List.isPrefixOf_iff_prefix]
    exact hstart.trans h
  rw [root]
  split
  case isTrue h => rw [hslash ⟨['/', '/'], rfl⟩ h, bne_iff_ne.mpr (by decide)]
  case isFalse =>
    split
    case isTrue h => rw [hslash ⟨['/'], rfl⟩ h, bne_iff_ne.mpr (by decide)]
    case isFalse =>
      split
      case isTrue h => rw [isAbsolute, h, bne_iff_ne.mpr (by decide)]
      case isFalse h =>
        rw [Bool.not_eq_true] at h
        rw [isAbsolute, h]
        rfl

end Path

namespace Disk

open SourceChange.Path

variable {d d' : Disk} {follow : Bool} {here loc dir own : Location} {name : String} {rest way : List String}
  {hops : Nat} {jump jump' : Location → List String → Option Location}

/-- The start of a path that is put together with the slashes of another one. -/
theorem origin_build {p : String} (hway : ∀ part ∈ way, IsPart part) (here : Location) :
    origin (build (root p) way) here = origin p here := by
  rw [origin, origin, isAbsolute_build (isRoot_root p) hway, isAbsolute_eq]

/-- One step of a way. -/
theorem walkWith?_cons_eq_some_iff :
    d.walkWith? follow jump here (name :: rest) = some loc ↔
      d.entry? here = some .directory ∧
        (name = ".." ∧ d.walkWith? follow jump here.dropLast rest = some loc ∨
          name ≠ ".." ∧ d.linkAt? (here ++ [name]) = none ∧
            d.walkWith? follow jump (here ++ [name]) rest = some loc ∨
          name ≠ ".." ∧ ∃ target, d.linkAt? (here ++ [name]) = some target ∧
            (rest = [] ∧ follow = false ∧ here ++ [name] = loc ∨
              ¬ (rest = [] ∧ follow = false) ∧ jump (origin target here) (steps target ++ rest) = some loc)) := by
  rw [walkWith?, ← hasDirectory_iff]
  cases d.hasDirectory here with
  | false => simp
  | true =>
    by_cases hup : name = ".."
    · simp [hup]
    · simp only [Bool.not_true, Bool.false_eq_true, if_false, beq_iff_eq, hup, false_and, false_or, true_and,
        ne_eq, not_false_eq_true]
      split
      case h_1 target hlink =>
        have htarget := linkAt?_eq_some_iff.mpr hlink
        by_cases hlast : rest = [] ∧ follow = false
        · simp [htarget, hlast]
        · have hgo : ¬ (rest.isEmpty && !follow) = true := by simpa using hlast
          rw [if_neg hgo, htarget]
          constructor
          · exact fun h => .inr ⟨target, rfl, .inr ⟨hlast, h⟩⟩
          · rintro (⟨hnone, -⟩ | ⟨t, ht, ⟨hrest, hfollow, -⟩ | ⟨-, h⟩⟩)
            · cases hnone
            · exact absurd ⟨hrest, hfollow⟩ hlast
            · exact Option.some.inj ht ▸ h
      case h_2 hplain =>
        have hnone : d.linkAt? (here ++ [name]) = none := by
          rw [linkAt?]
          split
          case h_1 target hlink => exact (hplain target hlink).elim
          case h_2 => rfl
        simp [hnone]

/-- A way leads on as long as the links stay and no directory goes. -/
theorem walkWith?_of_kept (hlinks : ∀ l, d'.linkAt? l = d.linkAt? l)
    (hdirectories : ∀ l, d.entry? l = some .directory → d'.entry? l = some .directory)
    (hjump : ∀ here way loc, jump here way = some loc → jump' here way = some loc)
    (h : d.walkWith? follow jump here way = some loc) : d'.walkWith? follow jump' here way = some loc := by
  induction way generalizing here with
  | nil => exact h
  | cons name rest ih =>
    obtain ⟨hhere, hstep⟩ := walkWith?_cons_eq_some_iff.mp h
    refine walkWith?_cons_eq_some_iff.mpr ⟨hdirectories here hhere, ?_⟩
    rw [hlinks]
    obtain ⟨hup, hgo⟩ | ⟨hup, hplain, hgo⟩ | ⟨hup, target, hlink, hlast | ⟨hnext, hgo⟩⟩ := hstep
    · exact .inl ⟨hup, ih hgo⟩
    · exact .inr (.inl ⟨hup, hplain, ih hgo⟩)
    · exact .inr (.inr ⟨hup, target, hlink, .inl hlast⟩)
    · exact .inr (.inr ⟨hup, target, hlink, .inr ⟨hnext, hjump _ _ _ hgo⟩⟩)

theorem walk?_of_kept (hlinks : ∀ l, d'.linkAt? l = d.linkAt? l)
    (hdirectories : ∀ l, d.entry? l = some .directory → d'.entry? l = some .directory)
    (h : d.walk? follow hops here way = some loc) : d'.walk? follow hops here way = some loc := by
  induction hops generalizing here way loc with
  | zero => exact walkWith?_of_kept hlinks hdirectories (fun _ _ _ hnone => hnone) h
  | succ hops ih => exact walkWith?_of_kept hlinks hdirectories (fun _ _ _ hgo => ih hgo) h

/-- Where only files have changed, a path leads to the same place. -/
theorem Rewrites.place?_eq {touched : Location → Prop} (h : Rewrites d d' touched) (p : String) :
    d'.place? p = d.place? p := by
  rw [place?, place?, h.current]
  exact Option.ext fun loc =>
    ⟨walk?_of_kept (fun l => (h.links l).symm) h.noneMade, walk?_of_kept h.links h.directories⟩

/-- Following more links does no harm. -/
theorem walk?_succ (h : d.walk? follow hops here way = some loc) : d.walk? follow (hops + 1) here way = some loc := by
  induction hops generalizing here way loc with
  | zero =>
    refine walkWith?_of_kept (fun _ => rfl) (fun _ hl => hl) (fun _ _ _ hnone => ?_) h
    cases hnone
  | succ hops ih => exact walkWith?_of_kept (fun _ => rfl) (fun _ hl => hl) (fun _ _ _ hgo => ih hgo) h

theorem walk?_of_le {fewer : Nat} (hle : fewer ≤ hops) (h : d.walk? follow fewer here way = some loc) :
    d.walk? follow hops here way = some loc := by
  induction hops, hle using Nat.le_induction with
  | base => exact h
  | succ hops _ ih => exact walk?_succ ih

/-- Where no link stands at the end, it does not matter whether it would be followed. -/
theorem walk?_followed (h : d.walk? false hops here way = some loc) (hplain : d.linkAt? loc = none) :
    d.walk? true hops here way = some loc := by
  have hwith : ∀ jump jump' : Location → List String → Option Location,
      (∀ here way, jump here way = some loc → jump' here way = some loc) → ∀ way here,
      d.walkWith? false jump here way = some loc → d.walkWith? true jump' here way = some loc := by
    intro jump jump' hjump way
    induction way with
    | nil => exact fun here h => h
    | cons name rest ih =>
      intro here h
      obtain ⟨hhere, hstep⟩ := walkWith?_cons_eq_some_iff.mp h
      refine walkWith?_cons_eq_some_iff.mpr ⟨hhere, ?_⟩
      obtain ⟨hup, hgo⟩ | ⟨hup, hnone, hgo⟩ | ⟨hup, target, hlink, ⟨-, -, rfl⟩ | ⟨-, hgo⟩⟩ := hstep
      · exact .inl ⟨hup, ih _ hgo⟩
      · exact .inr (.inl ⟨hup, hnone, ih _ hgo⟩)
      · rw [hplain] at hlink
        cases hlink
      · exact .inr (.inr ⟨hup, target, hlink, .inr ⟨by simp, hjump _ _ hgo⟩⟩)
  induction hops generalizing here way with
  | zero => exact hwith _ _ (fun _ _ hnone => hnone) way here h
  | succ hops ih => exact hwith _ _ (fun _ _ hgo => ih hgo) way here h

/-- The place that a name leads to from a directory, as long as no link is followed. -/
def below (dir : Location) (name : String) : Location := if name = ".." then dir.dropLast else dir ++ [name]

/-- One step more from a directory. -/
theorem walk?_concat (h : d.walk? true hops here way = some dir) (hdir : d.entry? dir = some .directory)
    (name : String) : d.walk? false hops here (way ++ [name]) = some (below dir name) := by
  have hlast : ∀ jump : Location → List String → Option Location,
      d.walkWith? false jump dir [name] = some (below dir name) := by
    intro jump
    refine walkWith?_cons_eq_some_iff.mpr ⟨hdir, ?_⟩
    by_cases hup : name = ".."
    · exact .inl ⟨hup, by rw [below, if_pos hup, walkWith?]⟩
    · rw [below, if_neg hup]
      cases hlink : d.linkAt? (dir ++ [name]) with
      | none => exact .inr (.inl ⟨hup, rfl, by rw [walkWith?]⟩)
      | some target => exact .inr (.inr ⟨hup, target, rfl, .inl ⟨rfl, rfl, rfl⟩⟩)
  have hwith : ∀ jump jump' : Location → List String → Option Location,
      (∀ here way, jump here way = some dir → jump' here (way ++ [name]) = some (below dir name)) → ∀ way here,
      d.walkWith? true jump here way = some dir →
      d.walkWith? false jump' here (way ++ [name]) = some (below dir name) := by
    intro jump jump' hjump way
    induction way with
    | nil =>
      intro here h
      obtain rfl : here = dir := Option.some.inj (by rwa [walkWith?] at h)
      exact hlast jump'
    | cons part rest ih =>
      intro here h
      obtain ⟨hhere, hstep⟩ := walkWith?_cons_eq_some_iff.mp h
      refine walkWith?_cons_eq_some_iff.mpr ⟨hhere, ?_⟩
      obtain ⟨hup, hgo⟩ | ⟨hup, hnone, hgo⟩ | ⟨hup, target, hlink, ⟨-, hnever, -⟩ | ⟨-, hgo⟩⟩ := hstep
      · exact .inl ⟨hup, ih _ hgo⟩
      · exact .inr (.inl ⟨hup, hnone, ih _ hgo⟩)
      · cases hnever
      · refine .inr (.inr ⟨hup, target, hlink, .inr ⟨by simp, ?_⟩⟩)
        have hmore := hjump _ _ hgo
        rwa [List.append_assoc] at hmore
  induction hops generalizing here way with
  | zero => exact hwith _ _ (fun _ _ hnone => by cases hnone) way here h
  | succ hops ih => exact hwith _ _ (fun _ _ hgo => ih hgo) way here h

/-- The walk that goes on behind a link. -/
theorem exists_walkWith? (d : Disk) (follow : Bool) (hops : Nat) :
    ∃ jump, d.walk? follow hops = d.walkWith? follow jump ∧
      ∀ here way loc, jump here way = some loc → ∃ left, d.walk? follow left here way = some loc := by
  cases hops with
  | zero => exact ⟨_, rfl, fun _ _ _ hnone => by cases hnone⟩
  | succ left => exact ⟨_, rfl, fun _ _ _ hgo => ⟨left, hgo⟩⟩

/-- A way that goes on leads to a place in between. -/
theorem exists_walk?_between {first second : List String}
    (h : d.walk? true hops here (first ++ second) = some loc) :
    ∃ mid left, d.walk? true hops here first = some mid ∧ d.walk? true left mid second = some loc := by
  have hwith : ∀ jump : Location → List String → Option Location,
      (∀ here, d.walkWith? true jump here second = some loc →
        ∃ left, d.walk? true left here second = some loc) →
      (∀ here way, jump here (way ++ second) = some loc →
        ∃ mid left, jump here way = some mid ∧ d.walk? true left mid second = some loc) → ∀ first here,
      d.walkWith? true jump here (first ++ second) = some loc →
      ∃ mid left, d.walkWith? true jump here first = some mid ∧ d.walk? true left mid second = some loc := by
    intro jump hend hjump first
    induction first with
    | nil =>
      intro here h
      obtain ⟨left, hleft⟩ := hend here h
      exact ⟨here, left, by rw [walkWith?], hleft⟩
    | cons part rest ih =>
      intro here h
      obtain ⟨hhere, hstep⟩ := walkWith?_cons_eq_some_iff.mp h
      obtain ⟨hup, hgo⟩ | ⟨hup, hnone, hgo⟩ | ⟨hup, target, hlink, ⟨-, hnever, -⟩ | ⟨-, hgo⟩⟩ := hstep
      · obtain ⟨mid, left, hfirst, hleft⟩ := ih _ hgo
        exact ⟨mid, left, walkWith?_cons_eq_some_iff.mpr ⟨hhere, .inl ⟨hup, hfirst⟩⟩, hleft⟩
      · obtain ⟨mid, left, hfirst, hleft⟩ := ih _ hgo
        exact ⟨mid, left, walkWith?_cons_eq_some_iff.mpr ⟨hhere, .inr (.inl ⟨hup, hnone, hfirst⟩)⟩, hleft⟩
      · cases hnever
      · have hsplit : steps target ++ (rest.append second) = (steps target ++ rest) ++ second :=
          (List.append_assoc ..).symm
        rw [hsplit] at hgo
        obtain ⟨mid, left, hfirst, hleft⟩ := hjump _ _ hgo
        exact ⟨mid, left, walkWith?_cons_eq_some_iff.mpr
          ⟨hhere, .inr (.inr ⟨hup, target, hlink, .inr ⟨by simp, hfirst⟩⟩)⟩, hleft⟩
  induction hops generalizing here first with
  | zero => exact hwith _ (fun _ hleft => ⟨0, hleft⟩) (fun _ _ hnone => by cases hnone) first here h
  | succ hops ih =>
    exact hwith (d.walk? true hops) (fun _ hleft => ⟨hops + 1, hleft⟩) (fun _ _ hgo => ih hgo) first here h

/-- Every place that a way leads on from is a directory. -/
theorem entry?_of_walk? (hrest : rest ≠ []) (h : d.walk? follow hops here rest = some loc) :
    d.entry? here = some .directory := by
  obtain ⟨name, rest, rfl⟩ := List.exists_cons_of_ne_nil hrest
  obtain ⟨jump, hjump, -⟩ := exists_walkWith? d follow hops
  rw [hjump] at h
  exact (walkWith?_cons_eq_some_iff.mp h).1

/-- One step more from a directory to a link is to follow the link. -/
theorem exists_walk?_target {target : String} (h : d.walk? true hops here way = some dir) (hname : name ≠ "..")
    (hlink : d.linkAt? (dir ++ [name]) = some target) (hgo : d.walk? true hops here (way ++ [name]) = some loc) :
    ∃ left, d.walk? true left (origin target dir) (steps target) = some loc := by
  obtain ⟨mid, left, hmid, hleft⟩ := exists_walk?_between hgo
  obtain rfl := Option.some.inj (h.symm.trans hmid)
  obtain ⟨jump, hjump, hend⟩ := exists_walkWith? d true left
  rw [hjump] at hleft
  obtain ⟨-, ⟨hup, -⟩ | ⟨-, hnone, -⟩ | ⟨-, t, ht, ⟨-, hfalse, -⟩ | ⟨-, hgo⟩⟩⟩ :=
    walkWith?_cons_eq_some_iff.mp hleft
  · exact absurd hup hname
  · rw [hlink] at hnone
    cases hnone
  · cases hfalse
  · obtain rfl := Option.some.inj (hlink.symm.trans ht)
    rw [List.append_nil] at hgo
    exact hend _ _ _ hgo

/-- What does not lead to a directory is not passed on the way to one. -/
theorem walk?_append_ne {first : Location} {front : List String} {enough : Nat}
    (hleads : d.walk? true enough first front = some own) (hother : d.entry? own ≠ some .directory)
    (hloc : d.entry? loc = some .directory) (hops : Nat) (rest : List String) :
    d.walk? true hops first (front ++ rest) ≠ some loc := by
  intro hgo
  have hend : ∃ mid, d.walk? true hops first front = some mid ∧ d.entry? mid = some .directory := by
    by_cases hrest : rest = []
    · rw [hrest, List.append_nil] at hgo
      exact ⟨loc, hgo, hloc⟩
    · obtain ⟨mid, left, hmid, hleft⟩ := exists_walk?_between hgo
      exact ⟨mid, hmid, entry?_of_walk? hrest hleft⟩
  obtain ⟨mid, hmid, hdirectory⟩ := hend
  have hsame := (walk?_of_le (le_max_left hops enough) hmid).symm.trans
    (walk?_of_le (le_max_right hops enough) hleads)
  rw [Option.some.inj hsame] at hdirectory
  exact hother hdirectory

section Replaced

variable {target : String} (hlinks : ∀ l, l ≠ dir ++ [name] → d'.linkAt? l = d.linkAt? l)
  (hreplaced : d.linkAt? (dir ++ [name]) = some target)
  (hdirectories : ∀ l, d.entry? l = some .directory → d'.entry? l = some .directory)
include hlinks hreplaced hdirectories

theorem walkWith?_of_replaced {jump jump' : Location → List String → Option Location}
    (hjump : ∀ here way, jump here way = some loc → jump' here way = some loc)
    (hnever : ∀ rest, jump (origin target dir) (steps target ++ rest) ≠ some loc)
    (h : d.walkWith? true jump here way = some loc) : d'.walkWith? true jump' here way = some loc := by
  induction way generalizing here with
  | nil => exact h
  | cons part rest ih =>
    obtain ⟨hhere, hstep⟩ := walkWith?_cons_eq_some_iff.mp h
    refine walkWith?_cons_eq_some_iff.mpr ⟨hdirectories here hhere, ?_⟩
    by_cases hsame : here ++ [part] = dir ++ [name]
    · obtain ⟨rfl, hpart⟩ := List.append_inj' hsame rfl
      obtain rfl := List.singleton_inj.mp hpart
      obtain ⟨hup, hgo⟩ | ⟨-, hnone, -⟩ | ⟨-, t, hlink, ⟨-, hfalse, -⟩ | ⟨-, hgo⟩⟩ := hstep
      · exact .inl ⟨hup, ih hgo⟩
      · rw [hreplaced] at hnone
        cases hnone
      · cases hfalse
      · obtain rfl := Option.some.inj (hreplaced.symm.trans hlink)
        exact absurd hgo (hnever rest)
    · rw [hlinks _ hsame]
      obtain ⟨hup, hgo⟩ | ⟨hup, hnone, hgo⟩ | ⟨hup, t, hlink, ⟨-, hfalse, -⟩ | ⟨hgoes, hgo⟩⟩ := hstep
      · exact .inl ⟨hup, ih hgo⟩
      · exact .inr (.inl ⟨hup, hnone, ih hgo⟩)
      · cases hfalse
      · exact .inr (.inr ⟨hup, t, hlink, .inr ⟨hgoes, hjump _ _ hgo⟩⟩)

/-- A way to a directory does not go through a link that leads to something else. -/
theorem walk?_of_replaced {enough : Nat} (hleads : d.walk? true enough (origin target dir) (steps target) = some own)
    (hother : d.entry? own ≠ some .directory) (hloc : d.entry? loc = some .directory)
    (h : d.walk? true hops here way = some loc) : d'.walk? true hops here way = some loc := by
  induction hops generalizing here way with
  | zero =>
    exact walkWith?_of_replaced hlinks hreplaced hdirectories (fun _ _ hnone => hnone)
      (fun _ hnone => by cases hnone) h
  | succ hops ih =>
    exact walkWith?_of_replaced hlinks hreplaced hdirectories (fun _ _ hgo => ih hgo)
      (walk?_append_ne hleads hother hloc hops) h

end Replaced

end Disk

end SourceChange
