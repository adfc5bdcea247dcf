import SourceChange.Engine

/-!
The changes of a change set by path.

The groups stand in the order in which their paths first occur, and each holds the changes of its path in
the order in which they were submitted. They are collected one change at a time: the group of the path is
changed, or put at the end. Whatever is collected so stands in the order in which the keys first occur.
-/

namespace SourceChange

namespace ChangeSet

/-- The paths of a change set, in the order in which they first occur. -/
def paths (c : ChangeSet) : List String := (c.files.map (·.path)).eraseDups

/-- The changes of a path, in the order in which they were submitted. -/
def changesOf (c : ChangeSet) (path : String) : List FileChange := c.files.filter (·.path == path)

end ChangeSet

section Upsert

variable {α κ : Type} [BEq κ] [LawfulBEq κ] {key : α → κ} {k : κ} {f : α → α} {new : α} {keys : List κ}

theorem nodup_eraseDups (keys : List κ) : keys.eraseDups.Nodup := by
  induction hlength : keys.length using Nat.strongRecOn generalizing keys with
  | ind n ih =>
    cases keys with
    | nil => exact List.nodup_nil
    | cons k rest =>
      rw [List.eraseDups_cons, List.nodup_cons, List.mem_eraseDups]
      refine ⟨by simp, ih _ ?_ _ rfl⟩
      have hle := List.length_filter_le (fun q => !q == k) rest
      rw [List.length_cons] at hlength
      omega

theorem eraseDups_concat_of_mem (h : k ∈ keys) : (keys ++ [k]).eraseDups = keys.eraseDups := by
  have hnew : [k].removeAll keys = [] := by simpa [List.removeAll] using h
  rw [List.eraseDups_append, hnew, List.eraseDups_nil, List.append_nil]

theorem eraseDups_concat_of_not_mem (h : k ∉ keys) : (keys ++ [k]).eraseDups = keys.eraseDups ++ [k] := by
  have hnew : [k].removeAll keys = [k] := by simpa [List.removeAll] using h
  rw [List.eraseDups_append, hnew, List.eraseDups_cons, List.filter_nil, List.eraseDups_nil]

/-- Changes the first entry with a key; without one, a new entry goes to the end. -/
def upsert (key : α → κ) (k : κ) (f : α → α) (new : α) : List α → List α
  | [] => [new]
  | x :: xs => if key x == k then f x :: xs else x :: upsert key k f new xs

theorem upsert_of_not_mem {xs : List α} (h : k ∉ xs.map key) : upsert key k f new xs = xs ++ [new] := by
  induction xs with
  | nil => rfl
  | cons x xs ih =>
    rw [List.map_cons, List.mem_cons, not_or] at h
    rw [upsert, if_neg (by simpa using Ne.symm h.1), ih h.2, List.cons_append]

theorem upsert_map {view view' : κ → α} (hkey : ∀ q, key (view q) = q) (hother : ∀ q, q ≠ k → view' q = view q)
    (hf : f (view k) = view' k) (hnodup : keys.Nodup) (h : k ∈ keys) :
    upsert key k f new (keys.map view) = keys.map view' := by
  induction keys with
  | nil => cases h
  | cons q rest ih =>
    obtain ⟨hfirst, hrest⟩ := List.nodup_cons.mp hnodup
    rw [List.map_cons, List.map_cons, upsert, hkey]
    by_cases hq : q = k
    · subst hq
      have hsame : rest.map view = rest.map view' := List.map_congr_left fun p hp =>
        (hother p fun heq => hfirst (heq ▸ hp)).symm
      rw [if_pos (beq_self_eq_true q), hf, hsame]
    · have hk : k ∈ rest := (List.mem_cons.mp h).resolve_left (Ne.symm hq)
      rw [if_neg (by simpa using hq), ih hrest hk, hother q hq]

/-- One key more changes its entry, or puts a new one at the end. -/
theorem upsert_eraseDups {view view' : κ → α} (hkey : ∀ q, key (view q) = q)
    (hother : ∀ q, q ≠ k → view' q = view q) (hf : k ∈ keys → f (view k) = view' k)
    (hnew : k ∉ keys → new = view' k) :
    upsert key k f new (keys.eraseDups.map view) = (keys ++ [k]).eraseDups.map view' := by
  by_cases h : k ∈ keys
  · rw [eraseDups_concat_of_mem h]
    exact upsert_map hkey hother (hf h) (nodup_eraseDups keys) (List.mem_eraseDups.mpr h)
  · have hkeys : keys.eraseDups.map (key ∘ view) = keys.eraseDups := by
      rw [show key ∘ view = id from funext hkey, List.map_id]
    have hsame : keys.eraseDups.map view = keys.eraseDups.map view' := List.map_congr_left fun q hq =>
      (hother q fun heq => h (heq ▸ List.mem_eraseDups.mp hq)).symm
    rw [eraseDups_concat_of_not_mem h, upsert_of_not_mem (by rwa [List.map_map, hkeys, List.mem_eraseDups]),
      List.map_append, List.map_singleton, hnew h, hsame]

section Collect

variable {β : Type} {make : κ → List β → α} {extend : β → α → α} {form : β → κ}

/-- One member more is one member more in the group of its key. -/
theorem upsert_collected (hkey : ∀ q bs, key (make q bs) = q)
    (hextend : ∀ b q bs, extend b (make q bs) = make q (bs ++ [b])) (done : List β) (b : β) :
    upsert key (form b) (extend b) (make (form b) [b])
        ((done.map form).eraseDups.map fun q => make q (done.filter (form · == q))) =
      ((done ++ [b]).map form).eraseDups.map fun q => make q ((done ++ [b]).filter (form · == q)) := by
  have hsame : (done ++ [b]).filter (form · == form b) = done.filter (form · == form b) ++ [b] := by
    simp [List.filter_append]
  rw [List.map_append]
  refine upsert_eraseDups (fun q => hkey q _) (fun q hq => ?_) (fun _ => ?_) fun hmem => ?_
  · rw [List.filter_append, List.filter_cons_of_neg (by simpa using Ne.symm hq), List.filter_nil,
      List.append_nil]
  · rw [hextend, hsame]
  · have hnone : done.filter (form · == form b) = [] := by
      simpa [List.filter_eq_nil_iff] using hmem
    rw [hsame, hnone, List.nil_append]

/-- What is collected one member at a time are groups: each key once, with the members that have it. -/
theorem foldl_upsert (hkey : ∀ q bs, key (make q bs) = q)
    (hextend : ∀ b q bs, extend b (make q bs) = make q (bs ++ [b])) (bs : List β) :
    bs.foldl (fun gs b => upsert key (form b) (extend b) (make (form b) [b]) gs) [] =
      (bs.map form).eraseDups.map fun q => make q (bs.filter (form · == q)) := by
  have hfrom (done rest : List β) :
      rest.foldl (fun gs b => upsert key (form b) (extend b) (make (form b) [b]) gs)
          ((done.map form).eraseDups.map fun q => make q (done.filter (form · == q))) =
        ((done ++ rest).map form).eraseDups.map
          fun q => make q ((done ++ rest).filter (form · == q)) := by
    induction rest generalizing done with
    | nil => rw [List.foldl_nil, List.append_nil]
    | cons b rest ih =>
      rw [List.foldl_cons, upsert_collected hkey hextend, ih, List.append_assoc]
      rfl
  exact hfrom [] bs

/-- The first group is that of the first member, and the others are those of the members with other keys. -/
theorem collected_cons (b : β) (rest : List β) :
    ((b :: rest).map form).eraseDups.map (fun q => (b :: rest).filter (form · == q)) =
      (b :: rest.filter (form · == form b)) ::
        ((rest.filter fun c => !form c == form b).map form).eraseDups.map
          fun q => (rest.filter fun c => !form c == form b).filter (form · == q) := by
  have hforms : (rest.map form).filter (fun q => !q == form b) =
      (rest.filter fun c => !form c == form b).map form := by
    rw [List.filter_map]
    rfl
  have hlater (q : κ) (hq : q ∈ ((rest.filter fun c => !form c == form b).map form).eraseDups) :
      (b :: rest).filter (form · == q) = (rest.filter fun c => !form c == form b).filter (form · == q) := by
    obtain ⟨c, hc, rfl⟩ := List.mem_map.mp (List.mem_eraseDups.mp hq)
    have hne : form c ≠ form b := by simpa using (List.mem_filter.mp hc).2
    rw [List.filter_cons_of_neg (by simpa using Ne.symm hne), List.filter_filter]
    refine List.filter_congr fun d _ => ?_
    by_cases hd : form d = form c
    · simp [hd, hne]
    · simp [hd]
  rw [List.map_cons, List.eraseDups_cons, hforms, List.map_cons, List.map_congr_left hlater]
  simp

/-- The first members of the groups are met in the order of the members. -/
theorem pairwise_firsts {R : β → β → Prop} {bs : List β} (h : bs.Pairwise R) :
    ((bs.map form).eraseDups.map fun q => bs.filter (form · == q)).Pairwise
      fun xs ys => ∀ x ∈ xs.head?, ∀ y ∈ ys.head?, R x y := by
  induction hlength : bs.length using Nat.strongRecOn generalizing bs with
  | ind n ih =>
    cases bs with
    | nil => exact .nil
    | cons b rest =>
      obtain ⟨hfirst, hrest⟩ := List.pairwise_cons.mp h
      rw [collected_cons]
      refine List.pairwise_cons.mpr ⟨fun ys hys x hx y hy => ?_, ih _ ?_ (hrest.filter _) rfl⟩
      · cases hx
        obtain ⟨q, -, rfl⟩ := List.mem_map.mp hys
        have hmem := (List.mem_filter.mp (List.mem_of_mem_head? hy)).1
        exact hfirst y (List.mem_filter.mp hmem).1
      · have hle := List.length_filter_le (fun c => !form c == form b) rest
        rw [List.length_cons] at hlength
        omega

end Collect

end Upsert

namespace Group

theorem add_eq_upsert (c : FileChange) (gs : List Group) :
    add c gs = upsert (·.path) c.path (fun g => { g with changes := g.changes ++ [c] }) ⟨c.path, [c]⟩ gs := by
  induction gs with
  | nil => rfl
  | cons g gs ih => rw [add, upsert, ih]

/-- The groups of changes: each path once, with the changes that have it. -/
theorem ofChanges_eq (changes : List FileChange) :
    ofChanges changes =
      (changes.map (·.path)).eraseDups.map fun p => ⟨p, changes.filter (·.path == p)⟩ := by
  simp only [ofChanges, add_eq_upsert]
  exact foldl_upsert (fun _ _ => rfl) (fun _ _ _ => rfl) changes

end Group

end SourceChange
