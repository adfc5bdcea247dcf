import Mathlib.Data.List.Forall2

/-!
Work that succeeds or fails part by part.
-/

namespace SourceChange

variable {α β ε : Type}

section Bind

variable {x : Except ε α} {f : α → Except ε β}

theorem toOption_eq_some_iff {a : α} : x.toOption = some a ↔ x = .ok a := by
  cases x with
  | error e => simp [Except.toOption]
  | ok b => simp [Except.toOption]

/-- Work that succeeds does so part by part. -/
theorem bind_eq_ok_iff {b : β} : (x >>= f) = .ok b ↔ ∃ a, x = .ok a ∧ f a = .ok b := by
  cases x with
  | error e => simp [bind, Except.bind]
  | ok a => simp [bind, Except.bind]

theorem map_eq_ok_iff {g : α → β} {b : β} : x.map g = .ok b ↔ ∃ a, x = .ok a ∧ g a = b := by
  cases x with
  | error e => simp [Except.map]
  | ok a => simp [Except.map]

theorem exists_bind_eq_ok_iff : (∃ b, (x >>= f) = .ok b) ↔ ∃ a, x = .ok a ∧ ∃ b, f a = .ok b := by
  simp only [bind_eq_ok_iff, exists_comm (α := β), exists_and_left]

/-- Work fails as the first of its parts does that fails. -/
theorem bind_eq_error_iff {e : ε} :
    (x >>= f) = .error e ↔ x = .error e ∨ ∃ a, x = .ok a ∧ f a = .error e := by
  cases x with
  | error e' =>
    constructor
    · intro h
      cases h
      exact .inl rfl
    · rintro (h | ⟨a, h, -⟩)
      · cases h
        rfl
      · cases h
  | ok a =>
    constructor
    · intro h
      exact .inr ⟨a, rfl, h⟩
    · rintro (h | ⟨a', h, hf⟩)
      · cases h
      · cases h
        exact hf

end Bind

section Lists

variable {f : α → Except ε β}

theorem mapM_cons_of_ok {a : α} {as : List α} {b : β} (ha : f a = .ok b) :
    (a :: as).mapM f = (as.mapM f).map (b :: ·) := by
  rw [List.mapM_cons, ha]
  cases as.mapM f <;> rfl

theorem mapM_cons_of_error {a : α} {as : List α} {e : ε} (ha : f a = .error e) :
    (a :: as).mapM f = .error e := by
  rw [List.mapM_cons, ha]
  rfl

theorem mapM_eq_ok {as : List α} {bs : List β} (h : as.mapM f = .ok bs) :
    List.Forall₂ (fun a b => f a = .ok b) as bs := by
  induction as generalizing bs with
  | nil =>
    cases h
    exact .nil
  | cons a rest ih =>
    cases ha : f a with
    | error e =>
      rw [mapM_cons_of_error ha] at h
      cases h
    | ok b =>
      rw [mapM_cons_of_ok ha] at h
      cases hrest : rest.mapM f with
      | error e =>
        rw [hrest] at h
        cases h
      | ok bs' =>
        rw [hrest] at h
        cases h
        exact .cons ha (ih hrest)

theorem exists_mem_of_forall₂ {R : α → β → Prop} {as : List α} {bs : List β}
    (h : List.Forall₂ R as bs) {a : α} (ha : a ∈ as) : ∃ b ∈ bs, R a b := by
  induction h with
  | nil => cases ha
  | cons hab _ ih =>
    obtain rfl | ha := List.mem_cons.mp ha
    · exact ⟨_, List.mem_cons_self, hab⟩
    · obtain ⟨b, hb, hrel⟩ := ih ha
      exact ⟨b, List.mem_cons_of_mem _ hb, hrel⟩

/-- Work on a list fails as the first member does for which it fails. -/
theorem mapM_eq_error_iff {as : List α} {e : ε} :
    as.mapM f = .error e ↔
      ∃ before a after, as = before ++ a :: after ∧ (∀ b ∈ before, ∀ e', f b ≠ .error e') ∧
        f a = .error e := by
  constructor
  · intro h
    induction as with
    | nil => cases h
    | cons a rest ih =>
      cases ha : f a with
      | error e' =>
        rw [mapM_cons_of_error ha] at h
        cases h
        exact ⟨[], a, rest, rfl, fun b hb => absurd hb List.not_mem_nil, ha⟩
      | ok b =>
        have hok : ∀ e', f a ≠ .error e' := fun e' he' => by
          rw [ha] at he'
          cases he'
        rw [mapM_cons_of_ok ha] at h
        cases hrest : rest.mapM f with
        | ok bs =>
          rw [hrest] at h
          cases h
        | error e' =>
          rw [hrest] at h
          cases h
          obtain ⟨before, c, after, rfl, hbefore, hc⟩ := ih hrest
          exact ⟨a :: before, c, after, rfl, List.forall_mem_cons.mpr ⟨hok, hbefore⟩, hc⟩
  · rintro ⟨before, a, after, rfl, hbefore, ha⟩
    induction before with
    | nil => exact mapM_cons_of_error ha
    | cons b before ih =>
      obtain ⟨hb, hbefore⟩ := List.forall_mem_cons.mp hbefore
      cases hfb : f b with
      | error e' => exact absurd hfb (hb e')
      | ok x => rw [List.cons_append, mapM_cons_of_ok hfb, ih hbefore, Except.map]

variable {check : α → Except ε Unit}

theorem forM_cons (a : α) (as : List α) :
    (a :: as).forM check = check a >>= fun _ => as.forM check := rfl

/-- A list of checks passes if each of them does. -/
theorem forM_eq_ok_iff {as : List α} : as.forM check = .ok () ↔ ∀ a ∈ as, check a = .ok () := by
  induction as with
  | nil => exact ⟨fun _ a ha => absurd ha List.not_mem_nil, fun _ => rfl⟩
  | cons a rest ih =>
    rw [forM_cons, List.forall_mem_cons, ← ih]
    constructor
    · intro h
      obtain ⟨⟨⟩, ha, hrest⟩ := bind_eq_ok_iff.mp h
      exact ⟨ha, hrest⟩
    · rintro ⟨ha, hrest⟩
      rw [ha]
      exact hrest

theorem exists_of_forM_eq_error {as : List α} {e : ε} (h : as.forM check = .error e) :
    ∃ a ∈ as, check a = .error e := by
  induction as with
  | nil => cases h
  | cons a rest ih =>
    obtain ha | ⟨-, -, hrest⟩ := bind_eq_error_iff.mp h
    · exact ⟨a, List.mem_cons_self, ha⟩
    · obtain ⟨b, hb, he⟩ := ih hrest
      exact ⟨b, List.mem_cons_of_mem a hb, he⟩

end Lists

end SourceChange
