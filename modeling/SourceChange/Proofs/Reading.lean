import SourceChange.Source.Cache

/-!
What work on trees can do to its reader.

Every piece of work reads texts, one after the other, and does nothing else to its reader. `Reader.Leads`
says so of two readers and `Reading.Yields` of a piece of work, together with a condition on its result;
whatever a single reading keeps, any work keeps.
-/

namespace SourceChange.Source

namespace Reader

/-- The readers that a reader becomes by reading texts, past its cache or through it. -/
inductive Leads (r : Reader) : Reader → Prop where
  | refl : Leads r r
  | read {s : Reader} (language : Language) (text : String) (h : Leads r s) :
    Leads r (s.read language text).2
  | fileTree {s : Reader} (path : String) (language : Language) (text : String) (h : Leads r s) :
    Leads r (s.fileTree path language text).2

theorem Leads.trans {r s t : Reader} (hrs : r.Leads s) (hst : s.Leads t) : r.Leads t := by
  induction hst with
  | refl => exact hrs
  | read language text _ ih => exact ih.read language text
  | fileTree path language text _ ih => exact ih.fileTree path language text

/-- A condition that every single reading keeps is kept by any number of them. -/
theorem Leads.preserves {P : Reader → Prop}
    (hread : ∀ r language text, P r → P (r.read language text).2)
    (hfile : ∀ r path language text, P r → P (r.fileTree path language text).2)
    {r s : Reader} (h : r.Leads s) (hr : P r) : P s := by
  induction h with
  | refl => exact hr
  | read language text _ ih => exact hread _ language text ih
  | fileTree path language text _ ih => exact hfile _ path language text ih

end Reader

theorem Reader.run_pure {α : Type} (a : α) (r : Reader) :
    StateT.run (pure a : StateM Reader α) r = (a, r) := rfl

/-- The second of two pieces of work goes on with the reader that the first leaves. -/
theorem Reader.run_bind {α β : Type} (m : StateM Reader α) (f : α → StateM Reader β) (r : Reader) :
    StateT.run (m >>= f) r = StateT.run (f (StateT.run m r).1) (StateT.run m r).2 := rfl

/-- Work on a list is done member by member. -/
theorem Reader.run_mapM_cons {α β : Type} (f : α → StateM Reader β) (a : α) (as : List α) (r : Reader) :
    StateT.run ((a :: as).mapM f) r =
      (((f a).run r).1 :: (StateT.run (as.mapM f) ((f a).run r).2).1,
        (StateT.run (as.mapM f) ((f a).run r).2).2) := by
  rw [List.mapM_cons]
  rfl

/-- A result of work on a list is that of work on a member. -/
theorem Reader.exists_of_mem_run_mapM {α β : Type} {f : α → StateM Reader β} {as : List α} {r : Reader} {b : β}
    (h : b ∈ (StateT.run (as.mapM f) r).1) : ∃ a ∈ as, ∃ s, b = ((f a).run s).1 := by
  induction as generalizing r with
  | nil => cases h
  | cons a as ih =>
    rw [Reader.run_mapM_cons] at h
    obtain rfl | h := List.mem_cons.mp h
    · exact ⟨a, List.mem_cons_self, r, rfl⟩
    · obtain ⟨a', ha', hb⟩ := ih h
      exact ⟨a', List.mem_cons_of_mem a ha', hb⟩

namespace Reader

/-- Work that cannot fail and does nothing to its reader but read. -/
structure Reads {α : Type} (m : StateM Reader α) : Prop where
  leads : ∀ r : Reader, r.Leads (m.run r).2

namespace Reads

variable {α β : Type}

protected theorem pure (a : α) : Reads (pure a) := ⟨fun _ => .refl⟩

protected theorem fileTree (path : String) (language : Language) (text : String) :
    Reads (modifyGet fun r : Reader => r.fileTree path language text) :=
  ⟨fun _ => .fileTree path language text .refl⟩

protected theorem bind {m : StateM Reader α} {f : α → StateM Reader β} (hm : Reads m)
    (hf : ∀ a, Reads (f a)) : Reads (m >>= f) :=
  ⟨fun r => (hm.leads r).trans ((hf _).leads _)⟩

protected theorem mapM {f : α → StateM Reader β} (hf : ∀ a, Reads (f a)) (as : List α) :
    Reads (as.mapM f) := by
  refine ⟨fun r => ?_⟩
  induction as generalizing r with
  | nil => exact .refl
  | cons a rest ih =>
    rw [run_mapM_cons]
    exact ((hf a).leads r).trans (ih _)

end Reads

end Reader

namespace Reading

variable {α β : Type}

/-- What a piece of work comes to with a reader: its result, and the reader afterwards. -/
def on (m : Reading α) (r : Reader) : Except Failure α × Reader := StateT.run m.run r

@[simp] theorem run_run (m : Reading α) (r : Reader) : StateT.run m.run r = m.on r := rfl

@[simp] theorem on_pure (a : α) (r : Reader) : on (pure a) r = (.ok a, r) := rfl

@[simp] theorem on_throw (e : Failure) (r : Reader) : on (throw e : Reading α) r = (.error e, r) := rfl

@[simp] theorem on_liftM (x : Except Failure α) (r : Reader) : on (liftM x) r = (x, r) := rfl

@[simp] theorem on_lenient (language : Language) (text : String) (r : Reader) :
    (lenient language text).on r = (.ok (r.read language text).1, (r.read language text).2) := rfl

@[simp] theorem on_lenientFile (path : String) (language : Language) (text : String) (r : Reader) :
    (lenientFile path language text).on r =
      (.ok (r.fileTree path language text).1, (r.fileTree path language text).2) := rfl

theorem on_bind (m : Reading α) (f : α → Reading β) (r : Reader) :
    (m >>= f).on r =
      match m.on r with
      | (.ok a, s) => (f a).on s
      | (.error e, s) => (.error e, s) := by
  simp only [on, ExceptT.run_bind, StateT.run_bind]
  cases h : StateT.run m.run r with
  | mk result s => cases result <;> rfl

/-- Work that succeeds does so part by part. -/
theorem exists_of_bind_on_eq_ok {m : Reading α} {f : α → Reading β} {r : Reader} {b : β}
    (h : ((m >>= f).on r).1 = .ok b) : ∃ a, (m.on r).1 = .ok a ∧ ((f a).on (m.on r).2).1 = .ok b := by
  rw [on_bind] at h
  rcases hm : m.on r with ⟨_ | a, s⟩
  · simp [hm] at h
  · exact ⟨a, rfl, by simpa [hm] using h⟩

theorem exists_of_liftM_on_eq_ok {x : Except Failure α} {f : α → Reading β} {r : Reader} {b : β}
    (h : ((liftM x >>= f).on r).1 = .ok b) : ∃ a, x = .ok a ∧ ((f a).on r).1 = .ok b :=
  exists_of_bind_on_eq_ok h

/-- Whatever its reader, a piece of work does nothing to it but read, and what it returns satisfies
`Q`. -/
structure Yields (m : Reading α) (Q : α → Prop) : Prop where
  leads : ∀ r : Reader, r.Leads (m.on r).2
  result : ∀ (r : Reader) (a : α), (m.on r).1 = .ok a → Q a

namespace Yields

variable {Q : α → Prop} {R : β → Prop}

protected theorem pure {a : α} (ha : Q a) : Yields (pure a) Q := by
  refine ⟨fun _ => .refl, ?_⟩
  intro r b hb
  cases hb
  exact ha

protected theorem throw (e : Failure) : Yields (throw e) Q :=
  ⟨fun _ => .refl, by simp⟩

protected theorem liftM {x : Except Failure α} (hx : ∀ a, x = .ok a → Q a) : Yields (liftM x) Q :=
  ⟨fun _ => .refl, fun _ => hx⟩

protected theorem lenient (language : Language) (text : String) :
    (Reading.lenient language text).Yields fun _ => True :=
  ⟨fun _ => .read language text .refl, fun _ _ _ => trivial⟩

protected theorem lenientFile (path : String) (language : Language) (text : String) :
    (Reading.lenientFile path language text).Yields fun _ => True :=
  ⟨fun _ => .fileTree path language text .refl, fun _ _ _ => trivial⟩

protected theorem bind {m : Reading α} {f : α → Reading β} (hm : m.Yields Q)
    (hf : ∀ a, Q a → (f a).Yields R) : (m >>= f).Yields R := by
  constructor
  · intro r
    have hlead := hm.leads r
    rw [on_bind]
    rcases h : m.on r with ⟨e | a, s⟩
    · simpa [h] using hlead
    · rw [h] at hlead
      exact hlead.trans ((hf a (hm.result r a (by rw [h]))).leads s)
  · intro r b hb
    rw [on_bind] at hb
    rcases h : m.on r with ⟨e | a, s⟩
    · simp [h] at hb
    · rw [h] at hb
      exact (hf a (hm.result r a (by rw [h]))).result s b hb

protected theorem mono {m : Reading α} {Q' : α → Prop} (hm : m.Yields Q) (h : ∀ a, Q a → Q' a) :
    m.Yields Q' :=
  ⟨hm.leads, fun r a ha => h a (hm.result r a ha)⟩

/-- Work whose result does not matter can stand before any other. -/
protected theorem andThen {m : Reading α} {f : α → Reading β} (hm : m.Yields fun _ => True)
    (hf : ∀ a, (f a).Yields R) : (m >>= f).Yields R :=
  hm.bind fun a _ => hf a

protected theorem lifted {x : Except Failure α} {f : α → Reading β} (hf : ∀ a, (f a).Yields R) :
    (liftM x >>= f).Yields R :=
  Yields.andThen (.liftM fun _ _ => trivial) hf

end Yields

end Reading

end SourceChange.Source
