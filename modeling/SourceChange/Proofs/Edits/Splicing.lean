import SourceChange.Proofs.Edits.Apply
import SourceChange.Proofs.Except

/-!
Edits applied at once and one at a time.

The edits of a list refer to the bytes as they are before any of them is made. Unless two of them overlap,
they have the effect of the same edits made one at a time, the last one first, so that none moves the
place of another. All bytes that no edit replaces stay, in their order.
-/

namespace SourceChange.Source

open Syntax

namespace Edit

/-- Makes one edit. -/
def splice (e : Edit) (bytes : List UInt8) : List UInt8 :=
  bytes.take e.start ++ utf8 e.replacement ++ bytes.drop e.stop

/-- Whether an edit replaces the byte at a position. -/
def covers (e : Edit) (position : Nat) : Bool := e.start ≤ position && position < e.stop

/-- Of bytes from a position on, those that no edit replaces. -/
def keptFrom (position : Nat) (edits : List Edit) (bytes : List UInt8) : List UInt8 :=
  ((bytes.zipIdx position).filter fun x => !edits.any (·.covers x.2)).map (·.1)

/-- The bytes that no edit replaces. -/
def kept (edits : List Edit) (bytes : List UInt8) : List UInt8 := keptFrom 0 edits bytes

/-- Two edits overlap if the later one, by start and then by end, starts before the earlier one ends. -/
def Overlap (a b : Edit) : Prop :=
  (le a b = true ∧ b.start < a.stop) ∨ (le b a = true ∧ a.start < b.stop)

/-- Two edits of a list overlap. -/
def Overlapping (edits : List Edit) : Prop := ∃ a b, [a, b].Sublist edits ∧ Overlap a b

/-- The edits of a list in the order of their places; those at one place come in their given order. -/
structure Arranged (edits ordered : List Edit) : Prop where
  sorted : ordered.Pairwise fun a b => le a b = true
  stable : ∀ start stop, ordered.filter (fun e => e.start == start && e.stop == stop) =
    edits.filter fun e => e.start == start && e.stop == stop

/-- Bytes with the replacements of edits between them, in the order of the edits. -/
inductive Woven : List UInt8 → List Edit → List UInt8 → Prop where
  | nil (bytes : List UInt8) : Woven bytes [] bytes
  | cons (gap : List UInt8) (e : Edit) {bytes result : List UInt8} {edits : List Edit}
    (hrest : Woven bytes edits result) : Woven (gap ++ bytes) (e :: edits) (gap ++ utf8 e.replacement ++ result)

/-- No two edits of a list are at the same place. -/
def Scattered (edits : List Edit) : Prop :=
  edits.Pairwise fun a b => ¬ (a.start = b.start ∧ a.stop = b.stop)

instance (a b : Edit) : Decidable (Overlap a b) :=
  inferInstanceAs (Decidable ((le a b = true ∧ b.start < a.stop) ∨ (le b a = true ∧ a.start < b.stop)))

section Order

variable {edits ordered : List Edit} {a b : Edit}

theorem le_iff : le a b = true ↔ a.start < b.start ∨ a.start = b.start ∧ a.stop ≤ b.stop := by
  simp [le]

theorem Overlap.symm (h : Overlap a b) : Overlap b a := Or.symm h

theorem overlapping_iff : Overlapping edits ↔ ¬ edits.Pairwise fun a b => ¬ Overlap a b := by
  rw [List.pairwise_iff_forall_sublist]
  push Not
  rfl

instance (edits : List Edit) : Decidable (Overlapping edits) := decidable_of_iff _ overlapping_iff.symm

theorem overlapping_perm {edits' : List Edit} (h : edits.Perm edits') :
    Overlapping edits ↔ Overlapping edits' := by
  rw [overlapping_iff, overlapping_iff, h.pairwise_iff fun hab hba => hab hba.symm]

/-- Of two edits in order, the first one ends before the second one starts, or they overlap. -/
theorem not_overlap_iff (ha : a.start ≤ a.stop) (hb : b.start ≤ b.stop) (hle : le a b = true) :
    ¬ Overlap a b ↔ a.stop ≤ b.start := by
  rw [Overlap, le_iff, le_iff]
  rw [le_iff] at hle
  omega

/-- Sorting keeps the order of edits at one place. -/
theorem arranged_mergeSort (edits : List Edit) : Arranged edits (edits.mergeSort le) where
  sorted := List.pairwise_mergeSort le_trans le_total edits
  stable start stop := by
    have hsame : (edits.filter fun e => e.start == start && e.stop == stop).Pairwise
        fun a b => le a b = true := by
      refine List.pairwise_of_forall_mem_list fun a ha b hb => le_iff.mpr ?_
      have ha := (List.mem_filter.mp ha).2
      have hb := (List.mem_filter.mp hb).2
      simp only [Bool.and_eq_true, beq_iff_eq] at ha hb
      omega
    have hsublist := (List.sublist_mergeSort le_trans le_total hsame List.filter_sublist).filter
      fun e => e.start == start && e.stop == stop
    rw [List.filter_filter] at hsublist
    simp only [Bool.and_self] at hsublist
    exact (hsublist.eq_of_length ((edits.mergeSort_perm le).filter _).length_eq.symm).symm

/-- Edits at different places have one order only. -/
theorem Scattered.pairwise_mergeSort (h : Scattered edits) :
    (edits.mergeSort le).Pairwise fun a b => le b a = false := by
  have hsorted := List.pairwise_mergeSort le_trans le_total edits
  have hplaces := ((edits.mergeSort_perm le).pairwise_iff fun hab hba => hab ⟨hba.1.symm, hba.2.symm⟩).mpr h
  refine (hsorted.and hplaces).imp fun hab => ?_
  rw [Bool.eq_false_iff, Ne, le_iff]
  rw [le_iff] at hab
  omega

theorem Scattered.mergeSort_eq {edits' : List Edit} (h : Scattered edits) (hperm : edits'.Perm edits) :
    edits'.mergeSort le = edits.mergeSort le := by
  have h' : Scattered edits' := (hperm.pairwise_iff fun hab hba => hab ⟨hba.1.symm, hba.2.symm⟩).mpr h
  refine List.Perm.eq_of_pairwise (fun a b _ _ hab hba => ?_) h'.pairwise_mergeSort h.pairwise_mergeSort
    (((edits'.mergeSort_perm le).trans hperm).trans (edits.mergeSort_perm le).symm)
  have htotal := le_total a b
  rw [hab, hba] at htotal
  cases htotal

end Order

section Sweep

variable {source : List UInt8} {edits : List Edit} {e : Edit} {cursor : Nat}

/-- Edits that start from a position on, each of which ends before the next one starts. -/
structure Ahead (cursor : Nat) (edits : List Edit) : Prop where
  start : ∀ e ∈ edits, cursor ≤ e.start
  apart : edits.Pairwise fun a b => a.stop ≤ b.start

theorem ahead_nil (cursor : Nat) : Ahead cursor [] := ⟨nofun, .nil⟩

theorem ahead_cons (he : e.start ≤ e.stop) :
    Ahead cursor (e :: edits) ↔ cursor ≤ e.start ∧ Ahead e.stop edits := by
  constructor
  · rintro ⟨hstart, hapart⟩
    obtain ⟨hnext, hapart⟩ := List.pairwise_cons.mp hapart
    exact ⟨hstart e List.mem_cons_self, hnext, hapart⟩
  · rintro ⟨hstart, hnext, hapart⟩
    refine ⟨List.forall_mem_cons.mpr ⟨hstart, fun b hb => ?_⟩, List.pairwise_cons.mpr ⟨hnext, hapart⟩⟩
    exact Nat.le_trans hstart (Nat.le_trans he (hnext b hb))

theorem not_overlapping_iff_ahead (hle : ∀ e ∈ edits, e.start ≤ e.stop) :
    ¬ Overlapping edits ↔ Ahead 0 (edits.mergeSort le) := by
  have hsorted := List.pairwise_mergeSort le_trans le_total edits
  have hmem {e : Edit} (he : e ∈ edits.mergeSort le) : e.start ≤ e.stop := hle e (List.mem_mergeSort.mp he)
  rw [← overlapping_perm (edits.mergeSort_perm le), overlapping_iff, not_not]
  constructor
  · intro hapart
    refine ⟨fun _ _ => Nat.zero_le _, (hsorted.and hapart).imp_of_mem fun {a b} ha hb hab => ?_⟩
    exact (not_overlap_iff (hmem ha) (hmem hb) hab.1).mp hab.2
  · rintro ⟨-, hapart⟩
    refine (hsorted.and hapart).imp_of_mem fun {a b} ha hb hab => ?_
    exact (not_overlap_iff (hmem ha) (hmem hb) hab.1).mpr hab.2

/-- The sweep fails where an edit starts before the end of the one before it. -/
theorem applyFrom_eq_error (hle : ∀ e ∈ edits, e.start ≤ e.stop) (h : ¬ Ahead cursor edits) :
    ∃ start stop, applyFrom source cursor edits = .error (.overlap start stop) := by
  induction edits generalizing cursor with
  | nil => exact absurd (ahead_nil cursor) h
  | cons e edits ih =>
    obtain ⟨he, hle⟩ := List.forall_mem_cons.mp hle
    rw [ahead_cons he] at h
    by_cases hstart : e.start < cursor
    · exact ⟨e.start, e.stop, if_pos hstart⟩
    · obtain ⟨start, stop, hrest⟩ := ih hle fun hahead => h ⟨Nat.le_of_not_lt hstart, hahead⟩
      refine ⟨start, stop, ?_⟩
      rw [applyFrom, if_neg hstart, hrest]
      rfl

theorem keptFrom_append (position : Nat) (edits : List Edit) (xs ys : List UInt8) :
    keptFrom position edits (xs ++ ys) =
      keptFrom position edits xs ++ keptFrom (position + xs.length) edits ys := by
  rw [keptFrom, List.zipIdx_append, List.filter_append, List.map_append]
  rfl

/-- Bytes that no edit replaces. -/
theorem keptFrom_eq_self {position : Nat} {bytes : List UInt8}
    (h : ∀ i, position ≤ i → i < position + bytes.length → ∀ e ∈ edits, e.covers i = false) :
    keptFrom position edits bytes = bytes := by
  have hall : ((bytes.zipIdx position).filter fun x => !edits.any (·.covers x.2)) = bytes.zipIdx position := by
    refine List.filter_eq_self.mpr fun x hx => ?_
    obtain ⟨hlo, hhi, -⟩ := List.mem_zipIdx hx
    simpa using h x.2 hlo hhi
  rw [keptFrom, hall, List.zipIdx_map_fst]

/-- Bytes that an edit replaces. -/
theorem keptFrom_eq_nil {position : Nat} {bytes : List UInt8} (he : e ∈ edits) (hstart : e.start ≤ position)
    (hstop : position + bytes.length ≤ e.stop) : keptFrom position edits bytes = [] := by
  rw [keptFrom, List.map_eq_nil_iff, List.filter_eq_nil_iff]
  intro x hx
  obtain ⟨hlo, hhi, -⟩ := List.mem_zipIdx hx
  have hcovers : e.covers x.2 = true := by
    simp only [covers, Bool.and_eq_true, decide_eq_true_eq]
    omega
  simpa using ⟨e, he, hcovers⟩

/-- An edit replaces nothing from its end on. -/
theorem keptFrom_cons_of_le {position : Nat} (h : e.stop ≤ position) (edits : List Edit) (bytes : List UInt8) :
    keptFrom position (e :: edits) bytes = keptFrom position edits bytes := by
  refine congrArg _ (List.filter_congr fun x hx => ?_)
  obtain ⟨hlo, -, -⟩ := List.mem_zipIdx hx
  have hout : e.covers x.2 = false := by
    simp only [covers, Bool.and_eq_false_iff, decide_eq_false_iff_not]
    omega
  rw [List.any_cons, hout, Bool.false_or]

theorem take_append_drop_take {i j : Nat} (h : i ≤ j) :
    source.take i ++ (source.take j).drop i = source.take j := by
  have hwhole := List.take_append_drop i (source.take j)
  rwa [List.take_take, Nat.min_eq_left h] at hwhole

theorem drop_take_append_drop {i j : Nat} (h : i ≤ j) (hj : j ≤ source.length) :
    (source.take j).drop i ++ source.drop j = source.drop i := by
  rw [← List.drop_append_of_le_length (by rw [List.length_take]; omega), List.take_append_drop]

/-- What is kept from a position on is kept up to the next edit, and behind it. -/
theorem keptFrom_cons (hle : e.start ≤ e.stop) (hstop : e.stop ≤ source.length) (hcursor : cursor ≤ e.start)
    (hnext : ∀ b ∈ edits, e.stop ≤ b.start) :
    keptFrom cursor (e :: edits) (source.drop cursor) =
      (source.take e.start).drop cursor ++ keptFrom e.stop edits (source.drop e.stop) := by
  have hgap : ((source.take e.start).drop cursor).length = e.start - cursor := by
    rw [List.length_drop, List.length_take]
    omega
  have hcut : ((source.take e.stop).drop e.start).length = e.stop - e.start := by
    rw [List.length_drop, List.length_take]
    omega
  have hbefore : keptFrom cursor (e :: edits) ((source.take e.start).drop cursor) =
      (source.take e.start).drop cursor := by
    refine keptFrom_eq_self fun i _ hi b hb => ?_
    have hb : e.start ≤ b.start := by
      obtain rfl | hb := List.mem_cons.mp hb
      · exact Nat.le_refl _
      · exact Nat.le_trans hle (hnext b hb)
    simp only [covers, Bool.and_eq_false_iff, decide_eq_false_iff_not]
    omega
  have hwithin : keptFrom e.start (e :: edits) ((source.take e.stop).drop e.start) = [] :=
    keptFrom_eq_nil List.mem_cons_self (Nat.le_refl _) (by omega)
  rw [← drop_take_append_drop hcursor (Nat.le_trans hle hstop), ← drop_take_append_drop hle hstop,
    keptFrom_append, keptFrom_append, hbefore, hgap, Nat.add_sub_cancel' hcursor, hwithin, hcut,
    Nat.add_sub_cancel' hle, keptFrom_cons_of_le (Nat.le_refl _), List.nil_append]

/-- The sweep over edits that do not overlap makes them one at a time, and keeps all other bytes. -/
theorem Ahead.exists_applyFrom (h : Ahead cursor edits) (hle : ∀ e ∈ edits, e.start ≤ e.stop)
    (hstop : ∀ e ∈ edits, e.stop ≤ source.length) :
    ∃ result, applyFrom source cursor edits = .ok result ∧
      edits.foldr splice source = source.take cursor ++ result ∧
      Woven (keptFrom cursor edits (source.drop cursor)) edits result := by
  induction edits generalizing cursor with
  | nil =>
    refine ⟨source.drop cursor, rfl, (List.take_append_drop cursor source).symm, ?_⟩
    rw [keptFrom_eq_self fun i _ _ e he => by cases he]
    exact .nil _
  | cons e edits ih =>
    obtain ⟨he, hle⟩ := List.forall_mem_cons.mp hle
    obtain ⟨hestop, hstop⟩ := List.forall_mem_cons.mp hstop
    obtain ⟨hcursor, hahead⟩ := (ahead_cons he).mp h
    obtain ⟨result, hrest, hfold, hwoven⟩ := ih hahead hle hstop
    refine ⟨(source.take e.start).drop cursor ++ utf8 e.replacement ++ result, ?_, ?_, ?_⟩
    · rw [applyFrom, if_neg (Nat.not_lt.mpr hcursor), hrest]
      rfl
    · -- the edits that come later were made behind this one
      have hfront : (source.take e.stop ++ result).take e.start = source.take e.start := by
        rw [List.take_append_of_le_length (by simp; omega), List.take_take, Nat.min_eq_left he]
      have hback : (source.take e.stop ++ result).drop e.stop = result := by
        rw [List.drop_left' (by simp; omega)]
      rw [List.foldr_cons, hfold, splice, hfront, hback]
      simp only [← List.append_assoc, take_append_drop_take hcursor]
    · rw [keptFrom_cons he hestop hcursor hahead.start]
      exact .cons _ e hwoven

end Sweep

section Exact

variable {source : List UInt8} {edits : List Edit}

theorem kept_perm {edits' : List Edit} (h : edits.Perm edits') (bytes : List UInt8) :
    kept edits bytes = kept edits' bytes :=
  congrArg _ (List.filter_congr fun _ _ => by rw [h.any_eq])

/-- Edits that do not overlap are made one at a time, the last one first. -/
theorem exists_applyBytes (hle : ∀ e ∈ edits, e.start ≤ e.stop) (hstop : ∀ e ∈ edits, e.stop ≤ source.length)
    (happart : ¬ Overlapping edits) :
    ∃ ordered, Arranged edits ordered ∧ applyBytes source edits = .ok (ordered.foldr splice source) ∧
      Woven (kept edits source) ordered (ordered.foldr splice source) := by
  have hmem {e : Edit} (he : e ∈ edits.mergeSort le) : e ∈ edits := List.mem_mergeSort.mp he
  have hahead := (not_overlapping_iff_ahead hle).mp happart
  obtain ⟨result, happly, hfold, hwoven⟩ :=
    hahead.exists_applyFrom (fun e he => hle e (hmem he)) fun e he => hstop e (hmem he)
  rw [List.take_zero, List.nil_append] at hfold
  rw [List.drop_zero] at hwoven
  refine ⟨_, arranged_mergeSort edits, ?_, ?_⟩
  · rw [hfold]
    exact happly
  · rw [hfold, ← kept_perm (edits.mergeSort_perm le)]
    exact hwoven

/-- Edits at boundaries of characters that do not overlap can be applied to the text. -/
theorem applicable_of_not_overlapping {text : List Char} (hle : ∀ e ∈ edits, e.start ≤ e.stop)
    (hboundary : ∀ e ∈ edits, Boundary text e.start ∧ Boundary text e.stop) (happart : ¬ Overlapping edits) :
    Applicable text edits where
  start_le_stop := hle
  stop_le e he := (hboundary e he).2.le
  start e he := (hboundary e he).1
  stop e he := (hboundary e he).2
  apart := by
    rw [overlapping_iff, not_not] at happart
    refine happart.imp_of_mem fun {a b} ha hb hab => ?_
    obtain hfirst | hlast := Bool.or_eq_true_iff.mp (le_total a b)
    · exact .inl ((not_overlap_iff (hle a ha) (hle b hb) hfirst).mp hab)
    · exact .inr ((not_overlap_iff (hle b hb) (hle a ha) hlast).mp fun hba => hab hba.symm)

theorem applyBytes_eq_error (source : List UInt8) (hle : ∀ e ∈ edits, e.start ≤ e.stop) (h : Overlapping edits) :
    ∃ start stop, applyBytes source edits = .error (.overlap start stop) :=
  applyFrom_eq_error (fun e he => hle e (List.mem_mergeSort.mp he))
    fun hahead => (not_overlapping_iff_ahead hle).mpr hahead h

theorem decode_eq_error {bytes : List UInt8} {f : Failure} (h : decode bytes = .error f) : f = .cutCharacter := by
  unfold decode at h
  split at h
  · cases h
  · cases h
    rfl

/-- Edits within a text, given as bytes, are refused if and only if two of them overlap. Otherwise the
result is that of making them one at a time, from the last place to the first one: all bytes that none of
them replaces, in their order, with the replacements between them. Edits at different places may be given
in any order. And the result of edits at boundaries of characters is a text again. -/
theorem apply_exact (hle : ∀ e ∈ edits, e.start ≤ e.stop) (hstop : ∀ e ∈ edits, e.stop ≤ source.length) :
    ((∃ f, applyEncoded source edits = .error f ∧ f.kind = .structuralConflict) ↔ Overlapping edits) ∧
      (¬ Overlapping edits → ∃ ordered, Arranged edits ordered ∧
        applyEncoded source edits = decode (ordered.foldr splice source) ∧
        Woven (kept edits source) ordered (ordered.foldr splice source)) ∧
      (Scattered edits → ∀ edits' : List Edit, edits'.Perm edits →
        applyEncoded source edits' = applyEncoded source edits) ∧
      ∀ text, source = utf8 text → ¬ Overlapping edits →
        (∀ e ∈ edits, Boundary text.toList e.start ∧ Boundary text.toList e.stop) →
        ∃ result, applyEncoded source edits = .ok result := by
  refine ⟨⟨?_, fun h => ?_⟩, fun h => ?_, fun h edits' hperm => ?_, ?_⟩
  · rintro ⟨f, hf, hkind⟩
    by_contra happart
    obtain ⟨ordered, -, happly, -⟩ := exists_applyBytes hle hstop happart
    rw [applyEncoded, happly] at hf
    rw [decode_eq_error hf] at hkind
    cases hkind
  · obtain ⟨start, stop, happly⟩ := applyBytes_eq_error source hle h
    exact ⟨.overlap start stop, by rw [applyEncoded, happly]; rfl, rfl⟩
  · obtain ⟨ordered, harranged, happly, hwoven⟩ := exists_applyBytes hle hstop h
    exact ⟨ordered, harranged, by rw [applyEncoded, happly]; rfl, hwoven⟩
  · rw [applyEncoded, applyBytes, h.mergeSort_eq hperm]
    rfl
  · rintro text rfl happart hboundary
    obtain ⟨result, hresult⟩ := (applicable_of_not_overlapping hle hboundary happart).applyAll_eq_ok
    rw [String.ofList_toList] at hresult
    exact ⟨result, hresult⟩

/-- Insertions at the start of a range that is replaced come before it, in their order. -/
theorem apply_exact_insertions :
    let source := utf8 "a é b"
    let edits := [⟨2, 4, "x"⟩, insert 2 "1", insert 2 "2", delete 0 1]
    (∀ e ∈ edits, e.start ≤ e.stop) ∧ (∀ e ∈ edits, e.stop ≤ source.length) ∧ ¬ Overlapping edits ∧
      (∀ e ∈ edits, Boundary "a é b".toList e.start ∧ Boundary "a é b".toList e.stop) ∧
      (∃ ordered, Arranged edits ordered ∧ applyEncoded source edits = decode (ordered.foldr splice source) ∧
        Woven (kept edits source) ordered (ordered.foldr splice source)) ∧
      ∃ result, applyEncoded source edits = .ok result ∧ result = " 12x b" := by
  intro source edits
  have hle : ∀ e ∈ edits, e.start ≤ e.stop := by decide
  have hstop : ∀ e ∈ edits, e.stop ≤ source.length := by decide +kernel
  have happart : ¬ Overlapping edits := by decide
  have hboundary : ∀ e ∈ edits, Boundary "a é b".toList e.start ∧ Boundary "a é b".toList e.stop := by
    decide +kernel
  obtain ⟨-, hsplices, -, hreads⟩ := apply_exact hle hstop
  obtain ⟨result, hresult⟩ := hreads _ rfl happart hboundary
  refine ⟨hle, hstop, happart, hboundary, hsplices happart, result, hresult, ?_⟩
  have hsort : edits.mergeSort le = [delete 0 1, insert 2 "1", insert 2 "2", ⟨2, 4, "x"⟩] := by
    simp [edits, List.mergeSort, List.MergeSort.Internal.splitInTwo, le, insert, delete]
  have hswept : (applyFrom source 0 [delete 0 1, insert 2 "1", insert 2 "2", ⟨2, 4, "x"⟩] >>= decode).toOption =
      some " 12x b" := by decide +kernel
  rw [applyEncoded, applyBytes, hsort] at hresult
  exact Except.ok.inj (hresult.symm.trans (toOption_eq_some_iff.mp hswept))

end Exact

end Edit

end SourceChange.Source
