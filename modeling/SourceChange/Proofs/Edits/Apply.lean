import Mathlib.Data.List.Perm.Basic
import SourceChange.Proofs.Syntax.Cursor
import SourceChange.Source.Edit

/-!
Applying edits to a text.

Edits are `Applicable` to a text if each replaces a range between two boundaries of characters and no two
of them overlap. They may come in any order. Such edits can always be applied, and the bytes of the result
are those of a text.
-/

namespace SourceChange.Source

open Syntax

/-- The bytes of characters. -/
def encode (cs : List Char) : List UInt8 := cs.flatMap String.utf8EncodeChar

theorem encode_append (xs ys : List Char) : encode (xs ++ ys) = encode xs ++ encode ys :=
  List.flatMap_append

theorem length_encode (cs : List Char) : (encode cs).length = byteSize cs := by
  induction cs with
  | nil => rfl
  | cons c cs ih =>
    have hcons : encode (c :: cs) = String.utf8EncodeChar c ++ encode cs := rfl
    rw [hcons, List.length_append, String.length_utf8EncodeChar, ih, byteSize]

theorem toList_loop_eq (b : ByteArray) (i : Nat) (seen : List UInt8) :
    ByteArray.toList.loop b i seen = seen.reverse ++ b.data.toList.drop i := by
  fun_induction ByteArray.toList.loop b i seen with
  | case1 i seen hlt ih =>
    have hi : i < b.data.toList.length := hlt
    rw [ih, List.drop_eq_getElem_cons hi, List.reverse_cons, List.append_assoc]
    have hget : b.get! i = b.data.toList[i] := by
      change b.data[i]! = _
      rw [getElem!_pos b.data i hlt, Array.getElem_toList]
    rw [hget]
    rfl
  | case2 i seen hge =>
    have hi : b.data.toList.length ≤ i := Nat.le_of_not_lt hge
    rw [List.drop_eq_nil_of_le hi, List.append_nil]

theorem utf8_ofList (cs : List Char) : utf8 (String.ofList cs) = encode cs := by
  change ByteArray.toList.loop (encode cs).toByteArray 0 [] = encode cs
  rw [toList_loop_eq, List.data_toByteArray]
  simp

theorem utf8_eq_encode (s : String) : utf8 s = encode s.toList := by rw [← utf8_ofList, String.ofList_toList]

theorem ofUtf8?_encode (cs : List Char) : ofUtf8? (encode cs) = some (String.ofList cs) := by
  have hbytes : (⟨(encode cs).toArray⟩ : ByteArray) = cs.utf8Encode :=
    ByteArray.ext List.data_toByteArray.symm
  have hvalid : cs.utf8Encode.IsValidUTF8 := ⟨cs, rfl⟩
  rw [ofUtf8?, hbytes, String.fromUTF8?, dif_pos hvalid]
  rfl

theorem decode_encode (cs : List Char) : decode (encode cs) = .ok (String.ofList cs) := by
  rw [decode, ofUtf8?_encode]
  rfl

theorem take_encode {text : List Char} {front rest : List Char} (h : front ++ rest = text) :
    (encode text).take (byteSize front) = encode front := by
  rw [← h, encode_append, ← length_encode, List.take_left]

/-- A boundary at the end of a front of the text or behind it lies in the rest. -/
theorem exists_of_boundary_rest {front rest : List Char} {offset : Nat} (h : Boundary (front ++ rest) offset)
    (hle : byteSize front ≤ offset) : ∃ u v, rest = u ++ v ∧ byteSize (front ++ u) = offset := by
  obtain ⟨back, ⟨v, hv⟩, rfl⟩ := h
  obtain ⟨u, rfl, hu⟩ | ⟨u, rfl, rfl⟩ := List.append_eq_append_iff.mp hv
  · -- the front goes on behind the boundary, by nothing
    obtain rfl : u = [] := by
      by_contra hne
      have := byteSize_pos hne
      rw [byteSize_append] at hle
      omega
    exact ⟨[], rest, rfl, by simp⟩
  · exact ⟨u, v, rfl, rfl⟩

theorem exists_of_boundary_front {front rest : List Char} {offset : Nat} (h : Boundary (front ++ rest) offset)
    (hle : offset ≤ byteSize front) : ∃ u v, front = u ++ v ∧ byteSize u = offset := by
  obtain ⟨back, ⟨v, hv⟩, rfl⟩ := h
  obtain ⟨u, rfl, rfl⟩ | ⟨u, rfl, rfl⟩ := List.append_eq_append_iff.mp hv
  · exact ⟨back, u, rfl, rfl⟩
  · obtain rfl : u = [] := by
      by_contra hne
      have := byteSize_pos hne
      rw [byteSize_append] at hle
      omega
    exact ⟨front, [], by simp, by simp⟩

theorem boundary_front {front rest : List Char} {offset : Nat} (h : Boundary (front ++ rest) offset)
    (hle : offset ≤ byteSize front) : Boundary front offset := by
  obtain ⟨u, v, rfl, rfl⟩ := exists_of_boundary_front h hle
  exact ⟨u, List.prefix_append u v, rfl⟩

/-- Two boundaries divide a text. -/
theorem exists_parts {text : List Char} {start stop : Nat} (hstart : Boundary text start)
    (hstop : Boundary text stop) (hle : start ≤ stop) :
    ∃ front part rest, text = front ++ (part ++ rest) ∧ byteSize front = start ∧
      byteSize (front ++ part) = stop := by
  obtain ⟨front, ⟨rest, rfl⟩, rfl⟩ := hstart
  obtain ⟨part, rest, rfl, hsize⟩ := exists_of_boundary_rest hstop hle
  exact ⟨front, part, rest, rfl, rfl, hsize⟩

/-- The bytes between two boundaries are those of the characters between them. -/
theorem drop_take_encode {text : List Char} {start stop : Nat} (hstart : Boundary text start)
    (hstop : Boundary text stop) (hle : start ≤ stop) :
    ∃ part, ((encode text).take stop).drop start = encode part := by
  obtain ⟨front, part, rest, rfl, rfl, rfl⟩ := exists_parts hstart hstop hle
  refine ⟨part, ?_⟩
  rw [take_encode (List.append_assoc ..), encode_append, ← length_encode front, List.drop_left]

theorem drop_encode {text : List Char} {start : Nat} (hstart : Boundary text start) :
    ∃ part, (encode text).drop start = encode part := by
  obtain ⟨front, ⟨rest, rfl⟩, rfl⟩ := hstart
  refine ⟨rest, ?_⟩
  rw [encode_append, ← length_encode, List.drop_left]

namespace Edit

/-- Edits that can be applied to a text. -/
structure Applicable (text : List Char) (edits : List Edit) : Prop where
  start_le_stop : ∀ e ∈ edits, e.start ≤ e.stop
  stop_le : ∀ e ∈ edits, e.stop ≤ byteSize text
  start : ∀ e ∈ edits, Boundary text e.start
  stop : ∀ e ∈ edits, Boundary text e.stop
  apart : edits.Pairwise fun a b => a.stop ≤ b.start ∨ b.stop ≤ a.start

theorem le_trans (a b c : Edit) (hab : le a b = true) (hbc : le b c = true) : le a c = true := by
  simp only [le, Bool.or_eq_true, Bool.and_eq_true, decide_eq_true_eq, beq_iff_eq] at hab hbc ⊢
  omega

theorem le_total (a b : Edit) : (le a b || le b a) = true := by
  simp only [le, Bool.or_eq_true, Bool.and_eq_true, decide_eq_true_eq, beq_iff_eq]
  omega

/-- In the order in which they are applied, each edit ends before the next one starts. -/
theorem Applicable.pairwise_mergeSort {text : List Char} {edits : List Edit} (h : Applicable text edits) :
    (edits.mergeSort le).Pairwise fun a b => a.stop ≤ b.start := by
  have hsorted := List.pairwise_mergeSort le_trans le_total edits
  have happart := ((edits.mergeSort_perm le).pairwise_iff fun hab => hab.symm).mpr h.apart
  refine (hsorted.and happart).imp_of_mem fun {a b} ha hb hab => ?_
  have := h.start_le_stop a (List.mem_mergeSort.mp ha)
  have := h.start_le_stop b (List.mem_mergeSort.mp hb)
  simp only [le, Bool.or_eq_true, Bool.and_eq_true, decide_eq_true_eq, beq_iff_eq] at hab
  omega

/-- Edits in order, from a boundary before them on, give the bytes of a text. -/
theorem applyFrom_eq_ok {text : List Char} {edits : List Edit} (hle : ∀ e ∈ edits, e.start ≤ e.stop)
    (hstart : ∀ e ∈ edits, Boundary text e.start) (hstop : ∀ e ∈ edits, Boundary text e.stop)
    (hordered : edits.Pairwise fun a b => a.stop ≤ b.start) {cursor : Nat} (hcursor : Boundary text cursor)
    (hfrom : ∀ e ∈ edits, cursor ≤ e.start) :
    ∃ cs, applyFrom (encode text) cursor edits = .ok (encode cs) := by
  induction edits generalizing cursor with
  | nil =>
    obtain ⟨part, hpart⟩ := drop_encode hcursor
    exact ⟨part, congrArg Except.ok hpart⟩
  | cons e edits ih =>
    obtain ⟨-, hle⟩ := List.forall_mem_cons.mp hle
    obtain ⟨hestart, hstart⟩ := List.forall_mem_cons.mp hstart
    obtain ⟨hestop, hstop⟩ := List.forall_mem_cons.mp hstop
    obtain ⟨hnext, hordered⟩ := List.pairwise_cons.mp hordered
    have hbefore := hfrom e List.mem_cons_self
    obtain ⟨rest, hrest⟩ := ih hle hstart hstop hordered hestop hnext
    obtain ⟨gap, hgap⟩ := drop_take_encode hcursor hestart hbefore
    refine ⟨gap ++ e.replacement.toList ++ rest, ?_⟩
    rw [applyFrom, if_neg (Nat.not_lt.mpr hbefore), hrest]
    simp only [bind, Except.bind, pure, Except.pure, hgap, utf8_eq_encode, encode_append]

theorem applyAll_of_applyBytes {text cs : List Char} {edits : List Edit}
    (h : applyBytes (encode text) edits = .ok (encode cs)) :
    applyAll (String.ofList text) edits = .ok (String.ofList cs) := by
  rw [applyAll, applyEncoded, utf8_ofList, h]
  exact decode_encode cs

/-- Applicable edits can be applied. -/
theorem Applicable.applyAll_eq_ok {text : List Char} {edits : List Edit} (h : Applicable text edits) :
    ∃ result, applyAll (String.ofList text) edits = .ok result := by
  have hmem {e : Edit} (he : e ∈ edits.mergeSort le) : e ∈ edits := List.mem_mergeSort.mp he
  obtain ⟨cs, hcs⟩ := applyFrom_eq_ok (fun e he => h.start_le_stop e (hmem he))
    (fun e he => h.start e (hmem he)) (fun e he => h.stop e (hmem he)) h.pairwise_mergeSort
    (boundary_zero text) fun e _ => Nat.zero_le _
  exact ⟨String.ofList cs, applyAll_of_applyBytes hcs⟩

theorem applyAll_nil (text : String) : applyAll text [] = .ok text := by
  have h : applyAll (String.ofList text.toList) [] = .ok (String.ofList text.toList) :=
    applyAll_of_applyBytes (by rw [applyBytes, List.mergeSort_nil]; rfl)
  rwa [String.ofList_toList] at h

theorem applyFrom_nil_encode (front rest : List Char) :
    applyFrom (encode (front ++ rest)) (byteSize front) [] = .ok (encode rest) := by
  rw [applyFrom, encode_append, ← length_encode, List.drop_left]

/-- An insertion keeps what lies between the cursor and itself. -/
theorem applyFrom_insert (front mid : List Char) (text : String) {rest cs : List Char} {edits : List Edit}
    (h : applyFrom (encode (front ++ mid ++ rest)) (byteSize (front ++ mid)) edits = .ok (encode cs)) :
    applyFrom (encode (front ++ mid ++ rest)) (byteSize front) (.insert (byteSize (front ++ mid)) text :: edits) =
      .ok (encode (mid ++ text.toList ++ cs)) := by
  have hle : ¬ byteSize (front ++ mid) < byteSize front := by
    rw [byteSize_append]
    omega
  have hmid : ((encode (front ++ mid ++ rest)).take (byteSize (front ++ mid))).drop (byteSize front) =
      encode mid := by
    rw [take_encode rfl, encode_append, ← length_encode front, List.drop_left]
  rw [applyFrom, insert, if_neg hle, h]
  simp only [bind, Except.bind, pure, Except.pure, hmid, utf8_eq_encode, encode_append (mid ++ _),
    encode_append mid]

/-- One insertion. -/
theorem applyAll_insert (front rest : List Char) (text : String) :
    applyAll (String.ofList (front ++ rest)) [.insert (byteSize front) text] =
      .ok (String.ofList (front ++ text.toList ++ rest)) := by
  refine applyAll_of_applyBytes ?_
  rw [applyBytes, List.mergeSort_singleton]
  exact applyFrom_insert [] front text (applyFrom_nil_encode front rest)

/-- One replacement. -/
theorem applyAll_replace (front part rest : List Char) (text : String) :
    applyAll (String.ofList (front ++ (part ++ rest))) [⟨byteSize front, byteSize (front ++ part), text⟩] =
      .ok (String.ofList (front ++ (text.toList ++ rest))) := by
  refine applyAll_of_applyBytes ?_
  have hrest := applyFrom_nil_encode (front ++ part) rest
  rw [List.append_assoc] at hrest
  rw [applyBytes, List.mergeSort_singleton, applyFrom, if_neg (Nat.not_lt_zero _), hrest]
  simp only [bind, Except.bind, pure, Except.pure, take_encode rfl, List.drop_zero, utf8_eq_encode]
  simp only [encode_append, List.append_assoc]

/-- Edits in order write their replacements. -/
theorem applyFrom_writes {text : List Char} {edits : List Edit} (hle : ∀ e ∈ edits, e.start ≤ e.stop)
    (hstart : ∀ e ∈ edits, Boundary text e.start) (hstop : ∀ e ∈ edits, Boundary text e.stop)
    (hordered : edits.Pairwise fun a b => a.stop ≤ b.start) {cursor : Nat} (hcursor : Boundary text cursor)
    (hfrom : ∀ e ∈ edits, cursor ≤ e.start) {w : Edit} (hw : w ∈ edits) :
    ∃ u v, applyFrom (encode text) cursor edits = .ok (encode (u ++ (w.replacement.toList ++ v))) := by
  induction edits generalizing cursor with
  | nil => cases hw
  | cons e edits ih =>
    obtain ⟨-, hle⟩ := List.forall_mem_cons.mp hle
    obtain ⟨hestart, hstart⟩ := List.forall_mem_cons.mp hstart
    obtain ⟨hestop, hstop⟩ := List.forall_mem_cons.mp hstop
    obtain ⟨hnext, hordered⟩ := List.pairwise_cons.mp hordered
    have hefrom := hfrom e List.mem_cons_self
    obtain ⟨gap, hgap⟩ := drop_take_encode hcursor hestart hefrom
    obtain ⟨rest, hrest⟩ := applyFrom_eq_ok hle hstart hstop hordered hestop hnext
    obtain rfl | hw := List.mem_cons.mp hw
    · refine ⟨gap, rest, ?_⟩
      rw [applyFrom, if_neg (Nat.not_lt.mpr hefrom), hrest]
      simp only [bind, Except.bind, pure, Except.pure, hgap, utf8_eq_encode]
      simp only [encode_append, List.append_assoc]
    · obtain ⟨u, v, hrest⟩ := ih hle hstart hstop hordered hestop hnext hw
      refine ⟨gap ++ e.replacement.toList ++ u, v, ?_⟩
      rw [applyFrom, if_neg (Nat.not_lt.mpr hefrom), hrest]
      simp only [bind, Except.bind, pure, Except.pure, hgap, utf8_eq_encode]
      simp only [encode_append, List.append_assoc]

/-- Every edit writes its replacement. -/
theorem Applicable.applyAll_writes {text : List Char} {edits : List Edit} (h : Applicable text edits) {w : Edit}
    (hw : w ∈ edits) :
    ∃ u v, applyAll (String.ofList text) edits = .ok (String.ofList (u ++ (w.replacement.toList ++ v))) := by
  have hmem {e : Edit} (he : e ∈ edits.mergeSort le) : e ∈ edits := List.mem_mergeSort.mp he
  obtain ⟨u, v, huv⟩ := applyFrom_writes (fun e he => h.start_le_stop e (hmem he))
    (fun e he => h.start e (hmem he)) (fun e he => h.stop e (hmem he)) h.pairwise_mergeSort
    (boundary_zero text) (fun e _ => Nat.zero_le _) (List.mem_mergeSort.mpr hw)
  exact ⟨u, v, applyAll_of_applyBytes huv⟩

/-- Edits in order that stay away from a part of the text leave it as it is. -/
theorem applyFrom_keeps {front part rest : List Char} {edits : List Edit}
    (hle : ∀ e ∈ edits, e.start ≤ e.stop) (hstart : ∀ e ∈ edits, Boundary (front ++ (part ++ rest)) e.start)
    (hstop : ∀ e ∈ edits, Boundary (front ++ (part ++ rest)) e.stop)
    (hordered : edits.Pairwise fun a b => a.stop ≤ b.start)
    (haway : ∀ e ∈ edits, e.stop ≤ byteSize front ∨ byteSize (front ++ part) ≤ e.start) {cursor : Nat}
    (hcursor : Boundary (front ++ (part ++ rest)) cursor) (hbefore : cursor ≤ byteSize front)
    (hfrom : ∀ e ∈ edits, cursor ≤ e.start) :
    ∃ u v, applyFrom (encode (front ++ (part ++ rest))) cursor edits = .ok (encode (u ++ (part ++ v))) := by
  induction edits generalizing cursor with
  | nil =>
    obtain ⟨f, u, rfl, rfl⟩ := exists_of_boundary_front hcursor hbefore
    refine ⟨u, rest, ?_⟩
    rw [List.append_assoc]
    exact applyFrom_nil_encode f (u ++ (part ++ rest))
  | cons e edits ih =>
    obtain ⟨hele, hle⟩ := List.forall_mem_cons.mp hle
    obtain ⟨hestart, hstart⟩ := List.forall_mem_cons.mp hstart
    obtain ⟨hestop, hstop⟩ := List.forall_mem_cons.mp hstop
    obtain ⟨hnext, hordered⟩ := List.pairwise_cons.mp hordered
    obtain ⟨heaway, haway⟩ := List.forall_mem_cons.mp haway
    have hefrom := hfrom e List.mem_cons_self
    obtain hbehind | hahead := heaway
    · obtain ⟨u, v, hrest⟩ := ih hle hstart hstop hordered haway hestop hbehind hnext
      obtain ⟨gap, hgap⟩ := drop_take_encode hcursor hestart hefrom
      refine ⟨gap ++ e.replacement.toList ++ u, v, ?_⟩
      rw [applyFrom, if_neg (Nat.not_lt.mpr hefrom), hrest]
      simp only [bind, Except.bind, pure, Except.pure, hgap, utf8_eq_encode]
      simp only [encode_append, List.append_assoc]
    · -- the part lies in the gap before the edit
      obtain ⟨cs, hcs⟩ := applyFrom_eq_ok hle hstart hstop hordered hestop hnext
      rw [← List.append_assoc] at hestart
      obtain ⟨b, r, rfl, hb⟩ := exists_of_boundary_rest hestart hahead
      obtain ⟨f, u, rfl, rfl⟩ := exists_of_boundary_front hcursor hbefore
      have htext : f ++ (u ++ (part ++ b)) ++ r = f ++ u ++ (part ++ (b ++ r)) := by simp
      have hgap : ((encode (f ++ u ++ (part ++ (b ++ r)))).take e.start).drop (byteSize f) =
          encode (u ++ (part ++ b)) := by
        have hsize : byteSize (f ++ (u ++ (part ++ b))) = e.start := by simpa using hb
        rw [← hsize, take_encode htext, encode_append, ← length_encode f, List.drop_left]
      refine ⟨u, b ++ e.replacement.toList ++ cs, ?_⟩
      rw [applyFrom, if_neg (Nat.not_lt.mpr hefrom), hcs]
      simp only [bind, Except.bind, pure, Except.pure, hgap, utf8_eq_encode]
      simp only [encode_append, List.append_assoc]

/-- Edits that stay away from a part of the text leave it as it is. -/
theorem Applicable.applyAll_keeps {front part rest : List Char} {edits : List Edit}
    (h : Applicable (front ++ (part ++ rest)) edits)
    (haway : ∀ e ∈ edits, e.stop ≤ byteSize front ∨ byteSize (front ++ part) ≤ e.start) :
    ∃ u v, applyAll (String.ofList (front ++ (part ++ rest))) edits = .ok (String.ofList (u ++ (part ++ v))) := by
  have hmem {e : Edit} (he : e ∈ edits.mergeSort le) : e ∈ edits := List.mem_mergeSort.mp he
  obtain ⟨u, v, huv⟩ := applyFrom_keeps (fun e he => h.start_le_stop e (hmem he))
    (fun e he => h.start e (hmem he)) (fun e he => h.stop e (hmem he)) h.pairwise_mergeSort
    (fun e he => haway e (hmem he)) (boundary_zero _) (Nat.zero_le _) fun e _ => Nat.zero_le _
  exact ⟨u, v, applyAll_of_applyBytes huv⟩

/-- Two insertions, of which the later one is given first. -/
theorem applyAll_insert_insert (front mid rest : List Char) (hmid : mid ≠ []) (a b : String) :
    applyAll (String.ofList (front ++ mid ++ rest))
      [.insert (byteSize (front ++ mid)) b, .insert (byteSize front) a] =
      .ok (String.ofList (front ++ a.toList ++ (mid ++ b.toList ++ rest))) := by
  have hle : le (insert (byteSize (front ++ mid)) b) (insert (byteSize front) a) = false := by
    have := byteSize_pos hmid
    simp [le, insert, byteSize_append]
    omega
  have hsort : [insert (byteSize (front ++ mid)) b, insert (byteSize front) a].mergeSort le =
      [insert (byteSize front) a, insert (byteSize (front ++ mid)) b] := by
    simp [List.mergeSort, List.MergeSort.Internal.splitInTwo, hle]
  have hlast := applyFrom_insert front mid b (applyFrom_nil_encode (front ++ mid) rest)
  refine applyAll_of_applyBytes ?_
  rw [applyBytes, hsort]
  rw [List.append_assoc] at hlast ⊢
  exact applyFrom_insert [] front a hlast

end Edit

end SourceChange.Source
