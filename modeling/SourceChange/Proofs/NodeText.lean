import SourceChange.Proofs.Edits.Placement
import SourceChange.Proofs.Syntax.Brackets
import SourceChange.Proofs.Text.Words

/-!
The text of a node.

The whole text is what stands before a node, its own text and what stands behind it; and in the same way
the text of a node holds those of the nodes below it. A literal starts and ends with its quotes.
-/

namespace SourceChange.Source

open Syntax Syntax.Node

theorem takeBytes_append (front rest : List Char) : takeBytes (byteSize front) (front ++ rest) = front := by
  induction front with
  | nil =>
    cases rest with
    | nil => rfl
    | cons c cs =>
      have := c.utf8Size_pos
      rw [List.nil_append, byteSize, takeBytes, if_neg (by omega)]
  | cons c front ih =>
    rw [List.cons_append, byteSize, takeBytes, if_pos (Nat.le_add_right _ _), Nat.add_sub_cancel_left, ih]

theorem sliceBytes_append (front part rest : List Char) :
    sliceBytes (byteSize front) (byteSize (front ++ part)) (front ++ (part ++ rest)) = part := by
  rw [sliceBytes, dropBytes_append, byteSize_append, Nat.add_sub_cancel_left, takeBytes_append]

namespace Tree

variable {t : Tree} {n m : Node}

theorem isIndent_of_mem_indentAt {offset : Nat} {c : Char} (hc : c ∈ (t.indentAt offset).toList) :
    Text.isIndent c = true := by
  rw [indentAt, String.toList_ofList] at hc
  exact List.mem_takeWhile_imp hc

/-- The text between two boundaries, in the whole text. -/
theorem exists_slice {start stop : Nat} (hstart : Boundary t.chars start) (hstop : Boundary t.chars stop)
    (hle : start ≤ stop) :
    ∃ front rest, t.chars = front ++ ((t.slice start stop).toList ++ rest) ∧ byteSize front = start ∧
      byteSize (front ++ (t.slice start stop).toList) = stop := by
  obtain ⟨front, part, rest, hchars, rfl, rfl⟩ := exists_parts hstart hstop hle
  have hslice : (t.slice (byteSize front) (byteSize (front ++ part))).toList = part := by
    rw [slice, String.toList_ofList, hchars, sliceBytes_append]
  exact ⟨front, rest, by rw [hslice, hchars], rfl, by rw [hslice]⟩

/-- The text of a node, in the whole text. -/
theorem Built.exists_nodeText (ht : t.Built) (hn : n ∈ t.rootD.walk) :
    ∃ front rest, t.chars = front ++ ((t.nodeText n).toList ++ rest) ∧ byteSize front = n.start ∧
      byteSize (front ++ (t.nodeText n).toList) = n.stop :=
  exists_slice (ht.regular.start n hn) (ht.regular.stop n hn) (ht.regular.start_le_stop hn)

/-- The text of a node, in that of a node above it. -/
theorem Built.exists_part (ht : t.Built) (hn : n ∈ t.rootD.walk) (hm : m ∈ n.walk) :
    ∃ u v, (t.nodeText n).toList = u ++ ((t.nodeText m).toList ++ v) ∧ n.start + byteSize u = m.start := by
  obtain ⟨front, rest, hchars, hfront, hsize⟩ := ht.exists_nodeText hn
  have hmem := mem_walk_trans hn hm
  obtain ⟨hlo, hhi⟩ := ht.regular.inside hn hm
  have hle := ht.regular.start_le_stop hmem
  generalize (t.nodeText n).toList = whole at hchars hsize
  have hwithin {offset : Nat} (h : Boundary t.chars offset) (hle : offset ≤ n.stop) :
      Boundary (front ++ whole) offset := by
    rw [hchars, ← List.append_assoc] at h
    exact boundary_front h (hsize ▸ hle)
  obtain ⟨u, v, rfl, hu⟩ := exists_of_boundary_rest (hwithin (ht.regular.start m hmem) (by omega)) (by omega)
  have hstop := hwithin (ht.regular.stop m hmem) hhi
  rw [← List.append_assoc] at hstop
  obtain ⟨part, v, rfl, hpart⟩ := exists_of_boundary_rest hstop (by omega)
  refine ⟨u, v, ?_, by rw [← hfront, ← byteSize_append, hu]⟩
  have hsplit : t.chars = front ++ u ++ (part ++ (v ++ rest)) := by simp [hchars]
  rw [nodeText, slice, String.toList_ofList, ← hu, ← hpart, hsplit, sliceBytes_append]

/-- The text of a node is the same where two texts agree up to its end. -/
theorem nodeText_eq_of_front {t' : Tree} {front rest rest' : List Char} (ht : t.Built) (hn : n ∈ t.rootD.walk)
    (hchars : t.chars = front ++ rest) (hchars' : t'.chars = front ++ rest') (hle : n.stop ≤ byteSize front)
    (hspan : m.span = n.span) : t'.nodeText m = t.nodeText n := by
  have hwithin {offset : Nat} (h : Boundary t.chars offset) (hle : offset ≤ byteSize front) :
      Boundary front offset := boundary_front (hchars ▸ h) hle
  have hordered := ht.regular.start_le_stop hn
  obtain ⟨u, part, v, rfl, hstart, hstop⟩ := exists_parts (hwithin (ht.regular.start n hn) (by omega))
    (hwithin (ht.regular.stop n hn) hle) hordered
  have hslice {t : Tree} {more : List Char} (hchars : t.chars = u ++ (part ++ v) ++ more) :
      t.slice n.start n.stop = String.ofList part := by
    rw [slice, hchars, ← hstart, ← hstop, List.append_assoc, List.append_assoc, sliceBytes_append]
  have hsame : t'.nodeText m = t'.slice n.start n.stop := by
    rw [nodeText, Node.start, Node.stop, hspan]
    rfl
  rw [hsame, nodeText, hslice hchars, hslice hchars']

/-- A literal stands between its quotes. -/
theorem Built.exists_quoted (ht : t.Built) (hn : n ∈ t.rootD.walk) (hquoted : n.kind.isQuoted = true) :
    ∃ q ∈ quoteMarks, ∃ body, (t.nodeText n).toList = q :: (body ++ [q]) := by
  obtain ⟨q, hq, last, ⟨front, rest, hchars, hfront⟩, ⟨front', rest', hchars', hlast⟩, hlt, hstop⟩ :=
    (ht.enclosed hn).quoted hquoted
  have hsize := utf8Size_of_mem_quoteMarks hq
  have hfront : byteSize front = n.start := hfront
  have hlt : n.start < last := hlt
  have hstop : n.stop = last + 1 := hstop
  -- what stands between the two quotes
  have hbehind : Boundary ((front ++ [q]) ++ rest) last := by
    rw [List.append_assoc, List.singleton_append, hchars, ← hchars']
    exact ⟨front', List.prefix_append _ _, hlast⟩
  have hopen : byteSize (front ++ [q]) = n.start + 1 := by simp [byteSize_append, byteSize, hfront, hsize]
  obtain ⟨body, v, rfl, hbody⟩ := exists_of_boundary_rest hbehind (by omega)
  obtain rfl : v = q :: rest' := by
    rw [← dropBytes_append (front ++ [q] ++ body) v, hbody, ← hlast,
      ← dropBytes_append front' (q :: rest'), hchars', ← hchars]
    simp
  have hpart : byteSize (front ++ q :: (body ++ [q])) = n.stop := by
    rw [hstop, ← hbody]
    simp [byteSize_append, byteSize, hsize]
    omega
  have hsplit : t.chars = front ++ (q :: (body ++ [q]) ++ rest') := by simp [← hchars]
  refine ⟨q, hq, body, ?_⟩
  rw [nodeText, slice, String.toList_ofList, ← hfront, ← hpart, hsplit, sliceBytes_append]

theorem isBlank_of_mem_quoteMarks {q : Char} (h : q ∈ quoteMarks) : Text.isBlank q = false := by
  simp only [quoteMarks, List.mem_cons, List.not_mem_nil, or_false] at h
  obtain rfl | rfl | rfl := h <;> rfl

theorem Built.delimited_of_isQuoted (ht : t.Built) (hn : n ∈ t.rootD.walk) (hquoted : n.kind.isQuoted = true) :
    Text.Delimited (t.nodeText n).toList := by
  obtain ⟨q, hq, body, htext⟩ := ht.exists_quoted hn hquoted
  have hsolid := isBlank_of_mem_quoteMarks hq
  rw [htext]
  refine ⟨List.cons_ne_nil _ _, by simpa using hsolid, ?_⟩
  rw [← List.cons_append, List.getLast?_concat]
  simpa using hsolid

end Tree

end SourceChange.Source
