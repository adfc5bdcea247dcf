import SourceChange.Proofs.Syntax.Statements
import SourceChange.Syntax.Grammar

/-!
The tree of a text.

Every goal of the grammar is read as a node, by induction on the depth of the rules, and the comments
find their place between the nodes. So the tree of a text without syntax errors is nested, its nodes lie
on boundaries of characters and are not empty, and its blocks start with braces.
-/

namespace SourceChange.Syntax

namespace Node

variable {extra n : Node} {ns : List Node} {lo hi : Nat}

/-- Two nodes of the same kind with the same span. -/
def Resembles (n m : Node) : Prop := n.kind = m.kind ∧ n.span = m.span

theorem mem_insertAmong {m : Node} : m ∈ insertAmong extra ns ↔ m = extra ∨ m ∈ ns := by
  induction ns with
  | nil => simp [insertAmong]
  | cons n ns ih =>
    rw [insertAmong]
    split
    · simp
    · simp [ih, or_left_comm]

theorem Row.insertAmong (hrow : Row lo hi ns) (hextra : extra.Nested) (hlt : extra.start < extra.stop)
    (hlo : lo ≤ extra.start) (hhi : extra.stop ≤ hi)
    (hapart : ∀ n ∈ ns, extra.stop ≤ n.start ∨ n.stop ≤ extra.start) :
    Row lo hi (insertAmong extra ns) := by
  induction ns generalizing lo with
  | nil => exact ⟨hlo, hhi, hextra, trivial⟩
  | cons n ns ih =>
    obtain ⟨hstart, hstop, hnested, hrest⟩ := hrow
    have hle := hnested.start_le_stop
    have hside := hapart n List.mem_cons_self
    rw [Node.insertAmong]
    split
    · exact ⟨hlo, hhi, hextra, by omega, hstop, hnested, hrest⟩
    · refine ⟨hstart, hstop, hnested, ih hrest (by omega) fun m hm => ?_⟩
      exact hapart m (List.mem_cons_of_mem _ hm)

theorem contains_eq_false_of_insertBelow (h : insertBelow extra ns = none) :
    ∀ n ∈ ns, n.span.contains extra.span = false := by
  induction ns with
  | nil => simp
  | cons n ns ih =>
    rw [insertBelow] at h
    split at h
    case isTrue => cases h
    case isFalse hout =>
      have hrest := ih (Option.map_eq_none_iff.mp h)
      exact List.forall_mem_cons.mpr ⟨by simpa using hout, hrest⟩

theorem exists_of_insertBelow {ns' : List Node} (h : insertBelow extra ns = some ns') :
    ∃ before n after, ns = before ++ n :: after ∧ n.span.contains extra.span = true ∧
      ns' = before ++ insert extra n :: after := by
  induction ns generalizing ns' with
  | nil => cases h
  | cons n ns ih =>
    rw [insertBelow] at h
    split at h
    case isTrue hin =>
      cases h
      exact ⟨[], n, ns, rfl, hin, rfl⟩
    case isFalse =>
      obtain ⟨ms, hms, rfl⟩ := Option.map_eq_some_iff.mp h
      obtain ⟨before, m, after, rfl, hin, rfl⟩ := ih hms
      exact ⟨n :: before, m, after, rfl, hin, rfl⟩

theorem covers_of_contains {s : Span} (h : n.span.contains s = true) : n.Covers s := by
  simpa [Span.contains, Covers, start, stop] using h

theorem insert_kind (extra n : Node) : (insert extra n).kind = n.kind := by
  obtain ⟨k, r, s, cs⟩ := n
  rw [insert]
  split <;> rfl

theorem insert_span (extra n : Node) : (insert extra n).span = n.span := by
  obtain ⟨k, r, s, cs⟩ := n
  rw [insert]
  split <;> rfl

/-- An extra node that cuts through no node of a tree, put where it belongs, leaves the tree nested and
its nodes where they are. -/
theorem insert_nested (hn : n.Nested) (hcovers : n.Covers extra.span) (hlt : extra.start < extra.stop)
    (hleaf : extra.children = []) (hapart : ∀ m ∈ n.walk, extra.Apart m) :
    (insert extra n).Nested ∧
      ∀ m ∈ (insert extra n).walk, m = extra ∨ ∃ k ∈ n.walk, m.Resembles k := by
  induction hdepth : n.depth using Nat.strongRecOn generalizing n with
  | ind depth ih =>
    have hextra : extra.Nested := nested_iff.mpr ⟨Nat.le_of_lt hlt, by rw [hleaf]; trivial⟩
    obtain ⟨k, r, s, cs⟩ := n
    obtain ⟨hle, hrow⟩ := hn
    rw [insert]
    split
    case h_1 cs' hbelow =>
      obtain ⟨before, c, after, rfl, hin, rfl⟩ := exists_of_insertBelow hbelow
      have hc : c ∈ (mk k r s (before ++ c :: after)).children := by simp [children]
      obtain ⟨hnested, hwalk⟩ := ih c.depth (hdepth ▸ depth_child_lt hc) (hrow.of_mem (by simp)).2.2
        (covers_of_contains hin) (fun m hm => hapart m (mem_walk_of_child hc hm)) rfl
      refine ⟨⟨hle, hrow.exchange fun lo h => ?_⟩, fun m hm => ?_⟩
      · obtain ⟨hstart, hstop, -, hrest⟩ := h
        have hspan := insert_span extra c
        rw [row_cons, Node.start, Node.stop, hspan]
        exact ⟨hstart, hstop, hnested, hrest⟩
      · obtain rfl | ⟨d, hd, hm⟩ := mem_walk.mp hm
        · exact .inr ⟨_, self_mem_walk _, rfl, rfl⟩
        · obtain hd | hd | hd : d ∈ before ∨ d = insert extra c ∨ d ∈ after := by simpa [children] using hd
          · exact .inr ⟨m, mem_walk_of_child (by simp [children, hd]) hm, rfl, rfl⟩
          · subst hd
            obtain heq | ⟨k', hk', hlike⟩ := hwalk m hm
            · exact .inl heq
            · exact .inr ⟨k', mem_walk_of_child hc hk', hlike⟩
          · exact .inr ⟨m, mem_walk_of_child (by simp [children, hd]) hm, rfl, rfl⟩
    case h_2 hnone =>
      have hout := contains_eq_false_of_insertBelow hnone
      refine ⟨⟨hle, hrow.insertAmong hextra hlt hcovers.1 hcovers.2 fun c hc => ?_⟩, fun m hm => ?_⟩
      · rcases hapart c (child_mem_walk hc) with hbefore | ⟨hstart, hstop⟩ | hafter
        · exact .inl hbefore
        · have hin : c.span.contains extra.span = true := by
            simpa [Span.contains] using ⟨hstart, hstop⟩
          simp [hout c hc] at hin
        · exact .inr hafter
      · obtain rfl | ⟨d, hd, hm⟩ := mem_walk.mp hm
        · exact .inr ⟨_, self_mem_walk _, rfl, rfl⟩
        · obtain heq | hd := mem_insertAmong.mp hd
          · obtain hself | ⟨e, he, -⟩ := mem_walk.mp hm
            · exact .inl (hself.trans heq)
            · rw [heq, hleaf] at he
              cases he
          · exact .inr ⟨m, mem_walk_of_child hd hm, rfl, rfl⟩

end Node

/-- What is known of the tree of a text. -/
structure Node.Regular (text : List Char) (root : Node) : Prop where
  nested : root.Nested
  start : ∀ n ∈ root.walk, Boundary text n.start
  stop : ∀ n ∈ root.walk, Boundary text n.stop
  brace : ∀ n ∈ root.walk, n.is .statementBlock = true → BraceAt text n.start

/-- In a tree that has more than its root every node covers some text. -/
def Node.Solid (root : Node) : Prop := root.children ≠ [] → ∀ n ∈ root.walk, n.start < n.stop

/-- What a text without syntax errors is read as, by any parser that is used here: a regular and solid program
whose nodes start and end as their kinds ask for. -/
structure Parses (text : List Char) (root : Node) : Prop where
  program : root.kind = .construct .program
  regular : root.Regular text
  solid : root.Solid
  enclosed : ∀ n ∈ root.walk, n.Enclosed text

namespace Grammar

variable {text : List Char}

theorem run_element_role (elements : Bool) (depth : Nat) :
    Parse.Ensures (run elements depth (.element true)) (·.role = none) := by
  cases depth with
  | zero => exact .failure
  | succ depth => exact Rules.elementRule_role true

theorem run_adds (elements : Bool) (depth : Nat) (goal : Goal) :
    Parse.AddsNode text (run elements depth goal) := by
  induction depth generalizing goal with
  | zero => exact .failure
  | succ depth ih =>
    -- a rule may ask for any other, with a smaller bound
    have hg : Rules.Adds text ⟨elements, run elements depth⟩ := ih
    cases goal with
    | statement => exact Rules.statementRule_adds hg
    | block place => exact Rules.blockRule_adds hg place
    | exportation => exact Rules.exportRule_adds hg
    | operand pending => exact Rules.operandRule_adds hg pending
    | sequence => exact Rules.sequenceRule_adds hg
    | pattern => exact Rules.patternRule_adds hg
    | type pending => exact Rules.typeRule_adds hg pending
    | element inner => exact Rules.elementRule_adds hg (run_element_role elements depth) inner

theorem hashBang_adds : Parse.AddsNode text hashBang := by
  refine .leaf (fun cs t r h => ?_) (by decide)
  split at h
  case h_1 =>
    cases h
    exact ⟨by simp [List.takeWhile_append_dropWhile], by simp⟩
  case h_2 => cases h

theorem statements_adds (elements : Bool) (depth : Nat) :
    Parse.AddsNodes text (statements elements depth) :=
  .bind hashBang_adds.opt1 fun first => .bind (run_adds elements depth _).many1 fun body => .pure (by simp)

theorem withComments_kind (root : Node) (comments : List Node) : (withComments root comments).kind = root.kind := by
  induction comments with
  | nil => rfl
  | cons e comments ih => exact (Node.insert_kind e _).trans ih

theorem withComments_span (root : Node) (comments : List Node) : (withComments root comments).span = root.span := by
  induction comments with
  | nil => rfl
  | cons e comments ih => exact (Node.insert_span e _).trans ih

/-- The root of a text that is read is a program. -/
theorem parse?_kind {grammar : Grammar} {root : Node} (h : grammar.parse? text = some root) :
    root.kind = .construct .program := by
  unfold parse? at h
  split at h
  case h_1 =>
    dsimp only at h
    split at h
    case isTrue =>
      cases h
      rw [withComments_kind]
      rfl
    case isFalse => cases h
  case h_2 => cases h

/-- Comments in their order that cut through no node of a tree leave the tree nested. -/
theorem withComments_nested {root : Node} (hroot : root.Nested) {comments : List Node}
    (hextra : ∀ e ∈ comments, e.start < e.stop ∧ e.children = [] ∧ root.Covers e.span)
    (hordered : comments.Pairwise fun later earlier => earlier.stop ≤ later.start)
    (hapart : ∀ e ∈ comments, ∀ n ∈ root.walk, e.Apart n) :
    (withComments root comments).Nested ∧ ∀ m ∈ (withComments root comments).walk,
      ∃ n, (n ∈ comments ∨ n ∈ root.walk) ∧ m.Resembles n := by
  induction comments with
  | nil => exact ⟨hroot, fun m hm => ⟨m, .inr hm, rfl, rfl⟩⟩
  | cons e comments ih =>
    obtain ⟨⟨hlt, hleaf, hcovers⟩, hextra⟩ := List.forall_mem_cons.mp hextra
    obtain ⟨hlater, hordered⟩ := List.pairwise_cons.mp hordered
    obtain ⟨hapart, hothers⟩ := List.forall_mem_cons.mp hapart
    obtain ⟨hnested, hwalk⟩ := ih hextra hordered hothers
    have hspan := withComments_span root comments
    have hcovers' : (withComments root comments).Covers e.span := by
      rwa [Node.Covers, Node.start, Node.stop, hspan]
    have hapart' : ∀ m ∈ (withComments root comments).walk, e.Apart m := by
      intro m hm
      obtain ⟨n, hn | hn, hlike⟩ := hwalk m hm
      · have hside : e.Apart n := .inr (.inr (hlater n hn))
        exact hside.congr hlike.2
      · exact (hapart n hn).congr hlike.2
    obtain ⟨hresult, hmembers⟩ := Node.insert_nested hnested hcovers' hlt hleaf hapart'
    refine ⟨hresult, fun m hm => ?_⟩
    obtain rfl | ⟨n, hn, hlike⟩ := hmembers m hm
    · exact ⟨m, .inl List.mem_cons_self, rfl, rfl⟩
    · obtain ⟨k, hk, hlike'⟩ := hwalk n hn
      exact ⟨k, hk.imp_left (List.mem_cons_of_mem e), hlike.1.trans hlike'.1, hlike.2.trans hlike'.2⟩

theorem foldl_min_le (a : Nat) (xs : List Nat) : xs.foldl min a ≤ a ∧ ∀ x ∈ xs, xs.foldl min a ≤ x := by
  induction xs generalizing a with
  | nil => simp
  | cons y xs ih =>
    obtain ⟨hle, hall⟩ := ih (min a y)
    rw [List.foldl_cons, List.forall_mem_cons]
    exact ⟨by omega, by omega, hall⟩

theorem foldl_min_mem (a : Nat) (xs : List Nat) : xs.foldl min a = a ∨ xs.foldl min a ∈ xs := by
  induction xs generalizing a with
  | nil => exact .inl rfl
  | cons y xs ih =>
    rw [List.foldl_cons, List.mem_cons]
    obtain heq | hmem := ih (min a y)
    · rw [heq]
      omega
    · exact .inr (.inr hmem)

/-- What holds of the nodes of a tree and of the comments, by kind and span, holds of both together. -/
theorem withComments_forall {P : Kind → Span → Prop} {root : Node} {comments : List Node}
    (hwalk : ∀ m ∈ (withComments root comments).walk,
      ∃ n, (n ∈ comments ∨ n ∈ root.walk) ∧ m.Resembles n)
    (hroot : ∀ n ∈ root.walk, P n.kind n.span) (hcomments : ∀ e ∈ comments, P e.kind e.span) :
    ∀ m ∈ (withComments root comments).walk, P m.kind m.span := by
  intro m hm
  obtain ⟨n, hn | hn, hkind, hspan⟩ := hwalk m hm
  · rw [hkind, hspan]
    exact hcomments n hn
  · rw [hkind, hspan]
    exact hroot n hn

theorem program_regular {body : List Node} {first : Nat} (hfirst : Boundary text first)
    (hrow : Node.Row first (byteSize text) body) (hproper : ∀ n ∈ body, ∀ m ∈ n.walk, m.Proper text) :
    (Node.mk Construct.program none ⟨first, byteSize text⟩ body).Regular text := by
  refine ⟨⟨hfirst.le, hrow⟩, fun n hn => ?_, fun n hn => ?_, fun n hn => ?_⟩
  all_goals obtain rfl | ⟨m, hm, hn⟩ := Node.mem_walk.mp hn
  · exact hfirst
  · exact (hproper m hm n hn).start
  · exact boundary_byteSize text
  · exact (hproper m hm n hn).stop
  · exact fun hblock => by cases hblock
  · exact (hproper m hm n hn).brace

/-- Everything that was read up to the end of the text, with the comments. -/
theorem whole_regular {c : Cursor} {body : List Node} (hread : (Cursor.ofChars text).Reaches text c body)
    {first : Nat} (hfirst : Boundary text first) (hstarts : ∀ n ∈ body ++ c.comments, first ≤ n.start) :
    (withComments (.mk Construct.program none ⟨first, byteSize text⟩ body) c.comments).Regular text ∧
      (withComments (.mk Construct.program none ⟨first, byteSize text⟩ body) c.comments).Solid := by
  have hrow : Node.Row first (byteSize text) body := by
    have hrow := hread.row.mono (Nat.le_refl _) hread.good.last_boundary.le
    cases body with
    | nil => trivial
    | cons n body => exact ⟨hstarts n (by simp), hrow.2⟩
  have hbody (n : Node) (hn : n ∈ body) (m : Node) (hm : m ∈ n.walk) : m.Proper text :=
    (hread.proper n hn m hm).1
  have hextra (e : Node) (he : e ∈ c.comments) : e.Proper text := (hread.good.extras e he).1
  have hbase := program_regular hfirst hrow hbody
  have hcovers (e : Node) (he : e ∈ c.comments) :
      (Node.mk Construct.program none ⟨first, byteSize text⟩ body).Covers e.span :=
    ⟨hstarts e (by simp [he]), (hextra e he).stop.le⟩
  obtain ⟨hnested, hwalk⟩ := withComments_nested hbase.nested
    (fun e he => ⟨(hextra e he).start_lt, (hread.good.extras e he).2.1, hcovers e he⟩)
    hread.good.ordered fun e he n hn => by
      obtain rfl | ⟨m, hm, hn⟩ := Node.mem_walk.mp hn
      · exact .inr (.inl (hcovers e he))
      · exact (hread.proper m hm n hn).2 e he
  refine ⟨⟨hnested, ?_, ?_, ?_⟩, fun hchildren => ?_⟩
  · exact withComments_forall (P := fun _ s => Boundary text s.start) hwalk hbase.start
      fun e he => (hextra e he).start
  · exact withComments_forall (P := fun _ s => Boundary text s.stop) hwalk hbase.stop
      fun e he => (hextra e he).stop
  · exact withComments_forall
      (P := fun k s => (k == .construct .statementBlock) = true → BraceAt text s.start) hwalk hbase.brace
      fun e he => (hextra e he).brace
  · -- the program is not empty, since it has a part that is not
    have hlt : first < byteSize text := by
      obtain ⟨n, hn⟩ : ∃ n, n ∈ body ++ c.comments := by
        refine List.exists_mem_of_ne_nil _ fun hnil => hchildren ?_
        obtain ⟨rfl, hnone⟩ := List.append_eq_nil_iff.mp hnil
        rw [hnone]
        rfl
      have hn' : n.Proper text := by
        obtain hn | hn := List.mem_append.mp hn
        · exact hbody n hn n n.self_mem_walk
        · exact hextra n hn
      have := hstarts n hn
      have := hn'.start_lt
      have := hn'.stop.le
      omega
    refine withComments_forall (P := fun _ s => s.start < s.stop) hwalk (fun n hn => ?_)
      fun e he => (hextra e he).start_lt
    obtain rfl | ⟨m, hm, hn⟩ := Node.mem_walk.mp hn
    · exact hlt
    · exact (hbody m hm n hn).start_lt

/-- A text without syntax errors is read as a row of nodes up to its end. The program starts where the
first of its nodes and comments does. -/
theorem exists_read {grammar : Grammar} {root : Node} (h : grammar.parse? text = some root) :
    ∃ body c first, (Cursor.ofChars text).Reaches text c body ∧ Boundary text first ∧
      (∀ n ∈ body ++ c.comments, first ≤ n.start) ∧
      root = withComments (.mk Construct.program none ⟨first, byteSize text⟩ body) c.comments := by
  unfold parse? at h
  split at h
  case h_2 => cases h
  case h_1 body c hbody =>
    dsimp only at h
    split at h
    case isFalse => cases h
    case isTrue hend =>
      cases h
      have hread : (Cursor.ofChars text).Reaches text c body :=
        statements_adds _ _ (Cursor.good_ofChars text) hbody
      have hall := hread.then_nothing hread.good.skip
      obtain ⟨-, hstarts⟩ := foldl_min_le (byteSize text) ((body ++ c.skip.comments).map Node.start)
      refine ⟨body, c.skip, _, hall, ?_, fun n hn => hstarts _ (List.mem_map_of_mem hn), rfl⟩
      obtain heq | hmem := foldl_min_mem (byteSize text) ((body ++ c.skip.comments).map Node.start)
      · rw [heq]
        exact boundary_byteSize text
      · obtain ⟨n, hn, heq⟩ := List.mem_map.mp hmem
        rw [← heq]
        obtain hn | hn := List.mem_append.mp hn
        · exact (hall.proper n hn n n.self_mem_walk).1.start
        · exact (hall.good.extras n hn).1.start

/-- The tree of a text without syntax errors. -/
theorem parse?_regular {grammar : Grammar} {root : Node} (h : grammar.parse? text = some root) :
    root.Regular text ∧ root.Solid := by
  obtain ⟨body, c, first, hread, hfirst, hstarts, rfl⟩ := exists_read h
  exact whole_regular hread hfirst hstarts

end Grammar

namespace Node

variable {extra n : Node}

/-- What a node shows to its parent. -/
def label (n : Node) : Kind × Option Role × Span := (n.kind, n.role, n.span)

theorem insert_label (extra n : Node) : (insert extra n).label = n.label := by
  obtain ⟨k, r, s, cs⟩ := n
  rw [insert]
  split <;> rfl

/-- Children among which some more without a role may have come. -/
def Widens (cs cs' : List Node) : Prop :=
  ∃ front more back, cs.map label = front ++ back ∧ cs'.map label = front ++ more ++ back ∧
    ∀ l ∈ more, l.2.1 = none

theorem Widens.exists_mem {cs cs' : List Node} (h : Widens cs cs') {b : Node} (hb : b ∈ cs) :
    ∃ b' ∈ cs', b'.label = b.label := by
  obtain ⟨front, more, back, hcs, hcs', -⟩ := h
  have hmem : b.label ∈ cs'.map label := by
    have hb := List.mem_map_of_mem (f := label) hb
    rw [hcs] at hb
    rw [hcs']
    simp only [List.mem_append] at hb ⊢
    exact hb.imp_left .inl
  obtain ⟨b', hb', heq⟩ := List.mem_map.mp hmem
  exact ⟨b', hb', heq⟩

/-- The first child in a role shows the same as before. -/
theorem Widens.find?_role {cs cs' : List Node} (h : Widens cs cs') (r : Role) :
    (cs'.find? (·.role == some r)).map label = (cs.find? (·.role == some r)).map label := by
  obtain ⟨front, more, back, hcs, hcs', hmore⟩ := h
  have hlabels (ns : List Node) :
      (ns.find? (·.role == some r)).map label = (ns.map label).find? (·.2.1 == some r) := by
    rw [List.find?_map]
    rfl
  have hnone : more.find? (·.2.1 == some r) = none :=
    List.find?_eq_none.mpr fun l hl => by simp [hmore l hl]
  rw [hlabels, hlabels, hcs, hcs']
  simp [List.find?_append, hnone]

theorem widens_insertAmong (hextra : extra.role = none) (cs : List Node) :
    Widens cs (insertAmong extra cs) := by
  have hmore : ∀ l ∈ [extra.label], l.2.1 = none := List.forall_mem_singleton.mpr hextra
  induction cs with
  | nil => exact ⟨[], [extra.label], [], rfl, rfl, hmore⟩
  | cons n ns ih =>
    rw [insertAmong]
    split
    · exact ⟨[], [extra.label], (n :: ns).map label, rfl, rfl, hmore⟩
    · obtain ⟨front, more, back, hns, hns', hmore⟩ := ih
      exact ⟨n.label :: front, more, back, by simp [hns], by simp [hns'], hmore⟩

/-- What holds of all nodes, and stays with a node among whose children more come, still holds after a
comment was put where it belongs. -/
theorem insert_forall {P : Node → Prop} (hextra : extra.role = none)
    (hstays : ∀ k r s cs cs', Widens cs cs' → P (mk k r s cs) → P (mk k r s cs'))
    (hn : ∀ m ∈ n.walk, P m) (hcomment : ∀ m ∈ extra.walk, P m) : ∀ m ∈ (insert extra n).walk, P m := by
  induction hdepth : n.depth using Nat.strongRecOn generalizing n with
  | ind depth ih =>
    obtain ⟨k, r, s, cs⟩ := n
    have hself := hn _ (self_mem_walk _)
    have hchild (c : Node) (hc : c ∈ cs) : ∀ m ∈ c.walk, P m := fun m hm => hn m (mem_walk_of_child hc hm)
    rw [insert]
    split
    case h_1 cs' hbelow =>
      obtain ⟨before, c, after, rfl, -, rfl⟩ := exists_of_insertBelow hbelow
      have hc : c ∈ before ++ c :: after := by simp
      have hc' := ih c.depth (hdepth ▸ depth_child_lt hc) (hchild c hc) rfl
      intro m hm
      obtain rfl | ⟨d, hd, hm⟩ := mem_walk.mp hm
      · have hsame : Widens (before ++ c :: after) (before ++ insert extra c :: after) :=
          ⟨(before ++ c :: after).map label, [], [], by simp, by simp [insert_label], List.forall_mem_nil _⟩
        exact hstays _ _ _ _ _ hsame hself
      · obtain hd | rfl | hd : d ∈ before ∨ d = insert extra c ∨ d ∈ after := by simpa [children] using hd
        · exact hchild d (by simp [hd]) m hm
        · exact hc' m hm
        · exact hchild d (by simp [hd]) m hm
    case h_2 =>
      intro m hm
      obtain rfl | ⟨d, hd, hm⟩ := mem_walk.mp hm
      · exact hstays _ _ _ _ _ (widens_insertAmong hextra cs) hself
      · obtain heq | hd := mem_insertAmong.mp hd
        · exact hcomment m (heq ▸ hm)
        · exact hchild d hd m hm

/-- More children without a role leave the ends of a node as they are. -/
theorem Enclosed.widen {text : List Char} {k : Kind} {r : Option Role} {s : Span} {cs cs' : List Node}
    (hwidens : Widens cs cs') (h : (Node.mk k r s cs).Enclosed text) : (Node.mk k r s cs').Enclosed text where
  brace := h.brace
  opens hbracketed := by
    obtain ⟨b, hb, htoken, hstart, hlt, hstop⟩ := h.opens hbracketed
    obtain ⟨b', hb', hlabel⟩ := hwidens.exists_mem hb
    simp only [label, Prod.mk.injEq] at hlabel
    obtain ⟨hkind, -, hspan⟩ := hlabel
    refine ⟨b', hb', by rwa [hkind], ?_⟩
    rw [start, stop, hspan]
    exact ⟨hstart, hlt, hstop⟩
  quoted := h.quoted
  tagged helement := by
    obtain ⟨hstart, hstop⟩ := h.tagged helement
    have hspans (r : Role) :
        (cs'.find? (·.role == some r)).map span = (cs.find? (·.role == some r)).map span := by
      simpa [Function.comp_def, label] using congrArg (Option.map (·.2.2)) (hwidens.find?_role r)
    constructor
    · have hopen := congrArg (Option.map Span.start) (hspans .openTag)
      rw [Option.map_map, Option.map_map] at hopen
      exact hopen.trans hstart
    · have hclose := congrArg (Option.map Span.stop) (hspans .closeTag)
      rw [Option.map_map, Option.map_map] at hclose
      exact hclose.trans hstop

end Node

namespace Grammar

variable {text : List Char}

theorem withComments_enclosed {root : Node} {comments : List Node}
    (hroot : ∀ n ∈ root.walk, n.Enclosed text)
    (hcomments : ∀ e ∈ comments, e.role = none ∧ ∀ n ∈ e.walk, n.Enclosed text) :
    ∀ n ∈ (withComments root comments).walk, n.Enclosed text := by
  induction comments with
  | nil => exact hroot
  | cons e comments ih =>
    obtain ⟨⟨hrole, he⟩, hcomments⟩ := List.forall_mem_cons.mp hcomments
    exact Node.insert_forall hrole (fun _ _ _ _ _ => Node.Enclosed.widen) (ih hcomments) he

/-- The nodes of a text without syntax errors start and end as their kinds ask for. -/
theorem parse?_enclosed {grammar : Grammar} {root : Node} (h : grammar.parse? text = some root) :
    ∀ n ∈ root.walk, n.Enclosed text := by
  obtain ⟨body, c, first, hread, -, -, rfl⟩ := exists_read h
  refine withComments_enclosed (fun n hn => ?_) fun e he => ⟨hread.good.roles e he, fun n hn => ?_⟩
  · obtain rfl | ⟨m, hm, hn⟩ := Node.mem_walk.mp hn
    · exact Node.enclosed_of_plain rfl
    · exact (hread.proper m hm n hn).1.toEnclosed
  · obtain ⟨hproper, hleaf, -⟩ := hread.good.extras e he
    obtain rfl | ⟨m, hm, -⟩ := Node.mem_walk.mp hn
    · exact hproper.toEnclosed
    · rw [hleaf] at hm
      cases hm

/-- Every grammar reads texts in this way. -/
theorem parse?_parses {grammar : Grammar} {root : Node} (h : grammar.parse? text = some root) : Parses text root :=
  ⟨parse?_kind h, (parse?_regular h).1, (parse?_regular h).2, parse?_enclosed h⟩

end Grammar

end SourceChange.Syntax
