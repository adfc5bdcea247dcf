import SourceChange.Proofs.Syntax.Cursor
import SourceChange.Syntax.Parse

/-!
Parsers that read rows of nodes.

`Parse.Adds p view` says that the nodes of a result of `p`, as `view` gives them, were read from the
position of the cursor on. `Parse.Follows ns p view` says the same of a parser that runs after the nodes
`ns` were read, and whose result takes them along. There is one rule for each combinator, so that a rule
of the grammar is checked by going through it from top to bottom.
-/

namespace SourceChange.Syntax

/-- A reader of tokens takes a part of the text, which is not empty, from its front. -/
def Reads (read : List Char → Option (List Char × List Char)) : Prop :=
  ∀ ⦃cs t r : List Char⦄, read cs = some (t, r) → t ++ r = cs ∧ t ≠ []

theorem afterPrefix?_eq_some {t cs r : List Char} (h : afterPrefix? t cs = some r) : t ++ r = cs := by
  induction t generalizing cs with
  | nil =>
    cases h
    rfl
  | cons p ps ih =>
    cases cs with
    | nil => cases h
    | cons c cs =>
      rw [afterPrefix?] at h
      split at h
      case isTrue heq =>
        subst heq
        rw [List.cons_append, ih h]
      case isFalse => cases h

theorem blockEnd?_eq_some {cs t r : List Char} (h : blockEnd? cs = some (t, r)) : t ++ r = cs := by
  induction cs using blockEnd?.induct generalizing t with
  | case1 => cases h
  | case2 r' =>
    cases h
    rfl
  | case3 c r' hstop ih =>
    rw [blockEnd?.eq_3 c r' hstop, Option.map_eq_some_iff] at h
    obtain ⟨⟨t', r''⟩, hend, heq⟩ := h
    cases heq
    rw [List.cons_append, ih hend]

theorem comment?_reads : Reads comment? := by
  intro cs t r h
  unfold comment? at h
  split at h
  case h_1 =>
    cases h
    exact ⟨by simp [List.takeWhile_append_dropWhile], by simp⟩
  case h_2 =>
    rw [Option.map_eq_some_iff] at h
    obtain ⟨⟨t', r'⟩, hend, heq⟩ := h
    cases heq
    exact ⟨by simp [blockEnd?_eq_some hend], by simp⟩
  case h_3 => cases h

theorem htmlComment?_reads : Reads htmlComment? := by
  intro cs t r h
  unfold htmlComment? at h
  dsimp only at h
  split at h
  case h_1 =>
    cases h
    exact ⟨List.takeWhile_append_dropWhile, by simp⟩
  case h_2 =>
    cases h
    exact ⟨List.takeWhile_append_dropWhile, by simp⟩
  case h_3 => cases h

theorem exactly_reads {t : List Char} (ht : t ≠ []) : Reads (Parse.exactly t) := by
  intro cs t' r h
  obtain ⟨r', hafter, heq⟩ := Option.map_eq_some_iff.mp h
  cases heq
  exact ⟨afterPrefix?_eq_some hafter, ht⟩

theorem Reads.filter {read : List Char → Option (List Char × List Char)} (h : Reads read)
    (keep : List Char × List Char → Bool) : Reads fun cs => (read cs).filter keep :=
  fun _ _ _ hread => h (Option.filter_eq_some_iff.mp hread).1

theorem nameRun_append (known : Nat) (cs : List Char) :
    (nameRun known cs).1 ++ (nameRun known cs).2 = cs := by
  induction cs generalizing known with
  | nil => rfl
  | cons c cs ih =>
    rw [nameRun.eq_def]
    cases known with
    | succ n => simp [ih]
    | zero =>
      dsimp only
      split
      · simp [ih]
      · split
        · simp [ih]
        · rfl

theorem name?_reads : Reads name? := by
  intro cs t r h
  cases cs with
  | nil => cases h
  | cons c cs =>
    rw [name?] at h
    split at h
    case isFalse => cases h
    case isTrue hstart =>
      have hrun : nameRun 0 (c :: cs) = (t, r) := Option.some.inj h
      have happend := nameRun_append 0 (c :: cs)
      rw [hrun] at happend
      refine ⟨happend, ?_⟩
      rintro rfl
      -- the first character belongs to the name, or starts an escape that does
      rw [nameRun] at hrun
      split at hrun
      · cases hrun
      · split at hrun
        · cases hrun
        case h_2 hchar _ hescape =>
          have hno : isNameStart c = false := by simp [isNameStart, hchar]
          simp [hno, hescape] at hstart

namespace Cursor

variable {text : List Char} {c c' : Cursor}

/-- A comment is passed, and then nothing is read. -/
theorem Good.skip_after (h : c.Good text) {kind : Construct} {taken rest : List Char}
    (hrest : taken ++ rest = c.rest) (htaken : taken ≠ []) (hkind : (Kind.construct kind).isEnclosed = false)
    (hnext : (c.pastExtra kind taken rest).Good text →
      (c.pastExtra kind taken rest).Reaches text c' []) : c.Reaches text c' [] :=
  have hpast := h.pastExtra hrest htaken hkind
  hpast.then_nothing (hnext hpast.good)

theorem Good.skipFrom (h : c.Good text) (n : Nat) : c.Reaches text (skipFrom n c) [] := by
  induction n generalizing c with
  | zero => exact h.reaches_refl
  | succ n ih =>
    rw [Cursor.skipFrom]
    split
    case h_1 => exact h.reaches_refl
    case h_2 x r hrest =>
      split
      · have hpast := h.past (show [x] ++ r = c.rest from hrest.symm)
        exact hpast.then_nothing (ih hpast.good)
      · split
        case h_1 t r' hcomment =>
          obtain ⟨htext, hne⟩ := comment?_reads hcomment
          exact h.skip_after (htext.trans hrest.symm) hne (by decide) ih
        case h_2 =>
          split
          · exact h.reaches_refl
          · split
            case h_1 t r' hcomment =>
              obtain ⟨htext, hne⟩ := htmlComment?_reads hcomment
              exact h.skip_after (htext.trans hrest.symm) hne (by decide) ih
            case h_2 => exact h.reaches_refl

theorem Good.skip (h : c.Good text) : c.Reaches text c.skip [] := h.skipFrom c.size

theorem Good.skipDirectFrom (h : c.Good text) (n : Nat) : c.Reaches text (skipDirectFrom n c) [] := by
  induction n generalizing c with
  | zero => exact h.reaches_refl
  | succ n ih =>
    rw [Cursor.skipDirectFrom]
    split
    case h_1 t r hcomment =>
      obtain ⟨htext, hne⟩ := comment?_reads hcomment
      exact h.skip_after htext hne (by decide) ih
    case h_2 => exact h.reaches_refl

theorem Good.skipCommentsFrom (h : c.Good text) (blank : Char → Bool) (n : Nat) :
    c.Reaches text (skipCommentsFrom blank n c) [] := by
  induction n generalizing c with
  | zero => exact h.reaches_refl
  | succ n ih =>
    rw [Cursor.skipCommentsFrom]
    split
    case h_1 t r hcomment =>
      obtain ⟨htext, hne⟩ := comment?_reads hcomment
      have hblanks := h.past (List.takeWhile_append_dropWhile (p := blank) (l := c.rest))
      exact hblanks.then_nothing (hblanks.good.skip_after htext hne (by decide) ih)
    case h_2 => exact h.reaches_refl

theorem Good.lineEndFrom (h : c.Good text) {rule : BreakRule} {n : Nat}
    (hend : lineEndFrom rule n c = some c') : c.Reaches text c' [] := by
  induction n generalizing c with
  | zero => cases hend
  | succ n ih =>
    rw [Cursor.lineEndFrom] at hend
    split at hend
    · cases hend
      exact h.reaches_refl
    · dsimp only at hend
      split at hend
      case h_1 t r hcomment =>
        obtain ⟨htext, hne⟩ := comment?_reads hcomment
        have hblanks := h.past (List.takeWhile_append_dropWhile (p := isLineSpace) (l := c.rest))
        have hkind : (Kind.construct .comment).isEnclosed = false := rfl
        have hcomment := hblanks.good.pastExtra htext hne hkind
        have hend := ih hcomment.good.upToHere.good hend
        exact hblanks.then_nothing (hcomment.then_nothing (hcomment.good.upToHere.then_nothing hend))
      case h_2 => cases hend

end Cursor

namespace Parse

variable {α β : Type} {text : List Char}

/-- After the nodes `ns` were read, the result of `p` holds them and what `p` reads. -/
def Follows (text : List Char) (ns : List Node) (p : Parse α) (view : α → List Node) : Prop :=
  ∀ ⦃c₀ c : Cursor⦄ ⦃a : α⦄ ⦃c' : Cursor⦄, c₀.Reaches text c ns → p c = some (a, c') →
    c₀.Reaches text c' (view a)

/-- The result of `p` holds what `p` reads. -/
def Adds (text : List Char) (p : Parse α) (view : α → List Node) : Prop :=
  ∀ ⦃c : Cursor⦄ ⦃a : α⦄ ⦃c' : Cursor⦄, c.Good text → p c = some (a, c') → c.Reaches text c' (view a)

/-- The result of `p` holds no node. -/
abbrev AddsNothing (text : List Char) (p : Parse α) : Prop := Adds text p fun _ => []

/-- The result of `p` is a node. -/
abbrev AddsNode (text : List Char) (p : Parse Node) : Prop := Adds text p fun n => [n]

/-- The result of `p` is a row of nodes. -/
abbrev AddsNodes (text : List Char) (p : Parse (List Node)) : Prop := Adds text p id

variable {p q : Parse α} {f : α → Parse β} {ns : List Node} {view : α → List Node}
  {viewAll : β → List Node}

theorem Adds.of_follows (h : Follows text [] p view) : Adds text p view :=
  fun _ _ _ hgood hp => h hgood.reaches_refl hp

theorem bind_eq_some {c c'' : Cursor} {b : β} (h : (p >>= f) c = some (b, c'')) :
    ∃ a c', p c = some (a, c') ∧ f a c' = some (b, c'') := by
  change (p c).bind (fun x => f x.1 x.2) = some (b, c'') at h
  obtain ⟨⟨a, c'⟩, hp, hf⟩ := Option.bind_eq_some_iff.mp h
  exact ⟨a, c', hp, hf⟩

/-- What is known of a result whatever was read. -/
def Ensures (p : Parse α) (P : α → Prop) : Prop :=
  ∀ ⦃c : Cursor⦄ ⦃a : α⦄ ⦃c' : Cursor⦄, p c = some (a, c') → P a

namespace Ensures

variable {P : α → Prop} {Q : β → Prop}

protected theorem bind (hf : ∀ a, Ensures (f a) Q) : Ensures (p >>= f) Q := by
  intro c b c'' h
  obtain ⟨a, c', -, hfc⟩ := bind_eq_some h
  exact hf a hfc

protected theorem pure {a : α} (ha : P a) : Ensures (pure a) P := by
  intro c b c' h
  cases h
  exact ha

protected theorem orElse (hp : Ensures p P) (hq : Ensures q P) : Ensures (p <|> q) P := by
  intro c a c' h
  change (p c <|> q c) = some (a, c') at h
  cases hpc : p c with
  | none =>
    rw [hpc] at h
    exact hq h
  | some r =>
    rw [hpc] at h
    cases h
    exact hp hpc

protected theorem failure : Ensures (failure : Parse α) P := fun _ _ _ h => by cases h

protected theorem within (hp : Ensures p P) (f : Mode → Mode) : Ensures (within f p) P := by
  intro c a c' h
  obtain ⟨⟨b, c₁⟩, hpc, heq⟩ := Option.map_eq_some_iff.mp h
  cases heq
  exact hp hpc

/-- A node that was just read has no role. -/
protected theorem node (kind : Kind) (parts : List Node) : Ensures (node kind parts) (·.role = none) := by
  intro c n c' h
  cases h
  rfl

protected theorem leafHere (kind : Kind) (read : List Char → Option (List Char × List Char)) :
    Ensures (leafHere kind read) (·.role = none) := by
  intro c n c' h
  unfold Parse.leafHere at h
  split at h
  case h_1 =>
    cases h
    rfl
  case h_2 => cases h

protected theorem leaf (kind : Kind) (read : List Char → Option (List Char × List Char)) :
    Ensures (leaf kind read) (·.role = none) := fun _ _ _ h => Ensures.leafHere kind read h

protected theorem list {p : Parse Node} {P : Node → Prop} (hp : Ensures p P) :
    Ensures (do return [← p]) fun ns => ∀ n ∈ ns, P n := by
  intro c ns c' h
  obtain ⟨n, c₁, hn, heq⟩ := bind_eq_some h
  cases heq
  exact List.forall_mem_singleton.mpr (hp hn)

protected theorem many {p : Parse (List Node)} {P : Node → Prop} (hp : Ensures p fun ns => ∀ n ∈ ns, P n) :
    Ensures (many p) fun ns => ∀ n ∈ ns, P n := by
  intro c ns c' h
  unfold Parse.many at h
  generalize c.size + 1 = times at h
  induction times generalizing c ns with
  | zero =>
    cases h
    exact fun n hn => by cases hn
  | succ times ih =>
    rw [manyFrom] at h
    dsimp only at h
    split at h
    case h_1 xs c₁ hpc =>
      split at h
      · cases h
        exact hp hpc
      · obtain ⟨⟨ys, c₂⟩, hrest, heq⟩ := Option.map_eq_some_iff.mp h
        cases heq
        intro n hn
        obtain hn | hn := List.mem_append.mp hn
        · exact hp hpc n hn
        · exact ih hrest n hn
    case h_2 =>
      cases h
      exact fun n hn => by cases hn

end Ensures

namespace Follows

/-- A parser that reads some nodes, and one that goes on with them. -/
protected theorem bind (hp : Adds text p view)
    (hf : ∀ a, Follows text (ns ++ view a) (f a) viewAll) : Follows text ns (p >>= f) viewAll := by
  intro c₀ c b c'' hreach h
  obtain ⟨a, c', hpc, hfc⟩ := bind_eq_some h
  exact hf a (hreach.trans (hp hreach.good hpc)) hfc

/-- A parser that takes along what was read, and one that goes on with it. -/
protected theorem bind_follows (hp : Follows text ns p view)
    (hf : ∀ a, Follows text (view a) (f a) viewAll) : Follows text ns (p >>= f) viewAll := by
  intro c₀ c b c'' hreach h
  obtain ⟨a, c', hpc, hfc⟩ := bind_eq_some h
  exact hf a (hp hreach hpc) hfc

protected theorem bind_ensured {P : α → Prop} (hp : Adds text p view) (hP : Ensures p P)
    (hf : ∀ a, P a → Follows text (ns ++ view a) (f a) viewAll) : Follows text ns (p >>= f) viewAll := by
  intro c₀ c b c'' hreach h
  obtain ⟨a, c', hpc, hfc⟩ := bind_eq_some h
  exact hf a (hP hpc) (hreach.trans (hp hreach.good hpc)) hfc

/-- A parser that reads no node, and one that goes on. -/
protected theorem skip (hp : AddsNothing text p) (hf : ∀ a, Follows text ns (f a) viewAll) :
    Follows text ns (p >>= f) viewAll :=
  .bind hp fun a => by simpa using hf a

protected theorem pure {a : α} (h : ns.map Node.bare = (view a).map Node.bare) :
    Follows text ns (pure a) view := by
  intro c₀ c b c' hreach heq
  cases heq
  exact hreach.congr h

/-- The node over what was read last. -/
protected theorem nodeAfter (front : List Node) {kind : Kind} {parts : List Node}
    (h : ns.map Node.bare = (front ++ parts).map Node.bare ∧ parts ≠ [] ∧ kind.isEnclosed = false) :
    Follows text ns (node kind parts) fun n => front ++ [n] := by
  intro c₀ c b c' hreach heq
  cases heq
  obtain ⟨hparts, hne, hkind⟩ := h
  exact (hreach.congr hparts).node hne (Node.enclosed_of_plain hkind)

protected theorem node {kind : Kind} {parts : List Node}
    (h : ns.map Node.bare = parts.map Node.bare ∧ parts ≠ [] ∧ kind.isEnclosed = false) :
    Follows text ns (node kind parts) fun n => [n] := .nodeAfter [] h

protected theorem failure : Follows text ns (failure : Parse α) view := fun _ _ _ _ _ h => by cases h

protected theorem orElse (hp : Follows text ns p view) (hq : Follows text ns q view) :
    Follows text ns (p <|> q) view := by
  intro c₀ c a c' hreach h
  change (p c <|> q c) = some (a, c') at h
  cases hpc : p c with
  | none =>
    rw [hpc] at h
    exact hq hreach h
  | some r =>
    rw [hpc] at h
    cases h
    exact hp hreach hpc

protected theorem overruled (hp : Follows text ns p view) (against : Parse Bool)
    (hq : Follows text ns q view) : Follows text ns (p.overruled against q) view := by
  intro c₀ c a c' hreach h
  unfold Parse.overruled at h
  split at h
  case h_1 => cases h
  case h_2 b c₁ hpc =>
    split at h
    case h_1 => exact hq hreach h
    case h_2 =>
      cases h
      exact hp hreach hpc

protected theorem ite {b : Prop} [Decidable b] (hp : b → Follows text ns p view)
    (hq : ¬ b → Follows text ns q view) : Follows text ns (if b then p else q) view := by
  split
  case isTrue h => exact hp h
  case isFalse h => exact hq h

/-- What a parser reads follows what was read before. -/
protected theorem of_adds (hp : Adds text p view) : Follows text ns p fun a => ns ++ view a :=
  fun _ _ _ _ hreach h => hreach.trans (hp hreach.good h)

/-- A parser that takes no nodes along stands at the start. -/
protected theorem adds (hp : Adds text p view) : Follows text [] p view := Follows.of_adds hp

/-- What was read before may be seen in another way. -/
protected theorem reread {ms : List Node} (hp : Follows text ms p view)
    (h : ∀ c₀ c : Cursor, c₀.Reaches text c ns → c₀.Reaches text c ms) : Follows text ns p view :=
  fun c₀ c _ _ hreach hpc => hp (h c₀ c hreach) hpc

protected theorem relabel {ms : List Node} (hp : Follows text ms p view)
    (h : List.Forall₂ Node.Relabels ns ms) : Follows text ns p view :=
  hp.reread fun _ _ hreach => hreach.relabel h

protected theorem relabelled {a : α} (h : List.Forall₂ Node.Relabels ns (view a)) :
    Follows text ns (pure a) view := .relabel (.pure (by simp)) h

/-- The children of the node that was read last stand in its place. -/
protected theorem unwrap (front : List Node) {n : Node} (hp : Follows text (front ++ n.children) p view) :
    Follows text (front ++ [n]) p view :=
  hp.reread fun _ _ hreach => hreach.unwrap

/-- A condition is known to hold after it was asked for. -/
protected theorem require {b : Bool} {f : Unit → Parse β} (hf : b = true → Follows text ns (f ()) viewAll) :
    Follows text ns (require b >>= f) viewAll := by
  cases b with
  | false => exact fun _ _ _ _ _ h => by cases h
  | true => exact hf rfl

/-- A step that is taken only sometimes and that reads no node. -/
protected theorem when {b : Prop} [Decidable b] {step : Parse PUnit} {f : PUnit → Parse β}
    (hstep : AddsNothing text step) (hf : Follows text ns (f ⟨⟩) viewAll) :
    Follows text ns (if b then step >>= f else f ⟨⟩) viewAll :=
  .ite (fun _ => .skip hstep fun _ => hf) fun _ => hf

/-- One of two parsers, after which both ways go on alike. -/
protected theorem either {b : Prop} [Decidable b] (hp : Adds text p view) (hq : Adds text q view)
    (hf : ∀ a, Follows text (ns ++ view a) (f a) viewAll) :
    Follows text ns (if b then p >>= f else q >>= f) viewAll :=
  .ite (fun _ => .bind hp hf) fun _ => .bind hq hf

/-- A parser that runs with other expectations reads the same. -/
theorem of_map (hp : Follows text ns p view) (before : Cursor → Cursor)
    (after : Cursor → Cursor → Cursor)
    (hbefore : ∀ c, (before c).rest = c.rest ∧ (before c).offset = c.offset ∧
      (before c).last = c.last ∧ (before c).comments = c.comments)
    (hafter : ∀ c c', (after c c').rest = c'.rest ∧ (after c c').offset = c'.offset ∧
      (after c c').last = c'.last ∧ (after c c').comments = c'.comments) :
    Follows text ns (fun c => (p (before c)).map fun x => (x.1, after c x.2)) view := by
  intro c₀ c a c' hreach h
  obtain ⟨⟨b, c₁⟩, hpc, heq⟩ := Option.map_eq_some_iff.mp h
  cases heq
  obtain ⟨hrest, hoffset, hlast, hcomments⟩ := hbefore c
  obtain ⟨hrest', hoffset', hlast', hcomments'⟩ := hafter c c₁
  have hstart := hreach.good.reaches_same hrest hoffset hlast hcomments
  have hread := hp (hreach.then_nothing hstart) hpc
  exact hread.then_nothing (hread.good.reaches_same hrest' hoffset' hlast' hcomments')

protected theorem within (hp : Follows text ns p view) (f : Mode → Mode) :
    Follows text ns (within f p) view :=
  hp.of_map (fun c => { c with mode := f c.mode }) (fun c c' => { c' with mode := c.mode })
    (fun _ => ⟨rfl, rfl, rfl, rfl⟩) (fun _ _ => ⟨rfl, rfl, rfl, rfl⟩)

protected theorem asComplete (hp : Follows text ns p view) : Follows text ns (asComplete p) view :=
  hp.of_map id (fun c c' => { c' with complete := c.complete })
    (fun _ => ⟨rfl, rfl, rfl, rfl⟩) (fun _ _ => ⟨rfl, rfl, rfl, rfl⟩)

end Follows

namespace Adds

protected theorem bind (hp : Adds text p view) (hf : ∀ a, Follows text (view a) (f a) viewAll) :
    Adds text (p >>= f) viewAll :=
  .of_follows (.bind hp fun a => by simpa using hf a)

protected theorem skip (hp : AddsNothing text p) (hf : ∀ a, Adds text (f a) viewAll) :
    Adds text (p >>= f) viewAll :=
  .of_follows (.skip hp fun a => .adds (hf a))

protected theorem pure {a : α} (h : view a = []) : Adds text (pure a) view :=
  .of_follows (.pure (by simp [h]))

protected theorem failure : Adds text (failure : Parse α) view := .of_follows .failure

protected theorem orElse (hp : Adds text p view) (hq : Adds text q view) : Adds text (p <|> q) view :=
  .of_follows (.orElse (.adds hp) (.adds hq))

protected theorem overruled (hp : Adds text p view) (against : Parse Bool) (hq : Adds text q view) :
    Adds text (p.overruled against q) view :=
  .of_follows (.overruled (.adds hp) against (.adds hq))

protected theorem ite {b : Prop} [Decidable b] (hp : Adds text p view) (hq : Adds text q view) :
    Adds text (if b then p else q) view := by
  split
  · exact hp
  · exact hq

/-- A parser that changes nothing but what the cursor expects. -/
theorem of_same (h : ∀ c a c', p c = some (a, c') →
      c'.rest = c.rest ∧ c'.offset = c.offset ∧ c'.last = c.last ∧ c'.comments = c.comments) :
    AddsNothing text p := by
  intro c a c' hgood hp
  obtain ⟨hrest, hoffset, hlast, hcomments⟩ := h c a c' hp
  exact hgood.reaches_same hrest hoffset hlast hcomments

/-- A parser that only looks at the cursor. -/
theorem of_view (f : Cursor → α) : AddsNothing text fun c => some (f c, c) :=
  of_same fun c a c' h => by
    cases h
    exact ⟨rfl, rfl, rfl, rfl⟩

protected theorem get : AddsNothing text (get : Parse Cursor) := of_view id

protected theorem ahead (p : Parse α) : AddsNothing text (ahead p) :=
  of_same fun c a c' h => by
    obtain ⟨x, -, heq⟩ := Option.map_eq_some_iff.mp h
    cases heq
    exact ⟨rfl, rfl, rfl, rfl⟩

protected theorem notAhead (p : Parse α) : AddsNothing text (notAhead p) :=
  of_same fun c a c' h => by
    unfold Parse.notAhead at h
    split at h
    · cases h
    · cases h
      exact ⟨rfl, rfl, rfl, rfl⟩

protected theorem isAhead (p : Parse α) : AddsNothing text (isAhead p) := of_view _

protected theorem require (b : Bool) : AddsNothing text (require b) := by
  unfold Parse.require
  exact .ite (.pure rfl) .failure

protected theorem upcoming : AddsNothing text upcoming := of_view _

protected theorem nextName : AddsNothing text nextName := of_view _

protected theorem complete : AddsNothing text complete :=
  of_same fun c a c' h => by
    cases h
    exact ⟨rfl, rfl, rfl, rfl⟩

protected theorem fullWords : AddsNothing text fullWords :=
  of_same fun c a c' h => by
    cases h
    exact ⟨rfl, rfl, rfl, rfl⟩

protected theorem nextIn (cs : List Char) : AddsNothing text (nextIn cs) :=
  of_same fun c a c' h => by
    unfold Parse.nextIn at h
    split at h
    · cases h
      exact ⟨rfl, rfl, rfl, rfl⟩
    · cases h

protected theorem sameStatement (rule : Cursor.BreakRule) : AddsNothing text (sameStatement rule) :=
  of_same fun c a c' h => by
    unfold Parse.sameStatement at h
    split at h
    · cases h
    · cases h
      exact ⟨rfl, rfl, rfl, rfl⟩

protected theorem within (hp : Adds text p view) (f : Mode → Mode) : Adds text (within f p) view :=
  .of_follows ((Follows.adds hp).within f)

protected theorem bracketed (hp : Adds text p view) : Adds text (bracketed p) view := hp.within _

protected theorem unbroken (hp : Adds text p view) : Adds text (unbroken p) view := hp.within _

protected theorem blocked (hp : Adds text p view) : Adds text (blocked p) view := hp.within _

protected theorem asComplete (hp : Adds text p view) : Adds text (asComplete p) view :=
  .of_follows (Follows.adds hp).asComplete

/-- A leaf at the position of the cursor. -/
protected theorem leafHere {kind : Kind} {read : List Char → Option (List Char × List Char)}
    (hread : Reads read) (hkind : kind.isEnclosed = false) :
    AddsNode text (leafHere kind read) := by
  intro c n c' hgood h
  unfold Parse.leafHere at h
  split at h
  case h_1 t r hfound =>
    obtain ⟨htext, hne⟩ := hread hfound
    cases h
    have hleaf := hgood.leaf htext hne hkind
    exact hleaf.then_nothing (hleaf.good.reaches_same rfl rfl rfl rfl)
  case h_2 => cases h

protected theorem leaf {kind : Kind} {read : List Char → Option (List Char × List Char)}
    (hread : Reads read) (hkind : kind.isEnclosed = false) : AddsNode text (leaf kind read) := by
  intro c n c' hgood h
  have hskip := hgood.skip
  exact hskip.trans (Adds.leafHere hread hkind hskip.good h)

protected theorem mark (t : String) (ht : t.toList ≠ []) : AddsNode text (mark t) :=
  .leaf (exactly_reads ht) rfl

protected theorem markHere (t : String) (ht : t.toList ≠ []) : AddsNode text (markHere t) :=
  .leafHere (exactly_reads ht) rfl

protected theorem joint (w : String) (hw : w.toList ≠ []) : AddsNode text (joint w) :=
  .leaf (exactly_reads hw) rfl

protected theorem markBefore (t : String) (stops : List Char) (ht : t.toList ≠ []) :
    AddsNode text (markBefore t stops) := by
  refine .leaf (fun cs t' r h => ?_) rfl
  split at h
  case h_1 r' hafter =>
    split at h
    · cases h
    · cases h
      exact ⟨afterPrefix?_eq_some hafter, ht⟩
  case h_2 => cases h

protected theorem assignMark : AddsNode text assignMark := .markBefore "=" _ (by decide)

protected theorem keyword (w : String) : AddsNode text (keyword w) := .leaf (name?_reads.filter _) rfl

protected theorem oneKeyword (ws : List String) : AddsNode text (oneKeyword ws) := by
  intro c n c' hgood h
  unfold Parse.oneKeyword at h
  split at h
  · split at h
    case h_1 w _ => exact Adds.keyword w hgood h
    case h_2 => cases h
  · cases h

protected theorem anyName {kind : Kind} (hkind : kind.isEnclosed = false) :
    AddsNode text (anyName kind) := .leaf name?_reads hkind

protected theorem nameBut {kind : Kind} (ws : List String)
    (hkind : kind.isEnclosed = false) : AddsNode text (nameBut ws kind) :=
  .leaf (name?_reads.filter _) hkind

protected theorem asRole {p : Parse Node} (r : Role) (hp : AddsNode text p) : AddsNode text (asRole r p) :=
  .bind hp fun n => .pure (by simp)

protected theorem opt {p : Parse (List Node)} (hp : AddsNodes text p) : AddsNodes text (opt p) :=
  .orElse hp (.pure rfl)

protected theorem list {p : Parse Node} (hp : AddsNode text p) :
    AddsNodes text (do return [← p]) := .bind hp fun n => .pure (by simp)

protected theorem opt1 {p : Parse Node} (hp : AddsNode text p) : AddsNodes text (opt1 p) :=
  .orElse hp.list (.pure rfl)

protected theorem manyFrom {p : Parse (List Node)} (hp : AddsNodes text p) (n : Nat) :
    AddsNodes text (manyFrom p n) := by
  induction n with
  | zero => exact .pure rfl
  | succ n ih =>
    intro c ns c' hgood h
    rw [Parse.manyFrom] at h
    dsimp only at h
    split at h
    case h_1 xs c₁ hpc =>
      have hfirst := hp hgood hpc
      split at h
      · cases h
        exact hfirst
      · obtain ⟨⟨ys, c₂⟩, hrest, heq⟩ := Option.map_eq_some_iff.mp h
        cases heq
        exact hfirst.trans (ih hfirst.good hrest)
    case h_2 =>
      cases h
      exact hgood.reaches_refl

protected theorem many {p : Parse (List Node)} (hp : AddsNodes text p) : AddsNodes text (many p) :=
  fun _ _ _ hgood h => hp.manyFrom _ hgood h

protected theorem many1 {p : Parse Node} (hp : AddsNode text p) : AddsNodes text (many1 p) := hp.list.many

protected theorem commaHoles {item : Parse Node} (hitem : AddsNode text item) :
    AddsNodes text (commaHoles item) := by
  refine .bind hitem.opt1 fun first => .bind (.many ?_) fun more => .pure (by simp)
  exact .bind (.mark "," (by decide)) fun comma => .bind hitem.opt1 fun n => .pure (by simp)

protected theorem commaItems {item : Parse (List Node)} (hitem : AddsNodes text item) :
    AddsNodes text (commaItems item) := by
  refine .bind hitem fun first => .bind (.many ?_) fun more => .pure (by simp)
  exact .bind (.mark "," (by decide)) fun comma => .bind hitem fun ns => .pure (by simp)

protected theorem commaList {item : Parse Node} (hitem : AddsNode text item) :
    AddsNodes text (commaList item) :=
  .opt (.bind (.commaItems hitem.list) fun items => .bind (.opt1 (.mark "," (by decide))) fun last =>
    .pure (by simp))

protected theorem looseList {item : Parse Node} (hitem : AddsNode text item) :
    AddsNodes text (looseList item) :=
  .bind (.opt (.commaItems hitem.list)) fun items =>
    .bind (.opt1 (.mark "," (by decide))) fun last => .pure (by simp)

protected theorem htmlComment : AddsNothing text htmlComment := by
  intro c a c' hgood h
  obtain ⟨⟨t, r⟩, hcomment, heq⟩ := Option.map_eq_some_iff.mp h
  cases heq
  obtain ⟨htext, hne⟩ := htmlComment?_reads hcomment
  have hblanks := hgood.past (List.takeWhile_append_dropWhile (p := isBlank) (l := c.rest))
  exact hblanks.then_nothing (hblanks.good.pastExtra htext hne (by decide))

protected theorem directComments : AddsNothing text directComments := by
  intro c a c' hgood h
  cases h
  exact hgood.skipDirectFrom c.size

protected theorem semicolon (rule : Cursor.BreakRule) : AddsNodes text (semicolon rule) := by
  intro c ns c' hgood h
  unfold Parse.semicolon at h
  split at h
  case h_1 c₁ hend =>
    cases h
    have hline := hgood.lineEndFrom hend
    exact hline.then_nothing (hline.good.reaches_same rfl rfl rfl rfl)
  case h_2 =>
    obtain ⟨⟨n, c₁⟩, hmark, heq⟩ := Option.map_eq_some_iff.mp h
    cases heq
    have hstart : c.Reaches text { c with complete := true } [] :=
      hgood.reaches_same rfl rfl rfl rfl
    exact hstart.trans (Adds.mark ";" (by decide) hstart.good hmark)

protected theorem trailing (rule : Cursor.BreakRule) : AddsNothing text (trailing rule) := by
  intro c a c' hgood h
  unfold Parse.trailing at h
  split at h
  case h_1 c₁ hend =>
    cases h
    have hline := hgood.lineEndFrom hend
    exact hline.then_nothing (hline.good.reaches_same rfl rfl rfl rfl)
  case h_2 =>
    cases h
    exact hgood.reaches_same rfl rfl rfl rfl

end Adds

/-- The token that `p` reads is one character, and nothing stands behind it yet. -/
def Spells (text : List Char) (p : Parse Node) (m : Char) : Prop :=
  ∀ ⦃c : Cursor⦄ ⦃n : Node⦄ ⦃c' : Cursor⦄, c.Good text → p c = some (n, c') →
    MarkAt text m n.start ∧ n.kind.isNamed = false ∧ n.stop = n.start + m.utf8Size ∧ c'.last = n.stop

namespace Spells

variable {p : Parse Node} {m : Char} {t : String}

protected theorem markHere (ht : t.toList = [m]) : Spells text (markHere t) m := by
  intro c n c' hgood h
  unfold Parse.markHere leafHere at h
  rw [ht] at h
  split at h
  case h_1 taken rest hread =>
    obtain ⟨rest', hafter, heq⟩ := Option.map_eq_some_iff.mp hread
    cases heq
    cases h
    obtain ⟨front, hfront, hsize⟩ := hgood.placed
    refine ⟨⟨front, rest, ?_, hsize⟩, rfl, rfl, rfl⟩
    rw [← hfront, ← afterPrefix?_eq_some hafter]
    rfl
  case h_2 => cases h

protected theorem mark (ht : t.toList = [m]) : Spells text (mark t) m :=
  fun _ _ _ hgood h => Spells.markHere ht hgood.skip.good h

/-- What follows a token that is known. -/
theorem bind_adds {f : Node → Parse β} (hspells : Spells text p m) (hp : AddsNode text p)
    (hf : ∀ n, MarkAt text m n.start → n.kind.isNamed = false → Follows text [n] (f n) viewAll) :
    Adds text (p >>= f) viewAll := by
  intro c b c'' hgood h
  obtain ⟨n, c', hpc, hrest⟩ := bind_eq_some h
  obtain ⟨hmark, htoken, -⟩ := hspells hgood hpc
  exact hf n hmark htoken (hp hgood hpc) hrest

/-- A literal ends with the quote that it starts with. -/
theorem quoted_follows {first : Node} {inner : List Node} (hspells : Spells text p m) (hp : AddsNode text p)
    (hquote : m ∈ quoteMarks) (hfirst : MarkAt text m first.start) {kind : Construct}
    (hkind : kind = .stringLiteral ∨ kind = .templateString) :
    Follows text (first :: inner) (do
      let last ← p
      node kind (first :: inner ++ [last])) fun n => [n] := by
  intro c₀ c n c'' hreach h
  obtain ⟨last, c', hpc, hnode⟩ := bind_eq_some h
  cases hnode
  obtain ⟨hlast, -, hstop, hend⟩ := hspells hreach.good hpc
  have hall := hreach.trans (hp hreach.good hpc)
  rw [utf8Size_of_mem_quoteMarks hquote] at hstop
  have hbehind : first.stop ≤ last.start := (hall.row.2.2.2.of_mem (List.mem_append_right _ List.mem_cons_self)).1
  have hne := (hall.proper first List.mem_cons_self first first.self_mem_walk).1.start_lt
  have hquoted : QuotedAt text ⟨first.start, c''.last⟩ :=
    ⟨m, hquote, last.start, hfirst, hlast, Nat.lt_of_lt_of_le hne hbehind, hend.trans hstop⟩
  have hfull : c₀.Reaches text c'' ([] ++ (first :: inner ++ [last])) := hall
  refine hfull.node (by simp) ⟨fun hno => ?_, fun hno => ?_, fun _ => hquoted, fun hno => ?_⟩
  all_goals obtain rfl | rfl := hkind <;> cases hno

end Spells

/-- A node that every step takes along. -/
protected theorem Follows.extend (front : List Node) {step : Node → Parse Node}
    (hstep : ∀ n, Follows text (front ++ [n]) (step n) fun m => front ++ [m]) (n : Node) :
    Follows text (front ++ [n]) (extend step n) fun m => front ++ [m] := by
  intro c₀ c m c' hreach h
  unfold Parse.extend at h
  generalize c.size + 1 = times at h
  induction times generalizing n c with
  | zero =>
    cases h
    exact hreach
  | succ times ih =>
    rw [extendFrom] at h
    dsimp only at h
    split at h
    case h_1 n' c₁ hfound => exact ih n' (hstep n hreach hfound) h
    case h_2 =>
      cases h
      exact hreach

end Parse

end SourceChange.Syntax
