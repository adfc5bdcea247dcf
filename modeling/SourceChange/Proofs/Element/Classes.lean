import SourceChange.Proofs.Element.Target
import SourceChange.Proofs.NodeText
import SourceChange.Proofs.Text.Words

/-!
The classes of an element.

Classes that are asked for go behind those that are there already, each once, and parts of a template go
behind them. They are written as plain text. So they are read again as they were written where no class
holds a character that ends a string or the text of a template; and classes in front of a part that was
there are not looked for in it.
-/

namespace SourceChange

open Source Syntax Syntax.Node

namespace Element

/-- The classes in a text. -/
def classesIn (cs : List Char) : List String := (Text.words cs).map String.ofList

/-- The classes that a change asks for. -/
def requestedClasses (static : List String) : List String := static.flatMap fun s => classesIn s.toList

/-- The parts of a template that a change asks for: one for its condition, and one that is given as it
is. -/
def requestedParts (condition : Option ClassCondition) (raw : Option String) : List String :=
  (condition.map renderCondition).toList ++ ((raw.filter (· != "")).map rawPart).toList

/-- Classes that are there, and behind them those that are asked for and are not, each where it is first
asked for. -/
def merged (present requested : List String) : List String :=
  present ++ (requested.filter fun c => !present.contains c).eraseDups

/-- The text at the front of a template, up to its end or its first substitution. -/
def templateText : List Char → List Char
  | [] => []
  | '\x60' :: _ => []
  | '$' :: '\x7b' :: _ => []
  | '\\' :: c :: cs => '\\' :: c :: templateText cs
  | c :: cs => c :: templateText cs

/-- The classes of an expression in braces, and what becomes a part of a template. -/
inductive InBraces (t : Tree) (e : Node) : List String → List String → Prop where
  | string {q : Char} {body : List Char} (hkind : e.is .stringLiteral = true)
    (htext : (t.nodeText e).toList = q :: (body ++ [q])) : InBraces t e (classesIn body) []
  | template {q : Char} {body : List Char} (hkind : e.is .templateString = true)
    (hplain : e.named.any (·.is .templateSubstitution) = false)
    (htext : (t.nodeText e).toList = q :: (body ++ [q])) : InBraces t e (classesIn body) []
  | substituted {q : Char} {body : List Char} (hkind : e.is .templateString = true)
    (hsubstituted : e.named.any (·.is .templateSubstitution) = true)
    (htext : (t.nodeText e).toList = q :: (body ++ [q])) :
    InBraces t e [] [String.ofList (Text.strip body)]
  | expression (hstring : e.is .stringLiteral = false) (htemplate : e.is .templateString = false) :
    InBraces t e [] ["$\x7b" ++ t.nodeText e ++ "\x7d"]

/-- The classes of an attribute that may be there, and what becomes a part of a template. -/
inductive Gives (t : Tree) : Option Node → List String → List String → Prop where
  | absent : Gives t none [] []
  | bare {a : Node} (hvalue : attributeValue? a = none) : Gives t (some a) [] []
  | quoted {a v : Node} {q : Char} {body : List Char} (hvalue : attributeValue? a = some v)
    (hkind : v.is .stringLiteral = true) (htext : (t.nodeText v).toList = q :: (body ++ [q])) :
    Gives t (some a) (classesIn body) []
  | empty {a v : Node} (hvalue : attributeValue? a = some v) (hkind : v.is .stringLiteral = false)
    (hnone : v.named.head? = none) : Gives t (some a) [] []
  | braced {a v e : Node} {classes parts : List String} (hvalue : attributeValue? a = some v)
    (hkind : v.is .stringLiteral = false) (hfirst : v.named.head? = some e)
    (hgives : InBraces t e classes parts) : Gives t (some a) classes parts

/-- Where an attribute is written: over the one that is there, or behind all others. -/
inductive Slot (t : Tree) (opening : Node) : Option Node → List Char → List Char → List Char → Prop where
  | present {a : Node} {front : List Char} (hstart : byteSize front = a.start) :
    Slot t opening (some a) front (t.nodeText a).toList []
  | absent {front : List Char} (hoffset : attributesEnd opening = .ok (byteSize front)) :
    Slot t opening none front [] [' ']

/-- The classes that an opening tag gives. -/
def presentClasses (t : Tree) (opening : Node) : Classes :=
  ((findAttribute? t opening "className").map (Classes.ofAttribute t)).getD .none

/-- The classes of a target, the part of a template that it has, and what is around its attribute. -/
structure Holds (d : Draft) (target : String) (present : Classes) (front old gap rest : List Char) : Prop where
  found : ∃ t opening, TargetTag d target t opening ∧ presentClasses t opening = present ∧
    Gives t (findAttribute? t opening "className") present.static present.dynamic ∧
    Slot t opening (findAttribute? t opening "className") front old gap
  text : d.text.toList = front ++ (old ++ rest)

/-- The attribute that gives classes. -/
def written (c : Classes) : List Char := ("className=" ++ c.render).toList

/-- How classes and parts of a template are written in front of a text. Classes alone stand between
quotes, where they can be read again if none has a quote in it. Parts stand behind them in a template,
where the classes are text if none has something in it that ends the text of a template. -/
structure Shows (c : Classes) (rest : List Char) : Prop where
  plain : c.dynamic = [] → ∃ inner, written c = "className=\"".toList ++ (inner ++ ['\x22']) ∧
    classesIn inner = c.static ∧
    (classesIn ((inner ++ '\x22' :: rest).takeWhile (· != '\x22')) = c.static ↔
      ∀ name ∈ c.static, '\x22' ∉ name.toList)
  template : c.dynamic ≠ [] → ∃ inner, written c = "className=\x7b`".toList ++ (inner ++ "`\x7d".toList) ∧
    inner = (Text.join " " (c.static ++ c.dynamic)).toList ∧
    ((Text.join " " c.static).toList <+: templateText (inner ++ '\x60' :: rest) ↔
      ∀ name ∈ c.static, templateText name.toList = name.toList)

section Merging

variable {present requested : List String} {c : String}

theorem merged_nil (present : List String) : merged present [] = present := List.append_nil present

theorem merged_cons_of_mem (hc : c ∈ present) (requested : List String) :
    merged present (c :: requested) = merged present requested := by
  simp [merged, hc]

theorem merged_cons_of_not_mem (hc : c ∉ present) (requested : List String) :
    merged present (c :: requested) = merged (present ++ [c]) requested := by
  have hfilter : (requested.filter fun x => (!x == c) && !present.contains x) =
      requested.filter fun x => !(present ++ [c]).contains x := by
    refine List.filter_congr fun x _ => ?_
    rw [List.contains_eq_mem, List.contains_eq_mem, Bool.eq_iff_iff]
    simp [and_comm]
  have hcons : ((c :: requested).filter fun x => !present.contains x) =
      c :: requested.filter fun x => !present.contains x :=
    List.filter_cons_of_pos (by simp [hc])
  rw [merged, merged, hcons, List.eraseDups_cons, List.filter_filter, hfilter, List.append_assoc,
    List.singleton_append]

theorem mem_merged : c ∈ merged present requested ↔ c ∈ present ∨ c ∈ requested := by
  simp only [merged, List.mem_append, List.mem_eraseDups, List.mem_filter, Bool.not_eq_true',
    List.contains_eq_mem, decide_eq_false_iff_not]
  tauto

/-- Classes that are all there already. -/
theorem merged_eq_self (h : ∀ c ∈ requested, c ∈ present) : merged present requested = present := by
  have hnone : (requested.filter fun c => !present.contains c) = [] :=
    List.filter_eq_nil_iff.mpr fun c hc => by simp [h c hc]
  rw [merged, hnone]
  exact List.append_nil present

theorem foldl_addStatic (names : List String) (c : Classes) :
    names.foldl Classes.addStatic c = ⟨merged c.static names, c.dynamic⟩ := by
  induction names generalizing c with
  | nil => rw [merged_nil]; rfl
  | cons name names ih =>
    rw [List.foldl_cons, ih, Classes.addStatic]
    split
    case isTrue hmem => rw [merged_cons_of_mem (List.contains_iff_mem.mp hmem)]
    case isFalse hmem => rw [merged_cons_of_not_mem fun h => hmem (List.contains_iff_mem.mpr h)]

theorem foldl_addDynamic (parts : List String) (c : Classes) :
    parts.foldl Classes.addDynamic c = ⟨c.static, c.dynamic ++ parts⟩ := by
  induction parts generalizing c with
  | nil => rw [List.append_nil]; rfl
  | cons part parts ih => rw [List.foldl_cons, ih, Classes.addDynamic, List.append_assoc, List.singleton_append]

/-- What a change makes of the classes that are there. -/
theorem changedClasses_eq (present : Classes) (static : List String) (condition : Option ClassCondition)
    (raw : Option String) :
    changedClasses present static condition raw =
      ⟨merged present.static (requestedClasses static), present.dynamic ++ requestedParts condition raw⟩ := by
  have hunfold : changedClasses present static condition raw =
      (requestedParts condition raw).foldl Classes.addDynamic
        ((requestedClasses static).foldl Classes.addStatic present) := rfl
  rw [hunfold, foldl_addStatic, foldl_addDynamic]

theorem word_of_mem_classesIn {cs : List Char} (hc : c ∈ classesIn cs) : Text.Word c.toList := by
  obtain ⟨w, hw, rfl⟩ := List.mem_map.mp hc
  rw [String.toList_ofList]
  exact Text.word_of_mem_words hw

theorem word_of_mem_requestedClasses {static : List String} (hc : c ∈ requestedClasses static) :
    Text.Word c.toList := by
  obtain ⟨s, -, hc⟩ := List.mem_flatMap.mp hc
  exact word_of_mem_classesIn hc

end Merging

section Reading

variable {t : Tree} {n a : Node}

theorem unquote_quoted {q : Char} (hq : q ∈ quoteMarks) {s : String} {body : List Char}
    (hs : s.toList = q :: (body ++ [q])) : Tree.unquote s = String.ofList body := by
  have hmark : (['\x27', '\x22', '\x60'].contains q) = true := List.contains_iff_mem.mpr hq
  unfold Tree.unquote
  rw [hs]
  simp only [hmark, Bool.true_and, List.getLast?_concat, List.dropLast_concat]
  simp

theorem exists_ofText_stringValue (ht : t.Built) (hn : n ∈ t.rootD.walk)
    (hkind : n.is .stringLiteral = true) :
    ∃ q body, (t.nodeText n).toList = q :: (body ++ [q]) ∧
      Classes.ofText (t.stringValue n) = ⟨classesIn body, []⟩ := by
  obtain ⟨q, hq, body, htext⟩ := ht.exists_quoted hn (Bool.or_eq_true_iff.mpr (.inl hkind))
  refine ⟨q, body, htext, ?_⟩
  rw [Tree.stringValue, unquote_quoted hq htext, Classes.ofText, String.toList_ofList, classesIn]

theorem inBraces_ofExpression (ht : t.Built) (hn : n ∈ t.rootD.walk) :
    InBraces t n (Classes.ofExpression t n).static (Classes.ofExpression t n).dynamic := by
  unfold Classes.ofExpression
  split
  case isTrue hstring =>
    obtain ⟨q, body, htext, heq⟩ := exists_ofText_stringValue ht hn hstring
    rw [heq]
    exact .string hstring htext
  case isFalse hstring =>
    split
    case isTrue htemplate =>
      obtain ⟨q, hq, body, htext⟩ := ht.exists_quoted hn (Bool.or_eq_true_iff.mpr (.inr htemplate))
      have hbody : ((t.nodeText n).toList.drop 1).dropLast = body := by
        rw [htext, List.drop_succ_cons, List.drop_zero, List.dropLast_concat]
      dsimp only
      rw [hbody]
      split
      case isTrue hsub => exact .substituted htemplate hsub htext
      case isFalse hsub =>
        have heq : Classes.ofText (String.ofList body) = ⟨classesIn body, []⟩ := by
          rw [Classes.ofText, String.toList_ofList, classesIn]
        rw [heq]
        exact .template htemplate (Bool.eq_false_iff.mpr hsub) htext
    case isFalse htemplate =>
      exact .expression (Bool.eq_false_iff.mpr hstring) (Bool.eq_false_iff.mpr htemplate)

theorem gives_ofAttribute (ht : t.Built) (ha : a ∈ t.rootD.walk) :
    Gives t (some a) (Classes.ofAttribute t a).static (Classes.ofAttribute t a).dynamic := by
  unfold Classes.ofAttribute
  split
  case h_1 hvalue => exact .bare hvalue
  case h_2 v hvalue =>
    have hv : v ∈ t.rootD.walk := by
      unfold attributeValue? at hvalue
      split at hvalue
      case isTrue =>
        exact mem_walk_trans ha (child_mem_walk (List.mem_filter.mp (List.mem_of_getLast? hvalue)).1)
      case isFalse => cases hvalue
    split
    case isTrue hstring =>
      obtain ⟨q, body, htext, heq⟩ := exists_ofText_stringValue ht hv hstring
      rw [heq]
      exact .quoted hvalue hstring htext
    case isFalse hstring =>
      have hstring := Bool.eq_false_iff.mpr hstring
      split
      case h_1 hnone => exact .empty hvalue hstring hnone
      case h_2 e hfirst =>
        have he := mem_walk_trans hv (child_mem_walk (List.mem_filter.mp (List.mem_of_head? hfirst)).1)
        exact .braced hvalue hstring hfirst (inBraces_ofExpression ht he)

end Reading

section Writing

variable {names : List String} {c : Classes} {rest : List Char}

theorem toList_join_blank (names : List String) :
    (Text.join " " names).toList = Text.joinWith [' '] (names.map String.toList) := Text.toList_join " " names

theorem words_join (hnames : ∀ name ∈ names, Text.Word name.toList) :
    Text.words (Text.join " " names).toList = names.map String.toList := by
  rw [toList_join_blank, Text.words_joinWith]
  exact List.forall_mem_map.mpr hnames

theorem map_ofList_toList (names : List String) : (names.map String.toList).map String.ofList = names := by
  rw [List.map_map]
  exact (List.map_congr_left fun name _ => String.ofList_toList).trans (List.map_id names)

theorem classesIn_eq_iff {cs : List Char} : classesIn cs = names ↔ Text.words cs = names.map String.toList := by
  constructor
  · rintro rfl
    rw [classesIn, List.map_map]
    exact ((List.map_congr_left fun w _ => String.toList_ofList).trans (List.map_id _)).symm
  · intro h
    rw [classesIn, h, map_ofList_toList]

/-- Classes between quotes are read again as they were if and only if none of them has a quote in it. -/
theorem classesIn_takeWhile_iff {quote : Char} (hquote : Text.isBlank quote = false)
    (hnames : ∀ name ∈ names, Text.Word name.toList) (rest : List Char) :
    classesIn (((Text.join " " names).toList ++ quote :: rest).takeWhile (· != quote)) = names ↔
      ∀ name ∈ names, quote ∉ name.toList := by
  have hwords := words_join hnames
  have hsolid := Text.flatten_words (Text.join " " names).toList
  rw [hwords] at hsolid
  constructor
  -- what is read up to the first quote has no quote in it
  · intro h name hname hmem
    have hread := Text.flatten_words (((Text.join " " names).toList ++ quote :: rest).takeWhile (· != quote))
    rw [classesIn_eq_iff.mp h] at hread
    have hin : quote ∈ (names.map String.toList).flatten :=
      List.mem_flatten.mpr ⟨_, List.mem_map_of_mem hname, hmem⟩
    rw [hread] at hin
    simpa using List.mem_takeWhile_imp (List.mem_filter.mp hin).1
  · intro h
    have hclear : ∀ c ∈ (Text.join " " names).toList, (c != quote) = true := by
      intro c hc
      rw [bne_iff_ne]
      rintro rfl
      have hin : c ∈ Text.solid (Text.join " " names).toList := List.mem_filter.mpr ⟨hc, by simp [hquote]⟩
      rw [← hsolid] at hin
      obtain ⟨_, hw, hin⟩ := List.mem_flatten.mp hin
      obtain ⟨name, hname, rfl⟩ := List.mem_map.mp hw
      exact h name hname hin
    rw [List.takeWhile_append_of_pos hclear, List.takeWhile_cons_of_neg (by simp), List.append_nil]
    exact classesIn_eq_iff.mpr hwords

theorem isPrefix_templateText (cs : List Char) : templateText cs <+: cs := by
  fun_induction templateText cs with
  | case1 => exact List.prefix_refl _
  | case2 => exact List.nil_prefix
  | case3 => exact List.nil_prefix
  | case4 c cs ih => exact (List.prefix_cons_inj _).mpr ((List.prefix_cons_inj _).mpr ih)
  | case5 c cs _ _ _ ih => exact (List.prefix_cons_inj _).mpr ih

/-- The text of a template goes on behind a blank, unless it ends before. -/
theorem templateText_append_blank (u v : List Char) :
    templateText (u ++ ' ' :: v) =
      if templateText u = u then u ++ ' ' :: templateText v else templateText u := by
  fun_induction templateText u with
  | case1 => simp [templateText]
  | case2 => simp [templateText]
  | case3 => simp [templateText]
  | case4 c cs ih =>
    rw [List.cons_append, List.cons_append, templateText, ih]
    by_cases h : templateText cs = cs <;> simp [h]
  | case5 c cs hquote hsub hescape ih =>
    cases cs with
    | nil =>
      by_cases hc : c = '\\'
      · subst hc
        simp [templateText]
      · rw [List.singleton_append, templateText.eq_5 _ _ hquote (by simp) (fun _ _ h => absurd h hc)]
        simp [templateText]
    | cons d cs =>
      have hsplit : templateText (c :: d :: (cs ++ ' ' :: v)) = c :: templateText (d :: (cs ++ ' ' :: v)) := by
        refine templateText.eq_5 _ _ hquote (fun r hc hd => ?_) fun x r hc hd => ?_
        · exact hsub cs hc (by rw [(List.cons.inj hd).1])
        · exact hescape d cs hc rfl
      rw [List.cons_append, List.cons_append, hsplit, ← List.cons_append, ih]
      by_cases h : templateText (d :: cs) = d :: cs <;> simp [h]

/-- Words are in the text of a template as they are if and only if none of them ends it. -/
theorem joinWith_prefix_templateText_iff (ws : List (List Char)) (v : List Char) :
    Text.joinWith [' '] ws <+: templateText (Text.joinWith [' '] ws ++ ' ' :: v) ↔
      ∀ w ∈ ws, templateText w = w := by
  induction ws with
  | nil => simp [Text.joinWith]
  | cons w ws ih =>
    have hends (u : List Char) (h : templateText w ≠ w) : ¬ w ++ u <+: templateText w := by
      intro hprefix
      have hle := ((List.prefix_append w u).trans hprefix).length_le
      exact h ((isPrefix_templateText w).eq_of_length_le hle)
    cases ws with
    | nil =>
      rw [Text.joinWith, templateText_append_blank, List.forall_mem_singleton]
      split
      case isTrue h => exact iff_of_true (List.prefix_append _ _) h
      case isFalse h => exact iff_of_false (by simpa using hends [] h) h
    | cons x ws =>
      rw [Text.joinWith_cons_cons, List.append_assoc, List.singleton_append, List.cons_append,
        templateText_append_blank, List.forall_mem_cons]
      split
      case isTrue h =>
        rw [List.prefix_append_right_inj, List.prefix_cons_inj, ih]
        exact (and_iff_right h).symm
      case isFalse h => exact iff_of_false (hends _ h) fun hall => h hall.1

theorem join_prefix_templateText_iff {parts : List String} (hparts : parts ≠ []) (names : List String) :
    (Text.join " " names).toList <+: templateText ((Text.join " " (names ++ parts)).toList ++ '\x60' :: rest) ↔
      ∀ name ∈ names, templateText name.toList = name.toList := by
  rw [toList_join_blank, toList_join_blank, List.map_append]
  by_cases hnames : names = []
  · simp [hnames, Text.joinWith]
  · rw [Text.joinWith_append _ (by simpa using hnames) (by simpa using hparts), List.append_assoc,
      List.append_assoc, List.singleton_append, joinWith_prefix_templateText_iff]
    exact List.forall_mem_map

theorem written_plain (h : c.dynamic = []) :
    written c = "className=\"".toList ++ ((Text.join " " c.static).toList ++ ['\x22']) := by
  simp [written, Classes.render, h]

theorem written_template (h : c.dynamic ≠ []) :
    written c =
      "className=\x7b`".toList ++ ((Text.join " " (c.static ++ c.dynamic)).toList ++ "`\x7d".toList) := by
  simp [written, Classes.render, h]

/-- What is written shows classes that are words. -/
theorem shows_of_words (hnames : ∀ name ∈ c.static, Text.Word name.toList) (rest : List Char) :
    Shows c rest where
  plain h :=
    ⟨_, written_plain h, classesIn_eq_iff.mpr (words_join hnames), classesIn_takeWhile_iff rfl hnames rest⟩
  template h := ⟨_, written_template h, rfl, join_prefix_templateText_iff h c.static⟩

end Writing

/-- The operation that changes classes. -/
def classChange (target : String) (static : List String) (condition : Option ClassCondition)
    (raw : Option String) : Operation :=
  .element target (.classes static condition raw)

section Change

variable {d : Draft} {target : String} {t : Tree} {opening : Node} {front old gap rest : List Char}
  {static : List String} {condition : Option ClassCondition} {raw : Option String} {r : Reader} {o : Outcome}

theorem TargetTag.gives (h : TargetTag d target t opening) :
    Gives t (findAttribute? t opening "className") (presentClasses t opening).static
      (presentClasses t opening).dynamic := by
  unfold presentClasses
  cases hfind : findAttribute? t opening "className" with
  | none => exact .absent
  | some a => exact gives_ofAttribute h.reads.built (mem_walk_trans h.mem_walk (findAttribute?_mem_walk hfind))

/-- What writing an attribute leads to. -/
theorem Slot.edited_eq (ht : t.Built) (hopening : opening ∈ t.rootD.walk)
    (hslot : Slot t opening (findAttribute? t opening "className") front old gap)
    (hchars : t.chars = front ++ (old ++ rest)) (s : String) :
    (classEdit t opening s >>= fun e => t.edited [e]) =
      .ok (String.ofList (front ++ (gap ++ (s.toList ++ rest)))) := by
  unfold classEdit
  generalize hattribute : findAttribute? t opening "className" = given at hslot
  cases hslot with
  | @present a front hstart =>
    have ha := mem_walk_trans hopening (findAttribute?_mem_walk hattribute)
    obtain ⟨front', _, -, hstart', hstop⟩ := ht.exists_nodeText ha
    have hsize : byteSize (front ++ (t.nodeText a).toList) = a.stop := by
      rw [← hstop, byteSize_append, byteSize_append, hstart, hstart']
    simp only [bind, Except.bind]
    rw [← hstart, ← hsize, Tree.edited, Tree.text, hchars, Edit.applyAll_replace]
    rfl
  | absent hoffset =>
    simp only [hoffset, bind, Except.bind, pure, Except.pure]
    rw [Tree.edited, Tree.text, hchars, List.nil_append, Edit.applyAll_insert, String.toList_append]
    simp only [List.append_assoc]
    rfl

/-- The edit of an opening tag that changes its classes. -/
def classesEdit (static : List String) (condition : Option ClassCondition) (raw : Option String) (t : Tree)
    (opening : Node) : Except Failure Edit :=
  classEdit t opening
    (String.ofList (written (changedClasses (presentClasses t opening) static condition raw)))

theorem changeClasses_eq (d : Draft) (target : String) (static : List String)
    (condition : Option ClassCondition) (raw : Option String) :
    changeClasses d target static condition raw =
      editTag d target (classesEdit static condition raw) ("Modified className on <" ++ target ++ ">") := by
  simp only [editTag, classesEdit, written, String.ofList_toList]
  rfl

theorem exists_slot {s : String} {e : Edit} (ht : t.Built) (hopening : opening ∈ t.rootD.walk)
    (he : classEdit t opening s = .ok e) :
    ∃ front old gap rest, Slot t opening (findAttribute? t opening "className") front old gap ∧
      t.chars = front ++ (old ++ rest) := by
  unfold classEdit at he
  split at he
  case h_1 a hattribute =>
    rw [hattribute]
    have ha := mem_walk_trans hopening (findAttribute?_mem_walk hattribute)
    obtain ⟨front, rest, hchars, hstart, -⟩ := ht.exists_nodeText ha
    exact ⟨front, _, _, rest, .present hstart, hchars⟩
  case h_2 hattribute =>
    rw [hattribute]
    obtain ⟨offset, hoffset, -⟩ := bind_eq_ok_iff.mp he
    obtain ⟨front, ⟨rest, hchars⟩, rfl⟩ := (within_attributesEnd ht.regular hopening hoffset s).start
    exact ⟨front, _, _, rest, .absent hoffset, hchars.symm⟩

theorem changeClasses_on_eq (htag : TargetTag d target t opening)
    (hslot : Slot t opening (findAttribute? t opening "className") front old gap)
    (hchars : t.chars = front ++ (old ++ rest)) (static : List String) (condition : Option ClassCondition)
    (raw : Option String) :
    ((changeClasses d target static condition raw).on .plain).1 =
      .ok (.plain
        (String.ofList
          (front ++ (gap ++ (written (changedClasses (presentClasses t opening) static condition raw) ++ rest))))
        ("Modified className on <" ++ target ++ ">")) := by
  rw [changeClasses_eq, editTag_on htag, classesEdit, hslot.edited_eq htag.reads.built htag.mem_walk hchars,
    String.toList_ofList]
  rfl

/-- A change of classes writes them where they were, or where there is room for them. -/
theorem exists_change
    (h : ((changeClasses d target static condition raw).on .plain).1 = .ok o) :
    ∃ t opening front old gap rest, TargetTag d target t opening ∧
      Slot t opening (findAttribute? t opening "className") front old gap ∧ t.chars = front ++ (old ++ rest) ∧
      o.text.toList =
        front ++ (gap ++ (written (changedClasses (presentClasses t opening) static condition raw) ++ rest)) := by
  have hrun := h
  rw [changeClasses_eq] at h
  obtain ⟨t, opening, e, htag, he, -⟩ := exists_edit h
  obtain ⟨front, old, gap, rest, hslot, hchars⟩ := exists_slot htag.reads.built htag.mem_walk he
  refine ⟨t, opening, front, old, gap, rest, htag, hslot, hchars, ?_⟩
  rw [changeClasses_on_eq htag hslot hchars] at hrun
  cases hrun
  rw [Outcome.plain, String.toList_ofList]

theorem holds_of_slot (htag : TargetTag d target t opening)
    (hslot : Slot t opening (findAttribute? t opening "className") front old gap)
    (hchars : t.chars = front ++ (old ++ rest)) :
    Holds d target (presentClasses t opening) front old gap rest := by
  exact ⟨⟨t, opening, htag, rfl, htag.gives, hslot⟩, htag.toList_text.trans hchars⟩

theorem InBraces.word {e : Node} {classes parts : List String} (h : InBraces t e classes parts) :
    ∀ name ∈ classes, Text.Word name.toList := by
  intro name hname
  cases h with
  | string => exact word_of_mem_classesIn hname
  | template => exact word_of_mem_classesIn hname
  | substituted => cases hname
  | expression => cases hname

theorem Gives.word {given : Option Node} {classes parts : List String} (h : Gives t given classes parts) :
    ∀ name ∈ classes, Text.Word name.toList := by
  intro name hname
  cases h with
  | absent => cases hname
  | bare => cases hname
  | empty => cases hname
  | quoted => exact word_of_mem_classesIn hname
  | braced _ _ _ hgives => exact hgives.word name hname

theorem word_of_mem_merged {given : Option Node} {classes parts : List String}
    (h : Gives t given classes parts) :
    ∀ name ∈ merged classes (requestedClasses static), Text.Word name.toList := by
  intro name hname
  obtain hname | hname := mem_merged.mp hname
  · exact h.word name hname
  · exact word_of_mem_requestedClasses hname

/-- Classes that are there are kept, in their order, and those that are asked for follow, each once;
parts of a template follow them, first the one that is there. They are written as plain text, over the
attribute that gives classes or behind all others. Between quotes they can be read again if and only if
none of them has a quote in it; in front of parts they are text of the template if and only if none of
them ends such a text. -/
theorem classes_merged (hr : r.Exact)
    (hdiscerns : r.Discerns ((classChange target static condition raw).apply d).run)
    (h : (((classChange target static condition raw).apply d).on r).1 = .ok o) :
    ∃ present front old gap rest c, Holds d target present front old gap rest ∧
      c.static = merged present.static (requestedClasses static) ∧
      c.dynamic = present.dynamic ++ requestedParts condition raw ∧
      o.text.toList = front ++ (gap ++ (written c ++ rest)) ∧ Shows c rest := by
  obtain ⟨t, opening, front, old, gap, rest, htag, hslot, hchars, htext⟩ :=
    exists_change (changeElement_of_apply hr hdiscerns h).2
  rw [changedClasses_eq] at htext
  exact ⟨_, front, old, gap, rest, _, holds_of_slot htag hslot hchars, rfl, rfl, htext,
    shows_of_words (word_of_mem_merged htag.gives) rest⟩

/-- A quote in a class ends the string that the classes are written into. -/
theorem classes_merged_quote :
    let text := "function App() \x7b\n  return <div className='before:content-[\"*\"] p-2'/>;\n\x7d\n"
    let d : Draft := ⟨"a.tsx", .tsx, text⟩
    let star := "before:content-[\"*\"]"
    ∃ o present front old gap rest inner,
      (((classChange "div" ["c"] none none).apply d).on .plain).1 = .ok o ∧
      Holds d "div" present front old gap rest ∧ present = ⟨[star, "p-2"], []⟩ ∧
      o.text.toList = front ++ (gap ++ ("className=\"".toList ++ (inner ++ ['\x22']) ++ rest)) ∧
      classesIn inner = [star, "p-2", "c"] ∧
      classesIn ((inner ++ '\x22' :: rest).takeWhile (· != '\x22')) ≠ [star, "p-2", "c"] := by
  intro text d star
  have hrun : (((classChange "div" ["c"] none none).apply d).on .plain).1.toOption.isSome = true := by
    decide +kernel
  have hview : (findTag? d "div").any (fun x => presentClasses x.1 x.2 == ⟨[star, "p-2"], []⟩) = true := by
    decide +kernel
  obtain ⟨o, ho⟩ := Option.isSome_iff_exists.mp hrun
  have ho := toOption_eq_some_iff.mp ho
  obtain ⟨⟨t, opening⟩, htag, hview⟩ := (Option.any_eq_true ..).mp hview
  have htag := targetTag_of_findTag? htag
  obtain ⟨present, front, old, gap, rest, c, hholds, hstatic, hdynamic, htext, hshows⟩ :=
    classes_merged Reader.exact_plain (Reader.discerns_of_uncached rfl _) ho
  obtain ⟨t', opening', htag', hpresent, -, -⟩ := hholds.found
  obtain ⟨rfl, rfl⟩ := htag.eq htag'
  obtain rfl := hpresent.symm.trans (eq_of_beq hview)
  have hclasses : c.static = [star, "p-2", "c"] := hstatic.trans (by decide)
  obtain ⟨inner, hinner, hwords, hread⟩ := hshows.plain hdynamic
  rw [hclasses] at hwords hread
  refine ⟨o, _, front, old, gap, rest, inner, ho, hholds, rfl, ?_, hwords, ?_⟩
  · rw [← hinner, htext]
  · exact fun h => absurd (hread.mp h star List.mem_cons_self) (by decide)

/-- An attribute that was written stands where it was written and is read in the form that it was
written in: as a string, or as a template with a substitution. -/
structure ReadBack (d : Draft) (target : String) (front : List Char) (c : Classes) (t : Tree)
    (opening a v : Node) : Prop where
  tag : TargetTag d target t opening
  found : findAttribute? t opening "className" = some a
  start : byteSize front = a.start
  text : (t.nodeText a).toList = written c
  value : attributeValue? a = some v
  plain : c.dynamic = [] → v.is .stringLiteral = true ∧
    (t.nodeText v).toList = '\x22' :: ((Text.join " " c.static).toList ++ ['\x22'])
  template : c.dynamic ≠ [] → v.is .stringLiteral = false ∧ ∃ e, v.named.head? = some e ∧
    e.is .templateString = true ∧ e.named.any (·.is .templateSubstitution) = true ∧
    (t.nodeText e).toList = '\x60' :: ((Text.join " " (c.static ++ c.dynamic)).toList ++ ['\x60'])

/-- What a change makes of the classes that are there, if it asks for nothing but classes. -/
def added (present : Classes) (static : List String) : Classes :=
  ⟨merged present.static (requestedClasses static), present.dynamic⟩

/-- What is read of classes that were written: a template with a substitution is one part. -/
def reread (c : Classes) : Classes :=
  if c.dynamic.isEmpty then c
  else ⟨[], [String.ofList (Text.strip (Text.join " " (c.static ++ c.dynamic)).toList)]⟩

theorem ReadBack.presentClasses_eq {c : Classes} {a v : Node} (h : ReadBack d target front c t opening a v)
    (hnames : ∀ name ∈ c.static, Text.Word name.toList) : presentClasses t opening = reread c := by
  rw [presentClasses, h.found, Option.map_some, Option.getD_some, Classes.ofAttribute, h.value, reread]
  dsimp only
  by_cases hdynamic : c.dynamic = []
  · obtain ⟨hkind, htext⟩ := h.plain hdynamic
    have hvalue := unquote_quoted (by decide) htext
    rw [if_pos hkind, Tree.stringValue, hvalue, Classes.ofText, String.toList_ofList, words_join hnames,
      map_ofList_toList, if_pos (List.isEmpty_iff.mpr hdynamic), ← hdynamic]
  · obtain ⟨hkind, e, hfirst, htemplate, hsubstituted, htext⟩ := h.template hdynamic
    have hstring : ¬ e.is .stringLiteral = true := by
      rw [Node.is, beq_iff_eq] at htemplate ⊢
      simp [htemplate]
    rw [hkind, if_neg Bool.false_ne_true, hfirst]
    dsimp only
    rw [Classes.ofExpression, if_neg hstring, if_pos htemplate, htext, List.drop_succ_cons, List.drop_zero,
      List.dropLast_concat]
    dsimp only
    rw [if_pos hsubstituted, if_neg (by simpa using hdynamic)]

/-- There is at most one part of a template, without blanks at its ends, and no class beside it. -/
def OnePart (classes parts : List String) : Prop :=
  parts = [] ∨ classes = [] ∧ ∃ part, parts = [part] ∧ Text.strip part.toList = part.toList

theorem InBraces.onePart {e : Node} {classes parts : List String} (h : InBraces t e classes parts) :
    OnePart classes parts := by
  cases h with
  | string => exact .inl rfl
  | template => exact .inl rfl
  | substituted =>
    refine .inr ⟨rfl, _, rfl, ?_⟩
    rw [String.toList_ofList, Text.strip_strip]
  | expression =>
    refine .inr ⟨rfl, _, rfl, Text.strip_eq_self (fun c hc => ?_) fun c hc => ?_⟩
    · have hc : '$' = c := by simpa using hc
      subst hc
      decide
    · have hc : '\x7d' = c := by simpa [List.getLast?_cons] using hc
      subst hc
      decide

theorem Gives.onePart {given : Option Node} {classes parts : List String} (h : Gives t given classes parts) :
    OnePart classes parts := by
  cases h with
  | absent => exact .inl rfl
  | bare => exact .inl rfl
  | empty => exact .inl rfl
  | quoted => exact .inl rfl
  | braced _ _ _ hgives => exact hgives.onePart

theorem solid_join (names : List String) :
    Text.solid (Text.join " " names).toList = (names.map fun name => Text.solid name.toList).flatten := by
  rw [toList_join_blank, Text.solid_joinWith, List.map_map]
  rfl

/-- Classes that are not empty make a template another one. -/
theorem written_cons_ne {names : List String} (hne : names ≠ [])
    (hnames : ∀ name ∈ names, Text.Word name.toList) {inner : List Char} {part : String}
    (hpart : part.toList = Text.strip inner) {c : Classes} (hdynamic : c.dynamic ≠ [])
    (hinner : inner = (Text.join " " (c.static ++ c.dynamic)).toList) :
    written ⟨names, [part]⟩ ≠ written c := by
  intro heq
  rw [written_template (List.cons_ne_nil part []), written_template hdynamic, ← hinner] at heq
  have hsame := congrArg Text.solid (List.append_cancel_right (List.append_cancel_left heq))
  rw [solid_join, List.map_append, List.flatten_append, List.map_singleton, List.flatten_singleton, hpart,
    Text.solid_strip, List.append_left_eq_self, List.flatten_eq_nil_iff] at hsame
  obtain ⟨name, rest, rfl⟩ := List.exists_cons_of_ne_nil hne
  have hword := hnames name List.mem_cons_self
  exact Text.solid_ne_nil_of_word hword (hsame _ (List.mem_map_of_mem List.mem_cons_self))

/-- Classes that are asked for again are written again only in front of a part that is there. -/
theorem written_again_iff {present : Classes} (hpart : OnePart present.static present.dynamic) :
    written (added (reread (added present static)) static) = written (added present static) ↔
      present.dynamic = [] ∨ requestedClasses static = [] := by
  obtain ⟨existing, dynamic⟩ := present
  dsimp only at hpart
  obtain rfl | ⟨rfl, part, rfl, hstrip⟩ := hpart
  -- classes alone are read again, and then all that are asked for are there
  · have hsame : reread (added ⟨existing, []⟩ static) = added ⟨existing, []⟩ static := if_pos rfl
    have hmerged : merged (merged existing (requestedClasses static)) (requestedClasses static) =
        merged existing (requestedClasses static) :=
      merged_eq_self fun c hc => mem_merged.mpr (.inr hc)
    rw [hsame]
    exact iff_of_true (congrArg (fun names => written ⟨names, []⟩) hmerged) (.inl rfl)
  · obtain hnone | hsome := eq_or_ne (requestedClasses static) []
    · have hfirst : added ⟨[], [part]⟩ static = ⟨[], [part]⟩ := by rw [added, hnone, merged_nil]
      have hjoin : (Text.join " " [part]).toList = part.toList := by
        rw [toList_join_blank]
        rfl
      have hreread : reread ⟨[], [part]⟩ = ⟨[], [part]⟩ := by
        simp only [reread, List.isEmpty_cons, Bool.false_eq_true, if_false, List.nil_append, hjoin, hstrip,
          String.ofList_toList]
      rw [hfirst, hreread, hfirst]
      exact iff_of_true rfl (.inr hnone)
    -- the classes are in the part that is read again, and so are written twice
    · have hne : merged [] (requestedClasses static) ≠ [] := by
        obtain ⟨name, names, hnames⟩ := List.exists_cons_of_ne_nil hsome
        exact List.ne_nil_of_mem (mem_merged.mpr (.inr (hnames ▸ List.mem_cons_self)))
      have hwords : ∀ name ∈ merged [] (requestedClasses static), Text.Word name.toList := fun name hname =>
        (mem_merged.mp hname).elim nofun word_of_mem_requestedClasses
      exact iff_of_false (written_cons_ne hne hwords String.toList_ofList (List.cons_ne_nil part []) rfl)
        (by simp [hsome])

/-- A change that asks for nothing but classes can be made again where what it wrote is read in the form
that it has. It leaves the text as it is if and only if the classes stand alone or none is asked for: in
front of a part of a template, which an expression becomes, they are written once more. -/
theorem static_classes_again (hr : r.Exact)
    (hdiscerns : r.Discerns ((classChange target static none none).apply d).run)
    (h : (((classChange target static none none).apply d).on r).1 = .ok o) :
    ∃ present front old gap rest, Holds d target present front old gap rest ∧
      o.text.toList = front ++ (gap ++ (written (added present static) ++ rest)) ∧
      ∀ t opening a v, ReadBack (d.advance o.text) target (front ++ gap) (added present static) t opening a v →
        ∀ r', r'.Exact → r'.Discerns ((classChange target static none none).apply (d.advance o.text)).run →
          ∃ o', (((classChange target static none none).apply (d.advance o.text)).on r').1 = .ok o' ∧
            o'.text.toList =
              front ++ (gap ++ (written (added (reread (added present static)) static) ++ rest)) ∧
            (o'.text = o.text ↔ present.dynamic = [] ∨ requestedClasses static = []) := by
  obtain ⟨hlanguage, h⟩ := changeElement_of_apply hr hdiscerns h
  obtain ⟨t₀, opening₀, front, old, gap, rest, htag, hslot, hchars, htext⟩ := exists_change h
  have honly (c : Classes) : changedClasses c static none none = added c static := by
    rw [changedClasses_eq]
    exact congrArg (Classes.mk _) (List.append_nil _)
  rw [honly] at htext
  refine ⟨_, front, old, gap, rest, holds_of_slot htag hslot hchars, htext, ?_⟩
  intro t opening a v hback r' hr' hdiscerns'
  -- the second change goes over what the first one wrote
  have hslot' :
      Slot t opening (findAttribute? t opening "className") (front ++ gap) (t.nodeText a).toList [] := by
    rw [hback.found]
    exact .present hback.start
  have hchars' : t.chars = front ++ gap ++ ((t.nodeText a).toList ++ rest) := by
    have hreads : t.text = o.text := hback.tag.reads.text_eq
    rw [hback.text, List.append_assoc, ← htext, ← hreads, Tree.text, String.toList_ofList]
  have hagain := (apply_element_on hr' hdiscerns' hlanguage).trans
    (changeClasses_on_eq hback.tag hslot' hchars' static none none)
  rw [honly,
    hback.presentClasses_eq (word_of_mem_merged htag.gives), List.nil_append, List.append_assoc] at hagain
  refine ⟨_, hagain, String.toList_ofList, ?_⟩
  rw [← written_again_iff htag.gives.onePart, ← String.toList_inj, htext, Outcome.plain, String.toList_ofList]
  simp only [List.append_cancel_left_eq, List.append_cancel_right_eq]

/-- A class that is added twice in front of a variable is there twice. -/
theorem static_classes_again_variable :
    let d : Draft := ⟨"a.tsx", .tsx, "function App() \x7b\n  return <div className=\x7bcls\x7d/>;\n\x7d\n"⟩
    let op := classChange "div" ["a"] none none
    ∃ o o' t opening a v front, ((op.apply d).on .plain).1 = .ok o ∧
      ReadBack (d.advance o.text) "div" front ⟨["a"], ["$\x7bcls\x7d"]⟩ t opening a v ∧
      ((op.apply (d.advance o.text)).on .plain).1 = .ok o' ∧ o'.text ≠ o.text := by
  intro d op
  let middle := "function App() \x7b\n  return <div className=\x7b`a $\x7bcls\x7d`\x7d/>;\n\x7d\n"
  have hrun : ((op.apply d).on .plain).1.toOption.any (fun o => o.text == middle) = true := by
    decide +kernel
  have hview : (findTag? d "div").any (fun x => presentClasses x.1 x.2 == ⟨[], ["$\x7bcls\x7d"]⟩ &&
      (findAttribute? x.1 x.2 "className").any (·.start == 31)) = true := by
    decide +kernel
  have hback : (findTag? (d.advance middle) "div").any (fun x =>
      (findAttribute? x.1 x.2 "className").any fun a =>
        (attributeValue? a).any fun v => v.named.head?.any fun e =>
          a.start == 31 && x.1.nodeText a == "className=\x7b`a $\x7bcls\x7d`\x7d" && !v.is .stringLiteral &&
            e.is .templateString && e.named.any (·.is .templateSubstitution) &&
            x.1.nodeText e == "`a $\x7bcls\x7d`") = true := by
    decide +kernel
  obtain ⟨o, ho, htext⟩ := (Option.any_eq_true ..).mp hrun
  have ho := toOption_eq_some_iff.mp ho
  obtain ⟨⟨t₀, opening₀⟩, htag₀, hview⟩ := (Option.any_eq_true ..).mp hview
  have htag₀ := targetTag_of_findTag? htag₀
  rw [Bool.and_eq_true, beq_iff_eq] at hview
  obtain ⟨hpresent, hview⟩ := hview
  obtain ⟨a₀, ha₀, hstart₀⟩ := (Option.any_eq_true ..).mp hview
  rw [← eq_of_beq htext] at hback
  obtain ⟨⟨t, opening⟩, htag, hback⟩ := (Option.any_eq_true ..).mp hback
  obtain ⟨a, ha, hback⟩ := (Option.any_eq_true ..).mp hback
  obtain ⟨v, hv, hback⟩ := (Option.any_eq_true ..).mp hback
  obtain ⟨e, he, hback⟩ := (Option.any_eq_true ..).mp hback
  simp only [Bool.and_eq_true, beq_iff_eq, Bool.not_eq_true'] at hback
  obtain ⟨⟨⟨⟨⟨hstart, hattribute⟩, hstring⟩, htemplate⟩, hsubstituted⟩, hinner⟩ := hback
  obtain ⟨present, front, old, gap, rest, hholds, -, hagain⟩ :=
    static_classes_again Reader.exact_plain (Reader.discerns_of_uncached rfl _) ho
  obtain ⟨t', opening', htag', hpresent', -, hslot⟩ := hholds.found
  obtain ⟨rfl, rfl⟩ := htag₀.eq htag'
  obtain rfl := hpresent'.symm.trans hpresent
  rw [ha₀] at hslot
  obtain ⟨hfront⟩ := hslot
  have hadded : added ⟨[], ["$\x7bcls\x7d"]⟩ ["a"] = ⟨["a"], ["$\x7bcls\x7d"]⟩ := by decide
  have hback : ReadBack (d.advance o.text) "div" (front ++ []) ⟨["a"], ["$\x7bcls\x7d"]⟩ t opening a v := {
    tag := targetTag_of_findTag? htag
    found := ha
    start := by rw [List.append_nil, hfront, hstart, eq_of_beq hstart₀]
    text := by rw [hattribute]; decide
    value := hv
    plain := nofun
    template := fun _ => ⟨hstring, e, he, htemplate, hsubstituted, by rw [hinner]; decide⟩ }
  obtain ⟨o', ho', -, hsame⟩ :=
    hagain t opening a v (hadded ▸ hback) .plain Reader.exact_plain (Reader.discerns_of_uncached rfl _)
  exact ⟨o, o', t, opening, a, v, _, ho, hback, ho', fun h => absurd (hsame.mp h) (by decide)⟩

end Change

end Element

end SourceChange
