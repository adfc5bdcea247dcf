import SourceChange.Proofs.Syntax.Literal
import SourceChange.Syntax.Grammar.Types

/-!
Names, members and types as nodes. A rule reads a node if the goals that it asks the grammar for do.
-/

namespace SourceChange.Syntax.Rules

open Parse

variable {text : List Char} {g : Rules}

/-- Every goal of the grammar is read as a node. -/
def Adds (text : List Char) (g : Rules) : Prop := ∀ goal, AddsNode text (g.run goal)

theorem enclosed_adds {left right : String} {kind : Kind} {inner : Parse (List Node)}
    (hends : left.toList ≠ [] ∧ right.toList ≠ [] ∧ kind.isEnclosed = false)
    (hinner : AddsNodes text inner) : AddsNode text (enclosed left right kind inner) := by
  obtain ⟨hleft, hright, hkind⟩ := hends
  exact .bind (.mark left hleft) fun a => .bind hinner.bracketed fun xs => .bind (.mark right hright) fun b =>
    .node ⟨by simp, by simp, hkind⟩

/-- A node in brackets starts with a token. -/
theorem bracketedNode_follows {kind : Construct} {left : Node} {parts : List Node}
    (hkind : kind = .statementBlock ∧ BraceAt text left.start ∨ kind = .formalParameters)
    (htoken : left.kind.isNamed = false) (hparts : parts ≠ []) :
    Follows text (left :: parts) (node kind (left :: parts)) fun n => [n] := by
  intro c₀ c n c' hreach h
  cases h
  have hfull : c₀.Reaches text c ([] ++ (left :: parts)) := hreach
  have hopens := Cursor.opens_of_row kind none hreach.row
    (fun m hm => (hreach.proper m hm m m.self_mem_walk).1.start_lt) hparts htoken
  refine hfull.node (List.cons_ne_nil _ _) ?_
  obtain ⟨rfl, hbrace⟩ | rfl := hkind
  · exact ⟨fun _ => hbrace, fun _ => hopens, nofun, nofun⟩
  · exact ⟨nofun, fun _ => hopens, nofun, nofun⟩

theorem word_adds (w : String) (kind : Construct) (hkind : (Kind.construct kind).isEnclosed = false) :
    AddsNode text (word w kind) := by
  refine .bind (.keyword w) fun k => .relabelled (.cons ?_ .nil)
  exact Node.relabels_withKind k hkind

theorem privateName_adds : AddsNode text privateName := by
  refine .leaf (fun cs t r h => ?_) (by decide)
  split at h
  case h_1 r' =>
    obtain ⟨⟨t', r''⟩, hname, heq⟩ := Option.map_eq_some_iff.mp h
    cases heq
    exact ⟨by simp [(name?_reads hname).1], by simp⟩
  case h_2 => cases h

theorem memberName_adds : AddsNode text memberName :=
  .asRole _ (.orElse (.anyName (by decide)) privateName_adds)

theorem dotted_follows {kind : Construct} (head : Node) (hkind : (Kind.construct kind).isEnclosed = false) :
    Follows text [head] (dotted kind head) fun n => [n] := by
  refine .extend [] (fun n => .asComplete ?_) head
  refine .bind (.mark "." (by decide)) fun dot => .bind (.asRole _ (.anyName (by decide))) fun p => ?_
  exact .node ⟨by simp, by simp, hkind⟩

theorem templateText_append (cs : List Char) : (templateText cs).1 ++ (templateText cs).2 = cs := by
  fun_induction templateText cs with
  | case1 => rfl
  | case2 => rfl
  | case3 => rfl
  | case4 c r _ _ t r' heq ih =>
    rw [heq] at ih
    simpa using ih

theorem templateFragment_adds : AddsNode text templateFragment := by
  refine .leafHere (fun cs t r h => ?_) (by decide)
  split at h
  case h_1 => cases h
  case h_2 hne =>
    rw [Option.some.injEq] at h
    have happend := templateText_append cs
    rw [h] at happend hne
    exact ⟨happend, fun heq => hne r (by rw [heq])⟩

theorem modifierNode_follows (w : String) (k : Node) :
    Follows text [k] (modifierNode w k) fun n => [n] :=
  .ite (fun _ => .node (by simp)) fun _ => .ite (fun _ => .node (by simp)) fun _ => .pure (by simp)

theorem modifier_adds (style : MemberStyle) (ws : List String) :
    Parse.Adds text (modifier style ws) fun m => [m.2] := by
  refine .skip .nextName fun w => ?_
  split
  case h_1 w =>
    refine .skip (.require _) fun _ => .bind (.keyword w) fun k => ?_
    have hnode : Follows text [k] (do return (w, ← modifierNode w k)) fun m => [m.2] :=
      .bind_follows (modifierNode_follows w k) fun m => .pure (by simp)
    refine .ite (fun _ => ?_) fun _ => hnode
    refine .when (.sameStatement _) (.skip .upcoming fun cs => .skip (.require _) fun _ => hnode)
  case h_2 => exact .skip (.require _) fun _ => .bind (.mark "*" (by decide)) fun m => .pure (by simp)

theorem modifiersFrom_adds (style : MemberStyle) (n : Nat) (ws : List String) :
    Parse.Adds text (modifiersFrom style n ws) fun ms => ms.map (·.2) := by
  induction n generalizing ws with
  | zero => exact .pure rfl
  | succ n ih =>
    exact .orElse (.bind (modifier_adds style ws) fun m => .bind (ih _) fun more => .pure (by simp))
      (.pure rfl)

theorem modifiers_adds (style : MemberStyle) :
    Parse.Adds text (modifiers style) fun ms => ms.map (·.2) := modifiersFrom_adds style 8 []

theorem typeName_adds : AddsNode text typeName := .anyName (by decide)

theorem sameType_adds : AddsNothing text sameType := fun _ _ _ hgood h => Adds.sameStatement _ hgood h

theorem completeType_adds : AddsNothing text completeType := by
  intro c a c' hgood h
  unfold completeType at h
  split at h
  · exact Adds.complete hgood h
  · cases h
    exact hgood.reaches_refl

theorem angleFollows_adds : AddsNothing text angleFollows :=
  .of_same fun c a c' h => by
    unfold angleFollows at h
    dsimp only at h
    split at h
    all_goals
      cases h
      exact ⟨rfl, rfl, rfl, rfl⟩

theorem uniqueSymbol_adds {kind : Construct} (hkind : (Kind.construct kind).isEnclosed = false) :
    AddsNode text (do
      let a ← keyword "unique"
      let b ← keyword "symbol"
      node kind ([a, b].map (·.withKind (.token "unique symbol")))) := by
  refine .bind (.keyword _) fun a => .bind (.keyword _) fun b => ?_
  have hnode : Follows text ([a, b].map (·.withKind (.token "unique symbol")))
      (node kind ([a, b].map (·.withKind (.token "unique symbol")))) fun n => [n] :=
    .node ⟨rfl, by simp, hkind⟩
  exact hnode.relabel (.cons (a.relabels_withKind rfl) (.cons (b.relabels_withKind rfl) .nil))

theorem predicateSubject_adds (reserved : List String) : AddsNode text (predicateSubject reserved) := by
  refine .skip .nextName fun w => ?_
  split
  case h_1 => exact word_adds _ _ (by decide)
  case h_2 => exact uniqueSymbol_adds (by decide)
  case h_3 w _ _ => exact .ite (.bind (.keyword w) fun k => .node (by simp)) (.nameBut _ (by decide))
  case h_4 => exact .failure

theorem parameterModifier_adds (ws : List String) : AddsNode text (parameterModifier ws) :=
  .bind (.oneKeyword ws) fun k => .skip .upcoming fun _ => .skip (.require _) fun _ =>
    modifierNode_follows _ k

theorem optionalMark_adds : AddsNode text optionalMark := by
  refine .skip .upcoming fun cs => ?_
  split
  case h_1 => exact .skip (.require _) fun _ => .mark "?" (by decide)
  case h_2 => exact .failure

section

variable (hg : g.Adds text)

include hg

theorem initializer_adds : AddsNodes text g.initializer :=
  .bind .assignMark fun eq => .bind (.asRole .value (hg _)) fun value => .pure (by simp)

theorem computedName_adds : AddsNode text g.computedName := enclosed_adds (by decide) (hg _).list

theorem propertyName_adds : AddsNode text g.propertyName :=
  .orElse (.anyName (by decide)) <| .orElse privateName_adds <| .orElse .string <|
    .orElse .number (computedName_adds hg)

theorem templateString_adds : AddsNode text g.templateString := by
  refine (Spells.mark rfl).bind_adds (.mark _ (by decide)) fun left hleft _ =>
    .bind (.many1 ?_) fun inner =>
    (Spells.markHere rfl).quoted_follows (.markHere _ (by decide)) (by decide) hleft (.inr rfl)
  refine .orElse ?_ (.orElse (.leafHere escape?_reads (by decide)) templateFragment_adds)
  exact .bind (.markHere _ (by decide)) fun a => .bind (hg _).bracketed fun e =>
    .bind (.mark _ (by decide)) fun b => .node (by simp)

theorem memberKey_adds (style : MemberStyle) (ws : List String) : AddsNode text (g.memberKey style ws) :=
  .skip .nextName fun _ => .skip (.require _) fun _ => propertyName_adds hg

theorem typeArguments_adds : AddsNode text g.typeArguments :=
  enclosed_adds (by decide) <| .bind (.commaItems (hg _).list) fun items =>
    .bind (.opt1 (.mark "," (by decide))) fun last => .pure (by simp)

theorem typeAscription_adds : AddsNode text g.typeAscription :=
  .bind (.mark ":" (by decide)) fun colon => .bind (hg _) fun t => .node (by simp)

theorem typePredicate_adds (reserved : List String) : AddsNode text (g.typePredicate reserved) :=
  .bind (predicateSubject_adds reserved) fun name => .skip sameType_adds fun _ =>
    .bind (.keyword "is") fun is => .bind (hg _) fun t => .node (by simp)

theorem asserts_adds : AddsNode text g.asserts :=
  .bind (.keyword _) fun k =>
    .bind (.orElse (typePredicate_adds hg _)
      (.orElse (word_adds _ _ (by decide)) (.nameBut _ (by decide)))) fun what => .node (by simp)

theorem resultType_adds : AddsNode text g.resultType := by
  refine .bind (.mark ":" (by decide)) fun colon => .skip .nextName fun w => .ite (fun _ => ?_) fun _ => ?_
  · exact .bind (asserts_adds hg) fun a => .node (by simp)
  · exact .orElse (.bind (typePredicate_adds hg _) fun p => .node (by simp))
      (.bind (hg _) fun t => .node (by simp))

theorem arguments_adds : AddsNode text g.arguments :=
  enclosed_adds (by decide) <| .commaHoles <|
    .orElse (.bind (.mark "..." (by decide)) fun dots => .bind (hg _) fun e => .node (by simp)) (hg _)

theorem decoratorPath_adds : AddsNode text g.decoratorPath := by
  refine .bind (.anyName (by decide)) fun head => .bind_follows (dotted_follows head (by decide)) fun path =>
    .orElse ?_ (.pure (by simp))
  exact .bind (typeArguments_adds hg).opt1 fun targs =>
    .bind (.asRole _ (arguments_adds hg)) fun args => .node (by simp)

theorem decorator_adds : AddsNode text g.decorator :=
  .bind (.mark "@" (by decide)) fun at' =>
    .bind (.orElse (enclosed_adds (by decide) (decoratorPath_adds hg).list) (decoratorPath_adds hg))
      fun what => .node (by simp)

theorem parameter_adds : AddsNode text g.parameter := by
  refine .bind (decorator_adds hg).many1 fun decorators =>
    .bind (parameterModifier_adds _).opt1 fun access =>
    .bind (parameterModifier_adds _).opt1 fun override =>
    .bind (parameterModifier_adds _).opt1 fun constant =>
    .bind (.asRole _ (.orElse (hg _) (word_adds _ _ (by decide)))) fun pat =>
    .bind optionalMark_adds.opt1 fun optional => .bind (typeAscription_adds hg).opt1 fun type => ?_
  exact .either (.pure rfl) (initializer_adds hg).opt fun init =>
    .node ⟨by simp, by simp, by split <;> decide⟩

theorem formalParameters_adds : AddsNode text g.formalParameters :=
  (Spells.mark rfl).bind_adds (.mark "(" (by decide)) fun left _ htoken =>
    .bind (parameter_adds hg).commaList.bracketed fun xs => .bind (.mark ")" (by decide)) fun right =>
    bracketedNode_follows (.inr rfl) htoken (by simp)

theorem tentativeParameters_adds : AddsNode text g.tentativeParameters :=
  (formalParameters_adds hg).within _

theorem typeParameters_adds : AddsNode text g.typeParameters := by
  refine enclosed_adds (by decide) <| .bind (.commaItems ?_) fun items =>
    .bind (.opt1 (.mark "," (by decide))) fun last => .pure (by simp)
  refine .bind (.opt1 (.keyword "const")) fun const => .bind (.asRole _ typeName_adds) fun name =>
    .bind (.opt1 ?_) fun bound => .bind (.opt1 ?_) fun default =>
    .bind_follows (.node (by simp)) fun parameter => .pure (by simp)
  · exact .bind (.orElse (.keyword _) (.mark ":" (by decide))) fun k => .bind (hg _) fun t => .node (by simp)
  · exact .bind (.mark "=" (by decide)) fun eq => .bind (hg _) fun t => .node (by simp)

theorem callHead_adds : AddsNodes text g.callHead :=
  .bind (typeParameters_adds hg).opt1 fun tps => .bind (.asRole _ (formalParameters_adds hg)) fun ps =>
    .skip completeType_adds fun _ => .bind (resultType_adds hg).opt1 fun result => .pure (by simp)

theorem ascribed_adds (m : String) (kind : Construct)
    (h : m.toList ≠ [] ∧ (Kind.construct kind).isEnclosed = false) :
    AddsNode text (do
      let m ← mark m
      let t ← g.type
      node kind [m, t]) :=
  .bind (.mark m h.1) fun m => .bind (hg _) fun t =>
    .node ⟨by simp, by simp, h.2⟩

theorem indexSignature_adds : AddsNode text g.indexSignature := by
  have hsign : AddsNodes text (do
      let s ← opt1 (mark "-" <|> mark "+")
      let k ← keyword "readonly"
      if s.isEmpty then sameType
      return s ++ [k]) :=
    .bind (.opt1 (.orElse (.mark "-" (by decide)) (.mark "+" (by decide)))) fun s =>
    .bind (.keyword _) fun k =>
      .when sameType_adds (.pure (by simp))
  have htype := Adds.orElse (ascribed_adds hg "-?:" .omittingTypeAscription (by decide)) <|
    .orElse (ascribed_adds hg "+?:" .addingTypeAscription (by decide)) <|
    .orElse (ascribed_adds hg "?:" .optingTypeAscription (by decide)) (typeAscription_adds hg)
  refine .bind hsign.opt fun sign => .bind (.mark "[" (by decide)) fun left =>
    .bind (show AddsNodes text _ from .bracketed (.orElse ?_ ?_)) fun inner =>
    .bind (.mark "]" (by decide)) fun right => .bind htype fun type => .node (by simp)
  · exact .bind (.asRole _ (.nameBut _ (by decide))) fun name => .bind (.mark ":" (by decide)) fun colon =>
      .bind (hg _) fun t => .pure (by simp)
  · refine .bind (.asRole _ (.nameBut _ (by decide))) fun name => .bind (.joint "in" (by decide)) fun k =>
      .bind (hg _) fun t => .bind (.opt ?_) fun as' => .bind_follows (.node (by simp)) fun clause =>
      .pure (by simp)
    exact .bind (.joint "as" (by decide)) fun k => .bind (.asRole _ (hg _)) fun t => .pure (by simp)

theorem constructSignature_adds : AddsNode text g.constructSignature :=
  .bind (.opt1 (.keyword _)) fun abstract => .bind (.keyword _) fun new' => .when sameType_adds <|
    .bind (typeParameters_adds hg).opt1 fun tps => .bind (.asRole _ (formalParameters_adds hg)) fun ps =>
      .skip completeType_adds fun _ => .bind (typeAscription_adds hg).opt1 fun result => .node (by simp)

theorem propertySignature_adds : AddsNode text g.propertySignature := by
  refine .bind (modifiers_adds _) fun ms => .bind (.asRole _ (memberKey_adds hg _ _)) fun name =>
    .skip completeType_adds fun _ => .bind (.opt1 (.asComplete (.mark "?" (by decide)))) fun optional =>
    .orElse ?_ ?_
  · exact .when sameType_adds <| .skip (.nextIn _) fun _ => .bind (callHead_adds hg) fun head =>
      .node (by simp)
  · exact .skip (.require _) fun _ => .bind (typeAscription_adds hg).opt1 fun type => .node (by simp)

theorem callSignature_adds : AddsNode text (do node Construct.callSignature (← g.callHead)) := by
  have hne : Ensures g.callHead (· ≠ []) :=
    .bind fun tps => .bind fun ps => .bind fun _ => .bind fun result => .pure (by simp)
  exact .of_follows <| .bind_ensured (callHead_adds hg) hne fun head hne => .node ⟨by simp, hne, by decide⟩

theorem typeMember_adds : AddsNode text g.typeMember := by
  refine .skip .nextName fun w => ?_
  split
  case h_1 => exact constructSignature_adds hg
  case h_2 => exact .orElse (constructSignature_adds hg) (propertySignature_adds hg)
  case h_3 => exact .orElse (.skip (.ahead _) fun _ => hg _) (propertySignature_adds hg)
  case h_4 => exact .orElse (indexSignature_adds hg) (propertySignature_adds hg)
  case h_5 => exact propertySignature_adds hg
  case h_6 =>
    refine .skip .upcoming fun cs => ?_
    split
    case h_1 => exact hg _
    case h_2 | h_3 => exact callSignature_adds hg
    case h_4 | h_5 => exact indexSignature_adds hg
    case h_6 =>
      exact .orElse (indexSignature_adds hg) (.skip (.notAhead _) fun _ => propertySignature_adds hg)
    case h_7 => exact propertySignature_adds hg

theorem objectType_adds {kind : Construct} (hkind : (Kind.construct kind).isEnclosed = false) :
    AddsNode text (g.objectType kind) := by
  have hmember : AddsNodes text (do
      let m ← g.typeMember
      let sep ← (do return [← mark ","]) <|> semicolon .plain
      return m :: sep) :=
    .bind (typeMember_adds hg) fun m =>
      .bind (.orElse (Adds.mark "," (by decide)).list (.semicolon _)) fun sep => .pure (by simp)
  refine .bind (.orElse (.mark "\x7b|" (by decide)) (.mark "\x7b" (by decide))) fun left =>
    .bind (show AddsNodes text _ from .blocked ?_) fun inner =>
    .bind (.orElse (.mark "\x7d" (by decide)) (.mark "|\x7d" (by decide))) fun right =>
    .node ⟨by simp, by simp, hkind⟩
  exact .bind (.opt1 (.orElse (.mark "," (by decide)) (.mark ";" (by decide)))) fun lead =>
    .bind hmember.many fun members =>
    .bind (typeMember_adds hg).opt1 fun last => .skip (.require _) fun _ => .pure (by simp)

theorem functionResult_adds : AddsNode text g.functionResult :=
  .skip .nextName fun _ => .ite (asserts_adds hg) (.orElse (typePredicate_adds hg _) (hg _))

theorem functionType_adds : AddsNode text g.functionType :=
  .bind (typeParameters_adds hg).opt1 fun tps => .bind (.asRole _ (tentativeParameters_adds hg)) fun ps =>
    .bind (.mark "=>" (by decide)) fun arrow => .bind (functionResult_adds hg) fun result => .node (by simp)

omit hg in
theorem importWord_adds : AddsNode text importWord := .bind (.keyword _) fun k => .node (by simp)

theorem queryStep_follows (front : List Node) (n : Node) :
    Follows text (front ++ [n]) (g.queryStep n) fun m => front ++ [m] := by
  refine .skip .upcoming fun cs => ?_
  split
  case h_1 =>
    refine .skip (.require _) fun _ => .bind (.mark "?." (by decide)) fun chain => .orElse ?_ ?_
    · refine .bind (.mark "[" (by decide)) fun left => .bind (show AddsNode text _ from ?_) fun i =>
        .bind (.mark "]" (by decide)) fun right => .nodeAfter front (by simp)
      exact .orElse .string (.orElse .number (.bind (.oneKeyword _) fun k => .node (by simp)))
    · exact .bind memberName_adds fun m => .nodeAfter front (by simp)
  case h_2 =>
    exact .skip (.require _) fun _ => .bind (.mark "." (by decide)) fun dot => .bind memberName_adds fun m =>
      .nodeAfter front (by simp)
  case h_3 =>
    exact .skip (.require _) fun _ => .when sameType_adds <| .bind (arguments_adds hg) fun args =>
      .nodeAfter front (by simp)
  case h_4 => exact .failure

theorem typeQuery_adds : AddsNode text g.typeQuery := by
  refine .bind (.keyword _) fun k => .skip .nextName fun w => ?_
  extract_lets rest
  have hrest (head : Node) : Follows text [k, head] (rest head) fun n => [n] := by
    refine .when completeType_adds <| .bind_follows (.extend [k] (fun n => ?_) head) fun path => ?_
    · exact .bind_follows (queryStep_follows hg [k] n) fun m => .skip completeType_adds fun _ =>
        .pure (by simp)
    · refine .bind (.opt1 (.skip (.require _) fun _ => typeArguments_adds hg)) fun args =>
        .skip (.require _) fun _ => ?_
      split
      · exact .node (by simp)
      · exact .bind_follows (.nodeAfter [k] (by simp)) fun inst => .node (by simp)
  split
  · exact .bind importWord_adds hrest
  · exact .bind (word_adds _ _ (by decide)) hrest
  · exact .bind (.anyName (by decide)) hrest

theorem importType_adds : AddsNode text g.importType := by
  refine .bind importWord_adds fun head => .bind_follows (.extend [] (fun n => ?_) head) fun path =>
    .skip (.require _) fun _ => .pure (by simp)
  refine .bind_follows (show Follows text [n] _ fun m => [m] from .orElse ?_ ?_) fun m =>
    .skip completeType_adds fun _ => .pure (by simp)
  · exact .bind (.mark "." (by decide)) fun dot => .bind memberName_adds fun m => .node (by simp)
  · exact .skip (.require _) fun _ => .when sameType_adds <| .bind (arguments_adds hg) fun args =>
      .node (by simp)

theorem namedType_adds (reserved : List String) : AddsNode text (g.namedType reserved) := by
  refine .bind (.nameBut _ (by decide)) fun head => .skip completeType_adds fun _ =>
    .bind_follows (dotted_follows head (by decide)) fun path => ?_
  extract_lets name
  have hname (c₀ c : Cursor) (h : c₀.Reaches text c [path]) : c₀.Reaches text c [name] := by
    unfold name
    split
    case h_1 m dot p =>
      refine h.rebuild (.cons ?_ (.cons ?_ (.cons ?_ .nil))) (by decide)
      · split
        · exact m.relabels_withKind (by decide)
        · exact Node.relabels_of_bare_eq rfl
      · exact Node.relabels_of_bare_eq rfl
      · exact (p.relabels_withKind (by decide)).withRole _
    case h_2 => exact h.relabel (.cons (Node.relabels_withKind _ (by decide)) .nil)
  refine .reread ?_ hname
  exact .skip angleFollows_adds fun angle =>
    .ite (fun _ => .bind (typeArguments_adds hg) fun args => .node (by simp)) fun _ => .pure (by simp)

omit hg in
theorem literalType_adds : AddsNode text literalType := by
  have hsigned : AddsNode text (do
      let sign ← mark "-" <|> mark "+"
      let n ← number
      node Construct.unaryExpression [sign, n]) :=
    .bind (.orElse (.mark "-" (by decide)) (.mark "+" (by decide))) fun sign => .bind .number fun n =>
      .node (by simp)
  refine .bind (show AddsNode text _ from .orElse .number (.orElse hsigned (.orElse .string ?_)))
    fun value => .node (by simp)
  exact .orElse (word_adds _ _ (by decide)) <| .orElse (word_adds _ _ (by decide)) <|
    .orElse (word_adds _ _ (by decide)) (word_adds _ _ (by decide))

theorem templateLiteralType_adds : AddsNode text g.templateLiteralType := by
  refine .bind (.mark _ (by decide)) fun left =>
    .bind (.many1 (.orElse ?_ templateFragment_adds)) fun inner =>
    .bind (.markHere _ (by decide)) fun right => .node (by simp)
  exact .bind (.markHere _ (by decide)) fun a => .bind (hg _).bracketed fun t => .skip (.require _) fun _ =>
    .bind (.mark _ (by decide)) fun b => .node (by simp)

theorem tupleMember_adds : AddsNode text g.tupleMember := by
  refine .orElse ?_ (.orElse ?_ ?_)
  · have hrest : AddsNode text (do
        let dots ← mark "..."
        let w ← nextName
        let p ← g.pattern
        require !(p.is .restPattern)
        require !(p.is .identifier && Words.onlyType.contains (w.getD ""))
        node Construct.restPattern [dots, p]) :=
      .bind (.mark "..." (by decide)) fun dots => .skip .nextName fun w => .bind (hg _) fun p =>
        .skip (.require _) fun _ => .skip (.require _) fun _ => .node (by simp)
    refine .bind (.orElse hrest (.nameBut _ (by decide))) fun name => ?_
    exact .either (.pure rfl) (.opt1 (.mark "?" (by decide))) fun optional =>
      .bind (typeAscription_adds hg) fun type => .node ⟨by simp, by simp, by split <;> decide⟩
  · exact .bind (.mark "..." (by decide)) fun dots => .bind (hg _) fun t => .node (by simp)
  · exact .bind (hg _) fun t =>
      .orElse (.bind (.mark "?" (by decide)) fun m => .node (by simp)) (.pure (by simp))

theorem wordType_adds (w : String) : AddsNode text (g.wordType w) := by
  unfold wordType
  split
  case h_1 => exact uniqueSymbol_adds (by decide)
  case h_2 => exact word_adds _ _ (by decide)
  case h_3 => exact typeQuery_adds hg
  case h_4 => exact importType_adds hg
  case h_5 => exact .keyword _
  case h_6 => exact .bind (.keyword _) fun k => .bind (hg _) fun t => .node (by simp)
  case h_7 =>
    refine .bind (.keyword _) fun k => .bind typeName_adds fun name => .bind (.opt ?_) fun bound =>
      .node (by simp)
    exact .skip sameType_adds fun _ => .bind (.keyword _) fun e => .bind (hg _) fun t => .pure (by simp)
  case h_8 =>
    exact .bind (.keyword _) fun k => .bind (hg _) fun t => .skip (.require _) fun _ => .node (by simp)
  case h_9 | h_10 =>
    exact .bind (.opt1 (.keyword _)) fun abstract => .bind (.keyword _) fun new' =>
      .bind (typeParameters_adds hg).opt1 fun tps => .bind (.asRole _ (formalParameters_adds hg)) fun ps =>
      .bind (.mark "=>" (by decide)) fun arrow => .bind (hg _) fun t => .node (by simp)
  case h_11 => exact .ite (.bind (.keyword _) fun k => .node (by simp)) literalType_adds

theorem parenthesizedType_adds : AddsNode text g.parenthesizedType := by
  refine .skip .get fun c => .orElse ?_ ?_
  · exact .skip (.require _) fun _ => .skip (.notAhead _) fun _ => .bind (functionType_adds hg) fun t =>
      .skip (.require _) fun _ => .pure (by simp)
  · refine .skip (.notAhead _) fun _ => enclosed_adds (by decide) ?_
    exact .skip .nextName fun w => .bind (hg _) fun t => .skip (.require _) fun _ => .pure (by simp)

theorem typeHead_adds : AddsNode text g.typeHead := by
  refine .skip .nextName fun w => ?_
  split
  case h_1 => exact .ite (wordType_adds hg _) (namedType_adds hg _)
  case h_2 =>
    refine .skip .upcoming fun cs => ?_
    split
    case h_1 => exact objectType_adds hg (by decide)
    case h_2 => exact enclosed_adds (by decide) (tupleMember_adds hg).looseList
    case h_3 => exact parenthesizedType_adds hg
    case h_4 => exact functionType_adds hg
    case h_5 => exact templateLiteralType_adds hg
    case h_6 => exact .bind (.mark "*" (by decide)) fun s => .node (by simp)
    case h_7 =>
      exact .bind (.mark "?" (by decide)) fun q => .bind (hg _) fun t =>
        .skip (.require _) fun _ => .node (by simp)
    case h_8 => exact .bind (.mark "|" (by decide)) fun m => .bind (hg _) fun t => .node (by simp)
    case h_9 => exact .bind (.mark "&" (by decide)) fun m => .bind (hg _) fun t => .node (by simp)
    case h_10 => exact literalType_adds

omit hg in
theorem typeJoint_adds (t : String) (longer : List Char) (ht : t.toList ≠ []) :
    AddsNode text (typeJoint t longer) :=
  .skip .get fun _ => .ite (.markBefore t longer ht) (.mark t ht)

theorem typeStep_follows (pending : TypePending) (n : Node) :
    Follows text [n] (g.typeStep pending n) fun m => [m] := by
  refine .skip sameType_adds fun _ => .skip .upcoming fun cs => ?_
  split
  case h_1 =>
    exact .skip (.require _) fun _ => .bind (.mark "[" (by decide)) fun left =>
      .bind (.bracketed (Adds.opt1 (hg _))) fun inner => .bind (.mark "]" (by decide)) fun right =>
      .node ⟨by simp, by simp, by split <;> decide⟩
  case h_2 =>
    exact .skip (.require _) fun _ => .bind (typeJoint_adds "&" _ (by decide)) fun m => .bind (hg _) fun t =>
      .node (by simp)
  case h_3 => exact .failure
  case h_4 =>
    exact .skip (.require _) fun _ => .bind (typeJoint_adds "|" _ (by decide)) fun m => .bind (hg _) fun t =>
      .node (by simp)
  case h_5 =>
    exact .skip (.require _) fun _ => .bind (.keyword _) fun e => .bind (Adds.unbroken (hg _)) fun right =>
      .bind (.mark "?" (by decide)) fun q => .bind (Adds.unbroken (hg _)) fun yes =>
      .bind (.mark ":" (by decide)) fun colon => .bind (hg _) fun no => .node (by simp)

theorem typeRule_adds (pending : TypePending) : AddsNode text (g.typeRule pending) := by
  refine .bind (typeHead_adds hg) fun head => .skip completeType_adds fun _ => .extend [] (fun n => ?_) head
  exact .bind_follows (typeStep_follows hg pending n) fun m => .skip completeType_adds fun _ =>
    .pure (by simp)

end

end SourceChange.Syntax.Rules
