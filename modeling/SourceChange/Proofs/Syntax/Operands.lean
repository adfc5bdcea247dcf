import SourceChange.Proofs.Syntax.Types
import SourceChange.Syntax.Grammar.Operands

/-!
Patterns, elements, functions and classes as nodes.
-/

namespace SourceChange.Syntax.Rules

open Parse

variable {text : List Char} {g : Rules}

theorem tagWord?_reads : Reads tagWord? := by
  intro cs t r h
  unfold tagWord? at h
  split at h
  case h_1 t' r' hname =>
    obtain ⟨hcs, hne⟩ := name?_reads hname
    split at h
    · cases h
      exact ⟨by simp [← hcs, List.takeWhile_append_dropWhile], by simp⟩
    · cases h
      exact ⟨hcs, hne⟩
  case h_2 => exact name?_reads h

theorem elementText?_reads : Reads elementText? := by
  intro cs t r h
  unfold elementText? at h
  dsimp only at h
  split at h
  case isTrue => cases h
  case isFalse hne =>
    cases h
    exact ⟨List.takeWhile_append_dropWhile, fun heq => hne (by simp [heq])⟩

theorem namespaceName_adds (reserved : List String) : AddsNode text (namespaceName reserved) :=
  .skip .upcoming fun cs => .bind (.leaf tagWord?_reads (by decide)) fun a =>
    .bind (.mark ":" (by decide)) fun colon =>
    .bind (.leaf (tagWord?_reads.filter _) (by decide)) fun b => .node (by simp)

theorem memberTag_adds : AddsNode text memberTag :=
  .skip .upcoming fun _ => .skip (.require _) fun _ => .bind (.anyName (by decide)) fun head =>
    dotted_follows head (by decide)

theorem tagName_adds (reserved : List String) : AddsNode text (tagName reserved) :=
  .orElse (namespaceName_adds reserved) <|
    .orElse (.bind memberTag_adds fun path => .skip (.require _) fun _ => .pure (by simp))
      (.leaf tagWord?_reads (by decide))

theorem memberEnd_adds (rule : Cursor.BreakRule) : AddsNodes text (memberEnd rule) :=
  .skip .complete fun _ => .orElse (Adds.mark "," (by decide)).list (.semicolon rule)

theorem modulePath_adds (alone : Bool) : AddsNode text (modulePath alone) := by
  refine .bind (.anyName (by decide)) fun head => .when .complete <|
    .bind_follows (dotted_follows head (by decide)) fun path => ?_
  refine .relabelled (.cons ?_ .nil)
  split
  · exact path.relabels_withKind (by decide)
  · exact Node.relabels_of_bare_eq rfl

/-- What was read between two tags has no role. -/
theorem elementChild_role (hroles : Ensures g.element (·.role = none)) :
    Ensures g.elementChild (·.role = none) :=
  .orElse (.leafHere _ _) <| .orElse (.leaf _ _) <|
    .orElse (.bind fun _ => .bind fun _ => .bind fun _ => .node _ _) (.bind fun _ => hroles)

theorem elementRule_role (inner : Bool) : Ensures (g.elementRule inner) (·.role = none) := by
  unfold elementRule bracketed
  refine .within (.bind fun left => .bind fun head => .orElse (.bind fun right => .node _ _) ?_) _
  exact .bind fun right => .bind fun opening => .bind fun children => .bind fun left => .bind fun name =>
    .bind fun right => .bind fun closing => .node _ _

/-- An element starts with its opening tag and ends with its closing tag. -/
theorem elementNode_follows {opening left : Node} (right : Node) {children name : List Node}
    (hroles : ∀ n ∈ children, n.role = none) :
    Follows text (opening :: children ++ (left :: name ++ [right])) (do
      let closing ← node Construct.jsxClosingElement (left :: name ++ [right])
      node Construct.jsxElement (opening.withRole .openTag :: children ++ [closing.withRole .closeTag]))
      fun n => [n] := by
  intro c₀ c n c' hreach h
  obtain ⟨closing, c₁, hclosing, hnode⟩ := bind_eq_some h
  cases hnode
  have htag := Follows.nodeAfter (opening :: children) (by simp) hreach hclosing
  have hstop : closing.stop = c'.last := by
    cases hclosing
    rfl
  have hroled : (opening :: children ++ [closing]).map Node.bare =
      ([] ++ (opening.withRole .openTag :: children ++ [closing.withRole .closeTag])).map Node.bare := by
    simp
  have hfull := htag.congr hroled
  have hnone : children.find? (·.role == some .closeTag) = none :=
    List.find?_eq_none.mpr fun n hn => by simp [hroles n hn]
  refine hfull.node (by simp) ⟨nofun, nofun, nofun, fun _ => ⟨?_, ?_⟩⟩
  · simp [Node.child?, Node.children, Node.start, Node.span]
  · simp [Node.child?, Node.children, hnone]
    exact hstop

section

variable (hg : g.Adds text)

include hg

theorem restPattern_adds : AddsNode text g.restPattern :=
  .bind (.mark "..." (by decide)) fun dots => .bind (hg _) fun p => .skip (.require _) fun _ =>
    .node (by simp)

theorem patternWithDefault_adds : AddsNode text g.patternWithDefault :=
  .bind (hg _) fun left => .orElse
    (.skip (.require _) fun _ => .bind .assignMark fun eq => .bind (hg _) fun right => .node (by simp))
    (.pure (by simp))

theorem patternMember_adds {destructuring : Parse Node} (hdestructuring : AddsNode text destructuring) :
    AddsNode text (g.patternMember destructuring) := by
  refine .orElse (restPattern_adds hg) (.orElse ?_ ?_)
  · exact .bind (.asRole _ (propertyName_adds hg)) fun key => .bind (.mark ":" (by decide)) fun colon =>
      .bind (.asRole _ (patternWithDefault_adds hg)) fun value => .node (by simp)
  · exact .bind (.orElse (.anyName (by decide)) hdestructuring) fun left => .orElse
      (.bind .assignMark fun eq => .bind (hg _) fun right => .node (by simp))
      (.skip (.require _) fun _ => .pure (by simp))

theorem arrayPattern_adds : AddsNode text g.arrayPattern :=
  enclosed_adds (by decide) (patternWithDefault_adds hg).commaHoles

theorem objectPattern_adds : AddsNode text g.objectPattern := by
  refine enclosed_adds (by decide) (.commaHoles (patternMember_adds hg ?_))
  exact .skip (.nextIn _) fun _ => .bind (hg _) fun p => .skip (.require _) fun _ => .pure (by simp)

theorem destructuring_adds : AddsNode text g.destructuring :=
  .orElse (objectPattern_adds hg) (arrayPattern_adds hg)

theorem bindingTarget_adds (reserved : List String) : AddsNode text (g.bindingTarget reserved) :=
  .orElse (destructuring_adds hg) (.nameBut _ (by decide))

theorem spread_adds : AddsNode text g.spread :=
  .bind (.mark "..." (by decide)) fun dots => .bind (hg _) fun e => .node (by simp)

theorem elementExpression_adds : AddsNode text g.elementExpression :=
  enclosed_adds (by decide) (.opt1 (.orElse (spread_adds hg) (hg _)))

theorem elementAttribute_adds : AddsNode text g.elementAttribute := by
  have hvalue := Adds.orElse .attributeString (.orElse (elementExpression_adds hg) (hg (.element true)))
  exact .bind (.orElse (namespaceName_adds _) (.leaf tagWord?_reads (by decide))) fun name =>
    .bind (.opt (.bind (.mark "=" (by decide)) fun eq => .bind hvalue fun v => .pure (by simp))) fun value =>
    .node (by simp)

theorem elementChild_adds : AddsNode text g.elementChild :=
  .orElse (.leafHere elementText?_reads (by decide)) <| .orElse (.leaf reference?_reads (by decide)) <|
    .orElse (elementExpression_adds hg) (.skip (.notAhead _) fun _ => hg _)

theorem elementRule_adds (hroles : Ensures g.element (·.role = none)) (inner : Bool) :
    AddsNode text (g.elementRule inner) := by
  refine .bracketed <| .bind (.mark "<" (by decide)) fun left => .bind (.opt ?_) fun head => .orElse ?_ ?_
  · exact .skip .upcoming fun cs => .skip .nextName fun w => .skip (.require _) fun _ =>
      .bind (tagName_adds _) fun name => .either (typeArguments_adds hg).opt1 (.pure rfl) fun targs =>
      .skip .nextName fun w => .skip (.require _) fun _ =>
      .bind (.many1 (.orElse (elementExpression_adds hg) (elementAttribute_adds hg))) fun attributes =>
      .pure (by simp)
  · exact .bind (.mark "/>" (by decide)) fun right => .node (by simp)
  · have hchild := (elementChild_adds hg).list.orElse (.skip .htmlComment fun _ => .pure rfl)
    have hnone : ∀ n ∈ ([] : List Node), n.role = none := fun n hn => by cases hn
    refine .bind (.mark ">" (by decide)) fun right => .bind_follows (.node (by simp)) fun opening =>
      .bind_ensured (P := fun ns => ∀ n ∈ ns, n.role = none) (.many hchild) (.many ?_) fun children hchildren =>
      .bind (.mark "</" (by decide)) fun left => .bind (.opt1 (.asRole _ (tagName_adds _))) fun name =>
      .bind (.mark ">" (by decide)) fun right => ?_
    · exact (elementChild_role hroles).list.orElse (.bind fun _ => .pure hnone)
    · simpa using elementNode_follows right hchildren

theorem objectMember_adds : AddsNode text g.objectMember := by
  refine .orElse (spread_adds hg) ?_
  refine .bind (modifiers_adds _) fun ms => .bind (propertyName_adds hg) fun name =>
    .bind (.opt1 (.mark "?" (by decide))) fun optional => .orElse ?_ ?_
  · exact .skip (.nextIn _) fun _ => .bind (callHead_adds hg) fun head => .bind (.asRole _ (hg _)) fun body =>
      (.node (by simp))
  · refine .require fun hplain => ?_
    obtain ⟨rfl, rfl⟩ : ms = [] ∧ optional = [] := by simpa using hplain
    refine .orElse ?_ ?_
    · exact .bind (.mark ":" (by decide)) fun colon => .bind (.asRole _ (hg _)) fun value => .node (by simp)
    · exact .skip (.require _) fun _ => .relabelled (.cons (name.relabels_withKind (by decide)) .nil)

theorem object_adds : AddsNode text g.object := enclosed_adds (by decide) (objectMember_adds hg).commaHoles

theorem array_adds : AddsNode text g.array :=
  enclosed_adds (by decide) (.commaHoles (.orElse (spread_adds hg) (hg _)))

theorem parenthesized_adds : AddsNode text g.parenthesized :=
  enclosed_adds (by decide) <| .bind (hg _) fun e =>
    .either (.pure rfl) (typeAscription_adds hg).opt1 fun t => .pure (by simp)

theorem functionExpression_adds : AddsNode text g.functionExpression :=
  .bind (.opt1 (.keyword _)) fun async => .bind (.keyword _) fun k =>
    .bind (.opt1 (.mark "*" (by decide))) fun star =>
    .bind (.opt1 (.asRole _ (.anyName (by decide)))) fun name => .bind (callHead_adds hg).unbroken fun head =>
    .bind (.asRole _ (hg _)) fun body => .node ⟨by simp, by simp, by split <;> decide⟩

theorem destructuringAssignment_adds : AddsNode text g.destructuringAssignment :=
  .bind (.asRole _ (destructuring_adds hg)) fun left => .bind .assignMark fun eq =>
    .bind (hg _) fun right => .node (by simp)

omit hg in
theorem objectAhead_adds : AddsNothing text g.objectAhead :=
  .of_same fun c a c' h => by
    unfold objectAhead at h
    split at h
    · split at h
      all_goals
        cases h
        exact ⟨rfl, rfl, rfl, rfl⟩
    · cases h
      exact ⟨rfl, rfl, rfl, rfl⟩

theorem arrowBody_adds : AddsNode text g.arrowBody :=
  .skip .upcoming fun _ => .ite (hg _) <| .skip objectAhead_adds fun _ =>
    .ite (.orElse (hg _) (hg _)) (.overruled (hg _) _ (destructuringAssignment_adds hg))

theorem arrowTail_follows (head : List Node) : Follows text head (g.arrowTail head) fun n => [n] :=
  .bind (.mark "=>" (by decide)) fun arrow => .bind (.asRole _ (arrowBody_adds hg)) fun body =>
    .node (by simp)

theorem arrowFunction_adds {parameters : Parse Node} (hparameters : AddsNode text parameters) :
    AddsNode text (g.arrowFunction parameters) := by
  have hasync : AddsNode text (do
      let k ← keyword "async"
      sameStatement .expression
      return k) := .bind (.keyword _) fun k => .skip (.sameStatement _) fun _ => .pure (by simp)
  refine .bind hasync.opt1 fun async => .skip (.nextIn _) fun _ =>
    .bind (typeParameters_adds hg).opt1 fun tps =>
    .bind (.asRole _ hparameters) fun ps => .skip .get fun c => ?_
  extract_lets condition typed
  have htyped (functions : Bool) :
      Follows text (async ++ tps ++ [ps]) (typed functions) fun n => [n] :=
    .bind ((resultType_adds hg).within _) fun t => .bind_follows (arrowTail_follows hg _) fun f =>
      .when (.nextIn _) (.pure (by simp))
  exact .orElse (arrowTail_follows hg _) (.orElse (htyped false) (htyped true))

theorem shortArrow_adds : AddsNode text g.shortArrow :=
  .bind (.asRole _ (.nameBut _ (by decide))) fun name => .skip .complete fun _ => arrowTail_follows hg [name]

theorem shortAsyncArrow_adds : AddsNode text g.shortAsyncArrow :=
  .bind (.keyword _) fun async => .skip (.sameStatement _) fun _ =>
    .bind (.asRole _ (.anyName (by decide))) fun name =>
    arrowTail_follows hg [async, name]

theorem asyncOperand_adds : AddsNode text g.asyncOperand :=
  .orElse (.skip (.ahead _) fun _ => functionExpression_adds hg) <| .orElse (shortAsyncArrow_adds hg) <|
    .orElse (shortArrow_adds hg) <|
    .orElse (arrowFunction_adds hg (tentativeParameters_adds hg)) (.anyName (by decide))

theorem baseClass_adds :
    AddsNodes text (do
      let e ← g.expression
      match e with
      | .mk (.construct .instantiationExpression) _ _ [x, targs] => return [x.withRole .value, targs]
      | e => return [e.withRole .value]) := by
  refine .bind (hg _) fun e => ?_
  split
  case h_1 => exact .unwrap [] (.pure (by simp [Node.children]))
  case h_2 => exact .pure (by simp)

theorem heritage_adds : AddsNode text g.heritage := by
  refine .bind (.opt1 (.bind (.keyword _) fun k =>
      .bind (baseClass_adds hg).commaItems fun items => .node (by simp)))
    fun bases => .bind (.opt1 ?_) fun interfaces => .require fun hsome => ?_
  · exact .of_follows <| .either (.keyword _) (.joint _ (by decide)) fun k =>
      .bind (.commaItems (hg _).list) fun items => .node (by simp)
  · refine .node ⟨by simp, ?_, by decide⟩
    rintro heq
    obtain ⟨rfl, rfl⟩ := List.append_eq_nil_iff.mp heq
    simp at hsome

theorem namedMember_adds : AddsNodes text g.namedMember := by
  have hsign (field : Bool) : AddsNode text (do
      if field then sameStatement .plain
      asComplete (mark "?" <|> mark "!")) :=
    .of_follows <| .when (.sameStatement _) <|
    .adds (.asComplete (.orElse (.mark "?" (by decide)) (.mark "!" (by decide))))
  refine .bind (decorator_adds hg).many1 fun decorators => .bind (modifiers_adds _) fun ms =>
    .bind (.asRole _ (memberKey_adds hg _ _)) fun name => .when .complete <|
    .bind (hsign _).opt1 fun sign => .orElse ?_ ?_
  · refine .when (.sameStatement _) <| .skip (.nextIn _) fun _ => .skip (.require _) fun _ =>
      .bind (callHead_adds hg) fun head => .orElse ?_ ?_
    · exact .skip (.require _) fun _ => .bind (.asRole _ (hg _)) fun body =>
        .bind_follows (.nodeAfter decorators (by simp)) fun m => .bind (.opt (.semicolon _)) fun stop =>
        .pure (by simp)
    · refine .require fun hnone => ?_
      obtain rfl : decorators = [] := by simpa using hnone
      refine .ite (fun _ => ?_) fun _ => ?_
      all_goals
        exact .skip (.require _) fun _ => .bind_follows (.node (by simp)) fun m =>
          .bind (memberEnd_adds _) fun stop => .pure (by simp)
  · exact .skip (.require _) fun _ => .bind (typeAscription_adds hg).opt1 fun type =>
      .bind (initializer_adds hg).opt fun init => .bind_follows (.node (by simp)) fun m =>
      .bind (memberEnd_adds _) fun stop => .pure (by simp)

theorem indexMember_adds : AddsNodes text g.indexMember :=
  .bind (indexSignature_adds hg) fun s => .bind (memberEnd_adds _) fun stop => .pure (by simp)

theorem staticBlock_adds : AddsNodes text g.staticBlock :=
  .bind (.keyword _) fun k => .skip (.sameStatement _) fun _ => .bind (.asRole _ (hg _)) fun body =>
    .bind_follows (.node (by simp)) fun block => .pure (by simp)

theorem classMember_adds : AddsNodes text g.classMember := by
  refine .skip .nextName fun w => ?_
  split
  case h_1 => exact .orElse (staticBlock_adds hg) (namedMember_adds hg)
  case h_2 => exact .orElse (indexMember_adds hg) (namedMember_adds hg)
  case h_3 => exact namedMember_adds hg
  case h_4 =>
    refine .skip .upcoming fun cs => ?_
    split
    case h_1 => exact (Adds.mark ";" (by decide)).list
    case h_2 | h_3 => exact indexMember_adds hg
    case h_4 => exact .orElse (indexMember_adds hg) (.skip (.notAhead _) fun _ => namedMember_adds hg)
    case h_5 => exact namedMember_adds hg

theorem classBody_adds : AddsNode text g.classBody :=
  .bind (.mark _ (by decide)) fun left => .bind (classMember_adds hg).many.blocked fun members =>
    .bind (.mark _ (by decide)) fun right => .node (by simp)

theorem classRest_adds (reserved : List String) : AddsNodes text (g.classRest reserved) :=
  .bind (.opt1 (.asRole _ (.nameBut _ (by decide)))) fun name =>
    .bind (typeParameters_adds hg).opt1 fun tps =>
    .bind (heritage_adds hg).unbroken.opt1 fun bases => .bind (.asRole _ (classBody_adds hg)) fun body =>
    .pure (by simp)

theorem classExpression_adds : AddsNode text g.classExpression :=
  .bind (decorator_adds hg).many1 fun decorators => .bind (.keyword _) fun k =>
    .bind (classRest_adds hg _) fun rest => .node (by simp)

theorem moduleRest_adds : AddsNodes text g.moduleRest :=
  .bind (.asRole _ (.orElse .string (modulePath_adds _))) fun name => .skip .upcoming fun cs =>
    .ite (fun _ => .bind (.asRole _ (hg _)) fun body => .pure (by simp)) fun _ => .pure (by simp)

theorem importOperand_adds : AddsNode text g.importOperand := by
  refine .orElse ?_ (.bind importWord_adds fun n => .orElse ?_ ?_)
  · exact .bind (.keyword _) fun k => .bind (.mark "." (by decide)) fun dot => .bind (.keyword _) fun m =>
      .node (by simp)
  · exact .bind (.mark "?." (by decide)) fun dot => .bind_follows (.nodeAfter [n] (by simp)) fun chain =>
      .bind memberName_adds fun m => .node (by simp)
  · exact .bind (typeArguments_adds hg).opt1 fun targs => .bind (arguments_adds hg) fun args =>
      .node (by simp)

theorem primaryWord_adds (w : String) : AddsNode text (g.primaryWord w) := by
  unfold primaryWord
  split
  case h_1 => exact functionExpression_adds hg
  case h_2 => exact asyncOperand_adds hg
  case h_3 => exact classExpression_adds hg
  case h_10 => exact importOperand_adds hg
  case h_11 => exact .orElse (shortArrow_adds hg) (.nameBut _ (by decide))
  all_goals exact word_adds _ _ (by decide)

theorem primary_adds : AddsNode text g.primary := by
  refine .skip .upcoming fun cs => ?_
  split
  case h_1 => exact primaryWord_adds hg _
  case h_2 =>
    split
    case h_1 =>
      exact .orElse (arrowFunction_adds hg (tentativeParameters_adds hg))
        (.overruled (parenthesized_adds hg) _ (arrowFunction_adds hg (formalParameters_adds hg)))
    case h_2 => exact arrowFunction_adds hg (formalParameters_adds hg)
    case h_3 => exact array_adds hg
    case h_4 => exact object_adds hg
    case h_5 => exact templateString_adds hg
    case h_6 | h_7 => exact .string
    case h_8 => exact .regex
    case h_9 => exact classExpression_adds hg
    case h_10 => exact .number

theorem memberStep_follows (front : List Node) (n : Node) :
    Follows text (front ++ [n]) (g.memberStep n) fun m => front ++ [m] := by
  refine .skip .upcoming fun cs => ?_
  split
  case h_1 => exact .failure
  case h_2 =>
    exact .bind (.mark "." (by decide)) fun dot => .bind memberName_adds fun m => .nodeAfter front (by simp)
  case h_3 =>
    refine .skip (.require _) fun _ => .bind (.mark "?." (by decide)) fun dot =>
      .bind_follows (.nodeAfter (front ++ [n]) (by simp)) fun chain => .orElse ?_ ?_
    · exact .bind (.mark "[" (by decide)) fun left => .bind (hg _).bracketed fun i =>
        .bind (.mark "]" (by decide)) fun right => .nodeAfter front (by simp)
    · exact .bind memberName_adds fun m => .nodeAfter front (by simp)
  case h_4 =>
    exact .bind (.mark "[" (by decide)) fun left => .bind (hg _).bracketed fun i =>
      .bind (.mark "]" (by decide)) fun right => .nodeAfter front (by simp)
  case h_5 => exact .failure

theorem primaryStep_follows (front : List Node) (n : Node) :
    Follows text (front ++ [n]) (g.primaryStep n) fun m => front ++ [m] := by
  refine .skip .upcoming fun cs => ?_
  split
  case h_1 => exact .bind (templateString_adds hg) fun t => .nodeAfter front (by simp)
  case h_2 =>
    exact .skip (.require _) fun _ => .bind (.mark "?." (by decide)) fun dot =>
      .bind (typeArguments_adds hg).opt1 fun targs =>
      .bind (arguments_adds hg) fun args => .nodeAfter front (by simp)
  case h_3 => exact .failure

theorem simplePlace_adds : AddsNode text g.simplePlace := by
  refine .bind (show AddsNode text _ from .orElse (word_adds _ _ (by decide)) <|
      .orElse (word_adds _ _ (by decide)) <|
      .orElse (word_adds _ _ (by decide)) <|
      .orElse (.nameBut _ (by decide)) (.skip (.ahead _) fun _ => ?_)) fun head =>
    .skip .complete fun _ => .extend [] (fun n => .asComplete ?_) head
  · exact .orElse (object_adds hg) (array_adds hg)
  · exact .skip (.sameStatement _) fun _ => .orElse (memberStep_follows hg [] n)
      (.bind (.markBefore "!" _ (by decide)) fun m => .node (by simp))

theorem place_adds : AddsNode text g.place := by
  refine .skip .get fun c => ?_
  extract_lets simple assignable
  have hassignable {read : Parse Node} (hread : AddsNode text read) : AddsNode text (assignable read) :=
    .bind hread fun p => .skip (.require _) fun _ => .pure (by simp)
  exact .ite (hassignable (simplePlace_adds hg))
    (.orElse (hassignable (hg _)) (hassignable (simplePlace_adds hg)))

theorem target_adds {brackets : Parse Node} (hbrackets : AddsNode text brackets) :
    AddsNode text (g.target brackets) :=
  .orElse (.bind hbrackets fun p => .skip (.notAhead _) fun _ => .pure (by simp)) (place_adds hg)

theorem patternRule_adds : AddsNode text g.patternRule :=
  .bind (.orElse (restPattern_adds hg) (target_adds hg (destructuring_adds hg))) fun p =>
    .skip .complete fun _ => .pure (by simp)

end

end SourceChange.Syntax.Rules
