import SourceChange.Proofs.Syntax.Operands
import SourceChange.Syntax.Grammar.Operators

/-!
Operators and their operands as nodes.
-/

namespace SourceChange.Syntax

theorem Cursor.dropTrivia_suffix (n : Nat) (seen : Bool) (cs : List Char) :
    (dropTrivia n seen cs).2 <:+ cs := by
  fun_induction dropTrivia n seen cs with
  | case1 => exact List.suffix_refl _
  | case2 => exact List.suffix_refl _
  | case3 _ _ c cs _ ih => exact ih.trans (List.suffix_cons c cs)
  | case4 _ _ _ _ _ t r hcomment ih =>
    obtain ⟨htext, -⟩ := comment?_reads hcomment
    exact ih.trans ⟨t, htext⟩
  | case5 => exact List.suffix_refl _

namespace Rules

open Parse

variable {text : List Char} {g : Rules}

theorem conditionPosition_reaches {c c' : Cursor} (hgood : c.Good text)
    (h : conditionPosition c = some c') : c.Reaches text c' [] := by
  unfold conditionPosition at h
  extract_lets c₁ at h
  have hreach : c.Reaches text c₁ [] := hgood.skipCommentsFrom _ _
  have hdrop : ∀ x : Bool × List Char, x.2 <:+ c₁.rest →
      (if x.1 then none else some (c₁.past (c₁.rest.take (c₁.rest.length - x.2.length)) x.2)) = some c' →
      c.Reaches text c' [] := by
    intro x hsuffix heq
    rw [Option.ite_none_left_eq_some] at heq
    obtain ⟨-, heq⟩ := heq
    cases heq
    refine hreach.then_nothing (hreach.good.past ?_)
    rw [List.suffix_iff_eq_drop] at hsuffix
    exact (congrArg _ hsuffix).trans (List.take_append_drop _ _)
  by_cases hbreaks : c.mode.breaks = true
  · rw [if_pos hbreaks] at h
    exact hdrop _ (Cursor.dropTrivia_suffix ..) h
  · rw [if_neg hbreaks] at h
    exact hdrop (false, _) (List.dropWhile_suffix _) h

theorem conditionMark_adds : AddsNode text conditionMark := by
  intro c n c' hgood h
  unfold conditionMark at h
  split at h
  case h_1 => cases h
  case h_2 c₁ hposition =>
    have hreach := conditionPosition_reaches hgood hposition
    split at h
    case h_1 =>
      rw [Option.ite_none_left_eq_some] at h
      have hread := Adds.leafHere (exactly_reads (by decide)) (by decide) hreach.good h.2
      exact hreach.trans hread
    case h_2 => cases h

theorem toList_ne_nil_of_spelled? {α : Type} {table : List (String × α)} {cs : List Char} {o : String} {a : α}
    (h : spelled? table cs = some (o, a)) (htable : ∀ entry ∈ table, entry.1.toList ≠ []) :
    o.toList ≠ [] :=
  htable _ (List.mem_of_find?_eq_some h)

theorem binaryOperators_ne_nil : ∀ entry ∈ binaryOperators, entry.1.toList ≠ [] := by decide

theorem wordOperators_ne_nil : ∀ entry ∈ wordOperators, entry.1.toList ≠ [] := by decide

theorem toList_ne_nil_of_assignOperator? {cs : List Char} {o : String} (h : assignOperator? cs = some o) :
    o.toList ≠ [] := by
  have htable : ∀ o ∈ assignOperators, o.toList ≠ [] := by decide
  exact htable o (List.mem_of_find?_eq_some h)

theorem newTarget_adds : AddsNode text newTarget :=
  .bind (.keyword _) fun k => .bind (.mark "." (by decide)) fun dot => .bind (.keyword _) fun t =>
    .node (by simp)

theorem newName_adds : AddsNode text newName :=
  .bind (.anyName (by decide)) fun n => .skip (.notAhead _) fun _ => .skip (.notAhead _) fun _ =>
    .pure (by simp)

section

variable (hg : g.Adds text)

include hg

theorem operandTypeArguments_adds : AddsNode text g.operandTypeArguments := by
  refine .bind (.mark "<" (by decide)) fun left => .skip .nextName fun w => .skip (.require _) fun _ =>
    .bind (show AddsNodes text _ from .within ?_ _) fun items => .skip .upcoming fun next => ?_
  · exact .bind (.commaItems (hg _).list) fun items => .bind (.opt1 (.mark "," (by decide))) fun last =>
      .pure (by simp)
  · extract_lets rest
    have hrest : Follows text (left :: items) (rest ()) fun n => [n] :=
      .bind (.mark ">" (by decide)) fun right => .skip .complete fun _ => .node (by simp)
    split
    · exact .skip (.require _) fun _ => hrest
    · exact hrest

theorem comparisonChain_follows (stop : Nat) (n : Node) :
    Follows text [n] (g.comparisonChain stop n) fun m => [m] := by
  refine .bind (.mark "<" (by decide)) fun m => .skip (.isAhead _) fun beyond => .bind (hg _) fun right =>
    .skip .get fun c => ?_
  extract_lets reached joined rest
  have hrest : Follows text [n, m, right] (rest ()) fun m => [m] := .when .fullWords (.node (by simp))
  exact .ite (fun _ => .skip (.ahead _) fun _ => hrest)
    fun _ => .skip (.notAhead _) fun _ => .skip (.require _) fun _ => hrest

theorem instantiation_follows (pending : Pending) (n : Node) :
    Follows text [n] (g.instantiation pending n) fun m => [m] := by
  intro c₀ c m c' hreach h
  unfold instantiation at h
  split at h
  case h_1 => cases h
  case h_2 targs c₁ htargs =>
    have hread : c₀.Reaches text c₁ [n, targs] :=
      hreach.trans (operandTypeArguments_adds hg hreach.good htargs)
    have halone : Follows text [n, targs] (node Construct.instantiationExpression [n, targs]) fun m => [m] :=
      (.node (by simp))
    split at h
    case h_1 =>
      have hcall : Follows text [n, targs] (do
          require (pending != Pending.asserted)
          let args ← g.arguments
          node Construct.callExpression [n.withRole .function, targs, args.withRole .arguments]) fun m =>
          [m] :=
        .skip (.require _) fun _ => .bind (arguments_adds hg) fun args => .node (by simp)
      exact hcall hread h
    case h_2 => cases h
    case h_3 =>
      dsimp only at h
      split at h
      · split at h
        · cases h
          exact comparisonChain_follows hg _ n hreach ‹_›
        · exact halone hread h
      · exact halone hread h

theorem binaryStep_follows (pending : Pending) (n : Node) {o : String} (level : Nat) (ho : o.toList ≠ []) :
    Follows text [n] (g.binaryStep pending n o level) fun m => [m] := by
  refine .skip (.require _) fun _ => .bind (.joint o ho) fun m => ?_
  extract_lets rest
  have hrest : Follows text [n, m] (rest ()) fun m => [m] :=
    .bind (hg _) fun right => .when .fullWords (.node (by simp))
  exact .ite (fun _ => .skip .nextName fun w => .skip (.require _) fun _ => hrest) fun _ => hrest

theorem conditional_follows (n : Node) : Follows text [n] (g.conditional n) fun m => [m] :=
  .bind conditionMark_adds fun q => .bind ((hg _).within _) fun yes =>
    .bind (.mark ":" (by decide)) fun colon =>
    .bind (hg _) fun no => .node (by simp)

theorem assignment_follows (n : Node) : Follows text [n] (g.assignment n) fun m => [m] :=
  .skip (.require _) fun _ => .bind .assignMark fun eq => .bind (hg _) fun right => .node (by simp)

theorem combinedAssignment_follows (n : Node) {o : String} (ho : o.toList ≠ []) :
    Follows text [n] (g.combinedAssignment n o) fun m => [m] :=
  .skip (.require _) fun _ => .bind (.mark o ho) fun m => .bind (hg _) fun right => .node (by simp)

theorem typedOperand_follows (n : Node) {w : String} (hw : w.toList ≠ []) :
    Follows text [n] (g.typedOperand n w) fun m => [m] := by
  refine .bind (.joint w hw) fun k => .bind (show AddsNode text _ from .orElse ?_ ((hg _).within _)) fun t =>
    .skip .fullWords fun _ => .node ⟨by simp, by simp, by split <;> decide⟩
  exact .skip (.require _) fun _ => .bind (.keyword _) fun c => .skip .nextName fun w =>
    .skip (.require _) fun _ => .pure (by simp)

theorem operandStep_follows (pending : Pending) (n : Node) :
    Follows text [n] (g.operandStep pending n) fun m => [m] := by
  refine .skip (.sameStatement _) fun _ => .skip .upcoming fun next => ?_
  split
  case h_1 => exact .skip (.require _) fun _ => memberStep_follows hg [] n
  case h_2 => exact .skip (.require _) fun _ => .skip (.require _) fun _ => memberStep_follows hg [] n
  case h_3 => exact .bind (arguments_adds hg) fun args => .node (by simp)
  case h_4 => exact .skip (.require _) fun _ => primaryStep_follows hg [] n
  case h_5 =>
    refine .orElse (.skip (.require _) fun _ => memberStep_follows hg [] n) <|
      .orElse (.skip (.require _) fun _ => primaryStep_follows hg [] n) ?_
    split
    case h_1 o hfound => exact combinedAssignment_follows hg n (toList_ne_nil_of_assignOperator? hfound)
    case h_2 =>
      split
      · exact binaryStep_follows hg pending n 0 (by decide)
      · exact .skip (.require _) fun _ => conditional_follows hg n
  case h_6 =>
    split
    case h_1 o level hfound =>
      exact binaryStep_follows hg pending n level (toList_ne_nil_of_spelled? hfound binaryOperators_ne_nil)
    case h_2 => exact assignment_follows hg n
  case h_7 =>
    split
    case h_1 o hfound => exact combinedAssignment_follows hg n (toList_ne_nil_of_assignOperator? hfound)
    case h_2 =>
      split
      case h_1 | h_2 =>
        exact .skip (.require _) fun _ =>
          .bind (.orElse (.mark "++" (by decide)) (.mark "--" (by decide))) fun m => .node (by simp)
      case h_3 =>
        split
        case h_1 level _ =>
          exact .skip (.require _) fun _ => .orElse (instantiation_follows hg pending n)
            (binaryStep_follows hg pending n level (by decide))
        case h_2 o level _ hfound =>
          exact binaryStep_follows hg pending n level (toList_ne_nil_of_spelled? hfound binaryOperators_ne_nil)
        case h_3 => 
          split
          case h_1 => exact .skip (.require _) fun _ => .bind (.mark "!" (by decide)) fun m => .node (by simp)
          case h_2 =>
            split
            case h_1 o level hfound =>
              have ho := toList_ne_nil_of_spelled? hfound wordOperators_ne_nil
              refine .skip .get fun c => .skip .nextName fun w => .skip (.require _) fun _ => ?_
              split
              · exact binaryStep_follows hg pending n _ ho
              · exact .skip (.require _) fun _ => typedOperand_follows hg n ho
            case h_2 => exact .failure
  case h_8 => exact .failure

theorem construction_adds : AddsNode text g.construction := by
  refine .orElse newTarget_adds <| .bind (.keyword _) fun k => .skip (.sameStatement _) fun _ =>
    .skip .nextName fun w => .skip (.require _) fun _ => .skip .nextName fun w' =>
    .either (.orElse newTarget_adds newName_adds) (primary_adds hg) fun c => ?_
  refine .bind_follows (.extend [k] (fun n => ?_) c) fun c => ?_
  · exact .skip (.sameStatement _) fun _ =>
      .orElse (memberStep_follows hg [k] n) (primaryStep_follows hg [k] n)
  · refine .skip .complete fun _ => .skip (.isAhead _) fun angle =>
      .either (typeArguments_adds hg).list (.pure rfl) fun targs => .bind (.opt1 ?_) fun args =>
      .node (by simp)
    exact .skip (.sameStatement _) fun _ => .asRole _ (arguments_adds hg)

theorem newOperand_adds : AddsNode text g.newOperand :=
  .orElse (construction_adds hg) (.orElse (shortArrow_adds hg) newName_adds)

theorem yieldExpression_adds : AddsNode text g.yieldExpression := by
  refine .bind (.keyword _) fun k => .bind (.opt ?_) fun value => .when (.notAhead _) (.node (by simp))
  exact .skip (.sameStatement _) fun _ => .skip .nextName fun w => .skip (.require _) fun _ =>
    .bind (.opt1 (.mark "*" (by decide))) fun star => .bind (hg _) fun e => .pure (by simp)

theorem usingExpression_adds : AddsNode text g.usingExpression :=
  .bind (.keyword _) fun k =>
    .bind (.asRole _ (target_adds hg (.orElse (parenthesized_adds hg) (destructuring_adds hg)))) fun left =>
    .bind .assignMark fun eq => .bind (hg _) fun right => .node (by simp)

theorem namespaceExpression_adds : AddsNode text g.namespaceExpression := by
  refine .bind (.keyword _) fun k => .skip (.sameStatement _) fun _ => .skip .nextName fun w =>
    .skip (.require _) fun _ => .bind (show AddsNodes text _ from .within ?_ _) fun rest =>
    .skip (.isAhead _) fun hasBody => .either (Adds.asRole _ (hg _)).list (.pure rfl) fun body =>
    .node (by simp)
  exact .bind (.asRole _ (.orElse .string (modulePath_adds _))) fun name => .pure (by simp)

theorem prefixed_adds {kind : Construct} {sign : Parse Node} (pending : Pending) (hsign : AddsNode text sign)
    (hkind : (Kind.construct kind).isEnclosed = false) : AddsNode text (g.prefixed kind sign pending) :=
  .bind hsign fun m => .bind (hg _) fun e =>
    .node ⟨by simp, by simp, hkind⟩

theorem wordOperand_adds (w : String) : AddsNode text (g.wordOperand w) := by
  unfold wordOperand
  split
  case h_1 | h_2 | h_3 => exact prefixed_adds hg _ (.keyword _) (by decide)
  case h_4 => exact prefixed_adds hg _ (.keyword _) (by decide)
  case h_5 => exact yieldExpression_adds hg
  case h_6 => exact usingExpression_adds hg
  case h_7 => exact newOperand_adds hg
  case h_8 => exact .orElse (namespaceExpression_adds hg) (primary_adds hg)
  case h_9 => exact primary_adds hg

theorem operandHead_adds : AddsNode text g.operandHead := by
  refine .skip .upcoming fun next => ?_
  split
  case h_1 => exact wordOperand_adds hg _
  case h_2 =>
    split
    case h_1 | h_2 =>
      exact prefixed_adds hg _ (.orElse (.mark "++" (by decide)) (.mark "--" (by decide))) (by decide)
    case h_3 | h_4 | h_5 | h_6 => exact prefixed_adds hg _ (.mark _ (by decide)) (by decide)
    case h_7 =>
      exact .orElse (primary_adds hg) (.ite (hg _) (prefixed_adds hg _ (typeArguments_adds hg) (by decide)))
    case h_8 =>
      exact .bind privateName_adds fun p => .bind (.joint "in" (by decide)) fun k =>
        .bind (hg _) fun right => .node (by simp)
    case h_9 | h_10 =>
      refine .orElse (.bind (primary_adds hg) fun n => ?_) (destructuringAssignment_adds hg)
      exact .skip .complete fun _ => .skip (.notAhead _) fun _ => .pure (by simp)
    case h_11 => exact primary_adds hg

theorem placeStep_follows (n : Node) : Follows text [n] (g.placeStep n) fun m => [m] := by
  refine .skip (.sameStatement _) fun _ => .skip .upcoming fun next => ?_
  split
  case h_1 => exact .bind (arguments_adds hg) fun args => .node (by simp)
  case h_2 =>
    exact .bind_follows (instantiation_follows hg _ n) fun call => .skip (.require _) fun _ => .pure (by simp)
  case h_3 => exact .bind (.markBefore "!" _ (by decide)) fun m => .node (by simp)
  case h_4 =>
    exact .orElse (memberStep_follows hg [] n) (.skip (.require _) fun _ => primaryStep_follows hg [] n)

theorem operandRule_adds (pending : Pending) : AddsNode text (g.operandRule pending) := by
  refine .bind (operandHead_adds hg) fun head => .skip .complete fun _ => .extend [] (fun n => ?_) head
  refine .ite (fun _ => ?_) fun _ => ?_
  · exact .bind_follows (placeStep_follows hg n) fun m => .skip .complete fun _ => .pure (by simp)
  · exact .bind_follows (operandStep_follows hg pending n) fun m => .skip .complete fun _ => .pure (by simp)

theorem sequenceRule_adds : AddsNode text g.sequenceRule := by
  refine .bind (hg _) fun first => .bind (.many ?_) fun more => .ite (fun hnone => ?_) fun _ =>
    .node (by simp)
  · exact .skip (.sameStatement _) fun _ => .bind (.mark "," (by decide)) fun comma => .bind (hg _) fun e =>
      .pure (by simp)
  · obtain rfl : more = [] := by simpa using hnone
    exact .pure (by simp)

end

end Rules

end SourceChange.Syntax
