import SourceChange.Proofs.Syntax.Operators
import SourceChange.Syntax.Grammar.Statements

/-!
Declarations, imports, exports and statements as nodes.
-/

namespace SourceChange.Syntax.Rules

open Parse

variable {text : List Char} {g : Rules}

theorem importAlias_adds (reserved : List String) : AddsNode text (importAlias reserved) :=
  .bind (.keyword _) fun k => .bind (.nameBut _ (by decide)) fun name => .bind .assignMark fun eq =>
    .skip .nextName fun w => .skip (.require _) fun _ => .bind (modulePath_adds _) fun path =>
    .bind (.semicolon _) fun stop => .node (by simp)

theorem fromClause_adds : AddsNodes text fromClause :=
  .bind (.keyword _) fun k => .bind (.asRole _ .string) fun s => .pure (by simp)

theorem exportName_adds : AddsNode text exportName := .orElse .string (.anyName (by decide))

theorem otherName_adds {name : Parse Node} (hname : AddsNode text name) : AddsNodes text (otherName name) :=
  .bind (.joint "as" (by decide)) fun k => .bind (.asRole _ hname) fun n => .pure (by simp)

theorem importSpecifier_adds : AddsNode text importSpecifier := by
  unfold importSpecifier
  extract_lets plain ends
  have hplain : AddsNodes text plain := by
    refine .orElse ?_ (Adds.asRole _ (.nameBut _ (by decide))).list
    exact .skip .nextName fun w => .bind (.asRole _ (.orElse .string (.nameBut _ (by decide)))) fun name =>
      .skip .nextName fun w => .skip (.require _) fun _ =>
      .bind (otherName_adds (.anyName (by decide))) fun other => .pure (by simp)
  have hne : Ensures plain (· ≠ []) := by
    refine .orElse ?_ (.bind fun name => .pure (by simp))
    exact .bind fun w => .bind fun name => .bind fun w => .bind fun _ => .bind fun other => .pure (by simp)
  have hends : AddsNothing text ends := .nextIn _
  refine .orElse ?_ ?_
  · exact .of_follows <| .bind_ensured hplain hne fun parts hne => .skip hends fun _ =>
      .node ⟨by simp, hne, by decide⟩
  · exact .bind (.oneKeyword _) fun k => .skip .nextName fun w => .skip (.require _) fun _ =>
      .bind hplain fun parts => .skip hends fun _ => .node (by simp)

theorem namedImports_adds : AddsNode text namedImports :=
  enclosed_adds (by decide) importSpecifier_adds.looseList

theorem namespaceImport_adds : AddsNode text namespaceImport :=
  .bind (.mark "*" (by decide)) fun star => .bind (.joint "as" (by decide)) fun k =>
    .bind (.anyName (by decide)) fun name => .node (by simp)

theorem importClause_adds (reserved : List String) : AddsNode text (importClause reserved) := by
  have hnames : AddsNode text (namespaceImport <|> namedImports) :=
    .orElse namespaceImport_adds namedImports_adds
  refine .of_follows <| .bind_ensured (P := (· ≠ [])) (show AddsNodes text _ from .orElse hnames.list ?_) ?_
    fun parts hne => .node ⟨by simp, hne, by decide⟩
  · exact .bind (.nameBut _ (by decide)) fun name =>
      .bind (.opt (.bind (.mark "," (by decide)) fun comma => .bind hnames fun n =>
      .pure (by simp))) fun more => .pure (by simp)
  · exact .orElse (.bind fun n => .pure (by simp)) (.bind fun name => .bind fun more => .pure (by simp))

theorem importRequire_adds (reserved : List String) : AddsNode text (importRequire reserved) :=
  .bind (.nameBut _ (by decide)) fun name => .bind .assignMark fun eq => .bind (.keyword _) fun k =>
    .bind (.mark "(" (by decide)) fun left => .bind (.asRole _ .string) fun s =>
    .bind (.mark ")" (by decide)) fun right => .node (by simp)

theorem exportSpecifier_adds : AddsNode text exportSpecifier :=
  .bind (.opt1 (.oneKeyword _)) fun k => .bind (.asRole _ exportName_adds) fun name =>
    .bind (otherName_adds exportName_adds).opt fun other => .node (by simp)

theorem exportClause_adds : AddsNode text exportClause :=
  enclosed_adds (by decide) exportSpecifier_adds.looseList

theorem exportList_adds : AddsNodes text exportList :=
  .bind exportClause_adds fun c => .skip .complete fun _ =>
    .orElse (.bind (.semicolon _) fun stop => .pure (by simp))
    (.bind fromClause_adds fun source => .bind (.semicolon _) fun stop => .pure (by simp))

theorem declarationAhead_adds : AddsNothing text declarationAhead := by
  unfold declarationAhead
  extract_lets follows name
  have hfollows (w : String) (next : Parse Unit) : AddsNothing text (follows w next) := .isAhead _
  refine .skip .nextName fun w => ?_
  split
  case h_7 | h_8 => exact .skip .nextName fun _ => hfollows _ _
  case h_10 => exact .pure rfl
  case h_11 => exact .isAhead _
  all_goals exact hfollows _ _

theorem loopWord_adds : AddsNode text loopWord := .orElse (.joint "in" (by decide)) (.joint "of" (by decide))

theorem emptyStatement_adds : AddsNode text emptyStatement := .bind (.mark ";" (by decide)) fun s =>
  .node (by simp)

theorem ifWord_adds (w : String) {p : Parse Node} (hp : AddsNode text p) : AddsNodes text (ifWord w p) :=
  .skip .nextName fun _ => .ite hp.list (.pure rfl)

theorem jump_adds {kind : Construct} (w : String) (rule : Cursor.BreakRule) {value : Parse Node}
    (hvalue : AddsNode text value) (hkind : (Kind.construct kind).isEnclosed = false) :
    AddsNode text (jump kind w rule value) := by
  refine .bind (.keyword _) fun k => .skip .complete fun _ => .orElse ?_ ?_
  · exact .bind (.semicolon _) fun stop => .node ⟨by simp, by simp, hkind⟩
  · exact .bind hvalue fun v => .bind (.semicolon _) fun stop => .node ⟨by simp, by simp, hkind⟩

section

variable (hg : g.Adds text)

include hg

theorem blockRule_adds (place : BlockPlace) : AddsNode text (g.blockRule place) := by
  refine (Spells.mark rfl).bind_adds (.mark _ (by decide)) fun left hbrace htoken =>
    .bind (Adds.blocked (.many ?_)) fun body =>
    .bind (.mark _ (by decide)) fun right => .skip (.trailing _) fun _ =>
    bracketedNode_follows (.inl ⟨rfl, hbrace⟩) htoken (by simp)
  exact .skip (.notAhead _) fun _ => (hg _).list

theorem declarator_adds (reserved : List String) : AddsNode text (g.declarator reserved) := by
  refine .bind (.asRole _ (bindingTarget_adds hg _)) fun name => .skip .complete fun _ => .orElse ?_ ?_
  · exact .skip (.require _) fun _ => .skip (.sameStatement _) fun _ => .bind (.mark "!" (by decide)) fun m =>
      .bind (typeAscription_adds hg) fun t => .node (by simp)
  · exact .bind (typeAscription_adds hg).opt1 fun type => .bind (initializer_adds hg).opt fun init =>
      .node (by simp)

theorem variableDeclaration_adds : AddsNode text g.variableDeclaration := by
  refine .bind (.oneKeyword _) fun k => .bind (declarator_adds hg _) fun first => .bind (.many ?_) fun more =>
    .bind (.semicolon _) fun stop => .node ⟨by simp, by simp, by split <;> decide⟩
  exact .skip (.sameStatement _) fun _ => .bind (.mark "," (by decide)) fun comma =>
    .bind (declarator_adds hg _) fun d => .pure (by simp)

theorem functionDeclaration_adds (place : BlockPlace) : AddsNode text (g.functionDeclaration place) := by
  refine .bind (.opt1 (.keyword _)) fun async => .bind (.keyword _) fun k =>
    .bind (.opt1 (.mark "*" (by decide))) fun star => .bind (.asRole _ (.anyName (by decide))) fun name =>
    .either (callHead_adds hg) (callHead_adds hg).unbroken fun head => .skip .upcoming fun next =>
    .ite (fun _ => ?_) fun _ => ?_
  · exact .bind (.asRole _ (hg _)) fun body => .skip (.trailing _) fun _ =>
      .node ⟨by simp, by simp, by split <;> decide⟩
  · exact .skip (.require _) fun _ => .bind (.semicolon _) fun stop => .node (by simp)

theorem classDeclaration_adds (place : BlockPlace) : AddsNode text (g.classDeclaration place) := by
  refine .bind (decorator_adds hg).many1 fun decorators => .bind (.opt1 (.keyword _)) fun abstract =>
    .bind (.keyword _) fun k => .bind (classRest_adds hg _) fun rest => .skip (.require _) fun _ =>
    .ite (fun hnone => ?_) fun _ => .node (by simp)
  obtain rfl : abstract = [] := by simpa using hnone
  exact .skip (.trailing _) fun _ => .node (by simp)

theorem moduleDeclaration_adds : AddsNode text g.moduleDeclaration :=
  .bind (.oneKeyword _) fun k => .bind (moduleRest_adds hg) fun rest =>
    .node ⟨by simp, by simp, by split <;> decide⟩

theorem interfaceDeclaration_adds : AddsNode text g.interfaceDeclaration := by
  refine .bind (.keyword _) fun k => .bind (.asRole _ typeName_adds) fun name =>
    .bind (typeParameters_adds hg).opt1 fun tps => .bind (.opt1 ?_) fun bases =>
    .bind (.asRole _ (objectType_adds hg (by decide))) fun body => .node (by simp)
  exact .bind (.keyword _) fun e => .bind (.commaItems (namedType_adds hg _).list) fun items =>
    .node (by simp)

theorem enumDeclaration_adds : AddsNode text g.enumDeclaration := by
  refine .bind (.opt1 (.keyword _)) fun const => .bind (.keyword _) fun k =>
    .bind (.asRole _ (.anyName (by decide))) fun name =>
    .bind (enclosed_adds (by decide) (.commaList ?_)) fun body => .node (by simp)
  exact .bind (.asRole _ (propertyName_adds hg)) fun name =>
    .orElse (.bind (initializer_adds hg) fun init => .node (by simp)) (.pure (by simp))

theorem typeAlias_adds : AddsNode text g.typeAlias :=
  .bind (.keyword _) fun k => .bind (.asRole _ typeName_adds) fun name =>
    .bind (typeParameters_adds hg).opt1 fun tps => .bind (.mark "=" (by decide)) fun eq =>
    .bind (.asRole _ (hg _)) fun t => .bind (.semicolon _) fun stop => .node (by simp)

theorem ambientDeclaration_adds {inner : Parse Node} (hinner : AddsNode text inner) :
    AddsNode text (g.ambientDeclaration inner) := by
  refine .bind (.keyword _) fun k => .orElse ?_ (.orElse ?_ ?_)
  · exact .bind (.keyword _) fun w => .bind (hg _) fun body => .node (by simp)
  · exact .bind (.keyword _) fun w => .bind (.mark "." (by decide)) fun dot =>
      .bind (.anyName (by decide)) fun p =>
      .bind (.mark ":" (by decide)) fun colon => .bind (hg _) fun t => .bind (.semicolon _) fun stop =>
      .node (by simp)
  · exact .bind hinner fun d => .node (by simp)

theorem declarationFrom_adds (place : BlockPlace) (n : Nat) : AddsNode text (g.declarationFrom place n) := by
  induction n generalizing place with
  | zero => exact .failure
  | succ n ih =>
    refine .skip .nextName fun w => ?_
    split
    case h_1 | h_2 => exact functionDeclaration_adds hg place
    case h_3 | h_4 => exact classDeclaration_adds hg place
    case h_5 => exact .orElse (enumDeclaration_adds hg) (variableDeclaration_adds hg)
    case h_6 | h_7 => exact variableDeclaration_adds hg
    case h_8 => exact interfaceDeclaration_adds hg
    case h_9 => exact enumDeclaration_adds hg
    case h_10 => exact typeAlias_adds hg
    case h_11 | h_12 => exact moduleDeclaration_adds hg
    case h_13 => exact importAlias_adds _
    case h_14 => exact ambientDeclaration_adds hg (ih .part)
    case h_15 => exact .failure
    case h_16 => exact .skip (.nextIn _) fun _ => classDeclaration_adds hg place

theorem declaration_adds (place : BlockPlace) : AddsNode text (g.declaration place) :=
  fun _ _ _ hgood h => declarationFrom_adds hg place _ hgood h

theorem importStatement_adds : AddsNode text g.importStatement := by
  refine .bind (.keyword _) fun k => ?_
  extract_lets body
  have hbody (names requires : List String) : AddsNodes text (body names requires) :=
    .orElse (.bind (importClause_adds names) fun c => .bind fromClause_adds fun source => .pure (by simp)) <|
      .orElse (importRequire_adds requires).list (Adds.asRole _ .string).list
  refine .bind (show AddsNodes text _ from .orElse (hbody _ _) ?_) fun parts => .skip .complete fun _ =>
    .orElse ?_ ?_
  · exact .bind (.oneKeyword _) fun t => .bind (hbody _ _) fun more => .pure (by simp)
  · exact .bind (.semicolon _) fun stop => .node (by simp)
  · exact .bind (.keyword _) fun w => .bind (object_adds hg) fun o =>
      .bind_follows (.nodeAfter (k :: parts) (by simp))
      fun attributes => .bind (.semicolon _) fun stop => .node (by simp)

theorem exportDefault_adds : AddsNodes text g.exportDefault := by
  refine .bind (.keyword _) fun k => ?_
  extract_lets value declared enclosing
  have hvalue : Follows text [k] value id :=
    .bind (.asRole _ (hg _)) fun e => .bind (.semicolon _) fun stop => .pure (by simp)
  have hdeclared : Follows text [k] declared id :=
    .bind (.asRole _ (declaration_adds hg _)) fun d => .pure (by simp)
  have henclosing : Follows text [k] enclosing id := by
    refine .bind (namespaceExpression_adds hg) fun e => .skip .get fun c => .ite (fun _ => ?_) fun _ =>
      .pure (by simp)
    exact .bind (.semicolon _) fun stop => .pure (by simp)
  refine .skip .nextName fun w => ?_
  split
  case h_1 =>
    refine .ite (fun _ => hdeclared) fun _ => .skip declarationAhead_adds fun _ =>
      .ite (fun _ => .ite (fun _ => .overruled hdeclared _ hvalue) fun _ => ?_) fun _ => hvalue
    exact .ite (fun _ => .overruled henclosing _ hvalue) fun _ => hdeclared
  case h_2 => exact .orElse (.overruled hdeclared _ hvalue) hvalue

theorem exportBody_adds : AddsNodes text g.exportBody := by
  have hdeclaration : AddsNodes text (do return [← asRole .declaration (g.declaration .part)]) :=
    (Adds.asRole _ (declaration_adds hg _)).list
  refine .skip .nextName fun w => ?_
  split
  case h_1 => exact exportDefault_adds hg
  case h_2 =>
    exact .orElse (.bind (.keyword _) fun t => .bind exportList_adds fun list => .pure (by simp)) hdeclaration
  case h_3 =>
    exact .orElse (.bind (.keyword _) fun k => .bind (importAlias_adds _) fun a => .pure (by simp))
      (Adds.asRole _ (importAlias_adds _)).list
  case h_4 =>
    exact .bind (.keyword _) fun a => .bind (.keyword _) fun n => .bind (.anyName (by decide)) fun name =>
      .bind (.semicolon _) fun stop => .pure (by simp)
  case h_5 => exact hdeclaration
  case h_6 =>
    refine .skip .upcoming fun next => ?_
    split
    case h_1 =>
      refine .bind (show AddsNode text _ from .orElse ?_ (.mark "*" (by decide))) fun star =>
        .bind fromClause_adds fun source => .bind (.semicolon _) fun stop => .pure (by simp)
      exact .bind (.mark "*" (by decide)) fun s => .bind (.keyword _) fun k =>
        .bind exportName_adds fun name => .node (by simp)
    case h_2 => exact exportList_adds
    case h_3 =>
      exact .bind .assignMark fun eq => .bind (hg _) fun e => .bind (.semicolon _) fun stop => .pure (by simp)
    case h_4 => exact hdeclaration

theorem exportRule_adds : AddsNode text g.exportRule :=
  .bind (decorator_adds hg).many1 fun decorators => .bind (.keyword _) fun k => .when (.sameStatement _) <|
    .bind (exportBody_adds hg) fun body => .skip (.require _) fun _ => .node (by simp)

theorem expressionStatement_adds : AddsNode text g.expressionStatement :=
  .bind (hg _) fun e => .bind (.semicolon _) fun stop => .node (by simp)

theorem ifStatement_adds : AddsNode text g.ifStatement :=
  .bind (.keyword _) fun k => .bind (parenthesized_adds hg) fun cond => .bind (hg _) fun yes =>
    .bind (ifWord_adds _ (.bind (.keyword _) fun e => .bind (hg _) fun s => .node (by simp))) fun no =>
    .node (by simp)

theorem caseBody_adds : AddsNodes text g.caseBody :=
  .many (.skip (.notAhead _) fun _ => (Adds.asRole _ (hg _)).list)

theorem switchStatement_adds : AddsNode text g.switchStatement := by
  refine .bind (.keyword _) fun k => .bind (.asRole _ (parenthesized_adds hg)) fun value =>
    .bind (.mark _ (by decide)) fun left => .bind (Adds.blocked (.many1 (.orElse ?_ ?_))) fun cases =>
    .bind (.mark _ (by decide)) fun right => .bind_follows (.nodeAfter [k, value] (by simp)) fun body =>
    .node (by simp)
  · exact .bind (.keyword _) fun c => .bind (.asRole _ (hg _).bracketed) fun v =>
      .bind (.mark ":" (by decide)) fun colon => .bind (caseBody_adds hg) fun body => .node (by simp)
  · exact .bind (.keyword _) fun d => .bind (.mark ":" (by decide)) fun colon =>
      .bind (caseBody_adds hg) fun body => .node (by simp)

theorem forVarHead_adds : AddsNodes text g.forVarHead := by
  refine .bind (.keyword _) fun d => .bind (.asRole _ (bindingTarget_adds hg _)) fun target =>
    .bind .assignMark fun eq => .bind (hg _).bracketed fun e => ?_
  split
  case h_1 => exact .unwrap [d, target, eq] (.pure (by simp [Node.children]))
  case h_2 => exact .failure

theorem forInStatement_adds : AddsNode text g.forInStatement := by
  refine .bind (.keyword _) fun k => .bind (.opt1 (.keyword _)) fun await =>
    .bind (.mark "(" (by decide)) fun left => ?_
  extract_lets plain
  have hplain : AddsNodes text plain := by
    refine .orElse ?_ (.orElse ?_ ?_)
    · exact .bind (.oneKeyword _) fun d => .bind (.asRole _ (bindingTarget_adds hg _)) fun target =>
        .skip (.trailing _) fun _ => .bind loopWord_adds fun w => .pure (by simp)
    · exact .bind (.keyword _) fun d => .bind (.asRole _ (bindingTarget_adds hg _)) fun target =>
        .bind (initializer_adds hg).opt fun init => .skip (.sameStatement _) fun _ =>
        .bind loopWord_adds fun w => .pure (by simp)
    · have htarget := target_adds hg (.orElse (parenthesized_adds hg) (destructuring_adds hg))
      exact .skip (.notAhead _) fun _ => .bind (.asRole _ htarget.bracketed) fun target =>
        .bind loopWord_adds fun w => .pure (by simp)
  refine .bind (show AddsNodes text _ from .orElse ?_ (forVarHead_adds hg)) fun head =>
    .bind (.mark ")" (by decide)) fun right => .bind (.asRole _ (hg _)) fun body => .node (by simp)
  exact .bind hplain fun head => .bind (hg _).bracketed fun e => .pure (by simp)

theorem forStatement_adds : AddsNode text g.forStatement := by
  refine .bind (.keyword _) fun k => .bind (.mark "(" (by decide)) fun left => ?_
  extract_lets ended
  have hended : AddsNodes text ended :=
    .orElse emptyStatement_adds.list (.bind (hg _).bracketed fun e =>
    .bind (.mark ";" (by decide)) fun stop => .pure (by simp))
  exact .bind (.orElse (variableDeclaration_adds hg).list (.skip (.notAhead _) fun _ => hended)) fun start =>
    .bind hended fun cond => .bind (Adds.bracketed (hg _)).opt1 fun step =>
    .bind (.mark ")" (by decide)) fun right => .bind (.asRole _ (hg _)) fun body => .node (by simp)

theorem whileStatement_adds : AddsNode text g.whileStatement :=
  .bind (.keyword _) fun k => .bind (parenthesized_adds hg) fun cond => .bind (.asRole _ (hg _)) fun body =>
    .node (by simp)

theorem doStatement_adds : AddsNode text g.doStatement :=
  .bind (.keyword _) fun k => .bind (.asRole _ (hg _)) fun body => .bind (.keyword _) fun w =>
    .bind (parenthesized_adds hg) fun cond => .skip .complete fun _ =>
    .bind (.opt (.semicolon _)) fun stop => .node (by simp)

theorem tryStatement_adds : AddsNode text g.tryStatement := by
  refine .bind (.keyword _) fun k => .bind (.asRole _ (hg _)) fun body =>
    .bind (ifWord_adds _ ?_) fun handler => .bind (ifWord_adds _ ?_) fun finalizer => .node (by simp)
  · refine .bind (.keyword _) fun c => .bind (.opt ?_) fun param => .bind (.asRole _ (hg _)) fun body =>
      .node (by simp)
    refine .bind (.mark "(" (by decide)) fun left =>
      .bind (show Parse.Adds text _ (fun x : Node × List Node => x.1 :: x.2) from .bracketed ?_) fun x =>
      .bind (.mark ")" (by decide)) fun right => .pure (by simp)
    exact .bind (.asRole _ (bindingTarget_adds hg _)) fun p => .bind (typeAscription_adds hg).opt1 fun t =>
      .pure (by simp)
  · exact .bind (.keyword _) fun f => .bind (.asRole _ (hg _)) fun body => .node (by simp)

theorem withStatement_adds : AddsNode text g.withStatement :=
  .bind (.keyword _) fun k => .bind (parenthesized_adds hg) fun value => .bind (.asRole _ (hg _)) fun body =>
    .node (by simp)

theorem labeledStatement_adds : AddsNode text g.labeledStatement :=
  .bind (.nameBut _ (by decide)) fun label => .skip .complete fun _ =>
    .bind (.mark ":" (by decide)) fun colon =>
    .bind (.asRole _ (hg _)) fun body => .node (by simp)

theorem declarationStatement_adds : AddsNode text g.declarationStatement :=
  .overruled (declaration_adds hg _) _ (expressionStatement_adds hg)

theorem namespaceStatement_adds : AddsNode text g.namespaceStatement := by
  refine .overruled ?_ _ (expressionStatement_adds hg)
  refine .bind (namespaceExpression_adds hg) fun e => .skip .get fun c => .ite (fun _ => ?_) fun _ =>
    .pure (by simp)
  exact .bind (.semicolon _) fun stop => .node (by simp)

theorem blockStatement_adds : AddsNode text g.blockStatement :=
  .skip objectAhead_adds fun _ => .ite (.orElse (expressionStatement_adds hg) (hg _)) <|
    .skip (.isAhead _) fun _ => .ite (expressionStatement_adds hg) (hg _)

theorem wordStatement_adds (w : String) : AddsNode text (g.wordStatement w) := by
  unfold wordStatement
  extract_lets plain label
  have hplain : AddsNode text plain := .orElse (labeledStatement_adds hg) (expressionStatement_adds hg)
  have hlabel : AddsNode text label := .leaf name?_reads (by decide)
  split
  case h_1 =>
    exact .orElse (importStatement_adds hg) (.orElse (importAlias_adds _) (expressionStatement_adds hg))
  case h_2 => exact .skip (.isAhead _) fun _ => .ite (exportRule_adds hg) hplain
  case h_3 => exact .bind (.keyword _) fun k => .bind (.semicolon _) fun stop => .node (by simp)
  case h_4 => exact ifStatement_adds hg
  case h_5 => exact switchStatement_adds hg
  case h_6 => exact .orElse (forInStatement_adds hg) (forStatement_adds hg)
  case h_7 => exact whileStatement_adds hg
  case h_8 => exact doStatement_adds hg
  case h_9 => exact tryStatement_adds hg
  case h_10 => exact withStatement_adds hg
  case h_11 | h_12 => exact jump_adds _ _ hlabel (by decide)
  case h_13 => exact jump_adds _ _ (hg _) (by decide)
  case h_14 =>
    exact .bind (.keyword _) fun k => .bind (hg _) fun e => .bind (.semicolon _) fun stop => .node (by simp)
  case h_15 | h_16 | h_17 | h_18 | h_19 => exact declaration_adds hg _
  case h_20 =>
    refine .skip declarationAhead_adds fun _ => .ite ?_ hplain
    split
    case h_1 => exact namespaceStatement_adds hg
    case h_5 => exact declaration_adds hg _
    all_goals exact declarationStatement_adds hg

theorem statementRule_adds : AddsNode text g.statementRule := by
  refine .blocked <| .skip .upcoming fun next => ?_
  split
  case h_1 => exact wordStatement_adds hg _
  case h_2 =>
    split
    case h_1 => exact blockStatement_adds hg
    case h_2 => exact emptyStatement_adds
    case h_3 =>
      exact .orElse (exportRule_adds hg) (.orElse (declarationStatement_adds hg) (expressionStatement_adds hg))
    case h_4 => exact expressionStatement_adds hg
    case h_5 => exact .failure

end

end SourceChange.Syntax.Rules
