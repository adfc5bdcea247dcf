/-!
The kinds of nodes of a syntax tree.

A node is either a *construct* of the language, such as a call or a JSX element, or a *token*: a
keyword or a punctuation mark, whose kind is its own text.
-/

namespace SourceChange.Syntax

/-- The constructs of the TSX and TypeScript grammars, comments included. -/
inductive Construct where
  | program | hashBangLine | comment | htmlComment | exportStatement | importStatement
  | debuggerStatement
  | expressionStatement | statementBlock | ifStatement | elseClause | switchStatement
  | switchBody | switchCase | switchDefault | forStatement | forInStatement | whileStatement
  | doStatement | tryStatement | catchClause | finallyClause | withStatement | breakStatement
  | continueStatement | returnStatement | throwStatement | emptyStatement | labeledStatement
  | statementIdentifier | lexicalDeclaration | variableDeclaration | variableDeclarator
  | functionDeclaration | generatorFunctionDeclaration | functionSignature | classDeclaration
  | abstractClassDeclaration | classExpression | classBody | classHeritage | extendsClause
  | implementsClause | classStaticBlock | methodDefinition | methodSignature
  | abstractMethodSignature | publicFieldDefinition | indexSignature | decorator
  | moduleDeclaration | internalModule | nestedIdentifier | importAlias | interfaceDeclaration
  | interfaceBody | extendsTypeClause | enumDeclaration | enumBody | enumAssignment
  | typeAliasDeclaration | ambientDeclaration | accessibilityModifier | overrideModifier
  | importClause | namespaceImport | namedImports | importSpecifier | importAttribute
  | importRequireClause | exportClause | exportSpecifier | namespaceExport | stringLiteral
  | stringFragment | escapeSequence | templateString | templateSubstitution | regexLiteral
  | regexPattern | regexFlags | numberLiteral | trueLiteral | falseLiteral | nullLiteral
  | undefinedLiteral | thisKeyword | superKeyword | importKeyword | identifier
  | propertyIdentifier | privatePropertyIdentifier | shorthandPropertyIdentifier
  | shorthandPropertyIdentifierPattern | typeIdentifier | objectLiteral | pair | spreadElement
  | computedPropertyName | arrayLiteral | objectPattern | pairPattern | objectAssignmentPattern
  | assignmentPattern | restPattern | arrayPattern | parenthesizedExpression
  | sequenceExpression | functionExpression | generatorFunction | arrowFunction
  | formalParameters | requiredParameter | optionalParameter | callExpression | arguments
  | newExpression | memberExpression | subscriptExpression | optionalChain | nonNullExpression
  | asExpression | satisfiesExpression | instantiationExpression | typeAssertion
  | awaitExpression | yieldExpression | unaryExpression | updateExpression | binaryExpression
  | ternaryExpression | assignmentExpression | augmentedAssignmentExpression | metaProperty
  | jsxElement | jsxSelfClosingElement | jsxOpeningElement | jsxClosingElement | jsxAttribute
  | jsxExpression | jsxText | jsxNamespaceName | htmlCharacterReference | typeAscription
  | typePredicate | typePredicateAscription | asserts | assertsAscription | typeArguments
  | typeParameters | typeParameter | constraint | defaultType | predefinedType | literalType
  | genericType | nestedTypeIdentifier | objectType | propertySignature | callSignature
  | constructSignature | arrayType | tupleType | optionalType | restType | unionType
  | intersectionType | functionType | constructorType | conditionalType | inferType
  | readonlyType | parenthesizedType | typeQuery | indexTypeQuery | lookupType
  | mappedTypeClause | templateLiteralType | templateType | thisType | existentialType
  | flowMaybeType | omittingTypeAscription | addingTypeAscription | optingTypeAscription
  deriving DecidableEq, Repr

namespace Construct

/-- The public name of a construct. -/
def name : Construct → String
  | .program => "program"
  | .hashBangLine => "hash_bang_line"
  | .comment => "comment"
  | .htmlComment => "html_comment"
  | .exportStatement => "export_statement"
  | .importStatement => "import_statement"
  | .debuggerStatement => "debugger_statement"
  | .expressionStatement => "expression_statement"
  | .statementBlock => "statement_block"
  | .ifStatement => "if_statement"
  | .elseClause => "else_clause"
  | .switchStatement => "switch_statement"
  | .switchBody => "switch_body"
  | .switchCase => "switch_case"
  | .switchDefault => "switch_default"
  | .forStatement => "for_statement"
  | .forInStatement => "for_in_statement"
  | .whileStatement => "while_statement"
  | .doStatement => "do_statement"
  | .tryStatement => "try_statement"
  | .catchClause => "catch_clause"
  | .finallyClause => "finally_clause"
  | .withStatement => "with_statement"
  | .breakStatement => "break_statement"
  | .continueStatement => "continue_statement"
  | .returnStatement => "return_statement"
  | .throwStatement => "throw_statement"
  | .emptyStatement => "empty_statement"
  | .labeledStatement => "labeled_statement"
  | .statementIdentifier => "statement_identifier"
  | .lexicalDeclaration => "lexical_declaration"
  | .variableDeclaration => "variable_declaration"
  | .variableDeclarator => "variable_declarator"
  | .functionDeclaration => "function_declaration"
  | .generatorFunctionDeclaration => "generator_function_declaration"
  | .functionSignature => "function_signature"
  | .classDeclaration => "class_declaration"
  | .abstractClassDeclaration => "abstract_class_declaration"
  | .classExpression => "class"
  | .classBody => "class_body"
  | .classHeritage => "class_heritage"
  | .extendsClause => "extends_clause"
  | .implementsClause => "implements_clause"
  | .classStaticBlock => "class_static_block"
  | .methodDefinition => "method_definition"
  | .methodSignature => "method_signature"
  | .abstractMethodSignature => "abstract_method_signature"
  | .publicFieldDefinition => "public_field_definition"
  | .indexSignature => "index_signature"
  | .decorator => "decorator"
  | .moduleDeclaration => "module"
  | .internalModule => "internal_module"
  | .nestedIdentifier => "nested_identifier"
  | .importAlias => "import_alias"
  | .interfaceDeclaration => "interface_declaration"
  | .interfaceBody => "interface_body"
  | .extendsTypeClause => "extends_type_clause"
  | .enumDeclaration => "enum_declaration"
  | .enumBody => "enum_body"
  | .enumAssignment => "enum_assignment"
  | .typeAliasDeclaration => "type_alias_declaration"
  | .ambientDeclaration => "ambient_declaration"
  | .accessibilityModifier => "accessibility_modifier"
  | .overrideModifier => "override_modifier"
  | .importClause => "import_clause"
  | .namespaceImport => "namespace_import"
  | .namedImports => "named_imports"
  | .importSpecifier => "import_specifier"
  | .importAttribute => "import_attribute"
  | .importRequireClause => "import_require_clause"
  | .exportClause => "export_clause"
  | .exportSpecifier => "export_specifier"
  | .namespaceExport => "namespace_export"
  | .stringLiteral => "string"
  | .stringFragment => "string_fragment"
  | .escapeSequence => "escape_sequence"
  | .templateString => "template_string"
  | .templateSubstitution => "template_substitution"
  | .regexLiteral => "regex"
  | .regexPattern => "regex_pattern"
  | .regexFlags => "regex_flags"
  | .numberLiteral => "number"
  | .trueLiteral => "true"
  | .falseLiteral => "false"
  | .nullLiteral => "null"
  | .undefinedLiteral => "undefined"
  | .thisKeyword => "this"
  | .superKeyword => "super"
  | .importKeyword => "import"
  | .identifier => "identifier"
  | .propertyIdentifier => "property_identifier"
  | .privatePropertyIdentifier => "private_property_identifier"
  | .shorthandPropertyIdentifier => "shorthand_property_identifier"
  | .shorthandPropertyIdentifierPattern => "shorthand_property_identifier_pattern"
  | .typeIdentifier => "type_identifier"
  | .objectLiteral => "object"
  | .pair => "pair"
  | .spreadElement => "spread_element"
  | .computedPropertyName => "computed_property_name"
  | .arrayLiteral => "array"
  | .objectPattern => "object_pattern"
  | .pairPattern => "pair_pattern"
  | .objectAssignmentPattern => "object_assignment_pattern"
  | .assignmentPattern => "assignment_pattern"
  | .restPattern => "rest_pattern"
  | .arrayPattern => "array_pattern"
  | .parenthesizedExpression => "parenthesized_expression"
  | .sequenceExpression => "sequence_expression"
  | .functionExpression => "function_expression"
  | .generatorFunction => "generator_function"
  | .arrowFunction => "arrow_function"
  | .formalParameters => "formal_parameters"
  | .requiredParameter => "required_parameter"
  | .optionalParameter => "optional_parameter"
  | .callExpression => "call_expression"
  | .arguments => "arguments"
  | .newExpression => "new_expression"
  | .memberExpression => "member_expression"
  | .subscriptExpression => "subscript_expression"
  | .optionalChain => "optional_chain"
  | .nonNullExpression => "non_null_expression"
  | .asExpression => "as_expression"
  | .satisfiesExpression => "satisfies_expression"
  | .instantiationExpression => "instantiation_expression"
  | .typeAssertion => "type_assertion"
  | .awaitExpression => "await_expression"
  | .yieldExpression => "yield_expression"
  | .unaryExpression => "unary_expression"
  | .updateExpression => "update_expression"
  | .binaryExpression => "binary_expression"
  | .ternaryExpression => "ternary_expression"
  | .assignmentExpression => "assignment_expression"
  | .augmentedAssignmentExpression => "augmented_assignment_expression"
  | .metaProperty => "meta_property"
  | .jsxElement => "jsx_element"
  | .jsxSelfClosingElement => "jsx_self_closing_element"
  | .jsxOpeningElement => "jsx_opening_element"
  | .jsxClosingElement => "jsx_closing_element"
  | .jsxAttribute => "jsx_attribute"
  | .jsxExpression => "jsx_expression"
  | .jsxText => "jsx_text"
  | .jsxNamespaceName => "jsx_namespace_name"
  | .htmlCharacterReference => "html_character_reference"
  | .typeAscription => "type_annotation"
  | .typePredicate => "type_predicate"
  | .typePredicateAscription => "type_predicate_annotation"
  | .asserts => "asserts"
  | .assertsAscription => "asserts_annotation"
  | .typeArguments => "type_arguments"
  | .typeParameters => "type_parameters"
  | .typeParameter => "type_parameter"
  | .constraint => "constraint"
  | .defaultType => "default_type"
  | .predefinedType => "predefined_type"
  | .literalType => "literal_type"
  | .genericType => "generic_type"
  | .nestedTypeIdentifier => "nested_type_identifier"
  | .objectType => "object_type"
  | .propertySignature => "property_signature"
  | .callSignature => "call_signature"
  | .constructSignature => "construct_signature"
  | .arrayType => "array_type"
  | .tupleType => "tuple_type"
  | .optionalType => "optional_type"
  | .restType => "rest_type"
  | .unionType => "union_type"
  | .intersectionType => "intersection_type"
  | .functionType => "function_type"
  | .constructorType => "constructor_type"
  | .conditionalType => "conditional_type"
  | .inferType => "infer_type"
  | .readonlyType => "readonly_type"
  | .parenthesizedType => "parenthesized_type"
  | .typeQuery => "type_query"
  | .indexTypeQuery => "index_type_query"
  | .lookupType => "lookup_type"
  | .mappedTypeClause => "mapped_type_clause"
  | .templateLiteralType => "template_literal_type"
  | .templateType => "template_type"
  | .thisType => "this_type"
  | .existentialType => "existential_type"
  | .flowMaybeType => "flow_maybe_type"
  | .omittingTypeAscription => "omitting_type_annotation"
  | .addingTypeAscription => "adding_type_annotation"
  | .optingTypeAscription => "opting_type_annotation"

end Construct

/-- The kind of a node: a construct, or a token named by its text. -/
inductive Kind where
  | token (text : String)
  | construct (c : Construct)
  deriving DecidableEq, Repr

namespace Kind

/-- The public name of a kind; a keyword token is named by the keyword. -/
def name : Kind → String
  | token text => text
  | construct c => c.name

/-- Constructs are named nodes; tokens are the anonymous ones. -/
def isNamed : Kind → Bool
  | token _ => false
  | construct _ => true

instance : Coe Construct Kind := ⟨construct⟩

end Kind

/-- The role that a child plays in its parent. Only the roles that some query asks for are kept. -/
inductive Role where
  | name | value | body | parameters | parameter | declaration | source | newName | key | left
  | pattern | function | arguments | property | openTag | closeTag
  deriving DecidableEq, Repr

end SourceChange.Syntax
