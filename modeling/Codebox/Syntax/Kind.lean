/-! # Kinds of syntax nodes

Every node of a script's tree has a kind. Nodes that stand for a construct have
a kind of their own, and so do the few tokens that a conversion looks for; every
other token is known by its text.
-/

namespace Codebox

/-- What a node of a syntax tree is. -/
inductive Kind where
  | program | hashBangLine | comment | htmlComment | error
  | exportStatement | exportClause | exportSpecifier | namespaceExport
  | importStatement | importClause | importSpecifier | namedImports | namespaceImport
  | importAttribute
  | functionDeclaration | generatorFunctionDeclaration | classDeclaration
  | lexicalDeclaration | variableDeclaration | usingDeclaration | variableDeclarator
  | statementBlock | expressionStatement | emptyStatement | labeledStatement
  | ifStatement | elseClause | switchStatement | switchBody | switchCase | switchDefault
  | forStatement | forInStatement | whileStatement | doStatement | withStatement
  | tryStatement | catchClause | finallyClause
  | breakStatement | continueStatement | returnStatement | throwStatement | debuggerStatement
  | sequenceExpression | parenthesizedExpression | assignmentExpression
  | augmentedAssignmentExpression | awaitExpression | yieldExpression | unaryExpression
  | updateExpression | binaryExpression | ternaryExpression | newExpression | callExpression
  | memberExpression | subscriptExpression | arrowFunction | functionExpression
  | generatorFunction | classExpression | metaProperty
  | identifier | propertyIdentifier | privatePropertyIdentifier | statementIdentifier
  | shorthandPropertyIdentifier | shorthandPropertyIdentifierPattern
  | thisExpression | superExpression | importExpression
  | numberLiteral | stringLiteral | regexLiteral | trueLiteral | falseLiteral | nullLiteral
  | undefinedLiteral | templateString | templateSubstitution | templateText | escapeSequence
  | array | object | pair | spreadElement | methodDefinition | computedPropertyName
  | arrayPattern | objectPattern | pairPattern | restPattern | assignmentPattern
  | objectAssignmentPattern
  | formalParameters | arguments | optionalChain
  | classHeritage | classBody | fieldDefinition | classStaticBlock | decorator
  | markupElement | markupOpening | markupClosing | markupEmpty | markupAttribute
  | markupExpression | markupText | markupName | characterReference
  | comma | openBracket | constKeyword | letKeyword | varKeyword | plus | minus
  | token (text : String)
  deriving DecidableEq, Repr

namespace Kind

/-- The name of a kind. -/
def label : Kind → String
  | program => "program"
  | hashBangLine => "hash_bang_line"
  | comment => "comment"
  | htmlComment => "html_comment"
  | error => "ERROR"
  | exportStatement => "export_statement"
  | exportClause => "export_clause"
  | exportSpecifier => "export_specifier"
  | namespaceExport => "namespace_export"
  | importStatement => "import_statement"
  | importClause => "import_clause"
  | importSpecifier => "import_specifier"
  | namedImports => "named_imports"
  | namespaceImport => "namespace_import"
  | importAttribute => "import_attribute"
  | functionDeclaration => "function_declaration"
  | generatorFunctionDeclaration => "generator_function_declaration"
  | classDeclaration => "class_declaration"
  | lexicalDeclaration => "lexical_declaration"
  | variableDeclaration => "variable_declaration"
  | usingDeclaration => "using_declaration"
  | variableDeclarator => "variable_declarator"
  | statementBlock => "statement_block"
  | expressionStatement => "expression_statement"
  | emptyStatement => "empty_statement"
  | labeledStatement => "labeled_statement"
  | ifStatement => "if_statement"
  | elseClause => "else_clause"
  | switchStatement => "switch_statement"
  | switchBody => "switch_body"
  | switchCase => "switch_case"
  | switchDefault => "switch_default"
  | forStatement => "for_statement"
  | forInStatement => "for_in_statement"
  | whileStatement => "while_statement"
  | doStatement => "do_statement"
  | withStatement => "with_statement"
  | tryStatement => "try_statement"
  | catchClause => "catch_clause"
  | finallyClause => "finally_clause"
  | breakStatement => "break_statement"
  | continueStatement => "continue_statement"
  | returnStatement => "return_statement"
  | throwStatement => "throw_statement"
  | debuggerStatement => "debugger_statement"
  | sequenceExpression => "sequence_expression"
  | parenthesizedExpression => "parenthesized_expression"
  | assignmentExpression => "assignment_expression"
  | augmentedAssignmentExpression => "augmented_assignment_expression"
  | awaitExpression => "await_expression"
  | yieldExpression => "yield_expression"
  | unaryExpression => "unary_expression"
  | updateExpression => "update_expression"
  | binaryExpression => "binary_expression"
  | ternaryExpression => "ternary_expression"
  | newExpression => "new_expression"
  | callExpression => "call_expression"
  | memberExpression => "member_expression"
  | subscriptExpression => "subscript_expression"
  | arrowFunction => "arrow_function"
  | functionExpression => "function_expression"
  | generatorFunction => "generator_function"
  | classExpression => "class"
  | metaProperty => "meta_property"
  | identifier => "identifier"
  | propertyIdentifier => "property_identifier"
  | privatePropertyIdentifier => "private_property_identifier"
  | statementIdentifier => "statement_identifier"
  | shorthandPropertyIdentifier => "shorthand_property_identifier"
  | shorthandPropertyIdentifierPattern => "shorthand_property_identifier_pattern"
  | thisExpression => "this"
  | superExpression => "super"
  | importExpression => "import"
  | numberLiteral => "number"
  | stringLiteral => "string"
  | regexLiteral => "regex"
  | trueLiteral => "true"
  | falseLiteral => "false"
  | nullLiteral => "null"
  | undefinedLiteral => "undefined"
  | templateString => "template_string"
  | templateSubstitution => "template_substitution"
  | templateText => "string_fragment"
  | escapeSequence => "escape_sequence"
  | array => "array"
  | object => "object"
  | pair => "pair"
  | spreadElement => "spread_element"
  | methodDefinition => "method_definition"
  | computedPropertyName => "computed_property_name"
  | arrayPattern => "array_pattern"
  | objectPattern => "object_pattern"
  | pairPattern => "pair_pattern"
  | restPattern => "rest_pattern"
  | assignmentPattern => "assignment_pattern"
  | objectAssignmentPattern => "object_assignment_pattern"
  | formalParameters => "formal_parameters"
  | arguments => "arguments"
  | optionalChain => "optional_chain"
  | classHeritage => "class_heritage"
  | classBody => "class_body"
  | fieldDefinition => "field_definition"
  | classStaticBlock => "class_static_block"
  | decorator => "decorator"
  | markupElement => "jsx_element"
  | markupOpening => "jsx_opening_element"
  | markupClosing => "jsx_closing_element"
  | markupEmpty => "jsx_self_closing_element"
  | markupAttribute => "jsx_attribute"
  | markupExpression => "jsx_expression"
  | markupText => "jsx_text"
  | markupName => "jsx_identifier"
  | characterReference => "html_character_reference"
  | comma => ","
  | openBracket => "["
  | constKeyword => "const"
  | letKeyword => "let"
  | varKeyword => "var"
  | plus => "+"
  | minus => "-"
  | token text => text

/-- The kinds with a fixed name. -/
def fixed : List Kind :=
  [program, hashBangLine, comment, htmlComment, error, exportStatement, exportClause,
    exportSpecifier, namespaceExport, importStatement, importClause, importSpecifier, namedImports,
    namespaceImport, importAttribute, functionDeclaration, generatorFunctionDeclaration,
    classDeclaration, lexicalDeclaration, variableDeclaration, usingDeclaration,
    variableDeclarator, statementBlock, expressionStatement, emptyStatement, labeledStatement,
    ifStatement, elseClause, switchStatement, switchBody, switchCase, switchDefault, forStatement,
    forInStatement, whileStatement, doStatement, withStatement, tryStatement, catchClause,
    finallyClause, breakStatement, continueStatement, returnStatement, throwStatement,
    debuggerStatement, sequenceExpression, parenthesizedExpression, assignmentExpression,
    augmentedAssignmentExpression, awaitExpression, yieldExpression, unaryExpression,
    updateExpression, binaryExpression, ternaryExpression, newExpression, callExpression,
    memberExpression, subscriptExpression, arrowFunction, functionExpression, generatorFunction,
    classExpression, metaProperty, identifier, propertyIdentifier, privatePropertyIdentifier,
    statementIdentifier, shorthandPropertyIdentifier, shorthandPropertyIdentifierPattern,
    thisExpression, superExpression, importExpression, numberLiteral, stringLiteral, regexLiteral,
    trueLiteral, falseLiteral, nullLiteral, undefinedLiteral, templateString,
    templateSubstitution, templateText, escapeSequence, array, object, pair, spreadElement,
    methodDefinition, computedPropertyName, arrayPattern, objectPattern, pairPattern, restPattern,
    assignmentPattern, objectAssignmentPattern, formalParameters, arguments, optionalChain,
    classHeritage, classBody, fieldDefinition, classStaticBlock, decorator, markupElement,
    markupOpening, markupClosing, markupEmpty, markupAttribute, markupExpression, markupText,
    markupName, characterReference, comma, openBracket, constKeyword, letKeyword, varKeyword,
    plus, minus]

/-- The kind of a given name. -/
def ofLabel (name : String) : Kind :=
  (fixed.find? fun kind => kind.label = name).getD (token name)

/-- A kind found by its name has that name. -/
@[simp] theorem label_ofLabel (name : String) : (ofLabel name).label = name := by
  unfold ofLabel
  cases found : fixed.find? fun kind => kind.label = name with
  | none => rfl
  | some kind => simpa using List.find?_some found

/-- The kind of a token, by its text. -/
def ofToken (text : String) : Kind :=
  match text with
  | "," => comma
  | "[" => openBracket
  | "const" => constKeyword
  | "let" => letKeyword
  | "var" => varKeyword
  | "+" => plus
  | "-" => minus
  | _ => token text

/-- The kinds that open a function scope: a return or a declaration below such a
node belongs to the inner function. -/
def opensScope : Kind → Bool
  | arrowFunction | classBody | functionDeclaration | functionExpression | generatorFunction
  | generatorFunctionDeclaration | methodDefinition => true
  | token text => text = "function"
  | _ => false

/-- The kinds that declare variables by keyword. -/
def declares : Kind → Bool
  | lexicalDeclaration | variableDeclaration => true
  | _ => false

/-- The declaration keywords. -/
def isKeyword : Kind → Bool
  | constKeyword | letKeyword | varKeyword => true
  | _ => false

/-- The kinds of text between tokens that a tree keeps. -/
def isTrivia : Kind → Bool
  | comment | htmlComment => true
  | _ => false

end Kind

end Codebox
