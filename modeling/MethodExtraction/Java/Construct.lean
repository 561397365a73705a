import MethodExtraction.Grammar.Language
import MethodExtraction.Java.Token

namespace MethodExtraction.Java

open Grammar

inductive Construct where
  | program | toplevelStatement | literal | stringLiteral | quotedString | textBlock
  | textBlockFragment | stringInterpolation | textBlockEscape | expression | castExpression
  | assignmentExpression | binaryExpression | instanceofExpression | lambdaExpression
  | inferredParameters | ternaryExpression | unaryExpression | updateExpression
  | primaryExpression | arrayCreationExpression | dimensionsExpr | parenthesizedExpression
  | classLiteral | objectCreationExpression | unqualifiedObjectCreationExpression | fieldAccess
  | templateExpression | arrayAccess | methodInvocation | argumentList | methodReference
  | typeArguments | wildcard | wildcardBounds | dimensions | switchExpression | switchBlock
  | switchBlockStatementGroup | switchRule | switchLabel | pattern | typePattern | recordPattern
  | recordPatternBody | recordPatternComponent | guard | statement | block | expressionStatement
  | labeledStatement | assertStatement | doStatement | breakStatement | continueStatement
  | returnStatement | yieldStatement | synchronizedStatement | throwStatement | tryStatement
  | catchClause | catchFormalParameter | catchType | finallyClause | tryWithResourcesStatement
  | resourceSpecification | resource | ifStatement | whileStatement | forStatement
  | enhancedForStatement | annotationAny | annotationMarker | annotationCall
  | annotationArgumentList | elementValuePair | elementValue | elementValueArrayInitializer
  | declaration | moduleDeclaration | moduleBody | moduleDirective | requiresModuleDirective
  | requiresModifier | exportsModuleDirective | opensModuleDirective | usesModuleDirective
  | providesModuleDirective | packageDeclaration | importDeclaration | asterisk | enumDeclaration
  | enumBody | enumBodyDeclarations | enumConstant | classDeclaration | modifiers
  | typeParameters | typeParameter | typeBound | superclass | superInterfaces | typeList
  | permits | classBody | classBodyDeclaration | staticInitializer | constructorDeclaration
  | constructorDeclarator | constructorBody | explicitConstructorInvocation | qualifiedName
  | scopedIdentifier | fieldDeclaration | recordDeclaration | annotationTypeDeclaration
  | annotationTypeBody | annotationTypeElementDeclaration | defaultValue | interfaceDeclaration
  | extendsInterfaces | interfaceBody | constantDeclaration | variableDeclaratorList
  | variableDeclarator | variableDeclaratorId | variableInitializer | arrayInitializer | type
  | unannotatedType | simpleType | annotatedType | scopedTypeIdentifier | genericType | arrayType
  | integralType | floatingPointType | methodHeader | methodDeclarator | formalParameters
  | formalParameter | receiverParameter | spreadParameter | throws | localVariableDeclaration
  | methodDeclaration | compactConstructorDeclaration | reservedIdentifier
  deriving DecidableEq, Inhabited, Repr

namespace Construct

def all : List Construct := [
  .program, .toplevelStatement, .literal, .stringLiteral, .quotedString, .textBlock,
  .textBlockFragment, .stringInterpolation, .textBlockEscape, .expression, .castExpression,
  .assignmentExpression, .binaryExpression, .instanceofExpression, .lambdaExpression,
  .inferredParameters, .ternaryExpression, .unaryExpression, .updateExpression,
  .primaryExpression, .arrayCreationExpression, .dimensionsExpr, .parenthesizedExpression,
  .classLiteral, .objectCreationExpression, .unqualifiedObjectCreationExpression, .fieldAccess,
  .templateExpression, .arrayAccess, .methodInvocation, .argumentList, .methodReference,
  .typeArguments, .wildcard, .wildcardBounds, .dimensions, .switchExpression, .switchBlock,
  .switchBlockStatementGroup, .switchRule, .switchLabel, .pattern, .typePattern, .recordPattern,
  .recordPatternBody, .recordPatternComponent, .guard, .statement, .block, .expressionStatement,
  .labeledStatement, .assertStatement, .doStatement, .breakStatement, .continueStatement,
  .returnStatement, .yieldStatement, .synchronizedStatement, .throwStatement, .tryStatement,
  .catchClause, .catchFormalParameter, .catchType, .finallyClause, .tryWithResourcesStatement,
  .resourceSpecification, .resource, .ifStatement, .whileStatement, .forStatement,
  .enhancedForStatement, .annotationAny, .annotationMarker, .annotationCall,
  .annotationArgumentList, .elementValuePair, .elementValue, .elementValueArrayInitializer,
  .declaration, .moduleDeclaration, .moduleBody, .moduleDirective, .requiresModuleDirective,
  .requiresModifier, .exportsModuleDirective, .opensModuleDirective, .usesModuleDirective,
  .providesModuleDirective, .packageDeclaration, .importDeclaration, .asterisk, .enumDeclaration,
  .enumBody, .enumBodyDeclarations, .enumConstant, .classDeclaration, .modifiers,
  .typeParameters, .typeParameter, .typeBound, .superclass, .superInterfaces, .typeList,
  .permits, .classBody, .classBodyDeclaration, .staticInitializer, .constructorDeclaration,
  .constructorDeclarator, .constructorBody, .explicitConstructorInvocation, .qualifiedName,
  .scopedIdentifier, .fieldDeclaration, .recordDeclaration, .annotationTypeDeclaration,
  .annotationTypeBody, .annotationTypeElementDeclaration, .defaultValue, .interfaceDeclaration,
  .extendsInterfaces, .interfaceBody, .constantDeclaration, .variableDeclaratorList,
  .variableDeclarator, .variableDeclaratorId, .variableInitializer, .arrayInitializer, .type,
  .unannotatedType, .simpleType, .annotatedType, .scopedTypeIdentifier, .genericType, .arrayType,
  .integralType, .floatingPointType, .methodHeader, .methodDeclarator, .formalParameters,
  .formalParameter, .receiverParameter, .spreadParameter, .throws, .localVariableDeclaration,
  .methodDeclaration, .compactConstructorDeclaration, .reservedIdentifier]

def number (c : Construct) : Nat := c.ctorIdx

theorem all_getElem_number (c : Construct) : all[c.number]? = some c := by
  cases c <;> rfl

def visibility : Construct → Visibility
  | .toplevelStatement | .quotedString | .textBlock | .textBlockEscape
  | .unqualifiedObjectCreationExpression | .wildcardBounds | .annotationAny | .elementValue
  | .constructorDeclarator | .defaultValue | .variableDeclaratorList | .variableDeclaratorId
  | .methodHeader | .methodDeclarator | .reservedIdentifier => .hidden
  | .literal | .expression | .primaryExpression | .statement | .declaration | .moduleDirective
  | .type | .unannotatedType => .supertype
  | .classBodyDeclaration | .qualifiedName | .variableInitializer | .simpleType => .inlined
  | _ => .visible

end Construct

inductive Field where
  | alternative | arguments | array | body | condition | consequence | constructor | declarator
  | dimensions | element | field | index | init | interfaces | key | left | modifiers | module
  | modules | name | object | operand | operator | package | parameters | pattern | permits
  | provided | provider | resources | right | scope | superclass | templateArgument
  | templateProcessor | type | typeArguments | typeParameters | update | value
  deriving DecidableEq, Inhabited, Repr

namespace Field

def all : List Field := [
  .alternative, .arguments, .array, .body, .condition, .consequence, .constructor, .declarator,
  .dimensions, .element, .field, .index, .init, .interfaces, .key, .left, .modifiers, .module,
  .modules, .name, .object, .operand, .operator, .package, .parameters, .pattern, .permits,
  .provided, .provider, .resources, .right, .scope, .superclass, .templateArgument,
  .templateProcessor, .type, .typeArguments, .typeParameters, .update, .value]

def number (f : Field) : Nat := f.ctorIdx

theorem all_getElem_number (f : Field) : all[f.number]? = some f := by
  cases f <;> rfl

end Field

/-- The kind of a node. An identifier that names a type has a kind of its own; `error` is text that
no rule covers. -/
inductive Kind where
  | token (t : Token)
  | construct (c : Construct)
  | typeIdentifier
  | error
  deriving DecidableEq, Inhabited, Repr

namespace Kind

def isNamed : Kind → Bool
  | token t => t.lexeme.form = .named
  | construct _ | typeIdentifier | error => true

end Kind

end MethodExtraction.Java
