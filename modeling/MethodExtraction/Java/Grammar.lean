import MethodExtraction.Java.Construct

namespace MethodExtraction.Java

open Grammar Grammar.Rule

inductive Symbol where
  | token (t : Token)
  | construct (c : Construct)
  deriving DecidableEq, Inhabited, Repr

abbrev SyntaxRule := Rule Symbol Kind Field

namespace Level

def assign : Int := 1
def decl : Int := 2
def elementVal : Int := 2
def ternary : Int := 3
def or : Int := 4
def and : Int := 5
def bitOr : Int := 6
def bitXor : Int := 7
def bitAnd : Int := 8
def equality : Int := 9
def generic : Int := 10
def rel : Int := 10
def shift : Int := 11
def add : Int := 12
def mult : Int := 13
def cast : Int := 14
def unary : Int := 15
def classLiteral : Int := 17

end Level

def binaryOperators : List (Token × Int) := [
  (.gt, Level.rel), (.lt, Level.rel), (.ge, Level.rel), (.le, Level.rel),
  (.eqEq, Level.equality), (.notEq, Level.equality),
  (.andAnd, Level.and), (.orOr, Level.or),
  (.plus, Level.add), (.minus, Level.add), (.star, Level.mult), (.slash, Level.mult),
  (.amp, Level.bitAnd), (.pipe, Level.bitOr), (.caret, Level.bitXor), (.percent, Level.mult),
  (.shl, Level.shift), (.shr, Level.shift), (.ushr, Level.shift)]

private def t (x : Token) : SyntaxRule := .symbol (.token x)

private def n (x : Construct) : SyntaxRule := .symbol (.construct x)

private def anyIdentifier : SyntaxRule := choices [t .identifier, n .reservedIdentifier]

def Construct.rule : Construct → SyntaxRule
  | .program => many (n .toplevelStatement)
  | .toplevelStatement => choices [n .statement, n .methodDeclaration]
  | .literal =>
    choices [
      t .decimalInteger, t .hexInteger, t .octalInteger, t .binaryInteger, t .decimalFloat,
      t .hexFloat, t .trueWord, t .falseWord, t .character, n .stringLiteral, t .nullWord]
  | .stringLiteral => choices [n .quotedString, n .textBlock]
  | .quotedString =>
    seqs [t .quote, many (choices [t .stringFragment, t .escape, n .stringInterpolation]), t .quote]
  | .textBlock =>
    seqs [
      t .tripleQuote,
      many (choices [
        n .textBlockFragment,
        n .textBlockEscape,
        n .stringInterpolation]),
      t .tripleQuote]
  | .textBlockFragment => choices [t .textRun, t .quotedRun]
  | .stringInterpolation => seqs [t .interpolationOpen, n .expression, t .rbrace]
  | .textBlockEscape => choices [prec 2 none (t .looseEscape), prec 1 none (t .escape)]
  | .expression =>
    choices [
      n .assignmentExpression, n .binaryExpression, n .instanceofExpression, n .lambdaExpression,
      n .ternaryExpression, n .updateExpression, n .primaryExpression, n .unaryExpression,
      n .castExpression, n .switchExpression]
  | .castExpression =>
    prec Level.cast none (choices [
      seqs [t .lparen, field .type (n .type), t .rparen, field .value (n .expression)],
      seqs [
        t .lparen,
        sepBy1 (field .type (n .type)) (t .amp),
        t .rparen,
        field .value (choices [n .primaryExpression, n .lambdaExpression])]])
  | .assignmentExpression =>
    prec Level.assign (some .right) (seqs [
      field .left (choices [t .identifier, n .reservedIdentifier, n .fieldAccess, n .arrayAccess]),
      field .operator (choices [
        t .assign, t .addAssign, t .subAssign, t .mulAssign, t .divAssign, t .andAssign,
        t .orAssign, t .xorAssign, t .modAssign, t .shlAssign, t .shrAssign, t .ushrAssign]),
      field .right (n .expression)])
  | .binaryExpression =>
    choices (binaryOperators.map fun (operator, level) =>
      prec level (some .left) (seqs [
        field .left (n .expression), field .operator (t operator), field .right (n .expression)]))
  | .instanceofExpression =>
    prec Level.rel none (seqs [
      field .left (n .expression),
      t .instanceofWord,
      optional (t .finalWord),
      choices [
        seqs [
          field .right (n .type),
          optional (field .name anyIdentifier)],
        field .pattern (n .recordPattern)]])
  | .lambdaExpression =>
    seqs [
      field .parameters (choices [
        t .identifier, n .formalParameters, n .inferredParameters, n .reservedIdentifier]),
      t .arrow,
      field .body (choices [n .expression, n .block])]
  | .inferredParameters =>
    seqs [t .lparen, sepBy1 anyIdentifier (t .comma), t .rparen]
  | .ternaryExpression =>
    prec Level.ternary (some .right) (seqs [
      field .condition (n .expression),
      t .question,
      field .consequence (n .expression),
      t .colon,
      field .alternative (n .expression)])
  | .unaryExpression =>
    choices ([.plus, .minus, .bang, .tilde].map fun operator =>
      prec Level.unary (some .left) (seqs [
        field .operator (t operator), field .operand (n .expression)]))
  | .updateExpression =>
    prec Level.unary (some .left) (choices [
      seqs [n .expression, t .plusPlus],
      seqs [n .expression, t .minusMinus],
      seqs [t .plusPlus, n .expression],
      seqs [t .minusMinus, n .expression]])
  | .primaryExpression =>
    choices [
      n .literal, n .classLiteral, t .thisWord, t .identifier, n .reservedIdentifier,
      n .parenthesizedExpression, n .objectCreationExpression, n .fieldAccess, n .arrayAccess,
      n .methodInvocation, n .methodReference, n .arrayCreationExpression, n .templateExpression]
  | .arrayCreationExpression =>
    prec 0 (some .right) (seqs [
      t .newWord,
      many (n .annotationAny),
      field .type (n .simpleType),
      choices [
        seqs [
          field .dimensions (repeat1 (n .dimensionsExpr)),
          field .dimensions (optional (n .dimensions))],
        seqs [field .dimensions (n .dimensions), field .value (n .arrayInitializer)]]])
  | .dimensionsExpr => seqs [many (n .annotationAny), t .lbracket, n .expression, t .rbracket]
  | .parenthesizedExpression => seqs [t .lparen, n .expression, t .rparen]
  | .classLiteral => dynamic Level.classLiteral (seqs [n .unannotatedType, t .dot, t .classWord])
  | .objectCreationExpression =>
    choices [
      n .unqualifiedObjectCreationExpression,
      seqs [n .primaryExpression, t .dot, n .unqualifiedObjectCreationExpression]]
  | .unqualifiedObjectCreationExpression =>
    prec 0 (some .right) (seqs [
      t .newWord,
      choices [
        seqs [
          many (n .annotationAny),
          field .typeArguments (n .typeArguments),
          many (n .annotationAny)],
        many (n .annotationAny)],
      field .type (n .simpleType),
      field .arguments (n .argumentList),
      optional (n .classBody)])
  | .fieldAccess =>
    seqs [
      field .object (choices [n .primaryExpression, t .superWord]),
      optional (seqs [t .dot, t .superWord]),
      t .dot,
      field .field (choices [t .identifier, n .reservedIdentifier, t .thisWord])]
  | .templateExpression =>
    seqs [
      field .templateProcessor (n .primaryExpression),
      t .dot,
      field .templateArgument (n .stringLiteral)]
  | .arrayAccess =>
    seqs [
      field .array (n .primaryExpression),
      t .lbracket,
      field .index (n .expression),
      t .rbracket]
  | .methodInvocation =>
    seqs [
      choices [
        field .name anyIdentifier,
        seqs [
          field .object (choices [n .primaryExpression, t .superWord]),
          t .dot,
          optional (seqs [t .superWord, t .dot]),
          field .typeArguments (optional (n .typeArguments)),
          field .name anyIdentifier]],
      field .arguments (n .argumentList)]
  | .argumentList => seqs [t .lparen, sepBy (n .expression) (t .comma), t .rparen]
  | .methodReference =>
    seqs [
      choices [n .type, n .primaryExpression, t .superWord],
      t .doubleColon,
      optional (n .typeArguments),
      choices [t .newWord, t .identifier]]
  | .typeArguments => seqs [t .lt, sepBy (choices [n .type, n .wildcard]) (t .comma), t .gt]
  | .wildcard => seqs [many (n .annotationAny), t .question, optional (n .wildcardBounds)]
  | .wildcardBounds => choices [seqs [t .extendsWord, n .type], seqs [t .superWord, n .type]]
  | .dimensions =>
    prec 0 (some .right) (repeat1 (seqs [many (n .annotationAny), t .lbracket, t .rbracket]))
  | .switchExpression =>
    seqs [
      t .switchWord,
      field .condition (n .parenthesizedExpression),
      field .body (n .switchBlock)]
  | .switchBlock =>
    seqs [t .lbrace, choices [many (n .switchBlockStatementGroup), many (n .switchRule)], t .rbrace]
  | .switchBlockStatementGroup =>
    prec 0 (some .left) (seqs [repeat1 (seqs [n .switchLabel, t .colon]), many (n .statement)])
  | .switchRule =>
    seqs [n .switchLabel, t .arrow, choices [n .expressionStatement, n .throwStatement, n .block]]
  | .switchLabel =>
    choices [
      seqs [
        t .caseWord,
        choices [n .pattern, sepBy1 (n .expression) (t .comma)],
        optional (n .guard)],
      t .defaultWord]
  | .pattern => choices [n .typePattern, n .recordPattern]
  | .typePattern => seqs [n .unannotatedType, anyIdentifier]
  | .recordPattern =>
    seqs [choices [t .identifier, n .reservedIdentifier, n .genericType], n .recordPatternBody]
  | .recordPatternBody =>
    seqs [
      t .lparen,
      sepBy (choices [n .recordPatternComponent, n .recordPattern]) (t .comma),
      t .rparen]
  | .recordPatternComponent =>
    choices [t .underscore, seqs [n .unannotatedType, anyIdentifier]]
  | .guard => seqs [t .whenWord, n .expression]
  | .statement =>
    choices [
      n .declaration, n .expressionStatement, n .labeledStatement, n .ifStatement,
      n .whileStatement, n .forStatement, n .enhancedForStatement, n .block, t .semicolon,
      n .assertStatement, n .doStatement, n .breakStatement, n .continueStatement,
      n .returnStatement, n .yieldStatement, n .switchExpression, n .synchronizedStatement,
      n .localVariableDeclaration, n .throwStatement, n .tryStatement,
      n .tryWithResourcesStatement]
  | .block => seqs [t .lbrace, many (n .statement), t .rbrace]
  | .expressionStatement => seqs [n .expression, t .semicolon]
  | .labeledStatement => seqs [t .identifier, t .colon, n .statement]
  | .assertStatement =>
    choices [
      seqs [t .assertWord, n .expression, t .semicolon],
      seqs [t .assertWord, n .expression, t .colon, n .expression, t .semicolon]]
  | .doStatement =>
    seqs [
      t .doWord,
      field .body (n .statement),
      t .whileWord,
      field .condition (n .parenthesizedExpression),
      t .semicolon]
  | .breakStatement => seqs [t .breakWord, optional (t .identifier), t .semicolon]
  | .continueStatement => seqs [t .continueWord, optional (t .identifier), t .semicolon]
  | .returnStatement => seqs [t .returnWord, optional (n .expression), t .semicolon]
  | .yieldStatement => seqs [t .yieldWord, n .expression, t .semicolon]
  | .synchronizedStatement =>
    seqs [t .synchronizedWord, n .parenthesizedExpression, field .body (n .block)]
  | .throwStatement => seqs [t .throwWord, n .expression, t .semicolon]
  | .tryStatement =>
    seqs [
      t .tryWord,
      field .body (n .block),
      choices [repeat1 (n .catchClause), seqs [many (n .catchClause), n .finallyClause]]]
  | .catchClause =>
    seqs [t .catchWord, t .lparen, n .catchFormalParameter, t .rparen, field .body (n .block)]
  | .catchFormalParameter => seqs [optional (n .modifiers), n .catchType, n .variableDeclaratorId]
  | .catchType => sepBy1 (n .unannotatedType) (t .pipe)
  | .finallyClause => seqs [t .finallyWord, n .block]
  | .tryWithResourcesStatement =>
    seqs [
      t .tryWord,
      field .resources (n .resourceSpecification),
      field .body (n .block),
      many (n .catchClause),
      optional (n .finallyClause)]
  | .resourceSpecification =>
    seqs [t .lparen, sepBy1 (n .resource) (t .semicolon), optional (t .semicolon), t .rparen]
  | .resource =>
    choices [
      seqs [
        optional (n .modifiers),
        field .type (n .unannotatedType),
        n .variableDeclaratorId,
        t .assign,
        field .value (n .expression)],
      t .identifier,
      n .fieldAccess]
  | .ifStatement =>
    prec 0 (some .right) (seqs [
      t .ifWord,
      field .condition (n .parenthesizedExpression),
      field .consequence (n .statement),
      optional (seqs [t .elseWord, field .alternative (n .statement)])])
  | .whileStatement =>
    seqs [t .whileWord, field .condition (n .parenthesizedExpression), field .body (n .statement)]
  | .forStatement =>
    seqs [
      t .forWord,
      t .lparen,
      choices [
        field .init (n .localVariableDeclaration),
        seqs [sepBy (field .init (n .expression)) (t .comma), t .semicolon]],
      field .condition (optional (n .expression)),
      t .semicolon,
      sepBy (field .update (n .expression)) (t .comma),
      t .rparen,
      field .body (n .statement)]
  | .enhancedForStatement =>
    seqs [
      t .forWord,
      t .lparen,
      optional (n .modifiers),
      field .type (n .unannotatedType),
      n .variableDeclaratorId,
      t .colon,
      field .value (n .expression),
      t .rparen,
      field .body (n .statement)]
  | .annotationAny => choices [n .annotationMarker, n .annotationCall]
  | .annotationMarker => seqs [t .atSign, field .name (n .qualifiedName)]
  | .annotationCall =>
    seqs [t .atSign, field .name (n .qualifiedName), field .arguments (n .annotationArgumentList)]
  | .annotationArgumentList =>
    seqs [t .lparen, choices [n .elementValue, sepBy (n .elementValuePair) (t .comma)], t .rparen]
  | .elementValuePair =>
    seqs [
      field .key anyIdentifier,
      t .assign,
      field .value (n .elementValue)]
  | .elementValue =>
    prec Level.elementVal none (choices [
      n .expression, n .elementValueArrayInitializer, n .annotationAny])
  | .elementValueArrayInitializer =>
    seqs [t .lbrace, sepBy (n .elementValue) (t .comma), optional (t .comma), t .rbrace]
  | .declaration =>
    prec Level.decl none (choices [
      n .moduleDeclaration, n .packageDeclaration, n .importDeclaration, n .classDeclaration,
      n .recordDeclaration, n .interfaceDeclaration, n .annotationTypeDeclaration,
      n .enumDeclaration])
  | .moduleDeclaration =>
    seqs [
      many (n .annotationAny), optional (t .openWord), t .moduleWord,
      field .name (n .qualifiedName), field .body (n .moduleBody)]
  | .moduleBody => seqs [t .lbrace, many (n .moduleDirective), t .rbrace]
  | .moduleDirective =>
    choices [
      n .requiresModuleDirective, n .exportsModuleDirective, n .opensModuleDirective,
      n .usesModuleDirective, n .providesModuleDirective]
  | .requiresModuleDirective =>
    seqs [
      t .requiresWord,
      many (field .modifiers (n .requiresModifier)),
      field .module (n .qualifiedName),
      t .semicolon]
  | .requiresModifier => choices [t .transitiveWord, t .staticWord]
  | .exportsModuleDirective =>
    seqs [
      t .exportsWord,
      field .package (n .qualifiedName),
      optional (seqs [
        t .toWord,
        field .modules (n .qualifiedName),
        many (seqs [t .comma, field .modules (n .qualifiedName)])]),
      t .semicolon]
  | .opensModuleDirective =>
    seqs [
      t .opensWord,
      field .package (n .qualifiedName),
      optional (seqs [
        t .toWord,
        field .modules (n .qualifiedName),
        many (seqs [t .comma, field .modules (n .qualifiedName)])]),
      t .semicolon]
  | .usesModuleDirective => seqs [t .usesWord, field .type (n .qualifiedName), t .semicolon]
  | .providesModuleDirective =>
    seqs [
      t .providesWord,
      field .provided (n .qualifiedName),
      t .withWord,
      n .qualifiedName,
      many (seqs [t .comma, field .provider (n .qualifiedName)]),
      t .semicolon]
  | .packageDeclaration =>
    seqs [many (n .annotationAny), t .packageWord, n .qualifiedName, t .semicolon]
  | .importDeclaration =>
    seqs [
      t .importWord,
      optional (t .staticWord),
      n .qualifiedName,
      optional (seqs [t .dot, n .asterisk]),
      t .semicolon]
  | .asterisk => t .star
  | .enumDeclaration =>
    seqs [
      optional (n .modifiers),
      t .enumWord,
      field .name (t .identifier),
      field .interfaces (optional (n .superInterfaces)),
      field .body (n .enumBody)]
  | .enumBody =>
    seqs [
      t .lbrace,
      sepBy (n .enumConstant) (t .comma),
      optional (t .comma),
      optional (n .enumBodyDeclarations),
      t .rbrace]
  | .enumBodyDeclarations => seqs [t .semicolon, many (n .classBodyDeclaration)]
  | .enumConstant =>
    seqs [
      optional (n .modifiers),
      field .name (t .identifier),
      field .arguments (optional (n .argumentList)),
      field .body (optional (n .classBody))]
  | .classDeclaration =>
    seqs [
      optional (n .modifiers),
      t .classWord,
      field .name (t .identifier),
      optional (field .typeParameters (n .typeParameters)),
      optional (field .superclass (n .superclass)),
      optional (field .interfaces (n .superInterfaces)),
      optional (field .permits (n .permits)),
      field .body (n .classBody)]
  | .modifiers =>
    repeat1 (choices [
      n .annotationAny, t .publicWord, t .protectedWord, t .privateWord, t .abstractWord,
      t .staticWord, t .finalWord, t .strictfpWord, t .defaultWord, t .synchronizedWord,
      t .nativeWord, t .transientWord, t .volatileWord, t .sealedWord, t .nonSealedWord])
  | .typeParameters => seqs [t .lt, sepBy1 (n .typeParameter) (t .comma), t .gt]
  | .typeParameter =>
    seqs [many (n .annotationAny), rename .typeIdentifier (t .identifier), optional (n .typeBound)]
  | .typeBound => seqs [t .extendsWord, n .type, many (seqs [t .amp, n .type])]
  | .superclass => seqs [t .extendsWord, n .type]
  | .superInterfaces => seqs [t .implementsWord, n .typeList]
  | .typeList => seqs [n .type, many (seqs [t .comma, n .type])]
  | .permits => seqs [t .permitsWord, n .typeList]
  | .classBody => seqs [t .lbrace, many (n .classBodyDeclaration), t .rbrace]
  | .classBodyDeclaration =>
    choices [
      n .fieldDeclaration,
      n .recordDeclaration,
      n .methodDeclaration,
      n .compactConstructorDeclaration,
      n .classDeclaration,
      n .interfaceDeclaration,
      n .annotationTypeDeclaration,
      n .enumDeclaration,
      n .block,
      n .staticInitializer,
      n .constructorDeclaration,
      t .semicolon]
  | .staticInitializer => seqs [t .staticWord, n .block]
  | .constructorDeclaration =>
    seqs [
      optional (n .modifiers),
      n .constructorDeclarator,
      optional (n .throws),
      field .body (n .constructorBody)]
  | .constructorDeclarator =>
    seqs [
      field .typeParameters (optional (n .typeParameters)),
      field .name (t .identifier),
      field .parameters (n .formalParameters)]
  | .constructorBody =>
    seqs [t .lbrace, optional (n .explicitConstructorInvocation), many (n .statement), t .rbrace]
  | .explicitConstructorInvocation =>
    seqs [
      choices [
        seqs [
          field .typeArguments (optional (n .typeArguments)),
          field .constructor (choices [t .thisWord, t .superWord])],
        seqs [
          field .object (n .primaryExpression),
          t .dot,
          field .typeArguments (optional (n .typeArguments)),
          field .constructor (t .superWord)]],
      field .arguments (n .argumentList),
      t .semicolon]
  | .qualifiedName => choices [t .identifier, n .reservedIdentifier, n .scopedIdentifier]
  | .scopedIdentifier =>
    seqs [field .scope (n .qualifiedName), t .dot, field .name (t .identifier)]
  | .fieldDeclaration =>
    seqs [
      optional (n .modifiers),
      field .type (n .unannotatedType),
      n .variableDeclaratorList,
      t .semicolon]
  | .recordDeclaration =>
    seqs [
      optional (n .modifiers),
      t .recordWord,
      field .name (t .identifier),
      optional (field .typeParameters (n .typeParameters)),
      field .parameters (n .formalParameters),
      optional (field .interfaces (n .superInterfaces)),
      field .body (n .classBody)]
  | .annotationTypeDeclaration =>
    seqs [
      optional (n .modifiers),
      t .interfaceAt,
      field .name (t .identifier),
      field .body (n .annotationTypeBody)]
  | .annotationTypeBody =>
    seqs [
      t .lbrace,
      many (choices [
        n .annotationTypeElementDeclaration,
        n .constantDeclaration,
        n .classDeclaration,
        n .interfaceDeclaration,
        n .enumDeclaration,
        n .annotationTypeDeclaration,
        t .semicolon]),
      t .rbrace]
  | .annotationTypeElementDeclaration =>
    seqs [
      optional (n .modifiers),
      field .type (n .unannotatedType),
      field .name anyIdentifier,
      t .lparen,
      t .rparen,
      field .dimensions (optional (n .dimensions)),
      optional (n .defaultValue),
      t .semicolon]
  | .defaultValue => seqs [t .defaultWord, field .value (n .elementValue)]
  | .interfaceDeclaration =>
    seqs [
      optional (n .modifiers),
      t .interfaceWord,
      field .name (t .identifier),
      field .typeParameters (optional (n .typeParameters)),
      optional (n .extendsInterfaces),
      optional (field .permits (n .permits)),
      field .body (n .interfaceBody)]
  | .extendsInterfaces => seqs [t .extendsWord, n .typeList]
  | .interfaceBody =>
    seqs [
      t .lbrace,
      many (choices [
        n .constantDeclaration, n .enumDeclaration, n .methodDeclaration, n .classDeclaration,
        n .interfaceDeclaration, n .recordDeclaration, n .annotationTypeDeclaration, t .semicolon]),
      t .rbrace]
  | .constantDeclaration =>
    seqs [
      optional (n .modifiers),
      field .type (n .unannotatedType),
      n .variableDeclaratorList,
      t .semicolon]
  | .variableDeclaratorList => sepBy1 (field .declarator (n .variableDeclarator)) (t .comma)
  | .variableDeclarator =>
    seqs [
      n .variableDeclaratorId,
      optional (seqs [t .assign, field .value (n .variableInitializer)])]
  | .variableDeclaratorId =>
    seqs [
      field .name (choices [t .identifier, n .reservedIdentifier, t .underscore]),
      field .dimensions (optional (n .dimensions))]
  | .variableInitializer => choices [n .expression, n .arrayInitializer]
  | .arrayInitializer =>
    seqs [t .lbrace, sepBy (n .variableInitializer) (t .comma), optional (t .comma), t .rbrace]
  | .type => choices [n .unannotatedType, n .annotatedType]
  | .unannotatedType => choices [n .simpleType, n .arrayType]
  | .simpleType =>
    choices [
      t .voidWord,
      n .integralType,
      n .floatingPointType,
      t .booleanWord,
      rename .typeIdentifier (t .identifier),
      n .scopedTypeIdentifier,
      n .genericType]
  | .annotatedType => seqs [repeat1 (n .annotationAny), n .unannotatedType]
  | .scopedTypeIdentifier =>
    seqs [
      choices [rename .typeIdentifier (t .identifier), n .scopedTypeIdentifier, n .genericType],
      t .dot,
      many (n .annotationAny),
      rename .typeIdentifier (t .identifier)]
  | .genericType =>
    dynamic Level.generic (seqs [
      choices [rename .typeIdentifier (t .identifier), n .scopedTypeIdentifier],
      n .typeArguments])
  | .arrayType => seqs [field .element (n .unannotatedType), field .dimensions (n .dimensions)]
  | .integralType => choices [t .byteWord, t .shortWord, t .intWord, t .longWord, t .charWord]
  | .floatingPointType => choices [t .floatWord, t .doubleWord]
  | .methodHeader =>
    seqs [
      optional (seqs [field .typeParameters (n .typeParameters), many (n .annotationAny)]),
      field .type (n .unannotatedType),
      n .methodDeclarator,
      optional (n .throws)]
  | .methodDeclarator =>
    seqs [
      field .name anyIdentifier,
      field .parameters (n .formalParameters),
      field .dimensions (optional (n .dimensions))]
  | .formalParameters =>
    seqs [
      t .lparen,
      choices [
        n .receiverParameter,
        seqs [
          optional (seqs [n .receiverParameter, t .comma]),
          sepBy (choices [n .formalParameter, n .spreadParameter]) (t .comma)]],
      t .rparen]
  | .formalParameter =>
    seqs [optional (n .modifiers), field .type (n .unannotatedType), n .variableDeclaratorId]
  | .receiverParameter =>
    seqs [
      many (n .annotationAny),
      n .unannotatedType,
      many (seqs [t .identifier, t .dot]),
      t .thisWord]
  | .spreadParameter =>
    seqs [
      optional (n .modifiers), n .unannotatedType, t .ellipsis, many (n .annotationAny),
      n .variableDeclarator]
  | .throws => seqs [t .throwsWord, sepBy1 (n .type) (t .comma)]
  | .localVariableDeclaration =>
    seqs [
      optional (n .modifiers),
      field .type (n .unannotatedType),
      n .variableDeclaratorList,
      t .semicolon]
  | .methodDeclaration =>
    seqs [optional (n .modifiers), n .methodHeader, choices [field .body (n .block), t .semicolon]]
  | .compactConstructorDeclaration =>
    seqs [optional (n .modifiers), field .name (t .identifier), field .body (n .block)]
  | .reservedIdentifier =>
    choices [
      prec (-3) none (rename (.token .identifier) (choices [
        t .openWord, t .moduleWord, t .recordWord, t .withWord, t .sealedWord])),
      rename (.token .identifier) (t .yieldWord)]

end MethodExtraction.Java
