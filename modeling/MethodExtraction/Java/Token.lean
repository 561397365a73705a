import MethodExtraction.Java.Lexis

namespace MethodExtraction.Java

open Grammar

/-- Of two tokens that match the same text with equal precedence and rank, the one that stands first
here is preferred. -/
inductive Token where
  | decimalInteger | hexInteger | octalInteger | binaryInteger | decimalFloat | hexFloat
  | trueWord | falseWord | character | quote | tripleQuote | stringFragment | textRun | quotedRun
  | interpolationOpen | rbrace | looseEscape | escape | nullWord | lparen | rparen | amp | assign
  | addAssign | subAssign | mulAssign | divAssign | andAssign | orAssign | xorAssign | modAssign
  | shlAssign | shrAssign | ushrAssign | gt | lt | ge | le | eqEq | notEq | andAnd | orOr | plus
  | minus | star | slash | pipe | caret | percent | shl | shr | ushr | instanceofWord | finalWord
  | arrow | comma | question | colon | bang | tilde | plusPlus | minusMinus | newWord | lbracket
  | rbracket | dot | classWord | doubleColon | extendsWord | switchWord | lbrace | caseWord
  | defaultWord | underscore | whenWord | semicolon | assertWord | doWord | whileWord | breakWord
  | continueWord | returnWord | yieldWord | synchronizedWord | throwWord | tryWord | catchWord
  | finallyWord | ifWord | elseWord | forWord | atSign | openWord | moduleWord | requiresWord
  | transitiveWord | staticWord | exportsWord | toWord | opensWord | usesWord | providesWord
  | withWord | packageWord | importWord | enumWord | publicWord | protectedWord | privateWord
  | abstractWord | strictfpWord | nativeWord | transientWord | volatileWord | sealedWord
  | nonSealedWord | implementsWord | permitsWord | recordWord | interfaceAt | interfaceWord
  | byteWord | shortWord | intWord | longWord | charWord | floatWord | doubleWord | booleanWord
  | voidWord | ellipsis | throwsWord | thisWord | superWord | identifier | lineComment
  | blockComment
  deriving DecidableEq, Inhabited, Repr

namespace Token

def all : List Token := [
  .decimalInteger, .hexInteger, .octalInteger, .binaryInteger, .decimalFloat, .hexFloat,
  .trueWord, .falseWord, .character, .quote, .tripleQuote, .stringFragment, .textRun, .quotedRun,
  .interpolationOpen, .rbrace, .looseEscape, .escape, .nullWord, .lparen, .rparen, .amp, .assign,
  .addAssign, .subAssign, .mulAssign, .divAssign, .andAssign, .orAssign, .xorAssign, .modAssign,
  .shlAssign, .shrAssign, .ushrAssign, .gt, .lt, .ge, .le, .eqEq, .notEq, .andAnd, .orOr, .plus,
  .minus, .star, .slash, .pipe, .caret, .percent, .shl, .shr, .ushr, .instanceofWord, .finalWord,
  .arrow, .comma, .question, .colon, .bang, .tilde, .plusPlus, .minusMinus, .newWord, .lbracket,
  .rbracket, .dot, .classWord, .doubleColon, .extendsWord, .switchWord, .lbrace, .caseWord,
  .defaultWord, .underscore, .whenWord, .semicolon, .assertWord, .doWord, .whileWord, .breakWord,
  .continueWord, .returnWord, .yieldWord, .synchronizedWord, .throwWord, .tryWord, .catchWord,
  .finallyWord, .ifWord, .elseWord, .forWord, .atSign, .openWord, .moduleWord, .requiresWord,
  .transitiveWord, .staticWord, .exportsWord, .toWord, .opensWord, .usesWord, .providesWord,
  .withWord, .packageWord, .importWord, .enumWord, .publicWord, .protectedWord, .privateWord,
  .abstractWord, .strictfpWord, .nativeWord, .transientWord, .volatileWord, .sealedWord,
  .nonSealedWord, .implementsWord, .permitsWord, .recordWord, .interfaceAt, .interfaceWord,
  .byteWord, .shortWord, .intWord, .longWord, .charWord, .floatWord, .doubleWord, .booleanWord,
  .voidWord, .ellipsis, .throwsWord, .thisWord, .superWord, .identifier, .lineComment,
  .blockComment]

def number (t : Token) : Nat := t.ctorIdx

theorem all_getElem_number (t : Token) : all[t.number]? = some t := by
  cases t <;> rfl

private def plain (s : String) : Lexeme := .word s .anonymous

private def named (s : String) : Lexeme := .word s .named

private def free (p : Pattern) : Lexeme := { pattern := p, form := .named }

def lexeme : Token → Lexeme
  | .decimalInteger => free Lexis.decimalInteger
  | .hexInteger => free Lexis.hexInteger
  | .octalInteger => free Lexis.octalInteger
  | .binaryInteger => free Lexis.binaryInteger
  | .decimalFloat => free Lexis.decimalFloat
  | .hexFloat => free Lexis.hexFloat
  | .trueWord => named "true"
  | .falseWord => named "false"
  | .character => free Lexis.character
  | .quote => plain "\""
  | .tripleQuote => plain "\"\"\""
  | .stringFragment =>
    { pattern := Lexis.stringFragment, form := .named, immediate := true, precedence := 1 }
  | .textRun => { pattern := Lexis.stringFragment, form := .hidden }
  | .quotedRun => { pattern := Lexis.quotedRun, form := .hidden }
  | .interpolationOpen => plain "\\\x7b"
  | .rbrace => plain "\x7d"
  | .looseEscape => { pattern := Lexis.looseEscape, form := .hidden, immediate := true }
  | .escape => { pattern := Lexis.escape, form := .named, immediate := true }
  | .nullWord => named "null"
  | .lparen => plain "("
  | .rparen => plain ")"
  | .amp => plain "&"
  | .assign => plain "="
  | .addAssign => plain "+="
  | .subAssign => plain "-="
  | .mulAssign => plain "*="
  | .divAssign => plain "/="
  | .andAssign => plain "&="
  | .orAssign => plain "|="
  | .xorAssign => plain "^="
  | .modAssign => plain "%="
  | .shlAssign => plain "<<="
  | .shrAssign => plain ">>="
  | .ushrAssign => plain ">>>="
  | .gt => plain ">"
  | .lt => plain "<"
  | .ge => plain ">="
  | .le => plain "<="
  | .eqEq => plain "=="
  | .notEq => plain "!="
  | .andAnd => plain "&&"
  | .orOr => plain "||"
  | .plus => plain "+"
  | .minus => plain "-"
  | .star => plain "*"
  | .slash => plain "/"
  | .pipe => plain "|"
  | .caret => plain "^"
  | .percent => plain "%"
  | .shl => plain "<<"
  | .shr => plain ">>"
  | .ushr => plain ">>>"
  | .instanceofWord => plain "instanceof"
  | .finalWord => plain "final"
  | .arrow => plain "->"
  | .comma => plain ","
  | .question => plain "?"
  | .colon => plain ":"
  | .bang => plain "!"
  | .tilde => plain "~"
  | .plusPlus => plain "++"
  | .minusMinus => plain "--"
  | .newWord => plain "new"
  | .lbracket => plain "["
  | .rbracket => plain "]"
  | .dot => plain "."
  | .classWord => plain "class"
  | .doubleColon => plain "::"
  | .extendsWord => plain "extends"
  | .switchWord => plain "switch"
  | .lbrace => plain "\x7b"
  | .caseWord => plain "case"
  | .defaultWord => plain "default"
  | .underscore => named "_"
  | .whenWord => plain "when"
  | .semicolon => plain ";"
  | .assertWord => plain "assert"
  | .doWord => plain "do"
  | .whileWord => plain "while"
  | .breakWord => plain "break"
  | .continueWord => plain "continue"
  | .returnWord => plain "return"
  | .yieldWord => plain "yield"
  | .synchronizedWord => plain "synchronized"
  | .throwWord => plain "throw"
  | .tryWord => plain "try"
  | .catchWord => plain "catch"
  | .finallyWord => plain "finally"
  | .ifWord => plain "if"
  | .elseWord => plain "else"
  | .forWord => plain "for"
  | .atSign => plain "@"
  | .openWord => plain "open"
  | .moduleWord => plain "module"
  | .requiresWord => plain "requires"
  | .transitiveWord => plain "transitive"
  | .staticWord => plain "static"
  | .exportsWord => plain "exports"
  | .toWord => plain "to"
  | .opensWord => plain "opens"
  | .usesWord => plain "uses"
  | .providesWord => plain "provides"
  | .withWord => plain "with"
  | .packageWord => plain "package"
  | .importWord => plain "import"
  | .enumWord => plain "enum"
  | .publicWord => plain "public"
  | .protectedWord => plain "protected"
  | .privateWord => plain "private"
  | .abstractWord => plain "abstract"
  | .strictfpWord => plain "strictfp"
  | .nativeWord => plain "native"
  | .transientWord => plain "transient"
  | .volatileWord => plain "volatile"
  | .sealedWord => plain "sealed"
  | .nonSealedWord => plain "non-sealed"
  | .implementsWord => plain "implements"
  | .permitsWord => plain "permits"
  | .recordWord => plain "record"
  | .interfaceAt => plain "@interface"
  | .interfaceWord => plain "interface"
  | .byteWord => plain "byte"
  | .shortWord => plain "short"
  | .intWord => plain "int"
  | .longWord => plain "long"
  | .charWord => plain "char"
  | .floatWord => plain "float"
  | .doubleWord => plain "double"
  | .booleanWord => named "boolean"
  | .voidWord => named "void"
  | .ellipsis => plain "..."
  | .throwsWord => plain "throws"
  | .thisWord => named "this"
  | .superWord => named "super"
  | .identifier => free Lexis.identifier
  | .lineComment => free Lexis.lineComment
  | .blockComment => free Lexis.blockComment

def isComment (t : Token) : Bool := t = .lineComment || t = .blockComment

end Token

end MethodExtraction.Java
