import MethodExtraction.Grammar.Lexeme

namespace MethodExtraction.Java.Lexis

open Grammar Grammar.Regex

private def one (s : CharSet) : Pattern := .atom s

private def word (s : String) : Pattern := Grammar.Pattern.word s

private def digit : Pattern := one (.range '0' '9')

private def octalDigit : Pattern := one (.range '0' '7')

private def hexDigit : Pattern := one ⟨false, [.chars 'A' 'F', .chars 'a' 'f', .chars '0' '9']⟩

private def longSuffix : Pattern := optional (one (.of "lL"))

private def floatSuffix : Pattern := one (.of "fFdD")

private def sign : Pattern := optional (one (.of "-+"))

/-- A run of digits without a leading zero; underscores stand only between digits. -/
private def digits : Pattern :=
  alt (word "0")
    (seq (one (.range '1' '9'))
      (optional (seq (optional (word "_")) (sepBy1 (plus digit) (plus (word "_"))))))

private def decimalDigits : Pattern := sepBy1 (plus digit) (word "_")

private def hexDigits : Pattern := sepBy1 (plus hexDigit) (word "_")

private def hexMark : Pattern := alt (word "0x") (word "0X")

private def exponent : Pattern := concat [one (.of "eE"), sign, decimalDigits]

def decimalInteger : Pattern := seq digits longSuffix

def hexInteger : Pattern := concat [hexMark, hexDigits, longSuffix]

def octalInteger : Pattern :=
  concat [any [word "0o", word "0O", word "0"], sepBy1 (plus octalDigit) (word "_"), longSuffix]

def binaryInteger : Pattern :=
  concat [alt (word "0b") (word "0B"), sepBy1 (plus (one (.of "01"))) (word "_"), longSuffix]

def decimalFloat : Pattern :=
  any [
    concat [decimalDigits, word ".", optional decimalDigits, optional exponent,
      optional floatSuffix],
    concat [word ".", decimalDigits, optional exponent, optional floatSuffix],
    concat [digits, exponent, optional floatSuffix],
    concat [digits, optional exponent, floatSuffix]]

def hexFloat : Pattern :=
  concat [
    hexMark,
    alt (seq hexDigits (optional (word "."))) (concat [optional hexDigits, word ".", hexDigits]),
    optional (concat [one (.of "pP"), sign, digits, optional floatSuffix])]

def character : Pattern :=
  concat [
    word "'",
    plus (any [one (.but "\\'\n"), seq (word "\\") (one (.but "\n")), word "\\\n"]),
    word "'"]

def stringFragment : Pattern := plus (one (.but "\"\\"))

/-- A quote inside a text block, with all up to the next quote that no backslash precedes. -/
def quotedRun : Pattern := seq (word "\"") (star (alt (one (.but "\"\\")) (word "\\\"")))

def looseEscape : Pattern := seq (word "\\") (one (.but "bfnrts'\"\\"))

def escape : Pattern :=
  seq (word "\\") (any [
    one ⟨true, [.chars 'x' 'x', .chars 'u' 'u', .chars '0' '7']⟩,
    concat [octalDigit, optional octalDigit, optional octalDigit],
    seq (word "x") (times hexDigit 2),
    seq (word "u") (times hexDigit 4),
    concat [word "u\x7b", plus hexDigit, word "\x7d"]])

def identifier : Pattern :=
  seq (one ⟨false, [.identifierStart, .chars '_' '_', .chars '$' '$']⟩)
    (star (one ⟨false, [.identifierPart, .chars '_' '_', .chars '$' '$']⟩))

def lineComment : Pattern := seq (word "//") (star (one (.but "\n")))

private def upToStars : Pattern := seq (star (one (.but "*"))) (plus (word "*"))

def blockComment : Pattern :=
  concat [word "/*", upToStars, star (seq (one (.but "/*")) upToStars), word "/"]

end MethodExtraction.Java.Lexis
