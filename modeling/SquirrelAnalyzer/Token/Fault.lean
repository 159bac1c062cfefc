import SquirrelAnalyzer.Source.Location

namespace SquirrelAnalyzer

inductive LexFault
  | unterminatedComment
  | invalidHexadecimal
  | integerOutOfRange
  | unterminatedString
  | newlineInString
  | invalidHexadecimalEscape
  | unknownEscape (c : Char)
  | emptyCharacter
  | unterminatedCharacter
  | unexpectedCharacter (c : Char)
  deriving DecidableEq, Repr, Inhabited

def LexFault.message : LexFault → String
  | unterminatedComment => "unterminated block comment"
  | invalidHexadecimal => "invalid hexadecimal literal"
  | integerOutOfRange => "integer literal out of range"
  | unterminatedString => "unterminated string literal"
  | newlineInString => "newline in string literal"
  | invalidHexadecimalEscape => "invalid hexadecimal escape"
  | unknownEscape c => "unknown escape `\\" ++ String.singleton c ++ "`"
  | emptyCharacter => "empty character literal"
  | unterminatedCharacter => "unterminated character literal"
  | unexpectedCharacter c => "unexpected character `" ++ String.singleton c ++ "`"

structure LexError where
  fault : LexFault
  span : Span
  deriving DecidableEq, Repr, Inhabited

end SquirrelAnalyzer
