import SquirrelAnalyzer.Source.Location

namespace SquirrelAnalyzer

inductive Keyword
  | localKw | constKw | functionKw | classKw | extendsKw | constructorKw | staticKw | enumKw
  | returnKw | yieldKw | ifKw | elseKw | whileKw | doKw | forKw | foreachKw | inKw | tryKw | catchKw
  | throwKw | breakKw | continueKw | thisKw | baseKw | trueKw | falseKw | nullKw | typeofKw
  | cloneKw | deleteKw | resumeKw | instanceofKw
  deriving DecidableEq, Repr, Inhabited

namespace Keyword

def all : List Keyword :=
  [localKw, constKw, functionKw, classKw, extendsKw, constructorKw, staticKw, enumKw, returnKw,
    yieldKw, ifKw, elseKw, whileKw, doKw, forKw, foreachKw, inKw, tryKw, catchKw, throwKw, breakKw,
    continueKw, thisKw, baseKw, trueKw, falseKw, nullKw, typeofKw, cloneKw, deleteKw, resumeKw,
    instanceofKw]

def text : Keyword → String
  | localKw => "local"
  | constKw => "const"
  | functionKw => "function"
  | classKw => "class"
  | extendsKw => "extends"
  | constructorKw => "constructor"
  | staticKw => "static"
  | enumKw => "enum"
  | returnKw => "return"
  | yieldKw => "yield"
  | ifKw => "if"
  | elseKw => "else"
  | whileKw => "while"
  | doKw => "do"
  | forKw => "for"
  | foreachKw => "foreach"
  | inKw => "in"
  | tryKw => "try"
  | catchKw => "catch"
  | throwKw => "throw"
  | breakKw => "break"
  | continueKw => "continue"
  | thisKw => "this"
  | baseKw => "base"
  | trueKw => "true"
  | falseKw => "false"
  | nullKw => "null"
  | typeofKw => "typeof"
  | cloneKw => "clone"
  | deleteKw => "delete"
  | resumeKw => "resume"
  | instanceofKw => "instanceof"

def ofWord? (word : List Char) : Option Keyword := all.find? (·.text.toList = word)

theorem mem_all (k : Keyword) : k ∈ all := by cases k <;> decide

theorem ofWord?_text (k : Keyword) : ofWord? k.text.toList = some k := by
  have h : ∀ k ∈ all, ofWord? k.text.toList = some k := by decide +kernel
  exact h k (mem_all k)

end Keyword

inductive Punct
  | ellipsis | compare | unsignedShiftRight | newSlot | scope | addAssign | subAssign | mulAssign
  | divAssign | modAssign | equal | notEqual | lessEqual | greaterEqual | logicalAnd | logicalOr
  | increment | decrement | shiftLeft | shiftRight | braceOpen | braceClose | parenOpen
  | parenClose | bracketOpen | bracketClose | semicolon | comma | dot | colon | question | assign
  | plus | minus | star | slash | percent | less | greater | bang | tilde | ampersand | bar | caret
  | atSign
  deriving DecidableEq, Repr, Inhabited

namespace Punct

def all : List Punct :=
  [ellipsis, compare, unsignedShiftRight, newSlot, scope, addAssign, subAssign, mulAssign,
    divAssign, modAssign, equal, notEqual, lessEqual, greaterEqual, logicalAnd, logicalOr,
    increment, decrement, shiftLeft, shiftRight, braceOpen, braceClose, parenOpen, parenClose,
    bracketOpen, bracketClose, semicolon, comma, dot, colon, question, assign, plus, minus, star,
    slash, percent, less, greater, bang, tilde, ampersand, bar, caret, atSign]

def text : Punct → String
  | ellipsis => "..."
  | compare => "<=>"
  | unsignedShiftRight => ">>>"
  | newSlot => "<-"
  | scope => "::"
  | addAssign => "+="
  | subAssign => "-="
  | mulAssign => "*="
  | divAssign => "/="
  | modAssign => "%="
  | equal => "=="
  | notEqual => "!="
  | lessEqual => "<="
  | greaterEqual => ">="
  | logicalAnd => "&&"
  | logicalOr => "||"
  | increment => "++"
  | decrement => "--"
  | shiftLeft => "<<"
  | shiftRight => ">>"
  | braceOpen => "\x7b"
  | braceClose => "\x7d"
  | parenOpen => "("
  | parenClose => ")"
  | bracketOpen => "["
  | bracketClose => "]"
  | semicolon => ";"
  | comma => ","
  | dot => "."
  | colon => ":"
  | question => "?"
  | assign => "="
  | plus => "+"
  | minus => "-"
  | star => "*"
  | slash => "/"
  | percent => "%"
  | less => "<"
  | greater => ">"
  | bang => "!"
  | tilde => "~"
  | ampersand => "&"
  | bar => "|"
  | caret => "^"
  | atSign => "@"

theorem mem_all (p : Punct) : p ∈ all := by cases p <;> decide

theorem text_ne_nil (p : Punct) : p.text.toList ≠ [] := by cases p <;> decide

end Punct

namespace Token

inductive Kind
  | identifier (name : String)
  | keyword (keyword : Keyword)
  | integer (value : Nat)
  | float (bits : UInt64)
  | string (text : String)
  | punct (punct : Punct)
  | endOfFile
  deriving DecidableEq, Repr, Inhabited

end Token

structure Token where
  kind : Token.Kind
  text : String
  span : Span
  newlineBefore : Bool
  deriving DecidableEq, Repr, Inhabited

structure RawComment where
  text : List Char
  span : Span
  deriving DecidableEq, Repr, Inhabited

end SquirrelAnalyzer
