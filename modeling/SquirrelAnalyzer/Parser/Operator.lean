import SquirrelAnalyzer.Token.Basic
import SquirrelAnalyzer.Node.Kind

namespace SquirrelAnalyzer

def BinaryOperator.ofToken? : Token.Kind → Option BinaryOperator
  | .punct .logicalOr => some .or
  | .punct .logicalAnd => some .and
  | .punct .bar => some .bitOr
  | .punct .caret => some .bitXor
  | .punct .ampersand => some .bitAnd
  | .punct .equal => some .eq
  | .punct .notEqual => some .ne
  | .punct .compare => some .cmp
  | .punct .less => some .lt
  | .punct .lessEqual => some .le
  | .punct .greater => some .gt
  | .punct .greaterEqual => some .ge
  | .keyword .inKw => some .in
  | .keyword .instanceofKw => some .instanceOf
  | .punct .shiftLeft => some .shl
  | .punct .shiftRight => some .shr
  | .punct .unsignedShiftRight => some .uShr
  | .punct .plus => some .add
  | .punct .minus => some .sub
  | .punct .star => some .mul
  | .punct .slash => some .div
  | .punct .percent => some .mod
  | _ => none

def BinaryOperator.precedence : BinaryOperator → Nat
  | or => 1
  | and => 2
  | bitOr => 3
  | bitXor => 4
  | bitAnd => 5
  | eq | ne | cmp => 6
  | lt | le | gt | ge | .in | instanceOf => 7
  | shl | shr | uShr => 8
  | add | sub => 9
  | mul | div | mod => 10

def UnaryOperator.leading? : Token.Kind → Option UnaryOperator
  | .punct .minus => some .neg
  | .punct .bang => some .not
  | .punct .tilde => some .bitNot
  | .punct .increment => some .increment
  | .punct .decrement => some .decrement
  | .keyword .typeofKw => some .typeOf
  | .keyword .cloneKw => some .clone
  | .keyword .deleteKw => some .delete
  | .keyword .resumeKw => some .resume
  | _ => none

def UnaryOperator.trailing? : Token.Kind → Option UnaryOperator
  | .punct .increment => some .increment
  | .punct .decrement => some .decrement
  | _ => none

def AssignmentOperator.ofToken? : Token.Kind → Option AssignmentOperator
  | .punct .assign => some .assign
  | .punct .newSlot => some .newSlot
  | .punct .addAssign => some .add
  | .punct .subAssign => some .sub
  | .punct .mulAssign => some .mul
  | .punct .divAssign => some .div
  | .punct .modAssign => some .mod
  | _ => none

def Literal.ofToken? : Token.Kind → Option Literal
  | .integer n => some (.integer n)
  | .float bits => some (.float bits)
  | .string text => some (.string text)
  | .keyword .trueKw => some (.bool true)
  | .keyword .falseKw => some (.bool false)
  | .keyword .nullKw => some .null
  | _ => none

end SquirrelAnalyzer
