import SquirrelAnalyzer.Resolve.Answer

namespace SquirrelAnalyzer

/-- A program under analysis. Its units change, and answers are remembered between changes. -/
structure Analysis where
  program : Program := {}
  memo : Memo := ∅
  deriving Inhabited

abbrev Asking := StateM Analysis

namespace Analysis

def ofProgram (program : Program) : Analysis := { program }

def ofConfig (config : Config) : Analysis := { program := { config } }

def unit? (a : Analysis) (id : UnitId) : Option SourceUnit := a.program.unit? id

def walk {α : Type} (resolve : Program → Resolving α) : Asking α :=
  modifyGet fun a =>
    let (answer, s) := (resolve a.program).run { memo := a.memo }
    (answer, { a with memo := s.memo })

def definition (b : Branch) : Asking (Option Branch) := walk fun p => (p.answer .definition b).run

def value (b : Branch) : Asking (Option Value) := walk fun p => (p.answer .value b).run

end Analysis

end SquirrelAnalyzer
