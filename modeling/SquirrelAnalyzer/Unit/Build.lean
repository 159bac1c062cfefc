import SquirrelAnalyzer.Unit.Declared

namespace SquirrelAnalyzer

namespace Arena

variable (a : Arena)

def outlineUpTo : Nat → Branch → Outline
  | 0, _ => []
  | n + 1, b =>
    let inner := (a.children .full b.target).flatMap fun c => outlineUpTo n (b.child c)
    match (Declared.ofBranch a b).symbol with
    | some s => [.node s inner]
    | none => inner

def outline : Outline := a.outlineUpTo a.size a.rootBranch

def normalizedKey? (b : Branch) : Option (NodeId × String) :=
  let key := match a.shape? b.target with
    | some (.memberExpression _ property true) => some property
    | some (.propertyDefinition _ true key _) => some key
    | _ => none
  key.bind fun k => (a.literalText? k).map (k, ·)

def importHint? (config : Config) (b : Branch) : Option ImportHint := do
  let (callee, arguments) ← (← a.shape? b.target).call?
  let function ← match ← a.shape? callee with
    | .identifier name => some name
    | .rootExpression property => a.identifierName? property
    | _ => none
  if config.isImportFunction function then
    let path ← a.literalText? (← arguments.head?)
    let location ← a.location? b.target
    return ⟨function, path, b.target, location⟩
  else none

end Arena

namespace SourceUnit

def firstCategory? (names : List (String × Category)) (name : String) : Option Category :=
  (names.find? (·.1 = name)).map (·.2)

def categories (a : Arena) (bindings : List Binding) (declarations : NodeTable Declaration)
    (nodes : List Branch) : NodeTable Category :=
  let names := bindings.filterMap fun x =>
    (a.slotName? x.key).map (·, x.declaration.category)
  let declared := bindings.map fun x => (x.key, x.declaration.category)
  let references := nodes.filterMap fun b =>
    if declarations.contains b.target then none
    else (a.identifierName? b.target).bind fun name =>
      (firstCategory? names name).map (b.target, ·)
  NodeTable.ofList (declared ++ references)

def ofArena (config : Config) (a : Arena) : SourceUnit :=
  let nodes := a.preorder a.rootBranch
  let declared := nodes.map fun b => (b, Declared.ofBranch a b)
  let bindings := declared.flatMap (·.2.bindings)
  let declarations := NodeTable.ofList (bindings.map fun x => (x.key, x.declaration))
  { id := a.unit
    arena := a
    facts :=
      { declarations
        scopes := NodeTable.group (declared.flatMap (·.2.visible))
        normalizedKeys := NodeTable.ofList (nodes.filterMap a.normalizedKey?)
        categories := categories a bindings declarations nodes }
    outline := a.outline
    hints := nodes.filterMap (a.importHint? config)
    literals := (nodes.filter fun b => (a.literalText? b.target).isSome).map (·.target)
    pending := (declared.filter (·.2.isQualified)).map (·.1)
    namespaces := [] }

end SourceUnit

end SquirrelAnalyzer
