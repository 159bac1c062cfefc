import SquirrelAnalyzer.Config.Basic
import SquirrelAnalyzer.Unit.Facts

/-!
What single nodes declare: the names they introduce, the scopes these belong to and the symbols
they get. A unit's facts collect this over all nodes, parents first.
-/

namespace SquirrelAnalyzer

structure Binding where
  key : NodeId
  declaration : Declaration
  deriving DecidableEq, Repr, Inhabited

structure Declared where
  bindings : List Binding := []
  visible : List (NodeId × ScopedName) := []
  symbol : Option Symbol := none
  isQualified : Bool := false
  deriving Inhabited

namespace Arena

variable (a : Arena)

def literalText? (id : NodeId) : Option String := (a.shape? id).bind Shape.literalText?

def slotName? (key : NodeId) : Option String := (a.identifierName? key).or (a.literalText? key)

def scopeAround (b : Branch) : NodeId :=
  (b.ancestors.find? fun id => ((a.kind? id).map Kind.isScope).getD false).getD a.root

def valueKinds (value : Option NodeId) : Category × SymbolKind :=
  match value.bind a.kind? with
  | some kind =>
    if kind.isFunction then (.function, .function)
    else if kind.isClass then (.classType, .classType)
    else (.variableName, .variableName)
  | none => (.variableName, .variableName)

def memberKinds (value : Option NodeId) : Category × SymbolKind :=
  match (a.valueKinds value).1 with
  | .function => (.method, .method)
  | .classType => (.classType, .classType)
  | _ => (.property, .property)

def symbolOf? (b : Branch) (nameNode : NodeId) (kind : SymbolKind) (value : Option NodeId) :
    Option Symbol := do
  let name ← a.slotName? nameNode
  let selection ← a.location? nameNode
  let location ← a.location? b.target
  if location.contains selection then some ⟨name, kind, location, selection, b.target, value⟩
  else none

def scopedAt (scope nameNode : NodeId) (declaration : Branch) : List (NodeId × ScopedName) :=
  match a.identifierName? nameNode with
  | some name => [(scope, ⟨name, declaration⟩)]
  | none => []

def named (b : Branch) (nameNode : NodeId) (kinds : Category × SymbolKind) (value : Option NodeId)
    (isQualified : Bool) : Declared :=
  { bindings := [⟨nameNode, b.target, kinds.1⟩]
    visible := if isQualified then [] else a.scopedAt (a.scopeAround b) nameNode b
    symbol := a.symbolOf? b nameNode kinds.2 value
    isQualified }

def member (b : Branch) (key : NodeId) (kinds : Category × SymbolKind) (value : Option NodeId) :
    Declared :=
  { bindings := [⟨key, b.target, kinds.1⟩], symbol := a.symbolOf? b key kinds.2 value }

def parameterName? (param : NodeId) : Option NodeId :=
  match a.shape? param with
  | some (.identifier _) => some param
  | some (.assignmentPattern left _) => some left
  | _ => none

def parameter (b : Branch) (param : NodeId) : Declared :=
  match a.parameterName? param with
  | none => {}
  | some nameNode =>
    match a.identifierName? nameNode with
    | none => {}
    | some name =>
      { bindings := [⟨nameNode, param, .parameter⟩]
        visible := [(b.target, ⟨name, b.child param⟩)] }

def loopVariable (b : Branch) (binding : NodeId) : Declared :=
  match a.identifierName? binding with
  | none => {}
  | some name =>
    { bindings := [⟨binding, binding, .variableName⟩]
      visible := [(b.target, ⟨name, b.child binding⟩)] }

def rootSlot (b : Branch) (nameNode value : NodeId) : Declared :=
  let kinds := a.valueKinds (some value)
  { bindings := [⟨nameNode, b.target, kinds.1⟩]
    visible := a.scopedAt a.root nameNode b
    symbol := a.symbolOf? b nameNode kinds.2 (some value) }

def isOpaqueKey (computed : Bool) (key : NodeId) : Bool := computed && (a.literalText? key).isNone

def newSlot (b : Branch) (left right : NodeId) : Declared :=
  match a.shape? left with
  | some (.identifier _) => a.rootSlot b left right
  | some (.rootExpression property) => a.rootSlot b property right
  | some (.memberExpression _ property computed) =>
    if a.isOpaqueKey computed property then {}
    else { a.member b property (a.memberKinds (some right)) (some right) with isQualified := true }
  | _ => {}

def isConstant (b : Branch) : Bool :=
  match b.parent?.bind a.shape? with
  | some (.variableDeclaration .constant _) => true
  | _ => false

end Arena

namespace Declared

def join (first second : Declared) : Declared :=
  { second with
    bindings := first.bindings ++ second.bindings
    visible := first.visible ++ second.visible }

def joinAll (ds : List Declared) : Declared := ds.foldr join {}

def ofShape (a : Arena) (b : Branch) : Shape NodeId → Declared
  | .variableDeclarator id init =>
    let kinds := match a.valueKinds init with
      | (.variableName, .variableName) =>
        (Category.variableName, if a.isConstant b then SymbolKind.constant else .variableName)
      | kinds => kinds
    a.named b id kinds init false
  | .functionDeclaration qualifier id params _ =>
    (joinAll (params.map (a.parameter b))).join
      (a.named b id (.function, .function) none qualifier.isSome)
  | .classDeclaration qualifier id _ _ =>
    a.named b id (.classType, .classType) none qualifier.isSome
  | .enumDeclaration id _ => a.named b id (.enumType, .enumType) none false
  | .enumMember id init => a.member b id (.enumMember, .enumMember) init
  | .methodDefinition kind _ key value =>
    let symbolKind := match kind with
      | .constructor => SymbolKind.constructor
      | .method => .method
    a.member b key (.method, symbolKind) (some value)
  | .propertyDefinition _ computed key value =>
    if a.isOpaqueKey computed key then {} else a.member b key (a.memberKinds value) value
  | .functionExpression params _ => joinAll (params.map (a.parameter b))
  | .lambdaExpression params _ => joinAll (params.map (a.parameter b))
  | .foreachStatement index value _ _ =>
    joinAll ((index.toList ++ [value]).map (a.loopVariable b))
  | .tryStatement _ param _ => joinAll (param.toList.map (a.loopVariable b))
  | .assignmentExpression .newSlot left right => a.newSlot b left right
  | _ => {}

def ofBranch (a : Arena) (b : Branch) : Declared :=
  match a.shape? b.target with
  | some s => ofShape a b s
  | none => {}

end Declared

end SquirrelAnalyzer
