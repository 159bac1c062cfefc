import Mathlib.Tactic.Common
import SquirrelAnalyzer.Proofs.Tree

namespace SquirrelAnalyzer

namespace Shape

variable {α β γ : Type}

def map (f : α → β) : Shape α → Shape β
  | sourceFile body => sourceFile (body.map f)
  | blockStatement body => blockStatement (body.map f)
  | expressionStatement e => expressionStatement (f e)
  | returnStatement a => returnStatement (a.map f)
  | ifStatement t c a => ifStatement (f t) (f c) (a.map f)
  | whileStatement t b => whileStatement (f t) (f b)
  | doWhileStatement b t => doWhileStatement (f b) (f t)
  | forStatement i t u b => forStatement (i.map f) (t.map f) (u.map f) (f b)
  | foreachStatement i v o b => foreachStatement (i.map f) (f v) (f o) (f b)
  | tryStatement b p h => tryStatement (f b) (p.map f) (h.map f)
  | throwStatement a => throwStatement (f a)
  | breakStatement => breakStatement
  | continueStatement => continueStatement
  | variableDeclaration k ds => variableDeclaration k (ds.map f)
  | variableDeclarator i v => variableDeclarator (f i) (v.map f)
  | functionDeclaration q i ps b => functionDeclaration (q.map f) (f i) (ps.map f) (f b)
  | classDeclaration q i s b => classDeclaration (q.map f) (f i) (s.map f) (f b)
  | enumDeclaration i ms => enumDeclaration (f i) (ms.map f)
  | classBody body => classBody (body.map f)
  | methodDefinition k s key v => methodDefinition k s (f key) (f v)
  | propertyDefinition s c key v => propertyDefinition s c (f key) (v.map f)
  | enumMember i v => enumMember (f i) (v.map f)
  | metaProperty key => metaProperty (f key)
  | identifier name => identifier name
  | literal value => literal value
  | tableExpression ps => tableExpression (ps.map f)
  | arrayExpression es => arrayExpression (es.map f)
  | functionExpression ps b => functionExpression (ps.map f) (f b)
  | lambdaExpression ps b => lambdaExpression (ps.map f) (f b)
  | classExpression s b => classExpression (s.map f) (f b)
  | callExpression c as => callExpression (f c) (as.map f)
  | memberExpression o p c => memberExpression (f o) (f p) c
  | thisExpression => thisExpression
  | baseExpression => baseExpression
  | rootExpression p => rootExpression (f p)
  | assignmentExpression op l r => assignmentExpression op (f l) (f r)
  | binaryExpression op l r => binaryExpression op (f l) (f r)
  | unaryExpression op p a => unaryExpression op p (f a)
  | conditionalExpression t c a => conditionalExpression (f t) (f c) (f a)
  | yieldExpression a => yieldExpression (a.map f)
  | assignmentPattern l r => assignmentPattern (f l) (f r)
  | restElement => restElement

@[simp] theorem kind_map (f : α → β) (s : Shape α) : (s.map f).kind = s.kind := by
  cases s <;> rfl

theorem children_map (f : α → β) (s : Shape α) (table : FieldTable) :
    (s.map f).children table = (s.children table).map f := by
  cases s <;> cases table <;> simp [map, children, kind, Kind.fields, field, Option.toList_map]

theorem map_inj_option {f g : α → β} {o : Option α} :
    o.map f = o.map g ↔ ∀ x, o = some x → f x = g x := by
  cases o <;> simp

theorem map_congr {f g : α → β} {s : Shape α} (h : ∀ x ∈ s.children .full, f x = g x) :
    s.map f = s.map g := by
  cases s <;>
    simp only [children, kind, Kind.fields, field, List.flatMap_cons, List.flatMap_nil,
      List.append_nil, List.forall_mem_append, List.forall_mem_singleton] at h <;>
    simp_all [map, map_inj_option]

theorem mapM_map_option {m : Type → Type} [Monad m] (f : α → β) (g : β → m γ) (o : Option α) :
    (o.map f).mapM g = o.mapM (g ∘ f) := by
  cases o <;> rfl

theorem traverse_map {m : Type → Type} [Monad m] [LawfulMonad m] (f : α → β) (g : β → m γ)
    (s : Shape α) : (s.map f).traverse g = s.traverse (g ∘ f) := by
  cases s <;> simp only [map, traverse, List.mapM_map, mapM_map_option, Function.comp_apply]

theorem sizeOf_lt_of_mem_toList {o : Option Tree} {t : Tree} (h : t ∈ o.toList) :
    sizeOf t < sizeOf o := by
  cases o with
  | none => cases h
  | some u =>
    obtain rfl : t = u := by simpa using h
    simp

theorem sizeOf_lt {s : Shape Tree} {t : Tree} (h : t ∈ s.children .full) :
    sizeOf t < sizeOf s := by
  cases s <;>
    simp only [children, kind, Kind.fields, field, List.flatMap_cons, List.flatMap_nil,
      List.mem_append, List.not_mem_nil, List.mem_singleton, or_false] at h <;>
    grind [→ sizeOf_lt_of_mem_toList, → List.sizeOf_lt_of_mem]

end Shape

namespace Tree

variable {α : Type}

theorem of_children {P : Tree → Prop}
    (h : ∀ span shape, (∀ t ∈ Shape.children .full shape, P t) → P (.node span shape)) (t : Tree) :
    P t := by
  induction hn : sizeOf t using Nat.strongRecOn generalizing t with
  | ind n ih =>
    obtain ⟨span, shape⟩ := t
    refine h span shape fun t ht => ih _ ?_ t rfl
    have hlt := Shape.sizeOf_lt ht
    simp only [node.sizeOf_spec] at hn
    omega

theorem foldShape_eq_map (step : Span → Shape α → α) (s : Shape Tree) :
    foldShape step s = s.map (fold step) := by
  cases s <;> simp [foldShape, Shape.map, foldList_eq_map, foldOption_eq_map]

theorem fold_node (step : Span → Shape α → α) (span : Span) (shape : Shape Tree) :
    fold step (.node span shape) = step span (shape.map (fold step)) := by
  rw [fold, foldShape_eq_map]

end Tree

end SquirrelAnalyzer
