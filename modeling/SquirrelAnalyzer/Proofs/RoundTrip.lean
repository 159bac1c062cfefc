import SquirrelAnalyzer.Proofs.PostOrder
import SquirrelAnalyzer.Proofs.Reread.Statement

namespace SquirrelAnalyzer

def Node.unplaced (n : Node) : NodeId × Shape NodeId := (n.id, n.shape)

namespace Arena

def Corresponds {α : Type} (m m' : StateM (Array Node) α) : Prop :=
  ∀ nodes nodes' : Array Node, nodes.map Node.unplaced = nodes'.map Node.unplaced →
    (m.run nodes).1 = (m'.run nodes').1 ∧
      (m.run nodes).2.map Node.unplaced = (m'.run nodes').2.map Node.unplaced

namespace Corresponds

variable {α β : Type} {f f' : Tree → StateM (Array Node) NodeId}

theorem pure (a : α) : Corresponds (Pure.pure a) (Pure.pure a) := fun _ _ h => ⟨rfl, h⟩

theorem bind {m m' : StateM (Array Node) α} {k k' : α → StateM (Array Node) β}
    (hm : Corresponds m m') (hk : ∀ a, Corresponds (k a) (k' a)) :
    Corresponds (m >>= k) (m' >>= k') := by
  intro nodes nodes' h
  obtain ⟨hresult, hnodes⟩ := hm nodes nodes' h
  have hrest := hk (m'.run nodes').1 (m.run nodes).2 (m'.run nodes').2 hnodes
  show ((k (m.run nodes).1).run (m.run nodes).2).1 = _ ∧
    ((k (m.run nodes).1).run (m.run nodes).2).2.map Node.unplaced = _
  rw [hresult]
  exact hrest

theorem list {l : List Tree} (h : ∀ t ∈ l, Corresponds (f t) (f' t)) :
    Corresponds (l.mapM f) (l.mapM f') := by
  induction l with
  | nil => exact pure []
  | cons t l ih =>
    obtain ⟨ht, hl⟩ := List.forall_mem_cons.mp h
    rw [List.mapM_cons, List.mapM_cons]
    exact ht.bind fun id => (ih hl).bind fun ids => pure (id :: ids)

theorem option {o : Option Tree} (h : ∀ t ∈ o, Corresponds (f t) (f' t)) :
    Corresponds (o.mapM f) (o.mapM f') := by
  cases o with
  | none => exact pure none
  | some t => exact (h t rfl).bind fun id => pure (some id)

theorem traverse {s : Shape Tree} (h : ∀ t ∈ s.children .full, Corresponds (f t) (f' t)) :
    Corresponds (s.traverse f) (s.traverse f') := by
  cases s
  all_goals
    simp [Shape.children, Shape.kind, Kind.fields, Shape.field, -Option.mem_def, or_imp,
      forall_and] at h
    unfold Shape.traverse
    repeat first
      | exact pure _
      | refine bind ?_ fun _ => ?_
      | exact list (by simp_all)
      | exact option (by simp_all)
      | simp_all

theorem push {location location' : Location} {shape : Shape NodeId} :
    Corresponds (modifyGet fun nodes => pushNode nodes location shape)
      (modifyGet fun nodes => pushNode nodes location' shape) := by
  intro nodes nodes' h
  have hsize := congrArg Array.size h
  simp only [Array.size_map] at hsize
  show (⟨nodes.size⟩ : NodeId) = ⟨nodes'.size⟩ ∧ (nodes.push ⟨⟨nodes.size⟩, location, shape⟩).map
    Node.unplaced = (nodes'.push ⟨⟨nodes'.size⟩, location', shape⟩).map Node.unplaced
  rw [Array.map_push, Array.map_push, h, hsize]
  exact ⟨rfl, rfl⟩

theorem store_bare (lines lines' : LineMap) {t : Tree} (h : t.Nested) :
    Corresponds (store lines t) (store lines' t.bare) := by
  induction h with
  | @node span shape hspan inner ih =>
    rw [Tree.bare_node, store_node, store_node, Shape.traverse_map]
    exact (traverse ih).bind fun _ => push

end Corresponds

theorem unplaced_ofTree {lines lines' : LineMap} {comments comments' : List Doc.Comment}
    {t u : Tree} (ht : t.Nested) (hu : u.Nested) (h : t.Alike u) :
    (ofTree lines' comments' u).root = (ofTree lines comments t).root ∧
      (ofTree lines' comments' u).nodes.map Node.unplaced =
        (ofTree lines comments t).nodes.map Node.unplaced := by
  have hbare := Corresponds.store_bare lines lines ht #[] #[] rfl
  have hbare' := Corresponds.store_bare lines' lines hu #[] #[] rfl
  rw [h] at hbare'
  exact ⟨hbare'.1.trans hbare.1.symm, hbare'.2.trans hbare.2.symm⟩

theorem Reads.tokenize_print {source : String} {tokens : List Token} {body : List Tree} {a : Arena}
    (h : a.Reads source tokens body) (sp : Spelling) :
    ∃ tokens', Token.tokenize ((a.tree a.root).print sp).toList = .ok (tokens', []) ∧
      Token.OneLine (body.flatMap (·.write .statement) ++ [.endOfFile]) tokens' := by
  have hwrite : (a.tree a.root).write .statement = body.flatMap (·.write .statement) := by
    rw [h.tree_root, Tree.write_node]
    simp [Shape.map, Shape.write, Shape.writeStatement, List.flatMap_map]
  have hprintable : Token.Printable (body.flatMap (·.write .statement)) := by
    rw [Token.printable_flatMap]
    exact fun t ht => (h.fits t ht).printable .statement
  rw [Tree.print, String.toList_ofList, hwrite]
  exact sp.tokenize_spell hprintable

/-- Parsing what is printed for a parsed source gives the same nodes again, but for where they
stand. -/
theorem parse_print (sp : Spelling) {source : String} {a : Arena} (h : parse source = .ok a) :
    ∃ a', parse ((a.tree a.root).print sp) = .ok a' ∧ a'.root = a.root ∧
      a'.nodes.map Node.unplaced = a.nodes.map Node.unplaced := by
  obtain ⟨tokens, body, hreads⟩ := reads_parse h
  obtain ⟨tokens', htokens', hline⟩ := hreads.tokenize_print sp
  generalize (a.tree a.root).print sp = text at htokens' ⊢
  obtain ⟨body', hs, halike⟩ := Parser.sourceFile_reads _ hreads.fits hline
  obtain ⟨hchain, hbound⟩ := Token.chain_tokenize htokens'
  obtain ⟨hplaced, -⟩ := Parser.sourceFile_placed hchain hbound hs
  obtain ⟨comments, -, rfl⟩ := hreads.arena
  refine ⟨_, parse_of_tokens htokens' hs, ?_⟩
  -- the trees differ in ranges at most, on which neither numbers nor shapes depend
  exact unplaced_ofTree hreads.placed.nested hplaced.nested
    (Tree.alike_node (congrArg Shape.sourceFile halike))

theorem parse_print_function : ∃ a,
    parse "function A::f(x = 0.5) \x7b if (x) if (!x) return; else t <- \x7b[\"k\"] = -x++\x7d \x7d" =
      .ok a ∧ a.size = 23 ∧ ∃ (sp : Spelling) (a' : Arena),
        parse ((a.tree a.root).print sp) = .ok a' ∧ a'.root = a.root ∧
          a'.nodes.map Node.unplaced = a.nodes.map Node.unplaced := by
  have hparsed : (Except.toOption <|
      parse "function A::f(x = 0.5) \x7b if (x) if (!x) return; else t <- \x7b[\"k\"] = -x++\x7d \x7d").any
      (fun a => a.size = 23) = true := by decide +kernel
  obtain ⟨a, ha, hsize⟩ := exists_ok hparsed
  obtain ⟨sp⟩ := Spelling.nonempty
  exact ⟨a, ha, of_decide_eq_true hsize, sp, parse_print sp ha⟩

end Arena

end SquirrelAnalyzer
