import SquirrelAnalyzer.Proofs.DocumentOrder
import SquirrelAnalyzer.Proofs.Leaves
import SquirrelAnalyzer.Proofs.StoredValue

/-!
What building a unit gathers on its way through the source: the string literals, the calls that
name other units and the declarations that wait for their owners. Each of these is a list of all
such nodes, in the order of the document.
-/

namespace SquirrelAnalyzer

namespace Arena

variable {a : Arena} {accept : NodeId → Prop} {config : Config} {hint : ImportHint} {b x y : Branch}
  {id : NodeId} {source : String} {tokens : List Token}

/-- The branches are the paths in the source to the nodes with a property, each once and in the
order of the document. -/
structure Lists (a : Arena) (accept : NodeId → Prop) (bs : List Branch) : Prop where
  path : ∀ b ∈ bs, a.Below a.rootBranch b
  mem_iff : ∀ id, id ∈ bs.map (·.target) ↔ accept id
  nodup : (bs.map (·.target)).Nodup
  ordered : bs.Pairwise a.Precedes

def IsString (a : Arena) (id : NodeId) : Prop :=
  ∃ text, a.shape? id = some (.literal (.string text))

def StartsFirst (a : Arena) (source : String) (x y : NodeId) : Prop :=
  ∃ l m, a.location? x = some l ∧ a.location? y = some m ∧ l.startOffset ≤ m.startOffset ∧
    (Text.byteLength source.toList ≤ maxOffset → l.startOffset < m.startOffset)

theorem Accounted.startsFirst (h : a.Accounted source tokens) (ha : a.Parsed)
    (hx : a.IsString x.target) (hy : a.IsString y.target) (hxy : a.Precedes x y) :
    a.StartsFirst source x.target y.target := by
  have hleaf {id : NodeId} (hid : a.IsString id) : ∃ l content, a.location? id = some l ∧
      a.leaf? id = some ⟨l.span, content⟩ := by
    obtain ⟨text, hs⟩ := hid
    obtain ⟨n, hn, hshape⟩ := Option.map_eq_some_iff.mp hs
    refine ⟨n.location, .literal (.string text), ?_, ?_⟩
    · rw [location?, hn, Option.map_some]
    · rw [leaf?, hn, Option.bind_some, hshape]
      rfl
  obtain ⟨l, c, hl, hlx⟩ := hleaf hx
  obtain ⟨m, c', hm, hmy⟩ := hleaf hy
  refine ⟨l, m, hl, hm, ?_⟩
  cases hxy with
  | under hunder =>
    -- nothing stands below a literal
    obtain ⟨text, hs⟩ := hx
    obtain ⟨d, hd, -⟩ := hunder
    rw [children_of_shape? hs] at hd
    cases hd
  | apart hcd hxc hyd =>
    have hapart := h.apart _ _ _ _ (ha.sequential.index_lt_of_apart hcd hxc hyd) hlx hmy
    exact ⟨Nat.le_trans (h.proper _ _ hlx) hapart, fun hsize =>
      Nat.lt_of_lt_of_le ((h.oneToOne hsize).proper _ _ hlx) hapart⟩

inductive Calls (a : Arena) (callee : NodeId) (function : String) : Prop
  | plain (h : a.shape? callee = some (.identifier function))
  | root {property : NodeId} (h : a.shape? callee = some (.rootExpression property))
      (hproperty : a.shape? property = some (.identifier function))

structure Imports (a : Arena) (config : Config) (hint : ImportHint) : Prop where
  function : hint.function ∈ config.importFunctions
  call : ∃ callee first rest, a.shape? hint.call = some (.callExpression callee (first :: rest)) ∧
    a.Calls callee hint.function ∧ a.shape? first = some (.literal (.string hint.path))
  location : a.location? hint.call = some hint.location

end Arena

namespace SourceUnit

variable {u : SourceUnit} {config : Config} {a : Arena} {source : String}
  {tokens : List Token}

end SourceUnit

end SquirrelAnalyzer
