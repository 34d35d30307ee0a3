import FrameGraph.Barrier.Basic
import FrameGraph.Pass

/-!
# Passes and what is known about them

Beside its declaration, a pass keeps what the last analysis and the last plan say about it.  It is kept
until the next analysis or the next plan, even if other passes are declared in the meantime.
-/

set_option autoImplicit false

namespace FrameGraph

/-- A declared pass, with what is known about it. -/
structure PassNode extends Pass where
  /-- Whether it contributes to an output. -/
  reachable : Bool := false
  /-- The passes that it depends on, in ascending order. -/
  dependencies : List Nat := []
  /-- The barriers before and after it. -/
  around : AroundPass := {}
  deriving Inhabited

namespace PassNode

/-- A pass of which nothing is known yet. -/
def fresh (p : Pass) : PassNode := { toPass := p }

/-- Forgets the barriers around a pass. -/
def clearBarriers (node : PassNode) : PassNode := { node with around := {} }

theorem passes_fresh (passes : List Pass) : (passes.map fresh).map (·.toPass) = passes := by
  rw [List.map_map]
  exact List.map_id passes

end PassNode

/-- The passes with other barriers around them. -/
def withBarriers (nodes : List PassNode) (barriers : List AroundPass) : List PassNode :=
  nodes.mapIdx fun i node => { node with around := barriers.getD i {} }

end FrameGraph
