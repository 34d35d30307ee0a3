import FrameGraph.Graph.Compile
import FrameGraph.Proofs.Barrier.Merge

/-!
# The barriers that are kept with the passes

Barriers are planned into the passes one by one.  Since those of an earlier plan are cleared first, what
lies around a pass in the end is what was placed there, in the order in which it was placed; nothing else
that is known about the passes changes.

Principal statements: `around_generateBarriers`, and `map_generateBarriers` for the rest.
-/

set_option autoImplicit false

namespace FrameGraph

/-! ## Barriers by place -/

/-- The barriers of a list, by kind. -/
def Barriers.ofList (barriers : List ResourceBarrier) : Barriers where
  images := barriers.filterMap ResourceBarrier.image?
  buffers := barriers.filterMap ResourceBarrier.buffer?

theorem Barriers.ofList_concat (barriers : List ResourceBarrier) (b : ResourceBarrier) :
    ofList (barriers ++ [b]) = (ofList barriers).push b := by
  cases b <;> simp [ofList, push, ResourceBarrier.image?, ResourceBarrier.buffer?]

/-- The barriers at one place. -/
def barriersAt (placed : List PlacedBarrier) (pass : Nat) (isAfter : Bool) : Barriers :=
  .ofList ((placed.filter fun p => p.pass = pass && p.isAfter = isAfter).map (·.barrier))

theorem barriersAt_concat (placed : List PlacedBarrier) (x : PlacedBarrier) (pass : Nat)
    (isAfter : Bool) :
    barriersAt (placed ++ [x]) pass isAfter =
      if x.pass = pass ∧ x.isAfter = isAfter then (barriersAt placed pass isAfter).push x.barrier
      else barriersAt placed pass isAfter := by
  by_cases hplace : x.pass = pass ∧ x.isAfter = isAfter
  · rw [if_pos hplace, barriersAt, barriersAt, ← Barriers.ofList_concat]
    simp [hplace]
  · rw [if_neg hplace, barriersAt, barriersAt, List.filter_append,
      List.filter_cons_of_neg (by simpa using hplace), List.filter_nil, List.append_nil]

/-- The barriers around each pass. -/
def AroundPass.ofPlaced (passCount : Nat) (placed : List PlacedBarrier) : List AroundPass :=
  (List.range passCount).map fun pass =>
    { before := barriersAt placed pass false, after := barriersAt placed pass true }

namespace AroundPass

@[simp] theorem length_ofPlaced (passCount : Nat) (placed : List PlacedBarrier) :
    (ofPlaced passCount placed).length = passCount := by
  simp [ofPlaced]

theorem ofPlaced_nil (passCount : Nat) :
    ofPlaced passCount [] = List.replicate passCount {} := by
  simp [ofPlaced, barriersAt, Barriers.ofList, List.map_const']

/-- One more barrier goes to the others at its place. -/
theorem ofPlaced_concat (passCount : Nat) (placed : List PlacedBarrier) (x : PlacedBarrier) :
    ofPlaced passCount (placed ++ [x]) =
      (ofPlaced passCount placed).modify x.pass fun b => b.push x := by
  refine List.ext_getElem (by simp) fun i hi hi' => ?_
  rw [List.getElem_modify]
  simp only [ofPlaced, List.getElem_map, List.getElem_range, barriersAt_concat]
  cases hafter : x.isAfter <;> by_cases hpass : x.pass = i <;> simp [push, hafter, hpass]

end AroundPass

/-! ## Planning into the passes -/

theorem around_pushBarrier (nodes : List PassNode) (x : PlacedBarrier) :
    (pushBarrier nodes x).map PassNode.around =
      (nodes.map PassNode.around).modify x.pass fun b => b.push x := by
  refine List.ext_getElem (by simp [pushBarrier]) fun i hi hi' => ?_
  simp only [pushBarrier, List.getElem_map, List.getElem_modify]
  split <;> rfl

theorem around_foldl_pushBarrier (nodes : List PassNode) (placed : List PlacedBarrier) :
    (placed.foldl pushBarrier (nodes.map PassNode.clearBarriers)).map PassNode.around =
      AroundPass.ofPlaced nodes.length placed := by
  induction placed using List.reverseRecOn with
  | nil =>
      rw [AroundPass.ofPlaced_nil, List.foldl_nil, List.map_map]
      exact List.map_const' ..
  | append_singleton placed x ih =>
      rw [List.foldl_append, List.foldl_cons, List.foldl_nil, around_pushBarrier, ih,
        AroundPass.ofPlaced_concat]

/-- **Around a pass lie the barriers that were placed there**, whatever lay there before. -/
theorem around_generateBarriers (table : UsageTable) (nodes : List PassNode) (registry : Registry) :
    (generateBarriers table nodes registry).value.map PassNode.around =
      AroundPass.ofPlaced nodes.length
        (placeBarriers (nodes.map (·.toPass)) registry table.entries).value :=
  around_foldl_pushBarrier nodes _

theorem value_planBarriers (table : UsageTable) (passes : List Pass) (registry : Registry) :
    (planBarriers table passes registry).value =
      AroundPass.ofPlaced passes.length (placeBarriers passes registry table.entries).value := by
  rw [planBarriers, Logged.value_map, around_generateBarriers, PassNode.passes_fresh,
    List.length_map]

/-! ## What else is known about the passes -/

section Others

variable {α : Type} {f : PassNode → α}
  (hf : ∀ (node : PassNode) (b : AroundPass), f { node with around := b } = f node)

include hf

theorem map_withBarriers (nodes : List PassNode) (barriers : List AroundPass) :
    (withBarriers nodes barriers).map f = nodes.map f := by
  refine List.ext_getElem (by simp [withBarriers]) fun i hi hi' => ?_
  simp only [withBarriers, List.getElem_map, List.getElem_mapIdx, hf]

/-- Planning barriers changes nothing else that is known about a pass. -/
theorem map_generateBarriers (table : UsageTable) (nodes : List PassNode)
    (registry : Registry) :
    (generateBarriers table nodes registry).value.map f = nodes.map f := by
  have hpush : ∀ (placed : List PlacedBarrier) (l : List PassNode),
      (placed.foldl pushBarrier l).map f = l.map f := by
    intro placed
    induction placed with
    | nil => exact fun _ => rfl
    | cons x rest ih =>
        intro l
        rw [List.foldl_cons, ih]
        refine List.ext_getElem (by simp [pushBarrier]) fun i hi hi' => ?_
        simp only [pushBarrier, List.getElem_map, List.getElem_modify]
        split
        · exact hf _ _
        · rfl
  refine (hpush _ _).trans ?_
  rw [List.map_map]
  exact List.map_congr_left fun node _ => hf node {}

end Others

theorem around_withBarriers {nodes : List PassNode} {barriers : List AroundPass}
    (hlength : barriers.length = nodes.length) :
    (withBarriers nodes barriers).map PassNode.around = barriers := by
  refine List.ext_getElem (by simp [withBarriers, hlength]) fun i hi hi' => ?_
  simp [withBarriers, List.getElem?_eq_getElem hi']

/-- Merging replaces the barriers around the passes by the merged ones. -/
theorem around_mergeBarriers (order : List Nat) (nodes : List PassNode) :
    (mergeBarriers order nodes).map PassNode.around =
      mergeAlong order (nodes.map PassNode.around) :=
  around_withBarriers ((length_mergeAlong ..).trans (List.length_map _))

end FrameGraph
