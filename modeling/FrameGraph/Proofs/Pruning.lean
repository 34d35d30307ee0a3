import FrameGraph.Graph.Compile
import FrameGraph.Proofs.Dependency.Hazards
import FrameGraph.Proofs.Dependency.Reachability
import FrameGraph.Proofs.Scheduling

/-!
# Pruning and reordering keep the meaning

A pass is taken here as an arbitrary function of the values of the resources that it accesses, which
gives new values to those that it writes.  The passes are run in the order of their declaration, and
once more without the passes that are not reachable, in an order that follows the dependencies.

What a pass sees of a resource was left there by the last writer before it.  That writer is reachable
with the pass, and it stays the last writer, since conflicting passes keep their order.

Principal statements: `idxOf_lt_of_conflict`, `isPrunedOrder_schedule`, and
`runAlong_schedule_agrees`: every reachable pass sees the same values in both runs, and every output
ends with the same value.
-/

set_option autoImplicit false

namespace FrameGraph

universe u

/-! ## Running passes -/

/-- What a pass computes: new values of the resources that it writes, from the values of all those
that it accesses. -/
def Pass.Work (p : Pass) (V : Type u) : Type u :=
  ({h : Handle // p.involves h = true} → V) → {h : Handle // p.writes h = true} → V

/-- Runs a pass; a resource that it does not write keeps its value. -/
def Pass.execute {V : Type u} (p : Pass) (work : p.Work V) (store : Handle → V) : Handle → V :=
  fun h => if hw : p.writes h = true then work (fun k => store k) ⟨h, hw⟩ else store h

section Running

variable {V : Type u} {passes : List Pass} (work : (i : Fin passes.length) → (passes.get i).Work V)

/-- Runs the pass at a position of the declaration. -/
def executeAt (i : Nat) (store : Handle → V) : Handle → V :=
  if hi : i < passes.length then (passes.get ⟨i, hi⟩).execute (work ⟨i, hi⟩) store else store

/-- Runs the passes at some positions, one after another. -/
def runAlong (order : List Nat) (store : Handle → V) : Handle → V :=
  order.foldl (fun store i => executeAt work i store) store

/-- Holds if the pass at a position of the declaration accesses the resource. -/
def involvesAt (passes : List Pass) (i : Nat) (h : Handle) : Bool :=
  (passes[i]?).any fun p => p.involves h

theorem involvesAt_eq (i : Nat) (h : Handle) :
    involvesAt passes i h = (readsAt passes i h || writesAt passes i h) := by
  unfold involvesAt readsAt writesAt
  cases passes[i]? with
  | none => rfl
  | some p => exact p.involves_eq h

theorem executeAt_of_not_writesAt {i : Nat} {h : Handle} (hw : writesAt passes i h = false)
    (store : Handle → V) : executeAt work i store h = store h := by
  unfold executeAt
  split
  · next hi =>
      have hpass : (passes.get ⟨i, hi⟩).writes h = false := by
        simpa [writesAt, List.getElem?_eq_getElem hi] using hw
      rw [Pass.execute, dif_neg]
      rw [hpass]
      exact Bool.false_ne_true
  · rfl

/-- A pass computes the same from stores that agree on what it accesses. -/
theorem executeAt_congr {i : Nat} {h : Handle} (hw : writesAt passes i h = true)
    {store store' : Handle → V}
    (hsame : ∀ k, involvesAt passes i k = true → store k = store' k) :
    executeAt work i store h = executeAt work i store' h := by
  have hi : i < passes.length := lt_length_of_writesAt hw
  have hseen : (fun k : {k : Handle // (passes.get ⟨i, hi⟩).involves k = true} => store k) =
      fun k : {k : Handle // (passes.get ⟨i, hi⟩).involves k = true} => store' k := by
    funext k
    refine hsame k ?_
    rw [involvesAt, List.getElem?_eq_getElem hi]
    exact k.2
  simp only [executeAt, dif_pos hi, Pass.execute]
  rw [hseen]
  have hpass : (passes.get ⟨i, hi⟩).writes h = true := by
    simpa [writesAt, List.getElem?_eq_getElem hi] using hw
  rw [dif_pos hpass, dif_pos hpass]

theorem runAlong_append (before after : List Nat) (store : Handle → V) :
    runAlong work (before ++ after) store = runAlong work after (runAlong work before store) :=
  List.foldl_append

/-- A resource keeps its value while nobody writes it. -/
theorem runAlong_of_not_writesAt {order : List Nat} {h : Handle}
    (hnone : ∀ k ∈ order, writesAt passes k h = false) (store : Handle → V) :
    runAlong work order store h = store h := by
  induction order generalizing store with
  | nil => rfl
  | cons i rest ih =>
      change runAlong work rest (executeAt work i store) h = store h
      rw [ih (fun k hk => hnone k (List.mem_cons_of_mem _ hk)),
        executeAt_of_not_writesAt work (hnone i List.mem_cons_self)]

/-- The value of a resource is that which its last writer has computed. -/
theorem runAlong_of_writesAt {before after : List Nat} {w : Nat} {h : Handle}
    (hlast : ∀ k ∈ after, writesAt passes k h = false) (store : Handle → V) :
    runAlong work (before ++ w :: after) store h =
      executeAt work w (runAlong work before store) h := by
  rw [runAlong_append]
  exact runAlong_of_not_writesAt work hlast _

/-- In the order of declaration the value comes from the last writer before a position. -/
theorem runAlong_range_of_isLastWriter {bound w : Nat} {h : Handle}
    (hw : IsLastWriter passes h bound w) (store : Handle → V) :
    runAlong work (List.range bound) store h =
      executeAt work w (runAlong work (List.range w) store) h := by
  obtain ⟨hlt, -, hlast⟩ := hw
  obtain ⟨d, rfl⟩ : ∃ d, bound = w + 1 + d := ⟨bound - (w + 1), by omega⟩
  rw [List.range_add, List.range_succ, List.append_assoc, List.singleton_append]
  refine runAlong_of_writesAt work (fun k hk => ?_) store
  obtain ⟨m, hm, rfl⟩ := List.mem_map.1 hk
  have hmd : m < d := List.mem_range.1 hm
  exact hlast (w + 1 + m) (by omega) (by omega)

end Running

/-! ## Orders of the reachable passes -/

/-- An order of exactly the reachable passes, each once, that follows the dependencies. -/
structure Analysis.IsPrunedOrder (a : Analysis) (order : List Nat) : Prop where
  nodup : order.Nodup
  mem_iff : ∀ i, i ∈ order ↔ a.reachable.getD i false = true
  respects : a.graph.Respects order

variable {passes : List Pass} {registry : Registry}

theorem lt_of_mem_outputPasses {t : Nat} (ht : t ∈ outputPasses passes registry) :
    t < (DependencyGraph.ofPasses passes).passCount := by
  rw [passCount_ofPasses]
  exact List.mem_range.1 (List.mem_filter.1 ht).1

theorem wellFormed_ofPasses (passes : List Pass) (registry : Registry) :
    ScheduleInput.WellFormed ⟨passes, (Analysis.ofPasses passes registry).graph,
      (Analysis.ofPasses passes registry).reachable, registry⟩ where
  consistent := consistent_ofPasses passes
  passCount_eq := passCount_ofPasses passes
  length_reachable := by simp [Analysis.ofPasses]

/-- The scheduler chooses such an order. -/
theorem isPrunedOrder_schedule (passes : List Pass) (registry : Registry) :
    (Analysis.ofPasses passes registry).IsPrunedOrder
      (schedule passes (Analysis.ofPasses passes registry).graph
        (Analysis.ofPasses passes registry).reachable registry).value where
  nodup := ScheduleInput.nodup_value_order (wellFormed_ofPasses passes registry)
  mem_iff := fun _ => ScheduleInput.mem_value_order (wellFormed_ofPasses passes registry)
  respects :=
    ScheduleInput.respects_value_order (wellFormed_ofPasses passes registry)
      fun _ _ => lt_of_hasEdge_ofPasses

namespace Analysis.IsPrunedOrder

variable {order : List Nat}

/-- What a pass of the order depends on is in the order. -/
theorem mem_of_hasEdge (ho : (Analysis.ofPasses passes registry).IsPrunedOrder order) {p c : Nat}
    (hedge : (DependencyGraph.ofPasses passes).HasEdge p c) (hc : c ∈ order) : p ∈ order := by
  rw [ho.mem_iff] at hc ⊢
  exact DependencyGraph.reaching_of_hasEdge (consistent_ofPasses passes)
    (fun t => lt_of_mem_outputPasses) hedge hc

/-- The last writer of what a pass of the order accesses is in the order. -/
theorem mem_of_isLastWriter (ho : (Analysis.ofPasses passes registry).IsPrunedOrder order)
    {h : Handle} {i w : Nat} (hi : i ∈ order) (hinvolved : involvesAt passes i h = true)
    (hw : IsLastWriter passes h i w) :
    (DependencyGraph.ofPasses passes).HasEdge w i ∧ w ∈ order := by
  have hedge : (DependencyGraph.ofPasses passes).HasEdge w i := by
    rw [involvesAt_eq, Bool.or_eq_true] at hinvolved
    rcases hinvolved with hr | hwr
    · exact ⟨⟨w, i, h, .readAfterWrite⟩, mem_edges_ofPasses.2 ⟨hr, hw⟩, rfl, rfl⟩
    · exact ⟨⟨w, i, h, .writeAfterWrite⟩, mem_edges_ofPasses.2 ⟨hwr, hw⟩, rfl, rfl⟩
  exact ⟨hedge, ho.mem_of_hasEdge hedge hi⟩

open Relation in
/-- **Conflicting passes keep their order**: the path between them lies in the order. -/
theorem idxOf_lt_of_conflict (ho : (Analysis.ofPasses passes registry).IsPrunedOrder order)
    {h : Handle} {i j : Nat} (hij : i < j) (hc : Conflict passes h i j) (hj : j ∈ order) :
    order.idxOf i < order.idxOf j := by
  have hpath := path_of_conflict hij hc
  suffices hboth : i ∈ order ∧ order.idxOf i < order.idxOf j from hboth.2
  clear hij hc
  induction hpath using TransGen.head_induction_on with
  | single hedge =>
      obtain ⟨e, he, hp, hcons, -⟩ := hedge
      have hi := ho.mem_of_hasEdge ⟨e, he, hp, hcons⟩ hj
      exact ⟨hi, ho.respects _ _ ⟨e, he, hp, hcons⟩ hi hj⟩
  | head hedge _ ih =>
      obtain ⟨e, he, hp, hcons, -⟩ := hedge
      have hi := ho.mem_of_hasEdge ⟨e, he, hp, hcons⟩ ih.1
      exact ⟨hi, Nat.lt_trans (ho.respects _ _ ⟨e, he, hp, hcons⟩ hi ih.1) ih.2⟩

end Analysis.IsPrunedOrder

/-! ## Positions in an order -/

section Positions

variable {before after : List Nat} {i k : Nat}

private theorem idxOf_middle (hnd : (before ++ i :: after).Nodup) :
    (before ++ i :: after).idxOf i = before.length := by
  have hnew : i ∉ before := fun h => (List.nodup_append.1 hnd).2.2 i h i List.mem_cons_self rfl
  rw [List.idxOf_append_of_notMem hnew]
  simp

private theorem mem_before_iff :
    (before ++ i :: after).idxOf k < before.length ↔ k ∈ before := by
  constructor
  · intro hlt
    by_cases hk : k ∈ before
    · exact hk
    · rw [List.idxOf_append_of_notMem hk] at hlt
      omega
  · intro hk
    rw [List.idxOf_append_of_mem hk]
    exact List.idxOf_lt_length_of_mem hk

end Positions

/-! ## The two runs agree -/

section Agreement

variable {V : Type u} (work : (i : Fin passes.length) → (passes.get i).Work V) (store : Handle → V)

/-- The pass sees the same values after the given passes as it does in the order of declaration. -/
def SeesDeclared (before : List Nat) (i : Nat) : Prop :=
  ∀ h, involvesAt passes i h = true →
    runAlong work before store h = runAlong work (List.range i) store h

/-- Whether the value of a resource is the declared one is decided at its last writer. -/
theorem runAlong_eq_range {before : List Nat} {bound : Nat} {h : Handle}
    (hbefore : ∀ k ∈ before, writesAt passes k h = true → k < bound)
    (hlast : ∀ w, IsLastWriter passes h bound w → ∃ first rest, before = first ++ w :: rest ∧
      (∀ k ∈ rest, writesAt passes k h = false) ∧ SeesDeclared work store first w) :
    runAlong work before store h = runAlong work (List.range bound) store h := by
  by_cases hwritten : ∃ k, k < bound ∧ writesAt passes k h = true
  · obtain ⟨k, hk, hkw⟩ := hwritten
    obtain ⟨w, hw, -⟩ := exists_isLastWriter hk hkw
    obtain ⟨first, rest, rfl, hrest, hsees⟩ := hlast w hw
    rw [runAlong_of_writesAt work hrest, runAlong_range_of_isLastWriter work hw]
    exact executeAt_congr work hw.2.1 hsees
  · have hnone : ∀ k, k < bound → writesAt passes k h = false := by
      intro k hk
      cases hkw : writesAt passes k h with
      | false => rfl
      | true => exact absurd ⟨k, hk, hkw⟩ hwritten
    rw [runAlong_of_not_writesAt work fun k hk => hnone k (List.mem_range.1 hk)]
    refine runAlong_of_not_writesAt work (fun k hk => ?_) store
    cases hkw : writesAt passes k h with
    | false => rfl
    | true => rw [hnone k (hbefore k hk hkw)] at hkw; cases hkw

namespace Analysis.IsPrunedOrder

variable {order : List Nat}

/-- The passes between the last writer and a position of the order do not write the resource. -/
theorem not_writesAt_after (ho : (Analysis.ofPasses passes registry).IsPrunedOrder order)
    {h : Handle} {bound w : Nat} {first rest after : List Nat}
    (hsplit : order = first ++ w :: (rest ++ after)) (hw : IsLastWriter passes h bound w)
    (hbound : ∀ k ∈ rest, writesAt passes k h = true → k < bound) :
    ∀ k ∈ rest, writesAt passes k h = false := by
  intro k hk
  cases hkw : writesAt passes k h with
  | false => rfl
  | true =>
      have hnd := ho.nodup
      rw [hsplit] at hnd
      have hne : k ≠ w := by
        rintro rfl
        exact (List.nodup_cons.1 (List.nodup_append.1 hnd).2.1).1 (List.mem_append_left _ hk)
      have hkw' : k < w := by
        rcases Nat.lt_trichotomy k w with hlt | heq | hgt
        · exact hlt
        · exact absurd heq hne
        · exact absurd hkw (by simp [hw.2.2 k hgt (hbound k hk hkw)])
      -- An earlier writer cannot come after the last one.
      have hidx := ho.idxOf_lt_of_conflict hkw' (.inl ⟨hkw, .inr hw.2.1⟩) (by simp [hsplit])
      rw [hsplit, idxOf_middle hnd, mem_before_iff] at hidx
      refine absurd rfl ((List.nodup_append.1 hnd).2.2 k hidx k ?_)
      exact List.mem_cons_of_mem _ (List.mem_append_left _ hk)

/-- Every pass of the order sees what it sees in the order of declaration. -/
theorem seesDeclared (ho : (Analysis.ofPasses passes registry).IsPrunedOrder order)
    {before after : List Nat} {i : Nat} (hsplit : order = before ++ i :: after) :
    SeesDeclared work store before i := by
  induction hlen : before.length using Nat.strongRecOn generalizing before i after with
  | ind n ih =>
      intro h hinvolved
      have hi : i ∈ order := by simp [hsplit]
      have hnd := ho.nodup
      rw [hsplit] at hnd
      -- A later writer conflicts with the pass, so it comes after it.
      have hbefore : ∀ k ∈ before, writesAt passes k h = true → k < i := by
        intro k hk hkw
        have hidx : (before ++ i :: after).idxOf k < before.length := mem_before_iff.2 hk
        rcases Nat.lt_trichotomy k i with hlt | rfl | hgt
        · exact hlt
        · exact absurd rfl ((List.nodup_append.1 hnd).2.2 k hk k List.mem_cons_self)
        · have hconflict : Conflict passes h i k := by
            rw [involvesAt_eq, Bool.or_eq_true] at hinvolved
            rcases hinvolved with hr | hw
            · exact .inr ⟨hr, hkw⟩
            · exact .inl ⟨hw, .inr hkw⟩
          have hlt := ho.idxOf_lt_of_conflict hgt hconflict (by simp [hsplit, hk])
          rw [hsplit, idxOf_middle hnd] at hlt
          omega
      refine runAlong_eq_range work store hbefore fun w hw => ?_
      obtain ⟨hedge, hmem⟩ := ho.mem_of_isLastWriter hi hinvolved hw
      have hidx := ho.respects w i hedge hmem hi
      rw [hsplit, idxOf_middle hnd, mem_before_iff] at hidx
      obtain ⟨first, rest, rfl⟩ := List.append_of_mem hidx
      have hsplit' : order = first ++ w :: (rest ++ i :: after) := by
        rw [hsplit, List.append_assoc, List.cons_append]
      refine ⟨first, rest, rfl, ?_, ?_⟩
      · refine ho.not_writesAt_after hsplit' hw fun k hk => hbefore k ?_
        exact List.mem_append_right _ (List.mem_cons_of_mem _ hk)
      · refine ih first.length ?_ hsplit' rfl
        rw [← hlen, List.length_append, List.length_cons]
        omega

/-- The last writer of an output is in the order. -/
theorem mem_of_writes_output (ho : (Analysis.ofPasses passes registry).IsPrunedOrder order)
    {h : Handle} {resource : Resource} (hfound : registry.get? h = some resource)
    (hout : resource.isOutput = true) {w : Nat} (hw : writesAt passes w h = true) : w ∈ order := by
  obtain ⟨p, hp, hwrites⟩ := (Option.any_eq_true ..).1 hw
  obtain ⟨a, ha, hwrite⟩ := List.any_eq_true.1 hwrites
  rw [Bool.and_eq_true, decide_eq_true_eq] at hwrite
  have hproduces : p.producesOutput registry = true := by
    refine List.any_eq_true.2 ⟨a, ha, ?_⟩
    rw [hwrite.1, hfound]
    simp [hwrite.2, hout]
  rw [ho.mem_iff]
  refine (DependencyGraph.reaching_eq_true_iff (consistent_ofPasses passes)
    fun t => lt_of_mem_outputPasses).2 ⟨w, ?_, .refl⟩
  refine List.mem_filter.2 ⟨List.mem_range.2 (lt_length_of_writesAt hw), ?_⟩
  rw [hp]
  exact hproduces

/-- Every output ends with the value that it has in the order of declaration. -/
theorem runAlong_output (ho : (Analysis.ofPasses passes registry).IsPrunedOrder order) {h : Handle}
    {resource : Resource} (hfound : registry.get? h = some resource)
    (hout : resource.isOutput = true) :
    runAlong work order store h = runAlong work (List.range passes.length) store h := by
  have hbound : ∀ k, writesAt passes k h = true → k < passes.length :=
    fun k => lt_length_of_writesAt
  refine runAlong_eq_range work store (fun k _ => hbound k) fun w hw => ?_
  obtain ⟨first, rest, hsplit⟩ := List.append_of_mem (ho.mem_of_writes_output hfound hout hw.2.1)
  have hsplit' : order = first ++ w :: (rest ++ []) := by
    rw [List.append_nil]
    exact hsplit
  refine ⟨first, rest, hsplit, ?_, ho.seesDeclared work store hsplit⟩
  exact ho.not_writesAt_after hsplit' hw fun k _ => hbound k

end Analysis.IsPrunedOrder

end Agreement

/-- **Pruning and reordering keep the meaning.**  Whatever the passes compute and whatever the
resources hold at first: in every order of the reachable passes that follows the dependencies, the
scheduler's among them, every pass sees the values that it sees in the order of declaration, and every
output ends with the value that it has there. -/
theorem runAlong_schedule_agrees (registry : Registry) (passes : List Pass) {V : Type u}
    (work : (i : Fin passes.length) → (passes.get i).Work V) (store : Handle → V) :
    let a := Analysis.ofPasses passes registry
    a.IsPrunedOrder (schedule passes a.graph a.reachable registry).value ∧
      ∀ order, a.IsPrunedOrder order →
        (∀ before i after, order = before ++ i :: after →
          ∀ h, involvesAt passes i h = true →
            runAlong work before store h = runAlong work (List.range i) store h) ∧
        (∀ h resource, registry.get? h = some resource → resource.isOutput = true →
          runAlong work order store h = runAlong work (List.range passes.length) store h) := by
  intro a
  refine ⟨isPrunedOrder_schedule passes registry, fun order ho => ⟨?_, ?_⟩⟩
  · intro before i after hsplit
    exact ho.seesDeclared work store hsplit
  · intro h resource hfound hout
    exact ho.runAlong_output work store hfound hout

end FrameGraph
