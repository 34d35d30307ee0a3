import FrameGraph.Proofs.Memory.BestFit

/-!
# Serving the same demands again

What a request sees of the blocks of its frame are bays: what each of them offers, and until when it is
held.  Greedy best fit is not optimal, and not stable either: when the same demands are served again
from the bays that the first round has left, a demand may now get a bay that was added in the first
round for a later one, and that one may find none.  This cannot happen if in the first round no demand
took a bay although a smaller one that suits it was added afterwards.  Then each demand gets the same
bay again, and none is added.

Without this, bays are added in later rounds too, but not for ever: each of them is one more that suits
the demand for which it was added, and no demand finds more of them held than there are demands.

Principal statements: `Bay.Runs.unique`, `Bay.Thrifty.replay`, `Bay.Thrifty.stable` and
`Bay.Runs.length_add_saturation_le`.
-/

set_option autoImplicit false

namespace FrameGraph

/-- What a request sees of a block of its frame: what it offers, and whose lifetime it is held for. -/
structure Bay where
  size : Nat
  alignment : Nat
  memoryTypes : MemoryTypeMask
  held : Option Lifetime

/-- What a request asks of the blocks of its frame. -/
structure Demand where
  requirements : Requirements
  lifetime : Lifetime

/-- An element that fits, with those before and behind it: the smallest of those that fit, and the first
of equals. -/
structure IsBest {α : Type} (size : α → Nat) (P : α → Prop) (before : List α) (a : α)
    (after : List α) : Prop where
  fits : P a
  before : ∀ x ∈ before, P x → size a < size x
  after : ∀ x ∈ after, P x → size a ≤ size x

/-- There is one best fit only. -/
theorem IsBest.unique {α : Type} {size : α → Nat} {P : α → Prop} {before before' after after' : List α}
    {a a' : α} (h : IsBest size P before a after) (h' : IsBest size P before' a' after')
    (heq : before ++ a :: after = before' ++ a' :: after') :
    before = before' ∧ a = a' ∧ after = after' := by
  rcases List.append_eq_append_iff.1 heq with ⟨more, rfl, hmore⟩ | ⟨more, rfl, hmore⟩
  · cases more with
    | nil =>
        obtain ⟨rfl, rfl⟩ := List.cons.inj hmore
        exact ⟨(List.append_nil before).symm, rfl, rfl⟩
    | cons x more =>
        obtain ⟨rfl, rfl⟩ := List.cons.inj hmore
        have hlt := h'.before a (List.mem_append_right _ List.mem_cons_self) h.fits
        have hle := h.after a' (List.mem_append_right _ List.mem_cons_self) h'.fits
        omega
  · cases more with
    | nil =>
        obtain ⟨rfl, rfl⟩ := List.cons.inj hmore
        exact ⟨List.append_nil before', rfl, rfl⟩
    | cons x more =>
        obtain ⟨rfl, rfl⟩ := List.cons.inj hmore
        have hlt := h.before a' (List.mem_append_right _ List.mem_cons_self) h'.fits
        have hle := h'.after a (List.mem_append_right _ List.mem_cons_self) h.fits
        omega

namespace Bay

/-- Holds if the bay offers what is required. -/
def suits (b : Bay) (r : Requirements) : Bool :=
  r.size ≤ b.size && b.alignment % max r.alignment 1 = 0 && r.memoryTypes.contains b.memoryTypes

/-- A bay that a demand may get: nobody holds it, or memory is shared and whoever holds it ends before
the demand begins. -/
def IsFreeFor (share : Bool) (demand : Demand) (b : Bay) : Prop :=
  ∀ lifetime, b.held = some lifetime → share = true ∧ lifetime.last < demand.lifetime.first

/-- A bay that a demand may get, and that suits it. -/
def Fits (share : Bool) (demand : Demand) (b : Bay) : Prop :=
  b.IsFreeFor share demand ∧ b.suits demand.requirements = true

/-- What becomes of a bay when those that have ended leave. -/
def released (share : Bool) (position : Nat) (b : Bay) : Bay :=
  { b with held := b.held.filter fun lifetime => !(share && decide (lifetime.last < position)) }

/-- The bay when nobody holds it. -/
def vacated (b : Bay) : Bay := { b with held := none }

/-- The bay when it is held for a lifetime. -/
def heldFor (b : Bay) (lifetime : Lifetime) : Bay := { b with held := some lifetime }

/-- The bay that is added for a demand. -/
def ofDemand (demand : Demand) : Bay :=
  ⟨demand.requirements.size, max demand.requirements.alignment 1, demand.requirements.memoryTypes,
    some demand.lifetime⟩

variable {share : Bool} {demand : Demand} {b : Bay} {bays bays' final : List Bay}
  {demands : List Demand}

@[simp] theorem suits_vacated (b : Bay) (r : Requirements) : b.vacated.suits r = b.suits r := rfl

@[simp] theorem vacated_released (share : Bool) (position : Nat) (b : Bay) :
    (b.released share position).vacated = b.vacated := rfl

@[simp] theorem vacated_vacated (b : Bay) : b.vacated.vacated = b.vacated := rfl

@[simp] theorem released_vacated (share : Bool) (position : Nat) (b : Bay) :
    b.vacated.released share position = b.vacated := rfl

@[simp] theorem vacated_heldFor (b : Bay) (lifetime : Lifetime) :
    (b.heldFor lifetime).vacated = b.vacated := rfl

theorem isFreeFor_vacated (share : Bool) (demand : Demand) (b : Bay) :
    b.vacated.IsFreeFor share demand :=
  fun _ hheld => by cases hheld

/-- What is added for a demand suits it. -/
theorem suits_ofDemand (demand : Demand) : (ofDemand demand).suits demand.requirements = true := by
  simp [suits, ofDemand, Mask.contains_refl]

theorem size_le_of_suits {r : Requirements} (h : b.suits r = true) : r.size ≤ b.size := by
  simp only [suits, Bool.and_eq_true, decide_eq_true_eq] at h
  exact h.1.1

/-! ## One demand after another -/

/-- A demand gets the best of the bays that fit, and one is added if there is none. -/
inductive Serves (share : Bool) (demand : Demand) : List Bay → List Bay → Prop
  | reused {before after : List Bay} {b : Bay}
      (hbest : IsBest Bay.size (Fits share demand) before b after) :
      Serves share demand (before ++ b :: after)
        (before.map (released share demand.lifetime.first) ++
          b.heldFor demand.lifetime :: after.map (released share demand.lifetime.first))
  | added {bays : List Bay} (hnone : ∀ b ∈ bays, ¬ Fits share demand b) :
      Serves share demand bays
        (bays.map (released share demand.lifetime.first) ++ [ofDemand demand])

/-- What one demand gets is determined by the bays. -/
theorem Serves.unique (h : Serves share demand bays bays') {other : List Bay}
    (h' : Serves share demand bays other) : bays' = other := by
  cases h with
  | @reused before after b hbest =>
      generalize hsame : before ++ b :: after = same at h'
      cases h' with
      | reused hbest' =>
          obtain ⟨rfl, rfl, rfl⟩ := hbest.unique hbest' hsame
          rfl
      | added hnone =>
          subst hsame
          exact absurd hbest.fits (hnone b (List.mem_append_right _ List.mem_cons_self))
  | added hnone =>
      cases h' with
      | reused hbest =>
          exact absurd hbest.fits (hnone _ (List.mem_append_right _ List.mem_cons_self))
      | added => rfl

/-- Bays are added at the end, and stay what they are. -/
theorem Serves.shapes (h : Serves share demand bays bays') :
    bays.map vacated <+: bays'.map vacated := by
  cases h with
  | reused => simp [Function.comp_def]
  | added => simp [Function.comp_def]

/-- Demands are served in order. -/
inductive Runs (share : Bool) : List Demand → List Bay → List Bay → Prop
  | nil (bays : List Bay) : Runs share [] bays bays
  | cons {demand : Demand} {demands : List Demand} {bays middle bays' : List Bay}
      (hserves : Serves share demand bays middle) (hruns : Runs share demands middle bays') :
      Runs share (demand :: demands) bays bays'

/-- **What the demands get is determined by the bays.** -/
theorem Runs.unique (h : Runs share demands bays bays') {other : List Bay}
    (h' : Runs share demands bays other) : bays' = other := by
  induction h with
  | nil => cases h'; rfl
  | cons hserves _ ih =>
      cases h' with
      | cons hserves' hruns' =>
          obtain rfl := hserves.unique hserves'
          exact ih hruns'

theorem Runs.shapes (h : Runs share demands bays bays') :
    bays.map vacated <+: bays'.map vacated := by
  induction h with
  | nil bays => exact List.prefix_rfl
  | cons hserves _ ih => exact hserves.shapes.trans ih

/-! ## The same demands again -/

/-- The demands are served and end with some bays, and no demand gets a bay that is larger than one that
suits it and is added afterwards. -/
inductive Thrifty (share : Bool) (final : List Bay) : List Demand → List Bay → Prop
  | nil : Thrifty share final [] final
  | cons {demand : Demand} {demands : List Demand} {bays middle : List Bay}
      (hserves : Serves share demand bays middle)
      (hthrifty : ∀ before b after, bays = before ++ b :: after →
        IsBest Bay.size (Fits share demand) before b after →
          ∀ x ∈ final.drop bays.length, x.suits demand.requirements = true → b.size ≤ x.size)
      (hrest : Thrifty share final demands middle) : Thrifty share final (demand :: demands) bays

theorem Thrifty.runs (h : Thrifty share final demands bays) : Runs share demands bays final := by
  induction h with
  | nil => exact .nil final
  | cons hserves _ _ ih => exact .cons hserves ih

/-- The bays that are added afterwards, when nobody holds them. -/
def laterThan (final bays : List Bay) : List Bay := (final.drop bays.length).map vacated

theorem released_laterThan (share : Bool) (position : Nat) (final bays : List Bay) :
    (laterThan final bays).map (released share position) = laterThan final bays := by
  simp [laterThan, Function.comp_def]

/-- A bay that is added is the first of those that are added afterwards. -/
theorem laterThan_eq_cons (h : Runs share demands (bays ++ [b]) final) :
    laterThan final bays = b.vacated :: laterThan final (bays ++ [b]) := by
  obtain ⟨later, hlater⟩ := h.shapes
  have hbehind : laterThan final (bays ++ [b]) = later := by
    rw [laterThan, List.map_drop, ← hlater]
    exact List.drop_left' (List.length_map _)
  rw [hbehind, laterThan, List.map_drop, ← hlater, List.map_append, List.append_assoc]
  exact List.drop_left' (List.length_map _)

/-- **Served again from the bays of the first round, each demand gets the same bay.** -/
theorem Thrifty.replay (h : Thrifty share final demands bays) :
    Runs share demands (bays ++ laterThan final bays) final := by
  induction h with
  | nil =>
      have hnothing : laterThan final final = [] := by simp [laterThan]
      rw [hnothing, List.append_nil]
      exact .nil final
  | @cons demand demands bays middle hserves hthrifty hrest ih =>
      refine .cons ?_ ih
      cases hserves with
      | @reused before after b hbest =>
          have hlength : laterThan final (before ++ b :: after) =
              laterThan final (before.map (released share demand.lifetime.first) ++
                b.heldFor demand.lifetime :: after.map (released share demand.lifetime.first)) := by
            simp [laterThan]
          have hagain : IsBest Bay.size (Fits share demand) before b
              (after ++ laterThan final (before ++ b :: after)) := by
            refine ⟨hbest.fits, hbest.before, fun x hx hfits => ?_⟩
            rcases List.mem_append.1 hx with hx | hx
            · exact hbest.after x hx hfits
            · obtain ⟨later, hlater, rfl⟩ := List.mem_map.1 hx
              exact hthrifty before b after rfl hbest later hlater hfits.2
          have hserved := Serves.reused hagain
          rw [List.map_append, released_laterThan] at hserved
          rw [← hlength]
          simpa using hserved
      | added hnone =>
          -- The bay that was added for the demand is there, and smaller than all others that suit it.
          have hfirst := laterThan_eq_cons hrest.runs
          have hbays : laterThan final bays =
              laterThan final (bays.map (released share demand.lifetime.first)) := by
            simp [laterThan]
          rw [hbays, hfirst]
          have hagain : IsBest Bay.size (Fits share demand) bays (ofDemand demand).vacated
              (laterThan final
                (bays.map (released share demand.lifetime.first) ++ [ofDemand demand])) := by
            refine ⟨⟨isFreeFor_vacated share demand _, suits_ofDemand demand⟩,
              fun x hx hfits => absurd hfits (hnone x hx), fun x _ hfits => ?_⟩
            exact size_le_of_suits hfits.2
          have hserved := Serves.reused hagain
          rw [released_laterThan] at hserved
          simpa [heldFor, vacated, ofDemand] using hserved

/-- **After a thrifty round nothing changes any more**: served again from the bays that it has left, the
demands leave the same bays. -/
theorem Thrifty.stable (h : Thrifty share final demands bays) (hvacant : bays.map vacated = bays) :
    Runs share demands (final.map vacated) final := by
  obtain ⟨later, hlater⟩ := h.runs.shapes
  have hstart : bays ++ laterThan final bays = final.map vacated := by
    rw [laterThan, List.map_drop, ← hlater, hvacant]
    simp
  rw [← hstart]
  exact h.replay

/-! ## How often bays are added -/

/-- How many bays suit a demand. -/
def suiting (demand : Demand) (bays : List Bay) : Nat := bays.countP fun b => b.suits demand.requirements

/-- The sum of the numbers of bays that suit the demands, where for each of them no more are counted than
it and the demands before it can hold.  There are `position` demands before the first of the list. -/
def saturation (bays : List Bay) : Nat → List Demand → Nat
  | _, [] => 0
  | position, demand :: rest =>
      min (position + 1) (suiting demand bays) + saturation bays (position + 1) rest

theorem two_mul_saturation_le (bays : List Bay) (position : Nat) (demands : List Demand) :
    2 * saturation bays position demands ≤ demands.length * (2 * position + demands.length + 1) := by
  induction demands generalizing position with
  | nil => simp [saturation]
  | cons demand rest ih =>
      have hmin := Nat.min_le_left (position + 1) (suiting demand bays)
      calc 2 * saturation bays position (demand :: rest)
          = 2 * min (position + 1) (suiting demand bays) +
              2 * saturation bays (position + 1) rest := Nat.mul_add ..
        _ ≤ 2 * (position + 1) + rest.length * (2 * (position + 1) + rest.length + 1) :=
            Nat.add_le_add (Nat.mul_le_mul_left 2 hmin) (ih (position + 1))
        _ = (rest.length + 1) * (2 * position + (rest.length + 1) + 1) := by grind

theorem suiting_vacated (demand : Demand) (bays : List Bay) :
    suiting demand (bays.map vacated) = suiting demand bays := by
  rw [suiting, List.countP_map]
  rfl

theorem saturation_vacated (bays : List Bay) (position : Nat) (demands : List Demand) :
    saturation (bays.map vacated) position demands = saturation bays position demands := by
  induction demands generalizing position with
  | nil => rfl
  | cons demand rest ih => rw [saturation, saturation, suiting_vacated, ih]

theorem suiting_le (h : bays.map vacated <+: bays'.map vacated) (demand : Demand) :
    suiting demand bays ≤ suiting demand bays' := by
  rw [← suiting_vacated demand bays, ← suiting_vacated demand bays']
  exact h.sublist.countP_le

theorem saturation_le (h : bays.map vacated <+: bays'.map vacated) (position : Nat)
    (demands : List Demand) : saturation bays position demands ≤ saturation bays' position demands := by
  induction demands generalizing position with
  | nil => exact Nat.le_refl 0
  | cons demand rest ih =>
      have hhere := suiting_le h demand
      have hrest := ih (position + 1)
      simp only [saturation]
      omega

theorem saturation_append (bays : List Bay) (position : Nat) (before after : List Demand) :
    saturation bays position (before ++ after) =
      saturation bays position before + saturation bays (position + before.length) after := by
  induction before generalizing position with
  | nil => simp [saturation]
  | cons demand rest ih =>
      rw [List.cons_append, saturation, saturation, ih, List.length_cons]
      simp only [Nat.add_assoc, Nat.add_comm 1]

/-- How many bays are held. -/
def occupied (bays : List Bay) : Nat := bays.countP fun b => b.held.isSome

theorem occupied_released (share : Bool) (position : Nat) (bays : List Bay) :
    occupied (bays.map (released share position)) ≤ occupied bays := by
  rw [occupied, List.countP_map]
  refine List.countP_mono_left fun b _ hheld => ?_
  simp only [Function.comp, released] at hheld
  cases hb : b.held with
  | none => rw [hb] at hheld; cases hheld
  | some lifetime => rfl

theorem Serves.occupied_le (h : Serves share demand bays bays') : occupied bays' ≤ occupied bays + 1 := by
  cases h with
  | @reused before after b hbest =>
      have hbefore := occupied_released share demand.lifetime.first before
      have hafter := occupied_released share demand.lifetime.first after
      simp only [occupied, List.countP_append, List.countP_cons] at hbefore hafter ⊢
      split <;> omega
  | added hnone =>
      have hbays := occupied_released share demand.lifetime.first bays
      simp only [occupied, List.countP_append, List.countP_cons, List.countP_nil] at hbays ⊢
      split <;> omega

/-- A bay is added only if all that suit the demand are held. -/
theorem suiting_le_occupied (hnone : ∀ b ∈ bays, ¬ Fits share demand b) :
    suiting demand bays ≤ occupied bays := by
  refine List.countP_mono_left fun b hb hsuits => ?_
  cases hheld : b.held with
  | some lifetime => rfl
  | none =>
      refine absurd ⟨fun lifetime hlifetime => ?_, hsuits⟩ (hnone b hb)
      rw [hheld] at hlifetime
      cases hlifetime

/-- What is added makes up for one more bay that suits. -/
theorem Serves.length_add_saturation_le (h : Serves share demand bays bays') {before : List Demand}
    (after : List Demand) (hoccupied : occupied bays ≤ before.length) :
    bays'.length + saturation bays 0 (before ++ demand :: after) ≤
      bays.length + saturation bays' 0 (before ++ demand :: after) := by
  have hshapes := h.shapes
  have hbefore := saturation_le hshapes 0 before
  have hafter := saturation_le hshapes (before.length + 1) after
  have hhere := suiting_le hshapes demand
  simp only [saturation_append, saturation, Nat.zero_add]
  cases h with
  | reused hbest =>
      simp only [List.length_append, List.length_cons, List.length_map]
      omega
  | added hnone =>
      have hfull := suiting_le_occupied hnone
      have hone : suiting demand (bays.map (released share demand.lifetime.first) ++ [ofDemand demand]) =
          suiting demand bays + 1 := by
        rw [suiting, List.countP_append, List.countP_map, List.countP_singleton,
          if_pos (suits_ofDemand demand)]
        rfl
      simp only [List.length_append, List.length_map, List.length_singleton]
      omega

/-- **A round adds no more bays than it raises the saturation.** -/
theorem Runs.length_add_saturation_le (h : Runs share demands bays bays') {before : List Demand}
    (hoccupied : occupied bays ≤ before.length) :
    bays'.length + saturation bays 0 (before ++ demands) ≤
      bays.length + saturation bays' 0 (before ++ demands) := by
  induction h generalizing before with
  | nil => exact Nat.le_refl _
  | @cons demand demands bays middle bays' hserves _ ih =>
      have hstep := hserves.length_add_saturation_le demands hoccupied
      have hnext : occupied middle ≤ (before ++ [demand]).length := by
        rw [List.length_append, List.length_singleton]
        exact Nat.le_trans hserves.occupied_le (Nat.succ_le_succ hoccupied)
      have hrest := ih hnext
      rw [List.append_assoc, List.singleton_append] at hrest
      omega

/-- Bays that nobody holds. -/
theorem occupied_vacated (bays : List Bay) : occupied (bays.map vacated) = 0 := by
  rw [occupied, List.countP_map]
  exact List.countP_eq_zero.2 fun b _ hheld => by cases hheld

end Bay

end FrameGraph
