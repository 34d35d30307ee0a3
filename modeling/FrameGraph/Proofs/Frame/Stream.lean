import Mathlib.Data.List.Forall2
import Mathlib.Data.List.ReduceOption
import FrameGraph.Proofs.Frame.Execution
import FrameGraph.Proofs.Frame.Faults
import FrameGraph.Proofs.Memory.Kinds

/-!
# The commands of a frame, pass by pass

Memory may run out at any resource of a frame.  The passes that touch a missing resource are skipped,
and nothing else changes: the barriers around a skipped pass are recorded as those around any other,
but for those on the missing resources.

`ImageBarrier.Becomes` and `BufferBarrier.Becomes` say what becomes of one barrier of the plan,
`Barriers.Recorded` what is recorded at one point, and `FrameInput.Recorded` what is recorded for one
pass.

Principal statement: `Graph.Reachable.stream_execute`.
-/

set_option autoImplicit false

namespace FrameGraph

/-! ## Barriers -/

/-- A memory barrier on all of an image, from a source to a target: it waits for the stage of the
source, of whose accesses it makes the writes available, and takes the image from one layout to the
other. -/
structure ImageMemoryBarrier.Leads (m : ImageMemoryBarrier) (image : Nat) (aspect : AspectMask)
    (source target : ImageState) : Prop where
  image : m.image = image
  srcStage : m.srcStage = source.stage
  srcAccess : m.srcAccess = source.access &&& Access.writes
  dstStage : m.dstStage = target.stage
  dstAccess : m.dstAccess = target.access
  oldLayout : m.oldLayout = source.layout
  newLayout : m.newLayout = target.layout
  range : m.range = ⟨aspect, 0, remainingCount, 0, remainingCount⟩
  families : m.srcQueueFamily = queueFamilyIgnored ∧ m.dstQueueFamily = queueFamilyIgnored

/-- A memory barrier on a part of a buffer, from a source to a target. -/
structure BufferMemoryBarrier.Leads (m : BufferMemoryBarrier) (buffer offset size : Nat)
    (source target : BufferState) : Prop where
  buffer : m.buffer = buffer
  srcStage : m.srcStage = source.stage
  srcAccess : m.srcAccess = source.access &&& Access.writes
  dstStage : m.dstStage = target.stage
  dstAccess : m.dstAccess = target.access
  part : m.offset = offset ∧ m.size = size
  families : m.srcQueueFamily = queueFamilyIgnored ∧ m.dstQueueFamily = queueFamilyIgnored

theorem ImageBarrier.leads_lower (b : ImageBarrier) (image : Nat) :
    (b.lower image).Leads image b.aspect b.source b.target :=
  ⟨rfl, rfl, rfl, rfl, rfl, rfl, rfl, rfl, rfl, rfl⟩

theorem BufferBarrier.leads_lower (b : BufferBarrier) (buffer : Nat) :
    (b.lower buffer).Leads buffer b.offset b.size b.source b.target :=
  ⟨rfl, rfl, rfl, rfl, rfl, ⟨rfl, rfl⟩, rfl, rfl⟩

/-- The barrier leaves the image in its layout, and separates only reads. -/
def ImageBarrier.IsIdle (b : ImageBarrier) : Prop :=
  b.source.layout = b.target.layout ∧ b.source.isWrite = false ∧ b.target.isWrite = false

theorem ImageBarrier.isNeeded_iff {b : ImageBarrier} : b.isNeeded = true ↔ ¬ b.IsIdle := by
  simp only [isNeeded, IsIdle, Bool.or_eq_true, decide_eq_true_eq, not_and_or, Bool.not_eq_false,
    or_assoc, ne_eq]

/-- What becomes of an image barrier of the plan.  Without an image there is nothing to wait for; a
persistent image that was created in this frame has no content to keep, and one that goes on as it is
needs no barrier; an image in memory that was held before waits for who held it. -/
inductive ImageBarrier.Becomes (frame : FrameObjects) (b : ImageBarrier) :
    Option ImageMemoryBarrier → Prop
  | missing : frame.objects.get? b.resource = none → b.Becomes frame none
  | created {image view : Nat} {m : ImageMemoryBarrier} :
      frame.objects.get? b.resource = some (.image image view) →
      b.continues = true → b.resource ∈ frame.created →
      m.Leads image b.aspect ⟨b.source.stage, Access.none, .undefined⟩ b.target →
      b.Becomes frame (some m)
  | unchanged {image view : Nat} : frame.objects.get? b.resource = some (.image image view) →
      b.continues = true → b.resource ∉ frame.created → b.IsIdle → b.Becomes frame none
  | waiting {image view : Nat} {previous : ImageState} {m : ImageMemoryBarrier} :
      frame.objects.get? b.resource = some (.image image view) →
      (b.continues = true → b.resource ∉ frame.created ∧ ¬ b.IsIdle) →
      b.takesOver = true → frame.inherited.get? b.resource = some previous →
      m.Leads image b.aspect ⟨previous.stage, previous.access, .undefined⟩ b.target →
      b.Becomes frame (some m)
  | planned {image view : Nat} {m : ImageMemoryBarrier} :
      frame.objects.get? b.resource = some (.image image view) →
      (b.continues = true → b.resource ∉ frame.created ∧ ¬ b.IsIdle) →
      (b.takesOver = true → frame.inherited.get? b.resource = none) →
      m.Leads image b.aspect b.source b.target → b.Becomes frame (some m)

/-- The state from which a buffer barrier of the plan leads in a frame.  A buffer in memory that was
held before waits for who held it. -/
inductive BufferBarrier.LeadsFrom (frame : FrameObjects) (b : BufferBarrier) : BufferState → Prop
  | planned : b.takesOver = false → b.LeadsFrom frame b.source
  | waiting {previous : ImageState} : b.takesOver = true →
      frame.inherited.get? b.resource = some previous → b.LeadsFrom frame previous.toBufferState

/-- What becomes of a buffer barrier of the plan.  A buffer in memory of its own waits for nobody, and
between reads no barrier is needed. -/
inductive BufferBarrier.Becomes (frame : FrameObjects) (b : BufferBarrier) :
    Option BufferMemoryBarrier → Prop
  | missing : frame.objects.get? b.resource = none → b.Becomes frame none
  | alone {buffer : Nat} : frame.objects.get? b.resource = some (.buffer buffer) →
      b.takesOver = true → frame.inherited.get? b.resource = none → b.Becomes frame none
  | reads {buffer : Nat} {source : BufferState} :
      frame.objects.get? b.resource = some (.buffer buffer) → b.LeadsFrom frame source →
      source.isWrite = false → b.target.isWrite = false → b.Becomes frame none
  | recorded {buffer : Nat} {source : BufferState} {m : BufferMemoryBarrier} :
      frame.objects.get? b.resource = some (.buffer buffer) → b.LeadsFrom frame source →
      source.isWrite = true ∨ b.target.isWrite = true →
      m.Leads buffer b.offset b.size source b.target → b.Becomes frame (some m)

/-- A recorded barrier is one on the image that the frame resolved for the resource. -/
theorem ImageBarrier.Becomes.image {frame : FrameObjects} {b : ImageBarrier} {m : ImageMemoryBarrier}
    (h : b.Becomes frame (some m)) :
    ∃ view, frame.objects.get? b.resource = some (.image m.image view) := by
  cases h with
  | created hobject _ _ hleads => exact ⟨_, hleads.image ▸ hobject⟩
  | waiting hobject _ _ _ hleads => exact ⟨_, hleads.image ▸ hobject⟩
  | planned hobject _ _ hleads => exact ⟨_, hleads.image ▸ hobject⟩

/-- A recorded barrier is one on the buffer that the frame resolved for the resource. -/
theorem BufferBarrier.Becomes.buffer {frame : FrameObjects} {b : BufferBarrier}
    {m : BufferMemoryBarrier} (h : b.Becomes frame (some m)) :
    frame.objects.get? b.resource = some (.buffer m.buffer) := by
  cases h with
  | recorded hobject _ _ hleads => exact hleads.buffer ▸ hobject

theorem ImageBarrier.becomes_lowerIn {frame : FrameObjects} {b : ImageBarrier}
    (hkind : ∀ object, frame.objects.get? b.resource = some object → object.kind = .image) :
    b.Becomes frame (b.lowerIn frame).emitted? := by
  unfold lowerIn
  cases hobject : frame.objects.get? b.resource with
  | none => exact .missing hobject
  | some object =>
      cases object with
      | buffer buffer => cases hkind _ hobject
      | image image view =>
          simp only [Option.bind_some, DeviceObject.image?]
          split
          · next hcreated =>
              rw [Bool.and_eq_true, List.contains_iff_mem] at hcreated
              exact .created hobject hcreated.1 hcreated.2 (b.withoutContent.leads_lower image)
          · next hcreated =>
              simp only [Bool.and_eq_true, List.contains_iff_mem, not_and] at hcreated
              split
              · next hunchanged =>
                  rw [Bool.and_eq_true, Bool.not_eq_true'] at hunchanged
                  refine .unchanged hobject hunchanged.1 (hcreated hunchanged.1) ?_
                  rw [← Classical.not_not (a := b.IsIdle), ← isNeeded_iff, hunchanged.2]
                  exact Bool.false_ne_true
              · next hchanged =>
                  have hopen : b.continues = true → b.resource ∉ frame.created ∧ ¬ b.IsIdle := by
                    intro hcontinues
                    rw [← isNeeded_iff]
                    exact ⟨hcreated hcontinues, by simpa [hcontinues] using hchanged⟩
                  split
                  · next previous htakes hinherited =>
                      exact .waiting hobject hopen htakes hinherited
                        ((b.takingOver previous).leads_lower image)
                  · next hother =>
                      refine .planned hobject hopen (fun htakes => ?_) (b.leads_lower image)
                      cases hinherited : frame.inherited.get? b.resource with
                      | none => rfl
                      | some previous => exact absurd hinherited (hother previous htakes)

/-- Where a barrier leads from decides whether it is recorded. -/
theorem BufferBarrier.becomes_of_leadsFrom {frame : FrameObjects} {b : BufferBarrier}
    (settled : BufferBarrier) {buffer : Nat}
    (hobject : frame.objects.get? b.resource = some (.buffer buffer))
    (hsettled : settled = { b with source := settled.source })
    (hfrom : b.LeadsFrom frame settled.source) :
    b.Becomes frame
      (if settled.isNeeded then Lowering.emitted (settled.lower buffer) else .dropped).emitted? := by
  have hleads : (settled.lower buffer).Leads buffer b.offset b.size settled.source b.target := by
    have hlower := settled.leads_lower buffer
    rw [hsettled] at hlower ⊢
    exact hlower
  have hneeded : settled.isNeeded = (settled.source.isWrite || b.target.isWrite) := by
    rw [isNeeded, hsettled]
  rw [hneeded]
  split
  · next hwrite => exact .recorded hobject hfrom (Bool.or_eq_true_iff.1 hwrite) hleads
  · next hreads =>
      rw [Bool.or_eq_true, not_or, Bool.not_eq_true, Bool.not_eq_true] at hreads
      exact .reads hobject hfrom hreads.1 hreads.2

theorem BufferBarrier.becomes_lowerIn {frame : FrameObjects} {b : BufferBarrier}
    (hkind : ∀ object, frame.objects.get? b.resource = some object → object.kind = .buffer) :
    b.Becomes frame (b.lowerIn frame).emitted? := by
  unfold lowerIn inFrame?
  cases hobject : frame.objects.get? b.resource with
  | none => exact .missing hobject
  | some object =>
      cases object with
      | image image view => cases hkind _ hobject
      | buffer buffer =>
          cases htakes : b.takesOver with
          | false => exact becomes_of_leadsFrom b hobject rfl (.planned htakes)
          | true =>
              cases hinherited : frame.inherited.get? b.resource with
              | none => exact .alone hobject htakes hinherited
              | some previous =>
                  exact becomes_of_leadsFrom (b.takingOver previous.toBufferState) hobject
                    rfl (.waiting htakes hinherited)

/-! ## One point of a frame -/

/-- What is recorded at one point of a frame: one command with what becomes of the barriers of the
plan, or nothing if nothing becomes of any. -/
inductive Barriers.Recorded (frame : FrameObjects) (b : Barriers) : List Command → Prop
  | nothing : (∀ x ∈ b.images, x.Becomes frame none) → (∀ x ∈ b.buffers, x.Becomes frame none) →
      b.Recorded frame []
  | command {images : List (Option ImageMemoryBarrier)}
      {buffers : List (Option BufferMemoryBarrier)} :
      List.Forall₂ (ImageBarrier.Becomes frame) b.images images →
      List.Forall₂ (BufferBarrier.Becomes frame) b.buffers buffers →
      images.reduceOption ≠ [] ∨ buffers.reduceOption ≠ [] →
      b.Recorded frame [.barrier images.reduceOption buffers.reduceOption]

/-- Each barrier of a command is one on the object behind the resource of a barrier of the plan. -/
structure Barriers.NamesObjects (b : Barriers) (objects : HandleMap DeviceObject)
    (command : Command) : Prop where
  images : ∀ m ∈ command.imageBarriers, ∃ x ∈ b.images, ∃ view,
    objects.get? x.resource = some (.image m.image view)
  buffers : ∀ m ∈ command.bufferBarriers, ∃ x ∈ b.buffers,
    objects.get? x.resource = some (.buffer m.buffer)

private theorem exists_of_forall₂ {α β : Type} {R : α → Option β → Prop} {l : List α}
    {l' : List (Option β)} (h : List.Forall₂ R l l') {b : β} (hb : b ∈ l'.reduceOption) :
    ∃ a ∈ l, R a (some b) := by
  rw [List.reduceOption_mem_iff] at hb
  induction h with
  | nil => cases hb
  | cons hr _ ih =>
      rcases List.mem_cons.1 hb with rfl | hb
      · exact ⟨_, List.mem_cons_self, hr⟩
      · obtain ⟨a, ha, hr⟩ := ih hb
        exact ⟨a, List.mem_cons_of_mem _ ha, hr⟩

/-- **Every recorded barrier is one on the object that the frame resolved.** -/
theorem Barriers.Recorded.namesObjects {frame : FrameObjects} {b : Barriers}
    {commands : List Command} (h : b.Recorded frame commands) :
    ∀ command ∈ commands, b.NamesObjects frame.objects command := by
  intro command hcommand
  cases h with
  | nothing => cases hcommand
  | command himages hbuffers =>
      rw [List.mem_singleton.1 hcommand]
      refine ⟨fun m hm => ?_, fun m hm => ?_⟩
      · obtain ⟨x, hx, hbecomes⟩ := exists_of_forall₂ himages hm
        exact ⟨x, hx, hbecomes.image⟩
      · obtain ⟨x, hx, hbecomes⟩ := exists_of_forall₂ hbuffers hm
        exact ⟨x, hx, hbecomes.buffer⟩

/-- The object of a barrier, if there is one, is of the kind of the barrier. -/
def Barriers.IsKinded (frame : FrameObjects) (b : Barriers) : Prop :=
  ∀ x ∈ b.all, ∀ object, frame.objects.get? x.resource = some object → object.kind = x.kind

private theorem forall₂_map_of_forall {α β : Type} {R : α → β → Prop} {f : α → β} {l : List α}
    (h : ∀ x ∈ l, R x (f x)) : List.Forall₂ R l (l.map f) :=
  List.forall₂_map_right_iff.2 (List.forall₂_same.2 h)

theorem Barriers.recorded_recordPoint {frame : FrameObjects} {b : Barriers}
    (hkinded : b.IsKinded frame) (states : HandleMap ImageState) :
    b.Recorded frame (recordPoint frame b states).1 := by
  have himages : ∀ x ∈ b.images, x.Becomes frame (x.lowerIn frame).emitted? := fun x hx =>
    x.becomes_lowerIn (hkinded (.image x) (List.mem_append_left _ (List.mem_map_of_mem hx)))
  have hbuffers : ∀ x ∈ b.buffers, x.Becomes frame (x.lowerIn frame).emitted? := fun x hx =>
    x.becomes_lowerIn (hkinded (.buffer x) (List.mem_append_right _ (List.mem_map_of_mem hx)))
  have hreduce : ∀ {α β : Type} (f : α → Option β) (l : List α),
      l.filterMap f = (l.map f).reduceOption := by
    intro α β f l
    rw [List.reduceOption, List.filterMap_map]
    rfl
  unfold recordPoint
  dsimp only
  split
  · next hempty =>
      rw [Bool.and_eq_true, List.isEmpty_iff, List.isEmpty_iff, List.filterMap_eq_nil_iff,
        List.filterMap_eq_nil_iff] at hempty
      exact .nothing (fun x hx => hempty.1 x hx ▸ himages x hx)
        fun x hx => hempty.2 x hx ▸ hbuffers x hx
  · next hsome =>
      rw [Bool.and_eq_true, List.isEmpty_iff, List.isEmpty_iff, not_and_or] at hsome
      rw [hreduce, hreduce] at hsome ⊢
      exact .command (forall₂_map_of_forall himages) (forall₂_map_of_forall hbuffers) hsome

/-! ## One pass -/

/-- All resources that the pass touches are there in this frame. -/
def Pass.IsBacked (p : Pass) (objects : HandleMap DeviceObject) : Prop :=
  ∀ access ∈ p.accesses, (objects.get? access.resource).isSome = true

instance (p : Pass) (objects : HandleMap DeviceObject) : Decidable (p.IsBacked objects) :=
  inferInstanceAs (Decidable (∀ _ ∈ _, _))

/-- What the callback of a pass records, if it has one. -/
def Pass.commandsFor (p : Pass) (view : PassView) : List Command :=
  match p.callback with
  | none => []
  | some callback => callback view

/-- The commands of a pass itself: none if it is skipped, otherwise those of its callback, inside a
label if labels are wanted. -/
inductive Pass.Recorded (input : FrameInput) (p : Pass) : List Command → Prop
  | skipped : ¬ p.IsBacked input.frame.objects → p.Recorded input []
  | plain : p.IsBacked input.frame.objects → input.labels = false →
      p.Recorded input (p.commandsFor (input.context p))
  | labelled : p.IsBacked input.frame.objects → input.labels = true →
      p.Recorded input
        (.beginLabel p.name p.kind.labelColor :: p.commandsFor (input.context p) ++ [.endLabel])

namespace FrameInput

variable {input : FrameInput}

/-- What is recorded for a pass of the order: the barriers before it, its own commands, and the
barriers after it. -/
inductive Recorded (input : FrameInput) (pass : Nat) : List Command → Prop
  | around {before own after : List Command} :
      (aroundPass input.barriers pass).before.Recorded input.frame before →
      (input.passes.getD pass default).Recorded input own →
      (aroundPass input.barriers pass).after.Recorded input.frame after →
      input.Recorded pass (before ++ own ++ after)

theorem isEmpty_missing_iff {p : Pass} :
    (input.missing p).isEmpty = true ↔ p.IsBacked input.frame.objects := by
  have hmissing : ∀ h, ¬ (!input.isBacked h) = true ↔
      (input.frame.objects.get? h).isSome = true := by
    intro h
    rw [Bool.not_eq_true', Bool.not_eq_false]
    rfl
  rw [missing, List.isEmpty_iff, List.filter_eq_nil_iff]
  constructor
  · intro h access haccess
    exact (hmissing _).1 (h _ (List.mem_eraseDups.2 (List.mem_map_of_mem haccess)))
  · intro h resource hresource
    obtain ⟨access, haccess, rfl⟩ := List.mem_map.1 (List.mem_eraseDups.1 hresource)
    exact (hmissing _).2 (h access haccess)

theorem recorded_passCommands (input : FrameInput) (p : Pass) :
    p.Recorded input (if (input.missing p).isEmpty then input.passCommands p else []) := by
  split
  · next hempty =>
      have hbacked := isEmpty_missing_iff.1 hempty
      have hcommands : input.passCommands p =
          if input.labels then
            .beginLabel p.name p.kind.labelColor :: p.commandsFor (input.context p) ++ [.endLabel]
          else p.commandsFor (input.context p) := rfl
      rw [hcommands]
      split
      · next hlabels => exact .labelled hbacked hlabels
      · next hlabels => exact .plain hbacked (Bool.eq_false_iff.2 hlabels)
  · next hmissing => exact .skipped fun hbacked => hmissing (isEmpty_missing_iff.2 hbacked)

/-- The barriers around all passes are of the kinds of the objects of the frame. -/
def IsKinded (input : FrameInput) : Prop :=
  ∀ pass, (aroundPass input.barriers pass).before.IsKinded input.frame ∧
    (aroundPass input.barriers pass).after.IsKinded input.frame

/-- **What a step of the recording adds for a pass.** -/
theorem recorded_momentsAt (hkinded : input.IsKinded) (position pass : Nat) :
    input.Recorded pass ((input.momentsAt position pass).flatMap (Moment.commands input)) := by
  obtain ⟨hbefore, hafter⟩ := hkinded pass
  have hsplit : (input.momentsAt position pass).flatMap (Moment.commands input) =
      (recordPoint input.frame (aroundPass input.barriers pass).before .empty).1 ++
        (if (input.missing (input.passes.getD pass default)).isEmpty then
          input.passCommands (input.passes.getD pass default) else []) ++
        (recordPoint input.frame (aroundPass input.barriers pass).after .empty).1 := by
    rw [commands_recordPoint, commands_recordPoint, momentsAt, List.flatMap_cons,
      List.flatMap_append, List.append_assoc]
    congr 2
    · split
      · exact List.append_nil _
      · rfl
    · exact List.append_nil _
  rw [hsplit]
  exact .around (Barriers.recorded_recordPoint hbefore _) (recorded_passCommands input _)
    (Barriers.recorded_recordPoint hafter _)

/-- The commands of an order are those of its passes, one after another. -/
theorem exists_recorded_momentsFrom (hkinded : input.IsKinded) (position : Nat) (order : List Nat) :
    ∃ chunks : List (List Command), List.Forall₂ input.Recorded order chunks ∧
      (input.momentsFrom position order).flatMap (Moment.commands input) = chunks.flatten := by
  induction order generalizing position with
  | nil => exact ⟨[], .nil, rfl⟩
  | cons pass rest ih =>
      obtain ⟨chunks, hrecorded, hflatten⟩ := ih (position + 1)
      refine ⟨_ :: chunks, .cons (recorded_momentsAt hkinded position pass) hrecorded, ?_⟩
      rw [momentsFrom, List.flatMap_append, hflatten, List.flatten_cons]

/-- The callbacks of the passes of an order that have everything they touch, with what they see. -/
def ranAlong (input : FrameInput) (order : List Nat) : List Invocation :=
  (order.filter fun pass =>
    decide ((input.passes.getD pass default).IsBacked input.frame.objects) &&
      (input.passes.getD pass default).callback.isSome).map
    fun pass => ⟨pass, input.context (input.passes.getD pass default)⟩

theorem invocations_momentsAt (input : FrameInput) (position pass : Nat) :
    (input.momentsAt position pass).flatMap (Moment.invocations input) =
      if (input.missing (input.passes.getD pass default)).isEmpty then
        input.invocations pass (input.passes.getD pass default)
      else [] := by
  rw [momentsAt, List.flatMap_cons, List.flatMap_append]
  split
  · exact (List.append_nil _).trans (List.append_nil _)
  · rfl

theorem invocations_momentsFrom (input : FrameInput) (position : Nat) (order : List Nat) :
    (input.momentsFrom position order).flatMap (Moment.invocations input) =
      input.ranAlong order := by
  induction order generalizing position with
  | nil => rfl
  | cons pass rest ih =>
      have hdecide : decide ((input.passes.getD pass default).IsBacked input.frame.objects) =
          (input.missing (input.passes.getD pass default)).isEmpty := by
        rw [Bool.eq_iff_iff, decide_eq_true_eq, isEmpty_missing_iff]
      rw [momentsFrom, List.flatMap_append, ih, invocations_momentsAt, ranAlong, ranAlong,
        List.filter_cons, hdecide, FrameInput.invocations]
      cases (input.missing (input.passes.getD pass default)).isEmpty with
      | false => rfl
      | true =>
          cases (input.passes.getD pass default).callback.isSome with
          | false => rfl
          | true => rfl

end FrameInput

/-! ## Every frame -/

namespace Graph

variable {g : Graph}

/-- The barriers of the plan are of the kinds of the objects that a frame finds. -/
theorem isKinded_frame (hg : g.Reachable) {index : Nat} {r : Resolution}
    (hok : (resolveFrame index g.upToDate.registry g.upToDate.plan.table
      (g.resolution index)).result = .ok r) : (g.frame index r).IsKinded := by
  obtain ⟨hsound, hcompiled⟩ := hg.isSound.upToDate
  obtain ⟨registry, -, hsame, hplan⟩ := hsound.planned hcompiled
  have hbarriers : (g.frame index r).barriers =
      compiledAlong g.upToDate.plan.order g.upToDate.passes registry := hplan.barriers
  have hkind : ∀ (pass : Nat) (x : ResourceBarrier),
      (x ∈ (aroundPass (g.frame index r).barriers pass).before.all ∨
        x ∈ (aroundPass (g.frame index r).barriers pass).after.all) →
      ∀ object, r.frame.objects.get? x.resource = some object → object.kind = x.kind := by
    intro pass x hx object hobject
    rw [hbarriers] at hx
    obtain ⟨planned, hplanned, hx⟩ := kind_of_mem_compiled hplan.nodup hx
    -- The resource of the plan is still there, with the same outline.
    obtain ⟨resource, hresource, houtline⟩ := hsame.symm.exists_live hplanned
    rw [hg.kind_object hok hresource hobject, hx, Resource.kind_of_outline houtline]
  exact fun pass => ⟨fun x hx => hkind pass x (.inl hx), fun x hx => hkind pass x (.inr hx)⟩

/-- **A frame goes on without what the device refuses.**  Refused requests do not stop it.  The
callbacks that run are those of the scheduled passes that find everything they touch, each once and in
the order of the plan; and the commands are those of the passes one after another, for each the
barriers before it, its own commands unless it is skipped, and the barriers after it.  Each of these
barriers is one on the object that this frame resolved for the resource of a barrier of the plan. -/
theorem Reachable.stream_execute (hg : g.Reachable) {index : Nat}
    (hindex : index < g.settings.framesInFlight) :
    (∀ fault, (g.execute index).result = .error fault → g.device.policy.MayStop fault) ∧
      ∀ ran g', (g.execute index).result = .ok (ran, g') →
        ∃ r, (resolveFrame index g.upToDate.registry g.upToDate.plan.table
            (g.resolution index)).result = .ok r ∧
          g'.objects = r.frame.objects ∧ g'.plan = g.upToDate.plan ∧ g'.plan.order.Nodup ∧
          let input := g'.frameInput index r.frame
          ran = input.ranAlong g'.plan.order ∧
            ∃ chunks : List (List Command),
              g'.device.commands = g.device.commands ++ chunks.flatten ∧
                List.Forall₂ input.Recorded g'.plan.order chunks ∧
                ∀ (barriers : Barriers) commands, barriers.Recorded r.frame commands →
                  ∀ command ∈ commands, barriers.NamesObjects g'.objects command := by
  refine ⟨fun fault hrun => mayStop_of_execute hrun, fun ran g' hrun => ?_⟩
  obtain ⟨r, hok, rfl, rfl⟩ := (execute_eq_ok_iff hindex).1 hrun
  obtain ⟨hsound, hcompiled⟩ := hg.isSound.upToDate
  obtain ⟨registry, -, -, hplan⟩ := hsound.planned hcompiled
  obtain ⟨hcommands, hran⟩ :=
    (g.frame index r).stream_record g.upToDate.states g.upToDate.plan.order
  obtain ⟨chunks, hrecorded, hflatten⟩ :=
    FrameInput.exists_recorded_momentsFrom (isKinded_frame hg hok) 0 g.upToDate.plan.order
  refine ⟨r, hok, rfl, rfl, hplan.nodup, ?_, chunks, ?_, hrecorded,
    fun barriers commands hpoint => hpoint.namesObjects⟩
  · exact hran.trans (FrameInput.invocations_momentsFrom _ 0 _)
  · show r.device.commands ++ (g.frameRun index r).commands = _
    rw [(settles_frame hg.holdings hok).commands]
    exact congrArg (g.device.commands ++ ·) (hcommands.trans hflatten)

/-- The screen is cleared; then what is painted on a canvas is shown on it. -/
def painting : List Action :=
  [.register screenImport,
    .register (.createImage "canvas" (.flat 4 4 .b8g8r8a8Srgb ImageUsage.colorAttachment) false),
    .addPass ⟨"clear", .graphics .azure, [.write "screen" .colorAttachment], some fun _ => []⟩,
    .addPass ⟨"paint", .graphics .azure, [.write "canvas" .colorAttachment], some fun _ => []⟩,
    .addPass ⟨"show", .graphics .azure,
      [.read "canvas" .shaderRead, .write "screen" .colorAttachment], some fun _ => []⟩]

/-- Without memory for the canvas only the screen is cleared; but the screen still goes through the
barriers around the pass that would have shown the canvas. -/
theorem stream_execute_painting :
    ∃ g ran g', (Graph.empty { policy := { budget := some 0 } } {}).performAll painting = .ok g ∧
      (g.execute 0).result = .ok (ran, g') ∧ ran.map (·.pass) = [0] ∧
      ∃ (input : FrameInput) (chunks : List (List Command)),
        ran = input.ranAlong [0, 1, 2] ∧ List.Forall₂ input.Recorded [0, 1, 2] chunks ∧
          chunks.flatten.map (fun command => command.imageBarriers.map (·.newLayout)) =
            [[.colorAttachment], [], [], [.colorAttachment], [.presentSrc]] := by
  have hrun : succeeds ((Graph.empty { policy := { budget := some 0 } } {}).performAll painting)
      (fun g => succeeds (g.execute 0).result fun frame => decide (
        0 < g.settings.framesInFlight ∧ g.device.commands = [] ∧ frame.1.map (·.pass) = [0] ∧
          frame.2.plan.order = [0, 1, 2] ∧
          frame.2.device.commands.map (fun command => command.imageBarriers.map (·.newLayout)) =
            [[.colorAttachment], [], [], [.colorAttachment], [.presentSrc]])) = true := by
    decide +kernel
  obtain ⟨g, hperformed, hframe⟩ := exists_of_succeeds hrun
  obtain ⟨⟨ran, g'⟩, hexecuted, hcheck⟩ := exists_of_succeeds hframe
  obtain ⟨hindex, hnothing, hpasses, horder, hlayouts⟩ := of_decide_eq_true hcheck
  have hg := reachable_of_performAll (.start _ _) hperformed
  obtain ⟨r, -, -, -, -, hran, chunks, hcommands, hrecorded, -⟩ :=
    (hg.stream_execute hindex).2 ran g' hexecuted
  rw [horder] at hran hrecorded
  rw [hcommands, hnothing, List.nil_append] at hlayouts
  exact ⟨g, ran, g', hperformed, hexecuted, hpasses, g'.frameInput 0 r.frame, chunks, hran,
    hrecorded, hlayouts⟩

end Graph

end FrameGraph
