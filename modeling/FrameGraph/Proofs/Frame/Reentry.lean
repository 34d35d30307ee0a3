import FrameGraph.Proofs.Frame.Marks

/-!
# A persistent image from frame to frame

The image behind a persistent resource outlives the plan.  A frame takes it to be in the layout of the
last use in its own plan, and it leaves it there.  So, whatever happens in between, the first barrier of
a frame on such an image starts from no content at all, or else from where the last barrier on the image
ended, as long as the plans of both frames leave the image in the same layout.

Principal statements: `Graph.Traced.frame`, what one frame adds, and
`Graph.History.reenters_as_left`.
-/

set_option autoImplicit false

namespace FrameGraph

/-- A frame as it was recorded: from what, and along which order. -/
structure RecordedFrame where
  input : FrameInput
  order : List Nat

namespace RecordedFrame

def commands (f : RecordedFrame) : List Command :=
  (f.input.momentsFrom 0 f.order).flatMap (Moment.commands f.input)

def marks (f : RecordedFrame) : List Mark := f.input.marks f.order

end RecordedFrame

/-- After some marks, the next leads away from nothing, or from where the last mark on the same image
ended; the latter is granted if the plans of both frames leave the image in the same layout, unless
somebody else handed in the image. -/
def Mark.Continues (past : List Mark) (m : Mark) : Prop :=
  m.barrier.oldLayout = .undefined ∨
    ∃ previous, Mark.lastOn m.barrier.image past = some previous ∧
      (previous.isImported = false → previous.left = m.left →
        m.barrier.oldLayout = previous.barrier.newLayout)

namespace Graph

variable {g g' : Graph}

/-! ## What was recorded so far -/

/-- The frames that an action records. -/
def framesOf (g : Graph) : Action → List RecordedFrame
  | .execute index =>
      if index < g.settings.framesInFlight then
        match (resolveFrame index g.upToDate.registry g.upToDate.plan.table
          (g.resolution index)).result with
        | .ok r => [⟨g.frame index r, g.upToDate.plan.order⟩]
        | .error _ => []
      else []
  | _ => []

/-- The commands that an action takes from the device. -/
def commandsTaken (g : Graph) : Action → List Command
  | .takeCommands => g.device.commands
  | _ => []

/-- The graphs that arise on a fresh device, with the commands that were taken from the device and the
frames that were recorded, in order. -/
inductive History : List Command → List RecordedFrame → Graph → Prop
  | start (policy : DevicePolicy) (settings : Settings) :
      History [] [] (.empty { policy } settings)
  | perform {taken : List Command} {frames : List RecordedFrame} {g g' : Graph} (action : Action) :
      History taken frames g → g.perform action = .ok g' →
        History (taken ++ g.commandsTaken action) (frames ++ g.framesOf action) g'

variable {taken : List Command} {frames : List RecordedFrame}

theorem History.reachable (h : History taken frames g) : g.Reachable := by
  induction h with
  | start policy settings => exact .start policy settings
  | perform action _ hstep ih => exact .perform action ih hstep

theorem framesOf_execute {index : Nat} {r : Resolution} (hindex : index < g.settings.framesInFlight)
    (hok : (resolveFrame index g.upToDate.registry g.upToDate.plan.table
      (g.resolution index)).result = .ok r) :
    g.framesOf (.execute index) = [⟨g.frame index r, g.upToDate.plan.order⟩] := by
  simp only [framesOf, if_pos hindex, hok]

theorem framesOf_out_of_range {index : Nat} (hindex : g.settings.framesInFlight ≤ index) :
    g.framesOf (.execute index) = [] := by
  simp only [framesOf, if_neg (Nat.not_lt.2 hindex)]

/-- Disposing of everything records nothing. -/
theorem commands_dispose (g : Graph) : g.dispose.device.commands = g.device.commands := by
  have hfree : ∀ (blocks : List MemoryBlock) (d : Device),
      (blocks.foldl (fun device block => device.free block.memory) d).commands = d.commands := by
    intro blocks
    induction blocks with
    | nil => intro d; rfl
    | cons block rest ih => intro d; rw [List.foldl_cons, ih, Device.commands_free]
  show (List.foldl _ (g.pool.blocks.foldl _ (g.pool.live.foldl _ g.device)) _).commands = _
  rw [Holdings.commands_release, hfree, Holdings.foldl_destroy_object]
  exact (Device.destroyAll _ g.device).2.2.1

/-- An action records the commands of its frames. -/
theorem commands_perform (hg : g.Reachable) {action : Action} (hstep : g.perform action = .ok g') :
    g.commandsTaken action ++ g'.device.commands =
      g.device.commands ++ (g.framesOf action).flatMap RecordedFrame.commands := by
  have hquiet : ∀ d : Device, d.commands = g.device.commands →
      [] ++ d.commands = g.device.commands ++ [].flatMap RecordedFrame.commands := by
    intro d hd
    rw [hd, List.flatMap_nil, List.nil_append, List.append_nil]
  cases action with
  | register op => cases hstep; exact hquiet _ rfl
  | addPass d => cases hstep; exact hquiet _ rfl
  | clear => cases hstep; exact hquiet _ rfl
  | analyse => cases hstep; exact hquiet _ rfl
  | compile => cases hstep; exact hquiet _ (settles_compile hg.holdings 0).commands
  | execute index =>
      obtain ⟨hindex, rfl⟩ | ⟨hindex, r, hok, rfl⟩ := perform_execute_cases hstep
      · rw [framesOf_out_of_range hindex]
        exact hquiet _ rfl
      · rw [framesOf_execute hindex hok, List.flatMap_singleton]
        exact (records_afterFrame hg hok).commands
  | dispose => cases hstep; exact hquiet _ (commands_dispose g)
  | takeCommands => cases hstep; rfl

/-- **The frames of a history are all that was ever recorded.** -/
theorem History.commands_eq (h : History taken frames g) :
    taken ++ g.device.commands = frames.flatMap RecordedFrame.commands := by
  induction h with
  | start policy settings => rfl
  | perform action hpast hstep ih =>
      rw [List.flatMap_append, ← ih, List.append_assoc, List.append_assoc,
        commands_perform hpast.reachable hstep]

/-! ## One frame after another -/

/-- What is known about the marks so far.  A mark on an image continues the marks before it, the last one
on an image ends where the plan of its frame leaves the image, and no backing is without a mark. -/
structure Traced (marks : List Mark) (g : Graph) : Prop where
  continues : ∀ before m after, marks = before ++ m :: after → m.isPersistent = true →
    m.Continues before
  settled : ∀ image m, Mark.lastOn image marks = some m → m.isImported = false →
    m.barrier.newLayout = m.left
  begun : ∀ e ∈ g.backings.entries, ∀ image, e.2.object.image? = some image →
    ∃ m ∈ marks, m.barrier.image = image

/-- Without a frame there are no new marks, and no new backings. -/
theorem Traced.quiet {marks : List Mark} (ht : Traced marks g)
    (hbackings : ∀ e ∈ g'.backings.entries, e ∈ g.backings.entries) : Traced marks g' :=
  ⟨ht.continues, ht.settled, fun e he => ht.begun e (hbackings e he)⟩

section Frame

variable {marks : List Mark} {index : Nat} {r : Resolution} (hg : g.Reachable)
  (hok : (resolveFrame index g.upToDate.registry g.upToDate.plan.table
    (g.resolution index)).result = .ok r)

include hg hok

/-- **A mark of the next frame continues the marks before it.** -/
theorem Traced.continues_frame (ht : Traced marks g) {before after : List Mark} {m : Mark}
    (hsplit : g.frameMarks index r = before ++ m :: after) (hpersistent : m.isPersistent = true) :
    m.Continues (marks ++ before) := by
  have hmem : m ∈ g.frameMarks index r := hsplit ▸ List.mem_append_right _ List.mem_cons_self
  obtain ⟨resource, timeline, hm⟩ := exists_isMark hg hok hmem
  rw [hm.isPersistent_eq] at hpersistent
  rw [Mark.Continues, Mark.lastOn_append]
  cases hlast : Mark.lastOn m.barrier.image before with
  | some previous =>
      refine .inr ⟨previous, rfl, fun hown _ => ?_⟩
      exact oldLayout_of_last hg hok hm hpersistent hsplit hlast hown
  | none =>
      -- The image enters the frame.
      have hentry := oldLayout_of_first hg hok hm hsplit hlast
      rw [entryLayout_of_persistent g r hpersistent] at hentry
      split at hentry
      · next hkept =>
          obtain ⟨object, hobject, himage⟩ := Option.bind_eq_some_iff.1 hm.image
          obtain ⟨backing, hbacking, -, rfl⟩ := exists_backing hg hok hm.live hpersistent hobject
          obtain ⟨x, hx, hsame⟩ :=
            ht.begun _ (Backings.mem_of_get? (hkept.symm.trans hbacking)) _ himage
          obtain ⟨previous, hprevious⟩ := Mark.exists_lastOn hx hsame
          refine .inr ⟨previous, hprevious, fun hown hleft => ?_⟩
          rw [hentry, ht.settled _ previous hprevious hown, hleft, hm.left_eq]
      · exact .inl hentry

/-- **One frame.** -/
theorem Traced.frame (ht : Traced marks g) :
    Traced (marks ++ g.frameMarks index r) (g.afterFrame index r) := by
  refine ⟨fun before m after hsplit hpersistent => ?_, fun image m hlast hown => ?_,
    fun e he image himage => ?_⟩
  · rcases List.append_eq_append_iff.1 hsplit with ⟨rest, hbefore, hframe⟩ | ⟨rest, hmarks, hrest⟩
    · rw [hbefore]
      exact ht.continues_frame hg hok hframe hpersistent
    · cases rest with
      | nil =>
          rw [List.append_nil] at hmarks
          have hframe : g.frameMarks index r = [] ++ m :: after := hrest.symm
          have hfirst := ht.continues_frame hg hok hframe hpersistent
          rw [List.append_nil, hmarks] at hfirst
          exact hfirst
      | cons x rest =>
          obtain ⟨rfl, -⟩ := List.cons.inj hrest
          exact ht.continues before m rest hmarks hpersistent
  · rw [Mark.lastOn_append] at hlast
    cases hframe : Mark.lastOn image (g.frameMarks index r) with
    | none =>
        rw [hframe, Option.none_or] at hlast
        exact ht.settled image m hlast hown
    | some last =>
        rw [hframe, Option.some_or] at hlast
        obtain rfl : last = m := Option.some.inj hlast
        obtain ⟨hmem, rfl⟩ := Mark.of_lastOn hframe
        obtain ⟨resource, timeline, hm⟩ := exists_isMark hg hok hmem
        rw [newLayout_of_marks hg hok hm hframe, hm.left_eq,
          exitLayout_of_owned (hm.isImported_eq.symm.trans hown)]
  · rcases owned_backing hg hok he with hold | ⟨h, resource, hget, hpersistent, hused, hcreated, hobject⟩
    · obtain ⟨m, hm, hsame⟩ := ht.begun e hold image himage
      exact ⟨m, List.mem_append_left _ hm, hsame⟩
    · obtain ⟨m, hm, hsame⟩ :=
        exists_mark_of_created hg hok hget hpersistent hused hcreated hobject himage
      exact ⟨m, List.mem_append_right _ hm, hsame⟩

end Frame

/-- **One action.** -/
theorem Traced.perform (hg : g.Reachable) {marks : List Mark} (ht : Traced marks g) {action : Action}
    (hstep : g.perform action = .ok g') :
    Traced (marks ++ (g.framesOf action).flatMap RecordedFrame.marks) g' := by
  have hquiet : (∀ e ∈ g'.backings.entries, e ∈ g.backings.entries) →
      Traced (marks ++ [].flatMap RecordedFrame.marks) g' := by
    intro hbackings
    rw [List.flatMap_nil, List.append_nil]
    exact ht.quiet hbackings
  cases action with
  | register op => cases hstep; exact hquiet fun _ he => he
  | addPass d => cases hstep; exact hquiet fun _ he => he
  | clear => cases hstep; exact hquiet fun _ he => he
  | analyse => cases hstep; exact hquiet fun _ he => he
  | compile => cases hstep; exact hquiet fun _ he => mem_backings_compile he
  | execute index =>
      obtain ⟨hindex, rfl⟩ | ⟨hindex, r, hok, rfl⟩ := perform_execute_cases hstep
      · rw [framesOf_out_of_range hindex]
        exact hquiet fun _ he => he
      · rw [framesOf_execute hindex hok, List.flatMap_singleton]
        exact ht.frame hg hok
  | dispose =>
      cases hstep
      apply hquiet
      intro e he
      cases he
  | takeCommands => cases hstep; exact hquiet fun _ he => he

theorem History.traced (h : History taken frames g) :
    Traced (frames.flatMap RecordedFrame.marks) g := by
  induction h with
  | start policy settings =>
      refine ⟨fun before m after hsplit => ?_, fun image m hlast => (by cases hlast),
        fun e he => (by cases he)⟩
      simp at hsplit
  | perform action hpast hstep ih =>
      rw [List.flatMap_append]
      exact ih.perform hpast.reachable hstep

/-- **A persistent image enters a frame in the layout in which it was left**, if the plan of the frame
leaves it in the same layout as that of the frame before.  The frames of a history are all that was ever
recorded; in them, each barrier for a persistent resource is on the image behind it, and it leads away
from no content at all, or from where the last barrier on the same image ended. -/
theorem History.reenters_as_left (h : History taken frames g) :
    taken ++ g.device.commands = frames.flatMap RecordedFrame.commands ∧
      ∀ before m after, frames.flatMap RecordedFrame.marks = before ++ m :: after →
        m.isPersistent = true →
          (m.input.frame.objects.get? m.resource).bind DeviceObject.image? = some m.barrier.image ∧
          (m.barrier.oldLayout = .undefined ∨
            ∃ previous, Mark.lastOn m.barrier.image before = some previous ∧
              (previous.isImported = false → previous.left = m.left →
                m.barrier.oldLayout = previous.barrier.newLayout)) := by
  refine ⟨h.commands_eq, fun before m after hsplit hpersistent =>
    ⟨?_, h.traced.continues before m after hsplit hpersistent⟩⟩
  have hmem : m ∈ frames.flatMap RecordedFrame.marks :=
    hsplit ▸ List.mem_append_right _ List.mem_cons_self
  obtain ⟨frame, -, hmark⟩ := List.mem_flatMap.1 hmem
  exact FrameInput.image_of_mem_marks hmark

/-- Performs an action, and keeps the frames that it records. -/
def recordStep (past : List RecordedFrame × Graph) (action : Action) :
    Except Fault (List RecordedFrame × Graph) := do
  let g ← past.2.perform action
  return (past.1 ++ past.2.framesOf action, g)

theorem exists_history_of_foldlM {actions : List Action} {start last : List RecordedFrame × Graph}
    (hstart : ∃ taken, History taken start.1 start.2)
    (hrun : actions.foldlM recordStep start = .ok last) : ∃ taken, History taken last.1 last.2 := by
  induction actions generalizing start with
  | nil =>
      cases hrun
      exact hstart
  | cons action rest ih =>
      obtain ⟨taken, hpast⟩ := hstart
      rw [List.foldlM_cons] at hrun
      obtain ⟨_, hrecord, hrest⟩ := bind_eq_ok_iff.1 hrun
      obtain ⟨middle, hstep, hnext⟩ := bind_eq_ok_iff.1 hrecord
      cases hnext
      exact ih ⟨_, hpast.perform action hstep⟩ hrest

/-- Performs actions on a fresh graph; holds if all of it succeeds and the marks pass a check. -/
def checkMarks (actions : List Action) (check : List Mark → Bool) : Bool :=
  match actions.foldlM recordStep ([], .empty {} {}) with
  | .error _ => false
  | .ok (frames, _) => check (frames.flatMap RecordedFrame.marks)

theorem exists_of_checkMarks {actions : List Action} {check : List Mark → Bool}
    (h : checkMarks actions check = true) :
    ∃ taken frames g, History taken frames g ∧ check (frames.flatMap RecordedFrame.marks) = true := by
  unfold checkMarks at h
  split at h
  · cases h
  · next frames g hrun =>
      obtain ⟨taken, hpast⟩ := exists_history_of_foldlM ⟨[], .start {} {}⟩ hrun
      exact ⟨taken, frames, g, hpast, h⟩

/-- Checks the first two marks, and those that follow. -/
def checkFirstTwo (check : Mark → Mark → List Mark → Bool) : List Mark → Bool
  | previous :: m :: rest => check previous m rest
  | _ => false

theorem exists_of_checkFirstTwo {check : Mark → Mark → List Mark → Bool} {marks : List Mark}
    (h : checkFirstTwo check marks = true) :
    ∃ previous m rest, marks = previous :: m :: rest ∧ check previous m rest = true := by
  unfold checkFirstTwo at h
  split at h
  · next previous m rest => exact ⟨previous, m, rest, rfl, h⟩
  · cases h

/-- A canvas is painted, and kept. -/
def painted : List Action :=
  [.addPass ⟨"paint", .graphics .azure,
      [.createImage "canvas" (.flat 4 4 .b8g8r8a8Srgb ImageUsage.colorAttachment) true,
        .write "canvas" .colorAttachment], none⟩,
    .register (.markOutput "canvas"),
    .execute 0]

/-- Another pass copies the canvas. -/
def copied : List Action :=
  [.register (.importBuffer "print" 7 {} .undefined .undefined),
    .register (.markOutput "print"),
    .addPass ⟨"copy", .transfer, [.read "canvas" .transferSrc, .write "print" .transferDst], none⟩,
    .execute 1]

/-- The canvas is painted once more, with the plan as it was. -/
theorem reenters_as_left_painted :
    ∃ (taken : List Command) (frames : List RecordedFrame) (g : Graph) (previous m : Mark),
      History taken frames g ∧ frames.flatMap RecordedFrame.marks = [previous, m] ∧
        m.barrier.oldLayout = .colorAttachment ∧
        m.barrier.oldLayout = previous.barrier.newLayout := by
  have hcheck : checkMarks (painted ++ [.execute 1]) (checkFirstTwo fun previous m rest =>
      rest.isEmpty && decide (m.isPersistent = true ∧ previous.isImported = false ∧
        previous.left = m.left ∧ previous.barrier.image = m.barrier.image ∧
          m.barrier.oldLayout = .colorAttachment)) = true := by
    cbv
  obtain ⟨taken, frames, g, hpast, hmarks⟩ := exists_of_checkMarks hcheck
  obtain ⟨previous, m, rest, heq, hfacts⟩ := exists_of_checkFirstTwo hmarks
  rw [Bool.and_eq_true, List.isEmpty_iff] at hfacts
  obtain ⟨rfl, hfacts⟩ := hfacts
  obtain ⟨hpersistent, hown, hleft, himage, hold⟩ := of_decide_eq_true hfacts
  obtain ⟨-, hcontinues⟩ := hpast.reenters_as_left.2 [previous] m [] heq hpersistent
  refine ⟨taken, frames, g, previous, m, hpast, heq, hold, ?_⟩
  rcases hcontinues with hundefined | ⟨last, hlast, hsame⟩
  · rw [hundefined] at hold
    cases hold
  · obtain rfl : previous = last := by simpa [Mark.lastOn, himage] using hlast
    exact hsame hown hleft

/-- With another plan, a frame takes the image to be in a layout in which it was not left. -/
theorem not_reentered_as_left :
    ¬ ∀ (taken : List Command) (frames : List RecordedFrame) (g : Graph), History taken frames g →
      ∀ before m after, frames.flatMap RecordedFrame.marks = before ++ m :: after →
        m.isPersistent = true →
          m.barrier.oldLayout = .undefined ∨
            ∃ previous, Mark.lastOn m.barrier.image before = some previous ∧
              m.barrier.oldLayout = previous.barrier.newLayout := by
  intro hall
  have hcheck : checkMarks (painted ++ copied) (checkFirstTwo fun previous m _ =>
      decide (m.isPersistent = true ∧ previous.barrier.image = m.barrier.image ∧
        m.barrier.oldLayout = .transferSrc ∧ previous.barrier.newLayout = .colorAttachment)) =
      true := by
    cbv
  obtain ⟨taken, frames, g, hpast, hmarks⟩ := exists_of_checkMarks hcheck
  obtain ⟨previous, m, rest, heq, hfacts⟩ := exists_of_checkFirstTwo hmarks
  obtain ⟨hpersistent, himage, hold, hnew⟩ := of_decide_eq_true hfacts
  rcases hall taken frames g hpast [previous] m rest heq hpersistent with
    hundefined | ⟨last, hlast, hsame⟩
  · rw [hundefined] at hold
    cases hold
  · obtain rfl : previous = last := by simpa [Mark.lastOn, himage] using hlast
    rw [hold, hnew] at hsame
    cases hsame

end Graph

end FrameGraph
