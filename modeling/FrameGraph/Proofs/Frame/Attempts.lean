import FrameGraph.Graph.Execute

/-!
# Attempts to create a persistent resource

Each attempt to create what is behind a persistent resource is reported, whether it succeeds or fails.
Nothing else reports one: planning and recording do not, the pool does not, and a resource attempts
nothing for another name.

Principal statements: `attempts_compile`, `attempts_recordFrame`, `Resolution.attempts_addTransient`, and
`Resolution.attempts_addKept_of_ne`.
-/

set_option autoImplicit false

namespace FrameGraph

/-- The name of the persistent resource that was attempted to be created. -/
def Event.attempted? : Event → Option String
  | .persistentCreated name => some name
  | .persistentFailed name _ => some name
  | _ => none

/-- The reported attempts to create a persistent resource of that name. -/
def attempts (name : String) (events : List Event) : List Event :=
  events.filter fun e => e.attempted? = some name

variable {name : String}

theorem attempts_append (name : String) (events more : List Event) :
    attempts name (events ++ more) = attempts name events ++ attempts name more :=
  List.filter_append events more

/-- Events of other kinds are no attempts. -/
theorem attempts_eq_nil {events : List Event} (h : ∀ e ∈ events, e.attempted? = none) :
    attempts name events = [] :=
  List.filter_eq_nil_iff.2 fun e he => by rw [h e he]; simp

section Sequences

variable {α β : Type}

theorem Logged.attempts_bind {x : Logged α} {f : α → Logged β} (hx : attempts name x.events = [])
    (hf : attempts name (f x.value).events = []) : attempts name (x >>= f).events = [] := by
  rw [Logged.events_bind, attempts_append, hx, hf, List.append_nil]

theorem Outcome.attempts_bind {x : Outcome α} {f : α → Outcome β} (hx : attempts name x.events = [])
    (hf : ∀ a, x.result = .ok a → attempts name (f a).events = []) :
    attempts name (x >>= f).events = [] := by
  cases hresult : x.result with
  | error fault =>
      rw [Outcome.events_bind_of_error hresult]
      exact hx
  | ok a =>
      rw [Outcome.events_bind_of_ok hresult, attempts_append, hx, hf a hresult, List.append_nil]

theorem Outcome.attempts_foldlM {f : β → α → Outcome β} {l : List α}
    (hf : ∀ a ∈ l, ∀ b, attempts name (f b a).events = []) (b : β) :
    attempts name (l.foldlM f b).events = [] := by
  induction l generalizing b with
  | nil => rfl
  | cons a rest ih =>
      rw [List.foldlM_cons]
      exact attempts_bind (hf a List.mem_cons_self b) fun next _ =>
        ih (fun a ha => hf a (List.mem_cons_of_mem _ ha)) next

end Sequences

/-! ## Planning -/

theorem attempts_planResource (passes : List Pass) (h : Handle) (resource : Resource)
    (timeline : Timeline) : attempts name (planResource passes h resource timeline).events = [] := by
  refine attempts_eq_nil fun e he => ?_
  unfold planResource at he
  split at he
  · simp only [planEvents, List.mem_append, List.mem_map] at he
    obtain (he | ⟨step, -, rfl⟩) | ⟨t, -, rfl⟩ := he
    · split at he
      · rw [List.mem_singleton.1 he]
        rfl
      · cases he
    · rfl
    · rfl
  · cases he

theorem attempts_placeBarriers (passes : List Pass) (registry : Registry)
    (entries : List (Handle × Timeline)) :
    attempts name (placeBarriers passes registry entries).events = [] := by
  induction entries with
  | nil => rfl
  | cons entry rest ih =>
      obtain ⟨h, timeline⟩ := entry
      have hrest : ∀ placed : List PlacedBarrier, attempts name
          (placeBarriers passes registry rest >>= fun others =>
            (pure (placed ++ others) : Logged (List PlacedBarrier))).events = [] :=
        fun placed => Logged.attempts_bind ih rfl
      unfold placeBarriers
      dsimp only
      split
      · exact hrest []
      · exact Logged.attempts_bind (attempts_planResource ..) (hrest _)

theorem attempts_schedule (passes : List Pass) (graph : DependencyGraph) (reachable : List Bool)
    (registry : Registry) : attempts name (schedule passes graph reachable registry).events = [] := by
  unfold schedule ScheduleInput.order
  dsimp only
  split
  · rfl
  · rfl

theorem attempts_generateBarriers (table : UsageTable) (nodes : List PassNode)
    (registry : Registry) : attempts name (generateBarriers table nodes registry).events = [] :=
  Logged.attempts_bind (attempts_placeBarriers ..) rfl

theorem attempts_analysis (a : Analysis) (passes : List Pass) (registry : Registry) :
    attempts name (a.events passes registry) = [] := by
  refine attempts_eq_nil fun e he => ?_
  simp only [Analysis.events, List.mem_append, List.mem_filterMap, List.mem_singleton] at he
  obtain ((he | he) | ⟨entry, -, hpruned⟩) | rfl := he
  · split at he
    · cases he
    · rw [List.mem_singleton.1 he]
      rfl
  · split at he
    · rw [List.mem_singleton.1 he]
      rfl
    · cases he
  · split at hpruned
    · cases hpruned
    · cases hpruned
      rfl
  · rfl

namespace Graph

/-- **Compiling attempts nothing.** -/
theorem attempts_compile (g : Graph) : attempts name g.compile.events = [] := by
  refine Logged.attempts_bind ?_ (Logged.attempts_bind (attempts_schedule ..)
    (Logged.attempts_bind (attempts_generateBarriers ..)
      (Logged.attempts_bind rfl (Logged.attempts_bind ?_ ?_))))
  · unfold currentAnalysis
    split
    · rfl
    · rfl
    · exact attempts_analysis ..
  · refine Logged.attempts_bind (attempts_eq_nil fun e he => ?_) rfl
    obtain ⟨entry, -, rfl⟩ := List.mem_map.1 (List.mem_mergeSort.1 he)
    rfl
  · dsimp only
    split
    · refine attempts_eq_nil fun e he => ?_
      obtain ⟨line, -, rfl⟩ := List.mem_map.1 he
      rfl
    · rfl

end Graph

/-! ## Recording -/

namespace FrameInput

variable {input : FrameInput}

theorem attempts_recordFrom (run : FrameRun) (position : Nat) (order : List Nat) :
    attempts name (input.recordFrom run position order).events = [] := by
  induction order generalizing run position with
  | nil => rfl
  | cons pass rest ih =>
      refine Logged.attempts_bind ?_ (ih ..)
      unfold recordPass
      dsimp only
      split
      · rfl
      · rfl

theorem attempts_leave (states : HandleMap ImageState) (entries : List (Handle × Resource)) :
    attempts name (leave states entries).events = [] := by
  induction entries generalizing states with
  | nil => rfl
  | cons entry rest ih =>
      obtain ⟨h, resource⟩ := entry
      unfold leave
      split
      · exact ih states
      · dsimp only
        split
        · exact ih _
        · exact Logged.attempts_bind rfl (ih states)

end FrameInput

/-- **Recording attempts nothing.** -/
theorem Graph.attempts_recordFrame (g : Graph) (index : Nat) (frame : FrameObjects) :
    attempts name (g.recordFrame index frame).events = [] := by
  refine Logged.attempts_bind ?_ (Logged.attempts_bind rfl rfl)
  refine Logged.attempts_bind (FrameInput.attempts_recordFrom ..) (Logged.attempts_bind ?_ rfl)
  exact FrameInput.attempts_leave ..

/-! ## Resolving -/

theorem Pool.attempts_create (p : Pool) (d : Device) (request : TransientRequest) :
    attempts name (p.create d request).events = [] := by
  refine Outcome.attempts_bind rfl fun requirements _ => Outcome.attempts_bind ?_ fun acquired _ => ?_
  · unfold acquire
    dsimp only
    split
    · exact Outcome.attempts_bind rfl fun _ _ => rfl
    · refine Outcome.attempts_bind rfl fun granted _ => ?_
      split
      · exact Outcome.attempts_bind rfl fun _ _ => rfl
      · rfl
  · dsimp only
    split
    · rfl
    · split
      · exact Outcome.attempts_bind rfl fun _ _ => rfl
      · split
        · rfl
        · exact Outcome.attempts_bind rfl fun _ _ => rfl

namespace Resolution

variable {r : Resolution} {h : Handle} {resource : Resource}

/-- **A transient resource attempts nothing.** -/
theorem attempts_addTransient (index : Nat) (table : UsageTable) (r : Resolution)
    (entry : Handle × Resource × Lifetime) :
    attempts name (addTransient index table r entry).events = [] := by
  refine Outcome.attempts_bind (Pool.attempts_create ..) fun created _ => ?_
  dsimp only
  split
  · rfl
  · split
    · rfl
    · rfl

theorem attempts_addNew_of_ne (hname : resource.name ≠ name) :
    attempts name (r.addNew h resource).events = [] := by
  have hother : ∀ e : Event, e.attempted? = some resource.name → attempts name [e] = [] := by
    intro e he
    rw [attempts, List.filter_cons_of_neg, List.filter_nil]
    rw [he]
    simpa using hname
  refine Outcome.attempts_bind rfl fun made _ => ?_
  dsimp only
  split
  · exact Outcome.attempts_bind (hother _ rfl) fun _ _ => rfl
  · exact Outcome.attempts_bind (hother _ rfl) fun _ _ => rfl

/-- **A resource attempts nothing for another name.** -/
theorem attempts_addKept_of_ne {entry : Handle × Resource} (hname : entry.2.name ≠ name) :
    attempts name (r.addKept entry).events = [] := by
  unfold addKept addPersistent
  dsimp only
  split
  · rfl
  · split
    · split
      · exact attempts_addNew_of_ne hname
      · split
        · rfl
        · exact attempts_addNew_of_ne hname
    · rfl
  · rfl

end Resolution

end FrameGraph
