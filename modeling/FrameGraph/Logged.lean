import FrameGraph.Event
import FrameGraph.Fault

/-!
# Computations that report events

`Logged` is a value with the events reported on the way to it.  `Outcome` may also stop with a
fault; the events reported before the fault are kept.

Principal statements: the results and the events of a sequence, `Logged.value_bind`,
`Logged.events_bind`, `Outcome.result_bind`, `Outcome.events_bind_of_ok` and
`Outcome.events_bind_of_error`.
-/

set_option autoImplicit false

namespace FrameGraph

/-- A value and the events reported while it was computed. -/
structure Logged (α : Type) where
  value : α
  events : List Event := []
  deriving Repr

namespace Logged

variable {α β : Type}

instance : Monad Logged where
  pure a := ⟨a, []⟩
  bind x f := ⟨(f x.value).value, x.events ++ (f x.value).events⟩

/-- Reports an event. -/
def report (event : Event) : Logged Unit := ⟨(), [event]⟩

@[simp] theorem value_pure (a : α) : (pure a : Logged α).value = a := rfl

@[simp] theorem events_pure (a : α) : (pure a : Logged α).events = [] := rfl

@[simp] theorem value_bind (x : Logged α) (f : α → Logged β) :
    (x >>= f).value = (f x.value).value := rfl

@[simp] theorem events_bind (x : Logged α) (f : α → Logged β) :
    (x >>= f).events = x.events ++ (f x.value).events := rfl

@[simp] theorem value_map (f : α → β) (x : Logged α) : (f <$> x).value = f x.value := rfl

@[simp] theorem value_report (event : Event) : (report event).value = () := rfl

@[simp] theorem events_report (event : Event) : (report event).events = [event] := rfl

instance : LawfulMonad Logged :=
  LawfulMonad.mk' Logged
    (fun x => congrArg (Logged.mk x.value) (List.append_nil x.events))
    (fun _ _ => rfl)
    (fun x f g => congrArg (Logged.mk _)
      (List.append_assoc x.events (f x.value).events (g (f x.value).value).events))

end Logged

/-- A result or a fault, and the events reported before. -/
structure Outcome (α : Type) where
  result : Except Fault α
  events : List Event := []

namespace Outcome

variable {α β : Type}

instance : Monad Outcome where
  pure a := ⟨.ok a, []⟩
  bind x f :=
    match x.result with
    | .error fault => ⟨.error fault, x.events⟩
    | .ok a => ⟨(f a).result, x.events ++ (f a).events⟩

/-- A computation that cannot fail. -/
def ofLogged (x : Logged α) : Outcome α := ⟨.ok x.value, x.events⟩

/-- A computation that reports nothing. -/
def ofExcept (x : Except Fault α) : Outcome α := ⟨x, []⟩

instance : MonadLift Logged Outcome := ⟨ofLogged⟩

instance : MonadLift (Except Fault) Outcome := ⟨ofExcept⟩

@[simp] theorem events_pure (a : α) : (pure a : Outcome α).events = [] := rfl

@[simp] theorem result_ofLogged (x : Logged α) : (ofLogged x).result = .ok x.value := rfl

@[simp] theorem events_ofLogged (x : Logged α) : (ofLogged x).events = x.events := rfl

theorem result_bind (x : Outcome α) (f : α → Outcome β) :
    (x >>= f).result = x.result.bind fun a => (f a).result := by
  obtain ⟨result, events⟩ := x
  cases result <;> rfl

/-- A sequence succeeds exactly when both of its parts do. -/
theorem result_bind_eq_ok_iff {x : Outcome α} {f : α → Outcome β} {b : β} :
    (x >>= f).result = .ok b ↔ ∃ a, x.result = .ok a ∧ (f a).result = .ok b := by
  rw [result_bind]
  exact bind_eq_ok_iff

theorem events_bind_of_ok {x : Outcome α} {a : α} (h : x.result = .ok a) (f : α → Outcome β) :
    (x >>= f).events = x.events ++ (f a).events := by
  obtain ⟨result, events⟩ := x
  cases h
  rfl

/-- A fault ends a sequence. -/
theorem events_bind_of_error {x : Outcome α} {fault : Fault} (h : x.result = .error fault)
    (f : α → Outcome β) : (x >>= f).events = x.events := by
  obtain ⟨result, events⟩ := x
  cases h
  rfl

theorem bind_pure_self (x : Outcome α) : (x >>= pure) = x := by
  obtain ⟨result, events⟩ := x
  cases result with
  | error fault => rfl
  | ok a => exact congrArg (Outcome.mk (.ok a)) (List.append_nil events)

theorem bind_assoc_self {γ : Type} (x : Outcome α) (f : α → Outcome β) (g : β → Outcome γ) :
    (x >>= f >>= g) = x >>= fun a => f a >>= g := by
  obtain ⟨result, events⟩ := x
  cases result with
  | error fault => rfl
  | ok a =>
      show Bind.bind (⟨(f a).result, events ++ (f a).events⟩ : Outcome β) g =
        ⟨(f a >>= g).result, events ++ (f a >>= g).events⟩
      cases h : (f a).result with
      | error fault => rw [events_bind_of_error h, result_bind, h]; rfl
      | ok b =>
          rw [events_bind_of_ok h, result_bind, h, ← List.append_assoc]
          rfl

instance : LawfulMonad Outcome :=
  LawfulMonad.mk' Outcome bind_pure_self (fun _ _ => rfl) bind_assoc_self

end Outcome

end FrameGraph
