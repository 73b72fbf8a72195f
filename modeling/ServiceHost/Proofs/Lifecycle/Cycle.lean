import ServiceHost.Proofs.Lifecycle.Course

/-!
# Cycles of a lifecycle

A cycle begins when a start pass is let through and lasts until the next one is. `Cycle` keeps what
was seen in it: the hooks that the start pass went over, those whose start callback succeeded, the
stop callbacks that began and those that returned. `Cycle.started` are the hooks that count as
started. It is told from the events alone: a start pass takes the hooks in order, passes those
without a start callback and stops at the first whose callback has not succeeded (`reached`).
-/

namespace ServiceHost

variable {κ : Type}

/-- The hook has a start callback. -/
def RegisteredHook.starts (hook : RegisteredHook κ) : Bool :=
  hook.onStart.isSome

/-- The hook has a stop callback. -/
def RegisteredHook.stops (hook : RegisteredHook κ) : Bool :=
  hook.onStop.isSome

/-! ## How far a start pass has come -/

/-- The hooks that a start pass has behind it after so many of its callbacks succeeded. -/
def reached : Nat → List (RegisteredHook κ) → List (RegisteredHook κ)
  | _, [] => []
  | successes, hook :: rest =>
    match hook.starts, successes with
    | false, successes => hook :: reached successes rest
    | true, 0 => []
    | true, successes + 1 => hook :: reached successes rest

/-- A start pass has the hooks of a first part behind it once all start callbacks of them have
succeeded, and then goes on with the rest. -/
theorem reached_append (successes : Nat) (hooks rest : List (RegisteredHook κ)) :
    reached (hooks.countP RegisteredHook.starts + successes) (hooks ++ rest) =
      hooks ++ reached successes rest := by
  induction hooks with
  | nil => rw [List.countP_nil, Nat.zero_add]; rfl
  | cons hook hooks ih =>
    cases hstarts : hook.starts with
    | false =>
      rw [List.countP_cons_of_neg (by simp [hstarts]), List.cons_append, List.cons_append, ← ih]
      simp only [reached, hstarts]
    | true =>
      rw [List.countP_cons_of_pos hstarts, Nat.add_right_comm, List.cons_append, List.cons_append,
        ← ih]
      simp only [reached, hstarts]

/-- Before any success a start pass has the hooks behind it that have no start callback. -/
theorem reached_zero {passed : List (RegisteredHook κ)} (hpassed : ∀ h ∈ passed, h.onStart = none)
    (rest : List (RegisteredHook κ)) : reached 0 (passed ++ rest) = passed ++ reached 0 rest := by
  have hcount : passed.countP RegisteredHook.starts = 0 :=
    List.countP_eq_zero.2 fun h hmem => by simp [RegisteredHook.starts, hpassed h hmem]
  have := reached_append 0 passed rest
  rwa [hcount] at this

/-- A start pass does not come past a hook whose start callback has not succeeded. -/
theorem reached_zero_cons {hook : RegisteredHook κ} {callback : κ}
    (hstart : hook.onStart = some callback) (rest : List (RegisteredHook κ)) :
    reached 0 (hook :: rest) = [] := by
  simp [reached, RegisteredHook.starts, hstart]

/-- What a start pass has behind it is a first part of its hooks. -/
theorem reached_prefix_hooks (successes : Nat) (hooks : List (RegisteredHook κ)) :
    reached successes hooks <+: hooks := by
  induction hooks generalizing successes with
  | nil => exact List.prefix_refl _
  | cons hook rest ih =>
    unfold reached
    split
    · exact List.cons_prefix_cons.2 ⟨rfl, ih _⟩
    · exact List.nil_prefix
    · exact List.cons_prefix_cons.2 ⟨rfl, ih _⟩

/-! ## Cycles -/

/-- What was seen since a start pass was let through. -/
structure Cycle (κ : Type) where
  /-- The hooks that the start pass goes over. -/
  hooks : List (RegisteredHook κ)
  /-- The hooks whose start callback succeeded, in that order. -/
  succeeded : List (RegisteredHook κ)
  /-- The hooks whose stop callback began, in that order, by whatever pass. -/
  stopsBegun : List (RegisteredHook κ)
  /-- The hooks whose stop callback returned, with the result. -/
  stopsEnded : List (RegisteredHook κ × Except Failure Unit)

namespace Cycle

/-- The hooks that count as started: those that the start pass has come past. -/
def started (cycle : Cycle κ) : List (RegisteredHook κ) :=
  reached cycle.succeeded.length cycle.hooks

/-- The stop callbacks to be run for the hooks that count as started, the last hook first. -/
def owed (cycle : Cycle κ) : List (RegisteredHook κ) :=
  (cycle.started.filter RegisteredHook.stops).reverse

/-- The cycle after one more event. -/
def note (cycle : Option (Cycle κ)) : Event κ → Option (Cycle κ)
  | .opened _ hooks => some ⟨hooks, [], [], []⟩
  | .ended _ .start hook (.ok ()) =>
    cycle.map fun cycle => { cycle with succeeded := cycle.succeeded ++ [hook] }
  | .began _ .stop hook =>
    cycle.map fun cycle => { cycle with stopsBegun := cycle.stopsBegun ++ [hook] }
  | .ended _ .stop hook result =>
    cycle.map fun cycle => { cycle with stopsEnded := cycle.stopsEnded ++ [(hook, result)] }
  | _ => cycle

/-- The cycle after more events. -/
def noteAll (cycle : Option (Cycle κ)) (events : List (Event κ)) : Option (Cycle κ) :=
  events.foldl note cycle

/-- The cycle that events end in, if a start pass was let through at all. -/
def ofEvents (events : List (Event κ)) : Option (Cycle κ) :=
  noteAll none events

theorem noteAll_append (cycle : Option (Cycle κ)) (events more : List (Event κ)) :
    noteAll cycle (events ++ more) = noteAll (noteAll cycle events) more :=
  List.foldl_append

end Cycle

/-- The cycle that a course is in. -/
def Course.cycle? (course : Course κ) : Option (Cycle κ) :=
  Cycle.ofEvents course.seen

theorem Course.cycle?_next (course : Course κ) (m : Move κ) :
    (course.next m).cycle? = Cycle.noteAll course.cycle? (course.coordinator.events m) :=
  Cycle.noteAll_append none course.seen _

end ServiceHost
