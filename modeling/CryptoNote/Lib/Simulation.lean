/-!
# Runs of machines and forward simulation

A machine with outputs takes one input at a time and either fails or answers
with an output and a new state; its run over a list of inputs stops at the
first failure.  An abstract machine never fails, and a precondition says which
inputs it is meant for in a given state.

A relation between concrete and abstract states is a simulation when, from
related states, every input the abstract machine allows makes the concrete
machine answer with the abstract output and reach a state related to the
abstract successor.  Then whole runs agree, output for output.

A state is reachable when some sequence of steps leads to it from the initial
state; a property that holds initially and that every step keeps holds in every
reachable state.

Main results:

- Theorem {lit}`Simulation.run`: a simulation relates every run over allowed
  inputs to the abstract run, and the outputs are equal.
- Theorem {lit}`Reachable.invariant`: the induction over reachable states.
- Theorem {lit}`foldl_invariant`: the same induction over the runs whose inputs
  are all of an allowed kind.
-/

namespace Machine

variable {σ α ι ω ε : Type}

/-- Run a machine over a list of inputs, collecting its outputs and stopping at
the first failure. -/
def run (step : σ → ι → Except ε (ω × σ)) : σ → List ι → Except ε (List ω × σ)
  | s, [] => .ok ([], s)
  | s, i :: is =>
    match step s i with
    | .error e => .error e
    | .ok (o, s') =>
      match run step s' is with
      | .error e => .error e
      | .ok (os, s'') => .ok (o :: os, s'')

/-- Run an abstract machine over a list of inputs. -/
def runSpec (spec : α → ι → ω × α) : α → List ι → List ω × α
  | a, [] => ([], a)
  | a, i :: is =>
    let rest := runSpec spec (spec a i).2 is
    ((spec a i).1 :: rest.1, rest.2)

/-- Each input is allowed in the abstract state the inputs before it lead to. -/
def Allowed (allowed : α → ι → Prop) (spec : α → ι → ω × α) : α → List ι → Prop
  | _, [] => True
  | a, i :: is => allowed a i ∧ Allowed allowed spec (spec a i).2 is

/-- From related states, every allowed input gives the abstract output and
related successors. -/
def Simulation (step : σ → ι → Except ε (ω × σ)) (spec : α → ι → ω × α)
    (allowed : α → ι → Prop) (R : σ → α → Prop) : Prop :=
  ∀ s a i, R s a → allowed a i →
    ∃ s', step s i = .ok ((spec a i).1, s') ∧ R s' (spec a i).2

variable {step : σ → ι → Except ε (ω × σ)} {spec : α → ι → ω × α}
  {allowed : α → ι → Prop} {R : σ → α → Prop}

/-- A simulation carries over to runs: by induction on the inputs, one step of
the simulation per input. -/
theorem Simulation.run (hsim : Simulation step spec allowed R) :
    ∀ (is : List ι) (s : σ) (a : α), R s a → Allowed allowed spec a is →
      ∃ s', Machine.run step s is = .ok ((runSpec spec a is).1, s') ∧
        R s' (runSpec spec a is).2
  | [], s, _, hR, _ => ⟨s, rfl, hR⟩
  | i :: is, s, a, hR, ⟨hallowed, hrest⟩ => by
    obtain ⟨s', hstep, hR'⟩ := hsim s a i hR hallowed
    obtain ⟨s'', hrun, hR''⟩ := Simulation.run hsim is s' _ hR' hrest
    exact ⟨s'', by simp [Machine.run, hstep, hrun, runSpec], hR''⟩

/-- The states a machine reaches from {lit}`init` through any sequence of
inputs. -/
inductive Reachable (step : σ → ι → σ) (init : σ) : σ → Prop
  | init : Reachable step init init
  | step {s : σ} (i : ι) : Reachable step init s → Reachable step init (step s i)

/-- A property of the initial state that every step keeps holds in every
reachable state. -/
theorem Reachable.invariant {step : σ → ι → σ} {init : σ} (inv : σ → Prop)
    (hinit : inv init) (hstep : ∀ s i, inv s → inv (step s i)) :
    ∀ {s}, Reachable step init s → inv s
  | _, .init => hinit
  | _, .step i hreach => hstep _ i (Reachable.invariant inv hinit hstep hreach)

/-- A reachable state stays reachable through any further inputs. -/
theorem Reachable.foldl {step : σ → ι → σ} {init s : σ} (hreach : Reachable step init s) :
    ∀ inputs : List ι, Reachable step init (inputs.foldl step s)
  | [] => hreach
  | i :: inputs => Reachable.foldl (hreach.step i) inputs

/-- A property that every allowed input keeps holds after any sequence of
allowed inputs. -/
theorem foldl_invariant {step : σ → ι → σ} (allowed : ι → Prop) (inv : σ → Prop)
    (hstep : ∀ s i, allowed i → inv s → inv (step s i)) :
    ∀ (inputs : List ι) {s : σ}, (∀ i ∈ inputs, allowed i) → inv s → inv (inputs.foldl step s)
  | [], _, _, hinv => hinv
  | i :: inputs, _, hallowed, hinv =>
    foldl_invariant allowed inv hstep inputs (fun j hj => hallowed j (List.mem_cons_of_mem i hj))
      (hstep _ i (hallowed i List.mem_cons_self) hinv)

end Machine
