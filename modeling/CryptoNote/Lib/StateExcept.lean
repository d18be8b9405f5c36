import Mathlib.Logic.Basic

/-!
# Computations with state and exceptions

A computation of {lit}`ExceptT ε (StateM σ)` either returns a value or throws, and
in both cases leaves a state: what it changed before an exception stays
changed, as with an exception in a C++ member function.  {lit}`run` runs one from
a state.

The run lemmas evaluate the monad's operations and take a bind apart by the
outcome of its first part.  {lit}`Preserves P x` says that every run of
{lit}`x` from a state satisfying {lit}`P` leaves one satisfying {lit}`P`, whatever
it returns or throws; the rules for it follow the structure of a program, so
that an invariant is proved once per operation and carried through binds,
branches and loops.

Main results:

- Theorem {lit}`run_bind`: the run of a bind runs the continuation on the value
  and the state the first part leaves, or stops at its exception.
- Theorems {lit}`Preserves.bind` and {lit}`Preserves.forM`: invariants carry
  through sequencing and loops.
-/

namespace StateExcept

variable {ε σ α β : Type}

/-- Run a computation from a state: its value or exception, and the state it
leaves. -/
def run (x : ExceptT ε (StateM σ) α) (s : σ) : Except ε α × σ := x.run.run s

@[simp] theorem run_pure (a : α) (s : σ) :
    run (pure a : ExceptT ε (StateM σ) α) s = (.ok a, s) := rfl

@[simp] theorem run_throw (e : ε) (s : σ) :
    run (throw e : ExceptT ε (StateM σ) α) s = (.error e, s) := rfl

@[simp] theorem run_get (s : σ) : run (get : ExceptT ε (StateM σ) σ) s = (.ok s, s) := rfl

@[simp] theorem run_set (t s : σ) : run (set t : ExceptT ε (StateM σ) PUnit) s = (.ok ⟨⟩, t) :=
  rfl

@[simp] theorem run_modify (f : σ → σ) (s : σ) :
    run (modify f : ExceptT ε (StateM σ) PUnit) s = (.ok ⟨⟩, f s) := rfl

@[simp] theorem run_ite (c : Prop) [Decidable c] (x y : ExceptT ε (StateM σ) α) (s : σ) :
    run (if c then x else y) s = if c then run x s else run y s := by
  by_cases hc : c
  · rw [if_pos hc, if_pos hc]
  · rw [if_neg hc, if_neg hc]

@[simp] theorem run_map (f : α → β) (x : ExceptT ε (StateM σ) α) (s : σ) :
    run (f <$> x) s = ((run x s).1.map f, (run x s).2) := by
  unfold run
  rw [ExceptT.run_map, StateT.run_map]
  rcases x.run.run s with ⟨_ | a, s'⟩ <;> rfl

/-- A bind runs its first part, then the continuation on the value and the
state it leaves; an exception of the first part ends the run. -/
theorem run_bind (x : ExceptT ε (StateM σ) α) (f : α → ExceptT ε (StateM σ) β) (s : σ) :
    run (x >>= f) s =
      match run x s with
      | (.ok a, s') => run (f a) s'
      | (.error e, s') => (.error e, s') := by
  unfold run
  rw [ExceptT.run_bind, StateT.run_bind]
  rcases x.run.run s with ⟨_ | a, s'⟩ <;> rfl

section Bind

variable {x : ExceptT ε (StateM σ) α} {f : α → ExceptT ε (StateM σ) β} {s s' : σ}

@[simp] theorem run_bind_of_ok {a : α} (h : run x s = (.ok a, s')) :
    run (x >>= f) s = run (f a) s' := by
  rw [run_bind, h]

@[simp] theorem run_bind_of_error {e : ε} (h : run x s = (.error e, s')) :
    run (x >>= f) s = (.error e, s') := by
  rw [run_bind, h]

end Bind

/-! ## Invariants -/

/-- Every run of {lit}`x` from a state satisfying {lit}`P` leaves a state satisfying
{lit}`P`, whatever it returns or throws. -/
def Preserves (P : σ → Prop) (x : ExceptT ε (StateM σ) α) : Prop :=
  ∀ s, P s → P (run x s).2

/-- {lit}`x` leaves the view {lit}`view` of the state as it found it. -/
def Keeps {β : Type} (view : σ → β) (x : ExceptT ε (StateM σ) α) : Prop :=
  ∀ v, Preserves (fun s => view s = v) x

namespace Preserves

variable {P : σ → Prop}

theorem pure (a : α) : Preserves P (pure a : ExceptT ε (StateM σ) α) :=
  fun _ hs => hs

theorem throw (e : ε) : Preserves P (throw e : ExceptT ε (StateM σ) α) :=
  fun _ hs => hs

theorem set {t : σ} (h : P t) : Preserves P (set t : ExceptT ε (StateM σ) PUnit) :=
  fun _ _ => h

theorem modify {f : σ → σ} (h : ∀ s, P s → P (f s)) :
    Preserves P (modify f : ExceptT ε (StateM σ) PUnit) :=
  fun s hs => h s hs

/-- A throw ends the run where it stands: nothing after it runs. -/
theorem throw_bind (e : ε) (f : α → ExceptT ε (StateM σ) β) :
    Preserves P ((MonadExcept.throw e : ExceptT ε (StateM σ) α) >>= f) := by
  intro s hs
  rw [run_bind_of_error (run_throw e s)]
  exact hs

/-- Sequencing through a stronger invariant {lit}`Q` of the first part, from whose
states the continuation reaches {lit}`P`. -/
theorem bind_through {Q : σ → Prop} {x : ExceptT ε (StateM σ) α}
    {f : α → ExceptT ε (StateM σ) β} (hQ : ∀ s, Q s → P s) (hx : Preserves Q x)
    (hf : ∀ a s, Q s → P (run (f a) s).2) : ∀ s, Q s → P (run (x >>= f) s).2 := by
  intro s hs
  have hmid := hx s hs
  rw [run_bind]
  rcases hrun : run x s with ⟨_ | a, s'⟩
  · rw [hrun] at hmid
    exact hQ s' hmid
  · rw [hrun] at hmid
    exact hf a s' hmid

/-- The rule for sequencing: the continuation may start from any state the first
part leaves, with any value. -/
theorem bind {x : ExceptT ε (StateM σ) α} {f : α → ExceptT ε (StateM σ) β}
    (hx : Preserves P x) (hf : ∀ a, Preserves P (f a)) : Preserves P (x >>= f) :=
  bind_through (fun _ hs => hs) hx fun a => hf a

/-- Two invariants of one computation make one. -/
theorem and {Q : σ → Prop} {x : ExceptT ε (StateM σ) α} (hP : Preserves P x)
    (hQ : Preserves Q x) : Preserves (fun s => P s ∧ Q s) x :=
  fun s hs => ⟨hP s hs.1, hQ s hs.2⟩

/-- A continuation of {lit}`get` is run from the state it reads. -/
theorem get_bind {f : σ → ExceptT ε (StateM σ) β} (hf : ∀ s, P s → P (run (f s) s).2) :
    Preserves P (get >>= f) := by
  intro s hs
  rw [run_bind_of_ok (run_get s)]
  exact hf s hs

/-- The same rule, when the continuation keeps the invariant from the state it
reads wherever it starts. -/
theorem get_bind_preserves {f : σ → ExceptT ε (StateM σ) β} (hf : ∀ s, P s → Preserves P (f s)) :
    Preserves P (get >>= f) :=
  get_bind fun s hs => hf s hs s hs

/-- A branch preserves a property when both of its arms do. -/
theorem ite {c : Prop} [Decidable c] {x y : ExceptT ε (StateM σ) α}
    (hx : c → Preserves P x) (hy : ¬c → Preserves P y) : Preserves P (if c then x else y) := by
  by_cases hc : c
  · rw [if_pos hc]
    exact hx hc
  · rw [if_neg hc]
    exact hy hc

/-- A loop keeps what each round keeps. -/
theorem forM {l : List α} {f : α → ExceptT ε (StateM σ) PUnit} (hf : ∀ a ∈ l, Preserves P (f a)) :
    Preserves P (l.forM f) := by
  induction l with
  | nil => exact fun _ hs => hs
  | cons a l ih =>
    show Preserves P (f a >>= fun _ => l.forM f)
    exact bind (hf a List.mem_cons_self) fun _ =>
      ih fun b hb => hf b (List.mem_cons_of_mem a hb)

end Preserves

/-- An operation that keeps a view keeps every property that reads only the view. -/
theorem Keeps.preserves {β : Type} {view : σ → β} {x : ExceptT ε (StateM σ) α} {P : σ → Prop}
    (hx : Keeps view x) (hP : ∀ s t, view t = view s → P s → P t) : Preserves P x :=
  fun s hs => hP s _ (hx (view s) s rfl) hs

end StateExcept
