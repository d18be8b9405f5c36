import CryptoNote.Lib.Simulation

/-!
# The state machine of the blockchain synchroniser

{lit}`BlockchainSynchronizer` runs a working thread that moves between four
states ranked by priority, {lit}`idle < poolSync < blockchainSync < stopped`.
The other threads only ever raise the future state ({lit}`setFutureState`); the
working thread makes the future state its current one
({lit}`actualizeFutureState`), lowers the future state as it takes up the work,
and lowers it to {lit}`idle` when a round fails.  The controller's
{lit}`start` and {lit}`stop`, the node's notifications and the wallet's
unconfirmed transactions interleave with the working thread in any order
(src/transfers/BlockchainSynchronizer.cpp).

The model is one state for the whole object: the two states, whether it is
registered with the node, the queued transaction tasks, the consumers, where the
working thread is, and whether the controller waits in {lit}`stop` to join it.
Every call and every move of the working thread is an action; a section under
{lit}`m_stateMutex` is one step, and a call that throws, or a thread that must
wait, leaves the state as it was.  What a round does to the consumers' chains is
the subject of {lit}`SyncRound`; here a round ends in one of the three ways that
decide the next state.

Main results:

- Theorem {lit}`reachable_inv`: every state that any interleaving reaches
  satisfies {lit}`Inv`.
- Theorem {lit}`synchronizer_observes_while_running`: the synchroniser is
  registered with the node exactly while its current state is not
  {lit}`stopped`, and no queued transaction task is left once the working thread
  has returned.
- Theorem {lit}`synchronizer_stop_terminates`: once a stop is requested, the
  working thread has returned after three of its own moves, whatever the other
  threads do meanwhile.
-/

namespace CryptoNote
namespace Transfers
namespace BlockchainSynchronizer

/-! ## The states and the actions -/

/-- {lit}`BlockchainSynchronizer::State`, whose values are the priorities. -/
inductive State where
  | idle
  | poolSync
  | blockchainSync
  | stopped
deriving DecidableEq, Repr

/-- The value of each state in the enumeration. -/
def State.toNat : State → Nat
  | .idle => 0
  | .poolSync => 1
  | .blockchainSync => 2
  | .stopped => 3

/-- How a round ends, as far as the states go.  It fails and asks for
{lit}`idle` unless a stop is pending ({lit}`setFutureStateIf(State::idle, ...)`:
a refused query, an exception, a consumer's error, an unreachable pool); it asks
for another blockchain round ({lit}`setFutureState(State::blockchainSync)`:
blocks added, blocks still to come, a pool on an outdated block); or it asks for
nothing (nothing left to do, or a stop is pending). -/
inductive RoundEnd where
  | failed
  | again
  | settled
deriving DecidableEq, Repr

/-- Where a call of {lit}`actualizeFutureState` is: about to take the lock, in
{lit}`startBlockchainSync` or in {lit}`startPoolSync` with the lock released, or
in the wait of the idle state. -/
inductive Phase where
  | enter
  | blockchainRound
  | poolRound
  | waiting
deriving DecidableEq, Repr

/-- Where the working thread is: not there, at the test of the loop of
{lit}`workingProcedure`, in a call of {lit}`actualizeFutureState` (the calls in
the loop, or the one after it), or returned. -/
inductive Worker where
  | absent
  | test
  | actualize (final : Bool) (phase : Phase)
  | finished
deriving DecidableEq, Repr

/-- The synchroniser with its working thread and its controller. -/
structure Synchronizer where
  currentState : State
  futureState : State
  /-- Registered with {lit}`m_node.addObserver(this)`. -/
  observing : Bool
  /-- {lit}`m_addTransactionTasks` and {lit}`m_removeTransactionTasks`, by
  their number. -/
  addTasks : Nat
  removeTasks : Nat
  /-- The keys of {lit}`m_consumers`. -/
  consumers : List Nat
  worker : Worker
  /-- The controller is in {lit}`stop`, joining the working thread. -/
  stopping : Bool
deriving DecidableEq, Repr

/-- The constructor's state: stopped, with no consumer and no thread. -/
def Synchronizer.init : Synchronizer :=
  { currentState := .stopped, futureState := .stopped, observing := false, addTasks := 0,
    removeTasks := 0, consumers := [], worker := .absent, stopping := false }

/-- The calls of the other threads and the moves of the working thread. -/
inductive Action where
  | addConsumer (consumer : Nat)
  | removeConsumer (consumer : Nat)
  | start
  | requestStop
  | join
  | localBlockchainUpdated
  | lastKnownBlockHeightUpdated
  | poolChanged
  | addUnconfirmedTransaction
  | removeUnconfirmedTransaction
  | test
  | enter
  | endRound (how : RoundEnd)
  | wake
deriving DecidableEq, Repr

/-! ## The methods -/

section Methods

variable (m : Synchronizer)

/-- {lit}`setFutureStateIf(s, pred)`: under the lock, the future state becomes
{lit}`s` when the predicate holds. -/
def setFutureStateIf (s : State) (pred : Synchronizer → Bool) : Bool × Synchronizer :=
  if pred m then (true, { m with futureState := s }) else (false, m)

/-- {lit}`setFutureState(s)`: the future state is raised to {lit}`s`, never
lowered. -/
def setFutureState (s : State) : Bool × Synchronizer :=
  setFutureStateIf m s fun m => decide (m.futureState.toNat < s.toNat)

/-- {lit}`checkIfShouldStop`: a stop is asked for. -/
def checkIfShouldStop : Bool := m.futureState = .stopped

/-- {lit}`checkIfStopped`: the synchroniser is stopped. -/
def checkIfStopped : Bool := m.currentState = .stopped

/-- {lit}`addConsumer`: only while stopped and asked to stop; a consumer already
there stays as it is. -/
def addConsumer (consumer : Nat) : Except String Synchronizer :=
  if !(checkIfStopped m && checkIfShouldStop m) then
    .error "Can't add consumer, because BlockchainSynchronizer isn't stopped"
  else if consumer ∈ m.consumers then .ok m
  else .ok { m with consumers := m.consumers ++ [consumer] }

/-- {lit}`removeConsumer`: only while stopped and asked to stop; whether the
consumer was there. -/
def removeConsumer (consumer : Nat) : Except String (Bool × Synchronizer) :=
  if !(checkIfStopped m && checkIfShouldStop m) then
    .error "Can't remove consumer, because BlockchainSynchronizer isn't stopped"
  else .ok (decide (consumer ∈ m.consumers), { m with consumers := m.consumers.erase consumer })

/-- {lit}`start`: with a consumer, from stopped and not asked for anything else,
the future state becomes {lit}`blockchainSync` and the working thread starts. -/
def start : Except String Synchronizer :=
  if m.consumers.isEmpty then
    .error "Can't start, because BlockchainSynchronizer has no consumers"
  else
    match setFutureStateIf m .blockchainSync fun m =>
        m.currentState = .stopped && m.futureState = .stopped with
    | (true, m') => .ok { m' with worker := .test }
    | (false, _) => .error "BlockchainSynchronizer already started"

/-- {lit}`addUnconfirmedTransaction`: refused when stopped or asked to stop,
queued otherwise. -/
def addUnconfirmedTransaction : Except String Synchronizer :=
  if m.currentState = .stopped ∨ m.futureState = .stopped then
    .error "Can't add transaction, because BlockchainSynchronizer is stopped"
  else .ok { m with addTasks := m.addTasks + 1 }

/-- {lit}`removeUnconfirmedTransaction`, as {lit}`addUnconfirmedTransaction`. -/
def removeUnconfirmedTransaction : Except String Synchronizer :=
  if m.currentState = .stopped ∨ m.futureState = .stopped then
    .error "Can't remove transaction, because BlockchainSynchronizer is stopped"
  else .ok { m with removeTasks := m.removeTasks + 1 }

/-- Where the working thread goes when a call of {lit}`actualizeFutureState`
returns: back to the test of the loop, or out of {lit}`workingProcedure` after
the call that follows the loop. -/
def leave (final : Bool) : Worker := if final then .finished else .test

/-- The part of {lit}`actualizeFutureState` under the lock: the observer is
attached on the way out of {lit}`stopped` into {lit}`blockchainSync` and detached
on the way into {lit}`stopped`, the queued tasks are run, the current state
becomes the future one, and the switch lowers the future state and says what the
thread does next. -/
def actualizeFutureState (final : Bool) : Synchronizer :=
  let observing :=
    if m.currentState = .stopped ∧ m.futureState = .blockchainSync then true
    else if m.futureState = .stopped ∧ m.currentState ≠ .stopped then false
    else m.observing
  let m' := { m with observing, addTasks := 0, removeTasks := 0, currentState := m.futureState }
  match m.futureState with
  | .stopped => { m' with worker := leave final }
  | .blockchainSync => { m' with futureState := .poolSync, worker := .actualize final .blockchainRound }
  | .poolSync => { m' with futureState := .idle, worker := .actualize final .poolRound }
  | .idle => { m' with worker := .actualize final .waiting }

/-- The request a round makes of the future state as it ends. -/
def endRound (how : RoundEnd) : Synchronizer :=
  match how with
  | .failed => (setFutureStateIf m .idle fun m => m.futureState ≠ .stopped).2
  | .again => (setFutureState m .blockchainSync).2
  | .settled => m

/-- The wait of the idle state ends when the future state is no longer
{lit}`idle` or a task is queued. -/
def wakes : Bool := m.futureState ≠ .idle || 0 < m.removeTasks || 0 < m.addTasks

end Methods

/-- One action.  The controller waits in {lit}`stop` until the working thread has
returned; a call that throws changes nothing; the node notifies only a
registered observer; a move of the working thread other than its next one is no
move. -/
def step (m : Synchronizer) : Action → Synchronizer
  | .addConsumer c => if m.stopping then m else (addConsumer m c).toOption.getD m
  | .removeConsumer c => if m.stopping then m else ((removeConsumer m c).map (·.2)).toOption.getD m
  | .start => if m.stopping then m else (start m).toOption.getD m
  | .requestStop => if m.stopping then m else { (setFutureState m .stopped).2 with stopping := true }
  | .join =>
    if m.stopping ∧ (m.worker = .finished ∨ m.worker = .absent) then
      { m with worker := .absent, stopping := false }
    else m
  | .localBlockchainUpdated => if m.observing then (setFutureState m .blockchainSync).2 else m
  | .lastKnownBlockHeightUpdated => if m.observing then (setFutureState m .blockchainSync).2 else m
  | .poolChanged => if m.observing then (setFutureState m .poolSync).2 else m
  | .addUnconfirmedTransaction => (addUnconfirmedTransaction m).toOption.getD m
  | .removeUnconfirmedTransaction => (removeUnconfirmedTransaction m).toOption.getD m
  | .test =>
    match m.worker with
    | .test => { m with worker := .actualize (checkIfShouldStop m) .enter }
    | _ => m
  | .enter =>
    match m.worker with
    | .actualize final .enter => actualizeFutureState m final
    | _ => m
  | .endRound how =>
    match m.worker with
    | .actualize final .blockchainRound => { endRound m how with worker := leave final }
    | .actualize final .poolRound => { endRound m how with worker := leave final }
    | _ => m
  | .wake =>
    match m.worker with
    | .actualize final .waiting => if wakes m then { m with worker := leave final } else m
    | _ => m

/-! ## What each method does to the state -/

section Effects

variable (m : Synchronizer)

theorem setFutureStateIf_snd (s : State) (pred : Synchronizer → Bool) :
    (setFutureStateIf m s pred).2 = { m with futureState := if pred m then s else m.futureState } := by
  unfold setFutureStateIf
  split <;> rfl

theorem setFutureState_snd (s : State) :
    (setFutureState m s).2 =
      { m with futureState := if m.futureState.toNat < s.toNat then s else m.futureState } := by
  simp [setFutureState, setFutureStateIf_snd]

/-- Raising to a state below {lit}`stopped` gives {lit}`stopped` only from
{lit}`stopped`. -/
theorem raise_eq_stopped_iff {f s : State} (hs : s ≠ .stopped) :
    (if f.toNat < s.toNat then s else f) = .stopped ↔ f = .stopped := by
  cases f <;> cases s <;> simp_all [State.toNat]

/-- Raising never leaves {lit}`stopped`. -/
theorem raise_of_stopped {s : State} :
    (if State.stopped.toNat < s.toNat then s else State.stopped) = .stopped := by
  cases s <;> simp [State.toNat]

@[simp] theorem leave_ne_absent (final : Bool) : leave final ≠ .absent := by
  cases final <;> simp [leave]

theorem leave_false : leave false = .test := rfl

/-- A round ends with the thread back at the test of the loop, or returned, and
the same state otherwise, but for the future state. -/
theorem endRound_eq (how : RoundEnd) : ∃ f, endRound m how = { m with futureState := f } ∧
    (f = .stopped ↔ m.futureState = .stopped) := by
  cases how with
  | failed =>
    refine ⟨_, setFutureStateIf_snd m _ _, ?_⟩
    by_cases hstop : m.futureState = .stopped <;> simp [hstop]
  | again =>
    exact ⟨_, setFutureState_snd m _, raise_eq_stopped_iff (by decide)⟩
  | settled => exact ⟨m.futureState, rfl, Iff.rfl⟩

end Effects

/-! ## What each call can do -/

section Calls

variable {m : Synchronizer}

/-- Adding a consumer is refused, or appends it. -/
theorem step_addConsumer (c : Nat) :
    step m (.addConsumer c) = m ∨ step m (.addConsumer c) = { m with consumers := m.consumers ++ [c] } := by
  simp only [step]
  split
  · exact .inl rfl
  · unfold addConsumer
    split
    · exact .inl rfl
    · split
      · exact .inl rfl
      · exact .inr rfl

/-- Removing a consumer is refused, or erases it. -/
theorem step_removeConsumer (c : Nat) :
    step m (.removeConsumer c) = m ∨
      step m (.removeConsumer c) = { m with consumers := m.consumers.erase c } := by
  simp only [step]
  split
  · exact .inl rfl
  · unfold removeConsumer
    split
    · exact .inl rfl
    · exact .inr rfl

/-- A transaction task is queued only while the synchroniser runs and no stop is
asked for. -/
theorem step_addUnconfirmedTransaction :
    step m .addUnconfirmedTransaction = m ∨
      (m.currentState ≠ .stopped ∧ m.futureState ≠ .stopped ∧
        step m .addUnconfirmedTransaction = { m with addTasks := m.addTasks + 1 }) := by
  simp only [step, addUnconfirmedTransaction]
  split
  · exact .inl rfl
  · rename_i hrunning
    exact .inr ⟨fun hc => hrunning (.inl hc), fun hf => hrunning (.inr hf), rfl⟩

/-- Removing an unconfirmed transaction is refused, or queues a task while the
synchroniser runs and no stop is coming. -/
theorem step_removeUnconfirmedTransaction :
    step m .removeUnconfirmedTransaction = m ∨
      (m.currentState ≠ .stopped ∧ m.futureState ≠ .stopped ∧
        step m .removeUnconfirmedTransaction = { m with removeTasks := m.removeTasks + 1 }) := by
  simp only [step, removeUnconfirmedTransaction]
  split
  · exact .inl rfl
  · rename_i hrunning
    exact .inr ⟨fun hc => hrunning (.inl hc), fun hf => hrunning (.inr hf), rfl⟩

end Calls

/-! ## The invariant -/

/-- What holds in every state that an interleaving reaches. -/
structure Inv (m : Synchronizer) : Prop where
  /-- Registered with the node exactly while not stopped. -/
  observing_iff : m.observing = true ↔ m.currentState ≠ .stopped
  /-- In {lit}`stopped`, only {lit}`start` asks for anything else, and it asks
  for {lit}`blockchainSync`. -/
  future_of_stopped : m.currentState = .stopped →
    m.futureState = .stopped ∨ m.futureState = .blockchainSync
  /-- A round or a wait runs in the state it was entered from. -/
  current_of_blockchainRound :
    ∀ final, m.worker = .actualize final .blockchainRound → m.currentState = .blockchainSync
  current_of_poolRound : ∀ final, m.worker = .actualize final .poolRound → m.currentState = .poolSync
  current_of_waiting : ∀ final, m.worker = .actualize final .waiting → m.currentState = .idle
  /-- The call after the loop is made with a stop asked for, and goes no further
  than taking the lock. -/
  final_enter : ∀ phase, m.worker = .actualize true phase →
    phase = .enter ∧ m.futureState = .stopped
  /-- Without a working thread the synchroniser is stopped with no task queued. -/
  gone : m.worker = .absent ∨ m.worker = .finished →
    m.currentState = .stopped ∧ m.addTasks = 0 ∧ m.removeTasks = 0
  /-- The controller waits in {lit}`stop` with the stop asked for. -/
  future_of_stopping : m.stopping = true → m.futureState = .stopped
  /-- A stop asked for while the thread is there has the controller waiting. -/
  stopping_of_future : m.futureState = .stopped → m.worker ≠ .absent → m.stopping = true

/-- The invariant holds of the synchroniser as constructed. -/
theorem inv_init : Inv Synchronizer.init where
  observing_iff := by simp [Synchronizer.init]
  future_of_stopped := fun _ => .inl rfl
  current_of_blockchainRound := fun _ h => by cases h
  current_of_poolRound := fun _ h => by cases h
  current_of_waiting := fun _ h => by cases h
  final_enter := fun _ h => by cases h
  gone := fun _ => ⟨rfl, rfl, rfl⟩
  future_of_stopping := fun h => by cases h
  stopping_of_future := fun _ h => absurd rfl h

/-! ## Every action keeps the invariant -/

section Preservation

variable {m : Synchronizer}

/-- The consumers play no part in the invariant. -/
theorem Inv.with_consumers (h : Inv m) (consumers : List Nat) : Inv { m with consumers } :=
  ⟨h.1, h.2, h.3, h.4, h.5, h.6, h.7, h.8, h.9⟩

/-- A new future state that is {lit}`stopped` exactly when the old one was, and
the same one in {lit}`stopped`, keeps the invariant. -/
theorem Inv.with_future (h : Inv m) {f : State} (hstop : f = .stopped ↔ m.futureState = .stopped)
    (hcurrent : m.currentState = .stopped → f = m.futureState) : Inv { m with futureState := f } where
  observing_iff := h.observing_iff
  future_of_stopped hc := hcurrent hc ▸ h.future_of_stopped hc
  current_of_blockchainRound := h.current_of_blockchainRound
  current_of_poolRound := h.current_of_poolRound
  current_of_waiting := h.current_of_waiting
  final_enter phase hw := ⟨(h.final_enter phase hw).1, hstop.mpr (h.final_enter phase hw).2⟩
  gone := h.gone
  future_of_stopping hs := hstop.mpr (h.future_of_stopping hs)
  stopping_of_future hf := h.stopping_of_future (hstop.mp hf)

/-- A notification raises the future state of a synchroniser that runs. -/
theorem Inv.notify (h : Inv m) (hobserving : m.observing = true) {s : State}
    (hs : s ≠ .stopped) : Inv (setFutureState m s).2 := by
  rw [setFutureState_snd]
  exact h.with_future (raise_eq_stopped_iff hs)
    (fun hc => absurd hc (h.observing_iff.mp hobserving))

/-- {lit}`start` succeeds only from {lit}`stopped` with nothing asked for, and
asks for {lit}`blockchainSync` with a new working thread. -/
theorem start_eq_ok {m' : Synchronizer} (hstart : start m = .ok m') :
    m.currentState = .stopped ∧ m.futureState = .stopped ∧
      m' = { m with futureState := .blockchainSync, worker := .test } := by
  unfold start at hstart
  split at hstart
  · cases hstart
  · by_cases hready : m.currentState = .stopped ∧ m.futureState = .stopped
    · simp only [setFutureStateIf, hready, decide_true, Bool.and_self, if_true,
        Except.ok.injEq] at hstart
      refine ⟨hready.1, hready.2, ?_⟩
      rw [← hstart, hready.1]
    · have hpred : (m.currentState = .stopped && m.futureState = .stopped) = false := by
        simpa using hready
      simp only [setFutureStateIf, hpred] at hstart
      cases hstart

/-- Starting keeps the invariant when no stop is in progress. -/
theorem Inv.of_start (h : Inv m) (hstopping : m.stopping = false) {m' : Synchronizer}
    (hstart : start m = .ok m') : Inv m' := by
  obtain ⟨_, _, rfl⟩ := start_eq_ok hstart
  exact
    { observing_iff := h.observing_iff
      future_of_stopped := fun _ => .inr rfl
      current_of_blockchainRound := fun _ hw => by cases hw
      current_of_poolRound := fun _ hw => by cases hw
      current_of_waiting := fun _ hw => by cases hw
      final_enter := fun _ hw => by cases hw
      gone := fun hw => by simp at hw
      future_of_stopping := fun hs => by simp [hstopping] at hs
      stopping_of_future := fun hf => by cases hf }

/-- Asking for a stop keeps the invariant. -/
theorem Inv.requestStop (h : Inv m) : Inv { (setFutureState m .stopped).2 with stopping := true } := by
  rw [setFutureState_snd]
  have hstopped : (if m.futureState.toNat < State.stopped.toNat then State.stopped
      else m.futureState) = .stopped := by
    cases hf : m.futureState <;> simp [State.toNat]
  exact
    { observing_iff := h.observing_iff
      future_of_stopped := fun _ => .inl hstopped
      current_of_blockchainRound := h.current_of_blockchainRound
      current_of_poolRound := h.current_of_poolRound
      current_of_waiting := h.current_of_waiting
      final_enter := fun phase hw => ⟨(h.final_enter phase hw).1, hstopped⟩
      gone := h.gone
      future_of_stopping := fun _ => hstopped
      stopping_of_future := fun _ _ => rfl }

/-- Joining a finished or absent worker keeps the invariant. -/
theorem Inv.join (h : Inv m) (hw : m.worker = .finished ∨ m.worker = .absent) :
    Inv { m with worker := .absent, stopping := false } where
  observing_iff := h.observing_iff
  future_of_stopped := h.future_of_stopped
  current_of_blockchainRound := fun _ hw => by cases hw
  current_of_poolRound := fun _ hw => by cases hw
  current_of_waiting := fun _ hw => by cases hw
  final_enter := fun _ hw => by cases hw
  gone := fun _ => h.gone hw.symm
  future_of_stopping := fun hs => by cases hs
  stopping_of_future := fun _ hw => absurd rfl hw

/-- A queued task needs a synchroniser that runs, and a thread that runs it. -/
theorem Inv.queue (h : Inv m) (hrunning : m.currentState ≠ .stopped) (addTasks removeTasks : Nat) :
    Inv { m with addTasks, removeTasks } where
  observing_iff := h.observing_iff
  future_of_stopped := h.future_of_stopped
  current_of_blockchainRound := h.current_of_blockchainRound
  current_of_poolRound := h.current_of_poolRound
  current_of_waiting := h.current_of_waiting
  final_enter := h.final_enter
  gone := fun hw => absurd (h.gone hw).1 hrunning
  future_of_stopping := h.future_of_stopping
  stopping_of_future := h.stopping_of_future

/-- The worker's test of the stop keeps the invariant. -/
theorem Inv.test (h : Inv m) (hw : m.worker = .test) :
    Inv { m with worker := .actualize (checkIfShouldStop m) .enter } where
  observing_iff := h.observing_iff
  future_of_stopped := h.future_of_stopped
  current_of_blockchainRound := fun _ hw => by cases hw
  current_of_poolRound := fun _ hw => by cases hw
  current_of_waiting := fun _ hw => by cases hw
  final_enter := fun phase hw' => by
    simp only [Worker.actualize.injEq] at hw'
    exact ⟨hw'.2.symm, by simpa [checkIfShouldStop] using hw'.1⟩
  gone := fun hw' => by simp at hw'
  future_of_stopping := h.future_of_stopping
  stopping_of_future := fun hf _ => h.stopping_of_future hf (by simp [hw])

/-- Taking the lock in {lit}`actualizeFutureState`, the observer is attached or
detached so that it is registered exactly when the new current state, the old
future one, is not {lit}`stopped`. -/
theorem Inv.observing_actualize (h : Inv m) :
    (if m.currentState = .stopped ∧ m.futureState = .blockchainSync then true
      else if m.futureState = .stopped ∧ m.currentState ≠ .stopped then false
      else m.observing) = true ↔ m.futureState ≠ .stopped := by
  have hobserving := h.observing_iff
  have hstopped := h.future_of_stopped
  cases hc : m.currentState <;> cases hf : m.futureState <;> simp_all

/-- Taking the lock in {lit}`actualizeFutureState`: the registration follows the
move between {lit}`stopped` and the other states. -/
theorem Inv.actualize (h : Inv m) {final : Bool} (hw : m.worker = .actualize final .enter) :
    Inv (actualizeFutureState m final) := by
  have hfinal : final = true → m.futureState = .stopped := fun hf =>
    (h.final_enter .enter (hf ▸ hw)).2
  have hstopping := h.stopping_of_future
  have hobserving := h.observing_actualize
  unfold actualizeFutureState
  cases hf : m.futureState with
  | stopped =>
    exact
      { observing_iff := by simpa [hf] using hobserving
        future_of_stopped := fun _ => .inl rfl
        current_of_blockchainRound := fun _ hw' => by cases final <;> simp [leave] at hw'
        current_of_poolRound := fun _ hw' => by cases final <;> simp [leave] at hw'
        current_of_waiting := fun _ hw' => by cases final <;> simp [leave] at hw'
        final_enter := fun _ hw' => by cases final <;> simp [leave] at hw'
        gone := fun _ => ⟨rfl, rfl, rfl⟩
        future_of_stopping := fun _ => rfl
        stopping_of_future := fun _ _ => hstopping hf (by simp [hw]) }
  | blockchainSync =>
    have hfalse : final = false := by
      cases final
      · rfl
      · simp [hfinal rfl] at hf
    subst hfalse
    exact
      { observing_iff := by simpa [hf] using hobserving
        future_of_stopped := fun hc => by cases hc
        current_of_blockchainRound := fun _ _ => rfl
        current_of_poolRound := fun _ hw' => by cases hw'
        current_of_waiting := fun _ hw' => by cases hw'
        final_enter := fun _ hw' => by cases hw'
        gone := fun hw' => by simp at hw'
        future_of_stopping := fun hs => by simp [hf] at hstopping; simp [h.future_of_stopping hs] at hf
        stopping_of_future := fun hf' => by cases hf' }
  | poolSync =>
    have hfalse : final = false := by
      cases final
      · rfl
      · simp [hfinal rfl] at hf
    subst hfalse
    exact
      { observing_iff := by simpa [hf] using hobserving
        future_of_stopped := fun hc => by cases hc
        current_of_blockchainRound := fun _ hw' => by cases hw'
        current_of_poolRound := fun _ _ => rfl
        current_of_waiting := fun _ hw' => by cases hw'
        final_enter := fun _ hw' => by cases hw'
        gone := fun hw' => by simp at hw'
        future_of_stopping := fun hs => by simp [h.future_of_stopping hs] at hf
        stopping_of_future := fun hf' => by cases hf' }
  | idle =>
    have hfalse : final = false := by
      cases final
      · rfl
      · simp [hfinal rfl] at hf
    subst hfalse
    exact
      { observing_iff := by simpa [hf] using hobserving
        future_of_stopped := fun hc => by cases hc
        current_of_blockchainRound := fun _ hw' => by cases hw'
        current_of_poolRound := fun _ hw' => by cases hw'
        current_of_waiting := fun _ _ => rfl
        final_enter := fun _ hw' => by cases hw'
        gone := fun hw' => by simp at hw'
        future_of_stopping := fun hs => by simp [h.future_of_stopping hs] at hf
        stopping_of_future := fun hf' => by cases hf' }

/-- The working thread goes back to the test of its loop, from a round or from
the wait, with the future state {lit}`stopped` exactly when it was. -/
theorem Inv.resume (h : Inv m) (hrunning : m.currentState ≠ .stopped) (hpresent : m.worker ≠ .absent)
    {f : State} (hstop : f = .stopped ↔ m.futureState = .stopped) :
    Inv { m with futureState := f, worker := .test } where
  observing_iff := h.observing_iff
  future_of_stopped hc := absurd hc hrunning
  current_of_blockchainRound := fun _ hw => by cases hw
  current_of_poolRound := fun _ hw => by cases hw
  current_of_waiting := fun _ hw => by cases hw
  final_enter := fun _ hw => by cases hw
  gone := fun hw => by simp at hw
  future_of_stopping hs := hstop.mpr (h.future_of_stopping hs)
  stopping_of_future hf _ := h.stopping_of_future (hstop.mp hf) hpresent

/-- The call after the loop never reaches a round or the wait. -/
theorem Inv.final_false (h : Inv m) {final : Bool} {phase : Phase}
    (hw : m.worker = .actualize final phase) (hphase : phase ≠ .enter) : final = false := by
  cases final
  · rfl
  · exact absurd (h.final_enter phase hw).1 hphase

end Preservation

/-- Every action keeps the invariant: one case per action, each from the lemma
of the method it calls. -/
theorem inv_step (m : Synchronizer) (a : Action) (h : Inv m) : Inv (step m a) := by
  cases a with
  | addConsumer c =>
    rcases step_addConsumer (m := m) c with heq | heq <;> rw [heq]
    · exact h
    · exact h.with_consumers _
  | removeConsumer c =>
    rcases step_removeConsumer (m := m) c with heq | heq <;> rw [heq]
    · exact h
    · exact h.with_consumers _
  | start =>
    simp only [step]
    split
    · exact h
    · rename_i hstopping
      cases hstart : start m with
      | error e => exact h
      | ok m' => exact h.of_start (by simpa using hstopping) hstart
  | requestStop =>
    simp only [step]
    split
    · exact h
    · exact h.requestStop
  | join =>
    simp only [step]
    split
    · rename_i hjoin
      exact h.join hjoin.2
    · exact h
  | localBlockchainUpdated | lastKnownBlockHeightUpdated =>
    simp only [step]
    split
    · rename_i hobserving
      exact h.notify hobserving (by decide)
    · exact h
  | poolChanged =>
    simp only [step]
    split
    · rename_i hobserving
      exact h.notify hobserving (by decide)
    · exact h
  | addUnconfirmedTransaction =>
    rcases step_addUnconfirmedTransaction (m := m) with heq | ⟨hrunning, -, heq⟩ <;> rw [heq]
    · exact h
    · exact h.queue hrunning _ _
  | removeUnconfirmedTransaction =>
    rcases step_removeUnconfirmedTransaction (m := m) with heq | ⟨hrunning, -, heq⟩ <;> rw [heq]
    · exact h
    · exact h.queue hrunning _ _
  | test =>
    simp only [step]
    split
    · rename_i hw
      exact h.test hw
    · exact h
  | enter =>
    simp only [step]
    split
    · rename_i final hw
      exact h.actualize hw
    · exact h
  | endRound how =>
    obtain ⟨f, hround, hstop⟩ := endRound_eq m how
    simp only [step]
    split
    · rename_i final hw
      rw [h.final_false hw (by decide), hround]
      exact h.resume (by simp [h.current_of_blockchainRound final hw]) (by simp [hw]) hstop
    · rename_i final hw
      rw [h.final_false hw (by decide), hround]
      exact h.resume (by simp [h.current_of_poolRound final hw]) (by simp [hw]) hstop
    · exact h
  | wake =>
    simp only [step]
    split
    · rename_i final hw
      split
      · rw [h.final_false hw (by decide)]
        exact h.resume (f := m.futureState) (by simp [h.current_of_waiting final hw])
          (by simp [hw]) Iff.rfl
      · exact h
    · exact h

/-- Every state that an interleaving of the actions reaches from the
constructor's satisfies the invariant. -/
theorem reachable_inv {m : Synchronizer} (hreach : Machine.Reachable step Synchronizer.init m) :
    Inv m :=
  Machine.Reachable.invariant Inv inv_init (fun m a h => inv_step m a h) hreach

/-! ## Safety over every interleaving -/

/-- Over every interleaving: the synchroniser is registered with the node
exactly while its current state is not {lit}`stopped`; once its working thread is
gone no queued transaction task is left unserved; and while a round or the idle
wait is in progress a consumer can neither be added nor removed. -/
theorem synchronizer_observes_while_running {m : Synchronizer}
    (hreach : Machine.Reachable step Synchronizer.init m) :
    (m.observing = true ↔ m.currentState ≠ .stopped) ∧
      (m.worker = .absent ∨ m.worker = .finished → m.addTasks = 0 ∧ m.removeTasks = 0) ∧
      (∀ final phase, m.worker = .actualize final phase → phase ≠ .enter →
        ∀ c, (∃ e, addConsumer m c = .error e) ∧ ∃ e, removeConsumer m c = .error e) := by
  have h := reachable_inv hreach
  refine ⟨h.observing_iff, fun hw => (h.gone hw).2, fun final phase hw hphase c => ?_⟩
  have hrunning : m.currentState ≠ .stopped := by
    cases phase with
    | enter => exact absurd rfl hphase
    | blockchainRound => simp [h.current_of_blockchainRound final hw]
    | poolRound => simp [h.current_of_poolRound final hw]
    | waiting => simp [h.current_of_waiting final hw]
  have hrefused : (!(checkIfStopped m && checkIfShouldStop m)) = true := by
    simp [checkIfStopped, hrunning]
  exact ⟨⟨_, by rw [addConsumer, if_pos hrefused]⟩, ⟨_, by rw [removeConsumer, if_pos hrefused]⟩⟩

/-- A synchroniser with one consumer, started, in its first blockchain round. -/
def syncingSample : Synchronizer :=
  [Action.addConsumer 0, .start, .test, .enter].foldl step Synchronizer.init

/-- The synchroniser in its first blockchain round. -/
theorem synchronizer_observes_while_running_syncing :
    (syncingSample.observing = true ↔ syncingSample.currentState ≠ .stopped) ∧
      (syncingSample.worker = .absent ∨ syncingSample.worker = .finished →
        syncingSample.addTasks = 0 ∧ syncingSample.removeTasks = 0) ∧
      (∀ final phase, syncingSample.worker = .actualize final phase → phase ≠ .enter →
        ∀ c, (∃ e, addConsumer syncingSample c = .error e) ∧
          ∃ e, removeConsumer syncingSample c = .error e) :=
  synchronizer_observes_while_running (Machine.Reachable.init.foldl _)

/-! ## Stopping -/

/-- The next move of the working thread from where it is, a round ending as
{lit}`how` says; a thread that is not there has no move. -/
def Worker.next (how : RoundEnd) : Worker → Action
  | .test => .test
  | .actualize _ .enter => .enter
  | .actualize _ .blockchainRound => .endRound how
  | .actualize _ .poolRound => .endRound how
  | .actualize _ .waiting => .wake
  | .absent => .wake
  | .finished => .wake

/-- A turn of an interleaving: the working thread's next move, or any action
of another thread. -/
inductive Turn where
  | worker (how : RoundEnd)
  | other (a : Action)
deriving DecidableEq, Repr

/-- One turn of an interleaving applied to the synchroniser. -/
def Turn.apply (m : Synchronizer) : Turn → Synchronizer
  | .worker how => step m (m.worker.next how)
  | .other a => step m a

/-- Whether a turn is the working thread's. -/
def Turn.isWorker : Turn → Bool
  | .worker _ => true
  | .other _ => false

/-- The moves the working thread has left once the stop is asked for. -/
def stopDistance : Worker → Nat
  | .absent => 0
  | .finished => 0
  | .actualize true _ => 1
  | .test => 2
  | .actualize false _ => 3

theorem stopDistance_le (w : Worker) : stopDistance w ≤ 3 := by
  cases w with
  | actualize final phase => cases final <;> simp [stopDistance]
  | _ => simp [stopDistance]

section Stopping

variable {m : Synchronizer}

/-- With the stop asked for, no action but {lit}`start` asks for anything else. -/
theorem futureState_step_of_stopped (hstop : m.futureState = .stopped) (a : Action)
    (ha : a ≠ .start) : (step m a).futureState = .stopped := by
  cases a with
  | start => exact absurd rfl ha
  | addConsumer c =>
    rcases step_addConsumer (m := m) c with heq | heq <;> rw [heq] <;> exact hstop
  | removeConsumer c =>
    rcases step_removeConsumer (m := m) c with heq | heq <;> rw [heq] <;> exact hstop
  | requestStop | localBlockchainUpdated | lastKnownBlockHeightUpdated | poolChanged =>
    simp only [step, setFutureState_snd]
    split <;> simp [hstop, State.toNat]
  | join =>
    simp only [step]
    split <;> simpa using hstop
  | addUnconfirmedTransaction =>
    rcases step_addUnconfirmedTransaction (m := m) with heq | ⟨-, hrunning, -⟩
    · rw [heq]
      exact hstop
    · exact absurd hstop hrunning
  | removeUnconfirmedTransaction =>
    rcases step_removeUnconfirmedTransaction (m := m) with heq | ⟨-, hrunning, -⟩
    · rw [heq]
      exact hstop
    · exact absurd hstop hrunning
  | test =>
    simp only [step]
    split <;> simpa using hstop
  | enter =>
    simp only [step]
    split
    · simp [actualizeFutureState, hstop]
    · exact hstop
  | endRound how =>
    obtain ⟨f, hround, hf⟩ := endRound_eq m how
    simp only [step]
    split
    · simpa [hround] using hf.mpr hstop
    · simpa [hround] using hf.mpr hstop
    · exact hstop
  | wake =>
    simp only [step]
    split
    · split <;> simpa using hstop
    · exact hstop

/-- With the stop asked for, no action but {lit}`start` gives the working thread
more moves to make. -/
theorem stopDistance_step_le (h : Inv m) (hstop : m.futureState = .stopped) (a : Action)
    (ha : a ≠ .start) : stopDistance (step m a).worker ≤ stopDistance m.worker := by
  cases a with
  | start => exact absurd rfl ha
  | addConsumer c =>
    rcases step_addConsumer (m := m) c with heq | heq <;> simp [heq]
  | removeConsumer c =>
    rcases step_removeConsumer (m := m) c with heq | heq <;> simp [heq]
  | requestStop | localBlockchainUpdated | lastKnownBlockHeightUpdated | poolChanged =>
    simp only [step, setFutureState_snd]
    split <;> simp
  | join =>
    simp only [step]
    split <;> simp [stopDistance]
  | addUnconfirmedTransaction =>
    rcases step_addUnconfirmedTransaction (m := m) with heq | ⟨-, hrunning, -⟩
    · simp [heq]
    · exact absurd hstop hrunning
  | removeUnconfirmedTransaction =>
    rcases step_removeUnconfirmedTransaction (m := m) with heq | ⟨-, hrunning, -⟩
    · simp [heq]
    · exact absurd hstop hrunning
  | test =>
    simp only [step]
    split
    · rename_i hw
      simp [hw, checkIfShouldStop, hstop, stopDistance]
    · simp
  | enter =>
    simp only [step]
    split
    · rename_i final hw
      cases final <;> simp [actualizeFutureState, hstop, leave, hw, stopDistance]
    · simp
  | endRound how =>
    simp only [step]
    split
    · rename_i final hw
      simp [h.final_false hw (by decide), leave, hw, stopDistance]
    · rename_i final hw
      simp [h.final_false hw (by decide), leave, hw, stopDistance]
    · simp
  | wake =>
    simp only [step]
    split
    · rename_i final hw
      split <;> simp [h.final_false hw (by decide), leave, hw, stopDistance]
    · simp

/-- With the stop asked for, each move of the working thread brings it one move
closer to returning. -/
theorem stopDistance_next_lt (h : Inv m) (hstop : m.futureState = .stopped) (how : RoundEnd)
    (hpos : 0 < stopDistance m.worker) :
    stopDistance (step m (m.worker.next how)).worker < stopDistance m.worker := by
  cases hw : m.worker with
  | absent => simp [hw, stopDistance] at hpos
  | finished => simp [hw, stopDistance] at hpos
  | test => simp [Worker.next, step, hw, checkIfShouldStop, hstop, stopDistance]
  | actualize final phase =>
    cases phase with
    | enter => cases final <;> simp [Worker.next, step, hw, actualizeFutureState, hstop, leave, stopDistance]
    | blockchainRound =>
      obtain ⟨f, hround, _⟩ := endRound_eq m how
      simp [Worker.next, step, hw, hround, h.final_false hw (by decide), leave, stopDistance]
    | poolRound =>
      obtain ⟨f, hround, _⟩ := endRound_eq m how
      simp [Worker.next, step, hw, hround, h.final_false hw (by decide), leave, stopDistance]
    | waiting =>
      simp [Worker.next, step, hw, wakes, hstop, h.final_false hw (by decide), leave, stopDistance]

/-- Along an interleaving without {lit}`start`, from a state with the stop asked
for, each move of the working thread takes one off the moves it has left. -/
theorem stopDistance_foldl (turns : List Turn) (hnostart : Turn.other .start ∉ turns) :
    ∀ m, Inv m → m.futureState = .stopped →
      stopDistance (turns.foldl Turn.apply m).worker ≤
        stopDistance m.worker - (turns.filter Turn.isWorker).length := by
  induction turns with
  | nil => intro m _ _; simp
  | cons t turns ih =>
    intro m h hstop
    have hrest : Turn.other .start ∉ turns := fun hmem => hnostart (List.mem_cons_of_mem _ hmem)
    cases t with
    | worker how =>
      have hnext : m.worker.next how ≠ .start := by
        cases hw : m.worker with
        | actualize final phase => cases phase <;> simp [Worker.next]
        | _ => simp [Worker.next]
      have h' := inv_step m (m.worker.next how) h
      have hstop' := futureState_step_of_stopped hstop _ hnext
      have hrec := ih hrest _ h' hstop'
      simp only [List.foldl_cons, Turn.apply, List.filter_cons, Turn.isWorker, if_true,
        List.length_cons] at hrec ⊢
      by_cases hpos : 0 < stopDistance m.worker
      · have := stopDistance_next_lt h hstop how hpos
        omega
      · have := stopDistance_step_le h hstop _ hnext
        omega
    | other a =>
      have ha : a ≠ .start := fun ha => hnostart (by simp [ha])
      have hrec := ih hrest _ (inv_step m a h) (futureState_step_of_stopped hstop a ha)
      have := stopDistance_step_le h hstop a ha
      simp only [List.foldl_cons, Turn.apply, List.filter_cons, Turn.isWorker,
        Bool.false_eq_true, if_false] at hrec ⊢
      omega

end Stopping

/-- Once a stop is asked for, in any interleaving in which the controller does
not start the synchroniser again, its working thread has returned after three
of its own moves, whatever the node, the wallet and the rounds do meanwhile. -/
theorem synchronizer_stop_terminates {m : Synchronizer}
    (hreach : Machine.Reachable step Synchronizer.init m) (hstop : m.futureState = .stopped)
    (turns : List Turn) (hnostart : Turn.other .start ∉ turns)
    (hmoves : 3 ≤ (turns.filter Turn.isWorker).length) :
    (turns.foldl Turn.apply m).worker = .absent ∨ (turns.foldl Turn.apply m).worker = .finished := by
  have hdist := stopDistance_foldl turns hnostart m (reachable_inv hreach) hstop
  have hle := stopDistance_le m.worker
  have hzero : stopDistance (turns.foldl Turn.apply m).worker = 0 := by omega
  cases hw : (turns.foldl Turn.apply m).worker with
  | absent => exact .inl rfl
  | finished => exact .inr rfl
  | test => simp [hw, stopDistance] at hzero
  | actualize final phase => cases final <;> simp [hw, stopDistance] at hzero

/-- A stop asked for in a round, with a failure, a new local block, a retry and a
second stop before the thread settles. -/
theorem synchronizer_stop_terminates_in_round :
    ([Turn.worker .failed, .other .localBlockchainUpdated, .worker .again, .other .requestStop,
        .worker .settled].foldl Turn.apply
      (step syncingSample .requestStop)).worker = .absent ∨
    ([Turn.worker .failed, .other .localBlockchainUpdated, .worker .again, .other .requestStop,
        .worker .settled].foldl Turn.apply
      (step syncingSample .requestStop)).worker = .finished :=
  synchronizer_stop_terminates ((Machine.Reachable.init.foldl _).step _) (by decide) _ (by decide)
    (by decide)

end BlockchainSynchronizer
end Transfers
end CryptoNote
