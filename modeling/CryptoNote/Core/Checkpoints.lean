import Mathlib.Data.List.AList
import CryptoNote.Types

/-!
# Checkpoints and the hard-fork schedule

Two lookups the chain makes into its configuration.  {lit}`Checkpoints` of
{lit}`checkpoints.cpp` is a map from heights to the block hashes the network
fixed there; the chain asks whether a height is in the zone the checkpoints
cover, whether a hash agrees with the checkpoint at its height, and whether an
alternative block may still be accepted at a height.  {lit}`HardFork` of
{lit}`hardfork.cpp` maps a height to the block major version scheduled for it.

The checkpoint map of {lit}`std::map` is kept as an association list, unique by
height.  The code reads the order of its keys twice: the largest key, and the
largest key up to a height.  A height is at most the largest key exactly when it
is at most some key, and the largest key up to a height is below another height
exactly when every key up to the first is; the model states the two tests over
all keys that way.

Main results:

- Theorem {lit}`isCheckpoint_of_lookup`: a height that carries a checkpoint is in
  the checkpoint zone.
- Theorem {lit}`check_of_lookup`: {lit}`check` accepts a hash at a checkpoint
  height exactly when it is the checkpoint's hash.
- Theorem {lit}`getMajorVersion_mainnet_one`: the mainnet schedule asks for
  version 1 below height 198000.
-/

namespace CryptoNote

/-- {lit}`Checkpoints`: the map {lit}`m_points` from heights to block hashes. -/
structure Checkpoints where
  points : AList fun _ : UInt32 => Hash

namespace Checkpoints

/-- No checkpoints, as the mainnet configuration has. -/
def empty : Checkpoints := ⟨∅⟩

/-- {lit}`isCheckpoint`: the map is not empty and the height is at most its
largest key. -/
def isCheckpoint (checkpoints : Checkpoints) (height : UInt32) : Bool :=
  checkpoints.points.keys.any fun last => height ≤ last

/-- {lit}`check(height, h, is_a_checkpoint)`: whether the hash agrees with the
checkpoint at the height, and whether there is one. -/
def check (checkpoints : Checkpoints) (height : UInt32) (hash : Hash) : Bool × Bool :=
  match checkpoints.points.lookup height with
  | none => (true, false)
  | some expected => (expected = hash, true)

/-- {lit}`isAllowed`: an alternative block is allowed above the last checkpoint the
chain has reached, and never at height 0. -/
def isAllowed (checkpoints : Checkpoints) (blockchainHeight blockHeight : UInt32) : Bool :=
  if blockHeight = 0 then false
  else
    -- the entry before {lit}`upper_bound(blockchain_height)`, if any, is below the block
    checkpoints.points.keys.all fun checkpointHeight =>
      checkpointHeight ≤ blockchainHeight → checkpointHeight < blockHeight

theorem isCheckpoint_of_lookup {checkpoints : Checkpoints} {height : UInt32} {hash : Hash}
    (h : checkpoints.points.lookup height = some hash) : checkpoints.isCheckpoint height = true := by
  have hmem : height ∈ checkpoints.points.keys :=
    AList.mem_keys.mp (AList.lookup_isSome.mp (by simp [h]))
  simp only [isCheckpoint, List.any_eq_true, decide_eq_true_eq]
  exact ⟨height, hmem, UInt32.le_refl height⟩

theorem check_of_lookup {checkpoints : Checkpoints} {height : UInt32} {expected : Hash}
    (h : checkpoints.points.lookup height = some expected) (hash : Hash) :
    checkpoints.check height hash = (decide (expected = hash), true) := by
  simp [check, h]

end Checkpoints

/-! ## The hard-fork schedule -/

/-- The fields of {lit}`hard_fork_t` that {lit}`getMajorVersion` reads. -/
structure HardForkEntry where
  version : UInt8
  height : UInt64
deriving DecidableEq, Repr

/-- {lit}`HardFork::getMajorVersion`: the version of the last entry, in list
order, whose height is at most the given one, or 1 before the first. -/
def getMajorVersion (hardforks : List HardForkEntry) (height : UInt64) : UInt8 :=
  go 1 hardforks
where
  go (version : UInt8) : List HardForkEntry → UInt8
    | [] => version
    | entry :: entries => if entry.height > height then version else go entry.version entries

/-- The mainnet schedule of {lit}`config/mainnet.cpp`. -/
def mainnetHardforks : List HardForkEntry := [⟨1, 1⟩, ⟨7, 198000⟩]

theorem getMajorVersion_mainnet_one {height : UInt64} (h : height < 198000) :
    getMajorVersion mainnetHardforks height = 1 := by
  have hlt : (198000 : UInt64) > height := h
  by_cases hone : (1 : UInt64) > height
  · simp [getMajorVersion, getMajorVersion.go, mainnetHardforks, hone]
  · simp [getMajorVersion, getMajorVersion.go, mainnetHardforks, hone, hlt]

end CryptoNote
