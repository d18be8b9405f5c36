import CryptoNote.Core.Reorganisation

/-!
# Checkpoint safety

A checkpoint fixes the hash of the block at a height.  The chain enforces its
checkpoints in three places: {lit}`pushBlock` checks the hash of a block pushed
in the checkpoint zone against the checkpoint at its height,
{lit}`handle_alternative_block` checks an alternative block against the
checkpoint at its height before it files it, and a reorganisation moves blocks
between the main chain only through {lit}`pushBlock` and {lit}`popBlock`.

The invariant says that the main blocks at checkpoint heights and the
alternative blocks at checkpoint heights have the checkpoints' hashes, and
that each alternative block is filed under its own hash.  It reads only the
main blocks, the alternative blocks and the checkpoint map, so every operation
that keeps those three keeps it; the others are checked one by one, and the
recursion between {lit}`handle_alternative_block` and
{lit}`switch_to_alternative_blockchain` is followed by induction on its fuel.

Main results:

- Theorem {lit}`checkpointSafe_handleAlternativeBlock`: filing an alternative
  block, with every reorganisation and rollback it starts, keeps the invariant.
- Theorem {lit}`checkpointSafe_addNewBlock`: so does every call of
  {lit}`addNewBlock`, and {lit}`init` sets it up.
-/

namespace CryptoNote

namespace Blockchain

variable (currency : Currency) (env : ChainEnv)

open StateExcept

/-! ## The invariant -/

section Invariant

variable (C : Checkpoints)

/-- Every main block at a checkpoint height has the checkpoint's hash. -/
def MainSafe (blocks : List BlockEntry) : Prop :=
  ∀ h H, C.points.lookup h = some H → h.toNat < blocks.length →
    env.blockHash (blocks.getD h.toNat default).bl = H

/-- Every alternative block is filed under its own hash, and at a checkpoint
height that hash is the checkpoint's. -/
def AltSafe (alternativeChains : Finmap fun _ : Hash => BlockEntry) : Prop :=
  ∀ id entry, alternativeChains.lookup id = some entry →
    env.blockHash entry.bl = id ∧ ∀ H, C.points.lookup entry.height = some H → id = H

/-- The checkpoint invariant of a chain that checks against the checkpoints
{lit}`C`. -/
structure CheckpointSafe (s : Blockchain) : Prop where
  checkpoints_eq : s.checkpoints = C
  main : MainSafe env C s.blocks
  alternative : AltSafe env C s.alternativeChains

variable {env C}

theorem MainSafe.of_prefix {blocks blocks' : List BlockEntry} (hpre : blocks <+: blocks')
    (hsafe : MainSafe env C blocks') : MainSafe env C blocks := by
  intro h H hlookup hlt
  have hlt' : h.toNat < blocks'.length := lt_of_lt_of_le hlt hpre.length_le
  rw [List.getD_eq_getElem _ _ hlt, hpre.getElem hlt, ← List.getD_eq_getElem _ default hlt']
  exact hsafe h H hlookup hlt'

/-- A block appended at a height with a checkpoint must carry its hash. -/
theorem MainSafe.append {blocks : List BlockEntry} {entry : BlockEntry}
    (hsafe : MainSafe env C blocks)
    (hentry : ∀ h H, C.points.lookup h = some H → h.toNat = blocks.length →
      env.blockHash entry.bl = H) :
    MainSafe env C (blocks ++ [entry]) := by
  intro h H hlookup hlt
  rw [List.length_append, List.length_singleton] at hlt
  rcases Nat.lt_succ_iff_lt_or_eq.mp hlt with hold | hnew
  · rw [List.getD_append _ _ _ _ hold]
    exact hsafe h H hlookup hold
  · rw [hnew, List.getD_append_right _ _ _ _ le_rfl, Nat.sub_self]
    exact hentry h H hlookup hnew

/-- Erasing an alternative block keeps the others at their checkpoints. -/
theorem AltSafe.erase {alternativeChains : Finmap fun _ : Hash => BlockEntry} (hash : Hash)
    (hsafe : AltSafe env C alternativeChains) : AltSafe env C (alternativeChains.erase hash) := by
  intro id entry hlookup
  by_cases hid : id = hash
  · rw [hid, Finmap.lookup_erase] at hlookup
    cases hlookup
  · rw [Finmap.lookup_erase_ne hid] at hlookup
    exact hsafe id entry hlookup

/-- A block filed under its own hash, after a check against the checkpoint at
its height. -/
theorem AltSafe.insert {alternativeChains : Finmap fun _ : Hash => BlockEntry} {id : Hash}
    {entry : BlockEntry} (hsafe : AltSafe env C alternativeChains)
    (hkey : env.blockHash entry.bl = id)
    (hcheck : ∀ H, C.points.lookup entry.height = some H → id = H) :
    AltSafe env C (alternativeChains.insert id entry) := by
  intro id' entry' hlookup
  by_cases hid : id' = id
  · subst hid
    rw [Finmap.lookup_insert] at hlookup
    cases hlookup
    exact ⟨hkey, hcheck⟩
  · rw [Finmap.lookup_insert_of_ne _ hid] at hlookup
    exact hsafe id' entry' hlookup

theorem CheckpointSafe.of_chainView {s t : Blockchain} (hview : t.chainView = s.chainView)
    (hsafe : CheckpointSafe env C s) : CheckpointSafe env C t := by
  simp only [chainView, Prod.mk.injEq] at hview
  obtain ⟨hblocks, halt, hcheckpoints⟩ := hview
  exact ⟨hcheckpoints ▸ hsafe.checkpoints_eq, hblocks ▸ hsafe.main,
    halt ▸ hsafe.alternative⟩

/-- {lit}`check` accepts a hash at a checkpoint height only if it is the
checkpoint's hash. -/
theorem hash_eq_of_check {checkpoints : Checkpoints} {height : UInt32} {hash H : Hash}
    (hchecked : (checkpoints.check height hash).1 = true)
    (hlookup : checkpoints.points.lookup height = some H) : hash = H := by
  rw [Checkpoints.check_of_lookup hlookup] at hchecked
  exact (of_decide_eq_true hchecked).symm

theorem checkpointSafe_empty (pool : TxMemoryPool) : CheckpointSafe env C (empty C pool) where
  checkpoints_eq := rfl
  main := fun _ _ _ hlt => absurd hlt (Nat.not_lt_zero _)
  alternative := fun _ _ hlookup => by simp [empty] at hlookup

end Invariant

/-! ## The main chain -/

section MainChain

variable {env} {C : Checkpoints}

/-- A block that passes the header checks of {lit}`pushBlock` at a height with a
checkpoint carries the checkpoint's hash: the height is in the checkpoint zone,
where the hash is checked in place of the proof of work. -/
theorem blockHash_of_headerDifficulty {now difficulty : UInt64} {s : Blockchain} {block : Block}
    (hcheckpoints : s.checkpoints = C)
    (hheader : headerDifficulty currency env now s block = some difficulty)
    {h : UInt32} {H : Hash} (hlookup : C.points.lookup h = some H)
    (hheight : h.toNat = s.blocks.length) :
    env.blockHash block = H := by
  have hwork := ((headerDifficulty_eq_some currency env).mp hheader).2.2.2.2.2.1
  have hh : s.getHeight = h := by
    rw [getHeight, ← hheight]
    exact UInt32.ofNat_toNat
  subst hcheckpoints
  rw [checkBlockWork, hh, if_pos (Checkpoints.isCheckpoint_of_lookup hlookup),
    Checkpoints.check_of_lookup hlookup] at hwork
  exact (of_decide_eq_true hwork).symm

/-- The checkpoint invariant survives a pop, and a push after the header checks. -/
theorem checkpointSafe_stable : MainChainStable currency env (CheckpointSafe env C) where
  of_chainView hview hs := hs.of_chainView hview
  dropLast hview hs := by
    simp only [chainView, Prod.mk.injEq] at hview
    obtain ⟨hblocks, halt, hcheckpoints⟩ := hview
    exact ⟨hcheckpoints ▸ hs.checkpoints_eq,
      hblocks ▸ hs.main.of_prefix (List.dropLast_prefix _), halt ▸ hs.alternative⟩
  append hheader hbl hview hs := by
    simp only [chainView, Prod.mk.injEq] at hview
    obtain ⟨hblocks, halt, hcheckpoints⟩ := hview
    refine ⟨hcheckpoints ▸ hs.checkpoints_eq, ?_, halt ▸ hs.alternative⟩
    rw [hblocks]
    refine hs.main.append fun h H hlookup hheight => ?_
    rw [hbl]
    exact blockHash_of_headerDifficulty currency hs.checkpoints_eq hheader hlookup hheight

end MainChain

/-! ## Alternative blocks and reorganisations -/

section Alternative

variable {env} {C : Checkpoints}

/-- The main-chain operations keep the invariant. -/
theorem checkpointSafe_rollbackBlockchainSwitching (now : UInt64) (originalChain : List Block)
    (rollbackHeight : Nat) :
    Preserves (CheckpointSafe env C)
      (rollbackBlockchainSwitching currency env now originalChain rollbackHeight) :=
  (checkpointSafe_stable currency).preserves_rollbackBlockchainSwitching now originalChain
    rollbackHeight

theorem checkpointSafe_pushBlock (now : UInt64) (block : Block) :
    Preserves (CheckpointSafe env C) (pushBlock currency env now block) :=
  (checkpointSafe_stable currency).preserves_pushBlock now block

/-- Erasing alternative blocks keeps the chain checkpoint-safe. -/
theorem checkpointSafe_eraseAlternativeBlocks (entries : List (Hash × BlockEntry)) :
    Preserves (CheckpointSafe env C) (eraseAlternativeBlocks env entries) := by
  induction entries with
  | nil => exact Preserves.pure _
  | cons entry entries ih =>
    obtain ⟨hash, entry⟩ := entry
    refine Preserves.get_bind_preserves fun s hs => ?_
    split
    · exact Preserves.throw _
    · exact Preserves.bind
        (Preserves.set ⟨hs.checkpoints_eq, hs.main, hs.alternative.erase hash⟩) fun _ => ih

/-- Filing the disconnected blocks again keeps the invariant if filing one block
under its own hash does. -/
theorem checkpointSafe_handleDisconnected {handleAlternative : Block → Hash → ChainM Bool}
    (hhandle : ∀ block,
      Preserves (CheckpointSafe env C) (handleAlternative block (env.blockHash block)))
    (blocks : List Block) :
    Preserves (CheckpointSafe env C) (handleDisconnected env handleAlternative blocks) := by
  induction blocks with
  | nil => exact Preserves.pure _
  | cons block blocks ih =>
    exact Preserves.bind (hhandle block) fun _ =>
      Preserves.ite (fun _ => Preserves.pure _) fun _ => ih

/-- Connecting the blocks of an alternative chain keeps the chain
checkpoint-safe. -/
theorem checkpointSafe_connectAlternative (now : UInt64) (disconnected : List Block)
    (splitHeight : Nat) (entries : List (Hash × BlockEntry)) :
    Preserves (CheckpointSafe env C)
      (connectAlternative currency env now disconnected splitHeight entries) := by
  induction entries with
  | nil => exact Preserves.pure _
  | cons entry entries ih =>
    obtain ⟨hash, entry⟩ := entry
    -- a refused block rolls the chain back and drops the rest of the alternative chain
    exact Preserves.bind (checkpointSafe_pushBlock currency now entry.bl) fun _ =>
      Preserves.ite (fun _ => ih) fun _ =>
        Preserves.bind (checkpointSafe_rollbackBlockchainSwitching currency now _ _) fun _ =>
          Preserves.bind (checkpointSafe_eraseAlternativeBlocks _) fun _ => Preserves.pure _

/-- A switch to an alternative chain keeps the chain checkpoint-safe, given that
handling a disconnected block as an alternative one does. -/
theorem checkpointSafe_switchToAlternativeBlockchain
    {handleAlternative : Block → Hash → ChainM Bool}
    (hhandle : ∀ block,
      Preserves (CheckpointSafe env C) (handleAlternative block (env.blockHash block)))
    (now : UInt64) (altChain : List (Hash × BlockEntry)) (discardDisconnectedChain : Bool) :
    Preserves (CheckpointSafe env C)
      (switchToAlternativeBlockchain currency env handleAlternative now altChain
        discardDisconnectedChain) := by
  unfold switchToAlternativeBlockchain
  split
  · exact Preserves.pure _
  · refine Preserves.get_bind_preserves fun s _ => ?_
    refine Preserves.ite (fun _ => Preserves.pure _) fun _ => ?_
    refine Preserves.bind ((checkpointSafe_stable currency).preserves_popBlocks now _)
      fun disconnected => ?_
    refine Preserves.bind (checkpointSafe_connectAlternative currency now disconnected _ altChain)
      fun _ => Preserves.ite (fun _ => Preserves.pure _) fun _ => ?_
    have hend : Preserves (CheckpointSafe env C)
        (do eraseAlternativeBlocks env altChain; pure true : ChainM Bool) :=
      Preserves.bind (checkpointSafe_eraseAlternativeBlocks altChain) fun _ => Preserves.pure _
    refine Preserves.ite (fun _ => ?_) fun _ => hend
    exact Preserves.bind (checkpointSafe_handleDisconnected hhandle disconnected) fun _ =>
      Preserves.ite
        (fun _ => Preserves.bind (checkpointSafe_rollbackBlockchainSwitching currency now _ _)
          fun _ => Preserves.pure _)
        fun _ => hend

/-- Filing an alternative block under its own hash keeps the invariant, with the
reorganisations it starts: by induction on the fuel, each reorganisation files
the blocks it disconnects with one unit less. -/
theorem checkpointSafe_handleAlternativeBlock (now : UInt64) (fuel : Nat) (block : Block) :
    Preserves (CheckpointSafe env C)
      (handleAlternativeBlock currency env now fuel block (env.blockHash block)) := by
  induction fuel generalizing block with
  | zero => exact Preserves.throw _
  | succ fuel ih =>
    refine Preserves.get_bind_preserves fun s hs => ?_
    dsimp only
    -- the checks before the block is filed return without a change
    refine Preserves.ite (fun _ => Preserves.pure _) fun _ => ?_
    refine Preserves.ite (fun _ => Preserves.pure _) fun _ => ?_
    refine Preserves.ite (fun _ => Preserves.pure _) fun _ => ?_
    refine Preserves.ite (fun _ => Preserves.pure _) fun _ => ?_
    split
    · refine Preserves.ite (fun _ => Preserves.pure _) fun _ => ?_
      refine Preserves.ite (fun _ => Preserves.pure _) fun hchecked => ?_
      rw [Bool.not_eq_true, Bool.not_eq_false', hs.checkpoints_eq] at hchecked
      refine Preserves.ite (fun _ => Preserves.pure _) fun _ => ?_
      refine Preserves.ite (fun _ => Preserves.pure _) fun _ => ?_
      refine Preserves.ite (fun _ => Preserves.pure _) fun _ => ?_
      refine Preserves.ite (fun _ => Preserves.pure _) fun _ => ?_
      -- the block is filed under its hash, whether the orphan index takes it or not
      have hswitch := checkpointSafe_switchToAlternativeBlockchain currency ih now
      split
      · exact Preserves.bind (Preserves.set ⟨hs.checkpoints_eq, hs.main,
          hs.alternative.insert rfl fun _ => hash_eq_of_check hchecked⟩) fun _ =>
          Preserves.throw _
      · exact Preserves.bind (Preserves.set ⟨hs.checkpoints_eq, hs.main,
          hs.alternative.insert rfl fun _ => hash_eq_of_check hchecked⟩) fun _ =>
          Preserves.ite (fun _ => hswitch _ true) fun _ =>
            Preserves.ite (fun _ => hswitch _ false) fun _ => Preserves.pure _
    · exact Preserves.pure _

theorem checkpointSafe_addNewBlock (fuel : Nat) (now : UInt64) (block : Block) :
    Preserves (CheckpointSafe env C) (addNewBlock currency env fuel now block) :=
  Preserves.get_bind_preserves fun _ _ =>
    Preserves.ite (fun _ => Preserves.pure _) fun _ =>
      Preserves.ite (fun _ => checkpointSafe_handleAlternativeBlock currency now fuel block)
        fun _ => checkpointSafe_pushBlock currency now block

theorem checkpointSafe_init (now : UInt64) :
    Preserves (CheckpointSafe env C) (init currency env now) :=
  Preserves.bind (checkpointSafe_pushBlock currency now _) fun _ =>
    Preserves.ite (fun _ => Preserves.pure _) fun _ =>
      Preserves.bind (Preserves.modify fun t ht => CheckpointSafe.of_chainView (s := t) rfl ht)
        fun _ => Preserves.pure _

end Alternative

/-! ## Every run from the genesis block -/

section Runs

/-- Every chain that {lit}`add_new_block` reaches from the genesis is
checkpoint-safe. -/
theorem checkpointSafe_of_reachable {C : Checkpoints} {pool : TxMemoryPool} {now : UInt64}
    {s : Blockchain}
    (hreach : Machine.Reachable (addNewBlockStep currency env)
      (genesisChain currency env C pool now) s) :
    CheckpointSafe env C s :=
  Machine.Reachable.invariant (CheckpointSafe env C)
    (checkpointSafe_init currency now _ (checkpointSafe_empty pool))
    (fun s call hs => checkpointSafe_addNewBlock currency call.1 call.2.1 call.2.2 s hs) hreach

/-- On every chain that {lit}`add_new_block` reaches from the genesis, a
checkpointed height below the top holds the checkpoint's hash, and so does every
alternative block filed at a checkpointed height. -/
theorem addNewBlock_respects_checkpoints {C : Checkpoints} {pool : TxMemoryPool} {now : UInt64}
    {s : Blockchain}
    (hreach : Machine.Reachable (addNewBlockStep currency env)
      (genesisChain currency env C pool now) s) :
    (∀ h H, C.points.lookup h = some H → h < s.getHeight →
      env.blockHash (s.blocks.getD h.toNat default).bl = H) ∧
    ∀ id entry, s.alternativeChains.lookup id = some entry → ∀ H,
      C.points.lookup entry.height = some H → id = H ∧ env.blockHash entry.bl = H := by
  have hsafe := checkpointSafe_of_reachable currency env hreach
  refine ⟨fun h H hlookup hlt => hsafe.main h H hlookup ?_, fun id entry hlookup H hcheck => ?_⟩
  · rw [UInt32.lt_iff_toNat_lt, getHeight, UInt32.toNat_ofNat'] at hlt
    exact lt_of_lt_of_le hlt (Nat.mod_le _ _)
  · obtain ⟨hkey, hcheckpoint⟩ := hsafe.alternative id entry hlookup
    have hid := hcheckpoint H hcheck
    exact ⟨hid, hkey.trans hid⟩

/-- A checkpoint at height 1, on the first block of the sample main chain. -/
def firstBlockCheckpoint : Checkpoints :=
  ⟨(∅ : AList fun _ : UInt32 => Hash).insert 1 (reorgEnv.blockHash (reorgMain.headD default))⟩

/-- The chain that the first two blocks of the sample main chain build on the
genesis block under that checkpoint. -/
def checkpointedChain : Blockchain :=
  ((reorgMain.take 2).map fun block => (8, 0, block)).foldl (addNewBlockStep reorgCurrency reorgEnv)
    (genesisChain reorgCurrency reorgEnv firstBlockCheckpoint .empty 0)

/-- A run from the genesis block past the checkpoint keeps to it. -/
theorem addNewBlock_respects_checkpoints_past :
    Machine.Reachable (addNewBlockStep reorgCurrency reorgEnv)
        (genesisChain reorgCurrency reorgEnv firstBlockCheckpoint .empty 0) checkpointedChain ∧
      (1 : UInt32) < checkpointedChain.getHeight ∧
      (∀ h H, firstBlockCheckpoint.points.lookup h = some H → h < checkpointedChain.getHeight →
        reorgEnv.blockHash (checkpointedChain.blocks.getD h.toNat default).bl = H) ∧
      ∀ id entry, checkpointedChain.alternativeChains.lookup id = some entry →
        ∀ H, firstBlockCheckpoint.points.lookup entry.height = some H →
          id = H ∧ reorgEnv.blockHash entry.bl = H := by
  have hreach : Machine.Reachable (addNewBlockStep reorgCurrency reorgEnv)
      (genesisChain reorgCurrency reorgEnv firstBlockCheckpoint .empty 0) checkpointedChain :=
    Machine.Reachable.init.foldl _
  exact ⟨hreach, by decide +kernel, addNewBlock_respects_checkpoints reorgCurrency reorgEnv hreach⟩

end Runs

end Blockchain

end CryptoNote
