import CryptoNote.Transfers.BlockchainSynchronizer
import CryptoNote.Core.QueryBlocks

/-!
# A round of synchronisation between a wallet and its node

The two parties of {lit}`startBlockchainSync`: the synchroniser sends the short
history of its consumer for the node's top height, the in-process node answers
with {lit}`core::queryBlocksLite` ({lit}`InProcessNode::doQueryBlocksLite`), and
the synchroniser hands the answer to the consumer
(src/transfers/BlockchainSynchronizer.cpp, src/InProcessNode/InProcessNode.cpp).

Block ids are hashes that commit to the previous block's hash, so a block of the
wallet's chain that the node's chain holds stands on the same blocks in both
({lit}`Linked`).  Under that, the first id of the short history the node
knows is a height where the two chains agree all the way down, and the node's
answer is a window of its chain from there.

Main results:

- Theorem {lit}`startBlockchainSync_eq`: the round starts at the first height of
  the short history whose id the node holds, below which the two chains agree,
  and hands the consumer the {lit}`answerLength` ids of the node's chain from
  there.
- Theorem {lit}`startBlockchainSync_one_consumer`: after a round the consumer's
  chain is unchanged, when it already holds the window, or a prefix of the
  node's chain: the node's chain up to the end of the window when it takes the
  blocks, up to a height in the window when it refuses them.
- Theorem {lit}`syncRound_reaches_node`: a consumer on a prefix of the node's
  chain that takes the blocks it is given reaches the node's whole chain,
  gaining at least {lit}`199` blocks a round.
- Theorem {lit}`syncRound_iterate_eq_or_prefix`: over any number of rounds a
  consumer's chain is the one it started from or a prefix of the node's.
- Theorem {lit}`syncRound_stalls`: a consumer whose chain holds the node's window
  is never moved; on a fork deeper than the gaps of the short history this
  leaves the wallet on its own branch for good ({lit}`syncRound_stalls_deepFork`).

Over a run of rounds the node's chain stays the same.
-/

namespace CryptoNote
namespace Transfers

open CryptoNote.Core

/-! ## The node's side and the round -/

/-- What {lit}`InProcessNode::doQueryBlocksLite` makes of an entry of the
core's answer: the block parsed back when it was sent, a value-initialised one
otherwise, and the transactions' prefixes and hashes. -/
def toBlockShortEntry (info : BlockShortInfo) : BlockShortEntry :=
  { blockHash := info.blockId, hasBlock := info.block.isSome, block := info.block.getD default,
    txsShortInfo := info.txPrefixes.map fun p => { txId := p.2, txPrefix := p.1 } }

/-- {lit}`InProcessNode::doQueryBlocksLite`: the core's answer as the entries
the synchroniser reads; {lit}`none`, the node's internal error, when the core
refuses the history. -/
def doQueryBlocksLite (currency : Currency) (env : ChainEnv) (node : Blockchain)
    (knownBlockIds : List Hash) (timestamp : UInt64) : Option GetBlocksResponse :=
  (queryBlocksLite currency env node knownBlockIds timestamp).map fun r =>
    { startHeight := r.startHeight, newBlocks := r.entries.map toBlockShortEntry }

/-- {lit}`startBlockchainSync` against an in-process node: the consumers' common
history for the node's top height ({lit}`getLastLocalBlockHeight`), the node's
answer, and {lit}`processBlocks`.  It is {lit}`none` where nothing reaches the
consumers: an empty history, a refused query (the source only reports it), or
a history loop still running when its fuel is spent. -/
def startBlockchainSync (currency : Currency) (env : ChainEnv) (node : Blockchain) (fuel : Nat)
    (consumers : List (Consumer × SynchronizationState)) :
    Option (UpdateConsumersResult × List (Consumer × SynchronizationState)) :=
  (getCommonHistory (node.getHeight - 1) fuel consumers).bind fun request =>
    if request.knownBlocks = [] then none
    else
      (doQueryBlocksLite currency env node request.knownBlocks
          request.syncStart.timestamp).map fun response =>
        processBlocks env.transactionHash response consumers

/-! ## Chains whose ids carry their history -/

/-- A block of the chain {lit}`L` that the chain {lit}`N` holds stands on the
same blocks in both. -/
def Linked (L N : List Hash) : Prop :=
  ∀ i (hi : i < L.length), L[i] ∈ N → L.take (i + 1) <+: N

section Linked

variable {L N : List Hash}

/-- A prefix of a chain is linked to it. -/
theorem Linked.of_prefix (h : L <+: N) : Linked L N :=
  fun _ _ _ => (List.take_prefix _ _).trans h

/-- A chain that leaves {lit}`N` at some height, with no id of {lit}`N`
above, is linked to it. -/
theorem Linked.of_fork {R : List Hash} (f : Nat) (hfork : ∀ x ∈ R, x ∉ N) :
    Linked (N.take f ++ R) N := by
  intro i hi hmem
  by_cases hlt : i < (N.take f).length
  · rw [List.take_append_of_le_length (by omega)]
    exact (List.take_prefix _ _).trans (List.take_prefix _ _)
  · rw [List.getElem_append_right (by omega)] at hmem
    exact absurd hmem (hfork _ (List.getElem_mem _))

/-- Below a height whose id both chains hold, they agree. -/
theorem Linked.take_eq (hlinked : Linked L N) {i : Nat} (hi : i < L.length)
    (hmem : L.getD i default ∈ N) : L.take (i + 1) = N.take (i + 1) := by
  rw [List.getD_eq_getElem _ _ hi] at hmem
  have hpre := List.prefix_iff_eq_take.mp (hlinked i hi hmem)
  rwa [List.length_take, Nat.min_eq_left (by omega)] at hpre

/-- At a height whose id both chains hold, the node's chain has it at the same
height. -/
theorem Linked.getD_eq (hlinked : Linked L N) {i : Nat} (hi : i < L.length)
    (hmem : L.getD i default ∈ N) : i < N.length ∧ N.getD i default = L.getD i default := by
  have htake := hlinked.take_eq hi hmem
  have hlen : i < N.length := by
    have := congrArg List.length htake
    simp only [List.length_take] at this
    omega
  refine ⟨hlen, ?_⟩
  have hget := List.getElem_of_eq htake (i := i) (by simp; omega)
  simp only [List.getElem_take] at hget
  rw [List.getD_eq_getElem _ _ hi, List.getD_eq_getElem _ _ hlen, hget]

/-- Searching the node's index with the ids at some heights of a linked chain
finds the first of those heights whose id the node holds. -/
theorem findSupplement_heights (hnodup : N.Nodup) (hlinked : Linked L N) :
    ∀ (heights : List Nat) (s : Nat), (∀ h ∈ heights, h < L.length) →
      heights.find? (fun h => decide (L.getD h default ∈ N)) = some s →
      BlockIndex.findSupplement N (heights.map fun h => L.getD h default) = some s.toUInt32
  | [], _, _, hfind => by simp at hfind
  | h :: heights, s, hbound, hfind => by
    have hh := hbound h List.mem_cons_self
    rw [List.map_cons, BlockIndex.findSupplement, List.findSome?_cons]
    by_cases hmem : L.getD h default ∈ N
    · rw [List.find?_cons_of_pos (by simpa using hmem), Option.some.injEq] at hfind
      subst hfind
      obtain ⟨hlen, hid⟩ := hlinked.getD_eq hh hmem
      rw [← hid, BlockIndex.getBlockHeight_getD hnodup hlen]
    · rw [List.find?_cons_of_neg (by simpa using hmem)] at hfind
      rw [BlockIndex.getBlockHeight_of_not_mem hmem]
      exact findSupplement_heights hnodup hlinked heights s
        (fun h' hh' => hbound h' (List.mem_cons_of_mem _ hh')) hfind

end Linked

/-! ## One round with one consumer -/

section Round

variable (currency : Currency) (env : ChainEnv) {node : Blockchain} (fuel : Nat)
  (consumer : Consumer) {L : List Hash}

/-- The node's top height, one below its number of blocks. -/
theorem toNat_getHeight_sub_one (hne : node.blocks ≠ []) (hlength : node.blocks.length < 2 ^ 32) :
    (node.getHeight - 1).toNat = node.blocks.length - 1 := by
  have hpos : 0 < node.blocks.length := List.length_pos_iff.mpr hne
  have hheight : node.getHeight.toNat = node.blocks.length := by
    rw [Blockchain.getHeight, Nat.toUInt32_eq, UInt32.toNat_ofNat', Nat.mod_eq_of_lt hlength]
  have hle : (1 : UInt32) ≤ node.getHeight := by
    rw [UInt32.le_iff_toNat_le, hheight]
    exact hpos
  rw [UInt32.toNat_sub_of_le _ _ hle, hheight]
  rfl

/-- The common history of a single consumer is its own short history. -/
theorem getCommonHistory_single (localHeight : UInt32) (state : SynchronizationState) :
    getCommonHistory localHeight fuel [(consumer, state)] =
      (state.getShortHistory localHeight fuel).map fun knownBlocks =>
        { knownBlocks, syncStart := consumer.getSyncStart } := rfl

/-- The ids the synchroniser reads off the node's answer are the core's. -/
theorem blockHashes_doQueryBlocksLite (entries : List BlockShortInfo) :
    (entries.map toBlockShortEntry).map (·.blockHash) = entries.map (·.blockId) := by
  rw [List.map_map]
  rfl

/-- A height below the wrap of {lit}`uint32_t` survives the round trip through
it. -/
theorem toNat_toUInt32_of_lt {n : Nat} (h : n < 2 ^ 32) : n.toUInt32.toNat = n := by
  rw [Nat.toUInt32_eq, UInt32.toNat_ofNat', Nat.mod_eq_of_lt h]

/-- A round with one consumer, between chains whose ids carry their history:
it starts at the first height of the consumer's short history whose id the node
holds, below which the two chains agree, and hands the consumer the
{lit}`answerLength` ids of the node's chain from there, with the full offset
the lower bound of the consumer's time. -/
theorem startBlockchainSync_eq
    (hindex : node.blockIndex = node.blocks.map fun e => env.blockHash e.bl)
    (hnodup : node.blockIndex.Nodup) (hnode : node.blocks.length + 200 < 2 ^ 32)
    (hne : node.blocks ≠ []) (hpos : L ≠ [])
    (hgenesis : L.getD 0 default = node.blockIndex.getD 0 default)
    (hlinked : Linked L node.blockIndex) (hsmall : L.length ≤ 2 ^ 31) (hfuel : 40 ≤ fuel) :
    ∃ (s : Nat) (full : UInt32) (blocks : List CompleteBlock),
      (shortHistoryHeights (min L.length node.blocks.length)).find?
          (fun h => decide (L.getD h default ∈ node.blockIndex)) = some s ∧
      s < L.length ∧ L.take (s + 1) = node.blockIndex.take (s + 1) ∧
      full = (node.getLowerBound currency consumer.getSyncStart.timestamp
        s.toUInt32.toUInt64).getD s.toUInt32 ∧
      startBlockchainSync currency env node fuel [(consumer, ⟨L⟩)] =
        some (updateConsumers ⟨s.toUInt32, (node.blockIndex.drop s).take
          (answerLength s full.toNat)⟩ blocks [(consumer, ⟨L⟩)]) := by
  have hLpos : 0 < L.length := List.length_pos_iff.mpr hpos
  have hNpos : 0 < node.blocks.length := List.length_pos_iff.mpr hne
  have hlen := length_blockIndex_of_eq hindex
  have htop := toNat_getHeight_sub_one hne (by omega)
  have hsize : (SynchronizationState.mk L).historySize (node.getHeight - 1) =
      min L.length node.blocks.length := by
    simp only [SynchronizationState.historySize, htop]
    omega
  have hhistory := getShortHistory_eq ⟨L⟩ (node.getHeight - 1) fuel (by simp; omega)
    (by rw [htop]; omega) (by rw [hsize]; omega) (by rw [hsize]; omega) hfuel
  rw [hsize] at hhistory
  set heights := shortHistoryHeights (min L.length node.blocks.length) with hheights
  have hzero : 0 ∈ heights := List.mem_of_getLast? getLast?_shortHistoryHeights
  have hgenesisMem : L.getD 0 default ∈ node.blockIndex := by
    rw [hgenesis, List.getD_eq_getElem _ _ (by omega)]
    exact List.getElem_mem _
  have hsome : (heights.find? fun h => decide (L.getD h default ∈ node.blockIndex)).isSome :=
    List.find?_isSome.mpr ⟨0, hzero, by simpa using hgenesisMem⟩
  obtain ⟨s, hfind⟩ := Option.isSome_iff_exists.mp hsome
  have hsL : s < L.length := by
    have := lt_of_mem_shortHistoryHeights (by omega) (List.mem_of_find?_eq_some hfind)
    omega
  have hsN : L.getD s default ∈ node.blockIndex := by simpa using List.find?_some hfind
  have hsupplement := findSupplement_heights hnodup hlinked heights s
    (fun h hh => by
      have := lt_of_mem_shortHistoryHeights (by omega) hh
      omega) hfind
  have hlast : (heights.map fun h => L.getD h default).getLast? =
      some (node.blockIndex.getD 0 default) := by
    rw [List.getLast?_map, getLast?_shortHistoryHeights, Option.map_some, hgenesis]
  obtain ⟨r, hquery, hstart, hfull, hids⟩ := queryBlocksLite_ids currency env
    (heights.map fun h => L.getD h default) consumer.getSyncStart.timestamp hindex hnode hne hlast
  have hrstart : r.startHeight = s.toUInt32 := by
    rw [hsupplement] at hstart
    exact (Option.some.inj hstart).symm
  have hs32 : s.toUInt32.toNat = s := toNat_toUInt32_of_lt (by omega)
  have hnonempty : (heights.map fun h => L.getD h default) ≠ [] := by
    simpa using List.ne_nil_of_mem hzero
  refine ⟨s, r.fullOffset, (r.entries.map toBlockShortEntry).map
      (·.toCompleteBlock env.transactionHash), hfind, hsL,
    hlinked.take_eq hsL hsN, by rw [hfull, hrstart], ?_⟩
  simp only [startBlockchainSync, getCommonHistory_single, hhistory, Option.map_some,
    Option.bind_some, if_neg hnonempty, doQueryBlocksLite, hquery, processBlocks,
    blockHashes_doQueryBlocksLite, hids, hrstart, hs32]

/-- The node's window laid over a chain that agrees with the node's up to the
window's start is the node's chain up to the window's end. -/
theorem target_window {N : List Hash} {s : Nat} (k : Nat) (hs : s < 2 ^ 32)
    (htake : L.take (s + 1) = N.take (s + 1)) :
    (SynchronizationState.mk L).target ⟨s.toUInt32, (N.drop s).take k⟩ = N.take (s + k) := by
  have hbelow : L.take s = N.take s := by
    calc L.take s = (L.take (s + 1)).take s := by
          rw [List.take_take, Nat.min_eq_left (Nat.le_succ s)]
      _ = (N.take (s + 1)).take s := by rw [htake]
      _ = N.take s := by rw [List.take_take, Nat.min_eq_left (Nat.le_succ s)]
  simp only [SynchronizationState.target, toNat_toUInt32_of_lt hs]
  exact ListWindow.take_append_window hbelow k

/-- A round with one consumer ends in one of three ways: the consumer's chain
holds the node's window and stays as it is; the consumer takes the new blocks
and its chain becomes the node's up to the window's end; or it refuses them and
keeps the node's chain up to a height from the window's start. -/
theorem startBlockchainSync_one_consumer
    (hindex : node.blockIndex = node.blocks.map fun e => env.blockHash e.bl)
    (hnodup : node.blockIndex.Nodup) (hnode : node.blocks.length + 200 < 2 ^ 32)
    (hne : node.blocks ≠ []) (hpos : L ≠ [])
    (hgenesis : L.getD 0 default = node.blockIndex.getD 0 default)
    (hlinked : Linked L node.blockIndex) (hsmall : L.length ≤ 2 ^ 31) (hfuel : 40 ≤ fuel) :
    ∃ (s : Nat) (full : UInt32) (result : UpdateConsumersResult) (L' : List Hash),
      (shortHistoryHeights (min L.length node.blocks.length)).find?
          (fun h => decide (L.getD h default ∈ node.blockIndex)) = some s ∧
      full = (node.getLowerBound currency consumer.getSyncStart.timestamp
        s.toUInt32.toUInt64).getD s.toUInt32 ∧
      startBlockchainSync currency env node fuel [(consumer, ⟨L⟩)] =
        some (result, [(consumer, ⟨L'⟩)]) ∧
      ((result = .nothingChanged ∧ L' = L ∧
          node.blockIndex.take (s + answerLength s full.toNat) <+: L) ∨
       (result = .addedNewBlocks ∧ L' = node.blockIndex.take (s + answerLength s full.toNat) ∧
          ¬node.blockIndex.take (s + answerLength s full.toNat) <+: L) ∨
       (result = .errorOccurred ∧ ¬node.blockIndex.take (s + answerLength s full.toNat) <+: L ∧
          (∃ blocks height count, consumer.onNewBlocks blocks height count = false) ∧
          ∃ h, s ≤ h ∧ h < min (s + answerLength s full.toNat) node.blocks.length ∧
            L' = node.blockIndex.take h)) := by
  obtain ⟨s, full, blocks, hfind, hsL, htake, hfull, hround⟩ := startBlockchainSync_eq currency env
    fuel consumer hindex hnodup hnode hne hpos hgenesis hlinked hsmall hfuel
  have hlen := length_blockIndex_of_eq hindex
  have hk := answerLength_bounds s full.toNat
  have hs : s < 2 ^ 32 := by omega
  have htarget := target_window (answerLength s full.toNat) hs htake
  have hend : s.toUInt32.toNat +
      ((node.blockIndex.drop s).take (answerLength s full.toNat)).length < 2 ^ 32 := by
    rw [toNat_toUInt32_of_lt hs, List.length_take, List.length_drop]
    omega
  have hfits : Fits ⟨s.toUInt32, (node.blockIndex.drop s).take (answerLength s full.toNat)⟩ ⟨L⟩ :=
    ⟨by simp only [toNat_toUInt32_of_lt hs]; omega, by simp only; omega⟩
  obtain ⟨result, state', hrun, hcases⟩ := updateConsumers_single blocks consumer hend hfits
  refine ⟨s, full, result, state'.blockchain, hfind, hfull, by rw [hround, hrun], ?_⟩
  rw [htarget] at hcases
  rcases hcases with ⟨hres, rfl, hpre⟩ | ⟨hres, rfl, hnot⟩ | ⟨hres, h, hcut, hrefused⟩
  · exact .inl ⟨hres, rfl, hpre⟩
  · exact .inr (.inl ⟨hres, rfl, hnot⟩)
  · have hlt := hrefused.lt_length
    rw [htarget, List.length_take, hlen] at hlt
    have hh := hrefused.start_le
    rw [toNat_toUInt32_of_lt hs] at hh
    refine .inr (.inr ⟨hres, htarget ▸ hrefused.not_isPrefix, ⟨_, _, _, hrefused.refused⟩, h, hh,
      hlt, ?_⟩)
    rw [hcut, List.take_take, Nat.min_eq_left (by omega)]

end Round

/-! ## Rounds against a node whose chain stays -/

/-- The consumer's chain after one round of the synchroniser against the node:
the chain the round leaves it, or the chain it had where the round reaches no
consumer. -/
def syncRound (currency : Currency) (env : ChainEnv) (node : Blockchain) (fuel : Nat)
    (consumer : Consumer) (blockchain : List Hash) : List Hash :=
  match startBlockchainSync currency env node fuel [(consumer, ⟨blockchain⟩)] with
  | some (_, [(_, state)]) => state.blockchain
  | _ => blockchain

section Rounds

variable (currency : Currency) (env : ChainEnv) {node : Blockchain} (fuel : Nat)
  (consumer : Consumer) {L : List Hash}

theorem syncRound_of_eq {result : UpdateConsumersResult} {L' : List Hash}
    (h : startBlockchainSync currency env node fuel [(consumer, ⟨L⟩)] =
      some (result, [(consumer, ⟨L'⟩)])) :
    syncRound currency env node fuel consumer L = L' := by
  rw [syncRound, h]

/-- A consumer with an empty chain has no history to send, and the round does
not reach it. -/
theorem startBlockchainSync_nil :
    startBlockchainSync currency env node fuel [(consumer, ⟨[]⟩)] = none := by
  have hsize : (SynchronizationState.mk []).shortHistorySize (node.getHeight - 1) = 0 := by
    simp [SynchronizationState.shortHistorySize, UInt32.min_def]
  simp [startBlockchainSync, getCommonHistory_single, SynchronizationState.getShortHistory, hsize]

theorem syncRound_nil : syncRound currency env node fuel consumer [] = [] := by
  rw [syncRound, startBlockchainSync_nil]

/-- A nonempty prefix of the node's chain starts with the node's genesis id. -/
theorem getD_zero_of_isPrefix {N : List Hash} (hpre : L <+: N) (hpos : L ≠ []) :
    L.getD 0 default = N.getD 0 default := by
  obtain ⟨t, rfl⟩ := hpre
  cases L with
  | nil => exact absurd rfl hpos
  | cons x xs => rfl

variable (hindex : node.blockIndex = node.blocks.map fun e => env.blockHash e.bl)
  (hnodup : node.blockIndex.Nodup) (hnode : node.blocks.length ≤ 2 ^ 31)
  (hne : node.blocks ≠ []) (hfuel : 40 ≤ fuel)

include hindex hnodup hnode hne hfuel

/-- A round keeps a consumer's chain or puts it on a prefix of the node's. -/
theorem syncRound_eq_or_prefix (hpos : L ≠ [])
    (hgenesis : L.getD 0 default = node.blockIndex.getD 0 default)
    (hlinked : Linked L node.blockIndex) (hsmall : L.length ≤ 2 ^ 31) :
    syncRound currency env node fuel consumer L = L ∨
      syncRound currency env node fuel consumer L <+: node.blockIndex := by
  obtain ⟨s, full, result, L', -, -, hround, hcases⟩ := startBlockchainSync_one_consumer currency
    env fuel consumer hindex hnodup (by omega) hne hpos hgenesis hlinked hsmall hfuel
  rw [syncRound_of_eq currency env fuel consumer hround]
  rcases hcases with ⟨-, rfl, -⟩ | ⟨-, rfl, -⟩ | ⟨-, -, -, h, -, -, rfl⟩
  · exact .inl rfl
  · exact .inr (List.take_prefix _ _)
  · exact .inr (List.take_prefix _ _)

/-- A round keeps a consumer on a prefix of the node's chain. -/
theorem syncRound_isPrefix (hpre : L <+: node.blockIndex) :
    syncRound currency env node fuel consumer L <+: node.blockIndex := by
  have hlen := length_blockIndex_of_eq hindex
  by_cases hpos : L = []
  · subst hpos
    rw [syncRound_nil]
    exact List.nil_prefix
  · have hsmall : L.length ≤ 2 ^ 31 := by
      have := hpre.length_le
      omega
    rcases syncRound_eq_or_prefix currency env fuel consumer hindex hnodup hnode hne hfuel hpos
      (getD_zero_of_isPrefix hpre hpos) (Linked.of_prefix hpre) hsmall with hsame | hnew
    · rw [hsame]
      exact hpre
    · exact hnew

/-- A round with a consumer on a nonempty prefix of the node's chain that takes
the blocks it is given: the window starts at the consumer's top block, and the
consumer gains at least {lit}`199` blocks, up to the node's whole chain. -/
theorem length_syncRound
    (haccept : ∀ blocks height count, consumer.onNewBlocks blocks height count = true)
    (hpre : L <+: node.blockIndex) (hpos : L ≠ []) :
    min node.blocks.length (L.length + 199) ≤
      (syncRound currency env node fuel consumer L).length := by
  have hlen := length_blockIndex_of_eq hindex
  have hLN : L.length ≤ node.blocks.length := hlen ▸ hpre.length_le
  have hLpos : 0 < L.length := List.length_pos_iff.mpr hpos
  obtain ⟨s, full, result, L', hfind, -, hround, hcases⟩ := startBlockchainSync_one_consumer
    currency env fuel consumer hindex hnodup (by omega) hne hpos
    (getD_zero_of_isPrefix hpre hpos) (Linked.of_prefix hpre) (by omega) hfuel
  have hs : s = L.length - 1 := by
    rw [Nat.min_eq_left hLN] at hfind
    obtain ⟨rest, hrest⟩ := List.head?_eq_some_iff.mp (head?_shortHistoryHeights_of_pos hLpos)
    have htop : L.getD (L.length - 1) default ∈ node.blockIndex := by
      rw [List.getD_eq_getElem _ _ (by omega)]
      exact hpre.subset (List.getElem_mem _)
    rw [hrest, List.find?_cons_of_pos (by simpa using htop)] at hfind
    exact (Option.some.inj hfind).symm
  have hk := answerLength_bounds s full.toNat
  rw [syncRound_of_eq currency env fuel consumer hround]
  rcases hcases with ⟨-, rfl, hwindow⟩ | ⟨-, rfl, -⟩ | ⟨-, -, ⟨blocks, height, count, hrefused⟩, -⟩
  · have hle := hwindow.length_le
    rw [List.length_take, hlen] at hle
    omega
  · rw [List.length_take, hlen]
    omega
  · rw [haccept] at hrefused
    cases hrefused

/-- Over any number of rounds, a consumer on a nonempty prefix of the node's
chain that takes the blocks it is given stays on a prefix and gains at least
{lit}`199` blocks a round, up to the node's whole chain. -/
theorem syncRound_iterate_prefix
    (haccept : ∀ blocks height count, consumer.onNewBlocks blocks height count = true)
    (n : Nat) (hpre : L <+: node.blockIndex) (hpos : L ≠ []) :
    (syncRound currency env node fuel consumer)^[n] L <+: node.blockIndex ∧
      min node.blocks.length (L.length + 199 * n) ≤
        ((syncRound currency env node fuel consumer)^[n] L).length := by
  induction n generalizing L with
  | zero => exact ⟨hpre, by simp⟩
  | succ n ih =>
    rw [Function.iterate_succ_apply]
    have hgrow := length_syncRound currency env fuel consumer hindex hnodup hnode hne hfuel
      haccept hpre hpos
    have hNpos : 0 < node.blocks.length := List.length_pos_iff.mpr hne
    have hpos' : syncRound currency env node fuel consumer L ≠ [] :=
      List.ne_nil_of_length_pos (by omega)
    obtain ⟨hpre', hlength'⟩ := ih (syncRound_isPrefix currency env fuel consumer hindex hnodup
      hnode hne hfuel hpre) hpos'
    exact ⟨hpre', by omega⟩

end Rounds

/-! ## A node and a wallet on a deep fork

A node of {lit}`466` blocks, told apart by their nonces, and a wallet whose
chain shares the node's first {lit}`200` blocks and then holds {lit}`265` blocks
of its own. -/

/-- Hashes told apart by the first two bytes, with the third marking the
wallet's own branch. -/
def heightHash (fork : Bool) (i : Nat) : Hash :=
  ⟨i.toUInt8 :: (i / 256).toUInt8 :: (if fork then 1 else 0) :: List.replicate 29 0, by simp⟩

/-- Below {lit}`2 ^ 16`, a numbered hash names its height and its branch. -/
theorem heightHash_inj {b b' : Bool} {i j : Nat} (hi : i < 2 ^ 16) (hj : j < 2 ^ 16)
    (h : heightHash b i = heightHash b' j) : i = j ∧ b = b' := by
  simp only [heightHash, Pod.mk.injEq, List.cons.injEq] at h
  obtain ⟨h0, h1, h2, -⟩ := h
  have h0' := congrArg UInt8.toNat h0
  have h1' := congrArg UInt8.toNat h1
  simp only [Nat.toUInt8_eq, UInt8.toNat_ofNat'] at h0' h1'
  refine ⟨by omega, ?_⟩
  cases b <;> cases b' <;> simp_all

/-- {lit}`sampleEnv` with block hashes that tell apart the first
{lit}`65536` nonces. -/
def forkEnv : ChainEnv :=
  { Blockchain.sampleEnv with blockHash := fun b => heightHash false b.nonce.toNat }

/-- A node of 466 blocks, the hash of each naming its height. -/
def forkNode : Blockchain :=
  { Blockchain.sampleChain with
    blocks := (List.range 466).map fun i =>
      { (default : BlockEntry) with bl := { (default : Block) with nonce := i.toUInt32 } }
    blockIndex := (List.range 466).map (heightHash false) }

/-- A wallet's chain that shares the node's first 200 blocks and then goes on
with 265 blocks of its own branch. -/
def forkChain : List Hash :=
  forkNode.blockIndex.take 200 ++ (List.range' 200 265).map (heightHash true)

theorem forkNode_index :
    forkNode.blockIndex = forkNode.blocks.map fun e => forkEnv.blockHash e.bl := by
  decide +kernel

theorem forkNode_nodup : forkNode.blockIndex.Nodup := by
  refine List.Nodup.map_on (fun i hi j hj h => ?_) List.nodup_range
  simp only [List.mem_range] at hi hj
  exact (heightHash_inj (by omega) (by omega) h).1

theorem forkChain_linked : Linked forkChain forkNode.blockIndex := by
  refine Linked.of_fork 200 fun x hx hmem => ?_
  simp only [forkNode, List.mem_map, List.mem_range, List.mem_range'_1] at hx hmem
  obtain ⟨i, hi, rfl⟩ := hx
  obtain ⟨j, hj, hij⟩ := hmem
  exact absurd (heightHash_inj (by omega) (by omega) hij).2 (by decide)

/-! ## Whole runs -/

/-- A consumer on a nonempty prefix of the node's chain that takes the blocks it
is given holds the node's whole chain once the rounds have brought it
{lit}`199` blocks each for the blocks it lacks. -/
theorem syncRound_reaches_node (currency : Currency) (env : ChainEnv) {node : Blockchain}
    (fuel : Nat) (consumer : Consumer) {L : List Hash}
    (hindex : node.blockIndex = node.blocks.map fun e => env.blockHash e.bl)
    (hnodup : node.blockIndex.Nodup) (hnode : node.blocks.length ≤ 2 ^ 31)
    (hne : node.blocks ≠ []) (hfuel : 40 ≤ fuel)
    (haccept : ∀ blocks height count, consumer.onNewBlocks blocks height count = true)
    (hpre : L <+: node.blockIndex) (hpos : L ≠ []) {n : Nat}
    (hn : node.blocks.length ≤ L.length + 199 * n) :
    (syncRound currency env node fuel consumer)^[n] L = node.blockIndex := by
  have hlen := length_blockIndex_of_eq hindex
  obtain ⟨hpre', hlength'⟩ := syncRound_iterate_prefix currency env fuel consumer hindex
    hnodup hnode hne hfuel haccept n hpre hpos
  exact hpre'.eq_of_length_le (by omega)

/-- A consumer that holds the genesis only has the node's chain after three rounds. -/
theorem syncRound_reaches_node_genesis :
    (syncRound Blockchain.sampleCurrency forkEnv forkNode 40 acceptingConsumer)^[3]
      (forkNode.blockIndex.take 1) = forkNode.blockIndex :=
  syncRound_reaches_node Blockchain.sampleCurrency forkEnv 40 acceptingConsumer forkNode_index
    forkNode_nodup (by decide +kernel) (by decide +kernel) (by decide) (fun _ _ _ => rfl)
    (List.take_prefix _ _) (by decide +kernel) (by decide +kernel)

/-- Over any number of rounds, a consumer's chain is the one it started from or
a prefix of the node's: the synchroniser never leaves a consumer on a third
chain. -/
theorem syncRound_iterate_eq_or_prefix (currency : Currency) (env : ChainEnv) {node : Blockchain}
    (fuel : Nat) (consumer : Consumer) {L : List Hash}
    (hindex : node.blockIndex = node.blocks.map fun e => env.blockHash e.bl)
    (hnodup : node.blockIndex.Nodup) (hnode : node.blocks.length ≤ 2 ^ 31)
    (hne : node.blocks ≠ []) (hfuel : 40 ≤ fuel) (hpos : L ≠ [])
    (hgenesis : L.getD 0 default = node.blockIndex.getD 0 default)
    (hlinked : Linked L node.blockIndex) (hsmall : L.length ≤ 2 ^ 31) (n : Nat) :
    (syncRound currency env node fuel consumer)^[n] L = L ∨
      (syncRound currency env node fuel consumer)^[n] L <+: node.blockIndex := by
  induction n with
  | zero => exact .inl rfl
  | succ n ih =>
    rw [Function.iterate_succ_apply']
    rcases ih with hsame | hpre
    · rw [hsame]
      exact syncRound_eq_or_prefix currency env fuel consumer hindex hnodup hnode hne hfuel hpos
        hgenesis hlinked hsmall
    · exact .inr (syncRound_isPrefix currency env fuel consumer hindex hnodup hnode hne hfuel hpre)

/-- Five rounds of a consumer on a fork of the node's chain. -/
theorem syncRound_iterate_eq_or_prefix_fork :
    (syncRound Blockchain.sampleCurrency forkEnv forkNode 40 acceptingConsumer)^[5] forkChain =
        forkChain ∨
      (syncRound Blockchain.sampleCurrency forkEnv forkNode 40 acceptingConsumer)^[5] forkChain <+:
        forkNode.blockIndex :=
  syncRound_iterate_eq_or_prefix Blockchain.sampleCurrency forkEnv 40 acceptingConsumer
    forkNode_index forkNode_nodup (by decide +kernel) (by decide +kernel) (by decide)
    (by decide +kernel) (by decide +kernel) forkChain_linked (by decide +kernel) 5

/-- A consumer whose chain already holds the node's window from the first known
height of its history is never moved: the round changes nothing, and neither
does any round after it, whatever its chain holds above the window. -/
theorem syncRound_stalls (currency : Currency) (env : ChainEnv) {node : Blockchain}
    (fuel : Nat) (consumer : Consumer) {L : List Hash}
    (hindex : node.blockIndex = node.blocks.map fun e => env.blockHash e.bl)
    (hnodup : node.blockIndex.Nodup) (hnode : node.blocks.length ≤ 2 ^ 31)
    (hne : node.blocks ≠ []) (hfuel : 40 ≤ fuel) (hpos : L ≠ [])
    (hgenesis : L.getD 0 default = node.blockIndex.getD 0 default)
    (hlinked : Linked L node.blockIndex) (hsmall : L.length ≤ 2 ^ 31) {s : Nat}
    (hfind : (shortHistoryHeights (min L.length node.blocks.length)).find?
      (fun h => decide (L.getD h default ∈ node.blockIndex)) = some s)
    (hwindow : node.blockIndex.take (s + answerLength s
      ((node.getLowerBound currency consumer.getSyncStart.timestamp
        s.toUInt32.toUInt64).getD s.toUInt32).toNat) <+: L) (n : Nat) :
    startBlockchainSync currency env node fuel [(consumer, ⟨L⟩)] =
        some (.nothingChanged, [(consumer, ⟨L⟩)]) ∧
      (syncRound currency env node fuel consumer)^[n] L = L := by
  obtain ⟨s', full, result, L', hfind', hfull, hround, hcases⟩ := startBlockchainSync_one_consumer
    currency env fuel consumer hindex hnodup (by omega) hne hpos hgenesis hlinked hsmall hfuel
  obtain rfl : s' = s := Option.some.inj (hfind'.symm.trans hfind)
  subst hfull
  -- holding the window rules out the two outcomes that move the chain
  rcases hcases with ⟨rfl, rfl, -⟩ | ⟨-, -, hnot⟩ | ⟨-, hnot, -⟩
  · exact ⟨hround, Function.iterate_fixed (syncRound_of_eq currency env fuel consumer hround) n⟩
  · exact absurd hwindow hnot
  · exact absurd hwindow hnot

/-- The wallet of the deep fork is never brought to the node's chain: its
history skips from height {lit}`200`, where it left the node's chain, to the
genesis block, and the window of {lit}`200` blocks from there is one it holds. -/
theorem syncRound_stalls_deepFork :
    ¬forkChain <+: forkNode.blockIndex ∧
      startBlockchainSync Blockchain.sampleCurrency forkEnv forkNode 40
          [(acceptingConsumer, ⟨forkChain⟩)] =
        some (.nothingChanged, [(acceptingConsumer, ⟨forkChain⟩)]) ∧
      ∀ n, (syncRound Blockchain.sampleCurrency forkEnv forkNode 40 acceptingConsumer)^[n]
        forkChain = forkChain := by
  have hcount : pushCount 465 = 18 := (Nat.find_eq_iff _).mpr ⟨by decide, by decide⟩
  have hsize : min forkChain.length forkNode.blocks.length = 465 := by decide +kernel
  have hfind : (shortHistoryHeights (min forkChain.length forkNode.blocks.length)).find?
      (fun h => decide (forkChain.getD h default ∈ forkNode.blockIndex)) = some 0 := by
    rw [hsize, shortHistoryHeights, hcount]
    decide +kernel
  -- the wallet's time less the future limit wraps above every block's time
  have hwrap : (default : Block).timestamp < acceptingConsumer.getSyncStart.timestamp -
      Blockchain.sampleCurrency.blockFutureTimeLimit := by decide
  have hbefore : ∀ e ∈ forkNode.blocks, e.bl.timestamp <
      acceptingConsumer.getSyncStart.timestamp - Blockchain.sampleCurrency.blockFutureTimeLimit := by
    intro e he
    simp only [forkNode, List.mem_map] at he
    obtain ⟨i, -, rfl⟩ := he
    exact hwrap
  have hbound : forkNode.getLowerBound Blockchain.sampleCurrency
      acceptingConsumer.getSyncStart.timestamp (0 : Nat).toUInt32.toUInt64 = none :=
    getLowerBound_eq_none Blockchain.sampleCurrency (by decide +kernel) hbefore
  have hwindow : forkNode.blockIndex.take (0 + answerLength 0
      ((forkNode.getLowerBound Blockchain.sampleCurrency acceptingConsumer.getSyncStart.timestamp
        (0 : Nat).toUInt32.toUInt64).getD (0 : Nat).toUInt32).toNat) <+: forkChain := by
    rw [hbound]
    exact List.prefix_append _ _
  have hround := fun n => syncRound_stalls Blockchain.sampleCurrency forkEnv 40 acceptingConsumer
    forkNode_index forkNode_nodup (by decide +kernel) (by decide +kernel) (by decide)
    (by decide +kernel) (by decide +kernel) forkChain_linked (by decide +kernel) hfind hwindow n
  exact ⟨by decide +kernel, (hround 0).1, fun n => (hround n).2⟩

end Transfers
end CryptoNote
