import Mathlib.Data.Nat.Log
import Mathlib.Data.List.Nodup
import CryptoNote.Core.Blockchain
import CryptoNote.Lib.ByteFile
import CryptoNote.Lib.LowerBound

/-!
# The block index and sparse chains

{lit}`BlockIndex` keeps the hashes of the main chain by height, each hash once
(src/cryptonote/core/blockchain/serializer/block_index.cpp).  Two nodes find
where their chains part with its help.  One sends a sparse chain of its ids:
the id at its top, the ids 1, 3, 7, ... heights below it, and the genesis id
last.  The other answers from the first of them it knows
({lit}`findSupplement`, {lit}`Blockchain::findBlockchainSupplement` and
{lit}`handle_request_chain` in src/cryptonote/protocol/handler.cpp).

The index is the list {lit}`Blockchain.blockIndex` of the chain model, and the
heights it reports are {lit}`uint32`.  The loop of {lit}`buildSparseChain`
counts over {lit}`size_t` and is run with one round of fuel more than its end,
more than it ever makes.  {lit}`back()` of an empty vector is undefined
behaviour; the model takes it to differ from the genesis id.

Main results:

- Theorem {lit}`buildSparseChain_eq`: below the wrap of {lit}`uint32`, the
  sparse chain of the block at height {lit}`t` is the ids at the heights
  {lit}`sparseHeights t`: {lit}`t, t - 1, t - 3, ..., t + 1 - 2 ^ k`, then
  {lit}`0` unless the last of those is already {lit}`0`.
- Theorem {lit}`findSupplement_buildSparseChain`: on a chain that shares the
  blocks up to height {lit}`f` with it and none above, the first id found is
  at a common height {lit}`s` with {lit}`2 * f - t ≤ s`.
- Theorem {lit}`sparseChain_findSupplement`: together, and the height is the
  {lit}`start_height` that the handler reports.
- Theorem {lit}`buildSparseChain_findSupplement_eq`: that height is exactly
  {lit}`supplementHeight f t = t + 1 - 2 ^ ⌈log₂ (t + 1 - f)⌉` (or {lit}`0`),
  the first sparse height at or below the fork.
- Theorem {lit}`buildSparseChain_max_height`: at height {lit}`0xFFFFFFFF` the
  sum {lit}`startBlockHeight + 1` wraps to {lit}`0`, and the sparse chain is the
  genesis id alone.
-/

namespace CryptoNote

namespace BlockIndex

/-! ## The model -/

/-- {lit}`BlockIndex::getBlockHeight`: the position of the hash, as a {lit}`uint32_t`. -/
def getBlockHeight (container : List Hash) (h : Hash) : Option UInt32 :=
  (container.idxOf? h).map Nat.toUInt32

/-- {lit}`BlockIndex::getBlockIds`: at most {lit}`maxCount` ids from a start height. -/
def getBlockIds (container : List Hash) (startBlockIndex maxCount : UInt32) : List Hash :=
  if container.length ≤ startBlockIndex.toNat then []
  else (container.drop startBlockIndex.toNat).take maxCount.toNat

/-- {lit}`BlockIndex::findSupplement`: the height of the first of the ids that
the index holds. -/
def findSupplement (container : List Hash) (ids : List Hash) : Option UInt32 :=
  ids.findSome? (getBlockHeight container)

/-- The loop {lit}`for (i = 1; i <= sparseChainEnd; i *= 2)`, for at most
{lit}`fuel` rounds: the id {lit}`i` heights below {lit}`sparseChainEnd`. -/
def sparseChainLoop (container : List Hash) (sparseChainEnd : Nat) : Nat → Nat → List Hash
  | 0, _ => []
  | fuel + 1, i =>
    if i ≤ sparseChainEnd then
      container.getD (sparseChainEnd - i) default ::
        sparseChainLoop container sparseChainEnd fuel (i * 2)
    else []

/-- {lit}`BlockIndex::buildSparseChain`: {lit}`sparseChainEnd` is
{lit}`startBlockHeight + 1`, summed as {lit}`uint32_t`; the genesis id is appended
unless the loop ended with it. -/
def buildSparseChain (container : List Hash) (startBlockId : Hash) : List Hash :=
  let startBlockHeight := (getBlockHeight container startBlockId).getD 0
  let sparseChainEnd := (startBlockHeight + 1).toNat
  let result := sparseChainLoop container sparseChainEnd (sparseChainEnd + 1) 1
  if result.getLast? = some (container.getD 0 default) then result
  else result ++ [container.getD 0 default]

end BlockIndex

namespace Blockchain

/-- {lit}`BLOCKS_IDS_SYNCHRONIZING_DEFAULT_COUNT`. -/
def blocksIdsSynchronizingDefaultCount : UInt32 := 10000

/-- {lit}`Blockchain::findBlockchainSupplement(qblock_ids)`: the height of the
first id the main chain holds; {lit}`none` where the source's assert fails. -/
def findBlockchainSupplement (s : Blockchain) (qblockIds : List Hash) : Option UInt32 :=
  BlockIndex.findSupplement s.blockIndex qblockIds

/-- {lit}`NOTIFY_RESPONSE_CHAIN_ENTRY::request`. -/
structure ResponseChainEntry where
  startHeight : UInt32
  totalHeight : UInt32
  blockIds : List Hash

/-- {lit}`handle_request_chain`: a request that is empty or does not end with
the genesis id shuts the connection ({lit}`none`); otherwise the response
carries the first known height, the chain's height and the ids from there. -/
def handleRequestChain (s : Blockchain) (blockIds : List Hash) : Option ResponseChainEntry :=
  if blockIds = [] then none
  else if blockIds.getLast? ≠ some (s.blockIndex.getD 0 default) then none
  else (s.findBlockchainSupplement blockIds).map fun startHeight =>
    { startHeight, totalHeight := s.getHeight,
      blockIds := BlockIndex.getBlockIds s.blockIndex startHeight
        blocksIdsSynchronizingDefaultCount }

end Blockchain

namespace BlockIndex

/-! ## Heights in the index -/

section Heights

variable {container : List Hash}

/-- The ids of the index are distinct, so two heights with one id are one height. -/
theorem eq_of_getD_eq (hnodup : container.Nodup) {i j : Nat} (hi : i < container.length)
    (hj : j < container.length) (heq : container.getD i default = container.getD j default) :
    i = j := by
  rw [List.getD_eq_getElem?_getD, List.getElem?_eq_getElem hi, Option.getD_some,
    List.getD_eq_getElem?_getD, List.getElem?_eq_getElem hj, Option.getD_some] at heq
  exact hnodup.getElem_inj_iff.mp heq

/-- On an index without a repeated id, the id at a height is found at that height. -/
theorem getBlockHeight_getD (hnodup : container.Nodup) {h : Nat} (hh : h < container.length) :
    getBlockHeight container (container.getD h default) = some h.toUInt32 := by
  have hidx : container.idxOf? (container.getD h default) = some h := by
    rw [List.idxOf?_eq_some_iff]
    refine ⟨hh, by simp [List.getD_eq_getElem?_getD, hh], fun j hj heq => ?_⟩
    have hget : container.getD j default = container.getD h default := by
      rw [List.getD_eq_getElem?_getD, List.getElem?_eq_getElem (by omega), Option.getD_some, heq]
    have := eq_of_getD_eq hnodup (by omega) hh hget
    omega
  unfold getBlockHeight
  rw [hidx]
  rfl

theorem getBlockHeight_of_not_mem {x : Hash} (hx : x ∉ container) :
    getBlockHeight container x = none := by
  simp [getBlockHeight, List.idxOf?_eq_none_iff.mpr hx]

/-- A height whose successor fits in {lit}`uint32` sums without a wrap. -/
theorem toNat_toUInt32_add_one {t : Nat} (ht : t + 1 < 2 ^ 32) :
    (t.toUInt32 + 1).toNat = t + 1 := by
  rw [UInt32.toNat_add, Nat.toUInt32_eq, UInt32.toNat_ofNat']
  simp
  omega

/-- The spec of {lit}`buildSparseChain` at a start id of a known height. -/
theorem buildSparseChain_of_height {x : Hash} {t : Nat}
    (hheight : getBlockHeight container x = some t.toUInt32) (ht : t + 1 < 2 ^ 32) :
    buildSparseChain container x =
      if (sparseChainLoop container (t + 1) (t + 2) 1).getLast? = some (container.getD 0 default)
      then sparseChainLoop container (t + 1) (t + 2) 1
      else sparseChainLoop container (t + 1) (t + 2) 1 ++ [container.getD 0 default] := by
  simp only [buildSparseChain, hheight, Option.getD_some, toNat_toUInt32_add_one ht]

end Heights

/-! ## Chains of numbered ids -/

/-- The id that holds a number, least significant byte first. -/
def numberHash (n : Nat) : Hash :=
  ⟨ByteCodec.LittleEndian.bytes 32 n, ByteCodec.LittleEndian.length_bytes 32 n⟩

/-- The chain of the ids of {lit}`0, 1, ..., n - 1`. -/
def numberedChain (n : Nat) : List Hash :=
  (List.range n).map numberHash

theorem numberHash_inj {m n : Nat} (hm : m < 256 ^ 32) (hn : n < 256 ^ 32)
    (h : numberHash m = numberHash n) : m = n := by
  have hvalue := congrArg (fun x : Hash => ByteCodec.LittleEndian.value x.bytes) h
  simp only [numberHash, ByteCodec.LittleEndian.value_bytes_of_lt hm,
    ByteCodec.LittleEndian.value_bytes_of_lt hn] at hvalue
  exact hvalue

theorem numberedChain_nodup {n : Nat} (hn : n ≤ 256 ^ 32) : (numberedChain n).Nodup := by
  refine List.Nodup.map_on (fun a ha b hb hab => ?_) List.nodup_range
  rw [List.mem_range] at ha hb
  exact numberHash_inj (by omega) (by omega) hab

@[simp]
theorem length_numberedChain (n : Nat) : (numberedChain n).length = n := by
  simp [numberedChain]

/-- The id at a height of a numbered chain holds the height. -/
theorem getD_numberedChain {n h : Nat} (hh : h < n) : (numberedChain n).getD h default = numberHash h := by
  simp [numberedChain, List.getD_eq_getElem?_getD, hh]

/-- A numbered chain holds the ids of the numbers below its length, and no other
id below {lit}`256 ^ 32`. -/
theorem numberHash_mem_numberedChain {n k : Nat} (hk : k < 256 ^ 32) (hn : n ≤ 256 ^ 32) :
    numberHash k ∈ numberedChain n ↔ k < n := by
  constructor
  · intro hmem
    obtain ⟨j, hj, heq⟩ := List.mem_map.mp hmem
    rw [List.mem_range] at hj
    rw [← numberHash_inj (by omega) hk heq]
    exact hj
  · intro hlt
    exact List.mem_map.mpr ⟨k, List.mem_range.mpr hlt, rfl⟩

/-! ## The shape of a sparse chain -/

/-- The heights of the sparse chain of the block at height {lit}`t`: those
{lit}`2 ^ k - 1` below it while they exist, then the genesis height unless the
last of them is already {lit}`0`. -/
def sparseHeights (t : Nat) : List Nat :=
  ((List.range (Nat.log 2 (t + 1) + 1)).map fun k => t + 1 - 2 ^ k) ++
    if 2 ^ Nat.log 2 (t + 1) = t + 1 then [] else [0]

/-- The loop from {lit}`i = 2 ^ k` pushes the ids {lit}`2 ^ j` below its end for
every {lit}`j` from {lit}`k` to the last power of two up to the end, provided
the fuel covers the doublings. -/
theorem sparseChainLoop_eq_map (container : List Hash) {sparseChainEnd : Nat}
    (hend : sparseChainEnd ≠ 0) :
    ∀ (fuel k : Nat), sparseChainEnd < 2 ^ k * 2 ^ fuel →
      sparseChainLoop container sparseChainEnd fuel (2 ^ k) =
        (List.range' k (Nat.log 2 sparseChainEnd + 1 - k)).map
          fun j => container.getD (sparseChainEnd - 2 ^ j) default := by
  intro fuel
  induction fuel with
  | zero =>
    intro k hk
    have hlog : Nat.log 2 sparseChainEnd < k :=
      (Nat.log_lt_iff_lt_pow (by omega) hend).mpr (by simpa using hk)
    simp [sparseChainLoop, show Nat.log 2 sparseChainEnd + 1 - k = 0 by omega]
  | succ fuel ih =>
    intro k hk
    by_cases hle : 2 ^ k ≤ sparseChainEnd
    · have hlog : k ≤ Nat.log 2 sparseChainEnd :=
        (Nat.le_log_iff_pow_le (by omega) hend).mpr hle
      have hnext := ih (k + 1) (by
        rw [Nat.pow_succ, Nat.mul_assoc, Nat.mul_comm 2 (2 ^ fuel), ← Nat.pow_succ]
        exact hk)
      rw [sparseChainLoop, if_pos hle, show 2 ^ k * 2 = 2 ^ (k + 1) from (Nat.pow_succ 2 k).symm,
        hnext, show Nat.log 2 sparseChainEnd + 1 - k = (Nat.log 2 sparseChainEnd + 1 - (k + 1)) + 1
          by omega, List.range'_succ, List.map_cons]
    · have hlog : Nat.log 2 sparseChainEnd < k :=
        (Nat.log_lt_iff_lt_pow (by omega) hend).mpr (by omega)
      simp [sparseChainLoop, hle, show Nat.log 2 sparseChainEnd + 1 - k = 0 by omega]

/-- Below the wrap, the sparse chain of the block at height {lit}`t` is the ids
at the heights {lit}`sparseHeights t`. -/
theorem buildSparseChain_eq {container : List Hash} (hnodup : container.Nodup) {t : Nat}
    (ht : t < container.length) (hwrap : t + 1 < 2 ^ 32) :
    buildSparseChain container (container.getD t default) =
      (sparseHeights t).map fun h => container.getD h default := by
  have hloop : sparseChainLoop container (t + 1) (t + 2) 1 =
      (List.range (Nat.log 2 (t + 1) + 1)).map
        fun k => container.getD (t + 1 - 2 ^ k) default := by
    have hfuel : t + 1 < 2 ^ 0 * 2 ^ (t + 2) := by
      have : t + 2 < 2 ^ (t + 2) := Nat.lt_two_pow_self
      simp only [Nat.pow_zero, Nat.one_mul]
      omega
    have := sparseChainLoop_eq_map container (show t + 1 ≠ 0 by omega) (t + 2) 0 hfuel
    rwa [Nat.pow_zero, Nat.sub_zero, ← List.range_eq_range'] at this
  have hlast : (sparseChainLoop container (t + 1) (t + 2) 1).getLast? =
      some (container.getD (t + 1 - 2 ^ Nat.log 2 (t + 1)) default) := by
    rw [hloop, List.getLast?_map, List.getLast?_range]
    rfl
  rw [buildSparseChain_of_height (getBlockHeight_getD hnodup ht) hwrap, hlast, hloop,
    sparseHeights, List.map_append, List.map_map]
  by_cases hpow : 2 ^ Nat.log 2 (t + 1) = t + 1
  -- the last power of two is t + 1 itself: the loop ended at the genesis id
  · rw [if_pos (by rw [hpow, Nat.sub_self]), if_pos hpow, List.map_nil, List.append_nil]
    rfl
  · have hlt : 2 ^ Nat.log 2 (t + 1) < t + 1 :=
      Nat.lt_of_le_of_ne (Nat.pow_log_le_self 2 (by omega)) hpow
    have hone : 1 ≤ 2 ^ Nat.log 2 (t + 1) := Nat.one_le_two_pow
    have hne : container.getD (t + 1 - 2 ^ Nat.log 2 (t + 1)) default ≠
        container.getD 0 default := fun heq => by
      have := eq_of_getD_eq hnodup (by omega) (by omega) heq
      omega
    rw [if_neg (fun h => hne (Option.some.inj h)), if_neg hpow]
    rfl

theorem head?_sparseHeights (t : Nat) : (sparseHeights t).head? = some t := by
  simp [sparseHeights, List.head?_append, List.head?_range]

theorem getLast?_sparseHeights (t : Nat) : (sparseHeights t).getLast? = some 0 := by
  unfold sparseHeights
  split
  · rename_i hpow
    simp [List.getLast?_range, hpow]
  · simp

/-- The heights strictly decrease: the powers of two grow, and all of them stay at
most {lit}`t + 1`, equal to it only when no genesis height follows. -/
theorem sparseHeights_pairwise (t : Nat) : (sparseHeights t).Pairwise (· > ·) := by
  have hpow : ∀ k ∈ List.range (Nat.log 2 (t + 1) + 1), 2 ^ k ≤ 2 ^ Nat.log 2 (t + 1) :=
    fun k hk => Nat.pow_le_pow_right (by omega) (by simp at hk; omega)
  have htop := Nat.pow_log_le_self 2 (show t + 1 ≠ 0 by omega)
  unfold sparseHeights
  rw [List.pairwise_append]
  refine ⟨?_, by split <;> simp, ?_⟩
  · rw [List.pairwise_map]
    refine List.pairwise_lt_range.imp_of_mem fun {j j'} _ hj' hlt => ?_
    have hgrow : 2 ^ j < 2 ^ j' := Nat.pow_lt_pow_right (by omega) hlt
    have := hpow j' hj'
    omega
  · intro a ha b hb
    split at hb
    · simp at hb
    · rename_i hne
      obtain ⟨k, hk, rfl⟩ := List.mem_map.mp ha
      rw [List.mem_singleton] at hb
      have := hpow k hk
      omega

/-! ## The first id another chain knows -/

section Supplement

variable {A B : List Hash} {f t : Nat}

theorem findSupplement_append_of_isSome {l r : List Hash} (h : (findSupplement B l).isSome) :
    findSupplement B (l ++ r) = findSupplement B l := by
  obtain ⟨x, hx⟩ := Option.isSome_iff_exists.mp h
  unfold findSupplement at hx ⊢
  rw [List.findSome?_append, hx]
  rfl

/-- The genesis id closes every sparse chain. -/
theorem getLast?_buildSparseChain (x : Hash) :
    (buildSparseChain A x).getLast? = some (A.getD 0 default) := by
  unfold buildSparseChain
  dsimp only
  split
  · assumption
  · simp

/-- The loop invariant: every height pushed so far lay above the fork, so
{lit}`i` stays below twice the distance from the end to the fork; the first
height at or below the fork, or the genesis height, is then at least
{lit}`2 * f - t`. -/
theorem findSupplement_sparseChainLoop
    (hfound : ∀ h ≤ f, getBlockHeight B (A.getD h default) = some h.toUInt32)
    (habove : ∀ h, f < h → h ≤ t → getBlockHeight B (A.getD h default) = none) :
    ∀ (fuel i : Nat), 1 ≤ i → t + 1 < i * 2 ^ fuel → i + 1 ≤ 2 * (t + 1 - f) →
      ∃ s, findSupplement B (sparseChainLoop A (t + 1) fuel i ++ [A.getD 0 default]) =
          some s.toUInt32 ∧ s ≤ f ∧ 2 * f - t ≤ s := by
  have hgenesis : findSupplement B [A.getD 0 default] = some (0 : Nat).toUInt32 := by
    rw [findSupplement, List.findSome?_singleton, hfound 0 (Nat.zero_le _)]
  intro fuel
  induction fuel with
  | zero =>
    intro i _ hfuel hinv
    rw [Nat.pow_zero, Nat.mul_one] at hfuel
    exact ⟨0, hgenesis, Nat.zero_le _, by omega⟩
  | succ fuel ih =>
    intro i hi hfuel hinv
    by_cases hle : i ≤ t + 1
    · rw [sparseChainLoop, if_pos hle, List.cons_append]
      by_cases hknown : t + 1 - i ≤ f
      · refine ⟨t + 1 - i, ?_, hknown, by omega⟩
        rw [findSupplement, List.findSome?_cons, hfound _ hknown]
      -- an id above the fork: the walk doubles i, still below twice the distance
      · have hnext : t + 1 < i * 2 * 2 ^ fuel := by
          rw [Nat.mul_assoc, Nat.mul_comm 2 (2 ^ fuel), ← Nat.pow_succ]
          exact hfuel
        obtain ⟨s, hs, hsf, hbound⟩ := ih (i * 2) (by omega) hnext (by omega)
        refine ⟨s, ?_, hsf, hbound⟩
        unfold findSupplement at hs ⊢
        rw [List.findSome?_cons, habove _ (by omega) (by omega)]
        exact hs
    · rw [sparseChainLoop, if_neg hle, List.nil_append]
      exact ⟨0, hgenesis, Nat.zero_le _, by omega⟩

/-- On a chain that knows the ids up to the fork at their own heights and none
above it, the first id of the sparse chain it knows is at a height {lit}`s` at
or below the fork with {lit}`2 * f - t ≤ s`. -/
theorem findSupplement_buildSparseChain (hA : A.Nodup) (ht : t < A.length)
    (hwrap : t + 1 < 2 ^ 32) (hft : f ≤ t)
    (hfound : ∀ h ≤ f, getBlockHeight B (A.getD h default) = some h.toUInt32)
    (habove : ∀ h, f < h → h ≤ t → getBlockHeight B (A.getD h default) = none) :
    ∃ s, findSupplement B (buildSparseChain A (A.getD t default)) = some s.toUInt32 ∧
      s ≤ f ∧ 2 * f - t ≤ s := by
  have hfuel : t + 1 < 1 * 2 ^ (t + 2) := by
    have : t + 2 < 2 ^ (t + 2) := Nat.lt_two_pow_self
    omega
  obtain ⟨s, hs, hsf, hbound⟩ :=
    findSupplement_sparseChainLoop hfound habove (t + 2) 1 le_rfl hfuel (by omega)
  refine ⟨s, ?_, hsf, hbound⟩
  rw [buildSparseChain_of_height (getBlockHeight_getD hA ht) hwrap]
  split
  -- the loop ended with the genesis id, which is found, so the appended copy is never read
  · rename_i hlast
    obtain ⟨l, hl⟩ := List.getLast?_eq_some_iff.mp hlast
    have hsome : (findSupplement B (sparseChainLoop A (t + 1) (t + 2) 1)).isSome := by
      rw [hl, findSupplement, List.findSome?_append, List.findSome?_singleton,
        hfound 0 (Nat.zero_le _)]
      cases List.findSome? (getBlockHeight B) l <;> rfl
    rw [← findSupplement_append_of_isSome hsome]
    exact hs
  · exact hs

end Supplement

/-- Two chains of distinct ids that agree up to height {lit}`f` and share no id
above it.  Below the wrap of {lit}`uint32`, the sparse chain of the block at
height {lit}`t ≥ f` of the first is its ids at the strictly decreasing heights
{lit}`sparseHeights t`, from {lit}`t` down to {lit}`0`.  The second chain finds in
it a common block at a height {lit}`s ≥ 2 * f - t`, and that is the
{lit}`start_height` its handler reports. -/
theorem sparseChain_findSupplement {A B : List Hash} (hA : A.Nodup) (hB : B.Nodup) {f t : Nat}
    (hfB : f < B.length) (hft : f ≤ t) (htA : t < A.length) (hwrap : t + 1 < 2 ^ 32)
    (hshared : ∀ h ≤ f, A.getD h default = B.getD h default)
    (hfork : ∀ h < A.length, f < h → A.getD h default ∉ B) :
    buildSparseChain A (A.getD t default) = (sparseHeights t).map (fun h => A.getD h default) ∧
      (sparseHeights t).head? = some t ∧ (sparseHeights t).getLast? = some 0 ∧
      (sparseHeights t).Pairwise (· > ·) ∧
      ∃ s : Nat, findSupplement B (buildSparseChain A (A.getD t default)) = some s.toUInt32 ∧
        A.getD s default = B.getD s default ∧ 2 * f - t ≤ s ∧
        ∀ chain : Blockchain, chain.blockIndex = B →
          (chain.handleRequestChain (buildSparseChain A (A.getD t default))).map
            (·.startHeight) = some s.toUInt32 := by
  have hfound : ∀ h ≤ f, getBlockHeight B (A.getD h default) = some h.toUInt32 := by
    intro h hh
    rw [hshared h hh]
    exact getBlockHeight_getD hB (by omega)
  have habove : ∀ h, f < h → h ≤ t → getBlockHeight B (A.getD h default) = none :=
    fun h hfh hht => getBlockHeight_of_not_mem (hfork h (by omega) hfh)
  obtain ⟨s, hs, hsf, hbound⟩ := findSupplement_buildSparseChain hA htA hwrap hft hfound habove
  refine ⟨buildSparseChain_eq hA htA hwrap, head?_sparseHeights t, getLast?_sparseHeights t,
    sparseHeights_pairwise t, s, hs, hshared s hsf, hbound, fun chain hchain => ?_⟩
  -- the request is not empty and ends with the genesis id, which the handler checks
  have hlast := @getLast?_buildSparseChain A (A.getD t default)
  have hne : buildSparseChain A (A.getD t default) ≠ [] := fun h => by
    rw [h, List.getLast?_nil] at hlast
    cases hlast
  rw [hshared 0 (Nat.zero_le _), ← hchain] at hlast
  simp only [Blockchain.handleRequestChain, if_neg hne, hlast, ne_eq, not_true_eq_false,
    if_false, Blockchain.findBlockchainSupplement, hchain, hs, Option.map_some]

/-- The sparse chain of a chain of five blocks, sent to a node that shares the
first three. -/
theorem sparseChain_findSupplement_five :
    buildSparseChain (numberedChain 5) ((numberedChain 5).getD 4 default) =
        (sparseHeights 4).map (fun h => (numberedChain 5).getD h default) ∧
      (sparseHeights 4).head? = some 4 ∧ (sparseHeights 4).getLast? = some 0 ∧
      (sparseHeights 4).Pairwise (· > ·) ∧
      ∃ s : Nat, findSupplement (numberedChain 3 ++ [numberHash 7])
          (buildSparseChain (numberedChain 5) ((numberedChain 5).getD 4 default)) =
            some s.toUInt32 ∧
        (numberedChain 5).getD s default = (numberedChain 3 ++ [numberHash 7]).getD s default ∧
        2 * 2 - 4 ≤ s ∧
        ∀ chain : Blockchain, chain.blockIndex = numberedChain 3 ++ [numberHash 7] →
          (chain.handleRequestChain
            (buildSparseChain (numberedChain 5) ((numberedChain 5).getD 4 default))).map
              (·.startHeight) = some s.toUInt32 :=
  sparseChain_findSupplement (numberedChain_nodup (by omega)) (by decide) (by decide) (by decide)
    (by simp [numberedChain]) (by omega) (by decide) (by decide)

/-! ## The height found -/

/-- The height at which a chain that parts from another above height {lit}`f`
finds the other's sparse chain of the block at height {lit}`t`: the sparse
height {lit}`t + 1 - 2 ^ k` of the least {lit}`k` that reaches the fork, or the
genesis height. -/
def supplementHeight (f t : Nat) : Nat :=
  t + 1 - 2 ^ Nat.clog 2 (t + 1 - f)

/-- The height found is at or below the fork: {lit}`2 ^ k` covers its depth. -/
theorem supplementHeight_le (f t : Nat) : supplementHeight f t ≤ f := by
  have hdepth : t + 1 - f ≤ 2 ^ Nat.clog 2 (t + 1 - f) := Nat.le_pow_clog (by omega) _
  unfold supplementHeight
  omega

/-- Of the sparse heights, the first at or below the fork is
{lit}`supplementHeight f t`: the heights decrease, and {lit}`t + 1 - 2 ^ k` is at
or below the fork exactly when {lit}`2 ^ k` covers the fork's depth. -/
theorem find?_sparseHeights {f t : Nat} (hft : f ≤ t) :
    (sparseHeights t).find? (fun h => decide (h ≤ f)) = some (supplementHeight f t) := by
  have hdepth : t + 1 - f ≤ 2 ^ Nat.clog 2 (t + 1 - f) := Nat.le_pow_clog (by omega) _
  have hcover : ∀ k, t + 1 - f ≤ 2 ^ k → Nat.clog 2 (t + 1 - f) ≤ k :=
    fun k hk => (Nat.clog_le_iff_le_pow (by omega)).mpr hk
  apply Search.find?_eq_some_of_greatest (sparseHeights_pairwise t)
  · by_cases hc : Nat.clog 2 (t + 1 - f) ≤ Nat.log 2 (t + 1)
    · apply List.mem_append_left
      exact List.mem_map.mpr ⟨_, List.mem_range.mpr (by omega), rfl⟩
    · have hbig : t + 1 < 2 ^ Nat.clog 2 (t + 1 - f) :=
        (Nat.log_lt_iff_lt_pow (by omega) (by omega)).mp (by omega)
      have hzero : supplementHeight f t = 0 := by
        unfold supplementHeight
        omega
      rw [hzero]
      exact List.mem_of_getLast? (getLast?_sparseHeights t)
  · rw [decide_eq_true_eq]
    exact supplementHeight_le f t
  · intro y hy hyf
    rw [decide_eq_true_eq] at hyf
    unfold sparseHeights at hy
    rcases List.mem_append.mp hy with hy | hy
    · obtain ⟨k, hk, rfl⟩ := List.mem_map.mp hy
      have hpow : 2 ^ k ≤ t + 1 :=
        (Nat.le_log_iff_pow_le (by omega) (by omega)).mp (by rw [List.mem_range] at hk; omega)
      have hmono : 2 ^ Nat.clog 2 (t + 1 - f) ≤ 2 ^ k :=
        Nat.pow_le_pow_right (by omega) (hcover k (by omega))
      unfold supplementHeight
      omega
    · split at hy
      · simp at hy
      · rw [List.mem_singleton] at hy
        omega

section Found

variable {A B : List Hash} {f t : Nat}

/-- The second chain knows the first's ids up to the fork at their own heights. -/
theorem getBlockHeight_of_shared (hB : B.Nodup) (hfB : f < B.length)
    (hshared : ∀ h ≤ f, A.getD h default = B.getD h default) :
    ∀ h ≤ f, getBlockHeight B (A.getD h default) = some h.toUInt32 := by
  intro h hh
  rw [hshared h hh]
  exact getBlockHeight_getD hB (by omega)

/-- The second chain knows none of the first's ids above the fork. -/
theorem getBlockHeight_of_parted (htA : t < A.length)
    (hfork : ∀ h < A.length, f < h → A.getD h default ∉ B) :
    ∀ h, f < h → h ≤ t → getBlockHeight B (A.getD h default) = none :=
  fun h hfh hht => getBlockHeight_of_not_mem (hfork h (by omega) hfh)

/-- Searching the ids of the first chain at heights up to {lit}`t` finds the
first height at or below the fork. -/
theorem findSupplement_map_heights
    (hfound : ∀ h ≤ f, getBlockHeight B (A.getD h default) = some h.toUInt32)
    (habove : ∀ h, f < h → h ≤ t → getBlockHeight B (A.getD h default) = none) :
    ∀ heights : List Nat, (∀ h ∈ heights, h ≤ t) →
      findSupplement B (heights.map fun h => A.getD h default) =
        (heights.find? fun h => decide (h ≤ f)).map Nat.toUInt32
  | [], _ => rfl
  | h :: heights, hle => by
    rw [List.map_cons, findSupplement, List.findSome?_cons]
    by_cases hf : h ≤ f
    · rw [hfound h hf, List.find?_cons_of_pos (by simpa using hf)]
      rfl
    · rw [habove h (by omega) (hle h List.mem_cons_self),
        List.find?_cons_of_neg (by simpa using hf)]
      exact findSupplement_map_heights hfound habove heights
        fun h' hh' => hle h' (List.mem_cons_of_mem h hh')

/-- Every sparse height is at most the start height. -/
theorem le_of_mem_sparseHeights {h : Nat} (hh : h ∈ sparseHeights t) : h ≤ t := by
  obtain ⟨rest, hrest⟩ := List.head?_eq_some_iff.mp (head?_sparseHeights t)
  have hpair := sparseHeights_pairwise t
  rw [hrest, List.pairwise_cons] at hpair
  rw [hrest] at hh
  rcases List.mem_cons.mp hh with rfl | hh
  · exact le_rfl
  · exact (hpair.1 h hh).le

/-- Two chains of distinct ids that agree up to height {lit}`f` and share no id
above it.  Below the wrap of {lit}`uint32`, the second finds the first's sparse
chain of the block at height {lit}`t ≥ f` at exactly
{lit}`supplementHeight f t`: the first sparse height at or below the fork. -/
theorem buildSparseChain_findSupplement_eq (hA : A.Nodup) (hB : B.Nodup) (hfB : f < B.length)
    (hft : f ≤ t) (htA : t < A.length) (hwrap : t + 1 < 2 ^ 32)
    (hshared : ∀ h ≤ f, A.getD h default = B.getD h default)
    (hfork : ∀ h < A.length, f < h → A.getD h default ∉ B) :
    findSupplement B (buildSparseChain A (A.getD t default)) =
      some (supplementHeight f t).toUInt32 := by
  rw [buildSparseChain_eq hA htA hwrap,
    findSupplement_map_heights (getBlockHeight_of_shared hB hfB hshared)
      (getBlockHeight_of_parted htA hfork) _ fun _ => le_of_mem_sparseHeights,
    find?_sparseHeights hft]
  rfl

/-- The sparse chain of a chain of five blocks, sent to a node that shares the
first three. -/
theorem buildSparseChain_findSupplement_eq_five :
    findSupplement (numberedChain 3 ++ [numberHash 7])
        (buildSparseChain (numberedChain 5) ((numberedChain 5).getD 4 default)) =
      some (supplementHeight 2 4).toUInt32 :=
  buildSparseChain_findSupplement_eq (numberedChain_nodup (by omega)) (by decide) (by decide)
    (by omega) (by simp [numberedChain]) (by omega) (by decide) (by decide)

end Found

/-! ## The wrap of {lit}`startBlockHeight + 1` -/

/-- The height {lit}`0xFFFFFFFF` plus one is {lit}`0` in {lit}`uint32`. -/
theorem toUInt32_max_add_one : ((2 ^ 32 - 1 : Nat).toUInt32 + 1).toNat = 0 := by
  rw [UInt32.toNat_add, Nat.toUInt32_eq, UInt32.toNat_ofNat']
  simp

/-- On a chain of {lit}`2 ^ 32` distinct ids, the sparse chain of the block at
height {lit}`0xFFFFFFFF` is the genesis id alone, and the chain itself finds it at
height {lit}`0`: {lit}`startBlockHeight + 1` wraps to {lit}`0`, so the loop
makes no round. -/
theorem buildSparseChain_max_height :
    (numberedChain (2 ^ 32)).Nodup ∧
      buildSparseChain (numberedChain (2 ^ 32))
          ((numberedChain (2 ^ 32)).getD (2 ^ 32 - 1) default) =
        [(numberedChain (2 ^ 32)).getD 0 default] ∧
      (numberedChain (2 ^ 32)).getD (2 ^ 32 - 1) default ≠
        (numberedChain (2 ^ 32)).getD 0 default ∧
      findSupplement (numberedChain (2 ^ 32))
          (buildSparseChain (numberedChain (2 ^ 32))
            ((numberedChain (2 ^ 32)).getD (2 ^ 32 - 1) default)) = some 0 := by
  have hnodup : (numberedChain (2 ^ 32)).Nodup := numberedChain_nodup (by omega)
  have hlength : (numberedChain (2 ^ 32)).length = 2 ^ 32 := by simp [numberedChain]
  have hheight := @getBlockHeight_getD _ hnodup (2 ^ 32 - 1) (by omega)
  have hchain : buildSparseChain (numberedChain (2 ^ 32))
      ((numberedChain (2 ^ 32)).getD (2 ^ 32 - 1) default) =
        [(numberedChain (2 ^ 32)).getD 0 default] := by
    simp only [buildSparseChain, hheight, Option.getD_some, toUInt32_max_add_one]
    rfl
  have hne : (numberedChain (2 ^ 32)).getD (2 ^ 32 - 1) default ≠
      (numberedChain (2 ^ 32)).getD 0 default := fun heq => by
    have := eq_of_getD_eq hnodup (by omega) (by omega) heq
    omega
  refine ⟨hnodup, hchain, hne, ?_⟩
  rw [hchain, findSupplement, List.findSome?_singleton,
    @getBlockHeight_getD _ hnodup 0 (by omega)]
  rfl

end BlockIndex

end CryptoNote
