import CryptoNote.Core.BlockchainSwitch

/-!
# The windows of an alternative block

{lit}`handle_alternative_block` checks a block on an alternative chain against
windows it assembles from the alternative chain and the main blocks below it:
the timestamps of {lit}`complete_timestamps_vector` and the difficulty of
{lit}`get_next_difficulty_for_alternative_chain`.  {lit}`pushBlock` checks a
block on the main chain against the last blocks of that chain, with
{lit}`check_block_timestamp_main` and {lit}`getDifficultyForNextBlock`.  This
module compares the two on the chain the alternative block would extend after a
switch: the main blocks below the split height, then the alternative chain
({lit}`spliceAltChain`).

Main results:

- Theorem {lit}`getNextDifficultyForAlternativeChain_eq`: the difficulty is the
  one {lit}`getDifficultyForNextBlock` computes on that chain, for every split
  height from one and every length of the alternative chain.
- Theorem {lit}`altChainTimestamps_perm_iff`: the timestamps are those of the
  main window, up to order, exactly when the alternative chain is no longer than
  the window and the split is at height one or the chain is longer than the
  window.  A longer alternative chain is taken whole, and the loop of
  {lit}`complete_timestamps_vector` stops before the genesis block.
- Theorem {lit}`alternativeBlock_windows`: both, with the consequence that an
  alternative block at the height of the window, above a split at height two or
  more, passes a timestamp check that the main chain makes against a full
  window.
-/

namespace CryptoNote

namespace Blockchain

variable (currency : Currency) (env : ChainEnv)

/-- The chain an alternative chain that forks at height {lit}`split` makes once
it is switched to: the main blocks below the split, then the alternative
blocks. -/
def spliceAltChain (s : Blockchain) (split : Nat) (altChain : List (Hash × BlockEntry)) :
    Blockchain :=
  { s with blocks := s.blocks.take split ++ altChain.map Prod.snd }

/-- The timestamps {lit}`check_block_timestamp_main` takes the median of: those of
the last {lit}`timestampCheckWindow` blocks, or of all blocks. -/
def timestampWindow (s : Blockchain) : List UInt64 :=
  let size := s.blocks.length
  let offset := if size ≤ currency.timestampCheckWindow.toNat then 0
    else size - currency.timestampCheckWindow.toNat
  (s.blocks.drop offset).map fun block => block.bl.timestamp

/-! ## The spliced chain -/

/-- Reading the positions of a range within the list is taking its slice. -/
theorem map_getD_range' {α : Type} (l : List α) (d : α) {k n : Nat} (h : k + n ≤ l.length) :
    (List.range' k n).map (l.getD · d) = (l.drop k).take n := by
  apply List.ext_getElem
  · simp only [List.length_map, List.length_range', List.length_take, List.length_drop]
    omega
  · intro i hi _
    simp only [List.length_map, List.length_range'] at hi
    simp [List.getElem?_eq_getElem (show k + i < l.length by omega)]

theorem length_spliceAltChain {s : Blockchain} {split : Nat} (hmain : split ≤ s.blocks.length)
    (altChain : List (Hash × BlockEntry)) :
    (s.spliceAltChain split altChain).blocks.length = split + altChain.length := by
  simp [spliceAltChain, hmain]

theorem drop_spliceAltChain_of_le {s : Blockchain} {split k : Nat}
    (hmain : split ≤ s.blocks.length) (hk : k ≤ split) (altChain : List (Hash × BlockEntry)) :
    (s.spliceAltChain split altChain).blocks.drop k =
      (List.range' k (split - k)).map (s.blocks.getD · default) ++ altChain.map Prod.snd := by
  rw [spliceAltChain, List.drop_append_of_le_length (by simp; omega),
    map_getD_range' _ _ (by omega), List.drop_take]

theorem drop_spliceAltChain_of_ge {s : Blockchain} {split k : Nat}
    (hmain : split ≤ s.blocks.length) (hk : split ≤ k) (altChain : List (Hash × BlockEntry)) :
    (s.spliceAltChain split altChain).blocks.drop k = (altChain.map Prod.snd).drop (k - split) := by
  rw [spliceAltChain, List.drop_append, List.drop_eq_nil_of_le (by simp; omega), List.nil_append,
    List.length_take, Nat.min_eq_left hmain]

/-! ## The difficulty window -/

/-- The main and alternative blocks whose difficulties an alternative block is
checked against are the last {lit}`difficultyBlocksCount` blocks of the spliced
chain, the genesis block left out, as {lit}`getDifficultyForNextBlock` takes
them. -/
theorem getNextDifficultyForAlternativeChain_eq {s : Blockchain}
    {altChain : List (Hash × BlockEntry)} {split : Nat} (hsplit : 1 ≤ split)
    (hmain : split ≤ s.blocks.length)
    (hfront : ∀ front ∈ altChain.head?, front.2.height.toNat = split)
    (hsize : split + altChain.length < 2 ^ 32) :
    getNextDifficultyForAlternativeChain currency s altChain (split + altChain.length).toUInt32 =
      getDifficultyForNextBlock currency (s.spliceAltChain split altChain) := by
  set count := currency.difficultyBlocksCount.toNat
  have hoffset : (if split + altChain.length - min (split + altChain.length) count = 0 then 1
      else split + altChain.length - min (split + altChain.length) count) =
      max 1 (split + altChain.length - count) := by
    split <;> omega
  have hstart (hshort : altChain.length < count) :
      (if split - min (count - min count altChain.length) split = 0 then 1
        else split - min (count - min count altChain.length) split) =
      max 1 (split + altChain.length - count) := by
    split <;> omega
  unfold getNextDifficultyForAlternativeChain getDifficultyForNextBlock
  rw [length_spliceAltChain hmain]
  -- the main part stops at the split, read from the first alternative block or the height
  split
  case' h_1 _ _ entry hhead => rw [hfront (_, entry) (by rw [hhead]; rfl)]
  case' h_2 hhead =>
    have hnil : altChain.length = 0 := by simp [List.head?_eq_none_iff.mp hhead]
    rw [show (split + altChain.length).toUInt32.toNat = split by rw [hnil]; simp; omega]
  all_goals
    dsimp only
    rw [hoffset]
    split
    · rename_i hshort
      rw [hstart hshort, if_neg (by simp; omega), drop_spliceAltChain_of_le hmain (by omega)]
      simp only [List.map_append, List.map_map]
      rfl
    · rename_i hlong
      rw [show max 1 (split + altChain.length - count) = split + altChain.length - count by omega,
        drop_spliceAltChain_of_ge hmain (by omega), ← List.map_drop, List.map_map, List.map_map,
        show split + altChain.length - count - split = altChain.length - count by omega]
      rfl

/-! ## Timestamps -/

/-- The loop of {lit}`complete_timestamps_vector` from {lit}`start + 1` down to
{lit}`stop + 1`: the timestamps of those heights, the highest first. -/
theorem timestampsDown_succ (s : Blockchain) {stop start : Nat} (hle : stop ≤ start) :
    timestampsDown s stop (start + 1) =
      ((List.range' (stop + 1) (start + 1 - stop)).map
        fun i => (s.blocks.getD i default).bl.timestamp).reverse := by
  induction start, hle using Nat.le_induction with
  | base => simp [timestampsDown]
  | succ start hle ih =>
    rw [timestampsDown, if_neg (by omega), ih,
      show start + 1 + 1 - stop = start + 1 - stop + 1 by omega, List.range'_concat,
      show stop + 1 + 1 * (start + 1 - stop) = start + 1 + 1 by omega]
    simp

/-- Below the top of the main chain, {lit}`completeTimestampsVector` tops the
timestamps up with those of the main chain down from the top, to the window's
size. -/
theorem completeTimestampsVector_of_lt {s : Blockchain} {top : UInt64}
    (htop : top.toNat < s.blocks.length) (timestamps : List UInt64) :
    completeTimestampsVector currency s top timestamps =
      if currency.timestampCheckWindow.toNat ≤ timestamps.length then timestamps
      else timestamps ++ timestampsDown s
        (if top.toNat > currency.timestampCheckWindow.toNat - timestamps.length then
          top.toNat - (currency.timestampCheckWindow.toNat - timestamps.length) else 0)
        top.toNat := by
  simp only [completeTimestampsVector, ge_iff_le, htop, if_true]

/-- The timestamps the check of an alternative block reads: those of the
alternative chain, newest first, topped up from the main chain below the split. -/
theorem altChainTimestamps_eq {s : Blockchain} {altChain : List (Hash × BlockEntry)} {split : Nat}
    {mainPrev : Option UInt32} (hsplit : 1 ≤ split) (hsize : split < 2 ^ 32)
    (hmain : split < s.blocks.length)
    (hfront : ∀ front ∈ altChain.head?, front.2.height.toNat = split ∧
      front.2.bl.previousBlockHash = env.blockHash (s.blocks.getD (split - 1) default).bl)
    (hprev : altChain = [] → mainPrev = some (split - 1).toUInt32) :
    ∃ top : UInt64, top.toNat = split - 1 ∧
      altChainTimestamps currency env s altChain mainPrev =
        some (completeTimestampsVector currency s top
          (altChain.map fun p => p.2.bl.timestamp).reverse) := by
  cases altChain with
  | nil =>
    refine ⟨(split - 1).toUInt32.toUInt64, by simp; omega, ?_⟩
    rw [hprev rfl]
    rfl
  | cons front rest =>
    obtain ⟨hheight, hlink⟩ := hfront front rfl
    have hpos : 1 ≤ front.2.height := by
      rw [UInt32.le_iff_toNat_le, hheight]
      exact hsplit
    have hone : (front.2.height - 1).toNat = split - 1 := by
      rw [UInt32.toNat_sub_of_le _ _ hpos, hheight]
      rfl
    refine ⟨(front.2.height - 1).toUInt64, by rw [UInt32.toNat_toUInt64, hone], ?_⟩
    simp [altChainTimestamps, hheight, hone, hlink, hmain]

/-- Up to order, timestamps read down from below the split and then the
alternative chain's are the main window. -/
theorem reverse_append_reverse_perm (A L : List UInt64) :
    (A.reverse ++ L.reverse).Perm (L ++ A) := by
  rw [← List.reverse_append]
  exact List.reverse_perm _

/-- The timestamp window of the chain the alternative chain would make: the
timestamps of its last window's worth of blocks. -/
theorem timestampWindow_spliceAltChain {s : Blockchain} {split : Nat}
    (hmain : split ≤ s.blocks.length) (altChain : List (Hash × BlockEntry)) :
    timestampWindow currency (s.spliceAltChain split altChain) =
      ((s.spliceAltChain split altChain).blocks.drop
        (if split + altChain.length ≤ currency.timestampCheckWindow.toNat then 0
          else split + altChain.length - currency.timestampCheckWindow.toNat)).map
        fun block => block.bl.timestamp := by
  rw [timestampWindow, length_spliceAltChain hmain]

/-- The check of an alternative block reads the timestamps of the window of the
spliced chain exactly when the alternative chain fits in the window and either
starts at height one or makes a chain longer than the window. -/
theorem altChainTimestamps_perm_iff {s : Blockchain} {altChain : List (Hash × BlockEntry)}
    {split : Nat} {mainPrev : Option UInt32} (hsplit : 1 ≤ split) (hsize : split < 2 ^ 32)
    (hmain : split < s.blocks.length)
    (hfront : ∀ front ∈ altChain.head?, front.2.height.toNat = split ∧
      front.2.bl.previousBlockHash = env.blockHash (s.blocks.getD (split - 1) default).bl)
    (hprev : altChain = [] → mainPrev = some (split - 1).toUInt32) :
    ∃ timestamps, altChainTimestamps currency env s altChain mainPrev = some timestamps ∧
      (timestamps.Perm (timestampWindow currency (s.spliceAltChain split altChain)) ↔
        altChain.length ≤ currency.timestampCheckWindow.toNat ∧
          (split = 1 ∨ currency.timestampCheckWindow.toNat < split + altChain.length)) := by
  obtain ⟨top, htop, hts⟩ := altChainTimestamps_eq currency env hsplit hsize hmain hfront hprev
  refine ⟨_, hts, ?_⟩
  rw [completeTimestampsVector_of_lt currency (by omega), timestampWindow_spliceAltChain currency
    hmain.le, List.length_reverse, List.length_map, htop]
  set W := currency.timestampCheckWindow.toNat
  set A := altChain.map fun p => p.2.bl.timestamp
  have hA : A.length = altChain.length := List.length_map _
  have hAsnd : (altChain.map Prod.snd).map (fun block => block.bl.timestamp) = A := by
    rw [List.map_map]
    rfl
  by_cases hlong : W ≤ altChain.length
  · rw [if_pos hlong, if_neg (by omega), drop_spliceAltChain_of_ge hmain.le (by omega),
      List.map_drop, hAsnd]
    constructor
    · intro hperm
      have := hperm.length_eq
      simp only [List.length_reverse, List.length_drop, hA] at this
      omega
    · intro hfits
      rw [show split + altChain.length - W - split = 0 by omega, List.drop_zero]
      exact List.reverse_perm A
  · rw [if_neg hlong]
    generalize hstop : (if split - 1 > W - altChain.length then
      split - 1 - (W - altChain.length) else 0) = stop
    rcases Nat.lt_or_ge split 2 with hone | htwo
    · obtain rfl : split = 1 := by omega
      rw [if_pos (by omega), drop_spliceAltChain_of_le hmain.le (Nat.zero_le _), List.map_append,
        hAsnd, List.map_map, timestampsDown]
      exact iff_of_true (reverse_append_reverse_perm A [(s.blocks.getD 0 default).bl.timestamp])
        ⟨by omega, Or.inl rfl⟩
    · obtain ⟨k, hk⟩ : ∃ k, split - 1 = k + 1 := ⟨split - 2, by omega⟩
      have hstop_le : stop ≤ k := by
        rw [← hstop]
        split <;> omega
      rw [hk, timestampsDown_succ s hstop_le]
      by_cases hwide : W < split + altChain.length
      · have hfirst : stop + 1 = split + altChain.length - W := by
          rw [← hstop]
          split <;> omega
        rw [if_neg (by omega), drop_spliceAltChain_of_le hmain.le (by omega), List.map_append,
          hAsnd, List.map_map, hfirst, show k + 1 - stop = split - (split + altChain.length - W) by
            omega]
        exact iff_of_true (reverse_append_reverse_perm A _) ⟨by omega, Or.inr hwide⟩
      · rw [if_pos (by omega)]
        refine iff_of_false (fun hperm => ?_) (by omega)
        have hlength := hperm.length_eq
        simp only [List.length_append, List.length_reverse, List.length_map, List.length_range',
          List.length_drop, hA, length_spliceAltChain hmain.le] at hlength
        omega

/-- Above a split at height two or more, on a spliced chain no longer than the
window, the loop stops before the genesis block: one timestamp fewer than the
spliced chain has blocks. -/
theorem length_altChainTimestamps_of_short {s : Blockchain}
    {altChain : List (Hash × BlockEntry)} {split : Nat} {mainPrev : Option UInt32}
    (hsize : split < 2 ^ 32) (hmain : split < s.blocks.length)
    (hfront : ∀ front ∈ altChain.head?, front.2.height.toNat = split ∧
      front.2.bl.previousBlockHash = env.blockHash (s.blocks.getD (split - 1) default).bl)
    (hprev : altChain = [] → mainPrev = some (split - 1).toUInt32) (htwo : 2 ≤ split)
    (hshort : split + altChain.length ≤ currency.timestampCheckWindow.toNat)
    {timestamps : List UInt64}
    (hts : altChainTimestamps currency env s altChain mainPrev = some timestamps) :
    timestamps.length + 1 = split + altChain.length := by
  obtain ⟨top, htop, heq⟩ :=
    altChainTimestamps_eq currency env (by omega) hsize hmain hfront hprev
  rw [heq, Option.some.injEq] at hts
  obtain ⟨k, hk⟩ : ∃ k, split - 1 = k + 1 := ⟨split - 2, by omega⟩
  rw [← hts, completeTimestampsVector_of_lt currency (by omega), List.length_reverse,
    List.length_map, if_neg (by omega), if_neg (by omega), htop, hk,
    timestampsDown_succ s (Nat.zero_le k)]
  simp only [List.length_append, List.length_reverse, List.length_map, List.length_range']
  omega

/-- The windows of an alternative block against those of the chain it would
make.  The difficulty is the one {lit}`getDifficultyForNextBlock` computes on
that chain.  The timestamps are those of its main window, up to order, exactly
when the alternative chain is no longer than the window and the split is at
height one or the spliced chain is longer than the window.  Above a split at
height two or more, with as many blocks as the window, every block passes the
alternative check, while the main check takes the median of a full window. -/
theorem alternativeBlock_windows {s : Blockchain} {altChain : List (Hash × BlockEntry)}
    {split : Nat} {mainPrev : Option UInt32} (hsplit : 1 ≤ split)
    (hsize : split + altChain.length < 2 ^ 32) (hmain : split < s.blocks.length)
    (hfront : ∀ front ∈ altChain.head?, front.2.height.toNat = split ∧
      front.2.bl.previousBlockHash = env.blockHash (s.blocks.getD (split - 1) default).bl)
    (hprev : altChain = [] → mainPrev = some (split - 1).toUInt32) :
    getNextDifficultyForAlternativeChain currency s altChain (split + altChain.length).toUInt32 =
        getDifficultyForNextBlock currency (s.spliceAltChain split altChain) ∧
      ∃ timestamps, altChainTimestamps currency env s altChain mainPrev = some timestamps ∧
        (timestamps.Perm (timestampWindow currency (s.spliceAltChain split altChain)) ↔
          altChain.length ≤ currency.timestampCheckWindow.toNat ∧
            (split = 1 ∨ currency.timestampCheckWindow.toNat < split + altChain.length)) ∧
        (2 ≤ split → split + altChain.length = currency.timestampCheckWindow.toNat →
          (∀ block, checkBlockTimestamp currency timestamps block = true) ∧
            (timestampWindow currency (s.spliceAltChain split altChain)).length =
              currency.timestampCheckWindow.toNat) := by
  obtain ⟨timestamps, hts, hperm⟩ :=
    altChainTimestamps_perm_iff currency env hsplit (by omega) hmain hfront hprev
  have hdifficulty := getNextDifficultyForAlternativeChain_eq currency hsplit hmain.le
    (fun front hhead => (hfront front hhead).1) hsize
  refine ⟨hdifficulty, timestamps, hts, hperm, fun htwo hfull => ⟨fun block => ?_, ?_⟩⟩
  · have hlength := length_altChainTimestamps_of_short currency env (by omega) hmain hfront
      hprev htwo hfull.le hts
    rw [checkBlockTimestamp, if_pos (by omega)]
  · rw [timestampWindow_spliceAltChain currency hmain.le, if_pos hfull.le, List.drop_zero,
      List.length_map, length_spliceAltChain hmain.le, hfull]

/-- A main chain of sixty-one value-initialised blocks. -/
def sixtyOneBlocks : Blockchain := { sampleChain with blocks := List.replicate 61 default }

/-- On the sample currency, whose window is sixty blocks, a block filed as
alternative above the main block at height fifty-nine of a chain of sixty-one
blocks. -/
theorem alternativeBlock_windows_sixty :
    getNextDifficultyForAlternativeChain sampleCurrency sixtyOneBlocks []
        (60 + ([] : List (Hash × BlockEntry)).length).toUInt32 =
        getDifficultyForNextBlock sampleCurrency (sixtyOneBlocks.spliceAltChain 60 []) ∧
      ∃ timestamps, altChainTimestamps sampleCurrency sampleEnv sixtyOneBlocks [] (some 59) =
          some timestamps ∧
        (timestamps.Perm (timestampWindow sampleCurrency (sixtyOneBlocks.spliceAltChain 60 [])) ↔
          ([] : List (Hash × BlockEntry)).length ≤ sampleCurrency.timestampCheckWindow.toNat ∧
            (60 = 1 ∨ sampleCurrency.timestampCheckWindow.toNat <
              60 + ([] : List (Hash × BlockEntry)).length)) ∧
        (2 ≤ 60 → 60 + ([] : List (Hash × BlockEntry)).length =
            sampleCurrency.timestampCheckWindow.toNat →
          (∀ block, checkBlockTimestamp sampleCurrency timestamps block = true) ∧
            (timestampWindow sampleCurrency (sixtyOneBlocks.spliceAltChain 60 [])).length =
              sampleCurrency.timestampCheckWindow.toNat) :=
  alternativeBlock_windows sampleCurrency sampleEnv (by decide) (by simp)
    (by simp [sixtyOneBlocks]) (by simp) (fun _ => rfl)

end Blockchain

end CryptoNote
