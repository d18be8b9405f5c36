import Mathlib.Data.Nat.Find
import Mathlib.Order.Monotone.Basic
import CryptoNote.Types
import CryptoNote.Lib.ListWindow

/-!
# The short history of the wallet synchroniser

{lit}`SynchronizationState` keeps the hashes of the blocks a wallet has seen,
by height from the genesis block on.  To ask a node for the blocks it lacks,
the synchroniser sends a short history of them: the hashes of the last eleven
heights below {lit}`sz`, then of heights further and further back, and the
genesis hash last (src/transfers/SynchronizationState.cpp).

{lit}`getShortHistory` computes {lit}`sz` and runs its loop over {lit}`uint32`
locals, and the model keeps them as {lit}`UInt32`.  The loop is run with fuel,
and a run that is still in the loop when the fuel is spent is {lit}`none`.

Main results:

- Theorem {lit}`getShortHistory_max_localHeight`: at {lit}`localHeight =
  0xFFFFFFFF` the sum {lit}`localHeight + 1` wraps to {lit}`0`, so {lit}`sz` is
  {lit}`0` and the history is empty, whatever the chain.
- Theorem {lit}`getShortHistory_eq`: where neither {lit}`sz` nor the back offset
  wraps, forty rounds of fuel suffice and the history is the hashes at the
  heights {lit}`shortHistoryHeights sz`.
- Theorem {lit}`getShortHistory_well_formed`: those heights strictly decrease,
  start at {lit}`sz - 1`, step by one eleven times, then by doubling gaps, and
  end with the genesis height exactly once.
- Theorem {lit}`getShortHistory_repeats_of_large`: past {lit}`sz = 2 ^ 31 + 9`
  the back offset wraps to {lit}`9`, and every history the loop returns holds
  the hash at height {lit}`sz - 9` twice.
-/

namespace CryptoNote
namespace Transfers

/-! ## The model -/

/-- The state of {lit}`SynchronizationState`: the known block hashes, by height. -/
structure SynchronizationState where
  blockchain : List Hash

/-- The locals of the loop of {lit}`getShortHistory`. -/
structure ShortHistoryLoop where
  history : List Hash
  i : UInt32
  currentMultiplier : UInt32
  currentBackOffset : UInt32
  genesisIncluded : Bool

/-- One round of the loop: push the hash {lit}`currentBackOffset` heights below
{lit}`sz`, then move the offset on by one for the first ten rounds and by a
doubling multiplier after them. -/
def shortHistoryStep (blockchain : List Hash) (sz : UInt32) (l : ShortHistoryLoop) :
    ShortHistoryLoop :=
  let history := l.history ++ [blockchain.getD (sz - l.currentBackOffset).toNat default]
  let genesisIncluded := if sz - l.currentBackOffset = 0 then true else l.genesisIncluded
  if l.i < 10 then
    { history, genesisIncluded, i := l.i + 1, currentMultiplier := l.currentMultiplier,
      currentBackOffset := l.currentBackOffset + 1 }
  else
    { history, genesisIncluded, i := l.i + 1, currentMultiplier := l.currentMultiplier * 2,
      currentBackOffset := l.currentBackOffset + l.currentMultiplier * 2 }

/-- The loop {lit}`while (current_back_offset < sz)`, for at most {lit}`fuel` rounds. -/
def shortHistoryLoop (blockchain : List Hash) (sz : UInt32) :
    Nat → ShortHistoryLoop → Option ShortHistoryLoop
  | 0, l => if l.currentBackOffset < sz then none else some l
  | fuel + 1, l =>
    if l.currentBackOffset < sz then
      shortHistoryLoop blockchain sz fuel (shortHistoryStep blockchain sz l)
    else some l

/-- The locals before the first round. -/
def ShortHistoryLoop.init : ShortHistoryLoop :=
  { history := [], i := 0, currentMultiplier := 1, currentBackOffset := 1,
    genesisIncluded := false }

/-- The {lit}`sz` of {lit}`getShortHistory`: the smaller of the chain's length and
{lit}`localHeight + 1`, both as {lit}`uint32`. -/
def SynchronizationState.shortHistorySize (s : SynchronizationState) (localHeight : UInt32) :
    UInt32 :=
  min (UInt32.ofNat s.blockchain.length) (localHeight + 1)

/-- {lit}`getShortHistory(localHeight)`: the genesis hash is appended unless the
loop pushed it. -/
def SynchronizationState.getShortHistory (s : SynchronizationState) (localHeight : UInt32)
    (fuel : Nat) : Option (List Hash) :=
  let sz := s.shortHistorySize localHeight
  if sz = 0 then some []
  else
    (shortHistoryLoop s.blockchain sz fuel ShortHistoryLoop.init).map fun l =>
      if l.genesisIncluded then l.history else l.history ++ [s.blockchain.getD 0 default]

/-! ## The loop, one round at a time -/

section Loop

variable {blockchain : List Hash} {sz : UInt32}

@[simp]
theorem shortHistoryStep_history (l : ShortHistoryLoop) :
    (shortHistoryStep blockchain sz l).history =
      l.history ++ [blockchain.getD (sz - l.currentBackOffset).toNat default] := by
  by_cases h : l.i < 10 <;> simp [shortHistoryStep, h]

@[simp]
theorem shortHistoryStep_i (l : ShortHistoryLoop) :
    (shortHistoryStep blockchain sz l).i = l.i + 1 := by
  by_cases h : l.i < 10 <;> simp [shortHistoryStep, h]

theorem shortHistoryStep_currentMultiplier (l : ShortHistoryLoop) :
    (shortHistoryStep blockchain sz l).currentMultiplier =
      if l.i < 10 then l.currentMultiplier else l.currentMultiplier * 2 := by
  by_cases h : l.i < 10 <;> simp [shortHistoryStep, h]

theorem shortHistoryStep_currentBackOffset (l : ShortHistoryLoop) :
    (shortHistoryStep blockchain sz l).currentBackOffset =
      if l.i < 10 then l.currentBackOffset + 1
      else l.currentBackOffset + l.currentMultiplier * 2 := by
  by_cases h : l.i < 10 <;> simp [shortHistoryStep, h]

theorem shortHistoryStep_genesisIncluded (l : ShortHistoryLoop) :
    (shortHistoryStep blockchain sz l).genesisIncluded =
      if sz - l.currentBackOffset = 0 then true else l.genesisIncluded := by
  by_cases h : l.i < 10 <;> simp [shortHistoryStep, h]

theorem shortHistoryLoop_of_not_lt {l : ShortHistoryLoop} (h : ¬l.currentBackOffset < sz)
    (fuel : Nat) : shortHistoryLoop blockchain sz fuel l = some l := by
  cases fuel <;> simp [shortHistoryLoop, h]

theorem shortHistoryLoop_succ_of_lt {l : ShortHistoryLoop} (h : l.currentBackOffset < sz)
    (fuel : Nat) :
    shortHistoryLoop blockchain sz (fuel + 1) l =
      shortHistoryLoop blockchain sz fuel (shortHistoryStep blockchain sz l) := by
  simp [shortHistoryLoop, h]

/-- Every round appends to the history, so a run ends with the history it
started from as a prefix. -/
theorem history_prefix_of_shortHistoryLoop :
    ∀ (fuel : Nat) {l l' : ShortHistoryLoop},
      shortHistoryLoop blockchain sz fuel l = some l' → l.history <+: l'.history
  | 0, l, l', h => by
    simp only [shortHistoryLoop] at h
    split at h
    · cases h
    · cases h
      exact List.prefix_refl _
  | fuel + 1, l, l', h => by
    by_cases hlt : l.currentBackOffset < sz
    · rw [shortHistoryLoop_succ_of_lt hlt] at h
      have hstep : l.history <+: (shortHistoryStep blockchain sz l).history := by
        rw [shortHistoryStep_history]
        exact List.prefix_append _ _
      exact hstep.trans (history_prefix_of_shortHistoryLoop fuel h)
    · rw [shortHistoryLoop_of_not_lt hlt] at h
      cases h
      exact List.prefix_refl _

end Loop

/-! ## The heights of a short history

The back offsets in unbounded arithmetic: what the loop computes as long as
nothing wraps. -/

/-- The back offset of the k-th push: one more for each of the first ten
rounds, then a gap that doubles every round. -/
def backOffset (k : Nat) : Nat := if k < 10 then k + 1 else 9 + 2 ^ (k - 9)

/-- The multiplier after k rounds. -/
def multiplierAfter (k : Nat) : Nat := if k ≤ 10 then 1 else 2 ^ (k - 10)

/-- The multiplier doubles from round ten on. -/
theorem multiplierAfter_succ (k : Nat) :
    multiplierAfter (k + 1) = if k < 10 then multiplierAfter k else 2 * multiplierAfter k := by
  rcases Nat.lt_or_ge k 10 with hk | hk
  · simp [multiplierAfter, hk, show k + 1 ≤ 10 by omega, show k ≤ 10 by omega]
  · rw [if_neg (show ¬k < 10 by omega)]
    obtain rfl | hk := Nat.eq_or_lt_of_le hk
    · simp [multiplierAfter]
    · simp only [multiplierAfter, if_neg (show ¬k + 1 ≤ 10 by omega),
        if_neg (show ¬k ≤ 10 by omega), show k + 1 - 10 = k - 10 + 1 by omega, Nat.pow_succ]
      omega

/-- The back offset grows by one for ten rounds, then by the multiplier. -/
theorem backOffset_succ (k : Nat) :
    backOffset (k + 1) =
      if k < 10 then backOffset k + 1 else backOffset k + multiplierAfter (k + 1) := by
  rcases Nat.lt_or_ge k 9 with hk | hk
  · simp [backOffset, show k + 1 < 10 by omega, show k < 10 by omega]
  · obtain rfl | hk := Nat.eq_or_lt_of_le hk
    · simp [backOffset]
    · rw [if_neg (show ¬k < 10 by omega)]
      simp only [backOffset, multiplierAfter, if_neg (show ¬k + 1 < 10 by omega),
        if_neg (show ¬k < 10 by omega), if_neg (show ¬k + 1 ≤ 10 by omega),
        show k + 1 - 9 = k - 9 + 1 by omega, show k + 1 - 10 = k - 9 by omega, Nat.pow_succ]
      omega

/-- The back offset grows at every round. -/
theorem backOffset_lt_succ (k : Nat) : backOffset k < backOffset (k + 1) := by
  rw [backOffset_succ]
  split
  · omega
  · have : 0 < multiplierAfter (k + 1) := by
      unfold multiplierAfter
      split
      · omega
      · exact Nat.two_pow_pos _
    omega

theorem backOffset_strictMono : StrictMono backOffset :=
  strictMono_nat_of_lt_succ backOffset_lt_succ

theorem lt_backOffset (k : Nat) : k < backOffset k := by
  induction k with
  | zero => simp [backOffset]
  | succ k ih => have := backOffset_lt_succ k; omega

theorem backOffset_forty : backOffset 40 = 2 ^ 31 + 9 := by
  simp [backOffset]

theorem multiplierAfter_le (k : Nat) (hk : k ≤ 41) : multiplierAfter k ≤ 2 ^ 31 := by
  unfold multiplierAfter
  split
  · omega
  · exact Nat.pow_le_pow_right (by omega) (by omega)

theorem exists_le_backOffset (sz : Nat) : ∃ k, sz ≤ backOffset k :=
  ⟨sz, (lt_backOffset sz).le⟩

/-- The number of rounds for a chain of sz hashes: the first k whose back offset
reaches sz. -/
def pushCount (sz : Nat) : Nat :=
  Nat.find (exists_le_backOffset sz)

theorem le_backOffset_pushCount (sz : Nat) : sz ≤ backOffset (pushCount sz) :=
  Nat.find_spec (exists_le_backOffset sz)

theorem backOffset_lt_of_lt_pushCount {sz j : Nat} (hj : j < pushCount sz) :
    backOffset j < sz :=
  Nat.lt_of_not_le (Nat.find_min (exists_le_backOffset sz) hj)

theorem pushCount_le_forty {sz : Nat} (hsz : sz ≤ 2 ^ 31 + 9) : pushCount sz ≤ 40 :=
  Nat.find_min' (exists_le_backOffset sz) (backOffset_forty ▸ hsz)

/-- The heights of the short history of a chain cut at sz hashes: the height of
each push, then the genesis height. -/
def shortHistoryHeights (sz : Nat) : List Nat :=
  (List.range (pushCount sz)).map (fun k => sz - backOffset k) ++ [0]

/-! ## The loop in unbounded arithmetic -/

/-- The locals after k rounds in which nothing wrapped: the counters are the
unbounded ones and the history holds the pushes so far. -/
structure ShortHistoryLoop.After (blockchain : List Hash) (sz : UInt32) (k : Nat)
    (l : ShortHistoryLoop) : Prop where
  i_toNat : l.i.toNat = k
  currentMultiplier_toNat : l.currentMultiplier.toNat = multiplierAfter k
  currentBackOffset_toNat : l.currentBackOffset.toNat = backOffset k
  genesisIncluded_eq : l.genesisIncluded = false
  history_eq : l.history = (List.range k).map fun j => blockchain.getD (sz.toNat - backOffset j) default

section After

variable {blockchain : List Hash} {sz : UInt32}

theorem ShortHistoryLoop.after_init : ShortHistoryLoop.init.After blockchain sz 0 where
  i_toNat := rfl
  currentMultiplier_toNat := rfl
  currentBackOffset_toNat := rfl
  genesisIncluded_eq := rfl
  history_eq := rfl

theorem ShortHistoryLoop.After.lt_iff {k : Nat} {l : ShortHistoryLoop}
    (hl : l.After blockchain sz k) : l.currentBackOffset < sz ↔ backOffset k < sz.toNat := by
  rw [UInt32.lt_iff_toNat_lt, hl.currentBackOffset_toNat]

/-- The step lemma: a round below the wrap keeps the counters unbounded.  Before
round 40 the offset stays at most {lit}`backOffset 40 = 2 ^ 31 + 9`. -/
theorem ShortHistoryLoop.After.step {k : Nat} {l : ShortHistoryLoop}
    (hl : l.After blockchain sz k) (hk : k < 40) (hlt : backOffset k < sz.toNat) :
    (shortHistoryStep blockchain sz l).After blockchain sz (k + 1) := by
  have hround : l.i < 10 ↔ k < 10 := by
    rw [UInt32.lt_iff_toNat_lt, hl.i_toNat]
    simp
  have hsub : (sz - l.currentBackOffset).toNat = sz.toNat - backOffset k := by
    have hle : l.currentBackOffset ≤ sz := by
      rw [UInt32.le_iff_toNat_le, hl.currentBackOffset_toNat]
      omega
    rw [UInt32.toNat_sub_of_le _ _ hle, hl.currentBackOffset_toNat]
  have hbound : backOffset (k + 1) ≤ 2 ^ 31 + 9 :=
    backOffset_forty ▸ backOffset_strictMono.monotone (by omega)
  have hmult : multiplierAfter (k + 1) ≤ 2 ^ 31 := multiplierAfter_le (k + 1) (by omega)
  have hstep := backOffset_succ k
  have hmultStep := multiplierAfter_succ k
  constructor
  case i_toNat =>
    rw [shortHistoryStep_i, UInt32.toNat_add, hl.i_toNat]
    simp
    omega
  case currentMultiplier_toNat =>
    rw [shortHistoryStep_currentMultiplier]
    by_cases h10 : k < 10
    · simp only [hround.mpr h10, if_true, hl.currentMultiplier_toNat, hmultStep, h10]
    · simp only [hround, h10, if_false, UInt32.toNat_mul, hl.currentMultiplier_toNat] at hmultStep ⊢
      simp
      omega
  case currentBackOffset_toNat =>
    rw [shortHistoryStep_currentBackOffset]
    by_cases h10 : k < 10
    · simp only [hround.mpr h10, if_true, h10] at hstep ⊢
      rw [UInt32.toNat_add, hl.currentBackOffset_toNat]
      simp
      omega
    · simp only [hround, h10, if_false] at hstep hmultStep ⊢
      rw [UInt32.toNat_add, UInt32.toNat_mul, hl.currentBackOffset_toNat,
        hl.currentMultiplier_toNat]
      simp
      omega
  case genesisIncluded_eq =>
    have hne : sz - l.currentBackOffset ≠ 0 := by
      intro h0
      have := congrArg UInt32.toNat h0
      rw [hsub] at this
      simp at this
      omega
    rw [shortHistoryStep_genesisIncluded, if_neg hne, hl.genesisIncluded_eq]
  case history_eq =>
    rw [shortHistoryStep_history, hl.history_eq, hsub, List.range_succ, List.map_append,
      List.map_singleton]

/-- The run lemma: from the locals after k rounds, a run with enough fuel makes
exactly the rounds up to the first n whose offset reaches sz. -/
theorem shortHistoryLoop_after {n : Nat} (hn : n ≤ 40)
    (hrun : ∀ j < n, backOffset j < sz.toNat) (hexit : sz.toNat ≤ backOffset n) :
    ∀ (fuel k : Nat) (l : ShortHistoryLoop), k ≤ n → n ≤ k + fuel →
      l.After blockchain sz k →
        ∃ l', shortHistoryLoop blockchain sz fuel l = some l' ∧ l'.After blockchain sz n := by
  intro fuel
  induction fuel with
  | zero =>
    intro k l hkn hfuel hl
    obtain rfl : k = n := by omega
    refine ⟨l, shortHistoryLoop_of_not_lt ?_ 0, hl⟩
    rw [hl.lt_iff]
    omega
  | succ fuel ih =>
    intro k l hkn hfuel hl
    by_cases hk : k = n
    · subst hk
      refine ⟨l, shortHistoryLoop_of_not_lt ?_ _, hl⟩
      rw [hl.lt_iff]
      omega
    · have hlt : backOffset k < sz.toNat := hrun k (by omega)
      rw [shortHistoryLoop_succ_of_lt (hl.lt_iff.mpr hlt)]
      exact ih (k + 1) _ (by omega) (by omega) (hl.step (by omega) hlt)

/-- A finished run from locals whose offset is below sz went through one more round. -/
theorem shortHistoryLoop_passes {l l' : ShortHistoryLoop} {fuel : Nat}
    (h : shortHistoryLoop blockchain sz fuel l = some l') (hlt : l.currentBackOffset < sz) :
    ∃ fuel', shortHistoryLoop blockchain sz fuel' (shortHistoryStep blockchain sz l) = some l' := by
  cases fuel with
  | zero => simp [shortHistoryLoop, hlt] at h
  | succ fuel => exact ⟨fuel, by rwa [shortHistoryLoop_succ_of_lt hlt] at h⟩

/-- A finished run from the first locals went through the locals after each of the
first n rounds, as long as those rounds stay below the wrap. -/
theorem shortHistoryLoop_init_passes {l' : ShortHistoryLoop} {fuel : Nat}
    (h : shortHistoryLoop blockchain sz fuel ShortHistoryLoop.init = some l') :
    ∀ n, n ≤ 40 → (∀ j < n, backOffset j < sz.toNat) →
      ∃ l fuel', l.After blockchain sz n ∧ shortHistoryLoop blockchain sz fuel' l = some l'
  | 0, _, _ => ⟨_, fuel, ShortHistoryLoop.after_init, h⟩
  | n + 1, hn, hrun => by
    obtain ⟨l, fuel', hl, hl'⟩ :=
      shortHistoryLoop_init_passes h n (by omega) fun j hj => hrun j (by omega)
    have hlt := hrun n (by omega)
    obtain ⟨fuel'', hstep⟩ := shortHistoryLoop_passes hl' (hl.lt_iff.mpr hlt)
    exact ⟨_, fuel'', hl.step (by omega) hlt, hstep⟩

end After

/-! ## The history where nothing wraps -/

/-- The claim's {lit}`sz`, in unbounded arithmetic. -/
def SynchronizationState.historySize (s : SynchronizationState) (localHeight : UInt32) : Nat :=
  min s.blockchain.length (localHeight.toNat + 1)

/-- Where the chain's length and {lit}`localHeight + 1` fit in a {lit}`uint32`, the
code's {lit}`sz` is the unbounded one. -/
theorem toNat_shortHistorySize {s : SynchronizationState} {localHeight : UInt32}
    (hlength : s.blockchain.length < 2 ^ 32) (hheight : localHeight.toNat < 2 ^ 32 - 1) :
    (s.shortHistorySize localHeight).toNat = s.historySize localHeight := by
  rw [SynchronizationState.shortHistorySize, UInt32.toNat_min, UInt32.toNat_ofNat',
    UInt32.toNat_add, SynchronizationState.historySize]
  simp
  omega

/-- Below the wrap forty rounds of fuel suffice, and the history is the hashes at
the heights {lit}`shortHistoryHeights sz`. -/
theorem getShortHistory_eq (s : SynchronizationState) (localHeight : UInt32) (fuel : Nat)
    (hlength : s.blockchain.length < 2 ^ 32) (hheight : localHeight.toNat < 2 ^ 32 - 1)
    (hpos : 0 < s.historySize localHeight) (hsmall : s.historySize localHeight ≤ 2 ^ 31 + 9)
    (hfuel : 40 ≤ fuel) :
    s.getShortHistory localHeight fuel =
      some ((shortHistoryHeights (s.historySize localHeight)).map
        fun h => s.blockchain.getD h default) := by
  have hsz := toNat_shortHistorySize hlength hheight
  have hne : s.shortHistorySize localHeight ≠ 0 := by
    intro h0
    rw [h0] at hsz
    simp at hsz
    omega
  have hcount := pushCount_le_forty hsmall
  obtain ⟨l, hrun, hl⟩ :=
    @shortHistoryLoop_after s.blockchain (s.shortHistorySize localHeight)
      (pushCount (s.historySize localHeight)) hcount
      (fun j hj => hsz ▸ backOffset_lt_of_lt_pushCount hj)
      (hsz ▸ le_backOffset_pushCount _) fuel 0 ShortHistoryLoop.init (Nat.zero_le _)
      (by omega) ShortHistoryLoop.after_init
  simp only [SynchronizationState.getShortHistory, if_neg hne, hrun, Option.map_some,
    hl.genesisIncluded_eq, hl.history_eq, hsz, shortHistoryHeights, List.map_append, List.map_map]
  rfl

/-! ## The shape of the heights -/

section Heights

variable {sz : Nat}

theorem lt_pushCount_of_backOffset_lt {j : Nat} (hj : backOffset j < sz) : j < pushCount sz := by
  by_contra hle
  have := backOffset_strictMono.monotone (Nat.le_of_not_lt hle)
  have := le_backOffset_pushCount sz
  omega

theorem backOffset_of_le_ten {j : Nat} (hj : j ≤ 10) : backOffset j = j + 1 := by
  unfold backOffset
  split
  · rfl
  · obtain rfl : j = 10 := by omega
    rfl

theorem getElem?_shortHistoryHeights {j : Nat} (hj : j < pushCount sz) :
    (shortHistoryHeights sz)[j]? = some (sz - backOffset j) := by
  simp [shortHistoryHeights, List.getElem?_append_left, hj]

theorem length_shortHistoryHeights : (shortHistoryHeights sz).length = pushCount sz + 1 := by
  simp [shortHistoryHeights]

/-- Each push is above the genesis height and below the one before. -/
theorem shortHistoryHeights_pairwise : (shortHistoryHeights sz).Pairwise (· > ·) := by
  unfold shortHistoryHeights
  rw [List.pairwise_append]
  refine ⟨?_, List.pairwise_singleton _ _, ?_⟩
  · rw [List.pairwise_map]
    refine List.pairwise_lt_range.imp_of_mem ?_
    intro j j' _ hj' hlt
    have hbelow := backOffset_lt_of_lt_pushCount (List.mem_range.mp hj')
    have hmono := backOffset_strictMono hlt
    omega
  · intro a ha b hb
    obtain ⟨j, hj, rfl⟩ := List.mem_map.mp ha
    rw [List.mem_singleton] at hb
    subst hb
    have := backOffset_lt_of_lt_pushCount (List.mem_range.mp hj)
    omega

/-- The first eleven pushes, or all of them on a shorter chain, are the heights
right below sz. -/
theorem getD_shortHistoryHeights_of_lt {j : Nat} (hj : j < min (sz - 1) 11) :
    (shortHistoryHeights sz).getD j 0 = sz - 1 - j := by
  have hoffset : backOffset j = j + 1 := backOffset_of_le_ten (by omega)
  rw [List.getD_eq_getElem?_getD,
    getElem?_shortHistoryHeights (lt_pushCount_of_backOffset_lt (by omega)), hoffset]
  simp
  omega

/-- From the tenth push on, each gap is twice the one before. -/
theorem shortHistoryHeights_gap_doubles {j : Nat} (hj : 9 ≤ j)
    (hlen : j + 3 < (shortHistoryHeights sz).length) :
    (shortHistoryHeights sz).getD (j + 1) 0 - (shortHistoryHeights sz).getD (j + 2) 0 =
      2 * ((shortHistoryHeights sz).getD j 0 - (shortHistoryHeights sz).getD (j + 1) 0) := by
  rw [length_shortHistoryHeights] at hlen
  simp only [List.getD_eq_getElem?_getD, getElem?_shortHistoryHeights (show j < pushCount sz by omega),
    getElem?_shortHistoryHeights (show j + 1 < pushCount sz by omega),
    getElem?_shortHistoryHeights (show j + 2 < pushCount sz by omega), Option.getD_some]
  have hbelow := backOffset_lt_of_lt_pushCount (show j + 2 < pushCount sz by omega)
  have hmono := backOffset_lt_succ j
  have hstep : backOffset (j + 2) = backOffset (j + 1) + multiplierAfter (j + 2) := by
    rw [backOffset_succ (j + 1), if_neg (by omega)]
  have hmult : multiplierAfter (j + 2) = 2 * multiplierAfter (j + 1) := by
    rw [multiplierAfter_succ (j + 1), if_neg (by omega)]
  -- the gap before is the multiplier after j + 1 rounds; after ten rounds it is still one
  have hgap : backOffset (j + 1) = backOffset j + multiplierAfter (j + 1) := by
    rw [backOffset_succ j]
    split
    · obtain rfl : j = 9 := by omega
      rfl
    · rfl
  omega

theorem head?_shortHistoryHeights (hsz : 1 < sz) :
    (shortHistoryHeights sz).head? = some (sz - 1) := by
  rw [List.head?_eq_getElem?, getElem?_shortHistoryHeights (lt_pushCount_of_backOffset_lt hsz)]
  rfl

theorem getLast?_shortHistoryHeights : (shortHistoryHeights sz).getLast? = some 0 := by
  simp [shortHistoryHeights]

/-- Every height of the history lies below {lit}`sz`. -/
theorem lt_of_mem_shortHistoryHeights {h : Nat} (hsz : 0 < sz) (hh : h ∈ shortHistoryHeights sz) :
    h < sz := by
  rw [shortHistoryHeights, List.mem_append, List.mem_singleton] at hh
  rcases hh with hh | rfl
  · obtain ⟨k, _, rfl⟩ := List.mem_map.mp hh
    have := lt_backOffset k
    omega
  · exact hsz

/-- The history of a nonempty chain starts at its top, {lit}`sz - 1`. -/
theorem head?_shortHistoryHeights_of_pos (hsz : 0 < sz) :
    (shortHistoryHeights sz).head? = some (sz - 1) := by
  rcases Nat.lt_or_ge 1 sz with hlt | hle
  · exact head?_shortHistoryHeights hlt
  · obtain rfl : sz = 1 := by omega
    have hcount : pushCount 1 = 0 := (Nat.find_eq_zero (exists_le_backOffset 1)).mpr le_rfl
    simp [shortHistoryHeights, hcount]

/-- The genesis height comes once: every push is above it. -/
theorem count_zero_shortHistoryHeights : (shortHistoryHeights sz).count 0 = 1 := by
  rw [shortHistoryHeights, List.count_append, List.count_singleton_self, List.count_eq_zero.mpr]
  intro hmem
  obtain ⟨j, hj, hzero⟩ := List.mem_map.mp hmem
  have := backOffset_lt_of_lt_pushCount (List.mem_range.mp hj)
  omega

end Heights

/-- Below the wrap the short history is well formed: its heights strictly
decrease, start at {lit}`sz - 1`, step by one for the first {lit}`min (sz - 1) 11`
heights and by doubling gaps after them, and end with the genesis height, once. -/
theorem getShortHistory_well_formed (s : SynchronizationState) (localHeight : UInt32)
    (fuel : Nat) (hlength : s.blockchain.length < 2 ^ 32)
    (hheight : localHeight.toNat < 2 ^ 32 - 1) (hpos : 0 < s.historySize localHeight)
    (hsmall : s.historySize localHeight ≤ 2 ^ 31 + 9) (hfuel : 40 ≤ fuel) :
    ∃ heights : List Nat,
      s.getShortHistory localHeight fuel =
          some (heights.map fun h => s.blockchain.getD h default) ∧
        heights.Pairwise (· > ·) ∧
        (1 < s.historySize localHeight →
          heights.head? = some (s.historySize localHeight - 1)) ∧
        (∀ j < min (s.historySize localHeight - 1) 11,
          heights.getD j 0 = s.historySize localHeight - 1 - j) ∧
        (∀ j, 9 ≤ j → j + 3 < heights.length →
          heights.getD (j + 1) 0 - heights.getD (j + 2) 0 =
            2 * (heights.getD j 0 - heights.getD (j + 1) 0)) ∧
        heights.getLast? = some 0 ∧ heights.count 0 = 1 :=
  ⟨shortHistoryHeights (s.historySize localHeight),
    getShortHistory_eq s localHeight fuel hlength hheight hpos hsmall hfuel,
    shortHistoryHeights_pairwise, head?_shortHistoryHeights,
    fun _ hj => getD_shortHistoryHeights_of_lt hj,
    fun _ hj hlen => shortHistoryHeights_gap_doubles hj hlen,
    getLast?_shortHistoryHeights, count_zero_shortHistoryHeights⟩

/-- The short history of a state of twenty blocks, at the local height 15. -/
theorem getShortHistory_well_formed_sixteen :
    ∃ heights : List Nat,
      (SynchronizationState.mk (List.replicate 20 default)).getShortHistory 15 40 =
          some (heights.map fun h => (List.replicate 20 (default : Hash)).getD h default) ∧
        heights.Pairwise (· > ·) ∧
        (1 < 16 → heights.head? = some (16 - 1)) ∧
        (∀ j < min (16 - 1) 11, heights.getD j 0 = 16 - 1 - j) ∧
        (∀ j, 9 ≤ j → j + 3 < heights.length →
          heights.getD (j + 1) 0 - heights.getD (j + 2) 0 =
            2 * (heights.getD j 0 - heights.getD (j + 1) 0)) ∧
        heights.getLast? = some 0 ∧ heights.count 0 = 1 :=
  getShortHistory_well_formed ⟨List.replicate 20 default⟩ 15 40 (by simp) (by simp)
    (by simp [SynchronizationState.historySize]) (by simp [SynchronizationState.historySize])
    (by omega)

/-! ## The wrap of the back offset -/

/-- Past {lit}`sz = 2 ^ 31 + 9` the offset wraps in round 40: the multiplier
reaches {lit}`2 ^ 31`, the offset {lit}`2 ^ 31 + 9 + 2 ^ 31` is {lit}`9` modulo
{lit}`2 ^ 32`, and round 41 pushes the hash at height {lit}`sz - 9` a second
time.  So every history the loop returns repeats that hash. -/
theorem getShortHistory_repeats_of_large (s : SynchronizationState) (localHeight : UInt32)
    (fuel : Nat) {history : List Hash}
    (hlarge : 2 ^ 31 + 9 < (s.shortHistorySize localHeight).toNat)
    (h : s.getShortHistory localHeight fuel = some history) :
    history[8]? =
        some (s.blockchain.getD ((s.shortHistorySize localHeight).toNat - 9) default) ∧
      history[41]? = history[8]? := by
  have hne : s.shortHistorySize localHeight ≠ 0 := by
    intro h0
    rw [h0] at hlarge
    simp at hlarge
  simp only [SynchronizationState.getShortHistory, if_neg hne, Option.map_eq_some_iff] at h
  obtain ⟨l', hrun, hfinal⟩ := h
  generalize s.shortHistorySize localHeight = sz at hlarge hrun ⊢
  have hbelow : ∀ j < 40, backOffset j < sz.toNat := fun j hj => by
    have := backOffset_strictMono hj
    rw [backOffset_forty] at this
    omega
  obtain ⟨l40, fuel40, hl40, hrun40⟩ := shortHistoryLoop_init_passes hrun 40 le_rfl hbelow
  have hlt40 : l40.currentBackOffset < sz := hl40.lt_iff.mpr (by rw [backOffset_forty]; omega)
  obtain ⟨fuel41, hrun41⟩ := shortHistoryLoop_passes hrun40 hlt40
  -- round 40 adds the multiplier 2 ^ 31 to the offset 2 ^ 31 + 9
  have hoffset41 : (shortHistoryStep s.blockchain sz l40).currentBackOffset.toNat = 9 := by
    have hround : ¬l40.i < 10 := by
      rw [UInt32.lt_iff_toNat_lt, hl40.i_toNat]
      simp
    rw [shortHistoryStep_currentBackOffset, if_neg hround, UInt32.toNat_add, UInt32.toNat_mul,
      hl40.currentBackOffset_toNat, hl40.currentMultiplier_toNat, backOffset_forty]
    simp [multiplierAfter]
  have hhistory41 : (shortHistoryStep s.blockchain sz l40).history =
      (List.range 41).map fun j => s.blockchain.getD (sz.toNat - backOffset j) default := by
    have hle : l40.currentBackOffset ≤ sz := UInt32.le_of_lt hlt40
    rw [shortHistoryStep_history, hl40.history_eq, UInt32.toNat_sub_of_le _ _ hle,
      hl40.currentBackOffset_toNat, @List.range_succ 40, List.map_append, List.map_singleton]
  have hlt41 : (shortHistoryStep s.blockchain sz l40).currentBackOffset < sz := by
    rw [UInt32.lt_iff_toNat_lt, hoffset41]
    omega
  obtain ⟨fuel42, hrun42⟩ := shortHistoryLoop_passes hrun41 hlt41
  -- round 41 pushes the hash at sz - 9, which round 8 pushed already
  have hstart := history_prefix_of_shortHistoryLoop fuel42 hrun42
  rw [shortHistoryStep_history, hhistory41,
    UInt32.toNat_sub_of_le _ _ (UInt32.le_of_lt hlt41), hoffset41] at hstart
  have hhistory : ((List.range 41).map (fun j => s.blockchain.getD (sz.toNat - backOffset j) default) ++
      [s.blockchain.getD (sz.toNat - 9) default]) <+: history := by
    rw [← hfinal]
    split
    · exact hstart
    · exact hstart.trans (List.prefix_append _ _)
  obtain ⟨rest, rfl⟩ := hhistory
  have h8 : backOffset 8 = 9 := rfl
  constructor
  · simp [List.getElem?_append_left, h8]
  · simp [List.getElem?_append_left, h8]

/-! ## The wrap of {lit}`localHeight + 1` -/

/-- At the greatest {lit}`uint32` height the history is empty for every chain and
every fuel: {lit}`localHeight + 1` is {lit}`0`, so {lit}`sz` is {lit}`0`. -/
theorem getShortHistory_max_localHeight (blockchain : List Hash) (fuel : Nat) :
    (SynchronizationState.mk blockchain).getShortHistory 0xFFFFFFFF fuel = some [] := by
  have hsz : (SynchronizationState.mk blockchain).shortHistorySize 0xFFFFFFFF = 0 := by
    apply UInt32.toNat_inj.mp
    simp [SynchronizationState.shortHistorySize, UInt32.toNat_min]
  simp [SynchronizationState.getShortHistory, hsz]

/-! ## Checking an interval of the node's chain

The node answers a short history with the hashes of its chain from the first
height of the history it knows.  {lit}`checkInterval` compares them with the
chain of the state over the heights both cover, {lit}`detach` cuts the chain,
{lit}`addBlocks` appends to it. -/

/-- {lit}`BlockchainInterval`: hashes of consecutive blocks from a start height
on. -/
structure BlockchainInterval where
  startHeight : UInt32
  blocks : List Hash

/-- {lit}`SynchronizationState::CheckResult`. -/
structure CheckResult where
  detachRequired : Bool
  detachHeight : UInt32
  hasNewBlocks : Bool
  newBlockHeight : UInt32
  deriving DecidableEq

/-- The loop of {lit}`checkInterval`: from height {lit}`i` on, for {lit}`fuel`
heights, the first where the chain's hash differs from the interval's.  The
{lit}`uint32_t` counter stays below {lit}`iterationEnd` and never wraps. -/
def firstMismatch (blockchain blocks : List Hash) (startHeight : Nat) : Nat → Nat → Option Nat
  | 0, _ => none
  | fuel + 1, i =>
    if blockchain.getD i default ≠ blocks.getD (i - startHeight) default then some i
    else firstMismatch blockchain blocks startHeight fuel (i + 1)

/-- {lit}`checkInterval`: the first height of the interval where the chain
differs asks for a detach there and for new blocks from there; without one there
are new blocks when the interval ends above the chain.  The end of the interval
is summed as {lit}`uint32_t`, and the loop runs the {lit}`iterationEnd -
startHeight` rounds it makes. -/
def SynchronizationState.checkInterval (s : SynchronizationState)
    (interval : BlockchainInterval) : CheckResult :=
  let intervalEnd := interval.startHeight + UInt32.ofNat interval.blocks.length
  let iterationEnd := min (UInt32.ofNat s.blockchain.length) intervalEnd
  match firstMismatch s.blockchain interval.blocks interval.startHeight.toNat
      (iterationEnd.toNat - interval.startHeight.toNat) interval.startHeight.toNat with
  | some i =>
    { detachRequired := true, detachHeight := UInt32.ofNat i, hasNewBlocks := true,
      newBlockHeight := UInt32.ofNat i }
  | none =>
    if s.blockchain.length < intervalEnd.toNat then
      { detachRequired := false, detachHeight := 0, hasNewBlocks := true,
        newBlockHeight := UInt32.ofNat s.blockchain.length }
    else
      { detachRequired := false, detachHeight := 0, hasNewBlocks := false, newBlockHeight := 0 }

/-- {lit}`detach(height)`: {lit}`m_blockchain.resize(height)`. -/
def SynchronizationState.detach (s : SynchronizationState) (height : UInt32) :
    SynchronizationState :=
  { blockchain := resize s.blockchain height.toNat }

/-- {lit}`addBlocks(blockHashes, height, count)`: the {lit}`count` hashes from
{lit}`blockHashes` on are appended; the height only feeds an assertion. -/
def SynchronizationState.addBlocks (s : SynchronizationState) (blockHashes : List Hash)
    (_height count : UInt32) : SynchronizationState :=
  { blockchain := s.blockchain ++ blockHashes.take count.toNat }

/-- {lit}`getHeight`. -/
def SynchronizationState.getHeight (s : SynchronizationState) : UInt32 :=
  UInt32.ofNat s.blockchain.length

section Check

open ListWindow

variable {blockchain blocks : List Hash} {startHeight : Nat}

/-- A mismatch the loop reports is the first one from where it started. -/
theorem firstMismatch_eq_some {fuel i j : Nat}
    (h : firstMismatch blockchain blocks startHeight fuel i = some j) :
    i ≤ j ∧ j < i + fuel ∧
      blockchain.getD j default ≠ blocks.getD (j - startHeight) default ∧
      ∀ k, i ≤ k → k < j → blockchain.getD k default = blocks.getD (k - startHeight) default := by
  induction fuel generalizing i with
  | zero => simp [firstMismatch] at h
  | succ fuel ih =>
    rw [firstMismatch] at h
    split at h
    · cases h
      exact ⟨le_rfl, by omega, ‹_›, fun k hk hkj => absurd hkj (by omega)⟩
    · rename_i hsame
      obtain ⟨hij, hjfuel, hne, hagree⟩ := ih h
      refine ⟨by omega, by omega, hne, fun k hk hkj => ?_⟩
      rcases Nat.eq_or_lt_of_le hk with rfl | hk
      · exact not_not.mp hsame
      · exact hagree k hk hkj

/-- A loop that finds no mismatch saw the chain agree at every height it ran
over. -/
theorem firstMismatch_eq_none {fuel i : Nat}
    (h : firstMismatch blockchain blocks startHeight fuel i = none) :
    ∀ k, i ≤ k → k < i + fuel →
      blockchain.getD k default = blocks.getD (k - startHeight) default := by
  induction fuel generalizing i with
  | zero => intro k hk hkf; omega
  | succ fuel ih =>
    rw [firstMismatch] at h
    split at h
    · cases h
    · rename_i hsame
      intro k hk hkf
      rcases Nat.eq_or_lt_of_le hk with rfl | hk
      · exact not_not.mp hsame
      · exact ih h k hk (by omega)

/-- Every outcome of {lit}`checkInterval` below the wrap of {lit}`uint32_t`: a
detach at the first height where the chain and the interval differ; new blocks
from the chain's end when the interval agrees with the chain and ends above it;
nothing when it agrees and ends within. -/
theorem checkInterval_cases (s : SynchronizationState) (interval : BlockchainInterval)
    (hlength : s.blockchain.length < 2 ^ 32)
    (hend : interval.startHeight.toNat + interval.blocks.length < 2 ^ 32) :
    (∃ d, interval.startHeight.toNat ≤ d ∧ d < s.blockchain.length ∧
        d < interval.startHeight.toNat + interval.blocks.length ∧
        Agrees s.blockchain interval.blocks interval.startHeight.toNat d ∧
        s.blockchain.getD d default ≠
          interval.blocks.getD (d - interval.startHeight.toNat) default ∧
        s.checkInterval interval = ⟨true, UInt32.ofNat d, true, UInt32.ofNat d⟩) ∨
    (Agrees s.blockchain interval.blocks interval.startHeight.toNat s.blockchain.length ∧
        s.blockchain.length < interval.startHeight.toNat + interval.blocks.length ∧
        s.checkInterval interval = ⟨false, 0, true, UInt32.ofNat s.blockchain.length⟩) ∨
    (Agrees s.blockchain interval.blocks interval.startHeight.toNat
          (interval.startHeight.toNat + interval.blocks.length) ∧
        interval.startHeight.toNat + interval.blocks.length ≤ s.blockchain.length ∧
        s.checkInterval interval = ⟨false, 0, false, 0⟩) := by
  have hintervalEnd : (interval.startHeight + UInt32.ofNat interval.blocks.length).toNat =
      interval.startHeight.toNat + interval.blocks.length := by
    rw [UInt32.toNat_add, UInt32.toNat_ofNat', Nat.mod_eq_of_lt (by omega : interval.blocks.length < 2 ^ 32),
      Nat.mod_eq_of_lt hend]
  have hiterationEnd : (min (UInt32.ofNat s.blockchain.length)
      (interval.startHeight + UInt32.ofNat interval.blocks.length)).toNat =
      min s.blockchain.length (interval.startHeight.toNat + interval.blocks.length) := by
    rw [UInt32.toNat_min, UInt32.toNat_ofNat', Nat.mod_eq_of_lt hlength, hintervalEnd]
  unfold SynchronizationState.checkInterval
  simp only [hintervalEnd, hiterationEnd]
  generalize hfound : firstMismatch s.blockchain interval.blocks interval.startHeight.toNat
    (min s.blockchain.length (interval.startHeight.toNat + interval.blocks.length) -
      interval.startHeight.toNat) interval.startHeight.toNat = found
  cases found with
  | some d =>
    obtain ⟨hstart, hbelow, hne, hagree⟩ := firstMismatch_eq_some hfound
    exact .inl ⟨d, hstart, by omega, by omega, hagree, hne, rfl⟩
  | none =>
    have hagree := firstMismatch_eq_none hfound
    by_cases habove : s.blockchain.length < interval.startHeight.toNat + interval.blocks.length
    · exact .inr (.inl ⟨fun k hk hkd => hagree k hk (by omega), habove, by simp [habove]⟩)
    · exact .inr (.inr ⟨fun k hk hkd => hagree k hk (by omega), by omega, by simp [habove]⟩)

end Check

end Transfers
end CryptoNote
