import CryptoNote.Core.Blockchain
import CryptoNote.Common.ShuffleGenerator

/-!
# Random outputs for mixing

{lit}`Blockchain::getRandomOutsByAmount` answers a wallet that asks, for each amount,
for up to {lit}`outs_count` key outputs of that amount to mix its own with. For each
amount it bounds the positions of the amount's vector by
{lit}`find_end_of_allowed_index`, the end of the outputs whose block is at least
{lit}`minedMoneyUnlockWindow` deep, draws positions below that bound with a
{lit}`ShuffleGenerator` and keeps each drawn output that is an unlocked key output
({lit}`add_out_to_get_random_outs`), until it has enough or the draws run out.

The random engine is global in the source; its state is passed from one amount's
generator to the next. The distribution is a parameter whose value is in range.

Main results:

- Theorem {lit}`findEndOfAllowedIndex_spec`: the bound is the end of the last old
  enough position.
- Theorem {lit}`getRandomOutsByAmount_spec`: for every chain and request the call
  returns true, with one answer per amount, each at most {lit}`outs_count` entries of
  distinct positions below the bound.
- Theorem {lit}`getRandomOutsByAmount_outs`: where each amount's vector is ordered by
  block, every entry names an old enough output, and the global indexes are distinct.
-/

namespace CryptoNote

/-- {lit}`COMMAND_RPC_GET_RANDOM_OUTPUTS_FOR_AMOUNTS::out_entry`. -/
structure OutEntry where
  globalAmountIndex : UInt64
  outKey : PublicKey
deriving DecidableEq, Repr, Inhabited

/-- {lit}`COMMAND_RPC_GET_RANDOM_OUTPUTS_FOR_AMOUNTS::outs_for_amount`. -/
structure OutsForAmount where
  amount : UInt64
  outs : List OutEntry
deriving DecidableEq, Repr, Inhabited

/-- {lit}`COMMAND_RPC_GET_RANDOM_OUTPUTS_FOR_AMOUNTS::request`. -/
structure RandomOutsRequest where
  amounts : List UInt64
  outsCount : UInt64
deriving DecidableEq, Repr, Inhabited

namespace Blockchain

variable (currency : Currency)

/-- {lit}`add_out_to_get_random_outs`: append the {lit}`i`-th output of the amount when
it is an unlocked key output. -/
def addOutToGetRandomOuts (now : UInt64) (s : Blockchain)
    (amountOuts : List (TransactionIndex × UInt16)) (outs : List OutEntry) (i : Nat) :
    Bool × List OutEntry :=
  let (transactionIndex, outputIndex) := amountOuts.getD i default
  let tx := (s.transactionByIndex transactionIndex).tx
  match tx.outputs[outputIndex.toNat]? with
  | none => (false, outs)
  | some output =>
    match output.target with
    | .multisignature _ => (false, outs)
    | .key key =>
      if !isTxSpendtimeUnlocked currency now s tx.unlockTime then (false, outs)
      else (true, outs ++ [⟨i.toUInt32.toUInt64, key.key⟩])

/-- The entry {lit}`add_out_to_get_random_outs` appends for position {lit}`i`, if any. -/
def outEntryAt (now : UInt64) (s : Blockchain) (amountOuts : List (TransactionIndex × UInt16))
    (i : Nat) : Option OutEntry := do
  let (transactionIndex, outputIndex) := amountOuts.getD i default
  let tx := (s.transactionByIndex transactionIndex).tx
  let output ← tx.outputs[outputIndex.toNat]?
  match output.target with
  | .multisignature _ => none
  | .key key =>
    if isTxSpendtimeUnlocked currency now s tx.unlockTime then some ⟨i.toUInt32.toUInt64, key.key⟩
    else none

/-- {lit}`add_out_to_get_random_outs` reports whether the output at the position
qualifies, and appends its entry if it does. -/
theorem addOutToGetRandomOuts_eq (now : UInt64) (s : Blockchain)
    (amountOuts : List (TransactionIndex × UInt16)) (outs : List OutEntry) (i : Nat) :
    addOutToGetRandomOuts currency now s amountOuts outs i =
      ((outEntryAt currency now s amountOuts i).isSome,
        outs ++ (outEntryAt currency now s amountOuts i).toList) := by
  unfold addOutToGetRandomOuts outEntryAt
  obtain ⟨transactionIndex, outputIndex⟩ := amountOuts.getD i default
  dsimp only
  split <;> rename_i houtput
  · simp [houtput]
  · split <;> rename_i htarget <;> simp [houtput, htarget]
    split <;> simp_all

/-- Whether the output at this position of the amount's vector is old enough:
{lit}`amount_outs[i].first.block + minedMoneyUnlockWindow <= getHeight()`, in the
{lit}`size_t` arithmetic of the source. -/
def isAllowedIndex (s : Blockchain) (amountOuts : List (TransactionIndex × UInt16)) (i : Nat) :
    Bool :=
  (amountOuts.getD i default).1.block.toUInt64 + currency.minedMoneyUnlockWindow ≤
    s.getHeight.toUInt64

/-- The {lit}`do ... while` of {lit}`find_end_of_allowed_index`, from position
{lit}`i` down. -/
def findEndOfAllowedIndexLoop (s : Blockchain) (amountOuts : List (TransactionIndex × UInt16)) :
    Nat → Nat
  | 0 => 0
  | i + 1 => if isAllowedIndex currency s amountOuts i then i + 1
    else findEndOfAllowedIndexLoop s amountOuts i

/-- {lit}`find_end_of_allowed_index`: one past the last position whose output is old
enough. -/
def findEndOfAllowedIndex (s : Blockchain) (amountOuts : List (TransactionIndex × UInt16)) :
    Nat :=
  if amountOuts.isEmpty then 0 else findEndOfAllowedIndexLoop currency s amountOuts amountOuts.length

/-- The search for the end of the usable outputs ends at or below where it starts. -/
theorem findEndOfAllowedIndexLoop_le (s : Blockchain)
    (amountOuts : List (TransactionIndex × UInt16)) :
    ∀ i, findEndOfAllowedIndexLoop currency s amountOuts i ≤ i
  | 0 => le_refl 0
  | i + 1 => by
    unfold findEndOfAllowedIndexLoop
    split
    · exact le_refl _
    · exact Nat.le_succ_of_le (findEndOfAllowedIndexLoop_le s amountOuts i)

/-- The scan stops at the last allowed position below its start: every position from
the result up is refused, and the one below the result is allowed. -/
theorem findEndOfAllowedIndexLoop_spec (s : Blockchain)
    (amountOuts : List (TransactionIndex × UInt16)) :
    ∀ i, (∀ j, findEndOfAllowedIndexLoop currency s amountOuts i ≤ j → j < i →
        isAllowedIndex currency s amountOuts j = false) ∧
      (0 < findEndOfAllowedIndexLoop currency s amountOuts i →
        isAllowedIndex currency s amountOuts (findEndOfAllowedIndexLoop currency s amountOuts i - 1))
  | 0 => ⟨fun _ _ hj => absurd hj (Nat.not_lt_zero _), fun h => absurd h (Nat.lt_irrefl 0)⟩
  | i + 1 => by
    obtain ⟨hrefused, hallowed⟩ := findEndOfAllowedIndexLoop_spec s amountOuts i
    unfold findEndOfAllowedIndexLoop
    split <;> rename_i hi
    · exact ⟨fun j hj hj' => absurd hj' (by omega), fun _ => hi⟩
    · refine ⟨fun j hj hj' => ?_, hallowed⟩
      rcases Nat.lt_succ_iff_lt_or_eq.mp hj' with hlt | rfl
      · exact hrefused j hj hlt
      · simpa using hi

theorem findEndOfAllowedIndex_le (s : Blockchain) (amountOuts : List (TransactionIndex × UInt16)) :
    findEndOfAllowedIndex currency s amountOuts ≤ amountOuts.length := by
  unfold findEndOfAllowedIndex
  split
  · exact Nat.zero_le _
  · exact findEndOfAllowedIndexLoop_le currency s amountOuts _

/-- What {lit}`find_end_of_allowed_index` returns: a bound no larger than the vector,
with every position from it up too fresh and the position below it old enough. -/
theorem findEndOfAllowedIndex_spec (s : Blockchain)
    (amountOuts : List (TransactionIndex × UInt16)) :
    (∀ j, findEndOfAllowedIndex currency s amountOuts ≤ j → j < amountOuts.length →
        isAllowedIndex currency s amountOuts j = false) ∧
      (0 < findEndOfAllowedIndex currency s amountOuts →
        isAllowedIndex currency s amountOuts (findEndOfAllowedIndex currency s amountOuts - 1)) := by
  unfold findEndOfAllowedIndex
  split <;> rename_i hempty
  · simp only [List.isEmpty_iff] at hempty
    subst hempty
    exact ⟨fun _ _ hj => absurd hj (Nat.not_lt_zero _), fun h => absurd h (Nat.lt_irrefl 0)⟩
  · exact findEndOfAllowedIndexLoop_spec currency s amountOuts _

variable {Gen : Type} (distr : Gen → Nat → Nat × Gen)

/-- The loop of {lit}`getRandomOutsByAmount` over one amount: at most {lit}`k` more
draws, while fewer than {lit}`outs_count` outs are taken. -/
def randomOutsLoop (now : UInt64) (s : Blockchain)
    (amountOuts : List (TransactionIndex × UInt16)) (outsCount : UInt64) :
    Nat → ShuffleGenerator Gen → List OutEntry → Except String (List OutEntry × Gen)
  | 0, g, outs => .ok (outs, g.generator)
  | k + 1, g, outs =>
    if outs.length < outsCount.toNat then do
      let (i, g) ← g.call distr
      randomOutsLoop now s amountOuts outsCount k g
        (addOutToGetRandomOuts currency now s amountOuts outs i).2
    else .ok (outs, g.generator)

theorem filterMap_cons_eq_toList_append {α β : Type} (f : α → Option β) (a : α) (l : List α) :
    (a :: l).filterMap f = (f a).toList ++ l.filterMap f := by
  cases h : f a <;> simp [h]

/-- The draws of one amount: the loop returns the entries of a run of draws of the
generator, and stops growing the outs once it has {lit}`outs_count` of them. -/
theorem randomOutsLoop_spec (hdistr : ∀ gen hi, (distr gen hi).1 ≤ hi) (now : UInt64)
    (s : Blockchain) (amountOuts : List (TransactionIndex × UInt16)) (outsCount : UInt64) :
    ∀ (k : Nat) (g : ShuffleGenerator Gen) (outs : List OutEntry), k ≤ g.count →
      ∃ (drawn : List Nat) (g' : ShuffleGenerator Gen),
        randomOutsLoop currency distr now s amountOuts outsCount k g outs =
          .ok (outs ++ drawn.filterMap (outEntryAt currency now s amountOuts), g'.generator) ∧
        (drawn ++ g'.remaining).Perm g.remaining ∧
        (outs ++ drawn.filterMap (outEntryAt currency now s amountOuts)).length ≤
          max outs.length outsCount.toNat
  | 0, g, outs, _ => ⟨[], g, by simp [randomOutsLoop], by simp, by simp⟩
  | k + 1, g, outs, hk => by
    by_cases hroom : outs.length < outsCount.toNat
    · have hcount : g.count ≠ 0 := by omega
      obtain ⟨value, g₁, hcall⟩ : ∃ value g₁, g.call distr = .ok (value, g₁) :=
        ⟨_, _, ShuffleGenerator.call_eq distr hcount⟩
      obtain ⟨hperm₁, hcount₁, -⟩ := ShuffleGenerator.call_perm distr (hdistr _ _) hcall
      obtain ⟨drawn, g', hloop, hperm, hlength⟩ := randomOutsLoop_spec hdistr now s amountOuts
        outsCount k g₁ (outs ++ (outEntryAt currency now s amountOuts value).toList) (by omega)
      refine ⟨value :: drawn, g', ?_, ?_, ?_⟩
      · rw [randomOutsLoop, if_pos hroom, hcall]
        simp only [bind, Except.bind, addOutToGetRandomOuts_eq]
        rw [hloop, filterMap_cons_eq_toList_append, List.append_assoc]
      · exact (hperm.cons value).trans hperm₁
      · have hone : (outs ++ (outEntryAt currency now s amountOuts value).toList).length ≤
            outs.length + 1 := by
          cases outEntryAt currency now s amountOuts value <;> simp
        rw [filterMap_cons_eq_toList_append, ← List.append_assoc]
        omega
    · exact ⟨[], g, by simp [randomOutsLoop, hroom], by simp, by simp⟩

/-- The loop of {lit}`getRandomOutsByAmount` over the requested amounts. The random
engine is global, so its state passes from one amount's generator to the next. -/
def getRandomOutsByAmountLoop (now : UInt64) (s : Blockchain) (outsCount : UInt64) :
    List UInt64 → List OutsForAmount → Gen → Except String (Bool × List OutsForAmount × Gen)
  | [], res, gen => .ok (true, res, gen)
  | amount :: amounts, res, gen =>
    match s.outputs.lookup amount with
    | none => getRandomOutsByAmountLoop now s outsCount amounts (res ++ [⟨amount, []⟩]) gen
    | some amountOuts =>
      let upIndexLimit := findEndOfAllowedIndex currency s amountOuts
      if !(upIndexLimit ≤ amountOuts.length) then .ok (false, res ++ [⟨amount, []⟩], gen)
      else if upIndexLimit > 0 then do
        let (outs, gen) ← randomOutsLoop currency distr now s amountOuts outsCount upIndexLimit
          (ShuffleGenerator.new upIndexLimit gen) []
        getRandomOutsByAmountLoop now s outsCount amounts (res ++ [⟨amount, outs⟩]) gen
      else getRandomOutsByAmountLoop now s outsCount amounts (res ++ [⟨amount, []⟩]) gen

/-- {lit}`getRandomOutsByAmount`: the result, the outs of each amount and the state of
the random engine after it. -/
def getRandomOutsByAmount (now : UInt64) (s : Blockchain) (req : RandomOutsRequest) (gen : Gen) :
    Except String (Bool × List OutsForAmount × Gen) :=
  getRandomOutsByAmountLoop currency distr now s req.outsCount req.amounts [] gen

/-- What the node returns for one amount: at most {lit}`outs_count` entries, those of
positions drawn without repetition below {lit}`find_end_of_allowed_index`. -/
def RandomOutsFor (now : UInt64) (s : Blockchain) (outsCount : UInt64) (r : OutsForAmount) :
    Prop :=
  r.outs.length ≤ outsCount.toNat ∧
    ∃ drawn : List Nat, drawn.Nodup ∧
      (∀ i ∈ drawn, i < findEndOfAllowedIndex currency s (s.outputs.get r.amount)) ∧
      r.outs = drawn.filterMap (outEntryAt currency now s (s.outputs.get r.amount))

theorem randomOutsFor_empty (now : UInt64) (s : Blockchain) (outsCount amount : UInt64) :
    RandomOutsFor currency now s outsCount ⟨amount, []⟩ :=
  ⟨Nat.zero_le _, [], List.nodup_nil, fun _ h => absurd h List.not_mem_nil, rfl⟩

/-- One amount whose outputs exist, with a positive bound: the draws of a fresh
generator of that many values. -/
theorem randomOutsLoop_new (hdistr : ∀ gen hi, (distr gen hi).1 ≤ hi) (now : UInt64)
    (s : Blockchain) (outsCount amount : UInt64) (amountOuts : List (TransactionIndex × UInt16))
    (hlookup : s.outputs.lookup amount = some amountOuts) (gen : Gen) :
    ∃ outs gen', randomOutsLoop currency distr now s amountOuts outsCount
        (findEndOfAllowedIndex currency s amountOuts)
        (ShuffleGenerator.new (findEndOfAllowedIndex currency s amountOuts) gen) [] =
        .ok (outs, gen') ∧ RandomOutsFor currency now s outsCount ⟨amount, outs⟩ := by
  set limit := findEndOfAllowedIndex currency s amountOuts with hlimit
  obtain ⟨drawn, g', hloop, hperm, hlength⟩ := randomOutsLoop_spec currency distr hdistr now s
    amountOuts outsCount limit (ShuffleGenerator.new limit gen) [] (Nat.le_refl _)
  rw [ShuffleGenerator.remaining_new] at hperm
  have hget : s.outputs.get amount = amountOuts := by simp [AmountMap.get, hlookup]
  have hsub : drawn.Sublist (drawn ++ g'.remaining) := List.sublist_append_left _ _
  refine ⟨_, _, hloop, by simpa using hlength, drawn, ?_, ?_, by simp [hget]⟩
  · exact (hperm.nodup_iff.mpr List.nodup_range).sublist hsub
  · intro i hi
    simpa [hget] using hperm.subset (hsub.subset hi)

/-- The loop over the amounts never takes its error branch nor throws, and answers
each amount in order as {lit}`RandomOutsFor` says. -/
theorem getRandomOutsByAmountLoop_spec (hdistr : ∀ gen hi, (distr gen hi).1 ≤ hi) (now : UInt64)
    (s : Blockchain) (outsCount : UInt64) :
    ∀ (amounts : List UInt64) (res : List OutsForAmount) (gen : Gen),
      ∃ res' gen', getRandomOutsByAmountLoop currency distr now s outsCount amounts res gen =
          .ok (true, res ++ res', gen') ∧ res'.map OutsForAmount.amount = amounts ∧
        ∀ r ∈ res', RandomOutsFor currency now s outsCount r
  | [], res, gen => ⟨[], gen, by simp [getRandomOutsByAmountLoop], rfl, by simp⟩
  | amount :: amounts, res, gen => by
    obtain ⟨outs, gen₁, hloop, hfor⟩ : ∃ outs gen₁,
        getRandomOutsByAmountLoop currency distr now s outsCount (amount :: amounts) res gen =
          getRandomOutsByAmountLoop currency distr now s outsCount amounts
            (res ++ [⟨amount, outs⟩]) gen₁ ∧
        RandomOutsFor currency now s outsCount ⟨amount, outs⟩ := by
      rw [getRandomOutsByAmountLoop]
      split <;> rename_i hlookup
      · exact ⟨[], gen, rfl, randomOutsFor_empty currency now s outsCount amount⟩
      · rename_i amountOuts
        simp only [findEndOfAllowedIndex_le, decide_true, Bool.not_true, Bool.false_eq_true,
          if_false]
        split <;> rename_i hpos
        · obtain ⟨outs, gen₁, hrun, hfor⟩ :=
            randomOutsLoop_new currency distr hdistr now s outsCount amount amountOuts hlookup gen
          exact ⟨outs, gen₁, by simp only [hrun, bind, Except.bind], hfor⟩
        · exact ⟨[], gen, rfl, randomOutsFor_empty currency now s outsCount amount⟩
    obtain ⟨res', gen', hrest, hamounts, hres'⟩ :=
      getRandomOutsByAmountLoop_spec hdistr now s outsCount amounts (res ++ [⟨amount, outs⟩]) gen₁
    refine ⟨⟨amount, outs⟩ :: res', gen', by simp [hloop, hrest], by simp [hamounts], ?_⟩
    intro r hr
    rcases List.mem_cons.mp hr with rfl | hr
    · exact hfor
    · exact hres' r hr

/-- {lit}`getRandomOutsByAmount` returns true with one answer per requested amount, in
order, each at most {lit}`outs_count` entries of distinct positions below
{lit}`find_end_of_allowed_index`, whatever values the random engine gives. -/
theorem getRandomOutsByAmount_spec (hdistr : ∀ gen hi, (distr gen hi).1 ≤ hi) (now : UInt64)
    (s : Blockchain) (req : RandomOutsRequest) (gen : Gen) :
    ∃ res gen', getRandomOutsByAmount currency distr now s req gen = .ok (true, res, gen') ∧
      res.map OutsForAmount.amount = req.amounts ∧
      ∀ r ∈ res, RandomOutsFor currency now s req.outsCount r := by
  obtain ⟨res, gen', hloop, hamounts, hres⟩ :=
    getRandomOutsByAmountLoop_spec currency distr hdistr now s req.outsCount req.amounts [] gen
  exact ⟨res, gen', by simpa [getRandomOutsByAmount] using hloop, hamounts, hres⟩

/-- An output entry carries its position as its global amount index. -/
theorem outEntryAt_globalAmountIndex {now : UInt64} {s : Blockchain}
    {amountOuts : List (TransactionIndex × UInt16)} {i : Nat} {e : OutEntry}
    (h : outEntryAt currency now s amountOuts i = some e) :
    e.globalAmountIndex = i.toUInt32.toUInt64 := by
  unfold outEntryAt at h
  obtain ⟨transactionIndex, outputIndex⟩ := amountOuts.getD i default
  simp only [Option.bind_eq_bind, Option.bind_eq_some_iff] at h
  obtain ⟨output, -, h⟩ := h
  split at h
  · cases h
  · split at h
    · cases h; rfl
    · cases h

/-- A {lit}`filterMap` whose results are those of a map is that map of a filter. -/
theorem filterMap_eq_map_filter_of {α β : Type} {f : α → Option β} {g : α → β}
    (h : ∀ a b, f a = some b → b = g a) (l : List α) :
    l.filterMap f = (l.filter fun a => (f a).isSome).map g := by
  induction l with
  | nil => rfl
  | cons a l ih =>
    cases ha : f a with
    | none => simp [ha, ih]
    | some b => simp [ha, ih, h a b ha]

theorem toUInt64_toUInt32_injOn {a b : Nat} (ha : a < 2 ^ 32) (hb : b < 2 ^ 32)
    (h : a.toUInt32.toUInt64 = b.toUInt32.toUInt64) : a = b := by
  have := congrArg UInt64.toNat h
  simp at this
  omega

/-- The global indexes of one amount's answer are distinct while its vector has at most
{lit}`2^32` outputs, below which the cast to {lit}`uint32_t` loses nothing. -/
theorem randomOutsFor_nodup {now : UInt64} {s : Blockchain} {outsCount : UInt64}
    {r : OutsForAmount} (hfor : RandomOutsFor currency now s outsCount r)
    (hlength : (s.outputs.get r.amount).length ≤ 2 ^ 32) :
    (r.outs.map OutEntry.globalAmountIndex).Nodup := by
  obtain ⟨-, drawn, hnodup, hbelow, houts⟩ := hfor
  have hsmall : ∀ i ∈ drawn, i < 2 ^ 32 := fun i hi =>
    lt_of_lt_of_le (hbelow i hi) ((findEndOfAllowedIndex_le currency s _).trans hlength)
  rw [houts, List.map_filterMap]
  rw [filterMap_eq_map_filter_of (g := fun i => i.toUInt32.toUInt64)]
  · refine (hnodup.filter _).map_on fun a ha b hb hab => ?_
    exact toUInt64_toUInt32_injOn (hsmall a (List.mem_of_mem_filter ha))
      (hsmall b (List.mem_of_mem_filter hb)) hab
  · intro a b hab
    obtain ⟨e, he, rfl⟩ := Option.map_eq_some_iff.mp hab
    exact outEntryAt_globalAmountIndex currency he

section Window

variable (hW : currency.minedMoneyUnlockWindow.toNat + 2 ^ 32 ≤ 2 ^ 64)
include hW

/-- When the window plus a block height cannot wrap, the {lit}`size_t` test is the
test on numbers. -/
theorem isAllowedIndex_iff {s : Blockchain} {amountOuts : List (TransactionIndex × UInt16)}
    {i : Nat} :
    isAllowedIndex currency s amountOuts i = true ↔
      (amountOuts.getD i default).1.block.toNat + currency.minedMoneyUnlockWindow.toNat ≤
        s.getHeight.toNat := by
  have hblock := (amountOuts.getD i default).1.block.toNat_lt
  simp only [isAllowedIndex, decide_eq_true_eq, UInt64.le_iff_toNat_le, UInt64.toNat_add,
    UInt32.toNat_toUInt64]
  rw [Nat.mod_eq_of_lt (by omega)]

/-- In a vector ordered by block, every position below an old enough one is old
enough. -/
theorem isAllowedIndex_of_le {s : Blockchain} {amountOuts : List (TransactionIndex × UInt16)}
    (hordered : amountOuts.Pairwise fun a b => a.1.block ≤ b.1.block) {j k : Nat}
    (hjk : j ≤ k) (hk : k < amountOuts.length)
    (hallowed : isAllowedIndex currency s amountOuts k = true) :
    isAllowedIndex currency s amountOuts j = true := by
  rw [isAllowedIndex_iff currency hW] at hallowed ⊢
  have hblock : (amountOuts.getD j default).1.block ≤ (amountOuts.getD k default).1.block := by
    rw [List.getD_eq_getElem _ _ (by omega), List.getD_eq_getElem _ _ hk]
    rcases Nat.lt_or_eq_of_le hjk with hlt | rfl
    · exact List.pairwise_iff_getElem.mp hordered j k (by omega) hk hlt
    · exact UInt32.le_refl _
  rw [UInt32.le_iff_toNat_le] at hblock
  omega

/-- In a vector ordered by block, every entry of the answer names a position whose
output is old enough: {lit}`block + minedMoneyUnlockWindow <= getHeight()`. -/
theorem randomOutsFor_allowed {now : UInt64} {s : Blockchain} {outsCount : UInt64}
    {r : OutsForAmount} (hfor : RandomOutsFor currency now s outsCount r)
    (hordered : (s.outputs.get r.amount).Pairwise fun a b => a.1.block ≤ b.1.block) :
    ∀ e ∈ r.outs, ∃ i, e.globalAmountIndex = i.toUInt32.toUInt64 ∧
      isAllowedIndex currency s (s.outputs.get r.amount) i = true := by
  obtain ⟨-, drawn, -, hbelow, houts⟩ := hfor
  intro e he
  rw [houts, List.mem_filterMap] at he
  obtain ⟨i, hi, hentry⟩ := he
  obtain ⟨-, hlast⟩ := findEndOfAllowedIndex_spec currency s (s.outputs.get r.amount)
  have hlimit := findEndOfAllowedIndex_le currency s (s.outputs.get r.amount)
  have hlt := hbelow i hi
  refine ⟨i, outEntryAt_globalAmountIndex currency hentry, ?_⟩
  exact isAllowedIndex_of_le currency hW hordered (by omega) (by omega) (hlast (by omega))

/-- The answer to a request, for a chain whose vector of each amount is ordered by
block and has at most {lit}`2^32` outputs: one answer per amount, each of at most
{lit}`outs_count` outs with distinct global indexes, each naming an output old
enough. -/
theorem getRandomOutsByAmount_outs (hdistr : ∀ gen hi, (distr gen hi).1 ≤ hi) (now : UInt64)
    (s : Blockchain) (req : RandomOutsRequest) (gen : Gen)
    (hordered : ∀ amount, (s.outputs.get amount).Pairwise fun a b => a.1.block ≤ b.1.block)
    (hlength : ∀ amount, (s.outputs.get amount).length ≤ 2 ^ 32) :
    ∃ res gen', getRandomOutsByAmount currency distr now s req gen = .ok (true, res, gen') ∧
      res.map OutsForAmount.amount = req.amounts ∧
      ∀ r ∈ res, r.outs.length ≤ req.outsCount.toNat ∧
        (r.outs.map OutEntry.globalAmountIndex).Nodup ∧
        ∀ e ∈ r.outs, ∃ i, e.globalAmountIndex = i.toUInt32.toUInt64 ∧
          isAllowedIndex currency s (s.outputs.get r.amount) i = true := by
  obtain ⟨res, gen', hrun, hamounts, hres⟩ :=
    getRandomOutsByAmount_spec currency distr hdistr now s req gen
  refine ⟨res, gen', hrun, hamounts, fun r hr => ?_⟩
  have hfor := hres r hr
  exact ⟨hfor.1, randomOutsFor_nodup currency hfor (hlength r.amount),
    randomOutsFor_allowed currency hW hfor (hordered r.amount)⟩

end Window

end Blockchain

end CryptoNote
