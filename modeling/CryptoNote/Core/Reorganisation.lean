import CryptoNote.Core.BlockchainSwitch
import CryptoNote.Lib.Simulation

/-!
# What a reorganisation does to the two chains

A reorganisation changes the main chain only through {lit}`pushBlock` and
{lit}`popBlock`: it pops the main chain down to the split height, pushes the
alternative chain, and when a block of it is refused, pops again and pushes
the old blocks back ({lit}`rollback_blockchain_switching`).  A property of the
chain that survives a pop and a push that passed the header checks survives
all of these; {lit}`MainChainStable` names such properties, and its rules carry
them through the main-chain operations once for all.

The alternative blocks are such a property: the main-chain operations leave
them as they are.  So when the disconnected blocks are filed again as
alternative blocks and one of them is refused, the rollback puts the old blocks
back on the main chain and leaves those already filed among the alternative
blocks, in both places at once.

Main results:

- Theorem {lit}`MainChainStable.preserves_rollbackBlockchainSwitching`: a
  rollback keeps every stable property.
- Theorem {lit}`alternativeChains_rollbackBlockchainSwitching`: a rollback
  leaves the alternative blocks as it found them.
- Theorem {lit}`switchToAlternativeBlockchain_of_refile_refused`: a switch whose
  disconnected blocks are refused as alternative blocks answers false and
  keeps what was filed of them.
-/

namespace CryptoNote

namespace Blockchain

variable (currency : Currency) (env : ChainEnv)

open StateExcept

/-! ## Properties the main-chain operations keep -/

/-- A property of the chain that reads only its main blocks, its alternative
blocks and its checkpoints, and that survives dropping the last main block and
appending a block that passed the header checks of {lit}`pushBlock`. -/
structure MainChainStable (I : Blockchain → Prop) : Prop where
  of_chainView : ∀ {s t : Blockchain}, t.chainView = s.chainView → I s → I t
  dropLast : ∀ {s t : Blockchain},
    t.chainView = (s.blocks.dropLast, s.alternativeChains, s.checkpoints) → I s → I t
  append : ∀ {now difficulty : UInt64} {s t : Blockchain} {block : Block} {entry : BlockEntry},
    headerDifficulty currency env now s block = some difficulty → entry.bl = block →
    t.chainView = (s.blocks ++ [entry], s.alternativeChains, s.checkpoints) → I s → I t

namespace MainChainStable

variable {currency env} {I : Blockchain → Prop}

theorem preserves_of_keeps (hI : MainChainStable currency env I) {α : Type} {x : ChainM α}
    (hx : Keeps chainView x) : Preserves I x :=
  hx.preserves fun _ _ hview hs => hI.of_chainView hview hs

/-- A property stable under the main chain's moves holds after a block is pushed
with its transactions. -/
theorem preserves_pushBlockWithTransactions (hI : MainChainStable currency env I) (now : UInt64)
    (block : Block) (transactions : List Transaction) :
    Preserves I (pushBlockWithTransactions currency env now block transactions) := by
  intro s hs
  rcases pushBlockWithTransactions_chainView currency env now block transactions s with
    hview | ⟨_, _, hheader, hbl, hview⟩
  · exact hI.of_chainView hview hs
  · exact hI.append hheader hbl hview hs

/-- A property stable under the main chain's moves holds after a block is pushed. -/
theorem preserves_pushBlock (hI : MainChainStable currency env I) (now : UInt64) (block : Block) :
    Preserves I (pushBlock currency env now block) := by
  refine Preserves.bind (hI.preserves_of_keeps (keeps_loadTransactions currency env now block))
    fun loaded => ?_
  cases loaded with
  | none => exact Preserves.pure _
  | some transactions =>
    -- a refused block gives its transactions back to the pool
    exact Preserves.bind (hI.preserves_pushBlockWithTransactions now block transactions) fun _ =>
      Preserves.ite (fun _ => Preserves.pure _) fun _ =>
        Preserves.bind
          (hI.preserves_of_keeps (keeps_saveTransactions currency env now transactions))
          fun _ => Preserves.pure _

/-- A property stable under the main chain's moves holds after the last block is
popped. -/
theorem preserves_popBlock (hI : MainChainStable currency env I) (now : UInt64) (blockHash : Hash) :
    Preserves I (popBlock currency env now blockHash) := by
  refine Preserves.get_bind_preserves fun s _ => ?_
  split
  · exact Preserves.pure _
  · refine Preserves.bind (hI.preserves_of_keeps (keeps_saveTransactions currency env now _))
      fun _ => ?_
    refine Preserves.bind (hI.preserves_of_keeps (keeps_popTransactions env _ _)) fun _ => ?_
    refine Preserves.bind (Preserves.modify fun t ht => hI.of_chainView (s := t) rfl ht)
      fun _ => ?_
    refine Preserves.get_bind_preserves fun t ht => ?_
    split
    · exact Preserves.throw _
    · exact Preserves.set (hI.dropLast rfl ht)

/-- A property stable under the main chain's moves holds after blocks are popped. -/
theorem preserves_popBlocks (hI : MainChainStable currency env I) (now : UInt64) (count : Nat) :
    Preserves I (popBlocks currency env now count) := by
  induction count with
  | zero => exact Preserves.pure _
  | succ count ih =>
    exact Preserves.get_bind_preserves fun _ _ =>
      Preserves.bind (hI.preserves_popBlock now _) fun _ =>
        Preserves.bind ih fun _ => Preserves.pure _

/-- A property stable under the main chain's moves holds after blocks are pushed. -/
theorem preserves_pushBlocks (hI : MainChainStable currency env I) (now : UInt64)
    (blocks : List Block) :
    Preserves I (pushBlocks currency env now blocks) := by
  induction blocks with
  | nil => exact Preserves.pure _
  | cons block blocks ih =>
    exact Preserves.bind (hI.preserves_pushBlock now block) fun _ =>
      Preserves.ite (fun _ => Preserves.pure _) fun _ => ih

theorem preserves_rollbackBlockchainSwitching (hI : MainChainStable currency env I) (now : UInt64)
    (originalChain : List Block) (rollbackHeight : Nat) :
    Preserves I (rollbackBlockchainSwitching currency env now originalChain rollbackHeight) :=
  Preserves.get_bind_preserves fun _ _ =>
    Preserves.bind (hI.preserves_popBlocks now _) fun _ =>
      hI.preserves_pushBlocks now originalChain

end MainChainStable

/-- The alternative blocks are a stable property: no main-chain operation
touches them. -/
theorem stable_alternativeChains (alternativeChains : Finmap fun _ : Hash => BlockEntry) :
    MainChainStable currency env fun t => t.alternativeChains = alternativeChains where
  of_chainView hview hs := (congrArg (fun view => view.2.1) hview).trans hs
  dropLast hview hs := (congrArg (fun view => view.2.1) hview).trans hs
  append _ _ hview hs := (congrArg (fun view => view.2.1) hview).trans hs

theorem alternativeChains_rollbackBlockchainSwitching (now : UInt64) (originalChain : List Block)
    (rollbackHeight : Nat) (s : Blockchain) :
    (run (rollbackBlockchainSwitching currency env now originalChain rollbackHeight)
      s).2.alternativeChains = s.alternativeChains :=
  (stable_alternativeChains currency env s.alternativeChains).preserves_rollbackBlockchainSwitching
    now originalChain rollbackHeight s rfl

/-! ## A switch whose disconnected blocks are refused -/

/-- When a switch has connected the whole alternative chain and the disconnected
blocks are then refused as alternative blocks, it rolls back and answers false,
unless the rollback throws; the alternative blocks are those the filing left,
including the disconnected blocks it filed before the refusal. -/
theorem switchToAlternativeBlockchain_of_refile_refused
    {handleAlternative : Block → Hash → ChainM Bool} {now : UInt64}
    {altChain : List (Hash × BlockEntry)} {hash : Hash} {front : BlockEntry}
    {disconnected : List Block} {s t₁ t₂ t₃ : Blockchain}
    (hfront : altChain.head? = some (hash, front)) (hsplit : front.height.toNat < s.blocks.length)
    (hpop : run (popBlocks currency env now (s.blocks.length - front.height.toNat)) s =
      (.ok disconnected, t₁))
    (hconnect : run (connectAlternative currency env now disconnected front.height.toNat altChain)
      t₁ = (.ok true, t₂))
    (hrefile : run (handleDisconnected env handleAlternative disconnected) t₂ =
      (.ok false, t₃)) :
    (run (switchToAlternativeBlockchain currency env handleAlternative now altChain false) s).1 =
        (run (rollbackBlockchainSwitching currency env now disconnected front.height.toNat)
          t₃).1.map (fun _ => false) ∧
      (run (switchToAlternativeBlockchain currency env handleAlternative now altChain false)
        s).2.alternativeChains = t₃.alternativeChains := by
  have hrollback := alternativeChains_rollbackBlockchainSwitching currency env now disconnected
    front.height.toNat t₃
  have hrun :
      run (switchToAlternativeBlockchain currency env handleAlternative now altChain false) s =
      run ((fun _ => false) <$> rollbackBlockchainSwitching currency env now disconnected
        front.height.toNat) t₃ := by
    simp only [switchToAlternativeBlockchain, hfront]
    rw [run_bind_of_ok (run_get s)]
    simp only [hsplit, decide_true, Bool.not_true, Bool.false_eq_true, if_false]
    rw [run_bind_of_ok hpop, run_bind_of_ok hconnect]
    simp only [Bool.not_true, Bool.false_eq_true, if_false, Bool.not_false, if_true]
    rw [run_bind_of_ok hrefile]
    rfl
  rw [hrun, run_map]
  exact ⟨rfl, hrollback⟩

/-! ## Runs from the genesis block -/

/-- One call of {lit}`addNewBlock`: the fuel of the model, the time and the block. -/
def addNewBlockStep (s : Blockchain) (call : Nat × UInt64 × Block) : Blockchain :=
  (run (addNewBlock currency env call.1 call.2.1 call.2.2) s).2

/-! ## A failed switch that leaves main blocks among the alternative blocks -/

/-- A coinbase at a height that pays one amount to the zero key. -/
def minedCoinbase (height : UInt32) (amount : UInt64) : Transaction :=
  { (default : Transaction) with
    inputs := [.base ⟨height⟩]
    unlockTime := height.toUInt64 + 60
    outputs := [⟨amount, .key ⟨default⟩⟩] }

/-- A block of its coinbase alone on a previous block, told apart by its nonce. -/
def minedBlock (nonce : UInt32) (previous : Block) (height : UInt32) (amount : UInt64) : Block :=
  { (default : Block) with
    nonce
    previousBlockHash := sampleEnv.blockHash previous
    baseTransaction := minedCoinbase height amount }

/-- A genesis block that {lit}`init` accepts. -/
def reorgGenesis : Block :=
  { (default : Block) with
    nonce := 100
    previousBlockHash := nullHash
    baseTransaction := minedCoinbase 0 1 }

/-- The sample currency with that genesis block and a reward window of one block.
The blocks below are far under the zone of full reward, so the window changes
no reward, and the median of one size is read without sorting. -/
def reorgCurrency : Currency :=
  { sampleCurrency with genesisBlock := reorgGenesis, rewardBlocksWindow := 1 }

/-- The sample hashes, with a proof-of-work hash that meets only difficulty 1 for
the block of nonce 3. -/
def reorgEnv : ChainEnv :=
  { sampleEnv with
    longHash := fun block =>
      if block.nonce = 3 then ⟨List.replicate 32 255, by simp⟩ else default }

/-- One checkpoint, at height 10: the chains below it are in the checkpoint zone,
where {lit}`pushBlock` checks no proof of work. -/
def reorgCheckpoints : Checkpoints := ⟨(∅ : AList fun _ : UInt32 => Hash).insert 10 default⟩

/-- Three main blocks on the genesis block, the last of nonce 3. -/
def reorgMain : List Block :=
  let first := minedBlock 1 reorgGenesis 1 2000000000000000
  let second := minedBlock 2 first 2 30517578124
  [first, second, minedBlock 3 second 3 30517461709]

/-- Four alternative blocks on the genesis block; the first three have the work
of the main chain, the fourth more. -/
def reorgAlternative : List Block :=
  let first := minedBlock 4 reorgGenesis 1 2000000000000000
  let second := minedBlock 5 first 2 30517578124
  let third := minedBlock 6 second 3 30517461709
  [first, second, third, minedBlock 7 third 4 30517345294]

/-- The calls that build the main chain and the first three alternative blocks. -/
def reorgCalls : List (Nat × UInt64 × Block) :=
  (reorgMain ++ reorgAlternative.dropLast).map fun block => (8, 0, block)

/-- The chain those calls leave. -/
def reorgChain : Blockchain :=
  reorgCalls.foldl (addNewBlockStep reorgCurrency reorgEnv)
    (genesisChain reorgCurrency reorgEnv reorgCheckpoints .empty 0)

/-- The fourth alternative block starts a switch.  The switch files the first two
disconnected blocks as alternative blocks, refuses the third for its proof of
work at the difficulty of the alternative chain, rolls back and answers false:
the main chain is the old one again, and two of its blocks are alternative
blocks too. -/
theorem switchToAlternativeBlockchain_refused_leaves_main_blocks_alternative :
    Machine.Reachable (addNewBlockStep reorgCurrency reorgEnv)
        (genesisChain reorgCurrency reorgEnv reorgCheckpoints .empty 0) reorgChain ∧
      (∀ entry ∈ reorgChain.blocks,
        reorgEnv.blockHash entry.bl ∉ reorgChain.alternativeChains) ∧
      (run (addNewBlock reorgCurrency reorgEnv 8 0 (reorgAlternative.getLastD default))
          reorgChain).1 = .ok false ∧
      reorgEnv.blockHash (reorgAlternative.getLastD default) ∈
        (run (addNewBlock reorgCurrency reorgEnv 8 0 (reorgAlternative.getLastD default))
          reorgChain).2.alternativeChains ∧
      ((run (addNewBlock reorgCurrency reorgEnv 8 0 (reorgAlternative.getLastD default))
          reorgChain).2.blocks.map fun entry => reorgEnv.blockHash entry.bl) =
        reorgChain.blocks.map (fun entry => reorgEnv.blockHash entry.bl) ∧
      ∃ entry ∈
          (run (addNewBlock reorgCurrency reorgEnv 8 0 (reorgAlternative.getLastD default))
            reorgChain).2.blocks,
        reorgEnv.blockHash entry.bl ∈
          (run (addNewBlock reorgCurrency reorgEnv 8 0 (reorgAlternative.getLastD default))
            reorgChain).2.alternativeChains :=
  ⟨Machine.Reachable.init.foldl reorgCalls, by decide +kernel⟩

end Blockchain

end CryptoNote
