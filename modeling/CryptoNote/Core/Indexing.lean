import Mathlib.Data.Multiset.AddSub
import CryptoNote.Core.TransactionExtra

/-!
# Explorer indices

The five classes of {lit}`cryptonote/core/blockchain/indexing`, which the pool
and the chain keep beside their main containers so that the explorer can look
transactions and blocks up by payment id, timestamp or height.

Four of them are one pattern: a multimap from a key to a hash, where
{lit}`add` emplaces an entry and {lit}`remove` walks the entries with the key
and erases the first that carries the hash.  Neither reads the order of the
entries, so the model keeps them as a multiset ({lit}`HashMultimap`).
{lit}`TimestampTransactionsIndex` and {lit}`TimestampBlocksIndex` are that
multimap under a timestamp the caller passes; {lit}`PaymentIdIndex` keys a
transaction by its payment id and files its object hash, and does nothing for a
transaction without one; {lit}`OrphanBlocksIndex` keys a block by the height its
coinbase names.  {lit}`GeneratedTransactionsIndex` is a map from a height to a
running count of transactions, which accepts only the next height and keeps
the count of the last one beside the map.

The two classes that key a block by its coinbase read the base input with
{lit}`boost::get` on the first input, which throws on any other input; the
model returns that exception as an error.

Main results:

- Theorems {lit}`HashMultimap.remove_add` and {lit}`HashMultimap.add_remove`:
  removing what was added restores the index, and adding back what was removed
  does too.
-/

namespace CryptoNote

/-! ## The multimap from a key to a hash -/

/-- A multimap from a key to a hash, as the explorer indices keep it. -/
structure HashMultimap (κ : Type) where
  index : Multiset (κ × Hash)

namespace HashMultimap

variable {κ : Type}

/-- The empty index. -/
def empty : HashMultimap κ := ⟨0⟩

/-- {lit}`index.emplace(key, hash)`. -/
def add (key : κ) (hash : Hash) (m : HashMultimap κ) : HashMultimap κ :=
  ⟨(key, hash) ::ₘ m.index⟩

@[simp] theorem index_add (key : κ) (hash : Hash) (m : HashMultimap κ) :
    (m.add key hash).index = (key, hash) ::ₘ m.index := rfl

variable [DecidableEq κ]

/-- The remove loop over {lit}`equal_range(key)`: erase the first entry that
carries the hash, and say whether there was one. -/
def remove (key : κ) (hash : Hash) (m : HashMultimap κ) : Bool × HashMultimap κ :=
  if (key, hash) ∈ m.index then (true, ⟨m.index.erase (key, hash)⟩) else (false, m)

@[simp] theorem index_remove (key : κ) (hash : Hash) (m : HashMultimap κ) :
    (m.remove key hash).2.index = m.index.erase (key, hash) := by
  unfold remove
  split_ifs with h
  · rfl
  · exact (Multiset.erase_of_notMem h).symm

theorem remove_add (key : κ) (hash : Hash) (m : HashMultimap κ) :
    (m.add key hash).remove key hash = (true, m) := by
  simp [remove, add]

theorem add_remove {key : κ} {hash : Hash} {m : HashMultimap κ} (h : (key, hash) ∈ m.index) :
    (m.remove key hash).2.add key hash = m := by
  unfold remove add
  rw [if_pos h]
  exact congrArg HashMultimap.mk (Multiset.cons_erase h)

end HashMultimap

/-! ## The five indices -/

/-- {lit}`TimestampTransactionsIndex`: the pool's transactions by receive time. -/
abbrev TimestampTransactionsIndex := HashMultimap UInt64

/-- {lit}`TimestampBlocksIndex`: the main chain's blocks by timestamp. -/
abbrev TimestampBlocksIndex := HashMultimap UInt64

/-- {lit}`TimestampTransactionsIndex::add`. -/
def TimestampTransactionsIndex.add (timestamp : UInt64) (hash : Hash)
    (index : TimestampTransactionsIndex) : TimestampTransactionsIndex :=
  HashMultimap.add timestamp hash index

/-- {lit}`TimestampTransactionsIndex::remove`. -/
def TimestampTransactionsIndex.remove (timestamp : UInt64) (hash : Hash)
    (index : TimestampTransactionsIndex) : Bool × TimestampTransactionsIndex :=
  HashMultimap.remove timestamp hash index

/-- {lit}`TimestampBlocksIndex::add`. -/
def TimestampBlocksIndex.add (timestamp : UInt64) (hash : Hash)
    (index : TimestampBlocksIndex) : TimestampBlocksIndex :=
  HashMultimap.add timestamp hash index

/-- {lit}`TimestampBlocksIndex::remove`. -/
def TimestampBlocksIndex.remove (timestamp : UInt64) (hash : Hash)
    (index : TimestampBlocksIndex) : Bool × TimestampBlocksIndex :=
  HashMultimap.remove timestamp hash index

/-- {lit}`PaymentIdIndex`: transactions by the payment id in their extra bytes. -/
abbrev PaymentIdIndex := HashMultimap Hash

/-- {lit}`PaymentIdIndex::add`: file the object hash of the transaction under
its payment id, or do nothing and answer false when it has none. -/
def PaymentIdIndex.add (objectHash : Transaction → Hash) (tx : Transaction)
    (index : PaymentIdIndex) : Bool × PaymentIdIndex :=
  match getPaymentId tx with
  | none => (false, index)
  | some paymentId => (true, HashMultimap.add paymentId (objectHash tx) index)

/-- {lit}`PaymentIdIndex::remove`. -/
def PaymentIdIndex.remove (objectHash : Transaction → Hash) (tx : Transaction)
    (index : PaymentIdIndex) : Bool × PaymentIdIndex :=
  match getPaymentId tx with
  | none => (false, index)
  | some paymentId => HashMultimap.remove paymentId (objectHash tx) index

/-- {lit}`boost::get<base_input_t>(block.baseTransaction.inputs.front()).blockIndex`,
the height a block's coinbase names, which throws {lit}`boost::bad_get` on any
other first input. -/
def coinbaseBlockIndex (block : Block) : Except String UInt32 :=
  match block.baseTransaction.inputs with
  | .base input :: _ => .ok input.blockIndex
  | _ => .error "boost::bad_get"

/-- {lit}`OrphanBlocksIndex`: the alternative blocks by the height their coinbase
names. -/
abbrev OrphanBlocksIndex := HashMultimap UInt32

/-- {lit}`OrphanBlocksIndex::add`. -/
def OrphanBlocksIndex.add (getHash : Block → Hash) (block : Block)
    (index : OrphanBlocksIndex) : Except String OrphanBlocksIndex := do
  let height ← coinbaseBlockIndex block
  pure (HashMultimap.add height (getHash block) index)

/-- {lit}`OrphanBlocksIndex::remove`. -/
def OrphanBlocksIndex.remove (getHash : Block → Hash) (block : Block)
    (index : OrphanBlocksIndex) : Except String (Bool × OrphanBlocksIndex) := do
  let height ← coinbaseBlockIndex block
  pure (HashMultimap.remove height (getHash block) index)

/-- {lit}`GeneratedTransactionsIndex`: for each height, the number of
transactions, coinbases included, up to and including that height, with the
count of the last height added. -/
structure GeneratedTransactionsIndex where
  index : List (UInt32 × UInt64)
  lastGeneratedTxNumber : UInt64
deriving DecidableEq, Repr

/-- A fresh index, as the constructor leaves it. -/
def GeneratedTransactionsIndex.empty : GeneratedTransactionsIndex := ⟨[], 0⟩

/-- {lit}`GeneratedTransactionsIndex::add`: only the height equal to the number of
entries is accepted; the count grows by the block's transactions and its
coinbase. -/
def GeneratedTransactionsIndex.add (block : Block) (g : GeneratedTransactionsIndex) :
    Except String (Bool × GeneratedTransactionsIndex) := do
  let height ← coinbaseBlockIndex block
  if g.index.length ≠ height.toNat then return (false, g)
  let count := g.lastGeneratedTxNumber + UInt64.ofNat block.transactionHashes.length + 1
  -- {lit}`emplace` keeps an entry already present and reports false
  if (g.index.lookup height).isSome then return (false, g)
  return (true, ⟨(height, count) :: g.index, count⟩)

/-- {lit}`GeneratedTransactionsIndex::remove`: only the last height is removed,
and the count falls back to the entry below it.  With assertions compiled out a
missing entry below reads as a default count. -/
def GeneratedTransactionsIndex.remove (block : Block) (g : GeneratedTransactionsIndex) :
    Except String (Bool × GeneratedTransactionsIndex) := do
  let height ← coinbaseBlockIndex block
  -- {lit}`index.size() - 1` is a {lit}`size_t` and wraps below zero
  if height.toNat ≠ (g.index.length + 2 ^ 64 - 1) % 2 ^ 64 then return (false, g)
  let index := g.index.filter fun e => e.1 ≠ height
  let last := if height ≠ 0 then (index.lookup (height - 1)).getD 0 else 0
  return (true, ⟨index, last⟩)

/-- {lit}`GeneratedTransactionsIndex::clear`, which leaves the running count. -/
def GeneratedTransactionsIndex.clear (g : GeneratedTransactionsIndex) :
    GeneratedTransactionsIndex :=
  { g with index := [] }

end CryptoNote
