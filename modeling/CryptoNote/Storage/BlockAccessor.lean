import CryptoNote.Lib.ByteFile
import CryptoNote.Lib.LruCache
import CryptoNote.Lib.Simulation
import CryptoNote.Stream.Codec

/-!
# The block store

{lit}`BlockAccessor<T>` in {lit}`cryptonote/core/blockchain/block.hpp` keeps a
vector in two files.  The items file holds the items one after the other in
the stream encoding; the index file holds their count as a {lit}`uint64_t`
followed by the size of each item as a {lit}`uint32_t`.  Opening the store
reads the index and rebuilds the offsets of the items as the prefix sums of
the sizes.  At most {lit}`m_poolSize` decoded items are kept in memory, the
least recently used one evicted first.  {lit}`Blockchain::m_blocks` is a
{lit}`BlockAccessor<block_entry_t>`.

The state holds both files as byte lists.  The map {lit}`m_items` and the list
{lit}`m_cache` of the source are one list of index and item in order of use
(library {lit}`Lru`): the map's keys are the list's, each once.  The hit and
miss counters only feed the log line that {lit}`close` prints and are left
out.  File writes do not fail here, so the {lit}`runtime_error` that
{lit}`writeIndex` throws on a failed write is never raised.
-/

namespace CryptoNote

open ByteCodec

/-- The stream operators {lit}`operator<<` and {lit}`operator>>` of an item
type. -/
structure StreamCodec (T : Type) where
  write : T → ByteStream Unit
  read : T → ByteStream T

/-- The stream operators of {lit}`block_entry_t`. -/
def blockEntryCodec : StreamCodec BlockEntry :=
  ⟨Writer.blockEntry, Reader.blockEntry⟩

/-- The fields of a {lit}`BlockAccessor<T>`, with the contents of its two
files. -/
structure BlockAccessor (T : Type) where
  itemsFile : Bytes
  indexFile : Bytes
  poolSize : Nat
  offsets : List Nat
  itemsFileSize : Nat
  cache : List (Nat × T)
deriving DecidableEq, Repr

namespace BlockAccessor

variable {T : Type} (codec : StreamCodec T)

/-- {lit}`size()`: the count of items the index records. -/
def size (s : BlockAccessor T) : Nat := s.offsets.length

/-- {lit}`empty()`. -/
def empty (s : BlockAccessor T) : Bool := s.offsets.isEmpty

/-- {lit}`writeIndex`: a positioned write into the index file. -/
def writeIndex (s : BlockAccessor T) (data : Bytes) (offset : Nat) : BlockAccessor T :=
  { s with indexFile := writeAt s.indexFile offset data }

@[simp] theorem writeIndex_indexFile (s : BlockAccessor T) (data : Bytes) (offset : Nat) :
    (s.writeIndex data offset).indexFile = writeAt s.indexFile offset data := rfl
@[simp] theorem writeIndex_itemsFile (s : BlockAccessor T) (data : Bytes) (offset : Nat) :
    (s.writeIndex data offset).itemsFile = s.itemsFile := rfl
@[simp] theorem writeIndex_poolSize (s : BlockAccessor T) (data : Bytes) (offset : Nat) :
    (s.writeIndex data offset).poolSize = s.poolSize := rfl
@[simp] theorem writeIndex_offsets (s : BlockAccessor T) (data : Bytes) (offset : Nat) :
    (s.writeIndex data offset).offsets = s.offsets := rfl
@[simp] theorem writeIndex_cache (s : BlockAccessor T) (data : Bytes) (offset : Nat) :
    (s.writeIndex data offset).cache = s.cache := rfl

/-- {lit}`prepare` followed by the assignment of the item to the entry it
returns: when the pool is full the least recently used item is evicted, and
the new one becomes the most recent. -/
def prepare (s : BlockAccessor T) (index : Nat) (item : T) : BlockAccessor T :=
  { s with cache := Lru.insert s.poolSize s.cache index item }

@[simp] theorem prepare_cache (s : BlockAccessor T) (index : Nat) (item : T) :
    (s.prepare index item).cache = Lru.insert s.poolSize s.cache index item := rfl
@[simp] theorem prepare_itemsFile (s : BlockAccessor T) (index : Nat) (item : T) :
    (s.prepare index item).itemsFile = s.itemsFile := rfl
@[simp] theorem prepare_indexFile (s : BlockAccessor T) (index : Nat) (item : T) :
    (s.prepare index item).indexFile = s.indexFile := rfl
@[simp] theorem prepare_poolSize (s : BlockAccessor T) (index : Nat) (item : T) :
    (s.prepare index item).poolSize = s.poolSize := rfl
@[simp] theorem prepare_offsets (s : BlockAccessor T) (index : Nat) (item : T) :
    (s.prepare index item).offsets = s.offsets := rfl
@[simp] theorem prepare_itemsFileSize (s : BlockAccessor T) (index : Nat) (item : T) :
    (s.prepare index item).itemsFileSize = s.itemsFileSize := rfl

/-- {lit}`operator[]`.  A cached item is returned and becomes the most recent;
the source skips the splice when it already is, which changes nothing.  Any
other item is read from the file into {lit}`tempItem`, a default-initialised
{lit}`T` whose plain fields hold whatever they held, and then cached. -/
def get (tempItem : T) (s : BlockAccessor T) (index : Nat) :
    Except String (T × BlockAccessor T) :=
  match Lru.find index s.cache with
  | some item => .ok (item, { s with cache := Lru.touch s.cache index item })
  | none =>
    if h : index < s.offsets.length then
      match (codec.read tempItem).run (s.itemsFile.drop s.offsets[index]) with
      | .ok (item, _) => .ok (item, s.prepare index item)
      | .error e => .error e
    else .error "BlockAccessor::operator[]"

theorem get_of_find {tempItem : T} {s : BlockAccessor T} {index : Nat} {item : T}
    (hhit : Lru.find index s.cache = some item) :
    s.get codec tempItem index = .ok (item, { s with cache := Lru.touch s.cache index item }) := by
  simp [get, hhit]

theorem get_of_read {tempItem : T} {s : BlockAccessor T} {index : Nat} {item : T} {rest : Bytes}
    (hmiss : Lru.find index s.cache = none) (hindex : index < s.offsets.length)
    (hread : (codec.read tempItem).run (s.itemsFile.drop s.offsets[index]) = .ok (item, rest)) :
    s.get codec tempItem index = .ok (item, s.prepare index item) := by
  simp [get, hmiss, hindex, hread]

/-- {lit}`front()`: the first item. -/
def front (tempItem : T) (s : BlockAccessor T) : Except String (T × BlockAccessor T) :=
  s.get codec tempItem 0

/-- {lit}`back()`: the last item. -/
def back (tempItem : T) (s : BlockAccessor T) : Except String (T × BlockAccessor T) :=
  s.get codec tempItem (s.offsets.length - 1)

/-- {lit}`clear()`: a count of zero written at the head of the index, and no item
and no cache entry left. -/
def clear (s : BlockAccessor T) : BlockAccessor T :=
  { s.writeIndex (LittleEndian.bytes 8 0) 0 with offsets := [], itemsFileSize := 0, cache := [] }

@[simp] theorem clear_indexFile (s : BlockAccessor T) :
    s.clear.indexFile = writeAt s.indexFile 0 (LittleEndian.bytes 8 0) := rfl
@[simp] theorem clear_poolSize (s : BlockAccessor T) : s.clear.poolSize = s.poolSize := rfl

/-- {lit}`pop_back`.  The count it writes is a {lit}`uint64_t` and wraps on an
empty store, where {lit}`m_offsets.back()` is undefined; the model reads
{lit}`0` there. -/
def popBack (s : BlockAccessor T) : BlockAccessor T :=
  let count := (UInt64.ofNat s.offsets.length - 1).toNat
  { s.writeIndex (LittleEndian.bytes 8 count) 0 with
    itemsFileSize := s.offsets.getLastD 0
    offsets := s.offsets.dropLast
    cache := Lru.erase s.cache s.offsets.dropLast.length }

@[simp] theorem popBack_indexFile (s : BlockAccessor T) :
    s.popBack.indexFile =
      writeAt s.indexFile 0 (LittleEndian.bytes 8 (UInt64.ofNat s.offsets.length - 1).toNat) :=
  rfl
@[simp] theorem popBack_itemsFile (s : BlockAccessor T) : s.popBack.itemsFile = s.itemsFile := rfl
@[simp] theorem popBack_poolSize (s : BlockAccessor T) : s.popBack.poolSize = s.poolSize := rfl
@[simp] theorem popBack_offsets (s : BlockAccessor T) :
    s.popBack.offsets = s.offsets.dropLast := rfl
@[simp] theorem popBack_itemsFileSize (s : BlockAccessor T) :
    s.popBack.itemsFileSize = s.offsets.getLastD 0 := rfl
@[simp] theorem popBack_cache (s : BlockAccessor T) :
    s.popBack.cache = Lru.erase s.cache s.offsets.dropLast.length := rfl

/-- {lit}`push_back`: the item is written where the items end, then its size
goes into the index after the sizes already there, then the count.  A writer
that throws leaves bytes past {lit}`m_itemsFileSize` that no read reaches and
the next push overwrites; the model leaves the store as it was. -/
def pushBack (s : BlockAccessor T) (item : T) : Except String (BlockAccessor T) :=
  match (codec.write item).run [] with
  | .error e => .error e
  | .ok ((), bytes) =>
    let itemsFileSize := s.itemsFileSize + bytes.length
    -- {lit}`static_cast<uint32_t>(itemsFileSize - m_itemsFileSize)`
    let itemSize := (itemsFileSize - s.itemsFileSize) % 2 ^ 32
    let indexed := (s.writeIndex (LittleEndian.bytes 4 itemSize) (8 + 4 * s.offsets.length)).writeIndex
      (LittleEndian.bytes 8 (s.offsets.length + 1)) 0
    .ok (prepare
      { indexed with
        itemsFile := writeAt s.itemsFile s.itemsFileSize bytes
        offsets := s.offsets ++ [s.itemsFileSize]
        itemsFileSize }
      s.offsets.length item)

/-- A push writes the item's bytes at the end of the items file, its size and the
new count in the index file, and records its offset. -/
theorem pushBack_of_write {s : BlockAccessor T} {item : T} {bytes : Bytes}
    (hwrite : (codec.write item).run [] = .ok ((), bytes)) :
    s.pushBack codec item = .ok (prepare
      { (s.writeIndex (LittleEndian.bytes 4 (bytes.length % 2 ^ 32))
          (8 + 4 * s.offsets.length)).writeIndex (LittleEndian.bytes 8 (s.offsets.length + 1)) 0 with
        itemsFile := writeAt s.itemsFile s.itemsFileSize bytes
        offsets := s.offsets ++ [s.itemsFileSize]
        itemsFileSize := s.itemsFileSize + bytes.length }
      s.offsets.length item) := by
  simp [pushBack, hwrite]

/-! ## Opening the store -/

/-- {lit}`readHeight`: the count, the first eight bytes of the index file. -/
def readHeight : ByteStream Nat := do
  let count ← Reader.readPod 8
  pure (LittleEndian.value count.bytes)

/-- {lit}`readItems`: one four-byte size per item; the offset of an item is the
sum of the sizes before it. -/
def readItems : Nat → Nat → ByteStream (List Nat × Nat)
  | 0, itemsFileSize => pure ([], itemsFileSize)
  | count + 1, itemsFileSize => do
    let itemSize ← Reader.readPod 4
    let rest ← readItems count (itemsFileSize + LittleEndian.value itemSize.bytes)
    pure (itemsFileSize :: rest.1, rest.2)

/-- {lit}`initIndex`: an index file that exists is read; a missing one is
created holding a zero count.  The result is the index file with the offsets
and the size of the items. -/
def initIndex (indexFile : Option Bytes) : Except String (Bytes × List Nat × Nat) :=
  match indexFile with
  | some index =>
    match readHeight.run index with
    | .error _ => .error "Fail to read block height!"
    | .ok (count, rest) =>
      match (readItems count 0).run rest with
      | .error _ => .error "Fail to read items!"
      | .ok ((offsets, itemsFileSize), _) => .ok (index, offsets, itemsFileSize)
  | none => .ok (LittleEndian.bytes 8 0, [], 0)

theorem initIndex_of_read {index rest rest' : Bytes} {count itemsFileSize : Nat}
    {offsets : List Nat} (hheight : readHeight.run index = .ok (count, rest))
    (hitems : (readItems count 0).run rest = .ok ((offsets, itemsFileSize), rest')) :
    initIndex (some index) = .ok (index, offsets, itemsFileSize) := by
  simp [initIndex, hheight, hitems]

/-- {lit}`init` on the files found on disk ({lit}`none` for a missing one): the
items file is created empty when missing, and the cache starts empty. -/
def init (poolSize : Nat) (indexFile itemsFile : Option Bytes) :
    Except String (BlockAccessor T) :=
  match initIndex indexFile with
  | .error e => .error e
  | .ok (indexFile', offsets, itemsFileSize) =>
    .ok { itemsFile := itemsFile.getD [], indexFile := indexFile', poolSize, offsets,
          itemsFileSize, cache := [] }

/-- {lit}`close` followed by {lit}`init` on the same files. -/
def reopen (s : BlockAccessor T) : Except String (BlockAccessor T) :=
  init s.poolSize (some s.indexFile) (some s.itemsFile)

/-! ## Runs -/

/-- The calls a client makes on the store. -/
inductive Operation (T : Type) where
  | pushBack (item : T)
  | popBack
  | clear
  | get (index : Nat) (tempItem : T)
  | reopen

/-- One call: {lit}`operator[]` answers with an item, the others with nothing. -/
def step (s : BlockAccessor T) : Operation T → Except String (Option T × BlockAccessor T)
  | .pushBack item => (fun s' => (none, s')) <$> s.pushBack codec item
  | .popBack => .ok (none, s.popBack)
  | .clear => .ok (none, s.clear)
  | .get index tempItem => (fun r => (some r.1, r.2)) <$> s.get codec tempItem index
  | .reopen => (fun s' => (none, s')) <$> s.reopen

end BlockAccessor

end CryptoNote
