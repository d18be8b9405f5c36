import CryptoNote.Storage.BlockAccessor

/-!
# The block store against a vector

What {lit}`BlockAccessor` is for: to behave as the {lit}`std::vector` it
replaced, whatever the cache holds and across a close and reopen.  The vector
is the abstract machine here; a call the vector leaves undefined
({lit}`pop_back` on an empty vector, {lit}`operator[]` past the end) is not
allowed.

The store represents a vector when the items file starts with the encodings of
its elements one after the other, the index file starts with their count and
sizes, the offsets are the prefix sums of the sizes, and every cached item is
the element at its index.  With a codec that reads back what it writes, every
call keeps the representation and answers as the vector would.

Main results:

- Theorem {lit}`blockAccessor_simulates_vector`: the representation is a
  simulation of the vector by the store.
- Theorem {lit}`blockAccessor_refines_vector`: from a fresh store, every run of
  calls answers as the vector, with the same size.
- Theorem {lit}`blockAccessor_cache_miss_diverges`: with the stream codec of
  {lit}`block_entry_t`, an entry served from the file after an eviction is not
  the one pushed.
-/

namespace CryptoNote

open ByteCodec

/-- A codec that reads back, over any target, what it writes, with encodings
that fit the {lit}`uint32_t` size the index file records. -/
structure StreamCodec.RoundTrips {T : Type} (codec : StreamCodec T) (enc : T → Bytes) :
    Prop where
  writes : ∀ item, Writes (codec.write item) () (enc item)
  reads : ∀ item tempItem, Reads (codec.read tempItem) item (enc item)
  fits : ∀ item, (enc item).length < 2 ^ 32

namespace BlockAccessor

variable {T : Type}

/-! ## The vector -/

namespace Operation

/-- What a call does to a {lit}`std::vector`: its answer and the new vector. -/
def apply : List T → Operation T → Option T × List T
  | v, .pushBack item => (none, v ++ [item])
  | v, .popBack => (none, v.dropLast)
  | _, .clear => (none, [])
  | v, .get index _ => (v[index]?, v)
  | v, .reopen => (none, v)

/-- The calls the vector defines; a push also needs the count to fit the
{lit}`uint64_t` the index file holds it in. -/
def Defined : List T → Operation T → Prop
  | v, .pushBack _ => v.length + 1 < 2 ^ 64
  | v, .popBack => v ≠ []
  | v, .get index _ => index < v.length
  | _, .clear => True
  | _, .reopen => True

end Operation

/-! ## Layout of the files -/

variable (enc : T → Bytes)

/-- The offsets of items stored one after the other from {lit}`base`. -/
def offsetsFrom : Nat → List T → List Nat
  | _, [] => []
  | base, item :: items => base :: offsetsFrom (base + (enc item).length) items

/-- The index entry of an item: its size as a {lit}`uint32_t`. -/
def sizeBytes (item : T) : Bytes :=
  LittleEndian.bytes 4 (enc item).length

@[simp] theorem length_offsetsFrom (base : Nat) (v : List T) :
    (offsetsFrom enc base v).length = v.length := by
  induction v generalizing base with
  | nil => rfl
  | cons item v ih => simp [offsetsFrom, ih]

theorem offsetsFrom_append_singleton (base : Nat) (v : List T) (item : T) :
    offsetsFrom enc base (v ++ [item]) =
      offsetsFrom enc base v ++ [base + (v.flatMap enc).length] := by
  induction v generalizing base with
  | nil => simp [offsetsFrom]
  | cons first v ih => simp [offsetsFrom, ih, Nat.add_assoc]

/-- The offset of an item is the base plus the bytes of the items before it. -/
theorem getElem_offsetsFrom (base : Nat) (v : List T) (i : Nat)
    (h : i < (offsetsFrom enc base v).length) :
    (offsetsFrom enc base v)[i] = base + ((v.take i).flatMap enc).length := by
  induction v generalizing base i with
  | nil => simp at h
  | cons first v ih =>
    cases i with
    | zero => simp [offsetsFrom]
    | succ i =>
      simp only [offsetsFrom, List.getElem_cons_succ, ih, List.take_succ_cons,
        List.flatMap_cons, List.length_append]
      omega

/-- The encodings of a vector split at an element: those before it, the
element's, those after it. -/
theorem flatMap_eq_take_append (v : List T) (i : Nat) (h : i < v.length) :
    v.flatMap enc = (v.take i).flatMap enc ++ (enc v[i] ++ (v.drop (i + 1)).flatMap enc) := by
  have hsplit := List.take_append_drop i v
  rw [List.drop_eq_getElem_cons h] at hsplit
  conv_lhs => rw [← hsplit]
  simp only [List.flatMap_append, List.flatMap_cons]

/-! ## Reading the index -/

theorem readHeight_run {n : Nat} (hn : n < 2 ^ 64) (rest : Bytes) :
    readHeight.run (LittleEndian.bytes 8 n ++ rest) = .ok (n, rest) := by
  have hpod := Reader.readPod_reads (⟨LittleEndian.bytes 8 n, LittleEndian.length_bytes 8 n⟩ :
    Pod 8) rest
  rw [readHeight, run_bind_of_ok hpod, run_pure, LittleEndian.value_bytes_of_lt (by omega)]

/-- Reading the sizes of a vector's items rebuilds their offsets and the size
of the items file. -/
theorem readItems_run (base : Nat) (v : List T) (hfits : ∀ item ∈ v, (enc item).length < 2 ^ 32)
    (rest : Bytes) :
    (readItems v.length base).run (v.flatMap (sizeBytes enc) ++ rest) =
      .ok ((offsetsFrom enc base v, base + (v.flatMap enc).length), rest) := by
  induction v generalizing base with
  | nil => rfl
  | cons item v ih =>
    have hpod := Reader.readPod_reads (⟨sizeBytes enc item, LittleEndian.length_bytes 4 _⟩ :
      Pod 4) (v.flatMap (sizeBytes enc) ++ rest)
    have hsize : LittleEndian.value (sizeBytes enc item) = (enc item).length :=
      LittleEndian.value_bytes_of_lt (hfits item List.mem_cons_self)
    rw [List.length_cons, readItems, List.flatMap_cons, List.append_assoc, run_bind_of_ok hpod,
      hsize, run_bind_of_ok (ih _ fun item' hmem => hfits item' (List.mem_cons_of_mem _ hmem)),
      run_pure]
    simp [offsetsFrom, Nat.add_assoc]

@[simp] theorem length_flatMap_sizeBytes (v : List T) :
    (v.flatMap (sizeBytes enc)).length = 4 * v.length := by
  induction v with
  | nil => rfl
  | cons item v ih => simp [List.flatMap_cons, sizeBytes, ih]; omega

/-! ## The representation -/

/-- The store holds the vector {lit}`v`: the files start with its layout, the
offsets and the size of the items agree with it, and the cache holds elements
of it at their indexes. -/
structure Represents (s : BlockAccessor T) (v : List T) : Prop where
  items : v.flatMap enc <+: s.itemsFile
  itemsFileSize_eq : s.itemsFileSize = (v.flatMap enc).length
  offsets_eq : s.offsets = offsetsFrom enc 0 v
  index : LittleEndian.bytes 8 v.length ++ v.flatMap (sizeBytes enc) <+: s.indexFile
  length_lt : v.length < 2 ^ 64
  cacheSound : Lru.Sound (fun index => v[index]?) s.cache
  cacheWellFormed : Lru.WellFormed s.poolSize s.cache
  poolSize_pos : 0 < s.poolSize

variable {enc} {s : BlockAccessor T} {v : List T}

theorem Represents.length_offsets (hR : Represents enc s v) : s.offsets.length = v.length := by
  rw [hR.offsets_eq, length_offsetsFrom]

theorem Represents.empty_eq (hR : Represents enc s v) : s.empty = v.isEmpty := by
  have hlength := hR.length_offsets
  rw [empty]
  generalize s.offsets = offsets at hlength
  cases offsets <;> cases v <;> simp_all

/-- The bytes at the offset of an index are the encoding of its element. -/
theorem Represents.drop_offset (hR : Represents enc s v) {i : Nat} (hi : i < s.offsets.length) :
    ∃ item rest, v[i]? = some item ∧ s.itemsFile.drop s.offsets[i] = enc item ++ rest := by
  have hv : i < v.length := hR.length_offsets ▸ hi
  obtain ⟨r, hr⟩ := hR.items
  have hoffset : s.offsets[i] = ((v.take i).flatMap enc).length := by
    rw [List.getElem_of_eq hR.offsets_eq, getElem_offsetsFrom, Nat.zero_add]
  refine ⟨v[i], (v.drop (i + 1)).flatMap enc ++ r, List.getElem?_eq_getElem hv, ?_⟩
  rw [hoffset, ← hr, flatMap_eq_take_append enc v i hv, List.append_assoc,
    List.drop_left' rfl, List.append_assoc]

/-- The next index is never cached: every cached index holds an element. -/
theorem Represents.find_length (hR : Represents enc s v) : Lru.find v.length s.cache = none := by
  cases hfind : Lru.find v.length s.cache with
  | none => rfl
  | some item => simpa using hR.cacheSound.find hfind

/-! ## One lemma per call -/

variable {codec : StreamCodec T}

/-- A push onto an accessor that represents a vector succeeds, and the accessor
represents the vector with the item appended. -/
theorem pushBack_represents (hcodec : codec.RoundTrips enc) (hR : Represents enc s v)
    (item : T) (hfit : v.length + 1 < 2 ^ 64) :
    ∃ s', s.pushBack codec item = .ok s' ∧ Represents enc s' (v ++ [item]) := by
  have hwrite : (codec.write item).run [] = .ok ((), enc item) := by
    simpa using hcodec.writes item []
  refine ⟨_, pushBack_of_write codec hwrite, ?_⟩
  have hlength := hR.length_offsets
  have hsize : LittleEndian.bytes 4 ((enc item).length % 2 ^ 32) = sizeBytes enc item := by
    rw [Nat.mod_eq_of_lt (hcodec.fits item), sizeBytes]
  have hindex := append_prefix_writeAt hR.index (sizeBytes enc item)
  rw [List.length_append, LittleEndian.length_bytes, length_flatMap_sizeBytes] at hindex
  have hcount := append_prefix_writeAt_zero (List.append_assoc _ _ _ ▸ hindex)
    ((LittleEndian.length_bytes 8 (v.length + 1)).trans (LittleEndian.length_bytes 8 _).symm)
  constructor
  · simpa [hR.itemsFileSize_eq] using append_prefix_writeAt hR.items (enc item)
  · simp [hR.itemsFileSize_eq]
  · simp [hR.offsets_eq, offsetsFrom_append_singleton, hR.itemsFileSize_eq]
  · simp only [prepare_indexFile, writeIndex_indexFile, hlength, hsize, List.length_append,
      List.length_singleton, List.flatMap_append, List.flatMap_cons, List.flatMap_nil,
      List.append_nil]
    exact hcount
  · simpa using hfit
  · refine (hR.cacheSound.congr fun entry hmem => ?_).insert _ (by simp [hlength])
    have hlt : entry.1 < v.length := by
      have hentry := hR.cacheSound entry hmem
      exact (List.getElem?_eq_some_iff.mp hentry).1
    exact List.getElem?_append_left hlt
  · exact hR.cacheWellFormed.insert hR.poolSize_pos (hlength ▸ hR.find_length) item
  · exact hR.poolSize_pos

/-- The count {lit}`pop_back` writes, {lit}`m_offsets.size() - 1` as a
{lit}`uint64_t`, is the new size of a nonempty store. -/
theorem popBack_count {n : Nat} (hn : n + 1 < 2 ^ 64) :
    (UInt64.ofNat (n + 1) - 1).toNat = n := by
  rw [UInt64.toNat_sub_of_le _ _ (by simp [UInt64.le_iff_toNat_le]; omega)]
  simp [UInt64.toNat_ofNat]
  omega

/-- A pop from an accessor that represents a vector represents the vector without
its last item. -/
theorem popBack_represents (hR : Represents enc s v) (hv : v ≠ []) :
    Represents enc s.popBack v.dropLast := by
  obtain ⟨v, last, rfl⟩ : ∃ v' last, v = v' ++ [last] :=
    ⟨v.dropLast, v.getLast hv, (List.dropLast_append_getLast hv).symm⟩
  have hoffsets : s.offsets = offsetsFrom enc 0 v ++ [(v.flatMap enc).length] := by
    rw [hR.offsets_eq, offsetsFrom_append_singleton, Nat.zero_add]
  have hlt := hR.length_lt
  rw [List.length_append, List.length_singleton] at hlt
  have hindex : LittleEndian.bytes 8 (v.length + 1) ++ v.flatMap (sizeBytes enc) <+:
      s.indexFile := by
    refine List.IsPrefix.trans ?_ hR.index
    simp [List.flatMap_append, List.prefix_append]
  have hcount := append_prefix_writeAt_zero hindex
    ((LittleEndian.length_bytes 8 v.length).trans (LittleEndian.length_bytes 8 _).symm)
  have hcountEq : (UInt64.ofNat s.offsets.length - 1).toNat = v.length := by
    rw [hR.length_offsets, List.length_append, List.length_singleton]
    exact popBack_count hlt
  constructor
  · refine List.IsPrefix.trans ?_ hR.items
    simp [List.flatMap_append, List.prefix_append]
  · simp [hoffsets]
  · simp [hoffsets]
  · rw [popBack_indexFile, hcountEq, List.dropLast_concat]
    exact hcount
  · simp only [List.dropLast_concat]
    omega
  · refine (hR.cacheSound.erase _).congr fun entry hmem => ?_
    have hne : entry.1 ≠ v.length := by
      simpa [Lru.erase, hoffsets] using (List.mem_filter.mp hmem).2
    have hlt' : entry.1 < v.length + 1 := by
      have hentry := hR.cacheSound entry (List.mem_of_mem_filter hmem)
      simpa using (List.getElem?_eq_some_iff.mp hentry).1
    simp only [List.dropLast_concat]
    exact (List.getElem?_append_left (by omega)).symm
  · exact hR.cacheWellFormed.erase _
  · exact hR.poolSize_pos

/-- A cleared accessor represents the empty vector. -/
theorem clear_represents (hR : Represents enc s v) : Represents enc s.clear [] := by
  have hprefix : LittleEndian.bytes 8 v.length ++ [] <+: s.indexFile := by
    rw [List.append_nil]
    exact (List.prefix_append _ _).trans hR.index
  have hcount := append_prefix_writeAt_zero hprefix
    ((LittleEndian.length_bytes 8 0).trans (LittleEndian.length_bytes 8 _).symm)
  exact
    { items := List.nil_prefix
      itemsFileSize_eq := rfl
      offsets_eq := rfl
      index := hcount
      length_lt := by simp
      cacheSound := Lru.sound_nil
      cacheWellFormed := Lru.wellFormed_nil
      poolSize_pos := hR.poolSize_pos }

/-- A read from an accessor that represents a vector gives the vector's item, and
the accessor still represents the vector. -/
theorem get_represents (hcodec : codec.RoundTrips enc) (hR : Represents enc s v)
    (tempItem : T) {i : Nat} (hi : i < v.length) :
    ∃ item s', v[i]? = some item ∧ s.get codec tempItem i = .ok (item, s') ∧
      Represents enc s' v := by
  cases hfind : Lru.find i s.cache with
  | some item =>
    have hitem := hR.cacheSound.find hfind
    refine ⟨item, _, hitem, get_of_find codec hfind, ?_⟩
    exact { hR with
      cacheSound := hR.cacheSound.touch hitem
      cacheWellFormed := hR.cacheWellFormed.touch hfind }
  | none =>
    have hoffsets : i < s.offsets.length := hR.length_offsets ▸ hi
    obtain ⟨item, rest, hitem, hdrop⟩ := hR.drop_offset hoffsets
    have hread := hcodec.reads item tempItem rest
    rw [← hdrop] at hread
    refine ⟨item, _, hitem, get_of_read codec hfind hoffsets hread, ?_⟩
    exact { hR with
      cacheSound := hR.cacheSound.insert _ hitem
      cacheWellFormed := hR.cacheWellFormed.insert hR.poolSize_pos hfind item }

/-- Reopening an accessor that represents a vector succeeds, and the accessor still
represents the vector. -/
theorem reopen_represents (hcodec : codec.RoundTrips enc) (hR : Represents enc s v) :
    ∃ s', s.reopen = .ok s' ∧ Represents enc s' v := by
  obtain ⟨rest, hrest⟩ := hR.index
  have hheight := readHeight_run hR.length_lt (v.flatMap (sizeBytes enc) ++ rest)
  have hitems := readItems_run enc 0 v (fun item _ => hcodec.fits item) rest
  rw [List.append_assoc] at hrest
  rw [hrest] at hheight
  have hinit := initIndex_of_read hheight hitems
  refine ⟨{ s with
    offsets := offsetsFrom enc 0 v, itemsFileSize := 0 + (v.flatMap enc).length, cache := [] },
    by simp only [reopen, init, hinit, Option.getD_some], ?_⟩
  exact
    { items := hR.items
      itemsFileSize_eq := Nat.zero_add _
      offsets_eq := rfl
      index := ⟨rest, hrest⟩
      length_lt := hR.length_lt
      cacheSound := Lru.sound_nil
      cacheWellFormed := Lru.wellFormed_nil
      poolSize_pos := hR.poolSize_pos }

/-- A fresh store on missing files holds the empty vector. -/
theorem init_represents {poolSize : Nat} (hpool : 0 < poolSize) :
    ∃ s, init poolSize none none = .ok s ∧ Represents enc s ([] : List T) := by
  refine ⟨_, rfl, ?_⟩
  exact
    { items := List.nil_prefix
      itemsFileSize_eq := rfl
      offsets_eq := rfl
      index := by simp
      length_lt := by simp
      cacheSound := Lru.sound_nil
      cacheWellFormed := Lru.wellFormed_nil
      poolSize_pos := hpool }

/-! ## Runs -/

/-- With a codec that reads back what it writes, the accessor simulates the vector,
call by call. -/
theorem blockAccessor_simulates_vector (hcodec : codec.RoundTrips enc) :
    Machine.Simulation (step codec) Operation.apply Operation.Defined (Represents enc) := by
  intro s v call hR hdefined
  cases call with
  | pushBack item =>
    obtain ⟨s', hpush, hR'⟩ := pushBack_represents hcodec hR item hdefined
    exact ⟨s', by simp [step, hpush, Operation.apply], hR'⟩
  | popBack => exact ⟨s.popBack, rfl, popBack_represents hR hdefined⟩
  | clear => exact ⟨s.clear, rfl, clear_represents hR⟩
  | get index tempItem =>
    obtain ⟨item, s', hitem, hget, hR'⟩ := get_represents hcodec hR tempItem hdefined
    exact ⟨s', by simp [step, hget, Operation.apply, hitem], hR'⟩
  | reopen =>
    obtain ⟨s', hreopen, hR'⟩ := reopen_represents hcodec hR
    exact ⟨s', by simp [step, hreopen, Operation.apply], hR'⟩

/-- Every run of calls that the vector defines runs on an accessor opened empty with
a positive pool: each call returns what the vector's returns, and the size and
the emptiness are the vector's. -/
theorem blockAccessor_refines_vector (hcodec : codec.RoundTrips enc) {poolSize : Nat}
    (hpool : 0 < poolSize) (calls : List (Operation T))
    (hdefined : Machine.Allowed Operation.Defined Operation.apply [] calls) :
    ∃ s₀ s, init poolSize none none = .ok s₀ ∧
      Machine.run (step codec) s₀ calls = .ok ((Machine.runSpec Operation.apply [] calls).1, s) ∧
      s.size = (Machine.runSpec Operation.apply [] calls).2.length ∧
      s.empty = (Machine.runSpec Operation.apply [] calls).2.isEmpty := by
  obtain ⟨s₀, hinit, hR₀⟩ : ∃ s, init poolSize none none = .ok s ∧ Represents enc s ([] : List T) :=
    init_represents hpool
  obtain ⟨s, hrun, hR⟩ := (blockAccessor_simulates_vector hcodec).run calls s₀ [] hR₀ hdefined
  exact ⟨s₀, s, hinit, hrun, hR.length_offsets, hR.empty_eq⟩

/-- The stream operators of {lit}`hash_t`: its thirty-two bytes, raw. -/
def hashCodec : StreamCodec Hash :=
  ⟨Writer.writePod, fun _ => Reader.readPod 32⟩

theorem hashCodec_roundTrips : hashCodec.RoundTrips Pod.bytes where
  writes item := Writes.writeBytes item.bytes
  reads item _ := Reader.readPod_reads item
  fits item := by rw [item.length_eq]; decide

/-- Hashes through a cache of one: two pushes, a read, a reopen and a read. -/
theorem blockAccessor_refines_vector_hashes :
    ∃ s₀ s, init 1 none none = .ok s₀ ∧
      Machine.run (step hashCodec) s₀
        [.pushBack nullHash, .pushBack nullHash, .get 0 nullHash, .reopen, .get 1 nullHash] =
        .ok ((Machine.runSpec Operation.apply []
          [.pushBack nullHash, .pushBack nullHash, .get 0 nullHash, .reopen, .get 1 nullHash]).1, s) ∧
      s.size = (Machine.runSpec Operation.apply []
          [.pushBack nullHash, .pushBack nullHash, .get 0 nullHash, .reopen, .get 1 nullHash]).2.length ∧
      s.empty = (Machine.runSpec Operation.apply []
          [.pushBack nullHash, .pushBack nullHash, .get 0 nullHash, .reopen, .get 1 nullHash]).2.isEmpty :=
  blockAccessor_refines_vector hashCodec_roundTrips (by decide) _
    (by simp [Machine.Allowed, Operation.Defined, Operation.apply])

/-! ## The block entry codec breaks it -/

/-- With a cache of one block, the second push evicts the first, and the read of
the first from the items file gives another entry than the one pushed. -/
theorem blockAccessor_cache_miss_diverges (tempItem : BlockEntry) :
    ∃ s₀ s₁ s₂ s₃ e, init 1 none none = .ok s₀ ∧
      s₀.pushBack blockEntryCodec coinbaseEntry = .ok s₁ ∧
      s₁.pushBack blockEntryCodec coinbaseEntry = .ok s₂ ∧
      s₂.get blockEntryCodec tempItem 0 = .ok (e, s₃) ∧ e ≠ coinbaseEntry := by
  have hwrite : (blockEntryCodec.write coinbaseEntry).run [] = .ok ((), coinbaseEntryBytes) :=
    blockEntry_write_coinbaseEntry
  -- two pushes into a pool of one: the second evicts the first
  obtain ⟨s₀, s₁, s₂, hinit, hpush₁, hpush₂, hitems, hoffsets, hcache⟩ :
      ∃ s₀ s₁ s₂, init 1 none none = .ok s₀ ∧
        s₀.pushBack blockEntryCodec coinbaseEntry = .ok s₁ ∧
        s₁.pushBack blockEntryCodec coinbaseEntry = .ok s₂ ∧
        s₂.itemsFile = coinbaseEntryBytes ++ coinbaseEntryBytes ∧ s₂.offsets = [0, 52] ∧
        s₂.cache = [(1, coinbaseEntry)] :=
    ⟨_, _, _, rfl, pushBack_of_write _ hwrite, pushBack_of_write _ hwrite, by decide, by decide,
      by decide⟩
  have hmiss : Lru.find 0 s₂.cache = none := by rw [hcache]; rfl
  have hindex : 0 < s₂.offsets.length := by rw [hoffsets]; decide
  -- the entry is read from the start of the file, over whatever the target holds
  obtain ⟨e, hread, hinputs⟩ : ∃ e, (Reader.blockEntry default).run
      (coinbaseEntryBytes ++ coinbaseEntryBytes) = .ok (e, 0 :: coinbaseEntryBytes) ∧
      e.bl.baseTransaction.inputs = [.base ⟨1⟩] := ⟨_, rfl, rfl⟩
  have hfile : (blockEntryCodec.read tempItem).run (s₂.itemsFile.drop s₂.offsets[0]) =
      .ok ({ e with bl.timestamp := tempItem.bl.timestamp }, 0 :: coinbaseEntryBytes) := by
    rw [List.getElem_of_eq hoffsets, hitems]
    show (Reader.blockEntry tempItem).run (coinbaseEntryBytes ++ coinbaseEntryBytes) = _
    rw [Reader.blockEntry_target tempItem default, StateT.run_map, hread]
    rfl
  refine ⟨s₀, s₁, s₂, _, _, hinit, hpush₁, hpush₂, get_of_read _ hmiss hindex hfile, ?_⟩
  intro heq
  have hinputs' := congrArg (fun entry : BlockEntry => entry.bl.baseTransaction.inputs) heq
  simp only [hinputs] at hinputs'
  exact absurd hinputs' (by decide)

end BlockAccessor

end CryptoNote
