import CryptoNote.Lib.OrderedIndex
import CryptoNote.Lib.Simulation

/-!
# The peer lists

{lit}`PeerlistManager` in {lit}`p2p/PeerListManager.cpp`: the white list of
peers this node has talked to and the gray list of peers it has only heard of.
Each list is a {lit}`boost::multi_index_container` with a unique index by
network address and a non-unique index by the time a peer was last seen; it is
kept here as the list of its entries in the order of the second index, with
the uniqueness of addresses and the order as fields, as the container
guarantees them.  An iterator of the address index is a position in that list.

Adding a peer to a list inserts it, or replaces the entry of its address, and
trims the list to its limit by erasing from the front of the time index, where
the entries seen longest ago are.  A peer promoted to the white list leaves
the gray list; a peer already white is not added to the gray list.  The
current time of {lit}`set_peer_just_seen` is an argument.  An allocation
failure inside the container, which the functions catch and report as
{lit}`false`, is not modelled.

Main results:

- Theorem {lit}`PeerlistManager.consistent_step`: every operation keeps the
  lists disjoint, within their limits and free of addresses that
  {lit}`is_ip_allowed` rejects.
- Theorem {lit}`PeersIndexed.trim_drops_least`: trimming erases only entries
  seen no later than every entry it keeps.
-/

namespace CryptoNote

namespace P2p

/-- {lit}`network_address_t`, ordered by {lit}`(ip, port)`; two addresses are
the same entry of the address index exactly when they are equal. -/
structure NetworkAddress where
  ip : UInt32
  port : UInt32
deriving DecidableEq, Repr

/-- {lit}`peerlist_entry_t`. -/
structure PeerlistEntry where
  adr : NetworkAddress
  id : UInt64
  lastSeen : UInt64
deriving DecidableEq, Repr

/-- The key of the {lit}`by_time` index: {lit}`last_seen` in the order of
{lit}`uint64_t`. -/
def PeerlistEntry.timeKey (entry : PeerlistEntry) : Nat := entry.lastSeen.toNat

/-- {lit}`peers_indexed`: the entries in the order of the {lit}`by_time` index,
with at most one entry per address. -/
structure PeersIndexed where
  entries : List PeerlistEntry
  sorted : OrderedIndex.Sorted PeerlistEntry.timeKey entries
  addrUnique : (entries.map PeerlistEntry.adr).Nodup

namespace PeersIndexed

/-- A container with no entry. -/
def empty : PeersIndexed := ⟨[], List.Pairwise.nil, List.nodup_nil⟩

/-- A container of a sublist of the entries. -/
def ofSublist (peers : PeersIndexed) (entries : List PeerlistEntry)
    (h : entries.Sublist peers.entries) : PeersIndexed :=
  ⟨entries, peers.sorted.sublist h, (peers.addrUnique.sublist (h.map _))⟩

/-- {lit}`get<by_addr>().find`: the position of the entry of an address. -/
def findByAddr (peers : PeersIndexed) (adr : NetworkAddress) : Option Nat :=
  peers.entries.findIdx? fun entry => entry.adr = adr

theorem addr_notMem_insert {peers : PeersIndexed} {ple : PeerlistEntry}
    (h : ple.adr ∉ peers.entries.map PeerlistEntry.adr) :
    ((OrderedIndex.insert PeerlistEntry.timeKey ple peers.entries).map PeerlistEntry.adr).Nodup :=
  ((OrderedIndex.perm_insert ple peers.entries).map _).nodup_iff.mpr
    (List.nodup_cons.mpr ⟨h, peers.addrUnique⟩)

/-- {lit}`insert`: a new entry goes into both indices; an entry whose address
is already present is refused. -/
def insert (peers : PeersIndexed) (ple : PeerlistEntry) : PeersIndexed :=
  if h : ple.adr ∈ peers.entries.map PeerlistEntry.adr then peers
  else
    ⟨OrderedIndex.insert PeerlistEntry.timeKey ple peers.entries,
      OrderedIndex.sorted_insert ple peers.sorted, addr_notMem_insert h⟩

theorem addr_nodup_replaceAt {peers : PeersIndexed} {i : Nat} {ple : PeerlistEntry}
    (h : ple.adr ∉ (peers.entries.eraseIdx i).map PeerlistEntry.adr) :
    ((OrderedIndex.replaceAt PeerlistEntry.timeKey i ple peers.entries).map
      PeerlistEntry.adr).Nodup :=
  ((OrderedIndex.perm_replaceAt i peers.entries ple).map _).nodup_iff.mpr
    (List.nodup_cons.mpr ⟨h, peers.addrUnique.sublist ((List.eraseIdx_sublist _ _).map _)⟩)

/-- {lit}`replace` through an iterator: the entry at the position is replaced,
unless the new address belongs to another entry. -/
def replace (peers : PeersIndexed) (i : Nat) (ple : PeerlistEntry) : PeersIndexed :=
  if h : ple.adr ∈ (peers.entries.eraseIdx i).map PeerlistEntry.adr then peers
  else
    ⟨OrderedIndex.replaceAt PeerlistEntry.timeKey i ple peers.entries,
      OrderedIndex.sorted_replaceAt i ple peers.sorted, addr_nodup_replaceAt h⟩

/-- {lit}`erase` through an iterator. -/
def erase (peers : PeersIndexed) (i : Nat) : PeersIndexed :=
  peers.ofSublist (peers.entries.eraseIdx i) (List.eraseIdx_sublist _ _)

/-- {lit}`Peerlist::trim`: erase the first entry of the time index while the
list is over its limit. -/
def trim (peers : PeersIndexed) (maxSize : Nat) : PeersIndexed :=
  peers.ofSublist (OrderedIndex.trimFront maxSize peers.entries)
    (OrderedIndex.trimFront_sublist _ _)

/-! ### What each operation leaves in the list -/

theorem findByAddr_eq_some {peers : PeersIndexed} {adr : NetworkAddress} {i : Nat}
    (h : peers.findByAddr adr = some i) :
    ∃ hi : i < peers.entries.length, peers.entries[i].adr = adr := by
  obtain ⟨hi, hadr, -⟩ := List.findIdx?_eq_some_iff_getElem.mp h
  exact ⟨hi, by simpa using hadr⟩

theorem findByAddr_eq_none {peers : PeersIndexed} {adr : NetworkAddress}
    (h : peers.findByAddr adr = none) : ∀ entry ∈ peers.entries, entry.adr ≠ adr := by
  intro entry hentry hadr
  rw [findByAddr, List.findIdx?_eq_none_iff] at h
  simpa [hadr] using h entry hentry

theorem mem_insert {peers : PeersIndexed} {ple entry : PeerlistEntry}
    (h : entry ∈ (peers.insert ple).entries) : entry = ple ∨ entry ∈ peers.entries := by
  unfold insert at h
  split_ifs at h
  · exact .inr h
  · exact OrderedIndex.mem_insert.mp h

/-- An entry of the list after a replacement is the new one or was there before. -/
theorem mem_replace {peers : PeersIndexed} {i : Nat} {ple entry : PeerlistEntry}
    (h : entry ∈ (peers.replace i ple).entries) : entry = ple ∨ entry ∈ peers.entries := by
  unfold replace at h
  split_ifs at h
  · exact .inr h
  · rcases List.mem_cons.mp ((OrderedIndex.perm_replaceAt i peers.entries ple).mem_iff.mp h) with
      h | h
    · exact .inl h
    · exact .inr ((List.eraseIdx_sublist _ _).subset h)

theorem mem_trim {peers : PeersIndexed} {maxSize : Nat} {entry : PeerlistEntry}
    (h : entry ∈ (peers.trim maxSize).entries) : entry ∈ peers.entries :=
  (OrderedIndex.trimFront_sublist _ _).subset h

theorem length_trim_le (peers : PeersIndexed) (maxSize : Nat) :
    (peers.trim maxSize).entries.length ≤ maxSize :=
  OrderedIndex.length_trimFront_le _ _

/-- Replacing an entry within the list keeps its length. -/
theorem length_replace (peers : PeersIndexed) {i : Nat} (hi : i < peers.entries.length)
    (ple : PeerlistEntry) : (peers.replace i ple).entries.length = peers.entries.length := by
  unfold replace
  split_ifs
  · rfl
  · rw [(OrderedIndex.perm_replaceAt i peers.entries ple).length_eq, List.length_cons,
      OrderedIndex.length_eraseIdx_add_one hi]

/-- Erasing the entry of an address leaves no entry with that address: the
address index is unique. -/
theorem adr_ne_of_mem_erase {peers : PeersIndexed} {adr : NetworkAddress} {i : Nat}
    (h : peers.findByAddr adr = some i) :
    ∀ entry ∈ (peers.erase i).entries, entry.adr ≠ adr := by
  obtain ⟨hi, hadr⟩ := findByAddr_eq_some h
  intro entry hentry heq
  obtain ⟨j, hj, hne, rfl⟩ := List.mem_eraseIdx_iff_getElem.mp hentry
  have hsame : peers.entries[j] = peers.entries[i] :=
    List.inj_on_of_nodup_map peers.addrUnique (List.getElem_mem _) (List.getElem_mem _)
      (heq.trans hadr.symm)
  exact hne ((List.Nodup.getElem_inj_iff (peers.addrUnique.of_map _)).mp hsame)

/-- Trimming erases only entries seen no later than every entry it keeps. -/
theorem trim_drops_least (peers : PeersIndexed) (maxSize : Nat) :
    ∃ dropped, peers.entries = dropped ++ (peers.trim maxSize).entries ∧
      ∀ b ∈ dropped, ∀ c ∈ (peers.trim maxSize).entries, b.lastSeen.toNat ≤ c.lastSeen.toNat :=
  OrderedIndex.trimFront_spec maxSize peers.sorted

end PeersIndexed

/-! ## Addresses a node accepts -/

/-- {lit}`hostToNetwork`: the bytes of an IPv4 address in the other order. -/
def hostToNetwork (n : UInt32) : UInt32 :=
  (n <<< (24 : UInt32)) ||| ((n &&& (0xff00 : UInt32)) <<< (8 : UInt32)) |||
    ((n &&& (0xff0000 : UInt32)) >>> (8 : UInt32)) ||| (n >>> (24 : UInt32))

/-- {lit}`networkToHost`, the same swap. -/
def networkToHost (n : UInt32) : UInt32 := hostToNetwork n

/-- {lit}`Ipv4Address::isLoopback`: {lit}`127.0.0.0/8`. -/
def Ipv4Address.isLoopback (value : UInt32) : Bool :=
  value &&& (0xff000000 : UInt32) == (127 : UInt32) <<< (24 : UInt32)

/-- {lit}`Ipv4Address::isPrivate`: {lit}`10.0.0.0/8`, {lit}`172.16.0.0/12` and
{lit}`192.168.0.0/16`. -/
def Ipv4Address.isPrivate (value : UInt32) : Bool :=
  value &&& (0xff000000 : UInt32) == (10 : UInt32) <<< (24 : UInt32) ||
    value &&& (0xfff00000 : UInt32) ==
      (((172 : UInt32) <<< (24 : UInt32)) ||| ((16 : UInt32) <<< (16 : UInt32))) ||
    value &&& (0xffff0000 : UInt32) ==
      (((192 : UInt32) <<< (24 : UInt32)) ||| ((168 : UInt32) <<< (16 : UInt32)))

/-! ## The manager -/

/-- {lit}`P2P_LOCAL_WHITE_PEERLIST_LIMIT`. -/
def p2pLocalWhitePeerlistLimit : Nat := 1000

/-- {lit}`P2P_LOCAL_GRAY_PEERLIST_LIMIT`. -/
def p2pLocalGrayPeerlistLimit : Nat := 5000

/-- {lit}`PeerlistManager`: the two lists and the flag {lit}`init` sets. -/
structure PeerlistManager where
  peersWhite : PeersIndexed
  peersGray : PeersIndexed
  allowLocalIp : Bool

namespace PeerlistManager

/-- A manager with empty lists; the constructor leaves {lit}`m_allow_local_ip`
to {lit}`init`, so any value of it is a start. -/
def empty (allowLocalIp : Bool) : PeerlistManager := ⟨.empty, .empty, allowLocalIp⟩

/-- {lit}`is_ip_allowed`: never a loopback address, and a private one only when
local addresses are allowed. -/
def isIpAllowed (m : PeerlistManager) (ip : UInt32) : Bool :=
  let addr := networkToHost ip
  if Ipv4Address.isLoopback addr then false
  else if !m.allowLocalIp && Ipv4Address.isPrivate addr then false
  else true

/-- {lit}`append_with_peer_white`: insert or refresh the peer in the white list,
then drop it from the gray list. -/
def appendWithPeerWhite (m : PeerlistManager) (ple : PeerlistEntry) : Bool × PeerlistManager :=
  if !m.isIpAllowed ple.adr.ip then (true, m)
  else
    let peersWhite :=
      match m.peersWhite.findByAddr ple.adr with
      | none => (m.peersWhite.insert ple).trim p2pLocalWhitePeerlistLimit
      | some i => m.peersWhite.replace i ple
    let peersGray :=
      match m.peersGray.findByAddr ple.adr with
      | some i => m.peersGray.erase i
      | none => m.peersGray
    (true, { m with peersWhite, peersGray })

/-- {lit}`append_with_peer_gray`: a peer not yet white is inserted or refreshed
in the gray list. -/
def appendWithPeerGray (m : PeerlistManager) (ple : PeerlistEntry) : Bool × PeerlistManager :=
  if !m.isIpAllowed ple.adr.ip then (true, m)
  else if (m.peersWhite.findByAddr ple.adr).isSome then (true, m)
  else
    let peersGray :=
      match m.peersGray.findByAddr ple.adr with
      | none => (m.peersGray.insert ple).trim p2pLocalGrayPeerlistLimit
      | some i => m.peersGray.replace i ple
    (true, { m with peersGray })

/-- {lit}`set_peer_just_seen`: the peer, seen now, goes to the white list. -/
def setPeerJustSeen (m : PeerlistManager) (peer : UInt64) (adr : NetworkAddress) (now : UInt64) :
    Bool × PeerlistManager :=
  m.appendWithPeerWhite ⟨adr, peer, now⟩

/-- {lit}`merge_peerlist`: every received peer goes to the gray list, which is
then trimmed. -/
def mergePeerlist (m : PeerlistManager) (outerBs : List PeerlistEntry) : Bool × PeerlistManager :=
  let m := outerBs.foldl (fun m be => (m.appendWithPeerGray be).2) m
  (true, { m with peersGray := m.peersGray.trim p2pLocalGrayPeerlistLimit })

/-- The operations that change the lists. -/
inductive Operation where
  | appendWithPeerWhite (ple : PeerlistEntry)
  | appendWithPeerGray (ple : PeerlistEntry)
  | setPeerJustSeen (peer : UInt64) (adr : NetworkAddress) (now : UInt64)
  | mergePeerlist (outerBs : List PeerlistEntry)

/-- One operation on the manager. -/
def step (m : PeerlistManager) : Operation → PeerlistManager
  | .appendWithPeerWhite ple => (m.appendWithPeerWhite ple).2
  | .appendWithPeerGray ple => (m.appendWithPeerGray ple).2
  | .setPeerJustSeen peer adr now => (m.setPeerJustSeen peer adr now).2
  | .mergePeerlist outerBs => (m.mergePeerlist outerBs).2

/-! ### The invariant -/

/-- The lists share no address, hold only addresses the node accepts and stay
within their limits. -/
structure Consistent (m : PeerlistManager) : Prop where
  disjoint : ∀ e ∈ m.peersWhite.entries, ∀ e' ∈ m.peersGray.entries, e.adr ≠ e'.adr
  whiteAllowed : ∀ e ∈ m.peersWhite.entries, m.isIpAllowed e.adr.ip = true
  grayAllowed : ∀ e ∈ m.peersGray.entries, m.isIpAllowed e.adr.ip = true
  whiteBound : m.peersWhite.entries.length ≤ p2pLocalWhitePeerlistLimit
  grayBound : m.peersGray.entries.length ≤ p2pLocalGrayPeerlistLimit

theorem consistent_empty (allowLocalIp : Bool) : (empty allowLocalIp).Consistent :=
  ⟨by simp [empty, PeersIndexed.empty], by simp [empty, PeersIndexed.empty],
    by simp [empty, PeersIndexed.empty], by simp [empty, PeersIndexed.empty, p2pLocalWhitePeerlistLimit],
    by simp [empty, PeersIndexed.empty, p2pLocalGrayPeerlistLimit]⟩

/-- Adding a peer to the white list keeps the manager consistent. -/
theorem consistent_appendWithPeerWhite {m : PeerlistManager} (hm : m.Consistent)
    (ple : PeerlistEntry) : (m.appendWithPeerWhite ple).2.Consistent := by
  unfold appendWithPeerWhite
  split_ifs with hallowed
  · exact hm
  simp only [Bool.not_eq_true', Bool.not_eq_false] at hallowed
  have hwhite : ∀ e ∈ (match m.peersWhite.findByAddr ple.adr with
      | none => (m.peersWhite.insert ple).trim p2pLocalWhitePeerlistLimit
      | some i => m.peersWhite.replace i ple).entries, e = ple ∨ e ∈ m.peersWhite.entries := by
    intro e he
    split at he
    · exact PeersIndexed.mem_insert (PeersIndexed.mem_trim he)
    · exact PeersIndexed.mem_replace he
  have hwhiteBound : (match m.peersWhite.findByAddr ple.adr with
      | none => (m.peersWhite.insert ple).trim p2pLocalWhitePeerlistLimit
      | some i => m.peersWhite.replace i ple).entries.length ≤ p2pLocalWhitePeerlistLimit := by
    split
    · exact PeersIndexed.length_trim_le _ _
    · next i hfind =>
      obtain ⟨hi, -⟩ := PeersIndexed.findByAddr_eq_some hfind
      rw [PeersIndexed.length_replace _ hi]
      exact hm.whiteBound
  have hgray : ∀ e ∈ (match m.peersGray.findByAddr ple.adr with
      | some i => m.peersGray.erase i
      | none => m.peersGray).entries, e ∈ m.peersGray.entries ∧ e.adr ≠ ple.adr := by
    intro e he
    split at he
    · next i hfind =>
      exact ⟨List.mem_of_mem_eraseIdx he, PeersIndexed.adr_ne_of_mem_erase hfind e he⟩
    · next hfind => exact ⟨he, PeersIndexed.findByAddr_eq_none hfind e he⟩
  have hgrayBound : (match m.peersGray.findByAddr ple.adr with
      | some i => m.peersGray.erase i
      | none => m.peersGray).entries.length ≤ p2pLocalGrayPeerlistLimit := by
    split
    · exact (List.length_eraseIdx_le _ _).trans hm.grayBound
    · exact hm.grayBound
  refine ⟨?_, ?_, ?_, hwhiteBound, hgrayBound⟩
  · intro e he e' he'
    obtain ⟨he'gray, he'adr⟩ := hgray e' he'
    rcases hwhite e he with rfl | he
    · exact he'adr.symm
    · exact hm.disjoint e he e' he'gray
  · intro e he
    rcases hwhite e he with rfl | he
    · exact hallowed
    · exact hm.whiteAllowed e he
  · intro e he
    exact hm.grayAllowed e (hgray e he).1

/-- Adding a peer to the gray list keeps the manager consistent. -/
theorem consistent_appendWithPeerGray {m : PeerlistManager} (hm : m.Consistent)
    (ple : PeerlistEntry) : (m.appendWithPeerGray ple).2.Consistent := by
  unfold appendWithPeerGray
  split_ifs with hallowed hwhite
  · exact hm
  · exact hm
  simp only [Bool.not_eq_true', Bool.not_eq_false] at hallowed
  have hnotWhite : ∀ e ∈ m.peersWhite.entries, e.adr ≠ ple.adr :=
    PeersIndexed.findByAddr_eq_none (Option.not_isSome_iff_eq_none.mp hwhite)
  have hgray : ∀ e ∈ (match m.peersGray.findByAddr ple.adr with
      | none => (m.peersGray.insert ple).trim p2pLocalGrayPeerlistLimit
      | some i => m.peersGray.replace i ple).entries, e = ple ∨ e ∈ m.peersGray.entries := by
    intro e he
    split at he
    · exact PeersIndexed.mem_insert (PeersIndexed.mem_trim he)
    · exact PeersIndexed.mem_replace he
  have hgrayBound : (match m.peersGray.findByAddr ple.adr with
      | none => (m.peersGray.insert ple).trim p2pLocalGrayPeerlistLimit
      | some i => m.peersGray.replace i ple).entries.length ≤ p2pLocalGrayPeerlistLimit := by
    split
    · exact PeersIndexed.length_trim_le _ _
    · next i hfind =>
      obtain ⟨hi, -⟩ := PeersIndexed.findByAddr_eq_some hfind
      rw [PeersIndexed.length_replace _ hi]
      exact hm.grayBound
  refine ⟨?_, hm.whiteAllowed, ?_, hm.whiteBound, hgrayBound⟩
  · intro e he e' he'
    rcases hgray e' he' with rfl | he'
    · exact hnotWhite e he
    · exact hm.disjoint e he e' he'
  · intro e he
    rcases hgray e he with rfl | he
    · exact hallowed
    · exact hm.grayAllowed e he

/-- Merging a remote peer list keeps the manager consistent. -/
theorem consistent_mergePeerlist {m : PeerlistManager} (hm : m.Consistent)
    (outerBs : List PeerlistEntry) : (m.mergePeerlist outerBs).2.Consistent := by
  -- the loop keeps the invariant entry by entry
  have hloop : ∀ (bs : List PeerlistEntry) (m : PeerlistManager), m.Consistent →
      (bs.foldl (fun m be => (m.appendWithPeerGray be).2) m).Consistent := by
    intro bs
    induction bs with
    | nil => exact fun _ hm => hm
    | cons be bs ih => exact fun m hm => ih _ (consistent_appendWithPeerGray hm be)
  have hmerged := hloop outerBs m hm
  unfold mergePeerlist
  generalize outerBs.foldl (fun m be => (m.appendWithPeerGray be).2) m = merged at hmerged
  -- the final trim only drops gray entries
  exact ⟨fun e he e' he' => hmerged.disjoint e he e' (PeersIndexed.mem_trim he'),
    hmerged.whiteAllowed, fun e he => hmerged.grayAllowed e (PeersIndexed.mem_trim he),
    hmerged.whiteBound, PeersIndexed.length_trim_le _ _⟩

theorem consistent_step {m : PeerlistManager} (hm : m.Consistent) :
    ∀ op : Operation, (m.step op).Consistent
  | .appendWithPeerWhite ple => consistent_appendWithPeerWhite hm ple
  | .appendWithPeerGray ple => consistent_appendWithPeerGray hm ple
  | .setPeerJustSeen _ _ _ => consistent_appendWithPeerWhite hm _
  | .mergePeerlist outerBs => consistent_mergePeerlist hm outerBs

/-- In every state that the operations reach from empty lists, the lists share
no address, hold each address once, hold only addresses {lit}`is_ip_allowed`
accepts and stay within their limits; and a trim only ever erases entries seen
no later than every entry it keeps. -/
theorem peerlistManager_reachable_consistent {allowLocalIp : Bool} {m : PeerlistManager}
    (hreach : Machine.Reachable step (empty allowLocalIp) m) :
    m.Consistent ∧ (m.peersWhite.entries.map PeerlistEntry.adr).Nodup ∧
      (m.peersGray.entries.map PeerlistEntry.adr).Nodup ∧
      ∀ (peers : PeersIndexed) (maxSize : Nat), ∃ dropped,
        peers.entries = dropped ++ (peers.trim maxSize).entries ∧
          ∀ b ∈ dropped, ∀ c ∈ (peers.trim maxSize).entries, b.lastSeen.toNat ≤ c.lastSeen.toNat :=
  ⟨Machine.Reachable.invariant Consistent (consistent_empty allowLocalIp)
      (fun _ op hm => consistent_step hm op) hreach,
    m.peersWhite.addrUnique, m.peersGray.addrUnique, PeersIndexed.trim_drops_least⟩

/-- The manager after one peer is seen. -/
theorem peerlistManager_reachable_consistent_seen :
    Machine.Reachable step (empty false)
        ((empty false).step (.setPeerJustSeen 7 ⟨0x08080808, 8080⟩ 100)) ∧
      ((empty false).step (.setPeerJustSeen 7 ⟨0x08080808, 8080⟩ 100)).Consistent ∧
      (((empty false).step (.setPeerJustSeen 7 ⟨0x08080808, 8080⟩ 100)).peersWhite.entries.map
        PeerlistEntry.adr).Nodup ∧
      (((empty false).step (.setPeerJustSeen 7 ⟨0x08080808, 8080⟩ 100)).peersGray.entries.map
        PeerlistEntry.adr).Nodup ∧
      ∀ (peers : PeersIndexed) (maxSize : Nat), ∃ dropped,
        peers.entries = dropped ++ (peers.trim maxSize).entries ∧
          ∀ b ∈ dropped, ∀ c ∈ (peers.trim maxSize).entries, b.lastSeen.toNat ≤ c.lastSeen.toNat :=
  ⟨.step _ .init, peerlistManager_reachable_consistent (.step _ .init)⟩

/-! ### The head of the white list -/

/-- The loop of {lit}`get_peerlist_head` over the time index walked backwards:
an entry never seen is skipped, every other one is pushed, and the walk stops
after a push whose count, read before {lit}`cnt++` increments it, exceeds
{lit}`depth`. -/
def peerlistHeadLoop (depth : UInt32) : List PeerlistEntry → UInt32 → List PeerlistEntry
  | [], _ => []
  | vl :: rest, cnt =>
    if vl.lastSeen = 0 then peerlistHeadLoop depth rest cnt
    else if cnt > depth then [vl]
    else vl :: peerlistHeadLoop depth rest (cnt + 1)

/-- {lit}`get_peerlist_head`: the head is appended to {lit}`bs_head`, and the
function returns {lit}`true`. -/
def getPeerlistHead (m : PeerlistManager) (bsHead : List PeerlistEntry) (depth : UInt32) :
    Bool × List PeerlistEntry :=
  (true, bsHead ++ peerlistHeadLoop depth m.peersWhite.entries.reverse 0)

/-- The white entries seen at least once, from the most recently seen. -/
def seenByTime (peers : PeersIndexed) : List PeerlistEntry :=
  peers.entries.reverse.filter fun e => e.lastSeen != 0

theorem filter_seen_cons_of_zero {vl : PeerlistEntry} {rest : List PeerlistEntry}
    (h : vl.lastSeen = 0) :
    (vl :: rest).filter (fun e => e.lastSeen != 0) = rest.filter fun e => e.lastSeen != 0 := by
  simp [h]

theorem filter_seen_cons_of_ne {vl : PeerlistEntry} {rest : List PeerlistEntry}
    (h : vl.lastSeen ≠ 0) :
    (vl :: rest).filter (fun e => e.lastSeen != 0) =
      vl :: rest.filter fun e => e.lastSeen != 0 := by
  simp [h]

/-- Below the greatest depth the loop pushes the seen entries until the count
before the increment passes {lit}`depth`: {lit}`depth + 2` of them in all. -/
theorem peerlistHeadLoop_eq_take {depth : UInt32} (hdepth : depth ≠ 0xFFFFFFFF) :
    ∀ (l : List PeerlistEntry) (cnt : UInt32), cnt.toNat ≤ depth.toNat + 1 →
      peerlistHeadLoop depth l cnt =
        (l.filter fun e => e.lastSeen != 0).take (depth.toNat + 2 - cnt.toNat)
  | [], _, _ => by simp [peerlistHeadLoop]
  | vl :: rest, cnt, hcnt => by
    have hmax : depth.toNat < 2 ^ 32 - 1 := by
      have hlt := UInt32.toNat_lt depth
      have hne : depth.toNat ≠ 2 ^ 32 - 1 := fun h => hdepth (UInt32.toNat_inj.mp (by simpa using h))
      omega
    by_cases hseen : vl.lastSeen = 0
    · rw [peerlistHeadLoop, if_pos hseen, filter_seen_cons_of_zero hseen]
      exact peerlistHeadLoop_eq_take hdepth rest cnt hcnt
    · rw [peerlistHeadLoop, if_neg hseen, filter_seen_cons_of_ne hseen]
      by_cases hstop : cnt > depth
      · have hlast : cnt.toNat = depth.toNat + 1 := by
          rw [gt_iff_lt, UInt32.lt_iff_toNat_lt] at hstop
          omega
        rw [if_pos hstop, hlast, show depth.toNat + 2 - (depth.toNat + 1) = 0 + 1 by omega,
          List.take_succ_cons, List.take_zero]
      · have hle : cnt.toNat ≤ depth.toNat := by
          rw [gt_iff_lt, UInt32.lt_iff_toNat_lt] at hstop
          omega
        have hsucc : (cnt + 1).toNat = cnt.toNat + 1 := by
          rw [UInt32.toNat_add]
          simp
          omega
        rw [if_neg hstop, show depth.toNat + 2 - cnt.toNat = (depth.toNat + 2 - (cnt + 1).toNat) + 1 by
          omega, List.take_succ_cons,
          peerlistHeadLoop_eq_take hdepth rest (cnt + 1) (by omega)]

/-- At the greatest depth the count never passes it, and every seen entry is pushed. -/
theorem peerlistHeadLoop_max :
    ∀ (l : List PeerlistEntry) (cnt : UInt32),
      peerlistHeadLoop 0xFFFFFFFF l cnt = l.filter fun e => e.lastSeen != 0
  | [], _ => rfl
  | vl :: rest, cnt => by
    have hnever : ¬cnt > 0xFFFFFFFF := by
      rw [gt_iff_lt, UInt32.lt_iff_toNat_lt]
      have := UInt32.toNat_lt cnt
      simp
      omega
    by_cases hseen : vl.lastSeen = 0
    · rw [peerlistHeadLoop, if_pos hseen, filter_seen_cons_of_zero hseen, peerlistHeadLoop_max]
    · rw [peerlistHeadLoop, if_neg hseen, if_neg hnever, filter_seen_cons_of_ne hseen,
        peerlistHeadLoop_max]

/-- The head is a prefix of the seen entries by the time index walked backwards. -/
theorem getPeerlistHead_eq_take (m : PeerlistManager) (bsHead : List PeerlistEntry)
    (depth : UInt32) :
    ∃ n, (m.getPeerlistHead bsHead depth).2 = bsHead ++ (seenByTime m.peersWhite).take n := by
  by_cases hdepth : depth = 0xFFFFFFFF
  · subst hdepth
    exact ⟨(seenByTime m.peersWhite).length, by
      simp only [getPeerlistHead, peerlistHeadLoop_max, seenByTime, List.take_length]⟩
  · exact ⟨depth.toNat + 2, by
      simp [getPeerlistHead, peerlistHeadLoop_eq_take hdepth _ 0 (by simp), seenByTime]⟩

/-- {lit}`get_peerlist_head` pushes two entries more than {lit}`depth`, when
there are so many: the post-increment {lit}`cnt++ > depth` is tested after the
push and reads the count before it. -/
theorem getPeerlistHead_takes_two_more (m : PeerlistManager) (bsHead : List PeerlistEntry)
    (depth : UInt32) (hdepth : depth ≠ 0xFFFFFFFF) :
    (m.getPeerlistHead bsHead depth).2 =
      bsHead ++ (seenByTime m.peersWhite).take (depth.toNat + 2) := by
  simp [getPeerlistHead, peerlistHeadLoop_eq_take hdepth _ 0 (by simp), seenByTime]

/-- Two peers seen, and a head of depth zero that still lists both. -/
theorem getPeerlistHead_takes_two_more_zero :
    (0 : UInt32) ≠ 0xFFFFFFFF ∧
      ((((empty false).step (.setPeerJustSeen 1 ⟨0x08080808, 8080⟩ 100)).step
        (.setPeerJustSeen 2 ⟨0x04040808, 8080⟩ 200)).getPeerlistHead [] 0).2.length = 2 := by
  refine ⟨by decide, ?_⟩
  rw [getPeerlistHead_takes_two_more _ _ _ (by decide)]
  decide

end PeerlistManager

end P2p

end CryptoNote
