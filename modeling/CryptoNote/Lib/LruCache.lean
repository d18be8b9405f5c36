import Mathlib.Data.List.Nodup

/-!
# Caches with least-recently-used eviction

A cache of bounded capacity kept as an association list in order of use, least
recent first.  A hit moves its entry to the most recent end; an insertion into
a full cache first drops the least recent entry.  A map from keys to entries
paired with a list of the keys in order of use, the usual implementation, is
this list split in two.

A cache is sound for a function {lit}`f` when every entry it holds is the value
{lit}`f` gives at its key: a hit then returns what {lit}`f` would.  Every
operation keeps soundness, keeps the keys distinct and keeps the cache within
its capacity.

Main results:

- Theorem {lit}`Sound.find`: a sound cache answers a hit with the value of the
  function it caches.
- Theorems {lit}`WellFormed.touch`, {lit}`WellFormed.insert`: hits and
  insertions of a missing key keep the keys distinct and the capacity.
-/

namespace Lru

variable {κ β : Type} [DecidableEq κ]

/-- The value cached under a key. -/
def find (key : κ) : List (κ × β) → Option β
  | [] => none
  | entry :: cache => if entry.1 = key then some entry.2 else find key cache

/-- Drop the entry of a key. -/
def erase (cache : List (κ × β)) (key : κ) : List (κ × β) :=
  cache.filter fun entry => entry.1 ≠ key

/-- Make the entry of a key the most recent one. -/
def touch (cache : List (κ × β)) (key : κ) (value : β) : List (κ × β) :=
  erase cache key ++ [(key, value)]

/-- Add an entry as the most recent one, first dropping the least recent entry
when the cache holds {lit}`capacity` entries. -/
def insert (capacity : Nat) (cache : List (κ × β)) (key : κ) (value : β) :
    List (κ × β) :=
  (if cache.length = capacity then cache.tail else cache) ++ [(key, value)]

/-- A key found in the cache is there with the value found. -/
theorem mem_of_find {key : κ} {value : β} :
    ∀ {cache : List (κ × β)}, find key cache = some value → (key, value) ∈ cache
  | [], h => by cases h
  | entry :: cache, h => by
    unfold find at h
    split at h
    · next hkey =>
      cases h
      exact List.mem_cons.mpr (.inl (by rw [← hkey]))
    · exact List.mem_cons_of_mem _ (mem_of_find h)

/-- A key that is not found is not in the cache. -/
theorem find_eq_none {key : κ} :
    ∀ {cache : List (κ × β)}, find key cache = none → key ∉ cache.map Prod.fst
  | [], _ => by simp
  | entry :: cache, h => by
    unfold find at h
    split at h
    · cases h
    · next hkey =>
      simpa [Ne.symm hkey] using find_eq_none h

/-! ## Soundness -/

/-- Every entry holds the value of {lit}`f` at its key. -/
def Sound (f : κ → Option β) (cache : List (κ × β)) : Prop :=
  ∀ entry ∈ cache, f entry.1 = some entry.2

variable {f : κ → Option β} {cache : List (κ × β)}

omit [DecidableEq κ] in
theorem sound_nil : Sound f ([] : List (κ × β)) := by
  simp [Sound]

theorem Sound.find (hsound : Sound f cache) {key : κ} {value : β}
    (h : find key cache = some value) : f key = some value :=
  hsound _ (mem_of_find h)

omit [DecidableEq κ] in
theorem Sound.sublist {cache' : List (κ × β)} (hsound : Sound f cache)
    (hsub : cache'.Sublist cache) : Sound f cache' :=
  fun entry hmem => hsound entry (hsub.subset hmem)

theorem Sound.erase (hsound : Sound f cache) (key : κ) : Sound f (erase cache key) :=
  hsound.sublist List.filter_sublist

/-- Touching an entry with the value the function gives keeps the cache sound. -/
theorem Sound.touch (hsound : Sound f cache) {key : κ} {value : β}
    (hvalue : f key = some value) : Sound f (touch cache key value) := by
  intro entry hmem
  rcases List.mem_append.mp hmem with hmem | hmem
  · exact hsound.erase key entry hmem
  · rw [List.mem_singleton.mp hmem]
    exact hvalue

omit [DecidableEq κ] in
/-- Inserting an entry with the value the function gives keeps the cache sound. -/
theorem Sound.insert (hsound : Sound f cache) (capacity : Nat) {key : κ} {value : β}
    (hvalue : f key = some value) : Sound f (insert capacity cache key value) := by
  intro entry hmem
  rcases List.mem_append.mp hmem with hmem | hmem
  · split at hmem
    · exact hsound entry (List.mem_of_mem_tail hmem)
    · exact hsound entry hmem
  · rw [List.mem_singleton.mp hmem]
    exact hvalue

omit [DecidableEq κ] in
/-- A sound cache stays sound for a new function that agrees with the old one
on its keys. -/
theorem Sound.congr {f' : κ → Option β} (hsound : Sound f cache)
    (hagree : ∀ entry ∈ cache, f' entry.1 = f entry.1) : Sound f' cache :=
  fun entry hmem => (hagree entry hmem).trans (hsound entry hmem)

/-! ## Distinct keys within capacity -/

/-- The invariant of the cache's shape: each key once, as in a map, and no
more entries than the capacity. -/
structure WellFormed (capacity : Nat) (cache : List (κ × β)) : Prop where
  nodup : (cache.map Prod.fst).Nodup
  length_le : cache.length ≤ capacity

variable {capacity : Nat}

omit [DecidableEq κ] in
theorem wellFormed_nil : WellFormed capacity ([] : List (κ × β)) :=
  ⟨List.nodup_nil, Nat.zero_le _⟩

theorem WellFormed.erase (hwf : WellFormed capacity cache) (key : κ) :
    WellFormed capacity (erase cache key) where
  nodup := (List.filter_sublist.map Prod.fst).nodup hwf.nodup
  length_le := Nat.le_trans (List.length_filter_le _ _) hwf.length_le

/-- A hit keeps the shape: the entry it moves was there. -/
theorem WellFormed.touch (hwf : WellFormed capacity cache) {key : κ} {value value' : β}
    (hhit : find key cache = some value') : WellFormed capacity (touch cache key value) where
  nodup := by
    have hfresh : key ∉ (Lru.erase cache key).map Prod.fst := by simp [Lru.erase]
    rw [Lru.touch, List.map_append, List.map_singleton, ← List.concat_eq_append]
    exact (hwf.erase key).nodup.concat hfresh
  length_le := by
    have hshorter : (Lru.erase cache key).length < cache.length :=
      List.length_filter_lt_length_iff_exists.mpr ⟨_, mem_of_find hhit, by simp⟩
    simp only [Lru.touch, List.length_append, List.length_singleton]
    exact Nat.succ_le_of_lt (Nat.lt_of_lt_of_le hshorter hwf.length_le)

/-- Inserting a missing key keeps the shape of a cache of positive capacity. -/
theorem WellFormed.insert (hwf : WellFormed capacity cache) (hcapacity : 0 < capacity)
    {key : κ} (hmiss : find key cache = none) (value : β) :
    WellFormed capacity (insert capacity cache key value) where
  nodup := by
    have hfresh := find_eq_none hmiss
    unfold Lru.insert
    rw [List.map_append, List.map_singleton, ← List.concat_eq_append]
    split
    · -- a full cache first drops its least recent entry
      rw [List.map_tail]
      exact (hwf.nodup.sublist (List.tail_sublist _)).concat
        fun hmem => hfresh (List.mem_of_mem_tail hmem)
    · exact hwf.nodup.concat hfresh
  length_le := by
    have hle := hwf.length_le
    unfold Lru.insert
    split <;> simp <;> omega

end Lru
