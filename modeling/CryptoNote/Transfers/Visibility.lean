import CryptoNote.Transfers.Detach
import CryptoNote.Lib.Simulation

/-!
# The visibility invariant of the transfers container

Among the key outputs of one key image, the container shows one at most: the
spent one if there is one, else the earliest available one, else the
unconfirmed one if it is alone.  {lit}`updateTransfersVisibility` recomputes
this for one image, and every operation calls it for each image whose
transfers it moves.

The invariant is stated per image, over the image's transfers in each
container ({lit}`ImageView`).  The proof has three parts: the update of an image
leaves the other images' transfers as they were, and establishes the invariant
for its own image when that image has at most one spent transfer; a change of
the containers at one transfer changes the transfers of that transfer's image
only; and every operation changes the containers one transfer at a time and
updates each key image it touched before it returns or throws.  The middle of
such a step is described by {lit}`ConsistentBut`, the invariant for every image
but the touched one; {lit}`KeyImagesConsistent.touch` takes a step from the
invariant through that middle back to the invariant, and the operations are
assembled from it with the rules of {lit}`StateExcept.Preserves`.

Main results:

- Theorem {lit}`consistent_updateTransfersVisibility`: the update repairs the
  image it is called for.
- Theorem {lit}`keyImagesConsistent_apply`: every call of the container's API,
  returning or throwing, keeps the invariant.
- Theorem {lit}`transfersVisibility_of_reachable`: the invariant holds in every
  container reachable from an empty one, and the outputs the balance and
  {lit}`getOutputs` read show each key image at most once.
-/

namespace CryptoNote
namespace Transfers

open StateExcept

/-! ## The transfers of one key image -/

/-- Whether a transfer is a key output of the image {lit}`k`: the selection of
{lit}`updateTransfersVisibility`. -/
def ofImage (k : KeyImage) (t : TransactionOutputInformationEx) : Bool :=
  t.descriptor = .key k

theorem ofImage_iff {k : KeyImage} {t : TransactionOutputInformationEx} :
    ofImage k t = true ↔ t.type = .key ∧ t.keyImage = k := by
  unfold ofImage TransactionOutputInformationEx.descriptor
  split <;> simp_all

@[simp] theorem ofImage_with_visible (k : KeyImage) (t : TransactionOutputInformationEx)
    (visible : Bool) : ofImage k { t with visible } = ofImage k t := rfl

theorem ofImage_eq_decide (k : KeyImage) (t : TransactionOutputInformationEx) :
    ofImage k t = decide (t.type = .key ∧ t.keyImage = k) := by
  rw [Bool.eq_iff_iff, ofImage_iff, decide_eq_true_iff]

/-- A record written out field by field is of an image by its type and key
image. -/
theorem ofImage_mk (k : KeyImage) (type : OutputType) (amount : UInt64)
    (globalOutputIndex outputInTransaction : UInt32) (transactionHash : Hash)
    (keyImage : KeyImage) (unlockTime : UInt64) (blockHeight transactionIndex : UInt32)
    (visible : Bool) (transactionPublicKey outputKey : PublicKey) (requiredSignatures : UInt32) :
    ofImage k ⟨type, amount, globalOutputIndex, outputInTransaction, transactionHash, keyImage,
      unlockTime, blockHeight, transactionIndex, visible, transactionPublicKey, outputKey,
      requiredSignatures⟩ =
      decide (type = .key ∧ keyImage = k) :=
  ofImage_eq_decide k _

/-- A transfer is of one image at most. -/
theorem ofImage_eq_false_of_ne {k k' : KeyImage} (hne : k' ≠ k)
    {t : TransactionOutputInformationEx} (h : ofImage k t = true) : ofImage k' t = false := by
  rw [ofImage_iff] at h
  rw [Bool.eq_false_iff, ne_eq, ofImage_iff]
  exact fun h' => hne (h'.2.symm.trans h.2)

/-- A transfer that is not a key output is of no image. -/
theorem ofImage_eq_false_of_type {k : KeyImage} {t : TransactionOutputInformationEx}
    (h : t.type ≠ .key) : ofImage k t = false := by
  rw [Bool.eq_false_iff, ne_eq, ofImage_iff]
  exact fun h' => h h'.1

/-- The key transfers of one image in each container. -/
structure ImageView where
  unconfirmed : List TransactionOutputInformationEx
  available : List TransactionOutputInformationEx
  spent : List SpentTransactionOutput

/-- The transfers of the image {lit}`k` in each container of {lit}`c`. -/
def TransfersContainer.imageView (c : TransfersContainer) (k : KeyImage) : ImageView where
  unconfirmed := c.unconfirmedTransfers.filter (ofImage k)
  available := c.availableTransfers.filter (ofImage k)
  spent := c.spentTransfers.filter fun s => ofImage k s.output

/-- The visibility invariant of one key image: one spent transfer at most; a
spent one is the only visible one; else, with available ones, exactly one of
them is visible, one that no other is earlier than; else the unconfirmed ones
are visible when there is exactly one. -/
structure ImageView.Consistent (v : ImageView) : Prop where
  spent_le_one : v.spent.length ≤ 1
  of_spent : v.spent ≠ [] →
    (∀ s ∈ v.spent, s.output.visible = true) ∧ (∀ t ∈ v.available, t.visible = false) ∧
      ∀ t ∈ v.unconfirmed, t.visible = false
  of_available : v.spent = [] → v.available ≠ [] →
    (∀ t ∈ v.unconfirmed, t.visible = false) ∧
      (v.available.filter (·.visible)).length = 1 ∧
      ∀ t ∈ v.available, t.visible = true → ∀ u ∈ v.available, earlier u t = false
  of_unconfirmed : v.spent = [] → v.available = [] →
    ∀ t ∈ v.unconfirmed, t.visible = decide (v.unconfirmed.length = 1)

/-- The invariant for every key image. -/
def KeyImagesConsistent (c : TransfersContainer) : Prop :=
  ∀ k, (c.imageView k).Consistent

/-- The state inside a step that has changed the transfers of the image
{lit}`k` and not yet updated its visibility: the invariant for every other image,
and one spent transfer of {lit}`k` at most. -/
structure ConsistentBut (k : KeyImage) (c : TransfersContainer) : Prop where
  others : ∀ k', k' ≠ k → (c.imageView k').Consistent
  spent_le_one : (c.imageView k).spent.length ≤ 1

theorem KeyImagesConsistent.but {c : TransfersContainer} (hc : KeyImagesConsistent c)
    (k : KeyImage) : ConsistentBut k c :=
  ⟨fun k' _ => hc k', (hc k).spent_le_one⟩

/-! ## Ranks -/

theorem earlier_self (t : TransactionOutputInformationEx) : earlier t t = false := by
  simp [earlier]

/-- {lit}`earlier` only reads the rank. -/
@[simp] theorem earlier_with_visible_left (u t : TransactionOutputInformationEx) (visible : Bool) :
    earlier { u with visible } t = earlier u t := rfl

@[simp] theorem earlier_with_visible_right (u t : TransactionOutputInformationEx)
    (visible : Bool) : earlier u { t with visible } = earlier u t := rfl

/-- The order of ranks is a strict order: never both ways. -/
theorem earlier_asymm {a b : TransactionOutputInformationEx} (hab : earlier a b = true) :
    earlier b a = false := by
  simp only [earlier, Bool.or_eq_true, Bool.and_eq_true, decide_eq_true_eq, beq_iff_eq,
    Bool.or_eq_false_iff, Bool.and_eq_false_iff, decide_eq_false_iff_not, beq_eq_false_iff_ne,
    ne_eq, UInt32.lt_iff_toNat_lt, ← UInt32.toNat_inj] at hab ⊢
  omega

/-- Below one transfer and not above another, so below the other. -/
theorem earlier_of_earlier_of_not {u a b : TransactionOutputInformationEx}
    (hua : earlier u a = true) (hba : earlier b a = false) : earlier u b = true := by
  simp only [earlier, Bool.or_eq_true, Bool.and_eq_true, decide_eq_true_eq, beq_iff_eq,
    Bool.or_eq_false_iff, Bool.and_eq_false_iff, decide_eq_false_iff_not, beq_eq_false_iff_ne,
    ne_eq, UInt32.lt_iff_toNat_lt, ← UInt32.toNat_inj] at hua hba ⊢
  omega

/-- Only the empty list has no earliest transfer. -/
theorem earliest_eq_none {l : List TransactionOutputInformationEx} :
    earliest l = none ↔ l = [] := by
  cases l with
  | nil => simp [earliest]
  | cons a rest =>
    cases hrest : earliest rest with
    | none => simp [earliest, hrest]
    | some b => by_cases hba : earlier b a <;> simp [earliest, hrest, hba]

/-- {lit}`earliest` finds a transfer of the list that no transfer of the list is
earlier than. -/
theorem earliest_spec :
    ∀ {l : List TransactionOutputInformationEx} {m : TransactionOutputInformationEx},
      earliest l = some m → m ∈ l ∧ ∀ u ∈ l, earlier u m = false
  | [], _, h => by simp [earliest] at h
  | a :: rest, m, h => by
    unfold earliest at h
    split at h
    · rename_i hrest
      cases h
      rw [earliest_eq_none] at hrest
      subst hrest
      simp [earlier_self]
    · rename_i b hrest
      obtain ⟨hb, hmin⟩ := earliest_spec hrest
      split at h
      · rename_i hba
        cases h
        refine ⟨List.mem_cons_of_mem a hb, fun u hu => ?_⟩
        rcases List.mem_cons.mp hu with rfl | hu
        · exact earlier_asymm hba
        · exact hmin u hu
      · rename_i hba
        cases h
        refine ⟨List.mem_cons_self, fun u hu => ?_⟩
        rcases List.mem_cons.mp hu with rfl | hu
        · exact earlier_self u
        · rw [Bool.eq_false_iff]
          intro hua
          have hub := earlier_of_earlier_of_not hua (Bool.eq_false_iff.mpr hba)
          rw [hmin u hu] at hub
          exact Bool.false_ne_true hub

/-! ## Rewriting flags -/

section Flags

variable {α : Type}

/-- A map that changes only elements the filter drops, and keeps them dropped,
does not change what the filter keeps. -/
theorem filter_map_of_fixed {p : α → Bool} {f : α → α} :
    ∀ {l : List α}, (∀ a ∈ l, p (f a) = p a ∧ (p a = true → f a = a)) →
      (l.map f).filter p = l.filter p
  | [], _ => rfl
  | a :: l, h => by
    obtain ⟨hpf, hfix⟩ := h a List.mem_cons_self
    have hrest := filter_map_of_fixed fun b hb => h b (List.mem_cons_of_mem a hb)
    by_cases hpa : p a = true
    · simp [hfix hpa, hpa, hrest]
    · simp [hpf, hpa, hrest]

end Flags

/-- Hiding or showing the transfers of one image leaves the transfers of every
other image as they were. -/
theorem filter_setVisible_of_ne {k k' : KeyImage} (hne : k' ≠ k) (visible : Bool)
    (l : List TransactionOutputInformationEx) :
    (setVisible (ofImage k) visible l).filter (ofImage k') = l.filter (ofImage k') := by
  apply filter_map_of_fixed
  intro t _
  by_cases ht : ofImage k t = true
  · simp [ht, ofImage_eq_false_of_ne hne ht]
  · simp [ht]

/-- Hiding or showing the transfers of one image rewrites the flag of each of
them. -/
theorem filter_setVisible_self (k : KeyImage) (visible : Bool)
    (l : List TransactionOutputInformationEx) :
    (setVisible (ofImage k) visible l).filter (ofImage k) =
      (l.filter (ofImage k)).map fun t => { t with visible } := by
  unfold setVisible
  rw [List.filter_map]
  have hsame : (ofImage k ∘ fun t => if ofImage k t = true then { t with visible } else t) =
      ofImage k := by
    funext t
    by_cases ht : ofImage k t = true <;> simp [ht]
  rw [hsame]
  apply List.map_congr_left
  intro t ht
  rw [if_pos (List.of_mem_filter ht)]

/-- Showing one transfer leaves a filter that drops it as it was. -/
theorem filter_showFirst_of_false {p : TransactionOutputInformationEx → Bool}
    (hp : ∀ t : TransactionOutputInformationEx, p { t with visible := true } = p t)
    {m : TransactionOutputInformationEx} (hm : p m = false) :
    ∀ l, (showFirst m l).filter p = l.filter p
  | [] => rfl
  | t :: rest => by
    unfold showFirst
    split
    · rename_i ht
      subst ht
      simp [hp, hm]
    · simp [List.filter_cons, filter_showFirst_of_false hp hm rest]

/-- Showing one transfer commutes with a filter that keeps it. -/
theorem filter_showFirst_of_true {p : TransactionOutputInformationEx → Bool}
    (hp : ∀ t : TransactionOutputInformationEx, p { t with visible := true } = p t)
    {m : TransactionOutputInformationEx} (hm : p m = true) :
    ∀ l, (showFirst m l).filter p = showFirst m (l.filter p)
  | [] => rfl
  | t :: rest => by
    by_cases ht : t = m
    · subst ht
      simp [showFirst, hp, hm]
    · by_cases hpt : p t = true <;>
        simp [hpt, showFirst, ht, filter_showFirst_of_true hp hm rest]

/-- What {lit}`showFirst` holds: the transfers it was given, and the shown one. -/
theorem mem_showFirst {m u : TransactionOutputInformationEx} :
    ∀ {l}, u ∈ showFirst m l → u ∈ l ∨ u = { m with visible := true }
  | [], h => by simp [showFirst] at h
  | t :: rest, h => by
    unfold showFirst at h
    split at h
    · rcases List.mem_cons.mp h with rfl | hu
      · right
        rename_i ht
        rw [ht]
      · exact Or.inl (List.mem_cons_of_mem t hu)
    · rcases List.mem_cons.mp h with rfl | hu
      · exact Or.inl List.mem_cons_self
      · exact (mem_showFirst hu).imp_left (List.mem_cons_of_mem t)

/-- Showing a transfer of a list of hidden ones leaves exactly one visible. -/
theorem length_filter_visible_showFirst {m : TransactionOutputInformationEx} :
    ∀ {l : List TransactionOutputInformationEx}, (∀ t ∈ l, t.visible = false) → m ∈ l →
      ((showFirst m l).filter (·.visible)).length = 1
  | [], _, hm => by simp at hm
  | t :: rest, hhidden, hm => by
    have hrest : ∀ u ∈ rest, u.visible = false := fun u hu =>
      hhidden u (List.mem_cons_of_mem t hu)
    unfold showFirst
    split
    · simpa using hrest
    · rename_i ht
      have hmrest : m ∈ rest := by
        rcases List.mem_cons.mp hm with rfl | hm
        · exact absurd rfl ht
        · exact hm
      simp [hhidden t List.mem_cons_self, length_filter_visible_showFirst hrest hmrest]

@[simp] theorem length_imageView_available_showFirst (m : TransactionOutputInformationEx)
    (l : List TransactionOutputInformationEx) : (showFirst m l).length = l.length :=
  length_showFirst m l

/-! ## The update of one image -/

/-- {lit}`updateTransfersVisibility` in the terms of the image's transfers. -/
theorem updateTransfersVisibility_eq (k : KeyImage) (c : TransfersContainer) :
    updateTransfersVisibility k c =
      if 0 < (c.imageView k).spent.length then
        { c with
          unconfirmedTransfers := setVisible (ofImage k) false c.unconfirmedTransfers
          availableTransfers := setVisible (ofImage k) false c.availableTransfers
          spentTransfers := c.spentTransfers.map fun s =>
            if ofImage k s.output then { s with output.visible := true } else s }
      else if 0 < (c.imageView k).available.length then
        { c with
          unconfirmedTransfers := setVisible (ofImage k) false c.unconfirmedTransfers
          availableTransfers :=
            match earliest ((setVisible (ofImage k) false c.availableTransfers).filter
                (ofImage k)) with
            | some first => showFirst first (setVisible (ofImage k) false c.availableTransfers)
            | none => setVisible (ofImage k) false c.availableTransfers }
      else
        { c with
          unconfirmedTransfers := setVisible (ofImage k)
            ((c.imageView k).unconfirmed.length == 1) c.unconfirmedTransfers } :=
  rfl

/-- The update of one image leaves the transfers of every other image as they
were. -/
theorem imageView_updateTransfersVisibility_of_ne {k k' : KeyImage} (hne : k' ≠ k)
    (c : TransfersContainer) :
    (updateTransfersVisibility k c).imageView k' = c.imageView k' := by
  have hspent : (c.spentTransfers.map fun s =>
      if ofImage k s.output then { s with output.visible := true } else s).filter
        (fun s => ofImage k' s.output) = c.spentTransfers.filter fun s => ofImage k' s.output := by
    apply filter_map_of_fixed
    intro s _
    by_cases hs : ofImage k s.output = true
    · simp [hs, ofImage_eq_false_of_ne hne hs]
    · simp [hs]
  rw [updateTransfersVisibility_eq]
  split_ifs
  · simp only [TransfersContainer.imageView, filter_setVisible_of_ne hne, hspent]
  · split
    · rename_i first hfirst
      have hk : ofImage k first = true :=
        List.of_mem_filter (earliest_spec hfirst).1
      simp only [TransfersContainer.imageView, filter_setVisible_of_ne hne,
        filter_showFirst_of_false (fun t => ofImage_with_visible k' t true)
          (ofImage_eq_false_of_ne hne hk)]
    · simp only [TransfersContainer.imageView, filter_setVisible_of_ne hne]
  · simp only [TransfersContainer.imageView, filter_setVisible_of_ne hne]

/-- Every transfer of a list whose flags were all set to one value has that
value. -/
theorem visible_of_mem_map_with_visible {visible : Bool} {t : TransactionOutputInformationEx}
    {l : List TransactionOutputInformationEx} (ht : t ∈ l.map fun t => { t with visible }) :
    t.visible = visible := by
  obtain ⟨_, _, rfl⟩ := List.mem_map.mp ht
  rfl

/-- The spent transfers of the image, after the update has shown them. -/
theorem filter_map_show_spent (k : KeyImage) (l : List SpentTransactionOutput) :
    (l.map fun s => if ofImage k s.output then { s with output.visible := true } else s).filter
        (fun s => ofImage k s.output) =
      (l.filter fun s => ofImage k s.output).map fun s => { s with output.visible := true } := by
  rw [List.filter_map]
  have hsame : ((fun s : SpentTransactionOutput => ofImage k s.output) ∘
      fun s => if ofImage k s.output then { s with output.visible := true } else s) =
        fun s => ofImage k s.output := by
    funext s
    by_cases hs : ofImage k s.output = true <;> simp [hs]
  rw [hsame]
  apply List.map_congr_left
  intro s hs
  rw [if_pos (List.of_mem_filter hs)]

section Update

variable {k : KeyImage} {c : TransfersContainer}

/-- With a spent transfer of the image, the update hides its other transfers and
shows the spent one. -/
theorem consistent_update_of_spent (hle : (c.imageView k).spent.length ≤ 1)
    (hspent : 0 < (c.imageView k).spent.length) :
    ((updateTransfersVisibility k c).imageView k).Consistent := by
  rw [updateTransfersVisibility_eq, if_pos hspent]
  simp only [TransfersContainer.imageView] at hle hspent ⊢
  rw [filter_setVisible_self, filter_setVisible_self, filter_map_show_spent]
  have hne : (c.spentTransfers.filter fun s => ofImage k s.output).map
      (fun s => { s with output.visible := true }) ≠ [] := by
    rw [Ne, List.map_eq_nil_iff, ← List.length_eq_zero_iff]
    omega
  constructor
  · rwa [List.length_map]
  · intro _
    refine ⟨fun s hs => ?_, fun t ht => visible_of_mem_map_with_visible ht,
      fun t ht => visible_of_mem_map_with_visible ht⟩
    obtain ⟨_, _, rfl⟩ := List.mem_map.mp hs
    rfl
  · exact fun hnil => absurd hnil hne
  · exact fun hnil => absurd hnil hne

/-- With no spent transfer of the image but available ones, the update hides the
unconfirmed ones and shows the earliest available one only. -/
theorem consistent_update_of_available (hspent : ¬0 < (c.imageView k).spent.length)
    (havailable : 0 < (c.imageView k).available.length) :
    ((updateTransfersVisibility k c).imageView k).Consistent := by
  rw [updateTransfersVisibility_eq, if_neg hspent, if_pos havailable]
  simp only [TransfersContainer.imageView] at hspent havailable ⊢
  rw [filter_setVisible_self k false c.availableTransfers]
  set hidden := (c.availableTransfers.filter (ofImage k)).map fun t => { t with visible := false }
    with hhidden
  have hhidden_ne : hidden ≠ [] := by
    rw [hhidden, Ne, List.map_eq_nil_iff, ← List.length_eq_zero_iff]
    omega
  obtain ⟨m, hm⟩ := Option.ne_none_iff_exists'.mp (mt earliest_eq_none.mp hhidden_ne)
  obtain ⟨hmem, hmin⟩ := earliest_spec hm
  have hk : ofImage k m = true := by
    obtain ⟨t, ht, rfl⟩ := List.mem_map.mp hmem
    rw [ofImage_with_visible]
    exact List.of_mem_filter ht
  have hinvisible : ∀ t ∈ hidden, t.visible = false := fun t ht =>
    visible_of_mem_map_with_visible ht
  simp only [hm]
  rw [filter_showFirst_of_true (fun t => ofImage_with_visible k t true) hk,
    filter_setVisible_self k false c.availableTransfers, filter_setVisible_self]
  have hspent_nil : c.spentTransfers.filter (fun s => ofImage k s.output) = [] :=
    List.length_eq_zero_iff.mp (by omega)
  constructor
  · rw [hspent_nil]
    simp
  · exact fun hne => absurd hspent_nil hne
  · intro _ _
    refine ⟨fun t ht => visible_of_mem_map_with_visible ht,
      length_filter_visible_showFirst hinvisible hmem, fun t ht htv u hu => ?_⟩
    have hshown : t = { m with visible := true } := by
      rcases mem_showFirst ht with ht | ht
      · rw [hinvisible t ht] at htv
        exact absurd htv Bool.false_ne_true
      · exact ht
    rw [hshown, earlier_with_visible_right]
    rcases mem_showFirst hu with hu | rfl
    · exact hmin u hu
    · rw [earlier_with_visible_left]
      exact earlier_self m
  · intro _ hnil
    have hlen := congrArg List.length hnil
    rw [length_showFirst] at hlen
    exact absurd (List.length_eq_zero_iff.mp hlen) hhidden_ne

/-- With neither spent nor available transfers of the image, the update shows
its unconfirmed transfers when there is exactly one. -/
theorem consistent_update_of_unconfirmed (hspent : ¬0 < (c.imageView k).spent.length)
    (havailable : ¬0 < (c.imageView k).available.length) :
    ((updateTransfersVisibility k c).imageView k).Consistent := by
  rw [updateTransfersVisibility_eq, if_neg hspent, if_neg havailable]
  simp only [TransfersContainer.imageView] at hspent havailable ⊢
  rw [filter_setVisible_self]
  have hspent_nil : c.spentTransfers.filter (fun s => ofImage k s.output) = [] :=
    List.length_eq_zero_iff.mp (by omega)
  have havailable_nil : c.availableTransfers.filter (ofImage k) = [] :=
    List.length_eq_zero_iff.mp (by omega)
  constructor
  · rw [hspent_nil]
    simp
  · exact fun hne => absurd hspent_nil hne
  · exact fun _ hne => absurd havailable_nil hne
  · intro _ _ t ht
    rw [visible_of_mem_map_with_visible ht, List.length_map]
    exact Bool.beq_eq_decide_eq _ 1

/-- The update repairs the image it is called for, when that image has one
spent transfer at most. -/
theorem consistent_updateTransfersVisibility (hle : (c.imageView k).spent.length ≤ 1) :
    ((updateTransfersVisibility k c).imageView k).Consistent := by
  by_cases hspent : 0 < (c.imageView k).spent.length
  · exact consistent_update_of_spent hle hspent
  · by_cases havailable : 0 < (c.imageView k).available.length
    · exact consistent_update_of_available hspent havailable
    · exact consistent_update_of_unconfirmed hspent havailable

/-- From the middle of a step on the image {lit}`k`, its update restores the
invariant for every image. -/
theorem ConsistentBut.update (h : ConsistentBut k c) :
    KeyImagesConsistent (updateTransfersVisibility k c) := by
  intro k'
  by_cases hk : k' = k
  · subst hk
    exact consistent_updateTransfersVisibility h.spent_le_one
  · rw [imageView_updateTransfersVisibility_of_ne hk]
    exact h.others k' hk

end Update

/-! ## Changes at one transfer -/

/-- Erasing an element that the filter drops leaves the filter as it was. -/
theorem filter_erase_of_false {α : Type} [DecidableEq α] {p : α → Bool} {x : α}
    (h : p x = false) (l : List α) : (l.erase x).filter p = l.filter p := by
  rw [← List.erase_filter]
  apply List.erase_of_not_mem
  intro hx
  rw [List.of_mem_filter hx] at h
  exact Bool.noConfusion h

@[simp] theorem imageView_with_transactions (c : TransfersContainer)
    (transactions : List TransactionInformation) (k : KeyImage) :
    ({ c with transactions }).imageView k = c.imageView k := rfl

@[simp] theorem imageView_with_currentHeight (c : TransfersContainer) (currentHeight : UInt32)
    (k : KeyImage) : ({ c with currentHeight }).imageView k = c.imageView k := rfl

/-- A change that moves no key output keeps the invariant. -/
theorem KeyImagesConsistent.of_views {c c' : TransfersContainer} (hc : KeyImagesConsistent c)
    (hviews : ∀ k, c'.imageView k = c.imageView k) : KeyImagesConsistent c' := by
  intro k
  rw [hviews k]
  exact hc k

/-- The shape of every step that moves a transfer: the change moves transfers of
the transfer's own image only and leaves that image one spent transfer at most,
and the image of a key output is updated after it. -/
theorem KeyImagesConsistent.touch {c : TransfersContainer} (hc : KeyImagesConsistent c)
    {t : TransactionOutputInformationEx} {change : TransfersContainer → TransfersContainer}
    (hviews : ∀ k, ofImage k t = false → (change c).imageView k = c.imageView k)
    (hspent : t.type = .key → ((change c).imageView t.keyImage).spent.length ≤ 1) :
    KeyImagesConsistent (touchTransfer t change c) := by
  unfold touchTransfer
  split
  · rename_i hkey
    refine ConsistentBut.update ⟨fun k' hk' => ?_, hspent hkey⟩
    rw [hviews k' (ofImage_eq_false_of_ne hk' (ofImage_iff.mpr ⟨hkey, rfl⟩))]
    exact hc k'
  · rename_i hkey
    exact hc.of_views fun k => hviews k (ofImage_eq_false_of_type hkey)

/-! ## Adding a transaction -/

/-- {lit}`addTransactionOutput` throws before it changes anything, or files the
transfer and updates its image. -/
theorem run_addTransactionOutput (block : TransactionBlockInfo) (tx : TransactionReader)
    (transfer : TransactionOutputInformationIn) (c : TransfersContainer) :
    run (addTransactionOutput block tx transfer) c =
      if ((block.height == unconfirmedTransactionHeight) !=
          (transfer.globalOutputIndex == unconfirmedTransactionGlobalOutputIndex)) = true then
        (.error "Bad transfer's globalOutputIndex", c)
      else if (transfer.globalOutputIndex == unconfirmedTransactionGlobalOutputIndex) = true then
        (.ok (), touchTransfer (transferInformation block tx transfer)
          (fun c => { c with unconfirmedTransfers :=
            c.unconfirmedTransfers ++ [transferInformation block tx transfer] }) c)
      else if ((transferInformation block tx transfer).type = .multisignature &&
          (c.availableTransfers.any
              (·.descriptor = (transferInformation block tx transfer).descriptor) ||
            c.spentTransfers.any
              (·.output.descriptor =
                (transferInformation block tx transfer).descriptor))) = true then
        (.error "Transfer already exists", c)
      else
        (.ok (), touchTransfer (transferInformation block tx transfer)
          (fun c => { c with availableTransfers :=
            c.availableTransfers ++ [transferInformation block tx transfer] }) c) := by
  unfold addTransactionOutput touchTransfer
  split_ifs <;> simp_all [run_bind]

/-- Filing an output keeps the key images consistent. -/
theorem preserves_addTransactionOutput (block : TransactionBlockInfo) (tx : TransactionReader)
    (transfer : TransactionOutputInformationIn) :
    Preserves KeyImagesConsistent (addTransactionOutput block tx transfer) := by
  intro c hc
  rw [run_addTransactionOutput]
  split_ifs
  · exact hc
  · refine hc.touch (fun k hk => ?_) fun _ => ?_
    · simp [TransfersContainer.imageView, List.filter_append, hk]
    · exact (hc _).spent_le_one
  · exact hc
  · refine hc.touch (fun k hk => ?_) fun _ => ?_
    · simp [TransfersContainer.imageView, List.filter_append, hk]
    · exact (hc _).spent_le_one

theorem preserves_addTransactionOutputs (block : TransactionBlockInfo) (tx : TransactionReader) :
    ∀ transfers, Preserves KeyImagesConsistent (addTransactionOutputs block tx transfers)
  | [] => Preserves.pure _
  | transfer :: rest =>
    Preserves.bind (preserves_addTransactionOutput block tx transfer) fun _ =>
      Preserves.bind (preserves_addTransactionOutputs block tx rest) fun _ => Preserves.pure _

/-- A key input moves the earliest available transfer of its image and amount to
the spent ones, when none of the image is spent yet, and updates the image; a
multisignature input moves a multisignature transfer, which is of no image. -/
theorem preserves_addTransactionInput (block : TransactionBlockInfo) (tx : TransactionReader)
    (i : Nat) : ∀ input, Preserves KeyImagesConsistent (addTransactionInput block tx i input)
  | .key input => by
    intro c hc
    simp only [addTransactionInput, run_bind, run_get, run_ite, run_throw, run_pure]
    split_ifs with hspent
    · exact hc
    · exact hc
    · exact hc
    · split
      · exact hc
      · rename_i spending hfind
        simp only [run_bind, run_modify, run_pure]
        have hmem := List.mem_of_find?_eq_some hfind
        rw [List.mem_insertionSort] at hmem
        have hk : ofImage input.keyImage spending = true := List.of_mem_filter hmem
        have hnone : c.spentTransfers.filter (fun s => ofImage input.keyImage s.output) = [] := by
          rw [List.filter_eq_nil_iff]
          intro s hs hsk
          exact hspent (List.any_eq_true.mpr ⟨s, hs, hsk⟩)
        refine ConsistentBut.update ⟨fun k' hk' => ?_, ?_⟩
        · have hk'spending := ofImage_eq_false_of_ne hk' hk
          have hview : ({ copyToSpent block tx i spending c with
              availableTransfers := (copyToSpent block tx i spending c).availableTransfers.erase
                spending }).imageView k' = c.imageView k' := by
            simp [TransfersContainer.imageView, copyToSpent, List.filter_append,
              filter_erase_of_false hk'spending, hk'spending]
          rw [hview]
          exact hc k'
        · simp [TransfersContainer.imageView, copyToSpent, List.filter_append, hk, hnone]
  | .multisignature input => by
    intro c hc
    simp only [addTransactionInput, run_bind, run_get]
    split
    · rename_i available hfind
      simp only [run_bind, run_modify, run_pure]
      have hdesc : available.descriptor = .multisignature input.amount input.outputIndex := by
        simpa using List.find?_some hfind
      have hk : ∀ k, ofImage k available = false := fun k => by simp [ofImage, hdesc]
      refine hc.of_views fun k => ?_
      simp [TransfersContainer.imageView, copyToSpent, List.filter_append,
        filter_erase_of_false (hk k), hk k]
    · exact hc
  | .base _ => Preserves.pure _

/-- Spending the inputs of a transaction keeps the key images consistent. -/
theorem preserves_addTransactionInputs (block : TransactionBlockInfo) (tx : TransactionReader) :
    ∀ i inputs, Preserves KeyImagesConsistent (addTransactionInputs block tx i inputs)
  | _, [] => Preserves.pure _
  | i, input :: rest =>
    Preserves.bind (preserves_addTransactionInput block tx i input) fun _ =>
      Preserves.bind (preserves_addTransactionInputs block tx (i + 1) rest) fun _ =>
        Preserves.pure _

/-- Recording the transaction and moving the height move no transfer. -/
theorem preserves_addTransaction (block : TransactionBlockInfo) (tx : TransactionReader)
    (transfers : List TransactionOutputInformationIn) :
    Preserves KeyImagesConsistent (addTransaction block tx transfers) := by
  have hkeep : ∀ f : TransfersContainer → TransfersContainer,
      (∀ c k, (f c).imageView k = c.imageView k) →
        Preserves KeyImagesConsistent (modify f : ContainerM PUnit) :=
    fun f hf => Preserves.modify fun c hc => hc.of_views (hf c)
  unfold addTransaction
  dsimp only
  refine Preserves.get_bind_preserves fun c _ => ?_
  -- the two refusals throw before any change
  split
  · exact Preserves.throw_bind _ _
  · split
    · exact Preserves.throw_bind _ _
    · refine Preserves.bind (preserves_addTransactionOutputs block tx transfers) fun _ => ?_
      refine Preserves.bind (preserves_addTransactionInputs block tx 0 tx.inputs) fun _ => ?_
      split
      · refine Preserves.bind (hkeep _ fun _ _ => rfl) fun _ => ?_
        split
        · exact Preserves.bind (hkeep _ fun _ _ => rfl) fun _ => Preserves.pure _
        · exact Preserves.pure _
      · split
        · exact Preserves.bind (hkeep _ fun _ _ => rfl) fun _ => Preserves.pure _
        · exact Preserves.pure _

/-! ## Confirming a transaction -/

/-- Filing or moving a transfer with {lit}`set` and then updating its image if
it is a key output, as the confirmation loop writes it, followed by a step that
keeps the invariant: the change ignores the state it starts from. -/
theorem preserves_set_touch {P : TransfersContainer → Prop} {β : Type}
    (c : TransfersContainer) {c' : TransfersContainer} {t : TransactionOutputInformationEx}
    (htouch : P (touchTransfer t (fun _ => c') c)) {rest : ContainerM β}
    (hrest : Preserves P rest) :
    Preserves P (set c' >>= fun _ =>
      if t.type = .key then modify (updateTransfersVisibility t.keyImage) >>= fun _ => rest
      else rest) := by
  intro s _
  rw [run_bind_of_ok (run_set c' s)]
  split
  · rename_i hkey
    rw [run_bind_of_ok (run_modify _ c')]
    apply hrest
    simpa [Transfers.touchTransfer, hkey] using htouch
  · rename_i hkey
    apply hrest
    simpa [Transfers.touchTransfer, hkey] using htouch

/-- Confirming the transfers of a transaction keeps the key images consistent. -/
theorem preserves_confirmTransfers (block : TransactionBlockInfo) (transactionHash : Hash)
    (globalIndices : List UInt32) :
    ∀ fuel,
      Preserves KeyImagesConsistent (confirmTransfers block transactionHash globalIndices fuel)
  | 0 => Preserves.pure _
  | fuel + 1 => by
    unfold confirmTransfers
    dsimp only
    refine Preserves.get_bind_preserves fun c hc => ?_
    split
    · exact Preserves.pure _
    · rename_i transfer hfind
      split
      · exact Preserves.throw_bind _ _
      · split
        · exact Preserves.throw_bind _ _
        · refine preserves_set_touch c (hc.touch (fun k hk => ?_) (fun _ => ?_))
            (preserves_confirmTransfers block transactionHash globalIndices fuel)
          · simp only [TransfersContainer.imageView, List.filter_append,
              filter_erase_of_false hk, ImageView.mk.injEq, and_true]
            rw [ofImage_eq_decide] at hk
            simp [ofImage_mk, hk]
          · exact (hc _).spent_le_one

/-- Rewriting what spent a transfer, and not the transfer, keeps the invariant of
an image. -/
theorem ImageView.Consistent.map_spent {v : ImageView} (h : v.Consistent)
    (g : SpentTransactionOutput → SpentTransactionOutput) (hg : ∀ s, (g s).output = s.output) :
    ({ v with spent := v.spent.map g } : ImageView).Consistent := by
  obtain ⟨hle, hspent, havailable, hunconfirmed⟩ := h
  have hnil : v.spent.map g = [] ↔ v.spent = [] := List.map_eq_nil_iff
  refine ⟨by rwa [List.length_map], fun hne => ?_, fun hnil' => havailable (hnil.mp hnil'),
    fun hnil' => hunconfirmed (hnil.mp hnil')⟩
  obtain ⟨hvisible, hrest⟩ := hspent (mt hnil.mpr hne)
  refine ⟨fun s hs => ?_, hrest⟩
  obtain ⟨s', hs', rfl⟩ := List.mem_map.mp hs
  rw [hg]
  exact hvisible s' hs'

/-- Giving a spent transfer its spending block leaves its output as it was. -/
theorem output_withSpendingBlock (block : TransactionBlockInfo) (transactionHash : Hash)
    (s : SpentTransactionOutput) :
    (if s.spendingTransactionHash = transactionHash then { s with spendingBlock := block }
      else s).output = s.output := by
  by_cases hs : s.spendingTransactionHash = transactionHash <;> simp [hs]

/-- Marking a transaction confirmed keeps the key images consistent. -/
theorem preserves_markTransactionConfirmed (block : TransactionBlockInfo) (transactionHash : Hash)
    (globalIndices : List UInt32) :
    Preserves KeyImagesConsistent
      (markTransactionConfirmed block transactionHash globalIndices) := by
  let g (s : SpentTransactionOutput) : SpentTransactionOutput :=
    if s.spendingTransactionHash = transactionHash then { s with spendingBlock := block } else s
  have hg : ∀ s, (g s).output = s.output := output_withSpendingBlock block transactionHash
  have hspendingBlock : ∀ c : TransfersContainer, KeyImagesConsistent c →
      KeyImagesConsistent { c with spentTransfers := c.spentTransfers.map g } := by
    intro c hc k
    have hview : ({ c with spentTransfers := c.spentTransfers.map g }).imageView k =
        { c.imageView k with spent := (c.imageView k).spent.map g } := by
      simp only [TransfersContainer.imageView, List.filter_map, Function.comp_def, hg]
    rw [hview]
    exact (hc k).map_spent g hg
  unfold markTransactionConfirmed
  dsimp only
  split
  · exact Preserves.throw_bind _ _
  · refine Preserves.get_bind_preserves fun c hc => ?_
    split
    · exact Preserves.pure _
    · split
      · exact Preserves.pure _
      · refine Preserves.bind (Preserves.set (hc.of_views fun _ => rfl)) fun _ => ?_
        refine Preserves.bind (preserves_confirmTransfers block transactionHash globalIndices _)
          fun _ => ?_
        exact Preserves.bind (Preserves.modify hspendingBlock) fun _ => Preserves.pure _

/-! ## Deleting and detaching -/

/-- Erasing an entry shortens a filtered list by one at most. -/
theorem length_filter_erase_le {α : Type} [DecidableEq α] (p : α → Bool) (x : α)
    (l : List α) : ((l.erase x).filter p).length ≤ (l.filter p).length := by
  rw [← List.erase_filter]
  exact List.length_erase_le

/-- The first pass of {lit}`deleteTransactionTransfers`: a spent transfer goes back
to the available ones. -/
theorem KeyImagesConsistent.restoreSpent {c : TransfersContainer} (hc : KeyImagesConsistent c)
    (s : SpentTransactionOutput) :
    KeyImagesConsistent (touchTransfer s.output (fun c =>
      { c with
        availableTransfers := c.availableTransfers ++ [s.output]
        spentTransfers := c.spentTransfers.erase s }) c) := by
  refine hc.touch (fun k hk => ?_) fun _ => ?_
  · simp only [TransfersContainer.imageView, List.filter_append, List.filter_singleton, hk,
      cond_false, List.append_nil, ImageView.mk.injEq, true_and]
    exact @filter_erase_of_false _ _ (fun s => ofImage k s.output) s hk c.spentTransfers
  · exact le_trans (length_filter_erase_le _ s _) (hc _).spent_le_one

/-- The second pass: an unconfirmed transfer of the transaction is dropped. -/
theorem KeyImagesConsistent.dropUnconfirmed {c : TransfersContainer}
    (hc : KeyImagesConsistent c) (t : TransactionOutputInformationEx) :
    KeyImagesConsistent (touchTransfer t (fun c =>
      { c with unconfirmedTransfers := c.unconfirmedTransfers.erase t }) c) :=
  hc.touch (fun k hk => by simp [TransfersContainer.imageView, filter_erase_of_false hk])
    fun _ => (hc _).spent_le_one

/-- The third pass: an available transfer of the transaction is dropped. -/
theorem KeyImagesConsistent.dropAvailable {c : TransfersContainer}
    (hc : KeyImagesConsistent c) (t : TransactionOutputInformationEx) :
    KeyImagesConsistent (touchTransfer t (fun c =>
      { c with availableTransfers := c.availableTransfers.erase t }) c) :=
  hc.touch (fun k hk => by simp [TransfersContainer.imageView, filter_erase_of_false hk])
    fun _ => (hc _).spent_le_one

/-- Deleting the transfers of a transaction keeps the key images consistent. -/
theorem keyImagesConsistent_deleteTransactionTransfers (transactionHash : Hash)
    {c : TransfersContainer} (hc : KeyImagesConsistent c) :
    KeyImagesConsistent (deleteTransactionTransfers transactionHash c) := by
  unfold deleteTransactionTransfers
  dsimp only
  -- each loop runs one of the three passes
  apply eraseEach_invariant _ fun t _ hc _ => hc.dropAvailable t
  apply eraseEach_invariant _ fun t _ hc _ => hc.dropUnconfirmed t
  exact eraseEach_invariant _ (fun s _ hc _ => hc.restoreSpent s) _ _ hc

theorem keyImagesConsistent_deleteTransaction (txInfo : TransactionInformation)
    {c : TransfersContainer} (hc : KeyImagesConsistent c) :
    KeyImagesConsistent (deleteTransaction txInfo c) :=
  (keyImagesConsistent_deleteTransactionTransfers txInfo.transactionHash hc).of_views
    fun _ => rfl

theorem preserves_deleteUnconfirmedTransaction (transactionHash : Hash) :
    Preserves KeyImagesConsistent (deleteUnconfirmedTransaction transactionHash) :=
  deleteUnconfirmedTransaction_preserves
    (fun txInfo _ hc => keyImagesConsistent_deleteTransaction txInfo hc) transactionHash

theorem preserves_detach (height : UInt32) :
    Preserves KeyImagesConsistent (detach height) :=
  detach_preserves (fun txInfo _ hc => keyImagesConsistent_deleteTransaction txInfo hc)
    (fun _ _ hc => hc.of_views fun _ => rfl) height

theorem preserves_advanceHeight (height : UInt32) :
    Preserves KeyImagesConsistent (advanceHeight height) :=
  advanceHeight_preserves (fun _ _ hc => hc.of_views fun _ => rfl) height

/-! ## Every reachable container -/

theorem keyImagesConsistent_empty : KeyImagesConsistent TransfersContainer.empty := by
  intro k
  constructor <;> simp [TransfersContainer.imageView, TransfersContainer.empty]

/-- Every call of the container's API keeps the invariant, whether it returns or
throws. -/
theorem keyImagesConsistent_apply {c : TransfersContainer} (hc : KeyImagesConsistent c) :
    ∀ op : Operation, KeyImagesConsistent (Operation.apply c op)
  | .addTransaction block tx transfers => preserves_addTransaction block tx transfers c hc
  | .markTransactionConfirmed block transactionHash globalIndices =>
    preserves_markTransactionConfirmed block transactionHash globalIndices c hc
  | .deleteUnconfirmedTransaction transactionHash =>
    preserves_deleteUnconfirmedTransaction transactionHash c hc
  | .detach height => preserves_detach height c hc
  | .advanceHeight height => preserves_advanceHeight height c hc

/-- Of the available and unconfirmed transfers of an image, one at most is
visible. -/
theorem ImageView.Consistent.visible_le_one {v : ImageView} (h : v.Consistent) :
    ((v.available ++ v.unconfirmed).filter (·.visible)).length ≤ 1 := by
  have hhidden : ∀ l : List TransactionOutputInformationEx, (∀ t ∈ l, t.visible = false) →
      l.filter (·.visible) = [] := fun l hl =>
    List.filter_eq_nil_iff.mpr fun t ht => by simp [hl t ht]
  rw [List.filter_append]
  by_cases hspent : v.spent = []
  · by_cases havailable : v.available = []
    · have hunconfirmed := h.of_unconfirmed hspent havailable
      rw [havailable, List.filter_nil, List.nil_append]
      by_cases hone : v.unconfirmed.length = 1
      · exact le_trans (List.length_filter_le _ _) hone.le
      · rw [hhidden _ fun t ht => by simp [hunconfirmed t ht, hone]]
        simp
    · obtain ⟨hunconfirmed, hone, -⟩ := h.of_available hspent havailable
      rw [hhidden _ hunconfirmed, List.append_nil, hone]
  · obtain ⟨-, havailable, hunconfirmed⟩ := h.of_spent hspent
    rw [hhidden _ havailable, hhidden _ hunconfirmed]
    simp

/-- What {lit}`getOutputs` returns, and the balance adds, are visible available
and unconfirmed transfers. -/
theorem getOutputs_sublist (ctx : InclusionContext) (flags : UInt32) (c : TransfersContainer) :
    (getOutputs ctx flags c).Sublist
      ((c.availableTransfers ++ c.unconfirmedTransfers).filter (·.visible)) := by
  unfold getOutputs
  rw [List.filter_append]
  apply List.Sublist.append
  · exact List.monotone_filter_right _ fun t ht => by simp_all
  · split
    · exact List.monotone_filter_right _ fun t ht => by simp_all
    · exact List.nil_sublist _

/-- The visibility invariant holds in every container reachable from an empty
one by calls of its API, returning or throwing; so among the outputs that
{lit}`getOutputs` returns and {lit}`balance` adds up, each key image occurs once at
most, whatever the flags, the clock and the currency. -/
theorem transfersVisibility_of_reachable {c : TransfersContainer}
    (hreach : Machine.Reachable Operation.apply TransfersContainer.empty c) :
    (∀ k, (c.imageView k).Consistent) ∧
      ∀ (ctx : InclusionContext) (flags : UInt32) (k : KeyImage),
        ((getOutputs ctx flags c).filter (ofImage k)).length ≤ 1 ∧
          balance ctx flags c =
            (getOutputs ctx flags c).foldl (fun amount t => amount + t.amount) 0 := by
  have hc : KeyImagesConsistent c :=
    Machine.Reachable.invariant KeyImagesConsistent keyImagesConsistent_empty
      (fun _ op hs => keyImagesConsistent_apply hs op) hreach
  refine ⟨hc, fun ctx flags k => ⟨?_, rfl⟩⟩
  have hsub := (getOutputs_sublist ctx flags c).filter (ofImage k)
  rw [List.filter_comm, List.filter_append] at hsub
  exact le_trans hsub.length_le (hc k).visible_le_one

/-- A container reached by two calls: a transaction with two key outputs of one
image, then one that spends the first of them. -/
theorem transfersVisibility_of_reachable_spent :
    let k : KeyImage := default
    let txA : TransactionReader := ⟨nullHash, 0, default, 0, 0, [], none, []⟩
    let txB : TransactionReader :=
      ⟨⟨List.replicate 32 1, List.length_replicate⟩, 0, default, 0, 0, [], none,
        [.key ⟨1, [0], k⟩]⟩
    let c := [Operation.addTransaction ⟨1, 0, 0⟩ txA
        [⟨.key, 1, 0, 0, k⟩, ⟨.key, 2, 1, 1, k⟩],
      Operation.addTransaction ⟨2, 0, 0⟩ txB []].foldl Operation.apply TransfersContainer.empty
    (∀ k, (c.imageView k).Consistent) ∧
      ∀ (ctx : InclusionContext) (flags : UInt32) (k : KeyImage),
        ((getOutputs ctx flags c).filter (ofImage k)).length ≤ 1 ∧
          balance ctx flags c =
            (getOutputs ctx flags c).foldl (fun amount t => amount + t.amount) 0 :=
  transfersVisibility_of_reachable (Machine.Reachable.init.foldl _)

end Transfers
end CryptoNote
