import CryptoNote.Lib.Leb128

/-!
# Codecs written once for both directions

Many serialization libraries describe a format by one function per type that is
run either with a writer or with a reader: the writer leaves the value as it is
and appends its bytes, the reader overwrites a starting value with what it
reads.  A pair of such functions implements a format when the writer produces
the format's bytes, the reader recovers every value from them whatever it
started from, and the reader accepts nothing else.

Main results:

- Structure {lit}`Implements`: the three laws, relative to a domain of values
  the format covers.
- Theorems {lit}`Implements.writes_mapM`, {lit}`Implements.reads_mapM`,
  {lit}`Implements.consumes_mapM`: the laws lift to running the pair along a
  list.
- Theorems {lit}`Implements.run_writes`, {lit}`Implements.run_reads` and
  {lit}`Implements.eq_of_run_reads`: on a whole byte string, writing then
  reading gives the value back, and a reader that consumes a whole string
  accepts only the encoding of what it returns.
-/

namespace ByteCodec

variable {α : Type}

/-- The writer {lit}`w` and the reader {lit}`r` implement the format
{lit}`enc` on the values satisfying {lit}`D`: the writer writes {lit}`enc a`
and keeps {lit}`a`, the reader recovers {lit}`a` from {lit}`enc a` whatever
value it starts from, and every successful read returns a value of the domain
after consuming exactly its encoding. -/
structure Implements (w r : α → ByteStream α) (D : α → Prop) (enc : α → Bytes) : Prop where
  writes : ∀ a, D a → Writes (w a) a (enc a)
  reads : ∀ a, D a → ∀ y, Reads (r y) a (enc a)
  consumes : ∀ y, Consumes (r y) fun a bs => D a ∧ bs = enc a

namespace Implements

variable {w r : α → ByteStream α} {D : α → Prop} {enc : α → Bytes}

/-! ## Lists -/

theorem writes_mapM (h : Implements w r D enc) {xs : List α} (hxs : ∀ x ∈ xs, D x) :
    Writes (xs.mapM w) xs (xs.flatMap enc) := by
  have hw := Writes.mapM (g := fun x => x) fun x hx => h.writes x (hxs x hx)
  rwa [List.map_id'] at hw

theorem reads_mapM (h : Implements w r D enc) {ys xs : List α} (hlen : ys.length = xs.length)
    (hxs : ∀ x ∈ xs, D x) : Reads (ys.mapM r) xs (xs.flatMap enc) :=
  Reads.mapM hlen fun y x hx => h.reads x (hxs x hx) y

/-- The parts a list reader consumed, each the encoding of its element, make up
the encoding of the list. -/
theorem flatten_of_forall₂ :
    ∀ {xs : List α} {parts : List Bytes},
      List.Forall₂ (fun a bs => D a ∧ bs = enc a) xs parts →
      (∀ x ∈ xs, D x) ∧ parts.flatten = xs.flatMap enc
  | [], [], List.Forall₂.nil => ⟨by simp, rfl⟩
  | x :: _, _ :: _, List.Forall₂.cons ⟨hx, rfl⟩ hrest => by
    obtain ⟨hxs, hflat⟩ := flatten_of_forall₂ hrest
    refine ⟨?_, by rw [List.flatten_cons, hflat, List.flatMap_cons]⟩
    intro x' hx'
    rcases List.mem_cons.mp hx' with rfl | hx'
    · exact hx
    · exact hxs x' hx'

/-- Reading a list item by item consumes the encodings of the items read. -/
theorem consumes_mapM (h : Implements w r D enc) (ys : List α) :
    Consumes (ys.mapM r) fun xs bs =>
      xs.length = ys.length ∧ (∀ x ∈ xs, D x) ∧ bs = xs.flatMap enc := by
  intro s xs rest hrun
  obtain ⟨bs, hs, hlen, parts, hparts, rfl⟩ := Consumes.mapM h.consumes ys s xs rest hrun
  obtain ⟨hxs, hflat⟩ := flatten_of_forall₂ hparts
  exact ⟨parts.flatten, hs, hlen, hxs, hflat⟩

/-! ## Whole byte strings -/

theorem run_writes (h : Implements w r D enc) {a : α} (ha : D a) :
    (w a).run [] = .ok (a, enc a) :=
  h.writes a ha []

theorem run_reads (h : Implements w r D enc) {a : α} (ha : D a) (y : α) :
    (r y).run (enc a) = .ok (a, []) := by
  simpa using h.reads a ha y []

theorem eq_of_run_reads (h : Implements w r D enc) {y a : α} {bs : Bytes}
    (hrun : (r y).run bs = .ok (a, [])) : D a ∧ bs = enc a := by
  obtain ⟨bs', hbs, ha, rfl⟩ := h.consumes y bs a [] hrun
  rw [List.append_nil] at hbs
  exact ⟨ha, hbs⟩

end Implements

end ByteCodec
