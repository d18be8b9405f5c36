import Mathlib.Data.List.Basic
import Mathlib.Algebra.Group.Nat.Defs

/-!
# Byte streams, writers and readers

A stream codec is a pair of computations over a byte string: the writer appends
to the bytes written so far, the reader consumes bytes from the front of what is
left.  Both are computations of one state-and-failure monad, so that a codec
that is written once and run in two directions can be modelled by one
definition.

This module fixes the monad, its two primitive byte operations, and three
properties a pair of such computations can have, each with the composition rules
that later proofs apply instead of unfolding a codec.

Main results:

- Definitions {lit}`Writes` and {lit}`Reads`: a writer appends exactly a given
  byte string, a reader recovers a value from exactly that byte string.
- Definition {lit}`Consumes`: every successful run of a reader consumed a
  prefix of its input related to the value it returned.
- Theorems {lit}`Writes.bind`, {lit}`Reads.bind`, {lit}`Writes.mapM`,
  {lit}`Reads.mapM`, {lit}`Consumes.mapM`: the three properties compose along
  sequencing and along lists.
- Theorem {lit}`run_bind_eq_ok`: a successful run of a sequence splits into
  successful runs of its parts; {lit}`run_bind_of_ok` is the converse step.
  {lit}`Writes.bind_pure` and {lit}`Reads.bind_pure` cover the final
  {lit}`pure` of a record built from its fields.
-/

namespace ByteCodec

/-- Byte strings, as a stream holds them. -/
abbrev Bytes := List UInt8

/-- A computation over a byte stream.  A writer keeps the bytes written so far
as its state, a reader the bytes not yet read; either can fail with a message. -/
abbrev ByteStream (α : Type) := StateT Bytes (Except String) α

variable {α β : Type}

/-! ## Primitive operations -/

/-- Append bytes to the output. -/
def writeBytes (bs : Bytes) : ByteStream Unit :=
  fun acc => .ok ((), acc ++ bs)

/-- Take the next {lit}`n` bytes of the input, failing when fewer are left. -/
def readBytes (n : Nat) : ByteStream Bytes :=
  fun s => if n ≤ s.length then .ok (s.take n, s.drop n)
    else .error "Failed to read from IInputStream"

/-- Whether the input is exhausted; reads nothing. -/
def atEnd : ByteStream Bool :=
  fun s => .ok (s.isEmpty, s)

@[simp] theorem writeBytes_run (bs acc : Bytes) :
    (writeBytes bs).run acc = .ok ((), acc ++ bs) :=
  rfl

@[simp] theorem atEnd_run (s : Bytes) : atEnd.run s = .ok (s.isEmpty, s) :=
  rfl

theorem readBytes_run_append (bs rest : Bytes) :
    (readBytes bs.length).run (bs ++ rest) = .ok (bs, rest) := by
  simp [readBytes, StateT.run]

/-- A successful read of {lit}`n` bytes returned a prefix of length {lit}`n`. -/
theorem readBytes_run_eq_ok {n : Nat} {s bs rest : Bytes}
    (h : (readBytes n).run s = .ok (bs, rest)) :
    s = bs ++ rest ∧ bs.length = n := by
  simp only [readBytes, StateT.run] at h
  split at h
  · cases h
    exact ⟨(List.take_append_drop n s).symm, List.length_take_of_le ‹_›⟩
  · cases h

/-! ## Sequencing -/

@[simp] theorem run_pure (a : α) (s : Bytes) :
    (pure a : ByteStream α).run s = .ok (a, s) :=
  rfl

@[simp] theorem run_throw (msg : String) (s : Bytes) :
    (throw msg : ByteStream α).run s = .error msg :=
  rfl

@[simp] theorem ok_bind {ε : Type} (a : α) (f : α → Except ε β) :
    (Except.ok a >>= f) = f a :=
  rfl

@[simp] theorem error_bind {ε : Type} (e : ε) (f : α → Except ε β) :
    (Except.error e >>= f) = Except.error e :=
  rfl

@[simp] theorem map_ok {ε : Type} (f : α → β) (a : α) :
    (f <$> (Except.ok a : Except ε α)) = Except.ok (f a) :=
  rfl

/-- After a successful first step, a sequence continues on what it returned. -/
theorem run_bind_of_ok {m : ByteStream α} {f : α → ByteStream β} {s s' : Bytes} {a : α}
    (h : m.run s = .ok (a, s')) : (m >>= f).run s = (f a).run s' := by
  simp only [StateT.run_bind, h]
  rfl

/-- A successful run of {lit}`pure a` returned {lit}`a` and consumed nothing. -/
theorem run_pure_eq_ok {a b : α} {s r : Bytes} (h : (pure a : ByteStream α).run s = .ok (b, r)) :
    b = a ∧ r = s := by
  simp only [run_pure, Except.ok.injEq, Prod.mk.injEq] at h
  exact ⟨h.1.symm, h.2.symm⟩

/-- A failed first step fails the whole sequence. -/
theorem run_bind_of_error {m : ByteStream α} {f : α → ByteStream β} {s : Bytes} {e : String}
    (h : m.run s = .error e) : (m >>= f).run s = .error e := by
  simp only [StateT.run_bind, h]
  rfl

/-- A successful run of {lit}`m >>= f` is a successful run of {lit}`m` followed
by a successful run of {lit}`f` on what {lit}`m` returned. -/
theorem run_bind_eq_ok {m : ByteStream α} {f : α → ByteStream β} {s r : Bytes} {b : β}
    (h : (m >>= f).run s = .ok (b, r)) :
    ∃ a s', m.run s = .ok (a, s') ∧ (f a).run s' = .ok (b, r) := by
  rcases hm : m.run s with e | ⟨a, s'⟩
  · rw [run_bind_of_error hm] at h
    cases h
  · rw [run_bind_of_ok hm] at h
    exact ⟨a, s', rfl, h⟩

/-- A step that ignores its argument, mapped over two lists of one length, is
one program: only the number of steps counts. -/
theorem mapM_eq_of_length {f : α → ByteStream β} (hf : ∀ a b, f a = f b) :
    ∀ {xs ys : List α}, xs.length = ys.length → xs.mapM f = ys.mapM f
  | [], [], _ => rfl
  | x :: xs, y :: ys, h => by
    have tail : xs.mapM f = ys.mapM f := mapM_eq_of_length hf (Nat.succ.inj h)
    simp only [List.mapM_cons, hf x y, tail]

/-! ## Writers -/

/-- The writer {lit}`w` returns {lit}`a` and appends exactly {lit}`bs`, whatever
was written before. -/
def Writes (w : ByteStream α) (a : α) (bs : Bytes) : Prop :=
  ∀ acc, w.run acc = .ok (a, acc ++ bs)

theorem Writes.pure (a : α) : Writes (Pure.pure a : ByteStream α) a [] := by
  intro acc
  rw [List.append_nil]
  rfl

theorem Writes.writeBytes (bs : Bytes) : Writes (ByteCodec.writeBytes bs) () bs :=
  writeBytes_run bs

theorem Writes.bind {m : ByteStream α} {f : α → ByteStream β} {a : α} {b : β}
    {bs cs : Bytes} (hm : Writes m a bs) (hf : Writes (f a) b cs) :
    Writes (m >>= f) b (bs ++ cs) := by
  intro acc
  rw [run_bind_of_ok (hm acc), hf, List.append_assoc]

/-- A writer followed by a pure function of its result writes the same bytes. -/
theorem Writes.bind_pure {m : ByteStream α} {a : α} {bs : Bytes} (h : Writes m a bs)
    (f : α → β) : Writes (m >>= fun a => Pure.pure (f a)) (f a) bs := by
  intro acc
  rw [run_bind_of_ok (h acc)]
  rfl

/-- A writer determines its output. -/
theorem Writes.unique {w : ByteStream α} {a a' : α} {bs bs' : Bytes}
    (h : Writes w a bs) (h' : Writes w a' bs') : a = a' ∧ bs = bs' := by
  have heq := (h []).symm.trans (h' [])
  simp only [List.nil_append, Except.ok.injEq, Prod.mk.injEq] at heq
  exact heq

/-- Running a writer on every element of a list writes the concatenation of
what each element writes. -/
theorem Writes.mapM {f : α → ByteStream β} {g : α → β} {enc : α → Bytes} :
    ∀ {xs : List α}, (∀ x ∈ xs, Writes (f x) (g x) (enc x)) →
      Writes (xs.mapM f) (xs.map g) (xs.flatMap enc)
  | [], _ => by simpa using Writes.pure ([] : List β)
  | x :: xs, h => by
    have hx := h x (List.mem_cons_self ..)
    have hxs := Writes.mapM (fun y hy => h y (List.mem_cons_of_mem x hy))
    intro acc
    rw [List.mapM_cons, run_bind_of_ok (hx acc), run_bind_of_ok (hxs _), List.map_cons,
      List.flatMap_cons, List.append_assoc]
    rfl

/-! ## Readers -/

/-- The reader {lit}`r` returns {lit}`a` after consuming exactly {lit}`bs`, and
leaves whatever follows untouched. -/
def Reads (r : ByteStream α) (a : α) (bs : Bytes) : Prop :=
  ∀ rest, r.run (bs ++ rest) = .ok (a, rest)

theorem Reads.pure (a : α) : Reads (Pure.pure a : ByteStream α) a [] := by
  intro rest
  rfl

theorem Reads.readBytes (bs : Bytes) : Reads (ByteCodec.readBytes bs.length) bs bs :=
  readBytes_run_append bs

theorem Reads.bind {m : ByteStream α} {f : α → ByteStream β} {a : α} {b : β}
    {bs cs : Bytes} (hm : Reads m a bs) (hf : Reads (f a) b cs) :
    Reads (m >>= f) b (bs ++ cs) := by
  intro rest
  rw [List.append_assoc, run_bind_of_ok (hm _), hf]

/-- A reader followed by a pure function of its result reads the same bytes. -/
theorem Reads.bind_pure {m : ByteStream α} {a : α} {bs : Bytes} (h : Reads m a bs)
    (f : α → β) : Reads (m >>= fun a => Pure.pure (f a)) (f a) bs := by
  intro rest
  rw [run_bind_of_ok (h rest)]
  rfl

/-- Reading a list element by element, over any list of the right length of
starting values, recovers a list whose elements are read one after another. -/
theorem Reads.mapM {f : α → ByteStream β} {enc : β → Bytes} :
    ∀ {ys : List α} {xs : List β}, ys.length = xs.length →
      (∀ y, ∀ x ∈ xs, Reads (f y) x (enc x)) →
      Reads (ys.mapM f) xs (xs.flatMap enc)
  | [], [], _, _ => by simpa using Reads.pure ([] : List β)
  | y :: ys, x :: xs, hlen, h => by
    have hx := h y x (List.mem_cons_self ..)
    have hxs : Reads (ys.mapM f) xs (xs.flatMap enc) := Reads.mapM (by simpa using hlen)
      (fun y' x' hx' => h y' x' (List.mem_cons_of_mem x hx'))
    intro rest
    rw [List.mapM_cons, List.flatMap_cons, List.append_assoc, run_bind_of_ok (hx _),
      run_bind_of_ok (hxs _)]
    rfl

/-! ## Readers that accept only what a relation allows -/

/-- Every successful run of the reader {lit}`r` consumed a prefix {lit}`bs` of
its input with {lit}`P a bs`, where {lit}`a` is the value returned. -/
def Consumes (r : ByteStream α) (P : α → Bytes → Prop) : Prop :=
  ∀ s a rest, r.run s = .ok (a, rest) → ∃ bs, s = bs ++ rest ∧ P a bs

theorem Consumes.mono {r : ByteStream α} {P Q : α → Bytes → Prop}
    (h : Consumes r P) (hPQ : ∀ a bs, P a bs → Q a bs) : Consumes r Q := by
  intro s a rest hrun
  obtain ⟨bs, hs, hP⟩ := h s a rest hrun
  exact ⟨bs, hs, hPQ a bs hP⟩

/-- Reading a list element by element, one element per starting value, consumes
element by element what each element's reader accepts. -/
theorem Consumes.mapM {f : α → ByteStream β} {P : β → Bytes → Prop}
    (h : ∀ y, Consumes (f y) P) :
    ∀ ys : List α, Consumes (ys.mapM f) fun xs bs => xs.length = ys.length ∧
      ∃ parts : List Bytes, List.Forall₂ P xs parts ∧ bs = parts.flatten
  | [] => by
    intro s a rest hrun
    obtain ⟨rfl, rfl⟩ := run_pure_eq_ok hrun
    exact ⟨[], rfl, rfl, [], List.Forall₂.nil, rfl⟩
  | y :: ys => by
    intro s a rest hrun
    rw [List.mapM_cons] at hrun
    obtain ⟨x, s₁, hx, hrun₁⟩ := run_bind_eq_ok hrun
    obtain ⟨xs, s₂, hxs, hrun₂⟩ := run_bind_eq_ok hrun₁
    obtain ⟨rfl, rfl⟩ := run_pure_eq_ok hrun₂
    obtain ⟨bs, rfl, hP⟩ := h y s x s₁ hx
    obtain ⟨cs, rfl, hlen, parts, hparts, rfl⟩ := Consumes.mapM h ys s₁ xs rest hxs
    exact ⟨bs ++ parts.flatten, by rw [List.append_assoc], by simp [hlen], bs :: parts,
      List.Forall₂.cons hP hparts, rfl⟩

end ByteCodec
