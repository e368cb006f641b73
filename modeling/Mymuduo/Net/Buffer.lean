import Mymuduo.Lib.Slice

namespace Mymuduo.Net

open Lib

abbrev Byte := UInt8

/-- The errno values the connection code tells apart. -/
inductive Errno where
  | EWOULDBLOCK
  | EPIPE
  | ECONNRESET
  | other (code : Nat)
  deriving DecidableEq

/-- A sum as `size_t` holds it. -/
def size_t (n : Nat) : Nat := n % 2 ^ 64

/-- `class Buffer`. A copy that would leave `buffer_` yields `none`. -/
@[ext] structure Buffer where
  buffer_ : List Byte
  readerIndex_ : Nat
  writerIndex_ : Nat
  deriving DecidableEq

namespace Buffer

def kCheapPrepend : Nat := 8
def kInitialSize : Nat := 1024

/-- The size of `extrabuf`, the stack space behind the second iovec of `readFd`. -/
def extrabufSize : Nat := 65536

def readableBytes (b : Buffer) : Nat := b.writerIndex_ - b.readerIndex_
def writableBytes (b : Buffer) : Nat := b.buffer_.length - b.writerIndex_
def prependableBytes (b : Buffer) : Nat := b.readerIndex_

/-- The bytes between `peek()` and `beginWrite()`. -/
def readable (b : Buffer) : List Byte := slice b.buffer_ b.readerIndex_ b.writerIndex_

def retrieveAll (b : Buffer) : Buffer :=
  { b with readerIndex_ := kCheapPrepend, writerIndex_ := kCheapPrepend }

def retrieve (b : Buffer) (len : Nat) : Buffer :=
  if len < b.readableBytes then { b with readerIndex_ := b.readerIndex_ + len }
  else b.retrieveAll

/-- `fin` is the offset in `buffer_` that the pointer argument points to. -/
def retrieveUntil (b : Buffer) (fin : Nat) : Buffer := b.retrieve (fin - b.readerIndex_)

def retrieveAsString (b : Buffer) (len : Nat) : Option (List Byte × Buffer) := do
  let result ← readSlice b.buffer_ b.readerIndex_ (b.readerIndex_ + len)
  some (result, b.retrieve len)

def retrieveAllAsString (b : Buffer) : Option (List Byte × Buffer) :=
  b.retrieveAsString b.readableBytes

section Sizes

/-! Indices are natural numbers, and `cut` is what becomes of a sum of sizes that are not all inside
`buffer_`: `size_t` in the class as it is compiled, `id` where everything fits in memory. -/

variable (cut : Nat → Nat)

def new (initialSize : Nat) : Buffer :=
  ⟨List.replicate (cut (kCheapPrepend + initialSize)) 0, kCheapPrepend, kCheapPrepend⟩

def makeSpace (b : Buffer) (len : Nat) : Option Buffer :=
  if cut (b.writableBytes + b.prependableBytes) < cut (len + kCheapPrepend) then
    some { b with buffer_ := resize b.buffer_ (cut (b.writerIndex_ + len)) 0 }
  else do
    let moved ← readSlice b.buffer_ b.readerIndex_ b.writerIndex_
    let buffer_ ← overwrite b.buffer_ kCheapPrepend moved
    some ⟨buffer_, kCheapPrepend, kCheapPrepend + b.readableBytes⟩

def ensureWritableBytes (b : Buffer) (len : Nat) : Option Buffer :=
  if b.writableBytes < len then b.makeSpace cut len else some b

def append (b : Buffer) (data : List Byte) : Option Buffer := do
  let b ← b.ensureWritableBytes cut data.length
  let buffer_ ← overwrite b.buffer_ b.writerIndex_ data
  some { b with buffer_ := buffer_, writerIndex_ := b.writerIndex_ + data.length }

/-- `answer` is what `readv` does: it fails, or it fills the iovecs in order with bytes. -/
def readFd (b : Buffer) (answer : Except Errno (List Byte)) :
    Option (Except Errno Nat × Buffer) :=
  match answer with
  | .error e => some (.error e, b)
  | .ok bytes => do
    let writable := b.writableBytes
    let buffer_ ← overwrite b.buffer_ b.writerIndex_ (bytes.take writable)
    if bytes.length ≤ writable then
      some (.ok bytes.length,
        { b with buffer_ := buffer_, writerIndex_ := b.writerIndex_ + bytes.length })
    else
      let b ← append cut { b with buffer_ := buffer_, writerIndex_ := buffer_.length }
        (bytes.drop writable)
      some (.ok bytes.length, b)

end Sizes

/-- The bytes `readFd` offers to `readv`: the writable part, and `extrabuf` behind it when
the writable part is the smaller one. -/
def offered (b : Buffer) : Nat :=
  b.writableBytes + if b.writableBytes < extrabufSize then extrabufSize else 0

/-- The layout the header documents, with the reserved prefix. -/
structure Valid (b : Buffer) : Prop where
  prepend : kCheapPrepend ≤ b.readerIndex_
  ordered : b.readerIndex_ ≤ b.writerIndex_
  inside : b.writerIndex_ ≤ b.buffer_.length

/-- Sums up to `n` come out whole. -/
def Whole (cut : Nat → Nat) (n : Nat) : Prop := ∀ m ≤ n, cut m = m

theorem whole_id (n : Nat) : Whole id n := fun _ _ => rfl

theorem whole_size_t {n : Nat} : Whole size_t n ↔ n < 2 ^ 64 := by
  constructor
  · intro h
    rw [← h n le_rfl]
    exact Nat.mod_lt _ (by decide)
  · intro h m hm
    exact Nat.mod_eq_of_lt (hm.trans_lt h)

variable {cut : Nat → Nat}

theorem valid_new {initialSize : Nat} (hcut : Whole cut (kCheapPrepend + initialSize)) :
    (new cut initialSize).Valid :=
  ⟨le_rfl, le_rfl, by simp [new, hcut _ le_rfl]⟩

@[simp] theorem readable_new (cut : Nat → Nat) (initialSize : Nat) :
    (new cut initialSize).readable = [] :=
  slice_self _ _

theorem Valid.length_readable {b : Buffer} (h : b.Valid) : b.readable.length = b.readableBytes :=
  length_slice _ _ _ h.inside

theorem Valid.retrieveAll {b : Buffer} (h : b.Valid) : b.retrieveAll.Valid :=
  ⟨le_rfl, le_rfl, h.prepend.trans (h.ordered.trans h.inside)⟩

@[simp] theorem readable_retrieveAll (b : Buffer) : b.retrieveAll.readable = [] :=
  slice_self _ _

theorem Valid.retrieve {b : Buffer} (h : b.Valid) (len : Nat) : (b.retrieve len).Valid := by
  unfold Buffer.retrieve
  split_ifs with hl
  · have hp := h.prepend
    have ho := h.ordered
    unfold readableBytes at hl
    exact ⟨by dsimp; omega, by dsimp; omega, h.inside⟩
  · exact h.retrieveAll

/-- `retrieve` drops the first `min len readable` bytes. -/
theorem Valid.readable_retrieve {b : Buffer} (h : b.Valid) (len : Nat) :
    (b.retrieve len).readable = b.readable.drop len := by
  unfold Buffer.retrieve
  split_ifs with hl
  · exact (drop_slice _ _ _ _).symm
  · rw [readable_retrieveAll, List.drop_eq_nil_of_le]
    rw [h.length_readable]
    omega

/-- The sums that `makeSpace` compares come out whole where the room it makes fits. -/
theorem Valid.sums {b : Buffer} (h : b.Valid) (hsize : Whole cut b.buffer_.length) {len : Nat}
    (hlen : Whole cut (b.writerIndex_ + len)) :
    cut (b.writableBytes + b.prependableBytes) = b.writableBytes + b.prependableBytes ∧
      cut (len + kCheapPrepend) = len + kCheapPrepend := by
  have hp := h.prepend
  have ho := h.ordered
  have hi := h.inside
  constructor
  · apply hsize
    simp only [writableBytes, prependableBytes]
    omega
  · apply hlen
    omega

/-- After `makeSpace` the content is the same and `len` bytes fit behind it. -/
theorem Valid.makeSpace {b : Buffer} (h : b.Valid) (hsize : Whole cut b.buffer_.length) {len : Nat}
    (hlen : Whole cut (b.writerIndex_ + len)) :
    ∃ c, b.makeSpace cut len = some c ∧ c.Valid ∧ Whole cut c.buffer_.length ∧
      c.readable = b.readable ∧ c.writerIndex_ + len ≤ c.buffer_.length := by
  have hp := h.prepend
  have ho := h.ordered
  have hi := h.inside
  obtain ⟨hhave, hwant⟩ := h.sums hsize hlen
  unfold Buffer.makeSpace
  rw [hhave, hwant, hlen _ le_rfl]
  split_ifs with hfit
  · refine ⟨_, rfl, ⟨hp, ho, by simp⟩, ?_, ?_, by simp⟩
    · rw [length_resize]
      exact hlen
    · exact slice_resize _ _ _ _ _ hi (Nat.le_add_right _ _)
  · have hmoved : b.readable.length = b.writerIndex_ - b.readerIndex_ := h.length_readable
    have hroom : kCheapPrepend + b.readable.length ≤ b.buffer_.length := by omega
    obtain ⟨buffer_, hw⟩ := exists_overwrite b.buffer_ b.readable kCheapPrepend hroom
    have hs := slice_overwrite hw le_rfl
    have hlength := length_overwrite hw
    simp only [writableBytes, prependableBytes] at hfit
    rw [readSlice_eq_some _ _ _ ho hi]
    change ∃ c, (overwrite b.buffer_ kCheapPrepend b.readable).bind _ = some c ∧ _
    rw [hw]
    refine ⟨_, rfl, ⟨le_rfl, Nat.le_add_right _ _, ?_⟩, ?_, ?_, ?_⟩
    · rw [hlength, ← h.length_readable]
      exact hroom
    · rw [hlength]
      exact hsize
    · rw [slice_self, List.nil_append, h.length_readable] at hs
      exact hs
    · rw [hlength]
      simp only [readableBytes]
      omega

theorem Valid.ensureWritableBytes {b : Buffer} (h : b.Valid) (hsize : Whole cut b.buffer_.length)
    {len : Nat} (hlen : Whole cut (b.writerIndex_ + len)) :
    ∃ c, b.ensureWritableBytes cut len = some c ∧ c.Valid ∧ Whole cut c.buffer_.length ∧
      c.readable = b.readable ∧ c.writerIndex_ + len ≤ c.buffer_.length := by
  unfold Buffer.ensureWritableBytes
  split_ifs with hl
  · exact h.makeSpace hsize hlen
  · have hi := h.inside
    unfold writableBytes at hl
    exact ⟨b, rfl, h, hsize, rfl, by omega⟩

/-- Writing `data` at `beginWrite()`, where it fits, appends it to the content. -/
theorem Valid.write {b : Buffer} (h : b.Valid) (data : List Byte)
    (hfit : b.writerIndex_ + data.length ≤ b.buffer_.length) :
    ∃ buffer_, overwrite b.buffer_ b.writerIndex_ data = some buffer_ ∧
      buffer_.length = b.buffer_.length ∧
      Valid { b with buffer_ := buffer_, writerIndex_ := b.writerIndex_ + data.length } ∧
      readable { b with buffer_ := buffer_, writerIndex_ := b.writerIndex_ + data.length } =
        b.readable ++ data := by
  obtain ⟨buffer_, hw⟩ := exists_overwrite b.buffer_ data b.writerIndex_ hfit
  have hlength := length_overwrite hw
  refine ⟨_, hw, hlength, ⟨h.prepend, h.ordered.trans (Nat.le_add_right _ _), ?_⟩,
    slice_overwrite hw h.ordered⟩
  dsimp only
  omega

theorem Valid.append {b : Buffer} (h : b.Valid) (hsize : Whole cut b.buffer_.length)
    {data : List Byte} (hlen : Whole cut (b.writerIndex_ + data.length)) :
    ∃ c, b.append cut data = some c ∧ c.Valid ∧ Whole cut c.buffer_.length ∧
      c.readable = b.readable ++ data := by
  obtain ⟨c, hc, hv, hwhole, hr, hfit⟩ := h.ensureWritableBytes hsize hlen
  obtain ⟨buffer_, hw, hlength, hv', hr'⟩ := hv.write data hfit
  refine ⟨_, ?_, hv', ?_, hr'.trans (by rw [hr])⟩
  · simp [Buffer.append, hc, hw]
  · rw [hlength]
    exact hwhole

theorem Valid.retrieveAsString {b : Buffer} (h : b.Valid) (len : Nat)
    (hlen : len ≤ b.readableBytes) :
    b.retrieveAsString len = some (b.readable.take len, b.retrieve len) := by
  have ho := h.ordered
  have hi := h.inside
  unfold readableBytes at hlen
  have hread := readSlice_eq_some b.buffer_ b.readerIndex_ (b.readerIndex_ + len)
    (Nat.le_add_right _ _) (by omega)
  unfold Buffer.retrieveAsString readable
  rw [hread, take_slice _ _ _ _ (by omega)]
  rfl

/-- Where the sizes fit, `append` is the same whatever becomes of larger sums. -/
theorem Valid.append_whole {b : Buffer} (h : b.Valid) (hsize : Whole cut b.buffer_.length)
    {data : List Byte} (hlen : Whole cut (b.writerIndex_ + data.length)) :
    b.append cut data = b.append id data := by
  obtain ⟨hhave, hwant⟩ := h.sums hsize hlen
  simp only [Buffer.append, Buffer.ensureWritableBytes, Buffer.makeSpace, hhave, hwant,
    hlen _ le_rfl, id]

/-- A successful `readFd` appends exactly the bytes read, those in `extrabuf` included. -/
theorem Valid.readFd {b : Buffer} (h : b.Valid) (hsize : Whole cut b.buffer_.length)
    {bytes : List Byte} (hbytes : Whole cut (b.writerIndex_ + bytes.length)) :
    ∃ c, b.readFd cut (.ok bytes) = some (.ok bytes.length, c) ∧ c.Valid ∧
      Whole cut c.buffer_.length ∧ c.readable = b.readable ++ bytes := by
  have hi := h.inside
  have hlen : (bytes.take b.writableBytes).length = min b.writableBytes bytes.length :=
    List.length_take
  have hfit : b.writerIndex_ + (bytes.take b.writableBytes).length ≤ b.buffer_.length := by
    unfold writableBytes at hlen ⊢
    omega
  obtain ⟨buffer_, hw, hlength, hv, hr⟩ := h.write _ hfit
  by_cases hn : bytes.length ≤ b.writableBytes
  · rw [List.take_of_length_le hn] at hw hv hr
    refine ⟨_, ?_, hv, ?_, hr⟩
    · simp [Buffer.readFd, List.take_of_length_le hn, hw, hn]
    · rw [hlength]
      exact hsize
  · have hend : b.writerIndex_ + (bytes.take b.writableBytes).length = buffer_.length := by
      unfold writableBytes at hlen hn ⊢
      omega
    rw [hend] at hv hr
    have hrest : buffer_.length + (bytes.drop b.writableBytes).length =
        b.writerIndex_ + bytes.length := by
      rw [List.length_drop]
      unfold writableBytes at hn ⊢
      omega
    have hsize' : Whole cut buffer_.length := by
      rw [hlength]
      exact hsize
    have hbytes' : Whole cut (buffer_.length + (bytes.drop b.writableBytes).length) := by
      rw [hrest]
      exact hbytes
    obtain ⟨c, hc, hcv, hwhole, hcr⟩ := hv.append hsize' hbytes'
    refine ⟨c, ?_, hcv, hwhole, ?_⟩
    · simp [Buffer.readFd, hw, hn, hc]
    · rw [hcr, hr, List.append_assoc, List.take_append_drop]

end Buffer

/-- The public operations. `retrieveUntil k` passes the pointer `peek() + k`. -/
inductive BufferOp where
  | append (data : List Byte)
  | retrieve (len : Nat)
  | retrieveUntil (k : Nat)
  | retrieveAsString (len : Nat)
  | retrieveAllAsString
  | retrieveAll
  | ensureWritableBytes (len : Nat)
  | readFd (answer : Except Errno (List Byte))

/-- What an operation returns to its caller. -/
inductive Reply where
  | void
  | str (bytes : List Byte)
  | ret (n : Except Errno Nat)

namespace BufferOp

/-- The operation of the class as it is compiled. -/
def exec (b : Buffer) : BufferOp → Option (Reply × Buffer)
  | append data => (b.append size_t data).map (Reply.void, ·)
  | retrieve len => some (.void, b.retrieve len)
  | retrieveUntil k => some (.void, b.retrieveUntil (b.readerIndex_ + k))
  | retrieveAsString len => (b.retrieveAsString len).map fun r => (.str r.1, r.2)
  | retrieveAllAsString => b.retrieveAllAsString.map fun r => (.str r.1, r.2)
  | retrieveAll => some (.void, b.retrieveAll)
  | ensureWritableBytes len => (b.ensureWritableBytes size_t len).map (Reply.void, ·)
  | readFd answer => (b.readFd size_t answer).map fun r => (.ret r.1, r.2)

/-- What callers and the kernel guarantee: pointers and lengths within the readable
range, and `readv` staying inside the iovecs. -/
def Allowed (b : Buffer) : BufferOp → Prop
  | retrieveUntil k => k ≤ b.readableBytes
  | retrieveAsString len => len ≤ b.readableBytes
  | readFd (.ok bytes) => bytes.length ≤ b.offered
  | _ => True

instance (b : Buffer) : (op : BufferOp) → Decidable (op.Allowed b)
  | retrieveUntil k => inferInstanceAs (Decidable (k ≤ b.readableBytes))
  | retrieveAsString len => inferInstanceAs (Decidable (len ≤ b.readableBytes))
  | readFd (.ok bytes) => inferInstanceAs (Decidable (bytes.length ≤ b.offered))
  | readFd (.error _) => isTrue trivial
  | append _ => isTrue trivial
  | retrieve _ => isTrue trivial
  | retrieveAllAsString => isTrue trivial
  | retrieveAll => isTrue trivial
  | ensureWritableBytes _ => isTrue trivial

/-- What an operation makes room for ends below `2 ^ 64`. -/
def Fits (b : Buffer) : BufferOp → Prop
  | append data => b.writerIndex_ + data.length < 2 ^ 64
  | ensureWritableBytes len => b.writerIndex_ + len < 2 ^ 64
  | readFd (.ok bytes) => b.writerIndex_ + bytes.length < 2 ^ 64
  | _ => True

/-- The same operation on a byte queue. -/
def queue (q : List Byte) : BufferOp → Reply × List Byte
  | append data => (.void, q ++ data)
  | retrieve len => (.void, q.drop len)
  | retrieveUntil k => (.void, q.drop k)
  | retrieveAsString len => (.str (q.take len), q.drop len)
  | retrieveAllAsString => (.str q, [])
  | retrieveAll => (.void, [])
  | ensureWritableBytes _ => (.void, q)
  | readFd (.ok bytes) => (.ret (.ok bytes.length), q ++ bytes)
  | readFd (.error e) => (.ret (.error e), q)

def execAll : Buffer → List BufferOp → Option (List Reply × Buffer)
  | b, [] => some ([], b)
  | b, op :: ops => do
    let (r, c) ← op.exec b
    let (rs, d) ← execAll c ops
    some (r :: rs, d)

/-- Each operation of a run meets the condition on the buffer that it finds. -/
def Along (ok : Buffer → BufferOp → Prop) : Buffer → List BufferOp → Prop
  | _, [] => True
  | b, op :: ops => ok b op ∧ ∀ r c, op.exec b = some (r, c) → Along ok c ops

def queueAll : List Byte → List BufferOp → List Reply × List Byte
  | q, [] => ([], q)
  | q, op :: ops =>
    let (r, p) := op.queue q
    let (rs, t) := queueAll p ops
    (r :: rs, t)

/-- One operation on a valid buffer never leaves `buffer_`, keeps the layout and does to
the content what it does to the queue. -/
theorem exec_refines {b : Buffer} {op : BufferOp} (h : b.Valid) (hsize : b.buffer_.length < 2 ^ 64)
    (ha : op.Allowed b) (hf : op.Fits b) :
    ∃ c, op.exec b = some ((op.queue b.readable).1, c) ∧ c.Valid ∧ c.buffer_.length < 2 ^ 64 ∧
      c.readable = (op.queue b.readable).2 := by
  simp only [← Buffer.whole_size_t] at hsize ⊢
  have hkept (len : Nat) : Buffer.Whole size_t (b.retrieve len).buffer_.length := by
    have hsame : (b.retrieve len).buffer_ = b.buffer_ := by
      unfold Buffer.retrieve
      split_ifs <;> rfl
    rw [hsame]
    exact hsize
  cases op with
  | append data =>
    obtain ⟨c, hc, hv, hwhole, hr⟩ := h.append hsize (Buffer.whole_size_t.mpr hf)
    exact ⟨c, by simp [exec, queue, hc], hv, hwhole, hr⟩
  | retrieve len =>
    exact ⟨_, rfl, h.retrieve len, hkept len, h.readable_retrieve len⟩
  | retrieveUntil k =>
    have hk : b.readerIndex_ + k - b.readerIndex_ = k := Nat.add_sub_cancel_left _ _
    refine ⟨b.retrieve k, ?_, h.retrieve k, hkept k, h.readable_retrieve k⟩
    simp only [exec, queue, Buffer.retrieveUntil, hk]
  | retrieveAsString len =>
    refine ⟨b.retrieve len, ?_, h.retrieve len, hkept len, h.readable_retrieve len⟩
    simp only [exec, queue, h.retrieveAsString len ha, Option.map_some]
  | retrieveAllAsString =>
    refine ⟨b.retrieve b.readableBytes, ?_, h.retrieve _, hkept _, ?_⟩
    · have hall : b.readable.take b.readableBytes = b.readable :=
        List.take_of_length_le h.length_readable.le
      simp only [exec, queue, Buffer.retrieveAllAsString, h.retrieveAsString _ le_rfl, hall,
        Option.map_some]
    · rw [h.readable_retrieve, ← h.length_readable, List.drop_length]
      rfl
  | retrieveAll => exact ⟨_, rfl, h.retrieveAll, hsize, Buffer.readable_retrieveAll b⟩
  | ensureWritableBytes len =>
    obtain ⟨c, hc, hv, hwhole, hr, -⟩ := h.ensureWritableBytes hsize (Buffer.whole_size_t.mpr hf)
    exact ⟨c, by simp [exec, queue, hc], hv, hwhole, hr⟩
  | readFd answer =>
    cases answer with
    | error e => exact ⟨b, rfl, h, hsize, rfl⟩
    | ok bytes =>
      obtain ⟨c, hc, hv, hwhole, hr⟩ := h.readFd hsize (Buffer.whole_size_t.mpr hf)
      exact ⟨c, by simp [exec, queue, hc], hv, hwhole, hr⟩

/-- The refinement over a run from any valid buffer, by induction on the operations. -/
theorem execAll_refines {b : Buffer} {ops : List BufferOp} (h : b.Valid)
    (hsize : b.buffer_.length < 2 ^ 64) (ha : Along (fun b op => op.Allowed b ∧ op.Fits b) b ops) :
    ∃ c, execAll b ops = some ((queueAll b.readable ops).1, c) ∧ c.Valid ∧
      c.readable = (queueAll b.readable ops).2 := by
  induction ops generalizing b with
  | nil => exact ⟨b, rfl, h, rfl⟩
  | cons op ops ih =>
    obtain ⟨⟨hallowed, hfits⟩, hrest⟩ := ha
    obtain ⟨c, hc, hv, hsize', hr⟩ := exec_refines h hsize hallowed hfits
    obtain ⟨d, hd, hv', hr'⟩ := ih hv hsize' (hrest _ c hc)
    refine ⟨d, ?_, hv', ?_⟩
    · simp [execAll, queueAll, hc, hd, hr]
    · rw [hr', hr]
      rfl

/-- A run from a new buffer never copies outside `buffer_`, ends with the documented layout and
holding what the byte queue holds, and every reply is the queue's. -/
def RefinesQueue (initialSize : Nat) (ops : List BufferOp) : Prop :=
  ∃ b, execAll (Buffer.new size_t initialSize) ops = some ((queueAll [] ops).1, b) ∧ b.Valid ∧
    b.readable = (queueAll [] ops).2

/-- Every run of allowed operations refines the byte queue, as long as neither the initial size nor
what an operation makes room for passes the range of `size_t`. -/
theorem buffer_refines_queue {initialSize : Nat} (hsize : initialSize < 2 ^ 64 - 8)
    {ops : List BufferOp}
    (ha : Along (fun b op => op.Allowed b ∧ op.Fits b) (Buffer.new size_t initialSize) ops) :
    RefinesQueue initialSize ops := by
  have hfit : Buffer.kCheapPrepend + initialSize < 2 ^ 64 := by
    unfold Buffer.kCheapPrepend
    omega
  have hwhole := Buffer.whole_size_t.mpr hfit
  have hlength : (Buffer.new size_t initialSize).buffer_.length < 2 ^ 64 := by
    simp only [Buffer.new, List.length_replicate, hwhole _ le_rfl]
    exact hfit
  have hrun := execAll_refines (Buffer.valid_new hwhole) hlength ha
  rw [Buffer.readable_new] at hrun
  exact hrun

/-- An empty buffer of size 0 that grows, spills into `extrabuf`, and gives the bytes back. -/
theorem buffer_refines_queue_spill :
    Along (fun b op => op.Allowed b ∧ op.Fits b) (Buffer.new size_t 0)
      [.append [1, 2], .readFd (.ok [3, 4]), .retrieveAsString 3] ∧
    RefinesQueue 0 [.append [1, 2], .readFd (.ok [3, 4]), .retrieveAsString 3] := by
  have ha : Along (fun b op => op.Allowed b ∧ op.Fits b) (Buffer.new size_t 0)
      [.append [1, 2], .readFd (.ok [3, 4]), .retrieveAsString 3] := by
    refine ⟨⟨trivial, by unfold Fits; decide⟩, ?_⟩
    intro r b hb
    obtain ⟨-, rfl⟩ := Prod.mk.inj (Option.some.inj hb)
    refine ⟨⟨by decide, by unfold Fits; decide⟩, ?_⟩
    intro r' c hc
    obtain ⟨-, rfl⟩ := Prod.mk.inj (Option.some.inj hc)
    exact ⟨⟨by decide, trivial⟩, fun _ _ _ => trivial⟩
  exact ⟨ha, buffer_refines_queue (by decide) ha⟩

/-- An initial size 8 bytes short of `2 ^ 64` gives a vector of no bytes, and a request for room
that passes `2 ^ 64` cuts the vector behind the content. -/
theorem layout_lost_by_wrapping : ¬ RefinesQueue (2 ^ 64 - 8) [] ∧
    Along (fun b op => op.Allowed b) (Buffer.new size_t 0)
      [.append [1, 2], .ensureWritableBytes (2 ^ 64 - 9)] ∧
    ¬ RefinesQueue 0 [.append [1, 2], .ensureWritableBytes (2 ^ 64 - 9)] := by
  refine ⟨?_, ⟨trivial, fun _ _ _ => ⟨trivial, fun _ _ _ => trivial⟩⟩, ?_⟩
  · rintro ⟨b, hb, hv, -⟩
    obtain ⟨-, rfl⟩ := Prod.mk.inj (Option.some.inj hb)
    exact absurd hv.inside (by decide)
  · rintro ⟨b, hb, hv, -⟩
    have hrun : execAll (Buffer.new size_t 0) [.append [1, 2], .ensureWritableBytes (2 ^ 64 - 9)] =
        some ([.void, .void], ⟨[0], 8, 10⟩) := rfl
    rw [hrun] at hb
    obtain ⟨-, rfl⟩ := Prod.mk.inj (Option.some.inj hb)
    exact absurd hv.inside (by decide)

end BufferOp

/-- A buffer together with its layout, with sizes that all fit in memory. The operations of the
class are total on it. -/
def ByteBuffer := { b : Buffer // b.Valid }

namespace ByteBuffer

def new (initialSize : Nat) : ByteBuffer :=
  ⟨Buffer.new id initialSize, Buffer.valid_new (Buffer.whole_id _)⟩

def content (b : ByteBuffer) : List Byte := b.1.readable

def readableBytes (b : ByteBuffer) : Nat := b.1.readableBytes

def retrieve (b : ByteBuffer) (len : Nat) : ByteBuffer := ⟨b.1.retrieve len, b.2.retrieve len⟩

def retrieveAll (b : ByteBuffer) : ByteBuffer := ⟨b.1.retrieveAll, b.2.retrieveAll⟩

theorem append_spec (b : ByteBuffer) (data : List Byte) :
    ∃ h : (b.1.append id data).isSome, ((b.1.append id data).get h).Valid ∧
      ((b.1.append id data).get h).readable = b.1.readable ++ data := by
  obtain ⟨c, hc, hv, -, hr⟩ := b.2.append (Buffer.whole_id _) (Buffer.whole_id _)
  refine ⟨by rw [hc]; rfl, ?_⟩
  simp only [hc, Option.get_some]
  exact ⟨hv, hr⟩

def append (b : ByteBuffer) (data : List Byte) : ByteBuffer :=
  ⟨(b.1.append id data).get (b.append_spec data).1, (b.append_spec data).2.1⟩

/-- It is the `append` of the class as it is compiled, where the sizes are those of `size_t`. -/
theorem append_size_t (b : ByteBuffer) {data : List Byte} (hsize : b.1.buffer_.length < 2 ^ 64)
    (hlen : b.1.writerIndex_ + data.length < 2 ^ 64) :
    b.1.append size_t data = some (b.append data).1 := by
  rw [b.2.append_whole (Buffer.whole_size_t.mpr hsize) (Buffer.whole_size_t.mpr hlen)]
  exact (Option.some_get (b.append_spec data).1).symm

@[simp] theorem content_new (initialSize : Nat) : (new initialSize).content = [] :=
  Buffer.readable_new id initialSize

@[simp] theorem content_append (b : ByteBuffer) (data : List Byte) :
    (b.append data).content = b.content ++ data := (b.append_spec data).2.2

@[simp] theorem content_retrieve (b : ByteBuffer) (len : Nat) :
    (b.retrieve len).content = b.content.drop len := b.2.readable_retrieve len

theorem readableBytes_eq (b : ByteBuffer) : b.readableBytes = b.content.length :=
  b.2.length_readable.symm

end ByteBuffer

end Mymuduo.Net
