import Mymuduo.Net.Buffer
import Mymuduo.Net.EventLoop

namespace Mymuduo.Net

open Lib

/-- Storage in blocks. A block that is freed is not used again. -/
abbrev Storage := Nat → Option (List Byte)

/-- What `send` binds to a functor: the pointer of `c_str()` and the size, or a string. -/
inductive Data where
  | pointer (block len : Nat)
  | message (bytes : List Byte)
  deriving DecidableEq

/-- The bytes that `sendInLoop` finds. In freed storage there are none to be found. -/
def Data.read (storage : Storage) : Data → Option (List Byte)
  | .pointer block len => if len = 0 then some [] else (storage block).map (·.take len)
  | .message bytes => some bytes

theorem Data.read_pointer {storage : Storage} {block len : Nat} (h : len ≠ 0) :
    (Data.pointer block len).read storage = (storage block).map (·.take len) := if_neg h

theorem Data.read_update {storage : Storage} {data : Data} {block : Nat}
    {bytes : Option (List Byte)} (h : ∀ len, data = .pointer block len → len = 0) :
    data.read (Function.update storage block bytes) = data.read storage := by
  cases data with
  | message bytes => rfl
  | pointer other len =>
    by_cases hlen : len = 0
    · simp [Data.read, hlen]
    · have hne : other ≠ block := by
        rintro rfl
        exact hlen (h len rfl)
      rw [Data.read_pointer hlen, Data.read_pointer hlen, Function.update_of_ne hne]

/-- What can be read now does not change when a block is first used. -/
theorem Data.read_fresh {storage : Storage} {data : Data} {block : Nat} {value : List Byte}
    (hfresh : storage block = none) (h : data.read storage = some value)
    (bytes : Option (List Byte)) :
    data.read (Function.update storage block bytes) = some value := by
  rw [Data.read_update]
  · exact h
  · rintro len rfl
    by_contra hlen
    rw [Data.read_pointer hlen, hfresh] at h
    cases h

/-- The functors of the loop. `value` records what the argument of `send` held. -/
inductive SendFunctor where
  | sendInLoop (data : Data) (value : List Byte)
  | other
  deriving DecidableEq

/-- A connection with the loop that owns it and the strings and buffers of its users. A string is
a block and a size; `given` records each call of `sendInLoop`, with what was to be sent. -/
structure Sending (S T : Type) where
  loop : EventLoop SendFunctor T
  connected : Bool
  storage : Storage
  fresh : Nat
  strings : S → Option (Nat × Nat)
  buffers : S → ByteBuffer
  given : List (Option (List Byte) × List Byte)

/-- The steps of the users and of the loop. The users construct strings, assign to them, which may
move their storage, and destroy them. -/
inductive SendAction (S T : Type) where
  | construct (x : S) (bytes spare : List Byte)
  | assign (x : S) (bytes spare : List Byte) (moves : Bool)
  | destroy (x : S)
  | fill (y : S) (bytes : List Byte)
  | send (who : Option T) (x : S)
  | sendBuffer (who : Option T) (y : S)
  | disconnect
  | loop (a : LoopAction SendFunctor T)

namespace EventLoop

variable {F T : Type}

/-- The functors that have not been started. -/
def waiting (l : EventLoop F T) : List F := l.phase.batch ++ l.pendingFuntors_

theorem waiting_advance {l m : EventLoop F T} {f : F} (h : l.advance = some m)
    (hf : f ∈ m.waiting) : f ∈ l.waiting := by
  rw [advance] at h
  rw [waiting] at hf ⊢
  cases hp : l.phase with
  | outside =>
    rw [hp] at h
    cases h
  | test =>
    rw [hp] at h
    obtain rfl := Option.some.inj h
    cases hq : l.quit_ with
    | true =>
      simp only [hq, if_true] at hf
      exact hf
    | false =>
      simp only [hq, Bool.false_eq_true, if_false] at hf
      exact hf
  | poll =>
    rw [hp] at h
    cases h
  | handling as =>
    rw [hp] at h
    cases as with
    | nil =>
      obtain rfl := Option.some.inj h
      exact hf
    | cons active as =>
      cases active with
      | wakeup =>
        obtain rfl := Option.some.inj h
        exact hf
      | other =>
        obtain rfl := Option.some.inj h
        exact hf
  | handler as =>
    rw [hp] at h
    obtain rfl := Option.some.inj h
    exact hf
  | swap =>
    rw [hp] at h
    obtain rfl := Option.some.inj h
    simpa [Phase.batch] using hf
  | calling fs =>
    rw [hp] at h
    cases fs with
    | nil =>
      obtain rfl := Option.some.inj h
      exact hf
    | cons g fs =>
      obtain rfl := Option.some.inj h
      exact List.mem_cons_of_mem g hf
  | functor fs =>
    rw [hp] at h
    obtain rfl := Option.some.inj h
    exact hf

/-- Only `queueInLoop` makes a functor wait. -/
theorem waiting_step [DecidableEq T] {l m : EventLoop F T} {a : LoopAction F T} {f : F}
    (h : l.step a = some m) (hf : f ∈ m.waiting) : f ∈ l.waiting ∨ ∃ who, a = .push who f := by
  cases a with
  | push who cb =>
    simp only [step] at h
    split_ifs at h with hidle
    obtain rfl := Option.some.inj h
    have hmem : f ∈ l.waiting ++ [cb] := by
      rw [waiting, List.append_assoc]
      exact hf
    rcases List.mem_append.mp hmem with hmem | hmem
    · exact Or.inl hmem
    · rw [List.mem_singleton.mp hmem]
      exact Or.inr ⟨who, rfl⟩
  | wake who =>
    left
    cases hc : l.caller who with
    | idle => simp [step, hc] at h
    | queued =>
      obtain rfl : l.wakeIfNeeded who = m := by simpa [step, hc] using h
      rw [wakeIfNeeded] at hf
      split_ifs at hf with hneeded
      · exact hf
      · exact hf
    | quitting =>
      obtain rfl : (l.setCaller who .idle).wakeup = m := by simpa [step, hc] using h
      exact hf
  | quit who =>
    left
    simp only [step] at h
    split_ifs at h with hidle
    obtain rfl := Option.some.inj h
    rw [quit] at hf
    split_ifs at hf with hloop
    · exact hf
    · exact hf
  | loop =>
    left
    cases hp : l.phase with
    | outside =>
      obtain rfl : { l with phase := .test, quit_ := false } = m := by simpa [step, hp] using h
      rw [waiting, hp]
      exact hf
    | _ => simp [step, hp] at h
  | poll as =>
    left
    cases hp : l.phase with
    | poll =>
      obtain rfl : { l with phase := .handling as } = m := by simpa [step, hp] using h
      rw [waiting, hp]
      exact hf
    | _ => simp [step, hp] at h
  | next =>
    left
    simp only [step] at h
    split_ifs at h with hidle
    exact waiting_advance h hf

end EventLoop

namespace Sending

variable {S T : Type}

section Definitions

variable [DecidableEq S] [DecidableEq T]

def init : Sending S T where
  loop := .init
  connected := true
  storage := fun _ => none
  fresh := 0
  strings := fun _ => none
  buffers := fun _ => .new Buffer.kInitialSize
  given := []

/-- New storage for a string: its bytes, the terminating 0 and what room there is behind it. -/
def allocate (s : Sending S T) (x : S) (bytes spare : List Byte) : Sending S T :=
  { s with
    storage := Function.update s.storage s.fresh (some (bytes ++ 0 :: spare))
    fresh := s.fresh + 1
    strings := Function.update s.strings x (some (s.fresh, bytes.length)) }

def free (s : Sending S T) (x : S) (block : Nat) : Sending S T :=
  { s with
    storage := Function.update s.storage block none
    strings := Function.update s.strings x none }

/-- The storage after bytes and a terminating 0 are written at its front. -/
def overwritten (bytes old : List Byte) : List Byte := bytes ++ 0 :: old.drop (bytes.length + 1)

def overwrite (s : Sending S T) (x : S) (block : Nat) (bytes old : List Byte) : Sending S T :=
  { s with
    storage := Function.update s.storage block (some (overwritten bytes old))
    strings := Function.update s.strings x (some (block, bytes.length)) }

/-- New bytes go to the storage that is there if they fit and it need not move. -/
def assign (s : Sending S T) (x : S) (bytes spare : List Byte) (moves : Bool) :
    Option (Sending S T) := do
  let (block, _) ← s.strings x
  let old ← s.storage block
  if moves ∨ old.length ≤ bytes.length then some ((s.free x block).allocate x bytes spare)
  else some (s.overwrite x block bytes old)

def sendInLoop (s : Sending S T) (data : Data) (value : List Byte) : Sending S T :=
  { s with given := s.given ++ [(data.read s.storage, value)] }

/-- The loop's own thread calls `sendInLoop` itself, from code of the user; any other thread
queues a functor, as `runInLoop` does. -/
def transmit (s : Sending S T) (who : Option T) (data : Data) (value : List Byte) :
    Option (Sending S T) :=
  if EventLoop.isInLoopThread who then
    if s.loop.phase.inUserCode then some (s.sendInLoop data value) else none
  else (s.loop.step (.push who (.sendInLoop data value))).map fun l => { s with loop := l }

def send (s : Sending S T) (who : Option T) (x : S) : Option (Sending S T) := do
  let (block, size) ← s.strings x
  let old ← s.storage block
  if s.connected then s.transmit who (.pointer block size) (old.take size) else some s

def sendBuffer (s : Sending S T) (who : Option T) (y : S) : Option (Sending S T) :=
  if s.connected then
    (s.transmit who (.message (s.buffers y).content) (s.buffers y).content).map fun t =>
      { t with buffers := Function.update t.buffers y (t.buffers y).retrieveAll }
  else some s

/-- The calls of `sendInLoop` that a step of the loop makes. -/
def started (s : Sending S T) : LoopAction SendFunctor T → List (Option (List Byte) × List Byte)
  | .next =>
    match s.loop.phase with
    | .calling (.sendInLoop data value :: _) => [(data.read s.storage, value)]
    | _ => []
  | _ => []

/-- A functor of `send` is queued by `send` only. -/
def loopStep (s : Sending S T) (a : LoopAction SendFunctor T) : Option (Sending S T) :=
  match a with
  | .push _ (.sendInLoop _ _) => none
  | a => (s.loop.step a).map fun l => { s with loop := l, given := s.given ++ s.started a }

def step (s : Sending S T) : SendAction S T → Option (Sending S T)
  | .construct x bytes spare => if s.strings x = none then some (s.allocate x bytes spare) else none
  | .assign x bytes spare moves => s.assign x bytes spare moves
  | .destroy x => (s.strings x).map fun (block, _) => s.free x block
  | .fill y bytes => some { s with buffers := Function.update s.buffers y ((s.buffers y).append bytes) }
  | .send who x => s.send who x
  | .sendBuffer who y => s.sendBuffer who y
  | .disconnect => some { s with connected := false }
  | .loop a => s.loopStep a

/-- Every call of `sendInLoop` was given what was to be sent, and every functor that waits would
be if it ran now. -/
structure Faithful (s : Sending S T) : Prop where
  given : ∀ g ∈ s.given, g.1 = some g.2
  waiting : ∀ data value, .sendInLoop data value ∈ s.loop.waiting → data.read s.storage = some value

/-- A functor that waits points to the block. -/
def Pointed (s : Sending S T) (block len : Nat) : Prop :=
  len ≠ 0 ∧ ∃ value, .sendInLoop (.pointer block len) value ∈ s.loop.waiting

/-- The step leaves the bytes that functors point to: their storage is not freed, and what is
written over them is the same. -/
def Spares (s : Sending S T) : SendAction S T → Prop
  | .assign x bytes _ moves => ∀ block size old len, s.strings x = some (block, size) →
      s.storage block = some old → s.Pointed block len →
        moves = false ∧ bytes.length < old.length ∧ (overwritten bytes old).take len = old.take len
  | .destroy x => ∀ block size len, s.strings x = some (block, size) → ¬ s.Pointed block len
  | _ => True

/-- Strings have storage of their own. -/
structure Owned (s : Sending S T) : Prop where
  fresh : ∀ block, s.fresh ≤ block → s.storage block = none
  stored : ∀ x block size, s.strings x = some (block, size) →
    ∃ old, s.storage block = some old ∧ size < old.length
  apart : ∀ x y block size size', s.strings x = some (block, size) →
    s.strings y = some (block, size') → x = y

end Definitions

variable {s t : Sending S T} {x : S} {block size len : Nat} {bytes spare old : List Byte}

theorem owned_init : (init : Sending S T).Owned where
  fresh := fun _ _ => rfl
  stored := fun _ _ _ h => absurd h (by simp [init])
  apart := fun _ _ _ _ _ h _ => absurd h (by simp [init])

theorem Owned.block_lt (h : s.Owned) (hx : s.strings x = some (block, size)) : block < s.fresh := by
  obtain ⟨old, hold, -⟩ := h.stored x block size hx
  by_contra hge
  rw [h.fresh block (by omega)] at hold
  cases hold

theorem Owned.of_frame (h : s.Owned)
    (hframe : t.storage = s.storage ∧ t.strings = s.strings ∧ t.fresh = s.fresh) : t.Owned := by
  obtain ⟨hstorage, hstrings, hfresh⟩ := hframe
  refine ⟨?_, ?_, ?_⟩
  · rw [hstorage, hfresh]
    exact h.fresh
  · rw [hstorage, hstrings]
    exact h.stored
  · rw [hstrings]
    exact h.apart

/-- A step that neither calls `sendInLoop`, nor queues anything, nor touches storage. -/
theorem Faithful.of_frame (h : s.Faithful) (hloop : t.loop = s.loop) (hgiven : t.given = s.given)
    (hstorage : t.storage = s.storage) : t.Faithful := by
  refine ⟨?_, ?_⟩
  · rw [hgiven]
    exact h.given
  · rw [hloop, hstorage]
    exact h.waiting

theorem Faithful.sendInLoop (h : s.Faithful) {data : Data} {value : List Byte}
    (hread : data.read s.storage = some value) : (s.sendInLoop data value).Faithful := by
  refine ⟨?_, h.waiting⟩
  intro g hg
  rcases List.mem_append.mp hg with hg | hg
  · exact h.given g hg
  · rw [List.mem_singleton.mp hg]
    exact hread

theorem Faithful.started (h : s.Faithful) (a : LoopAction SendFunctor T) :
    ∀ g ∈ s.started a, g.1 = some g.2 := by
  intro g hg
  cases a with
  | next =>
    rw [Sending.started] at hg
    split at hg
    · rename_i data value fs hphase
      rw [List.mem_singleton.mp hg]
      apply h.waiting
      rw [EventLoop.waiting, hphase]
      exact List.mem_append_left _ List.mem_cons_self
    · exact absurd hg List.not_mem_nil
  | _ => exact absurd hg List.not_mem_nil

section Strings

variable [DecidableEq S]

@[simp] theorem allocate_storage (s : Sending S T) (x : S) (bytes spare : List Byte) :
    (s.allocate x bytes spare).storage =
      Function.update s.storage s.fresh (some (bytes ++ 0 :: spare)) := rfl

@[simp] theorem free_storage (s : Sending S T) (x : S) (block : Nat) :
    (s.free x block).storage = Function.update s.storage block none := rfl

@[simp] theorem overwrite_storage (s : Sending S T) (x : S) (block : Nat) (bytes old : List Byte) :
    (s.overwrite x block bytes old).storage =
      Function.update s.storage block (some (overwritten bytes old)) := rfl

theorem Owned.allocate (h : s.Owned) (x : S) (bytes spare : List Byte) :
    (s.allocate x bytes spare).Owned := by
  refine ⟨?_, ?_, ?_⟩
  · intro block hblock
    have hlt : s.fresh + 1 ≤ block := hblock
    simp only [Sending.allocate]
    rw [Function.update_of_ne (by omega)]
    exact h.fresh block (by omega)
  · intro y block size hy
    simp only [Sending.allocate] at hy ⊢
    by_cases hxy : y = x
    · rw [hxy, Function.update_self] at hy
      obtain ⟨rfl, rfl⟩ := Prod.mk.inj (Option.some.inj hy)
      exact ⟨_, Function.update_self .., by simp⟩
    · rw [Function.update_of_ne hxy] at hy
      rw [Function.update_of_ne (Nat.ne_of_lt (h.block_lt hy))]
      exact h.stored y block size hy
  · intro y z block size size' hy hz
    simp only [Sending.allocate] at hy hz
    by_cases hyx : y = x
    · by_cases hzx : z = x
      · rw [hyx, hzx]
      · rw [hyx, Function.update_self] at hy
        rw [Function.update_of_ne hzx] at hz
        have hlt := h.block_lt hz
        have hfresh := (Prod.mk.inj (Option.some.inj hy)).1
        omega
    · rw [Function.update_of_ne hyx] at hy
      by_cases hzx : z = x
      · rw [hzx, Function.update_self] at hz
        have hlt := h.block_lt hy
        have hfresh := (Prod.mk.inj (Option.some.inj hz)).1
        omega
      · rw [Function.update_of_ne hzx] at hz
        exact h.apart y z block size size' hy hz

theorem Faithful.allocate (h : s.Faithful) (howned : s.Owned) (x : S) (bytes spare : List Byte) :
    (s.allocate x bytes spare).Faithful :=
  ⟨h.given, fun data value hmem =>
    Data.read_fresh (howned.fresh s.fresh le_rfl) (h.waiting data value hmem) _⟩

theorem Owned.free (h : s.Owned) (hx : s.strings x = some (block, size)) :
    (s.free x block).Owned := by
  have hother : ∀ y b n, Function.update s.strings x none y = some (b, n) →
      y ≠ x ∧ s.strings y = some (b, n) := by
    intro y b n hy
    by_cases hyx : y = x
    · rw [hyx, Function.update_self] at hy
      cases hy
    · rw [Function.update_of_ne hyx] at hy
      exact ⟨hyx, hy⟩
  refine ⟨?_, ?_, ?_⟩
  · intro b hb
    simp only [Sending.free]
    by_cases hbb : b = block
    · rw [hbb, Function.update_self]
    · rw [Function.update_of_ne hbb]
      exact h.fresh b hb
  · intro y b n hy
    obtain ⟨hyx, hy'⟩ := hother y b n hy
    simp only [Sending.free]
    have hbb : b ≠ block := by
      rintro rfl
      exact hyx (h.apart y x b n size hy' hx)
    rw [Function.update_of_ne hbb]
    exact h.stored y b n hy'
  · intro y z b n n' hy hz
    exact h.apart y z b n n' (hother y b n hy).2 (hother z b n' hz).2

theorem Owned.overwrite (h : s.Owned) (hx : s.strings x = some (block, size))
    (bytes old : List Byte) : (s.overwrite x block bytes old).Owned := by
  refine ⟨?_, ?_, ?_⟩
  · intro b hb
    have hlt := h.block_lt hx
    have hge : s.fresh ≤ b := hb
    simp only [Sending.overwrite]
    rw [Function.update_of_ne (by omega)]
    exact h.fresh b hge
  · intro y b n hy
    simp only [Sending.overwrite] at hy ⊢
    by_cases hyx : y = x
    · rw [hyx, Function.update_self] at hy
      obtain ⟨rfl, rfl⟩ := Prod.mk.inj (Option.some.inj hy)
      exact ⟨_, Function.update_self .., by simp [overwritten]⟩
    · rw [Function.update_of_ne hyx] at hy
      have hbb : b ≠ block := by
        rintro rfl
        exact hyx (h.apart y x b n size hy hx)
      rw [Function.update_of_ne hbb]
      exact h.stored y b n hy
  · intro y z b n n' hy hz
    have hold : ∀ w m, (s.overwrite x block bytes old).strings w = some (b, m) →
        ∃ m', s.strings w = some (b, m') := by
      intro w m hw
      simp only [Sending.overwrite] at hw
      by_cases hwx : w = x
      · rw [hwx, Function.update_self] at hw
        obtain ⟨rfl, -⟩ := Prod.mk.inj (Option.some.inj hw)
        exact ⟨size, hwx ▸ hx⟩
      · rw [Function.update_of_ne hwx] at hw
        exact ⟨m, hw⟩
    obtain ⟨m, hm⟩ := hold y n hy
    obtain ⟨m', hm'⟩ := hold z n' hz
    exact h.apart y z b m m' hm hm'

/-- What an assignment does: in place, or to new storage. -/
theorem assign_cases {moves : Bool} (h : s.assign x bytes spare moves = some t) :
    ∃ block size old, s.strings x = some (block, size) ∧ s.storage block = some old ∧
      ((moves = false ∧ bytes.length < old.length ∧ t = s.overwrite x block bytes old) ∨
        (¬ (moves = false ∧ bytes.length < old.length) ∧
          t = (s.free x block).allocate x bytes spare)) := by
  rw [assign] at h
  obtain ⟨⟨block, size⟩, hx, h⟩ := Option.bind_eq_some_iff.mp h
  obtain ⟨old, hold, h⟩ := Option.bind_eq_some_iff.mp h
  refine ⟨block, size, old, hx, hold, ?_⟩
  split_ifs at h with hmoves
  · right
    refine ⟨?_, (Option.some.inj h).symm⟩
    rintro ⟨hstay, hfits⟩
    rcases hmoves with hmoves | hmoves
    · rw [hstay] at hmoves
      cases hmoves
    · omega
  · left
    obtain ⟨hstay, hfits⟩ := not_or.mp hmoves
    exact ⟨by simpa using hstay, by omega, (Option.some.inj h).symm⟩

/-- An assignment in place is right if it writes the bytes that are there already. -/
theorem overwrite_faithful_iff (h : s.Faithful) (hold : s.storage block = some old) (x : S)
    (bytes : List Byte) : (s.overwrite x block bytes old).Faithful ↔
      ∀ len, s.Pointed block len → (overwritten bytes old).take len = old.take len := by
  constructor
  · rintro hnew len ⟨hlen, value, hmem⟩
    have hbefore := h.waiting _ _ hmem
    have hafter := hnew.waiting _ _ hmem
    rw [Data.read_pointer hlen, hold] at hbefore
    rw [Data.read_pointer hlen, overwrite_storage, Function.update_self] at hafter
    exact Option.some.inj (hafter.trans hbefore.symm)
  · intro hsame
    refine ⟨h.given, ?_⟩
    intro data value hmem
    have hbefore := h.waiting data value hmem
    rw [overwrite_storage]
    by_cases hdata : ∃ len, data = .pointer block len ∧ len ≠ 0
    · obtain ⟨len, rfl, hlen⟩ := hdata
      rw [Data.read_pointer hlen, hold] at hbefore
      rw [Data.read_pointer hlen, Function.update_self, Option.map_some, hsame len ⟨hlen, value, hmem⟩]
      exact hbefore
    · rw [Data.read_update fun len hd => by_contra fun hlen => hdata ⟨len, hd, hlen⟩]
      exact hbefore

/-- Storage may be freed if no functor that waits points to it. -/
theorem free_faithful_iff (h : s.Faithful) (x : S) (block : Nat) :
    (s.free x block).Faithful ↔ ∀ len, ¬ s.Pointed block len := by
  constructor
  · rintro hnew len ⟨hlen, value, hmem⟩
    have hafter := hnew.waiting _ _ hmem
    rw [Data.read_pointer hlen, free_storage, Function.update_self] at hafter
    cases hafter
  · intro hnone
    refine ⟨h.given, ?_⟩
    intro data value hmem
    rw [free_storage, Data.read_update]
    · exact h.waiting data value hmem
    · rintro len rfl
      by_contra hlen
      exact hnone len ⟨hlen, value, hmem⟩

theorem move_faithful_iff (h : s.Faithful) (howned : s.Owned)
    (hx : s.strings x = some (block, size)) (bytes spare : List Byte) :
    ((s.free x block).allocate x bytes spare).Faithful ↔ ∀ len, ¬ s.Pointed block len := by
  constructor
  · rintro hnew len ⟨hlen, value, hmem⟩
    have hafter := hnew.waiting _ _ hmem
    have hne : block ≠ (s.free x block).fresh := Nat.ne_of_lt (howned.block_lt hx)
    rw [Data.read_pointer hlen, allocate_storage, free_storage, Function.update_of_ne hne,
      Function.update_self] at hafter
    cases hafter
  · intro hnone
    exact ((free_faithful_iff h x block).mpr hnone).allocate (howned.free hx) x bytes spare

end Strings

section Loop

variable [DecidableEq T]

/-- A transmission leaves the strings and their storage. -/
theorem transmit_frame {who : Option T} {data : Data} {value : List Byte}
    (h : s.transmit who data value = some t) :
    t.storage = s.storage ∧ t.strings = s.strings ∧ t.fresh = s.fresh := by
  rw [transmit] at h
  split_ifs at h with hloop huser
  · obtain rfl := Option.some.inj h
    exact ⟨rfl, rfl, rfl⟩
  · obtain ⟨l, -, rfl⟩ := Option.map_eq_some_iff.mp h
    exact ⟨rfl, rfl, rfl⟩

theorem loopStep_cases {a : LoopAction SendFunctor T} (h : s.loopStep a = some t) :
    ∃ l, (s.loop.step a = some l ∧ ∀ who data value, a ≠ .push who (.sendInLoop data value)) ∧
      t = { s with loop := l, given := s.given ++ s.started a } := by
  rw [loopStep.eq_def] at h
  split at h
  · cases h
  · rename_i hnot
    obtain ⟨l, hl, rfl⟩ := Option.map_eq_some_iff.mp h
    exact ⟨l, ⟨hl, hnot⟩, rfl⟩

theorem Faithful.transmit (h : s.Faithful) {who : Option T} {data : Data} {value : List Byte}
    (hread : data.read s.storage = some value) (ht : s.transmit who data value = some t) :
    t.Faithful := by
  rw [Sending.transmit] at ht
  split_ifs at ht with hloop huser
  · obtain rfl := Option.some.inj ht
    exact h.sendInLoop hread
  · obtain ⟨l, hl, rfl⟩ := Option.map_eq_some_iff.mp ht
    refine ⟨h.given, ?_⟩
    intro data' value' hmem
    rcases EventLoop.waiting_step hl hmem with hmem | ⟨who', hpush⟩
    · exact h.waiting data' value' hmem
    · injection hpush with _ hfunctor
      injection hfunctor with hdata hvalue
      rw [← hdata, ← hvalue]
      exact hread

theorem Faithful.loopStep (h : s.Faithful) {a : LoopAction SendFunctor T}
    (ht : s.loopStep a = some t) : t.Faithful := by
  obtain ⟨l, ⟨hl, hnot⟩, rfl⟩ := loopStep_cases ht
  refine ⟨?_, ?_⟩
  · intro g hg
    rcases List.mem_append.mp hg with hg | hg
    · exact h.given g hg
    · exact h.started a g hg
  · intro data value hmem
    rcases EventLoop.waiting_step hl hmem with hmem | ⟨who, hpush⟩
    · exact h.waiting data value hmem
    · exact absurd hpush (hnot who data value)

end Loop

variable [DecidableEq S] [DecidableEq T]

theorem Owned.step {a : SendAction S T} (h : s.Owned) (ht : s.step a = some t) : t.Owned := by
  cases a with
  | construct x bytes spare =>
    simp only [Sending.step] at ht
    split_ifs at ht with hx
    obtain rfl := Option.some.inj ht
    exact h.allocate x bytes spare
  | assign x bytes spare moves =>
    obtain ⟨block, size, old, hx, -, ⟨-, -, rfl⟩ | ⟨-, rfl⟩⟩ := assign_cases ht
    · exact h.overwrite hx bytes old
    · exact (h.free hx).allocate x bytes spare
  | destroy x =>
    obtain ⟨⟨block, size⟩, hx, rfl⟩ := Option.map_eq_some_iff.mp ht
    exact h.free hx
  | fill y bytes =>
    obtain rfl := Option.some.inj ht
    exact h.of_frame ⟨rfl, rfl, rfl⟩
  | send who x =>
    obtain ⟨⟨block, size⟩, -, ht⟩ := Option.bind_eq_some_iff.mp ht
    obtain ⟨old, -, ht⟩ := Option.bind_eq_some_iff.mp ht
    split_ifs at ht with hconnected
    · exact h.of_frame (transmit_frame ht)
    · obtain rfl := Option.some.inj ht
      exact h
  | sendBuffer who y =>
    simp only [Sending.step, sendBuffer] at ht
    split_ifs at ht with hconnected
    · obtain ⟨u, hu, rfl⟩ := Option.map_eq_some_iff.mp ht
      have hframe := transmit_frame hu
      exact h.of_frame ⟨hframe.1, hframe.2.1, hframe.2.2⟩
    · obtain rfl := Option.some.inj ht
      exact h
  | disconnect =>
    obtain rfl := Option.some.inj ht
    exact h.of_frame ⟨rfl, rfl, rfl⟩
  | loop a =>
    obtain ⟨l, -, rfl⟩ := loopStep_cases ht
    exact h.of_frame ⟨rfl, rfl, rfl⟩

/-- A step keeps what is sent exactly when it spares the bytes that functors point to. -/
theorem faithful_step_iff {a : SendAction S T} (howned : s.Owned) (h : s.Faithful)
    (ht : s.step a = some t) : t.Faithful ↔ s.Spares a := by
  cases a with
  | construct x bytes spare =>
    simp only [step] at ht
    split_ifs at ht with hx
    obtain rfl := Option.some.inj ht
    exact iff_of_true (h.allocate howned x bytes spare) trivial
  | assign x bytes spare moves =>
    obtain ⟨block, size, old, hx, hold, hcase⟩ := assign_cases ht
    have hspares : s.Spares (.assign x bytes spare moves) ↔ ∀ len, s.Pointed block len →
        moves = false ∧ bytes.length < old.length ∧
          (overwritten bytes old).take len = old.take len := by
      constructor
      · intro hs len hlen
        exact hs block size old len hx hold hlen
      · intro hs block' size' old' len hx' hold' hlen
        obtain ⟨rfl, rfl⟩ := Prod.mk.inj (Option.some.inj (hx.symm.trans hx'))
        obtain rfl := Option.some.inj (hold.symm.trans hold')
        exact hs len hlen
    rw [hspares]
    rcases hcase with ⟨hstay, hfits, rfl⟩ | ⟨hmoves, rfl⟩
    · rw [overwrite_faithful_iff h hold]
      simp only [hstay, hfits, true_and]
    · rw [move_faithful_iff h howned hx]
      constructor
      · intro hnone len hlen
        exact absurd hlen (hnone len)
      · intro hs len hlen
        exact hmoves ⟨(hs len hlen).1, (hs len hlen).2.1⟩
  | destroy x =>
    obtain ⟨⟨block, size⟩, hx, rfl⟩ := Option.map_eq_some_iff.mp ht
    rw [free_faithful_iff h]
    constructor
    · intro hnone block' size' len hx'
      obtain ⟨rfl, -⟩ := Prod.mk.inj (Option.some.inj (hx.symm.trans hx'))
      exact hnone len
    · intro hs len
      exact hs block size len hx
  | fill y bytes =>
    obtain rfl := Option.some.inj ht
    exact iff_of_true (h.of_frame rfl rfl rfl) trivial
  | send who x =>
    apply iff_of_true _ trivial
    obtain ⟨⟨block, size⟩, hx, ht⟩ := Option.bind_eq_some_iff.mp ht
    obtain ⟨old, hold, ht⟩ := Option.bind_eq_some_iff.mp ht
    split_ifs at ht with hconnected
    · apply h.transmit _ ht
      rw [Data.read, hold]
      split_ifs with hsize
      · rw [hsize, List.take_zero]
      · rfl
    · obtain rfl := Option.some.inj ht
      exact h
  | sendBuffer who y =>
    apply iff_of_true _ trivial
    simp only [step, sendBuffer] at ht
    split_ifs at ht with hconnected
    · obtain ⟨u, hu, rfl⟩ := Option.map_eq_some_iff.mp ht
      exact (h.transmit rfl hu).of_frame rfl rfl rfl
    · obtain rfl := Option.some.inj ht
      exact h
  | disconnect =>
    obtain rfl := Option.some.inj ht
    exact iff_of_true (h.of_frame rfl rfl rfl) trivial
  | loop a => exact iff_of_true (h.loopStep ht) trivial

/-- Along every interleaving, `sendInLoop` is given what was to be sent, now and when the functors
that wait are run, exactly when every step spares the bytes that functors point to. -/
theorem faithful_iff_spares (as : List (SendAction S T)) :
    Always step Faithful init as ↔ Each step Spares init as := by
  apply always_iff_each (I := Owned)
  · intro s a t howned _ ht _
    exact howned.step ht
  · intro s a t howned h ht
    exact faithful_step_iff howned h ht
  · exact owned_init
  · refine ⟨?_, ?_⟩
    · intro g hg
      exact absurd hg List.not_mem_nil
    · intro data value hmem
      exact absurd hmem List.not_mem_nil

/-- A user sends a string and then assigns another text to it, before the loop runs. -/
def reused : List (SendAction Unit Unit) :=
  [.loop .loop, .construct () [97, 98, 99] [], .send (some ()) (), .assign () [120, 121, 122] [] false,
    .loop .next, .loop (.poll []), .loop .next, .loop .next, .loop .next]

/-- The text `abc` was sent, and `sendInLoop` is given `xyz`. -/
theorem reused_not_faithful : (run step init reused).map given =
      some [(some [120, 121, 122], [97, 98, 99])] ∧
    ¬ ∀ as : List (SendAction Unit Unit), Always step (fun s => ∀ g ∈ s.given, g.1 = some g.2)
      init as := by
  have hrun : (run step init reused).map given = some [(some [120, 121, 122], [97, 98, 99])] := by
    decide +kernel
  refine ⟨hrun, ?_⟩
  intro h
  obtain ⟨t, ht, hgiven⟩ := Option.map_eq_some_iff.mp hrun
  have hright := (h reused).last ht
  rw [hgiven] at hright
  exact absurd (hright _ List.mem_cons_self) (by decide)

end Sending

end Mymuduo.Net
