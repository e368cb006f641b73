import Mymuduo.Memory.Pool
import Mymuduo.Memory.Sbrk

namespace Mymuduo.Memory

/-- `sizeof(FreeList)`: the head and two counters. -/
def sizeofFreeList : Nat := 24

def sizeofThreadCache : Nat := NFREELIST * sizeofFreeList

/-- Where a thread is in `TcPool.New()`: before the statement named. Nothing is given back to
`TcPool`, so that its `_freeList` stays null. -/
inductive NewStep where
  | check
  | refill
  | sbrk
  | take
  | shrink (obj : Nat)
  | advance (obj : Nat)
  | construct (obj : Nat)
  deriving DecidableEq

/-- How many statements are left, at most. -/
def NewStep.rank : NewStep → Nat
  | check => 7
  | refill => 6
  | sbrk => 5
  | take => 4
  | shrink _ => 3
  | advance _ => 2
  | construct _ => 1

/-- The static `objectPool<ThreadCache>` of `ConcurrentAlloc`, which no lock guards, with the
threads that are in its `New`. `chunks` is the memory it got, and `built` the addresses at which
its constructor has run. -/
structure TcPool (T : Type) where
  _memory : Nat
  remainBytes : Nat
  chunks : List Block
  inNew : T → Option NewStep
  tls_threadcache : T → Option Nat
  built : List Nat

namespace TcPool

variable {T : Type}

def init : TcPool T := ⟨0, 0, [], fun _ => none, fun _ => none, []⟩

/-- The `n` bytes from `m` on have none of a thread cache. -/
def Clear (s : TcPool T) (m n : Nat) : Prop :=
  ∀ a ∈ s.built, a + sizeofThreadCache ≤ m ∨ m + n ≤ a

/-- The `n` bytes from `m` on are memory of the pool that no thread cache is in. -/
def Spare (s : TcPool T) (m n : Nat) : Prop :=
  (∃ b ∈ s.chunks, b.addr ≤ m ∧ m + n ≤ b.stop) ∧ s.Clear m n

instance (s : TcPool T) (m n : Nat) : Decidable (s.Clear m n) :=
  inferInstanceAs (Decidable (∀ _ ∈ _, _))

instance (s : TcPool T) (m n : Nat) : Decidable (s.Spare m n) :=
  inferInstanceAs (Decidable (_ ∧ _))

/-- The chunk that `sbrk` gives from page `base` on. -/
def chunk (s : TcPool T) (base : Nat) : Block :=
  ⟨.chunk, base <<< PAGE_SHIFT, (s.remainBytes >>> 13) <<< 13⟩

/-- `sbrk` gives memory in which no thread cache is. -/
def SbrkFresh (s : TcPool T) (base : Nat) : Prop :=
  s.Clear (s.chunk base).addr (s.chunk base).bytes

instance (s : TcPool T) (base : Nat) : Decidable (s.SbrkFresh base) :=
  inferInstanceAs (Decidable (s.Clear _ _))

variable [DecidableEq T]

def moveTo (s : TcPool T) (t : T) (p : NewStep) : TcPool T :=
  { s with inNew := Function.update s.inNew t (some p) }

/-- The next statement of `New`; `none` says that the constructor runs over another thread's cache
or on memory that the pool does not have. -/
def next (s : TcPool T) (t : T) (base : Nat) : NewStep → Option (TcPool T)
  | .check => some (s.moveTo t (if s.remainBytes < sizeofThreadCache then .refill else .take))
  | .refill => some { s.moveTo t .sbrk with remainBytes := 128 * 1024 }
  | .sbrk =>
    some { s.moveTo t .take with
      _memory := (s.chunk base).addr
      chunks := s.chunk base :: s.chunks }
  | .take => some (s.moveTo t (.shrink s._memory))
  | .shrink obj =>
    some { s.moveTo t (.advance obj) with
      remainBytes := (s.remainBytes + (2 ^ 64 - sizeofThreadCache)) % 2 ^ 64 }
  | .advance obj =>
    some { s.moveTo t (.construct obj) with _memory := s._memory + sizeofThreadCache }
  | .construct obj =>
    if s.Spare obj sizeofThreadCache then
      some { s with
        inNew := Function.update s.inNew t none
        tls_threadcache := Function.update s.tls_threadcache t (some obj)
        built := obj :: s.built }
    else none

/-- What a thread finds before its next statement if it is in `New` alone. -/
def At (s : TcPool T) : NewStep → Prop
  | .check => s.remainBytes ≠ 0 → s.Spare s._memory s.remainBytes
  | .refill => True
  | .sbrk => s.remainBytes = 128 * 1024
  | .take => sizeofThreadCache ≤ s.remainBytes ∧ s.Spare s._memory s.remainBytes
  | .shrink obj =>
    obj = s._memory ∧ sizeofThreadCache ≤ s.remainBytes ∧ s.Spare s._memory s.remainBytes
  | .advance obj => obj = s._memory ∧ s.Spare s._memory (sizeofThreadCache + s.remainBytes)
  | .construct obj =>
    s._memory = obj + sizeofThreadCache ∧ s.Spare obj (sizeofThreadCache + s.remainBytes)

/-- What holds as long as no thread enters `New` while another one is in it. -/
structure Inv (s : TcPool T) : Prop where
  alone : ∀ t u, s.inNew t ≠ none → s.inNew u ≠ none → t = u
  small : s.remainBytes ≤ 128 * 1024
  inside : ∀ t p, s.inNew t = some p → s.At p
  outside : (∀ t, s.inNew t = none) → s.At .check
  listed : ∀ t a, s.tls_threadcache t = some a → a ∈ s.built
  own : ∀ t u a b, s.tls_threadcache t = some a → s.tls_threadcache u = some b → t ≠ u →
    a + sizeofThreadCache ≤ b ∨ b + sizeofThreadCache ≤ a

variable {s s' : TcPool T} {t : T} {p q : NewStep} {base m n : Nat}

omit [DecidableEq T] in
theorem Spare.part (h : s.Spare m n) {m' n' : Nat} (hm : m ≤ m') (hn : m' + n' ≤ m + n) :
    s.Spare m' n' := by
  obtain ⟨⟨b, hb, hlow, hhigh⟩, hclear⟩ := h
  refine ⟨⟨b, hb, hlow.trans hm, hn.trans hhigh⟩, ?_⟩
  intro a ha
  rcases hclear a ha with hbelow | habove
  · exact Or.inl (hbelow.trans hm)
  · exact Or.inr (hn.trans habove)

omit [DecidableEq T] in
theorem Spare.congr (h : s.Spare m n) (hchunks : s'.chunks = s.chunks)
    (hbuilt : s'.built = s.built) : s'.Spare m n := by
  rw [Spare, Clear, hchunks, hbuilt]
  exact h

omit [DecidableEq T] in
theorem inv_init : Inv (init : TcPool T) := by
  constructor
  · intro t u ht
    exact absurd rfl ht
  · exact Nat.zero_le _
  · intro t p hp
    cases hp
  · intro _ hne
    exact absurd rfl hne
  · intro t a ha
    cases ha
  · intro t u a b ha
    cases ha

/-- A thread enters `New` while nobody is in it. -/
theorem Inv.enter (h : Inv s) (hnone : ∀ u, s.inNew u = none) (t : T) :
    Inv (s.moveTo t .check) := by
  have hother {u : T} (hu : u ≠ t) : (s.moveTo t .check).inNew u = none := by
    simp [moveTo, Function.update_of_ne hu, hnone u]
  refine ⟨?_, h.small, ?_, ?_, h.listed, h.own⟩
  · intro u v hu hv
    have hut : u = t := by
      by_contra hne
      exact hu (hother hne)
    have hvt : v = t := by
      by_contra hne
      exact hv (hother hne)
    rw [hut, hvt]
  · intro u p hp
    by_cases hu : u = t
    · subst hu
      have hcheck : NewStep.check = p := by simpa [moveTo] using hp
      subst hcheck
      exact h.outside hnone
    · rw [hother hu] at hp
      cases hp
  · intro hall
    have ht := hall t
    simp [moveTo] at ht

/-- The only thread in `New` comes to its next statement. -/
theorem Inv.goOn (h : Inv s) (hp : s.inNew t = some p)
    (hin : s'.inNew = Function.update s.inNew t (some q))
    (htls : s'.tls_threadcache = s.tls_threadcache) (hbuilt : s'.built = s.built)
    (hsmall : s'.remainBytes ≤ 128 * 1024) (hat : s'.At q) : Inv s' := by
  have hsame (u : T) : s'.inNew u ≠ none ↔ s.inNew u ≠ none := by
    rw [hin]
    by_cases hu : u = t
    · subst hu
      simp [hp]
    · rw [Function.update_of_ne hu]
  refine ⟨?_, hsmall, ?_, ?_, ?_, ?_⟩
  · intro u v hu hv
    exact h.alone u v ((hsame u).mp hu) ((hsame v).mp hv)
  · intro u r hr
    have hut : u = t := by
      apply h.alone
      · exact (hsame u).mp (by simp [hr])
      · simp [hp]
    rw [hin, hut, Function.update_self] at hr
    obtain rfl := Option.some.inj hr
    exact hat
  · intro hall
    have ht := hall t
    rw [hin, Function.update_self] at ht
    cases ht
  · rw [htls, hbuilt]
    exact h.listed
  · rw [htls]
    exact h.own

/-- A statement leaves the other threads where they are. -/
theorem next_other (h : s.next t base p = some s') {u : T} (hu : u ≠ t) :
    s'.inNew u = s.inNew u := by
  cases p with
  | construct obj =>
    rw [next] at h
    split_ifs at h
    obtain rfl := Option.some.inj h
    exact Function.update_of_ne hu _ _
  | _ =>
    obtain rfl := Option.some.inj h
    exact Function.update_of_ne hu _ _

/-- Behind the statement `p` the thread has fewer left, or it has its cache. -/
def Nearer (s : TcPool T) (t : T) (p : NewStep) : Prop :=
  (∃ q, s.inNew t = some q ∧ q.rank < p.rank) ∨
    s.inNew t = none ∧ (s.tls_threadcache t).isSome = true

theorem nearer_moveTo (hin : s'.inNew = Function.update s.inNew t (some q))
    (hrank : q.rank < p.rank) : s'.Nearer t p := by
  refine Or.inl ⟨q, ?_, hrank⟩
  rw [hin, Function.update_self]

omit [DecidableEq T] in
/-- A new chunk is all spare. -/
theorem spare_chunk (hfresh : s.SbrkFresh base) (hsize : s.remainBytes = 128 * 1024)
    (hchunks : s'.chunks = s.chunk base :: s.chunks) (hbuilt : s'.built = s.built) :
    s'.Spare (s.chunk base).addr s.remainBytes := by
  have hbytes : (s.chunk base).bytes = s.remainBytes := by
    simp only [chunk, hsize]
    decide
  refine ⟨⟨s.chunk base, by rw [hchunks]; exact List.mem_cons_self, le_rfl, ?_⟩, ?_⟩
  · rw [Block.stop, hbytes]
  · rw [SbrkFresh, hbytes] at hfresh
    rw [Clear, hbuilt]
    exact hfresh

/-- The cache of the only thread in `New` is built in memory of its own. -/
theorem Inv.construct (h : Inv s) {obj : Nat} (hp : s.inNew t = some (.construct obj))
    (hsize : s._memory = obj + sizeofThreadCache)
    (hspare : s.Spare obj (sizeofThreadCache + s.remainBytes)) :
    Inv { s with
      inNew := Function.update s.inNew t none
      tls_threadcache := Function.update s.tls_threadcache t (some obj)
      built := obj :: s.built } := by
  have hclear : ∀ a ∈ s.built, a + sizeofThreadCache ≤ obj ∨ obj + sizeofThreadCache ≤ a :=
    (hspare.part le_rfl (by omega)).2
  have hnone (u : T) : Function.update s.inNew t none u = none := by
    by_cases hu : u = t
    · rw [hu, Function.update_self]
    · rw [Function.update_of_ne hu]
      by_contra hin
      exact hu (h.alone u t hin (by simp [hp]))
  refine ⟨fun u _ hu => absurd (hnone u) hu, h.small, ?_, ?_, ?_, ?_⟩
  · intro u q hq
    exact absurd ((hnone u).symm.trans hq) (by simp)
  · intro _ _
    have hrest : s.Spare s._memory s.remainBytes := hspare.part (by omega) (by omega)
    refine ⟨hrest.1, ?_⟩
    intro a ha
    rcases List.mem_cons.mp ha with rfl | ha
    · exact Or.inl hsize.ge
    · exact hrest.2 a ha
  · intro u a ha
    by_cases hu : u = t
    · rw [hu] at ha
      obtain rfl : obj = a := by simpa using ha
      exact List.mem_cons_self
    · simp only [Function.update_of_ne hu] at ha
      exact List.mem_cons_of_mem _ (h.listed u a ha)
  · intro u v a b ha hb huv
    by_cases hu : u = t
    · have hv : v ≠ t := fun he => huv (hu.trans he.symm)
      rw [hu] at ha
      obtain rfl : obj = a := by simpa using ha
      simp only [Function.update_of_ne hv] at hb
      exact (hclear b (h.listed v b hb)).symm
    · simp only [Function.update_of_ne hu] at ha
      by_cases hv : v = t
      · rw [hv] at hb
        obtain rfl : obj = b := by simpa using hb
        exact hclear a (h.listed u a ha)
      · simp only [Function.update_of_ne hv] at hb
        exact h.own u v a b ha hb huv

/-- A thread that is in `New` alone goes on, and comes to a cache that nobody else has. -/
theorem Inv.next (h : Inv s) (hp : s.inNew t = some p) (hsbrk : p = .sbrk → s.SbrkFresh base) :
    ∃ s', s.next t base p = some s' ∧ Inv s' ∧ s'.Nearer t p := by
  have hat := h.inside t p hp
  cases p with
  | check =>
    by_cases hless : s.remainBytes < sizeofThreadCache
    · refine ⟨_, rfl, ?_, ?_⟩
      · rw [if_pos hless]
        exact h.goOn hp rfl rfl rfl h.small trivial
      · rw [if_pos hless]
        exact nearer_moveTo rfl (by decide)
    · have hsize : sizeofThreadCache ≤ s.remainBytes := Nat.le_of_not_lt hless
      have hne : s.remainBytes ≠ 0 := by
        intro hzero
        rw [hzero] at hsize
        exact absurd hsize (by decide)
      refine ⟨_, rfl, ?_, ?_⟩
      · rw [if_neg hless]
        exact h.goOn hp rfl rfl rfl h.small ⟨hsize, hat hne⟩
      · rw [if_neg hless]
        exact nearer_moveTo rfl (by decide)
  | refill =>
    exact ⟨_, rfl, h.goOn hp rfl rfl rfl le_rfl rfl, nearer_moveTo rfl (by decide)⟩
  | sbrk =>
    have hspare : Spare { s.moveTo t .take with
        _memory := (s.chunk base).addr
        chunks := s.chunk base :: s.chunks } (s.chunk base).addr s.remainBytes :=
      spare_chunk (hsbrk rfl) hat rfl rfl
    have hsize : sizeofThreadCache ≤ s.remainBytes := by
      rw [show s.remainBytes = 128 * 1024 from hat]
      decide
    exact ⟨_, rfl, h.goOn hp rfl rfl rfl h.small ⟨hsize, hspare⟩,
      nearer_moveTo rfl (by decide)⟩
  | take =>
    exact ⟨_, rfl, h.goOn hp rfl rfl rfl h.small ⟨rfl, hat⟩,
      nearer_moveTo rfl (by simp [NewStep.rank])⟩
  | shrink obj =>
    obtain ⟨hobj, hsize, hspare⟩ := hat
    have hsmall := h.small
    have hsub : (s.remainBytes + (2 ^ 64 - sizeofThreadCache)) % 2 ^ 64 =
        s.remainBytes - sizeofThreadCache := by
      omega
    have hkept : s.Spare s._memory (sizeofThreadCache + (s.remainBytes - sizeofThreadCache)) := by
      rw [Nat.add_sub_of_le hsize]
      exact hspare
    refine ⟨_, rfl, ?_, nearer_moveTo rfl (by simp [NewStep.rank])⟩
    rw [hsub]
    exact h.goOn hp rfl rfl rfl ((Nat.sub_le _ _).trans hsmall) ⟨hobj, hkept.congr rfl rfl⟩
  | advance obj =>
    obtain ⟨hobj, hspare⟩ := hat
    refine ⟨_, rfl, h.goOn hp rfl rfl rfl h.small ⟨by rw [hobj], ?_⟩,
      nearer_moveTo rfl (by simp [NewStep.rank])⟩
    rw [hobj]
    exact hspare
  | construct obj =>
    obtain ⟨hsize, hspare⟩ := hat
    have hroom : s.Spare obj sizeofThreadCache := hspare.part le_rfl (by omega)
    refine ⟨_, if_pos hroom, h.construct hp hsize hspare, Or.inr ⟨?_, ?_⟩⟩
    · exact Function.update_self _ _ _
    · simp

end TcPool

end Mymuduo.Memory
