import Mymuduo.Memory.RadixMap

namespace Mymuduo.Memory

open Lib

/-- The system refuses a call at some time. -/
def Sbrk.Refuses (os : Sbrk) : Prop :=
  ∃ call brk increment, os.reply call brk increment = none

namespace TCMalloc_PageMap3

variable {m : TCMalloc_PageMap3} {k k' : Nat}

theorem hasLeaf_congr (h : k / 2048 = k' / 2048) : m.HasLeaf k ↔ m.HasLeaf k' := by
  obtain ⟨h1, h2⟩ := split_of_eq h
  rw [HasLeaf, HasLeaf, leaf, leaf, h1, h2]

/-- `get` reads the leaf of a key, if it has one. -/
theorem get_eq (m : TCMalloc_PageMap3) (k : Nat) :
    m.get k = if k < 2 ^ 35 ∧ m.HasLeaf k then m.span (m.leaf k) (i3 k) else 0 := by
  rw [get]
  by_cases hk : k < 2 ^ 35
  · have hshift : ¬ k >>> BITS > 0 := by
      rw [shift_bits_pos]
      omega
    by_cases hroot : m.root_ (i1 k) = 0
    · rw [if_pos (Or.inr (Or.inl hroot)), if_neg fun h => h.2.1 hroot]
    · by_cases hleaf : m.leaf k = 0
      · rw [if_pos (Or.inr (Or.inr hleaf)), if_neg fun h => h.2.2 hleaf]
      · rw [if_neg (by simp only [hshift, hroot, hleaf, or_self, not_false_eq_true]),
          if_pos ⟨hk, hroot, hleaf⟩]
  · have hshift : k >>> BITS > 0 := by
      rw [shift_bits_pos]
      omega
    rw [if_pos (Or.inl hshift), if_neg fun h => hk h.1]

theorem shift_bits_eq_zero (hk : k < 2 ^ 35) : ¬ k >>> BITS ≠ 0 := by
  intro hne
  have := shift_bits_pos.mp (Nat.pos_of_ne_zero hne)
  omega

/-- The page map with a new entry in the leaf of `k`. -/
def withEntry (m : TCMalloc_PageMap3) (k s : Nat) : TCMalloc_PageMap3 :=
  { m with
    span := Function.update m.span (m.leaf k) (Function.update (m.span (m.leaf k)) (i3 k) s) }

theorem set_ok (hk : k < 2 ^ 35) (h : m.HasLeaf k) (s : Nat) : m.set k s = .ok (m.withEntry k s) := by
  rw [set, if_neg (shift_bits_eq_zero hk), if_pos h]
  rfl

theorem set_null (hk : k < 2 ^ 35) (h : ¬ m.HasLeaf k) (s : Nat) : m.set k s = .error .nullNode := by
  rw [set, if_neg (shift_bits_eq_zero hk), if_neg h]

theorem set_badKey (hk : 2 ^ 35 ≤ k) (s : Nat) : m.set k s = .error .badKey := by
  rw [set, if_pos (Nat.pos_iff_ne_zero.mp (shift_bits_pos.mpr hk))]

end TCMalloc_PageMap3

namespace MapHeap

/-- Every node and leaf lies in memory of its own below the break. -/
structure Grown (m : MapHeap) : Prop where
  node_lt : ∀ i, m.map.root_ i ≠ 0 → m.map.root_ i < m.seg.brk
  leaf_lt : ∀ i j, m.map.root_ i ≠ 0 → m.map.leafs (m.map.root_ i) j ≠ 0 →
    m.map.leafs (m.map.root_ i) j < m.seg.brk
  node_inj : ∀ i i', m.map.root_ i ≠ 0 → m.map.root_ i = m.map.root_ i' → i = i'
  leaf_inj : ∀ i j i' j', m.map.root_ i ≠ 0 → m.map.root_ i' ≠ 0 →
    m.map.leafs (m.map.root_ i) j ≠ 0 →
    m.map.leafs (m.map.root_ i) j = m.map.leafs (m.map.root_ i') j' → i = i' ∧ j = j'

/-- Distinct leaves lie at distinct addresses. -/
theorem Grown.leaf_ne {m : MapHeap} (h : m.Grown) {k k' : Nat} (hk : m.map.HasLeaf k)
    (hk' : m.map.HasLeaf k') (hne : k / 2048 ≠ k' / 2048) : m.map.leaf k ≠ m.map.leaf k' := by
  intro heq
  obtain ⟨h1, h2⟩ := h.leaf_inj _ _ _ _ hk.1 hk'.1 hk.2 heq
  exact hne (same_leaf h1 h2)

/-- The page map with a new node for the entry `i` of `root_`. -/
def withNode (m : MapHeap) (i ptr : Nat) : MapHeap where
  map := { m.map with
    root_ := Function.update m.map.root_ i ptr
    leafs := Function.update m.map.leafs ptr fun _ => 0
    bytes_used_ := m.map.bytes_used_ + sizeofNode }
  seg := m.seg.give .node ptr (sizeofNode * 8192 : Nat)

/-- The page map with a new leaf for `key`. -/
def withLeaf (m : MapHeap) (key ptr : Nat) : MapHeap where
  map := { m.map with
    leafs := Function.update m.map.leafs (m.map.root_ (i1 key))
      (Function.update (m.map.leafs (m.map.root_ (i1 key))) (i2 key) ptr)
    span := Function.update m.map.span ptr fun _ => 0
    bytes_used_ := m.map.bytes_used_ + sizeofLeaf }
  seg := m.seg.give .leaf ptr (sizeofLeaf * 8192 : Nat)

section New

variable (os : Sbrk) (key : Nat) (m : MapHeap)

theorem newNode_cases : (os.Refuses ∧ ∃ m', newNode os key m = .error .wildWrite m' ∧
    m'.seg = m.seg.refuse) ∨
    ∃ ptr, m.seg.brk ≤ ptr ∧ ptr ≠ 0 ∧ newNode os key m = .ok () (m.withNode (i1 key) ptr) := by
  have hsize := @Segment.toSigned_pages sizeofNode (by decide)
  rcases Segment.SystemAlloc_sbrk_cases os .node sizeofNode m.seg with ⟨hnone, hcall⟩ | hsome
  · refine Or.inl ⟨⟨_, _, _, hnone⟩, ?_⟩
    simp [newNode, bind, EStateM.bind, alloc, within, hcall, count, touch]
  · obtain ⟨ptr, -, hle, hzero, hfailed, hcall⟩ := hsome
    refine Or.inr ⟨ptr, hle, hzero, ?_⟩
    rw [hsize] at hcall
    simp [newNode, bind, EStateM.bind, alloc, within, hcall, count, touch, hfailed, putNode,
      withNode]

theorem newLeaf_cases : (os.Refuses ∧ ∃ m', newLeaf os key m = .error .wildWrite m' ∧
    m'.seg = m.seg.refuse) ∨
    ∃ ptr, m.seg.brk ≤ ptr ∧ ptr ≠ 0 ∧ newLeaf os key m = .ok () (m.withLeaf key ptr) := by
  have hsize := @Segment.toSigned_pages sizeofLeaf (by decide)
  rcases Segment.SystemAlloc_sbrk_cases os .leaf sizeofLeaf m.seg with ⟨hnone, hcall⟩ | hsome
  · refine Or.inl ⟨⟨_, _, _, hnone⟩, ?_⟩
    simp [newLeaf, bind, EStateM.bind, alloc, within, hcall, count, touch]
  · obtain ⟨ptr, -, hle, hzero, hfailed, hcall⟩ := hsome
    refine Or.inr ⟨ptr, hle, hzero, ?_⟩
    rw [hsize] at hcall
    simp [newLeaf, bind, EStateM.bind, alloc, within, hcall, count, touch, hfailed, putLeaf,
      withLeaf]

end New

/-- What making nodes and leaves changes: the leaves with the numbers in `S` exist, and the
bytes used are those requested, counted in pages. No entry changes. -/
structure Growth (m m' : MapHeap) (S : Nat → Prop) : Prop where
  get : ∀ k, m'.map.get k = m.map.get k
  leaf : ∀ k, m'.map.HasLeaf k ↔ m.map.HasLeaf k ∨ S (k / 2048)
  refused : m'.seg.refused = m.seg.refused
  brk : m.seg.brk ≤ m'.seg.brk
  below : m.seg.Below → m'.seg.Below
  blocks : ∃ new, m'.seg.blocks = new ++ m.seg.blocks ∧
    (∀ b ∈ new, b.purpose = .node ∨ b.purpose = .leaf) ∧
    m'.map.bytes_used_ * 8192 = m.map.bytes_used_ * 8192 + (new.map Block.bytes).sum

namespace Growth

variable {m m' m'' : MapHeap} {S S' : Nat → Prop}

theorem refl (m : MapHeap) (hS : ∀ k, S (k / 2048) → m.map.HasLeaf k) : Growth m m S :=
  ⟨fun _ => rfl, fun k => (or_iff_left_of_imp (hS k)).symm, rfl, le_rfl, fun h => h,
    [], rfl, by simp, by simp⟩

theorem trans (h : Growth m m' S) (h' : Growth m' m'' S') :
    Growth m m'' fun l => S l ∨ S' l := by
  refine ⟨?_, ?_, ?_, h.brk.trans h'.brk, fun hb => h'.below (h.below hb), ?_⟩
  · intro k
    rw [h'.get, h.get]
  · intro k
    rw [h'.leaf, h.leaf, or_assoc]
  · rw [h'.refused, h.refused]
  · obtain ⟨new, hblocks, hnew, hbytes⟩ := h.blocks
    obtain ⟨new', hblocks', hnew', hbytes'⟩ := h'.blocks
    refine ⟨new' ++ new, ?_, ?_, ?_⟩
    · rw [hblocks', hblocks, List.append_assoc]
    · intro b hb
      rcases List.mem_append.mp hb with hb | hb
      · exact hnew' b hb
      · exact hnew b hb
    · rw [hbytes', hbytes, List.map_append, List.sum_append, Nat.add_assoc,
        Nat.add_comm (new.map Block.bytes).sum]

/-- Nothing is obtained for spans. -/
theorem spans (h : Growth m m' S) : m'.seg.obtained .span = m.seg.obtained .span := by
  obtain ⟨new, hblocks, hnew, -⟩ := h.blocks
  rw [Segment.obtained, hblocks, List.filter_append, List.filter_eq_nil_iff.mpr, List.nil_append]
  · rfl
  · intro b hb
    rcases hnew b hb with hp | hp
    · rw [hp]
      decide
    · rw [hp]
      decide

theorem congr (h : Growth m m' S) (hS : ∀ l, S l ↔ S' l) : Growth m m' S' := by
  refine ⟨h.get, ?_, h.refused, h.brk, h.below, h.blocks⟩
  intro k
  rw [h.leaf, hS]

end Growth

section Put

variable {m : MapHeap} {key ptr : Nat}

theorem brk_withNode (m : MapHeap) (i ptr : Nat) :
    (m.withNode i ptr).seg.brk = ptr + 268435456 := by
  simp only [withNode, Segment.give, sizeofNode_eq]
  omega

theorem brk_withLeaf (m : MapHeap) (key ptr : Nat) :
    (m.withLeaf key ptr).seg.brk = ptr + 303038464 := by
  simp only [withLeaf, Segment.give, sizeofLeaf_eq]
  omega

/-- What `root_` and `leafs` are with a new node. -/
theorem leafs_withNode (h : m.Grown) (hptr : m.seg.brk ≤ ptr) (key i j : Nat) :
    (m.withNode key ptr).map.root_ i = (if i = key then ptr else m.map.root_ i) ∧
      (m.map.root_ i ≠ 0 → (m.withNode key ptr).map.leafs (m.map.root_ i) j =
        m.map.leafs (m.map.root_ i) j) ∧ (m.withNode key ptr).map.leafs ptr j = 0 := by
  refine ⟨?_, ?_, ?_⟩
  · simp only [withNode, Function.update_apply]
  · intro hne
    have hlt := h.node_lt i hne
    have hdiff : m.map.root_ i ≠ ptr := by omega
    simp only [withNode, Function.update_of_ne hdiff]
  · simp only [withNode, Function.update_self]

theorem Grown.withNode (h : m.Grown) (hptr : m.seg.brk ≤ ptr) (key : Nat) :
    (m.withNode key ptr).Grown := by
  have hspec := leafs_withNode h hptr key
  have hroot : ∀ i, (m.withNode key ptr).map.root_ i = if i = key then ptr else m.map.root_ i :=
    fun i => (hspec i 0).1
  have hold : ∀ i, i ≠ key → (m.withNode key ptr).map.root_ i = m.map.root_ i := by
    intro i hne
    rw [hroot, if_neg hne]
  have hnone : ∀ j, (m.withNode key ptr).map.leafs ((m.withNode key ptr).map.root_ key) j = 0 := by
    intro j
    rw [hroot, if_pos rfl]
    exact (hspec key j).2.2
  have hleafs : ∀ i j, i ≠ key → m.map.root_ i ≠ 0 →
      (m.withNode key ptr).map.leafs ((m.withNode key ptr).map.root_ i) j =
        m.map.leafs (m.map.root_ i) j := by
    intro i j hne hi
    rw [hold i hne]
    exact (hspec i j).2.1 hi
  have hbrk := brk_withNode m key ptr
  refine ⟨?_, ?_, ?_, ?_⟩
  · intro i hne
    by_cases hik : i = key
    · rw [hroot, if_pos hik, hbrk]
      omega
    · rw [hold i hik] at hne ⊢
      have := h.node_lt i hne
      omega
  · intro i j hne hleaf
    by_cases hik : i = key
    · rw [hik, hnone] at hleaf
      exact absurd rfl hleaf
    · rw [hold i hik] at hne
      rw [hleafs i j hik hne] at hleaf ⊢
      have := h.leaf_lt i j hne hleaf
      omega
  · intro i i' hne heq
    by_cases hik : i = key
    · by_cases hik' : i' = key
      · rw [hik, hik']
      · rw [hroot i, if_pos hik, hold i' hik'] at heq
        rw [hroot i, if_pos hik] at hne
        have := h.node_lt i' (by rw [← heq]; exact hne)
        omega
    · rw [hold i hik] at hne heq
      by_cases hik' : i' = key
      · rw [hroot i', if_pos hik'] at heq
        have := h.node_lt i hne
        omega
      · rw [hold i' hik'] at heq
        exact h.node_inj i i' hne heq
  · intro i j i' j' hne hne' hleaf heq
    have hik : i ≠ key := by
      intro he
      rw [he, hnone] at hleaf
      exact hleaf rfl
    have hik' : i' ≠ key := by
      intro he
      rw [heq, he, hnone] at hleaf
      exact hleaf rfl
    rw [hold i hik] at hne
    rw [hold i' hik'] at hne'
    rw [hleafs i j hik hne] at hleaf heq
    rw [hleafs i' j' hik' hne'] at heq
    exact h.leaf_inj i j i' j' hne hne' hleaf heq

theorem growth_withNode (h : m.Grown) (hptr : m.seg.brk ≤ ptr) (hi : m.map.root_ (i1 key) = 0) :
    Growth m (m.withNode (i1 key) ptr) fun _ => False := by
  have hspec := leafs_withNode h hptr (i1 key)
  have hleaf : ∀ k, (m.withNode (i1 key) ptr).map.HasLeaf k ↔ m.map.HasLeaf k := by
    intro k
    rw [TCMalloc_PageMap3.HasLeaf, TCMalloc_PageMap3.HasLeaf, TCMalloc_PageMap3.leaf,
      TCMalloc_PageMap3.leaf, (hspec (i1 k) 0).1]
    split_ifs with hk
    · rw [(hspec (i1 k) (i2 k)).2.2, hk, hi]
      simp
    · by_cases hroot : m.map.root_ (i1 k) = 0
      · simp [hroot]
      · rw [(hspec (i1 k) (i2 k)).2.1 hroot]
  refine ⟨?_, ?_, rfl, ?_, fun hb => hb.give _ hptr _, ?_⟩
  · intro k
    rw [TCMalloc_PageMap3.get_eq, TCMalloc_PageMap3.get_eq]
    refine if_ctx_congr (and_congr_right fun _ => hleaf k) ?_ fun _ => rfl
    intro hk
    have hroot : (m.withNode (i1 key) ptr).map.root_ (i1 k) = m.map.root_ (i1 k) := by
      rw [(hspec (i1 k) 0).1, if_neg]
      intro he
      have hnode := hk.2.1
      rw [he] at hnode
      exact hnode hi
    have hsame : (m.withNode (i1 key) ptr).map.leaf k = m.map.leaf k := by
      rw [TCMalloc_PageMap3.leaf, TCMalloc_PageMap3.leaf, hroot]
      exact (hspec (i1 k) (i2 k)).2.1 hk.2.1
    rw [hsame]
    rfl
  · intro k
    rw [hleaf, or_false]
  · rw [brk_withNode]
    omega
  · refine ⟨[⟨.node, ptr, sizeofNode * 8192⟩], rfl, by simp, ?_⟩
    simp only [MapHeap.withNode, List.map_cons, List.map_nil, List.sum_cons, List.sum_nil]
    omega

/-- What `leafs` is with a new leaf. -/
theorem leafs_withLeaf (h : m.Grown) (key ptr i j : Nat) (hi : m.map.root_ i ≠ 0) :
    (m.withLeaf key ptr).map.leafs (m.map.root_ i) j =
      if i = i1 key ∧ j = i2 key then ptr else m.map.leafs (m.map.root_ i) j := by
  simp only [withLeaf]
  by_cases hik : i = i1 key
  · subst hik
    rw [Function.update_self, Function.update_apply]
    simp
  · have hne : m.map.root_ i ≠ m.map.root_ (i1 key) := by
      intro he
      exact hik (h.node_inj i _ hi he)
    rw [Function.update_of_ne hne, if_neg fun hx => hik hx.1]

theorem Grown.withLeaf (h : m.Grown) (hptr : m.seg.brk ≤ ptr) (key : Nat) :
    (m.withLeaf key ptr).Grown := by
  have hbrk := brk_withLeaf m key ptr
  have hspec := leafs_withLeaf h key ptr
  refine ⟨?_, ?_, h.node_inj, ?_⟩
  · intro i hi
    have hlt := h.node_lt i hi
    rw [hbrk]
    change m.map.root_ i < ptr + 303038464
    omega
  · intro i j hi hleaf
    change (m.withLeaf key ptr).map.leafs (m.map.root_ i) j ≠ 0 at hleaf
    change (m.withLeaf key ptr).map.leafs (m.map.root_ i) j < _
    rw [hspec i j hi] at hleaf ⊢
    rw [hbrk]
    split_ifs at hleaf ⊢
    · omega
    · have := h.leaf_lt i j hi hleaf
      omega
  · intro i j i' j' hi hi' hleaf heq
    change (m.withLeaf key ptr).map.leafs (m.map.root_ i) j ≠ 0 at hleaf
    change (m.withLeaf key ptr).map.leafs (m.map.root_ i) j =
      (m.withLeaf key ptr).map.leafs (m.map.root_ i') j' at heq
    rw [hspec i j hi] at hleaf heq
    rw [hspec i' j' hi'] at heq
    split_ifs at hleaf heq with hnew hnew' hnew'
    · rw [hnew.1, hnew.2, hnew'.1, hnew'.2]
      exact ⟨rfl, rfl⟩
    · have := h.leaf_lt i' j' hi' (by rw [← heq]; exact hleaf)
      omega
    · have := h.leaf_lt i j hi hleaf
      omega
    · exact h.leaf_inj i j i' j' hi hi' hleaf heq

theorem growth_withLeaf (h : m.Grown) (hptr : m.seg.brk ≤ ptr) (hzero : ptr ≠ 0)
    (hnode : m.map.root_ (i1 key) ≠ 0) (hmissing : m.map.leaf key = 0) :
    Growth m (m.withLeaf key ptr) fun l => l = key / 2048 := by
  have hspec := leafs_withLeaf h key ptr
  have hsame : ∀ k, m.map.root_ (i1 k) ≠ 0 → k / 2048 ≠ key / 2048 →
      (m.withLeaf key ptr).map.leaf k = m.map.leaf k := by
    intro k hk hne
    change (m.withLeaf key ptr).map.leafs (m.map.root_ (i1 k)) (i2 k) = _
    rw [hspec _ _ hk, if_neg]
    · rfl
    · intro hx
      exact hne (same_leaf hx.1 hx.2)
  have hnew : ∀ k, k / 2048 = key / 2048 →
      (m.withLeaf key ptr).map.leaf k = ptr ∧ ¬ m.map.HasLeaf k := by
    intro k hk
    obtain ⟨h1, h2⟩ := split_of_eq hk
    constructor
    · change (m.withLeaf key ptr).map.leafs (m.map.root_ (i1 k)) (i2 k) = ptr
      rw [h1, hspec _ _ hnode, if_pos ⟨rfl, h2⟩]
    · rw [TCMalloc_PageMap3.hasLeaf_congr hk]
      exact fun hx => hx.2 hmissing
  have hleaf : ∀ k, (m.withLeaf key ptr).map.HasLeaf k ↔
      m.map.HasLeaf k ∨ k / 2048 = key / 2048 := by
    intro k
    by_cases hk : k / 2048 = key / 2048
    · refine iff_of_true ⟨?_, ?_⟩ (Or.inr hk)
      · change m.map.root_ (i1 k) ≠ 0
        rw [(split_of_eq hk).1]
        exact hnode
      · rw [(hnew k hk).1]
        exact hzero
    · rw [or_iff_left hk]
      by_cases hroot : m.map.root_ (i1 k) = 0
      · exact iff_of_false (fun hx => hx.1 hroot) fun hx => hx.1 hroot
      · rw [TCMalloc_PageMap3.HasLeaf, TCMalloc_PageMap3.HasLeaf, hsame k hroot hk]
        rfl
  refine ⟨?_, hleaf, rfl, ?_, fun hb => hb.give _ hptr _, ?_⟩
  · intro k
    rw [TCMalloc_PageMap3.get_eq, TCMalloc_PageMap3.get_eq]
    by_cases hk : k / 2048 = key / 2048
    · obtain ⟨haddr, hnot⟩ := hnew k hk
      have hempty : (m.withLeaf key ptr).map.span ptr (i3 k) = 0 := by
        simp [MapHeap.withLeaf]
      rw [haddr, hempty, ite_self, if_neg fun hx => hnot hx.2]
    · refine if_ctx_congr (and_congr_right fun _ => (hleaf k).trans (or_iff_left hk)) ?_ fun _ => rfl
      intro hx
      rw [hsame k hx.2.1 hk]
      have hlt := h.leaf_lt _ _ hx.2.1 hx.2.2
      have hdiff : m.map.leaf k ≠ ptr := by
        have hlt' : m.map.leaf k < m.seg.brk := hlt
        omega
      simp only [MapHeap.withLeaf, Function.update_of_ne hdiff]
  · rw [brk_withLeaf]
    omega
  · refine ⟨[⟨.leaf, ptr, sizeofLeaf * 8192⟩], rfl, by simp, ?_⟩
    simp only [MapHeap.withLeaf, List.map_cons, List.map_nil, List.sum_cons, List.sum_nil]
    omega

end Put

section Visit

variable (os : Sbrk) (key : Nat) {m : MapHeap}

/-- How making nodes and leaves fails. -/
def Denied (m : MapHeap) (e : Crash) (m' : MapHeap) : Prop :=
  e = .wildWrite ∧ os.Refuses ∧ m'.seg.obtained .span = m.seg.obtained .span

theorem needNode_spec (h : m.Grown) : Yields (fun _ m' => m'.Grown ∧
    Growth m m' (fun _ => False) ∧ m'.map.root_ (i1 key) ≠ 0 ∧
    (m.map.root_ (i1 key) ≠ 0 → m' = m)) (Denied os m) (needNode os key m) := by
  rw [needNode]
  split_ifs with hroot
  · rcases newNode_cases os key m with ⟨hrefuses, m', hcall, hseg⟩ | ⟨ptr, hptr, hzero, hcall⟩
    · rw [hcall]
      refine ⟨rfl, hrefuses, ?_⟩
      rw [hseg]
      rfl
    · rw [hcall]
      refine ⟨h.withNode hptr (i1 key), growth_withNode h hptr hroot, ?_, absurd hroot⟩
      rw [(leafs_withNode h hptr (i1 key) (i1 key) 0).1, if_pos rfl]
      exact hzero
  · exact ⟨h, Growth.refl m (fun _ hk => hk.elim), hroot, fun _ => rfl⟩

/-- What a round of `Ensure` does: it makes the leaf of the key, if there is none. -/
structure Visited (key : Nat) (m m' : MapHeap) : Prop where
  grown : m'.Grown
  growth : Growth m m' fun l => l = key / 2048
  same : m.map.HasLeaf key → m' = m
  raised : ¬ m.map.HasLeaf key → m.map.bytes_used_ < m'.map.bytes_used_ ∧
    m.seg.brk + 303038464 ≤ m'.seg.brk

theorem visit_spec (h : m.Grown) :
    Yields (fun _ m' => Visited key m m') (Denied os m) (visit os key m) := by
  apply (needNode_spec os key h).bind
  intro _ n hn
  obtain ⟨hgrown, hgrowth, hnode, hsame⟩ := hn
  have hused : m.map.bytes_used_ ≤ n.map.bytes_used_ := by
    obtain ⟨new, -, -, hbytes⟩ := hgrowth.blocks
    omega
  rw [needLeaf]
  split_ifs with hleaf
  · have hmissing : ¬ m.map.HasLeaf key := by
      intro hk
      exact ((hgrowth.leaf key).mpr (Or.inl hk)).2 hleaf
    rcases newLeaf_cases os key n with ⟨hrefuses, m', hcall, hseg⟩ | ⟨ptr, hptr, hzero, hcall⟩
    · rw [hcall]
      refine ⟨rfl, hrefuses, ?_⟩
      rw [hseg]
      exact hgrowth.spans
    · rw [hcall]
      refine ⟨hgrown.withLeaf hptr key, ?_, fun hk => absurd hk hmissing, ?_⟩
      · apply (hgrowth.trans (growth_withLeaf hgrown hptr hzero hnode hleaf)).congr
        intro l
        rw [false_or]
      · intro _
        have hbrk := hgrowth.brk
        rw [brk_withLeaf]
        refine ⟨?_, by omega⟩
        simp only [MapHeap.withLeaf, sizeofLeaf_eq]
        omega
  · have hhas : m.map.HasLeaf key := by
      rcases (hgrowth.leaf key).mp ⟨hnode, hleaf⟩ with hk | hk
      · exact hk
      · exact hk.elim
    obtain rfl := hsame hhas.1
    refine ⟨h, Growth.refl n ?_, fun _ => rfl, absurd hhas⟩
    intro k hk
    exact (TCMalloc_PageMap3.hasLeaf_congr hk).mpr hhas

end Visit

section Loop

variable (os : Sbrk) {I : Nat → MapHeap → Prop} {E : Crash → MapHeap → Prop}

/-- The number of the first leaf that `Ensure`'s loop does not visit. -/
def stopLeaf (key last : Nat) : Nat :=
  if last < 2 ^ 35 then last / 2048 + 1 else max (key / 2048) (2 ^ 24)

theorem i1_lt {key : Nat} (hkey : ¬ (i1 key ≥ INTERIOR_LENGTH ∨ i2 key ≥ INTERIOR_LENGTH)) :
    key < 2 ^ 35 := by
  have hlt : ¬ 4096 ≤ i1 key := fun h => hkey (Or.inl h)
  rw [i1_eq] at hlt
  omega

theorem le_i1 {key : Nat} (hkey : i1 key ≥ INTERIOR_LENGTH ∨ i2 key ≥ INTERIOR_LENGTH) :
    2 ^ 35 ≤ key := by
  rcases hkey with h | h
  · have hle : 4096 ≤ i1 key := h
    rw [i1_eq] at hle
    omega
  · have hle : 4096 ≤ i2 key := h
    rw [i2_eq] at hle
    omega

theorem nextKey_eq (key : Nat) : nextKey key = (key / 2048 + 1) * 2048 := by
  rw [nextKey, shift_leaf, Nat.shiftLeft_eq]
  rfl

theorem stopLeaf_out {key last : Nat} (hkey : 2 ^ 35 ≤ key) (hle : key ≤ last) :
    stopLeaf key last = key / 2048 := by
  rw [stopLeaf, if_neg (by omega)]
  omega

theorem stopLeaf_next {key last : Nat} (hkey : key < 2 ^ 35) :
    stopLeaf (nextKey key) last = stopLeaf key last := by
  rw [stopLeaf, stopLeaf, nextKey_eq]
  split_ifs with hlast
  · rfl
  · omega

theorem stopLeaf_end {last : Nat} (hlast : last < 2 ^ 35) :
    stopLeaf ((last / 2048 + 1) * 2048) last = (last / 2048 + 1) * 2048 / 2048 := by
  rw [stopLeaf, if_pos hlast]
  omega

/-- The rule of invariants for `Ensure`'s loop, with the number of the next leaf as its
counter: the loop ends, and its answer tells whether the last key is inside the map. -/
theorem ensureLoop_rule
    (hvisit : ∀ key m, key < 2 ^ 35 → I (key / 2048) m →
      Yields (fun _ m' => I (key / 2048 + 1) m') E (visit os key m))
    (fuel : Nat) {key last : Nat} {m : MapHeap} (hpos : 1 ≤ fuel)
    (hfuel : 2 ^ 24 + 1 ≤ fuel + key / 2048)
    (hkey : key ≤ last ∨ key = (last / 2048 + 1) * 2048 ∧ last < 2 ^ 35)
    (hI : I (key / 2048) m) :
    Yields (fun b m' => b = decide (last < 2 ^ 35) ∧ I (stopLeaf key last) m') E
      (ensureLoop os fuel key last m) := by
  induction fuel generalizing key m with
  | zero => exact absurd hpos (by omega)
  | succ fuel ih =>
    rw [ensureLoop]
    split_ifs with hle hout
    · have hge := le_i1 hout
      refine ⟨(decide_eq_false (by omega)).symm, ?_⟩
      rw [stopLeaf_out hge hle]
      exact hI
    · have hlt := i1_lt hout
      apply (hvisit key m hlt hI).bind
      intro _ m' hI'
      have hnext := nextKey_eq key
      have hleaf : nextKey key / 2048 = key / 2048 + 1 := by omega
      rw [← stopLeaf_next hlt]
      refine ih (by omega) (by omega) ?_ (by rw [hleaf]; exact hI')
      by_cases hmore : nextKey key ≤ last
      · exact Or.inl hmore
      · apply Or.inr
        omega
    · obtain ⟨rfl, hlast⟩ := hkey.resolve_left hle
      refine ⟨(decide_eq_true hlast).symm, ?_⟩
      rw [stopLeaf_end hlast]
      exact hI

theorem lastKey_eq {start n : Nat} (hn : 1 ≤ n) (hwrap : start + n ≤ 2 ^ 64) :
    lastKey start n = start + n - 1 := by
  rw [lastKey]
  omega

theorem Ensure_rule
    (hvisit : ∀ key m, key < 2 ^ 35 → I (key / 2048) m →
      Yields (fun _ m' => I (key / 2048 + 1) m') E (visit os key m))
    {start n : Nat} {m : MapHeap} (hle : start ≤ lastKey start n) (hI : I (start / 2048) m) :
    Yields (fun b m' => b = decide (lastKey start n < 2 ^ 35) ∧
      I (stopLeaf start (lastKey start n)) m') E (Ensure os start n m) := by
  have hfuel : INTERIOR_LENGTH * INTERIOR_LENGTH + 1 = 2 ^ 24 + 1 := by decide
  rw [Ensure, hfuel]
  exact ensureLoop_rule os hvisit (2 ^ 24 + 1) (by omega) (by omega) (Or.inl hle) hI

end Loop

/-- All leaves are for memory below the break. -/
def Frontier (m : MapHeap) : Prop := ∀ k, m.map.HasLeaf k → (k / 2048 + 1) * 16777216 ≤ m.seg.brk

/-- What `Ensure` does for the leaves from `first` on that come before `stop`. -/
structure Ensured (first stop : Nat) (m m' : MapHeap) : Prop where
  grown : m'.Grown
  growth : Growth m m' fun l => first ≤ l ∧ l < stop
  same : (∀ k, first ≤ k / 2048 → k / 2048 < stop → m.map.HasLeaf k) → m' = m
  used : ∀ k, first ≤ k / 2048 → k / 2048 < stop → ¬ m.map.HasLeaf k →
    m.map.bytes_used_ < m'.map.bytes_used_
  frontier : m.Frontier → first * 16777216 ≤ m.seg.brk →
    m'.Frontier ∧ stop * 16777216 ≤ m'.seg.brk

namespace Ensured

variable {m m' m'' : MapHeap} {first : Nat}

theorem refl (h : m.Grown) (first : Nat) : Ensured first first m m := by
  refine ⟨h, Growth.refl m ?_, fun _ => rfl, ?_, fun hf hb => ⟨hf, hb⟩⟩
  · intro k hk
    omega
  · intro k hle hlt
    omega

/-- One more leaf is visited. -/
theorem visit {key : Nat} (h : Ensured first (key / 2048) m m') (hle : first ≤ key / 2048)
    (hv : Visited key m' m'') : Ensured first (key / 2048 + 1) m m'' := by
  have hkey : m'.map.HasLeaf key ↔ m.map.HasLeaf key := by
    rw [h.growth.leaf]
    exact or_iff_left (by omega)
  have hused : m.map.bytes_used_ ≤ m'.map.bytes_used_ := by
    obtain ⟨new, -, -, hbytes⟩ := h.growth.blocks
    omega
  have hused' : m'.map.bytes_used_ ≤ m''.map.bytes_used_ := by
    obtain ⟨new, -, -, hbytes⟩ := hv.growth.blocks
    omega
  refine ⟨hv.grown, (h.growth.trans hv.growth).congr ?_, ?_, ?_, ?_⟩
  · intro l
    omega
  · intro hall
    obtain rfl := h.same fun k hge hlt => hall k hge (by omega)
    exact hv.same (hall key hle (by omega))
  · intro k hge hlt hmissing
    by_cases hk : k / 2048 = key / 2048
    · rw [TCMalloc_PageMap3.hasLeaf_congr hk, ← hkey] at hmissing
      have := (hv.raised hmissing).1
      omega
    · have := h.used k hge (by omega) hmissing
      omega
  · intro hf hb
    obtain ⟨hf', hb'⟩ := h.frontier hf hb
    have hbrk := hv.growth.brk
    have hstop : (key / 2048 + 1) * 16777216 ≤ m''.seg.brk := by
      by_cases hhas : m'.map.HasLeaf key
      · exact (hf' key hhas).trans hbrk
      · rw [Nat.succ_mul]
        calc key / 2048 * 16777216 + 16777216
            ≤ m'.seg.brk + 303038464 := Nat.add_le_add hb' (by norm_num)
          _ ≤ m''.seg.brk := (hv.raised hhas).2
    refine ⟨?_, hstop⟩
    intro k hk
    rcases (hv.growth.leaf k).mp hk with hold | hnew
    · exact (hf' k hold).trans hbrk
    · rw [hnew]
      exact hstop

end Ensured

/-- What `Ensure` does: the leaves of the range exist, as far as the map reaches, and it tells
whether the map reaches its end. It fails only if the system refuses memory. -/
theorem Ensure_last_spec (os : Sbrk) {m : MapHeap} (h : m.Grown) {start n : Nat}
    (hle : start ≤ lastKey start n) :
    Yields (fun b m' => b = decide (lastKey start n < 2 ^ 35) ∧
      Ensured (start / 2048) (stopLeaf start (lastKey start n)) m m') (Denied os m)
      (Ensure os start n m) := by
  refine (Ensure_rule os
    (I := fun l m' => start / 2048 ≤ l ∧ Ensured (start / 2048) l m m') ?_ hle
    ⟨le_rfl, Ensured.refl h _⟩).mono (fun b m' hb => ⟨hb.1, hb.2.2⟩) fun _ _ he => he
  intro key m' _ hI
  apply (visit_spec os key hI.2.grown).mono
  · intro _ m'' hv
    exact ⟨by omega, hI.2.visit hI.1 hv⟩
  · intro e m'' he
    exact ⟨he.1, he.2.1, he.2.2.trans hI.2.growth.spans⟩

/-- The same for a range that does not wrap around. -/
theorem Ensure_spec (os : Sbrk) {m : MapHeap} (h : m.Grown) {start n : Nat} (hn : 1 ≤ n)
    (hwrap : start + n ≤ 2 ^ 64) :
    Yields (fun b m' => b = decide (start + n ≤ 2 ^ 35) ∧
      Ensured (start / 2048) (stopLeaf start (start + n - 1)) m m') (Denied os m)
      (Ensure os start n m) := by
  have hlast := lastKey_eq hn hwrap
  refine (Ensure_last_spec os h (by omega)).mono ?_ fun _ _ he => he
  intro b m' hb
  rw [hlast] at hb
  refine ⟨?_, hb.2⟩
  rw [hb.1]
  exact decide_eq_decide.mpr (by omega)

/-- A range whose last key comes before its first one is empty. -/
theorem Ensure_wrapped (os : Sbrk) {start n : Nat} (hlt : lastKey start n < start) (m : MapHeap) :
    Ensure os start n m = .ok true m := by
  rw [Ensure, ensureLoop, if_neg (by omega)]
  rfl

/-- Outside the range of the map `Ensure` does nothing. -/
theorem Ensure_outside (os : Sbrk) {start n : Nat} (hn : 1 ≤ n) (hwrap : start + n ≤ 2 ^ 64)
    (hout : 2 ^ 35 ≤ start) (m : MapHeap) : Ensure os start n m = .ok false m := by
  have hlast := lastKey_eq hn hwrap
  have hi : INTERIOR_LENGTH ≤ i1 start := by
    have hlength : INTERIOR_LENGTH = 4096 := rfl
    rw [hlength, i1_eq]
    omega
  rw [Ensure, hlast, ensureLoop, if_pos (by omega), if_pos (Or.inl hi)]
  rfl

/-- The leaves that `Ensure` makes sure of are those of the range inside the map. -/
theorem leaf_lt_stop {start last k : Nat} (hge : start ≤ k) (hle : k ≤ last) (hmap : k < 2 ^ 35) :
    start / 2048 ≤ k / 2048 ∧ k / 2048 < stopLeaf start last := by
  rw [stopLeaf]
  split_ifs with hlast
  · omega
  · omega

/-- `set` changes what `get` returns for its own key only. -/
theorem get_withEntry {m : MapHeap} (h : m.Grown) {k : Nat} (hk : k < 2 ^ 35)
    (hleaf : m.map.HasLeaf k) (s k' : Nat) :
    (m.map.withEntry k s).get k' = if k' = k then s else m.map.get k' := by
  have haddr : (m.map.withEntry k s).leaf k' = m.map.leaf k' := rfl
  rw [TCMalloc_PageMap3.get_eq, TCMalloc_PageMap3.get_eq, haddr]
  by_cases hk' : k' < 2 ^ 35 ∧ m.map.HasLeaf k'
  · have hsame : k' < 2 ^ 35 ∧ (m.map.withEntry k s).HasLeaf k' := hk'
    rw [if_pos hsame, if_pos hk']
    by_cases hl : k' / 2048 = k / 2048
    · have hboth : m.map.leaf k' = m.map.leaf k := by
        obtain ⟨h1, h2⟩ := split_of_eq hl
        rw [TCMalloc_PageMap3.leaf, TCMalloc_PageMap3.leaf, h1, h2]
      have hin : i3 k' = i3 k ↔ k' = k := ⟨eq_of_split hl, fun he => by rw [he]⟩
      simp only [TCMalloc_PageMap3.withEntry, hboth, Function.update_self, Function.update_apply, hin]
    · have hdiff := h.leaf_ne hk'.2 hleaf hl
      have hne : k' ≠ k := by
        intro he
        exact hl (by rw [he])
      simp only [TCMalloc_PageMap3.withEntry, Function.update_of_ne hdiff, if_neg hne]
  · have hne : k' ≠ k := by
      intro he
      exact hk' (he ▸ ⟨hk, hleaf⟩)
    have hsame : ¬ (k' < 2 ^ 35 ∧ (m.map.withEntry k s).HasLeaf k') := hk'
    rw [if_neg hsame, if_neg hk', if_neg hne]

theorem Grown.withEntry {m : MapHeap} (h : m.Grown) (k s : Nat) :
    ({ m with map := m.map.withEntry k s } : MapHeap).Grown :=
  ⟨h.node_lt, h.leaf_lt, h.node_inj, h.leaf_inj⟩

/-- A higher break. -/
theorem Grown.raise {m : MapHeap} (h : m.Grown) {seg : Segment} (hle : m.seg.brk ≤ seg.brk) :
    (⟨m.map, seg⟩ : MapHeap).Grown :=
  ⟨fun i hi => (h.node_lt i hi).trans_le hle, fun i j hi hj => (h.leaf_lt i j hi hj).trans_le hle,
    h.node_inj, h.leaf_inj⟩

/-- A page map without nodes. -/
theorem grown_init (seg : Segment) : (⟨TCMalloc_PageMap3.init, seg⟩ : MapHeap).Grown :=
  ⟨fun _ h => absurd rfl h, fun _ _ h => absurd rfl h, fun _ _ h => absurd rfl h,
    fun _ _ _ _ h => absurd rfl h⟩

end MapHeap

end Mymuduo.Memory
