import Mymuduo.Memory.PoolInv

namespace Mymuduo.Memory

open Lib PageCache

/-- The loop chains one block for each start below its end. -/
theorem carveLoop_eq (fuel start stop : Nat) {size : Nat} (hsize : 1 ≤ size)
    (hfuel : stop ≤ start + fuel) : carveLoop fuel start stop size =
      (List.range ((stop - start + size - 1) / size)).map fun i => start + i * size := by
  induction fuel generalizing start with
  | zero =>
    have hnone : (stop - start + size - 1) / size = 0 := Nat.div_eq_of_lt (by omega)
    rw [hnone]
    rfl
  | succ fuel ih =>
    simp only [carveLoop]
    split_ifs with hlt
    · have hround : (stop - start + size - 1) / size =
          (stop - (start + size) + size - 1) / size + 1 := by
        by_cases hlast : stop ≤ start + size
        · have hnone : (stop - (start + size) + size - 1) / size = 0 :=
            Nat.div_eq_of_lt (by omega)
          rw [hnone]
          apply Nat.div_eq_of_lt_le
          · omega
          · omega
        · rw [← Nat.add_div_right _ hsize]
          congr 1
          omega
      rw [hround, List.range_succ_eq_map, List.map_cons, List.map_map, ih (start + size) (by omega)]
      simp only [Nat.zero_mul, Nat.add_zero, List.cons.injEq, true_and]
      apply List.map_congr_left
      intro i _
      simp only [Function.comp_apply, Nat.succ_mul]
      omega
    · have hnone : (stop - start + size - 1) / size = 0 := Nat.div_eq_of_lt (by omega)
      rw [hnone]
      rfl

namespace Span

/-- How many blocks the loop of `get_one_Span` makes. -/
def blockCount (s : Span) : Nat := (s._npage <<< PAGE_SHIFT + s._objsize - 1) / s._objsize

theorem bytes_pos {s : Span} (hpos : 1 ≤ s._npage) : 1 ≤ s._npage <<< PAGE_SHIFT := by
  rw [PAGE_SHIFT]
  rw [Nat.shiftLeft_eq]
  omega

theorem blocks_eq {s : Span} (hpos : 1 ≤ s._npage) (hsize : 1 ≤ s._objsize) : s.blocks =
    (List.range s.blockCount).map fun i => s._pageid <<< PAGE_SHIFT + i * s._objsize := by
  have hbytes := bytes_pos hpos
  have hloop : s.blocks = carveLoop (s._npage <<< PAGE_SHIFT + 1) (s._pageid <<< PAGE_SHIFT)
      (s._pageid <<< PAGE_SHIFT + s._npage <<< PAGE_SHIFT) s._objsize := by
    rw [carveLoop, if_pos (by omega)]
    rfl
  rw [hloop, carveLoop_eq _ _ _ hsize (by omega), Nat.add_sub_cancel_left]
  rfl

/-- The last block starts before the end of the span. -/
theorem block_bounds {s : Span} (hpos : 1 ≤ s._npage) (hsize : 1 ≤ s._objsize) {b : Nat}
    (hb : b ∈ s.blocks) : s._pageid <<< PAGE_SHIFT ≤ b ∧
      b ≤ s._pageid <<< PAGE_SHIFT + (s._npage <<< PAGE_SHIFT - 1) / s._objsize * s._objsize := by
  have hbytes := bytes_pos hpos
  have hcount : s.blockCount = (s._npage <<< PAGE_SHIFT - 1) / s._objsize + 1 := by
    rw [← Nat.add_div_right _ hsize, blockCount]
    congr 1
    omega
  rw [blocks_eq hpos hsize] at hb
  obtain ⟨i, hi, rfl⟩ := List.mem_map.mp hb
  rw [List.mem_range, hcount] at hi
  have hle : i * s._objsize ≤ (s._npage <<< PAGE_SHIFT - 1) / s._objsize * s._objsize :=
    Nat.mul_le_mul_right _ (Nat.le_of_lt_succ hi)
  omega

/-- The blocks together end at or after the end of the span, and there only if their size
divides its bytes. -/
theorem blockCount_fits {s : Span} (hsize : 1 ≤ s._objsize) :
    s.blockCount * s._objsize ≤ s._npage <<< PAGE_SHIFT ↔
      s._objsize ∣ s._npage <<< PAGE_SHIFT := by
  rw [blockCount]
  generalize s._npage <<< PAGE_SHIFT = bytes
  generalize s._objsize = size at *
  have hover : bytes ≤ (bytes + size - 1) / size * size := by
    have hdiv := Nat.div_add_mod' (bytes + size - 1) size
    have hmod := Nat.mod_lt (bytes + size - 1) hsize
    omega
  constructor
  · intro hle
    exact Dvd.intro_left _ (Nat.le_antisymm hle hover)
  · intro hdvd
    obtain ⟨k, rfl⟩ := hdvd
    have hk : (size * k + size - 1) / size = k := by
      apply Nat.div_eq_of_lt_le
      · rw [Nat.mul_comm]
        omega
      · rw [Nat.succ_mul, Nat.mul_comm]
        omega
    rw [hk, Nat.mul_comm]

theorem end_eq (s : Span) : (s._pageid + s._npage) <<< PAGE_SHIFT =
    s._pageid <<< PAGE_SHIFT + s._npage <<< PAGE_SHIFT := by
  simp only [Nat.shiftLeft_eq, Nat.add_mul]

/-- The blocks of `get_one_Span` follow each other from the start of the span, and each of
them lies inside the bytes of the span. -/
structure Carved (s : Span) : Prop where
  listed : ∃ k, s.blocks = (List.range k).map fun i => s._pageid <<< PAGE_SHIFT + i * s._objsize
  disjoint : s.blocks.Pairwise fun a b => a + s._objsize ≤ b
  inside : ∀ a ∈ s.blocks, s._pageid <<< PAGE_SHIFT ≤ a ∧
    a + s._objsize ≤ (s._pageid + s._npage) <<< PAGE_SHIFT

theorem pairwise_blocks {s : Span} (hpos : 1 ≤ s._npage) (hsize : 1 ≤ s._objsize) :
    s.blocks.Pairwise fun a b => a + s._objsize ≤ b := by
  rw [blocks_eq hpos hsize]
  refine List.pairwise_map.mpr (List.pairwise_lt_range.imp ?_)
  intro i j hij
  have hstep : (i + 1) * s._objsize ≤ j * s._objsize := Nat.mul_le_mul_right _ hij
  rw [Nat.succ_mul] at hstep
  omega

theorem inside_iff {s : Span} (hpos : 1 ≤ s._npage) (hsize : 1 ≤ s._objsize) :
    (∀ a ∈ s.blocks, s._pageid <<< PAGE_SHIFT ≤ a ∧
      a + s._objsize ≤ (s._pageid + s._npage) <<< PAGE_SHIFT) ↔
    s._objsize ∣ s._npage <<< PAGE_SHIFT := by
  have hcount : 1 ≤ s.blockCount := by
    have hbytes := bytes_pos hpos
    exact Nat.div_pos (by omega) hsize
  rw [← blockCount_fits hsize, blocks_eq hpos hsize, end_eq]
  constructor
  · intro h
    have hlast := (h _ (List.mem_map.mpr ⟨s.blockCount - 1, List.mem_range.mpr (by omega), rfl⟩)).2
    have hsum : (s.blockCount - 1) * s._objsize + s._objsize = s.blockCount * s._objsize := by
      rw [← Nat.succ_mul, Nat.succ_eq_add_one, Nat.sub_add_cancel hcount]
    omega
  · intro h a ha
    obtain ⟨i, hi, rfl⟩ := List.mem_map.mp ha
    have hle : (i + 1) * s._objsize ≤ s.blockCount * s._objsize :=
      Nat.mul_le_mul_right _ (List.mem_range.mp hi)
    rw [Nat.succ_mul] at hle
    omega

theorem carved_iff {s : Span} (hpos : 1 ≤ s._npage) (hsize : 1 ≤ s._objsize) :
    s.Carved ↔ s._objsize ∣ s._npage <<< PAGE_SHIFT := by
  rw [← inside_iff hpos hsize]
  constructor
  · exact Carved.inside
  · exact fun h => ⟨⟨s.blockCount, blocks_eq hpos hsize⟩, pairwise_blocks hpos hsize, h⟩

end Span

namespace PageState

/-- In every state of the page cache, for every size class, `new_Span` gives `get_one_Span` a
span whose blocks lie in it, exactly when the size of a block divides the bytes of the
span. -/
theorem carved_class_iff (as : List PageOp) :
    Always step (fun p => ∀ s base, 1 ≤ s → s ≤ MAXBYTES →
      SbrkOk p.cache (num_move_page (round_up s)) base →
      ∃ r d, PageCache.new_Span 2 p.cache (num_move_page (round_up s)) base = some (r, d) ∧
        (({ d.span r with _isUse := true, _objsize := round_up s } : Span).Carved ↔
          round_up s ∣ num_move_page (round_up s) <<< PAGE_SHIFT)) init as := by
  apply (always_inv as).mono
  intro p hp s base hpos hmax hb
  have hround := round_up_spec hpos hmax
  have hn := num_move_page_bounds (hpos.trans hround.1) hround.2
  obtain ⟨r, d, heq, hsize, -, -⟩ := inv_new hp hn.1 (by omega) hb
  refine ⟨r, d, heq, ?_⟩
  rw [Span.carved_iff]
  · simp only [hsize]
  · simp only [hsize]
    exact hn.1
  · exact hpos.trans hround.1

/-- A page cut in blocks of 24 bytes: the last of them ends 16 bytes after the page. -/
theorem last_block_overhangs : ∃ r d,
    PageCache.new_Span 2 init.cache (num_move_page (round_up 24)) 1 = some (r, d) ∧
    (d.span r)._npage = 1 ∧
    16376 ∈ ({ d.span r with _isUse := true, _objsize := round_up 24 } : Span).blocks ∧
    ((d.span r)._pageid + (d.span r)._npage) <<< PAGE_SHIFT = 16384 ∧
    ¬ ({ d.span r with _isUse := true, _objsize := round_up 24 } : Span).Carved := by
  have hrun : ((PageCache.new_Span 2 init.cache (num_move_page (round_up 24)) 1).any fun p =>
      decide ((p.2.span p.1)._npage = 1 ∧
        16376 ∈ ({ p.2.span p.1 with _isUse := true, _objsize := round_up 24 } : Span).blocks ∧
        ((p.2.span p.1)._pageid + (p.2.span p.1)._npage) <<< PAGE_SHIFT = 16384)) = true := by
    decide +kernel
  simp only [Option.any_eq_true, decide_eq_true_eq] at hrun
  obtain ⟨⟨r, d⟩, heq, hpage, hlast, hend⟩ := hrun
  refine ⟨r, d, heq, hpage, hlast, hend, ?_⟩
  intro h
  have hin := (h.inside 16376 hlast).2
  have hsize : round_up 24 = 24 := by decide
  simp only [hend, hsize] at hin
  omega

end PageState

end Mymuduo.Memory
