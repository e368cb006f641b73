import Mymuduo.Memory.HeapRun

namespace Mymuduo.Memory

open Lib PageHeap

namespace HeapState

/-- The heap of a process that has not died. -/
def Inv (s : HeapState) : Prop := s.fault = none → Laid s.heap s.inUse

section Steps

variable {os : UserSbrk} {s t : HeapState} {n r : Nat}

/-- What a request for a bucket's size leads to. -/
theorem step_small (hs : s.Inv) (ht : s.step os (.new_Span n) = some t) (hlt : n < NPAGES) :
    (∃ r h, Served s.heap h n r ∧ Accounts os.toSbrk s.heap n h ∧
      t = ⟨h.mark r, r :: s.inUse, none⟩ ∧ Laid (h.mark r) (r :: s.inUse)) ∨
    ∃ e h, Failed os.toSbrk s.heap n e h ∧ t = ⟨h, s.inUse, some e⟩ := by
  rw [step] at ht
  split_ifs at ht with hguard
  obtain ⟨hnone, hn, -⟩ := hguard
  have hl := hs hnone
  have hspec : Yields _ _ (PageHeap.new_Span os.toSbrk 2 n s.heap) := new_Span_spec hl hlt
  obtain rfl := Option.some.inj ht
  cases hcall : PageHeap.new_Span os.toSbrk 2 n s.heap with
  | ok r h =>
    obtain ⟨hserved, haccounts⟩ := hspec.ok hcall
    exact Or.inl ⟨r, h, hserved, haccounts, rfl, hl.mark hn hlt hserved⟩
  | error e h => exact Or.inr ⟨e, h, hspec.error hcall, rfl⟩

/-- What a request leads to that no bucket is meant for. -/
theorem step_large (hs : s.Inv) (ht : s.step os (.new_Span n) = some t) (hn : n ≥ NPAGES) :
    ∃ e h, LargeFailed os.toSbrk s.heap n e h ∧ t = ⟨h, s.inUse, some e⟩ := by
  rw [step] at ht
  split_ifs at ht with hguard
  have hspec : Yields _ _ (takeLarge os.toSbrk n s.heap) := takeLarge_spec (hs hguard.1) hn
  obtain rfl := Option.some.inj ht
  rw [new_Span_large hn]
  cases hcall : takeLarge os.toSbrk n s.heap with
  | ok r h => exact (hspec.ok hcall).elim
  | error e h => exact ⟨e, h, hspec.error hcall, rfl⟩

/-- What a release leads to. -/
theorem step_relase (hs : s.Inv) (ht : s.step os (.relase r) = some t) :
    ∃ h, Laid h (s.inUse.erase r) ∧ Extended s.heap h ∧ t = ⟨h, s.inUse.erase r, none⟩ := by
  rw [step] at ht
  split_ifs at ht with hguard
  obtain ⟨h, hcall, hl, he⟩ := relase_spec (hs hguard.1) hguard.2
  obtain rfl := Option.some.inj ht
  rw [hcall]
  exact ⟨h, hl, he, rfl⟩

theorem inv_init (brk : Nat) : (init brk).Inv := fun _ => laid_init rfl

theorem inv_step {a : HeapOp} (hs : s.Inv) (ht : s.step os a = some t) : t.Inv := by
  cases a with
  | new_Span n =>
    by_cases hlt : n < NPAGES
    · rcases step_small hs ht hlt with ⟨r, h, -, -, rfl, hl⟩ | ⟨e, h, -, rfl⟩
      · exact fun _ => hl
      · exact nofun
    · obtain ⟨e, h, -, rfl⟩ := step_large hs ht (Nat.le_of_not_lt hlt)
      exact nofun
  | relase r =>
    obtain ⟨h, hl, -, rfl⟩ := step_relase hs ht
    exact fun _ => hl

end Steps

/-- The call is no request that no bucket is meant for, or the system refuses it memory. -/
def Modest (os : UserSbrk) (s : HeapState) : HeapOp → Prop
  | .new_Span n => n < NPAGES ∨
      ¬ ∃ ptr, s.heap.answer os.toSbrk n = some ptr ∧ ptr ≠ SBRK_FAILED
  | .relase _ => True

theorem step_nullNode {os : UserSbrk} {s t : HeapState} {a : HeapOp} (hs : s.Inv)
    (ht : s.step os a = some t) : t.fault ≠ some .nullNode ↔ s.Modest os a := by
  cases a with
  | new_Span n =>
    by_cases hlt : n < NPAGES
    · refine iff_of_true ?_ (Or.inl hlt)
      rcases step_small hs ht hlt with ⟨r, h, -, -, rfl, -⟩ | ⟨e, h, hfailed, rfl⟩
      · exact nofun
      · intro he
        obtain rfl := Option.some.inj he
        rcases hfailed.1 with he | he
        · cases he
        · cases he
    · obtain ⟨e, h, hfailed, rfl⟩ := step_large hs ht (Nat.le_of_not_lt hlt)
      constructor
      · intro hne
        exact Or.inr fun hgranted => hne (congrArg some (hfailed.granted hgranted))
      · intro hmodest he
        exact (hmodest.resolve_left hlt) (hfailed.denied (Option.some.inj he))
  | relase r =>
    obtain ⟨h, -, -, rfl⟩ := step_relase hs ht
    exact iff_of_true nofun trivial

/-- No write of the page map goes through a missing node or leaf, in any run, exactly if no
request in it is granted memory that is for `NPAGES` pages or more. -/
theorem no_null_write_iff (os : UserSbrk) (brk : Nat) (as : List HeapOp) :
    Always (step os) (fun s => s.fault ≠ some .nullNode) (init brk) as ↔
      Each (step os) (Modest os) (init brk) as :=
  always_iff_each (fun _ _ _ hs _ ht _ => inv_step hs ht) (fun _ _ _ hs _ ht => step_nullNode hs ht)
    (inv_init brk) nofun as

/-- The first request of a process, for 200 pages. -/
theorem large_request_writes_null : ¬ Always (step (plainSbrk (2 ^ 48) le_rfl))
    (fun s => s.fault ≠ some .nullNode) (init (2 ^ 20)) [.new_Span 200] := by
  decide

section Refusal

variable (os : UserSbrk)

/-- The system refuses memory during `new_Span(n)`. -/
def Refused (s : HeapState) (n : Nat) : Prop :=
  (final (PageHeap.new_Span os.toSbrk 2 n s.heap)).mem.seg.refused ≠ s.heap.mem.seg.refused

instance (s : HeapState) (n : Nat) : Decidable (s.Refused os n) :=
  inferInstanceAs (Decidable (_ ≠ _))

/-- `new_Span(n)` throws `std::bad_alloc`, and the buckets, the page map and the live spans are
as before. -/
structure FailsCleanly (s : HeapState) (n : Nat) (h : PageHeap) : Prop where
  thrown : PageHeap.new_Span os.toSbrk 2 n s.heap = .error .bad_alloc h
  buckets : h.cache._pagelist = s.heap.cache._pagelist
  entries : ∀ k, h.mem.map.get k = s.heap.mem.map.get k
  spans : ∀ r ∈ s.inUse ++ s.heap.cache.linked, h.cache.span r = s.heap.cache.span r

variable {os} {s : HeapState} {n : Nat}

/-- A call during which the system refuses memory does not return, and throws nothing. -/
theorem Inv.refused (hs : s.Inv) (halive : s.fault = none) (hrefused : s.Refused os n) :
    ∃ e h, PageHeap.new_Span os.toSbrk 2 n s.heap = .error e h ∧ e ≠ .bad_alloc := by
  by_cases hlt : n < NPAGES
  · have hspec : Yields _ _ (PageHeap.new_Span os.toSbrk 2 n s.heap) :=
      new_Span_spec (hs halive) hlt
    cases hcall : PageHeap.new_Span os.toSbrk 2 n s.heap with
    | ok r h =>
      rw [Refused, hcall] at hrefused
      exact absurd (hspec.ok hcall).1.refused hrefused
    | error e h =>
      refine ⟨e, h, rfl, ?_⟩
      rcases (hspec.error hcall).1 with rfl | rfl
      · exact nofun
      · exact nofun
  · have hn := Nat.le_of_not_lt hlt
    have hspec : Yields _ _ (takeLarge os.toSbrk n s.heap) := takeLarge_spec (hs halive) hn
    rw [new_Span_large hn]
    cases hcall : takeLarge os.toSbrk n s.heap with
    | ok r h => exact (hspec.ok hcall).elim
    | error e h => exact ⟨e, h, rfl, (hspec.error hcall).uncaught⟩

/-- Whenever the system refuses memory during a request, the request ends the process and does
not throw `std::bad_alloc`, from every state that requests and releases lead to. -/
theorem refusal_not_clean (os : UserSbrk) (brk : Nat) (as : List HeapOp) :
    Always (step os) (fun s => s.fault = none → ∀ n, 1 ≤ n → n < 2 ^ 64 → s.Refused os n →
      (∃ e h, PageHeap.new_Span os.toSbrk 2 n s.heap = .error e h ∧ e ≠ .bad_alloc) ∧
        ¬ ∃ h, s.FailsCleanly os n h) (init brk) as := by
  apply (always_of_step (fun _ _ _ hs ht => inv_step hs ht) (inv_init brk) as).mono
  intro s hs halive n _ _ hrefused
  obtain ⟨e, h, hcall, hne⟩ := hs.refused halive hrefused
  refine ⟨⟨e, h, hcall, hne⟩, ?_⟩
  intro hx
  obtain ⟨h', hclean⟩ := hx
  rw [hclean.thrown] at hcall
  cases hcall
  exact hne rfl

/-- A system that has memory for span objects but none for a region. The refill links a span
for `(void*)-1`, and the assert of `set` ends the process. -/
theorem refused_region_linked : (init (2 ^ 20)).Refused (plainSbrk (2 ^ 20 + 2 ^ 17) (by decide)) 1 ∧
    (¬ ∃ h, (init (2 ^ 20)).FailsCleanly (plainSbrk (2 ^ 20 + 2 ^ 17) (by decide)) 1 h) ∧
    (final (PageHeap.new_Span (plainSbrk (2 ^ 20 + 2 ^ 17) (by decide)).toSbrk 2 1
      (init (2 ^ 20)).heap)).cache._pagelist 127 ≠ [] := by
  refine ⟨by decide +kernel, ?_, by decide +kernel⟩
  intro hx
  obtain ⟨h, hclean⟩ := hx
  have hfault : faultOf (PageHeap.new_Span (plainSbrk (2 ^ 20 + 2 ^ 17) (by decide)).toSbrk 2 1
      (init (2 ^ 20)).heap) = some .badKey := by decide +kernel
  rw [hclean.thrown] at hfault
  cases hfault

end Refusal

end HeapState

end Mymuduo.Memory
