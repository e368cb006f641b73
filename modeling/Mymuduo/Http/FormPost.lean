import Mymuduo.Http.HttpContext
import Mymuduo.Lib.Assoc

namespace Mymuduo.Http

open Lib Net

def PERCENT : Byte := 37
def AMPERSAND : Byte := 38
def PLUS : Byte := 43
def EQUALS : Byte := 61

namespace HttpRequestTest

/-- `parsePost_` decodes the body of such a request. -/
def IsForm (r : HttpRequestTest) : Prop :=
  r.method_ = .kPost ∧ r.getHeader_ (text "Content-Type") = text "application/x-www-form-urlencoded"

instance (r : HttpRequestTest) : Decidable r.IsForm := inferInstanceAs (Decidable (_ ∧ _))

def getPost_ (r : HttpRequestTest) (key : List Byte) : List Byte := (r.post_ key).getD []

end HttpRequestTest

/-- A scan from the front in which `pending` bytes still belong to an escape: every `%` that it
meets has two bytes behind it, which the scan skips. Another `behind` bytes follow. -/
def unbrokenAfter (behind : Nat) : Nat → List Byte → Bool
  | pending, [] => pending ≤ behind
  | 0, ch :: rest => unbrokenAfter behind (if ch = PERCENT then 2 else 0) rest
  | pending + 1, _ :: rest => unbrokenAfter behind pending rest

def unbroken (behind : Nat) (bytes : List Byte) : Bool := unbrokenAfter behind 0 bytes

theorem unbroken_nil (behind : Nat) : unbroken behind [] = true := by
  simp [unbroken, unbrokenAfter]

theorem unbroken_cons {ch : Byte} (h : ch ≠ PERCENT) (behind : Nat) (rest : List Byte) :
    unbroken behind (ch :: rest) = unbroken behind rest := by
  rw [unbroken, unbrokenAfter, if_neg h]
  rfl

theorem unbroken_escape (behind : Nat) (rest : List Byte) :
    unbroken behind (PERCENT :: rest) = true ↔
      2 ≤ rest.length + behind ∧ unbroken behind (rest.drop 2) = true := by
  rw [unbroken, unbrokenAfter, if_pos rfl]
  match rest with
  | [] => simp [unbrokenAfter, unbroken]
  | [_] =>
    simp only [unbrokenAfter, unbroken, List.length_singleton, List.drop_succ_cons, List.drop_nil,
      zero_le, decide_true, and_true, decide_eq_true_eq]
    omega
  | _ :: _ :: rest =>
    simp only [unbrokenAfter, unbroken, List.length_cons, List.drop_succ_cons, List.drop_zero]
    exact (and_iff_right (by omega)).symm

namespace HttpContext

theorem limit_of_lt {body : List Byte} (h : body.length < 2 ^ 31) : limit body = body.length := by
  have hmod : toInt body.length = body.length := by
    apply Int.bmod_eq_of_le_mul_two
    · omega
    · omega
  rw [limit, hmod]
  rfl

theorem toInt_eq (size : Nat) : toInt size =
    if (size : Int) % 4294967296 < 2147483648 then (size : Int) % 4294967296
    else (size : Int) % 4294967296 - 4294967296 := Int.bmod_def size (2 ^ 32)

/-- An escape has to end in front of this index: in the body, with an `int` behind it. -/
def escapeBound (body : List Byte) : Nat := min body.length (2 ^ 31 - 1)

theorem lt_escapeBound {body : List Byte} {k : Nat} :
    k < escapeBound body ↔ k < body.length ∧ k + 1 < 2 ^ 31 := by
  rw [escapeBound]
  omega

theorem escapeBound_set (body : List Byte) (k : Nat) (ch : Byte) :
    escapeBound (body.set k ch) = escapeBound body := by
  rw [escapeBound, List.length_set, escapeBound]

theorem limit_le (body : List Byte) : limit body ≤ escapeBound body := by
  rw [limit, escapeBound, toInt_eq]
  split_ifs with hlow
  · omega
  · omega

theorem limit_lt (body : List Byte) : limit body < 2 ^ 31 := by
  have hle := (limit_le body).trans (min_le_right _ _)
  omega

/-- No escape is broken in the part of the body that the loop goes over. -/
def WholeEscapes (body : List Byte) : Prop :=
  unbroken (escapeBound body - limit body) (body.take (limit body)) = true

instance (body : List Byte) : Decidable (WholeEscapes body) := inferInstanceAs (Decidable (_ = _))

theorem wholeEscapes_nil : WholeEscapes [] := unbroken_nil _

/-- In a body whose size fits in an `int`, the two bytes must be in the body. -/
theorem wholeEscapes_of_lt {body : List Byte} (h : body.length < 2 ^ 31) :
    WholeEscapes body ↔ unbroken 0 body = true := by
  have hbound : escapeBound body - body.length = 0 := by
    rw [escapeBound]
    omega
  rw [WholeEscapes, limit_of_lt h, List.take_length, hbound]

/-- The index behind an escape at `i`, if it overflows: it is then below `n`, and used. -/
def overflowed (i : Nat) : List Nat := if i + 3 < 2 ^ 31 then [] else [i + 3]

/-- The indices of `body` that the loop of `parsePost_` reads and writes from `i` on, up to `n`,
before they are taken as an `int`; `substr` reads those from `j` on. Behind an escape that leaves
the string nothing is defined. -/
def usedIndices (n : Nat) : Nat → List Byte → Nat → Nat → List Nat
  | 0, _, _, _ => []
  | fuel + 1, body, i, j =>
    match (body.take n)[i]? with
    | none => []
    | some ch =>
      if ch = EQUALS then i :: List.range' j (i - j) ++ usedIndices n fuel body (i + 1) (i + 1)
      else if ch = PLUS then [i, i] ++ usedIndices n fuel (body.set i SP) (i + 1) j
      else if ch = PERCENT then [i, i + 1, i + 2, i + 2, i + 1] ++
        (decodeEscape body i).elim (overflowed i) fun body => usedIndices n fuel body (i + 3) j
      else if ch = AMPERSAND then
        i :: List.range' j (i - j) ++ usedIndices n fuel body (i + 1) (i + 1)
      else i :: usedIndices n fuel body (i + 1) j

/-- The indices that `parsePost_` uses. -/
def bodyIndices (c : HttpContext) : List Int :=
  if c.request_.IsForm ∧ c.request_.body_ ≠ [] then
    (usedIndices (limit c.request_.body_) (limit c.request_.body_) c.request_.body_ 0 0).map
      fun k => toInt k
  else []

/-- The index is one of a string of that size. -/
def InBounds (size k : Nat) : Prop := 0 ≤ toInt k ∧ toInt k < size

theorem inBounds_iff {size k : Nat} (h : k < 2 ^ 32) : InBounds size k ↔ k < size ∧ k < 2 ^ 31 := by
  rw [InBounds, toInt_eq]
  split_ifs with hlow
  · omega
  · omega

theorem inBounds_of_lt {body : List Byte} {k : Nat} (h : k < escapeBound body) :
    InBounds body.length k := by
  obtain ⟨hlt, hint⟩ := lt_escapeBound.mp h
  exact (inBounds_iff (by omega)).mpr ⟨hlt, by omega⟩

variable {body : List Byte} {i j : Nat}

/-- An escape is decoded if both its bytes are there. -/
theorem decodeEscape_cases (body : List Byte) (i : Nat) :
    (i + 2 < escapeBound body ∧ ∃ high low, decodeEscape body i =
      some ((body.set (i + 2) low).set (i + 1) high)) ∨
    ¬ i + 2 < escapeBound body ∧ decodeEscape body i = none := by
  rw [lt_escapeBound]
  by_cases h : i + 2 < body.length ∧ i + 3 < 2 ^ 31
  · left
    have hlt := h.1
    have h1 : charAt body (i + 1) = some body[i + 1] := by
      rw [charAt, if_neg (by omega), List.getElem?_eq_getElem]
    have h2 : charAt body (i + 2) = some body[i + 2] := by
      rw [charAt, if_neg (by omega), List.getElem?_eq_getElem]
    refine ⟨h, UInt8.ofInt ((convertHex body[i + 1] * 16 + convertHex body[i + 2]).tdiv 10 + 48),
      UInt8.ofInt ((convertHex body[i + 1] * 16 + convertHex body[i + 2]).tmod 10 + 48), ?_⟩
    simp only [decodeEscape, h1, h2, Option.bind_eq_bind, Option.bind_some, h, and_self, if_true]
  · right
    refine ⟨h, ?_⟩
    simp only [decodeEscape, h, if_false, Option.bind_eq_bind]
    cases charAt body (i + 1) with
    | none => rfl
    | some high =>
      cases charAt body (i + 2) with
      | none => rfl
      | some low => rfl

/-- What is written at an index that the scan has passed does not matter to it. -/
theorem drop_take_set {n k m : Nat} (h : k < m) (ch : Byte) :
    ((body.set k ch).take n).drop m = (body.take n).drop m := by
  rw [List.take_set, List.drop_set_of_lt h]

theorem drop_escape {n : Nat} (high low : Byte) :
    (((body.set (i + 2) low).set (i + 1) high).take n).drop (i + 3) =
      (body.take n).drop (i + 3) := by
  rw [drop_take_set (by omega), drop_take_set (by omega)]

theorem escapeBound_escape (body : List Byte) (i : Nat) (high low : Byte) :
    escapeBound ((body.set (i + 2) low).set (i + 1) high) = escapeBound body := by
  rw [escapeBound_set, escapeBound_set]

/-- The byte at which the loop is, in front of those that it has still to meet. -/
theorem scan_cons {n : Nat} {ch : Byte} (h : (body.take n)[i]? = some ch) :
    i < n ∧ i < body.length ∧ (body.take n).drop i = ch :: (body.take n).drop (i + 1) := by
  obtain ⟨hi, hget⟩ := List.getElem?_eq_some_iff.mp h
  have hlength := List.length_take_le n body
  have hlength' := List.length_take_le' n body
  refine ⟨by omega, by omega, ?_⟩
  rw [List.drop_eq_getElem_cons hi, hget]

theorem scan_nil {n : Nat} (h : (body.take n)[i]? = none) : (body.take n).drop i = [] :=
  List.drop_eq_nil_of_le (List.getElem?_eq_none_iff.mp h)

theorem scan_out {n : Nat} (h : n ≤ i) : (body.take n).drop i = [] :=
  List.drop_eq_nil_of_le ((List.length_take_le n body).trans h)

/-- An escape is whole if there are two more bytes in the body. -/
theorem escape_iff {n : Nat} (hn : n ≤ escapeBound body) (hi : i < n) :
    unbroken (escapeBound body - n) (PERCENT :: (body.take n).drop (i + 1)) = true ↔
      i + 2 < escapeBound body ∧
        unbroken (escapeBound body - n) ((body.take n).drop (i + 3)) = true := by
  have hle : n ≤ body.length := hn.trans (min_le_left _ _)
  rw [unbroken_escape, List.drop_drop, List.length_drop, List.length_take_of_le hle]
  apply and_congr_left
  intro _
  omega

/-- An escape that is not decoded leaves the body. -/
theorem escape_inside {n : Nat} (hin : i < n) (hn : n ≤ escapeBound body)
    (h : ∀ k ∈ [i, i + 1, i + 2, i + 2, i + 1] ++ overflowed i, InBounds body.length k) :
    i + 2 < escapeBound body := by
  have hi := (lt_escapeBound.mp (hin.trans_le hn)).2
  obtain ⟨htwo, -⟩ := (inBounds_iff (by omega)).mp (h (i + 2) (by simp))
  refine lt_escapeBound.mpr ⟨htwo, ?_⟩
  by_contra hint
  have hthree : i + 3 ∈ overflowed i := by
    rw [overflowed, if_neg hint]
    exact List.mem_singleton_self _
  obtain ⟨-, hsmall⟩ := (inBounds_iff (by omega)).mp (h (i + 3) (List.mem_append_right _ hthree))
  exact hint hsmall

/-- The loop stays in the body exactly when no escape is broken. -/
theorem usedIndices_inside_iff {n : Nat} (fuel : Nat) (hn : n ≤ escapeBound body) (hj : j ≤ i)
    (hfuel : n ≤ i + fuel) :
    (∀ k ∈ usedIndices n fuel body i j, InBounds body.length k) ↔
      unbroken (escapeBound body - n) ((body.take n).drop i) = true := by
  induction fuel generalizing body i j with
  | zero =>
    have hout : n ≤ i := hfuel
    rw [scan_out hout, unbroken_nil]
    simp [usedIndices]
  | succ fuel ih =>
    cases hch : (body.take n)[i]? with
    | none =>
      rw [usedIndices, hch, scan_nil hch, unbroken_nil]
      simp
    | some ch =>
      obtain ⟨hin, -, hdrop⟩ := scan_cons hch
      have hi : InBounds body.length i := inBounds_of_lt (by omega)
      have hrange : ∀ k ∈ List.range' j (i - j), InBounds body.length k := by
        intro k hk
        have hk' := List.mem_range'_1.mp hk
        exact inBounds_of_lt (by omega)
      have hnext : (∀ k ∈ usedIndices n fuel body (i + 1) (i + 1), InBounds body.length k) ↔
          unbroken (escapeBound body - n) ((body.take n).drop (i + 1)) = true :=
        ih hn le_rfl (by omega)
      have hsame : (∀ k ∈ usedIndices n fuel body (i + 1) j, InBounds body.length k) ↔
          unbroken (escapeBound body - n) ((body.take n).drop (i + 1)) = true :=
        ih hn (by omega) (by omega)
      rw [usedIndices, hch, hdrop]
      simp only
      split_ifs with heq hplus hpercent hamp
      · rw [unbroken_cons (by rw [heq]; decide), ← hnext]
        simp only [List.cons_append, List.forall_mem_cons, List.forall_mem_append, hi, true_and]
        exact and_iff_right hrange
      · have hlength : (body.set i SP).length = body.length := List.length_set
        have hbound := escapeBound_set body i SP
        have hset : (∀ k ∈ usedIndices n fuel (body.set i SP) (i + 1) j, InBounds body.length k) ↔
            unbroken (escapeBound body - n) ((body.take n).drop (i + 1)) = true := by
          rw [← hlength, ih (by omega) (by omega) (by omega), drop_take_set (by omega), hbound]
        rw [unbroken_cons (by rw [hplus]; decide), ← hset]
        simp only [List.cons_append, List.nil_append, List.forall_mem_cons, hi, true_and]
      · rw [hpercent, escape_iff hn hin]
        rcases decodeEscape_cases body i with ⟨hlt, high, low, hdec⟩ | ⟨hle, hdec⟩
        · have hlength : ((body.set (i + 2) low).set (i + 1) high).length = body.length := by
            rw [List.length_set, List.length_set]
          have hbound := escapeBound_escape body i high low
          have hset : (∀ k ∈ usedIndices n fuel ((body.set (i + 2) low).set (i + 1) high) (i + 3) j,
              InBounds body.length k) ↔
                unbroken (escapeBound body - n) ((body.take n).drop (i + 3)) = true := by
            rw [← hlength, ih (by omega) (by omega) (by omega), drop_escape, hbound]
          have hone : InBounds body.length (i + 1) := inBounds_of_lt (by omega)
          have htwo : InBounds body.length (i + 2) := inBounds_of_lt hlt
          rw [hdec]
          simp only [Option.elim_some, List.cons_append, List.nil_append, List.forall_mem_cons, hi,
            hone, htwo, hlt, true_and, hset]
        · rw [hdec]
          apply iff_of_false
          · intro h
            exact hle (escape_inside hin hn h)
          · intro h
            exact hle h.1
      · rw [unbroken_cons hpercent, ← hnext]
        simp only [List.cons_append, List.forall_mem_cons, List.forall_mem_append, hi, true_and]
        exact and_iff_right hrange
      · rw [unbroken_cons hpercent, ← hsame]
        simp only [List.forall_mem_cons, hi, true_and]

/-- `parsePost_` stays in the body exactly when it does not decode it, or every escape that the
loop meets has both its digits in the body, with an `int` behind them. -/
theorem bodyIndices_inside_iff (c : HttpContext) :
    (∀ k ∈ c.bodyIndices, 0 ≤ k ∧ k < c.request_.body_.length) ↔
      ¬ c.request_.IsForm ∨ WholeEscapes c.request_.body_ := by
  rw [bodyIndices]
  by_cases hform : c.request_.IsForm
  · by_cases hbody : c.request_.body_ = []
    · simp [hbody, wholeEscapes_nil]
    · rw [if_pos ⟨hform, hbody⟩, List.forall_mem_map]
      show (∀ k ∈ _, InBounds c.request_.body_.length k) ↔ _
      rw [usedIndices_inside_iff _ (limit_le _) le_rfl (by omega), List.drop_zero]
      exact (or_iff_right (not_not.mpr hform)).symm
  · simp [hform]

/-- The loop has a defined result exactly when no escape is broken. -/
theorem parsePostLoop_isSome_iff {n : Nat} (fuel : Nat) (r : HttpRequestTest) (key : List Byte)
    (hn : n ≤ escapeBound body) (hfuel : n ≤ i + fuel) :
    (parsePostLoop n fuel r body key i j).isSome ↔
      unbroken (escapeBound body - n) ((body.take n).drop i) = true := by
  induction fuel generalizing r body key i j with
  | zero =>
    have hout : n ≤ i := hfuel
    rw [scan_out hout, unbroken_nil]
    simp [parsePostLoop]
  | succ fuel ih =>
    cases hch : (body.take n)[i]? with
    | none =>
      rw [parsePostLoop, hch, scan_nil hch, unbroken_nil]
      simp
    | some ch =>
      obtain ⟨hin, -, hdrop⟩ := scan_cons hch
      rw [parsePostLoop, hch, hdrop]
      simp only
      split_ifs with heq hplus hpercent hamp
      · rw [unbroken_cons (by rw [heq]; decide)]
        exact ih _ _ hn (by omega)
      · have hbound := escapeBound_set body i SP
        rw [unbroken_cons (by rw [hplus]; decide), ih _ _ (by omega) (by omega), hbound,
          drop_take_set (by omega)]
      · have hescape : ch = PERCENT := hpercent
        rw [hescape, escape_iff hn hin]
        rcases decodeEscape_cases body i with ⟨hlt, high, low, hdec⟩ | ⟨hle, hdec⟩
        · have hbound := escapeBound_escape body i high low
          rw [hdec, Option.bind_some, ih _ _ (by omega) (by omega), hbound, drop_escape,
            and_iff_right hlt]
        · rw [hdec]
          apply iff_of_false
          · simp
          · intro h
            exact hle h.1
      · rw [unbroken_cons hpercent]
        exact ih _ _ hn (by omega)
      · rw [unbroken_cons hpercent]
        exact ih _ _ hn (by omega)

theorem parsePost_isSome_iff (c : HttpContext) :
    c.parsePost_.isSome ↔ ¬ c.request_.IsForm ∨ WholeEscapes c.request_.body_ := by
  rw [parsePost_]
  by_cases hform : c.request_.IsForm
  · by_cases hbody : c.request_.body_ = []
    · simp [hbody, wholeEscapes_nil]
    · rw [if_pos ⟨hform.1, hform.2, hbody⟩, Option.isSome_map,
        parsePostLoop_isSome_iff _ _ _ (limit_le _) (by omega), List.drop_zero]
      exact (or_iff_right (not_not.mpr hform)).symm
  · have hnot : ¬ (c.request_.method_ = .kPost ∧ c.request_.getHeader_ (text "Content-Type") =
        text "application/x-www-form-urlencoded" ∧ c.request_.body_ ≠ []) :=
      fun h => hform ⟨h.1, h.2.1⟩
    rw [if_neg hnot]
    exact iff_of_true rfl (Or.inl hform)

/-- A form that ends in the middle of an escape, in a context whose owner has set the method. -/
def cutForm : HttpContext where
  request_ := { HttpRequestTest.new.addHeader_ (text "Content-Type")
      (text "application/x-www-form-urlencoded") with
    method_ := .kPost
    body_ := text "a=%4" }
  state_ := .BODY

/-- The second digit would be at index 4, and the body has four bytes. -/
theorem cutForm_outside : 4 ∈ cutForm.bodyIndices ∧
    ¬ ∀ c : HttpContext, ∀ k ∈ c.bodyIndices, 0 ≤ k ∧ k < c.request_.body_.length := by
  have hmem : 4 ∈ cutForm.bodyIndices := by decide +kernel
  refine ⟨hmem, ?_⟩
  intro h
  exact absurd (h cutForm 4 hmem).2 (by decide)

end HttpContext

end Mymuduo.Http
