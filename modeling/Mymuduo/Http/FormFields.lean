import Mymuduo.Http.FormPost

namespace Mymuduo.Http

open Lib Net

/-! The encoding of a form, and what `parsePost_` makes of it. -/

def alphanumeric (b : Byte) : Bool :=
  (48 ≤ b && b ≤ 57) || (65 ≤ b && b ≤ 90) || (97 ≤ b && b ≤ 122)

/-- A hexadecimal digit, with a capital letter or a small one. -/
def hexDigit (upper : Bool) (n : Nat) : Byte :=
  if n < 10 then UInt8.ofNat (48 + n) else UInt8.ofNat ((if upper then 55 else 87) + n)

/-- An encoded byte. The digits of an escape may have letters of either case. -/
def encodeByte (high low : Bool) (b : Byte) : List Byte :=
  if alphanumeric b then [b]
  else if b = SP then [PLUS]
  else [PERCENT, hexDigit high (b.toNat / 16), hexDigit low (b.toNat % 16)]

/-- The encodings of a text. -/
inductive Encodes : List Byte → List Byte → Prop where
  | nil : Encodes [] []
  | cons (high low : Bool) (b : Byte) {s w : List Byte} (h : Encodes s w) :
      Encodes (b :: s) (encodeByte high low b ++ w)

/-- The number that `parsePost_` reads in the escape of a byte. -/
def escapeNum (b : Byte) : Int :=
  HttpContext.convertHex (hexDigit true (b.toNat / 16)) * 16 +
    HttpContext.convertHex (hexDigit true (b.toNat % 16))

/-- What stays of a byte: of an escape the `%` with two other bytes behind it. -/
def garbleByte (b : Byte) : List Byte :=
  if alphanumeric b then [b]
  else if b = SP then [SP]
  else [PERCENT, UInt8.ofInt ((escapeNum b).tdiv 10 + 48), UInt8.ofInt ((escapeNum b).tmod 10 + 48)]

def garble (s : List Byte) : List Byte := s.flatMap garbleByte

/-- Letters, digits and blanks only. -/
def Literal (s : List Byte) : Prop := ∀ b ∈ s, alphanumeric b = true ∨ b = SP

theorem garbleByte_literal {b : Byte} (h : alphanumeric b = true ∨ b = SP) :
    garbleByte b = [b] := by
  rw [garbleByte]
  by_cases halpha : alphanumeric b = true
  · rw [if_pos halpha]
  · rw [if_neg halpha, if_pos (h.resolve_left halpha), h.resolve_left halpha]

theorem garble_literal {s : List Byte} (h : Literal s) : garble s = s := by
  induction s with
  | nil => rfl
  | cons b s ih =>
    rw [garble, List.flatMap_cons, garbleByte_literal (h b List.mem_cons_self)]
    exact congrArg (b :: ·) (ih fun x hx => h x (List.mem_cons_of_mem _ hx))

theorem length_garbleByte (b : Byte) : 1 ≤ (garbleByte b).length ∧
    ((garbleByte b).length = 1 → alphanumeric b = true ∨ b = SP) := by
  rw [garbleByte]
  split_ifs with halpha hblank
  · exact ⟨le_rfl, fun _ => Or.inl halpha⟩
  · exact ⟨le_rfl, fun _ => Or.inr hblank⟩
  · exact ⟨by simp, fun h => absurd h (by simp)⟩

/-- An escape makes a text longer. -/
theorem length_garble (s : List Byte) :
    s.length ≤ (garble s).length ∧ ((garble s).length = s.length → Literal s) := by
  induction s with
  | nil => exact ⟨le_rfl, fun _ b hb => absurd hb List.not_mem_nil⟩
  | cons b s ih =>
    obtain ⟨hone, hbyte⟩ := length_garbleByte b
    obtain ⟨hle, hrest⟩ := ih
    have hlength : (garble (b :: s)).length = (garbleByte b).length + (garble s).length := by
      rw [garble, List.flatMap_cons, List.length_append]
      rfl
    rw [hlength, List.length_cons]
    refine ⟨by omega, ?_⟩
    intro heq x hx
    rcases List.mem_cons.mp hx with rfl | hx
    · exact hbyte (by omega)
    · exact hrest (by omega) x hx

theorem length_encodeByte (high low : Bool) (b : Byte) :
    (encodeByte high low b).length = (garbleByte b).length := by
  rw [encodeByte, garbleByte]
  split_ifs <;> rfl

theorem convertHex_hexDigit (upper : Bool) {n : Nat} (h : n < 16) :
    HttpContext.convertHex (hexDigit upper n) = HttpContext.convertHex (hexDigit true n) := by
  cases upper with
  | true => rfl
  | false => interval_cases n <;> decide

theorem alphanumeric_ne {b : Byte} (h : alphanumeric b = true) :
    b ≠ 61 ∧ b ≠ 43 ∧ b ≠ 37 ∧ b ≠ 38 := by
  refine ⟨?_, ?_, ?_, ?_⟩
  all_goals
    intro he
    subst he
    revert h
    decide

theorem hexDigit_ne (upper : Bool) {n : Nat} (h : n < 16) : hexDigit upper n ≠ AMPERSAND := by
  cases upper with
  | true => interval_cases n <;> decide
  | false => interval_cases n <;> decide

theorem ampersand_not_mem_encodeByte (high low : Bool) (b : Byte) :
    AMPERSAND ∉ encodeByte high low b := by
  intro hb
  have hlt : b.toNat < 256 := b.toNat_lt
  have hhigh := hexDigit_ne high (n := b.toNat / 16) (by omega)
  have hlow := hexDigit_ne low (n := b.toNat % 16) (by omega)
  rw [encodeByte] at hb
  split_ifs at hb with halpha hblank
  · exact (alphanumeric_ne halpha).2.2.2 (List.mem_singleton.mp hb).symm
  · exact absurd (List.mem_singleton.mp hb) (by decide)
  · simp only [List.mem_cons, List.not_mem_nil, or_false] at hb
    rcases hb with hb | hb | hb
    · exact absurd hb (by decide)
    · exact hhigh hb.symm
    · exact hlow hb.symm

namespace Encodes

variable {s w : List Byte}

/-- The encoding keeps the separator out. -/
theorem ampersand_not_mem (h : Encodes s w) : AMPERSAND ∉ w := by
  induction h with
  | nil => exact List.not_mem_nil
  | cons high low b _ ih =>
    intro hmem
    rcases List.mem_append.mp hmem with hmem | hmem
    · exact ampersand_not_mem_encodeByte high low b hmem
    · exact ih hmem

/-- No escape of an encoded text is broken. -/
theorem unbroken_append (h : Encodes s w) (behind : Nat) (rest : List Byte) :
    unbroken behind (w ++ rest) = unbroken behind rest := by
  induction h with
  | nil => rfl
  | @cons high low b s w _ ih =>
    rw [List.append_assoc, ← ih, encodeByte]
    split_ifs with halpha hblank
    · exact unbroken_cons (alphanumeric_ne halpha).2.2.1 behind _
    · exact unbroken_cons (by decide) behind _
    · apply Bool.eq_iff_iff.mpr
      rw [List.cons_append, unbroken_escape]
      apply and_iff_right
      simp only [List.cons_append, List.nil_append, List.length_cons]
      omega

theorem length_eq (h : Encodes s w) : (garble s).length = w.length := by
  induction h with
  | nil => rfl
  | cons high low b _ ih =>
    rw [garble, List.flatMap_cons, List.length_append, List.length_append, length_encodeByte, ← ih]
    rfl

theorem length_le (h : Encodes s w) : s.length ≤ w.length := by
  rw [← h.length_eq]
  exact (length_garble s).1

end Encodes

namespace HttpContext

variable {n : Nat} {r : HttpRequestTest} {a rest key : List Byte} {j fuel : Nat}

theorem getElem?_middle (h : a.length < n) (rest : List Byte) (ch : Byte) :
    ((a ++ ch :: rest).take n)[a.length]? = some ch := by
  rw [List.getElem?_take_of_lt h]
  simp

theorem set_middle (a rest : List Byte) (x y : Byte) :
    (a ++ x :: rest).set a.length y = a ++ y :: rest := by
  simp

/-- The escape of a byte in the middle of a text. -/
theorem decodeEscape_middle (h : a.length + 3 < 2 ^ 31) (rest : List Byte) (high low : Byte) :
    decodeEscape (a ++ [PERCENT, high, low] ++ rest) a.length =
      some (a ++ [PERCENT, UInt8.ofInt ((convertHex high * 16 + convertHex low).tdiv 10 + 48),
        UInt8.ofInt ((convertHex high * 16 + convertHex low).tmod 10 + 48)] ++ rest) := by
  have h1 : charAt (a ++ [PERCENT, high, low] ++ rest) (a.length + 1) = some high := by
    rw [charAt, if_neg (by simp)]
    simp
  have h2 : charAt (a ++ [PERCENT, high, low] ++ rest) (a.length + 2) = some low := by
    rw [charAt, if_neg (by simp)]
    simp
  have hlt : a.length + 2 < (a ++ [PERCENT, high, low] ++ rest).length := by
    simp
  simp only [decodeEscape, h1, h2, Option.bind_eq_bind, Option.bind_some, hlt, h, and_self, if_true]
  simp

/-- One round takes one encoded byte. -/
theorem loop_encodeByte (hint : n < 2 ^ 31) (high low : Bool) (b : Byte)
    (hn : a.length + (encodeByte high low b).length ≤ n) :
    parsePostLoop n (fuel + 1) r (a ++ encodeByte high low b ++ rest) key a.length j =
      parsePostLoop n fuel r (a ++ garbleByte b ++ rest) key (a ++ garbleByte b).length j := by
  have hlt : a.length < n := by
    have hpos := (length_garbleByte b).1
    rw [← length_encodeByte high low] at hpos
    omega
  rw [encodeByte, garbleByte]
  split_ifs with halpha hblank
  · obtain ⟨heq, hplus, hpercent, hamp⟩ := alphanumeric_ne halpha
    rw [List.append_assoc, List.singleton_append, parsePostLoop, getElem?_middle hlt]
    simp only
    rw [if_neg heq, if_neg hplus, if_neg hpercent, if_neg hamp]
    simp
  · rw [List.append_assoc, List.singleton_append, parsePostLoop, getElem?_middle hlt]
    simp only
    rw [if_neg (by decide), if_pos (by decide), set_middle]
    simp
  · have hget : ((a ++ [PERCENT, hexDigit high (b.toNat / 16), hexDigit low (b.toNat % 16)] ++
        rest).take n)[a.length]? = some PERCENT := by
      rw [List.append_assoc]
      exact getElem?_middle hlt _ _
    have hbyte : b.toNat < 256 := b.toNat_lt
    have hescape : a.length + 3 ≤ n := by
      rwa [encodeByte, if_neg halpha, if_neg hblank] at hn
    rw [parsePostLoop, hget]
    simp only
    rw [if_neg (by decide), if_neg (by decide), if_pos (by decide), decodeEscape_middle (by omega),
      Option.bind_some, convertHex_hexDigit high (by omega), convertHex_hexDigit low (by omega)]
    simp [escapeNum]

/-- The rounds for an encoded text. -/
theorem loop_encodes (hint : n < 2 ^ 31) {s w : List Byte} (h : Encodes s w)
    (hn : a.length + w.length ≤ n) :
    parsePostLoop n (s.length + fuel) r (a ++ w ++ rest) key a.length j =
      parsePostLoop n fuel r (a ++ garble s ++ rest) key (a ++ garble s).length j := by
  induction h generalizing a with
  | nil => simp [garble]
  | @cons high low b s w _ ih =>
    have hfuel : (b :: s).length + fuel = (s.length + fuel) + 1 := by
      rw [List.length_cons]
      omega
    have hsplit : a ++ (encodeByte high low b ++ w) ++ rest =
        a ++ encodeByte high low b ++ (w ++ rest) := by
      simp
    have hjoin : a ++ garbleByte b ++ garble s = a ++ garble (b :: s) := by
      simp [garble]
    rw [List.length_append] at hn
    rw [hfuel, hsplit, loop_encodeByte hint high low b (by omega), ← List.append_assoc, ih, hjoin]
    rw [List.length_append, ← length_encodeByte high low]
    omega

end HttpContext

/-- A field of a form. -/
structure FormPair where
  key : List Byte
  value : List Byte
  key_ne : key ≠ []
  value_ne : value ≠ []

namespace FormPair

def Encodes (p : FormPair) (w : List Byte) : Prop :=
  ∃ u v, Http.Encodes p.key u ∧ Http.Encodes p.value v ∧ w = u ++ EQUALS :: v

def garbled (p : FormPair) : List Byte := garble p.key ++ EQUALS :: garble p.value

def pair (p : FormPair) : List Byte × List Byte := (p.key, p.value)

namespace Encodes

variable {p : FormPair} {w : List Byte}

theorem unbroken_append (h : p.Encodes w) (behind : Nat) (rest : List Byte) :
    unbroken behind (w ++ rest) = unbroken behind rest := by
  obtain ⟨u, v, hu, hv, rfl⟩ := h
  rw [List.append_assoc, hu.unbroken_append, List.cons_append, unbroken_cons (by decide),
    hv.unbroken_append]

theorem length_eq (h : p.Encodes w) : p.garbled.length = w.length := by
  obtain ⟨u, v, hu, hv, rfl⟩ := h
  rw [garbled, List.length_append, List.length_cons, List.length_append, List.length_cons,
    hu.length_eq, hv.length_eq]

theorem length_le (h : p.Encodes w) : p.key.length + p.value.length + 1 ≤ w.length := by
  obtain ⟨u, v, hu, hv, rfl⟩ := h
  have hkey := hu.length_le
  have hvalue := hv.length_le
  rw [List.length_append, List.length_cons]
  omega

theorem ampersand_not_mem (h : p.Encodes w) : AMPERSAND ∉ w := by
  obtain ⟨u, v, hu, hv, rfl⟩ := h
  have hne : AMPERSAND ≠ EQUALS := by decide
  simp only [List.mem_append, List.mem_cons, not_or]
  exact ⟨hu.ampersand_not_mem, hne, hv.ampersand_not_mem⟩

end Encodes

end FormPair

/-- The encodings of a form. -/
inductive EncodesForm : List FormPair → List Byte → Prop where
  | nil : EncodesForm [] []
  | one {p : FormPair} {w : List Byte} (h : p.Encodes w) : EncodesForm [p] w
  | cons {p q : FormPair} {ps : List FormPair} {w rest : List Byte} (h : p.Encodes w)
      (hrest : EncodesForm (q :: ps) rest) : EncodesForm (p :: q :: ps) (w ++ AMPERSAND :: rest)

theorem EncodesForm.unbroken {ps : List FormPair} {body : List Byte} (h : EncodesForm ps body)
    (behind : Nat) : Http.unbroken behind body = true := by
  induction h with
  | nil => exact unbroken_nil behind
  | @one p w h =>
    rw [← List.append_nil w, h.unbroken_append]
    exact unbroken_nil behind
  | cons h _ ih => rw [h.unbroken_append, unbroken_cons (by decide), ih]

/-- The fields that are added one by one, as they come out of the loop. -/
def HttpRequestTest.addPairs (r : HttpRequestTest) (ps : List FormPair) : HttpRequestTest :=
  ps.foldl (fun r p => r.addPost_ (garble p.key) (garble p.value)) r

namespace HttpContext

variable {n : Nat} {r : HttpRequestTest} {a t rest key body : List Byte} {i j fuel : Nat}

theorem slice_middle (a t rest : List Byte) :
    ((a ++ t ++ rest).drop a.length).take ((a ++ t).length - a.length) = t := by
  simp

/-- The key ends. -/
theorem loop_equals (hn : (a ++ t).length < n) :
    parsePostLoop n (fuel + 1) r (a ++ t ++ EQUALS :: rest) key (a ++ t).length a.length =
      parsePostLoop n fuel r (a ++ t ++ EQUALS :: rest) t (a ++ t ++ [EQUALS]).length
        (a ++ t ++ [EQUALS]).length := by
  rw [parsePostLoop, getElem?_middle hn]
  simp only
  rw [if_pos (by decide), slice_middle]
  simp [Nat.add_assoc]

/-- The value ends, and with it the field. -/
theorem loop_ampersand (hn : (a ++ t).length < n) :
    parsePostLoop n (fuel + 1) r (a ++ t ++ AMPERSAND :: rest) key (a ++ t).length a.length =
      parsePostLoop n fuel (r.addPost_ key t) (a ++ t ++ AMPERSAND :: rest) key
        (a ++ t ++ [AMPERSAND]).length (a ++ t ++ [AMPERSAND]).length := by
  rw [parsePostLoop, getElem?_middle hn]
  simp only
  rw [if_neg (by decide), if_neg (by decide), if_neg (by decide), if_pos (by decide), slice_middle]
  simp [Nat.add_assoc]

/-- The rounds for one field. -/
theorem loop_pair (hint : n < 2 ^ 31) {p : FormPair} {w : List Byte} (h : p.Encodes w)
    (hn : a.length + w.length ≤ n) :
    parsePostLoop n (p.key.length + (p.value.length + fuel + 1)) r (a ++ w ++ rest) key
        a.length a.length =
      parsePostLoop n fuel r (a ++ garble p.key ++ [EQUALS] ++ garble p.value ++ rest)
        (garble p.key) (a ++ garble p.key ++ [EQUALS] ++ garble p.value).length
        (a ++ garble p.key ++ [EQUALS]).length := by
  obtain ⟨u, v, hu, hv, rfl⟩ := h
  have hkey : a ++ (u ++ EQUALS :: v) ++ rest = a ++ u ++ (EQUALS :: v ++ rest) := by simp
  have hvalue : a ++ garble p.key ++ (EQUALS :: v ++ rest) =
      a ++ garble p.key ++ [EQUALS] ++ v ++ rest := by simp
  have hlength := hu.length_eq
  rw [List.length_append, List.length_cons] at hn
  rw [hkey, loop_encodes hint hu (by omega), List.cons_append, loop_equals, ← List.cons_append,
    hvalue, loop_encodes hint hv]
  · rw [List.length_append, List.length_append, List.length_singleton]
    omega
  · rw [List.length_append]
    omega

/-- Only the separator adds a field. -/
theorem loop_no_ampersand {r' : HttpRequestTest} {body' : List Byte}
    (hamp : AMPERSAND ∉ (body.take n).drop i)
    (h : parsePostLoop n fuel r body key i j = some (r', body')) : r' = r := by
  induction fuel generalizing body key i j with
  | zero => exact (Prod.mk.inj (Option.some.inj h)).1.symm
  | succ fuel ih =>
    rw [parsePostLoop] at h
    cases hch : (body.take n)[i]? with
    | none =>
      rw [hch] at h
      exact (Prod.mk.inj (Option.some.inj h)).1.symm
    | some ch =>
      obtain ⟨-, -, hdrop⟩ := scan_cons hch
      rw [hdrop, List.mem_cons, not_or] at hamp
      rw [hch] at h
      simp only at h
      split_ifs at h with heq hplus hpercent hand
      · exact ih hamp.2 h
      · apply ih _ h
        rw [drop_take_set (by omega)]
        exact hamp.2
      · rcases decodeEscape_cases body i with ⟨-, high, low, hdec⟩ | ⟨-, hdec⟩
        · rw [hdec, Option.bind_some] at h
          apply ih _ h
          rw [drop_escape]
          intro hmem
          have hrest : (body.take n).drop (i + 3) = ((body.take n).drop (i + 1)).drop 2 := by
            rw [List.drop_drop]
          rw [hrest] at hmem
          exact hamp.2 (List.mem_of_mem_drop hmem)
        · rw [hdec] at h
          cases h
      · exact absurd hand.symm hamp.1
      · exact ih hamp.2 h

end HttpContext

/-- The number of fields whose separator stands in front of index `n`. -/
def flushed (n : Nat) (body : List Byte) : Nat := (body.take n).count AMPERSAND

theorem flushed_part {p : FormPair} {w : List Byte} (h : p.Encodes w) (n : Nat) :
    flushed n w = 0 := by
  apply List.count_eq_zero_of_not_mem
  intro hmem
  exact h.ampersand_not_mem (List.mem_of_mem_take hmem)

theorem flushed_cons {p : FormPair} {w : List Byte} (h : p.Encodes w) (rest : List Byte) {n : Nat}
    (hn : w.length < n) :
    flushed n (w ++ AMPERSAND :: rest) = flushed (n - (w.length + 1)) rest + 1 := by
  obtain ⟨k, rfl⟩ : ∃ k, n = w.length + (k + 1) := ⟨n - (w.length + 1), by omega⟩
  have hrest : w.length + (k + 1) - (w.length + 1) = k := by omega
  have hnone : w.count AMPERSAND = 0 := List.count_eq_zero_of_not_mem h.ampersand_not_mem
  rw [hrest, flushed, List.take_length_add_append, List.take_succ_cons, List.count_append,
    List.count_cons_self, hnone, Nat.zero_add]
  rfl

namespace HttpContext

variable {n : Nat} {r r' : HttpRequestTest} {a key body' : List Byte} {fuel : Nat}

/-- The fields whose separator the loop meets are added. -/
theorem loop_form (hint : n < 2 ^ 31) {ps : List FormPair} {body : List Byte}
    (hbody : EncodesForm ps body) (hfuel : n ≤ a.length + fuel)
    (h : parsePostLoop n fuel r (a ++ body) key a.length a.length = some (r', body')) :
    r' = r.addPairs (ps.take (flushed (n - a.length) body)) := by
  induction hbody generalizing r a key fuel with
  | nil =>
    have hsame : r' = r := by
      apply loop_no_ampersand _ h
      rw [List.drop_take, List.drop_left, List.take_nil]
      exact List.not_mem_nil
    rw [List.take_nil, hsame]
    rfl
  | @one p w hp =>
    rw [flushed_part hp]
    apply loop_no_ampersand _ h
    rw [List.drop_take, List.drop_left]
    intro hmem
    exact hp.ampersand_not_mem (List.mem_of_mem_take hmem)
  | @cons p q ps w rest hp _ ih =>
    by_cases hin : a.length + w.length < n
    · have hlength := hp.length_le
      have hgarbled := hp.length_eq
      obtain ⟨k, rfl⟩ : ∃ k, fuel = p.key.length + (p.value.length + (k + 1) + 1) :=
        ⟨fuel - (p.key.length + p.value.length + 2), by omega⟩
      have hnext : a ++ garble p.key ++ [EQUALS] ++ garble p.value = a ++ p.garbled := by
        simp [FormPair.garbled]
      have hend : (a ++ p.garbled ++ [AMPERSAND]).length = a.length + (w.length + 1) := by
        rw [List.length_append, List.length_append, List.length_singleton, hgarbled]
        omega
      have hjoin : a ++ p.garbled ++ AMPERSAND :: rest = a ++ p.garbled ++ [AMPERSAND] ++ rest := by
        simp
      have hseparator : (a ++ garble p.key ++ [EQUALS] ++ garble p.value).length < n := by
        rw [hnext, List.length_append, hgarbled]
        exact hin
      rw [← List.append_assoc, loop_pair hint hp hin.le, loop_ampersand hseparator, hnext,
        hjoin] at h
      rw [ih (by omega) h, hend, flushed_cons hp rest (by omega), List.take_succ_cons, Nat.sub_sub]
      rfl
    · have htake : (w ++ AMPERSAND :: rest).take (n - a.length) = w.take (n - a.length) :=
        List.take_append_of_le_length (by omega)
      have hnone : AMPERSAND ∉ w.take (n - a.length) := fun hmem =>
        hp.ampersand_not_mem (List.mem_of_mem_take hmem)
      rw [flushed, htake, List.count_eq_zero_of_not_mem hnone]
      apply loop_no_ampersand _ h
      rw [List.drop_take, List.drop_left, htake]
      exact hnone

end HttpContext

namespace FormPair

/-- The field as the loop adds it. -/
def garbledPair (p : FormPair) : List Byte × List Byte := (garble p.key, garble p.value)

/-- The value of the last field with the key. -/
def lookup (ps : List FormPair) (k : List Byte) : Option (List Byte) := lastValue (ps.map pair) k

def lookupGarbled (ps : List FormPair) (k : List Byte) : Option (List Byte) :=
  lastValue (ps.map garbledPair) k

variable {ps init : List FormPair} {p : FormPair} {k v : List Byte}

theorem lookup_append (init late : List FormPair) (k : List Byte) :
    lookup (init ++ late) k = (lookup late k).or (lookup init k) := by
  rw [lookup, List.map_append, lastValue_append]
  rfl

theorem lookup_mem (hp : p ∈ ps) : ∃ v, lookup ps p.key = some v := by
  apply Option.isSome_iff_exists.mp
  apply lastValue_isSome.mpr
  exact ⟨p.pair, List.mem_map_of_mem hp, rfl⟩

theorem lookup_ne_nil (h : lookup ps k = some v) : v ≠ [] := by
  obtain ⟨p, -, hp⟩ := List.mem_map.mp (mem_of_lastValue h)
  have hv : p.value = v := congrArg Prod.snd hp
  rw [← hv]
  exact p.value_ne

theorem lookup_key (h : lookup ps k = some v) : ∃ p ∈ ps, p.key = k := by
  obtain ⟨p, hp, heq⟩ := List.mem_map.mp (mem_of_lastValue h)
  exact ⟨p, hp, congrArg Prod.fst heq⟩

theorem lookupGarbled_key (h : lookupGarbled ps k = some v) : ∃ p ∈ ps, garble p.key = k := by
  obtain ⟨p, hp, heq⟩ := List.mem_map.mp (mem_of_lastValue h)
  exact ⟨p, hp, congrArg Prod.fst heq⟩

/-- With literal keys only the values are garbled. -/
theorem lookupGarbled_literal (h : ∀ p ∈ ps, Literal p.key) (k : List Byte) :
    lookupGarbled ps k = (lookup ps k).map garble := by
  have hmap : ps.map garbledPair = (ps.map pair).map fun p => (p.1, garble p.2) := by
    rw [List.map_map]
    apply List.map_congr_left
    intro p hp
    exact Prod.ext (garble_literal (h p hp)) rfl
  rw [lookupGarbled, hmap, lastValue_map]
  rfl

/-- A table in which every field is found, and no other key. -/
def Table (post : List Byte → Option (List Byte)) (ps : List FormPair) : Prop :=
  (∀ p ∈ ps, lookup ps p.key = some ((post p.key).getD [])) ∧
    ∀ k, post k ≠ none → ∃ p ∈ ps, p.key = k

/-- Where the loop does decode a form, of which it has added `init`: the fields of `late` repeat
keys, and what was garbled is what should be there. -/
structure Recoverable (init late : List FormPair) : Prop where
  keys : ∀ p ∈ init, Literal p.key
  values : ∀ p ∈ init, lookup late p.key = none → ∀ v, lookup init p.key = some v → Literal v
  repeated : ∀ p ∈ late, ∃ v, lookup init p.key = some v ∧ lookup late p.key = some (garble v)

theorem Table.found {post : List Byte → Option (List Byte)} (h : Table post ps) (hp : p ∈ ps) :
    ∃ v, lookup ps p.key = some v ∧ post p.key = some v := by
  obtain ⟨v, hv⟩ := lookup_mem hp
  refine ⟨v, hv, ?_⟩
  have hpost := h.1 p hp
  rw [hv] at hpost
  cases hcase : post p.key with
  | none =>
    rw [hcase] at hpost
    exact absurd (Option.some.inj hpost) (lookup_ne_nil hv)
  | some w =>
    rw [hcase] at hpost
    exact hpost.symm

/-- A key that was found comes from a key that is not longer, so the shortest one is literal. -/
theorem Table.literal_keys {late : List FormPair} (h : Table (lookupGarbled init) (init ++ late))
    (p : FormPair) (hp : p ∈ init ++ late) : Literal p.key := by
  induction hn : p.key.length using Nat.strong_induction_on generalizing p with
  | _ n ih =>
    obtain ⟨v, -, hpost⟩ := h.found hp
    obtain ⟨q, hq, hkey⟩ := lookupGarbled_key hpost
    obtain ⟨hle, hliteral⟩ := length_garble q.key
    have hqliteral : Literal q.key := by
      apply hliteral
      apply Nat.le_antisymm _ hle
      by_contra hlt
      have hshort : q.key.length < n := by
        rw [← hn, ← hkey]
        omega
      have hshorter := ih _ hshort q (List.mem_append_left _ hq) rfl
      rw [garble_literal hshorter] at hlt
      exact hlt le_rfl
    rw [← hkey, garble_literal hqliteral]
    exact hqliteral

theorem table_iff (init late : List FormPair) :
    Table (lookupGarbled init) (init ++ late) ↔ Recoverable init late := by
  constructor
  · intro h
    have hkeys : ∀ p ∈ init, Literal p.key := fun p hp =>
      h.literal_keys p (List.mem_append_left _ hp)
    refine ⟨hkeys, ?_, ?_⟩
    · intro p hp hnone v hv
      obtain ⟨w, hw, hpost⟩ := h.found (List.mem_append_left _ hp)
      rw [lookup_append, hnone, Option.none_or, hv] at hw
      rw [lookupGarbled_literal hkeys, hv, ← hw] at hpost
      have hsame : garble v = v := Option.some.inj hpost
      exact (length_garble v).2 (congrArg List.length hsame)
    · intro p hp
      obtain ⟨w, hw, hpost⟩ := h.found (List.mem_append_right init hp)
      obtain ⟨u, hu⟩ := lookup_mem hp
      rw [lookup_append, hu, Option.some_or] at hw
      rw [lookupGarbled_literal hkeys, ← hw] at hpost
      obtain ⟨v, hv, hgarble⟩ := Option.map_eq_some_iff.mp hpost
      exact ⟨v, hv, hu.trans (congrArg some hgarble.symm)⟩
  · intro hx
    obtain ⟨hkeys, hvalues, hrepeated⟩ := hx
    constructor
    · intro p hp
      rw [lookupGarbled_literal hkeys, lookup_append]
      cases hlate : lookup late p.key with
      | none =>
        have hp' : p ∈ init := by
          rcases List.mem_append.mp hp with hp | hp
          · exact hp
          · obtain ⟨u, hu⟩ := lookup_mem hp
            rw [hlate] at hu
            cases hu
        obtain ⟨w, hw⟩ := lookup_mem hp'
        rw [hw, Option.none_or, Option.map_some, garble_literal (hvalues p hp' hlate w hw),
          Option.getD_some]
      | some u =>
        obtain ⟨q, hq, hkey⟩ := lookup_key hlate
        obtain ⟨v, hv, hgarble⟩ := hrepeated q hq
        rw [hkey] at hv hgarble
        rw [hv, Option.some_or, Option.map_some, Option.getD_some, ← hgarble, hlate]
    · intro k hk
      obtain ⟨w, hw⟩ := Option.ne_none_iff_exists'.mp hk
      rw [lookupGarbled_literal hkeys] at hw
      obtain ⟨u, hu, -⟩ := Option.map_eq_some_iff.mp hw
      obtain ⟨p, hp, hkey⟩ := lookup_key hu
      exact ⟨p, List.mem_append_left _ hp, hkey⟩

end FormPair

theorem HttpRequestTest.addPairs_post (r : HttpRequestTest) (ps : List FormPair) (k : List Byte) :
    (r.addPairs ps).post_ k = (FormPair.lookupGarbled ps k).or (r.post_ k) := by
  have hfold : (r.addPairs ps).post_ = (ps.map FormPair.garbledPair).foldl
      (fun (m : List Byte → Option (List Byte)) p => Function.update m p.1 (some p.2))
      r.post_ := by
    rw [addPairs]
    induction ps generalizing r with
    | nil => rfl
    | cons p ps ih => exact ih (r.addPost_ (garble p.key) (garble p.value))
  rw [hfold, foldl_update]
  rfl

/-- The table after the loop. -/
theorem HttpContext.loop_whole {n : Nat} {r r' : HttpRequestTest} {ps : List FormPair}
    {body body' : List Byte} (hint : n < 2 ^ 31) (hr : r.post_ = fun _ => none)
    (hbody : EncodesForm ps body) (h : parsePostLoop n n r body [] 0 0 = some (r', body')) :
    r'.post_ = FormPair.lookupGarbled (ps.take (flushed n body)) := by
  rw [loop_form (a := []) hint hbody (Nat.le_add_left n 0) h]
  funext k
  rw [HttpRequestTest.addPairs_post, hr, Option.or_none]
  rfl

/-- A request that waits for the body of a form. -/
structure FormRequest where
  context : HttpContext
  isForm : context.request_.IsForm
  post_empty : context.request_.post_ = fun _ => none

namespace FormRequest

def withBody (q : FormRequest) (body : List Byte) : HttpContext :=
  { q.context with request_ := { q.context.request_ with body_ := body } }

/-- The number of fields that are added from an encoded form. -/
def added (body : List Byte) : Nat := flushed (HttpContext.limit body) body

theorem parsePost_form (q : FormRequest) {ps : List FormPair} {body : List Byte}
    (hbody : EncodesForm ps body) {c : HttpContext} (h : (q.withBody body).parsePost_ = some c) :
    c.request_.post_ = FormPair.lookupGarbled (ps.take (added body)) := by
  have hsame : (q.withBody body).request_.body_ = body := rfl
  have hempty : (q.withBody body).request_.post_ = fun _ => none := q.post_empty
  rw [HttpContext.parsePost_, hsame] at h
  split_ifs at h with hform
  · obtain ⟨⟨r, body'⟩, hloop, heq⟩ := Option.map_eq_some_iff.mp h
    have hpost := HttpContext.loop_whole (HttpContext.limit_lt _) hempty hbody hloop
    rw [← heq]
    exact hpost
  · have hnil : body = [] := by
      by_contra hne
      exact hform ⟨q.isForm.1, q.isForm.2, hne⟩
    rw [← Option.some.inj h, hempty, hnil, added, flushed, List.take_nil, List.count_nil,
      List.take_zero]
    rfl

/-- Decoding undoes encoding: every field is found, and no other key. -/
def Decodes (q : FormRequest) (ps : List FormPair) (body : List Byte) : Prop :=
  ∃ c, (q.withBody body).parsePost_ = some c ∧
    (∀ p ∈ ps, FormPair.lookup ps p.key = some (c.request_.getPost_ p.key)) ∧
    ∀ k, c.request_.post_ k ≠ none → ∃ p ∈ ps, p.key = k

theorem added_of_lt {ps : List FormPair} {body : List Byte} (hbody : EncodesForm ps body)
    (h : body.length < 2 ^ 31) : added body = ps.length - 1 := by
  rw [added, HttpContext.limit_of_lt h, flushed, List.take_length]
  clear h
  induction hbody with
  | nil => rfl
  | one hp => exact List.count_eq_zero_of_not_mem hp.ampersand_not_mem
  | cons hp _ ih =>
    rw [List.count_append, List.count_cons_self, ih,
      List.count_eq_zero_of_not_mem hp.ampersand_not_mem]
    simp

theorem decodes_iff_table (q : FormRequest) {ps : List FormPair} {body : List Byte}
    (hbody : EncodesForm ps body) : q.Decodes ps body ↔ HttpContext.WholeEscapes body ∧
      FormPair.Table (FormPair.lookupGarbled (ps.take (added body))) ps := by
  have hsome : (q.withBody body).parsePost_.isSome ↔ HttpContext.WholeEscapes body :=
    (HttpContext.parsePost_isSome_iff _).trans (or_iff_right (not_not.mpr q.isForm))
  rw [← hsome]
  constructor
  · intro hx
    obtain ⟨c, hparse, hfields, hkeys⟩ := hx
    rw [← q.parsePost_form hbody hparse]
    exact ⟨Option.isSome_of_eq_some hparse, hfields, hkeys⟩
  · intro hx
    obtain ⟨hdefined, htable⟩ := hx
    obtain ⟨c, hparse⟩ := Option.isSome_iff_exists.mp hdefined
    rw [← q.parsePost_form hbody hparse] at htable
    exact ⟨c, hparse, htable.1, htable.2⟩

/-- A form is decoded exactly when the fields that are not added repeat earlier keys, and nothing
that counts was escaped. -/
theorem decodes_iff (q : FormRequest) {ps : List FormPair} {body : List Byte}
    (hbody : EncodesForm ps body) : q.Decodes ps body ↔ HttpContext.WholeEscapes body ∧
      FormPair.Recoverable (ps.take (added body)) (ps.drop (added body)) := by
  rw [decodes_iff_table q hbody, ← FormPair.table_iff, List.take_append_drop]

/-- Of a form whose size fits in an `int`, all fields but the last are added. -/
theorem decodes_iff_of_lt (q : FormRequest) {ps : List FormPair} {body : List Byte}
    (hbody : EncodesForm ps body) (h : body.length < 2 ^ 31) : q.Decodes ps body ↔
      FormPair.Recoverable (ps.take (ps.length - 1)) (ps.drop (ps.length - 1)) := by
  have hwhole : HttpContext.WholeEscapes body :=
    (HttpContext.wholeEscapes_of_lt h).mpr (hbody.unbroken 0)
  rw [decodes_iff_table q hbody, ← FormPair.table_iff, List.take_append_drop, added_of_lt hbody h]
  exact and_iff_right hwhole

/-- A form request whose owner has set the method. -/
def waiting : FormRequest where
  context := ⟨{ HttpRequestTest.new.addHeader_ (text "Content-Type")
    (text "application/x-www-form-urlencoded") with method_ := .kPost }, .BODY⟩
  isForm := by decide
  post_empty := rfl

def oneField : FormPair := ⟨text "a", text "1", by decide, by decide⟩

theorem encodes_oneField : oneField.Encodes (text "a=1") :=
  ⟨text "a", text "1", .cons true true 97 .nil, .cons true true 49 .nil, by decide⟩

/-- A field that is repeated is found. -/
theorem decodes_iff_twice : waiting.Decodes [oneField, oneField] (text "a=1&a=1") := by
  have hform : EncodesForm [oneField, oneField] (text "a=1&a=1") :=
    .cons encodes_oneField (.one encodes_oneField)
  refine (decodes_iff waiting hform).mpr ⟨by decide +kernel, ?_⟩
  have hadded : added (text "a=1&a=1") = 1 := by decide +kernel
  rw [hadded]
  refine ⟨?_, ?_, ?_⟩
  · intro p hp b hb
    have hkey : oneField.key = [97] := by decide
    rw [List.mem_singleton.mp hp, hkey] at hb
    rw [List.mem_singleton.mp hb]
    exact Or.inl (by decide)
  · intro p hp hnone
    rw [List.mem_singleton.mp hp] at hnone
    exact absurd hnone (by decide)
  · intro p hp
    rw [List.mem_singleton.mp hp]
    exact ⟨text "1", by decide, by decide⟩

/-- The only field of `a=1` is never added. -/
theorem waiting_loses_field : ¬ ∀ (q : FormRequest) (ps : List FormPair) (body : List Byte),
    EncodesForm ps body → q.Decodes ps body := by
  intro h
  obtain ⟨c, hparse, hfields, -⟩ := h waiting [oneField] (text "a=1") (.one encodes_oneField)
  have hlost : (waiting.withBody (text "a=1")).parsePost_.map
      (·.request_.getPost_ oneField.key) = some [] := by decide +kernel
  rw [hparse] at hlost
  have hnil : c.request_.getPost_ oneField.key = [] := Option.some.inj hlost
  have hfield := hfields oneField List.mem_cons_self
  rw [hnil] at hfield
  exact absurd hfield (by decide +kernel)

end FormRequest

end Mymuduo.Http
