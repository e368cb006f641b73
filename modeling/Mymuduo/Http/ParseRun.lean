import Mymuduo.Http.CompleteHead
import Mymuduo.Http.FormPost
import Mymuduo.Http.Segmentation

namespace Mymuduo.Http

open Lib Net

/-- The groups of the leading lines that match as headers. -/
def leadingHeaders : Nat → List Byte → List (List Byte × List Byte)
  | 0, _ => []
  | fuel + 1, bytes =>
    match search CRLF bytes with
    | none => []
    | some (line, rest) => (matchHeader line).elim [] (· :: leadingHeaders fuel rest)

def headersOf (bytes : List Byte) : List (List Byte × List Byte) :=
  leadingHeaders bytes.length bytes

/-- What stands behind the first line that does not match as a header. -/
def behindHead (bytes : List Byte) : List Byte :=
  (search CRLF (behindHeaders bytes)).elim [] (·.2)

def firstLine (bytes : List Byte) : List Byte := (search CRLF bytes).elim bytes (·.1)

/-- The bytes without their first `n` lines; `none` if there are fewer. -/
def dropLines : Nat → List Byte → Option (List Byte)
  | 0, bytes => some bytes
  | n + 1, bytes => (search CRLF bytes).bind fun (_, rest) => dropLines n rest

def HttpRequestTest.addHeaders (r : HttpRequestTest) (fields : List (List Byte × List Byte)) :
    HttpRequestTest :=
  fields.foldl (fun r field => r.addHeader_ field.1 field.2) r

variable {bytes line rest : List Byte}

theorem leadingHeaders_eq {fuel : Nat} (hfuel : bytes.length ≤ fuel) :
    leadingHeaders fuel bytes = headersOf bytes := by
  refine eq_of_length_le ?_ ?_ hfuel le_rfl
  · intro m
    cases m with
    | zero => rfl
    | succ m => rfl
  · intro k m bytes ih
    rw [leadingHeaders, leadingHeaders]
    cases hsearch : search CRLF bytes with
    | none => rfl
    | some found =>
      obtain ⟨line, rest⟩ := found
      have hlength := search_length hsearch
      simp only
      rw [ih rest (by omega)]

/-- A line that matches as a header is the first of the headers. -/
theorem headers_match {field : List Byte × List Byte} (h : search CRLF bytes = some (line, rest))
    (hmatch : matchHeader line = some field) :
    headersOf bytes = field :: headersOf rest ∧ behindHead bytes = behindHead rest := by
  have hlength := search_length h
  obtain ⟨k, hk⟩ : ∃ k, bytes.length = k + 1 := ⟨bytes.length - 1, by omega⟩
  constructor
  · rw [headersOf, hk, leadingHeaders, h]
    simp only [hmatch, Option.elim_some]
    rw [leadingHeaders_eq (by omega)]
  · rw [behindHead, behindHeaders, hk, skipHeaders, h]
    simp only [hmatch, Option.isSome_some, if_true]
    rw [skipHeaders_eq (by omega)]
    rfl

/-- Another line ends the headers. -/
theorem headers_end (h : search CRLF bytes = some (line, rest)) (hmatch : matchHeader line = none) :
    headersOf bytes = [] ∧ behindHead bytes = rest := by
  have hlength := search_length h
  obtain ⟨k, hk⟩ : ∃ k, bytes.length = k + 1 := ⟨bytes.length - 1, by omega⟩
  constructor
  · rw [headersOf, hk, leadingHeaders, h]
    simp only [hmatch, Option.elim_none]
  · rw [behindHead, behindHeaders, hk, skipHeaders, h]
    simp only [hmatch, Option.isSome_none, Bool.false_eq_true, if_false]
    rw [h]
    rfl

theorem behindHead_unended (h : search CRLF bytes = none) : behindHead bytes = [] := by
  rw [behindHead, behindHeaders, skipHeaders_unended h, h]
  rfl

namespace HttpContext

/-- The bytes that are parsed as a body, and the request which they belong to by then. -/
def bodyBytes (c : HttpContext) (bytes : List Byte) : HttpRequestTest × List Byte :=
  match c.state_ with
  | .REQUEST_LINE =>
    (search CRLF bytes).elim (c.request_, []) fun (line, rest) =>
      (c.parseRequestLine_ line).elim (c.request_, []) fun d =>
        (d.parsePath_.request_.addHeaders (headersOf rest), behindHead rest)
  | .HEADERS => (c.request_.addHeaders (headersOf bytes), behindHead bytes)
  | .BODY => (c.request_, bytes)
  | .FINISH => (c.request_, [])

/-- The loop of `parseRequest` without a bound on its rounds: it returns the truth value and
leaves the context and the buffer. -/
inductive Returns : HttpContext → ByteBuffer → Bool → HttpContext → ByteBuffer → Prop
  | stop {c : HttpContext} {b : ByteBuffer} (h : b.readableBytes = 0 ∨ c.state_ = .FINISH) :
      Returns c b true c b
  | failed {c d : HttpContext} {b : ByteBuffer}
      (hgo : ¬ (b.readableBytes = 0 ∨ c.state_ = .FINISH))
      (hline : c.parseLine (firstLine b.content) b.readableBytes = some (false, d)) :
      Returns c b false d b
  | broke {c d : HttpContext} {b : ByteBuffer}
      (hgo : ¬ (b.readableBytes = 0 ∨ c.state_ = .FINISH)) (hsearch : search CRLF b.content = none)
      (hline : c.parseLine b.content b.readableBytes = some (true, d)) : Returns c b true d b
  | next {c d e : HttpContext} {b f : ByteBuffer} {line rest : List Byte} {ok : Bool}
      (hgo : ¬ (b.readableBytes = 0 ∨ c.state_ = .FINISH))
      (hsearch : search CRLF b.content = some (line, rest))
      (hline : c.parseLine line b.readableBytes = some (true, d))
      (hrest : Returns d (b.retrieve (line.length + 2)) ok e f) : Returns c b ok e f

/-- One round of the loop. -/
theorem parseLine_cases {c d : HttpContext} {readable : Nat} {ok : Bool}
    (hc : c.state_ ≠ .FINISH) (h : c.parseLine line readable = some (ok, d)) :
    (ok = false ∧ d = c ∧ c.state_ = .REQUEST_LINE) ∨
    (ok = true ∧ c.state_ = .REQUEST_LINE ∧ ∃ e, c.parseRequestLine_ line = some e ∧
      d = e.parsePath_ ∧ d.state_ = .HEADERS) ∨
    (ok = true ∧ c.state_ = .HEADERS ∧ readable ≤ 2 ∧
      d = { c.parseRequestHeader_ line with state_ := .FINISH }) ∨
    (ok = true ∧ c.state_ = .HEADERS ∧ 2 < readable ∧ d = c.parseRequestHeader_ line) ∨
    (ok = true ∧ c.state_ = .BODY ∧ c.parseDataBody_ line = some d ∧ d.state_ = .FINISH) := by
  rw [parseLine] at h
  cases hstate : c.state_ with
  | REQUEST_LINE =>
    rw [hstate] at h
    cases hparse : c.parseRequestLine_ line with
    | none =>
      rw [hparse] at h
      obtain ⟨rfl, rfl⟩ := Prod.mk.inj (Option.some.inj h)
      exact Or.inl ⟨rfl, rfl, rfl⟩
    | some e =>
      rw [hparse] at h
      obtain ⟨rfl, rfl⟩ := Prod.mk.inj (Option.some.inj h)
      refine Or.inr (Or.inl ⟨rfl, rfl, e, rfl, rfl, ?_⟩)
      rw [state_parsePath_]
      obtain ⟨groups, -, rfl⟩ := Option.map_eq_some_iff.mp hparse
      rfl
  | HEADERS =>
    rw [hstate] at h
    simp only at h
    split_ifs at h with hshort
    · obtain ⟨rfl, rfl⟩ := Prod.mk.inj (Option.some.inj h)
      exact Or.inr (Or.inr (Or.inl ⟨rfl, rfl, hshort, rfl⟩))
    · obtain ⟨rfl, rfl⟩ := Prod.mk.inj (Option.some.inj h)
      exact Or.inr (Or.inr (Or.inr (Or.inl ⟨rfl, rfl, by omega, rfl⟩)))
  | BODY =>
    rw [hstate] at h
    obtain ⟨e, he, hpair⟩ := Option.map_eq_some_iff.mp h
    obtain ⟨rfl, rfl⟩ := Prod.mk.inj hpair
    refine Or.inr (Or.inr (Or.inr (Or.inr ⟨rfl, rfl, he, ?_⟩)))
    obtain ⟨f, -, rfl⟩ := Option.map_eq_some_iff.mp he
    rfl
  | FINISH => exact absurd hstate hc

variable {c d e : HttpContext} {b f : ByteBuffer} {ok : Bool}

theorem bodyBytes_body (hc : c.state_ = .BODY) (bytes : List Byte) :
    c.bodyBytes bytes = (c.request_, bytes) := by
  rw [bodyBytes, hc]

/-- A header line in front of the body is not part of it. -/
theorem bodyBytes_header (hc : c.state_ = .HEADERS) (hsearch : search CRLF bytes = some (line, rest)) :
    (c.parseRequestHeader_ line).bodyBytes rest = c.bodyBytes bytes := by
  rw [parseRequestHeader_]
  cases hmatch : matchHeader line with
  | none =>
    obtain ⟨hheaders, hbehind⟩ := headers_end hsearch hmatch
    rw [bodyBytes, bodyBytes, hc, hheaders, hbehind]
    rfl
  | some field =>
    obtain ⟨hheaders, hbehind⟩ := headers_match hsearch hmatch
    rw [bodyBytes, bodyBytes, hc, hheaders, hbehind]
    rfl

/-- The rounds before the body leave what is parsed as the body. -/
theorem bodyBytes_next (hc : c.state_ ≠ .FINISH) (hbody : c.state_ ≠ .BODY)
    (hsearch : search CRLF bytes = some (line, rest))
    (hline : c.parseLine line bytes.length = some (true, d)) : d.bodyBytes rest = c.bodyBytes bytes := by
  rcases parseLine_cases hc hline with ⟨hok, -⟩ | ⟨-, hstate, e, he, rfl, hd⟩ |
    ⟨-, hstate, hshort, rfl⟩ | ⟨-, hstate, -, rfl⟩ | ⟨-, hstate, -⟩
  · exact absurd hok (by decide)
  · rw [bodyBytes, hd, bodyBytes, hstate, hsearch]
    simp only [Option.elim_some, he]
  · have hlength := search_length hsearch
    have hline : line = [] := List.length_eq_zero_iff.mp (by omega)
    have hrest : rest = [] := List.length_eq_zero_iff.mp (by omega)
    rw [← bodyBytes_header hstate hsearch, hline, hrest]
    rfl
  · exact bodyBytes_header hstate hsearch
  · exact absurd hstate hbody

/-- With a round for every byte the bounded loop ends as the loop does. -/
theorem parseLoop_returns {fuel : Nat} (hfuel : b.content.length ≤ fuel)
    (h : parseLoop fuel c b = some (ok, d, f)) : Returns c b ok d f := by
  induction fuel generalizing c b with
  | zero =>
    obtain ⟨rfl, hpair⟩ := Prod.mk.inj (Option.some.inj h)
    obtain ⟨rfl, rfl⟩ := Prod.mk.inj hpair
    apply Returns.stop
    left
    rw [b.readableBytes_eq]
    omega
  | succ fuel ih =>
    rw [parseLoop] at h
    split_ifs at h with hstop
    · obtain ⟨rfl, hpair⟩ := Prod.mk.inj (Option.some.inj h)
      obtain ⟨rfl, rfl⟩ := Prod.mk.inj hpair
      exact Returns.stop hstop
    · cases hsearch : search CRLF b.content with
      | none =>
        rw [hsearch] at h
        obtain ⟨⟨ok', d'⟩, hline, hmap⟩ := Option.map_eq_some_iff.mp h
        obtain ⟨hok, hpair⟩ := Prod.mk.inj hmap
        obtain ⟨rfl, rfl⟩ := Prod.mk.inj hpair
        subst hok
        cases ok' with
        | true => exact Returns.broke hstop hsearch hline
        | false =>
          apply Returns.failed hstop
          rw [firstLine, hsearch]
          exact hline
      | some found =>
        obtain ⟨line, rest⟩ := found
        rw [hsearch] at h
        obtain ⟨⟨ok', d'⟩, hline, hrest⟩ := Option.bind_eq_some_iff.mp h
        cases ok' with
        | true =>
          apply Returns.next hstop hsearch hline
          apply ih _ hrest
          have hlength := search_length hsearch
          rw [retrieve_line hsearch]
          omega
        | false =>
          obtain ⟨rfl, hpair⟩ := Prod.mk.inj (Option.some.inj hrest)
          obtain ⟨rfl, rfl⟩ := Prod.mk.inj hpair
          apply Returns.failed hstop
          rw [firstLine, hsearch]
          exact hline

theorem Returns.parseLoop_eq (h : Returns c b ok d f) {fuel : Nat}
    (hfuel : b.content.length ≤ fuel) : parseLoop fuel c b = some (ok, d, f) := by
  induction h generalizing fuel with
  | @stop c b h =>
    cases fuel with
    | zero => rfl
    | succ fuel => rw [parseLoop, if_pos h]
  | @failed c d b hgo hline =>
    obtain ⟨fuel, rfl⟩ : ∃ k, fuel = k + 1 := by
      rw [b.readableBytes_eq] at hgo
      exact ⟨fuel - 1, by omega⟩
    rw [firstLine] at hline
    rw [parseLoop, if_neg hgo]
    cases hsearch : search CRLF b.content with
    | none =>
      rw [hsearch, Option.elim_none] at hline
      simp only [hline, Option.map_some]
    | some found =>
      rw [hsearch, Option.elim_some] at hline
      simp only [hline, Option.bind_some, Bool.false_eq_true, if_false]
  | @broke c d b hgo hsearch hline =>
    obtain ⟨fuel, rfl⟩ : ∃ k, fuel = k + 1 := by
      rw [b.readableBytes_eq] at hgo
      exact ⟨fuel - 1, by omega⟩
    rw [parseLoop, if_neg hgo, hsearch]
    simp only [hline, Option.map_some]
  | @next c d e b f line rest ok hgo hsearch hline _ ih =>
    have hlength := search_length hsearch
    obtain ⟨fuel, rfl⟩ : ∃ k, fuel = k + 1 := ⟨fuel - 1, by omega⟩
    rw [parseLoop, if_neg hgo, hsearch]
    simp only [hline, Option.bind_some, if_true]
    apply ih
    rw [retrieve_line hsearch]
    omega

theorem Returns.finished (h : Returns c b ok d f) (hc : c.state_ = .FINISH) :
    ok = true ∧ d = c ∧ f = b := by
  have hloop := (h.parseLoop_eq le_rfl).symm.trans (parseLoop_finish b.content.length b hc)
  obtain ⟨hok, hpair⟩ := Prod.mk.inj (Option.some.inj hloop)
  exact ⟨hok, Prod.mk.inj hpair⟩

/-- The loop takes whole lines from the buffer. -/
theorem Returns.whole_lines (h : Returns c b ok d f) :
    ∃ n, dropLines n b.content = some f.content := by
  induction h with
  | stop _ => exact ⟨0, rfl⟩
  | failed _ _ => exact ⟨0, rfl⟩
  | broke _ _ _ => exact ⟨0, rfl⟩
  | next _ hsearch _ _ ih =>
    obtain ⟨n, hn⟩ := ih
    refine ⟨n + 1, ?_⟩
    rw [dropLines, hsearch, Option.bind_some, ← retrieve_line hsearch]
    exact hn

/-- It fails only on a request line, and then nothing has been done yet. -/
theorem Returns.unchanged (h : Returns c b ok d f) (hok : ok = false) :
    c.state_ = .REQUEST_LINE ∧ d = c ∧ f = b := by
  induction h with
  | stop _ => exact absurd hok (by decide)
  | @failed c d b hgo hline =>
    rcases parseLine_cases (not_or.mp hgo).2 hline with ⟨-, hd, hstate⟩ | ⟨hok, -⟩ | ⟨hok, -⟩ |
      ⟨hok, -⟩ | ⟨hok, -⟩
    · exact ⟨hstate, hd, rfl⟩
    all_goals exact absurd hok (by decide)
  | broke _ _ _ => exact absurd hok (by decide)
  | @next c d e b f line rest ok hgo _ hline _ ih =>
    have hstate := (ih hok).1
    rcases parseLine_cases (not_or.mp hgo).2 hline with ⟨hok, -⟩ | ⟨-, -, -, -, -, hd⟩ |
      ⟨-, -, -, rfl⟩ | ⟨-, hc, -, rfl⟩ | ⟨-, -, -, hd⟩
    · exact absurd hok (by decide)
    · rw [hd] at hstate
      exact absurd hstate (by decide)
    · cases hstate
    · rw [(parseRequestHeader_spec c line).2, hc] at hstate
      split_ifs at hstate
    · rw [hd] at hstate
      exact absurd hstate (by decide)

/-- No form is parsed from the bytes, or no escape in their first line is broken. -/
def Decodable (r : HttpRequestTest) (bytes : List Byte) : Prop :=
  ¬ r.IsForm ∨ WholeEscapes (firstLine bytes)

theorem decodable_nil (r : HttpRequestTest) : Decodable r [] := Or.inr wholeEscapes_nil

theorem parseDataBody_isSome (c : HttpContext) (line : List Byte) :
    (c.parseDataBody_ line).isSome ↔ ¬ c.request_.IsForm ∨ WholeEscapes line := by
  rw [parseDataBody_, Option.isSome_map, parsePost_isSome_iff]
  rfl

/-- Every line but one of a body has a defined meaning. -/
theorem parseLine_some (hc : c.state_ ≠ .BODY) (line : List Byte) (readable : Nat) :
    ∃ ok d, c.parseLine line readable = some (ok, d) := by
  rw [parseLine]
  cases hstate : c.state_ with
  | REQUEST_LINE =>
    cases c.parseRequestLine_ line with
    | none => exact ⟨false, c, rfl⟩
    | some d => exact ⟨true, d.parsePath_, rfl⟩
  | HEADERS =>
    simp only
    split_ifs with hshort
    · exact ⟨true, _, rfl⟩
    · exact ⟨true, _, rfl⟩
  | BODY => exact absurd hstate hc
  | FINISH => exact ⟨true, c, rfl⟩

theorem bodyBytes_unended (hc : c.state_ ≠ .BODY) (h : search CRLF bytes = none) :
    (c.bodyBytes bytes).2 = [] := by
  rw [bodyBytes]
  cases hstate : c.state_ with
  | REQUEST_LINE =>
    simp only
    rw [h]
    rfl
  | HEADERS => exact behindHead_unended h
  | BODY => exact absurd hstate hc
  | FINISH => rfl

theorem bodyBytes_stopped (h : b.readableBytes = 0 ∨ c.state_ = .FINISH) :
    (c.bodyBytes b.content).2 = [] := by
  rcases h with hzero | hfin
  · have hnil : b.content = [] := by
      rw [b.readableBytes_eq] at hzero
      exact List.length_eq_zero_iff.mp hzero
    rw [hnil]
    by_cases hbody : c.state_ = .BODY
    · rw [bodyBytes_body hbody]
    · exact bodyBytes_unended hbody rfl
  · rw [bodyBytes, hfin]

theorem bodyBytes_failed (hc : c.state_ ≠ .FINISH) (hsearch : search CRLF bytes = some (line, rest))
    {readable : Nat} (hline : c.parseLine line readable = some (false, d)) :
    (c.bodyBytes bytes).2 = [] := by
  rcases parseLine_cases hc hline with ⟨-, -, hstate⟩ | ⟨hok, -⟩ | ⟨hok, -⟩ | ⟨hok, -⟩ | ⟨hok, -⟩
  · rw [parseLine, hstate] at hline
    cases hparse : c.parseRequestLine_ line with
    | none =>
      rw [bodyBytes, hstate, hsearch]
      simp only [Option.elim_some, hparse, Option.elim_none]
    | some e =>
      rw [hparse] at hline
      cases hline
  all_goals exact absurd hok (by decide)

/-- The loop in front of a body is decided by the first line of it. -/
theorem parseLoop_dataBody_isSome (fuel : Nat) (hbody : c.state_ = .BODY) (hb : b.content ≠ []) :
    (parseLoop (fuel + 1) c b).isSome ↔ Decodable c.request_ b.content := by
  have hc : c.state_ ≠ .FINISH := by simp [hbody]
  rw [Decodable, ← parseDataBody_isSome]
  cases hsearch : search CRLF b.content with
  | none =>
    rw [parseLoop_unended fuel hc hb hsearch, firstLine, hsearch, parseLine, hbody]
    simp only [Option.isSome_map, Option.elim_none]
  | some found =>
    obtain ⟨line, rest⟩ := found
    obtain ⟨e, -, heq⟩ := parseLoop_ended fuel hc hsearch
    rw [heq, firstLine, hsearch, parseLine, hbody]
    simp only [Option.elim_some]
    cases hparse : c.parseDataBody_ line with
    | none => rfl
    | some d =>
      obtain ⟨d', -, rfl⟩ := Option.map_eq_some_iff.mp hparse
      simp only [Option.map_some, Option.bind_some, if_true]
      rw [parseLoop_finish fuel e rfl]
      exact iff_of_true rfl rfl

theorem parseLoop_isSome_iff {fuel : Nat} (hfuel : b.content.length ≤ fuel) :
    (parseLoop fuel c b).isSome ↔
      Decodable (c.bodyBytes b.content).1 (c.bodyBytes b.content).2 := by
  induction fuel generalizing c b with
  | zero =>
    have hnil : b.content = [] := List.length_eq_zero_iff.mp (by omega)
    have hzero : b.readableBytes = 0 := by rw [b.readableBytes_eq, hnil, List.length_nil]
    rw [bodyBytes_stopped (Or.inl hzero)]
    exact iff_of_true rfl (decodable_nil _)
  | succ fuel ih =>
    by_cases hstop : b.readableBytes = 0 ∨ c.state_ = .FINISH
    · rw [bodyBytes_stopped hstop, parseLoop, if_pos hstop]
      exact iff_of_true rfl (decodable_nil _)
    obtain ⟨hzero, hfin⟩ := not_or.mp hstop
    have hb : b.content ≠ [] := by
      intro hnil
      rw [b.readableBytes_eq, hnil] at hzero
      exact hzero rfl
    by_cases hbody : c.state_ = .BODY
    · rw [parseLoop_dataBody_isSome fuel hbody hb, bodyBytes_body hbody]
    cases hsearch : search CRLF b.content with
    | none =>
      obtain ⟨ok, d, hline⟩ := parseLine_some hbody b.content b.content.length
      rw [parseLoop_unended fuel hfin hb hsearch, hline, bodyBytes_unended hbody hsearch]
      exact iff_of_true rfl (decodable_nil _)
    | some found =>
      obtain ⟨line, rest⟩ := found
      obtain ⟨ok, d, hline⟩ := parseLine_some hbody line b.content.length
      obtain ⟨e, he, heq⟩ := parseLoop_ended fuel hfin hsearch
      rw [heq, hline]
      cases ok with
      | false =>
        rw [bodyBytes_failed hfin hsearch hline]
        exact iff_of_true rfl (decodable_nil _)
      | true =>
        have hlength := search_length hsearch
        rw [← bodyBytes_next hfin hbody hsearch hline, ← he]
        exact ih (by rw [he]; omega)

/-- `parseRequest` ends, takes whole lines from the buffer, and changes nothing when it fails. -/
def Orderly (c : HttpContext) (b : ByteBuffer) : Prop :=
  ∃ ok d f, c.parseRequest b = some (ok, d, f) ∧ (b.content ≠ [] → Returns c b ok d f) ∧
    (∃ n, dropLines n b.content = some f.content) ∧ (ok = false → d = c ∧ f = b)

theorem Orderly.decodable (h : c.Orderly b) :
    Decodable (c.bodyBytes b.content).1 (c.bodyBytes b.content).2 := by
  by_cases hb : b.content = []
  · rw [bodyBytes_stopped (Or.inl (by rw [b.readableBytes_eq, hb, List.length_nil]))]
    exact decodable_nil _
  · obtain ⟨ok, d, f, hparse, -⟩ := h
    rw [parseRequest_eq c hb] at hparse
    apply (parseLoop_isSome_iff le_rfl).mp
    rw [hparse]
    rfl

theorem orderly_of_decodable
    (h : Decodable (c.bodyBytes b.content).1 (c.bodyBytes b.content).2) : c.Orderly b := by
  by_cases hb : b.content = []
  · refine ⟨false, c, b, ?_, fun hne => absurd hb hne, ⟨0, rfl⟩, fun _ => ⟨rfl, rfl⟩⟩
    rw [parseRequest, if_pos (by rw [b.readableBytes_eq, hb, List.length_nil])]
  · obtain ⟨⟨ok, d, f⟩, hparse⟩ :=
      Option.isSome_iff_exists.mp ((parseLoop_isSome_iff le_rfl).mpr h)
    have hreturns := parseLoop_returns le_rfl hparse
    refine ⟨ok, d, f, ?_, fun _ => hreturns, hreturns.whole_lines,
      fun hok => (hreturns.unchanged hok).2⟩
    rw [parseRequest_eq c hb]
    exact hparse

/-- It does so exactly when no escape is broken in what is decoded as a form. -/
theorem orderly_iff (c : HttpContext) (b : ByteBuffer) : c.Orderly b ↔
    Decodable (c.bodyBytes b.content).1 (c.bodyBytes b.content).2 :=
  ⟨Orderly.decodable, orderly_of_decodable⟩

/-- A context whose owner has set the method. -/
def postContext : HttpContext := ⟨{ HttpRequestTest.new with method_ := .kPost }, .REQUEST_LINE⟩

/-- A form that is a `%` and nothing else. -/
def cutEscape : ByteBuffer := (ByteBuffer.new 0).append (text "POST / HTTP/1.1" ++ CRLF ++
  text "Content-Type: application/x-www-form-urlencoded" ++ CRLF ++ CRLF ++ text "%")

theorem cutEscape_undefined : postContext.parseRequest cutEscape = none ∧
    ¬ ∀ (c : HttpContext) (b : ByteBuffer), c.Orderly b := by
  have hnone : postContext.parseRequest cutEscape = none := by
    have h : (postContext.parseRequest cutEscape).isNone = true := by decide +kernel
    exact Option.isNone_iff_eq_none.mp h
  refine ⟨hnone, ?_⟩
  intro h
  obtain ⟨ok, d, f, hparse, -⟩ := h postContext cutEscape
  rw [hnone] at hparse
  cases hparse

end HttpContext

end Mymuduo.Http
