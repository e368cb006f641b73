import Mymuduo.Http.RequestHead

namespace Mymuduo.Http

open Lib Net

/-- Header lines, each with a colon, and the blank line behind them. `search` cuts off the
first line. -/
inductive HeaderLines : List Byte → Prop
  | blank {bytes rest : List Byte} (h : search CRLF bytes = some ([], rest)) : HeaderLines bytes
  | field {bytes line rest : List Byte} (h : search CRLF bytes = some (line, rest))
      (hcolon : COLON ∈ line) (hrest : HeaderLines rest) : HeaderLines bytes

/-- A complete head stands at the front: a request line, header lines and a blank line. -/
def CompleteHead (bytes : List Byte) : Prop :=
  ∃ line rest, search CRLF bytes = some (line, rest) ∧ (matchRequestLine line).isSome ∧
    HeaderLines rest

/-- What is left behind the leading lines that match as headers. -/
def skipHeaders : Nat → List Byte → List Byte
  | 0, bytes => bytes
  | fuel + 1, bytes =>
    match search CRLF bytes with
    | none => bytes
    | some (line, rest) => if (matchHeader line).isSome then skipHeaders fuel rest else bytes

def behindHeaders (bytes : List Byte) : List Byte := skipHeaders bytes.length bytes

/-- The bytes behind the header lines that match: none; a blank line; an unfinished line of
more than two bytes; a line that does not match with nothing behind it, or one that has a
colon all the same and is followed by the rest of a head. -/
def Ends (bytes : List Byte) : Prop :=
  bytes = [] ∨ CRLF <+: bytes ∨ (2 < bytes.length ∧ search CRLF bytes = none) ∨
    ∃ line rest, search CRLF bytes = some (line, rest) ∧
      (rest = [] ∨ COLON ∈ line ∧ HeaderLines rest)

/-- The bytes that the parser does not take for a finished request by mistake. -/
def NotCut (bytes : List Byte) : Prop :=
  ∀ line rest, search CRLF bytes = some (line, rest) → (matchRequestLine line).isSome →
    Ends (behindHeaders rest)

theorem search_length {bytes line rest : List Byte} (h : search CRLF bytes = some (line, rest)) :
    bytes.length = line.length + 2 + rest.length := by
  rw [search_append h]
  simp [CRLF]
  omega

theorem search_blank_iff {bytes : List Byte} :
    (∃ rest, search CRLF bytes = some ([], rest)) ↔ CRLF <+: bytes := by
  constructor
  · intro h
    obtain ⟨rest, hrest⟩ := h
    exact ⟨rest, (search_append hrest).symm⟩
  · intro h
    obtain ⟨rest, rfl⟩ := h
    exact ⟨rest, search_here [LF] rest⟩

theorem colon_of_matchHeader {line : List Byte} (h : (matchHeader line).isSome) : COLON ∈ line := by
  by_contra hnot
  have hnone : search [COLON] line = none :=
    search_eq_none_of_not_mem (y := COLON) List.mem_cons_self hnot
  simp [matchHeader, hnone] at h

theorem headerLines_iff {bytes line rest : List Byte} (h : search CRLF bytes = some (line, rest)) :
    HeaderLines bytes ↔ line = [] ∨ COLON ∈ line ∧ HeaderLines rest := by
  constructor
  · intro hlines
    cases hlines with
    | blank hblank =>
      rw [h] at hblank
      exact Or.inl (Prod.mk.inj (Option.some.inj hblank)).1
    | field hfield hcolon hrest =>
      rw [h] at hfield
      obtain ⟨rfl, rfl⟩ := Prod.mk.inj (Option.some.inj hfield)
      exact Or.inr ⟨hcolon, hrest⟩
  · intro hcases
    rcases hcases with rfl | ⟨hcolon, hrest⟩
    · exact HeaderLines.blank h
    · exact HeaderLines.field h hcolon hrest

theorem not_headerLines {bytes : List Byte} (h : search CRLF bytes = none) :
    ¬ HeaderLines bytes := by
  intro hlines
  cases hlines with
  | blank hblank =>
    rw [h] at hblank
    cases hblank
  | field hfield =>
    rw [h] at hfield
    cases hfield

/-- Skipping header lines does not change whether a blank line comes. -/
theorem headerLines_skip (fuel : Nat) (bytes : List Byte) :
    HeaderLines (skipHeaders fuel bytes) ↔ HeaderLines bytes := by
  induction fuel generalizing bytes with
  | zero => exact Iff.rfl
  | succ fuel ih =>
    rw [skipHeaders]
    cases hsearch : search CRLF bytes with
    | none => exact Iff.rfl
    | some found =>
      obtain ⟨line, rest⟩ := found
      simp only
      split_ifs with hmatch
      · have hcolon := colon_of_matchHeader hmatch
        have hne : line ≠ [] := List.ne_nil_of_mem hcolon
        rw [ih, headerLines_iff hsearch]
        simp [hne, hcolon]
      · exact Iff.rfl

/-- The rest of the head ends the parsing: one or two bytes are left, or something stands
behind a line that does not match. -/
def Finishes (bytes : List Byte) : Prop :=
  1 ≤ bytes.length ∧ bytes.length ≤ 2 ∨
    2 < bytes.length ∧ ∃ line rest, search CRLF bytes = some (line, rest) ∧ rest ≠ []

/-- `Ends` says when finishing there is right. -/
theorem ends_iff (bytes : List Byte) : (Finishes bytes → HeaderLines bytes) ↔ Ends bytes := by
  rw [Finishes, Ends]
  cases hsearch : search CRLF bytes with
  | none =>
    have hnot := not_headerLines hsearch
    have hprefix : ¬ CRLF <+: bytes := by
      intro h
      obtain ⟨rest, hrest⟩ := search_blank_iff.mpr h
      rw [hsearch] at hrest
      cases hrest
    simp only [hnot, hprefix, reduceCtorEq, false_and, and_false, exists_false, or_false,
      false_or, and_true, imp_false, ← List.length_eq_zero_iff]
    omega
  | some found =>
    obtain ⟨line, rest⟩ := found
    have hlength := search_length hsearch
    have hne : bytes ≠ [] := by
      intro h
      subst h
      rw [List.length_nil] at hlength
      omega
    by_cases hline : line = []
    · subst hline
      have hlines := HeaderLines.blank hsearch
      have hprefix := search_blank_iff.mp ⟨rest, hsearch⟩
      simp [hlines, hprefix]
    · have hpos := List.length_pos_iff.mpr hline
      have hprefix : ¬ CRLF <+: bytes := by
        intro h
        obtain ⟨rest', hrest'⟩ := search_blank_iff.mpr h
        rw [hsearch] at hrest'
        exact hline (Prod.mk.inj (Option.some.inj hrest')).1
      have hlong : 2 < bytes.length := by omega
      have hshort : ¬ bytes.length ≤ 2 := by omega
      rw [headerLines_iff hsearch]
      simp only [hshort, hlong, hne, hprefix, hline, Option.some.injEq, Prod.mk.injEq, true_and,
        and_false, false_or, reduceCtorEq]
      constructor
      · intro h
        by_cases hrest : rest = []
        · exact ⟨line, rest, ⟨rfl, rfl⟩, Or.inl hrest⟩
        · exact ⟨line, rest, ⟨rfl, rfl⟩, Or.inr (h ⟨line, rest, ⟨rfl, rfl⟩, hrest⟩)⟩
      · intro h hfin
        obtain ⟨line', rest', ⟨rfl, rfl⟩, hcase⟩ := h
        obtain ⟨line', rest', ⟨rfl, rfl⟩, hrest⟩ := hfin
        exact hcase.resolve_left hrest

theorem skipHeaders_unended {bytes : List Byte} (h : search CRLF bytes = none) (fuel : Nat) :
    skipHeaders fuel bytes = bytes := by
  cases fuel with
  | zero => rfl
  | succ fuel => rw [skipHeaders, h]

/-- Once there is fuel for every byte, more of it makes no difference. -/
theorem skipHeaders_eq {fuel : Nat} {bytes : List Byte} (hfuel : bytes.length ≤ fuel) :
    skipHeaders fuel bytes = behindHeaders bytes := by
  refine eq_of_length_le (fun m => skipHeaders_unended rfl m) ?_ hfuel le_rfl
  intro k m bytes ih
  cases hsearch : search CRLF bytes with
  | none => rw [skipHeaders_unended hsearch, skipHeaders_unended hsearch]
  | some found =>
    obtain ⟨line, rest⟩ := found
    have hlength := search_length hsearch
    rw [skipHeaders, hsearch, skipHeaders, hsearch]
    simp only
    rw [ih rest (by omega)]

namespace HttpContext

variable {c : HttpContext} {b : ByteBuffer}

/-- Without a form in its body, whatever line comes in the body ends the request. -/
theorem parseDataBody_finish (hm : c.request_.method_ ≠ .kPost) (line : List Byte) :
    ∃ d, c.parseDataBody_ line = some d ∧ d.state_ = .FINISH := by
  simp [parseDataBody_, parsePost_, hm]

theorem parseLoop_dataBody (fuel : Nat) (hc : c.state_ = .BODY) (hm : c.request_.method_ ≠ .kPost)
    (hb : b.content ≠ []) :
    ∃ d e, parseLoop (fuel + 1) c b = some (true, d, e) ∧ d.state_ = .FINISH := by
  have hnot : c.state_ ≠ .FINISH := by simp [hc]
  cases hsearch : search CRLF b.content with
  | none =>
    obtain ⟨d, hd, hfin⟩ := parseDataBody_finish hm b.content
    refine ⟨d, b, ?_, hfin⟩
    rw [parseLoop_unended fuel hnot hb hsearch]
    simp [parseLine, hc, hd]
  | some found =>
    obtain ⟨line, tail⟩ := found
    obtain ⟨d, hd, hfin⟩ := parseDataBody_finish hm line
    obtain ⟨e, -, heq⟩ := parseLoop_ended fuel hnot hsearch
    refine ⟨d, e, ?_, hfin⟩
    rw [heq]
    simp [parseLine, hc, hd, parseLoop_finish fuel e hfin]

/-- A header line keeps the method, and the state tells whether it matched. -/
theorem parseRequestHeader_spec (c : HttpContext) (line : List Byte) :
    (c.parseRequestHeader_ line).request_.method_ = c.request_.method_ ∧
      (c.parseRequestHeader_ line).state_ =
        if (matchHeader line).isSome then c.state_ else .BODY := by
  rw [parseRequestHeader_]
  cases hmatch : matchHeader line with
  | none => exact ⟨rfl, rfl⟩
  | some groups => exact ⟨rfl, rfl⟩

theorem parseLine_header (hc : c.state_ = .HEADERS) {readable : Nat} (hr : 2 < readable)
    (line : List Byte) :
    c.parseLine line readable = some (true, c.parseRequestHeader_ line) := by
  simp [parseLine, hc, Nat.not_le.mpr hr]

/-- The content behind the header lines is an unfinished line: two bytes of it, or one, end the
head. -/
theorem headers_unended (fuel : Nat) (hc : c.state_ = .HEADERS) (hb : b.content ≠ [])
    (hsearch : search CRLF b.content = none) :
    ∃ d e, parseLoop (fuel + 1) c b = some (true, d, e) ∧
      (d.state_ = .FINISH ↔ Finishes b.content) := by
  have hpos := List.length_pos_iff.mpr hb
  rw [parseLoop_unended fuel (by simp [hc]) hb hsearch]
  simp only [Finishes, hsearch, reduceCtorEq, false_and, exists_false, and_false, or_false]
  by_cases hshort : b.content.length ≤ 2
  · refine ⟨{ c.parseRequestHeader_ b.content with state_ := .FINISH }, b, ?_, ?_⟩
    · simp [parseLine, hc, hshort]
    · simp only [true_iff]
      omega
  · have hstate := (parseRequestHeader_spec c b.content).2
    refine ⟨c.parseRequestHeader_ b.content, b, ?_, ?_⟩
    · rw [parseLine_header hc (by omega)]
      rfl
    · rw [hstate, hc]
      apply iff_of_false
      · split_ifs <;> simp
      · omega

/-- A line that does not match leads to `BODY`, and more bytes behind it end the head. -/
theorem headers_unmatched (fuel : Nat) (hc : c.state_ = .BODY)
    (hm : c.request_.method_ ≠ .kPost) {content line : List Byte} (hlong : 2 < content.length)
    (hsearch : search CRLF content = some (line, b.content)) (hfuel : b.content.length ≤ fuel) :
    ∃ d e, parseLoop fuel c b = some (true, d, e) ∧ (d.state_ = .FINISH ↔ Finishes content) := by
  by_cases hend : b.content = []
  · refine ⟨c, b, parseLoop_nil fuel _ hend, ?_⟩
    rw [hc]
    apply iff_of_false
    · simp
    · simp only [Finishes, hsearch, Option.some.injEq, Prod.mk.injEq]
      intro hfin
      rcases hfin with hfin | ⟨-, l, r, ⟨rfl, rfl⟩, hne⟩
      · omega
      · exact hne hend
  · have hpos := List.length_pos_iff.mpr hend
    obtain ⟨fuel, rfl⟩ : ∃ k, fuel = k + 1 := ⟨fuel - 1, by omega⟩
    obtain ⟨d, e, hbody, hfin⟩ := parseLoop_dataBody fuel hc hm hend
    exact ⟨d, e, hbody, iff_of_true hfin (Or.inr ⟨hlong, line, b.content, hsearch, hend⟩)⟩

/-- From the state `HEADERS` the loop reaches `FINISH` exactly when what stands behind the
header lines makes it. -/
theorem headers_finish_iff (fuel : Nat) (hc : c.state_ = .HEADERS)
    (hm : c.request_.method_ ≠ .kPost) (hfuel : b.content.length ≤ fuel) :
    ∃ d e, parseLoop fuel c b = some (true, d, e) ∧
      (d.state_ = .FINISH ↔ Finishes (skipHeaders fuel b.content)) := by
  induction fuel generalizing c b with
  | zero =>
    have hnil : b.content = [] := List.length_eq_zero_iff.mp (by omega)
    refine ⟨c, b, rfl, ?_⟩
    rw [hnil, skipHeaders_unended rfl]
    simp [hc, Finishes]
  | succ fuel ih =>
    have hnot : c.state_ ≠ .FINISH := by simp [hc]
    by_cases hb : b.content = []
    · refine ⟨c, b, parseLoop_nil (fuel + 1) c hb, ?_⟩
      rw [hb, skipHeaders_unended rfl]
      simp [hc, Finishes]
    · have hpos := List.length_pos_iff.mpr hb
      cases hsearch : search CRLF b.content with
      | none =>
        rw [skipHeaders_unended hsearch]
        exact headers_unended fuel hc hb hsearch
      | some found =>
        obtain ⟨line, tail⟩ := found
        have hlength := search_length hsearch
        obtain ⟨e, htail, heq⟩ := parseLoop_ended fuel hnot hsearch
        rw [heq, skipHeaders, hsearch]
        by_cases hshort : b.content.length ≤ 2
        · have hline : line = [] := List.length_eq_zero_iff.mp (by omega)
          have hmatch : ¬ (matchHeader line).isSome := by
            rw [hline]
            decide
          simp only [hmatch, Bool.false_eq_true, if_false]
          refine ⟨{ c.parseRequestHeader_ line with state_ := .FINISH }, e, ?_, ?_⟩
          · simp [parseLine, hc, hshort, parseLoop_finish]
          · simp only [true_iff]
            exact Or.inl ⟨hpos, hshort⟩
        · have hlong : 2 < b.content.length := by omega
          have hrest : e.content.length ≤ fuel := by
            rw [htail]
            omega
          obtain ⟨hmethod, hstate⟩ := parseRequestHeader_spec c line
          rw [← hmethod] at hm
          rw [parseLine_header hc hlong]
          simp only [Option.bind_some, if_true]
          by_cases hmatch : (matchHeader line).isSome
          · rw [if_pos hmatch, hc] at hstate
            rw [if_pos hmatch, ← htail]
            exact ih hstate hm hrest
          · rw [if_neg hmatch] at hstate
            rw [if_neg hmatch]
            exact headers_unmatched fuel hstate hm hlong (htail ▸ hsearch) hrest

/-- A fresh context that says `gotAll()` after `parseRequest` has seen a complete head. -/
def FinishSound (b : ByteBuffer) : Prop :=
  ∀ ok c d, new.parseRequest b = some (ok, c, d) → c.gotAll = true → CompleteHead b.content

/-- The context behind a request line that matches. -/
theorem parseRequestLine_spec {line : List Byte} (hmatch : (matchRequestLine line).isSome) :
    ∃ c, new.parseRequestLine_ line = some c ∧ c.parsePath_.state_ = .HEADERS ∧
      c.parsePath_.request_.method_ ≠ .kPost := by
  obtain ⟨⟨method, path, version⟩, hgroups⟩ := Option.isSome_iff_exists.mp hmatch
  refine ⟨new.setLine method path version, ?_, ?_, ?_⟩
  · rw [parseRequestLine_, hgroups]
    rfl
  · rw [parsePath_]
    split_ifs <;> rfl
  · have hmethod : (new.setLine method path version).request_.method_ ≠ .kPost := by
      simp only [setLine, new, HttpRequestTest.new]
      split_ifs <;> decide
    rw [parsePath_]
    split_ifs <;> exact hmethod

theorem parseLine_requestLine {line : List Byte} (hc : new.parseRequestLine_ line = some c)
    (readable : Nat) : new.parseLine line readable = some (true, c.parsePath_) := by
  simp only [parseLine, new] at hc ⊢
  rw [hc]

theorem parseLine_badLine {line : List Byte} (hmatch : ¬ (matchRequestLine line).isSome)
    (readable : Nat) : new.parseLine line readable = some (false, new) := by
  simp [parseLine, new, parseRequestLine_, Option.not_isSome_iff_eq_none.mp hmatch]

/-- What a fresh context makes of a buffer: without a request line that matches and ends it
does not finish, and else it finishes as the rest says. -/
theorem parseRequest_finish_iff (b : ByteBuffer) :
    ∃ ok c d, new.parseRequest b = some (ok, c, d) ∧ (c.gotAll = true ↔
      ∃ line rest, search CRLF b.content = some (line, rest) ∧ (matchRequestLine line).isSome ∧
        Finishes (behindHeaders rest)) := by
  have hnot : new.state_ ≠ .FINISH := by decide
  rw [parseRequest, b.readableBytes_eq]
  by_cases hb : b.content = []
  · refine ⟨false, new, b, if_pos (by rw [hb]; rfl), ?_⟩
    have hnone : search CRLF b.content = none := by
      rw [hb]
      rfl
    simp [gotAll, hnot, hnone]
  · have hpos := List.length_pos_iff.mpr hb
    rw [if_neg (by omega)]
    obtain ⟨fuel, hfuel⟩ : ∃ k, b.content.length = k + 1 := ⟨b.content.length - 1, by omega⟩
    rw [hfuel]
    cases hsearch : search CRLF b.content with
    | none =>
      rw [parseLoop_unended fuel hnot hb hsearch]
      simp only [reduceCtorEq, false_and, exists_false, iff_false]
      by_cases hmatch : (matchRequestLine b.content).isSome
      · obtain ⟨c, hc, hstate, -⟩ := parseRequestLine_spec hmatch
        refine ⟨true, c.parsePath_, b, ?_, ?_⟩
        · rw [parseLine_requestLine hc]
          rfl
        · simp [gotAll, hstate]
      · refine ⟨false, new, b, ?_, ?_⟩
        · rw [parseLine_badLine hmatch]
          rfl
        · simp [gotAll, hnot]
    | some found =>
      obtain ⟨line, rest⟩ := found
      have hlength := search_length hsearch
      obtain ⟨e, htail, heq⟩ := parseLoop_ended fuel hnot hsearch
      rw [heq]
      by_cases hmatch : (matchRequestLine line).isSome
      · obtain ⟨c, hc, hstate, hmethod⟩ := parseRequestLine_spec hmatch
        obtain ⟨d, f, hloop, hfin⟩ := headers_finish_iff (b := e) fuel hstate hmethod (by
          rw [htail]
          omega)
        rw [htail, skipHeaders_eq (by omega)] at hfin
        refine ⟨true, d, f, ?_, ?_⟩
        · rw [parseLine_requestLine hc]
          exact hloop
        · rw [gotAll, decide_eq_true_iff, hfin]
          constructor
          · intro h
            exact ⟨line, rest, rfl, hmatch, h⟩
          · intro h
            obtain ⟨line', rest', hpair, -, h⟩ := h
            obtain ⟨rfl, rfl⟩ := Prod.mk.inj (Option.some.inj hpair)
            exact h
      · refine ⟨false, new, b, ?_, ?_⟩
        · rw [parseLine_badLine hmatch]
          rfl
        · apply iff_of_false
          · simp [gotAll, hnot]
          · intro h
            obtain ⟨line', rest', hpair, hm, -⟩ := h
            obtain ⟨rfl, rfl⟩ := Prod.mk.inj (Option.some.inj hpair)
            exact hmatch hm

theorem completeHead_iff {bytes line rest : List Byte} (h : search CRLF bytes = some (line, rest)) :
    CompleteHead bytes ↔ (matchRequestLine line).isSome ∧ HeaderLines rest := by
  constructor
  · intro hhead
    obtain ⟨line', rest', h', hmatch, hlines⟩ := hhead
    rw [h] at h'
    obtain ⟨rfl, rfl⟩ := Prod.mk.inj (Option.some.inj h')
    exact ⟨hmatch, hlines⟩
  · intro hx
    exact ⟨line, rest, h, hx.1, hx.2⟩

/-- `gotAll()` can be trusted exactly when the bytes are not cut. -/
theorem finishSound_iff (b : ByteBuffer) : FinishSound b ↔ NotCut b.content := by
  obtain ⟨ok, c, d, hparse, hfin⟩ := parseRequest_finish_iff b
  have hsound : FinishSound b ↔ (c.gotAll = true → CompleteHead b.content) := by
    constructor
    · intro h
      exact h ok c d hparse
    · intro h ok' c' d' hparse' hgot
      rw [hparse] at hparse'
      obtain ⟨-, hpair⟩ := Prod.mk.inj (Option.some.inj hparse')
      obtain ⟨rfl, -⟩ := Prod.mk.inj hpair
      exact h hgot
  rw [hsound, hfin, NotCut]
  constructor
  · intro h line rest hsearch hmatch
    rw [← ends_iff]
    intro hf
    have hhead := h ⟨line, rest, hsearch, hmatch, hf⟩
    rw [completeHead_iff hsearch] at hhead
    rw [behindHeaders, headerLines_skip]
    exact hhead.2
  · intro h hf
    obtain ⟨line, rest, hsearch, hmatch, hf⟩ := hf
    have hends := (ends_iff _).mpr (h line rest hsearch hmatch) hf
    rw [behindHeaders, headerLines_skip] at hends
    exact (completeHead_iff hsearch).mpr ⟨hmatch, hends⟩

/-- A request whose blank line lacks its last byte. -/
def cutRequest : ByteBuffer :=
  (ByteBuffer.new 1024).append (text "GET / HTTP/1.1" ++ CRLF ++ [CR])

/-- It is taken for a whole one. -/
theorem cutRequest_finishes :
    cutRequest.content = text "GET / HTTP/1.1" ++ CRLF ++ [CR] ∧
      (∃ ok c d, new.parseRequest cutRequest = some (ok, c, d) ∧ c.gotAll = true) ∧
      ¬ CompleteHead cutRequest.content ∧ ¬ FinishSound cutRequest := by
  have hcontent : cutRequest.content = text "GET / HTTP/1.1" ++ CRLF ++ [CR] := by
    rw [cutRequest, ByteBuffer.content_append]
    rfl
  have hsearch : search CRLF cutRequest.content = some (text "GET / HTTP/1.1", [CR]) := by
    rw [hcontent]
    decide
  obtain ⟨ok, c, d, hparse, hfin⟩ := parseRequest_finish_iff cutRequest
  have hgot : c.gotAll = true := by
    refine hfin.mpr ⟨_, _, hsearch, by decide, Or.inl ?_⟩
    decide
  have hhead : ¬ CompleteHead cutRequest.content := by
    rw [completeHead_iff hsearch]
    intro hx
    have hnone : search CRLF [CR] = none := by decide
    exact not_headerLines hnone hx.2
  exact ⟨hcontent, ⟨ok, c, d, hparse, hgot⟩, hhead, fun h => hhead (h ok c d hparse hgot)⟩

end HttpContext

end Mymuduo.Http
