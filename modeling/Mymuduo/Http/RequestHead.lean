import Mymuduo.Http.HttpContext

namespace Mymuduo.Http

open Lib Net

/-- A header line: the name, and what follows its colon. -/
structure Field where
  name : List Byte
  value : List Byte
  name_ok : COLON ∉ name ∧ CR ∉ name ∧ LF ∉ name
  value_ok : CR ∉ value ∧ LF ∉ value

namespace Field

def line (f : Field) : List Byte := f.name ++ COLON :: f.value

/-- Header lines with the blank line that ends them. -/
def block : List Field → List Byte
  | [] => CRLF
  | f :: fs => f.line ++ CRLF ++ block fs

theorem two_le_block (fs : List Field) : 2 ≤ (block fs).length := by
  induction fs with
  | nil => simp [block, CRLF]
  | cons f fs ih =>
    simp only [block, List.length_append]
    omega

end Field

/-- A well-formed request without a body. -/
structure Head where
  method : List Byte
  path : List Byte
  version : List Byte
  fields : List Field
  method_ok : SP ∉ method ∧ CR ∉ method ∧ LF ∉ method
  path_ok : SP ∉ path ∧ CR ∉ path ∧ LF ∉ path
  version_ok : SP ∉ version ∧ CR ∉ version ∧ LF ∉ version

namespace Head

/-- The request line up to where the version starts. -/
def lead (r : Head) : List Byte := r.method ++ SP :: (r.path ++ SP :: text "HTTP/")

def line (r : Head) : List Byte := r.lead ++ r.version

def wire (r : Head) : List Byte := r.line ++ CRLF ++ Field.block r.fields

end Head

theorem CR_ne_LF : CR ≠ LF := by decide

theorem matchRequestLine_eq_some {line m p v : List Byte} :
    matchRequestLine line = some (m, p, v) ↔
      line = m ++ SP :: (p ++ SP :: (text "HTTP/" ++ v)) ∧ SP ∉ m ∧ SP ∉ p ∧ SP ∉ v := by
  unfold matchRequestLine
  constructor
  · intro h
    obtain ⟨⟨a, rest⟩, ha, h⟩ := Option.bind_eq_some_iff.mp h
    obtain ⟨⟨b, rest'⟩, hb, h⟩ := Option.bind_eq_some_iff.mp h
    obtain ⟨c, hc, h⟩ := Option.bind_eq_some_iff.mp h
    split_ifs at h with hsp
    obtain ⟨rfl, hpair⟩ := Prod.mk.inj (Option.some.inj h)
    obtain ⟨rfl, rfl⟩ := Prod.mk.inj hpair
    obtain ⟨rfl, hm⟩ := search_one_eq_some.mp ha
    obtain ⟨rfl, hp⟩ := search_one_eq_some.mp hb
    rw [eq_append_of_dropPrefix? hc]
    exact ⟨rfl, hm, hp, hsp⟩
  · intro hx
    obtain ⟨rfl, hm, hp, hv⟩ := hx
    simp [search_one hm, search_one hp, dropPrefix?_append, hv]

/-- No part of a request line that ends before its version matches. -/
theorem Head.not_match_of_short (r : Head) {u t : List Byte} (h : u ++ t = r.lead) (ht : t ≠ []) :
    matchRequestLine u = none := by
  cases hm : matchRequestLine u with
  | none => rfl
  | some groups =>
    obtain ⟨m, p, v⟩ := groups
    obtain ⟨rfl, hm, hp, -⟩ := matchRequestLine_eq_some.mp hm
    have heq : m ++ SP :: (p ++ SP :: (text "HTTP/" ++ (v ++ t))) = r.lead := by
      rw [← h]
      simp
    have h1 := search_one hm (p ++ SP :: (text "HTTP/" ++ (v ++ t)))
    rw [heq, Head.lead, search_one r.method_ok.1] at h1
    have hrest := (Prod.mk.inj (Option.some.inj h1)).2
    have h2 := search_one hp (text "HTTP/" ++ (v ++ t))
    rw [← hrest, search_one r.path_ok.1] at h2
    have hend := (Prod.mk.inj (Option.some.inj h2)).2
    have hnil := List.append_right_eq_self.mp hend.symm
    exact absurd (List.append_eq_nil_iff.mp hnil).2 ht

theorem Head.match_lead (r : Head) {v : List Byte} (hv : SP ∉ v) :
    matchRequestLine (r.lead ++ v) = some (r.method, r.path, v) := by
  refine matchRequestLine_eq_some.mpr ⟨?_, r.method_ok.1, r.path_ok.1, hv⟩
  simp [Head.lead]

theorem Head.lead_lf (r : Head) : LF ∉ r.lead := by
  have h1 := r.method_ok.2.2
  have h2 := r.path_ok.2.2
  have h3 : LF ∉ text "HTTP/" := by decide
  have h4 : LF ≠ SP := by decide
  simp [Head.lead, h1, h2, h3, h4]

theorem Head.line_lf (r : Head) : LF ∉ r.line := by
  have h1 := r.lead_lf
  have h2 := r.version_ok.2.2
  simp [Head.line, h1, h2]

theorem Field.line_lf (f : Field) : LF ∉ f.line := by
  have h1 := f.name_ok.2.2
  have h2 := f.value_ok.2
  have h3 : LF ≠ COLON := by decide
  simp [Field.line, h1, h2, h3]

theorem skipBlank_subset (rest : List Byte) : skipBlank rest ⊆ rest := by
  unfold skipBlank
  cases h : rest.dropPrefix? [SP] with
  | none => simp
  | some l =>
    rw [eq_append_of_dropPrefix? h]
    exact List.subset_append_right _ _

theorem Field.match_line (f : Field) :
    matchHeader f.line = some (f.name, skipBlank f.value) := by
  have hcr : CR ∉ skipBlank f.value := fun hm => f.value_ok.1 (skipBlank_subset _ hm)
  have hlf : LF ∉ skipBlank f.value := fun hm => f.value_ok.2 (skipBlank_subset _ hm)
  simp [matchHeader, Field.line, search_one f.name_ok.1, hcr, hlf]

namespace HttpContext

variable {fuel : Nat} {c : HttpContext} {b : ByteBuffer}

/-- What a list of header lines does to the request. -/
def addFields (c : HttpContext) (fs : List Field) : HttpContext :=
  fs.foldl (fun c f => { c with request_ := c.request_.addHeader_ f.name (skipBlank f.value) }) c

/-- The loop goes on. -/
theorem goes_on (hb : b.content ≠ []) (hc : c.state_ ≠ .FINISH) :
    ¬ (b.content.length = 0 ∨ c.state_ = .FINISH) := by
  simp [hb, hc]

theorem parseLoop_nil (fuel : Nat) (c : HttpContext) (hb : b.content = []) :
    parseLoop fuel c b = some (true, c, b) := by
  have hzero : b.readableBytes = 0 := by rw [b.readableBytes_eq, hb, List.length_nil]
  cases fuel with
  | zero => rfl
  | succ fuel => simp [parseLoop, hzero]

theorem parseLoop_finish (fuel : Nat) (b : ByteBuffer) (hc : c.state_ = .FINISH) :
    parseLoop fuel c b = some (true, c, b) := by
  cases fuel with
  | zero => rfl
  | succ fuel => simp [parseLoop, hc]

/-- A last line without its end is parsed and left in the buffer. -/
theorem parseLoop_unended (fuel : Nat) (hc : c.state_ ≠ .FINISH) (hb : b.content ≠ [])
    (hsearch : search CRLF b.content = none) : parseLoop (fuel + 1) c b =
      (c.parseLine b.content b.content.length).map fun (ok, c) => (ok, c, b) := by
  simp only [parseLoop, b.readableBytes_eq, goes_on hb hc, if_false, hsearch]

/-- What is left once the first line and its end are taken. -/
theorem retrieve_line {line tail : List Byte} (hsearch : search CRLF b.content = some (line, tail)) :
    (b.retrieve (line.length + 2)).content = tail := by
  rw [ByteBuffer.content_retrieve, search_append hsearch]
  have hlength : line.length + 2 = (line ++ CRLF).length := by simp [CRLF]
  rw [hlength]
  exact List.drop_left

/-- A line with its end is parsed and taken from the buffer. -/
theorem parseLoop_ended (fuel : Nat) (hc : c.state_ ≠ .FINISH) {line tail : List Byte}
    (hsearch : search CRLF b.content = some (line, tail)) :
    ∃ d : ByteBuffer, d.content = tail ∧ parseLoop (fuel + 1) c b =
      (c.parseLine line b.content.length).bind fun (ok, c) =>
        if ok then parseLoop fuel c d else some (false, c, b) := by
  have hline := search_append hsearch
  have hne : b.content ≠ [] := by simp [hline, CRLF]
  refine ⟨b.retrieve (line.length + 2), retrieve_line hsearch, ?_⟩
  simp only [parseLoop, b.readableBytes_eq, goes_on hne hc, if_false, hsearch]

theorem parseLoop_open (fuel : Nat) (hc : c.state_ ≠ .FINISH) (hb : b.content ≠ [])
    (hlf : LF ∉ b.content) : parseLoop (fuel + 1) c b =
      (c.parseLine b.content b.content.length).map fun (ok, c) => (ok, c, b) :=
  parseLoop_unended fuel hc hb (search_eq_none_of_not_mem (y := LF) (by simp [CRLF]) hlf)

theorem parseLoop_line (fuel : Nat) (hc : c.state_ ≠ .FINISH) {line tail : List Byte}
    (hlf : LF ∉ line) (hb : b.content = line ++ CRLF ++ tail) :
    ∃ d : ByteBuffer, d.content = tail ∧ parseLoop (fuel + 1) c b =
      (c.parseLine line b.content.length).bind fun (ok, c) =>
        if ok then parseLoop fuel c d else some (false, c, b) := by
  have hline : b.content = line ++ CR :: LF :: tail := by simpa [CRLF] using hb
  apply parseLoop_ended fuel hc
  rw [hline]
  exact search_line CR_ne_LF hlf tail

/-- A header line is added to the request. -/
theorem parseLine_field (f : Field) (hc : c.state_ = .HEADERS) {readable : Nat}
    (hr : 2 < readable) : c.parseLine f.line readable = some (true, c.addFields [f]) := by
  simp [parseLine, hc, Nat.not_le.mpr hr, parseRequestHeader_, f.match_line, addFields]

/-- The blank line ends the request if it is the end of what has come. -/
theorem parseLine_blank (hc : c.state_ = .HEADERS) (readable : Nat) : c.parseLine [] readable =
    some (true, { c with state_ := if readable ≤ 2 then .FINISH else .BODY }) := by
  have hnone : matchHeader [] = none := rfl
  simp only [parseLine, hc, parseRequestHeader_, hnone]
  split_ifs <;> rfl

theorem parseLine_headers (hc : c.state_ = .HEADERS) (line : List Byte) (readable : Nat) :
    ∃ d, c.parseLine line readable = some (true, d) := by
  simp only [parseLine, hc]
  split_ifs
  · exact ⟨_, rfl⟩
  · exact ⟨_, rfl⟩

theorem state_addFields (fs : List Field) : (c.addFields fs).state_ = c.state_ := by
  induction fs generalizing c with
  | nil => rfl
  | cons f fs ih => exact ih

/-- The whole block of header lines, with `y` behind it. -/
theorem parseLoop_block (fs : List Field) (hc : c.state_ = .HEADERS) {y : List Byte}
    (hb : b.content = Field.block fs ++ y) (hfuel : b.content.length ≤ fuel) :
    ∃ (d : ByteBuffer) (rest : Nat), d.content = y ∧ y.length ≤ rest ∧
      parseLoop fuel c b = parseLoop rest { c.addFields fs with
        state_ := if y = [] then .FINISH else .BODY } d := by
  have hfin : c.state_ ≠ .FINISH := by simp [hc]
  induction fs generalizing fuel c b with
  | nil =>
    have hlen : b.content.length = y.length + 2 := by
      rw [hb]
      simp [Field.block, CRLF]
    obtain ⟨rest, rfl⟩ : ∃ rest, fuel = rest + 1 := ⟨fuel - 1, by omega⟩
    have hcrlf : b.content = [] ++ CRLF ++ y := hb
    obtain ⟨d, hd, heq⟩ := parseLoop_line rest hfin (List.not_mem_nil (a := LF)) hcrlf
    refine ⟨d, rest, hd, by omega, ?_⟩
    have hiff : b.content.length ≤ 2 ↔ y = [] := by
      rw [hlen, ← List.length_eq_zero_iff]
      omega
    rw [heq, parseLine_blank hc]
    simp only [hiff, Option.bind_some, if_true]
    rfl
  | cons f fs ih =>
    have hlen : b.content.length = f.line.length + (2 + (Field.block fs ++ y).length) := by
      rw [hb]
      simp [Field.block, CRLF]
      omega
    have hblank : 2 ≤ (Field.block fs ++ y).length := by
      rw [List.length_append]
      have := Field.two_le_block fs
      omega
    obtain ⟨rest, rfl⟩ : ∃ rest, fuel = rest + 1 := ⟨fuel - 1, by omega⟩
    have hline : b.content = f.line ++ CRLF ++ (Field.block fs ++ y) := by
      simpa [Field.block] using hb
    obtain ⟨d, hd, heq⟩ := parseLoop_line rest hfin f.line_lf hline
    have hst : (c.addFields [f]).state_ = .HEADERS := by rw [state_addFields, hc]
    have hrest : d.content.length ≤ rest := by
      rw [hd]
      omega
    obtain ⟨e, rest', he, hle, heq'⟩ := ih (c := c.addFields [f]) hst hd hrest (by simp [hst])
    refine ⟨e, rest', he, hle, ?_⟩
    rw [heq, parseLine_field f hc (by omega)]
    exact heq'

theorem parseLoop_headers_open (hc : c.state_ = .HEADERS) (hlf : LF ∉ b.content)
    (hfuel : b.content.length ≤ fuel) : ∃ d, parseLoop fuel c b = some (true, d, b) := by
  by_cases hb : b.content = []
  · exact ⟨c, parseLoop_nil fuel c hb⟩
  · have hpos := List.length_pos_iff.mpr hb
    obtain ⟨rest, rfl⟩ : ∃ rest, fuel = rest + 1 := ⟨fuel - 1, by omega⟩
    obtain ⟨d, hd⟩ := parseLine_headers hc b.content b.content.length
    refine ⟨d, ?_⟩
    rw [parseLoop_open rest (by simp [hc]) hb hlf, hd]
    rfl

/-- Part of a block of header lines: what stays in the buffer and what is to come are a block
again. -/
theorem parseLoop_part (fs : List Field) (hc : c.state_ = .HEADERS) {t : List Byte}
    (hb : b.content ++ t = Field.block fs) (ht : t ≠ []) (hfuel : b.content.length ≤ fuel) :
    ∃ (ctx : HttpContext) (d : ByteBuffer) (fs' : List Field), fs' <:+ fs ∧
      parseLoop fuel c b = some (true, ctx, d) ∧ d.content ++ t = Field.block fs' := by
  induction fs generalizing fuel c b with
  | nil =>
    have hblock : b.content ++ t = [] ++ CR :: LF :: [] := hb
    rcases line_cases CR_ne_LF (by simp) hblock with ⟨-, hlf⟩ | ⟨v, -, hv⟩
    · obtain ⟨d, hd⟩ := parseLoop_headers_open hc hlf hfuel
      exact ⟨d, b, [], List.suffix_rfl, hd, hb⟩
    · exact absurd (List.append_eq_nil_iff.mp hv).2 ht
  | cons f fs ih =>
    have hblock : b.content ++ t = f.line ++ CR :: LF :: Field.block fs := by
      simpa [Field.block, CRLF] using hb
    rcases line_cases CR_ne_LF f.line_lf hblock with ⟨-, hlf⟩ | ⟨v, hv, hvt⟩
    · obtain ⟨d, hd⟩ := parseLoop_headers_open hc hlf hfuel
      exact ⟨d, b, f :: fs, List.suffix_rfl, hd, hb⟩
    · have hlen : b.content.length = f.line.length + (2 + v.length) := by
        rw [hv]
        simp
        omega
      have hcolon : 1 ≤ f.line.length := by
        simp [Field.line]
        omega
      obtain ⟨rest, rfl⟩ : ∃ rest, fuel = rest + 1 := ⟨fuel - 1, by omega⟩
      have hfin : c.state_ ≠ .FINISH := by simp [hc]
      have hline : b.content = f.line ++ CRLF ++ v := by simpa [CRLF] using hv
      obtain ⟨d, hd, heq⟩ := parseLoop_line rest hfin f.line_lf hline
      have hst : (c.addFields [f]).state_ = .HEADERS := by rw [state_addFields, hc]
      have hrest : d.content.length ≤ rest := by
        rw [hd]
        omega
      obtain ⟨ctx, e, fs', hsuf, heq', he⟩ := ih (c := c.addFields [f]) hst (hd ▸ hvt) hrest
      refine ⟨ctx, e, fs', hsuf.trans (List.suffix_cons f fs), ?_, he⟩
      rw [heq, parseLine_field f hc (by omega)]
      exact heq'

end HttpContext

end Mymuduo.Http
