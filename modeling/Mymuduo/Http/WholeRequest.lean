import Mymuduo.Http.Segmentation
import Mymuduo.Lib.Assoc

namespace Mymuduo.Http

open Lib Net HttpContext

/-- A header as clients write it: a blank stands between the colon and the value. -/
structure Header where
  name : List Byte
  value : List Byte
  name_ok : COLON ∉ name ∧ CR ∉ name ∧ LF ∉ name
  value_ok : CR ∉ value ∧ LF ∉ value ∧ value.head? ≠ some SP

namespace Header

def line (h : Header) : List Byte := h.name ++ text ": " ++ h.value

def field (h : Header) : Field where
  name := h.name
  value := SP :: h.value
  name_ok := h.name_ok
  value_ok := by
    have hcr : CR ≠ SP := by decide
    have hlf : LF ≠ SP := by decide
    simp [hcr, hlf, h.value_ok.1, h.value_ok.2.1]

theorem field_line (h : Header) : h.field.line = h.line := by
  rw [line, List.append_assoc]
  rfl

/-- Header lines with the blank line behind them. -/
def block (hs : List Header) : List Byte := hs.flatMap (fun h => h.line ++ CRLF) ++ CRLF

theorem block_fields (hs : List Header) : Field.block (hs.map field) = block hs := by
  induction hs with
  | nil => rfl
  | cons h hs ih =>
    rw [List.map_cons, Field.block, ih, field_line, block, block, List.flatMap_cons]
    simp only [List.append_assoc]

def pair (h : Header) : List Byte × List Byte := (h.name, h.value)

theorem skipBlank_value (h : Header) : skipBlank h.field.value = h.value := by
  have hdrop : (SP :: h.value).dropPrefix? [SP] = some h.value := dropPrefix?_append [SP] h.value
  rw [skipBlank, field, hdrop]
  rfl

end Header

/-- The path after the rewriting to a default page. -/
def defaultPage (path : List Byte) : List Byte :=
  if path = text "/" then text "/index.html"
  else if HttpRequestTest.DEFAULT_HTML_.contains path then path ++ text ".html"
  else path

namespace HttpContext

theorem parsePath_eq (c : HttpContext) : c.parsePath_ =
    { c with request_ := { c.request_ with path_ := defaultPage c.request_.path_ } } := by
  rw [parsePath_, defaultPage]
  simp only [List.contains_iff_mem]
  split_ifs
  · rfl
  · rfl
  · rfl

/-- The context with another map of headers. -/
def withHeaders (c : HttpContext) (m : List Byte → Option (List Byte)) : HttpContext :=
  { c with request_ := { c.request_ with header_ := m } }

theorem addFields_cons (c : HttpContext) (h : Header) (hs : List Header) :
    c.addFields ((h :: hs).map Header.field) = (c.withHeaders (Function.update c.request_.header_
      h.name (some h.value))).addFields (hs.map Header.field) := by
  rw [List.map_cons, addFields, List.foldl_cons, h.skipBlank_value]
  rfl

/-- Of a header that is given more than once the last value stays. -/
theorem addFields_eq (c : HttpContext) (hs : List Header) :
    c.addFields (hs.map Header.field) = c.withHeaders fun name =>
      (lastValue (hs.map Header.pair) name).or (c.request_.header_ name) := by
  have hfold : ∀ c : HttpContext, c.addFields (hs.map Header.field) =
      c.withHeaders ((hs.map Header.pair).foldl (fun (m : List Byte → Option (List Byte)) p =>
        Function.update m p.1 (some p.2)) c.request_.header_) := by
    induction hs with
    | nil =>
      intro c
      rfl
    | cons h hs ih =>
      intro c
      rw [addFields_cons, ih]
      rfl
  rw [hfold]
  congr 1
  funext name
  exact foldl_update _ _ _

end HttpContext

theorem get_ok : SP ∉ text "GET" ∧ CR ∉ text "GET" ∧ LF ∉ text "GET" := by decide

theorem http11_ok : SP ∉ text "1.1" ∧ CR ∉ text "1.1" ∧ LF ∉ text "1.1" := by decide

theorem contentLength_ok : COLON ∉ text "Content-Length" ∧ CR ∉ text "Content-Length" ∧
    LF ∉ text "Content-Length" := by decide

/-- A GET request without a body. -/
structure GetRequest where
  path : List Byte
  version : List Byte
  headers : List Header
  path_ok : SP ∉ path ∧ CR ∉ path ∧ LF ∉ path
  version_ok : SP ∉ version ∧ CR ∉ version ∧ LF ∉ version

namespace GetRequest

def wire (r : GetRequest) : List Byte :=
  text "GET " ++ r.path ++ text " HTTP/" ++ r.version ++ CRLF ++ Header.block r.headers

def head (r : GetRequest) : Head :=
  ⟨text "GET", r.path, r.version, r.headers.map Header.field, get_ok, r.path_ok, r.version_ok⟩

theorem head_wire (r : GetRequest) : r.head.wire = r.wire := by
  rw [Head.wire, Head.line, Head.lead, wire, head, Header.block_fields]
  have hget : text "GET " = text "GET" ++ [SP] := rfl
  have hhttp : text " HTTP/" = SP :: text "HTTP/" := rfl
  rw [hget, hhttp]
  simp only [List.append_assoc, List.cons_append, List.nil_append]

/-- What comes of the request: the version is known if it is one of two, and a header that is
given twice has its last value. -/
structure Parsed (r : GetRequest) (c : HttpContext) : Prop where
  method : c.request_.method_ = .kGet
  http11 : c.request_.version_ = .kHttp11 ↔ r.version = text "1.1"
  http10 : c.request_.version_ = .kHttp10 ↔ r.version = text "1.0"
  path : c.request_.path_ = defaultPage r.path
  header : ∀ name, c.request_.header_ name = lastValue (r.headers.map Header.pair) name
  body : c.request_.body_ = []

theorem parsed_context (r : GetRequest) (state : ParseState) :
    r.Parsed { r.head.context.addFields r.head.fields with state_ := state } := by
  have hdiff : text "1.0" ≠ text "1.1" := by decide
  have hcontext : r.head.context.addFields r.head.fields = _ := addFields_eq _ r.headers
  rw [hcontext, Head.context, parsePath_eq]
  refine ⟨rfl, ?_, ?_, rfl, ?_, rfl⟩
  · change (if r.version = text "1.1" then Version.kHttp11
      else if r.version = text "1.0" then .kHttp10 else .kUnknown) = .kHttp11 ↔ _
    split_ifs with h11 h10
    · simp [h11]
    · simp [h11]
    · simp [h11]
  · change (if r.version = text "1.1" then Version.kHttp11
      else if r.version = text "1.0" then .kHttp10 else .kUnknown) = .kHttp10 ↔ _
    split_ifs with h11 h10
    · simp [h11, hdiff.symm]
    · simp [h10]
    · simp [h10]
  · intro name
    exact Option.or_none

/-- A request that arrives whole is parsed to what was written, and taken from the buffer. -/
theorem whole_parsed (r : GetRequest) {b : ByteBuffer} (hb : b.content = r.wire) :
    ∃ c d, HttpContext.new.parseRequest b = some (true, c, d) ∧ c.state_ = .FINISH ∧
      d.content = [] ∧ r.Parsed c := by
  have hwire : b.content = r.head.wire ++ [] := by
    rw [hb, head_wire, List.append_nil]
  obtain ⟨d, rest, hd, -, heq⟩ := parseRequest_head r.head hwire
  rw [if_pos rfl, parseLoop_finish rest d rfl] at heq
  exact ⟨_, d, heq, rfl, hd, r.parsed_context .FINISH⟩

/-- A request with one header twice. -/
def twice : GetRequest :=
  ⟨text "/index", text "1.1", [⟨text "A", text "1", by decide, by decide⟩,
    ⟨text "A", text "2", by decide, by decide⟩], by decide, http11_ok⟩

theorem twice_parsed : ((ByteBuffer.new 0).append twice.wire).content = twice.wire ∧ ∃ c d,
    HttpContext.new.parseRequest ((ByteBuffer.new 0).append twice.wire) = some (true, c, d) ∧
      c.state_ = .FINISH ∧ d.content = [] ∧ twice.Parsed c := by
  have hb : ((ByteBuffer.new 0).append twice.wire).content = twice.wire := by
    rw [ByteBuffer.content_append, ByteBuffer.content_new, List.nil_append]
  exact ⟨hb, whole_parsed twice hb⟩

end GetRequest

/-- A POST request with a body that has no line end in it. -/
structure PostRequest where
  path : List Byte
  headers : List Header
  body : List Byte
  path_ok : SP ∉ path ∧ CR ∉ path ∧ LF ∉ path
  body_ok : body ≠ [] ∧ search CRLF body = none

namespace PostRequest

def wire (r : PostRequest) : List Byte :=
  text "POST " ++ r.path ++ text " HTTP/1.1" ++ CRLF ++ Header.block r.headers ++ r.body

def head (r : PostRequest) : Head :=
  ⟨text "POST", r.path, text "1.1", r.headers.map Header.field, by decide, r.path_ok, http11_ok⟩

theorem head_wire (r : PostRequest) : r.head.wire ++ r.body = r.wire := by
  rw [Head.wire, Head.line, Head.lead, wire, head, Header.block_fields]
  have hpost : text "POST " = text "POST" ++ [SP] := rfl
  have hhttp : text " HTTP/1.1" = SP :: (text "HTTP/" ++ text "1.1") := rfl
  rw [hpost, hhttp]
  simp only [List.append_assoc, List.cons_append, List.nil_append]

/-- The request is taken from the buffer whole, as a POST request with its body. -/
def Received (r : PostRequest) (b : ByteBuffer) : Prop :=
  ∃ c d, HttpContext.new.parseRequest b = some (true, c, d) ∧ c.gotAll = true ∧
    c.request_.method_ = .kPost ∧ c.request_.body_ = r.body ∧ d.content = []

/-- The request line does not set the method, and the body stays in the buffer. -/
theorem body_left_behind (r : PostRequest) {b : ByteBuffer} (hb : b.content = r.wire) :
    (∃ c d, HttpContext.new.parseRequest b = some (true, c, d) ∧ c.gotAll = true ∧
      c.request_.method_ = .kInvalid ∧ c.request_.body_ = r.body ∧ d.content = r.body) ∧
    ¬ r.Received b := by
  obtain ⟨d, rest, hd, hrest, heq⟩ := parseRequest_head r.head (hb.trans r.head_wire.symm)
  rw [if_neg r.body_ok.1] at heq
  have hpos := List.length_pos_iff.mpr r.body_ok.1
  obtain ⟨rest, rfl⟩ : ∃ k, rest = k + 1 := ⟨rest - 1, by omega⟩
  have hmethod : (r.head.context.addFields r.head.fields).request_.method_ = .kInvalid := by
    rw [addFields_method, Head.context, parsePath_method]
    rfl
  have hpost : ({ r.head.context.addFields r.head.fields with
      state_ := .BODY } : HttpContext).request_.method_ ≠ .kPost := by
    rw [hmethod]
    decide
  rw [parseLoop_unended rest (by simp) (hd ▸ r.body_ok.1) (hd ▸ r.body_ok.2), hd] at heq
  simp only [parseLine, parseDataBody_eq hpost, Option.map_some] at heq
  refine ⟨⟨_, d, heq, rfl, hmethod, rfl, hd⟩, ?_⟩
  intro h
  obtain ⟨c, e, hparse, -, hkind, -, -⟩ := h
  rw [heq] at hparse
  obtain ⟨rfl, -⟩ := Prod.mk.inj (Prod.mk.inj (Option.some.inj hparse)).2
  exact hpost hkind

/-- A form with one field. -/
def form : PostRequest :=
  ⟨text "/login", [⟨text "Content-Length", text "3", contentLength_ok, by decide⟩], text "a=1",
    by decide, by decide⟩

theorem form_left_behind : ((ByteBuffer.new 0).append form.wire).content = form.wire ∧
    ¬ form.Received ((ByteBuffer.new 0).append form.wire) := by
  have hb : ((ByteBuffer.new 0).append form.wire).content = form.wire := by
    rw [ByteBuffer.content_append, ByteBuffer.content_new, List.nil_append]
  exact ⟨hb, (body_left_behind form hb).2⟩

/-- Its three bytes are read as the start of the next request. -/
theorem form_not_received : ¬ ∀ (r : PostRequest) (b : ByteBuffer), b.content = r.wire →
    r.Received b := by
  intro h
  have hb : ((ByteBuffer.new 0).append form.wire).content = form.wire := by
    rw [ByteBuffer.content_append, ByteBuffer.content_new, List.nil_append]
  obtain ⟨c, d, hparse, -, hkind, -⟩ := h form _ hb
  have hrun : (HttpContext.new.parseRequest ((ByteBuffer.new 0).append form.wire)).map
      (fun x => (x.2.1.request_.method_, x.2.2.content)) = some (.kInvalid, text "a=1") := by
    decide +kernel
  rw [hparse, Option.map_some, Option.some.injEq, hkind] at hrun
  cases hrun

end PostRequest

end Mymuduo.Http
