import Mathlib.Data.List.TakeWhile
import Mymuduo.Http.HttpServer
import Mymuduo.Http.WholeRequest
import Mymuduo.Lib.Decimal

namespace Mymuduo.Http

open Lib Net

/-- What `snprintf` leaves in a buffer of `size` bytes, the last of which is a 0. -/
def snprintf (size : Nat) (s : List Byte) : List Byte := s.take (size - 1)

/-- The conversion `%zd` of a size. -/
def zd (size : Nat) : List Byte := text (toString (Int.bmod size (2 ^ 64)))

namespace HttpResponseTest

/-- `fields` is `header_` in the order in which the loop meets its entries. -/
def appendToBuffer (r : HttpResponseTest) (fields : List (List Byte × List Byte))
    (output : ByteBuffer) : ByteBuffer :=
  let output := output.append (cString (snprintf 64
    (text "HTTP/1.1 " ++ text (toString r.code_.value) ++ text " ")))
  let output := (output.append r.statusMessage_).append (text "\r\n")
  let output :=
    if r.isKeepAlive_ then output.append (text "Connection: close\r\n")
    else
      (output.append (cString (snprintf 64
        (text "Content-Length: " ++ zd r.body_.length ++ text "\r\n")))).append
        (text "Connection: Keep-Alive\r\n")
  let output := fields.foldl (fun output field => (((output.append field.1).append
    (text ": ")).append field.2).append (text "\r\n")) output
  (output.append (text "\r\n")).append r.body_

end HttpResponseTest

/-! A reader of responses, as a client has it. -/

structure Response where
  code : Nat
  message : List Byte
  fields : List (List Byte × List Byte)
  body : List Byte

def readStatusLine (line : List Byte) : Option (Nat × List Byte) := do
  let rest ← line.dropPrefix? (text "HTTP/1.1 ")
  let (code, message) ← search [SP] rest
  let code ← readDecimal code
  some (code, message)

/-- The header lines up to the first empty line. Blanks in front of a value do not belong to it. -/
def readFields : Nat → List Byte → Option (List (List Byte × List Byte) × List Byte)
  | 0, _ => none
  | fuel + 1, bytes => do
    let (line, rest) ← search CRLF bytes
    if line = [] then some ([], rest)
    else
      let (name, value) ← search [COLON] line
      let (fields, rest) ← readFields fuel rest
      some ((name, value.dropWhile (· = SP)) :: fields, rest)

/-- A response and what stands behind it. -/
def readResponse (bytes : List Byte) : Option (Response × List Byte) := do
  let (line, rest) ← search CRLF bytes
  let (code, message) ← readStatusLine line
  let (fields, rest) ← readFields rest.length rest
  let length ← (fields.lookup (text "Content-Length")).bind readDecimal
  if rest.length < length then none
  else some (⟨code, message, fields, rest.take length⟩, rest.drop length)

def readResponses : Nat → List Byte → Option (List Response × List Byte)
  | 0, bytes => some ([], bytes)
  | n + 1, bytes => do
    let (response, bytes) ← readResponse bytes
    let (responses, bytes) ← readResponses n bytes
    some (response :: responses, bytes)

/-- A response that is kept alive in this class: the flag is false. Its headers come in the order
in which the map is walked through, and its body is no longer than a string can be. -/
structure Reply where
  response : HttpResponseTest
  headers : List Header
  keepAlive : response.isKeepAlive_ = false
  message_ok : CR ∉ response.statusMessage_ ∧ LF ∉ response.statusMessage_
  names_ok : ∀ h ∈ headers, h.name ≠ text "Content-Length" ∧ h.name ≠ text "Connection"
  entries : ∀ name value, (name, value) ∈ headers.map Header.pair ↔
    response.header_ name = some value
  body_size : response.body_.length < 2 ^ 63

namespace Reply

def append (r : Reply) (output : ByteBuffer) : ByteBuffer :=
  r.response.appendToBuffer (r.headers.map Header.pair) output

/-- What a client should have read. -/
structure ReadAs (r : Reply) (got : Response) : Prop where
  code : got.code = r.response.code_.value
  message : got.message = r.response.statusMessage_
  fields : ∀ name, got.fields.lookup name =
    if name = text "Content-Length" then some (decimal r.response.body_.length)
    else if name = text "Connection" then some (text "Keep-Alive")
    else r.response.header_ name
  body : got.body = r.response.body_

end Reply

theorem text_toString (n : Nat) : text (toString n) = decimal n := by
  simp [text, decimal]

theorem zd_eq {size : Nat} (h : size < 2 ^ 63) : zd size = decimal size := by
  have hmod : Int.bmod size (2 ^ 64) = size := by
    apply Int.bmod_eq_of_le_mul_two
    · omega
    · omega
  rw [zd, hmod]
  exact text_toString size

/-- The conversion to a string and the size of the buffer cut nothing off. -/
theorem cString_snprintf {size : Nat} {s : List Byte} (hlength : s.length < size)
    (hzero : (0 : Byte) ∉ s) : cString (snprintf size s) = s := by
  rw [snprintf, List.take_of_length_le (by omega), cString, List.takeWhile_eq_self_iff]
  intro b hb
  have hne : b ≠ 0 := fun h => hzero (h ▸ hb)
  simpa using hne

theorem not_mem_decimal {b : Byte} (h : ¬ (48 ≤ b ∧ b ≤ 57)) (n : Nat) : b ∉ decimal n :=
  fun hb => h (digit_of_mem_decimal hb)

/-- The header that gives the length of the body. -/
def contentLength (n : Nat) : Header where
  name := text "Content-Length"
  value := decimal n
  name_ok := contentLength_ok
  value_ok := by
    refine ⟨not_mem_decimal (by decide) n, not_mem_decimal (by decide) n, ?_⟩
    intro h
    exact not_mem_decimal (by decide) n (List.mem_of_head? h)

def connection : Header := ⟨text "Connection", text "Keep-Alive", by decide, by decide⟩

namespace Reply

def allHeaders (r : Reply) : List Header :=
  contentLength r.response.body_.length :: connection :: r.headers

def statusLine (r : Reply) : List Byte :=
  text "HTTP/1.1 " ++ decimal r.response.code_.value ++ SP :: r.response.statusMessage_

def bytes (r : Reply) : List Byte :=
  r.statusLine ++ CRLF ++ (Header.block r.allHeaders ++ r.response.body_)

theorem status_cut (r : Reply) : cString (snprintf 64
    (text "HTTP/1.1 " ++ text (toString r.response.code_.value) ++ text " ")) =
      text "HTTP/1.1 " ++ decimal r.response.code_.value ++ [SP] := by
  rw [text_toString]
  cases r.response.code_ with
  | kUnknown => decide +kernel
  | k200Ok => decide +kernel
  | k400BadRequest => decide +kernel
  | kForbidden => decide +kernel
  | k404NotFound => decide +kernel

theorem length_cut (r : Reply) : cString (snprintf 64
    (text "Content-Length: " ++ zd r.response.body_.length ++ text "\r\n")) =
      (contentLength r.response.body_.length).line ++ CRLF := by
  have hsize := r.body_size
  have hdigits : (decimal r.response.body_.length).length ≤ 19 :=
    length_decimal_le (by decide) (by omega)
  have hzero : (0 : Byte) ∉ decimal r.response.body_.length := not_mem_decimal (by decide) _
  have hfixed : (0 : Byte) ∉ text "Content-Length: " := by decide
  have hend : (0 : Byte) ∉ text "\r\n" := by decide
  rw [zd_eq hsize, cString_snprintf]
  · rfl
  · have hl : (text "Content-Length: ").length = 16 := by decide
    have hr : (text "\r\n").length = 2 := by decide
    rw [List.length_append, List.length_append, hl, hr]
    omega
  · simp only [List.mem_append, not_or]
    exact ⟨⟨hfixed, hzero⟩, hend⟩

/-- The loop over the headers. -/
theorem content_headers (hs : List Header) (b : ByteBuffer) :
    ((hs.map Header.pair).foldl (fun output field => (((output.append field.1).append
      (text ": ")).append field.2).append (text "\r\n")) b).content =
        b.content ++ hs.flatMap fun h => h.line ++ CRLF := by
  induction hs generalizing b with
  | nil => simp
  | cons h hs ih =>
    rw [List.map_cons, List.foldl_cons, ih, List.flatMap_cons]
    simp only [ByteBuffer.content_append, Header.pair, Header.line, List.append_assoc]
    rfl

theorem content_append (r : Reply) (b : ByteBuffer) :
    (r.append b).content = b.content ++ r.bytes := by
  rw [append, HttpResponseTest.appendToBuffer, status_cut, length_cut, r.keepAlive]
  simp only [Bool.false_eq_true, if_false, ByteBuffer.content_append, content_headers]
  rw [bytes, statusLine, Header.block, allHeaders, List.flatMap_cons, List.flatMap_cons]
  have hconnection : text "Connection: Keep-Alive\r\n" = connection.line ++ CRLF := rfl
  have hend : text "\r\n" = CRLF := rfl
  rw [hconnection, hend]
  simp only [List.append_assoc, List.cons_append, List.nil_append]

theorem readStatusLine_eq (r : Reply) :
    readStatusLine r.statusLine = some (r.response.code_.value, r.response.statusMessage_) := by
  have hblank : SP ∉ decimal r.response.code_.value := not_mem_decimal (by decide) _
  rw [readStatusLine, statusLine, List.append_assoc, dropPrefix?_append]
  simp only [Option.bind_eq_bind, Option.bind_some, search_one hblank, readDecimal_decimal]

theorem statusLine_lf (r : Reply) : LF ∉ r.statusLine := by
  have hfixed : LF ∉ text "HTTP/1.1 " := by decide
  have hcode : LF ∉ decimal r.response.code_.value := not_mem_decimal (by decide) _
  have hblank : LF ≠ SP := by decide
  simp only [statusLine, List.mem_append, List.mem_cons, not_or]
  exact ⟨⟨hfixed, hcode⟩, hblank, r.message_ok.2⟩

end Reply

namespace Header

/-- The reader gets every header from its line. -/
theorem readFields_block (hs : List Header) (tail : List Byte) {fuel : Nat}
    (hfuel : hs.length < fuel) :
    readFields fuel (block hs ++ tail) = some (hs.map pair, tail) := by
  induction hs generalizing fuel with
  | nil =>
    obtain ⟨fuel, rfl⟩ : ∃ k, fuel = k + 1 := ⟨fuel - 1, by omega⟩
    have hsearch : search CRLF (block [] ++ tail) = some ([], tail) := search_here [LF] tail
    rw [readFields, hsearch]
    rfl
  | cons h hs ih =>
    rw [List.length_cons] at hfuel
    obtain ⟨fuel, rfl⟩ : ∃ k, fuel = k + 1 := ⟨fuel - 1, by omega⟩
    have hlf : LF ∉ h.line := by
      rw [← h.field_line]
      exact h.field.line_lf
    have hbytes : block (h :: hs) ++ tail = h.line ++ CR :: LF :: (block hs ++ tail) := by
      simp [block, CRLF]
    have hline : h.line = h.name ++ COLON :: (SP :: h.value) := by
      rw [line, List.append_assoc]
      rfl
    have hne : h.line ≠ [] := by simp [hline]
    have hvalue : (SP :: h.value).dropWhile (· = SP) = h.value := by
      rw [List.dropWhile_cons_of_pos (by simp)]
      cases hcase : h.value with
      | nil => rfl
      | cons b bs =>
        apply List.dropWhile_cons_of_neg
        have hhead := h.value_ok.2.2
        rw [hcase] at hhead
        simpa using hhead
    have hcolon : search [COLON] h.line = some (h.name, SP :: h.value) := by
      rw [hline]
      exact search_one h.name_ok.1 _
    have hrest := ih (Nat.lt_of_succ_lt_succ hfuel)
    rw [readFields, hbytes, CRLF, search_line CR_ne_LF hlf]
    simp only [Option.bind_eq_bind, Option.bind_some, hne, if_false, hcolon, hrest, hvalue,
      List.map_cons, pair]

theorem length_lt_block (hs : List Header) : hs.length < (block hs).length := by
  induction hs with
  | nil => decide
  | cons h hs ih =>
    have hbytes : block (h :: hs) = h.line ++ CRLF ++ block hs := by simp [block]
    have hend : CRLF.length = 2 := rfl
    rw [hbytes, List.length_append, List.length_append, hend, List.length_cons]
    omega

end Header

namespace Reply

theorem lookup_headers (r : Reply) (name : List Byte) :
    (r.headers.map Header.pair).lookup name = r.response.header_ name := by
  apply Option.ext
  intro value
  rw [← r.entries]
  constructor
  · intro h
    obtain ⟨l, m, hl, -⟩ := List.lookup_eq_some_iff.mp h
    rw [hl]
    exact List.mem_append_right _ List.mem_cons_self
  · intro h
    have hsome : ((r.headers.map Header.pair).lookup name).isSome :=
      List.lookup_isSome_iff.mpr ⟨(name, value), h, beq_self_eq_true name⟩
    obtain ⟨w, hw⟩ := Option.isSome_iff_exists.mp hsome
    obtain ⟨l, m, hl, -⟩ := List.lookup_eq_some_iff.mp hw
    have hmem : (name, w) ∈ r.headers.map Header.pair := by
      rw [hl]
      exact List.mem_append_right _ List.mem_cons_self
    rw [hw, ← (r.entries name w).mp hmem, (r.entries name value).mp h]

/-- One response is read back, whatever stands behind it. -/
theorem readResponse_bytes (r : Reply) (tail : List Byte) :
    ∃ got, readResponse (r.bytes ++ tail) = some (got, tail) ∧ r.ReadAs got := by
  have hbytes : r.bytes ++ tail = r.statusLine ++ CR :: LF ::
      (Header.block r.allHeaders ++ (r.response.body_ ++ tail)) := by
    simp [bytes, CRLF]
  have hrounds : r.allHeaders.length <
      (Header.block r.allHeaders ++ (r.response.body_ ++ tail)).length := by
    have hblock := Header.length_lt_block r.allHeaders
    rw [List.length_append]
    omega
  have hfields := Header.readFields_block r.allHeaders (r.response.body_ ++ tail) hrounds
  have hlength : ((r.allHeaders.map Header.pair).lookup (text "Content-Length")).bind readDecimal =
      some r.response.body_.length := readDecimal_decimal _
  refine ⟨⟨r.response.code_.value, r.response.statusMessage_, r.allHeaders.map Header.pair,
    r.response.body_⟩, ?_, rfl, rfl, ?_, rfl⟩
  · rw [readResponse, hbytes, CRLF, search_line CR_ne_LF r.statusLine_lf]
    simp only [Option.bind_eq_bind, Option.bind_some, r.readStatusLine_eq, hfields, hlength]
    rw [if_neg (by simp), List.take_left, List.drop_left]
  · intro name
    have hcons : r.allHeaders.map Header.pair =
        (text "Content-Length", decimal r.response.body_.length) ::
          (text "Connection", text "Keep-Alive") :: r.headers.map Header.pair := rfl
    rw [hcons, List.lookup_cons, List.lookup_cons, lookup_headers]
    split_ifs with hlen hconn
    · rw [beq_iff_eq.mpr hlen]
    · rw [beq_eq_false_iff_ne.mpr hlen, beq_iff_eq.mpr hconn]
    · rw [beq_eq_false_iff_ne.mpr hlen, beq_eq_false_iff_ne.mpr hconn]

/-- Responses that are appended one after the other are read back one after the other. -/
theorem responses_read_back (rs : List Reply) (b : ByteBuffer) :
    ∃ bytes, (rs.foldl (fun b r => r.append b) b).content = b.content ++ bytes ∧
      ∀ tail, ∃ got, readResponses rs.length (bytes ++ tail) = some (got, tail) ∧
        List.Forall₂ ReadAs rs got := by
  induction rs generalizing b with
  | nil =>
    refine ⟨[], (List.append_nil _).symm, ?_⟩
    intro tail
    exact ⟨[], rfl, List.Forall₂.nil⟩
  | cons r rs ih =>
    obtain ⟨bytes, hcontent, hread⟩ := ih (r.append b)
    refine ⟨r.bytes ++ bytes, ?_, ?_⟩
    · rw [List.foldl_cons, hcontent, r.content_append, List.append_assoc]
    · intro tail
      obtain ⟨got, hgot, hsame⟩ := r.readResponse_bytes (bytes ++ tail)
      obtain ⟨gots, hgots, hall⟩ := hread tail
      refine ⟨got :: gots, ?_, List.Forall₂.cons hsame hall⟩
      rw [List.length_cons, readResponses, List.append_assoc, hgot]
      simp only [Option.bind_eq_bind, Option.bind_some, hgots]

end Reply

end Mymuduo.Http
