import Mymuduo.Lib.Scan
import Mymuduo.Net.Buffer

namespace Mymuduo.Http

open Lib Net

/-- The bytes of an ASCII text. -/
def text (s : String) : List Byte := s.toList.map fun c => UInt8.ofNat c.toNat

def SP : Byte := 32
def CR : Byte := 13
def LF : Byte := 10
def COLON : Byte := 58
def CRLF : List Byte := [CR, LF]

inductive Method where
  | kInvalid
  | kGet
  | kPost
  | kHead
  | kPut
  | kDelete
  deriving DecidableEq

inductive Version where
  | kUnknown
  | kHttp10
  | kHttp11
  deriving DecidableEq

/-- `class HttpRequestTest`. A hash map is the function that looks a key up. -/
@[ext] structure HttpRequestTest where
  method_ : Method
  version_ : Version
  path_ : List Byte
  query_ : List Byte
  body_ : List Byte
  header_ : List Byte → Option (List Byte)
  post_ : List Byte → Option (List Byte)

namespace HttpRequestTest

def new : HttpRequestTest := ⟨.kInvalid, .kUnknown, [], [], [], fun _ => none, fun _ => none⟩

def DEFAULT_HTML_ : List (List Byte) :=
  [text "/index", text "/welcome", text "/video", text "/picture"]

def addHeader_ (r : HttpRequestTest) (key value : List Byte) : HttpRequestTest :=
  { r with header_ := Function.update r.header_ key (some value) }

def addPost_ (r : HttpRequestTest) (key value : List Byte) : HttpRequestTest :=
  { r with post_ := Function.update r.post_ key (some value) }

/-- An absent field reads as the empty string. -/
def getHeader_ (r : HttpRequestTest) (field : List Byte) : List Byte := (r.header_ field).getD []

end HttpRequestTest

/-! `regex_match` with the two patterns of the class, in the ECMAScript grammar and with the stack it
needs for the line. The groups are unique: each repetition stops at the character that must follow
it. -/

/-- The groups of `^([^ ]*) ([^ ]*) HTTP/([^ ]*)$`. -/
def matchRequestLine (line : List Byte) : Option (List Byte × List Byte × List Byte) := do
  let (method, rest) ← search [SP] line
  let (path, rest) ← search [SP] rest
  let version ← rest.dropPrefix? (text "HTTP/")
  if SP ∈ version then none else some (method, path, version)

/-- The optional blank of `^([^:]*): ?(.*)$`. -/
def skipBlank (rest : List Byte) : List Byte := (rest.dropPrefix? [SP]).getD rest

/-- The groups of `^([^:]*): ?(.*)$`, where `.` is neither CR nor LF. -/
def matchHeader (line : List Byte) : Option (List Byte × List Byte) := do
  let (name, rest) ← search [COLON] line
  if CR ∈ skipBlank rest ∨ LF ∈ skipBlank rest then none else some (name, skipBlank rest)

inductive ParseState where
  | REQUEST_LINE
  | HEADERS
  | BODY
  | FINISH
  deriving DecidableEq

@[ext] structure HttpContext where
  request_ : HttpRequestTest
  state_ : ParseState

namespace HttpContext

def new : HttpContext := ⟨.new, .REQUEST_LINE⟩

def gotAll (c : HttpContext) : Bool := c.state_ = .FINISH

/-- What `parseRequestLine_` does with the groups of a match. -/
def setLine (c : HttpContext) (method path version : List Byte) : HttpContext where
  request_ := { c.request_ with
    method_ := if method = text "GET" then .kGet else c.request_.method_
    path_ := path
    version_ := if version = text "1.1" then .kHttp11
      else if version = text "1.0" then .kHttp10 else c.request_.version_ }
  state_ := .HEADERS

/-- `none` where the function returns false. -/
def parseRequestLine_ (c : HttpContext) (line : List Byte) : Option HttpContext :=
  (matchRequestLine line).map fun (method, path, version) => c.setLine method path version

def parsePath_ (c : HttpContext) : HttpContext :=
  if c.request_.path_ = text "/" then
    { c with request_ := { c.request_ with path_ := text "/index.html" } }
  else if c.request_.path_ ∈ HttpRequestTest.DEFAULT_HTML_ then
    { c with request_ := { c.request_ with path_ := c.request_.path_ ++ text ".html" } }
  else c

def parseRequestHeader_ (c : HttpContext) (line : List Byte) : HttpContext :=
  match matchHeader line with
  | some (name, value) => { c with request_ := c.request_.addHeader_ name value }
  | none => { c with state_ := .BODY }

/-- A `char` is signed. -/
def convertHex (ch : Byte) : Int :=
  if 65 ≤ ch ∧ ch ≤ 70 then ch.toInt8.toInt - 65 + 10
  else if 97 ≤ ch ∧ ch ≤ 102 then ch.toInt8.toInt - 97 + 10
  else ch.toInt8.toInt

/-- `s[i]` on a string: the terminating 0 may be read, and nothing behind it. -/
def charAt (s : List Byte) (i : Nat) : Option Byte :=
  if i = s.length then some 0 else s[i]?

/-- The escape at `i`: two characters are read as hexadecimal digits, and the decimal digits
of their number are written over them. `none` when a write leaves the string, or the index
behind the escape is no `int`. -/
def decodeEscape (body : List Byte) (i : Nat) : Option (List Byte) := do
  let high ← charAt body (i + 1)
  let low ← charAt body (i + 2)
  let num := convertHex high * 16 + convertHex low
  if i + 2 < body.length ∧ i + 3 < 2 ^ 31 then
    some ((body.set (i + 2) (UInt8.ofInt (num.tmod 10 + 48))).set (i + 1)
      (UInt8.ofInt (num.tdiv 10 + 48)))
  else none

/-- A size as an `int` keeps it. -/
def toInt (size : Nat) : Int := Int.bmod size (2 ^ 32)

/-- How far the loop of `parsePost_` goes. -/
def limit (body : List Byte) : Nat := (toInt body.length).toNat

/-- The loop of `parsePost_` from index `i` on, up to index `n`; `j` is where the current key or
value starts. It runs at most once for each byte. -/
def parsePostLoop (n : Nat) : Nat → HttpRequestTest → List Byte → List Byte → Nat → Nat →
    Option (HttpRequestTest × List Byte)
  | 0, r, body, _, _, _ => some (r, body)
  | fuel + 1, r, body, key, i, j =>
    match (body.take n)[i]? with
    | none => some (r, body)
    | some ch =>
      if ch = 61 then parsePostLoop n fuel r body ((body.drop j).take (i - j)) (i + 1) (i + 1)
      else if ch = 43 then parsePostLoop n fuel r (body.set i SP) key (i + 1) j
      else if ch = 37 then
        (decodeEscape body i).bind fun body => parsePostLoop n fuel r body key (i + 3) j
      else if ch = 38 then
        parsePostLoop n fuel (r.addPost_ key ((body.drop j).take (i - j))) body key (i + 1) (i + 1)
      else parsePostLoop n fuel r body key (i + 1) j

/-- `none` when the loop writes outside the body or its index overflows, which has no defined
meaning. -/
def parsePost_ (c : HttpContext) : Option HttpContext :=
  if c.request_.method_ = .kPost ∧ c.request_.getHeader_ (text "Content-Type") =
      text "application/x-www-form-urlencoded" ∧ c.request_.body_ ≠ [] then
    (parsePostLoop (limit c.request_.body_) (limit c.request_.body_) c.request_ c.request_.body_
      [] 0 0).map fun (r, body) => { c with request_ := { r with body_ := body } }
  else some c

def parseDataBody_ (c : HttpContext) (line : List Byte) : Option HttpContext :=
  (parsePost_ { c with request_ := { c.request_ with body_ := line } }).map fun c =>
    { c with state_ := .FINISH }

/-- The switch of `parseRequest`; `readable` is `readableBytes()`. The truth value is false
where `parseRequest` returns false. -/
def parseLine (c : HttpContext) (line : List Byte) (readable : Nat) : Option (Bool × HttpContext) :=
  match c.state_ with
  | .REQUEST_LINE =>
    match c.parseRequestLine_ line with
    | none => some (false, c)
    | some c => some (true, c.parsePath_)
  | .HEADERS =>
    if readable ≤ 2 then some (true, { c.parseRequestHeader_ line with state_ := .FINISH })
    else some (true, c.parseRequestHeader_ line)
  | .BODY => (c.parseDataBody_ line).map fun c => (true, c)
  | .FINISH => some (true, c)

/-- The loop of `parseRequest`. Every round but the last takes two bytes at least, so it runs
at most once for each byte. -/
def parseLoop : Nat → HttpContext → ByteBuffer → Option (Bool × HttpContext × ByteBuffer)
  | 0, c, b => some (true, c, b)
  | fuel + 1, c, b =>
    if b.readableBytes = 0 ∨ c.state_ = .FINISH then some (true, c, b)
    else
      match search CRLF b.content with
      | none => (c.parseLine b.content b.readableBytes).map fun (ok, c) => (ok, c, b)
      | some (line, _) =>
        (c.parseLine line b.readableBytes).bind fun (ok, c) =>
          if ok then parseLoop fuel c (b.retrieve (line.length + 2)) else some (false, c, b)

def parseRequest (c : HttpContext) (b : ByteBuffer) : Option (Bool × HttpContext × ByteBuffer) :=
  if b.readableBytes = 0 then some (false, c, b) else parseLoop b.readableBytes c b

end HttpContext

end Mymuduo.Http
