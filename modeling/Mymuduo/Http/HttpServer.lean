import Mymuduo.Http.HttpContext
import Mymuduo.Lib.Path

namespace Mymuduo.Http

open Lib Net

inductive HttpStatusCode where
  | kUnknown
  | k200Ok
  | k400BadRequest
  | kForbidden
  | k404NotFound
  deriving DecidableEq

def HttpStatusCode.value : HttpStatusCode → Nat
  | .kUnknown => 0
  | .k200Ok => 200
  | .k400BadRequest => 400
  | .kForbidden => 403
  | .k404NotFound => 404

/-- `class HttpResponseTest`. -/
structure HttpResponseTest where
  code_ : HttpStatusCode
  statusMessage_ : List Byte
  isKeepAlive_ : Bool
  header_ : List Byte → Option (List Byte)
  body_ : List Byte

namespace HttpResponseTest

def new (close : Bool) : HttpResponseTest := ⟨.kUnknown, [], close, fun _ => none, []⟩

def addHeader_ (r : HttpResponseTest) (key value : List Byte) : HttpResponseTest :=
  { r with header_ := Function.update r.header_ key (some value) }

def setContentType (r : HttpResponseTest) (contentType : List Byte) : HttpResponseTest :=
  r.addHeader_ (text "Content-Type") contentType

end HttpResponseTest

/-- What a path names: `othersRead` is `S_IROTH`, and `opens` says that `open` for reading
succeeds. -/
structure FileEntry where
  directory : Bool
  content : List Byte
  othersRead : Bool
  opens : Bool

/-- The file system, which does not change while a request is answered. -/
abbrev FileSystem := List Byte → Option FileEntry

/-- `mmap` fails on a directory and for no bytes. On a regular file with bytes it succeeds: nothing is
ever unmapped, and a process is taken to be within what it may map. -/
def FileEntry.mmap (f : FileEntry) (st_size : Nat) : Option (List Byte) :=
  if f.directory ∨ st_size = 0 then none else some (f.content.take st_size)

/-- The string that `data()` or `std::string(const char*)` makes of a string with 0s in it. -/
def cString (s : List Byte) : List Byte := s.takeWhile (· ≠ 0)

def SUFFIX_TYPE : List (List Byte × List Byte) :=
  [(text ".html", text "text/html"), (text ".xml", text "text/xml"),
    (text ".xhtml", text "application/xhtml+xml"), (text ".txt", text "text/plain"),
    (text ".rtf", text "application/rtf"), (text ".pdf", text "application/pdf"),
    (text ".word", text "application/nsword"), (text ".png", text "image/png"),
    (text ".gif", text "image/gif"), (text ".jpg", text "image/jpeg"),
    (text ".jpeg", text "image/jpeg"), (text ".au", text "audio/basic"),
    (text ".mpeg", text "video/mpeg"), (text ".mpg", text "video/mpeg"),
    (text ".avi", text "video/x-msvideo"), (text ".gz", text "application/x-gzip"),
    (text ".tar", text "application/x-tar"), (text ".css", text "text/css "),
    (text ".js", text "text/javascript ")]

def CODE_STATUS : HttpStatusCode → Option (List Byte)
  | .k200Ok => some (text "OK")
  | .k400BadRequest => some (text "Bad Request")
  | .kForbidden => some (text "Forbidden")
  | .k404NotFound => some (text "Not Found")
  | .kUnknown => none

def CODE_PATH : HttpStatusCode → Option (List Byte)
  | .k400BadRequest => some (text "/400.html")
  | .kForbidden => some (text "/403.html")
  | .k404NotFound => some (text "/404.html")
  | _ => none

/-- `class HttpServerTest`. A failed `stat` leaves `mmFileStat_` alone. -/
structure HttpServerTest where
  path_ : List Byte
  staticFilePath : List Byte
  mmFileStat_ : Option FileEntry

namespace HttpServerTest

/-- The path that is given to `stat` and `open`. -/
def file (s : HttpServerTest) : List Byte := cString (s.staticFilePath ++ s.path_)

def stat (fs : FileSystem) (s : HttpServerTest) : HttpServerTest :=
  { s with mmFileStat_ := (fs s.file).or s.mmFileStat_ }

/-- The status that the requested file gives the response. -/
def checkFile (fs : FileSystem) (s : HttpServerTest) (r : HttpResponseTest) : HttpResponseTest :=
  match fs s.file with
  | none => { r with code_ := .k404NotFound }
  | some f =>
    if f.directory then { r with code_ := .k404NotFound }
    else if !f.othersRead then { r with code_ := .kForbidden }
    else if r.code_ = .kUnknown then { r with code_ := .k200Ok }
    else r

def errorHTML_ (fs : FileSystem) (s : HttpServerTest) (r : HttpResponseTest) : HttpServerTest :=
  match CODE_PATH r.code_ with
  | some path => stat fs { s with path_ := path }
  | none => s

def addStateLine_ (r : HttpResponseTest) : HttpResponseTest :=
  match CODE_STATUS r.code_ with
  | some status => { r with statusMessage_ := status }
  | none => { r with code_ := .k400BadRequest, statusMessage_ := text "Bad Request" }

/-- The part of a path from its last dot on. -/
def suffix (path : List Byte) : Option (List Byte) :=
  if 46 ∈ path then some (46 :: (path.reverse.takeWhile (· ≠ 46)).reverse) else none

def addResponseHeader_ (s : HttpServerTest) (r : HttpResponseTest) : HttpResponseTest :=
  r.setContentType (((suffix s.path_).bind fun suffix => SUFFIX_TYPE.lookup suffix).getD
    (text "text/plain"))

def errorContent (r : HttpResponseTest) (message : List Byte) : HttpResponseTest :=
  { r with
    body_ := text "<html><tile>Error</title>" ++ text "<body bgcolor=\"ffffff\">" ++
      text (toString r.code_.value) ++ text " : " ++
      (CODE_STATUS r.code_).getD (text "Bad Request") ++ text "\n" ++
      text "<p>" ++ message ++ text "</p>" ++ text "<hr><em>TinyWebServer</em></body></html>" }

/-- The mapping is taken for a failed one if its first four bytes are those of -1; of a failed
one the first bytes cannot be read, and the process ends: `none`. -/
def addResponseContent_ (fs : FileSystem) (s : HttpServerTest) (r : HttpResponseTest) :
    Option HttpResponseTest :=
  match (fs s.file).filter FileEntry.opens with
  | none => some (errorContent r (text "File NotFound!"))
  | some f =>
    match f.mmap (s.mmFileStat_.elim 0 (·.content.length)) with
    | none => none
    | some mm =>
      if [255, 255, 255, 255] <+: mm then some (errorContent r (text "File NotFound!"))
      else
        some { (({ r with code_ := .k200Ok }).addHeader_ (text "Server") (text "mymuduo")) with
          body_ := mm }

/-- `makeResponse` up to the call of `addResponseContent_`. -/
def makeHead (fs : FileSystem) (s : HttpServerTest) (r : HttpResponseTest) :
    HttpServerTest × HttpResponseTest :=
  let r := checkFile fs (stat fs s) r
  let s := errorHTML_ fs (stat fs s) r
  (s, addResponseHeader_ s (addStateLine_ r))

def makeResponse (fs : FileSystem) (s : HttpServerTest) (r : HttpResponseTest) :
    Option HttpResponseTest :=
  let (s, r) := makeHead fs s r
  addResponseContent_ fs s r

/-- The server once `onRequest` has got its directory and the request's path. `getcwd` has room for
256 bytes, the end of the text among them, and the directory is taken to fit. -/
def setRequest (s : HttpServerTest) (cwd : List Byte) (req : HttpRequestTest) : HttpServerTest :=
  { s with
    staticFilePath := cString cwd ++ text "/resources/"
    path_ := req.path_ }

def onRequest (fs : FileSystem) (cwd : List Byte) (s : HttpServerTest) (req : HttpRequestTest)
    (r : HttpResponseTest) : Option HttpResponseTest :=
  makeResponse fs (s.setRequest cwd req) r

end HttpServerTest

end Mymuduo.Http
