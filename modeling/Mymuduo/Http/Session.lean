import Mymuduo.Http.HttpResponse
import Mymuduo.Http.Served
import Mymuduo.Net.TcpConnection

namespace Mymuduo.Http

open Lib Net HttpServerTest

/-- What a server has around it: the files, which are no longer than an `off_t` says, its working
directory, which fits where `getcwd` is to put it, and the order in which a map of headers is walked
through. -/
structure Site where
  fs : FileSystem
  cwd : List Byte
  order : List (List Byte)
  sizes : ∀ file f, fs file = some f → f.content.length < 2 ^ 63
  cwd_fits : cwd.length < 256
  order_ok : order.Nodup ∧ text "Content-Type" ∈ order ∧ text "Server" ∈ order

namespace Site

def walk (site : Site) (header_ : List Byte → Option (List Byte)) : List (List Byte × List Byte) :=
  site.order.filterMap fun name => (header_ name).map fun value => (name, value)

/-- The file that a path of a request names. -/
def file (site : Site) (path : List Byte) : List Byte :=
  cString (cString site.cwd ++ text "/resources/" ++ path)

end Site

namespace WebServer

/-- `isKeepAlive` of `onRequest`, which is true where the connection is to be closed. -/
def isKeepAlive (req : HttpRequestTest) : Bool :=
  req.getHeader_ (text "Connection") = text "close" ||
    req.version_ = .kHttp10 && req.getHeader_ (text "Connection") ≠ text "Keep-Alive"

variable (site : Site) (write : List Byte → Except Errno Nat)

/-- `onRequest` with `HttpServerTest::onRequest` as its callback. `write` says what the kernel
answers to a `write`. -/
def onRequest (s : HttpServerTest) (conn : TcpConnection) (req : HttpRequestTest) :
    Option (HttpServerTest × TcpConnection) := do
  let response ← HttpServerTest.onRequest site.fs site.cwd s req (.new (isKeepAlive req))
  let buf := response.appendToBuffer (site.walk response.header_) (.new Buffer.kInitialSize)
  let conn := conn.send true buf.content (write buf.content)
  some ((makeHead site.fs (s.setRequest site.cwd req) (.new (isKeepAlive req))).1,
    if response.isKeepAlive_ then conn.shutdown else conn)

/-- One of the things that `onMessage` does to its connection. -/
def act (s : HttpServerTest × TcpConnection) : WebAction → Option (HttpServerTest × TcpConnection)
  | .badRequest =>
    some (s.1, (s.2.send true (text "HTTP/1.1 400 Bad Request\r\n\r\n")
      (write (text "HTTP/1.1 400 Bad Request\r\n\r\n"))).shutdown)
  | .onRequest req => onRequest site write s.1 s.2 req

/-- `handleRead` of some bytes, with `onMessage` as the callback. -/
def handleRead (s : HttpServerTest × TcpConnection) (data : List Byte) :
    Option (HttpServerTest × TcpConnection) := do
  let (acts, inputBuffer_) ← onMessage (s.2.inputBuffer_.append data)
  acts.foldlM (act site write) (s.1, { s.2 with inputBuffer_ := inputBuffer_ })

/-- What comes of the segments of a connection. -/
def session (s : HttpServerTest × TcpConnection) (segs : List (List Byte)) :
    Option (HttpServerTest × TcpConnection) :=
  segs.foldlM (handleRead site write) s

end WebServer

namespace HttpServerTest

/-- The type that goes with a path. -/
def contentType (path : List Byte) : List Byte :=
  ((suffix path).bind fun suffix => SUFFIX_TYPE.lookup suffix).getD (text "text/plain")

theorem contentType_ok (path : List Byte) :
    CR ∉ contentType path ∧ LF ∉ contentType path ∧ (contentType path).head? ≠ some SP := by
  have hall : ∀ p ∈ SUFFIX_TYPE, CR ∉ p.2 ∧ LF ∉ p.2 ∧ p.2.head? ≠ some SP := by decide
  rw [contentType]
  cases hs : (suffix path).bind fun suffix => SUFFIX_TYPE.lookup suffix with
  | none => decide
  | some t =>
    obtain ⟨suffix, -, hlookup⟩ := Option.bind_eq_some_iff.mp hs
    obtain ⟨l, m, hl, -⟩ := List.lookup_eq_some_iff.mp hlookup
    apply hall (suffix, t)
    rw [hl]
    exact List.mem_append_right _ List.mem_cons_self

/-- The file is served: others may read it, it can be opened, and its mapping is not taken for a
failed one. -/
structure Served (f : FileEntry) : Prop where
  directory : f.directory = false
  othersRead : f.othersRead = true
  opens : f.opens = true
  content : f.content ≠ []
  looks : ¬ LooksFailed f.content

/-- The response to a request for such a file. -/
def okResponse (path : List Byte) (close : Bool) (content : List Byte) : HttpResponseTest where
  code_ := .k200Ok
  statusMessage_ := text "OK"
  isKeepAlive_ := close
  header_ := Function.update (Function.update (fun _ => none) (text "Content-Type")
    (some (contentType path))) (text "Server") (some (text "mymuduo"))
  body_ := content

theorem makeResponse_served {fs : FileSystem} {s : HttpServerTest} {f : FileEntry}
    (hf : fs s.file = some f) (h : Served f) (close : Bool) :
    makeResponse fs s (.new close) = some (okResponse s.path_ close f.content) := by
  have hfile : (stat fs s).file = s.file := rfl
  have hcheck : checkFile fs (stat fs s) (.new close) =
      { HttpResponseTest.new close with code_ := .k200Ok } := by
    simp [checkFile, hfile, hf, h.directory, h.othersRead, HttpResponseTest.new]
  have hhead : makeHead fs s (.new close) = (stat fs s, addResponseHeader_ (stat fs s)
      { HttpResponseTest.new close with code_ := .k200Ok, statusMessage_ := text "OK" }) := by
    simp only [makeHead, hcheck, errorHTML_, addStateLine_, CODE_PATH, CODE_STATUS]
  have hopen : (fs s.file).filter FileEntry.opens = some f := by
    rw [hf, Option.filter_some, if_pos h.opens]
  have hcontent : ¬ (f.directory = true ∨ f.content = []) := by
    simp [h.directory, h.content]
  rw [makeResponse, hhead]
  simp only
  rw [addResponseContent_stat, hopen]
  simp only [if_neg hcontent, if_neg h.looks]
  rfl

end HttpServerTest

theorem typeName_ok : COLON ∉ text "Content-Type" ∧ CR ∉ text "Content-Type" ∧
    LF ∉ text "Content-Type" := by decide

theorem serverName_ok : COLON ∉ text "Server" ∧ CR ∉ text "Server" ∧ LF ∉ text "Server" := by
  decide

theorem mymuduo_ok : CR ∉ text "mymuduo" ∧ LF ∉ text "mymuduo" ∧
    (text "mymuduo").head? ≠ some SP := by decide

theorem ok_ok : CR ∉ text "OK" ∧ LF ∉ text "OK" := by decide

namespace Site

variable (site : Site)

/-- The headers of such a response, in the order of the walk. -/
def okHeaders (path : List Byte) : List Header :=
  site.order.filterMap fun name =>
    if name = text "Content-Type" then
      some ⟨text "Content-Type", contentType path, typeName_ok, contentType_ok path⟩
    else if name = text "Server" then some ⟨text "Server", text "mymuduo", serverName_ok, mymuduo_ok⟩
    else none

theorem walk_okResponse (path content : List Byte) (close : Bool) :
    site.walk (okResponse path close content).header_ = (site.okHeaders path).map Header.pair := by
  rw [walk, okHeaders, List.map_filterMap]
  apply List.filterMap_congr
  intro name _
  have hdiff : text "Content-Type" ≠ text "Server" := by decide
  by_cases htype : name = text "Content-Type"
  · simp [htype, okResponse, Function.update_of_ne hdiff, Header.pair]
  · by_cases hserver : name = text "Server"
    · simp [hserver, hdiff.symm, okResponse, Header.pair]
    · simp [htype, hserver, okResponse]

theorem mem_walk {header_ : List Byte → Option (List Byte)}
    (horder : ∀ name, header_ name ≠ none → name ∈ site.order) (name value : List Byte) :
    (name, value) ∈ site.walk header_ ↔ header_ name = some value := by
  simp only [walk, List.mem_filterMap, Option.map_eq_some_iff, Prod.mk.injEq]
  constructor
  · rintro ⟨_, -, v, hv, rfl, rfl⟩
    exact hv
  · intro hv
    exact ⟨name, horder name (by simp [hv]), value, hv, rfl, rfl⟩

theorem okResponse_order (path content : List Byte) (close : Bool) (name : List Byte)
    (h : (okResponse path close content).header_ name ≠ none) : name ∈ site.order := by
  by_contra hnot
  have htype : name ≠ text "Content-Type" := by
    rintro rfl
    exact hnot site.order_ok.2.1
  have hserver : name ≠ text "Server" := by
    rintro rfl
    exact hnot site.order_ok.2.2
  simp [okResponse, Function.update_of_ne htype, Function.update_of_ne hserver] at h

theorem okHeaders_names {path : List Byte} {h : Header} (hh : h ∈ site.okHeaders path) :
    h.name ≠ text "Content-Length" ∧ h.name ≠ text "Connection" := by
  have htype : text "Content-Type" ≠ text "Content-Length" ∧
      text "Content-Type" ≠ text "Connection" := by decide
  have hserver : text "Server" ≠ text "Content-Length" ∧ text "Server" ≠ text "Connection" := by
    decide
  obtain ⟨name, -, hname⟩ := List.mem_filterMap.mp hh
  split_ifs at hname
  · rw [← Option.some.inj hname]
    exact htype
  · rw [← Option.some.inj hname]
    exact hserver

theorem okHeaders_entries (path content name value : List Byte) :
    (name, value) ∈ (site.okHeaders path).map Header.pair ↔
      (okResponse path false content).header_ name = some value := by
  rw [← site.walk_okResponse path content false]
  exact site.mem_walk (site.okResponse_order path content false) name value

/-- The response as one that a client reads back. -/
def okReply (path content : List Byte) (hsize : content.length < 2 ^ 63) : Reply where
  response := okResponse path false content
  headers := site.okHeaders path
  keepAlive := rfl
  message_ok := ok_ok
  names_ok := fun _ => site.okHeaders_names
  entries := site.okHeaders_entries path content
  body_size := hsize

end Site

namespace WebServer

/-- A connection that is up and has nothing to write and nothing to read. -/
structure Idle (conn : TcpConnection) : Prop where
  up : conn.state_ = .kConnected
  quiet : conn.channel_.isWriting = false
  output : conn.oututBuffer_.content = []
  input : conn.inputBuffer_.content = []

/-- The kernel takes all of every `write`. -/
def takesAll (data : List Byte) : Except Errno Nat := .ok data.length

theorem send_takesAll {conn : TcpConnection} (h : Idle conn) (data : List Byte) :
    conn.send true data (takesAll data) =
      ({ conn with written := conn.written ++ data }).notifyWriteComplete := by
  have hstate := h.up
  have hdirect : conn.writesDirectly = true := by
    rw [TcpConnection.writesDirectly, h.quiet, ByteBuffer.readableBytes_eq, h.output]
    rfl
  have hne : conn.state_ ≠ .kDisConnected := by simp [hstate]
  rw [TcpConnection.send, if_pos hstate, if_pos rfl, TcpConnection.sendInLoop, if_neg hne,
    if_pos hdirect]
  simp [takesAll, TcpConnection.nwrote]

theorem Idle.sent {conn : TcpConnection} (h : Idle conn) (data : List Byte) :
    Idle (conn.send true data (takesAll data)) ∧
      (conn.send true data (takesAll data)).written = conn.written ++ data := by
  rw [send_takesAll h, TcpConnection.notifyWriteComplete]
  split_ifs
  · exact ⟨⟨h.up, h.quiet, h.output, h.input⟩, rfl⟩
  · exact ⟨⟨h.up, h.quiet, h.output, h.input⟩, rfl⟩

theorem Idle.shutdown {conn : TcpConnection} (h : Idle conn) :
    conn.shutdown.state_ = .kDisConnecting ∧ .shutdownInLoop ∈ conn.shutdown.pendingFuntors_ ∧
      conn.shutdown.written = conn.written := by
  rw [TcpConnection.shutdown, if_pos h.up]
  exact ⟨rfl, List.mem_append_right _ (List.mem_singleton_self _), rfl⟩

/-- The connection stays open after the request. -/
def KeepsOpen (r : GetRequest) : Prop :=
  lastValue (r.headers.map Header.pair) (text "Connection") ≠ some (text "close") ∧
    (r.version = text "1.0" →
      lastValue (r.headers.map Header.pair) (text "Connection") = some (text "Keep-Alive"))

theorem isKeepAlive_iff (r : GetRequest) : isKeepAlive r.head.parsed = false ↔ KeepsOpen r := by
  have hparsed : r.Parsed { r.head.context.addFields r.head.fields with state_ := .FINISH } :=
    r.parsed_context .FINISH
  have hheader : r.head.parsed.header_ (text "Connection") =
      lastValue (r.headers.map Header.pair) (text "Connection") := hparsed.header _
  have hversion : r.head.parsed.version_ = .kHttp10 ↔ r.version = text "1.0" := hparsed.http10
  have hclose : text "close" ≠ [] := by decide
  have hkeep : text "Keep-Alive" ≠ [] := by decide
  have hget : ∀ v, v ≠ [] → (r.head.parsed.getHeader_ (text "Connection") = v ↔
      lastValue (r.headers.map Header.pair) (text "Connection") = some v) := by
    intro v hv
    rw [HttpRequestTest.getHeader_, hheader]
    cases lastValue (r.headers.map Header.pair) (text "Connection") with
    | none => simp [hv.symm]
    | some w => simp
  rw [isKeepAlive, KeepsOpen, Bool.or_eq_false_iff, Bool.and_eq_false_iff, decide_eq_false_iff_not,
    decide_eq_false_iff_not, decide_eq_false_iff_not, not_not, hget _ hclose, hget _ hkeep, hversion,
    imp_iff_not_or]

variable {site : Site}

/-- The request names a file that is served. -/
def Asks (site : Site) (r : GetRequest) (f : FileEntry) : Prop :=
  site.fs (site.file (defaultPage r.path)) = some f ∧ Served f

/-- The response to it. -/
def Asks.reply {r : GetRequest} {f : FileEntry} (h : Asks site r f) : Reply :=
  site.okReply (defaultPage r.path) f.content (site.sizes _ f h.1)

/-- One request, whichever way the connection goes on. -/
theorem onRequest_asks (write : List Byte → Except Errno Nat) {r : GetRequest} {f : FileEntry}
    (hasks : Asks site r f) (s : HttpServerTest) (conn : TcpConnection) {close : Bool}
    (hclose : isKeepAlive r.head.parsed = close) {data : List Byte}
    (hdata : ((okResponse (defaultPage r.path) close f.content).appendToBuffer
      (site.walk (okResponse (defaultPage r.path) close f.content).header_)
      (.new Buffer.kInitialSize)).content = data) :
    ∃ s', onRequest site write s conn r.head.parsed = some (s',
      if close then (conn.send true data (write data)).shutdown
      else conn.send true data (write data)) := by
  have hpath : r.head.parsed.path_ = defaultPage r.path := (r.parsed_context .FINISH).path
  have hfile : (s.setRequest site.cwd r.head.parsed).file = site.file (defaultPage r.path) := by
    rw [← hpath]
    rfl
  have hresponse := makeResponse_served
    (s := s.setRequest site.cwd r.head.parsed) (hfile ▸ hasks.1) hasks.2 close
  have hserver : (s.setRequest site.cwd r.head.parsed).path_ = defaultPage r.path := hpath
  rw [hserver] at hresponse
  refine ⟨(makeHead site.fs (s.setRequest site.cwd r.head.parsed) (.new close)).1, ?_⟩
  rw [onRequest, HttpServerTest.onRequest, hclose, hresponse]
  simp only [Option.bind_eq_bind, Option.bind_some, hdata]
  rfl

/-- The bytes of its response go out whole. -/
theorem onRequest_served {r : GetRequest} {f : FileEntry} (hopen : KeepsOpen r)
    (hasks : Asks site r f) (s : HttpServerTest) (conn : TcpConnection) :
    ∃ s', onRequest site takesAll s conn r.head.parsed =
      some (s', conn.send true hasks.reply.bytes (takesAll hasks.reply.bytes)) := by
  apply onRequest_asks takesAll hasks s conn ((isKeepAlive_iff r).mpr hopen)
  have happend := hasks.reply.content_append (.new Buffer.kInitialSize)
  rw [ByteBuffer.content_new, List.nil_append] at happend
  rw [site.walk_okResponse]
  exact happend

/-- What a client gets for a request. -/
structure Answers (site : Site) (r : GetRequest) (got : Response) : Prop where
  code : got.code = 200
  message : got.message = text "OK"
  type : got.fields.lookup (text "Content-Type") = some (contentType (defaultPage r.path))
  body : ∃ f, site.fs (site.file (defaultPage r.path)) = some f ∧ got.body = f.content

theorem okReply_answers {r : GetRequest} {f : FileEntry} (hasks : Asks site r f) {got : Response}
    (h : hasks.reply.ReadAs got) :
    Answers site r got := by
  have hlength : text "Content-Type" ≠ text "Content-Length" := by decide
  have hconnection : text "Content-Type" ≠ text "Connection" := by decide
  have hserver : text "Content-Type" ≠ text "Server" := by decide
  refine ⟨h.code, h.message, ?_, f, hasks.1, h.body⟩
  rw [h.fields, if_neg hlength, if_neg hconnection]
  simp [Asks.reply, Site.okReply, okResponse, Function.update_of_ne hserver]

/-- A segment that is a whole request is passed on. -/
theorem handleRead_whole (write : List Byte → Except Errno Nat) (r : GetRequest)
    {s : HttpServerTest × TcpConnection} (h : s.2.inputBuffer_.content = []) :
    ∃ d : ByteBuffer, d.content = [] ∧ handleRead site write s r.wire =
      onRequest site write s.1 { s.2 with inputBuffer_ := d } r.head.parsed := by
  have hinput : (s.2.inputBuffer_.append r.wire).content = r.head.wire := by
    rw [ByteBuffer.content_append, h, r.head_wire]
    rfl
  obtain ⟨d, hd, hmessage⟩ := onMessage_last r.head hinput
  refine ⟨d, hd, ?_⟩
  rw [handleRead, hmessage]
  simp only [Option.bind_eq_bind, Option.bind_some, List.foldlM_cons, List.foldlM_nil, act]
  exact Option.bind_fun_some _

theorem Idle.read {conn : TcpConnection} (h : Idle conn) {d : ByteBuffer} (hd : d.content = []) :
    Idle { conn with inputBuffer_ := d } := ⟨h.up, h.quiet, h.output, hd⟩

theorem handleRead_served {r : GetRequest} {f : FileEntry} (hopen : KeepsOpen r)
    (hasks : Asks site r f) {s : HttpServerTest × TcpConnection} (h : Idle s.2) :
    ∃ s', handleRead site takesAll s r.wire = some s' ∧ Idle s'.2 ∧
      s'.2.written = s.2.written ++ hasks.reply.bytes := by
  obtain ⟨d, hd, hread⟩ := handleRead_whole takesAll r h.input
  obtain ⟨server, hrequest⟩ := onRequest_served hopen hasks s.1 { s.2 with inputBuffer_ := d }
  obtain ⟨hsent, hwritten⟩ := (h.read hd).sent hasks.reply.bytes
  exact ⟨(server, _), hread.trans hrequest, hsent, hwritten⟩

/-- The response is the one to the request. -/
def Replies (site : Site) (r : GetRequest) (reply : Reply) : Prop :=
  ∃ f, ∃ hasks : Asks site r f, reply = hasks.reply

/-- The server's side of a session: one response after the other goes out. -/
theorem session_sends (rs : List GetRequest) (hrs : ∀ r ∈ rs, KeepsOpen r ∧ ∃ f, Asks site r f)
    {s : HttpServerTest × TcpConnection} (h : Idle s.2) :
    ∃ s' replies, session site takesAll s (rs.map GetRequest.wire) = some s' ∧ Idle s'.2 ∧
      s'.2.written = s.2.written ++ replies.flatMap Reply.bytes ∧
      List.Forall₂ (Replies site) rs replies := by
  induction rs generalizing s with
  | nil => exact ⟨s, [], rfl, h, (List.append_nil _).symm, .nil⟩
  | cons r rs ih =>
    obtain ⟨hopen, f, hasks⟩ := hrs r List.mem_cons_self
    obtain ⟨s₁, hread, hidle, hwritten⟩ := handleRead_served hopen hasks h
    obtain ⟨s', replies, hsession, hidle', hwritten', hreplies⟩ :=
      ih (fun r hr => hrs r (List.mem_cons_of_mem _ hr)) hidle
    refine ⟨s', hasks.reply :: replies, ?_, hidle', ?_, .cons ⟨f, hasks, rfl⟩ hreplies⟩
    · rw [session, List.map_cons, List.foldlM_cons, hread]
      exact hsession
    · rw [hwritten', hwritten, List.flatMap_cons, List.append_assoc]

/-- The client's side: it reads them back, and stops where they stop. -/
theorem readResponses_replies {rs : List GetRequest} {replies : List Reply}
    (h : List.Forall₂ (Replies site) rs replies) (tail : List Byte) :
    ∃ got, readResponses rs.length (replies.flatMap Reply.bytes ++ tail) = some (got, tail) ∧
      List.Forall₂ (Answers site) rs got := by
  induction h with
  | nil => exact ⟨[], rfl, .nil⟩
  | @cons r reply rs replies hreply _ ih =>
    obtain ⟨f, hasks, rfl⟩ := hreply
    obtain ⟨rest, hrest, hall⟩ := ih
    obtain ⟨first, hfirst, has⟩ :=
      hasks.reply.readResponse_bytes (replies.flatMap Reply.bytes ++ tail)
    refine ⟨first :: rest, ?_, .cons (okReply_answers hasks has) hall⟩
    rw [List.length_cons, readResponses, List.flatMap_cons, List.append_assoc, hfirst]
    simp only [Option.bind_eq_bind, Option.bind_some, hrest]

/-- A client sends requests for files, one after the other, on one connection that it keeps open, and
each of them comes whole in one read. It reads as many responses, each with the file that was asked
for, and nothing else, as long as the files that the server never unmaps may be mapped. -/
theorem session_answered (site : Site) (rs : List GetRequest)
    (hrs : ∀ r ∈ rs, KeepsOpen r ∧ ∃ f, Asks site r f) {s : HttpServerTest × TcpConnection}
    (h : Idle s.2) :
    ∃ s' bytes, session site takesAll s (rs.map GetRequest.wire) = some s' ∧ Idle s'.2 ∧
      s'.2.written = s.2.written ++ bytes ∧
      ∀ tail, ∃ got, readResponses rs.length (bytes ++ tail) = some (got, tail) ∧
        List.Forall₂ (Answers site) rs got := by
  obtain ⟨s', replies, hsession, hidle, hwritten, hreplies⟩ := session_sends rs hrs h
  exact ⟨s', replies.flatMap Reply.bytes, hsession, hidle, hwritten, readResponses_replies hreplies⟩

end WebServer

/-! The last response of a connection says `Connection: close` and gives no length: its body goes
on to the end of the stream. -/

theorem close_ok : CR ∉ text "close" ∧ LF ∉ text "close" ∧ (text "close").head? ≠ some SP := by
  decide

theorem connectionName_ok : COLON ∉ text "Connection" ∧ CR ∉ text "Connection" ∧
    LF ∉ text "Connection" := by decide

def connectionClose : Header := ⟨text "Connection", text "close", connectionName_ok, close_ok⟩

def readClosing (bytes : List Byte) : Option Response := do
  let (line, rest) ← search CRLF bytes
  let (code, message) ← readStatusLine line
  let (fields, rest) ← readFields rest.length rest
  some ⟨code, message, fields, rest⟩

namespace Site

variable (site : Site)

def closingBytes (path content : List Byte) : List Byte :=
  text "HTTP/1.1 " ++ decimal 200 ++ SP :: text "OK" ++ CRLF ++
    (Header.block (connectionClose :: site.okHeaders path) ++ content)

theorem content_closing (path content : List Byte) (b : ByteBuffer) :
    ((okResponse path true content).appendToBuffer
      (site.walk (okResponse path true content).header_) b).content =
        b.content ++ site.closingBytes path content := by
  have hstatus : cString (snprintf 64 (text "HTTP/1.1 " ++
      text (toString (okResponse path true content).code_.value) ++ text " ")) =
        text "HTTP/1.1 " ++ decimal 200 ++ [SP] := by
    exact (site.okReply path [] (by simp)).status_cut
  have hflag : (okResponse path true content).isKeepAlive_ = true := rfl
  have hclose : text "Connection: close\r\n" = connectionClose.line ++ CRLF := rfl
  have hend : text "\r\n" = CRLF := rfl
  rw [HttpResponseTest.appendToBuffer, hstatus, walk_okResponse, hflag]
  simp only [if_true, ByteBuffer.content_append, Reply.content_headers]
  rw [closingBytes, Header.block, List.flatMap_cons, hclose, hend]
  simp only [List.append_assoc, List.cons_append, List.nil_append]
  rfl

theorem readClosing_bytes (path content : List Byte) :
    readClosing (site.closingBytes path content) = some ⟨200, text "OK",
      (connectionClose :: site.okHeaders path).map Header.pair, content⟩ := by
  have hstatus := (site.okReply path [] (by simp)).readStatusLine_eq
  have hlf := (site.okReply path [] (by simp)).statusLine_lf
  have hline : (site.okReply path [] (by simp)).statusLine =
      text "HTTP/1.1 " ++ decimal 200 ++ SP :: text "OK" := rfl
  have hrounds : (connectionClose :: site.okHeaders path).length <
      (Header.block (connectionClose :: site.okHeaders path) ++ content).length := by
    have hblock := Header.length_lt_block (connectionClose :: site.okHeaders path)
    rw [List.length_append]
    omega
  have hfields := Header.readFields_block (connectionClose :: site.okHeaders path) content hrounds
  rw [hline] at hstatus hlf
  have hbytes : site.closingBytes path content =
      text "HTTP/1.1 " ++ decimal 200 ++ SP :: text "OK" ++ CR :: LF ::
        (Header.block (connectionClose :: site.okHeaders path) ++ content) := by
    simp [closingBytes, CRLF]
  rw [readClosing, hbytes, CRLF, search_line CR_ne_LF hlf]
  simp only [Option.bind_eq_bind, Option.bind_some, hstatus, hfields]
  rfl

end Site

namespace WebServer

variable {site : Site}

/-- A request that closes the connection: its response goes out whole, and `shutdown` is on its
way. -/
theorem handleRead_closing {r : GetRequest} {f : FileEntry} (hopen : ¬ KeepsOpen r)
    (hasks : Asks site r f) {s : HttpServerTest × TcpConnection} (h : Idle s.2) :
    ∃ s', handleRead site takesAll s r.wire = some s' ∧ s'.2.state_ = .kDisConnecting ∧
      .shutdownInLoop ∈ s'.2.pendingFuntors_ ∧
      s'.2.written = s.2.written ++ site.closingBytes (defaultPage r.path) f.content := by
  have hclose : isKeepAlive r.head.parsed = true := by
    rw [← Bool.not_eq_false, isKeepAlive_iff]
    exact hopen
  obtain ⟨d, hd, hread⟩ := handleRead_whole takesAll r h.input
  obtain ⟨server, hrequest⟩ := onRequest_asks takesAll hasks s.1 { s.2 with inputBuffer_ := d }
    hclose (site.content_closing (defaultPage r.path) f.content (.new Buffer.kInitialSize))
  rw [ByteBuffer.content_new, List.nil_append, if_pos rfl] at hrequest
  obtain ⟨hsent, hwritten⟩ := (h.read hd).sent (site.closingBytes (defaultPage r.path) f.content)
  obtain ⟨hstate, hpending, hsame⟩ := hsent.shutdown
  exact ⟨(server, _), hread.trans hrequest, hstate, hpending, hsame.trans hwritten⟩

/-- A connection that is not up writes nothing more. -/
theorem act_down {write : List Byte → Except Errno Nat} {s s' : HttpServerTest × TcpConnection}
    (h : s.2.state_ ≠ .kConnected) {a : WebAction} (hact : act site write s a = some s') :
    s'.2 = s.2 := by
  have hsend : ∀ data answer, s.2.send true data answer = s.2 := fun _ _ => if_neg h
  have hshutdown : s.2.shutdown = s.2 := if_neg h
  cases a with
  | badRequest =>
    obtain rfl := Option.some.inj hact
    simp only [hsend, hshutdown]
  | onRequest req =>
    obtain ⟨response, -, heq⟩ := Option.bind_eq_some_iff.mp hact
    obtain rfl := Option.some.inj heq
    simp only [hsend, hshutdown, ite_self]

theorem acts_down {write : List Byte → Except Errno Nat} {s s' : HttpServerTest × TcpConnection}
    (h : s.2.state_ ≠ .kConnected) {acts : List WebAction}
    (hacts : acts.foldlM (act site write) s = some s') : s'.2 = s.2 := by
  induction acts generalizing s with
  | nil =>
    obtain rfl := Option.some.inj hacts
    rfl
  | cons a acts ih =>
    rw [List.foldlM_cons] at hacts
    obtain ⟨s₁, hact, hacts⟩ := Option.bind_eq_some_iff.mp hacts
    have hsame := act_down h hact
    rw [ih (hsame ▸ h) hacts, hsame]

theorem session_down {write : List Byte → Except Errno Nat} {s s' : HttpServerTest × TcpConnection}
    (h : s.2.state_ ≠ .kConnected) {segs : List (List Byte)}
    (hs : session site write s segs = some s') :
    s'.2.written = s.2.written ∧ s'.2.state_ ≠ .kConnected := by
  induction segs generalizing s with
  | nil =>
    obtain rfl := Option.some.inj hs
    exact ⟨rfl, h⟩
  | cons seg segs ih =>
    rw [session, List.foldlM_cons] at hs
    obtain ⟨s₁, hread, hs⟩ := Option.bind_eq_some_iff.mp hs
    obtain ⟨⟨acts, d⟩, -, hacts⟩ := Option.bind_eq_some_iff.mp hread
    have hsame := acts_down (s := (s.1, { s.2 with inputBuffer_ := d })) h hacts
    have hdown : s₁.2.state_ ≠ .kConnected := by
      rw [hsame]
      exact h
    obtain ⟨hwritten, hlast⟩ := ih hdown hs
    rw [hwritten, hsame]
    exact ⟨rfl, hlast⟩

theorem session_append (write : List Byte → Except Errno Nat) (s : HttpServerTest × TcpConnection)
    (segs segs' : List (List Byte)) : session site write s (segs ++ segs') =
      (session site write s segs).bind fun s => session site write s segs' :=
  List.foldlM_append

theorem closing_answers {r : GetRequest} {f : FileEntry} (hasks : Asks site r f) :
    ∃ got, readClosing (site.closingBytes (defaultPage r.path) f.content) = some got ∧
      Answers site r got := by
  have hconnection : text "Content-Type" ≠ text "Connection" := by decide
  have htype : ((connectionClose :: site.okHeaders (defaultPage r.path)).map Header.pair).lookup
      (text "Content-Type") = some (contentType (defaultPage r.path)) := by
    have hserver : text "Content-Type" ≠ text "Server" := by decide
    have hlookup := hasks.reply.lookup_headers (text "Content-Type")
    rw [List.map_cons, List.lookup_cons]
    have hfirst : (text "Content-Type" == connectionClose.pair.1) = false :=
      beq_eq_false_iff_ne.mpr hconnection
    simp only [connectionClose, Header.pair] at hfirst
    simp only [connectionClose, Header.pair, hfirst]
    refine hlookup.trans ?_
    simp [Asks.reply, Site.okReply, okResponse, Function.update_of_ne hserver]
  exact ⟨_, site.readClosing_bytes (defaultPage r.path) f.content, rfl, rfl, htype, f, hasks.1, rfl⟩

/-- A client whose last request closes the connection, and whose requests each come whole in one
read, reads the responses before it and then one that ends with the stream, as long as the files may
be mapped. Whatever else it sends, it gets nothing more. -/
theorem session_closed (site : Site) (rs : List GetRequest)
    (hrs : ∀ r ∈ rs, KeepsOpen r ∧ ∃ f, Asks site r f) {r : GetRequest} {f : FileEntry}
    (hclose : ¬ KeepsOpen r) (hasks : Asks site r f) {s : HttpServerTest × TcpConnection}
    (h : Idle s.2) :
    ∃ s' bytes last, session site takesAll s (rs.map GetRequest.wire ++ [r.wire]) = some s' ∧
      s'.2.written = s.2.written ++ (bytes ++ last) ∧
      (∃ got, readResponses rs.length (bytes ++ last) = some (got, last) ∧
        List.Forall₂ (Answers site) rs got) ∧
      (∃ got, readClosing last = some got ∧ Answers site r got) ∧
      .shutdownInLoop ∈ s'.2.pendingFuntors_ ∧
      ∀ write segs t, session site write s' segs = some t → t.2.written = s'.2.written := by
  obtain ⟨s₁, replies, hsession, hidle, hwritten, hreplies⟩ := session_sends rs hrs h
  obtain ⟨s', hread, hstate, hpending, hlast⟩ := handleRead_closing hclose hasks hidle
  refine ⟨s', replies.flatMap Reply.bytes, site.closingBytes (defaultPage r.path) f.content, ?_, ?_,
    readResponses_replies hreplies _, closing_answers hasks, hpending, ?_⟩
  · rw [session_append, hsession, Option.bind_some, session, List.foldlM_cons, hread]
    rfl
  · rw [hlast, hwritten, List.append_assoc]
  · intro write segs t ht
    have hdown : s'.2.state_ ≠ .kConnected := by simp [hstate]
    exact (session_down hdown ht).1

section Witness

theorem oneFile_sizes (content : List Byte) (hsize : content.length < 2 ^ 63) (file : List Byte)
    (f : FileEntry) (hf : oneFile content file = some f) : f.content.length < 2 ^ 63 := by
  rw [oneFile] at hf
  split_ifs at hf
  rw [← Option.some.inj hf]
  exact hsize

theorem smallOrder_ok : [text "Server", text "Content-Type"].Nodup ∧
    text "Content-Type" ∈ [text "Server", text "Content-Type"] ∧
    text "Server" ∈ [text "Server", text "Content-Type"] := by decide

theorem hi_size : (text "hi").length < 2 ^ 63 := by decide

theorem srv_fits : (text "/srv").length < 256 := by decide

def smallSite : Site where
  fs := oneFile (text "hi")
  cwd := text "/srv"
  order := [text "Server", text "Content-Type"]
  sizes := oneFile_sizes (text "hi") hi_size
  cwd_fits := srv_fits
  order_ok := smallOrder_ok

theorem aTxt_ok : SP ∉ text "/a.txt" ∧ CR ∉ text "/a.txt" ∧ LF ∉ text "/a.txt" := by decide

def askA : GetRequest := ⟨text "/a.txt", text "1.1", [], aTxt_ok, http11_ok⟩

theorem askA_asks : Asks smallSite askA ⟨false, text "hi", true, true⟩ := by
  have hfile : smallSite.file (defaultPage askA.path) = text "/srv/resources//a.txt" := by
    decide
  refine ⟨?_, rfl, rfl, rfl, by decide, by decide +kernel⟩
  rw [hfile]
  change oneFile (text "hi") (text "/srv/resources//a.txt") = _
  rw [oneFile, if_pos rfl]

theorem askA_keepsOpen : KeepsOpen askA :=
  ⟨by decide, by decide +kernel⟩

def upConnection : TcpConnection := (TcpConnection.new 7 true false).connectEstablished

theorem upConnection_idle : Idle upConnection :=
  ⟨rfl, by decide, ByteBuffer.content_new _, ByteBuffer.content_new _⟩

theorem session_answered_twice : ∃ s' bytes,
    session smallSite takesAll (askFile, upConnection) ([askA, askA].map GetRequest.wire) = some s' ∧
      Idle s'.2 ∧ s'.2.written = upConnection.written ++ bytes ∧
      ∀ tail, ∃ got, readResponses [askA, askA].length (bytes ++ tail) = some (got, tail) ∧
        List.Forall₂ (Answers smallSite) [askA, askA] got := by
  apply session_answered smallSite [askA, askA] _ upConnection_idle
  intro r hr
  rw [List.mem_pair, or_self] at hr
  rw [hr]
  exact ⟨askA_keepsOpen, _, askA_asks⟩

def askClose : GetRequest := ⟨text "/a.txt", text "1.1", [connectionClose], aTxt_ok, http11_ok⟩

theorem askClose_closes : ¬ KeepsOpen askClose := fun h => h.1 (by decide)

theorem session_closed_afterOne : ∃ s' bytes last,
    session smallSite takesAll (askFile, upConnection) ([askA].map GetRequest.wire ++ [askClose.wire]) =
        some s' ∧
      s'.2.written = upConnection.written ++ (bytes ++ last) ∧
      (∃ got, readResponses [askA].length (bytes ++ last) = some (got, last) ∧
        List.Forall₂ (Answers smallSite) [askA] got) ∧
      (∃ got, readClosing last = some got ∧ Answers smallSite askClose got) ∧
      .shutdownInLoop ∈ s'.2.pendingFuntors_ ∧
      ∀ write segs t, session smallSite write s' segs = some t → t.2.written = s'.2.written := by
  apply session_closed smallSite [askA] _ askClose_closes askA_asks upConnection_idle
  intro r hr
  rw [List.mem_singleton.mp hr]
  exact ⟨askA_keepsOpen, _, askA_asks⟩

end Witness

end WebServer

end Mymuduo.Http
