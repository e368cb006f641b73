import Mymuduo.Http.RequestHead

namespace Mymuduo.Http

open Lib Net HttpContext

/-- What `onMessage` does to its connection: the answer 400 with a shutdown, and the call of
`onRequest`. -/
inductive WebAction where
  | badRequest
  | onRequest (req : HttpRequestTest)

namespace WebServer

/-- Every message is parsed with a new context. -/
def onMessage (b : ByteBuffer) : Option (List WebAction × ByteBuffer) :=
  (HttpContext.new.parseRequest b).map fun (ok, c, b) =>
    ((if ok then [] else [.badRequest]) ++ (if c.gotAll then [.onRequest c.request_] else []), b)

/-- The segments that `handleRead` gets one after another: each is appended to the input
buffer, and `onMessage` runs on it. -/
def serve : ByteBuffer → List (List Byte) → Option (List WebAction)
  | _, [] => some []
  | b, seg :: segs => do
    let (acts, b) ← onMessage (b.append seg)
    let rest ← serve b segs
    some (acts ++ rest)

/-- The requests passed to `onRequest`. -/
def passed (acts : List WebAction) : List HttpRequestTest :=
  acts.filterMap fun
    | .onRequest req => some req
    | .badRequest => none

def inputBuffer_ : ByteBuffer := .new Buffer.kInitialSize

end WebServer

/-- The context after the request line. -/
def Head.context (r : Head) : HttpContext :=
  (HttpContext.new.setLine r.method r.path r.version).parsePath_

/-- What a request parsed on its own gives. -/
def Head.parsed (r : Head) : HttpRequestTest := (r.context.addFields r.fields).request_

/-- No part of the header line matches the pattern of request lines. -/
def Field.Plain (f : Field) : Prop := ∀ u, u <+: f.line ++ [CR] → matchRequestLine u = none

theorem matchRequestLine_eq_none {u : List Byte} (h : SP ∉ u) : matchRequestLine u = none := by
  have hsearch : search [SP] u = none := search_eq_none_of_not_mem List.mem_cons_self h
  simp [matchRequestLine, hsearch]

namespace HttpContext

theorem state_parsePath_ (c : HttpContext) : c.parsePath_.state_ = c.state_ := by
  unfold parsePath_
  split_ifs <;> rfl

theorem parsePath_body (c : HttpContext) : c.parsePath_.request_.body_ = c.request_.body_ := by
  unfold parsePath_
  split_ifs <;> rfl

theorem parsePath_method (c : HttpContext) :
    c.parsePath_.request_.method_ = c.request_.method_ := by
  unfold parsePath_
  split_ifs <;> rfl

theorem addFields_body (c : HttpContext) (fs : List Field) :
    (c.addFields fs).request_.body_ = c.request_.body_ := by
  induction fs generalizing c with
  | nil => rfl
  | cons f fs ih => exact ih _

theorem addFields_method (c : HttpContext) (fs : List Field) :
    (c.addFields fs).request_.method_ = c.request_.method_ := by
  induction fs generalizing c with
  | nil => rfl
  | cons f fs ih => exact ih _

/-- The request line never makes a POST request. -/
theorem setLine_method (m p v : List Byte) : (new.setLine m p v).request_.method_ ≠ .kPost := by
  simp only [setLine]
  split_ifs <;> decide

theorem parseDataBody_eq {c : HttpContext} (hc : c.request_.method_ ≠ .kPost) (line : List Byte) :
    c.parseDataBody_ line =
      some { c with request_ := { c.request_ with body_ := line }, state_ := .FINISH } := by
  simp [parseDataBody_, parsePost_, hc]

variable {b : ByteBuffer}

theorem parseRequest_eq (c : HttpContext) (hb : b.content ≠ []) :
    c.parseRequest b = parseLoop b.content.length c b := by
  have hne : b.content.length ≠ 0 := fun h => hb (List.length_eq_zero_iff.mp h)
  simp only [parseRequest, b.readableBytes_eq, hne, if_false]

/-- A first line without its end. -/
theorem parseRequest_open (hb : b.content ≠ []) (hlf : LF ∉ b.content) : new.parseRequest b =
    match matchRequestLine b.content with
    | none => some (false, new, b)
    | some (m, p, v) => some (true, (new.setLine m p v).parsePath_, b) := by
  have hpos := List.length_pos_iff.mpr hb
  obtain ⟨rest, hrest⟩ : ∃ rest, b.content.length = rest + 1 := ⟨b.content.length - 1, by omega⟩
  rw [parseRequest_eq new hb, hrest, parseLoop_open rest (by decide) hb hlf]
  simp only [parseLine, new, parseRequestLine_]
  cases matchRequestLine b.content <;> rfl

/-- A first line with its end. -/
theorem parseRequest_line {line tail : List Byte} (hlf : LF ∉ line)
    (hb : b.content = line ++ CRLF ++ tail) :
    (matchRequestLine line = none → new.parseRequest b = some (false, new, b)) ∧
    ∀ m p v, matchRequestLine line = some (m, p, v) → ∃ (d : ByteBuffer) (fuel : Nat),
      d.content = tail ∧ d.content.length ≤ fuel ∧
        new.parseRequest b = parseLoop fuel (new.setLine m p v).parsePath_ d := by
  have hlen : b.content.length = line.length + (2 + tail.length) := by
    rw [hb]
    simp [CRLF]
    omega
  obtain ⟨fuel, hfuel⟩ : ∃ fuel, b.content.length = fuel + 1 := ⟨b.content.length - 1, by omega⟩
  have hne : b.content ≠ [] := by simp [hb, CRLF]
  obtain ⟨d, hd, heq⟩ := parseLoop_line (c := new) fuel (by decide) hlf hb
  have hreq : new.parseRequest b = parseLoop (fuel + 1) new b := by
    rw [parseRequest_eq new hne, hfuel]
  refine ⟨?_, fun m p v hm => ⟨d, fuel, hd, by rw [hd]; omega, ?_⟩⟩
  · intro hnone
    rw [hreq, heq]
    simp [parseLine, new, parseRequestLine_, hnone]
  · rw [hreq, heq]
    simp [parseLine, new, parseRequestLine_, hm]

/-- The request line of a head is there with its end: the loop goes on with the header lines. -/
theorem parseRequest_context (r : Head) {tail : List Byte}
    (hb : b.content = r.line ++ CRLF ++ tail) :
    ∃ (d : ByteBuffer) (fuel : Nat), d.content = tail ∧ d.content.length ≤ fuel ∧
      new.parseRequest b = parseLoop fuel r.context d := by
  have hmatch : matchRequestLine r.line = some (r.method, r.path, r.version) :=
    r.match_lead r.version_ok.1
  exact (parseRequest_line r.line_lf hb).2 _ _ _ hmatch

theorem context_state (r : Head) : r.context.state_ = .HEADERS := state_parsePath_ _

/-- A whole head and what follows it. -/
theorem parseRequest_head (r : Head) {y : List Byte} (hb : b.content = r.wire ++ y) :
    ∃ (d : ByteBuffer) (rest : Nat), d.content = y ∧ y.length ≤ rest ∧ new.parseRequest b =
      parseLoop rest { r.context.addFields r.fields with
        state_ := if y = [] then .FINISH else .BODY } d := by
  have hsplit : b.content = r.line ++ CRLF ++ (Field.block r.fields ++ y) := by
    rw [hb, Head.wire, List.append_assoc]
  obtain ⟨d, fuel, hd, hfuel, heq⟩ := parseRequest_context r hsplit
  obtain ⟨e, rest, he, hrest, hloop⟩ := parseLoop_block r.fields (context_state r) hd hfuel
  exact ⟨e, rest, he, hrest, heq.trans hloop⟩

/-- What comes instead of a body is taken as one, up to the end of its first line. -/
theorem parseLoop_body {c : HttpContext} {fuel : Nat} (hc : c.state_ = .BODY)
    (hpost : c.request_.method_ ≠ .kPost) (r : Head) {t tail : List Byte}
    (hb : b.content ++ t = r.wire ++ tail) (hne : b.content ≠ [])
    (hfuel : b.content.length ≤ fuel) :
    ∃ (d : ByteBuffer) (line : List Byte), line ≠ [] ∧ parseLoop fuel c b = some (true,
      { c with request_ := { c.request_ with body_ := line }, state_ := .FINISH }, d) := by
  have hpos := List.length_pos_iff.mpr hne
  have hfin : c.state_ ≠ .FINISH := by simp [hc]
  have hparse (line : List Byte) (readable : Nat) : c.parseLine line readable = some (true,
      { c with request_ := { c.request_ with body_ := line }, state_ := .FINISH }) := by
    simp only [parseLine, hc, parseDataBody_eq hpost, Option.map_some]
  obtain ⟨rest, rfl⟩ : ∃ rest, fuel = rest + 1 := ⟨fuel - 1, by omega⟩
  have hwire : b.content ++ t = r.line ++ CR :: LF :: (Field.block r.fields ++ tail) := by
    rw [hb]
    simp [Head.wire, CRLF]
  rcases line_cases CR_ne_LF r.line_lf hwire with ⟨-, hlf⟩ | ⟨v, hv, -⟩
  · refine ⟨b, b.content, hne, ?_⟩
    rw [parseLoop_open rest hfin hne hlf, hparse]
    rfl
  · have hline : b.content = r.line ++ CRLF ++ v := by simpa [CRLF] using hv
    obtain ⟨d, -, heq⟩ := parseLoop_line rest hfin r.line_lf hline
    refine ⟨d, r.line, by simp [Head.line, Head.lead], ?_⟩
    rw [heq, hparse]
    exact parseLoop_finish rest d rfl

end HttpContext

namespace WebServer

variable {b : ByteBuffer}

/-- Part of the request line, version included: nothing happens yet. -/
theorem onMessage_more (r : Head) (hlead : r.lead <+: b.content)
    (hline : b.content <+: r.line ++ [CR]) : onMessage b = some ([], b) := by
  obtain ⟨v, hv⟩ := hlead
  have hsub : v <+: r.version ++ [CR] := by
    rw [← hv, Head.line, List.append_assoc] at hline
    exact (List.prefix_append_right_inj _).mp hline
  have hspace : SP ∉ v := by
    intro hm
    rcases List.mem_append.mp (hsub.subset hm) with hm | hm
    · exact r.version_ok.1 hm
    · exact absurd (List.mem_singleton.mp hm) (by decide)
  have hlf : LF ∉ b.content := by
    intro hm
    rcases List.mem_append.mp (hline.subset hm) with hm | hm
    · exact r.line_lf hm
    · exact absurd (List.mem_singleton.mp hm) (by decide)
  have hne : b.content ≠ [] := by
    rw [← hv]
    simp [Head.lead]
  have hst : (HttpContext.new.setLine r.method r.path v).parsePath_.gotAll = false := by
    simp [gotAll, state_parsePath_, setLine]
  unfold onMessage
  rw [parseRequest_open hne hlf, ← hv, r.match_lead hspace]
  simp [hst]

/-- Less of the request line: the answer is 400. -/
theorem onMessage_short (r : Head) {t : List Byte} (hb : b.content ++ t = r.lead) (ht : t ≠ [])
    (hne : b.content ≠ []) : onMessage b = some ([.badRequest], b) := by
  have hlf : LF ∉ b.content := fun hm => r.lead_lf (hb ▸ List.mem_append_left _ hm)
  unfold onMessage
  rw [parseRequest_open hne hlf, r.not_match_of_short hb ht]
  rfl

/-- The request line is there with its end: the loop goes on with the header lines. -/
theorem onMessage_line (r : Head) {tail : List Byte} (hb : b.content = r.line ++ CRLF ++ tail) :
    ∃ (d : ByteBuffer) (fuel : Nat), d.content = tail ∧ d.content.length ≤ fuel ∧
      onMessage b = (parseLoop fuel r.context d).map fun (ok, c, b) =>
        ((if ok then [] else [.badRequest]) ++ (if c.gotAll then [.onRequest c.request_] else []),
          b) := by
  obtain ⟨d, fuel, hd, hfuel, heq⟩ := parseRequest_context r hb
  refine ⟨d, fuel, hd, hfuel, ?_⟩
  rw [onMessage, heq]

/-- The whole request and nothing else: it is passed on, and the buffer is empty. -/
theorem onMessage_last (r : Head) (hb : b.content = r.wire) :
    ∃ d : ByteBuffer, d.content = [] ∧ onMessage b = some ([.onRequest r.parsed], d) := by
  obtain ⟨d, rest, hd, -, heq⟩ := parseRequest_head r (hb.trans (List.append_nil _).symm)
  refine ⟨d, hd, ?_⟩
  rw [onMessage, heq, parseLoop_finish _ _ (by simp)]
  simp [gotAll, Head.parsed]

/-- The request and more: what follows is taken as its body. -/
theorem onMessage_over (r r' : Head) {y t tail : List Byte} (hb : b.content = r.wire ++ y)
    (hy : y ≠ []) (hyt : y ++ t = r'.wire ++ tail) :
    ∃ (d : ByteBuffer) (req : HttpRequestTest), onMessage b = some ([.onRequest req], d) ∧
      req.body_ ≠ [] := by
  obtain ⟨e, rest, he, hrest, heq⟩ := parseRequest_head r hb
  have hpost : (r.context.addFields r.fields).request_.method_ ≠ .kPost := by
    rw [addFields_method, Head.context, parsePath_method]
    exact setLine_method _ _ _
  obtain ⟨g, line, hline, hbody⟩ := parseLoop_body (c := { r.context.addFields r.fields with
    state_ := .BODY }) rfl hpost r' (he ▸ hyt) (he ▸ hy) (he ▸ hrest)
  refine ⟨g, { (r.context.addFields r.fields).request_ with body_ := line }, ?_, hline⟩
  rw [onMessage, heq, if_neg hy, hbody]
  rfl

/-- Part of the header lines: the request line is gone. -/
theorem onMessage_lost (r : Head) {v t : List Byte} (hb : b.content = r.line ++ CRLF ++ v)
    (hv : v ++ t = Field.block r.fields) (ht : t ≠ []) :
    ∃ (acts : List WebAction) (d : ByteBuffer) (fs : List Field), fs <:+ r.fields ∧
      onMessage b = some (acts, d) ∧ d.content ++ t = Field.block fs := by
  obtain ⟨d, fuel, hd, hfuel, heq⟩ := onMessage_line r hb
  obtain ⟨ctx, e, fs, hsuf, hloop, he⟩ := parseLoop_part r.fields (context_state r)
    (b := d) (by rw [hd, hv]) ht hfuel
  exact ⟨_, e, fs, hsuf, by rw [heq, hloop]; rfl, he⟩

/-- Header lines where a request line should be: the answer is 400. -/
theorem onMessage_stray {fs : List Field} {t tail : List Byte}
    (hplain : ∀ f ∈ fs, f.Plain)
    (hb : b.content ++ t = Field.block fs ++ tail) (hne : b.content ≠ []) :
    onMessage b = some ([.badRequest], b) := by
  obtain ⟨line, rest, hlf, hblock, hnone⟩ : ∃ line rest, LF ∉ line ∧
      Field.block fs ++ tail = line ++ CR :: LF :: rest ∧
      ∀ u, u <+: line ++ [CR] → matchRequestLine u = none := by
    cases fs with
    | nil =>
      refine ⟨[], tail, by simp, by simp [Field.block, CRLF], ?_⟩
      intro u hu
      apply matchRequestLine_eq_none
      intro hm
      exact absurd (List.mem_singleton.mp (hu.subset hm)) (by decide)
    | cons f fs =>
      exact ⟨f.line, Field.block fs ++ tail, f.line_lf, by simp [Field.block, CRLF],
        hplain f List.mem_cons_self⟩
  rw [hblock] at hb
  rcases line_cases CR_ne_LF hlf hb with ⟨hu, hulf⟩ | ⟨v, hv, -⟩
  · unfold onMessage
    rw [parseRequest_open hne hulf, hnone _ hu]
    rfl
  · have hline : b.content = line ++ CRLF ++ v := by simpa [CRLF] using hv
    unfold onMessage
    rw [(parseRequest_line hlf hline).1 (hnone line (List.prefix_append _ _))]
    rfl

/-- The cuts that the server survives, where `held` is what its buffer has of the first of the
requests `rs`: every request ends at a cut, and the other cuts are in a request line, behind
`HTTP/` and before the LF. -/
inductive GoodCuts : List Byte → List Head → List (List Byte) → Prop
  | done : GoodCuts [] [] []
  | inLine {held seg : List Byte} {r : Head} {rs : List Head} {segs : List (List Byte)}
      (hlead : r.lead <+: held ++ seg) (hline : held ++ seg <+: r.line ++ [CR])
      (h : GoodCuts (held ++ seg) (r :: rs) segs) : GoodCuts held (r :: rs) (seg :: segs)
  | atEnd {held seg : List Byte} {r : Head} {rs : List Head} {segs : List (List Byte)}
      (hend : held ++ seg = r.wire) (h : GoodCuts [] rs segs) :
      GoodCuts held (r :: rs) (seg :: segs)

/-- The requests are passed on as when each arrives alone in one segment, and 400 is never
the answer. -/
def SameRequests (rs : List Head) (segs : List (List Byte)) : Prop :=
  ∃ acts alone, serve inputBuffer_ segs = some acts ∧
    serve inputBuffer_ (rs.map Head.wire) = some alone ∧
    passed acts = passed alone ∧ WebAction.badRequest ∉ acts

def handOn (rs : List Head) : List WebAction := rs.map fun r => .onRequest r.parsed

theorem passed_handOn (rs : List Head) : passed (handOn rs) = rs.map Head.parsed := by
  induction rs with
  | nil => rfl
  | cons r rs ih => simp [passed, handOn]

theorem serve_cons {seg : List Byte} {acts : List WebAction} {d : ByteBuffer}
    (h : onMessage (b.append seg) = some (acts, d)) (segs : List (List Byte)) :
    serve b (seg :: segs) = (serve d segs).map (acts ++ ·) := by
  simp only [serve, h, Option.bind_eq_bind, Option.bind_some]
  cases serve d segs <;> rfl

/-- Good cuts lose nothing. -/
theorem serve_of_goodCuts {held : List Byte} {rs : List Head} {segs : List (List Byte)}
    (h : GoodCuts held rs segs) (hb : b.content = held) : serve b segs = some (handOn rs) := by
  induction h generalizing b with
  | done => rfl
  | @inLine held seg r rs segs hlead hline h ih =>
    have hcontent : (b.append seg).content = held ++ seg := by rw [ByteBuffer.content_append, hb]
    have hmsg := onMessage_more r (hcontent ▸ hlead) (hcontent ▸ hline)
    rw [serve_cons hmsg, ih hcontent]
    rfl
  | @atEnd held seg r rs segs hend h ih =>
    have hcontent : (b.append seg).content = r.wire := by
      rw [ByteBuffer.content_append, hb, hend]
    obtain ⟨d, hd, hmsg⟩ := onMessage_last r hcontent
    rw [serve_cons hmsg, ih hd]
    rfl

theorem goodCuts_alone (rs : List Head) : GoodCuts [] rs (rs.map Head.wire) := by
  induction rs with
  | nil => exact .done
  | cons r rs ih => exact .atEnd rfl ih

theorem serve_alone (rs : List Head) :
    serve inputBuffer_ (rs.map Head.wire) = some (handOn rs) :=
  serve_of_goodCuts (goodCuts_alone rs) (ByteBuffer.content_new _)

/-- Where the first requests of `rs` are, and the cut behind `u`. -/
inductive CutPlace (r : Head) (rs : List Head) (u t : List Byte) : Prop
  | inLine (hlead : r.lead <+: u) (hline : u <+: r.line ++ [CR])
  | short (v : List Byte) (h : u ++ v = r.lead) (hv : v ≠ [])
  | atEnd (h : u = r.wire) (ht : t = rs.flatMap Head.wire)
  | inFields (v x : List Byte) (h : u = r.line ++ CRLF ++ v) (hv : v ++ x = Field.block r.fields)
      (hx : x ≠ []) (ht : t = x ++ rs.flatMap Head.wire)
  | past (y : List Byte) (h : u = r.wire ++ y) (hy : y ≠ []) (ht : y ++ t = rs.flatMap Head.wire)

theorem cutPlace {r : Head} {rs : List Head} {u t : List Byte}
    (h : u ++ t = (r :: rs).flatMap Head.wire) : CutPlace r rs u t := by
  have hwire : u ++ t = r.line ++ CR :: LF :: (Field.block r.fields ++ rs.flatMap Head.wire) := by
    rw [h]
    simp [Head.wire, CRLF]
  rcases line_cases CR_ne_LF r.line_lf hwire with ⟨hline, -⟩ | ⟨v, hv, hvt⟩
  · have hlead : r.lead <+: r.line ++ [CR] :=
      (List.prefix_append _ _).trans (List.prefix_append _ _)
    rcases List.prefix_or_prefix_of_prefix hline hlead with ⟨v, hv⟩ | hle
    · by_cases hnil : v = []
      · rw [hnil, List.append_nil] at hv
        exact .inLine (hv ▸ List.prefix_rfl) hline
      · exact .short v hv hnil
    · exact .inLine hle hline
  · have hu : u = r.line ++ CRLF ++ v := by simpa [CRLF] using hv
    rcases List.append_eq_append_iff.mp hvt with ⟨x, hx, ht⟩ | ⟨y, hy, ht⟩
    · by_cases hnil : x = []
      · rw [hnil, List.append_nil] at hx
        refine .atEnd (by rw [hu, ← hx, Head.wire]) (by rw [ht, hnil, List.nil_append])
      · exact .inFields v x hu hx.symm hnil ht
    · by_cases hnil : y = []
      · rw [hnil, List.append_nil] at hy
        refine .atEnd (by rw [hu, hy, Head.wire]) (by rw [ht, hnil, List.nil_append])
      · exact .past y (by rw [hu, hy, Head.wire]; simp) hnil ht.symm

theorem parsed_body (r : Head) : r.parsed.body_ = [] := by
  rw [Head.parsed, addFields_body, Head.context, parsePath_body]
  rfl

/-- A run that passes the requests on as they are has good cuts. -/
theorem goodCuts_of_serve {rs : List Head} {segs : List (List Byte)} {acts : List WebAction}
    (hcut : b.content ++ segs.flatten = rs.flatMap Head.wire) (hne : ∀ seg ∈ segs, seg ≠ [])
    (hplain : ∀ r ∈ rs, ∀ f ∈ r.fields, f.Plain) (hserve : serve b segs = some acts)
    (hpassed : passed acts = rs.map Head.parsed) (hbad : WebAction.badRequest ∉ acts) :
    GoodCuts b.content rs segs := by
  induction segs generalizing b rs acts with
  | nil =>
    obtain rfl := Option.some.inj hserve
    obtain rfl := List.map_eq_nil_iff.mp hpassed.symm
    have hnil : b.content = [] := by simpa using hcut
    rw [hnil]
    exact .done
  | cons seg segs ih =>
    have hseg : seg ≠ [] := hne seg List.mem_cons_self
    have hne' : ∀ seg ∈ segs, seg ≠ [] := fun x hx => hne x (List.mem_cons_of_mem _ hx)
    have hcontent : (b.append seg).content = b.content ++ seg := ByteBuffer.content_append _ _
    have hfull : (b.append seg).content ≠ [] := by simp [hcontent, hseg]
    rw [List.flatten_cons, ← List.append_assoc, ← hcontent] at hcut
    cases rs with
    | nil => exact absurd (List.append_eq_nil_iff.mp hcut).1 hfull
    | cons r rs =>
      have hplain' : ∀ r ∈ rs, ∀ f ∈ r.fields, f.Plain :=
        fun x hx => hplain x (List.mem_cons_of_mem _ hx)
      cases cutPlace hcut with
      | inLine hlead hline =>
        rw [serve_cons (onMessage_more r hlead hline), Option.map_eq_some_iff] at hserve
        obtain ⟨rest, hrest, rfl⟩ := hserve
        have hgood := ih hcut hne' hplain hrest hpassed hbad
        rw [hcontent] at hlead hline hgood
        exact .inLine hlead hline hgood
      | short v h hv =>
        rw [serve_cons (onMessage_short r h hv hfull), Option.map_eq_some_iff] at hserve
        obtain ⟨rest, -, rfl⟩ := hserve
        exact absurd List.mem_cons_self hbad
      | atEnd h ht =>
        obtain ⟨d, hd, hmsg⟩ := onMessage_last r h
        rw [serve_cons hmsg, Option.map_eq_some_iff] at hserve
        obtain ⟨rest, hrest, rfl⟩ := hserve
        have hgood := ih (b := d) (by rw [hd, List.nil_append, ht]) hne' hplain' hrest
          (List.cons.inj hpassed).2 fun hm => hbad (List.mem_cons_of_mem _ hm)
        rw [hd] at hgood
        exact .atEnd (hcontent.symm.trans h) hgood
      | inFields v x h hv hx ht =>
        obtain ⟨first, d, fs, hsuf, hmsg, hd⟩ := onMessage_lost r h hv hx
        rw [serve_cons hmsg, Option.map_eq_some_iff] at hserve
        obtain ⟨rest, hrest, rfl⟩ := hserve
        cases segs with
        | nil => exact absurd (List.append_eq_nil_iff.mp ht.symm).1 hx
        | cons seg' segs =>
          have hcontent' := ByteBuffer.content_append d seg'
          have hstream : (d.append seg').content ++ segs.flatten =
              Field.block fs ++ rs.flatMap Head.wire := by
            rw [hcontent', List.append_assoc, ← List.flatten_cons, ht, ← List.append_assoc, hd]
          have hstray : onMessage (d.append seg') = some ([.badRequest], d.append seg') := by
            refine onMessage_stray ?_ hstream ?_
            · intro f hf
              exact hplain r List.mem_cons_self f (hsuf.subset hf)
            · simp [hcontent', hne' seg' List.mem_cons_self]
          rw [serve_cons hstray, Option.map_eq_some_iff] at hrest
          obtain ⟨rest', -, rfl⟩ := hrest
          exact absurd (List.mem_append_right _ List.mem_cons_self) hbad
      | past y h hy ht =>
        cases rs with
        | nil => exact absurd (List.append_eq_nil_iff.mp ht).1 hy
        | cons r' rs =>
          obtain ⟨d, req, hmsg, hbody⟩ := onMessage_over r r' h hy ht
          rw [serve_cons hmsg, Option.map_eq_some_iff] at hserve
          obtain ⟨rest, -, rfl⟩ := hserve
          have hreq : req = r.parsed := (List.cons.inj hpassed).1
          exact absurd (hreq ▸ parsed_body r) hbody

/-- Requests without bodies, cut into segments that are not empty. Good cuts let the server
pass the requests on as if each came alone, without an answer 400; and no others do, unless
part of a header line looks like a request line. -/
theorem segments_served {rs : List Head} {segs : List (List Byte)}
    (hcut : segs.flatten = rs.flatMap Head.wire) (hne : ∀ seg ∈ segs, seg ≠ []) :
    (GoodCuts [] rs segs → SameRequests rs segs) ∧
    ((∀ r ∈ rs, ∀ f ∈ r.fields, f.Plain) → SameRequests rs segs → GoodCuts [] rs segs) := by
  have hempty : inputBuffer_.content = [] := ByteBuffer.content_new _
  constructor
  · intro h
    refine ⟨handOn rs, handOn rs, serve_of_goodCuts h hempty, serve_alone rs, rfl, ?_⟩
    intro hm
    obtain ⟨r, -, hr⟩ := List.mem_map.mp hm
    cases hr
  · intro hplain hx
    obtain ⟨acts, alone, hserve, halone, hpassed, hbad⟩ := hx
    obtain rfl := Option.some.inj ((serve_alone rs).symm.trans halone)
    rw [passed_handOn] at hpassed
    have hgood := goodCuts_of_serve (by rw [hempty, List.nil_append, hcut]) hne hplain hserve
      hpassed hbad
    rwa [hempty] at hgood

/-- One request with one header line. -/
def hostHead : Head :=
  ⟨text "GET", text "/", text "1.1", [⟨text "Host", text " a", by decide, by decide⟩],
    by decide, by decide, by decide⟩

/-- It survives a cut before its version and one between CR and LF. -/
theorem segments_served_inLine :
    SameRequests [hostHead] [text "GET / HTTP/", text "1.1" ++ [CR], [LF] ++ text "Host: a" ++
      CRLF ++ CRLF] := by
  apply (segments_served (by decide) (by decide)).1
  exact .inLine (by decide) (by decide) (.inLine (by decide) (by decide) (.atEnd (by decide) .done))

/-- A cut behind its request line loses it: nothing is passed on. -/
theorem cut_loses_request :
    ¬ SameRequests [hostHead] [text "GET / HTTP/1.1" ++ CRLF, text "Host: a" ++ CRLF ++ CRLF] := by
  intro hx
  obtain ⟨acts, alone, hserve, halone, hpassed, -⟩ := hx
  have hrun : (serve inputBuffer_ [text "GET / HTTP/1.1" ++ CRLF,
      text "Host: a" ++ CRLF ++ CRLF]).map (fun acts => (passed acts).length) = some 0 := by
    decide +kernel
  rw [hserve, Option.map_some, Option.some.injEq] at hrun
  obtain rfl := Option.some.inj ((serve_alone [hostHead]).symm.trans halone)
  rw [hpassed, passed_handOn] at hrun
  cases hrun

end WebServer

end Mymuduo.Http
