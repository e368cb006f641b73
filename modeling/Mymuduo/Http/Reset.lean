import Mymuduo.Http.ParseRun

namespace Mymuduo.Http

open Lib Net

/-- `that` is passed by value. -/
def HttpRequestTest.swap (r that : HttpRequestTest) : HttpRequestTest :=
  { r with
    method_ := that.method_
    version_ := that.version_
    path_ := that.path_
    query_ := that.query_
    header_ := that.header_ }

namespace HttpContext

def reset (c : HttpContext) : HttpContext := ⟨c.request_.swap .new, .REQUEST_LINE⟩

/-- The context with another body and other fields of a form in it. -/
def leave (c : HttpContext) (body : List Byte) (post : List Byte → Option (List Byte)) :
    HttpContext :=
  { c with request_ := { c.request_ with body_ := body, post_ := post } }

theorem reset_eq (c : HttpContext) : c.reset = new.leave c.request_.body_ c.request_.post_ := rfl

variable {c d : HttpContext} {b f : ByteBuffer} {ok : Bool} {line body : List Byte}
  {post : List Byte → Option (List Byte)} {readable : Nat}

theorem parsePath_leave (c : HttpContext) (body : List Byte)
    (post : List Byte → Option (List Byte)) :
    (c.leave body post).parsePath_ = c.parsePath_.leave body post := by
  have hpath : (c.leave body post).request_.path_ = c.request_.path_ := rfl
  rw [parsePath_, hpath, parsePath_]
  split_ifs with hroot hdefault
  · rfl
  · rfl
  · rfl

theorem parseRequestLine_leave (c : HttpContext) (line body : List Byte)
    (post : List Byte → Option (List Byte)) :
    (c.leave body post).parseRequestLine_ line =
      (c.parseRequestLine_ line).map (·.leave body post) := by
  rw [parseRequestLine_, parseRequestLine_, Option.map_map]
  rfl

theorem parseRequestHeader_leave (c : HttpContext) (line body : List Byte)
    (post : List Byte → Option (List Byte)) :
    (c.leave body post).parseRequestHeader_ line = (c.parseRequestHeader_ line).leave body post := by
  rw [parseRequestHeader_, parseRequestHeader_]
  cases matchHeader line with
  | none => rfl
  | some field => rfl

/-- Outside the body nobody looks at what was left. -/
theorem parseLine_leave (hbody : c.state_ ≠ .BODY) (h : c.parseLine line readable = some (ok, d)) :
    (c.leave body post).parseLine line readable = some (ok, d.leave body post) := by
  rw [parseLine] at h ⊢
  have hstate : (c.leave body post).state_ = c.state_ := rfl
  rw [hstate]
  cases hc : c.state_ with
  | REQUEST_LINE =>
    rw [hc] at h
    rw [parseRequestLine_leave]
    cases hparse : c.parseRequestLine_ line with
    | none =>
      rw [hparse] at h
      obtain ⟨rfl, rfl⟩ := Prod.mk.inj (Option.some.inj h)
      rfl
    | some e =>
      rw [hparse] at h
      obtain ⟨rfl, rfl⟩ := Prod.mk.inj (Option.some.inj h)
      simp only [Option.map_some]
      rw [parsePath_leave]
  | HEADERS =>
    rw [hc] at h
    simp only at h ⊢
    rw [parseRequestHeader_leave]
    split_ifs at h ⊢ with hshort
    · obtain ⟨rfl, rfl⟩ := Prod.mk.inj (Option.some.inj h)
      rfl
    · obtain ⟨rfl, rfl⟩ := Prod.mk.inj (Option.some.inj h)
      rfl
  | BODY => exact absurd hc hbody
  | FINISH =>
    rw [hc] at h
    obtain ⟨rfl, rfl⟩ := Prod.mk.inj (Option.some.inj h)
    rfl

/-- The line of a body replaces an earlier one. -/
theorem parseLine_body_leave (hbody : c.state_ = .BODY) (hm : c.request_.method_ ≠ .kPost)
    (h : c.parseLine line readable = some (ok, d)) :
    (c.leave body post).parseLine line readable = some (ok, d.leave d.request_.body_ post) := by
  have hm' : (c.leave body post).request_.method_ ≠ .kPost := hm
  have hbody' : (c.leave body post).state_ = .BODY := hbody
  rw [parseLine, hbody] at h
  rw [parseLine, hbody']
  simp only [parseDataBody_eq hm, parseDataBody_eq hm', Option.map_some] at h ⊢
  obtain ⟨rfl, rfl⟩ := Prod.mk.inj (Option.some.inj h)
  rfl

/-- The request line makes no POST request. -/
theorem parseRequestLine_method (hm : c.request_.method_ ≠ .kPost)
    (h : c.parseRequestLine_ line = some d) : d.request_.method_ ≠ .kPost := by
  obtain ⟨groups, -, rfl⟩ := Option.map_eq_some_iff.mp h
  simp only [setLine]
  split_ifs
  · decide
  · exact hm

/-- Nothing else sets the method. -/
theorem parseLine_method (hc : c.state_ ≠ .FINISH) (hm : c.request_.method_ ≠ .kPost)
    (h : c.parseLine line readable = some (ok, d)) : d.request_.method_ ≠ .kPost := by
  rcases parseLine_cases hc h with ⟨-, rfl, -⟩ | ⟨-, -, e, he, rfl, -⟩ | ⟨-, -, -, rfl⟩ |
    ⟨-, -, -, rfl⟩ | ⟨-, -, hd, -⟩
  · exact hm
  · rw [parsePath_method]
    exact parseRequestLine_method hm he
  · exact fun hpost => hm ((parseRequestHeader_spec c line).1 ▸ hpost)
  · exact fun hpost => hm ((parseRequestHeader_spec c line).1 ▸ hpost)
  · rw [parseDataBody_eq hm] at hd
    rw [← Option.some.inj hd]
    exact hm

/-- Two runs that differ in what was left end the same way. The body is replaced if there is
another one; the fields of a form stay. -/
theorem Returns.leave (h : Returns c b ok d f) (hm : c.request_.method_ ≠ .kPost)
    (body : List Byte) (post : List Byte → Option (List Byte)) :
    Returns (c.leave body post) b ok
      (d.leave (if (c.bodyBytes b.content).2 = [] then body else d.request_.body_) post) f := by
  induction h generalizing body with
  | stop hstop =>
    rw [if_pos (bodyBytes_stopped hstop)]
    exact Returns.stop hstop
  | @failed c d b hgo hline =>
    have hfin := (not_or.mp hgo).2
    have hunchanged := (Returns.failed hgo hline).unchanged rfl
    have hbody : c.state_ ≠ .BODY := by
      rw [hunchanged.1]
      decide
    have hnil : (c.bodyBytes b.content).2 = [] := by
      cases hsearch : search CRLF b.content with
      | none => exact bodyBytes_unended hbody hsearch
      | some found =>
        rw [firstLine, hsearch] at hline
        exact bodyBytes_failed hfin hsearch hline
    rw [if_pos hnil]
    exact Returns.failed hgo (parseLine_leave hbody hline)
  | @broke c d b hgo hsearch hline =>
    by_cases hbody : c.state_ = .BODY
    · have hne : (c.bodyBytes b.content).2 ≠ [] := by
        rw [bodyBytes_body hbody]
        intro hnil
        rw [b.readableBytes_eq] at hgo
        exact hgo (Or.inl (List.length_eq_zero_iff.mpr hnil))
      rw [if_neg hne]
      exact Returns.broke hgo hsearch (parseLine_body_leave hbody hm hline)
    · rw [if_pos (bodyBytes_unended hbody hsearch)]
      exact Returns.broke hgo hsearch (parseLine_leave hbody hline)
  | @next c d e b f line rest ok hgo hsearch hline hrest ih =>
    have hfin := (not_or.mp hgo).2
    by_cases hbody : c.state_ = .BODY
    · rcases parseLine_cases hfin hline with ⟨hok, -⟩ | ⟨-, hc, -⟩ | ⟨-, hc, -⟩ | ⟨-, hc, -⟩ |
        ⟨-, -, -, hd⟩
      · exact absurd hok (by decide)
      · exact absurd (hbody.symm.trans hc) (by decide)
      · exact absurd (hbody.symm.trans hc) (by decide)
      · exact absurd (hbody.symm.trans hc) (by decide)
      · obtain ⟨rfl, rfl, rfl⟩ := hrest.finished hd
        have hne : (c.bodyBytes b.content).2 ≠ [] := by
          rw [bodyBytes_body hbody, search_append hsearch]
          simp [CRLF]
        rw [if_neg hne]
        exact Returns.next hgo hsearch (parseLine_body_leave hbody hm hline)
          (Returns.stop (Or.inr hd))
    · have hrest' := ih (parseLine_method hfin hm hline)
      rw [retrieve_line hsearch] at hrest'
      rw [b.readableBytes_eq] at hline
      rw [← bodyBytes_next hfin hbody hsearch hline]
      rw [← b.readableBytes_eq] at hline
      exact Returns.next hgo hsearch (parseLine_leave hbody hline) (hrest' body)

theorem leave_eq_iff (c : HttpContext) (body : List Byte)
    (post : List Byte → Option (List Byte)) :
    c.leave body post = c ↔ post = c.request_.post_ ∧ body = c.request_.body_ := by
  constructor
  · intro h
    exact ⟨congrArg (·.request_.post_) h, congrArg (·.request_.body_) h⟩
  · intro hx
    obtain ⟨rfl, rfl⟩ := hx
    rfl

theorem addHeaders_method (r : HttpRequestTest) (fields : List (List Byte × List Byte)) :
    (r.addHeaders fields).method_ = r.method_ := by
  induction fields generalizing r with
  | nil => rfl
  | cons field fields ih => exact ih _

theorem bodyBytes_method (hm : c.request_.method_ ≠ .kPost) (bytes : List Byte) :
    (c.bodyBytes bytes).1.method_ ≠ .kPost := by
  rw [bodyBytes]
  cases hstate : c.state_ with
  | REQUEST_LINE =>
    simp only
    cases search CRLF bytes with
    | none => exact hm
    | some found =>
      cases hparse : c.parseRequestLine_ found.1 with
      | none =>
        simp only [Option.elim_some, hparse, Option.elim_none]
        exact hm
      | some d =>
        simp only [Option.elim_some, hparse, addHeaders_method, parsePath_method]
        exact parseRequestLine_method hm hparse
  | HEADERS =>
    simp only [addHeaders_method]
    exact hm
  | BODY => exact hm
  | FINISH => exact hm

/-- A context that no owner has made one of a POST request has no form to decode. -/
theorem orderly_of_method (hm : c.request_.method_ ≠ .kPost) (b : ByteBuffer) : c.Orderly b := by
  apply orderly_of_decodable
  left
  intro hform
  exact bodyBytes_method hm _ hform.1

/-- A new context parses any input, and without a body in it there is none. -/
theorem new_returns (b : ByteBuffer) (hb : b.content ≠ []) :
    ∃ ok d f, Returns new b ok d f ∧ d.request_.post_ = (fun _ => none) ∧
      ((new.bodyBytes b.content).2 = [] → d.request_.body_ = []) := by
  obtain ⟨ok, d, f, -, hreturns, -⟩ := orderly_of_method (c := new) (by decide) b
  have hsame := (hreturns hb).leave (by decide) [] fun _ => none
  have heq := ((hreturns hb).parseLoop_eq le_rfl).symm.trans (hsame.parseLoop_eq le_rfl)
  have hd := (Prod.mk.inj (Prod.mk.inj (Option.some.inj heq)).2).1
  obtain ⟨hpost, hbody⟩ := (leave_eq_iff d _ _).mp hd.symm
  refine ⟨ok, d, f, hreturns hb, hpost.symm, ?_⟩
  intro hnil
  rw [if_pos hnil] at hbody
  exact hbody.symm

/-- What is left of an earlier request shows exactly when it had fields of a form, or it had a
body and no other body comes. -/
theorem reset_parseRequest_iff (c : HttpContext) (b : ByteBuffer) :
    c.reset.parseRequest b = new.parseRequest b ↔
      c.request_.post_ = (fun _ => none) ∧
        (c.request_.body_ = [] ∨ (new.bodyBytes b.content).2 ≠ []) := by
  rw [reset_eq]
  by_cases hb : b.content = []
  · have hzero : b.readableBytes = 0 := by rw [b.readableBytes_eq, hb, List.length_nil]
    rw [parseRequest, if_pos hzero, parseRequest, if_pos hzero, bodyBytes_stopped (Or.inl hzero)]
    simp only [Option.some.injEq, Prod.mk.injEq, true_and, and_true, leave_eq_iff, ne_eq,
      not_true_eq_false, or_false]
    rfl
  · obtain ⟨ok, d, f, hreturns, hpost, hbody⟩ := new_returns b hb
    have hleave := hreturns.leave (by decide) c.request_.body_ c.request_.post_
    rw [parseRequest_eq _ hb, parseRequest_eq _ hb, hreturns.parseLoop_eq le_rfl,
      hleave.parseLoop_eq le_rfl]
    simp only [Option.some.injEq, Prod.mk.injEq, true_and, and_true, leave_eq_iff, hpost]
    apply and_congr_right
    intro _
    split_ifs with hnil
    · rw [hbody hnil]
      exact (or_iff_left (not_not.mpr hnil)).symm
    · exact iff_of_true rfl (Or.inr hnil)

/-- A request with a body that nobody asked for. -/
def unaskedBody : ByteBuffer :=
  (ByteBuffer.new 0).append (text "GET / HTTP/1.1" ++ CRLF ++ CRLF ++ text "abc")

/-- A request without a body. -/
def noBody : ByteBuffer := (ByteBuffer.new 0).append (text "GET / HTTP/1.1" ++ CRLF ++ CRLF)

/-- The second request is given the body of the first one. -/
theorem reset_leaves_body : ∃ c d, new.parseRequest unaskedBody = some (true, c, d) ∧
    c.reset.parseRequest noBody ≠ new.parseRequest noBody := by
  obtain ⟨c, d, hparse⟩ : ∃ c d, new.parseRequest unaskedBody = some (true, c, d) := by
    have hok : (new.parseRequest unaskedBody).map (·.1) = some true := by decide +kernel
    obtain ⟨⟨ok, c, d⟩, hparse, rfl⟩ := Option.map_eq_some_iff.mp hok
    exact ⟨c, d, hparse⟩
  refine ⟨c, d, hparse, ?_⟩
  intro h
  have hruns : ((new.parseRequest unaskedBody).bind fun x => x.2.1.reset.parseRequest noBody).map
      (·.2.1.request_.body_) = some (text "abc") := by decide +kernel
  have hfresh : (new.parseRequest noBody).map (·.2.1.request_.body_) = some [] := by decide +kernel
  rw [hparse, Option.bind_some, h, hfresh] at hruns
  exact absurd hruns (by decide)

end HttpContext

end Mymuduo.Http
