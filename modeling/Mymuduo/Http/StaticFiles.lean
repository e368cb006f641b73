import Mathlib.Data.List.TakeWhile
import Mymuduo.Http.HttpServer

namespace Mymuduo.Http

open Lib Net

def SLASH : Byte := 47
def DOT : Byte := 46

/-- A part of a path between two slashes. An empty one and a dot lead nowhere. -/
def segment (part : List Byte) : Option (Seg (List Byte)) :=
  if part = [] ∨ part = [DOT] then none
  else if part = [DOT, DOT] then some .up
  else some (.down part)

def segments (path : List Byte) : List (Seg (List Byte)) := (path.splitOn SLASH).filterMap segment

/-- The lexical normalisation of an absolute path: its names, the last one first. -/
def normalise (path : List Byte) : List (List Byte) := follow [] (segments path)

/-- The path leads to the directory or below it. -/
def Inside (directory path : List Byte) : Prop := normalise directory <:+ normalise path

instance (directory path : List Byte) : Decidable (Inside directory path) :=
  inferInstanceAs (Decidable (_ <:+ _))

theorem segments_append (a b : List Byte) : segments (a ++ SLASH :: b) = segments a ++ segments b := by
  simp only [segments, List.splitOn_append_cons_self, List.filterMap_append]

theorem normalise_append (a b : List Byte) :
    normalise (a ++ SLASH :: b) = follow (normalise a) (segments b) := by
  simp only [normalise, segments_append, follow_append]

/-- Below a directory, given with its last slash, only the route of the rest counts. -/
theorem inside_append_iff (a b : List Byte) : Inside (a ++ [SLASH]) (a ++ [SLASH] ++ b) ↔
    (normalise (a ++ [SLASH])).take (Route.ofSegs (segments b)).climb <:+
      (Route.ofSegs (segments b)).names := by
  have hdir : normalise (a ++ [SLASH]) = normalise a := by
    rw [normalise_append]
    rfl
  rw [Inside, hdir, List.append_assoc, List.singleton_append, normalise_append, suffix_follow_iff]

theorem cString_append {a : List Byte} (ha : (0 : Byte) ∉ a) (b : List Byte) :
    cString (a ++ b) = a ++ cString b := by
  apply List.takeWhile_append_of_pos
  intro x hx
  have hne : x ≠ 0 := fun h => ha (h ▸ hx)
  simpa using hne

theorem zero_not_mem_cString (s : List Byte) : (0 : Byte) ∉ cString s := by
  intro h
  simpa using List.mem_takeWhile_imp h

namespace HttpServerTest

variable (fs : FileSystem) (cwd : List Byte) (s : HttpServerTest) (req : HttpRequestTest)

theorem staticFilePath_eq : (s.setRequest cwd req).staticFilePath =
    cString cwd ++ text "/resources" ++ [SLASH] := by
  rw [List.append_assoc]
  rfl

/-- The name that `stat` and `open` get is in the directory as far as its bytes go. -/
theorem file_eq (path : List Byte) : file { s.setRequest cwd req with path_ := path } =
    cString cwd ++ text "/resources" ++ [SLASH] ++ cString path := by
  have hzero : (0 : Byte) ∉ (s.setRequest cwd req).staticFilePath := by
    intro h
    rcases List.mem_append.mp h with h | h
    · exact zero_not_mem_cString cwd h
    · revert h
      decide
  rw [← staticFilePath_eq cwd s req]
  exact cString_append hzero path

/-- The path, up to a 0 in it, comes back by every directory that it climbs over. -/
def Stays (directory path : List Byte) : Prop :=
  (normalise directory).take (Route.ofSegs (segments (cString path))).climb <:+
    (Route.ofSegs (segments (cString path))).names

theorem inside_file_iff (path : List Byte) :
    Inside (s.setRequest cwd req).staticFilePath (file { s.setRequest cwd req with path_ := path }) ↔
      Stays (s.setRequest cwd req).staticFilePath path := by
  rw [file_eq, staticFilePath_eq]
  exact inside_append_iff _ _

/-- An error page is in the directory. -/
theorem stays_errorPage (directory : List Byte) {code : HttpStatusCode} {path : List Byte}
    (h : CODE_PATH code = some path) : Stays directory path := by
  have hclimb : (Route.ofSegs (segments (cString path))).climb = 0 := by
    cases code with
    | kUnknown => cases h
    | k200Ok => cases h
    | k400BadRequest =>
      cases h
      decide +kernel
    | kForbidden =>
      cases h
      decide +kernel
    | k404NotFound =>
      cases h
      decide +kernel
  rw [Stays, hclimb, List.take_zero]
  exact List.nil_suffix

/-- `stat` finds a file that others may read: it is served under the status 200. -/
def Found (file : List Byte) : Prop :=
  ∃ f, fs file = some f ∧ f.directory = false ∧ f.othersRead = true

theorem checkFile_found {s : HttpServerTest} (h : Found fs s.file) (close : Bool) :
    (checkFile fs s (.new close)).code_ = .k200Ok := by
  obtain ⟨f, hf, hdir, hread⟩ := h
  simp [checkFile, hf, hdir, hread, HttpResponseTest.new]

theorem checkFile_not_found {s : HttpServerTest} (h : ¬ Found fs s.file) (close : Bool) :
    ∃ path, CODE_PATH (checkFile fs s (.new close)).code_ = some path := by
  rw [checkFile]
  cases hf : fs s.file with
  | none => exact ⟨_, rfl⟩
  | some f =>
    dsimp only
    split_ifs with hdir hread
    · exact ⟨_, rfl⟩
    · exact ⟨_, rfl⟩
    all_goals
      refine absurd ⟨f, hf, ?_, ?_⟩ h
      · simpa using hdir
      · simpa using hread

/-- The file that `addResponseContent_` opens is in the directory of the server, exactly when
the path of the request does not lead out of it, or `stat` finds no file there that others may
read, so that an error page is opened instead. -/
theorem opened_inside_iff (close : Bool) :
    Inside (s.setRequest cwd req).staticFilePath
        (makeHead fs (s.setRequest cwd req) (.new close)).1.file ↔
      Stays (s.setRequest cwd req).staticFilePath req.path_ ∨
        ¬ Found fs (s.setRequest cwd req).file := by
  by_cases hfound : Found fs (s.setRequest cwd req).file
  · have hcode := checkFile_found fs (s := stat fs (s.setRequest cwd req)) hfound close
    have hfile : (makeHead fs (s.setRequest cwd req) (.new close)).1.file =
        file { s.setRequest cwd req with path_ := req.path_ } := by
      simp only [makeHead, errorHTML_, hcode, CODE_PATH]
      rfl
    rw [hfile, inside_file_iff]
    exact (or_iff_left (not_not.mpr hfound)).symm
  · obtain ⟨path, hpath⟩ :=
      checkFile_not_found fs (s := stat fs (s.setRequest cwd req)) hfound close
    have hfile : (makeHead fs (s.setRequest cwd req) (.new close)).1.file =
        file { s.setRequest cwd req with path_ := path } := by
      simp only [makeHead, errorHTML_, hpath]
      rfl
    rw [hfile, inside_file_iff]
    exact iff_of_true (stays_errorPage _ hpath) (Or.inr hfound)

/-- One file besides the server's directory. -/
def passwd : FileSystem := fun file =>
  if file = text "/srv/resources//../../etc/passwd" then some ⟨false, text "root", true, true⟩
  else none

/-- The path comes from the request line as it is, and the file is served. -/
theorem passwd_served : ∃ c r,
    ((HttpContext.new.parseRequestLine_ (text "GET /../../etc/passwd HTTP/1.1")).map
      HttpContext.parsePath_) = some c ∧
    ¬ Inside (setRequest ⟨[], [], none⟩ (text "/srv") c.request_).staticFilePath
      (makeHead passwd (setRequest ⟨[], [], none⟩ (text "/srv") c.request_) (.new false)).1.file ∧
    onRequest passwd (text "/srv") ⟨[], [], none⟩ c.request_ (.new false) = some r ∧
    r.code_ = .k200Ok ∧ r.body_ = text "root" := by
  have hrun : (((HttpContext.new.parseRequestLine_ (text "GET /../../etc/passwd HTTP/1.1")).map
      HttpContext.parsePath_).any fun c =>
    decide (¬ Inside (setRequest ⟨[], [], none⟩ (text "/srv") c.request_).staticFilePath
      (makeHead passwd (setRequest ⟨[], [], none⟩ (text "/srv") c.request_) (.new false)).1.file) &&
    (onRequest passwd (text "/srv") ⟨[], [], none⟩ c.request_ (.new false)).any fun r =>
      decide (r.code_ = .k200Ok ∧ r.body_ = text "root")) = true := by
    decide +kernel
  simp only [Option.any_eq_true, Bool.and_eq_true, decide_eq_true_eq] at hrun
  obtain ⟨c, hc, hout, r, hr, hcode, hbody⟩ := hrun
  exact ⟨c, r, hc, hout, hr, hcode, hbody⟩

end HttpServerTest

end Mymuduo.Http
