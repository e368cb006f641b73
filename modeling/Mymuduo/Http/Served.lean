import Mymuduo.Http.StaticFiles

namespace Mymuduo.Http

open Lib Net

/-- The first four bytes are those of the `int` -1. -/
def LooksFailed (content : List Byte) : Prop := [255, 255, 255, 255] <+: content

instance (content : List Byte) : Decidable (LooksFailed content) :=
  inferInstanceAs (Decidable (_ <+: _))

namespace HttpServerTest

/-- The file can be mapped, and the mapping is not taken for a failed one. -/
def Shown (fs : FileSystem) (file : List Byte) : Prop :=
  ∃ f, fs file = some f ∧ f.opens = true ∧ f.directory = false ∧ f.content ≠ [] ∧
    ¬ LooksFailed f.content

/-- No file is opened, or its mapping is taken for a failed one. -/
def Refused (fs : FileSystem) (file : List Byte) : Prop :=
  (∀ f, fs file = some f → f.opens = false) ∨
    ∃ f, fs file = some f ∧ f.opens = true ∧ f.directory = false ∧ LooksFailed f.content

/-- The file is there, but others may not read it. -/
def Unreadable (fs : FileSystem) (file : List Byte) : Prop :=
  ∃ f, fs file = some f ∧ f.directory = false ∧ f.othersRead = false

/-- Nothing is there, or a directory. -/
def Missing (fs : FileSystem) (file : List Byte) : Prop :=
  ∀ f, fs file = some f → f.directory = true

/-- The response with a file in it. -/
def show200 (r : HttpResponseTest) (content : List Byte) : HttpResponseTest :=
  { (({ r with code_ := .k200Ok }).addHeader_ (text "Server") (text "mymuduo")) with
    body_ := content }

variable {fs : FileSystem} {s : HttpServerTest} {r : HttpResponseTest} {f : FileEntry}

/-- Every request gives one of three states of the file. -/
theorem file_cases (fs : FileSystem) (file : List Byte) :
    Found fs file ∨ Unreadable fs file ∨ Missing fs file := by
  cases hf : fs file with
  | none =>
    right
    right
    intro f h
    rw [hf] at h
    cases h
  | some f =>
    cases hdir : f.directory with
    | true =>
      right
      right
      intro g h
      rw [hf] at h
      rw [← Option.some.inj h]
      exact hdir
    | false =>
      cases hread : f.othersRead with
      | true => exact Or.inl ⟨f, hf, hdir, hread⟩
      | false => exact Or.inr (Or.inl ⟨f, hf, hdir, hread⟩)

/-- What becomes of a file whose size has been asked for just before. -/
theorem addResponseContent_stat (fs : FileSystem) (s : HttpServerTest) (r : HttpResponseTest) :
    addResponseContent_ fs (stat fs s) r =
      match (fs s.file).filter FileEntry.opens with
      | none => some (errorContent r (text "File NotFound!"))
      | some f =>
        if f.directory = true ∨ f.content = [] then none
        else if LooksFailed f.content then some (errorContent r (text "File NotFound!"))
        else some (show200 r f.content) := by
  have hfile : (stat fs s).file = s.file := rfl
  rw [addResponseContent_, hfile]
  cases hopen : (fs s.file).filter FileEntry.opens with
  | none => rfl
  | some f =>
    have hf : fs s.file = some f := (Option.filter_eq_some_iff.mp hopen).1
    have hsize : (stat fs s).mmFileStat_.elim 0 (·.content.length) = f.content.length := by
      rw [stat, hf]
      rfl
    have hmap : f.mmap f.content.length =
        if f.directory = true ∨ f.content = [] then none else some f.content := by
      simp only [FileEntry.mmap, List.length_eq_zero_iff, List.take_length]
    simp only [hsize, hmap]
    by_cases hfail : f.directory = true ∨ f.content = []
    · rw [if_pos hfail, if_pos hfail]
    · rw [if_neg hfail, if_neg hfail]
      rfl

theorem Shown.not_refused {file : List Byte} (h : Shown fs file) : ¬ Refused fs file := by
  obtain ⟨f, hf, hopens, -, -, hlooks⟩ := h
  rintro (hnone | ⟨g, hg, -, -, hfailed⟩)
  · rw [hnone f hf] at hopens
    cases hopens
  · rw [Option.some.inj (hg.symm.trans hf)] at hfailed
    exact hlooks hfailed

/-- A file is shown, or the text of an error is, or the process ends. -/
theorem content_cases (fs : FileSystem) (s : HttpServerTest) (r : HttpResponseTest) :
    (Shown fs s.file ∧ ∃ f, fs s.file = some f ∧ f.opens = true ∧
      addResponseContent_ fs (stat fs s) r = some (show200 r f.content)) ∨
    (Refused fs s.file ∧
      addResponseContent_ fs (stat fs s) r = some (errorContent r (text "File NotFound!"))) ∨
    (¬ Shown fs s.file ∧ ¬ Refused fs s.file ∧ addResponseContent_ fs (stat fs s) r = none) := by
  rw [addResponseContent_stat]
  cases hopen : (fs s.file).filter FileEntry.opens with
  | none =>
    right
    left
    refine ⟨Or.inl ?_, rfl⟩
    intro f hf
    have hnot := Option.filter_eq_none_iff.mp hopen f hf
    simpa using hnot
  | some f =>
    obtain ⟨hf, hopens⟩ := Option.filter_eq_some_iff.mp hopen
    simp only
    split_ifs with hfail hlooks
    · right
      right
      refine ⟨?_, ?_, rfl⟩
      · intro hx
        obtain ⟨g, hg, -, hdir, hne, -⟩ := hx
        obtain rfl : f = g := Option.some.inj (hf.symm.trans hg)
        rcases hfail with hfail | hfail
        · rw [hfail] at hdir
          cases hdir
        · exact hne hfail
      · rintro (hnone | ⟨g, hg, -, hdir, hfailed⟩)
        · rw [hnone f hf] at hopens
          cases hopens
        · obtain rfl : f = g := Option.some.inj (hf.symm.trans hg)
          rcases hfail with hfail | hfail
          · rw [hfail] at hdir
            cases hdir
          · rw [hfail] at hfailed
            exact absurd hfailed (by decide)
    · rw [not_or, Bool.not_eq_true] at hfail
      exact Or.inr (Or.inl ⟨Or.inr ⟨f, hf, hopens, hfail.1, hlooks⟩, rfl⟩)
    · rw [not_or, Bool.not_eq_true] at hfail
      exact Or.inl ⟨⟨f, hf, hopens, hfail.1, hfail.2, hlooks⟩, f, hf, hopens, rfl⟩

/-- The server once it has turned to an error page. -/
def errorServer (s : HttpServerTest) (page : List Byte) (old : Option FileEntry) : HttpServerTest :=
  { s with path_ := page, mmFileStat_ := old }

/-- The text of an error is not taken for a failed mapping. -/
theorem errorContent_looks (r : HttpResponseTest) (message : List Byte) :
    ¬ LooksFailed (errorContent r message).body_ := by
  have hhead : (errorContent r message).body_.head? = some 60 := rfl
  intro hx
  obtain ⟨rest, hrest⟩ := hx
  rw [← hrest] at hhead
  cases hhead

/-- A found file is opened under the status 200. -/
theorem makeResponse_found (h : Found fs s.file) (close : Bool) :
    ∃ r, r.code_ = .k200Ok ∧ r.statusMessage_ = text "OK" ∧
      makeResponse fs s (.new close) = addResponseContent_ fs (stat fs s) r := by
  have hcode := checkFile_found fs (s := stat fs s) h close
  refine ⟨(makeHead fs s (.new close)).2, ?_, ?_, ?_⟩
  · simp only [makeHead, addStateLine_, hcode, CODE_STATUS]
    rfl
  · simp only [makeHead, addStateLine_, hcode, CODE_STATUS]
    rfl
  · have hserver : (makeHead fs s (.new close)).1 = stat fs s := by
      simp only [makeHead, errorHTML_, hcode, CODE_PATH]
    rw [makeResponse, ← hserver]

/-- Otherwise the page of the error is opened under the status of the error. -/
theorem makeResponse_error {code : HttpStatusCode} {status page : List Byte} {close : Bool}
    (hcode : (checkFile fs (stat fs s) (.new close)).code_ = code)
    (hstatus : CODE_STATUS code = some status) (hpage : CODE_PATH code = some page) :
    ∃ r, r.code_ = code ∧ r.statusMessage_ = status ∧ makeResponse fs s (.new close) =
      addResponseContent_ fs (stat fs (errorServer s page (stat fs s).mmFileStat_)) r := by
  refine ⟨(makeHead fs s (.new close)).2, ?_, ?_, ?_⟩
  · simp only [makeHead, addStateLine_, hcode, hstatus]
    rfl
  · simp only [makeHead, addStateLine_, hcode, hstatus]
    rfl
  · have hserver : (makeHead fs s (.new close)).1 =
        stat fs (errorServer s page (stat fs s).mmFileStat_) := by
      simp only [makeHead, errorHTML_, hcode, hpage]
      rfl
    rw [makeResponse, ← hserver]

theorem checkFile_missing (h : Missing fs s.file) (close : Bool) :
    (checkFile fs (stat fs s) (.new close)).code_ = .k404NotFound := by
  have hfile : (stat fs s).file = s.file := rfl
  rw [checkFile, hfile]
  cases hf : fs s.file with
  | none => rfl
  | some f => simp only [h f hf, if_true]

theorem checkFile_unreadable (h : Unreadable fs s.file) (close : Bool) :
    (checkFile fs (stat fs s) (.new close)).code_ = .kForbidden := by
  have hfile : (stat fs s).file = s.file := rfl
  obtain ⟨f, hf, hdir, hread⟩ := h
  rw [checkFile, hfile, hf]
  simp only [hdir, hread, Bool.false_eq_true, if_false, Bool.not_false, if_true]

/-- The path of a page in the directory of the server. -/
def pageFile (s : HttpServerTest) (page : List Byte) : List Byte := cString (s.staticFilePath ++ page)

/-- The status says what became of the request. -/
structure StatusRight (fs : FileSystem) (s : HttpServerTest) (r : HttpResponseTest) : Prop where
  paired : CODE_STATUS r.code_ = some r.statusMessage_
  missing : Missing fs s.file → r.code_ = .k404NotFound
  unreadable : Unreadable fs s.file → r.code_ = .kForbidden
  served : r.code_ = .k200Ok → ∃ f, fs s.file = some f ∧ f.directory = false ∧
    f.othersRead = true ∧ f.opens = true ∧ r.body_ = f.content

/-- Where the code does it right: a file that is shown itself, or an error whose page is not. -/
def Clear (fs : FileSystem) (s : HttpServerTest) : Prop :=
  Found fs s.file ∧ Shown fs s.file ∨
    Unreadable fs s.file ∧ Refused fs (s.pageFile (text "/403.html")) ∨
    Missing fs s.file ∧ Refused fs (s.pageFile (text "/404.html"))

theorem found_right_iff (h : Found fs s.file) (close : Bool) :
    (∃ r, makeResponse fs s (.new close) = some r ∧ StatusRight fs s r) ↔ Shown fs s.file := by
  obtain ⟨r, hcode, hmessage, heq⟩ := makeResponse_found h close
  obtain ⟨f, hf, hdir, hread⟩ := h
  rw [heq]
  rcases content_cases fs s r with ⟨hshown, g, hg, hopens, hr⟩ | ⟨hrefused, hr⟩ | ⟨hshown, -, hr⟩
  · apply iff_of_true _ hshown
    obtain rfl : f = g := Option.some.inj (hf.symm.trans hg)
    refine ⟨show200 r f.content, hr, ?_, ?_, ?_, ?_⟩
    · rw [show200, hmessage]
      rfl
    · intro hmissing
      rw [hmissing f hf] at hdir
      cases hdir
    · intro hx
      obtain ⟨g, hg, -, hgread⟩ := hx
      rw [Option.some.inj (hf.symm.trans hg), hgread] at hread
      cases hread
    · intro _
      exact ⟨f, hf, hdir, hread, hopens, rfl⟩
  · apply iff_of_false _ fun hshown => hshown.not_refused hrefused
    intro hx
    obtain ⟨r', hr', hright⟩ := hx
    rw [hr] at hr'
    rw [← Option.some.inj hr'] at hright
    obtain ⟨g, hg, -, -, hopens, hbody⟩ := hright.served hcode
    rcases hrefused with hnone | ⟨g', hg', -, -, hlooks⟩
    · rw [hnone g hg] at hopens
      cases hopens
    · rw [Option.some.inj (hg'.symm.trans hg), ← hbody] at hlooks
      exact errorContent_looks _ _ hlooks
  · apply iff_of_false _ hshown
    intro hx
    obtain ⟨r', hr', -⟩ := hx
    rw [hr] at hr'
    cases hr'

/-- An error has its own status unless its page is shown. -/
theorem error_right_iff {code : HttpStatusCode} {status page : List Byte} {close : Bool}
    (hcode : (checkFile fs (stat fs s) (.new close)).code_ = code) (hne : code ≠ .k200Ok)
    (hstatus : CODE_STATUS code = some status) (hpage : CODE_PATH code = some page)
    (hright : ∀ r, StatusRight fs s r ↔ r.code_ = code ∧ r.statusMessage_ = status) :
    (∃ r, makeResponse fs s (.new close) = some r ∧ StatusRight fs s r) ↔
      Refused fs (s.pageFile page) := by
  obtain ⟨r, hrcode, hmessage, heq⟩ := makeResponse_error hcode hstatus hpage
  have hfile : (errorServer s page (stat fs s).mmFileStat_).file = s.pageFile page := rfl
  rw [heq, ← hfile]
  rcases content_cases fs (errorServer s page (stat fs s).mmFileStat_) r with
    ⟨hshown, f, -, -, hr⟩ | ⟨hrefused, hr⟩ | ⟨-, hrefused, hr⟩
  · apply iff_of_false _ hshown.not_refused
    intro hx
    obtain ⟨r', hr', hright'⟩ := hx
    rw [hr] at hr'
    rw [← Option.some.inj hr'] at hright'
    exact hne ((hright _).mp hright').1.symm
  · exact iff_of_true ⟨_, hr, (hright _).mpr ⟨hrcode, hmessage⟩⟩ hrefused
  · apply iff_of_false _ hrefused
    intro hx
    obtain ⟨r', hr', -⟩ := hx
    rw [hr] at hr'
    cases hr'

theorem Missing.not_found {file : List Byte} (h : Missing fs file) : ¬ Found fs file := by
  intro hx
  obtain ⟨f, hf, hdir, -⟩ := hx
  rw [h f hf] at hdir
  cases hdir

theorem Missing.not_unreadable {file : List Byte} (h : Missing fs file) : ¬ Unreadable fs file := by
  intro hx
  obtain ⟨f, hf, hdir, -⟩ := hx
  rw [h f hf] at hdir
  cases hdir

theorem Unreadable.not_found {file : List Byte} (h : Unreadable fs file) : ¬ Found fs file := by
  obtain ⟨f, hf, -, hread⟩ := h
  intro hx
  obtain ⟨g, hg, -, hgread⟩ := hx
  rw [Option.some.inj (hg.symm.trans hf), hread] at hgread
  cases hgread

/-- Where the file decides for one code of an error, only the code and its message count. -/
theorem statusRight_iff {code : HttpStatusCode} {status : List Byte}
    (hstatus : CODE_STATUS code = some status) (hne : code ≠ .k200Ok)
    (hmissing : Missing fs s.file → code = .k404NotFound)
    (hunreadable : Unreadable fs s.file → code = .kForbidden)
    (hcode : ∀ r, StatusRight fs s r → r.code_ = code) (r : HttpResponseTest) :
    StatusRight fs s r ↔ r.code_ = code ∧ r.statusMessage_ = status := by
  constructor
  · intro hright
    have hpaired := hright.paired
    rw [hcode r hright, hstatus] at hpaired
    exact ⟨hcode r hright, (Option.some.inj hpaired).symm⟩
  · rintro ⟨rfl, rfl⟩
    exact ⟨hstatus, hmissing, hunreadable, fun h200 => absurd h200 hne⟩

theorem missing_right_iff (h : Missing fs s.file) (r : HttpResponseTest) :
    StatusRight fs s r ↔ r.code_ = .k404NotFound ∧ r.statusMessage_ = text "Not Found" := by
  apply statusRight_iff rfl (by decide)
  · intro _
    rfl
  · intro hun
    exact absurd hun h.not_unreadable
  · intro r hright
    exact hright.missing h

theorem unreadable_right_iff (h : Unreadable fs s.file) (r : HttpResponseTest) :
    StatusRight fs s r ↔ r.code_ = .kForbidden ∧ r.statusMessage_ = text "Forbidden" := by
  apply statusRight_iff rfl (by decide)
  · intro hmissing
    exact absurd h hmissing.not_unreadable
  · intro _
    rfl
  · intro r hright
    exact hright.unreadable h

/-- The status is right exactly when the requested file itself is shown, or the page of the
error is not. -/
theorem makeResponse_status_iff (fs : FileSystem) (s : HttpServerTest) (close : Bool) :
    (∃ r, makeResponse fs s (.new close) = some r ∧ StatusRight fs s r) ↔ Clear fs s := by
  rw [Clear]
  rcases file_cases fs s.file with hfound | hun | hmissing
  · rw [found_right_iff hfound close]
    have hun : ¬ Unreadable fs s.file := fun hun => hun.not_found hfound
    have hmissing : ¬ Missing fs s.file := fun hmissing => hmissing.not_found hfound
    simp only [hfound, hun, hmissing, true_and, false_and, or_false]
  · rw [error_right_iff (checkFile_unreadable hun close) (by decide) rfl rfl
      (unreadable_right_iff hun)]
    have hmissing : ¬ Missing fs s.file := fun hmissing => hmissing.not_unreadable hun
    simp only [hun.not_found, hun, hmissing, true_and, false_and, or_false, false_or]
  · rw [error_right_iff (checkFile_missing hmissing close) (by decide) rfl rfl
      (missing_right_iff hmissing)]
    simp only [hmissing.not_found, hmissing.not_unreadable, hmissing, true_and, false_and, false_or]

/-- A server with nothing but a page for files that are not there. -/
def onlyPage : FileSystem := fun file =>
  if file = text "/srv/resources//404.html" then some ⟨false, text "gone", true, true⟩ else none

def askNothing : HttpServerTest := ⟨text "/nothing", text "/srv/resources/", none⟩

/-- The page comes under the status 200, with the message of 404. -/
theorem onlyPage_ok : (∃ r, makeResponse onlyPage askNothing (.new false) = some r ∧
    Missing onlyPage askNothing.file ∧ r.code_ = .k200Ok ∧ r.statusMessage_ = text "Not Found") ∧
    ¬ ∀ (fs : FileSystem) (s : HttpServerTest) (close : Bool),
      ∃ r, makeResponse fs s (.new close) = some r ∧ StatusRight fs s r := by
  have hrun : (makeResponse onlyPage askNothing (.new false)).map
      (fun r => (r.code_, r.statusMessage_)) = some (.k200Ok, text "Not Found") := by decide +kernel
  have hmissing : Missing onlyPage askNothing.file := by
    have hnone : (onlyPage askNothing.file).isNone = true := by decide +kernel
    intro f hf
    rw [hf] at hnone
    cases hnone
  obtain ⟨r, hr, hpair⟩ := Option.map_eq_some_iff.mp hrun
  obtain ⟨hcode, hmessage⟩ := Prod.mk.inj hpair
  refine ⟨⟨r, hr, hmissing, hcode, hmessage⟩, ?_⟩
  intro h
  obtain ⟨r', hr', hright⟩ := h onlyPage askNothing false
  rw [hr] at hr'
  rw [← Option.some.inj hr'] at hright
  rw [hright.missing hmissing] at hcode
  cases hcode

/-- A file that others may read is sent as it is exactly when it is not empty and does not begin
with the bytes of -1. -/
theorem body_eq_content_iff (h : fs s.file = some f) (hdir : f.directory = false)
    (hread : f.othersRead = true) (hopens : f.opens = true) (close : Bool) :
    (∃ r, makeResponse fs s (.new close) = some r ∧ r.body_ = f.content) ↔
      f.content ≠ [] ∧ ¬ LooksFailed f.content := by
  have hshown : Shown fs s.file ↔ f.content ≠ [] ∧ ¬ LooksFailed f.content := by
    constructor
    · intro hx
      obtain ⟨g, hg, -, -, hne, hlooks⟩ := hx
      rw [Option.some.inj (h.symm.trans hg)]
      exact ⟨hne, hlooks⟩
    · intro hx
      obtain ⟨hne, hlooks⟩ := hx
      exact ⟨f, h, hopens, hdir, hne, hlooks⟩
  obtain ⟨r, -, -, heq⟩ := makeResponse_found ⟨f, h, hdir, hread⟩ close
  rw [heq, ← hshown]
  rcases content_cases fs s r with ⟨hshow, g, hg, -, hr⟩ | ⟨hrefused, hr⟩ | ⟨hshow, -, hr⟩
  · refine iff_of_true ⟨_, hr, ?_⟩ hshow
    rw [Option.some.inj (h.symm.trans hg)]
    rfl
  · apply iff_of_false _ fun hshow => hshow.not_refused hrefused
    intro hx
    obtain ⟨r', hr', hbody⟩ := hx
    rw [hr] at hr'
    rcases hrefused with hnone | ⟨g, hg, -, -, hlooks⟩
    · rw [hnone f h] at hopens
      cases hopens
    · rw [Option.some.inj (hg.symm.trans h), ← hbody, ← Option.some.inj hr'] at hlooks
      exact errorContent_looks _ _ hlooks
  · apply iff_of_false _ hshow
    intro hx
    obtain ⟨r', hr', -⟩ := hx
    rw [hr] at hr'
    cases hr'

/-- A server with one file. -/
def oneFile (content : List Byte) : FileSystem := fun file =>
  if file = text "/srv/resources//a.txt" then some ⟨false, content, true, true⟩ else none

def askFile : HttpServerTest := ⟨text "/a.txt", text "/srv/resources/", none⟩

theorem oneFile_file (content : List Byte) :
    oneFile content askFile.file = some ⟨false, content, true, true⟩ :=
  if_pos (by decide +kernel)

theorem oneFile_sent : oneFile (text "hi") askFile.file = some ⟨false, text "hi", true, true⟩ ∧
    ∃ r, makeResponse (oneFile (text "hi")) askFile (.new false) = some r ∧ r.body_ = text "hi" :=
  ⟨oneFile_file _, (body_eq_content_iff (oneFile_file _) rfl rfl rfl false).mpr
    ⟨by decide, by decide⟩⟩

/-- The mapping of an empty file fails, and its first bytes are read all the same. -/
theorem empty_file_not_sent : makeResponse (oneFile []) askFile (.new false) = none ∧
    ¬ ∀ (fs : FileSystem) (s : HttpServerTest) (f : FileEntry) (close : Bool),
      fs s.file = some f → f.directory = false → f.othersRead = true → f.opens = true →
        ∃ r, makeResponse fs s (.new close) = some r ∧ r.body_ = f.content := by
  have hnone : makeResponse (oneFile []) askFile (.new false) = none := by
    have hrun : (makeResponse (oneFile []) askFile (.new false)).isNone = true := by decide +kernel
    exact Option.isNone_iff_eq_none.mp hrun
  refine ⟨hnone, ?_⟩
  intro h
  obtain ⟨r, hr, -⟩ := h (oneFile []) askFile _ false (oneFile_file []) rfl rfl rfl
  rw [hnone] at hr
  cases hr

end HttpServerTest

end Mymuduo.Http
