import LinuxSystemLearning.Cxx.Text
import LinuxSystemLearning.Library.LexicalPath

/-!
# The files the HTTP server reads

`HttpRequest::Deserialize` takes the second word of the request line, puts `webroot` in
front of it as it is and cuts it at the first `?`.  Without a `?` the result is the name
of the file that `HttpResponse::MakeResponse` reads.

`reads` collects the names given to `Util::ReadFileContent`.
-/

set_option autoImplicit false

namespace LinuxSystemLearning.HttpServer

open LinuxSystemLearning.Cxx
open LinuxSystemLearning.LexicalPath

/-! ## The request -/

def gline : Bytes := [13, 10]
def webroot : Bytes := ascii "./wwwroot"
def homepage : Bytes := ascii "index.html"
def page404 : Bytes := ascii "/404.html"

/-- `Util::ReadOneLine`: the line, and what is left of the text. -/
def readOneLine (bigstr separator : Bytes) : Option (Bytes × Bytes) :=
  match find separator bigstr with
  | none => none
  | some pos => some (bigstr.take pos, bigstr.drop (pos + separator.length))

structure HttpRequest where
  method : Bytes
  uri : Bytes
  version : Bytes
  args : Bytes
  isInteract : Bool

def parseReqLine (reqline : Bytes) : HttpRequest :=
  let (method, rest) := extract reqline
  let (uri, rest) := extract rest
  let (version, _) := extract rest
  ⟨method, uri, version, [], false⟩

/-- The file name a URI stands for. -/
def withRoot (uri : Bytes) : Bytes :=
  if uri = ascii "/" then webroot ++ uri ++ homepage else webroot ++ uri

def cutArgs (request : HttpRequest) : HttpRequest :=
  match find (ascii "?") request.uri with
  | none => request
  | some pos => { request with
      uri := substr request.uri 0 pos
      args := request.uri.drop (pos + 1)
      isInteract := true }

/-- The line `ReadOneLine` leaves in `reqline`. -/
def requestLine (reqstr : Bytes) : Bytes :=
  match readOneLine reqstr gline with
  | none => []
  | some (line, _) => line

def deserialize (reqstr : Bytes) : HttpRequest :=
  let request := parseReqLine (requestLine reqstr)
  cutArgs { request with uri := withRoot request.uri }

/-! ## The response -/

abbrev Files := Bytes → Option Bytes

def fileSize (files : Files) (filename : Bytes) : Int :=
  match files filename with
  | none => -1
  | some content => toInt content.length

/-- `Util::ReadFileContent`: the content, or the return of false. -/
def readFileContent (files : Files) (filename : Bytes) : Option Bytes :=
  if 0 < fileSize files filename then
    (files filename).map (List.take (fileSize files filename).toNat)
  else none

structure HttpResponse where
  code : Option Nat
  desc : Bytes
  headers : List (Bytes × Bytes)
  text : Bytes
  targetfile : Bytes

def HttpResponse.new : HttpResponse := ⟨none, [], [], [], []⟩

def setCode (code : Nat) (response : HttpResponse) : HttpResponse :=
  let desc := match code with
    | 200 => ascii "ok"
    | 404 => ascii "Not Found"
    | 302 => ascii "See Other"
    | 301 => ascii "Moved Permanently"
    | _ => response.desc
  { response with code := some code, desc := desc }

/-- A header that is set stays as it is. -/
def setHeader (key value : Bytes) (response : HttpResponse) : HttpResponse :=
  match response.headers.lookup key with
  | some _ => response
  | none => { response with headers := response.headers ++ [(key, value)] }

def fromLastDot (text : Bytes) : Option Bytes :=
  if 46 ∈ text then some (46 :: (text.reverse.takeWhile (· ≠ 46)).reverse) else none

def uri2Suffix (targetfile : Bytes) : Bytes :=
  match fromLastDot targetfile with
  | none => ascii "text/html"
  | some suffix =>
      if suffix = ascii ".html" ∨ suffix = ascii ".htm" then ascii "text/html"
      else if suffix = ascii ".jpg" then ascii "image/jpeg"
      else if suffix = ascii ".png" then ascii "image/png"
      else []

def intToString (value : Int) : Bytes :=
  if value < 0 then ascii "-" ++ stdToString value.natAbs else stdToString value.natAbs

theorem intToString_natCast (value : Nat) : intToString value = stdToString value := by
  rw [intToString, if_neg (by omega), Int.natAbs_natCast]

theorem mem_intToString {value : Int} {byte : UInt8} (member : byte ∈ intToString value) :
    byte = 45 ∨ isdigit byte = true := by
  unfold intToString at member
  split at member
  · rcases List.mem_append.mp member with sign | digit
    · exact Or.inl (List.mem_singleton.mp sign)
    · exact Or.inr (isdigit_of_mem_stdToString digit)
  · exact Or.inr (isdigit_of_mem_stdToString member)

theorem minus_mem_intToString {value : Int} : 45 ∈ intToString value ↔ value < 0 := by
  unfold intToString
  split
  · rename_i negative
    exact ⟨fun _ => negative, fun _ => List.mem_append_left _ (by decide)⟩
  · rename_i nonneg
    constructor
    · intro member
      exact absurd (isdigit_of_mem_stdToString member) (by decide)
    · intro negative
      exact absurd negative nonneg

theorem intToString_injective : Function.Injective intToString := by
  intro one two same
  have sign : one < 0 ↔ two < 0 := by
    rw [← minus_mem_intToString, same, minus_mem_intToString]
  unfold intToString at same
  by_cases negative : two < 0
  · rw [if_pos (sign.mpr negative), if_pos negative] at same
    have size := stdToString_injective (List.append_cancel_left same)
    omega
  · rw [if_neg (sign.not.mpr negative), if_neg negative] at same
    have size := stdToString_injective same
    omega

def setFileHeaders (files : Files) (response : HttpResponse) : HttpResponse :=
  setHeader (ascii "Content-Length") (intToString (fileSize files response.targetfile))
    (setHeader (ascii "Content-Type") (uri2Suffix response.targetfile) response)

/-- What a call leaves behind: the response to send, if any, and the files read. -/
structure Outcome where
  response : Option HttpResponse
  reads : List Bytes

def makeResponse (files : Files) (response : HttpResponse) : Outcome :=
  let target := response.targetfile
  if target = ascii "./wwwroot/favicon.ico" then ⟨none, []⟩
  else if target = ascii "./wwwroot/redir_test" then
    ⟨some (setHeader (ascii "Location") (ascii "https://www.qq.com")
      (setCode 302 response)), []⟩
  else match readFileContent files target with
    | none =>
        let page := webroot ++ page404
        let text := (readFileContent files page).getD []
        ⟨some (setFileHeaders files
          { setCode 404 response with text := text, targetfile := page }), [target, page]⟩
    | some text => ⟨some (setFileHeaders files { setCode 200 response with text := text }),
        [target]⟩

/-- `_route`: the services by file name. -/
abbrev Route := List (Bytes × (HttpRequest → HttpResponse → HttpResponse))

/-- `HandlerHttpRequest` behind a successful `Recv`. -/
def handlerHttpRequest (files : Files) (route : Route) (httpbuffer : Bytes) : Outcome :=
  let request := deserialize httpbuffer
  if request.isInteract then
    match route.lookup request.uri with
    | none => ⟨none, []⟩
    | some service => ⟨some (service request .new), []⟩
  else makeResponse files { HttpResponse.new with targetfile := request.uri }

/-! ## Where a file is -/

/-- A component that is empty or a dot leads nowhere. -/
def component (part : Bytes) : Option (Component Bytes) :=
  if part = [] ∨ part = ascii "." then none
  else if part = ascii ".." then some .up
  else some (.name part)

def components (path : Bytes) : List (Component Bytes) :=
  (path.splitOn 47).filterMap component

/-- Resolved by its text, the path is the web root or below it. -/
def InsideRoot (path : Bytes) : Prop :=
  (resolve here (components path)).Within (resolve here (components webroot))

instance (path : Bytes) : Decidable (InsideRoot path) :=
  inferInstanceAs (Decidable (Place.Within _ _))

def requestUri (httpbuffer : Bytes) : Bytes := (parseReqLine (requestLine httpbuffer)).uri

/-- The path comes by `wwwroot` at the level it starts from, and behind that has never
more `..` than names. -/
def PassesRoot (path : Bytes) : Prop :=
  ∃ front back, components path = front ++ .name (ascii "wwwroot") :: back ∧
    Level front ∧ NeverAbove back

theorem insideRoot_iff {path : Bytes} : InsideRoot path ↔ PassesRoot path := by
  have root : resolve here (components webroot) = ⟨0, [ascii "wwwroot"]⟩ := by decide
  rw [InsideRoot, root]
  exact within_iff

/-! ## The files of a request -/

theorem find_byte_eq_none {byte : UInt8} {text : Bytes} :
    find [byte] text = none ↔ byte ∉ text := by
  induction text with
  | nil => simp [find]
  | cons head text ih =>
      rw [find]
      by_cases same : byte = head
      · simp [same]
      · simp [same, ih]

/-- The prefix and the name of the home page have no question mark. -/
theorem question_mem_withRoot {uri : Bytes} : 63 ∈ withRoot uri ↔ 63 ∈ uri := by
  have root : (63 : UInt8) ∉ webroot := by decide
  unfold withRoot
  split
  · rename_i slash
    rw [slash]
    decide
  · rw [List.mem_append]
    exact ⟨fun either => either.resolve_left root, .inr⟩

theorem cutArgs_plain {request : HttpRequest} (plain : 63 ∉ request.uri) :
    cutArgs request = request := by
  have absent : find (ascii "?") request.uri = none := find_byte_eq_none.mpr plain
  rw [cutArgs, absent]

theorem deserialize_question {reqstr : Bytes} (question : 63 ∈ requestUri reqstr) :
    (deserialize reqstr).isInteract = true := by
  rw [← question_mem_withRoot] at question
  show (cutArgs { parseReqLine (requestLine reqstr) with
    uri := withRoot (requestUri reqstr) }).isInteract = true
  unfold cutArgs
  dsimp only
  cases found : find (ascii "?") (withRoot (requestUri reqstr)) with
  | none => exact absurd question (find_byte_eq_none.mp found)
  | some pos => rfl

theorem deserialize_plain {reqstr : Bytes} (plain : 63 ∉ requestUri reqstr) :
    (deserialize reqstr).isInteract = false ∧
      (deserialize reqstr).uri = withRoot (requestUri reqstr) := by
  rw [← question_mem_withRoot] at plain
  have same : deserialize reqstr = { parseReqLine (requestLine reqstr) with
      uri := withRoot (requestUri reqstr) } := cutArgs_plain plain
  rw [same]
  exact ⟨rfl, rfl⟩

/-- The name asked for is read, unless the answer does not need a file; the page for what
is missing is read besides. -/
theorem reads_makeResponse (files : Files) (response : HttpResponse) :
    (makeResponse files response).reads = [] ∧
        (response.targetfile = ascii "./wwwroot/favicon.ico" ∨
          response.targetfile = ascii "./wwwroot/redir_test") ∨
      (makeResponse files response).reads = [response.targetfile] ∨
      (makeResponse files response).reads = [response.targetfile, webroot ++ page404] := by
  unfold makeResponse
  dsimp only
  split
  · rename_i favicon
    exact .inl ⟨rfl, .inl favicon⟩
  · split
    · rename_i redirection
      exact .inl ⟨rfl, .inr redirection⟩
    · cases readFileContent files response.targetfile with
      | none => exact .inr (.inr rfl)
      | some text => exact .inr (.inl rfl)

theorem makeResponse_inside_iff (files : Files) (response : HttpResponse) :
    (∀ path ∈ (makeResponse files response).reads, InsideRoot path) ↔
      InsideRoot response.targetfile := by
  rcases reads_makeResponse files response with ⟨none_read, inside⟩ | one | two
  · rw [none_read]
    refine ⟨fun _ => ?_, fun _ path member => absurd member List.not_mem_nil⟩
    rcases inside with favicon | redirection
    · rw [favicon]
      decide
    · rw [redirection]
      decide
  · rw [one]
    simp
  · rw [two]
    have page : InsideRoot (webroot ++ page404) := by decide
    simp [page]

/-- The files read are all inside the web root exactly if the URI has a question mark,
so that none is read, or the name it stands for passes the root and stays below it. -/
theorem reads_inside_iff (files : Files) (route : Route) (httpbuffer : Bytes) :
    (∀ path ∈ (handlerHttpRequest files route httpbuffer).reads, InsideRoot path) ↔
      63 ∈ requestUri httpbuffer ∨ PassesRoot (withRoot (requestUri httpbuffer)) := by
  rw [← insideRoot_iff]
  unfold handlerHttpRequest
  dsimp only
  by_cases question : 63 ∈ requestUri httpbuffer
  · rw [deserialize_question question]
    refine ⟨fun _ => .inl question, fun _ path member => ?_⟩
    cases found : route.lookup (deserialize httpbuffer).uri with
    | none =>
        rw [found] at member
        cases member
    | some service =>
        rw [found] at member
        cases member
  · obtain ⟨plain, uri⟩ := deserialize_plain question
    rw [plain, uri]
    rw [if_neg Bool.false_ne_true, makeResponse_inside_iff]
    exact ⟨.inr, fun either => either.resolve_left question⟩

/-- A request for a file two levels above the root. -/
theorem reads_outside :
    ∃ path ∈ (handlerHttpRequest (fun _ => none) []
      (ascii "GET /../../etc/passwd HTTP/1.1\r\n\r\n")).reads, ¬ InsideRoot path := by
  decide

end LinuxSystemLearning.HttpServer
