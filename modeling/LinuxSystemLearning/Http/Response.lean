import LinuxSystemLearning.Http.StaticFiles

/-!
# The response of the HTTP server

`HttpResponse::Serialize`, the service that is registered for `/login`, and what a client
finds behind the blank line.  The length of a body is announced from the size of the file,
the body is read in another call, and where the file is missing or empty the page for it
takes its place, whose own reading nobody checks.
-/

set_option autoImplicit false

namespace LinuxSystemLearning.HttpServer

open LinuxSystemLearning.Cxx

/-! ## The code -/

def gspace : Bytes := ascii " "
def glinesep : Bytes := ascii ": "
def httpVersion : Bytes := ascii "HTTP/1.0"

def headerLine (header : Bytes × Bytes) : Bytes := header.1 ++ glinesep ++ header.2

def statusLine (code : Nat) (desc : Bytes) : Bytes :=
  httpVersion ++ gspace ++ stdToString code ++ gspace ++ desc

/-- `Serialize`; `headers` are those of the response as the `unordered_map` goes through
them, and without a code its value is not defined. -/
def serialize (headers : List (Bytes × Bytes)) (response : HttpResponse) : Option Bytes :=
  response.code.map fun code =>
    statusLine code response.desc ++ gline ++
      headers.flatMap (fun header => headerLine header ++ gline) ++ gline ++ response.text

def setText (text : Bytes) (response : HttpResponse) : HttpResponse :=
  { response with text := text }

def login (request : HttpRequest) (response : HttpResponse) : HttpResponse :=
  let text := ascii "hello: " ++ request.args
  setText text (setHeader (ascii "Content-Length") (stdToString text.length)
    (setHeader (ascii "Content-Type") (ascii "text/plain") (setCode 200 response)))

/-- `RegisterService`; a name that is registered keeps its service. -/
def registerService (name : Bytes) (service : HttpRequest → HttpResponse → HttpResponse)
    (route : Route) : Route :=
  match route.lookup (webroot ++ name) with
  | some _ => route
  | none => route ++ [(webroot ++ name, service)]

def services : Route := registerService (ascii "/login") login []

/-! ## What the client receives -/

def contentOf (text : Bytes) : Option Bytes :=
  (find (gline ++ gline) text).map fun pos => text.drop (pos + (gline ++ gline).length)

/-- Whatever the order of the headers, the body is the content. -/
def Delivers (response : HttpResponse) (content : Bytes) : Prop :=
  ∀ headers, headers.Perm response.headers →
    (serialize headers response).bind contentOf = some content

def LengthRight (response : HttpResponse) : Prop :=
  ∀ value, (ascii "Content-Length", value) ∈ response.headers →
    ∃ content, Delivers response content ∧ value = stdToString content.length

/-! ## The blank line -/

theorem find_blank_skip {line : Bytes} (whole : 13 ∉ line) (nonempty : line ≠ [])
    (rest : Bytes) :
    find (gline ++ gline) (gline ++ (line ++ rest)) =
      (find (gline ++ gline) (line ++ rest)).map (· + gline.length) := by
  obtain ⟨byte, line, rfl⟩ := List.exists_cons_of_ne_nil nonempty
  rw [List.mem_cons, not_or] at whole
  have first : ¬ (gline ++ gline).isPrefixOf (13 :: 10 :: (byte :: line ++ rest)) = true := by
    simp [gline, List.isPrefixOf, whole.1]
  have second : ¬ (gline ++ gline).isPrefixOf (10 :: (byte :: line ++ rest)) = true := by
    simp [gline, List.isPrefixOf]
  show find (gline ++ gline) (13 :: 10 :: (byte :: line ++ rest)) = _
  rw [find, if_neg first, find, if_neg second, Option.map_map]
  rfl

/-- The blank line is found behind any number of lines. -/
theorem find_blank {lines : List Bytes} (whole : ∀ line ∈ lines, 13 ∉ line)
    (nonempty : ∀ line ∈ lines, line ≠ []) (content : Bytes) :
    find (gline ++ gline) (gline ++ (lines.flatMap (· ++ gline) ++ (gline ++ content))) =
      some (lines.flatMap (· ++ gline)).length := by
  induction lines with
  | nil => rfl
  | cons line lines ih =>
      have solid := whole line List.mem_cons_self
      rw [List.flatMap_cons, List.append_assoc, List.append_assoc,
        find_blank_skip solid (nonempty line List.mem_cons_self),
        show gline ++ gline = 13 :: (10 :: gline) from rfl, find_skip solid,
        ← show gline ++ gline = 13 :: (10 :: gline) from rfl,
        ih (fun other member => whole other (List.mem_cons_of_mem _ member))
          (fun other member => nonempty other (List.mem_cons_of_mem _ member))]
      simp [Nat.add_comm, Nat.add_left_comm]

theorem contentOf_lines {status : Bytes} {lines : List Bytes} (one : 13 ∉ status)
    (whole : ∀ line ∈ lines, 13 ∉ line) (nonempty : ∀ line ∈ lines, line ≠ [])
    (content : Bytes) :
    contentOf (status ++ gline ++ lines.flatMap (· ++ gline) ++ gline ++ content) =
      some content := by
  have found : find (gline ++ gline)
      (status ++ gline ++ lines.flatMap (· ++ gline) ++ gline ++ content) =
        some ((lines.flatMap (· ++ gline)).length + status.length) := by
    rw [List.append_assoc, List.append_assoc, List.append_assoc,
      show gline ++ gline = 13 :: (10 :: gline) from rfl, find_skip one,
      ← show gline ++ gline = 13 :: (10 :: gline) from rfl, find_blank whole nonempty]
    rfl
  rw [contentOf, found, Option.map_some]
  congr 1
  apply List.drop_left'
  simp only [List.length_append]
  omega

/-- Header texts without a carriage return. -/
def Clean (response : HttpResponse) : Prop :=
  13 ∉ response.desc ∧ ∀ header ∈ response.headers, 13 ∉ header.1 ∧ 13 ∉ header.2

theorem isdigit_return : isdigit 13 = false := rfl

theorem return_not_mem_stdToString (value : Nat) : 13 ∉ stdToString value := by
  intro member
  have digit := isdigit_of_mem_stdToString member
  rw [isdigit_return] at digit
  cases digit

theorem Clean.delivers {response : HttpResponse} {code : Nat} (clean : Clean response)
    (hasCode : response.code = some code) : Delivers response response.text := by
  intro headers order
  have lines : headers.flatMap (fun header => headerLine header ++ gline) =
      (headers.map headerLine).flatMap (· ++ gline) := by
    rw [List.flatMap_map]
  have status : 13 ∉ statusLine code response.desc := by
    have word : (13 : UInt8) ∉ httpVersion ++ gspace := by decide
    have space : (13 : UInt8) ∉ gspace := by decide
    simp only [statusLine, List.mem_append, not_or] at word ⊢
    exact ⟨⟨⟨word, return_not_mem_stdToString code⟩, space⟩, clean.1⟩
  rw [serialize, hasCode, Option.map_some, Option.bind_some, lines]
  apply contentOf_lines status
  · intro line member
    obtain ⟨header, inHeaders, rfl⟩ := List.mem_map.mp member
    obtain ⟨key, value⟩ := clean.2 header (order.mem_iff.mp inHeaders)
    have separator : (13 : UInt8) ∉ glinesep := by decide
    simp only [headerLine, List.mem_append, not_or]
    exact ⟨⟨key, separator⟩, value⟩
  · intro line member
    obtain ⟨header, -, rfl⟩ := List.mem_map.mp member
    have separator : glinesep ≠ [] := by decide
    simp [headerLine, separator]

/-! ## The responses that are sent -/

theorem clean_new : Clean HttpResponse.new :=
  ⟨List.not_mem_nil, fun _ member => absurd member List.not_mem_nil⟩

theorem Clean.setCode {response : HttpResponse} (clean : Clean response) (code : Nat) :
    Clean (HttpServer.setCode code response) := by
  refine ⟨?_, clean.2⟩
  unfold HttpServer.setCode
  dsimp only
  split
  · decide
  · decide
  · decide
  · decide
  · exact clean.1

theorem mem_setHeader {key value : Bytes} {response : HttpResponse} {header : Bytes × Bytes}
    (member : header ∈ (setHeader key value response).headers) :
    header ∈ response.headers ∨ header = (key, value) := by
  unfold setHeader at member
  split at member
  · exact .inl member
  · rcases List.mem_append.mp member with before | last
    · exact .inl before
    · exact .inr (List.mem_singleton.mp last)

theorem Clean.setHeader {response : HttpResponse} (clean : Clean response) {key value : Bytes}
    (first : 13 ∉ key) (second : 13 ∉ value) :
    Clean (HttpServer.setHeader key value response) := by
  refine ⟨?_, ?_⟩
  · unfold HttpServer.setHeader
    split
    · exact clean.1
    · exact clean.1
  · intro header member
    rcases mem_setHeader member with before | rfl
    · exact clean.2 header before
    · exact ⟨first, second⟩

theorem return_not_mem_intToString (value : Int) : 13 ∉ intToString value := by
  intro member
  rcases mem_intToString member with sign | digit
  · exact absurd sign (by decide)
  · exact absurd digit (by decide)

theorem return_not_mem_uri2Suffix (targetfile : Bytes) : 13 ∉ uri2Suffix targetfile := by
  unfold uri2Suffix
  split
  · decide
  · split
    · decide
    · split
      · decide
      · split
        · decide
        · exact List.not_mem_nil

theorem setFileHeaders_keeps (files : Files) (response : HttpResponse) :
    (setFileHeaders files response).code = response.code ∧
      (setFileHeaders files response).text = response.text := by
  have keeps : ∀ key value (response : HttpResponse),
      (setHeader key value response).code = response.code ∧
        (setHeader key value response).text = response.text := by
    intro key value response
    unfold setHeader
    split
    · exact ⟨rfl, rfl⟩
    · exact ⟨rfl, rfl⟩
  obtain ⟨code, text⟩ := keeps (ascii "Content-Length")
    (intToString (fileSize files response.targetfile))
    (setHeader (ascii "Content-Type") (uri2Suffix response.targetfile) response)
  obtain ⟨code', text'⟩ := keeps (ascii "Content-Type") (uri2Suffix response.targetfile) response
  exact ⟨code.trans code', text.trans text'⟩

theorem setFileHeaders_headers (files : Files) {response : HttpResponse}
    (bare : response.headers = []) :
    (setFileHeaders files response).headers =
      [(ascii "Content-Type", uri2Suffix response.targetfile),
        (ascii "Content-Length", intToString (fileSize files response.targetfile))] := by
  have first : (setHeader (ascii "Content-Type") (uri2Suffix response.targetfile)
      response).headers = [(ascii "Content-Type", uri2Suffix response.targetfile)] := by
    rw [setHeader, bare]
    rfl
  rw [setFileHeaders, setHeader, first]
  rfl

theorem Clean.setFileHeaders {response : HttpResponse} (clean : Clean response)
    (files : Files) : Clean (HttpServer.setFileHeaders files response) :=
  (clean.setHeader (by decide) (return_not_mem_uri2Suffix _)).setHeader (by decide)
    (return_not_mem_intToString _)

/-! ## The size of a file and what is read of it -/

theorem intToString_eq_iff {value : Int} {size : Nat} :
    intToString value = stdToString size ↔ value = size := by
  rw [← intToString_natCast, intToString_injective.eq_iff]

theorem toInt_bounds (size : Nat) :
    toInt size ≤ size ∧ (toInt size = size ↔ size < 2 ^ 31) := by
  unfold toInt Int.bmod
  dsimp only
  split <;> omega

theorem fileSize_of_some {files : Files} {filename content : Bytes}
    (present : files filename = some content) :
    fileSize files filename = toInt content.length := by
  rw [fileSize, present]

theorem readFileContent_eq_none_iff {files : Files} {filename : Bytes} :
    readFileContent files filename = none ↔ fileSize files filename ≤ 0 := by
  unfold readFileContent
  split
  · rename_i positive
    cases present : files filename with
    | none =>
        rw [fileSize, present] at positive
        cases positive
    | some content =>
        refine ⟨fun impossible => ?_, fun nothing => absurd positive (Int.not_lt.mpr nothing)⟩
        cases impossible
  · rename_i nothing
    exact ⟨fun _ => Int.not_lt.mp nothing, fun _ => rfl⟩

theorem length_readFileContent {files : Files} {filename text : Bytes}
    (read : readFileContent files filename = some text) :
    (text.length : Int) = fileSize files filename := by
  unfold readFileContent at read
  split at read
  · rename_i positive
    obtain ⟨content, present, rfl⟩ := Option.map_eq_some_iff.mp read
    rw [fileSize_of_some present] at positive ⊢
    have bounds := toInt_bounds content.length
    rw [List.length_take]
    omega
  · cases read

/-! ## Every request -/

theorem Delivers.unique {response : HttpResponse} {content content' : Bytes}
    (one : Delivers response content) (other : Delivers response content') :
    content = content' := by
  have first := one response.headers (List.Perm.refl _)
  rw [other response.headers (List.Perm.refl _)] at first
  exact (Option.some.inj first).symm

/-- With the headers of a file the length is right exactly if it is the size of the file. -/
theorem lengthRight_setFileHeaders_iff (files : Files) {response : HttpResponse} {code : Nat}
    (bare : response.headers = []) (clean : Clean response) (hasCode : response.code = some code) :
    LengthRight (setFileHeaders files response) ↔
      fileSize files response.targetfile = response.text.length := by
  obtain ⟨sameCode, sameText⟩ := setFileHeaders_keeps files response
  have delivers := (clean.setFileHeaders files).delivers (sameCode.trans hasCode)
  rw [sameText] at delivers
  have headers := setFileHeaders_headers files bare
  constructor
  · intro right
    obtain ⟨content, delivered, same⟩ := right (intToString (fileSize files response.targetfile))
      (by rw [headers]; exact List.mem_cons_of_mem _ (List.mem_singleton_self _))
    rw [delivered.unique delivers] at same
    exact intToString_eq_iff.mp same
  · intro same value member
    refine ⟨response.text, delivers, ?_⟩
    rw [headers, List.mem_cons, List.mem_singleton] at member
    have different : ascii "Content-Length" ≠ ascii "Content-Type" := by decide
    rcases member with other | announced
    · exact absurd (congrArg Prod.fst other) different
    · rw [← intToString_eq_iff.mpr same]
      exact congrArg Prod.snd announced

theorem lengthRight_login (request : HttpRequest) : LengthRight (login request .new) := by
  intro value member
  have clean : Clean (login request .new) :=
    ((clean_new.setCode 200).setHeader (by decide) (by decide)).setHeader (by decide)
      (return_not_mem_stdToString _)
  refine ⟨_, clean.delivers rfl, ?_⟩
  have different : ascii "Content-Length" ≠ ascii "Content-Type" := by decide
  rcases mem_setHeader member with before | announced
  · rcases mem_setHeader before with earlier | other
    · exact absurd earlier List.not_mem_nil
    · exact absurd (congrArg Prod.fst other) different
  · exact congrArg Prod.snd announced

/-- The targets that are answered without a file. -/
def IsSpecial (target : Bytes) : Prop :=
  target = ascii "./wwwroot/favicon.ico" ∨ target = ascii "./wwwroot/redir_test"

instance (target : Bytes) : Decidable (IsSpecial target) :=
  inferInstanceAs (Decidable (_ ∨ _))

def bodied (code : Nat) (target text : Bytes) : HttpResponse :=
  { setCode code .new with text := text, targetfile := target }

def fileResponse (files : Files) (target text : Bytes) : HttpResponse :=
  setFileHeaders files (bodied 200 target text)

def missingResponse (files : Files) : HttpResponse :=
  setFileHeaders files
    (bodied 404 (webroot ++ page404) ((readFileContent files (webroot ++ page404)).getD []))

theorem lengthRight_bodied_iff (files : Files) (code : Nat) (target text : Bytes) :
    LengthRight (setFileHeaders files (bodied code target text)) ↔
      fileSize files target = text.length := by
  have clean : Clean (bodied code target text) := clean_new.setCode code
  exact lengthRight_setFileHeaders_iff files rfl clean rfl

theorem makeResponse_file (files : Files) {target : Bytes} (plain : ¬ IsSpecial target) :
    (makeResponse files { HttpResponse.new with targetfile := target }).response =
      some (match readFileContent files target with
        | none => missingResponse files
        | some text => fileResponse files target text) := by
  rw [IsSpecial, not_or] at plain
  unfold makeResponse
  dsimp only
  rw [if_neg plain.1, if_neg plain.2]
  cases readFileContent files target with
  | none => rfl
  | some text => rfl

theorem lengthRight_fileResponse {files : Files} {target text : Bytes}
    (read : readFileContent files target = some text) :
    LengthRight (fileResponse files target text) :=
  (lengthRight_bodied_iff files 200 target text).mpr (length_readFileContent read).symm

theorem lengthRight_missingResponse_iff (files : Files) :
    LengthRight (missingResponse files) ↔ 0 ≤ fileSize files (webroot ++ page404) := by
  rw [missingResponse, lengthRight_bodied_iff]
  cases page : readFileContent files (webroot ++ page404) with
  | none =>
      have nothing := readFileContent_eq_none_iff.mp page
      simp only [Option.getD_none, List.length_nil]
      omega
  | some text =>
      have size := length_readFileContent page
      simp only [Option.getD_some]
      omega

theorem lengthRight_special {files : Files} {target : Bytes} (special : IsSpecial target) :
    ∀ response ∈ (makeResponse files { HttpResponse.new with targetfile := target }).response,
      LengthRight response := by
  intro response sent value member
  unfold makeResponse at sent
  dsimp only at sent
  rcases special with favicon | redirection
  · rw [if_pos favicon] at sent
    cases sent
  · have other : target ≠ ascii "./wwwroot/favicon.ico" := by
      rw [redirection]
      decide
    rw [if_neg other, if_pos redirection] at sent
    cases sent
    have different : ascii "Content-Length" ≠ ascii "Location" := by decide
    rcases mem_setHeader member with before | location
    · exact absurd before List.not_mem_nil
    · exact absurd (congrArg Prod.fst location) different

theorem lookup_services {uri : Bytes} {service : HttpRequest → HttpResponse → HttpResponse}
    (found : services.lookup uri = some service) : service = login := by
  have registered : services = [(webroot ++ ascii "/login", login)] := rfl
  rw [registered, List.lookup_cons] at found
  split at found
  · exact (Option.some.inj found).symm
  · cases found

/-- The length that is announced is right in every response exactly if the request has a
query, needs no file or gets one, or the page for what is missing has a size that is not
negative. -/
theorem lengths_right_iff (files : Files) (httpbuffer : Bytes) :
    (∀ response ∈ (handlerHttpRequest files services httpbuffer).response,
        LengthRight response) ↔
      63 ∈ requestUri httpbuffer ∨ IsSpecial (withRoot (requestUri httpbuffer)) ∨
        0 < fileSize files (withRoot (requestUri httpbuffer)) ∨
          0 ≤ fileSize files (webroot ++ page404) := by
  unfold handlerHttpRequest
  dsimp only
  by_cases question : 63 ∈ requestUri httpbuffer
  · rw [deserialize_question question]
    refine ⟨fun _ => .inl question, fun _ response sent => ?_⟩
    cases found : services.lookup (deserialize httpbuffer).uri with
    | none =>
        rw [found] at sent
        cases sent
    | some service =>
        rw [found] at sent
        cases sent
        rw [lookup_services found]
        exact lengthRight_login _
  · obtain ⟨plain, uri⟩ := deserialize_plain question
    rw [plain, uri, if_neg Bool.false_ne_true]
    by_cases special : IsSpecial (withRoot (requestUri httpbuffer))
    · exact ⟨fun _ => .inr (.inl special), fun _ => lengthRight_special special⟩
    · rw [makeResponse_file files special]
      simp only [Option.mem_def, Option.some.injEq, forall_eq', question, special, false_or]
      cases read : readFileContent files (withRoot (requestUri httpbuffer)) with
      | none =>
          have nothing := readFileContent_eq_none_iff.mp read
          dsimp only
          rw [lengthRight_missingResponse_iff]
          exact ⟨.inr, fun either => either.resolve_left (Int.not_lt.mpr nothing)⟩
      | some text =>
          have some_read := readFileContent_eq_none_iff.not.mp (by rw [read]; exact nofun)
          exact ⟨fun _ => .inl (Int.not_le.mp some_read),
            fun _ => lengthRight_fileResponse read⟩

def getPage : Bytes := ascii "GET /a.html HTTP/1.1\r\n\r\n"

/-- Neither the file nor the page for what is missing is there. -/
theorem announces_negative_length :
    ∃ response ∈ (handlerHttpRequest (fun _ => none) services getPage).response,
      ¬ LengthRight response := by
  refine ⟨_, rfl, ?_⟩
  intro right
  obtain ⟨content, -, announced⟩ := right (ascii "-1") (by decide)
  have minus : (45 : UInt8) ∈ stdToString content.length := by
    rw [← announced]
    decide
  exact absurd (isdigit_of_mem_stdToString minus) (by decide)

/-! ## Files as they are -/

/-- The request is answered 200 with the whole file, and with nothing else if it is
answered 200. -/
structure Faithful (files : Files) (target content : Bytes) : Prop where
  answered : ∃ response ∈ (makeResponse files
      { HttpResponse.new with targetfile := target }).response,
    response.code = some 200 ∧ Delivers response content
  whole : ∀ response ∈ (makeResponse files
      { HttpResponse.new with targetfile := target }).response,
    response.code = some 200 → Delivers response content

theorem code_setFileHeaders_bodied (files : Files) (code : Nat) (target text : Bytes) :
    (setFileHeaders files (bodied code target text)).code = some code :=
  (setFileHeaders_keeps files _).1

theorem delivers_bodied (files : Files) (code : Nat) (target text : Bytes) :
    Delivers (setFileHeaders files (bodied code target text)) text := by
  have clean : Clean (bodied code target text) := clean_new.setCode code
  have delivers := (clean.setFileHeaders files).delivers (code_setFileHeaders_bodied ..)
  rw [(setFileHeaders_keeps files _).2] at delivers
  exact delivers

/-- The file is read whole exactly if its size is positive and fits an `int`. -/
theorem readFileContent_whole_iff {files : Files} {target content : Bytes}
    (present : files target = some content) :
    readFileContent files target = some content ↔
      0 < content.length ∧ content.length < 2 ^ 31 := by
  have bounds := toInt_bounds content.length
  constructor
  · intro read
    have size := length_readFileContent read
    have some_read := readFileContent_eq_none_iff.not.mp (by rw [read]; exact nofun)
    rw [fileSize_of_some present] at size some_read
    exact ⟨by omega, bounds.2.mp size.symm⟩
  · intro fits
    have same := bounds.2.mpr fits.2
    have positive : 0 < fileSize files target := by
      rw [fileSize_of_some present, same]
      exact Int.natCast_pos.mpr fits.1
    rw [readFileContent, if_pos positive, present, Option.map_some,
      fileSize_of_some present, same, Int.toNat_natCast, List.take_length]

/-- A file that can be read is sent as it is exactly if it is not empty and its length
fits an `int`. -/
theorem faithful_iff {files : Files} {httpbuffer content : Bytes}
    (noQuery : 63 ∉ requestUri httpbuffer)
    (plain : ¬ IsSpecial (withRoot (requestUri httpbuffer)))
    (present : files (withRoot (requestUri httpbuffer)) = some content) :
    Faithful files (deserialize httpbuffer).uri content ↔
      0 < content.length ∧ content.length < 2 ^ 31 := by
  rw [(deserialize_plain noQuery).2]
  have response := makeResponse_file files plain
  rw [← readFileContent_whole_iff present]
  constructor
  · intro faithful
    obtain ⟨response', sent, code, delivers⟩ := faithful.answered
    rw [response] at sent
    cases read : readFileContent files (withRoot (requestUri httpbuffer)) with
    | none =>
        rw [read] at sent
        cases sent
        rw [missingResponse, code_setFileHeaders_bodied] at code
        cases code
    | some text =>
        rw [read] at sent
        cases sent
        rw [delivers.unique (delivers_bodied files 200 _ text)]
  · intro read
    rw [read] at response
    have delivers := delivers_bodied files 200 (withRoot (requestUri httpbuffer)) content
    refine ⟨⟨_, response, code_setFileHeaders_bodied .., delivers⟩, ?_⟩
    intro response' sent _
    rw [response] at sent
    cases sent
    exact delivers

def oneFile (name content : Bytes) : Files := fun path => if path = name then some content else none

theorem faithful_page :
    Faithful (oneFile (ascii "./wwwroot/a.html") (ascii "hello")) (deserialize getPage).uri
      (ascii "hello") := by
  have noQuery : 63 ∉ requestUri getPage := by decide
  have plain : ¬ IsSpecial (withRoot (requestUri getPage)) := by decide
  exact (faithful_iff noQuery plain (by decide)).mpr (by decide)

/-- An empty file is answered like one that is missing. -/
theorem empty_file_not_found :
    oneFile (ascii "./wwwroot/a.html") [] (deserialize getPage).uri = some [] ∧
      ¬ Faithful (oneFile (ascii "./wwwroot/a.html") []) (deserialize getPage).uri [] := by
  refine ⟨by decide, ?_⟩
  intro faithful
  obtain ⟨response, sent, code, -⟩ := faithful.answered
  have missing : ((makeResponse (oneFile (ascii "./wwwroot/a.html") [])
      { HttpResponse.new with targetfile := (deserialize getPage).uri }).response).bind
        HttpResponse.code = some 404 := by
    decide
  rw [Option.mem_def.mp sent, Option.bind_some, code] at missing
  cases missing

end LinuxSystemLearning.HttpServer
