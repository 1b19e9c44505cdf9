import LinuxSystemLearning.Http.Query
import LinuxSystemLearning.Http.Response

/-!
# Who is answered, and as what

`HandlerHttpRequest` sends one response or none before the connection is closed: a query
for a path that nobody registered gets none.  The type of a file is found by the last dot
of the whole path, and every path begins with one.
-/

set_option autoImplicit false

namespace LinuxSystemLearning.HttpServer

open LinuxSystemLearning.Cxx

/-! ## One request, one response -/

inductive SocketOp where
  | send (response : HttpResponse)
  | close

/-- The callback of `TcpServer::Start` and the `Close` behind it; `Recv` has nothing, or a
text. -/
def connectionOps (files : Files) (route : Route) : Option Bytes → List SocketOp
  | none => [.close]
  | some httpbuffer =>
      (handlerHttpRequest files route httpbuffer).response.toList.map .send ++ [.close]

/-- The icon is ignored on purpose. -/
def IsIgnored (httpbuffer : Bytes) : Prop := requestUri httpbuffer = ascii "/favicon.ico"

def Answered (files : Files) (route : Route) (httpbuffer : Bytes) : Prop :=
  ∃ response, connectionOps files route (some httpbuffer) = [.send response, .close]

def pathOf (httpbuffer : Bytes) : Bytes := (requestUri httpbuffer).takeWhile (· ≠ 63)

/-- There is a service under the name that `RegisterService` makes of the path. -/
def Registered (route : Route) (httpbuffer : Bytes) : Prop :=
  (route.lookup (webroot ++ pathOf httpbuffer)).isSome = true

theorem answered_iff_response {files : Files} {route : Route} {httpbuffer : Bytes} :
    Answered files route httpbuffer ↔
      (handlerHttpRequest files route httpbuffer).response.isSome = true := by
  have ops : connectionOps files route (some httpbuffer) =
      (handlerHttpRequest files route httpbuffer).response.toList.map .send ++ [.close] := rfl
  rw [Answered, ops]
  cases (handlerHttpRequest files route httpbuffer).response with
  | none => simp
  | some response => simp

theorem eq_takeWhile_append {byte : UInt8} {text : Bytes} (member : byte ∈ text) :
    ∃ back, text = text.takeWhile (· ≠ byte) ++ byte :: back := by
  induction text with
  | nil => cases member
  | cons head text ih =>
      by_cases same : head = byte
      · exact ⟨text, by simp [same]⟩
      · obtain ⟨back, parts⟩ := ih ((List.mem_cons.mp member).resolve_left (Ne.symm same))
        refine ⟨back, ?_⟩
        rw [List.takeWhile_cons_of_pos (by simp [same]), List.cons_append, ← parts]

theorem not_mem_takeWhile (byte : UInt8) (text : Bytes) : byte ∉ text.takeWhile (· ≠ byte) := by
  intro member
  simpa using List.mem_takeWhile_imp member

theorem deserialize_uri_question {httpbuffer : Bytes} (question : 63 ∈ requestUri httpbuffer) :
    (deserialize httpbuffer).uri = webroot ++ pathOf httpbuffer := by
  obtain ⟨query, target⟩ := eq_takeWhile_append question
  have other : requestUri httpbuffer ≠ ascii "/" := by
    intro slash
    rw [slash] at question
    exact absurd question (by decide)
  have plain : (63 : UInt8) ∉ webroot ++ pathOf httpbuffer := by
    rw [List.mem_append, not_or]
    exact ⟨by decide, not_mem_takeWhile 63 _⟩
  have rooted : withRoot (requestUri httpbuffer) =
      withQuery (webroot ++ pathOf httpbuffer) query := by
    rw [withRoot, if_neg other, withQuery, List.append_assoc]
    exact congrArg (webroot ++ ·) target
  rw [deserialize_eq rfl, cutArgs_question plain rooted]

/-- A file or the page for what is missing is sent, except for the icon. -/
theorem makeResponse_isSome_iff (files : Files) (target : Bytes) :
    (makeResponse files { HttpResponse.new with targetfile := target }).response.isSome = true ↔
      target ≠ ascii "./wwwroot/favicon.ico" := by
  by_cases special : IsSpecial target
  · unfold makeResponse
    dsimp only
    rcases special with favicon | redirection
    · simp [favicon]
    · have other : target ≠ ascii "./wwwroot/favicon.ico" := by
        rw [redirection]
        decide
      rw [if_neg other, if_pos redirection]
      exact ⟨fun _ => other, fun _ => rfl⟩
  · rw [makeResponse_file files special]
    exact ⟨fun _ favicon => special (Or.inl favicon), fun _ => rfl⟩

theorem withRoot_favicon {uri : Bytes} :
    withRoot uri = ascii "./wwwroot/favicon.ico" ↔ uri = ascii "/favicon.ico" := by
  have icon : ascii "./wwwroot/favicon.ico" = webroot ++ ascii "/favicon.ico" := by decide
  unfold withRoot
  split
  · rename_i slash
    rw [slash]
    decide
  · rw [icon, List.append_cancel_left_eq]

/-- A request is answered once, or it is for the icon, exactly if it has no query or the
path in front of the query is registered. -/
theorem answered_iff (files : Files) (route : Route) (httpbuffer : Bytes) :
    IsIgnored httpbuffer ∨ Answered files route httpbuffer ↔
      63 ∉ requestUri httpbuffer ∨ Registered route httpbuffer := by
  rw [answered_iff_response]
  unfold handlerHttpRequest
  dsimp only
  by_cases question : 63 ∈ requestUri httpbuffer
  · have asked : ¬ IsIgnored httpbuffer := by
      intro icon
      rw [icon] at question
      exact absurd question (by decide)
    rw [deserialize_question question, if_pos rfl, deserialize_uri_question question]
    simp only [asked, question, not_true_eq_false, false_or, Registered]
    cases route.lookup (webroot ++ pathOf httpbuffer) with
    | none => simp
    | some service => simp
  · obtain ⟨plain, uri⟩ := deserialize_plain question
    rw [plain, uri, if_neg Bool.false_ne_true, makeResponse_isSome_iff, Ne, withRoot_favicon]
    exact ⟨fun _ => Or.inl question, fun _ => Classical.em _⟩

def queryPage : Bytes := ascii "GET /index.html?a=1 HTTP/1.1\r\n\r\n"

/-- A query for a path that is not registered closes the connection without a word. -/
theorem query_unanswered :
    ¬ (IsIgnored queryPage ∨
      Answered (oneFile (ascii "./wwwroot/index.html") (ascii "home")) services queryPage) := by
  rw [answered_iff_response]
  rintro (icon | answered)
  · have target : requestUri queryPage = ascii "/favicon.ico" := icon
    exact absurd target (by decide)
  · exact absurd answered (by decide)

/-! ## The type of a file -/

def lastComponent (path : Bytes) : Bytes := (path.reverse.takeWhile (· ≠ 47)).reverse

/-- The type of the file is that of its own name: the default without a dot, and else
what the extension says, wherever the file is. -/
structure TypedByName (uri : Bytes) : Prop where
  default : 46 ∉ lastComponent (withRoot uri) →
    uri2Suffix (withRoot uri) = ascii "text/html"
  extension : 46 ∈ lastComponent (withRoot uri) → ∀ other,
    fromLastDot (lastComponent (withRoot other)) = fromLastDot (lastComponent (withRoot uri)) →
      uri2Suffix (withRoot other) = uri2Suffix (withRoot uri)

theorem eq_append_lastComponent {path : Bytes} (slash : 47 ∈ path) :
    ∃ front, path = front ++ 47 :: lastComponent path := by
  obtain ⟨back, parts⟩ := eq_takeWhile_append (List.mem_reverse.mpr slash)
  refine ⟨back.reverse, ?_⟩
  have turned := congrArg List.reverse parts
  simpa [lastComponent] using turned

theorem fromLastDot_append {name : Bytes} (front : Bytes) (dot : 46 ∈ name) :
    fromLastDot (front ++ name) = fromLastDot name := by
  obtain ⟨back, parts⟩ := eq_takeWhile_append (List.mem_reverse.mpr dot)
  have shorter : ((name.reverse.takeWhile (· ≠ 46)).length = name.reverse.length) = False := by
    apply eq_false
    intro same
    have length := congrArg List.length parts
    rw [List.length_append, same, List.length_cons] at length
    omega
  rw [fromLastDot, fromLastDot, if_pos (List.mem_append_right _ dot), if_pos dot,
    List.reverse_append, List.takeWhile_append, if_neg (by rw [shorter]; exact id)]

/-- In a name without a dot the last dot of the path is in front of the last slash. -/
theorem fromLastDot_plain {front name : Bytes} (dot : 46 ∈ front) (plain : 46 ∉ name) :
    ∃ suffix, fromLastDot (front ++ 47 :: name) = some suffix ∧ 47 ∈ suffix := by
  have whole : name.reverse.takeWhile (· ≠ 46) = name.reverse := by
    rw [List.takeWhile_eq_self_iff]
    intro byte member
    have other : byte ≠ 46 := by
      rintro rfl
      exact plain (List.mem_reverse.mp member)
    simpa using other
  refine ⟨_, if_pos (List.mem_append_left _ dot), ?_⟩
  rw [List.reverse_append, List.reverse_cons, List.append_assoc, List.takeWhile_append, whole,
    if_pos rfl]
  simp

theorem uri2Suffix_of_slash {path suffix : Bytes} (found : fromLastDot path = some suffix)
    (slash : 47 ∈ suffix) : uri2Suffix path = [] := by
  have other : ∀ known : Bytes, 47 ∉ known → suffix ≠ known := by
    rintro known none rfl
    exact none slash
  rw [uri2Suffix, found]
  dsimp only
  rw [if_neg (not_or.mpr ⟨other _ (by decide), other _ (by decide)⟩),
    if_neg (other _ (by decide)), if_neg (other _ (by decide))]

theorem webroot_prefix (uri : Bytes) : ∃ rest, withRoot uri = webroot ++ rest := by
  unfold withRoot
  split
  · exact ⟨uri ++ homepage, List.append_assoc ..⟩
  · exact ⟨uri, rfl⟩

/-- Every target begins with a dot and has a slash behind it. -/
theorem withRoot_parts (uri : Bytes) :
    ∃ front, withRoot uri = front ++ 47 :: lastComponent (withRoot uri) ∧ 46 ∈ front := by
  obtain ⟨rest, rooted⟩ := webroot_prefix uri
  have slash : (47 : UInt8) ∈ withRoot uri := by
    rw [rooted]
    exact List.mem_append_left _ (by decide)
  obtain ⟨front, parts⟩ := eq_append_lastComponent slash
  refine ⟨front, parts, ?_⟩
  have first : (withRoot uri).head? = some 46 := by
    rw [rooted]
    rfl
  rw [parts] at first
  cases front with
  | nil => exact absurd (Option.some.inj first) (by decide)
  | cons byte front =>
      rw [← Option.some.inj first]
      exact List.mem_cons_self

theorem uri2Suffix_dot {uri : Bytes} (dot : 46 ∈ lastComponent (withRoot uri)) :
    uri2Suffix (withRoot uri) = uri2Suffix (lastComponent (withRoot uri)) := by
  obtain ⟨front, parts, -⟩ := withRoot_parts uri
  have same : fromLastDot (withRoot uri) = fromLastDot (lastComponent (withRoot uri)) := by
    conv_lhs => rw [parts, ← List.singleton_append, ← List.append_assoc]
    exact fromLastDot_append _ dot
  rw [uri2Suffix, same, ← uri2Suffix]

theorem uri2Suffix_plain {uri : Bytes} (plain : 46 ∉ lastComponent (withRoot uri)) :
    uri2Suffix (withRoot uri) = [] := by
  obtain ⟨front, parts, dot⟩ := withRoot_parts uri
  obtain ⟨suffix, found, slash⟩ := fromLastDot_plain dot plain
  rw [← parts] at found
  exact uri2Suffix_of_slash found slash

theorem fromLastDot_isSome {text : Bytes} : (fromLastDot text).isSome = true ↔ 46 ∈ text := by
  unfold fromLastDot
  split
  · rename_i dot
    exact ⟨fun _ => dot, fun _ => rfl⟩
  · rename_i plain
    exact ⟨fun impossible => absurd impossible Bool.false_ne_true, fun dot => absurd dot plain⟩

/-- The type is that of the name exactly if the name has a dot: without one it is empty, as
the dot of the web root is taken for the extension. -/
theorem typed_by_name_iff (uri : Bytes) :
    TypedByName uri ↔ 46 ∈ lastComponent (withRoot uri) := by
  constructor
  · intro typed
    by_contra plain
    have html := typed.default plain
    rw [uri2Suffix_plain plain] at html
    exact absurd html (by decide)
  · intro dot
    refine ⟨fun plain => absurd dot plain, ?_⟩
    intro _ other same
    have dot' : 46 ∈ lastComponent (withRoot other) := by
      rw [← fromLastDot_isSome, same, fromLastDot_isSome]
      exact dot
    rw [uri2Suffix_dot dot, uri2Suffix_dot dot', uri2Suffix, uri2Suffix, same]

theorem no_extension_no_type : ¬ TypedByName (ascii "/readme") := by
  intro typed
  exact absurd (typed.default (by decide)) (by decide)

end LinuxSystemLearning.HttpServer
