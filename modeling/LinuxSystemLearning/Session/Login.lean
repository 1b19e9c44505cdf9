import LinuxSystemLearning.Http.StaticFiles
import LinuxSystemLearning.Session.SessionManager
import LinuxSystemLearning.Library.Interleaving
import Mathlib.Logic.Function.Basic

/-!
# Logging in

`HandlerHttp` with the parsing of the request in front of it.  A request for `/login`
that carries no session id is given one by `Set-Cookie`; one that carries an id is not,
whether the server knows the id or not.

The clients keep the last id they were given and send it with every request, the server
is restarted now and then with an empty table.
-/

set_option autoImplicit false

namespace LinuxSystemLearning.Sessions

open LinuxSystemLearning.Cxx
open LinuxSystemLearning.Interleaving
open LinuxSystemLearning.HttpServer (intToString)

/-! ## The request -/

def httpSep : Bytes := [13, 10]

/-- `GetLine`: the line, and what is left of the text. -/
def getLine (text : Bytes) : Option (Bytes × Bytes) :=
  match find httpSep text with
  | none => none
  | some pos => some (substr text 0 pos, text.drop (pos + httpSep.length))

structure HttpRequest where
  reqLine : Bytes
  reqHeader : List Bytes
  reqContent : Bytes
  method : Bytes
  url : Bytes
  httpVersion : Bytes
  cookies : List Bytes
  sessionid : Bytes

def HttpRequest.new : HttpRequest := ⟨[], [], [], [], [], [], [], []⟩

/-- The loop of `Deserialize` over the header lines; every line is shorter than the text,
so that the bound is not reached. -/
def headerLoop : Nat → Bytes → HttpRequest → HttpRequest
  | 0, _, req => req
  | bound + 1, text, req =>
      match getLine text with
      | none => req
      | some ([], rest) => { req with reqContent := rest }
      | some (line, rest) =>
          headerLoop bound rest { req with reqHeader := req.reqHeader ++ [line] }

def deserialize (text : Bytes) (req : HttpRequest) : HttpRequest :=
  match getLine text with
  | none => req
  | some (line, rest) => headerLoop (rest.length + 1) rest { req with reqLine := line }

/-- `strncmp(text, prefix, prefix.size()) == 0`, and what is behind the prefix. -/
def behind (start text : Bytes) : Option Bytes :=
  if start.isPrefixOf text then some (text.drop start.length) else none

def cookieOf (header : List Bytes) : Option Bytes :=
  header.findSome? (behind (ascii "Cookie: "))

/-- The loop over the cookies: the last one that has an id counts. -/
def sessionIdLoop (cookies : List Bytes) (sessionid : Bytes) : Bytes :=
  cookies.foldl (fun found cookie => (behind (ascii "sessionid=") cookie).getD found) sessionid

def parse (req : HttpRequest) : HttpRequest :=
  let (method, rest) := extract req.reqLine
  let (url, rest) := extract rest
  let (httpVersion, _) := extract rest
  let cookies := req.cookies ++ (cookieOf req.reqHeader).toList
  { req with
    method := method
    url := url
    httpVersion := httpVersion
    cookies := cookies
    sessionid := sessionIdLoop cookies req.sessionid }

def parseRequest (text : Bytes) : HttpRequest := parse (deserialize text .new)

/-! ## Reading a request back -/

theorem getLine_shorter {text line rest : Bytes} (taken : getLine text = some (line, rest)) :
    rest.length < text.length := by
  unfold getLine at taken
  split at taken
  · cases taken
  · rename_i pos found
    cases taken
    have inside := (find_eq_some found).1.length_le
    rw [List.length_drop] at inside ⊢
    have two : httpSep.length = 2 := rfl
    omega

/-- A line without the separator is read back, whatever follows. -/
theorem getLine_line {line : Bytes} (whole : find httpSep line = none) (rest : Bytes) :
    getLine (line ++ (httpSep ++ rest)) = some (line, rest) := by
  have found : find httpSep (line ++ (httpSep ++ rest)) = some line.length := by
    rw [find_eq_some_iff]
    constructor
    · rw [List.drop_left]
      exact List.prefix_append _ _
    · intro earlier less here
      rw [List.drop_append_of_le_length (Nat.le_of_lt less)] at here
      cases left : line.drop earlier with
      | nil =>
          have length := congrArg List.length left
          rw [List.length_drop, List.length_nil] at length
          omega
      | cons byte left' =>
          rw [left] at here
          cases left' with
          | nil =>
              have second := (List.cons_prefix_cons.mp here).2
              exact absurd (List.cons_prefix_cons.mp second).1 (by decide)
          | cons next left' =>
              have inside : httpSep <+: line.drop earlier := by
                rw [left]
                obtain ⟨first, second⟩ := List.cons_prefix_cons.mp here
                obtain ⟨second, -⟩ := List.cons_prefix_cons.mp second
                rw [← first, ← second]
                exact List.prefix_append [13, 10] left'
              obtain ⟨pos, -, found⟩ := exists_find_le inside
              rw [whole] at found
              cases found
  have front : substr (line ++ (httpSep ++ rest)) 0 line.length = line := by
    rw [substr, if_neg (Int.not_lt.mpr (Int.natCast_nonneg _)), List.drop_zero,
      Int.toNat_natCast, List.take_left]
  have back : (line ++ (httpSep ++ rest)).drop (line.length + httpSep.length) = rest := by
    rw [← List.append_assoc, ← List.length_append, List.drop_left]
  unfold getLine
  rw [found]
  dsimp only
  rw [front, back]

def requestText (line : Bytes) (header : List Bytes) (content : Bytes) : Bytes :=
  line ++ (httpSep ++ (header.flatMap (· ++ httpSep) ++ (httpSep ++ content)))

theorem headerLoop_lines {header : List Bytes} {content : Bytes} {bound : Nat}
    (enough : header.length < bound) (nonempty : ∀ line ∈ header, line ≠ [])
    (whole : ∀ line ∈ header, find httpSep line = none) (req : HttpRequest) :
    headerLoop bound (header.flatMap (· ++ httpSep) ++ (httpSep ++ content)) req =
      { req with reqHeader := req.reqHeader ++ header, reqContent := content } := by
  induction header generalizing bound req with
  | nil =>
      cases bound with
      | zero => exact absurd enough (Nat.not_lt_zero _)
      | succ bound =>
          have nothing : find httpSep [] = none := rfl
          have blank : getLine (httpSep ++ content) = some ([], content) :=
            getLine_line nothing content
          rw [List.flatMap_nil, List.nil_append, headerLoop, blank, List.append_nil]
  | cons line header ih =>
      cases bound with
      | zero => exact absurd enough (Nat.not_lt_zero _)
      | succ bound =>
          have first := getLine_line (whole line List.mem_cons_self)
            (header.flatMap (· ++ httpSep) ++ (httpSep ++ content))
          rw [List.flatMap_cons, List.append_assoc, List.append_assoc, headerLoop, first]
          have some_text := nonempty line List.mem_cons_self
          cases line with
          | nil => exact absurd rfl some_text
          | cons byte line =>
              dsimp only
              rw [ih (Nat.lt_of_succ_lt_succ enough)
                (fun other member => nonempty other (List.mem_cons_of_mem _ member))
                (fun other member => whole other (List.mem_cons_of_mem _ member)),
                List.append_assoc, List.singleton_append]

theorem deserialize_requestText {line content : Bytes} {header : List Bytes}
    (one : find httpSep line = none) (nonempty : ∀ line ∈ header, line ≠ [])
    (whole : ∀ line ∈ header, find httpSep line = none) :
    deserialize (requestText line header content) .new =
      { HttpRequest.new with reqLine := line, reqHeader := header, reqContent := content } := by
  have longer : header.length ≤ (header.flatMap (· ++ httpSep)).length := by
    clear nonempty whole
    induction header with
    | nil => exact Nat.le_refl _
    | cons line header ih =>
        rw [List.flatMap_cons, List.length_append, List.length_append, List.length_cons]
        have two : httpSep.length = 2 := rfl
        omega
  unfold deserialize requestText
  rw [getLine_line one]
  dsimp only
  rw [headerLoop_lines _ nonempty whole]
  · rfl
  · rw [List.length_append]
    omega

/-- The header line with which a client sends the id it holds. -/
def cookieLine (id : Bytes) : Bytes := ascii "Cookie: " ++ (ascii "sessionid=" ++ id)

def clientHeader (own : List Bytes) (held : Option Bytes) : List Bytes :=
  own ++ (held.map cookieLine).toList

theorem behind_append (start text : Bytes) : behind start (start ++ text) = some text := by
  rw [behind, if_pos (List.isPrefixOf_iff_prefix.mpr (List.prefix_append start text)),
    List.drop_left]

/-! ## The response -/

structure HttpResponse where
  respHeader : List Bytes
  respContent : Bytes
  statusCode : Int
  statusCodeDesc : Bytes

def HttpResponse.new : HttpResponse := ⟨[], [], 200, ascii "OK"⟩

def addHeader (header : Bytes) (resp : HttpResponse) : HttpResponse :=
  { resp with respHeader := resp.respHeader ++ [header ++ httpSep] }

def statusLine (resp : HttpResponse) : Bytes :=
  ascii "HTTP/1.0" ++ ascii " " ++ intToString resp.statusCode ++ ascii " " ++
    resp.statusCodeDesc ++ httpSep

def serialize (resp : HttpResponse) : Bytes :=
  statusLine resp ++ resp.respHeader.flatten ++ httpSep ++ resp.respContent

def proveSession (id : Bytes) : Bytes := ascii "Set-Cookie: sessionid=" ++ id ++ ascii ";"

/-! ## The server -/

structure Session where
  username : Bytes
  status : Bytes

/-- `number` is the static counter of the users. -/
structure Server where
  sessionManager : SessionManager Session
  number : Nat

def Server.fresh : Server := ⟨∅, 0⟩

def login (draw : Draw) (id : Bytes) (resp : HttpResponse) (server : Server) :
    HttpResponse × Server :=
  if id = [] then
    let session := ⟨ascii "user-" ++ stdToString server.number, ascii "logined"⟩
    let (id, sessions) := addSession draw session server.sessionManager
    (addHeader (proveSession id) resp, ⟨sessions, server.number + 1⟩)
  else (resp, server)

/-- What the end of `HandlerHttp` adds to every response. -/
def finishResponse (resp : HttpResponse) : HttpResponse :=
  { addHeader (ascii "Content-Type: text/html") resp with
    respContent := ascii "<html><h1>helloworld</h1></html>" }

/-- The text sent back, and the server behind it; the other branch only logs. -/
def handlerHttp (draw : Draw) (text : Bytes) (server : Server) : Bytes × Server :=
  let req := parseRequest text
  if req.url = ascii "/login" then
    let (resp, server) := login draw req.sessionid .new server
    (serialize (finishResponse resp), server)
  else (serialize (finishResponse .new), server)

/-! ## Clients and restarts -/

def setCookie (response : Bytes) : Option Bytes :=
  let mark := ascii "Set-Cookie: sessionid="
  match find mark response with
  | none => none
  | some pos => some ((response.drop (pos + mark.length)).takeWhile (· ≠ 59))

/-- `held` is the last id each client was given.  How often the server was restarted so
far, behind how many restarts a client was given its id, and which ids have been given
out at all is only recorded. -/
structure State where
  server : Server
  held : Nat → Option Bytes
  restarts : Nat
  givenBehind : Nat → Nat
  issued : List Bytes

inductive Event where
  | request (client : Nat) (text : Bytes) (draw : Draw)
  | restart

def start : State := ⟨.fresh, fun _ => none, 0, fun _ => 0, []⟩

def answered (client : Nat) (response : Bytes) (server : Server) (st : State) : State :=
  match setCookie response with
  | none => { st with server := server }
  | some id => { st with
      server := server
      held := Function.update st.held client (some id)
      givenBehind := Function.update st.givenBehind client st.restarts
      issued := id :: st.issued }

/-- A request carries the id its client holds, if any; an id that is given out is a new
one. -/
def step (st : State) : Event → Option State
  | .request client text draw =>
      if (parseRequest text).sessionid = (st.held client).getD [] then
        let (response, server) := handlerHttp draw text st.server
        if (setCookie response).any (· ∈ st.issued) then none
        else some (answered client response server st)
      else none
  | .restart => some { st with server := .fresh, restarts := st.restarts + 1 }

/-- Behind a request for `/login` the id the client holds is that of a live session. -/
def Established (st : State) : Event → Prop
  | .request client text draw => (parseRequest text).url = ascii "/login" →
      ∀ after, step st (.request client text draw) = some after →
        ∃ id session, after.held client = some id ∧
          getSession id after.server.sessionManager = some session
  | .restart => True

/-- Who asks for `/login` holds no id, or the server has not been restarted since it was
given. -/
def NotStale (st : State) : Event → Prop
  | .request client text _ => (parseRequest text).url = ascii "/login" →
      st.held client = none ∨ st.givenBehind client = st.restarts
  | .restart => True

/-! ## What a request does -/

theorem semicolon_not_mem_sessionid (draw : Draw) : (59 : UInt8) ∉ sessionid draw := by
  intro member
  have digit := isdigit_of_mem_stdToString member
  cases digit

/-- What stands behind the first mark, up to the semicolon. -/
theorem setCookie_proveSession (id : Bytes) (digits : (59 : UInt8) ∉ id) :
    setCookie (serialize (finishResponse (addHeader (proveSession id) .new))) = some id := by
  let mark := ascii "Set-Cookie: sessionid="
  let front := statusLine .new ++ mark
  let back := httpSep ++ (ascii "Content-Type: text/html" ++ httpSep ++ (httpSep ++
    ascii "<html><h1>helloworld</h1></html>"))
  have shape : serialize (finishResponse (addHeader (proveSession id) .new)) =
      front ++ (id ++ 59 :: back) := by
    show statusLine .new ++ ((mark ++ id ++ [59] ++ httpSep) ++
      ((ascii "Content-Type: text/html" ++ httpSep) ++ [])) ++ httpSep ++
        ascii "<html><h1>helloworld</h1></html>" = _
    simp only [front, back, List.append_assoc, List.append_nil]
    rfl
  have found : find mark (front ++ (id ++ 59 :: back)) = some 17 :=
    find_append (by decide) (by decide) _
  unfold setCookie
  rw [shape]
  dsimp only
  rw [found]
  dsimp only
  have length : 17 + (ascii "Set-Cookie: sessionid=").length = front.length := by decide
  rw [length, List.drop_left, List.takeWhile_append_of_pos]
  · rw [List.takeWhile_cons_of_neg (by decide), List.append_nil]
  · intro byte member
    rw [decide_eq_true_eq]
    rintro rfl
    exact digits member

theorem setCookie_plain : setCookie (serialize (finishResponse .new)) = none := by decide

theorem handlerHttp_login {draw : Draw} {text : Bytes} {server : Server}
    (asks : (parseRequest text).url = ascii "/login")
    (none_sent : (parseRequest text).sessionid = []) :
    ∃ response session, setCookie response = some (sessionid draw) ∧
      handlerHttp draw text server = (response,
        ⟨insert (sessionid draw) session server.sessionManager, server.number + 1⟩) := by
  refine ⟨_, ⟨ascii "user-" ++ stdToString server.number, ascii "logined"⟩,
    setCookie_proveSession _ (semicolon_not_mem_sessionid draw), ?_⟩
  rw [handlerHttp, if_pos asks, login, if_pos none_sent]
  rfl

theorem handlerHttp_other {draw : Draw} {text : Bytes} {server : Server}
    (other : (parseRequest text).url = ascii "/login" → (parseRequest text).sessionid ≠ []) :
    ∃ response, setCookie response = none ∧
      handlerHttp draw text server = (response, server) := by
  refine ⟨_, setCookie_plain, ?_⟩
  rw [handlerHttp]
  split
  · rename_i asks
    rw [login, if_neg (other asks)]
  · rfl

/-- A request for `/login` without an id is given a new one; any other leaves the server
and the client as they are. -/
inductive Stepped (st : State) : Event → State → Prop where
  | given (client : Nat) (text : Bytes) (draw : Draw) (session : Session)
      (asks : (parseRequest text).url = ascii "/login")
      (carries : (st.held client).getD [] = [])
      (fresh : sessionid draw ∉ st.issued) :
      Stepped st (.request client text draw) {
        server := ⟨insert (sessionid draw) session st.server.sessionManager,
          st.server.number + 1⟩
        held := Function.update st.held client (some (sessionid draw))
        restarts := st.restarts
        givenBehind := Function.update st.givenBehind client st.restarts
        issued := sessionid draw :: st.issued }
  | kept (client : Nat) (text : Bytes) (draw : Draw)
      (keeps : (parseRequest text).url = ascii "/login" → (st.held client).getD [] ≠ []) :
      Stepped st (.request client text draw) st
  | restarted : Stepped st .restart
      { st with server := .fresh, restarts := st.restarts + 1 }

theorem stepped_of_step {st after : State} {event : Event}
    (stepped : step st event = some after) : Stepped st event after := by
  cases event with
  | restart =>
      cases stepped
      exact .restarted
  | request client text draw =>
      simp only [step] at stepped
      split at stepped
      · rename_i carries
        by_cases needs : (parseRequest text).url = ascii "/login" ∧
            (parseRequest text).sessionid = []
        · obtain ⟨asks, none_sent⟩ := needs
          obtain ⟨response, session, given, handled⟩ :
              ∃ response session, setCookie response = some (sessionid draw) ∧ _ :=
            handlerHttp_login asks none_sent
          rw [handled] at stepped
          dsimp only [answered] at stepped
          rw [given] at stepped
          dsimp only [Option.any] at stepped
          split at stepped
          · cases stepped
          · rename_i fresh
            cases stepped
            rw [decide_eq_true_eq] at fresh
            exact .given client text draw session asks (carries.symm.trans none_sent) fresh
        · rw [not_and] at needs
          obtain ⟨response, plain, handled⟩ :
              ∃ response, setCookie response = none ∧ _ := handlerHttp_other needs
          rw [handled] at stepped
          dsimp only [answered] at stepped
          rw [plain] at stepped
          cases stepped
          exact .kept client text draw fun asks => carries ▸ needs asks
      · cases stepped

/-! ## Live and stale ids -/

/-- Every id filed has been given out.  The id a client holds has been given out, and is
filed exactly if the server has not been restarted since. -/
structure Inv (st : State) : Prop where
  filed : ∀ id, id ∈ st.server.sessionManager → id ∈ st.issued
  held : ∀ client id, st.held client = some id → id ≠ [] ∧ id ∈ st.issued ∧
    st.givenBehind client ≤ st.restarts ∧
    (id ∈ st.server.sessionManager ↔ st.givenBehind client = st.restarts)

theorem Inv.stepped {st after : State} {event : Event} (inv : Inv st)
    (stepped : Stepped st event after) : Inv after := by
  cases stepped with
  | given client text draw session asks carries fresh =>
      refine ⟨?_, ?_⟩
      · intro id member
        rcases mem_insert.mp member with rfl | before
        · exact List.mem_cons_self
        · exact List.mem_cons_of_mem _ (inv.filed id before)
      · intro other id held
        dsimp only at held ⊢
        by_cases same : other = client
        · rw [same] at held ⊢
          rw [Function.update_self] at held ⊢
          cases held
          exact ⟨stdToString_ne_nil _, List.mem_cons_self, Nat.le_refl _,
            fun _ => rfl, fun _ => mem_insert.mpr (.inl rfl)⟩
        · rw [Function.update_of_ne same] at held ⊢
          obtain ⟨text, issued, earlier, live⟩ := inv.held other id held
          have different : id ≠ sessionid draw := by
            rintro rfl
            exact fresh issued
          refine ⟨text, List.mem_cons_of_mem _ issued, earlier, ?_⟩
          rw [mem_insert, ← live]
          exact ⟨fun either => either.resolve_left different, .inr⟩
  | kept => exact inv
  | restarted =>
      refine ⟨fun id member => absurd member (AList.notMem_empty id), ?_⟩
      intro client id held
      obtain ⟨text, issued, earlier, -⟩ := inv.held client id held
      refine ⟨text, issued, Nat.le_succ_of_le earlier, ?_⟩
      constructor
      · exact fun member => absurd member (AList.notMem_empty id)
      · exact fun same => absurd (same ▸ earlier) (Nat.not_succ_le_self _)

theorem inv_start : Inv start :=
  ⟨fun id member => absurd member (AList.notMem_empty id), fun _ _ held => nomatch held⟩

/-- Who holds an id when asking for `/login` keeps it, live or not. -/
theorem established_iff {st after : State} {event : Event} (inv : Inv st)
    (stepped : step st event = some after) : Established st event ↔ NotStale st event := by
  cases event with
  | restart => exact Iff.rfl
  | request client text draw =>
      refine forall_congr' fun asks => ?_
      rw [stepped]
      simp only [Option.some.injEq, forall_eq']
      cases stepped_of_step stepped with
      | given _ _ _ session asks carries fresh =>
          have none_held : st.held client = none := by
            cases held : st.held client with
            | none => rfl
            | some id =>
                rw [held] at carries
                exact absurd carries (inv.held client id held).1
          have absent : sessionid draw ∉ st.server.sessionManager :=
            fun member => fresh (inv.filed _ member)
          constructor
          · exact fun _ => .inl none_held
          · exact fun _ => ⟨sessionid draw, session, Function.update_self ..,
              getSession_insert_new absent⟩
      | kept _ _ _ keeps =>
          cases held : st.held client with
          | none => exact absurd (by rw [held]; rfl) (keeps asks)
          | some id =>
              have live := (inv.held client id held).2.2.2
              constructor
              · intro established
                obtain ⟨id', session, same, found⟩ := established
                cases same
                right
                rw [← live]
                exact AList.lookup_isSome.mp (by
                  rw [show st.server.sessionManager.lookup id = some session from found]
                  rfl)
              · intro notStale
                rcases notStale with none_held | recent
                · cases none_held
                · obtain ⟨session, found⟩ :=
                    Option.isSome_iff_exists.mp (AList.lookup_isSome.mpr (live.mpr recent))
                  exact ⟨id, session, rfl, found⟩

/-! ## Every history -/

/-- In a history of requests and restarts every login establishes a session exactly if
nobody asks for `/login` with an id from before the last restart. -/
theorem established_iff_not_stale {events : List Event} {last : State}
    (ran : play step start events = some last) :
    Throughout step Established start events ↔ Throughout step NotStale start events :=
  throughout_iff_of_play Inv (fun _ _ _ inv stepped => established_iff inv stepped)
    (fun _ _ _ inv stepped => inv.stepped (stepped_of_step stepped)) inv_start ran

def loginText (held : Option Bytes) : Bytes :=
  requestText (ascii "GET /login HTTP/1.1") (clientHeader [] held) []

/-- A client logs in twice, the second time with the id it was given. -/
theorem established_iff_not_stale_twice :
    Throughout step Established start
      [.request 0 (loginText none) ⟨5, 100⟩,
        .request 0 (loginText (some (ascii "105"))) ⟨6, 101⟩] := by
  have ran : play step start
      [.request 0 (loginText none) ⟨5, 100⟩,
        .request 0 (loginText (some (ascii "105"))) ⟨6, 101⟩] = some _ := rfl
  refine (established_iff_not_stale ran).mpr ⟨fun _ => .inl rfl, ?_⟩
  rintro _ ⟨⟩
  exact ⟨fun _ => .inr rfl, fun _ _ => trivial⟩

/-- The server is restarted between the two logins. -/
theorem stale_id_kept :
    let events : List Event := [.request 0 (loginText none) ⟨5, 100⟩, .restart,
      .request 0 (loginText (some (ascii "105"))) ⟨6, 101⟩]
    (play step start events).isSome = true ∧
      ¬ Throughout step Established start events := by
  intro events
  refine ⟨rfl, ?_⟩
  intro established
  have again := ((established.2 _ rfl).2 _ rfl).1 rfl _ rfl
  obtain ⟨id, session, -, found⟩ := again
  cases found

end LinuxSystemLearning.Sessions
