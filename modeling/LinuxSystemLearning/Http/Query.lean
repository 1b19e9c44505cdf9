import LinuxSystemLearning.Http.StaticFiles

/-!
# The query of a request

What is behind the first `?` of a URI is cut off as the arguments.  The home page is put
in for the URI `/` before that, so `/` with a query stands for another file than `/`.
-/

set_option autoImplicit false

namespace LinuxSystemLearning.HttpServer

open LinuxSystemLearning.Cxx

/-- The text of a request: the three words of its first line, and what follows. -/
def requestText (method target version rest : Bytes) : Bytes :=
  method ++ 32 :: (target ++ 32 :: (version ++ gline ++ rest))

def Solid (text : Bytes) : Prop := ∀ byte ∈ text, isspace byte = false

instance (text : Bytes) : Decidable (Solid text) :=
  List.decidableBAll (fun byte => isspace byte = false) text

def withQuery (path query : Bytes) : Bytes := path ++ 63 :: query

/-- The request with the query has the target of the one without, and the query as its
arguments. -/
structure QueryApart (method path query version rest : Bytes) : Prop where
  uri : (deserialize (requestText method (withQuery path query) version rest)).uri =
    (deserialize (requestText method path version rest)).uri
  args : (deserialize (requestText method (withQuery path query) version rest)).args = query
  isInteract :
    (deserialize (requestText method (withQuery path query) version rest)).isInteract = true
  noArgs : (deserialize (requestText method path version rest)).args = []
  notInteract : (deserialize (requestText method path version rest)).isInteract = false

theorem Solid.not_mem_return {text : Bytes} (solid : Solid text) : 13 ∉ text := by
  intro member
  have space := solid 13 member
  cases space

theorem requestLine_requestText {method target : Bytes} (version rest : Bytes)
    (first : Solid method) (second : Solid target) :
    ∃ tail, requestLine (requestText method target version rest) =
      method ++ 32 :: (target ++ 32 :: tail) := by
  have front : (13 : UInt8) ∉ method ++ 32 :: (target ++ [32]) := by
    rw [List.mem_append, List.mem_cons, List.mem_append, List.mem_singleton]
    rintro (inMethod | space | inTarget | space)
    · exact first.not_mem_return inMethod
    · exact absurd space (by decide)
    · exact second.not_mem_return inTarget
    · exact absurd space (by decide)
  have split : requestText method target version rest =
      (method ++ 32 :: (target ++ [32])) ++ (version ++ gline ++ rest) := by
    simp [requestText]
  have here : gline <+: (version ++ gline ++ rest).drop version.length := by
    rw [List.append_assoc, List.drop_left]
    exact List.prefix_append gline rest
  obtain ⟨pos, -, found⟩ := exists_find_le here
  refine ⟨(version ++ gline ++ rest).take pos, ?_⟩
  have whole : find gline (requestText method target version rest) =
      some (pos + (method ++ 32 :: (target ++ [32])).length) := by
    rw [split, gline, find_skip front, ← gline, found]
    rfl
  rw [requestLine, readOneLine, whole]
  dsimp only
  rw [split, Nat.add_comm, List.take_length_add_append]
  simp

theorem requestUri_requestText {method target : Bytes} (version rest : Bytes)
    (named : method ≠ []) (first : Solid method) (nonempty : target ≠ [])
    (second : Solid target) : requestUri (requestText method target version rest) = target := by
  obtain ⟨tail, line⟩ := requestLine_requestText version rest first second
  have word : extract (method ++ 32 :: (target ++ 32 :: tail)) =
      (method, 32 :: (target ++ 32 :: tail)) := extract_word named first _
  have next : extract (32 :: (target ++ 32 :: tail)) = (target, 32 :: tail) := by
    rw [extract_space]
    exact extract_word nonempty second _
  rw [requestUri, line, parseReqLine, word]
  dsimp only
  rw [next]

/-- The first question mark parts the file from the arguments. -/
theorem cutArgs_question {request : HttpRequest} {file query : Bytes} (plain : 63 ∉ file)
    (uri : request.uri = withQuery file query) :
    cutArgs request = { request with uri := file, args := query, isInteract := true } := by
  have found : find (ascii "?") request.uri = some file.length := by
    rw [uri, withQuery, show ascii "?" = [63] from rfl, find_skip plain]
    simp [find]
  have front : substr request.uri 0 file.length = file := by
    rw [uri, withQuery, substr, if_neg (Int.not_lt.mpr (Int.natCast_nonneg _)), List.drop_zero,
      Int.toNat_natCast, List.take_left]
  have back : request.uri.drop (file.length + 1) = query := by
    rw [uri, withQuery, ← List.singleton_append, ← List.append_assoc]
    exact List.drop_left' (by rw [List.length_append]; rfl)
  rw [cutArgs, found]
  dsimp only
  rw [front, back]

theorem deserialize_eq {reqstr target : Bytes} (uri : requestUri reqstr = target) :
    deserialize reqstr =
      cutArgs { parseReqLine (requestLine reqstr) with uri := withRoot target } := by
  rw [← uri]
  rfl

section

variable {method path query : Bytes} (version rest : Bytes) (named : method ≠ [])
  (first : Solid method) (plain : 63 ∉ path) (second : Solid path)

include named first plain second

theorem deserialize_withQuery (third : Solid query) :
    (deserialize (requestText method (withQuery path query) version rest)).uri =
        webroot ++ path ∧
      (deserialize (requestText method (withQuery path query) version rest)).args = query ∧
      (deserialize (requestText method (withQuery path query) version rest)).isInteract =
        true := by
  have solid : Solid (withQuery path query) := by
    intro byte member
    rcases List.mem_append.mp member with inPath | member
    · exact second byte inPath
    · rcases List.mem_cons.mp member with rfl | inQuery
      · rfl
      · exact third byte inQuery
  have target : requestUri (requestText method (withQuery path query) version rest) =
      withQuery path query :=
    requestUri_requestText version rest named first
      (List.append_ne_nil_of_right_ne_nil _ (List.cons_ne_nil _ _)) solid
  have other : withQuery path query ≠ ascii "/" := by
    intro same
    have question : (63 : UInt8) ∈ ascii "/" := by
      rw [← same]
      exact List.mem_append_right _ List.mem_cons_self
    exact absurd question (by decide)
  have rooted : withRoot (withQuery path query) = withQuery (webroot ++ path) query := by
    rw [withRoot, if_neg other, withQuery, withQuery, List.append_assoc]
  have noQuestion : (63 : UInt8) ∉ webroot ++ path := by
    rw [List.mem_append, not_or]
    exact ⟨by decide, plain⟩
  rw [deserialize_eq target, cutArgs_question noQuestion rooted]
  exact ⟨rfl, rfl, rfl⟩

theorem deserialize_withoutQuery (nonempty : path ≠ []) :
    (deserialize (requestText method path version rest)).uri = withRoot path ∧
      (deserialize (requestText method path version rest)).args = [] ∧
      (deserialize (requestText method path version rest)).isInteract = false := by
  have target : requestUri (requestText method path version rest) = path :=
    requestUri_requestText version rest named first nonempty second
  have noQuestion : (63 : UInt8) ∉ withRoot path := question_mem_withRoot.not.mpr plain
  rw [deserialize_eq target, cutArgs_plain noQuestion]
  exact ⟨rfl, rfl, rfl⟩

end

/-- A query leaves the target as it is for every path but `/`. -/
theorem query_apart_iff {method path query : Bytes} (version rest : Bytes)
    (named : method ≠ []) (first : Solid method) (slash : path.head? = some 47)
    (plain : 63 ∉ path) (second : Solid path) (third : Solid query) :
    QueryApart method path query version rest ↔ path ≠ ascii "/" := by
  have nonempty : path ≠ [] := by
    rintro rfl
    cases slash
  obtain ⟨uri, args, isInteract⟩ :=
    deserialize_withQuery version rest named first plain second third
  obtain ⟨uri', noArgs, notInteract⟩ :=
    deserialize_withoutQuery version rest named first plain second nonempty
  constructor
  · rintro apart rfl
    have same := uri.symm.trans (apart.uri.trans uri')
    exact absurd same (by decide)
  · intro other
    refine ⟨?_, args, isInteract, noArgs, notInteract⟩
    rw [uri, uri', withRoot, if_neg other]

theorem query_apart_login :
    QueryApart (ascii "GET") (ascii "/login") (ascii "name=a?b") (ascii "HTTP/1.1") gline :=
  (query_apart_iff _ _ (by decide) (by decide) rfl (by decide) (by decide) (by decide)).mpr
    (by decide)

/-- The home page with a query is the directory itself. -/
theorem query_moves_home_page :
    ¬ QueryApart (ascii "GET") (ascii "/") (ascii "a=1") (ascii "HTTP/1.1") gline := by
  intro apart
  exact absurd apart.uri (by decide)

end LinuxSystemLearning.HttpServer
