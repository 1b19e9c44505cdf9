import LinuxSystemLearning.Session.Splitting

/-!
# Cookies

A client sends the cookies it holds as one or more lists of pairs.  `Parse` takes the
first list only, finds an id only at its front, and takes what is behind it for the id.
-/

set_option autoImplicit false

namespace LinuxSystemLearning.Sessions

open LinuxSystemLearning.Cxx

/-! ## Requests with cookies -/

structure Cookie where
  name : Bytes
  value : Bytes
  deriving DecidableEq

/-- A header line: a list of cookies, or any other one. -/
inductive Field where
  | plain (line : Bytes)
  | cookies (list : List Cookie)

def Cookie.text (cookie : Cookie) : Bytes := cookie.name ++ 61 :: cookie.value

def joined : List Cookie → Bytes
  | [] => []
  | [cookie] => cookie.text
  | cookie :: next :: list => cookie.text ++ 59 :: 32 :: joined (next :: list)

def Field.line : Field → Bytes
  | .plain line => line
  | .cookies list => ascii "Cookie: " ++ joined list

def Field.list : Field → List Cookie
  | .plain _ => []
  | .cookies list => list

def Cookie.Good (cookie : Cookie) : Prop :=
  (59 ∉ cookie.name ∧ 61 ∉ cookie.name ∧ find httpSep cookie.name = none) ∧
    59 ∉ cookie.value ∧ find httpSep cookie.value = none

def Field.Good : Field → Prop
  | .plain line => line ≠ [] ∧ find httpSep line = none ∧ behind (ascii "Cookie: ") line = none
  | .cookies list => ∀ cookie ∈ list, cookie.Good

instance (cookie : Cookie) : Decidable cookie.Good :=
  inferInstanceAs (Decidable ((59 ∉ cookie.name ∧ 61 ∉ cookie.name ∧
    find httpSep cookie.name = none) ∧ 59 ∉ cookie.value ∧ find httpSep cookie.value = none))

instance (field : Field) : Decidable field.Good :=
  match field with
  | .plain line => inferInstanceAs (Decidable (line ≠ [] ∧ find httpSep line = none ∧
      behind (ascii "Cookie: ") line = none))
  | .cookies list => inferInstanceAs (Decidable (∀ cookie ∈ list, cookie.Good))

def isId (cookie : Cookie) : Bool := cookie.name = ascii "sessionid"

/-- The cookies with the name of the id, in all lists. -/
def ids (fields : List Field) : List Cookie := (fields.flatMap Field.list).filter isId

/-- A request with at least one list of cookies, at most one of which is an id. -/
structure CookieRequest where
  line : Bytes
  fields : List Field
  content : Bytes
  line_whole : find httpSep line = none
  fields_good : ∀ field ∈ fields, field.Good
  some_cookies : ∃ list, .cookies list ∈ fields
  one_id : (ids fields).length ≤ 1

def CookieRequest.text (request : CookieRequest) : Bytes :=
  requestText request.line (request.fields.map Field.line) request.content

def CookieRequest.id (request : CookieRequest) : Bytes :=
  ((ids request.fields).head?.map Cookie.value).getD []

def IdFound (request : CookieRequest) : Prop :=
  (parseRequest request.text).sessionid = request.id

def firstList : List Field → List Cookie
  | [] => []
  | .plain _ :: fields => firstList fields
  | .cookies list :: _ => list

/-! ## One line -/

theorem find_append_eq_none {front back : Bytes} (first : find httpSep front = none)
    (second : find httpSep back = none) (start : back.head? ≠ some 10) :
    find httpSep (front ++ back) = none := by
  induction front with
  | nil => exact second
  | cons byte front ih =>
      have parts : ¬ httpSep.isPrefixOf (byte :: front) ∧ find httpSep front = none := by
        rw [find] at first
        split at first
        · cases first
        · rename_i different
          exact ⟨different, Option.map_eq_none_iff.mp first⟩
      have different : ¬ httpSep.isPrefixOf (byte :: (front ++ back)) := by
        rw [List.isPrefixOf_iff_prefix, httpSep, List.cons_prefix_cons]
        rintro ⟨same, here⟩
        cases front with
        | nil =>
            obtain ⟨rest, text⟩ := here
            rw [List.nil_append] at text
            rw [← text] at start
            exact start rfl
        | cons next front =>
            rw [List.cons_append, List.cons_prefix_cons] at here
            apply parts.1
            rw [← same, ← here.1, List.isPrefixOf_iff_prefix]
            exact List.prefix_append [13, 10] front
      rw [List.cons_append, find, if_neg different, ih parts.2]
      rfl

theorem find_cons_of_ne {byte : UInt8} {text : Bytes} (other : byte ≠ 13)
    (whole : find httpSep text = none) : find httpSep (byte :: text) = none := by
  have absent : (13 : UInt8) ∉ [byte] := by
    rw [List.mem_singleton]
    exact fun same => other same.symm
  rw [← List.singleton_append, find_httpSep_skip absent, whole]
  rfl

theorem Cookie.Good.find_text {cookie : Cookie} (good : cookie.Good) :
    find httpSep cookie.text = none :=
  find_append_eq_none good.1.2.2 (find_cons_of_ne (by decide) good.2.2) (by simp)

theorem find_joined {list : List Cookie} (good : ∀ cookie ∈ list, cookie.Good) :
    find httpSep (joined list) = none := by
  induction list using joined.induct with
  | case1 => rfl
  | case2 cookie => exact (good cookie (List.mem_singleton_self cookie)).find_text
  | case3 cookie next list ih =>
      have first := (good cookie List.mem_cons_self).find_text
      have rest := ih fun other member => good other (List.mem_cons_of_mem _ member)
      have space : find httpSep (32 :: joined (next :: list)) = none :=
        find_cons_of_ne (by decide) rest
      exact find_append_eq_none first (find_cons_of_ne (by decide) space) (by simp)

theorem Field.Good.find_line {field : Field} (good : field.Good) :
    find httpSep field.line = none := by
  cases field with
  | plain line => exact good.2.1
  | cookies list =>
      have front : (13 : UInt8) ∉ ascii "Cookie: " := by decide
      rw [Field.line, find_httpSep_skip front, find_joined good]
      rfl

theorem Field.Good.line_ne_nil {field : Field} (good : field.Good) : field.line ≠ [] := by
  cases field with
  | plain line => exact good.1
  | cookies list => exact List.append_ne_nil_of_left_ne_nil (by decide) _

/-! ## What `Parse` takes -/

theorem cut_prefix_iff {mark : UInt8} {start start' rest rest' : Bytes} (absent : mark ∉ start)
    (absent' : mark ∉ start') :
    start ++ mark :: rest <+: start' ++ mark :: rest' ↔ start = start' ∧ rest <+: rest' := by
  induction start generalizing start' with
  | nil =>
      cases start' with
      | nil => simp
      | cons byte start' =>
          have other : mark ≠ byte := fun same => absent' (same ▸ List.mem_cons_self)
          simp [other]
  | cons byte start ih =>
      have other : byte ≠ mark := fun same => absent (same ▸ List.mem_cons_self)
      cases start' with
      | nil => simp [other]
      | cons byte' start' =>
          have inner := ih (fun member => absent (List.mem_cons_of_mem _ member))
            (fun member => absent' (List.mem_cons_of_mem _ member))
          rw [List.cons_append, List.cons_append, List.cons_prefix_cons, inner, List.cons.injEq,
            and_assoc]

/-- The name of a cookie ends at the first `=`. -/
theorem behind_text {cookie : Cookie} (good : cookie.Good) (rest : Bytes) :
    behind (ascii "sessionid=") (cookie.text ++ rest) =
      if isId cookie then some (cookie.value ++ rest) else none := by
  have start : ascii "sessionid=" = ascii "sessionid" ++ [61] := rfl
  have parts : cookie.text ++ rest = cookie.name ++ 61 :: (cookie.value ++ rest) := by
    rw [Cookie.text, List.append_assoc, List.cons_append]
  by_cases named : cookie.name = ascii "sessionid"
  · have shape : cookie.text ++ rest = ascii "sessionid=" ++ (cookie.value ++ rest) := by
      rw [parts, named, start, List.append_assoc, List.singleton_append]
    rw [shape, behind_append, isId, if_pos (decide_eq_true named)]
  · have different : ¬ (ascii "sessionid=").isPrefixOf (cookie.text ++ rest) := by
      rw [List.isPrefixOf_iff_prefix, parts, start, cut_prefix_iff (by decide) good.1.2.1]
      exact fun here => named here.1.symm
    rw [behind, if_neg different, isId, decide_eq_false named]
    rfl

theorem joined_eq_text (cookie : Cookie) (list : List Cookie) :
    ∃ rest, joined (cookie :: list) = cookie.text ++ rest ∧ (rest = [] ↔ list = []) := by
  cases list with
  | nil => exact ⟨[], (List.append_nil _).symm, by simp⟩
  | cons next list => exact ⟨_, rfl, by simp⟩

theorem cookieOf_fields {fields : List Field} (good : ∀ field ∈ fields, field.Good)
    (some_cookies : ∃ list, .cookies list ∈ fields) :
    cookieOf (fields.map Field.line) = some (joined (firstList fields)) := by
  induction fields with
  | nil =>
      obtain ⟨list, member⟩ := some_cookies
      cases member
  | cons field fields ih =>
      unfold cookieOf at ih ⊢
      rw [List.map_cons, List.findSome?_cons]
      cases field with
      | plain line =>
          have other := (good (.plain line) List.mem_cons_self).2.2
          obtain ⟨list, member⟩ := some_cookies
          have later : Field.cookies list ∈ fields := by simpa using member
          rw [Field.line, other]
          exact ih (fun field inside => good field (List.mem_cons_of_mem _ inside)) ⟨list, later⟩
      | cookies list =>
          rw [Field.line, behind_append]
          rfl

theorem firstList_subset (fields : List Field) :
    firstList fields ⊆ fields.flatMap Field.list := by
  induction fields with
  | nil => exact List.Subset.refl _
  | cons field fields ih =>
      rw [List.flatMap_cons]
      cases field with
      | plain line => exact ih
      | cookies list => exact List.subset_append_left _ _

theorem firstList_good {fields : List Field} (good : ∀ field ∈ fields, field.Good) :
    ∀ cookie ∈ firstList fields, cookie.Good := by
  intro cookie member
  obtain ⟨field, inFields, inList⟩ := List.mem_flatMap.mp (firstList_subset fields member)
  cases field with
  | plain line => cases inList
  | cookies list => exact good (.cookies list) inFields cookie inList

theorem parseRequest_sessionid (request : CookieRequest) :
    (parseRequest request.text).sessionid =
      (behind (ascii "sessionid=") (joined (firstList request.fields))).getD [] := by
  have lines : ∀ line ∈ request.fields.map Field.line, line ≠ [] ∧ find httpSep line = none := by
    intro line member
    obtain ⟨field, inFields, rfl⟩ := List.mem_map.mp member
    have good := request.fields_good field inFields
    exact ⟨good.line_ne_nil, good.find_line⟩
  have taken := cookieOf_fields request.fields_good request.some_cookies
  rw [parseRequest, CookieRequest.text, deserialize_requestText request.line_whole
    (fun line member => (lines line member).1) (fun line member => (lines line member).2)]
  show sessionIdLoop ([] ++ (cookieOf (request.fields.map Field.line)).toList) [] = _
  rw [taken]
  rfl

theorem ids_eq_singleton {request : CookieRequest} {cookie : Cookie}
    (member : cookie ∈ firstList request.fields) (named : isId cookie = true) :
    ids request.fields = [cookie] := by
  have inIds : cookie ∈ ids request.fields :=
    List.mem_filter.mpr ⟨firstList_subset request.fields member, named⟩
  have one := request.one_id
  match all : ids request.fields with
  | [] =>
      rw [all] at inIds
      cases inIds
  | [other] =>
      rw [all, List.mem_singleton] at inIds
      rw [inIds]
  | first :: second :: rest =>
      rw [all] at one
      simp at one

/-- `Parse` finds the id exactly if the first list is the id and nothing else, or there is
no id to find, or only an empty one, and the first list does not begin with it. -/
theorem idFound_iff (request : CookieRequest) :
    IdFound request ↔ firstList request.fields = ids request.fields ∨
      request.id = [] ∧ ∀ cookie ∈ (firstList request.fields).head?, isId cookie = false := by
  rw [IdFound, parseRequest_sessionid]
  cases first : firstList request.fields with
  | nil =>
      have nothing : (behind (ascii "sessionid=") (joined [])).getD [] = [] := rfl
      rw [nothing]
      constructor
      · intro empty
        exact Or.inr ⟨empty.symm, by simp⟩
      · rintro (none_at_all | ⟨empty, -⟩)
        · rw [CookieRequest.id, ← none_at_all]
          rfl
        · exact empty.symm
  | cons cookie list =>
      have member : cookie ∈ firstList request.fields := by simp [first]
      have good := firstList_good request.fields_good cookie member
      obtain ⟨rest, shape, last⟩ := joined_eq_text cookie list
      rw [shape, behind_text good]
      cases named : isId cookie with
      | true =>
          have all := ids_eq_singleton member named
          have id : request.id = cookie.value := by
            rw [CookieRequest.id, all]
            rfl
          rw [all, id]
          simp [named, last]
      | false =>
          have absent : cookie :: list ≠ ids request.fields := by
            intro same
            have inIds : cookie ∈ ids request.fields := by simp [← same]
            have named' := (List.mem_filter.mp inIds).2
            rw [named] at named'
            cases named'
          have other : ∀ next ∈ (cookie :: list).head?, isId next = false := by simp [named]
          show [] = request.id ↔ _
          rw [or_iff_right absent, and_iff_left other]
          exact eq_comm

/-- The cookie that `ProveCookieWrite` sets comes first. -/
def twoCookies : CookieRequest where
  line := ascii "GET / HTTP/1.1"
  fields := [.plain (ascii "Host: a"),
    .cookies [⟨ascii "username", ascii "zhangsan"⟩, ⟨ascii "sessionid", ascii "1234"⟩]]
  content := []
  line_whole := by decide
  fields_good := by decide
  some_cookies := ⟨_, List.mem_cons_of_mem _ List.mem_cons_self⟩
  one_id := by decide

theorem second_cookie_missed : ¬ IdFound twoCookies := by
  unfold IdFound
  decide

end LinuxSystemLearning.Sessions
