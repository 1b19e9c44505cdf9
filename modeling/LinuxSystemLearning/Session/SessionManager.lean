import LinuxSystemLearning.Cxx.Text
import LinuxSystemLearning.Library.History
import Mathlib.Data.List.AList

/-!
# The table of sessions

`SessionManager` files a session under the decimal text of the low 32 bits of
`rand() + time(nullptr)`.  `insert` leaves an entry that is there alone, so a session
whose number was drawn before is filed nowhere, and its id is that of another one.
-/

set_option autoImplicit false

namespace LinuxSystemLearning.Sessions

open LinuxSystemLearning.Cxx
open LinuxSystemLearning.History

variable {σ : Type}

/-- What `rand()` and `time(nullptr)` return in a call of `AddSession`. -/
structure Draw where
  rand : Int
  time : Int

def randomid (draw : Draw) : UInt32 := UInt32.ofInt (draw.rand + draw.time)

def sessionid (draw : Draw) : Bytes := stdToString (randomid draw).toNat

/-- `_sessions`; a session is a pointer to it. -/
abbrev SessionManager (σ : Type) := AList fun _ : Bytes => σ

/-- `std::unordered_map::insert`, which does not overwrite. -/
def insert (id : Bytes) (session : σ) (manager : SessionManager σ) : SessionManager σ :=
  if id ∈ manager then manager else manager.insert id session

def addSession (draw : Draw) (session : σ) (manager : SessionManager σ) :
    Bytes × SessionManager σ :=
  (sessionid draw, insert (sessionid draw) session manager)

def getSession (id : Bytes) (manager : SessionManager σ) : Option σ :=
  manager.lookup id

structure Call (σ : Type) where
  draw : Draw
  session : σ

def managerAfter (calls : List (Call σ)) : SessionManager σ :=
  calls.foldl (fun manager call => (addSession call.draw call.session manager).2) ∅

/-- The call returns an id that no call before it has returned; under it, and under the
ids of the calls before, the sessions of these calls are found. -/
structure Unconfused (calls : List (Call σ)) (call : Call σ) : Prop where
  found : getSession (sessionid call.draw) (managerAfter (calls ++ [call])) =
    some call.session
  kept : ∀ earlier ∈ calls, getSession (sessionid earlier.draw)
    (managerAfter (calls ++ [call])) = some earlier.session
  distinct : ∀ earlier ∈ calls, sessionid earlier.draw ≠ sessionid call.draw

def FreshDraw (calls : List (Call σ)) (call : Call σ) : Prop :=
  ∀ earlier ∈ calls, randomid earlier.draw ≠ randomid call.draw

/-! ## The entry of an id -/

theorem sessionid_eq_iff {draw draw' : Draw} :
    sessionid draw = sessionid draw' ↔ randomid draw = randomid draw' := by
  constructor
  · intro same
    exact UInt32.toNat_inj.mp (stdToString_injective same)
  · intro same
    rw [sessionid, same, sessionid]

theorem getSession_insert_new {id : Bytes} {session : σ} {manager : SessionManager σ}
    (fresh : id ∉ manager) : getSession id (insert id session manager) = some session := by
  rw [insert, if_neg fresh]
  exact AList.lookup_insert manager

theorem getSession_insert_ne {id other : Bytes} {session : σ} {manager : SessionManager σ}
    (different : other ≠ id) :
    getSession other (insert id session manager) = getSession other manager := by
  unfold insert
  split
  · rfl
  · exact AList.lookup_insert_ne different

theorem mem_insert {id other : Bytes} {session : σ} {manager : SessionManager σ} :
    other ∈ insert id session manager ↔ other = id ∨ other ∈ manager := by
  unfold insert
  split
  · rename_i present
    constructor
    · exact .inr
    · rintro (rfl | member)
      · exact present
      · exact member
  · exact AList.mem_insert manager

theorem managerAfter_concat (calls : List (Call σ)) (call : Call σ) :
    managerAfter (calls ++ [call]) =
      insert (sessionid call.draw) call.session (managerAfter calls) := by
  rw [managerAfter, List.foldl_append]
  rfl

/-! ## Every history -/

/-- Every session added so far is found, and nothing else is filed. -/
structure Filed (calls : List (Call σ)) : Prop where
  found : ∀ call ∈ calls,
    getSession (sessionid call.draw) (managerAfter calls) = some call.session
  only : ∀ id, id ∈ managerAfter calls → ∃ call ∈ calls, id = sessionid call.draw

theorem filed_nil : Filed ([] : List (Call σ)) :=
  ⟨fun _ member => absurd member List.not_mem_nil,
    fun _ member => absurd member (AList.notMem_empty _)⟩

theorem Filed.not_mem {calls : List (Call σ)} {call : Call σ} (filed : Filed calls)
    (fresh : FreshDraw calls call) : sessionid call.draw ∉ managerAfter calls := by
  intro member
  obtain ⟨earlier, before, same⟩ := filed.only _ member
  exact fresh earlier before (sessionid_eq_iff.mp same.symm)

theorem Filed.unconfused {calls : List (Call σ)} {call : Call σ} (filed : Filed calls)
    (fresh : FreshDraw calls call) : Unconfused calls call := by
  have distinct : ∀ earlier ∈ calls, sessionid earlier.draw ≠ sessionid call.draw :=
    fun earlier before same => fresh earlier before (sessionid_eq_iff.mp same)
  refine ⟨?_, ?_, distinct⟩
  · rw [managerAfter_concat]
    exact getSession_insert_new (filed.not_mem fresh)
  · intro earlier before
    rw [managerAfter_concat, getSession_insert_ne (distinct earlier before)]
    exact filed.found earlier before

theorem Filed.concat {calls : List (Call σ)} {call : Call σ} (filed : Filed calls)
    (fresh : FreshDraw calls call) : Filed (calls ++ [call]) := by
  have unconfused := filed.unconfused fresh
  refine ⟨?_, ?_⟩
  · intro other member
    rcases List.mem_append.mp member with before | last
    · exact unconfused.kept other before
    · rw [List.mem_singleton.mp last]
      exact unconfused.found
  · intro id member
    rw [managerAfter_concat, mem_insert] at member
    rcases member with rfl | before
    · exact ⟨call, List.mem_append_right _ (List.mem_singleton_self call), rfl⟩
    · obtain ⟨earlier, inCalls, same⟩ := filed.only id before
      exact ⟨earlier, List.mem_append_left _ inCalls, same⟩

theorem each_freshDraw_iff (calls : List (Call σ)) :
    Each FreshDraw calls ↔ (calls.map fun call => randomid call.draw).Nodup := by
  induction calls using List.reverseRecOn with
  | nil => exact ⟨fun _ => List.nodup_nil, fun _ => each_nil⟩
  | append_singleton calls last ih =>
      rw [each_concat, ih, List.map_append, List.nodup_append]
      constructor
      · intro both
        refine ⟨both.1, List.nodup_singleton _, ?_⟩
        intro id member other single
        obtain ⟨earlier, before, rfl⟩ := List.mem_map.mp member
        rw [List.mem_singleton.mp single]
        exact both.2 earlier before
      · intro parts
        refine ⟨parts.1, ?_⟩
        intro earlier before
        exact parts.2.2 _ (List.mem_map_of_mem before) _ (List.mem_singleton_self _)

/-- Sessions are never confused in a history exactly if no two of its calls draw the
same number. -/
theorem unconfused_iff_nodup (calls : List (Call σ)) :
    Each Unconfused calls ↔ (calls.map fun call => randomid call.draw).Nodup := by
  rw [← each_freshDraw_iff]
  refine each_iff Filed filed_nil (fun _ _ filed fresh => filed.concat fresh) ?_ calls
  intro calls call filed
  constructor
  · intro unconfused earlier before same
    exact unconfused.distinct earlier before (sessionid_eq_iff.mpr same)
  · exact filed.unconfused

/-- The clock is a second further and `rand()` one less: the second user is given the
id of the first. -/
theorem second_session_lost :
    ¬ Each Unconfused [⟨⟨5, 100⟩, "first"⟩, ⟨⟨4, 101⟩, "second"⟩] := by
  intro unconfused
  have second := unconfused [⟨⟨5, 100⟩, "first"⟩] ⟨⟨4, 101⟩, "second"⟩ [] rfl
  exact second.distinct ⟨⟨5, 100⟩, "first"⟩ (List.mem_singleton_self _) rfl

end LinuxSystemLearning.Sessions
