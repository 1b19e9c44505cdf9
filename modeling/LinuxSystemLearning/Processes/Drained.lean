import LinuxSystemLearning.Library.Tally
import LinuxSystemLearning.Processes.Shutdown

/-!
# What a child has read when the pool is stopped

`Close` leaves the codes that are still in the pipe; the child finds the end of the file only
behind them.  So whatever `Run` wrote to a channel has been read when `CloseAndWait` returns.
-/

set_option autoImplicit false

namespace LinuxSystemLearning.ProcessPool

open LinuxSystemLearning.FdTable LinuxSystemLearning.Interleaving

/-! ## An ended child has an empty pipe -/

def codes (p : Nat) (st : State) : Nat := st.pipes.getD p 0

/-- Who has ended has read all, and nobody can write to it any more; nobody writes to a pipe
that is not a channel's. -/
structure DrainInv (st : State) : Prop extends Inv st where
  drained : ∀ (j : Nat) (child : Child), st.children[j]? = some child →
    child.stage = .exited true → codes j st = 0 ∧ isOpen (.writeEnd j) st = false
  silent : ∀ p, st.channels.length ≤ p → codes p st = 0

variable {st after : State} {j : Nat}

theorem isOpen_eq_false {desc : Desc} :
    isOpen desc st = false ↔
      desc ∉ st.table.descs ∧ ∀ child ∈ st.children, desc ∉ child.table.descs := by
  rw [isOpen, Bool.or_eq_false_iff, decide_eq_false_iff_not, List.any_eq_false]
  simp only [decide_eq_true_eq]

theorem descs_close {table : Table Desc} {fd : Nat} {desc : Desc}
    (absent : desc ∉ table.descs) : desc ∉ (table.close fd).descs := by
  intro member
  obtain ⟨other, member⟩ := Table.mem_descs.mp member
  exact absent (Table.mem_descs.mpr ⟨other, (Table.mem_close.mp member).1⟩)

theorem descs_insert {table : Table Desc} {desc new : Desc} (different : desc ≠ new)
    (absent : desc ∉ table.descs) : desc ∉ (table.insert new).descs := by
  intro member
  obtain ⟨fd, member⟩ := Table.mem_descs.mp member
  rcases Table.mem_insert.mp member with ⟨-, same⟩ | before
  · exact different same
  · exact absent (Table.mem_descs.mpr ⟨fd, before⟩)

/-- A child that opens nothing takes the place of one. -/
theorem isOpen_put {child old : Child} {desc : Desc} (found : st.children[j]? = some old)
    (fewer : desc ∉ old.table.descs → desc ∉ child.table.descs)
    (closed : isOpen desc st = false) : isOpen desc (put j child st) = false := by
  obtain ⟨parent, children⟩ := isOpen_eq_false.mp closed
  refine isOpen_eq_false.mpr ⟨parent, ?_⟩
  intro other member
  rcases List.mem_or_eq_of_mem_set member with before | isNew
  · exact children other before
  · rw [isNew]
    exact fewer (children old (List.mem_of_getElem? found))

theorem DrainInv.put {child old : Child} (inv : DrainInv st)
    (found : st.children[j]? = some old) (kept : Inv (put j child st))
    (fewer : ∀ desc, desc ∉ old.table.descs → desc ∉ child.table.descs)
    (ended : child.stage = .exited true → codes j st = 0 ∧ isOpen (.writeEnd j) st = false) :
    DrainInv (ProcessPool.put j child st) := by
  refine ⟨kept, ?_, inv.silent⟩
  intro k other there exited
  by_cases same : j = k
  · rw [ProcessPool.put, ← same,
      List.getElem?_set_self (List.getElem?_eq_some_iff.mp found).1] at there
    cases there
    obtain ⟨empty, closed⟩ := ended exited
    exact same ▸ ⟨empty, isOpen_put found (fewer _) closed⟩
  · rw [ProcessPool.put, List.getElem?_set_ne same] at there
    obtain ⟨empty, closed⟩ := inv.drained k other there exited
    exact ⟨empty, isOpen_put found (fewer _) closed⟩

theorem codes_set (p q count : Nat) (inside : q < st.pipes.length) :
    codes p { st with pipes := st.pipes.set q count } = if q = p then count else codes p st := by
  unfold codes
  dsimp only
  rw [List.getD_eq_getElem?_getD, List.getElem?_set]
  by_cases same : q = p
  · rw [if_pos same, if_pos same, if_pos inside]
    rfl
  · rw [if_neg same, if_neg same, List.getD_eq_getElem?_getD]

theorem inside_of_codes {p : Nat} (some : 0 < codes p st) : p < st.pipes.length := by
  by_contra past
  rw [codes, List.getD_eq_getElem?_getD, List.getElem?_eq_none (Nat.not_lt.mp past)] at some
  exact Nat.lt_irrefl 0 some

theorem Inv.own_pipe (inv : Inv st) {child : Child} {p : Nat}
    (found : st.children[j]? = some child) (stage : child.stage = .working)
    (reads : child.table.lookup child.rfd = some (.readEnd p)) : p = j := by
  have own := inv.children j child found
  have there := Table.lookup_of_mem own.functional (own.own (by simp [stage]))
  rw [reads] at there
  exact Desc.readEnd.inj (Option.some.inj there)

theorem DrainInv.stepChild (inv : DrainInv st)
    (stepped : ProcessPool.stepChild j st = some after) : DrainInv after := by
  have kept := inv.toInv.stepChild stepped
  cases childMove stepped with
  | close found stage =>
      exact inv.put found kept (fun _ => descs_close) (fun ended => by cases ended)
  | begin found stage => exact inv.put found kept (fun _ => id) (fun ended => by cases ended)
  | @take child p found stage own some =>
      have still : ∀ k, codes k st = 0 →
          codes k { st with pipes := st.pipes.set p (st.pipes.getD p 0 - 1) } = 0 := by
        intro k empty
        rw [codes_set k p _ (inside_of_codes some)]
        split
        · rename_i same
          rw [codes, ← same] at empty
          omega
        · exact empty
      refine ⟨kept, ?_, fun k past => still k (inv.silent k past)⟩
      intro k other there exited
      obtain ⟨empty, closed⟩ := inv.drained k other there exited
      exact ⟨still k empty, closed⟩
  | @eof child p found stage own empty closed =>
      have isOwn : p = j := inv.toInv.own_pipe found stage own
      refine inv.put found kept (fun _ _ => List.not_mem_nil) fun _ => ?_
      rw [← isOwn]
      exact ⟨Nat.le_zero.mp (Nat.not_lt.mp empty), Bool.not_eq_true _ ▸ closed⟩
  | fail found stage other =>
      exact inv.put found kept (fun _ _ => List.not_mem_nil) (fun ended => by cases ended)

theorem Inv.send_eq {i : Nat} (inv : Inv st) (sent : ProcessPool.send i st = some after) :
    st.stage = .running ∧ i < st.channels.length ∧ .writeEnd i ∈ st.table.descs ∧
      after = { st with pipes := st.pipes.set i (codes i st + 1) } := by
  unfold ProcessPool.send at sent
  split at sent
  · rename_i channel running found
    have parent := inv.parent
    rw [running] at parent
    have member := parent.has i channel found (Nat.zero_le i)
    have there := Table.lookup_of_mem parent.functional member
    rw [there] at sent
    cases sent
    exact ⟨running, (List.getElem?_eq_some_iff.mp found).1, Table.mem_descs.mpr ⟨_, member⟩, rfl⟩
  · cases sent

theorem Inv.inside_of_open {p : Nat} (inv : Inv st) (isThere : .writeEnd p ∈ st.table.descs) :
    p < st.pipes.length := by
  obtain ⟨fd, member⟩ := Table.mem_descs.mp isThere
  exact inv.parent.bounded fd p (.inl member)

theorem DrainInv.send {i : Nat} (inv : DrainInv st)
    (sent : ProcessPool.send i st = some after) : DrainInv after := by
  have kept := inv.toInv.send sent
  obtain ⟨running, channel, isThere, rfl⟩ := inv.toInv.send_eq sent
  have still : ∀ k, i ≠ k → codes k st = 0 →
      codes k { st with pipes := st.pipes.set i (codes i st + 1) } = 0 := by
    intro k different empty
    rw [codes_set k i _ (inv.toInv.inside_of_open isThere), if_neg different]
    exact empty
  refine ⟨kept, ?_, ?_⟩
  · intro k other there exited
    obtain ⟨empty, closed⟩ := inv.drained k other there exited
    refine ⟨still k ?_ empty, closed⟩
    rintro rfl
    exact (isOpen_eq_false.mp closed).1 isThere
  · intro k past
    exact still k (Nat.ne_of_lt (Nat.lt_of_lt_of_le channel past)) (inv.silent k past)

/-- A move of the parent that leaves the children and the codes alone, and opens nothing. -/
theorem DrainInv.move {table : Table Desc} {stage : Stage} {channels : List Channel}
    (inv : DrainInv st)
    (kept : Inv { st with stage := stage, table := table, channels := channels })
    (fewer : ∀ desc, desc ∉ st.table.descs → desc ∉ table.descs)
    (longer : st.channels.length ≤ channels.length) :
    DrainInv { st with stage := stage, table := table, channels := channels } := by
  refine ⟨kept, ?_, fun k past => inv.silent k (Nat.le_trans longer past)⟩
  intro k other there exited
  obtain ⟨empty, closed⟩ := inv.drained k other there exited
  obtain ⟨parent, children⟩ := isOpen_eq_false.mp closed
  exact ⟨empty, isOpen_eq_false.mpr ⟨fewer _ parent, children⟩⟩

theorem codes_pipe (i p : Nat) : codes p (pipe i st) = codes p st := by
  unfold codes pipe
  dsimp only
  rw [List.getD_eq_getElem?_getD, List.getD_eq_getElem?_getD]
  rcases Nat.lt_or_ge p st.pipes.length with inside | outside
  · rw [List.getElem?_append_left inside]
  · rw [List.getElem?_append_right outside, List.getElem?_eq_none outside]
    cases past : p - st.pipes.length with
    | zero => rfl
    | succ n => rfl

theorem DrainInv.pipe {i : Nat} (inv : DrainInv st) (stage : st.stage = .loop i)
    (kept : Inv (pipe i st)) : DrainInv (ProcessPool.pipe i st) := by
  have parent := inv.toInv.parent
  rw [stage] at parent
  obtain ⟨children, pipes⟩ := parent.placed
  refine ⟨kept, ?_, fun k past => (codes_pipe i k).trans (inv.silent k past)⟩
  intro k other there exited
  obtain ⟨empty, closed⟩ := inv.drained k other there exited
  have early : k < st.pipes.length := by
    have below := (List.getElem?_eq_some_iff.mp there).1
    rw [pipes, ← children]
    exact below
  obtain ⟨absent, others⟩ := isOpen_eq_false.mp closed
  refine ⟨(codes_pipe i k).trans empty, isOpen_eq_false.mpr ⟨?_, others⟩⟩
  refine descs_insert ?_ (descs_insert (fun same => by cases same) absent)
  intro same
  have last := Desc.writeEnd.inj same
  omega

theorem DrainInv.fork {i rfd wfd : Nat} (inv : DrainInv st) (kept : Inv (fork i rfd wfd st)) :
    DrainInv (ProcessPool.fork i rfd wfd st) := by
  refine ⟨kept, ?_, inv.silent⟩
  intro k other there exited
  rcases getElem?_concat_cases there with before | ⟨-, isNew⟩
  · obtain ⟨empty, closed⟩ := inv.drained k other before exited
    obtain ⟨absent, others⟩ := isOpen_eq_false.mp closed
    refine ⟨empty, isOpen_eq_false.mpr ⟨absent, ?_⟩⟩
    intro child member
    rcases List.mem_append.mp member with earlier | last
    · exact others child earlier
    · rw [List.mem_singleton.mp last]
      exact absent
  · rw [isNew] at exited
    cases exited

theorem DrainInv.stepParent {processNum : Int} {fails : Bool} (inv : DrainInv st)
    (stepped : ProcessPool.stepParent processNum fails st = some after) : DrainInv after := by
  have kept := inv.toInv.stepParent stepped
  cases parentMove stepped with
  | pipe stage more => exact inv.pipe stage kept
  | fork stage => exact inv.fork kept
  | insert stage =>
      refine inv.move kept (fun _ => descs_close) ?_
      rw [List.length_append]
      exact Nat.le_add_right _ _
  | close stage found => exact inv.move kept (fun _ => descs_close) (Nat.le_refl _)
  | loopEnds stage | forkFails stage | stop stage | done stage _ | waited stage _ _ =>
      exact inv.move kept (fun _ => id) (Nat.le_refl _)

theorem DrainInv.step {processNum : Int} {event : Event} (inv : DrainInv st)
    (stepped : ProcessPool.step processNum st event = some after) : DrainInv after := by
  cases event with
  | parent fails => exact inv.stepParent stepped
  | send i => exact inv.send stepped
  | child j => exact inv.stepChild stepped

theorem drainInv_start (opened : List Nat) : DrainInv (start opened) :=
  ⟨inv_start opened, fun j child found => (by cases found), fun p _ => rfl⟩

/-! ## What goes in comes out -/

def takes (j : Nat) (st : State) : Event → Bool
  | .child k => decide (k = j) &&
      ((st.children[j]?).any fun child => decide (child.stage = .working)) &&
        decide (0 < codes j st)
  | _ => false

def sends (i : Nat) : Event → Bool
  | .send k => decide (k = i)
  | _ => false

theorem codes_parent {processNum : Int} {fails : Bool} (p : Nat)
    (stepped : ProcessPool.stepParent processNum fails st = some after) :
    codes p after = codes p st := by
  cases parentMove stepped with
  | pipe stage more => exact codes_pipe _ p
  | fork stage | insert stage | loopEnds stage | forkFails stage | stop stage
  | close stage _ | done stage _ | waited stage _ _ => rfl

theorem Inv.codes_child (inv : Inv st) (p : Nat)
    (stepped : ProcessPool.stepChild j st = some after) :
    codes p after + (if takes p st (.child j) then 1 else 0) = codes p st := by
  cases childMove stepped with
  | close found stage =>
      rw [if_neg]
      · rfl
      · simp only [takes, Bool.and_eq_true, decide_eq_true_eq, not_and]
        rintro ⟨rfl, working⟩
        simp [found, stage] at working
  | begin found stage =>
      rw [if_neg]
      · rfl
      · simp only [takes, Bool.and_eq_true, decide_eq_true_eq, not_and]
        rintro ⟨rfl, working⟩
        simp [found, stage] at working
  | @take child q found stage own some =>
      have isOwn : q = j := inv.own_pipe found stage own
      subst isOwn
      have some : 0 < codes q st := some
      rw [codes_set p q _ (inside_of_codes some)]
      by_cases same : q = p
      · subst same
        have isTaken : takes q st (.child q) = true := by
          simp [takes, found, stage, some]
        rw [if_pos rfl, if_pos isTaken]
        show codes q st - 1 + 1 = codes q st
        omega
      · rw [if_neg same, if_neg]
        · rfl
        · simp [takes, same]
  | @eof child q found stage own empty closed =>
      have isOwn : q = j := inv.own_pipe found stage own
      subst isOwn
      rw [if_neg]
      · rfl
      · simp only [takes, Bool.and_eq_true, decide_eq_true_eq, not_and]
        rintro ⟨rfl, working⟩
        exact empty
  | fail found stage other =>
      have own := inv.children j _ found
      exact absurd (Table.lookup_of_mem own.functional (own.own (by simp [stage]))) (other j)

theorem codes_step {processNum : Int} {event : Event} (inv : Inv st) (p : Nat)
    (stepped : ProcessPool.step processNum st event = some after) :
    codes p after + (if takes p st event then 1 else 0) =
      codes p st + if sends p event then 1 else 0 := by
  cases event with
  | parent fails =>
      rw [codes_parent p stepped]
      rfl
  | send i =>
      obtain ⟨-, -, isThere, rfl⟩ := inv.send_eq stepped
      rw [codes_set p i _ (inv.inside_of_open isThere)]
      by_cases same : i = p
      · subst same
        simp [takes, sends]
      · simp [takes, sends, same]
  | child j =>
      rw [inv.codes_child p stepped]
      rfl

/-- When `CloseAndWait` has returned, each child has taken out of its pipe as many codes as
`Run` had written to its channel; and at every moment before, what was written and not taken
is in the pipe. -/
theorem stop_loses_no_code {processNum : Int} {opened : List Nat} {events : List Event}
    (ran : play (step processNum) (start opened) events = some st) :
    (∀ i, codes i st + tally (step processNum) (takes i) (start opened) events =
        events.countP (sends i)) ∧
      (st.stage = .stopped → ∀ i, tally (step processNum) (takes i) (start opened) events =
        events.countP (sends i)) := by
  have inv : DrainInv st := Reachable.invariant DrainInv
    (fun _ _ _ inv stepped => inv.step stepped) (drainInv_start opened) ⟨events, ran⟩
  have balance : ∀ i, codes i st + tally (step processNum) (takes i) (start opened) events =
      events.countP (sends i) := by
    intro i
    have sum : codes i st + tally (step processNum) (takes i) (start opened) events =
        codes i (start opened) +
          tally (step processNum) (fun _ event => sends i event) (start opened) events :=
      tally_balance (codes i) Inv (fun _ _ _ inv stepped => inv.step stepped)
        (fun _ _ _ inv stepped => codes_step inv i stepped) (inv_start opened) ran
    rw [tally_of_event ran] at sum
    have none : codes i (start opened) = 0 := rfl
    omega
  refine ⟨balance, ?_⟩
  intro stopped i
  have reaped := inv.reaped
  rw [stopped] at reaped
  have sum := balance i
  have empty : codes i st = 0 := by
    rcases Nat.lt_or_ge i st.channels.length with channel | none
    · obtain ⟨child, found, exited⟩ := reaped i channel
      exact (inv.drained i child found exited).1
    · exact inv.silent i none
  omega

def stopWithTwo : List Event :=
  [.parent false, .parent false, .parent false, .parent false, .send 0, .send 0, .parent false,
    .parent false, .child 0, .child 0, .child 0, .child 0, .child 0, .parent false, .parent false]

theorem stop_loses_no_code_two :
    tally (step 1) (takes 0) (start [0, 1, 2]) stopWithTwo = 2 := by
  have ran : (play (step 1) (start [0, 1, 2]) stopWithTwo).map State.stage = some .stopped := by
    decide
  obtain ⟨st, ran, stopped⟩ := Option.map_eq_some_iff.mp ran
  exact (stop_loses_no_code ran).2 stopped 0

end LinuxSystemLearning.ProcessPool
