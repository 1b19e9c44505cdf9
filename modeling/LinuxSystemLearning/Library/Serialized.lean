import LinuxSystemLearning.Library.Progress

/-!
# Output under a lock

Several threads have jobs to put out.  A job is put out piece by piece while its thread has
the lock, or it is dropped because the output cannot be had.  Whatever the order of the steps,
the output is that of the jobs one behind the other, each thread's in its order, and when
nobody can go on every thread is through.
-/

set_option autoImplicit false

namespace LinuxSystemLearning.Serialized

open LinuxSystemLearning.Interleaving

universe u v

variable {Job : Type u} {α : Type v}

/-- `done` are the jobs behind the thread, and whether they were put out. -/
structure Thread (Job : Type u) where
  todo : List Job
  done : List (Job × Bool)

def Thread.program (thread : Thread Job) : List Job := thread.done.map Prod.fst ++ thread.todo

def Thread.output (thread : Thread Job) : List Job :=
  (thread.done.filter Prod.snd).map Prod.fst

/-- `holder` is the thread that has the lock and what it has still to put out; `order` are the
jobs in the order of the lock. -/
structure State (Job : Type u) (α : Type v) where
  out : List α
  holder : Option (Nat × List α)
  threads : List (Thread Job)
  order : List (Nat × Job)

inductive Event where
  | lock (i : Nat)
  /-- The thread has the lock and gives it back without any output. -/
  | drop (i : Nat)
  | put (count : Nat)
  | unlock

def start (out : List α) (programs : List (List Job)) : State Job α :=
  ⟨out, none, programs.map fun todo => ⟨todo, []⟩, []⟩

variable (render : Job → List α)

def Thread.next (thread : Thread Job) (isPut : Bool) : Option (Job × Thread Job) :=
  match thread.todo with
  | [] => none
  | job :: todo => some (job, ⟨todo, thread.done ++ [(job, isPut)]⟩)

def step (st : State Job α) : Event → Option (State Job α)
  | .lock i =>
      match st.holder, (st.threads[i]?).bind (Thread.next · true) with
      | none, some (job, thread) => some { st with
          holder := some (i, render job)
          threads := st.threads.set i thread
          order := st.order ++ [(i, job)] }
      | _, _ => none
  | .drop i =>
      match st.holder, (st.threads[i]?).bind (Thread.next · false) with
      | none, some (_, thread) => some { st with threads := st.threads.set i thread }
      | _, _ => none
  | .put count =>
      match st.holder with
      | some (i, left) =>
          if 0 < count ∧ count ≤ left.length then
            some { st with
              out := st.out ++ left.take count
              holder := some (i, left.drop count) }
          else none
      | none => none
  | .unlock =>
      match st.holder with
      | some (_, []) => some { st with holder := none }
      | _ => none

/-! ## What a step does -/

inductive Stepped (st : State Job α) : State Job α → Prop where
  | lock (i : Nat) (job : Job) (todo : List Job) (done : List (Job × Bool))
      (free : st.holder = none) (found : st.threads[i]? = some ⟨job :: todo, done⟩) :
      Stepped st { st with
        holder := some (i, render job)
        threads := st.threads.set i ⟨todo, done ++ [(job, true)]⟩
        order := st.order ++ [(i, job)] }
  | drop (i : Nat) (job : Job) (todo : List Job) (done : List (Job × Bool))
      (free : st.holder = none) (found : st.threads[i]? = some ⟨job :: todo, done⟩) :
      Stepped st { st with threads := st.threads.set i ⟨todo, done ++ [(job, false)]⟩ }
  | put (i count : Nat) (left : List α) (held : st.holder = some (i, left))
      (some : 0 < count) (enough : count ≤ left.length) :
      Stepped st { st with
        out := st.out ++ left.take count
        holder := Option.some (i, left.drop count) }
  | unlock (i : Nat) (held : st.holder = some (i, [])) :
      Stepped st { st with holder := none }

variable {render} {st after : State Job α}

theorem next_eq {thread : Option (Thread Job)} {isPut : Bool} {job : Job} {later : Thread Job}
    (next : thread.bind (Thread.next · isPut) = some (job, later)) :
    ∃ todo done, thread = some ⟨job :: todo, done⟩ ∧ later = ⟨todo, done ++ [(job, isPut)]⟩ := by
  obtain ⟨⟨todo, done⟩, rfl, next⟩ := Option.bind_eq_some_iff.mp next
  cases todo with
  | nil => cases next
  | cons first todo =>
      cases next
      exact ⟨todo, done, rfl, rfl⟩

theorem stepped_of_step {event : Event} (stepped : step render st event = some after) :
    Stepped render st after := by
  cases event with
  | lock i =>
      simp only [step] at stepped
      split at stepped
      · rename_i job thread free next
        cases stepped
        obtain ⟨todo, done, found, rfl⟩ := next_eq next
        exact .lock i job todo done free found
      · cases stepped
  | drop i =>
      simp only [step] at stepped
      split at stepped
      · rename_i job thread free next
        cases stepped
        obtain ⟨todo, done, found, rfl⟩ := next_eq next
        exact .drop i job todo done free found
      · cases stepped
  | put count =>
      simp only [step] at stepped
      split at stepped
      · rename_i i left held
        split at stepped
        · rename_i fits
          cases stepped
          exact .put i count left held fits.1 fits.2
        · cases stepped
      · cases stepped
  | unlock =>
      simp only [step] at stepped
      split at stepped
      · rename_i i held
        cases stepped
        exact .unlock i held
      · cases stepped

/-! ## The output -/

def ofThread (i : Nat) (order : List (Nat × Job)) : List Job :=
  (order.filter (·.1 = i)).map Prod.snd

/-- What the holder of the lock has still to put out. -/
def State.left (st : State Job α) : List α := (st.holder.map Prod.snd).getD []

structure Inv (render : Job → List α) (before : List α) (programs : List (List Job))
    (st : State Job α) : Prop where
  whole : st.out ++ st.left = before ++ st.order.flatMap fun entry => render entry.2
  program : st.threads.map Thread.program = programs
  outputs : ∀ i thread, st.threads[i]? = some thread → ofThread i st.order = thread.output
  origin : ∀ entry ∈ st.order, entry.1 < programs.length

variable {before : List α} {programs : List (List Job)}

theorem inv_start : Inv render before programs (start before programs) where
  whole := by simp [start, State.left]
  program := by simp [start, Thread.program, Function.comp_def]
  outputs i thread found := by
    rw [start, List.getElem?_map, Option.map_eq_some_iff] at found
    obtain ⟨todo, -, rfl⟩ := found
    rfl
  origin _ member := absurd member List.not_mem_nil

theorem ofThread_concat (order : List (Nat × Job)) (i j : Nat) (job : Job) :
    ofThread i (order ++ [(j, job)]) =
      ofThread i order ++ if j = i then [job] else [] := by
  rw [ofThread, List.filter_append, List.map_append, ofThread]
  by_cases same : j = i
  · simp [same]
  · simp [same]

theorem output_concat (todo : List Job) (done : List (Job × Bool)) (job : Job) (isPut : Bool) :
    Thread.output ⟨todo, done ++ [(job, isPut)]⟩ =
      Thread.output ⟨todo, done⟩ ++ if isPut then [job] else [] := by
  rw [Thread.output, List.filter_append, List.map_append, Thread.output]
  cases isPut with
  | true => rfl
  | false => rfl

theorem program_moved {i : Nat} {job : Job} {todo : List Job} {done : List (Job × Bool)}
    (found : st.threads[i]? = some ⟨job :: todo, done⟩) (isPut : Bool) :
    (st.threads.set i ⟨todo, done ++ [(job, isPut)]⟩).map Thread.program =
      st.threads.map Thread.program := by
  obtain ⟨inside, here⟩ := List.getElem?_eq_some_iff.mp found
  have same : Thread.program ⟨todo, done ++ [(job, isPut)]⟩ = Thread.program st.threads[i] := by
    rw [here, Thread.program, Thread.program, List.map_append, List.append_assoc]
    rfl
  rw [List.map_set, same, ← List.getElem_map Thread.program, List.set_getElem_self]
  rw [List.length_map]
  exact inside

theorem Inv.stepped (inv : Inv render before programs st) (stepped : Stepped render st after) :
    Inv render before programs after := by
  have whole := inv.whole
  cases stepped with
  | lock i job todo done free found =>
      refine ⟨?_, (program_moved found true).trans inv.program, ?_, ?_⟩
      · rw [State.left, free, Option.map_none, Option.getD_none, List.append_nil] at whole
        rw [State.left, List.flatMap_append, whole, List.append_assoc]
        simp
      · intro j thread there
        rw [ofThread_concat]
        by_cases same : i = j
        · subst same
          rw [List.getElem?_set_self (List.getElem?_eq_some_iff.mp found).1] at there
          cases there
          rw [output_concat, inv.outputs i _ found, if_pos rfl, if_pos rfl]
          rfl
        · rw [List.getElem?_set_ne same] at there
          rw [if_neg same, List.append_nil]
          exact inv.outputs j thread there
      · intro entry member
        rcases List.mem_append.mp member with earlier | last
        · exact inv.origin entry earlier
        · rw [List.mem_singleton.mp last, ← inv.program, List.length_map]
          exact (List.getElem?_eq_some_iff.mp found).1
  | drop i job todo done free found =>
      refine ⟨whole, (program_moved found false).trans inv.program, ?_, inv.origin⟩
      intro j thread there
      by_cases same : i = j
      · subst same
        rw [List.getElem?_set_self (List.getElem?_eq_some_iff.mp found).1] at there
        cases there
        rw [output_concat, inv.outputs i _ found, if_neg Bool.false_ne_true, List.append_nil]
        rfl
      · rw [List.getElem?_set_ne same] at there
        exact inv.outputs j thread there
  | put i count left held _ _ =>
      refine ⟨?_, inv.program, inv.outputs, inv.origin⟩
      rw [State.left, held] at whole
      show (st.out ++ left.take count) ++ left.drop count = _
      rw [List.append_assoc, List.take_append_drop]
      exact whole
  | unlock i held =>
      refine ⟨?_, inv.program, inv.outputs, inv.origin⟩
      rw [State.left, held] at whole
      exact whole

theorem reachable_inv (reached : Reachable (step render) (start before programs) st) :
    Inv render before programs st :=
  reached.invariant (Inv render before programs)
    (fun _ _ _ inv stepped => inv.stepped (stepped_of_step stepped)) inv_start

/-- The lock, the pieces of the output and the unlock of each job. -/
def Thread.work (render : Job → List α) (thread : Thread Job) : Nat :=
  (thread.todo.map fun job => (render job).length + 2).sum

def work (render : Job → List α) (st : State Job α) : Nat :=
  (st.threads.map (Thread.work render)).sum +
    (st.holder.map fun holder => holder.2.length + 1).getD 0

theorem Stepped.work_lt (stepped : Stepped render st after) :
    work render after < work render st := by
  cases stepped with
  | lock i job todo done free found =>
      have sum := @sum_map_set_add _ (Thread.work render) st.threads i _
        ⟨todo, done ++ [(job, true)]⟩ found
      have less : Thread.work render ⟨job :: todo, done⟩ =
          (render job).length + 2 + Thread.work render ⟨todo, done ++ [(job, true)]⟩ := rfl
      simp only [work, free, Option.map_some, Option.getD_some, Option.map_none,
        Option.getD_none]
      omega
  | drop i job todo done free found =>
      have sum := @sum_map_set_add _ (Thread.work render) st.threads i _
        ⟨todo, done ++ [(job, false)]⟩ found
      have less : Thread.work render ⟨job :: todo, done⟩ =
          (render job).length + 2 + Thread.work render ⟨todo, done ++ [(job, false)]⟩ := rfl
      simp only [work]
      omega
  | put i count left held _ enough =>
      simp only [work, held, Option.map_some, Option.getD_some, List.length_drop]
      omega
  | unlock i held =>
      simp only [work, held, Option.map_some, Option.getD_some, Option.map_none,
        Option.getD_none, List.length_nil]
      omega

theorem exists_step_of_todo {i : Nat} {thread : Thread Job}
    (found : st.threads[i]? = some thread) (todo : thread.todo ≠ []) :
    ∃ event after, step render st event = some after := by
  cases held : st.holder with
  | none =>
      obtain ⟨todo', done⟩ := thread
      cases todo' with
      | nil => exact absurd rfl todo
      | cons job todo' =>
          refine ⟨.lock i, { st with
            holder := some (i, render job)
            threads := st.threads.set i ⟨todo', done ++ [(job, true)]⟩
            order := st.order ++ [(i, job)] }, ?_⟩
          simp only [step, held, found, Option.bind_some, Thread.next]
  | some holder =>
      obtain ⟨j, left⟩ := holder
      cases left with
      | nil => exact ⟨.unlock, { st with holder := none }, by simp only [step, held]⟩
      | cons element left =>
          refine ⟨.put 1, { st with
            out := st.out ++ [element]
            holder := some (j, left) }, ?_⟩
          simp [step, held]

/-- No run goes on for ever, and it stops only where every thread is through and nobody has
the lock. -/
theorem completes (before : List α) (programs : List (List Job)) :
    Completes (step render)
      (fun st => st.holder = none ∧ ∀ thread ∈ st.threads, thread.todo = [])
      (start before programs) := by
  refine completes_of_work (fun _ => True) (work render) (fun _ _ _ _ _ => trivial)
    (fun _ _ _ _ stepped => (stepped_of_step stepped).work_lt) ?_ trivial
  intro st _ stuck
  refine ⟨?_, ?_⟩
  · cases held : st.holder with
    | none => rfl
    | some holder =>
        obtain ⟨j, left⟩ := holder
        cases left with
        | nil =>
            have unlocked := stuck .unlock
            simp [step, held] at unlocked
        | cons element left =>
            have put := stuck (.put 1)
            simp [step, held] at put
  · intro thread member
    by_contra todo
    obtain ⟨i, inside, here⟩ := List.getElem_of_mem member
    have goesOn : ∃ event after, step render st event = some after :=
      exists_step_of_todo (List.getElem?_eq_some_iff.mpr ⟨inside, here⟩) todo
    obtain ⟨event, after, stepped⟩ := goesOn
    rw [stuck event] at stepped
    cases stepped

end LinuxSystemLearning.Serialized
