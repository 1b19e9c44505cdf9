import LinuxSystemLearning.Reactor.Dispatcher

/-!
# A receive error that is not a wait

`Recver` answers an error of `recv` that is neither `EAGAIN` nor `EINTR` with
`Excepter`, which deletes the connection and closes the descriptor; where `recv`
returned 0 the same is followed by a `return`.
-/

set_option autoImplicit false

namespace LinuxSystemLearning.Reactor

open LinuxSystemLearning.Loop

def Kernel.ClosedFails (k : Kernel) : Prop :=
  ∀ world fd, world.opened fd = false → k.recv world fd = .fail ebadf

def Event.Uses (id : ObjId) (fd : Fd) : Event → Prop
  | .recv _ other _ => other = fd
  | .send _ other _ _ => other = fd
  | .enableReadWrite other _ _ => other = fd
  | .delConnection other => other = fd
  | .handler other _ _ => other = id
  | _ => False

/-- The call returns, with one `DelConnection` and no use of the connection after
that. -/
def ClosesOnce (k : Kernel) (id : ObjId) (st : State) : Prop :=
  ∃ fuel after before rest,
    Channel.recver k fuel id st = some after ∧
    after.world.trace = st.world.trace ++ before ++
      .delConnection (st.heap id).sockfd :: rest ∧
    .delConnection (st.heap id).sockfd ∉ before ∧
    ∀ event ∈ rest, ¬ event.Uses id (st.heap id).sockfd

variable {k : Kernel} {id : ObjId}

theorem Channel.excepter_reactor {st : State} (owner : (st.heap id).owner = .reactor) :
    Channel.excepter k id st = some (delConnection k (st.heap id).sockfd st) := by
  simp [Channel.excepter, owner]

/-- The descriptor is closed and the object still leads to the reactor. -/
structure Dead (id : ObjId) (st : State) : Prop where
  closed : st.world.opened (st.heap id).sockfd = false
  owner : (st.heap id).owner = .reactor

/-- A fatal error does not leave the loop. -/
theorem Channel.recvStep_fatal {st : State} {errno : Nat}
    (fails : k.recv st.world (st.heap id).sockfd = .fail errno) (fatal : Fatal errno)
    (owner : (st.heap id).owner = .reactor) :
    ∃ after, Channel.recvStep k id st = .next after ∧ Dead id after ∧
      (after.heap id).sockfd = (st.heap id).sockfd ∧
      ∃ ok, after.world.trace = st.world.trace ++
        [.recv id (st.heap id).sockfd (.fail errno),
          .delConnection (st.heap id).sockfd,
          .epollCtl .del (st.heap id).sockfd ok, .close (st.heap id).sockfd] := by
  let failed := st.log (.recv id (st.heap id).sockfd (.fail errno))
  have excepted : Channel.excepter k id failed =
      some (delConnection k (st.heap id).sockfd failed) :=
    Channel.excepter_reactor owner
  refine ⟨delConnection k (st.heap id).sockfd failed, ?_, ⟨?_, owner⟩, rfl, ?_⟩
  · simp only [Channel.recvStep, fails, if_neg fatal.1, if_neg fatal.2]
    rw [excepted]
  · exact Function.update_self _ _ _
  · obtain ⟨ok, trace⟩ := delConnection_trace k failed (st.heap id).sockfd
    exact ⟨ok, by rw [trace]; simp [failed]⟩

theorem fatal_ebadf : Fatal ebadf := by decide

theorem Dead.again {st : State} (closed : k.ClosedFails) (dead : Dead id st) :
    ∃ after, Channel.recvStep k id st = .next after ∧ Dead id after ∧
      (after.heap id).sockfd = (st.heap id).sockfd ∧
      ∃ ok, after.world.trace = st.world.trace ++
        [.recv id (st.heap id).sockfd (.fail ebadf),
          .delConnection (st.heap id).sockfd,
          .epollCtl .del (st.heap id).sockfd ok, .close (st.heap id).sockfd] :=
  Channel.recvStep_fatal (closed st.world _ dead.closed) fatal_ebadf dead.owner

theorem Dead.not_ends {st : State} (closed : k.ClosedFails) (dead : Dead id st)
    (result : Channel.RecvEnd) : ¬ Ends (Channel.recvStep k id) st result := by
  refine not_ends_of_invariant (Dead id) ?_ dead result
  intro now dead
  obtain ⟨after, again, dead, -⟩ := dead.again closed
  exact ⟨after, again, dead⟩

/-- After a fatal error the loop is not left, except through a null owner. -/
theorem Channel.crashed_of_fatal {st failing : State} {errno : Nat}
    (closed : k.ClosedFails) (visits : Visits (Channel.recvStep k id) st failing)
    (fails : k.recv failing.world (failing.heap id).sockfd = .fail errno)
    (fatal : Fatal errno) {result : Channel.RecvEnd}
    (ends : Ends (Channel.recvStep k id) st result) : result = .crashed := by
  rw [visits.ends_iff] at ends
  cases owner : (failing.heap id).owner with
  | nullptr =>
      have left : Channel.recvStep k id failing = .stop .crashed := by
        simp [Channel.recvStep, fails, if_neg fatal.1, if_neg fatal.2,
          Channel.excepter, owner]
      exact ends.unique (.stop left)
  | reactor =>
      obtain ⟨after, again, dead, -⟩ := Channel.recvStep_fatal fails fatal owner
      have visits : Visits (Channel.recvStep k id) failing after :=
        .next .entry again
      rw [visits.ends_iff] at ends
      exact absurd ends (dead.not_ends closed result)

theorem Channel.recver_fatal {st failing : State} {errno : Nat}
    (closed : k.ClosedFails) (visits : Visits (Channel.recvStep k id) st failing)
    (fails : k.recv failing.world (failing.heap id).sockfd = .fail errno)
    (fatal : Fatal errno) (fuel : Nat) : Channel.recver k fuel id st = none := by
  cases ran : Loop.run (Channel.recvStep k id) fuel st with
  | none => simp [Channel.recver, ran]
  | some result =>
      have crashed := Channel.crashed_of_fatal closed visits fails fatal
        (ends_of_run _ _ _ _ ran)
      simp [Channel.recver, ran, crashed]

/-- Meanwhile the connection is deleted and its descriptor closed without end. -/
theorem Dead.deletes {st : State} (closed : k.ClosedFails) (dead : Dead id st)
    (times : Nat) :
    ∃ now, Visits (Channel.recvStep k id) st now ∧
      times ≤ now.world.trace.count (.delConnection (st.heap id).sockfd) ∧
      times ≤ now.world.trace.count (.close (st.heap id).sockfd) := by
  obtain ⟨now, visits, -, -, deleted, closed⟩ := visits_of_steps
    (fun i now => Dead id now ∧ (now.heap id).sockfd = (st.heap id).sockfd ∧
      i ≤ now.world.trace.count (.delConnection (st.heap id).sockfd) ∧
      i ≤ now.world.trace.count (.close (st.heap id).sockfd)) times (by
    intro i now _ held
    obtain ⟨dead, sockfd, deleted, shut⟩ := held
    obtain ⟨after, again, dead, sockfd', ok, trace⟩ := dead.again closed
    refine ⟨after, again, dead, sockfd'.trans sockfd, ?_, ?_⟩
    · rw [trace, sockfd, List.count_append]
      simpa using deleted
    · rw [trace, sockfd, List.count_append]
      simpa using shut) ⟨dead, rfl, Nat.zero_le _, Nat.zero_le _⟩
  exact ⟨now, visits, deleted, closed⟩

theorem never_closes_once (closed : k.ClosedFails) {st failing : State}
    (visits : Visits (Channel.recvStep k id) st failing) {errno : Nat}
    (fails : k.recv failing.world (failing.heap id).sockfd = .fail errno)
    (fatal : Fatal errno) : ¬ ClosesOnce k id st := by
  intro closesOnce
  obtain ⟨fuel, after, -, -, returned, -⟩ := closesOnce
  rw [Channel.recver_fatal closed visits fails fatal fuel] at returned
  cases returned

theorem scripted_closedFails (ready : List (List (Fd × Mask)))
    (accepts : List Nat) (recvs : List RecvResult) (sends : List SendResult) :
    (Kernel.scripted ready accepts recvs sends).ClosedFails := by
  intro world fd shut
  simp [Kernel.scripted, shut]

/-- A client is accepted, sends one byte and resets the connection. -/
def resetKernel : Kernel :=
  Kernel.scripted [[(3, epollIn)]] [7]
    [.data ⟨[65], by decide, by decide⟩, .fail econnreset] []

def silentHandler : Handler := fun _ _ => some ([], [])

theorem resetKernel_meets :
    ∃ st failing, Reachable resetKernel 3 silentHandler .waiting st ∧
      st.connections.lookup 7 = some 1 ∧
      Visits (Channel.recvStep resetKernel 1) st failing ∧
      resetKernel.recv failing.world (failing.heap 1).sockfd = .fail econnreset := by
  have check : (loop resetKernel 3 1 (boot resetKernel 3 silentHandler)).any (fun st =>
      decide (st.connections.lookup 7 = some 1) &&
        match Channel.recvStep resetKernel 1 st with
        | .next failing => decide (resetKernel.recv failing.world
            (failing.heap 1).sockfd = .fail econnreset)
        | .stop _ => false) = true := by
    decide
  obtain ⟨st, ran, check⟩ := Option.any_eq_true _ _ |>.mp check
  obtain ⟨found, meets⟩ := Bool.and_eq_true_iff.mp check
  cases stepped : Channel.recvStep resetKernel 1 st with
  | next failing =>
      rw [stepped] at meets
      exact ⟨st, failing, reachable_loop ran, of_decide_eq_true found,
        .next .entry stepped, of_decide_eq_true meets⟩
  | stop result =>
      rw [stepped] at meets
      cases meets

theorem never_closes_once_reset :
    ∃ st, Reachable resetKernel 3 silentHandler .waiting st ∧
      st.connections.lookup 7 = some 1 ∧ ¬ ClosesOnce resetKernel 1 st := by
  obtain ⟨st, failing, reached, found, visits, fails⟩ := resetKernel_meets
  exact ⟨st, reached, found, never_closes_once (scripted_closedFails _ _ _ _)
    visits fails (by decide)⟩

/-- `recv` fails for good there, and the connection is not closed once. -/
theorem spins_on_reset :
    resetKernel.ClosedFails ∧
      ∃ st failing, Reachable resetKernel 3 silentHandler .waiting st ∧
        st.connections.lookup 7 = some 1 ∧
        Visits (Channel.recvStep resetKernel 1) st failing ∧
        resetKernel.recv failing.world (failing.heap 1).sockfd = .fail econnreset ∧
        Fatal econnreset ∧ ¬ ClosesOnce resetKernel 1 st := by
  have closed : resetKernel.ClosedFails := scripted_closedFails _ _ _ _
  obtain ⟨st, failing, reached, found, visits, fails⟩ := resetKernel_meets
  have fatal : Fatal econnreset := by decide
  refine ⟨closed, st, failing, reached, found, visits, fails, fatal, ?_⟩
  intro closesOnce
  obtain ⟨fuel, after, -, -, returned, -⟩ := closesOnce
  rw [Channel.recver_fatal closed visits fails fatal fuel] at returned
  cases returned

end LinuxSystemLearning.Reactor
