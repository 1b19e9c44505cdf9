import LinuxSystemLearning.Library.Multiplexer
import LinuxSystemLearning.Library.Simulation
import LinuxSystemLearning.Multiplex.EpollServer
import LinuxSystemLearning.Multiplex.Servers

/-!
# The three servers do the same

`SelectServer`, `PollServer` and `EpollServer` differ in where the descriptors are kept and in
who looks for the ready ones.  Each of their states stands for a state of one multiplexing
server, and each of their steps for at most one act of it: a wait for a wait that reports
what the kernel's answer says, a visit for the accept or the receive that is called in it.
-/

set_option autoImplicit false

namespace LinuxSystemLearning.SlotTable

open LinuxSystemLearning.Interleaving

/-- A failing accept is not recorded. -/
def recorded : Multiplexer.Call Int → Option Call
  | .waited _ _ => some .waited
  | .accepted fd => some (.accepted fd)
  | .missed => none
  | .received fd => some (.received fd)
  | .closed fd => some (.closed fd)

def shown (watched forgotten due : List Int) (ringing : Bool)
    (calls : List (Multiplexer.Call Int)) : Multiplexer.State Int where
  watched := watched.toFinset
  forgotten := forgotten.toFinset
  due := due.toFinset
  ringing := ringing
  calls := calls

section

variable {watched forgotten due : List Int} {ringing : Bool}
  {calls : List (Multiplexer.Call Int)} {fd : Int}

theorem shown_wait {reported : List Int} (rings : Bool) (nothing : due = [])
    (quiet : ringing = false) (part : reported ⊆ watched) :
    Multiplexer.step (shown watched forgotten due ringing calls)
        (.wait reported.toFinset rings) =
      some (shown watched forgotten reported rings
        (.waited reported.toFinset rings :: calls)) := by
  have may : (shown watched forgotten due ringing calls).due = ∅ ∧
      (shown watched forgotten due ringing calls).ringing = false ∧
      reported.toFinset ⊆ (shown watched forgotten due ringing calls).watched := by
    refine ⟨by rw [shown, nothing, List.toFinset_nil], quiet, ?_⟩
    exact fun fd member => List.mem_toFinset.mpr (part (List.mem_toFinset.mp member))
  rw [Multiplexer.step, if_pos may]
  rfl

theorem mayAccept_shown (unwatched : fd ∉ watched) (known : fd ∉ forgotten) :
    (shown watched forgotten due true calls).mayAccept fd := by
  refine ⟨rfl, ?_⟩
  rintro (isWatched | isForgotten)
  · exact unwatched (List.mem_toFinset.mp isWatched)
  · exact known (List.mem_toFinset.mp isForgotten)

theorem shown_enter (unwatched : fd ∉ watched) (known : fd ∉ forgotten) :
    Multiplexer.step (shown watched forgotten due true calls) (.enter fd) =
      some (shown (fd :: watched) forgotten due false (.accepted fd :: calls)) := by
  rw [Multiplexer.step, if_pos (mayAccept_shown unwatched known), shown, shown,
    List.toFinset_cons]

theorem shown_refuse (unwatched : fd ∉ watched) (known : fd ∉ forgotten) :
    Multiplexer.step (shown watched forgotten due true calls) (.refuse fd) =
      some (shown watched forgotten due false (.closed fd :: .accepted fd :: calls)) := by
  rw [Multiplexer.step, if_pos (mayAccept_shown unwatched known)]
  rfl

theorem shown_forget (unwatched : fd ∉ watched) (known : fd ∉ forgotten) :
    Multiplexer.step (shown watched forgotten due true calls) (.forget fd) =
      some (shown watched (fd :: forgotten) due false (.accepted fd :: calls)) := by
  rw [Multiplexer.step, if_pos (mayAccept_shown unwatched known), shown, shown,
    List.toFinset_cons]

theorem shown_miss :
    Multiplexer.step (shown watched forgotten due true calls) .miss =
      some (shown watched forgotten due false (.missed :: calls)) := rfl

theorem toFinset_erase {fds : List Int} (once : fds.Nodup) (fd : Int) :
    (fds.erase fd).toFinset = fds.toFinset.erase fd := by
  ext other
  rw [List.mem_toFinset, once.mem_erase_iff, Finset.mem_erase, List.mem_toFinset]

theorem shown_receive (once : due.Nodup) (isDue : fd ∈ due) :
    Multiplexer.step (shown watched forgotten due ringing calls) (.receive fd) =
      some (shown watched forgotten (due.erase fd) ringing (.received fd :: calls)) := by
  have isDue : fd ∈ (shown watched forgotten due ringing calls).due :=
    List.mem_toFinset.mpr isDue
  rw [Multiplexer.step, if_pos isDue, shown, shown, toFinset_erase once]

theorem shown_finish (once : due.Nodup) (watchedOnce : watched.Nodup) (isDue : fd ∈ due) :
    Multiplexer.step (shown watched forgotten due ringing calls) (.finish fd) =
      some (shown (watched.erase fd) forgotten (due.erase fd) ringing
        (.closed fd :: .received fd :: calls)) := by
  have isDue : fd ∈ (shown watched forgotten due ringing calls).due :=
    List.mem_toFinset.mpr isDue
  rw [Multiplexer.step, if_pos isDue, shown, shown, toFinset_erase once,
    toFinset_erase watchedOnce]

end

/-! ## The tables -/

variable {Slot Report Ready : Type} {kind : Kind Slot Report Ready} {listenfd : Int}
  {st after : State Slot Ready}

/-- The connections reported and not yet received from in this round. -/
def due (st : State Slot Ready) : List Int :=
  st.reported.filter (· ∉ served st.calls)

variable (kind listenfd) in
/-- The loop is in front of the listening socket's slot, and that is readable. -/
def ringing (st : State Slot Ready) : Bool :=
  match st.round with
  | some (0, ready) => listenfd ∈ readable kind ready st.slots
  | _ => false

variable (kind listenfd) in
def multiplexer (calls : List (Multiplexer.Call Int)) (st : State Slot Ready) :
    Multiplexer.State Int :=
  shown (live st.calls) [] (due st) (ringing kind listenfd st) calls

variable (kind listenfd) in
/-- What a step is for the multiplexing server. -/
def acts (st : State Slot Ready) : Event Report → List (Multiplexer.Act Int)
  | .wait none => [.wait ([] : List Int).toFinset false]
  | .wait (some report) =>
      match kind.receive report st.slots with
      | none => []
      | some (slots, ready) =>
          [.wait ((readable kind ready slots).filter (· ≠ listenfd)).toFinset
            (listenfd ∈ readable kind ready slots)]
  | .visit outcome =>
      match current st with
      | none => []
      | some (_, ready, slot) =>
          if kind.fd slot ≠ defaultfd ∧ kind.isReady ready slot = true then
            if kind.fd slot = listenfd then
              if 0 ≤ outcome then
                match place kind outcome st.slots with
                | none => [.refuse outcome]
                | some _ => [.enter outcome]
              else [.miss]
            else if 0 < outcome then [.receive (kind.fd slot)] else [.finish (kind.fd slot)]
          else []

variable (kind listenfd) in
/-- The state of the multiplexing server that stands for one of the table's. -/
def Shows (st : State Slot Ready) (spec : Multiplexer.State Int) : Prop :=
  ∃ calls, calls.filterMap recorded = st.calls ∧ spec = multiplexer kind listenfd calls st

/-- Nothing is reported outside a round. -/
structure TableInv (kind : Kind Slot Report Ready) (listenfd : Int) (st : State Slot Ready) :
    Prop extends Inv kind listenfd st where
  idle : st.round = none → st.reported = []

theorem due_of_left {front back : List Int} (once : (front.reverse ++ back).Nodup) :
    (front.reverse ++ back).filter (· ∉ front) = back := by
  rw [List.filter_append]
  have served : front.reverse.filter (· ∉ front) = [] := by
    rw [List.filter_eq_nil_iff]
    intro fd member
    simpa using List.mem_reverse.mp member
  have unserved : back.filter (· ∉ front) = back := by
    rw [List.filter_eq_self]
    intro fd member
    rw [decide_eq_true_eq]
    intro inFront
    exact List.disjoint_of_nodup_append once (List.mem_reverse.mpr inFront) member
  rw [served, unserved, List.nil_append]

/-- In a round, what is due is what the loop has still to find. -/
theorem Inv.due_eq (inv : Inv kind listenfd st) {pos : Nat} {ready : Ready}
    (round : st.round = some (pos, ready)) :
    due st = readable kind ready (st.slots.drop (max pos 1)) := by
  have left := inv.left pos ready round
  have once := inv.once
  rw [left] at once
  rw [due, left, due_of_left once]

theorem TableInv.due_of_over (inv : TableInv kind listenfd st)
    (finished : roundOver kind st = true) : due st = [] := by
  unfold roundOver at finished
  cases round : st.round with
  | none => rw [due, inv.idle round, List.filter_nil]
  | some place =>
      obtain ⟨pos, ready⟩ := place
      rw [round] at finished
      obtain rfl := of_decide_eq_true finished
      rw [inv.due_eq round, List.drop_eq_nil_iff.mpr (by
        rw [inv.size]
        exact Nat.le_max_left _ _)]
      rfl

theorem mem_reported_of_live (inv : Inv kind listenfd st) {ready : Ready} {fd : Int}
    {slots : List Slot} (same : slots.map kind.fd = st.slots.map kind.fd)
    (member : fd ∈ (readable kind ready slots).filter (· ≠ listenfd)) : fd ∈ live st.calls := by
  obtain ⟨isReadable, client⟩ := List.mem_filter.mp member
  have isOccupied := readable_sublist.subset isReadable
  rw [occupied_congr same, inv.occupied_slots.mem_iff] at isOccupied
  exact (List.mem_cons.mp isOccupied).resolve_left (of_decide_eq_true client)

theorem quiet_of_over (lawful : Lawful kind)
    (finished : roundOver kind st = true) : ringing kind listenfd st = false := by
  unfold roundOver at finished
  unfold ringing
  cases round : st.round with
  | none => rfl
  | some place =>
      obtain ⟨pos, ready⟩ := place
      rw [round] at finished
      obtain rfl := of_decide_eq_true finished
      cases size : kind.size with
      | zero => exact absurd lawful.positive (by rw [size]; exact Nat.lt_irrefl 0)
      | succ pos => rfl

/-- The accept is due exactly if the listening socket's slot is ready. -/
theorem Inv.ringing_eq (inv : Inv kind listenfd st) {ready : Ready} {slot : Slot}
    (round : st.round = some (0, ready)) (found : st.slots[0]? = some slot) :
    ringing kind listenfd st = kind.isReady ready slot := by
  obtain ⟨first, rest, shape, listens, held⟩ := inv.table
  rw [shape] at found
  cases found
  have apart : listenfd ∉ readable kind ready rest := by
    intro member
    have isLive := held.mem_iff.mp (readable_sublist.subset member)
    exact (List.nodup_cons.mp inv.distinct).1 isLive
  unfold ringing
  rw [round, shape]
  show decide (listenfd ∈ readable kind ready (slot :: rest)) = _
  cases isReady : kind.isReady ready slot with
  | false => rw [readable_cons_quiet (.inr isReady), decide_eq_false apart]
  | true =>
      rw [readable_cons (listens ▸ inv.listenfd_used) isReady, listens,
        decide_eq_true List.mem_cons_self]

theorem ringing_succ {pos : Nat} {ready : Ready} (round : st.round = some (pos + 1, ready)) :
    ringing kind listenfd st = false := by
  unfold ringing
  rw [round]
  rfl

/-- What the visit of a slot is for the multiplexing server, behind the slot. -/
inductive Acted (kind : Kind Slot Report Ready) (listenfd : Int) (st : State Slot Ready) :
    List (Multiplexer.Act Int) → State Slot Ready → Prop where
  | nothing {after : State Slot Ready} (quiet : ringing kind listenfd st = false)
      (calls : after.calls = st.calls) (reported : after.reported = st.reported) :
      Acted kind listenfd st [] after
  | missed {after : State Slot Ready} (rings : ringing kind listenfd st = true)
      (calls : after.calls = st.calls) (reported : after.reported = st.reported) :
      Acted kind listenfd st [.miss] after
  | entered {after : State Slot Ready} (rings : ringing kind listenfd st = true) (fd : Int)
      (new : fd ∉ listenfd :: live st.calls) (calls : after.calls = .accepted fd :: st.calls)
      (reported : after.reported = st.reported) : Acted kind listenfd st [.enter fd] after
  | refused {after : State Slot Ready} (rings : ringing kind listenfd st = true) (fd : Int)
      (new : fd ∉ listenfd :: live st.calls)
      (calls : after.calls = .closed fd :: .accepted fd :: st.calls)
      (reported : after.reported = st.reported) : Acted kind listenfd st [.refuse fd] after
  | received {after : State Slot Ready} (quiet : ringing kind listenfd st = false) (fd : Int)
      (isDue : fd ∈ due st) (calls : after.calls = .received fd :: st.calls)
      (reported : after.reported = st.reported) : Acted kind listenfd st [.receive fd] after
  | finished {after : State Slot Ready} (quiet : ringing kind listenfd st = false) (fd : Int)
      (isDue : fd ∈ due st) (calls : after.calls = .closed fd :: .received fd :: st.calls)
      (reported : after.reported = st.reported) : Acted kind listenfd st [.finish fd] after

/-- In front of a slot with nothing to be served no accept is due. -/
theorem Inv.quiet_slot (inv : Inv kind listenfd st) {pos : Nat} {ready : Ready} {slot : Slot}
    (round : st.round = some (pos, ready)) (found : st.slots[pos]? = some slot)
    (nothing : ¬ (kind.fd slot ≠ defaultfd ∧ kind.isReady ready slot = true)) :
    ringing kind listenfd st = false := by
  cases pos with
  | zero =>
      rw [inv.ringing_eq round found]
      have used : kind.fd slot ≠ defaultfd := by
        rw [(inv.first_iff found).mpr rfl]
        exact inv.listenfd_used
      exact Bool.not_eq_true _ ▸ fun isReady => nothing ⟨used, isReady⟩
  | succ pos => exact ringing_succ round

theorem acted_visit (inv : Inv kind listenfd st) {pos : Nat} {ready : Ready} {slot : Slot}
    {outcome : Int} (here : current st = some (pos, ready, slot))
    (inRange : kind.fd slot ≠ defaultfd → kind.inRange slot = true)
    (visited : visit kind listenfd outcome pos ready slot st = some after) :
    Acted kind listenfd st (acts kind listenfd st (.visit outcome))
      { after with round := some (pos + 1, ready) } := by
  obtain ⟨round, found⟩ := current_eq here
  simp only [acts, here]
  unfold visit at visited
  by_cases serves : kind.fd slot ≠ defaultfd ∧ kind.isReady ready slot = true
  · obtain ⟨used, isReady⟩ := serves
    rw [if_neg used, if_neg (by rw [inRange used]; exact Bool.false_ne_true ∘ Eq.symm),
      if_pos isReady] at visited
    rw [if_pos ⟨used, isReady⟩]
    split at visited
    · rename_i listens
      obtain rfl : pos = 0 := (inv.first_iff found).mp listens
      have rings : ringing kind listenfd st = true := by
        rw [inv.ringing_eq round found, isReady]
      rw [if_pos listens]
      split at visited
      · cases visited
      · rename_i new
        cases visited
        unfold accepter
        split
        · cases placed : place kind outcome st.slots with
          | none => exact .refused rings outcome new rfl rfl
          | some slots => exact .entered rings outcome new rfl rfl
        · exact .missed rings rfl rfl
    · rename_i client
      cases visited
      rw [if_neg client]
      cases pos with
      | zero => exact absurd ((inv.first_iff found).mpr rfl) client
      | succ pos =>
          have quiet : ringing kind listenfd st = false := ringing_succ round
          have isDue : kind.fd slot ∈ due st := by
            obtain ⟨inside, there⟩ := List.getElem?_eq_some_iff.mp found
            rw [inv.due_eq round, max_succ_one, ← List.getElem_cons_drop inside, there,
              readable_cons used isReady]
            exact List.mem_cons_self
          unfold recver
          split
          · exact .received quiet _ isDue rfl rfl
          · exact .finished quiet _ isDue rfl rfl
  · rw [if_neg serves]
    have same : after = st := by
      split at visited
      · exact (Option.some.inj visited).symm
      · rename_i used
        rw [if_neg (by rw [inRange used]; exact Bool.false_ne_true ∘ Eq.symm),
          if_neg fun isReady => serves ⟨used, isReady⟩] at visited
        exact (Option.some.inj visited).symm
    rw [same]
    exact .nothing (inv.quiet_slot round found serves) rfl rfl

theorem nodup_due (inv : Inv kind listenfd st) : (due st).Nodup := inv.once.filter _

theorem due_received (inv : Inv kind listenfd st) (fd : Int) :
    st.reported.filter (· ∉ fd :: served st.calls) = (due st).erase fd := by
  rw [(nodup_due inv).erase_eq_filter, due, List.filter_filter]
  apply List.filter_congr
  intro other _
  rw [Bool.eq_iff_iff]
  simp

theorem follows_acted (inv : Inv kind listenfd st) {acts : List (Multiplexer.Act Int)}
    (acted : Acted kind listenfd st acts after)
    (behind : ringing kind listenfd after = false) {spec : Multiplexer.State Int}
    (shows : Shows kind listenfd st spec) :
    ∃ spec', play Multiplexer.step spec acts = some spec' ∧ Shows kind listenfd after spec' := by
  have distinct := List.nodup_cons.mp inv.distinct
  obtain ⟨spoken, same, rfl⟩ := shows
  unfold Shows multiplexer
  rw [behind]
  cases acted with
  | nothing quiet calls reported =>
      refine ⟨_, rfl, spoken, same.trans calls.symm, ?_⟩
      rw [due, due, calls, reported, quiet]
  | missed rings calls reported =>
      refine ⟨_, ?_, .missed :: spoken, same.trans calls.symm, rfl⟩
      rw [rings, due, due, calls, reported]
      exact play_single shown_miss
  | entered rings fd new calls reported =>
      rw [List.mem_cons, not_or] at new
      refine ⟨_, ?_, .accepted fd :: spoken, ?_, rfl⟩
      · rw [rings, due, due, calls, reported]
        exact play_single (shown_enter new.2 List.not_mem_nil)
      · rw [calls, ← same]
        rfl
  | refused rings fd new calls reported =>
      rw [List.mem_cons, not_or] at new
      have erased : live (.closed fd :: .accepted fd :: st.calls) = live st.calls :=
        List.erase_cons_head ..
      refine ⟨_, ?_, .closed fd :: .accepted fd :: spoken, ?_, rfl⟩
      · rw [rings, due, due, calls, reported, erased]
        exact play_single (shown_refuse new.2 List.not_mem_nil)
      · rw [calls, ← same]
        rfl
  | received quiet fd isDue calls reported =>
      refine ⟨_, ?_, .received fd :: spoken, ?_, rfl⟩
      · rw [quiet, due.eq_def after, calls, reported, served, due_received inv]
        exact play_single (shown_receive (nodup_due inv) isDue)
      · rw [calls, ← same]
        rfl
  | finished quiet fd isDue calls reported =>
      refine ⟨_, ?_, .closed fd :: .received fd :: spoken, ?_, rfl⟩
      · rw [quiet, due.eq_def after, calls, reported, served, served, due_received inv]
        exact play_single (shown_finish (nodup_due inv) distinct.2 isDue)
      · rw [calls, ← same]
        rfl

theorem TableInv.follows_wait (lawful : Lawful kind) (inv : TableInv kind listenfd st)
    {answer : Option Report} (finished : roundOver kind st = true)
    (inRange : InRange kind st (.wait answer))
    (waited : wait kind listenfd answer st = some after) {spec : Multiplexer.State Int}
    (shows : Shows kind listenfd st spec) :
    ∃ spec', play Multiplexer.step spec (acts kind listenfd st (.wait answer)) = some spec' ∧
      Shows kind listenfd after spec' := by
  have nothing := inv.due_of_over finished
  have quiet : ringing kind listenfd st = false := quiet_of_over lawful finished
  obtain ⟨spoken, same, rfl⟩ := shows
  unfold wait at waited
  rw [if_pos (all_in_range.mpr inRange)] at waited
  cases answer with
  | none =>
      cases waited
      refine ⟨_, play_single (shown_wait false nothing quiet (List.nil_subset _)), _ :: spoken,
        ?_, rfl⟩
      rw [← same]
      rfl
  | some report =>
      dsimp only at waited
      cases received : kind.receive report st.slots with
      | none =>
          rw [received] at waited
          cases waited
      | some answered =>
          rw [received] at waited
          cases waited
          have part : (readable kind answered.2 answered.1).filter (· ≠ listenfd) ⊆
              live st.calls := fun fd member =>
            mem_reported_of_live inv.toInv (lawful.receive_fds _ _ _ _ received) member
          have told : (readable kind answered.2 answered.1).filter (· ≠ listenfd) =
              ((readable kind answered.2 answered.1).filter (· ≠ listenfd)).filter
                (· ∉ served (.waited :: st.calls)) := by
            symm
            rw [List.filter_eq_self]
            exact fun fd _ => rfl
          simp only [acts, received]
          refine ⟨_, play_single (shown_wait _ nothing quiet part),
            .waited ((readable kind answered.2 answered.1).filter (· ≠ listenfd)).toFinset
              (listenfd ∈ readable kind answered.2 answered.1) :: spoken, ?_, ?_⟩
          · rw [← same]
            rfl
          · rw [multiplexer, due, ← told]
            rfl

theorem round_visit {outcome : Int} (stepped : step kind listenfd st (.visit outcome) = some after) :
    after.round ≠ none := by
  obtain ⟨pos, ready, slot, visited, here, ran, rfl⟩ := step_visit stepped
  exact fun none => by cases none

theorem TableInv.step (lawful : Lawful kind) (inv : TableInv kind listenfd st)
    {event : Event Report} (inRange : InRange kind st event)
    (stepped : SlotTable.step kind listenfd st event = some after) :
    TableInv kind listenfd after := by
  refine ⟨inv.toInv.step lawful inRange stepped, ?_⟩
  cases event with
  | wait answer =>
      have waited := step_wait stepped
      unfold SlotTable.wait at waited
      rw [if_pos (all_in_range.mpr inRange)] at waited
      cases answer with
      | none =>
          cases waited
          exact fun _ => rfl
      | some report =>
          dsimp only at waited
          split at waited
          · cases waited
          · cases waited
            exact fun idle => by cases idle
  | visit outcome => exact fun idle => absurd idle (round_visit stepped)

theorem TableInv.follows (lawful : Lawful kind) (inv : TableInv kind listenfd st)
    {event : Event Report} (inRange : InRange kind st event)
    (stepped : SlotTable.step kind listenfd st event = some after)
    {spec : Multiplexer.State Int} (shows : Shows kind listenfd st spec) :
    ∃ spec', play Multiplexer.step spec (acts kind listenfd st event) = some spec' ∧
      Shows kind listenfd after spec' := by
  cases event with
  | wait answer =>
      have waited := step_wait stepped
      simp only [SlotTable.step] at stepped
      split at stepped
      · cases stepped
      · rename_i may
        rw [Bool.or_eq_true, not_or, Bool.not_eq_true', Bool.not_eq_false] at may
        exact inv.follows_wait lawful may.2 inRange waited shows
  | visit outcome =>
      obtain ⟨pos, ready, slot, visited, here, ran, rfl⟩ := step_visit stepped
      exact follows_acted inv.toInv
        (acted_visit inv.toInv here (inRange pos ready slot here) ran) (ringing_succ rfl) shows

/-- The run of a table in which every descriptor is in range is one of the multiplexing
server, and none of the connections is left open that is not waited for. -/
theorem table_refines (lawful : Lawful kind) (valid : 0 ≤ listenfd)
    {events : List (Event Report)} {last : State Slot Ready}
    (ran : play (step kind listenfd) (start kind listenfd) events = some last)
    (inRange : Throughout (step kind listenfd) (InRange kind) (start kind listenfd) events) :
    ∃ spec, play Multiplexer.step Multiplexer.start
        (follow (step kind listenfd) (acts kind listenfd) (start kind listenfd) events) =
          some spec ∧
      Shows kind listenfd last spec := by
  have began : TableInv kind listenfd (start kind listenfd) :=
    ⟨inv_start lawful valid, fun _ => rfl⟩
  obtain ⟨spec, followed, -, shows⟩ := exists_play_follow
    (fun st spec => TableInv kind listenfd st ∧ Shows kind listenfd st spec)
    (fun st spec event after held met stepped => by
      obtain ⟨spec', followed, shows⟩ := held.1.follows lawful met stepped held.2
      exact ⟨spec', followed, held.1.step lawful met stepped, shows⟩)
    ⟨began, ([] : List (Multiplexer.Call Int)), rfl, rfl⟩ ran inRange
  exact ⟨spec, followed, shows⟩

end LinuxSystemLearning.SlotTable

namespace LinuxSystemLearning.EpollServer

open LinuxSystemLearning.Interleaving
open LinuxSystemLearning.SlotTable (Call live shown)

/-! ## The interest list -/

variable {listenfd : Int} {listening : Bool} {st after : State}

/-- The clients among the entries that the loop has still to visit. -/
def due (listenfd : Int) (recvs : List EpollEvent) : List Int :=
  ((recvs.filter EpollEvent.isIn).map EpollEvent.fd).filter (· ≠ listenfd)

def rings (listenfd : Int) (recvs : List EpollEvent) : Bool :=
  recvs.any fun entry => entry.isIn && entry.fd = listenfd

def multiplexer (listenfd : Int) (calls : List (Multiplexer.Call Int)) (st : State) :
    Multiplexer.State Int :=
  shown (st.interest.filter (· ≠ listenfd)) st.forgotten (due listenfd st.recvs)
    (rings listenfd st.recvs) calls

def acts (listenfd : Int) (st : State) : Event → List (Multiplexer.Act Int)
  | .wait answer => [.wait (due listenfd answer).toFinset (rings listenfd answer)]
  | .visit outcome room =>
      match st.recvs with
      | [] => []
      | entry :: _ =>
          if entry.isIn then
            if entry.fd = listenfd then
              if 0 ≤ outcome then
                match epollCtlAdd outcome room st.interest with
                | none => [.forget outcome]
                | some _ => [.enter outcome]
              else [.miss]
            else if 0 < outcome then [.receive entry.fd] else [.finish entry.fd]
          else []

def Shows (listenfd : Int) (st : State) (spec : Multiplexer.State Int) : Prop :=
  ∃ calls, calls.filterMap SlotTable.recorded = st.calls ∧
    spec = multiplexer listenfd calls st

theorem due_cons_quiet {entry : EpollEvent} {recvs : List EpollEvent}
    (quiet : entry.isIn = false ∨ entry.fd = listenfd) :
    due listenfd (entry :: recvs) = due listenfd recvs := by
  unfold due
  rw [List.filter_cons]
  split
  · rename_i isIn
    have listens := quiet.resolve_left (by rw [isIn]; exact Bool.false_ne_true ∘ Eq.symm)
    rw [List.map_cons, List.filter_cons_of_neg (by simp [listens])]
  · rfl

theorem due_cons {entry : EpollEvent} {recvs : List EpollEvent} (isIn : entry.isIn = true)
    (client : entry.fd ≠ listenfd) :
    due listenfd (entry :: recvs) = entry.fd :: due listenfd recvs := by
  rw [due, List.filter_cons_of_pos isIn, List.map_cons,
    List.filter_cons_of_pos (by simp [client])]
  rfl

theorem rings_cons_quiet {entry : EpollEvent} {recvs : List EpollEvent}
    (quiet : entry.isIn = false ∨ entry.fd ≠ listenfd) :
    rings listenfd (entry :: recvs) = rings listenfd recvs := by
  rcases quiet with notIn | client
  · simp [rings, notIn]
  · simp [rings, client]

theorem rings_cons {entry : EpollEvent} {recvs : List EpollEvent} (isIn : entry.isIn = true)
    (listens : entry.fd = listenfd) (once : ((entry :: recvs).map EpollEvent.fd).Nodup) :
    rings listenfd (entry :: recvs) = true ∧ rings listenfd recvs = false := by
  refine ⟨by simp [rings, isIn, listens], ?_⟩
  rw [rings, List.any_eq_false]
  intro other member both
  have same := of_decide_eq_true (Bool.and_eq_true_iff.mp both).2
  exact (List.nodup_cons.mp once).1 (listens ▸ same ▸ List.mem_map_of_mem member)

theorem nodup_due {recvs : List EpollEvent} (entries : (recvs.map EpollEvent.fd).Nodup) :
    (due listenfd recvs).Nodup :=
  ((List.filter_sublist.map EpollEvent.fd).nodup entries).filter _

theorem due_subset {answer : List EpollEvent}
    (watched : ∀ entry ∈ answer, entry.fd ∈ st.interest) :
    due listenfd answer ⊆ st.interest.filter (· ≠ listenfd) := by
  intro fd member
  obtain ⟨isReported, client⟩ := List.mem_filter.mp member
  obtain ⟨entry, isEntry, rfl⟩ := List.mem_map.mp isReported
  exact List.mem_filter.mpr ⟨watched entry (List.mem_filter.mp isEntry).1, client⟩

theorem Inv.follows (inv : Inv listenfd listening st) {event : Event}
    (stepped : Stepped listenfd st event after) {spec : Multiplexer.State Int}
    (shows : Shows listenfd st spec) :
    ∃ spec', play Multiplexer.step spec (acts listenfd st event) = some spec' ∧
      Shows listenfd after spec' := by
  have entries := inv.entries
  have known : ∀ fd, fd ∉ listenfd :: live st.calls →
      fd ∉ st.interest.filter (· ≠ listenfd) ∧ fd ∉ st.forgotten := by
    intro fd new
    rw [List.mem_cons, not_or] at new
    refine ⟨fun member => ?_, fun member => new.2 (inv.forgotten fd member)⟩
    have watched := (List.mem_filter.mp member).1
    rcases (inv.interest fd).mp watched with isListener | isLive
    · exact new.1 isListener.1
    · exact new.2 isLive.1
  obtain ⟨spoken, same, rfl⟩ := shows
  unfold Shows multiplexer
  cases stepped with
  | wait answer finished answers =>
      have nothing : due listenfd st.recvs = [] := by
        rw [finished]
        rfl
      have quiet : rings listenfd st.recvs = false := by
        rw [finished]
        rfl
      refine ⟨_, play_single (SlotTable.shown_wait _ nothing quiet (due_subset answers.2.2)),
        _ :: spoken, ?_, rfl⟩
      rw [← same]
      rfl
  | passed entry recvs here quiet outcome room =>
      simp only [acts, here, quiet, Bool.false_eq_true, if_false]
      refine ⟨_, rfl, spoken, same, ?_⟩
      rw [due_cons_quiet (.inl quiet), rings_cons_quiet (.inl quiet)]
  | missed entry recvs here isIn listens outcome failed room =>
      rw [here] at entries
      obtain ⟨before, behind⟩ := rings_cons isIn listens entries
      simp only [acts, here, isIn, listens, if_true, if_neg failed]
      refine ⟨_, ?_, .missed :: spoken, same, rfl⟩
      rw [due_cons_quiet (.inr listens), before, behind]
      exact play_single SlotTable.shown_miss
  | entered entry recvs here isIn listens sockfd valid new room added unwatched =>
      rw [here] at entries
      obtain ⟨before, behind⟩ := rings_cons isIn listens entries
      have different : sockfd ≠ listenfd := fun same => new (same ▸ List.mem_cons_self)
      simp only [acts, here, isIn, listens, if_true, if_pos valid, added]
      refine ⟨_, ?_, .accepted sockfd :: spoken, ?_, rfl⟩
      · rw [due_cons_quiet (.inr listens), before, behind,
          List.filter_cons_of_pos (by simp [different])]
        exact play_single (SlotTable.shown_enter (known sockfd new).1 (known sockfd new).2)
      · rw [← same]
        rfl
  | forgotten entry recvs here isIn listens sockfd valid new room refused =>
      rw [here] at entries
      obtain ⟨before, behind⟩ := rings_cons isIn listens entries
      simp only [acts, here, isIn, listens, if_true, if_pos valid, refused]
      refine ⟨_, ?_, .accepted sockfd :: spoken, ?_, rfl⟩
      · rw [due_cons_quiet (.inr listens), before, behind]
        exact play_single (SlotTable.shown_forget (known sockfd new).1 (known sockfd new).2)
      · rw [← same]
        rfl
  | received entry recvs here isIn client n more room =>
      simp only [acts, here, isIn, if_true, if_neg client, if_pos more]
      rw [here] at entries
      have once : (due listenfd (entry :: recvs)).Nodup := nodup_due entries
      rw [due_cons isIn client] at once ⊢
      refine ⟨_, play_single (SlotTable.shown_receive once List.mem_cons_self),
        .received entry.fd :: spoken, ?_, ?_⟩
      · rw [← same]
        rfl
      · rw [List.erase_cons_head, rings_cons_quiet (.inr client)]
  | finished entry recvs here isIn client n ended room =>
      simp only [acts, here, isIn, if_true, if_neg client, if_neg ended]
      rw [here] at entries
      have once : (due listenfd (entry :: recvs)).Nodup := nodup_due entries
      have erased : (st.interest.erase entry.fd).filter (· ≠ listenfd) =
          (st.interest.filter (· ≠ listenfd)).erase entry.fd := by
        rw [inv.once.erase_eq_filter, List.filter_filter, (inv.once.filter _).erase_eq_filter,
          List.filter_filter]
        congr 1
        funext fd
        exact Bool.and_comm _ _
      rw [due_cons isIn client] at once ⊢
      refine ⟨_, play_single (SlotTable.shown_finish once (inv.once.filter _)
          List.mem_cons_self), .closed entry.fd :: .received entry.fd :: spoken, ?_, ?_⟩
      · rw [← same]
        rfl
      · rw [List.erase_cons_head, rings_cons_quiet (.inr client), erased]

theorem epoll_refines {events : List Event} {last : State}
    (ran : play (step listenfd) (start listenfd listening) events = some last) :
    ∃ spec, play Multiplexer.step Multiplexer.start
        (follow (step listenfd) (acts listenfd) (start listenfd listening) events) = some spec ∧
      Shows listenfd last spec := by
  have began : Shows listenfd (start listenfd listening) Multiplexer.start := by
    refine ⟨[], rfl, ?_⟩
    cases listening with
    | false => rfl
    | true => simp [multiplexer, start, epollCtlAdd, due, rings, shown, Multiplexer.start]
  obtain ⟨spec, followed, -, shows⟩ := exists_play_follow
    (fun st spec => Inv listenfd listening st ∧ Shows listenfd st spec)
    (fun st spec event after held _ stepped => by
      have stepped := stepped_of_step stepped
      obtain ⟨spec', followed, shows⟩ := held.1.follows stepped held.2
      exact ⟨spec', followed, held.1.stepped stepped, shows⟩)
    ⟨inv_start listening, began⟩ ran (throughout_of_forall (fun _ _ => trivial) events)
  exact ⟨spec, followed, shows⟩

end LinuxSystemLearning.EpollServer

namespace LinuxSystemLearning.Multiplexer

open LinuxSystemLearning.Interleaving

/-! ## All three -/

/-- What a run of the multiplexing server says of the calls that are recorded.  Regular are
calls in which each wait comes when everybody that the last one reported was served, and
each accept and receive is one that the last wait reported. -/
structure Served (acts : List (Act Int)) (recorded : List SlotTable.Call) (st : State Int) :
    Prop where
  run : play step start acts = some st
  recorded : st.calls.filterMap SlotTable.recorded = recorded
  regular : Regular st.calls
  live : ∀ fd, fd ∈ Multiplexer.live st.calls ↔ st.isOpen fd
  due : ∀ fd, fd ∈ st.due ↔ fd ∈ told st.calls ∧ fd ∉ served st.calls
  ringing : st.ringing = rings st.calls

theorem served_of_play {acts : List (Act Int)} {recorded : List SlotTable.Call}
    {st : State Int} (ran : play step start acts = some st)
    (same : st.calls.filterMap SlotTable.recorded = recorded) : Served acts recorded st := by
  have inv := inv_play ran
  exact ⟨ran, same, inv.regular, inv.live, inv.due, inv.ringing⟩

/-- Every run of the three servers is, with each wait for one that reports what the kernel
answered, a run of the one multiplexing server, that of `SelectServer` as long as the
descriptors in its table are below `FD_SETSIZE`. -/
theorem servers_refine {listenfd : Int} (valid : 0 ≤ listenfd) :
    (∀ events last,
      play (SlotTable.step SlotTable.select listenfd)
          (SlotTable.start SlotTable.select listenfd) events = some last →
        Throughout (SlotTable.step SlotTable.select listenfd)
          (SlotTable.InRange SlotTable.select) (SlotTable.start SlotTable.select listenfd)
          events →
        ∃ calls, Served
          (follow (SlotTable.step SlotTable.select listenfd)
            (SlotTable.acts SlotTable.select listenfd)
            (SlotTable.start SlotTable.select listenfd) events)
          last.calls (SlotTable.multiplexer SlotTable.select listenfd calls last)) ∧
      (∀ events last,
        play (SlotTable.step SlotTable.poll listenfd)
            (SlotTable.start SlotTable.poll listenfd) events = some last →
          ∃ calls, Served
            (follow (SlotTable.step SlotTable.poll listenfd)
              (SlotTable.acts SlotTable.poll listenfd)
              (SlotTable.start SlotTable.poll listenfd) events)
            last.calls (SlotTable.multiplexer SlotTable.poll listenfd calls last)) ∧
      ∀ listening events last,
        play (EpollServer.step listenfd) (EpollServer.start listenfd listening) events =
            some last →
          ∃ calls, Served
            (follow (EpollServer.step listenfd) (EpollServer.acts listenfd)
              (EpollServer.start listenfd listening) events)
            last.calls (EpollServer.multiplexer listenfd calls last) := by
  refine ⟨?_, ?_, ?_⟩
  · intro events last ran inRange
    obtain ⟨spec, followed, calls, same, rfl⟩ :=
      SlotTable.table_refines SlotTable.select_lawful valid ran inRange
    exact ⟨calls, served_of_play followed same⟩
  · intro events last ran
    obtain ⟨spec, followed, calls, same, rfl⟩ :=
      SlotTable.table_refines SlotTable.poll_lawful valid ran
        (throughout_of_forall SlotTable.inRange_poll events)
    exact ⟨calls, served_of_play followed same⟩
  · intro listening events last ran
    obtain ⟨spec, followed, calls, same, rfl⟩ := EpollServer.epoll_refines ran
    exact ⟨calls, served_of_play followed same⟩

/-- A connection comes, sends something and ends in the round behind; the accept of the
second round fails. -/
theorem servers_refine_epoll :
    ∃ (last : EpollServer.State) (calls : List (Call Int)), last.calls =
        [.closed 5, .received 5, .waited, .received 5, .waited, .accepted 5, .waited] ∧
      Served
        [.wait ∅ true, .enter 5, .wait {5} true, .receive 5, .miss, .wait {5} false, .finish 5]
        last.calls (EpollServer.multiplexer 3 calls last) := by
  have ran : play (EpollServer.step 3) (EpollServer.start 3 true)
      [.wait [⟨3, 1⟩], .visit 5 true, .wait [⟨5, 1⟩, ⟨3, 1⟩], .visit 4 true,
        .visit (-1) true, .wait [⟨5, 17⟩], .visit 0 true] = some _ := rfl
  have valid : (0 : Int) ≤ 3 := by decide
  obtain ⟨calls, served⟩ := (servers_refine valid).2.2 true _ _ ran
  exact ⟨_, calls, rfl, served⟩

end LinuxSystemLearning.Multiplexer
