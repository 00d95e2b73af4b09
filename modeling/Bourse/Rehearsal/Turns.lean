import Bourse.Rehearsal.Steps

/-!
# Working in turns

Several pieces of work may be done side by side. One of them has the turn, and works until it is
done, has to wait, or has used up its turn. Then it is paused, and the first in the queue has the
turn.

The turns are given in rounds. A round ends when the queue is empty, or when so many turns are given
that it is full. Then those who have used up their turns join the queue, the last of them first. If
the queue is still empty, time passes until an alarm rings. Those whose stalls end join the queue in
the order in which they began to stall.

A desk serves one piece of work at a time, and the others stand in line. The first in line joins the
queue when it is called up. A piece of work that comes to a free desk with its turn used up is
paused there, and keeps the desk until it goes on.

There may be an overseer who looks after the work. To do so takes a turn: the overseer joins the
queue when a piece of work is done.

Every turn of a piece of work does at least one step, so all the work is done at last.
-/

namespace Bourse.Rehearsal

variable {α : Type}

/-- A place in the queue. -/
structure Place where
  /-- The round in which the queue was joined. -/
  round : Nat
  /-- What decides between those who joined in one round: the smaller rank comes first. -/
  rank : Int
  deriving DecidableEq

namespace Place

def isBefore (p q : Place) : Bool :=
  p.round < q.round || p.round == q.round && p.rank < q.rank

instance : Min Place := ⟨fun p q => if q.isBefore p then q else p⟩

instance : Std.MinEqOr Place := ⟨fun p q => by simp only [min]; split <;> simp⟩

end Place

/-- How a paused piece of work stands. The numbers grow with the turns in which the work paused. -/
inductive Standing where
  /-- It is in the queue, and its wait has ended. -/
  | queued (p : Place) (w : Waking)
  /-- It has used up its turn. -/
  | spent (number : Nat)
  /-- It stands in line at a desk. -/
  | inLine (number : Nat)
  /-- It stalls. -/
  | asleep (number : Nat) (s : Sleep)

/-- A piece of work among others. -/
inductive Lane (α : Type) where
  | done (a : α)
  | paused (standing : Standing) (need : Need) (next : Waking → Steps α)

namespace Lane

/-- A piece of work that has not begun, with its place in the first round. -/
def fresh (s : Steps α) (rank : Nat) : Lane α :=
  paused (.queued ⟨0, rank⟩ (.met none)) .turn fun _ => s

/-- The steps that are left. -/
def rest : Lane α → Steps α
  | done a => .done a
  | paused _ n next => .await n next

def result? : Lane α → Option α
  | done a => some a
  | paused _ _ _ => none

/-- Its place in the queue, if it is there. -/
def place? : Lane α → Option Place
  | paused (.queued p _) _ _ => some p
  | _ => none

/-- The desk where the work is served or stands in line. -/
def desk? : Lane α → Option Desk
  | paused _ (.desk d _) _ => some d
  | _ => none

/-- The number in the line at a desk. -/
def number? (d : Desk) : Lane α → Option Nat
  | paused (.inLine k) (.desk e _) _ => if e = d then some k else none
  | _ => none

/-- When the next alarm of the work rings. -/
def alarm? : Lane α → Option Nat
  | paused (.asleep _ s) _ _ => some s.next
  | _ => none

/-- The work when it joins the queue. -/
def queued (p : Place) (w : Waking) : Lane α → Lane α
  | done a => done a
  | paused _ n next => paused (.queued p w) n next

/-- The work when a round begins. -/
def refreshed (round : Nat) : Lane α → Lane α
  | paused (.spent k) n next => paused (.queued ⟨round, -k⟩ (.met none)) n next
  | lane => lane

/-- The work when it is some time. -/
def woken (round now : Nat) : Lane α → Lane α
  | paused (.asleep k s) n next =>
    match s.waking? now with
    | none => paused (.asleep k s) n next
    | some w => paused (.queued ⟨round, k⟩ w) n next
  | lane => lane

theorem rest_queued (p : Place) (w : Waking) (lane : Lane α) :
    (lane.queued p w).rest = lane.rest := by
  cases lane <;> rfl

theorem rest_refreshed (round : Nat) (lane : Lane α) :
    (lane.refreshed round).rest = lane.rest := by
  unfold refreshed
  split <;> rfl

theorem rest_woken (round now : Nat) (lane : Lane α) :
    (lane.woken round now).rest = lane.rest := by
  unfold woken
  split
  · split <;> rfl
  · rfl

end Lane

/-- Whether a piece of work is at a desk. -/
def isBusy (lanes : List (Lane α)) (d : Desk) : Bool :=
  lanes.any fun lane => lane.desk? = some d

/-- How many needs are met in a turn. -/
def turnLength : Nat := 128

/-- How many turns there are in a full round. -/
def roundLength : Nat := 61

/-- How many of the needs of a turn are used up when a need is met. -/
def Need.cost : Need → Nat
  | turn => 0
  | stall _ _ => 1
  | desk _ _ => 1

/-- What a piece of work finds when it gets a turn. -/
structure Turn where
  /-- The desks where other pieces of work are. -/
  busy : Desk → Bool
  /-- How many turns there were before. -/
  number : Nat

/-- How the work is paused, or how the wait ends at once, when so many more needs can be met in the
turn. -/
def Turn.meet (t : Turn) (now left : Nat) : Need → Standing ⊕ Waking
  | .turn => if left = 0 then .inl (.spent t.number) else .inr (.met none)
  | .stall ms limit =>
    if ms = 0 then .inr (.met none) else .inl (.asleep t.number (.start now ms limit))
  | .desk d reached =>
    if t.busy d then
      match reached with
      | none => .inl (.inLine t.number)
      | some limit => .inr (.late limit)
    else if left = 0 then .inl (.spent t.number)
    else .inr (.met none)

variable (stamps : Nat → Stamp)

/-- Does the steps of a turn in which so many more needs can be met. -/
def turn (t : Turn) : Nat → Steps α → Rehearsal → Lane α × Rehearsal
  | _, .done a, r => (.done a, r)
  | left, .make c next, r =>
    let (struck, r) := r.make c
    turn t left (next struck) r
  | left, .await n next, r =>
    match t.meet r.elapsed left n with
    | .inl standing => (.paused standing n next, r)
    | .inr waking => turn t (left - n.cost) (next waking) r
  | left, .answer struck c next, r =>
    let (reply, r) := r.answer stamps struck c
    turn t left (next reply) r

theorem rest_turn (t : Turn) (left : Nat) (s : Steps α) (r : Rehearsal) :
    (turn stamps t left s r).1.rest = s ∨ Steps.Later (turn stamps t left s r).1.rest s := by
  induction s generalizing left r with
  | done a => exact .inl rfl
  | make c next ih => exact .inr (Steps.later_of_follows (ih _ _ _) (.make _))
  | await n next ih =>
    simp only [turn]
    split
    · exact .inl rfl
    · exact .inr (Steps.later_of_follows (ih _ _ _) (.await _))
  | answer struck c next ih => exact .inr (Steps.later_of_follows (ih _ _ _) (.answer _))

/-- Goes on with a piece of work from the queue. -/
def Lane.resume (t : Turn) : Lane α → Rehearsal → Lane α × Rehearsal
  | .paused (.queued _ w) n next, r => turn stamps t (turnLength - n.cost) (next w) r
  | lane, r => (lane, r)

theorem Lane.later_resume {p : Place} (t : Turn) {lane : Lane α} (r : Rehearsal)
    (h : lane.place? = some p) : Steps.Later (lane.resume stamps t r).1.rest lane.rest := by
  unfold Lane.place? at h
  split at h
  · exact Steps.later_of_follows (rest_turn stamps t _ _ r) (.await _)
  · nomatch h

/-- Gives the work at a place its turn. -/
def resumeAt (p : Place) (t : Turn) : List (Lane α) → Rehearsal → List (Lane α) × Rehearsal
  | [], r => ([], r)
  | lane :: lanes, r =>
    if lane.place? = some p then
      let (lane, r) := lane.resume stamps t r
      (lane :: lanes, r)
    else
      let (lanes, r) := resumeAt p t lanes r
      (lane :: lanes, r)

theorem oneLater_resumeAt {p : Place} (t : Turn) {lanes : List (Lane α)} (r : Rehearsal)
    (h : some p ∈ lanes.map Lane.place?) :
    Steps.OneLater ((resumeAt stamps p t lanes r).1.map Lane.rest) (lanes.map Lane.rest) := by
  induction lanes with
  | nil => nomatch h
  | cons lane lanes ih =>
    simp only [resumeAt]
    split
    next hp => exact .head (lane.later_resume stamps t r hp)
    next hp =>
      refine .tail (ih ?_)
      rcases List.mem_cons.mp h with h | h
      · exact absurd h.symm hp
      · exact h

/-- Gives the first in line at a desk a place in the queue. -/
def callUp (p : Place) : Option Desk → List (Lane α) → List (Lane α)
  | none, lanes => lanes
  | some d, lanes =>
    match (lanes.filterMap (Lane.number? d)).min? with
    | none => lanes
    | some k =>
      lanes.map fun lane => if lane.number? d = some k then lane.queued p (.met none) else lane

theorem map_rest_congr {f : Lane α → Lane α} (h : ∀ lane, (f lane).rest = lane.rest)
    (lanes : List (Lane α)) : (lanes.map f).map Lane.rest = lanes.map Lane.rest := by
  rw [List.map_map]
  exact List.map_congr_left fun lane _ => h lane

theorem map_rest_callUp (p : Place) (d : Option Desk) (lanes : List (Lane α)) :
    (callUp p d lanes).map Lane.rest = lanes.map Lane.rest := by
  unfold callUp
  split
  · rfl
  · split
    · rfl
    · refine map_rest_congr (fun lane => ?_) lanes
      split
      · exact lane.rest_queued p (.met none)
      · rfl

/-- Pieces of work that are under way. -/
structure Shift (α : Type) where
  lanes : List (Lane α)
  /-- The place of the overseer in the queue. -/
  overseer : Option Place
  round : Nat
  /-- How many turns were given in this round. -/
  given : Nat
  /-- How many turns were given to pieces of work, counted from the number of these. -/
  count : Nat

namespace Shift

/-- The steps that are left of every piece of work. -/
def rests (s : Shift α) : List (Steps α) :=
  s.lanes.map Lane.rest

/-- What has come of the pieces of work that are done. -/
def results (s : Shift α) : List α :=
  s.lanes.filterMap Lane.result?

/-- A shift gets nearer to its end when one piece of work goes on. -/
instance : WellFoundedRelation (Shift α) where
  rel s t := Steps.OneLater s.rests t.rests
  wf := InvImage.wf rests ⟨Steps.oneLater_acc⟩

/-- The place of the first piece of work in the queue. -/
def next? (s : Shift α) : Option Place :=
  (s.lanes.filterMap Lane.place?).min?

theorem mem_of_next? {s : Shift α} {p : Place} (h : s.next? = some p) :
    some p ∈ s.lanes.map Lane.place? := by
  have := List.min?_mem h
  simpa using this

/-- All places in the queue. -/
def queue (s : Shift α) : List Place :=
  s.lanes.filterMap Lane.place? ++ s.overseer.toList

/-- Begins a round if one has ended. -/
def renew (s : Shift α) : Shift α :=
  if roundLength ≤ s.given ∨ s.queue = [] then
    { s with
      lanes := s.lanes.map (Lane.refreshed (s.round + 1))
      round := s.round + 1
      given := 0 }
  else s

/-- Gives the overseer a turn who is the first in the queue. -/
def oversee (s : Shift α) : Shift α :=
  if s.overseer.isSome ∧ s.queue.min? = s.overseer then
    { s with overseer := none, given := s.given + 1 }
  else s

theorem rests_renew (s : Shift α) : s.renew.rests = s.rests := by
  unfold renew
  split
  · exact map_rest_congr (Lane.rest_refreshed _) s.lanes
  · rfl

theorem rests_oversee (s : Shift α) : s.oversee.rests = s.rests := by
  unfold oversee
  split <;> rfl

/-- Lets time pass until the next alarm rings if no piece of work is in the queue. -/
def wake (s : Shift α) (r : Rehearsal) : Shift α × Rehearsal :=
  match s.next? with
  | some _ => (s, r)
  | none =>
    let now := (s.lanes.filterMap Lane.alarm?).min?.getD r.elapsed
    ({ s with lanes := s.lanes.map (Lane.woken s.round now) }, { r with elapsed := now })

theorem rests_wake (s : Shift α) (r : Rehearsal) : (s.wake r).1.rests = s.rests := by
  unfold wake
  split
  · rfl
  · exact map_rest_congr (Lane.rest_woken _ _) s.lanes

/-- All that comes before the next turn of a piece of work. -/
def proceed (s : Shift α) (r : Rehearsal) : Shift α × Rehearsal :=
  s.renew.oversee.renew.wake r

theorem rests_proceed (s : Shift α) (r : Rehearsal) : (s.proceed r).1.rests = s.rests := by
  rw [proceed, rests_wake, rests_renew, rests_oversee, rests_renew]

/-- Gives the work at a place its turn. Then the first in line is called up at the desk where that
work was, and the overseer is called if the work is done. -/
def giveTurn (overseen : Bool) (p : Place) (s : Shift α) (r : Rehearsal) :
    Shift α × Rehearsal :=
  let desk := (s.lanes.find? fun lane => lane.place? = some p).bind Lane.desk?
  let others := s.lanes.filter fun lane => lane.place? ≠ some p
  let (lanes, r) := resumeAt stamps p ⟨isBusy others, s.count⟩ s.lanes r
  let isDone := s.results.length < (lanes.filterMap Lane.result?).length
  let called := if overseen ∧ isDone then some ⟨s.round, 2 * s.count + 1⟩ else none
  ({ s with
      lanes := callUp ⟨s.round, 2 * s.count⟩ desk lanes
      overseer := s.overseer <|> called
      given := s.given + 1
      count := s.count + 1 }, r)

theorem oneLater_giveTurn (overseen : Bool) {p : Place} {s : Shift α} (r : Rehearsal)
    (h : s.next? = some p) :
    Steps.OneLater (s.giveTurn stamps overseen p r).1.rests s.rests := by
  simp only [giveTurn, rests, map_rest_callUp]
  exact oneLater_resumeAt stamps _ r (mem_of_next? h)

theorem oneLater_giveTurn_proceed (overseen : Bool) {p : Place} {s : Shift α} {r : Rehearsal}
    (h : (s.proceed r).1.next? = some p) :
    Steps.OneLater ((s.proceed r).1.giveTurn stamps overseen p (s.proceed r).2).1.rests s.rests :=
  s.rests_proceed r ▸ oneLater_giveTurn stamps overseen (s.proceed r).2 h

/-- Gives turns until all the work is done, and has been seen to be done. -/
def finish (overseen : Bool) (s : Shift α) (r : Rehearsal) : Shift α × Rehearsal :=
  match _h : (s.proceed r).1.next? with
  | none => (s.renew.oversee, (s.proceed r).2)
  | some p =>
    let after := (s.proceed r).1.giveTurn stamps overseen p (s.proceed r).2
    finish overseen after.1 after.2
termination_by s
decreasing_by exact oneLater_giveTurn_proceed stamps overseen _h

/-- Pieces of work that are about to begin, when so many turns were given in the round. -/
def start (given : Nat) (ss : List (Steps α)) : Shift α :=
  ⟨ss.zipIdx.map fun (s, rank) => .fresh s rank, none, 0, given, ss.length⟩

end Shift

/-- Does pieces of work side by side. If there is an overseer, so many turns were given in the round
when the overseer had the last one, and it is told how many there are when the overseer sees that
all the work is done. -/
def runTogether (limit : Option Nat) (overseer : Option Nat) (ws : List (Work α)) (r : Rehearsal) :
    (List α × Option Nat) × Rehearsal :=
  if ws.isEmpty then (([], overseer), r)
  else
    let s := Shift.start (overseer.getD 0) (ws.map (Steps.ofWork limit))
    let (s, r) := s.finish stamps overseer.isSome r
    ((s.results, overseer.map fun _ => s.given), r)

end Bourse.Rehearsal
