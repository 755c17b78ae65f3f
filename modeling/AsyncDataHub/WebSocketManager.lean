import AsyncDataHub.StepSystem

/-! The registry of live sockets on one event loop. A task runs until it suspends: while `running`
is some task, nobody else takes a step. A session is the endpoint of one client: it connects and
then runs the sender loop; its task id is the client id. -/
namespace AsyncDataHub.WebSocket
open StepSystem

abbrev TaskId := ℕ
abbrev ClientId := TaskId

structure Entry where
  broadcast : TaskId
  message : String
  deriving DecidableEq

inductive Call
  | session
  | disconnect (client : ClientId)
  | broadcast (message : String)
  deriving DecidableEq

/-- Where a task stands. Each `async with self._lock` is an acquisition and the block that runs with
the lock; `rest` are the connections that a broadcast has not come to. -/
inductive Pc
  | accepting
  | registerLock
  | register
  | created
  | get
  | sending (e : Entry)
  | popLock
  | pop
  | snapshotLock
  | snapshot
  | loop (rest : List ClientId)
  | dropLock (c : ClientId) (rest : List ClientId)
  | drop (c : ClientId) (rest : List ClientId)
  | closing (c : ClientId) (rest : List ClientId)
  | put (c : ClientId) (rest : List ClientId)
  | putting (c : ClientId) (rest : List ClientId)
  | hung (c : ClientId) (rest : List ClientId)
  | returned
  | raised
  | ended
  deriving DecidableEq

def Call.firstPc : Call → Pc
  | .session => .accepting
  | .disconnect _ => .popLock
  | .broadcast _ => .snapshotLock

/-- `snapshot` is the broadcast's list of connections; `results` tells of those it has come to
whether their queue had room. -/
structure Task where
  call : Call
  pc : Pc
  snapshot : List ClientId := []
  results : List (ClientId × Bool) := []
  deriving DecidableEq

/-- `enqueued` is everything that has been put into a client's queue, `sent` what its socket has
received. -/
structure State where
  tasks : TaskId → Option Task := fun _ => none
  registry : List ClientId := []
  queue : ClientId → List Entry := fun _ => []
  enqueued : ClientId → List Entry := fun _ => []
  sent : ClientId → List Entry := fun _ => []
  lock : Option TaskId := none
  running : Option TaskId := none

/-- `asyncio.Queue.full`: a size that is not positive stands for no bound. -/
def full (maxsize : ℕ) (queue : List Entry) : Prop := 0 < maxsize ∧ maxsize ≤ queue.length

instance (maxsize : ℕ) (queue : List Entry) : Decidable (full maxsize queue) :=
  inferInstanceAs (Decidable (_ ∧ _))

/-- The task goes on without a suspension. -/
def State.goOn (s : State) (t : TaskId) (task : Task) : State :=
  { s with tasks := Function.update s.tasks t (some task), running := some t }

/-- The task suspends or ends, and the loop is free. -/
def State.suspend (s : State) (t : TaskId) (task : Task) : State :=
  { s with tasks := Function.update s.tasks t (some task), running := none }

def State.enqueue (s : State) (c : ClientId) (e : Entry) : State :=
  { s with
    queue := Function.update s.queue c (s.queue c ++ [e])
    enqueued := Function.update s.enqueued c (s.enqueued c ++ [e]) }

/-- `asyncio.Lock.acquire` suspends only if the lock is taken. -/
def acquire (s : State) (t : TaskId) (task : Task) (pc : Pc) : Option State :=
  match s.lock with
  | none => some { s.goOn t { task with pc } with lock := some t }
  | some _ => if s.running = some t then some { s with running := none } else none

/-- Setting a key of a dictionary keeps its place if it is there. -/
def register (s : State) (t : TaskId) (task : Task) : State :=
  { s.suspend t { task with pc := .created } with
    registry := if t ∈ s.registry then s.registry else s.registry ++ [t], lock := none }

def Task.client (task : Task) (t : TaskId) : ClientId :=
  match task.call with
  | .disconnect client => client
  | _ => t

def Task.message (task : Task) : String :=
  match task.call with
  | .broadcast message => message
  | _ => ""

/-- `queue.put` suspends only if the queue is full. -/
def put (size : ℕ) (s : State) (t : TaskId) (task : Task) (c : ClientId) (rest : List ClientId) :
    Option State :=
  if full size (s.queue c) then
    if s.running = some t then some (s.suspend t { task with pc := .putting c rest }) else none
  else
    some ((s.goOn t
      { task with pc := .loop rest, results := task.results ++ [(c, true)] }).enqueue c
        ⟨t, task.message⟩)

/-- The next step of a task that needs no answer from outside. -/
def run (size : ℕ) (s : State) (t : TaskId) (task : Task) : Option State :=
  match task.pc with
  | .registerLock => acquire s t task .register
  | .register => some (register s t task)
  | .created => some (s.goOn t { task with pc := .get })
  | .get =>
    match s.queue t with
    | [] => if s.running = some t then some { s with running := none } else none
    | e :: queue =>
      some { s.suspend t { task with pc := .sending e } with
        queue := Function.update s.queue t queue }
  | .popLock => acquire s t task .pop
  | .pop =>
    some { s.suspend t { task with pc := .ended } with
      registry := s.registry.erase (task.client t), lock := none }
  | .snapshotLock => acquire s t task .snapshot
  | .snapshot =>
    some { s.goOn t { task with pc := .loop s.registry, snapshot := s.registry } with lock := none }
  | .loop [] => some (s.suspend t { task with pc := .returned })
  | .loop (c :: rest) =>
    if full size (s.queue c) then
      some (s.goOn t
        { task with pc := .dropLock c rest, results := task.results ++ [(c, false)] })
    else some (s.goOn t { task with pc := .put c rest })
  | .dropLock c rest => acquire s t task (.drop c rest)
  | .drop c rest =>
    some { s.suspend t { task with pc := .closing c rest } with
      registry := s.registry.erase c, lock := none }
  | .put c rest | .putting c rest => put size s t task c rest
  | .accepting | .sending _ | .closing _ _ | .hung _ _ | .returned | .raised | .ended => none

/-- What comes from outside: the answers of the sockets (`hang` is a close that never answers) and
cancellations of a session. -/
inductive Action
  | start (t : TaskId) (call : Call)
  | run (t : TaskId)
  | accepted (t : TaskId) (ok : Bool)
  | sent (t : TaskId)
  | sendFails (t : TaskId) (delivered : Bool)
  | closed (t : TaskId) (ok : Bool)
  | hang (t : TaskId)
  | cancel (t : TaskId)
  deriving DecidableEq

def accepted (s : State) (t : TaskId) (task : Task) (ok : Bool) : Option State :=
  match task.pc with
  | .accepting =>
    if ok then some (s.goOn t { task with pc := .registerLock })
    else some (s.suspend t { task with pc := .ended })
  | _ => none

/-- An exception or a cancellation in the sender loop runs its `finally`. -/
def sendDone (s : State) (t : TaskId) (task : Task) (delivered ok : Bool) : Option State :=
  match task.pc with
  | .sending e =>
    some { s.goOn t { task with pc := if ok then .get else .popLock } with
      sent := if delivered then Function.update s.sent t (s.sent t ++ [e]) else s.sent }
  | _ => none

def closed (s : State) (t : TaskId) (task : Task) (ok : Bool) : Option State :=
  match task.pc with
  | .closing _ rest =>
    if ok then some (s.goOn t { task with pc := .loop rest })
    else some (s.suspend t { task with pc := .raised })
  | _ => none

def hang (s : State) (t : TaskId) (task : Task) : Option State :=
  match task.pc with
  | .closing c rest => some (s.suspend t { task with pc := .hung c rest })
  | _ => none

def cancel (s : State) (t : TaskId) (task : Task) : Option State :=
  match task.pc with
  | .accepting | .created => some (s.suspend t { task with pc := .ended })
  | .get => some (s.goOn t { task with pc := .popLock })
  | _ => none

def State.Free (s : State) (t : TaskId) : Prop := s.running = none ∨ s.running = some t

instance (s : State) (t : TaskId) : Decidable (s.Free t) := inferInstanceAs (Decidable (_ ∨ _))

/-- One step of a task: its own next one, or the answer that it waits for. -/
def advance (size : ℕ) (s : State) (t : TaskId) (task : Task) : Action → Option State
  | .run _ => if s.Free t then run size s t task else none
  | .accepted _ ok => if s.running = none then accepted s t task ok else none
  | .sent _ => if s.running = none then sendDone s t task true true else none
  | .sendFails _ delivered => if s.running = none then sendDone s t task delivered false else none
  | .closed _ ok => if s.running = none then closed s t task ok else none
  | .hang _ => if s.running = none then hang s t task else none
  | .cancel _ => if s.running = none then cancel s t task else none
  | .start _ _ => none

def Action.task : Action → TaskId
  | .start t _ | .run t | .accepted t _ | .sent t | .sendFails t _ | .closed t _ | .hang t
  | .cancel t => t

def step (size : ℕ) (s : State) (a : Action) : Option State :=
  match a with
  | .start t call =>
    match s.running, s.tasks t with
    | none, none => some (s.suspend t { call, pc := call.firstPc })
    | _, _ => none
  | a => (s.tasks a.task).bind fun task => advance size s a.task task a

/-- The steps of a session from its start to its registration. -/
def connects (t : TaskId) : List Action := [.start t .session, .accepted t true, .run t, .run t]

/-- The steps of a broadcast that finds one client, with room in its queue. -/
def broadcasts (t : TaskId) (message : String) : List Action :=
  [.start t (.broadcast message), .run t, .run t, .run t, .run t, .run t]

variable {size : ℕ} {s s' : State} {a : Action} {t : TaskId} {task : Task}

inductive Locks : Pc → Pc → Prop
  | register : Locks .registerLock .register
  | pop : Locks .popLock .pop
  | snapshot : Locks .snapshotLock .snapshot
  | drop (c : ClientId) (rest : List ClientId) : Locks (.dropLock c rest) (.drop c rest)

/-- The moves of a task that touch nothing but its own place, and whether it has the loop after
them. -/
inductive Moves : Action → Pc → Pc → Bool → Prop
  | begins (t : TaskId) : Moves (.run t) .created .get true
  | accepts (t : TaskId) : Moves (.accepted t true) .accepting .registerLock true
  | refused (t : TaskId) : Moves (.accepted t false) .accepting .ended false
  | returns (t : TaskId) : Moves (.run t) (.loop []) .returned false
  | closes (t : TaskId) (c : ClientId) (rest : List ClientId) :
      Moves (.closed t true) (.closing c rest) (.loop rest) true
  | raises (t : TaskId) (c : ClientId) (rest : List ClientId) :
      Moves (.closed t false) (.closing c rest) .raised false
  | hangs (t : TaskId) (c : ClientId) (rest : List ClientId) :
      Moves (.hang t) (.closing c rest) (.hung c rest) false
  | cancelsConnect (t : TaskId) : Moves (.cancel t) .accepting .ended false
  | cancelsCreated (t : TaskId) : Moves (.cancel t) .created .ended false
  | cancelsGet (t : TaskId) : Moves (.cancel t) .get .popLock true

def State.place (s : State) (t : TaskId) (task : Task) (keeps : Bool) : State :=
  if keeps then s.goOn t task else s.suspend t task

/-- The action is a step of the task, and the loop is free for it. -/
structure Steps (s : State) (a : Action) (t : TaskId) (task : Task) : Prop where
  found : s.tasks t = some task
  free : s.Free t
  actor : a.task = t

inductive Took (size : ℕ) (s : State) (a : Action) : State → Prop
  | starts {t : TaskId} {call : Call} (act : a = .start t call) (idle : s.running = none)
      (fresh : s.tasks t = none) : Took size s a (s.suspend t { call, pc := call.firstPc })
  | takes {t : TaskId} {task : Task} {pc : Pc} (steps : Steps s a t task) (unlocked : s.lock = none)
      (block : Locks task.pc pc) :
      Took size s a { s.goOn t { task with pc } with lock := some t }
  | parks {t : TaskId} {task : Task} (steps : Steps s a t task) (had : s.running = some t)
      (reason : (∃ pc, Locks task.pc pc) ∧ s.lock ≠ none ∨ task.pc = .get ∧ s.queue t = []) :
      Took size s a { s with running := none }
  | registers {t : TaskId} {task : Task} (steps : Steps s a t task) (pc : task.pc = .register) :
      Took size s a (register s t task)
  | pops {t : TaskId} {task : Task} (steps : Steps s a t task) (pc : task.pc = .pop) :
      Took size s a
        { s.suspend t { task with pc := .ended } with
          registry := s.registry.erase (task.client t), lock := none }
  | snaps {t : TaskId} {task : Task} (steps : Steps s a t task) (pc : task.pc = .snapshot) :
      Took size s a
        { s.goOn t { task with pc := .loop s.registry, snapshot := s.registry } with lock := none }
  | finds {t : TaskId} {task : Task} {c : ClientId} {rest : List ClientId}
      (steps : Steps s a t task) (pc : task.pc = .loop (c :: rest)) (full : full size (s.queue c)) :
      Took size s a (s.goOn t
        { task with pc := .dropLock c rest, results := task.results ++ [(c, false)] })
  | drops {t : TaskId} {task : Task} {c : ClientId} {rest : List ClientId}
      (steps : Steps s a t task) (pc : task.pc = .drop c rest) :
      Took size s a
        { s.suspend t { task with pc := .closing c rest } with
          registry := s.registry.erase c, lock := none }
  | passes {t : TaskId} {task : Task} {c : ClientId} {rest : List ClientId}
      (steps : Steps s a t task) (pc : task.pc = .loop (c :: rest))
      (room : ¬ full size (s.queue c)) : Took size s a (s.goOn t { task with pc := .put c rest })
  | waits {t : TaskId} {task : Task} {c : ClientId} {rest : List ClientId}
      (steps : Steps s a t task) (pc : task.pc = .put c rest ∨ task.pc = .putting c rest)
      (full : full size (s.queue c)) (had : s.running = some t) :
      Took size s a (s.suspend t { task with pc := .putting c rest })
  | enqueues {t : TaskId} {task : Task} {c : ClientId} {rest : List ClientId}
      (steps : Steps s a t task) (pc : task.pc = .put c rest ∨ task.pc = .putting c rest)
      (room : ¬ full size (s.queue c)) :
      Took size s a ((s.goOn t
        { task with pc := .loop rest, results := task.results ++ [(c, true)] }).enqueue c
          ⟨t, task.message⟩)
  | dequeues {t : TaskId} {task : Task} {e : Entry} {queue : List Entry} (steps : Steps s a t task)
      (pc : task.pc = .get) (head : s.queue t = e :: queue) :
      Took size s a
        { s.suspend t { task with pc := .sending e } with
          queue := Function.update s.queue t queue }
  | sends {t : TaskId} {task : Task} {e : Entry} {delivered ok : Bool} (steps : Steps s a t task)
      (pc : task.pc = .sending e) (sound : ok = true → delivered = true) :
      Took size s a
        { s.goOn t { task with pc := if ok then .get else .popLock } with
          sent := if delivered then Function.update s.sent t (s.sent t ++ [e]) else s.sent }
  | moves {t : TaskId} {task : Task} {pc : Pc} {keeps : Bool} (steps : Steps s a t task)
      (move : Moves a task.pc pc keeps) : Took size s a (s.place t { task with pc } keeps)

lemma took_of_acquire {pc : Pc} (hs : Steps s a t task) (hl : Locks task.pc pc)
    (h : acquire s t task pc = some s') : Took size s a s' := by
  unfold acquire at h
  split at h
  · exact Option.some.inj h ▸ .takes hs ‹_› hl
  · split_ifs at h with hhad
    exact Option.some.inj h ▸ .parks hs hhad (.inl ⟨⟨pc, hl⟩, by simp [*]⟩)

lemma took_of_put {c : ClientId} {rest : List ClientId} (hs : Steps s a t task)
    (hpc : task.pc = .put c rest ∨ task.pc = .putting c rest)
    (h : put size s t task c rest = some s') : Took size s a s' := by
  unfold put at h
  split_ifs at h with hfull hhad
  · exact Option.some.inj h ▸ .waits hs hpc hfull hhad
  · exact Option.some.inj h ▸ .enqueues hs hpc hfull

lemma took_of_run (hs : Steps s (.run t) t task) (h : run size s t task = some s') :
    Took size s (.run t) s' := by
  cases hpc : task.pc with
  | registerLock | popLock | snapshotLock | dropLock c rest =>
    simp only [run, hpc] at h
    refine took_of_acquire hs ?_ h
    rw [hpc]
    constructor
  | register =>
    simp only [run, hpc, Option.some.injEq] at h
    exact h ▸ .registers hs hpc
  | created =>
    simp only [run, hpc, Option.some.injEq] at h
    exact h ▸ .moves hs (by rw [hpc]; exact .begins t)
  | get =>
    simp only [run, hpc] at h
    split at h
    · split_ifs at h with hhad
      exact Option.some.inj h ▸ .parks hs hhad (.inr ⟨hpc, ‹_›⟩)
    · exact Option.some.inj h ▸ .dequeues hs hpc ‹_›
  | pop =>
    simp only [run, hpc, Option.some.injEq] at h
    exact h ▸ .pops hs hpc
  | snapshot =>
    simp only [run, hpc, Option.some.injEq] at h
    exact h ▸ .snaps hs hpc
  | loop rest =>
    cases rest with
    | nil =>
      simp only [run, hpc, Option.some.injEq] at h
      exact h ▸ .moves hs (by rw [hpc]; exact .returns t)
    | cons c rest =>
      simp only [run, hpc] at h
      split_ifs at h with hfull
      · exact Option.some.inj h ▸ .finds hs hpc hfull
      · exact Option.some.inj h ▸ .passes hs hpc hfull
  | drop c rest =>
    simp only [run, hpc, Option.some.injEq] at h
    exact h ▸ .drops hs hpc
  | put c rest =>
    simp only [run, hpc] at h
    exact took_of_put hs (.inl hpc) h
  | putting c rest =>
    simp only [run, hpc] at h
    exact took_of_put hs (.inr hpc) h
  | accepting | sending _ | closing _ _ | hung _ _ | returned | raised | ended =>
    simp [run, hpc] at h

lemma took_of_sendDone {delivered ok : Bool} (hs : Steps s a t task)
    (hsound : ok = true → delivered = true) (h : sendDone s t task delivered ok = some s') :
    Took size s a s' := by
  unfold sendDone at h
  split at h
  · exact Option.some.inj h ▸ .sends hs ‹_› hsound
  · cases h

lemma took_of_advance (hc : s.tasks a.task = some task)
    (h : advance size s a.task task a = some s') : Took size s a s' := by
  cases a with
  | start t call => cases h
  | run t =>
    simp only [advance] at h
    split_ifs at h with hfree
    exact took_of_run ⟨hc, hfree, rfl⟩ h
  | accepted t ok =>
    simp only [advance] at h
    split_ifs at h with hidle
    have hs : Steps s (.accepted t ok) t task := ⟨hc, .inl hidle, rfl⟩
    unfold accepted at h
    split at h
    · split_ifs at h with hok
      · exact Option.some.inj h ▸ .moves hs (by rw [‹task.pc = _›, hok]; exact .accepts t)
      · rw [Bool.not_eq_true] at hok
        exact Option.some.inj h ▸ .moves hs (by rw [‹task.pc = _›, hok]; exact .refused t)
    · cases h
  | sent t =>
    simp only [advance] at h
    split_ifs at h with hidle
    exact took_of_sendDone ⟨hc, .inl hidle, rfl⟩ (fun _ => rfl) h
  | sendFails t delivered =>
    simp only [advance] at h
    split_ifs at h with hidle
    have hsound : false = true → delivered = true := nofun
    exact took_of_sendDone ⟨hc, .inl hidle, rfl⟩ hsound h
  | closed t ok =>
    simp only [advance] at h
    split_ifs at h with hidle
    have hs : Steps s (.closed t ok) t task := ⟨hc, .inl hidle, rfl⟩
    unfold closed at h
    split at h
    · split_ifs at h with hok
      · exact Option.some.inj h ▸ .moves hs (by rw [‹task.pc = _›, hok]; exact .closes t _ _)
      · rw [Bool.not_eq_true] at hok
        exact Option.some.inj h ▸ .moves hs (by rw [‹task.pc = _›, hok]; exact .raises t _ _)
    · cases h
  | hang t =>
    simp only [advance] at h
    split_ifs at h with hidle
    unfold hang at h
    split at h
    · exact Option.some.inj h ▸ .moves ⟨hc, .inl hidle, rfl⟩
        (by rw [‹task.pc = _›]; exact .hangs t _ _)
    · cases h
  | cancel t =>
    simp only [advance] at h
    split_ifs at h with hidle
    have hs : Steps s (.cancel t) t task := ⟨hc, .inl hidle, rfl⟩
    unfold cancel at h
    split at h
    · exact Option.some.inj h ▸ .moves hs (by rw [‹task.pc = _›]; exact .cancelsConnect t)
    · exact Option.some.inj h ▸ .moves hs (by rw [‹task.pc = _›]; exact .cancelsCreated t)
    · exact Option.some.inj h ▸ .moves hs (by rw [‹task.pc = _›]; exact .cancelsGet t)
    · cases h

theorem took_of_step (h : step size s a = some s') : Took size s a s' := by
  cases a with
  | start t call =>
    simp only [step] at h
    split at h
    · exact Option.some.inj h ▸ .starts rfl ‹_› ‹_›
    · cases h
  | _ =>
    obtain ⟨task, hc, h⟩ := Option.bind_eq_some_iff.mp h
    exact took_of_advance hc h

end AsyncDataHub.WebSocket
