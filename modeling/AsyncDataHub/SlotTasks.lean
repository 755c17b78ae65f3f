import AsyncDataHub.Semaphore
import AsyncDataHub.StepSystem

/-! Tasks that hold the slots of several semaphores, one taken inside the other: how many hold a
slot, and that all of them end. -/
namespace AsyncDataHub.Semaphores
open StepSystem

variable {L T : Type*}

/-- How the block inside the slots ends. -/
inductive Outcome
  | returned
  | raised
  | cancelled
  deriving DecidableEq

/-- Where a task is. It holds the slots of `held`, the last one taken first, and has to take those
of `rest` before its block runs; `cancelling` is a cancellation that has been requested. -/
inductive Pc (L : Type*)
  | idle
  | running (held rest : List L)
  | waiting (held : List L) (l : L) (rest : List L) (cancelling : Bool)
  | leaving (held : List L) (outcome : Outcome)
  deriving DecidableEq

def Pc.held : Pc L → List L
  | .idle => []
  | .running held _ | .waiting held _ _ _ | .leaving held _ => held

def Pc.waitsFor : Pc L → Option L
  | .waiting _ l _ _ => some l
  | _ => none

def Pc.toAsk (plan : List L) : Pc L → List L
  | .idle => plan
  | .running _ rest | .waiting _ _ rest _ => rest
  | .leaving _ _ => []

def Pc.Planned (plan : List L) : Pc L → Prop
  | .idle => True
  | .running held rest => held.reverse ++ rest = plan
  | .waiting held l rest _ => held.reverse ++ l :: rest = plan
  | .leaving held _ => held.reverse <+: plan

def Pc.Inside (pc : Pc L) : Prop := ∃ held, pc = .running held []

def Pc.Ended (pc : Pc L) : Prop := ∃ outcome, pc = .leaving [] outcome

structure State (L T : Type*) where
  sem : L → Semaphore T
  pc : T → Pc L

def State.init (limit : L → ℕ) : State L T := ⟨fun l => .init (limit l), fun _ => .idle⟩

/-- `resume t n` runs a task whose future is done; how many others it wakes differs between the
versions of the library, but it is at least one if it has a slot to take or to put back. -/
inductive Action (T : Type*)
  | start (t : T)
  | acquire (t : T)
  | resume (t : T) (n : ℕ)
  | cancel (t : T)
  | finish (t : T) (outcome : Outcome)
  | release (t : T)

/-- Every slot is left, or held by one task; the queue holds the tasks that wait. -/
structure SlotInv (limit : ℕ) (l : L) (s : State L T) : Prop where
  nodup : (s.sem l).tasks.Nodup
  waits : ∀ t, t ∈ (s.sem l).tasks ↔ (s.pc t).waitsFor = some l
  slots : ∃ holders : Finset T, (∀ t, t ∈ holders ↔ l ∈ (s.pc t).held) ∧
    (s.sem l).left + holders.card = limit
  awake : (s.sem l).Awake

lemma slotInv_init (limit : L → ℕ) (l : L) :
    SlotInv (limit l) l (State.init limit : State L T) where
  nodup := by simp [State.init, Semaphore.init, Semaphore.tasks]
  waits t := by simp [State.init, Semaphore.init, Semaphore.tasks, Pc.waitsFor]
  slots := ⟨∅, by simp [State.init, Pc.held], by simp [State.init, Semaphore.init, Semaphore.left]⟩
  awake := by simp [State.init, Semaphore.init, Semaphore.Awake]

lemma Pc.Planned.notMem_held {plan : List L} {pc : Pc L} {l : L} {held rest : List L}
    (hnodup : plan.Nodup) (h : pc.Planned plan) (hpc : pc = .running held (l :: rest) ∨
      ∃ cancelling, pc = .waiting held l rest cancelling) : l ∉ held := by
  have hplan : held.reverse ++ l :: rest = plan := by
    rcases hpc with rfl | ⟨_, rfl⟩ <;> exact h
  rw [← hplan, List.nodup_middle, List.nodup_cons] at hnodup
  simpa using fun hl => hnodup.1 (List.mem_append_left _ (List.mem_reverse.mpr hl))

lemma Pc.Planned.notMem_of_leaving {plan : List L} {l : L} {held : List L} {outcome : Outcome}
    (hnodup : plan.Nodup) (h : (Pc.leaving (l :: held) outcome).Planned plan) : l ∉ held := by
  have hheld := h.sublist.nodup hnodup
  rw [List.nodup_reverse, List.nodup_cons] at hheld
  exact hheld.1

variable {plan : T → List L} {limit : L → ℕ} {s : State L T} {t : T} {l : L}

structure Inv (plan : T → List L) (limit : L → ℕ) (s : State L T) : Prop where
  planned : ∀ t, (s.pc t).Planned (plan t)
  slot : ∀ l, SlotInv (limit l) l s

/-- No more tasks hold a slot of `l` than it has. -/
theorem Inv.card_le (hi : Inv plan limit s) {tasks : Finset T}
    (htasks : ∀ t ∈ tasks, l ∈ (s.pc t).held) : tasks.card ≤ limit l := by
  obtain ⟨holders, hmem, hcard⟩ := (hi.slot l).slots
  have hsub : tasks ⊆ holders := fun t ht => (hmem t).mpr (htasks t ht)
  have hle := Finset.card_le_card hsub
  omega

/-- A task waits for its turn only while all slots are taken, or while one that has been woken has
not yet run. -/
theorem Inv.full_of_pending (hi : Inv plan limit s)
    (hpending : ⟨t, .pending⟩ ∈ (s.sem l).waiters)
    (hnone : ∀ w ∈ (s.sem l).waiters, w.fut ≠ .result) :
    ∃ holders : Finset T, (∀ u, u ∈ holders ↔ l ∈ (s.pc u).held) ∧ holders.card = limit l := by
  obtain ⟨holders, hmem, hcard⟩ := (hi.slot l).slots
  have hvalue : (s.sem l).value = 0 := by
    by_contra hne
    obtain ⟨w, hw, hresult⟩ :=
      (hi.slot l).awake (Nat.pos_of_ne_zero hne) ⟨_, hpending, rfl⟩
    exact hnone w hw hresult
  have hwoken : (s.sem l).waiters.countP (fun w => decide (w.fut = .result)) = 0 :=
    List.countP_eq_zero.mpr fun w hw => by simpa using hnone w hw
  refine ⟨holders, hmem, ?_⟩
  simp only [Semaphore.left, hvalue, hwoken] at hcard
  omega

/-- When no task is on its way, every slot is free. -/
theorem Inv.sem_eq_init (hi : Inv plan limit s)
    (hended : ∀ t, s.pc t = .idle ∨ (s.pc t).Ended) (l : L) : s.sem l = .init (limit l) := by
  have hheld : ∀ t, l ∉ (s.pc t).held ∧ (s.pc t).waitsFor ≠ some l := by
    intro t
    rcases hended t with hpc | ⟨_, hpc⟩ <;> simp [hpc, Pc.held, Pc.waitsFor]
  have hempty : (s.sem l).waiters = [] := by
    rw [← List.map_eq_nil_iff (f := Waiter.task), List.eq_nil_iff_forall_not_mem]
    exact fun t ht => (hheld t).2 (((hi.slot l).waits t).mp ht)
  obtain ⟨holders, hmem, hcard⟩ := (hi.slot l).slots
  obtain rfl : holders = ∅ :=
    Finset.eq_empty_of_forall_notMem fun t ht => (hheld t).1 ((hmem t).mp ht)
  cases hm : s.sem l with
  | mk value waiters =>
    simp only [hm, Semaphore.left] at hempty hcard
    subst hempty
    simpa [Semaphore.init] using hcard

section Machine
variable [DecidableEq L] [DecidableEq T]

def State.move (s : State L T) (t : T) (pc : Pc L) : State L T :=
  { s with pc := Function.update s.pc t pc }

def State.put (s : State L T) (l : L) (m : Semaphore T) (t : T) (pc : Pc L) : State L T :=
  ⟨Function.update s.sem l m, Function.update s.pc t pc⟩

/-- One call of `acquire` or `release`, one resumption, one cancellation. Several such calls may
follow each other without a suspension, so the tasks have at least the runs that the code has. -/
def step (plan : T → List L) (s : State L T) : Action T → Option (State L T)
  | .start t =>
    match s.pc t with
    | .idle => some (s.move t (.running [] (plan t)))
    | _ => none
  | .acquire t =>
    match s.pc t with
    | .running held (l :: rest) =>
      if (s.sem l).locked then
        some (s.put l ((s.sem l).enqueue t) t (.waiting held l rest false))
      else
        some (s.put l (s.sem l).take t (.running (l :: held) rest))
    | _ => none
  | .resume t n =>
    match s.pc t with
    | .waiting held l rest cancelling =>
      let m := (s.sem l).remove t
      if ⟨t, .result⟩ ∈ (s.sem l).waiters ∧ 0 < n then
        if cancelling then some (s.put l (m.putBack.wakeUp n) t (.leaving held .cancelled))
        else some (s.put l (m.wakeUp n) t (.running (l :: held) rest))
      else if ⟨t, .cancelled⟩ ∈ (s.sem l).waiters then
        some (s.put l (m.wakeUp n) t (.leaving held .cancelled))
      else none
    | _ => none
  | .cancel t =>
    match s.pc t with
    | .waiting held l rest false =>
      some (s.put l ((s.sem l).cancelFuture t) t (.waiting held l rest true))
    | _ => none
  | .finish t outcome =>
    match s.pc t with
    | .running held [] => some (s.move t (.leaving held outcome))
    | _ => none
  | .release t =>
    match s.pc t with
    | .leaving (l :: held) outcome =>
      some (s.put l (s.sem l).release t (.leaving held outcome))
    | _ => none

inductive Took (plan : T → List L) (s : State L T) : Action T → State L T → Prop
  | starts {t : T} (hpc : s.pc t = .idle) :
    Took plan s (.start t) (s.move t (.running [] (plan t)))
  | waits {t : T} {held rest : List L} {l : L} (hpc : s.pc t = .running held (l :: rest))
    (hlocked : (s.sem l).locked = true) :
    Took plan s (.acquire t) (s.put l ((s.sem l).enqueue t) t (.waiting held l rest false))
  | takes {t : T} {held rest : List L} {l : L} (hpc : s.pc t = .running held (l :: rest))
    (hlocked : (s.sem l).locked = false) :
    Took plan s (.acquire t) (s.put l (s.sem l).take t (.running (l :: held) rest))
  | enters {t : T} {n : ℕ} {held rest : List L} {l : L}
    (hpc : s.pc t = .waiting held l rest false) (hfut : ⟨t, .result⟩ ∈ (s.sem l).waiters)
    (hn : 0 < n) :
    Took plan s (.resume t n)
      (s.put l (((s.sem l).remove t).wakeUp n) t (.running (l :: held) rest))
  | declines {t : T} {n : ℕ} {held rest : List L} {l : L}
    (hpc : s.pc t = .waiting held l rest true) (hfut : ⟨t, .result⟩ ∈ (s.sem l).waiters)
    (hn : 0 < n) :
    Took plan s (.resume t n)
      (s.put l (((s.sem l).remove t).putBack.wakeUp n) t (.leaving held .cancelled))
  | drops {t : T} {n : ℕ} {held rest : List L} {l : L} {cancelling : Bool}
    (hpc : s.pc t = .waiting held l rest cancelling)
    (hfut : ⟨t, .cancelled⟩ ∈ (s.sem l).waiters) :
    Took plan s (.resume t n)
      (s.put l (((s.sem l).remove t).wakeUp n) t (.leaving held .cancelled))
  | cancels {t : T} {held rest : List L} {l : L} (hpc : s.pc t = .waiting held l rest false) :
    Took plan s (.cancel t)
      (s.put l ((s.sem l).cancelFuture t) t (.waiting held l rest true))
  | finishes {t : T} {outcome : Outcome} {held : List L} (hpc : s.pc t = .running held []) :
    Took plan s (.finish t outcome) (s.move t (.leaving held outcome))
  | releases {t : T} {held : List L} {l : L} {outcome : Outcome}
    (hpc : s.pc t = .leaving (l :: held) outcome) :
    Took plan s (.release t) (s.put l (s.sem l).release t (.leaving held outcome))

variable {s' : State L T} {a : Action T} {u : T}

theorem took_of_step (h : step plan s a = some s') : Took plan s a s' := by
  cases a with
  | start t =>
    simp only [step] at h
    split at h
    · rename_i hpc
      cases h
      exact .starts hpc
    · cases h
  | acquire t =>
    simp only [step] at h
    split at h
    · rename_i held l rest hpc
      split_ifs at h with hlocked
      · cases h
        exact .waits hpc hlocked
      · cases h
        exact .takes hpc (by simpa using hlocked)
    · cases h
  | resume t n =>
    simp only [step] at h
    split at h
    · rename_i held l rest cancelling hpc
      split_ifs at h with hresult hcancelling hcancelled
      · cases h
        subst hcancelling
        exact .declines hpc hresult.1 hresult.2
      · cases h
        rw [Bool.not_eq_true] at hcancelling
        subst hcancelling
        exact .enters hpc hresult.1 hresult.2
      · cases h
        exact .drops hpc hcancelled
    · cases h
  | cancel t =>
    simp only [step] at h
    split at h
    · rename_i held l rest hpc
      cases h
      exact .cancels hpc
    · cases h
  | finish t outcome =>
    simp only [step] at h
    split at h
    · rename_i held hpc
      cases h
      exact .finishes hpc
    · cases h
  | release t =>
    simp only [step] at h
    split at h
    · rename_i l held outcome hpc
      cases h
      exact .releases hpc
    · cases h

lemma planned_step (hi : ∀ u, (s.pc u).Planned (plan u)) (h : step plan s a = some s') :
    ∀ u, (s'.pc u).Planned (plan u) := by
  have hmoved {t : T} {pc : Pc L} (hpc : pc.Planned (plan t)) :
      ∀ u, (Function.update s.pc t pc u).Planned (plan u) := by
    intro u
    by_cases hu : u = t
    · subst hu
      rwa [Function.update_self]
    · rw [Function.update_of_ne hu]
      exact hi u
  cases took_of_step h with
  | starts hpc => exact hmoved rfl
  | @waits t _ _ _ hpc _ =>
    have ht := hi t
    rw [hpc] at ht
    exact hmoved ht
  | @takes t _ _ _ hpc _ =>
    have ht := hi t
    rw [hpc] at ht
    exact hmoved (by simpa [Pc.Planned] using ht)
  | @enters t _ _ _ _ hpc _ _ =>
    have ht := hi t
    rw [hpc] at ht
    exact hmoved (by simpa [Pc.Planned] using ht)
  | @declines t _ _ _ _ hpc _ _ | @drops t _ _ _ _ _ hpc _ =>
    have ht := hi t
    rw [hpc] at ht
    exact hmoved ⟨_, ht⟩
  | @cancels t _ _ _ hpc =>
    have ht := hi t
    rw [hpc] at ht
    exact hmoved ht
  | @finishes t _ _ hpc =>
    have ht := hi t
    rw [hpc] at ht
    exact hmoved ⟨_, ht⟩
  | @releases t _ _ _ hpc =>
    have ht := hi t
    rw [hpc] at ht
    obtain ⟨rest, hrest⟩ := ht
    exact hmoved ⟨_ :: rest, by simpa using hrest⟩

/-- One task has moved at a semaphore: its place in the queue and its slot agree with where it
is. -/
structure Moved (l : L) (t : T) (m : Semaphore T) (pc : Pc L) (m' : Semaphore T) (pc' : Pc L) :
    Prop where
  nodup : m'.tasks.Nodup
  waits : ∀ u, u ∈ m'.tasks ↔ if u = t then pc'.waitsFor = some l else u ∈ m.tasks
  left : m'.left + (if l ∈ pc'.held then 1 else 0) = m.left + (if l ∈ pc.held then 1 else 0)
  awake : m'.Awake

lemma SlotInv.moved {limit : ℕ} {pc : Pc L} (h : SlotInv limit l s)
    (hpc : s'.pc = Function.update s.pc t pc)
    (hm : Moved l t (s.sem l) (s.pc t) (s'.sem l) pc) : SlotInv limit l s' where
  nodup := hm.nodup
  waits u := by
    rw [hm.waits, hpc]
    by_cases hu : u = t
    · subst hu
      simp
    · simp [hu, h.waits u]
  slots := by
    obtain ⟨holders, hmem, hcard⟩ := h.slots
    have hleft := hm.left
    have herase : (holders.erase t).card + (if l ∈ (s.pc t).held then 1 else 0) = holders.card := by
      split_ifs with hheld
      · exact Finset.card_erase_add_one ((hmem t).mpr hheld)
      · rw [Finset.erase_eq_of_notMem fun ht => hheld ((hmem t).mp ht), Nat.add_zero]
    have hins : (insert t (holders.erase t)).card = (holders.erase t).card + 1 :=
      Finset.card_insert_of_notMem (Finset.notMem_erase t holders)
    refine ⟨if l ∈ pc.held then insert t (holders.erase t) else holders.erase t, fun u => ?_, ?_⟩
    · rw [hpc]
      by_cases hu : u = t
      · subst hu
        split_ifs with hheld <;> simp [hheld]
      · split_ifs <;> simp [hu, hmem u]
    · split_ifs at hleft ⊢ <;> split_ifs at herase <;> omega
  awake := hm.awake

lemma SlotInv.frame {limit : ℕ} {pc : Pc L} (h : SlotInv limit l s)
    (hpc : s'.pc = Function.update s.pc t pc) (hsem : s'.sem l = s.sem l)
    (hwaits : pc.waitsFor = some l ↔ (s.pc t).waitsFor = some l)
    (hheld : l ∈ pc.held ↔ l ∈ (s.pc t).held) : SlotInv limit l s' := by
  refine h.moved hpc ⟨hsem ▸ h.nodup, fun u => ?_, by simp [hsem, hheld], hsem ▸ h.awake⟩
  rw [hsem]
  split_ifs with hu
  · rw [hu, h.waits t, hwaits]
  · rfl

lemma SlotInv.put {limit : ℕ} {k : L} {m : Semaphore T} {pc : Pc L} (h : SlotInv limit l s)
    (hother : l ≠ k → (pc.waitsFor = some l ↔ (s.pc t).waitsFor = some l) ∧
      (l ∈ pc.held ↔ l ∈ (s.pc t).held))
    (hself : l = k → Moved l t (s.sem l) (s.pc t) m pc) : SlotInv limit l (s.put k m t pc) := by
  by_cases hk : l = k
  · subst hk
    refine h.moved rfl ?_
    simpa [State.put] using hself rfl
  · exact h.frame rfl (by simp [State.put, hk]) (hother hk).1 (hother hk).2

lemma slotInv_step {limit : ℕ} (hplan : ∀ t, (plan t).Nodup)
    (hp : ∀ u, (s.pc u).Planned (plan u)) (hi : SlotInv limit l s)
    (h : step plan s a = some s') : SlotInv limit l s' := by
  cases took_of_step h with
  | starts hpc =>
    exact hi.frame rfl rfl (by simp [hpc, Pc.waitsFor]) (by simp [hpc, Pc.held])
  | @waits t held rest k hpc hlocked =>
    refine hi.put (fun hk => by simp [hpc, Pc.waitsFor, Pc.held, Ne.symm hk]) ?_
    rintro rfl
    have hfresh : t ∉ (s.sem l).tasks := by simp [hi.waits, hpc, Pc.waitsFor]
    refine ⟨?_, fun u => ?_, ?_, awake_enqueue hi.awake hlocked⟩
    · rw [tasks_enqueue, List.nodup_append]
      refine ⟨hi.nodup, List.nodup_singleton t, fun u hu v hv => ?_⟩
      rw [List.mem_singleton.mp hv]
      rintro rfl
      exact hfresh hu
    · rw [tasks_enqueue, List.mem_append, List.mem_singleton]
      split_ifs with hu <;> simp [hu, Pc.waitsFor]
    · rw [left_enqueue, hpc]
      rfl
  | @takes t held rest k hpc hlocked =>
    refine hi.put (fun hk => by simp [hpc, Pc.waitsFor, Pc.held, hk]) ?_
    rintro rfl
    have hheld := (hp t).notMem_held (hplan t) (.inl hpc)
    refine ⟨hi.nodup, fun u => ?_, ?_, awake_take hlocked⟩
    · split_ifs with hu
      · change u ∈ (s.sem l).tasks ↔ _
        rw [hu, hi.waits, hpc]
        simp [Pc.waitsFor]
      · rfl
    · rw [hpc]
      simp [Pc.held, hheld, left_take hlocked]
  | @enters t n held rest k hpc hfut hn =>
    refine hi.put (fun hk => by simp [hpc, Pc.waitsFor, Pc.held, hk, Ne.symm hk]) ?_
    rintro rfl
    have hheld := (hp t).notMem_held (hplan t) (.inr ⟨_, hpc⟩)
    have hleft := left_remove hi.nodup hfut
    refine ⟨?_, fun u => ?_, ?_, awake_wakeUp hn _⟩
    · rw [tasks_wakeUp]
      exact nodup_tasks_remove hi.nodup
    · rw [tasks_wakeUp, mem_tasks_remove]
      split_ifs with hu <;> simp [hu, Pc.waitsFor]
    · rw [left_wakeUp, hpc]
      simp only [Pc.held, List.mem_cons_self, if_true, hheld, if_false] at hleft ⊢
      exact hleft
  | @declines t n held rest k hpc hfut hn =>
    refine hi.put (fun hk => by simp [hpc, Pc.waitsFor, Pc.held, Ne.symm hk]) ?_
    rintro rfl
    have hleft := left_remove hi.nodup hfut
    refine ⟨?_, fun u => ?_, ?_, awake_wakeUp hn _⟩
    · rw [tasks_wakeUp, tasks_putBack]
      exact nodup_tasks_remove hi.nodup
    · rw [tasks_wakeUp, tasks_putBack, mem_tasks_remove]
      split_ifs with hu <;> simp [hu, Pc.waitsFor]
    · rw [left_wakeUp, left_putBack, hpc, ← hleft]
      rfl
  | @drops t n held rest k cancelling hpc hfut =>
    refine hi.put (fun hk => by simp [hpc, Pc.waitsFor, Pc.held, Ne.symm hk]) ?_
    rintro rfl
    have hleft := left_remove hi.nodup hfut
    refine ⟨?_, fun u => ?_, ?_, (awake_remove_cancelled hi.nodup hfut hi.awake).wakeUp n⟩
    · rw [tasks_wakeUp]
      exact nodup_tasks_remove hi.nodup
    · rw [tasks_wakeUp, mem_tasks_remove]
      split_ifs with hu <;> simp [hu, Pc.waitsFor]
    · rw [left_wakeUp, hpc, ← hleft]
      rfl
  | @cancels t held rest k hpc =>
    refine hi.put (fun hk => by simp [hpc, Pc.waitsFor, Pc.held]) ?_
    rintro rfl
    refine ⟨?_, fun u => ?_, ?_, awake_cancelFuture hi.awake⟩
    · rw [tasks_cancelFuture]
      exact hi.nodup
    · rw [tasks_cancelFuture]
      split_ifs with hu
      · rw [hu, hi.waits, hpc]
        rfl
      · rfl
    · rw [left_cancelFuture, hpc]
      rfl
  | finishes hpc =>
    exact hi.frame rfl rfl (by simp [hpc, Pc.waitsFor]) (by simp [hpc, Pc.held])
  | @releases t held k outcome hpc =>
    refine hi.put (fun hk => by simp [hpc, Pc.waitsFor, Pc.held, hk]) ?_
    rintro rfl
    have hheld : l ∉ held := Pc.Planned.notMem_of_leaving (hplan t) (hpc ▸ hp t)
    refine ⟨?_, fun u => ?_, ?_, awake_wakeUpNext _⟩
    · rw [tasks_release]
      exact hi.nodup
    · rw [tasks_release]
      split_ifs with hu
      · rw [hu, hi.waits, hpc]
        simp [Pc.waitsFor]
      · rfl
    · rw [left_release, hpc]
      simp [Pc.held, hheld]

theorem inv_of_reach (hplan : ∀ t, (plan t).Nodup)
    (h : Reach (step plan) (State.init limit) s) : Inv plan limit s :=
  h.invariant ⟨fun _ => trivial, slotInv_init limit⟩ fun _ _ _ hi _ hs =>
    ⟨planned_step hi.planned hs, fun l => slotInv_step hplan hi.planned (hi.slot l) hs⟩

def Action.task : Action T → T
  | .start t | .acquire t | .resume t _ | .cancel t | .finish t _ | .release t => t

def Action.inner : Action T → Bool
  | .start _ | .cancel _ => false
  | _ => true

lemma Inv.pending_of_terminal (hi : Inv plan limit s)
    (hterm : Terminal (restrict (step plan) Action.inner) s) (t : T) :
    s.pc t = .idle ∨ (s.pc t).Ended ∨ ∃ held l rest cancelling,
      s.pc t = .waiting held l rest cancelling ∧ ⟨t, .pending⟩ ∈ (s.sem l).waiters := by
  cases hpc : s.pc t with
  | idle => exact .inl rfl
  | running held rest =>
    cases rest with
    | nil =>
      have hfinish := hterm.step_eq_none (a := .finish t .returned) rfl
      simp [step, hpc] at hfinish
    | cons l rest =>
      have hacquire := hterm.step_eq_none (a := .acquire t) rfl
      simp only [step, hpc] at hacquire
      split_ifs at hacquire
  | leaving held outcome =>
    cases held with
    | nil => exact .inr (.inl ⟨outcome, rfl⟩)
    | cons l held =>
      have hrelease := hterm.step_eq_none (a := .release t) rfl
      simp [step, hpc] at hrelease
  | waiting held l rest cancelling =>
    have hresume := hterm.step_eq_none (a := .resume t 1) rfl
    simp only [step, hpc] at hresume
    obtain ⟨w, hw, rfl⟩ := List.mem_map.mp (((hi.slot l).waits t).mpr (by rw [hpc]; rfl))
    obtain ⟨u, fut⟩ := w
    refine .inr (.inr ⟨held, l, rest, cancelling, rfl, ?_⟩)
    cases fut with
    | pending => exact hw
    | result =>
      rw [if_pos ⟨hw, Nat.one_pos⟩] at hresume
      split_ifs at hresume
    | cancelled =>
      split_ifs at hresume

lemma Inv.exists_holder (hi : Inv plan limit s) (hlimit : 0 < limit l)
    (hterm : Terminal (restrict (step plan) Action.inner) s)
    (hpending : ⟨t, .pending⟩ ∈ (s.sem l).waiters) : ∃ u, l ∈ (s.pc u).held := by
  have hnone : ∀ w ∈ (s.sem l).waiters, w.fut ≠ .result := by
    intro w hw hresult
    have hwaits := ((hi.slot l).waits w.task).mp (List.mem_map_of_mem hw)
    rcases hi.pending_of_terminal hterm w.task with hpc | ⟨_, hpc⟩ | ⟨_, k, _, _, hpc, hmem⟩
    · simp [hpc, Pc.waitsFor] at hwaits
    · simp [hpc, Pc.waitsFor] at hwaits
    · obtain rfl : k = l := by simpa [hpc, Pc.waitsFor] using hwaits
      have hsame := List.inj_on_of_nodup_map (hi.slot k).nodup hw hmem rfl
      rw [hsame] at hresult
      cases hresult
  obtain ⟨holders, hmem, hcard⟩ := hi.full_of_pending hpending hnone
  obtain ⟨u, hu⟩ := Finset.card_pos.mp (hcard ▸ hlimit)
  exact ⟨u, (hmem u).mp hu⟩

/-- Slots are taken in one order: then a task can go on as long as one is on its way. Whoever waits,
waits for one that has asked for a later slot. -/
theorem Inv.ended_of_terminal (hi : Inv plan limit s) (rank : L → ℕ) {top : ℕ}
    (htop : ∀ l, rank l ≤ top) (hplan : ∀ t, (plan t).Pairwise fun l k => rank l < rank k)
    (hlimit : ∀ l, 0 < limit l) (hterm : Terminal (restrict (step plan) Action.inner) s) (t : T) :
    s.pc t = .idle ∨ (s.pc t).Ended := by
  have hnobody : ∀ n t l, top - rank l = n → (⟨t, .pending⟩ : Waiter T) ∉ (s.sem l).waiters := by
    intro n
    induction n using Nat.strong_induction_on with
    | _ n ih =>
      rintro t l rfl hpending
      obtain ⟨u, hu⟩ := hi.exists_holder (hlimit l) hterm hpending
      rcases hi.pending_of_terminal hterm u with hpc | ⟨_, hpc⟩ | ⟨held, k, rest, _, hpc, hmem⟩
      · simp [hpc, Pc.held] at hu
      · simp [hpc, Pc.held] at hu
      · have hplanned := hi.planned u
        simp only [hpc, Pc.Planned, Pc.held] at hplanned hu
        have hlater : rank l < rank k := by
          have hsorted := hplan u
          rw [← hplanned, List.pairwise_append] at hsorted
          exact hsorted.2.2 l (List.mem_reverse.mpr hu) k List.mem_cons_self
        have hle := htop k
        exact ih (top - rank k) (by omega) u k rfl hmem
  rcases hi.pending_of_terminal hterm t with hpc | hpc | ⟨_, l, _, _, _, hpending⟩
  · exact .inl hpc
  · exact .inr hpc
  · exact absurd hpending (hnobody _ t l rfl)

lemma terminal_of_ended (hended : ∀ t, s.pc t = .idle ∨ (s.pc t).Ended) :
    Terminal (restrict (step plan) Action.inner) s := by
  intro a
  unfold restrict
  split_ifs with hinner
  · rcases hended a.task with hpc | ⟨_, hpc⟩ <;> cases a <;>
      simp_all [step, Action.task, Action.inner]
  · rfl

def Pc.work (plan : List L) : Pc L → ℕ
  | .idle => 6 * plan.length + 2
  | .running held rest => 6 * rest.length + held.length + 1
  | .waiting held _ rest cancelling =>
    6 * rest.length + held.length + if cancelling then 3 else 4
  | .leaving held _ => held.length

lemma work_step (h : step plan s a = some s') : ∃ pc, s'.pc = Function.update s.pc a.task pc ∧
    pc.work (plan a.task) < (s.pc a.task).work (plan a.task) := by
  cases took_of_step h with
  | starts hpc => exact ⟨_, rfl, by simp [Action.task, hpc, Pc.work]⟩
  | waits hpc _ => exact ⟨_, rfl, by simp [Action.task, hpc, Pc.work]; omega⟩
  | takes hpc _ => exact ⟨_, rfl, by simp [Action.task, hpc, Pc.work]; omega⟩
  | enters hpc _ _ => exact ⟨_, rfl, by simp [Action.task, hpc, Pc.work]; omega⟩
  | declines hpc _ _ => exact ⟨_, rfl, by simp [Action.task, hpc, Pc.work]; omega⟩
  | @drops _ _ _ _ _ cancelling hpc _ =>
    exact ⟨_, rfl, by cases cancelling <;> simp [Action.task, hpc, Pc.work] <;> omega⟩
  | cancels hpc => exact ⟨_, rfl, by simp [Action.task, hpc, Pc.work]⟩
  | finishes hpc => exact ⟨_, rfl, by simp [Action.task, hpc, Pc.work]⟩
  | releases hpc => exact ⟨_, rfl, by simp [Action.task, hpc, Pc.work]⟩

def State.work (plan : T → List L) (s : State L T) (tasks : Finset T) : ℕ :=
  ∑ t ∈ tasks, (s.pc t).work (plan t)

/-- Any number of tasks takes only so many steps, with all cancellations. -/
theorem length_le_work {tasks : Finset T} {acts : List (Action T)}
    (hacts : ∀ a ∈ acts, a.task ∈ tasks) (h : exec (step plan) s acts = some s') :
    acts.length + s'.work plan tasks ≤ s.work plan tasks := by
  induction acts generalizing s with
  | nil =>
    simp only [exec_nil, Option.some.injEq] at h
    simp [h]
  | cons a acts ih =>
    obtain ⟨t, ht, hrest⟩ := exec_cons_eq_some.mp h
    obtain ⟨pc, hpc, hlt⟩ := work_step ht
    have hmem : a.task ∈ tasks := hacts a List.mem_cons_self
    have hless : t.work plan tasks < s.work plan tasks := by
      refine Finset.sum_lt_sum (fun u _ => ?_) ⟨a.task, hmem, ?_⟩
      · rw [hpc]
        by_cases hu : u = a.task
        · subst hu
          simpa using hlt.le
        · rw [Function.update_of_ne hu]
      · simpa [hpc] using hlt
    have hle := ih (fun b hb => hacts b (List.mem_cons_of_mem a hb)) hrest
    simp only [List.length_cons]
    omega

end Machine

end AsyncDataHub.Semaphores
