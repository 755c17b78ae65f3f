import AsyncDataHub.SlotOrder

/-! The outbound calls of the process under its two limiters: how many are under way, who is served
first, and that all of them end, whatever is cancelled and whatever fails. -/
namespace AsyncDataHub.ConcurrencyLimiter
open StepSystem Semaphores

/-- The limiters of the application state. -/
inductive Limiter
  | webhookLimiter
  | httpLimiter
  deriving DecidableEq

structure Settings where
  httpConcurrencyLimit : ℕ := 10
  webhookConcurrencyLimit : ℕ := 5

def Settings.limit (settings : Settings) : Limiter → ℕ
  | .webhookLimiter => settings.webhookConcurrencyLimit
  | .httpLimiter => settings.httpConcurrencyLimit

/-- The limiters whose slots a piece of code takes, the outermost first. -/
abbrev Nesting := List Limiter

def slot (limiter : Limiter) (body : Nesting) : Nesting := limiter :: body

def run (limiter : Limiter) (task : Nesting) : Nesting := slot limiter task

def preserveCancellation (awaitable : Nesting) : Nesting := awaitable

/-- What `get_json` and `post_json` wrap: the HTTP client has no limiter of its own. -/
def request : Nesting := []

def getJson : Nesting := preserveCancellation (run .httpLimiter request)

def postJson : Nesting := preserveCancellation (run .httpLimiter request)

inductive OutboundCall
  | fetchSource
  | deliverAttempt
  deriving DecidableEq

def OutboundCall.nesting : OutboundCall → Nesting
  | .fetchSource => getJson
  | .deliverAttempt => slot .webhookLimiter postJson

abbrev CallId := ℕ

/-- The slots of every call, given what kind of call it is. -/
def plan (kind : CallId → OutboundCall) (c : CallId) : Nesting := (kind c).nesting

def Limiter.rank : Limiter → ℕ
  | .webhookLimiter => 0
  | .httpLimiter => 1

variable {settings : Settings} {kind : CallId → OutboundCall} {s t : State Limiter CallId}
  {c d : CallId} {l : Limiter}

lemma nesting_ascending (call : OutboundCall) :
    call.nesting.Pairwise fun l k => l.rank < k.rank := by
  cases call <;> decide

lemma plan_nodup (c : CallId) : (plan kind c).Nodup :=
  (nesting_ascending (kind c)).imp fun hlt heq => by simp [heq] at hlt

lemma held_of_planned {pc : Pc Limiter} {call : OutboundCall} (h : pc.Planned call.nesting) :
    (pc.Inside → ∀ l ∈ call.nesting, l ∈ pc.held) ∧
      (pc.waitsFor = some .httpLimiter → ∀ l ∈ call.nesting, l = .httpLimiter ∨ l ∈ pc.held) := by
  constructor
  · rintro ⟨held, rfl⟩ l hl
    rw [Pc.Planned, List.append_nil] at h
    rwa [Pc.held, ← List.mem_reverse, h]
  · intro hwaits l hl
    cases pc with
    | waiting held k rest cancelling =>
      obtain rfl : k = .httpLimiter := by simpa [Pc.waitsFor] using hwaits
      have hsorted := nesting_ascending call
      rw [← h, List.pairwise_append, List.pairwise_cons] at hsorted
      rw [← h, List.mem_append, List.mem_reverse, List.mem_cons] at hl
      rcases hl with hl | rfl | hl
      · exact .inr hl
      · exact .inl rfl
      · have hlt := hsorted.2.1.1 l hl
        cases l <;> simp [Limiter.rank] at hlt
    | _ => simp [Pc.waitsFor] at hwaits

/-- There are never more requests under way than the limits say, and never more webhook attempts
than theirs between the other calls at the HTTP limiter. When all calls have ended, however they
did, every slot is free again. -/
theorem outbound_bounded (settings : Settings) (kind : CallId → OutboundCall)
    (h : Reach (step (plan kind)) (State.init settings.limit) s) :
    (∀ calls : Finset CallId, (∀ c ∈ calls, (s.pc c).Inside) →
        calls.card ≤ settings.httpConcurrencyLimit) ∧
      (∀ calls : Finset CallId, (∀ c ∈ calls, kind c = .deliverAttempt ∧
          ((s.pc c).Inside ∨ (s.pc c).waitsFor = some .httpLimiter)) →
        calls.card ≤ settings.webhookConcurrencyLimit) ∧
      ((∀ c, s.pc c = .idle ∨ (s.pc c).Ended) → ∀ l, s.sem l = .init (settings.limit l)) := by
  have hinv := inv_of_reach plan_nodup h
  refine ⟨fun calls hin => hinv.card_le (l := .httpLimiter) fun c hc => ?_,
    fun calls hin => hinv.card_le (l := .webhookLimiter) fun c hc => ?_, hinv.sem_eq_init⟩
  · refine (held_of_planned (hinv.planned c)).1 (hin c hc) _ ?_
    cases kind c <;> decide
  · obtain ⟨hkind, hwhere⟩ := hin c hc
    have hmem : Limiter.webhookLimiter ∈ (kind c).nesting := by
      rw [hkind]
      decide
    rcases hwhere with hinside | hwaits
    · exact (held_of_planned (hinv.planned c)).1 hinside _ hmem
    · have hheld := (held_of_planned (hinv.planned c)).2 hwaits _ hmem
      simpa using hheld

/-- One slot each: the delivery `0` has both, the delivery `1` waits for the first of them and the
fetch `2` for the other. -/
def oneSlot : Settings := ⟨1, 1⟩

def twoDeliveries (c : CallId) : OutboundCall := if c < 2 then .deliverAttempt else .fetchSource

def crowded : List (Action CallId) :=
  [.start 0, .acquire 0, .acquire 0, .start 1, .acquire 1, .start 2, .acquire 2]

theorem outbound_bounded_crowded :
    ∃ s, exec (step (plan twoDeliveries)) (State.init oneSlot.limit) crowded = some s ∧
      (s.pc 0).Inside ∧
        ∀ calls : Finset CallId, (∀ c ∈ calls, (s.pc c).Inside) → calls.card ≤ 1 := by
  obtain ⟨s, hs, hinside⟩ : ∃ s,
      exec (step (plan twoDeliveries)) (State.init oneSlot.limit) crowded = some s ∧
        s.pc 0 = .running [.httpLimiter, .webhookLimiter] [] := ⟨_, rfl, rfl⟩
  exact ⟨s, hs, ⟨_, hinside⟩, (outbound_bounded oneSlot twoDeliveries (reach_of_exec _ hs)).1⟩

/-- First come, first served at both limiters: a call that has to wait is not overtaken by one that
asks for a slot later. It waits only while all slots are taken, or while a call that has been woken
has not yet run. -/
theorem first_come_first_served (settings : Settings) (kind : CallId → OutboundCall)
    (hs : Reach (step (plan kind)) (State.init settings.limit) s)
    (hc : (s.pc c).waitsFor = some l) (hd : (s.pc d).waitsFor ≠ some l) (hheld : l ∉ (s.pc d).held)
    (h : Reach (step (plan kind)) s t) (hpending : ⟨c, .pending⟩ ∈ (t.sem l).waiters) :
    l ∉ (t.pc d).held ∧ ⟨d, .result⟩ ∉ (t.sem l).waiters ∧
      ((∀ w ∈ (t.sem l).waiters, w.fut ≠ .result) → ∃ calls : Finset CallId,
        (∀ e, e ∈ calls ↔ l ∈ (t.pc e).held) ∧ calls.card = settings.limit l) := by
  have hinv := inv_of_reach plan_nodup hs
  obtain ⟨hnot, hresult⟩ := hinv.not_overtaken (plan_nodup c) hc hd hheld h hpending
  exact ⟨hnot, hresult, (inv_of_reach plan_nodup (hs.trans h)).full_of_pending hpending⟩

/-- The fetch `3` comes after the fetch `2`. -/
theorem first_come_first_served_crowded :
    ∃ s t, exec (step (plan twoDeliveries)) (State.init oneSlot.limit) crowded = some s ∧
      exec (step (plan twoDeliveries)) s [.start 3, .acquire 3] = some t ∧
      .httpLimiter ∉ (t.pc 3).held := by
  obtain ⟨s, t, hs, ht, hc, hd, hheld, hpending⟩ : ∃ s t,
      exec (step (plan twoDeliveries)) (State.init oneSlot.limit) crowded = some s ∧
        exec (step (plan twoDeliveries)) s [.start 3, .acquire 3] = some t ∧
        (s.pc 2).waitsFor = some .httpLimiter ∧ (s.pc 3).waitsFor = none ∧ (s.pc 3).held = [] ∧
        (t.sem .httpLimiter).waiters = [⟨2, .pending⟩, ⟨3, .pending⟩] :=
    ⟨_, _, rfl, rfl, rfl, rfl, rfl, rfl⟩
  refine ⟨s, t, hs, ht, (first_come_first_served oneSlot twoDeliveries (reach_of_exec _ hs) hc ?_ ?_
    (reach_of_exec _ ht) (by simp [hpending])).1⟩
  · simp [hd]
  · simp [hheld]

/-- No slot is lost and no calls wait for each other: any number of calls takes a bounded number of
steps, and nothing stops them before all of them have ended. -/
theorem outbound_ends (settings : Settings) (kind : CallId → OutboundCall)
    (hhttp : 0 < settings.httpConcurrencyLimit) (hwebhook : 0 < settings.webhookConcurrencyLimit)
    {calls : Finset CallId} {acts : List (Action CallId)} (hacts : ∀ a ∈ acts, a.task ∈ calls)
    (h : exec (step (plan kind)) (State.init settings.limit) acts = some s) :
    acts.length ≤ 14 * calls.card ∧
      (Terminal (restrict (step (plan kind)) Action.inner) s ↔
        ∀ c, s.pc c = .idle ∨ (s.pc c).Ended) := by
  have hinv := inv_of_reach plan_nodup (reach_of_exec acts h)
  constructor
  · have hlength := length_le_work hacts h
    have hwork : (State.init settings.limit : State Limiter CallId).work (plan kind) calls ≤
        calls.card • 14 := by
      refine Finset.sum_le_card_nsmul _ _ _ fun c _ => ?_
      simp only [State.init, Pc.work, plan]
      cases kind c <;> decide
    rw [smul_eq_mul] at hwork
    omega
  · have hrank : ∀ l, Limiter.rank l ≤ 1 := by
      intro l
      cases l <;> decide
    refine ⟨fun hterm => hinv.ended_of_terminal Limiter.rank hrank
      (fun c => nesting_ascending (kind c)) ?_ hterm, terminal_of_ended⟩
    · intro l
      cases l
      · exact hwebhook
      · exact hhttp

/-- The request of `0` fails; `2` is cancelled when it has been given the slot that `1` waits
for. -/
def dispersed : List (Action CallId) :=
  crowded ++ [.finish 0 .raised, .release 0, .release 0, .resume 1 1, .acquire 1, .cancel 2,
    .resume 2 1, .resume 1 1, .finish 1 .returned, .release 1, .release 1]

theorem outbound_ends_dispersed :
    ∃ s, exec (step (plan twoDeliveries)) (State.init oneSlot.limit) dispersed = some s ∧
      dispersed.length ≤ 14 * ({0, 1, 2} : Finset CallId).card ∧
      s.pc 1 = .leaving [] .returned ∧ s.pc 2 = .leaving [] .cancelled := by
  obtain ⟨s, hs, hone, htwo⟩ : ∃ s,
      exec (step (plan twoDeliveries)) (State.init oneSlot.limit) dispersed = some s ∧
        s.pc 1 = .leaving [] .returned ∧ s.pc 2 = .leaving [] .cancelled := ⟨_, rfl, rfl, rfl⟩
  have hacts : ∀ a ∈ dispersed, a.task ∈ ({0, 1, 2} : Finset CallId) := by
    simp [dispersed, crowded, Action.task]
  exact ⟨s, hs, (outbound_ends oneSlot twoDeliveries (by decide) (by decide) hacts hs).1, hone,
    htwo⟩

end AsyncDataHub.ConcurrencyLimiter
