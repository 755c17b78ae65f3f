import AsyncDataHub.AsyncCache
import AsyncDataHub.CoalescerRegistry

/-! Calls of `get_or_set` in one process. Every await of a call, and of the task that builds a
value, is a point at which the others may go on; a request to the cache and the reply to it are two
steps. -/
namespace AsyncDataHub.GetOrSet
open StepSystem Cache PyJson Coalescer ExpiringStore

/-- What a factory returns: JSON, but not None. -/
structure Payload where
  value : Json
  valid : value.Valid
  notNull : value ≠ .null

abbrev Reply := Except PyError (Option Json)

inductive BuildPhase
  | checking
  | checked (reply : Reply)
  | building
  | storing (value : Payload)
  | stored (value : Payload)

structure Build where
  key : String
  ttlSeconds : Option ℕ
  phase : BuildPhase

inductive CallPhase
  | looking
  | looked (reply : Reply)
  | coalesced
  | ended (r : Except PyError Json)

structure Call where
  key : String
  ttlSeconds : Option ℕ
  phase : CallPhase

/-- `builds` has the tasks that are not done. -/
structure State where
  cache : AsyncCache
  now : ℕ
  coalescer : Coalescer.State String Json PyError
  calls : CallerId → Option Call
  builds : TaskId → Option Build

def State.init (cache : AsyncCache) (now : ℕ) : State :=
  ⟨cache, now, .init String Json PyError, fun _ => none, fun _ => none⟩

inductive Action
  | call (c : CallerId) (key : String) (ttlSeconds : Option ℕ)
  /-- The cache answers the first lookup. -/
  | look (c : CallerId)
  /-- The call goes on with that answer. -/
  | enter (c : CallerId)
  | check (t : TaskId)
  | decide (t : TaskId)
  /-- The factory returns or raises. -/
  | produce (t : TaskId) (r : Except PyError Payload)
  | store (t : TaskId)
  | finish (t : TaskId)
  | wake (c : CallerId)
  /-- Somebody else writes or deletes an entry. -/
  | other (key : String) (entry : Option (Entry Json))
  | tick

/-- `is not None`: a stored null reads as no value. -/
def found : Option Json → Option Json
  | some .null => none
  | cached => cached

def State.setCall (s : State) (c : CallerId) (call : Call) : State :=
  { s with calls := Function.update s.calls c (some call) }

def State.setBuild (s : State) (t : TaskId) (b : Build) : State :=
  { s with builds := Function.update s.builds t (some b) }

/-- `self._coalescer.run(key=key, factory=_build)`, up to its first await. -/
def State.run (s : State) (c : CallerId) (key : String) (ttlSeconds : Option ℕ) : State :=
  let (coalescer, t) := s.coalescer.join key
  { s with
    coalescer := coalescer.await c key t
    calls := Function.update s.calls c (some ⟨key, ttlSeconds, .coalesced⟩)
    builds := match s.coalescer.registry key with
      | none => Function.update s.builds t (some ⟨key, ttlSeconds, .checking⟩)
      | some _ => s.builds }

/-- `_build` returns or raises. -/
def State.complete (s : State) (t : TaskId) (r : Except PyError Json) : State :=
  { s with
    coalescer := { s.coalescer with
      tasks := Function.update s.coalescer.tasks t (some (.done (.result r))) }
    builds := Function.update s.builds t none }

def step (s : State) : Action → Option State
  | .call c key ttlSeconds =>
    match s.calls c with
    | some _ => none
    | none => some (s.setCall c ⟨key, ttlSeconds, .looking⟩)
  | .look c =>
    match s.calls c with
    | some ⟨key, ttlSeconds, .looking⟩ =>
      let (cache, reply) := s.cache.get s.now key
      some ({ s with cache }.setCall c ⟨key, ttlSeconds, .looked reply⟩)
    | _ => none
  | .enter c =>
    match s.calls c with
    | some ⟨key, ttlSeconds, .looked (.error e)⟩ =>
      some (s.setCall c ⟨key, ttlSeconds, .ended (.error e)⟩)
    | some ⟨key, ttlSeconds, .looked (.ok cachedValue)⟩ =>
      match found cachedValue with
      | some value => some (s.setCall c ⟨key, ttlSeconds, .ended (.ok value)⟩)
      | none => some (s.run c key ttlSeconds)
    | _ => none
  | .check t =>
    match s.builds t with
    | some ⟨key, ttlSeconds, .checking⟩ =>
      let (cache, reply) := s.cache.get s.now key
      some ({ s with cache }.setBuild t ⟨key, ttlSeconds, .checked reply⟩)
    | _ => none
  | .decide t =>
    match s.builds t with
    | some ⟨_, _, .checked (.error e)⟩ => some (s.complete t (.error e))
    | some ⟨key, ttlSeconds, .checked (.ok cachedInner)⟩ =>
      match found cachedInner with
      | some value => some (s.complete t (.ok value))
      | none => some (s.setBuild t ⟨key, ttlSeconds, .building⟩)
    | _ => none
  | .produce t r =>
    match s.builds t with
    | some ⟨key, ttlSeconds, .building⟩ =>
      match r with
      | .error e => some (s.complete t (.error e))
      | .ok value => some (s.setBuild t ⟨key, ttlSeconds, .storing value⟩)
    | _ => none
  | .store t =>
    match s.builds t with
    | some ⟨key, ttlSeconds, .storing value⟩ =>
      some ({ s with cache := s.cache.set s.now key value.value ttlSeconds }.setBuild t
        ⟨key, ttlSeconds, .stored value⟩)
    | _ => none
  | .finish t =>
    match s.builds t with
    | some ⟨_, _, .stored value⟩ => some (s.complete t (.ok value.value))
    | _ => none
  | .wake c => (Coalescer.step s.coalescer (.wake c)).map fun coalescer => { s with coalescer }
  | .other key entry =>
    some { s with
      cache := { s.cache with store := Function.update s.cache.store key entry } }
  | .tick => some { s with now := s.now + 1 }

inductive Took (s : State) : Action → State → Prop
  | calls {c : CallerId} {key : String} {ttl : Option ℕ} (fresh : s.calls c = none) :
      Took s (.call c key ttl) (s.setCall c ⟨key, ttl, .looking⟩)
  | looks {c : CallerId} {key : String} {ttl : Option ℕ}
      (looking : s.calls c = some ⟨key, ttl, .looking⟩) :
      Took s (.look c) ({ s with cache := (s.cache.get s.now key).1 }.setCall c
        ⟨key, ttl, .looked (s.cache.get s.now key).2⟩)
  | ends {c : CallerId} {key : String} {ttl : Option ℕ} {reply : Reply}
      {r : Except PyError Json} (looked : s.calls c = some ⟨key, ttl, .looked reply⟩) :
      Took s (.enter c) (s.setCall c ⟨key, ttl, .ended r⟩)
  | runs {c : CallerId} {key : String} {ttl : Option ℕ} {reply : Reply}
      (looked : s.calls c = some ⟨key, ttl, .looked reply⟩) :
      Took s (.enter c) (s.run c key ttl)
  | checks {t : TaskId} {key : String} {ttl : Option ℕ}
      (checking : s.builds t = some ⟨key, ttl, .checking⟩) :
      Took s (.check t) ({ s with cache := (s.cache.get s.now key).1 }.setBuild t
        ⟨key, ttl, .checked (s.cache.get s.now key).2⟩)
  | starts {t : TaskId} {key : String} {ttl : Option ℕ} {cachedInner : Option Json}
      (checked : s.builds t = some ⟨key, ttl, .checked (.ok cachedInner)⟩)
      (missed : found cachedInner = none) :
      Took s (.decide t) (s.setBuild t ⟨key, ttl, .building⟩)
  | produces {t : TaskId} {key : String} {ttl : Option ℕ} {value : Payload}
      (building : s.builds t = some ⟨key, ttl, .building⟩) :
      Took s (.produce t (.ok value)) (s.setBuild t ⟨key, ttl, .storing value⟩)
  | stores {t : TaskId} {key : String} {ttl : Option ℕ} {value : Payload}
      (storing : s.builds t = some ⟨key, ttl, .storing value⟩) :
      Took s (.store t) ({ s with cache := s.cache.set s.now key value.value ttl }.setBuild t
        ⟨key, ttl, .stored value⟩)
  | completes {a : Action} {t : TaskId} {b : Build} {r : Except PyError Json}
      (known : s.builds t = some b) : Took s a (s.complete t r)
  | wakes {c : CallerId} {coalescer : Coalescer.State String Json PyError}
      (woken : Coalescer.step s.coalescer (.wake c) = some coalescer) :
      Took s (.wake c) { s with coalescer }
  | others {key : String} {entry : Option (Entry Json)} :
      Took s (.other key entry)
        { s with cache := { s.cache with store := Function.update s.cache.store key entry } }
  | ticks : Took s .tick { s with now := s.now + 1 }

theorem took_of_step {s u : State} {a : Action} (h : step s a = some u) : Took s a u := by
  cases a <;> simp only [step] at h
  case call c key ttl =>
    split at h
    · cases h
    · rename_i hc
      cases h
      exact .calls hc
  case look c =>
    split at h
    · rename_i hc
      cases h
      exact .looks hc
    · cases h
  case enter c =>
    split at h
    · rename_i hc
      cases h
      exact .ends hc
    · rename_i hc
      split at h
      · cases h
        exact .ends hc
      · cases h
        exact .runs hc
    · cases h
  case check t =>
    split at h
    · rename_i ht
      cases h
      exact .checks ht
    · cases h
  case decide t =>
    split at h
    · rename_i ht
      cases h
      exact .completes ht
    · rename_i ht
      split at h
      · cases h
        exact .completes ht
      · rename_i hmiss
        cases h
        exact .starts ht hmiss
    · cases h
  case produce t r =>
    split at h
    · rename_i ht
      split at h
      · cases h
        exact .completes ht
      · cases h
        exact .produces ht
    · cases h
  case store t =>
    split at h
    · rename_i ht
      cases h
      exact .stores ht
    · cases h
  case finish t =>
    split at h
    · rename_i ht
      cases h
      exact .completes ht
    · cases h
  case wake c =>
    obtain ⟨coalescer, hco, rfl⟩ := Option.map_eq_some_iff.mp h
    exact .wakes hco
  case other key entry =>
    cases h
    exact .others
  case tick =>
    cases h
    exact .ticks

end AsyncDataHub.GetOrSet
