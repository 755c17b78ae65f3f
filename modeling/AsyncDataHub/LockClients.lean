import AsyncDataHub.DistributedLock
import AsyncDataHub.StepSystem

/-! Clients that compete for one lock name. An acquire is a loop of polls; between two steps of a
client anything may happen, and the time that passes is not bounded. -/
namespace AsyncDataHub.Lock
open StepSystem ExpiringStore Cache PyJson

abbrev ClientId := ℕ

/-- The lock objects that were made for one name, each with a token of its own. -/
structure Clients where
  lockName : String
  lockToken : ClientId → String
  ttlSeconds : ClientId → ℕ
  distinct : Function.Injective lockToken

def Clients.lock (f : Clients) (i : ClientId) : DistributedLock :=
  { lockName := f.lockName, lockToken := f.lockToken i, ttlSeconds := f.ttlSeconds i }

instance : Inhabited Clients where
  default :=
    { lockName := "lock"
      lockToken := fun i => String.ofList (List.replicate i '0')
      ttlSeconds := fun _ => 50
      distinct := fun i j h => by simpa using congrArg (fun t => t.toList.length) h }

/-- Where a client is in its last call of `acquire`. -/
inductive Phase
  | idle
  | polling (deadline : ℕ)
  | refused (deadline : ℕ)
  | returned (acquired : Bool)
  deriving DecidableEq

structure State where
  cache : AsyncCache
  now : ℕ
  phases : ClientId → Phase

inductive Action
  | acquire (i : ClientId) (timeout : ℕ)
  | poll (i : ClientId)
  /-- After a poll that failed: give up at the deadline, else sleep and poll again. -/
  | retry (i : ClientId)
  | release (i : ClientId)
  /-- Whatever happens to an entry that is not the lock's. -/
  | other (key : String) (entry : Option (Entry Json))
  | tick

def State.setPhase (s : State) (i : ClientId) (p : Phase) : State :=
  { s with phases := Function.update s.phases i p }

def Clients.lease (f : Clients) (s : State) (i : ClientId) : ℕ :=
  s.cache.ttl (some (f.ttlSeconds i)) * 1000

def Clients.step (f : Clients) (s : State) : Action → Option State
  | .acquire i timeout =>
    match s.phases i with
    | .idle | .returned _ => some (s.setPhase i (.polling (s.now + timeout)))
    | _ => none
  | .poll i =>
    match s.phases i with
    | .polling deadline =>
      match (f.lock i).poll s.cache s.now with
      | (cache, true) => some ({ s with cache }.setPhase i (.returned true))
      | (cache, false) => some ({ s with cache }.setPhase i (.refused deadline))
    | _ => none
  | .retry i =>
    match s.phases i with
    | .refused deadline =>
      if deadline ≤ s.now then some (s.setPhase i (.returned false))
      else some (s.setPhase i (.polling deadline))
    | _ => none
  | .release i => some { s with cache := ((f.lock i).release s.cache s.now).1 }
  | .other key entry =>
    if key = f.lockName then none
    else some { s with
      cache := { s.cache with store := Function.update s.cache.store key entry } }
  | .tick => some { s with now := s.now + 1 }

variable {f : Clients} {s u w x : State} {a : Action} {i j : ClientId}

lemma poll_cases (h : f.step s (.poll i) = some u) :
    (u.phases i = .returned true ∧ live s.cache.store s.now f.lockName = none ∧
      u.cache = s.cache.write s.now f.lockName (.str (f.lockToken i))
        (s.cache.ttl (some (f.ttlSeconds i)))) ∨
    ((∃ deadline, u.phases i = .refused deadline) ∧ u.cache = s.cache ∧
      (s.cache.backend = .disabled ∨ ∃ e, live s.cache.store s.now f.lockName = some e)) := by
  simp only [Clients.step] at h
  split at h
  · rename_i deadline _
    rcases setnx_cases s.cache s.now f.lockName (f.lockToken i) (some (f.ttlSeconds i)) with
      ⟨he, hwhy⟩ | ⟨he, _, hfree⟩
    · have hp : (f.lock i).poll s.cache s.now = (s.cache, false) := he
      rw [hp] at h
      cases h
      exact .inr ⟨⟨deadline, Function.update_self ..⟩, rfl, hwhy⟩
    · have hp : (f.lock i).poll s.cache s.now = (s.cache.write s.now f.lockName
        (.str (f.lockToken i)) (s.cache.ttl (some (f.ttlSeconds i))), true) := he
      rw [hp] at h
      cases h
      exact .inl ⟨Function.update_self .., hfree, rfl⟩
  · cases h

lemma release_cases (h : f.step s (.release i) = some u) :
    u.cache = s.cache ∨ ((∃ e, s.cache.store f.lockName = some e ∧ e.value = .str (f.lockToken i)) ∧
      u.cache = s.cache.delete f.lockName) := by
  simp only [Clients.step, Option.some.injEq] at h
  rw [← h]
  exact evalRelease_cases s.cache s.now f.lockName (f.lockToken i)

lemma entry_step {expiresAt : ℕ} (hentry : s.cache.store f.lockName =
      some ⟨.str (f.lockToken i), expiresAt⟩) (hnow : s.now ≤ expiresAt) (ha : a ≠ .release i)
    (h : f.step s a = some u) :
    u.cache.store f.lockName = some ⟨.str (f.lockToken i), expiresAt⟩ := by
  have hlive : live s.cache.store s.now f.lockName = some ⟨.str (f.lockToken i), expiresAt⟩ :=
    live_eq_some.mpr ⟨hentry, hnow⟩
  cases a with
  | acquire j timeout =>
    simp only [Clients.step] at h
    split at h
    · cases h
      exact hentry
    · cases h
      exact hentry
    · cases h
  | poll j =>
    rcases poll_cases h with ⟨_, hfree, _⟩ | ⟨_, hcache, _⟩
    · rw [hfree] at hlive
      cases hlive
    · rwa [hcache]
  | retry j =>
    simp only [Clients.step] at h
    split at h
    · split_ifs at h <;> cases h <;> exact hentry
    · cases h
  | release j =>
    rcases release_cases h with hcache | ⟨⟨e, he, hv⟩, _⟩
    · rwa [hcache]
    · rw [hentry, Option.some.injEq] at he
      subst he
      have hji : i = j := f.distinct (Json.str.inj hv)
      exact absurd (by rw [hji]) ha
  | other key entry =>
    simp only [Clients.step] at h
    split_ifs at h with hkey
    cases h
    exact (Function.update_of_ne (fun hk => hkey hk.symm) _ _).trans hentry
  | tick =>
    cases h
    exact hentry

lemma now_le_step (h : f.step s a = some u) : s.now ≤ u.now := by
  cases a <;> simp only [Clients.step] at h
  case tick =>
    cases h
    exact Nat.le_succ _
  case other key entry =>
    split_ifs at h
    cases h
    exact le_rfl
  all_goals
    repeat' split at h
    all_goals cases h
    all_goals exact le_rfl

lemma entry_reach {expiresAt : ℕ} (hentry : u.cache.store f.lockName =
      some ⟨.str (f.lockToken i), expiresAt⟩)
    (h : ReachVia f.step (fun _ a => a ≠ .release i) u w) (hnow : w.now ≤ expiresAt) :
    w.cache.store f.lockName = some ⟨.str (f.lockToken i), expiresAt⟩ := by
  refine h.invariant (I := fun v => v.now ≤ expiresAt →
    v.cache.store f.lockName = some ⟨.str (f.lockToken i), expiresAt⟩) (fun _ => hentry) ?_ hnow
  intro v a x hv ha hx hle
  have hle' : v.now ≤ expiresAt := (now_le_step hx).trans hle
  exact entry_step (hv hle') hle' ha hx

def Action.OfAcquire (i : ClientId) : Action → Prop
  | .acquire j _ | .poll j | .retry j => j = i
  | _ => False

def Action.Begins (i : ClientId) : Action → Prop
  | .acquire j _ => j = i
  | _ => False

lemma succeeded_step (h : f.step s a = some u) (hu : u.phases j = .returned true)
    (hs : s.phases j ≠ .returned true) :
    a = .poll j ∧ live s.cache.store s.now f.lockName = none := by
  have hmoved {k : ClientId} {p : Phase} (he : u.phases = Function.update s.phases k p) :
      j = k ∧ p = .returned true := by
    by_cases hk : j = k
    · subst hk
      rw [he, Function.update_self] at hu
      exact ⟨rfl, hu⟩
    · rw [he, Function.update_of_ne hk] at hu
      exact absurd hu hs
  cases a with
  | acquire k timeout =>
    simp only [Clients.step] at h
    split at h
    · cases h
      cases (hmoved rfl).2
    · cases h
      cases (hmoved rfl).2
    · cases h
  | poll k =>
    have hcases := poll_cases h
    simp only [Clients.step] at h
    split at h
    · split at h
      · cases h
        obtain ⟨rfl, _⟩ := hmoved rfl
        rcases hcases with ⟨_, hfree, _⟩ | ⟨⟨deadline, hd⟩, _⟩
        · exact ⟨rfl, hfree⟩
        · rw [hu] at hd
          cases hd
      · cases h
        cases (hmoved rfl).2
    · cases h
  | retry k =>
    simp only [Clients.step] at h
    split at h
    · split_ifs at h
      · cases h
        cases (hmoved rfl).2
      · cases h
        cases (hmoved rfl).2
    · cases h
  | release k =>
    cases h
    exact absurd hu hs
  | other key entry =>
    simp only [Clients.step] at h
    split_ifs at h
    cases h
    exact absurd hu hs
  | tick =>
    cases h
    exact absurd hu hs

lemma acquire_step (ha : a.OfAcquire i) (h : f.step s a = some u) :
    u.cache = s.cache ∨ u.phases i = .returned true := by
  cases a with
  | acquire k timeout =>
    simp only [Clients.step] at h
    split at h
    · cases h
      exact .inl rfl
    · cases h
      exact .inl rfl
    · cases h
  | poll k =>
    obtain rfl : k = i := ha
    rcases poll_cases h with ⟨hp, _⟩ | ⟨_, hcache, _⟩
    · exact .inr hp
    · exact .inl hcache
  | retry k =>
    simp only [Clients.step] at h
    split at h
    · split_ifs at h <;> cases h <;> exact .inl rfl
    · cases h
  | release _ | other _ _ | tick => exact absurd ha id

lemma returned_step {b : Bool} (hs : s.phases i = .returned b) (ha : ¬ a.Begins i)
    (h : f.step s a = some u) : u.phases i = .returned b := by
  cases a with
  | acquire k timeout =>
    have hk : i ≠ k := fun he => ha he.symm
    simp only [Clients.step] at h
    split at h
    · cases h
      exact (Function.update_of_ne hk _ _).trans hs
    · cases h
      exact (Function.update_of_ne hk _ _).trans hs
    · cases h
  | poll k =>
    simp only [Clients.step] at h
    split at h
    · rename_i hp
      have hk : i ≠ k := by
        rintro rfl
        rw [hs] at hp
        cases hp
      split at h <;> cases h <;> exact (Function.update_of_ne hk _ _).trans hs
    · cases h
  | retry k =>
    simp only [Clients.step] at h
    split at h
    · rename_i hp
      have hk : i ≠ k := by
        rintro rfl
        rw [hs] at hp
        cases hp
      split_ifs at h <;> cases h <;> exact (Function.update_of_ne hk _ _).trans hs
    · cases h
  | release k =>
    cases h
    exact hs
  | other key entry =>
    simp only [Clients.step] at h
    split_ifs at h
    cases h
    exact hs
  | tick =>
    cases h
    exact hs

/-- A client that has taken the lock is alone with it for its lease, or until it releases; a
release frees the lock only from an entry of its own client; and an acquire that changes the entry
returns True. -/
theorem lock_exclusive (f : Clients) (s : State) :
    (∀ i u, f.step s (.poll i) = some u → u.phases i = .returned true →
      ∀ w, ReachVia f.step (fun _ a => a ≠ .release i) u w → w.now < s.now + f.lease s i →
        ∀ j a x, j ≠ i → f.step w a = some x → x.phases j = .returned true →
          w.phases j = .returned true) ∧
    (∀ i u, f.step s (.release i) = some u →
      (u.cache = s.cache ∨
        (∃ e, s.cache.store f.lockName = some e ∧ e.value = .str (f.lockToken i)) ∧
          u.cache = s.cache.delete f.lockName) ∧
      ∀ j e, j ≠ i → s.cache.store f.lockName = some e → e.value = .str (f.lockToken j) →
        u.cache.store f.lockName = some e) ∧
    ∀ i a u, a.OfAcquire i → f.step s a = some u → u.cache ≠ s.cache →
      ∀ w, ReachVia f.step (fun _ a => ¬ a.Begins i) u w → w.phases i = .returned true := by
  refine ⟨fun i u hu htaken w hw hnow j a x hne hx hj => ?_, fun i u hu => ?_,
    fun i a u ha hu hcache w hw => ?_⟩
  · by_contra hj'
    obtain ⟨_, hfree⟩ := succeeded_step hx hj hj'
    rcases poll_cases hu with ⟨_, _, hcache⟩ | ⟨⟨deadline, hd⟩, _⟩
    · have hentry : u.cache.store f.lockName =
          some ⟨.str (f.lockToken i), s.now + f.lease s i⟩ := by
        rw [hcache]
        exact put_self ..
      have hw' := entry_reach hentry hw hnow.le
      rw [live_eq_some.mpr ⟨hw', hnow.le⟩] at hfree
      cases hfree
    · rw [htaken] at hd
      cases hd
  · refine ⟨release_cases hu, fun j e hne he hv => ?_⟩
    rcases release_cases hu with hcache | ⟨⟨e', he', hv'⟩, _⟩
    · rwa [hcache]
    · rw [he, Option.some.injEq] at he'
      subst he'
      rw [hv] at hv'
      exact absurd (f.distinct (Json.str.inj hv')) hne
  · have hreturned := (acquire_step ha hu).resolve_left hcache
    exact hw.invariant (I := fun v => v.phases i = .returned true) hreturned
      fun _ _ _ hv hb hx => returned_step hv hb hx

end AsyncDataHub.Lock
