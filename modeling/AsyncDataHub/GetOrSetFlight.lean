import AsyncDataHub.GetOrSet

/-! One factory run at a time for each key, and none while a stored value is live. -/
namespace AsyncDataHub.GetOrSet
open StepSystem Cache PyJson Coalescer ExpiringStore

variable {s u w : State} {a : Action} {c : CallerId} {t t' : TaskId} {key : String} {b b' : Build}
  {e : Entry Json}

/-- The coalescer's registry is in order, a call gets there once, and a build is a task of its key
that is not done. -/
structure Inv (s : State) : Prop where
  tidy : Tidy s.coalescer
  coalesced : ∀ c, s.coalescer.callers c ≠ none →
    ∃ key ttl, s.calls c = some ⟨key, ttl, .coalesced⟩
  running : ∀ t b, s.builds t = some b →
    s.coalescer.tasks t = some .running ∧ ∃ c, s.coalescer.Joined c b.key t

lemma inv_init (cache : AsyncCache) (now : ℕ) : Inv (State.init cache now) := by
  refine ⟨tidy_init, ?_, ?_⟩ <;> simp [State.init, Coalescer.State.init]

lemma Inv.unfinished (hs : Inv s) (hb : s.builds t = some b) :
    s.coalescer.Unfinished b.key t := by
  obtain ⟨hrun, hjoined⟩ := hs.running t b hb
  exact ⟨hjoined, by simp [hrun]⟩

lemma Inv.unique (hs : Inv s) (hb : s.builds t = some b) (hb' : s.builds t' = some b')
    (hkey : b'.key = b.key) : t' = t := by
  have hreg := hs.tidy.registered b.key t (hs.unfinished hb)
  have hreg' := hs.tidy.registered b'.key t' (hs.unfinished hb')
  rw [hkey, hreg, Option.some.injEq] at hreg'
  exact hreg'.symm

lemma inv_setCall {call : Call} (hs : Inv s) (hc : s.coalescer.callers c = none) :
    Inv (s.setCall c call) := by
  refine ⟨hs.tidy, fun d hd => ?_, hs.running⟩
  have hne : d ≠ c := by
    rintro rfl
    exact hd hc
  obtain ⟨key, ttl, h⟩ := hs.coalesced d hd
  exact ⟨key, ttl, (Function.update_of_ne hne _ _).trans h⟩

lemma inv_setBuild (hs : Inv s) (hb : s.builds t = some b) (hkey : b'.key = b.key) :
    Inv (s.setBuild t b') := by
  refine ⟨hs.tidy, hs.coalesced, fun t' b'' h => ?_⟩
  rcases update_eq_some.mp h with ⟨rfl, rfl⟩ | ⟨_, h⟩
  · rw [hkey]
    exact hs.running t' b hb
  · exact hs.running t' b'' h

lemma Inv.congr (hs : Inv s) (hco : u.coalescer = s.coalescer) (hcalls : u.calls = s.calls)
    (hbuilds : u.builds = s.builds) : Inv u :=
  ⟨hco ▸ hs.tidy, hco ▸ hcalls ▸ hs.coalesced, hco ▸ hbuilds ▸ hs.running⟩

lemma inv_complete {r : Except PyError Json} (hs : Inv s) (hb : s.builds t = some b) :
    Inv (s.complete t r) := by
  have hrun := (hs.running t b hb).1
  refine ⟨tidy_setTask hs.tidy hrun (by simp), hs.coalesced, fun t' b' h => ?_⟩
  have hne : t' ≠ t := by
    rintro rfl
    simp [State.complete] at h
  obtain ⟨hrun', hjoined⟩ := hs.running t' b' ((Function.update_of_ne hne _ _).symm.trans h)
  exact ⟨(Function.update_of_ne hne _ _).trans hrun', hjoined⟩

lemma Inv.not_coalesced {call : Call} (hs : Inv s) (hc : s.calls c = some call)
    (hphase : call.phase ≠ .coalesced) : s.coalescer.callers c = none := by
  by_contra hne
  obtain ⟨key, ttl, h⟩ := hs.coalesced c hne
  rw [hc, Option.some.injEq] at h
  exact hphase (by rw [h])

lemma run_of_free {ttl : Option ℕ} (hfree : s.coalescer.registry key = none) :
    s.run c key ttl = { s with
      coalescer := { s.coalescer with
        tasks := Function.update s.coalescer.tasks s.coalescer.next (some .running)
        registry := Function.update s.coalescer.registry key (some s.coalescer.next)
        callers := Function.update s.coalescer.callers c
          (some ⟨key, s.coalescer.next, .awaiting false⟩)
        next := s.coalescer.next + 1 }
      calls := Function.update s.calls c (some ⟨key, ttl, .coalesced⟩)
      builds := Function.update s.builds s.coalescer.next (some ⟨key, ttl, .checking⟩) } := by
  simp [State.run, Coalescer.State.join, Coalescer.State.await, hfree]

lemma run_of_registered (c : CallerId) (ttl : Option ℕ) (hreg : s.coalescer.registry key = some t) :
    ∃ registry phase, s.run c key ttl = { s with
      coalescer := { s.coalescer with
        registry
        callers := Function.update s.coalescer.callers c (some ⟨key, t, phase⟩) }
      calls := Function.update s.calls c (some ⟨key, ttl, .coalesced⟩) } := by
  simp only [State.run, Coalescer.State.join, Coalescer.State.await, hreg]
  split
  · exact ⟨_, _, rfl⟩
  · exact ⟨_, _, rfl⟩

lemma coalesced_run {ttl : Option ℕ} {x : Coalescer.Caller String Json PyError} (hs : Inv s)
    {d : CallerId} (hd : Function.update s.coalescer.callers c (some x) d ≠ none) :
    ∃ key' ttl', Function.update s.calls c (some ⟨key, ttl, .coalesced⟩) d =
      some ⟨key', ttl', .coalesced⟩ := by
  by_cases hdc : d = c
  · exact ⟨key, ttl, by rw [hdc, Function.update_self]⟩
  · rw [Function.update_of_ne hdc] at hd ⊢
    exact hs.coalesced d hd

lemma inv_run {ttl : Option ℕ} (hs : Inv s) (hc : s.coalescer.callers c = none) :
    Inv (s.run c key ttl) := by
  have hmove : move s.coalescer (.event (.call c key)) = some (s.run c key ttl).coalescer := by
    simp [move, Coalescer.step, hc, State.run]
  have htidy : Tidy (s.run c key ttl).coalescer := tidy_move hs.tidy hmove
  have hother {d : CallerId} {key' : String} {t' : TaskId}
      (h : s.coalescer.Joined d key' t') : d ≠ c := by
    rintro rfl
    obtain ⟨phase, h⟩ := h
    rw [hc] at h
    cases h
  cases hreg : s.coalescer.registry key with
  | none =>
    rw [run_of_free hreg] at htidy ⊢
    refine ⟨htidy, fun d hd => coalesced_run hs hd, fun t' b' h => ?_⟩
    rcases update_eq_some.mp h with ⟨rfl, rfl⟩ | ⟨hne, h⟩
    · exact ⟨Function.update_self .., c, _, Function.update_self ..⟩
    · obtain ⟨hrun, d, hd⟩ := hs.running t' b' h
      exact ⟨(Function.update_of_ne hne _ _).trans hrun, d,
        joined_setCaller.mpr (.inr ⟨hother hd, hd⟩)⟩
  | some t =>
    obtain ⟨registry, phase, he⟩ := run_of_registered c ttl hreg
    rw [he] at htidy ⊢
    refine ⟨htidy, fun d hd => coalesced_run hs hd, fun t' b' h => ?_⟩
    obtain ⟨hrun, d, hd⟩ := hs.running t' b' h
    exact ⟨hrun, d, joined_setCaller.mpr (.inr ⟨hother hd, hd⟩)⟩

lemma inv_wake {coalescer : Coalescer.State String Json PyError} (hs : Inv s)
    (h : Coalescer.step s.coalescer (.wake c) = some coalescer) : Inv { s with coalescer } := by
  have hmove : move s.coalescer (.event (.wake c)) = some coalescer := h
  have htidy : Tidy coalescer := tidy_move hs.tidy hmove
  cases Coalescer.took_of_step h with
  | @wakes _ key t must o hc _ =>
    have hjoined : s.coalescer.Joined c key t := ⟨_, hc⟩
    refine ⟨htidy, fun d hd => hs.coalesced d fun hnone => hd ?_, fun t' b' hb => ?_⟩
    · have hne : d ≠ c := by
        rintro rfl
        rw [hnone] at hc
        cases hc
      exact (Function.update_of_ne hne _ _).trans hnone
    · obtain ⟨hrun, d, hd⟩ := hs.running t' b' hb
      refine ⟨hrun, d, joined_setCaller.mpr ?_⟩
      by_cases hdc : d = c
      · subst hdc
        exact .inl ⟨rfl, hjoined.unique hd⟩
      · exact .inr ⟨hdc, hd⟩

theorem inv_step (hs : Inv s) (h : step s a = some u) : Inv u := by
  cases took_of_step h with
  | @calls c key ttl hc =>
    refine inv_setCall hs ?_
    by_contra hne
    obtain ⟨key', ttl', h⟩ := hs.coalesced c hne
    rw [hc] at h
    cases h
  | looks hc =>
    refine inv_setCall (hs.congr rfl rfl rfl) (hs.not_coalesced hc (by simp))
  | ends hc => exact inv_setCall hs (hs.not_coalesced hc (by simp))
  | runs hc => exact inv_run hs (hs.not_coalesced hc (by simp))
  | checks ht => exact inv_setBuild (hs.congr rfl rfl rfl) ht rfl
  | starts ht _ => exact inv_setBuild hs ht rfl
  | produces ht => exact inv_setBuild hs ht rfl
  | stores ht => exact inv_setBuild (hs.congr rfl rfl rfl) ht rfl
  | completes ht => exact inv_complete hs ht
  | wakes hw => exact inv_wake hs hw
  | others => exact hs.congr rfl rfl rfl
  | ticks => exact hs.congr rfl rfl rfl

theorem inv_reach {cache : AsyncCache} {now : ℕ} (h : Reach step (State.init cache now) s) :
    Inv s := h.invariant (inv_init cache now) fun _ _ _ hi _ ht => inv_step hi ht

lemma done_step {o : Outcome Json PyError} (hs : Inv s)
    (hdone : s.coalescer.tasks t = some (.done o)) (h : step s a = some u) :
    u.coalescer.tasks t = some (.done o) := by
  cases took_of_step h with
  | @runs c key ttl _ hc =>
    have hnone := hs.not_coalesced hc (by simp)
    have hmove : move s.coalescer (.event (.call c key)) = some (s.run c key ttl).coalescer := by
      simp [move, Coalescer.step, hnone, State.run]
    exact move_done hs.tidy hmove hdone
  | completes hb => exact setTask_done (hs.running _ _ hb).1 (by simp) hdone
  | wakes hw => exact move_done (a := .event (.wake _)) hs.tidy hw hdone
  | _ => exact hdone

lemma store_eq_none_of_done {o : Outcome Json PyError} (hs : Inv s)
    (hdone : s.coalescer.tasks t = some (.done o)) : step s (.store t) = none := by
  cases hb : s.builds t with
  | none => simp [step, hb]
  | some b =>
    have hrun := (hs.running t b hb).1
    rw [hdone] at hrun
    cases hrun

def Action.Writes (key : String) : Action → Prop
  | .other key' _ => key' = key
  | _ => False

/-- The entry carries a factory's value, as the backend writes it. -/
def Carries (backend : Backend) (e : Entry Json) (value : Payload) : Prop :=
  match backend with
  | .redis => e.value = .str (dumps value.value)
  | .memory => e.value = value.value
  | .disabled => False

def BuildPhase.Sheltered : BuildPhase → Prop
  | .checking | .stored _ => True
  | .checked reply => ∃ cachedInner, reply = .ok cachedInner ∧ found cachedInner ≠ none
  | .building | .storing _ => False

/-- The entry is still there, and no build of its key has missed. -/
structure Sheltered (key : String) (e : Entry Json) (s : State) : Prop where
  entry : s.cache.store key = some e
  builds : ∀ t b, s.builds t = some b → b.key = key → b.phase.Sheltered

lemma found_payload (value : Payload) : found (some value.value) = some value.value := by
  unfold found
  split
  · rename_i h
    exact absurd (Option.some.inj h) value.notNull
  · rfl

lemma get_of_carries {cache : AsyncCache} {now : ℕ} {value : Payload}
    (hcarries : Carries cache.backend e value) (hlive : live cache.store now key = some e) :
    cache.get now key = (cache, .ok (some value.value)) := by
  obtain ⟨v, expiresAt⟩ := e
  unfold AsyncCache.get
  split
  · rename_i hb
    rw [hb] at hcarries
    have hv : v = .str (dumps value.value) := hcarries
    simp [hlive, hv, loads_dumps value.valid]
  · rename_i hb
    simp [hb, Carries] at hcarries
  · rename_i hb
    rw [hb] at hcarries
    have hv : v = value.value := hcarries
    simp [hlive, hv]

lemma get_store {cache : AsyncCache} {now : ℕ} (key' : String)
    (hlive : live cache.store now key = some e) : (cache.get now key').1.store key = some e := by
  have hentry := (live_eq_some.mp hlive).1
  rcases get_cache cache now key' with h | ⟨_, hnone, h⟩
  · rwa [h]
  · have hne : key ≠ key' := by
      rintro rfl
      rw [hlive] at hnone
      cases hnone
    rw [h]
    exact (erase_of_ne _ hne).trans hentry

lemma sheltered_setBuild (hs : Sheltered key e s)
    (hb : b.key = key → b.phase.Sheltered) : Sheltered key e (s.setBuild t b) := by
  refine ⟨hs.entry, fun t' b' h hkey => ?_⟩
  rcases update_eq_some.mp h with ⟨_, rfl⟩ | ⟨_, h⟩
  · exact hb hkey
  · exact hs.builds t' b' h hkey

lemma sheltered_run {ttl : Option ℕ} {key' : String} (hs : Sheltered key e s) :
    Sheltered key e (s.run c key' ttl) := by
  cases hreg : s.coalescer.registry key' with
  | none =>
    rw [run_of_free hreg]
    refine ⟨hs.entry, fun t' b' h hkey => ?_⟩
    rcases update_eq_some.mp h with ⟨_, rfl⟩ | ⟨_, h⟩
    · trivial
    · exact hs.builds t' b' h hkey
  | some t =>
    obtain ⟨registry, phase, he⟩ := run_of_registered c ttl hreg
    rw [he]
    exact ⟨hs.entry, hs.builds⟩

lemma sheltered_complete {r : Except PyError Json} (hs : Sheltered key e s) :
    Sheltered key e (s.complete t r) := by
  refine ⟨hs.entry, fun t' b' h hkey => ?_⟩
  have hne : t' ≠ t := by
    rintro rfl
    simp [State.complete] at h
  exact hs.builds t' b' ((Function.update_of_ne hne _ _).symm.trans h) hkey

/-- While the entry is live, no step brings a build of its key into the factory. -/
theorem sheltered_step {value : Payload} (hcarries : Carries s.cache.backend e value)
    (hs : Sheltered key e s) (hnow : s.now ≤ e.expiresAt) (ha : ¬ a.Writes key)
    (h : step s a = some u) : Sheltered key e u := by
  have hlive : live s.cache.store s.now key = some e := live_eq_some.mpr ⟨hs.entry, hnow⟩
  cases took_of_step h with
  | calls _ | ends _ | wakes _ | ticks => exact ⟨hs.entry, hs.builds⟩
  | looks _ => exact ⟨get_store _ hlive, hs.builds⟩
  | runs _ => exact sheltered_run hs
  | @checks t key' ttl ht =>
    refine sheltered_setBuild ⟨get_store _ hlive, hs.builds⟩ fun hkey => ?_
    simp only at hkey
    subst hkey
    refine ⟨some value.value, ?_, by simp [found_payload]⟩
    rw [get_of_carries hcarries hlive]
  | starts ht hmiss =>
    refine sheltered_setBuild hs fun hkey => ?_
    obtain ⟨cachedInner, he, hfound⟩ := hs.builds _ _ ht hkey
    cases he
    exact absurd hmiss hfound
  | produces ht => exact sheltered_setBuild hs fun hkey => absurd (hs.builds _ _ ht hkey) id
  | @stores t key' ttl v ht =>
    have hne : key ≠ key' := by
      rintro rfl
      exact hs.builds _ _ ht rfl
    refine sheltered_setBuild ⟨?_, hs.builds⟩ fun _ => trivial
    simp only [AsyncCache.set]
    split
    · exact (put_of_ne _ hne _ _).trans hs.entry
    · exact hs.entry
    · exact (put_of_ne _ hne _ _).trans hs.entry
  | completes _ => exact sheltered_complete hs
  | @others key' entry =>
    have hne : key ≠ key' := fun hk => ha hk.symm
    exact ⟨(Function.update_of_ne hne _ _).trans hs.entry, hs.builds⟩

lemma backend_step (h : step s a = some u) : u.cache.backend = s.cache.backend := by
  cases took_of_step h with
  | looks _ | checks _ => exact get_backend ..
  | stores _ => exact set_backend ..
  | _ => rfl

lemma now_le_step (h : step s a = some u) : s.now ≤ u.now := by
  cases took_of_step h with
  | ticks => exact Nat.le_succ _
  | _ => exact le_rfl

lemma sheltered_reach {value : Payload} (hcarries : Carries s.cache.backend e value)
    (hs : Sheltered key e s) (h : ReachVia step (fun _ a => ¬ a.Writes key) s w)
    (hnow : w.now ≤ e.expiresAt) : Sheltered key e w := by
  have hinv : Carries w.cache.backend e value ∧ (w.now ≤ e.expiresAt → Sheltered key e w) := by
    refine h.invariant (I := fun v => Carries v.cache.backend e value ∧
      (v.now ≤ e.expiresAt → Sheltered key e v)) ⟨hcarries, fun _ => hs⟩ ?_
    rintro v a x ⟨hv, hsh⟩ ha hx
    refine ⟨by rwa [backend_step hx], fun hle => ?_⟩
    have hle' : v.now ≤ e.expiresAt := (now_le_step hx).trans hle
    exact sheltered_step hv (hsh hle') hle' ha hx
  exact hinv.2 hnow

lemma sheltered_store {ttl : Option ℕ} {value : Payload} (hs : Inv s)
    (hb : s.builds t = some ⟨key, ttl, .storing value⟩) (hbackend : s.cache.backend ≠ .disabled)
    (h : step s (.store t) = some u) :
    ∃ e, e.expiresAt = s.now + s.cache.ttl ttl * 1000 ∧ Carries u.cache.backend e value ∧
      Sheltered key e u := by
  simp only [step, hb, Option.some.injEq] at h
  have hbuilds (t' : TaskId) (b' : Build) (h' : u.builds t' = some b') (hkey : b'.key = key) :
      b'.phase.Sheltered := by
    rw [← h] at h'
    rcases update_eq_some.mp h' with ⟨_, rfl⟩ | ⟨hne, h'⟩
    · trivial
    · exact absurd (hs.unique hb h' hkey) hne
  have hcache : u.cache = s.cache.set s.now key value.value ttl := by rw [← h]; rfl
  unfold AsyncCache.set at hcache
  split at hcache
  · rename_i hredis
    refine ⟨⟨.str (dumps value.value), s.now + s.cache.ttl ttl * 1000⟩, rfl, ?_, ?_, hbuilds⟩
    · simp [hcache, hredis, Carries]
    · simp [hcache]
  · rename_i hdisabled
    exact absurd hdisabled hbackend
  · rename_i hmemory
    refine ⟨⟨value.value, s.now + s.cache.ttl ttl * 1000⟩, rfl, ?_, ?_, hbuilds⟩
    · simp [hcache, hmemory, Carries]
    · simp [hcache]

/-- The factory runs of a key never overlap; a factory that raises stores nothing; and as long as
a stored value is live, and nobody else writes its key, no factory of that key runs. -/
theorem single_flight {cache : AsyncCache} {now : ℕ} (hbackend : cache.backend ≠ .disabled)
    (h : Reach step (State.init cache now) s) :
    (∀ t t' b b', s.builds t = some b → s.builds t' = some b' → b.phase = .building →
      b'.phase = .building → b'.key = b.key → t' = t) ∧
    (∀ t err u, step s (.produce t (.error err)) = some u → u.cache = s.cache ∧
      ∀ w, Reach step u w → step w (.store t) = none) ∧
    ∀ t key ttl value u, s.builds t = some ⟨key, ttl, .storing value⟩ →
      step s (.store t) = some u →
      ∃ e, u.cache.store key = some e ∧ e.expiresAt = s.now + s.cache.ttl ttl * 1000 ∧
        ∀ w, ReachVia step (fun _ a => ¬ a.Writes key) u w → w.now ≤ e.expiresAt →
          ∀ t' b', w.builds t' = some b' → b'.key = key → b'.phase ≠ .building := by
  have hs := inv_reach h
  refine ⟨fun t t' b b' hb hb' _ _ hkey => hs.unique hb hb' hkey, fun t err u hu => ?_,
    fun t key ttl value u hb hu => ?_⟩
  · have hdone : u.cache = s.cache ∧
        u.coalescer.tasks t = some (.done (.result (.error err))) := by
      simp only [step] at hu
      split at hu
      · cases hu
        exact ⟨rfl, Function.update_self ..⟩
      · cases hu
    refine ⟨hdone.1, fun w hw => ?_⟩
    have hinv : Inv w ∧ w.coalescer.tasks t = some (.done (.result (.error err))) :=
      hw.invariant (I := fun v => Inv v ∧
          v.coalescer.tasks t = some (.done (.result (.error err))))
        ⟨inv_step hs hu, hdone.2⟩
        fun _ _ _ hi _ hx => ⟨inv_step hi.1 hx, done_step hi.1 hi.2 hx⟩
    exact store_eq_none_of_done hinv.1 hinv.2
  · have hs' : s.cache.backend ≠ .disabled := by
      refine h.invariant (I := fun v => v.cache.backend ≠ .disabled) hbackend ?_
      intro v a x hv _ hx
      rwa [backend_step hx]
    obtain ⟨e, hexp, hcarries, hsh⟩ := sheltered_store hs hb hs' hu
    refine ⟨e, hsh.entry, hexp, fun w hw hnow t' b' hb' hkey hphase => ?_⟩
    have hshelter := (sheltered_reach hcarries hsh hw hnow).builds t' b' hb' hkey
    rw [hphase] at hshelter
    exact hshelter

/-- Two calls miss; the first builds and stores, and the second, which had missed before, finds
what was stored. -/
def missedTwice : List Action :=
  [.call 0 "aggregate" (some 30), .call 1 "aggregate" (some 30), .look 0, .look 1, .enter 0,
    .check 0, .decide 0, .produce 0 (.ok ⟨.bool true, trivial, by simp⟩)]

def memoryCache : AsyncCache := ⟨.memory, 60, fun _ => none⟩

theorem single_flight_missedTwice :
    ∃ s u w, exec step (State.init memoryCache 0) missedTwice = some s ∧
      step s (.store 0) = some u ∧
      exec step u [.finish 0, .wake 0, .enter 1, .check 1, .decide 1] = some w ∧
      ∀ t b, w.builds t = some b → b.key = "aggregate" → b.phase ≠ .building := by
  obtain ⟨s, hs, hb, u, hu, w, hw, hnow, hexp⟩ :
      ∃ s, exec step (State.init memoryCache 0) missedTwice = some s ∧
        s.builds 0 = some ⟨"aggregate", some 30, .storing ⟨.bool true, trivial, by simp⟩⟩ ∧
        ∃ u, step s (.store 0) = some u ∧
        ∃ w, exec step u [.finish 0, .wake 0, .enter 1, .check 1, .decide 1] = some w ∧
          w.now = 0 ∧ s.now + s.cache.ttl (some 30) * 1000 = 30000 :=
    ⟨_, rfl, rfl, _, rfl, _, rfl, rfl, rfl⟩
  obtain ⟨_, _, hstored⟩ := single_flight (by simp [memoryCache]) (reach_of_exec missedTwice hs)
  obtain ⟨e, _, hexp', hno⟩ := hstored 0 _ _ _ u hb hu
  refine ⟨s, u, w, hs, hu, hw, hno w (reachVia_of_exec _ hw ?_) ?_⟩
  · exact guarded_of_forall_mem (by simp [Action.Writes]) _
  · omega

end AsyncDataHub.GetOrSet
