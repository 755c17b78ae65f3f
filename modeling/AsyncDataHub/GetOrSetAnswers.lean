import AsyncDataHub.GetOrSetFlight

/-! Where the answers of `get_or_set` come from: through cache and coalescer, from a run of the
factory for the key that was asked for. -/
namespace AsyncDataHub.GetOrSet
open StepSystem Cache PyJson Coalescer ExpiringStore

variable {s u : State} {a : Action} {c : CallerId} {t : TaskId} {key : String} {v : Json}
  {r : Except PyError Json} {b : Build} {out out' : List (String × Except PyError Json)}

/-- What a run of the factory for a key returns or raises. -/
def produced (s : State) : Action → Option (String × Except PyError Json)
  | .produce t (.ok value) => (s.builds t).map fun b => (b.key, .ok value.value)
  | .produce t (.error e) => (s.builds t).map fun b => (b.key, .error e)
  | _ => none

/-- Nobody else writes an entry; they may delete some. -/
def NoOtherWriter (_ : State) : Action → Prop
  | .other _ (some _) => False
  | _ => True

/-- What the cache answers for a key: nothing, or something that was produced for it. -/
def Reply.From (out : List (String × Except PyError Json)) (key : String) : Reply → Prop
  | .ok none => True
  | .ok (some v) => (key, .ok v) ∈ out
  | .error _ => False

def CallPhase.From (out : List (String × Except PyError Json)) (key : String) : CallPhase → Prop
  | .looking | .coalesced => True
  | .looked reply => Reply.From out key reply
  | .ended r => (key, r) ∈ out

def BuildPhase.From (out : List (String × Except PyError Json)) (key : String) :
    BuildPhase → Prop
  | .checking | .building => True
  | .checked reply => Reply.From out key reply
  | .storing value | .stored value => (key, .ok value.value) ∈ out

/-- The results of tasks, and of the calls that have left, were produced for their keys. -/
structure Sourced (out : List (String × Except PyError Json))
    (co : Coalescer.State String Json PyError) : Prop where
  tasks : ∀ c key t r, co.Joined c key t → co.tasks t = some (.done (.result r)) → (key, r) ∈ out
  answers : ∀ c key t r, co.callers c = some ⟨key, t, .finished (.result r)⟩ → (key, r) ∈ out

/-- Whatever is in the state was produced for the key under which it is. -/
structure Accounted (out : List (String × Except PyError Json)) (s : State) : Prop where
  inv : Inv s
  stored : ∀ key e, s.cache.store key = some e → ∃ value : Payload,
    (key, .ok value.value) ∈ out ∧ Carries s.cache.backend e value
  calls : ∀ c call, s.calls c = some call → call.phase.From out call.key
  builds : ∀ t b, s.builds t = some b → b.phase.From out b.key
  sourced : Sourced out s.coalescer

lemma Reply.From.mono {reply : Reply} (h : Reply.From out key reply) (hsub : out ⊆ out') :
    Reply.From out' key reply := by
  unfold Reply.From at h ⊢
  split at h
  · trivial
  · exact hsub h
  · exact h

lemma get_from {cache : AsyncCache} (now : ℕ) (hstored : ∀ e, cache.store key = some e →
      ∃ value : Payload, (key, .ok value.value) ∈ out ∧ Carries cache.backend e value) :
    Reply.From out key (cache.get now key).2 := by
  cases hlive : live cache.store now key with
  | some e =>
    obtain ⟨value, hout, hcarries⟩ := hstored e (live_eq_some.mp hlive).1
    rw [get_of_carries hcarries hlive]
    exact hout
  | none =>
    unfold AsyncCache.get
    split <;> simp [hlive, Reply.From]

lemma get_stored {cache : AsyncCache} {e : Entry Json} (now : ℕ) (key' : String)
    (h : (cache.get now key').1.store key = some e) : cache.store key = some e := by
  rcases get_cache cache now key' with hsame | ⟨_, _, herase⟩
  · rwa [hsame] at h
  · rw [herase] at h
    by_cases hkey : key = key'
    · subst hkey
      simp [erase] at h
    · exact (erase_of_ne _ hkey).symm.trans h

lemma set_stored {cache : AsyncCache} {e : Entry Json} {now : ℕ} {key' : String} {value : Payload}
    {ttl : Option ℕ} (h : (cache.set now key' value.value ttl).store key = some e) :
    key = key' ∧ Carries cache.backend e value ∨ cache.store key = some e := by
  unfold AsyncCache.set at h
  split at h
  · rename_i hredis
    rcases update_eq_some.mp h with ⟨rfl, rfl⟩ | ⟨_, h⟩
    · exact .inl ⟨rfl, by simp [Carries, hredis]⟩
    · exact .inr h
  · exact .inr h
  · rename_i hmemory
    rcases update_eq_some.mp h with ⟨rfl, rfl⟩ | ⟨_, h⟩
    · exact .inl ⟨rfl, by simp [Carries, hmemory]⟩
    · exact .inr h

lemma found_eq_some {cached : Option Json} (h : found cached = some v) : cached = some v := by
  unfold found at h
  split at h
  · cases h
  · exact h

section Coalescer
variable {co co' : Coalescer.State String Json PyError}

lemma sourced_step {e : Event String Json PyError} (htidy : Tidy co) (hs : Sourced out co)
    (he : (∃ c key, e = .call c key) ∨ ∃ c, e = .wake c) (h : Coalescer.step co e = some co') :
    Sourced out co' := by
  cases Coalescer.took_of_step h with
  | @creates c key fresh _ =>
    refine ⟨fun d key' t' r hd hdone => ?_, fun d key' t' r hd => ?_⟩
    · rcases update_eq_some.mp hdone with ⟨_, hrun⟩ | ⟨hne, hdone⟩
      · cases hrun
      · rcases joined_setCaller.mp hd with ⟨_, _, rfl⟩ | ⟨_, hd⟩
        · exact absurd rfl hne
        · exact hs.tasks d key' t' r hd hdone
    · rcases update_eq_some.mp hd with ⟨_, hphase⟩ | ⟨_, hd⟩
      · cases hphase
      · exact hs.answers d key' t' r hd
  | @joins c key t _ _ hrun =>
    refine ⟨fun d key' t' r hd hdone => ?_, fun d key' t' r hd => ?_⟩
    · rcases joined_setCaller.mp hd with ⟨_, _, rfl⟩ | ⟨_, hd⟩
      · exact absurd hdone (hrun _)
      · exact hs.tasks d key' t' r hd hdone
    · rcases update_eq_some.mp hd with ⟨_, hphase⟩ | ⟨_, hd⟩
      · cases hphase
      · exact hs.answers d key' t' r hd
  | @passes c key t o _ hreg hdone =>
    obtain ⟨d₀, _, hd₀⟩ := htidy.awaited key t hreg
    refine ⟨fun d key' t' r hd hdone' => ?_, fun d key' t' r hd => ?_⟩
    · rcases joined_setCaller.mp hd with ⟨_, rfl, rfl⟩ | ⟨_, hd⟩
      · exact hs.tasks d₀ key' t' r ⟨_, hd₀⟩ hdone'
      · exact hs.tasks d key' t' r hd hdone'
    · rcases update_eq_some.mp hd with ⟨_, hcaller⟩ | ⟨_, hd⟩
      · cases hcaller
        exact hs.tasks d₀ key t r ⟨_, hd₀⟩ hdone
      · exact hs.answers d key' t' r hd
  | @wakes c key t mustCancel o hc hdone =>
    refine ⟨fun d key' t' r hd hdone' => ?_, fun d key' t' r hd => ?_⟩
    · rcases joined_setCaller.mp hd with ⟨_, rfl, rfl⟩ | ⟨_, hd⟩
      · exact hs.tasks c key' t' r ⟨_, hc⟩ hdone'
      · exact hs.tasks d key' t' r hd hdone'
    · rcases update_eq_some.mp hd with ⟨_, hcaller⟩ | ⟨_, hd⟩
      · cases mustCancel with
        | true => cases hcaller
        | false =>
          cases hcaller
          exact hs.tasks c key t r ⟨_, hc⟩ hdone
      · exact hs.answers d key' t' r hd
  | finishes _ | aborts _ | cancels _ => simp at he

end Coalescer

lemma accounted_setCall {call : Call} (h : Accounted out s) (hc : s.coalescer.callers c = none)
    (hphase : call.phase.From out call.key) : Accounted out (s.setCall c call) :=
  ⟨inv_setCall h.inv hc, h.stored, forall_update h.calls hphase, h.builds, h.sourced⟩

lemma accounted_setBuild {b' : Build} (h : Accounted out s) (hb : s.builds t = some b)
    (hkey : b'.key = b.key) (hphase : b'.phase.From out b'.key) :
    Accounted out (s.setBuild t b') :=
  ⟨inv_setBuild h.inv hb hkey, h.stored, h.calls, forall_update h.builds hphase, h.sourced⟩

lemma accounted_get (h : Accounted out s) (key : String) :
    Accounted out { s with cache := (s.cache.get s.now key).1 } where
  inv := h.inv.congr rfl rfl rfl
  stored key' e he := by
    rw [get_backend]
    exact h.stored key' e (get_stored s.now key he)
  calls := h.calls
  builds := h.builds
  sourced := h.sourced

lemma accounted_complete (h : Accounted out s) (hb : s.builds t = some b)
    (hr : (b.key, r) ∈ out) : Accounted out (s.complete t r) := by
  refine ⟨inv_complete h.inv hb, h.stored, h.calls, fun t' b' hb' => ?_,
    fun d key t' r' hd hdone => ?_, h.sourced.answers⟩
  · have hne : t' ≠ t := by
      rintro rfl
      simp [State.complete] at hb'
    exact h.builds t' b' ((Function.update_of_ne hne _ _).symm.trans hb')
  · rcases update_eq_some.mp hdone with ⟨rfl, hresult⟩ | ⟨_, hdone⟩
    · cases hresult
      obtain ⟨_, d', hd'⟩ := h.inv.running t' b hb
      obtain rfl := h.inv.tidy.oneKey d' d b.key key t' hd' hd
      exact hr
    · exact h.sourced.tasks d key t' r' hd hdone

lemma accounted_run {ttl : Option ℕ} (h : Accounted out s) (hc : s.coalescer.callers c = none) :
    Accounted out (s.run c key ttl) := by
  have hstep : Coalescer.step s.coalescer (.call c key) = some (s.run c key ttl).coalescer := by
    simp [Coalescer.step, hc, State.run]
  refine ⟨inv_run h.inv hc, h.stored, forall_update h.calls trivial, fun t b hb => ?_,
    sourced_step h.inv.tidy h.sourced (.inl ⟨c, key, rfl⟩) hstep⟩
  cases hreg : s.coalescer.registry key with
  | none =>
    rw [run_of_free hreg] at hb
    rcases update_eq_some.mp hb with ⟨_, rfl⟩ | ⟨_, hb⟩
    · trivial
    · exact h.builds t b hb
  | some t' =>
    obtain ⟨registry, phase, he⟩ := run_of_registered c ttl hreg
    rw [he] at hb
    exact h.builds t b hb

lemma Accounted.mono (h : Accounted out s) (hsub : out ⊆ out') : Accounted out' s := by
  refine ⟨h.inv, fun key e he => ?_, fun c call hc => ?_, fun t b hb => ?_,
    fun c key t r hd hdone => hsub (h.sourced.tasks c key t r hd hdone),
    fun c key t r hc => hsub (h.sourced.answers c key t r hc)⟩
  · obtain ⟨value, hout, hcarries⟩ := h.stored key e he
    exact ⟨value, hsub hout, hcarries⟩
  · have hphase := h.calls c call hc
    unfold CallPhase.From at hphase ⊢
    split at hphase
    · trivial
    · trivial
    · exact hphase.mono hsub
    · exact hsub hphase
  · have hphase := h.builds t b hb
    unfold BuildPhase.From at hphase ⊢
    split at hphase
    · trivial
    · trivial
    · exact hphase.mono hsub
    · exact hsub hphase
    · exact hsub hphase

/-- Only a factory brings a new result into the state. -/
theorem accounted_step (h : Accounted out s) (hg : NoOtherWriter s a) (hu : step s a = some u) :
    Accounted (out ++ (produced s a).toList) u := by
  cases a with
  | produce t r =>
    simp only [step] at hu
    split at hu
    · rename_i key ttl hb
      cases r with
      | error e =>
        cases hu
        have hsub := h.mono (List.subset_append_left out [(key, .error e)])
        simpa [produced, hb] using accounted_complete hsub hb (by simp)
      | ok value =>
        cases hu
        have hsub := h.mono (List.subset_append_left out [(key, .ok value.value)])
        have hset : Accounted (out ++ [(key, .ok value.value)])
            (s.setBuild t ⟨key, ttl, .storing value⟩) :=
          accounted_setBuild hsub hb rfl (by simp [BuildPhase.From])
        simpa [produced, hb] using hset
    · cases hu
  | call c key ttl =>
    simp only [step] at hu
    split at hu
    · cases hu
    · rename_i hc
      cases hu
      refine (List.append_nil out).symm ▸ accounted_setCall h ?_ trivial
      by_contra hne
      obtain ⟨key', ttl', hcall⟩ := h.inv.coalesced c hne
      rw [hc] at hcall
      cases hcall
  | look c =>
    simp only [step] at hu
    split at hu
    · rename_i key ttl hc
      cases hu
      have hnone := h.inv.not_coalesced hc (by simp)
      exact (List.append_nil out).symm ▸
        accounted_setCall (accounted_get h key) hnone (get_from s.now (h.stored key))
    · cases hu
  | enter c =>
    simp only [step] at hu
    refine (List.append_nil out).symm ▸ ?_
    split at hu
    · rename_i key ttl e hc
      exact absurd (h.calls c _ hc) id
    · rename_i key ttl cachedValue hc
      have hnone := h.inv.not_coalesced hc (by simp)
      split at hu
      · rename_i value hfound
        cases hu
        have hreply := h.calls c _ hc
        rw [found_eq_some hfound] at hreply
        exact accounted_setCall h hnone hreply
      · cases hu
        exact accounted_run h hnone
    · cases hu
  | check t =>
    simp only [step] at hu
    split at hu
    · rename_i key ttl hb
      cases hu
      exact (List.append_nil out).symm ▸ accounted_setBuild (accounted_get h key) hb rfl
        (get_from s.now (h.stored key))
    · cases hu
  | decide t =>
    simp only [step] at hu
    refine (List.append_nil out).symm ▸ ?_
    split at hu
    · rename_i key ttl e hb
      exact absurd (h.builds t _ hb) id
    · rename_i key ttl cachedInner hb
      split at hu
      · rename_i value hfound
        cases hu
        have hreply := h.builds t _ hb
        rw [found_eq_some hfound] at hreply
        exact accounted_complete h hb hreply
      · cases hu
        exact accounted_setBuild h hb rfl trivial
    · cases hu
  | store t =>
    simp only [step] at hu
    split at hu
    · rename_i key ttl value hb
      cases hu
      have hout := h.builds t _ hb
      refine (List.append_nil out).symm ▸
        accounted_setBuild ⟨h.inv.congr rfl rfl rfl, fun key' e he => ?_, h.calls, h.builds,
          h.sourced⟩ hb rfl hout
      rw [set_backend]
      rcases set_stored he with ⟨rfl, hcarries⟩ | hold
      · exact ⟨value, hout, hcarries⟩
      · exact h.stored key' e hold
    · cases hu
  | finish t =>
    simp only [step] at hu
    split at hu
    · rename_i key ttl value hb
      cases hu
      exact (List.append_nil out).symm ▸ accounted_complete h hb (h.builds t _ hb)
    · cases hu
  | wake c =>
    obtain ⟨coalescer, hco, rfl⟩ := Option.map_eq_some_iff.mp hu
    exact (List.append_nil out).symm ▸ ⟨inv_wake h.inv hco, h.stored, h.calls, h.builds,
      sourced_step h.inv.tidy h.sourced (.inr ⟨c, rfl⟩) hco⟩
  | other key entry =>
    cases entry with
    | some e => cases hg
    | none =>
      cases hu
      refine (List.append_nil out).symm ▸
        ⟨h.inv.congr rfl rfl rfl, fun key' e he => ?_, h.calls, h.builds, h.sourced⟩
      by_cases hkey : key' = key
      · subst hkey
        simp at he
      · exact h.stored key' e ((Function.update_of_ne hkey _ _).symm.trans he)
  | tick =>
    cases hu
    exact (List.append_nil out).symm ▸
      ⟨h.inv.congr rfl rfl rfl, h.stored, h.calls, h.builds, h.sourced⟩

/-- The call has returned or raised: after its first lookup, or with the task that it has joined. -/
def State.Answered (s : State) (c : CallerId) (key : String) (r : Except PyError Json) : Prop :=
  (∃ ttl, s.calls c = some ⟨key, ttl, .ended r⟩) ∨
    ∃ t, s.coalescer.callers c = some ⟨key, t, .finished (.result r)⟩

/-- As long as nobody else writes to the cache, a call of `get_or_set` returns or raises what a run
of the factory for its own key has returned or raised; and so does every later call that finds it in
the cache. -/
theorem answers_produced {cache : AsyncCache} {now : ℕ} (hempty : ∀ key, cache.store key = none)
    {acts : List Action} (hg : Guarded step NoOtherWriter (State.init cache now) acts)
    (h : exec step (State.init cache now) acts = some s) :
    (∀ c key r, s.Answered c key r →
      (key, r) ∈ emitted step produced (State.init cache now) acts) ∧
    ∀ key, Reply.From (emitted step produced (State.init cache now) acts) key
      (s.cache.get s.now key).2 := by
  have hinit : Accounted [] (State.init cache now) := by
    refine ⟨inv_init cache now, fun key e he => ?_, ?_, ?_, ⟨?_, ?_⟩⟩
    · change cache.store key = some e at he
      rw [hempty] at he
      cases he
    all_goals simp [State.init, Coalescer.State.init, Coalescer.State.Joined]
  have hend : Accounted ([] ++ emitted step produced (State.init cache now) acts) s :=
    invariant_emitted (J := Accounted) (fun _ _ _ _ hi hg ht => accounted_step hi hg ht) hinit hg h
  rw [List.nil_append] at hend
  refine ⟨?_, fun key => get_from s.now (hend.stored key)⟩
  rintro c key r (⟨ttl, hc⟩ | ⟨t, hc⟩)
  · exact hend.calls c _ hc
  · exact hend.sourced.answers c key t r hc

lemma bool_ne_null (b : Bool) : Json.bool b ≠ .null := by simp

/-- One call builds the value, the next one finds it. -/
def builtOnce : List Action :=
  [.call 0 "aggregate" (some 30), .look 0, .enter 0, .check 0, .decide 0,
    .produce 0 (.ok ⟨.bool true, trivial, bool_ne_null true⟩), .store 0, .finish 0, .wake 0,
    .call 1 "aggregate" (some 30), .tick, .look 1, .enter 1]

theorem answers_produced_builtOnce :
    ∃ s, exec step (State.init memoryCache 0) builtOnce = some s ∧
      s.Answered 1 "aggregate" (.ok (.bool true)) ∧
      ("aggregate", .ok (.bool true)) ∈
        emitted step produced (State.init memoryCache 0) builtOnce := by
  obtain ⟨s, hs, hanswered⟩ : ∃ s, exec step (State.init memoryCache 0) builtOnce = some s ∧
      s.Answered 1 "aggregate" (.ok (.bool true)) := ⟨_, rfl, .inl ⟨some 30, rfl⟩⟩
  have hguard : Guarded step NoOtherWriter (State.init memoryCache 0) builtOnce :=
    guarded_of_forall_mem (by simp [builtOnce, NoOtherWriter]) _
  exact ⟨s, hs, hanswered,
    (answers_produced (fun _ => rfl) hguard hs).1 1 "aggregate" _ hanswered⟩

end AsyncDataHub.GetOrSet
