import AsyncDataHub.PaymentLedger

/-! Payments always come to an end: each locks its account before the entry of its key, so whoever
has an entry waits for nobody. -/
namespace AsyncDataHub.Payment
open StepSystem LockTable

variable {cfg : Config} {s t : State} {c d : CallId} {call : Call} {eff : Effect} {a : Action}

def Pc.HoldsAccount : Pc → Prop
  | .insert _ _ | .commit _ _ => True
  | _ => False

/-- Whoever has a lock is inside its transaction, and an index entry is locked last. -/
structure HeldInv (s : State) : Prop where
  account : ∀ u c, s.accountLock u = some c →
    ∃ call, s.calls c = some call ∧ call.pc.HoldsAccount
  index : ∀ key c, s.indexLock key = some c →
    ∃ call balance charge, s.calls c = some call ∧ call.pc = .commit balance charge

/-- The statements that a call may still send. -/
def Pc.left : Pc → ℕ
  | .setnx => 7
  | .sleep _ _ => 6
  | .update _ => 5
  | .insert _ _ => 4
  | .insertFailed _ => 3
  | .commit _ _ | .commitFailed _ => 2
  | .lookup | .release _ | .complete _ => 1
  | .done _ => 0

def left (s : State) (c : CallId) : ℕ :=
  match s.calls c with
  | none => 8
  | some call => call.pc.left

def State.work (calls : Finset CallId) (s : State) : ℕ := ∑ c ∈ calls, left s c

def Action.mover : Action → Option CallId
  | .start c _ _ | .op c | .cancel c | .error c => some c
  | .tick _ => none

def Call.Asleep (now : ℕ) (call : Call) : Prop := ∃ u wake, call.pc = .sleep u wake ∧ now < wake

lemma apply_calls_self : (s.apply cfg c call eff).calls c = some (eff.after cfg s.now call) := by
  simp

lemma HeldInv.without (hi : HeldInv s) (hc : s.calls c = some call)
    (hpc : ¬ call.pc.HoldsAccount) : (∀ u, s.accountLock u ≠ some c) ∧
      ∀ key, s.indexLock key ≠ some c := by
  constructor
  · intro u hl
    obtain ⟨call', hc', hholds⟩ := hi.account u c hl
    obtain rfl := Option.some.inj (hc.symm.trans hc')
    exact hpc hholds
  · intro key hl
    obtain ⟨call', balance, charge, hc', hcommit⟩ := hi.index key c hl
    obtain rfl := Option.some.inj (hc.symm.trans hc')
    rw [hcommit] at hpc
    exact hpc trivial

lemma HeldInv.goesOn (hi : HeldInv s) (hc : s.calls c = some call) (hpc : ¬ call.pc.HoldsAccount)
    (hacc : (s.apply cfg c call eff).accountLock = s.accountLock)
    (hidx : (s.apply cfg c call eff).indexLock = s.indexLock) :
    HeldInv (s.apply cfg c call eff) := by
  obtain ⟨hnoAccount, hnoIndex⟩ := hi.without hc hpc
  constructor
  · intro u d hl
    rw [hacc] at hl
    have hne : d ≠ c := fun heq => hnoAccount u (heq ▸ hl)
    simpa [hne] using hi.account u d hl
  · intro key d hl
    rw [hidx] at hl
    have hne : d ≠ c := fun heq => hnoIndex key (heq ▸ hl)
    simpa [hne] using hi.index key d hl

lemma HeldInv.ends (hi : HeldInv s)
    (hacc : (s.apply cfg c call eff).accountLock = releaseAll s.accountLock c)
    (hidx : (s.apply cfg c call eff).indexLock = releaseAll s.indexLock c) :
    HeldInv (s.apply cfg c call eff) := by
  constructor
  · intro u d hl
    rw [hacc] at hl
    obtain ⟨hl, hne⟩ := releaseAll_eq_some.mp hl
    simpa [hne] using hi.account u d hl
  · intro key d hl
    rw [hidx] at hl
    obtain ⟨hl, hne⟩ := releaseAll_eq_some.mp hl
    simpa [hne] using hi.index key d hl

lemma heldInv_does (hi : HeldInv s) (hc : s.calls c = some call) (h : Does cfg s c call eff) :
    HeldInv (s.apply cfg c call eff) := by
  cases h with
  | @debits u balance hpc hrow henough hlock =>
    obtain ⟨_, hnoIndex⟩ := hi.without hc (by simp [hpc, Pc.HoldsAccount])
    constructor
    · intro v d hl
      by_cases hd : d = c
      · subst hd
        exact ⟨_, apply_calls_self, trivial⟩
      · have hv : v ≠ u := by
          rintro rfl
          exact hd (Option.some.inj (hl.symm.trans (take_self ..)))
        have hold := hi.account v d ((take_of_ne _ hv c).symm.trans hl)
        simpa [hd] using hold
    · intro key d hl
      have hd : d ≠ c := fun heq => hnoIndex key (heq ▸ hl)
      simpa [hd] using hi.index key d hl
  | @inserts u balance hpc hfresh hlock =>
    constructor
    · intro v d hl
      by_cases hd : d = c
      · subst hd
        exact ⟨_, apply_calls_self, trivial⟩
      · simpa [hd] using hi.account v d hl
    · intro key d hl
      by_cases hd : d = c
      · subst hd
        exact ⟨_, _, _, apply_calls_self, rfl⟩
      · have hkey : key ≠ call.key := by
          rintro rfl
          exact hd (Option.some.inj (hl.symm.trans (take_self ..)))
        have hold := hi.index key d ((take_of_ne _ hkey c).symm.trans hl)
        simpa [hd] using hold
  | stops _ _ | overdraws _ _ _ _ | mistakes _ _ _ | commits _ | commitsFailure _ =>
    exact hi.ends rfl rfl
  | acquires hpc _ _ | refused hpc _ | looksUp hpc | wakes hpc _ | recordsFailure hpc
  | deletes hpc | completes hpc =>
    exact hi.goesOn hc (by simp [hpc, Pc.HoldsAccount]) rfl rfl

lemma heldInv_step (h : step cfg s a = some t) (hi : HeldInv s) : HeldInv t := by
  cases a with
  | start c key data =>
    simp only [step] at h
    split at h
    · cases h
    · rename_i hfresh
      cases h
      constructor
      · intro u d hl
        obtain ⟨call, hd, hholds⟩ := hi.account u d hl
        have hne : d ≠ c := fun heq => by simp [heq, hfresh] at hd
        exact ⟨call, (Function.update_of_ne hne ..).trans hd, hholds⟩
      · intro key' d hl
        obtain ⟨call, balance, charge, hd, hpc⟩ := hi.index key' d hl
        have hne : d ≠ c := fun heq => by simp [heq, hfresh] at hd
        exact ⟨call, balance, charge, (Function.update_of_ne hne ..).trans hd, hpc⟩
  | op c =>
    obtain ⟨call, eff, hc, heff, rfl⟩ := stepCall_eq_some h
    exact heldInv_does hi hc (does_of_chargeWithIdempotency heff)
  | cancel c =>
    obtain ⟨call, eff, hc, heff, rfl⟩ := stepCall_eq_some h
    unfold cancelEffect at heff
    split at heff
    · cases heff
    · cases heff
      exact hi.ends rfl rfl
  | error c =>
    obtain ⟨call, eff, hc, heff, rfl⟩ := stepCall_eq_some h
    cases hpc : call.pc <;>
      simp only [hpc, errorEffect, Option.some.injEq, reduceCtorEq] at heff <;> subst heff
    case setnx | lookup | release | complete =>
      exact hi.goesOn hc (by simp [hpc, Pc.HoldsAccount]) rfl rfl
    all_goals exact hi.ends rfl rfl
  | tick n =>
    cases h
    exact ⟨hi.account, hi.index⟩

lemma left_does (h : Does cfg s c call eff) :
    (eff.after cfg s.now call).pc.left < call.pc.left := by
  cases h with
  | acquires hpc _ _ =>
    simp only [Effect.after, hpc, firstPc]
    split <;> simp [Pc.left]
  | stops e hpc =>
    cases hcall : call.pc <;> simp only [hcall, Pc.Charging] at hpc <;> simp [Effect.after, Pc.left]
  | refused hpc _ | looksUp hpc | wakes hpc _ | overdraws hpc _ _ _ | debits hpc _ _ _
  | mistakes hpc _ _ | inserts hpc _ _ | commits hpc | recordsFailure hpc | commitsFailure hpc
  | deletes hpc | completes hpc => simp [Effect.after, hpc, Pc.left]

lemma left_stops (h : Stops call eff) (hopen : ∀ o, call.pc ≠ .done o) :
    (eff.after cfg s.now call).pc.left < call.pc.left := by
  cases h with
  | ends e | gives e =>
    cases hpc : call.pc <;> simp [Effect.after, Pc.left]
    case done o => exact hopen o hpc
  | fails e hpc =>
    cases hcall : call.pc <;> simp only [hcall, Pc.Charging] at hpc <;> simp [Effect.after, Pc.left]

lemma left_step (h : step cfg s a = some t) :
    (∀ d, a.mover ≠ some d → left t d = left s d) ∧
      ∀ d, a.mover = some d → left t d < left s d := by
  have hmoved {c : CallId} {call : Call} {eff : Effect} (hc : s.calls c = some call)
      (hlt : (eff.after cfg s.now call).pc.left < call.pc.left) :
      (∀ d, some c ≠ some d → left (s.apply cfg c call eff) d = left s d) ∧
        ∀ d, some c = some d → left (s.apply cfg c call eff) d < left s d := by
    refine ⟨fun d hne => ?_, fun d heq => ?_⟩
    · have hd : d ≠ c := fun heq => hne (heq ▸ rfl)
      simp [left, hd]
    · obtain rfl := Option.some.inj heq
      simpa [left, hc] using hlt
  cases a with
  | start c key data =>
    simp only [step] at h
    split at h
    · cases h
    · rename_i hfresh
      cases h
      refine ⟨fun d hne => ?_, fun d heq => ?_⟩
      · have hd : d ≠ c := fun heq => hne (heq ▸ rfl)
        simp [left, State.setCall, hd]
      · obtain rfl := Option.some.inj heq
        simp [left, State.setCall, hfresh, Pc.left]
  | op c =>
    obtain ⟨call, eff, hc, heff, rfl⟩ := stepCall_eq_some h
    exact hmoved hc (left_does (does_of_chargeWithIdempotency heff))
  | cancel c =>
    obtain ⟨call, eff, hc, heff, rfl⟩ := stepCall_eq_some h
    refine hmoved hc (left_stops (stops_of_cancelEffect heff) fun o ho => ?_)
    simp [ho, cancelEffect] at heff
  | error c =>
    obtain ⟨call, eff, hc, heff, rfl⟩ := stepCall_eq_some h
    refine hmoved hc (left_stops (stops_of_errorEffect heff) fun o ho => ?_)
    simp [ho, errorEffect] at heff
  | tick n =>
    cases h
    exact ⟨fun _ _ => rfl, fun d heq => by cases heq⟩

def Action.moves (a : Action) : Bool := a.mover.isSome

lemma work_of_exec {calls : Finset CallId} {acts : List Action}
    (hacts : ∀ a ∈ acts, ∀ c, a.mover = some c → c ∈ calls)
    (h : exec (step cfg) s acts = some t) :
    (acts.filter Action.moves).length + t.work calls ≤ s.work calls := by
  induction acts generalizing s with
  | nil =>
    simp only [exec_nil, Option.some.injEq] at h
    simp [h]
  | cons a as ih =>
    obtain ⟨u, hu, hrest⟩ := exec_cons_eq_some.mp h
    have hle := ih (fun b hb => hacts b (List.mem_cons_of_mem a hb)) hrest
    obtain ⟨hothers, hself⟩ := left_step hu
    cases hmover : a.mover with
    | none =>
      have hsame : u.work calls = s.work calls :=
        Finset.sum_congr rfl fun d _ => hothers d (by simp [hmover])
      rw [List.filter_cons_of_neg (by simp [Action.moves, hmover])]
      omega
    | some c =>
      have hlt : u.work calls < s.work calls := by
        refine Finset.sum_lt_sum (fun d _ => ?_) ⟨c, hacts a List.mem_cons_self c hmover, ?_⟩
        · by_cases hd : a.mover = some d
          · exact (hself d hd).le
          · exact (hothers d hd).le
        · exact hself c hmover
      rw [List.filter_cons_of_pos (by simp [Action.moves, hmover]), List.length_cons]
      omega

/-- A call that cannot go on has ended, sleeps, or waits for a lock of another call. -/
lemma waits_of_statement (h : chargeWithIdempotency cfg s c call = none) :
    (∃ o, call.pc = .done o) ∨ call.Asleep s.now ∨
      (∃ u d, call.pc = .update u ∧ s.accountLock u = some d ∧ d ≠ c) ∨
      ∃ u balance d, call.pc = .insert u balance ∧ s.indexLock call.key = some d ∧ d ≠ c := by
  cases hpc : call.pc with
  | setnx =>
    simp only [chargeWithIdempotency, hpc] at h
    split at h <;> cases h
  | sleep u wake =>
    simp only [chargeWithIdempotency, chargeAccount, hpc] at h
    split_ifs at h with hwake
    exact .inr (.inl ⟨u, wake, hpc, not_le.mp hwake⟩)
  | update u =>
    by_contra hnot
    have hlock : Available s.accountLock u c := by
      intro d hd
      by_contra hne
      exact hnot (.inr (.inr (.inl ⟨u, d, rfl, hd, hne⟩)))
    simp only [chargeWithIdempotency, chargeAccount, hpc, hlock, if_true] at h
    split_ifs at h
    split at h
    · cases h
    · split_ifs at h
  | insert u balance =>
    simp only [chargeWithIdempotency, chargeAccount, hpc] at h
    split_ifs at h with _ hlock
    simp only [Available, not_forall] at hlock
    obtain ⟨d, hd, hne⟩ := hlock
    exact .inr (.inr (.inr ⟨u, balance, d, rfl, hd, hne⟩))
  | done o => exact .inl ⟨o, rfl⟩
  | lookup | commit _ _ | insertFailed _ | commitFailed _ | release _ | complete _ =>
    simp [chargeWithIdempotency, chargeAccount, hpc] at h

lemma statement_of_step (hc : s.calls c = some call) (h : step cfg s (.op c) = none) :
    chargeWithIdempotency cfg s c call = none := by
  simpa [step, stepCall, hc] using h

lemma HeldInv.rests (hi : HeldInv s) (hstuck : ∀ c, step cfg s (.op c) = none)
    (hc : s.calls c = some call) : (∃ o, call.pc = .done o) ∨ call.Asleep s.now := by
  have hindex : ∀ key c, s.indexLock key ≠ some c := by
    intro key c hl
    obtain ⟨call, balance, charge, hc, hpc⟩ := hi.index key c hl
    have hnone := statement_of_step hc (hstuck c)
    simp [chargeWithIdempotency, chargeAccount, hpc] at hnone
  have haccount : ∀ u c, s.accountLock u ≠ some c := by
    intro u c hl
    obtain ⟨call, hc, hholds⟩ := hi.account u c hl
    rcases waits_of_statement (statement_of_step hc (hstuck c)) with
      ⟨o, hpc⟩ | ⟨_, _, hpc, _⟩ | ⟨_, _, hpc, _⟩ | ⟨_, _, d, _, hd, _⟩
    · simp [hpc, Pc.HoldsAccount] at hholds
    · simp [hpc, Pc.HoldsAccount] at hholds
    · simp [hpc, Pc.HoldsAccount] at hholds
    · exact hindex _ d hd
  rcases waits_of_statement (statement_of_step hc (hstuck c)) with
    hdone | hasleep | ⟨u, d, _, hd, _⟩ | ⟨_, _, d, _, hd, _⟩
  · exact .inl hdone
  · exact .inr hasleep
  · exact absurd hd (haccount u d)
  · exact absurd hd (hindex _ d)

/-- Payments never wait for one another for ever: however their statements follow one another, and
whichever of them fail or are cancelled, there are at most eight steps for each call, and when no
call can send a statement every call has ended or is in its simulated network delay. -/
theorem payments_end (cfg : Config) {s₀ s : State} (hidle : ∀ c, s₀.calls c = none)
    (haccounts : ∀ u, s₀.accountLock u = none) (hindex : ∀ key, s₀.indexLock key = none)
    {calls : Finset CallId} {acts : List Action}
    (hacts : ∀ a ∈ acts, ∀ c, a.mover = some c → c ∈ calls)
    (h : exec (step cfg) s₀ acts = some s) :
    (acts.filter Action.moves).length ≤ 8 * calls.card ∧
      ((∀ c, step cfg s (.op c) = none) → ∀ c call, s.calls c = some call →
        (∃ o, call.pc = .done o) ∨ call.Asleep s.now) := by
  have hwork := work_of_exec hacts h
  have hstart : s₀.work calls = 8 * calls.card := by
    simp [State.work, left, hidle, mul_comm]
  have hi₀ : HeldInv s₀ := ⟨by simp [haccounts], by simp [hindex]⟩
  have hi : HeldInv s :=
    (reach_of_exec acts h).invariant hi₀ fun _ _ _ hi _ ht => heldInv_step ht hi
  refine ⟨by omega, fun hstuck c call hc => hi.rests hstuck hc⟩

/-- The second call of `overdrawn` waits for the account that the first has debited. -/
theorem payments_end_overdrawn :
    ∃ s, exec (step demoConfig) (openedState .redis 100) (overdrawn.take 8) = some s ∧
      step demoConfig s (.op 1) = none ∧
      ∃ c, step demoConfig s (.op c) ≠ none := by
  obtain ⟨s, call, hs, hwaits, hc, hpc⟩ : ∃ s call,
      exec (step demoConfig) (openedState .redis 100) (overdrawn.take 8) = some s ∧
        step demoConfig s (.op 1) = none ∧ s.calls 1 = some call ∧ call.pc = .update 1 :=
    ⟨_, _, rfl, rfl, rfl, rfl⟩
  refine ⟨s, hs, hwaits, ?_⟩
  by_contra hstuck
  simp only [not_exists, not_not] at hstuck
  have hmover : ∀ a ∈ overdrawn.take 8, ∀ c, a.mover = some c → c ∈ ({0, 1} : Finset CallId) := by
    simp [overdrawn, Action.mover]
  rcases (payments_end demoConfig (fun _ => rfl) (fun _ => rfl) (fun _ => rfl) hmover hs).2 hstuck
    1 call hc with ⟨o, hdone⟩ | ⟨u, wake, hsleep, _⟩
  · simp [hpc] at hdone
  · simp [hpc] at hsleep

end AsyncDataHub.Payment
