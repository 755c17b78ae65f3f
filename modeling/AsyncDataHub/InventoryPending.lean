import AsyncDataHub.InventoryStep

/-! What a call may rely on while it has a row lock: an UPDATE that is not committed yet was made on
the row as it is, under any mix of strategies. -/
namespace AsyncDataHub.Inventory
open StepSystem LockTable

variable {cfg : Config} {s t : State} {a : Action} {c d : CallId} {u : Uuid}

/-- Only the optimistic strategy sets the version. -/
def Call.bumped (call : Call) (version : ℤ) : ℤ :=
  if call.strategy = .optimistic then nextVersion version else version

lemma le_bumped (call : Call) (version : ℤ) : version ≤ call.bumped version := by
  unfold Call.bumped nextVersion
  split_ifs <;> omega

/-- A pending write has its row lock, and the version it sets follows from the committed row. -/
def Call.Pending (s : State) (c : CallId) (call : Call) : Prop :=
  match call.pc with
  | .record w | .commit w _ => s.rowLock w.product = some c ∧
      ∃ p, s.products w.product = some p ∧ w.row.version = call.bumped p.version
  | _ => True

def PendingInv (s : State) : Prop := ∀ c call, s.calls c = some call → call.Pending s c

/-- The calls whose own steps these are. -/
def Action.actor : Action → Option CallId
  | .op c | .abort c | .crash c => some c
  | _ => none

/-- What `c` has locked stays locked and as it is. -/
def Undisturbed (s t : State) (c : CallId) : Prop :=
  ∀ u, s.rowLock u = some c → t.rowLock u = some c ∧ t.products u = s.products u

lemma pending_exit (call : Call) (o : Outcome) :
    Call.Pending s c { call with pc := call.exit o } := by
  rcases exit_eq call o with h | h <;> rw [h] <;> trivial

lemma pending_startPc (now : ℕ) (productId : String) (q : ℤ) (strategy : ReserveStrategy) :
    Call.Pending s c ⟨productId, q, strategy, startPc cfg now strategy⟩ := by
  cases strategy <;> simp only [startPc]
  case optimistic => split_ifs <;> trivial
  all_goals trivial

lemma Call.Pending.frame {call : Call} (h : call.Pending s c) (hu : Undisturbed s t c) :
    call.Pending t c := by
  unfold Call.Pending at *
  cases hpc : call.pc <;> simp only [hpc] at h ⊢
  all_goals
    obtain ⟨hlock, p, hp, hv⟩ := h
    obtain ⟨hlock', hrow⟩ := hu _ hlock
    exact ⟨hlock', p, hrow ▸ hp, hv⟩

lemma undisturbed_of_step (hi : PendingInv s) (h : step cfg s a = some t)
    (ha : a.actor ≠ some d) : Undisturbed s t d := by
  intro u hl
  cases took_of_step h with
  | start _ | tick _ => exact ⟨hl, rfl⟩
  | @op c call eff hc hdoes =>
    have hne : d ≠ c := fun he => ha (by rw [he]; rfl)
    refine ⟨rowLock_of_does hdoes hne hl, ?_⟩
    cases hdoes with
    | @publishes w r hpc =>
      have hpend := hi c call hc
      simp only [Call.Pending, hpc] at hpend
      have hu : u ≠ w.product := by
        rintro rfl
        rw [hl, Option.some.injEq] at hpend
        exact hne hpend.1
      exact Function.update_of_ne hu _ _
    | _ => rfl
  | @abort c call eff hc heff =>
    have hne : d ≠ c := fun he => ha (by rw [he]; rfl)
    refine ⟨rowLock_of_abort heff hne hl, ?_⟩
    rcases abortEffect_cases heff with ⟨_, e, rfl⟩ | ⟨_, e, rfl⟩ <;> rfl
  | @crash c call hc _ =>
    have hne : d ≠ c := fun he => ha (by rw [he]; rfl)
    exact ⟨releaseAll_eq_some.mpr ⟨hl, hne⟩, rfl⟩

/-- The rule for facts about a call that rest on what the call has locked: it is enough to look at
the statements of the call itself. -/
theorem callInv_step {Φ : State → CallId → Call → Prop} (hpend : PendingInv s)
    (hframe : ∀ {s t c call}, Undisturbed s t c → Φ s c call → Φ t c call)
    (hstart : ∀ {s c productId q strategy now},
      Φ s c ⟨productId, q, strategy, startPc cfg now strategy⟩)
    (hend : ∀ {s c o} {call : Call} {pc : Pc}, pc = .release o ∨ pc = .done o →
      Φ s c { call with pc })
    (hdoes : ∀ {c call eff}, s.calls c = some call → reserveProduct cfg s c call = some eff →
      Φ s c call → Φ (s.apply c call eff) c { call with pc := eff.pc call })
    (h : step cfg s a = some t) (hi : ∀ c call, s.calls c = some call → Φ s c call) :
    ∀ c call, t.calls c = some call → Φ t c call := by
  intro d call' hd
  by_cases ha : a.actor = some d
  · cases a with
    | op c =>
      obtain rfl := Option.some.inj ha
      simp only [step] at h
      split at h
      · cases h
      · rename_i call hc
        obtain ⟨eff, heff, rfl⟩ := Option.map_eq_some_iff.mp h
        rw [apply_calls, Function.update_self, Option.some.injEq] at hd
        exact hd ▸ hdoes hc heff (hi c call hc)
    | abort c =>
      obtain rfl := Option.some.inj ha
      simp only [step] at h
      split at h
      · cases h
      · rename_i call hc
        obtain ⟨eff, heff, rfl⟩ := Option.map_eq_some_iff.mp h
        rw [apply_calls, Function.update_self, Option.some.injEq] at hd
        rcases abortEffect_cases heff with ⟨_, e, rfl⟩ | ⟨_, e, rfl⟩
        · exact hd ▸ hend (exit_eq call _)
        · exact hd ▸ hend (.inr rfl)
    | crash c =>
      obtain rfl := Option.some.inj ha
      cases took_of_step h with
      | crash _ _ =>
        rcases update_eq_some.mp hd with ⟨_, rfl⟩ | ⟨hne, _⟩
        · exact hend (.inr rfl)
        · exact absurd rfl hne
    | start _ _ _ _ | tick _ => cases ha
  · have hu := undisturbed_of_step hpend h ha
    have hold (hd : s.calls d = some call') : Φ t d call' := hframe hu (hi d call' hd)
    cases took_of_step h with
    | start _ =>
      rcases update_eq_some.mp hd with ⟨_, rfl⟩ | ⟨_, hd⟩
      · exact hstart
      · exact hold hd
    | op _ _ | abort _ _ =>
      rw [apply_calls] at hd
      rcases update_eq_some.mp hd with ⟨rfl, _⟩ | ⟨_, hd⟩
      · exact absurd rfl ha
      · exact hold hd
    | crash _ _ =>
      rcases update_eq_some.mp hd with ⟨rfl, _⟩ | ⟨_, hd⟩
      · exact absurd rfl ha
      · exact hold hd
    | tick _ => exact hold hd

lemma pending_of_does {call : Call} {eff : Effect} (hp : call.Pending s c)
    (h : Does cfg s c call eff) :
    Call.Pending (s.apply c call eff) c { call with pc := eff.pc call } := by
  cases h with
  | fails e _ => exact pending_exit call _
  | publishes _ => exact pending_exit call _
  | overwrites _ _ hrow hstrat _ =>
    refine ⟨take_self .., _, hrow, ?_⟩
    simp [Call.bumped, hstrat]
  | swaps _ _ hrow hstrat _ =>
    refine ⟨take_self .., _, hrow, ?_⟩
    simp [Call.bumped, hstrat]
  | decrements _ _ hrow _ hstrat _ =>
    refine ⟨take_self .., _, hrow, ?_⟩
    simp [Call.bumped, hstrat]
  | records hpc =>
    simp only [Call.Pending, hpc] at hp
    exact hp
  | _ => trivial

theorem pendingInv_step (h : step cfg s a = some t) (hi : PendingInv s) : PendingInv t := by
  refine callInv_step (Φ := fun s c call => call.Pending s c) hi
    (fun hu hp => hp.frame hu) (pending_startPc ..) ?_
    (fun _ heff hp => pending_of_does hp (does_of_reserveProduct heff)) h hi
  rintro s c call o pc (rfl | rfl) <;> trivial

end AsyncDataHub.Inventory
