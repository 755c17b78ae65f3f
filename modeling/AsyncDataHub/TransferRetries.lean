import AsyncDataHub.TransferService

/-! What the attempts of a transfer come to, for every sequence of outcomes that they can have. -/
namespace AsyncDataHub.DbConcurrency
open LockTable Mvcc

def Outcome.NotSerializable (o : Outcome) : Prop :=
  o = .raised (.dbApiError (some serializationFailure))

def Outcome.Commits (o : Outcome) : Prop :=
  ∃ fromBalance toBalance, o = .returned fromBalance toBalance

/-- Attempts with the given outcomes; the state counts those that were made. -/
def scripted (attempts : ℕ → Outcome) (made : ℕ) : Option (Outcome × ℕ) :=
  some (attempts made, made + 1)

/-- `transfer` where its attempts have the given outcomes: the result, and how many were made. -/
def transferScript (maxRetries : ℤ) (request : TransferRequest) (isolation : IsolationLevel)
    (attempts : ℕ → Outcome) : Option (TransferResult × ℕ) :=
  transferLoop (scripted attempts) request isolation maxRetries maxRetries.toNat 0 0

/-- What is promised of the attempts: no further one after the first that is not 40001, the response
of the one that commits, the error of the others, and the error for exhausted retries exactly if
there was no other outcome. -/
structure Retries (maxRetries : ℤ) (request : TransferRequest) (isolation : IsolationLevel)
    (attempts : ℕ → Outcome) (result : TransferResult) (made : ℕ) : Prop where
  bounded : (made : ℤ) ≤ maxRetries
  repeated : ∀ k, k + 1 < made → (attempts k).NotSerializable
  committed : ∀ k < made, ∀ fromBalance toBalance,
    attempts k = .returned (some fromBalance) (some toBalance) →
      result = .response
        { fromId := request.fromId, toId := request.toId, amount := request.amount, fromBalance,
          toBalance, isolationLevel := isolation, retries := k }
  responds : ∀ response, result = .response response → ∃ k fromBalance toBalance,
    made = k + 1 ∧ response.retries = k ∧ (∀ i < k, (attempts i).NotSerializable) ∧
      attempts k = .returned (some fromBalance) (some toBalance)
  raises : ∀ k < made, ¬ (attempts k).NotSerializable → ∀ e, attempts k = .raised e →
    result = .raised (.transferError e)
  exhausted : result = .raised (.serializationRetriesExhausted request.fromId) ↔
    ∀ k : ℕ, k < maxRetries → (attempts k).NotSerializable
  answers : result ≠ .none
  once : ∀ i < made, ∀ j < made, (attempts i).Commits → (attempts j).Commits → i = j

variable {maxRetries : ℤ} {request : TransferRequest} {isolation : IsolationLevel}
  {attempts : ℕ → Outcome} {result : TransferResult}

/-- The loop over any attempts is the loop over the outcomes that they have one after the other. -/
theorem transferLoop_scripted {σ : Type*} {run : σ → Option (Outcome × σ)} {states : ℕ → σ}
    (hrun : ∀ k, run (states k) = some (attempts k, states (k + 1))) (n k : ℕ) :
    transferLoop run request isolation maxRetries n k (states k) =
      (transferLoop (scripted attempts) request isolation maxRetries n k k).map
        fun (result, made) => (result, states made) := by
  induction n generalizing k with
  | zero => rfl
  | succ n ih =>
    simp only [transferLoop, hrun, scripted, Option.bind_some]
    cases attempts k with
    | returned fromBalance toBalance => rfl
    | raised e =>
      cases e with
      | httpException _ _ | insufficientFunds _ => rfl
      | dbApiError sqlstate =>
        dsimp only
        split_ifs
        · rfl
        · exact ih (k + 1)
        · rfl

/-- What an attempt that is the last one ends the call with. -/
def ended (request : TransferRequest) (isolation : IsolationLevel) (attempt : ℕ) :
    Outcome → TransferResult
  | .returned fromBalance toBalance => respond request isolation attempt fromBalance toBalance
  | .raised e => .raised (.transferError e)

lemma isSerializationFailure_iff (sqlstate : Option String) :
    isSerializationFailure sqlstate = true ↔
      (Outcome.raised (.dbApiError sqlstate)).NotSerializable := by
  simp [isSerializationFailure, Outcome.NotSerializable]

lemma transferLoop_last {n k : ℕ} (hlast : ¬ (attempts k).NotSerializable) :
    transferLoop (scripted attempts) request isolation maxRetries (n + 1) k k =
      some (ended request isolation k (attempts k), k + 1) := by
  simp only [transferLoop, scripted, Option.bind_some]
  cases ho : attempts k with
  | returned fromBalance toBalance => rfl
  | raised e =>
    cases e with
    | httpException _ _ | insufficientFunds _ => rfl
    | dbApiError sqlstate =>
      rw [ho, ← isSerializationFailure_iff] at hlast
      simp [hlast, ended]

lemma transferLoop_again {n k : ℕ} (hfails : (attempts k).NotSerializable)
    (hk : (k : ℤ) ≤ maxRetries) :
    transferLoop (scripted attempts) request isolation maxRetries (n + 1) k k =
      transferLoop (scripted attempts) request isolation maxRetries n (k + 1) (k + 1) := by
  have hstate : isSerializationFailure (some serializationFailure) = true := rfl
  have hbound : ¬ (k : ℤ) > maxRetries := by omega
  simp [transferLoop, scripted, show attempts k = _ from hfails, hstate, hbound]

lemma transferLoop_repeats {n k m : ℕ} (hfails : ∀ i < m, (attempts (k + i)).NotSerializable)
    (hbound : (k : ℤ) + m ≤ maxRetries) :
    transferLoop (scripted attempts) request isolation maxRetries (m + n) k k =
      transferLoop (scripted attempts) request isolation maxRetries n (k + m) (k + m) := by
  induction m generalizing k with
  | zero => simp
  | succ m ih =>
    have hfirst : (attempts k).NotSerializable := by simpa using hfails 0 (by omega)
    have hrest : ∀ i < m, (attempts (k + 1 + i)).NotSerializable := by
      intro i hi
      have h := hfails (i + 1) (by omega)
      rwa [show k + (i + 1) = k + 1 + i by omega] at h
    rw [show m + 1 + n = m + n + 1 by omega, transferLoop_again hfirst (by omega),
      ih hrest (by push_cast at hbound ⊢; omega), show k + 1 + m = k + (m + 1) by omega]

lemma transferScript_stops {k : ℕ} (hk : (k : ℤ) < maxRetries)
    (hfails : ∀ i < k, (attempts i).NotSerializable) (hlast : ¬ (attempts k).NotSerializable) :
    transferScript maxRetries request isolation attempts =
      some (ended request isolation k (attempts k), k + 1) := by
  obtain ⟨n, hn⟩ : ∃ n, maxRetries.toNat = k + (n + 1) := ⟨maxRetries.toNat - k - 1, by omega⟩
  have hrun : transferLoop (scripted attempts) request isolation maxRetries (k + (n + 1)) 0 0 = _ :=
    transferLoop_repeats (by simpa using hfails) (by omega)
  rw [transferScript, hn, hrun, Nat.zero_add, transferLoop_last hlast]

lemma transferScript_falls_through (hpos : 1 ≤ maxRetries)
    (hfails : ∀ k : ℕ, k < maxRetries → (attempts k).NotSerializable) :
    transferScript maxRetries request isolation attempts = some (.none, maxRetries.toNat) := by
  have hrun : transferLoop (scripted attempts) request isolation maxRetries
      (maxRetries.toNat + 0) 0 0 = _ :=
    transferLoop_repeats (fun i hi => hfails _ (by omega)) (by omega)
  simpa [transferScript, transferLoop] using hrun

lemma ended_ne_exhausted (k : ℕ) (o : Outcome) :
    ended request isolation k o ≠ .raised (.serializationRetriesExhausted request.fromId) := by
  cases o with
  | returned fromBalance toBalance =>
    cases fromBalance <;> cases toBalance <;> simp [ended, respond]
  | raised e => simp [ended]

lemma ended_ne_none (k : ℕ) (o : Outcome) : ended request isolation k o ≠ .none := by
  cases o with
  | returned fromBalance toBalance =>
    cases fromBalance <;> cases toBalance <;> simp [ended, respond]
  | raised e => simp [ended]

lemma ended_response {k : ℕ} {o : Outcome} {response : TransferResponse}
    (h : ended request isolation k o = .response response) :
    response.retries = k ∧
      ∃ fromBalance toBalance, o = .returned (some fromBalance) (some toBalance) := by
  cases o with
  | raised e => simp [ended] at h
  | returned fromBalance toBalance =>
    cases fromBalance <;> cases toBalance <;> simp [ended, respond] at h
    exact ⟨by rw [← h], _, _, rfl⟩

lemma retries_of_stop {k : ℕ} (hk : (k : ℤ) < maxRetries)
    (hfails : ∀ i < k, (attempts i).NotSerializable) (hlast : ¬ (attempts k).NotSerializable) :
    Retries maxRetries request isolation attempts (ended request isolation k (attempts k))
      (k + 1) := by
  have hk' : ∀ i < k + 1, ¬ (attempts i).NotSerializable → i = k := by
    intro i hi hother
    by_contra hne
    exact hother (hfails i (by omega))
  have hcommit : ∀ i, (attempts i).Commits → ¬ (attempts i).NotSerializable := by
    rintro i ⟨fromBalance, toBalance, h⟩ hfail
    rw [Outcome.NotSerializable, h] at hfail
    cases hfail
  constructor
  case bounded => push_cast; omega
  case repeated => exact fun i hi => hfails i (by omega)
  case committed =>
    intro i hi fromBalance toBalance h
    obtain rfl := hk' i hi (hcommit i ⟨_, _, h⟩)
    rw [h]
    rfl
  case responds =>
    intro response h
    obtain ⟨hretries, fromBalance, toBalance, ho⟩ := ended_response h
    exact ⟨k, fromBalance, toBalance, rfl, hretries, hfails, ho⟩
  case raises =>
    intro i hi hother e h
    obtain rfl := hk' i hi hother
    rw [h]
    rfl
  case exhausted =>
    constructor
    · exact fun h => absurd h (ended_ne_exhausted k _)
    · exact fun h => absurd (h k hk) hlast
  case answers => exact ended_ne_none k _
  case once =>
    intro i hi j hj hcommits hcommits'
    rw [hk' i hi (hcommit i hcommits), hk' j hj (hcommit j hcommits')]

/-- The promise is kept exactly if some attempt within the limit does not end with 40001: the test
for exhausted retries compares with a number that the attempts do not reach. -/
theorem retries_kept_iff (hpos : 1 ≤ maxRetries) (request : TransferRequest)
    (isolation : IsolationLevel) (attempts : ℕ → Outcome) :
    (∃ result made,
      transferScript maxRetries request isolation attempts = some (result, made) ∧
        Retries maxRetries request isolation attempts result made) ↔
      ∃ k : ℕ, k < maxRetries ∧ ¬ (attempts k).NotSerializable := by
  constructor
  · rintro ⟨result, made, hrun, hkept⟩
    by_contra hnone
    push Not at hnone
    rw [transferScript_falls_through hpos hnone, Option.some.injEq, Prod.mk.injEq] at hrun
    exact hkept.answers hrun.1.symm
  · classical
    intro hsome
    obtain ⟨hk, hlast⟩ := Nat.find_spec hsome
    have hfails : ∀ i < Nat.find hsome, (attempts i).NotSerializable := by
      intro i hi
      have hmin := Nat.find_min hsome hi
      by_contra hother
      exact hmin ⟨by omega, hother⟩
    exact ⟨_, _, transferScript_stops hk hfails hlast, retries_of_stop hk hfails hlast⟩

def notSerializable : Outcome := .raised (.dbApiError (some serializationFailure))

/-- One attempt that fails, and then a commit. -/
def secondCommits (attempt : ℕ) : Outcome :=
  if attempt = 0 then notSerializable else .returned (some 90) (some 60)

theorem retries_kept_iff_secondCommits :
    ∃ result made,
      transferScript 3 tenOfA .serializable secondCommits = some (result, made) ∧
        Retries 3 tenOfA .serializable secondCommits result made :=
  (retries_kept_iff (by norm_num) tenOfA .serializable secondCommits).mpr
    ⟨1, by norm_num, by simp [secondCommits, Outcome.NotSerializable]⟩

/-- Under lasting contention the call returns without a response. -/
theorem contended_returns_none :
    transferScript 3 tenOfA .serializable (fun _ => notSerializable) = some (.none, 3) ∧
      ∀ result made,
        transferScript 3 tenOfA .serializable (fun _ => notSerializable) = some (result, made) →
          ¬ Retries 3 tenOfA .serializable (fun _ => notSerializable) result made := by
  have hrun : transferScript 3 tenOfA .serializable (fun _ => notSerializable) = some (.none, 3) :=
    transferScript_falls_through (by norm_num) fun _ _ => rfl
  refine ⟨hrun, fun result made h hkept => ?_⟩
  rw [hrun, Option.some.injEq, Prod.mk.injEq] at h
  exact hkept.answers h.1.symm

end AsyncDataHub.DbConcurrency
