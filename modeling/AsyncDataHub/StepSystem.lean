import Mathlib

/-! Machines given by a partial step function. Runs are lists of actions; a state may be
reached under a side condition that every step has to meet. -/
namespace AsyncDataHub.StepSystem

variable {σ α : Type*} {step : σ → α → Option σ} {G H : σ → α → Prop} {P I : σ → Prop}

/-- Run a list of actions; `none` as soon as one of them is not enabled. -/
def exec (step : σ → α → Option σ) : σ → List α → Option σ
  | s, [] => some s
  | s, a :: as => (step s a).bind fun t => exec step t as

/-- `t` is reached from `s` by steps that all meet the side condition `G`. -/
inductive ReachVia (step : σ → α → Option σ) (G : σ → α → Prop) (s : σ) : σ → Prop
  | refl : ReachVia step G s s
  | tail {t u : σ} {a : α} (prior : ReachVia step G s t) (guard : G t a)
      (taken : step t a = some u) : ReachVia step G s u

abbrev Reach (step : σ → α → Option σ) : σ → σ → Prop := ReachVia step fun _ _ => True

/-- `P` holds in every state of the run that takes `acts` from `s`. -/
def Along (step : σ → α → Option σ) (P : σ → Prop) : σ → List α → Prop
  | s, [] => P s
  | s, a :: as => P s ∧ ∀ t, step s a = some t → Along step P t as

/-- Every step of the run that takes `acts` from `s` meets `G`. -/
def Guarded (step : σ → α → Option σ) (G : σ → α → Prop) : σ → List α → Prop
  | _, [] => True
  | s, a :: as => ∀ t, step s a = some t → G s a ∧ Guarded step G t as

@[simp] theorem exec_nil (s : σ) : exec step s [] = some s := rfl

@[simp] theorem exec_cons (s : σ) (a : α) (as : List α) :
    exec step s (a :: as) = (step s a).bind fun t => exec step t as := rfl

theorem exec_cons_eq_some {s u : σ} {a : α} {as : List α} :
    exec step s (a :: as) = some u ↔ ∃ t, step s a = some t ∧ exec step t as = some u := by
  simp [Option.bind_eq_some_iff]

theorem exec_append (s : σ) (as bs : List α) :
    exec step s (as ++ bs) = (exec step s as).bind fun t => exec step t bs := by
  induction as generalizing s with
  | nil => rfl
  | cons a as ih =>
    rw [List.cons_append, exec_cons, exec_cons, Option.bind_assoc]
    congr 1
    funext t
    exact ih t

lemma ReachVia.trans {s t u : σ} (h : ReachVia step G s t) (g : ReachVia step G t u) :
    ReachVia step G s u := by
  induction g with
  | refl => exact h
  | tail _ hg ht ih => exact ih.tail hg ht

lemma ReachVia.single {s t : σ} {a : α} (hg : G s a) (ht : step s a = some t) :
    ReachVia step G s t := ReachVia.refl.tail hg ht

lemma ReachVia.mono {s t : σ} (h : ReachVia step G s t) (hi : ∀ s a, G s a → H s a) :
    ReachVia step H s t := by
  induction h with
  | refl => exact .refl
  | tail _ hg ht ih => exact ih.tail (hi _ _ hg) ht

lemma ReachVia.reach {s t : σ} (h : ReachVia step G s t) : Reach step s t :=
  h.mono fun _ _ _ => trivial

/-- The invariant rule: what holds at the start and is kept by every step taken under `G`
holds in every state reached. -/
theorem ReachVia.invariant {s t : σ} (h : ReachVia step G s t) (hs : I s)
    (hstep : ∀ s a t, I s → G s a → step s a = some t → I t) : I t := by
  induction h with
  | refl => exact hs
  | tail _ hg ht ih => exact hstep _ _ _ ih hg ht

/-- The invariant rule when the steps may use an invariant proved before. -/
theorem ReachVia.invariant_with {s t : σ} (h : ReachVia step G s t) {J : σ → Prop}
    (hJ : ∀ u, ReachVia step G s u → J u) (hs : I s)
    (hstep : ∀ s a t, J s → I s → G s a → step s a = some t → I t) : I t := by
  induction h with
  | refl => exact hs
  | tail hr hg ht ih => exact hstep _ _ _ (hJ _ hr) ih hg ht

theorem reachVia_of_exec {s t : σ} (acts : List α) (h : exec step s acts = some t)
    (hg : Guarded step G s acts) : ReachVia step G s t := by
  induction acts generalizing s with
  | nil =>
    simp only [exec_nil, Option.some.injEq] at h
    exact h ▸ .refl
  | cons a as ih =>
    obtain ⟨u, hu, hrest⟩ := exec_cons_eq_some.mp h
    obtain ⟨ha, hg'⟩ := hg u hu
    exact (ReachVia.single ha hu).trans (ih hrest hg')

lemma guarded_of_forall_mem {acts : List α} (hG : ∀ a ∈ acts, ∀ s, G s a) (s : σ) :
    Guarded step G s acts := by
  induction acts generalizing s with
  | nil => trivial
  | cons a as ih =>
    exact fun t _ => ⟨hG a (by simp) s, ih (fun b hb => hG b (List.mem_cons_of_mem a hb)) t⟩

lemma Guarded.cons {s t : σ} {a : α} {as : List α} (ht : step s a = some t) (hg : G s a)
    (h : Guarded step G t as) : Guarded step G s (a :: as) := by
  intro u hu
  rw [ht, Option.some.injEq] at hu
  exact ⟨hg, hu ▸ h⟩

theorem reach_of_exec {s t : σ} (acts : List α) (h : exec step s acts = some t) : Reach step s t :=
  reachVia_of_exec acts h (guarded_of_forall_mem (fun _ _ _ => trivial) s)

/-- When, under an unconditional invariant, a step taken from a `P`-state ends in a `P`-state
exactly if it meets `G`, a run stays in `P` exactly if all its steps meet `G`. -/
theorem along_iff_guarded (hI : ∀ s a t, I s → step s a = some t → I t)
    (hP : ∀ s a t, I s → P s → step s a = some t → (P t ↔ G s a))
    {s : σ} (acts : List α) (hs : I s) (hp : P s) :
    Along step P s acts ↔ Guarded step G s acts := by
  induction acts generalizing s with
  | nil => simp [Along, Guarded, hp]
  | cons a as ih =>
    simp only [Along, Guarded, hp, true_and]
    refine forall₂_congr fun t ht => ?_
    have hiff := hP s a t hs hp ht
    constructor
    · intro h
      have hpt : P t := by cases as <;> first | exact h | exact h.1
      exact ⟨hiff.mp hpt, (ih (hI s a t hs ht) hpt).mp h⟩
    · rintro ⟨hg, h⟩
      exact (ih (hI s a t hs ht) (hiff.mpr hg)).mpr h

/-- The same where the invariant, too, needs that the run has stayed in `P` and that its steps meet
an assumption. -/
theorem along_iff_guarded_under {A : σ → α → Prop}
    (hI : ∀ s a t, I s → P s → A s a → G s a → step s a = some t → I t)
    (hP : ∀ s a t, I s → P s → A s a → step s a = some t → (P t ↔ G s a))
    {s : σ} {acts : List α} (hA : Guarded step A s acts) (hs : I s) (hp : P s) :
    Along step P s acts ↔ Guarded step G s acts := by
  induction acts generalizing s with
  | nil => simp [Along, Guarded, hp]
  | cons a as ih =>
    simp only [Along, Guarded, hp, true_and]
    refine forall₂_congr fun t ht => ?_
    obtain ⟨ha, hrest⟩ := hA t ht
    have hiff := hP s a t hs hp ha ht
    constructor
    · intro h
      have hpt : P t := by cases as <;> first | exact h | exact h.1
      have hg := hiff.mp hpt
      exact ⟨hg, (ih hrest (hI s a t hs hp ha hg ht) hpt).mp h⟩
    · rintro ⟨hg, h⟩
      exact (ih hrest (hI s a t hs hp ha hg ht) (hiff.mpr hg)).mpr h

/-- When, under an unconditional invariant, a step ends in `P` exactly if it starts there and meets
`G`, a run ends in `P` exactly if it starts there and all its steps meet `G`. -/
theorem iff_guarded_of_exec (hI : ∀ s a t, I s → step s a = some t → I t)
    (hP : ∀ s a t, I s → step s a = some t → (P t ↔ P s ∧ G s a)) {s t : σ} {acts : List α}
    (hs : I s) (h : exec step s acts = some t) : P t ↔ P s ∧ Guarded step G s acts := by
  induction acts generalizing s with
  | nil =>
    simp only [exec_nil, Option.some.injEq] at h
    simp [Guarded, h]
  | cons a as ih =>
    obtain ⟨u, hu, hrest⟩ := exec_cons_eq_some.mp h
    rw [ih (hI s a u hs hu) hrest, hP s a u hs hu, and_assoc]
    refine and_congr_right fun _ => ⟨fun hg => Guarded.cons hu hg.1 hg.2, fun hg => hg u hu⟩

/-- Two runs of one list of actions stay related when each step can be matched. -/
theorem exec_simulation {R : σ → σ → Prop} {Q : α → Prop}
    (hstep : ∀ s u a t, R s u → Q a → step s a = some t → ∃ v, step u a = some v ∧ R t v)
    {s t u : σ} (hR : R s u) (acts : List α) (hok : ∀ a ∈ acts, Q a)
    (h : exec step s acts = some t) : ∃ v, exec step u acts = some v ∧ R t v := by
  induction acts generalizing s u with
  | nil =>
    simp only [exec_nil, Option.some.injEq] at h
    exact ⟨u, rfl, h ▸ hR⟩
  | cons a as ih =>
    obtain ⟨s', hs', hrest⟩ := exec_cons_eq_some.mp h
    obtain ⟨u', hu', hR'⟩ := hstep s u a s' hR (hok a (by simp)) hs'
    obtain ⟨v, hv, hRv⟩ := ih hR' (fun b hb => hok b (List.mem_cons_of_mem a hb)) hrest
    exact ⟨v, exec_cons_eq_some.mpr ⟨u', hu', hv⟩, hRv⟩

/-- What holds in every state reached under a side condition holds along every run that meets it. -/
theorem along_of_guarded {s : σ} (hP : ∀ t, ReachVia step G s t → P t) (acts : List α)
    (hg : Guarded step G s acts) : Along step P s acts := by
  induction acts generalizing s with
  | nil => exact hP s .refl
  | cons a as ih =>
    refine ⟨hP s .refl, fun t ht => ?_⟩
    obtain ⟨ha, hrest⟩ := hg t ht
    exact ih (fun u hu => hP u ((ReachVia.single ha ht).trans hu)) hrest

lemma Along.last {s t : σ} {acts : List α} (h : Along step P s acts)
    (ht : exec step s acts = some t) : P t := by
  induction acts generalizing s with
  | nil =>
    simp only [exec_nil, Option.some.injEq] at ht
    exact ht ▸ h
  | cons a as ih =>
    obtain ⟨u, hu, hrest⟩ := exec_cons_eq_some.mp ht
    exact ih (h.2 u hu) hrest

/-- A side condition that gives another one wherever it has held so far. -/
theorem Guarded.imp (hI : ∀ s a t, I s → G s a → step s a = some t → I t)
    (hGH : ∀ s a, I s → G s a → H s a) {s : σ} {acts : List α} (hs : I s)
    (h : Guarded step G s acts) : Guarded step H s acts := by
  induction acts generalizing s with
  | nil => trivial
  | cons a as ih =>
    intro t ht
    obtain ⟨hg, hrest⟩ := h t ht
    exact ⟨hGH s a hs hg, ih (hI s a t hs hg ht) hrest⟩

/-- Two side conditions that agree wherever the first has held so far admit the same runs. -/
theorem guarded_iff_guarded (hI : ∀ s a t, I s → G s a → step s a = some t → I t)
    (hGH : ∀ s a, I s → (G s a ↔ H s a)) {s : σ} (acts : List α) (hs : I s) :
    Guarded step G s acts ↔ Guarded step H s acts := by
  induction acts generalizing s with
  | nil => exact Iff.rfl
  | cons a as ih =>
    refine forall₂_congr fun t ht => ?_
    constructor
    · rintro ⟨hg, hrest⟩
      exact ⟨(hGH s a hs).mp hg, (ih (hI s a t hs hg ht)).mp hrest⟩
    · rintro ⟨hh, hrest⟩
      have hg := (hGH s a hs).mpr hh
      exact ⟨hg, (ih (hI s a t hs hg ht)).mpr hrest⟩

theorem update_eq_some {ι β : Type*} [DecidableEq ι] {f : ι → Option β} {i j : ι} {x y : β} :
    Function.update f i (some x) j = some y ↔ j = i ∧ x = y ∨ j ≠ i ∧ f j = some y := by
  by_cases h : j = i
  · subst h
    simp
  · simp [h]

/-- What holds of every party holds after one of them has moved, if it holds of that one. -/
theorem forall_update {ι β : Type*} [DecidableEq ι] {f : ι → Option β} {Q : ι → β → Prop}
    (h : ∀ i x, f i = some x → Q i x) {i : ι} {x : β} (hx : Q i x) :
    ∀ j y, Function.update f i (some x) j = some y → Q j y := by
  intro j y hy
  rcases update_eq_some.mp hy with ⟨rfl, rfl⟩ | ⟨_, hy⟩
  · exact hx
  · exact h j y hy

theorem update_eq_none {ι β : Type*} [DecidableEq ι] {f : ι → Option β} {i j : ι} {x : β} :
    Function.update f i (some x) j = none ↔ j ≠ i ∧ f j = none := by
  by_cases h : j = i
  · subst h
    simp
  · simp [h]

section History
variable {β : Type*} [DecidableEq β] {label : σ → Option β} {plan : Option β → List β}

/-- The labels of the states of a run, each written once for the time that it stays. -/
def history (step : σ → α → Option σ) (label : σ → Option β) : σ → List α → List β
  | s, [] => (label s).toList
  | s, a :: as =>
    match step s a with
    | none => (label s).toList
    | some t =>
      if label t = label s then history step label t as
      else (label s).toList ++ history step label t as

/-- `plan` gives what may still come from a label on. If every step keeps the label or goes on to
the plan of its new label, the history of a run begins what was planned. -/
theorem history_prefix (hplan : ∀ x, x.toList <+: plan x)
    (hI : ∀ s a t, I s → G s a → step s a = some t → I t)
    (hstep : ∀ s a t, I s → G s a → step s a = some t →
      label t = label s ∨ plan (label s) = (label s).toList ++ plan (label t))
    {s : σ} {acts : List α} (hs : I s) (hg : Guarded step G s acts) :
    history step label s acts <+: plan (label s) := by
  induction acts generalizing s with
  | nil => exact hplan _
  | cons a as ih =>
    unfold history
    cases ht : step s a with
    | none => exact hplan _
    | some t =>
      obtain ⟨ha, hrest⟩ := hg t ht
      have hprefix := ih (hI s a t hs ha ht) hrest
      simp only
      split_ifs with hsame
      · exact hsame ▸ hprefix
      · rcases hstep s a t hs ha ht with hkeep | hnext
        · exact absurd hkeep hsame
        · rw [hnext]
          exact (List.prefix_append_right_inj _).mpr hprefix

end History

section Termination
variable {μ : σ → ℕ}

/-- If every step lowers `μ`, no run from `s` is longer than `μ s`. -/
theorem length_le_of_decreasing (hI : ∀ s a t, I s → step s a = some t → I t)
    (hμ : ∀ s a t, I s → step s a = some t → μ t < μ s) {s t : σ} (hs : I s) (acts : List α)
    (h : exec step s acts = some t) : acts.length + μ t ≤ μ s := by
  induction acts generalizing s with
  | nil =>
    simp only [exec_nil, Option.some.injEq] at h
    simp [h]
  | cons a as ih =>
    obtain ⟨u, hu, hrest⟩ := exec_cons_eq_some.mp h
    have hlt := hμ s a u hs hu
    have hle := ih (hI s a u hs hu) hrest
    simp only [List.length_cons]
    omega

def Terminal (step : σ → α → Option σ) (s : σ) : Prop := ∀ a, step s a = none

/-- If every step lowers `μ`, every run extends to one that ends in a terminal state. -/
theorem exists_terminal (hI : ∀ s a t, I s → step s a = some t → I t)
    (hμ : ∀ s a t, I s → step s a = some t → μ t < μ s) {s : σ} (hs : I s) :
    ∃ acts t, exec step s acts = some t ∧ Terminal step t := by
  induction hn : μ s using Nat.strong_induction_on generalizing s with
  | _ n ih =>
    by_cases hterm : Terminal step s
    · exact ⟨[], s, rfl, hterm⟩
    · simp only [Terminal, not_forall, ← ne_eq, Option.ne_none_iff_exists'] at hterm
      obtain ⟨a, t, ht⟩ := hterm
      obtain ⟨acts, u, hu, hend⟩ := ih (μ t) (hn ▸ hμ s a t hs ht) (hI s a t hs ht) rfl
      exact ⟨a :: acts, u, by simp [ht, hu], hend⟩

end Termination

section Output
variable {β : Type*} {emit : σ → α → Option β}

def emitted (step : σ → α → Option σ) (emit : σ → α → Option β) : σ → List α → List β
  | _, [] => []
  | s, a :: as =>
    match step s a with
    | none => []
    | some t => (emit s a).toList ++ emitted step emit t as

/-- The invariant rule for a state and what has been emitted on the way to it. -/
theorem invariant_emitted {J : List β → σ → Prop}
    (hstep : ∀ out s a t, J out s → G s a → step s a = some t → J (out ++ (emit s a).toList) t)
    {out : List β} {s t : σ} {acts : List α} (hs : J out s) (hg : Guarded step G s acts)
    (h : exec step s acts = some t) : J (out ++ emitted step emit s acts) t := by
  induction acts generalizing s out with
  | nil =>
    simp only [exec_nil, Option.some.injEq] at h
    simpa [emitted, ← h] using hs
  | cons a as ih =>
    obtain ⟨u, hu, hrest⟩ := exec_cons_eq_some.mp h
    obtain ⟨ha, hg'⟩ := hg u hu
    have hnext := ih (hstep out s a u hs ha hu) hg' hrest
    simpa only [emitted, hu, List.append_assoc] using hnext

end Output

section Observer
variable {ο : Type*} {note : σ → α → ο → ο}

/-- The machine with an observer who takes notes of its steps. -/
def observed (step : σ → α → Option σ) (note : σ → α → ο → ο) (x : σ × ο) (a : α) :
    Option (σ × ο) :=
  (step x.1 a).map fun t => (t, note x.1 a x.2)

theorem observed_eq_some {x y : σ × ο} {a : α} :
    observed step note x a = some y ↔ step x.1 a = some y.1 ∧ y.2 = note x.1 a x.2 := by
  obtain ⟨t, notes⟩ := y
  simp only [observed, Option.map_eq_some_iff, Prod.mk.injEq]
  constructor
  · rintro ⟨u, hu, rfl, rfl⟩
    exact ⟨hu, rfl⟩
  · rintro ⟨ht, rfl⟩
    exact ⟨t, ht, rfl, rfl⟩

/-- The observer does not disturb the run. -/
theorem along_observed {s : σ} {notes : ο} {acts : List α} :
    Along (observed step note) (fun x => P x.1) (s, notes) acts ↔ Along step P s acts := by
  induction acts generalizing s notes with
  | nil => exact Iff.rfl
  | cons a as ih =>
    refine and_congr_right fun _ => ?_
    constructor
    · intro h t ht
      exact ih.mp (h (t, _) (observed_eq_some.mpr ⟨ht, rfl⟩))
    · rintro h ⟨t, notes'⟩ hy
      obtain ⟨ht, rfl⟩ := observed_eq_some.mp hy
      exact ih.mpr (h t ht)

theorem guarded_observed {s : σ} {notes : ο} {acts : List α} :
    Guarded (observed step note) (fun x => G x.1) (s, notes) acts ↔ Guarded step G s acts := by
  induction acts generalizing s notes with
  | nil => exact Iff.rfl
  | cons a as ih =>
    constructor
    · intro h t ht
      obtain ⟨hg, hrest⟩ := h (t, _) (observed_eq_some.mpr ⟨ht, rfl⟩)
      exact ⟨hg, ih.mp hrest⟩
    · rintro h ⟨t, notes'⟩ hy
      obtain ⟨ht, rfl⟩ := observed_eq_some.mp hy
      obtain ⟨hg, hrest⟩ := h t ht
      exact ⟨hg, ih.mpr hrest⟩

end Observer

section Restriction
variable {ok : α → Bool}

def restrict (step : σ → α → Option σ) (ok : α → Bool) (s : σ) (a : α) : Option σ :=
  if ok a then step s a else none

theorem restrict_eq_some {s t : σ} {a : α} :
    restrict step ok s a = some t ↔ ok a = true ∧ step s a = some t := by
  unfold restrict
  split_ifs with h <;> simp [h]

lemma Terminal.step_eq_none {s : σ} {a : α} (h : Terminal (restrict step ok) s)
    (ha : ok a = true) : step s a = none := by simpa [restrict, ha] using h a

end Restriction

end AsyncDataHub.StepSystem
